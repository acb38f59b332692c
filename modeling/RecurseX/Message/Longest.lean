import RecurseX.Message.Truncate

/-!
# Truncation keeps the longest prefix that fits

`truncateForUdp` measures the records in one pass. What it keeps is compared here
with the plain way to do it, which serializes the message again for each record it
drops. The two agree but for one value of the limit: `wireLen` stands for a failed
serialization by the largest `usize`, and a limit of that size is not exceeded by it.
-/

namespace RecurseX

open Library Wire

namespace Message

/-! ## The plain truncation -/

/-- The message serializes within `limit` octets. -/
def Fits (self : Message) (limit : Nat) : Prop :=
  ∃ bytes, self.toBytes = .ok bytes ∧ bytes.length ≤ limit

instance (self : Message) (limit : Nat) : Decidable (self.Fits limit) :=
  match serialized : self.toBytes with
  | .ok bytes =>
      if within : bytes.length ≤ limit then isTrue ⟨bytes, serialized, within⟩
      else isFalse fun ⟨others, produced, fits⟩ => by
        rw [serialized] at produced
        cases produced
        exact within fits
  | .error _ => isFalse fun ⟨others, produced, _⟩ => by
      rw [serialized] at produced
      cases produced

/-- Every record of the message, in the order they are written. -/
def records (self : Message) : List Record :=
  self.answers ++ (self.authorities ++ self.additionals)

/-- The message without its last record. -/
def dropLastRecord (self : Message) : Message :=
  if self.additionals ≠ [] then { self with additionals := self.additionals.dropLast }
  else if self.authorities ≠ [] then { self with authorities := self.authorities.dropLast }
  else { self with answers := self.answers.dropLast }

/-- Drop the last record until the message fits, at most `count` times. -/
def dropUntilFits (limit : Nat) : (count : Nat) → Message → Message
  | 0, message => message
  | count + 1, message =>
      if message.Fits limit then message else dropUntilFits limit count message.dropLastRecord

/-- The message marked as truncated. -/
def marked (self : Message) : Message := { self with flags := { self.flags with tc := true } }

/-- The message with the first `count` of its records. -/
def keepFirst (self : Message) (count : Nat) : Message :=
  { self with
    answers := self.answers.take count
    authorities := self.authorities.take (count - self.answers.length)
    additionals := self.additionals.take (count - self.answers.length - self.authorities.length) }

/-- What is asked of a truncation: nothing happens to a message that fits; of another one
the longest prefix of the records is kept that fits, none if none does, as dropping the
last record until the rest fits would. -/
structure Truncated (message : Message) (limit : Nat) (result : Message) : Prop where
  unchanged : message.Fits limit → result = message
  longest : ¬ message.Fits limit → ∃ count, count ≤ message.records.length ∧
    result = message.marked.keepFirst count ∧
    (count = 0 ∨ (message.marked.keepFirst count).Fits limit) ∧
    ∀ more, count < more → more ≤ message.records.length → ¬ (message.marked.keepFirst more).Fits limit
  naive : ¬ message.Fits limit → result = dropUntilFits limit message.records.length message.marked
  fits : message.minimalLen ≤ limit → result.Fits limit

/-! ## Prefixes of a message -/

theorem records_keepFirst (self : Message) (count : Nat) :
    (self.keepFirst count).records = self.records.take count := by
  simp only [records, keepFirst, List.take_append]

theorem keepFirst_all (self : Message) : self.keepFirst self.records.length = self := by
  have answers : self.answers.length ≤ self.records.length := by
    simp only [records, List.length_append]
    omega
  have authorities : self.authorities.length ≤ self.records.length - self.answers.length := by
    simp only [records, List.length_append]
    omega
  have additionals : self.additionals.length ≤
      self.records.length - self.answers.length - self.authorities.length := by
    simp only [records, List.length_append]
    omega
  rw [keepFirst, List.take_of_length_le answers, List.take_of_length_le authorities,
    List.take_of_length_le additionals]

/-- Dropping the last record of a prefix gives the prefix shorter by one. -/
theorem dropLastRecord_keepFirst {self : Message} {count : Nat}
    (inside : count + 1 ≤ self.records.length) :
    (self.keepFirst (count + 1)).dropLastRecord = self.keepFirst count := by
  simp only [records, List.length_append] at inside
  have shorter : ∀ {items : List Record} {size : Nat}, size < items.length →
      (items.take (size + 1)).dropLast = items.take size := by
    intro items size within
    rw [List.dropLast_eq_take, List.length_take, List.take_take]
    exact congrArg (fun size => items.take size) (by omega)
  have some : ∀ {items : List Record} {size : Nat}, size < items.length →
      items.take (size + 1) ≠ [] := by
    intro items size within
    rw [← List.length_pos_iff, List.length_take]
    omega
  have all : ∀ {items : List Record} {size : Nat}, items.length ≤ size →
      items.take (size + 1) = items.take size := by
    intro items size short
    rw [List.take_of_length_le short, List.take_of_length_le (by omega)]
  by_cases early : count < self.answers.length
  · have answers : count + 1 - self.answers.length = 0 := by omega
    have before : count - self.answers.length = 0 := by omega
    simp [dropLastRecord, keepFirst, answers, before, shorter early]
  by_cases middle : count - self.answers.length < self.authorities.length
  · have answers : count + 1 - self.answers.length = count - self.answers.length + 1 := by omega
    have authorities : count - self.answers.length + 1 - self.authorities.length = 0 := by omega
    have before : count - self.answers.length - self.authorities.length = 0 := by omega
    simp only [dropLastRecord, keepFirst, answers, authorities, before, List.take_zero, ne_eq,
      not_true_eq_false, if_false, if_pos (some middle), shorter middle,
      all (Nat.le_of_not_lt early)]
  · have answers : count + 1 - self.answers.length = count - self.answers.length + 1 := by omega
    have authorities : count - self.answers.length + 1 - self.authorities.length =
        count - self.answers.length - self.authorities.length + 1 := by omega
    have late : count - self.answers.length - self.authorities.length < self.additionals.length := by
      omega
    simp only [dropLastRecord, keepFirst, answers, authorities, if_pos (some late), shorter late,
      all (Nat.le_of_not_lt early), all (Nat.le_of_not_lt middle)]

/-- Dropping records stops at the longest prefix that fits. -/
theorem dropUntilFits_keepFirst {self : Message} {limit count : Nat}
    (kept : count = 0 ∨ (self.keepFirst count).Fits limit) :
    ∀ {total : Nat}, count ≤ total → total ≤ self.records.length →
      (∀ more, count < more → more ≤ total → ¬ (self.keepFirst more).Fits limit) →
      dropUntilFits limit total (self.keepFirst total) = self.keepFirst count
  | 0, reached, _, _ => by
      obtain rfl := Nat.le_zero.mp reached
      rfl
  | total + 1, reached, inside, longest => by
      rw [dropUntilFits]
      rcases Nat.lt_or_eq_of_le reached with further | rfl
      · rw [if_neg (longest (total + 1) further (Nat.le_refl _)), dropLastRecord_keepFirst inside]
        exact dropUntilFits_keepFirst kept (Nat.le_of_lt_succ further) (Nat.le_of_succ_le inside)
          fun more later within => longest more later (Nat.le_succ_of_le within)
      · rw [if_pos (kept.resolve_left (Nat.succ_ne_zero total))]

/-! ## One pass over the records -/

theorem writeRecords_append (sink : Sink) (first second : List Record) :
    writeRecords sink (first ++ second) = (do
      let sink ← writeRecords sink first
      writeRecords sink second) :=
  List.foldlM_append

/-- The sections are written one after another, so they are written as one list. -/
theorem writeSections_eq (self : Message) :
    self.writeSections = writeRecords self.writeFront self.records := by
  simp only [writeSections, records, writeRecords_append]

theorem fits_iff {self : Message} {limit : Nat} :
    self.Fits limit ↔ ∃ written, writeRecords self.writeFront self.records = .ok written ∧
      written.out.length ≤ limit - self.optLen := by
  have length := self.toBytes_length
  have header : 12 ≤ self.writeFront.out.length :=
    Nat.le_trans (by simp) (length_le_writeQuestions self.questions _)
  rw [← writeSections_eq]
  constructor
  · rintro ⟨bytes, produced, within⟩
    rw [produced] at length
    cases serialized : self.writeSections with
    | error error =>
        rw [serialized] at length
        cases length
    | ok written =>
        rw [serialized] at length
        have equal : bytes.length = written.out.length + self.optLen := Except.ok.inj length
        exact ⟨written, rfl, by omega⟩
  · rintro ⟨written, serialized, within⟩
    obtain ⟨bytes, produced, equal⟩ := length_of_toBytes serialized
    have grown := length_le_writeSections serialized
    exact ⟨bytes, produced, by omega⟩

/-- Without records only the part is left that truncation keeps. -/
theorem fits_of_no_records {self : Message} {limit : Nat} (none : self.records = [])
    (minimal : self.minimalLen ≤ limit) : self.Fits limit := by
  refine fits_iff.mpr ⟨self.writeFront, by rw [none]; rfl, ?_⟩
  rw [minimalLen] at minimal
  omega

/-- A prefix of the records is accepted exactly when it is written within the budget. -/
theorem le_count_fitRecords_iff (budget : Nat) {records : List Record} {sink : Sink} {count : Nat}
    (some : 0 < count) (inside : count ≤ records.length) :
    count ≤ (fitRecords budget records sink).count ↔
      ∃ written, writeRecords sink (records.take count) = .ok written ∧
        written.out.length ≤ budget := by
  induction records generalizing sink count with
  | nil => exact absurd inside (Nat.not_le.mpr some)
  | cons record records inductionHypothesis =>
      obtain ⟨count, rfl⟩ : ∃ fewer, count = fewer + 1 := ⟨count - 1, by omega⟩
      have step : writeRecords sink ((record :: records).take (count + 1)) = (do
          let sink ← record.toWire sink
          writeRecords sink (records.take count)) := by
        rw [List.take_succ_cons]
        exact List.foldlM_cons
      rw [step]
      cases serialized : record.toWire sink with
      | error error =>
          simp only [fitRecords, serialized]
          refine ⟨fun impossible => absurd impossible (Nat.not_succ_le_zero _), ?_⟩
          rintro ⟨_, ⟨⟩, _⟩
      | ok written =>
          rw [ok_bind]
          by_cases exceeds : written.out.length > budget
          · simp only [fitRecords, serialized, if_pos exceeds]
            refine ⟨fun impossible => absurd impossible (Nat.not_succ_le_zero _), ?_⟩
            rintro ⟨last, further, within⟩
            have grown := length_le_writeRecords further
            omega
          · simp only [fitRecords, serialized, if_neg exceeds, Nat.add_le_add_iff_right]
            rcases Nat.eq_zero_or_pos count with rfl | more
            · exact ⟨fun _ => ⟨written, rfl, Nat.le_of_not_lt exceeds⟩, fun _ => Nat.zero_le _⟩
            · exact inductionHypothesis more (Nat.le_of_succ_le_succ inside)

theorem count_fitRecords_le (budget : Nat) (records : List Record) (sink : Sink) :
    (fitRecords budget records sink).count ≤ records.length := by
  induction records generalizing sink with
  | nil => exact Nat.le_refl _
  | cons record records inductionHypothesis =>
      rw [fitRecords]
      cases record.toWire sink with
      | error error => exact Nat.zero_le _
      | ok written =>
          by_cases exceeds : written.out.length > budget
          · simp only [if_pos exceeds]
            exact Nat.zero_le _
          · simp only [if_neg exceeds, List.length_cons]
            exact Nat.succ_le_succ (inductionHypothesis written)

theorem fitRecords_append (budget : Nat) (first second : List Record) (sink : Sink) :
    fitRecords budget (first ++ second) sink =
      if (fitRecords budget first sink).complete then
        { fitRecords budget second (fitRecords budget first sink).sink with
          count := first.length +
            (fitRecords budget second (fitRecords budget first sink).sink).count }
      else fitRecords budget first sink := by
  induction first generalizing sink with
  | nil => simp [fitRecords]
  | cons record records inductionHypothesis =>
      simp only [List.cons_append, fitRecords]
      cases record.toWire sink with
      | error error => simp
      | ok written =>
          by_cases exceeds : written.out.length > budget
          · simp [if_pos exceeds]
          · simp only [if_neg exceeds, inductionHypothesis written]
            cases complete : (fitRecords budget records written).complete <;>
              simp [complete, Nat.add_right_comm]

theorem count_fitRecords_of_complete {budget : Nat} {records : List Record} {sink : Sink}
    (complete : (fitRecords budget records sink).complete = true) :
    (fitRecords budget records sink).count = records.length := by
  induction records generalizing sink with
  | nil => rfl
  | cons record records inductionHypothesis =>
      rw [fitRecords] at complete ⊢
      cases serialized : record.toWire sink with
      | error error =>
          rw [serialized] at complete
          cases complete
      | ok written =>
          simp only [serialized] at complete ⊢
          by_cases exceeds : written.out.length > budget
          · simp [if_pos exceeds] at complete
          · simp only [if_neg exceeds] at complete ⊢
            rw [inductionHypothesis complete, List.length_cons]

/-- The counts of the three sections make one prefix of the records. -/
theorem cutTo_fitSections (self : Message) (limit : Nat) :
    self.cutTo (self.fitSections limit) =
      self.keepFirst (fitRecords (limit - self.optLen) self.records self.writeFront).count := by
  simp only [records, fitRecords_append, fitSections, cutTo, keepFirst]
  have answers := count_fitRecords_le (limit - self.optLen) self.answers self.writeFront
  cases first : (fitRecords (limit - self.optLen) self.answers self.writeFront).complete with
  | false =>
      have none : (fitRecords (limit - self.optLen) self.answers self.writeFront).count -
          self.answers.length = 0 := by omega
      simp [none]
  | true =>
      rw [count_fitRecords_of_complete first]
      generalize (fitRecords (limit - self.optLen) self.answers self.writeFront).sink = sink
      have authorities := count_fitRecords_le (limit - self.optLen) self.authorities sink
      cases second : (fitRecords (limit - self.optLen) self.authorities sink).complete with
      | false =>
          have none : (fitRecords (limit - self.optLen) self.authorities sink).count -
              self.authorities.length = 0 := by omega
          simp [none, List.take_of_length_le (Nat.le_add_right _ _)]
      | true =>
          rw [count_fitRecords_of_complete second]
          simp [List.take_of_length_le (Nat.le_add_right _ _)]

end Message

/-! ## The mark changes no length -/

namespace Sink

theorem SameShape.symm {first second : Sink} (same : SameShape first second) :
    SameShape second first :=
  ⟨same.1.symm, same.2.symm⟩

theorem SameShape.putAll {pieces : List Piece} :
    ∀ {first second : Sink}, SameShape first second →
      SameShape (first.putAll pieces) (second.putAll pieces) := by
  induction pieces with
  | nil => exact fun same => same
  | cons piece pieces inductionHypothesis =>
      intro first second same
      cases piece with
      | octets bytes => exact inductionHypothesis (same.extend rfl)
      | name name allow => exact inductionHypothesis (same.name name allow)

end Sink

namespace Message

/-! ## The two truncations agree -/

/-- The message does not serialize within the limit, and the one pass is made. -/
theorem truncateForUdp_of_long {self : Message} {limit : Nat} (long : max limit 512 < self.wireLen) :
    self.truncateForUdp limit = self.marked.keepFirst
      (fitRecords (max limit 512 - self.marked.optLen) self.marked.records
        self.marked.writeFront).count := by
  rw [← cutTo_fitSections, truncateForUdp, if_neg (Nat.not_le.mpr long)]
  rfl

theorem fits_keepFirst_iff {self : Message} {limit count : Nat} (some : 0 < count)
    (inside : count ≤ self.records.length) :
    (self.keepFirst count).Fits limit ↔
      count ≤ (fitRecords (limit - self.optLen) self.records self.writeFront).count := by
  rw [le_count_fitRecords_iff _ some inside, fits_iff, records_keepFirst]
  rfl

/-- The one pass finds the longest prefix that fits. -/
theorem truncated_keepFirst {self : Message} {limit : Nat} (long : ¬ self.Fits limit) :
    self.Truncated limit (self.marked.keepFirst
      (fitRecords (limit - self.marked.optLen) self.marked.records self.marked.writeFront).count) := by
  generalize counted : (fitRecords (limit - self.marked.optLen) self.marked.records
    self.marked.writeFront).count = count
  have inside : count ≤ self.marked.records.length := by
    rw [← counted]
    exact count_fitRecords_le _ _ _
  have kept : count = 0 ∨ (self.marked.keepFirst count).Fits limit := by
    rcases Nat.eq_zero_or_pos count with none | some
    · exact .inl none
    · exact .inr ((fits_keepFirst_iff some inside).mpr (Nat.le_of_eq counted.symm))
  have longest : ∀ more, count < more → more ≤ self.marked.records.length →
      ¬ (self.marked.keepFirst more).Fits limit := by
    intro more later within fits
    have bound := (fits_keepFirst_iff (Nat.lt_of_le_of_lt (Nat.zero_le _) later) within).mp fits
    omega
  refine ⟨fun fits => absurd fits long, fun _ => ⟨count, inside, rfl, kept, longest⟩, fun _ => ?_,
    fun minimal => ?_⟩
  · have dropped := dropUntilFits_keepFirst kept inside (Nat.le_refl _) longest
    rw [keepFirst_all] at dropped
    exact dropped.symm
  · rcases kept with rfl | fits
    · have front : (self.marked.keepFirst 0).writeFront.out.length = self.writeFront.out.length :=
        length_writeFront_congr rfl
      refine fits_of_no_records (by rw [records_keepFirst, List.take_zero]) ?_
      rw [minimalLen, front]
      exact minimal
    · exact fits

/-- Both truncations give the same message exactly when the limit is below the largest
`usize` or the message serializes. -/
theorem truncateForUdp_truncated_iff (self : Message) (limit : Nat) :
    self.Truncated (max limit 512) (self.truncateForUdp limit) ↔
      limit < usizeMax ∨ ∃ bytes, self.toBytes = .ok bytes := by
  have large : 512 < usizeMax := by decide
  constructor
  · intro truncated
    by_contra neither
    obtain ⟨huge, fails⟩ := not_or.mp neither
    have long : ∀ bound, ¬ self.Fits bound := by
      rintro bound ⟨bytes, produced, _⟩
      exact fails ⟨bytes, produced⟩
    have sentinel : self.wireLen = usizeMax := by
      rw [wireLen]
      cases produced : self.toBytes with
      | ok bytes => exact absurd ⟨bytes, produced⟩ fails
      | error error => rfl
    have same : self.truncateForUdp limit = self := by
      rw [truncateForUdp, if_pos (by rw [sentinel]; omega)]
    obtain ⟨count, _, kept, none | fits, _⟩ := truncated.longest (long _)
    · -- A message without records always serializes.
      have records : self.records = [] := by
        rw [← same, kept, none, records_keepFirst, List.take_zero]
      exact long _ (fits_of_no_records records (Nat.le_refl _))
    · rw [← kept, same] at fits
      exact long _ fits
  · intro met
    cases produced : self.toBytes with
    | error error =>
        have long : ¬ self.Fits (max limit 512) := by
          rintro ⟨bytes, served, _⟩
          rw [produced] at served
          cases served
        have below := met.resolve_right (by
          rintro ⟨bytes, served⟩
          rw [produced] at served
          cases served)
        rw [truncateForUdp_of_long (by simp only [wireLen, produced]; omega)]
        exact truncated_keepFirst long
    | ok bytes =>
        have length : self.wireLen = bytes.length := by simp only [wireLen, produced]
        by_cases within : bytes.length ≤ max limit 512
        · have fits : self.Fits (max limit 512) := ⟨bytes, produced, within⟩
          rw [truncateForUdp, if_pos (by rw [length]; exact within)]
          exact ⟨fun _ => rfl, fun long => absurd fits long, fun long => absurd fits long,
            fun _ => fits⟩
        · have long : ¬ self.Fits (max limit 512) := by
            rintro ⟨others, served, fits⟩
            rw [produced] at served
            cases served
            exact within fits
          rw [truncateForUdp_of_long (by rw [length]; omega)]
          exact truncated_keepFirst long

/-- A record of more octets of data than its length field can say does not serialize. -/
theorem toWire_oversized {record : Record} {data : Bytes} (rdata : record.rdata = .unknown data)
    (long : 65535 < data.length) (sink written : Sink) : record.toWire sink ≠ .ok written := by
  intro serialized
  simp only [Record.toWire, rdata, RData.toWire, RData.pieces, Sink.putAll, List.foldl_cons,
    List.foldl_nil, Sink.put, bind_eq_ok, failIf_eq_ok, Sink.length_extend, List.length_cons,
    List.length_nil] at serialized
  obtain ⟨_, short, _⟩ := serialized
  omega

theorem not_fits_of_oversized {self : Message} {record : Record} {others : List Record}
    {data : Bytes} (answers : self.answers = record :: others) (rdata : record.rdata = .unknown data)
    (long : 65535 < data.length) (limit : Nat) : ¬ self.Fits limit := by
  intro fits
  obtain ⟨written, serialized, _⟩ := fits_iff.mp fits
  rw [records, answers, List.cons_append, writeRecords, List.foldlM_cons] at serialized
  obtain ⟨middle, here, _⟩ := bind_eq_ok.mp serialized
  exact toWire_oversized rdata long _ _ here

/-- A response with such a record. -/
def oversized : Message :=
  { id := 0
    flags := ⟨true, .QUERY, false, false, false, false, false, false, .NOERROR⟩
    questions := []
    answers := [⟨.root, .TXT, .IN, 0, .unknown (List.replicate 65536 0)⟩]
    authorities := []
    additionals := []
    edns := none }

/-- It is returned as it is under the largest limit, not marked, and does not serialize. -/
theorem oversized_left_unmarked :
    (∀ bytes, oversized.toBytes ≠ .ok bytes) ∧
      oversized.truncateForUdp usizeMax = oversized ∧ oversized.flags.tc = false ∧
      ¬ oversized.Truncated (max usizeMax 512) (oversized.truncateForUdp usizeMax) := by
  have long : 65535 < (List.replicate 65536 (0 : UInt8)).length := by
    rw [List.length_replicate]
    decide
  have fails : ∀ limit, ¬ oversized.Fits limit := not_fits_of_oversized rfl rfl long
  have never : ∀ bytes, oversized.toBytes ≠ .ok bytes :=
    fun bytes produced => fails bytes.length ⟨bytes, produced, Nat.le_refl _⟩
  have sentinel : oversized.wireLen = usizeMax := by
    rw [wireLen]
    cases produced : oversized.toBytes with
    | ok bytes => exact absurd produced (never bytes)
    | error error => rfl
  have same : oversized.truncateForUdp usizeMax = oversized := by
    rw [truncateForUdp, if_pos (by rw [sentinel]; exact Nat.le_max_left _ _)]
  refine ⟨never, same, rfl, fun truncated => ?_⟩
  obtain ⟨count, _, kept, _, _⟩ := truncated.longest (fails _)
  have flags : false = true := congrArg (fun message => message.flags.tc) (same.symm.trans kept)
  cases flags

end Message

end RecurseX
