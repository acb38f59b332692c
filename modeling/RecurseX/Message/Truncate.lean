import RecurseX.Message.RoundTrip
import RecurseX.Time

/-!
# Truncation for UDP

`truncateForUdp` drops records until a response fits, and drops nothing else.
What it keeps is `minimalLen`: the header, the question section and the OPT
record. `toBytes_truncateForUdp` says that this remainder alone decides whether
the result fits.
-/

namespace RecurseX

open Library Wire

/-! ## Writing never shrinks a buffer -/

namespace Sink

variable (sink : Sink)

@[simp] theorem length_extend (bytes : Bytes) :
    (sink.extend bytes).out.length = sink.out.length + bytes.length := by
  simp [extend]

@[simp] theorem comp_extend (bytes : Bytes) : (sink.extend bytes).comp = sink.comp := rfl

/-- The octets a name adds. They do not depend on what the buffer holds. -/
def nameEncoding (comp : Option NameCompressor) (name : Name) (allow : Bool) : Bytes :=
  match allow, comp with
  | true, some comp => comp.encoding name
  | _, _ => name.bytes

theorem out_name (name : Name) (allow : Bool) :
    (sink.name name allow).out = sink.out ++ nameEncoding sink.comp name allow := by
  obtain ⟨out, comp⟩ := sink
  cases allow <;> cases comp <;> simp [Sink.name, nameEncoding, Name.writeWire,
    NameCompressor.write_eq]

theorem length_le_put (piece : Piece) : sink.out.length ≤ (sink.put piece).out.length := by
  cases piece with
  | octets bytes => simp [put]
  | name name allow => simp [put, out_name]

theorem length_le_putAll (pieces : List Piece) :
    sink.out.length ≤ (sink.putAll pieces).out.length := by
  induction pieces generalizing sink with
  | nil => exact Nat.le_refl _
  | cons piece pieces inductionHypothesis =>
      exact Nat.le_trans (sink.length_le_put piece) (inductionHypothesis (sink.put piece))

/-- Two buffers of one length with one compressor: what is written next has the
same length in both. -/
def SameShape (first second : Sink) : Prop :=
  first.out.length = second.out.length ∧ first.comp = second.comp

variable {first second : Sink}

theorem SameShape.extend (same : SameShape first second) {bytes others : Bytes}
    (width : bytes.length = others.length) :
    SameShape (first.extend bytes) (second.extend others) :=
  ⟨by rw [length_extend, length_extend, same.1, width], same.2⟩

theorem SameShape.name (same : SameShape first second) (name : Name) (allow : Bool) :
    SameShape (first.name name allow) (second.name name allow) := by
  refine ⟨by rw [out_name, out_name, List.length_append, List.length_append, same.1, same.2], ?_⟩
  obtain ⟨out, comp⟩ := first
  obtain ⟨other, _⟩ := second
  obtain ⟨length, rfl⟩ := same
  cases allow with
  | false => rfl
  | true =>
      cases comp with
      | none => rfl
      | some comp => simp only [Sink.name, NameCompressor.write_eq, length]

end Sink

/-- The record may fail to serialize, but what it leaves is never shorter. -/
theorem Record.length_le_toWire {record : Record} {sink written : Sink}
    (serialized : record.toWire sink = .ok written) : sink.out.length ≤ written.out.length := by
  simp only [Record.toWire, bind_eq_ok, failIf_eq_ok] at serialized
  obtain ⟨_, _, _, inside, returned⟩ := serialized
  cases returned
  replace inside := Nat.le_of_not_lt inside
  rw [length_overwrite inside]
  refine Nat.le_trans ?_ (Sink.length_le_putAll _ _)
  simp only [Sink.length_extend, Sink.out_name, List.length_append]
  omega

namespace Message

theorem length_le_writeRecords {records : List Record} {sink written : Sink}
    (serialized : writeRecords sink records = .ok written) :
    sink.out.length ≤ written.out.length := by
  induction records generalizing sink with
  | nil =>
      cases serialized
      exact Nat.le_refl _
  | cons record records inductionHypothesis =>
      simp only [writeRecords, List.foldlM_cons, bind_eq_ok] at serialized
      obtain ⟨middle, here, there⟩ := serialized
      exact Nat.le_trans (Record.length_le_toWire here) (inductionHypothesis there)

/-! ## The truncation -/

/-- The start of every serialization: the header and the question section. -/
def writeFront (self : Message) : Sink :=
  let sink : Sink := ⟨[], some .new⟩
  let sink := sink.extend (be16 self.id)
  let sink := sink.extend (be16 self.flags.toU16)
  let sink := sink.extend [0, 0, 0, 0, 0, 0, 0, 0]
  self.questions.foldl writeQuestion sink

/-- The serialized wire length, or the largest `usize` when serialization
fails. -/
def wireLen (self : Message) : Nat :=
  match self.toBytes with
  | .ok bytes => bytes.length
  | .error _ => usizeMax

/-- The footprint of the OPT record. -/
def optLen (self : Message) : Nat :=
  match self.edns with
  | some edns => 1 + 10 + edns.optionsWire.length
  | none => 0

/-- What the record loop of `fitSections` leaves after one section. -/
structure Fit where
  /-- How many records of the section fit. -/
  count : Nat
  sink : Sink
  /-- The loop did not break. -/
  complete : Bool

/-- The records of one section that fit. A break leaves the buffer as it was
before the record; nothing is written to it afterwards. -/
def fitRecords (budget : Nat) : List Record → Sink → Fit
  | [], sink => ⟨0, sink, true⟩
  | record :: records, sink =>
      match record.toWire sink with
      | .error _ => ⟨0, sink, false⟩
      | .ok written =>
          if written.out.length > budget then ⟨0, sink, false⟩
          else
            let rest := fitRecords budget records written
            { rest with count := rest.count + 1 }

/-- How many records of each section fit in `limit` octets, with the footprint
of the OPT record reserved. -/
def fitSections (self : Message) (limit : Nat) : Nat × Nat × Nat :=
  let budget := limit - self.optLen
  let answers := fitRecords budget self.answers self.writeFront
  if answers.complete then
    let authorities := fitRecords budget self.authorities answers.sink
    if authorities.complete then
      let additionals := fitRecords budget self.additionals authorities.sink
      (answers.count, authorities.count, additionals.count)
    else (answers.count, authorities.count, 0)
  else (answers.count, 0, 0)

/-- The sections truncated to `counts` records. -/
def cutTo (self : Message) (counts : Nat × Nat × Nat) : Message :=
  { self with
    answers := self.answers.take counts.1
    authorities := self.authorities.take counts.2.1
    additionals := self.additionals.take counts.2.2 }

/-- Truncate this response so its wire form fits in `limit` octets. -/
def truncateForUdp (self : Message) (limit : Nat) : Message :=
  let limit := max limit 512
  if self.wireLen ≤ limit then self
  else
    let marked : Message := { self with flags := { self.flags with tc := true } }
    marked.cutTo (marked.fitSections limit)

/-- What truncation cannot drop. -/
def minimalLen (self : Message) : Nat := self.writeFront.out.length + self.optLen

/-! ## What is left fits, or nothing does -/

/-- The record sections, from where `writeFront` stops. -/
def writeSections (self : Message) : Result Sink := do
  let sink ← writeRecords self.writeFront self.answers
  let sink ← writeRecords sink self.authorities
  writeRecords sink self.additionals

/-- The OPT record, when there is one. -/
def writeOpt (self : Message) (sink : Sink) : Sink :=
  match self.edns with
  | some edns => writeEdns sink edns
  | none => sink

/-- The root is never compressed, so an OPT record has a fixed footprint. -/
theorem length_writeOpt (self : Message) (sink : Sink) :
    (self.writeOpt sink).out.length = sink.out.length + self.optLen := by
  have root : Sink.nameEncoding sink.comp .root true = [0] := by
    cases sink.comp <;> rfl
  unfold writeOpt optLen
  cases self.edns with
  | none => rfl
  | some edns =>
      simp only [writeEdns, Sink.length_extend, Sink.out_name, root, List.length_append,
        length_be16, length_be32, List.length_cons, List.length_nil]
      omega

theorem length_le_writeSections {self : Message} {written : Sink}
    (serialized : self.writeSections = .ok written) :
    self.writeFront.out.length ≤ written.out.length := by
  simp only [writeSections, bind_eq_ok] at serialized
  obtain ⟨_, answers, _, authorities, additionals⟩ := serialized
  exact Nat.le_trans (length_le_writeRecords answers)
    (Nat.le_trans (length_le_writeRecords authorities) (length_le_writeRecords additionals))

theorem length_le_writeQuestions (questions : List Question) (sink : Sink) :
    sink.out.length ≤ (questions.foldl writeQuestion sink).out.length := by
  induction questions generalizing sink with
  | nil => exact Nat.le_refl _
  | cons question questions inductionHypothesis =>
      refine Nat.le_trans ?_ (inductionHypothesis (writeQuestion sink question))
      simp only [writeQuestion, Sink.length_extend, Sink.out_name, List.length_append]
      omega

theorem toBytes_eq (self : Message) : self.toBytes = (do
    let sink ← self.writeSections
    failIf (4 + self.countBytes.length > (self.writeOpt sink).out.length)
      (.internal "header count offset out of range")
    .ok (overwrite (self.writeOpt sink).out 4 self.countBytes)) := by
  simp only [writeSections, bind_assoc]
  rfl

/-- Serialization fails only in a record section. -/
theorem toBytes_length (self : Message) :
    self.toBytes.map List.length =
      self.writeSections.map fun sink => sink.out.length + self.optLen := by
  rw [toBytes_eq]
  cases serialized : self.writeSections with
  | error error => rfl
  | ok written =>
      have front := length_le_writeSections serialized
      have header : 12 ≤ self.writeFront.out.length :=
        Nat.le_trans (by simp) (length_le_writeQuestions self.questions _)
      have width : self.countBytes.length = 8 := rfl
      have whole := self.length_writeOpt written
      have inside : 4 + self.countBytes.length ≤ (self.writeOpt written).out.length := by omega
      rw [ok_bind, failIf_of_not (Nat.not_lt.mpr inside), ok_bind]
      simp only [Except.map, length_overwrite inside, whole]

/-- The accepted records serialize, within the budget unless none was accepted. -/
theorem fitRecords_spec (budget : Nat) (records : List Record) (sink : Sink) :
    writeRecords sink (records.take (fitRecords budget records sink).count) =
        .ok (fitRecords budget records sink).sink ∧
      (fitRecords budget records sink).sink.out.length ≤ max sink.out.length budget := by
  induction records generalizing sink with
  | nil => exact ⟨rfl, Nat.le_max_left _ _⟩
  | cons record records inductionHypothesis =>
      cases serialized : record.toWire sink with
      | error error =>
          simp only [fitRecords, serialized]
          exact ⟨rfl, Nat.le_max_left _ _⟩
      | ok written =>
          by_cases exceeds : written.out.length > budget
          · simp only [fitRecords, serialized, if_pos exceeds]
            exact ⟨rfl, Nat.le_max_left _ _⟩
          · obtain ⟨rest, within⟩ := inductionHypothesis written
            simp only [fitRecords, serialized, if_neg exceeds, List.take_succ_cons]
            refine ⟨?_, by omega⟩
            simpa only [writeRecords, List.foldlM_cons, serialized, ok_bind] using rest

/-- What `fitSections` keeps serializes, within the budget unless nothing is kept. -/
theorem fitSections_spec (self : Message) (limit : Nat) :
    ∃ written, (self.cutTo (self.fitSections limit)).writeSections = .ok written ∧
      written.out.length ≤ max self.writeFront.out.length (limit - self.optLen) := by
  have sections (counts : Nat × Nat × Nat) : (self.cutTo counts).writeSections = (do
      let sink ← writeRecords self.writeFront (self.answers.take counts.1)
      let sink ← writeRecords sink (self.authorities.take counts.2.1)
      writeRecords sink (self.additionals.take counts.2.2)) := rfl
  have nothing (sink : Sink) : writeRecords sink [] = .ok sink := rfl
  obtain ⟨answers, answersFit⟩ := fitRecords_spec (limit - self.optLen) self.answers
    self.writeFront
  simp only [fitSections]
  generalize fitRecords (limit - self.optLen) self.answers self.writeFront = fit at *
  obtain ⟨authorities, authoritiesFit⟩ := fitRecords_spec (limit - self.optLen) self.authorities
    fit.sink
  generalize fitRecords (limit - self.optLen) self.authorities fit.sink = next at *
  obtain ⟨additionals, additionalsFit⟩ := fitRecords_spec (limit - self.optLen) self.additionals
    next.sink
  generalize fitRecords (limit - self.optLen) self.additionals next.sink = last at *
  rw [sections]
  cases fit.complete with
  | false =>
      refine ⟨fit.sink, ?_, by omega⟩
      simp [answers, nothing]
  | true =>
      cases next.complete with
      | false =>
          refine ⟨next.sink, ?_, by omega⟩
          simp [answers, authorities, nothing]
      | true =>
          refine ⟨last.sink, ?_, by omega⟩
          simp [answers, authorities, additionals]

theorem length_of_toBytes {self : Message} {written : Sink}
    (serialized : self.writeSections = .ok written) :
    ∃ bytes, self.toBytes = .ok bytes ∧ bytes.length = written.out.length + self.optLen := by
  have length := self.toBytes_length
  rw [serialized] at length
  cases produced : self.toBytes with
  | error error =>
      rw [produced] at length
      cases length
  | ok bytes =>
      rw [produced] at length
      exact ⟨bytes, rfl, Except.ok.inj length⟩

/-- A message is never shorter than what truncation keeps of it. -/
theorem minimalLen_le {self : Message} {bytes : Bytes} (produced : self.toBytes = .ok bytes) :
    self.minimalLen ≤ bytes.length := by
  have length := self.toBytes_length
  rw [produced] at length
  cases serialized : self.writeSections with
  | error error =>
      rw [serialized] at length
      cases length
  | ok written =>
      rw [serialized] at length
      have grown := length_le_writeSections serialized
      have equal : bytes.length = written.out.length + self.optLen := Except.ok.inj length
      unfold minimalLen
      omega

/-- The front has the same shape whatever the identifier and the flags are. -/
theorem sameShape_writeFront {self other : Message} (same : self.questions = other.questions) :
    self.writeFront.SameShape other.writeFront := by
  have shape (questions : List Question) : ∀ first second : Sink, first.SameShape second →
      (questions.foldl writeQuestion first).SameShape (questions.foldl writeQuestion second) := by
    induction questions with
    | nil => exact fun _ _ same => same
    | cons question questions inductionHypothesis =>
        intro first second same
        exact inductionHypothesis _ _ (((same.name question.qname true).extend rfl).extend rfl)
  simp only [writeFront, same]
  refine shape other.questions _ _ ?_
  exact ⟨by simp only [Sink.length_extend, length_be16], rfl⟩

theorem length_writeFront_congr {self other : Message} (same : self.questions = other.questions) :
    self.writeFront.out.length = other.writeFront.out.length :=
  (sameShape_writeFront same).1

/-- Whatever the records are, a truncated response serializes, and it is within
the limit exactly when the part that truncation keeps is. -/
theorem toBytes_truncateForUdp (self : Message) {limit : Nat} (small : max limit 512 < usizeMax) :
    ∃ bytes, (self.truncateForUdp limit).toBytes = .ok bytes ∧
      (bytes.length ≤ max limit 512 ↔ self.minimalLen ≤ max limit 512) := by
  unfold truncateForUdp
  by_cases fits : self.wireLen ≤ max limit 512
  · simp only [if_pos fits]
    cases produced : self.toBytes with
    | error error =>
        simp only [wireLen, produced] at fits
        omega
    | ok bytes =>
        simp only [wireLen, produced] at fits
        have least := minimalLen_le produced
        exact ⟨bytes, rfl, by omega⟩
  · simp only [if_neg fits]
    generalize markedEq : ({ self with flags := { self.flags with tc := true } } : Message) = marked
    have front : marked.writeFront.out.length = self.writeFront.out.length :=
      length_writeFront_congr (by rw [← markedEq])
    have opt : marked.optLen = self.optLen := by rw [← markedEq]; rfl
    obtain ⟨written, serialized, within⟩ := marked.fitSections_spec (max limit 512)
    obtain ⟨bytes, produced, length⟩ := length_of_toBytes serialized
    have grown := length_le_writeSections serialized
    have head : (marked.cutTo (marked.fitSections (max limit 512))).writeFront =
      marked.writeFront := rfl
    have kept : (marked.cutTo (marked.fitSections (max limit 512))).optLen = marked.optLen := rfl
    rw [head] at grown
    rw [kept] at length
    refine ⟨bytes, produced, ?_⟩
    unfold minimalLen
    omega

end Message

end RecurseX
