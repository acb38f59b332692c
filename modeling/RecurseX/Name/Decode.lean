import RecurseX.Name.Basic

/-!
# What the name decoder accepts

`Spells` is the reading of RFC 1035 encodings as a relation: labels behind
length octets, pointers into the same buffer, the root at the end.
`fromWire_eq_ok_iff` says that the decoder accepts exactly the spellings within
the size limits and returns their labels, lower-cased.

`DomainName` carries those limits as fields, so a value of it is a name some
buffer spells; `fromWire_domainName` and `DomainName.fromWire_located` connect
it to the decoder in both directions.
-/

namespace RecurseX

open Library Library.PrefixedList Wire

/-- `buf` spells `labels` at `pos`, following `hops` pointers and ending (at
the top level) just before `stop`. -/
inductive Spells (buf : Bytes) : (pos : Nat) → (labels : List Bytes) → (hops stop : Nat) → Prop where
  | root {pos} (zero : buf[pos]? = some 0) : Spells buf pos [] 0 (pos + 1)
  | label {pos octets labels hops stop} (spelled : Located buf pos (item octets))
      (nonempty : 0 < octets.length) (short : octets.length ≤ 63)
      (rest : Spells buf (pos + (1 + octets.length)) labels hops stop) :
      Spells buf pos (octets.map asciiLower :: labels) hops stop
  | pointer {pos high low labels hops stop} (spelled : Located buf pos [high, low])
      (tagged : 0xc0 ≤ high.toNat)
      (target : Spells buf ((high.toNat - 0xc0) * 256 + low.toNat) labels hops stop) :
      Spells buf pos labels (hops + 1) (pos + 2)

namespace Spells

variable {buf : Bytes} {pos hops stop : Nat} {labels : List Bytes}

/-- A spelling starts inside the buffer. -/
theorem start_lt (spells : Spells buf pos labels hops stop) : pos < buf.length := by
  cases spells with
  | root zero => exact (List.getElem?_eq_some_iff.mp zero).1
  | label spelled nonempty short rest =>
      have bound := spelled.bound
      simp only [length_item] at bound
      omega
  | pointer spelled tagged target =>
      have bound := spelled.bound
      simp only [List.length_cons, List.length_nil] at bound
      omega

/-- A spelling takes at least one octet where it starts. -/
theorem start_lt_stop (spells : Spells buf pos labels hops stop) : pos < stop := by
  induction spells with
  | root zero => omega
  | label spelled nonempty short rest inductionHypothesis => omega
  | pointer spelled tagged target => omega

/-- Every spelled label has between 1 and 63 octets. -/
theorem sized (spells : Spells buf pos labels hops stop) :
    ∀ label ∈ labels, 0 < label.length ∧ label.length ≤ 63 := by
  induction spells with
  | root => simp
  | label spelled nonempty short rest inductionHypothesis =>
      intro label member
      rcases List.mem_cons.mp member with rfl | member
      · simpa using ⟨nonempty, short⟩
      · exact inductionHypothesis label member
  | pointer spelled tagged target inductionHypothesis => exact inductionHypothesis

end Spells

theorem asciiLower_idem (octet : UInt8) : asciiLower (asciiLower octet) = asciiLower octet := by
  unfold asciiLower
  split <;> grind

/-- Every spelled label is lower-cased. -/
theorem Spells.folded {buf : Bytes} {pos hops stop : Nat} {labels : List Bytes}
    (spells : Spells buf pos labels hops stop) :
    ∀ label ∈ labels, label.map asciiLower = label := by
  induction spells with
  | root => simp
  | label spelled nonempty short rest inductionHypothesis =>
      intro label member
      rcases List.mem_cons.mp member with rfl | member
      · simp [asciiLower_idem]
      · exact inductionHypothesis label member
  | pointer spelled tagged target inductionHypothesis => exact inductionHypothesis

/-! ## The decoder's loop -/

/-- How the top two bits classify a length octet. -/
private theorem octet_class : ∀ len < 256, (len &&& 0xc0 = 0x00 ↔ len < 64) ∧
    (len &&& 0xc0 = 0xc0 ↔ 0xc0 ≤ len) ∧ (0xc0 ≤ len → len &&& 0x3f = len - 0xc0) := by
  decide +kernel

private theorem pointer_target (high low : UInt8) (tagged : 0xc0 ≤ high.toNat) :
    ((high.toNat &&& 0x3f) <<< 8) ||| low.toNat = (high.toNat - 0xc0) * 256 + low.toNat := by
  rw [(octet_class _ high.toNat_lt).2.2 tagged,
    ← Nat.shiftLeft_add_eq_or_of_lt low.toNat_lt, Nat.shiftLeft_eq]

/-- What a finished walk has collected from `pos` on: the labels spelled there,
within the limits left by what was collected before. -/
structure Collected (buf : Bytes) (pos stop : Nat) (jumped : Bool) (hops total : Nat)
    (lens labelBytes : Bytes) (result : Bytes × Bytes × Nat) (labels : List Bytes)
    (further last : Nat) : Prop where
  spells : Spells buf pos labels further last
  hopLimit : hops + further ≤ maxPointerHops
  sizeLimit : total + (body labels).length ≤ maxNameLen
  countLimit : lens.length + labels.length ≤ maxLabels
  outcome : result = (lens ++ labels.map fun label => UInt8.ofNat label.length,
    labelBytes ++ labels.flatten, if jumped then stop else last)

/-- A successful walk read a spelling. -/
theorem fromWireLoop_sound {buf : Bytes} {result : Bytes × Bytes × Nat} (fuel : Nat) :
    ∀ {pos stop : Nat} {jumped : Bool} {hops total : Nat} {lens labelBytes : Bytes},
      hops ≤ maxPointerHops → total ≤ maxNameLen → lens.length ≤ maxLabels →
      Name.fromWireLoop buf fuel pos stop jumped hops total lens labelBytes = .ok result →
      ∃ labels further last,
        Collected buf pos stop jumped hops total lens labelBytes result labels further last := by
  induction fuel with
  | zero =>
      intro pos stop jumped hops total lens labelBytes _ _ _ walked
      rw [Name.fromWireLoop_zero] at walked
      cases walked
  | succ fuel inductionHypothesis =>
      intro pos stop jumped hops total lens labelBytes hopLimit sizeLimit countLimit walked
      rw [Name.fromWireLoop, bind_eq_ok] at walked
      obtain ⟨octet, readOctet, walked⟩ := walked
      have octetAt := byteAt_eq_ok.mp (mapError_eq_ok.mp readOctet)
      have octetBound := octet.toNat_lt
      have kinds := octet_class octet.toNat octetBound
      simp only [kinds.1, kinds.2.1] at walked
      split at walked
      · split at walked
        · -- The root closes the name.
          rename_i isZero
          cases walked
          have zero : octet = 0 := UInt8.toNat_inj.mp (by simpa using isZero)
          subst zero
          exact ⟨[], 0, pos + 1, .root octetAt, by simpa using hopLimit, by simpa using sizeLimit,
            by simpa using countLimit, by simp⟩
        · rename_i plain nonzero
          simp only [bind_eq_ok, failIf_eq_ok] at walked
          obtain ⟨_, short, label, readLabel, _, fits, _, room, walked⟩ := walked
          obtain ⟨labelAt, labelLength⟩ := sliceAt_eq_ok.mp (mapError_eq_ok.mp readLabel)
          obtain ⟨labels, further, last, inner⟩ := inductionHypothesis hopLimit (by omega)
            (by simp only [List.length_append, List.length_singleton]; omega) walked
          have octetIs : octet = UInt8.ofNat label.length := by
            rw [labelLength, UInt8.ofNat_toNat]
          have spelled : Located buf pos (item label) := by
            rw [item, ← List.singleton_append, Located.append_iff]
            refine ⟨⟨by have := labelAt.1; omega, ?_⟩, labelAt⟩
            rw [← octetIs, List.drop_eq_getElem?_toList_append, octetAt]
            simp
          refine ⟨label.map asciiLower :: labels, further, last,
            .label spelled (by omega) (by omega) (labelLength ▸ inner.spells), inner.hopLimit,
            ?_, ?_, ?_⟩
          · have size := inner.sizeLimit
            simp only [body_cons, List.length_append, length_item, List.length_map]
            omega
          · have count := inner.countLimit
            simp only [List.length_append, List.length_singleton] at count
            simp only [List.length_cons]
            omega
          · rw [inner.outcome]
            simp [labelLength]
      · split at walked
        · rename_i _ tagged
          simp only [bind_eq_ok, failIf_eq_ok] at walked
          obtain ⟨second, readSecond, _, inRange, _, hopRoom, walked⟩ := walked
          have secondAt := byteAt_eq_ok.mp (mapError_eq_ok.mp readSecond)
          rw [pointer_target octet second tagged] at walked
          obtain ⟨labels, further, last, inner⟩ :=
            inductionHypothesis (by omega) sizeLimit countLimit walked
          have spelled : Located buf pos [octet, second] := by
            have within := (List.getElem?_eq_some_iff.mp secondAt).1
            refine ⟨by omega, ?_⟩
            rw [List.drop_eq_getElem?_toList_append, octetAt,
              List.drop_eq_getElem?_toList_append, secondAt]
            simp
          refine ⟨labels, further + 1, pos + 2, .pointer spelled tagged inner.spells, ?_,
            inner.sizeLimit, inner.countLimit, ?_⟩
          · have := inner.hopLimit
            omega
          · rw [inner.outcome]
            simp
        · cases walked

/-- Every spelling within the limits is walked to its end. -/
theorem fromWireLoop_complete {buf : Bytes} {labels : List Bytes} {pos further last : Nat}
    (spells : Spells buf pos labels further last) :
    ∀ {fuel stop : Nat} {jumped : Bool} {hops total : Nat} {lens labelBytes : Bytes},
      labels.length + further < fuel → hops + further ≤ maxPointerHops →
      total + (body labels).length ≤ maxNameLen → lens.length + labels.length ≤ maxLabels →
      Name.fromWireLoop buf fuel pos stop jumped hops total lens labelBytes =
        .ok (lens ++ labels.map fun label => UInt8.ofNat label.length,
          labelBytes ++ labels.flatten, if jumped then stop else last) := by
  induction spells with
  | root zero =>
      intro fuel stop jumped hops total lens labelBytes fuelled _ _ _
      obtain ⟨fuel, rfl⟩ : ∃ more, fuel = more + 1 := ⟨fuel - 1, by omega⟩
      simp [Name.fromWireLoop, byteAt, zero]
  | @label pos octets labels further last spelled nonempty short rest inductionHypothesis =>
      intro fuel stop jumped hops total lens labelBytes fuelled hopLimit sizeLimit countLimit
      obtain ⟨fuel, rfl⟩ : ∃ more, fuel = more + 1 := ⟨fuel - 1, by omega⟩
      simp only [List.length_cons, body_cons, List.length_append, length_item, List.length_map]
        at fuelled sizeLimit countLimit
      have lengthOctet : (UInt8.ofNat octets.length).toNat = octets.length := by
        rw [UInt8.toNat_ofNat']
        omega
      have readOctet : byteAt buf pos = .ok (UInt8.ofNat octets.length) := byteAt_located spelled
      have readLabel : sliceAt buf (pos + 1) octets.length = .ok octets :=
        sliceAt_located spelled.tail
      have kinds := octet_class octets.length (by omega)
      rw [Name.fromWireLoop]
      simp only [readOctet, mapError_ok, ok_bind, lengthOctet]
      rw [if_pos (kinds.1.mpr (by omega)), if_neg (by omega), failIf_of_not (by omega), readLabel]
      simp only [mapError_ok, ok_bind]
      rw [failIf_of_not (by omega), failIf_of_not (by omega)]
      simp only [ok_bind]
      rw [inductionHypothesis (by omega) hopLimit (by omega)
        (by simp only [List.length_append, List.length_singleton]; omega)]
      simp
  | @pointer pos high low labels further last spelled tagged target inductionHypothesis =>
      intro fuel stop jumped hops total lens labelBytes fuelled hopLimit sizeLimit countLimit
      obtain ⟨fuel, rfl⟩ : ∃ more, fuel = more + 1 := ⟨fuel - 1, by omega⟩
      have kinds := octet_class high.toNat high.toNat_lt
      have inside := target.start_lt
      rw [Name.fromWireLoop]
      simp only [byteAt_located spelled, byteAt_located spelled.tail, mapError_ok, ok_bind]
      rw [if_neg (by rw [kinds.1]; omega), if_pos (kinds.2.1.mpr tagged),
        pointer_target high low tagged, failIf_of_not (by omega), failIf_of_not (by omega)]
      simp only [ok_bind]
      rw [inductionHypothesis (by omega) (by omega) sizeLimit countLimit]
      simp

/-- Reassembly undoes the split into lengths and pooled octets. -/
theorem reassemble_labels (labels : List Bytes) (sized : Sized labels) (out : Bytes) :
    Name.reassemble (labels.map fun label => UInt8.ofNat label.length) labels.flatten out =
      .ok (out ++ body labels) := by
  induction labels generalizing out with
  | nil => simp [Name.reassemble]
  | cons label labels inductionHypothesis =>
      have bounds := sized label List.mem_cons_self
      have lengthOctet : (UInt8.ofNat label.length).toNat = label.length := by
        rw [UInt8.toNat_ofNat']
        omega
      simp [Name.reassemble, lengthOctet, inductionHypothesis sized.tail, item]

/-- The labels of a spelling have lengths that fit one octet. -/
theorem Spells.sizedItems {buf : Bytes} {pos hops stop : Nat} {labels : List Bytes}
    (spells : Spells buf pos labels hops stop) : Sized labels := by
  intro label member
  have bounds := spells.sized label member
  omega

/-- The decoder accepts exactly the spellings within the limits. -/
theorem fromWire_eq_ok_iff {buf : Bytes} {pos stop : Nat} {name : Name} :
    Name.fromWire buf pos = .ok (name, stop) ↔
      ∃ labels hops, Spells buf pos labels hops stop ∧ hops ≤ maxPointerHops ∧
        (code labels).length ≤ maxNameLen ∧ labels.length < maxLabels ∧
        name = ⟨code labels⟩ := by
  have codeLength : ∀ labels : List Bytes, (code labels).length = 1 + (body labels).length := by
    intro labels
    simp only [code, List.length_append, List.length_singleton]
    omega
  constructor
  · intro decoded
    simp only [Name.fromWire, bind_eq_ok, failIf_eq_ok, Prod.exists] at decoded
    obtain ⟨_, _, lens, labelBytes, last, walked, _, few, out, reassembled, result⟩ := decoded
    obtain ⟨labels, hops, _, inner⟩ :=
      fromWireLoop_sound _ (by decide) (by decide) (by decide) walked
    obtain ⟨rfl, rfl, rfl⟩ : lens = labels.map (fun label => UInt8.ofNat label.length) ∧
        labelBytes = labels.flatten ∧ last = _ := by
      simpa using inner.outcome
    rw [reassemble_labels labels inner.spells.sizedItems] at reassembled
    cases reassembled
    cases result
    have size := inner.sizeLimit
    refine ⟨labels, hops, by simpa using inner.spells, by simpa using inner.hopLimit,
      by rw [codeLength]; exact size, by simpa using few, by simp [code]⟩
  · rintro ⟨labels, hops, spells, hopLimit, sizeLimit, countLimit, rfl⟩
    rw [codeLength] at sizeLimit
    have inside := spells.start_lt
    rw [Name.fromWire, failIf_of_not (by omega), ok_bind,
      fromWireLoop_complete spells (by simp only [Name.walkFuel]; omega) (by omega) sizeLimit
        (by simp only [List.length_nil]; omega)]
    simp only [ok_bind, List.nil_append]
    rw [failIf_of_not (by simp only [List.length_map]; omega), ok_bind,
      reassemble_labels labels spells.sizedItems]
    simp [code]

/-- A decoded name takes at least one octet where it starts. -/
theorem fromWire_advances {buf : Bytes} {pos stop : Nat} {name : Name}
    (decoded : Name.fromWire buf pos = .ok (name, stop)) : pos < stop := by
  obtain ⟨labels, hops, spells, -⟩ := fromWire_eq_ok_iff.mp decoded
  exact spells.start_lt_stop

/-! ## The internal errors are never returned -/

/-- The walk has fuel for every label and every hop it may still take. -/
theorem fromWireLoop_avoids {buf : Bytes} (fuel : Nat) :
    ∀ {pos stop : Nat} {jumped : Bool} {hops total : Nat} {lens labelBytes : Bytes},
      lens.length ≤ maxLabels → hops ≤ maxPointerHops →
      (maxLabels - lens.length) + (maxPointerHops - hops) < fuel →
      Avoids Error.IsInternal
        (Name.fromWireLoop buf fuel pos stop jumped hops total lens labelBytes) := by
  induction fuel with
  | zero =>
      intro pos stop jumped hops total lens labelBytes _ _ fuelled
      omega
  | succ fuel inductionHypothesis =>
      intro pos stop jumped hops total lens labelBytes countLimit hopLimit fuelled
      have refuse {condition : Prop} [Decidable condition] {msg : String} :
          Avoids Error.IsInternal (failIf condition (.wire msg)) := upholds_failIf.avoids
      rw [Name.fromWireLoop]
      refine (Avoids.mapError fun _ => Error.not_isInternal_wire _).bind fun octet _ => ?_
      dsimp only
      split
      · split
        · exact .ok _
        · refine refuse.bind fun _ _ => ?_
          refine (Avoids.mapError fun _ => Error.not_isInternal_wire _).bind fun label _ => ?_
          refine refuse.bind fun _ _ => refuse.bind fun _ room => ?_
          have few := failIf_eq_ok.mp room
          have counted : (lens ++ [UInt8.ofNat octet.toNat]).length = lens.length + 1 := by simp
          exact inductionHypothesis (by omega) hopLimit (by omega)
      · split
        · refine (Avoids.mapError fun _ => Error.not_isInternal_wire _).bind fun second _ => ?_
          refine refuse.bind fun _ _ => refuse.bind fun _ room => ?_
          have hopRoom := failIf_eq_ok.mp room
          exact inductionHypothesis countLimit (by omega) (by omega)
        · exact .error (Error.not_isInternal_wire _)

/-- Decoding a name ends, and the lengths it recorded agree with the octets it pooled. -/
theorem fromWire_avoids (buf : Bytes) (pos : Nat) :
    Avoids Error.IsInternal (Name.fromWire buf pos) := by
  rw [Name.fromWire]
  refine upholds_failIf.avoids.bind fun _ _ => ?_
  refine (fromWireLoop_avoids _ (by simp) (by simp) (by simp [Name.walkFuel])).bind ?_
  rintro ⟨lens, labelBytes, stop⟩ walked
  obtain ⟨labels, further, last, collected⟩ :=
    fromWireLoop_sound _ (by decide) (by decide) (by decide) walked
  obtain ⟨rfl, rfl, -⟩ : lens = labels.map (fun label => UInt8.ofNat label.length) ∧
      labelBytes = labels.flatten ∧ stop = _ := by
    simpa using collected.outcome
  refine upholds_failIf.avoids.bind fun _ _ => ?_
  rw [reassemble_labels labels collected.spells.sizedItems]
  exact .ok _

/-! ## Names with their limits -/

/-- A label list within the wire limits: what the decoder can return, and what
every buffer that spells it decodes to. -/
structure DomainName where
  labels : List Bytes
  sized : ∀ label ∈ labels, 0 < label.length ∧ label.length ≤ 63
  folded : ∀ label ∈ labels, label.map asciiLower = label
  short : (code labels).length ≤ maxNameLen
  few : labels.length < maxLabels

namespace DomainName

/-- The stored form of a name. -/
def toName (domain : DomainName) : Name := ⟨code domain.labels⟩

theorem sizedItems (domain : DomainName) : Sized domain.labels := by
  intro label member
  have bounds := domain.sized label member
  omega

@[ext] theorem ext {left right : DomainName} (labels : left.labels = right.labels) :
    left = right := by
  cases left
  cases right
  cases labels
  rfl

/-- The name of a label suffix. -/
def ofSuffix (domain : DomainName) {labels : List Bytes} (suffix : labels <:+ domain.labels) :
    DomainName where
  labels := labels
  sized label member := domain.sized label (suffix.mem member)
  folded label member := domain.folded label (suffix.mem member)
  short := Nat.le_trans (length_code_le_of_suffix suffix) domain.short
  few := Nat.lt_of_le_of_lt suffix.length_le domain.few

@[simp] theorem ofSuffix_labels (domain : DomainName) {labels : List Bytes}
    (suffix : labels <:+ domain.labels) : (domain.ofSuffix suffix).labels = labels := rfl

/-- The root has no labels. -/
def root : DomainName where
  labels := []
  sized := by simp
  folded := by simp
  short := by decide
  few := by decide

@[simp] theorem toName_root : root.toName = Name.root := rfl

/-- A spelling of a name within the hop limit decodes to it. -/
theorem fromWire_spells (domain : DomainName) {buf : Bytes} {pos hops stop : Nat}
    (spells : Spells buf pos domain.labels hops stop) (hopLimit : hops ≤ maxPointerHops) :
    Name.fromWire buf pos = .ok (domain.toName, stop) :=
  fromWire_eq_ok_iff.mpr ⟨domain.labels, hops, spells, hopLimit, domain.short, domain.few, rfl⟩

end DomainName

/-- Whatever the decoder returns is a name with its limits. -/
theorem fromWire_domainName {buf : Bytes} {pos stop : Nat} {name : Name}
    (decoded : Name.fromWire buf pos = .ok (name, stop)) :
    ∃ domain : DomainName, name = domain.toName := by
  obtain ⟨labels, hops, spells, _, short, few, rfl⟩ := fromWire_eq_ok_iff.mp decoded
  exact ⟨⟨labels, spells.sized, spells.folded, short, few⟩, rfl⟩

/-- Lower-cased labels written behind their length octets spell themselves,
continued by whatever is spelled where they end. -/
theorem spells_body {buf : Bytes} {labels rest : List Bytes} {hops stop : Nat} :
    ∀ {pos : Nat}, (∀ label ∈ labels, 0 < label.length ∧ label.length ≤ 63) →
      (∀ label ∈ labels, label.map asciiLower = label) → Located buf pos (body labels) →
      Spells buf (pos + (body labels).length) rest hops stop →
      Spells buf pos (labels ++ rest) hops stop := by
  induction labels with
  | nil =>
      intro pos _ _ _ continued
      simpa using continued
  | cons label labels inductionHypothesis =>
      intro pos sized folded located continued
      rw [body_cons, Located.append_iff, length_item] at located
      rw [body_cons, List.length_append, length_item] at continued
      have bounds := sized label List.mem_cons_self
      have tail : Spells buf (pos + (1 + label.length)) (labels ++ rest) hops stop :=
        inductionHypothesis (fun other member => sized other (List.mem_cons_of_mem _ member))
        (fun other member => folded other (List.mem_cons_of_mem _ member))
        (by rw [Nat.add_comm 1]; exact located.2)
        (by rw [Nat.add_comm 1, Nat.add_assoc]; exact continued)
      have spelled := Spells.label located.1 bounds.1 bounds.2 tail
      rwa [folded label List.mem_cons_self] at spelled

/-- The stored form of a name spells the name. -/
theorem DomainName.spells_code (domain : DomainName) {buf : Bytes} {pos : Nat}
    (located : Located buf pos (code domain.labels)) :
    Spells buf pos domain.labels 0 (pos + (code domain.labels).length) := by
  rw [code, Located.append_iff] at located
  have closed := spells_body domain.sized domain.folded located.1 (.root located.2.head)
  simpa [code, Nat.add_assoc] using closed

/-- The stored form of a name decodes to the name, wherever it stands. -/
theorem DomainName.fromWire_located (domain : DomainName) {buf : Bytes} {pos : Nat}
    (located : Located buf pos domain.toName.bytes) :
    Name.fromWire buf pos = .ok (domain.toName, pos + domain.toName.wireLen) :=
  domain.fromWire_spells (domain.spells_code located) (by decide)

/-- The label walk reads back the labels of a code word. -/
theorem labelIter_code {labels : List Bytes} (sized : Sized labels) :
    ∀ {fuel : Nat}, labels.length < fuel → Name.labelIter fuel (code labels) = labels := by
  induction labels with
  | nil =>
      intro fuel fuelled
      obtain ⟨fuel, rfl⟩ : ∃ more, fuel = more + 1 := ⟨fuel - 1, by omega⟩
      simp [Name.labelIter]
  | cons label labels inductionHypothesis =>
      intro fuel fuelled
      obtain ⟨fuel, rfl⟩ : ∃ more, fuel = more + 1 := ⟨fuel - 1, by omega⟩
      have bounds := sized label List.mem_cons_self
      have lengthOctet : (UInt8.ofNat label.length).toNat = label.length := by
        rw [UInt8.toNat_ofNat']
        omega
      rw [code_cons, item, List.cons_append, Name.labelIter, lengthOctet,
        if_neg (by simp only [List.length_append]; omega), List.take_left, List.drop_left,
        inductionHypothesis sized.tail (by simp only [List.length_cons] at fuelled; omega)]

theorem length_lt_length_code (labels : List Bytes) : labels.length < (code labels).length := by
  induction labels with
  | nil => simp
  | cons label labels inductionHypothesis =>
      rw [length_code_cons, List.length_cons]
      omega

/-- The labels of a stored name are its labels. -/
@[simp] theorem DomainName.labels_toName (domain : DomainName) :
    domain.toName.labels = domain.labels :=
  labelIter_code domain.sizedItems (length_lt_length_code domain.labels)

end RecurseX
