import RecurseX.Dnssec.Basic
import RecurseX.Library.Sorting

/-!
# The canonical form of an RRset

A signature is over the records of an RRset in canonical order: by their RDATA,
as left-justified octet strings, each RDATA once. The code sorts the records as
they are written, where the length of the RDATA comes before the RDATA.
`canonicalForm_iff` says for which RRsets this makes no difference.
-/

namespace RecurseX

open Library Std

/-! ## The order of octets -/

/-- What two byte strings start with decides nothing when it is the same. -/
theorem compare_append_left (front left right : Bytes) :
    compare (front ++ left) (front ++ right) = compare left right := by
  induction front with
  | nil => rfl
  | cons octet front inductionHypothesis =>
      rw [List.cons_append, List.cons_append, List.compare_cons_cons, ReflOrd.compare_self,
        Ordering.eq_then, inductionHypothesis]

/-- Words in network order compare as numbers. -/
theorem compare_be16_append (first second : UInt16) (left right : Bytes) :
    compare (be16 first ++ left) (be16 second ++ right) =
      (compare first second).then (compare left right) := by
  have bound := first.toNat_lt
  have boundToo := second.toNat_lt
  have octets : (compare (UInt8.ofNat (first.toNat / 256)) (UInt8.ofNat (second.toNat / 256))).then
      (compare (UInt8.ofNat (first.toNat % 256)) (UInt8.ofNat (second.toNat % 256))) =
        compare first second := by
    simp only [compare, compareOfLessAndEq, UInt8.lt_iff_toNat_lt, ← UInt8.toNat_inj,
      UInt16.lt_iff_toNat_lt, ← UInt16.toNat_inj, UInt8.toNat_ofNat']
    split_ifs <;> first | rfl | omega
  rw [be16, be16, List.cons_append, List.cons_append, List.cons_append, List.cons_append,
    List.compare_cons_cons, List.compare_cons_cons, ← octets, Ordering.then_assoc]
  rfl

theorem then_lt_iff {first second : UInt16} :
    (compare first second).then .lt = .lt ↔ first ≤ second := by
  simp only [compare, compareOfLessAndEq, UInt16.lt_iff_toNat_lt, UInt16.le_iff_toNat_le,
    ← UInt16.toNat_inj]
  split_ifs with less equal
  · simp [Nat.le_of_lt less]
  · simp [equal]
  · simp only [Ordering.then, reduceCtorEq, false_iff]
    omega

/-! ## The form and its records -/

/-- The records of the canonical form, in the order it has them. -/
def canonicalItems (records : List Record) (originalTtl : UInt32) : List Bytes :=
  sorted (records.map (canonicalRecord originalTtl))

theorem canonicalRrset_eq (records : List Record) (originalTtl : UInt32) :
    canonicalRrset records originalTtl = (canonicalItems records originalTtl).flatten := rfl

/-- One record of the form, by what the records of an RRset share and its RDATA. -/
def canonicalItem (owner : Name) (rrType : RrType) (rrClass : RrClass) (originalTtl : UInt32)
    (rdata : Bytes) : Bytes :=
  owner.bytes ++ be16 rrType.toU16 ++ be16 rrClass.toU16 ++ be32 originalTtl ++
    (be16 (UInt16.ofNat rdata.length) ++ rdata)

variable {owner : Name} {rrType : RrType} {rrClass : RrClass} {originalTtl : UInt32}
  {records : List Record}

/-- The records are of one RRset. -/
def OfRrset (owner : Name) (rrType : RrType) (rrClass : RrClass) (records : List Record) : Prop :=
  ∀ record ∈ records, record.name = owner ∧ record.rrType = rrType ∧ record.rrClass = rrClass

/-- The RDATA of the records, without compression. -/
def rdataOf (records : List Record) : List Bytes := records.map fun record => record.rdata.wire

/-- The canonical form of RFC 4034 §6.3: the order of the records does not show, and the form has
every RDATA once, by increasing octet strings. -/
structure CanonicalForm (owner : Name) (rrType : RrType) (rrClass : RrClass) (originalTtl : UInt32)
    (records : List Record) : Prop where
  orderless : ∀ others : List Record, others.Perm records →
    canonicalRrset others originalTtl = canonicalRrset records originalTtl
  listed : ∃ listing, Lists (rdataOf records) listing ∧
    canonicalItems records originalTtl =
      listing.map (canonicalItem owner rrType rrClass originalTtl)

theorem OfRrset.map_canonicalRecord (same : OfRrset owner rrType rrClass records) :
    records.map (canonicalRecord originalTtl) =
      (rdataOf records).map (canonicalItem owner rrType rrClass originalTtl) := by
  rw [rdataOf, List.map_map]
  refine List.map_congr_left fun record inside => ?_
  obtain ⟨rfl, rfl, rfl⟩ := same record inside
  simp only [canonicalRecord, canonicalItem, Function.comp_apply, List.append_assoc]

theorem compare_canonicalItem (left right : Bytes) :
    compare (canonicalItem owner rrType rrClass originalTtl left)
        (canonicalItem owner rrType rrClass originalTtl right) =
      (compare (UInt16.ofNat left.length) (UInt16.ofNat right.length)).then
        (compare left right) := by
  rw [canonicalItem, canonicalItem, compare_append_left, compare_be16_append]

theorem canonicalItem_injective {left right : Bytes}
    (same : canonicalItem owner rrType rrClass originalTtl left =
      canonicalItem owner rrType rrClass originalTtl right) : left = right := by
  have equal := LawfulEqOrd.compare_eq_iff_eq.mpr same
  rw [compare_canonicalItem, Ordering.then_eq_eq] at equal
  exact LawfulEqOrd.eq_of_compare equal.2

/-- What is written does not depend on the order of the records. -/
theorem canonicalRrset_congr {others : List Record} (same : others.Perm records) :
    canonicalRrset others originalTtl = canonicalRrset records originalTtl := by
  rw [canonicalRrset_eq, canonicalRrset_eq, canonicalItems, canonicalItems,
    sorted_congr (same.map (canonicalRecord originalTtl))]

/-- The records come out by RDATA exactly when a lesser RDATA is never a longer one. -/
theorem OfRrset.listed_iff (same : OfRrset owner rrType rrClass records) :
    (∃ listing, Lists (rdataOf records) listing ∧
      canonicalItems records originalTtl =
        listing.map (canonicalItem owner rrType rrClass originalTtl)) ↔
      (rdataOf records).Nodup ∧ ∀ left ∈ rdataOf records, ∀ right ∈ rdataOf records,
        compare left right = .lt → UInt16.ofNat left.length ≤ UInt16.ofNat right.length := by
  rw [canonicalItems, same.map_canonicalRecord, sorted_map_iff canonicalItem_injective]
  refine and_congr_right fun _ => forall₂_congr fun left _ => forall₂_congr fun right _ =>
    imp_congr_right fun less => ?_
  rw [compare_canonicalItem, less]
  exact then_lt_iff

/-- **Canonical form.** The canonical form of an RRset is that of RFC 4034 §6.3 exactly when no RDATA
occurs twice and an RDATA that comes before another by its octets is not longer, as far as the
length field says. -/
theorem canonicalForm_iff (owner : Name) (rrType : RrType) (rrClass : RrClass) (originalTtl : UInt32)
    (records : List Record) (same : OfRrset owner rrType rrClass records) :
    CanonicalForm owner rrType rrClass originalTtl records ↔
      (rdataOf records).Nodup ∧ ∀ left ∈ rdataOf records, ∀ right ∈ rdataOf records,
        compare left right = .lt → UInt16.ofNat left.length ≤ UInt16.ofNat right.length := by
  have listed := @OfRrset.listed_iff _ _ _ originalTtl _ same
  rw [← listed]
  constructor
  · intro form
    exact form.listed
  · intro listed
    exact ⟨fun others => canonicalRrset_congr, listed⟩

/-! ## Mail exchangers -/

/-- A mail exchanger of `com`. -/
def exchanger (preference : UInt16) (exchange : Bytes) : Record :=
  ⟨⟨[3, 99, 111, 109, 0]⟩, .MX, .IN, 3600, .mx preference ⟨exchange ++ [3, 99, 111, 109, 0]⟩⟩

/-- `mx.com` before `mail.com`: the lesser RDATA is the shorter one. -/
theorem short_exchanger_first :
    CanonicalForm ⟨[3, 99, 111, 109, 0]⟩ .MX .IN 3600
      [exchanger 20 [4, 109, 97, 105, 108], exchanger 10 [2, 109, 120]] := by
  have same : OfRrset ⟨[3, 99, 111, 109, 0]⟩ .MX .IN
      [exchanger 20 [4, 109, 97, 105, 108], exchanger 10 [2, 109, 120]] := by
    simp [OfRrset, exchanger]
  refine (canonicalForm_iff _ _ _ _ _ same).mpr ⟨by decide, by decide⟩

/-- `mail.com` before `mx.com`: the form has them by length. -/
theorem long_exchanger_first :
    OfRrset ⟨[3, 99, 111, 109, 0]⟩ .MX .IN
        [exchanger 10 [4, 109, 97, 105, 108], exchanger 20 [2, 109, 120]] ∧
      ¬ CanonicalForm ⟨[3, 99, 111, 109, 0]⟩ .MX .IN 3600
        [exchanger 10 [4, 109, 97, 105, 108], exchanger 20 [2, 109, 120]] := by
  have same : OfRrset ⟨[3, 99, 111, 109, 0]⟩ .MX .IN
      [exchanger 10 [4, 109, 97, 105, 108], exchanger 20 [2, 109, 120]] := by
    simp [OfRrset, exchanger]
  refine ⟨same, fun form => ?_⟩
  obtain ⟨-, shorter⟩ := same.listed_iff.mp form.listed
  exact absurd shorter (by decide)

end RecurseX
