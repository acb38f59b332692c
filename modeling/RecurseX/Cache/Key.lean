import RecurseX.Edns
import RecurseX.Library.BitString
import RecurseX.Name.Basic

/-!
# Cache keys and ECS partitions

An answer is stored under the network it is valid for. `truncateTo` cuts an
address to a prefix, `answerPartition` chooses the partition of an answer, and
both are determined by the leading bits of the requester's address.
-/

namespace RecurseX

open Library Std

/-- Mask `addr` to `bits` bits and return exactly `⌈bits / 8⌉` octets. -/
def truncateTo (addr : Bytes) (bits : UInt8) : Bytes :=
  let len := (bits.toNat + 7) / 8
  let out := addr.take len ++ List.replicate (len - addr.length) 0
  let rem := bits % 8
  if rem ≠ 0 then out.modify (len - 1) (· &&& (0xff <<< (8 - rem))) else out

/-- The ECS network used as part of a cache key. `bits` is the scope of the
partition, not the prefix length the client asked with. -/
structure EcsKey where
  family : UInt16
  bits : UInt8
  addr : Bytes
deriving DecidableEq, Repr

namespace EcsKey

/-- Build a key from an ECS option; a family or prefix of zero is "no ECS". -/
def fromEcs (ecs : Ecs) : Option EcsKey :=
  if ecs.family = 0 ∨ ecs.sourcePrefix = 0 then none
  else some ⟨ecs.family, ecs.sourcePrefix, truncateTo ecs.address ecs.sourcePrefix⟩

/-- This partition narrowed to `scope` bits; `none` is the global partition. -/
def withScope (self : EcsKey) (scope : UInt8) : Option EcsKey :=
  let scope := min scope self.bits
  if scope = 0 then none else some ⟨self.family, scope, truncateTo self.addr scope⟩

/-- The scope a response may be cached under. -/
def effectiveScope (self : EcsKey) (responseScope : UInt8) : UInt8 := min responseScope self.bits

end EcsKey

/-- The partition an answer belongs in, given what the requester asked with and
what scope the server declared back. -/
def answerPartition (queryEcs : Option EcsKey) (responseScope : Option UInt8) : Option EcsKey :=
  match queryEcs with
  | none => none
  | some ecs => ecs.withScope (ecs.effectiveScope (responseScope.getD 0))

/-- The key of a cached entry. -/
structure CacheKey where
  name : Name
  rrType : RrType
  rrClass : RrClass
  /-- The ECS partition; `none` is non-ECS data. -/
  ecs : Option EcsKey
deriving DecidableEq, Repr

namespace CacheKey

/-- A non-ECS key. -/
def plain (name : Name) (rrType : RrType) (rrClass : RrClass) : CacheKey :=
  ⟨name, rrType, rrClass, none⟩

/-- The same key with a different record type. -/
def withType (self : CacheKey) (rrType : RrType) : CacheKey := { self with rrType }

/-- The same key in a different ECS partition. -/
def withEcs (self : CacheKey) (ecs : Option EcsKey) : CacheKey := { self with ecs }

end CacheKey

/-! ## The order of keys

Every order is the lexicographic order of the fields, as derived in the source.
-/

instance : Ord Name := ⟨compareOn Name.bytes⟩
instance : Ord RrType := ⟨compareOn RrType.toU16⟩
instance : Ord RrClass := ⟨compareOn RrClass.toU16⟩
instance : Ord EcsKey :=
  ⟨compareLex (compareOn EcsKey.family) (compareLex (compareOn EcsKey.bits)
    (compareOn EcsKey.addr))⟩
instance : Ord CacheKey :=
  ⟨compareLex (compareOn CacheKey.name) (compareLex (compareOn CacheKey.rrType)
    (compareLex (compareOn CacheKey.rrClass) (compareOn CacheKey.ecs)))⟩

/-- An order through an injective view. -/
private theorem lawfulEq_compareOn {α β : Type} [Ord β] [LawfulEqOrd β] {view : α → β}
    (injective : ∀ {left right}, view left = view right → left = right) :
    LawfulEqCmp (compareOn view) where
  compare_self := by simp [compareOn]
  eq_of_compare same := injective (LawfulEqOrd.eq_of_compare same)

instance : TransOrd Name := inferInstanceAs (TransCmp (compareOn Name.bytes))
instance : LawfulEqOrd Name := lawfulEq_compareOn fun {left right} same => by
  cases left
  cases right
  cases same
  rfl

instance : TransOrd RrType := inferInstanceAs (TransCmp (compareOn RrType.toU16))
instance : LawfulEqOrd RrType := lawfulEq_compareOn fun {left right} same => by
  cases left
  cases right
  cases same
  rfl

instance : TransOrd RrClass := inferInstanceAs (TransCmp (compareOn RrClass.toU16))
instance : LawfulEqOrd RrClass := lawfulEq_compareOn fun {left right} same => by
  cases left
  cases right
  cases same
  rfl

instance : TransOrd EcsKey :=
  inferInstanceAs (TransCmp (compareLex (compareOn EcsKey.family)
    (compareLex (compareOn EcsKey.bits) (compareOn EcsKey.addr))))
instance : LawfulEqOrd EcsKey where
  compare_self := compareLex_eq_eq.mpr ⟨ReflOrd.compare_self,
    compareLex_eq_eq.mpr ⟨ReflOrd.compare_self, ReflOrd.compare_self⟩⟩
  eq_of_compare {left right} same := by
    obtain ⟨family, same⟩ := compareLex_eq_eq.mp same
    obtain ⟨bits, addr⟩ := compareLex_eq_eq.mp same
    cases left
    cases right
    cases LawfulEqOrd.eq_of_compare family
    cases LawfulEqOrd.eq_of_compare bits
    cases LawfulEqOrd.eq_of_compare addr
    rfl

instance : TransOrd CacheKey :=
  inferInstanceAs (TransCmp (compareLex (compareOn CacheKey.name)
    (compareLex (compareOn CacheKey.rrType)
      (compareLex (compareOn CacheKey.rrClass) (compareOn CacheKey.ecs)))))
instance : LawfulEqOrd CacheKey where
  compare_self := compareLex_eq_eq.mpr ⟨ReflOrd.compare_self,
    compareLex_eq_eq.mpr ⟨ReflOrd.compare_self,
      compareLex_eq_eq.mpr ⟨ReflOrd.compare_self, ReflOrd.compare_self⟩⟩⟩
  eq_of_compare {left right} same := by
    obtain ⟨name, same⟩ := compareLex_eq_eq.mp same
    obtain ⟨rrType, same⟩ := compareLex_eq_eq.mp same
    obtain ⟨rrClass, ecs⟩ := compareLex_eq_eq.mp same
    cases left
    cases right
    cases LawfulEqOrd.eq_of_compare name
    cases LawfulEqOrd.eq_of_compare rrType
    cases LawfulEqOrd.eq_of_compare rrClass
    cases LawfulEqOrd.eq_of_compare ecs
    rfl

/-! ## Truncated addresses -/

@[simp] theorem length_truncateTo (addr : Bytes) (bits : UInt8) :
    (truncateTo addr bits).length = (bits.toNat + 7) / 8 := by
  have padded : (addr.take ((bits.toNat + 7) / 8) ++
      List.replicate ((bits.toNat + 7) / 8 - addr.length) 0).length = (bits.toNat + 7) / 8 := by
    simp only [List.length_append, List.length_take, List.length_replicate]
    omega
  simp only [truncateTo]
  split
  · rw [List.length_modify, padded]
  · exact padded

private theorem mask_testBit_prefix : ∀ rem < 8, rem ≠ 0 → ∀ b < 8,
    ((0xff : UInt8) <<< (8 - UInt8.ofNat rem)).toNat.testBit (7 - b) = decide (b < rem) := by
  decide

private theorem getElem?_padded (addr : Bytes) (len i : Nat) (inside : i < len) :
    (addr.take len ++ List.replicate (len - addr.length) 0)[i]? = some (addr.getD i 0) := by
  rw [List.getD_eq_getElem?_getD, List.getElem?_append, List.length_take]
  split
  · rename_i within
    rw [List.getElem?_take_of_lt inside, List.getElem?_eq_getElem (by omega)]
    rfl
  · rw [List.getElem?_replicate, if_pos (by omega), List.getElem?_eq_none (l := addr) (by omega)]
    rfl

/-- The octets of a truncated address: the last one is masked. -/
theorem getElem?_truncateTo (addr : Bytes) (bits : UInt8) {i : Nat}
    (inside : i < (bits.toNat + 7) / 8) :
    (truncateTo addr bits)[i]? = some (if bits % 8 ≠ 0 ∧ (bits.toNat + 7) / 8 - 1 = i then
      addr.getD i 0 &&& (0xff <<< (8 - bits % 8)) else addr.getD i 0) := by
  simp only [truncateTo]
  split
  · rename_i cut
    rw [List.getElem?_modify, getElem?_padded addr _ _ inside]
    by_cases last : (bits.toNat + 7) / 8 - 1 = i <;> simp [cut, last]
  · rename_i whole
    rw [getElem?_padded addr _ _ inside, if_neg fun both => whole both.1]

/-- Truncation keeps the leading bits and clears the others. -/
theorem bitSet_truncateTo (addr : Bytes) (bits : UInt8) (j : Nat) :
    bitSet (truncateTo addr bits) j = (decide (j < bits.toNat) && bitSet addr j) := by
  have rem : (bits % 8).toNat = bits.toNat % 8 := UInt8.toNat_mod bits 8
  rw [bitSet, List.getD_eq_getElem?_getD]
  by_cases inside : j / 8 < (bits.toNat + 7) / 8
  · rw [getElem?_truncateTo addr bits inside, Option.getD_some]
    split
    · rename_i cut
      have remNonzero : bits.toNat % 8 ≠ 0 := fun zero =>
        cut.1 (UInt8.toNat_inj.mp (by rw [rem, zero]; rfl))
      have mask := mask_testBit_prefix (bits.toNat % 8) (by omega) remNonzero (j % 8) (by omega)
      rw [← rem, UInt8.ofNat_toNat, rem] at mask
      have last := cut.2
      rw [UInt8.toNat_and, Nat.testBit_and, mask, bitSet, Bool.and_comm,
        decide_eq_decide.mpr (show j % 8 < bits.toNat % 8 ↔ j < bits.toNat by omega)]
    · rename_i whole
      have kept : j < bits.toNat := by
        by_cases aligned : bits % 8 = 0
        · have := congrArg UInt8.toNat aligned
          rw [rem] at this
          have : bits.toNat % 8 = 0 := this
          omega
        · have : (bits.toNat + 7) / 8 - 1 ≠ j / 8 := fun same => whole ⟨aligned, same⟩
          omega
      rw [decide_eq_true kept, Bool.true_and, bitSet]
  · rw [List.getElem?_eq_none (by simpa using inside), decide_eq_false (by omega)]
    simp

/-- Truncations agree exactly when the leading bits do. -/
theorem truncateTo_eq_iff {left right : Bytes} {bits : UInt8} :
    truncateTo left bits = truncateTo right bits ↔ AgreeOn bits.toNat left right := by
  constructor
  · intro same j inside
    have bit := congrArg (bitSet · j) same
    simpa [bitSet_truncateTo, inside] using bit
  · intro agree
    refine eq_of_bitSet (by simp) fun j => ?_
    rw [bitSet_truncateTo, bitSet_truncateTo]
    by_cases inside : j < bits.toNat
    · rw [agree j inside]
    · simp [inside]

/-- Truncating twice is truncating to the shorter prefix. -/
theorem truncateTo_truncateTo {addr : Bytes} {bits shorter : UInt8} (narrower : shorter ≤ bits) :
    truncateTo (truncateTo addr bits) shorter = truncateTo addr shorter := by
  refine truncateTo_eq_iff.mpr fun j inside => ?_
  have : shorter.toNat ≤ bits.toNat := UInt8.le_iff_toNat_le.mp narrower
  rw [bitSet_truncateTo, decide_eq_true (by omega), Bool.true_and]

end RecurseX
