import Std.Data.TreeMap.Lemmas
import Mathlib.Data.List.Basic

/-!
# A map and its reverse index

A map from keys to values, each of which carries a label, and an index from
labels to keys. The two are inverse to each other when the index finds a key
under a label exactly when the map has a value with that label at the key.
-/

namespace RecurseX.Library

open Std

variable {K V N : Type} [Ord N]

/-- What a run of insertions leaves at a label that none of them repeats. -/
theorem getElem?_foldl_insert [TransOrd N] [LawfulEqOrd N] {byName : TreeMap N K} {label : V → N}
    {key : K} {name : N} {entries : List (K × V)}
    (distinct : entries.Pairwise fun left right => label left.2 ≠ label right.2) :
    (entries.foldl (fun index entry => index.insert (label entry.2) entry.1) byName)[name]? =
        some key ↔
      (∃ value, (key, value) ∈ entries ∧ label value = name) ∨
        (byName[name]? = some key ∧ ∀ entry ∈ entries, label entry.2 ≠ name) := by
  induction entries generalizing byName with
  | nil => simp
  | cons entry entries inductionHypothesis =>
      obtain ⟨first, rest⟩ := List.pairwise_cons.mp distinct
      rw [List.foldl_cons, inductionHypothesis rest, TreeMap.getElem?_insert]
      by_cases same : label entry.2 = name
      · subst same
        have absent : ∀ other ∈ entries, label other.2 ≠ label entry.2 :=
          fun other listed => (first other listed).symm
        constructor
        · rintro (⟨value, listed, labelled⟩ | ⟨found, -⟩)
          · exact absurd labelled (absent _ listed)
          · rw [if_pos ReflOrd.compare_self] at found
            obtain rfl := Option.some.inj found
            exact .inl ⟨entry.2, List.mem_cons_self, rfl⟩
        · rintro (⟨value, listed, labelled⟩ | ⟨-, none⟩)
          · obtain rfl | later := List.mem_cons.mp listed
            · exact .inr ⟨if_pos ReflOrd.compare_self, absent⟩
            · exact absurd labelled (absent _ later)
          · exact absurd rfl (none entry List.mem_cons_self)
      · have unequal : compare (label entry.2) name ≠ .eq := mt LawfulEqOrd.eq_of_compare same
        rw [if_neg unequal, List.forall_mem_cons]
        refine or_congr ?_ (and_congr_right fun _ => (and_iff_right same).symm)
        constructor
        · rintro ⟨value, listed, labelled⟩
          exact ⟨value, List.mem_cons_of_mem _ listed, labelled⟩
        · rintro ⟨value, listed, labelled⟩
          obtain rfl | later := List.mem_cons.mp listed
          · exact absurd labelled same
          · exact ⟨value, later, labelled⟩

variable [Ord K]

/-- The index finds what the map has, and nothing else. -/
def IndexedBy (byKey : TreeMap K V) (label : V → N) (byName : TreeMap N K) : Prop :=
  ∀ name key, byName[name]? = some key ↔ ∃ value, byKey[key]? = some value ∧ label value = name

/-- The index computed from the map. -/
def reindex (byKey : TreeMap K V) (label : V → N) : TreeMap N K :=
  byKey.toList.foldl (fun index entry => index.insert (label entry.2) entry.1) ∅

variable {byKey : TreeMap K V} {label : V → N} {byName : TreeMap N K} {key : K} {value : V} {name : N}

theorem indexedBy_empty [TransOrd K] [TransOrd N] : IndexedBy (∅ : TreeMap K V) label ∅ := by
  intro name key
  simp

/-- Under one label the index leads to one key. -/
theorem IndexedBy.injective (indexed : IndexedBy byKey label byName) {other : K} {second : V}
    (found : byKey[key]? = some value) (alsoFound : byKey[other]? = some second)
    (same : label value = label second) : key = other := by
  have atKey := (indexed _ _).mpr ⟨value, found, rfl⟩
  rw [(indexed _ _).mpr ⟨second, alsoFound, same.symm⟩] at atKey
  exact (Option.some.inj atKey).symm

variable [TransOrd K] [LawfulEqOrd K]

/-- A change that keeps the labels keeps the index. -/
theorem IndexedBy.modify (indexed : IndexedBy byKey label byName) (key : K) {change : V → V}
    (kept : ∀ value, label (change value) = label value) :
    IndexedBy (byKey.modify key change) label byName := by
  intro name other
  rw [indexed, TreeMap.getElem?_modify]
  by_cases same : key = other
  · subst same
    rw [if_pos ReflOrd.compare_self]
    simp [kept]
  · rw [if_neg (mt LawfulEqOrd.eq_of_compare same)]

variable [TransOrd N] [LawfulEqOrd N]

/-- A pair that agrees with what both have may be inserted in both. -/
theorem IndexedBy.insert (indexed : IndexedBy byKey label byName) (key : K) (value : V)
    (owned : ∀ other, byKey[key]? = some other → label other = label value)
    (mapped : ∀ other, byName[label value]? = some other → other = key) :
    IndexedBy (byKey.insert key value) label (byName.insert (label value) key) := by
  intro name other
  rw [TreeMap.getElem?_insert, TreeMap.getElem?_insert]
  by_cases sameName : label value = name
  · subst sameName
    rw [if_pos ReflOrd.compare_self]
    constructor
    · intro found
      obtain rfl := Option.some.inj found
      exact ⟨value, if_pos ReflOrd.compare_self, rfl⟩
    · rintro ⟨found, located, labelled⟩
      by_cases sameKey : key = other
      · rw [sameKey]
      · rw [if_neg (mt LawfulEqOrd.eq_of_compare sameKey)] at located
        rw [mapped other ((indexed _ _).mpr ⟨found, located, labelled⟩)]
  · rw [if_neg (mt LawfulEqOrd.eq_of_compare sameName), indexed]
    by_cases sameKey : key = other
    · subst sameKey
      rw [if_pos ReflOrd.compare_self]
      constructor
      · rintro ⟨found, located, labelled⟩
        exact absurd ((owned found located).symm.trans labelled) sameName
      · rintro ⟨found, located, labelled⟩
        obtain rfl := Option.some.inj located
        exact absurd labelled sameName
    · rw [if_neg (mt LawfulEqOrd.eq_of_compare sameKey)]

/-- A pair may be erased from both. -/
theorem IndexedBy.erase (indexed : IndexedBy byKey label byName)
    (mapped : byName[name]? = some key) :
    IndexedBy (byKey.erase key) label (byName.erase name) := by
  obtain ⟨value, located, labelled⟩ := (indexed _ _).mp mapped
  intro other otherKey
  rw [TreeMap.getElem?_erase, TreeMap.getElem?_erase]
  by_cases sameName : name = other
  · subst sameName
    rw [if_pos ReflOrd.compare_self]
    refine iff_of_false (by simp) ?_
    rintro ⟨found, kept, sameLabel⟩
    by_cases sameKey : key = otherKey
    · rw [if_pos (sameKey ▸ ReflOrd.compare_self)] at kept
      cases kept
    · rw [if_neg (mt LawfulEqOrd.eq_of_compare sameKey)] at kept
      exact sameKey (indexed.injective located kept (labelled.trans sameLabel.symm))
  · rw [if_neg (mt LawfulEqOrd.eq_of_compare sameName), indexed]
    by_cases sameKey : key = otherKey
    · subst sameKey
      rw [if_pos ReflOrd.compare_self]
      refine iff_of_false ?_ (by simp)
      rintro ⟨found, kept, sameLabel⟩
      obtain rfl := Option.some.inj (located.symm.trans kept)
      exact sameName (labelled.symm.trans sameLabel)
    · rw [if_neg (mt LawfulEqOrd.eq_of_compare sameKey)]

/-- The index computed from a part of an indexed map is an index of that part. -/
theorem IndexedBy.reindex {part : TreeMap K V} (indexed : IndexedBy byKey label byName)
    (included : ∀ {key : K} {value : V}, part[key]? = some value → byKey[key]? = some value) :
    IndexedBy part label (Library.reindex part label) := by
  intro name key
  have distinct : part.toList.Pairwise fun left right => label left.2 ≠ label right.2 := by
    refine TreeMap.distinct_keys_toList.imp_of_mem ?_
    intro left right leftListed rightListed apart same
    refine apart ?_
    rw [indexed.injective (included (TreeMap.mem_toList_iff_getElem?_eq_some.mp leftListed))
      (included (TreeMap.mem_toList_iff_getElem?_eq_some.mp rightListed)) same]
    exact ReflOrd.compare_self
  rw [Library.reindex, getElem?_foldl_insert distinct]
  simp [TreeMap.mem_toList_iff_getElem?_eq_some]

end RecurseX.Library
