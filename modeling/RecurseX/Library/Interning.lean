import Mathlib.Data.List.Nodup

/-!
# Values built once for each key

A table from which a value is handed out by its key, and where the first to ask builds
it. Values may change, but nothing is dropped: a reference is a position in the table,
and says for good which key it was handed out for.
-/

namespace RecurseX.Library

variable {κ τ : Type}

/-- Values by the keys they were built for, the first one in front. -/
structure Interned (κ τ : Type) where
  entries : List (κ × τ)
  once : (entries.map Prod.fst).Nodup

namespace Interned

def empty : Interned κ τ := ⟨[], List.nodup_nil⟩

/-- What a reference refers to, and the key it belongs to. -/
def get? (self : Interned κ τ) (reference : Nat) : Option (κ × τ) := self.entries[reference]?

variable {self : Interned κ τ} {key other : κ} {value build : τ} {reference : Nat}

/-- Two references to one key are the same. -/
theorem get?_inj {left right : Nat} {first second : τ}
    (one : self.get? left = some (key, first)) (another : self.get? right = some (key, second)) :
    left = right := by
  have keyOf {position : Nat} {value : τ} (located : self.get? position = some (key, value)) :
      (self.entries.map Prod.fst)[position]? = some key := by
    rw [List.getElem?_map, show self.entries[position]? = _ from located, Option.map_some]
  obtain ⟨inside, found⟩ := List.getElem?_eq_some_iff.mp (keyOf one)
  obtain ⟨within, again⟩ := List.getElem?_eq_some_iff.mp (keyOf another)
  exact (self.once.getElem_inj_iff).mp (found.trans again.symm)

/-- Change the value a reference refers to. -/
def modify (self : Interned κ τ) (reference : Nat) (change : τ → τ) : Interned κ τ where
  entries := self.entries.modify reference fun entry => (entry.1, change entry.2)
  once := by
    have keys : (self.entries.modify reference fun entry => (entry.1, change entry.2)).map
        Prod.fst = self.entries.map Prod.fst := by
      refine List.ext_getElem? fun position => ?_
      simp only [List.getElem?_map, List.getElem?_modify, Option.map_eq_map, Option.map_map]
      split
      · rfl
      · cases self.entries[position]? <;> rfl
    rw [keys]
    exact self.once

theorem get?_modify (self : Interned κ τ) (reference : Nat) (change : τ → τ) (position : Nat) :
    (self.modify reference change).get? position = (self.get? position).map fun entry =>
      (entry.1, if reference = position then change entry.2 else entry.2) := by
  unfold get? modify
  rw [List.getElem?_modify]
  split
  · rfl
  · cases self.entries[position]? <;> rfl

variable [DecidableEq κ]

/-- The reference to the value of a key. -/
def find (self : Interned κ τ) (key : κ) : Option Nat :=
  self.entries.findIdx? fun entry => entry.1 == key

theorem get?_of_find (found : self.find key = some reference) :
    ∃ value, self.get? reference = some (key, value) := by
  obtain ⟨inside, same, -⟩ := List.findIdx?_eq_some_iff_getElem.mp found
  obtain rfl := eq_of_beq same
  exact ⟨_, List.getElem?_eq_getElem inside⟩

theorem not_mem_of_find (missing : self.find key = none) : key ∉ self.entries.map Prod.fst := by
  intro present
  obtain ⟨entry, listed, rfl⟩ := List.mem_map.mp present
  have other := List.findIdx?_eq_none_iff.mp missing entry listed
  rw [beq_self_eq_true] at other
  cases other

/-- The value of a key, built if there is none: the table, and the reference. -/
def intern (self : Interned κ τ) (key : κ) (build : τ) : Interned κ τ × Nat :=
  match missing : self.find key with
  | some reference => (self, reference)
  | none =>
      ({ entries := self.entries ++ [(key, build)]
         once := by
           rw [List.map_append, List.nodup_append]
           refine ⟨self.once, List.nodup_singleton _, fun left present right single => ?_⟩
           obtain rfl := List.mem_singleton.mp single
           exact fun same => not_mem_of_find missing (same ▸ present) }, self.entries.length)

/-- A reference for the key, which was there or refers to what was built. -/
theorem intern_cases (self : Interned κ τ) (key : κ) (build : τ) :
    (∃ reference, self.intern key build = (self, reference) ∧
      ∃ value, self.get? reference = some (key, value)) ∨
    (key ∉ self.entries.map Prod.fst ∧
      (self.intern key build).1.entries = self.entries ++ [(key, build)] ∧
      (self.intern key build).2 = self.entries.length) := by
  unfold intern
  split
  · rename_i reference found
    exact .inl ⟨reference, rfl, get?_of_find found⟩
  · rename_i missing
    exact .inr ⟨not_mem_of_find missing, rfl, rfl⟩

/-- The reference is to the value of the key. -/
theorem get?_intern (self : Interned κ τ) (key : κ) (build : τ) :
    ∃ value, (self.intern key build).1.get? (self.intern key build).2 = some (key, value) := by
  rcases self.intern_cases key build with ⟨reference, same, value, located⟩ | ⟨-, entries, last⟩
  · rw [same]
    exact ⟨value, located⟩
  · refine ⟨build, ?_⟩
    unfold get?
    rw [entries, last]
    exact List.getElem?_concat_length

/-- References stay valid. -/
theorem get?_intern_of (located : self.get? reference = some (other, value)) (key : κ)
    (build : τ) : (self.intern key build).1.get? reference = some (other, value) := by
  rcases self.intern_cases key build with ⟨_, same, -⟩ | ⟨-, entries, -⟩
  · rw [same]
    exact located
  · unfold get? at located ⊢
    obtain ⟨inside, -⟩ := List.getElem?_eq_some_iff.mp located
    rw [entries, List.getElem?_append_left inside]
    exact located

/-- What a reference refers to was there, or is what was built. -/
theorem get?_of_intern
    (located : (self.intern key build).1.get? reference = some (other, value)) :
    self.get? reference = some (other, value) ∨ other = key ∧ value = build := by
  rcases self.intern_cases key build with ⟨_, same, -⟩ | ⟨-, entries, -⟩
  · rw [same] at located
    exact .inl located
  · unfold get? at located ⊢
    rw [entries, List.getElem?_append] at located
    split_ifs at located
    · exact .inl located
    · have built := List.mem_singleton.mp (List.mem_of_getElem? located)
      exact .inr (Prod.mk.inj built)

/-- Nothing is seen of a value that holds nothing when it is built. -/
theorem bind_get?_intern {β : Type} {seen : κ × τ → Option β} (self : Interned κ τ)
    (fresh : seen (key, build) = none) (reference : Nat) :
    ((self.intern key build).1.get? reference).bind seen = (self.get? reference).bind seen := by
  rcases self.intern_cases key build with ⟨_, same, -⟩ | ⟨-, entries, -⟩
  · rw [same]
  · unfold get?
    rw [entries, List.getElem?_append]
    split_ifs with inside
    · rfl
    · rw [List.getElem?_eq_none (Nat.le_of_not_lt inside), List.getElem?_singleton]
      split_ifs
      · exact fresh
      · rfl

end Interned

end RecurseX.Library
