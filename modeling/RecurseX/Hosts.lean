import RecurseX.Resolver.Basic
import RecurseX.Routing

/-!
# The `hosts` table

Static answers: exact pins in a map, pattern pins in a list that is sorted again
after every insertion, most specific first.
-/

namespace RecurseX

open Library Std

/-- A pattern and the addresses pinned to it. -/
abbrev Pin := DomainPattern × List IpAddr

/-- Add addresses to those already pinned, leaving out what is there. -/
def pinAll (slot addrs : List IpAddr) : List IpAddr :=
  addrs.foldl (fun slot addr => if addr ∈ slot then slot else slot ++ [addr]) slot

/-- Add to the pin of the same pattern, or a new one at the end. -/
def pinPattern (pattern : DomainPattern) (addrs : List IpAddr) : List Pin → List Pin
  | [] => [(pattern, pinAll [] addrs)]
  | pin :: pins =>
      if pin.1 = pattern then (pin.1, pinAll pin.2 addrs) :: pins
      else pin :: pinPattern pattern addrs pins

/-- A static name-to-address table. -/
structure HostsTable where
  /-- Exact-name pins. -/
  exact : TreeMap Name (List IpAddr)
  /-- Pattern pins, most specific first. -/
  wildcard : List Pin

namespace HostsTable

/-- An empty table. -/
def new : HostsTable := ⟨∅, []⟩

/-- Add a pin. Values are added to any already pinned for the same key. -/
def insert (self : HostsTable) (pattern : DomainPattern) (addrs : List IpAddr) :
    Result HostsTable :=
  match pattern with
  | .any =>
      .error (.config ("a \"*\" entry in `hosts` would answer every name from the static table; " ++
        "list the domains you meant instead"))
  | .exact name =>
      .ok { self with exact := self.exact.insert name (pinAll (self.exact[name]?.getD []) addrs) }
  | pattern =>
      .ok { self with
        wildcard := sortDescending (fun pin => pin.1.labelCount)
          (pinPattern pattern addrs self.wildcard) }

/-- Add pins one after the other. -/
def insertAll (self : HostsTable) (entries : List Pin) : Result HostsTable :=
  entries.foldlM (fun table entry => table.insert entry.1 entry.2) self

/-- The addresses pinned for `name`: an exact match first, else the
most-specific pattern that matches. -/
def lookup (self : HostsTable) (name : Name) : Option (List IpAddr) :=
  match self.exact[name]? with
  | some addrs => some addrs
  | none => (self.wildcard.find? fun pin => pin.1.matches name).map Prod.snd

/-- A pattern pin that matches. -/
def patternMatches (name : Name) (pin : Pin) : Bool := !pin.1.isExact && pin.1.matches name

/-- What an entry pins when its pattern is new. -/
def pinned (entry : Pin) : Pin := (entry.1, pinAll [] entry.2)

/-- The table holds the entries, whose patterns are distinct. -/
structure Holds (table : HostsTable) (entries : List Pin) : Prop where
  exact : ∀ name : Name, table.exact[name]? =
    (entries.find? fun entry => entry.1 = .exact name).map fun entry => pinAll [] entry.2
  patterns : ∀ pin ∈ table.wildcard, pin.1 ∈ entries.map Prod.fst
  descending : table.wildcard.Pairwise fun left right => right.1.labelCount ≤ left.1.labelCount
  chosen : ∀ name, (table.wildcard.find? fun pin => pin.1.matches name) =
    (firstBest (fun pin : Pin => pin.1.labelCount) (patternMatches name) entries).map pinned

variable {table next : HostsTable} {entries : List Pin} {pattern : DomainPattern}
  {addrs : List IpAddr}

theorem holds_new : HostsTable.new.Holds [] where
  exact name := by simp [HostsTable.new]
  patterns pin listed := by simp [HostsTable.new] at listed
  descending := .nil
  chosen name := rfl

/-- A pattern that is not there yet is pinned at the end. -/
theorem pinPattern_of_new {pins : List Pin} (fresh : ∀ pin ∈ pins, pin.1 ≠ pattern) :
    pinPattern pattern addrs pins = pins ++ [(pattern, pinAll [] addrs)] := by
  induction pins with
  | nil => rfl
  | cons pin pins inductionHypothesis =>
      obtain ⟨different, rest⟩ := List.forall_mem_cons.mp fresh
      rw [pinPattern, if_neg different, inductionHypothesis rest]
      rfl

/-- One more entry with a new pattern that is no exact name. -/
theorem Holds.insert_pattern (holds : table.Holds entries) (fresh : pattern ∉ entries.map Prod.fst)
    (inexact : pattern.isExact = false) :
    (⟨table.exact, sortDescending (fun pin => pin.1.labelCount)
      (pinPattern pattern addrs table.wildcard)⟩ : HostsTable).Holds (entries ++ [(pattern, addrs)])
    where
  exact name := by
    have different : pattern ≠ .exact name := by
      rintro rfl
      cases inexact
    rw [List.find?_append, List.find?_cons_of_neg (by simpa using different), List.find?_nil,
      Option.or_none]
    exact holds.exact name
  patterns pin listed := by
    rw [List.map_append, List.mem_append]
    have unpinned : ∀ pin ∈ table.wildcard, pin.1 ≠ pattern :=
      fun pin listed same => fresh (same ▸ holds.patterns pin listed)
    rw [pinPattern_of_new unpinned, sortDescending, List.mem_insertionSort, List.mem_append] at listed
    obtain earlier | last := listed
    · exact .inl (holds.patterns pin earlier)
    · rw [List.mem_singleton.mp last]
      exact .inr (List.mem_singleton.mpr rfl)
  descending := sortDescending_pairwise _ _
  chosen name := by
    have unpinned : ∀ pin ∈ table.wildcard, pin.1 ≠ pattern :=
      fun pin listed same => fresh (same ▸ holds.patterns pin listed)
    have earlier := holds.chosen name
    rw [find?_eq_firstBest holds.descending] at earlier
    rw [pinPattern_of_new unpinned, find?_sortDescending, firstBest_concat, earlier, firstBest_concat]
    have matched : patternMatches name (pattern, addrs) = pattern.matches name := by
      rw [patternMatches, inexact]
      rfl
    rw [matched]
    cases firstBest (fun pin : Pin => pin.1.labelCount) (patternMatches name) entries with
    | none => by_cases accepted : pattern.matches name <;> simp [accepted, pinned]
    | some best =>
        dsimp only [Option.map_some, pinned]
        split_ifs <;> rfl

/-- One more entry for an exact name that is not there yet. -/
theorem Holds.insert_exact {name : Name} (holds : table.Holds entries)
    (fresh : DomainPattern.exact name ∉ entries.map Prod.fst) :
    (⟨table.exact.insert name (pinAll (table.exact[name]?.getD []) addrs), table.wildcard⟩ :
      HostsTable).Holds (entries ++ [(.exact name, addrs)]) where
  exact other := by
    have absent : (entries.find? fun entry => entry.1 = .exact name) = none := by
      rw [List.find?_eq_none]
      intro entry listed same
      exact fresh (List.mem_map.mpr ⟨entry, listed, of_decide_eq_true same⟩)
    rw [TreeMap.getElem?_insert, List.find?_append]
    by_cases same : name = other
    · subst same
      rw [if_pos ReflOrd.compare_self, holds.exact, absent]
      simp
    · rw [if_neg (mt LawfulEqOrd.eq_of_compare same), List.find?_cons_of_neg (by simpa using same),
        List.find?_nil, Option.or_none]
      exact holds.exact other
  patterns pin listed := by
    rw [List.map_append]
    exact List.mem_append_left _ (holds.patterns pin listed)
  descending := holds.descending
  chosen other := by
    have unmatched : patternMatches other (.exact name, addrs) = false := rfl
    rw [firstBest_concat, unmatched]
    refine (holds.chosen other).trans ?_
    cases firstBest (fun pin : Pin => pin.1.labelCount) (patternMatches other) entries <;> simp

/-- One more entry with a new pattern. -/
theorem Holds.insert (holds : table.Holds entries) (fresh : pattern ∉ entries.map Prod.fst)
    (inserted : table.insert pattern addrs = .ok next) :
    next.Holds (entries ++ [(pattern, addrs)]) := by
  cases pattern with
  | any => cases inserted
  | exact name =>
      obtain rfl := Except.ok.inj inserted
      exact holds.insert_exact fresh
  | subtree name =>
      obtain rfl := Except.ok.inj inserted
      exact holds.insert_pattern fresh rfl
  | wildcard pattern =>
      obtain rfl := Except.ok.inj inserted
      exact holds.insert_pattern fresh rfl

/-- Entries with distinct patterns are all held. -/
theorem Holds.insertAll {earlier : List Pin} (holds : table.Holds earlier)
    (distinct : ((earlier ++ entries).map Prod.fst).Nodup)
    (inserted : table.insertAll entries = .ok next) : next.Holds (earlier ++ entries) := by
  induction entries generalizing table earlier with
  | nil =>
      obtain rfl := Except.ok.inj inserted
      rw [List.append_nil]
      exact holds
  | cons entry entries inductionHypothesis =>
      obtain ⟨middle, first, rest⟩ := bind_eq_ok.mp inserted
      rw [List.append_cons] at distinct ⊢
      refine inductionHypothesis (holds.insert ?_ first) distinct rest
      rw [List.map_append, List.map_append, List.nodup_append, List.nodup_append] at distinct
      intro listed
      exact distinct.1.2.2 _ listed _ (List.mem_singleton.mpr rfl) rfl

/-- What a table that holds the entries answers. -/
theorem Holds.lookup (holds : table.Holds entries) (name : Name) :
    table.lookup name =
      match entries.find? fun entry => entry.1 = .exact name with
      | some entry => some (pinAll [] entry.2)
      | none => (firstBest (fun pin : Pin => pin.1.labelCount) (patternMatches name) entries).map
          fun entry => pinAll [] entry.2 := by
  rw [HostsTable.lookup, holds.exact, holds.chosen]
  cases entries.find? fun entry => entry.1 = .exact name with
  | some entry => rfl
  | none =>
      rw [Option.map_none, Option.map_map]
      rfl

/-- Whether entries are accepted does not depend on their order. -/
theorem insertAll_ok_iff : (∃ next, table.insertAll entries = .ok next) ↔
    ∀ entry ∈ entries, entry.1 ≠ .any := by
  induction entries generalizing table with
  | nil => exact iff_of_true ⟨table, rfl⟩ (by simp)
  | cons entry entries inductionHypothesis =>
      rw [List.forall_mem_cons]
      constructor
      · rintro ⟨next, inserted⟩
        obtain ⟨middle, first, rest⟩ := bind_eq_ok.mp inserted
        refine ⟨?_, inductionHypothesis.mp ⟨next, rest⟩⟩
        intro isAny
        dsimp only at first
        rw [isAny] at first
        cases first
      · rintro ⟨specific, others⟩
        obtain ⟨middle, first⟩ : ∃ middle, table.insert entry.1 entry.2 = .ok middle := by
          cases isPattern : entry.1 with
          | any => exact absurd isPattern specific
          | exact name => exact ⟨_, rfl⟩
          | subtree name => exact ⟨_, rfl⟩
          | wildcard pattern => exact ⟨_, rfl⟩
        obtain ⟨next, rest⟩ := (@inductionHypothesis middle).mpr others
        exact ⟨next, bind_eq_ok.mpr ⟨middle, first, rest⟩⟩

/-- Under distinct patterns the entry of a pattern does not depend on the order. -/
theorem find?_perm {reordered : List Pin} (perm : reordered.Perm entries)
    (distinct : (entries.map Prod.fst).Nodup) :
    (reordered.find? fun entry => entry.1 = pattern) =
      entries.find? fun entry => entry.1 = pattern := by
  cases found : entries.find? fun entry => entry.1 = pattern with
  | none =>
      rw [List.find?_eq_none] at found ⊢
      exact fun entry listed => found entry (perm.mem_iff.mp listed)
  | some entry =>
      have listed := List.mem_of_find?_eq_some found
      have named : entry.1 = pattern := by simpa using List.find?_some found
      cases foundAgain : reordered.find? fun entry => entry.1 = pattern with
      | none =>
          exact absurd (decide_eq_true named)
            (List.find?_eq_none.mp foundAgain entry (perm.mem_iff.mpr listed))
      | some other =>
          have otherListed := perm.mem_iff.mp (List.mem_of_find?_eq_some foundAgain)
          have otherNamed : other.1 = pattern := by simpa using List.find?_some foundAgain
          rw [List.inj_on_of_nodup_map distinct otherListed listed (otherNamed.trans named.symm)]

/-- The name has a pin of its own, or its most specific patterns pin the same addresses. -/
def Agree (entries : List Pin) (name : Name) : Prop :=
  DomainPattern.exact name ∈ entries.map Prod.fst ∨
    ∀ pin other, Best (fun pin : Pin => pin.1.labelCount) (patternMatches name) entries pin →
      Best (fun pin : Pin => pin.1.labelCount) (patternMatches name) entries other →
      pinAll [] pin.2 = pinAll [] other.2

/-- The order of the entries matters to a name without a pin of its own unless its most specific
patterns agree. -/
theorem lookup_order_iff (distinct : (entries.map Prod.fst).Nodup)
    (built : HostsTable.new.insertAll entries = .ok table) (name : Name) :
    (∀ reordered other, reordered.Perm entries → HostsTable.new.insertAll reordered = .ok other →
      other.lookup name = table.lookup name) ↔ Agree entries name := by
  have holds {entries : List Pin} {table : HostsTable} (distinct : (entries.map Prod.fst).Nodup)
      (built : HostsTable.new.insertAll entries = .ok table) : table.Holds entries :=
    holds_new.insertAll distinct built
  have answered {reordered : List Pin} {other : HostsTable} (perm : reordered.Perm entries)
      (otherBuilt : HostsTable.new.insertAll reordered = .ok other) :
      other.lookup name =
        match entries.find? fun entry => entry.1 = .exact name with
        | some entry => some (pinAll [] entry.2)
        | none => (firstBest (fun pin : Pin => pin.1.labelCount) (patternMatches name)
            reordered).map fun entry => pinAll [] entry.2 := by
    rw [(holds ((perm.map _).nodup_iff.mpr distinct) otherBuilt).lookup, find?_perm perm distinct]
  cases found : entries.find? fun entry => entry.1 = .exact name with
  | some entry =>
      have pinnedName : DomainPattern.exact name ∈ entries.map Prod.fst :=
        List.mem_map.mpr ⟨entry, List.mem_of_find?_eq_some found, by
          simpa using List.find?_some found⟩
      refine iff_of_true (fun reordered other perm otherBuilt => ?_) (.inl pinnedName)
      rw [answered perm otherBuilt, answered (.refl _) built, found]
  | none =>
      have unpinned : DomainPattern.exact name ∉ entries.map Prod.fst := by
        intro listed
        obtain ⟨entry, isEntry, named⟩ := List.mem_map.mp listed
        exact List.find?_eq_none.mp found entry isEntry (decide_eq_true named)
      rw [Agree, or_iff_right unpinned, ← firstBest_order_iff (fun pin : Pin => pin.1.labelCount)
        (patternMatches name) entries fun pin => pinAll [] pin.2]
      constructor
      · intro same reordered perm
        obtain ⟨other, otherBuilt⟩ : ∃ other, HostsTable.new.insertAll reordered = .ok other :=
          insertAll_ok_iff.mpr fun entry listed =>
            insertAll_ok_iff.mp ⟨table, built⟩ entry (perm.mem_iff.mp listed)
        have looked := same reordered other perm otherBuilt
        rwa [answered perm otherBuilt, answered (.refl _) built, found] at looked
      · intro same reordered other perm otherBuilt
        rw [answered perm otherBuilt, answered (.refl _) built, found]
        exact same reordered perm

end HostsTable

/-- The pattern `time.*.com`. -/
def timePattern : DomainPattern :=
  .wildcard ⟨[some [116, 105, 109, 101], none, some [99, 111, 109]], false⟩

/-- The name `time.apple.com`. -/
def timeName : Name :=
  ⟨[4, 116, 105, 109, 101, 5, 97, 112, 112, 108, 101, 3, 99, 111, 109, 0]⟩

end RecurseX
