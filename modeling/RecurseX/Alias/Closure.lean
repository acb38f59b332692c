import RecurseX.Alias.Graph
import RecurseX.Library.BreadthFirst

/-!
# The closure of a key

A traversal of the alias graph that stops once it has found enough. It looks at how
many keys it has found before it expands the next one, not while it does.
-/

namespace RecurseX

open Library
open Std (TreeMap TreeSet)

namespace AliasGraph

/-- The data that `key` needs fresh to be servable. -/
def dependsOn (self : AliasGraph) (key : CacheKey) : List CacheKey := (self.fwd.targets key).toList

/-- A target that is not seen yet joins the queue. -/
def visit (state : TreeSet CacheKey × List CacheKey) (next : CacheKey) :
    TreeSet CacheKey × List CacheKey :=
  if state.1.contains next then state else (state.1.insert next, state.2 ++ [next])

/-- The traversal, for so many turns at most. -/
def closureLoop (self : AliasGraph) (max : Nat) :
    Nat → TreeSet CacheKey → List CacheKey → Option (TreeSet CacheKey)
  | 0, _, _ => none
  | _ + 1, seen, [] => some seen
  | fuel + 1, seen, cur :: queue =>
      if seen.size ≥ max then some seen
      else
        let state := (self.dependsOn cur).foldl visit (seen, queue)
        self.closureLoop max fuel state.1 state.2

/-- Every entry reachable from `key` through alias edges, including `key` itself,
bounded to `max` keys. -/
def closure (self : AliasGraph) (fuel : Nat) (key : CacheKey) (max : Nat) : Option (List CacheKey) :=
  (self.closureLoop max fuel (TreeSet.empty.insert key) [key]).map TreeSet.toList

/-- The keys that a traversal without a limit finds in so many turns. -/
def foundIn (self : AliasGraph) (key : CacheKey) (turn : Nat) : List CacheKey :=
  discovered self.dependsOn key turn

/-- No key whose turn comes before enough keys are found leads past the limit. -/
def Narrow (self : AliasGraph) (key : CacheKey) (max : Nat) : Prop :=
  ∀ turn, turn < (self.foundIn key turn).length → (self.foundIn key turn).length < max →
    (self.foundIn key (turn + 1)).length ≤ max

variable {self : AliasGraph} {key : CacheKey} {max fuel turn : Nat} {seen : TreeSet CacheKey}
  {found queue : List CacheKey}

/-- The set has what is found, and as many. -/
structure Holds (seen : TreeSet CacheKey) (found : List CacheKey) : Prop where
  mem_iff : ∀ key, key ∈ seen ↔ key ∈ found
  size_eq : seen.size = found.length

/-- Visiting targets finds the new ones and has them join the queue. -/
theorem foldl_visit (holds : Holds seen found) (targets : List CacheKey) :
    Holds (targets.foldl visit (seen, queue)).1 (targets.foldl addNew found) ∧
      (targets.foldl visit (seen, queue)).2 =
        queue ++ (targets.foldl addNew found).drop found.length := by
  induction targets generalizing seen queue found with
  | nil => exact ⟨holds, by rw [List.foldl_nil, List.foldl_nil, List.drop_length, List.append_nil]⟩
  | cons target targets inductionHypothesis =>
      rw [List.foldl_cons, List.foldl_cons]
      by_cases known : target ∈ found
      · have visited : visit (seen, queue) target = (seen, queue) :=
          if_pos (TreeSet.mem_iff_contains.mp ((holds.mem_iff target).mpr known))
        have added : addNew found target = found := if_pos known
        rw [visited, added]
        exact inductionHypothesis holds
      · have unseen : ¬seen.contains target = true := mt (holds.mem_iff target).mp known
        have visited : visit (seen, queue) target = (seen.insert target, queue ++ [target]) :=
          if_neg unseen
        have added : addNew found target = found ++ [target] := if_neg known
        have next : Holds (seen.insert target) (found ++ [target]) := by
          refine ⟨fun key => ?_, ?_⟩
          · rw [TreeSet.mem_insert, Std.LawfulEqCmp.compare_eq_iff_eq, holds.mem_iff,
              List.mem_append, List.mem_singleton, or_comm, eq_comm]
          · rw [TreeSet.size_insert, if_neg unseen, holds.size_eq, List.length_append,
              List.length_singleton]
        obtain ⟨later, joined⟩ : _ ∧ _ := inductionHypothesis next
        rw [visited, added]
        refine ⟨later, joined.trans ?_⟩
        obtain ⟨rest, split⟩ := prefix_foldl_addNew (found ++ [target]) targets
        rw [← split, List.drop_left, List.append_assoc found, List.drop_left, List.append_assoc]

/-- The traversal is at a turn: the keys found are seen, and those whose turn is to come queue. -/
structure AtTurn (graph : AliasGraph) (key : CacheKey) (turn : Nat) (seen : TreeSet CacheKey)
    (queue : List CacheKey) : Prop where
  holds : Holds seen (graph.foundIn key turn)
  queue_eq : queue = (graph.foundIn key turn).drop turn

theorem atTurn_start (self : AliasGraph) (key : CacheKey) :
    self.AtTurn key 0 (TreeSet.empty.insert key) [key] := by
  refine ⟨⟨fun other => ?_, ?_⟩, rfl⟩
  · rw [TreeSet.mem_insert, Std.LawfulEqCmp.compare_eq_iff_eq, foundIn, discovered,
      List.mem_singleton, eq_comm]
    exact or_iff_left TreeSet.not_mem_emptyc
  · rw [TreeSet.size_insert]
    rfl

/-- One turn of the traversal is one turn of the discovery. -/
theorem AtTurn.step {cur : CacheKey} (atTurn : self.AtTurn key turn seen (cur :: queue)) :
    turn < (self.foundIn key turn).length ∧ self.AtTurn key (turn + 1)
      ((self.dependsOn cur).foldl visit (seen, queue)).1
      ((self.dependsOn cur).foldl visit (seen, queue)).2 := by
  obtain ⟨holds, queued⟩ := atTurn
  have inside : turn < (self.foundIn key turn).length := by
    by_contra outside
    rw [List.drop_eq_nil_of_le (not_lt.mp outside)] at queued
    cases queued
  obtain ⟨here, behind⟩ := List.cons.inj (queued.trans (List.drop_eq_getElem_cons inside))
  have next : self.foundIn key (turn + 1) =
      (self.dependsOn cur).foldl addNew (self.foundIn key turn) := by
    have atTurn : (discovered self.dependsOn key turn)[turn]? = some cur := by
      rw [here]
      exact List.getElem?_eq_getElem inside
    rw [foundIn, discovered, expand, atTurn]
    rfl
  obtain ⟨later, joined⟩ : _ ∧ ((self.dependsOn cur).foldl visit (seen, queue)).2 = queue ++ _ :=
    foldl_visit holds (self.dependsOn cur)
  rw [← next] at later joined
  refine ⟨inside, later, joined.trans ?_⟩
  obtain ⟨rest, split⟩ : self.foundIn key turn <+: self.foundIn key (turn + 1) :=
    prefix_discovered self.dependsOn key (Nat.le_succ turn)
  rw [behind, ← split, List.drop_left, List.drop_append_of_le_length inside]

/-- Where the traversal stops: there is nothing left to expand, or enough is found. -/
structure Stopped (graph : AliasGraph) (key : CacheKey) (max turn : Nat) (seen : TreeSet CacheKey) :
    Prop where
  holds : Holds seen (graph.foundIn key turn)
  done : (graph.foundIn key turn).length ≤ turn ∨ max ≤ (graph.foundIn key turn).length
  before : ∀ earlier < turn, earlier < (graph.foundIn key earlier).length ∧
    (graph.foundIn key earlier).length < max

/-- With a turn for every key that can be found, and one more, the traversal stops. -/
theorem AtTurn.stops {most : Nat} (atTurn : self.AtTurn key turn seen queue)
    (bounded : ∀ turn, (self.foundIn key turn).length ≤ most) (enough : most + 1 ≤ turn + fuel)
    (before : ∀ earlier < turn, earlier < (self.foundIn key earlier).length ∧
      (self.foundIn key earlier).length < max) :
    ∃ last final, self.closureLoop max fuel seen queue = some final ∧
      self.Stopped key max last final := by
  induction fuel generalizing turn seen queue with
  | zero =>
      obtain ⟨earlier, rfl⟩ : ∃ earlier, turn = earlier + 1 := Nat.exists_eq_add_one.mpr (by omega)
      have inside := (before earlier (Nat.lt_succ_self earlier)).1
      have within := bounded earlier
      omega
  | succ fuel inductionHypothesis =>
      cases queue with
      | nil =>
          refine ⟨turn, seen, rfl, atTurn.holds, .inl ?_, before⟩
          exact List.drop_eq_nil_iff.mp atTurn.queue_eq.symm
      | cons cur queue =>
          rw [closureLoop]
          by_cases full : seen.size ≥ max
          · rw [if_pos full]
            exact ⟨turn, seen, rfl, atTurn.holds, .inr (atTurn.holds.size_eq ▸ full), before⟩
          · rw [if_neg full]
            obtain ⟨inside, next⟩ := atTurn.step
            refine inductionHypothesis next (by omega) fun earlier passed => ?_
            obtain later | rfl := Nat.lt_succ_iff_lt_or_eq.mp passed
            · exact before earlier later
            · exact ⟨inside, atTurn.holds.size_eq ▸ not_le.mp full⟩

theorem nodup_foundIn (self : AliasGraph) (key : CacheKey) (turn : Nat) :
    (self.foundIn key turn).Nodup :=
  nodup_discovered self.dependsOn key turn

/-- A traversal finds the start and targets of edges. -/
theorem length_foundIn_le (self : AliasGraph) (key : CacheKey) (turn : Nat) :
    (self.foundIn key turn).length ≤ self.fwd.countArcs + 1 := by
  have ends : ∀ turn, ∀ other ∈ self.foundIn key turn,
      other ∈ insert key (self.fwd.arcs.image Prod.snd) := by
    intro turn
    induction turn with
    | zero =>
        intro other listed
        rw [List.mem_singleton.mp listed]
        exact Finset.mem_insert_self _ _
    | succ turn inductionHypothesis =>
        intro other listed
        obtain early | ⟨source, -, leads⟩ := mem_discovered_succ.mp listed
        · exact inductionHypothesis other early
        · have arc : (source, other) ∈ self.fwd.arcs :=
            Adjacency.mem_arcs.mpr (TreeSet.mem_toList.mp leads)
          exact Finset.mem_insert_of_mem (Finset.mem_image_of_mem Prod.snd arc)
  rw [← List.toFinset_card_of_nodup (nodup_foundIn self key turn), ← Adjacency.card_arcs]
  calc (self.foundIn key turn).toFinset.card
      ≤ (insert key (self.fwd.arcs.image Prod.snd)).card :=
        Finset.card_le_card fun other listed => ends turn other (List.mem_toFinset.mp listed)
    _ ≤ (self.fwd.arcs.image Prod.snd).card + 1 := Finset.card_insert_le _ _
    _ ≤ self.fwd.arcs.card + 1 := Nat.succ_le_succ Finset.card_image_le

/-- What a stopped traversal has found is no more than allowed exactly when no key led past the
limit. -/
theorem Stopped.length_le_iff (stopped : self.Stopped key max turn seen) (positive : 1 ≤ max) :
    (self.foundIn key turn).length ≤ max ↔ self.Narrow key max := by
  obtain ⟨-, done, before⟩ := stopped
  have grows {earlier later : Nat} (order : earlier ≤ later) :
      (self.foundIn key earlier).length ≤ (self.foundIn key later).length :=
    (prefix_discovered self.dependsOn key order).length_le
  constructor
  · intro within earlier inside room
    obtain passed | left := Nat.lt_or_ge earlier turn
    · exact (grows passed).trans within
    · exfalso
      obtain settled | enough := done
      · have same : self.foundIn key earlier = self.foundIn key turn :=
          discovered_settled settled left
        rw [same] at inside
        omega
      · have more := grows left
        omega
  · intro narrow
    cases turn with
    | zero => exact positive
    | succ earlier =>
        obtain ⟨inside, room⟩ := before earlier (Nat.lt_succ_self earlier)
        exact narrow earlier inside room

/-- A stopped traversal has found all there is, where that is no more than allowed. -/
theorem Stopped.complete (stopped : self.Stopped key max turn seen) {all : Finset CacheKey}
    (reachable : ∀ other, other ∈ all ↔ Reaches self.dependsOn key other) (few : all.card ≤ max) :
    (self.foundIn key turn).toFinset = all := by
  have part : (self.foundIn key turn).toFinset ⊆ all := fun other listed =>
    (reachable other).mpr (reaches_of_discovered (List.mem_toFinset.mp listed))
  obtain settled | enough := stopped.done
  · refine part.antisymm fun other listed => List.mem_toFinset.mpr ?_
    exact mem_discovered_of_settled settled ((reachable other).mp listed)
  · refine Finset.eq_of_subset_of_card_le part ?_
    rw [List.toFinset_card_of_nodup (nodup_foundIn self key turn)]
    exact few.trans enough

/-- A traversal that has ended does not use more turns. -/
theorem closureLoop_of_le {more : Nat} {final : TreeSet CacheKey} (enough : fuel ≤ more)
    (ran : self.closureLoop max fuel seen queue = some final) :
    self.closureLoop max more seen queue = some final := by
  induction fuel generalizing more seen queue with
  | zero => cases ran
  | succ fuel inductionHypothesis =>
      obtain ⟨more, rfl⟩ : ∃ turns, more = turns + 1 := Nat.exists_eq_add_one.mpr (by omega)
      cases queue with
      | nil => exact ran
      | cons cur queue =>
          rw [closureLoop] at ran ⊢
          split_ifs at ran ⊢
          · exact ran
          · exact inductionHypothesis (Nat.le_of_succ_le_succ enough) ran

end AliasGraph

/-- **The closure.** With a turn for every edge and two more the traversal ends; what it returns is
listed once and can be reached from the start, and is all that can be reached where that is no more
than the limit. It returns no more than the limit exactly when no key that is expanded below the
limit leads past it. -/
theorem closure_within_iff (graph : AliasGraph) (key : CacheKey) {max : Nat} (positive : 1 ≤ max) :
    ∃ keys : List CacheKey,
      (∀ fuel, graph.fwd.countArcs + 2 ≤ fuel → graph.closure fuel key max = some keys) ∧
      keys.Nodup ∧ (∀ other ∈ keys, Reaches graph.dependsOn key other) ∧
      (∀ all : Finset CacheKey, (∀ other, other ∈ all ↔ Reaches graph.dependsOn key other) →
        all.card ≤ max → keys.toFinset = all) ∧
      (keys.length ≤ max ↔ graph.Narrow key max) := by
  obtain ⟨last, final, ran, stopped⟩ : ∃ last final,
      graph.closureLoop max (graph.fwd.countArcs + 2) (TreeSet.empty.insert key) [key] = some final ∧
        graph.Stopped key max last final :=
    (graph.atTurn_start key).stops (graph.length_foundIn_le key) (by omega)
      fun earlier passed => absurd passed (Nat.not_lt_zero earlier)
  have listed (other : CacheKey) : other ∈ final.toList ↔ other ∈ graph.foundIn key last :=
    TreeSet.mem_toList.trans (stopped.holds.mem_iff other)
  refine ⟨final.toList, fun fuel enough => ?_, ?_, fun other inside => ?_, fun all reachable few => ?_,
    ?_⟩
  · rw [AliasGraph.closure, AliasGraph.closureLoop_of_le enough ran]
    rfl
  · exact TreeSet.distinct_toList.imp fun different same => different (by rw [same]; exact Std.compare_self)
  · exact reaches_of_discovered ((listed other).mp inside)
  · rw [← stopped.complete reachable few]
    ext other
    rw [List.mem_toFinset, List.mem_toFinset, listed]
  · rw [TreeSet.length_toList, stopped.holds.size_eq]
    exact stopped.length_le_iff positive

/-- A key with two targets. -/
def fork : AliasGraph :=
  AliasOp.run ⟨10, 3600⟩ [.link (fourKeys 0) (fourKeys 1) 0, .link (fourKeys 0) (fourKeys 2) 0]

/-- The closure of a key with two targets is of three keys, where two are allowed. -/
theorem closure_exceeds : (fork.closure 4 (fourKeys 0) 2).map List.length = some 3 := by
  decide

/-- A chain of two keys is all of its closure. -/
theorem closure_within_iff_chain :
    ∃ keys, (AliasOp.run ⟨10, 3600⟩ [.link (fourKeys 0) (fourKeys 1) 0]).closure 3 (fourKeys 0) 2 =
      some keys ∧ keys.Nodup := by
  obtain ⟨keys, ran, once, -⟩ := @closure_within_iff
    (AliasOp.run ⟨10, 3600⟩ [.link (fourKeys 0) (fourKeys 1) 0]) (fourKeys 0) 2 (by decide)
  exact ⟨keys, ran 3 (by decide), once⟩

end RecurseX
