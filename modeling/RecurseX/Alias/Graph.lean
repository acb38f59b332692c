import RecurseX.Bounded
import RecurseX.Cache.Key
import RecurseX.Library.Adjacency
import RecurseX.Library.Runs

/-!
# The alias graph

Which cached entry is only servable while another is fresh. The relation is kept in
both directions, with a count of its edges that is capped, and a map of the keys that
have taken part, which is not.
-/

namespace RecurseX

open Library
open Std (TreeMap TreeSet)

/-- Bounds for the alias graph. -/
structure AliasConfig where
  /-- Maximum number of edges. -/
  maxEdges : Nat
  /-- Keys not touched for this long are pruned. -/
  pruneAgeSecs : UInt64
deriving DecidableEq, Repr

/-- The alias-dependency graph over cached keys. -/
structure AliasGraph where
  config : AliasConfig
  /-- The key depends on its targets. -/
  fwd : Adjacency CacheKey
  /-- The key is depended on by its aliases. -/
  rev : Adjacency CacheKey
  /-- Last time a key took part in a resolution. -/
  seen : TreeMap CacheKey Ts
  edges : Nat

namespace AliasGraph

/-- An empty graph. -/
def new (config : AliasConfig) : AliasGraph :=
  { config, fwd := ∅, rev := ∅, seen := ∅, edges := 0 }

/-- Record that the entry at `source` is only servable while the data at `target`
is fresh. -/
def link (self : AliasGraph) (source target : CacheKey) (now : Ts) : AliasGraph :=
  let self := { self with seen := (self.seen.insert source now).insert target now }
  if (self.fwd.targets source).contains target then self
  else if self.edges ≥ self.config.maxEdges then self
  else
    { self with
      fwd := self.fwd.addArc source target
      rev := self.rev.addArc target source
      edges := self.edges + 1 }

/-- The keys last seen before the cutoff of a prune. -/
def deadKeys (self : AliasGraph) (now : Ts) (minAgeSecs : UInt64) : TreeSet CacheKey :=
  let age := if minAgeSecs = 0 then self.config.pruneAgeSecs else minAgeSecs
  let cutoff := saturatingSub now ((age.toNat : Int) * 1000000000)
  .ofList ((self.seen.toList.filter fun entry => entry.2 < cutoff).map Prod.fst)

/-- Drop keys (and their edges) not seen within `minAgeSecs`, or older than the
configured age when `minAgeSecs` is zero. -/
def prune (self : AliasGraph) (now : Ts) (minAgeSecs : UInt64) : AliasGraph :=
  let dead := self.deadKeys now minAgeSecs
  if dead.isEmpty then self
  else
    let fwd := self.fwd.dropNodes dead
    { self with
      seen := dead.toList.foldl (fun seen key => seen.erase key) self.seen
      fwd
      rev := self.rev.dropNodes dead
      edges := fwd.countArcs }

end AliasGraph

/-- One operation on the graph. -/
inductive AliasOp where
  | link (source target : CacheKey) (now : Ts)
  | prune (now : Ts) (minAgeSecs : UInt64)

namespace AliasOp

/-- The graph after one operation. -/
def apply (graph : AliasGraph) : AliasOp → AliasGraph
  | .link source target now => graph.link source target now
  | .prune now minAgeSecs => graph.prune now minAgeSecs

/-- The graph after a sequence of operations on an empty graph. -/
def run (config : AliasConfig) (ops : List AliasOp) : AliasGraph :=
  ops.foldl apply (.new config)

/-- A link finds room for the keys that it adds to those seen. -/
def Roomy (graph : AliasGraph) : AliasOp → Prop
  | .link source target _ =>
      (insert target (insert source (keySet graph.seen))).card ≤ 2 * graph.config.maxEdges
  | .prune .. => True

end AliasOp

/-- The two directions are converse, the count is that of the edges and within its cap, and every
end of an edge has been seen. -/
structure AliasGraph.Consistent (graph : AliasGraph) : Prop where
  converse : ∀ source target, target ∈ graph.fwd.targets source ↔ source ∈ graph.rev.targets target
  counted : graph.edges = graph.fwd.arcs.card
  capped : graph.edges ≤ graph.config.maxEdges
  seen : ∀ source target, target ∈ graph.fwd.targets source →
    source ∈ graph.seen ∧ target ∈ graph.seen

namespace AliasGraph

variable {self : AliasGraph} {source target : CacheKey} {now : Ts} {config : AliasConfig}

theorem targets_empty (source target : CacheKey) :
    target ∉ Adjacency.targets (∅ : Adjacency CacheKey) source := by
  rw [Adjacency.targets, TreeMap.getElem?_emptyc]
  exact TreeSet.not_mem_emptyc

theorem consistent_new (config : AliasConfig) : (new config).Consistent where
  converse source target := iff_of_false (targets_empty source target) (targets_empty target source)
  counted := by
    refine (Finset.card_eq_zero.mpr (Finset.eq_empty_of_forall_notMem fun arc listed => ?_)).symm
    exact targets_empty arc.1 arc.2 (Adjacency.mem_arcs.mp listed)
  capped := Nat.zero_le _
  seen source target leads := absurd leads (targets_empty source target)

/-- The keys seen once both ends of a link are. -/
def sawBoth (self : AliasGraph) (source target : CacheKey) (now : Ts) : TreeMap CacheKey Ts :=
  (self.seen.insert source now).insert target now

theorem mem_sawBoth {key : CacheKey} :
    key ∈ self.sawBoth source target now ↔ key = source ∨ key = target ∨ key ∈ self.seen := by
  unfold sawBoth
  rw [TreeMap.mem_insert, TreeMap.mem_insert, Std.LawfulEqCmp.compare_eq_iff_eq,
    Std.LawfulEqCmp.compare_eq_iff_eq]
  grind

/-- A link sees both keys, and records their edge if it is new and the cap leaves room. -/
theorem link_cases (self : AliasGraph) (source target : CacheKey) (now : Ts) :
    self.link source target now = { self with seen := self.sawBoth source target now } ∨
      target ∉ self.fwd.targets source ∧ self.edges < self.config.maxEdges ∧
        self.link source target now =
          { self with
            seen := self.sawBoth source target now
            fwd := self.fwd.addArc source target
            rev := self.rev.addArc target source
            edges := self.edges + 1 } := by
  unfold link
  dsimp only
  split_ifs with known full
  · exact .inl rfl
  · exact .inl rfl
  · exact .inr ⟨known, not_le.mp full, rfl⟩

theorem Consistent.link (consistent : self.Consistent) (source target : CacheKey) (now : Ts) :
    (self.link source target now).Consistent := by
  obtain ⟨converse, counted, capped, seen⟩ := consistent
  have stillSeen {first second : CacheKey} (leads : second ∈ self.fwd.targets first) :
      first ∈ self.sawBoth source target now ∧ second ∈ self.sawBoth source target now :=
    ⟨mem_sawBoth.mpr (.inr (.inr (seen first second leads).1)),
      mem_sawBoth.mpr (.inr (.inr (seen first second leads).2))⟩
  obtain same | ⟨unknown, room, added⟩ := link_cases self source target now
  · rw [same]
    exact ⟨converse, counted, capped, fun first second leads => stillSeen leads⟩
  · rw [added]
    refine ⟨fun first second => ?_, ?_, room, fun first second leads => ?_⟩
    · dsimp only
      rw [Adjacency.mem_targets_addArc, Adjacency.mem_targets_addArc, converse]
      exact or_congr_left and_comm
    · dsimp only
      rw [Adjacency.arcs_addArc, Finset.card_insert_of_notMem, counted]
      exact fun listed => unknown (Adjacency.mem_arcs.mp listed)
    · obtain ⟨rfl, rfl⟩ | earlier := Adjacency.mem_targets_addArc.mp leads
      · exact ⟨mem_sawBoth.mpr (.inl rfl), mem_sawBoth.mpr (.inr (.inl rfl))⟩
      · exact stillSeen earlier

/-- A sweep of keys takes them out and leaves the others. -/
theorem mem_foldl_erase {keys : List CacheKey} {seen : TreeMap CacheKey Ts} {key : CacheKey} :
    key ∈ keys.foldl (fun seen key => seen.erase key) seen ↔ key ∈ seen ∧ key ∉ keys := by
  induction keys generalizing seen with
  | nil => simp
  | cons first keys inductionHypothesis =>
      rw [List.foldl_cons, inductionHypothesis, TreeMap.mem_erase, List.mem_cons]
      have unequal : compare first key ≠ .eq ↔ key ≠ first := by
        rw [ne_eq, Std.LawfulEqCmp.compare_eq_iff_eq]
        exact not_congr eq_comm
      rw [unequal]
      tauto

/-- A prune drops dead keys and their edges. -/
theorem prune_cases (self : AliasGraph) (now : Ts) (minAgeSecs : UInt64) :
    self.prune now minAgeSecs = self ∨
      self.prune now minAgeSecs =
        { self with
          seen := (self.deadKeys now minAgeSecs).toList.foldl (fun seen key => seen.erase key) self.seen
          fwd := self.fwd.dropNodes (self.deadKeys now minAgeSecs)
          rev := self.rev.dropNodes (self.deadKeys now minAgeSecs)
          edges := (self.fwd.dropNodes (self.deadKeys now minAgeSecs)).countArcs } := by
  unfold prune
  dsimp only
  split_ifs
  · exact .inl rfl
  · exact .inr rfl

theorem Consistent.prune (consistent : self.Consistent) (now : Ts) (minAgeSecs : UInt64) :
    (self.prune now minAgeSecs).Consistent := by
  obtain same | pruned := prune_cases self now minAgeSecs
  · rw [same]
    exact consistent
  obtain ⟨converse, counted, capped, seen⟩ := consistent
  rw [pruned]
  generalize self.deadKeys now minAgeSecs = dead
  refine ⟨fun first second => ?_, (Adjacency.card_arcs _).symm, ?_, fun first second leads => ?_⟩
  · dsimp only
    rw [Adjacency.mem_targets_dropNodes, Adjacency.mem_targets_dropNodes, converse]
    exact and_congr_right fun _ => and_comm
  · have fewer : (self.fwd.dropNodes dead).arcs ⊆ self.fwd.arcs := by
      intro arc listed
      rw [Adjacency.mem_arcs, Adjacency.mem_targets_dropNodes] at listed
      exact Adjacency.mem_arcs.mpr listed.1
    dsimp only
    rw [← Adjacency.card_arcs]
    exact (Finset.card_le_card fewer).trans (counted ▸ capped)
  · dsimp only at leads ⊢
    obtain ⟨led, alive, aliveToo⟩ := Adjacency.mem_targets_dropNodes.mp leads
    rw [mem_foldl_erase, mem_foldl_erase, TreeSet.mem_toList, TreeSet.mem_toList]
    exact ⟨⟨(seen first second led).1, alive⟩, ⟨(seen first second led).2, aliveToo⟩⟩

end AliasGraph

namespace AliasOp

variable {graph : AliasGraph} {config : AliasConfig}

theorem consistent_run (config : AliasConfig) (ops : List AliasOp) : (run config ops).Consistent :=
  foldl_invariant apply AliasGraph.Consistent (fun graph op consistent => by
    cases op with
    | link source target now => exact consistent.link source target now
    | prune now minAgeSecs => exact consistent.prune now minAgeSecs)
    (AliasGraph.consistent_new config)

theorem config_run (config : AliasConfig) (ops : List AliasOp) : (run config ops).config = config :=
  foldl_invariant apply (fun graph => graph.config = config) (fun graph op same => by
    cases op with
    | link source target now =>
        obtain linked | ⟨-, -, linked⟩ := AliasGraph.link_cases graph source target now
        all_goals
          rw [apply, linked]
          exact same
    | prune now minAgeSecs =>
        obtain pruned | pruned := AliasGraph.prune_cases graph now minAgeSecs
        all_goals
          rw [apply, pruned]
          exact same) rfl

theorem run_append (config : AliasConfig) (ops : List AliasOp) (op : AliasOp) :
    run config (ops ++ [op]) = op.apply (run config ops) := by
  rw [run, List.foldl_append]
  rfl

/-- From within the bound, an operation stays within it exactly when it finds room. -/
theorem size_seen_apply_le_iff (op : AliasOp)
    (within : graph.seen.size ≤ 2 * graph.config.maxEdges) :
    (op.apply graph).seen.size ≤ 2 * graph.config.maxEdges ↔ op.Roomy graph := by
  cases op with
  | link source target now =>
      have both : (graph.link source target now).seen = graph.sawBoth source target now := by
        obtain linked | ⟨-, -, linked⟩ := AliasGraph.link_cases graph source target now
        all_goals rw [linked]
      rw [apply, both, AliasGraph.sawBoth, ← card_keySet, keySet_insert, keySet_insert]
      rfl
  | prune now minAgeSecs =>
      refine iff_of_true ?_ trivial
      obtain pruned | pruned := AliasGraph.prune_cases graph now minAgeSecs
      · rw [apply, pruned]
        exact within
      · rw [apply, pruned, ← card_keySet]
        rw [← card_keySet] at within
        refine (Finset.card_le_card fun key left => ?_).trans within
        rw [keySet, List.mem_toFinset, TreeMap.mem_keys] at left ⊢
        exact (AliasGraph.mem_foldl_erase.mp left).1

theorem size_seen_run_le_iff {ops : List AliasOp}
    (within : (run config ops).seen.size ≤ 2 * config.maxEdges) (op : AliasOp) :
    (run config (ops ++ [op])).seen.size ≤ 2 * config.maxEdges ↔ op.Roomy (run config ops) := by
  have same : (run config ops).config = config := config_run config ops
  rw [run_append]
  nth_rewrite 2 [← same]
  exact size_seen_apply_le_iff op (by rw [same]; exact within)

end AliasOp

/-- **The alias graph.** After any links and prunes the two directions are converse, the counter is
the number of edges and within its cap, and the ends of all edges have been seen; the keys seen
number at most twice the cap throughout a run exactly when every link of the run finds room for its
keys among them. -/
theorem aliasGraph_seen_bounded_iff (config : AliasConfig) (ops : List AliasOp) :
    (AliasOp.run config ops).Consistent ∧
      ((∀ before, before <+: ops → (AliasOp.run config before).seen.size ≤ 2 * config.maxEdges) ↔
        ∀ before op, before ++ [op] <+: ops → op.Roomy (AliasOp.run config before)) := by
  refine ⟨AliasOp.consistent_run config ops, ?_, ?_⟩
  · intro bounded before op reached
    have within := bounded before ((List.prefix_append before [op]).trans reached)
    exact (AliasOp.size_seen_run_le_iff within op).mp (bounded (before ++ [op]) reached)
  · intro roomy before
    induction before using List.reverseRecOn with
    | nil => exact fun _ => Nat.zero_le _
    | append_singleton before op inductionHypothesis =>
        intro reached
        have within := inductionHypothesis ((List.prefix_append before [op]).trans reached)
        exact (AliasOp.size_seen_run_le_iff within op).mpr (roomy before op reached)

/-- Keys of four names. -/
def fourKeys : Fin 4 → CacheKey := fun index => .plain ⟨[1, 0x61 + index.val.toUInt8, 0]⟩ .A .IN

/-- A link at the cap leaves its keys seen without an edge. -/
theorem aliasGraph_seen_exceeds :
    (AliasOp.run ⟨1, 3600⟩ [.link (fourKeys 0) (fourKeys 1) 0, .link (fourKeys 2) (fourKeys 3) 0]).seen.size
        = 4 ∧
      (AliasOp.run ⟨1, 3600⟩ [.link (fourKeys 0) (fourKeys 1) 0,
        .link (fourKeys 2) (fourKeys 3) 0]).edges = 1 := by
  decide

end RecurseX
