import Mathlib.Data.Finset.Card
import Mathlib.Data.List.Nodup
import Std.Data.TreeMap.Lemmas
import Std.Data.TreeSet.Lemmas

/-!
# Adjacency maps

A directed graph as a map from each node to the set of its targets. The arcs of the
graph are a finite set of pairs; adding an arc inserts it, dropping nodes keeps the
arcs between the others, and the sizes of the sets of targets add up to their number.
-/

namespace RecurseX.Library

open Std (TreeMap TreeSet)

/-- The targets of each node. -/
abbrev Adjacency (K : Type) [Ord K] : Type := TreeMap K (TreeSet K)

namespace Adjacency

variable {K : Type} [Ord K]

/-- Where the arcs of a node lead. -/
def targets (map : Adjacency K) (source : K) : TreeSet K := map[source]?.getD ∅

/-- Add an arc. -/
def addArc (map : Adjacency K) (source target : K) : Adjacency K :=
  map.insert source ((map.targets source).insert target)

/-- Drop nodes, the arcs that lead to them, and the nodes that have none left. -/
def dropNodes (map : Adjacency K) (dead : TreeSet K) : Adjacency K :=
  (map.map fun source targets =>
    if dead.contains source then targets else targets.filter fun target => !dead.contains target).filter
      fun source targets => !dead.contains source && !targets.isEmpty

/-- How many targets the nodes have together. -/
def countArcs (map : Adjacency K) : Nat :=
  map.toList.foldr (fun entry total => entry.2.size + total) 0

/-- The arcs, one after the other. -/
def arcList (map : Adjacency K) : List (K × K) :=
  map.toList.flatMap fun entry => entry.2.toList.map fun target => (entry.1, target)

variable {map : Adjacency K} {source target : K}

theorem length_arcList [Std.TransOrd K] : map.arcList.length = map.countArcs := by
  unfold arcList countArcs
  induction map.toList with
  | nil => rfl
  | cons entry rest further =>
      rw [List.flatMap_cons, List.length_append, List.length_map, TreeSet.length_toList, further,
        List.foldr_cons]

variable [Std.TransOrd K] [Std.LawfulEqOrd K]

theorem mem_arcList {arc : K × K} : arc ∈ map.arcList ↔ arc.2 ∈ map.targets arc.1 := by
  unfold arcList targets
  rw [List.mem_flatMap]
  constructor
  · rintro ⟨⟨source, set⟩, listed, leads⟩
    obtain ⟨target, inside, rfl⟩ := List.mem_map.mp leads
    rw [TreeMap.mem_toList_iff_getElem?_eq_some.mp listed]
    exact TreeSet.mem_toList.mp inside
  · intro leads
    cases found : map[arc.1]? with
    | none =>
        rw [found] at leads
        exact absurd leads TreeSet.not_mem_emptyc
    | some set =>
        rw [found] at leads
        refine ⟨(arc.1, set), TreeMap.mem_toList_iff_getElem?_eq_some.mpr found, ?_⟩
        exact List.mem_map.mpr ⟨arc.2, TreeSet.mem_toList.mpr leads, rfl⟩

/-- No arc is listed twice. -/
theorem nodup_arcList (map : Adjacency K) : map.arcList.Nodup := by
  refine List.nodup_flatMap.mpr ⟨fun entry _ => ?_, ?_⟩
  · have distinct : entry.2.toList.Nodup :=
      TreeSet.distinct_toList.imp fun different same => different (by rw [same]; exact Std.compare_self)
    exact distinct.map fun first second same => congrArg Prod.snd same
  · refine TreeMap.distinct_keys_toList.imp fun {left right} different arc leads leadsToo => ?_
    obtain ⟨target, -, rfl⟩ := List.mem_map.mp leads
    obtain ⟨other, -, same⟩ := List.mem_map.mp leadsToo
    exact different (by rw [← congrArg Prod.fst same]; exact Std.compare_self)

/-- A new target is one of the targets of its source. -/
theorem mem_targets_addArc {first second : K} :
    target ∈ (map.addArc first second).targets source ↔
      (source = first ∧ target = second) ∨ target ∈ map.targets source := by
  unfold addArc targets
  rw [TreeMap.getElem?_insert]
  by_cases same : first = source
  · subst same
    rw [if_pos Std.compare_self, Option.getD_some, TreeSet.mem_insert,
      Std.LawfulEqCmp.compare_eq_iff_eq, eq_comm, and_iff_right rfl]
  · rw [if_neg (mt Std.LawfulEqOrd.eq_of_compare same)]
    exact (or_iff_right fun new => same new.1.symm).symm

theorem mem_filter_set {set : TreeSet K} {keep : K → Bool} {item : K} :
    item ∈ set.filter keep ↔ item ∈ set ∧ keep item = true := by
  change item ∈ set.inner.filter (fun item _ => keep item) ↔ item ∈ set.inner ∧ keep item = true
  rw [TreeMap.mem_filter, ← exists_prop]
  refine exists_congr fun inside => ?_
  rw [TreeMap.getKey_eq]

/-- What is dropped takes its arcs along, and no others. -/
theorem mem_targets_dropNodes {dead : TreeSet K} : target ∈ (map.dropNodes dead).targets source ↔
    target ∈ map.targets source ∧ source ∉ dead ∧ target ∉ dead := by
  unfold dropNodes targets
  rw [TreeMap.getElem?_filter', TreeMap.getElem?_map]
  cases found : map[source]? with
  | none => exact iff_of_false TreeSet.not_mem_emptyc fun leads => TreeSet.not_mem_emptyc leads.1
  | some set =>
      rw [Option.map_some, Option.getD_some]
      by_cases gone : source ∈ dead
      · have dropped : dead.contains source = true := gone
        rw [Option.filter_some, dropped]
        exact iff_of_false TreeSet.not_mem_emptyc fun leads => leads.2.1 gone
      · have stays : dead.contains source = false := Bool.eq_false_iff.mpr gone
        have kept : target ∈ set.filter (fun target => !dead.contains target) ↔
            target ∈ set ∧ target ∉ dead := by
          rw [mem_filter_set, Bool.not_eq_true', Bool.eq_false_iff]
          rfl
        rw [Option.filter_some, stays, Bool.not_false, Bool.true_and, if_neg Bool.false_ne_true,
          and_iff_right gone]
        refine Iff.trans ?_ kept
        generalize set.filter (fun target => !dead.contains target) = rest
        by_cases empty : rest.isEmpty = true
        · rw [empty]
          exact iff_of_false TreeSet.not_mem_emptyc (TreeSet.isEmpty_iff_forall_not_mem.mp empty target)
        · rw [Bool.eq_false_iff.mpr empty]
          rfl

variable [DecidableEq K]

/-- The arcs of the graph. -/
def arcs (map : Adjacency K) : Finset (K × K) := map.arcList.toFinset

theorem mem_arcs {arc : K × K} : arc ∈ map.arcs ↔ arc.2 ∈ map.targets arc.1 :=
  List.mem_toFinset.trans mem_arcList

theorem card_arcs (map : Adjacency K) : map.arcs.card = map.countArcs := by
  rw [arcs, List.toFinset_card_of_nodup (nodup_arcList map), length_arcList]

theorem arcs_addArc (map : Adjacency K) (source target : K) :
    (map.addArc source target).arcs = insert (source, target) map.arcs := by
  ext arc
  rw [Finset.mem_insert, mem_arcs, mem_arcs, mem_targets_addArc, Prod.ext_iff]

end Adjacency

end RecurseX.Library
