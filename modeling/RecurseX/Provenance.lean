import Mathlib.Algebra.Order.Ring.Rat
import Mathlib.Data.List.Perm.Basic
import Mathlib.Order.Bounds.Basic
import RecurseX.Cache.Key
import RecurseX.Library.Selection

/-!
# Answer provenance

The dependency set of one final answer, its cap, and the decisions that are
taken from it. Freshness bounds are rationals. Trimming forgets dependencies; a
set still `Summarizes` everything that was ever added to it.
-/

namespace RecurseX

open Library

/-- The part a dependency plays in a final answer. -/
inductive DependencyRole where
  | answer
  | cname
  | dname
  | delegation
  | nsAddress
  | dnssecProof
deriving DecidableEq, Ord, Repr

/-- Whether an answer containing this role may be served stale at all. -/
def DependencyRole.permitsStale (self : DependencyRole) : Bool :=
  match self with
  | .dnssecProof => false
  | _ => true

/-- Tuning for a dependency set. -/
structure ProvenanceConfig where
  /-- Maximum dependencies retained per answer. -/
  maxDependencies : Nat
deriving DecidableEq, Repr

/-- One dependency of a final answer. -/
structure Dependency where
  role : DependencyRole
  key : CacheKey
  /-- How many hops from the query name this sits. -/
  hop : UInt8
  freshnessLcb : ℚ
deriving DecidableEq, Repr

namespace Dependency

def permitsStale (self : Dependency) : Bool := self.role.permitsStale

/-- Ascending freshness, then role, then key. -/
def order : Dependency → Dependency → Ordering :=
  compareLex (compareOn freshnessLcb) (compareLex (compareOn role) (compareOn key))

end Dependency

/-- The dependency set of one final answer. -/
structure Provenance where
  config : ProvenanceConfig
  deps : List Dependency
  /-- The minimum freshness among dependencies that were discarded by the cap. -/
  residual : ℚ
deriving DecidableEq, Repr

/-- The loop that trims a sorted list: what is kept, how many of it are no
proofs, and the floor of what is not. -/
structure Trimming where
  kept : List Dependency
  othersKept : Nat
  residual : ℚ

/-- One turn of the loop. -/
def Trimming.take (room : Nat) (self : Trimming) (dep : Dependency) : Trimming :=
  if dep.role = .dnssecProof then { self with kept := self.kept ++ [dep] }
  else if self.othersKept < room then
    { self with kept := self.kept ++ [dep], othersKept := self.othersKept + 1 }
  else { self with residual := min self.residual dep.freshnessLcb }

/-- The last strongest dependency among candidates, with its position. -/
def strongest : List (Dependency × Nat) → Option (Dependency × Nat)
  | [] => none
  | first :: rest =>
      some (rest.foldl (fun best candidate =>
        if candidate.1.freshnessLcb < best.1.freshnessLcb then best else candidate) first)

namespace Provenance

/-- An empty set with the given configuration. -/
def new (config : ProvenanceConfig) : Provenance := { config, deps := [], residual := 1 }

/-- Build from a dependency list, applying the cap: the weakest are kept, and
every proof. -/
def fromDependencies (config : ProvenanceConfig) (deps : List Dependency) : Provenance :=
  let cap := max config.maxDependencies 1
  if deps.length > cap then
    let deps := deps.insertionSort fun left right => (left.order right).isLE
    let proofs := deps.countP fun dep => dep.role = .dnssecProof
    let room := cap - proofs
    let trimmed := deps.foldl (Trimming.take room) { kept := [], othersKept := 0, residual := 1 }
    { config, deps := trimmed.kept, residual := trimmed.residual }
  else { config, deps, residual := 1 }

/-- Add a dependency, honouring the cap by dropping the strongest non-proof
member. -/
def push (self : Provenance) (dep : Dependency) : Provenance :=
  let deps := self.deps ++ [dep]
  let cap := max self.config.maxDependencies 1
  if deps.length > cap then
    match strongest (deps.zipIdx.filter fun candidate => candidate.1.role ≠ .dnssecProof) with
    | some (dropped, index) =>
        { self with
          deps := deps.eraseIdx index
          residual := min self.residual dropped.freshnessLcb }
    | none => { self with deps }
  else { self with deps }

/-- Whether the set is empty. -/
def isEmpty (self : Provenance) : Bool := self.deps.isEmpty

/-- The conservative serviceability bound: the weakest link, including the
residual floor. -/
def bound (self : Provenance) : ℚ :=
  match (self.deps.map Dependency.freshnessLcb).min? with
  | none => self.residual
  | some weakest => min weakest self.residual

/-- Whether every dependency permits stale service at all. -/
def permitsStale (self : Provenance) : Bool := self.deps.all Dependency.permitsStale

/-- Whether the answer's bound clears `threshold` and every dependency is
stale-eligible. -/
def canServeStale (self : Provenance) (threshold : ℚ) : Bool :=
  !self.isEmpty && self.permitsStale && decide (threshold ≤ self.bound)

/-- The set that keeps all there is. -/
def untrimmed (config : ProvenanceConfig) (deps : List Dependency) : Provenance :=
  { config, deps, residual := 1 }

/-- The bound is the least of the residual and the freshness of the retained. -/
theorem bound_eq (self : Provenance) :
    self.bound = (self.deps.map Dependency.freshnessLcb).foldl min self.residual := by
  unfold bound
  cases self.deps with
  | nil => rfl
  | cons dep deps =>
      rw [List.map_cons, List.min?_cons', List.foldl_cons, List.foldl_assoc, min_comm]

/-- The set stands for `all`: what it has forgotten is no proof, is in the residual, and has left
something behind. -/
def Summarizes (self : Provenance) (all : List Dependency) : Prop :=
  ∃ dropped : List Dependency, (self.deps ++ dropped).Perm all ∧
    (∀ dep ∈ dropped, dep.permitsStale = true) ∧
    self.residual = (dropped.map Dependency.freshnessLcb).foldl min 1 ∧
    (self.deps = [] → dropped = [])

variable {self : Provenance} {config : ProvenanceConfig} {all : List Dependency} {dep : Dependency}

/-- What stands for a list decides as the list itself does. -/
theorem Summarizes.observables (summary : self.Summarizes all) (config : ProvenanceConfig) :
    self.bound = (untrimmed config all).bound ∧
      self.permitsStale = (untrimmed config all).permitsStale ∧
      self.isEmpty = (untrimmed config all).isEmpty := by
  obtain ⟨dropped, perm, staleEligible, residual, leftover⟩ := summary
  refine ⟨?_, ?_, ?_⟩
  · have together : (self.deps.map Dependency.freshnessLcb).foldl min self.residual =
        ((dropped ++ self.deps).map Dependency.freshnessLcb).foldl min 1 := by
      rw [residual, List.map_append, List.foldl_append]
    rw [bound_eq, bound_eq, together]
    exact ((List.perm_append_comm.trans perm).map _).foldl_op_eq
  · unfold permitsStale
    have whole : (self.deps ++ dropped).all Dependency.permitsStale =
        all.all Dependency.permitsStale := perm.all_eq
    rw [List.all_append, List.all_eq_true.mpr staleEligible, Bool.and_true] at whole
    exact whole
  · unfold isEmpty
    rw [Bool.eq_iff_iff, List.isEmpty_iff, List.isEmpty_iff]
    constructor
    · intro empty
      rw [empty, leftover empty] at perm
      exact perm.symm.eq_nil
    · intro (empty : all = [])
      rw [empty] at perm
      exact (List.append_eq_nil_iff.mp perm.eq_nil).1

/-- Stale service is permitted alike. -/
theorem Summarizes.canServeStale (summary : self.Summarizes all) (config : ProvenanceConfig)
    (threshold : ℚ) :
    self.canServeStale threshold = (untrimmed config all).canServeStale threshold := by
  obtain ⟨bound, permitted, empty⟩ := summary.observables config
  rw [Provenance.canServeStale, bound, permitted, empty]
  rfl

/-- The bound is the least freshness ever added, or one. -/
theorem isLeast_bound_untrimmed (config : ProvenanceConfig) (all : List Dependency) :
    IsLeast {freshness | freshness = 1 ∨ ∃ dep ∈ all, dep.freshnessLcb = freshness}
      (untrimmed config all).bound := by
  rw [bound_eq]
  have least (start : ℚ) : IsLeast
      {freshness | freshness = start ∨ ∃ dep ∈ all, dep.freshnessLcb = freshness}
      ((all.map Dependency.freshnessLcb).foldl min start) := by
    induction all generalizing start with
    | nil => simp
    | cons dep deps inductionHypothesis =>
        obtain ⟨attained, lower⟩ := inductionHypothesis (min start dep.freshnessLcb)
        rw [List.map_cons, List.foldl_cons]
        constructor
        · obtain start' | ⟨other, listed, same⟩ := attained
          · rw [start']
            obtain least | least := min_choice start dep.freshnessLcb
            · exact .inl least
            · exact .inr ⟨dep, List.mem_cons_self, least.symm⟩
          · exact .inr ⟨other, List.mem_cons_of_mem dep listed, same⟩
        · have first := lower (.inl rfl)
          rintro freshness (rfl | ⟨other, listed, rfl⟩)
          · exact first.trans (min_le_left _ _)
          · obtain rfl | later := List.mem_cons.mp listed
            · exact first.trans (min_le_right _ _)
            · exact lower (.inr ⟨other, later, rfl⟩)
  exact least 1

theorem permitsStale_iff : dep.permitsStale = true ↔ dep.role ≠ .dnssecProof := by
  unfold Dependency.permitsStale DependencyRole.permitsStale
  cases dep.role <;> simp

/-- The strongest candidate is one of them. -/
theorem mem_of_strongest {candidates : List (Dependency × Nat)} {found : Dependency × Nat}
    (isStrongest : strongest candidates = some found) : found ∈ candidates := by
  cases candidates with
  | nil => cases isStrongest
  | cons first rest =>
      obtain rfl := Option.some.inj isStrongest
      refine foldl_pick_mem (fun best candidate => ?_) first rest
      split_ifs
      · exact .inl rfl
      · exact .inr rfl

/-- What a push does: where there are too many, the strongest that is no proof goes. -/
theorem push_cases (self : Provenance) (dep : Dependency) :
    ((self.deps ++ [dep]).length ≤ max self.config.maxDependencies 1 ∨
        strongest ((self.deps ++ [dep]).zipIdx.filter
          fun candidate => decide (candidate.1.role ≠ .dnssecProof)) = none) ∧
      self.push dep = { self with deps := self.deps ++ [dep] } ∨
    ∃ strong index, max self.config.maxDependencies 1 < (self.deps ++ [dep]).length ∧
      strongest ((self.deps ++ [dep]).zipIdx.filter
        fun candidate => decide (candidate.1.role ≠ .dnssecProof)) = some (strong, index) ∧
      self.push dep = { self with
        deps := (self.deps ++ [dep]).eraseIdx index
        residual := min self.residual strong.freshnessLcb } := by
  unfold Provenance.push
  dsimp only
  split_ifs with exceeds
  · cases isStrongest : strongest ((self.deps ++ [dep]).zipIdx.filter
        fun candidate => decide (candidate.1.role ≠ .dnssecProof)) with
    | none => exact .inl ⟨.inr rfl, rfl⟩
    | some found => exact .inr ⟨found.1, found.2, exceeds, rfl, rfl⟩
  · exact .inl ⟨.inl (not_lt.mp exceeds), rfl⟩

/-- A push keeps standing for everything added. -/
theorem Summarizes.push (summary : self.Summarizes all) (dep : Dependency) :
    (self.push dep).Summarizes (all ++ [dep]) := by
  obtain ⟨dropped, perm, staleEligible, residual, leftover⟩ := summary
  have added : (self.deps ++ [dep] ++ dropped).Perm (all ++ [dep]) := by
    rw [List.append_assoc]
    exact (List.perm_append_comm.append_left self.deps).trans
      ((List.append_assoc ..) ▸ perm.append_right [dep])
  have kept : (⟨self.config, self.deps ++ [dep], self.residual⟩ : Provenance).Summarizes
      (all ++ [dep]) :=
    ⟨dropped, added, staleEligible, residual, by simp⟩
  obtain ⟨-, pushed⟩ | ⟨strong, index, exceeds, isStrongest, pushed⟩ := push_cases self dep
  · rw [pushed]
    exact kept
  · obtain ⟨listed, noProof⟩ := List.mem_filter.mp (mem_of_strongest isStrongest)
    obtain ⟨inside, located⟩ :=
      List.getElem?_eq_some_iff.mp (List.mem_zipIdx_iff_getElem?.mp listed)
    have split : (strong :: (self.deps ++ [dep]).eraseIdx index).Perm (self.deps ++ [dep]) := by
      dsimp only at located
      rw [← located]
      exact List.getElem_cons_eraseIdx_perm inside
    rw [pushed]
    refine ⟨dropped ++ [strong], ?_, ?_, ?_, ?_⟩
    · have moved : ((self.deps ++ [dep]).eraseIdx index ++ (dropped ++ [strong])).Perm
          (strong :: (self.deps ++ [dep]).eraseIdx index ++ dropped) := by
        rw [← List.append_assoc]
        exact List.perm_append_singleton _ _
      exact moved.trans ((split.append_right dropped).trans added)
    · intro other listed
      obtain earlier | rfl := List.mem_append.mp listed |>.imp_right List.mem_singleton.mp
      · exact staleEligible other earlier
      · exact permitsStale_iff.mpr (of_decide_eq_true noProof)
    · rw [List.map_append, List.foldl_append, ← residual]
      rfl
    · intro empty
      have length := congrArg List.length empty
      rw [List.length_eraseIdx_of_lt inside, List.length_nil] at length
      omega

/-- A turn of the trimming loop keeps the dependency, or there is no room for one more that is no
proof. -/
theorem take_cases (room : Nat) (trimming : Trimming) (dep : Dependency) :
    ((trimming.take room dep).kept = trimming.kept ++ [dep] ∧
      (trimming.take room dep).residual = trimming.residual) ∨
    (room ≤ trimming.othersKept ∧ dep.permitsStale = true ∧
      trimming.take room dep =
        { trimming with residual := min trimming.residual dep.freshnessLcb }) := by
  unfold Trimming.take
  split_ifs with proof within
  · exact .inl ⟨rfl, rfl⟩
  · exact .inl ⟨rfl, rfl⟩
  · exact .inr ⟨not_lt.mp within, permitsStale_iff.mpr proof, rfl⟩

/-- What the trimming loop keeps and drops, together, is what it has read. -/
theorem foldl_take (room : Nat) (deps : List Dependency) (start : Trimming) :
    ∃ dropped : List Dependency,
      ((deps.foldl (Trimming.take room) start).kept ++ dropped).Perm (start.kept ++ deps) ∧
      (∀ dep ∈ dropped, dep.permitsStale = true) ∧
      (deps.foldl (Trimming.take room) start).residual =
        (dropped.map Dependency.freshnessLcb).foldl min start.residual ∧
      start.kept <+: (deps.foldl (Trimming.take room) start).kept := by
  induction deps generalizing start with
  | nil => exact ⟨[], .refl _, by simp, rfl, List.prefix_rfl⟩
  | cons dep deps inductionHypothesis =>
      obtain ⟨dropped, perm, staleEligible, residual, grown⟩ :=
        inductionHypothesis (Trimming.take room start dep)
      rw [List.foldl_cons]
      obtain ⟨kept, same⟩ | ⟨-, eligible, taken⟩ := take_cases room start dep
      · rw [kept, List.append_assoc] at perm
        rw [kept] at grown
        exact ⟨dropped, perm, staleEligible, same ▸ residual, (List.prefix_append _ _).trans grown⟩
      · rw [taken] at perm residual grown ⊢
        refine ⟨dep :: dropped, ?_, List.forall_mem_cons.mpr ⟨eligible, staleEligible⟩, residual,
          grown⟩
        exact List.perm_middle.trans ((perm.cons dep).trans List.perm_middle.symm)

/-- Trimming a whole list stands for it. -/
theorem summarizes_fromDependencies (config : ProvenanceConfig) (all : List Dependency) :
    (fromDependencies config all).Summarizes all := by
  unfold fromDependencies
  dsimp only
  split_ifs with exceeds
  swap
  · exact ⟨[], by simp, by simp, rfl, fun _ => rfl⟩
  generalize isSorted : all.insertionSort (fun left right => (left.order right).isLE) = sorted
  have perm : sorted.Perm all := isSorted ▸ List.perm_insertionSort _ _
  generalize isRoom : max config.maxDependencies 1 -
    sorted.countP (fun dep => decide (dep.role = .dnssecProof)) = room
  obtain ⟨dropped, together, staleEligible, residual, -⟩ :=
    foldl_take room sorted { kept := [], othersKept := 0, residual := 1 }
  refine ⟨dropped, together.trans perm, staleEligible, residual, ?_⟩
  intro empty
  dsimp only at empty
  rw [empty, List.nil_append, List.nil_append] at together
  -- With nothing kept every dependency was dropped, so none is a proof and there was room.
  have noProofs : sorted.countP (fun dep => decide (dep.role = .dnssecProof)) = 0 := by
    rw [List.countP_eq_zero]
    intro dep listed
    have eligible := permitsStale_iff.mp (staleEligible dep (together.mem_iff.mpr listed))
    exact mt of_decide_eq_true eligible
  cases sorted with
  | nil => exact together.eq_nil
  | cons first rest =>
      exfalso
      obtain ⟨kept, -⟩ | ⟨full, -, -⟩ :=
        take_cases room { kept := [], othersKept := 0, residual := 1 } first
      · obtain ⟨-, -, -, -, grown⟩ := foldl_take room rest (Trimming.take room
          { kept := [], othersKept := 0, residual := 1 } first)
        rw [List.foldl_cons] at empty
        rw [empty, kept] at grown
        exact absurd grown (by simp)
      · dsimp only at full
        omega

/-- Pushes keep standing for everything added. -/
theorem Summarizes.pushes (summary : self.Summarizes all) (added : List Dependency) :
    (added.foldl Provenance.push self).Summarizes (all ++ added) := by
  induction added generalizing self all with
  | nil =>
      rw [List.append_nil]
      exact summary
  | cons dep added inductionHypothesis =>
      rw [List.append_cons]
      exact inductionHypothesis (summary.push dep)

/-- **Trimming is lossless for serving decisions.** Whatever is given at first and pushed later,
the trimmed set has the bound of everything ever added and decides as the untrimmed set does;
pushing one by one and building at once agree. -/
theorem trimming_keeps_decisions (config : ProvenanceConfig) (given added : List Dependency) :
    let trimmed := added.foldl push (fromDependencies config given)
    let whole := untrimmed config (given ++ added)
    let pushed := (given ++ added).foldl push (new config)
    let built := fromDependencies config (given ++ added)
    IsLeast {freshness | freshness = 1 ∨ ∃ dep ∈ given ++ added, dep.freshnessLcb = freshness}
        trimmed.bound ∧
      trimmed.bound = whole.bound ∧ trimmed.permitsStale = whole.permitsStale ∧
      (∀ threshold, trimmed.canServeStale threshold = whole.canServeStale threshold) ∧
      pushed.bound = built.bound ∧ pushed.permitsStale = built.permitsStale ∧
      ∀ threshold, pushed.canServeStale threshold = built.canServeStale threshold := by
  intro trimmed whole pushed built
  have trimmedSummary : trimmed.Summarizes (given ++ added) :=
    (summarizes_fromDependencies config given).pushes added
  have fresh : (new config).Summarizes [] := ⟨[], .refl _, by simp, rfl, fun _ => rfl⟩
  have pushedSummary : pushed.Summarizes (given ++ added) := fresh.pushes (given ++ added)
  have builtSummary : built.Summarizes (given ++ added) :=
    summarizes_fromDependencies config (given ++ added)
  obtain ⟨bound, permitted, -⟩ := trimmedSummary.observables config
  obtain ⟨pushedBound, pushedPermitted, -⟩ := pushedSummary.observables config
  obtain ⟨builtBound, builtPermitted, -⟩ := builtSummary.observables config
  refine ⟨?_, bound, permitted, trimmedSummary.canServeStale config,
    pushedBound.trans builtBound.symm, pushedPermitted.trans builtPermitted.symm,
    fun threshold => ?_⟩
  · rw [bound]
    exact isLeast_bound_untrimmed config (given ++ added)
  · exact (pushedSummary.canServeStale config threshold).trans
      (builtSummary.canServeStale config threshold).symm

end Provenance

end RecurseX
