import RecurseX.Library.KeepLeast
import RecurseX.RefreshPlan

/-!
# The consequence of a trimmed answer

A refresh is planned by the worst consequence among the dependencies of an answer.
Trimming keeps the weakest dependencies, and the worst consequence may sit on one
that is not weak.
-/

namespace RecurseX

open Library

/-- How bad it is for this data to be wrong. -/
inductive Consequence where
  | low
  | medium
  | high
  | critical
  | absolute
deriving DecidableEq, Repr

/-- The classes are ordered as they are listed. -/
def Consequence.severity : Consequence → Nat
  | .low => 0
  | .medium => 1
  | .high => 2
  | .critical => 3
  | .absolute => 4

theorem severity_injective : Function.Injective Consequence.severity := by
  rintro ⟨⟩ ⟨⟩ <;> decide

instance : LinearOrder Consequence := LinearOrder.lift' Consequence.severity severity_injective

/-- The consequence class this role implies. -/
def DependencyRole.consequence : DependencyRole → Consequence
  | .answer => .low
  | .cname | .dname => .medium
  | .delegation | .nsAddress => .critical
  | .dnssecProof => .absolute

namespace Provenance

/-- The strictest consequence class present in the set. -/
def worstConsequence (self : Provenance) : Option Consequence :=
  (self.deps.map fun dep => dep.role.consequence).max?

/-- A dependency of the strictest class among all. -/
def OfWorstClass (all : List Dependency) (dep : Dependency) : Prop :=
  ∀ other ∈ all, other.role.consequence ≤ dep.role.consequence

instance (all : List Dependency) (dep : Dependency) : Decidable (OfWorstClass all dep) :=
  inferInstanceAs (Decidable (∀ other ∈ all, _))

/-- The order in which a set takes what it is given at once: as given if it fits, else sorted. -/
def arrival (config : ProvenanceConfig) (given : List Dependency) : List Dependency :=
  if given.length > max config.maxDependencies 1 then
    given.insertionSort fun left right => (left.order right).isLE
  else given

/-- Some dependency of the strictest class is a proof, or among the weakest that the cap leaves room
for, the earlier first where they are equally weak. -/
def WorstIsWeak (config : ProvenanceConfig) (given added : List Dependency) : Prop :=
  given ++ added = [] ∨ ∃ dep ∈ given ++ added, OfWorstClass (given ++ added) dep ∧
    (dep.role = .dnssecProof ∨
      dep ∈ (sortAscending Dependency.freshnessLcb (arrival config given ++ added)).take
        (max config.maxDependencies 1))

instance (config : ProvenanceConfig) (given added : List Dependency) :
    Decidable (WorstIsWeak config given added) := inferInstanceAs (Decidable (_ ∨ _))

variable {self : Provenance} {config : ProvenanceConfig} {given added all arrived : List Dependency}
  {dep : Dependency}

/-! ## What is kept of a set without proofs -/

theorem strongest_cons_cons (first candidate : Dependency × Nat) (rest : List (Dependency × Nat)) :
    strongest (first :: candidate :: rest) = strongest
      ((if candidate.1.freshnessLcb < first.1.freshnessLcb then first else candidate) :: rest) := rfl

/-- The strongest candidate is the last of the strongest. -/
theorem strongest_split {candidates : List (Dependency × Nat)} {found : Dependency × Nat}
    (isStrongest : strongest candidates = some found) :
    ∃ front back, candidates = front ++ found :: back ∧
      (∀ other ∈ front, other.1.freshnessLcb ≤ found.1.freshnessLcb) ∧
      ∀ other ∈ back, other.1.freshnessLcb < found.1.freshnessLcb := by
  cases candidates with
  | nil => cases isStrongest
  | cons first rest =>
      induction rest generalizing first with
      | nil =>
          obtain rfl := Option.some.inj isStrongest
          exact ⟨[], [], rfl, by simp, by simp⟩
      | cons candidate rest inductionHypothesis =>
          rw [strongest_cons_cons] at isStrongest
          split_ifs at isStrongest with less
          · obtain ⟨front, back, split, before, after⟩ := inductionHypothesis first isStrongest
            cases front with
            | nil =>
                obtain ⟨rfl, rfl⟩ := List.cons.inj split
                exact ⟨[], candidate :: rest, rfl, before, List.forall_mem_cons.mpr ⟨less, after⟩⟩
            | cons same front =>
                obtain ⟨rfl, rfl⟩ := List.cons.inj split
                obtain ⟨below, others⟩ := List.forall_mem_cons.mp before
                refine ⟨first :: candidate :: front, back, rfl, ?_, after⟩
                exact List.forall_mem_cons.mpr
                  ⟨below, List.forall_mem_cons.mpr ⟨less.le.trans below, others⟩⟩
          · obtain ⟨front, back, split, before, after⟩ := inductionHypothesis candidate isStrongest
            refine ⟨first :: front, back, congrArg (first :: ·) split,
              List.forall_mem_cons.mpr ⟨?_, before⟩, after⟩
            cases front with
            | nil =>
                obtain ⟨rfl, -⟩ := List.cons.inj split
                exact not_lt.mp less
            | cons same front =>
                obtain ⟨rfl, -⟩ := List.cons.inj split
                exact (not_lt.mp less).trans (before candidate List.mem_cons_self)

/-- A push to a full set without proofs throws out the last of the strongest. -/
theorem push_full (noProofs : ∀ other ∈ self.deps ++ [dep], other.role ≠ .dnssecProof)
    (exceeds : max self.config.maxDependencies 1 < (self.deps ++ [dep]).length) :
    ∃ front strong back, self.deps ++ [dep] = front ++ strong :: back ∧
      (∀ other ∈ front, other.freshnessLcb ≤ strong.freshnessLcb) ∧
      (∀ other ∈ back, other.freshnessLcb < strong.freshnessLcb) ∧
      (self.push dep).deps = front ++ back := by
  have candidates : (self.deps ++ [dep]).zipIdx.filter
      (fun candidate => decide (candidate.1.role ≠ .dnssecProof)) = (self.deps ++ [dep]).zipIdx := by
    refine List.filter_eq_self.mpr fun candidate listed => decide_eq_true ?_
    exact noProofs _ (List.mem_of_getElem? (List.mem_zipIdx_iff_getElem?.mp listed))
  obtain ⟨within | none, -⟩ | ⟨strong, index, -, isStrongest, pushed⟩ := push_cases self dep
  · exact absurd exceeds (not_lt.mpr within)
  · rw [candidates] at none
    cases deps : (self.deps ++ [dep]).zipIdx with
    | nil => simp at deps
    | cons first rest =>
        rw [deps] at none
        cases none
  · rw [candidates] at isStrongest
    obtain ⟨front, back, split, before, after⟩ := strongest_split isStrongest
    have deps := congrArg (List.map Prod.fst) split
    rw [List.zipIdx_map_fst, List.map_append, List.map_cons] at deps
    have position : (front.map Prod.fst).length = index := by
      have listed := congrArg (·[front.length]?) split
      rw [List.getElem?_zipIdx, List.getElem?_append_right le_rfl, Nat.sub_self] at listed
      obtain ⟨other, -, same⟩ := Option.map_eq_some_iff.mp listed
      rw [List.length_map, ← Nat.zero_add front.length]
      exact congrArg Prod.snd same
    refine ⟨front.map Prod.fst, strong, back.map Prod.fst, deps, ?_, ?_, ?_⟩
    · exact List.forall_mem_map.mpr before
    · exact List.forall_mem_map.mpr after
    · rw [pushed]
      dsimp only
      rw [deps, ← position, List.eraseIdx_append_of_length_le le_rfl, Nat.sub_self]
      rfl

/-- A push keeps the weakest of a set without proofs. -/
theorem holdsLeast_push
    (least : HoldsLeast Dependency.freshnessLcb (max self.config.maxDependencies 1) self.deps arrived)
    (noProofs : ∀ other ∈ self.deps ++ [dep], other.role ≠ .dnssecProof) :
    HoldsLeast Dependency.freshnessLcb (max self.config.maxDependencies 1) (self.push dep).deps
      (arrived ++ [dep]) := by
  by_cases exceeds : max self.config.maxDependencies 1 < (self.deps ++ [dep]).length
  · obtain ⟨front, strong, back, split, before, after, kept⟩ := push_full noProofs exceeds
    rw [kept]
    refine least.replace split before after ?_
    have within := least.length_le
    have lengths := congrArg List.length split
    simp only [List.length_append, List.length_cons, List.length_nil] at exceeds lengths ⊢
    omega
  · obtain ⟨-, pushed⟩ | ⟨strong, index, tooMany, -⟩ := push_cases self dep
    · rw [pushed]
      exact least.append (not_lt.mp exceeds)
    · exact absurd tooMany exceeds

/-- Without proofs the trimming loop keeps the first that there is room for. -/
theorem foldl_take_kept {deps : List Dependency} {room : Nat} (start : Trimming)
    (noProofs : ∀ dep ∈ deps, dep.role ≠ .dnssecProof) :
    (deps.foldl (Trimming.take room) start).kept =
      start.kept ++ deps.take (room - start.othersKept) := by
  induction deps generalizing start with
  | nil => rw [List.foldl_nil, List.take_nil, List.append_nil]
  | cons dep deps inductionHypothesis =>
      obtain ⟨noProof, rest⟩ := List.forall_mem_cons.mp noProofs
      rw [List.foldl_cons, inductionHypothesis _ rest, Trimming.take, if_neg noProof]
      split_ifs with within
      · obtain ⟨left, isLeft⟩ : ∃ left, room - start.othersKept = left + 1 :=
          Nat.exists_eq_add_one.mpr (Nat.sub_pos_of_lt within)
        have next : room - (start.othersKept + 1) = left := by omega
        dsimp only
        rw [next, isLeft, List.take_succ_cons, List.append_assoc]
        rfl
      · have none : room - start.othersKept = 0 := Nat.sub_eq_zero_of_le (not_lt.mp within)
        dsimp only
        rw [none, List.take_zero, List.take_zero]

@[simp] theorem config_fromDependencies : (fromDependencies config given).config = config := by
  unfold fromDependencies
  dsimp only
  split_ifs <;> rfl

/-- What is in order is ascending in freshness. -/
theorem InOrder.freshness_le {deps : List Dependency} (ordered : InOrder deps) :
    deps.Pairwise fun left right => left.freshnessLcb ≤ right.freshnessLcb := by
  refine ordered.imp fun {left right} below => ?_
  have first : (compare left.freshnessLcb right.freshnessLcb).isLE = true :=
    Ordering.isLE_left_of_isLE_then below
  exact compare_le_iff_le.mp (Ordering.isLE_iff_ne_gt.mp first)

/-- Trimming keeps the weakest of a list without proofs. -/
theorem holdsLeast_fromDependencies (noProofs : ∀ dep ∈ given, dep.role ≠ .dnssecProof) :
    HoldsLeast Dependency.freshnessLcb (max config.maxDependencies 1)
      (fromDependencies config given).deps (arrival config given) := by
  unfold fromDependencies arrival
  dsimp only
  split_ifs with exceeds
  · generalize isSorted : given.insertionSort (fun left right => (left.order right).isLE) = ordered
    have perm : ordered.Perm given := isSorted ▸ List.perm_insertionSort _ _
    have without : ∀ dep ∈ ordered, dep.role ≠ .dnssecProof :=
      fun dep listed => noProofs dep (perm.mem_iff.mp listed)
    have none : ordered.countP (fun dep => decide (dep.role = .dnssecProof)) = 0 :=
      List.countP_eq_zero.mpr fun dep listed => mt of_decide_eq_true (without dep listed)
    dsimp only
    rw [none, foldl_take_kept _ without]
    exact HoldsLeast.take (isSorted ▸ inOrder_insertionSort given).freshness_le
  · exact HoldsLeast.refl (not_lt.mp exceeds)

@[simp] theorem config_push (self : Provenance) (dep : Dependency) :
    (self.push dep).config = self.config := by
  obtain ⟨-, pushed⟩ | ⟨strong, index, -, -, pushed⟩ := push_cases self dep
  · rw [pushed]
  · rw [pushed]

theorem mem_of_mem_push {other : Dependency} (held : other ∈ (self.push dep).deps) :
    other ∈ self.deps ++ [dep] := by
  obtain ⟨-, pushed⟩ | ⟨strong, index, -, -, pushed⟩ := push_cases self dep
  · rw [pushed] at held
    exact held
  · rw [pushed] at held
    exact List.mem_of_mem_eraseIdx held

/-- Pushes keep the weakest of a set without proofs. -/
theorem holdsLeast_pushes
    (least : HoldsLeast Dependency.freshnessLcb (max self.config.maxDependencies 1) self.deps arrived)
    (noProofs : ∀ other ∈ self.deps ++ added, other.role ≠ .dnssecProof) :
    HoldsLeast Dependency.freshnessLcb (max self.config.maxDependencies 1)
      (added.foldl push self).deps (arrived ++ added) := by
  induction added generalizing self arrived with
  | nil => rwa [List.append_nil]
  | cons dep added inductionHypothesis =>
      rw [List.append_cons] at noProofs ⊢
      have next := holdsLeast_push least fun other listed =>
        noProofs other (List.mem_append_left added listed)
      rw [← config_push self dep] at next ⊢
      refine inductionHypothesis next fun other listed => noProofs other ?_
      obtain held | later := List.mem_append.mp listed
      · exact List.mem_append_left added (mem_of_mem_push held)
      · exact List.mem_append_right _ later

/-! ## The worst of what is kept -/

theorem worstConsequence_eq_some {worst : Consequence} :
    self.worstConsequence = some worst ↔
      ∃ dep ∈ self.deps, dep.role.consequence = worst ∧ OfWorstClass self.deps dep := by
  unfold worstConsequence OfWorstClass
  rw [List.max?_eq_some_iff, List.mem_map, List.forall_mem_map]
  constructor
  · rintro ⟨⟨dep, held, rfl⟩, greatest⟩
    exact ⟨dep, held, rfl, greatest⟩
  · rintro ⟨dep, held, rfl, greatest⟩
    exact ⟨⟨dep, held, rfl⟩, greatest⟩

theorem worstConsequence_eq_none : self.worstConsequence = none ↔ self.deps = [] := by
  unfold worstConsequence
  rw [List.max?_eq_none_iff, List.map_eq_nil_iff]

/-- Part of a set has the worst consequence of all exactly when it has a dependency of that class. -/
theorem worstConsequence_eq_iff (part : ∀ dep ∈ self.deps, dep ∈ all) :
    self.worstConsequence = (untrimmed config all).worstConsequence ↔
      all = [] ∨ ∃ dep ∈ self.deps, OfWorstClass all dep := by
  constructor
  · intro same
    cases whole : (untrimmed config all).worstConsequence with
    | none => exact .inl (worstConsequence_eq_none.mp whole)
    | some worst =>
        rw [whole] at same
        obtain ⟨dep, held, ofClass, -⟩ := worstConsequence_eq_some.mp same
        obtain ⟨other, -, rfl, greatest⟩ := worstConsequence_eq_some.mp whole
        exact .inr ⟨dep, held, fun third added => ofClass ▸ greatest third added⟩
  · rintro (empty | ⟨dep, held, greatest⟩)
    · have none : self.deps = [] :=
        List.eq_nil_iff_forall_not_mem.mpr fun dep held => by
          have added := part dep held
          rw [empty] at added
          cases added
      rw [worstConsequence_eq_none.mpr none, worstConsequence_eq_none.mpr empty]
    · have kept := worstConsequence_eq_some.mpr
        ⟨dep, held, rfl, fun other listed => greatest other (part other listed)⟩
      have whole : (untrimmed config all).worstConsequence = some dep.role.consequence :=
        worstConsequence_eq_some.mpr ⟨dep, part dep held, rfl, greatest⟩
      rw [kept, whole]

theorem le_absolute (consequence : Consequence) : consequence ≤ .absolute := by
  cases consequence <;> decide

/-- **The consequence survives trimming exactly when it sits on a proof or on a weak dependency.**
The trimmed set has the worst consequence of everything ever added if and only if a dependency of
that class is a proof, or among the weakest that the cap leaves room for. -/
theorem consequence_survives_iff (config : ProvenanceConfig) (given added : List Dependency) :
    (added.foldl push (fromDependencies config given)).worstConsequence =
        (untrimmed config (given ++ added)).worstConsequence ↔
      WorstIsWeak config given added := by
  obtain ⟨dropped, perm, staleEligible, -, -⟩ :=
    (summarizes_fromDependencies config given).pushes added
  generalize isTrimmed : added.foldl push (fromDependencies config given) = trimmed at perm ⊢
  have part : ∀ dep ∈ trimmed.deps, dep ∈ given ++ added :=
    fun dep held => perm.mem_iff.mp (List.mem_append_left dropped held)
  rw [worstConsequence_eq_iff part]
  refine or_congr_right ?_
  by_cases proof : ∃ dep ∈ given ++ added, dep.role = .dnssecProof
  · -- A proof is never dropped, and nothing is worse.
    obtain ⟨dep, listed, isProof⟩ := proof
    have worst : OfWorstClass (given ++ added) dep := fun other _ => by
      rw [isProof]
      exact le_absolute _
    obtain held | forgotten := List.mem_append.mp (perm.mem_iff.mpr listed)
    · exact ⟨fun _ => ⟨dep, listed, worst, .inl isProof⟩, fun _ => ⟨dep, held, worst⟩⟩
    · exact absurd isProof (permitsStale_iff.mp (staleEligible dep forgotten))
  · push Not at proof
    have least : HoldsLeast Dependency.freshnessLcb (max config.maxDependencies 1) trimmed.deps
        (arrival config given ++ added) := by
      have built : HoldsLeast Dependency.freshnessLcb (max config.maxDependencies 1)
          (fromDependencies config given).deps (arrival config given) :=
        holdsLeast_fromDependencies fun dep listed => proof dep (List.mem_append_left added listed)
      have sameConfig : (fromDependencies config given).config = config := config_fromDependencies
      nth_rewrite 1 [← sameConfig] at built
      have noProofs : ∀ dep ∈ (fromDependencies config given).deps ++ added,
          dep.role ≠ .dnssecProof := by
        intro dep listed
        obtain ⟨forgotten, together, -⟩ := summarizes_fromDependencies config given
        obtain held | later := List.mem_append.mp listed
        · exact proof dep (List.mem_append_left added
            (together.mem_iff.mp (List.mem_append_left forgotten held)))
        · exact proof dep (List.mem_append_right given later)
      have pushed := holdsLeast_pushes built noProofs
      rwa [sameConfig, isTrimmed] at pushed
    constructor
    · rintro ⟨dep, held, worst⟩
      exact ⟨dep, part dep held, worst, .inr (least.mem_iff.mp held)⟩
    · rintro ⟨dep, listed, worst, isProof | weak⟩
      · exact absurd isProof (proof dep listed)
      · exact ⟨dep, least.mem_iff.mpr weak, worst⟩

/-- A doubtful answer crowds out the delegation it rests on. -/
theorem consequence_lost :
    let answer : Dependency := ⟨.answer, .plain ⟨[0]⟩ .A .IN, 0, 1 / 10⟩
    let delegation : Dependency := ⟨.delegation, .plain ⟨[0]⟩ .NS .IN, 0, 9 / 10⟩
    (fromDependencies ⟨1⟩ [answer, delegation]).worstConsequence = some .low ∧
      (untrimmed ⟨1⟩ [answer, delegation]).worstConsequence = some .critical := by
  decide +kernel

end Provenance

end RecurseX
