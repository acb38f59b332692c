import RecurseX.Provenance

/-!
# What a refresh is worth

The bound of an answer is that of its weakest dependency, so refreshing one of them
raises it only as far as the next weakest allows. The plan refreshes the weakest first.
-/

namespace RecurseX

namespace Provenance

/-- The freshness of every dependency but one. -/
def freshnessBut (self : Provenance) (index : Nat) : List ℚ :=
  (self.deps.zipIdx.filter fun dep => dep.2 ≠ index).map fun dep => dep.1.freshnessLcb

/-- The weakest of the others, including the residual floor. -/
def weakestBut (self : Provenance) (index : Nat) : ℚ :=
  match (self.freshnessBut index).min? with
  | none => self.residual
  | some weakest => min weakest self.residual

/-- The increase in the bound obtainable by refreshing the dependency at `index` and
nothing else. -/
def riskReductionAt (self : Provenance) (index : Nat) : ℚ :=
  match self.deps[index]? with
  | none => 0
  | some _ => max (min (self.weakestBut index) 1 - self.bound) 0

/-- The dependencies to refresh, weakest first, at most `limit` of them. -/
def refreshPlan (self : Provenance) (limit : Nat) : List CacheKey :=
  let ordered := self.deps.insertionSort fun left right => (left.order right).isLE
  (ordered.take (max limit 1)).map Dependency.key

/-- The set once the dependency at `index` is as fresh as can be. -/
def refreshedAt (self : Provenance) (index : Nat) : Provenance :=
  { self with deps := self.deps.modify index fun dep => { dep with freshnessLcb := 1 } }

/-- The dependency at `index` alone holds the bound down. -/
def SoleMinimum (self : Provenance) (index : Nat) : Prop :=
  ∃ dep, self.deps[index]? = some dep ∧ dep.freshnessLcb < 1 ∧ dep.freshnessLcb < self.residual ∧
    ∀ other held, other ≠ index → self.deps[other]? = some held →
      dep.freshnessLcb < held.freshnessLcb

/-- All freshness is between never and surely. -/
structure WithinUnit (provenance : Provenance) : Prop where
  deps : ∀ dep ∈ provenance.deps, 0 ≤ dep.freshnessLcb ∧ dep.freshnessLcb ≤ 1
  residual : 0 ≤ provenance.residual ∧ provenance.residual ≤ 1

variable {self : Provenance} {index : Nat} {dep : Dependency} {least : ℚ}

/-- Below the least of a list and a floor. -/
theorem le_foldl_min_iff {floor : ℚ} {values : List ℚ} :
    least ≤ values.foldl min floor ↔ least ≤ floor ∧ ∀ value ∈ values, least ≤ value := by
  induction values generalizing floor with
  | nil => simp
  | cons value values inductionHypothesis =>
      rw [List.foldl_cons, inductionHypothesis, le_min_iff, List.forall_mem_cons, and_assoc]

theorem lt_of_foldl_min {floor : ℚ} {values : List ℚ} (below : least < floor)
    (others : ∀ value ∈ values, least < value) : least < values.foldl min floor := by
  induction values generalizing floor with
  | nil => exact below
  | cons value values inductionHypothesis =>
      obtain ⟨first, rest⟩ := List.forall_mem_cons.mp others
      exact inductionHypothesis (lt_min below first) rest

theorem le_bound_iff : least ≤ self.bound ↔ least ≤ self.residual ∧
    ∀ (other : Nat) (held : Dependency), self.deps[other]? = some held →
      least ≤ held.freshnessLcb := by
  rw [bound_eq, le_foldl_min_iff, List.forall_mem_map]
  refine and_congr_right fun _ => ⟨?_, ?_⟩
  · intro below other held found
    exact below held (List.mem_of_getElem? found)
  · intro below held listed
    obtain ⟨other, found⟩ := List.mem_iff_getElem?.mp listed
    exact below other held found

theorem mem_freshnessBut {value : ℚ} : value ∈ self.freshnessBut index ↔
    ∃ other held, other ≠ index ∧ self.deps[other]? = some held ∧ held.freshnessLcb = value := by
  unfold freshnessBut
  simp only [List.mem_map, List.mem_filter, Prod.exists, List.mem_zipIdx_iff_getElem?,
    decide_eq_true_eq]
  constructor
  · rintro ⟨held, other, ⟨found, different⟩, rfl⟩
    exact ⟨other, held, different, found, rfl⟩
  · rintro ⟨other, held, different, found, rfl⟩
    exact ⟨held, other, ⟨found, different⟩, rfl⟩

theorem weakestBut_eq (self : Provenance) (index : Nat) :
    self.weakestBut index = (self.freshnessBut index).foldl min self.residual := by
  unfold weakestBut
  cases self.freshnessBut index with
  | nil => rfl
  | cons value values => rw [List.min?_cons', List.foldl_cons, List.foldl_assoc, min_comm]

theorem le_weakestBut_iff : least ≤ self.weakestBut index ↔ least ≤ self.residual ∧
    ∀ (other : Nat) (held : Dependency), other ≠ index → self.deps[other]? = some held →
      least ≤ held.freshnessLcb := by
  rw [weakestBut_eq, le_foldl_min_iff]
  refine and_congr_right fun _ => ⟨?_, ?_⟩
  · intro below other held different found
    exact below _ (mem_freshnessBut.mpr ⟨other, held, different, found, rfl⟩)
  · intro below value listed
    obtain ⟨other, held, different, found, rfl⟩ := mem_freshnessBut.mp listed
    exact below other held different found

theorem lt_weakestBut (floor : least < self.residual)
    (others : ∀ (other : Nat) (held : Dependency), other ≠ index → self.deps[other]? = some held →
      least < held.freshnessLcb) : least < self.weakestBut index := by
  rw [weakestBut_eq]
  refine lt_of_foldl_min floor fun value listed => ?_
  obtain ⟨other, held, different, found, rfl⟩ := mem_freshnessBut.mp listed
  exact others other held different found

/-- The weakest link is the dependency or one of the others. -/
theorem bound_split (found : self.deps[index]? = some dep) :
    self.bound = min dep.freshnessLcb (self.weakestBut index) := by
  refine eq_of_forall_le_iff fun least => ?_
  rw [le_bound_iff, le_min_iff, le_weakestBut_iff]
  constructor
  · rintro ⟨floor, below⟩
    exact ⟨below index dep found, floor, fun other held _ => below other held⟩
  · rintro ⟨own, floor, others⟩
    refine ⟨floor, fun other held stored => ?_⟩
    by_cases same : other = index
    · rw [same, found] at stored
      obtain rfl := Option.some.inj stored
      exact own
    · exact others other held same stored

/-- Once it is as fresh as can be, the dependency does not hold the bound below one. -/
theorem bound_refreshedAt (found : self.deps[index]? = some dep) :
    (self.refreshedAt index).bound = min (self.weakestBut index) 1 := by
  have fresh : (self.refreshedAt index).deps[index]? = some { dep with freshnessLcb := 1 } := by
    unfold refreshedAt
    rw [List.getElem?_modify_eq, found]
    rfl
  have others : (self.refreshedAt index).weakestBut index = self.weakestBut index := by
    refine eq_of_forall_le_iff fun least => ?_
    rw [le_weakestBut_iff, le_weakestBut_iff]
    refine and_congr_right fun _ => forall₂_congr fun other held => forall_congr' fun different => ?_
    have kept : (self.refreshedAt index).deps[other]? = self.deps[other]? :=
      List.getElem?_modify_ne _ _ (Ne.symm different)
    rw [kept]
  rw [bound_split fresh, others, min_comm]

/-- Refreshing what is not there changes nothing. -/
theorem refreshedAt_of_none (missing : self.deps[index]? = none) : self.refreshedAt index = self := by
  unfold refreshedAt
  rw [List.modify_eq_self (List.getElem?_eq_none_iff.mp missing)]

theorem riskReductionAt_eq (unit : self.WithinUnit) (index : Nat) :
    self.riskReductionAt index = (self.refreshedAt index).bound - self.bound := by
  unfold riskReductionAt
  cases found : self.deps[index]? with
  | none => rw [refreshedAt_of_none found, sub_self]
  | some dep =>
      dsimp only
      have surely := (unit.deps dep (List.mem_of_getElem? found)).2
      rw [bound_refreshedAt found, bound_split found]
      refine max_eq_left (sub_nonneg.mpr (le_min (min_le_right _ _) ?_))
      exact (min_le_left _ _).trans surely

theorem riskReductionAt_nonneg (self : Provenance) (index : Nat) :
    0 ≤ self.riskReductionAt index := by
  unfold riskReductionAt
  cases self.deps[index]? with
  | none => exact le_rfl
  | some dep => exact le_max_right _ _

/-- There is something to gain exactly where a dependency alone holds the bound down. -/
theorem riskReductionAt_pos_iff (unit : self.WithinUnit) (index : Nat) :
    0 < self.riskReductionAt index ↔ self.SoleMinimum index := by
  rw [riskReductionAt_eq unit, sub_pos]
  constructor
  · intro gains
    cases found : self.deps[index]? with
    | none =>
        rw [refreshedAt_of_none found] at gains
        exact absurd gains (lt_irrefl _)
    | some dep =>
        rw [bound_refreshedAt found, bound_split found] at gains
        have lower : dep.freshnessLcb < self.weakestBut index := by
          refine lt_of_not_ge fun above => ?_
          rw [min_eq_right above] at gains
          exact absurd (gains.trans_le (min_le_left _ _)) (lt_irrefl _)
        rw [min_eq_left lower.le, lt_min_iff] at gains
        refine ⟨dep, found, gains.2, ?_, fun other held different stored => ?_⟩
        · exact lower.trans_le (le_weakestBut_iff.mp le_rfl).1
        · exact lower.trans_le ((le_weakestBut_iff.mp le_rfl).2 other held different stored)
  · rintro ⟨dep, found, doubtful, floor, others⟩
    have lower : dep.freshnessLcb < self.weakestBut index :=
      lt_weakestBut floor others
    rw [bound_refreshedAt found, bound_split found, min_eq_left lower.le]
    exact lt_min lower doubtful

/-! ## The plan -/

/-- The roles are ordered as they are listed. -/
instance : Std.TransOrd DependencyRole where
  eq_swap := by rintro ⟨⟩ ⟨⟩ <;> rfl
  isLE_trans := by rintro ⟨⟩ ⟨⟩ ⟨⟩ <;> decide

instance : Std.LawfulEqOrd DependencyRole where
  eq_of_compare := by rintro ⟨⟩ ⟨⟩ <;> decide

instance : Std.TransCmp Dependency.order :=
  inferInstanceAs (Std.TransCmp (compareLex _ _))

/-- Ascending in freshness, then role, then key. -/
def InOrder (deps : List Dependency) : Prop :=
  deps.Pairwise fun left right => (left.order right).isLE = true

/-- The order sees all of a dependency but its hop. -/
def withoutHop (dep : Dependency) : Dependency := { dep with hop := 0 }

theorem withoutHop_eq {left right : Dependency} (below : (left.order right).isLE = true)
    (above : (right.order left).isLE = true) : withoutHop left = withoutHop right := by
  have level : left.order right = .eq := Std.OrientedCmp.isLE_antisymm below above
  unfold Dependency.order at level
  rw [compareLex_eq_eq, compareLex_eq_eq] at level
  obtain ⟨freshness, role, key⟩ := level
  have sameFreshness : left.freshnessLcb = right.freshnessLcb :=
    Std.LawfulEqOrd.eq_of_compare freshness
  have sameRole : left.role = right.role := Std.LawfulEqOrd.eq_of_compare role
  have sameKey : left.key = right.key := Std.LawfulEqOrd.eq_of_compare key
  unfold withoutHop
  rw [sameFreshness, sameRole, sameKey]

theorem InOrder.map_withoutHop {deps : List Dependency} (ordered : InOrder deps) :
    InOrder (deps.map withoutHop) :=
  ordered.map withoutHop fun _ _ below => below

/-- Any way of ordering the dependencies lists the same keys. -/
theorem InOrder.keys_eq {left right : List Dependency} (leftOrdered : InOrder left)
    (rightOrdered : InOrder right) (perm : left.Perm right) :
    left.map Dependency.key = right.map Dependency.key := by
  have same : left.map withoutHop = right.map withoutHop := by
    refine List.Perm.eq_of_pairwise ?_ leftOrdered.map_withoutHop rightOrdered.map_withoutHop
      (perm.map withoutHop)
    intro first second firstListed secondListed below above
    obtain ⟨first, -, rfl⟩ := List.mem_map.mp firstListed
    obtain ⟨second, -, rfl⟩ := List.mem_map.mp secondListed
    exact withoutHop_eq below above
  have keys := congrArg (List.map Dependency.key) same
  rw [List.map_map, List.map_map] at keys
  exact keys

/-- The order compares any two, so that sorting by it puts them in order. -/
theorem inOrder_insertionSort (deps : List Dependency) :
    InOrder (deps.insertionSort fun left right => (left.order right).isLE) := by
  have total : Std.Total fun left right : Dependency => (left.order right).isLE = true := by
    refine ⟨fun left right => ?_⟩
    have swapped : right.order left = (left.order right).swap := Std.OrientedCmp.eq_swap
    rw [swapped]
    cases left.order right <;> decide
  have trans : IsTrans Dependency fun left right => (left.order right).isLE = true :=
    ⟨fun _ _ _ => Std.TransCmp.isLE_trans⟩
  exact List.pairwise_insertionSort _ deps

/-- **A refresh is worth what it raises the bound by.** With all freshness between zero and one,
the gain at a dependency is the bound with that dependency as fresh as can be less the bound as it
is, so it is zero wherever a dependency does not alone hold the bound down; and the plan lists the
first keys in ascending freshness, ties by role and then by key. -/
theorem risk_attribution (self : Provenance) (unit : self.WithinUnit) :
    (∀ index, self.riskReductionAt index = (self.refreshedAt index).bound - self.bound) ∧
    (∀ index, ¬self.SoleMinimum index → self.riskReductionAt index = 0) ∧
    ∀ limit, (∃ ordered, ordered.Perm self.deps ∧ InOrder ordered) ∧
      ∀ ordered : List Dependency, ordered.Perm self.deps → InOrder ordered →
        self.refreshPlan limit = (ordered.map Dependency.key).take (max 1 limit) := by
  refine ⟨riskReductionAt_eq unit, fun index shared => ?_, fun limit => ⟨?_, ?_⟩⟩
  · have gainless : ¬0 < self.riskReductionAt index :=
      fun gains => shared ((riskReductionAt_pos_iff unit index).mp gains)
    exact le_antisymm (not_lt.mp gainless) (riskReductionAt_nonneg self index)
  · exact ⟨_, List.perm_insertionSort _ _, inOrder_insertionSort self.deps⟩
  · intro ordered perm inOrder
    have sorted := (List.perm_insertionSort (fun left right : Dependency =>
      (left.order right).isLE = true) self.deps).trans perm.symm
    unfold refreshPlan
    rw [List.map_take, max_comm, (inOrder_insertionSort self.deps).keys_eq inOrder sorted]

/-- A doubtful alias to a fresher answer. -/
def aliasedAnswer : Provenance where
  config := ⟨16⟩
  deps := [⟨.answer, .plain ⟨[0]⟩ .A .IN, 1, 3 / 4⟩, ⟨.cname, .plain ⟨[0]⟩ .CNAME .IN, 0, 1 / 2⟩]
  residual := 1

theorem risk_attribution_aliased :
    aliasedAnswer.riskReductionAt 0 = 0 ∧
      aliasedAnswer.riskReductionAt 1 =
        (aliasedAnswer.refreshedAt 1).bound - aliasedAnswer.bound := by
  have unit : aliasedAnswer.WithinUnit := by
    constructor <;> decide +kernel
  have shared : ¬aliasedAnswer.SoleMinimum 0 := by
    rintro ⟨dep, found, -, -, others⟩
    obtain rfl := Option.some.inj found
    exact absurd (others 1 _ (by decide) rfl) (by decide +kernel)
  obtain ⟨gain, gainless, -⟩ := risk_attribution aliasedAnswer unit
  exact ⟨gainless 0 shared, gain 1⟩

end Provenance

end RecurseX
