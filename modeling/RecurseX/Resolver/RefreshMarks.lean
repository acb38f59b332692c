import RecurseX.Cache.Existence
import RecurseX.Cache.Marks
import RecurseX.Library.Runs
import RecurseX.Resolver.FromCache
import RecurseX.Resolver.Iterative

/-!
# The life of a refresh mark

A background refresh marks the entry it is for, so that nobody queues a second
one. The mark goes when something is filed under the key, or when the refresh
reports that it failed. `Resolution.Files` says which answers are filed under
the key that was refreshed; for any other answer, and for a worker that never
starts, the mark stays.
-/

namespace RecurseX

open Library Std

variable {Score Stability Inputs : Type}

/-! ## What a resolution files -/

/-- Where a group of answers is filed. -/
def groupKey (key : QueryKey) (res : Resolution) (group : (Name × RrType) × List Sourced) :
    CacheKey :=
  ⟨group.1.1, group.1.2, key.rrClass, answerPartition key.ecs res.ecsScope⟩

/-- The group is filed at all: signatures go with what they sign, and a set that
cannot be built is skipped. -/
def GroupFiled (engine : EngineConfig) (group : (Name × RrType) × List Sourced) : Prop :=
  group.1.2 ≠ .RRSIG ∧
    ∃ set, RrSet.fromRecords (group.2.map Sourced.record) engine.maxTtlCap = .ok set

/-- Where the negative outcome of a resolution is filed, if it is an entry. -/
def outcomeKey (key : QueryKey) (res : Resolution) : Option CacheKey :=
  let partition := answerPartition key.ecs res.ecsScope
  if res.rcode.isNxdomain then
    partition.map fun ecs => ⟨res.name, res.rrType, res.rrClass, some ecs⟩
  else if res.answers.isEmpty then some ⟨res.name, res.rrType, res.rrClass, partition⟩
  else none

/-- Something was filed under exactly these keys, which are left without a mark. -/
structure FiledUnder (scoring : Scoring Score Stability Inputs) (Keys : CacheKey → Prop)
    (cache after : SemanticCache Score Stability) : Prop where
  consistent : after.Consistent scoring
  refiles : SemanticCache.Refiles Keys cache after
  unmarks : ∀ key, Keys key → ¬ after.Marked key

namespace FiledUnder

variable {scoring : Scoring Score Stability Inputs} {Keys Others : CacheKey → Prop} {cache middle after : SemanticCache Score Stability}

theorem none (consistent : cache.Consistent scoring) (nothing : ∀ key, ¬ Keys key) :
    FiledUnder scoring Keys cache cache :=
  ⟨consistent, .refl cache, fun key member => absurd member (nothing key)⟩

/-- What is filed first stays unmarked. -/
theorem trans (first : FiledUnder scoring Keys cache middle)
    (second : FiledUnder scoring Others middle after) :
    FiledUnder scoring (fun key => Keys key ∨ Others key) cache after where
  consistent := second.consistent
  refiles := (first.refiles.mono fun _ => .inl).trans (second.refiles.mono fun _ => .inr)
  unmarks := by
    rintro key (earlier | later) marked
    · exact first.unmarks key earlier (second.refiles.marked marked)
    · exact second.unmarks key later marked

theorem congr (filed : FiledUnder scoring Keys cache after) (same : ∀ key, Others key ↔ Keys key) :
    FiledUnder scoring Others cache after :=
  ⟨filed.consistent, filed.refiles.mono fun key => (same key).mpr,
    fun key member => filed.unmarks key ((same key).mp member)⟩

end FiledUnder

section Filing

variable [LinearOrder Score] {scoring : Scoring Score Stability Inputs} {engine : EngineConfig}
  {key : QueryKey} {res : Resolution} {inputs : Inputs} {now : Ts}
  {state : WalkState Score Stability}

theorem cacheGroup_filed (consistent : state.cache.Consistent scoring)
    (group : (Name × RrType) × List Sourced) :
    FiledUnder scoring (fun other => GroupFiled engine group ∧ other = groupKey key res group)
      state.cache (cacheGroup scoring engine key res inputs now state group).cache := by
  unfold cacheGroup
  split_ifs with signatures
  · exact .none consistent fun _ filed => filed.1.1 signatures
  · cases built : RrSet.fromRecords (group.2.map Sourced.record) engine.maxTtlCap with
    | error error =>
        refine .none consistent ?_
        rintro _ ⟨⟨_, set, other⟩, _⟩
        rw [built] at other
        cases other
    | ok set =>
        obtain ⟨refiles, unmarked⟩ := SemanticCache.insertPositive_refiles consistent
          (groupKey key res group) _ now inputs res.validated
        have filed : GroupFiled engine group := ⟨signatures, set, built⟩
        refine ⟨(SemanticCache.consistent_kept scoring).insertPositive _ _ _ _ _ consistent,
          refiles.mono fun other own => ⟨filed, own⟩, ?_⟩
        rintro other ⟨_, rfl⟩
        exact unmarked

theorem foldl_cacheGroup_filed (consistent : state.cache.Consistent scoring)
    (groups : List ((Name × RrType) × List Sourced)) :
    FiledUnder scoring (fun other => ∃ group ∈ groups, GroupFiled engine group ∧
        other = groupKey key res group) state.cache
      (groups.foldl (cacheGroup scoring engine key res inputs now) state).cache := by
  induction groups generalizing state with
  | nil => exact .none consistent (by simp)
  | cons group groups inductionHypothesis =>
      have first := @cacheGroup_filed _ _ _ _ _ engine key res inputs now _ consistent group
      refine (first.trans (inductionHypothesis first.consistent)).congr fun other => ?_
      simp

theorem cacheOutcome_filed (consistent : state.cache.Consistent scoring) :
    FiledUnder scoring (fun other => outcomeKey key res = some other) state.cache
      (cacheOutcome scoring key res inputs now state).cache := by
  have negative (target : CacheKey) (soaTtl : UInt32) :
      FiledUnder scoring (fun other => some target = some other) state.cache
        (state.cache.insertNegative scoring target res.rcode (res.soa.map Sourced.record) soaTtl
          now inputs) := by
    obtain ⟨refiles, unmarked⟩ := SemanticCache.insertNegative_refiles consistent target
      res.rcode (res.soa.map Sourced.record) soaTtl now inputs
    refine ⟨(SemanticCache.consistent_kept scoring).insertNegative _ _ _ _ _ _ consistent,
      refiles.mono fun other own => own ▸ rfl, ?_⟩
    rintro other ⟨⟩
    exact unmarked
  unfold cacheOutcome outcomeKey
  dsimp only
  split_ifs
  · cases answerPartition key.ecs res.ecsScope with
    | none =>
        refine ⟨(SemanticCache.consistent_kept scoring).insertNxdomain _ _ _ _ _ consistent,
          SemanticCache.insertNxdomain_refiles _ _ _ _ _ _, ?_⟩
        rintro other ⟨⟩
    | some ecs => exact negative _ _
  · exact negative _ _
  · exact .none consistent (by simp)

theorem cacheResolution_filed (consistent : state.cache.Consistent scoring) :
    FiledUnder scoring
      (fun other => (∃ group ∈ (groupAnswers res.answers).toList, GroupFiled engine group ∧
        other = groupKey key res group) ∨ outcomeKey key res = some other) state.cache
      (cacheResolution scoring engine key res inputs now state).cache := by
  have groups := @foldl_cacheGroup_filed _ _ _ _ _ engine key res inputs now _ consistent
    (groupAnswers res.answers).toList
  exact groups.trans (cacheOutcome_filed groups.consistent)

end Filing

/-- The records of a name and type in the answer section. -/
def Resolution.own (res : Resolution) (name : Name) (rrType : RrType) : List Sourced :=
  res.answers.filter fun answer => (answer.record.name, answer.record.rrType) = (name, rrType)

/-- The resolution of `key` is filed under `key` itself: its partition is the
partition of the key, and it has records of the name and type that form a set,
or is a negative answer that is kept as an entry. -/
def Resolution.Files (res : Resolution) (key : CacheKey) : Prop :=
  answerPartition key.ecs res.ecsScope = key.ecs ∧
    ((key.rrType ≠ .RRSIG ∧ res.own key.name key.rrType ≠ [] ∧
        ((key.rrType = .CNAME ∨ key.rrType = .DNAME) →
          (res.own key.name key.rrType).length ≤ 1)) ∨
      (res.name = key.name ∧ res.rrType = key.rrType ∧ res.rrClass = key.rrClass ∧
        (if res.rcode.isNxdomain then key.ecs ≠ none else res.answers = [])))

/-- Records of one type other than RRSIG form a set unless they are several
aliases. -/
theorem RrSet.fromRecords_ok_iff {records : List Record} {rrType : RrType} {maxTtlCap : UInt32}
    (nonempty : records ≠ []) (typed : ∀ record ∈ records, record.rrType = rrType)
    (data : rrType ≠ .RRSIG) :
    (∃ set, RrSet.fromRecords records maxTtlCap = .ok set) ↔
      ((rrType = .CNAME ∨ rrType = .DNAME) → records.length ≤ 1) := by
  have kept : (records.filter fun record => record.rrType != .RRSIG) = records :=
    List.filter_eq_self.mpr fun record member => by simpa [typed record member] using data
  cases records with
  | nil => exact absurd rfl nonempty
  | cons first rest =>
      have firstType := typed first List.mem_cons_self
      simp only [RrSet.fromRecords, kept, firstType]
      by_cases several : (rrType = .CNAME ∨ rrType = .DNAME) ∧ (first :: rest).length > 1
      · constructor
        · rintro ⟨set, built⟩
          rw [bind_eq_ok] at built
          obtain ⟨_, single, _⟩ := built
          rw [failIf_eq_ok] at single
          exact absurd several single
        · intro single
          exact absurd (single several.1) (Nat.not_le.mpr several.2)
      · rw [failIf_of_not several]
        exact ⟨fun _ aliased => Nat.le_of_not_lt fun more => several ⟨aliased, more⟩,
          fun _ => ⟨_, rfl⟩⟩

/-- The query of a background refresh. -/
def refreshQuery (engine : EngineConfig) (key : CacheKey) (named : key.name.Canonical) : QueryKey :=
  ⟨key.name, key.rrType, key.rrClass, key.ecs, engine.dnssec, false, named⟩

theorem groupFiled_iff {engine : EngineConfig} {res : Resolution} {name : Name} {rrType : RrType} :
    (∃ group ∈ (groupAnswers res.answers).toList, group.1 = (name, rrType) ∧
      GroupFiled engine group) ↔
      rrType ≠ .RRSIG ∧ res.own name rrType ≠ [] ∧
        ((rrType = .CNAME ∨ rrType = .DNAME) → (res.own name rrType).length ≤ 1) := by
  have typed : ∀ record ∈ (res.own name rrType).map Sourced.record, record.rrType = rrType := by
    intro record member
    obtain ⟨answer, inside, rfl⟩ := List.mem_map.mp member
    have matched := (List.mem_filter.mp inside).2
    simp only [decide_eq_true_eq, Prod.mk.injEq] at matched
    exact matched.2
  have built (data : rrType ≠ .RRSIG) (nonempty : res.own name rrType ≠ []) :=
    @RrSet.fromRecords_ok_iff ((res.own name rrType).map Sourced.record) rrType engine.maxTtlCap
      (by simpa using nonempty) typed data
  simp only [List.length_map] at built
  constructor
  · rintro ⟨⟨_, records⟩, member, rfl, data, set, formed⟩
    obtain ⟨nonempty, rfl⟩ := mem_toList_groupBy.mp member
    exact ⟨data, nonempty, (built data nonempty).mp ⟨set, formed⟩⟩
  · rintro ⟨data, nonempty, single⟩
    obtain ⟨set, formed⟩ := (built data nonempty).mpr single
    exact ⟨((name, rrType), res.own name rrType), mem_toList_groupBy.mpr ⟨nonempty, rfl⟩, rfl, data,
      set, formed⟩

/-- A negative answer is filed under the key that was asked, unless it goes to
the NXDOMAIN store. -/
theorem outcomeKey_iff {engine : EngineConfig} {res : Resolution} {key : CacheKey}
    {named : key.name.Canonical} :
    outcomeKey (refreshQuery engine key named) res = some key ↔
      answerPartition key.ecs res.ecsScope = key.ecs ∧ res.name = key.name ∧
        res.rrType = key.rrType ∧ res.rrClass = key.rrClass ∧
        (if res.rcode.isNxdomain then key.ecs ≠ none else res.answers = []) := by
  obtain ⟨name, rrType, rrClass, ecs⟩ := key
  simp only [outcomeKey, refreshQuery]
  split_ifs with missing empty
  · cases partition : answerPartition ecs res.ecsScope with
    | none =>
        simp only [Option.map_none, reduceCtorEq, false_iff]
        rintro ⟨rfl, _, _, _, partitioned⟩
        exact partitioned rfl
    | some scope =>
        simp only [Option.map_some, Option.some.injEq, CacheKey.mk.injEq]
        constructor
        · rintro ⟨rfl, rfl, rfl, rfl⟩
          simp
        · rintro ⟨rfl, rfl, rfl, rfl, _⟩
          simp
  · simp only [Option.some.injEq, CacheKey.mk.injEq, List.isEmpty_iff.mp empty]
    constructor
    · rintro ⟨rfl, rfl, rfl, same⟩
      exact ⟨same, rfl, rfl, rfl, trivial⟩
    · rintro ⟨same, rfl, rfl, rfl, _⟩
      exact ⟨rfl, rfl, rfl, same⟩
  · simp only [false_iff]
    rintro ⟨_, _, _, _, nothing⟩
    rw [nothing] at empty
    exact empty rfl

theorem files_iff (engine : EngineConfig) (res : Resolution) (key : CacheKey)
    (named : key.name.Canonical) :
    ((∃ group ∈ (groupAnswers res.answers).toList, GroupFiled engine group ∧
        key = groupKey (refreshQuery engine key named) res group) ∨
      outcomeKey (refreshQuery engine key named) res = some key) ↔ res.Files key := by
  rw [outcomeKey_iff, Resolution.Files, and_or_left, ← @groupFiled_iff engine]
  refine or_congr_left ?_
  constructor
  · rintro ⟨group, member, filed, same⟩
    obtain ⟨name, rrType, _, partition⟩ := CacheKey.mk.inj same
    exact ⟨partition.symm, group, member, Prod.ext name.symm rrType.symm, filed⟩
  · rintro ⟨partition, group, member, same, filed⟩
    refine ⟨group, member, filed, ?_⟩
    rw [groupKey, same]
    exact congrArg (CacheKey.mk _ _ _) partition.symm

/-! ## Refreshes under way -/

/-- The cache, and the keys whose refresh has a worker. -/
structure RefreshState (Score Stability : Type) where
  cache : SemanticCache Score Stability
  inFlight : List CacheKey

/-- What happens to the marks. -/
inductive RefreshAction (Score Stability Inputs : Type) where
  /-- An operation of a request, of the maintenance or of a resolution. -/
  | operate (op : CacheOp Score Stability Inputs)
  /-- A refresh is queued; `spawned` says whether its worker could be started. -/
  | queue (serving : Serving Score Stability) (key : CacheKey) (spawned : Bool)
  /-- A worker ends with what its resolution returned. -/
  | finish (key : CacheKey) (named : key.name.Canonical) (resolved : Except Error Resolution)
      (inputs : Inputs) (now : Ts)

section Refresh

variable [LinearOrder Score] (scoring : Scoring Score Stability Inputs) (engine : EngineConfig)
  (limits : FetchLimits)

/-- What a refresh does to the cache once its resolution has returned. -/
def refreshKey (key : CacheKey) (named : key.name.Canonical) (resolved : Except Error Resolution)
    (inputs : Inputs) (now : Ts) (cache : SemanticCache Score Stability) :
    Except Error (SemanticCache Score Stability) :=
  resolved.map fun res =>
    let query := refreshQuery engine key named
    (cacheResolution scoring engine query res inputs now
      (.start engine query cache (.new limits))).cache

namespace RefreshState

/-- One action. -/
def step (state : RefreshState Score Stability) :
    RefreshAction Score Stability Inputs → Option (RefreshState Score Stability)
  | .operate op => some { state with cache := op.apply scoring state.cache }
  | .queue serving key spawned =>
      let queued := queueBackgroundRefresh serving state.cache key
      some ⟨queued.2, if queued.1 && spawned then key :: state.inFlight else state.inFlight⟩
  | .finish key named resolved inputs now =>
      if key ∈ state.inFlight then
        let cache :=
          match refreshKey scoring engine limits key named resolved inputs now state.cache with
          | .ok cache => cache
          | .error _ => state.cache.recordRefreshFailure scoring key now
        some ⟨cache, state.inFlight.erase key⟩
      else none

end RefreshState

end Refresh

/-- What the rest of the resolver does to the cache: only a queued refresh marks
a key, and an entry is restored unmarked, under a key that is not cached yet. -/
def RefreshAction.Admissible (state : RefreshState Score Stability) :
    RefreshAction Score Stability Inputs → Prop
  | .operate (.markRefreshing _) => False
  | .operate (.restoreEntry entry _) => state.cache.Absent entry.key ∧ entry.refreshing = false
  | _ => True

/-- The refresh takes its mark back: its worker starts, and ends with an error or
with an answer that is filed under the key. -/
def RefreshAction.Settles (state : RefreshState Score Stability) :
    RefreshAction Score Stability Inputs → Prop
  | .operate _ => True
  | .queue serving key spawned =>
      (queueBackgroundRefresh serving state.cache key).1 = true → spawned = true
  | .finish key _ resolved _ _ => ∀ res, resolved = .ok res → res.Files key

section Invariant

variable [LinearOrder Score] {scoring : Scoring Score Stability Inputs} {engine : EngineConfig}
  {limits : FetchLimits} {state next : RefreshState Score Stability}
  {action : RefreshAction Score Stability Inputs} {key : CacheKey}

/-- Every mark belongs to a refresh under way. -/
structure RefreshState.Sound (scoring : Scoring Score Stability Inputs)
    (state : RefreshState Score Stability) : Prop where
  consistent : state.cache.Consistent scoring
  marks : ∀ key, state.cache.Marked key → key ∈ state.inFlight

/-- An operation of the others sets no mark. -/
theorem RefreshState.operate_marked {op : CacheOp Score Stability Inputs}
    (consistent : state.cache.Consistent scoring)
    (admissible : (RefreshAction.operate op).Admissible state) :
    (op.apply scoring state.cache).Consistent scoring ∧
      ∀ key, (op.apply scoring state.cache).Marked key → state.cache.Marked key := by
  have kept (meets : op.Meets (fun key cache => cache.Consistent scoring ∧ cache.Absent key)
      state.cache) : (op.apply scoring state.cache).Consistent scoring :=
    (SemanticCache.consistent_kept scoring).apply meets consistent
  cases op with
  | insertPositive key rrset now inputs validated =>
      exact ⟨kept trivial, fun other => (SemanticCache.insertPositive_refiles
        consistent key rrset now inputs validated).1.marked⟩
  | insertNegative key rcode soa authoritativeTtl now inputs =>
      exact ⟨kept trivial, fun other => (SemanticCache.insertNegative_refiles
        consistent key rcode soa authoritativeTtl now inputs).1.marked⟩
  | insertNxdomain name rcode soa authoritativeTtl now =>
      exact ⟨kept trivial, fun other => (@SemanticCache.insertNxdomain_refiles _ _
        (fun _ => False) state.cache name rcode soa authoritativeTtl now).marked⟩
  | lookup key now =>
      exact ⟨kept trivial, fun other => (@SemanticCache.lookup_refiles _ _ _ _ _
        (fun _ => False) _ consistent key now).marked⟩
  | rescore key inputs now =>
      exact ⟨kept trivial, fun other => (@SemanticCache.rescore_refiles _ _ _ _ _
        (fun _ => False) _ consistent key inputs now).marked⟩
  | sweep now =>
      exact ⟨kept trivial, fun other => (@SemanticCache.sweep_refiles _ _ _ _ _
        (fun _ => False) consistent now).marked⟩
  | markRefreshing key => exact absurd admissible id
  | clearRefreshing key =>
      exact ⟨kept trivial, (consistent.modifyEntry_unmarks fun _ => rfl).2⟩
  | recordRefreshFailure key now =>
      exact ⟨kept trivial, (consistent.modifyEntry_unmarks fun _ => rfl).2⟩
  | restoreEntry entry now =>
      obtain ⟨absent, unmarked⟩ := admissible
      exact ⟨kept ⟨consistent, absent⟩, fun other =>
        (SemanticCache.restoreEntry_refiles consistent absent unmarked now).marked⟩

theorem RefreshState.queue_marked {serving : Serving Score Stability}
    (consistent : state.cache.Consistent scoring) :
    (queueBackgroundRefresh serving state.cache key).2.Consistent scoring ∧
      ((queueBackgroundRefresh serving state.cache key).1 = true →
        (queueBackgroundRefresh serving state.cache key).2.Marked key) ∧
      ∀ other, (queueBackgroundRefresh serving state.cache key).2.Marked other →
        state.cache.Marked other ∨
          other = key ∧ (queueBackgroundRefresh serving state.cache key).1 = true := by
  have kept := (SemanticCache.consistent_kept scoring).markRefreshing key consistent
  have others := fun other => @SemanticCache.Consistent.markRefreshing_marked _ _ _ _ _ consistent
    key other
  have marks := @SemanticCache.markRefreshing_marks _ _ state.cache key
  unfold queueBackgroundRefresh
  cases result : state.cache.markRefreshing key with
  | mk queued cache =>
      rw [result] at kept others marks
      cases queued with
      | false =>
          dsimp only at kept marks ⊢
          rw [marks.1 rfl]
          exact ⟨consistent, by simp, fun other marked => .inl marked⟩
      | true =>
          dsimp only at kept others marks ⊢
          split_ifs
          · refine ⟨kept, fun _ => marks.2 rfl, fun other marked => ?_⟩
            rcases others other marked with rfl | before
            · exact .inr ⟨rfl, rfl⟩
            · exact .inl before
          · obtain ⟨cleared, rest⟩ : ¬ (cache.clearRefreshing key).Marked key ∧ _ :=
              kept.modifyEntry_unmarks fun _ => rfl
            refine ⟨(SemanticCache.consistent_kept scoring).modifyEntry key
              (fun _ => ⟨rfl, rfl, rfl⟩) kept, by simp, fun other marked => ?_⟩
            rcases others other (rest other marked) with rfl | before
            · exact absurd marked cleared
            · exact .inl before

theorem RefreshState.refreshKey_filed {named : key.name.Canonical} {res : Resolution}
    {inputs : Inputs} {now : Ts} {cache after : SemanticCache Score Stability}
    (consistent : cache.Consistent scoring)
    (refreshed : refreshKey scoring engine limits key named (.ok res) inputs now cache =
      .ok after) :
    after.Consistent scoring ∧ (res.Files key → ¬ after.Marked key) ∧
      (∀ other, after.Marked other → cache.Marked other) ∧
      (¬ res.Files key → cache.Marked key → ∀ entry, after.Stores key entry →
        entry.refreshing = true) := by
  obtain rfl := Except.ok.inj refreshed
  have filed := @cacheResolution_filed _ _ _ _ _ engine (refreshQuery engine key named) res inputs
    now (.start engine (refreshQuery engine key named) cache (.new limits)) consistent
  have exactly := files_iff engine res key named
  refine ⟨filed.consistent, fun files => filed.unmarks key (exactly.mpr files),
    fun other marked => filed.refiles.marked marked, fun misfiled marked entry stored => ?_⟩
  exact filed.refiles.keeps_mark consistent marked (fun found => misfiled (exactly.mp found)) stored

/-- The end of a worker, as far as marks go: the key is unmarked after an error,
and after an answer exactly when it is filed under the key. -/
theorem RefreshState.finish_marked {named : key.name.Canonical}
    {resolved : Except Error Resolution} {inputs : Inputs} {now : Ts}
    (consistent : state.cache.Consistent scoring)
    (taken : state.step scoring engine limits (.finish key named resolved inputs now) =
      some next) :
    next.inFlight = state.inFlight.erase key ∧ next.cache.Consistent scoring ∧
      (∀ other, next.cache.Marked other → state.cache.Marked other) ∧
      ((∀ res, resolved = .ok res → res.Files key) → ¬ next.cache.Marked key) ∧
      ∀ res, resolved = .ok res → ¬ res.Files key → state.cache.Marked key →
        ∀ entry, next.cache.Stores key entry → entry.refreshing = true := by
  simp only [step, Option.ite_none_right_eq_some] at taken
  obtain ⟨_, taken⟩ := taken
  obtain rfl := Option.some.inj taken
  cases resolved with
  | error error =>
      obtain ⟨cleared, rest⟩ : ¬ (state.cache.recordRefreshFailure scoring key now).Marked key ∧ _ :=
        consistent.modifyEntry_unmarks fun _ => rfl
      refine ⟨rfl, (SemanticCache.consistent_kept scoring).modifyEntry key
        (fun _ => ⟨rfl, rfl, rfl⟩) consistent, rest, fun _ => cleared, ?_⟩
      intro res same
      cases same
  | ok res =>
      obtain ⟨kept, unmarks, others, misfiled⟩ :=
        @refreshKey_filed _ _ _ _ scoring engine limits key named res inputs now _ _ consistent rfl
      refine ⟨rfl, kept, others, fun files => unmarks (files res rfl), ?_⟩
      rintro _ ⟨⟩ unfiled marked
      exact misfiled unfiled marked

theorem RefreshState.Sound.step (sound : state.Sound scoring)
    (admissible : action.Admissible state) (settles : action.Settles state)
    (taken : state.step scoring engine limits action = some next) : next.Sound scoring := by
  cases action with
  | operate op =>
      obtain rfl := Option.some.inj taken
      obtain ⟨kept, others⟩ := operate_marked sound.consistent admissible
      exact ⟨kept, fun key marked => sound.marks key (others key marked)⟩
  | queue serving key spawned =>
      obtain rfl := Option.some.inj taken
      obtain ⟨kept, _, others⟩ := @queue_marked _ _ _ _ _ state key serving sound.consistent
      refine ⟨kept, fun other marked => ?_⟩
      rcases others other marked with before | ⟨rfl, queued⟩
      · have under := sound.marks other before
        dsimp only
        split
        · exact List.mem_cons_of_mem _ under
        · exact under
      · simp [queued, settles queued]
  | finish key named resolved inputs now =>
      obtain ⟨inFlight, kept, others, cleared, _⟩ := finish_marked sound.consistent taken
      refine ⟨kept, fun other marked => ?_⟩
      have different : other ≠ key := by
        rintro rfl
        exact cleared settles marked
      rw [inFlight, List.mem_erase_of_ne different]
      exact sound.marks other (others other marked)

end Invariant

/-- Refresh marks: in every run whose workers all start, and all end with an error
or with an answer filed under their key, a mark belongs to a refresh under way,
so that any other cached key can be marked again. In the states such a run
reaches, an answer takes the mark of its key back exactly when it is filed under
the key, and a worker that does not start leaves its mark. -/
theorem refresh_marks_in_flight [LinearOrder Score] (scoring : Scoring Score Stability Inputs)
    (engine : EngineConfig) (limits : FetchLimits) (config : CacheConfig Score)
    {actions : List (RefreshAction Score Stability Inputs)} {state : RefreshState Score Stability}
    (runs : Runs (RefreshState.step scoring engine limits)
      (fun state action => action.Admissible state ∧ action.Settles state) ⟨.new config, []⟩
      actions state) :
    (∀ key, state.cache.Marked key → key ∈ state.inFlight) ∧
    (∀ key entry, state.cache.Stores key entry → key ∉ state.inFlight →
      (state.cache.markRefreshing key).1 = true) ∧
    (∀ key named res inputs now next, state.cache.Marked key →
      state.step scoring engine limits (.finish key named (.ok res) inputs now) = some next →
      ∀ entry, next.cache.Stores key entry → (entry.refreshing = false ↔ res.Files key)) ∧
    ∀ serving key next, (queueBackgroundRefresh serving state.cache key).1 = true →
      state.step scoring engine limits (.queue serving key false) = some next →
      next.cache.Marked key ∧ next.inFlight = state.inFlight := by
  have sound : state.Sound scoring := by
    refine runs.invariant (fun sound meets taken => sound.step meets.1 meets.2 taken) ?_
    refine ⟨SemanticCache.new_consistent config, ?_⟩
    rintro key ⟨entry, ⟨tier, stored⟩, _⟩
    cases tier <;> simp [SemanticCache.new, SemanticCache.tierMap] at stored
  refine ⟨sound.marks, fun key entry stored idle => ?_,
    fun key named res inputs now next marked taken entry stored => ?_,
    fun serving key next queued taken => ?_⟩
  · rw [SemanticCache.markRefreshing_eq_true_iff sound.consistent]
    exact ⟨⟨entry, stored⟩, fun marked => idle (sound.marks key marked)⟩
  · obtain ⟨_, _, _, cleared, misfiled⟩ := RefreshState.finish_marked sound.consistent taken
    constructor
    · intro unmarked
      by_contra unfiled
      rw [misfiled res rfl unfiled marked entry stored] at unmarked
      cases unmarked
    · intro files
      rw [← Bool.not_eq_true]
      intro mark
      refine cleared ?_ ⟨entry, stored, mark⟩
      rintro _ ⟨⟩
      exact files
  · obtain rfl := Option.some.inj taken
    obtain ⟨_, marks, _⟩ := @RefreshState.queue_marked _ _ _ _ _ state key serving sound.consistent
    exact ⟨marks queued, by simp⟩

/-! ## Refreshing the address of `a.` -/

/-- The key of the address. -/
def addressKey : CacheKey := .plain oneLabel .A .IN

theorem addressKey_named : addressKey.name.Canonical :=
  @fromWire_domainName [1, 97, 0] 0 3 oneLabel (by decide)

/-- What a refresh of the address returns: the records, or the code of a negative answer. -/
def addressResolution (rcode : Rcode) (records : List Record) : Resolution where
  name := oneLabel
  rrType := .A
  rrClass := .IN
  rcode := rcode
  answers := records.map fun record => ⟨record, .answer, some 0⟩
  authorities := []
  rrsigs := []
  validated := false
  ttl := 300
  fromCache := false
  stale := false
  ecsScope := none
  servedAt := 2

/-- An engine without root servers. -/
def refreshEngine : EngineConfig := ⟨[], 53, false, 8, 16, 5000, false, 86400⟩

/-- Limits of a refresh. -/
def refreshLimits : FetchLimits := ⟨16, 64, 64, 8, 8, 1048576, 4, fun _ _ => false⟩

/-- The address is cached and its refresh is queued. -/
def queuedRefresh : RefreshState Nat Unit where
  cache := (queueBackgroundRefresh ⟨fun _ _ => false, fun _ => true, fun _ => []⟩
    (CacheOp.run ttlScoring (smallConfig 1)
      [.insertPositive addressKey addressSet 1 () false]) addressKey).2
  inFlight := [addressKey]

/-- The state after the worker has ended. -/
def finishedRefresh (res : Resolution) : RefreshState Nat Unit where
  cache := (cacheResolution ttlScoring refreshEngine
    (refreshQuery refreshEngine addressKey addressKey_named) res () 2
    (.start refreshEngine (refreshQuery refreshEngine addressKey addressKey_named)
      queuedRefresh.cache (.new refreshLimits))).cache
  inFlight := []

/-- Insert the address, queue its refresh, and end the worker. -/
def refreshActions (res : Resolution) : List (RefreshAction Nat Unit Unit) :=
  [.operate (.insertPositive addressKey addressSet 1 () false),
    .queue ⟨fun _ _ => false, fun _ => true, fun _ => []⟩ addressKey true,
    .finish addressKey addressKey_named (.ok res) () 2]

theorem runs_refreshActions {Meets : RefreshState Nat Unit → RefreshAction Nat Unit Unit → Prop}
    (res : Resolution)
    (meets : ∀ state action, action ∈ refreshActions res → Meets state action) :
    Runs (RefreshState.step ttlScoring refreshEngine refreshLimits) Meets
      ⟨.new (smallConfig 1), []⟩ (refreshActions res) (finishedRefresh res) := by
  have inserted : Runs (RefreshState.step ttlScoring refreshEngine refreshLimits) Meets
      ⟨.new (smallConfig 1), []⟩ [.operate (.insertPositive addressKey addressSet 1 () false)]
      ⟨CacheOp.run ttlScoring (smallConfig 1)
        [.insertPositive addressKey addressSet 1 () false], []⟩ :=
    .step .refl (meets _ _ (by simp [refreshActions])) rfl
  have marked : (queueBackgroundRefresh ⟨fun _ _ => false, fun _ => true, fun _ => []⟩
      (CacheOp.run ttlScoring (smallConfig 1)
        [.insertPositive addressKey addressSet 1 () false]) addressKey).1 = true := by
    decide
  have queued : RefreshState.step ttlScoring refreshEngine refreshLimits
      ⟨CacheOp.run ttlScoring (smallConfig 1)
        [.insertPositive addressKey addressSet 1 () false], []⟩
      (.queue ⟨fun _ _ => false, fun _ => true, fun _ => []⟩ addressKey true) =
        some queuedRefresh := by
    simp only [RefreshState.step, marked]
    rfl
  have finished : queuedRefresh.step ttlScoring refreshEngine refreshLimits
      (.finish addressKey addressKey_named (.ok res) () 2) = some (finishedRefresh res) := by
    have under : addressKey ∈ queuedRefresh.inFlight := List.mem_cons_self
    simp only [RefreshState.step, if_pos under]
    simp [refreshKey, Except.map, finishedRefresh, queuedRefresh]
  exact .step (.step inserted (meets _ _ (by simp [refreshActions])) queued)
    (meets _ _ (by simp [refreshActions])) finished

/-- The answer is filed under its key. -/
theorem address_files : (addressResolution .NOERROR addressSet.records).Files addressKey := by
  refine ⟨rfl, .inl ⟨by decide, by decide, by decide⟩⟩

/-- A refresh that brings the address again leaves the key free to be marked. -/
theorem refresh_marks_in_flight_answered :
    ((finishedRefresh (addressResolution .NOERROR addressSet.records)).cache.markRefreshing
      addressKey).1 = true := by
  have stored : ((finishedRefresh (addressResolution .NOERROR addressSet.records)).cache.hot.get?
      addressKey).isSome = true := by
    decide
  obtain ⟨entry, stored⟩ := Option.isSome_iff_exists.mp stored
  have runs := @runs_refreshActions
    (fun state action => action.Admissible state ∧ action.Settles state)
    (addressResolution .NOERROR addressSet.records) (by
      intro state action member
      simp only [refreshActions, List.mem_cons, List.not_mem_nil, or_false] at member
      rcases member with rfl | rfl | rfl
      · exact ⟨trivial, trivial⟩
      · exact ⟨trivial, fun _ => rfl⟩
      · refine ⟨trivial, ?_⟩
        rintro _ ⟨⟩
        exact address_files)
  exact (refresh_marks_in_flight ttlScoring refreshEngine refreshLimits (smallConfig 1) runs).2.1
    addressKey entry ⟨.hot, stored⟩ List.not_mem_nil

/-- A refresh that finds the name gone leaves the address marked for good. -/
theorem mark_outlives_refresh :
    ∃ state : RefreshState Nat Unit,
      Runs (RefreshState.step ttlScoring refreshEngine refreshLimits)
        (fun state action => action.Admissible state) ⟨.new (smallConfig 1), []⟩
        (refreshActions (addressResolution .NXDOMAIN [])) state ∧
      state.inFlight = [] ∧ state.cache.Marked addressKey := by
  refine ⟨finishedRefresh (addressResolution .NXDOMAIN []), runs_refreshActions _ ?_, rfl, ?_⟩
  · intro state action member
    simp only [refreshActions, List.mem_cons, List.not_mem_nil, or_false] at member
    rcases member with rfl | rfl | rfl <;> trivial
  · have stored : ((finishedRefresh (addressResolution .NXDOMAIN [])).cache.hot.get?
        addressKey).map CacheEntry.refreshing = some true := by
      decide
    obtain ⟨entry, stored, mark⟩ := Option.map_eq_some_iff.mp stored
    exact ⟨entry, ⟨.hot, stored⟩, mark⟩

end RecurseX
