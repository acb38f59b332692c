import RecurseX.Resolver.RefreshMarks

/-!
# The signatures cached with an RRset

`cacheResolution` groups the answers by owner and type, and gives each group the
signatures that cover its type, whoever owns them. `attachesSignatures_iff` says when
these are the signatures of the group's own RRset.
-/

namespace RecurseX

open Library Std

variable {Score Stability Inputs : Type}

/-- The set that a group of answers is cached as. -/
def storedSet (engine : EngineConfig) (res : Resolution) (group : (Name × RrType) × List Sourced) :
    Option RrSet :=
  if group.1.2 = .RRSIG then none
  else match RrSet.fromRecords (group.2.map Sourced.record) engine.maxTtlCap with
    | .error _ => none
    | .ok set =>
        some ((res.rrsigs.filter fun sig => coversType sig.record group.1.2).foldl
          (fun set sig => set.addRrsig sig.record) { set with validated := res.validated })

/-- The signatures of the RRset of an owner and a type. -/
def Resolution.sigsOf (res : Resolution) (owner : Name) (rrType : RrType) : List Record :=
  (res.rrsigs.map Sourced.record).filter fun sig => sig.name == owner && coversType sig rrType

/-- Each set is cached with the signatures of its own RRset. -/
def Resolution.AttachesSignatures (engine : EngineConfig) (res : Resolution) : Prop :=
  ∀ group ∈ (groupAnswers res.answers).toList, ∀ set, storedSet engine res group = some set →
    set.rrsigs = res.sigsOf group.1.1 group.1.2

/-- The answers have data of the type at the owner: a single record where the type is an alias. -/
structure Resolution.Caches (res : Resolution) (owner : Name) (rrType : RrType) : Prop where
  data : rrType ≠ .RRSIG
  some : ∃ answer ∈ res.answers, answer.record.name = owner ∧ answer.record.rrType = rrType
  single : rrType = .CNAME ∨ rrType = .DNAME →
    (res.answers.filter fun answer => (answer.record.name, answer.record.rrType) =
      (owner, rrType)).length ≤ 1

section Stored

variable {engine : EngineConfig} {res : Resolution} {group : (Name × RrType) × List Sourced}
  {set : RrSet}

theorem foldl_addRrsig_rrsigs (sigs : List Sourced) (set : RrSet) :
    (sigs.foldl (fun set sig => set.addRrsig sig.record) set).rrsigs =
      set.rrsigs ++ sigs.map Sourced.record := by
  induction sigs generalizing set with
  | nil => exact (List.append_nil _).symm
  | cons sig sigs inductionHypothesis =>
      rw [List.foldl_cons, inductionHypothesis, List.map_cons, RrSet.addRrsig, List.append_assoc,
        List.singleton_append]

/-- Building a set from data of one type fails for two records of an alias, and brings no
signatures. -/
theorem RrSet.fromRecords_data {records : List Record} {maxTtlCap : UInt32} {rrType : RrType}
    (some : records ≠ []) (typed : ∀ record ∈ records, record.rrType = rrType)
    (data : rrType ≠ .RRSIG) :
    (∀ set, RrSet.fromRecords records maxTtlCap = .ok set → set.rrsigs = []) ∧
    ((∃ set, RrSet.fromRecords records maxTtlCap = .ok set) ↔
      (rrType = .CNAME ∨ rrType = .DNAME → records.length ≤ 1)) := by
  have kept : (records.filter fun record => record.rrType != .RRSIG) = records :=
    List.filter_eq_self.mpr fun record member => by simpa [typed record member] using data
  have bare : (records.filter fun record => record.rrType == .RRSIG) = [] :=
    List.filter_eq_nil_iff.mpr fun record member => by simpa [typed record member] using data
  unfold RrSet.fromRecords
  cases records with
  | nil => exact absurd rfl some
  | cons first rest =>
      dsimp only
      rw [kept, bare, typed first List.mem_cons_self]
      refine ⟨fun set built => ?_, ?_⟩
      · obtain ⟨_, -, built⟩ := bind_eq_ok.mp built
        obtain rfl := Except.ok.inj built
        rfl
      · constructor
        · rintro ⟨set, built⟩ aliased
          obtain ⟨_, single, -⟩ := bind_eq_ok.mp built
          rw [failIf_eq_ok] at single
          exact Nat.le_of_not_lt fun several => single ⟨aliased, several⟩
        · intro single
          refine ⟨_, bind_eq_ok.mpr ⟨(), failIf_eq_ok.mpr ?_, rfl⟩⟩
          rintro ⟨aliased, several⟩
          exact Nat.not_lt_of_le (single aliased) several

theorem mem_groupAnswers {owner : Name} {rrType : RrType} {answers : List Sourced} :
    ((owner, rrType), answers) ∈ (groupAnswers res.answers).toList ↔
      answers ≠ [] ∧ answers = res.answers.filter fun answer =>
        (answer.record.name, answer.record.rrType) = (owner, rrType) :=
  mem_toList_groupBy

/-- The records that a group is built from. -/
theorem group_typed {owner : Name} {rrType : RrType} {answers : List Sourced}
    (grouped : ((owner, rrType), answers) ∈ (groupAnswers res.answers).toList) :
    answers.map Sourced.record ≠ [] ∧
      ∀ record ∈ answers.map Sourced.record, record.rrType = rrType := by
  refine ⟨fun empty => (mem_groupAnswers.mp grouped).1 (List.map_eq_nil_iff.mp empty), ?_⟩
  intro record member
  obtain ⟨answer, held, rfl⟩ := List.mem_map.mp member
  exact congrArg Prod.snd (mem_of_mem_group grouped held).2

/-- A stored set has all signatures that cover its type. -/
theorem storedSet_rrsigs {owner : Name} {rrType : RrType} {answers : List Sourced}
    (grouped : ((owner, rrType), answers) ∈ (groupAnswers res.answers).toList)
    (stored : storedSet engine res ((owner, rrType), answers) = some set) :
    set.rrsigs = (res.rrsigs.map Sourced.record).filter fun sig => coversType sig rrType := by
  unfold storedSet at stored
  split_ifs at stored with signatures
  obtain ⟨some, typed⟩ := group_typed grouped
  cases built : RrSet.fromRecords (answers.map Sourced.record) engine.maxTtlCap with
  | error error =>
      rw [built] at stored
      cases stored
  | ok plain =>
      rw [built] at stored
      obtain rfl := Option.some.inj stored
      rw [foldl_addRrsig_rrsigs]
      dsimp only
      rw [(RrSet.fromRecords_data some typed signatures).1 plain built, List.nil_append,
        List.filter_map]
      rfl

/-- A group is stored unless it holds signatures or cannot be built. -/
theorem exists_storedSet_iff :
    (∃ set, storedSet engine res group = some set) ↔ GroupFiled engine group := by
  unfold storedSet GroupFiled
  split_ifs with signatures
  · exact iff_of_false nofun fun filed => filed.1 signatures
  · rw [and_iff_right signatures]
    cases RrSet.fromRecords (group.2.map Sourced.record) engine.maxTtlCap with
    | error error => exact iff_of_false nofun nofun
    | ok plain => exact iff_of_true ⟨_, rfl⟩ ⟨_, rfl⟩

/-- The RRsets that are cached, read off the answers. -/
theorem exists_groupFiled_iff {owner : Name} {rrType : RrType} :
    (∃ answers, ((owner, rrType), answers) ∈ (groupAnswers res.answers).toList ∧
      GroupFiled engine ((owner, rrType), answers)) ↔ res.Caches owner rrType := by
  constructor
  · rintro ⟨answers, grouped, data, built⟩
    obtain ⟨some, typed⟩ := group_typed grouped
    have single := (RrSet.fromRecords_data some typed data).2.mp built
    obtain ⟨nonempty, rfl⟩ := mem_groupAnswers.mp grouped
    obtain ⟨answer, held⟩ := List.exists_mem_of_ne_nil _ nonempty
    obtain ⟨listed, viewed⟩ := mem_of_mem_group grouped held
    rw [List.length_map] at single
    exact ⟨data, ⟨answer, listed, congrArg Prod.fst viewed, congrArg Prod.snd viewed⟩, single⟩
  · rintro ⟨data, ⟨answer, listed, owned, typed⟩, single⟩
    have nonempty : (res.answers.filter fun answer =>
        (answer.record.name, answer.record.rrType) = (owner, rrType)) ≠ [] :=
      List.ne_nil_of_mem (List.mem_filter.mpr ⟨listed, by simp [owned, typed]⟩)
    have grouped := mem_groupAnswers.mpr ⟨nonempty, rfl⟩
    obtain ⟨some, ofType⟩ := group_typed grouped
    refine ⟨_, grouped, data, (RrSet.fromRecords_data some ofType data).2.mpr ?_⟩
    rwa [List.length_map]

end Stored

/-- **Signatures of RRsets.** Every set is cached with exactly its own signatures if and only if no
cached RRset of the answers has a signature of its type by another owner beside it. -/
theorem attachesSignatures_iff (engine : EngineConfig) (res : Resolution) :
    res.AttachesSignatures engine ↔
      ∀ owner rrType, res.Caches owner rrType →
        ∀ sig ∈ res.rrsigs, coversType sig.record rrType = true → sig.record.name = owner := by
  have exact {owner : Name} {rrType : RrType} :
      (res.rrsigs.map Sourced.record).filter (fun sig => coversType sig rrType) =
        res.sigsOf owner rrType ↔
      ∀ sig ∈ res.rrsigs, coversType sig.record rrType = true → sig.record.name = owner := by
    rw [Resolution.sigsOf, ← List.filter_filter, eq_comm, List.filter_eq_self]
    simp
  constructor
  · intro attaches owner rrType caches
    have files : ∃ answers, ((owner, rrType), answers) ∈ (groupAnswers res.answers).toList ∧
        GroupFiled engine ((owner, rrType), answers) := exists_groupFiled_iff.mpr caches
    obtain ⟨answers, grouped, filed⟩ := files
    obtain ⟨set, stored⟩ := exists_storedSet_iff.mpr filed
    rw [← exact, ← storedSet_rrsigs grouped stored]
    exact attaches _ grouped set stored
  · rintro own ⟨⟨owner, rrType⟩, answers⟩ grouped set stored
    have caches := exists_groupFiled_iff.mp ⟨answers, grouped, exists_storedSet_iff.mp ⟨set, stored⟩⟩
    rw [storedSet_rrsigs grouped stored]
    exact exact.mpr (own owner rrType caches)

/-! ## In the cache -/

section Cached

variable [LinearOrder Score] {scoring : Scoring Score Stability Inputs} {engine : EngineConfig}
  {key : QueryKey} {res : Resolution} {inputs : Inputs} {now : Ts}
  {state : WalkState Score Stability}

/-- What caching a resolution puts under a key. -/
def Resolution.Puts (engine : EngineConfig) (key : QueryKey) (res : Resolution) (other : CacheKey)
    (kind : EntryKind) : Prop :=
  (∃ group ∈ (groupAnswers res.answers).toList, other = groupKey key res group ∧
    ∃ set ttl, storedSet engine res group = some set ∧ kind = .positive { set with ttl := ttl }) ∨
  ∃ rcode soa ttl, kind = .negative rcode soa ttl

theorem cacheGroup_cache (group : (Name × RrType) × List Sourced) :
    (cacheGroup scoring engine key res inputs now state group).cache =
      (storedSet engine res group).elim state.cache fun set =>
        state.cache.insertPositive scoring (groupKey key res group) set now inputs
          res.validated := by
  unfold cacheGroup storedSet
  split_ifs
  · rfl
  · cases RrSet.fromRecords (group.2.map Sourced.record) engine.maxTtlCap <;> rfl

theorem cacheGroup_puts {group : (Name × RrType) × List Sourced}
    (grouped : group ∈ (groupAnswers res.answers).toList) :
    SemanticCache.Writes scoring (res.Puts engine key) (fun _ => True) state.cache
      (cacheGroup scoring engine key res inputs now state group).cache := by
  rw [cacheGroup_cache]
  cases stored : storedSet engine res group with
  | none => exact .refl scoring _
  | some set =>
      exact .insertPositive fun ttl => .inl ⟨group, grouped, rfl, set, ttl, stored, rfl⟩

theorem foldl_cacheGroup_puts {groups : List ((Name × RrType) × List Sourced)}
    (grouped : ∀ group ∈ groups, group ∈ (groupAnswers res.answers).toList) :
    SemanticCache.Writes scoring (res.Puts engine key) (fun _ => True) state.cache
      (groups.foldl (cacheGroup scoring engine key res inputs now) state).cache := by
  induction groups generalizing state with
  | nil => exact .refl scoring _
  | cons group groups inductionHypothesis =>
      exact (cacheGroup_puts (grouped group List.mem_cons_self)).trans
        (inductionHypothesis fun other member => grouped other (List.mem_cons_of_mem _ member))

theorem cacheOutcome_puts :
    SemanticCache.Writes scoring (res.Puts engine key) (fun _ => True) state.cache
      (cacheOutcome scoring key res inputs now state).cache := by
  unfold cacheOutcome
  dsimp only
  split_ifs
  · split
    · exact .insertNxdomain trivial
    · exact .insertNegative fun ttl => .inr ⟨_, _, ttl, rfl⟩
  · exact .insertNegative fun ttl => .inr ⟨_, _, ttl, rfl⟩
  · exact .refl scoring _

variable (state) in
/-- The positive entries that caching a resolution adds hold its stored sets. -/
theorem cacheResolution_puts :
    SemanticCache.Writes scoring (res.Puts engine key) (fun _ => True) state.cache
      (cacheResolution scoring engine key res inputs now state).cache :=
  (foldl_cacheGroup_puts fun _ member => member).trans cacheOutcome_puts

/-- Where each set is cached with its own signatures, so are the entries that are added. -/
theorem Resolution.AttachesSignatures.cached (attaches : res.AttachesSignatures engine) :
    SemanticCache.Writes scoring
      (fun other kind => ∀ set, kind = .positive set → set.rrsigs = res.sigsOf other.name other.rrType)
      (fun _ => True) state.cache
      (cacheResolution scoring engine key res inputs now state).cache := by
  refine (cacheResolution_puts state).mono ?_ id
  rintro _ kind (⟨group, grouped, rfl, set, ttl, stored, rfl⟩ | ⟨rcode, soa, ttl, rfl⟩) other same
  · obtain rfl := EntryKind.positive.inj same
    exact attaches group grouped set stored
  · cases same

end Cached

/-! ## A chain of aliases -/

/-- The alias of the name `owner` to `target`, in an answer. -/
def chainLink (owner target : Name) : Sourced := ⟨⟨owner, .CNAME, .IN, 300, .cname target⟩, .cname, none⟩

/-- A signature over the alias of `owner`. -/
def linkSig (owner : Name) : Sourced :=
  ⟨⟨owner, .RRSIG, .IN, 300, .rrsig .CNAME ⟨13⟩ 1 300 0 0 0 owner []⟩, .rrsig, none⟩

/-- `com` is an alias of `org`, which is an alias of `net`; both are signed. -/
def signedChain : Resolution where
  name := ⟨[3, 99, 111, 109, 0]⟩
  rrType := .A
  rrClass := .IN
  rcode := .NOERROR
  answers :=
    [chainLink ⟨[3, 99, 111, 109, 0]⟩ ⟨[3, 111, 114, 103, 0]⟩,
      chainLink ⟨[3, 111, 114, 103, 0]⟩ ⟨[3, 110, 101, 116, 0]⟩]
  authorities := []
  rrsigs := [linkSig ⟨[3, 99, 111, 109, 0]⟩, linkSig ⟨[3, 111, 114, 103, 0]⟩]
  validated := false
  ttl := 300
  fromCache := false
  stale := false
  ecsScope := none
  servedAt := 0

/-- The alias of `com` is cached with both signatures. -/
theorem chain_mixes_signatures :
    storedSet refreshEngine signedChain ((⟨[3, 99, 111, 109, 0]⟩, .CNAME),
        [chainLink ⟨[3, 99, 111, 109, 0]⟩ ⟨[3, 111, 114, 103, 0]⟩]) =
      some { name := ⟨[3, 99, 111, 109, 0]⟩
             rrType := .CNAME
             rrClass := .IN
             records := [(chainLink ⟨[3, 99, 111, 109, 0]⟩ ⟨[3, 111, 114, 103, 0]⟩).record]
             rrsigs := [(linkSig ⟨[3, 99, 111, 109, 0]⟩).record,
               (linkSig ⟨[3, 111, 114, 103, 0]⟩).record]
             ttl := 300
             validated := false } ∧
    ¬ signedChain.AttachesSignatures refreshEngine := by
  have stored : storedSet refreshEngine signedChain ((⟨[3, 99, 111, 109, 0]⟩, .CNAME),
      [chainLink ⟨[3, 99, 111, 109, 0]⟩ ⟨[3, 111, 114, 103, 0]⟩]) =
      some { name := ⟨[3, 99, 111, 109, 0]⟩
             rrType := .CNAME
             rrClass := .IN
             records := [(chainLink ⟨[3, 99, 111, 109, 0]⟩ ⟨[3, 111, 114, 103, 0]⟩).record]
             rrsigs := [(linkSig ⟨[3, 99, 111, 109, 0]⟩).record,
               (linkSig ⟨[3, 111, 114, 103, 0]⟩).record]
             ttl := 300
             validated := false } := by
    decide
  refine ⟨stored, fun attaches => ?_⟩
  have grouped : ((⟨[3, 99, 111, 109, 0]⟩, .CNAME),
      [chainLink ⟨[3, 99, 111, 109, 0]⟩ ⟨[3, 111, 114, 103, 0]⟩]) ∈
        (groupAnswers signedChain.answers).toList :=
    mem_groupAnswers.mpr ⟨List.cons_ne_nil _ _, rfl⟩
  exact absurd (attaches _ grouped _ stored) (by decide)

end RecurseX
