import RecurseX.Cache.Expiry
import RecurseX.Resolver.Response

/-!
# What responses carry

Whatever a turn of the loop writes into the cache, the response it acts on
carries. `Backed` says the same of the answers a resolution has gathered, which
is what the caching at its end relies on: a walk that ends on a set of the cache
is not backed.
-/

namespace RecurseX

open Library

/-- Whether the alias is the one that a DNAME record implies for its name. -/
def Record.implies (dname cname : Record) : Bool :=
  match dname.rdata with
  | .dname target =>
      (synthesizeDnameCname cname.name dname.name target).any fun synthesized =>
        cname = makeCnameRecord cname.name synthesized dname.ttl
  | _ => false

/-- The response has the record, or the DNAME that implies it. -/
def Message.Carries (resp : Message) (record : Record) : Prop :=
  record ∈ resp.answers ∨ record ∈ resp.authorities ∨ record ∈ resp.additionals ∨
    ∃ dname ∈ resp.answers, dname.implies record = true

instance (resp : Message) (record : Record) : Decidable (resp.Carries record) :=
  inferInstanceAs (Decidable (_ ∨ _ ∨ _ ∨ _))

/-- The response is a negative one. -/
def Message.Denies (resp : Message) : Prop :=
  resp.rcode = 3 ∨ resp.authoritySoa ≠ none ∨ dataRecords resp.answers = []

/-- One of the responses carries the set, or denies that there is one. -/
def EntryKind.CarriedBy (responses : List Message) : EntryKind → Prop
  | .positive rrset => rrset.records ≠ [] ∧
      ∃ resp ∈ responses, ∀ record ∈ rrset.records, resp.Carries record
  | .negative .. => ∃ resp ∈ responses, resp.Denies

instance (resp : Message) : Decidable resp.Denies := inferInstanceAs (Decidable (_ ∨ _ ∨ _))

instance (responses : List Message) (kind : EntryKind) : Decidable (kind.CarriedBy responses) :=
  match kind with
  | .positive _ => inferInstanceAs (Decidable (_ ∧ _))
  | .negative .. => inferInstanceAs (Decidable (∃ resp ∈ responses, resp.Denies))

theorem EntryKind.CarriedBy.mono {responses more : List Message} {kind : EntryKind}
    (carried : kind.CarriedBy responses) (subset : ∀ resp ∈ responses, resp ∈ more) :
    kind.CarriedBy more := by
  cases kind with
  | positive rrset =>
      obtain ⟨nonempty, resp, member, carries⟩ := carried
      exact ⟨nonempty, resp, subset resp member, carries⟩
  | negative rcode soa ttl =>
      obtain ⟨resp, member, denies⟩ := carried
      exact ⟨resp, subset resp member, denies⟩

/-- A response that the loop takes as negative is one. -/
theorem Message.denies_of_negative {resp : Message} {qname zone : Name} {qtype : RrType}
    {rcode : Rcode} {soa : Option Record}
    (classified : classifyResponse resp qname qtype zone = .negative rcode soa) : resp.Denies := by
  unfold classifyResponse at classified
  split at classified
  · rename_i missing
    exact .inl missing
  · dsimp only at classified
    split at classified
    · cases classified
    · split at classified
      · cases classified
      · cases classified
      · split at classified
        · rename_i found
          exact .inr (.inl (found ▸ Option.some_ne_none _))
        · split at classified <;> cases classified

/-! ## What a turn writes -/

variable {Score Stability Inputs : Type}

/-- What one of the responses carries or denies is written, and nothing else. -/
abbrev SemanticCache.WritesFrom (scoring : Scoring Score Stability Inputs)
    (responses : List Message) (cache after : SemanticCache Score Stability) : Prop :=
  Writes scoring (fun _ kind => kind.CarriedBy responses)
    (fun _ => ∃ resp ∈ responses, resp.Denies) cache after

open SemanticCache (WritesFrom)

namespace Turn

variable {scoring : Scoring Score Stability Inputs} {engine : EngineConfig}
  {key : QueryKey} {now : Ts} {turn : Turn Score Stability Inputs}
  {state : WalkState Score Stability} {resp : Message}

theorem carriedBy_singleton {rrset : RrSet} (nonempty : rrset.records ≠ [])
    (carries : ∀ record ∈ rrset.records, resp.Carries record) :
    (EntryKind.positive rrset).CarriedBy [resp] :=
  ⟨nonempty, resp, List.mem_singleton_self resp, carries⟩

theorem answerArm_cache {records rrsigs : List Record} :
    (answerArm records rrsigs state).state.cache = state.cache := by
  rcases answerArm_cases records rrsigs state with ⟨error, refused⟩ | ⟨keep, ttl, -, -, taken⟩
  · rw [refused]
    rfl
  · rw [taken]
    rfl

theorem follow_cache {target : Name} : (state.follow engine target).cache = state.cache := by
  unfold WalkState.follow
  dsimp only
  split_ifs <;> rfl

theorem dnameArm_cache {record : Record} :
    (dnameArm engine record state).state.cache = state.cache := by
  rcases dnameArm_cases engine record state with
    ⟨error, refused⟩ | ⟨target, synthesized, -, -, followed⟩
  · rw [refused]
    rfl
  · rw [followed]
    exact follow_cache

theorem concludeNegative_cache {rcode : Rcode} {soa : Option Sourced} :
    (concludeNegative rcode soa state).cache = state.cache := by
  unfold concludeNegative
  cases soa <;> rfl

theorem emptyArm_cache {queryName : Name} :
    (emptyArm queryName state).state.cache = state.cache := by
  unfold emptyArm
  split_ifs <;> rfl

theorem descend_cache {newZone : Name} {nsNames : List Name} {glue : List Record} :
    (turn.descend engine newZone nsNames glue state).state.cache = state.cache := by
  unfold descend
  dsimp only
  split_ifs <;> rfl

section Writing

variable [LinearOrder Score]

theorem cnameArm_writes {record : Record} {rrsigs : List Record} (carries : resp.Carries record) :
    WritesFrom scoring [resp] state.cache
      (turn.cnameArm scoring engine key now record rrsigs state).state.cache := by
  rcases cnameArm_cases scoring engine key now turn record rrsigs state with
    ⟨error, refused⟩ | ⟨target, -, followed⟩
  · rw [refused]
    exact .refl scoring _
  · rw [followed, Progress.state, follow_cache]
    refine .insertPositive fun ttl => carriedBy_singleton (List.cons_ne_nil _ _) fun other only => ?_
    rw [List.mem_singleton.mp only]
    exact carries

theorem cacheMissing_writes {rcode : Rcode} {soa : Option Sourced} {queryName : Name}
    {cache : SemanticCache Score Stability} (denies : resp.Denies) (same : state.cache = cache) :
    WritesFrom scoring [resp] cache
      (turn.cacheMissing scoring key now rcode soa queryName state).cache := by
  subst same
  unfold cacheMissing
  dsimp only
  split
  · exact .insertNxdomain ⟨resp, List.mem_singleton_self resp, denies⟩
  · exact .insertNegative fun ttl => ⟨resp, List.mem_singleton_self resp, denies⟩

theorem negativeArm_writes {rcode : Rcode} {soa : Option Record} {queryName : Name}
    (denies : resp.Denies) :
    WritesFrom scoring [resp] state.cache
      (turn.negativeArm scoring key now rcode soa queryName state).state.cache := by
  have cached : WritesFrom scoring [resp] state.cache
      (cachedNodata scoring key now turn rcode soa queryName state).cache :=
    .insertNegative fun ttl => ⟨resp, List.mem_singleton_self resp, denies⟩
  rcases negativeArm_cases scoring key now turn rcode soa queryName state with
    ⟨-, denied⟩ | ⟨-, ⟨-, deepened⟩ | ⟨-, concluded⟩⟩
  · rw [denied]
    exact cacheMissing_writes denies concludeNegative_cache
  · rw [deepened]
    exact cached
  · rw [concluded]
    dsimp only [Progress.state]
    rw [concludeNegative_cache]
    exact cached

/-- The response has the record, and it is data. -/
def Delivers (resp : Message) (record : Record) : Prop :=
  resp.Carries record ∧ record.rrType ≠ .RRSIG

theorem cacheGlue_writes {newZone : Name} {inputs : Inputs} {record : Record}
    (delivers : Delivers resp record) :
    WritesFrom scoring [resp] state.cache
      (cacheGlue scoring engine key now newZone inputs state record).cache := by
  unfold cacheGlue
  split_ifs
  · split
    · rename_i set built
      have data : ∀ other ∈ [record], other.rrType ≠ .RRSIG := by
        intro other only
        rw [List.mem_singleton.mp only]
        exact delivers.2
      obtain ⟨records, nonempty, _⟩ := RrSet.fromRecords_records built data
      refine .insertPositive fun ttl => carriedBy_singleton (records ▸ nonempty) fun other held => ?_
      change other ∈ set.records at held
      rw [records, List.mem_singleton] at held
      exact held ▸ delivers.1
    · exact .refl scoring _
  · exact .refl scoring _

theorem foldl_cacheGlue_writes {newZone : Name} {inputs : Inputs} {glue : List Record}
    (delivered : ∀ record ∈ glue, Delivers resp record) :
    WritesFrom scoring [resp] state.cache
      (glue.foldl (cacheGlue scoring engine key now newZone inputs) state).cache := by
  induction glue generalizing state with
  | nil => exact .refl scoring _
  | cons record glue inductionHypothesis =>
      exact (cacheGlue_writes (delivered record List.mem_cons_self)).trans
        (inductionHypothesis fun other member => delivered other (List.mem_cons_of_mem _ member))

theorem cachedReferral_writes {newZone : Name} {ns glue : List Record} {set : RrSet}
    (built : RrSet.fromRecords ns engine.maxTtlCap = .ok set)
    (servers : ∀ record ∈ ns, Delivers resp record)
    (addresses : ∀ record ∈ glue, Delivers resp record) :
    WritesFrom scoring [resp] state.cache
      (cachedReferral scoring engine key now turn newZone ns glue state set).cache := by
  obtain ⟨records, nonempty, _⟩ :=
    RrSet.fromRecords_records built fun record member => (servers record member).2
  have listed : WritesFrom scoring [resp] state.cache (WalkState.cachePositive scoring now
      { state with referrals := state.referrals + 1 } (.plain newZone .NS key.rrClass) set
      (state.sourced .ns ns) (turn.scoreInputs newZone) false).cache :=
    .insertPositive fun ttl => carriedBy_singleton (records ▸ nonempty) fun record held =>
      (servers record (records ▸ held)).1
  exact listed.trans (foldl_cacheGlue_writes addresses)

theorem referralArm_writes {newZone : Name} {ns glue : List Record}
    (servers : ∀ record ∈ ns, Delivers resp record)
    (addresses : ∀ record ∈ glue, Delivers resp record) :
    WritesFrom scoring [resp] state.cache
      (turn.referralArm scoring engine key now newZone ns glue state).state.cache := by
  rcases referralArm_cases scoring engine key now turn newZone ns glue state with
    ⟨error, refused⟩ | ⟨set, budget, _, built, ⟨error, refused⟩ | admitted⟩
  · rw [refused]
    exact .refl scoring _
  · rw [refused]
    exact cachedReferral_writes built servers addresses
  · rw [admitted, descend_cache]
    exact cachedReferral_writes built servers addresses

variable (scoring) in
/-- A turn that receives a response writes what the response carries. -/
theorem receive_writes (turn : Turn Score Stability Inputs) (engine : EngineConfig)
    (key : QueryKey) (now : Ts) (queryName : Name) (received : Received)
    (state : WalkState Score Stability) :
    WritesFrom scoring [received.message] state.cache
      (turn.receive scoring engine key now queryName received state).state.cache := by
  have taken := (state.exchange queryName received).kind_taken key
  rw [receive_eq]
  change WritesFrom scoring [received.message]
    (state.receiving (state.exchange queryName received)).cache _
  cases classified : (state.exchange queryName received).kind key with
  | answer records rrsigs =>
      exact .of_eq answerArm_cache
  | cname record rrsigs =>
      rw [classified] at taken
      exact cnameArm_writes (.inl taken.1.1)
  | dname record =>
      exact .of_eq dnameArm_cache
  | negative rcode soa =>
      have denies : received.message.Denies := Message.denies_of_negative
        (show classifyResponse received.message state.currentName key.rrType state.zone = _ from
          classified)
      exact negativeArm_writes denies
  | referral newZone ns glue =>
      rw [classified] at taken
      obtain ⟨_, _, servers, addresses⟩ := taken
      refine referralArm_writes (fun record member => ?_) (fun record member => ?_)
      · obtain ⟨found, typed, _⟩ := servers record member
        exact ⟨.inr (.inl found), typed ▸ by decide⟩
      · obtain ⟨found, typed⟩ := addresses record member
        refine ⟨.inr (.inr (.inl found)), ?_⟩
        rcases typed with typed | typed <;> exact typed ▸ by decide
  | empty =>
      exact .of_eq emptyArm_cache

end Writing

/-! ## What a turn adds to the answers -/

/-- The response carries what the turn adds, and while the walk goes on it adds
aliases only. -/
def Gains (resp : Message) (answers : List Sourced) (progress : Progress Score Stability) : Prop :=
  ∃ gained, progress.state.answers = answers ++ gained ∧
    (∀ answer ∈ gained, resp.Carries answer.record) ∧
    ((∃ state, progress = .running state) → ∀ answer ∈ gained, answer.record.rrType = .CNAME)

theorem Gains.of_eq {answers : List Sourced} {progress : Progress Score Stability}
    (same : progress.state.answers = answers) : Gains resp answers progress :=
  ⟨[], same.trans (List.append_nil answers).symm,
    fun _ member => absurd member List.not_mem_nil,
    fun _ _ member => absurd member List.not_mem_nil⟩

theorem answerArm_gains {records rrsigs : List Record}
    (carries : ∀ record ∈ records, resp.Carries record) :
    Gains resp state.answers (answerArm records rrsigs state) := by
  rcases answerArm_cases records rrsigs state with ⟨error, refused⟩ | ⟨keep, ttl, kept, -, taken⟩
  · rw [refused]
    exact .of_eq rfl
  · rw [taken]
    refine ⟨_, rfl, fun answer member => ?_, ?_⟩
    · obtain ⟨record, found, rfl⟩ := List.mem_map.mp member
      rw [kept] at found
      exact carries record (List.mem_filter.mp found).1
    · rintro ⟨_, ended⟩
      cases ended

theorem follow_answers {target : Name} : (state.follow engine target).answers = state.answers := by
  unfold WalkState.follow
  dsimp only
  split_ifs <;> rfl

theorem dnameArm_gains {record : Record} (answered : record ∈ resp.answers) :
    Gains resp state.answers (dnameArm engine record state) := by
  rcases dnameArm_cases engine record state with
    ⟨error, refused⟩ | ⟨target, synthesized, pointed, made, followed⟩
  · rw [refused]
    exact .of_eq rfl
  · rw [followed]
    refine ⟨[⟨makeCnameRecord state.currentName synthesized record.ttl, .synthesized,
      state.source⟩], follow_answers, fun answer only => ?_, fun _ answer only => ?_⟩
    · rw [List.mem_singleton.mp only]
      refine .inr (.inr (.inr ⟨record, answered, ?_⟩))
      simp [Record.implies, pointed, makeCnameRecord, made]
    · rw [List.mem_singleton.mp only]
      rfl

theorem emptyArm_gains {queryName : Name} :
    Gains resp state.answers (emptyArm queryName state) := by
  unfold emptyArm
  split_ifs <;> exact .of_eq rfl

theorem descend_answers {newZone : Name} {nsNames : List Name} {glue : List Record} :
    (turn.descend engine newZone nsNames glue state).state.answers = state.answers := by
  unfold descend
  dsimp only
  split_ifs <;> rfl

variable [LinearOrder Score]

theorem cnameArm_gains {record : Record} {rrsigs : List Record} (carries : resp.Carries record)
    (typed : record.rrType = .CNAME) :
    Gains resp state.answers (turn.cnameArm scoring engine key now record rrsigs state) := by
  rcases cnameArm_cases scoring engine key now turn record rrsigs state with
    ⟨error, refused⟩ | ⟨target, -, followed⟩
  · rw [refused]
    exact .of_eq rfl
  · rw [followed]
    refine ⟨[⟨record, .cname, state.source⟩], follow_answers, fun answer only => ?_,
      fun _ answer only => ?_⟩
    · rw [List.mem_singleton.mp only]
      exact carries
    · rw [List.mem_singleton.mp only]
      exact typed

theorem negativeArm_gains {rcode : Rcode} {soa : Option Record} {queryName : Name} :
    Gains resp state.answers (turn.negativeArm scoring key now rcode soa queryName state) := by
  rcases negativeArm_cases scoring key now turn rcode soa queryName state with
    ⟨-, denied⟩ | ⟨-, ⟨-, deepened⟩ | ⟨-, concluded⟩⟩
  · rw [denied]
    unfold cacheMissing
    dsimp only
    split <;> exact .of_eq (concludeNegative_eq rcode _ _).2.1
  · rw [deepened]
    exact .of_eq rfl
  · rw [concluded]
    exact .of_eq (concludeNegative_eq rcode _ _).2.1

theorem cachedReferral_answers {newZone : Name} {ns glue : List Record} {set : RrSet} :
    (cachedReferral scoring engine key now turn newZone ns glue state set).answers =
      state.answers := by
  obtain ⟨cache, filings, cached⟩ : ∃ cache filings,
      cachedReferral scoring engine key now turn newZone ns glue state set =
        { state with
          referrals := state.referrals + 1
          cache := cache
          filings := filings } := cachedReferral_eq set
  rw [cached]

theorem referralArm_gains {newZone : Name} {ns glue : List Record} :
    Gains resp state.answers
      (turn.referralArm scoring engine key now newZone ns glue state) := by
  rcases referralArm_cases scoring engine key now turn newZone ns glue state with
    ⟨error, refused⟩ | ⟨set, budget, _, _, ⟨error, refused⟩ | admitted⟩
  · rw [refused]
    exact .of_eq rfl
  · rw [refused]
    exact .of_eq cachedReferral_answers
  · rw [admitted]
    exact .of_eq (descend_answers.trans cachedReferral_answers)

variable (scoring) in
/-- A turn that receives a response gains what the response carries. -/
theorem receive_gains (turn : Turn Score Stability Inputs) (engine : EngineConfig)
    (key : QueryKey) (now : Ts) (queryName : Name) (received : Received)
    (state : WalkState Score Stability) :
    Gains received.message state.answers
      (turn.receive scoring engine key now queryName received state) := by
  have taken := (state.exchange queryName received).kind_taken key
  rw [receive_eq]
  change Gains received.message (state.receiving (state.exchange queryName received)).answers _
  cases classified : (state.exchange queryName received).kind key with
  | answer records rrsigs =>
      rw [classified] at taken
      exact answerArm_gains fun record member => .inl (taken.1 record member).1
  | cname record rrsigs =>
      rw [classified] at taken
      exact cnameArm_gains (.inl taken.1.1) taken.1.2.2
  | dname record =>
      rw [classified] at taken
      exact dnameArm_gains taken.1
  | negative rcode soa => exact negativeArm_gains
  | referral newZone ns glue => exact referralArm_gains
  | empty => exact emptyArm_gains

end Turn

/-! ## What the end of a resolution writes -/

/-- Every answer is carried by a response, and those that are no aliases by the
same one. -/
structure Backed (responses : List Message) (answers : List Sourced) : Prop where
  each : ∀ answer ∈ answers, ∃ resp ∈ responses, resp.Carries answer.record
  together : (∀ answer ∈ answers, answer.record.rrType = .CNAME) ∨
    ∃ resp ∈ responses, ∀ answer ∈ answers, answer.record.rrType ≠ .CNAME →
      resp.Carries answer.record

/-- The answers are backed by the responses, and so is a negative outcome. -/
structure Resolution.BackedBy (responses : List Message) (res : Resolution) : Prop where
  answers : Backed responses res.answers
  denied : res.rcode.isNxdomain = true ∨ res.answers = [] → ∃ resp ∈ responses, resp.Denies

/-- Records of one type make up a set that one response carries. -/
theorem Backed.carries {responses : List Message} {answers : List Sourced}
    (backed : Backed responses answers) {rrType : RrType} {records : List Sourced}
    (typed : ∀ record ∈ records, record ∈ answers ∧ record.record.rrType = rrType)
    (nonempty : records ≠ []) (single : rrType = .CNAME → records.length ≤ 1) :
    ∃ resp ∈ responses, ∀ record ∈ records, resp.Carries record.record := by
  obtain ⟨first, rest, rfl⟩ := List.exists_cons_of_ne_nil nonempty
  by_cases aliases : rrType = .CNAME
  · -- An alias set has one record, so the response that carries it carries the set.
    obtain rfl : rest = [] :=
      List.length_eq_zero_iff.mp (Nat.le_zero.mp (Nat.le_of_succ_le_succ (single aliases)))
    obtain ⟨resp, member, carries⟩ := backed.each first (typed first List.mem_cons_self).1
    refine ⟨resp, member, fun record only => ?_⟩
    rw [List.mem_singleton.mp only]
    exact carries
  · rcases backed.together with all | ⟨resp, member, carries⟩
    · obtain ⟨answer, same⟩ := typed first List.mem_cons_self
      exact absurd (same.symm.trans (all first answer)) aliases
    · refine ⟨resp, member, fun record held => ?_⟩
      obtain ⟨answer, same⟩ := typed record held
      exact carries record answer (same ▸ aliases)

theorem foldl_addRrsig_records (sigs : List Sourced) (set : RrSet) :
    (sigs.foldl (fun set sig => set.addRrsig sig.record) set).records = set.records := by
  induction sigs generalizing set with
  | nil => rfl
  | cons sig sigs inductionHypothesis => exact inductionHypothesis (set.addRrsig sig.record)

section Resolve

variable [LinearOrder Score] {scoring : Scoring Score Stability Inputs} {engine : EngineConfig}
  {key : QueryKey} {res : Resolution} {inputs : Inputs} {now : Ts} {responses : List Message}
  {state : WalkState Score Stability}

theorem cacheGroup_writes (backed : Backed responses res.answers)
    {group : (Name × RrType) × List Sourced}
    (grouped : group ∈ (groupAnswers res.answers).toList) :
    WritesFrom scoring responses state.cache
      (cacheGroup scoring engine key res inputs now state group).cache := by
  have typed : ∀ record ∈ group.2, record ∈ res.answers ∧ record.record.rrType = group.1.2 := by
    intro record member
    obtain ⟨answer, viewed⟩ := mem_of_mem_group grouped member
    exact ⟨answer, congrArg Prod.snd viewed⟩
  unfold cacheGroup
  split_ifs with signatures
  · exact .refl scoring _
  · split
    · exact .refl scoring _
    · rename_i set built
      have data : ∀ record ∈ group.2.map Sourced.record, record.rrType ≠ .RRSIG := by
        intro record member
        obtain ⟨sourced, held, rfl⟩ := List.mem_map.mp member
        exact (typed sourced held).2 ▸ signatures
      obtain ⟨records, nonempty, single⟩ := RrSet.fromRecords_records built data
      have aliases : group.1.2 = .CNAME → group.2.length ≤ 1 := by
        intro cname
        rw [← List.length_map Sourced.record]
        refine single fun record member => ?_
        obtain ⟨sourced, held, rfl⟩ := List.mem_map.mp member
        exact (typed sourced held).2.trans cname
      obtain ⟨resp, member, carries⟩ := backed.carries typed
        (fun empty => nonempty (List.map_eq_nil_iff.mpr empty)) aliases
      refine .insertPositive fun ttl => ?_
      have kept := (foldl_addRrsig_records
        (res.rrsigs.filter fun sig => coversType sig.record group.1.2)
        { set with validated := res.validated }).trans records
      refine ⟨fun empty => nonempty (kept.symm.trans empty), resp, member, fun record held => ?_⟩
      obtain ⟨sourced, found, rfl⟩ := List.mem_map.mp (kept ▸ held)
      exact carries sourced found

theorem foldl_cacheGroup_writes (backed : Backed responses res.answers)
    {groups : List ((Name × RrType) × List Sourced)}
    (grouped : ∀ group ∈ groups, group ∈ (groupAnswers res.answers).toList) :
    WritesFrom scoring responses state.cache
      (groups.foldl (cacheGroup scoring engine key res inputs now) state).cache := by
  induction groups generalizing state with
  | nil => exact .refl scoring _
  | cons group groups inductionHypothesis =>
      exact (cacheGroup_writes backed (grouped group List.mem_cons_self)).trans
        (inductionHypothesis fun other member => grouped other (List.mem_cons_of_mem _ member))

theorem cacheOutcome_writes (backed : res.BackedBy responses) :
    WritesFrom scoring responses state.cache
      (cacheOutcome scoring key res inputs now state).cache := by
  unfold cacheOutcome
  dsimp only
  split_ifs with missing unanswered
  · have denied := backed.denied (.inl missing)
    split
    · exact .insertNxdomain denied
    · exact .insertNegative fun _ => denied
  · exact .insertNegative fun _ => backed.denied (.inr (List.isEmpty_iff.mp unanswered))
  · exact .refl scoring _

variable (state) in
/-- What is cached at the end of a resolution, its responses back. -/
theorem cacheResolution_writes (backed : res.BackedBy responses) :
    WritesFrom scoring responses state.cache
      (cacheResolution scoring engine key res inputs now state).cache :=
  (foldl_cacheGroup_writes backed.answers fun _ member => member).trans
    (cacheOutcome_writes backed)

end Resolve

/-! ## Backed resolutions -/

theorem Resolution.BackedBy.mono {responses more : List Message} {res : Resolution}
    (backed : res.BackedBy responses) (subset : ∀ resp ∈ responses, resp ∈ more) :
    res.BackedBy more := by
  refine ⟨⟨fun answer member => ?_, ?_⟩, fun outcome => ?_⟩
  · obtain ⟨resp, received, carries⟩ := backed.answers.each answer member
    exact ⟨resp, subset resp received, carries⟩
  · rcases backed.answers.together with aliases | ⟨resp, received, carries⟩
    · exact .inl aliases
    · exact .inr ⟨resp, subset resp received, carries⟩
  · obtain ⟨resp, received, denies⟩ := backed.denied outcome
    exact ⟨resp, subset resp received, denies⟩

/-- What a forwarder's response is turned into, the response backs. -/
theorem responseToResolution_backed (key : QueryKey) (resp : Message) :
    (responseToResolution key resp).BackedBy [resp] := by
  have carried : ∀ answer ∈ (responseToResolution key resp).answers,
      resp.Carries answer.record := by
    intro answer member
    obtain ⟨record, kept, rfl⟩ := List.mem_map.mp member
    exact .inl (List.mem_filter.mp kept).1
  refine ⟨⟨fun answer member => ⟨resp, List.mem_singleton_self resp, carried answer member⟩,
    .inr ⟨resp, List.mem_singleton_self resp, fun answer member _ => carried answer member⟩⟩, ?_⟩
  rintro (missing | unanswered)
  · refine ⟨resp, List.mem_singleton_self resp, .inl ?_⟩
    simp only [responseToResolution] at missing
    split_ifs at missing with small
    · have low : resp.rcode.toUInt8 = 3 := beq_iff_eq.mp missing
      have value : resp.rcode.toNat % 256 = 3 := congrArg UInt8.toNat low
      refine UInt16.toNat_inj.mp ?_
      rw [Nat.mod_eq_of_lt small] at value
      exact value
    · cases missing
  · exact ⟨resp, List.mem_singleton_self resp, .inr (.inr (List.map_eq_nil_iff.mp unanswered))⟩

section Forward

variable {crypto : Crypto} {engine : EngineConfig} {dnssecAnchored : Bool} {key : QueryKey}

/-- The responses a forwarded resolution receives. -/
def Forwarding.received (crypto : Crypto) (engine : EngineConfig) (dnssecAnchored : Bool)
    (key : QueryKey) (forwarding : Forwarding) : List Message :=
  match forwardOnce crypto engine dnssecAnchored key forwarding.primaryValidation
      forwarding.primary with
  | .error _ => []
  | .ok res =>
      forwarding.primary.toOption.toList ++
        if !forwarding.forced && forwarding.hasFallback &&
            forwarding.looksPoisoned (answerAddresses res) then
          forwarding.fallback.toOption.toList
        else []

theorem forwardOnce_backed {validation : Validation} {exchanged : Except Error Message}
    {res : Resolution}
    (forwarded : forwardOnce crypto engine dnssecAnchored key validation exchanged = .ok res) :
    res.BackedBy exchanged.toOption.toList := by
  cases exchanged with
  | error error => cases forwarded
  | ok resp =>
      obtain rfl := Except.ok.inj forwarded
      have backed := responseToResolution_backed key resp
      dsimp only
      split_ifs
      · exact ⟨backed.answers, backed.denied⟩
      · exact backed

/-- What a forwarded resolution returns, the responses it received back. -/
theorem forwardResolve_backed {forwarding : Forwarding} {res : Resolution}
    (forwarded : forwardResolve crypto engine dnssecAnchored key forwarding = .ok res) :
    res.BackedBy (forwarding.received crypto engine dnssecAnchored key) := by
  unfold forwardResolve at forwarded
  unfold Forwarding.received
  dsimp only at forwarded
  cases once : forwardOnce crypto engine dnssecAnchored key forwarding.primaryValidation
      forwarding.primary with
  | error error =>
      rw [once] at forwarded
      cases forwarded
  | ok first =>
      rw [once] at forwarded
      dsimp only at forwarded ⊢
      split_ifs at forwarded with poisoned
      · rw [if_pos poisoned]
        cases again : forwardOnce crypto engine dnssecAnchored key forwarding.fallbackValidation
            forwarding.fallback with
        | ok second =>
            rw [again] at forwarded
            obtain rfl := Except.ok.inj forwarded
            exact (forwardOnce_backed again).mono fun _ => List.mem_append_right _
        | error error =>
            rw [again] at forwarded
            obtain rfl := Except.ok.inj forwarded
            exact (forwardOnce_backed once).mono fun _ => List.mem_append_left _
      · obtain rfl := Except.ok.inj forwarded
        exact (forwardOnce_backed once).mono fun _ => List.mem_append_left _

end Forward

/-- The responses a walk has received. -/
def WalkState.responses (state : WalkState Score Stability) : List Message :=
  state.exchanges.map fun exchange => exchange.received.message

theorem EndsNegative.denied {key : QueryKey} {exchanges : List Exchange} {missing : Bool}
    {Asked : Exchange → Prop} (ends : EndsNegative key exchanges missing Asked) :
    ∃ resp ∈ exchanges.map fun exchange => exchange.received.message, resp.Denies := by
  obtain ⟨last, rcode, soa, latest, classified, -⟩ := ends
  exact ⟨last.received.message, List.mem_map_of_mem (List.mem_of_getLast? latest),
    Message.denies_of_negative classified⟩

/-- What a walk returns whose answers are backed. -/
theorem WalkState.Closed.resolution_backed {key : QueryKey} {state : WalkState Score Stability}
    (closed : state.Closed key) (backed : Backed state.responses state.answers) (now : Ts) :
    (state.resolution key now).BackedBy state.responses := by
  refine ⟨backed, fun outcome => ?_⟩
  by_cases missing : state.rcode.isNxdomain = true
  · exact (closed.nxdomain missing).denied
  · have unanswered : state.answers = [] := outcome.resolve_left missing
    exact (closed.nodata (Bool.not_eq_true _ ▸ missing) unanswered).denied

end RecurseX
