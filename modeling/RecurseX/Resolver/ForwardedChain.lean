import RecurseX.Dname
import RecurseX.Resolver.Observations
import RecurseX.Resolver.Response
import RecurseX.Resolver.Servers
import RecurseX.Resolver.Signatures

/-!
# Which records of a forwarder's response are kept

The iterative walk takes from an answer section what is about the name it asks for. A
forwarder's answer section is taken whole: every set of it is cached under its own
owner, and every record of it is served. `forwarded_chain_iff` says when nothing but the
alias chain of the query name is.
-/

namespace RecurseX

open Library Library.PrefixedList Std

/-- The names of the alias chain from `start`: what the CNAME records of the answers, and
the DNAME records that apply, make of a name on it. -/
inductive OnChain (answers : List Record) (start : Name) : Name → Prop where
  | start : OnChain answers start start
  | cname {record : Record} {target : Name} (listed : record ∈ answers)
      (payload : record.rdata = .cname target) (reached : OnChain answers start record.name) :
      OnChain answers start target
  | dname {record : Record} {name target : Name} {above : List Bytes} (listed : record ∈ answers)
      (payload : record.rdata = .dname target) (reached : OnChain answers start name)
      (applies : LabelsAbove name record.name above) :
      OnChain answers start ⟨code (above ++ target.labels)⟩

/-- The type of the set that a record belongs to, which a signature covers. -/
def Record.setType (record : Record) : RrType :=
  match record.rdata with
  | .rrsig typeCovered _ _ _ _ _ _ _ _ => typeCovered
  | _ => record.rrType

/-- The record is about a name on the chain, or of a DNAME set that applies to one. -/
def BelongsToChain (answers : List Record) (start : Name) (record : Record) : Prop :=
  OnChain answers start record.name ∨
    record.setType = .DNAME ∧ ∃ dname ∈ answers, dname.name = record.name ∧
      (∃ target, dname.rdata = .dname target) ∧
      ∃ name above, OnChain answers start name ∧ LabelsAbove name dname.name above

/-- The records of the set that an operation puts into the cache. -/
def CacheOp.setRecords {Score Stability Inputs : Type} :
    CacheOp Score Stability Inputs → List Record
  | .insertPositive _ set _ _ _ => set.records ++ set.rrsigs
  | _ => []

/-- What is asked of the resolution from a forwarder's response: only records of the chain
are cached, and only such records are served to a client with this key. -/
structure KeepsToChain {Score Stability Inputs : Type} (answers : List Record) (key : QueryKey)
    (dnssecAnchored : Bool) (writes : List (CacheOp Score Stability Inputs)) (res : Resolution) :
    Prop where
  cached : ∀ op ∈ writes, ∀ record ∈ op.setRecords, BelongsToChain answers key.name record
  served : ∀ query : Message, (query.edns.map Edns.dnssecOk).getD false = key.wantDnssec →
    ∀ record ∈ (buildResponse dnssecAnchored query res).answers,
      BelongsToChain answers key.name record

/-- A signature that is cached with a set it covers. A set with two aliases is not cached. -/
def Attached (answers : List Record) (sig : Record) : Prop :=
  ∃ record ∈ dataRecords answers, coversType sig record.rrType = true ∧
    (record.rrType = .CNAME ∨ record.rrType = .DNAME →
      ((dataRecords answers).filter fun other =>
        (other.name, other.rrType) = (record.name, record.rrType)).length ≤ 1)

/-- The records of the answer section that are kept are about the chain: all data, and the
signatures that the client wants or that go with a set. -/
structure ChainOnly (key : QueryKey) (answers : List Record) : Prop where
  data : ∀ record ∈ dataRecords answers, BelongsToChain answers key.name record
  signatures : ∀ sig ∈ signatures answers, key.wantDnssec = true ∨ Attached answers sig →
    BelongsToChain answers key.name sig

/-! ## What a resolution caches -/

section Kept

variable {Score Stability Inputs : Type} {crypto : Crypto} {engine : EngineConfig}
  {dnssecAnchored : Bool} {key : QueryKey} {validation : Validation} {servedAt : Ts}
  {inputs : Inputs} {now : Ts} {resp : Message} {res : Resolution} {set : RrSet}

theorem groupWrite_eq (group : (Name × RrType) × List Sourced) :
    (res.groupWrite engine key inputs now group : Option (CacheOp Score Stability Inputs)) =
      (storedSet engine res group).map fun set =>
        .insertPositive (groupKey key res group) set now inputs res.validated := by
  unfold Resolution.groupWrite storedSet
  split_ifs
  · rfl
  · cases RrSet.fromRecords (group.2.map Sourced.record) engine.maxTtlCap <;> rfl

/-- A stored set has the records of its group. -/
theorem storedSet_records {owner : Name} {rrType : RrType} {answers : List Sourced}
    (grouped : ((owner, rrType), answers) ∈ (groupAnswers res.answers).toList)
    (stored : storedSet engine res ((owner, rrType), answers) = some set) :
    set.records = answers.map Sourced.record := by
  unfold storedSet at stored
  split_ifs at stored with signatures
  obtain ⟨-, typed⟩ := group_typed grouped
  cases built : RrSet.fromRecords (answers.map Sourced.record) engine.maxTtlCap with
  | error error =>
      rw [built] at stored
      cases stored
  | ok plain =>
      rw [built] at stored
      obtain rfl := Option.some.inj stored
      rw [foldl_addRrsig_records]
      exact (RrSet.fromRecords_records built fun record member =>
        typed record member ▸ signatures).1

theorem outcomeWrite_setRecords {op : CacheOp Score Stability Inputs}
    (written : op ∈ res.outcomeWrite key inputs now) : op.setRecords = [] := by
  unfold Resolution.outcomeWrite at written
  dsimp only at written
  split_ifs at written
  · obtain rfl := Option.mem_some.mp written
    rfl
  · obtain rfl := Option.mem_some.mp written
    rfl
  · obtain rfl := Option.mem_some.mp written
    rfl
  · cases written

/-- The records that are cached: those of a set that is, and the signatures that cover it. -/
theorem mem_setRecords_iff {record : Record} :
    (∃ op ∈ (res.writes engine key inputs now : List (CacheOp Score Stability Inputs)),
      record ∈ op.setRecords) ↔
    ∃ owner rrType, res.Caches owner rrType ∧
      ((∃ answer ∈ res.answers, answer.record = record ∧ record.name = owner ∧
          record.rrType = rrType) ∨
        ∃ sig ∈ res.rrsigs, sig.record = record ∧ coversType record rrType = true) := by
  have ofGroup {owner : Name} {rrType : RrType} {answers : List Sourced} {set : RrSet}
      (grouped : ((owner, rrType), answers) ∈ (groupAnswers res.answers).toList)
      (stored : storedSet engine res ((owner, rrType), answers) = some set) :
      record ∈ set.records ++ set.rrsigs ↔
        (∃ answer ∈ res.answers, answer.record = record ∧ record.name = owner ∧
          record.rrType = rrType) ∨
        ∃ sig ∈ res.rrsigs, sig.record = record ∧ coversType record rrType = true := by
    rw [storedSet_records grouped stored, storedSet_rrsigs grouped stored,
      (mem_groupAnswers.mp grouped).2]
    simp only [List.mem_append, List.mem_map, List.mem_filter, decide_eq_true_eq, Prod.mk.injEq]
    constructor
    · rintro (⟨answer, ⟨listed, owned, typed⟩, rfl⟩ | ⟨⟨sig, listed, rfl⟩, covers⟩)
      · exact .inl ⟨answer, listed, rfl, owned, typed⟩
      · exact .inr ⟨sig, listed, rfl, covers⟩
    · rintro (⟨answer, listed, rfl, owned, typed⟩ | ⟨sig, listed, rfl, covers⟩)
      · exact .inl ⟨answer, ⟨listed, owned, typed⟩, rfl⟩
      · exact .inr ⟨⟨sig, listed, rfl⟩, covers⟩
  constructor
  · rintro ⟨op, written, kept⟩
    rcases List.mem_append.mp written with positive | negative
    · obtain ⟨⟨⟨owner, rrType⟩, answers⟩, grouped, produced⟩ := List.mem_filterMap.mp positive
      rw [groupWrite_eq] at produced
      obtain ⟨set, stored, rfl⟩ := Option.map_eq_some_iff.mp produced
      exact ⟨owner, rrType,
        exists_groupFiled_iff.mp ⟨answers, grouped, exists_storedSet_iff.mp ⟨set, stored⟩⟩,
        (ofGroup grouped stored).mp kept⟩
    · rw [outcomeWrite_setRecords (Option.mem_toList.mp negative)] at kept
      cases kept
  · rintro ⟨owner, rrType, caches, kept⟩
    have files : ∃ answers, ((owner, rrType), answers) ∈ (groupAnswers res.answers).toList ∧
        GroupFiled engine ((owner, rrType), answers) := exists_groupFiled_iff.mpr caches
    obtain ⟨answers, grouped, filed⟩ := files
    obtain ⟨set, stored⟩ := exists_storedSet_iff.mpr filed
    refine ⟨.insertPositive (groupKey key res ((owner, rrType), answers)) set now inputs
      res.validated, List.mem_append.mpr (.inl (List.mem_filterMap.mpr ⟨_, grouped, ?_⟩)),
      (ofGroup grouped stored).mpr kept⟩
    rw [groupWrite_eq, stored]
    rfl

/-! ## What a forwarded resolution takes over -/

/-- The records of the resolution are those of the answer section. -/
structure TakenWhole (records : List Record) (res : Resolution) : Prop where
  answers : res.answers.map Sourced.record = dataRecords records
  rrsigs : res.rrsigs.map Sourced.record = signatures records

theorem forwardOnce_takenWhole
    (forwarded : forwardOnce crypto engine dnssecAnchored key validation (.ok resp) = .ok res) :
    TakenWhole resp.answers res := by
  have whole : TakenWhole resp.answers (responseToResolution key resp) := by
    constructor
    · simp only [responseToResolution, List.map_map]
      exact List.map_id _
    · simp only [responseToResolution, List.map_map]
      exact List.map_id _
  obtain rfl := Except.ok.inj forwarded
  dsimp only
  split_ifs
  · exact ⟨whole.answers, whole.rrsigs⟩
  · exact whole

theorem TakenWhole.validateFresh {answers : List Record} (whole : TakenWhole answers res) :
    TakenWhole answers
      (validateFresh crypto engine dnssecAnchored key validation servedAt res) := by
  unfold RecurseX.validateFresh
  dsimp only
  split_ifs
  · exact ⟨whole.answers, whole.rrsigs⟩
  · exact ⟨whole.answers, whole.rrsigs⟩

/-- The RRsets that are cached, read off the answer section. -/
theorem TakenWhole.caches_iff {records : List Record} (whole : TakenWhole records res)
    {owner : Name} {rrType : RrType} : res.Caches owner rrType ↔
      ∃ record ∈ dataRecords records, record.name = owner ∧ record.rrType = rrType ∧
        (rrType = .CNAME ∨ rrType = .DNAME → ((dataRecords records).filter fun other =>
          (other.name, other.rrType) = (owner, rrType)).length ≤ 1) := by
  have same : ((dataRecords records).filter fun other =>
      (other.name, other.rrType) = (owner, rrType)).length =
      (res.answers.filter fun answer =>
        (answer.record.name, answer.record.rrType) = (owner, rrType)).length := by
    rw [← whole.answers, List.filter_map, List.length_map]
    rfl
  rw [same]
  constructor
  · rintro ⟨-, ⟨answer, listed, owned, typed⟩, single⟩
    exact ⟨answer.record, whole.answers ▸ List.mem_map_of_mem listed, owned, typed, single⟩
  · rintro ⟨record, listed, owned, typed, single⟩
    have data : record.rrType ≠ .RRSIG := by simpa using (List.mem_filter.mp listed).2
    rw [← whole.answers] at listed
    obtain ⟨answer, member, rfl⟩ := List.mem_map.mp listed
    exact ⟨typed ▸ data, ⟨answer, member, owned, typed⟩, single⟩

/-- The signatures that are cached. -/
theorem TakenWhole.attached_iff {records : List Record} (whole : TakenWhole records res)
    {sig : Record} : Attached records sig ↔
      ∃ owner rrType, res.Caches owner rrType ∧ coversType sig rrType = true := by
  simp only [whole.caches_iff]
  constructor
  · rintro ⟨record, listed, covers, single⟩
    exact ⟨record.name, record.rrType, ⟨record, listed, rfl, rfl, single⟩, covers⟩
  · rintro ⟨owner, rrType, ⟨record, listed, rfl, rfl, single⟩, covers⟩
    exact ⟨record, listed, covers, single⟩

/-- Every record that is cached is data of the answer section or a signature that goes with it. -/
theorem TakenWhole.mem_of_cached {records : List Record} (whole : TakenWhole records res)
    {op : CacheOp Score Stability Inputs} (written : op ∈ res.writes engine key inputs now)
    {record : Record} (held : record ∈ op.setRecords) : record ∈ dataRecords records ∨
      record ∈ signatures records ∧ Attached records record := by
  obtain ⟨owner, rrType, caches, ⟨answer, listed, rfl, -⟩ | ⟨sig, listed, rfl, covers⟩⟩ :=
    mem_setRecords_iff.mp ⟨op, written, held⟩
  · exact .inl (whole.answers ▸ List.mem_map_of_mem listed)
  · exact .inr ⟨whole.rrsigs ▸ List.mem_map_of_mem listed,
      whole.attached_iff.mpr ⟨owner, rrType, caches, covers⟩⟩

/-- The records that a client is served, but for the TTL. -/
theorem TakenWhole.served_iff {records : List Record} (whole : TakenWhole records res)
    {query : Message} {record : Record} :
    record ∈ (buildResponse dnssecAnchored query res).answers ↔
      ∃ original, record = { original with ttl := res.ttl } ∧ (original ∈ dataRecords records ∨
        (query.edns.map Edns.dnssecOk).getD false = true ∧ original ∈ signatures records) := by
  have stamped (sourced : List Sourced) :
      (record ∈ sourced.map fun sourced => { sourced.record with ttl := res.ttl }) ↔
        ∃ original, record = { original with ttl := res.ttl } ∧
          original ∈ sourced.map Sourced.record := by
    rw [List.mem_map]
    constructor
    · rintro ⟨sourced, listed, rfl⟩
      exact ⟨sourced.record, rfl, List.mem_map_of_mem listed⟩
    · rintro ⟨_, rfl, listed⟩
      obtain ⟨sourced, member, rfl⟩ := List.mem_map.mp listed
      exact ⟨sourced, member, rfl⟩
  simp only [buildResponse]
  rw [List.mem_append, stamped, whole.answers]
  constructor
  · rintro (⟨original, same, listed⟩ | signature)
    · exact ⟨original, same, .inl listed⟩
    · split_ifs at signature with wanted
      · obtain ⟨original, same, listed⟩ := (stamped res.rrsigs).mp signature
        exact ⟨original, same, .inr ⟨wanted, whole.rrsigs ▸ listed⟩⟩
      · cases signature
  · rintro ⟨original, same, listed | ⟨wanted, listed⟩⟩
    · exact .inl ⟨original, same, listed⟩
    · rw [if_pos wanted, stamped, whole.rrsigs]
      exact .inr ⟨original, same, listed⟩

/-- The TTL of a record does not matter to what it is about. -/
theorem belongsToChain_ttl {records : List Record} {start : Name} {record : Record} {ttl : UInt32} :
    BelongsToChain records start { record with ttl := ttl } ↔
      BelongsToChain records start record := Iff.rfl

/-- The resolution keeps to the chain exactly when the answer section does, in what is kept. -/
theorem TakenWhole.keepsToChain_iff {records : List Record} (whole : TakenWhole records res) :
    KeepsToChain records key dnssecAnchored
        (res.writes engine key inputs now : List (CacheOp Score Stability Inputs)) res ↔
      ChainOnly key records := by
  constructor
  · intro keeps
    obtain ⟨query, asks⟩ : ∃ query : Message,
        (query.edns.map Edns.dnssecOk).getD false = key.wantDnssec :=
      ⟨{ Message.default with edns := some ⟨0, 0, 0, key.wantDnssec, []⟩ }, rfl⟩
    have served {record : Record} (kept : record ∈ dataRecords records ∨
        key.wantDnssec = true ∧ record ∈ signatures records) :
        BelongsToChain records key.name record :=
      belongsToChain_ttl.mp (keeps.served query asks { record with ttl := res.ttl }
        (whole.served_iff.mpr ⟨record, rfl, kept.imp_right fun both => ⟨asks ▸ both.1, both.2⟩⟩))
    refine ⟨fun record listed => served (.inl listed), ?_⟩
    rintro sig listed (wanted | attached)
    · exact served (.inr ⟨wanted, listed⟩)
    · obtain ⟨owner, rrType, caches, covers⟩ := whole.attached_iff.mp attached
      rw [← whole.rrsigs] at listed
      obtain ⟨sourced, member, rfl⟩ := List.mem_map.mp listed
      obtain ⟨op, written, held⟩ :=
        mem_setRecords_iff.mpr ⟨owner, rrType, caches, .inr ⟨sourced, member, rfl, covers⟩⟩
      exact keeps.cached op written _ held
  · intro only
    constructor
    · intro op written record held
      rcases whole.mem_of_cached written held with data | ⟨signature, attached⟩
      · exact only.data record data
      · exact only.signatures record signature (.inr attached)
    · intro query asks record answered
      obtain ⟨original, rfl, data | ⟨wanted, signature⟩⟩ := whole.served_iff.mp answered
      · exact belongsToChain_ttl.mpr (only.data original data)
      · exact belongsToChain_ttl.mpr
          (only.signatures original signature (.inl (asks.symm.trans wanted)))

end Kept

/-- Forwarded answers: what is cached and served of a response is about the alias chain of the
query name exactly when all data of its answer section is, and all its signatures that the client
wants or that cover a cached set. -/
theorem forwarded_chain_iff {Score Stability Inputs : Type} (crypto : Crypto)
    (engine : EngineConfig) (dnssecAnchored : Bool) (key : QueryKey)
    (validation again : Validation) (servedAt : Ts) (inputs : Inputs) (now : Ts) (resp : Message) :
    (∀ res, forwardOnce crypto engine dnssecAnchored key validation (.ok resp) = .ok res →
      KeepsToChain resp.answers key dnssecAnchored
        ((validateFresh crypto engine dnssecAnchored key again servedAt res).writes engine key
          inputs now : List (CacheOp Score Stability Inputs))
        (validateFresh crypto engine dnssecAnchored key again servedAt res)) ↔
      ChainOnly key resp.answers := by
  constructor
  · intro keeps
    have forwarded : ∃ res, forwardOnce crypto engine dnssecAnchored key validation (.ok resp) =
        .ok res := ⟨_, rfl⟩
    obtain ⟨res, forwarded⟩ := forwarded
    exact (forwardOnce_takenWhole forwarded).validateFresh.keepsToChain_iff.mp
      (keeps res forwarded)
  · intro only res forwarded
    exact (forwardOnce_takenWhole forwarded).validateFresh.keepsToChain_iff.mpr only

/-- Whichever group answered, a response about the chain alone leaves nothing else. -/
theorem forwardResolve_keepsToChain {Score Stability Inputs : Type} {crypto : Crypto}
    {engine : EngineConfig} {dnssecAnchored : Bool} {key : QueryKey} {again : Validation}
    {servedAt : Ts} {inputs : Inputs} {now : Ts} {forwarding : Forwarding} {res : Resolution}
    (forwarded : forwardResolve crypto engine dnssecAnchored key forwarding = .ok res)
    (only : ∀ resp, forwarding.primary = .ok resp ∨ forwarding.fallback = .ok resp →
      ChainOnly key resp.answers) :
    ∃ resp, (forwarding.primary = .ok resp ∨ forwarding.fallback = .ok resp) ∧
      KeepsToChain resp.answers key dnssecAnchored
        ((validateFresh crypto engine dnssecAnchored key again servedAt res).writes engine key
          inputs now : List (CacheOp Score Stability Inputs))
        (validateFresh crypto engine dnssecAnchored key again servedAt res) := by
  have kept {validation : Validation} {exchanged : Except Error Message}
      (once : forwardOnce crypto engine dnssecAnchored key validation exchanged = .ok res) :
      ∃ resp, exchanged = .ok resp ∧ TakenWhole resp.answers res := by
    cases exchanged with
    | error error => cases once
    | ok resp => exact ⟨resp, rfl, forwardOnce_takenWhole once⟩
  rcases forwardResolve_cases forwarded with once | once
  · obtain ⟨resp, answered, whole⟩ := kept once
    exact ⟨resp, .inl answered, whole.validateFresh.keepsToChain_iff.mpr (only resp (.inl answered))⟩
  · obtain ⟨resp, answered, whole⟩ := kept once
    exact ⟨resp, .inr answered, whole.validateFresh.keepsToChain_iff.mpr (only resp (.inr answered))⟩

/-! ## An address beside the one asked for -/

/-- Without aliases the chain is the query name. -/
theorem OnChain.eq_start {answers : List Record} {start name : Name}
    (reached : OnChain answers start name)
    (plain : ∀ record ∈ answers, record.rdata.form ≠ .cname ∧ record.rdata.form ≠ .dname) :
    name = start := by
  cases reached with
  | start => rfl
  | cname listed payload _ => exact absurd (congrArg RData.form payload) (plain _ listed).1
  | dname listed payload _ _ => exact absurd (congrArg RData.form payload) (plain _ listed).2

/-- An address of `org`. -/
def strayRecord : Record := ⟨⟨[3, 111, 114, 103, 0]⟩, .A, .IN, 3600, .a (ipv4 192 0 2 66)⟩

/-- A forwarder's answer to a query for the address of `www.com`. -/
def strayReply : Received where
  message := wwwReply [wwwRecord, strayRecord] [] [] none
  parsed := ⟨(wwwReply [wwwRecord, strayRecord] [] [] none).toBytes.toOption.getD [],
    by decide⟩

/-- An engine that does not validate. -/
def forwardingEngine : EngineConfig := { validatingEngine with dnssec := false }

/-- The resolution from that answer. -/
def strayResolution : Resolution :=
  validateFresh plainCrypto forwardingEngine false (wwwQuery none) keyedValidation 0
    (responseToResolution (wwwQuery none) strayReply.message)

/-- The forwarder adds an address of `org`, which nobody asked for; it is cached and served. -/
theorem stray_address_is_kept :
    responseMatchesQuery dnssecQuery strayReply.message = true ∧
    forwardOnce plainCrypto forwardingEngine false (wwwQuery none) keyedValidation
      (.ok strayReply.message) = .ok (responseToResolution (wwwQuery none) strayReply.message) ∧
    (∃ op ∈ (strayResolution.writes forwardingEngine (wwwQuery none) () 0 :
      List (CacheOp Nat Nat Unit)), strayRecord ∈ op.setRecords) ∧
    ¬ KeepsToChain strayReply.message.answers (wwwQuery none) false
      (strayResolution.writes forwardingEngine (wwwQuery none) () 0 : List (CacheOp Nat Nat Unit))
      strayResolution := by
  refine ⟨by decide, rfl, ?_, fun keeps => ?_⟩
  · have caches : strayResolution.Caches ⟨[3, 111, 114, 103, 0]⟩ .A :=
      ⟨by decide, by decide, by decide⟩
    exact mem_setRecords_iff.mpr ⟨_, _, caches,
      .inl ⟨_, List.mem_cons_of_mem _ List.mem_cons_self, rfl, rfl, rfl⟩⟩
  · have served := keeps.served { dnssecQuery with edns := none } rfl strayRecord
      (List.mem_cons_of_mem _ List.mem_cons_self)
    rcases served with reached | ⟨ofDname, -⟩
    · have start := reached.eq_start (by decide)
      exact absurd start (by decide)
    · exact absurd ofDname (by decide)

end RecurseX
