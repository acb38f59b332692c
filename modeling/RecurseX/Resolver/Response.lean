import RecurseX.Dnssec.Chain
import RecurseX.Resolver.Bailiwick

/-!
# Fresh answers and what a response asserts about them

A resolution that no cache answered comes from the iterative walk or from a
forwarder. Either way the resolver validates it, keeps one bit of the report, and
builds the response from that bit: `fresh_authentic_iff` says exactly when the
`AD` bit is right.
-/

namespace RecurseX

open Library

/-! ## Forwarders -/

/-- The role of a record in the Authority section of a forwarder's response. -/
def authorityRole (record : Record) : Role :=
  if record.rrType = .SOA then .soa else if record.rrType = .RRSIG then .rrsig else .ns

/-- Convert a forwarder response into a resolution. -/
def responseToResolution (key : QueryKey) (resp : Message) : Resolution :=
  let ttl := resp.answers.foldl (fun ttl record => min ttl record.ttl) 0xffffffff
  { name := key.name
    rrType := key.rrType
    rrClass := key.rrClass
    rcode := if resp.rcode.toNat < 256 then ⟨resp.rcode.toUInt8⟩ else .SERVFAIL
    answers := (dataRecords resp.answers).map fun record => ⟨record, .answer, some 0⟩
    authorities := resp.authorities.map fun record => ⟨record, authorityRole record, some 0⟩
    rrsigs := (signatures resp.answers).map fun record => ⟨record, .rrsig, some 0⟩
    validated := false
    ttl := if ttl = 0xffffffff then 0 else ttl
    fromCache := false
    stale := false
    ecsScope := (resp.edns.bind Edns.ecs).map Ecs.scopePrefix
    servedAt := 0 }

/-- The addresses in a resolution's answer section. -/
def answerAddresses (res : Resolution) : List IpAddr :=
  res.answers.filterMap fun answer =>
    match answer.record.rdata with
    | .a ip => some (.v4 ip)
    | .aaaa ip => some (.v6 ip)
    | _ => none

/-- What the outside contributes to a forwarded resolution. -/
structure Forwarding where
  /-- The name is on the list that always uses the fallback group. -/
  forced : Bool
  hasFallback : Bool
  /-- The poison gate. -/
  looksPoisoned : List IpAddr → Bool
  /-- What the group responsible for the name answers. -/
  primary : Except Error Message
  primaryValidation : Validation
  /-- What the fallback group answers. -/
  fallback : Except Error Message
  fallbackValidation : Validation

section Forward

variable (crypto : Crypto) (engine : EngineConfig) (dnssecAnchored : Bool) (key : QueryKey)

/-- One exchange against a specific group. -/
def forwardOnce (validation : Validation) (exchanged : Except Error Message) :
    Except Error Resolution :=
  exchanged.map fun resp =>
    let res := responseToResolution key resp
    if engine.dnssec && !key.cd then
      let v := validateMessageDetailed crypto validation resp dnssecAnchored
      { res with validated := v.state.isSignatureVerified }
    else res

/-- Resolve through the group responsible for the key, applying the fallback
poison gate. -/
def forwardResolve (forwarding : Forwarding) : Except Error Resolution :=
  let once := forwardOnce crypto engine dnssecAnchored key
  match once forwarding.primaryValidation forwarding.primary with
  | .error error => .error error
  | .ok res =>
      if !forwarding.forced && forwarding.hasFallback &&
          forwarding.looksPoisoned (answerAddresses res) then
        match once forwarding.fallbackValidation forwarding.fallback with
        | .ok fallback => .ok fallback
        | .error _ => .ok res
      else .ok res

end Forward

/-! ## Fresh resolutions -/

section Fresh

variable {Score Stability Inputs : Type} [LinearOrder Score]
  (scoring : Scoring Score Stability Inputs) (crypto : Crypto) (engine : EngineConfig)
  (dnssecAnchored : Bool) (key : QueryKey)

/-- Where a resolution that the cache could not answer comes from. -/
inductive Upstream (Score Stability Inputs : Type) where
  | iterative (now : Ts) (turns : List (Turn Score Stability Inputs))
      (cache : SemanticCache Score Stability) (budget : FetchBudget)
  | forwarded (forwarding : Forwarding)

/-- The resolution an upstream gives, if it gives one. -/
def Upstream.resolve : Upstream Score Stability Inputs → Option Resolution
  | .iterative now turns cache budget =>
      match walk scoring engine key now turns (.start engine key cache budget) with
      | .finished state => some (state.resolution key now)
      | _ => none
  | .forwarded forwarding => (forwardResolve crypto engine dnssecAnchored key forwarding).toOption

/-- The resolution as it is returned, validated when that is called for. -/
def validateFresh (validation : Validation) (servedAt : Ts) (res : Resolution) : Resolution :=
  let res := { res with servedAt := servedAt }
  if engine.dnssec && !key.cd && !res.answers.isEmpty then
    let v := validateResolutionDetailed crypto validation res dnssecAnchored
    { res with validated := v.state.isSignatureVerified }
  else res

end Fresh

/-- Build a client response message from a resolution. -/
def buildResponse (dnssecAnchored : Bool) (query : Message) (res : Resolution) : Message :=
  let wantDnssec := (query.edns.map Edns.dnssecOk).getD false
  let stamped (records : List Sourced) : List Record :=
    records.map fun sourced => { sourced.record with ttl := res.ttl }
  { id := query.id
    flags :=
      { qr := true, opcode := .QUERY, aa := false, tc := false, rd := query.flags.rd, ra := true
        ad := res.validated && dnssecAnchored && (wantDnssec || query.flags.ad)
        cd := query.flags.cd, rcode := res.rcode }
    questions := query.questions
    answers := stamped res.answers ++ if wantDnssec then stamped res.rrsigs else []
    authorities := stamped res.authorities
    additionals := []
    edns := query.edns.map fun edns => ⟨max edns.udpPayloadSize 512, 0, 0, edns.dnssecOk, []⟩ }

/-- Every record of a response gets the TTL of the resolution. -/
theorem buildResponse_ttl {dnssecAnchored : Bool} {query : Message} {res : Resolution}
    {record : Record} (served : record ∈ (buildResponse dnssecAnchored query res).answers ++
      (buildResponse dnssecAnchored query res).authorities) : record.ttl = res.ttl := by
  have stamped (records : List Sourced)
      (member : record ∈ records.map fun sourced => { sourced.record with ttl := res.ttl }) :
      record.ttl = res.ttl := by
    obtain ⟨sourced, _, rfl⟩ := List.mem_map.mp member
    rfl
  rcases List.mem_append.mp served with answer | authority
  · rcases List.mem_append.mp answer with answer | signature
    · exact stamped res.answers answer
    · split_ifs at signature
      · exact stamped res.rrsigs signature
      · cases signature
  · exact stamped res.authorities authority

/-! ## When the AD bit is right -/

section Authentic

variable {Score Stability Inputs : Type} [LinearOrder Score]
  {scoring : Scoring Score Stability Inputs} {crypto : Crypto} {engine : EngineConfig}
  {dnssecAnchored : Bool} {key : QueryKey} {validation : Validation} {servedAt : Ts}
  {query : Message} {res : Resolution}

/-- Every RRset of the answer section verified. -/
def AnswersSecure (crypto : Crypto) (validation : Validation) (res : Resolution) : Prop :=
  EverySecure crypto validation.fetch (res.answers.map Sourced.record)
    (res.rrsigs.map Sourced.record) (timestampSecs validation.now)

/-- Every relevant RRset of the Authority section verified. -/
def AuthoritySecure (crypto : Crypto) (validation : Validation) (res : Resolution) : Prop :=
  EverySecure crypto validation.fetch ((res.authorities.map Sourced.record).filter isRelevant)
    (signatures (res.authorities.map Sourced.record)) (timestampSecs validation.now)

/-- What the `AD` bit asserts about a resolution. -/
structure Authentic (crypto : Crypto) (dnssecAnchored : Bool) (validation : Validation)
    (res : Resolution) : Prop where
  permitted : (validateResolutionDetailed crypto validation res
    dnssecAnchored).permitsAuthenticData = true
  chain : (validateResolutionDetailed crypto validation res dnssecAnchored).state = .chainAnchored
  answers : AnswersSecure crypto validation res
  authority : AuthoritySecure crypto validation res

/-- What it takes for a fresh answer to get the `AD` bit: nothing in it is about
the Authority section. -/
structure Labelled (crypto : Crypto) (engine : EngineConfig) (dnssecAnchored : Bool)
    (key : QueryKey) (validation : Validation) (query : Message) (res : Resolution) : Prop where
  enabled : engine.dnssec = true
  checked : key.cd = false
  anchored : dnssecAnchored = true
  asked : (query.edns.map Edns.dnssecOk).getD false = true ∨ query.flags.ad = true
  answered : res.answers ≠ []
  free : validation.validating = false
  secure : AnswersSecure crypto validation res

theorem isSignatureVerified_state_iff {verdict : Verdict} {anchored : Bool} :
    (verdict.state anchored).isSignatureVerified = true ↔ verdict = .secure := by
  cases verdict <;> cases anchored <;> decide

/-- A validation finds the signatures in order exactly when it ran and every RRset
of the answer section verified. -/
theorem validateResolutionDetailed_verified_iff (answered : res.answers ≠ []) :
    (validateResolutionDetailed crypto validation res
        dnssecAnchored).state.isSignatureVerified = true ↔
      validation.validating = false ∧ AnswersSecure crypto validation res := by
  unfold validateResolutionDetailed
  rw [if_neg answered]
  split_ifs with taken
  · simp [taken, Verification.preempted, ValidationState.isSignatureVerified]
  · rw [verifyChain, isSignatureVerified_state_iff, verifySection_secure_iff]
    simp [taken, answered, AnswersSecure]

/-- A forwarder's message without data in its answer section is not validated. -/
theorem validateMessageDetailed_of_no_data {resp : Message} (empty : dataRecords resp.answers = []) :
    (validateMessageDetailed crypto validation resp
      dnssecAnchored).state.isSignatureVerified = false := by
  unfold validateMessageDetailed
  split_ifs
  · rfl
  · rfl
  · rw [empty]
    rfl

theorem forwardOnce_validated {exchanged : Except Error Message}
    (forwarded : forwardOnce crypto engine dnssecAnchored key validation exchanged = .ok res)
    (validated : res.validated = true) :
    (engine.dnssec && !key.cd) = true ∧ res.answers ≠ [] := by
  cases exchanged with
  | error error => cases forwarded
  | ok resp =>
      obtain rfl := Except.ok.inj forwarded
      dsimp only at validated ⊢
      split at validated
      · rename_i validates
        refine ⟨validates, ?_⟩
        rw [if_pos validates]
        intro empty
        have unverified : (validateMessageDetailed crypto validation resp
            dnssecAnchored).state.isSignatureVerified = false :=
          validateMessageDetailed_of_no_data (List.map_eq_nil_iff.mp empty)
        rw [unverified] at validated
        cases validated
      · cases validated

/-- A forwarded resolution comes from one exchange. -/
theorem forwardResolve_cases {forwarding : Forwarding}
    (forwarded : forwardResolve crypto engine dnssecAnchored key forwarding = .ok res) :
    forwardOnce crypto engine dnssecAnchored key forwarding.primaryValidation
        forwarding.primary = .ok res ∨
      forwardOnce crypto engine dnssecAnchored key forwarding.fallbackValidation
        forwarding.fallback = .ok res := by
  unfold forwardResolve at forwarded
  dsimp only at forwarded
  split at forwarded
  · cases forwarded
  · rename_i first once
    split_ifs at forwarded with poisoned
    · split at forwarded
      · rename_i second again
        obtain rfl := Except.ok.inj forwarded
        exact .inr again
      · obtain rfl := Except.ok.inj forwarded
        exact .inl once
    · obtain rfl := Except.ok.inj forwarded
      exact .inl once

theorem forwardResolve_validated {forwarding : Forwarding}
    (forwarded : forwardResolve crypto engine dnssecAnchored key forwarding = .ok res)
    (validated : res.validated = true) :
    (engine.dnssec && !key.cd) = true ∧ res.answers ≠ [] := by
  rcases forwardResolve_cases forwarded with primary | fallback
  · exact forwardOnce_validated primary validated
  · exact forwardOnce_validated fallback validated

/-- Whatever the upstream marks as validated is validated again. -/
theorem Upstream.resolve_validated {upstream : Upstream Score Stability Inputs}
    (resolved : upstream.resolve scoring crypto engine dnssecAnchored key = some res)
    (validated : res.validated = true) :
    (engine.dnssec && !key.cd) = true ∧ res.answers ≠ [] := by
  cases upstream with
  | iterative now turns cache budget =>
      simp only [Upstream.resolve] at resolved
      split at resolved
      · obtain rfl := Option.some.inj resolved
        cases validated
      · cases resolved
  | forwarded forwarding =>
      simp only [Upstream.resolve] at resolved
      cases outcome : forwardResolve crypto engine dnssecAnchored key forwarding with
      | error error =>
          rw [outcome] at resolved
          cases resolved
      | ok forwarded =>
          rw [outcome] at resolved
          obtain rfl := Option.some.inj resolved
          exact forwardResolve_validated outcome validated

/-- The flag a fresh resolution is returned with. -/
theorem validateFresh_validated_iff {upstream : Upstream Score Stability Inputs}
    (resolved : upstream.resolve scoring crypto engine dnssecAnchored key = some res) :
    (validateFresh crypto engine dnssecAnchored key validation servedAt res).validated = true ↔
      engine.dnssec = true ∧ key.cd = false ∧ res.answers ≠ [] ∧
        validation.validating = false ∧ AnswersSecure crypto validation res := by
  unfold validateFresh
  dsimp only
  split_ifs with validates
  · have called : (engine.dnssec = true ∧ key.cd = false) ∧ res.answers ≠ [] := by
      simpa using validates
    have verified := @validateResolutionDetailed_verified_iff crypto dnssecAnchored validation
      { res with servedAt := servedAt } called.2
    simp only [called.1.1, called.1.2, called.2, ne_eq, not_false_eq_true, true_and]
    exact verified
  · constructor
    · intro validated
      obtain ⟨enabled, answered⟩ := Upstream.resolve_validated resolved validated
      exact absurd (by simp [enabled, answered]) validates
    · rintro ⟨enabled, checked, answered, _⟩
      exact absurd (by simp [enabled, checked, answered]) validates

/-- The `AD` bit is set on a fresh answer exactly when it is labelled. -/
theorem buildResponse_ad_iff {upstream : Upstream Score Stability Inputs}
    (resolved : upstream.resolve scoring crypto engine dnssecAnchored key = some res) :
    (buildResponse dnssecAnchored query
        (validateFresh crypto engine dnssecAnchored key validation servedAt res)).flags.ad = true ↔
      Labelled crypto engine dnssecAnchored key validation query res := by
  simp only [buildResponse, Bool.and_eq_true, Bool.or_eq_true,
    validateFresh_validated_iff resolved]
  constructor
  · rintro ⟨⟨⟨enabled, checked, answered, free, secure⟩, anchored⟩, asked⟩
    exact ⟨enabled, checked, anchored, asked, answered, free, secure⟩
  · rintro ⟨enabled, checked, anchored, asked, answered, free, secure⟩
    exact ⟨⟨⟨enabled, checked, answered, free, secure⟩, anchored⟩, asked⟩

/-- What a label leaves open is the Authority section. -/
theorem Labelled.authentic
    (labelled : Labelled crypto engine dnssecAnchored key validation query res)
    (authority : AuthoritySecure crypto validation res) :
    Authentic crypto dnssecAnchored validation res := by
  have answered : res.answers.map Sourced.record ≠ [] :=
    mt List.map_eq_nil_iff.mp labelled.answered
  have report : validateResolutionDetailed crypto validation res dnssecAnchored =
      verifyChain crypto validation.fetch (res.answers.map Sourced.record)
        (res.rrsigs.map Sourced.record) (res.authorities.map Sourced.record) dnssecAnchored
        (timestampSecs validation.now) := by
    rw [validateResolutionDetailed, if_neg labelled.answered, labelled.free]
    rfl
  have chain : (validateResolutionDetailed crypto validation res dnssecAnchored).state =
      .chainAnchored := by
    rw [report, verifyChain, verifySection_secure_iff.mpr ⟨answered, labelled.secure⟩,
      labelled.anchored]
    rfl
  refine ⟨?_, chain, labelled.secure, authority⟩
  obtain ⟨examined, authenticated⟩ := EverySecure.counts labelled.secure answered
  rw [Verification.permitsAuthenticData, chain, report]
  simp only [verifyChain, verifyAuthority_of_everySecure authority, beq_iff_eq.mpr authenticated,
    Bool.and_true]
  exact decide_eq_true examined

/-- The `AD` bit on a fresh answer is right unless the answer section verifies and
the Authority section does not. -/
theorem fresh_authentic_iff (scoring : Scoring Score Stability Inputs) (crypto : Crypto)
    (engine : EngineConfig) (dnssecAnchored : Bool) (key : QueryKey)
    (upstream : Upstream Score Stability Inputs) (validation : Validation) (servedAt : Ts)
    (query : Message) (res : Resolution)
    (resolved : upstream.resolve scoring crypto engine dnssecAnchored key = some res) :
    ((buildResponse dnssecAnchored query
        (validateFresh crypto engine dnssecAnchored key validation servedAt res)).flags.ad = true →
      Authentic crypto dnssecAnchored validation res) ↔
      ¬ (Labelled crypto engine dnssecAnchored key validation query res ∧
        ¬ AuthoritySecure crypto validation res) := by
  rw [buildResponse_ad_iff resolved]
  constructor
  · rintro holds ⟨labelled, unverified⟩
    exact unverified (holds labelled).authority
  · intro excluded labelled
    by_contra unauthentic
    exact excluded ⟨labelled, fun authority => unauthentic (labelled.authentic authority)⟩

/-! ## An alias of `www.com` -/

/-- The alias of `www.com` to `x.com`. -/
def aliasRecord : Record :=
  ⟨⟨[3, 119, 119, 119, 3, 99, 111, 109, 0]⟩, .CNAME, .IN, 3600,
    .cname ⟨[1, 120, 3, 99, 111, 109, 0]⟩⟩

/-- A signature over it, by `com`. -/
def aliasSignature : Record :=
  ⟨⟨[3, 119, 119, 119, 3, 99, 111, 109, 0]⟩, .RRSIG, .IN, 3600,
    .rrsig .CNAME .RSASHA256 2 3600 100 0 1288 ⟨[3, 99, 111, 109, 0]⟩
      [0, 5, 8, 2, 0, 0, 14, 16, 0, 0, 0, 100, 0, 0, 0, 0, 5, 8, 3, 99, 111, 109, 0,
        3, 119, 119, 119, 3, 99, 111, 109, 0]⟩

/-- The alias, with its signature. -/
def signedAlias : Received where
  message := wwwReply [aliasRecord, aliasSignature] [] [] none
  parsed := ⟨(wwwReply [aliasRecord, aliasSignature] [] [] none).toBytes.toOption.getD [],
    by decide⟩

/-- The address of `www.com`, with its signature. -/
def signedAddress : Received where
  message := wwwReply [wwwRecord, wwwSignature ⟨[3, 99, 111, 109, 0]⟩] [] [] none
  parsed := ⟨(wwwReply [wwwRecord, wwwSignature ⟨[3, 99, 111, 109, 0]⟩] [] []
    none).toBytes.toOption.getD [], by decide⟩

/-- A name of `com` does not exist; the SOA record is not signed. -/
def missingName : Message :=
  { wwwReply [] [⟨⟨[3, 99, 111, 109, 0]⟩, .SOA, .IN, 3600, .soa .root .root 1 2 3 4 5⟩] [] none with
    flags := ⟨true, .QUERY, false, false, false, false, false, false, .NXDOMAIN⟩ }

/-- `x.com` does not exist. -/
def missingTarget : Received where
  message := missingName
  parsed := ⟨missingName.toBytes.toOption.getD [], by decide⟩

/-- An engine that validates. -/
def validatingEngine : EngineConfig where
  rootEndpoints := [⟨.v4 (ipv4 198 41 0 4), 53, .udp⟩]
  authPort := 53
  qnameMinimization := false
  maxCnameDepth := 8
  maxReferrals := 16
  queryBudgetMs := 5000
  dnssec := true
  maxTtlCap := 86400

/-- Resolve `www.com` iteratively from these responses. -/
def wwwUpstream (responses : List Received) : Upstream Nat Unit Unit :=
  .iterative 0 (responses.map fun received => ⟨[], id, false, fun _ => (), .ok received, fun _ => []⟩)
    (.new (smallConfig 1)) (.new ⟨16, 64, 64, 8, 96, 1048576, 4, fun _ _ => false⟩)

/-- A client that asks for DNSSEC. -/
def dnssecQuery : Message :=
  { wwwReply [] [] [] (some ⟨1232, 0, 0, true, []⟩) with
    flags := ⟨false, .QUERY, false, false, true, false, false, false, .NOERROR⟩ }

/-- A validation that finds every key, with its DS record, at second 50. -/
def keyedValidation : Validation := ⟨fetchKeys fun zone => [zoneDs zone], false, 50000000000⟩

/-- The `AD` bit of the response to that client. -/
def responseAd (res : Resolution) : Bool :=
  (buildResponse true dnssecQuery (validateFresh plainCrypto validatingEngine true (wwwQuery none)
    keyedValidation 0 res)).flags.ad

/-- A signed address is labelled, and rightly so. -/
theorem signed_address_is_authentic :
    ∃ res, (wwwUpstream [signedAddress]).resolve ttlScoring plainCrypto validatingEngine true
        (wwwQuery none) = some res ∧ responseAd res = true ∧
      Authentic plainCrypto true keyedValidation res := by
  obtain ⟨res, resolved⟩ := Option.isSome_iff_exists.mp
    (show ((wwwUpstream [signedAddress]).resolve ttlScoring plainCrypto validatingEngine true
      (wwwQuery none)).isSome = true by decide)
  have observed : ((wwwUpstream [signedAddress]).resolve ttlScoring plainCrypto validatingEngine
      true (wwwQuery none)).map (fun res => (responseAd res, res.authorities.map Sourced.record)) =
      some (true, []) := by
    decide +kernel
  rw [resolved] at observed
  obtain ⟨labelled, authorities⟩ := Prod.mk.inj (Option.some.inj observed)
  refine ⟨res, resolved, labelled, ?_⟩
  refine (fresh_authentic_iff ttlScoring plainCrypto validatingEngine true (wwwQuery none) _
    keyedValidation 0 dnssecQuery res resolved).mpr ?_ labelled
  rintro ⟨_, unverified⟩
  apply unverified
  unfold AuthoritySecure
  rw [authorities]
  exact nofun

/-- A signed alias whose target does not exist is labelled, although the denial is
not signed. -/
theorem unsigned_denial_is_labelled :
    ∃ res, (wwwUpstream [signedAlias, missingTarget]).resolve ttlScoring plainCrypto
        validatingEngine true (wwwQuery none) = some res ∧
      ¬ (responseAd res = true → Authentic plainCrypto true keyedValidation res) := by
  obtain ⟨res, resolved⟩ := Option.isSome_iff_exists.mp
    (show ((wwwUpstream [signedAlias, missingTarget]).resolve ttlScoring plainCrypto
      validatingEngine true (wwwQuery none)).isSome = true by decide)
  have observed : ((wwwUpstream [signedAlias, missingTarget]).resolve ttlScoring plainCrypto
      validatingEngine true (wwwQuery none)).map (fun res => (responseAd res,
        (validateResolutionDetailed plainCrypto keyedValidation res true).permitsAuthenticData)) =
      some (true, false) := by
    decide +kernel
  rw [resolved] at observed
  obtain ⟨labelled, refused⟩ := Prod.mk.inj (Option.some.inj observed)
  refine ⟨res, resolved, fun authentic => ?_⟩
  rw [(authentic labelled).permitted] at refused
  cases refused

end Authentic

end RecurseX
