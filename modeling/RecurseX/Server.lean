import RecurseX.Message.Truncate
import RecurseX.Resolver.Response

/-!
# Answering UDP datagrams

From the octets of a datagram to the octets that are sent back, on every path
that produces a response. `udp_response_within_iff` says for which datagrams the
response stays within what the client can take.
-/

namespace RecurseX

open Library Wire

/-! ## Query validation -/

/-- The part of the policy configuration that validates queries. -/
structure QueryPolicy where
  /-- Maximum labels in a query name. -/
  maxQnameLabels : Nat
  /-- Require exactly one question. -/
  enforceSingleQuestion : Bool
  /-- Refuse queries with another opcode than QUERY. -/
  enforceQueryOpcode : Bool

/-- The default configuration. -/
def QueryPolicy.default : QueryPolicy := ⟨127, true, true⟩

/-- Validate an incoming client query message. -/
def QueryPolicy.validateQuery (config : QueryPolicy) (msg : Message) : Result Unit := do
  failIf (config.enforceQueryOpcode = true ∧ msg.flags.opcode ≠ .QUERY)
    ⟨.policy, "only QUERY opcode is supported"⟩
  failIf (config.enforceSingleQuestion = true ∧ msg.questions.length ≠ 1)
    ⟨.policy, "exactly one question required"⟩
  match msg.questions.head? with
  | none => .ok ()
  | some q => do
      failIf (q.qname.labelCount > config.maxQnameLabels)
        ⟨.policy, "query name has too many labels"⟩
      failIf (q.qtype = .AXFR ∨ q.qtype = .IXFR) ⟨.policy, "zone transfers are not served"⟩

/-! ## Responses -/

namespace HeaderFlags

/-- The flags of a new message. -/
def default : HeaderFlags where
  qr := false
  opcode := .QUERY
  aa := false
  tc := false
  rd := true
  ra := false
  ad := false
  cd := false
  rcode := .NOERROR

end HeaderFlags

/-- A minimal EDNS header with the given UDP payload size. -/
def Edns.new (udpPayloadSize : UInt16) : Edns := ⟨udpPayloadSize, 0, 0, false, []⟩

namespace Message

/-- An empty message. -/
def new (id : UInt16) : Message := ⟨id, .default, [], [], [], [], none⟩

/-- A response with the same identifier and questions and the given code. -/
def errorResponse (self : Message) (rcode : Rcode) : Message :=
  { new self.id with
    flags := { HeaderFlags.default with qr := true, rd := self.flags.rd, ra := true, rcode }
    questions := self.questions
    edns := self.edns.map fun edns => Edns.new edns.udpPayloadSize }

end Message

/-- What the server asks its resolver for. -/
structure QueryResolver where
  policy : QueryPolicy
  dnssecAnchored : Bool
  /-- The client limiter. -/
  clientAllowed : IpAddr → Bool
  /-- The resolution of a key. -/
  resolveKey : QueryKey → Except Error Resolution

namespace QueryResolver

variable (resolver : QueryResolver)

/-- The response code of a failed resolution. -/
def errorRcode : ErrorKind → Rcode
  | .nxDomain => .NXDOMAIN
  | .noData => .NOERROR
  | .servfail | .noUpstream => .SERVFAIL
  | .policy => .REFUSED
  | .rateLimited => .REFUSED
  | _ => .SERVFAIL

/-- Handle a client message: validation, rate limiting, resolution and response
construction. -/
def handleQuery (query : Message) (wellFormed : query.WellFormed) (clientIp : Option IpAddr) :
    Message :=
  match resolver.policy.validateQuery query with
  | .error _ => query.errorResponse .FORMERR
  | .ok () =>
      if (clientIp.map resolver.clientAllowed).getD true then
        match present : query.questions with
        | [] => query.errorResponse .FORMERR
        | q :: questions =>
            let key : QueryKey :=
              { name := q.qname
                rrType := q.qtype
                rrClass := q.qclass
                ecs := (query.edns.bind Edns.ecs).bind EcsKey.fromEcs
                wantDnssec := (query.edns.map Edns.dnssecOk).getD false
                cd := query.flags.cd
                named := wellFormed.questions q (by rw [present]; exact List.mem_cons_self) }
            match resolver.resolveKey key with
            | .ok res => buildResponse resolver.dnssecAnchored query res
            | .error error => query.errorResponse (errorRcode error.kind)
      else query.errorResponse .REFUSED

/-- The message identifier of a raw query, when its two octets are present. -/
def queryId : Bytes → UInt16
  | high :: low :: _ => ofBe16 high low
  | _ => 0

/-- Answer one query. With a limit the response is truncated to it. -/
def answer (queryBytes : Bytes) (clientIp : Option IpAddr) (udpLimit : Option Nat) : Bytes :=
  match parsed : Message.parse queryBytes with
  | .ok query =>
      let resp := resolver.handleQuery query (Message.parse_wellFormed parsed) clientIp
      let resp := match udpLimit with
        | some limit => resp.truncateForUdp limit
        | none => resp
      match resp.toBytes with
      | .ok bytes => bytes
      | .error _ => (query.errorResponse .SERVFAIL).toBytes.toOption.getD []
  | .error _ =>
      let rd := match (queryBytes[2]? : Option UInt8) with
        | some octet => octet &&& 0x01 != 0
        | none => false
      let m : Message := { Message.new (queryId queryBytes) with
        flags := { HeaderFlags.default with qr := true, ra := true, rd, rcode := .FORMERR } }
      m.toBytes.toOption.getD []

/-- The payload size a datagram advertises. -/
def udpLimit (datagram : Bytes) : Nat :=
  match Message.parse datagram with
  | .ok query =>
      match query.edns with
      | some edns => edns.udpPayloadSize.toNat
      | none => 512
  | .error _ => 512

/-- What the handler loop sends back for one datagram. -/
def udpResponse (datagram : Bytes) (src : IpAddr) : Bytes :=
  resolver.answer datagram (some src) (some (udpLimit datagram))

/-! ## What every path keeps of the query -/

/-- Every response repeats the questions of its query and has a bare OPT record
exactly when the query has one. -/
structure Echoes (query resp : Message) : Prop where
  questions : resp.questions = query.questions
  edns : resp.edns.isSome = query.edns.isSome
  bare : ∀ edns, resp.edns = some edns → edns.options = []

theorem errorResponse_echoes (query : Message) (rcode : Rcode) :
    Echoes query (query.errorResponse rcode) where
  questions := rfl
  edns := by simp [Message.errorResponse]
  bare := by
    intro edns present
    obtain ⟨_, _, rfl⟩ := Option.map_eq_some_iff.mp present
    rfl

theorem buildResponse_echoes (anchored : Bool) (query : Message) (res : Resolution) :
    Echoes query (buildResponse anchored query res) where
  questions := rfl
  edns := by simp [buildResponse]
  bare := by
    intro edns present
    obtain ⟨_, _, rfl⟩ := Option.map_eq_some_iff.mp present
    rfl

theorem handleQuery_echoes (query : Message) (wellFormed : query.WellFormed)
    (clientIp : Option IpAddr) : Echoes query (resolver.handleQuery query wellFormed clientIp) := by
  unfold handleQuery
  split
  · exact errorResponse_echoes query _
  · split
    · split
      · exact errorResponse_echoes query _
      · dsimp only
        split
        · exact buildResponse_echoes _ query _
        · exact errorResponse_echoes query _
    · exact errorResponse_echoes query _

/-- The least a response to `query` takes: the header, the questions as the
compressor writes them, and eleven octets for an OPT record. -/
def leastResponse (query : Message) : Nat :=
  query.writeFront.out.length + if query.edns.isSome then 11 else 0

theorem Echoes.minimalLen_eq {query resp : Message} (echoes : Echoes query resp) :
    resp.minimalLen = leastResponse query := by
  rw [Message.minimalLen, leastResponse, Message.length_writeFront_congr echoes.questions,
    ← echoes.edns, Message.optLen]
  cases present : resp.edns with
  | none => rfl
  | some edns => simp [Edns.optionsWire, echoes.bare edns present]

theorem udpLimit_small (datagram : Bytes) : max (udpLimit datagram) 512 < usizeMax := by
  have small : udpLimit datagram < 65536 := by
    unfold udpLimit
    split
    · split
      · rename_i edns _
        exact edns.udpPayloadSize.toNat_lt
      · decide
    · decide
  unfold usizeMax
  omega

/-- A datagram that does not parse is answered with a bare header. -/
theorem length_bare_header {m : Message} (questions : m.questions = []) (answers : m.answers = [])
    (authorities : m.authorities = []) (additionals : m.additionals = []) (edns : m.edns = none) :
    (m.toBytes.toOption.getD []).length = 12 := by
  obtain ⟨id, flags, _, _, _, _, _⟩ := m
  subst questions answers authorities additionals edns
  obtain ⟨bytes, produced, length⟩ :=
    @Message.length_of_toBytes ⟨id, flags, [], [], [], [], none⟩ _ rfl
  rw [produced]
  exact length

/-- The answer to a query that parses: only what truncation keeps matters. -/
theorem length_udpResponse_of_ok {datagram : Bytes} (src : IpAddr) {query : Message}
    (parsed : Message.parse datagram = .ok query) :
    (resolver.udpResponse datagram src).length ≤ max (udpLimit datagram) 512 ↔
      leastResponse query ≤ max (udpLimit datagram) 512 := by
  have small := udpLimit_small datagram
  unfold udpResponse
  generalize udpLimit datagram = limit at small ⊢
  unfold answer
  split
  · rename_i found foundEq
    cases parsed.symm.trans foundEq
    have echoes := resolver.handleQuery_echoes query (Message.parse_wellFormed parsed) (some src)
    generalize resolver.handleQuery query _ (some src) = resp at echoes
    obtain ⟨bytes, produced, within⟩ := resp.toBytes_truncateForUdp small
    simp only [produced]
    rw [within, echoes.minimalLen_eq]
  · rename_i failed
    cases parsed.symm.trans failed

/-- The answer to a datagram that does not parse. -/
theorem length_udpResponse_of_error {datagram : Bytes} (src : IpAddr) {error : Error}
    (failed : Message.parse datagram = .error error) :
    (resolver.udpResponse datagram src).length = 12 := by
  unfold udpResponse answer
  split
  · rename_i parsed
    cases failed.symm.trans parsed
  · exact length_bare_header rfl rfl rfl rfl rfl

/-- The first name of a message is written in full. -/
theorem encoding_new (name : Name) : NameCompressor.new.encoding name = name.bytes := by
  have missed (suffixes : List (Name × Nat)) : NameCompressor.new.hit suffixes = none := by
    simp [NameCompressor.hit, NameCompressor.get, NameCompressor.new]
  unfold NameCompressor.encoding
  rw [missed]

/-- One question always leaves room: 12 octets of header, at most 255 of name,
4 of type and class and 11 of OPT. -/
theorem leastResponse_le_of_single {query : Message} (wellFormed : query.WellFormed)
    (single : query.questions.length ≤ 1) : leastResponse query ≤ 512 := by
  have opt : (if query.edns.isSome then 11 else 0) ≤ 11 := by
    split <;> decide
  have front : query.writeFront.out.length ≤ 12 + 255 + 4 := by
    match present : query.questions with
    | [] => simp [Message.writeFront, present]
    | [question] =>
        obtain ⟨domain, spelled⟩ := wellFormed.questions question (by simp [present])
        have short : question.qname.bytes.length ≤ 255 := by
          rw [spelled]
          exact domain.short
        have written : query.writeFront.out.length = 12 + question.qname.bytes.length + 4 := by
          simp [Message.writeFront, present, Message.writeQuestion, Sink.out_name,
            Sink.nameEncoding, encoding_new]
        omega
    | _ :: _ :: _ =>
        rw [present] at single
        simp at single
  unfold leastResponse
  omega

end QueryResolver

/-- UDP answer size: whatever the policy, the limiter and the resolution do, the
response is within the larger of 512 and the advertised payload size exactly
when the datagram does not parse, or its own questions, repeated behind a header
and before a bare OPT record, leave the response that room. -/
theorem udp_response_within_iff (resolver : QueryResolver) (datagram : Bytes) (src : IpAddr) :
    (resolver.udpResponse datagram src).length ≤ max (QueryResolver.udpLimit datagram) 512 ↔
      ∀ query, Message.parse datagram = .ok query →
        QueryResolver.leastResponse query ≤ max (QueryResolver.udpLimit datagram) 512 := by
  cases parsed : Message.parse datagram with
  | ok query =>
      rw [resolver.length_udpResponse_of_ok src parsed]
      constructor
      · intro fits other same
        cases same
        exact fits
      · intro fits
        exact fits query rfl
  | error error =>
      rw [resolver.length_udpResponse_of_error src parsed]
      constructor
      · intro _ query same
        cases same
      · intro _
        omega

/-- A query with at most one question is answered within its limit. -/
theorem single_question_within (resolver : QueryResolver) {datagram : Bytes} (src : IpAddr)
    {query : Message} (parsed : Message.parse datagram = .ok query)
    (single : query.questions.length ≤ 1) :
    (resolver.udpResponse datagram src).length ≤ max (QueryResolver.udpLimit datagram) 512 := by
  rw [resolver.length_udpResponse_of_ok src parsed]
  have least := QueryResolver.leastResponse_le_of_single (Message.parse_wellFormed parsed) single
  omega

/-- A question for a name of 255 octets. -/
def longQuestion (octet : UInt8) : Bytes :=
  [63] ++ List.replicate 63 octet ++ [63] ++ List.replicate 63 octet ++
    [63] ++ List.replicate 63 octet ++ [61] ++ List.replicate 61 octet ++ [0, 0, 1, 0, 1]

/-- A query with two questions for long names, without EDNS. -/
def twoLongQuestions : Bytes :=
  [0, 7, 1, 0, 0, 2, 0, 0, 0, 0, 0, 0] ++ longQuestion 97 ++ longQuestion 98

/-- A server with the default policy. -/
def defaultResolver : QueryResolver where
  policy := .default
  dnssecAnchored := false
  clientAllowed := fun _ => true
  resolveKey := fun _ => .error ⟨.servfail, "no answer"⟩

theorem two_long_questions_exceed :
    ¬ (defaultResolver.udpResponse twoLongQuestions (.v4 ⟨[192, 0, 2, 1], rfl⟩)).length ≤
      max (QueryResolver.udpLimit twoLongQuestions) 512 := by
  decide +kernel

end RecurseX
