import RecurseX.Server

/-!
# Serving length-prefixed queries

One connection after it was accepted: queries are read in frames, answered without
a limit, and written back in frames. The prefix of a written frame is the length of
the response in 16 bits. `tcp_framing_iff` says for which queries that is the length.
-/

namespace RecurseX

open Library Library.PrefixedList Wire

/-- A message behind its length in 16 bits. -/
def framed (message : Bytes) : Bytes := be16 (UInt16.ofNat message.length) ++ message

/-- The two octets in front say how many follow. -/
def LengthPrefixed : Bytes → Prop
  | high :: low :: message => (ofBe16 high low).toNat = message.length
  | _ => False

/-- The queries in what a peer sends, up to the end of the connection or a frame of
length zero. -/
def readQueries : Bytes → List Bytes
  | high :: low :: rest =>
      let len := (ofBe16 high low).toNat
      if len = 0 then []
      else if rest.length < len then []
      else rest.take len :: readQueries (rest.drop len)
  | _ => []
termination_by stream => stream.length
decreasing_by simp only [List.length_drop, List.length_cons]; omega

/-- Serve length-prefixed queries on one connection. `stream` is what the peer sends
until it closes the connection, a deadline passes or the server stops. -/
def QueryResolver.tcpConn (resolver : QueryResolver) (clientIp : Option IpAddr) :
    (stream : Bytes) → List Bytes
  | high :: low :: rest =>
      let len := (ofBe16 high low).toNat
      if len = 0 then []
      else if rest.length < len then []
      else
        let response := resolver.answer (rest.take len) clientIp none
        framed response :: tcpConn resolver clientIp (rest.drop len)
  | _ => []
termination_by stream => stream.length
decreasing_by simp only [List.length_drop, List.length_cons]; omega

/-! ## Frames -/

/-- The prefix is right exactly when the length fits it. -/
theorem lengthPrefixed_framed_iff (message : Bytes) :
    LengthPrefixed (framed message) ↔ message.length ≤ 65535 := by
  have word : (UInt16.ofNat message.length).toNat = message.length % 65536 := UInt16.toNat_ofNat'
  have prefixed : LengthPrefixed (framed message) ↔
      (UInt16.ofNat message.length).toNat = message.length := by
    simp only [framed, be16, List.cons_append, List.nil_append, LengthPrefixed, ofBe16_be16]
  rw [prefixed, word]
  omega

/-- A query behind its length is read as it was sent. -/
theorem readQueries_framed {query : Bytes} (asked : query ≠ []) (short : query.length ≤ 65535)
    (stream : Bytes) : readQueries (framed query ++ stream) = query :: readQueries stream := by
  have positive : query.length ≠ 0 := mt List.length_eq_zero_iff.mp asked
  have word : (UInt16.ofNat query.length).toNat = query.length := by
    rw [UInt16.toNat_ofNat']
    omega
  have whole : ¬ (query ++ stream).length < query.length := by
    rw [List.length_append]
    omega
  simp only [framed, be16, List.cons_append, List.nil_append]
  rw [readQueries, ofBe16_be16, word]
  simp only [if_neg positive, if_neg whole, List.take_left', List.drop_left']

namespace QueryResolver

variable (resolver : QueryResolver) (clientIp : Option IpAddr)

/-- Every query of the connection is answered by one frame, in order. -/
theorem tcpConn_eq_map (stream : Bytes) : resolver.tcpConn clientIp stream =
    (readQueries stream).map fun query => framed (resolver.answer query clientIp none) := by
  fun_induction readQueries stream with
  | case1 high low rest len empty =>
      rw [tcpConn, if_pos empty, List.map_nil]
  | case2 high low rest len some short =>
      rw [tcpConn, if_neg some, if_pos short, List.map_nil]
  | case3 high low rest len some whole inductionHypothesis =>
      rw [tcpConn, if_neg some, if_neg whole, List.map_cons, inductionHypothesis]
  | case4 stream few =>
      rw [tcpConn, List.map_nil]
      exact few

/-- `query` passes the checks, and its first question is resolved to `res`. -/
structure Resolves (query : Message) (wellFormed : query.WellFormed) (res : Resolution) : Prop where
  valid : resolver.policy.validateQuery query = .ok ()
  allowed : (clientIp.map resolver.clientAllowed).getD true = true
  resolved : ∃ q questions, ∃ present : query.questions = q :: questions,
    resolver.resolveKey
      { name := q.qname
        rrType := q.qtype
        rrClass := q.qclass
        ecs := (query.edns.bind Edns.ecs).bind EcsKey.fromEcs
        wantDnssec := (query.edns.map Edns.dnssecOk).getD false
        cd := query.flags.cd
        named := wellFormed.questions q (by rw [present]; exact List.mem_cons_self) } = .ok res

variable {resolver clientIp} in
theorem Resolves.unique {query : Message} {wellFormed : query.WellFormed} {res other : Resolution}
    (first : resolver.Resolves clientIp query wellFormed res)
    (second : resolver.Resolves clientIp query wellFormed other) : res = other := by
  obtain ⟨q, questions, present, resolved⟩ := first.resolved
  obtain ⟨q', questions', again, resolved'⟩ := second.resolved
  cases present.symm.trans again
  exact Except.ok.inj (resolved.symm.trans resolved')

/-- A response is built from a resolution or is a bare error. -/
theorem handleQuery_cases (query : Message) (wellFormed : query.WellFormed) :
    (∃ res, resolver.Resolves clientIp query wellFormed res ∧
      resolver.handleQuery query wellFormed clientIp =
        buildResponse resolver.dnssecAnchored query res) ∨
    ((∀ res, ¬ resolver.Resolves clientIp query wellFormed res) ∧
      ∃ rcode, resolver.handleQuery query wellFormed clientIp = query.errorResponse rcode) := by
  unfold handleQuery
  split
  · rename_i error refused
    refine .inr ⟨fun res resolves => ?_, _, rfl⟩
    cases resolves.valid.symm.trans refused
  rename_i valid
  split
  · rename_i allowed
    split
    · rename_i none
      refine .inr ⟨fun res resolves => ?_, _, rfl⟩
      obtain ⟨_, _, present, _⟩ := resolves.resolved
      cases present.symm.trans none
    · rename_i q questions present
      dsimp only
      split
      · rename_i res resolved
        exact .inl ⟨res, ⟨valid, allowed, q, questions, present, resolved⟩, rfl⟩
      · rename_i error failed
        refine .inr ⟨fun res resolves => ?_, _, rfl⟩
        obtain ⟨_, _, again, resolved⟩ := resolves.resolved
        cases present.symm.trans again
        cases resolved.symm.trans failed
  · rename_i limited
    exact .inr ⟨fun res resolves => limited resolves.allowed, _, rfl⟩

end QueryResolver

/-! ## The length of a response -/

/-- A compressed name is at most a pointer longer than the longest name. -/
theorem NameCompressor.length_encoding_le (comp : NameCompressor) (domain : DomainName) :
    (comp.encoding domain.toName).length ≤ 257 := by
  have short : (code domain.labels).length ≤ 255 := domain.short
  cases found : comp.hit (suffixes domain.toName) with
  | none =>
      simp only [encoding, found]
      exact Nat.le_trans short (by decide)
  | some target =>
      obtain ⟨i, suffix, offset⟩ := target
      obtain ⟨before, inner, split, _, _, rfl, _⟩ := hit_eq_some found
      rw [encoding_hit split found]
      rw [split, code_append, List.length_append] at short
      simp only [List.length_append, pointerBytes, List.length_cons, List.length_nil]
      omega

theorem Sink.length_nameEncoding_le (comp : Option NameCompressor) {name : Name}
    (canonical : name.Canonical) (allow : Bool) : (nameEncoding comp name allow).length ≤ 257 := by
  obtain ⟨domain, rfl⟩ := canonical
  have whole : domain.toName.bytes.length ≤ 255 := domain.short
  unfold nameEncoding
  split
  · exact NameCompressor.length_encoding_le _ domain
  · omega

namespace Message

/-- The question section takes at most 261 octets a question. -/
theorem length_writeQuestions_le {questions : List Question}
    (canonical : ∀ question ∈ questions, question.qname.Canonical) (sink : Sink) :
    (questions.foldl writeQuestion sink).out.length ≤ sink.out.length + 261 * questions.length := by
  induction questions generalizing sink with
  | nil => exact Nat.le_refl _
  | cons question questions inductionHypothesis =>
      obtain ⟨first, others⟩ := List.forall_mem_cons.mp canonical
      have rest := inductionHypothesis others (writeQuestion sink question)
      have name := Sink.length_nameEncoding_le sink.comp first true
      have here : (writeQuestion sink question).out.length ≤ sink.out.length + 261 := by
        simp only [writeQuestion, Sink.length_extend, Sink.out_name, List.length_append,
          length_be16]
        omega
      rw [List.foldl_cons, List.length_cons]
      omega

/-- The whole response, with its question section and its OPT record, is as long as a
16-bit prefix can say, if its records can be serialized at all. -/
def FitsFrame (resp : Message) : Prop :=
  ∀ written, resp.writeSections = .ok written → written.out.length + resp.optLen ≤ 65535

end Message

namespace QueryResolver

variable (resolver : QueryResolver) (clientIp : Option IpAddr)

/-- Sixteen questions never fill a frame. -/
theorem leastResponse_le {query : Message} (wellFormed : query.WellFormed) :
    leastResponse query ≤ 65535 := by
  have opt : (if query.edns.isSome then 11 else 0) ≤ 11 := by
    split <;> decide
  have few : query.questions.length ≤ 16 := wellFormed.questionCount
  have front : query.writeFront.out.length ≤ 12 + 261 * query.questions.length :=
    Message.length_writeQuestions_le wellFormed.questions _
  unfold leastResponse
  omega

/-- A bare error is the least response. -/
theorem toBytes_errorResponse (query : Message) (rcode : Rcode) : ∃ bytes,
    (query.errorResponse rcode).toBytes = .ok bytes ∧ bytes.length = leastResponse query := by
  obtain ⟨bytes, produced, length⟩ := Message.length_of_toBytes
    (show (query.errorResponse rcode).writeSections = .ok (query.errorResponse rcode).writeFront
      from rfl)
  refine ⟨bytes, produced, ?_⟩
  rw [length, ← (errorResponse_echoes query rcode).minimalLen_eq, Message.minimalLen]

/-- The answer over TCP to a query that parses. -/
theorem length_answer_le_iff {queryBytes : Bytes} {query : Message}
    (parsed : Message.parse queryBytes = .ok query) :
    (resolver.answer queryBytes clientIp none).length ≤ 65535 ↔
      ∀ res, resolver.Resolves clientIp query (Message.parse_wellFormed parsed) res →
        (buildResponse resolver.dnssecAnchored query res).FitsFrame := by
  have least := leastResponse_le (Message.parse_wellFormed parsed)
  unfold answer
  split
  swap
  · rename_i failed
    cases parsed.symm.trans failed
  rename_i found foundEq
  cases parsed.symm.trans foundEq
  dsimp only
  rcases resolver.handleQuery_cases clientIp query (Message.parse_wellFormed parsed) with
    ⟨res, resolves, built⟩ | ⟨unresolved, rcode, bare⟩
  · have same : (∀ other, resolver.Resolves clientIp query (Message.parse_wellFormed parsed) other →
        (buildResponse resolver.dnssecAnchored query other).FitsFrame) ↔
        (buildResponse resolver.dnssecAnchored query res).FitsFrame :=
      ⟨fun all => all res resolves, fun fits other again => resolves.unique again ▸ fits⟩
    rw [built, same, Message.FitsFrame]
    cases serialized : (buildResponse resolver.dnssecAnchored query res).writeSections with
    | ok written =>
        obtain ⟨bytes, produced, length⟩ := Message.length_of_toBytes serialized
        rw [produced]
        dsimp only
        rw [length]
        exact ⟨fun short _ again => Except.ok.inj again ▸ short, fun short => short written rfl⟩
    | error error =>
        have failed : ∃ error, (buildResponse resolver.dnssecAnchored query res).toBytes =
            .error error := by
          rw [Message.toBytes_eq, serialized]
          exact ⟨error, rfl⟩
        obtain ⟨_, failed⟩ := failed
        obtain ⟨bytes, produced, length⟩ := toBytes_errorResponse query .SERVFAIL
        rw [failed, produced]
        change bytes.length ≤ 65535 ↔ _
        rw [length]
        exact ⟨fun _ _ again => (by cases again), fun _ => least⟩
  · obtain ⟨bytes, produced, length⟩ := toBytes_errorResponse query rcode
    rw [bare, produced]
    dsimp only
    rw [length]
    exact ⟨fun _ res resolves => absurd resolves (unresolved res), fun _ => least⟩

/-- The answer over TCP to octets that do not parse. -/
theorem length_answer_of_error {queryBytes : Bytes} {error : Error}
    (failed : Message.parse queryBytes = .error error) :
    (resolver.answer queryBytes clientIp none).length = 12 := by
  unfold answer
  split
  · rename_i parsed
    cases failed.symm.trans parsed
  · exact length_bare_header rfl rfl rfl rfl rfl

/-- What is asked of an answer for its prefix to be right: a query that parses and is
resolved gets a response that fits a frame. -/
def AnsweredInFrame (queryBytes : Bytes) : Prop :=
  ∀ query, ∀ parsed : Message.parse queryBytes = .ok query, ∀ res,
    resolver.Resolves clientIp query (Message.parse_wellFormed parsed) res →
      (buildResponse resolver.dnssecAnchored query res).FitsFrame

theorem length_answer_le_iff_answeredInFrame (queryBytes : Bytes) :
    (resolver.answer queryBytes clientIp none).length ≤ 65535 ↔
      resolver.AnsweredInFrame clientIp queryBytes := by
  cases parsed : Message.parse queryBytes with
  | ok query =>
      rw [resolver.length_answer_le_iff clientIp parsed]
      constructor
      · intro fits other same
        cases parsed.symm.trans same
        exact fits
      · intro fits
        exact fits query parsed
  | error error =>
      rw [resolver.length_answer_of_error clientIp parsed]
      constructor
      · intro _ query same
        cases parsed.symm.trans same
      · intro _
        decide

end QueryResolver

/-- TCP framing: the prefixes of all frames on a connection are right exactly when every
query on it that is resolved gets a response of at most 65535 octets. -/
theorem tcp_framing_iff (resolver : QueryResolver) (clientIp : Option IpAddr) (stream : Bytes) :
    (∀ frame ∈ resolver.tcpConn clientIp stream, LengthPrefixed frame) ↔
      ∀ query ∈ readQueries stream, resolver.AnsweredInFrame clientIp query := by
  rw [resolver.tcpConn_eq_map clientIp stream, List.forall_mem_map]
  refine forall₂_congr fun query _ => ?_
  rw [lengthPrefixed_framed_iff, resolver.length_answer_le_iff_answeredInFrame clientIp query]

/-! ## A response of 65546 octets -/

/-- A record takes its name, ten octets and its data. -/
theorem Record.toWire_unknown {record : Record} {data : Bytes}
    (payload : record.rdata = .unknown data) (short : data.length ≤ 65535) (sink : Sink) :
    ∃ written, record.toWire sink = .ok written ∧ written.out.length =
      sink.out.length + (Sink.nameEncoding sink.comp record.name true).length + 10 + data.length := by
  have width (sink : Sink) : ((RData.unknown data).toWire sink).out.length =
      sink.out.length + data.length := sink.length_extend data
  unfold toWire
  dsimp only
  rw [payload, failIf_of_not, failIf_of_not]
  · refine ⟨_, rfl, ?_⟩
    rw [length_overwrite (by simp [width])]
    simp only [width, Sink.length_extend, Sink.out_name, List.length_append, length_be16,
      length_be32, List.length_cons, List.length_nil]
  · simp [width]
  · simp only [width, Sink.length_extend, List.length_cons, List.length_nil]
    omega

/-- A response with one record of a private type. -/
def bulkReply (data : Bytes) : Message where
  id := 7
  flags := ⟨true, .QUERY, false, false, true, true, false, false, .NOERROR⟩
  questions := [⟨⟨[1, 97, 0]⟩, ⟨65280⟩, .IN⟩]
  answers := [⟨⟨[1, 97, 0]⟩, ⟨65280⟩, .IN, 3600, .unknown data⟩]
  authorities := []
  additionals := []
  edns := none

/-- A query for that record, with an OPT record. -/
def bulkQuery : Bytes :=
  [0, 7, 1, 0, 0, 1, 0, 0, 0, 0, 0, 1, 1, 97, 0, 255, 0, 0, 1, 0, 0, 41, 4, 208, 0, 0, 0, 0, 0, 0]

/-- That query, parsed. -/
def bulkQuestion : Message where
  id := 7
  flags := ⟨false, .QUERY, false, false, true, false, false, false, .NOERROR⟩
  questions := [⟨⟨[1, 97, 0]⟩, ⟨65280⟩, .IN⟩]
  answers := []
  authorities := []
  additionals := []
  edns := some ⟨1232, 0, 0, false, []⟩

/-- A server that forwards every query, and is answered with `reply`. -/
def forwardingResolver (reply : Message) : QueryResolver where
  policy := .default
  dnssecAnchored := false
  clientAllowed := fun _ => true
  resolveKey := fun key => forwardResolve plainCrypto { validatingEngine with dnssec := false }
    false key ⟨false, false, fun _ => false, .ok reply, keyedValidation, .ok reply, keyedValidation⟩

/-- The sections of a message with such a question and such a record. -/
theorem writeSections_bulk {message : Message} {data : Bytes} {ttl : UInt32}
    (questions : message.questions = [⟨⟨[1, 97, 0]⟩, ⟨65280⟩, .IN⟩])
    (answers : message.answers = [⟨⟨[1, 97, 0]⟩, ⟨65280⟩, .IN, ttl, .unknown data⟩])
    (authorities : message.authorities = []) (additionals : message.additionals = [])
    (short : data.length ≤ 65535) :
    ∃ written, message.writeSections = .ok written ∧ written.out.length = 31 + data.length := by
  obtain ⟨written, serialized, length⟩ := Record.toWire_unknown
    (show (⟨⟨[1, 97, 0]⟩, ⟨65280⟩, .IN, ttl, .unknown data⟩ : Record).rdata = .unknown data by rfl)
    short message.writeFront
  have front : message.writeFront.out.length = 19 ∧
      (Sink.nameEncoding message.writeFront.comp ⟨[1, 97, 0]⟩ true).length = 2 := by
    obtain ⟨id, flags, _, _, _, _, _⟩ := message
    subst questions
    exact ⟨rfl, rfl⟩
  refine ⟨written, ?_, by rw [length, front.1, front.2]⟩
  simp only [Message.writeSections, answers, authorities, additionals, Message.writeRecords,
    List.foldlM_cons, List.foldlM_nil, serialized]
  rfl

theorem bulkReply_wellFormed (data : Bytes) : (bulkReply data).WellFormed where
  opcode := show 0 < 16 by decide
  rcode := show 0 < 16 by decide
  questions := by
    intro question member
    rw [List.mem_singleton.mp member]
    exact Name.canonical_of_fromWire [1, 97, 0] (by decide)
  answers := by
    intro record member
    rw [List.mem_singleton.mp member]
    exact ⟨Name.canonical_of_fromWire [1, 97, 0] (by decide), rfl,
      ⟨by simp [RData.pieces], trivial⟩⟩
  authorities _ member := absurd member List.not_mem_nil
  additionals _ member := absurd member List.not_mem_nil
  edns _ present := by cases present
  questionCount := show 1 ≤ 16 by decide
  answerCount := show 1 ≤ 4096 by decide
  authorityCount := show 0 ≤ 4096 by decide
  additionalCount := show 0 ≤ 4096 by decide

/-- A forwarder's response fills a message of 65535 octets; the response to the client
has an OPT record besides, and its prefix starts again at zero. -/
theorem full_message_is_misframed :
    (∃ bytes, (bulkReply (List.replicate 65504 0)).toBytes = .ok bytes ∧ bytes.length = 65535 ∧
      Message.parse bytes = .ok (bulkReply (List.replicate 65504 0))) ∧
    ¬ ∀ frame ∈ (forwardingResolver (bulkReply (List.replicate 65504 0))).tcpConn none
      (framed bulkQuery), LengthPrefixed frame := by
  have size : (List.replicate 65504 (0 : UInt8)).length = 65504 := List.length_replicate
  generalize List.replicate 65504 (0 : UInt8) = data at size ⊢
  constructor
  · obtain ⟨written, serialized, length⟩ := @writeSections_bulk (bulkReply data) data 3600
      rfl rfl rfl rfl (by omega)
    obtain ⟨bytes, produced, total⟩ := Message.length_of_toBytes serialized
    have bare : (bulkReply data).optLen = 0 := rfl
    exact ⟨bytes, produced, by omega, Message.parse_toBytes (bulkReply_wellFormed data) produced⟩
  · intro right
    have asked : readQueries (framed bulkQuery) = [bulkQuery] := by
      have read := @readQueries_framed bulkQuery (by decide) (by decide) []
      rwa [List.append_nil, show readQueries [] = [] by simp [readQueries]] at read
    have fits : (forwardingResolver (bulkReply data)).AnsweredInFrame none bulkQuery := by
      rw [← QueryResolver.length_answer_le_iff_answeredInFrame, ← lengthPrefixed_framed_iff]
      apply right
      rw [QueryResolver.tcpConn_eq_map, asked]
      exact List.mem_singleton_self _
    have parsed : Message.parse bulkQuery = .ok bulkQuestion := by decide
    have short := fits bulkQuestion parsed _
      ⟨show QueryPolicy.default.validateQuery bulkQuestion = .ok () by decide, rfl, _, _, rfl, rfl⟩
    obtain ⟨response, opt, short, questions, answers, authorities, additionals⟩ :
        ∃ response : Message, response.optLen = 11 ∧ response.FitsFrame ∧
          response.questions = [⟨⟨[1, 97, 0]⟩, ⟨65280⟩, .IN⟩] ∧
          response.answers = [⟨⟨[1, 97, 0]⟩, ⟨65280⟩, .IN, 3600, .unknown data⟩] ∧
          response.authorities = [] ∧ response.additionals = [] :=
      ⟨_, rfl, short, rfl, rfl, rfl, rfl⟩
    obtain ⟨written, serialized, length⟩ :=
      writeSections_bulk questions answers authorities additionals (by omega)
    have total := short written serialized
    omega

end RecurseX
