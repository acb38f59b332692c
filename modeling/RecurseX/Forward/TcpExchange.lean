import RecurseX.Forward.Transports
import RecurseX.Server.Stream

/-!
# An exchange over TCP

The TCP transport on one end of a connection and the server on the other. The transport writes
its query in a frame and reads one frame; octets are under way in both directions, and each end
may fail or give up at any moment.
-/

namespace RecurseX.Forward

open Library Wire

/-- Where `TcpTransport::exchange` stands, once it is connected. -/
inductive ClientPhase where
  /-- In front of `write_all`. -/
  | writing
  | reading (reading : Reading)
  | returned (result : Result Bytes)

namespace ClientPhase

/-- Whether the stream has been dropped. -/
def isReturned : ClientPhase → Bool
  | .returned _ => true
  | _ => false

/-- Go on with the octets of a read. -/
def proceed (maxMessage : Nat) : Filled → ClientPhase
  | .more further => .reading further
  | .header len =>
      if max maxMessage maxTcpMessage < len then
        .returned (.error (.transport ("tcp message too large (" ++ toString len ++ " > " ++
          toString (max maxMessage maxTcpMessage) ++ ")")))
      -- Nothing is read into an empty buffer.
      else if len = 0 then .returned (.ok [])
      else .reading (.body len [])
  | .message octets => .returned (.ok octets)

/-- What a read that failed is reported as. -/
def readError (reason : String) : Reading → Error
  | .length _ => .io ("tcp read length: " ++ reason)
  | .body _ _ => .io ("tcp read body: " ++ reason)

/-- The steps the client takes at most, besides reading, and the octets it has not written. -/
def toGo (query : Bytes) : ClientPhase → Nat
  | .writing => (framed query).length + 2
  | .reading _ => 1
  | .returned _ => 0

end ClientPhase

/-- Both ends. -/
structure TcpExchange where
  client : ClientPhase
  server : TcpStream
  /-- What the server has written and the client has not read. -/
  unread : Bytes

/-- What the ends do. -/
inductive ExchangeEvent where
  /-- The client writes the query, or fails after so many octets of it. -/
  | write (cut : Option (Nat × String))
  | read (count : Nat)
  | eof
  | fail (reason : String)
  /-- The server goes on. -/
  | server (event : StreamEvent)
deriving DecidableEq, Repr

namespace TcpExchange

/-- The connection is there. -/
def start (query : Bytes) : TcpExchange where
  client := match oversized .tcp query with
    | some error => .returned (.error error)
    | none => .writing
  server := .initial
  unread := []

/-- The client goes on; when it returns, its end is closed. -/
def settle (self : TcpExchange) (client : ClientPhase) : TcpExchange :=
  { self with client
              server := if client.isReturned then { self.server with closed := true }
                else self.server }

/-- The client sends these octets. -/
def send (self : TcpExchange) (octets : Bytes) : TcpExchange :=
  { self with server := { self.server with
      sent := self.server.sent ++ octets, unread := self.server.unread ++ octets } }

section Step

variable (resolver : Nat → QueryResolver) (clientIp : Option IpAddr) (maxMessage : Nat)
  (query : Bytes)

/-- Both ends after an event, when it can happen. -/
def step (self : TcpExchange) (event : ExchangeEvent) : Option TcpExchange :=
  match event, self.client with
  | .server event, _ =>
      if event.isOwn then
        (self.server.step resolver clientIp event).map fun next =>
          { self with
            server := next
            unread := self.unread ++ next.output.drop self.server.output.length }
      else none
  | .write none, .writing => some ((self.send (framed query)).settle (.reading (.length [])))
  | .write (some (octets, reason)), .writing =>
      some ((self.send ((framed query).take octets)).settle
        (.returned (.error (.io ("tcp write: " ++ reason)))))
  | .read count, .reading reading =>
      if 0 < count ∧ count ≤ reading.wanted ∧ count ≤ self.unread.length then
        some ({ self with unread := self.unread.drop count }.settle
          (.proceed maxMessage (reading.fill (self.unread.take count))))
      else none
  | .eof, .reading reading =>
      if self.server.phase.isReturned ∧ self.unread = [] then
        some (self.settle (.returned
          (.error (ClientPhase.readError "failed to fill whole buffer" reading))))
      else none
  | .fail reason, .reading reading =>
      some (self.settle (.returned (.error (ClientPhase.readError reason reading))))
  | _, _ => none

end Step

variable {resolver : Nat → QueryResolver} {clientIp : Option IpAddr} {maxMessage : Nat}
  {query : Bytes} {exchange next : TcpExchange} {event : ExchangeEvent}

/-- What an event can do. -/
theorem step_cases (stepped : exchange.step resolver clientIp maxMessage query event = some next) :
    (∃ own after, event = .server own ∧ own.isOwn = true ∧
      exchange.server.step resolver clientIp own = some after ∧
      next = { exchange with
        server := after
        unread := exchange.unread ++ after.output.drop exchange.server.output.length }) ∨
    (exchange.client = .writing ∧
      (next = (exchange.send (framed query)).settle (.reading (.length [])) ∨
        ∃ octets error, next =
          (exchange.send ((framed query).take octets)).settle (.returned (.error error)))) ∨
    ∃ reading, exchange.client = .reading reading ∧
      ((∃ count, (0 < count ∧ count ≤ reading.wanted ∧ count ≤ exchange.unread.length) ∧ next =
          ({ exchange with unread := exchange.unread.drop count } : TcpExchange).settle
            (.proceed maxMessage (reading.fill (exchange.unread.take count)))) ∨
        ∃ error, next = exchange.settle (.returned (.error error))) := by
  obtain ⟨client, server, unread⟩ := exchange
  unfold step at stepped
  cases event with
  | server own =>
      left
      dsimp only at stepped
      split_ifs at stepped with isOwn
      obtain ⟨after, went, rfl⟩ := Option.map_eq_some_iff.mp stepped
      exact ⟨own, after, rfl, isOwn, went, rfl⟩
  | write cut =>
      right
      left
      cases client with
      | writing =>
          cases cut with
          | none => exact ⟨rfl, .inl (Option.some.inj stepped).symm⟩
          | some cut => exact ⟨rfl, .inr ⟨_, _, (Option.some.inj stepped).symm⟩⟩
      | reading reading => cases cut <;> cases stepped
      | returned result => cases cut <;> cases stepped
  | read count =>
      right
      right
      cases client with
      | writing => cases stepped
      | reading reading =>
          dsimp only at stepped
          split_ifs at stepped with able
          exact ⟨reading, rfl, .inl ⟨count, able, (Option.some.inj stepped).symm⟩⟩
      | returned result => cases stepped
  | eof =>
      right
      right
      cases client with
      | writing => cases stepped
      | reading reading =>
          dsimp only at stepped
          split_ifs at stepped
          exact ⟨reading, rfl, .inr ⟨_, (Option.some.inj stepped).symm⟩⟩
      | returned result => cases stepped
  | fail reason =>
      right
      right
      cases client with
      | writing => cases stepped
      | reading reading => exact ⟨reading, rfl, .inr ⟨_, (Option.some.inj stepped).symm⟩⟩
      | returned result => cases stepped

/-! ## What every event keeps -/

/-- What the client's phase says about the octets on the connection. -/
def Accounts (query : Bytes) (server : TcpStream) (unread : Bytes) : ClientPhase → Prop
  | .writing =>
      query.length ≤ 65535 ∧ server.sent = [] ∧ server.closed = false ∧ server.output = unread
  | .reading reading =>
      query.length ≤ 65535 ∧ reading.Partial ∧ server.sent = framed query ∧
        server.closed = false ∧ server.output = reading.octets ++ unread
  | .returned (.ok octets) =>
      query.length ≤ 65535 ∧ server.sent = framed query ∧ octets.length ≤ 65535 ∧
        framed octets <+: server.output
  | .returned (.error _) => True

/-- What holds of both ends at every moment. -/
structure Linked (resolver : Nat → QueryResolver) (clientIp : Option IpAddr) (query : Bytes)
    (exchange : TcpExchange) : Prop where
  served : TcpStream.Kept resolver clientIp exchange.server
  sent : exchange.server.sent <+: framed query
  accounts : Accounts query exchange.server exchange.unread exchange.client

theorem linked_start : Linked resolver clientIp query (start query) where
  served := TcpStream.kept_initial
  sent := List.nil_prefix
  accounts := by
    unfold start oversized
    split_ifs with short
    · exact ⟨short, rfl, rfl, rfl⟩
    · trivial

theorem Accounts.server {server after : TcpStream} {unread : Bytes} {client : ClientPhase}
    (accounts : Accounts query server unread client)
    (grown : after.sent = server.sent ∧ after.closed = server.closed ∧ server.output <+: after.output) :
    Accounts query after (unread ++ after.output.drop server.output.length) client := by
  obtain ⟨sent, closed, later, output⟩ := grown
  have added : after.output.drop server.output.length = later := by
    rw [← output, List.drop_left]
  rw [added]
  cases client with
  | writing =>
      obtain ⟨short, nothing, isOpen, written⟩ := accounts
      exact ⟨short, sent.trans nothing, closed.trans isOpen, by rw [← output, written]⟩
  | reading reading =>
      obtain ⟨short, room, asked, isOpen, written⟩ := accounts
      exact ⟨short, room, sent.trans asked, closed.trans isOpen,
        by rw [← output, written, List.append_assoc]⟩
  | returned result =>
      cases result with
      | error error => trivial
      | ok octets =>
          obtain ⟨short, asked, fits, read⟩ := accounts
          exact ⟨short, sent.trans asked, fits, read.trans ⟨later, output⟩⟩

/-- An end that returned with an error has been closed and promises nothing. -/
theorem Linked.returned_error (exchange : TcpExchange)
    (served : TcpStream.Kept resolver clientIp exchange.server)
    (sent : exchange.server.sent <+: framed query) (error : Error) :
    Linked resolver clientIp query (exchange.settle (.returned (.error error))) :=
  ⟨served.close, sent, trivial⟩

/-- The octets of a read are those of a frame that the server wrote. -/
theorem Linked.read {reading : Reading} {count : Nat}
    (linked : Linked resolver clientIp query exchange) (phase : exchange.client = .reading reading)
    (within : count ≤ reading.wanted) :
    Linked resolver clientIp query
      (({ exchange with unread := exchange.unread.drop count } : TcpExchange).settle
        (.proceed maxMessage (reading.fill (exchange.unread.take count)))) := by
  obtain ⟨client, server, unread⟩ := exchange
  obtain rfl : client = .reading reading := phase
  obtain ⟨served, sent, short, room, asked, isOpen, written⟩ := linked
  have fits : (unread.take count).length ≤ reading.wanted := by
    rw [List.length_take]
    omega
  have output : server.output = reading.octets ++ unread.take count ++ unread.drop count := by
    rw [List.append_assoc, List.take_append_drop]
    exact written
  dsimp only at asked isOpen ⊢
  cases filled : reading.fill (unread.take count) with
  | more further =>
      obtain ⟨left, read⟩ := Reading.fill_more room fits filled
      exact ⟨served, sent, short, left, asked, isOpen, by rw [read]; exact output⟩
  | header len =>
      obtain ⟨read, bounded⟩ := Reading.fill_header filled
      rw [read] at output
      unfold ClientPhase.proceed
      dsimp only
      split_ifs with large empty
      · exact Linked.returned_error ⟨_, server, unread.drop count⟩ served sent _
      · subst empty
        exact ⟨served.close, sent, short, asked, Nat.zero_le _, ⟨unread.drop count, output.symm⟩⟩
      · have nothing : (Reading.body len []).octets = be16 (UInt16.ofNat len) := List.append_nil _
        exact ⟨served, sent, short, ⟨Nat.pos_of_ne_zero empty, bounded⟩, asked, isOpen,
          by rw [nothing]; exact output⟩
  | message octets =>
      obtain ⟨read, -, bounded⟩ := Reading.fill_message room filled
      rw [read] at output
      exact ⟨served.close, sent, short, asked, bounded, ⟨unread.drop count, output.symm⟩⟩

theorem Linked.step (linked : Linked resolver clientIp query exchange)
    (stepped : exchange.step resolver clientIp maxMessage query event = some next) :
    Linked resolver clientIp query next := by
  obtain ⟨own, after, -, isOwn, went, rfl⟩ | ⟨phase, wrote⟩ | ⟨reading, phase, went⟩ :=
    step_cases stepped
  · have grown := TcpStream.step_grows went isOwn
    exact ⟨linked.served.step went, grown.1 ▸ linked.sent, linked.accounts.server grown⟩
  · have accounts := linked.accounts
    rw [phase] at accounts
    obtain ⟨short, nothing, isOpen, written⟩ := accounts
    have able : exchange.server.closed ≠ true := by
      rw [isOpen]
      decide
    have sends (octets : Bytes) : (exchange.send octets).server.sent = octets := by
      change exchange.server.sent ++ octets = octets
      rw [nothing, List.nil_append]
    obtain rfl | ⟨octets, error, rfl⟩ := wrote
    · exact ⟨linked.served.arrive able _, (sends _) ▸ List.prefix_rfl, short, Nat.zero_lt_two,
        sends _, isOpen, written⟩
    · exact Linked.returned_error (exchange.send ((framed query).take octets))
        (linked.served.arrive able _) ((sends _).symm ▸ List.take_prefix octets _) error
  · obtain ⟨count, able, rfl⟩ | ⟨error, rfl⟩ := went
    · exact linked.read phase able.2.1
    · exact Linked.returned_error exchange linked.served linked.sent error

/-- Runs of one exchange. -/
abbrev Reached (resolver : Nat → QueryResolver) (clientIp : Option IpAddr) (maxMessage : Nat)
    (query : Bytes) (events : List ExchangeEvent) (exchange : TcpExchange) : Prop :=
  Runs (fun exchange event => exchange.step resolver clientIp maxMessage query event)
    (fun _ _ => True) (start query) events exchange

variable {events : List ExchangeEvent}

theorem Reached.linked (run : Reached resolver clientIp maxMessage query events exchange) :
    Linked resolver clientIp query exchange :=
  run.invariant (fun linked _ taken => linked.step taken) linked_start

/-! ## What an exchange returns -/

/-- The answers to a query in its frame: one, unless the query is empty. -/
theorem served_framed (short : query.length ≤ 65535) :
    TcpStream.served resolver clientIp (framed query) =
      if query = [] then [] else framed ((resolver 0).answer query clientIp none) := by
  unfold TcpStream.served
  split_ifs with empty
  · subst empty
    have none : readQueries (framed []) = [] := by
      change readQueries [0, 0] = []
      rw [readQueries]
      exact if_pos rfl
    rw [none]
    rfl
  · have one := readQueries_framed empty short []
    rw [List.append_nil] at one
    rw [one, readQueries]
    · exact List.append_nil _
    · rintro high low rest nothing
      cases nothing

/-- The frame at the front of another: as many octets as the length says, from its front. -/
theorem framed_prefix {message other : Bytes} (front : framed message <+: framed other) :
    message.length % 65536 = other.length % 65536 ∧ message <+: other := by
  have words : be16 (UInt16.ofNat message.length) = be16 (UInt16.ofNat other.length) := by
    have heads := front.take 2
    rw [framed, framed, List.take_left' (length_be16 _), List.take_left' (length_be16 _)] at heads
    exact heads.eq_of_length rfl
  refine ⟨?_, ?_⟩
  · have lengths := congrArg UInt16.toNat (Reading.be16_injective words)
    rw [UInt16.toNat_ofNat', UInt16.toNat_ofNat'] at lengths
    exact lengths
  · unfold framed at front
    rw [words] at front
    exact (List.prefix_append_right_inj _).mp front

/-- **What comes back is the answer.** However the octets are cut on their way, an exchange that
returns a message returns the front of the server's answer to the very query that its frame's
16 bits count. That is the answer exactly when a resolved query gets a response that fits a
frame. -/
theorem tcp_exchange_returns (resolver : Nat → QueryResolver) (clientIp : Option IpAddr)
    (maxMessage : Nat) (query : Bytes) (events : List ExchangeEvent) (exchange : TcpExchange)
    (run : Reached resolver clientIp maxMessage query events exchange) (octets : Bytes)
    (returned : exchange.client = .returned (.ok octets)) :
    query ≠ [] ∧
      octets = ((resolver 0).answer query clientIp none).take
        (((resolver 0).answer query clientIp none).length % 65536) ∧
      (octets = (resolver 0).answer query clientIp none ↔
        (resolver 0).AnsweredInFrame clientIp query) := by
  rw [← (resolver 0).length_answer_le_iff_answeredInFrame clientIp query]
  have linked := run.linked
  have accounts := linked.accounts
  rw [returned] at accounts
  obtain ⟨short, asked, bounded, read⟩ := accounts
  have front := read.trans linked.served.output_front
  rw [asked, served_framed short] at front
  generalize (resolver 0).answer query clientIp none = answer at front ⊢
  split_ifs at front with empty
  · have none := List.prefix_nil.mp front
    cases none
  obtain ⟨lengths, part⟩ := framed_prefix front
  rw [Nat.mod_eq_of_lt (Nat.lt_succ_of_le bounded)] at lengths
  refine ⟨empty, ?_, ?_⟩
  · rw [← lengths]
    exact List.prefix_iff_eq_take.mp part
  · constructor
    · rintro rfl
      exact bounded
    · intro fits
      rw [Nat.mod_eq_of_lt (Nat.lt_succ_of_le fits)] at lengths
      exact part.eq_of_length lengths

/-- The events of an exchange in which the server reads the length first. -/
def plainEvents : List ExchangeEvent :=
  [.write none, .server (.read 2 none), .server (.read 1 none), .read 2, .read 12]

/-- The answer to a query that does not parse. -/
def malformedAnswer : Bytes := [0, 0, 0x80, 0x81, 0, 0, 0, 0, 0, 0, 0, 0]

/-- After these events. -/
def plainExchange : TcpExchange where
  client := .returned (.ok malformedAnswer)
  server := {
    phase := .reading (.length [])
    answered := 1
    sent := [0, 1, 7]
    unread := []
    closed := true
    output := framed malformedAnswer }
  unread := []

theorem plainExchange_reached :
    Reached (fun _ => forwardingResolver (bulkReply [])) none 0 [7] plainEvents plainExchange :=
  runs_of_runActions rfl

/-- The client has the answer. -/
theorem tcp_exchange_returns_malformed :
    malformedAnswer = (forwardingResolver (bulkReply [])).answer [7] none none :=
  (tcp_exchange_returns (fun _ => forwardingResolver (bulkReply [])) none 0 [7] plainEvents
    plainExchange plainExchange_reached malformedAnswer rfl).2.2.mpr
      (((forwardingResolver (bulkReply [])).length_answer_le_iff_answeredInFrame none [7]).mp
        (by decide))

/-! ## An exchange comes to its end -/

/-- What may still happen: octets not written, not read, and ends not returned. -/
def remaining (resolver : Nat → QueryResolver) (clientIp : Option IpAddr) (query : Bytes)
    (exchange : TcpExchange) : Nat :=
  exchange.client.toGo query + exchange.server.spending + exchange.unread.length +
    ((TcpStream.served resolver clientIp (framed query)).length - exchange.server.output.length)

/-- The server writes no more than the answers to the whole query. -/
theorem Linked.output_length_le (linked : Linked resolver clientIp query exchange) :
    exchange.server.output.length ≤
      (TcpStream.served resolver clientIp (framed query)).length := by
  obtain ⟨later, whole⟩ := linked.sent
  have front := linked.served.output_front.trans (TcpStream.served_front exchange.server.sent later)
  rw [whole] at front
  exact front.length_le

theorem remaining_settle (exchange : TcpExchange) (client : ClientPhase) :
    (exchange.settle client).remaining resolver clientIp query =
      client.toGo query + exchange.server.spending + exchange.unread.length +
        ((TcpStream.served resolver clientIp (framed query)).length -
          exchange.server.output.length) := by
  unfold remaining settle
  dsimp only
  split_ifs <;> rfl

theorem spending_send (exchange : TcpExchange) (octets : Bytes) :
    (exchange.send octets).server.spending = exchange.server.spending + octets.length := by
  unfold send TcpStream.spending
  dsimp only
  rw [List.length_append]
  omega

theorem toGo_proceed_le (filled : Filled) :
    (ClientPhase.proceed maxMessage filled).toGo query ≤ 1 := by
  cases filled with
  | more further => exact le_rfl
  | header len =>
      unfold ClientPhase.proceed
      dsimp only
      split_ifs
      · exact Nat.zero_le 1
      · exact Nat.zero_le 1
      · exact le_rfl
  | message octets => exact Nat.zero_le 1

/-- Whatever happens but polling, less remains. -/
theorem Linked.remaining_lt (linked : Linked resolver clientIp query exchange)
    (stepped : exchange.step resolver clientIp maxMessage query event = some next)
    (busy : event ≠ .server .poll) :
    next.remaining resolver clientIp query < exchange.remaining resolver clientIp query := by
  obtain ⟨own, after, rfl, isOwn, went, rfl⟩ | ⟨phase, wrote⟩ | ⟨reading, phase, went⟩ :=
    step_cases stepped
  · have spent := TcpStream.step_spends went isOwn fun poll => busy (congrArg _ poll)
    have written := (linked.step stepped).output_length_le
    obtain ⟨-, -, later, output⟩ := TcpStream.step_grows went isOwn
    have added : after.output.length = exchange.server.output.length + later.length := by
      rw [← output, List.length_append]
    unfold remaining
    dsimp only at written ⊢
    rw [List.length_append, List.length_drop]
    omega
  · have before : exchange.client.toGo query = (framed query).length + 2 := by
      rw [phase]
      rfl
    have unchanged (octets : Bytes) : (exchange.send octets).unread = exchange.unread ∧
        (exchange.send octets).server.output = exchange.server.output := ⟨rfl, rfl⟩
    obtain rfl | ⟨octets, error, rfl⟩ := wrote
    · rw [remaining_settle, spending_send, (unchanged _).1, (unchanged _).2, remaining, before]
      change 1 + _ + _ + _ < _
      omega
    · rw [remaining_settle, spending_send, (unchanged _).1, (unchanged _).2, remaining, before]
      change 0 + _ + _ + _ < _
      have part := List.length_take_le' octets (framed query)
      omega
  · have before : exchange.client.toGo query = 1 := by
      rw [phase]
      rfl
    obtain ⟨count, able, rfl⟩ | ⟨error, rfl⟩ := went
    · rw [remaining_settle, remaining, before]
      have after : (ClientPhase.proceed maxMessage
          (reading.fill (exchange.unread.take count))).toGo query ≤ 1 := toGo_proceed_le _
      dsimp only
      rw [List.length_drop]
      omega
    · rw [remaining_settle, remaining, before]
      change 0 + _ + _ + _ < _
      omega

/-- A poll leaves everything as it is. -/
theorem step_poll (stepped : exchange.step resolver clientIp maxMessage query (.server .poll) =
    some next) : next = exchange := by
  obtain ⟨client, server, unread⟩ := exchange
  obtain ⟨after, went, rfl⟩ := Option.map_eq_some_iff.mp stepped
  obtain rfl := TcpStream.eq_of_step_poll went
  rw [List.drop_length, List.append_nil]

/-- The events of a run, besides polls, use up what remained. -/
theorem Reached.remaining_add_le
    (run : Reached resolver clientIp maxMessage query events exchange) :
    exchange.remaining resolver clientIp query +
        (events.filter fun event => event ≠ .server .poll).length ≤
      (start query).remaining resolver clientIp query := by
  induction run with
  | refl => exact le_rfl
  | @step earlier before after event prior meets taken inductionHypothesis =>
      have linked : Linked resolver clientIp query before := Reached.linked prior
      rw [List.filter_append, List.length_append]
      by_cases poll : event = .server .poll
      · subst poll
        obtain rfl := step_poll taken
        rw [List.filter_singleton]
        simpa using inductionHypothesis
      · have less := linked.remaining_lt taken poll
        have one : ([event].filter fun event => event ≠ .server .poll).length = 1 := by
          simp [poll]
        omega

/-- An event in which no end fails, gives up or waits. -/
def Goes : ExchangeEvent → Prop
  | .write none | .read _ | .eof | .server (.read _ none) | .server .eof => True
  | _ => False

/-- A server that has read an empty frame does not go on reading. -/
theorem not_idle_of_empty {server : TcpStream} {reading : Reading} {queries : List Bytes}
    (accounted : TcpStream.Accounted resolver clientIp server reading queries)
    (asked : server.sent = framed []) : server.unread ≠ [] := by
  intro nothing
  have sent := accounted.sent
  rw [asked, nothing, List.append_nil] at sent
  cases queries with
  | nil => exact Reading.octets_ne_framed accounted.room [] sent.symm
  | cons query queries =>
      have nonempty := (accounted.whole query List.mem_cons_self).1
      have positive := List.length_pos_iff.mpr nonempty
      have lengths := congrArg List.length sent
      simp only [framed, List.map_cons, List.flatten_cons, List.length_append, length_be16,
        List.length_nil] at lengths
      omega

/-- While the client has not returned, there is something to be done. -/
theorem Linked.goes (linked : Linked resolver clientIp query exchange)
    (running : exchange.client.isReturned = false) :
    ∃ event next, Goes event ∧
      exchange.step resolver clientIp maxMessage query event = some next := by
  obtain ⟨client, server, unread⟩ := exchange
  obtain ⟨served, sent, accounts⟩ := linked
  cases client with
  | returned result => cases running
  | writing => exact ⟨.write none, _, trivial, rfl⟩
  | reading reading =>
      obtain ⟨short, room, asked, isOpen, written⟩ := accounts
      dsimp only at asked isOpen written
      by_cases pending : unread = []
      swap
      · exact ⟨.read 1, _, trivial,
          if_pos ⟨Nat.one_pos, Reading.wanted_pos room, List.length_pos_iff.mpr pending⟩⟩
      cases phase : server.phase with
      | returned ending =>
          refine ⟨.eof, _, trivial, if_pos ⟨?_, pending⟩⟩
          rw [phase]
          rfl
      | reading further =>
          have kept := served
          unfold TcpStream.Kept at kept
          dsimp only at kept
          rw [phase] at kept
          obtain ⟨queries, accounted⟩ := kept
          by_cases nothing : server.unread = []
          · -- The server has read the query, and the client all of the answer.
            exfalso
            rw [pending, List.append_nil, accounted.output_eq nothing, asked,
              served_framed short] at written
            split_ifs at written with empty
            · subst empty
              exact not_idle_of_empty accounted asked nothing
            · exact Reading.octets_ne_framed room _ written.symm
          · obtain ⟨after, went⟩ :=
              server.exists_step_read resolver clientIp phase accounted.room nothing
            exact ⟨.server (.read 1 none), _, trivial, congrArg (Option.map _) went⟩

/-- **An exchange comes to its end.** Besides polls, a run has at most as many events as the query
and the answer to it have octets, and five; and while the client has not returned, either end can
go on without failing, giving up or waiting. -/
theorem tcp_exchange_completes (resolver : Nat → QueryResolver) (clientIp : Option IpAddr)
    (maxMessage : Nat) (query : Bytes) (events : List ExchangeEvent) (exchange : TcpExchange)
    (run : Reached resolver clientIp maxMessage query events exchange) :
    (events.filter fun event => event ≠ .server .poll).length ≤
        query.length + (TcpStream.served resolver clientIp (framed query)).length + 5 ∧
      (exchange.client.isReturned = false → ∃ event next, Goes event ∧
        exchange.step resolver clientIp maxMessage query event = some next) := by
  refine ⟨?_, run.linked.goes⟩
  have started : (start query).client.toGo query ≤ (framed query).length + 2 := by
    unfold start
    dsimp only
    cases oversized .tcp query with
    | none => exact le_rfl
    | some error => exact Nat.zero_le _
  have octets : (framed query).length = query.length + 2 := by
    rw [framed, List.length_append, length_be16, Nat.add_comm]
  have used := run.remaining_add_le
  have remains : (start query).remaining resolver clientIp query =
      (start query).client.toGo query + 1 + 0 +
        ((TcpStream.served resolver clientIp (framed query)).length - 0) := rfl
  omega

/-- Five events. -/
theorem tcp_exchange_completes_malformed :
    (plainEvents.filter fun event => event ≠ .server .poll).length ≤ [(7 : UInt8)].length +
      (TcpStream.served (fun _ => forwardingResolver (bulkReply [])) none (framed [7])).length + 5 :=
  (tcp_exchange_completes (fun _ => forwardingResolver (bulkReply [])) none 0 [7] plainEvents
    plainExchange plainExchange_reached).1

end TcpExchange

end RecurseX.Forward
