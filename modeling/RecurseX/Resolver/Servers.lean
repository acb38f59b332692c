import RecurseX.Resolver.Basic

/-!
# Asking upstream servers

`queryServers` asks the servers of a zone one after the other until one gives a
usable response; `exchangeWith` does the same for a group of forwarders. Both
keep a ledger: the budget of the resolution, and every exchange that took place
with what was charged for it.
-/

namespace RecurseX

open Library

/-! ## Matching a response to its query -/

/-- The name with every octet in lower case. -/
def Name.canonical (self : Name) : Name := ⟨self.bytes.map asciiLower⟩

/-- Verify a response's question against the query we sent. -/
def responseMatchesQuery (query response : Message) : Bool :=
  if query.id ≠ response.id then false
  else match query.questions.head?, response.questions.head? with
    | some asked, some echoed =>
        if echoed.qtype ≠ asked.qtype ∨ echoed.qclass ≠ asked.qclass then false
        else echoed.qname.bytes == asked.qname.bytes ||
          echoed.qname.canonical == asked.qname.canonical
    | _, _ => false

/-- A message with nothing in it. -/
def Message.default : Message :=
  ⟨0, ⟨false, .QUERY, false, false, true, false, false, false, .NOERROR⟩, [], [], [], [], none⟩

/-- Whether a response answers the query with these octets. -/
def matchesQuery (query : Bytes) (response : Message) : Bool :=
  responseMatchesQuery ((Message.parse query).toOption.getD .default) response

/-! ## The ledger -/

/-- What was charged for an exchange. -/
inductive Charge where
  /-- The message and its bytes. -/
  | charged
  /-- The message; the budget had no room for the bytes. -/
  | refused
  /-- The message only: nothing came back. -/
  | counted
  /-- Nothing. -/
  | uncharged
deriving DecidableEq, Repr

/-- An exchange with an upstream. -/
structure WireExchange where
  endpoint : Endpoint
  sent : Nat
  received : Nat
  charge : Charge
deriving DecidableEq

/-- The bytes of both directions. -/
def WireExchange.bytes (self : WireExchange) : Nat := self.sent + self.received

/-- The budget of a resolution and all exchanges so far, which are history. -/
structure Ledger where
  budget : FetchBudget
  exchanges : List WireExchange

/-- Write down an exchange. -/
def Ledger.log (self : Ledger) (exchange : WireExchange) : Ledger :=
  { self with exchanges := self.exchanges ++ [exchange] }

/-! ## Query servers -/

/-- The fields of the engine's configuration that asking servers reads. -/
structure AskPolicy where
  maxServersTried : Nat
  maxAttemptsPerServer : Nat
  maxTotalAttempts : Nat
  /-- Retry over TCP after a truncated response. -/
  tcpFallback : Bool

/-- What the outside contributes to one attempt. -/
structure Attempt where
  /-- The query as it is sent. -/
  query : Bytes
  /-- Whether the deadline leaves any time for it. -/
  inTime : Bool
  reply : Result Bytes
  /-- What the same server answers over TCP. -/
  tcpReply : Result Bytes

/-- One call of `queryServers`. -/
structure ServerCall where
  /-- The servers by rank, and whether the deadline has expired when their turn comes. -/
  ranked : List (Endpoint × Bool)
  /-- Whether a response that carries nothing at all is no answer. -/
  skipEmpty : Bool
  /-- The attempts, in the order they are made. -/
  attempt : Nat → Attempt

/-- The state of the loops. -/
structure Asking where
  ledger : Ledger
  lastErr : Option Error
  totalAttempts : Nat

/-- How an attempt ends. -/
inductive Attempted where
  /-- The same server is tried again. -/
  | again (state : Asking)
  /-- The next server is tried. -/
  | next (state : Asking)
  | returned (result : Result Received) (state : Asking)

/-- The state after an attempt. -/
def Attempted.state : Attempted → Asking
  | .again state => state
  | .next state => state
  | .returned _ state => state

namespace Asking

/-- Ask again over TCP. -/
def overTcp (endpoint : Endpoint) (attempt : Attempt) (state : Asking) :
    Option Received × Asking :=
  let tcp := { endpoint with proto := .tcp }
  match attempt.tcpReply with
  | .error _ =>
      (none, { state with ledger := state.ledger.log ⟨tcp, attempt.query.length, 0, .uncharged⟩ })
  | .ok bytes =>
      let state := { state with
        ledger := state.ledger.log ⟨tcp, attempt.query.length, bytes.length, .uncharged⟩ }
      match parsed : Message.parse bytes with
      | .error _ => (none, state)
      | .ok msg =>
          (if matchesQuery attempt.query msg then some ⟨msg, bytes, parsed⟩ else none, state)

/-- Take a response, unless it says that this server did not answer the query. -/
def settle (skipEmpty : Bool) (received : Received) (state : Asking) : Attempted :=
  let msg := received.message
  if skipEmpty && msg.flags.rcode == .NOERROR && msg.answers.isEmpty &&
      msg.authorities.isEmpty && msg.additionals.isEmpty then
    .again { state with lastErr := some ⟨.servfail, "upstream answered with an empty message"⟩ }
  else if [Rcode.SERVFAIL, .REFUSED, .NOTIMP, .FORMERR].contains msg.flags.rcode then
    .again { state with
      lastErr := some ⟨.servfail, "upstream answered " ++ msg.flags.rcode.display⟩ }
  else .returned (.ok received) state

/-- Act on a reply that was charged for. -/
def consider (policy : AskPolicy) (skipEmpty : Bool) (endpoint : Endpoint) (attempt : Attempt)
    (bytes : Bytes) (state : Asking) : Attempted :=
  match parsed : Message.parse bytes with
  | .error error => .again { state with lastErr := some error }
  | .ok msg =>
      if matchesQuery attempt.query msg = false then .again state
      else if msg.flags.tc && policy.tcpFallback then
        match overTcp endpoint attempt state with
        | (some received, state) => .returned (.ok received) state
        | (none, state) => settle skipEmpty ⟨msg, bytes, parsed⟩ state
      else settle skipEmpty ⟨msg, bytes, parsed⟩ state

/-- One attempt with one server. Every upstream message and every byte is meant to
count against the resolution's envelope. -/
def ask (policy : AskPolicy) (skipEmpty : Bool) (endpoint : Endpoint) (attempt : Attempt)
    (state : Asking) : Attempted :=
  let state := { state with totalAttempts := state.totalAttempts + 1 }
  match state.ledger.budget.spendSubquery with
  | none => .returned (.error ⟨.noUpstream, "resolution budget exhausted (sub-queries)"⟩) state
  | some budget =>
      let ledger := { state.ledger with budget := budget }
      if attempt.inTime = false then .next { state with ledger := ledger }
      else match attempt.reply with
        | .error error =>
            .again { state with
              ledger := ledger.log ⟨endpoint, attempt.query.length, 0, .counted⟩
              lastErr := some error }
        | .ok bytes =>
            match budget.spendBytes (attempt.query.length + bytes.length) with
            | none =>
                let ledger := ledger.log ⟨endpoint, attempt.query.length, bytes.length, .refused⟩
                .returned (.error ⟨.noUpstream, "resolution budget exhausted (bytes)"⟩)
                  { state with ledger := ledger }
            | some budget =>
                let ledger := Ledger.log { ledger with budget := budget }
                  ⟨endpoint, attempt.query.length, bytes.length, .charged⟩
                consider policy skipEmpty endpoint attempt bytes { state with ledger := ledger }

variable (policy : AskPolicy) (call : ServerCall)

/-- The attempts with one server that are left. -/
def askServer (endpoint : Endpoint) : Nat → Asking → Attempted
  | 0, state => .next state
  | left + 1, state =>
      if policy.maxTotalAttempts ≤ state.totalAttempts then .next state
      else match ask policy call.skipEmpty endpoint (call.attempt state.totalAttempts) state with
        | .again state => askServer endpoint left state
        | other => other

/-- The result when no server gave one. -/
def exhausted (state : Asking) : Result Received × Ledger :=
  (.error (state.lastErr.getD ⟨.timeout, "no upstream answered"⟩), state.ledger)

/-- The servers that are left. -/
def askServers : List (Endpoint × Bool) → Asking → Result Received × Ledger
  | [], state => state.exhausted
  | (endpoint, expired) :: servers, state =>
      if expired then state.exhausted
      else match askServer policy call endpoint policy.maxAttemptsPerServer state with
        | .returned result state => (result, state.ledger)
        | .again state | .next state => askServers servers state

end Asking

/-- Send the query to the best-ranked servers until one answers. -/
def queryServers (policy : AskPolicy) (call : ServerCall) (ledger : Ledger) :
    Result Received × Ledger :=
  if call.ranked = [] then (.error ⟨.noUpstream, "no servers to query"⟩, ledger)
  else
    let maxServers := min call.ranked.length (max policy.maxServersTried 1)
    Asking.askServers policy call (call.ranked.take maxServers) ⟨ledger, none, 0⟩

/-! ## Forwarders -/

/-- One server of a group, the text of its address, and its reply. -/
structure Forwarder where
  endpoint : Endpoint
  shown : String
  reply : Result Bytes

/-- Send a query to the group until one of its servers answers. Nothing is charged. -/
def exchangeWith (query : Message) (queryBytes : Bytes) :
    List Forwarder → Option Error → List WireExchange → Result Message × List WireExchange
  | [], lastErr, log =>
      (.error (lastErr.getD ⟨.noUpstream, "no forwarder answered"⟩), log)
  | forwarder :: group, _, log =>
      let again := exchangeWith query queryBytes group
      match forwarder.reply with
      | .error error =>
          again (some error) (log ++ [⟨forwarder.endpoint, queryBytes.length, 0, .uncharged⟩])
      | .ok bytes =>
          let log := log ++ [⟨forwarder.endpoint, queryBytes.length, bytes.length, .uncharged⟩]
          match Message.parse bytes with
          | .error error => again (some error) log
          | .ok resp =>
              if responseMatchesQuery query resp = false then
                again (some ⟨.transport, "forwarder response did not match query"⟩) log
              else
                let code : Rcode := ⟨resp.rcode.toUInt8⟩
                if resp.rcode.toNat ≤ 255 ∧ code.isFailure = true then
                  again (some ⟨if code = .REFUSED then .refused else .servfail,
                    "the upstream " ++ forwarder.shown ++ " answered " ++ code.display⟩) log
                else (.ok resp, log)

end RecurseX
