import RecurseX.Forward.Transports
import RecurseX.Library.Runs

/-!
# Calls that share their transports

Any number of threads ask groups of forwarders at once. The pools are locked while a
transport is handed out; the connection of a DoQ transport is locked for a whole
exchange. What the network does, and which thread goes next, is left open.
-/

namespace RecurseX.Forward

open Library

/-! ## Calls -/

/-- Where a call of `exchange_with` stands. -/
inductive CallPhase where
  /-- At the head of the loop. -/
  | asking
  /-- With a transport from the pool. -/
  | holding (transport : Nat)
  /-- With the connection of a DoQ transport locked, and the query on it. -/
  | onWire (transport : Nat)
  | returned (result : Result Message)

/-- The transport a call has from the pool. -/
def CallPhase.transport : CallPhase → Option Nat
  | .holding transport | .onWire transport => some transport
  | .asking | .returned _ => none

/-- A call of `exchange_with`. -/
structure Call where
  query : Message
  queryBytes : Bytes
  group : List Forwarder
  /-- The servers that are left; the first one is being asked. -/
  rest : List Forwarder
  lastErr : Option Error
  phase : CallPhase
  /-- The servers that were asked, with their replies. -/
  asked : List (Forwarder × Result Bytes)

/-- What `exchange_with` makes of a reply: a final response, or why the next server is asked. -/
def verdict (query : Message) (f : Forwarder) (reply : Result Bytes) : Result Message :=
  match reply with
  | .error error => .error error
  | .ok bytes =>
      match Message.parse bytes with
      | .error error => .error error
      | .ok resp =>
          if responseMatchesQuery query resp = false then
            .error (.transport "forwarder response did not match query")
          else
            let code : Rcode := ⟨resp.rcode.toUInt8⟩
            if resp.rcode.toNat ≤ 255 ∧ code.isFailure = true then
              .error ⟨if code = .REFUSED then .refused else .servfail,
                "the upstream " ++ f.endpoint.ip.display ++ " answered " ++ code.display⟩
            else .ok resp

namespace Call

/-- The call as it starts. -/
def start (group : List Forwarder) (query : Message) (queryBytes : Bytes) : Call :=
  ⟨query, queryBytes, group, group, none, .asking, []⟩

/-- The body of the loop after the exchange. -/
def heard (self : Call) (f : Forwarder) (rest : List Forwarder) (reply : Result Bytes) : Call :=
  let asked := self.asked ++ [(f, reply)]
  match verdict self.query f reply with
  | .ok resp => { self with rest := rest, phase := .returned (.ok resp), asked := asked }
  | .error error =>
      { self with rest := rest, lastErr := some error, phase := .asking, asked := asked }

/-- After a reply the call has no transport. -/
theorem transport_heard (self : Call) (f : Forwarder) (rest : List Forwarder)
    (reply : Result Bytes) : (self.heard f rest reply).phase.transport = none := by
  unfold heard
  split <;> rfl

/-- The end of the loop. -/
def finish (self : Call) : Call :=
  { self with
    phase := .returned (.error (self.lastErr.getD ⟨.noUpstream, "no forwarder answered"⟩)) }

end Call

/-! ## The calls and what they share -/

/-- An exchange that took place. -/
structure Sent (Roots : Type) where
  thread : Nat
  forwarder : Forwarder
  dial : Dial Roots
  transport : Option Nat
  /-- The QUIC connection it went over. -/
  session : Option Nat
  outcome : Result Bytes

/-- The pools, the calls, and the exchanges that took place. -/
structure Shared (Roots : Type) where
  pools : ForwarderSet Roots
  calls : List Call
  /-- How many QUIC connections were made. -/
  sessions : Nat
  sent : List (Sent Roots)

/-- One atomic step of a call, and what comes from outside. -/
inductive ForwardAction where
  | call (group : List Forwarder) (query : Message) (queryBytes : Bytes)
  | obtain (thread : Nat)
  /-- The exchange over a transport that does not lock its connection. -/
  | exchange (thread : Nat) (reply : Result Bytes)
  /-- Lock the connection of a DoQ transport, and connect if there is no open one. -/
  | lock (thread : Nat) (connected : Result Unit)
  /-- Return from `exchange_query`, and leave the lock. -/
  | complete (thread : Nat) (outcome : Result Bytes) (isOpen : Bool)
  | finish (thread : Nat)

/-- A step of a call that has started. -/
def ForwardAction.ofCall : ForwardAction → Bool
  | .call .. => false
  | _ => true

variable {Roots : Type}

/-- Where a plain exchange goes. -/
def Forwarder.plainDial (self : Forwarder) : Option (Dial Roots) :=
  match self.endpoint.proto with
  | .udp => some (.udp self.endpoint.ip self.endpoint.port)
  | .tcp => some (.tcp self.endpoint.ip self.endpoint.port)
  | _ => none

namespace Shared

/-- A set that nobody has used. -/
def initial (pools : ForwarderSet Roots) : Shared Roots := ⟨pools, [], 0, []⟩

/-- The call of a thread goes on. -/
def setCall (self : Shared Roots) (thread : Nat) (call : Call) : Shared Roots :=
  { self with calls := self.calls.set thread call }

/-- The call goes on, and an exchange took place. -/
def record (self : Shared Roots) (sent : Sent Roots) : Shared Roots :=
  { self with sent := self.sent ++ [sent] }

/-- Take the transport from the pool, or build it. -/
def obtain (self : Shared Roots) (thread : Nat) : Option (Shared Roots) :=
  match self.calls[thread]? with
  | some call =>
      match call.phase, call.rest with
      | .asking, f :: _ =>
          match self.pools.pooledTransport f with
          | some (pools, transport) =>
              some { self.setCall thread { call with phase := .holding transport } with pools }
          | none => none
      | _, _ => none
  | none => none

/-- Exchange over a plain transport, or over one that does not lock its connection. -/
def exchange (self : Shared Roots) (thread : Nat) (reply : Result Bytes) :
    Option (Shared Roots) :=
  match self.calls[thread]? with
  | some call =>
      match call.phase, call.rest with
      | .asking, f :: rest =>
          match f.plainDial with
          | some dial =>
              match oversized f.endpoint.proto call.queryBytes with
              | some error => some (self.setCall thread (call.heard f rest (.error error)))
              | none =>
                  some ((self.setCall thread (call.heard f rest reply)).record
                    ⟨thread, f, dial, none, none, reply⟩)
          | none => none
      | .holding transport, f :: rest =>
          match oversized f.endpoint.proto call.queryBytes with
          | some error => some (self.setCall thread (call.heard f rest (.error error)))
          | none =>
              match self.pools.dial f transport with
              | some dial =>
                  some ((self.setCall thread (call.heard f rest reply)).record
                    ⟨thread, f, dial, some transport, none, reply⟩)
              | none => none
      | _, _ => none
  | none => none

/-- Lock the connection of a DoQ transport. An open connection is used again; otherwise a new
one is made, and where that fails the lock is left and what was there stays. -/
def lock (self : Shared Roots) (thread : Nat) (connected : Result Unit) :
    Option (Shared Roots) :=
  match self.calls[thread]? with
  | some call =>
      match call.phase, call.rest with
      | .holding transport, f :: rest =>
          if f.endpoint.proto = .doQ ∧ oversized f.endpoint.proto call.queryBytes = none then
            match self.pools.doq.get? transport with
            | some (_, ⟨host, trust, conn, none⟩) =>
                let going := self.setCall thread { call with phase := .onWire transport }
                match conn.filter QuicConnection.isOpen with
                | some _ =>
                    some { going with
                      pools := self.pools.modifyDoq transport fun doq =>
                        { doq with holder := some thread } }
                | none =>
                    match connected with
                    | .ok () =>
                        let conn : QuicConnection Roots :=
                          ⟨self.sessions, f.endpoint.ip, f.endpoint.port, host, trust, true⟩
                        some { going with
                          sessions := self.sessions + 1
                          pools := self.pools.modifyDoq transport fun doq =>
                            { doq with conn := some conn, holder := some thread } }
                    | .error error =>
                        some ((self.setCall thread (call.heard f rest (.error error))).record
                          ⟨thread, f, .quic f.endpoint.ip f.endpoint.port host trust,
                            some transport, none, .error error⟩)
            | _ => none
          else none
      | _, _ => none
  | none => none

/-- Return from `exchange_query`. A connection on which it failed is dropped. -/
def complete (self : Shared Roots) (thread : Nat) (outcome : Result Bytes) (isOpen : Bool) :
    Option (Shared Roots) :=
  match self.calls[thread]? with
  | some call =>
      match call.phase, call.rest with
      | .onWire transport, f :: rest =>
          match self.pools.doq.get? transport with
          | some (_, ⟨_, _, some conn, some holder⟩) =>
              if holder = thread then
                let left : Option (QuicConnection Roots) :=
                  match outcome with
                  | .ok _ => some { conn with isOpen }
                  | .error _ => none
                some ({ self.setCall thread (call.heard f rest (outcome.bind deframed)) with
                  pools := self.pools.modifyDoq transport fun doq =>
                    { doq with conn := left, holder := none } }.record
                  ⟨thread, f, .quic conn.ip conn.port conn.serverName conn.trust, some transport,
                    some conn.session, outcome⟩)
              else none
          | _ => none
      | _, _ => none
  | none => none

/-- Leave the loop when no server is left. -/
def finish (self : Shared Roots) (thread : Nat) : Option (Shared Roots) :=
  match self.calls[thread]? with
  | some call =>
      match call.phase, call.rest with
      | .asking, [] => some (self.setCall thread call.finish)
      | _, _ => none
  | none => none

def step (self : Shared Roots) : ForwardAction → Option (Shared Roots)
  | .call group query queryBytes =>
      some { self with calls := self.calls ++ [.start group query queryBytes] }
  | .obtain thread => self.obtain thread
  | .exchange thread reply => self.exchange thread reply
  | .lock thread connected => self.lock thread connected
  | .complete thread outcome isOpen => self.complete thread outcome isOpen
  | .finish thread => self.finish thread

/-! ## What a step does -/

/-- Where an exchange goes that does not use an open connection. -/
inductive Dialed (pools : ForwarderSet Roots) (f : Forwarder) :
    CallPhase → Option Nat → Dial Roots → Prop where
  | plain {dial : Dial Roots} (dialed : f.plainDial = some dial) : Dialed pools f .asking none dial
  | pooled {transport : Nat} {dial : Dial Roots} (dialed : pools.dial f transport = some dial) :
      Dialed pools f (.holding transport) (some transport) dial
  | quic {transport : Nat} {key : TransportKey} {doq : DoqTransport Roots}
      (proto : f.endpoint.proto = .doQ) (located : pools.doq.get? transport = some (key, doq)) :
      Dialed pools f (.holding transport) (some transport)
        (.quic f.endpoint.ip f.endpoint.port doq.host doq.trust)

/-- The step of each action, by what it finds. -/
inductive Took (shared : Shared Roots) : ForwardAction → Shared Roots → Prop where
  | called {group : List Forwarder} {query : Message} {queryBytes : Bytes} :
      Took shared (.call group query queryBytes)
        { shared with calls := shared.calls ++ [.start group query queryBytes] }
  | obtained {thread : Nat} {call : Call} {f : Forwarder} {rest : List Forwarder}
      {pools : ForwarderSet Roots} {transport : Nat}
      (located : shared.calls[thread]? = some call) (phase : call.phase = .asking)
      (left : call.rest = f :: rest)
      (pooled : shared.pools.pooledTransport f = some (pools, transport)) :
      Took shared (.obtain thread)
        { shared.setCall thread { call with phase := .holding transport } with pools }
  /-- The transport does not send the query. -/
  | refused {action : ForwardAction} {thread : Nat} {call : Call} {f : Forwarder}
      {rest : List Forwarder} {error : Error} (ofCall : action.ofCall = true)
      (located : shared.calls[thread]? = some call)
      (phase : call.phase = .asking ∨ ∃ transport, call.phase = .holding transport)
      (left : call.rest = f :: rest) :
      Took shared action (shared.setCall thread (call.heard f rest (.error error)))
  /-- An exchange, or an attempt to connect. -/
  | exchanged {action : ForwardAction} {thread : Nat} {call : Call} {f : Forwarder}
      {rest : List Forwarder} {transport : Option Nat} {dial : Dial Roots} {reply : Result Bytes}
      (ofCall : action.ofCall = true) (located : shared.calls[thread]? = some call)
      (left : call.rest = f :: rest) (dialed : Dialed shared.pools f call.phase transport dial) :
      Took shared action ((shared.setCall thread (call.heard f rest reply)).record
        ⟨thread, f, dial, transport, none, reply⟩)
  /-- The connection is locked; it is the one that was open, or a new one. -/
  | locked {action : ForwardAction} {thread : Nat} {call : Call} {f : Forwarder}
      {rest : List Forwarder} {transport : Nat} {key : TransportKey} {doq : DoqTransport Roots}
      {conn : QuicConnection Roots} {sessions : Nat}
      {change : DoqTransport Roots → DoqTransport Roots} (ofCall : action.ofCall = true)
      (located : shared.calls[thread]? = some call) (phase : call.phase = .holding transport)
      (left : call.rest = f :: rest) (proto : f.endpoint.proto = .doQ)
      (found : shared.pools.doq.get? transport = some (key, doq)) (free : doq.holder = none)
      (live : doq.conn = some conn ∧ sessions = shared.sessions ∨
        conn = ⟨shared.sessions, f.endpoint.ip, f.endpoint.port, doq.host, doq.trust, true⟩ ∧
          sessions = shared.sessions + 1)
      (changed : change doq = { doq with conn := some conn, holder := some thread }) :
      Took shared action
        { shared.setCall thread { call with phase := .onWire transport } with
          sessions
          pools := shared.pools.modifyDoq transport change }
  | completed {thread : Nat} {call : Call} {f : Forwarder} {rest : List Forwarder}
      {transport : Nat} {key : TransportKey} {doq : DoqTransport Roots}
      {conn : QuicConnection Roots} {left : Option (QuicConnection Roots)}
      {outcome : Result Bytes} {isOpen : Bool} (located : shared.calls[thread]? = some call)
      (phase : call.phase = .onWire transport) (remains : call.rest = f :: rest)
      (found : shared.pools.doq.get? transport = some (key, doq))
      (held : doq.holder = some thread) (live : doq.conn = some conn)
      (kept : ∀ bytes, outcome = .ok bytes → left = some { conn with isOpen })
      (dropped : ∀ error, outcome = .error error → left = none) :
      Took shared (.complete thread outcome isOpen)
        ({ shared.setCall thread (call.heard f rest (outcome.bind deframed)) with
          pools := shared.pools.modifyDoq transport fun doq =>
            { doq with conn := left, holder := none } }.record
          ⟨thread, f, .quic conn.ip conn.port conn.serverName conn.trust, some transport,
            some conn.session, outcome⟩)
  | finished {thread : Nat} {call : Call} (located : shared.calls[thread]? = some call)
      (phase : call.phase = .asking) (left : call.rest = []) :
      Took shared (.finish thread) (shared.setCall thread call.finish)

variable {shared next : Shared Roots} {action : ForwardAction} {thread : Nat}

theorem took_obtain (taken : shared.obtain thread = some next) :
    Took shared (.obtain thread) next := by
  unfold obtain at taken
  split at taken
  · rename_i call located
    split at taken
    · rename_i f rest phase left
      split at taken
      · rename_i pools transport pooled
        obtain rfl := Option.some.inj taken
        exact .obtained located phase left pooled
      · cases taken
    · cases taken
  · cases taken

theorem took_exchange {reply : Result Bytes} (taken : shared.exchange thread reply = some next) :
    Took shared (.exchange thread reply) next := by
  unfold exchange at taken
  split at taken
  · rename_i call located
    split at taken
    · rename_i f rest phase left
      split at taken
      · rename_i dial dialed
        split at taken
        · obtain rfl := Option.some.inj taken
          exact .refused rfl located (.inl phase) left
        · obtain rfl := Option.some.inj taken
          exact .exchanged rfl located left (phase ▸ .plain dialed)
      · cases taken
    · rename_i transport f rest phase left
      split at taken
      · obtain rfl := Option.some.inj taken
        exact .refused rfl located (.inr ⟨transport, phase⟩) left
      · split at taken
        · rename_i dial dialed
          obtain rfl := Option.some.inj taken
          exact .exchanged rfl located left (phase ▸ .pooled dialed)
        · cases taken
    · cases taken
  · cases taken

theorem took_lock {connected : Result Unit} (taken : shared.lock thread connected = some next) :
    Took shared (.lock thread connected) next := by
  unfold lock at taken
  split at taken
  · rename_i call located
    split at taken
    · rename_i transport f rest phase left
      split_ifs at taken with quic
      split at taken
      · rename_i key host trust conn found
        dsimp only at taken
        split at taken
        · rename_i live reused
          obtain rfl := Option.some.inj taken
          obtain ⟨present, -⟩ := Option.filter_eq_some_iff.mp reused
          exact .locked rfl located phase left quic.1 found rfl (.inl ⟨present, rfl⟩)
            (by rw [present])
        · split at taken
          · obtain rfl := Option.some.inj taken
            exact .locked rfl located phase left quic.1 found rfl (.inr ⟨rfl, rfl⟩) rfl
          · obtain rfl := Option.some.inj taken
            exact .exchanged rfl located left (phase ▸ .quic quic.1 found)
      · cases taken
    · cases taken
  · cases taken

theorem took_complete {outcome : Result Bytes} {isOpen : Bool}
    (taken : shared.complete thread outcome isOpen = some next) :
    Took shared (.complete thread outcome isOpen) next := by
  unfold complete at taken
  split at taken
  · rename_i call located
    split at taken
    · rename_i transport f rest phase left
      split at taken
      · rename_i key host trust conn holder found
        split_ifs at taken with mine
        obtain rfl := Option.some.inj taken
        subst mine
        refine .completed located phase left found rfl rfl (fun bytes good => ?_)
          (fun error failed => ?_)
        · rw [good]
        · rw [failed]
      · cases taken
    · cases taken
  · cases taken

theorem took_finish (taken : shared.finish thread = some next) :
    Took shared (.finish thread) next := by
  unfold finish at taken
  split at taken
  · rename_i call located
    split at taken
    · rename_i phase left
      obtain rfl := Option.some.inj taken
      exact .finished located phase left
    · cases taken
  · cases taken

theorem took_of_step (taken : shared.step action = some next) : Took shared action next := by
  cases action with
  | call group query queryBytes =>
      obtain rfl := Option.some.inj taken
      exact .called
  | obtain thread => exact took_obtain taken
  | exchange thread reply => exact took_exchange taken
  | lock thread connected => exact took_lock taken
  | complete thread outcome isOpen => exact took_complete taken
  | finish thread => exact took_finish taken

/-! ## What the calls hold -/

theorem getElem?_setCall {other : Nat} {call later : Call}
    (located : (shared.setCall thread later).calls[other]? = some call) :
    other = thread ∧ call = later ∨ other ≠ thread ∧ shared.calls[other]? = some call := by
  unfold setCall at located
  rw [List.getElem?_set] at located
  split_ifs at located with same inside
  · exact .inl ⟨same.symm, (Option.some.inj located).symm⟩
  · exact .inr ⟨Ne.symm same, located⟩

theorem mem_setCall {call later : Call} (present : call ∈ (shared.setCall thread later).calls) :
    call = later ∨ call ∈ shared.calls :=
  (List.mem_or_eq_of_mem_set present).symm

/-- Calls hold transports of their forwarders' keys, and exchanges went where the forwarders say. -/
structure Kept (trust : Trust Roots) (shared : Shared Roots) : Prop where
  trusts : shared.pools.trust = trust
  faithful : shared.pools.Faithful
  refers : ∀ call ∈ shared.calls, ∀ transport, call.phase.transport = some transport →
    ∃ f rest, call.rest = f :: rest ∧ shared.pools.Refers f transport
  wire : ∀ call ∈ shared.calls, ∀ transport, call.phase = .onWire transport →
    ∀ f rest, call.rest = f :: rest → f.endpoint.proto = .doQ
  dials : ∀ sent ∈ shared.sent, sent.dial = sent.forwarder.dial trust
  transports : ∀ sent ∈ shared.sent, ∀ transport, sent.transport = some transport →
    shared.pools.Refers sent.forwarder transport
  quic : ∀ sent ∈ shared.sent, ∀ session, sent.session = some session →
    sent.forwarder.endpoint.proto = .doQ ∧ sent.transport.isSome

theorem Dialed.transport_eq {pools : ForwarderSet Roots} {f : Forwarder} {phase : CallPhase}
    {transport : Option Nat} {dial : Dial Roots} (dialed : Dialed pools f phase transport dial) :
    phase.transport = transport := by
  cases dialed <;> rfl

/-- An exchange goes where the forwarder says. -/
theorem Dialed.eq {pools : ForwarderSet Roots} {f : Forwarder} {phase : CallPhase}
    {transport : Option Nat} {dial : Dial Roots} (dialed : Dialed pools f phase transport dial)
    (faithful : pools.Faithful)
    (refers : ∀ transport, phase.transport = some transport → pools.Refers f transport) :
    dial = f.dial pools.trust := by
  cases dialed with
  | plain dialed =>
      unfold Forwarder.plainDial at dialed
      unfold Forwarder.dial
      split at dialed
      · rename_i proto
        cases dialed
        rw [proto]
      · rename_i proto
        cases dialed
        rw [proto]
      · cases dialed
  | @pooled transport dial dialed =>
      by_cases quic : f.endpoint.proto = .doQ
      · unfold ForwarderSet.dial at dialed
        rw [quic] at dialed
        cases dialed
      · rw [faithful.dial_eq (refers transport rfl) quic] at dialed
        exact (Option.some.inj dialed).symm
  | @quic transport key doq proto located =>
      have refers := refers transport rfl
      unfold ForwarderSet.Refers at refers
      unfold Forwarder.dial
      rw [proto] at refers ⊢
      obtain ⟨other, located'⟩ := refers
      cases located.symm.trans located'
      obtain ⟨host, trust, -⟩ := faithful.doq located
      rw [host, trust]
      rfl

namespace Kept

variable {trust : Trust Roots}

/-- The call of a thread, among the others. -/
theorem own (kept : shared.Kept trust) {call : Call} {f : Forwarder} {rest : List Forwarder}
    (located : shared.calls[thread]? = some call) (left : call.rest = f :: rest) {transport : Nat}
    (held : call.phase.transport = some transport) : shared.pools.Refers f transport := by
  obtain ⟨g, others, same, refers⟩ := kept.refers call (List.mem_of_getElem? located) _ held
  cases left.symm.trans same
  exact refers

/-- A call goes on without a transport. -/
theorem setCall (kept : shared.Kept trust) {later : Call} (free : later.phase.transport = none) :
    (shared.setCall thread later).Kept trust := by
  refine ⟨kept.trusts, kept.faithful, fun call present transport held => ?_,
    fun call present transport onWire => ?_, kept.dials, kept.transports, kept.quic⟩
  · obtain rfl | before := mem_setCall present
    · rw [free] at held
      cases held
    · exact kept.refers call before transport held
  · obtain rfl | before := mem_setCall present
    · rw [onWire] at free
      cases free
    · exact kept.wire call before transport onWire

/-- An exchange that goes where its forwarder says is recorded. -/
theorem record (kept : shared.Kept trust) {sent : Sent Roots}
    (dial : sent.dial = sent.forwarder.dial trust)
    (transport : ∀ transport, sent.transport = some transport →
      shared.pools.Refers sent.forwarder transport)
    (quic : ∀ session, sent.session = some session →
      sent.forwarder.endpoint.proto = .doQ ∧ sent.transport.isSome) :
    (shared.record sent).Kept trust := by
  refine ⟨kept.trusts, kept.faithful, kept.refers, kept.wire, ?_, ?_, ?_⟩
  · exact List.forall_mem_append.mpr ⟨kept.dials, List.forall_mem_singleton.mpr dial⟩
  · exact List.forall_mem_append.mpr ⟨kept.transports, List.forall_mem_singleton.mpr transport⟩
  · exact List.forall_mem_append.mpr ⟨kept.quic, List.forall_mem_singleton.mpr quic⟩

/-- A DoQ transport changes, and stays as its key says. -/
theorem modifyDoq (kept : shared.Kept trust) {transport : Nat}
    {change : DoqTransport Roots → DoqTransport Roots}
    (faithful : (shared.pools.modifyDoq transport change).Faithful) :
    Kept trust { shared with pools := shared.pools.modifyDoq transport change } := by
  refine ⟨kept.trusts, faithful, fun call present other held => ?_, kept.wire, kept.dials,
    fun sent present other used => ?_, kept.quic⟩
  · obtain ⟨f, rest, left, refers⟩ := kept.refers call present other held
    exact ⟨f, rest, left, refers.modifyDoq transport change⟩
  · exact (kept.transports sent present other used).modifyDoq transport change

/-- What every step keeps. -/
theorem step (kept : shared.Kept trust) (taken : shared.step action = some next) :
    next.Kept trust := by
  cases took_of_step taken with
  | called =>
      refine ⟨kept.trusts, kept.faithful, ?_, ?_, kept.dials, kept.transports, kept.quic⟩
      · refine List.forall_mem_append.mpr ⟨kept.refers, List.forall_mem_singleton.mpr ?_⟩
        intro transport held
        cases held
      · refine List.forall_mem_append.mpr ⟨kept.wire, List.forall_mem_singleton.mpr ?_⟩
        intro transport held
        cases held
  | @obtained thread call f rest pools transport located phase left pooled =>
      refine ⟨(ForwarderSet.pooledTransport_trust pooled).trans kept.trusts,
        kept.faithful.pooledTransport pooled, fun other present held refers => ?_,
        fun other present held onWire => ?_, kept.dials,
        fun sent present used same => (kept.transports sent present used same).pooledTransport pooled,
        kept.quic⟩
      · obtain rfl | before := mem_setCall present
        · cases refers
          exact ⟨f, rest, left, ForwarderSet.refers_pooled pooled⟩
        · obtain ⟨g, others, same, refers⟩ := kept.refers other before held refers
          exact ⟨g, others, same, refers.pooledTransport pooled⟩
      · obtain rfl | before := mem_setCall present
        · cases onWire
        · exact kept.wire other before held onWire
  | refused _ _ _ _ => exact kept.setCall (Call.transport_heard _ _ _ _)
  | @exchanged _ thread call f rest transport dial reply _ located left dialed =>
      refine (kept.setCall (Call.transport_heard _ _ _ _)).record ?_ ?_ ?_
      · refine (dialed.eq kept.faithful fun transport held => ?_).trans (kept.trusts ▸ rfl)
        exact kept.own located left held
      · intro other used
        exact kept.own located left (dialed.transport_eq.trans used)
      · intro session used
        cases used
  | @locked _ thread call f rest transport key doq conn sessions change _ located phase left proto
      found free live changed =>
      have refers := kept.own located left (congrArg CallPhase.transport phase)
      have keyed : key = .of f := by
        unfold ForwarderSet.Refers at refers
        rw [proto] at refers
        obtain ⟨other, located'⟩ := refers
        cases found.symm.trans located'
        rfl
      subst keyed
      have faithful : (shared.pools.modifyDoq transport change).Faithful := by
        refine kept.faithful.modifyDoq found (by rw [changed]) (by rw [changed]) ?_
        intro later same
        rw [changed] at same
        cases same
        rcases live with ⟨live, -⟩ | ⟨rfl, -⟩
        · exact (kept.faithful.doq found).2.2 conn live
        · exact ⟨rfl, rfl, rfl, (kept.faithful.doq found).2.1⟩
      have moved := kept.modifyDoq faithful
      refine ⟨moved.trusts, moved.faithful, fun other present used held => ?_,
        fun other present used onWire => ?_, kept.dials, moved.transports, kept.quic⟩
      · obtain rfl | before := mem_setCall present
        · cases held
          exact ⟨f, rest, left, refers.modifyDoq transport change⟩
        · exact moved.refers other before used held
      · obtain rfl | before := mem_setCall present
        · intro g others same
          cases left.symm.trans same
          exact proto
        · exact kept.wire other before used onWire
  | @completed thread call f rest transport key doq conn left outcome isOpen located phase remains
      found held live alive dropped =>
      have refers := kept.own located remains (congrArg CallPhase.transport phase)
      have proto := kept.wire call (List.mem_of_getElem? located) transport phase f rest remains
      have keyed : key = .of f := by
        unfold ForwarderSet.Refers at refers
        rw [proto] at refers
        obtain ⟨other, located'⟩ := refers
        cases found.symm.trans located'
        rfl
      subst keyed
      obtain ⟨host, same, dialed⟩ := kept.faithful.doq found
      obtain ⟨ip, port, name, trusted⟩ := dialed conn live
      have faithful : (shared.pools.modifyDoq transport fun doq =>
          { doq with conn := left, holder := none }).Faithful := by
        refine kept.faithful.modifyDoq found rfl rfl fun later same => ?_
        cases outcome with
        | ok bytes =>
            cases (alive bytes rfl).symm.trans same
            exact ⟨ip, port, name, trusted⟩
        | error error => cases (dropped error rfl).symm.trans same
      have gone : (shared.setCall thread (call.heard f rest (outcome.bind deframed))).Kept trust :=
        kept.setCall (Call.transport_heard call f rest _)
      have moved := gone.modifyDoq faithful
      refine moved.record ?_ ?_ ?_
      · unfold Forwarder.dial
        rw [proto]
        dsimp only
        rw [ip, port, name, host, trusted, kept.trusts]
        rfl
      · intro other used
        cases used
        exact refers.modifyDoq transport _
      · intro session used
        exact ⟨proto, rfl⟩
  | finished _ _ _ => exact kept.setCall rfl

end Kept

/-! ## Who has locked what -/

/-- The connection of a DoQ transport. -/
def conn (self : Shared Roots) (transport : Nat) : Option (QuicConnection Roots) :=
  self.pools.view DoqTransport.conn transport

/-- The thread that has locked it. -/
def holder (self : Shared Roots) (transport : Nat) : Option Nat :=
  self.pools.view DoqTransport.holder transport

/-- A connection is locked by the call that has its query on it. -/
structure Locked (shared : Shared Roots) : Prop where
  held : ∀ {thread call transport}, shared.calls[thread]? = some call →
    call.phase = .onWire transport →
    shared.holder transport = some thread ∧ (shared.conn transport).isSome
  holds : ∀ {thread transport}, shared.holder transport = some thread →
    ∃ call, shared.calls[thread]? = some call ∧ call.phase = .onWire transport

namespace Locked

/-- A call goes on that had nothing locked and has nothing locked. -/
theorem setCall (locked : shared.Locked) {call later : Call}
    (located : shared.calls[thread]? = some call)
    (before : ∀ transport, call.phase ≠ .onWire transport)
    (after : ∀ transport, later.phase ≠ .onWire transport) :
    (shared.setCall thread later).Locked := by
  refine ⟨fun {other found transport} listed onWire => ?_, fun {other transport} held => ?_⟩
  · obtain ⟨-, rfl⟩ | ⟨-, listed⟩ := getElem?_setCall listed
    · exact absurd onWire (after transport)
    · exact locked.held listed onWire
  · obtain ⟨found, listed, onWire⟩ := locked.holds held
    refine ⟨found, ?_, onWire⟩
    have apart : thread ≠ other := by
      rintro rfl
      cases located.symm.trans listed
      exact before transport onWire
    exact (List.getElem?_set_ne apart).trans listed

theorem not_onWire {phase : CallPhase} (free : phase.transport = none) (transport : Nat) :
    phase ≠ .onWire transport := by
  rintro rfl
  cases free

/-- What every step keeps. -/
theorem step (locked : shared.Locked) (taken : shared.step action = some next) : next.Locked := by
  cases took_of_step taken with
  | @called group query queryBytes =>
      refine ⟨fun {other found transport} listed onWire => ?_, fun {other transport} held => ?_⟩
      · dsimp only at listed
        rw [List.getElem?_append] at listed
        split_ifs at listed
        · exact locked.held listed onWire
        · have new := List.mem_singleton.mp (List.mem_of_getElem? listed)
          subst new
          cases onWire
      · obtain ⟨found, listed, onWire⟩ := locked.holds held
        refine ⟨found, ?_, onWire⟩
        obtain ⟨inside, -⟩ := List.getElem?_eq_some_iff.mp listed
        exact (List.getElem?_append_left inside).trans listed
  | @obtained thread call f rest pools transport located phase left pooled =>
      have moved : (shared.setCall thread { call with phase := .holding transport }).Locked :=
        locked.setCall located (by rw [phase]; simp) (by simp)
      have conns := ForwarderSet.view_pooledTransport DoqTransport.conn
        (fun _ _ => rfl) pooled
      have holders := ForwarderSet.view_pooledTransport DoqTransport.holder
        (fun _ _ => rfl) pooled
      refine ⟨fun {other found transport} listed onWire => ?_, fun {other transport} held => ?_⟩
      · have was := moved.held listed onWire
        exact ⟨(holders transport).trans was.1, (congrArg Option.isSome (conns transport)).trans was.2⟩
      · exact moved.holds ((holders transport).symm.trans held)
  | refused _ located phase _ =>
      refine locked.setCall located ?_ (not_onWire (Call.transport_heard _ _ _ _))
      rcases phase with phase | ⟨_, phase⟩ <;> rw [phase] <;> simp
  | @exchanged _ thread call f rest _ _ reply _ located _ dialed =>
      have moved : (shared.setCall thread (call.heard f rest reply)).Locked := by
        refine locked.setCall located ?_ (not_onWire (Call.transport_heard _ _ _ _))
        intro transport onWire
        rw [onWire] at dialed
        cases dialed
      exact ⟨moved.held, moved.holds⟩
  | @locked _ thread call f rest transport key doq conn sessions change _ located phase left proto
      found free live changed =>
      have noHolder : shared.holder transport = none :=
        (ForwarderSet.view_of_get? found).trans free
      have holders := ForwarderSet.view_modifyDoq DoqTransport.holder found change
      have conns := ForwarderSet.view_modifyDoq DoqTransport.conn found change
      rw [changed] at holders conns
      refine ⟨fun {other call' transport'} listed onWire => ?_, fun {other transport'} held => ?_⟩
      · obtain ⟨rfl, rfl⟩ | ⟨-, listed⟩ := getElem?_setCall listed
        · cases onWire
          exact ⟨(holders transport).trans (if_pos rfl), congrArg Option.isSome
            ((conns transport).trans (if_pos rfl))⟩
        · have was := locked.held listed onWire
          have apart : transport ≠ transport' := by
            rintro rfl
            cases noHolder.symm.trans was.1
          exact ⟨((holders transport').trans (if_neg apart)).trans was.1,
            (congrArg Option.isSome ((conns transport').trans (if_neg apart))).trans was.2⟩
      · have held : (if transport = transport' then some thread else shared.holder transport') =
            some other := (holders transport').symm.trans held
        have inside : thread < shared.calls.length := (List.getElem?_eq_some_iff.mp located).1
        split_ifs at held with here
        · cases held
          exact ⟨_, List.getElem?_set_self inside, congrArg CallPhase.onWire here⟩
        · obtain ⟨call', listed, onWire⟩ := locked.holds held
          refine ⟨call', (List.getElem?_set_ne ?_).trans listed, onWire⟩
          rintro rfl
          cases located.symm.trans listed
          rw [phase] at onWire
          cases onWire
  | @completed thread call f rest transport key doq conn left outcome isOpen located phase remains
      found held live alive dropped =>
      have mine : shared.holder transport = some thread :=
        (ForwarderSet.view_of_get? found).trans held
      have holders := ForwarderSet.view_modifyDoq DoqTransport.holder found
        fun doq => { doq with conn := left, holder := none }
      have conns := ForwarderSet.view_modifyDoq DoqTransport.conn found
        fun doq => { doq with conn := left, holder := none }
      refine ⟨fun {other call' transport'} listed onWire => ?_, fun {other transport'} held => ?_⟩
      · obtain ⟨rfl, rfl⟩ | ⟨apart, listed⟩ := getElem?_setCall listed
        · exact absurd onWire (not_onWire (Call.transport_heard _ _ _ _) transport')
        · have was := locked.held listed onWire
          have elsewhere : transport ≠ transport' := by
            rintro rfl
            exact apart (Option.some.inj (was.1.symm.trans mine))
          exact ⟨((holders transport').trans (if_neg elsewhere)).trans was.1,
            (congrArg Option.isSome ((conns transport').trans (if_neg elsewhere))).trans was.2⟩
      · have held : (if transport = transport' then none else shared.holder transport') =
            some other := (holders transport').symm.trans held
        split_ifs at held with here
        obtain ⟨call', listed, onWire⟩ := locked.holds held
        refine ⟨call', (List.getElem?_set_ne ?_).trans listed, onWire⟩
        rintro rfl
        cases located.symm.trans listed
        rw [phase] at onWire
        exact here (CallPhase.onWire.inj onWire)
  | finished located phase _ =>
      refine locked.setCall located (by rw [phase]; simp) (by simp [Call.finish])

end Locked

/-! ## Which connection a query went over -/

/-- Connections are told apart by how many were made before. One over which an exchange failed
is not kept. -/
structure Numbered (shared : Shared Roots) : Prop where
  below : ∀ {transport conn}, shared.conn transport = some conn → conn.session < shared.sessions
  apart : ∀ {left right one another}, shared.conn left = some one → shared.conn right = some another →
    one.session = another.session → left = right
  old : ∀ sent ∈ shared.sent, ∀ session, sent.session = some session → session < shared.sessions
  current : ∀ sent ∈ shared.sent, ∀ {transport conn}, shared.conn transport = some conn →
    sent.session = some conn.session →
    sent.transport = some transport ∧ ∃ bytes, sent.outcome = .ok bytes
  spent : shared.sent.Pairwise fun earlier later => ∀ session, earlier.session = some session →
    later.session = some session →
    earlier.transport = later.transport ∧ ∃ bytes, earlier.outcome = .ok bytes

namespace Numbered

/-- Connections stay as they are. -/
theorem of_conn (numbered : shared.Numbered)
    (conns : ∀ transport, next.conn transport = shared.conn transport)
    (sessions : next.sessions = shared.sessions) (sent : next.sent = shared.sent) :
    next.Numbered := by
  refine ⟨fun live => ?_, fun one another => ?_, ?_, ?_, ?_⟩
  · rw [sessions]
    exact numbered.below ((conns _).symm.trans live)
  · exact numbered.apart ((conns _).symm.trans one) ((conns _).symm.trans another)
  · rw [sessions, sent]
    exact numbered.old
  · rw [sent]
    exact fun sent present {_ _} live => numbered.current sent present ((conns _).symm.trans live)
  · rw [sent]
    exact numbered.spent

/-- An exchange without a QUIC connection is recorded. -/
theorem record (numbered : shared.Numbered) {sent : Sent Roots} (none : sent.session = none) :
    (shared.record sent).Numbered := by
  refine ⟨numbered.below, numbered.apart, ?_, ?_, ?_⟩
  · refine List.forall_mem_append.mpr ⟨numbered.old, List.forall_mem_singleton.mpr ?_⟩
    intro session used
    cases none.symm.trans used
  · refine List.forall_mem_append.mpr ⟨numbered.current, List.forall_mem_singleton.mpr ?_⟩
    intro transport conn _ used
    cases none.symm.trans used
  · refine List.pairwise_append.mpr ⟨numbered.spent, List.pairwise_singleton _ _, ?_⟩
    intro earlier _ later single session _ used
    cases List.mem_singleton.mp single
    cases none.symm.trans used

/-- What every step keeps. -/
theorem step (numbered : shared.Numbered) (taken : shared.step action = some next) :
    next.Numbered := by
  cases took_of_step taken with
  | called => exact numbered.of_conn (fun _ => rfl) rfl rfl
  | obtained _ _ _ pooled =>
      exact numbered.of_conn
        (ForwarderSet.view_pooledTransport DoqTransport.conn (fun _ _ => rfl) pooled) rfl rfl
  | refused _ _ _ _ => exact numbered.of_conn (fun _ => rfl) rfl rfl
  | @exchanged _ thread call f rest _ _ reply _ _ _ _ =>
      have moved : (shared.setCall thread (call.heard f rest reply)).Numbered :=
        numbered.of_conn (fun _ => rfl) rfl rfl
      exact moved.record rfl
  | @locked _ thread call f rest transport key doq conn sessions change _ located phase left proto
      found free live changed =>
      have conns := ForwarderSet.view_modifyDoq DoqTransport.conn found change
      rw [changed] at conns
      have was : shared.conn transport = doq.conn := ForwarderSet.view_of_get? found
      rcases live with ⟨live, rfl⟩ | ⟨rfl, rfl⟩
      · refine numbered.of_conn (fun other => ?_) rfl rfl
        refine (conns other).trans ?_
        split_ifs with here
        · exact here ▸ (was.trans live).symm
        · rfl
      · -- The number of a new connection was not given before.
        have view {other : Nat} {conn : QuicConnection Roots}
            (live : (if transport = other then some ⟨shared.sessions, f.endpoint.ip,
              f.endpoint.port, doq.host, doq.trust, true⟩ else shared.conn other) = some conn) :
            transport = other ∧ conn.session = shared.sessions ∨
              transport ≠ other ∧ shared.conn other = some conn := by
          split_ifs at live with here
          · cases live
            exact .inl ⟨here, rfl⟩
          · exact .inr ⟨here, live⟩
        refine ⟨fun live => ?_, fun one another same => ?_, fun sent present session used => ?_,
          fun sent present {_ _} live used => ?_, numbered.spent⟩
        · rcases view ((conns _).symm.trans live) with ⟨-, new⟩ | ⟨-, before⟩
          · exact new ▸ Nat.lt_succ_self _
          · exact Nat.lt_succ_of_lt (numbered.below before)
        · rcases view ((conns _).symm.trans one) with ⟨here, new⟩ | ⟨-, before⟩ <;>
            rcases view ((conns _).symm.trans another) with ⟨here', new'⟩ | ⟨-, before'⟩
          · exact here ▸ here'
          · have := numbered.below before'
            omega
          · have := numbered.below before
            omega
          · exact numbered.apart before before' same
        · exact Nat.lt_succ_of_lt (numbered.old sent present session used)
        · rcases view ((conns _).symm.trans live) with ⟨-, new⟩ | ⟨-, before⟩
          · have := numbered.old sent present _ used
            omega
          · exact numbered.current sent present before used
  | @completed thread call f rest transport key doq conn left outcome isOpen located phase remains
      found held live alive dropped =>
      have was : shared.conn transport = some conn := (ForwarderSet.view_of_get? found).trans live
      have conns := ForwarderSet.view_modifyDoq DoqTransport.conn found
        fun doq => { doq with conn := left, holder := none }
      -- The connection that is left is the one there was, after an exchange that did not fail.
      have view {other : Nat} {conn' : QuicConnection Roots}
          (live : (if transport = other then left else shared.conn other) = some conn') :
          ∃ before, shared.conn other = some before ∧ before.session = conn'.session ∧
            (transport = other → ∃ bytes, outcome = .ok bytes) := by
        split_ifs at live with here
        · cases outcome with
          | ok bytes =>
              cases (alive bytes rfl).symm.trans live
              exact ⟨conn, here ▸ was, rfl, fun _ => ⟨bytes, rfl⟩⟩
          | error error => cases (dropped error rfl).symm.trans live
        · exact ⟨conn', live, rfl, fun here' => absurd here' here⟩
      refine ⟨fun live => ?_, fun one another same => ?_, ?_, ?_, ?_⟩
      · obtain ⟨before, present, same, -⟩ := view ((conns _).symm.trans live)
        exact same ▸ numbered.below present
      · obtain ⟨before, present, session, -⟩ := view ((conns _).symm.trans one)
        obtain ⟨before', present', session', -⟩ := view ((conns _).symm.trans another)
        exact numbered.apart present present' (session.trans (same.trans session'.symm))
      · refine List.forall_mem_append.mpr ⟨numbered.old, List.forall_mem_singleton.mpr ?_⟩
        intro session used
        cases used
        exact numbered.below was
      · refine List.forall_mem_append.mpr ⟨?_, List.forall_mem_singleton.mpr ?_⟩
        · intro sent present other conn' live used
          obtain ⟨before, listed, same, -⟩ := view ((conns other).symm.trans live)
          exact numbered.current sent present listed (same ▸ used)
        · intro other conn' live used
          obtain ⟨before, listed, same, good⟩ := view ((conns other).symm.trans live)
          obtain rfl := numbered.apart was listed ((Option.some.inj used).trans same.symm)
          exact ⟨rfl, good rfl⟩
      · refine List.pairwise_append.mpr ⟨numbered.spent, List.pairwise_singleton _ _, ?_⟩
        intro earlier present later single session used reused
        cases List.mem_singleton.mp single
        cases reused
        exact numbered.current earlier present was used
  | finished _ _ _ => exact numbered.of_conn (fun _ => rfl) rfl rfl

end Numbered

/-! ## Runs -/

variable {trust : Trust Roots} {forwarders : List Forwarder} {actions : List ForwardAction}

/-- The set with the forwarders added one after the other. -/
def ofForwarders (trust : Trust Roots) (forwarders : List Forwarder) : Shared Roots :=
  .initial (forwarders.foldl ForwarderSet.add (.new trust))

/-- Adding a forwarder builds no transport. -/
theorem pools_add (forwarders : List Forwarder) (pools : ForwarderSet Roots) :
    (forwarders.foldl ForwarderSet.add pools).trust = pools.trust ∧
      (pools.Faithful → (forwarders.foldl ForwarderSet.add pools).Faithful) ∧
      (forwarders.foldl ForwarderSet.add pools).doq = pools.doq := by
  induction forwarders generalizing pools with
  | nil => exact ⟨rfl, id, rfl⟩
  | cons f forwarders inductionHypothesis =>
      obtain ⟨trust, faithful, doq⟩ := inductionHypothesis (pools.add f)
      have one : (pools.add f).trust = pools.trust ∧ (pools.Faithful → (pools.add f).Faithful) ∧
          (pools.add f).doq = pools.doq := by
        unfold ForwarderSet.add
        split_ifs
        · exact ⟨rfl, id, rfl⟩
        · exact ⟨rfl, fun faithful => ⟨faithful.dot, faithful.doh, faithful.doh3, faithful.doq⟩,
            rfl⟩
      exact ⟨trust.trans one.1, fun before => faithful (one.2.1 before), doq.trans one.2.2⟩

theorem view_ofForwarders {β : Type} (field : DoqTransport Roots → Option β) (transport : Nat) :
    (ofForwarders trust forwarders).pools.view field transport = none := by
  unfold ofForwarders ForwarderSet.view
  rw [show (Shared.initial _).pools.doq = _ from (pools_add forwarders (.new trust)).2.2]
  rfl

theorem kept_of_runs
    (runs : Runs step (fun _ _ => True) (ofForwarders trust forwarders) actions shared) :
    shared.Kept trust := by
  refine runs.invariant (fun kept _ taken => kept.step taken) ⟨?_, ?_, ?_, ?_, ?_, ?_, ?_⟩
  · exact (pools_add forwarders (.new trust)).1
  · exact (pools_add forwarders (.new trust)).2.1 (ForwarderSet.faithful_new trust)
  all_goals exact fun _ absent => absurd absent List.not_mem_nil

theorem locked_of_runs
    (runs : Runs step (fun _ _ => True) (ofForwarders trust forwarders) actions shared) :
    shared.Locked := by
  refine runs.invariant (fun locked _ taken => locked.step taken) ⟨fun listed => ?_, fun held => ?_⟩
  · cases listed
  · cases (view_ofForwarders _ _).symm.trans held

theorem numbered_of_runs
    (runs : Runs step (fun _ _ => True) (ofForwarders trust forwarders) actions shared) :
    shared.Numbered := by
  refine runs.invariant (fun numbered _ taken => numbered.step taken)
    ⟨fun live => ?_, fun one => ?_, ?_, ?_, .nil⟩
  · cases (view_ofForwarders _ _).symm.trans live
  · cases (view_ofForwarders _ _).symm.trans one
  all_goals exact fun _ absent => absurd absent List.not_mem_nil

end Shared

/-- **Forwarders are kept apart.** In every run, whatever the threads do in between, an exchange
goes where its own forwarder says and under its TLS name; forwarders of one protocol share a
transport exactly when they have the same key; over one QUIC connection go only queries of one
key, one at a time, and none after one that failed. -/
theorem forwarders_kept_apart {Roots : Type} {trust : Trust Roots} {forwarders : List Forwarder}
    {actions : List ForwardAction} {shared : Shared Roots}
    (runs : Runs Shared.step (fun _ _ => True) (Shared.ofForwarders trust forwarders) actions
      shared) :
    (∀ sent ∈ shared.sent, sent.dial = sent.forwarder.dial trust) ∧
      (∀ first ∈ shared.sent, ∀ second ∈ shared.sent, ∀ left right,
        first.transport = some left → second.transport = some right →
        first.forwarder.endpoint.proto = second.forwarder.endpoint.proto →
        (left = right ↔ TransportKey.of first.forwarder = TransportKey.of second.forwarder)) ∧
      (shared.sent.Pairwise fun earlier later => ∀ session, earlier.session = some session →
        later.session = some session →
        TransportKey.of earlier.forwarder = TransportKey.of later.forwarder ∧
          ∃ bytes, earlier.outcome = .ok bytes) ∧
      ∀ (one another : Nat) (first second : Call) transport, shared.calls[one]? = some first →
        shared.calls[another]? = some second → first.phase = .onWire transport →
        second.phase = .onWire transport → one = another := by
  have kept := Shared.kept_of_runs runs
  have locked := Shared.locked_of_runs runs
  have numbered := Shared.numbered_of_runs runs
  refine ⟨kept.dials, fun first present second present' left right used used' proto => ?_, ?_, ?_⟩
  · exact (kept.transports first present left used).eq_iff
      (kept.transports second present' right used') proto
  · refine numbered.spent.imp_of_mem fun present present' reused session used used' => ?_
    obtain ⟨same, good⟩ := reused session used used'
    obtain ⟨proto, has⟩ := kept.quic _ present session used
    obtain ⟨proto', -⟩ := kept.quic _ present' session used'
    obtain ⟨transport, here⟩ := Option.isSome_iff_exists.mp has
    have refers := kept.transports _ present transport here
    have refers' := kept.transports _ present' transport (same ▸ here)
    exact ⟨(refers.eq_iff refers' (proto.trans proto'.symm)).mp rfl, good⟩
  · intro one another first second transport listed listed' onWire onWire'
    have held := (locked.held listed onWire).1
    exact Option.some.inj (held.symm.trans (locked.held listed' onWire').1)

/-- Two TLS names at one address: the query is sent under the first, and when that fails under
the second. -/
theorem forwarders_kept_apart_names : ∃ shared : Shared Unit,
    shared.sent.map Sent.dial =
        [.quic (.v4 ⟨[192, 0, 2, 1], rfl⟩) 853 (some "a.example") ⟨(), true, 0⟩,
          .quic (.v4 ⟨[192, 0, 2, 1], rfl⟩) 853 (some "b.example") ⟨(), true, 0⟩] ∧
      ∀ sent ∈ shared.sent, sent.dial = sent.forwarder.dial ⟨(), true, 0⟩ := by
  let endpoint : Endpoint := ⟨.v4 ⟨[192, 0, 2, 1], rfl⟩, 853, .doQ⟩
  let group : List Forwarder := [.encrypted endpoint "a.example", .encrypted endpoint "b.example"]
  have runs := @runs_of_runActions _ _ Shared.step (fun _ _ => True)
    (Shared.ofForwarders (⟨(), true, 0⟩ : Trust Unit) group) _
    [.call group .default [], .obtain 0, .lock 0 (.ok ()), .complete 0 (.error (.io "")) true,
      .obtain 0, .lock 0 (.ok ()), .complete 0 (.error (.io "")) true] _ rfl
  exact ⟨_, rfl, (forwarders_kept_apart runs).1⟩

end RecurseX.Forward
