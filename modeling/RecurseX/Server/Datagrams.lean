import RecurseX.Library.Runs
import RecurseX.Server

/-!
# The threads behind a UDP socket

Receivers read datagrams and push them into a bounded queue; handlers pop them, answer
them and send the answer back. Which thread goes next, which datagrams arrive, what the
resolver answers and when the server is told to stop is left open.
-/

namespace RecurseX

open Library

/-- Where a datagram came from. -/
structure SocketAddr where
  ip : IpAddr
  port : UInt16
deriving DecidableEq, Repr

/-- One queued datagram. -/
structure UdpJob where
  bytes : Bytes
  src : SocketAddr
deriving DecidableEq, Repr

/-- A bounded first-in-first-out queue, used as the datagram queue. -/
structure WorkQueue (α : Type) where
  inner : List α
  capacity : Nat
deriving DecidableEq, Repr

namespace WorkQueue

variable {α : Type}

def new (capacity : Nat) : WorkQueue α := ⟨[], max capacity 1⟩

/-- Enqueue an item, unless the queue is full or the server is shutting down: then the item
is dropped. -/
def push (self : WorkQueue α) (shutdown : Bool) (item : α) : WorkQueue α × Bool :=
  if self.inner.length ≥ self.capacity ∨ shutdown = true then (self, false)
  else ({ self with inner := self.inner ++ [item] }, true)

/-- What one turn of the loop in `pop` ends with. -/
inductive Popped (α : Type) where
  | item (item : α)
  /-- Nothing is there and the server is shutting down. -/
  | stopped
  /-- Nothing is there: wait and look again. -/
  | waits
deriving DecidableEq, Repr

/-- One turn of the loop in `pop`, under the lock. -/
def pop (self : WorkQueue α) (shutdown : Bool) : WorkQueue α × Popped α :=
  match self.inner with
  | item :: rest => ({ self with inner := rest }, .item item)
  | [] => (self, if shutdown then .stopped else .waits)

end WorkQueue

/-- Where a receiver stands in `udp_recv_loop`. -/
inductive ReceiverPhase where
  /-- About to look at the shutdown flag. -/
  | checking
  /-- In `recv_from`. -/
  | receiving
  /-- With a datagram that is to be queued. -/
  | pushing (job : UdpJob)
  /-- With a datagram that the queue did not take. -/
  | shedding (job : UdpJob)
  | returned
deriving DecidableEq, Repr

/-- The datagram a receiver holds. -/
def ReceiverPhase.job : ReceiverPhase → Option UdpJob
  | .pushing job | .shedding job => some job
  | _ => none

/-- The steps a receiver takes at most, once the server is shutting down. -/
def ReceiverPhase.remaining : ReceiverPhase → Nat
  | .returned => 0
  | .checking => 1
  | .shedding _ => 2
  | .pushing _ => 3
  | .receiving => 4

/-- Where a handler stands in `udp_handler_loop`. -/
inductive HandlerPhase where
  /-- About to take the lock of the queue. -/
  | popping
  /-- In `wait_timeout`. -/
  | waiting
  /-- With a datagram that is to be answered. -/
  | answering (job : UdpJob)
  | returned
deriving DecidableEq, Repr

/-- The datagram a handler holds. -/
def HandlerPhase.job : HandlerPhase → Option UdpJob
  | .answering job => some job
  | _ => none

/-- The steps a handler takes at most, once the server is shutting down and the queue is
empty. -/
def HandlerPhase.remaining : HandlerPhase → Nat
  | .returned => 0
  | .popping => 1
  | .waiting => 2
  | .answering _ => 2

/-- The threads of one socket and what they share, and the history of the datagrams. -/
structure UdpServer where
  queue : WorkQueue UdpJob
  /-- Datagrams shed because the queue did not take them. -/
  shed : UInt64
  shutdown : Bool
  receivers : List ReceiverPhase
  handlers : List HandlerPhase
  /-- What `recv_from` returned, in order. -/
  received : List UdpJob
  /-- What the queue took, in order. -/
  accepted : List UdpJob
  /-- What was dropped, in order. -/
  refused : List UdpJob
  /-- What was popped, in order. -/
  taken : List UdpJob
  /-- What was answered and sent, in order. -/
  answered : List (UdpJob × Bytes)

/-- One atomic step of a thread, and what comes from outside. -/
inductive UdpAction where
  | check (receiver : Nat)
  /-- `recv_from` returns a datagram, or times out. -/
  | receive (receiver : Nat) (datagram : Option UdpJob)
  | push (receiver : Nat)
  | shed (receiver : Nat)
  | pop (handler : Nat)
  | wake (handler : Nat)
  /-- The resolver as it is when the datagram is answered. -/
  | answer (handler : Nat) (resolver : QueryResolver)
  | shutdown

/-- The step of a thread. -/
def UdpAction.ofThread : UdpAction → Bool
  | .shutdown => false
  | _ => true

namespace UdpServer

/-- The threads have been spawned. -/
def initial (queueLimit receivers handlers : Nat) : UdpServer where
  queue := .new queueLimit
  shed := 0
  shutdown := false
  receivers := List.replicate receivers .checking
  handlers := List.replicate handlers .popping
  received := []
  accepted := []
  refused := []
  taken := []
  answered := []

def setReceiver (self : UdpServer) (receiver : Nat) (phase : ReceiverPhase) : UdpServer :=
  { self with receivers := self.receivers.set receiver phase }

def setHandler (self : UdpServer) (handler : Nat) (phase : HandlerPhase) : UdpServer :=
  { self with handlers := self.handlers.set handler phase }

/-- Look at the shutdown flag. -/
def check (self : UdpServer) (receiver : Nat) : Option UdpServer :=
  if self.receivers[receiver]? = some .checking then
    some (self.setReceiver receiver (if self.shutdown then .returned else .receiving))
  else none

/-- Return from `recv_from`. -/
def receive (self : UdpServer) (receiver : Nat) (datagram : Option UdpJob) : Option UdpServer :=
  if self.receivers[receiver]? = some .receiving then
    match datagram with
    | some job =>
        some { self.setReceiver receiver (.pushing job) with received := self.received ++ [job] }
    | none => some (self.setReceiver receiver .checking)
  else none

/-- Push the datagram. -/
def push (self : UdpServer) (receiver : Nat) : Option UdpServer :=
  match self.receivers[receiver]? with
  | some (.pushing job) =>
      match self.queue.push self.shutdown job with
      | (queue, true) =>
          some { self.setReceiver receiver .checking with
            queue, accepted := self.accepted ++ [job] }
      | (queue, false) => some { self.setReceiver receiver (.shedding job) with queue }
  | _ => none

/-- Count the datagram that was not taken. -/
def shedOne (self : UdpServer) (receiver : Nat) : Option UdpServer :=
  match self.receivers[receiver]? with
  | some (.shedding job) =>
      some { self.setReceiver receiver .checking with
        shed := self.shed + 1
        refused := self.refused ++ [job] }
  | _ => none

/-- One turn of the loop in `pop`. -/
def pop (self : UdpServer) (handler : Nat) : Option UdpServer :=
  if self.handlers[handler]? = some .popping then
    match self.queue.pop self.shutdown with
    | (queue, .item job) =>
        some { self.setHandler handler (.answering job) with queue, taken := self.taken ++ [job] }
    | (queue, .stopped) => some { self.setHandler handler .returned with queue }
    | (queue, .waits) => some { self.setHandler handler .waiting with queue }
  else none

/-- Return from `wait_timeout`, notified or not. -/
def wake (self : UdpServer) (handler : Nat) : Option UdpServer :=
  if self.handlers[handler]? = some .waiting then some (self.setHandler handler .popping) else none

/-- Answer the datagram and send the answer. -/
def answer (self : UdpServer) (handler : Nat) (resolver : QueryResolver) : Option UdpServer :=
  match self.handlers[handler]? with
  | some (.answering job) =>
      some { self.setHandler handler .popping with
        answered := self.answered ++ [(job, resolver.udpResponse job.bytes job.src.ip)] }
  | _ => none

def step (self : UdpServer) : UdpAction → Option UdpServer
  | .check receiver => self.check receiver
  | .receive receiver datagram => self.receive receiver datagram
  | .push receiver => self.push receiver
  | .shed receiver => self.shedOne receiver
  | .pop handler => self.pop handler
  | .wake handler => self.wake handler
  | .answer handler resolver => self.answer handler resolver
  | .shutdown => some { self with shutdown := true }

/-- The datagrams in the hands of receivers. -/
def inReceivers (self : UdpServer) : List UdpJob :=
  self.receivers.filterMap ReceiverPhase.job

/-- The datagrams in the hands of handlers. -/
def inHandlers (self : UdpServer) : List UdpJob :=
  self.handlers.filterMap HandlerPhase.job

variable {server next : UdpServer} {action : UdpAction} {receiver handler : Nat}

theorem count_inReceivers {phase : ReceiverPhase}
    (located : server.receivers[receiver]? = some phase) (later : ReceiverPhase) (job : UdpJob) :
    (server.setReceiver receiver later).inReceivers.count job + phase.job.toList.count job =
      server.inReceivers.count job + later.job.toList.count job :=
  count_filterMap_set located ReceiverPhase.job later job

theorem count_inHandlers {phase : HandlerPhase}
    (located : server.handlers[handler]? = some phase) (later : HandlerPhase) (job : UdpJob) :
    (server.setHandler handler later).inHandlers.count job + phase.job.toList.count job =
      server.inHandlers.count job + later.job.toList.count job :=
  count_filterMap_set located HandlerPhase.job later job

/-! ## What a step does -/

/-- The step of each action, by what it finds. -/
inductive Took (server : UdpServer) : UdpAction → UdpServer → Prop where
  | checked {receiver : Nat} (located : server.receivers[receiver]? = some .checking) :
      Took server (.check receiver)
        (server.setReceiver receiver (if server.shutdown then .returned else .receiving))
  | received {receiver : Nat} {job : UdpJob} (located : server.receivers[receiver]? = some .receiving) :
      Took server (.receive receiver (some job))
        { server.setReceiver receiver (.pushing job) with received := server.received ++ [job] }
  | timedOut {receiver : Nat} (located : server.receivers[receiver]? = some .receiving) :
      Took server (.receive receiver none) (server.setReceiver receiver .checking)
  | accepted {receiver : Nat} {job : UdpJob} (located : server.receivers[receiver]? = some (.pushing job))
      (room : server.queue.inner.length < server.queue.capacity)
      (running : server.shutdown = false) :
      Took server (.push receiver)
        { server.setReceiver receiver .checking with
          queue := { server.queue with inner := server.queue.inner ++ [job] }
          accepted := server.accepted ++ [job] }
  | refused {receiver : Nat} {job : UdpJob} (located : server.receivers[receiver]? = some (.pushing job)) :
      Took server (.push receiver) (server.setReceiver receiver (.shedding job))
  | shed {receiver : Nat} {job : UdpJob} (located : server.receivers[receiver]? = some (.shedding job)) :
      Took server (.shed receiver)
        { server.setReceiver receiver .checking with
          shed := server.shed + 1
          refused := server.refused ++ [job] }
  | popped {handler : Nat} {job : UdpJob} {rest : List UdpJob} (located : server.handlers[handler]? = some .popping)
      (first : server.queue.inner = job :: rest) :
      Took server (.pop handler)
        { server.setHandler handler (.answering job) with
          queue := { server.queue with inner := rest }
          taken := server.taken ++ [job] }
  | stopped {handler : Nat} (located : server.handlers[handler]? = some .popping)
      (empty : server.queue.inner = []) (stopping : server.shutdown = true) :
      Took server (.pop handler) (server.setHandler handler .returned)
  | waits {handler : Nat} (located : server.handlers[handler]? = some .popping)
      (running : server.shutdown = false) :
      Took server (.pop handler) (server.setHandler handler .waiting)
  | woken {handler : Nat} (located : server.handlers[handler]? = some .waiting) :
      Took server (.wake handler) (server.setHandler handler .popping)
  | answered {handler : Nat} {job : UdpJob} {resolver : QueryResolver}
      (located : server.handlers[handler]? = some (.answering job)) :
      Took server (.answer handler resolver)
        { server.setHandler handler .popping with
          answered := server.answered ++ [(job, resolver.udpResponse job.bytes job.src.ip)] }
  | shutdown : Took server .shutdown { server with shutdown := true }

theorem took_push (taken : server.push receiver = some next) : Took server (.push receiver) next := by
  unfold push at taken
  split at taken
  · rename_i job located
    unfold WorkQueue.push at taken
    split_ifs at taken with full
    · obtain rfl := Option.some.inj taken
      exact .refused located
    · obtain ⟨room, running⟩ := not_or.mp full
      obtain rfl := Option.some.inj taken
      exact .accepted located (Nat.lt_of_not_le room) (Bool.eq_false_iff.mpr running)
  · cases taken

theorem took_pop (taken : server.pop handler = some next) : Took server (.pop handler) next := by
  unfold pop at taken
  split_ifs at taken with located
  unfold WorkQueue.pop at taken
  cases inner : server.queue.inner with
  | cons job rest =>
      rw [inner] at taken
      obtain rfl := Option.some.inj taken
      exact .popped located inner
  | nil =>
      rw [inner] at taken
      cases stopping : server.shutdown with
      | true =>
          rw [stopping] at taken
          obtain rfl := Option.some.inj taken
          exact .stopped located inner stopping
      | false =>
          rw [stopping] at taken
          obtain rfl := Option.some.inj taken
          exact .waits located stopping

theorem took_of_step (taken : server.step action = some next) : Took server action next := by
  cases action with
  | check receiver =>
      obtain ⟨located, taken⟩ := Option.ite_none_right_eq_some.mp taken
      obtain rfl := Option.some.inj taken
      exact .checked located
  | receive receiver datagram =>
      simp only [step, receive] at taken
      split_ifs at taken with located
      cases datagram with
      | some job =>
          obtain rfl := Option.some.inj taken
          exact .received located
      | none =>
          obtain rfl := Option.some.inj taken
          exact .timedOut located
  | push receiver => exact took_push taken
  | shed receiver =>
      simp only [step, shedOne] at taken
      split at taken
      · rename_i job located
        obtain rfl := Option.some.inj taken
        exact .shed located
      · cases taken
  | pop handler => exact took_pop taken
  | wake handler =>
      obtain ⟨located, taken⟩ := Option.ite_none_right_eq_some.mp taken
      obtain rfl := Option.some.inj taken
      exact .woken located
  | answer handler resolver =>
      simp only [step, answer] at taken
      split at taken
      · rename_i job located
        obtain rfl := Option.some.inj taken
        exact .answered located
      · cases taken
  | shutdown =>
      obtain rfl := Option.some.inj taken
      exact .shutdown

/-! ## Where the datagrams are -/

/-- Every datagram that was received is in one place. -/
structure Accounts (server : UdpServer) : Prop where
  received : server.received.Perm (server.inReceivers ++ server.refused ++ server.accepted)
  queued : server.accepted = server.taken ++ server.queue.inner
  taken : server.taken.Perm (server.inHandlers ++ server.answered.map Prod.fst)
  bounded : server.queue.inner.length ≤ server.queue.capacity
  shed : server.shed.toNat = server.refused.length % 2 ^ 64

namespace Accounts

theorem initial (queueLimit receivers handlers : Nat) :
    (UdpServer.initial queueLimit receivers handlers).Accounts where
  received := by simp [UdpServer.initial, inReceivers, List.filterMap_replicate, ReceiverPhase.job]
  queued := rfl
  taken := by simp [UdpServer.initial, inHandlers, List.filterMap_replicate, HandlerPhase.job]
  bounded := Nat.zero_le _
  shed := rfl

/-- A receiver that goes on with what it holds. -/
theorem setReceiver {phase later : ReceiverPhase} (accounts : server.Accounts)
    (located : server.receivers[receiver]? = some phase) (same : later.job = phase.job) :
    (server.setReceiver receiver later).Accounts := by
  refine ⟨?_, accounts.queued, accounts.taken, accounts.bounded, accounts.shed⟩
  rw [List.perm_iff_count]
  intro job
  have before := accounts.received.count_eq job
  have moved := count_inReceivers located later job
  rw [same] at moved
  simp only [List.count_append] at before ⊢
  calc server.received.count job = _ := before
    _ = _ := by rw [← Nat.add_right_cancel moved]; rfl

/-- A handler that goes on with what it holds. -/
theorem setHandler {phase later : HandlerPhase} (accounts : server.Accounts)
    (located : server.handlers[handler]? = some phase) (same : later.job = phase.job) :
    (server.setHandler handler later).Accounts := by
  refine ⟨accounts.received, accounts.queued, ?_, accounts.bounded, accounts.shed⟩
  rw [List.perm_iff_count]
  intro job
  have before := accounts.taken.count_eq job
  have moved := count_inHandlers located later job
  rw [same] at moved
  simp only [List.count_append] at before ⊢
  calc server.taken.count job = _ := before
    _ = _ := by rw [← Nat.add_right_cancel moved]; rfl

/-- A datagram arrives. -/
theorem receive {job : UdpJob} (accounts : server.Accounts)
    (located : server.receivers[receiver]? = some .receiving) :
    Accounts { server.setReceiver receiver (.pushing job) with
      received := server.received ++ [job] } := by
  refine ⟨?_, accounts.queued, accounts.taken, accounts.bounded, accounts.shed⟩
  change (server.received ++ [job]).Perm
    ((server.setReceiver receiver (.pushing job)).inReceivers ++ server.refused ++ server.accepted)
  rw [List.perm_iff_count]
  intro other
  have before := accounts.received.count_eq other
  have moved := count_inReceivers located (.pushing job) other
  simp only [ReceiverPhase.job, Option.toList_none, List.count_nil, Option.toList_some] at moved
  simp only [List.count_append] at before ⊢
  omega

/-- A datagram is taken into the queue. -/
theorem push {job : UdpJob} (accounts : server.Accounts)
    (located : server.receivers[receiver]? = some (.pushing job))
    (room : server.queue.inner.length < server.queue.capacity) :
    Accounts { server.setReceiver receiver .checking with
      queue := { server.queue with inner := server.queue.inner ++ [job] }
      accepted := server.accepted ++ [job] } := by
  refine ⟨?_, ?_, accounts.taken, ?_, accounts.shed⟩
  · change server.received.Perm ((server.setReceiver receiver .checking).inReceivers ++
      server.refused ++ (server.accepted ++ [job]))
    rw [List.perm_iff_count]
    intro other
    have before := accounts.received.count_eq other
    have moved := count_inReceivers located .checking other
    simp only [ReceiverPhase.job, Option.toList_none, List.count_nil, Option.toList_some] at moved
    simp only [List.count_append] at before ⊢
    omega
  · change server.accepted ++ [job] = server.taken ++ (server.queue.inner ++ [job])
    rw [accounts.queued, List.append_assoc]
  · change (server.queue.inner ++ [job]).length ≤ server.queue.capacity
    rw [List.length_append]
    exact room

/-- A datagram is dropped and counted. -/
theorem shedOne {job : UdpJob} (accounts : server.Accounts)
    (located : server.receivers[receiver]? = some (.shedding job)) :
    Accounts { server.setReceiver receiver .checking with
      shed := server.shed + 1
      refused := server.refused ++ [job] } := by
  refine ⟨?_, accounts.queued, accounts.taken, accounts.bounded, ?_⟩
  · change server.received.Perm ((server.setReceiver receiver .checking).inReceivers ++
      (server.refused ++ [job]) ++ server.accepted)
    rw [List.perm_iff_count]
    intro other
    have before := accounts.received.count_eq other
    have moved := count_inReceivers located .checking other
    simp only [ReceiverPhase.job, Option.toList_none, List.count_nil, Option.toList_some] at moved
    simp only [List.count_append] at before ⊢
    omega
  · change (server.shed + 1).toNat = (server.refused ++ [job]).length % 2 ^ 64
    rw [UInt64.toNat_add, accounts.shed, UInt64.toNat_one, List.length_append, List.length_singleton,
      Nat.mod_add_mod]

/-- A datagram is popped. -/
theorem pop {job : UdpJob} {rest : List UdpJob} (accounts : server.Accounts)
    (located : server.handlers[handler]? = some .popping)
    (first : server.queue.inner = job :: rest) :
    Accounts { server.setHandler handler (.answering job) with
      queue := { server.queue with inner := rest }
      taken := server.taken ++ [job] } := by
  refine ⟨accounts.received, ?_, ?_, ?_, accounts.shed⟩
  · change server.accepted = server.taken ++ [job] ++ rest
    rw [accounts.queued, first, List.append_assoc, List.singleton_append]
  · change (server.taken ++ [job]).Perm ((server.setHandler handler (.answering job)).inHandlers ++
      server.answered.map Prod.fst)
    rw [List.perm_iff_count]
    intro other
    have before := accounts.taken.count_eq other
    have moved := count_inHandlers located (.answering job) other
    simp only [HandlerPhase.job, Option.toList_none, List.count_nil, Option.toList_some] at moved
    simp only [List.count_append] at before ⊢
    omega
  · have bounded := accounts.bounded
    rw [first] at bounded
    exact (Nat.le_succ _).trans bounded

/-- A datagram is answered. -/
theorem answer {job : UdpJob} (accounts : server.Accounts)
    (located : server.handlers[handler]? = some (.answering job)) (response : Bytes) :
    Accounts { server.setHandler handler .popping with
      answered := server.answered ++ [(job, response)] } := by
  refine ⟨accounts.received, accounts.queued, ?_, accounts.bounded, accounts.shed⟩
  change server.taken.Perm ((server.setHandler handler .popping).inHandlers ++
    (server.answered ++ [(job, response)]).map Prod.fst)
  rw [List.perm_iff_count]
  intro other
  have before := accounts.taken.count_eq other
  have moved := count_inHandlers located .popping other
  simp only [HandlerPhase.job, Option.toList_none, List.count_nil, Option.toList_some] at moved
  simp only [List.count_append, List.map_append, List.map_cons, List.map_nil] at before ⊢
  omega

/-- What every step keeps. -/
theorem step (accounts : server.Accounts) (taken : server.step action = some next) :
    next.Accounts := by
  cases took_of_step taken with
  | checked located => exact accounts.setReceiver located (by split_ifs <;> rfl)
  | received located => exact accounts.receive located
  | timedOut located => exact accounts.setReceiver located rfl
  | accepted located room _ => exact accounts.push located room
  | refused located => exact accounts.setReceiver located rfl
  | shed located => exact accounts.shedOne located
  | popped located first => exact accounts.pop located first
  | stopped located _ _ => exact accounts.setHandler located rfl
  | waits located _ => exact accounts.setHandler located rfl
  | woken located => exact accounts.setHandler located rfl
  | answered located => exact accounts.answer located _
  | shutdown => exact ⟨accounts.received, accounts.queued, accounts.taken, accounts.bounded, accounts.shed⟩

end Accounts

/-- The datagram an action brings. -/
def arrival : UdpAction → Option UdpJob
  | .receive _ datagram => datagram
  | _ => none

theorem Took.arrival (took : server.Took action next) :
    next.received = server.received ++ (UdpServer.arrival action).toList := by
  cases took with
  | received _ => rfl
  | checked _ | timedOut _ | accepted _ _ _ | refused _ | shed _ | popped _ _ | stopped _ _ _
  | waits _ _ | woken _ | answered _ | shutdown => exact (List.append_nil _).symm

theorem Took.capacity (took : server.Took action next) :
    next.queue.capacity = server.queue.capacity := by
  cases took <;> rfl

theorem Took.length_handlers (took : server.Took action next) :
    next.handlers.length = server.handlers.length := by
  cases took with
  | checked _ | received _ | timedOut _ | accepted _ _ _ | refused _ | shed _ | shutdown => rfl
  | popped _ _ | stopped _ _ _ | waits _ _ | woken _ | answered _ => exact List.length_set

/-! ## Shutting down -/

/-- The steps that are left once the server is shutting down. A datagram in the queue is popped
and answered. -/
def remaining (self : UdpServer) : Nat :=
  (self.receivers.map ReceiverPhase.remaining).sum +
    (self.handlers.map HandlerPhase.remaining).sum + 2 * self.queue.inner.length

/-- A receiver goes on to where less is left for it. -/
theorem receiver_goes_on {phase later : ReceiverPhase}
    (located : server.receivers[receiver]? = some phase)
    (fewer : later.remaining + 1 ≤ phase.remaining) :
    (server.setReceiver receiver later).remaining + 1 ≤ server.remaining := by
  have moved := sum_map_set located ReceiverPhase.remaining later
  unfold UdpServer.remaining setReceiver
  dsimp only
  omega

/-- A handler goes on to where less is left for it. -/
theorem handler_goes_on {phase later : HandlerPhase}
    (located : server.handlers[handler]? = some phase)
    (fewer : later.remaining + 1 ≤ phase.remaining) :
    (server.setHandler handler later).remaining + 1 ≤ server.remaining := by
  have moved := sum_map_set located HandlerPhase.remaining later
  unfold UdpServer.remaining setHandler
  dsimp only
  omega

/-- Once the server is shutting down nothing is queued, and every step of a thread is one of
those that are left. -/
theorem Took.remaining (took : server.Took action next) (stopping : server.shutdown = true) :
    next.remaining + (if action.ofThread then 1 else 0) ≤ server.remaining := by
  cases took with
  | checked located =>
      rw [stopping]
      exact receiver_goes_on located le_rfl
  | received located => exact receiver_goes_on located le_rfl
  | timedOut located => exact receiver_goes_on located (by decide)
  | accepted _ _ running => rw [stopping] at running; cases running
  | refused located => exact receiver_goes_on located le_rfl
  | shed located => exact receiver_goes_on located le_rfl
  | @popped handler job rest located first =>
      have moved := sum_map_set located HandlerPhase.remaining (.answering job)
      have shorter := congrArg List.length first
      unfold UdpServer.remaining setHandler
      simp only [UdpAction.ofThread, ↓reduceIte, HandlerPhase.remaining, List.length_cons] at *
      omega
  | stopped located _ _ => exact handler_goes_on located le_rfl
  | waits _ running => rw [stopping] at running; cases running
  | woken located => exact handler_goes_on located le_rfl
  | answered located => exact handler_goes_on located le_rfl
  | shutdown => exact le_rfl

/-- The server stays told to stop, and nothing more is queued. -/
theorem Took.stopping (took : server.Took action next) (stopping : server.shutdown = true) :
    next.shutdown = true ∧ next.accepted = server.accepted := by
  cases took with
  | accepted _ _ running => rw [stopping] at running; cases running
  | checked _ | received _ | timedOut _ | refused _ | shed _ | popped _ _ | stopped _ _ _
  | waits _ _ | woken _ | answered _ => exact ⟨stopping, rfl⟩
  | shutdown => exact ⟨rfl, rfl⟩

/-- A handler that has returned has left the queue empty for good. -/
def Drained (server : UdpServer) : Prop :=
  .returned ∈ server.handlers → server.shutdown = true ∧ server.queue.inner = []

theorem drained_initial (queueLimit receivers handlers : Nat) :
    (UdpServer.initial queueLimit receivers handlers).Drained := by
  intro returned
  cases List.eq_of_mem_replicate returned

/-- A handler that returns later than now has not returned now. -/
theorem returned_of_set {later : HandlerPhase} (running : later ≠ .returned)
    (returned : HandlerPhase.returned ∈ (server.setHandler handler later).handlers) :
    .returned ∈ server.handlers := by
  obtain same | before := List.mem_or_eq_of_mem_set returned |>.symm
  · exact absurd same.symm running
  · exact before

theorem Drained.step (drained : server.Drained) (taken : server.step action = some next) :
    next.Drained := by
  intro returned
  cases took_of_step taken with
  | checked _ | received _ | timedOut _ | refused _ | shed _ => exact drained returned
  | accepted _ _ running =>
      have stopping := (drained returned).1
      rw [running] at stopping
      cases stopping
  | popped _ first =>
      have empty := (drained (returned_of_set (by simp) returned)).2
      rw [first] at empty
      cases empty
  | stopped _ empty stopping => exact ⟨stopping, empty⟩
  | waits _ _ | woken _ | answered _ => exact drained (returned_of_set (by simp) returned)
  | shutdown => exact ⟨rfl, (drained returned).2⟩

/-- No thread can take a step. -/
def Stuck (server : UdpServer) : Prop :=
  ∀ action : UdpAction, action.ofThread = true → server.step action = none

/-- A resolver that resolves nothing. -/
def silentResolver : QueryResolver :=
  ⟨.default, false, fun _ => true, fun _ => .error ⟨.noUpstream, ""⟩⟩

/-- A receiver that cannot go on has returned. -/
theorem Stuck.receivers (stuck : server.Stuck) :
    ∀ phase ∈ server.receivers, phase = .returned := by
  intro phase present
  obtain ⟨receiver, inside, rfl⟩ := List.mem_iff_getElem.mp present
  have located := List.getElem?_eq_getElem inside
  cases phase : server.receivers[receiver] with
  | returned => rfl
  | checking =>
      rw [phase] at located
      have moved := stuck (.check receiver) rfl
      simp [step, check, located] at moved
  | receiving =>
      rw [phase] at located
      have moved := stuck (.receive receiver none) rfl
      simp [step, receive, located] at moved
  | pushing job =>
      rw [phase] at located
      have moved := stuck (.push receiver) rfl
      simp only [step, push, located] at moved
      split at moved <;> cases moved
  | shedding job =>
      rw [phase] at located
      have moved := stuck (.shed receiver) rfl
      simp [step, shedOne, located] at moved

/-- A handler that cannot go on has returned. -/
theorem Stuck.handlers (stuck : server.Stuck) :
    ∀ phase ∈ server.handlers, phase = .returned := by
  intro phase present
  obtain ⟨handler, inside, rfl⟩ := List.mem_iff_getElem.mp present
  have located := List.getElem?_eq_getElem inside
  cases phase : server.handlers[handler] with
  | returned => rfl
  | popping =>
      rw [phase] at located
      have moved := stuck (.pop handler) rfl
      simp only [step, pop, located, ↓reduceIte] at moved
      split at moved <;> cases moved
  | waiting =>
      rw [phase] at located
      have moved := stuck (.wake handler) rfl
      simp [step, wake, located] at moved
  | answering job =>
      rw [phase] at located
      have moved := stuck (.answer handler silentResolver) rfl
      simp [step, answer, located] at moved

/-- Threads that have returned do not go on. -/
theorem stuck_of_returned (receivers : ∀ phase ∈ server.receivers, phase = .returned)
    (handlers : ∀ phase ∈ server.handlers, phase = .returned) : server.Stuck := by
  intro action ofThread
  have noReceiver {receiver : Nat} {phase : ReceiverPhase}
      (located : server.receivers[receiver]? = some phase) : phase = .returned :=
    receivers phase (List.mem_of_getElem? located)
  have noHandler {handler : Nat} {phase : HandlerPhase}
      (located : server.handlers[handler]? = some phase) : phase = .returned :=
    handlers phase (List.mem_of_getElem? located)
  cases taken : server.step action with
  | none => rfl
  | some next =>
      cases took_of_step taken with
      | checked located | received located | timedOut located | accepted located _ _
      | refused located | shed located => cases noReceiver located
      | popped located _ | stopped located _ _ | waits located _ | woken located
      | answered located => cases noHandler located
      | shutdown => cases ofThread

/-! ## Runs -/

variable {queueLimit receivers handlers : Nat} {actions more : List UdpAction}
  {final : UdpServer}

theorem accounts_of_runs
    (runs : Runs step (fun _ _ => True) (initial queueLimit receivers handlers) actions server) :
    server.Accounts :=
  runs.invariant (fun accounts _ taken => accounts.step taken) (Accounts.initial _ _ _)

theorem drained_of_runs
    (runs : Runs step (fun _ _ => True) (initial queueLimit receivers handlers) actions server) :
    server.Drained :=
  runs.invariant (fun drained _ taken => drained.step taken) (drained_initial _ _ _)

/-- What was received is what the actions brought. -/
theorem received_of_runs (runs : Runs step (fun _ _ => True) server actions final) :
    final.received = server.received ++ actions.filterMap arrival := by
  induction runs with
  | refl => exact (List.append_nil _).symm
  | @step actions state next action prior _ taken inductionHypothesis =>
      rw [(took_of_step taken).arrival, inductionHypothesis, List.filterMap_append,
        List.append_assoc]
      cases brought : arrival action <;> simp [brought]

/-- The queue keeps its capacity, and no handler is added or lost. -/
theorem layout_of_runs (runs : Runs step (fun _ _ => True) server actions final) :
    final.queue.capacity = server.queue.capacity ∧
      final.handlers.length = server.handlers.length := by
  induction runs with
  | refl => exact ⟨rfl, rfl⟩
  | step _ _ taken inductionHypothesis =>
      have took := took_of_step taken
      exact ⟨took.capacity.trans inductionHypothesis.1,
        took.length_handlers.trans inductionHypothesis.2⟩

/-- What was answered was answered by the resolver of its step. -/
theorem answered_of_runs
    (runs : Runs step (fun _ _ => True) (initial queueLimit receivers handlers) actions server) :
    ∀ answer ∈ server.answered, ∃ handler resolver, UdpAction.answer handler resolver ∈ actions ∧
      answer.2 = resolver.udpResponse answer.1.bytes answer.1.src.ip := by
  induction runs with
  | refl => exact fun _ none => absurd none List.not_mem_nil
  | @step actions state next action prior _ taken inductionHypothesis =>
      have earlier : ∀ answer ∈ state.answered, ∃ handler resolver,
          UdpAction.answer handler resolver ∈ actions ++ [action] ∧
            answer.2 = resolver.udpResponse answer.1.bytes answer.1.src.ip := by
        intro answer present
        obtain ⟨handler, resolver, listed, computed⟩ := inductionHypothesis answer present
        exact ⟨handler, resolver, List.mem_append_left _ listed, computed⟩
      cases took_of_step taken with
      | @answered handler job resolver located =>
          intro answer present
          obtain before | now := List.mem_append.mp present
          · exact earlier answer before
          · obtain rfl := List.mem_singleton.mp now
            exact ⟨handler, resolver, List.mem_append_right _ (List.mem_singleton.mpr rfl), rfl⟩
      | checked _ | received _ | timedOut _ | accepted _ _ _ | refused _ | shed _ | popped _ _
      | stopped _ _ _ | waits _ _ | woken _ | shutdown => exact earlier

/-- What a run does after the server was told to stop. -/
theorem stopping_of_runs (stopping : server.shutdown = true)
    (runs : Runs step (fun _ _ => True) server more final) :
    final.shutdown = true ∧ final.accepted = server.accepted ∧
      final.remaining + more.countP UdpAction.ofThread ≤ server.remaining := by
  induction runs with
  | refl => exact ⟨stopping, rfl, le_rfl⟩
  | @step actions state next action prior _ taken inductionHypothesis =>
      obtain ⟨told, same, left⟩ := inductionHypothesis
      have took := took_of_step taken
      have less := took.remaining told
      obtain ⟨toldNext, sameNext⟩ := took.stopping told
      refine ⟨toldNext, sameNext.trans same, ?_⟩
      rw [List.countP_append, List.countP_singleton]
      omega

end UdpServer

/-- **A shutdown drains.** Once the server was told to stop, nothing more is queued and the threads
take no more steps than are left; when none of them can go on, all have returned, and what was ever
queued was answered and the rest was shed. -/
theorem shutdown_drains {queueLimit receivers handlers : Nat} {actions more : List UdpAction}
    {server final : UdpServer} (someHandler : 0 < handlers)
    (runs : Runs UdpServer.step (fun _ _ => True)
      (UdpServer.initial queueLimit receivers handlers) actions server)
    (stopping : server.shutdown = true)
    (later : Runs UdpServer.step (fun _ _ => True) server more final) :
    final.accepted = server.accepted ∧
      more.countP UdpAction.ofThread ≤ server.remaining ∧
      (final.Stuck →
        (∀ phase ∈ final.receivers, phase = .returned) ∧
          (∀ phase ∈ final.handlers, phase = .returned) ∧
          final.accepted.Perm (final.answered.map Prod.fst) ∧
          final.received.Perm (final.refused ++ final.accepted)) := by
  obtain ⟨-, same, left⟩ := UdpServer.stopping_of_runs stopping later
  have accounts : final.Accounts :=
    later.invariant (fun accounts _ taken => accounts.step taken)
      (UdpServer.accounts_of_runs runs)
  have drained : final.Drained :=
    later.invariant (fun drained _ taken => drained.step taken) (UdpServer.drained_of_runs runs)
  refine ⟨same, by omega, fun stuck => ⟨stuck.receivers, stuck.handlers, ?_, ?_⟩⟩
  · have many : final.handlers.length = handlers := by
      rw [(UdpServer.layout_of_runs later).2, (UdpServer.layout_of_runs runs).2]
      exact List.length_replicate
    obtain ⟨phase, present⟩ := List.exists_mem_of_length_pos (many ▸ someHandler)
    have empty := (drained (stuck.handlers phase present ▸ present)).2
    have idle : final.inHandlers = [] := by
      refine List.filterMap_eq_nil_iff.mpr fun phase present => ?_
      rw [stuck.handlers phase present]
      rfl
    have taken := accounts.taken
    rw [accounts.queued, empty, List.append_nil]
    rwa [idle, List.nil_append] at taken
  · have idle : final.inReceivers = [] := by
      refine List.filterMap_eq_nil_iff.mpr fun phase present => ?_
      rw [stuck.receivers phase present]
      rfl
    have received := accounts.received
    rwa [idle, List.nil_append] at received

/-- A datagram that is queued when the server is told to stop is answered. -/
theorem shutdown_drains_one :
    ∃ server final : UdpServer, server.shutdown = true ∧ server.queue.inner.length = 1 ∧
      final.answered.length = 1 ∧ final.accepted.Perm (final.answered.map Prod.fst) := by
  let job : UdpJob := ⟨[0, 7], ⟨.v4 ⟨[192, 0, 2, 1], rfl⟩, 53000⟩⟩
  let server : UdpServer := { UdpServer.initial 8 1 1 with
    queue := ⟨[job], 8⟩, shutdown := true, received := [job], accepted := [job] }
  have runs : Runs UdpServer.step (fun _ _ => True) (UdpServer.initial 8 1 1)
      [.check 0, .receive 0 (some job), .push 0, .shutdown] server := runs_of_runActions rfl
  have later := @runs_of_runActions _ _ UdpServer.step (fun _ _ => True) server _
    [.pop 0, .answer 0 UdpServer.silentResolver, .pop 0, .check 0] _ rfl
  have drains := (shutdown_drains (by decide) runs rfl later).2.2
    (UdpServer.stuck_of_returned (fun _ => List.mem_singleton.mp) fun _ => List.mem_singleton.mp)
  refine ⟨server, _, rfl, rfl, ?_, drains.2.2.1⟩
  rfl

end RecurseX
