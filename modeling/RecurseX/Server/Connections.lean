import RecurseX.Library.Runs

/-!
# The TCP connections of the server

Any number of accept loops share one counter. A loop looks at the counter, adds to it and
spawns the thread of the connection, in three steps; the thread takes its one away again
when it ends. A spawn that fails leaves its one behind, and so does a thread that unwinds.
-/

namespace RecurseX

open Library

/-- Where a loop of `tcp_accept_loop` stands. -/
inductive AcceptPhase where
  /-- In `accept`. -/
  | accepting
  /-- `accept` has returned a stream or an error. -/
  | yielded (stream : Bool)
  /-- With a stream, while the server was running. -/
  | accepted
  /-- The counter was below the limit. -/
  | admitted
  /-- The connection is counted and its thread is to be spawned. -/
  | counted
  | returned
deriving DecidableEq, Repr

/-- One for a stream that was admitted and not counted yet. -/
def AcceptPhase.admission : AcceptPhase → Nat
  | .admitted => 1
  | _ => 0

/-- One for a connection that is counted and has no thread yet. -/
def AcceptPhase.place : AcceptPhase → Nat
  | .counted => 1
  | _ => 0

/-- Where the thread of a connection stands. -/
inductive ConnectionPhase where
  /-- In `tcp_conn`. -/
  | serving
  /-- `tcp_conn` has returned. -/
  | closing
  | gone
deriving DecidableEq, Repr

/-- One for a connection whose thread has not ended. -/
def ConnectionPhase.place : ConnectionPhase → Nat
  | .gone => 0
  | _ => 1

/-- The loops, the connections and the counter they share. -/
structure TcpServer where
  maxTcpConnections : UInt64
  tcpConnections : UInt64
  shutdown : Bool
  loops : List AcceptPhase
  connections : List ConnectionPhase
deriving DecidableEq, Repr

/-- One atomic step of a loop or of a connection's thread, and what comes from outside. -/
inductive TcpAction where
  | accept (loop : Nat) (stream : Bool)
  | check (loop : Nat)
  | inspect (loop : Nat)
  | count (loop : Nat)
  | spawn (loop : Nat) (started : Bool)
  | close (connection : Nat) (unwound : Bool)
  | release (connection : Nat)
  | shutdown
deriving DecidableEq, Repr

/-- A count that is never taken away again. -/
def TcpAction.loses : TcpAction → Bool
  | .spawn _ started => !started
  | .close _ unwound => unwound
  | _ => false

namespace TcpServer

/-- The loops of as many listeners have been spawned. -/
def initial (maxTcpConnections : UInt64) (listeners : Nat) : TcpServer where
  maxTcpConnections := maxTcpConnections
  tcpConnections := 0
  shutdown := false
  loops := List.replicate listeners .accepting
  connections := []

def setLoop (self : TcpServer) (loop : Nat) (phase : AcceptPhase) : TcpServer :=
  { self with loops := self.loops.set loop phase }

def setConnection (self : TcpServer) (connection : Nat) (phase : ConnectionPhase) : TcpServer :=
  { self with connections := self.connections.set connection phase }

/-- Return from `accept`. -/
def accept (self : TcpServer) (loop : Nat) (stream : Bool) : Option TcpServer :=
  if self.loops[loop]? = some .accepting then some (self.setLoop loop (.yielded stream)) else none

/-- Look at the shutdown flag, and then whether there is a stream. -/
def check (self : TcpServer) (loop : Nat) : Option TcpServer :=
  match self.loops[loop]? with
  | some (.yielded stream) =>
      some (self.setLoop loop
        (if self.shutdown then .returned else if stream then .accepted else .accepting))
  | _ => none

/-- Look at the counter. A limit of zero admits every connection. -/
def inspect (self : TcpServer) (loop : Nat) : Option TcpServer :=
  if self.loops[loop]? = some .accepted then
    some (self.setLoop loop
      (if self.maxTcpConnections > 0 ∧ self.tcpConnections ≥ self.maxTcpConnections then .accepting
      else .admitted))
  else none

/-- Add one to the counter. -/
def count (self : TcpServer) (loop : Nat) : Option TcpServer :=
  if self.loops[loop]? = some .admitted then
    some { self.setLoop loop .counted with tcpConnections := self.tcpConnections + 1 }
  else none

/-- Spawn the thread of the connection. An error is not looked at. -/
def spawn (self : TcpServer) (loop : Nat) (started : Bool) : Option TcpServer :=
  if self.loops[loop]? = some .counted then
    some { self.setLoop loop .accepting with
      connections := if started then self.connections ++ [.serving] else self.connections }
  else none

/-- Return from `tcp_conn`, or unwind. -/
def close (self : TcpServer) (connection : Nat) (unwound : Bool) : Option TcpServer :=
  if self.connections[connection]? = some .serving then
    some (self.setConnection connection (if unwound then .gone else .closing))
  else none

/-- Take one away from the counter. -/
def release (self : TcpServer) (connection : Nat) : Option TcpServer :=
  if self.connections[connection]? = some .closing then
    some { self.setConnection connection .gone with tcpConnections := self.tcpConnections - 1 }
  else none

def step (self : TcpServer) : TcpAction → Option TcpServer
  | .accept loop stream => self.accept loop stream
  | .check loop => self.check loop
  | .inspect loop => self.inspect loop
  | .count loop => self.count loop
  | .spawn loop started => self.spawn loop started
  | .close connection unwound => self.close connection unwound
  | .release connection => self.release connection
  | .shutdown => some { self with shutdown := true }

/-- Streams that were admitted and not counted yet. -/
def admissions (self : TcpServer) : Nat := (self.loops.map AcceptPhase.admission).sum

/-- Connections that are counted and have no thread yet. -/
def pending (self : TcpServer) : Nat := (self.loops.map AcceptPhase.place).sum

/-- Connections whose thread has not ended. -/
def live (self : TcpServer) : Nat := (self.connections.map ConnectionPhase.place).sum

variable {server next : TcpServer} {action : TcpAction} {actions : List TcpAction}
  {loop connection lost listeners : Nat} {maxTcpConnections : UInt64}

theorem admissions_le (server : TcpServer) : server.admissions ≤ server.loops.length := by
  have atMostOne (phase : AcceptPhase) : phase.admission ≤ 1 := by
    cases phase <;> simp [AcceptPhase.admission]
  unfold admissions
  induction server.loops with
  | nil => exact Nat.le_refl 0
  | cons phase loops inductionHypothesis =>
      rw [List.map_cons, List.sum_cons, List.length_cons, Nat.add_comm]
      exact Nat.add_le_add inductionHypothesis (atMostOne phase)

/-- A loop that goes on. -/
theorem moved_loop {phase : AcceptPhase} (located : server.loops[loop]? = some phase)
    (later : AcceptPhase) :
    (server.setLoop loop later).pending + phase.place = server.pending + later.place ∧
      (server.setLoop loop later).admissions + phase.admission =
        server.admissions + later.admission :=
  ⟨sum_map_set located AcceptPhase.place later, sum_map_set located AcceptPhase.admission later⟩

/-- A connection that goes on. -/
theorem moved_connection {phase : ConnectionPhase}
    (located : server.connections[connection]? = some phase) (later : ConnectionPhase) :
    (server.setConnection connection later).live + phase.place = server.live + later.place :=
  sum_map_set located ConnectionPhase.place later

/-- The counter is of the connections that are counted, of those that have a thread, and of what
was lost. It is below the limit by the streams that were admitted, but for the loops that may all
have looked at it at once. -/
structure Counts (server : TcpServer) (lost : Nat) : Prop where
  counted : server.tcpConnections.toNat = server.pending + server.live + lost
  within : server.tcpConnections.toNat + server.admissions <
    server.maxTcpConnections.toNat + server.loops.length

theorem initial_counts (positive : 0 < maxTcpConnections) :
    (initial maxTcpConnections listeners).Counts 0 where
  counted := by simp [initial, pending, live, AcceptPhase.place]
  within := by
    have some := UInt64.lt_iff_toNat_lt.mp positive
    simp only [UInt64.toNat_zero] at some
    simp [initial, admissions, AcceptPhase.admission]
    omega

namespace Counts

/-- A loop that goes on and has no more places than before. -/
theorem setLoop {phase later : AcceptPhase} (counts : server.Counts lost)
    (located : server.loops[loop]? = some phase) (place : later.place = phase.place)
    (admission : later.admission ≤ phase.admission) : (server.setLoop loop later).Counts lost := by
  obtain ⟨pending, admissions⟩ := moved_loop located later
  have counted := counts.counted
  have within := counts.within
  refine ⟨?_, ?_⟩
  · change server.tcpConnections.toNat = (server.setLoop loop later).pending + server.live + lost
    omega
  · change server.tcpConnections.toNat + (server.setLoop loop later).admissions <
      server.maxTcpConnections.toNat + (server.loops.set loop later).length
    rw [List.length_set]
    omega

/-- A stream is admitted while the counter is below the limit. -/
theorem inspect (counts : server.Counts lost) (located : server.loops[loop]? = some .accepted)
    (room : server.tcpConnections < server.maxTcpConnections) :
    (server.setLoop loop .admitted).Counts lost := by
  obtain ⟨pending, -⟩ := moved_loop located .admitted
  have counted := counts.counted
  have below := UInt64.lt_iff_toNat_lt.mp room
  have most := admissions_le (server.setLoop loop .admitted)
  refine ⟨?_, ?_⟩
  · change server.tcpConnections.toNat =
      (server.setLoop loop .admitted).pending + server.live + lost
    simp only [AcceptPhase.place] at pending
    omega
  · change server.tcpConnections.toNat + (server.setLoop loop .admitted).admissions <
      server.maxTcpConnections.toNat + (server.setLoop loop .admitted).loops.length
    omega

/-- An admitted stream is counted. -/
theorem count (counts : server.Counts lost) (located : server.loops[loop]? = some .admitted)
    (fits : server.maxTcpConnections.toNat + server.loops.length ≤ 2 ^ 64) :
    Counts { server.setLoop loop .counted with tcpConnections := server.tcpConnections + 1 }
      lost := by
  obtain ⟨pending, admissions⟩ := moved_loop located .counted
  simp only [AcceptPhase.place, AcceptPhase.admission] at pending admissions
  have counted := counts.counted
  have within := counts.within
  have more : (server.tcpConnections + 1).toNat = server.tcpConnections.toNat + 1 := by
    rw [UInt64.toNat_add, UInt64.toNat_one, Nat.mod_eq_of_lt (by omega)]
  refine ⟨?_, ?_⟩
  · change (server.tcpConnections + 1).toNat =
      (server.setLoop loop .counted).pending + server.live + lost
    omega
  · change (server.tcpConnections + 1).toNat + (server.setLoop loop .counted).admissions <
      server.maxTcpConnections.toNat + (server.loops.set loop .counted).length
    rw [List.length_set]
    omega

/-- A counted connection gets its thread, or is lost. -/
theorem spawn (counts : server.Counts lost) (located : server.loops[loop]? = some .counted)
    (started : Bool) :
    Counts { server.setLoop loop .accepting with
      connections := if started then server.connections ++ [.serving] else server.connections }
      (lost + if started then 0 else 1) := by
  obtain ⟨pending, admissions⟩ := moved_loop located .accepting
  simp only [AcceptPhase.place, AcceptPhase.admission] at pending admissions
  have counted := counts.counted
  have within := counts.within
  refine ⟨?_, ?_⟩
  · cases started with
    | true =>
        change server.tcpConnections.toNat = (server.setLoop loop .accepting).pending +
          ((server.connections ++ [ConnectionPhase.serving]).map ConnectionPhase.place).sum + (lost + 0)
        rw [List.map_append, List.sum_append]
        change _ = _ + (server.live + 1) + _
        omega
    | false =>
        change server.tcpConnections.toNat =
          (server.setLoop loop .accepting).pending + server.live + (lost + 1)
        omega
  · change server.tcpConnections.toNat + (server.setLoop loop .accepting).admissions <
      server.maxTcpConnections.toNat + (server.loops.set loop .accepting).length
    rw [List.length_set]
    omega

/-- What a step keeps. -/
theorem step (counts : server.Counts lost) (positive : 0 < server.maxTcpConnections)
    (fits : server.maxTcpConnections.toNat + server.loops.length ≤ 2 ^ 64)
    (taken : server.step action = some next) :
    next.Counts (lost + if action.loses then 1 else 0) := by
  cases action with
  | accept loop stream =>
      obtain ⟨located, taken⟩ := Option.ite_none_right_eq_some.mp taken
      obtain rfl := Option.some.inj taken
      exact counts.setLoop located rfl (Nat.le_refl _)
  | check loop =>
      simp only [TcpServer.step, check] at taken
      split at taken
      · rename_i stream located
        obtain rfl := Option.some.inj taken
        refine counts.setLoop located ?_ ?_
        · split_ifs <;> rfl
        · split_ifs <;> exact Nat.le_refl _
      · cases taken
  | inspect loop =>
      obtain ⟨located, taken⟩ := Option.ite_none_right_eq_some.mp taken
      obtain rfl := Option.some.inj taken
      by_cases full : server.maxTcpConnections > 0 ∧
          server.tcpConnections ≥ server.maxTcpConnections
      · rw [if_pos full]
        exact counts.setLoop located rfl (Nat.le_refl _)
      · rw [if_neg full]
        exact counts.inspect located (UInt64.not_le.mp fun least => full ⟨positive, least⟩)
  | count loop =>
      obtain ⟨located, taken⟩ := Option.ite_none_right_eq_some.mp taken
      obtain rfl := Option.some.inj taken
      exact counts.count located fits
  | spawn loop started =>
      obtain ⟨located, taken⟩ := Option.ite_none_right_eq_some.mp taken
      obtain rfl := Option.some.inj taken
      cases started with
      | true => exact counts.spawn located true
      | false => exact counts.spawn located false
  | close connection unwound =>
      obtain ⟨located, taken⟩ := Option.ite_none_right_eq_some.mp taken
      obtain rfl := Option.some.inj taken
      have counted := counts.counted
      refine ⟨?_, counts.within⟩
      change server.tcpConnections.toNat = server.pending + (server.setConnection connection
        (if unwound then .gone else .closing)).live + (lost + if unwound then 1 else 0)
      cases unwound with
      | true =>
          have moved := moved_connection located .gone
          simp only [ConnectionPhase.place, ↓reduceIte] at moved ⊢
          omega
      | false =>
          have moved := moved_connection located .closing
          simp only [ConnectionPhase.place, Bool.false_eq_true, ↓reduceIte] at moved ⊢
          omega
  | release connection =>
      obtain ⟨located, taken⟩ := Option.ite_none_right_eq_some.mp taken
      obtain rfl := Option.some.inj taken
      have moved := moved_connection located .gone
      simp only [ConnectionPhase.place] at moved
      have counted := counts.counted
      have within := counts.within
      have one : (1 : UInt64) ≤ server.tcpConnections :=
        UInt64.le_iff_toNat_le.mpr (by rw [UInt64.toNat_one]; omega)
      have less : (server.tcpConnections - 1).toNat = server.tcpConnections.toNat - 1 := by
        rw [UInt64.toNat_sub_of_le _ _ one, UInt64.toNat_one]
      refine ⟨?_, ?_⟩
      · change (server.tcpConnections - 1).toNat =
          server.pending + (server.setConnection connection .gone).live + (lost + 0)
        omega
      · change (server.tcpConnections - 1).toNat + server.admissions <
          server.maxTcpConnections.toNat + server.loops.length
        omega
  | shutdown =>
      obtain rfl := Option.some.inj taken
      exact ⟨counts.counted, counts.within⟩

end Counts

/-- The limit and the number of loops stay. -/
theorem step_layout (taken : server.step action = some next) :
    next.maxTcpConnections = server.maxTcpConnections ∧
      next.loops.length = server.loops.length := by
  cases action with
  | accept loop _ | inspect loop | count loop | spawn loop _ =>
      obtain ⟨-, taken⟩ := Option.ite_none_right_eq_some.mp taken
      obtain rfl := Option.some.inj taken
      exact ⟨rfl, List.length_set⟩
  | check loop =>
      simp only [TcpServer.step, check] at taken
      split at taken
      · obtain rfl := Option.some.inj taken
        exact ⟨rfl, List.length_set⟩
      · cases taken
  | close connection _ | release connection =>
      obtain ⟨-, taken⟩ := Option.ite_none_right_eq_some.mp taken
      obtain rfl := Option.some.inj taken
      exact ⟨rfl, rfl⟩
  | shutdown =>
      obtain rfl := Option.some.inj taken
      exact ⟨rfl, rfl⟩

theorem layout_of_runs
    (runs : Runs step (fun _ _ => True) (initial maxTcpConnections listeners) actions server) :
    server.maxTcpConnections = maxTcpConnections ∧ server.loops.length = listeners := by
  induction runs with
  | refl => exact ⟨rfl, List.length_replicate⟩
  | step _ _ taken inductionHypothesis =>
      obtain ⟨limit, loops⟩ := step_layout taken
      exact ⟨limit.trans inductionHypothesis.1, loops.trans inductionHypothesis.2⟩

/-- In every run the counter is of the connections and of what was lost. -/
theorem counts_of_runs (positive : 0 < maxTcpConnections)
    (fits : maxTcpConnections.toNat + listeners ≤ 2 ^ 64)
    (runs : Runs step (fun _ _ => True) (initial maxTcpConnections listeners) actions server) :
    server.Counts (actions.countP TcpAction.loses) := by
  induction runs with
  | refl => exact initial_counts positive
  | @step actions state next action prior _ taken inductionHypothesis =>
      obtain ⟨limit, loops⟩ := layout_of_runs prior
      rw [List.countP_append, List.countP_singleton]
      exact inductionHypothesis.step (limit ▸ positive) (limit ▸ loops ▸ fits) taken

end TcpServer

/-- **The limit on connections.** With a limit, the counter is of the connections, from the step
that counts each to the end of its thread, and of those whose spawn failed or whose thread unwound;
and these are at most as many as the limit and one for each listener but the first. Where as many
are lost as the limit says, no stream is admitted any more. -/
theorem tcp_connections_within {maxTcpConnections : UInt64} {listeners : Nat}
    {actions : List TcpAction} {server : TcpServer} (positive : 0 < maxTcpConnections)
    (fits : maxTcpConnections.toNat + listeners ≤ 2 ^ 64)
    (runs : Runs TcpServer.step (fun _ _ => True)
      (TcpServer.initial maxTcpConnections listeners) actions server) :
    server.tcpConnections.toNat =
        server.pending + server.live + actions.countP TcpAction.loses ∧
      server.pending + server.live + actions.countP TcpAction.loses <
        maxTcpConnections.toNat + listeners ∧
      (maxTcpConnections.toNat ≤ actions.countP TcpAction.loses → ∀ loop next,
        server.step (.inspect loop) = some next → next = server.setLoop loop .accepting) := by
  have counts := TcpServer.counts_of_runs positive fits runs
  obtain ⟨limit, loops⟩ := TcpServer.layout_of_runs runs
  have counted := counts.counted
  have within := counts.within
  rw [limit, loops] at within
  refine ⟨counted, by omega, fun lost loop next taken => ?_⟩
  obtain ⟨-, taken⟩ := Option.ite_none_right_eq_some.mp taken
  have full : server.tcpConnections ≥ maxTcpConnections := UInt64.le_iff_toNat_le.mpr (by omega)
  rw [limit, if_pos ⟨positive, full⟩] at taken
  exact (Option.some.inj taken).symm

/-- With one listener the limit is kept. -/
theorem tcp_connections_within_single :
    ∃ server : TcpServer, server.maxTcpConnections = 1 ∧ server.live = 1 ∧
      server.pending + server.live + 0 < (1 : UInt64).toNat + 1 := by
  have runs := @runs_of_runActions _ _ TcpServer.step (fun _ _ => True) (TcpServer.initial 1 1) _
    [.accept 0 true, .check 0, .inspect 0, .count 0, .spawn 0 true] _ rfl
  exact ⟨_, rfl, rfl, (tcp_connections_within (by decide) (by decide) runs).2.1⟩

/-- Two listeners look at the counter before either adds to it: one connection too many. -/
example : ∃ actions server,
    Runs TcpServer.step (fun _ _ => True) (TcpServer.initial 1 2) actions server ∧
      server.live = 2 :=
  ⟨[.accept 0 true, .accept 1 true, .check 0, .check 1, .inspect 0, .inspect 1, .count 0, .count 1,
    .spawn 0 true, .spawn 1 true], _, runs_of_runActions rfl, rfl⟩

end RecurseX
