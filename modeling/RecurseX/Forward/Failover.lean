import RecurseX.Forward.Sharing

/-!
# What a call returns

A call asks the servers of its group in order and returns the first final response. It
agrees with the sequential `exchangeWith`, is answered by an exchange of its own, and
returns whatever the other calls do.
-/

namespace RecurseX.Forward

open Library

/-- A server and its reply, as `exchangeWith` has them. -/
def shown (asked : Forwarder × Result Bytes) : RecurseX.Forwarder :=
  ⟨asked.1.endpoint, asked.1.endpoint.ip.display, asked.2⟩

/-- The first final response, or the last failure. -/
def firstFinal (query : Message) : List (Forwarder × Result Bytes) → Option Error → Result Message
  | [], lastErr => .error (lastErr.getD ⟨.noUpstream, "no forwarder answered"⟩)
  | (f, reply) :: asked, _ =>
      match verdict query f reply with
      | .ok resp => .ok resp
      | .error error => firstFinal query asked (some error)

/-- What `exchangeWith` returns does not depend on its log. -/
theorem exchangeWith_eq_firstFinal (query : Message) (queryBytes : Bytes)
    (asked : List (Forwarder × Result Bytes)) (lastErr : Option Error) (log : List WireExchange) :
    (exchangeWith query queryBytes (asked.map shown) lastErr log).1 =
      firstFinal query asked lastErr := by
  induction asked generalizing lastErr log with
  | nil => rfl
  | cons entry asked inductionHypothesis =>
      obtain ⟨f, reply⟩ := entry
      rw [List.map_cons, exchangeWith, firstFinal]
      unfold verdict
      cases reply with
      | error error => exact inductionHypothesis _ _
      | ok bytes =>
          dsimp only [shown]
          cases parsed : Message.parse bytes with
          | error error => exact inductionHypothesis _ _
          | ok resp =>
              dsimp only
              by_cases stray : responseMatchesQuery query resp = false
              · rw [if_pos stray, if_pos stray]
                exact inductionHypothesis _ _
              rw [if_neg stray, if_neg stray]
              by_cases failed :
                  resp.rcode.toNat ≤ 255 ∧ (⟨resp.rcode.toUInt8⟩ : Rcode).isFailure = true
              · rw [if_pos failed, if_pos failed]
                exact inductionHypothesis _ _
              · rw [if_neg failed, if_neg failed]

/-- A final response is parsed from the reply and matches the query. -/
theorem verdict_eq_ok {query resp : Message} {f : Forwarder} {reply : Result Bytes}
    (final : verdict query f reply = .ok resp) :
    ∃ bytes, reply = .ok bytes ∧ Message.parse bytes = .ok resp ∧
      responseMatchesQuery query resp = true ∧
      ¬ (resp.rcode.toNat ≤ 255 ∧ (⟨resp.rcode.toUInt8⟩ : Rcode).isFailure = true) := by
  unfold verdict at final
  cases reply with
  | error error => cases final
  | ok bytes =>
      dsimp only at final
      cases parsed : Message.parse bytes with
      | error error =>
          rw [parsed] at final
          cases final
      | ok other =>
          rw [parsed] at final
          dsimp only at final
          split_ifs at final with stray failed
          cases final
          exact ⟨bytes, rfl, parsed, by simpa using stray, failed⟩

/-! ## What a call has heard -/

namespace Call

/-- A call has asked the servers in front of those that are left. What it heard so far decides
nothing, or what it returns, whatever the servers that are left would have said. -/
structure Follows (call : Call) : Prop where
  group : call.group = call.asked.map Prod.fst ++ call.rest
  going : (∀ result, call.phase ≠ .returned result) → ∀ later,
    firstFinal call.query (call.asked ++ later) none = firstFinal call.query later call.lastErr
  final : ∀ result, call.phase = .returned result →
    (∀ replies : Forwarder → Result Bytes, firstFinal call.query
      (call.asked ++ call.rest.map fun f => (f, replies f)) none = result) ∧
    (∀ error, result = .error error → call.rest = []) ∧
    ∀ resp, result = .ok resp → ∃ before f reply, call.asked = before ++ [(f, reply)] ∧
      verdict call.query f reply = .ok resp

variable {call : Call}

theorem Follows.start (group : List Forwarder) (query : Message) (queryBytes : Bytes) :
    (Call.start group query queryBytes).Follows :=
  ⟨rfl, fun _ _ => rfl, fun _ returned => by cases returned⟩

/-- Before it has returned, a call may go on from one phase to another. -/
theorem Follows.setPhase (follows : call.Follows) (before : ∀ result, call.phase ≠ .returned result)
    {phase : CallPhase} (after : ∀ result, phase ≠ .returned result) :
    Follows { call with phase } :=
  ⟨follows.group, fun _ => follows.going before, fun result returned => absurd returned (after result)⟩

/-- A reply is heard. -/
theorem Follows.heard (follows : call.Follows) (before : ∀ result, call.phase ≠ .returned result)
    {f : Forwarder} {rest : List Forwarder} (left : call.rest = f :: rest) (reply : Result Bytes) :
    (call.heard f rest reply).Follows := by
  have group : call.group = (call.asked ++ [(f, reply)]).map Prod.fst ++ rest := by
    rw [follows.group, left, List.map_append, List.append_assoc]
    rfl
  have next (later : List (Forwarder × Result Bytes)) :
      firstFinal call.query (call.asked ++ [(f, reply)] ++ later) none =
        firstFinal call.query ((f, reply) :: later) call.lastErr := by
    rw [List.append_assoc]
    exact follows.going before ((f, reply) :: later)
  unfold Call.heard
  cases made : verdict call.query f reply with
  | ok resp =>
      refine ⟨group, fun going => absurd rfl (going (.ok resp)), fun result returned => ?_⟩
      cases returned
      refine ⟨fun replies => ?_, fun error same => ?_, fun other same => ?_⟩
      · refine (next _).trans ?_
        rw [firstFinal, made]
      · cases same
      · cases same
        exact ⟨call.asked, f, reply, rfl, made⟩
  | error error =>
      refine ⟨group, fun _ later => ?_, fun result returned => by cases returned⟩
      refine (next later).trans ?_
      rw [firstFinal, made]

/-- No server is left. -/
theorem Follows.finish (follows : call.Follows) (before : ∀ result, call.phase ≠ .returned result)
    (left : call.rest = []) : call.finish.Follows := by
  refine ⟨follows.group, fun going => absurd rfl (going _), fun result returned => ?_⟩
  cases returned
  refine ⟨fun replies => ?_, fun _ _ => left, fun resp same => ?_⟩
  · change firstFinal call.query (call.asked ++ call.rest.map fun f => (f, replies f)) none = _
    rw [left]
    exact follows.going before []
  · cases same

end Call

variable {Roots : Type}

namespace Shared

variable {shared next : Shared Roots} {action : ForwardAction} {thread : Nat}

theorem not_returned {phase other : CallPhase} (same : phase = other)
    (running : ∀ result, other ≠ .returned result) : ∀ result, phase ≠ .returned result :=
  same ▸ running

theorem Dialed.not_returned {pools : ForwarderSet Roots} {f : Forwarder} {phase : CallPhase}
    {transport : Option Nat} {dial : Dial Roots} (dialed : Dialed pools f phase transport dial)
    (result : Result Message) : phase ≠ .returned result := by
  cases dialed <;> simp

/-- Every call follows what it heard. -/
def Following (shared : Shared Roots) : Prop := ∀ call ∈ shared.calls, call.Follows

theorem Following.setCall (following : shared.Following) {later : Call} (follows : later.Follows) :
    (shared.setCall thread later).Following := by
  intro call present
  obtain rfl | before := mem_setCall present
  · exact follows
  · exact following call before

theorem Following.step (following : shared.Following) (taken : shared.step action = some next) :
    next.Following := by
  cases took_of_step taken with
  | called =>
      exact List.forall_mem_append.mpr
        ⟨following, List.forall_mem_singleton.mpr (Call.Follows.start _ _ _)⟩
  | obtained located phase _ _ =>
      refine following.setCall ((following _ (List.mem_of_getElem? located)).setPhase
        (not_returned phase ?_) ?_)
      all_goals simp
  | refused _ located phase left =>
      refine following.setCall ((following _ (List.mem_of_getElem? located)).heard ?_ left _)
      rcases phase with phase | ⟨_, phase⟩
      all_goals exact not_returned phase (by simp)
  | exchanged _ located left dialed =>
      exact following.setCall ((following _ (List.mem_of_getElem? located)).heard
        dialed.not_returned left _)
  | locked _ located phase _ _ _ _ _ _ =>
      refine following.setCall ((following _ (List.mem_of_getElem? located)).setPhase
        (not_returned phase ?_) ?_)
      all_goals simp
  | completed located phase remains _ _ _ _ _ =>
      exact following.setCall ((following _ (List.mem_of_getElem? located)).heard
        (not_returned phase (by simp)) remains _)
  | finished located phase left =>
      exact following.setCall ((following _ (List.mem_of_getElem? located)).finish
        (not_returned phase (by simp)) left)

/-! ## Where a reply comes from -/

/-- The octets a call heard were brought by an exchange of its own with that server; over QUIC
they stood in a frame. -/
def Brought (shared : Shared Roots) (thread : Nat) (f : Forwarder) (bytes : Bytes) : Prop :=
  ∃ sent ∈ shared.sent, sent.thread = thread ∧ sent.forwarder = f ∧
    (sent.outcome = .ok bytes ∨ ∃ raw, sent.outcome = .ok raw ∧ deframed raw = .ok bytes)

/-- Every reply that was heard came from an exchange of that call. -/
def Sourced (shared : Shared Roots) : Prop :=
  ∀ thread call, shared.calls[thread]? = some call → ∀ f bytes,
    (f, .ok bytes) ∈ call.asked → shared.Brought thread f bytes

theorem asked_heard (call : Call) (f : Forwarder) (rest : List Forwarder) (reply : Result Bytes) :
    (call.heard f rest reply).asked = call.asked ++ [(f, reply)] := by
  unfold Call.heard
  split <;> rfl

/-- A call hears a reply, which the exchanges up to then account for. -/
theorem Sourced.heard (sourced : shared.Sourced) {call : Call} {f : Forwarder}
    {rest : List Forwarder} {reply : Result Bytes} (located : shared.calls[thread]? = some call)
    (calls : next.calls = shared.calls.set thread (call.heard f rest reply))
    (more : ∃ news, next.sent = shared.sent ++ news)
    (brought : ∀ bytes, reply = .ok bytes → next.Brought thread f bytes) : next.Sourced := by
  obtain ⟨news, sent⟩ := more
  have before {other : Nat} {g : Forwarder} {bytes : Bytes}
      (there : shared.Brought other g bytes) : next.Brought other g bytes := by
    obtain ⟨exchange, present, rest⟩ := there
    exact ⟨exchange, sent ▸ List.mem_append_left _ present, rest⟩
  intro other call' listed g bytes heard
  rw [calls] at listed
  obtain ⟨rfl, rfl⟩ | ⟨-, listed⟩ := getElem?_setCall listed
  · rw [asked_heard, List.mem_append, List.mem_singleton] at heard
    rcases heard with heard | heard
    · exact before (sourced _ call located g bytes heard)
    · obtain ⟨rfl, same⟩ := Prod.mk.inj heard
      exact brought bytes same.symm
  · exact before (sourced _ _ listed g bytes heard)

/-- A call goes on without hearing anything. -/
theorem Sourced.setCall (sourced : shared.Sourced) {call later : Call}
    (located : shared.calls[thread]? = some call)
    (calls : next.calls = shared.calls.set thread later) (sent : next.sent = shared.sent)
    (asked : later.asked = call.asked) : next.Sourced := by
  intro other call' listed g bytes heard
  unfold Brought
  rw [sent]
  rw [calls] at listed
  obtain ⟨rfl, rfl⟩ | ⟨-, listed⟩ := getElem?_setCall listed
  · exact sourced _ _ located g bytes (asked ▸ heard)
  · exact sourced _ _ listed g bytes heard

theorem Sourced.step (sourced : shared.Sourced) (taken : shared.step action = some next) :
    next.Sourced := by
  cases took_of_step taken with
  | called =>
      intro thread call listed f bytes heard
      dsimp only at listed
      rw [List.getElem?_append] at listed
      split_ifs at listed
      · exact sourced _ _ listed f bytes heard
      · have new := List.mem_singleton.mp (List.mem_of_getElem? listed)
        subst new
        cases heard
  | obtained located _ _ _ => exact sourced.setCall located rfl rfl rfl
  | refused _ located _ _ =>
      refine sourced.heard located rfl ⟨[], (List.append_nil _).symm⟩ fun bytes same => ?_
      cases same
  | exchanged _ located _ _ =>
      refine sourced.heard located rfl ⟨_, rfl⟩ fun bytes same => ?_
      exact ⟨_, List.mem_append_right _ (List.mem_singleton_self _), rfl, rfl, .inl same⟩
  | locked _ located _ _ _ _ _ _ _ => exact sourced.setCall located rfl rfl rfl
  | @completed _ _ _ _ _ _ _ _ _ outcome _ located _ _ _ _ _ _ _ =>
      refine sourced.heard located rfl ⟨_, rfl⟩ fun bytes same => ?_
      refine ⟨_, List.mem_append_right _ (List.mem_singleton_self _), rfl, rfl, .inr ?_⟩
      cases outcome with
      | ok raw => exact ⟨raw, rfl, same⟩
      | error error => cases same
  | finished located _ _ => exact sourced.setCall located rfl rfl rfl

variable {trust : Trust Roots} {forwarders : List Forwarder} {actions : List ForwardAction}

theorem following_of_runs
    (runs : Runs step (fun _ _ => True) (ofForwarders trust forwarders) actions shared) :
    shared.Following :=
  runs.invariant (fun following _ taken => following.step taken)
    fun _ absent => absurd absent List.not_mem_nil

theorem sourced_of_runs
    (runs : Runs step (fun _ _ => True) (ofForwarders trust forwarders) actions shared) :
    shared.Sourced := by
  refine runs.invariant (fun sourced _ taken => sourced.step taken) ?_
  intro thread call listed
  cases listed

end Shared

/-- **The first final response.** In every run, a call that has returned asked the servers of its
group in order and returned what `exchangeWith` says, whatever the servers it did not ask would have
replied; it returns an error only when it has asked them all. A response is the reply of the server
asked last, in an exchange of this call, and matches the query. -/
theorem exchange_with_first_final {Roots : Type} {trust : Trust Roots}
    {forwarders : List Forwarder} {actions : List ForwardAction} {shared : Shared Roots}
    {thread : Nat} {call : Call} {result : Result Message}
    (runs : Runs Shared.step (fun _ _ => True) (Shared.ofForwarders trust forwarders) actions
      shared)
    (located : shared.calls[thread]? = some call) (returned : call.phase = .returned result) :
    call.group = call.asked.map Prod.fst ++ call.rest ∧
      (∀ replies : Forwarder → Result Bytes,
        (exchangeWith call.query call.queryBytes
          ((call.asked ++ call.rest.map fun f => (f, replies f)).map shown) none []).1 = result) ∧
      (∀ error, result = .error error → call.rest = []) ∧
      ∀ resp, result = .ok resp → ∃ before f bytes, call.asked = before ++ [(f, .ok bytes)] ∧
        shared.Brought thread f bytes ∧ Message.parse bytes = .ok resp ∧
        responseMatchesQuery call.query resp = true := by
  have follows := Shared.following_of_runs runs call (List.mem_of_getElem? located)
  obtain ⟨same, exhausted, last⟩ := follows.final result returned
  refine ⟨follows.group, fun replies => ?_, exhausted, fun resp good => ?_⟩
  · rw [exchangeWith_eq_firstFinal]
    exact same replies
  · obtain ⟨before, f, reply, asked, final⟩ := last resp good
    obtain ⟨bytes, rfl, parsed, matched, -⟩ := verdict_eq_ok final
    refine ⟨before, f, bytes, asked, ?_, parsed, matched⟩
    refine Shared.sourced_of_runs runs _ _ located f bytes ?_
    rw [asked]
    exact List.mem_append_right _ (List.mem_singleton_self _)

/-- The second server answers, whatever the third would have said. -/
theorem exchange_with_first_final_second : ∃ (call : Call) (resp : Message),
    call.phase = .returned (.ok resp) ∧ call.rest.length = 1 ∧
      ∀ replies : Forwarder → Result Bytes, (exchangeWith call.query call.queryBytes
        ((call.asked ++ call.rest.map fun f => (f, replies f)).map shown) none []).1 = .ok resp := by
  let endpoint (host : UInt8) : Endpoint := ⟨.v4 ⟨[192, 0, 2, host], rfl⟩, 53, .udp⟩
  let group : List Forwarder := [.plain (endpoint 1), .plain (endpoint 2), .plain (endpoint 3)]
  let bytes : Bytes := [0, 7, 0x80, 0, 0, 1, 0, 0, 0, 0, 0, 0, 0, 0, 1, 0, 1]
  let query : Message := ⟨7, .fromU16 0, [⟨.root, .A, .IN⟩], [], [], [], none⟩
  have runs := @runs_of_runActions _ _ Shared.step (fun _ _ => True)
    (Shared.ofForwarders (⟨(), true, 0⟩ : Trust Unit) group) _
    [.call group query [], .exchange 0 (.error (.io "")), .exchange 0 (.ok bytes)] _ rfl
  have first := @exchange_with_first_final _ _ _ _ _ 0 _
    (.ok ⟨7, .fromU16 0x8000, [⟨.root, .A, .IN⟩], [], [], [], none⟩) runs rfl rfl
  refine ⟨_, _, ?_, ?_, first.2.1⟩
  · rfl
  · rfl

/-! ## Calls return -/

/-- The steps a call takes at most. -/
def Call.remaining (self : Call) : Nat :=
  match self.phase with
  | .returned _ => 0
  | .asking => 3 * self.rest.length + 1
  | .holding _ => 3 * self.rest.length
  | .onWire _ => 3 * self.rest.length - 1

/-- The steps an action brings. -/
def ForwardAction.work : ForwardAction → Nat
  | .call group .. => 3 * group.length + 1
  | _ => 0

/-- After a reply a call has taken a step, and asks one server less. -/
theorem Call.remaining_heard (self : Call) (f : Forwarder) (rest : List Forwarder)
    (reply : Result Bytes) : (self.heard f rest reply).remaining ≤ 3 * rest.length + 1 := by
  unfold heard
  split
  · exact Nat.zero_le _
  · exact le_rfl

namespace Shared

variable {shared next : Shared Roots} {action : ForwardAction} {thread : Nat} {trust : Trust Roots}

/-- The steps that are left. -/
def remaining (self : Shared Roots) : Nat := (self.calls.map Call.remaining).sum

/-- The call of a thread goes on to where less is left for it. -/
theorem call_goes_on {call later : Call} (located : shared.calls[thread]? = some call)
    (fewer : later.remaining + 1 ≤ call.remaining) :
    (shared.setCall thread later).remaining + 1 ≤ shared.remaining := by
  have moved := sum_map_set located Call.remaining later
  unfold Shared.remaining setCall
  dsimp only
  omega

/-- A step of a call is one of those that are left. -/
theorem remaining_step (taken : shared.step action = some next) :
    next.remaining + (if action.ofCall then 1 else 0) ≤ shared.remaining + action.work := by
  cases took_of_step taken with
  | called =>
      unfold Shared.remaining
      rw [List.map_append, List.sum_append]
      exact le_rfl
  | obtained located phase _ _ =>
      refine call_goes_on located ?_
      unfold Call.remaining
      rw [phase]
  | refused ofCall located phase left =>
      have fewer := Call.remaining_heard
      rw [ofCall]
      refine (call_goes_on located (Nat.succ_le_of_lt ((fewer _ _ _ _).trans_lt ?_))).trans
        (Nat.le_add_right _ _)
      unfold Call.remaining
      rcases phase with phase | ⟨_, phase⟩
      all_goals
        rw [phase, left, List.length_cons]
        dsimp only
        omega
  | exchanged ofCall located left dialed =>
      have fewer := Call.remaining_heard
      rw [ofCall]
      refine (call_goes_on located (Nat.succ_le_of_lt ((fewer _ _ _ _).trans_lt ?_))).trans
        (Nat.le_add_right _ _)
      unfold Call.remaining
      rw [left, List.length_cons]
      generalize Call.phase _ = phase at dialed ⊢
      cases dialed with
      | plain _ | pooled _ | quic _ _ =>
          dsimp only
          omega
  | locked ofCall located phase left _ _ _ _ _ =>
      rw [ofCall]
      refine Nat.le_trans ?_ (Nat.le_add_right _ _)
      refine call_goes_on located ?_
      unfold Call.remaining
      rw [phase, left, List.length_cons]
      dsimp only
      omega
  | completed located phase remains _ _ _ _ _ =>
      have fewer := Call.remaining_heard
      refine call_goes_on located (Nat.succ_le_of_lt ((fewer _ _ _ _).trans_lt ?_))
      unfold Call.remaining
      rw [phase, remains, List.length_cons]
      dsimp only
      omega
  | finished located phase left =>
      refine call_goes_on located ?_
      unfold Call.remaining Call.finish
      rw [phase]
      exact Nat.le_add_left _ _

/-- No call can go on. -/
def Stuck (shared : Shared Roots) : Prop :=
  ∀ action : ForwardAction, action.ofCall = true → shared.step action = none

variable {call : Call}

/-- A call at the head of the loop can go on. -/
theorem goes_on_asking (located : shared.calls[thread]? = some call)
    (phase : call.phase = .asking) : ¬ shared.Stuck := by
  intro stuck
  cases left : call.rest with
  | nil =>
      have blocked : shared.finish thread = none := stuck (.finish thread) rfl
      unfold finish at blocked
      rw [located] at blocked
      dsimp only at blocked
      rw [phase, left] at blocked
      cases blocked
  | cons f rest =>
      have blocked : shared.obtain thread = none := stuck (.obtain thread) rfl
      have blocked' : shared.exchange thread (.error (.io "")) = none :=
        stuck (.exchange thread (.error (.io ""))) rfl
      unfold Shared.obtain ForwarderSet.pooledTransport at blocked
      unfold Shared.exchange Forwarder.plainDial at blocked'
      rw [located] at blocked blocked'
      dsimp only at blocked blocked'
      rw [phase, left] at blocked blocked'
      dsimp only at blocked blocked'
      cases proto : f.endpoint.proto with
      | udp | tcp =>
          rw [proto] at blocked'
          dsimp only at blocked'
          split at blocked' <;> cases blocked'
      | tls | doH | doH3 | doQ =>
          rw [proto] at blocked
          cases blocked

/-- The call whose query is on a connection can go on. -/
theorem goes_on_wire {transport : Nat} (kept : shared.Kept trust) (locked : shared.Locked)
    (located : shared.calls[thread]? = some call) (phase : call.phase = .onWire transport) :
    ¬ shared.Stuck := by
  intro stuck
  have blocked : shared.complete thread (.error (.io "")) false = none :=
    stuck (.complete thread (.error (.io "")) false) rfl
  obtain ⟨f, rest, left, -⟩ := kept.refers call (List.mem_of_getElem? located) transport
    (congrArg CallPhase.transport phase)
  obtain ⟨held, live⟩ := locked.held located phase
  obtain ⟨⟨key, host, trusts, conn, holder⟩, found, mine⟩ := Option.bind_eq_some_iff.mp held
  have same : shared.conn transport = conn := ForwarderSet.view_of_get? found
  obtain ⟨open', rfl⟩ := Option.isSome_iff_exists.mp (same ▸ live)
  dsimp only at mine
  subst mine
  unfold Shared.complete at blocked
  rw [located] at blocked
  dsimp only at blocked
  rw [phase, left] at blocked
  dsimp only at blocked
  rw [found] at blocked
  dsimp only at blocked
  rw [if_pos rfl] at blocked
  cases blocked

/-- A call that has a transport can go on, or the call that has locked the connection can. -/
theorem goes_on_holding {transport : Nat} (kept : shared.Kept trust) (locked : shared.Locked)
    (located : shared.calls[thread]? = some call) (phase : call.phase = .holding transport) :
    ¬ shared.Stuck := by
  intro stuck
  have blocked : shared.exchange thread (.error (.io "")) = none :=
    stuck (.exchange thread (.error (.io ""))) rfl
  obtain ⟨f, rest, left, refers⟩ := kept.refers call (List.mem_of_getElem? located) transport
    (congrArg CallPhase.transport phase)
  unfold Shared.exchange at blocked
  rw [located] at blocked
  dsimp only at blocked
  rw [phase, left] at blocked
  dsimp only at blocked
  cases large : oversized f.endpoint.proto call.queryBytes with
  | some error =>
      rw [large] at blocked
      cases blocked
  | none =>
      rw [large] at blocked
      dsimp only at blocked
      by_cases quic : f.endpoint.proto = .doQ
      · have blocked' : shared.lock thread (.ok ()) = none := stuck (.lock thread (.ok ())) rfl
        unfold Shared.lock at blocked'
        rw [located] at blocked'
        dsimp only at blocked'
        rw [phase, left] at blocked'
        dsimp only at blocked'
        rw [if_pos ⟨quic, large⟩] at blocked'
        unfold ForwarderSet.Refers at refers
        rw [quic] at refers
        obtain ⟨⟨host, trusts, conn, holder⟩, found⟩ := refers
        cases holder with
        | none =>
            rw [found] at blocked'
            dsimp only at blocked'
            split at blocked' <;> cases blocked'
        | some other =>
            have held : shared.holder transport = some other := ForwarderSet.view_of_get? found
            obtain ⟨call', located', phase'⟩ := locked.holds held
            exact goes_on_wire kept locked located' phase' stuck
      · rw [kept.faithful.dial_eq refers quic] at blocked
        cases blocked

end Shared

/-- **Calls return.** In every run the calls take no more steps than their groups allow, and as long
as a call has not returned some call can go on: no exchange waits for a connection for ever. -/
theorem forwarding_returns {Roots : Type} {trust : Trust Roots} {forwarders : List Forwarder}
    {actions : List ForwardAction} {shared : Shared Roots}
    (runs : Runs Shared.step (fun _ _ => True) (Shared.ofForwarders trust forwarders) actions
      shared) :
    actions.countP ForwardAction.ofCall + shared.remaining ≤
        (actions.map ForwardAction.work).sum ∧
      (shared.Stuck → ∀ call ∈ shared.calls, ∃ result, call.phase = .returned result) := by
  have kept := Shared.kept_of_runs runs
  have locked := Shared.locked_of_runs runs
  constructor
  · clear kept locked
    induction runs with
    | refl => exact Nat.zero_le _
    | @step actions state next action prior _ taken inductionHypothesis =>
        have fewer := Shared.remaining_step taken
        rw [List.countP_append, List.countP_singleton, List.map_append, List.sum_append,
          List.map_singleton, List.sum_singleton]
        omega
  · intro stuck call present
    obtain ⟨thread, located⟩ := List.getElem?_of_mem present
    cases phase : call.phase with
    | asking => exact absurd stuck (Shared.goes_on_asking located phase)
    | holding transport =>
        exact absurd stuck (Shared.goes_on_holding kept locked located phase)
    | onWire transport => exact absurd stuck (Shared.goes_on_wire kept locked located phase)
    | returned result => exact ⟨result, rfl⟩

/-- One call of one server takes three of the four steps it may take. -/
theorem forwarding_returns_one : ∃ shared : Shared Unit,
    3 + shared.remaining ≤ 4 ∧
      (shared.Stuck → ∀ call ∈ shared.calls, ∃ result, call.phase = .returned result) := by
  let group : List Forwarder := [.encrypted ⟨.v4 ⟨[192, 0, 2, 1], rfl⟩, 853, .tls⟩ "a.example"]
  have runs := @runs_of_runActions _ _ Shared.step (fun _ _ => True)
    (Shared.ofForwarders (⟨(), true, 0⟩ : Trust Unit) group) _
    [.call group .default [], .obtain 0, .exchange 0 (.error (.io "")), .finish 0] _ rfl
  exact ⟨_, forwarding_returns runs⟩

end RecurseX.Forward
