import RecurseX.Library.Runs
import RecurseX.Resolver.Bailiwick
import RecurseX.Resolver.Servers

/-!
# The work envelope of a client query

One budget is made for a client query and handed to everything its resolution
calls: the walk, and the address lookups nested in it. Whatever order the calls
come in, the budget bounds what is charged to it. Three kinds of exchange are not
charged at all, so that `work_envelope` is about runs without them: the retry over
TCP, those with forwarders, and those of the resolutions that a validation starts,
which have budgets of their own.
-/

namespace RecurseX

open Library

/-! ## What a call writes into the ledger -/

/-- The ledger when an attempt leads to no refusal. -/
inductive Pays (policy : AskPolicy) (endpoint : Endpoint) (attempt : Attempt) (ledger : Ledger) :
    Ledger → Prop where
  /-- The message was charged, and there was no time to send it. -/
  | idle {budget : FetchBudget} (spent : ledger.budget.spendSubquery = some budget) :
      Pays policy endpoint attempt ledger { ledger with budget := budget }
  | failed {budget : FetchBudget} (spent : ledger.budget.spendSubquery = some budget)
      {error : Error} (reply : attempt.reply = .error error) :
      Pays policy endpoint attempt ledger
        (Ledger.log { ledger with budget := budget } ⟨endpoint, attempt.query.length, 0, .counted⟩)
  | charged {budget paid : FetchBudget} (spent : ledger.budget.spendSubquery = some budget)
      {bytes : Bytes} (room : budget.spendBytes (attempt.query.length + bytes.length) = some paid) :
      Pays policy endpoint attempt ledger (Ledger.log { ledger with budget := paid }
        ⟨endpoint, attempt.query.length, bytes.length, .charged⟩)
  | retried {budget paid : FetchBudget} (spent : ledger.budget.spendSubquery = some budget)
      {bytes : Bytes} (reply : attempt.reply = .ok bytes)
      (room : budget.spendBytes (attempt.query.length + bytes.length) = some paid)
      {msg : Message} (parsed : Message.parse bytes = .ok msg)
      (answers : matchesQuery attempt.query msg = true) (truncated : msg.flags.tc = true)
      (fallback : policy.tcpFallback = true) (received : Nat) :
      Pays policy endpoint attempt ledger
        ((Ledger.log { ledger with budget := paid }
          ⟨endpoint, attempt.query.length, bytes.length, .charged⟩).log
            ⟨{ endpoint with proto := .tcp }, attempt.query.length, received, .uncharged⟩)

/-- The ledger when an attempt ends the call. -/
inductive Ends (policy : AskPolicy) (endpoint : Endpoint) (attempt : Attempt) (ledger : Ledger) :
    Ledger → Prop where
  | paid {next : Ledger} (pays : Pays policy endpoint attempt ledger next) :
      Ends policy endpoint attempt ledger next
  | exhausted : Ends policy endpoint attempt ledger ledger
  | refused {budget : FetchBudget} (spent : ledger.budget.spendSubquery = some budget)
      {bytes : Bytes} : Ends policy endpoint attempt ledger
        (Ledger.log { ledger with budget := budget }
          ⟨endpoint, attempt.query.length, bytes.length, .refused⟩)

/-- What the ledger is after an attempt, given how the attempt ends. -/
def Attempted.Accounts (policy : AskPolicy) (endpoint : Endpoint) (attempt : Attempt)
    (ledger : Ledger) : Attempted → Prop
  | .again state | .next state => Pays policy endpoint attempt ledger state.ledger
  | .returned _ state => Ends policy endpoint attempt ledger state.ledger

section Call

variable {policy : AskPolicy} {skipEmpty : Bool} {endpoint : Endpoint} {attempt : Attempt}

theorem settle_accounts {received : Received} {state : Asking} {ledger : Ledger}
    (pays : Pays policy endpoint attempt ledger state.ledger) :
    (state.settle skipEmpty received).Accounts policy endpoint attempt ledger := by
  unfold Asking.settle
  dsimp only
  split_ifs
  · exact pays
  · exact pays
  · exact .paid pays

variable (endpoint attempt) in
/-- The retry over TCP is written down and not charged. -/
theorem overTcp_ledger (state : Asking) :
    ∃ received, (state.overTcp endpoint attempt).2.ledger = state.ledger.log
      ⟨{ endpoint with proto := .tcp }, attempt.query.length, received, .uncharged⟩ := by
  unfold Asking.overTcp
  dsimp only
  split
  · exact ⟨0, rfl⟩
  · rename_i bytes _
    refine ⟨bytes.length, ?_⟩
    split <;> rfl

variable (policy skipEmpty endpoint attempt) in
theorem ask_accounts (state : Asking) :
    (state.ask policy skipEmpty endpoint attempt).Accounts policy endpoint attempt
      state.ledger := by
  unfold Asking.ask
  dsimp only
  split
  · exact .exhausted
  · rename_i budget spent
    split_ifs
    · exact .idle spent
    · split
      · rename_i error reply
        exact .failed spent reply
      · rename_i bytes reply
        split
        · exact .refused spent
        · rename_i paid room
          unfold Asking.consider
          split
          · exact .charged spent room
          · rename_i msg parsed
            split_ifs with other fallback
            · exact .charged spent room
            · rw [Bool.and_eq_true] at fallback
              rw [Bool.not_eq_false] at other
              obtain ⟨received, logged⟩ := overTcp_ledger endpoint attempt { state with
                totalAttempts := state.totalAttempts + 1
                ledger := Ledger.log { state.ledger with budget := paid }
                  ⟨endpoint, attempt.query.length, bytes.length, .charged⟩ }
              have retried : Pays policy endpoint attempt state.ledger _ :=
                .retried spent reply room parsed other fallback.1 fallback.2 received
              rw [← logged] at retried
              split
              · rename_i outcome
                rw [outcome] at retried
                exact .paid retried
              · rename_i outcome
                rw [outcome] at retried
                exact settle_accounts retried
            · exact settle_accounts (.charged spent room)

/-- What every attempt that goes on keeps, and every attempt that ends the call ends
with, a call ends with. -/
theorem queryServers_rule {call : ServerCall} (Before After : Ledger → Prop) {ledger : Ledger}
    (weaken : ∀ {ledger}, Before ledger → After ledger)
    (pays : ∀ {endpoint index ledger next}, Before ledger →
      Pays policy endpoint (call.attempt index) ledger next → Before next)
    (ends : ∀ {endpoint index ledger next}, Before ledger →
      Ends policy endpoint (call.attempt index) ledger next → After next)
    (start : Before ledger) : After (queryServers policy call ledger).2 := by
  have perServer (endpoint : Endpoint) (left : Nat) {state : Asking}
      (before : Before state.ledger) :
      match state.askServer policy call endpoint left with
      | .again state | .next state => Before state.ledger
      | .returned _ state => After state.ledger := by
    induction left generalizing state with
    | zero => exact before
    | succ left inductionHypothesis =>
        unfold Asking.askServer
        split_ifs
        · exact before
        · have accounts := ask_accounts policy call.skipEmpty endpoint
            (call.attempt state.totalAttempts) state
          cases asked : state.ask policy call.skipEmpty endpoint
              (call.attempt state.totalAttempts) with
          | again next =>
              rw [asked] at accounts
              exact inductionHypothesis (pays before accounts)
          | next next =>
              rw [asked] at accounts
              exact pays before accounts
          | returned result next =>
              rw [asked] at accounts
              exact ends before accounts
  have servers {ranked : List (Endpoint × Bool)} {state : Asking} (before : Before state.ledger) :
      After (state.askServers policy call ranked).2 := by
    induction ranked generalizing state with
    | nil => exact weaken before
    | cons server ranked inductionHypothesis =>
        unfold Asking.askServers
        split_ifs
        · exact weaken before
        · have asked := perServer server.1 policy.maxAttemptsPerServer before
          split
          · rename_i outcome
            rw [outcome] at asked
            exact asked
          · rename_i outcome
            rw [outcome] at asked
            exact inductionHypothesis asked
          · rename_i outcome
            rw [outcome] at asked
            exact inductionHypothesis asked
  unfold queryServers
  split_ifs
  · exact weaken start
  · exact servers start

end Call

/-! ## What the budget bounds -/

/-- The bytes of these exchanges. -/
def wireBytes (exchanges : List WireExchange) : Nat := (exchanges.map WireExchange.bytes).sum

/-- The exchanges with this charge. -/
def withCharge (charge : Charge) (exchanges : List WireExchange) : List WireExchange :=
  exchanges.filter fun exchange => exchange.charge == charge

@[simp]
theorem wireBytes_append (left right : List WireExchange) :
    wireBytes (left ++ right) = wireBytes left + wireBytes right := by
  simp [wireBytes]

@[simp]
theorem wireBytes_singleton (exchange : WireExchange) :
    wireBytes [exchange] = exchange.sent + exchange.received := by
  simp [wireBytes, WireExchange.bytes]

@[simp]
theorem withCharge_append (charge : Charge) (left right : List WireExchange) :
    withCharge charge (left ++ right) = withCharge charge left ++ withCharge charge right :=
  List.filter_append ..

@[simp]
theorem withCharge_singleton (charge : Charge) (exchange : WireExchange) :
    withCharge charge [exchange] = if exchange.charge = charge then [exchange] else [] := by
  simp [withCharge, List.filter_singleton]

/-- The budget agrees with the exchanges that were charged to it. -/
structure Ledger.Balanced (limits : FetchLimits) (ledger : Ledger) : Prop where
  limited : ledger.budget.limits = limits
  messages : ledger.exchanges.countP (fun exchange => exchange.charge != .uncharged) ≤
    ledger.budget.work.subqueries
  allowed : ledger.budget.work.subqueries ≤ limits.maxSubqueries
  paid : ledger.budget.work.bytes = wireBytes (withCharge .charged ledger.exchanges)
  within : ledger.budget.work.bytes ≤ limits.maxBytes

section Balance

variable {policy : AskPolicy} {endpoint : Endpoint} {attempt : Attempt} {limits : FetchLimits}
  {ledger next : Ledger}

/-- A message whose bytes are not charged. -/
theorem Ledger.Balanced.message (balanced : ledger.Balanced limits) {budget : FetchBudget}
    (spent : ledger.budget.spendSubquery = some budget) {exchange : WireExchange}
    (free : exchange.charge ≠ .charged) :
    (Ledger.log { ledger with budget := budget } exchange).Balanced limits := by
  obtain ⟨sameLimits, sameBytes, counted, allowed⟩ := FetchBudget.spendSubquery_eq_some spent
  refine ⟨sameLimits.trans balanced.limited, ?_, ?_, ?_, ?_⟩
  · have messages := balanced.messages
    simp only [Ledger.log, List.countP_append, List.countP_singleton]
    split_ifs <;> omega
  · exact balanced.limited ▸ allowed
  · simp only [Ledger.log, withCharge_append, withCharge_singleton, if_neg free, List.append_nil]
    exact sameBytes.trans balanced.paid
  · exact sameBytes ▸ balanced.within

theorem Pays.balanced (pays : Pays policy endpoint attempt ledger next)
    (balanced : ledger.Balanced limits) : next.Balanced limits := by
  have charging {budget paid : FetchBudget} {bytes : Bytes}
      (spent : ledger.budget.spendSubquery = some budget)
      (room : budget.spendBytes (attempt.query.length + bytes.length) = some paid) :
      (Ledger.log { ledger with budget := paid }
        ⟨endpoint, attempt.query.length, bytes.length, .charged⟩).Balanced limits := by
    obtain ⟨sameLimits, sameBytes, counted, allowed⟩ := FetchBudget.spendSubquery_eq_some spent
    obtain ⟨stillLimits, sameMessages, charged, within⟩ := FetchBudget.spendBytes_eq_some room
    refine ⟨stillLimits.trans (sameLimits.trans balanced.limited), ?_, ?_, ?_, ?_⟩
    · have messages := balanced.messages
      simp only [Ledger.log, List.countP_append, List.countP_singleton, sameMessages, counted]
      split_ifs <;> omega
    · exact sameMessages ▸ balanced.limited ▸ allowed
    · simp only [Ledger.log, withCharge_append, withCharge_singleton, if_true, wireBytes_append,
        wireBytes_singleton, charged, sameBytes, balanced.paid]
    · exact balanced.limited ▸ sameLimits ▸ within
  cases pays with
  | idle spent =>
      obtain ⟨sameLimits, sameBytes, counted, allowed⟩ := FetchBudget.spendSubquery_eq_some spent
      exact ⟨sameLimits.trans balanced.limited, counted ▸ Nat.le_succ_of_le balanced.messages,
        balanced.limited ▸ allowed, sameBytes.trans balanced.paid, sameBytes ▸ balanced.within⟩
  | failed spent reply => exact balanced.message spent nofun
  | charged spent room => exact charging spent room
  | retried spent reply room parsed answers truncated fallback received =>
      have balanced := charging spent room
      refine ⟨balanced.limited, ?_, balanced.allowed, ?_, balanced.within⟩
      · rw [Ledger.log, List.countP_append]
        exact balanced.messages
      · rw [Ledger.log, withCharge_append]
        simp only [withCharge_singleton, reduceCtorEq, if_false, List.append_nil]
        exact balanced.paid

theorem Ends.balanced (ends : Ends policy endpoint attempt ledger next)
    (balanced : ledger.Balanced limits) : next.Balanced limits := by
  cases ends with
  | paid pays => exact pays.balanced balanced
  | exhausted => exact balanced
  | refused spent => exact balanced.message spent nofun

/-- Whatever the servers do, a call keeps its ledger balanced. -/
theorem Ledger.Balanced.queryServers (balanced : ledger.Balanced limits) (policy : AskPolicy)
    (call : ServerCall) : (queryServers policy call ledger).2.Balanced limits :=
  queryServers_rule (Ledger.Balanced limits) _ id (fun before pays => pays.balanced before)
    (fun before ends => ends.balanced before) balanced

end Balance

/-! ## Everything a client query causes -/

/-- A thread that answers a client query: the budgets of the resolutions that are
under way, the innermost first, and all exchanges. -/
structure Fetching where
  budgets : List FetchBudget
  exchanges : List WireExchange

/-- What the thread does next. Which of these a walk does is up to the responses; a
nested address lookup goes on with the budget of the walk it is for. -/
inductive FetchAction where
  | ask (call : ServerCall)
  /-- `forward_once` turns to a group. -/
  | forward (query : Message) (queryBytes : Bytes) (group : List Forwarder)
  /-- A referral comes to the gate, and the walk descends if it is admitted. -/
  | refer (nsCount glueCount nsWithGlue : Nat)
  /-- The address of a name server is looked up. -/
  | lookupAddress
  /-- A validation calls `resolve` for a key or a DS record. -/
  | fetch
  /-- That call returns. -/
  | returned

namespace Fetching

/-- `resolve_key` makes the budget of a client query. -/
def start (limits : FetchLimits) : Fetching := ⟨[.new limits], []⟩

/-- The budget after a referral. -/
def referred (budget : FetchBudget) (nsCount glueCount nsWithGlue : Nat) : FetchBudget :=
  match budget.admitReferral nsCount glueCount nsWithGlue with
  | (.reject _, budget) => budget
  | (.accept .., budget) => budget.spendDelegation.getD budget

/-- One action; `none` when it cannot be taken. -/
def step (limits : FetchLimits) (policy : AskPolicy) (self : Fetching) (action : FetchAction) :
    Option Fetching :=
  match self.budgets with
  | [] => none
  | budget :: outer =>
      match action with
      | .ask call =>
          let asked := (queryServers policy call ⟨budget, self.exchanges⟩).2
          some ⟨asked.budget :: outer, asked.exchanges⟩
      | .forward query queryBytes group =>
          some { self with
            exchanges := (exchangeWith query queryBytes group none self.exchanges).2 }
      | .refer nsCount glueCount nsWithGlue =>
          some { self with budgets := referred budget nsCount glueCount nsWithGlue :: outer }
      | .lookupAddress =>
          some { self with budgets := (budget.spendNsAddressLookup 1).getD budget :: outer }
      | .fetch => some { self with budgets := .new limits :: self.budgets }
      | .returned =>
          match outer with
          | [] => none
          | _ :: _ => some { self with budgets := outer }

end Fetching

/-- The attempt is answered, and not with a truncated response that is asked for
again over TCP. -/
def Attempt.Plain (policy : AskPolicy) (attempt : Attempt) : Prop :=
  ∃ bytes, attempt.reply = .ok bytes ∧ ∀ msg, Message.parse bytes = .ok msg →
    matchesQuery attempt.query msg = true → msg.flags.tc = true → policy.tcpFallback = false

/-- Every exchange of this action is charged in full: servers are asked under the
client query's own budget, before any exchange was refused, and they answer without
a retry over TCP; forwarders are not asked. -/
def Fetching.Accounted (policy : AskPolicy) (state : Fetching) : FetchAction → Prop
  | .ask call => state.budgets.length = 1 ∧ withCharge .refused state.exchanges = [] ∧
      ∀ index, (call.attempt index).Plain policy
  | .forward _ _ group => group = []
  | .refer .. | .lookupAddress | .fetch | .returned => True

/-- Every exchange was charged, or is the one that was refused. -/
structure Complete (exchanges : List WireExchange) : Prop where
  charged : ∀ exchange ∈ exchanges, exchange.charge = .charged ∨ exchange.charge = .refused
  once : (withCharge .refused exchanges).length ≤ 1

section Complete

variable {policy : AskPolicy} {endpoint : Endpoint} {attempt : Attempt} {ledger next : Ledger}

theorem Pays.charged_of_plain (pays : Pays policy endpoint attempt ledger next)
    (plain : attempt.Plain policy)
    (charged : ∀ exchange ∈ ledger.exchanges, exchange.charge = .charged) :
    ∀ exchange ∈ next.exchanges, exchange.charge = .charged := by
  obtain ⟨answer, replied, untruncated⟩ := plain
  cases pays with
  | idle spent => exact charged
  | failed spent reply => cases replied.symm.trans reply
  | charged spent room =>
      intro exchange member
      rcases List.mem_append.mp member with old | new
      · exact charged exchange old
      · rw [List.mem_singleton.mp new]
  | retried spent reply room parsed answers truncated fallback received =>
      obtain rfl := Except.ok.inj (replied.symm.trans reply)
      rw [untruncated _ parsed answers truncated] at fallback
      cases fallback

theorem withCharge_refused_of_charged {exchanges : List WireExchange}
    (charged : ∀ exchange ∈ exchanges, exchange.charge = .charged) :
    withCharge .refused exchanges = [] := by
  refine List.filter_eq_nil_iff.mpr fun exchange member => ?_
  rw [charged exchange member]
  exact Bool.false_ne_true

theorem complete_of_charged {exchanges : List WireExchange}
    (charged : ∀ exchange ∈ exchanges, exchange.charge = .charged) : Complete exchanges := by
  refine ⟨fun exchange member => .inl (charged exchange member), ?_⟩
  rw [withCharge_refused_of_charged charged]
  exact Nat.zero_le 1

theorem Ends.complete (ends : Ends policy endpoint attempt ledger next)
    (plain : attempt.Plain policy)
    (charged : ∀ exchange ∈ ledger.exchanges, exchange.charge = .charged) :
    Complete next.exchanges := by
  cases ends with
  | paid pays => exact complete_of_charged (pays.charged_of_plain plain charged)
  | exhausted => exact complete_of_charged charged
  | refused spent =>
      refine ⟨?_, ?_⟩
      · intro exchange member
        rcases List.mem_append.mp member with old | new
        · exact .inl (charged exchange old)
        · rw [List.mem_singleton.mp new]
          exact .inr rfl
      · simp [Ledger.log, withCharge_refused_of_charged charged]

/-- Complete exchanges, none of them refused, were all charged. -/
theorem Complete.all_charged {exchanges : List WireExchange} (complete : Complete exchanges)
    (none_ : withCharge .refused exchanges = []) :
    ∀ exchange ∈ exchanges, exchange.charge = .charged := by
  intro exchange member
  rcases complete.charged exchange member with charged | refused
  · exact charged
  · have found : exchange ∈ withCharge .refused exchanges :=
      List.mem_filter.mpr ⟨member, by rw [refused]; rfl⟩
    rw [none_] at found
    cases found

theorem Complete.queryServers {call : ServerCall} (complete : Complete ledger.exchanges)
    (none_ : withCharge .refused ledger.exchanges = [])
    (plain : ∀ index, (call.attempt index).Plain policy) :
    Complete (queryServers policy call ledger).2.exchanges :=
  queryServers_rule (fun ledger => ∀ exchange ∈ ledger.exchanges, exchange.charge = .charged)
    (fun ledger => Complete ledger.exchanges) complete_of_charged
    (fun before pays => pays.charged_of_plain (plain _) before)
    (fun before ends => ends.complete (plain _) before) (complete.all_charged none_)

/-- Without uncharged exchanges all messages are counted. -/
theorem Complete.countP {exchanges : List WireExchange} (complete : Complete exchanges) :
    exchanges.countP (fun exchange => exchange.charge != .uncharged) = exchanges.length := by
  refine List.countP_eq_length.mpr fun exchange member => ?_
  rcases complete.charged exchange member with charged | refused
  · rw [charged]
    rfl
  · rw [refused]
    rfl

/-- Charged and refused exchanges make up all bytes. -/
theorem wireBytes_of_charged_or_refused {exchanges : List WireExchange}
    (charged : ∀ exchange ∈ exchanges, exchange.charge = .charged ∨ exchange.charge = .refused) :
    wireBytes exchanges =
      wireBytes (withCharge .charged exchanges) + wireBytes (withCharge .refused exchanges) := by
  induction exchanges with
  | nil => rfl
  | cons exchange exchanges inductionHypothesis =>
      have rest := inductionHypothesis fun other member =>
        charged other (List.mem_cons_of_mem exchange member)
      rw [← List.singleton_append, wireBytes_append, rest, withCharge_append, withCharge_append,
        wireBytes_append, wireBytes_append, withCharge_singleton, withCharge_singleton]
      rcases charged exchange List.mem_cons_self with paid | refused
      · rw [if_pos paid, if_neg (by rw [paid]; nofun)]
        simp only [wireBytes, List.map_nil, List.sum_nil]
        omega
      · rw [if_neg (by rw [refused]; nofun), if_pos refused]
        simp only [wireBytes, List.map_nil, List.sum_nil]
        omega

end Complete

/-! ## The envelope -/

namespace Fetching

variable {limits : FetchLimits} {policy : AskPolicy} {state next : Fetching}

/-- The budget of the client query accounts for every exchange. -/
structure Covered (limits : FetchLimits) (state : Fetching) : Prop where
  balanced : ∃ budget, state.budgets.getLast? = some budget ∧
    Ledger.Balanced limits ⟨budget, state.exchanges⟩
  complete : Complete state.exchanges

theorem covered_start (limits : FetchLimits) : (start limits).Covered limits where
  balanced := ⟨_, rfl, rfl, Nat.zero_le _, Nat.zero_le _, rfl, Nat.zero_le _⟩
  complete := complete_of_charged nofun

theorem sameTraffic_referred (budget : FetchBudget) (nsCount glueCount nsWithGlue : Nat) :
    budget.SameTraffic (referred budget nsCount glueCount nsWithGlue) := by
  have same := budget.sameTraffic_admitReferral nsCount glueCount nsWithGlue
  unfold referred
  split
  · rename_i outcome
    rw [outcome] at same
    exact same
  · rename_i outcome
    rw [outcome] at same
    exact same.spendDelegation

/-- The innermost budget changes in something that is no traffic. -/
theorem Covered.replace (covered : state.Covered limits) {budget changed : FetchBudget}
    {outer : List FetchBudget} (budgets : state.budgets = budget :: outer)
    (same : budget.SameTraffic changed) :
    Covered limits { state with budgets := changed :: outer } := by
  obtain ⟨base, last, balanced⟩ := covered.balanced
  rw [budgets] at last
  refine ⟨?_, covered.complete⟩
  cases outer with
  | nil =>
      obtain rfl := Option.some.inj last
      exact ⟨changed, rfl, same.limits.trans balanced.limited, same.subqueries ▸ balanced.messages,
        same.subqueries ▸ balanced.allowed, same.bytes.trans balanced.paid,
        same.bytes ▸ balanced.within⟩
  | cons next outer => exact ⟨base, last, balanced⟩

/-- Every action whose exchanges are charged keeps the exchanges covered. -/
theorem Covered.step (covered : state.Covered limits) {action : FetchAction}
    (accounted : state.Accounted policy action)
    (taken : state.step limits policy action = some next) : next.Covered limits := by
  obtain ⟨base, last, balanced⟩ := covered.balanced
  unfold Fetching.step at taken
  split at taken
  · cases taken
  · rename_i budget outer budgets
    cases action with
    | ask call =>
        obtain ⟨alone, unrefused, plain⟩ := accounted
        rw [budgets, List.length_cons, Nat.add_eq_right, List.length_eq_zero_iff] at alone
        subst alone
        rw [budgets] at last
        obtain rfl := Option.some.inj last
        obtain rfl := Option.some.inj taken
        refine ⟨⟨_, rfl, balanced.queryServers policy call⟩, ?_⟩
        exact Complete.queryServers covered.complete unrefused plain
    | forward query queryBytes group =>
        obtain rfl : group = [] := accounted
        obtain rfl := Option.some.inj taken
        exact covered
    | refer nsCount glueCount nsWithGlue =>
        obtain rfl := Option.some.inj taken
        exact covered.replace budgets (sameTraffic_referred budget nsCount glueCount nsWithGlue)
    | lookupAddress =>
        obtain rfl := Option.some.inj taken
        exact covered.replace budgets (budget.sameTraffic_spendNsAddressLookup 1)
    | fetch =>
        obtain rfl := Option.some.inj taken
        refine ⟨⟨base, ?_, balanced⟩, covered.complete⟩
        rw [budgets] at last ⊢
        exact last
    | returned =>
        dsimp only at taken
        split at taken
        · cases taken
        · obtain rfl := Option.some.inj taken
          refine ⟨⟨base, ?_, balanced⟩, covered.complete⟩
          rw [budgets] at last
          exact last

/-- A client query whose exchanges are all charged causes no more of them than its
budget allows, and no more bytes than that and the one exchange that was refused. -/
theorem work_envelope (limits : FetchLimits) (policy : AskPolicy) {actions : List FetchAction}
    {state : Fetching}
    (runs : Runs (step limits policy) (Accounted policy) (start limits) actions state) :
    state.exchanges.length ≤ limits.maxSubqueries ∧
    (withCharge .refused state.exchanges).length ≤ 1 ∧
    wireBytes state.exchanges ≤
      limits.maxBytes + wireBytes (withCharge .refused state.exchanges) := by
  have covered : state.Covered limits :=
    runs.invariant (fun covered accounted taken => covered.step accounted taken)
      (covered_start limits)
  obtain ⟨base, _, balanced⟩ := covered.balanced
  refine ⟨?_, covered.complete.once, ?_⟩
  · rw [← covered.complete.countP]
    exact Nat.le_trans balanced.messages balanced.allowed
  · rw [wireBytes_of_charged_or_refused covered.complete.charged]
    exact Nat.add_le_add_right (balanced.paid ▸ balanced.within) _

end Fetching

/-- A budget for one message. -/
def oneMessage : FetchLimits := ⟨16, 64, 64, 8, 1, 1048576, 4, fun _ _ => false⟩

/-- Ask one server once, with TCP to fall back on. -/
def askOnce : AskPolicy := ⟨1, 1, 1, true⟩

/-- The address of `www.com`; `truncated` is whether the response is cut off. -/
def addressReply (truncated : Bool) : Message :=
  { wwwAddress.message with
    flags := ⟨true, .QUERY, false, truncated, false, false, false, false, .NOERROR⟩ }

/-- A server is asked for it; over TCP its response is complete. -/
def addressCall (truncated : Bool) : ServerCall where
  ranked := [(⟨.v4 (ipv4 198 41 0 4), 53, .udp⟩, false)]
  skipEmpty := true
  attempt _ :=
    { query := (wwwReply [] [] [] none).toBytes.toOption.getD []
      inTime := true
      reply := (addressReply truncated).toBytes
      tcpReply := (addressReply false).toBytes }

/-- One answer is one message. -/
theorem complete_reply_is_within :
    ∃ state, Runs (Fetching.step oneMessage askOnce) (Fetching.Accounted askOnce)
        (.start oneMessage) [.ask (addressCall false)] state ∧
      state.exchanges.length ≤ 1 ∧ (withCharge .refused state.exchanges).length ≤ 1 ∧
      wireBytes state.exchanges ≤ 1048576 + wireBytes (withCharge .refused state.exchanges) := by
  have plain : ∀ index, ((addressCall false).attempt index).Plain askOnce := by
    intro index
    have sent : (addressReply false).toBytes =
        .ok ((addressReply false).toBytes.toOption.getD []) := by
      decide
    refine ⟨_, sent, ?_⟩
    intro msg parsed _ truncated
    have complete : Message.parse ((addressReply false).toBytes.toOption.getD []) =
        .ok (addressReply false) := by
      decide
    obtain rfl := Except.ok.inj (complete.symm.trans parsed)
    cases truncated
  have runs := Runs.step (.refl : Runs (Fetching.step oneMessage askOnce)
    (Fetching.Accounted askOnce) (.start oneMessage) [] _)
    (show Fetching.Accounted askOnce (.start oneMessage) (.ask (addressCall false)) from
      ⟨rfl, rfl, plain⟩) rfl
  exact ⟨_, runs, Fetching.work_envelope oneMessage askOnce runs⟩

/-- A truncated answer is two messages. -/
theorem truncated_reply_exceeds :
    ∃ state, Runs (Fetching.step oneMessage askOnce) (fun _ _ => True) (.start oneMessage)
        [.ask (addressCall true)] state ∧
      ¬ state.exchanges.length ≤ oneMessage.maxSubqueries := by
  have exceeds : (runActions (Fetching.step oneMessage askOnce) (fun _ _ => True)
      (.start oneMessage) [.ask (addressCall true)]).map
      (fun state => decide (state.exchanges.length ≤ oneMessage.maxSubqueries)) = some false := by
    decide
  obtain ⟨state, computed, more⟩ := Option.map_eq_some_iff.mp exceeds
  exact ⟨state, runs_of_runActions computed, of_decide_eq_false more⟩

end RecurseX
