import RecurseX.Resolver.Carried
import RecurseX.Resolver.QueryNames
import RecurseX.Resolver.Servers

/-!
# QNAME minimisation

With minimisation on, the loop asks the servers of a zone for longer and longer
suffixes of the name it resolves, until a response tells it where to go; with it off, it
asks for the whole name at once. Here are the questions, and what makes two states of such
runs alike: responses that agree lead alike states to alike states.
-/

namespace RecurseX

open Library Library.PrefixedList

variable {Score Stability Inputs : Type}

/-! ## Servers that always answer -/

/-- Whether asking for a name ends with this message: it is no refusal, and not bare. -/
def Message.usable (msg : Message) : Bool :=
  !(msg.flags.rcode == .NOERROR && msg.answers.isEmpty && msg.authorities.isEmpty &&
    msg.additionals.isEmpty) &&
  !([Rcode.SERVFAIL, .REFUSED, .NOTIMP, .FORMERR].contains msg.flags.rcode)

/-- Servers that answer every question, and what belongs to asking them. -/
structure Upstreams (Inputs : Type) where
  /-- What the servers of a zone answer when they are asked for a name. -/
  serve : (zone name : Name) → Received
  usable : ∀ zone name, (serve zone name).message.usable = true
  /-- The octets of that exchange, in both directions. -/
  octets : (zone name : Name) → Nat
  scoreInputs : Name → Inputs

/-- Charge one exchange with a server that answers. -/
def FetchBudget.pay (budget : FetchBudget) (octets : Nat) : Result Unit × FetchBudget :=
  match budget.spendSubquery with
  | none => (.error ⟨.noUpstream, "resolution budget exhausted (sub-queries)"⟩, budget)
  | some counted =>
      match counted.spendBytes octets with
      | none => (.error ⟨.noUpstream, "resolution budget exhausted (bytes)"⟩, counted)
      | some paid => (.ok (), paid)

namespace Upstreams

variable (upstreams : Upstreams Inputs)

/-- The turn in which these servers answer what the loop asks next. Nothing else uses the
cache, there is time, and every delegation comes with glue. -/
def turn (engine : EngineConfig) (state : WalkState Score Stability) :
    Turn Score Stability Inputs :=
  let name := Turn.queryName engine state
  let paid := state.budget.pay (upstreams.octets state.zone name)
  { others := []
    spent := fun _ => paid.2
    expired := false
    scoreInputs := upstreams.scoreInputs
    response := paid.1.map fun _ => upstreams.serve state.zone name
    nsAddresses := fun _ => [] }

/-- The loop, for so many turns. -/
def resolve [LinearOrder Score] (scoring : Scoring Score Stability Inputs) (engine : EngineConfig)
    (key : QueryKey) (now : Ts) : Nat → WalkState Score Stability → Progress Score Stability
  | 0, state => .running state
  | turns + 1, state =>
      match (upstreams.turn engine state).take scoring engine key now state with
      | .running next => resolve scoring engine key now turns next
      | progress => progress

/-! ## The questions of one zone -/

/-- How a response to a question for `name` drives the resolution of `current`. -/
def kind (key : QueryKey) (zone current name : Name) : ResponseKind :=
  classifyResponse (upstreams.serve zone name).message current key.rrType zone

end Upstreams

/-- The best server answers the first attempt. -/
structure ServerCall.Answered (policy : AskPolicy) (received : Received) (octets : Nat)
    (call : ServerCall) : Prop where
  attempts : 0 < policy.maxAttemptsPerServer
  total : 0 < policy.maxTotalAttempts
  best : ∃ endpoint others, call.ranked = (endpoint, false) :: others
  inTime : (call.attempt 0).inTime = true
  reply : ∃ bytes, (call.attempt 0).reply = .ok bytes ∧ Message.parse bytes = .ok received.message ∧
    octets = (call.attempt 0).query.length + bytes.length
  answers : matchesQuery (call.attempt 0).query received.message = true
  whole : received.message.flags.tc = false

theorem Asking.settle_usable (skipEmpty : Bool) {received : Received} (state : Asking)
    (usable : received.message.usable = true) :
    settle skipEmpty received state = .returned (.ok received) state := by
  unfold Message.usable at usable
  rw [Bool.and_eq_true, Bool.not_eq_true', Bool.not_eq_true'] at usable
  unfold settle
  dsimp only
  rw [if_neg, if_neg]
  · rw [usable.2]
    exact Bool.false_ne_true
  · cases skipEmpty with
    | false => exact Bool.false_ne_true
    | true =>
        rw [Bool.true_and, usable.1]
        exact Bool.false_ne_true

theorem Asking.consider_usable (policy : AskPolicy) (skipEmpty : Bool) (endpoint : Endpoint)
    {attempt : Attempt} {bytes : Bytes} {received : Received} (state : Asking)
    (parsed : Message.parse bytes = .ok received.message)
    (answers : matchesQuery attempt.query received.message = true)
    (whole : received.message.flags.tc = false) (usable : received.message.usable = true) :
    consider policy skipEmpty endpoint attempt bytes state = .returned (.ok received) state := by
  unfold consider
  split
  · rename_i error failed
    rw [parsed] at failed
    cases failed
  · rename_i msg same
    obtain rfl : received.message = msg := Except.ok.inj (parsed.symm.trans same)
    rw [if_neg (by rw [answers]; nofun), whole, Bool.false_and, if_neg Bool.false_ne_true]
    exact settle_usable skipEmpty state usable

theorem queryServers_answered {policy : AskPolicy} {call : ServerCall} {received : Received}
    {octets : Nat} (answered : call.Answered policy received octets)
    (usable : received.message.usable = true) (ledger : Ledger) :
    (queryServers policy call ledger).1 = (ledger.budget.pay octets).1.map (fun _ => received) ∧
      (queryServers policy call ledger).2.budget = (ledger.budget.pay octets).2 := by
  obtain ⟨endpoint, others, ranked⟩ := answered.best
  obtain ⟨bytes, replied, parsed, rfl⟩ := answered.reply
  obtain ⟨more, attempts⟩ : ∃ more, policy.maxAttemptsPerServer = more + 1 :=
    ⟨policy.maxAttemptsPerServer - 1, by have := answered.attempts; omega⟩
  obtain ⟨servers, tried⟩ : ∃ servers,
      min call.ranked.length (max policy.maxServersTried 1) = servers + 1 := by
    refine ⟨min call.ranked.length (max policy.maxServersTried 1) - 1, ?_⟩
    rw [ranked, List.length_cons]
    omega
  unfold queryServers
  rw [if_neg (by rw [ranked]; exact List.cons_ne_nil _ _)]
  dsimp only
  rw [tried, ranked, List.take_succ_cons, Asking.askServers, if_neg Bool.false_ne_true, attempts,
    Asking.askServer, if_neg (Nat.not_le.mpr answered.total)]
  unfold Asking.ask FetchBudget.pay
  dsimp only
  cases counted : ledger.budget.spendSubquery with
  | none => exact ⟨rfl, rfl⟩
  | some budget =>
      dsimp only
      rw [answered.inTime, if_neg (by decide), replied]
      dsimp only
      cases budget.spendBytes ((call.attempt 0).query.length + bytes.length) with
      | none => exact ⟨rfl, rfl⟩
      | some paid =>
          dsimp only
          rw [Asking.consider_usable policy call.skipEmpty endpoint _ parsed answered.answers
            answered.whole usable]
          exact ⟨rfl, rfl⟩

/-- What asking these servers gives, and what it costs. -/
theorem Upstreams.turn_answered (upstreams : Upstreams Inputs) (engine : EngineConfig)
    (state : WalkState Score Stability) {policy : AskPolicy} {call : ServerCall}
    (answered : call.Answered policy
      (upstreams.serve state.zone (Turn.queryName engine state))
      (upstreams.octets state.zone (Turn.queryName engine state)))
    (exchanges : List WireExchange) :
    (queryServers policy call ⟨state.budget, exchanges⟩).1 =
        (upstreams.turn engine state : Turn Score Stability Inputs).response ∧
      (queryServers policy call ⟨state.budget, exchanges⟩).2.budget =
        (upstreams.turn engine state : Turn Score Stability Inputs).spent state.budget :=
  queryServers_answered answered (upstreams.usable _ _) ⟨state.budget, exchanges⟩

/-- Whether a response to a question for less than the name asks for one label more. -/
def ResponseKind.deepens : ResponseKind → Bool
  | .negative rcode _ => !rcode.isNxdomain
  | .empty => true
  | _ => false

/-- The responses lead the loop the same way. An alias may come from the DNAME record that
implies it. -/
def ResponseKind.Agrees : ResponseKind → ResponseKind → Prop
  | .answer records _, .answer others _ => others = records
  | .cname record _, .cname other _ => other = record
  | .cname record _, .dname other => other.implies record = true
  | .dname record, .dname other => other = record
  | .negative rcode _, .negative other _ => other = rcode
  | .referral zone ns glue, .referral otherZone otherNs otherGlue =>
      otherZone = zone ∧ otherNs = ns ∧ otherGlue = glue
  | .empty, .empty => True
  | _, _ => False

namespace Upstreams

variable (upstreams : Upstreams Inputs) (key : QueryKey)

/-- The names asked for, from `name` on: one label more after every response that tells
nothing, up to the whole name. -/
def asked (zone current : Name) : Nat → Name → List Name
  | 0, name => [name]
  | more + 1, name =>
      if name ≠ current ∧ (upstreams.kind key zone current name).deepens = true then
        name :: asked zone current more (deepenMinimized current name)
      else [name]

/-- The names the servers of a zone are asked for with minimisation on. -/
def suffixes (zone current : Name) : List Name :=
  upstreams.asked key zone current current.labelCount (minimizedName current zone)

/-- What the servers of a zone tell first is what they tell about the whole name. -/
def Steers (zone current : Name) : Prop :=
  ∀ name, (upstreams.suffixes key zone current).getLast? = some name →
    (upstreams.kind key zone current current).Agrees (upstreams.kind key zone current name)

/-- The questions that minimisation makes of those of a run without it. -/
def questions (exchanges : List Exchange) : List (Name × Name) :=
  exchanges.flatMap fun exchange =>
    (upstreams.suffixes key exchange.zone exchange.currentName).map (exchange.zone, ·)

/-- The questions fit what is left of a budget. -/
def Fits (budget : FetchBudget) (questions : List (Name × Name)) : Prop :=
  budget.work.subqueries + questions.length ≤ budget.limits.maxSubqueries ∧
    budget.work.bytes + (questions.map fun question => upstreams.octets question.1 question.2).sum ≤
      budget.limits.maxBytes

end Upstreams

/-- Where an alias sends the walk. -/
def ResponseKind.target? (current : Name) : ResponseKind → Option Name
  | .cname record _ =>
      match record.rdata with
      | .cname target => some target
      | _ => none
  | .dname record =>
      match record.rdata with
      | .dname target => synthesizeDnameCname current record.name target
      | _ => none
  | _ => none

/-- Whether a referral comes with data of a type at a name. -/
def ResponseKind.brings (rrType : RrType) (name : Name) : ResponseKind → Bool
  | .referral newZone _ glue =>
      newZone == name && rrType == .NS ||
        glue.any fun record => record.name == name && record.rrType == rrType
  | _ => false

/-- No referral comes with the data asked for at the end of an alias. -/
def Unaided (key : QueryKey) (exchanges : List Exchange) : Prop :=
  ∀ exchange ∈ exchanges, ∀ name, (exchange.kind key).target? exchange.currentName = some name →
    ∀ other ∈ exchanges, (other.kind key).brings key.rrType name = false

theorem ResponseKind.brings_of_deepens {kind : ResponseKind} {rrType : RrType} {name : Name}
    (deepens : kind.deepens = true) : kind.brings rrType name = false := by
  cases kind with
  | referral newZone ns glue => cases deepens
  | _ => rfl

theorem ResponseKind.Agrees.brings {kind other : ResponseKind} (agrees : kind.Agrees other)
    (rrType : RrType) (name : Name) : other.brings rrType name = kind.brings rrType name := by
  cases kind with
  | referral newZone ns glue =>
      cases other with
      | referral same otherNs otherGlue =>
          obtain ⟨rfl, rfl, rfl⟩ := agrees
          rfl
      | _ => exact absurd agrees id
  | _ =>
      cases other with
      | referral newZone ns glue => exact absurd agrees id
      | _ => rfl

/-! ## Names on the way -/

/-- A name to ask for on the way to `current`: it, or one with fewer labels. -/
def Shorter (current name : Name) : Prop := name = current ∨ name.labelCount < current.labelCount

theorem minimizedName_shorter {current zone : Name} (named : current.Canonical) :
    Shorter current (minimizedName current zone) := by
  unfold minimizedName
  split_ifs with short
  · exact .inl rfl
  · rcases Nat.lt_or_eq_of_le (Nat.succ_le_of_lt (Nat.not_le.mp short)) with fewer | whole
    · exact .inr (named.built.labelCount_lastLabels (Nat.le_of_lt fewer) ▸ fewer)
    · rw [show zone.labelCount + 1 = current.labelCount from whole]
      exact .inl named.built.lastLabels_labelCount

/-- One label more, or the whole name. -/
theorem deepenMinimized_next {current name : Name} (named : current.Canonical)
    (fewer : name.labelCount < current.labelCount) :
    deepenMinimized current name = current ∨
      name.labelCount < (deepenMinimized current name).labelCount ∧
        (deepenMinimized current name).labelCount < current.labelCount := by
  unfold deepenMinimized
  rw [if_neg (Nat.not_le.mpr fewer)]
  rcases Nat.lt_or_eq_of_le (Nat.succ_le_of_lt fewer) with more | whole
  · rw [named.built.labelCount_lastLabels (Nat.le_of_lt more)]
    exact .inr ⟨Nat.lt_succ_self _, more⟩
  · rw [show name.labelCount + 1 = current.labelCount from whole]
    exact .inl named.built.lastLabels_labelCount

/-- The engine with minimisation switched on or off. -/
def EngineConfig.minimizing (engine : EngineConfig) (enabled : Bool) : EngineConfig :=
  { engine with qnameMinimization := enabled }

/-! ## States that go the same way -/

/-- The states are at the same point of a resolution, and have found the same. -/
structure WalkState.Alike (left right : WalkState Score Stability) : Prop where
  currentName : right.currentName = left.currentName
  zone : right.zone = left.zone
  depth : right.depth = left.depth
  referrals : right.referrals = left.referrals
  rcode : right.rcode = left.rcode
  answers : right.answers.map Sourced.record = left.answers.map Sourced.record
  limits : right.budget.limits = left.budget.limits
  delegations : right.budget.work.delegations = left.budget.work.delegations

/-- The runs came to the same point: both go on with a new name or zone, both are finished,
or both failed. -/
inductive Progress.Alike : Progress Score Stability → Progress Score Stability → Prop where
  | running {left right : WalkState Score Stability} (alike : left.Alike right)
      (fresh : left.minimized = none ∧ right.minimized = none) :
      Alike (.running left) (.running right)
  | finished {left right : WalkState Score Stability} (alike : left.Alike right) :
      Alike (.finished left) (.finished right)
  | failed {error other : ResolveError} {left right : WalkState Score Stability} :
      Alike (.failed error left) (.failed other right)

namespace WalkState.Alike

variable {left middle right : WalkState Score Stability}

theorem refl (state : WalkState Score Stability) : state.Alike state :=
  ⟨rfl, rfl, rfl, rfl, rfl, rfl, rfl, rfl⟩

theorem trans (first : left.Alike middle) (second : middle.Alike right) : left.Alike right where
  currentName := second.currentName.trans first.currentName
  zone := second.zone.trans first.zone
  depth := second.depth.trans first.depth
  referrals := second.referrals.trans first.referrals
  rcode := second.rcode.trans first.rcode
  answers := second.answers.trans first.answers
  limits := second.limits.trans first.limits
  delegations := second.delegations.trans first.delegations

theorem symm (alike : left.Alike right) : right.Alike left where
  currentName := alike.currentName.symm
  zone := alike.zone.symm
  depth := alike.depth.symm
  referrals := alike.referrals.symm
  rcode := alike.rcode.symm
  answers := alike.answers.symm
  limits := alike.limits.symm
  delegations := alike.delegations.symm

end WalkState.Alike

theorem Progress.Alike.of_finished {left : WalkState Score Stability}
    {progress : Progress Score Stability} (alike : (Progress.finished left).Alike progress) :
    ∃ right, progress = .finished right ∧ left.Alike right := by
  cases alike with
  | finished alike => exact ⟨_, rfl, alike⟩

theorem Progress.Alike.of_running {left : WalkState Score Stability}
    {progress : Progress Score Stability} (alike : (Progress.running left).Alike progress) :
    ∃ right, progress = .running right ∧ left.Alike right ∧ left.minimized = none ∧
      right.minimized = none := by
  cases alike with
  | running alike fresh => exact ⟨_, rfl, alike, fresh⟩

theorem WalkState.map_record_sourced (state : WalkState Score Stability) (role : Role)
    (records : List Record) : (state.sourced role records).map Sourced.record = records := by
  rw [WalkState.sourced, List.map_map]
  exact List.map_id records

theorem WalkState.Alike.appendAnswers {left right : WalkState Score Stability}
    (alike : left.Alike right) {found others : List Sourced}
    (same : others.map Sourced.record = found.map Sourced.record) :
    (left.appendAnswers found).Alike (right.appendAnswers others) :=
  { alike with
    answers := by
      change (right.answers ++ others).map Sourced.record = (left.answers ++ found).map Sourced.record
      rw [List.map_append, List.map_append, alike.answers, same] }

theorem WalkState.Alike.follow {left right : WalkState Score Stability} (alike : left.Alike right)
    (engine other : EngineConfig) (target : Name) :
    (left.follow engine target).Alike (right.follow other target) ∧
      (left.follow engine target).minimized = none ∧ (right.follow other target).minimized = none := by
  unfold WalkState.follow
  dsimp only
  rw [alike.zone]
  split_ifs
  · exact ⟨⟨rfl, rfl, congrArg (· + 1) alike.depth, alike.referrals, alike.rcode, alike.answers,
      alike.limits, alike.delegations⟩, rfl, rfl⟩
  · exact ⟨⟨rfl, alike.zone, congrArg (· + 1) alike.depth, alike.referrals, alike.rcode,
      alike.answers, alike.limits, alike.delegations⟩, rfl, rfl⟩

namespace Turn

variable {scoring : Scoring Score Stability Inputs} {engine : EngineConfig} {key : QueryKey}
  {now : Ts} {first second : Turn Score Stability Inputs} {left right : WalkState Score Stability}

theorem answerArm_alike (alike : left.Alike right) (records sigs others : List Record) :
    (answerArm records sigs left).Alike (answerArm records others right) := by
  unfold answerArm
  rw [alike.zone]
  dsimp only
  split_ifs
  · exact .failed
  · obtain ⟨leftTtl, leftCapped⟩ := foldl_capTtl_eq
      (records.filter fun record => inBailiwick record.name left.zone) left
    obtain ⟨rightTtl, rightCapped⟩ := foldl_capTtl_eq
      (records.filter fun record => inBailiwick record.name left.zone) right
    rw [leftCapped, rightCapped]
    have capped : WalkState.Alike { left with ttl := leftTtl } { right with ttl := rightTtl } :=
      { alike with }
    have found := capped.appendAnswers (show (right.sourced .answer (records.filter fun record =>
      inBailiwick record.name left.zone)).map Sourced.record = (left.sourced .answer _).map _ by
        rw [WalkState.map_record_sourced, WalkState.map_record_sourced])
    exact .finished { found with }

theorem dnameArm_alike (alike : left.Alike right) (record : Record) :
    (dnameArm (engine.minimizing false) record left).Alike
      (dnameArm (engine.minimizing true) record right) := by
  unfold dnameArm
  rw [alike.currentName]
  split
  · split
    · exact .failed
    · rename_i synthesized made
      have capped : (left.capTtl record.ttl).Alike (right.capTtl record.ttl) := { alike with }
      have found := capped.appendAnswers (show (right.sourced .synthesized [makeCnameRecord
        left.currentName synthesized record.ttl]).map Sourced.record = (left.sourced .synthesized
          [makeCnameRecord left.currentName synthesized record.ttl]).map Sourced.record from rfl)
      have followed := found.follow (engine.minimizing false) (engine.minimizing true) synthesized
      exact .running followed.1 followed.2
  · exact .failed

theorem concludeNegative_alike (alike : left.Alike right) (rcode : Rcode)
    (soa others : Option Sourced) :
    (concludeNegative rcode soa left).Alike (concludeNegative rcode others right) := by
  have concluded : WalkState.Alike { left with rcode := rcode } { right with rcode := rcode } :=
    { alike with rcode := rfl }
  unfold concludeNegative
  cases soa <;> cases others <;> exact { concluded with }

theorem emptyArm_alike {name other : Name} (whole : name = left.currentName)
    (wholeToo : other = right.currentName) :
    (emptyArm name left).Alike (emptyArm other right) := by
  unfold emptyArm
  rw [if_neg (not_not.mpr whole), if_neg (not_not.mpr wholeToo)]
  exact .failed

/-- Whether a referral is admitted is a matter of the limits. -/
theorem admitReferral_alike {budget changed : FetchBudget} (same : changed.limits = budget.limits)
    (nsCount glueCount nsWithGlue : Nat) :
    (changed.admitReferral nsCount glueCount nsWithGlue).1 =
        (budget.admitReferral nsCount glueCount nsWithGlue).1 ∧
      (changed.admitReferral nsCount glueCount nsWithGlue).2.limits =
        (budget.admitReferral nsCount glueCount nsWithGlue).2.limits ∧
      (budget.admitReferral nsCount glueCount nsWithGlue).2.work.delegations =
        budget.work.delegations ∧
      (changed.admitReferral nsCount glueCount nsWithGlue).2.work.delegations =
        changed.work.delegations := by
  unfold FetchBudget.admitReferral
  dsimp only
  rw [same]
  split_ifs <;> exact ⟨rfl, rfl, rfl, rfl⟩

theorem descend_alike (alike : left.Alike right) (newZone : Name) (nsNames : List Name)
    (glue : List Record) (sameServers : second.nsAddresses = first.nsAddresses) :
    (first.descend (engine.minimizing false) newZone nsNames glue left).Alike
      (second.descend (engine.minimizing true) newZone nsNames glue right) := by
  unfold descend
  rw [sameServers, show glueEndpoints (engine.minimizing true) nsNames newZone glue =
    glueEndpoints (engine.minimizing false) nsNames newZone glue from rfl]
  dsimp only
  split_ifs
  · exact .failed
  · exact .running { alike with zone := rfl } ⟨rfl, rfl⟩
  · exact .failed
  · exact .running { alike with zone := rfl } ⟨rfl, rfl⟩

theorem follow_budget {state : WalkState Score Stability} {target : Name} :
    (state.follow engine target).budget = state.budget := by
  unfold WalkState.follow
  dsimp only
  split_ifs <;> rfl

theorem concludeNegative_budget {state : WalkState Score Stability} {rcode : Rcode}
    {soa : Option Sourced} : (concludeNegative rcode soa state).budget = state.budget := by
  unfold concludeNegative
  cases soa <;> rfl

theorem descend_budget {turn : Turn Score Stability Inputs} {newZone : Name} {names : List Name}
    {glue : List Record} {state : WalkState Score Stability} :
    (turn.descend engine newZone names glue state).state.budget = state.budget := by
  unfold descend
  dsimp only
  split_ifs <;> rfl

theorem answerArm_budget {records rrsigs : List Record} {state : WalkState Score Stability} :
    (answerArm records rrsigs state).state.budget = state.budget := by
  rcases answerArm_cases records rrsigs state with ⟨error, refused⟩ | ⟨keep, ttl, -, -, taken⟩
  · rw [refused]
    rfl
  · rw [taken]
    rfl

theorem dnameArm_budget {record : Record} {state : WalkState Score Stability} :
    (dnameArm engine record state).state.budget = state.budget := by
  rcases dnameArm_cases engine record state with
    ⟨error, refused⟩ | ⟨target, synthesized, -, -, followed⟩
  · rw [refused]
    rfl
  · rw [followed]
    exact follow_budget

theorem emptyArm_budget {name : Name} {state : WalkState Score Stability} :
    (emptyArm name state).state.budget = state.budget := by
  unfold emptyArm
  split_ifs <;> rfl

variable [LinearOrder Score]

theorem cnameArm_alike (alike : left.Alike right) (record : Record) (sigs others : List Record) :
    (first.cnameArm scoring (engine.minimizing false) key now record sigs left).Alike
      (second.cnameArm scoring (engine.minimizing true) key now record others right) := by
  unfold cnameArm
  split
  · rename_i target pointed
    have capped : (left.capTtl record.ttl).Alike (right.capTtl record.ttl) := { alike with }
    have found := capped.appendAnswers (show (right.sourced .cname [record]).map Sourced.record =
      (left.sourced .cname [record]).map Sourced.record from rfl)
    have cached : (cachedAlias scoring key now first record sigs left).Alike
        (cachedAlias scoring key now second record others right) := { found with }
    have followed := cached.follow (engine.minimizing false) (engine.minimizing true) target
    exact .running followed.1 followed.2
  · exact .failed

/-- An alias and the DNAME record that implies it. -/
theorem cnameArm_dnameArm_alike (alike : left.Alike right) {record other : Record}
    (sigs : List Record) (owned : record.name = left.currentName)
    (implied : other.implies record = true) :
    (first.cnameArm scoring (engine.minimizing false) key now record sigs left).Alike
      (dnameArm (engine.minimizing true) other right) := by
  unfold Record.implies at implied
  split at implied
  · rename_i target pointed
    obtain ⟨synthesized, made, same⟩ := (Option.any_eq_true _ _).mp implied
    have aliased : record = makeCnameRecord left.currentName synthesized other.ttl :=
      owned ▸ of_decide_eq_true same
    rw [owned, ← alike.currentName] at made
    have capped : (left.capTtl other.ttl).Alike (right.capTtl other.ttl) := { alike with }
    have found := capped.appendAnswers (show (right.sourced .synthesized [record]).map Sourced.record =
      (left.sourced .cname [record]).map Sourced.record from rfl)
    have cached : (cachedAlias scoring key now first record sigs left).Alike
        ((right.capTtl other.ttl).appendAnswers (right.sourced .synthesized [record])) := by
      rw [aliased] at found ⊢
      exact { found with }
    have followed := cached.follow (engine.minimizing false) (engine.minimizing true) synthesized
    have points : record.rdata = .cname synthesized := by
      rw [aliased]
      rfl
    unfold cnameArm dnameArm
    rw [pointed, points]
    dsimp only
    rw [made]
    dsimp only
    rw [alike.currentName, ← aliased]
    exact .running followed.1 followed.2
  · cases implied

theorem cacheMissing_alike (alike : left.Alike right) (rcode : Rcode) (soa others : Option Sourced)
    (name other : Name) :
    (first.cacheMissing scoring key now rcode soa name left).Alike
      (second.cacheMissing scoring key now rcode others other right) := by
  unfold cacheMissing
  dsimp only
  split <;> split <;> exact { alike with }

/-- A negative answer that ends the loop: for a name that does not exist, or for the whole
name. -/
theorem negativeArm_alike (alike : left.Alike right) (rcode : Rcode) (soa others : Option Record)
    {name : Name} (ends : rcode.isNxdomain = true ∨ name = right.currentName) :
    (first.negativeArm scoring key now rcode soa left.currentName left).Alike
      (second.negativeArm scoring key now rcode others name right) := by
  rcases negativeArm_cases scoring key now first rcode soa left.currentName left with
    ⟨missing, denied⟩ | ⟨present, ⟨apart, -⟩ | ⟨-, concluded⟩⟩
  · rcases negativeArm_cases scoring key now second rcode others name right with
      ⟨-, deniedToo⟩ | ⟨present, -⟩
    · rw [denied, deniedToo]
      exact .finished (cacheMissing_alike (concludeNegative_alike alike _ _ _) _ _ _ _ _)
    · rw [missing] at present
      cases present
  · exact absurd rfl apart
  · have whole := ends.resolve_left (present ▸ Bool.false_ne_true)
    rcases negativeArm_cases scoring key now second rcode others name right with
      ⟨missing, -⟩ | ⟨-, ⟨apart, -⟩ | ⟨-, concludedToo⟩⟩
    · rw [missing] at present
      cases present
    · exact absurd whole apart
    · rw [concluded, concludedToo]
      have cached : (cachedNodata scoring key now first rcode soa left.currentName left).Alike
          (cachedNodata scoring key now second rcode others name right) := { alike with }
      exact .finished (concludeNegative_alike cached _ _ _)

theorem referralArm_eq (turn : Turn Score Stability Inputs) (newZone : Name)
    (ns glue : List Record) (state : WalkState Score Stability) :
    turn.referralArm scoring engine key now newZone ns glue state =
      if newZone.isStrictSubdomainOf state.zone = false then
        .failed (.referralNotBelow newZone state.zone) { state with referrals := state.referrals + 1 }
      else match RrSet.fromRecords ns engine.maxTtlCap with
        | .error error => .failed (.badNsSet error.msg) { state with referrals := state.referrals + 1 }
        | .ok set =>
            match state.budget.admitReferral (nsNames ns).length glue.length
                ((nsNames ns).countP fun name => glue.any fun record => record.name == name) with
            | (.reject _, budget) => .failed (.refusedDelegation newZone)
                { cachedReferral scoring engine key now turn newZone ns glue state set with budget }
            | (.accept .., budget) =>
                match budget.spendDelegation with
                | none => .failed .delegationBudget
                    { cachedReferral scoring engine key now turn newZone ns glue state set with budget }
                | some budget => turn.descend engine newZone (nsNames ns) glue
                    { cachedReferral scoring engine key now turn newZone ns glue state set with
                      budget } := by
  unfold referralArm
  dsimp only
  split_ifs
  · rfl
  · cases RrSet.fromRecords ns engine.maxTtlCap with
    | error error => rfl
    | ok set =>
        have kept : (cachedReferral scoring engine key now turn newZone ns glue state set).budget =
            state.budget := by
          obtain ⟨cache, filings, cached⟩ : ∃ cache filings,
              cachedReferral scoring engine key now turn newZone ns glue state set =
                { state with
                  referrals := state.referrals + 1
                  cache := cache
                  filings := filings } := cachedReferral_eq set
          rw [cached]
        dsimp only
        conv_rhs => rw [← kept]
        rfl

theorem cachedReferral_alike (alike : left.Alike right) (newZone : Name) (ns glue : List Record)
    (set : RrSet) {budget changed : FetchBudget} (limits : changed.limits = budget.limits)
    (delegations : changed.work.delegations = budget.work.delegations) :
    WalkState.Alike
      { cachedReferral scoring (engine.minimizing false) key now first newZone ns glue left set with
        budget := budget }
      { cachedReferral scoring (engine.minimizing true) key now second newZone ns glue right set with
        budget := changed } := by
  obtain ⟨leftCache, leftFilings, leftCached⟩ : ∃ cache filings,
      cachedReferral scoring (engine.minimizing false) key now first newZone ns glue left set =
        { left with referrals := left.referrals + 1, cache := cache, filings := filings } :=
    cachedReferral_eq set
  obtain ⟨rightCache, rightFilings, rightCached⟩ : ∃ cache filings,
      cachedReferral scoring (engine.minimizing true) key now second newZone ns glue right set =
        { right with referrals := right.referrals + 1, cache := cache, filings := filings } :=
    cachedReferral_eq set
  rw [leftCached, rightCached]
  exact { alike with
    referrals := congrArg (· + 1) alike.referrals
    limits := limits
    delegations := delegations }

theorem referralArm_alike (alike : left.Alike right) (newZone : Name) (ns glue : List Record)
    (sameServers : second.nsAddresses = first.nsAddresses) :
    (first.referralArm scoring (engine.minimizing false) key now newZone ns glue left).Alike
      (second.referralArm scoring (engine.minimizing true) key now newZone ns glue right) := by
  rw [referralArm_eq, referralArm_eq, alike.zone, show (engine.minimizing true).maxTtlCap =
    (engine.minimizing false).maxTtlCap from rfl]
  split_ifs
  · exact .failed
  · cases RrSet.fromRecords ns (engine.minimizing false).maxTtlCap with
    | error error => exact .failed
    | ok set =>
        obtain ⟨decision, limits, leftKept, rightKept⟩ := admitReferral_alike alike.limits
          (nsNames ns).length glue.length
          ((nsNames ns).countP fun name => glue.any fun record => record.name == name)
        dsimp only
        generalize left.budget.admitReferral _ _ _ = admitted at decision limits leftKept ⊢
        generalize right.budget.admitReferral _ _ _ = admittedToo at decision limits rightKept ⊢
        obtain ⟨admission, budget⟩ := admitted
        obtain ⟨admissionToo, changed⟩ := admittedToo
        dsimp only at decision limits leftKept rightKept
        subst decision
        have delegations : changed.work.delegations = budget.work.delegations :=
          rightKept.trans (alike.delegations.trans leftKept.symm)
        cases admissionToo with
        | reject reason => exact .failed
        | accept names addresses lookups =>
            dsimp only
            rw [FetchBudget.spendDelegation, FetchBudget.spendDelegation, limits, delegations]
            split_ifs
            · exact .failed
            · refine descend_alike (cachedReferral_alike alike newZone ns glue set ?_ ?_) newZone
                (nsNames ns) glue sameServers
              · rfl
              · rfl

/-- Responses that lead the loop the same way lead it to the same point. -/
theorem receive_alike (alike : left.Alike right) {name : Name} {reply otherReply : Received}
    (sameServers : second.nsAddresses = first.nsAddresses)
    (agrees : ((left.exchange left.currentName reply).kind key).Agrees
      ((right.exchange name otherReply).kind key))
    (tells : name = right.currentName ∨
      ((right.exchange name otherReply).kind key).deepens = false) :
    (first.receive scoring (engine.minimizing false) key now left.currentName reply left).Alike
      (second.receive scoring (engine.minimizing true) key now name otherReply right) := by
  have acting : (left.receiving (left.exchange left.currentName reply)).Alike
      (right.receiving (right.exchange name otherReply)) := { alike with }
  have owned (record : Record) (sigs : List Record)
      (aliased : (left.exchange left.currentName reply).kind key = .cname record sigs) :
      record.name = left.currentName := by
    have taken := (left.exchange left.currentName reply).kind_taken key
    rw [aliased] at taken
    exact taken.1.2.1
  rw [receive_eq, receive_eq]
  generalize (left.exchange left.currentName reply).kind key = kind at agrees owned ⊢
  generalize (right.exchange name otherReply).kind key = other at agrees tells ⊢
  cases kind with
  | answer records sigs =>
      cases other with
      | answer others otherSigs =>
          obtain rfl := agrees
          exact answerArm_alike acting others sigs otherSigs
      | _ => exact absurd agrees id
  | cname record sigs =>
      cases other with
      | cname same otherSigs =>
          obtain rfl := agrees
          exact cnameArm_alike acting same sigs otherSigs
      | dname other => exact cnameArm_dnameArm_alike acting sigs (owned record sigs rfl) agrees
      | _ => exact absurd agrees id
  | dname record =>
      cases other with
      | dname same =>
          obtain rfl := agrees
          exact dnameArm_alike acting same
      | _ => exact absurd agrees id
  | negative rcode soa =>
      cases other with
      | negative same otherSoa =>
          obtain rfl := agrees
          refine negativeArm_alike acting same soa otherSoa ?_
          rcases tells with whole | missing
          · exact .inr whole
          · exact .inl (by simpa [ResponseKind.deepens] using missing)
      | _ => exact absurd agrees id
  | referral newZone ns glue =>
      cases other with
      | referral same otherNs otherGlue =>
          obtain ⟨rfl, rfl, rfl⟩ := agrees
          exact referralArm_alike acting same otherNs otherGlue sameServers
      | _ => exact absurd agrees id
  | empty =>
      cases other with
      | empty =>
          exact emptyArm_alike rfl (tells.resolve_right nofun)
      | _ => exact absurd agrees id

theorem cnameArm_budget {turn : Turn Score Stability Inputs} {record : Record}
    {rrsigs : List Record} {state : WalkState Score Stability} :
    (turn.cnameArm scoring engine key now record rrsigs state).state.budget = state.budget := by
  rcases cnameArm_cases scoring engine key now turn record rrsigs state with
    ⟨error, refused⟩ | ⟨target, -, followed⟩
  · rw [refused]
    rfl
  · rw [followed]
    exact follow_budget

theorem negativeArm_budget {turn : Turn Score Stability Inputs} {rcode : Rcode}
    {soa : Option Record} {name : Name} {state : WalkState Score Stability} :
    (turn.negativeArm scoring key now rcode soa name state).state.budget = state.budget := by
  rcases negativeArm_cases scoring key now turn rcode soa name state with
    ⟨-, denied⟩ | ⟨-, ⟨-, deepened⟩ | ⟨-, concluded⟩⟩
  · rw [denied]
    dsimp only [Progress.state]
    unfold cacheMissing
    dsimp only
    split <;> exact concludeNegative_budget
  · rw [deepened]
    rfl
  · rw [concluded]
    exact concludeNegative_budget

theorem referralArm_traffic {turn : Turn Score Stability Inputs} {newZone : Name}
    {ns glue : List Record} {state : WalkState Score Stability} :
    state.budget.SameTraffic
      (turn.referralArm scoring engine key now newZone ns glue state).state.budget := by
  have kept : state.budget.SameTraffic state.budget := ⟨rfl, rfl, rfl⟩
  rw [referralArm_eq]
  split_ifs
  · exact kept
  · split
    · exact kept
    · have admitted := state.budget.sameTraffic_admitReferral (nsNames ns).length glue.length
        ((nsNames ns).countP fun name => glue.any fun record => record.name == name)
      split
      · rename_i outcome
        rw [outcome] at admitted
        exact admitted
      · rename_i outcome
        rw [outcome] at admitted
        have spent := admitted.spendDelegation
        split
        · exact admitted
        · rename_i paid
          rw [paid] at spent
          rw [descend_budget]
          exact spent

/-- What a turn does with a response causes no traffic. -/
theorem receive_traffic (turn : Turn Score Stability Inputs) (name : Name) (received : Received)
    (state : WalkState Score Stability) :
    state.budget.SameTraffic
      (turn.receive scoring engine key now name received state).state.budget := by
  have kept : state.budget.SameTraffic state.budget := ⟨rfl, rfl, rfl⟩
  rw [receive_eq]
  cases (state.exchange name received).kind key with
  | answer records rrsigs =>
      dsimp only
      rw [answerArm_budget]
      exact kept
  | cname record rrsigs =>
      dsimp only
      rw [cnameArm_budget]
      exact kept
  | dname record =>
      dsimp only
      rw [dnameArm_budget]
      exact kept
  | negative rcode soa =>
      dsimp only
      rw [negativeArm_budget]
      exact kept
  | referral newZone ns glue =>
      have admitted := @referralArm_traffic _ _ _ scoring engine key now _ turn newZone ns glue
        (state.receiving (state.exchange name received))
      exact admitted
  | empty =>
      dsimp only
      rw [emptyArm_budget]
      exact kept

end Turn

end RecurseX
