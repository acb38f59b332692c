import RecurseX.Dnssec.Fetches
import RecurseX.Policy
import RecurseX.Resolver.SingleFlight
import RecurseX.Resolver.ValidationSlot

/-!
# Threads that own slots and call back into the resolver

A thread that resolves a client query owns the slot of its key; its validations
call the public entry point, which claims keys of its own. The calls of a thread
are a stack. `VALIDATING` keeps the validations of nested calls from starting, so
that a thread owns the key of its client query and at most one more, and only the
first can be claimed again: `no_self_wait` holds in every run in which no
validation calls for the key of the client query it is part of.
-/

namespace RecurseX

open Library

/-- A call on the stack of a thread. -/
inductive Frame where
  /-- `resolve_key` of a key whose slot it owns. -/
  | owning (key : QueryKey) (slot : Nat)
  /-- `resolve_key` of a key that is in flight: the slot, and its place among the
  waiters. -/
  | waiting (key : QueryKey) (slot waiter : Nat)
  /-- `resolve_inner` without a claim. -/
  | looking (key : QueryKey)
  /-- A validation that holds the validation slot, and the calls it has left. -/
  | validating (pending : List (Name × RrType))
deriving DecidableEq

namespace Frame

/-- The key a call of `resolve_inner` is about. -/
def resolves : Frame → Option QueryKey
  | .owning key _ | .looking key => some key
  | .waiting .. | .validating _ => none

/-- The key whose slot is owned. -/
def owns : Frame → Option QueryKey
  | .owning key _ => some key
  | .waiting .. | .looking _ | .validating _ => none

/-- Whether it holds the validation slot. -/
def guarded : Frame → Bool
  | .validating _ => true
  | .owning .. | .waiting .. | .looking _ => false

end Frame

/-- The keys whose slots a stack owns. -/
def owned (stack : List Frame) : List QueryKey := stack.filterMap Frame.owns

/-- The key of the client query a stack is about. -/
def clientKey (stack : List Frame) : Option QueryKey := stack.getLast?.bind Frame.owns

/-- A thread waits on a slot that it owns. -/
def WaitsOnItself (stack : List Frame) : Prop :=
  ∃ key slot waiter other, .waiting key slot waiter ∈ stack ∧ .owning other slot ∈ stack

/-- The key is one `Resolver::resolve` makes. -/
def QueryKey.Plain (engine : EngineConfig) (key : QueryKey) : Prop :=
  key.rrClass = .IN ∧ key.ecs = none ∧ key.wantDnssec = engine.dnssec ∧ key.cd = false

/-- The key is one of an address lookup. -/
def QueryKey.ForAddress (key : QueryKey) : Prop :=
  (key.rrType = .A ∨ key.rrType = .AAAA) ∧ key.rrClass = .IN ∧ key.ecs = none ∧
    key.wantDnssec = false ∧ key.cd = false

instance (engine : EngineConfig) (key : QueryKey) : Decidable (key.Plain engine) :=
  inferInstanceAs (Decidable (_ ∧ _ ∧ _ ∧ _))

instance (key : QueryKey) : Decidable key.ForAddress :=
  inferInstanceAs (Decidable (_ ∧ _ ∧ _ ∧ _ ∧ _))

/-- The records a validation checks. -/
def Validated.sections : Validated → List Record × List Record × List Record
  | .resolution res =>
      (res.answers.map Sourced.record, res.rrsigs.map Sourced.record,
        res.authorities.map Sourced.record)
  | .message resp =>
      (dataRecords resp.answers, signatures resp.answers, dataRecords resp.authorities)

/-- The process: the in-flight table, the validation flag and the threads. -/
structure Threads where
  inflight : QueryInflight
  validating : Bool
  threads : List (List Frame)

/-- What a thread does next. -/
inductive ThreadAction where
  /-- `resolve_key` for a client; a query that the configuration answers claims
  nothing and is left out. -/
  | query (key : QueryKey)
  /-- `resolve_inner` in the background. -/
  | refresh (key : QueryKey)
  /-- `resolve_inner` for the address of a name server. -/
  | lookup (key : QueryKey)
  /-- `resolve_inner` returns. -/
  | found
  /-- A validation, with what its calls will find. -/
  | validate (subject : Validated) (source : KeySource) (now : Ts)
  /-- `resolve` for the next keys or DS records of a validation. -/
  | fetch (key : QueryKey)
  /-- The validation is over. -/
  | verified
  | publish (value : Except ResolveError Resolution)
  | mark
  | notify
  | release (locked : Bool)
  | read
  | wake
  /-- The waiter returns with what it received. -/
  | receive

/-- The key an action claims. -/
def ThreadAction.claims : ThreadAction → Option QueryKey
  | .query key | .fetch key => some key
  | _ => none

namespace Threads

variable (crypto : Crypto) (engine : EngineConfig) (policy : PolicyConfig)

/-- Threads with nothing to do. -/
def new (max count : Nat) : Threads := ⟨.new max, false, List.replicate count []⟩

/-- The call that a claim of the key makes. -/
def claimed (inflight : QueryInflight) (key : QueryKey) : Frame :=
  match inflight.table[key]? with
  | some slot =>
      if inflight.isDone slot then .owning key inflight.slots.length
      else .waiting key slot inflight.waiters.length
  | none => .owning key inflight.slots.length

/-- The position of the owner of a slot. -/
def ownerOf (inflight : QueryInflight) (slot : Nat) : Nat :=
  inflight.owners.findIdx fun owner => owner.slot == slot

/-- The calls of a validation. -/
def fetches (subject : Validated) (source : KeySource) (now : Ts) : List (Name × RrType) :=
  chainFetches crypto (timestampSecs now) source subject.sections.1 subject.sections.2.1
    subject.sections.2.2

/-- One action of a thread: the table, the flag and the stack after it. -/
def act (inflight : QueryInflight) (validating : Bool) (stack : List Frame) :
    ThreadAction → Option (QueryInflight × Bool × List Frame)
  | .query key =>
      match stack with
      | [] =>
          if policy.isBlocked key.name then none
          else some (inflight.claim key, validating, [claimed inflight key])
      | _ => none
  | .refresh key =>
      match stack with
      | [] => some (inflight, validating, [.looking key])
      | _ => none
  | .lookup key =>
      match stack.head?.bind Frame.resolves with
      | some _ =>
          if key.ForAddress then some (inflight, validating, .looking key :: stack) else none
      | none => none
  | .found =>
      match stack with
      | .looking _ :: rest => some (inflight, validating, rest)
      | _ => none
  | .validate subject source now =>
      match stack.head?.bind Frame.resolves with
      | some key =>
          if engine.dnssec = true ∧ key.cd = false ∧ subject.answered = true then
            -- A validation that finds the flag set is over.
            if validating then some (inflight, validating, stack)
            else some (inflight, true, .validating (fetches crypto subject source now) :: stack)
          else none
      | none => none
  | .fetch key =>
      match stack with
      | .validating (call :: pending) :: rest =>
          if call = (key.name, key.rrType) ∧ key.Plain engine then
            if policy.isBlocked key.name then
              some (inflight, validating, .validating pending :: rest)
            else some (inflight.claim key, validating,
              claimed inflight key :: .validating pending :: rest)
          else none
      | _ => none
  | .verified =>
      match stack with
      | .validating [] :: rest => some (inflight, false, rest)
      | _ => none
  | .publish value =>
      match stack with
      | .owning _ slot :: _ =>
          (inflight.fill (ownerOf inflight slot) value).map fun inflight =>
            (inflight, validating, stack)
      | _ => none
  | .mark =>
      match stack with
      | .owning _ slot :: _ =>
          (inflight.mark (ownerOf inflight slot)).map fun inflight => (inflight, validating, stack)
      | _ => none
  | .notify =>
      match stack with
      | .owning _ slot :: _ =>
          (inflight.notify (ownerOf inflight slot)).map fun inflight => (inflight, validating, stack)
      | _ => none
  | .release locked =>
      match stack with
      | .owning _ slot :: rest =>
          (inflight.release (ownerOf inflight slot) locked).map fun inflight =>
            (inflight, validating, rest)
      | _ => none
  | .read =>
      match stack with
      | .waiting _ _ waiter :: _ =>
          (inflight.read waiter).map fun inflight => (inflight, validating, stack)
      | _ => none
  | .wake =>
      match stack with
      | .waiting _ _ waiter :: _ =>
          (inflight.wake waiter).map fun inflight => (inflight, validating, stack)
      | _ => none
  | .receive =>
      match stack with
      | .waiting _ _ waiter :: rest =>
          match (inflight.waiters[waiter]?).map Waiter.status with
          | some (.received _) => some (inflight, validating, rest)
          | _ => none
      | _ => none

/-- One action of one of the threads. -/
def step (self : Threads) (action : Nat × ThreadAction) : Option Threads :=
  match self.threads[action.1]? with
  | some stack =>
      (act crypto engine policy self.inflight self.validating stack action.2).map fun after =>
        ⟨after.1, after.2.1, self.threads.set action.1 after.2.2⟩
  | none => none

/-- A validation that gets the slot checks no records that call for the keys or DS
records the client asked for. -/
def Apart (self : Threads) (action : Nat × ThreadAction) : Prop :=
  match action.2 with
  | .validate subject source now =>
      self.validating = false → ∀ stack ∈ self.threads[action.1]?, ∀ client ∈ clientKey stack,
        client.Plain engine →
          ¬ ChainNeeds crypto (timestampSecs now) source subject.sections.1 subject.sections.2.1
            subject.sections.2.2 client.name client.rrType
  | _ => True

instance (self : Threads) (action : Nat × ThreadAction) :
    Decidable (self.Apart crypto engine action) :=
  match action with
  | (index, .validate subject source now) =>
      inferInstanceAs (Decidable (self.validating = false → ∀ stack ∈ self.threads[index]?,
        ∀ client ∈ clientKey stack, client.Plain engine →
          ¬ ChainNeeds crypto (timestampSecs now) source subject.sections.1 subject.sections.2.1
            subject.sections.2.2 client.name client.rrType))
  | (_, .query _) | (_, .refresh _) | (_, .lookup _) | (_, .found) | (_, .fetch _)
  | (_, .verified) | (_, .publish _) | (_, .mark) | (_, .notify) | (_, .release _) | (_, .read)
  | (_, .wake) | (_, .receive) => inferInstanceAs (Decidable True)

/-! ## What an action can do -/

/-- The table, the flag and the stack before an action and after it. -/
inductive Acts (inflight : QueryInflight) (validating : Bool) :
    List Frame → ThreadAction → QueryInflight → Bool → List Frame → Prop where
  | queries (key : QueryKey) :
      Acts inflight validating [] (.query key) (inflight.claim key) validating
        [claimed inflight key]
  | refreshes (key : QueryKey) :
      Acts inflight validating [] (.refresh key) inflight validating [.looking key]
  | looks (stack : List Frame) (key outer : QueryKey)
      (resolving : stack.head?.bind Frame.resolves = some outer) :
      Acts inflight validating stack (.lookup key) inflight validating (.looking key :: stack)
  | finds (key : QueryKey) (rest : List Frame) :
      Acts inflight validating (.looking key :: rest) .found inflight validating rest
  | skips (stack : List Frame) (subject : Validated) (source : KeySource) (now : Ts) :
      Acts inflight validating stack (.validate subject source now) inflight validating stack
  | enters (stack : List Frame) (outer : QueryKey) (subject : Validated) (source : KeySource)
      (now : Ts) (resolving : stack.head?.bind Frame.resolves = some outer)
      (free : validating = false) :
      Acts inflight validating stack (.validate subject source now) inflight true
        (.validating (fetches crypto subject source now) :: stack)
  | passes (key : QueryKey) (pending : List (Name × RrType)) (rest : List Frame)
      (plain : key.Plain engine) :
      Acts inflight validating (.validating ((key.name, key.rrType) :: pending) :: rest)
        (.fetch key) inflight validating (.validating pending :: rest)
  | calls (key : QueryKey) (pending : List (Name × RrType)) (rest : List Frame)
      (plain : key.Plain engine) :
      Acts inflight validating (.validating ((key.name, key.rrType) :: pending) :: rest)
        (.fetch key) (inflight.claim key) validating
        (claimed inflight key :: .validating pending :: rest)
  | verifies (rest : List Frame) :
      Acts inflight validating (.validating [] :: rest) .verified inflight false rest
  | moves (stack : List Frame) (action : ThreadAction) (silent : action.claims = none)
      (move : InflightAction QueryKey (Except ResolveError Resolution)) {next : QueryInflight}
      (taken : ∀ aborted, inflight.step aborted move = some next) :
      Acts inflight validating stack action next validating stack
  | releases (key : QueryKey) (slot : Nat) (rest : List Frame) (locked : Bool)
      (move : InflightAction QueryKey (Except ResolveError Resolution)) {next : QueryInflight}
      (taken : ∀ aborted, inflight.step aborted move = some next) :
      Acts inflight validating (.owning key slot :: rest) (.release locked) next validating rest
  | receives (key : QueryKey) (slot waiter : Nat) (rest : List Frame) :
      Acts inflight validating (.waiting key slot waiter :: rest) .receive inflight validating rest

variable {crypto engine policy}

theorem act_cases {inflight inflight' : QueryInflight} {validating validating' : Bool}
    {stack stack' : List Frame} {action : ThreadAction}
    (taken : act crypto engine policy inflight validating stack action =
      some (inflight', validating', stack')) :
    Acts crypto engine inflight validating stack action inflight' validating' stack' := by
  cases action with
  | query key =>
      simp only [act] at taken
      split at taken
      · split_ifs at taken
        cases taken
        exact .queries key
      · cases taken
  | refresh key =>
      simp only [act] at taken
      split at taken
      · cases taken
        exact .refreshes key
      · cases taken
  | lookup key =>
      simp only [act] at taken
      split at taken
      · rename_i outer resolving
        split_ifs at taken
        cases taken
        exact .looks stack key outer resolving
      · cases taken
  | found =>
      simp only [act] at taken
      split at taken
      · rename_i key _
        cases taken
        exact .finds key _
      · cases taken
  | validate subject source now =>
      simp only [act] at taken
      split at taken
      · rename_i outer resolving
        split_ifs at taken with validates flag
        · cases taken
          exact .skips stack subject source now
        · cases taken
          exact .enters stack outer subject source now resolving (Bool.eq_false_of_not_eq_true flag)
      · cases taken
  | fetch key =>
      simp only [act] at taken
      split at taken
      · rename_i call pending rest
        split_ifs at taken with called blocked
        · cases taken
          rw [called.1]
          exact .passes key pending rest called.2
        · cases taken
          rw [called.1]
          exact .calls key pending rest called.2
      · cases taken
  | verified =>
      simp only [act] at taken
      split at taken
      · cases taken
        exact .verifies _
      · cases taken
  | publish value =>
      simp only [act] at taken
      split at taken
      · obtain ⟨next, filled, same⟩ := Option.map_eq_some_iff.mp taken
        cases same
        exact .moves _ _ rfl (.publish _ value) fun _ => filled
      · cases taken
  | mark =>
      simp only [act] at taken
      split at taken
      · obtain ⟨next, marked, same⟩ := Option.map_eq_some_iff.mp taken
        cases same
        exact .moves _ _ rfl (.mark _) fun _ => marked
      · cases taken
  | notify =>
      simp only [act] at taken
      split at taken
      · obtain ⟨next, notified, same⟩ := Option.map_eq_some_iff.mp taken
        cases same
        exact .moves _ _ rfl (.notify _) fun _ => notified
      · cases taken
  | release locked =>
      simp only [act] at taken
      split at taken
      · rename_i key slot _
        obtain ⟨next, released, same⟩ := Option.map_eq_some_iff.mp taken
        cases same
        exact .releases key slot _ locked (.release _ locked) fun _ => released
      · cases taken
  | read =>
      simp only [act] at taken
      split at taken
      · obtain ⟨next, read, same⟩ := Option.map_eq_some_iff.mp taken
        cases same
        exact .moves _ _ rfl (.read _) fun _ => read
      · cases taken
  | wake =>
      simp only [act] at taken
      split at taken
      · obtain ⟨next, woken, same⟩ := Option.map_eq_some_iff.mp taken
        cases same
        exact .moves _ _ rfl (.wake _) fun _ => woken
      · cases taken
  | receive =>
      simp only [act] at taken
      split at taken
      · rename_i key slot waiter _
        split at taken
        · cases taken
          exact .receives key slot waiter _
        · cases taken
      · cases taken

end Threads

/-! ## The stack of a thread -/

/-- A call fits on top of the calls that led to it. A claim is made for a client or
by a validation, and of a key that is not owned yet. -/
def Frame.Fits (engine : EngineConfig) (rest : List Frame) : Frame → Prop
  | .owning key _ | .waiting key _ _ =>
      (∀ outer ∈ rest.head?, outer.guarded = true) ∧ key ∉ owned rest
  | .looking _ => ∀ outer ∈ rest.head?, outer.resolves.isSome = true
  | .validating pending =>
      (rest.head?.bind Frame.resolves).isSome = true ∧ (∀ frame ∈ rest, frame.guarded = false) ∧
        ∀ key : QueryKey, key.Plain engine → (key.name, key.rrType) ∈ pending → key ∉ owned rest

/-- Every call of the stack fits on those below it. -/
def Nested (engine : EngineConfig) : List Frame → Prop
  | [] => True
  | frame :: rest => frame.Fits engine rest ∧ Nested engine rest

/-- The slot of a claim was made for its key. -/
def Frame.Keyed (keys : List QueryKey) : Frame → Prop
  | .owning key slot | .waiting key slot _ => keys[slot]? = some key
  | .looking _ | .validating _ => True

theorem Frame.Keyed.mono {frame : Frame} {keys more : List QueryKey} (keyed : frame.Keyed keys)
    (grows : keys <+: more) : frame.Keyed more := by
  obtain ⟨added, rfl⟩ := grows
  have kept {key : QueryKey} {slot : Nat} (located : keys[slot]? = some key) :
      (keys ++ added)[slot]? = some key :=
    (List.getElem?_append_left (List.getElem?_eq_some_iff.mp located).1).trans located
  cases frame with
  | owning key slot => exact kept keyed
  | waiting key slot waiter => exact kept keyed
  | looking key => trivial
  | validating pending => trivial

section Stack

variable {engine : EngineConfig} {frame : Frame} {rest stack : List Frame} {key : QueryKey}

/-- Nobody goes on while it waits. -/
theorem Nested.not_waiting (nested : Nested engine (frame :: rest)) {slot waiter : Nat} :
    .waiting key slot waiter ∉ rest := by
  induction rest generalizing frame with
  | nil => exact List.not_mem_nil
  | cons outer rest inductionHypothesis =>
      intro member
      rcases List.mem_cons.mp member with rfl | below
      · cases frame with
        | owning other owned => cases nested.1.1 _ rfl
        | waiting other awaited place => cases nested.1.1 _ rfl
        | looking other => cases nested.1 _ rfl
        | validating pending => cases nested.1.1
      · exact inductionHypothesis nested.2 below

/-- Without a validation, the only key that is owned is the one of the client. -/
theorem Nested.owned_is_client (nested : Nested engine stack)
    (unguarded : ∀ frame ∈ stack, frame.guarded = false) (member : key ∈ owned stack) :
    clientKey stack = some key := by
  induction stack with
  | nil => cases member
  | cons frame rest inductionHypothesis =>
      have below := inductionHypothesis nested.2 fun frame inside =>
        unguarded frame (List.mem_cons_of_mem _ inside)
      have bottom (topmost : ∀ outer ∈ rest.head?, outer.guarded = true) : rest = [] := by
        cases rest with
        | nil => rfl
        | cons outer rest =>
            have guarded := topmost outer rfl
            rw [unguarded outer (List.mem_cons_of_mem _ List.mem_cons_self)] at guarded
            cases guarded
      cases frame with
      | owning own slot =>
          obtain rfl := bottom nested.1.1
          obtain rfl : key = own := List.mem_singleton.mp member
          rfl
      | waiting own slot waiter =>
          obtain rfl := bottom nested.1.1
          cases member
      | looking other =>
          cases rest with
          | nil => cases member
          | cons outer rest => exact below member
      | validating pending => cases unguarded _ List.mem_cons_self

/-- A thread whose calls fit on each other does not wait on a slot of its own. -/
theorem Nested.not_waitsOnItself {keys : List QueryKey} (nested : Nested engine stack)
    (keyed : ∀ frame ∈ stack, frame.Keyed keys) : ¬ WaitsOnItself stack := by
  rintro ⟨key, slot, waiter, other, waits, owns⟩
  have same : keys[slot]? = some key := keyed _ waits
  have made : keys[slot]? = some other := keyed _ owns
  obtain rfl := Option.some.inj (same.symm.trans made)
  cases stack with
  | nil => cases waits
  | cons frame rest =>
      rcases List.mem_cons.mp waits with rfl | below
      · rcases List.mem_cons.mp owns with impossible | below
        · cases impossible
        · exact nested.1.2 (List.mem_filterMap.mpr ⟨_, below, rfl⟩)
      · exact nested.not_waiting below

end Stack

/-! ## Every run -/

namespace Threads

variable {crypto : Crypto} {engine : EngineConfig} {policy : PolicyConfig}
  {inflight inflight' : QueryInflight} {validating validating' : Bool} {stack stack' : List Frame}
  {action : ThreadAction}

/-- A claim of a key that is not owned fits on what may claim it. -/
theorem claimed_fits {rest : List Frame} {key : QueryKey}
    (claims : ∀ outer ∈ rest.head?, outer.guarded = true) (fresh : key ∉ owned rest) :
    (claimed inflight key).Fits engine rest := by
  unfold claimed
  split
  · split_ifs
    · exact ⟨claims, fresh⟩
    · exact ⟨claims, fresh⟩
  · exact ⟨claims, fresh⟩

theorem claimed_keyed {limit : Nat} (sound : inflight.Sound limit) (key : QueryKey) :
    (claimed inflight key).Keyed (inflight.claim key).slotKeys := by
  have installed (table : Std.TreeMap QueryKey Nat compare) :
      (Inflight.install { inflight with table := table } key).slotKeys[inflight.slots.length]? =
        some key := by
    rw [Inflight.slotKeys, List.getElem?_map]
    change ((inflight.slots ++ [_])[inflight.slots.length]?).map Slot.key = some key
    rw [List.getElem?_concat_length]
    rfl
  unfold claimed Inflight.claim
  cases found : inflight.table[key]? with
  | none => exact installed inflight.table
  | some slot =>
      dsimp only
      split_ifs
      · exact installed _
      · obtain ⟨held, located, rfl⟩ := sound.installed found
        change (inflight.slots.map Slot.key)[slot]? = some held.key
        rw [List.getElem?_map, located]
        rfl

theorem Acts.sound {limit : Nat}
    (acts : Acts crypto engine inflight validating stack action inflight' validating' stack')
    (sound : inflight.Sound limit) : inflight'.Sound limit := by
  cases acts with
  | queries key => exact sound.claim key
  | calls key => exact sound.claim key
  | moves stack action silent move taken => exact sound.step (taken (.error .cnameLoop))
  | releases key slot rest locked move taken => exact sound.step (taken (.error .cnameLoop))
  | _ => exact sound

theorem Acts.slotKeys
    (acts : Acts crypto engine inflight validating stack action inflight' validating' stack') :
    inflight.slotKeys <+: inflight'.slotKeys := by
  cases acts with
  | queries key => exact Inflight.slotKeys_claim key
  | calls key => exact Inflight.slotKeys_claim key
  | moves stack action silent move taken => exact Inflight.slotKeys_step (taken (.error .cnameLoop))
  | releases key slot rest locked move taken =>
      exact Inflight.slotKeys_step (taken (.error .cnameLoop))
  | _ => exact List.prefix_rfl

theorem Acts.keyed {limit : Nat}
    (acts : Acts crypto engine inflight validating stack action inflight' validating' stack')
    (sound : inflight.Sound limit) (keyed : ∀ frame ∈ stack, frame.Keyed inflight.slotKeys) :
    ∀ frame ∈ stack', frame.Keyed inflight'.slotKeys := by
  have grows := acts.slotKeys
  have kept : ∀ frame ∈ stack, frame.Keyed inflight'.slotKeys :=
    fun frame member => (keyed frame member).mono grows
  cases acts with
  | queries key => exact List.forall_mem_singleton.mpr (claimed_keyed sound key)
  | refreshes key => exact List.forall_mem_singleton.mpr trivial
  | looks => exact List.forall_mem_cons.mpr ⟨trivial, kept⟩
  | finds => exact (List.forall_mem_cons.mp kept).2
  | skips => exact kept
  | enters => exact List.forall_mem_cons.mpr ⟨trivial, kept⟩
  | passes => exact List.forall_mem_cons.mpr ⟨trivial, (List.forall_mem_cons.mp kept).2⟩
  | calls key =>
      exact List.forall_mem_cons.mpr ⟨claimed_keyed sound key,
        List.forall_mem_cons.mpr ⟨trivial, (List.forall_mem_cons.mp kept).2⟩⟩
  | verifies => exact (List.forall_mem_cons.mp kept).2
  | moves => exact kept
  | releases => exact (List.forall_mem_cons.mp kept).2
  | receives => exact (List.forall_mem_cons.mp kept).2

/-- The validations of a stack that hold the slot. -/
def guards (stack : List Frame) : Nat := stack.countP Frame.guarded

theorem guards_claimed (key : QueryKey) (rest : List Frame) :
    guards (claimed inflight key :: rest) = guards rest := by
  have unguarded : (claimed inflight key).guarded = false := by
    unfold claimed
    split
    · split_ifs
      · rfl
      · rfl
    · rfl
  exact List.countP_cons_of_neg (by rw [unguarded]; exact Bool.false_ne_true)

theorem guards_validating (pending : List (Name × RrType)) (rest : List Frame) :
    guards (.validating pending :: rest) = guards rest + 1 :=
  List.countP_cons_of_pos rfl

/-- The flag follows the validations of the stack. -/
theorem Acts.flag
    (acts : Acts crypto engine inflight validating stack action inflight' validating' stack')
    (flagged : guards stack ≤ validating.toNat) :
    guards stack' + validating.toNat = guards stack + validating'.toNat := by
  cases acts with
  | queries key => rw [guards_claimed]
  | calls key pending rest => rw [guards_claimed, guards_validating, guards_validating]
  | enters stack outer subject source now resolving free =>
      rw [guards_validating, free]
      rfl
  | passes key pending rest => rw [guards_validating, guards_validating]
  | verifies rest =>
      rw [guards_validating] at flagged ⊢
      cases validating with
      | true => rfl
      | false => exact absurd flagged (Nat.not_succ_le_zero _)
  | _ => rfl

/-- Calls that fit on each other are kept so, as far as validations keep apart. -/
theorem Acts.nested
    (acts : Acts crypto engine inflight validating stack action inflight' validating' stack')
    (nested : Nested engine stack) (flagged : guards stack ≤ validating.toNat)
    (apart : ∀ subject source now, action = .validate subject source now → validating = false →
      ∀ client ∈ clientKey stack, client.Plain engine →
        ¬ (client.name, client.rrType) ∈ fetches crypto subject source now) :
    Nested engine stack' := by
  cases acts with
  | queries key => exact ⟨claimed_fits nofun List.not_mem_nil, trivial⟩
  | refreshes key => exact ⟨nofun, trivial⟩
  | looks stack key outer resolving =>
      refine ⟨?_, nested⟩
      intro inner topmost
      rw [Option.mem_def.mp topmost, Option.bind_some] at resolving
      rw [resolving]
      rfl
  | finds => exact nested.2
  | skips => exact nested
  | enters stack outer subject source now resolving free =>
      rw [free] at flagged
      have unguarded : ∀ frame ∈ stack, frame.guarded = false := fun frame member =>
        Bool.eq_false_of_not_eq_true
          (List.countP_eq_zero.mp (Nat.le_zero.mp flagged) frame member)
      refine ⟨⟨by rw [resolving]; rfl, unguarded, ?_⟩, nested⟩
      intro key plain called owns
      exact apart subject source now rfl free key (nested.owned_is_client unguarded owns) plain called
  | passes key pending rest =>
      obtain ⟨⟨resolving, unguarded, fresh⟩, below⟩ := nested
      exact ⟨⟨resolving, unguarded, fun key plain called =>
        fresh key plain (List.mem_cons_of_mem _ called)⟩, below⟩
  | calls key pending rest plain =>
      obtain ⟨⟨resolving, unguarded, fresh⟩, below⟩ := nested
      refine ⟨claimed_fits ?_ (fresh key plain List.mem_cons_self), ⟨resolving, unguarded, ?_⟩, below⟩
      · rintro outer ⟨⟩
        rfl
      · exact fun key plain called => fresh key plain (List.mem_cons_of_mem _ called)
  | verifies => exact nested.2
  | moves => exact nested
  | releases => exact nested.2
  | receives => exact nested.2

/-- The key that a thread claims next is not one it owns. -/
theorem Acts.claims_fresh
    (acts : Acts crypto engine inflight validating stack action inflight' validating' stack')
    (nested : Nested engine stack) {key : QueryKey} (claims : action.claims = some key) :
    key ∉ owned stack := by
  cases acts with
  | queries => exact List.not_mem_nil
  | passes other pending rest plain =>
      obtain rfl := Option.some.inj claims
      exact nested.1.2.2 other plain List.mem_cons_self
  | calls other pending rest plain =>
      obtain rfl := Option.some.inj claims
      exact nested.1.2.2 other plain List.mem_cons_self
  | moves _ _ silent =>
      rw [silent] at claims
      cases claims
  | _ => cases claims

/-- The calls of every thread fit on each other and on the table, and the flag is
set exactly while one of them is a validation that holds the slot. -/
structure Disciplined (engine : EngineConfig) (limit : Nat) (state : Threads) : Prop where
  sound : state.inflight.Sound limit
  nested : ∀ stack ∈ state.threads, Nested engine stack
  keyed : ∀ stack ∈ state.threads, ∀ frame ∈ stack, frame.Keyed state.inflight.slotKeys
  flag : guards state.threads.flatten = state.validating.toNat

theorem disciplined_new (engine : EngineConfig) (max count : Nat) :
    (new max count).Disciplined engine (Nat.max max 1) where
  sound := Inflight.sound_new max
  nested stack member := by
    rw [List.eq_of_mem_replicate member]
    trivial
  keyed stack member frame inside := by
    rw [List.eq_of_mem_replicate member] at inside
    cases inside
  flag := by
    change guards (List.replicate count []).flatten = 0
    rw [List.flatten_replicate_nil]
    rfl

variable {limit : Nat} {state next : Threads} {index : Nat}

/-- One of the threads acts on the table, the flag and its own stack. -/
theorem step_cases (taken : state.step crypto engine policy (index, action) = some next) :
    ∃ before stack after stack', state.threads[index]? = some stack ∧
      state.threads = before ++ stack :: after ∧ next.threads = before ++ stack' :: after ∧
      Acts crypto engine state.inflight state.validating stack action next.inflight next.validating
        stack' := by
  unfold step at taken
  split at taken
  · rename_i stack found
    obtain ⟨⟨inflight, validating, stack'⟩, acted, rfl⟩ := Option.map_eq_some_iff.mp taken
    obtain ⟨before, after, listed, replaced, _⟩ := exists_focus found
    exact ⟨before, stack, after, stack', found, listed, replaced stack', act_cases acted⟩
  · cases taken

theorem guards_focus (before after : List (List Frame)) (stack : List Frame) :
    guards (before ++ stack :: after).flatten =
      guards before.flatten + guards stack + guards after.flatten := by
  rw [List.flatten_append, List.flatten_cons, guards, List.countP_append, List.countP_append,
    Nat.add_assoc]
  rfl

theorem Disciplined.step (disciplined : state.Disciplined engine limit)
    (apart : Apart crypto engine state (index, action))
    (taken : state.step crypto engine policy (index, action) = some next) :
    next.Disciplined engine limit := by
  obtain ⟨before, stack, after, stack', found, listed, replaced, acts⟩ := step_cases taken
  have others : ∀ other ∈ before ++ after, other ∈ state.threads := by
    intro other member
    rw [listed]
    exact mem_focus.mpr (.inr member)
  have own : stack ∈ state.threads := List.mem_of_getElem? found
  have total := disciplined.flag
  rw [listed, guards_focus] at total
  have flagged : guards stack ≤ state.validating.toNat := by omega
  refine ⟨acts.sound disciplined.sound, ?_, ?_, ?_⟩
  · rw [replaced]
    intro other member
    rcases mem_focus.mp member with rfl | elsewhere
    · refine acts.nested (disciplined.nested stack own) flagged ?_
      rintro subject source now rfl free client asked plain called
      exact apart free stack found client asked plain (mem_chainFetches_iff.mp called)
    · exact disciplined.nested other (others other elsewhere)
  · rw [replaced]
    intro other member
    rcases mem_focus.mp member with rfl | elsewhere
    · exact acts.keyed disciplined.sound (disciplined.keyed stack own)
    · exact fun frame inside =>
        (disciplined.keyed other (others other elsewhere) frame inside).mono acts.slotKeys
  · have moved := acts.flag flagged
    rw [replaced, guards_focus]
    omega

/-- In every run whose validations keep apart from what their client asked for, no
thread claims a key whose slot it owns, and none waits on a slot of its own. -/
theorem no_self_wait (crypto : Crypto) (engine : EngineConfig) (policy : PolicyConfig)
    (max count : Nat) {actions : List (Nat × ThreadAction)} {state : Threads}
    (runs : Runs (step crypto engine policy) (Apart crypto engine) (new max count) actions state) :
    (∀ (index : Nat) (action : ThreadAction) (stack : List Frame) (key : QueryKey),
      (state.step crypto engine policy (index, action)).isSome = true →
      state.threads[index]? = some stack → action.claims = some key → key ∉ owned stack) ∧
    ∀ stack ∈ state.threads, ¬ WaitsOnItself stack := by
  have disciplined : state.Disciplined engine (Nat.max max 1) :=
    runs.invariant (fun disciplined apart taken => disciplined.step apart taken)
      (disciplined_new engine max count)
  refine ⟨?_, ?_⟩
  · intro index action stack key possible found claims
    obtain ⟨next, taken⟩ := Option.isSome_iff_exists.mp possible
    obtain ⟨_, own, _, _, located, _, _, acts⟩ := step_cases taken
    obtain rfl := Option.some.inj (located.symm.trans found)
    exact acts.claims_fresh (disciplined.nested own (List.mem_of_getElem? found)) claims
  · exact fun stack member =>
      (disciplined.nested stack member).not_waitsOnItself (disciplined.keyed stack member)

end Threads

/-- A client that asks for the address of `www.com`, and for DNSSEC. -/
def wwwDnssecQuery : QueryKey := { wwwQuery none with wantDnssec := true }

/-- A query for the keys or the DS records of `com`. -/
def comQuery (rrType : RrType) : QueryKey :=
  ⟨⟨[3, 99, 111, 109, 0]⟩, rrType, .IN, none, true, false,
    Name.canonical_of_fromWire [3, 99, 111, 109, 0] (by decide)⟩

/-- The address is signed by `com`; its keys are resolved. -/
def signedAddressActions : List (Nat × ThreadAction) :=
  [(0, .query wwwDnssecQuery),
    (0, .validate (.message signedAddress.message) (.constant keyedValidation.fetch)
      keyedValidation.now),
    (0, .fetch (comQuery .DNSKEY)), (0, .publish (.error .emptyResponse)), (0, .mark), (0, .notify),
    (0, .release true)]

/-- The DS records of `com` come next; they are not those of the address. -/
theorem signed_address_claims_fresh :
    ∃ state stack,
      Runs (Threads.step plainCrypto validatingEngine ⟨[]⟩)
        (Threads.Apart plainCrypto validatingEngine) (.new 4 1) signedAddressActions state ∧
      state.threads[0]? = some stack ∧ owned stack = [wwwDnssecQuery] ∧
      comQuery .DS ∉ owned stack ∧ ¬ WaitsOnItself stack := by
  have computed : (runActions (Threads.step plainCrypto validatingEngine ⟨[]⟩)
      (Threads.Apart plainCrypto validatingEngine) (.new 4 1) signedAddressActions).bind
        (fun state => (state.threads[0]?).bind fun stack =>
          if (state.step plainCrypto validatingEngine ⟨[]⟩ (0, .fetch (comQuery .DS))).isSome then
            some (owned stack) else none) = some [wwwDnssecQuery] := by
    decide +kernel
  obtain ⟨state, ran, seen⟩ := Option.bind_eq_some_iff.mp computed
  obtain ⟨stack, found, owns⟩ := Option.bind_eq_some_iff.mp seen
  split_ifs at owns with possible
  have runs := runs_of_runActions ran
  obtain ⟨fresh, awake⟩ := Threads.no_self_wait plainCrypto validatingEngine ⟨[]⟩ 4 1 runs
  exact ⟨state, stack, runs, found, Option.some.inj owns, fresh 0 _ stack _ possible found rfl,
    awake stack (List.mem_of_getElem? found)⟩

/-- The keys of `com`, signed with one of them. -/
def comKeys : Resolution where
  name := ⟨[3, 99, 111, 109, 0]⟩
  rrType := .DNSKEY
  rrClass := .IN
  rcode := .NOERROR
  answers := [⟨zoneKey ⟨[3, 99, 111, 109, 0]⟩, .answer, some 0⟩]
  authorities := []
  rrsigs := [⟨⟨⟨[3, 99, 111, 109, 0]⟩, .RRSIG, .IN, 3600,
    .rrsig .DNSKEY .RSASHA256 1 3600 100 0 1288 ⟨[3, 99, 111, 109, 0]⟩
      [0, 48, 8, 1, 0, 0, 14, 16, 0, 0, 0, 100, 0, 0, 0, 0, 5, 8, 3, 99, 111, 109, 0,
        3, 99, 111, 109, 0, 0, 48, 0, 1]⟩, .rrsig, some 0⟩]
  validated := false
  ttl := 3600
  fromCache := false
  stale := false
  ecsScope := none
  servedAt := 0

/-- A client asks for the keys of `com`. -/
def comKeysActions : List (Nat × ThreadAction) :=
  [(0, .query (comQuery .DNSKEY)),
    (0, .validate (.resolution comKeys) (.constant keyedValidation.fetch) keyedValidation.now)]

/-- To validate them the thread resolves the keys of `com`, which it is about to
resolve already: it waits on its own slot. -/
theorem key_query_waits_on_itself :
    ∃ state next stack,
      Runs (Threads.step plainCrypto validatingEngine ⟨[]⟩) (fun _ _ => True) (.new 4 1)
        comKeysActions state ∧
      state.step plainCrypto validatingEngine ⟨[]⟩ (0, .fetch (comQuery .DNSKEY)) = some next ∧
      state.threads[0]? = some stack ∧ comQuery .DNSKEY ∈ owned stack ∧
      ∃ waiting ∈ next.threads, WaitsOnItself waiting := by
  have computed : (runActions (Threads.step plainCrypto validatingEngine ⟨[]⟩) (fun _ _ => True)
      (.new 4 1) comKeysActions).bind (fun state => (state.threads[0]?).bind fun stack =>
        (state.step plainCrypto validatingEngine ⟨[]⟩ (0, .fetch (comQuery .DNSKEY))).map
          fun next => (owned stack, next.threads)) =
      some ([comQuery .DNSKEY], [[.waiting (comQuery .DNSKEY) 0 0,
        .validating [(⟨[3, 99, 111, 109, 0]⟩, .DS)], .owning (comQuery .DNSKEY) 0]]) := by
    decide +kernel
  obtain ⟨state, ran, seen⟩ := Option.bind_eq_some_iff.mp computed
  obtain ⟨stack, found, after⟩ := Option.bind_eq_some_iff.mp seen
  obtain ⟨next, taken, same⟩ := Option.map_eq_some_iff.mp after
  obtain ⟨owns, waits⟩ := Prod.mk.inj same
  have resolving : comQuery .DNSKEY ∈ owned stack := owns ▸ List.mem_singleton_self _
  have member : _ ∈ next.threads := waits ▸ List.mem_singleton_self _
  exact ⟨state, next, stack, runs_of_runActions ran, taken, found, resolving, _, member,
    comQuery .DNSKEY, 0, 0, comQuery .DNSKEY, by simp, by simp⟩

end RecurseX
