import RecurseX.Doq.Operations
import RecurseX.Doq.Plain

/-!
# Encryption levels

The handshake messages of two packet-number spaces are fed to one TLS state
machine, which does not ask where they come from. The ServerHello belongs to the
Initial space, whose keys anyone can derive, and everything after it to the
Handshake space.
-/

namespace RecurseX.Doq

open Library Wire Stateful QuicConnection

/-- Whether a handshake message is a ServerHello. -/
def isServerHello (msg : Bytes) : Bool := msg.head? == some HsType.SERVER_HELLO

/-- The space a handshake message of the server belongs to. -/
def levelOf (msg : Bytes) : Space := if isServerHello msg then .initial else .handshake

variable {PacketKey RootStore : Type}

/-- A ServerHello was accepted. -/
def Event.greets : Event PacketKey → Bool
  | .accepted _ msg => isServerHello msg
  | _ => false

/-- A handshake message was complete in the Initial space, or a Retry was taken. -/
def Event.reopens : Event PacketKey → Bool
  | .completed .initial _ => true
  | .retried .. => true
  | _ => false

/-- Once a ServerHello is accepted, no message is complete in the Initial space
any more, and no Retry is taken. -/
def Orderly (log : List (Event PacketKey)) : Prop :=
  log.Pairwise fun earlier later => earlier.greets = true → later.reopens = false

instance (log : List (Event PacketKey)) : Decidable (Orderly log) :=
  inferInstanceAs (Decidable (List.Pairwise _ _))

/-- Every accepted message came in the space it belongs to. -/
def Levelled (log : List (Event PacketKey)) : Prop :=
  ∀ space msg, Event.accepted space msg ∈ log → space = levelOf msg

/-! ## What feeding tells -/

section Feeding

variable {crypto : Crypto RootStore} {varint : Varint} {tls after : ClientHandshake RootStore}
variable {msg : Bytes}

theorem splitMessage_head {msgType : UInt8} {body : Bytes}
    (split : ClientHandshake.splitMessage msg = .ok (msgType, body)) :
    msg.head? = some msgType := by
  unfold ClientHandshake.splitMessage at split
  simp only [bind_eq_ok] at split
  obtain ⟨_, -, first, read, _, -, _, -, _, -, _, -, _, -, done⟩ := split
  cases done
  rw [List.head?_eq_getElem?]
  exact byteAt_eq_ok.mp read

/-- The first accepted message is the ServerHello, and only the first. -/
theorem feed_greets {result : Option Completed}
    (fed : ClientHandshake.feed crypto varint msg tls = (.ok result, after)) :
    isServerHello msg = !tls.sawServerHello ∧ after.sawServerHello = true := by
  have other : ∀ {msgType : UInt8} {body : Bytes}, msgType ≠ HsType.SERVER_HELLO →
      ClientHandshake.splitMessage msg = .ok (msgType, body) → tls.sawServerHello = true →
      isServerHello msg = !tls.sawServerHello := by
    intro msgType body different split saw
    rw [saw, isServerHello, splitMessage_head split]
    simpa using different
  cases ClientHandshake.feed_accepts fed with
  | serverHello split first selected =>
      refine ⟨?_, rfl⟩
      rw [first, isServerHello, splitMessage_head split]
      rfl
  | encryptedExtensions split saw => exact ⟨other (by decide) split saw, saw⟩
  | certificate split saw => exact ⟨other (by decide) split saw, saw⟩
  | certificateVerify split saw => exact ⟨other (by decide) split saw, saw⟩
  | finished split saw => exact ⟨other (by decide) split saw, saw⟩

/-- What a handshake knows of the ServerHello. -/
def greeting (tls : ClientHandshake RootStore) : Bool × Option Bytes :=
  (tls.sawServerHello, tls.sHs)

theorem feedFinished_greeting {body : Bytes} :
    Moves (Keeps greeting) (Keeps greeting) (ClientHandshake.feedFinished crypto msg body) tls := by
  have rules := keeps_sequential (@greeting RootStore)
  refine Sequential.read_bind ?_
  split_ifs
  · exact rules.fail
  · refine rules.lift_bind fun _ _ => rules.update_bind rfl (rules.bind ?_ fun _ middle _ _ => ?_)
    · refine Sequential.read_bind ?_
      split
      · exact rules.fail
      · split
        · exact rules.fail
        · dsimp only
          split
          · exact rules.fail
          · exact rules.update_bind rfl rules.pure
    · refine rules.update_bind rfl ?_
      split
      · exact rules.fail
      · exact rules.pure

/-- A refused message leaves that as it is. -/
theorem feed_refused_greeting {error : Error}
    (fed : ClientHandshake.feed crypto varint msg tls = (.error error, after)) :
    greeting after = greeting tls := by
  unfold ClientHandshake.feed at fed
  rcases lift_bind_eq_error_iff.mp fed with ⟨-, same⟩ | ⟨⟨msgType, body⟩, -, fed⟩
  · rw [same]
  · dsimp only at fed
    rw [read_bind_run] at fed
    split_ifs at fed
    · rcases bind_eq_error_iff.mp fed with refused | ⟨_, middle, parsed, fed⟩
      · rw [ClientHandshake.parseServerHello_refused refused]
      · obtain ⟨suite, share, -, rfl⟩ := ClientHandshake.parseServerHello_ok parsed
        rw [ClientHandshake.record, update_bind_run,
          bind_of_ok (ClientHandshake.deriveHandshakeSecrets_run rfl)] at fed
        cases fed
    · rcases bind_eq_error_iff.mp fed with refused | ⟨_, middle, _, fed⟩
      · rw [ClientHandshake.feedFlight_refused refused]
      · cases fed
    · rcases bind_eq_error_iff.mp fed with refused | ⟨_, middle, _, fed⟩
      · exact feedFinished_greeting.keeps refused
      · cases fed
    · cases fed
      rfl

end Feeding

/-! ## The invariant -/

/-- What the log and the state tell of each other. -/
structure Levels (ledger : Ledger PacketKey RootStore) : Prop where
  levelled : Levelled ledger.log
  seen : ledger.tls.sawServerHello = true ↔ ∃ event ∈ ledger.log, event.greets = true
  flight : ledger.hsRead.isSome = true → ∃ event ∈ ledger.log, event.greets = true
  derived : ledger.tls.sHs.isSome = true → ledger.tls.sawServerHello = true

/-- As long as the run is orderly, messages come in their spaces. -/
def Guarded (ledger : Ledger PacketKey RootStore) : Prop := Orderly ledger.log → Levels ledger

section Invariant

variable {codec : Codec PacketKey} {crypto : Crypto RootStore}
variable {before after : Ledger PacketKey RootStore}

/-- Events that are no accepted messages change nothing. -/
theorem Guarded.grow (guarded : Guarded before) {extra : List (Event PacketKey)}
    (grown : after.log = before.log ++ extra)
    (silent : ∀ event ∈ extra, ∀ space msg, event ≠ .accepted space msg)
    (greeted : greeting after.tls = greeting before.tls) (read : after.hsRead = before.hsRead) :
    Guarded after := by
  intro orderly
  rw [Orderly, grown, List.pairwise_append] at orderly
  have levels := guarded orderly.1
  have unseen : ∀ event ∈ extra, event.greets = false := by
    intro event member
    cases event with
    | accepted space msg => exact absurd rfl (silent _ member space msg)
    | handed | sent | received | completed | retried => rfl
  have greets : (∃ event ∈ after.log, event.greets = true) ↔
      ∃ event ∈ before.log, event.greets = true := by
    rw [grown]
    constructor
    · rintro ⟨event, member, greets⟩
      rcases List.mem_append.mp member with old | new
      · exact ⟨event, old, greets⟩
      · cases greets.symm.trans (unseen event new)
    · rintro ⟨event, member, greets⟩
      exact ⟨event, List.mem_append_left _ member, greets⟩
  have saw : after.tls.sawServerHello = before.tls.sawServerHello := congrArg Prod.fst greeted
  have sHs : after.tls.sHs = before.tls.sHs := congrArg Prod.snd greeted
  refine ⟨fun space msg member => ?_, ?_, ?_, ?_⟩
  · rw [grown] at member
    rcases List.mem_append.mp member with old | new
    · exact levels.levelled space msg old
    · exact absurd rfl (silent _ new space msg)
  · rw [saw, greets]
    exact levels.seen
  · rw [read, greets]
    exact levels.flight
  · rw [sHs, saw]
    exact levels.derived

/-- An accepted message: before the ServerHello the flight cannot be read, and
after it nothing is complete in the Initial space. -/
theorem Guarded.accept (guarded : Guarded before) {space : Space} {msg : Bytes}
    {result : Option Completed} {tls : ClientHandshake RootStore} (level : space ≠ .application)
    (readable : space = .handshake → before.hsRead.isSome = true)
    (fed : ClientHandshake.feed crypto codec.varint msg before.tls = (.ok result, tls)) :
    Guarded { (before.note (.completed space msg)).note (.accepted space msg) with tls := tls } := by
  intro orderly
  have split : ((before.note (.completed space msg)).note (.accepted space msg)).log =
      before.log ++ [.completed space msg, .accepted space msg] := by simp [Ledger.note]
  rw [Orderly, show ({ (before.note (.completed space msg)).note (.accepted space msg) with
    tls := tls } : Ledger PacketKey RootStore).log = _ from split, List.pairwise_append] at orderly
  have levels := guarded orderly.1
  obtain ⟨kind, saw⟩ := feed_greets fed
  have here : space = levelOf msg := by
    rw [levelOf, kind]
    cases seen : before.tls.sawServerHello with
    | false =>
        -- The flight is read with a key that only a ServerHello gives.
        cases space with
        | initial => rfl
        | handshake =>
            cases seen.symm.trans (levels.seen.mpr (levels.flight (readable rfl)))
        | application => exact absurd rfl level
    | true =>
        cases space with
        | initial =>
            obtain ⟨event, member, greets⟩ := levels.seen.mp seen
            have calm := orderly.2.2 event member (.completed .initial msg) (by simp) greets
            cases calm
        | handshake => rfl
        | application => exact absurd rfl level
  have greets : ∃ event ∈ before.log ++ [.completed space msg, .accepted space msg],
      event.greets = true := by
    cases seen : before.tls.sawServerHello with
    | false =>
        exact ⟨.accepted space msg, by simp, by rw [Event.greets, kind, seen]; rfl⟩
    | true =>
        obtain ⟨event, member, greets⟩ := levels.seen.mp seen
        exact ⟨event, List.mem_append_left _ member, greets⟩
  refine ⟨fun other accepted member => ?_, ?_, fun _ => split ▸ greets, fun _ => saw⟩
  · rw [show _ = _ from split] at member
    rcases List.mem_append.mp member with old | new
    · exact levels.levelled other accepted old
    · simp only [List.mem_cons, reduceCtorEq, Event.accepted.injEq, List.not_mem_nil, or_false,
        false_or] at new
      obtain ⟨rfl, rfl⟩ := new
      exact here
  · exact ⟨fun _ => split ▸ greets, fun _ => saw⟩

/-- A Retry: no ServerHello was accepted, and the fresh handshake has seen none. -/
theorem Guarded.retry (guarded : Guarded before) {old new : PacketKey}
    {tls : ClientHandshake RootStore} (grown : after.log = before.log ++ [.retried old new])
    (restarted : after.tls = tls) (unseen : greeting tls = (false, none))
    (read : after.hsRead = before.hsRead) : Guarded after := by
  intro orderly
  have ordered := orderly
  rw [Orderly, grown, List.pairwise_append] at ordered
  have levels := guarded ordered.1
  have none : ¬ ∃ event ∈ before.log, event.greets = true := by
    rintro ⟨event, member, greets⟩
    cases ordered.2.2 event member (.retried old new) (by simp) greets
  have saw : after.tls.sawServerHello = false := by
    rw [restarted]
    exact congrArg Prod.fst unseen
  have sHs : after.tls.sHs = .none := by
    rw [restarted]
    exact congrArg Prod.snd unseen
  have greets : ¬ ∃ event ∈ after.log, event.greets = true := by
    rintro ⟨event, member, greets⟩
    rw [grown] at member
    rcases List.mem_append.mp member with old | new
    · exact none ⟨event, old, greets⟩
    · obtain rfl := List.mem_singleton.mp new
      cases greets
  refine ⟨fun space msg member => ?_, by simp [saw, greets], fun some => ?_, by simp [sHs]⟩
  · rw [grown] at member
    exact levels.levelled space msg (by simpa using member)
  · rw [read] at some
    exact absurd (levels.flight some) none

theorem Guarded.step (step : Ledger.Step codec crypto before after) (guarded : Guarded before) :
    Guarded after := by
  cases step with
  | received | acked | answered | dropped => exact guarded.grow rfl (by simp) rfl rfl
  | sent => exact guarded.grow rfl (by simp) rfl rfl
  | keyed | confirmed => exact guarded.grow (List.append_nil _).symm (by simp) rfl rfl
  | accepted space msg level readable fed => exact guarded.accept level readable fed
  | readable hsRead derived =>
      intro orderly
      have levels := guarded orderly
      exact ⟨levels.levelled, levels.seen, fun _ => levels.seen.mp (levels.derived derived),
        levels.derived⟩
  | retried => exact guarded.retry rfl rfl rfl rfl

theorem Guarded.fault (fault : Ledger.Fault codec crypto before after) (guarded : Guarded before) :
    Guarded after := by
  cases fault with
  | stopped => exact guarded
  | unsent | unplaced => exact guarded.grow rfl (by simp) rfl rfl
  | refused space msg fed => exact guarded.grow rfl (by simp) (feed_refused_greeting fed) rfl
  | unkeyed => exact guarded.grow (List.append_nil _).symm (by simp) rfl rfl

end Invariant

/-! ## Runs -/

section Runs

variable {codec : Codec PacketKey} {crypto : Crypto RootStore} {env : Env}
variable {conn : QuicConnection PacketKey RootStore}

theorem sendPacket_guarded {space : Space} {frames : List Frame} {padInitial : Bool} :
    Moves (Preserves (@Guarded PacketKey RootStore)) (Preserves Guarded)
      (sendPacket codec env space frames padInitial) conn := by
  constructor
  · intro _ after ran guarded
    obtain ⟨key, -, -, rfl⟩ | ⟨error, failed, -⟩ := Ledger.sendPacket_cases ran
    · rw [Ledger.afterSend_ledger]
      exact guarded.grow rfl (by simp) rfl rfl
    · cases failed
  · intro error after ran guarded
    obtain ⟨key, done, -⟩ | ⟨error, -, rfl⟩ := Ledger.sendPacket_cases ran
    · cases done
    · exact guarded.grow rfl (by simp) rfl rfl

/-- Every operation keeps the messages in their spaces. -/
theorem act_guarded (op : Op) {outcome : Except Error Unit}
    {after : QuicConnection PacketKey RootStore} (guarded : Guarded conn.ledger)
    (ran : op.act codec crypto conn = (outcome, after)) : Guarded after.ledger := by
  have rules := preserves_sequential (@Guarded PacketKey RootStore)
  cases op with
  | datagram | heard | flushAcks | close =>
      exact (Ledger.Goes.preserves Guarded.step Guarded.fault (act_goes rfl)).all ran guarded
  | openStream query =>
      rcases openStream_cases ran with ⟨-, rfl⟩ | ⟨-, -, rfl⟩
      · exact guarded
      · exact guarded.grow (List.append_nil _).symm (by simp) rfl rfl
  | runPto env =>
      rcases runPto_cases ran with same | ran
      · rwa [same]
      · have start : Guarded (probing conn).ledger :=
          guarded.grow (List.append_nil _).symm (by simp) rfl rfl
        exact (rules.each fun packet _ state => sendPacket_guarded).all ran start
  | flushQuery env =>
      rcases flushQuerySend_cases ran with rfl | ⟨query, chunks, total, -, -, -, -, ran⟩
      · exact guarded
      · have start : Guarded (advancing conn query chunks total).ledger :=
          guarded.grow (List.append_nil _).symm (by simp) rfl rfl
        exact (rules.each fun chunk _ state => sendPacket_guarded).all ran start

/-- A connection that was just set up is guarded. -/
theorem fresh_guarded {cfg : ClientConfig RootStore} {entropy : Entropy}
    {localCid serverCid hello : Bytes}
    (opened : QuicConnection.fresh codec cfg entropy localCid serverCid = .ok (hello, conn)) :
    Guarded conn.ledger := by
  obtain ⟨key, cfg, started⟩ := fresh_ledger opened
  rw [started]
  refine fun _ => ⟨(fun _ _ member => by cases member), ?_, ?_, ?_⟩
  · exact ⟨(fun saw => by cases saw), fun greets => by simp [Ledger.start] at greets⟩
  · exact fun read => by cases read
  · exact fun derived => by cases derived

/-- In every run in which the Initial space is quiet once the ServerHello is
accepted, every message that is accepted came in the space it belongs to. -/
theorem accepted_at_level (codec : Codec PacketKey) (crypto : Crypto RootStore)
    (cfg : ClientConfig RootStore) (env : Env) (localCid serverCid hello : Bytes)
    (conn : QuicConnection PacketKey RootStore) (ops : List Op)
    (opened : QuicConnection.fresh codec cfg env.entropy localCid serverCid = .ok (hello, conn))
    (orderly : Orderly (operate codec crypto ops (greet codec env hello conn).2).log)
    (space : Space) (msg : Bytes)
    (accepted : .accepted space msg ∈
      (operate codec crypto ops (greet codec env hello conn).2).log) :
    space = levelOf msg := by
  have rules := preserves_sequential (@Guarded PacketKey RootStore)
  have greeted : Moves (Preserves Guarded) (Preserves Guarded) (greet codec env hello) conn :=
    rules.bind sendPacket_guarded fun _ _ _ _ => Sequential.update id
  have start := greeted.all (run_eq rfl) (fresh_guarded opened)
  have guarded : Guarded (operate codec crypto ops (greet codec env hello conn).2).ledger :=
    operate_invariant (fun guarded ran => act_guarded _ guarded ran) start
  exact (guarded orderly).levelled space msg accepted

end Runs

/-- The EncryptedExtensions in a Handshake packet. -/
theorem flight_at_level :
    .accepted .handshake Sample.encryptedExtensions ∈
      (operate Plain.codec Sample.crypto [.datagram Plain.env Plain.serverHello,
        .datagram Plain.env (Plain.longPacket .handshake [1] [9] 0 (List.replicate 32 205)
          [.crypto 0 Sample.encryptedExtensions])] Plain.started).log ∧
    Space.handshake = levelOf Sample.encryptedExtensions := by
  have accepted : .accepted .handshake Sample.encryptedExtensions ∈
      (operate Plain.codec Sample.crypto [.datagram Plain.env Plain.serverHello,
        .datagram Plain.env (Plain.longPacket .handshake [1] [9] 0 (List.replicate 32 205)
          [.crypto 0 Sample.encryptedExtensions])] Plain.started).log := by decide +kernel
  exact ⟨accepted, accepted_at_level Plain.codec Sample.crypto Sample.cfg Plain.env [1] [2]
    Plain.hello Plain.connection _ Plain.fresh_connection (by decide +kernel) _ _ accepted⟩

/-- The EncryptedExtensions are accepted in an Initial packet as well, which anyone can send. -/
theorem extensions_accepted_in_initial :
    QuicConnection.fresh Plain.codec Sample.cfg Plain.env.entropy [1] [2] =
      .ok (Plain.hello, Plain.connection) ∧
    .accepted .initial Sample.encryptedExtensions ∈
      (operate Plain.codec Sample.crypto [.datagram Plain.env Plain.serverHello,
        .datagram Plain.env (Plain.longPacket .initial [1] [9] 1 [1, 2]
          [.crypto 90 Sample.encryptedExtensions])] Plain.started).log ∧
    levelOf Sample.encryptedExtensions = .handshake :=
  ⟨Plain.fresh_connection, by decide +kernel, by decide⟩

end RecurseX.Doq
