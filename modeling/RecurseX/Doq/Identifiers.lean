import RecurseX.Doq.Changes
import RecurseX.Doq.Plain

/-!
# Authenticating connection identifiers

The identifiers of a connection are learnt one after the other: the first is chosen with the
connection, one comes with a Retry, one with the first long header of the server. The server's
transport parameters are compared with them when its Finished was verified.
-/

namespace RecurseX.Doq

open Library Wire Stateful QuicConnection

variable {PacketKey RootStore : Type}

/-! ## What a run tells about the server -/

section History

variable (codec : Codec PacketKey) (crypto : Crypto RootStore)

/-- At some turn of the run this happens. -/
def Happens (conn : QuicConnection PacketKey RootStore) (turns : List Turn)
    (event : QuicConnection PacketKey RootStore → Turn → Prop) : Prop :=
  ∃ earlier turn later, turns = earlier ++ turn :: later ∧
    event (turnAll codec crypto earlier conn) turn

/-- A packet with a long header that the connection opens, from this identifier. -/
def Authenticates (scid : Bytes) (conn : QuicConnection PacketKey RootStore) (turn : Turn) : Prop :=
  ∃ env dg header space pn plaintext, turn = .packet env dg ∧
    Opens codec conn dg header space pn plaintext ∧ header.isLong = true ∧ header.scid = scid

/-- A Retry that is for the connection, the first one, in time, and genuine. -/
structure RetryTaken (conn : QuicConnection PacketKey RootStore) (dg : Bytes) (retry : RetryPacket) :
    Prop where
  kind : isRetry dg = true
  parsed : parseRetry dg = .ok retry
  ours : retry.dcid = conn.localCid
  first : conn.retryScid = none
  early : conn.handshakeConfirmed = false ∧ conn.sawServerScid = false
  genuine : codec.verifyRetryIntegrity conn.originalDcid retry.wire retry.tag = .ok true

/-- A Retry that the connection takes, from this identifier. -/
def Retries (scid : Bytes) (conn : QuicConnection PacketKey RootStore) (turn : Turn) : Prop :=
  ∃ env dg retry, turn = .packet env dg ∧ RetryTaken codec conn dg retry ∧ retry.scid = scid

/-- The server's parameters authenticate the identifiers of the run: the first one of the
client, the one of every packet of the server, and the one of its Retry, if there was one. -/
structure Authentic (conn : QuicConnection PacketKey RootStore) (turns : List Turn) (first : Bytes)
    (params : ServerTransportParams) : Prop where
  original : params.originalDestinationConnectionId = some first
  source : ∃ iscid, params.initialSourceConnectionId = some iscid ∧
    ∀ scid, Happens codec crypto conn turns (Authenticates codec scid) → scid = iscid
  retried : ∀ scid, Happens codec crypto conn turns (Retries codec scid) →
    params.retrySourceConnectionId = some scid
  unretried : (∀ scid, ¬ Happens codec crypto conn turns (Retries codec scid)) →
    params.retrySourceConnectionId = none

end History

/-! ## What a handshake has heard -/

section Hearing

variable {crypto : Crypto RootStore} {varint : Varint} {self : ClientHandshake RootStore}

/-- The server's parameters, and the message that is due. -/
def heardOf (tls : ClientHandshake RootStore) : Option ServerTransportParams × UInt8 :=
  (tls.serverParams, tls.next)

/-- With a Finished due, no parameters are taken any more. -/
theorem feed_heard (due : self.next = HsType.FINISHED) {msg : Bytes} :
    Moves (Keeps heardOf) (Keeps heardOf) (ClientHandshake.feed crypto varint msg) self := by
  have rules := keeps_sequential (@heardOf RootStore)
  refine rules.lift_bind fun (msgType, body) _ => Sequential.read_bind ?_
  split_ifs with hello flight finished
  · refine rules.bind (rules.lift_bind fun (suite, share) _ => Sequential.read_bind ?_)
      fun _ middle _ _ => ?_
    · dsimp only
      split_ifs
      · exact rules.fail
      · exact Sequential.update rfl
    · refine rules.update_bind rfl (rules.bind (Sequential.read_bind ?_) fun _ _ _ _ => rules.pure)
      split
      · exact rules.fail
      · exact Sequential.update rfl
  · have other : msgType ≠ self.next := by
      rw [due]
      rcases flight.1 with rfl | rfl | rfl <;> decide
    refine rules.bind (Sequential.read_bind ?_) fun _ _ _ _ => rules.update_bind rfl rules.pure
    rw [if_pos other]
    exact rules.fail
  · refine rules.bind (Sequential.read_bind ?_) fun _ _ _ _ => rules.pure
    rw [if_neg (not_not.mpr due)]
    refine rules.lift_bind fun _ _ => rules.update_bind rfl (rules.bind (Sequential.read_bind ?_)
      fun _ _ _ _ => rules.update_bind rfl ?_)
    · split
      · exact rules.fail
      · split
        · exact rules.fail
        · dsimp only
          split
          · exact rules.fail
          · exact rules.update_bind rfl rules.pure
    · split
      · exact rules.fail
      · exact rules.pure
  · exact rules.fail

end Hearing

section Checking

variable {codec : Codec PacketKey} {crypto : Crypto RootStore} {env : Env} {data : Prop}
variable {conn after : QuicConnection PacketKey RootStore}

/-- A connection that is confirmed has checked the server's parameters, and takes no others. -/
def Checked (conn : QuicConnection PacketKey RootStore) : Prop :=
  conn.handshakeConfirmed = true → conn.tls.next = HsType.FINISHED ∧ ∃ params, Validated conn params

/-- What was checked, and whether it was. -/
def vouched (conn : QuicConnection PacketKey RootStore) :
    (ClientHandshake RootStore × Bytes × Bytes × Option Bytes) × Bool :=
  (compared conn, conn.handshakeConfirmed)

theorem vouched_unsent : Unsent (@vouched PacketKey RootStore) :=
  ⟨fun _ _ _ => rfl, fun _ _ _ _ _ => rfl⟩

theorem Checked.congr (checked : Checked conn) (same : vouched after = vouched conn) :
    Checked after := by
  obtain ⟨compares, confirms⟩ := Prod.mk.inj same
  intro confirmed
  obtain ⟨due, params, validated⟩ := checked (confirms ▸ confirmed)
  refine ⟨?_, params, validated.congr compares⟩
  rw [show after.tls = conn.tls from congrArg Prod.fst compares]
  exact due

theorem Change.checked (change : Change codec crypto data conn after) (checked : Checked conn) :
    Checked after := by
  cases change with
  | handed env space frame =>
      exact checked.congr ((sendPacket_keeps vouched_unsent).keeps (run_eq rfl))
  | acked env space largest delay ranges =>
      obtain ⟨srtt, rttvar, ptoCount, taken⟩ :=
        @Ledger.onAck_run _ _ conn env space largest delay ranges
      rw [taken]
      exact checked.congr rfl
  | fed msg =>
      intro confirmed
      obtain ⟨due, params, validated⟩ := checked confirmed
      have kept := (@feed_heard _ crypto codec.varint _ due msg).keeps (run_eq rfl)
      obtain ⟨announced, next⟩ := Prod.mk.inj kept
      exact ⟨next.trans due, params, announced.trans validated.announced, validated.original,
        validated.source, validated.retry⟩
  | confirmed cryptoTx validated due => exact fun _ => ⟨due, _, validated.congr rfl⟩
  | buffered | completed | accepted | keyed | readable | limited | closed | drained | answered
  | announced => exact checked.congr rfl

/-- Frames keep the identifiers, and check the parameters before the handshake is confirmed. -/
theorem processFrames_checked {space : Space} {frames : List Frame} {outcome : Except Error Unit}
    (ran : each (processFrame codec env crypto space) frames conn = (outcome, after))
    (checked : Checked conn) : Checked after := by
  have rules : Sequential (fun before after : QuicConnection PacketKey RootStore =>
      Checked before → Checked after) (fun before after => Checked before → Checked after) :=
    ⟨fun _ => id, fun first second checked => second (first checked), fun _ => id,
      fun first second checked => second (first checked)⟩
  refine (rules.each fun frame _ state => Moves.of_after fun checked => ?_).all ran checked
  have changes := processFrame_changes (run_eq (rfl : (processFrame codec env crypto space frame
    state).1 = _))
  have noted : Checked (Ledger.noting state space frame) := checked.congr rfl
  revert changes
  generalize (processFrame codec env crypto space frame state).2 = last
  intro changes
  induction changes with
  | refl => exact noted
  | tail _ change inductionHypothesis => exact change.checked inductionHypothesis

/-! ## Packets and operations -/

theorem isRetry_version {dg : Bytes} (kind : isRetry dg = true) : longVersion dg 0 = false := by
  cases dg with
  | nil => rfl
  | cons first rest =>
      simp only [isRetry, longVersion, Bool.and_eq_true, beq_iff_eq] at kind
      simp [longVersion, kind.1.2, VERSION_1]

/-- A packet opens, or it is a Retry that is taken, or it is passed over. -/
theorem packet_cases (lawful : codec.Lawful) (env : Env) (crypto : Crypto RootStore) (dg : Bytes) :
    (∃ header space pn plaintext, Opens codec conn dg header space pn plaintext) ∨
    (∃ retry, RetryTaken codec conn dg retry ∧
      ((Turn.packet env dg).act codec crypto conn).2 = (applyRetry codec env retry conn).2) ∨
    (∀ retry, ¬ RetryTaken codec conn dg retry) ∧
      (((Turn.packet env dg).act codec crypto conn).2 = conn ∨
        (∃ error, ((Turn.packet env dg).act codec crypto conn).2 = { conn with closed := some error }) ∨
        ∃ header, ((Turn.packet env dg).act codec crypto conn).2 = conn.learning header) := by
  rw [Turn.act, bind_pure_after, firstPacket]
  split_ifs with version retried
  · refine .inr (.inr ⟨fun retry taken => ?_, .inr (.inl ⟨_, rfl⟩)⟩)
    cases (isRetry_version taken.kind).symm.trans version
  · rw [bind_pure_after]
    unfold processRetry
    cases parsed : parseRetry dg with
    | error error =>
        refine .inr (.inr ⟨fun retry taken => ?_, .inl rfl⟩)
        cases parsed.symm.trans taken.parsed
    | ok retry =>
        have only {other : RetryPacket} (taken : RetryTaken codec conn dg other) : other = retry :=
          Except.ok.inj (taken.parsed.symm.trans parsed)
        rw [lift_ok_bind_run, read_bind_run]
        split_ifs with foreign late
        · refine .inr (.inr ⟨fun other taken => foreign ?_, .inl rfl⟩)
          exact only taken ▸ taken.ours
        · refine .inr (.inr ⟨fun other taken => ?_, .inr (.inl ⟨_, rfl⟩)⟩)
          simp [taken.first, taken.early] at late
        · cases verified : codec.verifyRetryIntegrity conn.originalDcid retry.wire retry.tag with
          | error error =>
              refine .inr (.inr ⟨fun other taken => ?_, .inl rfl⟩)
              obtain rfl := only taken
              cases verified.symm.trans taken.genuine
          | ok genuine =>
              cases genuine with
              | false =>
                  refine .inr (.inr ⟨fun other taken => ?_, .inl rfl⟩)
                  obtain rfl := only taken
                  cases verified.symm.trans taken.genuine
              | true =>
                  simp only [Bool.or_eq_true, not_or, Bool.not_eq_true, Option.isSome_eq_false_iff,
                    Option.isNone_iff_eq_none] at late
                  exact .inr (.inl ⟨retry, ⟨retried, parsed, not_not.mp foreign, late.1.1,
                    ⟨late.1.2, late.2⟩, verified⟩, rfl⟩)
  · have ordinary (retry : RetryPacket) : ¬ RetryTaken codec conn dg retry :=
      fun taken => retried taken.kind
    cases parsed : conn.parseHeader codec dg with
    | error error =>
        refine .inr (.inr ⟨ordinary, .inl ?_⟩)
        unfold processPacket
        rw [read_bind_run, parsed, lift_error_bind_run]
    | ok header =>
        obtain ⟨space, pn, plaintext, opens, -⟩ | ⟨last, discards, ran⟩ :=
          processPacket_cases env crypto lawful parsed
        · exact .inl ⟨header, space, pn, plaintext, opens⟩
        · rw [ran]
          obtain ⟨other, -, -, ⟨same, -⟩ | ⟨learnt, -⟩⟩ := discards
          · exact .inr (.inr ⟨ordinary, .inl same⟩)
          · exact .inr (.inr ⟨ordinary, .inr (.inr ⟨other, learnt⟩)⟩)

/-- What a turn without frames or a Retry leaves alone. -/
def identity (conn : QuicConnection PacketKey RootStore) : Bytes × Option Bytes × Bool :=
  (conn.originalDcid, conn.retryScid, conn.handshakeConfirmed)

theorem identity_untold : Untold (@identity PacketKey RootStore) where
  handed _ _ _ := rfl
  sent _ _ _ _ _ := rfl
  acks _ _ := rfl
  probes _ _ _ := rfl
  asked _ _ := rfl
  shut _ _ := rfl
  parted _ := rfl

theorem learning_identity (header : Header) : identity (conn.learning header) = identity conn := by
  unfold learning
  split_ifs <;> rfl

theorem greet_identity {hello : Bytes} :
    Moves (Keeps identity) (Keeps identity) (greet codec env hello) conn :=
  (keeps_sequential identity).bind (sendPacket_keeps identity_untold.toUnsent)
    fun _ _ _ _ => Sequential.update rfl

/-- A Retry that is taken is remembered, whether the ClientHello goes out again or not. -/
theorem applyRetry_identity {retry : RetryPacket} :
    identity (applyRetry codec env retry conn).2 =
      (conn.originalDcid, some retry.scid, conn.handshakeConfirmed) := by
  have rules := keeps_sequential (@identity PacketKey RootStore)
  have kept : identity (applyRetry codec env retry conn).2 = identity { conn with
      serverCid := retry.scid, retryScid := some retry.scid, retryToken := retry.token } := by
    unfold applyRetry
    rw [read_bind_run, update_bind_run]
    refine Moves.keeps ?_ (run_eq rfl)
    refine rules.lift_bind fun write _ => rules.update_bind rfl ?_
    refine rules.lift_bind fun read _ => rules.update_bind rfl (rules.bind ?_ fun hello _ _ _ => ?_)
    · exact Sequential.read_bind (rules.update_bind rfl rules.pure)
    · exact greet_identity
  exact kept

/-- A turn opens a packet, or it takes a Retry, or it leaves all of this alone. -/
theorem turn_identity (lawful : codec.Lawful) (turn : Turn) :
    (∃ env dg header space pn plaintext, turn = .packet env dg ∧
      Opens codec conn dg header space pn plaintext) ∨
    (∃ scid, Retries codec scid conn turn ∧ identity (turn.act codec crypto conn).2 =
      (conn.originalDcid, some scid, conn.handshakeConfirmed)) ∨
    (∀ scid, ¬ Retries codec scid conn turn) ∧
      identity (turn.act codec crypto conn).2 = identity conn := by
  have others {turn : Turn} (other : ∀ env dg, turn ≠ .packet env dg) (scid : Bytes) :
      ¬ Retries codec scid conn turn := fun ⟨env, dg, _, same, _⟩ => other env dg same
  cases turn with
  | greet env hello => exact .inr (.inr ⟨others nofun, greet_identity.keeps (run_eq rfl)⟩)
  | other op undelivered =>
      refine .inr (.inr ⟨others nofun, ?_⟩)
      cases started : op.isStart with
      | false => exact (op_keeps identity_untold undelivered started).keeps (run_eq rfl)
      | true =>
          cases op with
          | openStream query =>
              rcases openStream_cases (run_eq rfl) with ⟨-, same⟩ | ⟨-, -, same⟩
              · exact congrArg identity same
              · exact (congrArg identity same :)
          | _ => cases started
  | packet env dg =>
      obtain ⟨header, space, pn, plaintext, opens⟩ | ⟨retry, taken, ran⟩ | ⟨untaken, passed⟩ :=
        @packet_cases _ _ codec conn lawful env crypto dg
      · exact .inl ⟨env, dg, header, space, pn, plaintext, rfl, opens⟩
      · exact .inr (.inl ⟨retry.scid, ⟨env, dg, retry, rfl, taken, rfl⟩,
          (congrArg identity ran).trans applyRetry_identity⟩)
      · refine .inr (.inr ⟨fun scid ⟨_, _, retry, same, taken, _⟩ => ?_, ?_⟩)
        · cases same
          exact untaken retry taken
        · obtain same | ⟨error, same⟩ | ⟨header, same⟩ := passed
          · exact congrArg identity same
          · exact (congrArg identity same :)
          · exact (congrArg identity same).trans (learning_identity header)

/-- The identifiers that the parameters are compared with. -/
def known (conn : QuicConnection PacketKey RootStore) : Bytes × Bytes × Option Bytes :=
  (conn.originalDcid, conn.serverCid, conn.retryScid)

theorem processPlaintext_known {space : Space} {pn : Nat} {plaintext : Bytes} :
    Moves (Keeps known) (Keeps known) (processPlaintext codec env crypto space pn plaintext)
      conn := by
  have rules := keeps_sequential (@known PacketKey RootStore)
  refine rules.bind (.of_after ?_) fun _ middle _ _ => ?_
  · have same : standing (each (processFrame codec env crypto space)
        (decodeFrames codec plaintext.length plaintext) conn).2 = standing conn :=
      processFrames_standing.keeps (run_eq rfl)
    simp only [standing, Prod.mk.injEq] at same
    simp only [Keeps, known, same]
  · split_ifs
    · exact Sequential.update rfl
    · exact rules.pure

theorem processPlaintext_checked {space : Space} {pn : Nat} {plaintext : Bytes}
    (checked : Checked conn) :
    Checked (processPlaintext codec env crypto space pn plaintext conn).2 := by
  unfold processPlaintext
  rcases ran : each (processFrame codec env crypto space)
    (decodeFrames codec plaintext.length plaintext) conn with ⟨outcome, middle⟩
  have processed := processFrames_checked ran checked
  cases outcome with
  | error error =>
      rw [bind_of_error ran]
      exact processed
  | ok value =>
      rw [bind_of_ok ran]
      split_ifs
      · exact processed.congr rfl
      · exact processed

/-! ## Runs -/

theorem happens_concat {turns : List Turn} {turn : Turn}
    {event : QuicConnection PacketKey RootStore → Turn → Prop} :
    Happens codec crypto conn (turns ++ [turn]) event ↔
      Happens codec crypto conn turns event ∨ event (turnAll codec crypto turns conn) turn := by
  constructor
  · rintro ⟨earlier, other, later, run, event⟩
    rcases List.eq_nil_or_concat later with rfl | ⟨rest, last, rfl⟩
    · obtain ⟨rfl, same⟩ := List.append_inj' run rfl
      obtain rfl : turn = other := by simpa using same
      exact .inr event
    · rw [List.concat_eq_append, ← List.cons_append, ← List.append_assoc] at run
      obtain ⟨rfl, -⟩ := List.append_inj' run rfl
      exact .inl ⟨earlier, other, rest, rfl, event⟩
  · rintro (⟨earlier, other, later, rfl, event⟩ | event)
    · exact ⟨earlier, other, later ++ [turn], by simp, event⟩
    · exact ⟨turns, turn, [], rfl, event⟩

/-- The first identifier stays, and the Retry that is remembered is the one that was taken. -/
theorem turn_retried (lawful : codec.Lawful) (turn : Turn) :
    (turn.act codec crypto conn).2.originalDcid = conn.originalDcid ∧
      ∀ scid, (turn.act codec crypto conn).2.retryScid = some scid ↔
        conn.retryScid = some scid ∨ Retries codec scid conn turn := by
  obtain ⟨env, dg, header, space, pn, plaintext, rfl, opens⟩ | ⟨taken, retries, same⟩ |
    ⟨untaken, same⟩ := @turn_identity _ _ codec crypto conn lawful turn
  · have unretried (scid : Bytes) : ¬ Retries codec scid conn (.packet env dg) := by
      rintro ⟨_, _, retry, same, taken, -⟩
      cases same
      cases opens.ordinary.2.symm.trans taken.kind
    have start : identity ((conn.learning header).numbering space pn) = identity conn :=
      learning_identity header
    rw [opens.turn lawful]
    have kept : known (processPlaintext codec env crypto space pn plaintext
        ((conn.learning header).numbering space pn)).2 =
          known ((conn.learning header).numbering space pn) :=
      processPlaintext_known.keeps (run_eq rfl)
    simp only [known, identity, Prod.mk.injEq] at kept start
    rw [kept.1, kept.2.2, start.1, start.2.1]
    exact ⟨rfl, fun scid => (or_iff_left (unretried scid)).symm⟩
  · simp only [identity, Prod.mk.injEq] at same
    obtain ⟨env, dg, retry, rfl, found, rfl⟩ := retries
    refine ⟨same.1, fun scid => ?_⟩
    rw [same.2.1, found.first, Option.some.injEq]
    constructor
    · rintro rfl
      exact .inr ⟨env, dg, retry, rfl, found, rfl⟩
    · rintro (none | ⟨_, _, other, same, again, rfl⟩)
      · cases none
      · cases same
        cases found.parsed.symm.trans again.parsed
        rfl
  · simp only [identity, Prod.mk.injEq] at same
    rw [same.2.1]
    exact ⟨same.1, fun scid => (or_iff_left (untaken scid)).symm⟩

theorem turnAll_retried (lawful : codec.Lawful) (turns : List Turn) :
    (turnAll codec crypto turns conn).originalDcid = conn.originalDcid ∧
      ∀ scid, (turnAll codec crypto turns conn).retryScid = some scid ↔
        conn.retryScid = some scid ∨ Happens codec crypto conn turns (Retries codec scid) := by
  induction turns using List.reverseRecOn with
  | nil => exact ⟨rfl, fun scid => by simp [turnAll, Happens]⟩
  | append_singleton turns turn inductionHypothesis =>
      obtain ⟨original, retried⟩ :=
        @turn_retried _ _ codec crypto (turnAll codec crypto turns conn) lawful turn
      rw [turnAll_concat]
      refine ⟨original.trans inductionHypothesis.1, fun scid => ?_⟩
      rw [retried, inductionHypothesis.2, happens_concat, or_assoc]

/-- The turn that confirms a handshake opens a packet, with which the parameters were checked
against what is known then. -/
theorem turn_confirms (lawful : codec.Lawful) {turn : Turn} (unconfirmed : conn.handshakeConfirmed = false)
    (confirms : (turn.act codec crypto conn).2.handshakeConfirmed = true) :
    ∃ env dg header space pn plaintext, turn = .packet env dg ∧
      Opens codec conn dg header space pn plaintext ∧
      known (turn.act codec crypto conn).2 = known (conn.learning header) ∧
      ∃ params, Validated (turn.act codec crypto conn).2 params := by
  obtain ⟨env, dg, header, space, pn, plaintext, rfl, opens⟩ | ⟨scid, -, same⟩ | ⟨-, same⟩ :=
    @turn_identity _ _ codec crypto conn lawful turn
  · refine ⟨env, dg, header, space, pn, plaintext, rfl, opens, ?_⟩
    have start : ((conn.learning header).numbering space pn).handshakeConfirmed = false := by
      have kept : identity (conn.learning header) = identity conn := learning_identity header
      simp only [identity, Prod.mk.injEq] at kept
      exact kept.2.2.trans unconfirmed
    have checked : Checked ((conn.learning header).numbering space pn) := fun confirmed => by
      cases start.symm.trans confirmed
    rw [opens.turn lawful] at confirms ⊢
    have kept : known (processPlaintext codec env crypto space pn plaintext
        ((conn.learning header).numbering space pn)).2 =
          known ((conn.learning header).numbering space pn) :=
      processPlaintext_known.keeps (run_eq rfl)
    exact ⟨kept, (processPlaintext_checked checked confirms).2⟩
  · simp only [identity, Prod.mk.injEq] at same
    cases (same.2.2.trans unconfirmed).symm.trans confirms
  · simp only [identity, Prod.mk.injEq] at same
    cases (same.2.2.trans unconfirmed).symm.trans confirms

/-- Parameters that were checked authenticate what they name, if nothing is left out. -/
theorem Validated.authentic_iff {last : QuicConnection PacketKey RootStore} {turns : List Turn}
    {first : Bytes} {params : ServerTransportParams} (validated : Validated last params)
    (original : last.originalDcid = first)
    (remembered : ∀ scid, last.retryScid = some scid ↔
      Happens codec crypto conn turns (Retries codec scid)) :
    Authentic codec crypto conn turns first params ↔
      params.originalDestinationConnectionId.isSome = true ∧
      params.initialSourceConnectionId.isSome = true ∧
      (∀ scid, Happens codec crypto conn turns (Authenticates codec scid) → scid = last.serverCid) ∧
      (params.retrySourceConnectionId.isSome = true ↔
        ∃ scid, Happens codec crypto conn turns (Retries codec scid)) := by
  constructor
  · intro authentic
    obtain ⟨iscid, named, only⟩ := authentic.source
    refine ⟨by simp [authentic.original], by simp [named], fun scid happens => ?_, ?_, ?_⟩
    · rw [only scid happens]
      exact validated.source iscid named
    · intro present
      by_contra none
      rw [authentic.unretried fun scid happens => none ⟨scid, happens⟩] at present
      cases present
    · rintro ⟨scid, happens⟩
      rw [authentic.retried scid happens]
      rfl
  · rintro ⟨originals, sources, only, retries⟩
    obtain ⟨odcid, named⟩ := Option.isSome_iff_exists.mp originals
    obtain ⟨iscid, stated⟩ := Option.isSome_iff_exists.mp sources
    refine ⟨?_, ⟨iscid, stated, fun scid happens => ?_⟩, fun scid happens => ?_, fun none => ?_⟩
    · rw [named, validated.original odcid named, original]
    · rw [only scid happens, validated.source iscid stated]
    · obtain ⟨got, given⟩ := Option.isSome_iff_exists.mp (retries.mpr ⟨scid, happens⟩)
      rw [given, validated.retry scid ((remembered scid).mpr happens) got given]
    · by_contra present
      obtain ⟨scid, happens⟩ := retries.mp (Option.isSome_iff_ne_none.mpr present)
      exact none scid happens

end Checking

/-- **The identifiers are authenticated.** In every run, the server's parameters that confirm the
handshake authenticate the identifiers exactly where they have the client's first identifier and
the server's own, every packet with a long header that was opened comes from the identifier the
client writes to, and the parameters have a Retry's identifier exactly where there was a Retry:
what is there was compared, and what is missing was not missed. -/
theorem confirmed_authentic_iff (codec : Codec PacketKey) (lawful : codec.Lawful)
    (crypto : Crypto RootStore) (cfg : ClientConfig RootStore) (entropy : Entropy)
    (localCid serverCid hello : Bytes) (conn before : QuicConnection PacketKey RootStore)
    (turns : List Turn) (turn : Turn)
    (opened : QuicConnection.fresh codec cfg entropy localCid serverCid = .ok (hello, conn))
    (reached : turnAll codec crypto turns conn = before)
    (unconfirmed : before.handshakeConfirmed = false)
    (confirms : (turn.act codec crypto before).2.handshakeConfirmed = true) :
    ∃ env dg header space pn plaintext params, turn = .packet env dg ∧
      Opens codec before dg header space pn plaintext ∧
      (turn.act codec crypto before).2.tls.serverParams = some params ∧
      (Authentic codec crypto conn (turns ++ [turn]) serverCid params ↔
        params.originalDestinationConnectionId.isSome = true ∧
        params.initialSourceConnectionId.isSome = true ∧
        (∀ scid, Happens codec crypto conn (turns ++ [turn]) (Authenticates codec scid) →
          scid = (before.learning header).serverCid) ∧
        (params.retrySourceConnectionId.isSome = true ↔
          ∃ scid, Happens codec crypto conn (turns ++ [turn]) (Retries codec scid))) := by
  subst reached
  obtain ⟨start, unretried⟩ : conn.originalDcid = serverCid ∧ conn.retryScid = none := by
    unfold QuicConnection.fresh at opened
    obtain ⟨write, -, opened⟩ := bind_eq_ok.mp opened
    obtain ⟨read, -, opened⟩ := bind_eq_ok.mp opened
    cases opened
    exact ⟨rfl, rfl⟩
  obtain ⟨env, dg, header, space, pn, plaintext, packet, opens, same, params, validated⟩ :=
    turn_confirms lawful unconfirmed confirms
  refine ⟨env, dg, header, space, pn, plaintext, params, packet, opens, validated.announced, ?_⟩
  obtain ⟨original, retried⟩ := @turnAll_retried _ _ codec crypto conn lawful (turns ++ [turn])
  rw [turnAll_concat] at original retried
  have source : ((turnAll codec crypto turns conn).learning header).serverCid =
      (turn.act codec crypto (turnAll codec crypto turns conn)).2.serverCid := by
    simp only [known, Prod.mk.injEq] at same
    exact same.2.1.symm
  rw [source]
  exact validated.authentic_iff (original.trans start) fun scid =>
    (retried scid).trans (by simp [unretried])

/-! ## Sample handshakes -/

namespace Plain

/-- The rest of the flight of a server with identifiers in its transport parameters. -/
def identified : Bytes := flight [0, 1, 2, 4, 1, 32, 6, 1, 32, 15, 1, 9] 128 160

/-- The rest of the flight of a server without. -/
def anonymous : Bytes := flight [4, 1, 32, 6, 1, 32] 192 224

/-- A connection that has taken the ServerHello. -/
def greeted : QuicConnection Bytes Bytes :=
  turnAll codec Sample.crypto [.greet env hello, .packet env serverHello] connection

/-- The turns of a handshake. -/
def turns (flight : Bytes) : List Turn :=
  [.greet env hello, .packet env serverHello] ++ [.packet env flight]

theorem happens_turns {flight : Bytes} {event : QuicConnection Bytes Bytes → Turn → Prop}
    (happens : Happens codec Sample.crypto connection (turns flight) event) :
    event connection (.greet env hello) ∨ event started (.packet env serverHello) ∨
      event greeted (.packet env flight) := by
  rcases happens_concat.mp happens with earlier | last
  · rcases (@happens_concat _ _ _ _ _ [.greet env hello] _ _).mp earlier with first | second
    · rcases (@happens_concat _ _ _ _ _ [] _ _).mp first with ⟨_, _, _, run, -⟩ | event
      · simp at run
      · exact .inl event
    · exact .inr (.inl second)
  · exact .inr (.inr last)

theorem packet_scid {conn : QuicConnection Bytes Bytes} {dg scid : Bytes} {header : Header} {env : Env}
    (parsed : conn.parseHeader codec dg = .ok header)
    (authenticates : Authenticates codec scid conn (.packet env dg)) : scid = header.scid := by
  obtain ⟨_, _, other, _, _, _, same, opens, -, rfl⟩ := authenticates
  cases same
  rw [Except.ok.inj (opens.parsed.symm.trans parsed)]

theorem packet_unretried {conn : QuicConnection Bytes Bytes} {dg scid : Bytes} {env : Env}
    (ordinary : isRetry dg = false) : ¬ Retries codec scid conn (.packet env dg) := by
  rintro ⟨_, _, _, same, taken, -⟩
  cases same
  cases ordinary.symm.trans taken.kind

end Plain

/-- Parameters with both identifiers authenticate them. -/
theorem identified_authentic : ∃ params,
    ((Turn.packet Plain.env Plain.identified).act Plain.codec Sample.crypto
      Plain.greeted).2.tls.serverParams = some params ∧
    Authentic Plain.codec Sample.crypto Plain.connection (Plain.turns Plain.identified) [2]
      params := by
  have facts : Plain.greeted.handshakeConfirmed = false ∧
      ((Turn.packet Plain.env Plain.identified).act Plain.codec Sample.crypto
        Plain.greeted).2.handshakeConfirmed = true ∧
      ((Turn.packet Plain.env Plain.identified).act Plain.codec Sample.crypto
        Plain.greeted).2.tls.serverParams = some ⟨32, 0, 0, 0, some [2], some [9], none⟩ ∧
      Plain.greeted.sawServerScid = true ∧ Plain.greeted.serverCid = [9] ∧
      Plain.started.parseHeader Plain.codec Plain.serverHello =
        .ok ⟨true, some .initial, [1], [9], [], 12, 126⟩ ∧
      Plain.greeted.parseHeader Plain.codec Plain.identified =
        .ok ⟨true, some .handshake, [1], [9], [], 11, 210⟩ := by decide +kernel
  obtain ⟨unconfirmed, confirms, given, saw, scid, hello, flight⟩ := facts
  obtain ⟨env, dg, header, space, pn, plaintext, params, packet, opens, announced, authentic⟩ :=
    confirmed_authentic_iff Plain.codec Plain.codec_lawful Sample.crypto Sample.cfg
      Plain.env.entropy [1] [2] Plain.hello Plain.connection Plain.greeted
      [.greet Plain.env Plain.hello, .packet Plain.env Plain.serverHello]
      (.packet Plain.env Plain.identified) Plain.fresh_connection rfl unconfirmed confirms
  cases packet
  obtain rfl := Option.some.inj (announced.symm.trans given)
  refine ⟨_, given, authentic.mpr ⟨rfl, rfl, fun other happens => ?_, nofun, fun ⟨other, happens⟩ => ?_⟩⟩
  · have learnt : (Plain.greeted.learning header).serverCid = [9] := by
      rw [learning, if_neg (by simp [saw])]
      exact scid
    rw [learnt]
    obtain ⟨_, _, _, _, _, _, same, -⟩ | second | third := Plain.happens_turns happens
    · cases same
    · exact Plain.packet_scid hello second
    · exact Plain.packet_scid flight third
  · obtain ⟨_, _, _, same, -⟩ | second | third := Plain.happens_turns happens
    · cases same
    · exact absurd second (Plain.packet_unretried (by decide +kernel))
    · exact absurd third (Plain.packet_unretried (by decide +kernel))

/-- Parameters without any identifier confirm the handshake. -/
theorem anonymous_confirmed :
    QuicConnection.fresh Plain.codec Sample.cfg Plain.env.entropy [1] [2] =
      .ok (Plain.hello, Plain.connection) ∧
    turnAll Plain.codec Sample.crypto [.greet Plain.env Plain.hello,
      .packet Plain.env Plain.serverHello] Plain.connection = Plain.greeted ∧
    Plain.greeted.handshakeConfirmed = false ∧
    ((Turn.packet Plain.env Plain.anonymous).act Plain.codec Sample.crypto
      Plain.greeted).2.handshakeConfirmed = true ∧
    ((Turn.packet Plain.env Plain.anonymous).act Plain.codec Sample.crypto
      Plain.greeted).2.tls.serverParams = some ⟨32, 0, 0, 0, none, none, none⟩ ∧
    ¬ Authentic Plain.codec Sample.crypto Plain.connection (Plain.turns Plain.anonymous) [2]
      ⟨32, 0, 0, 0, none, none, none⟩ := by
  have facts : Plain.greeted.handshakeConfirmed = false ∧
      ((Turn.packet Plain.env Plain.anonymous).act Plain.codec Sample.crypto
        Plain.greeted).2.handshakeConfirmed = true ∧
      ((Turn.packet Plain.env Plain.anonymous).act Plain.codec Sample.crypto
        Plain.greeted).2.tls.serverParams = some ⟨32, 0, 0, 0, none, none, none⟩ := by
    decide +kernel
  refine ⟨Plain.fresh_connection, rfl, facts.1, facts.2.1, facts.2.2, fun authentic => ?_⟩
  cases authentic.original

end RecurseX.Doq
