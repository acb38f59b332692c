import RecurseX.Doq.Ledger
import RecurseX.Library.Runs

/-!
# Operations and runs

What the event loop does to a connection, one operation at a time. Connecting
and every query are sequences of these operations, so what every operation keeps
holds throughout the life of a connection.
-/

namespace RecurseX.Doq

open Library Stateful QuicConnection

/-- An operation of the event loop, or the start of a query. -/
inductive Op where
  | datagram (env : Env) (dg : Bytes)
  | heard
  | flushAcks (env : Env)
  | runPto (env : Env)
  | flushQuery (env : Env)
  | openStream (query : Bytes)
  | close (env : Env)

variable {PacketKey RootStore : Type} {codec : Codec PacketKey} {crypto : Crypto RootStore}

/-- What an operation does. -/
def Op.act (codec : Codec PacketKey) (crypto : Crypto RootStore) : Op → Act PacketKey RootStore Unit
  | .datagram env dg => processDatagram codec env crypto dg
  | .heard => .update fun self => { self with ptoCount := 0 }
  | .flushAcks env => QuicConnection.flushAcks codec env
  | .runPto env => QuicConnection.runPto codec env
  | .flushQuery env => flushQuerySend codec env
  | .openStream query => QuicConnection.openStream codec query
  | .close env => QuicConnection.close codec env

/-- Operations one after the other, whether they fail or not. -/
def operate (codec : Codec PacketKey) (crypto : Crypto RootStore) (ops : List Op)
    (conn : QuicConnection PacketKey RootStore) : QuicConnection PacketKey RootStore :=
  ops.foldl (fun conn op => (op.act codec crypto conn).2) conn

/-- Operations that all end well lead here. -/
def Operated (codec : Codec PacketKey) (crypto : Crypto RootStore)
    (before after : QuicConnection PacketKey RootStore) : Prop :=
  ∃ ops, each (Op.act codec crypto) ops before = (.ok (), after)

/-- Operations lead here, whether they end well or not. -/
def Reaches (codec : Codec PacketKey) (crypto : Crypto RootStore)
    (before after : QuicConnection PacketKey RootStore) : Prop :=
  ∃ ops, after = operate codec crypto ops before

theorem operate_of_each {ops : List Op} {before after : QuicConnection PacketKey RootStore}
    (ran : each (Op.act codec crypto) ops before = (.ok (), after)) :
    operate codec crypto ops before = after := by
  induction ops generalizing before with
  | nil =>
      cases ran
      rfl
  | cons op ops inductionHypothesis =>
      obtain ⟨_, next, first, rest⟩ := bind_eq_ok_iff.mp ran
      rw [← inductionHypothesis rest, operate, List.foldl_cons, first]
      rfl

theorem operated_sequential :
    Sequential (@Operated PacketKey RootStore codec crypto) (Reaches codec crypto) where
  refl _ := ⟨[], rfl⟩
  trans := by
    rintro first middle last ⟨ops, ran⟩ ⟨later, rest⟩
    exact ⟨ops ++ later, each_append_ok ran rest⟩
  stop _ := ⟨[], rfl⟩
  fails := by
    rintro first middle last ⟨ops, ran⟩ ⟨later, rfl⟩
    refine ⟨ops ++ later, ?_⟩
    rw [← operate_of_each ran]
    exact (List.foldl_append ..).symm

section Loop

variable {conn : QuicConnection PacketKey RootStore}

/-- An operation is a run of one operation. -/
theorem act_operates (op : Op) :
    Moves (Operated codec crypto) (Reaches codec crypto) (op.act codec crypto) conn where
  ok _ after ran := ⟨[op], bind_eq_ok_iff.mpr ⟨(), after, ran, rfl⟩⟩
  bad error after ran := ⟨[op], by rw [operate, List.foldl_cons, ran]; rfl⟩

/-- Whether an operation starts a query. -/
def Op.isStart : Op → Bool
  | .openStream _ => true
  | _ => false

section Moving

variable {ok bad : QuicConnection PacketKey RootStore → QuicConnection PacketKey RootStore → Prop}
variable (rules : Sequential ok bad)
variable (moves : ∀ op : Op, op.isStart = false → ∀ conn, Moves ok bad (op.act codec crypto) conn)
include rules moves

/-- A round of the event loop goes where its operations go. -/
theorem driveRound_moves (round : Round) :
    Moves ok bad (driveRound codec crypto round) conn := by
  refine rules.bind (rules.each fun dg _ state => moves (.datagram round.env dg) rfl state) ?_
  intro _ received _ _
  cases round.broken with
  | some error => exact rules.fail
  | none =>
      have heard : Moves ok bad (heard round.arrivals) received := by
        unfold heard
        split_ifs
        · exact moves .heard rfl received
        · exact rules.pure
      refine rules.bind heard fun _ _ _ _ => ?_
      refine rules.bind (moves (.flushAcks round.env) rfl _) fun _ _ _ _ => ?_
      refine rules.bind (moves (.runPto round.env) rfl _) fun _ _ _ _ => Sequential.read_bind ?_
      split_ifs
      · exact moves (.flushQuery round.env) rfl _
      · exact rules.pure

theorem driveUntil_moves {done : QuicConnection PacketKey RootStore → Bool} {budgetMs : Nat}
    {rounds : List Round} :
    Moves ok bad (driveUntil codec crypto done budgetMs rounds) conn := by
  induction rounds generalizing conn with
  | nil => exact Sequential.read_bind rules.pure
  | cons round rounds inductionHypothesis =>
      refine Sequential.read_bind ?_
      by_cases finished : done conn = true
      · rw [if_pos finished]
        exact rules.pure
      · rw [if_neg finished]
        cases conn.closed with
        | some error => exact rules.fail
        | none =>
            dsimp only
            split_ifs
            · exact rules.fail
            · exact rules.bind (driveRound_moves rules moves round) fun _ _ _ _ => inductionHypothesis

end Moving

/-- A query is a run of operations. -/
theorem exchangeQuery_operates (env : Env) (query : Bytes) (drive : Drive) :
    Moves (Operated codec crypto) (Reaches codec crypto)
      (exchangeQuery codec env crypto query drive) conn := by
  have rules := @operated_sequential _ _ codec crypto
  refine rules.bind (act_operates (.openStream query)) fun _ opened _ _ => ?_
  refine rules.bind (act_operates (.flushQuery env)) fun _ flushed _ _ => ?_
  refine rules.bind (driveUntil_moves rules fun op _ _ => act_operates op) fun _ _ _ _ =>
    Sequential.read_bind ?_
  split_ifs
  · exact rules.pure
  · exact rules.fail
  · exact rules.pure

end Loop

/-! ## What operations keep -/

/-- What every operation keeps, however it ends, holds along every run. -/
theorem operate_invariant {Inv : QuicConnection PacketKey RootStore → Prop}
    (kept : ∀ {conn after op outcome}, Inv conn → Op.act codec crypto op conn = (outcome, after) →
      Inv after)
    {conn : QuicConnection PacketKey RootStore} {ops : List Op} (initial : Inv conn) :
    Inv (operate codec crypto ops conn) :=
  foldl_invariant _ Inv (fun _ _ holds => kept holds (run_eq rfl)) initial

/-- What every operation that ends well keeps holds along every run of them. -/
theorem each_invariant {Inv : QuicConnection PacketKey RootStore → Prop}
    (kept : ∀ {conn after op}, Inv conn → Op.act codec crypto op conn = (.ok (), after) → Inv after)
    {conn after : QuicConnection PacketKey RootStore} {ops : List Op} (initial : Inv conn)
    (ran : each (Op.act codec crypto) ops conn = (.ok (), after)) : Inv after := by
  induction ops generalizing conn with
  | nil =>
      cases ran
      exact initial
  | cons op ops inductionHypothesis =>
      obtain ⟨_, middle, first, rest⟩ := bind_eq_ok_iff.mp ran
      exact inductionHypothesis (kept initial first) rest

/-- What holds of the ledger before holds after. -/
def Preserves (Inv : Ledger PacketKey RootStore → Prop)
    (before after : QuicConnection PacketKey RootStore) : Prop :=
  Inv before.ledger → Inv after.ledger

theorem preserves_sequential (Inv : Ledger PacketKey RootStore → Prop) :
    Sequential (Preserves Inv) (Preserves Inv) where
  refl _ := id
  trans first second := second ∘ first
  stop _ := id
  fails first second := second ∘ first

/-- What every step keeps, steps keep. -/
theorem Ledger.Steps.preserves {Inv : Ledger PacketKey RootStore → Prop}
    (step : ∀ {before after}, Ledger.Step codec crypto before after → Inv before → Inv after)
    {before after : Ledger PacketKey RootStore} (steps : Ledger.Steps codec crypto before after)
    (holds : Inv before) : Inv after := by
  induction steps with
  | refl => exact holds
  | tail _ next inductionHypothesis => exact step next inductionHypothesis

/-- What every step and every fault keeps, receiving keeps. -/
theorem Ledger.Goes.preserves {Inv : Ledger PacketKey RootStore → Prop} {α : Type}
    {act : Act PacketKey RootStore α} {conn : QuicConnection PacketKey RootStore}
    (step : ∀ {before after}, Ledger.Step codec crypto before after → Inv before → Inv after)
    (fault : ∀ {before after}, Ledger.Fault codec crypto before after → Inv before → Inv after)
    (goes : Ledger.Goes codec crypto act conn) :
    Moves (Preserves Inv) (Preserves Inv) act conn where
  ok value after ran holds := (goes.ok value after ran).preserves step holds
  bad error after ran holds := by
    obtain ⟨middle, steps, faulted⟩ := goes.bad error after ran
    exact fault faulted (steps.preserves step holds)

/-- The operations that do not touch the query: they only receive, or send what is
not query data. -/
def Op.isPassive : Op → Bool
  | .datagram .. | .heard | .flushAcks _ | .close _ => true
  | .runPto _ | .flushQuery _ | .openStream _ => false

theorem close_goes {conn : QuicConnection PacketKey RootStore} {env : Env} :
    Ledger.Goes codec crypto (close codec env) conn := by
  have rules := @Ledger.follows_sequential _ _ codec crypto
  refine Sequential.read_bind ?_
  split_ifs
  · exact rules.pure
  · refine rules.bind (Ledger.attempt_sendPacket_goes rfl rfl) fun _ _ _ _ => ?_
    exact Sequential.update (.of_eq rfl)

theorem act_goes {op : Op} (passive : op.isPassive = true)
    {conn : QuicConnection PacketKey RootStore} :
    Ledger.Goes codec crypto (op.act codec crypto) conn := by
  cases op with
  | datagram env dg => exact Ledger.processDatagram_goes
  | heard => exact Sequential.update (.of_eq rfl)
  | flushAcks env => exact Ledger.flushAcks_goes
  | close env => exact close_goes
  | runPto | flushQuery | openStream => cases passive

/-! ## What the other operations do -/

/-- The ledger a connection starts with. -/
def Ledger.start (key : PacketKey) (tls : ClientHandshake RootStore) :
    Ledger PacketKey RootStore where
  log := []
  sent := []
  nextPn := .all 0
  initialWrite := key
  hsWrite := none
  appWrite := none
  hsRead := none
  retryScid := none
  handshakeConfirmed := false
  tls := tls
  streamId := 0
  openedBidi := 0
  queryTx := none
  queryRx := .default

section Inversion

variable {conn after : QuicConnection PacketKey RootStore} {env : Env}

theorem fresh_ledger {cfg : ClientConfig RootStore} {entropy : Entropy}
    {localCid serverCid hello : Bytes}
    (opened : QuicConnection.fresh codec cfg entropy localCid serverCid = .ok (hello, conn)) :
    ∃ key cfg, conn.ledger = .start key (ClientHandshake.greeted codec.varint cfg entropy) := by
  unfold QuicConnection.fresh at opened
  obtain ⟨write, -, opened⟩ := bind_eq_ok.mp opened
  obtain ⟨read, -, opened⟩ := bind_eq_ok.mp opened
  cases opened
  exact ⟨write, _, rfl⟩

/-- The connection with a fresh stream. -/
def opening (codec : Codec PacketKey) (conn : QuicConnection PacketKey RootStore) (query : Bytes) :
    QuicConnection PacketKey RootStore :=
  { conn with
    streamId := codec.streamId codec.clientBidi conn.openedBidi
    openedBidi := conn.openedBidi + 1
    queryTx := some ⟨query, 0, 0, false⟩
    queryRx := .default }

theorem openStream_cases {query : Bytes} {outcome : Except Error Unit}
    (ran : QuicConnection.openStream codec query conn = (outcome, after)) :
    (∃ error, outcome = .error error) ∧ after = conn ∨
      outcome = .ok () ∧ conn.handshakeConfirmed = true ∧ after = opening codec conn query := by
  unfold QuicConnection.openStream at ran
  rw [read_bind_run] at ran
  by_cases unconfirmed : conn.handshakeConfirmed = false
  · rw [if_pos unconfirmed] at ran
    cases ran
    exact .inl ⟨⟨_, rfl⟩, rfl⟩
  · rw [if_neg unconfirmed] at ran
    cases closed : conn.closed with
    | some error =>
        rw [closed] at ran
        cases ran
        exact .inl ⟨⟨_, rfl⟩, rfl⟩
    | none =>
        rw [closed] at ran
        dsimp only at ran
        split_ifs at ran
        · cases ran
          exact .inl ⟨⟨_, rfl⟩, rfl⟩
        · cases ran
          exact .inr ⟨rfl, by simpa using unconfirmed, rfl⟩

/-- The connection whose unacknowledged packets were taken out to be sent again. -/
def probing (conn : QuicConnection PacketKey RootStore) : QuicConnection PacketKey RootStore :=
  { conn with ptoCount := conn.ptoCount + 1, sent := [] }

theorem runPto_cases {outcome : Except Error Unit}
    (ran : QuicConnection.runPto codec env conn = (outcome, after)) :
    after.ledger = conn.ledger ∨
      each (resend codec env) conn.sent (probing conn) = (outcome, after) := by
  unfold QuicConnection.runPto at ran
  rw [read_bind_run] at ran
  dsimp only at ran
  split_ifs at ran
  · cases ran
    exact .inl rfl
  · cases ran
    exact .inl rfl
  · cases ran
    exact .inl rfl
  · exact .inr ran

/-- The connection whose query was advanced past the chunks that were cut. -/
def advancing (conn : QuicConnection PacketKey RootStore) (query : QuerySend) (chunks : List Chunk)
    (total : Nat) : QuicConnection PacketKey RootStore :=
  { conn with queryTx := some (query.advance chunks total) }

/-- How much of the query the connection takes to be allowed. -/
def allowed (conn : QuicConnection PacketKey RootStore) (query : QuerySend) : Nat :=
  query.allowance conn.peerMaxData conn.peerMaxStreamData

theorem takeChunks_cases {outcome : Except Error (List Chunk)}
    (ran : takeChunks conn = (outcome, after)) :
    (∀ chunks, outcome = .ok chunks → chunks = []) ∧ after = conn ∨
      ∃ query chunks total, conn.queryTx = some query ∧ query.finSent = false ∧
        0 < allowed conn query ∧
        query.chunksFrom query.remaining (allowed conn query) (query.data.length + 1) 0 =
          .ok (chunks, total) ∧
        outcome = .ok chunks ∧ after = advancing conn query chunks total := by
  unfold takeChunks at ran
  rw [read_bind_run] at ran
  cases asked : conn.queryTx with
  | none =>
      rw [asked] at ran
      cases ran
      exact .inl ⟨by rintro _ ⟨⟩; rfl, rfl⟩
  | some query =>
      rw [asked] at ran
      dsimp only at ran
      split_ifs at ran with done none
      · cases ran
        exact .inl ⟨by rintro _ ⟨⟩; rfl, rfl⟩
      · cases ran
        exact .inl ⟨by rintro _ ⟨⟩; rfl, rfl⟩
      · cases outcome with
        | error error =>
            rcases lift_bind_eq_error_iff.mp ran with ⟨-, same⟩ | ⟨⟨chunks, total⟩, -, ran⟩
            · exact .inl ⟨by rintro _ ⟨⟩, same⟩
            · cases ran
        | ok cut =>
            obtain ⟨⟨chunks, total⟩, computed, ran⟩ := lift_bind_eq_ok_iff.mp ran
            cases ran
            exact .inr ⟨query, chunks, total, rfl, by simpa using done, Nat.pos_of_ne_zero none, computed,
              rfl, rfl⟩

/-- Sending the query is cutting chunks and sending them one by one. -/
theorem flushQuerySend_cases {outcome : Except Error Unit}
    (ran : flushQuerySend codec env conn = (outcome, after)) :
    after = conn ∨
      ∃ query chunks total, conn.queryTx = some query ∧ query.finSent = false ∧
        0 < allowed conn query ∧
        query.chunksFrom query.remaining (allowed conn query) (query.data.length + 1) 0 =
          .ok (chunks, total) ∧
        each (fun chunk => sendPacket codec env .application [chunk.frame conn.streamId] false)
          chunks (advancing conn query chunks total) = (outcome, after) := by
  unfold flushQuerySend at ran
  rw [read_bind_run] at ran
  rcases cut : takeChunks conn with ⟨outcome, middle⟩
  cases outcome with
  | error error =>
      rw [bind_of_error cut] at ran
      cases ran
      rcases takeChunks_cases cut with ⟨-, same⟩ | ⟨_, _, _, -, -, -, -, done, -⟩
      · exact .inl same
      · cases done
  | ok chunks =>
      rw [bind_of_ok cut] at ran
      rcases takeChunks_cases cut with
        ⟨none, rfl⟩ | ⟨query, chunks, total, asked, unfinished, some, computed, done, rfl⟩
      · obtain rfl := none chunks rfl
        cases ran
        exact .inl rfl
      · cases done
        exact .inr ⟨query, chunks, total, asked, unfinished, some, computed, ran⟩

end Inversion

end RecurseX.Doq
