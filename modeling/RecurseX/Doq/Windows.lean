import RecurseX.Doq.FlowControl
import RecurseX.Doq.Identifiers

/-!
# Receive windows

What the server may send is the connection's word: its transport parameters, and the frames
that raise them. The connection raises a limit with the data that arrives, and keeps one figure
of what arrived for all its responses.
-/

namespace RecurseX.Doq

open Library Wire Stateful QuicConnection

variable {PacketKey RootStore : Type}

/-! ## What arrived, and what may -/

/-- The frame that arrived with an event. -/
def Event.framesReceived : Event PacketKey → List Frame
  | .received _ frame => [frame]
  | _ => []

/-- All frames that arrived. -/
def framesReceived (log : List (Event PacketKey)) : List Frame := log.flatMap Event.framesReceived

/-- How much of a stream there is in some frames. -/
def dataOn (frames : List Frame) (streamId : Nat) : Nat :=
  largest 0 (frames.filterMap (Frame.streamEnd streamId))

/-- How much of all streams there is in some frames. -/
def dataTotal (frames : List Frame) : Nat :=
  ∑ streamId ∈ (frames.filterMap Frame.stream?).toFinset, dataOn frames streamId

/-- The limit a frame sets for a stream. -/
def Frame.streamLimit (streamId : Nat) : Frame → Option Nat
  | .maxStreamData other limit => if other = streamId then some limit else none
  | _ => none

section Limits

variable (codec : Codec PacketKey)

/-- The limit that a stream starts with. -/
def TransportParams.streamLimit (params : TransportParams) (streamId : Nat) : Nat :=
  if codec.streamType streamId = codec.serverUni then params.initialMaxStreamDataUni
  else if codec.streamType streamId = codec.clientBidi then params.initialMaxStreamDataBidiLocal
  else params.initialMaxStreamDataBidiRemote

/-- The limit that the server knows for a stream. -/
def advertised (conn : QuicConnection PacketKey RootStore) (streamId : Nat) : Nat :=
  largest (conn.tlsCfg.transportParams.streamLimit codec streamId)
    ((framesSent conn.log).filterMap (Frame.streamLimit streamId))

/-- The stream is the one of the query. -/
def IsQuery (conn : QuicConnection PacketKey RootStore) (streamId : Nat) : Prop :=
  codec.streamType streamId ≠ codec.serverUni ∧ codec.streamType streamId = codec.clientBidi ∧
    streamId = conn.streamId

end Limits

/-- How long the response is with the data of a frame. -/
def reachOf (conn : QuicConnection PacketKey RootStore) (offset : Nat) (data : Bytes) : Nat :=
  max conn.queryRx.buf.length (offset + data.length)

section Data

variable {log extra : List (Event PacketKey)} {frames : List Frame} {frame : Frame}

theorem framesReceived_append (log extra : List (Event PacketKey)) :
    framesReceived (log ++ extra) = framesReceived log ++ framesReceived extra := List.flatMap_append

theorem lt_largest_append {start value : Nat} {values others : List Nat} :
    value < largest start (values ++ others) ↔
      value < largest start values ∨ ∃ other ∈ others, value < other := by
  rw [← not_iff_not]
  simp only [not_lt, not_or, not_exists, not_and, largest_le_iff, List.mem_append]
  constructor
  · rintro ⟨starts, bounded⟩
    exact ⟨⟨starts, fun other member => bounded other (.inl member)⟩,
      fun other member => bounded other (.inr member)⟩
  · rintro ⟨⟨starts, bounded⟩, more⟩
    exact ⟨starts, fun other member => member.elim (bounded other) (more other)⟩

/-- A frame without data of the stream does not count on it. -/
theorem dataOn_other {streamId : Nat} (other : frame.streamEnd streamId = none) :
    dataOn (frames ++ [frame]) streamId = dataOn frames streamId := by
  simp [dataOn, List.filterMap_append, other]

/-- A frame with data of the stream counts where it ends. -/
theorem dataOn_own {streamId stop : Nat} (own : frame.streamEnd streamId = some stop) :
    dataOn (frames ++ [frame]) streamId = max (dataOn frames streamId) stop := by
  refine eq_of_forall_lt_iff fun value => ?_
  simp [dataOn, List.filterMap_append, own, lt_largest_append]

theorem lookup_putConsumed {streamId consumed other : Nat} {counts : List (Nat × Nat)} :
    (putConsumed streamId consumed counts).lookup other =
      if other = streamId then some consumed else counts.lookup other := by
  induction counts with
  | nil =>
      by_cases same : other = streamId
      · simp [putConsumed, same]
      · have different : (other == streamId) = false := by simpa using same
        simp [putConsumed, same, List.lookup_cons, different]
  | cons first counts inductionHypothesis =>
      obtain ⟨own, count⟩ := first
      rw [putConsumed]
      split_ifs with found same same
      · simp [same]
      · subst found
        have different : (other == own) = false := by simpa using same
        simp [List.lookup_cons, different]
      · subst same
        have different : (other == own) = false := by simpa using Ne.symm found
        rw [List.lookup_cons, different]
        simpa using inductionHypothesis
      · rw [List.lookup_cons, List.lookup_cons, inductionHypothesis, if_neg same]

end Data

/-! ## What leaves the windows alone -/

section Walk

variable {codec : Codec PacketKey} {crypto : Crypto RootStore} {env : Env} {data : Prop}
variable {conn after : QuicConnection PacketKey RootStore}

/-- The figures of the windows, and what arrived. -/
def windows (conn : QuicConnection PacketKey RootStore) :
    Nat × Nat × Nat × List (Nat × Nat) × List Frame :=
  (conn.connRxConsumed, conn.ourMaxData, conn.ourMaxStreamDataBidiLocal, conn.uniConsumed,
    framesReceived conn.log)

/-- An event with which nothing arrives. -/
theorem windows_note {event : Event PacketKey} (outgoing : event.framesReceived = []) :
    windows { conn with log := conn.log ++ [event] } = windows conn := by
  simp [windows, framesReceived, outgoing]

theorem windows_untold : Untold (@windows PacketKey RootStore) where
  handed _ _ _ := windows_note rfl
  sent _ _ _ _ _ := windows_note rfl
  acks _ _ := rfl
  probes _ _ _ := rfl
  asked _ _ := rfl
  shut _ _ := rfl
  parted _ := rfl

theorem Change.windows (change : Change codec crypto data conn after) (other : ¬ data) :
    Doq.windows after = Doq.windows conn := by
  cases change with
  | handed env space frame => exact (sendPacket_keeps windows_untold.toUnsent).keeps (run_eq rfl)
  | acked env space largest delay ranges =>
      obtain ⟨srtt, rttvar, ptoCount, taken⟩ :=
        @Ledger.onAck_run _ _ conn env space largest delay ranges
      rw [taken]
      rfl
  | completed | accepted => exact windows_note rfl
  | drained _ _ stream | answered _ _ stream | announced _ _ _ _ stream => exact absurd stream other
  | buffered | fed | keyed | readable | limited | confirmed | closed => rfl

/-- A frame without stream data leaves the windows alone, once it is noted. -/
theorem processFrame_windows {space : Space} {frame : Frame} {outcome : Except Error Unit}
    (other : frame.isStream = false)
    (ran : processFrame codec env crypto space frame conn = (outcome, after)) :
    windows after = windows (Ledger.noting conn space frame) := by
  have changes := processFrame_changes ran
  clear ran
  induction changes with
  | refl => rfl
  | tail _ change inductionHypothesis =>
      exact (change.windows (by simp [other])).trans inductionHypothesis

/-! ## What the windows keep to -/

/-- The largest connection limit there is. -/
def CONNECTION_CAP : Nat := 2 ^ 21

/-- The figures of the connection and of the response are the first ones or twice as much, and a
stream of the server's own is drained as far as it arrived. -/
structure Limited (codec : Codec PacketKey) (conn : QuicConnection PacketKey RootStore) : Prop where
  consumed : conn.connRxConsumed ≤ MAX_RESPONSE_BUFFER
  total : conn.ourMaxData = MAX_RESPONSE_BUFFER ∨ conn.ourMaxData = CONNECTION_CAP
  response : conn.ourMaxStreamDataBidiLocal = MAX_RESPONSE_BUFFER ∨
    conn.ourMaxStreamDataBidiLocal = CONNECTION_CAP
  drained : ∀ streamId, codec.streamType streamId = codec.serverUni →
    (conn.uniConsumed.lookup streamId).getD 0 = dataOn (framesReceived conn.log) streamId

theorem Limited.congr (limited : Limited codec conn) (same : windows after = windows conn) :
    Limited codec after := by
  simp only [windows, Prod.mk.injEq] at same
  obtain ⟨consumed, total, response, drained, received⟩ := same
  refine ⟨?_, ?_, ?_, ?_⟩
  · exact consumed ▸ limited.consumed
  · exact total ▸ limited.total
  · exact response ▸ limited.response
  · rw [drained, received]
    exact limited.drained

theorem limited_sequential :
    Sequential (fun before after : QuicConnection PacketKey RootStore =>
      Limited codec before → Limited codec after)
      (fun before after => Limited codec before → Limited codec after) where
  refl _ := id
  trans first second limited := second (first limited)
  stop _ := id
  fails first second limited := second (first limited)

/-- A frame that is no data of a stream of the server's own. -/
theorem Limited.noting (limited : Limited codec conn) {space : Space} {frame : Frame}
    (other : ∀ streamId, codec.streamType streamId = codec.serverUni →
      frame.streamEnd streamId = none) : Limited codec (Ledger.noting conn space frame) := by
  refine ⟨limited.consumed, limited.total, limited.response, fun streamId uni => ?_⟩
  have kept : framesReceived (Ledger.noting conn space frame).log =
      framesReceived conn.log ++ [frame] := framesReceived_append _ _
  rw [kept, dataOn_other (other streamId uni)]
  exact limited.drained streamId uni

theorem Frame.streamEnd_of_not_isStream {frame : Frame} (other : frame.isStream = false)
    (streamId : Nat) : frame.streamEnd streamId = none := by
  cases frame with
  | stream => cases other
  | _ => rfl

/-- A limit is doubled, and the window that is doubled is one of the first size. -/
theorem replenish_limited {used limit : Nat} {announce : Nat → Frame}
    {put : Nat → QuicConnection PacketKey RootStore → QuicConnection PacketKey RootStore}
    (bounded : used ≤ MAX_RESPONSE_BUFFER)
    (window : limit = MAX_RESPONSE_BUFFER ∨ limit = CONNECTION_CAP)
    (doubled : ∀ conn, Limited codec conn → Limited codec (put CONNECTION_CAP conn)) :
    Moves (fun before after => Limited codec before → Limited codec after)
      (fun before after => Limited codec before → Limited codec after)
      (replenish codec env used limit announce put) conn := by
  have rules := @limited_sequential _ RootStore codec
  unfold replenish
  split_ifs with more
  · have first : min (limit * 2) u64Max = CONNECTION_CAP := by
      unfold MAX_RESPONSE_BUFFER CONNECTION_CAP u64Max at *
      omega
    refine rules.bind (.of_after fun limited => ?_) fun _ middle _ _ =>
      Sequential.update fun limited => ?_
    · exact limited.congr ((sendPacket_keeps windows_untold.toUnsent).keeps (run_eq rfl))
    · rw [first]
      exact doubled middle limited
  · exact rules.pure

theorem maybeReplenishWindows_limited (bounded : conn.queryRx.buf.length ≤ MAX_RESPONSE_BUFFER)
    (limited : Limited codec conn) :
    Limited codec (maybeReplenishWindows codec env conn).2 := by
  have rules := @limited_sequential _ RootStore codec
  unfold maybeReplenishWindows
  rw [read_bind_run]
  have first : Moves _ _ (replenish codec env conn.queryRx.buf.length
      conn.ourMaxStreamDataBidiLocal (.maxStreamData conn.streamId) fun limit self =>
        { self with ourMaxStreamDataBidiLocal := limit }) conn :=
    replenish_limited bounded limited.response fun _ limited =>
      ⟨limited.consumed, limited.total, .inr rfl, limited.drained⟩
  refine (rules.bind first fun _ middle _ moved => Sequential.read_bind ?_).all (run_eq rfl) limited
  exact replenish_limited (moved limited).consumed (moved limited).total fun _ limited =>
    ⟨limited.consumed, .inr rfl, limited.response, limited.drained⟩

theorem onResponse_limited {offset : Nat} {octets : Bytes} {fin : Bool}
    (limited : Limited codec conn) :
    Limited codec (onResponse codec env offset octets fin conn).2 := by
  unfold onResponse
  rw [read_bind_run]
  cases placeResponse conn.queryRx.buf offset octets with
  | none => exact limited.congr rfl
  | some buf =>
      dsimp only
      rw [update_bind_run]
      split_ifs with long
      · exact limited.congr rfl
      · rw [update_bind_run]
        have bounded := Nat.not_lt.mp long
        exact maybeReplenishWindows_limited bounded
          ⟨max_le limited.consumed bounded, limited.total, limited.response, limited.drained⟩

theorem maybeReplenishUni_windows {streamId : Nat} :
    Moves (Keeps windows) (Keeps windows) (maybeReplenishUni codec env streamId) conn := by
  have rules := keeps_sequential (@windows PacketKey RootStore)
  refine Sequential.read_bind (rules.bind
    (replenish_keeps windows_untold.toUnsent fun _ _ => rfl) fun _ middle _ _ => ?_)
  exact Sequential.read_bind (replenish_keeps windows_untold.toUnsent fun _ _ => rfl)

/-- A stream of the server's own is drained as far as it arrived. -/
theorem drainUni_limited {space : Space} {streamId offset : Nat} {octets : Bytes} {frame : Frame}
    (own : frame.streamEnd streamId = some (offset + octets.length))
    (only : ∀ other, other ≠ streamId → frame.streamEnd other = none)
    (uni : codec.streamType streamId = codec.serverUni) (limited : Limited codec conn) :
    Limited codec
      (drainUni codec env streamId offset octets (Ledger.noting conn space frame)).2 := by
  unfold drainUni
  rw [update_bind_run]
  refine Limited.congr ?_ (maybeReplenishUni_windows.keeps (run_eq rfl))
  refine ⟨limited.consumed, limited.total, limited.response, fun other isUni => ?_⟩
  have kept : framesReceived (Ledger.noting conn space frame).log =
      framesReceived conn.log ++ [frame] := framesReceived_append _ _
  change ((putConsumed streamId _ conn.uniConsumed).lookup other).getD 0 =
    dataOn (framesReceived (Ledger.noting conn space frame).log) other
  rw [lookup_putConsumed, kept]
  split_ifs with same
  · subst same
    rw [dataOn_own own, ← limited.drained other uni]
    rfl
  · rw [dataOn_other (only other same)]
    exact limited.drained other isUni

theorem onStream_limited {space : Space} {streamId : Nat} {offset length : Option Nat}
    {octets : Bytes} {fin : Bool} (limited : Limited codec conn) :
    Limited codec (onStream codec env streamId (offset.getD 0) octets fin
      (Ledger.noting conn space (.stream streamId offset octets length fin))).2 := by
  unfold onStream
  rw [read_bind_run]
  split_ifs with uni foreign
  · refine drainUni_limited ?_ (fun other different => ?_) uni limited
    · rw [Frame.streamEnd, if_pos rfl]
    · rw [Frame.streamEnd, if_neg (Ne.symm different)]
  all_goals
    have noted : Limited codec
        (Ledger.noting conn space (.stream streamId offset octets length fin)) := by
      refine limited.noting fun other isUni => ?_
      rw [Frame.streamEnd, if_neg]
      rintro rfl
      exact uni isUni
  · exact noted.congr ((sendPacket_keeps windows_untold.toUnsent).keeps (run_eq rfl))
  · exact onResponse_limited noted

theorem processFrame_limited {space : Space} {frame : Frame} :
    Moves (fun before after => Limited codec before → Limited codec after)
      (fun before after => Limited codec before → Limited codec after)
      (processFrame codec env crypto space frame) conn := by
  refine .of_after fun limited => ?_
  cases data : frame.isStream with
  | false =>
      have noted : Limited codec (Ledger.noting conn space frame) :=
        limited.noting fun streamId _ => Frame.streamEnd_of_not_isStream data streamId
      exact noted.congr (processFrame_windows data (run_eq rfl))
  | true =>
      cases frame with
      | stream streamId offset octets length fin => exact onStream_limited limited
      | _ => cases data

theorem processFrames_limited {space : Space} {frames : List Frame} {outcome : Except Error Unit}
    (limited : Limited codec conn)
    (ran : each (processFrame codec env crypto space) frames conn = (outcome, after)) :
    Limited codec after :=
  (limited_sequential.each fun _ _ _ => processFrame_limited).all ran limited

theorem processPlaintext_limited {space : Space} {pn : Nat} {plaintext : Bytes}
    (limited : Limited codec conn) :
    Limited codec (processPlaintext codec env crypto space pn plaintext conn).2 := by
  have rules := @limited_sequential _ RootStore codec
  refine (rules.bind (rules.each fun _ _ _ => processFrame_limited) fun _ middle _ _ => ?_).all
    (run_eq rfl) limited
  split_ifs
  · exact Sequential.update fun limited => limited.congr rfl
  · exact rules.pure

/-! ## Runs -/

theorem learning_windows (header : Header) : windows (conn.learning header) = windows conn := by
  unfold learning
  split_ifs <;> rfl

theorem greet_windows {hello : Bytes} :
    Moves (Keeps windows) (Keeps windows) (greet codec env hello) conn :=
  (keeps_sequential windows).bind (sendPacket_keeps windows_untold.toUnsent)
    fun _ _ _ _ => Sequential.update rfl

theorem applyRetry_windows {retry : RetryPacket} :
    Moves (Keeps windows) (Keeps windows) (applyRetry codec env retry) conn := by
  have rules := keeps_sequential (@windows PacketKey RootStore)
  refine Sequential.read_bind (rules.update_bind rfl (rules.lift_bind fun write _ => ?_))
  refine rules.update_bind rfl (rules.lift_bind fun read _ => ?_)
  refine rules.update_bind (windows_note rfl) (rules.bind ?_ fun hello _ _ _ => greet_windows)
  exact Sequential.read_bind (rules.update_bind rfl rules.pure)

/-- The windows keep to it in every turn. -/
theorem turn_limited (lawful : codec.Lawful) (turn : Turn) (limited : Limited codec conn) :
    Limited codec (turn.act codec crypto conn).2 := by
  cases turn with
  | greet env hello => exact limited.congr (greet_windows.keeps (run_eq rfl))
  | other op undelivered =>
      cases started : op.isStart with
      | false =>
          exact limited.congr ((op_keeps windows_untold undelivered started).keeps (run_eq rfl))
      | true =>
          cases op with
          | openStream query =>
              rcases openStream_cases (run_eq rfl) with ⟨-, same⟩ | ⟨-, -, same⟩
              · exact limited.congr (congrArg windows same)
              · exact limited.congr (congrArg windows same :)
          | _ => cases started
  | packet env dg =>
      obtain ⟨header, space, pn, plaintext, opens⟩ | ⟨retry, -, ran⟩ | ⟨-, passed⟩ :=
        @packet_cases _ _ codec conn lawful env crypto dg
      · rw [opens.turn lawful]
        exact processPlaintext_limited (limited.congr (learning_windows header))
      · rw [ran]
        exact limited.congr (applyRetry_windows.keeps (run_eq rfl))
      · obtain same | ⟨error, same⟩ | ⟨header, same⟩ := passed
        · exact limited.congr (congrArg windows same)
        · exact limited.congr (congrArg windows same :)
        · exact limited.congr ((congrArg windows same).trans (learning_windows header))

theorem turnAll_limited (lawful : codec.Lawful) {turns : List Turn} (limited : Limited codec conn) :
    Limited codec (turnAll codec crypto turns conn) := by
  induction turns generalizing conn with
  | nil => exact limited
  | cons turn turns inductionHypothesis => exact inductionHypothesis (turn_limited lawful turn limited)

theorem fresh_limited {cfg : ClientConfig RootStore} {entropy : Entropy}
    {localCid serverCid hello : Bytes}
    (opened : QuicConnection.fresh codec cfg entropy localCid serverCid = .ok (hello, conn)) :
    Limited codec conn := by
  unfold QuicConnection.fresh at opened
  obtain ⟨write, -, opened⟩ := bind_eq_ok.mp opened
  obtain ⟨read, -, opened⟩ := bind_eq_ok.mp opened
  cases opened
  exact ⟨Nat.zero_le _, .inl rfl, .inl rfl, fun _ _ => rfl⟩

/-! ## A frame with stream data -/

/-- What a limit becomes where it is half used up. -/
def raised (used limit : Nat) : Nat := if limit < used * 2 then min (limit * 2) u64Max else limit

/-- The announcement of a limit that is raised. -/
def raises (used limit : Nat) (announce : Nat → Frame) : List Frame :=
  if limit < used * 2 then [announce (min (limit * 2) u64Max)] else []

variable {τ : Type} {view : QuicConnection PacketKey RootStore → τ}
variable {used limit : Nat} {announce : Nat → Frame}
variable {put : Nat → QuicConnection PacketKey RootStore → QuicConnection PacketKey RootStore}

theorem replenish_took (unlogged : ∀ limit conn, (put limit conn).log = conn.log)
    (ran : replenish codec env used limit announce put conn = (.ok (), after)) :
    framesReceived after.log = framesReceived conn.log ∧
      framesSent after.log = framesSent conn.log ++ raises used limit announce := by
  unfold replenish at ran
  unfold raises
  split_ifs at ran ⊢ with more
  · obtain ⟨_, middle, went, ran⟩ := bind_eq_ok_iff.mp ran
    obtain ⟨key, -, -, rfl⟩ | ⟨error, failed, -⟩ := Ledger.sendPacket_cases went
    · cases ran
      rw [unlogged]
      constructor
      · simp [framesReceived, Ledger.handing, afterSend, Event.framesReceived]
      · simp [framesSent, Ledger.handing, afterSend, Event.framesSent]
    · cases failed
  · cases ran
    exact ⟨rfl, (List.append_nil _).symm⟩

/-- A figure that is put is the raised one. -/
theorem replenish_raised (get : QuicConnection PacketKey RootStore → Nat)
    (puts : ∀ limit conn, get (put limit conn) = limit)
    (ran : replenish codec env used (get conn) announce put conn = (.ok (), after)) :
    get after = raised used (get conn) := by
  unfold replenish at ran
  unfold raised
  split_ifs at ran ⊢ with more
  · obtain ⟨_, middle, -, ran⟩ := bind_eq_ok_iff.mp ran
    cases ran
    exact puts _ middle
  · cases ran
    rfl

theorem placeResponse_length {buf placed octets : Bytes} {offset : Nat}
    (fits : placeResponse buf offset octets = some placed) :
    placed.length = max buf.length (offset + octets.length) := by
  rcases Nat.lt_or_ge buf.length offset with past | within
  · have bounded : offset + octets.length ≤ MAX_RESPONSE_BUFFER := by
      by_contra long
      rw [Piece.placeResponse_eq_none.mpr ⟨past, Nat.not_le.mp long⟩] at fits
      cases fits
    rw [Piece.placeResponse_of_lt past bounded] at fits
    cases fits
    simp only [List.length_append, List.length_replicate]
    omega
  · rw [Piece.placeResponse_of_le within] at fits
    cases fits
    simp only [List.length_append, List.length_drop]
    omega

/-- What a raised limit lets through. -/
theorem lt_advertised {used limit value streamId : Nat} {later : List Frame}
    (sent : framesSent after.log = framesSent conn.log ++ raises used limit (.maxStreamData streamId) ++
      later)
    (others : later.filterMap (Frame.streamLimit streamId) = [])
    (params : after.tlsCfg = conn.tlsCfg) :
    value < advertised codec after streamId ↔
      value < advertised codec conn streamId ∨ limit < used * 2 ∧ value < min (limit * 2) u64Max := by
  unfold advertised
  rw [params, sent, List.filterMap_append, List.filterMap_append, others, List.append_nil,
    lt_largest_append, raises]
  refine or_congr_right ?_
  split_ifs with more
  · simp [Frame.streamLimit, more]
  · simp [more]

/-- What the windows of the response are raised by. -/
def figures (conn : QuicConnection PacketKey RootStore) : ClientConfig RootStore × Nat × Nat :=
  (conn.tlsCfg, conn.connRxConsumed, conn.ourMaxData)

theorem figures_unsent : Unsent (@figures PacketKey RootStore) :=
  ⟨fun _ _ _ => rfl, fun _ _ _ _ _ => rfl⟩

/-- What there is after data of the query's stream. -/
theorem onResponse_took {offset : Nat} {octets : Bytes} {fin : Bool}
    (ran : onResponse codec env offset octets fin conn = (.ok (), after)) :
    framesReceived after.log = framesReceived conn.log ∧ after.tlsCfg = conn.tlsCfg ∧
      reachOf conn offset octets ≤ MAX_RESPONSE_BUFFER ∧
      after.ourMaxData =
        raised (max conn.connRxConsumed (reachOf conn offset octets)) conn.ourMaxData ∧
      ∃ later, framesSent after.log = framesSent conn.log ++
        raises (reachOf conn offset octets) conn.ourMaxStreamDataBidiLocal
          (.maxStreamData conn.streamId) ++ later ∧
        later.filterMap (Frame.streamLimit conn.streamId) = [] := by
  unfold onResponse at ran
  rw [read_bind_run] at ran
  cases placed : placeResponse conn.queryRx.buf offset octets with
  | none =>
      rw [placed] at ran
      cases ran
  | some buf =>
      have reach : buf.length = reachOf conn offset octets := placeResponse_length placed
      rw [placed] at ran
      dsimp only at ran
      rw [update_bind_run] at ran
      split_ifs at ran with long
      · cases ran
      · rw [update_bind_run] at ran
        unfold maybeReplenishWindows at ran
        rw [read_bind_run] at ran
        obtain ⟨_, middle, first, ran⟩ := bind_eq_ok_iff.mp ran
        rw [read_bind_run] at ran
        obtain ⟨received, sent⟩ := replenish_took (by exact fun _ _ => rfl) first
        obtain ⟨receives, sends⟩ := replenish_took (by exact fun _ _ => rfl) ran
        have kept := (replenish_keeps figures_unsent (by exact fun _ _ => rfl)).keeps first
        simp only [figures, Prod.mk.injEq] at kept
        obtain ⟨params, consumed, total⟩ := kept
        have same : after.tlsCfg = middle.tlsCfg :=
          (replenish_keeps ⟨fun _ _ _ => rfl, fun _ _ _ _ _ => rfl⟩ (by exact fun _ _ => rfl)).keeps ran
        have raised := replenish_raised (·.ourMaxData) (by exact fun _ _ => rfl) ran
        rw [consumed, total] at raised
        rw [reach] at sent raised long
        refine ⟨receives.trans received, same.trans params, Nat.not_lt.mp long, raised,
          raises middle.connRxConsumed middle.ourMaxData .maxData, ?_, ?_⟩
        · rw [sends, sent]
        · unfold raises
          split_ifs <;> rfl

/-- What there is after data of a stream of the server's own. -/
theorem drainUni_took {streamId offset : Nat} {octets : Bytes}
    (ran : drainUni codec env streamId offset octets conn = (.ok (), after)) :
    framesReceived after.log = framesReceived conn.log ∧ after.tlsCfg = conn.tlsCfg ∧
      after.ourMaxData = conn.ourMaxData ∧
      ∃ later, framesSent after.log = framesSent conn.log ++
        raises (max ((conn.uniConsumed.lookup streamId).getD 0) (offset + octets.length))
          conn.ourMaxStreamDataUni (.maxStreamData streamId) ++ later ∧
        later.filterMap (Frame.streamLimit streamId) = [] := by
  unfold drainUni at ran
  rw [update_bind_run] at ran
  unfold maybeReplenishUni at ran
  rw [read_bind_run] at ran
  dsimp only at ran
  rw [lookup_putConsumed, if_pos rfl, Option.getD_some] at ran
  obtain ⟨_, middle, first, ran⟩ := bind_eq_ok_iff.mp ran
  rw [read_bind_run] at ran
  obtain ⟨received, sent⟩ := replenish_took (by exact fun _ _ => rfl) first
  obtain ⟨receives, sends⟩ := replenish_took (by exact fun _ _ => rfl) ran
  have kept := (replenish_keeps figures_unsent (by exact fun _ _ => rfl)).keeps first
  have keeps := (replenish_keeps figures_unsent (by exact fun _ _ => rfl)).keeps ran
  simp only [figures, Prod.mk.injEq] at kept keeps
  refine ⟨receives.trans received, keeps.1.trans kept.1, keeps.2.2.trans kept.2.2,
    raises middle.serverUniOpened middle.ourMaxStreamsUni (.maxStreams true), ?_, ?_⟩
  · rw [sends, sent]
  · unfold raises
    split_ifs <;> rfl

/-- What there is after data of any other stream, which is reset. -/
theorem reset_took {streamId code size : Nat}
    (ran : sendPacket codec env .application [.resetStream streamId code size] false conn =
      (.ok (), after)) :
    framesReceived after.log = framesReceived conn.log ∧ after.tlsCfg = conn.tlsCfg ∧
      after.ourMaxData = conn.ourMaxData ∧
      framesSent after.log = framesSent conn.log ++ [.resetStream streamId code size] := by
  obtain ⟨key, -, -, rfl⟩ | ⟨error, failed, -⟩ := Ledger.sendPacket_cases ran
  · refine ⟨?_, rfl, rfl, ?_⟩
    · simp [framesReceived, Ledger.handing, afterSend, Event.framesReceived]
    · simp [framesSent, Ledger.handing, afterSend, Event.framesSent]
  · cases failed

/-- A window of the first size is doubled once, past its half. -/
theorem raised_of_limited {used limit : Nat} (bounded : used ≤ MAX_RESPONSE_BUFFER)
    (window : limit = MAX_RESPONSE_BUFFER ∨ limit = CONNECTION_CAP) (value : Nat) :
    value < raised used limit ↔ value < MAX_RESPONSE_BUFFER ∨
      value < CONNECTION_CAP ∧ (limit = CONNECTION_CAP ∨ 2 ^ 19 < used) := by
  unfold raised MAX_RESPONSE_BUFFER CONNECTION_CAP u64Max at *
  split_ifs <;> omega

theorem lt_raised_iff {used limit value : Nat} (bounded : used ≤ MAX_RESPONSE_BUFFER)
    (window : limit = MAX_RESPONSE_BUFFER ∨ limit = CONNECTION_CAP) :
    limit < used * 2 ∧ value < min (limit * 2) u64Max ↔
      limit = MAX_RESPONSE_BUFFER ∧ 2 ^ 19 < used ∧ value < CONNECTION_CAP := by
  unfold MAX_RESPONSE_BUFFER CONNECTION_CAP u64Max at *
  omega

end Walk

section Taking

variable {codec : Codec PacketKey} {conn : QuicConnection PacketKey RootStore}

/-- Where a frame raises no connection limit, it is the one of before. -/
theorem Limited.lt_total_iff (limited : Limited codec conn) {asked more : Prop} (unasked : ¬ asked)
    {value : Nat} :
    value < conn.ourMaxData ↔ value < MAX_RESPONSE_BUFFER ∨
      value < CONNECTION_CAP ∧ (conn.ourMaxData = CONNECTION_CAP ∨ asked ∧ more) := by
  rcases limited.total with first | doubled
  · rw [first]
    unfold MAX_RESPONSE_BUFFER CONNECTION_CAP
    simp [unasked]
  · rw [doubled]
    unfold MAX_RESPONSE_BUFFER CONNECTION_CAP
    simp [unasked]
    omega

theorem advertised_same {after : QuicConnection PacketKey RootStore} {streamId : Nat}
    {later : List Frame} (sent : framesSent after.log = framesSent conn.log ++ later)
    (others : later.filterMap (Frame.streamLimit streamId) = [])
    (params : after.tlsCfg = conn.tlsCfg) :
    advertised codec after streamId = advertised codec conn streamId := by
  rw [advertised, params, sent, List.filterMap_append, others, List.append_nil, advertised]

theorem advertised_noting {space : Space} {frame : Frame} {streamId : Nat} :
    advertised codec (Ledger.noting conn space frame) streamId = advertised codec conn streamId := by
  simp [advertised, Ledger.noting, framesSent, Event.framesSent]

/-- What a STREAM frame does to the limits: it is data of the server's own stream, or of a stream
that is reset, or of the query's stream. -/
theorem stream_took {crypto : Crypto RootStore} {env : Env} {after : QuicConnection PacketKey RootStore}
    {space : Space} {streamId : Nat} {offset length : Option Nat} {data : Bytes} {fin : Bool}
    (took : processFrame codec env crypto space (.stream streamId offset data length fin) conn =
      (.ok (), after)) :
    framesReceived after.log =
        framesReceived conn.log ++ [.stream streamId offset data length fin] ∧
      ((codec.streamType streamId = codec.serverUni ∧ ¬ IsQuery codec conn streamId ∧
          after.ourMaxData = conn.ourMaxData ∧
          ∀ value, value < advertised codec after streamId ↔
            value < advertised codec conn streamId ∨
            conn.ourMaxStreamDataUni < max ((conn.uniConsumed.lookup streamId).getD 0)
              (offset.getD 0 + data.length) * 2 ∧ value < min (conn.ourMaxStreamDataUni * 2) u64Max) ∨
        (codec.streamType streamId ≠ codec.serverUni ∧ ¬ IsQuery codec conn streamId ∧
          after.ourMaxData = conn.ourMaxData ∧
          advertised codec after streamId = advertised codec conn streamId) ∨
        codec.streamType streamId ≠ codec.serverUni ∧ IsQuery codec conn streamId ∧
          reachOf conn (offset.getD 0) data ≤ MAX_RESPONSE_BUFFER ∧
          after.ourMaxData = raised (max conn.connRxConsumed (reachOf conn (offset.getD 0) data))
            conn.ourMaxData ∧
          ∀ value, value < advertised codec after streamId ↔
            value < advertised codec conn streamId ∨
            conn.ourMaxStreamDataBidiLocal < reachOf conn (offset.getD 0) data * 2 ∧
              value < min (conn.ourMaxStreamDataBidiLocal * 2) u64Max) := by
  have noted : framesReceived
      (Ledger.noting conn space (.stream streamId offset data length fin)).log =
        framesReceived conn.log ++ [.stream streamId offset data length fin] :=
    framesReceived_append _ _
  change onStream codec env streamId (offset.getD 0) data fin
    (Ledger.noting conn space (.stream streamId offset data length fin)) = (.ok (), after) at took
  unfold onStream at took
  rw [read_bind_run] at took
  split_ifs at took with uni foreign
  · obtain ⟨received, params, total, more, sent, others⟩ := drainUni_took took
    refine ⟨received.trans noted, .inl ⟨uni, fun asked => asked.1 uni, total, fun value => ?_⟩⟩
    refine (lt_advertised sent others params).trans ?_
    rw [advertised_noting]
    rfl
  · obtain ⟨received, params, total, sent⟩ := reset_took took
    refine ⟨received.trans noted, .inr (.inl ⟨uni, fun asked => ?_, total, ?_⟩)⟩
    · exact foreign.elim (absurd asked.2.1) (absurd asked.2.2)
    · exact (advertised_same sent rfl params).trans advertised_noting
  · obtain ⟨received, params, bounded, total, more, sent, others⟩ := onResponse_took took
    simp only [not_or, not_not] at foreign
    obtain ⟨bidi, own⟩ := foreign
    rw [← own] at sent others
    refine ⟨received.trans noted, .inr (.inr ⟨uni, ⟨uni, bidi, own⟩, bounded, total, fun value => ?_⟩)⟩
    refine (lt_advertised sent others params).trans ?_
    rw [advertised_noting]
    rfl

end Taking

/-- A run comes to a frame of a packet: the packet opens, and the frames before it were taken. -/
def ComesTo (codec : Codec PacketKey) (crypto : Crypto RootStore)
    (conn : QuicConnection PacketKey RootStore) (env : Env) (space : Space) (frame : Frame)
    (middle : QuicConnection PacketKey RootStore) : Prop :=
  ∃ turns dg header pn plaintext first later,
    Opens codec (turnAll codec crypto turns conn) dg header space pn plaintext ∧
    decodeFrames codec plaintext.length plaintext = first ++ frame :: later ∧
    each (processFrame codec env crypto space) first
      (((turnAll codec crypto turns conn).learning header).numbering space pn) = (.ok (), middle)

/-- **The windows keep up.** In every run, after a STREAM frame that was taken, the connection
limit is above all data that arrived exactly where that is below the first limit, or below twice
the first and a response was longer than half of it. The limit of the frame's stream is above the
data on it exactly where it was so before; or where it is the query's stream, no response had its
limit raised before, and this one is longer than half of it; or where it is a stream of the
server's own, and the limit all of these share is less than twice the data on this one. -/
theorem windows_keep_up_iff (codec : Codec PacketKey) (lawful : codec.Lawful)
    (crypto : Crypto RootStore) (cfg : ClientConfig RootStore) (entropy : Entropy)
    (localCid serverCid hello : Bytes) (conn middle after : QuicConnection PacketKey RootStore)
    (env : Env) (space : Space) (streamId : Nat) (offset length : Option Nat) (data : Bytes)
    (fin : Bool)
    (opened : QuicConnection.fresh codec cfg entropy localCid serverCid = .ok (hello, conn))
    (comes : ComesTo codec crypto conn env space (.stream streamId offset data length fin) middle)
    (took : processFrame codec env crypto space (.stream streamId offset data length fin) middle =
      (.ok (), after)) :
    let arrived := framesReceived middle.log ++ [.stream streamId offset data length fin]
    (dataTotal (framesReceived after.log) < after.ourMaxData ↔
      dataTotal arrived < MAX_RESPONSE_BUFFER ∨
      dataTotal arrived < CONNECTION_CAP ∧ (middle.ourMaxData = CONNECTION_CAP ∨
        IsQuery codec middle streamId ∧
          2 ^ 19 < max middle.connRxConsumed (reachOf middle (offset.getD 0) data))) ∧
    (dataOn (framesReceived after.log) streamId < advertised codec after streamId ↔
      dataOn arrived streamId < advertised codec middle streamId ∨
      IsQuery codec middle streamId ∧ middle.ourMaxStreamDataBidiLocal = MAX_RESPONSE_BUFFER ∧
        2 ^ 19 < reachOf middle (offset.getD 0) data ∧ dataOn arrived streamId < CONNECTION_CAP ∨
      codec.streamType streamId = codec.serverUni ∧
        middle.ourMaxStreamDataUni < dataOn arrived streamId * 2 ∧
        dataOn arrived streamId < min (middle.ourMaxStreamDataUni * 2) u64Max) := by
  obtain ⟨turns, dg, header, pn, plaintext, first, later, -, -, prior⟩ := comes
  have limited : Limited codec middle := by
    have start : Limited codec (((turnAll codec crypto turns conn).learning header).numbering
        space pn) :=
      (turnAll_limited lawful (fresh_limited opened)).congr (learning_windows header)
    exact processFrames_limited start prior
  intro arrived
  obtain ⟨received, ⟨uni, unasked, total, limits⟩ | ⟨uni, unasked, total, same⟩ |
    ⟨uni, asked, bounded, total, limits⟩⟩ := stream_took took
  · have used : max ((middle.uniConsumed.lookup streamId).getD 0) (offset.getD 0 + data.length) =
        dataOn arrived streamId := by
      rw [limited.drained streamId uni]
      exact (dataOn_own (by rw [Frame.streamEnd, if_pos rfl])).symm
    rw [used] at limits
    rw [received, total]
    refine ⟨limited.lt_total_iff unasked, (limits _).trans ?_⟩
    simp [unasked, uni, arrived]
  · rw [received, total, same]
    refine ⟨limited.lt_total_iff unasked, ?_⟩
    simp [unasked, uni, arrived]
  · rw [received, total]
    constructor
    · refine (raised_of_limited (max_le limited.consumed bounded) limited.total _).trans ?_
      simp only [asked, true_and, arrived]
    · refine (limits _).trans (or_congr_right ?_)
      simp only [asked, uni, true_and, false_and, or_false]
      exact lt_raised_iff bounded limited.response

/-! ## Sample data -/

namespace Plain

/-- A connection with a server that has confirmed the handshake. -/
def ready : QuicConnection Bytes Bytes :=
  turnAll codec Sample.crypto [.packet env anonymous] greeted

/-- An octet of a stream of the server's own. -/
def pushed (offset : Nat) : Frame := .stream 3 (some offset) [7] (some 1) false

/-- The packet with it. -/
def push (offset : Nat) : Bytes := shortPacket [1] 0 (ready.appRead.getD []) [pushed offset]

/-- The connection when it comes to its frame, in a packet with so many octets. -/
def arriving (octets : Nat) : QuicConnection Bytes Bytes :=
  (ready.learning ⟨false, none, [1], [], [], 2, octets⟩).numbering .application 0

/-- What there is to see of a packet with an octet. -/
def Arrives (offset octets : Nat) : Prop :=
  ready.parseHeader codec (push offset) = .ok ⟨false, none, [1], [], [], 2, octets⟩ ∧
  ready.localCid = [1] ∧
  ready.readKey ⟨false, none, [1], [], [], 2, octets⟩ =
    some (.application, ready.appRead.getD []) ∧
  ready.openPacket codec ⟨false, none, [1], [], [], 2, octets⟩ .application
    (ready.appRead.getD []) (push offset) = .ok (some (0, encodeFrame (pushed offset))) ∧
  decodeFrames codec (encodeFrame (pushed offset)).length (encodeFrame (pushed offset)) =
    [pushed offset]

instance (offset octets : Nat) : Decidable (Arrives offset octets) :=
  inferInstanceAs (Decidable (_ ∧ _))

theorem comes_push {offset octets : Nat} (arrives : Arrives offset octets) :
    ComesTo codec Sample.crypto connection env .application (pushed offset) (arriving octets) := by
  obtain ⟨parsed, ours, keyed, opened, decoded⟩ := arrives
  have reached : turnAll codec Sample.crypto (turns anonymous) connection = ready :=
    turnAll_append _ _
  refine ⟨turns anonymous, push offset, ⟨false, none, [1], [], [], 2, octets⟩, 0, _, [], [], ?_,
    decoded, ?_⟩
  · rw [reached]
    exact ⟨parsed, .inr ours.symm, nofun, _, keyed, opened⟩
  · rw [reached]
    rfl

/-- The connection after a frame. -/
def drained (octets offset : Nat) : QuicConnection Bytes Bytes :=
  (processFrame codec env Sample.crypto .application (pushed offset) (arriving octets)).2

end Plain

/-- After the first octet both limits are above what arrived. -/
theorem first_octet_kept_up :
    dataTotal (framesReceived (Plain.drained 27 0).log) < (Plain.drained 27 0).ourMaxData ∧
    dataOn (framesReceived (Plain.drained 27 0).log) 3 <
      advertised Plain.codec (Plain.drained 27 0) 3 := by
  have facts : Plain.Arrives 0 27 ∧
      (processFrame Plain.codec Plain.env Sample.crypto .application (Plain.pushed 0)
        (Plain.arriving 27)).1 = .ok () ∧
      dataTotal (framesReceived (Plain.arriving 27).log ++ [Plain.pushed 0]) < MAX_RESPONSE_BUFFER ∧
      dataOn (framesReceived (Plain.arriving 27).log ++ [Plain.pushed 0]) 3 <
        advertised Plain.codec (Plain.arriving 27) 3 := by decide +kernel
  obtain ⟨arrives, goes, total, own⟩ := facts
  have keeps := windows_keep_up_iff Plain.codec Plain.codec_lawful Sample.crypto Sample.cfg
    Plain.env.entropy [1] [2] Plain.hello Plain.connection (Plain.arriving 27) (Plain.drained 27 0)
    Plain.env .application 3 (some 0) (some 1) [7] false Plain.fresh_connection
    (Plain.comes_push arrives) (run_eq goes)
  exact ⟨keeps.1.mpr (.inl total), keeps.2.mpr (.inl own)⟩

/-- At the end of the first window of a stream of the server's own, which is within both limits,
the connection limit is not above what arrived, and it is not raised. -/
theorem window_used_up :
    QuicConnection.fresh Plain.codec Sample.cfg Plain.env.entropy [1] [2] =
      .ok (Plain.hello, Plain.connection) ∧
    ComesTo Plain.codec Sample.crypto Plain.connection Plain.env .application
      (Plain.pushed (2 ^ 20 - 1)) (Plain.arriving 30) ∧
    (processFrame Plain.codec Plain.env Sample.crypto .application (Plain.pushed (2 ^ 20 - 1))
      (Plain.arriving 30)) = (.ok (), Plain.drained 30 (2 ^ 20 - 1)) ∧
    dataOn (framesReceived (Plain.drained 30 (2 ^ 20 - 1)).log) 3 ≤
      advertised Plain.codec (Plain.arriving 30) 3 ∧
    dataTotal (framesReceived (Plain.drained 30 (2 ^ 20 - 1)).log) ≤
      (Plain.arriving 30).ourMaxData ∧
    ¬ dataTotal (framesReceived (Plain.drained 30 (2 ^ 20 - 1)).log) <
      (Plain.drained 30 (2 ^ 20 - 1)).ourMaxData := by
  have facts : Plain.Arrives (2 ^ 20 - 1) 30 ∧
      (processFrame Plain.codec Plain.env Sample.crypto .application (Plain.pushed (2 ^ 20 - 1))
        (Plain.arriving 30)).1 = .ok () ∧
      dataOn (framesReceived (Plain.drained 30 (2 ^ 20 - 1)).log) 3 ≤
        advertised Plain.codec (Plain.arriving 30) 3 ∧
      dataTotal (framesReceived (Plain.drained 30 (2 ^ 20 - 1)).log) ≤
        (Plain.arriving 30).ourMaxData ∧
      ¬ dataTotal (framesReceived (Plain.drained 30 (2 ^ 20 - 1)).log) <
        (Plain.drained 30 (2 ^ 20 - 1)).ourMaxData := by decide +kernel
  obtain ⟨arrives, goes, own, total, used⟩ := facts
  exact ⟨Plain.fresh_connection, Plain.comes_push arrives, run_eq goes, own, total, used⟩

end RecurseX.Doq
