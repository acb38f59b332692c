import Mathlib.Algebra.BigOperators.Group.Finset.Basic
import Mathlib.Algebra.Order.BigOperators.Group.Finset
import RecurseX.Doq.Operations
import RecurseX.Doq.Plain

/-!
# Flow control of queries

How much may be sent is the server's word: its transport parameters, and the
frames that raise them. How much was sent is in the packets that went out. The
connection keeps its own figures of both.
-/

namespace RecurseX.Doq

open Library Wire Stateful QuicConnection

/-! ## What the server allows -/

/-- The largest of some values and a start. -/
def largest (start : Nat) (values : List Nat) : Nat := values.foldr max start

theorem largest_le_iff {start bound : Nat} {values : List Nat} :
    largest start values ≤ bound ↔ start ≤ bound ∧ ∀ value ∈ values, value ≤ bound := by
  induction values with
  | nil => simp [largest]
  | cons value values inductionHypothesis =>
      rw [largest, List.foldr_cons, max_le_iff, ← largest, inductionHypothesis, List.forall_mem_cons]
      tauto

theorem largest_mono {start bound : Nat} {values others : List Nat} (starts : start ≤ bound)
    (included : values ⊆ others) : largest start values ≤ largest bound others := by
  have whole := largest_le_iff.mp (le_refl (largest bound others))
  exact largest_le_iff.mpr ⟨starts.trans whole.1, fun value member => whole.2 value (included member)⟩

/-- The value of an integer parameter, from `pos` on. -/
def parameterFrom (varint : Varint) (block : Bytes) (id : Nat) : (fuel pos current : Nat) → Nat
  | 0, _, current => current
  | fuel + 1, pos, current =>
      if pos < block.length then
        match varint.nextParam block pos with
        | .error _ => current
        | .ok (other, value, next) =>
            parameterFrom varint block id fuel next
              (if other = id then (varint.decodeParamU64 value).toOption.getD current else current)
      else current

/-- The content of the last extension of a type, from `pos` on. -/
def extensionFrom (body : Bytes) (stop : Nat) (extType : UInt16) : (fuel pos : Nat) → Bytes → Bytes
  | 0, _, current => current
  | fuel + 1, pos, current =>
      if pos + 4 ≤ stop then
        match u16At body pos, u16At body (pos + 2) with
        | .ok etype, .ok elen =>
            extensionFrom body stop extType fuel (pos + 4 + elen.toNat)
              (if etype = extType then (body.drop (pos + 4)).take elen.toNat else current)
        | _, _ => current
      else current

/-- An integer transport parameter in EncryptedExtensions. An absent one is zero. -/
def announced (varint : Varint) (id : Nat) (msg : Bytes) : Nat :=
  let body := msg.drop 4
  let total := match u16At body 0 with
    | .ok total => total.toNat
    | .error _ => 0
  let block := extensionFrom body (2 + total) 0x0039 (body.length + 1) 2 []
  parameterFrom varint block id (block.length + 1) 0 0

/-- Whether a message is EncryptedExtensions. -/
def isExtensions (msg : Bytes) : Bool := msg.head? == some HsType.ENCRYPTED_EXTENSIONS

variable {PacketKey RootStore : Type}

/-- A transport parameter of the server the handshake is with. -/
def serverParameter (varint : Varint) (tls : ClientHandshake RootStore) (id : Nat) : Nat :=
  match tls.transcriptMsgs.find? isExtensions with
  | none => 0
  | some msg => announced varint id msg

/-- The limit a frame sets for a stream. -/
def Event.streamLimit (streamId : Nat) : Event PacketKey → Option Nat
  | .received _ (.maxStreamData other limit) => if other = streamId then some limit else none
  | _ => none

/-- The limit a frame sets for the connection. -/
def Event.dataLimit : Event PacketKey → Option Nat
  | .received _ (.maxData limit) => some limit
  | _ => none

/-- The identifier of `initial_max_data`. -/
def INITIAL_MAX_DATA : Nat := 0x04

/-- The identifier of `initial_max_stream_data_bidi_remote`. -/
def INITIAL_MAX_STREAM_DATA_BIDI_REMOTE : Nat := 0x06

namespace Ledger

/-- What the server allows on a stream. -/
def streamLimit (varint : Varint) (ledger : Ledger PacketKey RootStore) (streamId : Nat) : Nat :=
  largest (serverParameter varint ledger.tls INITIAL_MAX_STREAM_DATA_BIDI_REMOTE)
    (ledger.log.filterMap (Event.streamLimit streamId))

/-- What the server allows on the connection. -/
def dataLimit (varint : Varint) (ledger : Ledger PacketKey RootStore) : Nat :=
  largest (serverParameter varint ledger.tls INITIAL_MAX_DATA)
    (ledger.log.filterMap Event.dataLimit)

end Ledger

/-! ## What was sent -/

/-- Where the data of a frame ends, if it is of the stream. -/
def Frame.streamEnd (streamId : Nat) : Frame → Option Nat
  | .stream other offset data _ _ =>
      if other = streamId then some (offset.getD 0 + data.length) else none
  | _ => none

/-- The stream a frame is data of. -/
def Frame.stream? : Frame → Option Nat
  | .stream streamId .. => some streamId
  | _ => none

/-- The frames of the packets that went out. -/
def Event.framesSent : Event PacketKey → List Frame
  | .sent _ _ _ frames => frames
  | _ => []

/-- All frames that went out. -/
def framesSent (log : List (Event PacketKey)) : List Frame := log.flatMap Event.framesSent

/-- How much was sent on a stream. -/
def bytesOn (log : List (Event PacketKey)) (streamId : Nat) : Nat :=
  largest 0 ((framesSent log).filterMap (Frame.streamEnd streamId))

/-- The streams something was sent on. -/
def streams (log : List (Event PacketKey)) : Finset Nat :=
  ((framesSent log).filterMap Frame.stream?).toFinset

/-- How much was sent on all streams. -/
def bytesTotal (log : List (Event PacketKey)) : Nat := ∑ streamId ∈ streams log, bytesOn log streamId

/-- How much was sent on the other streams. -/
def bytesElsewhere (log : List (Event PacketKey)) (streamId : Nat) : Nat :=
  ∑ other ∈ (streams log).erase streamId, bytesOn log other

/-- The limits of the server are obeyed. -/
structure Ledger.Obeys (varint : Varint) (ledger : Ledger PacketKey RootStore) : Prop where
  stream : ∀ streamId, bytesOn ledger.log streamId ≤ ledger.streamLimit varint streamId
  connection : bytesTotal ledger.log ≤ ledger.dataLimit varint

/-! ## The condition -/

/-- Rounded up to whole chunks. -/
def wholeChunks (count : Nat) : Nat := (count + (MAX_CHUNK - 1)) / MAX_CHUNK * MAX_CHUNK

/-- What the connection takes to be allowed, in whole chunks and up to the end of the
query, is within what the server still allows. -/
def Fits (varint : Varint) (conn : QuicConnection PacketKey RootStore) : Prop :=
  ∀ query, conn.queryTx = some query → query.finSent = false → 0 < allowed conn query →
    query.offset + min query.remaining (wholeChunks (allowed conn query)) ≤
        conn.ledger.streamLimit varint conn.streamId ∧
      bytesElsewhere conn.log conn.streamId + query.offset +
        min query.remaining (wholeChunks (allowed conn query)) ≤ conn.ledger.dataLimit varint

instance (varint : Varint) (conn : QuicConnection PacketKey RootStore) :
    Decidable (Fits varint conn) :=
  match asked : conn.queryTx with
  | none => isTrue fun query found => by cases asked.symm.trans found
  | some query =>
      decidable_of_iff (query.finSent = false → 0 < allowed conn query →
        query.offset + min query.remaining (wholeChunks (allowed conn query)) ≤
            conn.ledger.streamLimit varint conn.streamId ∧
          bytesElsewhere conn.log conn.streamId + query.offset +
            min query.remaining (wholeChunks (allowed conn query)) ≤ conn.ledger.dataLimit varint)
        ⟨fun fits other found => Option.some.inj (asked.symm.trans found) ▸ fits,
          fun fits => fits query asked⟩

/-! ## Chunks -/

theorem wholeChunks_ge {sent allow : Nat} (whole : MAX_CHUNK ∣ sent) (more : sent < allow) :
    sent + MAX_CHUNK ≤ wholeChunks allow := by
  obtain ⟨count, rfl⟩ := whole
  unfold wholeChunks MAX_CHUNK at *
  omega

/-- Chunks end within what is sent, and that is no more than whole chunks of what is allowed. -/
theorem chunksFrom_within {query : QuerySend} {allow fuel sent total : Nat} {chunks : List Chunk}
    (whole : MAX_CHUNK ∣ sent) (bounded : sent ≤ min query.remaining (wholeChunks allow))
    (cut : query.chunksFrom query.remaining allow fuel sent = .ok (chunks, total)) :
    (∀ chunk ∈ chunks, chunk.offset + chunk.data.length ≤ query.offset + total) ∧ sent ≤ total ∧
      total ≤ min query.remaining (wholeChunks allow) := by
  induction fuel generalizing sent chunks with
  | zero => cases cut
  | succ fuel inductionHypothesis =>
      unfold QuerySend.chunksFrom at cut
      split_ifs at cut with more
      · obtain ⟨rest, read, cut⟩ := bind_eq_ok.mp cut
        obtain ⟨_, progress, cut⟩ := bind_eq_ok.mp cut
        have length : rest.length = query.remaining - sent := by
          have located := mapError_eq_ok.mp read
          unfold restAt at located
          split_ifs at located
          cases located
          rw [List.length_drop, QuerySend.remaining]
          omega
        have capLength : (capped rest MAX_CHUNK).length = min rest.length MAX_CHUNK := by
          rw [capped, List.length_take, min_comm]
        have within := wholeChunks_ge whole more
        have moved := failIf_eq_ok.mp progress
        dsimp only at cut
        split_ifs at cut with fin
        · cases cut
          refine ⟨fun chunk member => ?_, by omega, by omega⟩
          obtain rfl := List.mem_singleton.mp member
          dsimp only
          omega
        · obtain ⟨⟨later, count⟩, rec, cut⟩ := bind_eq_ok.mp cut
          cases cut
          -- A chunk that is not the last is a whole one.
          have full : min rest.length MAX_CHUNK = MAX_CHUNK := by omega
          rw [full] at rec
          obtain ⟨ends, grows, limited⟩ :=
            inductionHypothesis ((Nat.dvd_add_right whole).mpr (dvd_refl _)) (by omega) rec
          refine ⟨fun chunk member => ?_, by omega, limited⟩
          rcases List.mem_cons.mp member with rfl | member
          · dsimp only
            omega
          · exact ends chunk member
      · cases cut
        exact ⟨by simp, le_rfl, bounded⟩

/-! ## What is sent -/

section Data

variable {log grown : List (Event PacketKey)} {streamId other : Nat}

theorem framesSent_append (log extra : List (Event PacketKey)) :
    framesSent (log ++ extra) = framesSent log ++ framesSent extra := List.flatMap_append

theorem bytesOn_le_iff {bound : Nat} :
    bytesOn log streamId ≤ bound ↔
      ∀ frame ∈ framesSent log, ∀ stop, frame.streamEnd streamId = some stop → stop ≤ bound := by
  rw [bytesOn, largest_le_iff]
  simp only [List.mem_filterMap]
  constructor
  · rintro ⟨-, bounded⟩ frame member stop ends
    exact bounded stop ⟨frame, member, ends⟩
  · rintro bounded
    exact ⟨Nat.zero_le _, fun stop ⟨frame, member, ends⟩ => bounded frame member stop ends⟩

theorem mem_streams : streamId ∈ streams log ↔ ∃ frame ∈ framesSent log, frame.stream? = some streamId := by
  rw [streams, List.mem_toFinset, List.mem_filterMap]

theorem Frame.streamEnd_of_stream {frame : Frame} {stop : Nat}
    (ends : frame.streamEnd streamId = some stop) : frame.stream? = some streamId := by
  cases frame with
  | stream own offset data length fin =>
      simp only [Frame.streamEnd] at ends
      split_ifs at ends with same
      rw [Frame.stream?, same]
  | _ => cases ends

theorem Frame.isStream_of_stream {frame : Frame} (data : frame.stream? = some streamId) :
    frame.isStream = true := by
  cases frame with
  | stream => rfl
  | _ => cases data

theorem bytesOn_eq_zero (unused : streamId ∉ streams log) : bytesOn log streamId = 0 := by
  refine Nat.le_zero.mp (bytesOn_le_iff.mpr fun frame member stop ends => ?_)
  exact absurd (mem_streams.mpr ⟨frame, member, Frame.streamEnd_of_stream ends⟩) unused

/-- The stream data that went out is the same. -/
def SameData (log grown : List (Event PacketKey)) : Prop :=
  ∀ frame, frame.isStream = true → (frame ∈ framesSent grown ↔ frame ∈ framesSent log)

theorem SameData.bytesOn_eq (same : SameData log grown) (streamId : Nat) :
    bytesOn grown streamId = bytesOn log streamId := by
  have bounds : ∀ bound, bytesOn grown streamId ≤ bound ↔ bytesOn log streamId ≤ bound := by
    intro bound
    rw [bytesOn_le_iff, bytesOn_le_iff]
    constructor
    · intro bounded frame member stop ends
      have data := Frame.isStream_of_stream (Frame.streamEnd_of_stream ends)
      exact bounded frame ((same frame data).mpr member) stop ends
    · intro bounded frame member stop ends
      have data := Frame.isStream_of_stream (Frame.streamEnd_of_stream ends)
      exact bounded frame ((same frame data).mp member) stop ends
  exact le_antisymm ((bounds _).mpr le_rfl) ((bounds _).mp le_rfl)

theorem SameData.streams_eq (same : SameData log grown) : streams grown = streams log := by
  ext streamId
  rw [mem_streams, mem_streams]
  constructor
  · rintro ⟨frame, member, data⟩
    exact ⟨frame, (same frame (Frame.isStream_of_stream data)).mp member, data⟩
  · rintro ⟨frame, member, data⟩
    exact ⟨frame, (same frame (Frame.isStream_of_stream data)).mpr member, data⟩

theorem SameData.bytesTotal_eq (same : SameData log grown) : bytesTotal grown = bytesTotal log := by
  rw [bytesTotal, bytesTotal, same.streams_eq]
  exact Finset.sum_congr rfl fun streamId _ => same.bytesOn_eq streamId

/-- Events that send no stream data, or only such that was sent before. -/
theorem SameData.append {extra : List (Event PacketKey)}
    (again : ∀ frame ∈ framesSent extra, frame.isStream = true → frame ∈ framesSent log) :
    SameData log (log ++ extra) := by
  intro frame data
  rw [framesSent_append, List.mem_append]
  constructor
  · rintro (member | member)
    · exact member
    · exact again frame member data
  · exact .inl

/-- One more frame on a stream that ends within a bound. -/
theorem bytes_after_chunk {frame : Frame} {bound stop : Nat}
    (frames : framesSent grown = framesSent log ++ [frame]) (data : frame.stream? = some streamId)
    (ends : frame.streamEnd streamId = some stop) (within : stop ≤ bound)
    (bounded : bytesOn log streamId ≤ bound) :
    bytesOn grown streamId ≤ bound ∧ (∀ other, other ≠ streamId → bytesOn grown other = bytesOn log other) ∧
      streams grown = insert streamId (streams log) := by
  refine ⟨?_, fun other different => ?_, ?_⟩
  · rw [bytesOn_le_iff] at bounded ⊢
    intro sent member last lasts
    rw [frames, List.mem_append, List.mem_singleton] at member
    rcases member with member | rfl
    · exact bounded sent member last lasts
    · rw [ends] at lasts
      exact Option.some.inj lasts ▸ within
  · have foreign : frame.streamEnd other = none := by
      rcases found : frame.streamEnd other with _ | last
      · rfl
      · exact absurd (Option.some.inj ((Frame.streamEnd_of_stream found).symm.trans data)) different
    rw [bytesOn, bytesOn, frames, List.filterMap_append, List.filterMap_cons, foreign]
    simp
  · ext other
    rw [Finset.mem_insert, mem_streams, mem_streams, frames]
    simp only [List.mem_append, List.mem_singleton, or_and_right, exists_or, exists_eq_left, data,
      Option.some.injEq]
    rw [or_comm, eq_comm]

/-- The rest of the connection is what it was. -/
theorem bytesElsewhere_after_chunk
    (others : ∀ other, other ≠ streamId → bytesOn grown other = bytesOn log other)
    (used : streams grown = insert streamId (streams log)) :
    bytesElsewhere grown streamId = bytesElsewhere log streamId := by
  rw [bytesElsewhere, bytesElsewhere, used, Finset.erase_insert_eq_erase]
  exact Finset.sum_congr rfl fun other member => others other (Finset.ne_of_mem_erase member)

theorem bytesTotal_of_mem (used : streamId ∈ streams log) :
    bytesTotal log = bytesElsewhere log streamId + bytesOn log streamId :=
  (Finset.sum_erase_add _ _ used).symm

end Data

/-! ## Limits only rise -/

/-- The transcript goes on from where it was. -/
def Extends (before after : ClientHandshake RootStore) : Prop :=
  before.transcriptMsgs <+: after.transcriptMsgs

theorem extends_sequential : Sequential (@Extends RootStore) Extends where
  refl _ := List.prefix_rfl
  trans first second := first.trans second
  stop _ := List.prefix_rfl
  fails first second := first.trans second

/-- However a message is taken, the transcript goes on. -/
theorem feed_extends (crypto : Crypto RootStore) (varint : Varint) (msg : Bytes)
    (tls : ClientHandshake RootStore) :
    Moves Extends Extends (ClientHandshake.feed crypto varint msg) tls := by
  have rules := @extends_sequential RootStore
  have kept : ∀ {before after : ClientHandshake RootStore},
      after.transcriptMsgs = before.transcriptMsgs → Extends before after := by
    intro before after same
    rw [Extends, same]
  have recorded : ∀ tls : ClientHandshake RootStore,
      Moves Extends Extends (ClientHandshake.record msg) tls :=
    fun tls => Sequential.update (List.prefix_append _ _)
  refine rules.lift_bind fun ⟨msgType, body⟩ _ => Sequential.read_bind ?_
  split_ifs
  · refine rules.bind ?_ fun _ _ _ _ => rules.bind (recorded _) fun _ _ _ _ =>
      rules.bind ?_ fun _ _ _ _ => rules.pure
    · refine rules.lift_bind fun ⟨suite, serverPub⟩ _ => Sequential.read_bind ?_
      dsimp only
      split_ifs
      · exact rules.fail
      · exact Sequential.update (kept rfl)
    · refine Sequential.read_bind ?_
      split
      · exact rules.fail
      · exact Sequential.update (kept rfl)
  · refine rules.bind (Sequential.read_bind ?_) fun _ _ _ _ => rules.bind (recorded _)
      fun _ _ _ _ => rules.pure
    split_ifs
    · exact rules.fail
    · exact rules.lift_bind fun _ _ => Sequential.update (kept rfl)
    · exact rules.lift_bind fun _ _ => Sequential.update (kept rfl)
    · exact rules.lift_bind fun _ _ => Sequential.update (kept rfl)
    · exact rules.fail
  · refine rules.bind (Sequential.read_bind ?_) fun _ _ _ _ => rules.pure
    split_ifs
    · exact rules.fail
    · refine rules.lift_bind fun _ _ => rules.bind (recorded _) fun _ _ _ _ =>
        rules.bind (Sequential.read_bind ?_) fun _ _ _ _ => rules.update_bind (kept rfl) ?_
      · split
        · exact rules.fail
        · split
          · exact rules.fail
          · dsimp only
            split
            · exact rules.fail
            · exact rules.update_bind (kept rfl) rules.pure
      · split
        · exact rules.fail
        · exact rules.pure
  · exact rules.fail

theorem serverParameter_mono {varint : Varint} {before after : ClientHandshake RootStore}
    (goes : Extends before after) (id : Nat) :
    serverParameter varint before id ≤ serverParameter varint after id := by
  obtain ⟨extra, grown⟩ := goes
  unfold serverParameter
  rw [← grown, List.find?_append]
  cases before.transcriptMsgs.find? isExtensions with
  | none => exact Nat.zero_le _
  | some msg => exact le_rfl

section Limits

variable {varint : Varint} {before after : Ledger PacketKey RootStore}

/-- Limits only rise, as long as the handshake goes on. -/
theorem Ledger.streamLimit_mono {extra : List (Event PacketKey)}
    (grown : after.log = before.log ++ extra) (goes : Extends before.tls after.tls) (streamId : Nat) :
    before.streamLimit varint streamId ≤ after.streamLimit varint streamId := by
  refine largest_mono (serverParameter_mono goes _) ?_
  rw [grown, List.filterMap_append]
  exact List.subset_append_left _ _

theorem Ledger.dataLimit_mono {extra : List (Event PacketKey)}
    (grown : after.log = before.log ++ extra) (goes : Extends before.tls after.tls) :
    before.dataLimit varint ≤ after.dataLimit varint := by
  refine largest_mono (serverParameter_mono goes _) ?_
  rw [grown, List.filterMap_append]
  exact List.subset_append_left _ _

end Limits

/-! ## The invariant -/

/-- The limits are obeyed, and what carries this from one operation to the next. The
packets in `pending` were taken out to be sent again. -/
structure Obeying (codec : Codec PacketKey) (pending : List SentPacket)
    (ledger : Ledger PacketKey RootStore) : Prop where
  obeys : ledger.Obeys codec.varint
  current : ∀ query, ledger.queryTx = some query →
    bytesOn ledger.log ledger.streamId ≤ query.offset
  /-- What may be sent again was sent. -/
  again : ∀ packet ∈ ledger.sent ++ pending, ∀ frame ∈ packet.frames, frame.isStream = true →
    frame ∈ framesSent ledger.log
  numbered : ∀ streamId ∈ streams ledger.log,
    ∃ index < ledger.openedBidi, streamId = codec.streamId codec.clientBidi index
  /-- Nothing is sent on streams during the handshake. -/
  early : ledger.handshakeConfirmed = false → streams ledger.log = ∅
  asked : ∀ query, ledger.queryTx = some query → ledger.handshakeConfirmed = true ∧
    ∃ index < ledger.openedBidi, ledger.streamId = codec.streamId codec.clientBidi index

section Invariant

variable {codec : Codec PacketKey} {crypto : Crypto RootStore}
variable {before after : Ledger PacketKey RootStore} {pending rest : List SentPacket}

/-- What sends no new stream data. -/
theorem Obeying.carry (obeying : Obeying codec pending before) {extra : List (Event PacketKey)}
    (grown : after.log = before.log ++ extra)
    (repeated : ∀ frame ∈ framesSent extra, frame.isStream = true → frame ∈ framesSent before.log)
    (waiting : ∀ packet ∈ after.sent ++ rest, ∀ frame ∈ packet.frames, frame.isStream = true →
      frame ∈ framesSent before.log)
    (goes : Extends before.tls after.tls ∨ before.handshakeConfirmed = false)
    (confirmed : before.handshakeConfirmed = true → after.handshakeConfirmed = true)
    (query : after.queryTx = before.queryTx) (stream : after.streamId = before.streamId)
    (opened : after.openedBidi = before.openedBidi) : Obeying codec rest after := by
  have same : SameData before.log after.log := grown ▸ SameData.append repeated
  refine ⟨?_, ?_, ?_, ?_, ?_, ?_⟩
  · rcases goes with goes | unconfirmed
    · refine ⟨fun streamId => ?_, ?_⟩
      · rw [same.bytesOn_eq]
        exact (obeying.obeys.stream streamId).trans (Ledger.streamLimit_mono grown goes streamId)
      · rw [same.bytesTotal_eq]
        exact obeying.obeys.connection.trans (Ledger.dataLimit_mono grown goes)
    · -- During the handshake there is nothing to limit.
      have unused := obeying.early unconfirmed
      refine ⟨fun streamId => ?_, ?_⟩
      · rw [same.bytesOn_eq, bytesOn_eq_zero (by rw [unused]; exact Finset.notMem_empty _)]
        exact Nat.zero_le _
      · rw [same.bytesTotal_eq, bytesTotal, unused, Finset.sum_empty]
        exact Nat.zero_le _
  · intro asked found
    rw [same.bytesOn_eq, stream]
    exact obeying.current asked (query ▸ found)
  · intro packet member frame held data
    exact (same frame data).mpr (waiting packet member frame held data)
  · intro streamId used
    rw [opened]
    exact obeying.numbered streamId (same.streams_eq ▸ used)
  · intro unconfirmed
    rw [same.streams_eq]
    refine obeying.early ?_
    cases was : before.handshakeConfirmed with
    | false => rfl
    | true => exact absurd (confirmed was) (by rw [unconfirmed]; exact Bool.false_ne_true)
  · intro asked found
    obtain ⟨done, index, below, numbered⟩ := obeying.asked asked (query ▸ found)
    rw [stream, opened]
    exact ⟨confirmed done, index, below, numbered⟩

theorem Obeying.waiting (obeying : Obeying codec pending before) {held : List SentPacket}
    (kept : held ⊆ before.sent ++ pending) : ∀ packet ∈ held, ∀ frame ∈ packet.frames,
      frame.isStream = true → frame ∈ framesSent before.log :=
  fun packet member => obeying.again packet (kept member)

/-- Events that send nothing. -/
theorem Obeying.note (obeying : Obeying codec [] before) {extra : List (Event PacketKey)}
    (silent : framesSent extra = []) (grown : after.log = before.log ++ extra)
    (kept : after.sent ⊆ before.sent)
    (goes : Extends before.tls after.tls ∨ before.handshakeConfirmed = false)
    (confirmed : before.handshakeConfirmed = true → after.handshakeConfirmed = true)
    (query : after.queryTx = before.queryTx) (stream : after.streamId = before.streamId)
    (opened : after.openedBidi = before.openedBidi) : Obeying codec [] after := by
  refine obeying.carry grown ?_ (obeying.waiting ?_) goes confirmed query stream opened
  · rw [silent]
    exact fun _ member => by cases member
  · rw [List.append_nil, List.append_nil]
    exact kept

/-- A packet whose stream data was sent before. -/
theorem Obeying.send (obeying : Obeying codec pending before) {space : Space} {key : PacketKey}
    {frames : List Frame} {now : Nat}
    (repeated : ∀ frame ∈ frames, frame.isStream = true → frame ∈ framesSent before.log)
    (kept : rest ⊆ pending) : Obeying codec rest (before.send space key frames now) := by
  have sent : framesSent [.handed space frames, .sent space key (before.nextPn.atSpace space) frames] =
      frames := by
    simp [framesSent, Event.framesSent]
  refine obeying.carry rfl ?_ ?_ (.inl List.prefix_rfl) id rfl rfl rfl
  · rwa [sent]
  · intro packet member frame held data
    rw [Ledger.send, List.mem_append] at member
    dsimp only at member
    rcases member with member | member
    · split_ifs at member
      · exact obeying.again packet (List.mem_append_left _ member) frame held data
      · rcases List.mem_append.mp member with old | new
        · exact obeying.again packet (List.mem_append_left _ old) frame held data
        · obtain rfl := List.mem_singleton.mp new
          exact repeated frame held data
    · exact obeying.again packet (List.mem_append_right _ (kept member)) frame held data

theorem Obeying.step (step : Ledger.Step codec crypto before after)
    (obeying : Obeying codec [] before) : Obeying codec [] after := by
  cases step with
  | received | answered | dropped =>
      exact obeying.note rfl rfl (List.Subset.refl _) (.inl List.prefix_rfl) id rfl rfl rfl
  | acked =>
      exact obeying.note rfl rfl (List.filter_subset_self _) (.inl List.prefix_rfl) id rfl rfl rfl
  | sent space key frames now keyed plain =>
      refine obeying.send (fun frame member data => ?_) (List.Subset.refl _)
      cases (plain frame member).symm.trans data
  | accepted space msg level readable fed =>
      refine obeying.note rfl (List.append_assoc _ _ _) (List.Subset.refl _) (.inl ?_) id rfl rfl rfl
      exact (feed_extends _ _ _ _).ok _ _ fed
  | keyed | readable =>
      exact obeying.note rfl (List.append_nil _).symm (List.Subset.refl _) (.inl List.prefix_rfl) id
        rfl rfl rfl
  | confirmed =>
      exact obeying.note rfl (List.append_nil _).symm (List.Subset.refl _) (.inl List.prefix_rfl)
        (fun _ => rfl) rfl rfl rfl
  | retried scid key cfg entropy first early =>
      exact obeying.note rfl rfl (List.filter_subset_self _) (.inr early) id rfl rfl rfl

theorem Obeying.fault (fault : Ledger.Fault codec crypto before after)
    (obeying : Obeying codec [] before) : Obeying codec [] after := by
  cases fault with
  | stopped => exact obeying
  | unsent | unplaced =>
      exact obeying.note rfl rfl (List.Subset.refl _) (.inl List.prefix_rfl) id rfl rfl rfl
  | refused space msg fed =>
      refine obeying.note rfl rfl (List.Subset.refl _) (.inl ?_) id rfl rfl rfl
      exact (feed_extends _ _ _ _).bad _ _ fed
  | unkeyed =>
      exact obeying.note rfl (List.append_nil _).symm (List.Subset.refl _) (.inl List.prefix_rfl) id
        rfl rfl rfl

end Invariant

/-! ## Operations -/

section Operations

variable {codec : Codec PacketKey} {crypto : Crypto RootStore} {env : Env}
variable {conn after : QuicConnection PacketKey RootStore}

/-- Frames that were only handed over. -/
theorem Obeying.hand {pending : List SentPacket} (obeying : Obeying codec pending conn.ledger)
    {space : Space} {frames : List Frame} :
    Obeying codec [] (Ledger.handing conn space frames).ledger := by
  refine obeying.carry rfl ?_ (obeying.waiting ?_) (.inl List.prefix_rfl) id rfl rfl rfl
  · intro frame member
    cases member
  · rw [List.append_nil]
    exact List.subset_append_left _ _

/-- Packets that were taken out are sent again, as far as it goes. -/
theorem Obeying.resend {pending : List SentPacket} (obeying : Obeying codec pending conn.ledger)
    {outcome : Except Error Unit}
    (ran : each (resend codec env) pending conn = (outcome, after)) :
    Obeying codec [] after.ledger := by
  induction pending generalizing conn with
  | nil =>
      cases ran
      exact obeying
  | cons packet pending inductionHypothesis =>
      rcases first : sendPacket codec env packet.space packet.frames false conn with ⟨result, middle⟩
      obtain ⟨key, rfl, -, rfl⟩ | ⟨error, rfl, rfl⟩ := Ledger.sendPacket_cases first
      · have next : Obeying codec pending (conn.ledger.send packet.space key packet.frames env.now) :=
          obeying.send (obeying.again packet (by simp)) (List.subset_cons_self _ _)
        rw [← Ledger.afterSend_ledger] at next
        exact inductionHypothesis next ((bind_of_ok first).symm.trans ran)
      · cases (bind_of_error first).symm.trans ran
        exact obeying.hand

/-- Where a query may end. -/
structure Room (codec : Codec PacketKey) (ledger : Ledger PacketKey RootStore) (stop : Nat) :
    Prop where
  stream : stop ≤ ledger.streamLimit codec.varint ledger.streamId
  connection : bytesElsewhere ledger.log ledger.streamId + stop ≤ ledger.dataLimit codec.varint

/-- A chunk that ends where there is room. -/
theorem Obeying.sendChunk {before : Ledger PacketKey RootStore} (obeying : Obeying codec [] before)
    {query : QuerySend} (asked : before.queryTx = some query) (room : Room codec before query.offset)
    {chunk : Chunk} (within : chunk.offset + chunk.data.length ≤ query.offset) (key : PacketKey)
    (now : Nat) :
    Obeying codec [] (before.send .application key [chunk.frame before.streamId] now) ∧
      Room codec (before.send .application key [chunk.frame before.streamId] now) query.offset := by
  obtain ⟨log, grown⟩ : ∃ log,
      log = (before.send .application key [chunk.frame before.streamId] now).log := ⟨_, rfl⟩
  have frames : framesSent log = framesSent before.log ++ [chunk.frame before.streamId] := by
    rw [grown, Ledger.send, framesSent_append]
    rfl
  obtain ⟨bounded, others, used⟩ := bytes_after_chunk frames rfl (if_pos rfl) within
    (obeying.current query asked)
  have elsewhere := bytesElsewhere_after_chunk others used
  have raised : ∀ streamId, before.streamLimit codec.varint streamId ≤
      (before.send .application key [chunk.frame before.streamId] now).streamLimit codec.varint
        streamId := Ledger.streamLimit_mono rfl List.prefix_rfl
  have widened : before.dataLimit codec.varint ≤
      (before.send .application key [chunk.frame before.streamId] now).dataLimit codec.varint :=
    Ledger.dataLimit_mono rfl List.prefix_rfl
  obtain ⟨confirmed, index, below, numbered⟩ := obeying.asked query asked
  refine ⟨⟨⟨fun streamId => ?_, ?_⟩, ?_, ?_, ?_, ?_, ?_⟩, ?_, ?_⟩
  · rw [← grown]
    by_cases same : streamId = before.streamId
    · subst same
      exact (bounded.trans room.stream).trans (raised _)
    · rw [others streamId same]
      exact (obeying.obeys.stream streamId).trans (raised streamId)
  · rw [← grown, bytesTotal_of_mem (by rw [used]; exact Finset.mem_insert_self _ _), elsewhere]
    exact (Nat.add_le_add_left bounded _).trans (room.connection.trans widened)
  · intro other found
    rw [← grown]
    obtain rfl := Option.some.inj (asked.symm.trans found)
    exact bounded
  · intro packet member frame held data
    rw [← grown, frames]
    rw [List.append_nil] at member
    rcases List.mem_append.mp member with old | new
    · have sent := obeying.again packet (List.mem_append_left _ old) frame held data
      exact List.mem_append_left _ sent
    · obtain rfl := List.mem_singleton.mp new
      exact List.mem_append_right _ held
  · intro streamId member
    rw [← grown, used, Finset.mem_insert] at member
    rcases member with rfl | member
    · exact ⟨index, below, numbered⟩
    · exact obeying.numbered streamId member
  · intro unconfirmed
    cases confirmed.symm.trans unconfirmed
  · intro other found
    exact ⟨confirmed, index, below, numbered⟩
  · exact room.stream.trans (raised _)
  · rw [← grown]
    exact (elsewhere ▸ room.connection).trans widened

/-- Chunks that end where there is room, as far as they are sent. -/
theorem Obeying.sendChunks {chunks : List Chunk} {query : QuerySend}
    (obeying : Obeying codec [] conn.ledger) (asked : conn.queryTx = some query)
    (room : Room codec conn.ledger query.offset)
    (within : ∀ chunk ∈ chunks, chunk.offset + chunk.data.length ≤ query.offset)
    {outcome : Except Error Unit}
    (ran : each (fun chunk => sendPacket codec env .application [chunk.frame conn.streamId] false)
      chunks conn = (outcome, after)) :
    Obeying codec [] after.ledger := by
  induction chunks generalizing conn with
  | nil =>
      cases ran
      exact obeying
  | cons chunk chunks inductionHypothesis =>
      rcases first : sendPacket codec env .application [chunk.frame conn.streamId] false conn with
        ⟨result, middle⟩
      obtain ⟨key, rfl, -, rfl⟩ | ⟨error, rfl, rfl⟩ := Ledger.sendPacket_cases first
      · obtain ⟨next, still⟩ :=
          obeying.sendChunk asked room (within chunk List.mem_cons_self) key env.now
        have sent : ((Ledger.handing conn .application [chunk.frame conn.streamId]).afterSend
            .application key [chunk.frame conn.streamId] env.now).ledger =
            conn.ledger.send .application key [chunk.frame conn.ledger.streamId] env.now :=
          Ledger.afterSend_ledger
        rw [← sent] at next still
        exact inductionHypothesis next asked still
          (fun other member => within other (List.mem_cons_of_mem _ member))
          ((bind_of_ok first).symm.trans ran)
      · cases (bind_of_error first).symm.trans ran
        exact obeying.hand

/-- What an operation must meet: when the query is sent, it fits. -/
def Op.Fits (codec : Codec PacketKey) (conn : QuicConnection PacketKey RootStore) : Op → Prop
  | .flushQuery _ => Doq.Fits codec.varint conn
  | _ => True

instance (codec : Codec PacketKey) (conn : QuicConnection PacketKey RootStore) (op : Op) :
    Decidable (op.Fits codec conn) :=
  match op with
  | .flushQuery _ => inferInstanceAs (Decidable (Doq.Fits codec.varint conn))
  | .datagram .. | .heard | .flushAcks _ | .runPto _ | .openStream _ | .close _ => .isTrue trivial

theorem passive_obeying {op : Op} (passive : op.isPassive = true)
    (obeying : Obeying codec [] conn.ledger) {outcome : Except Error Unit}
    (ran : op.act codec crypto conn = (outcome, after)) : Obeying codec [] after.ledger :=
  ((act_goes passive).preserves Obeying.step Obeying.fault).all ran obeying

theorem act_obeying (lawful : codec.Lawful) (op : Op) (obeying : Obeying codec [] conn.ledger)
    (fits : op.Fits codec conn) {outcome : Except Error Unit}
    (ran : op.act codec crypto conn = (outcome, after)) : Obeying codec [] after.ledger := by
  cases op with
  | datagram | heard | flushAcks | close => exact passive_obeying rfl obeying ran
  | openStream query =>
      rcases openStream_cases ran with ⟨-, rfl⟩ | ⟨-, confirmed, rfl⟩
      · exact obeying
      · -- The stream is a new one, so nothing was sent on it.
        have unused : codec.streamId codec.clientBidi conn.openedBidi ∉ streams conn.log := by
          intro used
          obtain ⟨index, below, same⟩ := obeying.numbered _ used
          have indices := congrArg codec.streamIndex same
          rw [lawful.streamIndex, lawful.streamIndex] at indices
          exact absurd indices (Nat.ne_of_gt below)
        refine ⟨⟨obeying.obeys.stream, obeying.obeys.connection⟩, ?_, obeying.again, ?_,
          obeying.early, ?_⟩
        · intro asked found
          exact (bytesOn_eq_zero unused).le.trans (Nat.zero_le _)
        · intro streamId used
          obtain ⟨index, below, same⟩ := obeying.numbered streamId used
          exact ⟨index, Nat.lt_succ_of_lt below, same⟩
        · intro asked found
          exact ⟨confirmed, conn.openedBidi, Nat.lt_succ_self _, rfl⟩
  | runPto env =>
      rcases runPto_cases ran with same | ran
      · rwa [same]
      · have start : Obeying codec conn.sent (probing conn).ledger :=
          obeying.carry (List.append_nil _).symm (fun _ member => by cases member)
            (obeying.waiting (List.subset_append_left _ _)) (.inl List.prefix_rfl) id rfl rfl rfl
        exact start.resend ran
  | flushQuery env =>
      rcases flushQuerySend_cases ran with
        rfl | ⟨query, chunks, total, asked, unfinished, some, cut, ran⟩
      · exact obeying
      · obtain ⟨ends, -, limited⟩ := chunksFrom_within (Nat.dvd_zero _) (Nat.zero_le _) cut
        have advanced : Obeying codec [] (advancing conn query chunks total).ledger := by
          refine ⟨⟨obeying.obeys.stream, obeying.obeys.connection⟩, ?_, obeying.again,
            obeying.numbered, obeying.early, fun _ _ => obeying.asked query asked⟩
          intro other found
          obtain rfl := Option.some.inj found
          exact (obeying.current query asked).trans (Nat.le_add_right _ _)
        refine advanced.sendChunks rfl ?_ ends ran
        obtain ⟨stream, connection⟩ := fits query asked unfinished some
        refine ⟨(Nat.add_le_add_left limited _).trans stream, le_trans ?_ connection⟩
        rw [Nat.add_assoc]
        exact Nat.add_le_add_left (Nat.add_le_add_left limited _) _

/-- An operation as a step of a run: it leads on, however it ends. -/
def operation (codec : Codec PacketKey) (crypto : Crypto RootStore)
    (conn : QuicConnection PacketKey RootStore) (op : Op) :
    Option (QuicConnection PacketKey RootStore) :=
  some (op.act codec crypto conn).2

end Operations

end RecurseX.Doq
