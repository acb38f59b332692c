import Mathlib.Data.List.Induction
import RecurseX.Doq.Plain

/-!
# Putting a response together

The frames of the query stream are pieces of the response, in any order. The
buffer is the response as long as no piece starts past everything that came
before it: the octets such a piece skips over become zeros and stay zeros.
-/

namespace RecurseX.Doq

open Library Wire Stateful QuicConnection

/-! ## Sending leaves the rest of the connection alone -/

section Sending

variable {PacketKey RootStore τ : Type} {codec : Codec PacketKey} {env : Env}
variable {self : QuicConnection PacketKey RootStore}

/-- A view that does not show what sending changes. -/
structure Unsent (view : QuicConnection PacketKey RootStore → τ) : Prop where
  handed : ∀ self space frames,
    view { self with log := self.log ++ [.handed space frames] } = view self
  sent : ∀ self space key frames now, view (self.afterSend space key frames now) = view self

theorem sendPacket_keeps {view : QuicConnection PacketKey RootStore → τ} (unsent : Unsent view)
    {space : Space} {frames : List Frame} {padInitial : Bool} :
    Moves (Keeps view) (Keeps view) (sendPacket codec env space frames padInitial) self := by
  have rules := keeps_sequential view
  refine rules.update_bind (unsent.handed _ _ _) (Sequential.read_bind ?_)
  refine rules.lift_bind fun key _ => rules.lift_bind fun wire _ => rules.lift_bind fun _ _ => ?_
  exact Sequential.update (unsent.sent _ _ _ _ _)

theorem replenish_keeps {view : QuicConnection PacketKey RootStore → τ} (unsent : Unsent view)
    {used limit : Nat} {announce : Nat → Frame}
    {put : Nat → QuicConnection PacketKey RootStore → QuicConnection PacketKey RootStore}
    (unseen : ∀ limit self, view (put limit self) = view self) :
    Moves (Keeps view) (Keeps view) (replenish codec env used limit announce put) self := by
  have rules := keeps_sequential view
  unfold replenish
  split_ifs
  · exact rules.bind (sendPacket_keeps unsent) fun _ _ _ _ => Sequential.update (unseen _ _)
  · exact rules.pure

end Sending

/-! ## Pieces -/

/-- The stream data of a frame. -/
structure Piece where
  offset : Nat
  data : Bytes
  fin : Bool
deriving DecidableEq, Repr

namespace Piece

/-- Where the piece ends. -/
def stop (piece : Piece) : Nat := piece.offset + piece.data.length

/-- The piece is a slice of the response, and the last one if it says so. -/
structure SliceOf (response : Bytes) (piece : Piece) : Prop where
  located : Located response piece.offset piece.data
  last : piece.fin = true → piece.stop = response.length

/-- How far the pieces reach. -/
def reach (pieces : List Piece) : Nat := pieces.foldl (fun seen piece => max seen piece.stop) 0

/-- A piece starts past an octet that none before it reached. -/
def Skipped (pieces : List Piece) (position : Nat) : Prop :=
  ∃ before piece after, pieces = before ++ piece :: after ∧ reach before ≤ position ∧
    position < piece.offset

/-- A piece that starts past everything before it and ends past the buffer limit. -/
def Refused (before : List Piece) (piece : Piece) : Prop :=
  reach before < piece.offset ∧ MAX_RESPONSE_BUFFER < piece.stop

instance (before : List Piece) (piece : Piece) : Decidable (Refused before piece) :=
  inferInstanceAs (Decidable (_ ∧ _))

/-- The pieces that are stored when the last one is taken. -/
def stored (before : List Piece) (last : Piece) : List Piece :=
  if Refused before last then before else before ++ [last]

/-- What is asked of the reassembly: a complete buffer is the response, and it is
complete once every octet and the end were received. -/
structure Reassembled (response : Bytes) (pieces : List Piece) (rx : QueryRecv) : Prop where
  exact : rx.complete = true → rx.buf = response
  completes : (∀ position < response.length,
      ∃ piece ∈ pieces, piece.offset ≤ position ∧ position < piece.stop) →
    (∃ piece ∈ pieces, piece.fin = true) → rx.complete = true

variable {response buf : Bytes} {pieces : List Piece} {piece : Piece} {position : Nat}

@[simp] theorem reach_append :
    reach (pieces ++ [piece]) = max (reach pieces) piece.stop := by
  simp [reach, List.foldl_append]

theorem stop_le_reach (member : piece ∈ pieces) : piece.stop ≤ reach pieces := by
  induction pieces using List.reverseRecOn with
  | nil => cases member
  | append_singleton pieces last inductionHypothesis =>
      rw [reach_append]
      rcases List.mem_append.mp member with earlier | final
      · exact le_trans (inductionHypothesis earlier) (le_max_left _ _)
      · obtain rfl := List.mem_singleton.mp final
        exact le_max_right _ _

theorem reach_le {limit : Nat} (bounded : ∀ piece ∈ pieces, piece.stop ≤ limit) :
    reach pieces ≤ limit := by
  induction pieces using List.reverseRecOn with
  | nil => exact Nat.zero_le _
  | append_singleton pieces last inductionHypothesis =>
      rw [reach_append]
      exact max_le (inductionHypothesis fun piece member => bounded piece (by simp [member]))
        (bounded last (by simp))

theorem skipped_append :
    Skipped (pieces ++ [piece]) position ↔
      Skipped pieces position ∨ reach pieces ≤ position ∧ position < piece.offset := by
  constructor
  · rintro ⟨before, found, after, split, past, short⟩
    rcases List.eq_nil_or_concat after with rfl | ⟨inner, final, rfl⟩
    · obtain ⟨rfl, same⟩ := List.append_inj' split rfl
      obtain rfl : piece = found := by simpa using same
      exact .inr ⟨past, short⟩
    · have regrouped : pieces ++ [piece] = (before ++ found :: inner) ++ [final] := by
        simpa using split
      obtain ⟨rfl, -⟩ := List.append_inj' regrouped rfl
      exact .inl ⟨before, found, inner, rfl, past, short⟩
  · rintro (⟨before, found, after, rfl, past, short⟩ | ⟨past, short⟩)
    · exact ⟨before, found, after ++ [piece], by simp, past, short⟩
    · exact ⟨pieces, piece, [], rfl, past, short⟩

theorem Skipped.lt_length (slices : ∀ piece ∈ pieces, piece.SliceOf response)
    (skipped : Skipped pieces position) : position < response.length := by
  obtain ⟨before, piece, after, rfl, -, short⟩ := skipped
  have bound := (slices piece (by simp)).located.bound
  omega

/-! ## The buffer -/

/-- What the buffer holds: the response, with zeros where octets were skipped. -/
structure Holds (response : Bytes) (pieces : List Piece) (buf : Bytes) : Prop where
  length : buf.length = reach pieces
  skipped : ∀ position < buf.length, Skipped pieces position → buf[position]? = some 0
  kept : ∀ position < buf.length, ¬ Skipped pieces position → buf[position]? = response[position]?

theorem holds_nil : Holds response [] [] := ⟨rfl, by simp, by simp⟩

/-- The octets of a slice are those of the response. -/
theorem SliceOf.getElem? (slice : piece.SliceOf response) {index : Nat}
    (inside : index < piece.data.length) :
    piece.data[index]? = response[piece.offset + index]? := by
  have same := slice.located.slice
  rw [← List.getElem?_drop]
  nth_rewrite 1 [← same]
  rw [List.getElem?_take, if_pos inside]

theorem placeResponse_of_le {offset : Nat} {data : Bytes} (within : offset ≤ buf.length) :
    placeResponse buf offset data = some (buf ++ data.drop (buf.length - offset)) := by
  rw [placeResponse, if_neg (by omega)]

theorem placeResponse_of_lt {offset : Nat} {data : Bytes} (past : buf.length < offset)
    (fits : offset + data.length ≤ MAX_RESPONSE_BUFFER) :
    placeResponse buf offset data =
      some (buf ++ List.replicate (offset - buf.length) 0 ++ data) := by
  rw [placeResponse, if_pos past, reassemblyEnd, if_pos fits, Option.map_some,
    Nat.add_sub_cancel]

theorem placeResponse_eq_none {offset : Nat} {data : Bytes} :
    placeResponse buf offset data = none ↔
      buf.length < offset ∧ MAX_RESPONSE_BUFFER < offset + data.length := by
  unfold placeResponse reassemblyEnd
  split_ifs with past fits
  · simp [fits]
  · simpa [past] using Nat.lt_of_not_le fits
  · simp [Nat.not_lt.mp past]

/-- A piece that overlaps or follows what is there. -/
theorem Holds.extend (holds : Holds response pieces buf) (slice : piece.SliceOf response)
    (within : piece.offset ≤ buf.length) :
    Holds response (pieces ++ [piece]) (buf ++ piece.data.drop (buf.length - piece.offset)) := by
  have same : ∀ position, Skipped (pieces ++ [piece]) position ↔ Skipped pieces position := by
    intro position
    rw [skipped_append, ← holds.length]
    constructor
    · rintro (earlier | ⟨past, short⟩)
      · exact earlier
      · omega
    · exact .inl
  have fresh : ∀ position, ¬ position < buf.length →
      (piece.data.drop (buf.length - piece.offset))[position - buf.length]? =
        piece.data[position - piece.offset]? := by
    intro position past
    rw [List.getElem?_drop]
    congr 1
    omega
  refine ⟨?_, fun position inside skipped => ?_, fun position inside kept => ?_⟩
  · rw [List.length_append, List.length_drop, reach_append, ← holds.length, stop]
    omega
  · rw [same] at skipped
    by_cases old : position < buf.length
    · rw [List.getElem?_append_left old]
      exact holds.skipped position old skipped
    · obtain ⟨before, found, after, rfl, -, short⟩ := skipped
      have reached : found.stop ≤ buf.length := by
        rw [holds.length]
        exact stop_le_reach (by simp)
      have : found.offset ≤ found.stop := Nat.le_add_right _ _
      omega
  · rw [same] at kept
    by_cases old : position < buf.length
    · rw [List.getElem?_append_left old]
      exact holds.kept position old kept
    · rw [List.length_append, List.length_drop] at inside
      rw [List.getElem?_append_right (Nat.not_lt.mp old), fresh position old,
        slice.getElem? (by omega)]
      congr 1
      omega

/-- A piece that starts past everything that is there. -/
theorem Holds.skip (holds : Holds response pieces buf) (slice : piece.SliceOf response)
    (past : buf.length < piece.offset) :
    Holds response (pieces ++ [piece])
      (buf ++ List.replicate (piece.offset - buf.length) 0 ++ piece.data) := by
  have padded : (buf ++ List.replicate (piece.offset - buf.length) (0 : UInt8)).length =
      piece.offset := by
    rw [List.length_append, List.length_replicate]
    omega
  have split : ∀ position, Skipped (pieces ++ [piece]) position ↔
      Skipped pieces position ∨ buf.length ≤ position ∧ position < piece.offset := by
    intro position
    rw [skipped_append, holds.length]
  refine ⟨?_, fun position inside skipped => ?_, fun position inside kept => ?_⟩
  · rw [List.length_append, padded, reach_append, ← holds.length, stop]
    omega
  · rw [split] at skipped
    by_cases old : position < buf.length
    · rw [List.append_assoc, List.getElem?_append_left old]
      exact holds.skipped position old (skipped.resolve_right (by omega))
    · have gap : position < piece.offset := by
        rcases skipped with ⟨before, found, after, rfl, -, short⟩ | ⟨-, short⟩
        · have reached : found.stop ≤ buf.length := by
            rw [holds.length]
            exact stop_le_reach (by simp)
          have : found.offset ≤ found.stop := Nat.le_add_right _ _
          omega
        · exact short
      rw [List.getElem?_append_left (by omega), List.getElem?_append_right (Nat.not_lt.mp old),
        List.getElem?_replicate, if_pos (by omega)]
  · rw [split] at kept
    by_cases old : position < buf.length
    · rw [List.append_assoc, List.getElem?_append_left old]
      exact holds.kept position old fun skipped => kept (.inl skipped)
    · have later : piece.offset ≤ position := by
        by_contra short
        exact kept (.inr ⟨Nat.not_lt.mp old, Nat.not_le.mp short⟩)
      rw [List.length_append, padded] at inside
      rw [List.getElem?_append_right (by omega), padded, slice.getElem? (by omega)]
      congr 1
      omega

/-- The step of the reassembly. -/
theorem Holds.place (holds : Holds response pieces buf) (slice : piece.SliceOf response)
    {after : Bytes} (placed : placeResponse buf piece.offset piece.data = some after) :
    Holds response (pieces ++ [piece]) after := by
  by_cases within : piece.offset ≤ buf.length
  · rw [placeResponse_of_le within] at placed
    cases placed
    exact holds.extend slice within
  · have past := Nat.not_le.mp within
    have fits : piece.offset + piece.data.length ≤ MAX_RESPONSE_BUFFER := by
      by_contra large
      rw [placeResponse_eq_none.mpr ⟨past, Nat.not_le.mp large⟩] at placed
      cases placed
    rw [placeResponse_of_lt past fits] at placed
    cases placed
    exact holds.skip slice past

/-- A buffer that reaches the end is the response when only zeros were skipped. -/
theorem Holds.eq_response_iff (holds : Holds response pieces buf)
    (slices : ∀ piece ∈ pieces, piece.SliceOf response) (whole : reach pieces = response.length) :
    buf = response ↔ ∀ position, Skipped pieces position → response[position]? = some 0 := by
  have length : buf.length = response.length := holds.length.trans whole
  constructor
  · rintro rfl position skipped
    exact holds.skipped position (skipped.lt_length slices) skipped
  · intro zeros
    refine List.ext_getElem? fun position => ?_
    by_cases inside : position < buf.length
    · by_cases skipped : Skipped pieces position
      · rw [holds.skipped position inside skipped, zeros position skipped]
      · exact holds.kept position inside skipped
    · rw [List.getElem?_eq_none (by omega), List.getElem?_eq_none (by omega)]

/-! ## The frames of the query stream -/

section Connection

variable {PacketKey RootStore : Type} {codec : Codec PacketKey}
variable {self after : QuicConnection PacketKey RootStore} {env : Env}
variable {outcome : Except Error Unit}

/-- Take the STREAM frame of a piece. -/
def take (codec : Codec PacketKey) (streamId : Nat) (arrival : Env × Piece) :
    Act PacketKey RootStore Unit :=
  onStream codec arrival.1 streamId arrival.2.offset arrival.2.data arrival.2.fin

/-- The response so far and its stream. -/
def reply (self : QuicConnection PacketKey RootStore) : QueryRecv × Nat :=
  (self.queryRx, self.streamId)

theorem maybeReplenishWindows_reply :
    Moves (Keeps reply) (Keeps reply) (maybeReplenishWindows codec env) self := by
  have rules := keeps_sequential (@reply PacketKey RootStore)
  have unsent : Unsent (@reply PacketKey RootStore) := ⟨fun _ _ _ => rfl, fun _ _ _ _ _ => rfl⟩
  refine Sequential.read_bind (rules.bind (replenish_keeps unsent fun _ _ => rfl) ?_)
  intro _ middle _ _
  exact Sequential.read_bind (replenish_keeps unsent fun _ _ => rfl)

/-- What a frame of the query stream does to the response. -/
theorem onResponse_reply {piece : Piece}
    (ran : onResponse codec env piece.offset piece.data piece.fin self = (outcome, after)) :
    after.streamId = self.streamId ∧
      (placeResponse self.queryRx.buf piece.offset piece.data = none ∧
          outcome ≠ .ok () ∧ after.queryRx = self.queryRx ∨
        ∃ buf, placeResponse self.queryRx.buf piece.offset piece.data = some buf ∧
          after.queryRx = ⟨buf, self.queryRx.fin || piece.fin⟩) := by
  unfold onResponse at ran
  rw [read_bind_run] at ran
  cases placed : placeResponse self.queryRx.buf piece.offset piece.data with
  | none =>
      rw [placed] at ran
      cases ran
      exact ⟨rfl, .inl ⟨rfl, by simp, rfl⟩⟩
  | some buf =>
      rw [placed] at ran
      dsimp only at ran
      rw [update_bind_run] at ran
      split_ifs at ran
      · cases ran
        exact ⟨rfl, .inr ⟨buf, rfl, rfl⟩⟩
      · rw [update_bind_run] at ran
        have kept := maybeReplenishWindows_reply.keeps ran
        exact ⟨congrArg Prod.snd kept, .inr ⟨buf, rfl, congrArg Prod.fst kept⟩⟩

variable {streamId : Nat}

/-- What a frame on its own stream does to the response. -/
theorem take_reply (own : codec.streamType streamId = codec.clientBidi)
    (bidirectional : codec.clientBidi ≠ codec.serverUni) {arrival : Env × Piece}
    (current : self.streamId = streamId)
    (ran : take codec streamId arrival self = (outcome, after)) :
    after.streamId = streamId ∧
      (placeResponse self.queryRx.buf arrival.2.offset arrival.2.data = none ∧
          outcome ≠ .ok () ∧ after.queryRx = self.queryRx ∨
        ∃ buf, placeResponse self.queryRx.buf arrival.2.offset arrival.2.data = some buf ∧
          after.queryRx = ⟨buf, self.queryRx.fin || arrival.2.fin⟩) := by
  unfold take onStream at ran
  rw [read_bind_run, if_neg (by rw [own]; exact bidirectional),
    if_neg (by simp [own, current])] at ran
  have replied := onResponse_reply ran
  rwa [current] at replied

/-- The response while the frames are taken: it has their octets, and it is
complete once the last of them was there. -/
structure Assembling (response : Bytes) (pieces : List Piece) (rx : QueryRecv) : Prop where
  holds : Holds response pieces rx.buf
  fin : rx.fin = true ↔ ∃ piece ∈ pieces, piece.fin = true

theorem Assembling.place {response buf : Bytes} {pieces : List Piece} {piece : Piece}
    {rx : QueryRecv} (assembling : Assembling response pieces rx)
    (slice : piece.SliceOf response)
    (placed : placeResponse rx.buf piece.offset piece.data = some buf) :
    Assembling response (pieces ++ [piece]) ⟨buf, rx.fin || piece.fin⟩ := by
  refine ⟨assembling.holds.place slice placed, ?_⟩
  rw [Bool.or_eq_true, assembling.fin]
  simp [or_and_right, exists_or]

/-- When a complete buffer is the response. -/
theorem Assembling.exact_iff {response : Bytes} {pieces : List Piece} {rx : QueryRecv}
    (assembling : Assembling response pieces rx)
    (slices : ∀ piece ∈ pieces, piece.SliceOf response) :
    (rx.complete = true → rx.buf = response) ↔
      (∀ piece ∈ pieces, piece.fin = false) ∨
        ∀ position, Skipped pieces position → response[position]? = some 0 := by
  by_cases ended : ∃ piece ∈ pieces, piece.fin = true
  · obtain ⟨last, member, fin⟩ := ended
    have whole : reach pieces = response.length := by
      refine le_antisymm (reach_le fun piece found => (slices piece found).located.bound) ?_
      rw [← (slices last member).last fin]
      exact stop_le_reach member
    have complete : rx.complete = true := assembling.fin.mpr ⟨last, member, fin⟩
    have open_end : ¬ ∀ piece ∈ pieces, piece.fin = false := by
      intro none
      cases fin.symm.trans (none last member)
    rw [← assembling.holds.eq_response_iff slices whole]
    simp [complete, open_end]
  · have incomplete : ¬ rx.complete = true := fun complete => ended (assembling.fin.mp complete)
    have unended : ∀ piece ∈ pieces, piece.fin = false := by
      intro piece member
      exact eq_false_of_ne_true fun fin => ended ⟨piece, member, fin⟩
    exact ⟨fun _ => .inl unended, fun _ complete => absurd complete incomplete⟩

/-- As long as the frames are taken, their pieces are put together. -/
theorem each_take_assembling (own : codec.streamType streamId = codec.clientBidi)
    (bidirectional : codec.clientBidi ≠ codec.serverUni) {response : Bytes}
    {arrivals : List (Env × Piece)} {before : List Piece}
    (slices : ∀ arrival ∈ arrivals, arrival.2.SliceOf response)
    (current : self.streamId = streamId) (assembling : Assembling response before self.queryRx)
    (ran : each (take codec streamId) arrivals self = (.ok (), after)) :
    after.streamId = streamId ∧
      Assembling response (before ++ arrivals.map Prod.snd) after.queryRx := by
  induction arrivals generalizing self before with
  | nil =>
      cases ran
      exact ⟨current, by simpa using assembling⟩
  | cons arrival arrivals inductionHypothesis =>
      obtain ⟨_, middle, took, rest⟩ := bind_eq_ok_iff.mp ran
      obtain ⟨same, ⟨-, failed, -⟩ | ⟨buf, placed, received⟩⟩ :=
        take_reply own bidirectional current took
      · exact absurd rfl failed
      · have next := assembling.place (slices arrival List.mem_cons_self) placed
        rw [← received] at next
        have later := inductionHypothesis
          (fun other member => slices other (List.mem_cons_of_mem _ member)) same next rest
        simpa using later

/-- A response is put together exactly as long as the octets that frames skip over
are zeros, or its end has not been stored. -/
theorem reassembled_iff (codec : Codec PacketKey) (response : Bytes)
    (arrivals : List (Env × Piece)) (last : Env × Piece)
    (conn middle after : QuicConnection PacketKey RootStore) (outcome : Except Error Unit)
    (own : codec.streamType conn.streamId = codec.clientBidi)
    (bidirectional : codec.clientBidi ≠ codec.serverUni) (opened : conn.queryRx = .default)
    (slices : ∀ arrival ∈ arrivals ++ [last], arrival.2.SliceOf response)
    (ran : each (take codec conn.streamId) arrivals conn = (.ok (), middle))
    (took : take codec conn.streamId last middle = (outcome, after)) :
    Reassembled response ((arrivals ++ [last]).map Prod.snd) after.queryRx ↔
      (∀ piece ∈ stored (arrivals.map Prod.snd) last.2, piece.fin = false) ∨
        ∀ position, Skipped (stored (arrivals.map Prod.snd) last.2) position →
          response[position]? = some 0 := by
  have slicesBefore : ∀ piece ∈ arrivals.map Prod.snd, piece.SliceOf response := by
    intro piece member
    obtain ⟨arrival, found, rfl⟩ := List.mem_map.mp member
    exact slices arrival (List.mem_append_left _ found)
  have slice := slices last (by simp)
  have start : Assembling response [] conn.queryRx := by
    rw [opened]
    exact ⟨holds_nil, by simp [QueryRecv.default]⟩
  obtain ⟨current, assembling⟩ := each_take_assembling own bidirectional
    (fun arrival member => slices arrival (List.mem_append_left _ member)) rfl start ran
  rw [List.nil_append] at assembling
  rw [List.map_append, List.map_singleton]
  have refused : Refused (arrivals.map Prod.snd) last.2 ↔
      placeResponse middle.queryRx.buf last.2.offset last.2.data = none := by
    rw [placeResponse_eq_none, assembling.holds.length]
    rfl
  obtain ⟨-, ⟨unplaced, -, same⟩ | ⟨buf, placed, received⟩⟩ :=
    take_reply own bidirectional current took
  · -- The octet after all that was stored has not been received.
    have past := (refused.mpr unplaced).1
    rw [stored, if_pos (refused.mpr unplaced), ← assembling.exact_iff slicesBefore, same]
    refine ⟨Reassembled.exact, fun exact => ⟨exact, fun covered _ => ?_⟩⟩
    have bound := slice.located.bound
    obtain ⟨piece, member, start, upTo⟩ := covered (reach (arrivals.map Prod.snd)) (by omega)
    rcases List.mem_append.mp member with earlier | final
    · exact absurd (stop_le_reach earlier) (Nat.not_le.mpr upTo)
    · obtain rfl := List.mem_singleton.mp final
      omega
  · have next := assembling.place slice placed
    rw [← received] at next
    have slicesAll : ∀ piece ∈ arrivals.map Prod.snd ++ [last.2], piece.SliceOf response := by
      intro piece member
      rcases List.mem_append.mp member with earlier | final
      · exact slicesBefore piece earlier
      · obtain rfl := List.mem_singleton.mp final
        exact slice
    rw [stored, if_neg (by rw [refused, placed]; simp), ← next.exact_iff slicesAll]
    exact ⟨Reassembled.exact, fun exact => ⟨exact, fun _ fin => next.fin.mpr fin⟩⟩

end Connection

/-- In order, the two halves of a response are put together. -/
theorem reassembled_in_order : ∃ middle after,
    each (take Plain.codec 0) [(Plain.env, ⟨0, [1], false⟩)] Plain.connection = (.ok (), middle) ∧
    take Plain.codec 0 (Plain.env, ⟨1, [2], true⟩) middle = (.ok (), after) ∧
    Reassembled [1, 2] [⟨0, [1], false⟩, ⟨1, [2], true⟩] after.queryRx := by
  have ran := run_eq (show (each (take Plain.codec 0) [(Plain.env, ⟨0, [1], false⟩)]
    Plain.connection).1 = .ok () by decide)
  have took := run_eq (show (take Plain.codec 0 (Plain.env, ⟨1, [2], true⟩)
    (each (take Plain.codec 0) [(Plain.env, ⟨0, [1], false⟩)] Plain.connection).2).1 = .ok () by
      decide)
  refine ⟨_, _, ran, took, ?_⟩
  refine (reassembled_iff Plain.codec [1, 2] _ _ Plain.connection _ _ _ (by decide) (by decide) rfl
    ?_ ran took).mpr (.inr fun position skipped => ?_)
  · intro arrival member
    simp only [List.cons_append, List.nil_append, List.mem_cons, List.not_mem_nil,
      or_false] at member
    rcases member with rfl | rfl
    · exact ⟨⟨by decide, by decide⟩, by decide⟩
    · exact ⟨⟨by decide, by decide⟩, by decide⟩
  · have both : stored [⟨0, [1], false⟩] ⟨1, [2], true⟩ =
        [] ++ [⟨0, [1], false⟩] ++ [⟨1, [2], true⟩] := by decide
    rw [List.map_singleton, both, skipped_append, skipped_append] at skipped
    rcases skipped with (⟨before, piece, after, split, -⟩ | ⟨-, short⟩) | ⟨past, short⟩
    · simp at split
    · cases short
    · exact absurd short (Nat.not_lt.mpr past)

/-- The end of a response before its start: it is complete at once, and the start
stays zero when it comes. -/
theorem early_end_leaves_zero : ∃ middle after,
    each (take Plain.codec 0) [(Plain.env, ⟨1, [2], true⟩)] Plain.connection = (.ok (), middle) ∧
    take Plain.codec 0 (Plain.env, ⟨0, [1], false⟩) middle = (.ok (), after) ∧
    (∀ piece ∈ [(⟨1, [2], true⟩ : Piece), ⟨0, [1], false⟩], piece.SliceOf [1, 2]) ∧
    after.queryRx = ⟨[0, 2], true⟩ ∧
    ¬ Reassembled [1, 2] [⟨1, [2], true⟩, ⟨0, [1], false⟩] after.queryRx := by
  refine ⟨_, _, run_eq (by decide), run_eq (by decide), ?_, by decide, ?_⟩
  · intro piece member
    simp only [List.mem_cons, List.not_mem_nil, or_false] at member
    rcases member with rfl | rfl
    · exact ⟨⟨by decide, by decide⟩, by decide⟩
    · exact ⟨⟨by decide, by decide⟩, by decide⟩
  · intro reassembled
    exact absurd (reassembled.exact (by decide)) (by decide)

end Piece

end RecurseX.Doq
