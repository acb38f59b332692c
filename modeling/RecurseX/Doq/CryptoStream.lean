import Mathlib.Data.List.Induction
import RecurseX.Doq.Connection

/-!
# The CRYPTO stream of a space

Frames bring slices of a stream, in any order and overlapping, and handshake messages
are popped off its front. What is buffered is always a slice of the stream, and what
was popped is how the stream splits into messages. An octet of a frame that was taken
is not forgotten, as long as no frame is parked where a shorter one is parked already.
-/

namespace RecurseX.Doq

open Library Wire

/-! ## Handshake messages -/

/-- The first handshake message of a stream and what follows it: a type, a length of three
octets and as many octets. -/
def splitMessage (stream : Bytes) : Option (Bytes × Bytes) :=
  match stream with
  | _ :: second :: third :: fourth :: _ =>
      let take := 4 + ofBe24 second third fourth
      if stream.length < take then none else some (stream.take take, stream.drop take)
  | _ => none

/-- A message is its header and as many octets as the header declares. -/
theorem splitMessage_eq_some_iff {stream message rest : Bytes} :
    splitMessage stream = some (message, rest)
      ↔ stream = message ++ rest ∧ ∃ first second third fourth body,
        message = first :: second :: third :: fourth :: body
          ∧ body.length = ofBe24 second third fourth := by
  constructor
  · intro split
    rcases stream with _ | ⟨first, _ | ⟨second, _ | ⟨third, _ | ⟨fourth, tail⟩⟩⟩⟩
    · cases split
    · cases split
    · cases split
    · cases split
    · unfold splitMessage at split
      dsimp only at split
      split_ifs at split with short
      obtain ⟨rfl, rfl⟩ := Prod.mk.inj (Option.some.inj split)
      refine ⟨(List.take_append_drop _ _).symm, first, second, third, fourth,
        tail.take (ofBe24 second third fourth), ?_, ?_⟩
      · rw [Nat.add_comm, List.take_succ_cons, List.take_succ_cons, List.take_succ_cons,
          List.take_succ_cons]
      · simp only [List.length_cons] at short
        rw [List.length_take]
        omega
  · rintro ⟨rfl, first, second, third, fourth, body, rfl, length⟩
    have size : (first :: second :: third :: fourth :: body).length
        = 4 + ofBe24 second third fourth := by
      simp only [List.length_cons]
      omega
    rw [List.cons_append, List.cons_append, List.cons_append, List.cons_append]
    unfold splitMessage
    dsimp only
    rw [← size, if_neg]
    · exact congrArg some (Prod.ext (@List.take_left _ _ rest) (@List.drop_left _ _ rest))
    · simp

/-- A message that is complete is so whatever follows. -/
theorem splitMessage_append {stream message rest : Bytes}
    (split : splitMessage stream = some (message, rest)) (more : Bytes) :
    splitMessage (stream ++ more) = some (message, rest ++ more) := by
  obtain ⟨rfl, header⟩ := splitMessage_eq_some_iff.mp split
  exact splitMessage_eq_some_iff.mpr ⟨List.append_assoc _ _ _, header⟩

theorem splitMessage_shortens {stream message rest : Bytes}
    (split : splitMessage stream = some (message, rest)) : rest.length < stream.length := by
  obtain ⟨rfl, first, second, third, fourth, body, rfl, -⟩ := splitMessage_eq_some_iff.mp split
  simp only [List.length_append, List.length_cons]
  omega

/-- The messages a stream splits into, up to the first that is not complete. -/
def tlsMessages (stream : Bytes) : List Bytes :=
  match _split : splitMessage stream with
  | none => []
  | some (message, rest) => message :: tlsMessages rest
termination_by stream.length
decreasing_by exact splitMessage_shortens _split

theorem tlsMessages_of_split {stream message rest : Bytes}
    (split : splitMessage stream = some (message, rest)) :
    tlsMessages stream = message :: tlsMessages rest := by
  rw [tlsMessages]
  split
  · rename_i none
    rw [split] at none
    cases none
  · rename_i same
    rw [split] at same
    obtain ⟨rfl, rfl⟩ := Prod.mk.inj (Option.some.inj same)
    rfl

namespace CryptoRx

variable {rx : CryptoRx} {offset start : Nat} {data buf : Bytes} {pending : List (Nat × Bytes)}

/-! ## One call -/

/-- Popping takes the first message off the buffer. -/
theorem popMessage_eq (rx : CryptoRx) :
    rx.popMessage = (splitMessage rx.buf).map fun (message, rest) =>
      (message, { rx with buf := rest, start := rx.start + message.length }.drainPending) := by
  obtain ⟨buf, start, pending⟩ := rx
  rcases buf with _ | ⟨first, _ | ⟨second, _ | ⟨third, _ | ⟨fourth, tail⟩⟩⟩⟩
  · rfl
  · rfl
  · rfl
  · rfl
  · unfold popMessage splitMessage
    dsimp only
    split_ifs with short
    · rfl
    · rw [Option.map_some, List.length_take_of_le (Nat.le_of_not_lt short)]

/-- A frame that overlaps or follows the buffer continues it. -/
theorem continue_eq (within : offset ≤ rx.contiguousEnd) :
    rx.buf ++ (if offset < rx.start then data.drop (rx.start - offset) else data).drop
        (rx.contiguousEnd - max offset rx.start)
      = rx.buf ++ data.drop (rx.contiguousEnd - offset) := by
  unfold contiguousEnd at within ⊢
  congr 1
  split_ifs with early
  · rw [List.drop_drop]
    congr 1
    omega
  · rw [Nat.max_eq_left (Nat.le_of_not_lt early)]

/-- What an accepted frame does: nothing, when it is behind the buffer; it is parked, when it
leaves a gap; otherwise it continues the buffer, and what was parked follows. -/
theorem insert_cases {after : CryptoRx} (inserted : rx.insert offset data = .ok after) :
    (offset + data.length ≤ rx.start ∧ after = rx)
      ∨ (rx.contiguousEnd < offset ∧ after = { rx with pending := park offset data rx.pending })
      ∨ (offset ≤ rx.contiguousEnd
        ∧ after = drainFrom rx.start (rx.buf ++ data.drop (rx.contiguousEnd - offset))
          rx.pending) := by
  unfold insert at inserted
  by_cases full : rx.buffered + data.length > MAX_CRYPTO_BUFFER
  · rw [if_pos full] at inserted
    cases inserted
  rw [if_neg full] at inserted
  by_cases stale : offset + data.length ≤ rx.start
  · rw [if_pos stale] at inserted
    exact .inl ⟨stale, (Except.ok.inj inserted).symm⟩
  rw [if_neg stale] at inserted
  by_cases gap : offset > rx.contiguousEnd
  · rw [if_pos gap] at inserted
    exact .inr (.inl ⟨gap, (Except.ok.inj inserted).symm⟩)
  · have within := Nat.le_of_not_lt gap
    rw [if_neg gap] at inserted
    dsimp only at inserted
    rw [continue_eq within] at inserted
    exact .inr (.inr ⟨within, (Except.ok.inj inserted).symm⟩)

/-! ## What is parked -/

/-- What is parked is what was, and what was brought. -/
theorem mem_park {entry : Nat × Bytes} (member : entry ∈ park offset data pending) :
    entry = (offset, data) ∨ entry ∈ pending := by
  induction pending with
  | nil => exact .inl (List.mem_singleton.mp member)
  | cons first rest inductionHypothesis =>
      obtain ⟨other, chunk⟩ := first
      rw [park_cons] at member
      split_ifs at member with before same
      · exact List.mem_cons.mp member
      · exact .inr member
      · rcases List.mem_cons.mp member with rfl | later
        · exact .inr List.mem_cons_self
        · rcases inductionHypothesis later with new | old
          · exact .inl new
          · exact .inr (List.mem_cons_of_mem _ old)

/-- Nothing parked is lost by parking more. -/
theorem mem_park_of_mem {entry : Nat × Bytes} (member : entry ∈ pending) :
    entry ∈ park offset data pending := by
  induction pending with
  | nil => cases member
  | cons first rest inductionHypothesis =>
      obtain ⟨other, chunk⟩ := first
      rw [park_cons]
      split_ifs with before same
      · exact List.mem_cons_of_mem _ member
      · exact member
      · rcases List.mem_cons.mp member with rfl | later
        · exact List.mem_cons_self
        · exact List.mem_cons_of_mem _ (inductionHypothesis later)

/-- Afterwards something is parked under the offset: what was brought, or what was there. -/
theorem exists_mem_park (offset : Nat) (data : Bytes) (pending : List (Nat × Bytes)) :
    ∃ chunk, (offset, chunk) ∈ park offset data pending
      ∧ (chunk = data ∨ (offset, chunk) ∈ pending) := by
  induction pending with
  | nil => exact ⟨data, List.mem_singleton_self _, .inl rfl⟩
  | cons first rest inductionHypothesis =>
      obtain ⟨other, chunk⟩ := first
      rw [park_cons]
      split_ifs with before same
      · exact ⟨data, List.mem_cons_self, .inl rfl⟩
      · subst same
        exact ⟨chunk, List.mem_cons_self, .inr List.mem_cons_self⟩
      · obtain ⟨kept, member, which⟩ := inductionHypothesis
        exact ⟨kept, List.mem_cons_of_mem _ member, which.imp_right (List.mem_cons_of_mem _)⟩

/-- The offsets under which data is parked ascend. -/
def Ascending (pending : List (Nat × Bytes)) : Prop :=
  pending.Pairwise fun first second => first.1 < second.1

theorem Ascending.park (ascending : Ascending pending) (offset : Nat) (data : Bytes) :
    Ascending (park offset data pending) := by
  induction pending with
  | nil => exact List.pairwise_singleton _ _
  | cons first rest inductionHypothesis =>
      obtain ⟨other, chunk⟩ := first
      obtain ⟨above, later⟩ := List.pairwise_cons.mp ascending
      rw [park_cons]
      split_ifs with before same
      · refine List.pairwise_cons.mpr ⟨fun entry member => ?_, ascending⟩
        rcases List.mem_cons.mp member with rfl | later
        · exact before
        · exact before.trans (above entry later)
      · exact ascending
      · refine List.pairwise_cons.mpr ⟨fun entry member => ?_, inductionHypothesis later⟩
        rcases mem_park member with rfl | old
        · exact Nat.lt_of_le_of_ne (Nat.le_of_not_lt before) (Ne.symm same)
        · exact above entry old

/-! ## Draining -/

theorem drainFrom_start (start : Nat) (buf : Bytes) (pending : List (Nat × Bytes)) :
    (drainFrom start buf pending).start = start := by
  induction pending generalizing buf with
  | nil => rfl
  | cons first rest inductionHypothesis =>
      obtain ⟨off, chunk⟩ := first
      rw [drainFrom_cons]
      split_ifs with reached
      · exact inductionHypothesis _
      · rfl

/-- What is still parked was parked before. -/
theorem drainFrom_pending (start : Nat) (buf : Bytes) (pending : List (Nat × Bytes)) :
    (drainFrom start buf pending).pending <:+ pending := by
  induction pending generalizing buf with
  | nil => exact List.suffix_rfl
  | cons first rest inductionHypothesis =>
      obtain ⟨off, chunk⟩ := first
      rw [drainFrom_cons]
      split_ifs with reached
      · exact (inductionHypothesis _).trans (List.suffix_cons _ _)
      · exact List.suffix_rfl

/-- Draining slices of a stream leaves a slice in the buffer. -/
theorem drainFrom_located {stream : Bytes} (buffered : Located stream start buf)
    (parked : ∀ entry ∈ pending, Located stream entry.1 entry.2) :
    Located stream start (drainFrom start buf pending).buf := by
  induction pending generalizing buf with
  | nil => exact buffered
  | cons first rest inductionHypothesis =>
      obtain ⟨off, chunk⟩ := first
      rw [drainFrom_cons]
      split_ifs with reached
      · exact inductionHypothesis
          (buffered.extend (parked (off, chunk) List.mem_cons_self) reached)
          fun entry member => parked entry (List.mem_cons_of_mem _ member)
      · exact buffered

/-- Draining does not shorten the buffer. -/
theorem le_drainFrom (start : Nat) (buf : Bytes) (pending : List (Nat × Bytes)) :
    start + buf.length ≤ (drainFrom start buf pending).contiguousEnd := by
  induction pending generalizing buf with
  | nil => exact le_refl _
  | cons first rest inductionHypothesis =>
      obtain ⟨off, chunk⟩ := first
      rw [drainFrom_cons]
      split_ifs with reached
      · refine le_trans ?_ (inductionHypothesis _)
        rw [List.length_append]
        omega
      · exact le_refl _

/-- What was parked is still parked or lies within the buffer. -/
theorem drainFrom_keeps {entry : Nat × Bytes} (member : entry ∈ pending) :
    entry ∈ (drainFrom start buf pending).pending
      ∨ entry.1 + entry.2.length ≤ (drainFrom start buf pending).contiguousEnd := by
  induction pending generalizing buf with
  | nil => cases member
  | cons first rest inductionHypothesis =>
      obtain ⟨off, chunk⟩ := first
      rw [drainFrom_cons]
      split_ifs with reached
      · rcases List.mem_cons.mp member with rfl | later
        · refine .inr (le_trans ?_ (le_drainFrom _ _ _))
          change off + chunk.length ≤ _
          rw [List.length_append, List.length_drop]
          omega
        · exact inductionHypothesis later
      · exact .inl member

/-- What is still parked starts past the buffer. -/
theorem drainFrom_apart (ascending : Ascending pending) :
    ∀ entry ∈ (drainFrom start buf pending).pending,
      (drainFrom start buf pending).contiguousEnd < entry.1 := by
  induction pending generalizing buf with
  | nil => exact fun entry member => absurd member List.not_mem_nil
  | cons first rest inductionHypothesis =>
      obtain ⟨off, chunk⟩ := first
      obtain ⟨above, later⟩ := List.pairwise_cons.mp ascending
      rw [drainFrom_cons]
      split_ifs with reached
      · exact inductionHypothesis later
      · intro entry member
        rcases List.mem_cons.mp member with rfl | behind
        · exact Nat.lt_of_not_le reached
        · exact (Nat.lt_of_not_le reached).trans (above entry behind)

/-- The parked data ascends and starts past the buffer. -/
structure Parked (rx : CryptoRx) : Prop where
  ascending : Ascending rx.pending
  apart : ∀ entry ∈ rx.pending, rx.contiguousEnd < entry.1

/-- All that is held of a stream are slices of it. -/
structure Slices (stream : Bytes) (rx : CryptoRx) : Prop where
  buffered : Located stream rx.start rx.buf
  parked : ∀ entry ∈ rx.pending, Located stream entry.1 entry.2

theorem parked_drainFrom (ascending : Ascending pending) :
    Parked (drainFrom start buf pending) where
  ascending := ascending.sublist (drainFrom_pending start buf pending).sublist
  apart := drainFrom_apart ascending

theorem Slices.drainFrom {stream : Bytes} (buffered : Located stream start buf)
    (parked : ∀ entry ∈ pending, Located stream entry.1 entry.2) :
    Slices stream (drainFrom start buf pending) where
  buffered := by
    rw [drainFrom_start]
    exact drainFrom_located buffered parked
  parked entry member := parked entry ((drainFrom_pending start buf pending).subset member)

/-! ## Each call keeps what is held -/

theorem Parked.insert {after : CryptoRx} (parked : Parked rx)
    (inserted : rx.insert offset data = .ok after) : Parked after := by
  rcases insert_cases inserted with ⟨-, rfl⟩ | ⟨gap, rfl⟩ | ⟨-, rfl⟩
  · exact parked
  · refine ⟨parked.ascending.park offset data, fun entry member => ?_⟩
    rcases mem_park member with rfl | old
    · exact gap
    · exact parked.apart entry old
  · exact parked_drainFrom parked.ascending

theorem Slices.insert {stream : Bytes} {after : CryptoRx} (slices : Slices stream rx)
    (located : Located stream offset data) (inserted : rx.insert offset data = .ok after) :
    Slices stream after ∧ after.start = rx.start := by
  rcases insert_cases inserted with ⟨-, rfl⟩ | ⟨-, rfl⟩ | ⟨within, rfl⟩
  · exact ⟨slices, rfl⟩
  · refine ⟨⟨slices.buffered, fun entry member => ?_⟩, rfl⟩
    rcases mem_park member with rfl | old
    · exact located
    · exact slices.parked entry old
  · exact ⟨.drainFrom (slices.buffered.extend located within) slices.parked,
      drainFrom_start _ _ _⟩

/-- What a pop leaves. -/
theorem popMessage_cases {message : Bytes} {after : CryptoRx}
    (popped : rx.popMessage = some (message, after)) :
    ∃ rest, splitMessage rx.buf = some (message, rest)
      ∧ after = drainFrom (rx.start + message.length) rest rx.pending := by
  rw [popMessage_eq] at popped
  obtain ⟨⟨first, rest⟩, split, same⟩ := Option.map_eq_some_iff.mp popped
  obtain ⟨rfl, rfl⟩ := Prod.mk.inj same
  exact ⟨rest, split, rfl⟩

theorem Slices.popMessage {stream message : Bytes} {after : CryptoRx} (slices : Slices stream rx)
    (popped : rx.popMessage = some (message, after)) :
    Slices stream after ∧ after.start = rx.start + message.length
      ∧ (stream.drop rx.start).take message.length = message
      ∧ tlsMessages (stream.drop rx.start)
        = message :: tlsMessages (stream.drop (rx.start + message.length)) := by
  obtain ⟨rest, split, rfl⟩ := popMessage_cases popped
  obtain ⟨whole, -⟩ := splitMessage_eq_some_iff.mp split
  have buffered := slices.buffered
  rw [whole] at buffered
  refine ⟨.drainFrom buffered.right_part slices.parked, drainFrom_start _ _ _,
    buffered.left_part.slice, ?_⟩
  obtain ⟨-, more, stream_eq⟩ := slices.buffered
  have behind : stream.drop (rx.start + message.length) = rest ++ more := by
    rw [← List.drop_drop, ← stream_eq, whole, List.append_assoc, List.drop_left]
  rw [behind, ← stream_eq]
  exact tlsMessages_of_split (splitMessage_append split more)

theorem Parked.popMessage {message : Bytes} {after : CryptoRx} (parked : Parked rx)
    (popped : rx.popMessage = some (message, after)) : Parked after := by
  obtain ⟨rest, -, rfl⟩ := popMessage_cases popped
  exact parked_drainFrom parked.ascending

/-- No octet that is held before is lost after: the buffer reaches as far, and what was parked
still is or lies within the buffer. -/
structure Retains (rx after : CryptoRx) : Prop where
  reach : rx.contiguousEnd ≤ after.contiguousEnd
  parked : ∀ entry ∈ rx.pending, entry ∈ after.pending
    ∨ entry.1 + entry.2.length ≤ after.contiguousEnd

theorem Retains.insert {after : CryptoRx} (inserted : rx.insert offset data = .ok after) :
    Retains rx after := by
  rcases insert_cases inserted with ⟨-, rfl⟩ | ⟨-, rfl⟩ | ⟨-, rfl⟩
  · exact ⟨le_refl _, fun entry member => .inl member⟩
  · exact ⟨le_refl _, fun entry member => .inl (mem_park_of_mem member)⟩
  · refine ⟨le_trans ?_ (le_drainFrom _ _ _), fun entry member => drainFrom_keeps member⟩
    rw [contiguousEnd, List.length_append]
    omega

theorem Retains.popMessage {message : Bytes} {after : CryptoRx}
    (popped : rx.popMessage = some (message, after)) : Retains rx after := by
  obtain ⟨rest, split, rfl⟩ := popMessage_cases popped
  obtain ⟨whole, -⟩ := splitMessage_eq_some_iff.mp split
  refine ⟨le_trans ?_ (le_drainFrom _ _ _), fun entry member => drainFrom_keeps member⟩
  rw [contiguousEnd, whole, List.length_append]
  omega

/-- The octets of a frame lie before the end of the buffer, or at least as many are parked under
its offset. -/
def Held (rx : CryptoRx) (frame : Nat × Bytes) : Prop :=
  frame.1 + frame.2.length ≤ rx.contiguousEnd
    ∨ ∃ chunk, (frame.1, chunk) ∈ rx.pending ∧ frame.2.length ≤ chunk.length

theorem Held.retained {after : CryptoRx} {frame : Nat × Bytes} (held : Held rx frame)
    (retains : Retains rx after) : Held after frame := by
  rcases held with within | ⟨chunk, member, covers⟩
  · exact .inl (within.trans retains.reach)
  · rcases retains.parked _ member with still | drained
    · exact .inr ⟨chunk, still, covers⟩
    · exact .inl (le_trans (Nat.add_le_add_left covers _) drained)

/-- The frame does not leave a gap where fewer octets are parked under its offset. -/
def Unshadowed (rx : CryptoRx) (offset : Nat) (data : Bytes) : Prop :=
  rx.contiguousEnd < offset → ∀ chunk, (offset, chunk) ∈ rx.pending → data.length ≤ chunk.length

/-- An accepted frame is held, unless it is parked in the shadow of a shorter one. -/
theorem Unshadowed.held {after : CryptoRx} (unshadowed : Unshadowed rx offset data)
    (inserted : rx.insert offset data = .ok after) : Held after (offset, data) := by
  rcases insert_cases inserted with ⟨stale, rfl⟩ | ⟨gap, rfl⟩ | ⟨within, rfl⟩
  · exact .inl (stale.trans (Nat.le_add_right _ _))
  · obtain ⟨chunk, member, rfl | old⟩ := exists_mem_park offset data rx.pending
    · exact .inr ⟨chunk, member, le_refl _⟩
    · exact .inr ⟨chunk, member, unshadowed gap chunk old⟩
  · refine .inl (le_trans ?_ (le_drainFrom _ _ _))
    change offset + data.length ≤ _
    rw [List.length_append, List.length_drop]
    unfold contiguousEnd at within ⊢
    omega

/-- When frames that are held cover a stretch from the start, the buffer reaches its end. -/
theorem Parked.covers {frames : List (Nat × Bytes)} {count : Nat} (parked : Parked rx)
    (held : ∀ frame ∈ frames, Held rx frame)
    (covered : ∀ position < count, ∃ frame ∈ frames,
      frame.1 ≤ position ∧ position < frame.1 + frame.2.length) : count ≤ rx.contiguousEnd := by
  by_contra short
  -- The first octet past the buffer is in a frame, and so either within it or parked.
  obtain ⟨frame, member, start, stop⟩ := covered rx.contiguousEnd (Nat.lt_of_not_le short)
  rcases held frame member with within | ⟨chunk, entry, -⟩
  · omega
  · exact absurd (parked.apart _ entry) (Nat.not_lt.mpr start)

end CryptoRx

/-! ## Any sequence of calls -/

/-- A call of the reassembly. -/
inductive CryptoCall where
  | insert (offset : Nat) (data : Bytes)
  | popMessage
deriving DecidableEq, Repr

/-- The reassembly, with the messages it gave out and the frames it accepted. -/
structure Reading where
  rx : CryptoRx
  popped : List Bytes
  accepted : List (Nat × Bytes)
deriving DecidableEq, Repr

namespace Reading

/-- Make one call; a frame that is refused leaves everything as it is. -/
def call (self : Reading) : CryptoCall → Reading
  | .insert offset data =>
      match self.rx.insert offset data with
      | .error _ => self
      | .ok rx => { self with rx := rx, accepted := self.accepted ++ [(offset, data)] }
  | .popMessage =>
      match self.rx.popMessage with
      | none => self
      | some (message, rx) => { self with rx := rx, popped := self.popped ++ [message] }

/-- Make the calls, from the beginning. -/
def after (calls : List CryptoCall) : Reading := calls.foldl call ⟨.default, [], []⟩

theorem after_concat (calls : List CryptoCall) (last : CryptoCall) :
    after (calls ++ [last]) = (after calls).call last := List.foldl_concat ..

/-- What a call does. -/
theorem call_cases (self : Reading) (made : CryptoCall) :
    self.call made = self
      ∨ (∃ offset data rx, made = .insert offset data ∧ self.rx.insert offset data = .ok rx
        ∧ self.call made = { self with rx := rx, accepted := self.accepted ++ [(offset, data)] })
      ∨ ∃ message rx, made = .popMessage ∧ self.rx.popMessage = some (message, rx)
        ∧ self.call made = { self with rx := rx, popped := self.popped ++ [message] } := by
  cases made with
  | insert offset data =>
      cases inserted : self.rx.insert offset data with
      | error error =>
          refine .inl ?_
          rw [call, inserted]
      | ok rx =>
          refine .inr (.inl ⟨offset, data, rx, rfl, inserted, ?_⟩)
          rw [call, inserted]
  | popMessage =>
      cases popped : self.rx.popMessage with
      | none =>
          refine .inl ?_
          rw [call, popped]
      | some taken =>
          obtain ⟨message, rx⟩ := taken
          refine .inr (.inr ⟨message, rx, rfl, rfl, ?_⟩)
          rw [call, popped]

/-- What a call brings is a slice of the stream. -/
def SliceOf (stream : Bytes) : CryptoCall → Prop
  | .insert offset data => Located stream offset data
  | .popMessage => True

/-- All that is held is the stream's, and what was popped is how it splits up to the buffer. -/
structure Sound (stream : Bytes) (reading : Reading) : Prop where
  slices : reading.rx.Slices stream
  splits : reading.popped ++ tlsMessages (stream.drop reading.rx.start) = tlsMessages stream
  gapless : reading.popped.flatten = stream.take reading.rx.start

variable {stream : Bytes} {reading : Reading} {made : CryptoCall}

theorem Sound.call (sound : Sound stream reading) (slice : SliceOf stream made) :
    Sound stream (reading.call made) := by
  rcases reading.call_cases made with same | ⟨offset, data, rx, rfl, inserted, same⟩
    | ⟨message, rx, rfl, popped, same⟩
  · rw [same]
    exact sound
  · obtain ⟨slices, start⟩ := sound.slices.insert slice inserted
    rw [same]
    refine ⟨slices, ?_, ?_⟩
    · change reading.popped ++ tlsMessages (stream.drop rx.start) = _
      rw [start, sound.splits]
    · change reading.popped.flatten = stream.take rx.start
      rw [start, sound.gapless]
  · obtain ⟨slices, start, front, splits⟩ := sound.slices.popMessage popped
    rw [same]
    refine ⟨slices, ?_, ?_⟩
    · change (reading.popped ++ [message]) ++ tlsMessages (stream.drop rx.start) = _
      rw [start, List.append_assoc, List.singleton_append, ← splits, sound.splits]
    · change (reading.popped ++ [message]).flatten = stream.take rx.start
      rw [start, List.take_add, front, List.flatten_append, sound.gapless, List.flatten_singleton]

/-- The parked data is in order, and every accepted frame is held. -/
structure Complete (reading : Reading) : Prop where
  parked : reading.rx.Parked
  held : ∀ frame ∈ reading.accepted, reading.rx.Held frame

theorem Complete.call (complete : Complete reading)
    (unshadowed : ∀ offset data, made = .insert offset data →
      reading.rx.Unshadowed offset data) : Complete (reading.call made) := by
  rcases reading.call_cases made with same | ⟨offset, data, rx, rfl, inserted, same⟩
    | ⟨message, rx, rfl, popped, same⟩
  · rw [same]
    exact complete
  · rw [same]
    refine ⟨complete.parked.insert inserted, fun frame member => ?_⟩
    rcases List.mem_append.mp member with earlier | last
    · exact (complete.held frame earlier).retained (.insert inserted)
    · obtain rfl := List.mem_singleton.mp last
      exact (unshadowed offset data rfl).held inserted
  · rw [same]
    exact ⟨complete.parked.popMessage popped, fun frame member =>
      (complete.held frame member).retained (.popMessage popped)⟩

/-- After any calls, the buffer is the stream's slice from its start, and the messages popped are
the first ones of the stream, without a gap. -/
theorem after_faithful (stream : Bytes) (calls : List CryptoCall)
    (slices : ∀ made ∈ calls, SliceOf stream made) :
    (after calls).rx.buf = (stream.drop (after calls).rx.start).take (after calls).rx.buf.length
      ∧ (after calls).rx.start + (after calls).rx.buf.length ≤ stream.length
      ∧ (after calls).popped <+: tlsMessages stream
      ∧ (after calls).popped.flatten = stream.take (after calls).rx.start := by
  have sound : Sound stream (after calls) := by
    induction calls using List.reverseRecOn with
    | nil =>
        refine ⟨⟨Located.nil (Nat.zero_le _), fun entry member => absurd member List.not_mem_nil⟩,
          ?_, rfl⟩
        rfl
    | append_singleton calls last inductionHypothesis =>
        rw [after_concat]
        exact (inductionHypothesis fun made member =>
          slices made (List.mem_append_left _ member)).call (slices last (by simp))
  exact ⟨sound.slices.buffered.slice.symm, sound.slices.buffered.bound, ⟨_, sound.splits⟩,
    sound.gapless⟩

/-- A stream of two messages, delivered from the back and popped in between. -/
theorem after_faithful_two :
    (after [.insert 3 [1, 9], .popMessage, .insert 0 [1, 0, 0, 1], .popMessage,
        .insert 4 [9, 2, 0, 0, 0]]).rx.buf
      = ([1, 0, 0, 1, 9, 2, 0, 0, 0] : Bytes).drop 5
    ∧ (after [.insert 3 [1, 9], .popMessage, .insert 0 [1, 0, 0, 1], .popMessage,
        .insert 4 [9, 2, 0, 0, 0]]).popped <+: tlsMessages [1, 0, 0, 1, 9, 2, 0, 0, 0] := by
  have sound := after_faithful [1, 0, 0, 1, 9, 2, 0, 0, 0] [.insert 3 [1, 9], .popMessage,
    .insert 0 [1, 0, 0, 1], .popMessage, .insert 4 [9, 2, 0, 0, 0]] (by
      intro made member
      simp only [List.mem_cons, List.not_mem_nil, or_false] at member
      rcases member with rfl | rfl | rfl | rfl | rfl
      · exact ⟨by decide, by decide⟩
      · trivial
      · exact ⟨by decide, by decide⟩
      · trivial
      · exact ⟨by decide, by decide⟩)
  exact ⟨sound.1.trans (by decide), sound.2.2.1⟩

/-- Without a frame parked in the shadow of a shorter one, no accepted octet is forgotten: when
the accepted frames cover a stretch from the start, the buffer reaches its end. -/
theorem after_complete (calls : List CryptoCall) (count : Nat)
    (unshadowed : ∀ before offset data later, calls = before ++ .insert offset data :: later →
      (after before).rx.Unshadowed offset data)
    (covered : ∀ position < count, ∃ frame ∈ (after calls).accepted,
      frame.1 ≤ position ∧ position < frame.1 + frame.2.length) :
    count ≤ (after calls).rx.start + (after calls).rx.buf.length := by
  have complete : Complete (after calls) := by
    clear covered
    induction calls using List.reverseRecOn with
    | nil =>
        exact ⟨⟨List.Pairwise.nil, fun entry member => absurd member List.not_mem_nil⟩,
          fun frame member => absurd member List.not_mem_nil⟩
    | append_singleton calls last inductionHypothesis =>
        rw [after_concat]
        refine (inductionHypothesis fun before offset data later split => ?_).call
          fun offset data same => ?_
        · exact unshadowed before offset data (later ++ [last]) (by rw [split]; simp)
        · exact unshadowed calls offset data [] (by rw [same])
  exact complete.parked.covers complete.held covered

/-- Two frames out of order. -/
theorem after_complete_two :
    2 ≤ (after [.insert 1 [2], .insert 0 [1]]).rx.start
      + (after [.insert 1 [2], .insert 0 [1]]).rx.buf.length := by
  refine after_complete [.insert 1 [2], .insert 0 [1]] 2 ?_ (by decide)
  rintro (_ | ⟨first, _ | ⟨second, before⟩⟩) offset data later split
  · exact fun _ chunk member => absurd member List.not_mem_nil
  · obtain ⟨rfl, rest⟩ := List.cons_eq_cons.mp split
    obtain ⟨same, -⟩ := List.cons_eq_cons.mp rest
    obtain ⟨rfl, rfl⟩ := CryptoCall.insert.inj same
    exact fun gap => absurd gap (Nat.not_lt_zero _)
  · simp at split

/-- A frame of one octet is parked first, and a longer one under the same offset is forgotten
although it was accepted. -/
theorem shadowed_frame_is_forgotten :
    ¬ ∀ (stream : Bytes) (calls : List CryptoCall) (count : Nat),
      (∀ made ∈ calls, SliceOf stream made) →
      (∀ position < count, ∃ frame ∈ (after calls).accepted,
        frame.1 ≤ position ∧ position < frame.1 + frame.2.length) →
      count ≤ (after calls).rx.start + (after calls).rx.buf.length := by
  intro complete
  have reached := complete [1, 2, 3, 4] [.insert 1 [2], .insert 1 [2, 3, 4], .insert 0 [1]] 4
    (by
      intro made member
      simp only [List.mem_cons, List.not_mem_nil, or_false] at member
      rcases member with rfl | rfl | rfl
      · exact ⟨by decide, by decide⟩
      · exact ⟨by decide, by decide⟩
      · exact ⟨by decide, by decide⟩)
    (by decide)
  exact absurd reached (by decide)

end Reading

end RecurseX.Doq
