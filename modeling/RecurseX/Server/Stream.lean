import RecurseX.Library.Runs
import RecurseX.Tcp

/-!
# A connection as octets arrive

A stream brings what the peer sends in pieces of any size, and between two pieces the server may be
stopped, a deadline may pass and a read or a write may fail. `tcp_stream_served` says that
none of it changes which queries are answered, in which order and with what.
-/

namespace RecurseX

open Library Wire

/-! ## Filling a buffer -/

/-- How far a message behind its length has been read. -/
inductive Reading where
  /-- The two octets of the length, as far as they are there. -/
  | length (filled : Bytes)
  /-- The message of length `len`, as far as it is there. -/
  | body (len : Nat) (filled : Bytes)
deriving DecidableEq, Repr

/-- What the octets that came make of it. -/
inductive Filled where
  | more (reading : Reading)
  /-- The length is whole. -/
  | header (len : Nat)
  /-- The message is whole. -/
  | message (octets : Bytes)
deriving DecidableEq, Repr

namespace Reading

/-- How many octets a read asks for: the rest of the buffer. -/
def wanted : Reading → Nat
  | .length filled => 2 - filled.length
  | .body len filled => len - filled.length

/-- The octets of the message that have been read. -/
def octets : Reading → Bytes
  | .length filled => filled
  | .body len filled => be16 (UInt16.ofNat len) ++ filled

/-- Put the octets of a read behind those that are there. -/
def fill (self : Reading) (octets : Bytes) : Filled :=
  match self with
  | .length filled =>
      match filled ++ octets with
      | [high, low] => .header (ofBe16 high low).toNat
      | filled => .more (.length filled)
  | .body len filled =>
      if (filled ++ octets).length = len then .message (filled ++ octets)
      else .more (.body len (filled ++ octets))

/-- A buffer that has room left. -/
def Partial : Reading → Prop
  | .length filled => filled.length < 2
  | .body len filled => filled.length < len ∧ len ≤ 65535

variable {reading next : Reading} {octets : Bytes} {len : Nat} {message : Bytes}

/-- A read that does not fill the buffer leaves room. -/
theorem fill_more (room : reading.Partial) (fits : octets.length ≤ reading.wanted)
    (filled : reading.fill octets = .more next) :
    next.Partial ∧ next.octets = reading.octets ++ octets := by
  cases reading with
  | length earlier =>
      unfold fill at filled
      dsimp only at filled
      split at filled
      · cases filled
      · rename_i short
        obtain rfl := Filled.more.inj filled
        refine ⟨?_, rfl⟩
        have bounded : (earlier ++ octets).length ≤ 2 := by
          have fits : octets.length ≤ 2 - earlier.length := fits
          have room : earlier.length < 2 := room
          rw [List.length_append]
          omega
        refine Nat.lt_of_le_of_ne bounded fun two => ?_
        obtain ⟨high, low, pair⟩ := List.length_eq_two.mp two
        exact short high low pair
  | body len earlier =>
      unfold fill at filled
      dsimp only at filled
      split_ifs at filled with whole
      obtain rfl := Filled.more.inj filled
      obtain ⟨open', bounded⟩ := room
      refine ⟨⟨?_, bounded⟩, by simp only [Reading.octets, List.append_assoc]⟩
      have fits : octets.length ≤ len - earlier.length := fits
      rw [List.length_append] at whole ⊢
      omega

/-- A length is read from its two octets. -/
theorem fill_header (filled : reading.fill octets = .header len) :
    reading.octets ++ octets = be16 (UInt16.ofNat len) ∧ len ≤ 65535 := by
  cases reading with
  | length earlier =>
      unfold fill at filled
      dsimp only at filled
      split at filled
      · rename_i high low pair
        obtain rfl := Filled.header.inj filled
        refine ⟨?_, Nat.le_of_lt_succ (ofBe16 high low).toNat_lt⟩
        rw [UInt16.ofNat_toNat, be16_ofBe16]
        exact pair
      · cases filled
  | body len earlier =>
      unfold fill at filled
      dsimp only at filled
      split_ifs at filled

/-- A whole message is one behind its length. -/
theorem fill_message (room : reading.Partial) (filled : reading.fill octets = .message message) :
    reading.octets ++ octets = framed message ∧ message ≠ [] ∧ message.length ≤ 65535 := by
  cases reading with
  | length earlier =>
      unfold fill at filled
      dsimp only at filled
      split at filled <;> cases filled
  | body len earlier =>
      unfold fill at filled
      dsimp only at filled
      split_ifs at filled with whole
      obtain rfl := Filled.message.inj filled
      obtain ⟨open', bounded⟩ := room
      refine ⟨?_, ?_, by omega⟩
      · simp only [Reading.octets, framed, whole, List.append_assoc]
      · refine List.ne_nil_of_length_pos ?_
        omega

/-- What is there of a message is no query yet. -/
theorem readQueries_octets (room : reading.Partial) : readQueries reading.octets = [] := by
  cases reading with
  | length filled =>
      rw [readQueries]
      rintro high low rest rfl
      unfold Partial at room
      simp only [List.length_cons] at room
      omega
  | body len filled =>
      obtain ⟨open', bounded⟩ := room
      have word : (UInt16.ofNat len).toNat = len := by
        rw [UInt16.toNat_ofNat']
        omega
      simp only [Reading.octets, be16, List.cons_append, List.nil_append]
      rw [readQueries, ofBe16_be16, word, if_neg (by omega), if_pos open']

/-- A length is read back from its octets. -/
theorem be16_injective {word other : UInt16} (same : be16 word = be16 other) : word = other := by
  obtain ⟨high, low⟩ := List.cons_eq_cons.mp same
  rw [← ofBe16_be16 word, ← ofBe16_be16 other, high, (List.cons_eq_cons.mp low).1]

theorem wanted_pos (room : reading.Partial) : 1 ≤ reading.wanted := by
  cases reading with
  | length filled => exact Nat.sub_pos_of_lt room
  | body len filled => exact Nat.sub_pos_of_lt room.1

/-- Room in the buffer means that no frame is whole. -/
theorem octets_ne_framed (room : reading.Partial) (message : Bytes) :
    reading.octets ≠ framed message := by
  intro same
  cases reading with
  | length filled =>
      have lengths : filled.length = 2 + message.length := by
        rw [show filled = framed message from same, framed, List.length_append, length_be16]
      have room : filled.length < 2 := room
      omega
  | body len filled =>
      obtain ⟨words, rest⟩ := List.append_inj same rfl
      have lengths := congrArg UInt16.toNat (be16_injective words)
      rw [UInt16.toNat_ofNat', UInt16.toNat_ofNat'] at lengths
      obtain ⟨left, bounded⟩ : filled.length < len ∧ len ≤ 65535 := room
      subst rest
      omega

end Reading

/-! ## The connection -/

/-- Why a connection is no longer served. -/
inductive Ending where
  /-- A read returned nothing: the peer has closed. -/
  | closed
  /-- A frame of length zero. -/
  | empty
  /-- The server is shutting down, or a deadline has passed. -/
  | stopped
  /-- A read or a write failed. -/
  | failed
deriving DecidableEq, Repr

/-- Where `tcp_conn` stands. -/
inductive StreamPhase where
  | reading (reading : Reading)
  | returned (ending : Ending)
deriving DecidableEq, Repr

/-- Whether the server's end has been dropped. -/
def StreamPhase.isReturned : StreamPhase → Bool
  | .returned _ => true
  | .reading _ => false

/-- One connection: what the peer has sent, and what has been made of it. -/
structure TcpStream where
  phase : StreamPhase
  /-- How many queries have been answered. -/
  answered : Nat
  /-- What the peer has sent, in order. -/
  sent : Bytes
  /-- What no read has returned yet. -/
  unread : Bytes
  /-- The peer sends no more. -/
  closed : Bool
  /-- What has been written, in order. -/
  output : Bytes
deriving DecidableEq, Repr

/-- What the peer does, and how the calls of `tcp_conn` turn out. -/
inductive StreamEvent where
  | arrive (octets : Bytes)
  | close
  /-- A read returns `count` octets. Where that makes a query whole, its answer is written, or
  only so many octets of it. -/
  | read (count : Nat) (cut : Option Nat)
  /-- A read returns nothing. -/
  | eof
  /-- No octets within the poll interval. -/
  | poll
  /-- The flag or the clock ends the loop in front of a read. -/
  | stop
  | fail
deriving DecidableEq, Repr

/-- Whether the event is at the server's end. -/
def StreamEvent.isOwn : StreamEvent → Bool
  | .arrive _ | .close => false
  | _ => true

namespace TcpStream

/-- A connection that was accepted. -/
def initial : TcpStream where
  phase := .reading (.length [])
  answered := 0
  sent := []
  unread := []
  closed := false
  output := []

section Serve

-- The server may answer every query of the connection in another state.
variable (resolver : Nat → QueryResolver) (clientIp : Option IpAddr)

/-- The frame that answers a query. -/
def answerFrame (index : Nat) (query : Bytes) : Bytes :=
  framed ((resolver index).answer query clientIp none)

/-- Go on with the octets of a read. -/
def proceed (self : TcpStream) (cut : Option Nat) : Filled → TcpStream
  | .more reading => { self with phase := .reading reading }
  | .header len =>
      { self with phase := if len = 0 then .returned .empty else .reading (.body len []) }
  | .message query =>
      let frame := answerFrame resolver clientIp self.answered query
      match cut with
      | none =>
          { self with phase := .reading (.length []), answered := self.answered + 1
                      output := self.output ++ frame }
      | some octets =>
          { self with phase := .returned .failed, output := self.output ++ frame.take octets }

/-- The connection after an event, when it can happen. -/
def step (self : TcpStream) (event : StreamEvent) : Option TcpStream :=
  match event, self.phase with
  | .arrive octets, _ =>
      if self.closed then none
      else some { self with sent := self.sent ++ octets, unread := self.unread ++ octets }
  | .close, _ => some { self with closed := true }
  | _, .returned _ => none
  | .read count cut, .reading reading =>
      if 0 < count ∧ count ≤ reading.wanted ∧ count ≤ self.unread.length then
        some ({ self with unread := self.unread.drop count }.proceed resolver clientIp cut
          (reading.fill (self.unread.take count)))
      else none
  | .eof, .reading _ =>
      if self.closed ∧ self.unread = [] then some { self with phase := .returned .closed } else none
  | .poll, .reading _ => if self.unread = [] then some self else none
  | .stop, .reading _ => some { self with phase := .returned .stopped }
  | .fail, .reading _ => some { self with phase := .returned .failed }

/-- What the queries in some octets are answered with. -/
def served (octets : Bytes) : Bytes :=
  ((readQueries octets).mapIdx (answerFrame resolver clientIp)).flatten

end Serve

variable {resolver : Nat → QueryResolver} {clientIp : Option IpAddr} {stream next : TcpStream}
  {reading : Reading} {octets more : Bytes} {queries : List Bytes} {event : StreamEvent}

/-! ## What the octets are read as -/

/-- Queries that a frame can hold. -/
def Whole (queries : List Bytes) : Prop := ∀ query ∈ queries, query ≠ [] ∧ query.length ≤ 65535

theorem Whole.concat {query : Bytes} (whole : Whole queries) (asked : query ≠ [])
    (short : query.length ≤ 65535) : Whole (queries ++ [query]) := by
  intro other member
  rcases List.mem_append.mp member with earlier | last
  · exact whole other earlier
  · rw [List.mem_singleton.mp last]
    exact ⟨asked, short⟩

/-- Whole frames are read one after the other. -/
theorem readQueries_frames (whole : Whole queries) (rest : Bytes) :
    readQueries ((queries.map framed).flatten ++ rest) = queries ++ readQueries rest := by
  induction queries with
  | nil => rfl
  | cons query queries inductionHypothesis =>
      obtain ⟨asked, short⟩ := whole query List.mem_cons_self
      rw [List.map_cons, List.flatten_cons, List.append_assoc, readQueries_framed asked short,
        inductionHypothesis fun other member => whole other (List.mem_cons_of_mem query member),
        List.cons_append]

/-- What has been read stays read. -/
theorem readQueries_prefix (octets more : Bytes) :
    readQueries octets <+: readQueries (octets ++ more) := by
  fun_induction readQueries octets with
  | case1 => exact List.nil_prefix
  | case2 => exact List.nil_prefix
  | case3 high low rest len some whole inductionHypothesis =>
      have inside : len ≤ rest.length := Nat.le_of_not_lt whole
      rw [List.cons_append, List.cons_append, readQueries, if_neg some,
        if_neg (by rw [List.length_append]; omega), List.take_append_of_le_length inside,
        List.drop_append_of_le_length inside]
      exact List.cons_prefix_cons.mpr ⟨rfl, inductionHypothesis⟩
  | case4 => exact List.nil_prefix

theorem served_front (octets more : Bytes) :
    served resolver clientIp octets <+: served resolver clientIp (octets ++ more) := by
  obtain ⟨later, same⟩ := readQueries_prefix octets more
  refine ⟨(later.mapIdx fun index =>
    answerFrame resolver clientIp (index + (readQueries octets).length)).flatten, ?_⟩
  rw [served, served, ← same, List.mapIdx_append, List.flatten_append]

/-! ## What every event keeps -/

/-- While the connection is served, the octets sent are the queries answered, the part of one and
those still to be read. -/
structure Accounted (resolver : Nat → QueryResolver) (clientIp : Option IpAddr) (stream : TcpStream)
    (reading : Reading) (queries : List Bytes) : Prop where
  whole : Whole queries
  room : reading.Partial
  answered : stream.answered = queries.length
  sent : stream.sent = (queries.map framed).flatten ++ (reading.octets ++ stream.unread)
  output : stream.output = (queries.mapIdx (answerFrame resolver clientIp)).flatten

/-- What holds of a connection at every moment. -/
def Kept (resolver : Nat → QueryResolver) (clientIp : Option IpAddr) (stream : TcpStream) : Prop :=
  match stream.phase with
  | .reading reading => ∃ queries, Accounted resolver clientIp stream reading queries
  | .returned .closed =>
      stream.closed = true ∧ stream.output = served resolver clientIp stream.sent
  | .returned .empty => ∀ more, stream.output = served resolver clientIp (stream.sent ++ more)
  | .returned _ => stream.output <+: served resolver clientIp stream.sent

theorem kept_initial : Kept resolver clientIp initial :=
  ⟨[], fun _ member => absurd member List.not_mem_nil, Nat.zero_lt_two, rfl, rfl, rfl⟩

namespace Accounted

/-- Whatever comes after what was sent, the answers to it begin with those written. -/
theorem served_eq (accounted : Accounted resolver clientIp stream reading queries) (more : Bytes) :
    ∃ later, served resolver clientIp (stream.sent ++ more) = stream.output ++ later ∧
      (readQueries (reading.octets ++ (stream.unread ++ more)) = [] → later = []) := by
  refine ⟨((readQueries (reading.octets ++ (stream.unread ++ more))).mapIdx fun index =>
    answerFrame resolver clientIp (index + queries.length)).flatten, ?_, fun none => ?_⟩
  · rw [served, accounted.sent, List.append_assoc, List.append_assoc,
      readQueries_frames accounted.whole, List.mapIdx_append, List.flatten_append, accounted.output]
  · rw [none]
    rfl

/-- With nothing left to read every query sent has been answered. -/
theorem output_eq (accounted : Accounted resolver clientIp stream reading queries)
    (nothing : stream.unread = []) : stream.output = served resolver clientIp stream.sent := by
  obtain ⟨later, answers, none⟩ := accounted.served_eq []
  rw [List.append_nil] at answers
  rw [answers, none, List.append_nil]
  rw [nothing, List.append_nil, List.append_nil]
  exact Reading.readQueries_octets accounted.room

theorem output_front (accounted : Accounted resolver clientIp stream reading queries) :
    stream.output <+: served resolver clientIp stream.sent := by
  obtain ⟨later, answers, -⟩ := accounted.served_eq []
  rw [List.append_nil] at answers
  rw [answers]
  exact List.prefix_append stream.output later

end Accounted

/-- The octets of a read are accounted for. -/
theorem Accounted.proceed (accounted : Accounted resolver clientIp stream reading queries)
    {count : Nat} (within : count ≤ reading.wanted) (cut : Option Nat) :
    Kept resolver clientIp (({ stream with unread := stream.unread.drop count } : TcpStream).proceed
      resolver clientIp cut (reading.fill (stream.unread.take count))) := by
  have fits : (stream.unread.take count).length ≤ reading.wanted := by
    rw [List.length_take]
    omega
  have sent : stream.sent = (queries.map framed).flatten ++
      (reading.octets ++ stream.unread.take count ++ stream.unread.drop count) := by
    rw [List.append_assoc reading.octets, List.take_append_drop]
    exact accounted.sent
  cases filled : reading.fill (stream.unread.take count) with
  | more further =>
      obtain ⟨room, read⟩ := Reading.fill_more accounted.room fits filled
      exact ⟨queries, accounted.whole, room, accounted.answered, by rw [read]; exact sent,
        accounted.output⟩
  | header len =>
      obtain ⟨read, bounded⟩ := Reading.fill_header filled
      rw [read] at sent
      by_cases empty : len = 0
      · have phase : (({ stream with unread := stream.unread.drop count } : TcpStream).proceed
            resolver clientIp cut (.header len)).phase = .returned .empty := if_pos empty
        unfold Kept
        rw [phase]
        intro more
        subst empty
        change stream.output = served resolver clientIp (stream.sent ++ more)
        rw [served, sent, List.append_assoc, readQueries_frames accounted.whole]
        have ended : readQueries (be16 (UInt16.ofNat 0) ++ stream.unread.drop count ++ more) = [] := by
          change readQueries (0 :: 0 :: (stream.unread.drop count ++ more)) = []
          rw [readQueries]
          exact if_pos rfl
        rw [ended, List.append_nil]
        exact accounted.output
      · have phase : (({ stream with unread := stream.unread.drop count } : TcpStream).proceed
            resolver clientIp cut (.header len)).phase = .reading (.body len []) := if_neg empty
        unfold Kept
        rw [phase]
        have none : (Reading.body len []).octets = be16 (UInt16.ofNat len) := List.append_nil _
        exact ⟨queries, accounted.whole, ⟨Nat.pos_of_ne_zero empty, bounded⟩, accounted.answered,
          by rw [none]; exact sent, accounted.output⟩
  | message query =>
      obtain ⟨read, asked, short⟩ := Reading.fill_message accounted.room filled
      rw [read] at sent
      have whole := accounted.whole.concat asked short
      have answers : ((queries ++ [query]).mapIdx (answerFrame resolver clientIp)).flatten =
          stream.output ++ answerFrame resolver clientIp stream.answered query := by
        rw [List.mapIdx_concat, List.flatten_append, accounted.output, accounted.answered,
          List.flatten_singleton]
      have frames : stream.sent =
          ((queries ++ [query]).map framed).flatten ++ stream.unread.drop count := by
        rw [List.map_append, List.flatten_append, List.map_singleton, List.flatten_singleton,
          List.append_assoc]
        exact sent
      cases cut with
      | none =>
          refine ⟨queries ++ [query], whole, Nat.zero_lt_two, ?_, frames, answers.symm⟩
          rw [List.length_append, ← accounted.answered]
          rfl
      | some octets =>
          change stream.output ++ (answerFrame resolver clientIp stream.answered query).take octets <+:
            served resolver clientIp stream.sent
          rw [served, frames, readQueries_frames whole, List.mapIdx_append, List.flatten_append,
            answers, List.append_assoc]
          refine (List.prefix_append_right_inj _).mpr ?_
          exact (List.take_prefix octets _).trans (List.prefix_append _ _)

/-- What an event can do. -/
theorem step_cases (stepped : stream.step resolver clientIp event = some next) :
    (∃ octets, event = .arrive octets ∧ stream.closed ≠ true ∧
      next = { stream with sent := stream.sent ++ octets, unread := stream.unread ++ octets }) ∨
    (event = .close ∧ next = { stream with closed := true }) ∨
    ∃ reading, stream.phase = .reading reading ∧
      ((∃ count cut, event = .read count cut ∧
          (0 < count ∧ count ≤ reading.wanted ∧ count ≤ stream.unread.length) ∧
          next = ({ stream with unread := stream.unread.drop count } : TcpStream).proceed resolver
            clientIp cut (reading.fill (stream.unread.take count))) ∨
        (event = .eof ∧ (stream.closed = true ∧ stream.unread = []) ∧
          next = { stream with phase := .returned .closed }) ∨
        (event = .poll ∧ next = stream) ∨
        (event = .stop ∧ next = { stream with phase := .returned .stopped }) ∨
        (event = .fail ∧ next = { stream with phase := .returned .failed })) := by
  obtain ⟨phase, answered, sent, unread, closed, output⟩ := stream
  unfold TcpStream.step at stepped
  cases event with
  | arrive octets =>
      dsimp only at stepped
      split_ifs at stepped with isClosed
      exact .inl ⟨octets, rfl, isClosed, (Option.some.inj stepped).symm⟩
  | close => exact .inr (.inl ⟨rfl, (Option.some.inj stepped).symm⟩)
  | read count cut =>
      cases phase with
      | returned ending => cases stepped
      | reading reading =>
          dsimp only at stepped
          split_ifs at stepped with able
          exact .inr (.inr ⟨reading, rfl, .inl
            ⟨count, cut, rfl, able, (Option.some.inj stepped).symm⟩⟩)
  | eof =>
      cases phase with
      | returned ending => cases stepped
      | reading reading =>
          dsimp only at stepped
          split_ifs at stepped with ended
          exact .inr (.inr ⟨reading, rfl, .inr (.inl ⟨rfl, ended, (Option.some.inj stepped).symm⟩)⟩)
  | poll =>
      cases phase with
      | returned ending => cases stepped
      | reading reading =>
          dsimp only at stepped
          split_ifs at stepped
          exact .inr (.inr ⟨reading, rfl, .inr (.inr (.inl ⟨rfl, (Option.some.inj stepped).symm⟩))⟩)
  | stop =>
      cases phase with
      | returned ending => cases stepped
      | reading reading =>
          exact .inr (.inr ⟨reading, rfl, .inr (.inr (.inr (.inl
            ⟨rfl, (Option.some.inj stepped).symm⟩)))⟩)
  | fail =>
      cases phase with
      | returned ending => cases stepped
      | reading reading =>
          exact .inr (.inr ⟨reading, rfl, .inr (.inr (.inr (.inr
            ⟨rfl, (Option.some.inj stepped).symm⟩)))⟩)

/-- More from the peer changes nothing that was answered. -/
theorem Kept.arrive (kept : Kept resolver clientIp stream) (isOpen : stream.closed ≠ true)
    (octets : Bytes) : Kept resolver clientIp
      { stream with sent := stream.sent ++ octets, unread := stream.unread ++ octets } := by
  obtain ⟨phase, answered, sent, unread, closed, output⟩ := stream
  cases phase with
  | reading reading =>
      obtain ⟨queries, accounted⟩ := kept
      refine ⟨queries, accounted.whole, accounted.room, accounted.answered, ?_, accounted.output⟩
      have sentBefore : sent = (queries.map framed).flatten ++ (reading.octets ++ unread) :=
        accounted.sent
      rw [sentBefore, List.append_assoc, List.append_assoc]
  | returned ending =>
      cases ending with
      | closed => exact absurd kept.1 isOpen
      | empty =>
          intro more
          rw [List.append_assoc]
          exact kept (octets ++ more)
      | stopped => exact kept.trans (served_front sent octets)
      | failed => exact kept.trans (served_front sent octets)

theorem Kept.close (kept : Kept resolver clientIp stream) :
    Kept resolver clientIp { stream with closed := true } := by
  obtain ⟨phase, answered, sent, unread, closed, output⟩ := stream
  cases phase with
  | reading reading =>
      obtain ⟨queries, accounted⟩ := kept
      exact ⟨queries, accounted.whole, accounted.room, accounted.answered, accounted.sent,
        accounted.output⟩
  | returned ending =>
      cases ending with
      | closed => exact ⟨rfl, kept.2⟩
      | empty => exact kept
      | stopped => exact kept
      | failed => exact kept

/-- Every event keeps it. -/
theorem Kept.step (kept : Kept resolver clientIp stream)
    (stepped : stream.step resolver clientIp event = some next) : Kept resolver clientIp next := by
  obtain ⟨octets, -, isOpen, rfl⟩ | ⟨-, rfl⟩ | ⟨reading, phase, went⟩ := step_cases stepped
  · exact kept.arrive isOpen octets
  · exact kept.close
  · have served := kept
    unfold Kept at served
    rw [phase] at served
    obtain ⟨queries, accounted⟩ := served
    obtain ⟨count, cut, -, able, rfl⟩ | ⟨-, ended, rfl⟩ | ⟨-, rfl⟩ | ⟨-, rfl⟩ | ⟨-, rfl⟩ := went
    · exact accounted.proceed able.2.1 cut
    · exact ⟨ended.1, accounted.output_eq ended.2⟩
    · exact kept
    · exact accounted.output_front
    · exact accounted.output_front

/-- What the peer sends in an event. -/
def arrived : StreamEvent → Bytes
  | .arrive octets => octets
  | _ => []

theorem proceed_sent (stream : TcpStream) (cut : Option Nat) (filled : Filled) :
    (stream.proceed resolver clientIp cut filled).sent = stream.sent := by
  cases filled with
  | more further => rfl
  | header len => rfl
  | message query => cases cut <;> rfl

theorem step_sent (stepped : stream.step resolver clientIp event = some next) :
    next.sent = stream.sent ++ arrived event := by
  obtain ⟨octets, rfl, -, rfl⟩ | ⟨rfl, rfl⟩ | ⟨reading, phase, went⟩ := step_cases stepped
  · rfl
  · exact (List.append_nil _).symm
  · obtain ⟨count, cut, rfl, within, rfl⟩ | ⟨rfl, -, rfl⟩ | ⟨rfl, rfl⟩ | ⟨rfl, rfl⟩ | ⟨rfl, rfl⟩ := went
    · rw [proceed_sent]
      exact (List.append_nil _).symm
    all_goals exact (List.append_nil _).symm

theorem proceed_grows (stream : TcpStream) (cut : Option Nat) (filled : Filled) :
    (stream.proceed resolver clientIp cut filled).closed = stream.closed ∧
      stream.output <+: (stream.proceed resolver clientIp cut filled).output := by
  cases filled with
  | more further => exact ⟨rfl, List.prefix_rfl⟩
  | header len => exact ⟨rfl, List.prefix_rfl⟩
  | message query =>
      cases cut with
      | none => exact ⟨rfl, List.prefix_append _ _⟩
      | some octets => exact ⟨rfl, List.prefix_append _ _⟩

/-- What the server does on its own leaves the peer's end alone and takes nothing back. -/
theorem step_grows (stepped : stream.step resolver clientIp event = some next)
    (own : event.isOwn = true) :
    next.sent = stream.sent ∧ next.closed = stream.closed ∧ stream.output <+: next.output := by
  obtain ⟨octets, rfl, -, rfl⟩ | ⟨rfl, -⟩ | ⟨reading, phase, went⟩ := step_cases stepped
  · cases own
  · cases own
  · obtain ⟨count, cut, rfl, able, rfl⟩ | ⟨rfl, -, rfl⟩ | ⟨rfl, rfl⟩ | ⟨rfl, rfl⟩ | ⟨rfl, rfl⟩ := went
    · exact ⟨proceed_sent _ cut _, proceed_grows _ cut _⟩
    all_goals exact ⟨rfl, rfl, List.prefix_rfl⟩

/-- What the server may still read, and whether it may still return. -/
def spending (stream : TcpStream) : Nat :=
  stream.unread.length + if stream.phase.isReturned then 0 else 1

theorem proceed_spending (stream : TcpStream) (cut : Option Nat) (filled : Filled) :
    (stream.proceed resolver clientIp cut filled).spending ≤ stream.unread.length + 1 := by
  have bounded (after : TcpStream) (same : after.unread = stream.unread) :
      after.spending ≤ stream.unread.length + 1 := by
    unfold spending
    rw [same]
    split_ifs <;> omega
  cases filled with
  | more further => exact bounded _ rfl
  | header len => exact bounded _ rfl
  | message query => cases cut <;> exact bounded _ rfl

/-- Whatever the server does but poll, it spends something. -/
theorem step_spends (stepped : stream.step resolver clientIp event = some next)
    (own : event.isOwn = true) (busy : event ≠ .poll) : next.spending < stream.spending := by
  obtain ⟨octets, rfl, -, rfl⟩ | ⟨rfl, -⟩ | ⟨reading, phase, went⟩ := step_cases stepped
  · cases own
  · cases own
  · have before : stream.spending = stream.unread.length + 1 := by
      unfold spending
      rw [phase]
      rfl
    obtain ⟨count, cut, -, able, rfl⟩ | ⟨-, -, rfl⟩ | ⟨rfl, -⟩ | ⟨-, rfl⟩ | ⟨-, rfl⟩ := went
    · refine (proceed_spending _ cut _).trans_lt ?_
      rw [before, List.length_drop]
      omega
    · rw [before]
      exact Nat.lt_succ_self _
    · exact absurd rfl busy
    · rw [before]
      exact Nat.lt_succ_self _
    · rw [before]
      exact Nat.lt_succ_self _

/-- Octets that are there can be read. -/
theorem exists_step_read (stream : TcpStream) (resolver : Nat → QueryResolver)
    (clientIp : Option IpAddr) (phase : stream.phase = .reading reading) (room : reading.Partial)
    (pending : stream.unread ≠ []) :
    ∃ after, stream.step resolver clientIp (.read 1 none) = some after := by
  unfold TcpStream.step
  rw [phase]
  exact ⟨_, if_pos ⟨Nat.one_pos, Reading.wanted_pos room, List.length_pos_iff.mpr pending⟩⟩

/-- A poll leaves the connection as it is. -/
theorem eq_of_step_poll (stepped : stream.step resolver clientIp .poll = some next) :
    next = stream := by
  obtain ⟨octets, poll, -⟩ | ⟨poll, -⟩ | ⟨reading, phase, went⟩ := step_cases stepped
  · cases poll
  · cases poll
  · obtain ⟨count, cut, poll, -⟩ | ⟨poll, -⟩ | ⟨-, same⟩ | ⟨poll, -⟩ | ⟨poll, -⟩ := went
    · cases poll
    · cases poll
    · exact same
    · cases poll
    · cases poll

/-- Runs of one connection. -/
abbrev Reached (resolver : Nat → QueryResolver) (clientIp : Option IpAddr)
    (events : List StreamEvent) (stream : TcpStream) : Prop :=
  Runs (fun stream event => stream.step resolver clientIp event) (fun _ _ => True) initial events
    stream

variable {events : List StreamEvent}

theorem Reached.sent (run : Reached resolver clientIp events stream) :
    stream.sent = events.flatMap arrived := by
  induction run with
  | refl => rfl
  | step prior _ taken inductionHypothesis =>
      rw [step_sent taken, inductionHypothesis, List.flatMap_append, List.flatMap_singleton]

theorem Reached.kept (run : Reached resolver clientIp events stream) :
    Kept resolver clientIp stream :=
  run.invariant (fun kept _ taken => kept.step taken) kept_initial

/-- What has been written is a front of the answers to what was sent. -/
theorem Kept.output_front (kept : Kept resolver clientIp stream) :
    stream.output <+: served resolver clientIp stream.sent := by
  obtain ⟨phase, answered, sent, unread, closed, output⟩ := stream
  cases phase with
  | reading reading =>
      obtain ⟨queries, accounted⟩ := kept
      exact accounted.output_front
  | returned ending =>
      cases ending with
      | closed =>
          have whole : output = served resolver clientIp sent := kept.2
          exact whole ▸ List.prefix_rfl
      | empty =>
          have whole := kept []
          rw [List.append_nil] at whole
          exact whole ▸ List.prefix_rfl
      | stopped => exact kept
      | failed => exact kept

/-- The server has answered all there is, as far as it is its own decision. -/
def AtRest (stream : TcpStream) : Prop :=
  (∃ reading, stream.phase = .reading reading ∧ stream.unread = []) ∨
    stream.phase = .returned .closed ∨ stream.phase = .returned .empty

theorem Kept.output_eq (kept : Kept resolver clientIp stream) (rest : stream.AtRest) :
    stream.output = served resolver clientIp stream.sent := by
  unfold Kept at kept
  obtain ⟨reading, phase, nothing⟩ | phase | phase := rest
  · rw [phase] at kept
    obtain ⟨queries, accounted⟩ := kept
    exact accounted.output_eq nothing
  · rw [phase] at kept
    exact kept.2
  · rw [phase] at kept
    have whole := kept []
    rw [List.append_nil] at whole
    exact whole

/-- **The pieces do not matter.** However the octets a peer sends arrive and whatever happens
between them, what the server has written at any moment is a front of the answers to the queries
in those octets, in order. It is all of them when the server waits with nothing left to read, and
when it ended the connection because the peer closed it or sent a frame of length zero. -/
theorem tcp_stream_served (resolver : Nat → QueryResolver) (clientIp : Option IpAddr)
    (events : List StreamEvent) (stream : TcpStream)
    (run : Reached resolver clientIp events stream) :
    stream.output <+: served resolver clientIp (events.flatMap arrived) ∧
      (stream.AtRest → stream.output = served resolver clientIp (events.flatMap arrived)) := by
  rw [← run.sent]
  exact ⟨run.kept.output_front, run.kept.output_eq⟩

/-- The events of a query of one octet that comes in two pieces. -/
def shortEvents : List StreamEvent :=
  [.arrive [0], .read 1 none, .arrive [1, 7], .read 1 none, .read 1 none]

/-- The query is answered. -/
theorem tcp_stream_served_pieces :
    [] ++ answerFrame (fun _ => forwardingResolver (bulkReply [])) none 0 [7] =
      served (fun _ => forwardingResolver (bulkReply [])) none (shortEvents.flatMap arrived) :=
  (tcp_stream_served (fun _ => forwardingResolver (bulkReply [])) none shortEvents
    { phase := .reading (.length [])
      answered := 1
      sent := [0, 1, 7]
      unread := []
      closed := false
      output := [] ++ answerFrame (fun _ => forwardingResolver (bulkReply [])) none 0 [7] }
    (runs_of_runActions rfl)).2 (.inl ⟨_, rfl, rfl⟩)

end TcpStream

end RecurseX
