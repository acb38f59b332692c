import RecurseX.Doq.FlowControl

/-!
# A query in chunks

A query goes out in STREAM frames that follow one another from its first octet on,
however often sending is taken up and whatever the limits are in between. The frame
that carries the last octet ends the stream.
-/

namespace RecurseX.Doq

open Library Wire Stateful QuicConnection

variable {query : Bytes} {start middle stop : Nat} {chunks later : List Chunk}

/-- Chunks of a query that follow one another, from an octet up to another one. -/
inductive Follows (query : Bytes) : (start : Nat) → (chunks : List Chunk) → (stop : Nat) → Prop
  | nil {start : Nat} (inside : start ≤ query.length) : Follows query start [] start
  | cons {start stop : Nat} {data : Bytes} {chunks : List Chunk} (nonempty : data ≠ [])
      (size : data.length ≤ MAX_CHUNK) (located : Located query start data)
      (rest : Follows query (start + data.length) chunks stop) :
      Follows query start
        (⟨start, data, decide (start + data.length = query.length)⟩ :: chunks) stop

/-- The octets of chunks. -/
def octets (chunks : List Chunk) : Bytes := chunks.flatMap Chunk.data

/-- The chunks are a query's, from the front on: each starts where those before it end, none is
empty or too large, and one ends the stream exactly when it ends the query. -/
structure Chunked (query : Bytes) (chunks : List Chunk) : Prop where
  contiguous : ∀ before chunk later, chunks = before ++ chunk :: later →
    chunk.offset = (octets before).length
  front : octets chunks <+: query
  sized : ∀ chunk ∈ chunks, 0 < chunk.data.length ∧ chunk.data.length ≤ MAX_CHUNK
  ends : ∀ chunk ∈ chunks, chunk.fin = true ↔ chunk.offset + chunk.data.length = query.length

/-! ## Chunks that follow one another -/

theorem Follows.append (first : Follows query start chunks middle)
    (second : Follows query middle later stop) : Follows query start (chunks ++ later) stop := by
  induction first with
  | nil => exact second
  | cons nonempty size located _ inductionHypothesis =>
      exact .cons nonempty size located (inductionHypothesis second)

/-- The two parts of a sequence of chunks. -/
theorem Follows.split {more : List Chunk} (follows : Follows query start (chunks ++ more) stop) :
    ∃ middle, Follows query start chunks middle ∧ Follows query middle more stop := by
  induction chunks generalizing start with
  | nil =>
      refine ⟨start, .nil ?_, follows⟩
      cases follows with
      | nil inside => exact inside
      | cons _ _ located _ => exact located.1
  | cons chunk chunks inductionHypothesis =>
      cases follows with
      | cons nonempty size located rest =>
          obtain ⟨middle, first, second⟩ := inductionHypothesis rest
          exact ⟨middle, .cons nonempty size located first, second⟩

theorem Follows.located (follows : Follows query start chunks stop) :
    Located query start (octets chunks) ∧ start + (octets chunks).length = stop := by
  induction follows with
  | nil inside => exact ⟨Located.nil inside, rfl⟩
  | cons nonempty size located _ inductionHypothesis =>
      refine ⟨Located.append_iff.mpr ⟨located, inductionHypothesis.1⟩, ?_⟩
      rw [octets, List.flatMap_cons, List.length_append, ← inductionHypothesis.2, Nat.add_assoc]
      rfl

/-- From the front on, they are the query's chunks. -/
theorem Follows.chunked (follows : Follows query 0 chunks stop) : Chunked query chunks := by
  have each : ∀ before chunk later, chunks = before ++ chunk :: later →
      chunk.offset = (octets before).length ∧ 0 < chunk.data.length
        ∧ chunk.data.length ≤ MAX_CHUNK
        ∧ (chunk.fin = true ↔ chunk.offset + chunk.data.length = query.length) := by
    rintro before chunk later rfl
    obtain ⟨middle, first, second⟩ := follows.split
    have reached := first.located.2
    rw [Nat.zero_add] at reached
    cases second with
    | cons nonempty size located rest =>
        exact ⟨reached.symm, List.length_pos_iff.mpr nonempty, size, decide_eq_true_iff⟩
  refine ⟨fun before chunk later split => (each before chunk later split).1, follows.located.1.2,
    fun chunk member => ?_, fun chunk member => ?_⟩
  · obtain ⟨before, later, split⟩ := List.append_of_mem member
    exact ⟨(each before chunk later split).2.1, (each before chunk later split).2.2.1⟩
  · obtain ⟨before, later, split⟩ := List.append_of_mem member
    exact (each before chunk later split).2.2.2

/-- The chunk that is cut some octets past the offset. -/
def chunkAt (self : QuerySend) (sent : Nat) : Chunk :=
  ⟨self.offset + sent, capped (self.data.drop (self.offset + sent)) MAX_CHUNK,
    decide (self.remaining ≤ sent + MAX_CHUNK)⟩

/-- What is left of the query fits one chunk, or a whole chunk is cut and more follow. -/
theorem chunksFrom_succ {self : QuerySend} {allow fuel sent : Nat}
    (allowed : allow ≤ self.remaining) (more : sent < allow) :
    self.chunksFrom self.remaining allow (fuel + 1) sent
      = if self.remaining ≤ sent + MAX_CHUNK then .ok ([chunkAt self sent], self.remaining)
        else self.chunksFrom self.remaining allow fuel (sent + MAX_CHUNK) >>= fun cut =>
          .ok (chunkAt self sent :: cut.1, cut.2) := by
  have read : restAt self.data (self.offset + sent)
      = .ok (self.data.drop (self.offset + sent)) := by
    unfold QuerySend.remaining at allowed
    exact if_pos (by omega)
  have left : (self.data.drop (self.offset + sent)).length = self.remaining - sent := by
    rw [List.length_drop, QuerySend.remaining]
    omega
  have progress : ¬ min (self.remaining - sent) MAX_CHUNK = 0 := by
    unfold MAX_CHUNK
    omega
  have last : sent + min (self.remaining - sent) MAX_CHUNK ≥ self.remaining
      ↔ self.remaining ≤ sent + MAX_CHUNK := by omega
  rw [QuerySend.chunksFrom, if_pos more]
  dsimp only
  rw [read, mapError_ok, ok_bind, left, failIf_of_not progress, ok_bind]
  simp only [last]
  split_ifs with fits
  · have reached : sent + min (self.remaining - sent) MAX_CHUNK = self.remaining := by omega
    rw [reached, chunkAt, decide_eq_true fits]
  · have whole : min (self.remaining - sent) MAX_CHUNK = MAX_CHUNK := by omega
    rw [whole, chunkAt, decide_eq_false fits]

/-- Cutting never fails, and the chunks follow one another from where they are cut: up to the
allowance at least and the end of the query at most, and when one of them ends the stream they
reach that end. -/
theorem chunksFrom_follows {self : QuerySend} {allow : Nat} (fuel sent : Nat)
    (inside : self.offset ≤ self.data.length) (allowed : allow ≤ self.remaining)
    (bounded : sent ≤ self.remaining) (enough : self.remaining < fuel + sent) :
    ∃ chunks total, self.chunksFrom self.remaining allow fuel sent = .ok (chunks, total)
      ∧ Follows self.data (self.offset + sent) chunks (self.offset + total)
      ∧ allow ≤ total ∧ total ≤ self.remaining
      ∧ ((chunks.getLast?.map Chunk.fin).getD false = true → total = self.remaining) := by
  have whole : self.offset + self.remaining = self.data.length := by
    rw [QuerySend.remaining]
    omega
  induction fuel generalizing sent with
  | zero => omega
  | succ fuel inductionHypothesis =>
      by_cases more : sent < allow
      · have length : (chunkAt self sent).data.length = min (self.remaining - sent) MAX_CHUNK := by
          rw [chunkAt, capped, List.length_take, List.length_drop]
          omega
        have size : 0 < MAX_CHUNK := by decide
        -- The chunk is a slice of the query, and its flag says whether it ends it.
        have located : Located self.data (self.offset + sent) (chunkAt self sent).data :=
          ⟨by omega, List.take_prefix _ _⟩
        have cut : ∀ {chunks stop},
            Follows self.data (self.offset + sent + (chunkAt self sent).data.length) chunks stop →
            Follows self.data (self.offset + sent) (chunkAt self sent :: chunks) stop := by
          intro chunks stop rest
          have flag : decide (self.remaining ≤ sent + MAX_CHUNK)
              = decide (self.offset + sent + (chunkAt self sent).data.length
                = self.data.length) := by
            rw [decide_eq_decide, length]
            omega
          have shape : chunkAt self sent = ⟨self.offset + sent, (chunkAt self sent).data,
              decide (self.offset + sent + (chunkAt self sent).data.length
                = self.data.length)⟩ := by
            rw [← flag]
            rfl
          rw [shape]
          exact .cons (List.ne_nil_of_length_pos (by omega)) (by omega) located rest
        rw [chunksFrom_succ allowed more]
        split_ifs with fits
        · refine ⟨_, _, rfl, cut ?_, by omega, le_refl _, fun _ => rfl⟩
          have reached : self.offset + sent + (chunkAt self sent).data.length
              = self.offset + self.remaining := by omega
          rw [reached]
          exact .nil (by omega)
        · obtain ⟨chunks, total, computed, follows, atLeast, atMost, last⟩ :=
            inductionHypothesis (sent + MAX_CHUNK) (by omega) (by omega)
          rw [computed]
          refine ⟨_, _, rfl, cut ?_, atLeast, atMost, ?_⟩
          · have next : self.offset + sent + (chunkAt self sent).data.length
                = self.offset + (sent + MAX_CHUNK) := by omega
            rwa [next]
          · cases chunks with
            | nil =>
                intro ended
                have flag : (chunkAt self sent).fin = false := decide_eq_false fits
                rw [List.getLast?_singleton, Option.map_some, Option.getD_some, flag] at ended
                cases ended
            | cons next chunks =>
                rw [List.getLast?_cons_cons]
                exact last
      · refine ⟨[], sent, ?_, .nil (by omega), Nat.le_of_not_lt more, bounded, fun last => ?_⟩
        · rw [QuerySend.chunksFrom, if_neg more]
        · cases last

/-! ## Sending them -/

section Connection

variable {PacketKey RootStore : Type} {codec : Codec PacketKey} {env : Env}
variable {conn after : QuicConnection PacketKey RootStore} {outcome : Except Error Unit}

/-- What decides about the query's next chunks. -/
def outlook (conn : QuicConnection PacketKey RootStore) : Option QuerySend × Nat × Nat × Nat :=
  (conn.queryTx, conn.streamId, conn.peerMaxData, conn.peerMaxStreamData)

/-- Chunks go out one by one; when one cannot be sent, those before it were. -/
theorem sendChunks_run {streamId : Nat}
    (ran : each (fun chunk : Chunk => sendPacket codec env .application [chunk.frame streamId] false)
      chunks conn = (outcome, after)) :
    outlook after = outlook conn ∧ ∃ sent unsent, chunks = sent ++ unsent
      ∧ framesSent after.log = framesSent conn.log ++ sent.map (Chunk.frame streamId)
      ∧ (outcome = .ok () → unsent = []) := by
  induction chunks generalizing conn with
  | nil =>
      cases ran
      exact ⟨rfl, [], [], rfl, by simp, fun _ => rfl⟩
  | cons chunk chunks inductionHypothesis =>
      rcases first : sendPacket codec env .application [chunk.frame streamId] false conn with
        ⟨result, middle⟩
      rcases Ledger.sendPacket_cases first with ⟨key, rfl, -, went⟩ | ⟨error, rfl, handed⟩
      · replace ran := (bind_of_ok first).symm.trans ran
        obtain ⟨same, sent, unsent, split, frames, all⟩ := inductionHypothesis ran
        refine ⟨same.trans (by rw [went]; rfl), chunk :: sent, unsent, by rw [split]; rfl, ?_, all⟩
        rw [frames, went]
        simp [afterSend, Ledger.handing, framesSent, Event.framesSent]
      · replace ran := (bind_of_error first).symm.trans ran
        cases ran
        refine ⟨by rw [handed]; rfl, [], chunk :: chunks, rfl, ?_, fun ended => by cases ended⟩
        rw [handed]
        simp [Ledger.handing, framesSent, Event.framesSent]

/-- The query on its way: what went out are its chunks up to the offset, and the stream was ended
only at its end. -/
structure Underway (query : Bytes) (streamId : Nat) (before : List Frame) (cut : List Chunk)
    (conn : QuicConnection PacketKey RootStore) : Prop where
  asked : ∃ state, conn.queryTx = some state ∧ state.data = query ∧ state.connUsed = state.offset
    ∧ Follows query 0 cut state.offset ∧ (state.finSent = true → state.offset = query.length)
  stream : conn.streamId = streamId
  frames : framesSent conn.log = before ++ cut.map (Chunk.frame streamId)

/-- Taking the next chunks never fails: they follow the ones before, and are all that is left when
the limits allow it. -/
theorem Underway.takeChunks {streamId : Nat} {before : List Frame} {cut : List Chunk}
    (underway : Underway query streamId before cut conn) :
    ∃ more middle, QuicConnection.takeChunks conn = (.ok more, middle)
      ∧ middle.log = conn.log ∧ middle.streamId = conn.streamId
      ∧ middle.peerMaxData = conn.peerMaxData ∧ middle.peerMaxStreamData = conn.peerMaxStreamData
      ∧ ∃ state, middle.queryTx = some state ∧ state.data = query ∧ state.connUsed = state.offset
        ∧ Follows query 0 (cut ++ more) state.offset
        ∧ (state.finSent = true → state.offset = query.length)
        ∧ (query.length ≤ conn.peerMaxData → query.length ≤ conn.peerMaxStreamData →
          state.offset = query.length) := by
  obtain ⟨state, asked, rfl, used, follows, ended⟩ := underway.asked
  have inside : state.offset ≤ state.data.length := by
    have bound := follows.located
    have fits := bound.1.bound
    omega
  have allowance : allowed conn state ≤ state.remaining := min_le_right _ _
  unfold QuicConnection.takeChunks
  rw [read_bind_run, asked]
  dsimp only
  split_ifs with done none
  · refine ⟨[], conn, rfl, rfl, rfl, rfl, rfl, state, asked, rfl, used, ?_, ended,
      fun _ _ => ended done⟩
    rwa [List.append_nil]
  · refine ⟨[], conn, rfl, rfl, rfl, rfl, rfl, state, asked, rfl, used, ?_, ended,
      fun data stream => ?_⟩
    · rwa [List.append_nil]
    · unfold QuerySend.allowance QuerySend.remaining at none
      omega
  · obtain ⟨more, total, computed, next, atLeast, atMost, last⟩ :=
      chunksFrom_follows (state.data.length + 1) 0 inside allowance
        (Nat.zero_le _) (by unfold QuerySend.remaining; omega)
    refine ⟨more, advancing conn state more total, ?_, rfl, rfl, rfl, rfl,
      state.advance more total, rfl, rfl, ?_, follows.append next, ?_, ?_⟩
    · change ((lift (state.chunksFrom state.remaining (allowed conn state)
        (state.data.length + 1) 0) : Act PacketKey RootStore _) >>= _) conn = _
      rw [computed]
      rfl
    · change state.connUsed + total = state.offset + total
      rw [used]
    · intro finished
      have fin : (more.getLast?.map Chunk.fin).getD false = true := by
        have either : (state.finSent || (more.getLast?.map (·.fin)).getD false) = true := finished
        rcases Bool.or_eq_true_iff.mp either with earlier | now
        · exact absurd earlier done
        · exact now
      have reached := last fin
      unfold QuerySend.remaining at reached
      change state.offset + total = _
      omega
    · intro data stream
      unfold allowed QuerySend.allowance QuerySend.remaining at atLeast
      unfold QuerySend.remaining at atMost
      change state.offset + total = _
      omega

/-- A flush, successful or not, sends chunks that follow the ones before; a successful one keeps
the query underway, and sends all that is left when the limits allow it. -/
theorem Underway.flush {streamId : Nat} {before : List Frame} {cut : List Chunk}
    (underway : Underway query streamId before cut conn)
    (ran : flushQuerySend codec env conn = (outcome, after)) :
    ∃ more stop, Follows query 0 (cut ++ more) stop
      ∧ framesSent after.log = framesSent conn.log ++ more.map (Chunk.frame streamId)
      ∧ (outcome = .ok () → Underway query streamId before (cut ++ more) after
        ∧ (query.length ≤ after.peerMaxData → query.length ≤ after.peerMaxStreamData →
          stop = query.length)) := by
  obtain ⟨more, middle, taken, log, stream, data, streamData, state, asked, rfl, used, follows,
    ended, whole⟩ := underway.takeChunks
  unfold flushQuerySend at ran
  rw [read_bind_run, bind_of_ok taken, underway.stream] at ran
  obtain ⟨same, sent, unsent, rfl, frames, all⟩ := sendChunks_run ran
  obtain ⟨sameQuery, sameStream, sameData, sameStreamData⟩ : after.queryTx = middle.queryTx
      ∧ after.streamId = middle.streamId ∧ after.peerMaxData = middle.peerMaxData
      ∧ after.peerMaxStreamData = middle.peerMaxStreamData := by
    simpa [outlook] using same
  rw [log] at frames
  obtain ⟨reached, went, -⟩ := Follows.split
    (show Follows state.data 0 ((cut ++ sent) ++ unsent) _ by rwa [List.append_assoc])
  cases outcome with
  | error error => exact ⟨sent, reached, went, frames, fun ended => by cases ended⟩
  | ok done =>
      obtain rfl := all rfl
      rw [List.append_nil] at follows
      refine ⟨sent, state.offset, follows, frames, fun _ => ⟨?_, fun limit limitStream => ?_⟩⟩
      · refine ⟨⟨state, sameQuery.trans asked, rfl, used, follows, ended⟩,
          (sameStream.trans stream).trans underway.stream, ?_⟩
        rw [frames, underway.frames, List.map_append, List.append_assoc]
      · exact whole (by rw [← data, ← sameData]; exact limit)
          (by rw [← streamData, ← sameStreamData]; exact limitStream)

/-- Another flush, or the server's limits as they are now. -/
inductive SendStep where
  | flush (env : Env)
  | limits (maxData maxStreamData : Nat)

/-- What the step does. -/
def SendStep.act (codec : Codec PacketKey) : SendStep → Act PacketKey RootStore Unit
  | .flush env => flushQuerySend codec env
  | .limits maxData maxStreamData => .update fun self =>
      { self with peerMaxData := maxData, peerMaxStreamData := maxStreamData }

/-- The steps of the sender, up to one that fails, send the query's chunks from the front on. -/
theorem Underway.each {streamId : Nat} {before : List Frame} {cut : List Chunk}
    {steps : List SendStep} (underway : Underway query streamId before cut conn)
    (ran : Stateful.each (SendStep.act codec) steps conn = (outcome, after)) :
    ∃ chunks stop, Follows query 0 chunks stop
      ∧ framesSent after.log = before ++ chunks.map (Chunk.frame streamId)
      ∧ (outcome = .ok () → Underway query streamId before chunks after) := by
  induction steps generalizing conn cut with
  | nil =>
      cases ran
      obtain ⟨state, -, -, -, follows, -⟩ := underway.asked
      exact ⟨cut, state.offset, follows, underway.frames, fun _ => underway⟩
  | cons step steps inductionHypothesis =>
      rcases first : SendStep.act codec step conn with ⟨result, middle⟩
      cases step with
      | limits maxData maxStreamData =>
          cases first
          have moved : Underway query streamId before cut
              { conn with peerMaxData := maxData, peerMaxStreamData := maxStreamData } :=
            ⟨underway.asked, underway.stream, underway.frames⟩
          exact inductionHypothesis moved ran
      | flush env =>
          obtain ⟨more, stop, follows, frames, kept⟩ := underway.flush first
          cases result with
          | error error =>
              replace ran := (bind_of_error first).symm.trans ran
              cases ran
              refine ⟨cut ++ more, stop, follows, ?_, fun ended => by cases ended⟩
              rw [frames, underway.frames, List.map_append, List.append_assoc]
          | ok done =>
              replace ran := (bind_of_ok first).symm.trans ran
              exact inductionHypothesis (kept rfl).1 ran

/-- Whatever the limits are between flushes, the frames sent for a query are its chunks from the
front on; only sending can fail; and a flush sends all that is left when the limits allow it. -/
theorem query_in_chunks (codec : Codec PacketKey) (query : Bytes) (steps : List SendStep)
    (conn after : QuicConnection PacketKey RootStore) (outcome : Except Error Unit)
    (fresh : conn.queryTx = some ⟨query, 0, 0, false⟩)
    (ran : Stateful.each (SendStep.act codec) steps conn = (outcome, after)) :
    ∃ chunks, framesSent after.log
        = framesSent conn.log ++ chunks.map (Chunk.frame conn.streamId)
      ∧ Chunked query chunks
      ∧ (outcome = .ok () →
        (∃ more middle, QuicConnection.takeChunks after = (.ok more, middle))
        ∧ ∀ env final, flushQuerySend codec env after = (.ok (), final) →
          query.length ≤ final.peerMaxData → query.length ≤ final.peerMaxStreamData →
          ∃ more, framesSent final.log
              = framesSent after.log ++ more.map (Chunk.frame conn.streamId)
            ∧ Chunked query (chunks ++ more) ∧ octets (chunks ++ more) = query) := by
  have start : Underway query conn.streamId (framesSent conn.log) [] conn :=
    ⟨⟨_, fresh, rfl, rfl, .nil (Nat.zero_le _), fun ended => absurd ended Bool.false_ne_true⟩, rfl,
      by rw [List.map_nil, List.append_nil]⟩
  obtain ⟨chunks, stop, follows, frames, kept⟩ := start.each ran
  refine ⟨chunks, frames, follows.chunked, fun succeeded => ?_⟩
  have underway := kept succeeded
  obtain ⟨more, middle, taken, -⟩ := underway.takeChunks
  refine ⟨⟨more, middle, taken⟩, fun env final flushed data streamData => ?_⟩
  obtain ⟨rest, stop, follows, sent, whole⟩ := underway.flush flushed
  have reached := (whole rfl).2 data streamData
  obtain ⟨located, length⟩ := follows.located
  rw [Nat.zero_add, reached] at length
  exact ⟨rest, sent, follows.chunked, located.eq_of_length length⟩

end Connection

/-- A connection that has keys for a query of three octets. -/
def askingConnection : QuicConnection Bytes Bytes :=
  { Plain.connection with appWrite := some [5], queryTx := some ⟨[1, 2, 3], 0, 0, false⟩ }

/-- Nothing is allowed at first, and then all of it. -/
theorem query_in_chunks_limited : ∃ chunks,
    framesSent (Stateful.each (SendStep.act Plain.codec)
        [.limits 0 0, .flush Plain.env, .limits 3 3, .flush Plain.env] askingConnection).2.log
      = chunks.map (Chunk.frame 0) ∧ Chunked [1, 2, 3] chunks := by
  obtain ⟨chunks, frames, chunked, -⟩ := query_in_chunks Plain.codec [1, 2, 3]
    [.limits 0 0, .flush Plain.env, .limits 3 3, .flush Plain.env] askingConnection _ _ rfl
    (run_eq rfl)
  exact ⟨chunks, frames, chunked⟩

end RecurseX.Doq
