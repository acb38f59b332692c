import RecurseX.Doq.Operations
import RecurseX.Doq.Plain

/-!
# Nothing that must arrive is forgotten

The conservation law of loss recovery: what was handed to be sent is carried by
a packet that is waited for, until the server has acknowledged it or a Retry
makes it void. Packet numbers are never used twice under one key, and the query
sender is never ahead of what it handed over.
-/

namespace RecurseX.Doq

open Library Wire Stateful QuicConnection

variable {PacketKey RootStore : Type}

/-! ## What is asked -/

/-- A packet that is waited for carries the frame. -/
def Carried (held : List SentPacket) (space : Space) (frame : Frame) : Prop :=
  ∃ packet ∈ held, packet.space = space ∧ frame ∈ packet.frames

/-- A packet that carried the frame went out and was acknowledged later. -/
def Acknowledged (log : List (Event PacketKey)) (space : Space) (frame : Frame) : Prop :=
  ∃ before key pn frames between largest delay ranges later,
    log = before ++ .sent space key pn frames :: between ++
      .received space (.ack largest delay ranges) :: later ∧
    frame ∈ frames ∧ isAcked largest ranges pn = true

/-- Every frame that matters and was handed to be sent is carried, or acknowledged,
or belongs to the Initial space and a Retry was taken later. -/
def Accounted (log : List (Event PacketKey)) (held : List SentPacket) : Prop :=
  ∀ space frames later, .handed space frames :: later <:+ log →
    ∀ frame ∈ frames, frame.isTracked = true →
      Carried held space frame ∨ Acknowledged log space frame ∨
        space = .initial ∧ ∃ old new, .retried old new ∈ later

/-- The space, the key and the number of a packet that went out. -/
def Event.packet : Event PacketKey → Option (Space × PacketKey × Nat)
  | .sent space key pn _ => some (space, key, pn)
  | _ => none

/-- The packets that went out. -/
def packets (log : List (Event PacketKey)) : List (Space × PacketKey × Nat) :=
  log.filterMap Event.packet

/-- The key a Retry replaced, and the one it gave. -/
def Event.rekeying : Event PacketKey → Option (PacketKey × PacketKey)
  | .retried old new => some (old, new)
  | _ => none

/-- Every octet the query sender counts is in a frame that was handed to be sent. -/
def Handed (log : List (Event PacketKey)) (streamId : Nat) (query : QuerySend) : Prop :=
  ∀ position < query.offset, ∃ frames offset data length fin,
    .handed .application frames ∈ log ∧ .stream streamId (some offset) data length fin ∈ frames ∧
      offset ≤ position ∧ position < offset + data.length ∧
      data[position - offset]? = query.data[position]?

/-- The conservation law. -/
structure Conserved (conn : QuicConnection PacketKey RootStore) : Prop where
  accounted : Accounted conn.log conn.sent
  unrepeated : (packets conn.log).Nodup
  handed : ∀ query, conn.queryTx = some query → Handed conn.log conn.streamId query

/-- Every Retry gave another Initial key, and packet numbers have not run out. -/
structure Renewed (log : List (Event PacketKey)) : Prop where
  retried : ∀ keys ∈ log.filterMap Event.rekeying, keys.1 ≠ keys.2
  count : (packets log).length < 2 ^ 64

/-! ## Carrying -/

section Carrying

variable {log : List (Event PacketKey)} {held kept : List SentPacket} {event : Event PacketKey}
variable {space : Space} {frame : Frame}

theorem Acknowledged.grow (acknowledged : Acknowledged log space frame)
    (extra : List (Event PacketKey)) : Acknowledged (log ++ extra) space frame := by
  obtain ⟨before, key, pn, frames, between, largest, delay, ranges, later, rfl, member, acked⟩ :=
    acknowledged
  exact ⟨before, key, pn, frames, between, largest, delay, ranges, later ++ extra, by simp, member,
    acked⟩

/-- One more event. What was carried must still be, or the event acknowledges it or
is a Retry; and what is handed must be carried. -/
theorem Accounted.snoc (accounted : Accounted log held)
    (keeps : ∀ space frame, frame.isTracked = true → Carried held space frame →
      Carried kept space frame ∨ Acknowledged (log ++ [event]) space frame ∨
        space = .initial ∧ ∃ old new, event = .retried old new)
    (carries : ∀ space frames, event = .handed space frames →
      ∀ frame ∈ frames, frame.isTracked = true → Carried kept space frame) :
    Accounted (log ++ [event]) kept := by
  intro space frames later tail frame member tracked
  rcases List.suffix_concat_iff.mp tail with none | ⟨front, split, inner⟩
  · cases none
  · cases front with
    | nil =>
        obtain ⟨same, -⟩ := List.cons.inj split
        exact .inl (carries space frames same.symm frame member tracked)
    | cons first front =>
        obtain ⟨rfl, rfl⟩ := List.cons.inj split
        rcases accounted space frames front inner frame member tracked with
          carried | acknowledged | ⟨initial, old, new, retried⟩
        · rcases keeps space frame tracked carried with still | acknowledged | ⟨initial, old, new, rfl⟩
          · exact .inl still
          · exact .inr (.inl acknowledged)
          · exact .inr (.inr ⟨initial, old, new, by simp⟩)
        · exact .inr (.inl (acknowledged.grow _))
        · exact .inr (.inr ⟨initial, old, new, List.mem_append_left _ retried⟩)

/-- An event that hands nothing over that matters. -/
theorem Accounted.pass (accounted : Accounted log held)
    (silent : ∀ space frames, event = .handed space frames →
      ∀ frame ∈ frames, frame.isTracked = false) :
    Accounted (log ++ [event]) held :=
  accounted.snoc (fun _ _ _ carried => .inl carried) fun space frames same frame member tracked => by
    cases tracked.symm.trans (silent space frames same frame member)

end Carrying

section Invariants

variable {codec : Codec PacketKey} {crypto : Crypto RootStore}
variable {before after : Ledger PacketKey RootStore}

/-- The packets that are waited for went out. -/
def Logged (ledger : Ledger PacketKey RootStore) : Prop :=
  ∀ packet ∈ ledger.sent, ∃ key, .sent packet.space key packet.pn packet.frames ∈ ledger.log

/-- The law while some packets are taken out to be sent again. -/
structure Recovering (pending : List SentPacket) (ledger : Ledger PacketKey RootStore) : Prop where
  accounted : Accounted ledger.log (ledger.sent ++ pending)
  logged : Logged ledger

/-- Sending adds a packet that carries its frames. -/
theorem Recovering.send {pending rest : List SentPacket} {space : Space} {key : PacketKey}
    {frames : List Frame} {now : Nat} (recovering : Recovering pending before)
    (covers : ∀ packet ∈ pending, packet ∈ rest ∨ packet.space = space ∧ packet.frames = frames) :
    Recovering rest (before.send space key frames now) := by
  have carries : ∀ frame ∈ frames,
      Carried ((before.send space key frames now).sent ++ rest) space frame := by
    intro frame member
    have some : frames.isEmpty = false := by
      cases frames with
      | nil => cases member
      | cons => rfl
    exact ⟨_, by rw [Ledger.send]; simp [some]; exact .inr (.inl rfl), rfl, member⟩
  have keeps : ∀ other frame, Carried (before.sent ++ pending) other frame →
      Carried ((before.send space key frames now).sent ++ rest) other frame := by
    rintro other frame ⟨packet, member, same, carried⟩
    rcases List.mem_append.mp member with old | out
    · refine ⟨packet, List.mem_append_left _ ?_, same, carried⟩
      unfold Ledger.send
      dsimp only
      split_ifs
      · exact old
      · exact List.mem_append_left _ old
    · rcases covers packet out with left | ⟨space', frames'⟩
      · exact ⟨packet, List.mem_append_right _ left, same, carried⟩
      · rw [← same, space']
        exact carries frame (frames' ▸ carried)
  refine ⟨?_, ?_⟩
  · have handed : Accounted (before.log ++ [.handed space frames])
        ((before.send space key frames now).sent ++ rest) :=
      recovering.accounted.snoc (fun other frame _ carried => .inl (keeps other frame carried))
        fun other given same frame member _ => by
          obtain ⟨rfl, rfl⟩ := Event.handed.inj same
          exact carries frame member
    have sent : Accounted (before.log ++ [.handed space frames] ++
        [.sent space key (before.nextPn.atSpace space) frames])
        ((before.send space key frames now).sent ++ rest) :=
      handed.pass fun _ _ same => by cases same
    rwa [List.append_assoc] at sent
  · intro packet member
    unfold Ledger.send at member ⊢
    dsimp only at member ⊢
    have old : packet ∈ before.sent → ∃ key', .sent packet.space key' packet.pn packet.frames ∈
        before.log ++ [.handed space frames, .sent space key (before.nextPn.atSpace space) frames] := by
      intro found
      obtain ⟨key', logged⟩ := recovering.logged packet found
      exact ⟨key', List.mem_append_left _ logged⟩
    split_ifs at member
    · exact old member
    · rcases List.mem_append.mp member with found | new
      · exact old found
      · obtain rfl := List.mem_singleton.mp new
        exact ⟨key, by simp⟩

theorem Recovering.pass {pending : List SentPacket} {event : Event PacketKey}
    (recovering : Recovering pending before) (grown : after.log = before.log ++ [event])
    (held : after.sent = before.sent)
    (silent : ∀ space frames, event = .handed space frames →
      ∀ frame ∈ frames, frame.isTracked = false) :
    Recovering pending after := by
  refine ⟨?_, fun packet member => ?_⟩
  · rw [grown, held]
    exact recovering.accounted.pass silent
  · rw [held] at member
    obtain ⟨key, logged⟩ := recovering.logged packet member
    exact ⟨key, grown ▸ List.mem_append_left _ logged⟩

/-- Acknowledged packets may be forgotten. -/
theorem Recovering.acked (recovering : Recovering [] before) (space : Space) (largest delay : Nat)
    (ranges : List (Nat × Nat)) :
    Recovering [] ((before.note (.received space (.ack largest delay ranges))).acked space largest
      ranges) := by
  have accounted : Accounted before.log before.sent := by
    simpa using recovering.accounted
  refine ⟨?_, fun packet member => ?_⟩
  · rw [List.append_nil]
    refine accounted.snoc (fun other frame _ carried => ?_) fun _ _ same => by cases same
    obtain ⟨packet, member, rfl, inside⟩ := carried
    by_cases gone : packet.space = space ∧ isAcked largest ranges packet.pn = true
    · obtain ⟨rfl, acked⟩ := gone
      obtain ⟨key, logged⟩ := recovering.logged packet member
      obtain ⟨front, back, split⟩ := List.append_of_mem logged
      exact .inr (.inl ⟨front, key, packet.pn, packet.frames, back, largest, delay, ranges, [],
        by simp [split], inside, acked⟩)
    · refine .inl ⟨packet, List.mem_filter.mpr ⟨member, ?_⟩, rfl, inside⟩
      simpa [imp_iff_not_or] using gone
  · obtain ⟨key, logged⟩ := recovering.logged packet (List.mem_filter.mp member).1
    exact ⟨key, List.mem_append_left _ logged⟩

/-- A Retry makes the Initial space void. -/
theorem Recovering.retry (recovering : Recovering [] before) {old new : PacketKey}
    (grown : after.log = before.log ++ [.retried old new])
    (held : after.sent = before.sent.filter fun packet => packet.space != .initial) :
    Recovering [] after := by
  have accounted : Accounted before.log before.sent := by
    simpa using recovering.accounted
  refine ⟨?_, fun packet member => ?_⟩
  · rw [List.append_nil, grown, held]
    refine accounted.snoc (fun other frame _ carried => ?_) fun _ _ same => by cases same
    obtain ⟨packet, member, rfl, inside⟩ := carried
    by_cases initial : packet.space = .initial
    · exact .inr (.inr ⟨initial, old, new, rfl⟩)
    · exact .inl ⟨packet, List.mem_filter.mpr ⟨member, by simpa using initial⟩, rfl, inside⟩
  · rw [held] at member
    obtain ⟨key, logged⟩ := recovering.logged packet (List.mem_filter.mp member).1
    exact ⟨key, grown ▸ List.mem_append_left _ logged⟩

theorem Recovering.step (step : Ledger.Step codec crypto before after)
    (recovering : Recovering [] before) : Recovering [] after := by
  cases step with
  | received space frame => exact recovering.pass rfl rfl (by simp)
  | answered space => exact recovering.pass rfl rfl (by simp)
  | acked space largest delay ranges => exact recovering.acked space largest delay ranges
  | sent space key frames now => exact recovering.send (by simp)
  | dropped space frames untracked =>
      refine recovering.pass rfl rfl fun other given same => ?_
      obtain ⟨rfl, rfl⟩ := Event.handed.inj same
      exact untracked
  | accepted space msg =>
      have noted : Recovering [] (before.note (.completed space msg)) :=
        recovering.pass rfl rfl (by simp)
      exact noted.pass rfl rfl (by simp)
  | keyed | confirmed | readable => exact ⟨recovering.accounted, recovering.logged⟩
  | retried => exact recovering.retry rfl rfl

/-! ## Packet numbers -/

/-- Packet numbers in use lie below the next one. -/
structure Numbered (ledger : Ledger PacketKey RootStore) : Prop where
  initial : ∀ key pn, (.initial, key, pn) ∈ packets ledger.log → key = ledger.initialWrite →
    pn < ledger.nextPn.initial
  later : ∀ space key pn, (space, key, pn) ∈ packets ledger.log → space ≠ .initial →
    pn < ledger.nextPn.atSpace space
  unretried : ledger.retryScid = none → ∀ key pn, (.initial, key, pn) ∈ packets ledger.log →
    key = ledger.initialWrite
  unrepeated : (packets ledger.log).Nodup
  bounded : ∀ space, ledger.nextPn.atSpace space ≤ (packets ledger.log).length

/-- As long as keys are renewed and numbers have not run out. -/
def Numbers (ledger : Ledger PacketKey RootStore) : Prop := Renewed ledger.log → Numbered ledger

theorem packets_append (log extra : List (Event PacketKey)) :
    packets (log ++ extra) = packets log ++ packets extra := List.filterMap_append

theorem Renewed.front {log extra : List (Event PacketKey)} (renewed : Renewed (log ++ extra)) :
    Renewed log := by
  refine ⟨fun keys member => renewed.retried keys ?_, ?_⟩
  · rw [List.filterMap_append]
    exact List.mem_append_left _ member
  · have count := renewed.count
    rw [packets_append, List.length_append] at count
    omega

/-- Events that are no packets change nothing. -/
theorem Numbers.grow (numbers : Numbers before) {extra : List (Event PacketKey)}
    (grown : after.log = before.log ++ extra) (none : packets extra = [])
    (key : after.initialWrite = before.initialWrite) (next : after.nextPn = before.nextPn)
    (retry : after.retryScid = before.retryScid) : Numbers after := by
  intro renewed
  rw [grown] at renewed
  have numbered := numbers renewed.front
  have same : packets after.log = packets before.log := by
    rw [grown, packets_append, none, List.append_nil]
  refine ⟨?_, ?_, ?_, ?_, ?_⟩
  · rw [same, key, next]
    exact numbered.initial
  · rw [same, next]
    exact numbered.later
  · rw [same, key, retry]
    exact numbered.unretried
  · rw [same]
    exact numbered.unrepeated
  · rw [same, next]
    exact numbered.bounded

/-- A packet takes the next number. -/
theorem Numbers.send (numbers : Numbers before) {space : Space} {key : PacketKey}
    {frames : List Frame} {now : Nat} (keyed : before.writeKey space = some key) :
    Numbers (before.send space key frames now) := by
  intro renewed
  have grown : (before.send space key frames now).log = before.log ++
      [.handed space frames, .sent space key (before.nextPn.atSpace space) frames] := rfl
  rw [grown] at renewed
  have numbered := numbers renewed.front
  have listed : packets (before.send space key frames now).log =
      packets before.log ++ [(space, key, before.nextPn.atSpace space)] := by
    rw [grown, packets_append]
    rfl
  have count := renewed.count
  rw [← grown, listed, List.length_append, List.length_singleton] at count
  have room : before.nextPn.atSpace space + 1 < 2 ^ 64 := by
    have := numbered.bounded space
    omega
  have next : (before.send space key frames now).nextPn =
      before.nextPn.set space (before.nextPn.atSpace space + 1) := by
    rw [Ledger.send, Nat.mod_eq_of_lt room]
  have own : space = .initial → key = before.initialWrite := by
    rintro rfl
    exact (Option.some.inj keyed).symm
  have sofar : ∀ other, before.nextPn.atSpace other ≤
      (before.send space key frames now).nextPn.atSpace other := by
    intro other
    rw [next]
    by_cases same : other = space
    · subst same
      rw [PerSpace.atSpace_set_self]
      exact Nat.le_succ _
    · rw [PerSpace.atSpace_set_of_ne same]
  have now : before.nextPn.atSpace space <
      (before.send space key frames now).nextPn.atSpace space := by
    rw [next, PerSpace.atSpace_set_self]
    exact Nat.lt_succ_self _
  have unused : (space, key, before.nextPn.atSpace space) ∉ packets before.log := by
    intro used
    by_cases initial : space = .initial
    · subst initial
      exact absurd (numbered.initial key _ used (own rfl)) (lt_irrefl _)
    · exact absurd (numbered.later space key _ used initial) (lt_irrefl _)
  refine ⟨?_, ?_, ?_, ?_, ?_⟩
  · intro other pn member current
    rw [listed] at member
    rcases List.mem_append.mp member with old | new
    · exact lt_of_lt_of_le (numbered.initial other pn old current) (sofar .initial)
    · obtain ⟨rfl, -, rfl⟩ : Space.initial = space ∧ other = key ∧ pn = _ := by simpa using new
      exact now
  · intro other key' pn member different
    rw [listed] at member
    rcases List.mem_append.mp member with old | new
    · exact lt_of_lt_of_le (numbered.later other key' pn old different) (sofar other)
    · obtain ⟨rfl, -, rfl⟩ : other = space ∧ key' = key ∧ pn = _ := by simpa using new
      exact now
  · intro first other pn member
    rw [listed] at member
    rcases List.mem_append.mp member with old | new
    · exact numbered.unretried first other pn old
    · obtain ⟨initial, rfl, -⟩ : Space.initial = space ∧ other = key ∧ pn = _ := by simpa using new
      exact own initial.symm
  · rw [listed]
    exact List.nodup_append.mpr ⟨numbered.unrepeated, List.nodup_singleton _,
      by rintro a inside b single rfl; exact unused (List.mem_singleton.mp single ▸ inside)⟩
  · intro other
    rw [listed, List.length_append, List.length_singleton, next]
    by_cases same : other = space
    · subst same
      rw [PerSpace.atSpace_set_self]
      exact Nat.succ_le_succ (numbered.bounded other)
    · rw [PerSpace.atSpace_set_of_ne same]
      exact Nat.le_succ_of_le (numbered.bounded other)

/-- A Retry starts the Initial numbers again, under another key. -/
theorem Numbers.retry (numbers : Numbers before) {new : PacketKey} {scid : Bytes}
    (first : before.retryScid = none)
    (grown : after.log = before.log ++ [.retried before.initialWrite new])
    (key : after.initialWrite = new) (next : after.nextPn = before.nextPn.set .initial 0)
    (retry : after.retryScid = some scid) : Numbers after := by
  intro renewed
  have changed : before.initialWrite ≠ new :=
    renewed.retried (before.initialWrite, new) (by rw [grown]; simp [Event.rekeying])
  rw [grown] at renewed
  have numbered := numbers renewed.front
  have same : packets after.log = packets before.log := by
    rw [grown, packets_append]
    exact List.append_nil _
  refine ⟨?_, ?_, ?_, ?_, ?_⟩
  · intro other pn member current
    rw [same] at member
    exact absurd ((numbered.unretried first other pn member).symm.trans (current.trans key)) changed
  · intro space other pn member different
    rw [same] at member
    rw [next, PerSpace.atSpace_set_of_ne different]
    exact numbered.later space other pn member different
  · intro none
    cases retry.symm.trans none
  · rw [same]
    exact numbered.unrepeated
  · intro space
    rw [same, next]
    by_cases initial : space = .initial
    · subst initial
      exact Nat.zero_le _
    · rw [PerSpace.atSpace_set_of_ne initial]
      exact numbered.bounded space

theorem Numbers.step (step : Ledger.Step codec crypto before after) (numbers : Numbers before) :
    Numbers after := by
  cases step with
  | received | acked | answered | dropped => exact numbers.grow rfl rfl rfl rfl rfl
  | accepted space msg =>
      have noted : Numbers (before.note (.completed space msg)) := numbers.grow rfl rfl rfl rfl rfl
      exact noted.grow rfl rfl rfl rfl rfl
  | keyed | confirmed | readable => exact numbers.grow (List.append_nil _).symm rfl rfl rfl rfl
  | sent space key frames now keyed => exact numbers.send keyed
  | retried scid key cfg entropy first => exact numbers.retry first rfl rfl rfl rfl

/-! ## The query sender -/

theorem Handed.grow {log extra : List (Event PacketKey)} {streamId : Nat} {query : QuerySend}
    (handed : Handed log streamId query) : Handed (log ++ extra) streamId query := by
  intro position counted
  obtain ⟨frames, offset, data, length, fin, member, rest⟩ := handed position counted
  exact ⟨frames, offset, data, length, fin, List.mem_append_left _ member, rest⟩

/-- The query sender is not ahead. -/
def Querying (ledger : Ledger PacketKey RootStore) : Prop :=
  ∀ query, ledger.queryTx = some query → Handed ledger.log ledger.streamId query

theorem Querying.grow (querying : Querying before) {extra : List (Event PacketKey)}
    (grown : after.log = before.log ++ extra) (query : after.queryTx = before.queryTx)
    (stream : after.streamId = before.streamId) : Querying after := by
  intro asked found
  rw [grown, stream]
  exact (querying asked (query ▸ found)).grow

theorem Querying.step (step : Ledger.Step codec crypto before after) (querying : Querying before) :
    Querying after := by
  cases step with
  | received | acked | answered | dropped => exact querying.grow rfl rfl rfl
  | sent => exact querying.grow rfl rfl rfl
  | accepted space msg =>
      have noted : Querying (before.note (.completed space msg)) := querying.grow rfl rfl rfl
      exact noted.grow rfl rfl rfl
  | keyed | confirmed | readable => exact querying.grow (List.append_nil _).symm rfl rfl
  | retried => exact querying.grow rfl rfl rfl

/-- The chunks are the octets from `sent` on. -/
theorem chunksFrom_cover {query : QuerySend} {remaining allow fuel sent total : Nat}
    {chunks : List Chunk}
    (cut : query.chunksFrom remaining allow fuel sent = .ok (chunks, total)) :
    ∀ position, query.offset + sent ≤ position → position < query.offset + total →
      ∃ chunk ∈ chunks, chunk.offset ≤ position ∧ position < chunk.offset + chunk.data.length ∧
        chunk.data[position - chunk.offset]? = query.data[position]? := by
  induction fuel generalizing sent chunks with
  | zero => cases cut
  | succ fuel inductionHypothesis =>
      unfold QuerySend.chunksFrom at cut
      intro position past before
      split_ifs at cut with more
      · obtain ⟨rest, read, cut⟩ := bind_eq_ok.mp cut
        obtain ⟨_, progress, cut⟩ := bind_eq_ok.mp cut
        have tail : rest = query.data.drop (query.offset + sent) := by
          have located := mapError_eq_ok.mp read
          unfold restAt at located
          split_ifs at located
          cases located
          rfl
        have here : position < query.offset + sent + min rest.length MAX_CHUNK →
            query.offset + sent ≤ position ∧
              position < query.offset + sent + (capped rest MAX_CHUNK).length ∧
              (capped rest MAX_CHUNK)[position - (query.offset + sent)]? =
                query.data[position]? := by
          intro within
          refine ⟨past, ?_, ?_⟩
          · rw [capped, List.length_take]
            omega
          · rw [capped, List.getElem?_take, if_pos (by omega), tail, List.getElem?_drop]
            congr 1
            omega
        dsimp only at cut
        split_ifs at cut with fin
        · cases cut
          exact ⟨_, List.mem_singleton_self _, here (by omega)⟩
        · obtain ⟨⟨later, count⟩, rec, cut⟩ := bind_eq_ok.mp cut
          cases cut
          by_cases within : position < query.offset + sent + min rest.length MAX_CHUNK
          · exact ⟨_, List.mem_cons_self, here within⟩
          · obtain ⟨chunk, member, covered⟩ := inductionHypothesis rec position (by omega) before
            exact ⟨chunk, List.mem_cons_of_mem _ member, covered⟩
      · cases cut
        omega

end Invariants

/-! ## Operations -/

section Operations

variable {codec : Codec PacketKey} {crypto : Crypto RootStore} {env : Env}
variable {conn after : QuicConnection PacketKey RootStore}

/-- The law, with what carries it from one operation to the next. -/
structure Conserving (pending : List SentPacket) (ledger : Ledger PacketKey RootStore) : Prop where
  recovering : Recovering pending ledger
  numbers : Numbers ledger
  querying : Querying ledger

theorem Conserving.step {before after : Ledger PacketKey RootStore}
    (step : Ledger.Step codec crypto before after) (conserving : Conserving [] before) :
    Conserving [] after :=
  ⟨conserving.recovering.step step, conserving.numbers.step step, conserving.querying.step step⟩

/-- A packet that goes out keeps the law; one that was taken out is back with it. -/
theorem Conserving.send {pending rest : List SentPacket} {space : Space} {frames : List Frame}
    {padInitial : Bool} (conserving : Conserving pending conn.ledger)
    (covers : ∀ packet ∈ pending, packet ∈ rest ∨ packet.space = space ∧ packet.frames = frames)
    (ran : sendPacket codec env space frames padInitial conn = (.ok (), after)) :
    Conserving rest after.ledger ∧ ∃ event,
      after.ledger.log = conn.ledger.log ++ [.handed space frames, event] ∧
      after.ledger.queryTx = conn.ledger.queryTx ∧ after.ledger.streamId = conn.ledger.streamId := by
  obtain ⟨key, -, keyed, rfl⟩ | ⟨error, failed, -⟩ := Ledger.sendPacket_cases ran
  · rw [Ledger.afterSend_ledger]
    exact ⟨⟨conserving.recovering.send covers, conserving.numbers.send keyed,
      conserving.querying.grow rfl rfl rfl⟩, _, rfl, rfl, rfl⟩
  · cases failed

/-- Packets that were taken out and sent again. -/
theorem Conserving.resend {pending : List SentPacket} (conserving : Conserving pending conn.ledger)
    (ran : each (resend codec env) pending conn = (.ok (), after)) :
    Conserving [] after.ledger := by
  induction pending generalizing conn with
  | nil =>
      cases ran
      exact conserving
  | cons packet pending inductionHypothesis =>
      obtain ⟨_, middle, first, rest⟩ := bind_eq_ok_iff.mp ran
      refine inductionHypothesis (conserving.send ?_ first).1 rest
      intro other member
      rcases List.mem_cons.mp member with rfl | later
      · exact .inr ⟨rfl, rfl⟩
      · exact .inl later

/-- Chunks that are sent are handed over. -/
theorem Conserving.sendChunks {chunks : List Chunk} {streamId : Nat}
    (recovering : Recovering [] conn.ledger) (numbers : Numbers conn.ledger)
    (ran : each (fun chunk => sendPacket codec env .application [chunk.frame streamId] false)
      chunks conn = (.ok (), after)) :
    Recovering [] after.ledger ∧ Numbers after.ledger ∧
      after.queryTx = conn.queryTx ∧ after.streamId = conn.streamId ∧
      ∃ extra, after.log = conn.log ++ extra ∧
        ∀ chunk ∈ chunks, .handed .application [chunk.frame streamId] ∈ extra := by
  induction chunks generalizing conn with
  | nil =>
      cases ran
      exact ⟨recovering, numbers, rfl, rfl, [], (List.append_nil _).symm, by simp⟩
  | cons chunk chunks inductionHypothesis =>
      obtain ⟨_, middle, first, rest⟩ := bind_eq_ok_iff.mp ran
      obtain ⟨key, -, keyed, rfl⟩ | ⟨error, failed, -⟩ := Ledger.sendPacket_cases first
      · have recovered : Recovering [] (conn.ledger.send .application key [chunk.frame streamId]
            env.now) := recovering.send (by simp)
        have numbered : Numbers (conn.ledger.send .application key [chunk.frame streamId]
            env.now) := numbers.send keyed
        rw [← Ledger.afterSend_ledger] at recovered numbered
        obtain ⟨recovering, numbers, query, stream, extra, grown, handed⟩ :=
          inductionHypothesis recovered numbered rest
        refine ⟨recovering, numbers, query, stream,
          [.handed .application [chunk.frame streamId],
            .sent .application key (conn.nextPn.atSpace .application) [chunk.frame streamId]] ++ extra,
          ?_, ?_⟩
        · rw [grown]
          simp [Ledger.handing, afterSend]
        · intro other member
          rcases List.mem_cons.mp member with rfl | later
          · simp
          · exact List.mem_append_right _ (handed other later)
      · cases failed

theorem act_conserving (op : Op) (conserving : Conserving [] conn.ledger)
    (ran : op.act codec crypto conn = (.ok (), after)) : Conserving [] after.ledger := by
  cases op with
  | datagram | heard | flushAcks | close =>
      have steps : Ledger.Follows codec crypto conn after := (act_goes rfl).ok () after ran
      exact steps.preserves Conserving.step conserving
  | openStream query =>
      rcases openStream_cases ran with ⟨⟨error, failed⟩, -⟩ | ⟨-, -, rfl⟩
      · cases failed
      · refine ⟨⟨conserving.recovering.accounted, conserving.recovering.logged⟩,
          conserving.numbers.grow (List.append_nil _).symm rfl rfl rfl rfl, ?_⟩
        intro asked found position counted
        obtain rfl := Option.some.inj found
        cases counted
  | runPto env =>
      rcases runPto_cases ran with same | ran
      · rwa [same]
      · have accounted := conserving.recovering.accounted
        rw [List.append_nil] at accounted
        have start : Conserving conn.sent (probing conn).ledger :=
          ⟨⟨accounted, fun _ member => by cases member⟩,
            conserving.numbers.grow (List.append_nil _).symm rfl rfl rfl rfl,
            conserving.querying.grow (List.append_nil _).symm rfl rfl⟩
        exact start.resend ran
  | flushQuery env =>
      rcases flushQuerySend_cases ran with rfl | ⟨query, chunks, total, asked, -, -, cut, ran⟩
      · exact conserving
      · have recovering : Recovering [] (advancing conn query chunks total).ledger :=
          ⟨conserving.recovering.accounted, conserving.recovering.logged⟩
        have numbers : Numbers (advancing conn query chunks total).ledger :=
          conserving.numbers.grow (List.append_nil _).symm rfl rfl rfl rfl
        obtain ⟨recovering, numbers, unchanged, stream, extra, grown, handed⟩ :=
          Conserving.sendChunks recovering numbers ran
        refine ⟨recovering, numbers, fun found same position counted => ?_⟩
        have current : found = query.advance chunks total :=
          Option.some.inj (same.symm.trans unchanged)
        subst current
        rw [show after.ledger.log = _ from grown, show after.ledger.streamId = _ from stream]
        by_cases old : position < query.offset
        · exact (conserving.querying query asked).grow position old
        · obtain ⟨chunk, member, covered⟩ :=
            chunksFrom_cover cut position (by omega) counted
          exact ⟨_, _, _, _, _, List.mem_append_right _ (handed chunk member),
            List.mem_singleton_self _, covered⟩

/-- In every run without an error in which a Retry gives another Initial key and
packet numbers do not run out, nothing is lost, repeated or counted too early. -/
theorem conserved_of_renewed (codec : Codec PacketKey) (crypto : Crypto RootStore)
    (cfg : ClientConfig RootStore) (env : Env) (localCid serverCid hello : Bytes)
    (conn started after : QuicConnection PacketKey RootStore) (ops : List Op)
    (opened : QuicConnection.fresh codec cfg env.entropy localCid serverCid = .ok (hello, conn))
    (greeted : greet codec env hello conn = (.ok (), started))
    (ran : each (Op.act codec crypto) ops started = (.ok (), after))
    (renewed : Renewed after.log) : Conserved after := by
  obtain ⟨key, cfg, fresh⟩ := fresh_ledger opened
  have start : Conserving [] conn.ledger := by
    rw [fresh]
    refine ⟨⟨fun space frames later tail => ?_, fun _ member => by cases member⟩,
      fun _ => ⟨?_, ?_, ?_, .nil, fun space => ?_⟩, fun query asked => by cases asked⟩
    · simp [Ledger.start] at tail
    · exact fun _ _ member => by cases member
    · exact fun _ _ _ member => by cases member
    · exact fun _ _ _ member => by cases member
    · cases space <;> exact Nat.zero_le _
  obtain ⟨_, sent, first, rest⟩ := bind_eq_ok_iff.mp greeted
  have begun : Conserving [] started.ledger := by
    cases rest
    exact (start.send (by simp) first).1
  have conserving : Conserving [] after.ledger :=
    each_invariant (fun conserving ran => act_conserving _ conserving ran) begun ran
  have accounted := conserving.recovering.accounted
  rw [List.append_nil] at accounted
  exact ⟨accounted, (conserving.numbers renewed).unrepeated, conserving.querying⟩

end Operations

/-- A Retry with another identifier starts the numbers again under another key. -/
theorem conserved_after_retry : ∃ after,
    each (Op.act Plain.codec Sample.crypto) [.datagram Plain.env (Plain.retry [9])] Plain.started =
      (.ok (), after) ∧
    packets after.log = [(.initial, [0, 2], 0), (.initial, [0, 9], 0)] ∧ Conserved after := by
  have ran := run_eq (show (each (Op.act Plain.codec Sample.crypto)
    [.datagram Plain.env (Plain.retry [9])] Plain.started).1 = .ok () by decide +kernel)
  refine ⟨_, ran, by decide +kernel, ?_⟩
  exact conserved_of_renewed Plain.codec Sample.crypto Sample.cfg Plain.env [1] [2] Plain.hello
    Plain.connection Plain.started _ _ Plain.fresh_connection (run_eq (by decide +kernel)) ran
    ⟨by decide +kernel, by decide +kernel⟩

/-- A Retry with the identifier that is in use gives the same key, and packet number
zero is used twice under it. -/
theorem number_repeated_after_retry :
    QuicConnection.fresh Plain.codec Sample.cfg Plain.env.entropy [1] [2] =
      .ok (Plain.hello, Plain.connection) ∧
    greet Plain.codec Plain.env Plain.hello Plain.connection = (.ok (), Plain.started) ∧
    ∃ after,
      each (Op.act Plain.codec Sample.crypto) [.datagram Plain.env (Plain.retry [2])]
        Plain.started = (.ok (), after) ∧
      packets after.log = [(.initial, [0, 2], 0), (.initial, [0, 2], 0)] ∧ ¬ Conserved after := by
  refine ⟨Plain.fresh_connection, run_eq (by decide +kernel), _, run_eq (by decide +kernel),
    by decide +kernel, fun conserved => ?_⟩
  exact absurd conserved.unrepeated (by decide +kernel)

end RecurseX.Doq
