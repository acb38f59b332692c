import RecurseX.Name.Compressor

/-!
# Output buffers

A serializer appends fixed octets and names to one buffer, and the names may
share a compressor. `PiecesAt` is what a reader finds where a list of such
pieces was written, and `Sink.Appended` carries such facts through a sequence
of writes without fixing the rest of the buffer: octets in front of the segment
(a section count, say) may still change.
-/

namespace RecurseX

open Library Wire

/-- One append: fixed octets, or a name that `allow` permits to compress. -/
inductive Piece where
  | octets (bytes : Bytes)
  | name (name : Name) (allow : Bool)
deriving DecidableEq, Repr

/-- A buffer under construction with its compressor, if it has one. -/
structure Sink where
  out : Bytes
  comp : Option NameCompressor
deriving DecidableEq, Repr

namespace Sink

/-- Append fixed octets. -/
def extend (sink : Sink) (bytes : Bytes) : Sink := { sink with out := sink.out ++ bytes }

/-- Append a name, through the compressor when there is one and `allow` says so. -/
def name (sink : Sink) (name : Name) (allow : Bool) : Sink :=
  match allow, sink.comp with
  | true, some comp =>
      let written := comp.write name sink.out
      ⟨written.2, some written.1⟩
  | _, _ => { sink with out := name.writeWire sink.out }

/-- Append one piece. -/
def put (sink : Sink) : Piece → Sink
  | .octets bytes => sink.extend bytes
  | .name name allow => sink.name name allow

/-- Append pieces in order. -/
def putAll (sink : Sink) (pieces : List Piece) : Sink := pieces.foldl put sink

end Sink

/-- Replace the octets at `pos` by `bytes`. -/
def overwrite (out : Bytes) (pos : Nat) (bytes : Bytes) : Bytes :=
  out.take pos ++ bytes ++ out.drop (pos + bytes.length)

theorem overwrite_middle (before after : Bytes) {middle bytes : Bytes}
    (width : bytes.length = middle.length) :
    overwrite (before ++ (middle ++ after)) before.length bytes = before ++ (bytes ++ after) := by
  rw [overwrite, List.take_left, ← List.drop_drop, List.drop_left, width, List.drop_left,
    List.append_assoc]

theorem length_overwrite {out bytes : Bytes} {pos : Nat} (inside : pos + bytes.length ≤ out.length) :
    (overwrite out pos bytes).length = out.length := by
  simp only [overwrite, List.length_append, List.length_take, List.length_drop]
  omega

/-- What a reader finds at `pos` where `pieces` were written up to `stop`. -/
def PiecesAt (buf : Bytes) : (pos : Nat) → List Piece → (stop : Nat) → Prop
  | pos, [], stop => pos = stop
  | pos, .octets bytes :: pieces, stop =>
      Located buf pos bytes ∧ PiecesAt buf (pos + bytes.length) pieces stop
  | pos, .name name _ :: pieces, stop =>
      ∃ next, pos < next ∧ Name.fromWire buf pos = .ok (name, next) ∧
        PiecesAt buf next pieces stop

theorem PiecesAt.le {buf : Bytes} {pieces : List Piece} :
    ∀ {pos stop : Nat}, PiecesAt buf pos pieces stop → pos ≤ stop := by
  induction pieces with
  | nil =>
      intro pos stop found
      exact Nat.le_of_eq found
  | cons piece pieces inductionHypothesis =>
      intro pos stop found
      cases piece with
      | octets bytes =>
          have := inductionHypothesis found.2
          omega
      | name name allow =>
          obtain ⟨next, forward, _, rest⟩ := found
          have := inductionHypothesis rest
          omega

/-- An octet string at the front of what stands behind it. -/
theorem PiecesAt.octets {buf bytes : Bytes} {pos mid stop : Nat} {pieces : List Piece}
    (located : Located buf pos bytes) (ends : pos + bytes.length = mid)
    (rest : PiecesAt buf mid pieces stop) : PiecesAt buf pos (.octets bytes :: pieces) stop := by
  subst ends
  exact ⟨located, rest⟩

/-- A name at the front of what stands behind it. -/
theorem PiecesAt.name {buf : Bytes} {name : Name} {allow : Bool} {pos mid stop : Nat}
    {pieces : List Piece} (decoded : Name.fromWire buf pos = .ok (name, mid))
    (rest : PiecesAt buf mid pieces stop) : PiecesAt buf pos (.name name allow :: pieces) stop :=
  ⟨mid, fromWire_advances decoded, decoded, rest⟩

/-- Each octet string stands somewhere between the two ends. -/
theorem PiecesAt.within {buf bytes : Bytes} {pieces : List Piece} (member : .octets bytes ∈ pieces) :
    ∀ {pos stop : Nat}, PiecesAt buf pos pieces stop →
      ∃ p, pos ≤ p ∧ p + bytes.length ≤ stop ∧ Located buf p bytes := by
  induction pieces with
  | nil => cases member
  | cons piece pieces inductionHypothesis =>
      intro pos stop found
      rcases List.mem_cons.mp member with rfl | deeper
      · exact ⟨pos, Nat.le_refl _, found.2.le, found.1⟩
      · cases piece with
        | octets first =>
            obtain ⟨p, later, inside, located⟩ := inductionHypothesis deeper found.2
            exact ⟨p, by omega, inside, located⟩
        | name name allow =>
            obtain ⟨next, forward, -, rest⟩ := found
            obtain ⟨p, later, inside, located⟩ := inductionHypothesis deeper rest
            exact ⟨p, by omega, inside, located⟩

/-- Each name is decoded somewhere. -/
theorem PiecesAt.decoded {buf : Bytes} {name : Name} {allow : Bool} {pieces : List Piece}
    (member : .name name allow ∈ pieces) : ∀ {pos stop : Nat}, PiecesAt buf pos pieces stop →
      ∃ p next, Name.fromWire buf p = .ok (name, next) := by
  induction pieces with
  | nil => cases member
  | cons piece pieces inductionHypothesis =>
      intro pos stop found
      rcases List.mem_cons.mp member with rfl | deeper
      · obtain ⟨next, -, decoded, -⟩ := found
        exact ⟨pos, next, decoded⟩
      · cases piece with
        | octets first => exact inductionHypothesis deeper found.2
        | name other allow =>
            obtain ⟨next, -, -, rest⟩ := found
            exact inductionHypothesis deeper rest

theorem PiecesAt.append {buf : Bytes} {first second : List Piece} {stop : Nat} :
    ∀ {pos : Nat}, PiecesAt buf pos (first ++ second) stop ↔
      ∃ mid, PiecesAt buf pos first mid ∧ PiecesAt buf mid second stop := by
  induction first with
  | nil => simp [PiecesAt]
  | cons piece first inductionHypothesis =>
      intro pos
      cases piece with
      | octets bytes => simp [PiecesAt, inductionHypothesis, and_assoc]
      | name name allow =>
          simp only [List.cons_append, PiecesAt, inductionHypothesis]
          constructor
          · rintro ⟨next, forward, decoded, mid, found, rest⟩
            exact ⟨mid, ⟨next, forward, decoded, found⟩, rest⟩
          · rintro ⟨mid, ⟨next, forward, decoded, found⟩, rest⟩
            exact ⟨next, forward, decoded, mid, found, rest⟩

/-- A name some decoder returned: the stored form of a label list within the
wire limits. -/
def Name.Canonical (name : Name) : Prop := ∃ domain : DomainName, name = domain.toName

namespace Sink

/-- The compressor of a sink, if any, is sound for what has been written. -/
def Sound (buf : Bytes) (sink : Sink) : Prop :=
  ∀ comp, sink.comp = some comp → NameCompressor.TableSound buf sink.out.length comp

/-- From `before` to `after` a segment was appended which `reads` describes in
every buffer that holds it at the same place and agrees with the compressor. -/
def Appended (before after : Sink) (reads : (buf : Bytes) → (pos stop : Nat) → Prop) : Prop :=
  ∃ segment, after.out = before.out ++ segment ∧
    ∀ buf, before.Sound buf → Located buf before.out.length segment →
      reads buf before.out.length after.out.length ∧ after.Sound buf

namespace Appended

variable {before middle after : Sink}
variable {reads others : (buf : Bytes) → (pos stop : Nat) → Prop}

/-- Two appends in a row. -/
theorem trans (first : Appended before middle reads) (second : Appended middle after others) :
    Appended before after fun buf pos stop => ∃ mid, reads buf pos mid ∧ others buf mid stop := by
  obtain ⟨segment, grown, readsFirst⟩ := first
  obtain ⟨further, grownFurther, readsSecond⟩ := second
  refine ⟨segment ++ further, by rw [grownFurther, grown, List.append_assoc], ?_⟩
  intro buf sound located
  rw [Located.append_iff] at located
  obtain ⟨here, soundMiddle⟩ := readsFirst buf sound located.1
  have position : middle.out.length = before.out.length + segment.length := by
    rw [grown, List.length_append]
  obtain ⟨there, soundAfter⟩ := readsSecond buf soundMiddle (by rw [position]; exact located.2)
  exact ⟨⟨_, here, there⟩, soundAfter⟩

/-- Weaken what is read. -/
theorem imp (appended : Appended before after reads)
    (weaker : ∀ buf : Bytes, after.out.length ≤ buf.length →
      reads buf before.out.length after.out.length →
      others buf before.out.length after.out.length) :
    Appended before after others := by
  obtain ⟨segment, grown, spec⟩ := appended
  refine ⟨segment, grown, fun buf sound located => ?_⟩
  obtain ⟨found, soundAfter⟩ := spec buf sound located
  have fits := located.bound
  exact ⟨weaker buf (by rw [grown, List.length_append]; exact fits) found, soundAfter⟩

/-- Nothing is ever taken back. -/
theorem length_le (appended : Appended before after reads) :
    before.out.length ≤ after.out.length := by
  obtain ⟨segment, grown, _⟩ := appended
  rw [grown, List.length_append]
  omega

/-- Appending nothing. -/
theorem refl (sink : Sink) : Appended sink sink fun _ pos stop => pos = stop :=
  ⟨[], by simp, fun _ sound _ => ⟨rfl, sound⟩⟩

end Appended

/-- Fixed octets are found where they were appended. -/
theorem extend_appended (sink : Sink) (bytes : Bytes) :
    sink.Appended (sink.extend bytes) fun buf pos stop =>
      Located buf pos bytes ∧ stop = pos + bytes.length := by
  refine ⟨bytes, rfl, fun buf sound located => ⟨⟨located, by simp [extend]⟩, ?_⟩⟩
  intro comp present
  exact (sound comp present).mono (by simp [extend])

/-- A name is decoded where it was appended, compressed or not. -/
theorem name_appended (sink : Sink) {name : Name} (canonical : name.Canonical) (allow : Bool) :
    sink.Appended (sink.name name allow) fun buf pos stop =>
      pos < stop ∧ Name.fromWire buf pos = .ok (name, stop) := by
  obtain ⟨domain, rfl⟩ := canonical
  have plain : sink.Appended { sink with out := domain.toName.writeWire sink.out }
      fun buf pos stop => pos < stop ∧ Name.fromWire buf pos = .ok (domain.toName, stop) := by
    refine (sink.extend_appended domain.toName.bytes).imp fun buf _ found => ?_
    obtain ⟨located, reached⟩ := found
    have positive := PrefixedList.length_code_pos domain.labels
    rw [reached]
    exact ⟨Nat.lt_add_of_pos_right positive, domain.fromWire_located located⟩
  unfold Sink.name
  split
  · rename_i comp present
    rw [NameCompressor.write_eq]
    refine ⟨_, rfl, fun buf sound located => ?_⟩
    obtain ⟨⟨hops, bounded, spells⟩, table⟩ :=
      NameCompressor.write_step domain (sound comp present) located
    have few := domain.few
    have decoded := domain.fromWire_spells spells (by simp only [maxPointerHops]; omega)
    refine ⟨⟨?_, by simpa using decoded⟩, fun next present => ?_⟩
    · have positive := comp.encoding_length_pos domain
      simp only [List.length_append]
      omega
    · cases present
      simpa using table
  · exact plain

/-- A placeholder filled in later reads as if it had been right from the start. -/
theorem Appended.patched {sink after : Sink} {placeholder : Bytes}
    {reads : (buf : Bytes) → (pos stop : Nat) → Prop}
    (appended : (sink.extend placeholder).Appended after reads) (bytes : Bytes)
    (width : bytes.length = placeholder.length) :
    sink.Appended { after with out := overwrite after.out sink.out.length bytes }
      fun buf pos stop => Located buf pos bytes ∧ reads buf (pos + bytes.length) stop := by
  obtain ⟨segment, grown, spec⟩ := appended
  have filled : overwrite after.out sink.out.length bytes = sink.out ++ (bytes ++ segment) := by
    rw [grown]
    simpa [extend] using overwrite_middle sink.out segment width
  have same : (overwrite after.out sink.out.length bytes).length = after.out.length := by
    refine length_overwrite ?_
    simp only [grown, extend, List.length_append, width]
    omega
  have start : (sink.extend placeholder).out.length = sink.out.length + bytes.length := by
    simp [extend, width]
  refine ⟨bytes ++ segment, filled, fun buf sound located => ?_⟩
  obtain ⟨found, soundAfter⟩ := spec buf
    (fun comp present => (sound comp present).mono (by omega))
    (by rw [start]; exact located.right_part)
  refine ⟨⟨located.left_part, ?_⟩, fun comp present => ?_⟩
  · rw [same, ← start]
    exact found
  · rw [same]
    exact soundAfter comp present

/-- Pieces are found where they were appended. -/
theorem putAll_appended {pieces : List Piece}
    (canonical : ∀ name allow, .name name allow ∈ pieces → name.Canonical) :
    ∀ sink : Sink, sink.Appended (sink.putAll pieces) fun buf pos stop =>
      PiecesAt buf pos pieces stop := by
  induction pieces with
  | nil => exact Appended.refl
  | cons piece pieces inductionHypothesis =>
      intro sink
      have rest := inductionHypothesis
        (fun name allow member => canonical name allow (List.mem_cons_of_mem _ member))
        (sink.put piece)
      cases piece with
      | octets bytes =>
          refine ((sink.extend_appended bytes).trans rest).imp fun buf _ found => ?_
          obtain ⟨_, ⟨located, rfl⟩, later⟩ := found
          exact ⟨located, later⟩
      | name name allow =>
          have first := sink.name_appended (canonical name allow List.mem_cons_self) allow
          refine (first.trans rest).imp fun buf _ found => ?_
          obtain ⟨next, ⟨forward, decoded⟩, later⟩ := found
          exact ⟨next, forward, decoded, later⟩

end Sink

end RecurseX
