import Mathlib.Data.List.Sort

/-!
# Located segments and big-endian words

`Located buffer position segment` says that `segment` stands in `buffer` at
`position`. A serializer that only ever appends can be described by the
segments it leaves behind, and a reader is then specified on any buffer in
which those segments are located, whatever surrounds them.
-/

namespace RecurseX.Library

/-- An octet string. -/
abbrev Bytes := List UInt8

/-- An octet string of a fixed length. -/
abbrev Octets (count : Nat) := {bytes : Bytes // bytes.length = count}

section Located

variable {α : Type}

/-- `segment` occupies the positions `position, position + 1, …` of `buffer`. -/
def Located (buffer : List α) (position : Nat) (segment : List α) : Prop :=
  position ≤ buffer.length ∧ segment <+: buffer.drop position

namespace Located

variable {buffer segment left right : List α} {position : Nat}

/-- A located segment ends inside the buffer. -/
theorem bound (located : Located buffer position segment) :
    position + segment.length ≤ buffer.length := by
  have fits := located.2.length_le
  have inside := located.1
  simp only [List.length_drop] at fits
  omega

/-- Cutting the segment's own length out of the buffer returns the segment. -/
theorem slice (located : Located buffer position segment) :
    (buffer.drop position).take segment.length = segment :=
  (List.prefix_iff_eq_take.mp located.2).symm

/-- Adjacent segments are located exactly when their concatenation is. -/
theorem append_iff :
    Located buffer position (left ++ right) ↔
      Located buffer position left ∧ Located buffer (position + left.length) right := by
  constructor
  · intro located
    obtain ⟨inside, rest, whole⟩ := located
    have total := (Located.bound ⟨inside, rest, whole⟩ :
      position + (left ++ right).length ≤ buffer.length)
    simp only [List.length_append] at total
    refine ⟨⟨inside, right ++ rest, by simpa using whole⟩, by omega, rest, ?_⟩
    rw [← List.drop_drop, ← whole]
    simp
  · rintro ⟨⟨inside, _, leftWhole⟩, _, rest, rightWhole⟩
    refine ⟨inside, rest, ?_⟩
    rw [← List.drop_drop, ← leftWhole, List.drop_left] at rightWhole
    rw [← leftWhole, ← rightWhole, List.append_assoc]

/-- The first part of a located concatenation. -/
theorem left_part (located : Located buffer position (left ++ right)) :
    Located buffer position left :=
  (append_iff.mp located).1

/-- The second part of a located concatenation. -/
theorem right_part (located : Located buffer position (left ++ right)) :
    Located buffer (position + left.length) right :=
  (append_iff.mp located).2

/-- A segment surrounded by arbitrary context is located after its prefix. -/
theorem intro (before segment after : List α) :
    Located (before ++ (segment ++ after)) before.length segment :=
  ⟨by simp, after, by simp⟩

/-- The empty segment is located anywhere inside the buffer. -/
theorem nil (inside : position ≤ buffer.length) : Located buffer position [] :=
  ⟨inside, List.nil_prefix⟩

/-- The head of a located segment is the element at its position. -/
theorem head {first : α} {rest : List α} (located : Located buffer position (first :: rest)) :
    buffer[position]? = some first := by
  obtain ⟨_, suffix, whole⟩ := located
  have zeroth := congrArg (fun list => list[0]?) whole
  simpa using zeroth.symm

/-- The tail of a located segment is located one position later. -/
theorem tail {first : α} {rest : List α} (located : Located buffer position (first :: rest)) :
    Located buffer (position + 1) rest :=
  right_part (show Located buffer position ([first] ++ rest) from located)

/-- The element at a position, as a segment. -/
theorem singleton {element : α} (found : buffer[position]? = some element) :
    Located buffer position [element] := by
  obtain ⟨inside, rfl⟩ := List.getElem?_eq_some_iff.mp found
  refine ⟨Nat.le_of_lt inside, ?_⟩
  rw [List.drop_eq_getElem_cons inside]
  exact List.prefix_append [_] _

/-- The rest of the buffer is located where it starts. -/
theorem rest (inside : position ≤ buffer.length) : Located buffer position (buffer.drop position) :=
  ⟨inside, List.prefix_rfl⟩

/-- What is left of a located segment behind its first elements. -/
theorem drop (located : Located buffer position segment) {count : Nat}
    (inside : count ≤ segment.length) :
    Located buffer (position + count) (segment.drop count) := by
  have whole : Located buffer position (segment.take count ++ segment.drop count) := by
    rwa [List.take_append_drop]
  have part := whole.right_part
  rwa [List.length_take_of_le inside] at part

/-- A segment continued by what another one has beyond its end. -/
theorem extend (located : Located buffer position segment) {other : Nat} {piece : List α}
    (further : Located buffer other piece) (within : other ≤ position + segment.length) :
    Located buffer position
      (segment ++ piece.drop (position + segment.length - other)) := by
  refine append_iff.mpr ⟨located, ?_⟩
  rcases Nat.le_total (position + segment.length - other) piece.length with inside | beyond
  · have cut := further.drop inside
    rwa [Nat.add_sub_of_le within] at cut
  · rw [List.drop_of_length_le beyond]
    exact Located.nil located.bound

/-- A segment that spans the whole buffer is the buffer. -/
theorem eq_of_length (located : Located buffer 0 segment)
    (length : segment.length = buffer.length) : segment = buffer := by
  have cut := located.slice
  rw [length, List.drop_zero, List.take_length] at cut
  exact cut.symm

end Located

end Located

section BigEndian

/-- The two octets of a 16-bit word, most significant first. -/
def be16 (value : UInt16) : Bytes :=
  [UInt8.ofNat (value.toNat / 256), UInt8.ofNat (value.toNat % 256)]

/-- The four octets of a 32-bit word, most significant first. -/
def be32 (value : UInt32) : Bytes :=
  [UInt8.ofNat (value.toNat / 16777216), UInt8.ofNat (value.toNat / 65536 % 256),
    UInt8.ofNat (value.toNat / 256 % 256), UInt8.ofNat (value.toNat % 256)]

/-- The 16-bit word with the given octets. -/
def ofBe16 (high low : UInt8) : UInt16 :=
  UInt16.ofNat (high.toNat * 256 + low.toNat)

/-- The 32-bit word with the given octets. -/
def ofBe32 (first second third fourth : UInt8) : UInt32 :=
  UInt32.ofNat (first.toNat * 16777216 + second.toNat * 65536 + third.toNat * 256 + fourth.toNat)

@[simp] theorem length_be16 (value : UInt16) : (be16 value).length = 2 := rfl

@[simp] theorem length_be32 (value : UInt32) : (be32 value).length = 4 := rfl

theorem ofBe16_be16 (value : UInt16) :
    ofBe16 (UInt8.ofNat (value.toNat / 256)) (UInt8.ofNat (value.toNat % 256)) = value := by
  apply UInt16.toNat_inj.mp
  have bound := value.toNat_lt
  simp only [ofBe16, UInt16.toNat_ofNat', UInt8.toNat_ofNat']
  omega

theorem be16_ofBe16 (high low : UInt8) : be16 (ofBe16 high low) = [high, low] := by
  have highBound := high.toNat_lt
  have lowBound := low.toNat_lt
  have word : (ofBe16 high low).toNat = high.toNat * 256 + low.toNat := by
    rw [ofBe16, UInt16.toNat_ofNat']
    omega
  rw [be16, word, show (high.toNat * 256 + low.toNat) / 256 = high.toNat by omega,
    show (high.toNat * 256 + low.toNat) % 256 = low.toNat by omega, UInt8.ofNat_toNat,
    UInt8.ofNat_toNat]

theorem ofBe32_be32 (value : UInt32) :
    ofBe32 (UInt8.ofNat (value.toNat / 16777216)) (UInt8.ofNat (value.toNat / 65536 % 256))
      (UInt8.ofNat (value.toNat / 256 % 256)) (UInt8.ofNat (value.toNat % 256)) = value := by
  apply UInt32.toNat_inj.mp
  have bound := value.toNat_lt
  simp only [ofBe32, UInt32.toNat_ofNat', UInt8.toNat_ofNat']
  omega

theorem be32_ofBe32 (first second third fourth : UInt8) :
    be32 (ofBe32 first second third fourth) = [first, second, third, fourth] := by
  have firstBound := first.toNat_lt
  have secondBound := second.toNat_lt
  have thirdBound := third.toNat_lt
  have fourthBound := fourth.toNat_lt
  have word : (ofBe32 first second third fourth).toNat = first.toNat * 16777216 +
      second.toNat * 65536 + third.toNat * 256 + fourth.toNat := by
    rw [ofBe32, UInt32.toNat_ofNat']
    omega
  have byte : ∀ (octet : UInt8) {value : Nat}, value = octet.toNat → UInt8.ofNat value = octet := by
    rintro octet value rfl
    exact UInt8.ofNat_toNat
  rw [be32, word, byte first (by omega), byte second (by omega), byte third (by omega),
    byte fourth (by omega)]

end BigEndian

end RecurseX.Library
