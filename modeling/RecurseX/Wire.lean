import RecurseX.Library.Fallible
import RecurseX.Library.Located

/-!
# Errors and bounds-checked reads

The error type of the resolver, and the checked reads every wire decoder goes
through: an out-of-range read is an `Except.error`, never a partial value.
-/

namespace RecurseX

open Library

/-- Stable error categories. -/
inductive ErrorKind where
  | wire
  | truncated
  | timeout
  | io
  | transport
  | servfail
  | refused
  | noData
  | nxDomain
  | dnssec
  | rateLimited
  | policy
  | noUpstream
  | config
  | canceled
  | internal
  | unsupported
deriving DecidableEq, Repr

/-- A resolver error: a stable category and a human-readable context. -/
structure Error where
  kind : ErrorKind
  msg : String
deriving DecidableEq, Repr

namespace Error

/-- A malformed-wire error. -/
def wire (msg : String) : Error := ⟨.wire, msg⟩

/-- An internal invariant violation. -/
def internal (msg : String) : Error := ⟨.internal, msg⟩

/-- A configuration error. -/
def config (msg : String) : Error := ⟨.config, msg⟩

/-- A transport error. -/
def transport (msg : String) : Error := ⟨.transport, msg⟩

/-- An input or output error. -/
def io (msg : String) : Error := ⟨.io, msg⟩

/-- The error reports a broken internal invariant. -/
def IsInternal (error : Error) : Prop := error.kind = .internal

theorem not_isInternal_wire (msg : String) : ¬ (wire msg).IsInternal := by
  simp [IsInternal, wire]

end Error

/-- Result of a resolver operation. -/
abbrev Result := Except Error

namespace Wire

/-- The error every out-of-range read returns. -/
def outOfRange : Error := .wire "read past the end of the message"

/-- The byte at `position`. -/
def byteAt (buf : Bytes) (position : Nat) : Result UInt8 :=
  match buf[position]? with
  | some byte => .ok byte
  | none => .error outOfRange

/-- Exactly `length` bytes at `position`. -/
def sliceAt (buf : Bytes) (position length : Nat) : Result Bytes :=
  if position + length ≤ buf.length then .ok ((buf.drop position).take length)
  else .error outOfRange

/-- The big-endian `u16` at `position`. -/
def u16At (buf : Bytes) (position : Nat) : Result UInt16 := do
  match ← sliceAt buf position 2 with
  | [high, low] => .ok (ofBe16 high low)
  | _ => .error (.internal "wire read returned the wrong length")

/-- The big-endian `u32` at `position`. -/
def u32At (buf : Bytes) (position : Nat) : Result UInt32 := do
  match ← sliceAt buf position 4 with
  | [first, second, third, fourth] => .ok (ofBe32 first second third fourth)
  | _ => .error (.internal "wire read returned the wrong length")

/-- Exactly `count` bytes at `position`, as an array. -/
def arrayAt (count : Nat) (buf : Bytes) (position : Nat) : Result (Octets count) := do
  let bytes ← sliceAt buf position count
  if exact : bytes.length = count then .ok ⟨bytes, exact⟩
  else .error (.internal "wire read returned the wrong length")

/-- Everything from `position` to the end; the empty tail is in range. -/
def restAt (buf : Bytes) (position : Nat) : Result Bytes :=
  if position ≤ buf.length then .ok (buf.drop position) else .error outOfRange

/-- At most `limit` leading bytes. -/
def capped (bytes : Bytes) (limit : Nat) : Bytes := bytes.take limit

variable {buf segment : Bytes} {position length : Nat}

theorem byteAt_eq_ok {byte : UInt8} :
    byteAt buf position = .ok byte ↔ buf[position]? = some byte := by
  unfold byteAt
  split <;> simp_all

theorem sliceAt_eq_ok :
    sliceAt buf position length = .ok segment ↔
      Located buf position segment ∧ segment.length = length := by
  unfold sliceAt
  constructor
  · intro read
    split at read
    · rename_i within
      cases read
      refine ⟨⟨by omega, List.take_prefix _ _⟩, ?_⟩
      simp only [List.length_take, List.length_drop]
      omega
    · cases read
  · rintro ⟨located, rfl⟩
    rw [if_pos located.bound, located.slice]

theorem sliceAt_located (located : Located buf position segment) :
    sliceAt buf position segment.length = .ok segment :=
  Iff.mpr sliceAt_eq_ok ⟨located, rfl⟩

theorem byteAt_located {byte : UInt8} {rest : Bytes}
    (located : Located buf position (byte :: rest)) : byteAt buf position = .ok byte :=
  Iff.mpr byteAt_eq_ok located.head

theorem u16At_eq_ok {value : UInt16} :
    u16At buf position = .ok value ↔ Located buf position (be16 value) := by
  rw [u16At, bind_eq_ok]
  constructor
  · rintro ⟨segment, read, returned⟩
    split at returned
    · cases returned
      rw [be16_ofBe16]
      exact (sliceAt_eq_ok.mp read).1
    · cases returned
  · intro located
    exact ⟨be16 value, sliceAt_located located, by simp [be16, ofBe16_be16]⟩

theorem u16At_located {value : UInt16} (located : Located buf position (be16 value)) :
    u16At buf position = .ok value :=
  Iff.mpr u16At_eq_ok located

theorem u32At_eq_ok {value : UInt32} :
    u32At buf position = .ok value ↔ Located buf position (be32 value) := by
  rw [u32At, bind_eq_ok]
  constructor
  · rintro ⟨segment, read, returned⟩
    split at returned
    · cases returned
      rw [be32_ofBe32]
      exact (sliceAt_eq_ok.mp read).1
    · cases returned
  · intro located
    exact ⟨be32 value, sliceAt_located located, by simp [be32, ofBe32_be32]⟩

theorem u32At_located {value : UInt32} (located : Located buf position (be32 value)) :
    u32At buf position = .ok value :=
  Iff.mpr u32At_eq_ok located

theorem arrayAt_eq_ok {count : Nat} {octets : Octets count} :
    arrayAt count buf position = .ok octets ↔ Located buf position octets.1 := by
  rw [arrayAt, bind_eq_ok]
  constructor
  · rintro ⟨bytes, read, checked⟩
    split at checked
    · cases checked
      exact (sliceAt_eq_ok.mp read).1
    · cases checked
  · intro located
    exact ⟨octets.1, sliceAt_eq_ok.mpr ⟨located, octets.2⟩, by simp [octets.2]⟩

theorem restAt_eq_ok : restAt buf position = .ok segment ↔
    position ≤ buf.length ∧ segment = buf.drop position := by
  unfold restAt
  split
  · rename_i within
    simp [within, eq_comm]
  · rename_i outside
    simp [outside]

/-! ## What the reads do not fail with -/

/-- A refusal that blames the message is not an internal error. -/
theorem upholds_failIf {condition : Prop} [Decidable condition] {msg : String} :
    Upholds Error.IsInternal (fun _ => ¬ condition) (failIf condition (.wire msg)) :=
  .failIf (Error.not_isInternal_wire msg)

/-- Neither is what any error was relabelled to. -/
theorem upholds_mapError {α : Type} {computation : Result α} {returns : α → Prop} {msg : String}
    (returned : ∀ value, computation = .ok value → returns value) :
    Upholds Error.IsInternal returns (computation.mapError fun _ => .wire msg) :=
  .mapError (fun _ => Error.not_isInternal_wire msg) returned

section Avoids

variable {bad : Error → Prop}

theorem avoids_byteAt (other : ¬ bad outOfRange) : Avoids bad (byteAt buf position) := by
  unfold byteAt
  split
  · exact .ok _
  · exact .error other

theorem avoids_sliceAt (other : ¬ bad outOfRange) : Avoids bad (sliceAt buf position length) := by
  unfold sliceAt
  split
  · exact .ok _
  · exact .error other

theorem avoids_restAt (other : ¬ bad outOfRange) : Avoids bad (restAt buf position) := by
  unfold restAt
  split
  · exact .ok _
  · exact .error other

/-- What is cut out has the length asked for: the internal error is never returned. -/
theorem avoids_u16At (other : ¬ bad outOfRange) : Avoids bad (u16At buf position) := by
  refine (avoids_sliceAt other).bind fun octets read => ?_
  obtain ⟨high, low, rfl⟩ := List.length_eq_two.mp (sliceAt_eq_ok.mp read).2
  exact .ok _

theorem avoids_u32At (other : ¬ bad outOfRange) : Avoids bad (u32At buf position) := by
  refine (avoids_sliceAt other).bind fun octets read => ?_
  obtain ⟨first, rest, rfl⟩ := List.exists_cons_of_length_eq_add_one (sliceAt_eq_ok.mp read).2
  obtain ⟨second, third, fourth, rfl⟩ := List.length_eq_three.mp
    (Nat.succ.inj (sliceAt_eq_ok.mp read).2)
  exact .ok _

end Avoids

@[simp] theorem capped_of_le {bytes : Bytes} {limit : Nat} (short : bytes.length ≤ limit) :
    capped bytes limit = bytes :=
  List.take_of_length_le short

end Wire

end RecurseX
