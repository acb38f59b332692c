import RecurseX.Library.PrefixedList
import RecurseX.Wire

/-!
# Domain names

A `Name` is stored in its canonical wire form: lower-cased length-prefixed
labels, never compressed, closed by the root label. The type itself promises
nothing about its octets; the constructors do (`RecurseX.Name.Decode`).
-/

namespace RecurseX

open Library Wire

/-- Maximum wire size of a domain name. -/
def maxNameLen : Nat := 255

/-- Maximum number of labels in a name. -/
def maxLabels : Nat := 127

/-- Maximum compression-pointer hops a single name may take. -/
def maxPointerHops : Nat := maxLabels + 1

/-- ASCII lower case of one octet. -/
def asciiLower (octet : UInt8) : UInt8 :=
  if 0x41 ≤ octet ∧ octet ≤ 0x5a then octet + 0x20 else octet

/-- A DNS domain name in canonical wire form. -/
structure Name where
  bytes : Bytes
deriving DecidableEq, Repr

namespace Name

/-- The root name `.`. -/
def root : Name := ⟨[0]⟩

/-- Whether this is the root name. -/
def isRoot (name : Name) : Bool := name.bytes.length = 1 ∧ name.bytes.head? = some 0

/-- The length of the uncompressed wire form. -/
def wireLen (name : Name) : Nat := name.bytes.length

/-- The label walk over a suffix of the stored octets. Every label takes at
least two octets, so the octet count is enough fuel. -/
def labelIter : Nat → Bytes → List Bytes
  | 0, _ => []
  | _ + 1, [] => []
  | fuel + 1, len :: tail =>
      -- A zero length is the root; a length that does not fit ends the walk.
      if len.toNat = 0 ∨ tail.length < len.toNat then []
      else tail.take len.toNat :: labelIter fuel (tail.drop len.toNat)

/-- The individual labels, left to right, excluding the terminal root. -/
def labels (name : Name) : List Bytes := labelIter name.bytes.length name.bytes

/-- The number of labels (the root counts as zero labels). -/
def labelCount (name : Name) : Nat := name.labels.length

/-- The parent name: drop the left-most label. -/
def parent (name : Name) : Option Name :=
  if name.bytes.length = 1 then none
  else match name.bytes with
    | [] => none
    | first :: _ =>
        if 1 + first.toNat ≤ name.bytes.length then
          some ⟨name.bytes.drop (1 + first.toNat)⟩
        else none

/-- Whether `self` is a subdomain of (or equal to) `other`. -/
def isSubdomainOf (self other : Name) : Bool := other.bytes.isSuffixOf self.bytes

/-- Whether `self` is a strict subdomain of `other`. -/
def isStrictSubdomainOf (self other : Name) : Bool :=
  self != other && self.isSubdomainOf other

/-- Write the uncompressed canonical wire form to `out`. -/
def writeWire (name : Name) (out : Bytes) : Bytes := out ++ name.bytes

/-- Iterations the name walk can need: each one takes a label, takes a hop, or
is the last. -/
def walkFuel : Nat := maxLabels + maxPointerHops + 2

/-- The decoder's loop. `lens` and `labelBytes` are the recorded lengths and
the pooled, lower-cased label octets; `stop` is the position just past the
name at the top level, frozen by the first jump. -/
def fromWireLoop (buf : Bytes) : (fuel p stop : Nat) → (jumped : Bool) →
    (hops total : Nat) → (lens labelBytes : Bytes) → Result (Bytes × Bytes × Nat)
  | 0, _, _, _, _, _, _, _ => .error (.internal "name walk did not terminate")
  | fuel + 1, p, stop, jumped, hops, total, lens, labelBytes => do
      let octet ← (byteAt buf p).mapError fun _ => .wire "truncated name"
      let len := octet.toNat
      if len &&& 0xc0 = 0x00 then
        if len = 0 then
          .ok (lens, labelBytes, if jumped then stop else p + 1)
        else do
          failIf (len > 63) (.wire "label longer than 63 octets")
          let label ← (sliceAt buf (p + 1) len).mapError fun _ => .wire "truncated label"
          failIf (total + (1 + len) > maxNameLen) (.wire "name exceeds 255 octets")
          failIf (lens.length ≥ maxLabels) (.wire "too many labels")
          fromWireLoop buf fuel (p + (1 + len)) stop jumped hops (total + (1 + len))
            (lens ++ [UInt8.ofNat len]) (labelBytes ++ label.map asciiLower)
      else if len &&& 0xc0 = 0xc0 then do
        let second ← (byteAt buf (p + 1)).mapError fun _ =>
          .wire "truncated compression pointer"
        let off := ((len &&& 0x3f) <<< 8) ||| second.toNat
        failIf (off ≥ buf.length) (.wire "compression pointer out of range")
        failIf (hops + 1 > maxPointerHops) (.wire "compression pointer loop")
        fromWireLoop buf fuel off (if jumped then stop else p + 2) true (hops + 1) total
          lens labelBytes
      else
        .error (.wire "unsupported label type (EDNS label types are not accepted)")

theorem fromWireLoop_zero (buf : Bytes) (p stop : Nat) (jumped : Bool) (hops total : Nat)
    (lens labelBytes : Bytes) : fromWireLoop buf 0 p stop jumped hops total lens labelBytes =
      .error (.internal "name walk did not terminate") := by
  rw [fromWireLoop]

/-- Reassemble `[len][label]…` from the recorded lengths and the byte pool. -/
def reassemble : (lens rest out : Bytes) → Result Bytes
  | [], _, out => .ok out
  | len :: lens, rest, out =>
      if len.toNat ≤ rest.length then
        reassemble lens (rest.drop len.toNat) (out ++ len :: rest.take len.toNat)
      else .error (.internal "label lengths disagree with the byte pool")

/-- Parse a (possibly compressed) name from `buf` starting at `pos`. Returns
the canonical name and the position just past the encoded name. -/
def fromWire (buf : Bytes) (pos : Nat) : Result (Name × Nat) := do
  failIf (pos ≥ buf.length) (.wire "truncated name (position out of bounds)")
  let (lens, labelBytes, stop) ← fromWireLoop buf walkFuel pos pos false 0 1 [] []
  failIf (lens.length ≥ maxLabels) (.wire "too many labels")
  let out ← reassemble lens labelBytes []
  .ok (⟨out ++ [0]⟩, stop)

end Name

end RecurseX
