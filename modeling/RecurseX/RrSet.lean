import Mathlib.Algebra.GroupWithZero.Nat
import RecurseX.Rdata.Basic

/-!
# RRsets

The unit of caching: all records of one type at one owner name. Two sets hold
the same data when their content fingerprints agree; the TTL is not content.
-/

namespace RecurseX

open Library

/-- A resource-record set. -/
structure RrSet where
  name : Name
  rrType : RrType
  rrClass : RrClass
  /-- The data records (excludes RRSIG). -/
  records : List Record
  rrsigs : List Record
  ttl : UInt32
  validated : Bool
deriving DecidableEq, Repr

/-- Whether an RRSIG covers a type. -/
def coversType (sig : Record) (rrType : RrType) : Bool :=
  match sig.rdata with
  | .rrsig typeCovered _ _ _ _ _ _ _ _ => typeCovered == rrType
  | _ => false

/-- The octets of a payload without compression. -/
def RData.wire (rdata : RData) : Bytes := (rdata.toWire ⟨[], none⟩).out

/-- A record with the TTL field zeroed. -/
def recordWireWithoutTtl (record : Record) : Bytes :=
  record.name.bytes ++ be16 record.rrType.toU16 ++ be16 record.rrClass.toU16 ++ [0, 0, 0, 0] ++
    be16 (UInt16.ofNat record.rdata.wire.length) ++ record.rdata.wire

/-- Mix octets into a running FNV-1a hash. -/
def fnv1aCombine (acc : UInt64) (bytes : Bytes) : UInt64 :=
  bytes.foldl (fun hash octet => (hash ^^^ octet.toUInt64) * 0x100000001b3) acc

namespace RrSet

/-- A new, empty set with the given TTL. -/
def new (name : Name) (rrType : RrType) (rrClass : RrClass) (ttl : UInt32) : RrSet :=
  ⟨name, rrType, rrClass, [], [], ttl, false⟩

/-- Add a data record and refresh the effective TTL to the minimum. -/
def addRecord (self : RrSet) (record : Record) : RrSet :=
  { self with ttl := min self.ttl record.ttl, records := self.records ++ [record] }

/-- Add an RRSIG record. -/
def addRrsig (self : RrSet) (record : Record) : RrSet :=
  { self with rrsigs := self.rrsigs ++ [record] }

/-- The content fingerprint: a hash over the sorted wire forms. -/
def fingerprint (self : RrSet) : UInt64 :=
  let items := (self.records.map recordWireWithoutTtl).mergeSort fun left right =>
    (compare left right).isLE
  items.foldl fnv1aCombine 0xcbf29ce484222325

/-- Whether two sets have identical data records. -/
def sameData (self other : RrSet) : Bool :=
  if self.records.length ≠ other.records.length then false
  else self.fingerprint == other.fingerprint

/-- The CNAME target, if this is a CNAME set. -/
def cnameTarget (self : RrSet) : Option Name :=
  self.records.findSome? fun record =>
    match record.rdata with
    | .cname name => some name
    | _ => none

/-- Build a set from records of a single name, type and class. A CNAME or DNAME
set with more than one record is refused. -/
def fromRecords (records : List Record) (maxTtlCap : UInt32) : Result RrSet :=
  match records with
  | [] => .error (.internal "empty RRset construction")
  | first :: _ => do
      let ttl := records.foldl (fun ttl record => min ttl record.ttl) 0xffffffff
      let rrsigs := records.filter fun record => record.rrType == .RRSIG
      let data := records.filter fun record => record.rrType != .RRSIG
      let ttl := if ttl = 0xffffffff then 0 else ttl
      failIf ((first.rrType = .CNAME ∨ first.rrType = .DNAME) ∧ data.length > 1)
        (.wire ((if first.rrType = .CNAME then "CNAME" else "DNAME") ++ " RRset has " ++
          toString data.length ++ " records; RFC 2181 §10.1 allows exactly one"))
      .ok ⟨first.name, first.rrType, first.rrClass, data, rrsigs, min ttl maxTtlCap, false⟩

/-- A set that was built has the records it was built from, and one alias only. -/
theorem fromRecords_records {records : List Record} {maxTtlCap : UInt32} {set : RrSet}
    (built : fromRecords records maxTtlCap = .ok set)
    (data : ∀ record ∈ records, record.rrType ≠ .RRSIG) :
    set.records = records ∧ records ≠ [] ∧
      ((∀ record ∈ records, record.rrType = .CNAME) → records.length ≤ 1) := by
  have kept : (records.filter fun record => record.rrType != .RRSIG) = records :=
    List.filter_eq_self.mpr fun record member => by simpa using data record member
  unfold fromRecords at built
  split at built
  · cases built
  · rename_i first rest
    dsimp only at built
    rw [kept] at built
    obtain ⟨_, single, built⟩ := bind_eq_ok.mp built
    rw [failIf_eq_ok] at single
    obtain rfl := Except.ok.inj built
    refine ⟨rfl, List.cons_ne_nil _ _, fun aliases => ?_⟩
    by_contra several
    exact single ⟨.inl (aliases first List.mem_cons_self), Nat.lt_of_not_le several⟩

/-- The estimated footprint in bytes. -/
def estimatedBytes (self : RrSet) : Nat :=
  self.name.wireLen + 24 +
    (self.records.map fun record => record.name.wireLen + 40 + record.rdata.wire.length).sum +
    (self.rrsigs.map fun record => record.name.wireLen + 40 + record.rdata.wire.length).sum

end RrSet

end RecurseX
