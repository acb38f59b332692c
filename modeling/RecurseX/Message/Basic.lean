import RecurseX.Edns
import RecurseX.Rdata.Basic

/-!
# DNS messages

Header, questions, the three record sections and the OPT pseudo-record, which
the parser takes out of the additional section and the serializer puts back at
its end.
-/

namespace RecurseX

open Library Wire

/-- Upper bound on any section count in a single message. -/
def maxSectionRecords : Nat := 4096

/-- Upper bound on the number of questions in a message. -/
def maxQuestions : Nat := 16

/-- The 16-bit flags word of a DNS header. -/
structure HeaderFlags where
  qr : Bool
  opcode : Opcode
  aa : Bool
  tc : Bool
  rd : Bool
  ra : Bool
  ad : Bool
  cd : Bool
  rcode : Rcode
deriving DecidableEq, Repr

namespace HeaderFlags

/-- Set the bits of `mask` when `flag` holds. -/
def setFlag (v mask : UInt16) (flag : Bool) : UInt16 := if flag then v ||| mask else v

/-- Encode the flags into the 16-bit wire word. -/
def toU16 (self : HeaderFlags) : UInt16 :=
  let v : UInt16 := 0
  let v := setFlag v 0x8000 self.qr
  let v := v ||| ((self.opcode.toU8.toUInt16 &&& 0x0f) <<< 11)
  let v := setFlag v 0x0400 self.aa
  let v := setFlag v 0x0200 self.tc
  let v := setFlag v 0x0100 self.rd
  let v := setFlag v 0x0080 self.ra
  let v := setFlag v 0x0020 self.ad
  let v := setFlag v 0x0010 self.cd
  v ||| (self.rcode.toU8 &&& 0x0f).toUInt16

/-- Decode the flags from the 16-bit wire word. -/
def fromU16 (v : UInt16) : HeaderFlags where
  qr := v &&& 0x8000 != 0
  opcode := ⟨((v >>> 11) &&& 0x0f).toUInt8⟩
  aa := v &&& 0x0400 != 0
  tc := v &&& 0x0200 != 0
  rd := v &&& 0x0100 != 0
  ra := v &&& 0x0080 != 0
  ad := v &&& 0x0020 != 0
  cd := v &&& 0x0010 != 0
  rcode := ⟨(v &&& 0x0f).toUInt8⟩

end HeaderFlags

/-- A question section entry. -/
structure Question where
  qname : Name
  qtype : RrType
  qclass : RrClass
deriving DecidableEq, Repr

/-- A parsed or to-be-serialized DNS message. -/
structure Message where
  id : UInt16
  flags : HeaderFlags
  questions : List Question
  answers : List Record
  authorities : List Record
  /-- Non-OPT additional records. -/
  additionals : List Record
  edns : Option Edns
deriving DecidableEq, Repr

namespace Message

/-- The effective response code, including the EDNS extended bits. -/
def rcode (self : Message) : UInt16 :=
  match self.edns with
  | some edns => edns.extendedRcode self.flags.rcode.toU8
  | none => self.flags.rcode.toU8.toUInt16

/-- The SOA record in the authority section (for negative caching). -/
def authoritySoa (self : Message) : Option Record :=
  self.authorities.find? fun record => record.rrType == .SOA

/-- The question loop. -/
def parseQuestions (buf : Bytes) : (count pos : Nat) → Result (List Question × Nat)
  | 0, pos => .ok ([], pos)
  | count + 1, pos => do
      let (qname, p) ← Name.fromWire buf pos
      let qtype ← (u16At buf p).mapError fun _ => .wire "question truncated"
      let qclass ← (u16At buf (p + 2)).mapError fun _ => .wire "question truncated"
      let (questions, pos) ← parseQuestions buf count (p + 4)
      .ok (⟨qname, ⟨qtype⟩, ⟨qclass⟩⟩ :: questions, pos)

/-- The loop of the answer and of the authority section. -/
def parseRecords (buf : Bytes) : (count pos : Nat) → Result (List Record × Nat)
  | 0, pos => .ok ([], pos)
  | count + 1, pos => do
      let (record, pos) ← Record.parse buf pos
      let (records, pos) ← parseRecords buf count pos
      .ok (record :: records, pos)

/-- The raw options of an OPT record. -/
def optionsData : RData → Bytes
  | .unknown data => data
  | _ => []

/-- The loop of the additional section: OPT goes to `edns`, and only once. -/
def parseAdditionals (buf : Bytes) :
    (count pos : Nat) → (edns : Option Edns) → Result (List Record × Option Edns)
  | 0, _, edns => .ok ([], edns)
  | count + 1, pos, edns => do
      let (record, pos) ← Record.parse buf pos
      if record.rrType = .OPT then do
        failIf (edns.isSome = true) (.wire "multiple OPT records")
        let parsed ← Edns.parse record.rrClass.toU16 record.ttl (optionsData record.rdata)
        parseAdditionals buf count pos (some parsed)
      else do
        let (records, edns) ← parseAdditionals buf count pos edns
        .ok (record :: records, edns)

/-- Parse a message from wire bytes. -/
def parse (buf : Bytes) : Result Message := do
  failIf (buf.length < 12) (.wire "message shorter than header")
  let id ← u16At buf 0
  let flags ← u16At buf 2
  let qd ← u16At buf 4
  let an ← u16At buf 6
  let ns ← u16At buf 8
  let ar ← u16At buf 10
  failIf (qd.toNat > maxQuestions ∨ an.toNat > maxSectionRecords ∨
      ns.toNat > maxSectionRecords ∨ ar.toNat > maxSectionRecords)
    (.wire "section count exceeds limits")
  let (questions, pos) ← parseQuestions buf qd.toNat 12
  let (answers, pos) ← parseRecords buf an.toNat pos
  let (authorities, pos) ← parseRecords buf ns.toNat pos
  let (additionals, edns) ← parseAdditionals buf ar.toNat pos none
  .ok { id, flags := .fromU16 flags, questions, answers, authorities, additionals, edns }

/-- Serialize one question. -/
def writeQuestion (sink : Sink) (question : Question) : Sink :=
  let sink := sink.name question.qname true
  let sink := sink.extend (be16 question.qtype.toU16)
  sink.extend (be16 question.qclass.toU16)

/-- Serialize the records of a section. -/
def writeRecords (sink : Sink) (records : List Record) : Result Sink :=
  records.foldlM (fun sink record => record.toWire sink) sink

/-- Serialize the OPT pseudo-record. -/
def writeEdns (sink : Sink) (edns : Edns) : Sink :=
  let sink := sink.name .root true
  let sink := sink.extend (be16 RrType.OPT.toU16)
  let sink := sink.extend (be16 edns.udpPayloadSize)
  let sink := sink.extend (be32 edns.ttlField)
  let optData := edns.optionsWire
  let sink := sink.extend (be16 (UInt16.ofNat optData.length))
  sink.extend optData

/-- Serialize this message to wire bytes with name compression. The section
counts are placeholders until everything has been written. -/
def toBytes (self : Message) : Result Bytes := do
  let sink : Sink := ⟨[], some .new⟩
  let sink := sink.extend (be16 self.id)
  let sink := sink.extend (be16 self.flags.toU16)
  let countPos := sink.out.length
  let sink := sink.extend [0, 0, 0, 0, 0, 0, 0, 0]
  let sink := self.questions.foldl writeQuestion sink
  let sink ← writeRecords sink self.answers
  let sink ← writeRecords sink self.authorities
  let sink ← writeRecords sink self.additionals
  let sink := match self.edns with
    | some edns => writeEdns sink edns
    | none => sink
  let extra := self.additionals.length + self.edns.isSome.toNat
  let headerTail := be16 (UInt16.ofNat self.questions.length) ++
    be16 (UInt16.ofNat self.answers.length) ++ be16 (UInt16.ofNat self.authorities.length) ++
    be16 (UInt16.ofNat extra)
  failIf (countPos + headerTail.length > sink.out.length)
    (.internal "header count offset out of range")
  .ok (overwrite sink.out countPos headerTail)

end Message

end RecurseX
