import RecurseX.Wire

/-!
# Wire constants

Record types, classes, opcodes, response codes and DNSSEC numbers. Each is a
number on the wire, so unknown values are values like any other.
-/

namespace RecurseX

/-- A DNS resource-record type. -/
structure RrType where
  toU16 : UInt16
deriving DecidableEq, Repr

namespace RrType

def A : RrType := ⟨1⟩
def NS : RrType := ⟨2⟩
def CNAME : RrType := ⟨5⟩
def SOA : RrType := ⟨6⟩
def PTR : RrType := ⟨12⟩
def MX : RrType := ⟨15⟩
def TXT : RrType := ⟨16⟩
def SIG : RrType := ⟨24⟩
def AAAA : RrType := ⟨28⟩
def SRV : RrType := ⟨33⟩
def NAPTR : RrType := ⟨35⟩
def DNAME : RrType := ⟨39⟩
def OPT : RrType := ⟨41⟩
def DS : RrType := ⟨43⟩
def RRSIG : RrType := ⟨46⟩
def NSEC : RrType := ⟨47⟩
def DNSKEY : RrType := ⟨48⟩
def NSEC3 : RrType := ⟨50⟩
def NSEC3PARAM : RrType := ⟨51⟩
def TLSA : RrType := ⟨52⟩
def SMIMEA : RrType := ⟨53⟩
def CDS : RrType := ⟨59⟩
def CDNSKEY : RrType := ⟨60⟩
def SVCB : RrType := ⟨64⟩
def HTTPS : RrType := ⟨65⟩
def IXFR : RrType := ⟨251⟩
def AXFR : RrType := ⟨252⟩
def ANY : RrType := ⟨255⟩
def CAA : RrType := ⟨257⟩

end RrType

/-- A DNS class. -/
structure RrClass where
  toU16 : UInt16
deriving DecidableEq, Repr

/-- Internet class. -/
def RrClass.IN : RrClass := ⟨1⟩

/-- A DNS opcode. -/
structure Opcode where
  toU8 : UInt8
deriving DecidableEq, Repr

/-- Standard query. -/
def Opcode.QUERY : Opcode := ⟨0⟩

/-- A DNS response code. -/
structure Rcode where
  toU8 : UInt8
deriving DecidableEq, Repr

namespace Rcode

def NOERROR : Rcode := ⟨0⟩
def FORMERR : Rcode := ⟨1⟩
def SERVFAIL : Rcode := ⟨2⟩
def NXDOMAIN : Rcode := ⟨3⟩
def NOTIMP : Rcode := ⟨4⟩
def REFUSED : Rcode := ⟨5⟩

/-- Whether this code marks a name that does not exist. -/
def isNxdomain (self : Rcode) : Bool := self.toU8 == 3

/-- Whether this is a server-side failure code. -/
def isFailure (self : Rcode) : Bool := [1, 2, 4, 5, 9, 10].contains self.toU8

/-- The code as text. -/
def display (self : Rcode) : String :=
  match self.toU8 with
  | 0 => "NOERROR"
  | 1 => "FORMERR"
  | 2 => "SERVFAIL"
  | 3 => "NXDOMAIN"
  | 4 => "NOTIMP"
  | 5 => "REFUSED"
  | 6 => "YXDOMAIN"
  | 7 => "YXRRSET"
  | 8 => "NXRRSET"
  | 9 => "NOTAUTH"
  | 10 => "NOTZONE"
  | code => "RCODE" ++ toString code

end Rcode

/-- A DNSSEC algorithm number. -/
structure DnssecAlgorithm where
  toU8 : UInt8
deriving DecidableEq, Repr

namespace DnssecAlgorithm

def RSAMD5 : DnssecAlgorithm := ⟨1⟩
def DSA : DnssecAlgorithm := ⟨3⟩
def RSASHA1 : DnssecAlgorithm := ⟨5⟩
def RSASHA1NSEC3SHA1 : DnssecAlgorithm := ⟨7⟩
def RSASHA256 : DnssecAlgorithm := ⟨8⟩

end DnssecAlgorithm

/-- A DNSSEC digest type for DS records. -/
structure DsDigestType where
  toU8 : UInt8
deriving DecidableEq, Repr

/-- SHA-256 digest. -/
def DsDigestType.SHA256 : DsDigestType := ⟨2⟩

end RecurseX
