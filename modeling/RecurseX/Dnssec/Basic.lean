import RecurseX.Cache.Key
import RecurseX.Library.Grouping
import RecurseX.Library.RankedMap
import RecurseX.RrSet

/-!
# DNSSEC validation

Signatures, the keys that make them and the DS records that name those keys. The
digest and the RSA check are parameters, and so is what the resolver finds when
the validation asks it for keys and DS records.
-/

namespace RecurseX

open Library Std

/-- The digest and the signature check. -/
structure Crypto where
  sha256 : Bytes → Octets 32
  verifyPkcs1v15Sha256 : (publicKey : Bytes) → (digest : Octets 32) → (signature : Bytes) → Bool

/-- The answer records the resolver finds for a name and type; `none` is a failed
resolution. -/
abbrev Fetch := Name → RrType → Option (List Record)

/-- The validation outcome for a set of records. -/
inductive Verdict where
  /-- The chain validated: at least one RRSIG verified, anchored in a DS. -/
  | secure
  /-- No trust anchor applies. -/
  | insecure
  /-- A signature failed verification. -/
  | bogus
  /-- Could not determine (missing keys or anchors). -/
  | indeterminate
deriving DecidableEq, Repr

/-! ## Keys -/

/-- The sum of the octets as big-endian words; `odd` is the parity of the first. -/
def keyTagSum : Bool → Bytes → UInt32
  | _, [] => 0
  | true, octet :: rest => octet.toUInt32 + keyTagSum false rest
  | false, octet :: rest => (octet.toUInt32 <<< 8) + keyTagSum true rest

/-- The key tag of a DNSKEY. -/
def keyTag (flags : UInt16) (protocol : UInt8) (algorithm : UInt8) (publicKey : Bytes) : UInt16 :=
  let ac := keyTagSum false (be16 flags ++ protocol :: algorithm :: publicKey)
  let ac := ac + ((ac >>> 16) &&& 0xffff)
  (ac &&& 0xffff).toUInt16

/-- Whether a DNSKEY record matches a DS record. -/
def dnskeyMatchesDs (crypto : Crypto) (dnskey ds : Record) : Bool :=
  match dnskey.rdata, ds.rdata with
  | .dnskey flags protocol algorithm publicKey, .ds tag dsAlgorithm digestType digest =>
      if algorithm ≠ dsAlgorithm then false
      else if keyTag flags protocol algorithm.toU8 publicKey ≠ tag then false
      else if digestType = .SHA256 then
        (crypto.sha256 (dnskey.name.writeWire [] ++ be16 flags ++
          protocol :: algorithm.toU8 :: publicKey)).val == digest
      else false
  | _, _ => false

/-! ## Signatures -/

/-- The RRSIG payload without its signature field. -/
def rrsigRdataWithoutSignature : RData → Option Bytes
  | .rrsig typeCovered algorithm labels originalTtl expiration inception keyTag signer _ =>
      some (be16 typeCovered.toU16 ++ algorithm.toU8 :: labels :: be32 originalTtl ++
        be32 expiration ++ be32 inception ++ be16 keyTag ++ signer.bytes)
  | _ => none

/-- One record of the canonical form. -/
def canonicalRecord (originalTtl : UInt32) (record : Record) : Bytes :=
  record.name.bytes ++ be16 record.rrType.toU16 ++ be16 record.rrClass.toU16 ++
    be32 originalTtl ++ be16 (UInt16.ofNat record.rdata.wire.length) ++ record.rdata.wire

/-- The canonical form of the covered records, sorted by octets. -/
def canonicalRrset (records : List Record) (originalTtl : UInt32) : Bytes :=
  ((records.map (canonicalRecord originalTtl)).mergeSort fun left right =>
    (compare left right).isLE).flatten

/-- Verify one RRSIG over a set of data records with a DNSKEY. An error says that
the signature cannot be judged here. -/
def verifyRrsig (crypto : Crypto) (dnskey rrsig : Record) (records : List Record)
    (nowSecs : UInt32) : Except String Bool :=
  match rrsig.rdata, dnskey.rdata with
  | .rrsig _ algorithm labels originalTtl expiration inception sigKeyTag _ signature,
      .dnskey flags _ keyAlgorithm publicKey =>
      if algorithm ≠ keyAlgorithm then .ok false
      else if nowSecs < inception ∨ expiration < nowSecs then .ok false
      -- The labels field has to match the owner of the signature.
      else if labels ≠ UInt8.ofNat rrsig.name.labelCount then .ok false
      else if keyTag flags 3 keyAlgorithm.toU8 publicKey ≠ sigKeyTag then .ok false
      else if algorithm = .RSASHA256 then
        match rrsigRdataWithoutSignature rrsig.rdata with
        | none => .error "rrsig"
        | some rrsigRdata =>
            let digest := crypto.sha256 (rrsigRdata ++ canonicalRrset records originalTtl)
            .ok (crypto.verifyPkcs1v15Sha256 publicKey digest signature)
      else if algorithm = .RSAMD5 ∨ algorithm = .RSASHA1 ∨ algorithm = .RSASHA1NSEC3SHA1 ∨
          algorithm = .DSA then .error "deprecated DNSSEC algorithm"
      else .error "unsupported DNSSEC algorithm"
  | .rrsig .., _ => .error "dnskey rdata"
  | _, _ => .error "rrsig rdata"

/-- The RRSIG records that cover `rrType`. -/
def rrsigsFor (rrsigs : List Record) (rrType : RrType) : List Record :=
  rrsigs.filter fun sig => coversType sig rrType

/-- The signer name of an RRSIG. -/
def rrsigSigner (rrsig : Record) : Option Name :=
  match rrsig.rdata with
  | .rrsig _ _ _ _ _ _ _ signer _ => some signer
  | _ => none

/-! ## RRsets -/

/-- One attempt of `validateRrset`: `none` is a signature that verified, the flag
says whether any was judged. -/
def tryKey (crypto : Crypto) (records : List Record) (nowSecs : UInt32) (rrsig : Record)
    (attempted : Bool) (key : Record) : Option Bool :=
  match verifyRrsig crypto key rrsig records nowSecs with
  | .ok true => none
  | .ok false => some true
  | .error _ => some attempted

/-- Try one signature with all keys. -/
def tryRrsig (crypto : Crypto) (records : List Record) (nowSecs : UInt32) (keys : List Record)
    (attempted : Bool) (rrsig : Record) : Option Bool :=
  match rrsig.rdata with
  | .rrsig .. => keys.foldlM (tryKey crypto records nowSecs rrsig) attempted
  | _ => some attempted

/-- Validate a set of records against the RRSIGs that cover them. -/
def validateRrset (crypto : Crypto) (records rrsigs dnskeyRecords : List Record)
    (nowSecs : UInt32) : Verdict :=
  if records = [] then .indeterminate
  else if rrsigs = [] then if dnskeyRecords = [] then .insecure else .bogus
  else match rrsigs.foldlM (tryRrsig crypto records nowSecs dnskeyRecords) false with
    | none => .secure
    | some attempted => if attempted then .bogus else .indeterminate

/-- Whether a signature over `records` verifies with this one key. -/
def verifyRrsetQuietly (crypto : Crypto) (records rrsigs : List Record) (key : Record)
    (nowSecs : UInt32) : Bool :=
  rrsigs.any fun rrsig =>
    match verifyRrsig crypto key rrsig records nowSecs with
    | .ok true => true
    | _ => false

/-- Whether a DS record for the signer matches the key. -/
def keyIsAnchored (crypto : Crypto) (fetch : Fetch) (signer : Name) (key : Record) : Bool :=
  match fetch signer .DS with
  | some answers =>
      (answers.filter fun record => record.rrType == .DS && record.name == signer).any fun ds =>
        dnskeyMatchesDs crypto key ds
  | none => false

/-- The DNSKEY records of a zone among the records fetched for it. -/
def zoneKeys (signer : Name) (answers : List Record) : List Record :=
  answers.filter fun record => record.rrType == .DNSKEY && record.name == signer

/-- Validate one group with the keys of its first signature's signer. -/
def validateGroup (crypto : Crypto) (fetch : Fetch) (records rrsigs : List Record)
    (nowSecs : UInt32) : Verdict :=
  match rrsigs.head? with
  | none => .indeterminate
  | some first =>
      match rrsigSigner first with
      | none => .indeterminate
      | some signer =>
          match fetch signer .DNSKEY with
          | none => .indeterminate
          | some answers =>
              let keys := zoneKeys signer answers
              if keys = [] then .indeterminate
              else if keys.any fun key => verifyRrsetQuietly crypto records rrsigs key nowSecs &&
                  keyIsAnchored crypto fetch signer key then .secure
              else validateRrset crypto records rrsigs keys nowSecs

/-! ## Sections -/

/-- The records of a section by owner and type. -/
def sectionGroups (records : List Record) : TreeMap (Name × RrType) (List Record) rankOrder :=
  groupBy rankOrder (fun record => (record.name, record.rrType)) records

/-- The RRSIGs a group is checked against. -/
def coveredBy (rrsigs : List Record) (owner : Name) (rrType : RrType) : List Record :=
  (rrsigsFor rrsigs rrType).filter fun sig => rrsigSigner sig == some owner || sig.name == owner

/-- The verdict on one group; `none` is an unsigned group. -/
def groupVerdict (crypto : Crypto) (fetch : Fetch) (rrsigs : List Record) (nowSecs : UInt32)
    (group : (Name × RrType) × List Record) : Option Verdict :=
  let covered := coveredBy rrsigs group.1.1 group.1.2
  if covered = [] then none else some (validateGroup crypto fetch group.2 covered nowSecs)

/-- What the walk over the groups has counted. -/
structure SectionTally where
  signedGroups : Nat
  authenticated : Nat
  allSecure : Bool
  worst : Verdict
deriving DecidableEq, Repr

/-- Count one group. -/
def SectionTally.add (tally : SectionTally) : Option Verdict → SectionTally
  | none => { tally with allSecure := false }
  | some verdict =>
      let tally := { tally with signedGroups := tally.signedGroups + 1 }
      match verdict with
      | .secure => { tally with authenticated := tally.authenticated + 1 }
      | .bogus => { tally with allSecure := false, worst := .bogus }
      | .indeterminate => { tally with
          allSecure := false
          worst := if tally.worst = .insecure then .indeterminate else tally.worst }
      | .insecure => { tally with allSecure := false }

/-- Verify every group of a section: the verdict, the groups examined and the
groups authenticated. -/
def verifySection (crypto : Crypto) (fetch : Fetch) (records rrsigs : List Record)
    (nowSecs : UInt32) : Verdict × Nat × Nat :=
  let groups := (sectionGroups records).toList
  if groups = [] then (.insecure, 0, 0)
  else
    let tally := (groups.map (groupVerdict crypto fetch rrsigs nowSecs)).foldl SectionTally.add
      ⟨0, 0, true, .insecure⟩
    let verdict :=
      if 0 < tally.signedGroups ∧ tally.allSecure = true then .secure
      else if tally.worst = .bogus then .bogus
      else if tally.signedGroups = 0 then .insecure
      else tally.worst
    (verdict, tally.signedGroups, tally.authenticated)

end RecurseX
