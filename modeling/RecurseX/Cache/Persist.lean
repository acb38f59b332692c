import RecurseX.Cache.Existence
import RecurseX.Rdata.RoundTrip

/-!
# The persistent tier

A snapshot stores an entry flat: names and records in wire form, instants in
whole seconds, the rest as it is. The effective TTL of a set is not stored; a
restored set gets the smallest TTL of its records. `live_entry_restored_iff` says
which live entries come back as they were.
-/

namespace RecurseX

open Library Wire

/-! ## Conversions -/

/-- An instant in whole seconds, cut to 64 bits. -/
def tsToUnix (ts : Ts) : Int := max (-(2 ^ 63)) (min (2 ^ 63 - 1) (ts.tdiv 1000000000))

/-- Seconds as an instant. -/
def unixToTs (unix : Int) : Ts := unix * 1000000000

/-- A record in wire format, or `none` when it cannot be encoded. -/
def recordWire (record : Record) : Option Bytes := (record.toWire ⟨[], none⟩).toOption.map Sink.out

/-- The record a wire form starts with. -/
def parseRecord (wire : Bytes) : Option Record := (Record.parse wire 0).toOption.map Prod.fst

/-- A stored ECS partition. -/
structure EcsDto where
  family : UInt16
  bits : UInt8
  addr : Bytes
deriving DecidableEq, Repr

/-- The payload of a stored entry. -/
inductive KindDto where
  /-- Each element is one full record in wire form. -/
  | positive (records rrsigs : List Bytes)
  | negative (rcode : UInt8) (soa : Option Bytes) (ttlSecs : UInt32)
deriving DecidableEq, Repr

/-- A stored entry. -/
structure EntryDto (Score Stored : Type) where
  /-- Canonical wire name, uncompressed. -/
  name : Bytes
  rrType : UInt16
  rrClass : UInt16
  ecs : Option EcsDto
  /-- 0 = hot, 1 = warm, 2 = cold. -/
  tier : UInt8
  kind : KindDto
  insertedUnix : Int
  expiresUnix : Int
  served : Nat
  lastServedUnix : Int
  stability : Stored
  validated : Bool
  score : Score

/-- How a stability model is stored and restored. -/
structure StabilityCodec (Stability Stored : Type) where
  stabilityToDto : Stability → Stored
  dtoToStability : Stored → Stability

def ecsToDto (ecs : EcsKey) : EcsDto := ⟨ecs.family, ecs.bits, ecs.addr⟩

/-- The effective TTL for a positive entry (min of record TTLs). -/
def KindDto.ttl : KindDto → UInt32
  | .positive records _ => ((records.filterMap parseRecord).map Record.ttl).min?.getD 0
  | .negative _ _ ttlSecs => ttlSecs

def Tier.toU8 : Tier → UInt8
  | .hot => 0
  | .warm => 1
  | .cold => 2

/-- The stored payload of an entry. -/
def kindToDto : EntryKind → Option KindDto
  | .positive rrset => do
      let records ← rrset.records.mapM recordWire
      let rrsigs ← rrset.rrsigs.mapM recordWire
      some (.positive records rrsigs)
  | .negative rcode none ttlSecs => some (.negative rcode.toU8 none ttlSecs)
  | .negative rcode (some soa) ttlSecs => do
      let soa ← recordWire soa
      some (.negative rcode.toU8 (some soa) ttlSecs)

/-- The payload of a restored entry. -/
def dtoToKind (key : CacheKey) (validated : Bool) (kind : KindDto) : Option EntryKind :=
  match kind with
  | .positive records rrsigs =>
      if records.isEmpty then none
      else do
        let data ← records.mapM parseRecord
        let sigs ← rrsigs.mapM parseRecord
        some (.positive ⟨key.name, key.rrType, key.rrClass, data, sigs, kind.ttl, validated⟩)
  | .negative rcode soa ttlSecs => some (.negative ⟨rcode⟩ (soa.bind parseRecord) ttlSecs)

section Entries

variable {Score Stability Stored Inputs : Type} (codec : StabilityCodec Stability Stored)

/-- The stored form of an entry; an entry that cannot be encoded is skipped. -/
def entryToDto (entry : CacheEntry Score Stability) (tier : Tier) :
    Option (EntryDto Score Stored) := do
  let kind ← kindToDto entry.kind
  some
    { name := entry.key.name.bytes
      rrType := entry.key.rrType.toU16
      rrClass := entry.key.rrClass.toU16
      ecs := entry.key.ecs.map ecsToDto
      tier := tier.toU8
      kind := kind
      insertedUnix := tsToUnix entry.inserted
      expiresUnix := tsToUnix entry.expires
      served := entry.served
      lastServedUnix := tsToUnix entry.lastServed
      stability := codec.stabilityToDto entry.stability
      validated := entry.validated
      score := entry.score }

/-- Restore an entry, unless it is neither fresh nor stale-servable. One that has
expired belongs in the cold tier. -/
def dtoToEntry (dto : EntryDto Score Stored) (now : Ts) (staleWindowSecs : UInt32) :
    Option (CacheEntry Score Stability) := do
  let (name, _) ← (Name.fromWire dto.name 0).toOption
  let expires := unixToTs dto.expiresUnix
  if saturatingAdd expires (secondsToTs staleWindowSecs) ≤ now then none
  else
    let key : CacheKey :=
      ⟨name, ⟨dto.rrType⟩, ⟨dto.rrClass⟩, dto.ecs.map fun ecs => ⟨ecs.family, ecs.bits, ecs.addr⟩⟩
    let kind ← dtoToKind key dto.validated dto.kind
    let tier := if dto.tier = 0 then Tier.hot else if dto.tier = 1 then .warm else .cold
    some
      { key := key
        kind := kind
        inserted := unixToTs dto.insertedUnix
        expires := expires
        served := dto.served
        lastServed := unixToTs dto.lastServedUnix
        stability := codec.dtoToStability dto.stability
        validated := dto.validated
        score := dto.score
        tier := if expires ≤ now then .cold else tier
        refreshing := false }

end Entries

/-! ## Records and names come back -/

/-- Without a compressor, what is written does not depend on what the buffer
holds. -/
theorem Sink.putAll_plain (pieces : List Piece) (out : Bytes) :
    Sink.putAll ⟨out, none⟩ pieces = ⟨out ++ (Sink.putAll ⟨[], none⟩ pieces).out, none⟩ := by
  induction pieces generalizing out with
  | nil => simp [Sink.putAll]
  | cons piece pieces inductionHypothesis =>
      obtain ⟨bytes, plain⟩ : ∃ bytes, ∀ out, Sink.put ⟨out, none⟩ piece = ⟨out ++ bytes, none⟩ := by
        cases piece with
        | octets bytes => exact ⟨bytes, fun _ => rfl⟩
        | name name allow =>
            refine ⟨name.bytes, fun out => ?_⟩
            cases allow <;> rfl
      change Sink.putAll (Sink.put ⟨out, none⟩ piece) pieces =
        ⟨out ++ (Sink.putAll (Sink.put ⟨[], none⟩ piece) pieces).out, none⟩
      rw [plain out, plain [], inductionHypothesis (out ++ bytes), inductionHypothesis ([] ++ bytes)]
      simp

/-- A record can be encoded when its payload fits the 16-bit length. -/
theorem exists_recordWire_iff {record : Record} :
    (∃ wire, recordWire record = some wire) ↔ record.rdata.wire.length ≤ 65535 := by
  have written (out : Bytes) : (record.rdata.toWire ⟨out, none⟩).out.length =
      out.length + record.rdata.wire.length := by
    rw [RData.toWire, Sink.putAll_plain, List.length_append, RData.wire, RData.toWire]
  have sink : ((((Sink.mk [] none).name record.name true).extend (be16 record.rrType.toU16)).extend
      (be16 record.rrClass.toU16)).extend (be32 record.ttl) = ⟨record.name.bytes ++
        be16 record.rrType.toU16 ++ be16 record.rrClass.toU16 ++ be32 record.ttl, none⟩ := rfl
  unfold recordWire Record.toWire
  dsimp only
  rw [sink]
  generalize record.name.bytes ++ be16 record.rrType.toU16 ++ be16 record.rrClass.toU16 ++
    be32 record.ttl = header
  have width : (record.rdata.toWire (Sink.extend ⟨header, none⟩ [0, 0])).out.length =
      header.length + 2 + record.rdata.wire.length := by
    rw [Sink.extend, written, List.length_append]
    rfl
  rw [width, show header.length + 2 + record.rdata.wire.length - header.length - 2 =
    record.rdata.wire.length by omega]
  by_cases fits : record.rdata.wire.length ≤ 65535
  · have room : ¬ header.length + 2 > header.length + 2 + record.rdata.wire.length := by omega
    rw [failIf_of_not (by omega), ok_bind, failIf_of_not room, ok_bind]
    exact ⟨fun _ => fits, fun _ => ⟨_, rfl⟩⟩
  · rw [failIf, if_pos (by omega)]
    refine ⟨?_, fun short => absurd short fits⟩
    rintro ⟨wire, written⟩
    cases written

theorem parseRecord_recordWire {record : Record} (wellFormed : record.WellFormed) {wire : Bytes}
    (written : recordWire record = some wire) : parseRecord wire = some record.normalize := by
  unfold recordWire at written
  cases encoded : record.toWire ⟨[], none⟩ with
  | error error =>
      rw [encoded] at written
      cases written
  | ok after =>
      rw [encoded] at written
      obtain rfl : after.out = wire := by simpa [Except.toOption] using written
      obtain ⟨segment, grown, reads⟩ := Record.toWire_appended wellFormed encoded
      have sound : Sink.Sound after.out ⟨[], none⟩ := by
        intro comp present
        cases present
      have located : Located after.out (Sink.mk [] none).out.length segment := by
        rw [grown]
        simpa using Located.intro [] segment []
      have parsed := (reads after.out sound located).1
      rw [parseRecord, show Record.parse after.out 0 = _ from parsed]
      rfl

theorem fromWire_bytes {name : Name} (canonical : name.Canonical) :
    Name.fromWire name.bytes 0 = .ok (name, name.wireLen) := by
  obtain ⟨domain, rfl⟩ := canonical
  have located : Located domain.toName.bytes 0 domain.toName.bytes := by
    simpa using Located.intro [] domain.toName.bytes []
  simpa using domain.fromWire_located located

/-! ## Instants -/

/-- The instant can be stored: its seconds fit 64 bits. -/
def Ts.Storable (ts : Ts) : Prop :=
  -(2 ^ 63) ≤ ts.tdiv 1000000000 ∧ ts.tdiv 1000000000 ≤ 2 ^ 63 - 1

instance (ts : Ts) : Decidable (Ts.Storable ts) := inferInstanceAs (Decidable (_ ∧ _))

/-- A restored instant is off by less than a second, exactly when it can be
stored. -/
theorem unixToTs_tsToUnix_iff (ts : Int) :
    (unixToTs (tsToUnix ts) - ts).natAbs < 1000000000 ↔ Ts.Storable ts := by
  unfold unixToTs tsToUnix Ts.Storable
  have split : ts.tdiv 1000000000 * 1000000000 + ts.tmod 1000000000 = ts := by
    rw [Int.mul_comm]
    exact Int.mul_tdiv_add_tmod ts 1000000000
  have small : (ts.tmod 1000000000).natAbs < 1000000000 := by
    rw [Int.natAbs_tmod]
    exact Nat.mod_lt _ (by decide)
  have positive : 0 ≤ ts → 0 ≤ ts.tmod 1000000000 := Int.tmod_nonneg 1000000000
  have negative : ts ≤ 0 → ts.tmod 1000000000 ≤ 0 := by
    intro below
    have mirrored : 0 ≤ (-ts).tmod 1000000000 := Int.tmod_nonneg 1000000000 (by omega)
    rw [Int.neg_tmod] at mirrored
    omega
  omega

/-- A live entry is dropped as dead only in its last second, and only where
nothing is served stale. -/
theorem dropped_iff {now expires : Int} {staleWindowSecs : UInt32} (live : now < expires)
    (storable : Ts.Storable expires) :
    saturatingAdd (unixToTs (tsToUnix expires)) (secondsToTs staleWindowSecs) ≤ now ↔
      ¬ (staleWindowSecs = 0 → now < expires.tdiv 1000000000 * 1000000000) := by
  have second : tsToUnix expires = expires.tdiv 1000000000 := by
    unfold tsToUnix
    unfold Ts.Storable at storable
    omega
  have close := (unixToTs_tsToUnix_iff expires).mpr storable
  have few : staleWindowSecs.toNat < 2 ^ 32 := staleWindowSecs.toNat_lt
  have none : staleWindowSecs = 0 ↔ staleWindowSecs.toNat = 0 := UInt32.toNat_inj.symm
  unfold Ts.Storable at storable
  rw [second, unixToTs] at close
  rw [second, none]
  change max (-(2 ^ 127)) (min (2 ^ 127 - 1) (expires.tdiv 1000000000 * 1000000000 +
    (staleWindowSecs.toNat : Int) * 1000000000)) ≤ now ↔ _
  omega

/-! ## Payloads -/

/-- The records of a payload. -/
def EntryKind.contents : EntryKind → List Record
  | .positive rrset => rrset.records ++ rrset.rrsigs
  | .negative _ soa _ => soa.toList

/-- The payload that comes back; a set without records does not. -/
def EntryKind.restored (key : CacheKey) (validated : Bool) : EntryKind → Option EntryKind
  | .positive rrset =>
      if rrset.records = [] then none
      else some (.positive ⟨key.name, key.rrType, key.rrClass, rrset.records.map Record.normalize,
        rrset.rrsigs.map Record.normalize, (rrset.records.map Record.ttl).min?.getD 0, validated⟩)
  | .negative rcode soa ttlSecs => some (.negative rcode (soa.map Record.normalize) ttlSecs)

theorem exists_kindToDto_iff {kind : EntryKind} :
    (∃ dto, kindToDto kind = some dto) ↔
      ∀ record ∈ kind.contents, record.rdata.wire.length ≤ 65535 := by
  have encodable (records : List Record) : (∃ wires, records.mapM recordWire = some wires) ↔
      ∀ record ∈ records, record.rdata.wire.length ≤ 65535 := by
    rw [exists_mapM_eq_some]
    exact forall₂_congr fun record _ => exists_recordWire_iff
  cases kind with
  | positive rrset =>
      rw [EntryKind.contents, List.forall_mem_append, ← encodable, ← encodable, kindToDto]
      cases first : rrset.records.mapM recordWire with
      | none => simp
      | some records => cases second : rrset.rrsigs.mapM recordWire <;> simp
  | negative rcode soa ttlSecs =>
      cases soa with
      | none => simp [kindToDto, EntryKind.contents]
      | some soa =>
          rw [EntryKind.contents, Option.toList_some, List.forall_mem_singleton,
            ← exists_recordWire_iff, kindToDto]
          cases written : recordWire soa <;> simp

theorem dtoToKind_kindToDto {kind : EntryKind} {dto : KindDto} {key : CacheKey} {validated : Bool}
    (wellFormed : ∀ record ∈ kind.contents, record.WellFormed)
    (stored : kindToDto kind = some dto) :
    dtoToKind key validated dto = kind.restored key validated := by
  cases kind with
  | positive rrset =>
      rw [EntryKind.contents, List.forall_mem_append] at wellFormed
      obtain ⟨records, first, rest⟩ := Option.bind_eq_some_iff.mp stored
      obtain ⟨rrsigs, second, built⟩ := Option.bind_eq_some_iff.mp rest
      obtain rfl := Option.some.inj built
      have data : records.mapM parseRecord = some (rrset.records.map Record.normalize) :=
        mapM_of_mapM (fun record member _ => parseRecord_recordWire (wellFormed.1 record member))
          first
      have sigs : rrsigs.mapM parseRecord = some (rrset.rrsigs.map Record.normalize) :=
        mapM_of_mapM (fun record member _ => parseRecord_recordWire (wellFormed.2 record member))
          second
      have ttl : (KindDto.positive records rrsigs).ttl =
          (rrset.records.map Record.ttl).min?.getD 0 := by
        rw [KindDto.ttl, filterMap_of_mapM data, List.map_map]
        rfl
      have empty : records.isEmpty = true ↔ rrset.records = [] := by
        rw [List.isEmpty_iff]
        constructor
        · rintro rfl
          simpa using data.symm
        · intro nothing
          rw [nothing] at first
          simpa using first.symm
      unfold dtoToKind EntryKind.restored
      dsimp only
      by_cases nothing : rrset.records = []
      · rw [if_pos (empty.mpr nothing), if_pos nothing]
      · rw [if_neg (empty.not.mpr nothing), if_neg nothing, data, sigs, ttl]
        rfl
  | negative rcode soa ttlSecs =>
      cases soa with
      | none =>
          obtain rfl := Option.some.inj stored
          rfl
      | some soa =>
          obtain ⟨wire, written, built⟩ := Option.bind_eq_some_iff.mp stored
          obtain rfl := Option.some.inj built
          have parsed := parseRecord_recordWire (wellFormed soa (by simp [EntryKind.contents]))
            written
          rw [dtoToKind, Option.bind_some, parsed]
          rfl

/-! ## Entries -/

section Restoring

variable {Score Stability Stored Inputs : Type} {codec : StabilityCodec Stability Stored}
  {entry : CacheEntry Score Stability} {dto : EntryDto Score Stored} {tier : Tier} {now : Ts}
  {staleWindowSecs : UInt32}

/-- The payloads have the same records and signatures, or deny the same. -/
def EntryKind.SameContents : EntryKind → EntryKind → Prop
  | .positive left, .positive right => left.records = right.records ∧ left.rrsigs = right.rrsigs
  | .negative rcode soa _, .negative other record _ => rcode = other ∧ soa = record
  | _, _ => False

/-- The restored entry is the one that was stored, to the second. -/
structure CacheEntry.RestoredAs (entry restored : CacheEntry Score Stability) : Prop where
  key : restored.key = entry.key
  contents : restored.kind.SameContents entry.kind
  ttlSecs : restored.ttlSecs = entry.ttlSecs
  validated : restored.validated = entry.validated
  expires : (restored.expires - entry.expires).natAbs < 1000000000

/-- The record fits its length field, and lists types as a bitmap does: ascending
and once each. -/
def Record.Storable (record : Record) : Prop :=
  record.rdata.wire.length ≤ 65535 ∧ record.rdata.normalize = record.rdata

/-- What an entry needs to come back as it was. -/
structure CacheEntry.Storable (entry : CacheEntry Score Stability) (now : Ts)
    (staleWindowSecs : UInt32) : Prop where
  records : ∀ record ∈ entry.kind.contents, record.Storable
  /-- The effective TTL is the smallest TTL of the records: no cap lowered it. -/
  ttl : ∀ rrset, entry.kind = .positive rrset →
    (rrset.records.map Record.ttl).min? = some rrset.ttl
  expires : Ts.Storable entry.expires
  /-- Where nothing is served stale, the entry is not in its last second. -/
  lasting : staleWindowSecs = 0 → now < entry.expires.tdiv 1000000000 * 1000000000

theorem map_normalize_eq_self_iff {records : List Record} :
    records.map Record.normalize = records ↔
      ∀ record ∈ records, record.rdata.normalize = record.rdata := by
  have pointwise : records.map Record.normalize = records.map id ↔
      ∀ record ∈ records, record.normalize = record := List.map_inj_left
  rw [List.map_id] at pointwise
  rw [pointwise]
  refine forall₂_congr fun record _ => ⟨congrArg Record.rdata, fun same => ?_⟩
  rw [Record.normalize, same]

/-- The TTL of a payload in seconds. -/
def EntryKind.ttlSecs : EntryKind → UInt32
  | .positive rrset => rrset.ttl
  | .negative _ _ ttlSecs => ttlSecs

theorem CacheEntry.ttlSecs_eq (entry : CacheEntry Score Stability) :
    entry.ttlSecs = entry.kind.ttlSecs := by
  unfold CacheEntry.ttlSecs EntryKind.ttlSecs
  rfl

/-- Which payloads come back as they were. -/
theorem EntryKind.restored_same_iff {kind : EntryKind} {key : CacheKey} {validated : Bool} :
    (∃ back, kind.restored key validated = some back ∧ back.SameContents kind ∧
      back.ttlSecs = kind.ttlSecs) ↔
      (∀ record ∈ kind.contents, record.rdata.normalize = record.rdata) ∧
      ∀ rrset, kind = .positive rrset →
        (rrset.records.map Record.ttl).min? = some rrset.ttl := by
  cases kind with
  | positive rrset =>
      rw [EntryKind.contents, List.forall_mem_append, ← map_normalize_eq_self_iff,
        ← map_normalize_eq_self_iff, EntryKind.restored]
      cases smallest : (rrset.records.map Record.ttl).min? with
      | none =>
          rw [if_pos (by simpa using smallest)]
          simp [smallest]
      | some ttl =>
          have nonempty : rrset.records ≠ [] := by
            rintro nothing
            simp [nothing] at smallest
          rw [if_neg nonempty]
          simp [EntryKind.SameContents, EntryKind.ttlSecs, smallest]
  | negative rcode soa ttlSecs =>
      rw [EntryKind.contents, ← map_normalize_eq_self_iff, EntryKind.restored]
      cases soa with
      | none => simp [EntryKind.SameContents, EntryKind.ttlSecs]
      | some soa => simp [EntryKind.SameContents, EntryKind.ttlSecs]

variable (codec tier now) in
/-- An entry as it comes back, with the payload that does. -/
def CacheEntry.broughtBack (entry : CacheEntry Score Stability) (kind : EntryKind) :
    CacheEntry Score Stability where
  key := entry.key
  kind := kind
  inserted := unixToTs (tsToUnix entry.inserted)
  expires := unixToTs (tsToUnix entry.expires)
  served := entry.served
  lastServed := unixToTs (tsToUnix entry.lastServed)
  stability := codec.dtoToStability (codec.stabilityToDto entry.stability)
  validated := entry.validated
  score := entry.score
  tier := if unixToTs (tsToUnix entry.expires) ≤ now then .cold else tier
  refreshing := false

theorem dtoToEntry_entryToDto (named : entry.key.name.Canonical)
    (wellFormed : ∀ record ∈ entry.kind.contents, record.WellFormed)
    (stored : entryToDto codec entry tier = some dto) :
    dtoToEntry codec dto now staleWindowSecs =
      if saturatingAdd (unixToTs (tsToUnix entry.expires)) (secondsToTs staleWindowSecs) ≤ now then
        none
      else (entry.kind.restored entry.key entry.validated).map (entry.broughtBack codec tier now) := by
  obtain ⟨kind, encoded, built⟩ := Option.bind_eq_some_iff.mp stored
  obtain rfl := Option.some.inj built
  have restored := @dtoToKind_kindToDto entry.kind kind entry.key entry.validated wellFormed encoded
  have partition : (entry.key.ecs.map ecsToDto).map (fun ecs => EcsKey.mk ecs.family ecs.bits ecs.addr) =
      entry.key.ecs := by
    cases entry.key.ecs <;> rfl
  have label : (if tier.toU8 = 0 then Tier.hot else if tier.toU8 = 1 then .warm else .cold) = tier := by
    cases tier <;> rfl
  unfold dtoToEntry
  dsimp only
  rw [fromWire_bytes named]
  dsimp only [Except.toOption, Option.bind_eq_bind, Option.bind_some]
  rw [partition, label, restored]
  by_cases dead : saturatingAdd (unixToTs (tsToUnix entry.expires))
      (secondsToTs staleWindowSecs) ≤ now
  · rw [if_pos dead, if_pos dead]
  · rw [if_neg dead, if_neg dead]
    cases entry.kind.restored entry.key entry.validated <;> rfl

/-- Which live entries come back as they were. -/
theorem CacheEntry.restored_iff (named : entry.key.name.Canonical)
    (wellFormed : ∀ record ∈ entry.kind.contents, record.WellFormed)
    (live : now < entry.expires) :
    (∃ dto restored, entryToDto codec entry tier = some dto ∧
      dtoToEntry codec dto now staleWindowSecs = some restored ∧ entry.RestoredAs restored) ↔
      entry.Storable now staleWindowSecs := by
  have encodable : (∃ dto, entryToDto codec entry tier = some dto) ↔
      ∀ record ∈ entry.kind.contents, record.rdata.wire.length ≤ 65535 := by
    rw [← exists_kindToDto_iff, entryToDto]
    cases kindToDto entry.kind <;> simp
  constructor
  · rintro ⟨dto, restored, stored, back, same⟩
    rw [dtoToEntry_entryToDto named wellFormed stored] at back
    have short := encodable.mp ⟨dto, stored⟩
    split_ifs at back with dead
    obtain ⟨kind, returned, rfl⟩ := Option.map_eq_some_iff.mp back
    have expires : Ts.Storable entry.expires := (unixToTs_tsToUnix_iff _).mp same.expires
    have ttlSecs := same.ttlSecs
    rw [CacheEntry.ttlSecs_eq, CacheEntry.ttlSecs_eq] at ttlSecs
    obtain ⟨ordered, ttl⟩ := EntryKind.restored_same_iff.mp ⟨kind, returned, same.contents, ttlSecs⟩
    refine ⟨fun record member => ⟨short record member, ordered record member⟩, ttl, expires, ?_⟩
    rw [dropped_iff live expires, not_not] at dead
    exact dead
  · intro storable
    obtain ⟨dto, stored⟩ := encodable.mpr fun record member => (storable.records record member).1
    obtain ⟨kind, returned, contents, ttlSecs⟩ := EntryKind.restored_same_iff.mpr
      ⟨fun record member => (storable.records record member).2, storable.ttl⟩
    have alive : ¬ saturatingAdd (unixToTs (tsToUnix entry.expires))
        (secondsToTs staleWindowSecs) ≤ now := by
      rw [dropped_iff live storable.expires, not_not]
      exact storable.lasting
    refine ⟨dto, entry.broughtBack codec tier now kind, stored, ?_, rfl, contents, ?_, rfl, ?_⟩
    · rw [dtoToEntry_entryToDto named wellFormed stored, if_neg alive, returned]
      rfl
    · rw [CacheEntry.ttlSecs_eq, CacheEntry.ttlSecs_eq]
      exact ttlSecs
    · exact (unixToTs_tsToUnix_iff _).mpr storable.expires

end Restoring

/-! ## Caches filled by insertions -/

section Runs

variable {Score Stability Stored Inputs : Type}

/-- The operation inserts what a parser returned, and restores nothing. -/
def CacheOp.Parsed : CacheOp Score Stability Inputs → Prop
  | .insertPositive key rrset .. =>
      key.name.Canonical ∧ ∀ record ∈ rrset.records ++ rrset.rrsigs, record.WellFormed
  | .insertNegative key _ soa .. => key.name.Canonical ∧ ∀ record ∈ soa.toList, record.WellFormed
  | .restoreEntry .. => False
  | _ => True

/-- The entries hold what a parser returned. -/
structure SemanticCache.Parsed (scoring : Scoring Score Stability Inputs)
    (cache : SemanticCache Score Stability) : Prop where
  consistent : cache.Consistent scoring
  stored : ∀ {key : CacheKey} {entry : CacheEntry Score Stability}, cache.Stores key entry →
    key.name.Canonical ∧ ∀ record ∈ entry.kind.contents, record.WellFormed

theorem SemanticCache.new_parsed {scoring : Scoring Score Stability Inputs}
    (config : CacheConfig Score) :
    (SemanticCache.new config : SemanticCache Score Stability).Parsed scoring := by
  refine ⟨SemanticCache.new_consistent config, ?_⟩
  rintro key entry ⟨tier, stored⟩
  cases tier <;> simp [SemanticCache.tierMap, SemanticCache.new, RankedMap.get?, RankedMap.new] at stored

variable [LinearOrder Score] {scoring : Scoring Score Stability Inputs}

/-- What an operation writes was parsed. -/
theorem CacheOp.Parsed.writes {op : CacheOp Score Stability Inputs} (parsed : op.Parsed)
    (cache : SemanticCache Score Stability) :
    cache.Writes scoring
      (fun key kind => key.name.Canonical ∧ ∀ record ∈ kind.contents, record.WellFormed)
      (fun _ => True) (op.apply scoring cache) := by
  cases op with
  | insertPositive key rrset now inputs validated => exact .insertPositive fun ttl => parsed
  | insertNegative key rcode soa authoritativeTtl now inputs =>
      exact .insertNegative fun ttl => parsed
  | insertNxdomain name rcode soa authoritativeTtl now => exact .insertNxdomain trivial
  | restoreEntry entry now => exact parsed.elim
  | lookup key now => exact CacheOp.upkeep_writes scoring _ rfl cache
  | rescore key inputs now => exact CacheOp.upkeep_writes scoring _ rfl cache
  | sweep now => exact CacheOp.upkeep_writes scoring _ rfl cache
  | markRefreshing key => exact CacheOp.upkeep_writes scoring _ rfl cache
  | clearRefreshing key => exact CacheOp.upkeep_writes scoring _ rfl cache
  | recordRefreshFailure key now => exact CacheOp.upkeep_writes scoring _ rfl cache

theorem SemanticCache.Parsed.apply {cache : SemanticCache Score Stability}
    {op : CacheOp Score Stability Inputs} (held : cache.Parsed scoring) (parsed : op.Parsed) :
    (op.apply scoring cache).Parsed scoring := by
  obtain ⟨consistent, rewrites⟩ := parsed.writes cache held.consistent
  refine ⟨consistent, fun {key entry} stored => ?_⟩
  rcases rewrites.entries stored with ⟨old, before, same⟩ | written
  · rw [← same.kind]
    exact held.stored before
  · exact written

theorem CacheOp.foldl_parsed {ops : List (CacheOp Score Stability Inputs)}
    (parsed : ∀ op ∈ ops, op.Parsed) {cache : SemanticCache Score Stability}
    (held : cache.Parsed scoring) : (ops.foldl (CacheOp.apply scoring) cache).Parsed scoring := by
  induction ops generalizing cache with
  | nil => exact held
  | cons op ops inductionHypothesis =>
      exact inductionHypothesis (fun later member => parsed later (List.mem_cons_of_mem _ member))
        (held.apply (parsed op List.mem_cons_self))

/-- A live entry of a cache that insertions filled comes back from a snapshot with
the same key, records, signatures, TTL, validation and expiry to the second,
exactly when it is storable. -/
theorem live_entry_restored_iff (scoring : Scoring Score Stability Inputs)
    (codec : StabilityCodec Stability Stored) (config : CacheConfig Score)
    (ops : List (CacheOp Score Stability Inputs)) (parsed : ∀ op ∈ ops, op.Parsed)
    (tier : Tier) (key : CacheKey) (entry : CacheEntry Score Stability)
    (stored : ((CacheOp.run scoring config ops).tierMap tier).get? key = some entry)
    (now : Ts) (live : entry.isFresh now = true) (staleWindowSecs : UInt32) :
    (∃ dto restored, entryToDto codec entry tier = some dto ∧
      dtoToEntry codec dto now staleWindowSecs = some restored ∧ entry.RestoredAs restored) ↔
      entry.Storable now staleWindowSecs := by
  have held : (CacheOp.run scoring config ops).Parsed scoring :=
    CacheOp.foldl_parsed parsed (SemanticCache.new_parsed config)
  obtain ⟨named, wellFormed⟩ := held.stored ⟨tier, stored⟩
  have keyed : entry.key = key := (held.consistent.indexed tier).keyed stored
  exact CacheEntry.restored_iff (keyed ▸ named) wellFormed (of_decide_eq_true live)

end Runs

/-! ## An address -/

/-- The stability of `ttlScoring` has nothing to store. -/
def unitCodec : StabilityCodec Unit Unit := ⟨id, id⟩

/-- A set of one address record. -/
def addressOf (ttl : UInt32) : RrSet :=
  (RrSet.new oneLabel .A .IN ttl).addRecord ⟨oneLabel, .A, .IN, ttl, .a (ipv4 192 0 2 1)⟩

/-- Cache it at time 0. -/
def insertAddress (ttl : UInt32) : CacheOp Nat Unit Unit :=
  .insertPositive (.plain oneLabel .A .IN) (addressOf ttl) 0 () false

/-- The entry it makes. -/
def addressEntry (ttl effective : UInt32) : CacheEntry Nat Unit where
  key := .plain oneLabel .A .IN
  kind := .positive { addressOf ttl with ttl := effective }
  inserted := 0
  expires := secondsToTs effective
  served := 0
  lastServed := 0
  stability := ()
  validated := false
  score := effective.toNat
  tier := .hot
  refreshing := false

deriving instance DecidableEq for CacheEntry

theorem oneLabel_canonical : oneLabel.Canonical :=
  fromWire_domainName (show Name.fromWire [1, 97, 0] 0 = .ok (oneLabel, 3) by decide)

theorem addressOf_wellFormed (ttl : UInt32) :
    ∀ record ∈ (addressOf ttl).records ++ (addressOf ttl).rrsigs, record.WellFormed := by
  intro record member
  obtain rfl : record = ⟨oneLabel, .A, .IN, ttl, .a (ipv4 192 0 2 1)⟩ := by
    simpa [addressOf, RrSet.new, RrSet.addRecord] using member
  exact ⟨oneLabel_canonical, rfl, ⟨by simp [RData.pieces], trivial⟩⟩

/-- An address below the cap comes back from a snapshot. -/
theorem live_entry_restored_address :
    ((CacheOp.run ttlScoring (smallConfig 1) [insertAddress 300]).tierMap .hot).get?
      (.plain oneLabel .A .IN) = some (addressEntry 300 300) ∧
    ∃ dto restored, entryToDto unitCodec (addressEntry 300 300) .hot = some dto ∧
      dtoToEntry unitCodec dto 0 3600 = some restored ∧
      (addressEntry 300 300).RestoredAs restored := by
  have stored : ((CacheOp.run ttlScoring (smallConfig 1) [insertAddress 300]).tierMap .hot).get?
      (.plain oneLabel .A .IN) = some (addressEntry 300 300) := by
    decide
  have parsed : ∀ op ∈ [insertAddress 300], op.Parsed := by
    intro op member
    rw [List.mem_singleton.mp member]
    exact ⟨oneLabel_canonical, addressOf_wellFormed 300⟩
  refine ⟨stored, (live_entry_restored_iff ttlScoring unitCodec (smallConfig 1) [insertAddress 300]
    parsed .hot (.plain oneLabel .A .IN) (addressEntry 300 300) stored 0 (by decide) 3600).mpr ?_⟩
  refine ⟨?_, ?_, by decide, by decide⟩
  · intro record member
    obtain rfl : record = ⟨oneLabel, .A, .IN, 300, .a (ipv4 192 0 2 1)⟩ := by
      simpa [addressEntry, EntryKind.contents, addressOf, RrSet.new, RrSet.addRecord] using member
    exact ⟨by decide, rfl⟩
  · rintro rrset ⟨⟩
    decide

/-- An address with a TTL of two days, capped to one, comes back with two. -/
theorem capped_ttl_grows_back :
    ((CacheOp.run ttlScoring (smallConfig 1) [insertAddress 172800]).tierMap .hot).get?
      (.plain oneLabel .A .IN) = some (addressEntry 172800 86400) ∧
    (addressEntry 172800 86400).isFresh 0 = true ∧
    ¬ ∃ dto restored, entryToDto unitCodec (addressEntry 172800 86400) .hot = some dto ∧
      dtoToEntry unitCodec dto 0 3600 = some restored ∧
      (addressEntry 172800 86400).RestoredAs restored := by
  refine ⟨by decide, by decide, ?_⟩
  rintro ⟨dto, restored, stored, back, same⟩
  have grown : ((entryToDto unitCodec (addressEntry 172800 86400) .hot).bind fun dto =>
      dtoToEntry unitCodec dto 0 3600).map CacheEntry.ttlSecs = some 172800 := by
    decide
  rw [stored, Option.bind_some, back] at grown
  have kept := same.ttlSecs
  rw [Option.some.inj grown] at kept
  exact absurd kept (by decide)

end RecurseX
