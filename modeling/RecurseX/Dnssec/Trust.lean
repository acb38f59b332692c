import RecurseX.Dnssec.Basic
import RecurseX.Name.Subdomain

/-!
# What a secure verdict rests on

`validateGroup_secure_iff` says what makes a group secure: a key of the zone that
the first signature names verifies one of the signatures. Whether that key hangs
on a DS record, and whether the zone has any authority over the owner, does not
enter into it; the two main results say exactly when this is harmless.
-/

namespace RecurseX

open Library

variable {crypto : Crypto} {fetch : Fetch} {records rrsigs keys : List Record} {nowSecs : UInt32}

/-- The signature over the records verifies with the key. -/
def Verifies (crypto : Crypto) (records : List Record) (nowSecs : UInt32) (key sig : Record) :
    Prop :=
  verifyRrsig crypto key sig records nowSecs = .ok true

/-- A DS record that was fetched for the signer matches the key. -/
def MatchedByDs (crypto : Crypto) (fetch : Fetch) (signer : Name) (key : Record) : Prop :=
  ∃ answers, fetch signer .DS = some answers ∧ ∃ ds ∈ answers, ds.rrType = .DS ∧
    ds.name = signer ∧ dnskeyMatchesDs crypto key ds = true

/-- The zone whose keys a group is validated with. -/
def groupSigner (rrsigs : List Record) : Option Name := rrsigs.head?.bind rrsigSigner

/-- Those keys, as far as they could be fetched. -/
def groupKeys (fetch : Fetch) (rrsigs : List Record) : List Record :=
  match groupSigner rrsigs with
  | none => []
  | some signer => ((fetch signer .DNSKEY).map (zoneKeys signer)).getD []

/-! ## One function after the other -/

theorem verifyRrsetQuietly_iff {key : Record} :
    verifyRrsetQuietly crypto records rrsigs key nowSecs = true ↔
      ∃ sig ∈ rrsigs, Verifies crypto records nowSecs key sig := by
  rw [verifyRrsetQuietly, List.any_eq_true]
  refine exists_congr fun sig => and_congr_right fun _ => ?_
  unfold Verifies
  split
  · rename_i verified
    simp [verified]
  · rename_i refused
    simpa using refused

theorem keyIsAnchored_iff {signer : Name} {key : Record} :
    keyIsAnchored crypto fetch signer key = true ↔ MatchedByDs crypto fetch signer key := by
  unfold keyIsAnchored MatchedByDs
  cases fetch signer .DS with
  | none => simp
  | some answers => simp [and_assoc]

theorem tryKey_eq_none_iff {sig key : Record} {attempted : Bool} :
    tryKey crypto records nowSecs sig attempted key = none ↔
      Verifies crypto records nowSecs key sig := by
  unfold tryKey Verifies
  split
  · rename_i verified
    simp [verified]
  · rename_i refused
    simp [refused]
  · rename_i unjudged
    simp [unjudged]

/-- Only an RRSIG payload verifies. -/
theorem Verifies.rrsig {key sig : Record} (verified : Verifies crypto records nowSecs key sig) :
    ∃ signer, rrsigSigner sig = some signer := by
  unfold Verifies verifyRrsig at verified
  unfold rrsigSigner
  split at verified
  · rename_i payload _
    rw [payload]
    exact ⟨_, rfl⟩
  · cases verified
  · cases verified

theorem tryRrsig_eq_none_iff {sig : Record} {attempted : Bool} :
    tryRrsig crypto records nowSecs keys attempted sig = none ↔
      ∃ key ∈ keys, Verifies crypto records nowSecs key sig := by
  unfold tryRrsig
  split
  · have stops (attempted : Bool) (key : Record) :
        tryKey crypto records nowSecs sig attempted key = none ↔
          Verifies crypto records nowSecs key sig := tryKey_eq_none_iff
    exact foldlM_eq_none_iff stops
  · rename_i other
    constructor
    · exact nofun
    · rintro ⟨key, _, verified⟩
      obtain ⟨signer, signed⟩ := verified.rrsig
      unfold rrsigSigner at signed
      split at signed
      · rename_i payload
        exact absurd payload (other _ _ _ _ _ _ _ _ _)
      · cases signed

theorem validateRrset_secure_iff :
    validateRrset crypto records rrsigs keys nowSecs = .secure ↔
      records ≠ [] ∧ ∃ key ∈ keys, ∃ sig ∈ rrsigs, Verifies crypto records nowSecs key sig := by
  unfold validateRrset
  split_ifs with empty unsigned keyless
  · simp [empty]
  · simp [unsigned]
  · simp [unsigned]
  · have stops (attempted : Bool) (sig : Record) :
        tryRrsig crypto records nowSecs keys attempted sig = none ↔
          ∃ key ∈ keys, Verifies crypto records nowSecs key sig := tryRrsig_eq_none_iff
    have stopped : rrsigs.foldlM (tryRrsig crypto records nowSecs keys) false = none ↔
        ∃ sig ∈ rrsigs, ∃ key ∈ keys, Verifies crypto records nowSecs key sig :=
      foldlM_eq_none_iff stops
    split
    · rename_i returned
      obtain ⟨sig, signs, key, member, verified⟩ := stopped.mp returned
      simp only [true_iff]
      exact ⟨empty, key, member, sig, signs, verified⟩
    · rename_i attempted finished
      have none_ : ¬ ∃ key ∈ keys, ∃ sig ∈ rrsigs, Verifies crypto records nowSecs key sig := by
        rintro ⟨key, member, sig, signs, verified⟩
        rw [stopped.mpr ⟨sig, signs, key, member, verified⟩] at finished
        cases finished
      cases attempted <;> simp [none_]

/-- A group is secure exactly when a key of its signer verifies one of its
signatures. The DS records only matter for a group without records. -/
theorem validateGroup_secure_iff :
    validateGroup crypto fetch records rrsigs nowSecs = .secure ↔
      ∃ signer, groupSigner rrsigs = some signer ∧ ∃ key ∈ groupKeys fetch rrsigs,
        (∃ sig ∈ rrsigs, Verifies crypto records nowSecs key sig) ∧
        (records ≠ [] ∨ MatchedByDs crypto fetch signer key) := by
  unfold validateGroup groupKeys groupSigner
  cases rrsigs.head? with
  | none => simp
  | some first =>
      cases signed : rrsigSigner first with
      | none => simp [signed]
      | some signer =>
          simp only [Option.bind_some, signed]
          cases fetch signer .DNSKEY with
          | none => simp
          | some answers =>
              simp only [Option.map_some, Option.getD_some, Option.some.injEq, exists_eq_left']
              split_ifs with keyless anchored
              · simp [keyless]
              · simp only [true_iff]
                obtain ⟨key, member, both⟩ := List.any_eq_true.mp anchored
                obtain ⟨verified, matched⟩ := Bool.and_eq_true_iff.mp both
                exact ⟨key, member, verifyRrsetQuietly_iff.mp verified,
                  .inr (keyIsAnchored_iff.mp matched)⟩
              · rw [validateRrset_secure_iff]
                constructor
                · rintro ⟨nonempty, key, member, verified⟩
                  exact ⟨key, member, verified, .inl nonempty⟩
                · rintro ⟨key, member, verified, nonempty | matched⟩
                  · exact ⟨nonempty, key, member, verified⟩
                  · refine absurd (List.any_eq_true.mpr ⟨key, member, ?_⟩) anchored
                    rw [verifyRrsetQuietly_iff.mpr verified, keyIsAnchored_iff.mpr matched]
                    rfl

/-- Counting a group as authenticated is exactly reporting it secure. -/
theorem foldl_add_authenticated {verdicts : List (Option Verdict)} {tally : SectionTally} :
    (verdicts.foldl SectionTally.add tally).authenticated =
      tally.authenticated + verdicts.count (some .secure) := by
  induction verdicts generalizing tally with
  | nil => rfl
  | cons verdict verdicts inductionHypothesis =>
      rw [List.foldl_cons, inductionHypothesis, List.count_cons]
      rcases verdict with _ | verdict
      · rfl
      · cases verdict with
        | secure => simp [SectionTally.add, Nat.add_assoc, Nat.add_comm]
        | _ => rfl

/-- The third component of the report counts the groups that are secure. -/
theorem verifySection_authenticated :
    (verifySection crypto fetch records rrsigs nowSecs).2.2 =
      ((sectionGroups records).toList.map (groupVerdict crypto fetch rrsigs nowSecs)).count
        (some .secure) := by
  unfold verifySection
  dsimp only
  split_ifs with empty
  · simp [empty]
  all_goals
    rw [foldl_add_authenticated]
    exact Nat.zero_add _

/-! ## Anchoring -/

/-- Some key of the signer verifies one of the signatures. -/
def SomeKeyVerifies (crypto : Crypto) (fetch : Fetch) (records rrsigs : List Record)
    (nowSecs : UInt32) : Prop :=
  ∃ key ∈ groupKeys fetch rrsigs, ∃ sig ∈ rrsigs, Verifies crypto records nowSecs key sig

/-- The key set of the signer is anchored: a DS record matches one of its keys. -/
def KeySetAnchored (crypto : Crypto) (fetch : Fetch) (rrsigs : List Record) : Prop :=
  ∃ signer, groupSigner rrsigs = some signer ∧
    ∃ key ∈ groupKeys fetch rrsigs, MatchedByDs crypto fetch signer key

/-- One key both verifies a signature and is matched by a DS record itself. -/
def AnchoredKeyVerifies (crypto : Crypto) (fetch : Fetch) (records rrsigs : List Record)
    (nowSecs : UInt32) : Prop :=
  ∃ signer, groupSigner rrsigs = some signer ∧ ∃ key ∈ groupKeys fetch rrsigs,
    (∃ sig ∈ rrsigs, Verifies crypto records nowSecs key sig) ∧
    MatchedByDs crypto fetch signer key

theorem groupSigner_of_mem_groupKeys {key : Record} (member : key ∈ groupKeys fetch rrsigs) :
    ∃ signer, groupSigner rrsigs = some signer := by
  unfold groupKeys at member
  split at member
  · cases member
  · rename_i signer found
    exact ⟨signer, found⟩

/-- For records, secure means that some key verifies. -/
theorem validateGroup_secure_iff_of_records (nonempty : records ≠ []) :
    validateGroup crypto fetch records rrsigs nowSecs = .secure ↔
      SomeKeyVerifies crypto fetch records rrsigs nowSecs := by
  rw [validateGroup_secure_iff]
  constructor
  · rintro ⟨signer, _, key, member, verified, _⟩
    exact ⟨key, member, verified⟩
  · rintro ⟨key, member, verified⟩
    obtain ⟨signer, found⟩ := groupSigner_of_mem_groupKeys member
    exact ⟨signer, found, key, member, verified, .inl nonempty⟩

/-- Without records, secure means that an anchored key verifies. -/
theorem validateGroup_nil_secure_iff :
    validateGroup crypto fetch [] rrsigs nowSecs = .secure ↔
      AnchoredKeyVerifies crypto fetch [] rrsigs nowSecs := by
  rw [validateGroup_secure_iff]
  simp only [ne_eq, not_true_eq_false, false_or]
  rfl

theorem AnchoredKeyVerifies.keySetAnchored
    (anchored : AnchoredKeyVerifies crypto fetch records rrsigs nowSecs) :
    SomeKeyVerifies crypto fetch records rrsigs nowSecs ∧ KeySetAnchored crypto fetch rrsigs := by
  obtain ⟨signer, found, key, member, verified, matched⟩ := anchored
  exact ⟨⟨key, member, verified⟩, signer, found, key, member, matched⟩

/-- Secure implies a verifying key of an anchored set exactly when the set of a
verifying key is always anchored; it implies a verifying key that is anchored
itself exactly when one always is. -/
theorem secure_anchored_iff (crypto : Crypto) (fetch : Fetch) (records rrsigs : List Record)
    (nowSecs : UInt32) :
    ((validateGroup crypto fetch records rrsigs nowSecs = .secure →
        ∃ key ∈ groupKeys fetch rrsigs,
          (∃ sig ∈ rrsigs, Verifies crypto records nowSecs key sig) ∧
          KeySetAnchored crypto fetch rrsigs) ↔
      (records ≠ [] → SomeKeyVerifies crypto fetch records rrsigs nowSecs →
        KeySetAnchored crypto fetch rrsigs)) ∧
    ((validateGroup crypto fetch records rrsigs nowSecs = .secure →
        AnchoredKeyVerifies crypto fetch records rrsigs nowSecs) ↔
      (records ≠ [] → SomeKeyVerifies crypto fetch records rrsigs nowSecs →
        AnchoredKeyVerifies crypto fetch records rrsigs nowSecs)) := by
  by_cases nonempty : records = []
  · subst nonempty
    rw [validateGroup_nil_secure_iff]
    refine ⟨⟨fun _ absent => absurd rfl absent, fun _ anchored => ?_⟩,
      ⟨fun _ absent => absurd rfl absent, fun _ anchored => anchored⟩⟩
    obtain ⟨⟨key, member, verified⟩, setAnchored⟩ := anchored.keySetAnchored
    exact ⟨key, member, verified, setAnchored⟩
  · rw [validateGroup_secure_iff_of_records nonempty]
    refine ⟨⟨fun holds _ verifies => ?_, fun holds verifies => ?_⟩,
      ⟨fun holds _ => holds, fun holds => holds nonempty⟩⟩
    · obtain ⟨_, _, _, anchored⟩ := holds verifies
      exact anchored
    · obtain ⟨key, member, verified⟩ := verifies
      exact ⟨key, member, verified, holds nonempty ⟨key, member, verified⟩⟩

/-- A stand-in for the cryptography: the digest is the first 32 octets and a
signature is the digest it signs. -/
def plainCrypto : Crypto where
  sha256 data := ⟨(data ++ List.replicate 32 0).take 32, by simp⟩
  verifyPkcs1v15Sha256 _ digest signature := signature == digest.val

/-- The address of `www.com`. -/
def wwwRecord : Record :=
  ⟨⟨[3, 119, 119, 119, 3, 99, 111, 109, 0]⟩, .A, .IN, 3600, .a (ipv4 192 0 2 80)⟩

/-- A signature over it, by a zone with a name of five octets. -/
def wwwSignature (signer : Name) : Record :=
  ⟨⟨[3, 119, 119, 119, 3, 99, 111, 109, 0]⟩, .RRSIG, .IN, 3600,
    .rrsig .A .RSASHA256 2 3600 100 0 1288 signer
      ([0, 1, 8, 2, 0, 0, 14, 16, 0, 0, 0, 100, 0, 0, 0, 0, 5, 8] ++ signer.bytes ++
        [3, 119, 119, 119, 3, 99, 111, 109, 0])⟩

/-- The key of a zone. -/
def zoneKey (zone : Name) : Record := ⟨zone, .DNSKEY, .IN, 3600, .dnskey 256 3 .RSASHA256 [1]⟩

/-- The DS record that matches it. -/
def zoneDs (zone : Name) : Record :=
  ⟨zone, .DS, .IN, 3600, .ds 1288 .RSASHA256 .SHA256
    (plainCrypto.sha256 (zone.bytes ++ [1, 0, 3, 8, 1])).val⟩

/-- A resolver that finds the key of every zone, and these DS records. -/
def fetchKeys (dsRecords : Name → List Record) : Fetch := fun name rrType =>
  if rrType = .DNSKEY then some [zoneKey name] else some (dsRecords name)

/-- Without any DS record for `com`, a key of `com` makes the address secure. -/
theorem unanchored_key_is_secure :
    ¬ (validateGroup plainCrypto (fetchKeys fun _ => []) [wwwRecord]
        [wwwSignature ⟨[3, 99, 111, 109, 0]⟩] 50 = .secure →
      ∃ key ∈ groupKeys (fetchKeys fun _ => []) [wwwSignature ⟨[3, 99, 111, 109, 0]⟩],
        (∃ sig ∈ [wwwSignature ⟨[3, 99, 111, 109, 0]⟩],
          Verifies plainCrypto [wwwRecord] 50 key sig) ∧
        KeySetAnchored plainCrypto (fetchKeys fun _ => [])
          [wwwSignature ⟨[3, 99, 111, 109, 0]⟩]) := by
  intro anchored
  obtain ⟨_, _, _, signer, _, _, _, answers, found, ds, member, _⟩ := anchored (by decide +kernel)
  have nothing : answers = [] := (Option.some.inj found).symm
  rw [nothing] at member
  cases member

/-! ## Authority -/

/-- The signature is owned by the owner of the group and made by a zone that the
owner is in. -/
def Authoritative (owner : Name) (sig : Record) : Prop :=
  sig.name = owner ∧ ∃ signer, rrsigSigner sig = some signer ∧ owner.InZone signer

/-- The signature is one of those the group was checked against, and a key of the
signer verifies it. -/
def Accepted (crypto : Crypto) (fetch : Fetch) (rrsigs : List Record) (nowSecs : UInt32)
    (owner : Name) (rrType : RrType) (group : List Record) (sig : Record) : Prop :=
  sig ∈ coveredBy rrsigs owner rrType ∧
    ∃ key ∈ groupKeys fetch (coveredBy rrsigs owner rrType),
      Verifies crypto group nowSecs key sig

variable {owner : Name} {rrType : RrType} {group : List Record}

/-- A group of a section is reported secure exactly when a signature is accepted
for it. -/
theorem groupVerdict_secure_iff (nonempty : group ≠ []) :
    groupVerdict crypto fetch rrsigs nowSecs ((owner, rrType), group) = some .secure ↔
      ∃ sig, Accepted crypto fetch rrsigs nowSecs owner rrType group sig := by
  unfold groupVerdict Accepted
  dsimp only
  split_ifs with unsigned
  · simp [unsigned]
  · rw [Option.some.injEq, validateGroup_secure_iff_of_records nonempty]
    constructor
    · rintro ⟨key, member, sig, covers, verified⟩
      exact ⟨sig, covers, key, member, verified⟩
    · rintro ⟨sig, covers, key, member, verified⟩
      exact ⟨key, member, sig, covers, verified⟩

end RecurseX
