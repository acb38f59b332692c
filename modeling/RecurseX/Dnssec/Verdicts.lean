import RecurseX.Dnssec.Trust

/-!
# Why a signature did not verify

A signature and a key that do not belong together are turned down with the same
answer as a signature that fails its check. The verdict is bogus as soon as any pair
is turned down, and so it does not always say what the verdicts are there to say.
-/

namespace RecurseX

open Library

variable {crypto : Crypto} {records rrsigs keys : List Record} {nowSecs : UInt32}
  {key sig : Record}

/-- The pair can be attempted: a supported algorithm, the same for both, and the key the
signature names by its tag. -/
def Applies (key sig : Record) : Prop :=
  match sig.rdata, key.rdata with
  | .rrsig _ algorithm _ _ _ _ sigKeyTag _ _, .dnskey flags _ keyAlgorithm publicKey =>
      algorithm = keyAlgorithm ∧ algorithm = .RSASHA256
        ∧ keyTag flags 3 keyAlgorithm.toU8 publicKey = sigKeyTag
  | _, _ => False

/-- The signature's validity window does not contain the time. -/
def OutsideWindow (nowSecs : UInt32) (sig : Record) : Prop :=
  match sig.rdata with
  | .rrsig _ _ _ _ expiration inception _ _ _ => nowSecs < inception ∨ expiration < nowSecs
  | _ => False

/-- The public key does not verify the signature over the records. -/
def FailsCheck (crypto : Crypto) (records : List Record) (key sig : Record) : Prop :=
  match sig.rdata, key.rdata with
  | .rrsig _ _ _ originalTtl _ _ _ _ signature, .dnskey _ _ _ publicKey =>
      ∃ rrsigRdata, rrsigRdataWithoutSignature sig.rdata = some rrsigRdata
        ∧ crypto.verifyPkcs1v15Sha256 publicKey
          (crypto.sha256 (rrsigRdata ++ canonicalRrset records originalTtl)) signature = false
  | _, _ => False

/-- The pair can be attempted, and the attempt fails. -/
def Fails (crypto : Crypto) (records : List Record) (nowSecs : UInt32) (key sig : Record) : Prop :=
  Applies key sig ∧ (OutsideWindow nowSecs sig ∨ FailsCheck crypto records key sig)

/-- A signature and a key that differ in the algorithm or the tag, or a signature outside its
window or with another number of labels than its owner. -/
def Mismatched (nowSecs : UInt32) (key sig : Record) : Prop :=
  match sig.rdata, key.rdata with
  | .rrsig _ algorithm labels _ expiration inception sigKeyTag _ _,
      .dnskey flags _ keyAlgorithm publicKey =>
      algorithm ≠ keyAlgorithm ∨ (nowSecs < inception ∨ expiration < nowSecs)
        ∨ labels ≠ UInt8.ofNat sig.name.labelCount
        ∨ keyTag flags 3 keyAlgorithm.toU8 publicKey ≠ sigKeyTag
  | _, _ => False

/-- The answer for a pair that is turned down. -/
def Rejects (crypto : Crypto) (records : List Record) (nowSecs : UInt32) (key sig : Record) : Prop :=
  verifyRrsig crypto key sig records nowSecs = .ok false

instance : Decidable (Rejects crypto records nowSecs key sig) :=
  inferInstanceAs (Decidable (verifyRrsig crypto key sig records nowSecs = .ok false))

/-- What becomes of a pair: it verifies, it is turned down, or it cannot be judged. -/
theorem verifyRrsig_cases (crypto : Crypto) (records : List Record) (nowSecs : UInt32)
    (key sig : Record) :
    (verifyRrsig crypto key sig records nowSecs = .ok true
        ∧ Applies key sig ∧ ¬ Mismatched nowSecs key sig ∧ ¬ Fails crypto records nowSecs key sig)
      ∨ (verifyRrsig crypto key sig records nowSecs = .ok false
        ∧ (Mismatched nowSecs key sig ∨ Fails crypto records nowSecs key sig))
      ∨ ((∃ error, verifyRrsig crypto key sig records nowSecs = .error error)
        ∧ ¬ Applies key sig ∧ ¬ Mismatched nowSecs key sig) := by
  unfold Fails Applies OutsideWindow FailsCheck Mismatched verifyRrsig
  cases payload : sig.rdata with
  | rrsig typeCovered algorithm labels originalTtl expiration inception sigKeyTag signer
      signature =>
      cases keyPayload : key.rdata with
      | dnskey flags protocol keyAlgorithm publicKey =>
          dsimp only
          split_ifs with differ window labelled tagged supported deprecated
          · exact .inr (.inl ⟨rfl, .inl (.inl differ)⟩)
          · exact .inr (.inl ⟨rfl, .inl (.inr (.inl window))⟩)
          · exact .inr (.inl ⟨rfl, .inl (.inr (.inr (.inl labelled)))⟩)
          · exact .inr (.inl ⟨rfl, .inl (.inr (.inr (.inr tagged)))⟩)
          · have applies := And.intro (not_not.mp differ) (And.intro supported (not_not.mp tagged))
            have matched := not_or_intro differ
              (not_or_intro window (not_or_intro labelled tagged))
            obtain ⟨rrsigRdata, serialized⟩ : ∃ rrsigRdata, rrsigRdataWithoutSignature
                (.rrsig typeCovered algorithm labels originalTtl expiration inception sigKeyTag
                  signer signature) = some rrsigRdata := ⟨_, rfl⟩
            rw [serialized]
            dsimp only
            cases checked : crypto.verifyPkcs1v15Sha256 publicKey
                (crypto.sha256 (rrsigRdata ++ canonicalRrset records originalTtl)) signature with
            | true =>
                refine .inl ⟨rfl, applies, matched, ?_⟩
                rintro ⟨-, outside | ⟨other, same, failed⟩⟩
                · exact window outside
                · rw [← Option.some.inj same, checked] at failed
                  cases failed
            | false => exact .inr (.inl ⟨rfl, .inr ⟨applies, .inr ⟨rrsigRdata, rfl, checked⟩⟩⟩)
          · exact .inr (.inr ⟨⟨_, rfl⟩, fun applies => supported applies.2.1,
              not_or_intro differ (not_or_intro window (not_or_intro labelled tagged))⟩)
          · exact .inr (.inr ⟨⟨_, rfl⟩, fun applies => supported applies.2.1,
              not_or_intro differ (not_or_intro window (not_or_intro labelled tagged))⟩)
      | _ => exact .inr (.inr ⟨⟨_, rfl⟩, id, id⟩)
  | _ => exact .inr (.inr ⟨⟨_, rfl⟩, id, id⟩)

theorem Verifies.applies (verified : Verifies crypto records nowSecs key sig) :
    Applies key sig := by
  unfold Verifies at verified
  rcases verifyRrsig_cases crypto records nowSecs key sig with
    ⟨-, applies, -⟩ | ⟨rejected, -⟩ | ⟨⟨error, unjudged⟩, -⟩
  · exact applies
  · rw [rejected] at verified
    cases verified
  · rw [unjudged] at verified
    cases verified

/-- A pair is turned down when it does not match or when its attempt fails. -/
theorem rejects_iff :
    Rejects crypto records nowSecs key sig
      ↔ Mismatched nowSecs key sig ∨ Fails crypto records nowSecs key sig := by
  unfold Rejects
  rcases verifyRrsig_cases crypto records nowSecs key sig with
    ⟨verified, -, matched, passed⟩ | ⟨rejected, why⟩ | ⟨⟨error, unjudged⟩, inapplicable, matched⟩
  · rw [verified]
    exact iff_of_false (by simp) (not_or.mpr ⟨matched, passed⟩)
  · exact iff_of_true rejected why
  · rw [unjudged]
    exact iff_of_false (by simp) (not_or.mpr ⟨matched, fun fails => inapplicable fails.1⟩)

/-- Only an RRSIG payload is turned down. -/
theorem Rejects.rrsig (rejected : Rejects crypto records nowSecs key sig) :
    ∃ signer, rrsigSigner sig = some signer := by
  unfold Rejects verifyRrsig at rejected
  unfold rrsigSigner
  split at rejected
  · rename_i payload _
    rw [payload]
    exact ⟨_, rfl⟩
  · cases rejected
  · cases rejected

/-! ## The walk over the pairs -/

/-- With no key that verifies it, a signature flags the walk when a key turns it down. -/
theorem tryRrsig_eq_some (unverified : ∀ key ∈ keys, ¬ Verifies crypto records nowSecs key sig)
    (attempted : Bool) :
    tryRrsig crypto records nowSecs keys attempted sig
      = some (attempted || keys.any fun key => decide (Rejects crypto records nowSecs key sig)) := by
  have goesOn : ∀ attempted : Bool, ∀ key ∈ keys,
      tryKey crypto records nowSecs sig attempted key
        = some (attempted || decide (Rejects crypto records nowSecs key sig)) := by
    intro attempted key member
    unfold tryKey
    cases judged : verifyRrsig crypto key sig records nowSecs with
    | error error =>
        have unrejected : ¬ Rejects crypto records nowSecs key sig := by
          unfold Rejects
          rw [judged]
          simp
        rw [decide_eq_false unrejected, Bool.or_false]
    | ok verified =>
        cases verified with
        | true => exact absurd judged (unverified key member)
        | false => rw [decide_eq_true (show Rejects crypto records nowSecs key sig from judged),
            Bool.or_true]
  unfold tryRrsig
  split
  · exact foldlM_flag goesOn attempted
  · rename_i other
    have unflagged : (keys.any fun key => decide (Rejects crypto records nowSecs key sig))
        = false := by
      refine List.any_eq_false.mpr fun key _ => ?_
      rw [decide_eq_true_iff]
      intro rejected
      obtain ⟨signer, signed⟩ := rejected.rrsig
      unfold rrsigSigner at signed
      split at signed
      · rename_i payload
        exact other _ _ _ _ _ _ _ _ _ payload
      · cases signed
    rw [unflagged, Bool.or_false]

/-- Some pair of a signature and a key has the property. -/
def SomePair (rrsigs keys : List Record) (property : Record → Record → Prop) : Prop :=
  ∃ sig ∈ rrsigs, ∃ key ∈ keys, property key sig

/-- The verdict on signed records. -/
theorem validateRrset_signed (nonempty : records ≠ []) (signed : rrsigs ≠ []) :
    (SomePair rrsigs keys (Verifies crypto records nowSecs)
        ∧ validateRrset crypto records rrsigs keys nowSecs = .secure)
      ∨ (¬ SomePair rrsigs keys (Verifies crypto records nowSecs)
        ∧ SomePair rrsigs keys (Rejects crypto records nowSecs)
        ∧ validateRrset crypto records rrsigs keys nowSecs = .bogus)
      ∨ (¬ SomePair rrsigs keys (Verifies crypto records nowSecs)
        ∧ ¬ SomePair rrsigs keys (Rejects crypto records nowSecs)
        ∧ validateRrset crypto records rrsigs keys nowSecs = .indeterminate) := by
  by_cases verifies : SomePair rrsigs keys (Verifies crypto records nowSecs)
  · obtain ⟨sig, signs, key, member, verified⟩ := verifies
    exact .inl ⟨⟨sig, signs, key, member, verified⟩,
      validateRrset_secure_iff.mpr ⟨nonempty, key, member, sig, signs, verified⟩⟩
  · have goesOn : ∀ attempted : Bool, ∀ sig ∈ rrsigs,
        tryRrsig crypto records nowSecs keys attempted sig = some (attempted
          || keys.any fun key => decide (Rejects crypto records nowSecs key sig)) :=
      fun attempted sig signs => tryRrsig_eq_some
        (fun key member verified => verifies ⟨sig, signs, key, member, verified⟩) attempted
    have rejects : (rrsigs.any fun sig => keys.any fun key =>
          decide (Rejects crypto records nowSecs key sig)) = true
        ↔ SomePair rrsigs keys (Rejects crypto records nowSecs) := by
      simp only [List.any_eq_true, decide_eq_true_iff, SomePair]
    unfold validateRrset
    rw [if_neg nonempty, if_neg signed, foldlM_flag goesOn, Bool.false_or]
    cases flagged : rrsigs.any fun sig => keys.any fun key =>
        decide (Rejects crypto records nowSecs key sig) with
    | true => exact .inr (.inl ⟨verifies, rejects.mp flagged, rfl⟩)
    | false =>
        refine .inr (.inr ⟨verifies, fun rejected => ?_, rfl⟩)
        rw [rejects.mpr rejected] at flagged
        cases flagged

/-! ## What the verdict says -/

/-- The verdict says what became of the pairs: secure when one verifies, bogus only when one was
attempted and failed, and indeterminate when none could be attempted. -/
structure Classified (crypto : Crypto) (records rrsigs keys : List Record) (nowSecs : UInt32) :
    Prop where
  secure : validateRrset crypto records rrsigs keys nowSecs = .secure
    ↔ SomePair rrsigs keys (Verifies crypto records nowSecs)
  bogus : rrsigs ≠ [] → validateRrset crypto records rrsigs keys nowSecs = .bogus →
    ¬ SomePair rrsigs keys (Verifies crypto records nowSecs)
      ∧ SomePair rrsigs keys (Fails crypto records nowSecs)
  indeterminate : rrsigs ≠ [] → ¬ SomePair rrsigs keys Applies →
    validateRrset crypto records rrsigs keys nowSecs = .indeterminate

theorem SomePair.imp {rrsigs keys : List Record} {first second : Record → Record → Prop}
    (imp : ∀ {key sig}, first key sig → second key sig) :
    SomePair rrsigs keys first → SomePair rrsigs keys second := by
  rintro ⟨sig, signs, key, member, holds⟩
  exact ⟨sig, signs, key, member, imp holds⟩

/-- The verdict says what became of the pairs exactly when a pair that verifies comes with
records, and no mismatched pair stands where none verifies and none failed. -/
theorem classified_iff (crypto : Crypto) (records rrsigs keys : List Record) (nowSecs : UInt32) :
    Classified crypto records rrsigs keys nowSecs
      ↔ if records = [] then ¬ SomePair rrsigs keys (Verifies crypto records nowSecs)
        else SomePair rrsigs keys (Verifies crypto records nowSecs)
          ∨ SomePair rrsigs keys (Fails crypto records nowSecs)
          ∨ ¬ SomePair rrsigs keys (Mismatched nowSecs) := by
  by_cases empty : records = []
  · rw [if_pos empty]
    have verdict : validateRrset crypto records rrsigs keys nowSecs = .indeterminate := by
      unfold validateRrset
      rw [if_pos empty]
    constructor
    · rintro ⟨secure, -, -⟩ verifies
      rw [verdict] at secure
      cases secure.mpr verifies
    · intro unverified
      refine ⟨?_, fun _ bogus => ?_, fun _ _ => verdict⟩
      · rw [verdict]
        exact iff_of_false (by decide) unverified
      · rw [verdict] at bogus
        cases bogus
  · rw [if_neg empty]
    by_cases unsigned : rrsigs = []
    · subst unsigned
      have none : ∀ property, ¬ SomePair [] keys property := by
        rintro property ⟨sig, signs, -⟩
        cases signs
      refine iff_of_true ⟨?_, fun signed => absurd rfl signed, fun signed => absurd rfl signed⟩
        (.inr (.inr (none _)))
      rw [validateRrset_secure_iff]
      refine iff_of_false ?_ (none _)
      rintro ⟨-, key, member, sig, signs, -⟩
      cases signs
    · rcases @validateRrset_signed crypto records rrsigs keys nowSecs empty
        unsigned with ⟨verifies, verdict⟩ | ⟨unverified, rejected, verdict⟩
          | ⟨unverified, unrejected, verdict⟩
      · refine iff_of_true ⟨iff_of_true verdict verifies, fun _ bogus => ?_, fun _ apart => ?_⟩
          (.inl verifies)
        · rw [verdict] at bogus
          cases bogus
        · exact absurd (verifies.imp Verifies.applies) apart
      · constructor
        · intro classified
          exact .inr (.inl (classified.bogus unsigned verdict).2)
        · rintro (verifies | fails | matched)
          · exact absurd verifies unverified
          · refine ⟨?_, fun _ _ => ⟨unverified, fails⟩, fun _ apart => ?_⟩
            · rw [verdict]
              exact iff_of_false (by decide) unverified
            · exact absurd (fails.imp fun fails => fails.1) apart
          · -- Whatever was turned down was attempted, since nothing is mismatched.
            obtain ⟨sig, signs, key, member, rejected⟩ := rejected
            rcases rejects_iff.mp rejected with mismatched | fails
            · exact absurd ⟨sig, signs, key, member, mismatched⟩ matched
            · refine ⟨?_, fun _ _ => ⟨unverified, sig, signs, key, member, fails⟩,
                fun _ apart => ?_⟩
              · rw [verdict]
                exact iff_of_false (by decide) unverified
              · exact absurd ⟨sig, signs, key, member, fails.1⟩ apart
      · refine iff_of_true ⟨?_, fun _ bogus => ?_, fun _ _ => verdict⟩
          (.inr (.inr fun mismatched => unrejected
            (mismatched.imp fun mismatched => rejects_iff.mpr (.inl mismatched))))
        · rw [verdict]
          exact iff_of_false (by decide) unverified
        · rw [verdict] at bogus
          cases bogus

/-- A key with another tag than the signature names makes the address bogus. -/
theorem foreign_key_is_bogus :
    ¬ Classified plainCrypto [wwwRecord] [wwwSignature ⟨[3, 99, 111, 109, 0]⟩]
      [⟨⟨[3, 99, 111, 109, 0]⟩, .DNSKEY, .IN, 3600, .dnskey 257 3 .RSASHA256 [1]⟩] 50 := by
  intro classified
  have apart : ¬ SomePair [wwwSignature ⟨[3, 99, 111, 109, 0]⟩]
      [⟨⟨[3, 99, 111, 109, 0]⟩, .DNSKEY, .IN, 3600, .dnskey 257 3 .RSASHA256 [1]⟩] Applies := by
    rintro ⟨sig, signs, key, member, applies⟩
    obtain rfl := List.mem_singleton.mp signs
    obtain rfl := List.mem_singleton.mp member
    obtain ⟨-, -, tagged⟩ := applies
    exact absurd tagged (by decide)
  have verdict := classified.indeterminate (List.cons_ne_nil _ _) apart
  revert verdict
  decide

end RecurseX
