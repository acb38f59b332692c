import RecurseX.Doq.Handshake
import RecurseX.Library.Runs

/-!
# A message is taken whole or not at all

A handshake goes on being fed after it completed. Here is what holds of every handshake
that feeding reaches, before and after: a refused message changes nothing and no branch is
taken that asks for a suite or a secret that is not there. The message that is due stays
Finished once the handshake completed, so what completes it again is one more Finished.
-/

namespace RecurseX.Doq

open Library Wire Stateful

namespace ClientHandshake

variable {RootStore : Type} {crypto : Crypto RootStore} {varint : Varint}
  {self after : ClientHandshake RootStore} {msg : Bytes} {result : Option Completed}

/-! ## The branches for what is missing -/

/-- The errors that report a suite or a secret that is not there. -/
def missing : List Error :=
  [.wire "TLS handshake secrets requested before a cipher suite was negotiated",
    .wire "CertificateVerify before a cipher suite was negotiated",
    .wire "server Finished before a cipher suite was negotiated",
    .wire "server Finished before handshake secrets",
    .wire "application secrets requested before a cipher suite was negotiated",
    .wire "application secrets before handshake secrets",
    .wire "client handshake secret not derived",
    .wire "TLS Finished without a negotiated cipher suite"]

/-- The error reports that something is missing. -/
def Missing (error : Error) : Prop := error ∈ missing

instance (error : Error) : Decidable (Missing error) := inferInstanceAs (Decidable (_ ∈ _))

theorem not_missing_untrusted (msg : String) : ¬ Missing (untrusted msg) := by
  simp [Missing, missing, untrusted, Error.wire]

theorem avoids_byteAt {buf : Bytes} {position : Nat} : Avoids Missing (byteAt buf position) :=
  Wire.avoids_byteAt (by decide)

theorem avoids_sliceAt {buf : Bytes} {position length : Nat} :
    Avoids Missing (sliceAt buf position length) :=
  Wire.avoids_sliceAt (by decide)

theorem avoids_restAt {buf : Bytes} {position : Nat} : Avoids Missing (restAt buf position) :=
  Wire.avoids_restAt (by decide)

theorem avoids_u16At {buf : Bytes} {position : Nat} : Avoids Missing (u16At buf position) :=
  Wire.avoids_u16At (by decide)

theorem avoids_splitMessage : Avoids Missing (splitMessage msg) := by
  refine (Avoids.failIf (by decide)).bind fun _ _ => avoids_byteAt.bind fun _ _ => ?_
  refine avoids_byteAt.bind fun _ _ => avoids_byteAt.bind fun _ _ => avoids_byteAt.bind fun _ _ => ?_
  exact (Avoids.failIf (by decide)).bind fun _ _ => avoids_restAt.bind fun _ _ => .ok _

theorem avoids_serverExtensions {body : Bytes} {stop : Nat} (fuel ep : Nat)
    (keyShare : Option Bytes) (sawVersions : Bool) :
    Avoids Missing (serverExtensions body stop fuel ep keyShare sawVersions) := by
  induction fuel generalizing ep keyShare sawVersions with
  | zero => exact .error (by decide)
  | succ fuel inductionHypothesis =>
      rw [serverExtensions]
      split
      · refine avoids_u16At.bind fun _ _ => avoids_u16At.bind fun _ _ => ?_
        exact (Avoids.mapError fun _ => by decide).bind fun _ _ => inductionHypothesis _ _ _
      · exact .ok _

theorem avoids_readServerHello {body : Bytes} : Avoids Missing (readServerHello body) := by
  unfold readServerHello
  refine (Avoids.failIf (by decide)).bind fun _ _ => avoids_byteAt.bind fun _ _ => ?_
  refine avoids_byteAt.bind fun _ _ => (Avoids.failIf (by decide)).bind fun _ _ => ?_
  refine avoids_sliceAt.bind fun _ _ => (Avoids.failIf (by decide)).bind fun _ _ => ?_
  refine avoids_byteAt.bind fun _ _ => (Avoids.failIf (by decide)).bind fun _ _ => ?_
  refine (Avoids.failIf (by decide)).bind fun _ _ => avoids_u16At.bind fun _ _ => ?_
  refine avoids_byteAt.bind fun _ _ => (Avoids.failIf (by decide)).bind fun _ _ => ?_
  refine (Avoids.failIf (by decide)).bind fun _ _ => (Avoids.failIf (by decide)).bind fun _ _ => ?_
  refine avoids_u16At.bind fun _ _ => (Avoids.failIf (by decide)).bind fun _ _ => ?_
  refine (avoids_serverExtensions _ _ _ _).bind fun _ _ => ?_
  exact (Avoids.failIf (by decide)).bind fun _ _ => (Avoids.okOr (by decide)).bind fun _ _ => .ok _

theorem avoids_decodeParam {params : ServerTransportParams} {id : Nat} {value : Bytes} :
    Avoids Missing (varint.decodeParam params id value) := by
  have number : Avoids Missing (varint.decodeParamU64 value) := by
    unfold Varint.decodeParamU64
    split
    · exact .error (by decide)
    · split
      · exact .error (by decide)
      · exact .ok _
  unfold Varint.decodeParam
  split <;> first
    | exact number.bind fun _ _ => .ok _
    | exact .ok _

theorem avoids_decodeParamsFrom {bytes : Bytes} (fuel pos : Nat) (params : ServerTransportParams) :
    Avoids Missing (varint.decodeParamsFrom bytes fuel pos params) := by
  induction fuel generalizing pos params with
  | zero => exact .error (by decide)
  | succ fuel inductionHypothesis =>
      have next : Avoids Missing (varint.nextParam bytes pos) := by
        refine avoids_restAt.bind fun _ _ => (Avoids.okOr (by decide)).bind fun _ _ => ?_
        refine avoids_restAt.bind fun _ _ => (Avoids.okOr (by decide)).bind fun _ _ => ?_
        exact (Avoids.mapError fun _ => by decide).bind fun _ _ => .ok _
      rw [Varint.decodeParamsFrom]
      split
      · exact next.bind fun _ _ => avoids_decodeParam.bind fun _ _ => inductionHypothesis _ _
      · exact .ok _

theorem avoids_encryptedExtensions {body : Bytes} {stop : Nat} (fuel pos : Nat)
    (params : Option ServerTransportParams) :
    Avoids Missing (encryptedExtensions varint body stop fuel pos params) := by
  induction fuel generalizing pos params with
  | zero => exact .error (by decide)
  | succ fuel inductionHypothesis =>
      rw [encryptedExtensions]
      split
      · refine avoids_u16At.bind fun _ _ => avoids_u16At.bind fun _ _ => ?_
        refine (Avoids.mapError fun _ => by decide).bind fun _ _ => ?_
        split
        · refine Avoids.bind ?_ fun _ _ => inductionHypothesis _ _
          exact avoids_decodeParamsFrom _ _ _
        · exact (Avoids.ok _).bind fun _ _ => inductionHypothesis _ _
      · exact .ok _

theorem avoids_parseEncryptedExtensions {body : Bytes} :
    Avoids Missing (parseEncryptedExtensions varint body) := by
  unfold parseEncryptedExtensions
  refine (Avoids.failIf (by decide)).bind fun _ _ => avoids_u16At.bind fun _ _ => ?_
  refine (Avoids.failIf (by decide)).bind fun _ _ => ?_
  exact (avoids_encryptedExtensions _ _ _).bind fun _ _ => .okOr (by decide)

theorem avoids_certificateEntries {list : Bytes} (fuel pos : Nat) (chain : List Bytes) :
    Avoids Missing (certificateEntries list fuel pos chain) := by
  induction fuel generalizing pos chain with
  | zero => exact .error (by decide)
  | succ fuel inductionHypothesis =>
      rw [certificateEntries]
      split
      · refine (Avoids.mapError fun _ => by decide).bind fun _ _ => ?_
        refine (Avoids.mapError fun _ => by decide).bind fun _ _ => ?_
        refine (Avoids.mapError fun _ => by decide).bind fun _ _ => ?_
        exact (Avoids.mapError fun _ => by decide).bind fun _ _ => inductionHypothesis _ _
      · exact .ok _

theorem avoids_parseCertificateList {body : Bytes} : Avoids Missing (parseCertificateList body) := by
  unfold parseCertificateList
  refine (Avoids.okOr (by decide)).bind fun _ _ => (Avoids.failIf (by decide)).bind fun _ _ => ?_
  refine (Avoids.mapError fun _ => by decide).bind fun _ _ => ?_
  refine (Avoids.mapError fun _ => by decide).bind fun _ _ => ?_
  refine (avoids_certificateEntries _ _ _).bind fun _ _ => ?_
  exact (Avoids.failIf (by decide)).bind fun _ _ => .ok _

theorem avoids_leafRsaKey {leaf : Certificate} : Avoids Missing (leafRsaKey leaf) :=
  .okOr (not_missing_untrusted _)

theorem avoids_leafEcPoint {leaf : Certificate} {curve : Curve} :
    Avoids Missing (leafEcPoint leaf curve) := by
  unfold leafEcPoint
  refine (Avoids.failIf (not_missing_untrusted _)).bind fun _ _ => ?_
  refine (Avoids.failIf (not_missing_untrusted _)).bind fun _ _ => ?_
  exact avoids_sliceAt.bind fun _ _ => avoids_restAt.bind fun _ _ => .ok _

theorem avoids_verifySignature {suite scheme : UInt16} {leaf : Certificate}
    {content signature : Bytes} :
    Avoids Missing (verifySignature crypto suite leaf scheme content signature) := by
  have refuse {condition : Prop} [Decidable condition] {text : String} :
      Avoids Missing (failIf condition (untrusted text)) := .failIf (not_missing_untrusted _)
  unfold verifySignature
  split_ifs
  · exact avoids_leafRsaKey.bind fun _ _ => .ok _
  · exact avoids_leafRsaKey.bind fun _ _ => .ok _
  · exact avoids_leafRsaKey.bind fun _ _ => .ok _
  · exact avoids_leafRsaKey.bind fun _ _ => .ok _
  · exact refuse.bind fun _ _ => avoids_leafEcPoint.bind fun _ _ => .ok _
  · exact refuse.bind fun _ _ => avoids_leafEcPoint.bind fun _ _ => .ok _
  · exact refuse.bind fun _ _ => refuse.bind fun _ _ => .ok _
  · exact .error (not_missing_untrusted _)

theorem avoids_validateCertificate {leaf : Certificate} :
    Avoids Missing (self.validateCertificate crypto leaf) := by
  unfold validateCertificate
  split_ifs
  · exact .ok _
  · refine (Avoids.mapError fun _ => not_missing_untrusted _).bind fun _ _ => ?_
    refine (Avoids.failIf (not_missing_untrusted _)).bind fun _ _ => ?_
    split
    · exact .ok _
    · exact .failIf (not_missing_untrusted _)

theorem avoids_verifyCertificateVerify {body hash : Bytes} {suite : UInt16}
    (negotiated : self.suite = some suite) :
    Avoids Missing (self.verifyCertificateVerify crypto body hash) := by
  unfold verifyCertificateVerify
  refine (Avoids.failIf (by decide)).bind fun _ _ => avoids_u16At.bind fun _ _ => ?_
  refine avoids_u16At.bind fun _ _ => (Avoids.failIf (by decide)).bind fun _ _ => ?_
  refine avoids_restAt.bind fun _ _ => (Avoids.okOr (by decide)).bind fun _ _ => ?_
  refine (Avoids.mapError fun _ => not_missing_untrusted _).bind fun _ _ => ?_
  refine avoids_validateCertificate.bind fun _ _ => ?_
  rw [negotiated]
  refine (Avoids.ok suite).bind fun _ _ => avoids_verifySignature.bind fun _ _ => ?_
  exact .failIf (not_missing_untrusted _)

theorem avoids_verifyServerFinished {body hash sHs : Bytes} {suite : UInt16}
    (negotiated : self.suite = some suite) (derived : self.sHs = some sHs) :
    Avoids Missing (self.verifyServerFinished crypto body hash) := by
  unfold verifyServerFinished
  rw [negotiated, derived]
  refine (Avoids.ok suite).bind fun _ _ => (Avoids.failIf (by decide)).bind fun _ _ => ?_
  exact (Avoids.ok sHs).bind fun _ _ => .failIf (not_missing_untrusted _)

/-! ## Every handshake that feeding reaches -/

/-- What holds of a handshake, however it was fed. -/
structure Orderly (handshake : ClientHandshake RootStore) : Prop where
  early : handshake.sawServerHello = false → handshake.next = HsType.ENCRYPTED_EXTENSIONS
  keyed : handshake.sawServerHello = true → handshake.Keyed
  server : handshake.sawServerHello = true → ∃ sHs, handshake.sHs = some sHs
  finished : handshake.done = true → handshake.sawServerHello = true ∧ handshake.next = HsType.FINISHED

theorem Orderly.saw_of_due (orderly : self.Orderly) (due : self.next = HsType.FINISHED) :
    self.sawServerHello = true := by
  cases saw : self.sawServerHello with
  | true => rfl
  | false => exact absurd (due.symm.trans (orderly.early saw)) (by decide)

theorem orderly_greeted {cfg : ClientConfig RootStore} {entropy : Entropy} :
    (greeted varint cfg entropy).Orderly where
  early _ := rfl
  keyed saw := by cases saw
  server saw := by cases saw
  finished done := by cases done

/-- An accepted message keeps the order. -/
theorem Orderly.accepts (orderly : self.Orderly)
    (accepts : Accepts crypto varint self msg result after) : after.Orderly := by
  cases accepts with
  | serverHello split first selected =>
      refine ⟨nofun, fun _ => ⟨_, _, _, rfl, rfl, rfl⟩, fun _ => ⟨_, rfl⟩, fun done => ?_⟩
      cases first.symm.trans (orderly.finished done).1
  | encryptedExtensions split saw due =>
      refine ⟨fun unseen => ?_, orderly.keyed, orderly.server, fun done => ?_⟩
      · cases saw.symm.trans unseen
      · exact absurd (due.symm.trans (orderly.finished done).2) (by decide)
  | certificate split saw due =>
      refine ⟨fun unseen => ?_, orderly.keyed, orderly.server, fun done => ?_⟩
      · cases saw.symm.trans unseen
      · exact absurd (due.symm.trans (orderly.finished done).2) (by decide)
  | certificateVerify split saw due =>
      refine ⟨fun unseen => ?_, orderly.keyed, orderly.server, fun done => ?_⟩
      · cases saw.symm.trans unseen
      · exact absurd (due.symm.trans (orderly.finished done).2) (by decide)
  | finished split saw due =>
      exact ⟨orderly.early, orderly.keyed, orderly.server, fun _ => ⟨saw, due⟩⟩

/-- A refused message changes nothing. -/
theorem Orderly.refused (orderly : self.Orderly) {error : Error}
    (fed : feed crypto varint msg self = (.error error, after)) : after = self :=
  feed_refused (fun due => orderly.keyed (orderly.saw_of_due due)) fed

/-- No message is refused because a suite or a secret is missing. -/
theorem Orderly.not_missing (orderly : self.Orderly) {error : Error}
    (fed : feed crypto varint msg self = (.error error, after)) : ¬ Missing error := by
  unfold feed at fed
  obtain ⟨failed, -⟩ | ⟨⟨msgType, body⟩, -, fed⟩ := lift_bind_eq_error_iff.mp fed
  · exact avoids_splitMessage error failed
  dsimp only at fed
  rw [read_bind_run] at fed
  split_ifs at fed with hello flight finish
  · obtain failed | ⟨_, middle, parsed, fed⟩ := bind_eq_error_iff.mp fed
    · unfold parseServerHello at failed
      obtain ⟨failed, -⟩ | ⟨⟨suite, share⟩, -, failed⟩ := lift_bind_eq_error_iff.mp failed
      · exact avoids_readServerHello error failed
      · dsimp only at failed
        rw [read_bind_run] at failed
        split_ifs at failed
        · cases failed
          decide
        · cases failed
    · obtain ⟨suite, share, -, rfl⟩ := parseServerHello_ok parsed
      rw [record, update_bind_run, bind_of_ok (deriveHandshakeSecrets_run rfl)] at fed
      cases fed
  · obtain ⟨suite, secret, cHs, negotiated, -⟩ := orderly.keyed flight.2
    obtain failed | ⟨_, middle, -, fed⟩ := bind_eq_error_iff.mp fed
    · unfold feedFlight at failed
      rw [read_bind_run] at failed
      split_ifs at failed
      · cases failed
        decide
      · obtain ⟨failed, -⟩ | ⟨_, -, failed⟩ := lift_bind_eq_error_iff.mp failed
        · exact avoids_parseEncryptedExtensions error failed
        · cases failed
      · obtain ⟨failed, -⟩ | ⟨_, -, failed⟩ := lift_bind_eq_error_iff.mp failed
        · exact avoids_parseCertificateList error failed
        · cases failed
      · obtain ⟨failed, -⟩ | ⟨_, -, failed⟩ := lift_bind_eq_error_iff.mp failed
        · exact avoids_verifyCertificateVerify negotiated error failed
        · cases failed
      · cases failed
        decide
    · cases fed
  · obtain ⟨suite, secret, cHs, negotiated, derived, client⟩ := orderly.keyed finish.2
    obtain ⟨sHs, server⟩ := orderly.server finish.2
    obtain failed | ⟨_, middle, -, fed⟩ := bind_eq_error_iff.mp fed
    · have whole := failed
      unfold feedFinished at failed
      rw [read_bind_run] at failed
      split_ifs at failed with due
      · cases failed
        decide
      · obtain ⟨failed, -⟩ | ⟨_, verified, -⟩ := lift_bind_eq_error_iff.mp failed
        · exact avoids_verifyServerFinished negotiated server error failed
        · rw [feedFinished_run (not_not.mp due) verified negotiated derived client] at whole
          cases whole
    · cases fed
  · cases fed
    decide

/-! ## Completing -/

/-- A message is a Finished that the transcript so far verifies. -/
def VerifiesFinished (crypto : Crypto RootStore) (self : ClientHandshake RootStore) (msg : Bytes) :
    Prop :=
  ∃ body, splitMessage msg = .ok (HsType.FINISHED, body) ∧
    self.verifyServerFinished crypto body (self.transcriptHash crypto) = .ok ()

/-- The message completed the handshake. -/
def completes (outcome : Except Error (Option Completed)) : Bool :=
  match outcome with
  | .ok (some _) => true
  | _ => false

/-- The handshake after it was fed messages, whatever came of each. -/
def fedAll (crypto : Crypto RootStore) (varint : Varint) (self : ClientHandshake RootStore)
    (messages : List Bytes) : ClientHandshake RootStore :=
  messages.foldl (fun handshake msg => (feed crypto varint msg handshake).2) self

/-- How often feeding the messages completes the handshake. -/
def completions (crypto : Crypto RootStore) (varint : Varint) (self : ClientHandshake RootStore) :
    List Bytes → Nat
  | [] => 0
  | msg :: messages =>
      let fed := feed crypto varint msg self
      (if completes fed.1 then 1 else 0) + completions crypto varint fed.2 messages

/-- What one message does to an orderly handshake. -/
theorem Orderly.feed (orderly : self.Orderly) (msg : Bytes) :
    (ClientHandshake.feed crypto varint msg self).2.Orderly := by
  rcases fed : ClientHandshake.feed crypto varint msg self with ⟨outcome, after⟩
  cases outcome with
  | error error => rwa [orderly.refused fed]
  | ok result => exact orderly.accepts (feed_accepts fed)

theorem Orderly.fedAll (orderly : self.Orderly) (crypto : Crypto RootStore) (varint : Varint)
    (messages : List Bytes) :
    (ClientHandshake.fedAll crypto varint self messages).Orderly :=
  foldl_invariant _ Orderly (fun _ msg orderly => orderly.feed msg) orderly

/-- The completion is noted, and nothing takes the note back. -/
theorem Orderly.done_feed (orderly : self.Orderly) (crypto : Crypto RootStore) (varint : Varint)
    (msg : Bytes) :
    (ClientHandshake.feed crypto varint msg self).2.done =
      (self.done || completes (ClientHandshake.feed crypto varint msg self).1) := by
  rcases fed : ClientHandshake.feed crypto varint msg self with ⟨outcome, after⟩
  cases outcome with
  | error error =>
      rw [orderly.refused fed]
      simp [completes]
  | ok result =>
      cases feed_accepts fed with
      | finished => simp [completes, afterFinished, withApplicationSecrets]
      | serverHello | encryptedExtensions | certificate | certificateVerify =>
          simp [completes, afterServerHello]

/-- A completed handshake takes nothing but a Finished that its transcript verifies. -/
theorem Orderly.completes_iff (orderly : self.Orderly) (done : self.done = true) (msg : Bytes) :
    completes (ClientHandshake.feed crypto varint msg self).1 = true ↔
      self.VerifiesFinished crypto msg := by
  obtain ⟨saw, due⟩ := orderly.finished done
  constructor
  · intro completed
    rcases fed : ClientHandshake.feed crypto varint msg self with ⟨outcome, after⟩
    rw [fed] at completed
    cases outcome with
    | error error => cases completed
    | ok result =>
        cases feed_accepts fed with
        | finished split _ _ verified => exact ⟨_, split, verified⟩
        | serverHello | encryptedExtensions | certificate | certificateVerify => cases completed
  · rintro ⟨body, split, verified⟩
    obtain ⟨suite, secret, cHs, negotiated, derived, client⟩ := orderly.keyed saw
    have ran : feedFinished crypto msg body self = _ :=
      feedFinished_run due verified negotiated derived client
    unfold ClientHandshake.feed
    rw [split, lift_ok_bind_run]
    dsimp only
    rw [read_bind_run, if_neg (by simp [saw]), if_neg fun other => absurd other.1 (by decide),
      if_pos ⟨rfl, saw⟩, bind_of_ok ran]
    rfl

/-- What does not complete a completed handshake does not change it. -/
theorem Orderly.feed_done (orderly : self.Orderly) (done : self.done = true) {msg : Bytes}
    (idle : completes (ClientHandshake.feed crypto varint msg self).1 = false) :
    (ClientHandshake.feed crypto varint msg self).2 = self := by
  obtain ⟨saw, due⟩ := orderly.finished done
  rcases fed : ClientHandshake.feed crypto varint msg self with ⟨outcome, after⟩
  rw [fed] at idle
  cases outcome with
  | error error => exact orderly.refused fed
  | ok result =>
      cases feed_accepts fed with
      | finished => cases idle
      | serverHello _ first => cases first.symm.trans saw
      | encryptedExtensions _ _ other => exact absurd (other.symm.trans due) (by decide)
      | certificate _ _ other => exact absurd (other.symm.trans due) (by decide)
      | certificateVerify _ _ other => exact absurd (other.symm.trans due) (by decide)

/-- No message that is fed after the handshake completed is a Finished that the transcript so far
verifies. -/
def NoSecondFinished (crypto : Crypto RootStore) (varint : Varint) (self : ClientHandshake RootStore)
    (messages : List Bytes) : Prop :=
  ∀ before msg later, messages = before ++ msg :: later →
    (fedAll crypto varint self before).done = true →
      ¬ (fedAll crypto varint self before).VerifiesFinished crypto msg

theorem noSecondFinished_cons {messages : List Bytes} :
    NoSecondFinished crypto varint self (msg :: messages) ↔
      (self.done = true → ¬ self.VerifiesFinished crypto msg) ∧
        NoSecondFinished crypto varint (ClientHandshake.feed crypto varint msg self).2 messages := by
  constructor
  · intro none
    exact ⟨none [] msg messages rfl, fun before other later same =>
      none (msg :: before) other later (congrArg (msg :: ·) same)⟩
  · rintro ⟨first, rest⟩ before other later same
    cases before with
    | nil =>
        obtain ⟨rfl, -⟩ := List.cons.inj same
        exact first
    | cons earlier before =>
        obtain ⟨rfl, behind⟩ := List.cons.inj same
        exact rest before other later behind

theorem completions_cons (crypto : Crypto RootStore) (varint : Varint)
    (self : ClientHandshake RootStore) (msg : Bytes) (messages : List Bytes) :
    completions crypto varint self (msg :: messages) =
      (if completes (feed crypto varint msg self).1 then 1 else 0) +
        completions crypto varint (feed crypto varint msg self).2 messages := rfl

/-- A completed handshake completes again exactly when such a Finished comes. -/
theorem Orderly.completions_eq_zero_iff (orderly : self.Orderly) (crypto : Crypto RootStore)
    (varint : Varint) (done : self.done = true) (messages : List Bytes) : completions crypto varint self messages = 0 ↔
      NoSecondFinished crypto varint self messages := by
  induction messages with
  | nil => exact iff_of_true rfl fun before _ _ same => by simp at same
  | cons msg messages inductionHypothesis =>
      rw [noSecondFinished_cons, completions_cons]
      cases completed : completes (ClientHandshake.feed crypto varint msg self).1 with
      | true =>
          have verifies := (orderly.completes_iff done msg).mp completed
          simp [done, verifies]
      | false =>
          have verifies : ¬ self.VerifiesFinished crypto msg := fun verifies => by
            rw [(orderly.completes_iff done msg).mpr verifies] at completed
            cases completed
          rw [orderly.feed_done done completed, ← inductionHypothesis]
          simp [verifies]

theorem Orderly.completions_le_one_iff (orderly : self.Orderly) (unfinished : self.done = false)
    (messages : List Bytes) : completions crypto varint self messages ≤ 1 ↔
      NoSecondFinished crypto varint self messages := by
  induction messages generalizing self with
  | nil => exact iff_of_true zero_le_one fun before _ _ same => by simp at same
  | cons msg messages inductionHypothesis =>
      have after := orderly.done_feed crypto varint msg
      rw [unfinished, Bool.false_or] at after
      rw [noSecondFinished_cons, completions_cons]
      cases completed : completes (ClientHandshake.feed crypto varint msg self).1 with
      | true =>
          rw [completed] at after
          have none := (orderly.feed msg).completions_eq_zero_iff crypto varint after messages
          have alone (count : Nat) : 1 + count ≤ 1 ↔ count = 0 := by omega
          rw [← none]
          simp [unfinished, alone]
      | false =>
          rw [completed] at after
          rw [← inductionHypothesis (orderly.feed msg) after]
          simp [unfinished]

/-- **Feeding is atomic.** Whatever a handshake was fed, a refused message leaves it as it is, and is
not refused because a suite or a secret is missing; and it completes at most once exactly when no
message after the completion is a Finished that the transcript so far verifies. -/
theorem feed_atomic_completes_once_iff (crypto : Crypto RootStore) (varint : Varint)
    (cfg : ClientConfig RootStore) (entropy : Entropy) (messages : List Bytes) :
    (∀ msg error after,
      ClientHandshake.feed crypto varint msg
        (fedAll crypto varint (greeted varint cfg entropy) messages) = (.error error, after) →
      after = fedAll crypto varint (greeted varint cfg entropy) messages ∧ ¬ Missing error) ∧
    (completions crypto varint (greeted varint cfg entropy) messages ≤ 1 ↔
      NoSecondFinished crypto varint (greeted varint cfg entropy) messages) := by
  have orderly : (fedAll crypto varint (greeted varint cfg entropy) messages).Orderly :=
    orderly_greeted.fedAll crypto varint messages
  refine ⟨fun msg error after refused => ⟨orderly.refused refused, orderly.not_missing refused⟩, ?_⟩
  exact orderly_greeted.completions_le_one_iff rfl messages

end ClientHandshake

namespace Sample

open ClientHandshake

/-- A Finished of the server over a transcript that has the first one. -/
def finishedAgain : Bytes := hsMessage HsType.FINISHED (List.replicate 32 160)

/-- A second Finished completes the handshake again. -/
theorem completed_handshake_completes_again :
    ¬ ∀ messages : List Bytes, completions crypto varint (greeted varint cfg entropy) messages ≤ 1 := by
  intro once
  have twice : completions crypto varint (greeted varint cfg entropy)
      [serverHello, encryptedExtensions, certificate, certificateVerify, finished,
        finishedAgain] = 2 := by
    decide +kernel
  exact absurd (twice ▸ once _) (by decide)

end Sample

end RecurseX.Doq
