import RecurseX.Dnssec.Trust
import RecurseX.Resolver.Basic

/-!
# The verdict for a whole answer chain

A validation reports more than a verdict: where the chain of trust stopped, how
many groups were examined and whether the Authority section holds up. Only
`Verification.permitsAuthenticData` looks at all of it.
-/

namespace RecurseX

open Library

/-- Where the chain of trust actually stopped. -/
inductive ValidationState where
  /-- Nothing could be concluded. -/
  | indeterminate
  /-- No validation applies. -/
  | insecure
  /-- The signature verified, but the chain was not walked to an anchor. -/
  | cryptoVerified
  /-- The full chain reached a configured trust anchor. -/
  | chainAnchored
deriving DecidableEq, Repr

namespace ValidationState

/-- Whether this state permits the `AD` bit. -/
def permitsAuthenticData (self : ValidationState) : Bool := self == .chainAnchored

/-- Whether the data was shown to be authentic at all. -/
def isSignatureVerified (self : ValidationState) : Bool :=
  self == .cryptoVerified || self == .chainAnchored

end ValidationState

/-- The state of a verdict, given whether a trust anchor is configured. -/
def Verdict.state (self : Verdict) (anchored : Bool) : ValidationState :=
  match self with
  | .secure => if anchored then .chainAnchored else .cryptoVerified
  | .insecure => .insecure
  | .indeterminate => .indeterminate
  | .bogus => .indeterminate

/-- A validation report. -/
structure Verification where
  verdict : Verdict
  state : ValidationState
  /-- Answer groups examined. -/
  answerGroups : Nat
  /-- Answer groups whose signature verified. -/
  answerGroupsAuthenticated : Nat
  /-- Whether the Authority section authenticated; `none` when there was nothing
  to check. -/
  authorityAuthenticated : Option Bool
deriving DecidableEq, Repr

namespace Verification

/-- A report for a chain with no answer data. -/
def empty : Verification := ⟨.insecure, .insecure, 0, 0, none⟩

/-- The report of a validation that did not get the validation slot. -/
def preempted : Verification := ⟨.indeterminate, .indeterminate, 0, 0, none⟩

/-- Whether the `AD` bit may be set. -/
def permitsAuthenticData (self : Verification) : Bool :=
  self.state.permitsAuthenticData && decide (0 < self.answerGroups) &&
    self.answerGroups == self.answerGroupsAuthenticated && self.authorityAuthenticated.getD true

end Verification

/-! ## The chain -/

/-- The second of a timestamp, as the 32-bit number signatures are dated with. -/
def timestampSecs (now : Ts) : UInt32 := UInt32.ofNat ((now.tdiv 1000000000) % 2 ^ 32).toNat

/-- Whether a record of the Authority section belongs to the answer. -/
def isRelevant (record : Record) : Bool :=
  record.rrType == .SOA || record.rrType == .NSEC || record.rrType == .NSEC3 ||
    record.rrType == .NS

/-- The RRSIG records of a section. -/
def signatures (records : List Record) : List Record :=
  records.filter fun record => record.rrType == .RRSIG

/-- Whether the Authority section authenticated. -/
def verifyAuthority (crypto : Crypto) (fetch : Fetch) (authorities : List Record)
    (nowSecs : UInt32) : Option Bool :=
  let relevant := authorities.filter isRelevant
  if relevant = [] then none
  else
    let verified := verifySection crypto fetch relevant (signatures authorities) nowSecs
    some (decide (0 < verified.2.1) && verified.2.1 == verified.2.2)

/-- The report for a whole resolution, including its Authority section. -/
def verifyChain (crypto : Crypto) (fetch : Fetch) (answers rrsigs authorities : List Record)
    (anchored : Bool) (nowSecs : UInt32) : Verification :=
  let verified := verifySection crypto fetch answers rrsigs nowSecs
  { verdict := verified.1
    state := verified.1.state anchored
    answerGroups := verified.2.1
    answerGroupsAuthenticated := verified.2.2
    authorityAuthenticated := verifyAuthority crypto fetch authorities nowSecs }

/-- What the outside contributes to one validation. -/
structure Validation where
  /-- What the resolver finds for keys and DS records. -/
  fetch : Fetch
  /-- Whether a validation was running in the process when this one began. -/
  validating : Bool
  now : Ts

/-- Validate a completed resolution. -/
def validateResolutionDetailed (crypto : Crypto) (validation : Validation) (res : Resolution)
    (anchored : Bool) : Verification :=
  if res.answers = [] then .empty
  else if validation.validating then .preempted
  else verifyChain crypto validation.fetch (res.answers.map Sourced.record)
    (res.rrsigs.map Sourced.record) (res.authorities.map Sourced.record) anchored
    (timestampSecs validation.now)

/-- The records of a section that are not RRSIGs. -/
def dataRecords (records : List Record) : List Record :=
  records.filter fun record => record.rrType != .RRSIG

/-- Validate a raw forwarder response. The signatures of its Authority section
are left behind. -/
def validateMessageDetailed (crypto : Crypto) (validation : Validation) (resp : Message)
    (anchored : Bool) : Verification :=
  if resp.answers = [] then .empty
  else if validation.validating then .preempted
  else verifyChain crypto validation.fetch (dataRecords resp.answers) (signatures resp.answers)
    (dataRecords resp.authorities) anchored (timestampSecs validation.now)

/-! ## What the counts mean -/

variable {crypto : Crypto} {fetch : Fetch} {records rrsigs : List Record} {nowSecs : UInt32}

/-- The verdicts on the groups of a section. -/
def sectionVerdicts (crypto : Crypto) (fetch : Fetch) (records rrsigs : List Record)
    (nowSecs : UInt32) : List (Option Verdict) :=
  (sectionGroups records).toList.map (groupVerdict crypto fetch rrsigs nowSecs)

/-- Every RRset of the section verified. -/
def EverySecure (crypto : Crypto) (fetch : Fetch) (records rrsigs : List Record)
    (nowSecs : UInt32) : Prop :=
  ∀ verdict ∈ sectionVerdicts crypto fetch records rrsigs nowSecs, verdict = some .secure

instance : Decidable (EverySecure crypto fetch records rrsigs nowSecs) :=
  inferInstanceAs (Decidable (∀ verdict ∈ sectionVerdicts crypto fetch records rrsigs nowSecs,
    verdict = some .secure))

theorem foldl_add_signedGroups {verdicts : List (Option Verdict)} {tally : SectionTally} :
    (verdicts.foldl SectionTally.add tally).signedGroups =
      tally.signedGroups + verdicts.countP Option.isSome := by
  induction verdicts generalizing tally with
  | nil => rfl
  | cons verdict verdicts inductionHypothesis =>
      rw [List.foldl_cons, inductionHypothesis, List.countP_cons]
      rcases verdict with _ | verdict
      · rfl
      · cases verdict <;> simp [SectionTally.add, Nat.add_assoc, Nat.add_comm]

theorem foldl_add_allSecure {verdicts : List (Option Verdict)} {tally : SectionTally} :
    (verdicts.foldl SectionTally.add tally).allSecure =
      (tally.allSecure && verdicts.all (· == some .secure)) := by
  induction verdicts generalizing tally with
  | nil => simp
  | cons verdict verdicts inductionHypothesis =>
      rw [List.foldl_cons, inductionHypothesis, List.all_cons]
      rcases verdict with _ | verdict
      · simp [SectionTally.add]
      · cases verdict <;> simp [SectionTally.add]

theorem foldl_add_worst_ne_secure {verdicts : List (Option Verdict)} {tally : SectionTally}
    (start : tally.worst ≠ .secure) : (verdicts.foldl SectionTally.add tally).worst ≠ .secure := by
  induction verdicts generalizing tally with
  | nil => exact start
  | cons verdict verdicts inductionHypothesis =>
      rw [List.foldl_cons]
      apply inductionHypothesis
      rcases verdict with _ | verdict
      · exact start
      · cases verdict with
        | indeterminate =>
            simp only [SectionTally.add]
            split
            · intro same
              cases same
            · exact start
        | bogus =>
            intro same
            cases same
        | _ => exact start

theorem toList_sectionGroups_eq_nil_iff :
    (sectionGroups records).toList = [] ↔ records = [] := by
  constructor
  · intro empty
    rcases records with _ | ⟨record, records⟩
    · rfl
    · have grouped : ((record.name, record.rrType),
          (record :: records).filter fun other =>
            (other.name, other.rrType) = (record.name, record.rrType)) ∈
          (sectionGroups (record :: records)).toList :=
        mem_toList_groupBy.mpr ⟨by simp, rfl⟩
      rw [empty] at grouped
      cases grouped
  · rintro rfl
    rfl

/-- A section is secure exactly when it has records and every RRset verified. -/
theorem verifySection_secure_iff :
    (verifySection crypto fetch records rrsigs nowSecs).1 = .secure ↔
      records ≠ [] ∧ EverySecure crypto fetch records rrsigs nowSecs := by
  unfold verifySection
  dsimp only
  split_ifs with empty both bogus unsigned
  · simp [toList_sectionGroups_eq_nil_iff.mp empty]
  · rw [foldl_add_allSecure, Bool.true_and, List.all_eq_true] at both
    simp only [true_iff]
    exact ⟨mt toList_sectionGroups_eq_nil_iff.mpr empty,
      fun verdict member => eq_of_beq (both.2 verdict member)⟩
  all_goals
    have notSecure : ¬ (records ≠ [] ∧ EverySecure crypto fetch records rrsigs nowSecs) := by
      rintro ⟨_, secure⟩
      refine both ⟨?_, ?_⟩
      · obtain ⟨group, member⟩ := List.exists_mem_of_ne_nil _ empty
        have verdict := List.mem_map_of_mem (f := groupVerdict crypto fetch rrsigs nowSecs) member
        rw [foldl_add_signedGroups, Nat.zero_add, List.countP_pos_iff]
        exact ⟨_, verdict, by rw [secure _ verdict]; rfl⟩
      · rw [foldl_add_allSecure, Bool.true_and, List.all_eq_true]
        exact fun verdict member => beq_of_eq (secure verdict member)
    refine iff_of_false ?_ notSecure
  · exact nofun
  · exact nofun
  · exact foldl_add_worst_ne_secure nofun

/-- The second component of the report counts the groups that are signed. -/
theorem verifySection_signed :
    (verifySection crypto fetch records rrsigs nowSecs).2.1 =
      (sectionVerdicts crypto fetch records rrsigs nowSecs).countP Option.isSome := by
  unfold verifySection sectionVerdicts
  dsimp only
  split_ifs with empty
  · simp [empty]
  all_goals
    rw [foldl_add_signedGroups]
    exact Nat.zero_add _

/-- When every RRset verified, all groups were examined and all authenticated. -/
theorem EverySecure.counts (secure : EverySecure crypto fetch records rrsigs nowSecs)
    (nonempty : records ≠ []) :
    0 < (verifySection crypto fetch records rrsigs nowSecs).2.1 ∧
      (verifySection crypto fetch records rrsigs nowSecs).2.1 =
        (verifySection crypto fetch records rrsigs nowSecs).2.2 := by
  have signed : (sectionVerdicts crypto fetch records rrsigs nowSecs).countP Option.isSome =
      (sectionVerdicts crypto fetch records rrsigs nowSecs).length :=
    List.countP_eq_length.mpr fun verdict member => by rw [secure verdict member]; rfl
  have authenticated : (sectionVerdicts crypto fetch records rrsigs nowSecs).count
      (some .secure) = (sectionVerdicts crypto fetch records rrsigs nowSecs).length :=
    List.count_eq_length.mpr fun verdict member => (secure verdict member).symm
  rw [verifySection_signed, verifySection_authenticated]
  change 0 < _ ∧ _ = (sectionVerdicts crypto fetch records rrsigs nowSecs).count (some .secure)
  rw [signed, authenticated]
  refine ⟨List.length_pos_iff.mpr ?_, rfl⟩
  rw [sectionVerdicts, ne_eq, List.map_eq_nil_iff, toList_sectionGroups_eq_nil_iff]
  exact nonempty

/-- An Authority section whose relevant RRsets all verified does not stand in the
way of the `AD` bit. -/
theorem verifyAuthority_of_everySecure {authorities : List Record}
    (secure : EverySecure crypto fetch (authorities.filter isRelevant) (signatures authorities)
      nowSecs) :
    (verifyAuthority crypto fetch authorities nowSecs).getD true = true := by
  unfold verifyAuthority
  dsimp only
  split_ifs with nothing
  · rfl
  · obtain ⟨examined, authenticated⟩ := secure.counts nothing
    simp [authenticated ▸ examined, authenticated]

end RecurseX
