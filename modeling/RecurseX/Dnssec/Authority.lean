import RecurseX.Dnssec.Chain

/-!
# The Authority section

The Authority section counts as authenticated when as many of its groups are secure
as are signed. Groups without a signature are not among those that are counted, and
the section of a forwarder's response arrives here without its signatures.
-/

namespace RecurseX

open Library

variable {crypto : Crypto} {fetch : Fetch} {nowSecs : UInt32}

/-- The groups of an Authority section that belong to the answer. -/
def authorityGroups (authorities : List Record) : List ((Name × RrType) × List Record) :=
  (sectionGroups (authorities.filter isRelevant)).toList

/-- The signatures of the section that a group is checked against. -/
def groupSignatures (authorities : List Record) (group : (Name × RrType) × List Record) :
    List Record :=
  coveredBy (signatures authorities) group.1.1 group.1.2

/-- Every group of the section is secure by itself. -/
def AuthorityGroupsSecure (crypto : Crypto) (fetch : Fetch) (authorities : List Record)
    (nowSecs : UInt32) : Prop :=
  ∀ group ∈ authorityGroups authorities, groupSignatures authorities group ≠ []
    ∧ validateGroup crypto fetch group.2 (groupSignatures authorities group) nowSecs = .secure

/-- The groups of the section with the signatures they are checked against. -/
def authorityChecks (authorities : List Record) : List ((Name × RrType) × List Record) :=
  (authorityGroups authorities).map fun group => (group.1, groupSignatures authorities group)

/-- The Authority section of a response as the validation of the response passes it on. -/
def forwardedAuthority (resp : Message) : List Record := dataRecords resp.authorities

theorem validateMessageDetailed_eq (crypto : Crypto) (validation : Validation) {resp : Message}
    (anchored : Bool) (answered : resp.answers ≠ []) (alone : validation.validating = false) :
    validateMessageDetailed crypto validation resp anchored
      = verifyChain crypto validation.fetch (dataRecords resp.answers) (signatures resp.answers)
        (forwardedAuthority resp) anchored (timestampSecs validation.now) := by
  unfold validateMessageDetailed
  rw [if_neg answered, alone]
  rfl

theorem groupVerdict_eq (authorities : List Record) (group : (Name × RrType) × List Record) :
    groupVerdict crypto fetch (signatures authorities) nowSecs group
      = if groupSignatures authorities group = [] then none
        else some (validateGroup crypto fetch group.2 (groupSignatures authorities group) nowSecs) :=
  rfl

/-- As many values are present as are equal to one of them when the others are absent. -/
theorem countP_isSome_eq_count_iff {α : Type} [DecidableEq α] {items : List (Option α)}
    {value : α} :
    items.countP Option.isSome = items.count (some value)
      ↔ ∀ item ∈ items, item.isSome = true → item = some value := by
  have fewer : ∀ items : List (Option α),
      items.count (some value) ≤ items.countP Option.isSome := fun items =>
    List.countP_mono_left fun item _ same => by rw [eq_of_beq same]; rfl
  induction items with
  | nil => simp
  | cons item items inductionHypothesis =>
      have rest := fewer items
      refine Iff.trans ?_
        ((and_congr_right fun _ => inductionHypothesis).trans List.forall_mem_cons.symm)
      rw [List.countP_cons, List.count_cons]
      cases item with
      | none => simp
      | some other =>
          by_cases same : other = value
          · subst same
            simp
          · have apart : (some other == some value) = false := by simpa using same
            simp [apart, same]
            omega

/-- The report says authenticated when some group is signed and every signed group is secure. -/
theorem verifyAuthority_eq_some_true_iff {authorities : List Record} :
    verifyAuthority crypto fetch authorities nowSecs = some true
      ↔ (∃ group ∈ authorityGroups authorities, groupSignatures authorities group ≠ [])
        ∧ ∀ group ∈ authorityGroups authorities, groupSignatures authorities group ≠ [] →
          validateGroup crypto fetch group.2 (groupSignatures authorities group) nowSecs
            = .secure := by
  have signed : 0 < (sectionVerdicts crypto fetch (authorities.filter isRelevant)
        (signatures authorities) nowSecs).countP Option.isSome
      ↔ ∃ group ∈ authorityGroups authorities, groupSignatures authorities group ≠ [] := by
    rw [List.countP_pos_iff, sectionVerdicts]
    simp only [List.mem_map, exists_exists_and_eq_and, groupVerdict_eq]
    refine exists_congr fun group => and_congr_right fun _ => ?_
    split_ifs with unsigned
    · simp [unsigned]
    · simp [unsigned]
  have secure : (sectionVerdicts crypto fetch (authorities.filter isRelevant)
        (signatures authorities) nowSecs).countP Option.isSome
        = (sectionVerdicts crypto fetch (authorities.filter isRelevant)
          (signatures authorities) nowSecs).count (some .secure)
      ↔ ∀ group ∈ authorityGroups authorities, groupSignatures authorities group ≠ [] →
          validateGroup crypto fetch group.2 (groupSignatures authorities group) nowSecs
            = .secure := by
    rw [countP_isSome_eq_count_iff, sectionVerdicts, List.forall_mem_map]
    refine forall₂_congr fun group _ => ?_
    rw [groupVerdict_eq]
    split_ifs with unsigned
    · simp [unsigned]
    · simp [unsigned]
  unfold verifyAuthority
  dsimp only
  rw [verifySection_signed, verifySection_authenticated]
  change (if _ then none else some (decide _ && (_ == List.count (some Verdict.secure)
    (sectionVerdicts crypto fetch (authorities.filter isRelevant) (signatures authorities) nowSecs))))
      = some true ↔ _
  split_ifs with nothing
  · refine iff_of_false (fun same => by cases same) ?_
    rintro ⟨⟨group, member, -⟩, -⟩
    rw [authorityGroups, toList_sectionGroups_eq_nil_iff.mpr nothing] at member
    cases member
  · rw [Option.some_inj, Bool.and_eq_true, decide_eq_true_iff, beq_iff_eq, signed, secure]

/-- What a response's validation passes on has the groups of the section and no signatures. -/
theorem authorityChecks_forwarded (resp : Message) :
    authorityChecks (forwardedAuthority resp)
      = (authorityGroups resp.authorities).map fun group => (group.1, []) := by
  have relevant : (dataRecords resp.authorities).filter isRelevant
      = resp.authorities.filter isRelevant := by
    unfold dataRecords
    rw [List.filter_filter]
    refine List.filter_congr fun record _ => Bool.and_eq_left_iff_imp.mpr fun relevant => ?_
    simp only [isRelevant, Bool.or_eq_true, beq_iff_eq] at relevant
    rcases relevant with ((soa | nsec) | nsec3) | ns
    · rw [soa]
      rfl
    · rw [nsec]
      rfl
    · rw [nsec3]
      rfl
    · rw [ns]
      rfl
  have unsigned : signatures (dataRecords resp.authorities) = [] := by
    unfold signatures dataRecords
    rw [List.filter_filter, List.filter_eq_nil_iff]
    intro record _
    simp [bne]
  unfold authorityChecks authorityGroups groupSignatures forwardedAuthority
  rw [relevant, unsigned]
  rfl

/-- The report on a response never says that its Authority section is authenticated. -/
theorem validateMessageDetailed_authority (crypto : Crypto) (validation : Validation)
    (resp : Message) (anchored : Bool) :
    (validateMessageDetailed crypto validation resp anchored).authorityAuthenticated
      ≠ some true := by
  by_cases unanswered : resp.answers = []
  · unfold validateMessageDetailed
    rw [if_pos unanswered]
    exact (Option.some_ne_none true).symm
  · cases slot : validation.validating with
    | true =>
        unfold validateMessageDetailed
        rw [if_neg unanswered, slot]
        exact (Option.some_ne_none true).symm
    | false =>
        rw [validateMessageDetailed_eq crypto validation anchored unanswered slot]
        intro authenticated
        obtain ⟨⟨group, member, signed⟩, -⟩ := verifyAuthority_eq_some_true_iff.mp authenticated
        have checked : (group.1, groupSignatures (forwardedAuthority resp) group)
            ∈ authorityChecks (forwardedAuthority resp) := List.mem_map_of_mem member
        rw [authorityChecks_forwarded] at checked
        obtain ⟨other, -, same⟩ := List.mem_map.mp checked
        exact signed (Prod.mk.inj same).2.symm

/-- Authenticated means that every group is secure exactly when no unsigned group stands among
signed groups that all are; and the groups of a response are checked against the signatures of
its section exactly when those cover none of them. -/
theorem authority_all_rule_iff (crypto : Crypto) (fetch : Fetch)
    (answers rrsigs authorities : List Record) (resp : Message) (anchored : Bool)
    (nowSecs : UInt32) :
    (((verifyChain crypto fetch answers rrsigs authorities anchored nowSecs).authorityAuthenticated
          = some true → AuthorityGroupsSecure crypto fetch authorities nowSecs)
      ↔ (∀ group ∈ authorityGroups authorities, groupSignatures authorities group ≠ [])
        ∨ (∀ group ∈ authorityGroups authorities, groupSignatures authorities group = [])
        ∨ ∃ group ∈ authorityGroups authorities, groupSignatures authorities group ≠ []
          ∧ validateGroup crypto fetch group.2 (groupSignatures authorities group) nowSecs
            ≠ .secure)
    ∧ (authorityChecks (forwardedAuthority resp) = authorityChecks resp.authorities
      ↔ ∀ group ∈ authorityGroups resp.authorities,
          groupSignatures resp.authorities group = []) := by
  constructor
  · have report : (verifyChain crypto fetch answers rrsigs authorities anchored
        nowSecs).authorityAuthenticated = verifyAuthority crypto fetch authorities nowSecs := rfl
    rw [report, verifyAuthority_eq_some_true_iff]
    constructor
    · intro all
      by_cases someSigned : ∃ group ∈ authorityGroups authorities,
          groupSignatures authorities group ≠ []
      · by_cases signedSecure : ∀ group ∈ authorityGroups authorities,
            groupSignatures authorities group ≠ [] →
              validateGroup crypto fetch group.2 (groupSignatures authorities group) nowSecs
                = .secure
        · exact .inl fun group member => (all ⟨someSigned, signedSecure⟩ group member).1
        · push Not at signedSecure
          exact .inr (.inr signedSecure)
      · push Not at someSigned
        exact .inr (.inl someSigned)
    · rintro (allSigned | unsigned | ⟨group, member, signed, insecure⟩) ⟨⟨one, oneMember, oneSigned⟩,
        signedSecure⟩
      · exact fun group member =>
          ⟨allSigned group member, signedSecure group member (allSigned group member)⟩
      · exact absurd (unsigned one oneMember) oneSigned
      · exact absurd (signedSecure group member signed) insecure
  · rw [authorityChecks_forwarded, authorityChecks, List.map_inj_left]
    refine forall₂_congr fun group _ => ?_
    rw [Prod.mk.injEq, and_iff_right rfl]
    exact eq_comm

/-- The name servers of `com`, signed by `com`. -/
def comServers : List Record :=
  [⟨⟨[3, 99, 111, 109, 0]⟩, .NS, .IN, 3600, .ns ⟨[0]⟩⟩,
    ⟨⟨[3, 99, 111, 109, 0]⟩, .RRSIG, .IN, 3600,
      .rrsig .NS .RSASHA256 1 3600 100 0 1288 ⟨[3, 99, 111, 109, 0]⟩
        [0, 2, 8, 1, 0, 0, 14, 16, 0, 0, 0, 100, 0, 0, 0, 0, 5, 8, 3, 99, 111, 109, 0,
          3, 99, 111, 109, 0, 0, 2, 0, 1]⟩]

/-- The name servers of `www.com`, not signed at all. -/
def unsignedServers : Record :=
  ⟨⟨[3, 119, 119, 119, 3, 99, 111, 109, 0]⟩, .NS, .IN, 3600, .ns ⟨[0]⟩⟩

/-- A forwarder's response with the signed name servers. -/
def serversResponse : Message :=
  ⟨0, .fromU16 0x8180, [], [wwwRecord], comServers, [], none⟩

/-- The unsigned name servers ride along with the signed ones, and the signature of the signed
ones does not reach the validation of a response. -/
theorem unsigned_servers_ride_along :
    ¬ ((verifyChain plainCrypto (fetchKeys fun _ => []) [] [] (unsignedServers :: comServers) true
          50).authorityAuthenticated = some true →
        AuthorityGroupsSecure plainCrypto (fetchKeys fun _ => []) (unsignedServers :: comServers) 50)
      ∧ authorityChecks (forwardedAuthority serversResponse)
        ≠ authorityChecks serversResponse.authorities := by
  constructor
  · intro all
    have secure := all (by decide +kernel)
    unfold AuthorityGroupsSecure at secure
    revert secure
    decide +kernel
  · decide

end RecurseX
