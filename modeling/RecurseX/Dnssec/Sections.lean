import RecurseX.Dnssec.Canonical
import RecurseX.Dnssec.Chain

/-!
# The verdict on a section

The verdicts on the groups are folded into one, in an order the fold does not
show: `SectionTally.add` commutes. A group is judged by the canonical form of its
records, so the order of the records does not show either.
-/

namespace RecurseX

open Library Std

variable {crypto : Crypto} {fetch : Fetch} {records others rrsigs : List Record} {nowSecs : UInt32}

/-! ## The order of the records -/

theorem verifyRrsig_perm (same : others.Perm records) (key sig : Record) :
    verifyRrsig crypto key sig others nowSecs = verifyRrsig crypto key sig records nowSecs := by
  unfold verifyRrsig
  simp only [canonicalRrset_congr same]

theorem validateRrset_perm (same : others.Perm records) (keys : List Record) :
    validateRrset crypto others rrsigs keys nowSecs =
      validateRrset crypto records rrsigs keys nowSecs := by
  have tried : tryRrsig crypto others nowSecs = tryRrsig crypto records nowSecs := by
    funext keys attempted sig
    unfold tryRrsig tryKey
    simp only [verifyRrsig_perm same]
  have empty : others = [] ↔ records = [] := by
    rw [← List.length_eq_zero_iff, same.length_eq, List.length_eq_zero_iff]
  unfold validateRrset
  simp only [tried, empty]

/-- A group is judged alike in every order of its records. -/
theorem validateGroup_perm (same : others.Perm records) :
    validateGroup crypto fetch others rrsigs nowSecs =
      validateGroup crypto fetch records rrsigs nowSecs := by
  unfold validateGroup verifyRrsetQuietly
  simp only [verifyRrsig_perm same, validateRrset_perm same]

theorem groupVerdict_perm (same : others.Perm records) (key : Name × RrType) :
    groupVerdict crypto fetch rrsigs nowSecs (key, others) =
      groupVerdict crypto fetch rrsigs nowSecs (key, records) := by
  unfold groupVerdict
  simp only [validateGroup_perm same]

/-- The verdicts on the groups, each with its owner and type. -/
def keyedVerdicts (crypto : Crypto) (fetch : Fetch) (records rrsigs : List Record)
    (nowSecs : UInt32) : List ((Name × RrType) × Option Verdict) :=
  (sectionGroups records).toList.map fun group =>
    (group.1, groupVerdict crypto fetch rrsigs nowSecs group)

theorem map_snd_keyedVerdicts :
    (keyedVerdicts crypto fetch records rrsigs nowSecs).map Prod.snd =
      sectionVerdicts crypto fetch records rrsigs nowSecs := by
  rw [keyedVerdicts, sectionVerdicts, List.map_map]
  rfl

theorem nodup_keyedVerdicts : (keyedVerdicts crypto fetch records rrsigs nowSecs).Nodup := by
  have keys : (keyedVerdicts crypto fetch records rrsigs nowSecs).map Prod.fst =
      (sectionGroups records).keys := by
    rw [keyedVerdicts, List.map_map, ← TreeMap.map_fst_toList_eq_keys]
    rfl
  apply List.Nodup.of_map Prod.fst
  rw [keys]
  exact TreeMap.nodup_keys

theorem keyedVerdicts_subset (same : others.Perm records) :
    keyedVerdicts crypto fetch others rrsigs nowSecs ⊆
      keyedVerdicts crypto fetch records rrsigs nowSecs := by
  intro keyed listed
  obtain ⟨⟨key, group⟩, grouped, rfl⟩ := List.mem_map.mp listed
  obtain ⟨nonempty, rfl⟩ := mem_toList_groupBy.mp grouped
  have reordered := same.filter fun record => (record.name, record.rrType) = key
  refine List.mem_map.mpr ⟨(key, records.filter fun record => (record.name, record.rrType) = key),
    mem_toList_groupBy.mpr ⟨fun empty => nonempty ?_, rfl⟩, ?_⟩
  · rw [empty] at reordered
    exact reordered.eq_nil
  · rw [groupVerdict_perm reordered]

/-- The groups of a section get the same verdicts in every order of its records. -/
theorem sectionVerdicts_perm (same : others.Perm records) :
    (sectionVerdicts crypto fetch others rrsigs nowSecs).Perm
      (sectionVerdicts crypto fetch records rrsigs nowSecs) := by
  rw [← map_snd_keyedVerdicts, ← map_snd_keyedVerdicts]
  refine List.Perm.map Prod.snd ?_
  rw [List.perm_ext_iff_of_nodup nodup_keyedVerdicts nodup_keyedVerdicts]
  exact fun keyed => ⟨fun listed => keyedVerdicts_subset same listed,
    fun listed => keyedVerdicts_subset same.symm listed⟩

/-! ## The fold -/

theorem SectionTally.add_comm (tally : SectionTally) (left right : Option Verdict) :
    (tally.add left).add right = (tally.add right).add left := by
  obtain ⟨signed, authenticated, secure, worst⟩ := tally
  rcases left with _ | left <;> rcases right with _ | right
  · rfl
  · cases right <;> rfl
  · cases left <;> rfl
  · cases left <;> cases right <;> cases worst <;> rfl

/-- The fold is bogus exactly when one of the verdicts is. -/
theorem foldl_add_worst_bogus_iff {verdicts : List (Option Verdict)} {tally : SectionTally} :
    (verdicts.foldl SectionTally.add tally).worst = .bogus ↔
      tally.worst = .bogus ∨ some .bogus ∈ verdicts := by
  induction verdicts generalizing tally with
  | nil => simp
  | cons verdict verdicts inductionHypothesis =>
      rw [List.foldl_cons, inductionHypothesis, List.mem_cons, ← or_assoc]
      refine or_congr_left ?_
      rcases verdict with _ | verdict
      · simp [SectionTally.add]
      · cases verdict with
        | bogus => simp [SectionTally.add]
        | indeterminate =>
            obtain ⟨signed, authenticated, secure, worst⟩ := tally
            cases worst <;> simp [SectionTally.add]
        | _ => simp [SectionTally.add]

/-- A section is bogus exactly when one of its groups is. -/
theorem verifySection_bogus_iff :
    (verifySection crypto fetch records rrsigs nowSecs).1 = .bogus ↔
      some .bogus ∈ sectionVerdicts crypto fetch records rrsigs nowSecs := by
  unfold verifySection sectionVerdicts
  dsimp only
  split_ifs with empty both bogus unsigned
  · simp [empty]
  · rw [foldl_add_allSecure, Bool.true_and, List.all_eq_true] at both
    refine iff_of_false nofun fun listed => ?_
    exact absurd (both.2 _ listed) (by decide)
  · rw [foldl_add_worst_bogus_iff] at bogus
    exact iff_of_true rfl (bogus.resolve_left nofun)
  · rw [foldl_add_worst_bogus_iff] at bogus
    exact iff_of_false nofun fun listed => bogus (.inr listed)
  · rw [foldl_add_worst_bogus_iff]
    simp

/-- A section is reported alike in every order of its records. -/
theorem verifySection_perm (same : others.Perm records) :
    verifySection crypto fetch others rrsigs nowSecs =
      verifySection crypto fetch records rrsigs nowSecs := by
  have empty : (sectionGroups others).toList = [] ↔ (sectionGroups records).toList = [] := by
    rw [toList_sectionGroups_eq_nil_iff, toList_sectionGroups_eq_nil_iff,
      ← List.length_eq_zero_iff, same.length_eq, List.length_eq_zero_iff]
  have verdicts : (sectionVerdicts crypto fetch others rrsigs nowSecs).Perm
      (sectionVerdicts crypto fetch records rrsigs nowSecs) := sectionVerdicts_perm same
  have folded := verdicts.foldl_eq' (f := SectionTally.add)
    (fun left _ right _ tally => tally.add_comm left right) ⟨0, 0, true, .insecure⟩
  unfold sectionVerdicts at folded
  unfold verifySection
  simp only [empty, folded]

/-- **The verdict on a section.** It is secure exactly when there is a group and every group is
secure; it is bogus exactly when some group is; and the order of the records has no part in it. -/
theorem section_verdict (crypto : Crypto) (fetch : Fetch) (records rrsigs : List Record)
    (nowSecs : UInt32) :
    ((verifySection crypto fetch records rrsigs nowSecs).1 = .secure ↔
      (sectionGroups records).toList ≠ [] ∧ ∀ group ∈ (sectionGroups records).toList,
        groupVerdict crypto fetch rrsigs nowSecs group = some .secure) ∧
    ((verifySection crypto fetch records rrsigs nowSecs).1 = .bogus ↔
      ∃ group ∈ (sectionGroups records).toList,
        groupVerdict crypto fetch rrsigs nowSecs group = some .bogus) ∧
    ∀ others : List Record, others.Perm records →
      (verifySection crypto fetch others rrsigs nowSecs).1 =
        (verifySection crypto fetch records rrsigs nowSecs).1 := by
  refine ⟨?_, ?_, fun others same => ?_⟩
  · rw [verifySection_secure_iff, ne_eq, ne_eq, toList_sectionGroups_eq_nil_iff]
    exact and_congr_right fun _ => List.forall_mem_map
  · rw [verifySection_bogus_iff, sectionVerdicts, List.mem_map]
  · rw [verifySection_perm same]

end RecurseX
