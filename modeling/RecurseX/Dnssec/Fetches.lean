import RecurseX.Dnssec.Chain

/-!
# What a validation fetches

`verifyChain` calls back into the resolver for keys and DS records. The functions
here follow it and list the calls, in order; `verifyChain_congr` says that no
other answer of the resolver matters. Two groups of one signer are two calls,
which need not find the same, so every group has its own.
-/

namespace RecurseX

open Library

variable (crypto : Crypto) (nowSecs : UInt32)

/-- The DS calls for the keys that verify a group, until one of them is anchored. -/
def anchorFetches (fetch : Fetch) (signer : Name) (records rrsigs : List Record) :
    List Record → List (Name × RrType)
  | [] => []
  | key :: keys =>
      if verifyRrsetQuietly crypto records rrsigs key nowSecs then
        (signer, .DS) ::
          if keyIsAnchored crypto fetch signer key then []
          else anchorFetches fetch signer records rrsigs keys
      else anchorFetches fetch signer records rrsigs keys

/-- The calls of `validateGroup`. -/
def groupFetches (fetch : Fetch) (records rrsigs : List Record) : List (Name × RrType) :=
  match rrsigs.head?.bind rrsigSigner with
  | none => []
  | some signer =>
      (signer, .DNSKEY) ::
        match fetch signer .DNSKEY with
        | none => []
        | some answers =>
            anchorFetches crypto nowSecs fetch signer records rrsigs (zoneKeys signer answers)

/-- The calls of `verifySection`. -/
def sectionFetches (fetch : Name × RrType → Fetch) (records rrsigs : List Record) :
    List (Name × RrType) :=
  (sectionGroups records).toList.flatMap fun group =>
    groupFetches crypto nowSecs (fetch group.1) group.2 (coveredBy rrsigs group.1.1 group.1.2)

/-- What the calls of one validation find, group by group of either section. -/
structure KeySource where
  answers : Name × RrType → Fetch
  authorities : Name × RrType → Fetch

/-- A resolver that finds the same whenever it is called. -/
def KeySource.constant (fetch : Fetch) : KeySource := ⟨fun _ => fetch, fun _ => fetch⟩

/-- The calls of `verifyChain`. -/
def chainFetches (source : KeySource) (answers rrsigs authorities : List Record) :
    List (Name × RrType) :=
  sectionFetches crypto nowSecs source.answers answers rrsigs ++
    sectionFetches crypto nowSecs source.authorities (authorities.filter isRelevant)
      (signatures authorities)

/-! ## What is called for -/

/-- The zone made the first signature of the group. For its DS records, one of its
keys has to verify the group. -/
def GroupNeeds (fetch : Fetch) (records rrsigs : List Record) (zone : Name) (rrType : RrType) :
    Prop :=
  rrsigs.head?.bind rrsigSigner = some zone ∧
    (rrType = .DNSKEY ∨ rrType = .DS ∧ ∃ answers, fetch zone .DNSKEY = some answers ∧
      ∃ key ∈ zoneKeys zone answers, verifyRrsetQuietly crypto records rrsigs key nowSecs = true)

/-- Some group of the section needs the records. -/
def SectionNeeds (fetch : Name × RrType → Fetch) (records rrsigs : List Record) (zone : Name)
    (rrType : RrType) : Prop :=
  ∃ group ∈ (sectionGroups records).toList, GroupNeeds crypto nowSecs (fetch group.1) group.2
    (coveredBy rrsigs group.1.1 group.1.2) zone rrType

/-- Some group of the answer section, or of what belongs to it in the Authority
section, needs the records. -/
def ChainNeeds (source : KeySource) (answers rrsigs authorities : List Record) (zone : Name)
    (rrType : RrType) : Prop :=
  SectionNeeds crypto nowSecs source.answers answers rrsigs zone rrType ∨
    SectionNeeds crypto nowSecs source.authorities (authorities.filter isRelevant)
      (signatures authorities) zone rrType

variable {crypto nowSecs}

theorem mem_anchorFetches_iff {fetch : Fetch} {signer zone : Name} {rrType : RrType}
    {records rrsigs keys : List Record} :
    (zone, rrType) ∈ anchorFetches crypto nowSecs fetch signer records rrsigs keys ↔
      zone = signer ∧ rrType = .DS ∧
        ∃ key ∈ keys, verifyRrsetQuietly crypto records rrsigs key nowSecs = true := by
  induction keys with
  | nil => simp [anchorFetches]
  | cons key keys inductionHypothesis =>
      simp only [anchorFetches]
      split_ifs with verifies anchored
      · simp [verifies]
      · have first : ∃ other ∈ key :: keys,
            verifyRrsetQuietly crypto records rrsigs other nowSecs = true :=
          ⟨key, List.mem_cons_self, verifies⟩
        rw [List.mem_cons, inductionHypothesis, Prod.mk.injEq]
        constructor
        · rintro (⟨rfl, rfl⟩ | ⟨rfl, rfl, _⟩)
          · exact ⟨rfl, rfl, first⟩
          · exact ⟨rfl, rfl, first⟩
        · rintro ⟨rfl, rfl, _⟩
          exact .inl ⟨rfl, rfl⟩
      · simp [verifies, inductionHypothesis]

/-- A group calls for what it needs, and for nothing else. -/
theorem mem_groupFetches_iff {fetch : Fetch} {records rrsigs : List Record} {zone : Name}
    {rrType : RrType} :
    (zone, rrType) ∈ groupFetches crypto nowSecs fetch records rrsigs ↔
      GroupNeeds crypto nowSecs fetch records rrsigs zone rrType := by
  unfold groupFetches GroupNeeds
  cases rrsigs.head?.bind rrsigSigner with
  | none => simp
  | some signer =>
      dsimp only
      rw [List.mem_cons, Prod.mk.injEq, Option.some.injEq]
      cases found : fetch signer .DNSKEY with
      | none =>
          constructor
          · rintro (⟨rfl, rfl⟩ | impossible)
            · exact ⟨rfl, .inl rfl⟩
            · cases impossible
          · rintro ⟨rfl, rfl | ⟨_, answers, fetched, _⟩⟩
            · exact .inl ⟨rfl, rfl⟩
            · rw [found] at fetched
              cases fetched
      | some answers =>
          rw [mem_anchorFetches_iff]
          constructor
          · rintro (⟨rfl, rfl⟩ | ⟨rfl, rfl, verifies⟩)
            · exact ⟨rfl, .inl rfl⟩
            · exact ⟨rfl, .inr ⟨rfl, answers, found, verifies⟩⟩
          · rintro ⟨rfl, rfl | ⟨rfl, others, fetched, verifies⟩⟩
            · exact .inl ⟨rfl, rfl⟩
            · rw [found] at fetched
              obtain rfl := Option.some.inj fetched
              exact .inr ⟨rfl, rfl, verifies⟩

theorem mem_sectionFetches_iff {fetch : Name × RrType → Fetch} {records rrsigs : List Record}
    {zone : Name} {rrType : RrType} :
    (zone, rrType) ∈ sectionFetches crypto nowSecs fetch records rrsigs ↔
      SectionNeeds crypto nowSecs fetch records rrsigs zone rrType := by
  simp only [sectionFetches, SectionNeeds, List.mem_flatMap, mem_groupFetches_iff]

theorem mem_chainFetches_iff {source : KeySource} {answers rrsigs authorities : List Record}
    {zone : Name} {rrType : RrType} :
    (zone, rrType) ∈ chainFetches crypto nowSecs source answers rrsigs authorities ↔
      ChainNeeds crypto nowSecs source answers rrsigs authorities zone rrType := by
  rw [chainFetches, List.mem_append, mem_sectionFetches_iff, mem_sectionFetches_iff]
  rfl

instance (source : KeySource) (answers rrsigs authorities : List Record) (zone : Name)
    (rrType : RrType) :
    Decidable (ChainNeeds crypto nowSecs source answers rrsigs authorities zone rrType) :=
  decidable_of_iff _ mem_chainFetches_iff

/-! ## Nothing else is called for -/

section Congr

variable {fetch other : Fetch}

/-- Two resolvers that find the same for these calls. -/
def Agree (fetch other : Fetch) (calls : List (Name × RrType)) : Prop :=
  ∀ call ∈ calls, fetch call.1 call.2 = other call.1 call.2

/-- Whether a key is anchored is asked only of a key that verifies. -/
theorem any_anchored_congr {signer : Name} {records rrsigs keys : List Record}
    (delegated : (∃ key ∈ keys, verifyRrsetQuietly crypto records rrsigs key nowSecs = true) →
      fetch signer .DS = other signer .DS) :
    (keys.any fun key => verifyRrsetQuietly crypto records rrsigs key nowSecs &&
        keyIsAnchored crypto fetch signer key) =
      keys.any fun key => verifyRrsetQuietly crypto records rrsigs key nowSecs &&
        keyIsAnchored crypto other signer key := by
  by_cases verified : ∃ key ∈ keys, verifyRrsetQuietly crypto records rrsigs key nowSecs = true
  · have same : keyIsAnchored crypto fetch signer = keyIsAnchored crypto other signer := by
      ext key
      rw [keyIsAnchored, keyIsAnchored, delegated verified]
    rw [same]
  · have nothing (resolver : Fetch) : (keys.any fun key =>
        verifyRrsetQuietly crypto records rrsigs key nowSecs &&
          keyIsAnchored crypto resolver signer key) = false := by
      rw [List.any_eq_false]
      intro key member holds
      exact verified ⟨key, member, (Bool.and_eq_true_iff.mp holds).1⟩
    rw [nothing, nothing]

theorem validateGroup_congr {records rrsigs : List Record}
    (agree : Agree fetch other (groupFetches crypto nowSecs fetch records rrsigs)) :
    validateGroup crypto fetch records rrsigs nowSecs =
      validateGroup crypto other records rrsigs nowSecs := by
  unfold validateGroup
  cases first : rrsigs.head? with
  | none => rfl
  | some sig =>
      dsimp only
      cases signed : rrsigSigner sig with
      | none => rfl
      | some signer =>
          dsimp only
          have signs : rrsigs.head?.bind rrsigSigner = some signer := by rw [first]; exact signed
          have keys : fetch signer .DNSKEY = other signer .DNSKEY :=
            agree _ (mem_groupFetches_iff.mpr ⟨signs, .inl rfl⟩)
          rw [← keys]
          cases found : fetch signer .DNSKEY with
          | none => rfl
          | some answers =>
              dsimp only
              rw [any_anchored_congr]
              rintro ⟨key, member, verifies⟩
              exact agree (signer, .DS) (mem_groupFetches_iff.mpr
                ⟨signs, .inr ⟨rfl, answers, found, key, member, verifies⟩⟩)

theorem verifySection_congr {records rrsigs : List Record}
    (agree : Agree fetch other (sectionFetches crypto nowSecs (fun _ => fetch) records rrsigs)) :
    verifySection crypto fetch records rrsigs nowSecs =
      verifySection crypto other records rrsigs nowSecs := by
  have verdicts : (sectionGroups records).toList.map (groupVerdict crypto fetch rrsigs nowSecs) =
      (sectionGroups records).toList.map (groupVerdict crypto other rrsigs nowSecs) := by
    refine List.map_congr_left fun group member => ?_
    unfold groupVerdict
    dsimp only
    rw [validateGroup_congr fun call made => agree call (List.mem_flatMap.mpr ⟨group, member, made⟩)]
  unfold verifySection
  dsimp only
  rw [verdicts]

/-- The report of a validation depends on what its calls find, and on nothing else
the resolver has. -/
theorem verifyChain_congr {answers rrsigs authorities : List Record} {anchored : Bool}
    (agree : Agree fetch other
      (chainFetches crypto nowSecs (.constant fetch) answers rrsigs authorities)) :
    verifyChain crypto fetch answers rrsigs authorities anchored nowSecs =
      verifyChain crypto other answers rrsigs authorities anchored nowSecs := by
  have section_ : verifySection crypto fetch answers rrsigs nowSecs =
      verifySection crypto other answers rrsigs nowSecs :=
    verifySection_congr fun call made => agree call (List.mem_append_left _ made)
  have authority : verifySection crypto fetch (authorities.filter isRelevant)
        (signatures authorities) nowSecs =
      verifySection crypto other (authorities.filter isRelevant) (signatures authorities) nowSecs :=
    verifySection_congr fun call made => agree call (List.mem_append_right _ made)
  unfold verifyChain verifyAuthority
  dsimp only
  rw [section_, authority]

end Congr

end RecurseX
