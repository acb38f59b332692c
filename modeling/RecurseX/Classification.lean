import RecurseX.Engine
import RecurseX.Name.Built

/-!
# What a classification depends on

The walk over the answer section sorts out the data of the type asked for and the
first alias of each kind (`AnswerScan.foldl_step`). The tests after it are a cascade:
RCODE 3, data, CNAME, DNAME, SOA, referral. `alias_outcome_iff` says when an alias in
the answer section is followed, and `leadsTowards_iff` when a referral goes to a zone
between the current one and the name.
-/

namespace RecurseX

open Library

section Answers

variable (qname : Name) (qtype : RrType)

/-- Data of the type asked for. Signatures are set aside before. -/
def Record.isData (record : Record) : Bool :=
  record.rrType != .RRSIG && record.name == qname && record.rrType == qtype

/-- A CNAME of the name, where it is not data. -/
def Record.isCname (record : Record) : Bool :=
  record.name == qname && record.rrType == .CNAME && qtype != .CNAME

/-- A DNAME above the name. -/
def Record.isDname (record : Record) : Bool :=
  record.rrType == .DNAME && qname.isStrictSubdomainOf record.name

/-- What the walk has collected behind some records. -/
def AnswerScan.appended (scan : AnswerScan) (records : List Record) : AnswerScan where
  rrsigs := scan.rrsigs ++ records.filter fun record => record.rrType == .RRSIG
  answerData := scan.answerData ++ records.filter (Record.isData qname qtype)
  cname := scan.cname.or (records.find? (Record.isCname qname qtype))
  dname := scan.dname.or (records.find? (Record.isDname qname))

variable {qname qtype}

theorem AnswerScan.appended_nil (scan : AnswerScan) : scan.appended qname qtype [] = scan := by
  simp [AnswerScan.appended]

theorem AnswerScan.appended_cons (scan : AnswerScan) (record : Record) (records : List Record) :
    scan.appended qname qtype (record :: records) =
      (scan.appended qname qtype [record]).appended qname qtype records := by
  unfold AnswerScan.appended
  congr 1
  · rw [List.append_assoc, ← List.filter_append, List.singleton_append]
  · rw [List.append_assoc, ← List.filter_append, List.singleton_append]
  · rw [Option.or_assoc, ← List.find?_append, List.singleton_append]
  · rw [Option.or_assoc, ← List.find?_append, List.singleton_append]

theorem AnswerScan.stepOwned_eq (scan : AnswerScan) (record : Record)
    (plain : record.rrType ≠ .RRSIG) (owned : record.name = qname) :
    scan.stepOwned qtype record =
      { scan with
        answerData := (scan.appended qname qtype [record]).answerData
        cname := (scan.appended qname qtype [record]).cname } := by
  unfold AnswerScan.stepOwned AnswerScan.appended
  by_cases typed : record.rrType = qtype
  · have data : Record.isData qname qtype record = true := by
      simp [Record.isData, plain, owned, ← typed]
    have noCname : Record.isCname qname qtype record = false := by simp [Record.isCname, ← typed]
    simp [typed, data, noCname]
  · have noData : Record.isData qname qtype record = false := by simp [Record.isData, typed]
    by_cases redirect : record.rrType = .CNAME
    · have cname : Record.isCname qname qtype record = true := by
        have other : qtype ≠ .CNAME := fun same => typed (redirect.trans same.symm)
        simp [Record.isCname, owned, redirect, other]
      have different : RrType.CNAME ≠ qtype := redirect ▸ typed
      obtain ⟨_, _, earlier, _⟩ := scan
      cases earlier <;> simp [redirect, different, noData, cname]
    · have noCname : Record.isCname qname qtype record = false := by
        simp [Record.isCname, redirect]
      simp [typed, redirect, noData, noCname]

/-- One record of the answer section is sorted by these three tests. -/
theorem AnswerScan.step_eq (scan : AnswerScan) (record : Record) :
    scan.step qname qtype record = scan.appended qname qtype [record] := by
  unfold AnswerScan.step
  by_cases signature : record.rrType = .RRSIG
  · have noCname : Record.isCname qname qtype record = false := by
      simp [Record.isCname, signature, show RrType.RRSIG ≠ .CNAME by decide]
    have noDname : Record.isDname qname record = false := by
      simp [Record.isDname, signature, show RrType.RRSIG ≠ .DNAME by decide]
    simp [AnswerScan.appended, Record.isData, noCname, noDname, signature]
  · have middle : (if record.name = qname then scan.stepOwned qtype record else scan) =
        { scan with
          answerData := (scan.appended qname qtype [record]).answerData
          cname := (scan.appended qname qtype [record]).cname } := by
      split
      · rename_i owned
        exact scan.stepOwned_eq record signature owned
      · rename_i foreign
        simp [AnswerScan.appended, Record.isData, Record.isCname, foreign]
    rw [if_neg signature]
    dsimp only
    rw [middle]
    by_cases redirect : Record.isDname qname record = true
    · have tests := redirect
      simp only [Record.isDname, Bool.and_eq_true, beq_iff_eq] at tests
      have plain : RrType.DNAME ≠ .RRSIG := by decide
      cases earlier : scan.dname <;>
        simp [AnswerScan.appended, plain, tests.1, tests.2, redirect, earlier]
    · have tests : ¬ (record.rrType = .DNAME ∧ qname.isStrictSubdomainOf record.name = true) := by
        simpa [Record.isDname] using redirect
      simp [AnswerScan.appended, signature, redirect, ← and_assoc, tests]

/-- What the walk over the answer section collects. -/
theorem AnswerScan.foldl_step (scan : AnswerScan) (records : List Record) :
    records.foldl (AnswerScan.step qname qtype) scan = scan.appended qname qtype records := by
  induction records generalizing scan with
  | nil => exact scan.appended_nil.symm
  | cons record records inductionHypothesis =>
      rw [List.foldl_cons, inductionHypothesis, scan.step_eq, ← scan.appended_cons]

end Answers

/-! ## The cascade -/

/-- The answer section holds data of the type asked for. -/
def Message.HasData (msg : Message) (qname : Name) (qtype : RrType) : Prop :=
  ∃ record ∈ msg.answers, record.rrType ≠ .RRSIG ∧ record.name = qname ∧ record.rrType = qtype

/-- A CNAME of the name, or a DNAME that applies to it. -/
def Record.Redirects (record : Record) (qname : Name) : Prop :=
  (record.name = qname ∧ record.rrType = .CNAME) ∨
    (record.rrType = .DNAME ∧ qname.isStrictSubdomainOf record.name = true)

/-- The answer section leads from the name to another one. -/
def Message.Aliases (msg : Message) (qname : Name) : Prop :=
  ∃ record ∈ msg.answers, record.Redirects qname

/-- An alias of the message drives the resolution. -/
def ResponseKind.FollowsAlias (msg : Message) (qname : Name) (kind : ResponseKind) : Prop :=
  ∃ record ∈ msg.answers, record.Redirects qname ∧
    ((∃ rrsigs, kind = .cname record rrsigs) ∨ kind = .dname record)

/-- The name is denied. -/
def ResponseKind.Denies (kind : ResponseKind) : Prop := ∃ rcode soa, kind = .negative rcode soa

variable {msg : Message} {qname zone child : Name} {qtype : RrType} {ns glue : List Record}

theorem filter_isData_eq_nil_iff :
    msg.answers.filter (Record.isData qname qtype) = [] ↔ ¬ msg.HasData qname qtype := by
  simp [List.filter_eq_nil_iff, Record.isData, Message.HasData]

/-- Where there is no data, the two aliases are what is found first. -/
theorem not_aliases_iff (bare : ¬ msg.HasData qname qtype) :
    ¬ msg.Aliases qname ↔ msg.answers.find? (Record.isCname qname qtype) = none ∧
      msg.answers.find? (Record.isDname qname) = none := by
  have asked (record : Record) (listed : record ∈ msg.answers) (owned : record.name = qname)
      (cname : record.rrType = .CNAME) : qtype ≠ .CNAME := by
    intro same
    exact bare ⟨record, listed, by rw [cname]; decide, owned, cname.trans same.symm⟩
  rw [List.find?_eq_none, List.find?_eq_none]
  constructor
  · intro none
    refine ⟨fun record listed found => none ⟨record, listed, .inl ?_⟩,
      fun record listed found => none ⟨record, listed, .inr ?_⟩⟩
    · simp only [Record.isCname, Bool.and_eq_true, beq_iff_eq] at found
      exact found.1
    · simpa [Record.isDname] using found
  · rintro ⟨noCname, noDname⟩ ⟨record, listed, ⟨owned, cname⟩ | dname⟩
    · exact noCname record listed (by simp [Record.isCname, owned, cname, asked record listed owned cname])
    · exact noDname record listed (by simpa [Record.isDname] using dname)

/-- The walk over the whole answer section. -/
theorem AnswerScan.foldl_step_new (records : List Record) :
    records.foldl (AnswerScan.step qname qtype) .new =
      ⟨records.filter fun record => record.rrType == .RRSIG,
        records.filter (Record.isData qname qtype),
        records.find? (Record.isCname qname qtype), records.find? (Record.isDname qname)⟩ := by
  rw [AnswerScan.foldl_step]
  simp [AnswerScan.appended, AnswerScan.new]

theorem classifyResponse_of_rcode (denied : msg.rcode = 3) :
    classifyResponse msg qname qtype zone = .negative .NXDOMAIN msg.authoritySoa := by
  rw [classifyResponse, if_pos denied]

theorem classifyResponse_of_hasData (usable : msg.rcode ≠ 3) (data : msg.HasData qname qtype) :
    ∃ records rrsigs, classifyResponse msg qname qtype zone = .answer records rrsigs := by
  have some : msg.answers.filter (Record.isData qname qtype) ≠ [] := fun none =>
    filter_isData_eq_nil_iff.mp none data
  rw [classifyResponse, if_neg usable, AnswerScan.foldl_step_new]
  exact ⟨_, _, if_pos some⟩

/-- Without data of the type, an alias is followed. -/
theorem classifyResponse_of_aliases (usable : msg.rcode ≠ 3) (bare : ¬ msg.HasData qname qtype)
    (aliased : msg.Aliases qname) :
    (classifyResponse msg qname qtype zone).FollowsAlias msg qname := by
  rw [classifyResponse, if_neg usable, AnswerScan.foldl_step_new]
  dsimp only
  rw [if_neg (not_not_intro (filter_isData_eq_nil_iff.mpr bare))]
  cases cname : msg.answers.find? (Record.isCname qname qtype) with
  | some record =>
      have tested := List.find?_some cname
      simp only [Record.isCname, Bool.and_eq_true, beq_iff_eq] at tested
      exact ⟨record, List.mem_of_find?_eq_some cname, .inl tested.1, .inl ⟨_, rfl⟩⟩
  | none =>
      cases dname : msg.answers.find? (Record.isDname qname) with
      | some record =>
          have tested := List.find?_some dname
          simp only [Record.isDname, Bool.and_eq_true, beq_iff_eq] at tested
          exact ⟨record, List.mem_of_find?_eq_some dname, .inr tested, .inr rfl⟩
      | none => exact absurd aliased ((not_aliases_iff bare).mpr ⟨cname, dname⟩)

/-- The response does not answer, deny or redirect the name, and has no SOA: all that is left is a
referral. -/
structure Message.Undecided (msg : Message) (qname : Name) (qtype : RrType) : Prop where
  usable : msg.rcode ≠ 3
  bare : ¬ msg.HasData qname qtype
  direct : ¬ msg.Aliases qname
  noSoa : msg.authoritySoa = none

theorem classifyResponse_eq_referral_iff :
    classifyResponse msg qname qtype zone = .referral child ns glue ↔
      msg.Undecided qname qtype ∧ findReferral msg zone = some (child, ns, glue) := by
  by_cases denied : msg.rcode = 3
  · rw [classifyResponse_of_rcode denied]
    exact iff_of_false nofun fun both => both.1.usable denied
  by_cases data : msg.HasData qname qtype
  · have answers : ∃ records rrsigs, classifyResponse msg qname qtype zone = .answer records rrsigs :=
      classifyResponse_of_hasData denied data
    obtain ⟨records, rrsigs, answered⟩ := answers
    rw [answered]
    exact iff_of_false nofun fun both => both.1.bare data
  by_cases aliased : msg.Aliases qname
  · have follows : (classifyResponse msg qname qtype zone).FollowsAlias msg qname :=
      classifyResponse_of_aliases denied data aliased
    obtain ⟨record, -, -, ⟨rrsigs, followed⟩ | followed⟩ := follows
    all_goals
      rw [followed]
      exact iff_of_false nofun fun both => both.1.direct aliased
  · obtain ⟨noCname, noDname⟩ := (not_aliases_iff data).mp aliased
    rw [classifyResponse, if_neg denied, AnswerScan.foldl_step_new]
    dsimp only
    rw [if_neg (not_not_intro (filter_isData_eq_nil_iff.mpr data)), noCname, noDname]
    dsimp only
    cases soa : msg.authoritySoa with
    | some record =>
        exact iff_of_false nofun fun both =>
          absurd (soa.symm.trans both.1.noSoa) (Option.some_ne_none record)
    | none =>
        have undecided : msg.Undecided qname qtype := ⟨denied, data, aliased, soa⟩
        dsimp only
        rw [eq_true undecided, true_and]
        cases found : findReferral msg zone with
        | none => exact iff_of_false nofun nofun
        | some referral =>
            obtain ⟨first, nsSet, addresses⟩ := referral
            simp

/-! ## Aliases -/

/-- **Aliases against the RCODE.** In a response with an alias of the name, the alias is followed
exactly when the RCODE is not 3 and there is no data of the type asked for beside it, and the name is
denied exactly when the RCODE is 3. -/
theorem alias_outcome_iff (msg : Message) (qname : Name) (qtype : RrType) (zone : Name)
    (aliased : msg.Aliases qname) :
    ((classifyResponse msg qname qtype zone).FollowsAlias msg qname ↔
      msg.rcode ≠ 3 ∧ ¬ msg.HasData qname qtype) ∧
    ((classifyResponse msg qname qtype zone).Denies ↔ msg.rcode = 3) := by
  by_cases denied : msg.rcode = 3
  · have negative := @classifyResponse_of_rcode msg qname zone qtype denied
    rw [negative]
    refine ⟨iff_of_false ?_ fun both => both.1 denied, iff_of_true ⟨_, _, rfl⟩ denied⟩
    rintro ⟨record, -, -, ⟨rrsigs, same⟩ | same⟩ <;> cases same
  by_cases data : msg.HasData qname qtype
  · obtain ⟨records, rrsigs, answered⟩ := @classifyResponse_of_hasData msg qname zone qtype denied data
    rw [answered]
    refine ⟨iff_of_false ?_ fun both => both.2 data, iff_of_false ?_ denied⟩
    · rintro ⟨record, -, -, ⟨rrsigs, same⟩ | same⟩ <;> cases same
    · rintro ⟨rcode, soa, same⟩
      cases same
  · have followed := @classifyResponse_of_aliases msg qname zone qtype denied data aliased
    refine ⟨iff_of_true followed ⟨denied, data⟩, iff_of_false ?_ denied⟩
    rintro ⟨rcode, soa, negative⟩
    rw [negative] at followed
    obtain ⟨record, -, -, ⟨rrsigs, same⟩ | same⟩ := followed <;> cases same

/-- A reply for `www.com` with the alias to `org`. -/
def aliasReply (rcode : Rcode) : Message :=
  ⟨1, ⟨true, .QUERY, false, false, false, false, false, false, rcode⟩, [],
    [⟨⟨[3, 119, 119, 119, 3, 99, 111, 109, 0]⟩, .CNAME, .IN, 300, .cname ⟨[3, 111, 114, 103, 0]⟩⟩],
    [], [], none⟩

theorem aliasReply_aliases (rcode : Rcode) :
    (aliasReply rcode).Aliases ⟨[3, 119, 119, 119, 3, 99, 111, 109, 0]⟩ :=
  ⟨_, List.mem_singleton_self _, .inl ⟨rfl, rfl⟩⟩

theorem www_alias_followed :
    (classifyResponse (aliasReply .NOERROR) ⟨[3, 119, 119, 119, 3, 99, 111, 109, 0]⟩ .A
      Name.root).FollowsAlias (aliasReply .NOERROR) ⟨[3, 119, 119, 119, 3, 99, 111, 109, 0]⟩ := by
  refine (alias_outcome_iff _ _ _ _ (aliasReply_aliases .NOERROR)).1.mpr ⟨by decide, ?_⟩
  rintro ⟨record, listed, -, -, typed⟩
  rw [List.mem_singleton.mp listed] at typed
  exact absurd typed (by decide)

/-- The reply that denies the target denies the name. -/
theorem www_alias_denied :
    ¬ (classifyResponse (aliasReply .NXDOMAIN) ⟨[3, 119, 119, 119, 3, 99, 111, 109, 0]⟩ .A
      Name.root).FollowsAlias (aliasReply .NXDOMAIN) ⟨[3, 119, 119, 119, 3, 99, 111, 109, 0]⟩ ∧
    (classifyResponse (aliasReply .NXDOMAIN) ⟨[3, 119, 119, 119, 3, 99, 111, 109, 0]⟩ .A
      Name.root).Denies ∧
    (aliasReply .NXDOMAIN).Aliases ⟨[3, 119, 119, 119, 3, 99, 111, 109, 0]⟩ := by
  have negative := @classifyResponse_of_rcode (aliasReply .NXDOMAIN)
    ⟨[3, 119, 119, 119, 3, 99, 111, 109, 0]⟩ Name.root .A (by decide)
  rw [negative]
  refine ⟨?_, ⟨_, _, rfl⟩, aliasReply_aliases .NXDOMAIN⟩
  rintro ⟨record, -, -, ⟨rrsigs, same⟩ | same⟩ <;> cases same

/-! ## Referrals -/

/-- A referral goes to a zone strictly below the current one that the name is in. -/
def ResponseKind.LeadsTowards (qname zone : Name) (kind : ResponseKind) : Prop :=
  ∀ child ns glue, kind = .referral child ns glue →
    child.InZone zone ∧ child ≠ zone ∧ qname.InZone child

/-- The first NS record of the authority section that counts as owned strictly below the zone. -/
def Message.firstCut (msg : Message) (zone : Name) : Option Record :=
  msg.authorities.find? fun record => record.rrType == .NS && record.name.isStrictSubdomainOf zone

/-- **Progress of referrals.** A response leads towards the name exactly when it is decided without a
referral, or the owner of the first NS record that counts as below the zone has the name in it and
does not hold the octets of the zone inside a label. -/
theorem leadsTowards_iff (msg : Message) (qname : Name) (qtype : RrType) (zone : Name)
    (built : zone.Built) (owners : ∀ record ∈ msg.authorities, record.name.Built) :
    (classifyResponse msg qname qtype zone).LeadsTowards qname zone ↔
      (msg.Undecided qname qtype → ∀ record, msg.firstCut zone = some record →
        ¬ record.name.StraddledBy zone ∧ qname.InZone record.name) := by
  have found (record : Record) (first : msg.firstCut zone = some record) :
      record.name.Built ∧ record.name.isStrictSubdomainOf zone = true ∧
        ∃ ns glue, findReferral msg zone = some (record.name, ns, glue) := by
    have tested := List.find?_some first
    rw [Bool.and_eq_true] at tested
    refine ⟨owners record (List.mem_of_find?_eq_some first), tested.2, ?_⟩
    rw [Message.firstCut] at first
    rw [findReferral, first]
    exact ⟨_, _, rfl⟩
  constructor
  · intro leads undecided record first
    obtain ⟨recordBuilt, strict, ns, glue, referral⟩ := found record first
    obtain ⟨below, -, towards⟩ :=
      leads record.name ns glue (classifyResponse_eq_referral_iff.mpr ⟨undecided, referral⟩)
    exact ⟨fun straddled => built.not_inZone_of_straddledBy straddled below, towards⟩
  · intro first child ns glue refers
    obtain ⟨undecided, referral⟩ := classifyResponse_eq_referral_iff.mp refers
    obtain ⟨record, cut, shape⟩ := Option.map_eq_some_iff.mp referral
    cases shape
    obtain ⟨recordBuilt, strict, -⟩ := found record cut
    obtain ⟨straight, towards⟩ := first undecided record cut
    rcases (recordBuilt.isStrictSubdomainOf_iff built).mp strict with ⟨below, different⟩ | straddled
    · exact ⟨below, different, towards⟩
    · exact absurd straddled straight

/-- A delegation of the zone `owner` to the host `org`. -/
def delegation (owner : Name) : Record := ⟨owner, .NS, .IN, 300, .ns ⟨[3, 111, 114, 103, 0]⟩⟩

/-- A reply that has one delegation only. -/
def delegates (owner : Name) : Message :=
  ⟨1, ⟨true, .QUERY, false, false, false, false, false, false, .NOERROR⟩, [], [],
    [delegation owner], [], none⟩

/-- The root refers `www.com` to `com`. -/
theorem com_leads_towards_www :
    (classifyResponse (delegates ⟨[3, 99, 111, 109, 0]⟩) ⟨[3, 119, 119, 119, 3, 99, 111, 109, 0]⟩ .A
      Name.root).LeadsTowards ⟨[3, 119, 119, 119, 3, 99, 111, 109, 0]⟩ Name.root := by
  have root : Name.root.Built := ⟨by decide, by decide, by decide, by decide⟩
  have com : (⟨[3, 99, 111, 109, 0]⟩ : Name).Built := ⟨by decide, by decide, by decide, by decide⟩
  have owners : ∀ record ∈ (delegates ⟨[3, 99, 111, 109, 0]⟩).authorities, record.name.Built := by
    intro record listed
    rw [List.mem_singleton.mp listed]
    exact com
  refine (leadsTowards_iff _ _ _ _ root owners).mpr fun _ record first => ?_
  rw [List.mem_singleton.mp (List.mem_of_find?_eq_some first)]
  exact ⟨fun straddled => root.not_inZone_of_straddledBy straddled (by decide), by decide⟩

/-- Asked for `www.com`, a server of `com` refers to the zone `mail.com` beside it. -/
theorem mail_leads_away_from_www :
    classifyResponse (delegates ⟨[4, 109, 97, 105, 108, 3, 99, 111, 109, 0]⟩)
        ⟨[3, 119, 119, 119, 3, 99, 111, 109, 0]⟩ .A ⟨[3, 99, 111, 109, 0]⟩ =
      .referral ⟨[4, 109, 97, 105, 108, 3, 99, 111, 109, 0]⟩
        [delegation ⟨[4, 109, 97, 105, 108, 3, 99, 111, 109, 0]⟩] [] ∧
    ¬ (classifyResponse (delegates ⟨[4, 109, 97, 105, 108, 3, 99, 111, 109, 0]⟩)
        ⟨[3, 119, 119, 119, 3, 99, 111, 109, 0]⟩ .A ⟨[3, 99, 111, 109, 0]⟩).LeadsTowards
      ⟨[3, 119, 119, 119, 3, 99, 111, 109, 0]⟩ ⟨[3, 99, 111, 109, 0]⟩ := by
  have refers : classifyResponse (delegates ⟨[4, 109, 97, 105, 108, 3, 99, 111, 109, 0]⟩)
      ⟨[3, 119, 119, 119, 3, 99, 111, 109, 0]⟩ .A ⟨[3, 99, 111, 109, 0]⟩ =
        .referral ⟨[4, 109, 97, 105, 108, 3, 99, 111, 109, 0]⟩
          [delegation ⟨[4, 109, 97, 105, 108, 3, 99, 111, 109, 0]⟩] [] := by
    decide
  refine ⟨refers, fun leads => ?_⟩
  obtain ⟨-, -, towards⟩ := leads _ _ _ refers
  exact absurd towards (by decide)

end RecurseX
