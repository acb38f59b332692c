import RecurseX.Library.Runs
import RecurseX.Name.Built
import RecurseX.Routing

/-!
# The most specific rule

A pattern is narrower than another when it matches fewer names. The policy compares
patterns by their labels instead, which comes to the same for names and zones; a
pattern with a `*` in its middle can stand before a narrower one, and so can a zone
whose stored form begins inside a label of the name.
-/

namespace RecurseX

open Library Library.PrefixedList

/-! ## Names nearby -/

/-- A label of the same length that is another one. -/
def otherLabel (label : Bytes) : Bytes :=
  if label = List.replicate label.length 0x61 then List.replicate label.length 0x62
  else List.replicate label.length 0x61

@[simp] theorem length_otherLabel (label : Bytes) : (otherLabel label).length = label.length := by
  unfold otherLabel
  split_ifs <;> simp

theorem otherLabel_folded (label : Bytes) : (otherLabel label).map asciiLower = otherLabel label := by
  have small : asciiLower 0x61 = 0x61 ∧ asciiLower 0x62 = 0x62 := by decide
  unfold otherLabel
  split_ifs <;> simp [small]

theorem otherLabel_ne {label : Bytes} (some : 0 < label.length) : otherLabel label ≠ label := by
  unfold otherLabel
  split_ifs with same
  · intro again
    have both := again.trans same
    rw [List.replicate_right_inj (by omega)] at both
    exact absurd both (by decide)
  · exact fun again => same again.symm

theorem length_code_set {items : List Bytes} {index : Nat} {octets other : Bytes}
    (located : items[index]? = some octets) (same : other.length = octets.length) :
    (code (items.set index other)).length = (code items).length := by
  obtain ⟨before, after, rfl, set, -⟩ := exists_focus located
  rw [set, code_append, code_append, List.length_append, List.length_append, length_code_cons,
    length_code_cons, same]

namespace Name.Built

variable {name : Name}

/-- The name with another label at one place. -/
theorem change (named : name.Built) {index : Nat} {label : Bytes}
    (located : name.labels[index]? = some label) :
    ∃ other : Name, other.Built ∧ other.labels = name.labels.set index (otherLabel label) ∧
      other.bytes.length = name.bytes.length ∧ other ≠ name := by
  have member := List.mem_of_getElem? located
  have lengths : (code (name.labels.set index (otherLabel label))).length = name.bytes.length := by
    rw [length_code_set located (length_otherLabel label)]
    exact (congrArg (fun stored : Name => stored.bytes.length) named.stored).symm
  have sized : ∀ item ∈ name.labels.set index (otherLabel label),
      0 < item.length ∧ item.length ≤ 63 := by
    intro item listed
    obtain old | rfl := List.mem_or_eq_of_mem_set listed
    · exact named.sized item old
    · rw [length_otherLabel]
      exact named.sized label member
  have folded : ∀ item ∈ name.labels.set index (otherLabel label),
      item.map asciiLower = item := by
    intro item listed
    obtain old | rfl := List.mem_or_eq_of_mem_set listed
    · exact named.folded item old
    · exact otherLabel_folded label
  have labels := labels_stored (sized_of_short sized)
  refine ⟨_, .of_labels sized folded (lengths ▸ named.short), labels, lengths, ?_⟩
  intro same
  have again : (name.labels.set index (otherLabel label))[index]? = some label := by
    rw [← labels, same, located]
  rw [List.getElem?_set_self (List.getElem?_eq_some_iff.mp located).1] at again
  exact otherLabel_ne (named.sized label member).1 (Option.some.inj again)

/-- The name without its first labels. -/
theorem dropLabels (named : name.Built) (count : Nat) :
    ∃ other : Name, other.Built ∧ other.labels = name.labels.drop count := by
  have suffix := List.drop_suffix count name.labels
  have short : (code (name.labels.drop count)).length ≤ maxNameLen + 1 :=
    calc (code (name.labels.drop count)).length
        ≤ (code name.labels).length := length_code_le_of_suffix suffix
      _ = name.bytes.length := (congrArg (fun stored : Name => stored.bytes.length) named.stored).symm
      _ ≤ maxNameLen + 1 := named.short
  have sized : ∀ item ∈ name.labels.drop count, 0 < item.length ∧ item.length ≤ 63 :=
    fun item listed => named.sized item (suffix.mem listed)
  exact ⟨_, .of_labels sized (fun item listed => named.folded item (suffix.mem listed)) short,
    labels_stored (sized_of_short sized)⟩

end Name.Built

/-! ## What a wildcard matches -/

namespace WildcardPattern

variable {pattern : WildcardPattern} {name : Name}

theorem matchesLabels_iff {labels : List (Option Bytes)} {candidate : List Bytes}
    (same : candidate.length = labels.length) :
    matchesLabels candidate labels = true ↔ ∀ (index : Nat) (literal : Bytes),
      labels[index]? = some (some literal) → candidate[index]? = some literal := by
  induction labels generalizing candidate with
  | nil =>
      obtain rfl := List.length_eq_zero_iff.mp same
      simp [matchesLabels]
  | cons expected labels inductionHypothesis =>
      cases candidate with
      | nil => cases same
      | cons label candidate =>
          have rest := inductionHypothesis (Nat.succ.inj same)
          have first : matchesLabels (label :: candidate) (expected :: labels) = true ↔
              (∀ literal, expected = some literal → label = literal) ∧
                matchesLabels candidate labels = true := by
            cases expected with
            | none => simp [matchesLabels]
            | some literal => simp [matchesLabels, @eq_comm _ label literal]
          rw [first, rest]
          constructor
          · rintro ⟨here, later⟩ index literal located
            cases index with
            | zero => exact congrArg some (here literal (Option.some.inj located))
            | succ index => exact later index literal located
          · intro all
            exact ⟨fun literal located => Option.some.inj (all 0 literal (congrArg some located)),
              fun index literal located => all (index + 1) literal located⟩

/-- The labels of the pattern stand at the end of the name, and nothing before them
unless the pattern has a leading `*`. -/
theorem matches_iff :
    pattern.matches name = true ↔
      pattern.labels.length ≤ name.labels.length ∧
        (pattern.leadingWildcard = false → name.labels.length = pattern.labels.length) ∧
        ∀ (index : Nat) (literal : Bytes), pattern.labels[index]? = some (some literal) →
          name.labels[name.labels.length - pattern.labels.length + index]? = some literal := by
  unfold WildcardPattern.matches
  dsimp only
  by_cases fits : pattern.labels.length ≤ name.labels.length
  · have tail : (name.labels.drop (name.labels.length - pattern.labels.length)).length =
        pattern.labels.length := by
      rw [List.length_drop]
      omega
    have compared := matchesLabels_iff tail
    simp only [List.getElem?_drop] at compared
    by_cases leading : pattern.leadingWildcard = true
    · rw [if_pos leading, if_pos fits, compared]
      simp [fits, leading]
    · rw [if_neg leading]
      by_cases whole : name.labels.length = pattern.labels.length
      · rw [if_neg (not_not.mpr whole)]
        rw [whole, Nat.sub_self, List.drop_zero] at compared
        simp [compared, whole]
      · rw [if_pos whole]
        simp [whole, leading]
  · rw [if_neg fits]
    have apart : name.labels.length ≠ pattern.labels.length := by omega
    simp [fits, apart]

/-- A `*` in the pattern leaves a label of the name open. -/
theorem exists_other_match (star : none ∈ pattern.labels) (named : name.Built)
    (matched : pattern.matches name = true) :
    ∃ other : Name, other.Built ∧ other ≠ name ∧ other.bytes.length = name.bytes.length ∧
      pattern.matches other = true := by
  obtain ⟨fits, whole, literals⟩ := matches_iff.mp matched
  obtain ⟨place, inside, here⟩ := List.getElem_of_mem star
  obtain ⟨label, located⟩ : ∃ label,
      name.labels[name.labels.length - pattern.labels.length + place]? = some label :=
    ⟨_, List.getElem?_eq_getElem (by omega)⟩
  obtain ⟨other, built, labels, lengths, different⟩ := named.change located
  refine ⟨other, built, different, lengths, matches_iff.mpr ?_⟩
  rw [labels, List.length_set]
  refine ⟨fits, whole, fun index literal expected => ?_⟩
  have apart : place ≠ index := by
    rintro rfl
    rw [List.getElem?_eq_getElem inside, here] at expected
    cases Option.some.inj expected
  rw [List.getElem?_set_ne (by omega)]
  exact literals index literal expected

/-- A leading `*` stands for no label too. -/
theorem exists_shortest_match (named : name.Built) (matched : pattern.matches name = true) :
    ∃ other : Name, other.Built ∧ other.labels <:+ name.labels ∧
      other.labels.length = pattern.labels.length ∧ pattern.matches other = true := by
  obtain ⟨fits, -, literals⟩ := matches_iff.mp matched
  obtain ⟨other, built, labels⟩ := named.dropLabels (name.labels.length - pattern.labels.length)
  have lengths : other.labels.length = pattern.labels.length := by
    rw [labels, List.length_drop]
    omega
  refine ⟨other, built, labels ▸ List.drop_suffix _ _, lengths, matches_iff.mpr
    ⟨lengths.ge, fun _ => lengths, fun index literal expected => ?_⟩⟩
  rw [lengths, Nat.sub_self, Nat.zero_add, labels, List.getElem?_drop]
  exact literals index literal expected

end WildcardPattern

/-! ## Narrower patterns -/

/-- As `parse` makes patterns: of names it has read, with a `*` in a wildcard. -/
def DomainPattern.Parsed : DomainPattern → Prop
  | .any => True
  | .exact name => name.Built
  | .subtree name => name.Built
  | .wildcard pattern => none ∈ pattern.labels

/-- Every name that `narrow` matches `wide` matches, but not conversely. -/
def StrictlyNarrower (narrow wide : DomainPattern) : Prop :=
  (∀ name : Name, name.Built → narrow.matches name = true → wide.matches name = true) ∧
    ∃ name : Name, name.Built ∧ wide.matches name = true ∧ narrow.matches name = false

/-- The stored form of the zone begins inside a label of the name. -/
def DomainPattern.Straddles (name : Name) : DomainPattern → Prop
  | .subtree zone => name.StraddledBy zone
  | _ => False

/-- The pattern has a `*` in its middle. -/
def DomainPattern.Embedded : DomainPattern → Prop
  | .wildcard _ => True
  | _ => False

/-- The keys of two patterns of the name need not tell which is narrower. -/
def KeysMislead (name : Name) (narrow wide : DomainPattern) : Prop :=
  wide.Embedded ∨ wide.Straddles name ∨ narrow.Straddles name

variable {name zone : Name} {narrow wide : DomainPattern} {pattern : WildcardPattern}

theorem matches_exact_iff : (DomainPattern.exact zone).matches name = true ↔ name = zone :=
  beq_iff_eq

theorem matches_subtree_iff :
    (DomainPattern.subtree zone).matches name = true ↔ zone.bytes <:+ name.bytes :=
  List.isSuffixOf_iff_suffix

theorem specificity_lt_iff {left right : DomainPattern} :
    specificity left < specificity right ↔ left.labelCount < right.labelCount ∨
      left.labelCount = right.labelCount ∧ left.isExact = false ∧ right.isExact = true := by
  rw [specificity, specificity, Prod.Lex.toLex_lt_toLex]
  cases left.isExact <;> cases right.isExact <;> simp

/-- A name that a zone matches by whole labels is in the zone. -/
theorem inZone_of_matches (named : name.Built) (zoned : zone.Built)
    (matched : (DomainPattern.subtree zone).matches name = true)
    (straight : ¬ (DomainPattern.subtree zone).Straddles name) : name.InZone zone :=
  ((named.isSubdomainOf_iff zoned).mp matched).resolve_right straight

/-- A name in the zone of a name that is no shorter. -/
theorem eq_of_suffix_of_length (suffix : zone.bytes <:+ name.bytes)
    (same : name.bytes.length ≤ zone.bytes.length) : name = zone := by
  have bytes := suffix.eq_of_length_le same
  cases name
  cases zone
  exact congrArg Name.mk bytes.symm

/-- A zone with no fewer labels than another of the same name. -/
theorem length_le_of_inZone {other : Name} (zoned : zone.Built) (built : other.Built)
    (inside : name.InZone zone) (insideToo : other.labels <:+ name.labels)
    (fewer : other.labels.length ≤ zone.labels.length) : other.bytes.length ≤ zone.bytes.length := by
  have lengths := length_code_le_of_suffix (List.suffix_of_suffix_length_le insideToo inside fewer)
  rw [zoned.stored, built.stored]
  exact lengths

/-- A wildcard within a zone of its name has more labels than the zone. -/
theorem labelCount_lt_of_wildcard (star : none ∈ pattern.labels) (named : name.Built)
    (zoned : zone.Built) (inside : name.InZone zone) (matched : pattern.matches name = true)
    (included : ∀ name : Name, name.Built → pattern.matches name = true →
      (DomainPattern.subtree zone).matches name = true) :
    zone.labelCount < pattern.labelCount := by
  rw [Name.labelCount, WildcardPattern.labelCount]
  cases leading : pattern.leadingWildcard with
  | true =>
      obtain ⟨other, built, suffix, lengths, shortest⟩ :=
        WildcardPattern.exists_shortest_match named matched
      refine Nat.lt_succ_of_le (not_lt.mp fun fewer => ?_)
      have below := matches_subtree_iff.mp (included other built shortest)
      have same := eq_of_suffix_of_length below
        (length_le_of_inZone zoned built inside suffix (by omega))
      rw [same] at lengths
      omega
  | false =>
      have whole := (WildcardPattern.matches_iff.mp matched).2.1 leading
      refine lt_of_le_of_ne (whole ▸ inside.length_le) fun equal => ?_
      have apex : zone = name := zoned.ext named (inside.eq_of_length (equal.trans whole.symm))
      obtain ⟨other, built, different, lengths, otherMatches⟩ :=
        WildcardPattern.exists_other_match star named matched
      have below := matches_subtree_iff.mp (included other built otherMatches)
      rw [apex] at below
      exact different (eq_of_suffix_of_length below lengths.le)

/-- **Keys follow inclusion.** Of two patterns of a name, the narrower one has the greater key. -/
theorem specificity_lt_of_narrower (named : name.Built) (narrowParsed : narrow.Parsed)
    (wideParsed : wide.Parsed) (proper : wide ≠ .any) (narrowMatches : narrow.matches name = true)
    (wideMatches : wide.matches name = true) (narrower : StrictlyNarrower narrow wide)
    (faithful : ¬ KeysMislead name narrow wide) : specificity wide < specificity narrow := by
  obtain ⟨included, witness, built, wideToo, missed⟩ := narrower
  obtain ⟨plain, straight, narrowStraight⟩ := not_or.mp faithful |>.imp_right not_or.mp
  rw [specificity_lt_iff]
  cases wide with
  | any => exact absurd rfl proper
  | wildcard pattern => exact absurd trivial plain
  | exact apex =>
      obtain rfl := matches_exact_iff.mp wideMatches
      obtain rfl := matches_exact_iff.mp wideToo
      rw [narrowMatches] at missed
      cases missed
  | subtree zone =>
      have inside := inZone_of_matches named wideParsed wideMatches straight
      cases narrow with
      | any => cases missed
      | exact apex =>
          obtain rfl := matches_exact_iff.mp narrowMatches
          obtain less | same := inside.length_le.lt_or_eq
          · exact .inl less
          · exact .inr ⟨same, rfl, rfl⟩
      | subtree lower =>
          refine .inl (not_le.mp fun fewer => ?_)
          have lowerInside := inZone_of_matches named narrowParsed narrowMatches narrowStraight
          have own : (DomainPattern.subtree lower).matches lower = true :=
            matches_subtree_iff.mpr List.suffix_rfl
          have below := matches_subtree_iff.mp (included lower narrowParsed own)
          obtain rfl := eq_of_suffix_of_length below
            (length_le_of_inZone wideParsed narrowParsed inside lowerInside fewer)
          rw [wideToo] at missed
          cases missed
      | wildcard pattern =>
          exact .inl (labelCount_lt_of_wildcard narrowParsed named wideParsed inside narrowMatches
            included)

/-! ## The rule that is chosen -/

/-- The first rule that matches. -/
def NameserverPolicy.chosen (self : NameserverPolicy) (name : Name) : Option PolicyRule :=
  self.rules.find? fun rule => rule.1.matches name

/-- A rule for exactly the name decides, and no rule is chosen while a narrower one matches. -/
structure MostSpecificWins (rules : List PolicyRule) (policy : NameserverPolicy) (name : Name) :
    Prop where
  exact : ∀ group, (.exact name, group) ∈ rules →
    ∃ other, (.exact name, other) ∈ rules ∧ policy.route name = .group other
  narrowest : ∀ wide, policy.chosen name = some wide → ∀ narrow ∈ rules,
    narrow.1.matches name = true → ¬ StrictlyNarrower narrow.1 wide.1

variable {rules : List PolicyRule} {policy : NameserverPolicy}

namespace NameserverPolicy

theorem chosen_eq (built : new rules = .ok policy) (name : Name) :
    policy.chosen name =
      firstBest (fun rule => specificity rule.1) (fun rule => rule.1.matches name) rules := by
  unfold new at built
  split_ifs at built
  obtain rfl := Except.ok.inj built
  exact find?_sortDescending _ _ rules

theorem route_of_chosen {rule : PolicyRule} (chosen : policy.chosen name = some rule) :
    policy.route name = .group rule.2 := by
  unfold NameserverPolicy.chosen at chosen
  rw [route, chosen]

/-- No rule of a policy matches every name. -/
theorem proper_of_new (built : new rules = .ok policy) {rule : PolicyRule} (listed : rule ∈ rules) :
    rule.1 ≠ .any := by
  intro shadows
  have refused : (rules.any fun rule => rule.1 = .any) = true :=
    List.any_eq_true.mpr ⟨rule, listed, decide_eq_true shadows⟩
  rw [new, if_pos refused] at built
  cases built

end NameserverPolicy

/-- A rule for exactly the name is narrower than any other rule chosen in its place. -/
theorem exact_narrower (named : name.Built) (wideParsed : wide.Parsed) (proper : wide ≠ .any)
    (matched : wide.matches name = true) (other : wide ≠ .exact name) :
    StrictlyNarrower (.exact name) wide ∨ specificity wide < specificity (.exact name) := by
  have included : ∀ own : Name, own.Built → (DomainPattern.exact name).matches own = true →
      wide.matches own = true := by
    intro own _ same
    rwa [matches_exact_iff.mp same]
  cases wide with
  | any => exact absurd rfl proper
  | exact apex => exact absurd (congrArg DomainPattern.exact (matches_exact_iff.mp matched).symm) other
  | subtree zone =>
      by_cases same : zone = name
      · exact .inr (specificity_lt_iff.mpr (.inr ⟨congrArg Name.labelCount same, rfl, rfl⟩))
      · exact .inl ⟨included, zone, wideParsed, matches_subtree_iff.mpr List.suffix_rfl,
          Bool.eq_false_iff.mpr fun again => same (matches_exact_iff.mp again)⟩
  | wildcard pattern =>
      obtain ⟨sibling, built, different, -, siblingMatches⟩ :=
        WildcardPattern.exists_other_match wideParsed named matched
      exact .inl ⟨included, sibling, built, siblingMatches,
        Bool.eq_false_iff.mpr fun again => different (matches_exact_iff.mp again)⟩

/-- **The most specific rule wins** for a name exactly when every matching rule that has a
narrower one beside it, where the keys need not tell so, stands behind a matching rule. -/
theorem most_specific_wins_iff (built : NameserverPolicy.new rules = .ok policy)
    (parsed : ∀ rule ∈ rules, rule.1.Parsed) (named : name.Built) :
    MostSpecificWins rules policy name ↔
      ∀ before wide after, rules = before ++ wide :: after → wide.1.matches name = true →
        (∃ narrow ∈ rules, narrow.1.matches name = true ∧ StrictlyNarrower narrow.1 wide.1 ∧
          KeysMislead name narrow.1 wide.1) →
        Outranked (fun rule => specificity rule.1) (fun rule => rule.1.matches name)
          before wide after := by
  have chosen := NameserverPolicy.chosen_eq built name
  constructor
  · rintro wins before wide after split matched ⟨narrow, listed, narrowMatches, narrower, -⟩
    by_contra first
    refine wins.narrowest wide ?_ narrow listed narrowMatches narrower
    rw [chosen, split]
    exact firstBest_of_not_outranked matched first
  · intro outranked
    have narrowest : ∀ wide, policy.chosen name = some wide → ∀ narrow ∈ rules,
        narrow.1.matches name = true → ¬ StrictlyNarrower narrow.1 wide.1 := by
      intro wide found narrow listed narrowMatches narrower
      rw [chosen] at found
      obtain ⟨wideListed, matched, greatest⟩ := best_of_firstBest found
      obtain ⟨before, after, split, -, first⟩ := firstBest_eq_some_iff.mp found
      have faithful : ¬ KeysMislead name narrow.1 wide.1 := fun misled =>
        first (outranked before wide after split matched
          ⟨narrow, listed, narrowMatches, narrower, misled⟩)
      have less := specificity_lt_of_narrower named (parsed narrow listed)
        (parsed wide wideListed) (NameserverPolicy.proper_of_new built wideListed) narrowMatches
        matched narrower faithful
      exact absurd (greatest narrow listed narrowMatches) (not_le.mpr less)
    refine ⟨fun group exactListed => ?_, narrowest⟩
    have exactMatches : (DomainPattern.exact name).matches name = true := matches_exact_iff.mpr rfl
    cases found : policy.chosen name with
    | none =>
        rw [chosen, firstBest_eq_none] at found
        have missed := found _ exactListed
        rw [exactMatches] at missed
        cases missed
    | some wide =>
        have best := best_of_firstBest (chosen ▸ found)
        by_cases own : wide.1 = .exact name
        · exact ⟨wide.2, own ▸ best.1, NameserverPolicy.route_of_chosen found⟩
        · obtain narrower | less := exact_narrower named (parsed wide best.1)
            (NameserverPolicy.proper_of_new built best.1) best.2.1 own
          · exact absurd narrower (narrowest wide found _ exactListed exactMatches)
          · exact absurd (best.2.2 _ exactListed exactMatches) (not_le.mpr less)

/-- `example.com`. -/
def exampleCom : Name := ⟨[7, 101, 120, 97, 109, 112, 108, 101, 3, 99, 111, 109, 0]⟩

/-- `*.*.com`. -/
def anyUnderCom : DomainPattern := .wildcard ⟨[none, some [99, 111, 109]], true⟩

theorem exampleCom_built : exampleCom.Built := by
  refine @Name.Built.of_labels [[101, 120, 97, 109, 112, 108, 101], [99, 111, 109]] ?_ ?_ ?_
  all_goals decide

/-- A zone gives way to a rule for the name. -/
theorem most_specific_wins_in_zone :
    ∃ policy, NameserverPolicy.new [(.subtree exampleCom, 0), (.exact exampleCom, 1)] = .ok policy ∧
      MostSpecificWins [(.subtree exampleCom, 0), (.exact exampleCom, 1)] policy exampleCom := by
  have built : NameserverPolicy.new [(.subtree exampleCom, 0), (.exact exampleCom, 1)] =
      .ok ⟨[(.exact exampleCom, 1), (.subtree exampleCom, 0)]⟩ := by decide
  have rules : ∀ rule ∈ [(DomainPattern.subtree exampleCom, 0), (.exact exampleCom, 1)],
      rule.1 = .subtree exampleCom ∨ rule.1 = .exact exampleCom := by simp
  have parsed : ∀ rule ∈ [(DomainPattern.subtree exampleCom, 0), (.exact exampleCom, 1)],
      rule.1.Parsed := by
    intro rule listed
    obtain same | same := rules rule listed
    all_goals
      rw [same]
      exact exampleCom_built
  have straight : ∀ rule ∈ [(DomainPattern.subtree exampleCom, 0), (.exact exampleCom, 1)],
      ¬ rule.1.Straddles exampleCom ∧ ¬ rule.1.Embedded := by
    intro rule listed
    obtain same | same := rules rule listed
    · rw [same]
      exact ⟨fun straddled => exampleCom_built.not_inZone_of_straddledBy straddled List.suffix_rfl, id⟩
    · rw [same]
      exact ⟨id, id⟩
  refine ⟨_, built, (most_specific_wins_iff built parsed exampleCom_built).mpr ?_⟩
  rintro before wide after split - ⟨narrow, listed, -, -, misled⟩
  have wideListed : wide ∈ [(DomainPattern.subtree exampleCom, 0), (.exact exampleCom, 1)] := by
    rw [split]
    exact List.mem_append_right _ List.mem_cons_self
  obtain embedded | straddled | straddled := misled
  · exact absurd embedded (straight wide wideListed).2
  · exact absurd straddled (straight wide wideListed).1
  · exact absurd straddled (straight narrow listed).1

/-- `*.*.com` counts three labels, one more than `example.com`, and takes its name. -/
theorem exact_rule_passed_over :
    ∃ policy, NameserverPolicy.new [(anyUnderCom, 0), (.exact exampleCom, 1)] = .ok policy ∧
      policy.route exampleCom = .group 0 ∧
      ¬ MostSpecificWins [(anyUnderCom, 0), (.exact exampleCom, 1)] policy exampleCom := by
  have built : NameserverPolicy.new [(anyUnderCom, 0), (.exact exampleCom, 1)] =
      .ok ⟨[(anyUnderCom, 0), (.exact exampleCom, 1)]⟩ := by decide
  have routed : (⟨[(anyUnderCom, 0), (.exact exampleCom, 1)]⟩ : NameserverPolicy).route exampleCom =
      .group 0 := by decide
  refine ⟨_, built, routed, fun wins => ?_⟩
  obtain ⟨other, listed, chosen⟩ := wins.exact 1 (by simp)
  rw [routed] at chosen
  obtain rfl := Route.group.inj chosen
  revert listed
  decide

end RecurseX
