import Mathlib.Data.List.DropRight
import Mathlib.Data.List.Forall2
import RecurseX.Library.Text
import RecurseX.Specificity

/-!
# The texts of domain patterns

A pattern is written as parts between dots. `Denotes` says which names such parts stand for, and
`parse_matches_iff` that the pattern read from a text matches these names, besides those a zone
straddles.
-/

namespace RecurseX

open Library Library.PrefixedList

/-! ## Errors as text -/

def ErrorKind.debug : ErrorKind → String
  | .wire => "Wire"
  | .truncated => "Truncated"
  | .timeout => "Timeout"
  | .io => "Io"
  | .transport => "Transport"
  | .servfail => "Servfail"
  | .refused => "Refused"
  | .noData => "NoData"
  | .nxDomain => "NxDomain"
  | .dnssec => "Dnssec"
  | .rateLimited => "RateLimited"
  | .policy => "Policy"
  | .noUpstream => "NoUpstream"
  | .config => "Config"
  | .canceled => "Canceled"
  | .internal => "Internal"
  | .unsupported => "Unsupported"

def Error.display (self : Error) : String := self.kind.debug ++ ": " ++ self.msg

/-! ## Reading a pattern -/

/-- The octets of a text. -/
def utf8 (text : List Char) : Bytes := text.flatMap String.utf8EncodeChar

def isAsciiWhitespace (c : Char) : Bool :=
  c = ' ' || c = '\t' || c = '\n' || c = '\x0c' || c = '\r'

/-- A text without the dots at its end. -/
def trimEndDots (text : List Char) : List Char := text.rdropWhile (· = '.')

/-- What follows a marker at the front, and whether there is one. -/
def stripMarker : List Char → List Char × Bool
  | '*' :: '.' :: rest => (rest, true)
  | '+' :: '.' :: rest => (rest, true)
  | '.' :: rest => (rest, true)
  | raw => (raw, false)

namespace DomainPattern

section Parse

-- How a text is quoted in an error.
variable (debug : List Char → String)

/-- The label a part spells; `none` is a `*`. -/
def parseLabel (raw part : List Char) : Result (Option Bytes) :=
  if part = ['*'] then .ok none
  else do
    let one ← (Name.fromAscii (utf8 part)).mapError fun e =>
      .config ("bad domain pattern " ++ debug raw ++ ": " ++ e.display)
    let bytes ← okOr one.labels.head? (.config ("bad domain pattern " ++ debug raw))
    .ok (some bytes)

/-- Parse one pattern. -/
def parse (s : List Char) : Result DomainPattern := do
  let raw := trim s
  failIf (raw = []) (.config "empty domain pattern")
  if raw = ['*'] then .ok .any
  else do
    failIf (raw.any isAsciiWhitespace = true)
      (.config ("domain pattern " ++ debug raw ++ " contains whitespace"))
    failIf ('\\' ∈ raw)
      (.config ("domain pattern " ++ debug raw ++ ": escapes are not supported in patterns"))
    let (suffix, leading) := stripMarker raw
    let suffix := trimEndDots suffix
    failIf (suffix = []) (.config ("domain pattern " ++ debug raw ++ " has an empty suffix"))
    let parts := suffix.splitOn '.'
    failIf ([] ∈ parts) (.config ("domain pattern " ++ debug raw ++ " has an empty label"))
    if ['*'] ∈ parts then do
      let labels ← parts.mapM (parseLabel debug raw)
      .ok (.wildcard ⟨labels, leading⟩)
    else do
      let name ← (Name.fromAscii (utf8 suffix)).mapError fun e =>
        .config ("bad domain pattern " ++ debug raw ++ ": " ++ e.display)
      failIf (name.isRoot = true) (.config ("domain pattern " ++ debug raw ++
        " resolves to the root; use \"*\" for a match-all"))
      .ok (if leading then .subtree name else .exact name)

end Parse

end DomainPattern

/-! ## What a pattern stands for -/

/-- The label that a part spells. -/
def partLabel (part : List Char) : Bytes := (utf8 part).map asciiLower

/-- A part stands for the label it spells, and `*` for any label. -/
def PartMatches (part : List Char) (label : Bytes) : Prop :=
  part = ['*'] ∨ label = partLabel part

/-- What marks the parts behind it: a `*`, a `+` or nothing. -/
def IsMarker (marker : List Char) : Prop := marker = ['*'] ∨ marker = ['+'] ∨ marker = []

def Marked : List (List Char) → Prop
  | first :: _ :: _ => IsMarker first
  | _ => False

/-- The names that parts between dots stand for: every name for `*` alone, whatever stands before
the other parts if they are marked, and otherwise a label for each part. -/
def Denotes (parts : List (List Char)) (labels : List Bytes) : Prop :=
  parts = [['*']] ∨
    (Marked parts ∧ ∃ front back, labels = front ++ back ∧
      List.Forall₂ PartMatches parts.tail back) ∨
    (¬ Marked parts ∧ List.Forall₂ PartMatches parts labels)

/-- The parts of a pattern's text. -/
def patternParts (s : List Char) : List (List Char) := (trimEndDots (trim s)).splitOn '.'

/-! ## Octets of texts -/

variable {part text : List Char} {parts : List (List Char)} {name : Name}

/-- An octet below 128 stands for a character. -/
theorem mem_utf8EncodeChar {c : Char} {octet : UInt8} (member : octet ∈ String.utf8EncodeChar c)
    (ascii : octet.toNat < 128) : c.toNat = octet.toNat := by
  unfold String.utf8EncodeChar at member
  dsimp only at member
  split_ifs at member with one two three
  · rw [List.mem_singleton] at member
    rw [member, UInt8.toNat_ofNat']
    exact (Nat.mod_eq_of_lt (Nat.lt_of_le_of_lt one (by decide))).symm
  all_goals
    simp only [List.mem_cons, List.not_mem_nil, or_false] at member
    exfalso
    rcases member with rfl | rfl | rfl | rfl
    all_goals
      rw [UInt8.toNat_ofNat'] at ascii
      omega

theorem utf8_append (text later : List Char) : utf8 (text ++ later) = utf8 text ++ utf8 later :=
  List.flatMap_append

theorem utf8_ne_nil (some : part ≠ []) : utf8 part ≠ [] := by
  obtain ⟨c, rest, rfl⟩ := List.exists_cons_of_ne_nil some
  have encoded : String.utf8EncodeChar c ≠ [] := by
    unfold String.utf8EncodeChar
    dsimp only
    split_ifs <;> exact List.cons_ne_nil _ _
  intro empty
  rw [utf8, List.flatMap_cons, List.append_eq_nil_iff] at empty
  exact encoded empty.1

/-- No octet of a part ends a label or starts an escape. -/
def Plain (octets : Bytes) : Prop := 0x2e ∉ octets ∧ 0x5c ∉ octets

theorem plain_utf8 (noDot : '.' ∉ text) (noEscape : '\\' ∉ text) : Plain (utf8 text) := by
  have absent {octet : UInt8} {c : Char} (ascii : octet.toNat < 128) (same : c.toNat = octet.toNat)
      (noChar : c ∉ text) : octet ∉ utf8 text := by
    intro member
    obtain ⟨other, inside, encoded⟩ := List.mem_flatMap.mp member
    have value := mem_utf8EncodeChar encoded ascii
    obtain rfl : other = c := Char.toNat_inj.mp (value.trans same.symm)
    exact noChar inside
  exact ⟨absent (by decide) (by decide) noDot, absent (by decide) (by decide) noEscape⟩

theorem utf8_intercalate (parts : List (List Char)) :
    utf8 (['.'].intercalate parts) = [0x2e].intercalate (parts.map utf8) := by
  induction parts with
  | nil => rfl
  | cons part parts inductionHypothesis =>
      cases parts with
      | nil => simp
      | cons next parts =>
          rw [List.map_cons] at inductionHypothesis
          rw [List.intercalate_cons_cons, List.map_cons, List.map_cons, List.intercalate_cons_cons,
            utf8_append, utf8_append, inductionHypothesis]
          rfl

/-! ## Names between dots -/

theorem labelText_of_plain {octets : Bytes} (plain : Plain octets) : LabelText octets octets := by
  induction octets with
  | nil => exact .nil
  | cons octet octets inductionHypothesis =>
      obtain ⟨noDot, noEscape⟩ := plain
      obtain ⟨dot, noDots⟩ := List.ne_and_not_mem_of_not_mem_cons noDot
      obtain ⟨escape, noEscapes⟩ := List.ne_and_not_mem_of_not_mem_cons noEscape
      exact .cons (.plain escape.symm dot.symm) (inductionHypothesis ⟨noDots, noEscapes⟩)

theorem nameText_intercalate {labels : List Bytes} (some : labels ≠ [])
    (plain : ∀ label ∈ labels, Plain label ∧ label ≠ []) :
    NameText ([0x2e].intercalate labels) labels := by
  induction labels with
  | nil => exact absurd rfl some
  | cons label labels inductionHypothesis =>
      obtain ⟨spelled, nonempty⟩ := plain label List.mem_cons_self
      have text := labelText_of_plain spelled
      cases labels with
      | nil =>
          rw [List.intercalate_singleton]
          exact .last text nonempty
      | cons next labels =>
          rw [List.intercalate_cons_cons, List.append_assoc]
          refine .next text nonempty (inductionHypothesis (List.cons_ne_nil next labels) ?_)
          exact fun other member => plain other (List.mem_cons_of_mem label member)

/-- Read between its dots, a name has the labels that the parts spell. -/
theorem labels_of_fromAscii (some : parts ≠ [])
    (plain : ∀ part ∈ parts, '.' ∉ part ∧ '\\' ∉ part ∧ part ≠ [])
    (read : Name.fromAscii (utf8 (['.'].intercalate parts)) = .ok name) :
    name.labels = parts.map partLabel := by
  have spelled : NameText ([0x2e].intercalate (parts.map utf8)) (parts.map utf8) := by
    refine nameText_intercalate (by simpa using some) fun label member => ?_
    obtain ⟨part, listed, rfl⟩ := List.mem_map.mp member
    obtain ⟨noDot, noEscape, nonempty⟩ := plain part listed
    exact ⟨plain_utf8 noDot noEscape, utf8_ne_nil nonempty⟩
  rw [utf8_intercalate] at read
  obtain ⟨labels, other, short, -, -, rfl⟩ := Name.fromAscii_eq_ok_iff.mp read
  obtain rfl := spelled.unique other
  have sized : Sized ((parts.map utf8).map (List.map asciiLower)) := by
    refine sized_of_short fun label member => ?_
    obtain ⟨octets, listed, rfl⟩ := List.mem_map.mp member
    rw [List.length_map]
    exact ⟨spelled.nonempty octets listed, short octets listed⟩
  rw [labels_stored sized, List.map_map]
  rfl

/-! ## What each kind of pattern matches -/

/-- Where no part is a `*`, the labels are those that the parts spell. -/
theorem partMatches_spelled_iff (noStar : ['*'] ∉ parts) {labels : List Bytes} :
    List.Forall₂ PartMatches parts labels ↔ labels = parts.map partLabel := by
  induction parts generalizing labels with
  | nil => rw [List.forall₂_nil_left_iff, List.map_nil]
  | cons part parts inductionHypothesis =>
      obtain ⟨other, noStars⟩ := List.ne_and_not_mem_of_not_mem_cons noStar
      rw [List.forall₂_cons_left_iff, List.map_cons]
      constructor
      · rintro ⟨label, later, star | spelled, matched, rfl⟩
        · exact absurd star.symm other
        · rw [spelled, (inductionHypothesis noStars).mp matched]
      · rintro rfl
        exact ⟨_, _, .inr rfl, (inductionHypothesis noStars).mpr rfl, rfl⟩

/-- The label of a wildcard pattern for a part. -/
def patternLabel (part : List Char) : Option Bytes :=
  if part = ['*'] then none else some (partLabel part)

theorem patternLabel_eq_some {literal : Bytes} (same : patternLabel part = some literal) :
    part ≠ ['*'] ∧ partLabel part = literal := by
  unfold patternLabel at same
  split_ifs at same with star
  exact ⟨star, Option.some.inj same⟩

theorem WildcardPattern.matches_patternLabel_iff {leading : Bool} :
    (⟨parts.map patternLabel, leading⟩ : WildcardPattern).matches name = true ↔
      ∃ front back, name.labels = front ++ back ∧ (leading = false → front = []) ∧
        List.Forall₂ PartMatches parts back := by
  rw [matches_iff]
  dsimp only
  rw [List.length_map]
  constructor
  · rintro ⟨fits, whole, literals⟩
    have count : name.labels.length - (name.labels.length - parts.length) = parts.length := by omega
    refine ⟨name.labels.take (name.labels.length - parts.length),
      name.labels.drop (name.labels.length - parts.length), (List.take_append_drop _ _).symm,
      fun single => ?_, ?_⟩
    · rw [whole single, Nat.sub_self, List.take_zero]
    · refine List.forall₂_iff_get.mpr ⟨by rw [List.length_drop, count], fun index inside _ => ?_⟩
      rw [List.get_eq_getElem, List.get_eq_getElem, List.getElem_drop]
      by_cases star : parts[index] = ['*']
      · exact .inl star
      · refine .inr ?_
        have located := literals index (partLabel parts[index]) (by
          rw [List.getElem?_map, List.getElem?_eq_getElem inside, Option.map_some, patternLabel,
            if_neg star])
        exact (List.getElem?_eq_some_iff.mp located).2
  · rintro ⟨front, back, split, single, matched⟩
    have count := matched.length_eq
    rw [split, List.length_append, ← count]
    refine ⟨Nat.le_add_left _ _, fun plain => ?_, fun index literal located => ?_⟩
    · rw [single plain]
      exact Nat.zero_add _
    · rw [List.getElem?_map] at located
      obtain ⟨part, listed, same⟩ := Option.map_eq_some_iff.mp located
      obtain ⟨inside, rfl⟩ := List.getElem?_eq_some_iff.mp listed
      obtain ⟨star, spelled⟩ := patternLabel_eq_some same
      have behind : index < back.length := count ▸ inside
      rw [Nat.add_sub_cancel, List.getElem?_append_right (Nat.le_add_right _ _),
        Nat.add_sub_cancel_left, List.getElem?_eq_getElem behind]
      rcases (List.forall₂_iff_get.mp matched).2 index inside behind with any | literal'
      · exact absurd any star
      · rw [List.get_eq_getElem] at literal'
        rw [literal']
        exact congrArg some spelled

/-! ## The parts of a text -/

theorem stripMarker_marked {raw suffix : List Char} (stripped : stripMarker raw = (suffix, true)) :
    ∃ marker, IsMarker marker ∧ raw = marker ++ '.' :: suffix := by
  unfold stripMarker at stripped
  split at stripped
  · obtain ⟨rfl, -⟩ := Prod.mk.inj stripped
    exact ⟨['*'], .inl rfl, rfl⟩
  · obtain ⟨rfl, -⟩ := Prod.mk.inj stripped
    exact ⟨['+'], .inr (.inl rfl), rfl⟩
  · obtain ⟨rfl, -⟩ := Prod.mk.inj stripped
    exact ⟨[], .inr (.inr rfl), rfl⟩
  · exact absurd (Prod.mk.inj stripped).2 Bool.false_ne_true

theorem stripMarker_plain {raw suffix : List Char} (stripped : stripMarker raw = (suffix, false)) :
    suffix = raw ∧ ∀ marker, IsMarker marker → ¬ marker ++ ['.'] <+: raw := by
  unfold stripMarker at stripped
  split at stripped
  · exact absurd (Prod.mk.inj stripped).2.symm Bool.false_ne_true
  · exact absurd (Prod.mk.inj stripped).2.symm Bool.false_ne_true
  · exact absurd (Prod.mk.inj stripped).2.symm Bool.false_ne_true
  · rename_i star plus dot
    refine ⟨(Prod.mk.inj stripped).1.symm, ?_⟩
    rintro marker (rfl | rfl | rfl) ⟨rest, rfl⟩
    · exact star rest rfl
    · exact plus rest rfl
    · exact dot rest rfl

theorem trimEndDots_append {front : List Char} (some : trimEndDots text ≠ []) :
    trimEndDots (front ++ text) = front ++ trimEndDots text := by
  unfold trimEndDots List.rdropWhile at some ⊢
  have stays : (text.reverse.dropWhile fun c => decide (c = '.')).isEmpty = false := by
    rw [List.isEmpty_eq_false_iff]
    simpa using some
  rw [List.reverse_append, List.dropWhile_append, stays, if_neg Bool.false_ne_true,
    List.reverse_append, List.reverse_reverse]

theorem IsMarker.splitOn {marker : List Char} (marks : IsMarker marker)
    (some : trimEndDots text ≠ []) :
    (trimEndDots (marker ++ '.' :: text)).splitOn '.' = marker :: (trimEndDots text).splitOn '.' := by
  have noDot : '.' ∉ marker := by
    rcases marks with rfl | rfl | rfl <;> decide
  have split : marker ++ '.' :: text = (marker ++ ['.']) ++ text := by
    rw [List.append_assoc]
    rfl
  rw [split, trimEndDots_append some, List.append_assoc]
  exact List.splitOn_append_cons_self_of_not_mem noDot _

theorem marked_cons {marker : List Char} (some : parts ≠ []) :
    Marked (marker :: parts) ↔ IsMarker marker := by
  obtain ⟨part, parts, rfl⟩ := List.exists_cons_of_ne_nil some
  exact Iff.rfl

/-- Without a marker in front the parts are not marked. -/
theorem not_marked_splitOn {raw : List Char}
    (plain : ∀ marker, IsMarker marker → ¬ marker ++ ['.'] <+: raw) :
    ¬ Marked ((trimEndDots raw).splitOn '.') := by
  intro marked
  have whole : ['.'].intercalate ((trimEndDots raw).splitOn '.') = trimEndDots raw :=
    List.intercalate_splitOn '.'
  rcases split : (trimEndDots raw).splitOn '.' with _ | ⟨first, _ | ⟨second, parts⟩⟩
  · rw [split] at marked
    exact marked
  · rw [split] at marked
    exact marked
  · rw [split] at marked whole
    rw [List.intercalate_cons_cons] at whole
    refine plain first marked ?_
    exact (whole ▸ List.prefix_append _ _).trans (List.rdropWhile_prefix _ _)

/-- Without a marker in front the only text for a lone `*` is `*`. -/
theorem eq_star_of_splitOn {raw : List Char}
    (plain : ∀ marker, IsMarker marker → ¬ marker ++ ['.'] <+: raw)
    (single : (trimEndDots raw).splitOn '.' = [['*']]) : raw = ['*'] := by
  have whole : ['.'].intercalate ((trimEndDots raw).splitOn '.') = trimEndDots raw :=
    List.intercalate_splitOn '.'
  rw [single, List.intercalate_singleton] at whole
  have split : trimEndDots raw ++ raw.rtakeWhile (fun c => decide (c = '.')) = raw :=
    List.rdropWhile_append_rtakeWhile
  rw [← whole] at split
  cases dots : raw.rtakeWhile (fun c => decide (c = '.')) with
  | nil =>
      rw [dots] at split
      exact split.symm
  | cons dot rest =>
      have same : dot = '.' := by
        have member : dot ∈ raw.rtakeWhile (fun c => decide (c = '.')) := dots ▸ List.mem_cons_self
        simpa using List.mem_rtakeWhile_imp member
      rw [dots, same] at split
      exact absurd ⟨rest, split⟩ (plain ['*'] (.inl rfl))

/-! ## What is read -/

namespace DomainPattern

variable {debug : List Char → String} {s : List Char} {pattern : DomainPattern}

theorem parseLabel_eq_ok {raw : List Char} (plain : '.' ∉ part ∧ '\\' ∉ part ∧ part ≠ [])
    {label : Option Bytes} (read : parseLabel debug raw part = .ok label) :
    label = patternLabel part := by
  unfold parseLabel at read
  unfold patternLabel
  split_ifs at read ⊢ with star
  · exact (Except.ok.inj read).symm
  · obtain ⟨one, named, read⟩ := bind_eq_ok.mp read
    obtain ⟨bytes, first, read⟩ := bind_eq_ok.mp read
    have named := mapError_eq_ok.mp named
    have first := okOr_eq_ok.mp first
    obtain rfl := Except.ok.inj read
    have labels : one.labels = [part].map partLabel :=
      labels_of_fromAscii (List.cons_ne_nil _ _)
        (fun other member => by rwa [List.mem_singleton.mp member])
        (by rwa [List.intercalate_singleton])
    rw [labels] at first
    exact congrArg some (Option.some.inj first).symm

theorem mapM_parseLabel {raw : List Char} {labels : List (Option Bytes)}
    (plain : ∀ part ∈ parts, '.' ∉ part ∧ '\\' ∉ part ∧ part ≠ [])
    (read : parts.mapM (parseLabel debug raw) = .ok labels) : labels = parts.map patternLabel := by
  have each := mapM_eq_ok.mp read
  rw [← List.forall₂_eq_eq_eq, List.forall₂_map_right_iff]
  refine (List.forall₂_iff_zip.mpr ⟨each.length_eq, fun {part label} paired => ?_⟩).flip
  exact parseLabel_eq_ok (plain part (List.of_mem_zip paired).1) (List.forall₂_zip each paired)

/-- What a pattern is read from: `*`, or parts without dots and escapes behind a marker or not. -/
theorem parse_eq_ok (read : parse debug s = .ok pattern) : (trim s = ['*'] ∧ pattern = .any) ∨
    ∃ parts leading, (patternParts s = parts ∧ leading = false ∧ ¬ Marked parts ∨
        leading = true ∧ ∃ marker, IsMarker marker ∧ patternParts s = marker :: parts) ∧ parts ≠ [] ∧
      patternParts s ≠ [['*']] ∧ (∀ part ∈ parts, '.' ∉ part ∧ '\\' ∉ part ∧ part ≠ []) ∧
      (['*'] ∈ parts ∧ pattern = .wildcard ⟨parts.map patternLabel, leading⟩ ∨
        ['*'] ∉ parts ∧ ∃ name : Name, name.Built ∧ name.labels = parts.map partLabel ∧
          pattern = if leading then .subtree name else .exact name) := by
  unfold parse at read
  dsimp only at read
  obtain ⟨_, -, read⟩ := bind_eq_ok.mp read
  by_cases star : trim s = ['*']
  · rw [if_pos star] at read
    exact .inl ⟨star, (Except.ok.inj read).symm⟩
  right
  rw [if_neg star] at read
  obtain ⟨_, -, read⟩ := bind_eq_ok.mp read
  obtain ⟨_, noEscape, read⟩ := bind_eq_ok.mp read
  have noEscape := failIf_eq_ok.mp noEscape
  rcases stripped : stripMarker (trim s) with ⟨suffix, leading⟩
  rw [stripped] at read
  dsimp only at read
  obtain ⟨_, suffixed, read⟩ := bind_eq_ok.mp read
  obtain ⟨_, labelled, read⟩ := bind_eq_ok.mp read
  have nonempty := failIf_eq_ok.mp suffixed
  have noEmpty := failIf_eq_ok.mp labelled
  have whole : ['.'].intercalate ((trimEndDots suffix).splitOn '.') = trimEndDots suffix :=
    List.intercalate_splitOn '.'
  have some : (trimEndDots suffix).splitOn '.' ≠ [] := List.splitOn_ne_nil _ _
  have inside : ∀ c ∈ trimEndDots suffix, c ∈ trim s := by
    intro c member
    have kept := (List.rdropWhile_prefix _ _).mem member
    cases leading with
    | true =>
        obtain ⟨marker, -, split⟩ := stripMarker_marked stripped
        rw [split]
        exact List.mem_append_right marker (List.mem_cons_of_mem _ kept)
    | false => exact (stripMarker_plain stripped).1 ▸ kept
  have plain : ∀ part ∈ (trimEndDots suffix).splitOn '.',
      '.' ∉ part ∧ '\\' ∉ part ∧ part ≠ [] := by
    refine fun part listed => ⟨not_mem_of_mem_splitOn listed, fun escape => ?_, ?_⟩
    · exact noEscape (inside _ (mem_of_mem_splitOn listed escape))
    · rintro rfl
      exact noEmpty listed
  refine ⟨(trimEndDots suffix).splitOn '.', leading, ?_, some, ?_, plain, ?_⟩
  · cases leading with
    | true =>
        obtain ⟨marker, marks, split⟩ := stripMarker_marked stripped
        refine .inr ⟨rfl, marker, marks, ?_⟩
        unfold patternParts
        rw [split]
        exact marks.splitOn nonempty
    | false =>
        obtain ⟨rfl, unmarked⟩ := stripMarker_plain stripped
        exact .inl ⟨rfl, rfl, not_marked_splitOn unmarked⟩
  · intro single
    cases leading with
    | true =>
        obtain ⟨marker, marks, split⟩ := stripMarker_marked stripped
        unfold patternParts at single
        rw [split, marks.splitOn nonempty] at single
        exact some (List.cons.inj single).2
    | false =>
        obtain ⟨rfl, unmarked⟩ := stripMarker_plain stripped
        exact star (eq_star_of_splitOn unmarked single)
  · by_cases stars : ['*'] ∈ (trimEndDots suffix).splitOn '.'
    · rw [if_pos stars] at read
      obtain ⟨labels, spelled, read⟩ := bind_eq_ok.mp read
      exact .inl ⟨stars, (mapM_parseLabel plain spelled) ▸ (Except.ok.inj read).symm⟩
    · rw [if_neg stars] at read
      obtain ⟨name, named, read⟩ := bind_eq_ok.mp read
      obtain ⟨_, -, read⟩ := bind_eq_ok.mp read
      have named := mapError_eq_ok.mp named
      refine .inr ⟨stars, name, Name.built_of_fromAscii named, ?_, (Except.ok.inj read).symm⟩
      exact labels_of_fromAscii some plain (by rwa [whole])

/-- Patterns are as `Parsed` says. -/
theorem parsed_of_parse (read : parse debug s = .ok pattern) : pattern.Parsed := by
  rcases parse_eq_ok read with ⟨-, rfl⟩ | ⟨parts, leading, -, -, -, -, wildcard | named⟩
  · trivial
  · obtain ⟨star, rfl⟩ := wildcard
    exact List.mem_map.mpr ⟨['*'], star, if_pos rfl⟩
  · obtain ⟨-, name, built, -, rfl⟩ := named
    cases leading with
    | true => exact built
    | false => exact built

/-- What the parts of a pattern stand for, behind a marker or not. -/
theorem denotes_iff {leading : Bool} {labels : List Bytes} (some : parts ≠ [])
    (several : patternParts s ≠ [['*']])
    (cut : patternParts s = parts ∧ leading = false ∧ ¬ Marked parts ∨
      leading = true ∧ ∃ marker, IsMarker marker ∧ patternParts s = marker :: parts) :
    Denotes (patternParts s) labels ↔ ∃ front back, labels = front ++ back ∧
      (leading = false → front = []) ∧ List.Forall₂ PartMatches parts back := by
  unfold Denotes
  rw [or_iff_right several]
  rcases cut with ⟨same, rfl, plain⟩ | ⟨rfl, marker, marks, same⟩
  · rw [same]
    simp only [plain, false_and, false_or, not_false_eq_true, true_and, forall_const]
    constructor
    · exact fun matched => ⟨[], labels, rfl, rfl, matched⟩
    · rintro ⟨front, back, rfl, rfl, matched⟩
      exact matched
  · have marked : Marked (marker :: parts) := (marked_cons some).mpr marks
    rw [same]
    simp only [marked, not_true_eq_false, false_and, or_false, true_and, List.tail_cons,
      Bool.true_eq_false, false_implies]

/-- **Patterns.** A pattern matches the names its text stands for, and besides them only what a zone
straddles; and it is as the order of rules takes it to be. -/
theorem parse_matches_iff (read : parse debug s = .ok pattern) (named : name.Built) :
    pattern.Parsed ∧
      (pattern.matches name = true ↔ Denotes (patternParts s) name.labels ∨ pattern.Straddles name) := by
  refine ⟨parsed_of_parse read, ?_⟩
  rcases parse_eq_ok read with ⟨star, rfl⟩ | ⟨parts, leading, cut, some, several, plain, kind⟩
  · have alone : patternParts s = [['*']] := by
      unfold patternParts
      rw [star]
      rfl
    have all : DomainPattern.any.matches name = true := rfl
    exact iff_of_true all (.inl (.inl alone))
  rw [denotes_iff some several cut]
  rcases kind with ⟨-, rfl⟩ | ⟨noStar, other, built, labels, rfl⟩
  · change _ ↔ _ ∨ False
    rw [or_false]
    exact WildcardPattern.matches_patternLabel_iff
  · simp only [partMatches_spelled_iff noStar, ← labels]
    cases leading with
    | true =>
        change name.isSubdomainOf other = true ↔ _ ∨ name.StraddledBy other
        rw [named.isSubdomainOf_iff built]
        refine or_congr_left ⟨?_, ?_⟩
        · rintro ⟨front, split⟩
          exact ⟨front, other.labels, split.symm, Bool.noConfusion, rfl⟩
        · rintro ⟨front, back, split, -, rfl⟩
          exact ⟨front, split.symm⟩
    | false =>
        change (name == other) = true ↔ _ ∨ False
        rw [beq_iff_eq, or_false]
        constructor
        · rintro rfl
          exact ⟨[], name.labels, rfl, fun _ => rfl, rfl⟩
        · rintro ⟨front, back, split, empty, rfl⟩
          rw [empty rfl, List.nil_append] at split
          exact named.ext built split

theorem parse_matches_iff_dotted : Denotes (patternParts ['*', '.', 'a', '.', '*', '.'])
    [[0x63], [0x61], [0x62]] := by
  have read : parse (fun _ => "") ['*', '.', 'a', '.', '*', '.'] =
      .ok (.wildcard ⟨[some [0x61], none], true⟩) := by decide
  have named : (⟨[1, 0x63, 1, 0x61, 1, 0x62, 0]⟩ : Name).Built :=
    Name.built_of_fromAscii (show Name.fromAscii [0x43, 0x2e, 0x61, 0x2e, 0x62] = _ by decide)
  rcases (parse_matches_iff read named).2.mp (by decide) with denoted | straddled
  · exact denoted
  · cases straddled

end DomainPattern

end RecurseX
