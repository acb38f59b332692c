import RecurseX.Name.Decode

/-!
# Presentation format of names

A name as text, given by its octets: labels between dots, with escapes for what
a label may not hold as it is. `NameText` is the format as a relation, and
`fromAscii_eq_ok_iff` says what the reader accepts of it.
-/

namespace RecurseX

open Library Library.PrefixedList Wire

/-- Whether an octet is a decimal digit. -/
def isAsciiDigit (octet : UInt8) : Bool := 0x30 ≤ octet && octet ≤ 0x39

/-- The value of a digit. -/
def digitValue (octet : UInt8) : Nat := octet.toNat - 0x30

namespace Name

/-- What was read of a text so far: the finished labels behind their lengths, the
label in course, and the running totals. -/
structure AsciiState where
  labels : Bytes
  current : Bytes
  total : Nat
  labelCount : Nat
deriving DecidableEq, Repr

/-- Add an octet to the label in course. -/
def AsciiState.push (state : AsciiState) (octet : UInt8) : AsciiState :=
  { state with current := state.current ++ [octet] }

/-- Record the label in course and start a new one. -/
def finishLabel (state : AsciiState) : Result AsciiState := do
  failIf (state.current.length > 63) (.wire "label longer than 63 octets")
  failIf (state.total + (1 + state.current.length) > maxNameLen) (.wire "name exceeds 255 octets")
  failIf (state.labelCount ≥ maxLabels) (.wire "too many labels")
  .ok {
    labels := state.labels ++ UInt8.ofNat state.current.length :: state.current
    current := []
    total := state.total + (1 + state.current.length)
    labelCount := state.labelCount + 1 }

/-- The reader's loop over the rest of the text. -/
def fromAsciiLoop : (rest : Bytes) → AsciiState → Result AsciiState
  | [], state => .ok state
  | octet :: rest, state =>
      if octet = 0x5c then
        match rest with
        | [] => .error (.wire "trailing backslash in name")
        | escaped :: rest =>
            if isAsciiDigit escaped then
              match rest with
              | second :: third :: rest =>
                  if isAsciiDigit second = false ∨ isAsciiDigit third = false then
                    .error (.wire "bad \\DDD escape in name")
                  else
                    let value := digitValue escaped * 100 + digitValue second * 10 + digitValue third
                    if value > 255 then .error (.wire "bad \\DDD escape in name")
                    else fromAsciiLoop rest (state.push (UInt8.ofNat value))
              | _ => .error (.wire "bad \\DDD escape in name")
            else fromAsciiLoop rest (state.push escaped)
      else if octet = 0x2e then
        if state.current.isEmpty then
          -- A dot behind nothing is fine only at the very end.
          if rest.isEmpty then .ok state else .error (.wire "empty label in name")
        else do
          let state ← finishLabel state
          fromAsciiLoop rest state
      else fromAsciiLoop rest (state.push octet)

/-- Record the last label, if the text does not end in a dot. -/
def finishLast (state : AsciiState) : Result AsciiState :=
  if state.current.isEmpty then .ok state else finishLabel state

/-- Parse from presentation format. -/
def fromAscii (text : Bytes) : Result Name := do
  let state ← fromAsciiLoop text ⟨[], [], 0, 0⟩
  let state ← finishLast state
  .ok ⟨state.labels.map asciiLower ++ [0]⟩

/-- The three digits of an octet. -/
def threeDigits (octet : UInt8) : Bytes :=
  [0x30 + UInt8.ofNat (octet.toNat / 100), 0x30 + UInt8.ofNat (octet.toNat / 10 % 10),
    0x30 + UInt8.ofNat (octet.toNat % 10)]

/-- One octet of a label, escaped where it must be. -/
def escapeOctet (octet : UInt8) : Bytes :=
  if octet = 0x2e then [0x5c, 0x2e]
  else if octet = 0x5c then [0x5c, 0x5c]
  else if octet = 0x20 then [0x5c, 0x30, 0x33, 0x32]
  else if octet = 0x22 then [0x5c, 0x30, 0x34, 0x32]
  else if octet = 0x40 then [0x5c, 0x30, 0x36, 0x34]
  else if octet = 0x28 then [0x5c, 0x30, 0x34, 0x30]
  else if octet = 0x29 then [0x5c, 0x30, 0x34, 0x31]
  else if octet = 0x3b then [0x5c, 0x30, 0x35, 0x39]
  else if ¬ (0x21 ≤ octet ∧ octet ≤ 0x7e) then 0x5c :: threeDigits octet
  else [octet]

/-- The labels of a text that is there already, each behind a dot if something is. -/
def toAsciiLoop : List Bytes → Bytes → Bytes
  | [], text => text
  | label :: labels, text =>
      toAsciiLoop labels
        ((if text.isEmpty then text else text ++ [0x2e]) ++ label.flatMap escapeOctet)

/-- Presentation format. The root renders as a dot. -/
def toAscii (name : Name) : Bytes :=
  let text := toAsciiLoop name.labels []
  if text.isEmpty then [0x2e] else text

end Name

/-! ## The format -/

/-- How one octet is spelled. -/
inductive OctetText : Bytes → UInt8 → Prop where
  | plain {octet} (noEscape : octet ≠ 0x5c) (noDot : octet ≠ 0x2e) : OctetText [octet] octet
  | escaped {octet} (noDigit : isAsciiDigit octet = false) : OctetText [0x5c, octet] octet
  | decimal {first second third} (one : isAsciiDigit first = true) (two : isAsciiDigit second = true)
      (three : isAsciiDigit third = true)
      (small : digitValue first * 100 + digitValue second * 10 + digitValue third ≤ 255) :
      OctetText [0x5c, first, second, third]
        (UInt8.ofNat (digitValue first * 100 + digitValue second * 10 + digitValue third))

/-- How octets are spelled one after the other. -/
inductive LabelText : Bytes → Bytes → Prop where
  | nil : LabelText [] []
  | cons {text rest octet octets} (first : OctetText text octet) (later : LabelText rest octets) :
      LabelText (text ++ rest) (octet :: octets)

/-- How labels are spelled: with a dot between two of them, and up to two dots at the end.
No label, the root, is nothing or one dot. -/
inductive NameText : Bytes → List Bytes → Prop where
  | root : NameText [] []
  | dot : NameText [0x2e] []
  | last {text label} (spelled : LabelText text label) (some : label ≠ []) : NameText text [label]
  | next {text rest label labels} (spelled : LabelText text label) (some : label ≠ [])
      (later : NameText rest labels) : NameText (text ++ 0x2e :: rest) (label :: labels)

/-! ## What the reader accepts -/

namespace Name

/-- The labels that are added to what was read fit into the limits. -/
structure Fits (state : AsciiState) (labels : List Bytes) : Prop where
  short : ∀ label ∈ labels, label.length ≤ 63
  total : state.total + (body labels).length ≤ maxNameLen
  count : state.labelCount + labels.length ≤ maxLabels

/-- What was read, with more labels. -/
def AsciiState.adding (state : AsciiState) (labels : List Bytes) : AsciiState where
  labels := state.labels ++ body labels
  current := []
  total := state.total + (body labels).length
  labelCount := state.labelCount + labels.length

theorem finishLabel_eq_ok {state after : AsciiState} :
    finishLabel state = .ok after ↔
      Fits state [state.current] ∧ after = state.adding [state.current] := by
  constructor
  · intro finished
    simp only [finishLabel, bind_eq_ok, failIf_eq_ok] at finished
    obtain ⟨_, short, _, total, _, count, finished⟩ := finished
    cases finished
    refine ⟨⟨by simpa using short, ?_, by simp; omega⟩, ?_⟩
    · simp only [body_cons, body_nil, List.append_nil, length_item]
      omega
    · simp [AsciiState.adding, item]
      omega
  · rintro ⟨⟨short, total, count⟩, rfl⟩
    simp only [List.mem_singleton, forall_eq, body_cons, body_nil, List.append_nil, length_item,
      List.length_singleton] at short total count
    rw [finishLabel, failIf_of_not (by omega), failIf_of_not (by omega), failIf_of_not (by omega)]
    simp [AsciiState.adding, item]
    omega

theorem adding_nil {state : AsciiState} (fresh : state.current = []) : state.adding [] = state := by
  cases state
  cases fresh
  simp [AsciiState.adding]

theorem adding_cons {state : AsciiState} {label : Bytes} {labels : List Bytes} :
    state.adding (label :: labels) = (state.adding [label]).adding labels := by
  simp [AsciiState.adding]
  omega

theorem fits_cons {state : AsciiState} {label : Bytes} {labels : List Bytes} :
    Fits state (label :: labels) ↔ Fits state [label] ∧ Fits (state.adding [label]) labels := by
  constructor
  · rintro ⟨short, total, count⟩
    simp only [body_cons, List.length_append, length_item, List.length_cons] at total count
    refine ⟨⟨by simpa using short label List.mem_cons_self, ?_, ?_⟩,
      ⟨fun other member => short other (List.mem_cons_of_mem _ member), ?_, ?_⟩⟩
    all_goals simp [AsciiState.adding]
    all_goals omega
  · rintro ⟨⟨short, -, -⟩, ⟨others, total, count⟩⟩
    simp only [AsciiState.adding, body_cons, body_nil, List.append_nil, length_item,
      List.length_singleton] at total count
    refine ⟨List.forall_mem_cons.mpr ⟨short label (List.mem_singleton_self _), others⟩, ?_, ?_⟩
    all_goals simp
    all_goals omega

/-- Read the rest of a text and record the last label. -/
def readRest (text : Bytes) (state : AsciiState) : Result AsciiState := do
  let state ← fromAsciiLoop text state
  finishLast state

theorem loop_octet {text rest : Bytes} {octet : UInt8} (spelled : OctetText text octet)
    (state : AsciiState) :
    fromAsciiLoop (text ++ rest) state = fromAsciiLoop rest (state.push octet) := by
  rw [fromAsciiLoop.eq_def]
  cases spelled with
  | plain noEscape noDot => simp [noEscape, noDot]
  | escaped noDigit => simp [noDigit]
  | decimal one two three small =>
      simp [one, two, three]
      omega

theorem loop_label {text label : Bytes} (spelled : LabelText text label) {rest : Bytes}
    (state : AsciiState) :
    fromAsciiLoop (text ++ rest) state =
      fromAsciiLoop rest { state with current := state.current ++ label } := by
  induction spelled generalizing state with
  | nil => simp
  | cons first later inductionHypothesis =>
      rw [List.append_assoc, loop_octet first, inductionHypothesis]
      simp [AsciiState.push]

/-- A text within the limits is read to its end. -/
theorem readRest_of_nameText {text : Bytes} {labels : List Bytes} (spelled : NameText text labels)
    {state : AsciiState} (fresh : state.current = []) (fits : Fits state labels) :
    readRest text state = .ok (state.adding labels) := by
  induction spelled generalizing state with
  | root => simp [readRest, fromAsciiLoop, finishLast, fresh, adding_nil fresh]
  | dot => simp [readRest, fromAsciiLoop, finishLast, fresh, adding_nil fresh]
  | @last text label spelled some =>
      have whole := @loop_label text label spelled [] state
      rw [List.append_nil, fresh, List.nil_append] at whole
      have finished : finishLabel { state with current := label } = .ok (state.adding [label]) :=
        finishLabel_eq_ok.mpr ⟨⟨fits.short, fits.total, fits.count⟩, rfl⟩
      rw [readRest, whole, fromAsciiLoop, ok_bind, finishLast, if_neg (by simpa using some), finished]
  | @next text rest label labels spelled some later inductionHypothesis =>
      obtain ⟨fits, others⟩ := fits_cons.mp fits
      have finished : finishLabel { state with current := label } = .ok (state.adding [label]) :=
        finishLabel_eq_ok.mpr ⟨⟨fits.short, fits.total, fits.count⟩, rfl⟩
      have dotted : fromAsciiLoop (0x2e :: rest) { state with current := label } =
          fromAsciiLoop rest (state.adding [label]) := by
        rw [fromAsciiLoop.eq_def]
        simp [some, finished]
      rw [adding_cons, ← inductionHypothesis rfl others, readRest, readRest, loop_label spelled,
        fresh, List.nil_append, dotted]

end Name

theorem LabelText.eq_nil {text : Bytes} (spelled : LabelText text []) : text = [] := by
  cases spelled
  rfl

theorem LabelText.snoc {text label : Bytes} (spelled : LabelText text label) {last : Bytes}
    {octet : UInt8} (next : OctetText last octet) : LabelText (text ++ last) (label ++ [octet]) := by
  induction spelled with
  | nil => simpa using LabelText.cons next .nil
  | cons first later inductionHypothesis =>
      rw [List.append_assoc]
      exact .cons first inductionHypothesis

namespace Name

/-- What is read is a text within the limits. `before` is the text of the label in course. -/
theorem nameText_of_readRest {text : Bytes} {state after : AsciiState}
    (ran : readRest text state = .ok after) (bounded : Fits state []) {before : Bytes}
    (spelled : LabelText before state.current) :
    ∃ labels, NameText (before ++ text) labels ∧ Fits state labels ∧ after = state.adding labels := by
  unfold readRest at ran
  fun_induction fromAsciiLoop text state generalizing before with
  | case1 state =>
      rw [ok_bind, finishLast] at ran
      split_ifs at ran with done
      · cases ran
        have fresh := List.isEmpty_iff.mp done
        obtain rfl := (fresh ▸ spelled).eq_nil
        exact ⟨[], .root, bounded, (adding_nil fresh).symm⟩
      · obtain ⟨fits, rfl⟩ := finishLabel_eq_ok.mp ran
        rw [List.append_nil]
        exact ⟨_, .last spelled (by simpa using done), fits, rfl⟩
  | case2 | case3 | case4 | case6 | case9 => cases ran
  | case5 state first one second third rest digits value small inductionHypothesis =>
      simp only [not_or, Bool.not_eq_false] at digits
      have octet := OctetText.decimal one digits.1 digits.2 (Nat.not_lt.mp small)
      obtain ⟨labels, name, fits, rfl⟩ :=
        inductionHypothesis ran ⟨bounded.short, bounded.total, bounded.count⟩ (spelled.snoc octet)
      rw [List.append_assoc] at name
      exact ⟨labels, name, ⟨fits.short, fits.total, fits.count⟩, rfl⟩
  | case7 state escaped rest noDigit inductionHypothesis =>
      have octet := OctetText.escaped (by simpa using noDigit)
      obtain ⟨labels, name, fits, rfl⟩ :=
        inductionHypothesis ran ⟨bounded.short, bounded.total, bounded.count⟩ (spelled.snoc octet)
      rw [List.append_assoc] at name
      exact ⟨labels, name, ⟨fits.short, fits.total, fits.count⟩, rfl⟩
  | case8 rest state none ended =>
      have fresh := List.isEmpty_iff.mp none
      obtain rfl := (fresh ▸ spelled).eq_nil
      obtain rfl := List.isEmpty_iff.mp ended
      rw [ok_bind, finishLast, if_pos none] at ran
      cases ran
      exact ⟨[], .dot, bounded, (adding_nil fresh).symm⟩
  | case10 rest state some _ inductionHypothesis =>
      obtain ⟨_, looped, last⟩ := bind_eq_ok.mp ran
      obtain ⟨next, finished, looped⟩ := bind_eq_ok.mp looped
      obtain ⟨fits, rfl⟩ := finishLabel_eq_ok.mp finished
      have bounded : Fits (state.adding [state.current]) [] :=
        (fits_cons.mp fits).2
      obtain ⟨labels, name, others, rfl⟩ := inductionHypothesis _ (bind_eq_ok.mpr ⟨_, looped, last⟩)
        bounded .nil
      refine ⟨state.current :: labels, .next spelled (by simpa using some) name,
        fits_cons.mpr ⟨fits, others⟩, adding_cons.symm⟩
  | case11 octet rest state noEscape noDot inductionHypothesis =>
      have octet := OctetText.plain noEscape noDot
      obtain ⟨labels, name, fits, rfl⟩ :=
        inductionHypothesis ran ⟨bounded.short, bounded.total, bounded.count⟩ (spelled.snoc octet)
      rw [List.append_assoc] at name
      exact ⟨labels, name, ⟨fits.short, fits.total, fits.count⟩, rfl⟩

/-- The reader accepts exactly the texts of labels of at most 63 octets, at most 127 of
them, that take at most 255 octets with their lengths. -/
theorem fromAscii_eq_ok_iff {text : Bytes} {name : Name} :
    fromAscii text = .ok name ↔
      ∃ labels, NameText text labels ∧ (∀ label ∈ labels, label.length ≤ 63) ∧
        (body labels).length ≤ maxNameLen ∧ labels.length ≤ maxLabels ∧
        name = ⟨code (labels.map (List.map asciiLower))⟩ := by
  have lengths : ∀ labels : List Bytes, (∀ label ∈ labels, label.length ≤ 63) →
      (body labels).map asciiLower = body (labels.map (List.map asciiLower)) := by
    intro labels short
    induction labels with
    | nil => rfl
    | cons label labels inductionHypothesis =>
        have octet : asciiLower (UInt8.ofNat label.length) = UInt8.ofNat label.length := by
          have small := short label List.mem_cons_self
          rw [asciiLower, if_neg]
          rintro ⟨low, -⟩
          rw [UInt8.le_iff_toNat_le, UInt8.toNat_ofNat'] at low
          simp only [UInt8.reduceToNat] at low
          omega
        rw [body_cons, List.map_append, inductionHypothesis fun other member =>
          short other (List.mem_cons_of_mem _ member), List.map_cons, body_cons]
        simp [item, octet]
  constructor
  · intro accepted
    obtain ⟨state, looped, accepted⟩ := bind_eq_ok.mp accepted
    obtain ⟨after, finished, accepted⟩ := bind_eq_ok.mp accepted
    cases accepted
    obtain ⟨labels, spelled, fits, rfl⟩ := nameText_of_readRest
      (bind_eq_ok.mpr ⟨state, looped, finished⟩) ⟨by simp, by decide, by decide⟩ .nil
    refine ⟨labels, spelled, fits.short, by simpa using fits.total, by simpa using fits.count, ?_⟩
    rw [AsciiState.adding, List.nil_append, lengths labels fits.short, code]
  · rintro ⟨labels, spelled, short, total, count, rfl⟩
    have fits : Fits ⟨[], [], 0, 0⟩ labels :=
      ⟨short, by simpa using total, by simpa using count⟩
    have read := readRest_of_nameText spelled rfl fits
    obtain ⟨state, looped, finished⟩ := bind_eq_ok.mp read
    rw [fromAscii, looped, ok_bind, finished, ok_bind, AsciiState.adding, List.nil_append,
      lengths labels short, code]

end Name

/-! ## Names that are legal on the wire -/

/-- Where a label ends: at the end of the text, or before a dot. -/
def Ended (rest : Bytes) : Prop := rest = [] ∨ ∃ more, rest = 0x2e :: more

/-- One octet is spelled in one way at the start of a text. -/
theorem OctetText.unique {text other rest more : Bytes} {octet value : UInt8}
    (spelled : OctetText text octet) (spells : OctetText other value)
    (same : text ++ rest = other ++ more) : octet = value ∧ rest = more := by
  cases spelled with
  | plain noEscape noDot =>
      cases spells with
      | plain => exact ⟨(List.cons.inj same).1, (List.cons.inj same).2⟩
      | escaped | decimal => exact absurd (List.cons.inj same).1 noEscape
  | escaped noDigit =>
      cases spells with
      | plain noEscape => exact absurd (List.cons.inj same).1.symm noEscape
      | escaped =>
          obtain ⟨one, rest⟩ := List.cons.inj (List.cons.inj same).2
          exact ⟨one, rest⟩
      | decimal digit =>
          obtain ⟨rfl, -⟩ := List.cons.inj (List.cons.inj same).2
          cases noDigit.symm.trans digit
  | decimal digit two three =>
      cases spells with
      | plain noEscape => exact absurd (List.cons.inj same).1.symm noEscape
      | escaped noDigit =>
          obtain ⟨rfl, -⟩ := List.cons.inj (List.cons.inj same).2
          cases noDigit.symm.trans digit
      | decimal =>
          simp only [List.cons_append, List.nil_append, List.cons.injEq, true_and] at same
          obtain ⟨rfl, rfl, rfl, rfl⟩ := same
          exact ⟨rfl, rfl⟩

/-- No spelling of an octet starts with a dot. -/
theorem OctetText.not_ended {text rest : Bytes} {octet : UInt8} (spelled : OctetText text octet) :
    ¬ Ended (text ++ rest) := by
  cases spelled with
  | plain _ noDot =>
      rintro (none | ⟨more, dot⟩)
      · cases none
      · exact noDot (List.cons.inj dot).1
  | escaped | decimal =>
      rintro (none | ⟨more, dot⟩)
      · cases none
      · exact absurd (List.cons.inj dot).1 (by decide)

/-- A label is spelled in one way at the start of a text. -/
theorem LabelText.unique {text label : Bytes} (spelled : LabelText text label) :
    ∀ {other octets rest more : Bytes}, LabelText other octets → text ++ rest = other ++ more →
      Ended rest → Ended more → label = octets ∧ rest = more := by
  induction spelled with
  | nil =>
      intro other octets rest more spells same ended _
      cases spells with
      | nil => exact ⟨rfl, same⟩
      | cons first later =>
          rw [List.nil_append, List.append_assoc] at same
          exact absurd (same ▸ ended) first.not_ended
  | @cons text tail octet octets first later inductionHypothesis =>
      intro other others rest more spells same ended stops
      cases spells with
      | nil =>
          rw [List.nil_append, List.append_assoc] at same
          exact absurd (same ▸ stops) first.not_ended
      | cons head after =>
          rw [List.append_assoc, List.append_assoc] at same
          obtain ⟨rfl, rest⟩ := first.unique head same
          obtain ⟨rfl, rfl⟩ := inductionHypothesis after rest ended stops
          exact ⟨rfl, rfl⟩

theorem LabelText.not_ended {text label rest : Bytes} (spelled : LabelText text label)
    (some : label ≠ []) : ¬ Ended (text ++ rest) := by
  cases spelled with
  | nil => exact absurd rfl some
  | cons first later =>
      rw [List.append_assoc]
      exact first.not_ended

/-- A text is that of the root, or its first label can be told from the rest. -/
theorem NameText.split {text : Bytes} {labels : List Bytes} (spelled : NameText text labels) :
    Ended text ∧ labels = [] ∨
      ∃ first label rest later, text = first ++ rest ∧ labels = label :: later ∧
        LabelText first label ∧ label ≠ [] ∧ Ended rest ∧
        (rest = [] ∧ later = [] ∨ ∃ more, rest = 0x2e :: more ∧ NameText more later) := by
  cases spelled with
  | root => exact .inl ⟨.inl rfl, rfl⟩
  | dot => exact .inl ⟨.inr ⟨[], rfl⟩, rfl⟩
  | last spelled some =>
      exact .inr ⟨_, _, [], [], (List.append_nil _).symm, rfl, spelled, some, .inl rfl,
        .inl ⟨rfl, rfl⟩⟩
  | next spelled some later =>
      exact .inr ⟨_, _, _, _, rfl, rfl, spelled, some, .inr ⟨_, rfl⟩, .inr ⟨_, rfl, later⟩⟩

/-- A text spells at most one name. -/
theorem NameText.unique {text : Bytes} {labels : List Bytes} (spelled : NameText text labels) :
    ∀ {others : List Bytes}, NameText text others → others = labels := by
  induction spelled with
  | root =>
      intro others spells
      rcases spells.split with ⟨-, rfl⟩ | ⟨first, label, rest, later, whole, -, label, some, -⟩
      · rfl
      · have ended : Ended (first ++ rest) := whole ▸ Or.inl rfl
        exact absurd ended (label.not_ended some)
  | dot =>
      intro others spells
      rcases spells.split with ⟨-, rfl⟩ | ⟨first, label, rest, later, whole, -, label, some, -⟩
      · rfl
      · have ended : Ended (first ++ rest) := whole ▸ Or.inr ⟨[], rfl⟩
        exact absurd ended (label.not_ended some)
  | @last text label spelled some =>
      intro others spells
      rcases spells.split with
        ⟨ended, -⟩ | ⟨first, other, rest, later, whole, rfl, spells, _, ended, tail⟩
      · have whole : Ended (text ++ []) := by rwa [List.append_nil]
        exact absurd whole (spelled.not_ended some)
      · obtain ⟨rfl, rfl⟩ := spelled.unique spells (by rwa [List.append_nil]) (.inl rfl) ended
        rcases tail with ⟨-, rfl⟩ | ⟨_, dot, -⟩
        · rfl
        · cases dot
  | @next text rest label labels spelled some later inductionHypothesis =>
      intro others spells
      rcases spells.split with
        ⟨ended, -⟩ | ⟨first, other, rest, later, whole, rfl, spells, _, ended, tail⟩
      · exact absurd ended (spelled.not_ended some)
      · obtain ⟨rfl, rfl⟩ := spelled.unique spells whole (.inr ⟨_, rfl⟩) ended
        rcases tail with ⟨none, -⟩ | ⟨_, dot, spells⟩
        · cases none
        · cases dot
          rw [inductionHypothesis spells]

/-- The name is one the wire format has: at most 255 octets, labels of 1 to 63 octets, and
its stored form decodes to it. -/
structure WireLegal (name : Name) : Prop where
  short : name.wireLen ≤ maxNameLen
  sized : ∀ label ∈ name.labels, 0 < label.length ∧ label.length ≤ 63
  decodes : Name.fromWire name.bytes 0 = .ok (name, name.wireLen)

theorem NameText.nonempty {text : Bytes} {labels : List Bytes} (spelled : NameText text labels) :
    ∀ label ∈ labels, 0 < label.length := by
  induction spelled with
  | root | dot => exact fun _ member => by cases member
  | last spelled some =>
      intro label member
      obtain rfl := List.mem_singleton.mp member
      exact List.length_pos_of_ne_nil some
  | next spelled some later inductionHypothesis =>
      exact List.forall_mem_cons.mpr ⟨List.length_pos_of_ne_nil some, inductionHypothesis⟩

/-- A text that is accepted gives a legal name exactly when its labels take at most 254
octets with their lengths, so that the root still fits, and there are fewer than 127. -/
theorem wireLegal_fromAscii_iff (text : Bytes) (name : Name)
    (accepted : Name.fromAscii text = .ok name) :
    WireLegal name ↔
      ∃ labels, NameText text labels ∧ (body labels).length < maxNameLen ∧
        labels.length < maxLabels := by
  obtain ⟨labels, spelled, short, total, count, rfl⟩ := Name.fromAscii_eq_ok_iff.mp accepted
  have bounds : ∀ label ∈ labels.map (List.map asciiLower), 0 < label.length ∧ label.length ≤ 63 := by
    intro label member
    obtain ⟨origin, found, rfl⟩ := List.mem_map.mp member
    rw [List.length_map]
    exact ⟨spelled.nonempty origin found, short origin found⟩
  have sized : Sized (labels.map (List.map asciiLower)) := by
    intro label member
    have := bounds label member
    omega
  have lengths : ∀ labels : List Bytes,
      (body (labels.map (List.map asciiLower))).length = (body labels).length := by
    intro labels
    induction labels with
    | nil => rfl
    | cons label labels inductionHypothesis => simp [inductionHypothesis]
  have size : (code (labels.map (List.map asciiLower))).length = (body labels).length + 1 := by
    rw [code, List.length_append, lengths, List.length_singleton]
  constructor
  · rintro ⟨fits, -, decodes⟩
    rw [Name.wireLen, size] at fits
    refine ⟨labels, spelled, fits, ?_⟩
    obtain ⟨read, hops, spells, -, -, few, same⟩ := fromWire_eq_ok_iff.mp decodes
    have labelsRead := code_injective sized spells.sizedItems (Name.mk.inj same)
    rwa [← labelsRead, List.length_map] at few
  · rintro ⟨others, spells, fits, few⟩
    obtain rfl := spelled.unique spells
    let domain : DomainName := {
      labels := others.map (List.map asciiLower)
      sized := bounds
      folded := by
        intro label member
        obtain ⟨origin, -, rfl⟩ := List.mem_map.mp member
        simp [asciiLower_idem]
      short := by rw [size]; exact fits
      few := by rw [List.length_map]; exact few }
    refine ⟨domain.short, ?_, ?_⟩
    · rw [show Name.labels ⟨code (others.map (List.map asciiLower))⟩ = domain.labels from
        domain.labels_toName]
      exact bounds
    · have located : Located domain.toName.bytes 0 domain.toName.bytes :=
        ⟨Nat.zero_le _, List.prefix_rfl⟩
      have decoded := domain.fromWire_located located
      rwa [Nat.zero_add] at decoded

/-- `a.b` is legal. -/
theorem wireLegal_short_name : WireLegal ⟨[1, 0x61, 1, 0x62, 0]⟩ := by
  have accepted : Name.fromAscii [0x61, 0x2e, 0x62] = .ok ⟨[1, 0x61, 1, 0x62, 0]⟩ := by
    decide
  refine (wireLegal_fromAscii_iff [0x61, 0x2e, 0x62] _ accepted).mpr
    ⟨[[0x61], [0x62]], ?_, by decide, by decide⟩
  have letter : ∀ octet, octet ≠ 0x5c → octet ≠ 0x2e → LabelText [octet] [octet] :=
    fun octet noEscape noDot => .cons (.plain noEscape noDot) .nil
  exact .next (letter 0x61 (by decide) (by decide)) (by decide)
    (.last (letter 0x62 (by decide) (by decide)) (by decide))

/-- The text of four labels of 63 octets less one octet, and of 127 labels of one octet. -/
def longText : Bytes :=
  List.replicate 63 0x61 ++ 0x2e :: List.replicate 63 0x61 ++ 0x2e :: List.replicate 63 0x61 ++
    0x2e :: List.replicate 62 0x61

def manyText : Bytes := (List.replicate 127 [0x61, 0x2e]).flatten

/-- A name of 256 octets is accepted, and one of 127 labels, which the decoder refuses. -/
theorem long_names_accepted :
    (∃ name, Name.fromAscii longText = .ok name ∧ name.wireLen = 256 ∧ ¬ WireLegal name) ∧
      ∃ name, Name.fromAscii manyText = .ok name ∧ name.wireLen = 255 ∧ ¬ WireLegal name := by
  constructor
  · refine ⟨⟨code [List.replicate 63 0x61, List.replicate 63 0x61, List.replicate 63 0x61,
      List.replicate 62 0x61]⟩, by decide +kernel, by decide +kernel, fun legal => ?_⟩
    exact absurd legal.short (by decide +kernel)
  · refine ⟨⟨code (List.replicate 127 [0x61])⟩, by decide +kernel, by decide +kernel,
      fun legal => ?_⟩
    have refused : (Name.fromWire (code (List.replicate 127 [0x61])) 0).toOption = none := by
      decide +kernel
    rw [legal.decodes] at refused
    cases refused

/-! ## Texts that are written -/

namespace Name

theorem digit_facts : ∀ value < 10, isAsciiDigit (0x30 + UInt8.ofNat value) = true ∧
    digitValue (0x30 + UInt8.ofNat value) = value := by
  decide

/-- Three digits spell their octet. -/
theorem octetText_threeDigits (octet : UInt8) : OctetText (0x5c :: threeDigits octet) octet := by
  have bound := octet.toNat_lt
  have one := digit_facts (octet.toNat / 100) (by omega)
  have two := digit_facts (octet.toNat / 10 % 10) (by omega)
  have three := digit_facts (octet.toNat % 10) (by omega)
  have value : digitValue (0x30 + UInt8.ofNat (octet.toNat / 100)) * 100 +
      digitValue (0x30 + UInt8.ofNat (octet.toNat / 10 % 10)) * 10 +
      digitValue (0x30 + UInt8.ofNat (octet.toNat % 10)) = octet.toNat := by
    rw [one.2, two.2, three.2]
    omega
  have spelled := OctetText.decimal one.1 two.1 three.1 (by omega)
  rwa [value, UInt8.ofNat_toNat] at spelled

/-- The octet that is read where one was written: the escape of the quotation mark has
its digits in octal, which are those of the asterisk in decimal. -/
def readBack (octet : UInt8) : UInt8 := if octet = 0x22 then 0x2a else octet

/-- What is written of an octet spells the octet that is read back. -/
theorem octetText_escapeOctet (octet : UInt8) : OctetText (escapeOctet octet) (readBack octet) := by
  by_cases quote : octet = 0x22
  · subst quote
    exact octetText_threeDigits 0x2a
  · rw [readBack, if_neg quote]
    unfold escapeOctet
    rw [if_neg quote]
    split_ifs with dot backslash space commercial left right semicolon plain
    · subst dot
      exact .escaped (by decide)
    · subst backslash
      exact .escaped (by decide)
    · subst space
      exact octetText_threeDigits 0x20
    · subst commercial
      exact octetText_threeDigits 0x40
    · subst left
      exact octetText_threeDigits 0x28
    · subst right
      exact octetText_threeDigits 0x29
    · subst semicolon
      exact octetText_threeDigits 0x3b
    · exact .plain backslash dot
    · exact octetText_threeDigits octet

theorem labelText_escape (label : Bytes) :
    LabelText (label.flatMap escapeOctet) (label.map readBack) := by
  induction label with
  | nil => exact .nil
  | cons octet label inductionHypothesis =>
      exact .cons (octetText_escapeOctet octet) inductionHypothesis

/-- Behind a text that is not empty, every label has a dot before it. -/
theorem toAsciiLoop_of_nonempty {labels : List Bytes} {text : Bytes} (some : text ≠ []) :
    toAsciiLoop labels text =
      text ++ labels.flatMap fun label => 0x2e :: label.flatMap escapeOctet := by
  induction labels generalizing text with
  | nil => simp [toAsciiLoop]
  | cons label labels inductionHypothesis =>
      rw [toAsciiLoop, if_neg (by simpa using some), inductionHypothesis (by simp)]
      simp

theorem escape_ne_nil {label : Bytes} (some : label ≠ []) : label.flatMap escapeOctet ≠ [] := by
  intro none
  have ended : Ended (label.flatMap escapeOctet ++ []) := .inl (by rw [none, List.append_nil])
  exact (labelText_escape label).not_ended (by simpa using some) ended

/-- The labels with a dot before each but the first spell the name. -/
theorem nameText_escape {label : Bytes} {labels : List Bytes}
    (some : ∀ other ∈ label :: labels, other ≠ []) :
    NameText (label.flatMap escapeOctet ++
        labels.flatMap fun label => 0x2e :: label.flatMap escapeOctet)
      ((label :: labels).map (List.map readBack)) := by
  have first : label.map readBack ≠ [] := by simpa using some label List.mem_cons_self
  induction labels generalizing label with
  | nil =>
      rw [List.flatMap_nil, List.append_nil]
      exact .last (labelText_escape label) first
  | cons next labels inductionHypothesis =>
      have later := inductionHypothesis
        (fun other member => some other (List.mem_cons_of_mem _ member))
        (by simpa using some next (by simp))
      rw [List.flatMap_cons, List.cons_append]
      exact .next (labelText_escape label) first later

/-- What is written of a name spells its labels, as they are read back. -/
theorem nameText_toAscii {name : Name} (some : ∀ label ∈ name.labels, label ≠ []) :
    NameText name.toAscii (name.labels.map (List.map readBack)) := by
  unfold toAscii
  cases found : name.labels with
  | nil => exact .dot
  | cons label labels =>
      rw [found] at some
      have filled := escape_ne_nil (some label List.mem_cons_self)
      have written : toAsciiLoop (label :: labels) [] = label.flatMap escapeOctet ++
          labels.flatMap fun label => 0x2e :: label.flatMap escapeOctet :=
        toAsciiLoop_of_nonempty filled
      rw [written, if_neg (by simp [filled])]
      exact nameText_escape some

theorem readBack_folded {octet : UInt8} (folded : asciiLower octet = octet) :
    asciiLower (readBack octet) = readBack octet := by
  unfold readBack
  split_ifs
  · decide
  · exact folded

end Name

/-- The text of a name is read as the name with its octets read back. -/
theorem DomainName.fromAscii_toAscii_readBack (domain : DomainName) :
    Name.fromAscii domain.toName.toAscii =
      .ok ⟨code (domain.labels.map (List.map Name.readBack))⟩ := by
  have labels := domain.labels_toName
  have spelled := @Name.nameText_toAscii domain.toName (by
    rw [labels]
    exact fun label member => List.ne_nil_of_length_pos (domain.sized label member).1)
  rw [labels] at spelled
  have short := domain.short
  have few := domain.few
  rw [code, List.length_append, List.length_singleton] at short
  refine Name.fromAscii_eq_ok_iff.mpr ⟨_, spelled, ?_, ?_, ?_, ?_⟩
  · intro label member
    obtain ⟨origin, found, rfl⟩ := List.mem_map.mp member
    rw [List.length_map]
    exact (domain.sized origin found).2
  · rw [length_body_map]
    omega
  · rw [List.length_map]
    omega
  · rw [List.map_map]
    refine congrArg (fun labels => Name.mk (code labels)) (List.map_congr_left fun label found => ?_)
    have folded := domain.folded label found
    rw [Function.comp_apply, List.map_map]
    refine List.map_congr_left fun octet member => ?_
    have same : asciiLower octet = id octet :=
      List.map_inj_left.mp (folded.trans (List.map_id label).symm) octet member
    exact (Name.readBack_folded same).symm

/-- What is written of a decoded name is read as the name exactly when no label holds a
quotation mark. -/
theorem fromAscii_toAscii_iff (buf : Bytes) (pos stop : Nat) (name : Name)
    (decoded : Name.fromWire buf pos = .ok (name, stop)) :
    Name.fromAscii name.toAscii = .ok name ↔ ∀ label ∈ name.labels, 0x22 ∉ label := by
  obtain ⟨domain, rfl⟩ := fromWire_domainName decoded
  rw [domain.fromAscii_toAscii_readBack, domain.labels_toName]
  have sized : Sized (domain.labels.map (List.map Name.readBack)) := by
    intro label member
    obtain ⟨origin, found, rfl⟩ := List.mem_map.mp member
    rw [List.length_map]
    exact domain.sizedItems origin found
  constructor
  · intro same label member quoted
    have labels : domain.labels.map (List.map Name.readBack) = domain.labels.map id := by
      rw [List.map_id]
      exact code_injective sized domain.sizedItems (Name.mk.inj (Except.ok.inj same))
    have octets := List.map_inj_left.mp labels label member
    have octet := List.map_inj_left.mp (octets.trans (List.map_id label).symm) 0x22 quoted
    exact absurd octet (by decide)
  · intro plain
    refine congrArg (fun labels => Except.ok (Name.mk (code labels))) ?_
    refine (List.map_congr_left fun label member => ?_).trans (List.map_id _)
    refine (List.map_congr_left fun octet found => ?_).trans (List.map_id _)
    have noQuote : octet ≠ 0x22 := fun quote => plain label member (quote ▸ found)
    exact if_neg noQuote

/-- A label of a dot, a backslash, a digit and an octet that is no character. -/
theorem fromAscii_toAscii_odd_label :
    Name.toAscii ⟨[4, 0x2e, 0x5c, 0x31, 0xff, 0]⟩ =
      [0x5c, 0x2e, 0x5c, 0x5c, 0x31, 0x5c, 0x32, 0x35, 0x35] ∧
    Name.fromAscii (Name.toAscii ⟨[4, 0x2e, 0x5c, 0x31, 0xff, 0]⟩) =
      .ok ⟨[4, 0x2e, 0x5c, 0x31, 0xff, 0]⟩ :=
  ⟨by decide, (fromAscii_toAscii_iff [4, 0x2e, 0x5c, 0x31, 0xff, 0] 0 6 _
    (by decide)).mpr (by decide)⟩

/-- A label of a quotation mark is read back as an asterisk. -/
theorem quotation_mark_read_as_asterisk :
    Name.fromWire [1, 0x22, 0] 0 = .ok (⟨[1, 0x22, 0]⟩, 3) ∧
    Name.toAscii ⟨[1, 0x22, 0]⟩ = [0x5c, 0x30, 0x34, 0x32] ∧
    Name.fromAscii (Name.toAscii ⟨[1, 0x22, 0]⟩) = .ok ⟨[1, 0x2a, 0]⟩ ∧
    Name.fromAscii (Name.toAscii ⟨[1, 0x22, 0]⟩) ≠ .ok ⟨[1, 0x22, 0]⟩ :=
  ⟨by decide, by decide, by decide, by decide⟩

end RecurseX
