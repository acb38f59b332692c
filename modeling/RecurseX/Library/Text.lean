import Mathlib.Data.List.Basic

/-!
# Cutting texts

Texts are lists of characters. A text is cut at the first or at the last occurrence of
a separator, and white space is cut off at both ends.
-/

namespace RecurseX.Library

/-- The characters with the Unicode property of white space. -/
def isWhitespace (c : Char) : Bool :=
  (9 ≤ c.toNat && c.toNat ≤ 13) || c.toNat == 32 || c.toNat == 0x85 || c.toNat == 0xa0 ||
    c.toNat == 0x1680 || (0x2000 ≤ c.toNat && c.toNat ≤ 0x200a) || c.toNat == 0x2028 ||
    c.toNat == 0x2029 || c.toNat == 0x202f || c.toNat == 0x205f || c.toNat == 0x3000

/-- A text without the white space around it. -/
def trim (text : List Char) : List Char :=
  ((text.dropWhile isWhitespace).reverse.dropWhile isWhitespace).reverse

/-- What stands behind a first character. -/
def stripPrefix (first : Char) : List Char → Option (List Char)
  | [] => none
  | c :: rest => if c = first then some rest else none

/-- What stands before and behind the first separator. -/
def splitOnce (separator : Char) : List Char → Option (List Char × List Char)
  | [] => none
  | c :: rest =>
      if c = separator then some ([], rest)
      else (splitOnce separator rest).map fun parts => (c :: parts.1, parts.2)

/-- What stands before and behind the last separator. -/
def rsplitOnce (separator : Char) : List Char → Option (List Char × List Char)
  | [] => none
  | c :: rest =>
      match rsplitOnce separator rest with
      | some parts => some (c :: parts.1, parts.2)
      | none => if c = separator then some ([], rest) else none

/-- What stands before and behind the first occurrence of a text. -/
def splitOnceText (separator : List Char) : List Char → Option (List Char × List Char)
  | [] => if separator = [] then some ([], []) else none
  | c :: rest =>
      if separator.isPrefixOf (c :: rest) then some ([], (c :: rest).drop separator.length)
      else (splitOnceText separator rest).map fun parts => (c :: parts.1, parts.2)

variable {separator first : Char} {text front back : List Char}

/-- Visible ASCII characters are no white space. -/
theorem isWhitespace_eq_false {c : Char} (visible : 33 ≤ c.toNat ∧ c.toNat ≤ 126) :
    isWhitespace c = false := by
  simp only [isWhitespace, Bool.or_eq_false_iff, Bool.and_eq_false_iff, decide_eq_false_iff_not,
    beq_eq_false_iff_ne]
  omega

/-- Without white space there is nothing to cut off. -/
theorem trim_eq (solid : ∀ c ∈ text, isWhitespace c = false) : trim text = text := by
  have kept {text : List Char} (solid : ∀ c ∈ text, isWhitespace c = false) :
      text.dropWhile isWhitespace = text := by
    cases text with
    | nil => rfl
    | cons c rest => rw [List.dropWhile_cons, solid c List.mem_cons_self]; rfl
  rw [trim, kept solid, kept fun c inside => solid c (List.mem_reverse.mp inside),
    List.reverse_reverse]

theorem stripPrefix_eq_none (other : text.head? ≠ some first) : stripPrefix first text = none := by
  cases text with
  | nil => rfl
  | cons c rest => exact if_neg fun same => other (congrArg some same)

theorem splitOnce_append (absent : separator ∉ front) :
    splitOnce separator (front ++ separator :: back) = some (front, back) := by
  induction front with
  | nil => exact if_pos rfl
  | cons c front inductionHypothesis =>
      obtain ⟨different, absent⟩ := List.ne_and_not_mem_of_not_mem_cons absent
      rw [List.cons_append, splitOnce, if_neg different.symm, inductionHypothesis absent]
      rfl

theorem rsplitOnce_cons (c : Char) (rest : List Char) : rsplitOnce separator (c :: rest) =
    match rsplitOnce separator rest with
    | some parts => some (c :: parts.1, parts.2)
    | none => if c = separator then some ([], rest) else none := rfl

theorem rsplitOnce_eq_none (absent : separator ∉ text) : rsplitOnce separator text = none := by
  induction text with
  | nil => rfl
  | cons c rest inductionHypothesis =>
      obtain ⟨different, absent⟩ := List.ne_and_not_mem_of_not_mem_cons absent
      rw [rsplitOnce_cons, inductionHypothesis absent]
      exact if_neg different.symm

theorem rsplitOnce_append (absent : separator ∉ back) :
    rsplitOnce separator (front ++ separator :: back) = some (front, back) := by
  induction front with
  | nil => rw [List.nil_append, rsplitOnce_cons, rsplitOnce_eq_none absent]; exact if_pos rfl
  | cons c front inductionHypothesis =>
      rw [List.cons_append, rsplitOnce_cons, inductionHypothesis]

/-- The parts of a text are its parts. -/
theorem eq_of_rsplitOnce (cut : rsplitOnce separator text = some (front, back)) :
    text = front ++ separator :: back := by
  induction text generalizing front with
  | nil => cases cut
  | cons c rest inductionHypothesis =>
      rw [rsplitOnce_cons] at cut
      split at cut
      · rename_i parts later
        obtain ⟨rfl, rfl⟩ := Prod.mk.inj (Option.some.inj cut)
        rw [List.cons_append, ← inductionHypothesis later]
      · split_ifs at cut with same
        obtain ⟨rfl, rfl⟩ := Prod.mk.inj (Option.some.inj cut)
        rw [same]
        rfl

theorem splitOnce_eq_none (absent : separator ∉ text) : splitOnce separator text = none := by
  induction text with
  | nil => rfl
  | cons c rest inductionHypothesis =>
      obtain ⟨different, absent⟩ := List.ne_and_not_mem_of_not_mem_cons absent
      rw [splitOnce, if_neg different.symm, inductionHypothesis absent]
      rfl

/-- The parts of a text are its parts, and the separator is the first one. -/
theorem eq_of_splitOnce (cut : splitOnce separator text = some (front, back)) :
    text = front ++ separator :: back ∧ separator ∉ front := by
  induction text generalizing front with
  | nil => cases cut
  | cons c rest inductionHypothesis =>
      rw [splitOnce] at cut
      split_ifs at cut with same
      · obtain ⟨rfl, rfl⟩ := Prod.mk.inj (Option.some.inj cut)
        exact ⟨by rw [same]; rfl, List.not_mem_nil⟩
      · obtain ⟨⟨earlier, later⟩, parts, joined⟩ := Option.map_eq_some_iff.mp cut
        obtain ⟨rfl, rfl⟩ := Prod.mk.inj joined
        obtain ⟨rfl, absent⟩ := inductionHypothesis parts
        refine ⟨rfl, ?_⟩
        rw [List.mem_cons, not_or]
        exact ⟨fun equal => same equal.symm, absent⟩

theorem not_mem_of_splitOnce (whole : splitOnce separator text = none) : separator ∉ text := by
  intro member
  obtain ⟨front, back, rfl, absent⟩ := List.eq_append_cons_of_mem member
  rw [splitOnce_append absent] at whole
  cases whole

theorem splitOnceText_append {more : List Char} (absent : first ∉ front) :
    splitOnceText (first :: more) (front ++ (first :: more ++ back)) = some (front, back) := by
  induction front with
  | nil =>
      have starts : (first :: more).isPrefixOf (first :: more ++ back) = true := by simp
      rw [List.nil_append, List.cons_append, splitOnceText, ← List.cons_append, if_pos starts,
        List.drop_left]
  | cons c front inductionHypothesis =>
      obtain ⟨different, absent⟩ := List.ne_and_not_mem_of_not_mem_cons absent
      have other : ¬ (first :: more).isPrefixOf (c :: (front ++ (first :: more ++ back))) = true := by
        rw [List.isPrefixOf_iff_prefix, List.cons_prefix_cons]
        exact fun starts => different starts.1
      rw [List.cons_append, splitOnceText, if_neg other, inductionHypothesis absent]
      rfl

theorem eq_of_splitOnceText {separator : List Char}
    (cut : splitOnceText separator text = some (front, back)) : text = front ++ separator ++ back := by
  induction text generalizing front with
  | nil =>
      rw [splitOnceText] at cut
      split_ifs at cut with empty
      obtain ⟨rfl, rfl⟩ := Prod.mk.inj (Option.some.inj cut)
      rw [empty]
      rfl
  | cons c rest inductionHypothesis =>
      rw [splitOnceText] at cut
      split_ifs at cut with starts
      · obtain ⟨rfl, rfl⟩ := Prod.mk.inj (Option.some.inj cut)
        obtain ⟨later, same⟩ := List.isPrefixOf_iff_prefix.mp starts
        rw [← same, List.nil_append, List.drop_left]
      · obtain ⟨⟨earlier, later⟩, parts, joined⟩ := Option.map_eq_some_iff.mp cut
        obtain ⟨rfl, rfl⟩ := Prod.mk.inj joined
        rw [inductionHypothesis parts]
        rfl

/-! ## White space at the ends -/

theorem dropWhile_isWhitespace (solid : ∀ c ∈ text.head?, isWhitespace c = false) :
    text.dropWhile isWhitespace = text := by
  cases text with
  | nil => rfl
  | cons c rest =>
      rw [List.dropWhile_cons, solid c rfl]
      rfl

/-- A text without white space at its ends is trimmed. -/
theorem trim_of_ends (front : ∀ c ∈ text.head?, isWhitespace c = false)
    (back : ∀ c ∈ text.getLast?, isWhitespace c = false) : trim text = text := by
  unfold trim
  rw [dropWhile_isWhitespace front, dropWhile_isWhitespace, List.reverse_reverse]
  rw [List.head?_reverse]
  exact back

theorem head?_dropWhile_isWhitespace (text : List Char) :
    ∀ c ∈ (text.dropWhile isWhitespace).head?, isWhitespace c = false := by
  intro c first
  have stops := List.head?_dropWhile_not isWhitespace text
  rw [show (text.dropWhile isWhitespace).head? = some c from first] at stops
  simpa using stops

/-- Nothing is left at the ends of a trimmed text. -/
theorem ends_trim (text : List Char) : (∀ c ∈ (trim text).head?, isWhitespace c = false) ∧
    ∀ c ∈ (trim text).getLast?, isWhitespace c = false := by
  unfold trim
  constructor
  · intro c first
    -- What is cut off behind leaves the front alone.
    obtain ⟨cut, whole⟩ :=
      List.dropWhile_suffix (l := (text.dropWhile isWhitespace).reverse) isWhitespace
    have front := congrArg List.reverse whole
    rw [List.reverse_append, List.reverse_reverse] at front
    refine head?_dropWhile_isWhitespace text c ?_
    rw [← front, List.head?_append]
    exact Option.or_eq_some_iff.mpr (.inl first)
  · intro c last
    rw [List.getLast?_reverse] at last
    exact head?_dropWhile_isWhitespace _ c last

theorem mem_of_mem_trim {c : Char} (member : c ∈ trim text) : c ∈ text := by
  unfold trim at member
  rw [List.mem_reverse] at member
  have front := (List.dropWhile_sublist isWhitespace).mem member
  rw [List.mem_reverse] at front
  exact (List.dropWhile_sublist isWhitespace).mem front

theorem trim_trim (text : List Char) : trim (trim text) = trim text :=
  trim_of_ends (ends_trim text).1 (ends_trim text).2

/-! ## Cutting everywhere -/

/-- No part holds the separator. -/
theorem not_mem_of_mem_splitOn {part : List Char} (member : part ∈ text.splitOn separator) :
    separator ∉ part := by
  induction text generalizing part with
  | nil =>
      rw [List.splitOn_nil, List.mem_singleton] at member
      rw [member]
      exact List.not_mem_nil
  | cons c rest inductionHypothesis =>
      rw [List.splitOn_cons_eq_if_modifyHead] at member
      split_ifs at member with same
      · rcases List.mem_cons.mp member with rfl | later
        · exact List.not_mem_nil
        · exact inductionHypothesis later
      · obtain ⟨first, parts, split⟩ := List.exists_cons_of_ne_nil (List.splitOn_ne_nil separator rest)
        rw [split, List.modifyHead_cons] at member
        rcases List.mem_cons.mp member with rfl | later
        · rw [List.mem_cons, not_or]
          refine ⟨fun equal => same (beq_iff_eq.mpr equal.symm), ?_⟩
          exact inductionHypothesis (split ▸ List.mem_cons_self)
        · exact inductionHypothesis (split ▸ List.mem_cons_of_mem first later)

/-- What is in a part is in the text. -/
theorem mem_of_mem_splitOn {part : List Char} {c : Char} (member : part ∈ text.splitOn separator)
    (inside : c ∈ part) : c ∈ text := by
  induction text generalizing part with
  | nil =>
      rw [List.splitOn_nil, List.mem_singleton] at member
      rw [member] at inside
      cases inside
  | cons first rest inductionHypothesis =>
      rw [List.splitOn_cons_eq_if_modifyHead] at member
      split_ifs at member with same
      · rcases List.mem_cons.mp member with rfl | later
        · cases inside
        · exact List.mem_cons_of_mem first (inductionHypothesis later inside)
      · obtain ⟨front, parts, split⟩ := List.exists_cons_of_ne_nil (List.splitOn_ne_nil separator rest)
        rw [split, List.modifyHead_cons] at member
        rcases List.mem_cons.mp member with rfl | later
        · rcases List.mem_cons.mp inside with rfl | behind
          · exact List.mem_cons_self
          · have listed : front ∈ rest.splitOn separator := split ▸ List.mem_cons_self
            exact List.mem_cons_of_mem first (inductionHypothesis listed behind)
        · have listed : part ∈ rest.splitOn separator := split ▸ List.mem_cons_of_mem front later
          exact List.mem_cons_of_mem first (inductionHypothesis listed inside)

end RecurseX.Library
