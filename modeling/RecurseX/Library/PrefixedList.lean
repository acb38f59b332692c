import RecurseX.Library.Located

/-!
# Length-prefixed lists

A list of octet strings is written as `[length][octets]…` and closed by a zero
length. Length octets and content octets share one range, so one code word can
be a suffix of another without its items being a suffix of the other's:
`code_suffix_iff` says exactly when, and `straddle_not_suffix` that the two
cases exclude each other.
-/

namespace RecurseX.Library.PrefixedList

/-- One item behind its length octet. -/
def item (octets : Bytes) : Bytes := UInt8.ofNat octets.length :: octets

/-- The items in order, without the terminator. -/
def body (items : List Bytes) : Bytes := items.flatMap item

/-- The items in order, closed by the zero length. -/
def code (items : List Bytes) : Bytes := body items ++ [0]

/-- Every item is non-empty and its length fits one octet. -/
def Sized (items : List Bytes) : Prop :=
  ∀ octets ∈ items, 0 < octets.length ∧ octets.length < 256

@[simp] theorem length_item (octets : Bytes) : (item octets).length = octets.length + 1 := by
  simp [item]

@[simp] theorem body_nil : body [] = [] := rfl

@[simp] theorem body_cons (octets : Bytes) (items : List Bytes) :
    body (octets :: items) = item octets ++ body items := by
  simp [body]

@[simp] theorem body_append (left right : List Bytes) :
    body (left ++ right) = body left ++ body right := by
  simp [body]

@[simp] theorem code_nil : code [] = [0] := rfl

theorem code_cons (octets : Bytes) (items : List Bytes) :
    code (octets :: items) = item octets ++ code items := by
  simp [code]

theorem code_append (left right : List Bytes) :
    code (left ++ right) = body left ++ code right := by
  simp [code]

/-- Changing octets one by one leaves the length. -/
theorem length_body_map (change : UInt8 → UInt8) (items : List Bytes) :
    (body (items.map (List.map change))).length = (body items).length := by
  induction items with
  | nil => rfl
  | cons octets items inductionHypothesis => simp [inductionHypothesis]

theorem length_code_cons (octets : Bytes) (items : List Bytes) :
    (code (octets :: items)).length = octets.length + 1 + (code items).length := by
  simp [code_cons]

theorem length_code_pos (items : List Bytes) : 0 < (code items).length := by
  simp [code]

theorem Sized.tail {octets : Bytes} {items : List Bytes} (sized : Sized (octets :: items)) :
    Sized items :=
  fun other member => sized other (List.mem_cons_of_mem _ member)

theorem Sized.of_suffix {left right : List Bytes} (sized : Sized right) (suffix : left <:+ right) :
    Sized left :=
  fun octets member => sized octets (suffix.mem member)

/-- A suffix of the items encodes to a suffix of the code word. -/
theorem code_suffix_of_suffix {left right : List Bytes} (suffix : left <:+ right) :
    code left <:+ code right := by
  obtain ⟨before, rfl⟩ := suffix
  exact ⟨body before, (code_append before left).symm⟩

/-- A longer suffix of one list has the longer code word. -/
theorem length_code_le_of_suffix {left right : List Bytes} (suffix : left <:+ right) :
    (code left).length ≤ (code right).length :=
  (code_suffix_of_suffix suffix).length_le

/-- Sized lists are determined by their code word. -/
theorem code_injective {left right : List Bytes} (leftSized : Sized left)
    (rightSized : Sized right) (same : code left = code right) : left = right := by
  induction left generalizing right with
  | nil =>
      cases right with
      | nil => rfl
      | cons octets items =>
          have bounds := rightSized octets List.mem_cons_self
          rw [code_nil, code_cons, item, List.cons_append, List.cons.injEq] at same
          have lengths := congrArg UInt8.toNat same.1
          simp only [UInt8.toNat_ofNat', UInt8.toNat_zero] at lengths
          omega
  | cons octets items inductionHypothesis =>
      have bounds := leftSized octets List.mem_cons_self
      cases right with
      | nil =>
          rw [code_nil, code_cons, item, List.cons_append, List.cons.injEq] at same
          have lengths := congrArg UInt8.toNat same.1
          simp only [UInt8.toNat_ofNat', UInt8.toNat_zero] at lengths
          omega
      | cons others rest =>
          have otherBounds := rightSized others List.mem_cons_self
          rw [code_cons, code_cons, item, item, List.cons_append, List.cons_append,
            List.cons.injEq] at same
          have lengths := congrArg UInt8.toNat same.1
          simp only [UInt8.toNat_ofNat'] at lengths
          obtain ⟨heads, tails⟩ := List.append_inj same.2 (by omega)
          rw [heads, inductionHypothesis leftSized.tail rightSized.tail tails]

/-- `word` starts strictly inside an item of `items`: it is a non-empty end of
that item followed by the code word of everything behind it. -/
def Straddles (items : List Bytes) (word : Bytes) : Prop :=
  ∃ before octets after tail, items = before ++ octets :: after ∧ tail ≠ [] ∧
    tail <:+ octets ∧ word = tail ++ code after

theorem Straddles.cons {items : List Bytes} {word : Bytes} (octets : Bytes)
    (straddles : Straddles items word) : Straddles (octets :: items) word := by
  obtain ⟨before, inner, after, tail, rfl, nonempty, suffix, whole⟩ := straddles
  exact ⟨octets :: before, inner, after, tail, rfl, nonempty, suffix, whole⟩

private theorem suffix_append_cases {left middle right : Bytes}
    (suffix : left <:+ middle ++ right) :
    left <:+ right ∨ ∃ tail, tail ≠ [] ∧ tail <:+ middle ∧ left = tail ++ right := by
  obtain ⟨start, whole⟩ := suffix
  rcases List.append_eq_append_iff.mp whole with ⟨tail, middleEq, leftEq⟩ | ⟨inner, _, rightEq⟩
  · cases tail with
    | nil => exact Or.inl (by simp [leftEq])
    | cons first rest => exact Or.inr ⟨first :: rest, by simp, ⟨start, middleEq.symm⟩, leftEq⟩
  · exact Or.inl ⟨inner, rightEq.symm⟩

/-- A code word is a suffix of another exactly when its items are a suffix of
the other's items, or when it starts strictly inside one of them. -/
theorem code_suffix_iff {items others : List Bytes} (sized : Sized items)
    (otherSized : Sized others) :
    code others <:+ code items ↔ others <:+ items ∨ Straddles items (code others) := by
  constructor
  · intro suffix
    induction items with
    | nil =>
        left
        have short := suffix.length_le
        have same := suffix.eq_of_length (by
          have positive := length_code_pos others
          simp only [code_nil, List.length_singleton] at short ⊢
          omega)
        exact code_injective otherSized sized same ▸ List.suffix_rfl
    | cons octets items inductionHypothesis =>
        rw [code_cons, item, List.cons_append, List.suffix_cons_iff] at suffix
        rcases suffix with whole | suffix
        · left
          have same : code others = code (octets :: items) := by
            rw [whole, code_cons, item, List.cons_append]
          exact code_injective otherSized sized same ▸ List.suffix_rfl
        · rcases suffix_append_cases suffix with inner | ⟨tail, nonempty, inside, whole⟩
          · rcases inductionHypothesis sized.tail inner with aligned | straddles
            · exact Or.inl (aligned.trans (List.suffix_cons octets items))
            · exact Or.inr (straddles.cons octets)
          · exact Or.inr ⟨[], octets, items, tail, rfl, nonempty, inside, whole⟩
  · rintro (aligned | ⟨before, octets, after, tail, rfl, _, ⟨start, rfl⟩, whole⟩)
    · exact code_suffix_of_suffix aligned
    · refine ⟨body before ++ UInt8.ofNat (start ++ tail).length :: start, ?_⟩
      rw [whole, code_append, code_cons, item]
      simp

/-- The two ways for a code word to be a suffix exclude each other. -/
theorem straddle_not_suffix {items others : List Bytes}
    (straddles : Straddles items (code others)) : ¬ others <:+ items := by
  obtain ⟨before, octets, after, tail, rfl, nonempty, inside, whole⟩ := straddles
  intro suffix
  have lengths := congrArg List.length whole
  rw [List.length_append] at lengths
  have tailLength := inside.length_le
  have tailPositive := List.length_pos_of_ne_nil nonempty
  -- The suffix either ends before `octets` or contains it whole; the code
  -- word of `others` is too long for the one and too short for the other.
  rcases List.suffix_or_suffix_of_suffix suffix (List.suffix_append before (octets :: after)) with
    short | long
  · rcases List.suffix_cons_iff.mp short with same | shorter
    · rw [same, length_code_cons] at lengths
      omega
    · have bound := length_code_le_of_suffix shorter
      omega
  · have bound := length_code_le_of_suffix long
    rw [length_code_cons] at bound
    omega

end RecurseX.Library.PrefixedList
