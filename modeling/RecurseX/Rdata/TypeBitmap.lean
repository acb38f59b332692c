import RecurseX.Library.BitString
import RecurseX.QType

/-!
# NSEC type bitmaps

The window blocks of NSEC and NSEC3 records (RFC 4034 §4.1.2). Writing sorts
the types first, so what a reader gets back is the sorted list without
repetitions; `parseTypeBitmap_written` is that statement for any buffer the
blocks stand in, and `typeBitmap_codec` adds that the blocks are canonical.
-/

namespace RecurseX

open Library Wire

/-- Drop consecutive repetitions. -/
def dedup : List UInt16 → List UInt16
  | [] => []
  | [last] => [last]
  | first :: second :: rest =>
      if first = second then dedup (second :: rest) else first :: dedup (second :: rest)

/-- The types in ascending order, each once. -/
def sortTypes (types : List RrType) : List UInt16 :=
  dedup ((types.map RrType.toU16).insertionSort (· ≤ ·))

/-- A window number, its 32 octets, and how many of them are in use. -/
structure BitmapWindow where
  window : UInt8
  bytes : Bytes
  used : Nat
deriving DecidableEq, Repr

/-- Set bit `bit` (most significant first) of octet `idx`. -/
def setBit (bytes : Bytes) (idx bit : Nat) : Bytes :=
  bytes.set idx (UInt8.ofNat ((bytes.getD idx 0).toNat ||| (0x80 >>> bit)))

/-- Enter one bit into the block of its window, opening the block if needed. -/
def updateWindow (window : UInt8) (idx bit : Nat) : List BitmapWindow → List BitmapWindow
  | [] => [⟨window, setBit (List.replicate 32 0) idx bit, idx + 1⟩]
  | block :: blocks =>
      if block.window = window then
        ⟨block.window, setBit block.bytes idx bit, max block.used (idx + 1)⟩ :: blocks
      else block :: updateWindow window idx bit blocks

/-- Enter one type. -/
def addType (windows : List BitmapWindow) (t : UInt16) : List BitmapWindow :=
  updateWindow (UInt8.ofNat (t.toNat / 256)) (t.toNat % 256 / 8) (t.toNat % 256 % 8) windows

/-- The octets of one block. -/
def BitmapWindow.encoding (block : BitmapWindow) : Bytes :=
  block.window :: UInt8.ofNat block.used :: capped block.bytes block.used

/-- Serialize a type bitmap: the octets appended to the buffer. -/
def typeBitmap (types : List RrType) : Bytes :=
  ((sortTypes types).foldl addType []).flatMap BitmapWindow.encoding

/-- Serialize a type bitmap. -/
def writeTypeBitmap (out : Bytes) (types : List RrType) : Bytes :=
  if types.isEmpty then out else out ++ typeBitmap types

/-- The types one window block lists. -/
def windowTypes (window : UInt8) (bytes : Bytes) : List RrType :=
  (List.range bytes.length).flatMap fun i =>
    (List.range 8).filterMap fun bit =>
      if (bytes.getD i 0).toNat &&& (0x80 >>> bit) ≠ 0 then
        some ⟨UInt16.ofNat (window.toNat * 256 + i * 8 + bit)⟩
      else none

/-- The block loop. A block takes at least three octets, so the octet count is
enough fuel. -/
def parseTypeBitmapLoop (buf : Bytes) (stop : Nat) : (fuel pos : Nat) → Result (List RrType × Nat)
  | 0, _ => .error (.internal "type bitmap walk did not terminate")
  | fuel + 1, pos =>
      if pos < stop then do
        failIf (pos + 2 > stop) (.wire "type bitmap window truncated")
        let window ← (byteAt buf pos).mapError fun _ => .wire "type bitmap window truncated"
        let len ← (byteAt buf (pos + 1)).mapError fun _ => .wire "type bitmap window truncated"
        failIf (len.toNat = 0 ∨ len.toNat > 32 ∨ pos + 2 + len.toNat > stop)
          (.wire "type bitmap window length invalid")
        let bytes ← (sliceAt buf (pos + 2) len.toNat).mapError fun _ =>
          .wire "type bitmap window truncated"
        let (types, pos) ← parseTypeBitmapLoop buf stop fuel (pos + 2 + len.toNat)
        .ok (windowTypes window bytes ++ types, pos)
      else .ok ([], pos)

/-- Parse an NSEC/NSEC3 type bitmap. -/
def parseTypeBitmap (buf : Bytes) (pos stop : Nat) : Result (List RrType × Nat) :=
  parseTypeBitmapLoop buf stop (stop - pos + 1) pos

/-! ## Sorting -/

theorem mem_dedup {t : UInt16} {types : List UInt16} : t ∈ dedup types ↔ t ∈ types := by
  induction types using dedup.induct with
  | case1 => simp [dedup]
  | case2 last => simp [dedup]
  | case3 second rest inductionHypothesis =>
      simp [dedup, inductionHypothesis]
  | case4 first second rest different inductionHypothesis =>
      simp [dedup, different, inductionHypothesis]

theorem dedup_pairwise {types : List UInt16} (sorted : types.Pairwise (· ≤ ·)) :
    (dedup types).Pairwise (· < ·) := by
  induction types using dedup.induct with
  | case1 => simp [dedup]
  | case2 last => simp [dedup]
  | case3 second rest inductionHypothesis =>
      rw [dedup, if_pos rfl]
      exact inductionHypothesis sorted.tail
  | case4 first second rest different inductionHypothesis =>
      rw [dedup, if_neg different, List.pairwise_cons]
      refine ⟨fun t member => ?_, inductionHypothesis sorted.tail⟩
      have below := List.pairwise_cons.mp sorted
      have step := below.1 second List.mem_cons_self
      rcases List.mem_cons.mp (mem_dedup.mp member) with rfl | deeper
      · exact UInt16.lt_of_le_of_ne step different
      · exact UInt16.lt_of_lt_of_le (UInt16.lt_of_le_of_ne step different)
          ((List.pairwise_cons.mp below.2).1 t deeper)

theorem sortTypes_pairwise (types : List RrType) : (sortTypes types).Pairwise (· < ·) :=
  dedup_pairwise (List.pairwise_insertionSort (· ≤ ·) _)

/-! ## Bits of a window -/

private theorem masked_iff_testBit : ∀ octet < 256, ∀ bit < 8,
    (octet &&& (0x80 >>> bit) ≠ 0) ↔ octet.testBit (7 - bit) = true := by
  decide +kernel

private theorem mask_testBit : ∀ bit < 8, ∀ other < 8,
    (0x80 >>> bit).testBit (7 - other) = true ↔ other = bit := by
  decide

@[simp] theorem length_setBit (bytes : Bytes) (idx bit : Nat) :
    (setBit bytes idx bit).length = bytes.length := by
  simp [setBit]

theorem bitSet_setBit {bytes : Bytes} {idx bit j : Nat} (inside : idx < bytes.length)
    (small : bit < 8) :
    bitSet (setBit bytes idx bit) j = true ↔ bitSet bytes j = true ∨ j = idx * 8 + bit := by
  by_cases here : j / 8 = idx
  · subst here
    have octetBound : (bytes.getD (j / 8) 0).toNat ||| (0x80 >>> bit) < 256 := by
      refine Nat.or_lt_two_pow (n := 8) (UInt8.toNat_lt _) ?_
      rw [Nat.shiftRight_eq_div_pow]
      exact Nat.lt_of_le_of_lt (Nat.div_le_self _ _) (by decide)
    rw [bitSet, setBit, List.getD_eq_getElem?_getD, List.getElem?_set_self (by simpa using inside),
      Option.getD_some, UInt8.toNat_ofNat', Nat.mod_eq_of_lt octetBound, Nat.testBit_or,
      Bool.or_eq_true, mask_testBit bit small _ (Nat.mod_lt _ (by decide)), bitSet]
    constructor
    · rintro (old | new)
      · exact Or.inl old
      · exact Or.inr (by omega)
    · rintro (old | new)
      · exact Or.inl old
      · exact Or.inr (by omega)
  · rw [bitSet, setBit, List.getD_eq_getElem?_getD, List.getElem?_set_ne (Ne.symm here),
      ← List.getD_eq_getElem?_getD, ← bitSet]
    constructor
    · exact Or.inl
    · rintro (old | rfl)
      · exact old
      · omega

theorem bitSet_zeros (j : Nat) : bitSet (List.replicate 32 0) j = false := by
  rw [bitSet, List.getD_eq_getElem?_getD, List.getElem?_replicate]
  split <;> simp

/-- The types a block lists are the set bits of its octets, window by window. -/
theorem mem_windowTypes {window : UInt8} {bytes : Bytes} (short : bytes.length ≤ 32)
    {t : RrType} : t ∈ windowTypes window bytes ↔
      t.toU16.toNat / 256 = window.toNat ∧ t.toU16.toNat % 256 / 8 < bytes.length ∧
        bitSet bytes (t.toU16.toNat % 256) = true := by
  have windowBound := window.toNat_lt
  simp only [windowTypes, List.mem_flatMap, List.mem_range, List.mem_filterMap,
    Option.ite_none_right_eq_some, Option.some.injEq]
  constructor
  · rintro ⟨i, inside, bit, small, set, rfl⟩
    have value : (UInt16.ofNat (window.toNat * 256 + i * 8 + bit)).toNat =
        window.toNat * 256 + (i * 8 + bit) := by
      rw [UInt16.toNat_ofNat', Nat.mod_eq_of_lt (by omega), Nat.add_assoc]
    have octetIndex : (i * 8 + bit) / 8 = i := by omega
    have bitIndex : (i * 8 + bit) % 8 = bit := by omega
    have low : (window.toNat * 256 + (i * 8 + bit)) % 256 = i * 8 + bit := by omega
    dsimp only
    rw [value, low, bitSet, octetIndex, bitIndex]
    exact ⟨by omega, inside, (masked_iff_testBit _ (UInt8.toNat_lt _) bit small).mp set⟩
  · rintro ⟨high, inside, set⟩
    refine ⟨t.toU16.toNat % 256 / 8, inside, t.toU16.toNat % 256 % 8, by omega,
      (masked_iff_testBit _ (UInt8.toNat_lt _) _ (by omega)).mpr (by rwa [bitSet] at set), ?_⟩
    have value : window.toNat * 256 + t.toU16.toNat % 256 / 8 * 8 + t.toU16.toNat % 256 % 8 =
        t.toU16.toNat := by omega
    rw [value, UInt16.ofNat_toNat]

/-- A block lists its types in strictly ascending order. -/
theorem windowTypes_pairwise (window : UInt8) {bytes : Bytes} (short : bytes.length ≤ 32) :
    (windowTypes window bytes).Pairwise fun left right => left.toU16 < right.toU16 := by
  have windowBound := window.toNat_lt
  have value : ∀ i bit, i < bytes.length → bit < 8 →
      (UInt16.ofNat (window.toNat * 256 + i * 8 + bit)).toNat = window.toNat * 256 + i * 8 + bit := by
    intro i bit inside small
    rw [UInt16.toNat_ofNat', Nat.mod_eq_of_lt (by omega)]
  rw [windowTypes, List.pairwise_flatMap]
  refine ⟨fun i inside => ?_, List.pairwise_lt_range.imp_of_mem ?_⟩
  · rw [List.pairwise_filterMap]
    refine List.pairwise_lt_range.imp_of_mem ?_
    intro bit later bitMember laterMember before t listed u listedLater
    rw [List.mem_range] at inside bitMember laterMember
    simp only [Option.ite_none_right_eq_some, Option.some.injEq] at listed listedLater
    rw [← listed.2, ← listedLater.2, UInt16.lt_iff_toNat_lt, value i bit inside bitMember,
      value i later inside laterMember]
    omega
  · intro i later inside laterInside before t listed u listedLater
    rw [List.mem_range] at inside laterInside
    simp only [List.mem_filterMap, List.mem_range, Option.ite_none_right_eq_some,
      Option.some.injEq] at listed listedLater
    obtain ⟨bit, small, _, rfl⟩ := listed
    obtain ⟨laterBit, laterSmall, _, rfl⟩ := listedLater
    rw [UInt16.lt_iff_toNat_lt, value i bit inside small, value later laterBit laterInside laterSmall]
    omega

/-! ## The blocks built for a list of types -/

/-- What a block says about the types entered so far. -/
structure BitmapWindow.Holds (entered : List UInt16) (block : BitmapWindow) : Prop where
  width : block.bytes.length = 32
  bounded : block.used ≤ 32
  bits : ∀ t : UInt16, t.toNat / 256 = block.window.toNat →
    (bitSet block.bytes (t.toNat % 256) = true ↔ t ∈ entered)
  covered : ∀ j, bitSet block.bytes j = true → j / 8 < block.used
  last : ∃ t ∈ entered, t.toNat / 256 = block.window.toNat ∧ t.toNat % 256 / 8 + 1 = block.used

/-- What the blocks say together. -/
structure WindowsHold (entered : List UInt16) (windows : List BitmapWindow) : Prop where
  ascending : windows.Pairwise fun left right => left.window < right.window
  blocks : ∀ block ∈ windows, block.Holds entered
  complete : ∀ t ∈ entered, ∃ block ∈ windows, block.window.toNat = t.toNat / 256

section UpdateWindow

variable {window : UInt8} {idx bit : Nat} {windows : List BitmapWindow}

/-- An update leaves other windows alone, changes the block of its own window,
or opens it. -/
theorem mem_updateWindow {block : BitmapWindow}
    (ascending : windows.Pairwise fun left right => left.window < right.window)
    (member : block ∈ updateWindow window idx bit windows) :
    (block ∈ windows ∧ block.window ≠ window) ∨
    (∃ old ∈ windows, old.window = window ∧
      block = ⟨window, setBit old.bytes idx bit, max old.used (idx + 1)⟩) ∨
    ((∀ old ∈ windows, old.window ≠ window) ∧
      block = ⟨window, setBit (List.replicate 32 0) idx bit, idx + 1⟩) := by
  induction windows with
  | nil => exact Or.inr (Or.inr ⟨by simp, by simpa [updateWindow] using member⟩)
  | cons head windows inductionHypothesis =>
      have order := List.pairwise_cons.mp ascending
      by_cases own : head.window = window
      · rw [updateWindow, if_pos own, List.mem_cons] at member
        rcases member with rfl | member
        · exact Or.inr (Or.inl ⟨head, List.mem_cons_self, own, by rw [own]⟩)
        · refine Or.inl ⟨List.mem_cons_of_mem _ member, ?_⟩
          rintro rfl
          exact UInt8.lt_irrefl _ (own ▸ order.1 block member)
      · rw [updateWindow, if_neg own, List.mem_cons] at member
        rcases member with rfl | member
        · exact Or.inl ⟨List.mem_cons_self, own⟩
        · rcases inductionHypothesis order.2 member with
            ⟨kept, other⟩ | ⟨old, oldMember, same, changed⟩ | ⟨absent, opened⟩
          · exact Or.inl ⟨List.mem_cons_of_mem _ kept, other⟩
          · exact Or.inr (Or.inl ⟨old, List.mem_cons_of_mem _ oldMember, same, changed⟩)
          · refine Or.inr (Or.inr ⟨?_, opened⟩)
            intro old oldMember
            rcases List.mem_cons.mp oldMember with rfl | oldMember
            · exact own
            · exact absent old oldMember

/-- The windows of the updated blocks: those there were, and the updated one. -/
theorem exists_window_updateWindow {number : UInt8} :
    (∃ block ∈ updateWindow window idx bit windows, block.window = number) ↔
      number = window ∨ ∃ block ∈ windows, block.window = number := by
  induction windows with
  | nil => simp [updateWindow, eq_comm]
  | cons head windows inductionHypothesis =>
      by_cases own : head.window = window
      · rw [updateWindow, if_pos own]
        simp only [List.exists_mem_cons_iff, own]
        constructor
        · rintro (same | later)
          · exact Or.inl same.symm
          · exact Or.inr (Or.inr later)
        · rintro (same | same | later)
          · exact Or.inl same.symm
          · exact Or.inl same
          · exact Or.inr later
      · rw [updateWindow, if_neg own]
        simp only [List.exists_mem_cons_iff, inductionHypothesis]
        constructor
        · rintro (same | same | later)
          · exact Or.inr (Or.inl same)
          · exact Or.inl same
          · exact Or.inr (Or.inr later)
        · rintro (same | same | later)
          · exact Or.inr (Or.inl same)
          · exact Or.inl same
          · exact Or.inr (Or.inr later)

/-- Updating the newest window keeps the blocks in ascending order. -/
theorem updateWindow_ascending
    (ascending : windows.Pairwise fun left right => left.window < right.window)
    (newest : ∀ block ∈ windows, block.window ≤ window) :
    (updateWindow window idx bit windows).Pairwise
      fun left right => left.window < right.window := by
  induction windows with
  | nil => simp [updateWindow]
  | cons head windows inductionHypothesis =>
      have order := List.pairwise_cons.mp ascending
      by_cases own : head.window = window
      · rw [updateWindow, if_pos own, List.pairwise_cons]
        exact ⟨order.1, order.2⟩
      · rw [updateWindow, if_neg own, List.pairwise_cons]
        refine ⟨fun block member => ?_, inductionHypothesis order.2
          (fun block member => newest block (List.mem_cons_of_mem _ member))⟩
        rcases exists_window_updateWindow.mp ⟨block, member, rfl⟩ with same | ⟨old, oldMember, same⟩
        · rw [same]
          exact UInt8.lt_of_le_of_ne (newest head List.mem_cons_self) own
        · exact same ▸ order.1 old oldMember

end UpdateWindow

/-- A block with the bit of `t` entered holds for the longer list. -/
private theorem holds_entered {entered : List UInt16} {t : UInt16} (window : UInt8) (bytes : Bytes)
    (used : Nat) (own : t.toNat / 256 = window.toNat) (width : bytes.length = 32)
    (bits : ∀ s : UInt16, s.toNat / 256 = window.toNat →
      (bitSet bytes (s.toNat % 256) = true ↔ s ∈ entered))
    (covered : ∀ j, bitSet bytes j = true → j / 8 < used)
    (last : used ≤ t.toNat % 256 / 8 + 1) :
    BitmapWindow.Holds (entered ++ [t]) ⟨window,
      setBit bytes (t.toNat % 256 / 8) (t.toNat % 256 % 8), max used (t.toNat % 256 / 8 + 1)⟩ := by
  have inside : t.toNat % 256 / 8 < bytes.length := by omega
  have small : t.toNat % 256 % 8 < 8 := by omega
  refine ⟨by simpa using width, ?_, ?_, ?_, t, by simp, own, ?_⟩
  · dsimp only
    omega
  · intro s sameWindow
    rw [bitSet_setBit inside small, bits s sameWindow, List.mem_append, List.mem_singleton]
    refine or_congr Iff.rfl ⟨fun position => UInt16.toNat_inj.mp ?_, fun same => ?_⟩
    · dsimp only at sameWindow
      omega
    · subst same
      omega
  · intro j set
    dsimp only
    rcases (bitSet_setBit inside small).mp set with old | new
    · have := covered j old
      omega
    · omega
  · dsimp only
    omega

/-- Entering a type above all others keeps the blocks right. -/
theorem WindowsHold.addType {entered : List UInt16} {windows : List BitmapWindow} {t : UInt16}
    (holds : WindowsHold entered windows) (above : ∀ s ∈ entered, s < t) :
    WindowsHold (entered ++ [t]) (addType windows t) := by
  have tBound := t.toNat_lt
  have own : (UInt8.ofNat (t.toNat / 256)).toNat = t.toNat / 256 := by
    rw [UInt8.toNat_ofNat', Nat.mod_eq_of_lt (by omega)]
  have newest : ∀ block ∈ windows, block.window ≤ UInt8.ofNat (t.toNat / 256) := by
    intro block member
    obtain ⟨s, entered, sameWindow, _⟩ := (holds.blocks block member).last
    have below := UInt16.lt_iff_toNat_lt.mp (above s entered)
    rw [UInt8.le_iff_toNat_le, own, ← sameWindow]
    omega
  refine ⟨updateWindow_ascending holds.ascending newest, fun block member => ?_, ?_⟩
  · rcases mem_updateWindow holds.ascending member with
      ⟨kept, other⟩ | ⟨old, oldMember, same, rfl⟩ | ⟨absent, rfl⟩
    · -- A block of another window does not see `t`.
      have prior := holds.blocks block kept
      refine ⟨prior.width, prior.bounded, fun s sameWindow => ?_, prior.covered, ?_⟩
      · rw [prior.bits s sameWindow, List.mem_append, List.mem_singleton]
        refine ⟨Or.inl, fun member => member.resolve_right ?_⟩
        rintro rfl
        exact other (UInt8.toNat_inj.mp (by rw [own, sameWindow]))
      · obtain ⟨s, member, rest⟩ := prior.last
        exact ⟨s, List.mem_append_left _ member, rest⟩
    · have prior := holds.blocks old oldMember
      obtain ⟨s, member, sameWindow, usedIs⟩ := prior.last
      have below := UInt16.lt_iff_toNat_lt.mp (above s member)
      rw [same, own] at sameWindow
      refine holds_entered _ _ _ (by rw [own]) prior.width
        (fun u uWindow => prior.bits u (by rw [same]; exact uWindow)) prior.covered ?_
      omega
    · have opened := @holds_entered entered t (UInt8.ofNat (t.toNat / 256))
        (List.replicate 32 0) 0 (by rw [own]) (by simp) (fun s sameWindow => ?_) (fun j set => ?_)
        (by omega)
      · simpa using opened
      · rw [bitSet_zeros]
        refine ⟨fun set => Bool.noConfusion set, fun member => ?_⟩
        obtain ⟨block, blockMember, blockWindow⟩ := holds.complete s member
        exact (absent block blockMember
          (UInt8.toNat_inj.mp (by rw [blockWindow, sameWindow]))).elim
      · rw [bitSet_zeros] at set
        cases set
  · intro s member
    have numbered : (∃ block ∈ updateWindow (UInt8.ofNat (t.toNat / 256)) (t.toNat % 256 / 8)
        (t.toNat % 256 % 8) windows, block.window = UInt8.ofNat (s.toNat / 256)) := by
      rw [exists_window_updateWindow]
      rcases List.mem_append.mp member with earlier | latest
      · obtain ⟨block, blockMember, blockWindow⟩ := holds.complete s earlier
        exact Or.inr ⟨block, blockMember, by rw [← blockWindow, UInt8.ofNat_toNat]⟩
      · rw [List.mem_singleton.mp latest]
        exact Or.inl rfl
    obtain ⟨block, blockMember, blockWindow⟩ := numbered
    refine ⟨block, blockMember, ?_⟩
    have sBound := s.toNat_lt
    rw [blockWindow, UInt8.toNat_ofNat', Nat.mod_eq_of_lt (by omega)]

/-- The blocks of an ascending list of types hold for it. -/
theorem windowsHold_foldl {types entered : List UInt16} {windows : List BitmapWindow}
    (holds : WindowsHold entered windows) (ascending : (entered ++ types).Pairwise (· < ·)) :
    WindowsHold (entered ++ types) (types.foldl addType windows) := by
  induction types generalizing entered windows with
  | nil => simpa using holds
  | cons t types inductionHypothesis =>
      have reassociated : entered ++ t :: types = (entered ++ [t]) ++ types := by simp
      rw [reassociated] at ascending ⊢
      refine inductionHypothesis (holds.addType fun s member => ?_) ascending
      exact (List.pairwise_append.mp (List.pairwise_append.mp ascending).1).2.2 s member t
        (List.mem_singleton.mpr rfl)

/-- The blocks written for a list of types. -/
theorem windowsHold_sortTypes (types : List RrType) :
    WindowsHold (sortTypes types) ((sortTypes types).foldl addType []) := by
  have start : WindowsHold [] [] := ⟨.nil, by simp, by simp⟩
  simpa using windowsHold_foldl start (by simpa using sortTypes_pairwise types)

/-! ## Reading the blocks back -/

/-- The octets in use lose no bit. -/
theorem bitSet_capped {bytes : Bytes} {used j : Nat} (covered : bitSet bytes j = true → j / 8 < used) :
    (j / 8 < (capped bytes used).length ∧ bitSet (capped bytes used) j = true) ↔
      bitSet bytes j = true := by
  have inside : bitSet bytes j = true → j / 8 < bytes.length := by
    intro set
    by_contra outside
    rw [bitSet, List.getD_eq_getElem?_getD, List.getElem?_eq_none (by omega)] at set
    simp at set
  simp only [capped, bitSet, List.length_take, List.getD_eq_getElem?_getD] at *
  constructor
  · rintro ⟨short, set⟩
    rwa [List.getElem?_take_of_lt (by omega)] at set
  · intro set
    have := covered set
    have := inside set
    exact ⟨by omega, by rwa [List.getElem?_take_of_lt (by omega)]⟩

/-- The types listed by a block that holds for `entered`. -/
theorem BitmapWindow.Holds.mem_windowTypes {entered : List UInt16} {block : BitmapWindow}
    (holds : block.Holds entered) {t : RrType} :
    t ∈ windowTypes block.window (capped block.bytes block.used) ↔
      t.toU16.toNat / 256 = block.window.toNat ∧ t.toU16 ∈ entered := by
  have short : (capped block.bytes block.used).length ≤ 32 := by
    have := holds.width
    simp only [capped, List.length_take]
    omega
  rw [RecurseX.mem_windowTypes short, bitSet_capped (holds.covered _)]
  constructor
  · rintro ⟨sameWindow, set⟩
    exact ⟨sameWindow, (holds.bits _ sameWindow).mp set⟩
  · rintro ⟨sameWindow, member⟩
    exact ⟨sameWindow, (holds.bits _ sameWindow).mpr member⟩

/-- The block loop reads a list of blocks one by one. -/
theorem parseTypeBitmapLoop_blocks {buf : Bytes} {entered : List UInt16} {stop : Nat}
    (blocks : List BitmapWindow) (holds : ∀ block ∈ blocks, block.Holds entered) :
    ∀ {fuel pos : Nat}, blocks.length < fuel →
      Located buf pos (blocks.flatMap BitmapWindow.encoding) →
      pos + (blocks.flatMap BitmapWindow.encoding).length = stop →
      parseTypeBitmapLoop buf stop fuel pos = .ok (blocks.flatMap fun block =>
        windowTypes block.window (capped block.bytes block.used), stop) := by
  induction blocks with
  | nil =>
      intro fuel pos fuelled _ reached
      obtain ⟨fuel, rfl⟩ : ∃ more, fuel = more + 1 := ⟨fuel - 1, by omega⟩
      obtain rfl : pos = stop := by simpa using reached
      simp [parseTypeBitmapLoop]
  | cons block blocks inductionHypothesis =>
      intro fuel pos fuelled located reached
      obtain ⟨fuel, rfl⟩ : ∃ more, fuel = more + 1 := ⟨fuel - 1, by omega⟩
      have own := holds block List.mem_cons_self
      obtain ⟨last, _, _, usedIs⟩ := own.last
      have cappedLength : (capped block.bytes block.used).length = block.used := by
        have := own.width
        have := own.bounded
        simp only [capped, List.length_take]
        omega
      have lengthOctet : (UInt8.ofNat block.used).toNat = block.used := by
        have := own.bounded
        rw [UInt8.toNat_ofNat']
        omega
      rw [List.flatMap_cons, Located.append_iff] at located
      obtain ⟨here, later⟩ := located
      simp only [List.flatMap_cons, List.length_append, BitmapWindow.encoding, List.length_cons,
        cappedLength] at here later reached
      have read := sliceAt_located here.tail.tail
      rw [cappedLength] at read
      have bounded := own.bounded
      rw [parseTypeBitmapLoop, if_pos (by omega), failIf_of_not (by omega), ok_bind,
        byteAt_located here, mapError_ok, ok_bind, byteAt_located here.tail, mapError_ok, ok_bind,
        lengthOctet, failIf_of_not (by omega), ok_bind, read, mapError_ok, ok_bind,
        inductionHypothesis (fun other member => holds other (List.mem_cons_of_mem _ member))
          (by simp only [List.length_cons] at fuelled; omega)
          (by rw [show pos + 2 + block.used = pos + (block.used + 1 + 1) by omega]; exact later)
          (by omega)]
      rfl

theorem length_flatMap_encoding (blocks : List BitmapWindow) :
    blocks.length ≤ (blocks.flatMap BitmapWindow.encoding).length := by
  induction blocks with
  | nil => simp
  | cons block blocks inductionHypothesis =>
      simp only [List.flatMap_cons, List.length_append, BitmapWindow.encoding, List.length_cons]
      omega

/-- The blocks of a type list, one after the other, list it in order. -/
theorem flatMap_windowTypes (types : List RrType) :
    (((sortTypes types).foldl addType []).flatMap fun block =>
      windowTypes block.window (capped block.bytes block.used)) =
        (sortTypes types).map RrType.mk := by
  have holds := windowsHold_sortTypes types
  have listed : (((sortTypes types).foldl addType []).flatMap fun block =>
      windowTypes block.window (capped block.bytes block.used)).Pairwise
        fun left right => left.toU16 < right.toU16 := by
    rw [List.pairwise_flatMap]
    refine ⟨fun block member => windowTypes_pairwise _ ?_, holds.ascending.imp_of_mem ?_⟩
    · have := (holds.blocks block member).width
      simp only [capped, List.length_take]
      omega
    · intro left right leftMember rightMember before t listed u listedLater
      have low := ((holds.blocks left leftMember).mem_windowTypes.mp listed).1
      have high := ((holds.blocks right rightMember).mem_windowTypes.mp listedLater).1
      rw [UInt8.lt_iff_toNat_lt] at before
      rw [UInt16.lt_iff_toNat_lt]
      omega
  have sorted : ((sortTypes types).map RrType.mk).Pairwise
      fun left right => left.toU16 < right.toU16 :=
    List.pairwise_map.mpr (sortTypes_pairwise types)
  have irreflexive : ∀ {list : List RrType},
      list.Pairwise (fun left right => left.toU16 < right.toU16) → list.Nodup := by
    intro list ascending
    refine ascending.imp ?_
    rintro left _ before rfl
    exact UInt16.lt_irrefl _ before
  refine List.Perm.eq_of_pairwise ?_ listed sorted
    ((List.perm_ext_iff_of_nodup (irreflexive listed) (irreflexive sorted)).mpr fun t => ?_)
  · intro left right _ _ before after
    exact absurd before (UInt16.lt_asymm after)
  · rw [List.mem_flatMap, List.mem_map]
    constructor
    · rintro ⟨block, member, here⟩
      exact ⟨t.toU16, ((holds.blocks block member).mem_windowTypes.mp here).2, rfl⟩
    · rintro ⟨s, member, rfl⟩
      obtain ⟨block, blockMember, sameWindow⟩ := holds.complete s member
      exact ⟨block, blockMember,
        (holds.blocks block blockMember).mem_windowTypes.mpr ⟨sameWindow.symm, member⟩⟩

/-- The octets a type list is written as. -/
theorem writeTypeBitmap_eq (out : Bytes) (types : List RrType) :
    writeTypeBitmap out types = out ++ typeBitmap types := by
  cases types with
  | nil => simp [writeTypeBitmap, typeBitmap, sortTypes, dedup]
  | cons first rest => rfl

/-- A written type list reads back sorted, each type once. -/
theorem parseTypeBitmap_written {buf : Bytes} {pos : Nat} {types : List RrType}
    (located : Located buf pos (typeBitmap types)) :
    parseTypeBitmap buf pos (pos + (typeBitmap types).length) =
      .ok ((sortTypes types).map RrType.mk, pos + (typeBitmap types).length) := by
  have fuelled := length_flatMap_encoding ((sortTypes types).foldl addType [])
  rw [← flatMap_windowTypes types, parseTypeBitmap]
  refine parseTypeBitmapLoop_blocks _ (windowsHold_sortTypes types).blocks ?_ located rfl
  rw [typeBitmap]
  omega

/-! ## The blocks that are written -/

/-- A window block on the wire: its number, its length and its octets. -/
def windowBlock (block : UInt8 × Bytes) : Bytes :=
  block.1 :: UInt8.ofNat block.2.length :: block.2

/-- Window blocks as RFC 4034 §4.1.2 asks for them. -/
structure CanonicalBlocks (blocks : List (UInt8 × Bytes)) : Prop where
  ascending : blocks.Pairwise fun left right => left.1 < right.1
  sized : ∀ block ∈ blocks, 1 ≤ block.2.length ∧ block.2.length ≤ 32
  trimmed : ∀ block ∈ blocks, ∃ last, block.2.getLast? = some last ∧ last ≠ 0

/-- The octets in use of a block are as many as it says, and the last of them has a bit set. -/
theorem BitmapWindow.Holds.capped_spec {entered : List UInt16} {block : BitmapWindow}
    (holds : block.Holds entered) :
    (capped block.bytes block.used).length = block.used ∧ 1 ≤ block.used ∧
      ∃ last, (capped block.bytes block.used).getLast? = some last ∧ last ≠ 0 := by
  have width := holds.width
  have bounded := holds.bounded
  have length : (capped block.bytes block.used).length = block.used := by
    rw [capped, List.length_take]
    omega
  obtain ⟨t, member, sameWindow, used⟩ := holds.last
  have set := (holds.bits t sameWindow).mpr member
  have inside : block.used - 1 < block.bytes.length := by omega
  refine ⟨length, by omega, block.bytes[block.used - 1], ?_, fun zero => ?_⟩
  · rw [List.getLast?_eq_getElem?, length, capped, List.getElem?_take_of_lt (by omega),
      List.getElem?_eq_getElem inside]
  · have octet : block.bytes.getD (t.toNat % 256 / 8) 0 = 0 := by
      rw [show t.toNat % 256 / 8 = block.used - 1 by omega, List.getD_eq_getElem?_getD,
        List.getElem?_eq_getElem inside, Option.getD_some, zero]
    rw [bitSet, octet] at set
    simp at set

/-- What is written for a list of types are canonical blocks. -/
theorem typeBitmap_blocks (types : List RrType) :
    ∃ blocks, typeBitmap types = blocks.flatMap windowBlock ∧ CanonicalBlocks blocks := by
  have holds := windowsHold_sortTypes types
  rw [typeBitmap]
  generalize (sortTypes types).foldl addType [] = windows at holds ⊢
  refine ⟨windows.map fun block => (block.window, capped block.bytes block.used), ?_, ?_, ?_, ?_⟩
  · rw [List.flatMap_map]
    refine List.flatMap_congr fun block member => ?_
    rw [windowBlock, BitmapWindow.encoding, ((holds.blocks block member).capped_spec).1]
  · exact List.pairwise_map.mpr holds.ascending
  · intro block member
    obtain ⟨window, listed, rfl⟩ := List.mem_map.mp member
    obtain ⟨length, positive, -⟩ := (holds.blocks window listed).capped_spec
    have bounded := (holds.blocks window listed).bounded
    dsimp only
    omega
  · intro block member
    obtain ⟨window, listed, rfl⟩ := List.mem_map.mp member
    exact (holds.blocks window listed).capped_spec.2.2

theorem mem_sortTypes {types : List RrType} {t : RrType} : t.toU16 ∈ sortTypes types ↔ t ∈ types := by
  rw [sortTypes, mem_dedup, List.mem_insertionSort, List.mem_map]
  constructor
  · rintro ⟨other, member, same⟩
    rwa [show t = other from congrArg RrType.mk same.symm]
  · exact fun member => ⟨t, member, rfl⟩

/-- **Type bitmap codec.** What is written for a list of types are canonical window blocks, and wherever
they stand they are read as the same types, in ascending order and each once. -/
theorem typeBitmap_codec (out rest : Bytes) (types : List RrType) :
    (∃ blocks, writeTypeBitmap out types = out ++ blocks.flatMap windowBlock ∧
      CanonicalBlocks blocks) ∧
    ∃ listed, parseTypeBitmap (writeTypeBitmap out types ++ rest) out.length
        (writeTypeBitmap out types).length = .ok (listed, (writeTypeBitmap out types).length) ∧
      listed.Pairwise (fun left right => left.toU16 < right.toU16) ∧ ∀ t, t ∈ listed ↔ t ∈ types := by
  rw [writeTypeBitmap_eq, List.append_assoc, List.length_append]
  refine ⟨?_, (sortTypes types).map RrType.mk, ?_, ?_, fun t => ?_⟩
  · obtain ⟨blocks, written, canonical⟩ := typeBitmap_blocks types
    exact ⟨blocks, by rw [written], canonical⟩
  · exact parseTypeBitmap_written (Located.intro out (typeBitmap types) rest)
  · exact List.pairwise_map.mpr (sortTypes_pairwise types)
  · rw [List.mem_map]
    constructor
    · rintro ⟨code, member, rfl⟩
      exact mem_sortTypes.mp member
    · exact fun member => ⟨t.toU16, mem_sortTypes.mpr member, rfl⟩

end RecurseX
