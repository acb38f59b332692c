import RecurseX.Doq.Receive

/-!
# The ACK codec

An ACK frame is written by a walk over descending runs of packet numbers, and read by a
walk over gaps and lengths. `ackFrame_denotes` says that what is read is the set that was
written, and that no subtraction of either walk runs below zero.
-/

namespace RecurseX.Doq.QuicConnection

/-! ## Runs -/

/-- The packet number is one of a run. -/
def InRun (pn : Nat) (run : Nat × Nat) : Prop := run.1 ≤ pn ∧ pn ≤ run.1 + (run.2 - 1)

/-- Descending runs below `prevLow`, with at least one number between two of them: the gap of each is
written without running below zero. -/
def Separated (prevLow : Nat) : List (Nat × Nat) → Prop
  | [] => True
  | (low, len) :: runs => low + (len - 1) + 2 ≤ prevLow ∧ Separated low runs

/-- What the extension of a run that holds the `len` numbers from `largest` down takes. -/
structure Extends (largest len : Nat) (rest : List Nat) (extended : Nat) (later : List Nat) : Prop where
  longer : len ≤ extended
  fits : extended ≤ largest + 1
  suffix : later <:+ rest
  apart : ∀ pn ∈ later, pn + 2 ≤ largest - (extended - 1)
  members : ∀ pn, pn ∈ rest ↔
    pn ∈ later ∨ largest - (extended - 1) ≤ pn ∧ pn < largest - (len - 1)

theorem extends_ackRun {largest len : Nat} {rest : List Nat} (positive : 0 < len)
    (fits : len ≤ largest + 1) (descending : rest.Pairwise (· > ·))
    (below : ∀ pn ∈ rest, pn < largest - (len - 1)) :
    Extends largest len rest (ackRun largest len rest).1 (ackRun largest len rest).2 := by
  induction rest generalizing len with
  | nil =>
      refine ⟨le_rfl, fits, List.suffix_rfl, nofun, fun pn => ?_⟩
      rw [ackRun]
      refine iff_of_false List.not_mem_nil ?_
      rintro (member | between)
      · exact List.not_mem_nil member
      · exact Nat.not_lt.mpr between.1 between.2
  | cons next rest inductionHypothesis =>
      obtain ⟨first, descending⟩ := List.pairwise_cons.mp descending
      have top := below next List.mem_cons_self
      rw [ackRun]
      split_ifs with follows
      · have beneath : ∀ pn ∈ rest, pn < largest - (len + 1 - 1) := fun pn member => by
          have := first pn member
          omega
        have further := inductionHypothesis (by omega : 0 < len + 1) (by omega) descending
          beneath
        have longer := further.longer
        refine ⟨by omega, further.fits, further.suffix.trans (List.suffix_cons _ _), further.apart,
          fun pn => ?_⟩
        rw [List.mem_cons, further.members]
        have fits := further.fits
        constructor
        · rintro (rfl | deeper | between)
          · exact .inr ⟨by omega, top⟩
          · exact .inl deeper
          · exact .inr ⟨between.1, by omega⟩
        · rintro (deeper | between)
          · exact .inr (.inl deeper)
          · by_cases same : pn = next
            · exact .inl same
            · exact .inr (.inr ⟨between.1, by omega⟩)
      · refine ⟨le_rfl, fits, List.suffix_rfl, fun pn member => ?_, fun pn => ⟨.inl, ?_⟩⟩
        · have most : pn ≤ next := by
            obtain rfl | later := List.mem_cons.mp member
            · exact le_rfl
            · exact Nat.le_of_lt (first pn later)
          dsimp only
          omega
        · rintro (member | between)
          · exact member
          · exact absurd between.2 (Nat.not_lt.mpr between.1)

/-- The runs of descending packet numbers hold these numbers, and are separated. -/
theorem ackRuns_spec {fuel : Nat} {descending : List Nat} (enough : descending.length ≤ fuel)
    (ordered : descending.Pairwise (· > ·)) :
    (∀ pn, pn ∈ descending ↔ ∃ run ∈ ackRuns fuel descending, InRun pn run) ∧
      ∀ prevLow, (∀ pn ∈ descending, pn + 2 ≤ prevLow) →
        Separated prevLow (ackRuns fuel descending) := by
  induction fuel generalizing descending with
  | zero =>
      obtain rfl := List.eq_nil_of_length_eq_zero (Nat.le_zero.mp enough)
      exact ⟨by simp [ackRuns], fun _ _ => trivial⟩
  | succ fuel inductionHypothesis =>
      cases descending with
      | nil => exact ⟨by simp [ackRuns], fun _ _ => trivial⟩
      | cons largest rest =>
          obtain ⟨first, later⟩ := List.pairwise_cons.mp ordered
          have run := extends_ackRun Nat.one_pos (Nat.succ_le_succ (Nat.zero_le largest)) later first
          rw [ackRuns]
          generalize ackRun largest 1 rest = taken at run ⊢
          obtain ⟨len, lower⟩ := taken
          obtain ⟨positive, fits, suffix, apart, members⟩ := run
          dsimp only at positive fits suffix apart members ⊢
          have shorter := suffix.length_le
          rw [List.length_cons] at enough
          obtain ⟨denoted, separated⟩ := inductionHypothesis (by omega) (later.sublist suffix.sublist)
          refine ⟨fun pn => ?_, fun prevLow beneath => ⟨?_, separated _ apart⟩⟩
          · rw [List.mem_cons, members, denoted, List.exists_mem_cons_iff, InRun]
            dsimp only
            have : largest - (len - 1) + (len - 1) = largest := by omega
            constructor
            · rintro (rfl | deeper | between)
              · exact .inl (by omega)
              · exact .inr deeper
              · exact .inl (by omega)
            · rintro (here | deeper)
              · by_cases top : pn = largest
                · exact .inl top
                · exact .inr (.inr (by omega))
              · exact .inr (.inl deeper)
          · have := beneath largest List.mem_cons_self
            omega

/-! ## What a frame says -/

/-- No subtraction of the walk over the ranges below `prevLow` runs below zero. -/
def WalksBelow (prevLow : Nat) : List (Nat × Nat) → Prop
  | [] => True
  | (gap, rangeLen) :: rest =>
      gap + 2 ≤ prevLow ∧ rangeLen ≤ prevLow - (gap + 2) ∧
        WalksBelow (prevLow - (gap + 2) - rangeLen) rest

/-- No subtraction of the walk over the ranges of a frame runs below zero. -/
def Walks (largestAcked : Nat) : List (Nat × Nat) → Prop
  | [] => True
  | (_, rangeLen) :: rest => rangeLen ≤ largestAcked ∧ WalksBelow (largestAcked - rangeLen) rest

/-- The walk reads separated runs back. -/
theorem ackedBelow_ackRanges {prevLow : Nat} {runs : List (Nat × Nat)}
    (separated : Separated prevLow runs) :
    ackedBelow prevLow (ackRanges prevLow runs) = runs.map (fun run => (run.1, run.1 + (run.2 - 1))) ∧
      WalksBelow prevLow (ackRanges prevLow runs) := by
  induction runs generalizing prevLow with
  | nil => exact ⟨rfl, trivial⟩
  | cons run runs inductionHypothesis =>
      obtain ⟨low, len⟩ := run
      obtain ⟨beneath, separated⟩ := separated
      have largest : prevLow - (prevLow - (low + (len - 1) + 2) + 2) = low + (len - 1) := by omega
      obtain ⟨read, walks⟩ := inductionHypothesis separated
      rw [ackRanges, ackedBelow, WalksBelow, largest, Nat.add_sub_cancel]
      exact ⟨congrArg _ read, by omega, Nat.le_add_left _ _, walks⟩

/-- Gaps and lengths stay below a bound of the runs. -/
theorem ackRanges_lt {prevLow bound : Nat} {runs : List (Nat × Nat)}
    (separated : Separated prevLow runs) (small : prevLow < bound) :
    ∀ range ∈ ackRanges prevLow runs, range.1 < bound ∧ range.2 < bound := by
  induction runs generalizing prevLow with
  | nil => nofun
  | cons run runs inductionHypothesis =>
      obtain ⟨low, len⟩ := run
      obtain ⟨beneath, separated⟩ := separated
      intro range member
      rw [ackRanges] at member
      obtain rfl | later := List.mem_cons.mp member
      · exact ⟨by dsimp only; omega, by dsimp only; omega⟩
      · exact inductionHypothesis separated (by omega) range later

/-- A frame that denotes a set of packet numbers. -/
structure Denotes (pns : List Nat) (largestAcked : Nat) (ranges : List (Nat × Nat)) : Prop where
  members : ∀ pn, isAcked largestAcked ranges pn = true ↔ pn ∈ pns
  walks : Walks largestAcked ranges
  largest : largestAcked < 2 ^ 62
  small : ∀ range ∈ ranges, range.1 < 2 ^ 62 ∧ range.2 < 2 ^ 62

/-- No subtraction for a gap runs below zero where the frame over `pns` is written. -/
def GapsFit (pns : List Nat) : Prop :=
  let sorted := pns.insertionSort (· ≤ ·)
  match ackRuns sorted.length sorted.reverse with
  | [] => True
  | (topLow, _) :: runs => Separated topLow runs

/-- **ACK codec.** The frame over a set of packet numbers denotes that set. No subtraction runs below
zero, where it is written or where it is read. -/
theorem ackFrame_denotes (pns : List Nat) (filled : pns ≠ []) (distinct : pns.Nodup)
    (small : ∀ pn ∈ pns, pn < 2 ^ 62) :
    GapsFit pns ∧ ∃ largestAcked ranges, buildAckFrame pns = .ack largestAcked 0 ranges ∧
      Denotes pns largestAcked ranges := by
  have perm := List.perm_insertionSort (· ≤ ·) pns
  have ordered := (List.pairwise_insertionSort (· ≤ ·) pns).and (perm.nodup_iff.mpr distinct)
  rw [buildAckFrame, GapsFit]
  generalize pns.insertionSort (· ≤ ·) = sorted at perm ordered ⊢
  have descending : sorted.reverse.Pairwise (· > ·) :=
    List.pairwise_reverse.mpr (ordered.imp fun both => Nat.lt_of_le_of_ne both.1 both.2)
  obtain ⟨held, separated⟩ := ackRuns_spec (Nat.le_of_eq List.length_reverse) descending
  have members (pn : Nat) : pn ∈ pns ↔ ∃ run ∈ ackRuns sorted.length sorted.reverse, InRun pn run := by
    rw [← held, List.mem_reverse, perm.mem_iff]
  have below := separated (2 ^ 62 + 1) fun pn member => by
    have := small pn (perm.mem_iff.mp (List.mem_reverse.mp member))
    omega
  generalize ackRuns sorted.length sorted.reverse = runs at members below ⊢
  cases runs with
  | nil =>
      obtain ⟨pn, member⟩ := List.exists_mem_of_ne_nil pns filled
      obtain ⟨run, absent, -⟩ := (members pn).mp member
      cases absent
  | cons top runs =>
      obtain ⟨topLow, topLen⟩ := top
      obtain ⟨beneath, apart⟩ := below
      obtain ⟨read, walks⟩ := ackedBelow_ackRanges apart
      refine ⟨apart, _, _, rfl, fun pn => ?_, ⟨Nat.le_add_left _ _, ?_⟩, by omega, ?_⟩
      · rw [members, isAcked, ackedRanges, Nat.add_sub_cancel, read]
        simp only [List.any_cons, List.any_map, Bool.or_eq_true, Bool.and_eq_true, decide_eq_true_eq,
          List.any_eq_true, Function.comp_apply, List.exists_mem_cons_iff, InRun]
      · rw [Nat.add_sub_cancel]
        exact walks
      · intro range member
        obtain rfl | later := List.mem_cons.mp member
        · exact ⟨Nat.two_pow_pos 62, by dsimp only; omega⟩
        · exact ackRanges_lt apart (by omega) range later

/-- Two runs with a hole of three between them. -/
theorem ackFrame_two_runs : GapsFit [0, 1, 5, 6] ∧ ∃ largestAcked ranges,
    buildAckFrame [0, 1, 5, 6] = .ack largestAcked 0 ranges ∧
      Denotes [0, 1, 5, 6] largestAcked ranges :=
  ackFrame_denotes [0, 1, 5, 6] (by decide) (by decide) (by decide)

end RecurseX.Doq.QuicConnection
