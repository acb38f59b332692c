import RecurseX.Name.Decode

/-!
# Name compression

The compressor's table maps a name suffix to the offset it was written at, and
every write both reads and extends it. `TableSound` ties each entry to the
octets at its offset, stated of the final buffer: since a write only appends,
the segments it leaves behind (`NameCompressor.encoding`) are all that later
reads depend on.
-/

namespace RecurseX

open Library Library.PrefixedList Wire

/-- The largest message offset a name compression pointer can encode. -/
def maxPointerOffset : Nat := 0x3fff

/-- Name compression table for one message. -/
structure NameCompressor where
  offsets : List (Name × Nat)
deriving DecidableEq, Repr

/-- `bytes` without its end `suffix`, when it has that end. -/
def stripSuffix (bytes suffix : Bytes) : Option Bytes :=
  if suffix.isSuffixOf bytes then some (bytes.take (bytes.length - suffix.length)) else none

namespace NameCompressor

/-- An empty compressor. -/
def new : NameCompressor := ⟨[]⟩

/-- The offset recorded for a suffix. -/
def get (self : NameCompressor) (suffix : Name) : Option Nat := self.offsets.lookup suffix

/-- Record the absolute offset of a suffix when a pointer can express it. -/
def record (self : NameCompressor) (base : Nat) (suffix : Name) (rel : Nat) : NameCompressor :=
  if base + rel ≤ maxPointerOffset then
    match self.get suffix with
    | some _ => self
    | none => ⟨(suffix, base + rel) :: self.offsets⟩
  else self

/-- Record a list of suffixes of one name. -/
def recordAll (self : NameCompressor) (base : Nat) (suffixes : List (Name × Nat)) :
    NameCompressor :=
  suffixes.foldl (fun table entry => table.record base entry.1 entry.2) self

/-- The walk from a name to the root over its parents, with each suffix's
offset relative to the start of the name. A parent is shorter than its child,
so the wire length is enough fuel. -/
def suffixesFrom (total : Nat) : Nat → Name → List (Name × Nat)
  | 0, _ => []
  | fuel + 1, cur =>
      if cur.isRoot then []
      else (cur, total - cur.wireLen) ::
        match cur.parent with
        | some parent => suffixesFrom total fuel parent
        | none => []

/-- The suffixes of a name, full name first, the bare root excluded. -/
def suffixes (name : Name) : List (Name × Nat) :=
  suffixesFrom name.wireLen (name.wireLen + 1) name

/-- The longest suffix already in the table: its index, itself, its offset. -/
def hit (self : NameCompressor) (suffixes : List (Name × Nat)) : Option (Nat × Name × Nat) :=
  suffixes.zipIdx.findSome? fun ((suffix, _), i) =>
    (self.get suffix).map fun offset => (i, suffix, offset)

/-- The two octets of a pointer to `offset`. -/
def pointerBytes (offset : Nat) : Bytes :=
  [(0xc0 : UInt8) ||| UInt8.ofNat (offset >>> 8), UInt8.ofNat (offset &&& 0xff)]

/-- Write `name` to `out`, compressing any suffix already emitted. -/
def write (self : NameCompressor) (name : Name) (out : Bytes) : NameCompressor × Bytes :=
  let base := out.length
  match self.hit (suffixes name) with
  | none => (self.recordAll base (suffixes name), name.writeWire out)
  | some (i, suffix, offset) =>
      let out := match stripSuffix name.bytes suffix.bytes with
        | some before => out ++ before ++ pointerBytes offset
        | none => name.writeWire out
      (self.recordAll base ((suffixes name).take i), out)

/-- The octets a write appends; they do not depend on the buffer. -/
def encoding (self : NameCompressor) (name : Name) : Bytes :=
  match self.hit (suffixes name) with
  | none => name.bytes
  | some (_, suffix, offset) =>
      match stripSuffix name.bytes suffix.bytes with
      | some before => before ++ pointerBytes offset
      | none => name.bytes

/-- The table after a write at `base`. -/
def after (self : NameCompressor) (name : Name) (base : Nat) : NameCompressor :=
  match self.hit (suffixes name) with
  | none => self.recordAll base (suffixes name)
  | some (i, _, _) => self.recordAll base ((suffixes name).take i)

/-- A write appends `encoding` and moves the table to `after`. -/
theorem write_eq (self : NameCompressor) (name : Name) (out : Bytes) :
    self.write name out = (self.after name out.length, out ++ self.encoding name) := by
  unfold write encoding after
  rcases self.hit (suffixes name) with _ | ⟨i, suffix, offset⟩
  · rfl
  · dsimp only
    split <;> simp [Name.writeWire]

/-! ## The suffixes of a name -/

private theorem isRoot_code {labels : List Bytes} (sized : Sized labels) :
    (Name.mk (code labels)).isRoot = true ↔ labels = [] := by
  cases labels with
  | nil => simp [Name.isRoot]
  | cons label labels =>
      have bounds := sized label List.mem_cons_self
      simp only [Name.isRoot, length_code_cons, decide_eq_true_eq, reduceCtorEq, iff_false]
      omega

private theorem parent_code {label : Bytes} {labels : List Bytes}
    (sized : Sized (label :: labels)) :
    (Name.mk (code (label :: labels))).parent = some ⟨code labels⟩ := by
  have bounds := sized label List.mem_cons_self
  have lengthOctet : (UInt8.ofNat label.length).toNat = label.length := by
    rw [UInt8.toNat_ofNat']
    omega
  have positive := length_code_pos labels
  rw [Name.parent, if_neg (by rw [length_code_cons]; omega)]
  simp only [code_cons, item, List.cons_append, lengthOctet]
  rw [if_pos (by simp only [List.length_cons, List.length_append]; omega), Nat.add_comm 1]
  simp

/-- Splitting the labels before an inner suffix gives that suffix and the
offset of its first octet. -/
theorem getElem?_suffixesFrom {labels : List Bytes} (sized : Sized labels) {i : Nat}
    {entry : Name × Nat} :
    ∀ (fuel total : Nat), labels.length < fuel → (code labels).length ≤ total →
      (suffixesFrom total fuel ⟨code labels⟩)[i]? = some entry →
      ∃ before inner, labels = before ++ inner ∧ inner ≠ [] ∧ before.length = i ∧
        entry = (⟨code inner⟩, total - (code labels).length + (body before).length) := by
  induction labels generalizing i with
  | nil =>
      intro fuel total _ _ found
      obtain _ | fuel := fuel <;> simp [suffixesFrom, Name.isRoot] at found
  | cons label labels inductionHypothesis =>
      intro fuel total fuelled within found
      obtain ⟨fuel, rfl⟩ : ∃ more, fuel = more + 1 := ⟨fuel - 1, by omega⟩
      have notRoot : ¬ (Name.mk (code (label :: labels))).isRoot = true := by
        simp [isRoot_code sized]
      rw [suffixesFrom, if_neg notRoot, parent_code sized] at found
      cases i with
      | zero =>
          simp only [List.getElem?_cons_zero, Option.some.injEq] at found
          exact ⟨[], label :: labels, rfl, by simp, rfl, by simp [← found, Name.wireLen]⟩
      | succ i =>
          rw [List.getElem?_cons_succ] at found
          simp only [List.length_cons] at fuelled
          rw [length_code_cons] at within
          obtain ⟨before, inner, rfl, nonempty, rfl, rfl⟩ :=
            inductionHypothesis sized.tail _ _ (by omega) (by omega) found
          refine ⟨label :: before, inner, rfl, nonempty, rfl, ?_⟩
          simp only [Prod.mk.injEq, true_and, length_code_cons, body_cons, List.length_append,
            length_item]
          omega

/-- The suffixes of a stored name, by index. -/
theorem getElem?_suffixes (domain : DomainName) {i : Nat} {entry : Name × Nat}
    (found : (suffixes domain.toName)[i]? = some entry) :
    ∃ before inner, domain.labels = before ++ inner ∧ inner ≠ [] ∧ before.length = i ∧
      entry = (⟨code inner⟩, (body before).length) := by
  have fuelled := length_lt_length_code domain.labels
  have shape := getElem?_suffixesFrom domain.sizedItems
    (domain.toName.wireLen + 1) domain.toName.wireLen
    (by simp only [Name.wireLen, DomainName.toName]; omega) (Nat.le_refl _) found
  simpa [Name.wireLen, DomainName.toName] using shape

/-- A hit is a suffix of the name together with its recorded offset. -/
theorem hit_eq_some {self : NameCompressor} {domain : DomainName} {i offset : Nat} {suffix : Name}
    (found : self.hit (suffixes domain.toName) = some (i, suffix, offset)) :
    ∃ before inner, domain.labels = before ++ inner ∧ inner ≠ [] ∧ before.length = i ∧
      suffix = ⟨code inner⟩ ∧ self.get suffix = some offset := by
  obtain ⟨⟨⟨candidate, rel⟩, index⟩, member, located⟩ := List.exists_of_findSome?_eq_some found
  simp only [Option.map_eq_some_iff, Prod.mk.injEq] at located
  obtain ⟨_, recorded, rfl, rfl, rfl⟩ := located
  obtain ⟨before, inner, split, nonempty, count, entry⟩ :=
    getElem?_suffixes domain (List.mem_zipIdx_iff_getElem?.mp member)
  simp only [Prod.mk.injEq] at entry
  exact ⟨before, inner, split, nonempty, count, entry.1, recorded⟩

/-- The octets emitted for a hit: the labels before the suffix, then the pointer. -/
theorem encoding_hit {self : NameCompressor} {domain : DomainName} {i offset : Nat}
    {before inner : List Bytes} (split : domain.labels = before ++ inner)
    (found : self.hit (suffixes domain.toName) = some (i, ⟨code inner⟩, offset)) :
    self.encoding domain.toName = body before ++ pointerBytes offset := by
  have strip : stripSuffix domain.toName.bytes (code inner) = some (body before) := by
    rw [DomainName.toName, split, code_append, stripSuffix, if_pos (by simp)]
    simp
  simp [encoding, found, strip]

/-- A write always appends something. -/
theorem encoding_length_pos (self : NameCompressor) (domain : DomainName) :
    0 < (self.encoding domain.toName).length := by
  cases found : self.hit (suffixes domain.toName) with
  | none =>
      simp only [encoding, found]
      exact length_code_pos domain.labels
  | some target =>
      obtain ⟨i, suffix, offset⟩ := target
      obtain ⟨before, inner, split, _, _, rfl, _⟩ := hit_eq_some found
      rw [encoding_hit split found]
      simp [pointerBytes]

/-! ## The table -/

/-- Every entry is a pointer target: a non-root suffix written before `base`
and spelled at its offset, through fewer hops than it has labels. -/
def TableSound (buf : Bytes) (base : Nat) (self : NameCompressor) : Prop :=
  ∀ name offset, self.get name = some offset → offset ≤ maxPointerOffset ∧ offset < base ∧
    ∃ labels hops stop, name = ⟨code labels⟩ ∧ Spells buf offset labels hops stop ∧
      hops < labels.length

theorem TableSound.new (buf : Bytes) (base : Nat) : TableSound buf base NameCompressor.new := by
  intro name offset recorded
  simp [NameCompressor.new, get] at recorded

theorem TableSound.mono {buf : Bytes} {base later : Nat} {self : NameCompressor}
    (sound : TableSound buf base self) (grown : base ≤ later) : TableSound buf later self := by
  intro name offset recorded
  obtain ⟨range, earlier, spelled⟩ := sound name offset recorded
  exact ⟨range, by omega, spelled⟩

theorem TableSound.record {buf : Bytes} {base later rel hops stop : Nat} {self : NameCompressor}
    {labels : List Bytes} (sound : TableSound buf later self) (written : base + rel < later)
    (spells : Spells buf (base + rel) labels hops stop) (fewer : hops < labels.length) :
    TableSound buf later (self.record base ⟨code labels⟩ rel) := by
  unfold NameCompressor.record
  split
  · rename_i range
    split
    · exact sound
    · intro name offset recorded
      simp only [get, List.lookup_cons] at recorded
      split at recorded
      · rename_i same
        cases recorded
        exact ⟨range, written, labels, hops, stop, eq_of_beq same, spells, fewer⟩
      · exact sound name offset recorded
  · exact sound

theorem TableSound.recordAll {buf : Bytes} {base later : Nat} {entries : List (Name × Nat)}
    (recordable : ∀ entry ∈ entries, base + entry.2 < later ∧ ∃ labels hops stop,
      entry.1 = ⟨code labels⟩ ∧ Spells buf (base + entry.2) labels hops stop ∧
        hops < labels.length) :
    ∀ {self : NameCompressor}, TableSound buf later self →
      TableSound buf later (self.recordAll base entries) := by
  induction entries with
  | nil =>
      intro self sound
      exact sound
  | cons entry entries inductionHypothesis =>
      intro self sound
      obtain ⟨written, labels, hops, stop, entryName, spells, fewer⟩ :=
        recordable entry List.mem_cons_self
      have first := sound.record written spells fewer
      rw [← entryName] at first
      exact inductionHypothesis
        (fun other member => recordable other (List.mem_cons_of_mem _ member)) first

/-! ## One write -/

private theorem or_tag : ∀ high < 64, 0xc0 ||| high = 0xc0 + high := by
  decide

@[simp] theorem length_pointerBytes (offset : Nat) : (pointerBytes offset).length = 2 := rfl

/-- An emitted pointer continues the spelling at its target. -/
theorem spells_pointerBytes {buf : Bytes} {pos offset hops stop : Nat} {labels : List Bytes}
    (located : Located buf pos (pointerBytes offset)) (range : offset ≤ maxPointerOffset)
    (target : Spells buf offset labels hops stop) :
    Spells buf pos labels (hops + 1) (pos + 2) := by
  have small : offset / 256 < 64 := by
    have : maxPointerOffset = 16383 := rfl
    omega
  have high : ((0xc0 : UInt8) ||| UInt8.ofNat (offset >>> 8)).toNat = 0xc0 + offset / 256 := by
    rw [UInt8.toNat_or, UInt8.toNat_ofNat', Nat.shiftRight_eq_div_pow,
      Nat.mod_eq_of_lt (by omega)]
    exact or_tag _ small
  have low : (UInt8.ofNat (offset &&& 0xff)).toNat = offset % 256 := by
    rw [UInt8.toNat_ofNat', Nat.and_two_pow_sub_one_eq_mod offset 8]
    omega
  have reached : (0xc0 + offset / 256 - 0xc0) * 256 + offset % 256 = offset := by omega
  rw [← reached, ← high, ← low] at target
  exact .pointer located (by omega) target

/-- The labels before a split of a name, written behind their lengths, are
continued by whatever is spelled behind them. -/
private theorem spells_before (domain : DomainName) {buf : Bytes} {base hops stop : Nat}
    {before inner : List Bytes} (split : domain.labels = before ++ inner)
    (located : Located buf base (body before))
    (continued : Spells buf (base + (body before).length) inner hops stop) :
    Spells buf base domain.labels hops stop := by
  rw [split]
  refine spells_body ?_ ?_ located continued
  · intro label member
    exact domain.sized label (by simp [split, member])
  · intro label member
    exact domain.folded label (by simp [split, member])

/-- A split of a name inside a longer split spells its own suffix. -/
private theorem spells_inside (domain : DomainName) {buf : Bytes} {base hops stop : Nat}
    {outer middle inner : List Bytes} (split : domain.labels = outer ++ (middle ++ inner))
    (located : Located buf base (body (outer ++ middle)))
    (continued : Spells buf (base + (body (outer ++ middle)).length) inner hops stop) :
    Spells buf (base + (body outer).length) (middle ++ inner) hops stop := by
  rw [body_append] at located continued
  refine spells_before (domain.ofSuffix ⟨outer, split.symm⟩) rfl located.right_part ?_
  rwa [List.length_append, ← Nat.add_assoc] at continued

/-- The recordable suffixes of a write that spelled the labels up to `inner`
itself and left the rest to `continued`. -/
private theorem recordable_suffixes (domain : DomainName) {buf : Bytes} {base hops stop : Nat}
    {before inner : List Bytes} (split : domain.labels = before ++ inner)
    (located : Located buf base (body before))
    (continued : Spells buf (base + (body before).length) inner hops stop)
    (bounded : hops ≤ inner.length) {later : Nat} (grown : base + (body before).length < later)
    {entry : Name × Nat} (member : entry ∈ (suffixes domain.toName).take before.length) :
    base + entry.2 < later ∧ ∃ labels hops stop, entry.1 = ⟨code labels⟩ ∧
      Spells buf (base + entry.2) labels hops stop ∧ hops < labels.length := by
  obtain ⟨k, below, atIndex⟩ := List.mem_take_iff_getElem.mp member
  obtain ⟨outer, suffix, outerSplit, _, outerLength, rfl⟩ :=
    getElem?_suffixes domain (List.getElem?_eq_some_iff.mpr ⟨by omega, atIndex⟩)
  -- `outer` is a proper part of `before`, so at least one label separates them.
  have nested : outer <+: before := by
    refine List.prefix_of_prefix_length_le (outerSplit ▸ List.prefix_append outer suffix)
      (split ▸ List.prefix_append before inner) (by omega)
  obtain ⟨middle, rfl⟩ := nested
  have suffixEq : suffix = middle ++ inner := by
    rw [split, List.append_assoc] at outerSplit
    exact (List.append_cancel_left outerSplit).symm
  subst suffixEq
  have room : 0 < middle.length := by
    simp only [List.length_append] at below
    omega
  refine ⟨?_, middle ++ inner, hops, stop, rfl,
    spells_inside domain (by rw [split, List.append_assoc]) located continued, ?_⟩
  · simp only [body_append, List.length_append] at grown
    dsimp only
    omega
  · rw [List.length_append]
    omega

/-- One write: the name is spelled where it was written, in no more hops than
it has labels, and the table stays sound. -/
theorem write_step (domain : DomainName) {buf : Bytes} {base : Nat} {self : NameCompressor}
    (sound : TableSound buf base self)
    (located : Located buf base (self.encoding domain.toName)) :
    (∃ hops, hops ≤ domain.labels.length ∧
      Spells buf base domain.labels hops (base + (self.encoding domain.toName).length)) ∧
    TableSound buf (base + (self.encoding domain.toName).length)
      (self.after domain.toName base) := by
  have grown := sound.mono (Nat.le_add_right base (self.encoding domain.toName).length)
  cases found : self.hit (suffixes domain.toName) with
  | none =>
      have whole : self.encoding domain.toName = code domain.labels := by
        rw [encoding, found]
        rfl
      rw [whole] at located grown ⊢
      have split : domain.labels = domain.labels ++ [] := by simp
      have closed : Spells buf (base + (body domain.labels).length) [] 0 _ :=
        .root located.right_part.head
      refine ⟨⟨0, Nat.zero_le _, domain.spells_code located⟩, ?_⟩
      rw [after, found]
      refine TableSound.recordAll (fun entry member => ?_) grown
      refine recordable_suffixes domain split located.left_part closed (Nat.le_refl _)
        (by simp [code]) ?_
      -- Every suffix index is below the label count, so taking them all drops nothing.
      refine List.take_of_length_le ?_ ▸ member
      by_contra longer
      have last := List.getElem?_eq_getElem (l := suffixes domain.toName)
        (i := domain.labels.length) (by omega)
      obtain ⟨before, inner, splitLast, nonempty, count, _⟩ := getElem?_suffixes domain last
      have lengths := congrArg List.length splitLast
      have positive := List.length_pos_of_ne_nil nonempty
      rw [List.length_append] at lengths
      omega
  | some target =>
      obtain ⟨i, suffix, offset⟩ := target
      obtain ⟨before, inner, split, nonempty, rfl, rfl, recorded⟩ := hit_eq_some found
      obtain ⟨range, _, labels, hops, stop, sameCode, spelled, fewer⟩ := sound _ _ recorded
      have sameLabels : inner = labels :=
        code_injective (domain.sizedItems.of_suffix ⟨before, split.symm⟩) spelled.sizedItems
          (Name.mk.inj sameCode)
      subst sameLabels
      have emitted := encoding_hit split found
      rw [emitted] at located grown ⊢
      have continued := spells_pointerBytes located.right_part range spelled
      have total : base + (body before ++ pointerBytes offset).length =
          base + (body before).length + 2 := by
        simp [Nat.add_assoc]
      rw [total] at grown ⊢
      refine ⟨⟨hops + 1, ?_, spells_before domain split located.left_part continued⟩, ?_⟩
      · rw [split, List.length_append]
        omega
      · rw [after, found]
        exact TableSound.recordAll (fun entry member =>
          recordable_suffixes domain split located.left_part continued (by omega) (by omega)
            member) grown

end NameCompressor

/-! ## Whole runs -/

/-- A write as the buffer's owner sees it: the name, where its octets start and
stop, and the target of the pointer it emitted, if any. -/
structure NameWrite where
  name : Name
  start : Nat
  stop : Nat
  pointer : Option Nat
deriving DecidableEq, Repr

/-- What is written into a buffer that shares one compressor. -/
inductive WriteAction where
  | raw (bytes : Bytes)
  | name (name : Name)
deriving DecidableEq, Repr

/-- A buffer under construction with its compressor and the writes so far. -/
structure Writer where
  comp : NameCompressor
  out : Bytes
  log : List NameWrite
deriving DecidableEq, Repr

namespace Writer

/-- An empty buffer with an empty compressor. -/
def new : Writer := ⟨.new, [], []⟩

/-- Append raw bytes, or write a name through the compressor. -/
def step (self : Writer) : WriteAction → Writer
  | .raw bytes => { self with out := self.out ++ bytes }
  | .name name =>
      let written := self.comp.write name self.out
      { comp := written.1
        out := written.2
        log := self.log ++ [{
          name := name
          start := self.out.length
          stop := written.2.length
          pointer := (self.comp.hit (NameCompressor.suffixes name)).map fun found => found.2.2 }] }

/-- A whole run from `self`. -/
def run (self : Writer) (actions : List WriteAction) : Writer := actions.foldl step self

@[simp] theorem run_cons (self : Writer) (action : WriteAction) (actions : List WriteAction) :
    self.run (action :: actions) = (self.step action).run actions := rfl

/-- A run only appends. -/
theorem out_prefix_run (self : Writer) (actions : List WriteAction) :
    self.out <+: (self.run actions).out := by
  induction actions generalizing self with
  | nil => exact List.prefix_rfl
  | cons action actions inductionHypothesis =>
      refine List.IsPrefix.trans ?_ (inductionHypothesis (self.step action))
      cases action with
      | raw bytes => exact List.prefix_append _ _
      | name name =>
          simp only [step, NameCompressor.write_eq]
          exact List.prefix_append _ _

/-- The names of a run are logged in order. -/
theorem log_run (self : Writer) (actions : List WriteAction) :
    (self.run actions).log.map NameWrite.name =
      self.log.map NameWrite.name ++ actions.filterMap fun action =>
        match action with
        | .raw _ => none
        | .name name => some name := by
  induction actions generalizing self with
  | nil => simp [run]
  | cons action actions inductionHypothesis =>
      rw [run_cons, inductionHypothesis]
      cases action <;> simp [step]

end Writer

/-- What a write promises about the final buffer: the name can be read back
from where it was written, within the hop limit, and a pointer it emitted has a
14-bit target in front of it. -/
structure NameWrite.Readable (final : Bytes) (write : NameWrite) : Prop where
  decodes : Name.fromWire final write.start = .ok (write.name, write.stop)
  withinHops : ∃ hops, hops ≤ maxPointerHops ∧
    Spells final write.start write.name.labels hops write.stop
  plain : write.pointer = none → Located final write.start write.name.bytes
  pointed : ∀ target, write.pointer = some target → target < 0x4000 ∧ target < write.start ∧
    Located final (write.stop - 2) (NameCompressor.pointerBytes target)

/-- The invariant of a run towards `final`: the table is sound for what has
been written and every write so far can be read back. -/
structure Writer.Sound (final : Bytes) (writer : Writer) : Prop where
  table : NameCompressor.TableSound final writer.out.length writer.comp
  log : ∀ write ∈ writer.log, write.Readable final

/-- One action preserves the invariant when its output is part of `final`. -/
theorem Writer.Sound.step {final : Bytes} {self : Writer} (sound : self.Sound final)
    (action : WriteAction) (emitted : (self.step action).out <+: final)
    (decoded : ∀ name, action = .name name → ∃ domain : DomainName, name = domain.toName) :
    (self.step action).Sound final := by
  cases action with
  | raw bytes =>
      refine ⟨sound.table.mono ?_, sound.log⟩
      simp [Writer.step]
  | name name =>
      obtain ⟨domain, rfl⟩ := decoded name rfl
      simp only [Writer.step, NameCompressor.write_eq] at emitted ⊢
      have located : Located final self.out.length (self.comp.encoding domain.toName) := by
        obtain ⟨rest, rfl⟩ := emitted
        simpa using Located.intro self.out (self.comp.encoding domain.toName) rest
      obtain ⟨⟨hops, bounded, spells⟩, table⟩ := NameCompressor.write_step domain sound.table located
      have limit : hops ≤ maxPointerHops := by
        have few := domain.few
        simp only [maxPointerHops]
        omega
      refine ⟨by simpa using table, fun write member => ?_⟩
      rcases List.mem_append.mp member with earlier | latest
      · exact sound.log write earlier
      · rw [List.mem_singleton.mp latest]
        refine ⟨?_, ⟨hops, limit, by simpa using spells⟩, ?_, ?_⟩
        · simpa using domain.fromWire_spells spells limit
        · intro noPointer
          have missed := Option.map_eq_none_iff.mp noPointer
          have whole : self.comp.encoding domain.toName = domain.toName.bytes := by
            rw [NameCompressor.encoding, missed]
          rwa [whole] at located
        · intro target pointed
          obtain ⟨⟨i, suffix, offset⟩, found, rfl⟩ := Option.map_eq_some_iff.mp pointed
          obtain ⟨before, inner, split, _, rfl, rfl, recorded⟩ := NameCompressor.hit_eq_some found
          obtain ⟨range, earlier, _⟩ := sound.table _ _ recorded
          rw [NameCompressor.encoding_hit split found] at located ⊢
          refine ⟨Nat.lt_succ_of_le range, earlier, ?_⟩
          have position : (self.out ++ (body before ++
              NameCompressor.pointerBytes offset)).length - 2 =
              self.out.length + (body before).length := by
            simp only [List.length_append, NameCompressor.length_pointerBytes]
            omega
          rw [position]
          exact located.right_part

/-- The invariant holds along every run whose output is part of `final`. -/
theorem Writer.Sound.run {final : Bytes} {self : Writer} (sound : self.Sound final)
    (actions : List WriteAction) (emitted : (self.run actions).out <+: final)
    (decoded : ∀ name, .name name ∈ actions → ∃ domain : DomainName, name = domain.toName) :
    (self.run actions).Sound final := by
  induction actions generalizing self with
  | nil => exact sound
  | cons action actions inductionHypothesis =>
      rw [Writer.run_cons] at emitted ⊢
      refine inductionHypothesis (sound.step action ?_ ?_) emitted ?_
      · exact ((self.step action).out_prefix_run actions).trans emitted
      · rintro name rfl
        exact decoded name List.mem_cons_self
      · intro name member
        exact decoded name (List.mem_cons_of_mem _ member)

/-- Name compression is transparent: whatever names decoded from some buffer
are written through one compressor, between whatever other bytes, each of them
can be read back from the final buffer. -/
theorem compression_transparent (actions : List WriteAction)
    (decoded : ∀ name, .name name ∈ actions →
      ∃ buf pos stop, Name.fromWire buf pos = .ok (name, stop)) :
    ((Writer.new.run actions).log.map NameWrite.name = actions.filterMap fun action =>
      match action with
      | .raw _ => none
      | .name name => some name) ∧
    ∀ write ∈ (Writer.new.run actions).log, write.Readable (Writer.new.run actions).out := by
  refine ⟨by simpa [Writer.new] using Writer.log_run .new actions, ?_⟩
  have start : Writer.new.Sound (Writer.new.run actions).out :=
    ⟨NameCompressor.TableSound.new _ _, by simp [Writer.new]⟩
  refine (start.run actions List.prefix_rfl fun name member => ?_).log
  obtain ⟨buf, pos, stop, decodes⟩ := decoded name member
  exact fromWire_domainName decodes

/-- `a.b` written twice: the second time as a pointer to offset 1. -/
theorem compression_transparent_repeated_name :
    (Writer.new.run [.raw [7], .name ⟨[1, 97, 1, 98, 0]⟩, .raw [9], .name ⟨[1, 97, 1, 98, 0]⟩]).out =
      [7, 1, 97, 1, 98, 0, 9, 0xc0, 1] ∧
    ∀ write ∈ (Writer.new.run
        [.raw [7], .name ⟨[1, 97, 1, 98, 0]⟩, .raw [9], .name ⟨[1, 97, 1, 98, 0]⟩]).log,
      write.Readable [7, 1, 97, 1, 98, 0, 9, 0xc0, 1] := by
  refine ⟨by decide, ?_⟩
  refine (compression_transparent
    [.raw [7], .name ⟨[1, 97, 1, 98, 0]⟩, .raw [9], .name ⟨[1, 97, 1, 98, 0]⟩] ?_).2
  intro name member
  obtain rfl : name = ⟨[1, 97, 1, 98, 0]⟩ := by simpa using member
  exact ⟨[1, 97, 1, 98, 0], 0, 5, by decide⟩

end RecurseX
