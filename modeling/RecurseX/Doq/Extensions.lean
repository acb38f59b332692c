import RecurseX.Doq.Handshake

/-!
# The extensions of a hello

Two loops follow the lengths that a peer declared, one over a ServerHello and one over
the EncryptedExtensions. Each value is checked against the end of the message, not of the
block, and a loop ends where fewer than four octets of the block are left.
-/

namespace RecurseX.Doq

open Library Wire

namespace ClientHandshake

variable {varint : Varint} {body : Bytes} {start stop pos last fuel : Nat} {total : UInt16}
  {extensions : List (UInt16 × Bytes)}

/-- Extensions as they are written. -/
def extensionsOctets (extensions : List (UInt16 × Bytes)) : Bytes :=
  extensions.flatMap fun ext => extension ext.1 ext.2

theorem extensionsOctets_cons (ext : UInt16 × Bytes) :
    extensionsOctets (ext :: extensions) = extension ext.1 ext.2 ++ extensionsOctets extensions :=
  List.flatMap_cons

theorem length_extension (etype : UInt16) (value : Bytes) :
    (extension etype value).length = 4 + value.length := by
  simp only [extension, List.length_append, length_be16]

/-- The block of declared length at `start` is exactly these extensions, and the message ends
with it. -/
structure Partition (body : Bytes) (start : Nat) (extensions : List (UInt16 × Bytes)) : Prop where
  sized : ∀ ext ∈ extensions, ext.2.length < 65536
  block : ∃ total : UInt16, body.drop start = be16 total ++ extensionsOctets extensions ∧
    total.toNat = (extensionsOctets extensions).length

/-- Where the declared lengths lead from `pos`, as far as four octets are left before `stop`. -/
def lengthsEnd (body : Bytes) (stop : Nat) : (fuel pos : Nat) → Nat
  | 0, pos => pos
  | fuel + 1, pos =>
      if pos + 4 ≤ stop then
        match u16At body (pos + 2) with
        | .ok elen => lengthsEnd body stop fuel (pos + 4 + elen.toNat)
        | .error _ => pos
      else pos

/-- The declared lengths add up: the block ends the message, and so does its last extension. -/
def LengthsAddUp (body : Bytes) (start : Nat) : Prop :=
  ∃ total, u16At body start = .ok total ∧ start + 2 + total.toNat = body.length ∧
    lengthsEnd body body.length (body.length + 1) (start + 2) = body.length

/-- The extensions that a loop reads from `pos` on, and where it ends. -/
inductive Walk (body : Bytes) (stop : Nat) : Nat → List (UInt16 × Bytes) → Nat → Prop where
  | done {pos : Nat} (few : ¬ pos + 4 ≤ stop) : Walk body stop pos [] pos
  | next {pos last : Nat} {etype elen : UInt16} {value : Bytes} {rest : List (UInt16 × Bytes)}
      (more : pos + 4 ≤ stop) (typed : u16At body pos = .ok etype)
      (sized : u16At body (pos + 2) = .ok elen)
      (valued : sliceAt body (pos + 4) elen.toNat = .ok value)
      (later : Walk body stop (pos + 4 + elen.toNat) rest last) :
      Walk body stop pos ((etype, value) :: rest) last

/-- What a loop reads stands in the message, up to where it ends. -/
theorem Walk.located (walk : Walk body stop pos extensions last) (inside : pos ≤ body.length) :
    Located body pos (extensionsOctets extensions) ∧
      last = pos + (extensionsOctets extensions).length ∧
      ∀ ext ∈ extensions, ext.2.length < 65536 := by
  induction walk with
  | done => exact ⟨.nil inside, rfl, by simp⟩
  | @next pos last etype elen value rest more typed sized valued later inductionHypothesis =>
      obtain ⟨found, exact⟩ := sliceAt_eq_ok.mp valued
      have bound := found.bound
      obtain ⟨restFound, rfl, restSized⟩ := inductionHypothesis (by omega)
      have written : extension etype value = be16 etype ++ (be16 elen ++ value) := by
        rw [extension, exact, UInt16.ofNat_toNat, List.append_assoc]
      have whole : Located body pos (extension etype value) := by
        rw [written]
        exact Located.append_iff.mpr ⟨u16At_eq_ok.mp typed,
          Located.append_iff.mpr ⟨u16At_eq_ok.mp sized, found⟩⟩
      refine ⟨?_, ?_, ?_⟩
      · rw [extensionsOctets_cons]
        refine Located.append_iff.mpr ⟨whole, ?_⟩
        rw [length_extension, exact, ← Nat.add_assoc]
        exact restFound
      · rw [extensionsOctets_cons, List.length_append, length_extension, exact]
        omega
      · rw [List.forall_mem_cons]
        exact ⟨exact ▸ elen.toNat_lt, restSized⟩

/-- Where extensions fill the block, a loop ends at the end of the block. -/
theorem Walk.last_eq {others : List (UInt16 × Bytes)} (walk : Walk body stop pos others last)
    (sized : ∀ ext ∈ extensions, ext.2.length < 65536)
    (found : Located body pos (extensionsOctets extensions))
    (fills : pos + (extensionsOctets extensions).length = stop) : last = stop := by
  induction extensions generalizing pos others with
  | nil =>
      obtain rfl : pos = stop := fills
      cases walk with
      | done => rfl
      | next more => omega
  | cons ext rest inductionHypothesis =>
      obtain ⟨short, sized⟩ := List.forall_mem_cons.mp sized
      rw [extensionsOctets_cons] at found fills
      rw [List.length_append, length_extension] at fills
      cases walk with
      | done few => omega
      | @next _ _ etype elen value others more typed declared valued later =>
          have first := found.left_part
          rw [extension, List.append_assoc] at first
          have written := u16At_located first.right_part.left_part
          rw [length_be16, declared] at written
          have same : elen.toNat = ext.2.length := by
            rw [Except.ok.inj written]
            exact UInt16.toNat_ofNat_of_lt' short
          have behind := found.right_part
          rw [length_extension, ← same, ← Nat.add_assoc] at behind
          exact inductionHypothesis later sized behind (by omega)

/-- A block whose extensions a loop has read is partitioned, and the message ends with it, exactly
when the declared lengths add up. -/
theorem exists_partition_iff {Used : List (UInt16 × Bytes) → Prop}
    (declared : u16At body start = .ok total) (block : stop = start + 2 + total.toNat)
    (walk : Walk body stop (start + 2) extensions last)
    (leads : lengthsEnd body stop (body.length + 1) (start + 2) = last) (used : Used extensions) :
    (∃ extensions, Partition body start extensions ∧ Used extensions) ↔ LengthsAddUp body start := by
  have header : Located body start (be16 total) := u16At_eq_ok.mp declared
  constructor
  · rintro ⟨others, ⟨sized, otherTotal, octets, length⟩, -⟩
    have whole : Located body start (be16 otherTotal ++ extensionsOctets others) :=
      octets ▸ Located.rest header.1
    obtain rfl : otherTotal = total :=
      Except.ok.inj ((u16At_located whole.left_part).symm.trans declared)
    have ends : stop = body.length := by
      have lengths := congrArg List.length octets
      have inside := header.1
      rw [List.length_drop, List.length_append, length_be16] at lengths
      omega
    subst ends
    exact ⟨otherTotal, declared, block.symm,
      leads.trans (walk.last_eq sized whole.right_part (by omega))⟩
  · rintro ⟨otherTotal, declaredToo, ends, adds⟩
    obtain rfl : otherTotal = total := Except.ok.inj (declaredToo.symm.trans declared)
    obtain rfl : stop = body.length := block.trans ends
    have inside := header.bound
    rw [length_be16] at inside
    obtain ⟨found, length, sized⟩ := walk.located inside
    rw [← leads, adds] at length
    have rest : body.drop (start + 2) = extensionsOctets extensions := by
      have all := found.slice
      rwa [List.take_of_length_le (by rw [List.length_drop]; omega)] at all
    refine ⟨extensions, ⟨sized, otherTotal, ?_, by omega⟩, used⟩
    rw [← rest, ← List.drop_drop, ← List.take_append_drop 2 (body.drop start)]
    congr 1
    · exact header.slice
    · rw [List.take_append_drop]

/-! ## ServerHello -/

/-- The version and the key share are values of these extensions. -/
structure HelloUses (share : Bytes) (extensions : List (UInt16 × Bytes)) : Prop where
  version : (0x002b, [0x03, 0x04]) ∈ extensions
  keyShare : ∃ value, (0x0033, value) ∈ extensions ∧ x25519KeyShare value = some share

/-- What the loop over a ServerHello reads, and what it takes from it. -/
theorem serverExtensions_walk {keyShare keyShareAfter : Option Bytes} {saw sawAfter : Bool}
    (ran : serverExtensions body stop fuel pos keyShare saw = .ok (keyShareAfter, sawAfter)) :
    ∃ extensions, Walk body stop pos extensions (lengthsEnd body stop fuel pos) ∧
      (sawAfter = true → saw = true ∨ (0x002b, [0x03, 0x04]) ∈ extensions) ∧
      ∀ share, keyShareAfter = some share → keyShare = some share ∨
        ∃ value, (0x0033, value) ∈ extensions ∧ x25519KeyShare value = some share := by
  induction fuel generalizing pos keyShare saw with
  | zero => cases ran
  | succ fuel inductionHypothesis =>
      rw [serverExtensions] at ran
      rw [lengthsEnd]
      split_ifs at ran ⊢ with more
      · simp only [bind_eq_ok] at ran
        obtain ⟨etype, typed, elen, declared, value, valued, ran⟩ := ran
        obtain ⟨rest, walk, version, share⟩ := inductionHypothesis ran
        rw [declared]
        refine ⟨(etype, value) :: rest, .next more typed declared (mapError_eq_ok.mp valued) walk,
          fun seen => ?_, fun chosen taken => ?_⟩
        · obtain before | later := version seen
          · rw [Bool.or_eq_true, Bool.and_eq_true, beq_iff_eq, beq_iff_eq] at before
            obtain before | ⟨rfl, rfl⟩ := before
            · exact .inl before
            · exact .inr List.mem_cons_self
          · exact .inr (List.mem_cons_of_mem _ later)
        · obtain before | ⟨other, listed, usable⟩ := share chosen taken
          · split_ifs at before with keyed
            · obtain usable | ⟨-, before⟩ := Option.or_eq_some_iff.mp before
              · exact .inr ⟨value, keyed ▸ List.mem_cons_self, usable⟩
              · exact .inl before
            · exact .inl before
          · exact .inr ⟨other, List.mem_cons_of_mem _ listed, usable⟩
      · cases ran
        exact ⟨[], .done more, .inl, fun _ => .inl⟩

/-- The block of an accepted ServerHello. -/
theorem serverHello_partition_iff {suite : UInt16} {share : Bytes}
    (accepted : readServerHello body = .ok (suite, share)) :
    (∃ extensions, Partition body 38 extensions ∧ HelloUses share extensions) ↔
      LengthsAddUp body 38 := by
  unfold readServerHello at accepted
  simp only [bind_eq_ok, failIf_eq_ok] at accepted
  obtain ⟨_, _, _, _, _, _, _, _, random, _, _, _, sidLen, _, _, noSession, _, _, selected, _, _, _,
    _, _, _, _, _, _, total, declared, _, _, ⟨keyShare, saw⟩, ran, _, seen, serverPub, chosen,
    done⟩ := accepted
  obtain ⟨rfl, rfl⟩ := Prod.mk.inj (Except.ok.inj done)
  have empty : sidLen.toNat = 0 := not_not.mp noSession
  rw [empty] at declared ran
  obtain ⟨extensions, walk, version, taken⟩ := serverExtensions_walk ran
  refine exists_partition_iff declared rfl walk rfl ⟨?_, ?_⟩
  · exact (version (by simpa using seen)).resolve_left (by decide)
  · exact (taken _ (okOr_eq_ok.mp chosen)).resolve_left (Option.some_ne_none _).symm

/-! ## EncryptedExtensions -/

/-- The transport parameters are the value of one of these extensions. -/
def ParamsUsed (varint : Varint) (params : ServerTransportParams)
    (extensions : List (UInt16 × Bytes)) : Prop :=
  ∃ value, (0x0039, value) ∈ extensions ∧ varint.decodeServerTransportParams value = .ok params

/-- What the loop over the EncryptedExtensions reads, and what it takes from it. -/
theorem encryptedExtensions_walk {params paramsAfter : Option ServerTransportParams}
    (ran : encryptedExtensions varint body stop fuel pos params = .ok paramsAfter) :
    ∃ extensions, Walk body stop pos extensions (lengthsEnd body stop fuel pos) ∧
      ∀ taken, paramsAfter = some taken → params = some taken ∨ ParamsUsed varint taken extensions := by
  induction fuel generalizing pos params with
  | zero => cases ran
  | succ fuel inductionHypothesis =>
      rw [encryptedExtensions] at ran
      rw [lengthsEnd]
      split_ifs at ran ⊢ with more
      · simp only [bind_eq_ok] at ran
        obtain ⟨etype, typed, elen, declared, value, valued, ran⟩ := ran
        rw [declared]
        have next {rest : List (UInt16 × Bytes)} {last : Nat} :=
          @Walk.next body stop pos last etype elen value rest more typed declared
            (mapError_eq_ok.mp valued)
        split_ifs at ran with keyed
        · obtain ⟨decoded, decoding, ran⟩ := bind_eq_ok.mp ran
          obtain ⟨rest, walk, params⟩ := inductionHypothesis ran
          refine ⟨(etype, value) :: rest, next walk, fun taken same => .inr ?_⟩
          obtain before | ⟨other, listed, decodedToo⟩ := params taken same
          · obtain rfl := Option.some.inj before
            exact ⟨value, keyed ▸ List.mem_cons_self, decoding⟩
          · exact ⟨other, List.mem_cons_of_mem _ listed, decodedToo⟩
        · obtain ⟨rest, walk, params⟩ := inductionHypothesis ran
          refine ⟨(etype, value) :: rest, next walk, fun taken same => ?_⟩
          obtain before | ⟨other, listed, decodedToo⟩ := params taken same
          · exact .inl before
          · exact .inr ⟨other, List.mem_cons_of_mem _ listed, decodedToo⟩
      · cases ran
        exact ⟨[], .done more, fun _ => .inl⟩

/-- The block of accepted EncryptedExtensions. -/
theorem encryptedExtensions_partition_iff {params : ServerTransportParams}
    (accepted : parseEncryptedExtensions varint body = .ok params) :
    (∃ extensions, Partition body 0 extensions ∧ ParamsUsed varint params extensions) ↔
      LengthsAddUp body 0 := by
  unfold parseEncryptedExtensions at accepted
  simp only [bind_eq_ok, failIf_eq_ok] at accepted
  obtain ⟨_, _, total, declared, _, _, paramsAfter, ran, chosen⟩ := accepted
  obtain ⟨extensions, walk, taken⟩ := encryptedExtensions_walk ran
  refine exists_partition_iff declared (by rw [Nat.zero_add]) walk rfl ?_
  exact (taken _ (okOr_eq_ok.mp chosen)).resolve_left (Option.some_ne_none _).symm

/-- **The extension walks.** The extensions of an accepted ServerHello and of accepted
EncryptedExtensions partition the block, the message ends with it, and what is used are their
values, exactly when the declared lengths add up to the end of the block and of the message. -/
theorem extensions_partition_iff (varint : Varint) :
    (∀ body suite share, readServerHello body = .ok (suite, share) →
      ((∃ extensions, Partition body 38 extensions ∧ HelloUses share extensions) ↔
        LengthsAddUp body 38)) ∧
    ∀ body params, parseEncryptedExtensions varint body = .ok params →
      ((∃ extensions, Partition body 0 extensions ∧ ParamsUsed varint params extensions) ↔
        LengthsAddUp body 0) :=
  ⟨fun _ _ _ accepted => serverHello_partition_iff accepted,
    fun _ _ accepted => encryptedExtensions_partition_iff accepted⟩

end ClientHandshake

namespace Sample

open ClientHandshake

/-- The body of the sample ServerHello. -/
def helloBody : Bytes := serverHello.drop 4

/-- The body of the sample EncryptedExtensions. -/
def extensionsBody : Bytes := encryptedExtensions.drop 4

theorem sample_blocks_partition :
    ((∃ extensions, Partition helloBody 38 extensions ∧ HelloUses (List.replicate 32 5) extensions) ↔
      LengthsAddUp helloBody 38) ∧
    ((∃ extensions, Partition extensionsBody 0 extensions ∧
      ParamsUsed varint { ServerTransportParams.default with initialMaxData := 16 } extensions) ↔
        LengthsAddUp extensionsBody 0) :=
  ⟨(extensions_partition_iff varint).1 helloBody Suite.AES_128_GCM_SHA256 (List.replicate 32 5)
      (by decide),
    (extensions_partition_iff varint).2 extensionsBody _ (by decide)⟩

/-- The transport parameters reach past a block of six octets, and an octet follows them. -/
def overrun : Bytes := be16 6 ++ extension 0x0039 [4, 1, 16] ++ [0xff]

/-- Not every accepted block is partitioned by its extensions. -/
theorem accepted_block_overrun :
    ¬ ((∀ body suite share, readServerHello body = .ok (suite, share) →
        ∃ extensions, Partition body 38 extensions ∧ HelloUses share extensions) ∧
      ∀ body params, parseEncryptedExtensions varint body = .ok params →
        ∃ extensions, Partition body 0 extensions ∧ ParamsUsed varint params extensions) := by
  rintro ⟨-, partitioned⟩
  have accepted : parseEncryptedExtensions varint overrun =
      .ok { ServerTransportParams.default with initialMaxData := 16 } := by decide
  obtain ⟨total, declared, ends, -⟩ :=
    (encryptedExtensions_partition_iff accepted).mp (partitioned overrun _ accepted)
  obtain rfl : 6 = total :=
    Except.ok.inj ((show u16At overrun 0 = .ok 6 by decide).symm.trans declared)
  exact absurd ends (by decide)

end Sample

end RecurseX.Doq
