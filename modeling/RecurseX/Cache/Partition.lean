import RecurseX.Cache.Lookup

/-!
# ECS partitions

Which partitions a requester may read, and that the ladder of keys a lookup
probes is exactly those, narrowest first.
-/

namespace RecurseX

open Library

/-- A partition as `answerPartition` makes it: of a real family, at least one bit
long, with the address cut to its prefix. -/
structure EcsKey.Canonical (partition : EcsKey) : Prop where
  family : partition.family ≠ 0
  positive : 0 < partition.bits.toNat
  cut : truncateTo partition.addr partition.bits = partition.addr

/-- The length of a partition's prefix; the global partition has length 0. -/
def partitionBits (partition : Option EcsKey) : Nat :=
  (partition.map fun ecs => ecs.bits.toNat).getD 0

/-- What a requester may read: the global partition, and every network of the
requester's family that contains the requester's own. -/
def Readable (requester : Option Ecs) : Option EcsKey → Prop
  | none => True
  | some partition => ∃ ecs, requester = some ecs ∧ ecs.family = partition.family ∧
      partition.bits ≤ ecs.sourcePrefix ∧
      AgreeOn partition.bits.toNat ecs.address partition.addr

theorem toNat_pos_of_ne_zero {bits : UInt8} (nonzero : bits ≠ 0) : 0 < bits.toNat :=
  Nat.pos_of_ne_zero fun zero => nonzero (UInt8.toNat_inj.mp zero)

theorem EcsKey.fromEcs_eq_some {ecs : Ecs} {partition : EcsKey}
    (made : EcsKey.fromEcs ecs = some partition) :
    partition = ⟨ecs.family, ecs.sourcePrefix, truncateTo ecs.address ecs.sourcePrefix⟩ ∧
      partition.Canonical := by
  unfold EcsKey.fromEcs at made
  split_ifs at made with unusable
  obtain rfl := Option.some.inj made
  exact ⟨rfl, fun family => unusable (.inl family),
    toNat_pos_of_ne_zero fun zero => unusable (.inr zero),
    truncateTo_truncateTo (UInt8.le_refl _)⟩

theorem answerPartition_canonical {requester : Option Ecs} {scope : Option UInt8}
    {partition : EcsKey}
    (made : answerPartition (requester.bind EcsKey.fromEcs) scope = some partition) :
    partition.Canonical := by
  cases requester with
  | none => cases made
  | some ecs =>
      rw [Option.bind_some] at made
      cases asked : EcsKey.fromEcs ecs with
      | none =>
          rw [asked] at made
          cases made
      | some own =>
          rw [asked] at made
          have canonical := (EcsKey.fromEcs_eq_some asked).2
          simp only [answerPartition, EcsKey.withScope] at made
          split_ifs at made with global
          obtain rfl := Option.some.inj made
          exact ⟨canonical.family, toNat_pos_of_ne_zero global,
            truncateTo_truncateTo (UInt8.le_refl _)⟩

/-! ## The ladder is what the requester may read -/

theorem CacheKey.mem_broader_iff {key other : CacheKey} {ecs : EcsKey} {scope : Nat} :
    other ∈ key.broader ecs scope ↔ ∃ bits, 0 < bits ∧ bits < scope ∧
      other = key.withEcs (some ⟨ecs.family, UInt8.ofNat bits,
        truncateTo ecs.addr (UInt8.ofNat bits)⟩) := by
  induction scope with
  | zero => simp [CacheKey.broader]
  | succ scope inductionHypothesis =>
      unfold CacheKey.broader
      split_ifs with last
      · simp only [List.not_mem_nil, false_iff, not_exists]
        omega
      · rw [List.mem_cons, inductionHypothesis]
        constructor
        · rintro (rfl | ⟨bits, positive, below, rfl⟩)
          · exact ⟨scope, by omega, by omega, rfl⟩
          · exact ⟨bits, positive, by omega, rfl⟩
        · rintro ⟨bits, positive, below, rfl⟩
          by_cases same : bits = scope
          · exact .inl (by rw [same])
          · exact .inr ⟨bits, positive, by omega, rfl⟩

/-- The key of a question, in the partition of its requester. -/
def requestKey (name : Name) (rrType : RrType) (rrClass : RrClass) (requester : Option Ecs) :
    CacheKey :=
  ⟨name, rrType, rrClass, requester.bind EcsKey.fromEcs⟩

variable {name : Name} {rrType : RrType} {rrClass : RrClass} {requester : Option Ecs}

theorem readable_iff_of_canonical {ecs : Ecs} {partition : EcsKey}
    (canonical : partition.Canonical) :
    Readable (some ecs) (some partition) ↔ ecs.family = partition.family ∧
      partition.bits ≤ ecs.sourcePrefix ∧
      truncateTo ecs.address partition.bits = partition.addr := by
  have agree : truncateTo ecs.address partition.bits = partition.addr ↔
      AgreeOn partition.bits.toNat ecs.address partition.addr := by
    rw [← truncateTo_eq_iff, canonical.cut]
  rw [agree]
  constructor
  · rintro ⟨_, ⟨⟩, readable⟩
    exact readable
  · intro readable
    exact ⟨ecs, rfl, readable⟩

/-- Nobody without a usable ECS option reads a network's partition. -/
theorem not_readable_of_fromEcs_none {partition : EcsKey} (canonical : partition.Canonical)
    (unusable : requester.bind EcsKey.fromEcs = none) : ¬ Readable requester (some partition) := by
  rintro ⟨ecs, rfl, family, narrower, _⟩
  rw [Option.bind_some, EcsKey.fromEcs] at unusable
  split_ifs at unusable with global
  have positive := canonical.positive
  have within := UInt8.le_iff_toNat_le.mp narrower
  rcases global with zero | zero
  · exact canonical.family (family ▸ zero)
  · rw [zero] at within
    exact absurd positive (Nat.not_lt.mpr within)

/-- The ladder of a usable ECS option: its network at every length down to one
bit, and the global partition. -/
theorem mem_ladder_of_ecs {ecs : Ecs} {own : EcsKey} (made : EcsKey.fromEcs ecs = some own)
    {other : CacheKey} :
    other ∈ (requestKey name rrType rrClass (some ecs)).ladder ↔
      other = ⟨name, rrType, rrClass, none⟩ ∨
      ∃ bits : UInt8, 0 < bits.toNat ∧ bits ≤ ecs.sourcePrefix ∧
        other = ⟨name, rrType, rrClass,
          some ⟨ecs.family, bits, truncateTo ecs.address bits⟩⟩ := by
  obtain ⟨rfl, canonical⟩ := EcsKey.fromEcs_eq_some made
  have key : requestKey name rrType rrClass (some ecs) = ⟨name, rrType, rrClass,
      some ⟨ecs.family, ecs.sourcePrefix, truncateTo ecs.address ecs.sourcePrefix⟩⟩ := by
    rw [requestKey, Option.bind_some, made]
  rw [key]
  simp only [CacheKey.ladder, List.mem_cons, List.mem_append, CacheKey.mem_broader_iff,
    List.not_mem_nil, or_false, CacheKey.withEcs]
  constructor
  · rintro (rfl | ⟨bits, positive, below, rfl⟩ | rfl)
    · exact .inr ⟨ecs.sourcePrefix, canonical.positive, UInt8.le_refl _, rfl⟩
    · have small : (UInt8.ofNat bits).toNat = bits := by
        have := ecs.sourcePrefix.toNat_lt
        rw [UInt8.toNat_ofNat']
        omega
      have narrower : UInt8.ofNat bits ≤ ecs.sourcePrefix := by
        rw [UInt8.le_iff_toNat_le, small]
        omega
      exact .inr ⟨UInt8.ofNat bits, by omega, narrower, by rw [truncateTo_truncateTo narrower]⟩
    · exact .inl rfl
  · rintro (rfl | ⟨bits, positive, narrower, rfl⟩)
    · exact .inr (.inr rfl)
    · by_cases same : bits = ecs.sourcePrefix
      · exact .inl (by rw [same])
      · have below := UInt8.le_iff_toNat_le.mp narrower
        have different : bits.toNat ≠ ecs.sourcePrefix.toNat := fun equal =>
          same (UInt8.toNat_inj.mp equal)
        refine .inr (.inl ⟨bits.toNat, positive, by omega, ?_⟩)
        rw [UInt8.ofNat_toNat, truncateTo_truncateTo narrower]

/-- A lookup probes exactly the partitions its requester may read. -/
theorem mem_ladder_iff {other : CacheKey} :
    other ∈ (requestKey name rrType rrClass requester).ladder ↔
      ∃ partition, other = ⟨name, rrType, rrClass, partition⟩ ∧ Readable requester partition ∧
        ∀ ecs, partition = some ecs → ecs.Canonical := by
  cases usable : requester.bind EcsKey.fromEcs with
  | none =>
      have single : (requestKey name rrType rrClass requester).ladder =
          [⟨name, rrType, rrClass, none⟩] := by
        simp only [requestKey, usable, CacheKey.ladder]
      rw [single, List.mem_singleton]
      constructor
      · rintro rfl
        exact ⟨none, rfl, trivial, fun _ impossible => (nomatch impossible)⟩
      · rintro ⟨partition, rfl, readable, canonical⟩
        cases partition with
        | none => rfl
        | some ecs =>
            exact absurd readable (not_readable_of_fromEcs_none (canonical ecs rfl) usable)
  | some own =>
      obtain ⟨ecs, rfl, made⟩ := Option.bind_eq_some_iff.mp usable
      rw [mem_ladder_of_ecs made]
      have family := (EcsKey.fromEcs_eq_some made).2.family
      rw [(EcsKey.fromEcs_eq_some made).1] at family
      constructor
      · rintro (rfl | ⟨bits, positive, narrower, rfl⟩)
        · exact ⟨none, rfl, trivial, fun _ impossible => (nomatch impossible)⟩
        · have canonical : EcsKey.Canonical ⟨ecs.family, bits, truncateTo ecs.address bits⟩ :=
            ⟨family, positive, truncateTo_truncateTo (UInt8.le_refl _)⟩
          refine ⟨_, rfl, (readable_iff_of_canonical canonical).mpr ⟨rfl, narrower, rfl⟩, ?_⟩
          rintro _ ⟨⟩
          exact canonical
      · rintro ⟨partition, rfl, readable, canonical⟩
        cases partition with
        | none => exact .inl rfl
        | some network =>
            obtain ⟨same, narrower, cut⟩ :=
              (readable_iff_of_canonical (canonical network rfl)).mp readable
            refine .inr ⟨network.bits, (canonical network rfl).positive, narrower, ?_⟩
            rw [same, cut]

theorem partitionBits_of_mem_broader {key other : CacheKey} {ecs : EcsKey} {scope : Nat}
    (small : scope ≤ 256) (member : other ∈ key.broader ecs scope) :
    0 < partitionBits other.ecs ∧ partitionBits other.ecs < scope := by
  obtain ⟨bits, positive, below, rfl⟩ := CacheKey.mem_broader_iff.mp member
  have exactly : (UInt8.ofNat bits).toNat = bits := by
    rw [UInt8.toNat_ofNat']
    omega
  have length : partitionBits (key.withEcs (some ⟨ecs.family, UInt8.ofNat bits,
      truncateTo ecs.addr (UInt8.ofNat bits)⟩)).ecs = bits := exactly
  rw [length]
  exact ⟨positive, below⟩

theorem broader_pairwise {key : CacheKey} {ecs : EcsKey} {scope : Nat} (small : scope ≤ 256) :
    (key.broader ecs scope).Pairwise fun earlier later =>
      partitionBits later.ecs < partitionBits earlier.ecs := by
  induction scope with
  | zero => exact List.Pairwise.nil
  | succ scope inductionHypothesis =>
      unfold CacheKey.broader
      split_ifs
      · exact List.Pairwise.nil
      · refine List.pairwise_cons.mpr ⟨fun later member => ?_, inductionHypothesis (by omega)⟩
        have exactly : (UInt8.ofNat scope).toNat = scope := by
          rw [UInt8.toNat_ofNat']
          omega
        refine Nat.lt_of_lt_of_eq (partitionBits_of_mem_broader (by omega) member).2 ?_
        exact exactly.symm

/-- The ladder goes from narrower to broader partitions. -/
theorem ladder_pairwise :
    (requestKey name rrType rrClass requester).ladder.Pairwise fun earlier later =>
      partitionBits later.ecs < partitionBits earlier.ecs := by
  unfold CacheKey.ladder
  split
  · exact List.pairwise_singleton _ _
  · rename_i own partition
    have small : own.bits.toNat ≤ 256 := Nat.le_of_lt own.bits.toNat_lt
    have ownBits : partitionBits (requestKey name rrType rrClass requester).ecs =
        own.bits.toNat := by
      rw [partition]
      rfl
    have positive : 0 < own.bits.toNat := by
      obtain ⟨ecs, _, made⟩ := Option.bind_eq_some_iff.mp partition
      exact (EcsKey.fromEcs_eq_some made).2.positive
    refine List.pairwise_cons.mpr ⟨fun later member => ?_, List.pairwise_append.mpr
      ⟨broader_pairwise small, List.pairwise_singleton _ _, fun earlier member later last => ?_⟩⟩
    · rw [ownBits]
      rcases List.mem_append.mp member with narrower | last
      · exact (partitionBits_of_mem_broader small narrower).2
      · obtain rfl := List.mem_singleton.mp last
        exact positive
    · obtain rfl := List.mem_singleton.mp last
      exact (partitionBits_of_mem_broader small member).1

/-! ## Lookups -/

variable {Score Stability Inputs : Type} [LinearOrder Score]
  {scoring : Scoring Score Stability Inputs} {cache : SemanticCache Score Stability}

open SemanticCache

/-- The keys before one rung of the ladder are narrower, those after it broader. -/
theorem ladder_split {before after : List CacheKey} {key : CacheKey}
    (split : (requestKey name rrType rrClass requester).ladder = before ++ key :: after)
    {other : CacheKey} (member : other ∈ (requestKey name rrType rrClass requester).ladder) :
    other ∈ before ↔ partitionBits key.ecs < partitionBits other.ecs := by
  have sorted := @ladder_pairwise name rrType rrClass requester
  rw [split] at sorted member
  obtain ⟨_, tail, apart⟩ := List.pairwise_append.mp sorted
  constructor
  · intro earlier
    exact apart other earlier key List.mem_cons_self
  · intro longer
    rcases List.mem_append.mp member with earlier | later
    · exact earlier
    · rcases List.mem_cons.mp later with rfl | later
      · exact absurd longer (Nat.lt_irrefl _)
      · exact absurd longer (Nat.not_lt.mpr (Nat.le_of_lt ((List.pairwise_cons.mp tail).1 other later)))

/-- The lookup returned an entry, fresh or stale. -/
def LookupOutcome.Served (outcome : LookupOutcome Score Stability)
    (hit : CacheEntry Score Stability) : Prop :=
  outcome = .fresh hit ∨ outcome = .stale hit

/-- What a lookup returns stood on the ladder of its key, and no narrower rung
was servable. -/
theorem SemanticCache.Consistent.lookup_served {key : CacheKey} {now : Ts}
    {hit : CacheEntry Score Stability} (consistent : cache.Consistent scoring)
    (served : (cache.lookup scoring key now).1.Served hit) :
    ∃ before rung after tier entry, key.ladder = before ++ rung :: after ∧
      (∀ earlier ∈ before, ¬ cache.Servable earlier now) ∧
      (cache.tierMap tier).get? rung = some entry ∧ entry.SameData hit := by
  rcases consistent.lookup_cases key now with
    found | ⟨_, _, _, _, _, _, _, _, aliased⟩ | ⟨_, _, negative⟩ | missing
  · obtain ⟨before, rung, after, tier, entry, split, none, stored, hitOn⟩ :=
      probeAll_exact_some found
    refine ⟨before, rung, after, tier, entry, split, none, stored, ?_⟩
    generalize (cache.lookup scoring key now).1 = outcome at hitOn served
    cases hitOn with
    | fresh =>
        rcases served with ⟨⟨⟩⟩ | ⟨⟨⟩⟩
        exact ⟨rfl, rfl, rfl, rfl, rfl, rfl, rfl⟩
    | stale =>
        rcases served with ⟨⟨⟩⟩ | ⟨⟨⟩⟩
        exact ⟨rfl, rfl, rfl, rfl, rfl, rfl, rfl⟩
  · rw [aliased] at served
    rcases served with ⟨⟨⟩⟩ | ⟨⟨⟩⟩
  · rw [negative] at served
    rcases served with ⟨⟨⟩⟩ | ⟨⟨⟩⟩
  · rw [missing] at served
    rcases served with ⟨⟨⟩⟩ | ⟨⟨⟩⟩

/-- A servable entry that the requester may read, with no narrower one, is
returned. -/
theorem SemanticCache.Consistent.lookup_readable {now : Ts} {tier : Tier}
    {partition : Option EcsKey} {entry : CacheEntry Score Stability}
    {outcome : LookupOutcome Score Stability} (consistent : cache.Consistent scoring)
    (canonical : ∀ ecs, partition = some ecs → ecs.Canonical)
    (readable : Readable requester partition)
    (stored : (cache.tierMap tier).get? ⟨name, rrType, rrClass, partition⟩ = some entry)
    (narrowest : ∀ narrower, Readable requester (some narrower) →
      partitionBits partition < narrower.bits.toNat →
      ¬ cache.Servable ⟨name, rrType, rrClass, some narrower⟩ now)
    (hit : HitOn scoring now cache.config.staleWindowSecs entry outcome) :
    (cache.lookup scoring (requestKey name rrType rrClass requester) now).1 = outcome := by
  have member : (⟨name, rrType, rrClass, partition⟩ : CacheKey) ∈
      (requestKey name rrType rrClass requester).ladder :=
    mem_ladder_iff.mpr ⟨partition, rfl, readable, canonical⟩
  obtain ⟨before, after, split⟩ := List.append_of_mem member
  have unservable : ∀ earlier ∈ before, ¬ cache.Servable earlier now := by
    intro earlier first
    have onLadder : earlier ∈ (requestKey name rrType rrClass requester).ladder := by
      rw [split]
      exact List.mem_append_left _ first
    have longer := (ladder_split split onLadder).mp first
    obtain ⟨other, rfl, readableOther, _⟩ := mem_ladder_iff.mp onLadder
    cases other with
    | none => exact absurd longer (Nat.not_lt_zero _)
    | some narrower => exact narrowest narrower readableOther longer
  have found := consistent.probeAll_exact_eq after unservable stored hit
  rw [← split, ← walkPartitions_eq_probeAll] at found
  unfold lookup
  split
  · rename_i first rest walked
    rw [walked] at found
    exact Option.some.inj found
  · rename_i rest walked
    rw [walked] at found
    cases found

/-- ECS partitions in every reachable cache. A fresh entry of an answer's
partition, with none narrower in the requester's reach, is returned exactly to
those who may read the partition; a requester without ECS is only ever served
from the global partition; and what is served is the narrowest partition that has
anything to serve. -/
theorem ecs_partition_lookup (scoring : Scoring Score Stability Inputs)
    (config : CacheConfig Score) {cache : SemanticCache Score Stability}
    (reached : CacheOp.Reachable scoring config cache) (name : Name) (rrType : RrType)
    (rrClass : RrClass) (writer reader : Option Ecs) (scope : Option UInt8) (now : Ts) :
    (∀ tier entry,
      (cache.tierMap tier).get? ⟨name, rrType, rrClass,
        answerPartition (writer.bind EcsKey.fromEcs) scope⟩ = some entry →
      entry.isFresh now = true →
      (∀ narrower, Readable reader (some narrower) →
        partitionBits (answerPartition (writer.bind EcsKey.fromEcs) scope) <
          narrower.bits.toNat →
        cache.Absent ⟨name, rrType, rrClass, some narrower⟩) →
      ((∃ hit, (cache.lookup scoring (requestKey name rrType rrClass reader) now).1 = .fresh hit ∧
          entry.SameData hit) ↔
        Readable reader (answerPartition (writer.bind EcsKey.fromEcs) scope))) ∧
    (reader.bind EcsKey.fromEcs = none →
      (∀ hit, (cache.lookup scoring (requestKey name rrType rrClass reader) now).1.Served hit →
        hit.key = ⟨name, rrType, rrClass, none⟩) ∧
      ∀ target ttlSecs expires validated,
        (cache.lookup scoring (requestKey name rrType rrClass reader) now).1 =
          .cname target ttlSecs expires validated →
        ∃ tier entry, (cache.tierMap tier).get? ⟨name, .CNAME, rrClass, none⟩ = some entry ∧
          AliasOn now entry (.cname target ttlSecs expires validated)) ∧
    ∀ hit, (cache.lookup scoring (requestKey name rrType rrClass reader) now).1.Served hit →
      ∀ (other : Option Ecs) (otherScope : Option UInt8),
        Readable reader (answerPartition (other.bind EcsKey.fromEcs) otherScope) →
        partitionBits hit.key.ecs <
          partitionBits (answerPartition (other.bind EcsKey.fromEcs) otherScope) →
        ¬ cache.Servable ⟨name, rrType, rrClass,
          answerPartition (other.bind EcsKey.fromEcs) otherScope⟩ now := by
  have consistent := reached.consistent
  have onLadder : ∀ hit,
      (cache.lookup scoring (requestKey name rrType rrClass reader) now).1.Served hit →
      hit.key ∈ (requestKey name rrType rrClass reader).ladder := by
    intro hit served
    obtain ⟨before, rung, after, tier, entry, split, _, stored, same⟩ :=
      consistent.lookup_served served
    have keyed : entry.key = rung := (consistent.indexed tier).keyed stored
    rw [← same.key, keyed, split]
    exact List.mem_append_right _ List.mem_cons_self
  refine ⟨fun tier entry stored fresh narrowest => ⟨?_, fun readable => ?_⟩,
    fun unusable => ⟨fun hit served => ?_, fun target ttlSecs expires validated aliased => ?_⟩,
    fun hit served other otherScope readable longer => ?_⟩
  · rintro ⟨hit, found, same⟩
    have keyed : entry.key = _ := (consistent.indexed tier).keyed stored
    obtain ⟨partition, key, readable, _⟩ := mem_ladder_iff.mp (onLadder hit (.inl found))
    rw [← same.key, keyed] at key
    obtain rfl := (CacheKey.mk.inj key).2.2.2
    exact readable
  · refine ⟨_, consistent.lookup_readable (fun _ => answerPartition_canonical) readable stored ?_
      (.fresh fresh), rfl, rfl, rfl, rfl, rfl, rfl, rfl⟩
    rintro narrower reads longer ⟨source, held, present, _⟩
    rw [narrowest narrower reads longer source] at present
    cases present
  · obtain ⟨partition, key, readable, canonical⟩ := mem_ladder_iff.mp (onLadder hit served)
    rw [key]
    cases partition with
    | none => rfl
    | some ecs => exact absurd readable (not_readable_of_fromEcs_none (canonical ecs rfl) unusable)
  · rcases consistent.lookup_cases (requestKey name rrType rrClass reader) now with
      found | ⟨rung, member, tier, entry, stored, onEntry⟩ | ⟨_, _, negative⟩ | missing
    · obtain ⟨_, _, _, _, _, _, _, _, hitOn⟩ := probeAll_exact_some found
      rw [aliased] at hitOn
      cases hitOn
    · obtain ⟨partition, rfl, readable, canonical⟩ :=
        (@mem_ladder_iff name .CNAME rrClass reader rung).mp member
      cases partition with
      | none => exact ⟨tier, entry, stored, aliased ▸ onEntry⟩
      | some ecs =>
          exact absurd readable (not_readable_of_fromEcs_none (canonical ecs rfl) unusable)
    · rw [aliased] at negative
      cases negative
    · rw [aliased] at missing
      cases missing
  · obtain ⟨before, rung, after, tier, entry, split, unservable, stored, same⟩ :=
      consistent.lookup_served served
    have keyed : entry.key = rung := (consistent.indexed tier).keyed stored
    rw [← same.key, keyed] at longer
    refine unservable _ ((ladder_split split ?_).mpr longer)
    exact mem_ladder_iff.mpr ⟨_, rfl, readable, fun _ => answerPartition_canonical⟩

/-- One answer for a `/20`, given to a client that asked with a `/24`. -/
def scopedInsert : CacheOp Nat Unit Unit :=
  .insertNegative ⟨.root, .A, .IN, answerPartition (EcsKey.fromEcs ⟨1, 24, 0, [192, 0, 2]⟩)
    (some 20)⟩ .NOERROR none 300 0 ()

/-- A client of the same `/20` reads the answer. -/
theorem ecs_partition_lookup_slash20 :
    ∃ hit, ((CacheOp.run ttlScoring (smallConfig 1) [scopedInsert]).lookup ttlScoring
      (requestKey .root .A .IN (some ⟨1, 20, 0, [192, 0, 0]⟩)) 1).1 = .fresh hit ∧
      hit.key.ecs = some ⟨1, 20, [192, 0, 0]⟩ := by
  have fresh : (((CacheOp.run ttlScoring (smallConfig 1) [scopedInsert]).tierMap .hot).get?
      ⟨.root, .A, .IN, answerPartition (EcsKey.fromEcs ⟨1, 24, 0, [192, 0, 2]⟩) (some 20)⟩).map
      (fun entry => (entry.isFresh 1, entry.key.ecs)) = some (true, some ⟨1, 20, [192, 0, 0]⟩) := by
    decide
  obtain ⟨entry, stored, fresh⟩ := Option.map_eq_some_iff.mp fresh
  obtain ⟨fresh, partition⟩ := Prod.mk.inj fresh
  have reached : CacheOp.Reachable ttlScoring (smallConfig 1)
      (CacheOp.run ttlScoring (smallConfig 1) [scopedInsert]) :=
    .step scopedInsert .new trivial
  have exactly := ecs_partition_lookup ttlScoring (smallConfig 1) reached .root .A .IN
    (some ⟨1, 24, 0, [192, 0, 2]⟩) (some ⟨1, 20, 0, [192, 0, 0]⟩) (some 20) 1
  have readable : Readable (some ⟨1, 20, 0, [192, 0, 0]⟩) (some ⟨1, 20, [192, 0, 0]⟩) :=
    ⟨_, rfl, by decide⟩
  obtain ⟨hit, found, same⟩ := (exactly.1 .hot entry stored fresh (by
    rintro narrower ⟨_, ⟨⟩, _, within, _⟩ longer
    exact absurd (UInt8.le_iff_toNat_le.mp within) (Nat.not_le.mpr longer))).mpr readable
  exact ⟨hit, found, same.key ▸ partition⟩

end RecurseX
