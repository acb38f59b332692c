import RecurseX.Cache.Invariant
import RecurseX.Resolver.FromCache
import RecurseX.Resolver.Response

/-!
# What an answer from the cache is worth

Three promises about answers from the cache, each decided by the chain of
lookups: that a validated answer rests on validated entries only, that its TTL
outlives none of them, and that its alias records spell out the chain that was
followed. An alias found through the partitions is where all three can break: it
is followed on the word of one entry and reported on the word of another.
-/

namespace RecurseX

open Library

variable {Score Stability Inputs : Type}

/-! ## Authenticity -/

namespace Link

/-- Every entry the link used was stored as validated. -/
def Validated : Link Score Stability → Prop
  | .direct _ entry => entry.validated = true
  | .through _ _ _ validated emitted => validated = true ∧ emitted.validated = true
  | .missing .. => False

/-- The link used something that is not validated and whose flag nobody asks for:
the NXDOMAIN store, or the alias that was followed. -/
def Overlooked : Link Score Stability → Prop
  | .direct .. => False
  | .through _ _ _ validated _ => validated = false
  | .missing .. => True

instance (link : Link Score Stability) : Decidable link.Validated :=
  match link with
  | .direct _ entry => inferInstanceAs (Decidable (entry.validated = true))
  | .through _ _ _ validated emitted =>
      inferInstanceAs (Decidable (validated = true ∧ emitted.validated = true))
  | .missing .. => inferInstanceAs (Decidable False)

instance (link : Link Score Stability) : Decidable link.Overlooked :=
  match link with
  | .direct .. => inferInstanceAs (Decidable False)
  | .through _ _ _ validated _ => inferInstanceAs (Decidable (validated = false))
  | .missing .. => inferInstanceAs (Decidable True)

theorem validated_iff (link : Link Score Stability) :
    link.Validated ↔ link.consulted = true ∧ ¬ link.Overlooked := by
  cases link with
  | direct fresh entry => simp [Validated, consulted, Overlooked]
  | through target ttlSecs expires validated emitted =>
      simp [Validated, consulted, Overlooked, and_comm]
  | missing expires soa => simp [Validated, Overlooked]

end Link

section Results

variable [LinearOrder Score]

/-- An answer from the cache is validated only on validated entries, at least one
of them, unless every flag that is asked for is set and something is overlooked. -/
theorem cached_validated_iff (scoring : Scoring Score Stability Inputs) (config : ServeConfig)
    (policy : ResolutionCachePolicy) (key : QueryKey) (now : Ts)
    (serving : Serving Score Stability) (cache after : SemanticCache Score Stability)
    (res : Resolution)
    (served : resolveFromCache scoring config policy key now serving cache = (some res, after)) :
    ∃ chain, queryChain scoring config policy key now cache = some chain ∧
      ((res.validated = true → chain ≠ [] ∧ ∀ hop ∈ chain, hop.2.Validated) ↔
        ¬ ((∀ hop ∈ chain, hop.2.consulted = true) ∧ ∃ hop ∈ chain, hop.2.Overlooked)) := by
  obtain ⟨chain, answer, chained, gathered, rfl⟩ := resolveFromCache_gathered served
  refine ⟨chain, chained, ?_⟩
  have validated : (answer.resolution key now).validated = true ↔
      ∀ hop ∈ chain, hop.2.consulted = true := by
    rw [CachedAnswer.resolution, gathered.validated, CachedAnswer.start, Bool.true_and,
      List.all_eq_true]
  have nonempty : chain ≠ [] := by
    obtain ⟨⟨link, rest, rfl⟩, _⟩ := cacheChain_linked (Prod.ext chained rfl)
    exact nofun
  rw [validated]
  constructor
  · rintro holds ⟨consulted, hop, member, overlooked⟩
    exact ((Link.validated_iff _).mp ((holds consulted).2 hop member)).2 overlooked
  · intro excluded consulted
    refine ⟨nonempty, fun hop member => (Link.validated_iff _).mpr ⟨consulted hop member, ?_⟩⟩
    exact fun overlooked => excluded ⟨consulted, hop, member, overlooked⟩

end Results

/-- A cache with room for everything below. -/
def roomyConfig : CacheConfig Nat :=
  { smallConfig 8 with hotCapacity := 8, warmCapacity := 8, nxCapacity := 8 }

/-- Ask a cache for the address of `www.com`. -/
def askWww (ecs : Option EcsKey) (now : Ts) (ops : List (CacheOp Nat Unit Unit)) :
    Option Resolution × SemanticCache Nat Unit :=
  resolveFromCache ttlScoring ⟨8, 30, 4⟩ .reuse (wwwQuery ecs) now
    ⟨fun _ _ => true, fun _ => true, fun _ => []⟩ (CacheOp.run ttlScoring roomyConfig ops)

/-- The chain of that question. -/
def wwwChain (ecs : Option EcsKey) (now : Ts) (ops : List (CacheOp Nat Unit Unit)) :
    Option (List (Name × Link Nat Unit)) :=
  queryChain ttlScoring ⟨8, 30, 4⟩ .reuse (wwwQuery ecs) now (CacheOp.run ttlScoring roomyConfig ops)

/-- Cache one record, with its TTL, in a partition. -/
def cacheRecord (record : Record) (ecs : Option EcsKey) (now : Ts) (validated : Bool) :
    CacheOp Nat Unit Unit :=
  .insertPositive ⟨record.name, record.rrType, .IN, ecs⟩
    ((RrSet.new record.name record.rrType .IN record.ttl).addRecord record) now () validated

/-- The address of a name. -/
def addressRecord (name : Name) : Record := ⟨name, .A, .IN, 3600, .a (ipv4 192 0 2 80)⟩

/-- The answer and its chain, if there is one. -/
theorem askWww_some {ecs : Option EcsKey} {now : Ts} {ops : List (CacheOp Nat Unit Unit)}
    (answered : (askWww ecs now ops).1.isSome = true) :
    ∃ res, askWww ecs now ops = (some res, (askWww ecs now ops).2) := by
  obtain ⟨res, found⟩ := Option.isSome_iff_exists.mp answered
  exact ⟨res, Prod.ext found rfl⟩

/-- A validated address is served as validated. -/
theorem validated_address_is_served :
    ∃ res chain, (askWww none 0 [cacheRecord (addressRecord (wwwQuery none).name) none 0 true]).1 =
        some res ∧
      wwwChain none 0 [cacheRecord (addressRecord (wwwQuery none).name) none 0 true] = some chain ∧
      res.validated = true ∧ chain ≠ [] ∧ ∀ hop ∈ chain, hop.2.Validated := by
  obtain ⟨res, served⟩ := @askWww_some none 0
    [cacheRecord (addressRecord (wwwQuery none).name) none 0 true] (by decide)
  obtain ⟨chain, chained, exactly⟩ := cached_validated_iff _ _ _ _ _ _ _ _ res served
  have flagged : (askWww none 0 [cacheRecord (addressRecord (wwwQuery none).name) none 0
      true]).1.map Resolution.validated = some true := by
    decide
  have clear : (wwwChain none 0 [cacheRecord (addressRecord (wwwQuery none).name) none 0
      true]).map (fun chain => decide (∃ hop ∈ chain, hop.2.Overlooked)) = some false := by
    decide
  rw [served] at flagged
  rw [wwwChain, chained] at clear
  have validated : res.validated = true := Option.some.inj flagged
  refine ⟨res, chain, by rw [served], chained, validated, exactly.mpr ?_ validated⟩
  rintro ⟨_, overlooked⟩
  exact of_decide_eq_false (Option.some.inj clear) overlooked

/-- A name of the NXDOMAIN store is reported as validated. -/
theorem nxdomain_store_is_validated :
    ∃ res chain, (askWww none 0 [.insertNxdomain (wwwQuery none).name .NXDOMAIN none 300 0]).1 =
        some res ∧
      wwwChain none 0 [.insertNxdomain (wwwQuery none).name .NXDOMAIN none 300 0] = some chain ∧
      ¬ (res.validated = true → chain ≠ [] ∧ ∀ hop ∈ chain, hop.2.Validated) := by
  obtain ⟨res, served⟩ := @askWww_some none 0
    [.insertNxdomain (wwwQuery none).name .NXDOMAIN none 300 0] (by decide)
  obtain ⟨chain, _, chained, _⟩ := resolveFromCache_gathered served
  have flagged : (askWww none 0 [.insertNxdomain (wwwQuery none).name .NXDOMAIN none 300
      0]).1.map Resolution.validated = some true := by
    decide
  have unvalidated : (wwwChain none 0 [.insertNxdomain (wwwQuery none).name .NXDOMAIN none 300
      0]).map (fun chain => decide (∀ hop ∈ chain, hop.2.Validated)) = some false := by
    decide
  rw [served] at flagged
  rw [wwwChain, chained] at unvalidated
  refine ⟨res, chain, by rw [served], chained, fun holds => ?_⟩
  exact of_decide_eq_false (Option.some.inj unvalidated) (holds (Option.some.inj flagged)).2

/-! ## Lifetimes -/

/-- The seconds left until an instant, rounded up, and at least one. -/
def secondsLeft (expires now : Ts) : Nat :=
  max 1 ((expires - now + 999999999) / 1000000000).toNat

namespace Link

/-- What the TTL of the answer must not exceed, for each entry the link used. -/
def lifetimes (staleServeTtl : UInt32) (now : Ts) : Link Score Stability → List Nat
  | .direct fresh entry =>
      [if fresh then secondsLeft entry.expires now else max 1 staleServeTtl.toNat]
  | .through _ _ expires _ emitted => [secondsLeft expires now, secondsLeft emitted.expires now]
  | .missing expires _ => [secondsLeft expires now]

end Link

theorem toNat_minTtl (left right : UInt32) :
    (min left right).toNat = min left.toNat right.toNat := by
  change (if left ≤ right then left else right).toNat = _
  split_ifs with less
  · rw [UInt32.le_iff_toNat_le] at less
    omega
  · rw [UInt32.le_iff_toNat_le] at less
    omega

/-- Some cap bounds a TTL that was capped again and again. -/
theorem foldl_capTtl_le_iff {α : Type} {cap : α → UInt32} {items : List α} {ttl : UInt32}
    {bound : Nat} :
    (items.foldl (fun ttl item => min ttl (cap item)) ttl).toNat ≤ bound ↔
      ttl.toNat ≤ bound ∨ ∃ item ∈ items, (cap item).toNat ≤ bound := by
  induction items generalizing ttl with
  | nil => simp
  | cons item items inductionHypothesis =>
      rw [List.foldl_cons, inductionHypothesis, toNat_minTtl, inf_le_iff, List.exists_mem_cons_iff,
        or_assoc]

theorem toNat_maxTtl (left right : UInt32) :
    (max left right).toNat = max left.toNat right.toNat := by
  change (if left ≤ right then right else left).toNat = _
  split_ifs with less
  · rw [UInt32.le_iff_toNat_le] at less
    omega
  · rw [UInt32.le_iff_toNat_le] at less
    omega

theorem CacheEntry.toNat_remainingTtl_le (entry : CacheEntry Score Stability) (now : Ts) :
    (max (entry.remainingTtl now) 1).toNat ≤ secondsLeft entry.expires now := by
  rw [toNat_maxTtl, secondsLeft, CacheEntry.remainingTtl]
  split_ifs with expired
  · exact le_max_left 1 _
  · have small : min ((entry.expires - now).tdiv 1000000000).toNat 0xffffffff < 2 ^ 32 := by omega
    have later : 0 ≤ entry.expires - now := Int.sub_nonneg_of_le (not_le.mp expired).le
    have floor : (entry.expires - now).tdiv 1000000000 = (entry.expires - now) / 1000000000 :=
      Int.tdiv_eq_ediv_of_nonneg later
    have one : (1 : UInt32).toNat = 1 := rfl
    rw [UInt32.toNat_ofNat_of_lt' small, floor, one]
    omega

/-- The TTL that the caps of a chain leave. -/
def chainTtl (staleServeTtl : UInt32) (now : Ts) (chain : List (Name × Link Score Stability)) :
    UInt32 :=
  chain.foldl (fun ttl hop => min ttl ((hop.2.stamp staleServeTtl now).getD 0xffffffff)) 0xffffffff

/-- The chain says nothing about the TTL: it is the NXDOMAIN store alone, or all
the caps are the largest TTL there is. -/
def Uncapped (staleServeTtl : UInt32) (now : Ts) (chain : List (Name × Link Score Stability)) :
    Prop :=
  ∀ hop ∈ chain, (hop.2.stamp staleServeTtl now).getD 0xffffffff = 0xffffffff

/-- Some entry of the chain caps the TTL within the bound. -/
def CappedWithin (staleServeTtl : UInt32) (now : Ts) (chain : List (Name × Link Score Stability))
    (bound : Nat) : Prop :=
  ∃ hop ∈ chain, ∃ stamp ∈ hop.2.stamp staleServeTtl now, stamp.toNat ≤ bound

/-- The link is an entry under the key that was asked for. -/
def Link.IsDirect : Link Score Stability → Prop
  | .direct .. => True
  | _ => False

section Capped

variable {staleServeTtl : UInt32} {now : Ts} {chain : List (Name × Link Score Stability)}
  {hop : Name × Link Score Stability} {bound : Nat}

/-- A direct entry caps the TTL itself. -/
theorem cappedWithin_of_direct (member : hop ∈ chain) (direct : hop.2.IsDirect)
    (bounded : bound ∈ hop.2.lifetimes staleServeTtl now) :
    CappedWithin staleServeTtl now chain bound := by
  cases held : hop.2 with
  | direct fresh entry =>
      refine ⟨hop, member, _, by rw [held]; exact rfl, ?_⟩
      rw [held] at bounded
      rw [List.mem_singleton.mp bounded]
      cases fresh with
      | true => exact entry.toNat_remainingTtl_le now
      | false =>
          rw [if_neg Bool.false_ne_true, if_neg Bool.false_ne_true, toNat_maxTtl, max_comm]
          exact le_rfl
  | _ =>
      rw [held] at direct
      cases direct

/-- The caps together bound the TTL exactly when one of them does. -/
theorem chainTtl_le_iff (capped : ¬ Uncapped staleServeTtl now chain) :
    (chainTtl staleServeTtl now chain).toNat ≤ bound ↔
      CappedWithin staleServeTtl now chain bound := by
  have unbounded : (0xffffffff : UInt32).toNat ≤ bound →
      CappedWithin staleServeTtl now chain bound := by
    intro large
    unfold Uncapped at capped
    push Not at capped
    obtain ⟨hop, member, stamped⟩ := capped
    cases held : hop.2.stamp staleServeTtl now with
    | none =>
        rw [held] at stamped
        exact absurd rfl stamped
    | some stamp =>
        exact ⟨hop, member, stamp, held, le_trans (Nat.le_of_lt_succ stamp.toNat_lt) large⟩
  rw [chainTtl, foldl_capTtl_le_iff]
  constructor
  · rintro (large | ⟨hop, member, within⟩)
    · exact unbounded large
    · cases held : hop.2.stamp staleServeTtl now with
      | none =>
          rw [held] at within
          exact unbounded within
      | some stamp =>
          rw [held] at within
          exact ⟨hop, member, stamp, held, within⟩
  · rintro ⟨hop, member, stamp, held, within⟩
    refine .inr ⟨hop, member, ?_⟩
    rw [Option.mem_def.mp held]
    exact within

/-- Without a cap the TTL is never lowered. -/
theorem chainTtl_of_uncapped (uncapped : Uncapped staleServeTtl now chain) :
    chainTtl staleServeTtl now chain = 0xffffffff := by
  induction chain with
  | nil => rfl
  | cons hop chain inductionHypothesis =>
      rw [chainTtl, List.foldl_cons, uncapped hop List.mem_cons_self, min_maxTtl]
      exact inductionHypothesis fun other member => uncapped other (List.mem_cons_of_mem _ member)

/-- A cap lowers the TTL. -/
theorem chainTtl_ne (capped : ¬ Uncapped staleServeTtl now chain) :
    chainTtl staleServeTtl now chain ≠ 0xffffffff := by
  intro largest
  unfold Uncapped at capped
  push Not at capped
  obtain ⟨hop, member, stamped⟩ := capped
  have lowered : (chainTtl staleServeTtl now chain).toNat ≤
      ((hop.2.stamp staleServeTtl now).getD 0xffffffff).toNat :=
    foldl_capTtl_le_iff.mpr (.inr ⟨hop, member, le_rfl⟩)
  rw [largest] at lowered
  have top := ((hop.2.stamp staleServeTtl now).getD 0xffffffff).toNat_lt
  exact stamped (UInt32.toNat_inj.mp (le_antisymm (Nat.le_of_lt_succ top) lowered))

end Capped

section Results

variable [LinearOrder Score]

/-- The TTL of an answer from the cache, which every record of the response gets,
outlives none of the entries it used, exactly when for each alias and for the
NXDOMAIN store some entry of the chain caps it early enough. -/
theorem cached_ttl_honest_iff (scoring : Scoring Score Stability Inputs) (config : ServeConfig)
    (policy : ResolutionCachePolicy) (key : QueryKey) (now : Ts)
    (serving : Serving Score Stability) (cache after : SemanticCache Score Stability)
    (res : Resolution)
    (served : resolveFromCache scoring config policy key now serving cache = (some res, after)) :
    (∀ dnssecAnchored query, ∀ record ∈ (buildResponse dnssecAnchored query res).answers ++
        (buildResponse dnssecAnchored query res).authorities, record.ttl = res.ttl) ∧
    ∃ chain, queryChain scoring config policy key now cache = some chain ∧
      ((∀ hop ∈ chain, ∀ bound ∈ hop.2.lifetimes config.staleServeTtl now,
          res.ttl.toNat ≤ bound) ↔
        Uncapped config.staleServeTtl now chain ∨
        ∀ hop ∈ chain, ¬ hop.2.IsDirect → ∀ bound ∈ hop.2.lifetimes config.staleServeTtl now,
          CappedWithin config.staleServeTtl now chain bound) := by
  refine ⟨fun _ _ _ => buildResponse_ttl, ?_⟩
  obtain ⟨chain, answer, chained, gathered, rfl⟩ := resolveFromCache_gathered served
  refine ⟨chain, chained, ?_⟩
  have reported : answer.ttl = chainTtl config.staleServeTtl now chain := gathered.ttl
  by_cases uncapped : Uncapped config.staleServeTtl now chain
  · rw [chainTtl_of_uncapped uncapped] at reported
    have zero : (answer.resolution key now).ttl = 0 := if_pos reported
    refine iff_of_true (fun hop _ bound _ => ?_) (.inl uncapped)
    rw [zero]
    exact Nat.zero_le bound
  · have ttl : (answer.resolution key now).ttl = answer.ttl :=
      if_neg (reported ▸ chainTtl_ne uncapped)
    simp only [uncapped, false_or, ttl, reported, chainTtl_le_iff uncapped]
    constructor
    · exact fun honest hop member _ => honest hop member
    · intro capped hop member bound bounded
      by_cases direct : hop.2.IsDirect
      · exact cappedWithin_of_direct member direct bounded
      · exact capped hop member direct bound bounded

end Results

instance (link : Link Score Stability) : Decidable link.IsDirect :=
  match link with
  | .direct .. => inferInstanceAs (Decidable True)
  | .through .. => inferInstanceAs (Decidable False)
  | .missing .. => inferInstanceAs (Decidable False)

/-- The alias of `www.com` to another name, with a TTL of an hour. -/
def aliasTo (target : Name) : Record := ⟨(wwwQuery none).name, .CNAME, .IN, 3600, .cname target⟩

/-- The alias of `www.com` to `x.com`, and 50 minutes later the address. -/
def agedAlias : List (CacheOp Nat Unit Unit) :=
  [cacheRecord (aliasTo ⟨[1, 120, 3, 99, 111, 109, 0]⟩) none 0 false,
    cacheRecord (addressRecord ⟨[1, 120, 3, 99, 111, 109, 0]⟩) none (secondsToTs 3000) false]

/-- An address is served for the time it has left. -/
theorem aging_address_is_honest :
    ∃ res chain, (askWww none (secondsToTs 600)
        [cacheRecord (addressRecord (wwwQuery none).name) none 0 true]).1 = some res ∧
      wwwChain none (secondsToTs 600)
        [cacheRecord (addressRecord (wwwQuery none).name) none 0 true] = some chain ∧
      res.ttl = 3000 ∧
      ∀ hop ∈ chain, ∀ bound ∈ hop.2.lifetimes 30 (secondsToTs 600), res.ttl.toNat ≤ bound := by
  obtain ⟨res, served⟩ := @askWww_some none (secondsToTs 600)
    [cacheRecord (addressRecord (wwwQuery none).name) none 0 true] (by decide)
  obtain ⟨_, chain, chained, exactly⟩ := cached_ttl_honest_iff _ _ _ _ _ _ _ _ res served
  have ttl : (askWww none (secondsToTs 600) [cacheRecord (addressRecord (wwwQuery none).name) none
      0 true]).1.map Resolution.ttl = some 3000 := by
    decide
  have direct : (wwwChain none (secondsToTs 600) [cacheRecord (addressRecord (wwwQuery none).name)
      none 0 true]).map (fun chain => decide (∀ hop ∈ chain, hop.2.IsDirect)) = some true := by
    decide
  rw [served] at ttl
  rw [wwwChain, chained] at direct
  refine ⟨res, chain, by rw [served], chained, Option.some.inj ttl, exactly.mpr (.inr ?_)⟩
  intro hop member indirect
  exact absurd (of_decide_eq_true (Option.some.inj direct) hop member) indirect

/-- An alias with ten minutes left is served for an hour. -/
theorem aged_alias_is_inflated :
    ∃ res chain, (askWww none (secondsToTs 3000) agedAlias).1 = some res ∧
      wwwChain none (secondsToTs 3000) agedAlias = some chain ∧ res.ttl = 3600 ∧
      ¬ ∀ hop ∈ chain, ∀ bound ∈ hop.2.lifetimes 30 (secondsToTs 3000), res.ttl.toNat ≤ bound := by
  obtain ⟨res, served⟩ := @askWww_some none (secondsToTs 3000) agedAlias (by decide)
  obtain ⟨chain, _, chained, _⟩ := resolveFromCache_gathered served
  have ttl : (askWww none (secondsToTs 3000) agedAlias).1.map Resolution.ttl = some 3600 := by
    decide
  have outlived : (wwwChain none (secondsToTs 3000) agedAlias).map (fun chain => decide
      (∀ hop ∈ chain, ∀ bound ∈ hop.2.lifetimes 30 (secondsToTs 3000), 3600 ≤ bound)) =
      some false := by
    decide
  rw [served] at ttl
  rw [wwwChain, chained] at outlived
  obtain reported : res.ttl = 3600 := Option.some.inj ttl
  refine ⟨res, chain, by rw [served], chained, reported, ?_⟩
  rw [reported]
  exact of_decide_eq_false (Option.some.inj outlived)

/-! ## Coherence -/

/-- The alias record a hop contributes is the one whose target is looked up next. -/
def Coherent (rrType : RrType) (chain : List (Name × Link Score Stability)) : Prop :=
  chain.IsChain fun hop following =>
    ∃ record, hop.2.emits rrType = [record] ∧ record.rdata = .cname following.1

/-- The first record of the set is an alias to the target. -/
def RrSet.StartsWithAlias (rrset : RrSet) (target : Name) : Prop :=
  ∃ record, rrset.records.head? = some record ∧ record.rdata = .cname target

/-- The two readings of an alias agree: an alias set starts with its alias, and the
entry under the plain key starts with the alias that was followed. -/
def Link.Agrees (rrType : RrType) : Link Score Stability → Prop
  | .direct _ entry => ∀ rrset, entry.kind = .positive rrset →
      entry.kind.redirects rrType = true → ∃ target, rrset.StartsWithAlias target
  | .through target _ _ _ emitted =>
      ∃ rrset, emitted.kind = .positive rrset ∧ rrset.StartsWithAlias target
  | .missing .. => True

theorem RrSet.StartsWithAlias.cnameTarget {rrset : RrSet} {target : Name}
    (starts : rrset.StartsWithAlias target) : rrset.cnameTarget = some target := by
  obtain ⟨record, first, aliases⟩ := starts
  rw [RrSet.cnameTarget]
  cases listed : rrset.records with
  | nil =>
      rw [listed] at first
      cases first
  | cons head rest =>
      rw [listed] at first
      obtain rfl := Option.some.inj first
      rw [List.findSome?_cons, aliases]

/-- The first record of a set, as a list, is an alias exactly when the set starts
with it. -/
theorem RrSet.startsWithAlias_iff {rrset : RrSet} {target : Name} :
    (∃ record, rrset.records.head?.toList = [record] ∧ record.rdata = .cname target) ↔
      rrset.StartsWithAlias target := by
  refine exists_congr fun record => and_congr_left fun _ => ?_
  exact Option.toList_eq_singleton_iff

/-- A link that leads on contributes the record it was followed by exactly when its
two readings agree. -/
theorem Link.agrees_iff {rrType : RrType} {link : Link Score Stability} {target : Name}
    (follows : link.next rrType = some target) :
    (∃ record, link.emits rrType = [record] ∧ record.rdata = .cname target) ↔
      link.Agrees rrType := by
  cases link with
  | direct fresh entry =>
      rw [Link.next] at follows
      split at follows
      · rename_i redirects
        cases held : entry.kind with
        | negative rcode soa ttlSecs =>
            rw [held] at redirects
            cases redirects
        | positive rrset =>
            have emits : (Link.direct fresh entry).emits rrType = rrset.records.head?.toList := by
              simp only [Link.emits, redirects]
              simp [held]
            rw [emits, RrSet.startsWithAlias_iff]
            constructor
            · intro starts other same _
              obtain rfl := EntryKind.positive.inj (held.symm.trans same)
              exact ⟨target, starts⟩
            · intro agrees
              obtain ⟨first, starts⟩ := agrees rrset held redirects
              rw [CacheEntry.cnameTarget, held] at follows
              obtain rfl := Option.some.inj (starts.cnameTarget.symm.trans follows)
              exact starts
      · cases follows
  | through other ttlSecs expires validated emitted =>
      obtain rfl := Option.some.inj follows
      rw [Link.Agrees]
      cases held : emitted.kind with
      | negative rcode soa ttlSecs => simp [Link.emits, held]
      | positive rrset =>
          have emits : (Link.through other ttlSecs expires validated emitted).emits rrType =
              rrset.records.head?.toList := by
            simp [Link.emits, held]
          rw [emits, RrSet.startsWithAlias_iff]
          simp
  | missing expires soa => cases follows

/-- A chain that leads from each name to the next is coherent exactly when the
readings of each of its aliases agree. -/
theorem coherent_iff {rrType : RrType} {chain : List (Name × Link Score Stability)}
    (linked : chain.IsChain fun hop following => hop.2.next rrType = some following.1)
    (ends : ∀ hop ∈ chain.getLast?, hop.2.next rrType = none) :
    Coherent rrType chain ↔
      ∀ hop ∈ chain, (hop.2.next rrType).isSome = true → hop.2.Agrees rrType := by
  induction chain with
  | nil => simp [Coherent]
  | cons hop chain inductionHypothesis =>
      cases chain with
      | nil =>
          have last : hop.2.next rrType = none := ends hop rfl
          simp [Coherent, last]
      | cons following chain =>
          obtain ⟨follows, linked⟩ := List.isChain_cons_cons.mp linked
          rw [List.getLast?_cons_cons] at ends
          have rest := inductionHypothesis linked ends
          unfold Coherent at rest ⊢
          rw [List.isChain_cons_cons, rest, Link.agrees_iff follows,
            List.forall_mem_cons (l := following :: chain), follows]
          simp

section Results

variable [LinearOrder Score]

/-- The alias records of an answer from the cache spell out the chain that was
followed exactly when both readings of every alias agree. -/
theorem cached_chain_coherent_iff (scoring : Scoring Score Stability Inputs)
    (config : ServeConfig) (policy : ResolutionCachePolicy) (key : QueryKey) (now : Ts)
    (serving : Serving Score Stability) (cache after : SemanticCache Score Stability)
    (res : Resolution)
    (served : resolveFromCache scoring config policy key now serving cache = (some res, after)) :
    ∃ chain, queryChain scoring config policy key now cache = some chain ∧
      res.answers.map Sourced.record = chain.flatMap (fun hop => hop.2.emits key.rrType) ∧
      (Coherent key.rrType chain ↔
        ∀ hop ∈ chain, (hop.2.next key.rrType).isSome = true → hop.2.Agrees key.rrType) := by
  obtain ⟨chain, answer, chained, gathered, rfl⟩ := resolveFromCache_gathered served
  obtain ⟨_, linked, ends⟩ := cacheChain_linked (Prod.ext chained rfl)
  exact ⟨chain, chained, gathered.answers, coherent_iff linked ends⟩

end Results

/-- What the hops of a chain are about and contribute. -/
def spelled (chain : List (Name × Link Nat Unit)) : List (Name × List RData) :=
  chain.map fun hop => (hop.1, (hop.2.emits .A).map Record.rdata)

/-- A client in a `/24`. -/
def subnetClient : EcsKey := ⟨1, 24, [192, 0, 2]⟩

/-- Two hops are coherent exactly when the first contributes the alias to the
second. -/
theorem coherent_of_spelled {chain : List (Name × Link Nat Unit)} {first second : Name}
    {payloads last : List RData} (spells : spelled chain = [(first, payloads), (second, last)]) :
    Coherent .A chain ↔ payloads = [.cname second] := by
  obtain ⟨hop, rest, rfl, about, spells⟩ := List.map_eq_cons_iff.mp spells
  obtain ⟨following, rest, rfl, next, spells⟩ := List.map_eq_cons_iff.mp spells
  obtain rfl := List.map_eq_nil_iff.mp spells
  obtain ⟨-, rfl⟩ := Prod.mk.inj about
  obtain ⟨rfl, -⟩ := Prod.mk.inj next
  simp [Coherent, List.map_eq_singleton_iff]

/-- One alias for everybody is reported as it is followed. -/
theorem shared_alias_is_coherent :
    ∃ res chain, (askWww (some subnetClient) (secondsToTs 3000) agedAlias).1 = some res ∧
      wwwChain (some subnetClient) (secondsToTs 3000) agedAlias = some chain ∧
      res.answers.map Sourced.record = chain.flatMap (fun hop => hop.2.emits .A) ∧
      Coherent .A chain ∧ ∀ hop ∈ chain, (hop.2.next .A).isSome = true → hop.2.Agrees .A := by
  obtain ⟨res, served⟩ := @askWww_some (some subnetClient) (secondsToTs 3000) agedAlias
    (by decide)
  obtain ⟨chain, chained, emitted, exactly⟩ := cached_chain_coherent_iff _ _ _ _ _ _ _ _ res served
  have spells : (wwwChain (some subnetClient) (secondsToTs 3000) agedAlias).map spelled =
      some [((wwwQuery none).name, [.cname ⟨[1, 120, 3, 99, 111, 109, 0]⟩]),
        (⟨[1, 120, 3, 99, 111, 109, 0]⟩, [.a ⟨[192, 0, 2, 80], rfl⟩])] := by
    decide
  rw [wwwChain, chained] at spells
  have coherent : Coherent .A chain := (coherent_of_spelled (Option.some.inj spells)).mpr rfl
  exact ⟨res, chain, by rw [served], chained, emitted, coherent, exactly.mp coherent⟩

/-- The subnet's alias leads to `x.com`, everybody else's to `y.com`. -/
def splitAlias : List (CacheOp Nat Unit Unit) :=
  [cacheRecord (aliasTo ⟨[1, 120, 3, 99, 111, 109, 0]⟩) (some subnetClient) 0 false,
    cacheRecord (aliasTo ⟨[1, 121, 3, 99, 111, 109, 0]⟩) none 0 false,
    cacheRecord (addressRecord ⟨[1, 120, 3, 99, 111, 109, 0]⟩) none 0 false]

/-- The subnet's alias is followed and everybody else's is reported. -/
theorem split_alias_is_incoherent :
    ∃ res chain, (askWww (some subnetClient) 0 splitAlias).1 = some res ∧
      wwwChain (some subnetClient) 0 splitAlias = some chain ∧
      res.answers.map Sourced.record = [aliasTo ⟨[1, 121, 3, 99, 111, 109, 0]⟩,
        addressRecord ⟨[1, 120, 3, 99, 111, 109, 0]⟩] ∧
      ¬ Coherent .A chain := by
  obtain ⟨res, served⟩ := @askWww_some (some subnetClient) 0 splitAlias (by decide)
  obtain ⟨chain, _, chained, _⟩ := resolveFromCache_gathered served
  have records : (askWww (some subnetClient) 0 splitAlias).1.map
      (fun res => res.answers.map Sourced.record) = some [aliasTo ⟨[1, 121, 3, 99, 111, 109, 0]⟩,
        addressRecord ⟨[1, 120, 3, 99, 111, 109, 0]⟩] := by
    decide
  have spells : (wwwChain (some subnetClient) 0 splitAlias).map spelled =
      some [((wwwQuery none).name, [.cname ⟨[1, 121, 3, 99, 111, 109, 0]⟩]),
        (⟨[1, 120, 3, 99, 111, 109, 0]⟩, [.a ⟨[192, 0, 2, 80], rfl⟩])] := by
    decide
  rw [served] at records
  rw [wwwChain, chained] at spells
  refine ⟨res, chain, by rw [served], chained, Option.some.inj records, ?_⟩
  rw [coherent_of_spelled (Option.some.inj spells)]
  decide

end RecurseX
