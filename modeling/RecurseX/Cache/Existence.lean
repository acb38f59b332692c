import RecurseX.Cache.Expiry

/-!
# Data before non-existence

The tiers and the NXDOMAIN store are separate: an insert into one leaves the
other alone, and the store has one entry per name, for all types and classes.
What keeps data in front of an older NXDOMAIN is the order of a lookup, which
comes to the store last.
-/

namespace RecurseX

open Library

/-- The keys on a ladder differ from its key in the partition only. -/
theorem CacheKey.eq_withEcs_of_mem_ladder {key rung : CacheKey} (member : rung ∈ key.ladder) :
    ∃ ecs, rung = key.withEcs ecs := by
  have scopes (own : EcsKey) (scope : Nat) (inside : rung ∈ key.broader own scope) :
      ∃ ecs, rung = key.withEcs ecs := by
    induction scope with
    | zero => cases inside
    | succ scope inductionHypothesis =>
        unfold CacheKey.broader at inside
        split_ifs at inside
        · cases inside
        · rcases List.mem_cons.mp inside with rfl | later
          · exact ⟨_, rfl⟩
          · exact inductionHypothesis later
  unfold CacheKey.ladder at member
  cases present : key.ecs with
  | none =>
      rw [present] at member
      exact ⟨key.ecs, List.mem_singleton.mp member⟩
  | some own =>
      rw [present] at member
      rcases List.mem_cons.mp member with rfl | member
      · exact ⟨rung.ecs, rfl⟩
      · rcases List.mem_append.mp member with inside | last
        · exact scopes own _ inside
        · exact ⟨none, List.mem_singleton.mp last⟩

/-- The types on a ladder are the type of its key. -/
theorem CacheKey.rrType_of_mem_ladder {key rung : CacheKey} (member : rung ∈ key.ladder) :
    rung.rrType = key.rrType := by
  obtain ⟨ecs, rfl⟩ := eq_withEcs_of_mem_ladder member
  rfl

variable {Score Stability Inputs : Type}

/-- What an NXDOMAIN outcome carries. -/
def LookupOutcome.nxDomain? : LookupOutcome Score Stability → Option (Ts × Option Record)
  | .nxDomain expires soa => some (expires, soa)
  | _ => none

theorem LookupOutcome.nxDomain?_eq_some {outcome : LookupOutcome Score Stability} {expires : Ts}
    {soa : Option Record} :
    outcome.nxDomain? = some (expires, soa) ↔ outcome = .nxDomain expires soa := by
  cases outcome <;> simp [LookupOutcome.nxDomain?]

namespace SemanticCache

variable {scoring : Scoring Score Stability Inputs} {cache : SemanticCache Score Stability}
  {key : CacheKey} {now : Ts}

/-- What an NXDOMAIN outcome rules out, and where it comes from. -/
structure Nonexistent (cache : SemanticCache Score Stability) (key : CacheKey) (now expires : Ts)
    (soa : Option Record) : Prop where
  /-- No partition the requester may read has data of the type to serve. -/
  data : ∀ rung ∈ key.ladder, ¬ cache.Servable rung now
  /-- The requester's own partition has no live alias. -/
  aliases : key.rrType ≠ .CNAME → key.rrType ≠ .ANY → ∀ tier entry,
    (cache.tierMap tier).get? (key.withType .CNAME) = some entry → entry.isFresh now = true →
    entry.cnameTarget = none
  /-- The name is in the NXDOMAIN store, and not expired. -/
  stored : ∃ negative, cache.nx[key.name]? = some negative ∧ now < negative.expires ∧
    negative.expires = expires ∧ negative.soa = soa

theorem lookupNx_eq_nxDomain {expires : Ts} {soa : Option Record}
    (found : (cache.lookupNx key now).1 = .nxDomain expires soa) :
    ∃ negative, cache.nx[key.name]? = some negative ∧ now < negative.expires ∧
      negative.expires = expires ∧ negative.soa = soa := by
  unfold lookupNx at found
  dsimp only at found
  split at found
  · rename_i negative present
    split_ifs at found with live
    · cases found
      exact ⟨negative, present, live, rfl, rfl⟩
  · cases found

variable [LinearOrder Score]

/-- A walk that misses passed no servable key, and left every other key and the
NXDOMAIN store as they were. -/
theorem probeAll_exact_missed {keys : List CacheKey}
    (missing : (probeAll (fun cache key => cache.lookupExact scoring key now) keys cache).1 =
      none) :
    (∀ probed ∈ keys, ¬ cache.Servable probed now) ∧
    (∀ other ∉ keys, ∀ tier,
      ((probeAll (fun cache key => cache.lookupExact scoring key now) keys cache).2.tierMap
        tier).get? other = (cache.tierMap tier).get? other) ∧
    (probeAll (fun cache key => cache.lookupExact scoring key now) keys cache).2.nx =
      cache.nx := by
  induction keys generalizing cache with
  | nil => exact ⟨by simp, fun _ _ _ => rfl, rfl⟩
  | cons first keys inductionHypothesis =>
      cases probed : cache.lookupExact scoring first now with
      | mk outcome after =>
          cases outcome with
          | some hit =>
              rw [probeAll_cons_some probed] at missing
              cases missing
          | none =>
              obtain ⟨missed, unservable⟩ := lookupExactIn_none (congrArg Prod.fst probed)
              have nx : (cache.lookupExact scoring first now).2.nx = cache.nx :=
                lookupExactIn_nx first now _ cache
              change Missed cache (cache.lookupExact scoring first now).2 first at missed
              rw [probed] at nx missed
              rw [probeAll_cons_none probed] at missing ⊢
              obtain ⟨rest, others, same⟩ := inductionHypothesis missing
              refine ⟨fun key member => ?_, fun other absent tier => ?_, same.trans nx⟩
              · rintro ⟨source, held, present, live⟩
                by_cases here : key = first
                · subst here
                  refine unservable source ?_ held present live
                  cases source <;> decide
                · refine rest key (List.mem_of_ne_of_mem here member) ⟨source, held, ?_, ?_⟩
                  · exact (missed.others source key here).trans present
                  · rwa [missed.config]
              · obtain ⟨different, later⟩ := not_or.mp (mt List.mem_cons.mpr absent)
                rw [others other later tier, missed.others tier other different]

/-- A live alias that no other tier shadows is found. -/
theorem lookupCnameIn_of_fresh {tier : Tier} {entry : CacheEntry Score Stability} {target : Name}
    {tiers : List Tier} (member : tier ∈ tiers)
    (stored : (cache.tierMap tier).get? key = some entry)
    (alone : ∀ other, other ≠ tier → (cache.tierMap other).get? key = none)
    (aliased : entry.cnameTarget = some target) (live : entry.isFresh now = true) :
    (lookupCnameIn scoring key now tiers cache).1 ≠ none := by
  induction tiers with
  | nil => cases member
  | cons first tiers inductionHypothesis =>
      unfold lookupCnameIn
      split
      · rename_i map removed
        obtain ⟨absent, _⟩ := get?_of_remove removed
        by_cases here : tier = first
        · subst here
          rw [stored] at absent
          cases absent
        · exact inductionHypothesis (List.mem_of_ne_of_mem here member)
      · rename_i held map removed
        obtain ⟨present, _⟩ := get?_of_remove removed
        by_cases here : first = tier
        · subst here
          obtain rfl : entry = held := Option.some.inj (stored.symm.trans present)
          simp [aliased, live]
        · rw [alone first here] at present
          cases present

theorem Consistent.walkPartitions_cname {tier : Tier} {entry : CacheEntry Score Stability}
    {target : Name} (consistent : cache.Consistent scoring)
    (stored : (cache.tierMap tier).get? key = some entry)
    (aliased : entry.cnameTarget = some target) (live : entry.isFresh now = true) :
    (walkPartitions key (fun cache key => cache.lookupCname scoring key now) cache).1 ≠ none := by
  have alone : ∀ other, other ≠ tier → (cache.tierMap other).get? key = none :=
    fun other different => consistent.elsewhere stored different
  have found : (cache.lookupCname scoring key now).1 ≠ none :=
    lookupCnameIn_of_fresh (by cases tier <;> decide) stored alone aliased live
  unfold walkPartitions
  cases probed : cache.lookupCname scoring key now with
  | mk outcome after =>
      rw [probed] at found
      cases outcome with
      | none => exact absurd rfl found
      | some hit => simp [probed]

theorem walkPartitions_cname_nx (scoring : Scoring Score Stability Inputs) (key : CacheKey)
    (now : Ts) (cache : SemanticCache Score Stability) :
    (walkPartitions key (fun cache key => cache.lookupCname scoring key now) cache).2.nx =
      cache.nx := by
  refine @walkPartitions_keeps _ _ _ (fun last => last.nx = cache.nx) _ ?_ key cache rfl
  exact fun last key same => (lookupCnameIn_nx key now _ last).trans same

theorem Consistent.walkPartitions_exact (consistent : cache.Consistent scoring) :
    (walkPartitions key (fun cache key => cache.lookupExact scoring key now) cache).2.Consistent
      scoring :=
  walkPartitions_keeps _ (fun cache key => (consistent_kept scoring).lookupExactIn key now _ cache)
    key cache consistent

/-- The store is reached only past everything a lookup prefers to it. -/
theorem Consistent.lookup_nxDomain {expires : Ts} {soa : Option Record}
    (consistent : cache.Consistent scoring)
    (found : (cache.lookup scoring key now).1 = .nxDomain expires soa) :
    Nonexistent cache key now expires soa := by
  have afterConsistent := @Consistent.walkPartitions_exact _ _ _ _ _ key now _ consistent
  unfold lookup at found
  rw [walkPartitions_eq_probeAll] at found afterConsistent
  cases walked : probeAll (fun cache key => cache.lookupExact scoring key now) key.ladder cache with
  | mk outcome after =>
      rw [walked] at found afterConsistent
      cases outcome with
      | some outcome =>
          obtain ⟨_, _, _, _, _, _, _, _, hit⟩ := probeAll_exact_some (congrArg Prod.fst walked)
          dsimp only at found
          rw [found] at hit
          cases hit
      | none =>
          obtain ⟨unservable, others, nx⟩ := probeAll_exact_missed (congrArg Prod.fst walked)
          rw [walked] at others nx
          dsimp only at found others nx
          split_ifs at found with redirects
          · have aliasNx := walkPartitions_cname_nx scoring (key.withType .CNAME) now after
            cases redirected : walkPartitions (key.withType .CNAME)
                (fun cache key => cache.lookupCname scoring key now) after with
            | mk outcome last =>
                rw [redirected] at found aliasNx
                cases outcome with
                | some outcome =>
                    rw [walkPartitions_eq_probeAll] at redirected
                    obtain ⟨_, _, _, _, _, _, _, _, aliased⟩ :=
                      probeAll_cname_some afterConsistent.indexed (congrArg Prod.fst redirected)
                    dsimp only at found
                    rw [found] at aliased
                    cases aliased
                | none =>
                    obtain ⟨negative, present, rest⟩ := lookupNx_eq_nxDomain found
                    refine ⟨unservable, fun ordinary _ tier entry stored live => ?_, negative, ?_,
                      rest⟩
                    · have off : key.withType .CNAME ∉ key.ladder := fun member =>
                        ordinary (CacheKey.rrType_of_mem_ladder member).symm
                      rw [← others _ off tier] at stored
                      by_contra aliased
                      obtain ⟨target, aliased⟩ := Option.ne_none_iff_exists'.mp aliased
                      exact afterConsistent.walkPartitions_cname stored aliased live
                        (congrArg Prod.fst redirected)
                    · rwa [← nx, ← aliasNx]
          · obtain ⟨negative, present, rest⟩ := lookupNx_eq_nxDomain found
            refine ⟨unservable, fun ordinary notAny => ?_, negative, nx ▸ present, rest⟩
            exact absurd ⟨ordinary, notAny⟩ redirects

end SemanticCache

/-- The name `a.`. -/
def oneLabel : Name := ⟨[1, 97, 0]⟩

/-- An address of `a.`. -/
def addressSet : RrSet :=
  (RrSet.new oneLabel .A .IN 300).addRecord ⟨oneLabel, .A, .IN, 300, .a ⟨[192, 0, 2, 1], rfl⟩⟩

/-- The address of `a.`, after its absence was recorded. -/
def contradictingOps : List (CacheOp Nat Unit Unit) :=
  [.insertNxdomain oneLabel .NXDOMAIN none 300 0,
    .insertPositive (.plain oneLabel .A .IN) addressSet 1 () false]

end RecurseX
