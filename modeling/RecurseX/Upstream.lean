import RecurseX.Rendezvous
import RecurseX.Resolver.Basic

/-!
# Adaptive upstream selection

Candidates are ranked by what a resolution over them is expected to cost. Those whose
cost is about that of the cheapest are then permuted by a keyed lottery. Costs are of any
linear order: how a path's model gives one is a parameter.
-/

namespace RecurseX

open RecurseX.Library

/-- The words of a SipHash computation. -/
structure SipState where
  v0 : UInt64
  v1 : UInt64
  v2 : UInt64
  v3 : UInt64

/-- Rotation to the left. -/
def rotl (x b : UInt64) : UInt64 := (x <<< b) ||| (x >>> (64 - b))

/-- One SipHash round. -/
def sipRound (v : SipState) : SipState :=
  let v0 := v.v0 + v.v1
  let v1 := rotl v.v1 13 ^^^ v0
  let v0 := rotl v0 32
  let v2 := v.v2 + v.v3
  let v3 := rotl v.v3 16 ^^^ v2
  let v0 := v0 + v3
  let v3 := rotl v3 21 ^^^ v0
  let v2 := v2 + v1
  let v1 := rotl v1 17 ^^^ v2
  let v2 := rotl v2 32
  ⟨v0, v1, v2, v3⟩

/-- Two rounds around a word of the input. -/
def sipBlock (v : SipState) (m : UInt64) : SipState :=
  let mixed := sipRound (sipRound { v with v3 := v.v3 ^^^ m })
  { mixed with v0 := mixed.v0 ^^^ m }

/-- At most eight octets as a word, the lowest first. -/
def littleEndian (octets : Bytes) : UInt64 :=
  octets.foldr (fun octet word => word <<< 8 ||| octet.toUInt64) 0

/-- The blocks of eight octets, and the octets that are left. -/
def sipBlocks (v : SipState) : Bytes → SipState × Bytes
  | a :: b :: c :: d :: e :: f :: g :: h :: rest =>
      sipBlocks (sipBlock v (littleEndian [a, b, c, d, e, f, g, h])) rest
  | remainder => (v, remainder)

/-- SipHash-2-4 of `input` under the key `(k0, k1)`. -/
def siphash24 (k0 k1 : UInt64) (input : Bytes) : UInt64 :=
  let start : SipState :=
    ⟨k0 ^^^ 0x736f6d6570736575, k1 ^^^ 0x646f72616e646f6d,
      k0 ^^^ 0x6c7967656e657261, k1 ^^^ 0x7465646279746573⟩
  let (v, remainder) := sipBlocks start input
  let last := (UInt64.ofNat input.length <<< 56) ||| littleEndian remainder
  let v := sipBlock v last
  let v := sipRound (sipRound (sipRound (sipRound { v with v2 := v.v2 ^^^ 0xff })))
  v.v0 ^^^ v.v1 ^^^ v.v2 ^^^ v.v3

-- A reference vector of the source's tests.
example : siphash24 0x0706050403020100 0x0f0e0d0c0b0a0908 [48, 49, 50, 51, 52, 53, 54, 55, 56, 57] =
    0x266fb4ed0635fd04 := by decide

/-- The number of a transport in the order of their declaration. -/
def Proto.code : Proto → UInt8
  | udp => 0
  | tcp => 1
  | tls => 2
  | doH => 3
  | doH3 => 4
  | doQ => 5

/-- A stable identifier of an endpoint, from its content. -/
def Endpoint.affinityId (self : Endpoint) : UInt64 :=
  let address : Bytes := match self.ip with
    | .v4 octets => octets.val
    | .v6 octets => octets.val
  let buf := self.proto.code :: (self.port >>> 8).toUInt8 :: self.port.toUInt8 :: address
  siphash24 0x9e3779b97f4a7c15 0xbf58476d1ce4e5b9 buf

/-- What costs are computed with: what a measured path is expected to cost under a retransmission
budget, what is assumed of an unmeasured one, the highest cost inside the band of the cheapest,
and the weight of a cost in the lottery. -/
structure CostModel (P C W : Type) where
  expectedCostMs : P → UInt32 → C
  assumedCostMs : Proto → C
  limit : C → C
  weight : C → C → W

/-- The models of the paths that were used. -/
structure UpstreamSelector (P : Type) where
  paths : Endpoint → Option P

namespace UpstreamSelector

variable {P C W S : Type} [LinearOrder C] [LinearOrder S]

/-- Candidates sorted by expected cost, cheapest first. -/
def sortByCost (costs : CostModel P C W) (self : UpstreamSelector P) (candidates : List Endpoint)
    (retransmitBudget : UInt32) : List (Endpoint × C) :=
  sortAscending Prod.snd <| candidates.map fun ep =>
    match self.paths ep with
    | some path => (ep, costs.expectedCostMs path retransmitBudget)
    | none => (ep, costs.assumedCostMs ep.proto)

/-- How many different identifiers there are. -/
def distinct (ids : List UInt64) : Nat :=
  (ids.mergeSort fun left right => left ≤ right).eraseReps.length

/-- Candidates ranked by expected cost, with a band of near-equal ones permuted by a keyed
lottery. -/
def rankWithAffinity (costs : CostModel P C W) (score : UInt64 → W → S) (self : UpstreamSelector P)
    (candidates : List Endpoint) (retransmitBudget : UInt32) : List (Endpoint × C) :=
  let ranked := self.sortByCost costs candidates retransmitBudget
  if ranked.length < 2 then ranked
  else
    match ranked.head? with
    | none => ranked
    | some (_, minCost) =>
        let inBand := (ranked.takeWhile fun pair => pair.2 ≤ costs.limit minCost).length
        if inBand < 2 then ranked
        else
          let head := ranked.take inBand
          let items := head.map fun pair => (pair.1.affinityId, costs.weight minCost pair.2)
          -- Two servers of one identifier would share a place in the lottery.
          if distinct (items.map Prod.fst) ≠ items.length then ranked
          else
            let out := (Rendezvous.rank score items).filterMap fun idx => head[idx]?
            out ++ ranked.drop inBand

/-- Whether the lottery would permute anything for these candidates. -/
def affinityApplies (costs : CostModel P C W) (self : UpstreamSelector P)
    (candidates : List Endpoint) (retransmitBudget : UInt32) : Bool :=
  let ranked := self.sortByCost costs candidates retransmitBudget
  if ranked.length < 2 then false
  else
    match ranked.head? with
    | none => false
    | some (_, minCost) =>
        let inBand := (ranked.takeWhile fun pair => pair.2 ≤ costs.limit minCost).length
        if inBand < 2 then false
        else distinct ((ranked.take inBand).map fun pair => pair.1.affinityId) = inBand

variable {costs : CostModel P C W} {score : UInt64 → W → S} {self : UpstreamSelector P}
  {candidates : List Endpoint} {retransmitBudget : UInt32}

omit [LinearOrder C] in
theorem filterMap_range (items : List (Endpoint × C)) :
    (List.range items.length).filterMap (fun idx => items[idx]?) = items := by
  induction items using List.reverseRecOn with
  | nil => rfl
  | append_singleton items last inductionHypothesis =>
      have earlier : (List.range items.length).filterMap (fun idx => (items ++ [last])[idx]?) =
          (List.range items.length).filterMap fun idx => items[idx]? :=
        List.filterMap_congr fun idx inside =>
          List.getElem?_append_left (List.mem_range.mp inside)
      rw [List.length_append, List.length_singleton, List.range_succ, List.filterMap_append,
        earlier, inductionHypothesis]
      simp

omit [LinearOrder C] in
/-- A ranking permutes the items whose indices it has. -/
theorem filterMap_rank_perm {items : List (UInt64 × W)} {head : List (Endpoint × C)}
    (same : items.length = head.length) :
    ((Rendezvous.rank score items).filterMap fun idx => head[idx]?).Perm head := by
  have permuted := (Rendezvous.rank_perm score items).filterMap fun idx => head[idx]?
  rwa [same, filterMap_range] at permuted

theorem sortByCost_pairwise (costs : CostModel P C W) (self : UpstreamSelector P)
    (candidates : List Endpoint) (retransmitBudget : UInt32) :
    (self.sortByCost costs candidates retransmitBudget).Pairwise fun left right => left.2 ≤ right.2 :=
  sortAscending_pairwise Prod.snd _

/-- What the lottery does: the servers of the band change places, the others stay. -/
def Permutes (limit : C) (ranked out : List (Endpoint × C)) : Prop :=
  ∃ head reordered tail, ranked = head ++ tail ∧ out = reordered ++ tail ∧
    reordered.Perm head ∧ (∀ pair ∈ head, pair.2 ≤ limit) ∧ ∀ pair ∈ tail, limit < pair.2

/-- A sorted list is cut where the band ends. -/
theorem takeWhile_band (limit : C) {ranked : List (Endpoint × C)}
    (ascending : ranked.Pairwise fun left right => left.2 ≤ right.2) :
    (∀ pair ∈ ranked.takeWhile fun pair => pair.2 ≤ limit, pair.2 ≤ limit) ∧
      ∀ pair ∈ ranked.dropWhile fun pair => pair.2 ≤ limit, limit < pair.2 := by
  induction ranked with
  | nil => simp
  | cons first rest inductionHypothesis =>
      obtain ⟨least, ascending⟩ := List.pairwise_cons.mp ascending
      obtain ⟨inside, outside⟩ := inductionHypothesis ascending
      by_cases within : first.2 ≤ limit
      · rw [List.takeWhile_cons_of_pos (by simpa using within),
          List.dropWhile_cons_of_pos (by simpa using within), List.forall_mem_cons]
        exact ⟨⟨within, inside⟩, outside⟩
      · rw [List.takeWhile_cons_of_neg (by simpa using within),
          List.dropWhile_cons_of_neg (by simpa using within), List.forall_mem_cons]
        have beyond := not_le.mp within
        exact ⟨by simp, beyond, fun pair later => beyond.trans_le (least pair later)⟩

omit [LinearOrder C] in
theorem take_length_takeWhile (inside : Endpoint × C → Bool) (ranked : List (Endpoint × C)) :
    ranked.take (ranked.takeWhile inside).length = ranked.takeWhile inside :=
  (List.prefix_iff_eq_take.mp (List.takeWhile_prefix _)).symm

omit [LinearOrder C] in
theorem drop_length_takeWhile (inside : Endpoint × C → Bool) (ranked : List (Endpoint × C)) :
    ranked.drop (ranked.takeWhile inside).length = ranked.dropWhile inside := by
  calc ranked.drop (ranked.takeWhile inside).length
      = (ranked.takeWhile inside ++ ranked.dropWhile inside).drop
          (ranked.takeWhile inside).length := by rw [List.takeWhile_append_dropWhile]
    _ = ranked.dropWhile inside := List.drop_left

theorem Permutes.refl {limit : C} {ranked : List (Endpoint × C)}
    (ascending : ranked.Pairwise fun left right => left.2 ≤ right.2) :
    Permutes limit ranked ranked := by
  obtain ⟨inside, outside⟩ := takeWhile_band limit ascending
  exact ⟨_, _, _, List.takeWhile_append_dropWhile.symm, List.takeWhile_append_dropWhile.symm,
    .refl _, inside, outside⟩

namespace Permutes

variable {limit : C} {ranked out : List (Endpoint × C)}

theorem perm (permutes : Permutes limit ranked out) : out.Perm ranked := by
  obtain ⟨head, reordered, tail, rfl, rfl, same, -⟩ := permutes
  exact same.append_right tail

/-- No server outside the band stands ahead of one inside it. -/
theorem pairwise (permutes : Permutes limit ranked out) :
    out.Pairwise fun left right => right.2 ≤ limit → left.2 ≤ limit := by
  obtain ⟨head, reordered, tail, rfl, rfl, same, inside, outside⟩ := permutes
  rw [List.pairwise_append]
  refine ⟨?_, ?_, ?_⟩
  · refine List.pairwise_of_forall_mem_list fun left listed right _ _ => ?_
    exact inside left (same.mem_iff.mp listed)
  · refine List.pairwise_of_forall_mem_list fun left _ right listed within => ?_
    exact absurd within (not_le.mpr (outside right listed))
  · intro left listed right _ _
    exact inside left (same.mem_iff.mp listed)

/-- The servers outside the band keep their order. -/
theorem filter (permutes : Permutes limit ranked out) :
    out.filter (fun pair => limit < pair.2) = ranked.filter fun pair => limit < pair.2 := by
  obtain ⟨head, reordered, tail, rfl, rfl, same, inside, -⟩ := permutes
  have none : head.filter (fun pair => limit < pair.2) = [] :=
    List.filter_eq_nil_iff.mpr fun pair listed => by simpa using inside pair listed
  have noneToo : reordered.filter (fun pair => limit < pair.2) = [] :=
    List.filter_eq_nil_iff.mpr fun pair listed => by
      simpa using inside pair (same.mem_iff.mp listed)
  rw [List.filter_append, List.filter_append, none, noneToo]

end Permutes

/-- The ranking permutes the band of the cheapest, and nothing when the lottery does not apply. -/
theorem rankWithAffinity_permutes {best : Endpoint × C} {rest : List (Endpoint × C)}
    (ranked : self.sortByCost costs candidates retransmitBudget = best :: rest) :
    Permutes (costs.limit best.2) (best :: rest)
      (self.rankWithAffinity costs score candidates retransmitBudget) := by
  have ascending := self.sortByCost_pairwise costs candidates retransmitBudget
  rw [ranked] at ascending
  obtain ⟨inside, outside⟩ := takeWhile_band (costs.limit best.2) ascending
  rw [rankWithAffinity, ranked, List.head?_cons]
  dsimp only
  split_ifs
  · exact .refl ascending
  · exact .refl ascending
  · exact .refl ascending
  · rw [take_length_takeWhile, drop_length_takeWhile]
    exact ⟨_, _, _, List.takeWhile_append_dropWhile.symm, rfl,
      filterMap_rank_perm (List.length_map ..), inside, outside⟩

/-- Where the lottery does not apply, the order of the costs stays. -/
theorem rankWithAffinity_eq (idle : self.affinityApplies costs candidates retransmitBudget = false) :
    self.rankWithAffinity costs score candidates retransmitBudget =
      self.sortByCost costs candidates retransmitBudget := by
  rw [affinityApplies] at idle
  rw [rankWithAffinity]
  cases ranked : self.sortByCost costs candidates retransmitBudget with
  | nil => rfl
  | cons best rest =>
      rw [ranked, List.head?_cons] at idle
      dsimp only at idle ⊢
      split_ifs at idle with few narrow
      · rw [List.head?_cons, if_pos few]
      · rw [List.head?_cons, if_neg few]
        exact if_pos narrow
      · rw [List.head?_cons, if_neg few]
        dsimp only
        rw [if_neg narrow, if_pos]
        rw [decide_eq_false_iff_not] at idle
        rw [List.map_map, List.length_map, take_length_takeWhile] at *
        exact idle

/-- **Affinity only reorders near-equals.** The ranking is a permutation of the order of the costs,
no server outside the band of the best one stands ahead of one inside it, those outside keep
their order, and nothing changes where the lottery does not apply. -/
theorem rankWithAffinity_reorders_near_equals (costs : CostModel P C W) (score : UInt64 → W → S)
    (self : UpstreamSelector P) (candidates : List Endpoint) (retransmitBudget : UInt32) :
    let ranked := self.sortByCost costs candidates retransmitBudget
    let out := self.rankWithAffinity costs score candidates retransmitBudget
    out.Perm ranked ∧
      (∀ best ∈ ranked.head?,
        (out.Pairwise fun left right =>
          right.2 ≤ costs.limit best.2 → left.2 ≤ costs.limit best.2) ∧
        out.filter (fun pair => costs.limit best.2 < pair.2) =
          ranked.filter fun pair => costs.limit best.2 < pair.2) ∧
      (self.affinityApplies costs candidates retransmitBudget = false → out = ranked) := by
  intro ranked out
  cases sorted : self.sortByCost costs candidates retransmitBudget with
  | nil =>
      have same : out = ranked := rankWithAffinity_eq (by rw [affinityApplies, sorted]; rfl)
      refine ⟨same ▸ .refl _, fun best first => ?_, fun _ => same⟩
      rw [show ranked = [] from sorted] at first
      cases first
  | cons best rest =>
      have permutes : Permutes (costs.limit best.2) (best :: rest) out :=
        rankWithAffinity_permutes sorted
      rw [show ranked = best :: rest from sorted]
      refine ⟨permutes.perm, ?_, fun idle => (rankWithAffinity_eq idle).trans sorted⟩
      rintro first ⟨⟩
      exact ⟨permutes.pairwise, permutes.filter⟩

end UpstreamSelector

end RecurseX
