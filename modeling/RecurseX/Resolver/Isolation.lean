import RecurseX.Resolver.Bailiwick

/-!
# ECS isolation over whole resolutions

Under which partitions a resolution caches what a scoped response brought. The
delegation data of a referral is about the zone and goes to everyone; the rest
stays within the scope of its response while the response that ends the
resolution is scoped at least as narrowly.
-/

namespace RecurseX

open Library

variable {Score Stability Inputs : Type}

/-- A partition of at least `bits` bits of the network; the global partition has
no bits. -/
def PartitionOf (own : EcsKey) (bits : Nat) : Option EcsKey → Prop
  | none => bits = 0
  | some partition => bits ≤ partition.bits.toNat ∧ partition.bits ≤ own.bits ∧
      partition.family = own.family ∧ partition.addr = truncateTo own.addr partition.bits

instance (own : EcsKey) (bits : Nat) (partition : Option EcsKey) :
    Decidable (PartitionOf own bits partition) :=
  match partition with
  | none => inferInstanceAs (Decidable (bits = 0))
  | some partition => inferInstanceAs (Decidable (bits ≤ partition.bits.toNat ∧
      partition.bits ≤ own.bits ∧ partition.family = own.family ∧
      partition.addr = truncateTo own.addr partition.bits))

/-- Whoever is served from the place shares at least `bits` bits of the network.
The store of missing names serves everyone. -/
def Place.Isolated (own : EcsKey) (bits : Nat) : Place → Prop
  | .resolution => True
  | .cache key => PartitionOf own bits key.ecs
  | .nx _ => bits = 0

/-- The delegation data of a referral. -/
def Fact.isDelegation : Fact → Bool
  | .holds _ .ns => true
  | .holds _ .glue => true
  | _ => false

/-- The bits a response scopes its content to, for a requester. -/
def EcsKey.scopeBits (own : EcsKey) (scope : Option UInt8) : Nat :=
  min (scope.getD 0).toNat own.bits.toNat

theorem toNat_min (left right : UInt8) : (min left right).toNat = min left.toNat right.toNat := by
  show (if left ≤ right then left else right).toNat = _
  split_ifs with less
  · rw [UInt8.le_iff_toNat_le] at less
    omega
  · rw [UInt8.le_iff_toNat_le] at less
    omega

/-- The partition of an answer has the bits of its response's scope. -/
theorem partitionOf_answerPartition {own : EcsKey} {scope : Option UInt8} {bits : Nat}
    (within : bits ≤ own.scopeBits scope) :
    PartitionOf own bits (answerPartition (some own) scope) := by
  have effective : (min (own.effectiveScope (scope.getD 0)) own.bits).toNat =
      own.scopeBits scope := by
    rw [EcsKey.effectiveScope, toNat_min, toNat_min, EcsKey.scopeBits, min_assoc, min_self]
  rw [← effective] at within
  simp only [answerPartition, EcsKey.withScope]
  split_ifs with zero
  · rw [zero] at within
    exact Nat.le_zero.mp within
  · refine ⟨within, ?_, rfl, rfl⟩
    rw [UInt8.le_iff_toNat_le, effective]
    exact min_le_right _ _

theorem bits_eq_zero_of_shared {own : EcsKey} {scope : Option UInt8} {bits : Nat}
    (shared : answerPartition (some own) scope = none) (within : bits ≤ own.scopeBits scope) :
    bits = 0 := by
  have whole := partitionOf_answerPartition within
  rw [shared] at whole
  exact whole

/-! ## What is filed where -/

section Filed

variable {key : QueryKey} {exchange : Exchange} {exchanges : List Exchange} {own : EcsKey}
  {fact : Fact} {place : Place} {bits : Nat}

theorem NegativePlace.isolated (asked : key.ecs = some own)
    (within : bits ≤ own.scopeBits exchange.scope) (placed : NegativePlace key exchange place) :
    place.Isolated own bits := by
  cases placed with
  | nx shared => exact bits_eq_zero_of_shared (asked ▸ shared) within
  | cache =>
      rw [Place.Isolated, asked]
      exact partitionOf_answerPartition within

/-- What the turn of an exchange files stays within the exchange's scope. -/
theorem FiledBy.isolated {kind : ResponseKind} (asked : key.ecs = some own)
    (within : bits ≤ own.scopeBits exchange.scope) (filed : FiledBy key exchange kind fact place)
    (answer : fact.isDelegation = false) : place.Isolated own bits := by
  cases filed with
  | answer => trivial
  | answerRrsig => trivial
  | cname => trivial
  | cnameRrsig => trivial
  | cnameCached =>
      rw [Place.Isolated, asked]
      exact partitionOf_answerPartition within
  | synthesized => trivial
  | soa => trivial
  | soaCached placed => exact placed.isolated asked within
  | nxdomain missing placed => exact placed.isolated asked within
  | nodata present placed => exact placed.isolated asked within
  | ns => cases answer
  | glue => cases answer

/-- What is cached at the end stays within the scope of the latest exchange. -/
theorem EndPlace.isolated (asked : key.ecs = some own)
    (within : bits ≤ own.scopeBits (exchanges.getLast?.bind Exchange.scope))
    (placed : EndPlace key exchanges place) : place.Isolated own bits := by
  cases placed with
  | nx shared => exact bits_eq_zero_of_shared (asked ▸ shared) within
  | cache =>
      rw [Place.Isolated, asked]
      exact partitionOf_answerPartition within

theorem FiledIn.isolated (asked : key.ecs = some own)
    (within : bits ≤ own.scopeBits exchange.scope)
    (lasting : bits ≤ own.scopeBits (exchanges.getLast?.bind Exchange.scope))
    (filed : FiledIn key exchanges exchange fact place) (answer : fact.isDelegation = false) :
    place.Isolated own bits := by
  cases filed with
  | turn filed => exact filed.isolated asked within answer
  | copy _ placed => exact placed.isolated asked lasting
  | nxdomain _ _ placed => exact placed.isolated asked lasting
  | nodata _ _ placed => exact placed.isolated asked lasting

/-- Delegation data is cached for everyone and put nowhere else. -/
theorem FiledIn.delegation_global (filed : FiledIn key exchanges exchange fact place)
    (delegation : fact.isDelegation = true) :
    ∃ name rrType, place = .cache (.plain name rrType key.rrClass) := by
  have resolved : ∀ {kind : ResponseKind} {fact : Fact},
      FiledBy key exchange kind fact .resolution → fact.isDelegation = false := by
    intro kind fact filed
    cases filed <;> rfl
  cases filed with
  | turn filed =>
      generalize exchange.kind key = kind at filed
      cases filed with
      | ns => exact ⟨_, _, rfl⟩
      | glue => exact ⟨_, _, rfl⟩
      | _ => cases delegation
  | copy filed =>
      rw [resolved filed] at delegation
      cases delegation
  | nxdomain => cases delegation
  | nodata => cases delegation

end Filed

/-- Over a whole resolution for a requester with an ECS network: what a response
of scope `s` brought, delegation data apart, is cached only under partitions of
at least `min s P` bits of the network, provided the latest response is scoped to
as many; and delegation data is cached in the global partition. -/
theorem resolution_ecs_isolation [LinearOrder Score] (scoring : Scoring Score Stability Inputs)
    (engine : EngineConfig) (key : QueryKey) (servedAt now : Ts)
    (turns : List (Turn Score Stability Inputs)) (closing : Closing Score Stability Inputs)
    (cache : SemanticCache Score Stability) (budget : FetchBudget) (own : EcsKey)
    (asked : key.ecs = some own) :
    ∀ filing ∈ (resolveUncached scoring engine key servedAt now turns closing cache
        budget).state.filings,
      ∀ index, filing.source = some index → ∃ exchange,
        (resolveUncached scoring engine key servedAt now turns closing cache
          budget).state.exchanges[index]? = some exchange ∧
        (filing.fact.isDelegation = false →
          own.scopeBits exchange.scope ≤ own.scopeBits ((resolveUncached scoring engine key servedAt
            now turns closing cache budget).state.exchanges.getLast?.bind Exchange.scope) →
          filing.place.Isolated own (own.scopeBits exchange.scope)) ∧
        (filing.fact.isDelegation = true →
          ∃ name rrType, filing.place = .cache (.plain name rrType key.rrClass)) := by
  have accounted := resolveUncached_accounted scoring engine key servedAt now turns closing cache
    budget
  intro filing member index sourced
  obtain ⟨exchange, located, filed⟩ := accounted.filings filing member index sourced
  exact ⟨exchange, located, fun answer lasting => filed.isolated asked le_rfl lasting answer,
    filed.delegation_global⟩

/-- The address of `www.com` for a network of 20 bits. -/
def wwwScopedAddress : Received where
  message := wwwReply
    [⟨⟨[3, 119, 119, 119, 3, 99, 111, 109, 0]⟩, .A, .IN, 3600, .a (ipv4 192 0 2 80)⟩] [] []
    (some ⟨1232, 0, 0, false, [.ecs ⟨1, 24, 20, [192, 0, 2]⟩]⟩)
  parsed := ⟨[0, 1, 128, 0, 0, 1, 0, 1, 0, 0, 0, 1, 3, 119, 119, 119, 3, 99, 111, 109, 0, 0, 1, 0, 1,
    192, 12, 0, 1, 0, 1, 0, 0, 14, 16, 0, 4, 192, 0, 2, 80,
    0, 0, 41, 4, 208, 0, 0, 0, 0, 0, 11, 0, 8, 0, 7, 0, 1, 24, 20, 192, 0, 2], by decide⟩

/-- The referral to `com`, declared to be for a network of 24 bits. -/
def comScopedReferral : Received where
  message := wwwReply []
    [⟨⟨[3, 99, 111, 109, 0]⟩, .NS, .IN, 3600, .ns ⟨[2, 110, 115, 3, 99, 111, 109, 0]⟩⟩]
    [⟨⟨[2, 110, 115, 3, 99, 111, 109, 0]⟩, .A, .IN, 3600, .a (ipv4 192 0 2 1)⟩]
    (some ⟨1232, 0, 0, false, [.ecs ⟨1, 24, 24, [192, 0, 2]⟩]⟩)
  parsed := ⟨[0, 1, 128, 0, 0, 1, 0, 0, 0, 1, 0, 2, 3, 119, 119, 119, 3, 99, 111, 109, 0, 0, 1, 0, 1,
    192, 16, 0, 2, 0, 1, 0, 0, 14, 16, 0, 5, 2, 110, 115, 192, 16,
    2, 110, 115, 192, 16, 0, 1, 0, 1, 0, 0, 14, 16, 0, 4, 192, 0, 2, 1,
    0, 0, 41, 4, 208, 0, 0, 0, 0, 0, 11, 0, 8, 0, 7, 0, 1, 24, 24, 192, 0, 2], by decide⟩

/-- An alias from `www.com` to `ns.com`, for a network of 24 bits. -/
def wwwScopedAlias : Received where
  message := wwwReply [⟨⟨[3, 119, 119, 119, 3, 99, 111, 109, 0]⟩, .CNAME, .IN, 3600,
    .cname ⟨[2, 110, 115, 3, 99, 111, 109, 0]⟩⟩] [] []
    (some ⟨1232, 0, 0, false, [.ecs ⟨1, 24, 24, [192, 0, 2]⟩]⟩)
  parsed := ⟨[0, 1, 128, 0, 0, 1, 0, 1, 0, 0, 0, 1, 3, 119, 119, 119, 3, 99, 111, 109, 0, 0, 1, 0, 1,
    192, 12, 0, 5, 0, 1, 0, 0, 14, 16, 0, 5, 2, 110, 115, 192, 16,
    0, 0, 41, 4, 208, 0, 0, 0, 0, 0, 11, 0, 8, 0, 7, 0, 1, 24, 24, 192, 0, 2], by decide⟩

/-- The address of `ns.com`, for everyone. -/
def nsAddress : Received where
  message := ⟨1, ⟨true, .QUERY, false, false, false, false, false, false, .NOERROR⟩,
    [⟨⟨[2, 110, 115, 3, 99, 111, 109, 0]⟩, .A, .IN⟩],
    [⟨⟨[2, 110, 115, 3, 99, 111, 109, 0]⟩, .A, .IN, 3600, .a (ipv4 192 0 2 1)⟩], [], [], none⟩
  parsed := ⟨[0, 1, 128, 0, 0, 1, 0, 1, 0, 0, 0, 0, 2, 110, 115, 3, 99, 111, 109, 0, 0, 1, 0, 1,
    192, 12, 0, 1, 0, 1, 0, 0, 14, 16, 0, 4, 192, 0, 2, 1], by decide⟩

/-- A requester in `192.0.2.0/24` is answered with scope 20: the address is cached
for the 20 bits. -/
theorem scoped_address_isolation :
    (.cache ⟨⟨[3, 119, 119, 119, 3, 99, 111, 109, 0]⟩, .A, .IN, some ⟨1, 20, [192, 0, 0]⟩⟩) ∈
      (runOn (wwwQuery (some ⟨1, 24, [192, 0, 2]⟩)) [wwwScopedAddress]).state.filings.map
        Filing.place ∧
    ∀ filing ∈ (runOn (wwwQuery (some ⟨1, 24, [192, 0, 2]⟩)) [wwwScopedAddress]).state.filings,
      ∀ index, filing.source = some index → ∃ exchange,
        (runOn (wwwQuery (some ⟨1, 24, [192, 0, 2]⟩)) [wwwScopedAddress]).state.exchanges[index]? =
          some exchange ∧
        (filing.fact.isDelegation = false →
          EcsKey.scopeBits ⟨1, 24, [192, 0, 2]⟩ exchange.scope ≤
            EcsKey.scopeBits ⟨1, 24, [192, 0, 2]⟩ ((runOn (wwwQuery (some ⟨1, 24, [192, 0, 2]⟩))
              [wwwScopedAddress]).state.exchanges.getLast?.bind Exchange.scope) →
          filing.place.Isolated ⟨1, 24, [192, 0, 2]⟩
            (EcsKey.scopeBits ⟨1, 24, [192, 0, 2]⟩ exchange.scope)) ∧
        (filing.fact.isDelegation = true →
          ∃ name rrType, filing.place = .cache (.plain name rrType .IN)) :=
  ⟨by decide, resolution_ecs_isolation _ _ _ _ _ _ _ _ _ _ rfl⟩

/-- Every record of a scoped response, of those that count, is cached only under
partitions of as many bits of the network as the response and the network have. -/
def WalkState.Isolates (own : EcsKey) (counts : Fact → Bool) (state : WalkState Score Stability) :
    Prop :=
  ∀ filing ∈ state.filings, ∀ index record role, filing.source = some index →
    filing.fact = .holds record role → counts filing.fact = true →
    ∃ exchange, state.exchanges[index]? = some exchange ∧
      ∀ scope, exchange.scope = some scope → 0 < scope →
        filing.place.Isolated own (min scope.toNat own.bits.toNat)

/-- A record of a scoped response that went to everyone. -/
theorem WalkState.not_isolates {own : EcsKey} {counts : Fact → Bool}
    {state : WalkState Score Stability} (position index : Nat) {record : Record} {role : Role}
    {key : CacheKey} (scope : UInt8)
    (filed : state.filings[position]? = some ⟨.holds record role, some index, .cache key⟩)
    (shared : key.ecs = none) (counted : counts (.holds record role) = true)
    (sent : (state.exchanges.map Exchange.scope)[index]? = some (some scope))
    (narrow : 0 < min scope.toNat own.bits.toNat) : ¬ state.Isolates own counts := by
  intro isolated
  rw [List.getElem?_map, Option.map_eq_some_iff] at sent
  obtain ⟨exchange, exchanged, declared⟩ := sent
  obtain ⟨found, located, within⟩ :=
    isolated _ (List.mem_of_getElem? filed) index record role rfl rfl counted
  rw [exchanged] at located
  obtain rfl := Option.some.inj located
  have placed := within scope declared (UInt8.lt_iff_toNat_lt.mpr (narrow.trans_le (min_le_left _ _)))
  rw [Place.Isolated, shared] at placed
  exact narrow.ne' placed

/-- The NS records of a scoped referral are cached for everyone; and so is a
scoped alias when the response at its end is not scoped. -/
theorem scoped_records_shared :
    ¬ (runOn (wwwQuery (some ⟨1, 24, [192, 0, 2]⟩))
      [comScopedReferral, wwwScopedAddress]).state.Isolates ⟨1, 24, [192, 0, 2]⟩ (fun _ => true) ∧
    ¬ (runOn (wwwQuery (some ⟨1, 24, [192, 0, 2]⟩))
      [wwwScopedAlias, nsAddress]).state.Isolates ⟨1, 24, [192, 0, 2]⟩ (!·.isDelegation) := by
  constructor
  · exact WalkState.not_isolates 0 0 24 rfl rfl rfl
      (by decide) (by decide)
  · exact WalkState.not_isolates 4 0 24 rfl rfl rfl
      (by decide) (by decide)

end RecurseX
