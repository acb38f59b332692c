import RecurseX.Cache.Invariant
import RecurseX.Resolver.Closing

/-!
# Bailiwick

What a resolution takes from the servers of a zone should be about names of that
zone. The loop tests this for answers and glue, by the octet comparison; for the
rest it relies on what it asked, and on the servers. `Exchange.Guarded` is what
has to hold of an exchange for its facts to stay inside.
-/

namespace RecurseX

open Library

variable {Score Stability Inputs : Type}

/-- The name a fact is about. -/
def Fact.name : Fact → Name
  | .holds record _ => record.name
  | .nxdomain name => name
  | .nodata name => name

/-- Where no test is made, or the comparison is not enough, the exchange itself
is in order: the names of the query and of the untested records lie in the zone,
and the zone does not start inside a label of a tested name. -/
def Exchange.Guarded (key : QueryKey) (exchange : Exchange) : Prop :=
  match exchange.kind key with
  | .answer _ rrsigs => inBailiwick exchange.currentName exchange.zone = true →
      ¬ exchange.currentName.StraddledBy exchange.zone ∧
      ∀ sig ∈ rrsigs, sig.name.InZone exchange.zone
  | .cname _ rrsigs => exchange.currentName.InZone exchange.zone ∧
      ∀ sig ∈ rrsigs, sig.name.InZone exchange.zone
  | .dname record => record.redirects exchange.currentName = true →
      exchange.currentName.InZone exchange.zone
  | .negative rcode soa => exchange.queryName.InZone exchange.zone ∧
      (∀ record, soa = some record → record.name.InZone exchange.zone) ∧
      (rcode.isNxdomain = true → key.name.InZone exchange.zone)
  | .referral newZone _ glue => ¬ newZone.StraddledBy exchange.zone ∧
      ∀ record ∈ glue, inBailiwick record.name newZone = true →
        ¬ record.name.StraddledBy exchange.zone
  | .empty => True

/-- The comparison is right about canonical names the zone does not straddle. -/
theorem Name.inZone_of_isSubdomainOf {name zone : Name} (named : name.Canonical)
    (zoneNamed : zone.Canonical) (below : name.isSubdomainOf zone = true)
    (apart : ¬ name.StraddledBy zone) : name.InZone zone := by
  obtain ⟨self, rfl⟩ := named
  obtain ⟨outer, rfl⟩ := zoneNamed
  rw [Name.InZone, DomainName.labels_toName, DomainName.labels_toName]
  exact (isSubdomainOf_iff.mp below).resolve_right apart

theorem Name.InZone.not_straddledBy {name zone : Name} (inside : name.InZone zone)
    (named : name.Canonical) (zoneNamed : zone.Canonical) : ¬ name.StraddledBy zone := by
  obtain ⟨self, rfl⟩ := named
  obtain ⟨outer, rfl⟩ := zoneNamed
  rw [Name.InZone, DomainName.labels_toName, DomainName.labels_toName] at inside
  exact fun straddled => not_below_of_straddledBy straddled inside

theorem Name.isSubdomainOf_trans {name middle zone : Name} (first : name.isSubdomainOf middle = true)
    (second : middle.isSubdomainOf zone = true) : name.isSubdomainOf zone = true := by
  rw [Name.isSubdomainOf, List.isSuffixOf_iff_suffix] at first second ⊢
  exact second.trans first

theorem Name.isSubdomainOf_of_strict {name zone : Name}
    (below : name.isStrictSubdomainOf zone = true) : name.isSubdomainOf zone = true :=
  (Bool.and_eq_true_iff.mp below).2

/-- What the turn of a guarded exchange files is about names of its zone. -/
theorem FiledBy.inZone {key : QueryKey} {exchange : Exchange} {fact : Fact} {place : Place}
    (named : exchange.currentName.Canonical ∧ exchange.zone.Canonical)
    (guarded : exchange.Guarded key)
    (filed : FiledBy key exchange (exchange.kind key) fact place) :
    fact.name.InZone exchange.zone := by
  have taken := exchange.kind_taken key
  have referred {newZone : Name} {ns glue : List Record}
      (classified : exchange.kind key = .referral newZone ns glue) : newZone.Canonical :=
    referral_canonical classified
  have wellFormed := exchange.received.wellFormed
  unfold Exchange.Guarded at guarded
  generalize exchange.kind key = kind at taken referred guarded filed
  cases filed with
  | answer member inside =>
      rw [(taken.1 _ member).2.1] at inside
      rw [Fact.name, (taken.1 _ member).2.1]
      exact Name.inZone_of_isSubdomainOf named.1 named.2 inside (guarded inside).1
  | answerRrsig member kept =>
      obtain ⟨record, found, inside⟩ := kept
      rw [(taken.1 record found).2.1] at inside
      exact (guarded inside).2 _ member
  | cname =>
      rw [Fact.name, taken.1.2.1]
      exact guarded.1
  | cnameRrsig member => exact guarded.2 _ member
  | cnameCached =>
      rw [Fact.name, taken.1.2.1]
      exact guarded.1
  | synthesized redirects owned =>
      rw [Fact.name, owned]
      exact guarded redirects
  | soa => exact guarded.2.1 _ rfl
  | soaCached => exact guarded.2.1 _ rfl
  | nxdomain => exact guarded.1
  | nodata => exact guarded.1
  | ns member below =>
      rw [Fact.name, (taken.2.2.1 _ member).2.2]
      exact Name.inZone_of_isSubdomainOf (referred rfl) named.2
        (Name.isSubdomainOf_of_strict below) guarded.1
  | glue member inside below =>
      -- Glue is compared with the new zone, which lies below the zone at hand.
      exact Name.inZone_of_isSubdomainOf (wellFormed.additionals _ (taken.2.2.2 _ member).1).1.name
        named.2 (Name.isSubdomainOf_trans inside (Name.isSubdomainOf_of_strict below))
        (guarded.2 _ member inside)

theorem FiledIn.inZone {key : QueryKey} {exchanges : List Exchange} {exchange : Exchange}
    {fact : Fact} {place : Place}
    (named : exchange.currentName.Canonical ∧ exchange.zone.Canonical)
    (guarded : exchange.Guarded key) (filed : FiledIn key exchanges exchange fact place) :
    fact.name.InZone exchange.zone := by
  cases filed with
  | turn filed => exact filed.inZone named guarded
  | copy filed => exact filed.inZone named guarded
  | nxdomain classified missing =>
      rw [Exchange.Guarded, classified] at guarded
      exact guarded.2.2 missing
  | nodata classified asked =>
      rw [Exchange.Guarded, classified] at guarded
      exact asked ▸ guarded.1

/-- In a resolution whose exchanges are all guarded, everything that is appended
to the resolution or handed to the cache because of a response is about a name
of the zone whose servers sent it. -/
theorem resolution_in_bailiwick [LinearOrder Score] (scoring : Scoring Score Stability Inputs)
    (engine : EngineConfig) (key : QueryKey) (servedAt now : Ts)
    (turns : List (Turn Score Stability Inputs)) (closing : Closing Score Stability Inputs)
    (cache : SemanticCache Score Stability) (budget : FetchBudget)
    (guarded : ∀ exchange ∈ (resolveUncached scoring engine key servedAt now turns closing cache
      budget).state.exchanges, exchange.Guarded key) :
    ∀ filing ∈ (resolveUncached scoring engine key servedAt now turns closing cache
        budget).state.filings,
      ∀ index, filing.source = some index → ∃ exchange,
        (resolveUncached scoring engine key servedAt now turns closing cache
          budget).state.exchanges[index]? = some exchange ∧
        filing.fact.name.InZone exchange.zone := by
  have accounted := resolveUncached_accounted scoring engine key servedAt now turns closing cache
    budget
  intro filing member index sourced
  obtain ⟨exchange, located, filed⟩ := accounted.filings filing member index sourced
  have exchanged := List.mem_of_getElem? located
  exact ⟨exchange, located, filed.inZone (accounted.named exchange exchanged)
    (guarded exchange exchanged)⟩

/-! ## Resolutions of `www.com` -/

/-- A stored form that decodes to itself. -/
theorem Name.canonical_of_fromWire (bytes : Bytes)
    (decoded : Name.fromWire bytes 0 = .ok (⟨bytes⟩, bytes.length)) : (Name.mk bytes).Canonical :=
  fromWire_domainName decoded

/-- A query for the address of `www.com`. -/
def wwwQuery (ecs : Option EcsKey) : QueryKey :=
  ⟨⟨[3, 119, 119, 119, 3, 99, 111, 109, 0]⟩, .A, .IN, ecs, false, false,
    Name.canonical_of_fromWire [3, 119, 119, 119, 3, 99, 111, 109, 0] (by decide)⟩

/-- A response to it. -/
def wwwReply (answers authorities additionals : List Record) (edns : Option Edns) : Message :=
  ⟨1, ⟨true, .QUERY, false, false, false, false, false, false, .NOERROR⟩,
    [⟨⟨[3, 119, 119, 119, 3, 99, 111, 109, 0]⟩, .A, .IN⟩], answers, authorities, additionals, edns⟩

/-- The root servers refer to `com`. -/
def comReferral : Received where
  message := wwwReply []
    [⟨⟨[3, 99, 111, 109, 0]⟩, .NS, .IN, 3600, .ns ⟨[2, 110, 115, 3, 99, 111, 109, 0]⟩⟩]
    [⟨⟨[2, 110, 115, 3, 99, 111, 109, 0]⟩, .A, .IN, 3600, .a (ipv4 192 0 2 1)⟩] none
  parsed := ⟨[0, 1, 128, 0, 0, 1, 0, 0, 0, 1, 0, 1, 3, 119, 119, 119, 3, 99, 111, 109, 0, 0, 1, 0, 1,
    192, 16, 0, 2, 0, 1, 0, 0, 14, 16, 0, 5, 2, 110, 115, 192, 16,
    2, 110, 115, 192, 16, 0, 1, 0, 1, 0, 0, 14, 16, 0, 4, 192, 0, 2, 1], by decide⟩

/-- The address of `www.com`. -/
def wwwAddress : Received where
  message := wwwReply
    [⟨⟨[3, 119, 119, 119, 3, 99, 111, 109, 0]⟩, .A, .IN, 3600, .a (ipv4 192 0 2 80)⟩] [] [] none
  parsed := ⟨[0, 1, 128, 0, 0, 1, 0, 1, 0, 0, 0, 0, 3, 119, 119, 119, 3, 99, 111, 109, 0, 0, 1, 0, 1,
    192, 12, 0, 1, 0, 1, 0, 0, 14, 16, 0, 4, 192, 0, 2, 80], by decide⟩

/-- No data, with a SOA record of `org`. -/
def orgSoa : Received where
  message := wwwReply [] [⟨⟨[3, 111, 114, 103, 0]⟩, .SOA, .IN, 3600, .soa .root .root 1 2 3 4 5⟩] []
    none
  parsed := ⟨[0, 1, 128, 0, 0, 1, 0, 0, 0, 1, 0, 0, 3, 119, 119, 119, 3, 99, 111, 109, 0, 0, 1, 0, 1,
    3, 111, 114, 103, 0, 0, 6, 0, 1, 0, 0, 14, 16, 0, 22, 0, 0,
    0, 0, 0, 1, 0, 0, 0, 2, 0, 0, 0, 3, 0, 0, 0, 4, 0, 0, 0, 5], by decide⟩

/-- A resolution that receives these responses, on an empty cache. -/
def runOn (key : QueryKey) (responses : List Received) : Progress Nat Unit :=
  resolveUncached ttlScoring
    { rootEndpoints := [⟨.v4 (ipv4 198 41 0 4), 53, .udp⟩], authPort := 53
      qnameMinimization := false, maxCnameDepth := 8, maxReferrals := 16, queryBudgetMs := 5000
      dnssec := false, maxTtlCap := 86400 }
    key 0 0
    (responses.map fun received => ⟨[], id, false, fun _ => (), .ok received, fun _ => []⟩)
    ⟨[], false, fun _ => ()⟩ (.new (smallConfig 1))
    (.new ⟨16, 64, 64, 8, 96, 1048576, 4, fun _ _ => false⟩)

/-- The root servers refer to `com`, whose servers have the address. -/
theorem address_in_bailiwick :
    (∀ exchange ∈ (runOn (wwwQuery none) [comReferral, wwwAddress]).state.exchanges,
      exchange.Guarded (wwwQuery none)) ∧
    ∀ filing ∈ (runOn (wwwQuery none) [comReferral, wwwAddress]).state.filings,
      ∀ index, filing.source = some index → ∃ exchange,
        (runOn (wwwQuery none) [comReferral, wwwAddress]).state.exchanges[index]? = some exchange ∧
        filing.fact.name.InZone exchange.zone := by
  have guarded : ∀ exchange ∈ (runOn (wwwQuery none) [comReferral, wwwAddress]).state.exchanges,
      exchange.Guarded (wwwQuery none) := by
    have exchanged : (runOn (wwwQuery none) [comReferral, wwwAddress]).state.exchanges =
        [⟨.root, (wwwQuery none).name, (wwwQuery none).name, comReferral⟩,
          ⟨⟨[3, 99, 111, 109, 0]⟩, (wwwQuery none).name, (wwwQuery none).name, wwwAddress⟩] := by
      decide
    have com : (Name.mk [3, 99, 111, 109, 0]).Canonical :=
      Name.canonical_of_fromWire [3, 99, 111, 109, 0] (by decide)
    have ns : (Name.mk [2, 110, 115, 3, 99, 111, 109, 0]).Canonical :=
      Name.canonical_of_fromWire [2, 110, 115, 3, 99, 111, 109, 0] (by decide)
    rw [exchanged]
    intro exchange member
    rcases List.mem_cons.mp member with rfl | member
    · refine ⟨Name.InZone.not_straddledBy (by decide) com ⟨.root, rfl⟩, ?_⟩
      intro record glue _
      rw [List.mem_singleton.mp glue]
      exact Name.InZone.not_straddledBy (by decide) ns ⟨.root, rfl⟩
    · rw [List.mem_singleton.mp member]
      exact fun _ => ⟨Name.InZone.not_straddledBy (by decide) (wwwQuery none).named com, nofun⟩
  exact ⟨guarded, resolution_in_bailiwick _ _ _ _ _ _ _ _ _ guarded⟩

/-- The servers of `com` get a SOA record of `org` into the resolution. -/
theorem soa_out_of_bailiwick :
    ¬ ∀ filing ∈ (runOn (wwwQuery none) [comReferral, orgSoa]).state.filings,
      ∀ index, filing.source = some index → ∃ exchange,
        (runOn (wwwQuery none) [comReferral, orgSoa]).state.exchanges[index]? = some exchange ∧
        filing.fact.name.InZone exchange.zone := by
  intro inside
  have org : ((runOn (wwwQuery none) [comReferral, orgSoa]).state.filings.map fun filing =>
      (filing.fact.name, filing.source))[4]? = some (⟨[3, 111, 114, 103, 0]⟩, some 1) := by
    decide
  have com : ((runOn (wwwQuery none) [comReferral, orgSoa]).state.exchanges.map
      Exchange.zone)[1]? = some ⟨[3, 99, 111, 109, 0]⟩ := by
    decide
  rw [List.getElem?_map, Option.map_eq_some_iff] at org com
  obtain ⟨filing, located, about⟩ := org
  obtain ⟨exchange, exchanged, zone⟩ := com
  obtain ⟨name, source⟩ := Prod.mk.inj about
  obtain ⟨found, sent, within⟩ := inside filing (List.mem_of_getElem? located) 1 source
  rw [exchanged] at sent
  obtain rfl := Option.some.inj sent
  rw [name, zone] at within
  exact absurd within (by decide)

end RecurseX
