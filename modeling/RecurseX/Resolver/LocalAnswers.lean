import RecurseX.FakeIp.Pool
import RecurseX.Hosts
import RecurseX.Resolver.ReverseName

/-!
# Answers from the configuration

Before the cache and the network are asked, a query may be answered by the `hosts` table
or by the fake-IP pool. The pool answers in both directions: addresses for names, and names
for the addresses it handed out.
-/

namespace RecurseX

open Library Std

/-! ## The answers -/

/-- The type of the records that hold addresses of a family. -/
def Family.rrType : Family → RrType
  | .v4 => .A
  | .v6 => .AAAA

/-- The family whose addresses are asked for. -/
def Family.ofRrType (rrType : RrType) : Option Family :=
  if rrType = .A then some .v4 else if rrType = .AAAA then some .v6 else none

def IpAddr.rrType : IpAddr → RrType
  | .v4 _ => .A
  | .v6 _ => .AAAA

def IpAddr.rdata : IpAddr → RData
  | .v4 ip => .a ip
  | .v6 ip => .aaaa ip

/-- The records to answer with: `none` when the table does not own the name or does not manage
the type, no records when it owns the name and has no address of the family. -/
def HostsTable.answer (self : HostsTable) (ttl : UInt32) (name : Name) (rrType : RrType) :
    Option (List Record) :=
  if rrType = .A ∨ rrType = .AAAA then
    (self.lookup name).map fun addrs =>
      (addrs.filter fun ip => ip.rrType == rrType).map fun ip => ⟨name, rrType, .IN, ttl, ip.rdata⟩
  else none

/-- A NOERROR resolution carrying no records: NODATA. -/
def emptyAnswer (key : QueryKey) (ttl : UInt32) (now : Ts) : Resolution where
  name := key.name
  rrType := key.rrType
  rrClass := key.rrClass
  rcode := .NOERROR
  answers := []
  authorities := []
  rrsigs := []
  validated := false
  ttl := ttl
  fromCache := false
  stale := false
  ecsScope := none
  servedAt := now

/-- A NOERROR resolution with these records. -/
def recordsAnswer (key : QueryKey) (ttl : UInt32) (now : Ts) (records : List Record) :
    Resolution :=
  { emptyAnswer key ttl now with answers := records.map fun record => ⟨record, .answer, none⟩ }

/-- The address a reverse name stands for. -/
def parseReverse (name : Name) : Option IpAddr :=
  match parseInAddrArpa name with
  | some ip => some (.v4 ip)
  | none => (parseIp6Arpa name).map .v6

/-! ## What a sound pool maps -/

/-- The address `key` of a family belongs to `name`. -/
def FakeIpPool.Maps (pool : FakeIpPool) (family : Family) (key : Nat) (name : Name) : Prop :=
  ∃ space, pool.space family = some space ∧ space.byName[name]? = some key

namespace FakeIpPool

variable {settings : FakeIpSettings} {pool : FakeIpPool} {family : Family} {key : Nat}
  {name : Name}

/-- An address is the one its key in its family stands for. -/
theorem addr_of_familyKey {ip : IpAddr} (keyed : ip.familyKey = some (family, key)) :
    ip = family.addr key := by
  cases ip with
  | v4 ip =>
      obtain ⟨rfl, rfl⟩ := Prod.mk.inj (Option.some.inj keyed)
      refine congrArg IpAddr.v4 (Subtype.ext ?_)
      have spelled := bytesOfNat_natOfBytes ip.1
      rw [ip.2] at spelled
      exact spelled.symm
  | v6 ip =>
      obtain ⟨rfl, rfl⟩ := Prod.mk.inj (Option.some.inj keyed)
      refine congrArg IpAddr.v6 (Subtype.ext ?_)
      have spelled := bytesOfNat_natOfBytes ip.1
      rw [ip.2] at spelled
      exact spelled.symm

theorem familyKey_isSome (ip : IpAddr) : ∃ family key, ip.familyKey = some (family, key) := by
  cases ip with
  | v4 ip => exact ⟨_, _, rfl⟩
  | v6 ip => exact ⟨_, _, rfl⟩

theorem Maps.inRange (maps : pool.Maps family key name) (sound : Sound settings.build pool) :
    settings.InRange family key ∧ key < 256 ^ family.octets := by
  obtain ⟨space, found, mapped⟩ := maps
  obtain ⟨layout, laidOut, spaceSound, sameLayout⟩ := sound.laidOut found
  obtain ⟨usable, -, isFamily, -, -, ranged⟩ := FakeIpSettings.space_build laidOut
  obtain ⟨entry, located, -⟩ := (spaceSound.indexed _ _).mp mapped
  have inside := spaceSound.inRange located
  refine ⟨ranged key ?_, ?_⟩
  · rw [← sameLayout.first, ← sameLayout.last]
    exact inside
  · have width := (sameLayout.usable usable).width
    rw [sameLayout.family, isFamily] at width
    exact Nat.lt_of_le_of_lt inside.2 width

/-- The key a reverse query looks up finds the name mapped to it. -/
theorem lookup_eq_some_iff (sound : Sound settings.build pool) {ip : IpAddr} {now : Ts} :
    (pool.lookup ip now).2 = some name ↔
      ∃ family key, ip = family.addr key ∧ pool.Maps family key name := by
  constructor
  · intro answered
    obtain ⟨family, key, keyed⟩ := familyKey_isSome ip
    refine ⟨family, key, addr_of_familyKey keyed, ?_⟩
    rw [lookup, keyed] at answered
    cases found : pool.space family with
    | none =>
        cases family with
        | v4 => cases found
        | v6 =>
            have absent : pool.v6 = none := found
            dsimp only [onSpace] at answered
            rw [absent] at answered
            cases answered
    | some space =>
        obtain ⟨layout, laidOut, spaceSound, sameLayout⟩ := sound.laidOut found
        refine ⟨space, found, ?_⟩
        exact ((Space.lookup_spec spaceSound key now).2.2.2.2 name).mp
          ((onSpace_result found _ _).symm.trans answered)
  · rintro ⟨family, key, rfl, maps⟩
    have within := (maps.inRange sound).2
    obtain ⟨space, found, mapped⟩ := maps
    obtain ⟨layout, laidOut, spaceSound, sameLayout⟩ := sound.laidOut found
    rw [lookup, key_addr within]
    exact (onSpace_result found _ _).trans
      (((Space.lookup_spec spaceSound key now).2.2.2.2 name).mpr mapped)

/-- Looking an address up changes no mapping. -/
theorem Maps.lookup (maps : pool.Maps family key name) (sound : Sound settings.build pool)
    (ip : IpAddr) (now : Ts) : (pool.lookup ip now).1.Maps family key name := by
  obtain ⟨space, found, mapped⟩ := maps
  obtain ⟨layout, laidOut, spaceSound, sameLayout⟩ := sound.laidOut found
  obtain ⟨about, asked, keyed⟩ := familyKey_isSome ip
  unfold FakeIpPool.lookup
  rw [keyed]
  dsimp only
  by_cases same : family = about
  · subst same
    refine ⟨(space.lookup asked now).1, ?_, ?_⟩
    · rw [onSpace_self, found]
      rfl
    · rw [(Space.lookup_spec spaceSound asked now).2.2.1]
      exact mapped
  · exact ⟨space, (onSpace_other same _ _).trans found, mapped⟩

/-- A family with a range always has an address for a name, the one it is mapped to. -/
theorem allocate_maps (sound : Sound settings.build pool)
    (synthesized : settings.synthesizes family = true) (accepted : pool.isFiltered name = false)
    (now : Ts) :
    ∃ after key, pool.allocate name family now = (after, .ok (.address (family.addr key))) ∧
      after.Maps family key name ∧ ∀ mapped, pool.Maps family mapped name → mapped = key := by
  rw [FakeIpSettings.synthesizes_iff] at synthesized
  obtain ⟨layout, laidOut⟩ := Option.isSome_iff_exists.mp synthesized
  obtain ⟨space, found⟩ := Option.isSome_iff_exists.mp
    ((sound.configured family).trans synthesized)
  obtain ⟨usable, -, isFamily, -⟩ := FakeIpSettings.space_build laidOut
  obtain ⟨spaceSound, sameLayout⟩ := sound.spaces found laidOut
  obtain ⟨after, key, allocated, -, -, mapped, stable, -⟩ :=
    Space.allocate_spec spaceSound (sameLayout.usable usable) name now
  rw [sameLayout.family, isFamily] at allocated
  refine ⟨(pool.allocate name family now).1, key, ?_, ⟨after, ?_, mapped⟩, ?_⟩
  · rw [allocate, if_neg (by simp [accepted])]
    refine Prod.ext rfl ?_
    rw [onSpace_result found, allocated]
    rfl
  · rw [allocate, if_neg (by simp [accepted]), onSpace_self, found, Option.map_some, allocated]
  · rintro earlier ⟨other, isSpace, earlierMapped⟩
    obtain rfl := Option.some.inj (found.symm.trans isSpace)
    exact stable earlier earlierMapped

end FakeIpPool

/-- The policy layer in front of the cache. -/
structure DnsPolicy where
  hosts : HostsTable
  /-- The TTL of the `hosts` table. -/
  hostsTtl : UInt32
  /-- `none` means that nothing is synthesized. -/
  fakeIp : Option FakeIpSettings
  /-- The TTL of a synthesized answer, one of the fake-IP settings. -/
  answerTtl : UInt32

namespace DnsPolicy

/-- The answer with a synthetic address. -/
def addressAnswer (self : DnsPolicy) (key : QueryKey) (now : Ts) (ip : IpAddr) : Resolution :=
  recordsAnswer key self.answerTtl now [⟨key.name, key.rrType, .IN, self.answerTtl, ip.rdata⟩]

/-- The answer with the name that owns a synthetic address. -/
def ownerAnswer (self : DnsPolicy) (key : QueryKey) (now : Ts) (owner : Name) : Resolution :=
  recordsAnswer key self.answerTtl now [⟨key.name, .PTR, .IN, self.answerTtl, .ptr owner⟩]

/-- The answer to a reverse query from the pool. -/
def reverseAnswer (self : DnsPolicy) (pool : Option FakeIpPool) (key : QueryKey) (now : Ts) :
    Option FakeIpPool × Option Resolution :=
  match parseReverse key.name, pool with
  | some ip, some pool =>
      (some (pool.lookup ip now).1, (pool.lookup ip now).2.map (self.ownerAnswer key now))
  | _, pool => (pool, none)

/-- The answer to an address query from the pool. A family that is not synthesized has no
addresses by decision. -/
def forwardAnswer (self : DnsPolicy) (settings : FakeIpSettings) (pool : Option FakeIpPool)
    (key : QueryKey) (family : Family) (now : Ts) : Option FakeIpPool × Option Resolution :=
  if settings.synthesizes family = false then (pool, some (emptyAnswer key self.answerTtl now))
  else
    match pool with
    | none => (none, none)
    | some pool =>
        match pool.allocate key.name family now with
        | (pool, .ok (.address ip)) => (some pool, some (self.addressAnswer key now ip))
        | (pool, .ok .filtered) => (some pool, none)
        -- A real answer beats no answer.
        | (pool, .error _) => (some pool, none)

/-- An answer that comes from configuration instead of the network, and the pool after it. -/
def localAnswer (self : DnsPolicy) (pool : Option FakeIpPool) (key : QueryKey) (now : Ts) :
    Option FakeIpPool × Option Resolution :=
  if key.rrClass ≠ .IN then (pool, none)
  else
    match self.hosts.answer self.hostsTtl key.name key.rrType with
    | some records => (pool, some (recordsAnswer key self.hostsTtl now records))
    | none =>
        match self.fakeIp with
        | none => (pool, none)
        | some settings =>
            if key.rrType = .PTR then self.reverseAnswer pool key now
            else
              match Family.ofRrType key.rrType with
              | some family => self.forwardAnswer settings pool key family now
              | none => (pool, none)

/-- What happens to the pool: a query comes in, or the maintenance loop goes round. -/
inductive LocalAction where
  | ask (key : QueryKey) (now : Ts)
  | maintain (now : Ts)

/-- The pool after an action. -/
def step (self : DnsPolicy) (pool : Option FakeIpPool) : LocalAction → Option FakeIpPool
  | .ask key now => (self.localAnswer pool key now).1
  | .maintain now => pool.map fun pool => (pool.cleanupExpired now).1

/-- The pool after any actions. -/
def reached (self : DnsPolicy) (actions : List LocalAction) : Option FakeIpPool :=
  actions.foldl self.step (self.fakeIp.map FakeIpSettings.build)

/-! ## The pool of a run -/

variable {policy : DnsPolicy} {settings : FakeIpSettings} {key : QueryKey} {now : Ts}
  {family : Family}

/-- An action is at most one operation on the pool. -/
theorem step_operation (policy : DnsPolicy) (pool : FakeIpPool) (action : LocalAction) :
    ∃ ops : List FakeIpOp, policy.step (some pool) action = some (ops.foldl FakeIpPool.step pool) := by
  have stays : ∃ ops : List FakeIpOp, some pool = some (ops.foldl FakeIpPool.step pool) := ⟨[], rfl⟩
  cases action with
  | maintain now => exact ⟨[.cleanupExpired now], rfl⟩
  | ask key now =>
      unfold step localAnswer
      dsimp only
      by_cases other : key.rrClass ≠ .IN
      · rw [if_pos other]
        exact stays
      rw [if_neg other]
      split
      · exact stays
      split
      · exact stays
      rename_i settings _
      by_cases reverse : key.rrType = .PTR
      · rw [if_pos reverse]
        unfold reverseAnswer
        split
        · rename_i ip _ _ same
          cases same
          exact ⟨[.lookup ip now], rfl⟩
        · exact stays
      rw [if_neg reverse]
      split
      · rename_i family _
        unfold forwardAnswer
        split_ifs with decided
        · exact stays
        dsimp only
        refine ⟨[.allocate key.name family now], ?_⟩
        change _ = some (pool.allocate key.name family now).1
        split <;> rename_i allocated <;> rw [allocated]
      · exact stays

/-- The pool after any actions is one after operations. -/
theorem reached_operations (fake : policy.fakeIp = some settings) (actions : List LocalAction) :
    ∃ ops : List FakeIpOp, policy.reached actions = some (ops.foldl FakeIpPool.step settings.build) := by
  unfold reached
  rw [fake, Option.map_some]
  refine foldl_invariant policy.step (fun pool => ∃ ops : List FakeIpOp,
    pool = some (ops.foldl FakeIpPool.step settings.build)) ?_ ⟨[], rfl⟩
  rintro _ action ⟨ops, rfl⟩
  obtain ⟨more, stepped⟩ := policy.step_operation (ops.foldl FakeIpPool.step settings.build) action
  exact ⟨ops ++ more, by rw [stepped, List.foldl_append]⟩

/-- So it is sound. -/
theorem sound_reached (fake : policy.fakeIp = some settings) (actions : List LocalAction) :
    ∃ pool, policy.reached actions = some pool ∧ FakeIpPool.Sound settings.build pool := by
  obtain ⟨ops, same⟩ := reached_operations fake actions
  exact ⟨_, same, settings.sound_run ops⟩

/-! ## Which branch answers -/

theorem ofRrType_rrType (family : Family) : Family.ofRrType family.rrType = some family := by
  cases family <;> rfl

theorem ofRrType_eq_some {rrType : RrType} (known : Family.ofRrType rrType = some family) :
    rrType = family.rrType := by
  unfold Family.ofRrType at known
  split_ifs at known with four six
  · cases known
    exact four
  · cases known
    exact six

/-- A name that is not pinned is left to the pool. -/
theorem answer_of_unpinned (unpinned : policy.hosts.lookup key.name = none) :
    policy.hosts.answer policy.hostsTtl key.name key.rrType = none := by
  unfold HostsTable.answer
  split_ifs
  · rw [unpinned]
    rfl
  · rfl

theorem localAnswer_reverse (fake : policy.fakeIp = some settings) (internet : key.rrClass = .IN)
    (reverse : key.rrType = .PTR) (pool : Option FakeIpPool) (now : Ts) :
    policy.localAnswer pool key now = policy.reverseAnswer pool key now := by
  have unmanaged : policy.hosts.answer policy.hostsTtl key.name key.rrType = none := by
    unfold HostsTable.answer
    rw [reverse]
    exact if_neg (by decide)
  unfold localAnswer
  rw [if_neg (not_not.mpr internet), unmanaged, fake]
  exact if_pos reverse

theorem localAnswer_forward (fake : policy.fakeIp = some settings) (internet : key.rrClass = .IN)
    (unpinned : policy.hosts.lookup key.name = none) (forward : key.rrType = family.rrType)
    (pool : Option FakeIpPool) (now : Ts) :
    policy.localAnswer pool key now = policy.forwardAnswer settings pool key family now := by
  have other : family.rrType ≠ .PTR := by cases family <;> decide
  unfold localAnswer
  rw [if_neg (not_not.mpr internet), answer_of_unpinned unpinned, fake]
  dsimp only
  rw [forward, if_neg other, ofRrType_rrType]

/-- The pool answers a reverse query with the name mapped to the address. -/
theorem reverseAnswer_some {pool : FakeIpPool} {ip : IpAddr} (read : parseReverse key.name = some ip) :
    policy.reverseAnswer (some pool) key now =
      (some (pool.lookup ip now).1, (pool.lookup ip now).2.map (policy.ownerAnswer key now)) := by
  unfold reverseAnswer
  rw [read]

/-- The pool of a run turns the names away that the configured filter excludes. -/
theorem isFiltered_of_sound {pool : FakeIpPool} (sound : FakeIpPool.Sound settings.build pool)
    (name : Name) : pool.isFiltered name = settings.filter.any fun pattern => pattern.matches name := by
  unfold FakeIpPool.isFiltered
  rw [sound.filter]
  rfl

/-- An accepted name in a family with a range is answered with the address it has afterwards. -/
theorem forwardAnswer_accepted (policy : DnsPolicy) {pool : FakeIpPool} (sound : FakeIpPool.Sound settings.build pool)
    (synthesized : settings.synthesizes family = true)
    (accepted : (settings.filter.any fun pattern => pattern.matches key.name) = false) (now : Ts) :
    ∃ after address, policy.forwardAnswer settings (some pool) key family now =
        (some after, some (policy.addressAnswer key now (family.addr address))) ∧
      FakeIpPool.Sound settings.build after ∧ after.Maps family address key.name ∧
        ∀ mapped, pool.Maps family mapped key.name → mapped = address := by
  rw [← isFiltered_of_sound sound] at accepted
  obtain ⟨after, address, allocated, maps, stable⟩ :=
    FakeIpPool.allocate_maps sound synthesized accepted now
  refine ⟨after, address, ?_, ?_, maps, stable⟩
  · unfold forwardAnswer
    rw [if_neg (by simp [synthesized])]
    dsimp only
    rw [allocated]
  · have stepped : pool.step (.allocate key.name family now) = after := congrArg Prod.fst allocated
    rw [← stepped]
    exact sound.step (fun found => (FakeIpSettings.space_build found).1) _

/-! ## The answers of a run -/

/-- A query for the addresses of a family that neither the table nor the filter takes from the
pool. -/
structure Synthesized (policy : DnsPolicy) (settings : FakeIpSettings) (key : QueryKey)
    (family : Family) : Prop where
  internet : key.rrClass = .IN
  rrType : key.rrType = family.rrType
  unpinned : policy.hosts.lookup key.name = none
  ranged : settings.synthesizes family = true
  accepted : (settings.filter.any fun pattern => pattern.matches key.name) = false

/-- A reverse query that reads as an address. -/
structure Reverses (key : QueryKey) (ip : IpAddr) : Prop where
  internet : key.rrClass = .IN
  rrType : key.rrType = .PTR
  read : parseReverse key.name = some ip

theorem Synthesized.answer (asked : policy.Synthesized settings key family)
    (fake : policy.fakeIp = some settings) {pool : FakeIpPool}
    (sound : FakeIpPool.Sound settings.build pool) (now : Ts) :
    ∃ after address, policy.localAnswer (some pool) key now =
        (some after, some (policy.addressAnswer key now (family.addr address))) ∧
      FakeIpPool.Sound settings.build after ∧ after.Maps family address key.name ∧
        ∀ mapped, pool.Maps family mapped key.name → mapped = address := by
  rw [localAnswer_forward fake asked.internet asked.unpinned asked.rrType]
  exact policy.forwardAnswer_accepted sound asked.ranged asked.accepted now

/-- A reverse query is answered with exactly the names mapped to its address. -/
theorem Reverses.answer_iff {ip : IpAddr} (asked : Reverses key ip)
    (fake : policy.fakeIp = some settings) {pool : FakeIpPool}
    (sound : FakeIpPool.Sound settings.build pool) (now : Ts) (answer : Resolution) :
    (policy.localAnswer (some pool) key now).2 = some answer ↔
      ∃ family address owner, ip = family.addr address ∧ pool.Maps family address owner ∧
        answer = policy.ownerAnswer key now owner := by
  rw [localAnswer_reverse fake asked.internet asked.rrType, reverseAnswer_some asked.read,
    Option.map_eq_some_iff]
  constructor
  · rintro ⟨owner, found, rfl⟩
    obtain ⟨family, address, same, maps⟩ := (FakeIpPool.lookup_eq_some_iff sound).mp found
    exact ⟨family, address, owner, same, maps, rfl⟩
  · rintro ⟨family, address, owner, same, maps, rfl⟩
    exact ⟨owner, (FakeIpPool.lookup_eq_some_iff sound).mpr ⟨family, address, same, maps⟩, rfl⟩

/-- Fake-IP mode over a small range, with nothing pinned. -/
def fakePolicy (filter : List DomainPattern) : DnsPolicy where
  hosts := .new
  hostsTtl := 60
  fakeIp := some (smallSettings filter)
  answerTtl := 1

/-- A query for the addresses of `lan`. -/
def lanKey (rrType : RrType) : QueryKey where
  name := lanName
  rrType := rrType
  rrClass := .IN
  ecs := none
  wantDnssec := false
  cd := false
  named := fromWire_domainName (show Name.fromWire [3, 108, 97, 110, 0] 0 = .ok (lanName, 5) by decide)

/-- The table answers the address queries for the names it owns. -/
theorem answer_isSome_iff (forward : key.rrType = family.rrType) :
    (policy.hosts.answer policy.hostsTtl key.name key.rrType).isSome = true ↔
      policy.hosts.lookup key.name ≠ none := by
  have managed : key.rrType = .A ∨ key.rrType = .AAAA := by
    rw [forward]
    cases family with
    | v4 => exact .inl rfl
    | v6 => exact .inr rfl
  unfold HostsTable.answer
  rw [if_pos managed, Option.isSome_map, Option.isSome_iff_ne_none]

theorem answer_of_unmanaged (other : Family.ofRrType key.rrType = none) :
    policy.hosts.answer policy.hostsTtl key.name key.rrType = none := by
  unfold HostsTable.answer
  refine if_neg ?_
  rintro (four | six)
  · rw [four] at other
    cases other
  · rw [six] at other
    cases other

/-- Without fake-IP mode there is never a pool. -/
theorem reached_of_off (off : policy.fakeIp = none) (actions : List LocalAction) :
    policy.reached actions = none := by
  unfold reached
  rw [off, Option.map_none]
  refine foldl_invariant policy.step (fun pool => pool = none) ?_ rfl
  rintro _ action rfl
  cases action with
  | maintain now => rfl
  | ask key now =>
      unfold step localAnswer
      dsimp only
      by_cases other : key.rrClass ≠ .IN
      · rw [if_pos other]
      rw [if_neg other]
      split
      · rfl
      · rw [off]

/-- A family query that the table leaves to fake-IP mode is answered locally unless its family is
synthesized and its name filtered. -/
theorem forwardAnswer_isSome_iff {pool : FakeIpPool}
    (sound : FakeIpPool.Sound settings.build pool) (now : Ts) :
    (policy.forwardAnswer settings (some pool) key family now).2.isSome = true ↔
      settings.synthesizes family = false ∨
        (settings.filter.any fun pattern => pattern.matches key.name) = false := by
  cases ranged : settings.synthesizes family with
  | false =>
      unfold forwardAnswer
      rw [if_pos ranged]
      simp
  | true =>
      cases excluded : settings.filter.any fun pattern => pattern.matches key.name with
      | false =>
          obtain ⟨after, address, answered, -⟩ :=
            policy.forwardAnswer_accepted sound ranged excluded now
          rw [answered]
          simp
      | true =>
          have turnedAway : pool.allocate key.name family now =
              ({ pool with filteredHits := pool.filteredHits + 1 }, .ok .filtered) := by
            refine if_pos ?_
            rw [isFiltered_of_sound sound]
            exact excluded
          unfold forwardAnswer
          rw [if_neg (by simp [ranged])]
          dsimp only
          rw [turnedAway]
          simp

/-- A query that fake-IP mode answers. -/
def FakeAnswers (policy : DnsPolicy) (pool : Option FakeIpPool) (key : QueryKey) : Prop :=
  (∃ settings family, policy.fakeIp = some settings ∧ key.rrType = Family.rrType family ∧
    (settings.synthesizes family = false ∨
      (settings.filter.any fun pattern => pattern.matches key.name) = false)) ∨
  key.rrType = .PTR ∧ ∃ synthetic family address owner, pool = some synthetic ∧
    parseReverse key.name = some (Family.addr family address) ∧
      synthetic.Maps family address owner

/-- The names of mapped addresses are what fake-IP mode answers reverse queries with. -/
theorem reverseAnswer_isSome_iff {pool : FakeIpPool}
    (sound : FakeIpPool.Sound settings.build pool) (fake : policy.fakeIp = some settings)
    (internet : key.rrClass = .IN) (reverse : key.rrType = .PTR) (now : Ts) :
    (policy.localAnswer (some pool) key now).2.isSome = true ↔ policy.FakeAnswers (some pool) key := by
  have noFamily : ∀ family, key.rrType ≠ Family.rrType family := by
    intro family
    rw [reverse]
    cases family <;> decide
  constructor
  · intro answered
    refine .inr ⟨reverse, ?_⟩
    cases read : parseReverse key.name with
    | none =>
        rw [localAnswer_reverse fake internet reverse] at answered
        unfold reverseAnswer at answered
        rw [read] at answered
        cases answered
    | some ip =>
        obtain ⟨answer, isAnswer⟩ := Option.isSome_iff_exists.mp answered
        obtain ⟨family, address, owner, rfl, maps, -⟩ :=
          (Reverses.answer_iff ⟨internet, reverse, read⟩ fake sound now answer).mp isAnswer
        exact ⟨pool, family, address, owner, rfl, rfl, maps⟩
  · rintro (⟨_, family, _, forward, _⟩ | ⟨_, _, family, address, owner, same, read, maps⟩)
    · exact absurd forward (noFamily family)
    · obtain rfl := Option.some.inj same
      refine Option.isSome_iff_exists.mpr ⟨policy.ownerAnswer key now owner, ?_⟩
      exact (Reverses.answer_iff ⟨internet, reverse, read⟩ fake sound now _).mpr
        ⟨family, address, owner, rfl, maps, rfl⟩

/-- What the table does not answer is left to fake-IP mode. -/
theorem fakeAnswers_iff (internet : key.rrClass = .IN)
    (left : policy.hosts.answer policy.hostsTtl key.name key.rrType = none)
    (actions : List LocalAction) (now : Ts) :
    (policy.localAnswer (policy.reached actions) key now).2.isSome = true ↔
      policy.FakeAnswers (policy.reached actions) key := by
  cases fake : policy.fakeIp with
  | none =>
      have unanswered : policy.localAnswer none key now = (none, none) := by
        unfold localAnswer
        rw [if_neg (not_not.mpr internet), left, fake]
      rw [reached_of_off fake, unanswered]
      unfold FakeAnswers
      simp [fake]
  | some settings =>
      obtain ⟨pool, reached, sound⟩ := policy.sound_reached fake actions
      rw [reached]
      by_cases reverse : key.rrType = .PTR
      · exact reverseAnswer_isSome_iff sound fake internet reverse now
      · have answered : policy.localAnswer (some pool) key now =
            match Family.ofRrType key.rrType with
            | some family => policy.forwardAnswer settings (some pool) key family now
            | none => (some pool, none) := by
          unfold localAnswer
          rw [if_neg (not_not.mpr internet), left, fake]
          exact if_neg reverse
        rw [answered]
        unfold FakeAnswers
        cases asked : Family.ofRrType key.rrType with
        | none =>
            have noFamily : ∀ family, key.rrType ≠ Family.rrType family := by
              intro family same
              rw [same, ofRrType_rrType] at asked
              cases asked
            simp [reverse, noFamily]
        | some family =>
            have only : ∀ other, key.rrType = Family.rrType other ↔ other = family := by
              intro other
              constructor
              · intro same
                rw [same, ofRrType_rrType] at asked
                exact Option.some.inj asked
              · rintro rfl
                exact ofRrType_eq_some asked
            dsimp only
            rw [forwardAnswer_isSome_iff sound now]
            simp [fake, reverse, only]

/-- **What is kept from the network.** After any queries and maintenance rounds, the queries that
are answered from the configuration are those of the Internet class that ask for the addresses of a
pinned name, for those of any name in fake-IP mode, unless its family is synthesized and the name
filtered, or for the name of an address that the pool has mapped. -/
theorem answered_locally_iff (policy : DnsPolicy) (actions : List LocalAction) (key : QueryKey)
    (now : Ts) :
    (policy.localAnswer (policy.reached actions) key now).2.isSome = true ↔
      key.rrClass = .IN ∧
        ((∃ family, key.rrType = Family.rrType family ∧ policy.hosts.lookup key.name ≠ none) ∨
          policy.FakeAnswers (policy.reached actions) key) := by
  by_cases internet : key.rrClass = .IN
  swap
  · unfold localAnswer
    rw [if_pos internet]
    simp [internet]
  rw [and_iff_right internet]
  cases answer : policy.hosts.answer policy.hostsTtl key.name key.rrType with
  | none =>
      rw [fakeAnswers_iff internet answer]
      refine ⟨.inr, ?_⟩
      rintro (⟨family, forward, pinned⟩ | fakeAnswers)
      · have answered := (answer_isSome_iff forward).mpr pinned
        rw [answer] at answered
        cases answered
      · exact fakeAnswers
  | some records =>
      have answered : (policy.localAnswer (policy.reached actions) key now).2.isSome = true := by
        unfold localAnswer
        rw [if_neg (not_not.mpr internet), answer]
        rfl
      refine iff_of_true answered (.inl ?_)
      cases asked : Family.ofRrType key.rrType with
      | none =>
          rw [answer_of_unmanaged asked] at answer
          cases answer
      | some family =>
          have forward := ofRrType_eq_some asked
          refine ⟨family, forward, (answer_isSome_iff forward).mp ?_⟩
          rw [answer]
          rfl

/-- A filtered name is resolved for real only in the families that are synthesized. -/
example : ((fakePolicy [.exact lanName]).localAnswer ((fakePolicy [.exact lanName]).reached [])
      (lanKey .AAAA) 0).2.isSome = true ∧
    ((fakePolicy [.exact lanName]).localAnswer ((fakePolicy [.exact lanName]).reached [])
      (lanKey .A) 0).2.isSome = false := by
  decide

end DnsPolicy

end RecurseX
