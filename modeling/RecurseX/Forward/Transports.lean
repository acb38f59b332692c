import RecurseX.Library.BigEndian
import RecurseX.Library.Interning
import RecurseX.Resolver.Servers

/-!
# Forwarders and their transports

A forwarder is an address, a TLS name and a path. The transports to encrypted
forwarders are pooled, one for each key: the endpoint, the TLS name and the path, where
the default path is the same as none.
-/

namespace RecurseX

open Library Wire

/-! ## The text of an address -/

/-- A number in the digits of a radix. -/
def digits (radix value : Nat) : String := String.ofList (Nat.toDigits radix value)

/-- Groups of an IPv6 address. -/
def hextets (groups : List Nat) : String := ":".intercalate (groups.map (digits 16))

/-- The longest run of zeroes, the first of several: where it starts and how long it is. -/
def longestZeroes : (position : Nat) → (current longest : Nat × Nat) → List Nat → Nat × Nat
  | _, _, longest, [] => longest
  | position, current, longest, group :: groups =>
      if group = 0 then
        let current := (if current.2 = 0 then position else current.1, current.2 + 1)
        longestZeroes (position + 1) current (if longest.2 < current.2 then current else longest)
          groups
      else longestZeroes (position + 1) (0, 0) longest groups

/-- The text of an address. -/
def IpAddr.display : IpAddr → String
  | .v4 ip => ".".intercalate (ip.1.map fun octet => digits 10 octet.toNat)
  | .v6 ip =>
      let groups := (ip.1.toChunks 2).map natOfBytes
      if groups.take 6 = [0, 0, 0, 0, 0, 0xffff] then
        "::ffff:" ++ ".".intercalate ((ip.1.drop 12).map fun octet => digits 10 octet.toNat)
      else
        let zeroes := longestZeroes 0 (0, 0) (0, 0) groups
        if 1 < zeroes.2 then
          hextets (groups.take zeroes.1) ++ "::" ++ hextets (groups.drop (zeroes.1 + zeroes.2))
        else hextets groups

namespace Forward

/-! ## Forwarders -/

/-- A forwarding upstream. -/
structure Forwarder where
  endpoint : Endpoint
  /-- TLS server name. -/
  host : Option String
  /-- The DoH URI path; `none` means the default. -/
  path : Option String
deriving DecidableEq, Repr

namespace Forwarder

/-- A plain UDP/TCP forwarder. -/
def plain (endpoint : Endpoint) : Forwarder := ⟨endpoint, none, none⟩

/-- An encrypted forwarder with its TLS identity. -/
def encrypted (endpoint : Endpoint) (host : String) : Forwarder := ⟨endpoint, some host, none⟩

/-- Use a non-default DoH URI path. -/
def withPath (self : Forwarder) (path : String) : Forwarder := { self with path := some path }

/-- The DoH path actually used on the wire. -/
def dohPath (self : Forwarder) : String := self.path.getD "/dns-query"

/-- The name the transports are built with. -/
def hostname (self : Forwarder) : String := self.host.getD self.endpoint.ip.display

end Forwarder

/-- The identity a pooled encrypted transport is built for. -/
structure TransportKey where
  endpoint : Endpoint
  host : Option String
  path : Option String
deriving DecidableEq, Repr

/-- The key for one forwarder, with its path normalized. -/
def TransportKey.of (f : Forwarder) : TransportKey where
  endpoint := f.endpoint
  host := f.host
  path := if f.path = some "/dns-query" then none else f.path

/-- The key says as much as the transport is built with. -/
theorem TransportKey.of_eq_iff {f g : Forwarder} : of f = of g ↔
    f.endpoint = g.endpoint ∧ f.host = g.host ∧ f.dohPath = g.dohPath := by
  obtain ⟨endpoint, host, path⟩ := f
  obtain ⟨endpoint', host', path'⟩ := g
  have normalized : ((if path = some "/dns-query" then none else path) =
      if path' = some "/dns-query" then none else path') ↔
        path.getD "/dns-query" = path'.getD "/dns-query" := by
    cases path <;> cases path' <;> simp only [Option.some.injEq, Option.getD_none,
      Option.getD_some, reduceCtorEq, if_false] <;> split_ifs <;> grind
  unfold of Forwarder.dohPath
  rw [TransportKey.mk.injEq, normalized]

/-! ## Transports -/

/-- The trust roots, whether certificates are verified, and the time they are verified at. -/
structure Trust (Roots : Type) where
  roots : Roots
  verify : Bool
  now : Int
deriving DecidableEq, Repr

/-- DNS over TLS. -/
structure DotTransport (Roots : Type) where
  hostname : String
  trust : Trust Roots

/-- DNS over HTTPS; over HTTP/3 it has the same fields. -/
structure DohTransport (Roots : Type) where
  hostname : String
  path : String
  trust : Trust Roots

/-- What a QUIC connection was made with, and whether it is open. -/
structure QuicConnection (Roots : Type) where
  /-- How many connections were made before. -/
  session : Nat
  ip : IpAddr
  port : UInt16
  serverName : Option String
  trust : Trust Roots
  isOpen : Bool

/-- DNS over QUIC. -/
structure DoqTransport (Roots : Type) where
  host : Option String
  trust : Trust Roots
  /-- The live connection. -/
  conn : Option (QuicConnection Roots)
  /-- The thread that has locked the connection. -/
  holder : Option Nat

variable {Roots : Type}

/-- Where an exchange goes, and which name the server has to prove. HTTP goes by the name of
the server only. -/
inductive Dial (Roots : Type) where
  | udp (ip : IpAddr) (port : UInt16)
  | tcp (ip : IpAddr) (port : UInt16)
  | tls (ip : IpAddr) (port : UInt16) (hostname : String) (trust : Trust Roots)
  | https (hostname : String) (port : UInt16) (path : String) (trust : Trust Roots)
  | http3 (hostname : String) (port : UInt16) (path : String) (trust : Trust Roots)
  | quic (ip : IpAddr) (port : UInt16) (serverName : Option String) (trust : Trust Roots)
deriving DecidableEq, Repr

/-- What the settings of a forwarder ask for. -/
def Forwarder.dial (self : Forwarder) (trust : Trust Roots) : Dial Roots :=
  match self.endpoint.proto with
  | .udp => .udp self.endpoint.ip self.endpoint.port
  | .tcp => .tcp self.endpoint.ip self.endpoint.port
  | .tls => .tls self.endpoint.ip self.endpoint.port self.hostname trust
  | .doH => .https self.hostname self.endpoint.port self.dohPath trust
  | .doH3 => .http3 self.hostname self.endpoint.port self.dohPath trust
  | .doQ => .quic self.endpoint.ip self.endpoint.port (some self.hostname) trust

/-- Maximum DNS-over-TCP message size. -/
def maxTcpMessage : Nat := 65535

/-- A query that the transport does not send. -/
def oversized (proto : Proto) (query : Bytes) : Option Error :=
  if query.length ≤ maxTcpMessage then none
  else match proto with
    | .udp | .doH | .doH3 => none
    | .tcp => some (.transport "query too large for DNS-over-TCP")
    | .tls => some (.transport "query too large for DoT")
    | .doQ => some (.transport "query too large for DoQ")

/-- Parse a DoQ-framed response (exactly one framed message). -/
def deframeResponse (bytes : Bytes) : Result Message := do
  failIf (bytes.length < 2) (.wire "DoQ response shorter than length prefix")
  let len ← u16At bytes 0
  failIf (bytes.length ≠ 2 + len.toNat) (.wire "DoQ response length mismatch")
  Message.parse (← restAt bytes 2)

/-- The response in what came on a stream. -/
def deframed (bytes : Bytes) : Result Bytes := do
  let _ ← deframeResponse bytes
  restAt bytes 2

/-! ## The set -/

/-- The set of forwarding upstreams with cached per-endpoint transports. -/
structure ForwarderSet (Roots : Type) where
  forwarders : List Forwarder
  dot : Interned TransportKey (DotTransport Roots)
  doh : Interned TransportKey (DohTransport Roots)
  doh3 : Interned TransportKey (DohTransport Roots)
  doq : Interned TransportKey (DoqTransport Roots)
  trust : Trust Roots
  /-- The same upstream is not listed twice. -/
  once : (forwarders.map TransportKey.of).Nodup

namespace ForwarderSet

/-- An empty set. -/
def new (trust : Trust Roots) : ForwarderSet Roots :=
  ⟨[], .empty, .empty, .empty, .empty, trust, List.nodup_nil⟩

/-- Add a forwarder. A server already present is ignored. -/
def add (self : ForwarderSet Roots) (f : Forwarder) : ForwarderSet Roots :=
  if present : TransportKey.of f ∈ self.forwarders.map TransportKey.of then self
  else
    { self with
      forwarders := self.forwarders ++ [f]
      once := by
        rw [List.map_append, List.nodup_append]
        refine ⟨self.once, List.nodup_singleton _, fun left listed right single => ?_⟩
        obtain rfl := List.mem_singleton.mp single
        exact fun same => present (same ▸ listed) }

/-- The pooled transport of an encrypted forwarder: the set, and a reference into the pool
of the forwarder's protocol. -/
def pooledTransport (self : ForwarderSet Roots) (f : Forwarder) :
    Option (ForwarderSet Roots × Nat) :=
  let key := TransportKey.of f
  match f.endpoint.proto with
  | .udp | .tcp => none
  | .tls =>
      let (dot, transport) := self.dot.intern key ⟨f.hostname, self.trust⟩
      some ({ self with dot := dot }, transport)
  | .doH =>
      let (doh, transport) := self.doh.intern key ⟨f.hostname, f.dohPath, self.trust⟩
      some ({ self with doh := doh }, transport)
  | .doH3 =>
      let (doh3, transport) := self.doh3.intern key ⟨f.hostname, f.dohPath, self.trust⟩
      some ({ self with doh3 := doh3 }, transport)
  | .doQ =>
      let (doq, transport) := self.doq.intern key ⟨some f.hostname, self.trust, none, none⟩
      some ({ self with doq := doq }, transport)

/-- Where the exchange over a transport other than DoQ goes. -/
def dial (self : ForwarderSet Roots) (f : Forwarder) (transport : Nat) : Option (Dial Roots) :=
  match f.endpoint.proto with
  | .udp | .tcp | .doQ => none
  | .tls => (self.dot.get? transport).map fun (_, dot) =>
      .tls f.endpoint.ip f.endpoint.port dot.hostname dot.trust
  | .doH => (self.doh.get? transport).map fun (_, doh) =>
      .https doh.hostname f.endpoint.port doh.path doh.trust
  | .doH3 => (self.doh3.get? transport).map fun (_, doh3) =>
      .http3 doh3.hostname f.endpoint.port doh3.path doh3.trust

/-- Change a DoQ transport. -/
def modifyDoq (self : ForwarderSet Roots) (transport : Nat)
    (change : DoqTransport Roots → DoqTransport Roots) : ForwarderSet Roots :=
  { self with doq := self.doq.modify transport change }

/-! ### What is in the pools -/

/-- The reference was handed out for the forwarder's key. -/
def Refers (self : ForwarderSet Roots) (f : Forwarder) (transport : Nat) : Prop :=
  match f.endpoint.proto with
  | .udp | .tcp => False
  | .tls => ∃ dot, self.dot.get? transport = some (.of f, dot)
  | .doH => ∃ doh, self.doh.get? transport = some (.of f, doh)
  | .doH3 => ∃ doh3, self.doh3.get? transport = some (.of f, doh3)
  | .doQ => ∃ doq, self.doq.get? transport = some (.of f, doq)

/-- Every transport is as its key says. -/
structure Faithful (pools : ForwarderSet Roots) : Prop where
  dot : ∀ {transport key dot}, pools.dot.get? transport = some (key, dot) →
    dot = ⟨key.host.getD key.endpoint.ip.display, pools.trust⟩
  doh : ∀ {transport key doh}, pools.doh.get? transport = some (key, doh) →
    doh = ⟨key.host.getD key.endpoint.ip.display, key.path.getD "/dns-query", pools.trust⟩
  doh3 : ∀ {transport key doh3}, pools.doh3.get? transport = some (key, doh3) →
    doh3 = ⟨key.host.getD key.endpoint.ip.display, key.path.getD "/dns-query", pools.trust⟩
  doq : ∀ {transport key doq}, pools.doq.get? transport = some (key, doq) →
    doq.host = some (key.host.getD key.endpoint.ip.display) ∧ doq.trust = pools.trust ∧
      ∀ conn, doq.conn = some conn → conn.ip = key.endpoint.ip ∧ conn.port = key.endpoint.port ∧
        conn.serverName = doq.host ∧ conn.trust = pools.trust

variable {pools next : ForwarderSet Roots} {f g : Forwarder} {transport : Nat}

theorem faithful_new (trust : Trust Roots) : (new trust).Faithful := by
  refine ⟨?_, ?_, ?_, ?_⟩ <;> intro transport key value located <;> cases located

theorem path_of (f : Forwarder) : (TransportKey.of f).path.getD "/dns-query" = f.dohPath := by
  unfold TransportKey.of Forwarder.dohPath
  dsimp only
  split_ifs with normal
  · rw [normal]
    rfl
  · rfl

theorem pooledTransport_trust (pooled : pools.pooledTransport f = some (next, transport)) :
    next.trust = pools.trust := by
  unfold pooledTransport at pooled
  split at pooled <;> cases pooled <;> rfl

/-- A transport is built as its key says. -/
theorem Faithful.pooledTransport (faithful : pools.Faithful)
    (pooled : pools.pooledTransport f = some (next, transport)) : next.Faithful := by
  unfold ForwarderSet.pooledTransport at pooled
  split at pooled
  · cases pooled
  · cases pooled
  · cases pooled
    refine ⟨fun located => ?_, faithful.doh, faithful.doh3, faithful.doq⟩
    rcases Interned.get?_of_intern located with before | ⟨rfl, rfl⟩
    · exact faithful.dot before
    · rfl
  · cases pooled
    refine ⟨faithful.dot, fun located => ?_, faithful.doh3, faithful.doq⟩
    rcases Interned.get?_of_intern located with before | ⟨rfl, rfl⟩
    · exact faithful.doh before
    · rw [path_of]
      rfl
  · cases pooled
    refine ⟨faithful.dot, faithful.doh, fun located => ?_, faithful.doq⟩
    rcases Interned.get?_of_intern located with before | ⟨rfl, rfl⟩
    · exact faithful.doh3 before
    · rw [path_of]
      rfl
  · cases pooled
    refine ⟨faithful.dot, faithful.doh, faithful.doh3, fun located => ?_⟩
    rcases Interned.get?_of_intern located with before | ⟨rfl, rfl⟩
    · exact faithful.doq before
    · refine ⟨rfl, rfl, fun conn live => ?_⟩
      cases live

/-- The reference that is handed out is for the key. -/
theorem refers_pooled (pooled : pools.pooledTransport f = some (next, transport)) :
    next.Refers f transport := by
  unfold pooledTransport at pooled
  unfold Refers
  split at pooled
  · cases pooled
  · cases pooled
  all_goals
    cases pooled
    exact Interned.get?_intern _ _ _

/-- A reference stays valid. -/
theorem Refers.pooledTransport {other : Nat} (refers : pools.Refers g other)
    (pooled : pools.pooledTransport f = some (next, transport)) : next.Refers g other := by
  unfold ForwarderSet.pooledTransport at pooled
  unfold Refers at refers ⊢
  split at pooled <;> cases pooled
  all_goals
    split at refers
    · exact refers
    · exact refers
    · obtain ⟨dot, located⟩ := refers
      first
        | exact ⟨dot, Interned.get?_intern_of located _ _⟩
        | exact ⟨dot, located⟩
    · obtain ⟨doh, located⟩ := refers
      first
        | exact ⟨doh, Interned.get?_intern_of located _ _⟩
        | exact ⟨doh, located⟩
    · obtain ⟨doh3, located⟩ := refers
      first
        | exact ⟨doh3, Interned.get?_intern_of located _ _⟩
        | exact ⟨doh3, located⟩
    · obtain ⟨doq, located⟩ := refers
      first
        | exact ⟨doq, Interned.get?_intern_of located _ _⟩
        | exact ⟨doq, located⟩

/-- Forwarders of one protocol share a transport exactly when they have the same key. -/
theorem Refers.eq_iff {other : Nat} (refers : pools.Refers f transport)
    (refers' : pools.Refers g other) (proto : f.endpoint.proto = g.endpoint.proto) :
    transport = other ↔ TransportKey.of f = TransportKey.of g := by
  have shared {τ : Type} {pool : Interned TransportKey τ} {left right : τ}
      (one : pool.get? transport = some (.of f, left))
      (another : pool.get? other = some (.of g, right)) :
      transport = other ↔ TransportKey.of f = TransportKey.of g := by
    constructor
    · rintro rfl
      exact congrArg Prod.fst (Option.some.inj (one.symm.trans another))
    · intro same
      exact Interned.get?_inj (same ▸ one) another
  unfold Refers at refers refers'
  rw [← proto] at refers'
  generalize f.endpoint.proto = protocol at refers refers'
  cases protocol with
  | udp | tcp => cases refers
  | tls | doH | doH3 | doQ =>
      obtain ⟨_, one⟩ := refers
      obtain ⟨_, another⟩ := refers'
      exact shared one another

/-- Over a transport of its own key an exchange goes where the forwarder says. -/
theorem Faithful.dial_eq (faithful : pools.Faithful) (refers : pools.Refers f transport)
    (other : f.endpoint.proto ≠ .doQ) : pools.dial f transport = some (f.dial pools.trust) := by
  unfold Refers at refers
  unfold dial Forwarder.dial
  split at refers
  · cases refers
  · cases refers
  · rename_i proto
    obtain ⟨dot, located⟩ := refers
    rw [proto, located, faithful.dot located]
    rfl
  · rename_i proto
    obtain ⟨doh, located⟩ := refers
    rw [proto, located, faithful.doh located, path_of]
    rfl
  · rename_i proto
    obtain ⟨doh3, located⟩ := refers
    rw [proto, located, faithful.doh3 located, path_of]
    rfl
  · rename_i proto
    exact absurd proto other

/-! ### Changing a DoQ transport -/

theorem Refers.modifyDoq {other : Nat} (refers : pools.Refers f other) (transport : Nat)
    (change : DoqTransport Roots → DoqTransport Roots) :
    (pools.modifyDoq transport change).Refers f other := by
  unfold Refers at refers ⊢
  split at refers
  · exact refers
  · exact refers
  · exact refers
  · exact refers
  · exact refers
  · obtain ⟨doq, located⟩ := refers
    refine ⟨if transport = other then change doq else doq, ?_⟩
    unfold ForwarderSet.modifyDoq
    rw [Interned.get?_modify, located]
    rfl

/-- A change that keeps a transport as its key says. -/
theorem Faithful.modifyDoq (faithful : pools.Faithful)
    {change : DoqTransport Roots → DoqTransport Roots} {key : TransportKey}
    {doq : DoqTransport Roots} (located : pools.doq.get? transport = some (key, doq))
    (host : (change doq).host = doq.host) (trust : (change doq).trust = doq.trust)
    (conn : ∀ conn, (change doq).conn = some conn → conn.ip = key.endpoint.ip ∧
      conn.port = key.endpoint.port ∧ conn.serverName = doq.host ∧ conn.trust = pools.trust) :
    (pools.modifyDoq transport change).Faithful := by
  refine ⟨faithful.dot, faithful.doh, faithful.doh3, ?_⟩
  intro position other changed found
  unfold ForwarderSet.modifyDoq at found
  rw [Interned.get?_modify] at found
  obtain ⟨⟨before, value⟩, listed, same⟩ := Option.map_eq_some_iff.mp found
  cases same
  have was := faithful.doq listed
  dsimp only
  split_ifs with here
  · subst here
    cases located.symm.trans listed
    rw [host, trust]
    exact ⟨was.1, was.2.1, conn⟩
  · exact was

/-! ### What a DoQ transport holds -/

variable {β : Type}

/-- What a DoQ transport holds, if there is one. -/
def view (self : ForwarderSet Roots) (field : DoqTransport Roots → Option β) (transport : Nat) :
    Option β :=
  (self.doq.get? transport).bind fun entry => field entry.2

theorem view_of_get? {field : DoqTransport Roots → Option β} {key : TransportKey}
    {doq : DoqTransport Roots}
    (located : pools.doq.get? transport = some (key, doq)) :
    pools.view field transport = field doq := by
  unfold view
  rw [located]
  rfl

/-- A transport that is built holds nothing yet. -/
theorem view_pooledTransport (field : DoqTransport Roots → Option β)
    (fresh : ∀ host trust, field ⟨host, trust, none, none⟩ = none)
    (pooled : pools.pooledTransport f = some (next, transport)) (other : Nat) :
    next.view field other = pools.view field other := by
  unfold pooledTransport at pooled
  split at pooled <;> cases pooled
  · rfl
  · rfl
  · rfl
  · exact pools.doq.bind_get?_intern (fresh _ _) other

theorem view_modifyDoq (field : DoqTransport Roots → Option β) {key : TransportKey}
    {doq : DoqTransport Roots} (located : pools.doq.get? transport = some (key, doq))
    (change : DoqTransport Roots → DoqTransport Roots) (other : Nat) :
    (pools.modifyDoq transport change).view field other =
      if transport = other then field (change doq) else pools.view field other := by
  unfold view modifyDoq
  rw [Interned.get?_modify]
  split_ifs with here
  · rw [← here, located]
    rfl
  · cases pools.doq.get? other <;> rfl

end ForwarderSet

end Forward

end RecurseX
