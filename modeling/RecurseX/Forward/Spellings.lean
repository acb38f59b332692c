import RecurseX.Config
import RecurseX.Forward.Transports
import RecurseX.Library.AddressWriting

/-!
# Upstream strings

An upstream is configured as one string: a scheme, an address with an optional port, a path
for DoH, and the TLS name behind a `#`. `configurable_iff` says which forwarders such strings
configure.
-/

namespace RecurseX.Forward

open Library

/-! ## Reading an upstream -/

/-- The transport a scheme stands for. -/
def protoOfScheme (scheme : List Char) : Option Proto :=
  if scheme = ['u', 'd', 'p'] then some .udp
  else if scheme = ['t', 'c', 'p'] then some .tcp
  else if scheme = ['t', 'l', 's'] then some .tls
  else if scheme = ['q', 'u', 'i', 'c'] then some .doQ
  else if scheme = ['h', 't', 't', 'p', 's'] then some .doH
  else if scheme = ['h', '3'] then some .doH3
  else none

def defaultPort : Proto → UInt16
  | .udp | .tcp => 53
  | .tls | .doQ => 853
  | .doH | .doH3 => 443

/-- Only DoH and DoH3 carry a URI path. -/
def wantPath : Proto → Bool
  | .doH | .doH3 => true
  | _ => false

/-- Only these transports verify a TLS identity. -/
def isEncrypted : Proto → Bool
  | .udp | .tcp => false
  | _ => true

/-- The identity comes off first: a name may contain a colon. -/
def splitFragment (s : List Char) : List Char × Option (List Char) :=
  match splitOnce '#' s with
  | some (a, b) => (trim a, some (trim b))
  | none => (trim s, none)

def splitScheme (rest : List Char) : List Char × List Char :=
  match splitOnceText [':', '/', '/'] rest with
  | some (scheme, rest) => (scheme.map Char.toLower, rest)
  | none => (['u', 'd', 'p'], rest)

section Parse

-- How a text is quoted in an error.
variable (debug : List Char → String)

/-- The authority and the path, which only some schemes take. -/
def splitPath (s scheme : List Char) (proto : Proto) (rest : List Char) :
    Result (List Char × Option (List Char)) :=
  match splitOnce '/' rest with
  | some (authority, path) => do
      failIf (wantPath proto = false)
        (.config ("upstream " ++ debug s ++ ": " ++ String.ofList scheme ++ ":// takes no path"))
      .ok (authority, some path)
  | none => .ok (rest, none)

/-- Parse one upstream string into a forwarder. -/
def parseUpstream (s : List Char) : Result Forwarder := do
  let (rest, name) := splitFragment s
  failIf (rest = []) (.config ("empty upstream string: " ++ debug s))
  failIf (name = some []) (.config ("upstream " ++ debug s ++
    " has an empty \"#name\" fragment; remove the \"#\" or name the TLS identity"))
  let (scheme, rest) := splitScheme rest
  failIf (rest = []) (.config ("upstream " ++ debug s ++ " has no address"))
  let proto ← okOr (protoOfScheme scheme) (.config ("upstream " ++ debug s ++ ": unknown scheme " ++
    debug scheme ++ " (expected udp, tcp, tls, https, h3 or quic)"))
  let (authority, path) ← splitPath debug s scheme proto rest
  let (ip, port) ← okOr (parseAuthority authority) (.config ("upstream " ++ debug s ++ ": " ++
    debug authority ++ " is not an IP literal (a hostname upstream is not supported; " ++
    "write the address, e.g. tls://1.1.1.1#one.one.one.one)"))
  let port := port.getD (defaultPort proto)
  failIf (port = 0) (.config ("upstream " ++ debug s ++ ": port 0 is not a port"))
  let endpoint : Endpoint := ⟨ip, port, proto⟩
  if isEncrypted proto = false then
    failIf (name.isSome = true) (.config ("upstream " ++ debug s ++ ": a plain " ++
      String.ofList scheme ++ ":// upstream carries no TLS identity"))
    .ok (.plain endpoint)
  else
    let name ← okOr name (.config ("upstream " ++ debug s ++
      ": the encrypted transports need a TLS name to verify against; append it, e.g. " ++
      String.ofList scheme ++ "://" ++ ip.display ++ "#dns.example"))
    let f := Forwarder.encrypted endpoint (String.ofList name)
    match path with
    | none | some [] => .ok f
    | some path => .ok (f.withPath (String.ofList ('/' :: path)))

end Parse

/-! ## What can be configured -/

/-- A forwarder that some upstream string stands for. -/
structure Forwarder.Configurable (f : Forwarder) : Prop where
  port : f.endpoint.port ≠ 0
  /-- A plain transport has nothing to verify and nothing to ask for. -/
  plain : isEncrypted f.endpoint.proto = false → f.host = none ∧ f.path = none
  /-- An encrypted transport has a name to verify against. -/
  named : isEncrypted f.endpoint.proto = true →
    ∃ name, f.host = some (String.ofList name) ∧ name ≠ [] ∧ trim name = name
  /-- A path starts with a slash and goes on; what ends the path in a string is not in it. -/
  path : ∀ path ∈ f.path, wantPath f.endpoint.proto = true ∧ ∃ rest,
    path = String.ofList ('/' :: rest) ∧ rest ≠ [] ∧ '#' ∉ rest ∧
      ∀ c ∈ rest.getLast?, isWhitespace c = false

variable {debug : List Char → String} {s : List Char} {f : Forwarder}

theorem splitFragment_spec (s : List Char) :
    trim (splitFragment s).1 = (splitFragment s).1 ∧ '#' ∉ (splitFragment s).1 ∧
      ∀ name ∈ (splitFragment s).2, trim name = name := by
  unfold splitFragment
  cases cut : splitOnce '#' s with
  | none =>
      refine ⟨trim_trim s, fun member => ?_, fun name none => by cases none⟩
      exact not_mem_of_splitOnce cut (mem_of_mem_trim member)
  | some parts =>
      obtain ⟨front, back⟩ := parts
      refine ⟨trim_trim front, fun member => ?_, fun name same => ?_⟩
      · exact (eq_of_splitOnce cut).2 (mem_of_mem_trim member)
      · obtain rfl := Option.some.inj same
        exact trim_trim back

/-- What comes behind a scheme is the end of the text. -/
theorem splitScheme_suffix (rest : List Char) : (splitScheme rest).2 <:+ rest := by
  unfold splitScheme
  cases cut : splitOnceText [':', '/', '/'] rest with
  | none => exact List.suffix_rfl
  | some parts =>
      refine ⟨parts.1 ++ [':', '/', '/'], ?_⟩
      exact (eq_of_splitOnceText cut).symm

/-! ## What is read can be configured -/

/-- The path is the end of what it was cut from, without what ends an upstream. -/
theorem splitPath_spec {scheme rest authority path : List Char} {proto : Proto}
    (cut : splitPath debug s scheme proto rest = .ok (authority, some path)) :
    wantPath proto = true ∧ rest = authority ++ '/' :: path := by
  unfold splitPath at cut
  cases parts : splitOnce '/' rest with
  | none =>
      rw [parts] at cut
      cases cut
  | some both =>
      obtain ⟨front, back⟩ := both
      rw [parts] at cut
      obtain ⟨_, takes, joined⟩ := bind_eq_ok.mp cut
      obtain ⟨rfl, same⟩ := Prod.mk.inj (Except.ok.inj joined)
      obtain rfl := Option.some.inj same
      exact ⟨by simpa using failIf_eq_ok.mp takes, (eq_of_splitOnce parts).1⟩

/-- What stands behind a slash in the text in front of the name ends as that text does. -/
theorem ends_of_suffix {body path : List Char} (trimmed : trim body = body) (absent : '#' ∉ body)
    (behind : '/' :: path <:+ body) :
    '#' ∉ path ∧ ∀ c ∈ path.getLast?, isWhitespace c = false := by
  have later : path <:+ body := (List.suffix_cons '/' path).trans behind
  refine ⟨fun member => absent (later.mem member), fun c last => ?_⟩
  obtain ⟨front, rfl⟩ := later
  refine (trimmed ▸ (ends_trim (front ++ path)).2) c ?_
  rw [List.getLast?_append]
  exact Option.or_eq_some_iff.mpr (.inl last)

theorem configurable_of_parse (read : parseUpstream debug s = .ok f) : f.Configurable := by
  unfold parseUpstream at read
  obtain ⟨trimmed, absent, named⟩ := splitFragment_spec s
  rcases fragment : splitFragment s with ⟨body, name⟩
  rw [fragment] at read trimmed absent named
  dsimp only at read trimmed absent named
  obtain ⟨_, -, read⟩ := bind_eq_ok.mp read
  obtain ⟨_, nonempty, read⟩ := bind_eq_ok.mp read
  have nonempty := failIf_eq_ok.mp nonempty
  have later := splitScheme_suffix body
  rcases cut : splitScheme body with ⟨scheme, rest⟩
  rw [cut] at read later
  dsimp only at read later
  obtain ⟨_, -, read⟩ := bind_eq_ok.mp read
  obtain ⟨proto, -, read⟩ := bind_eq_ok.mp read
  obtain ⟨⟨authority, path⟩, located, read⟩ := bind_eq_ok.mp read
  dsimp only at read
  obtain ⟨⟨ip, port⟩, -, read⟩ := bind_eq_ok.mp read
  dsimp only at read
  obtain ⟨_, positive, read⟩ := bind_eq_ok.mp read
  have positive := failIf_eq_ok.mp positive
  split_ifs at read with encrypted
  · obtain ⟨_, -, read⟩ := bind_eq_ok.mp read
    obtain rfl := Except.ok.inj read
    refine ⟨positive, fun _ => ⟨rfl, rfl⟩, fun other => ?_, fun _ none => ?_⟩
    · exact absurd (encrypted.symm.trans other) Bool.false_ne_true
    · cases none
  · obtain ⟨found, present, read⟩ := bind_eq_ok.mp read
    have present := okOr_eq_ok.mp present
    have verified : ∃ name, some (String.ofList found) = some (String.ofList name) ∧ name ≠ [] ∧
        trim name = name := by
      refine ⟨found, rfl, fun empty => nonempty ?_, named found present⟩
      rw [present, empty]
    have plain : isEncrypted proto = false → some (String.ofList found) = none ∧
        (none : Option String) = none := fun other => absurd other encrypted
    cases path with
    | none =>
        obtain rfl := Except.ok.inj read
        exact ⟨positive, plain, fun _ => verified, fun _ none => by cases none⟩
    | some path =>
        cases path with
        | nil =>
            obtain rfl := Except.ok.inj read
            exact ⟨positive, plain, fun _ => verified, fun _ none => by cases none⟩
        | cons c path =>
            obtain rfl := Except.ok.inj read
            obtain ⟨takes, whole⟩ := splitPath_spec located
            have behind : '/' :: c :: path <:+ body :=
              (whole ▸ List.suffix_append authority _).trans later
            obtain ⟨noName, ends⟩ := ends_of_suffix trimmed absent behind
            refine ⟨positive, fun other => absurd other encrypted, fun _ => verified, ?_⟩
            rintro _ same
            obtain rfl := Option.some.inj same
            exact ⟨takes, c :: path, rfl, List.cons_ne_nil c path, noName, ends⟩

/-! ## Writing an upstream -/

def schemeOfProto : Proto → List Char
  | .udp => ['u', 'd', 'p']
  | .tcp => ['t', 'c', 'p']
  | .tls => ['t', 'l', 's']
  | .doQ => ['q', 'u', 'i', 'c']
  | .doH => ['h', 't', 't', 'p', 's']
  | .doH3 => ['h', '3']

/-- The text of an address, with no group left out. -/
def writeIp : IpAddr → List Char
  | .v4 octets => writeAddress (.inl octets)
  | .v6 octets => writeAddress (.inr octets)

/-- An address and its port behind an `@`, which needs no brackets. -/
def writeAuthority (ip : IpAddr) (port : UInt16) : List Char :=
  writeIp ip ++ '@' :: Nat.toDigits 10 port.toNat

/-- An upstream without its name. -/
def writeBody (f : Forwarder) : List Char :=
  schemeOfProto f.endpoint.proto ++ ([':', '/', '/'] ++
    (writeAuthority f.endpoint.ip f.endpoint.port ++ (f.path.elim [] String.toList)))

/-- An upstream that stands for a forwarder. -/
def writeUpstream (f : Forwarder) : List Char :=
  writeBody f ++ f.host.elim [] fun name => '#' :: name.toList

theorem parseIp_writeIp (ip : IpAddr) : parseIp (writeIp ip) = some ip := by
  unfold parseIp
  cases ip with
  | v4 octets =>
      rw [writeIp, parseAddress_writeAddress]
      rfl
  | v6 octets =>
      rw [writeIp, parseAddress_writeAddress]
      rfl

theorem parsePort_toDigits (port : UInt16) :
    parsePort (Nat.toDigits 10 port.toNat) = some port := by
  unfold parsePort
  rw [parseUnsigned_toDigits port.toNat_lt, Option.map_some, UInt16.ofNat_toNat]

/-- The characters that cut an upstream are in no address and in no port. -/
theorem mem_writeAuthority {ip : IpAddr} {port : UInt16} :
    ∀ c ∈ writeAuthority ip port, c ≠ '#' ∧ c ≠ '/' ∧ isWhitespace c = false := by
  intro c member
  have address := parseIp_writeIp ip
  have number := parsePort_toDigits port
  rcases List.mem_append.mp member with inside | behind
  · have written := isAddressChar_of_parseIp address c inside
    refine ⟨?_, ?_, solid_of_parseIp address c inside⟩
    · rintro rfl
      exact absurd written (by decide)
    · rintro rfl
      exact absurd written (by decide)
  · rcases List.mem_cons.mp behind with rfl | inside
    · decide
    · have written := mem_parsePort number c inside
      refine ⟨?_, ?_, solid_of_parsePort number c inside⟩
      · rintro rfl
        exact absurd written (by decide)
      · rintro rfl
        exact absurd written (by decide)

theorem parseAuthority_write (ip : IpAddr) (port : UInt16) :
    parseAuthority (writeAuthority ip port) = some (ip, some port) := by
  have address := parseIp_writeIp ip
  have number := parsePort_toDigits port
  have solid : trim (writeAuthority ip port) = writeAuthority ip port :=
    trim_eq fun c member => (mem_writeAuthority c member).2.2
  have noBracket : stripPrefix '[' (writeAuthority ip port) = none :=
    stripPrefix_eq_none (head?_ne_of_parseIp address _ (by decide)).1
  have cut : rsplitOnce '@' (writeAuthority ip port) =
      some (writeIp ip, Nat.toDigits 10 port.toNat) :=
    rsplitOnce_append (not_mem_of_parsePort number).2
  unfold parseAuthority
  simp only [solid, noBracket, cut, address, number, Option.bind_eq_bind, Option.bind_some]

/-! ## What is written is read -/

theorem protoOfScheme_scheme (proto : Proto) : protoOfScheme (schemeOfProto proto) = some proto := by
  cases proto <;> rfl

theorem map_toLower_scheme (proto : Proto) :
    (schemeOfProto proto).map Char.toLower = schemeOfProto proto := by
  cases proto <;> rfl

/-- Schemes are small letters, and `3`. -/
theorem mem_schemeOfProto {proto : Proto} :
    ∀ c ∈ schemeOfProto proto, c ≠ ':' ∧ c ≠ '#' ∧ isWhitespace c = false := by
  intro c member
  have each : ((schemeOfProto proto).all fun c => c != ':' && c != '#' && !isWhitespace c) = true := by
    cases proto <;> rfl
  simpa [and_assoc] using List.all_eq_true.mp each c member

theorem Forwarder.Configurable.mem_path (configurable : f.Configurable) :
    ∀ c ∈ f.path.elim [] String.toList, c ≠ '#' := by
  intro c member
  cases same : f.path with
  | none =>
      rw [same] at member
      cases member
  | some path =>
      rw [same] at member
      obtain ⟨-, rest, rfl, -, absent, -⟩ := configurable.path path same
      rw [Option.elim_some, String.toList_ofList] at member
      rcases List.mem_cons.mp member with rfl | inside
      · decide
      · rintro rfl
        exact absent inside

theorem name_not_mem_writeBody (configurable : f.Configurable) : '#' ∉ writeBody f := by
  intro member
  rcases List.mem_append.mp member with scheme | later
  · exact (mem_schemeOfProto _ scheme).2.1 rfl
  rcases List.mem_append.mp later with separator | later
  · exact absurd separator (by decide)
  rcases List.mem_append.mp later with authority | path
  · exact (mem_writeAuthority _ authority).1 rfl
  · exact configurable.mem_path _ path rfl

theorem trim_writeBody (configurable : f.Configurable) : trim (writeBody f) = writeBody f := by
  refine trim_of_ends (fun c first => ?_) fun c last => ?_
  · have member : c ∈ schemeOfProto f.endpoint.proto := by
      unfold writeBody at first
      cases scheme : schemeOfProto f.endpoint.proto with
      | nil => cases proto : f.endpoint.proto <;> rw [proto] at scheme <;> cases scheme
      | cons letter letters =>
          rw [scheme] at first
          obtain rfl := Option.some.inj first
          exact List.mem_cons_self
    exact (mem_schemeOfProto c member).2.2
  · unfold writeBody at last
    cases same : f.path with
    | none =>
        rw [same, Option.elim_none, List.append_nil] at last
        rcases List.mem_append.mp (List.mem_of_getLast? last) with scheme | later
        · exact (mem_schemeOfProto c scheme).2.2
        rcases List.mem_append.mp later with separator | authority
        · have solid : ([':', '/', '/'].all fun c => !isWhitespace c) = true := rfl
          simpa using List.all_eq_true.mp solid c separator
        · exact (mem_writeAuthority c authority).2.2
    | some path =>
        obtain ⟨-, rest, rfl, longer, -, ends⟩ := configurable.path path same
        rw [same, Option.elim_some, String.toList_ofList] at last
        refine ends c ?_
        rw [← List.append_assoc, ← List.append_assoc, List.getLast?_append,
          List.getLast?_cons_of_ne_nil longer] at last
        rw [List.getLast?_eq_some_getLast longer] at last ⊢
        exact last

theorem splitFragment_write (configurable : f.Configurable) :
    splitFragment (writeUpstream f) = (writeBody f, f.host.map String.toList) := by
  have absent := name_not_mem_writeBody configurable
  have trimmed := trim_writeBody configurable
  unfold splitFragment writeUpstream
  cases host : f.host with
  | none =>
      rw [Option.elim_none, List.append_nil, splitOnce_eq_none absent]
      dsimp only
      rw [trimmed]
      rfl
  | some name =>
      have verified : trim name.toList = name.toList := by
        cases encrypted : isEncrypted f.endpoint.proto with
        | false =>
            have plain := (configurable.plain encrypted).1
            rw [host] at plain
            cases plain
        | true =>
            obtain ⟨given, same, -, solid⟩ := configurable.named encrypted
            rw [host] at same
            obtain rfl := Option.some.inj same
            rw [String.toList_ofList]
            exact solid
      rw [Option.elim_some, splitOnce_append absent]
      dsimp only
      rw [trimmed, verified]
      rfl

theorem splitScheme_write (f : Forwarder) : splitScheme (writeBody f) =
    (schemeOfProto f.endpoint.proto,
      writeAuthority f.endpoint.ip f.endpoint.port ++ f.path.elim [] String.toList) := by
  have absent : ':' ∉ schemeOfProto f.endpoint.proto :=
    fun member => (mem_schemeOfProto _ member).1 rfl
  unfold splitScheme writeBody
  rw [splitOnceText_append absent]
  dsimp only
  rw [map_toLower_scheme]

theorem splitPath_write (configurable : f.Configurable) (scheme : List Char) :
    splitPath debug s scheme f.endpoint.proto
        (writeAuthority f.endpoint.ip f.endpoint.port ++ f.path.elim [] String.toList) =
      .ok (writeAuthority f.endpoint.ip f.endpoint.port, f.path.map fun path => path.toList.tail) := by
  have absent : '/' ∉ writeAuthority f.endpoint.ip f.endpoint.port :=
    fun member => (mem_writeAuthority _ member).2.1 rfl
  unfold splitPath
  cases same : f.path with
  | none =>
      rw [Option.elim_none, List.append_nil, splitOnce_eq_none absent]
      rfl
  | some path =>
      obtain ⟨takes, rest, rfl, -⟩ := configurable.path path same
      rw [Option.elim_some, String.toList_ofList, splitOnce_append absent, takes, Option.map_some,
        String.toList_ofList]
      rfl

/-- A forwarder is read from what it is written as. -/
theorem parse_write (configurable : f.Configurable) :
    parseUpstream debug (writeUpstream f) = .ok f := by
  have body : writeBody f ≠ [] := by
    intro empty
    cases proto : f.endpoint.proto <;> rw [writeBody, proto] at empty <;> cases empty
  have rest : writeAuthority f.endpoint.ip f.endpoint.port ++ f.path.elim [] String.toList ≠ [] := by
    intro empty
    have split := (List.append_eq_nil_iff.mp empty).1
    cases (List.append_eq_nil_iff.mp split).2
  have named : f.host.map String.toList ≠ some [] := by
    intro empty
    obtain ⟨name, host, none⟩ := Option.map_eq_some_iff.mp empty
    cases encrypted : isEncrypted f.endpoint.proto with
    | false =>
        rw [(configurable.plain encrypted).1] at host
        cases host
    | true =>
        obtain ⟨given, same, longer, -⟩ := configurable.named encrypted
        rw [host] at same
        obtain rfl := Option.some.inj same
        rw [String.toList_ofList] at none
        exact longer none
  have taken := protoOfScheme_scheme f.endpoint.proto
  have address := parseAuthority_write f.endpoint.ip f.endpoint.port
  unfold parseUpstream
  rw [splitFragment_write configurable]
  dsimp only
  rw [failIf_of_not body, ok_bind, failIf_of_not named, ok_bind, splitScheme_write]
  dsimp only
  rw [failIf_of_not rest, ok_bind, okOr_eq_ok.mpr taken, ok_bind, splitPath_write configurable,
    ok_bind]
  dsimp only
  rw [okOr_eq_ok.mpr address, ok_bind]
  dsimp only [Option.getD_some]
  rw [failIf_of_not configurable.port, ok_bind]
  cases encrypted : isEncrypted f.endpoint.proto with
  | false =>
      obtain ⟨host, path⟩ := configurable.plain encrypted
      obtain ⟨endpoint, _, _⟩ := f
      dsimp only at host path
      rw [host, path]
      rfl
  | true =>
      obtain ⟨name, host, -⟩ := configurable.named encrypted
      have verified : f.host.map String.toList = some name := by
        rw [host, Option.map_some, String.toList_ofList]
      rw [okOr_eq_ok.mpr verified, if_neg Bool.true_eq_false_eq_False, ok_bind]
      cases same : f.path with
      | none =>
          obtain ⟨endpoint, _, _⟩ := f
          dsimp only at host same
          rw [host, same]
          rfl
      | some path =>
          obtain ⟨-, later, rfl, longer, -⟩ := configurable.path path same
          obtain ⟨endpoint, _, _⟩ := f
          dsimp only at host same
          rw [host, same, Option.map_some, String.toList_ofList]
          cases later with
          | nil => exact absurd rfl longer
          | cons c later => rfl

/-- **Upstream strings.** Strings configure exactly the forwarders with a port, of which the plain
ones have neither name nor path, the encrypted ones a name, and only those over HTTP a path; and
each of these is read from what it is written as. -/
theorem configurable_iff (debug : List Char → String) (f : Forwarder) :
    ((∃ s, parseUpstream debug s = .ok f) ↔ f.Configurable) ∧
      (parseUpstream debug (writeUpstream f) = .ok f ↔ f.Configurable) := by
  refine ⟨⟨?_, fun configurable => ⟨writeUpstream f, parse_write configurable⟩⟩,
    configurable_of_parse, parse_write⟩
  rintro ⟨s, read⟩
  exact configurable_of_parse read

end RecurseX.Forward
