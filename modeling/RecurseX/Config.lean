import RecurseX.Library.AddressText
import RecurseX.Library.Text
import RecurseX.Resolver.Basic

/-!
# The spellings of an upstream address

An address may be followed by a port, behind a colon or behind an `@`; an IPv6 address
stands in brackets where a port follows a colon. What a bare IPv6 address looks like is
the hard part: its last colon may seem to separate a port.
-/

namespace RecurseX

open RecurseX.Library

/-- The address that a whole text spells. -/
def parseIp (text : List Char) : Option IpAddr :=
  (parseAddress text).map fun address => match address with
    | .inl octets => .v4 octets
    | .inr octets => .v6 octets

/-- The port that a whole text spells. -/
def parsePort (text : List Char) : Option UInt16 :=
  (parseUnsigned 65536 text).map UInt16.ofNat

/-- Split `host[:port]` or `host@port`, with an IPv6 literal in brackets. -/
def parseAuthority (authority : List Char) : Option (IpAddr × Option UInt16) :=
  let authority := trim authority
  match stripPrefix '[' authority with
  | some rest => do
      let (host, tail) ← splitOnce ']' rest
      let port ←
        if tail = [] then some none
        else do
          let digits ← stripPrefix ':' tail <|> stripPrefix '@' tail
          some (some (← parsePort digits))
      some (← parseIp host, port)
  | none =>
      match rsplitOnce '@' authority with
      | some (host, port) => do some (← parseIp host, some (← parsePort port))
      | none =>
          match rsplitOnce ':' authority with
          | some (host, port) =>
              match parseIp host, parsePort port with
              | some ip, some p => some (ip, some p)
              -- Not `host:port`: the last colon separates two groups of an IPv6 literal.
              | _, _ => (parseIp authority).map fun ip => (ip, none)
          | none => (parseIp authority).map fun ip => (ip, none)

/-- The spellings of an address and an optional port: bare, `ip:port` for IPv4, `ip@port`, and in
brackets for IPv6, with or without a port. -/
inductive SpellsAuthority : List Char → IpAddr → Option UInt16 → Prop where
  | bare {text ip} (address : parseIp text = some ip) : SpellsAuthority text ip none
  | colonPort {text octets digits port} (address : parseIp text = some (.v4 octets))
      (number : parsePort digits = some port) :
      SpellsAuthority (text ++ ':' :: digits) (.v4 octets) (some port)
  | atPort {text ip digits port} (address : parseIp text = some ip)
      (number : parsePort digits = some port) : SpellsAuthority (text ++ '@' :: digits) ip (some port)
  | bracketed {text octets} (address : parseIp text = some (.v6 octets)) :
      SpellsAuthority ('[' :: (text ++ [']'])) (.v6 octets) none
  | bracketedColonPort {text octets digits port} (address : parseIp text = some (.v6 octets))
      (number : parsePort digits = some port) :
      SpellsAuthority ('[' :: (text ++ ']' :: ':' :: digits)) (.v6 octets) (some port)
  | bracketedAtPort {text octets digits port} (address : parseIp text = some (.v6 octets))
      (number : parsePort digits = some port) :
      SpellsAuthority ('[' :: (text ++ ']' :: '@' :: digits)) (.v6 octets) (some port)

/-- What stands before the last colon is an address and what stands behind it is a number. -/
def LooksLikeHostPort (text : List Char) : Prop :=
  ∃ host digits, rsplitOnce ':' text = some (host, digits) ∧ (parseIp host).isSome ∧
    (parsePort digits).isSome

variable {text digits : List Char} {ip : IpAddr} {port : UInt16} {c : Char}

theorem isAddressChar_of_parseIp (address : parseIp text = some ip) :
    ∀ c ∈ text, isAddressChar c = true := by
  obtain ⟨_, parsed, -⟩ := Option.map_eq_some_iff.mp address
  exact isAddressChar_of_parseAddress parsed

theorem mem_parsePort (number : parsePort digits = some port) :
    ∀ c ∈ digits, c = '+' ∨ isDigit 10 c = true := by
  obtain ⟨_, parsed, -⟩ := Option.map_eq_some_iff.mp number
  exact mem_parseUnsigned parsed

theorem toNat_of_isAddressChar (written : isAddressChar c = true) : 46 ≤ c.toNat ∧ c.toNat ≤ 122 := by
  rw [isAddressChar, Bool.or_eq_true, Bool.or_eq_true, beq_iff_eq, beq_iff_eq] at written
  obtain (digit | rfl) | rfl := written
  · have range := toNat_of_isDigit (by decide) digit
    omega
  · decide
  · decide

/-- The separators of an authority occur in no address. -/
theorem not_mem_of_parseIp (address : parseIp text = some ip) : '[' ∉ text ∧ ']' ∉ text ∧ '@' ∉ text := by
  have written := isAddressChar_of_parseIp address
  exact ⟨fun inside => absurd (written _ inside) (by decide),
    fun inside => absurd (written _ inside) (by decide),
    fun inside => absurd (written _ inside) (by decide)⟩

theorem not_mem_of_parsePort (number : parsePort digits = some port) :
    ':' ∉ digits ∧ '@' ∉ digits := by
  have written := mem_parsePort number
  exact ⟨fun inside => absurd (written _ inside) (by decide),
    fun inside => absurd (written _ inside) (by decide)⟩

/-- An address and a number have no white space around them. -/
theorem solid_of_parseIp (address : parseIp text = some ip) :
    ∀ c ∈ text, isWhitespace c = false := by
  intro c inside
  have range := toNat_of_isAddressChar (isAddressChar_of_parseIp address c inside)
  exact isWhitespace_eq_false (by omega)

theorem solid_of_parsePort (number : parsePort digits = some port) :
    ∀ c ∈ digits, isWhitespace c = false := by
  intro c inside
  obtain rfl | digit := mem_parsePort number c inside
  · decide
  · have range := toNat_of_isDigit (by decide) digit
    exact isWhitespace_eq_false (by omega)

theorem head?_ne_of_parseIp (address : parseIp text = some ip) (rest : List Char) {c : Char}
    (other : c ≠ '[') : (text ++ c :: rest).head? ≠ some '[' ∧ text.head? ≠ some '[' := by
  cases text with
  | nil => exact ⟨fun same => other (Option.some.inj same), by simp⟩
  | cons first later =>
      have absent := (not_mem_of_parseIp address).1
      have different : first ≠ '[' := fun same => absent (same ▸ List.mem_cons_self)
      exact ⟨fun same => different (Option.some.inj same),
        fun same => different (Option.some.inj same)⟩

/-- No spelling has white space around it. -/
theorem SpellsAuthority.trim_eq {port : Option UInt16} (spelled : SpellsAuthority text ip port) :
    trim text = text := by
  apply Library.trim_eq
  cases spelled with
  | bare address => exact solid_of_parseIp address
  | colonPort address number =>
      have solid := solid_of_parseIp address
      have solidToo := solid_of_parsePort number
      simp only [List.forall_mem_append, List.forall_mem_cons]
      exact ⟨solid, by decide, solidToo⟩
  | atPort address number =>
      have solid := solid_of_parseIp address
      have solidToo := solid_of_parsePort number
      simp only [List.forall_mem_append, List.forall_mem_cons]
      exact ⟨solid, by decide, solidToo⟩
  | bracketed address =>
      have solid := solid_of_parseIp address
      simp only [List.forall_mem_append, List.forall_mem_cons]
      exact ⟨by decide, solid, by decide, by simp⟩
  | bracketedColonPort address number =>
      have solid := solid_of_parseIp address
      have solidToo := solid_of_parsePort number
      simp only [List.forall_mem_append, List.forall_mem_cons]
      exact ⟨by decide, solid, by decide, by decide, solidToo⟩
  | bracketedAtPort address number =>
      have solid := solid_of_parseIp address
      have solidToo := solid_of_parsePort number
      simp only [List.forall_mem_append, List.forall_mem_cons]
      exact ⟨by decide, solid, by decide, by decide, solidToo⟩

/-- A bare address is taken whole where it does not look like a host and a port. -/
theorem parseAuthority_bare (address : parseIp text = some ip) (solid : trim text = text) :
    parseAuthority text = some (ip, none) ↔ ¬ LooksLikeHostPort text := by
  have noBracket : stripPrefix '[' text = none :=
    stripPrefix_eq_none (head?_ne_of_parseIp address [] (c := ':') (by decide)).2
  have noAt := rsplitOnce_eq_none (not_mem_of_parseIp address).2.2
  simp only [parseAuthority, solid, noBracket, noAt]
  cases cut : rsplitOnce ':' text with
  | none =>
      have whole : ¬ LooksLikeHostPort text := by
        rintro ⟨host, digits, split, -⟩
        rw [split] at cut
        cases cut
      simp [address, whole]
  | some parts =>
      obtain ⟨host, digits⟩ := parts
      have looks : LooksLikeHostPort text ↔ (parseIp host).isSome ∧ (parsePort digits).isSome := by
        constructor
        · rintro ⟨host, digits, split, parsed⟩
          obtain ⟨rfl, rfl⟩ := Prod.mk.inj (Option.some.inj (cut.symm.trans split))
          exact parsed
        · exact fun parsed => ⟨host, digits, cut, parsed⟩
      rw [looks]
      cases hostRead : parseIp host with
      | none => simp [hostRead, address]
      | some other => cases portRead : parsePort digits <;> simp [hostRead, portRead, address]

/-- Nothing in brackets looks like a host and a port. -/
theorem not_looksLikeHostPort_bracketed : ¬ LooksLikeHostPort ('[' :: text) := by
  rintro ⟨host, digits, split, parsed, -⟩
  obtain ⟨ip, address⟩ := Option.isSome_iff_exists.mp parsed
  cases host with
  | nil => cases eq_of_rsplitOnce split
  | cons first rest =>
      obtain ⟨rfl, -⟩ := List.cons.inj (eq_of_rsplitOnce split)
      exact (not_mem_of_parseIp address).1 List.mem_cons_self

/-- **Upstream spellings.** Every spelling is read as its address and its port, but for the bare
addresses that look like a host and a port. -/
theorem parseAuthority_eq_iff {port : Option UInt16} (spelled : SpellsAuthority text ip port) :
    parseAuthority text = some (ip, port) ↔ ¬ (port = none ∧ LooksLikeHostPort text) := by
  have solid := spelled.trim_eq
  cases spelled with
  | bare address =>
      rw [parseAuthority_bare address solid]
      simp
  | @colonPort text octets digits port address number =>
      have noBracket : stripPrefix '[' (text ++ ':' :: digits) = none :=
        stripPrefix_eq_none (head?_ne_of_parseIp address digits (by decide)).1
      have noAt : rsplitOnce '@' (text ++ ':' :: digits) = none := by
        refine rsplitOnce_eq_none fun inside => ?_
        obtain inside | inside := List.mem_append.mp inside
        · exact (not_mem_of_parseIp address).2.2 inside
        · obtain same | inside := List.mem_cons.mp inside
          · cases same
          · exact (not_mem_of_parsePort number).2 inside
      simp [parseAuthority, solid, noBracket, noAt,
        rsplitOnce_append (not_mem_of_parsePort number).1, address, number]
  | @atPort text ip digits port address number =>
      have noBracket : stripPrefix '[' (text ++ '@' :: digits) = none :=
        stripPrefix_eq_none (head?_ne_of_parseIp address digits (by decide)).1
      simp [parseAuthority, solid, noBracket, rsplitOnce_append (not_mem_of_parsePort number).2,
        address, number]
  | @bracketed text octets address =>
      simp [parseAuthority, solid, stripPrefix, splitOnce_append (not_mem_of_parseIp address).2.1,
        address, not_looksLikeHostPort_bracketed]
  | @bracketedColonPort text octets digits port address number =>
      simp [parseAuthority, solid, stripPrefix, splitOnce_append (not_mem_of_parseIp address).2.1,
        address, number]
  | @bracketedAtPort text octets digits port address number =>
      simp [parseAuthority, solid, stripPrefix, splitOnce_append (not_mem_of_parseIp address).2.1,
        address, number]

theorem parseAuthority_eq_loopback :
    SpellsAuthority "::1".toList (.v6 ⟨[0, 0, 0, 0, 0, 0, 0, 0, 0, 0, 0, 0, 0, 0, 0, 1], rfl⟩) none ∧
      parseAuthority "::1".toList =
        some (.v6 ⟨[0, 0, 0, 0, 0, 0, 0, 0, 0, 0, 0, 0, 0, 0, 0, 1], rfl⟩, none) := by
  have spelled : SpellsAuthority "::1".toList
      (.v6 ⟨[0, 0, 0, 0, 0, 0, 0, 0, 0, 0, 0, 0, 0, 0, 0, 1], rfl⟩) none := .bare (by decide)
  refine ⟨spelled, (parseAuthority_eq_iff spelled).mpr ?_⟩
  rintro ⟨-, host, digits, split, parsed, -⟩
  obtain ⟨rfl, rfl⟩ := Prod.mk.inj (Option.some.inj
    ((show rsplitOnce ':' "::1".toList = some ([':'], ['1']) by decide).symm.trans split))
  exact absurd parsed (by decide)

/-- The last group of a compressed address is taken for a port. -/
theorem last_group_is_read_as_port :
    ¬ ∀ text ip port, SpellsAuthority text ip port → parseAuthority text = some (ip, port) := by
  intro reads
  have address : parseIp "2001:db8::1:53".toList =
      some (.v6 ⟨[32, 1, 13, 184, 0, 0, 0, 0, 0, 0, 0, 0, 0, 1, 0, 83], rfl⟩) := by decide
  have looks : LooksLikeHostPort "2001:db8::1:53".toList :=
    ⟨"2001:db8::1".toList, "53".toList, by decide, by decide, by decide⟩
  have spelled := SpellsAuthority.bare address
  exact (parseAuthority_bare address spelled.trim_eq).mp (reads _ _ _ spelled) looks

end RecurseX
