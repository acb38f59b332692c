import RecurseX.Library.BigEndian
import RecurseX.Library.BlockStream

/-!
# The keyed random generator

ChaCha20 in counter mode. A request may end anywhere in a block, and the next one goes
on from there; `keystream_continuous` says that the requests together are served the
keystream from its start, whatever their sizes.
-/

namespace RecurseX

open Library

/-! ## The block function -/

/-- Sixteen words: the state of ChaCha20, and one block of keystream. -/
abbrev ChaChaState := Vector UInt32 16

/-- The word with the given octets, least significant first. -/
def ofLe32 (bytes : Bytes) : UInt32 := UInt32.ofNat (natOfBytes bytes.reverse)

/-- The four octets of a word, least significant first. -/
def le32 (value : UInt32) : Bytes := (bytesOfNat 4 value.toNat).reverse

/-- The word with the given octets, least significant first. -/
def ofLe64 (bytes : Bytes) : UInt64 := UInt64.ofNat (natOfBytes bytes.reverse)

/-- The eight octets of a word, least significant first. -/
def le64 (value : UInt64) : Bytes := (bytesOfNat 8 value.toNat).reverse

theorem le64_ofLe64 {bytes : Bytes} (length : bytes.length = 8) : le64 (ofLe64 bytes) = bytes := by
  have bound := natOfBytes_lt bytes.reverse
  rw [List.length_reverse, length, show 256 ^ 8 = 2 ^ 64 by decide] at bound
  have spelled := bytesOfNat_natOfBytes bytes.reverse
  rw [List.length_reverse, length] at spelled
  rw [le64, ofLe64, UInt64.toNat_ofNat', Nat.mod_eq_of_lt bound, spelled, List.reverse_reverse]

namespace ChaChaState

def word (s : ChaChaState) (i : Nat) : UInt32 := s[i]?.getD 0

def setWord (s : ChaChaState) (i : Nat) (v : UInt32) : ChaChaState := s.setIfInBounds i v

/-- Write the words with the given octets from `start` on. -/
def setWords (s : ChaChaState) (start : Nat) (bytes : Bytes) : ChaChaState :=
  (bytes.toChunks 4).zipIdx.foldl (fun s (chunk, i) => s.setWord (start + i) (ofLe32 chunk)) s

end ChaChaState

/-- Rotate a word to the left. -/
def rotateLeft (value : UInt32) (count : UInt32) : UInt32 :=
  (value <<< count) ||| (value >>> (32 - count))

/-- The quarter round on four words of a state. -/
def quarterRound (s : ChaChaState) (a b c d : Nat) : ChaChaState :=
  let sa := s.word a + s.word b
  let sd := rotateLeft (s.word d ^^^ sa) 16
  let sc := s.word c + sd
  let sb := rotateLeft (s.word b ^^^ sc) 12
  let sa := sa + sb
  let sd := rotateLeft (sd ^^^ sa) 8
  let sc := sc + sd
  let sb := rotateLeft (sb ^^^ sc) 7
  (((s.setWord a sa).setWord b sb).setWord c sc).setWord d sd

/-- Two rounds: the columns, then the diagonals. -/
def doubleRound (state : ChaChaState) : ChaChaState :=
  let state := quarterRound state 0 4 8 12
  let state := quarterRound state 1 5 9 13
  let state := quarterRound state 2 6 10 14
  let state := quarterRound state 3 7 11 15
  let state := quarterRound state 0 5 10 15
  let state := quarterRound state 1 6 11 12
  let state := quarterRound state 2 7 8 13
  quarterRound state 3 4 9 14

/-- The 20-round block function. -/
def chacha20Block (key : Octets 32) (counter : UInt32) (nonce : Octets 12) : ChaChaState :=
  let state : ChaChaState := Vector.replicate 16 0
  -- "expand 32-byte k"
  let state := (((state.setWord 0 0x61707865).setWord 1 0x3320646e).setWord 2 0x79622d32).setWord 3
    0x6b206574
  let state := state.setWords 4 key.1
  let state := state.setWord 12 counter
  let working := state.setWords 13 nonce.1
  let state := (List.range 10).foldl (fun state _ => doubleRound state) working
  (List.range 16).foldl (fun state i => state.setWord i (state.word i + working.word i)) state

/-- The test vector of RFC 8439 §2.3.2. -/
example : (chacha20Block ⟨(List.range 32).map UInt8.ofNat, rfl⟩ 1
      ⟨[0, 0, 0, 9, 0, 0, 0, 0x4a, 0, 0, 0, 0], rfl⟩).toList =
    [0xe4e7f110, 0x15593bd1, 0x1fdd0f50, 0xc47120a3, 0xc7f4d1c7, 0x0368c033, 0x9aaa2204,
      0x4e6cd4c3, 0x466482d2, 0x09aa9f07, 0x05d7c214, 0xa2028bd9, 0xd19c12b5, 0xb94e16de,
      0xe883d0cb, 0x4e3c50a2] := by
  decide +kernel

/-! ## The generator -/

/-- A counter-mode generator: the block it buffers, and how much of it was used. -/
structure Csprng where
  key : Octets 32
  nonce : Octets 12
  counter : UInt32
  block : Bytes
  pos : Nat
  bytesSinceRekey : Nat
deriving DecidableEq, Repr

/-- A request to the generator: a buffer to fill, or a 64-bit value. -/
inductive Draw where
  | fillBytes (out : Bytes)
  | nextU64
deriving DecidableEq, Repr

/-- How many octets a request asks for. -/
def Draw.size : Draw → Nat
  | .fillBytes out => out.length
  | .nextU64 => 8

/-- What a request is answered with. -/
inductive Drawn where
  | bytes (out : Bytes)
  | value (word : UInt64)
deriving DecidableEq, Repr

/-- The octets of an answer; those of a value stand least significant first. -/
def Drawn.octets : Drawn → Bytes
  | .bytes out => out
  | .value word => le64 word

namespace Csprng

/-- A generator over key material and a nonce. -/
def new (key : Octets 32) (nonce : Octets 12) : Csprng where
  key := key
  nonce := nonce
  counter := 0
  block := List.replicate 64 0
  pos := 64
  bytesSinceRekey := 0

/-- Install fresh key material and reset the counter. -/
def rekey (self : Csprng) (key : Octets 32) (nonce : Octets 12) : Csprng :=
  { self with key := key, nonce := nonce, counter := 0, pos := 64, bytesSinceRekey := 0 }

/- The block function. Nothing below depends on what it computes. -/
variable (cipher : Octets 32 → UInt32 → Octets 12 → ChaChaState)

/-- The octets of a block of keystream. -/
def keystreamBlock (key : Octets 32) (nonce : Octets 12) (counter : Nat) : Bytes :=
  (cipher key (UInt32.ofNat counter) nonce).toList.flatMap le32

/-- Refill the block buffer. The counter wraps. -/
def refill (self : Csprng) : Csprng :=
  { self with
    block := (cipher self.key self.counter self.nonce).toList.flatMap le32
    counter := self.counter + 1
    pos := 0 }

/-- Refill a buffer that is used up. -/
def ready (self : Csprng) : Csprng :=
  if self.pos ≥ self.block.length then self.refill cipher else self

/-- Account for `n` octets of the buffered block. -/
def advance (self : Csprng) (n : Nat) : Csprng :=
  { self with
    pos := self.pos + n
    bytesSinceRekey := min (self.bytesSinceRekey + n) (2 ^ 64 - 1) }

/-- Write at most `want` octets, from one buffered block after the other. Every turn
writes an octet, so `want` turns are enough. -/
def fillLoop : (fuel want : Nat) → Csprng → Bytes × Csprng
  | 0, _, self => ([], self)
  | fuel + 1, want, self =>
      if want = 0 then ([], self)
      else
        let self := self.ready cipher
        let available := self.block.length - self.pos
        let n := min available want
        if n = 0 then ([], self)
        else
          let src := (self.block.drop self.pos).take n
          let (written, self) := fillLoop fuel (want - n) (self.advance n)
          (src ++ written, self)

/-- Fill `out` with octets; what would not be reached keeps its value. -/
def fillBytes (self : Csprng) (out : Bytes) : Bytes × Csprng :=
  let (written, self) := fillLoop cipher out.length out.length self
  (written ++ out.drop written.length, self)

/-- The next 64-bit value. -/
def nextU64 (self : Csprng) : UInt64 × Csprng :=
  let (b, self) := self.fillBytes cipher (List.replicate 8 0)
  (ofLe64 b, self)

/-- Answer one request. -/
def draw (self : Csprng) : Draw → Drawn × Csprng
  | .fillBytes out =>
      let (out, self) := self.fillBytes cipher out
      (.bytes out, self)
  | .nextU64 =>
      let (word, self) := self.nextU64 cipher
      (.value word, self)

/-- Answer requests one after the other. -/
def drawAll (self : Csprng) : List Draw → List Drawn × Csprng
  | [] => ([], self)
  | request :: requests =>
      let (answer, self) := self.draw cipher request
      let (answers, self) := drawAll self requests
      (answer :: answers, self)

/-! ## Continuity -/

/-- The generator handed out the keystream of its key so far, and buffers the rest of the last
block. -/
structure HandedOut (key : Octets 32) (nonce : Octets 12) (out : Bytes) (rng : Csprng) : Prop where
  keyed : rng.key = key ∧ rng.nonce = nonce
  width : rng.block.length = 64
  counted : rng.bytesSinceRekey = out.length
  stream : ∃ blocks, rng.counter = UInt32.ofNat blocks ∧
    Served (keystreamBlock cipher key nonce) blocks out (rng.block.drop rng.pos)

variable {cipher} {key : Octets 32} {nonce : Octets 12} {out : Bytes} {self : Csprng}

theorem length_keystreamBlock (counter : Nat) :
    (keystreamBlock cipher key nonce counter).length = 64 := by
  have octets (value : UInt32) : (le32 value).length = 4 := by
    rw [le32, List.length_reverse, length_bytesOfNat]
  simp [keystreamBlock, List.length_flatMap, octets]

namespace HandedOut

theorem new : HandedOut cipher key nonce [] (.new key nonce) :=
  ⟨⟨rfl, rfl⟩, List.length_replicate, rfl, 0, rfl, .start⟩

/-- A rekey starts the keystream of the new key, whatever is buffered of the old one. -/
theorem rekey (handed : HandedOut cipher key nonce out self) (newKey : Octets 32)
    (newNonce : Octets 12) : HandedOut cipher newKey newNonce [] (self.rekey newKey newNonce) := by
  refine ⟨⟨rfl, rfl⟩, handed.width, rfl, 0, rfl, ?_⟩
  rw [Csprng.rekey, List.drop_of_length_le (Nat.le_of_eq handed.width)]
  exact .start

/-- A used up block is replaced by the next one. -/
theorem refill (handed : HandedOut cipher key nonce out self)
    (usedUp : self.pos ≥ self.block.length) :
    HandedOut cipher key nonce out (self.refill cipher) := by
  obtain ⟨blocks, counter, stream⟩ := handed.stream
  rw [List.drop_of_length_le usedUp] at stream
  have block : (self.refill cipher).block = keystreamBlock cipher key nonce blocks := by
    rw [keystreamBlock, Csprng.refill, handed.keyed.1, handed.keyed.2, counter]
  refine ⟨handed.keyed, ?_, handed.counted, blocks + 1, ?_, ?_⟩
  · rw [block, length_keystreamBlock]
  · rw [Csprng.refill, counter, UInt32.ofNat_add]
    rfl
  · rw [block]
    exact stream.refill

/-- After the refill there is something in the buffer. -/
theorem ready (handed : HandedOut cipher key nonce out self) :
    HandedOut cipher key nonce out (self.ready cipher) ∧
      (self.ready cipher).pos < (self.ready cipher).block.length := by
  rw [Csprng.ready]
  split_ifs with usedUp
  · have refilled := handed.refill usedUp
    refine ⟨refilled, ?_⟩
    rw [refilled.width]
    exact (by decide : 0 < 64)
  · exact ⟨handed, Nat.not_le.mp usedUp⟩

/-- Some of the buffered octets are handed out. -/
theorem advance (handed : HandedOut cipher key nonce out self) {n : Nat}
    (buffered : n ≤ self.block.length - self.pos) (below : out.length + n < 2 ^ 64) :
    HandedOut cipher key nonce (out ++ (self.block.drop self.pos).take n) (self.advance n) := by
  obtain ⟨blocks, counter, stream⟩ := handed.stream
  refine ⟨handed.keyed, handed.width, ?_, blocks, counter, ?_⟩
  · have counted := handed.counted
    simp only [Csprng.advance, List.length_append, List.length_take, List.length_drop]
    omega
  · have rest := stream.take n
    rw [List.drop_drop] at rest
    exact rest

/-- The loop hands out as many octets as are wanted. -/
theorem fillLoop {fuel want : Nat} (handed : HandedOut cipher key nonce out self)
    (enough : want ≤ fuel) (below : out.length + want < 2 ^ 64) :
    (Csprng.fillLoop cipher fuel want self).1.length = want ∧
      HandedOut cipher key nonce (out ++ (Csprng.fillLoop cipher fuel want self).1)
        (Csprng.fillLoop cipher fuel want self).2 := by
  induction fuel generalizing want out self with
  | zero =>
      obtain rfl : want = 0 := by omega
      rw [Csprng.fillLoop, List.append_nil]
      exact ⟨rfl, handed⟩
  | succ fuel inductionHypothesis =>
      rw [Csprng.fillLoop]
      split_ifs with nothing
      · rw [List.append_nil]
        exact ⟨nothing.symm, handed⟩
      obtain ⟨handed, buffered⟩ := handed.ready
      dsimp only
      generalize self.ready cipher = self at handed buffered ⊢
      rw [if_neg (by omega)]
      have advanced := handed.advance (Nat.min_le_left _ want) (by omega)
      have length : ((self.block.drop self.pos).take (min (self.block.length - self.pos) want)).length
          = min (self.block.length - self.pos) want := by
        rw [List.length_take, List.length_drop]
        omega
      have fewer : want - min (self.block.length - self.pos) want ≤ fuel := by omega
      obtain ⟨written, rest⟩ := inductionHypothesis advanced fewer
        (by rw [List.length_append, length]; omega)
      rw [List.append_assoc] at rest
      refine ⟨?_, rest⟩
      dsimp only
      rw [List.length_append, length, written]
      omega

/-- A buffer is filled with the octets that come next. -/
theorem fillBytes (handed : HandedOut cipher key nonce out self) (buffer : Bytes)
    (below : out.length + buffer.length < 2 ^ 64) :
    (self.fillBytes cipher buffer).1.length = buffer.length ∧
      HandedOut cipher key nonce (out ++ (self.fillBytes cipher buffer).1)
        (self.fillBytes cipher buffer).2 := by
  obtain ⟨length, filled⟩ := handed.fillLoop le_rfl below
  have whole : (self.fillBytes cipher buffer).1 =
      (Csprng.fillLoop cipher buffer.length buffer.length self).1 := by
    rw [Csprng.fillBytes]
    dsimp only
    rw [length, List.drop_length, List.append_nil]
  rw [whole]
  exact ⟨length, filled⟩

/-- An answer consists of the octets that come next. -/
theorem draw (handed : HandedOut cipher key nonce out self) (request : Draw)
    (below : out.length + request.size < 2 ^ 64) :
    (self.draw cipher request).1.octets.length = request.size ∧
      HandedOut cipher key nonce (out ++ (self.draw cipher request).1.octets)
        (self.draw cipher request).2 := by
  cases request with
  | fillBytes buffer => exact handed.fillBytes buffer below
  | nextU64 =>
      obtain ⟨length, filled⟩ := handed.fillBytes (List.replicate 8 0) below
      have octets : (self.draw cipher .nextU64).1.octets =
          (self.fillBytes cipher (List.replicate 8 0)).1 := le64_ofLe64 length
      rw [octets]
      exact ⟨length, filled⟩

/-- Answers consist of the octets that come next. -/
theorem drawAll (handed : HandedOut cipher key nonce out self) (requests : List Draw)
    (below : out.length + (requests.map Draw.size).sum < 2 ^ 64) :
    (self.drawAll cipher requests).1.map (·.octets.length) = requests.map Draw.size ∧
      HandedOut cipher key nonce (out ++ (self.drawAll cipher requests).1.flatMap Drawn.octets)
        (self.drawAll cipher requests).2 := by
  induction requests generalizing out self with
  | nil =>
      rw [Csprng.drawAll, List.flatMap_nil, List.append_nil]
      exact ⟨rfl, handed⟩
  | cons request requests inductionHypothesis =>
      rw [List.map_cons, List.sum_cons] at below
      obtain ⟨size, drawn⟩ := handed.draw request (by omega)
      obtain ⟨sizes, rest⟩ := inductionHypothesis drawn (by rw [List.length_append, size]; omega)
      rw [List.append_assoc, ← List.flatMap_cons] at rest
      exact ⟨congrArg₂ List.cons size sizes, rest⟩

/-- The answers from the start of a keystream on. -/
theorem answers (handed : HandedOut cipher key nonce [] self) (requests : List Draw)
    (lasts : (requests.map Draw.size).sum ≤ 2 ^ 32 * 64) :
    (self.drawAll cipher requests).1.map (·.octets.length) = requests.map Draw.size ∧
      (self.drawAll cipher requests).1.flatMap Drawn.octets =
        (blocksUpTo (keystreamBlock cipher key nonce) (2 ^ 32)).take (requests.map Draw.size).sum ∧
      (self.drawAll cipher requests).2.bytesSinceRekey = (requests.map Draw.size).sum := by
  obtain ⟨sizes, drawn⟩ := handed.drawAll requests
    (by simp only [List.length_nil]; omega)
  rw [List.nil_append] at drawn
  have total : ((self.drawAll cipher requests).1.flatMap Drawn.octets).length =
      (requests.map Draw.size).sum := by
    rw [List.length_flatMap, sizes]
  obtain ⟨blocks, -, stream⟩ := drawn.stream
  refine ⟨sizes, ?_, drawn.counted.trans total⟩
  have served := stream.eq_take length_keystreamBlock (total ▸ lasts)
  rw [total] at served
  exact served

end HandedOut

/-- **Keystream continuity.** The answers to requests of any sizes are, one after the other, the
keystream from its start, and the generator counts their octets. -/
theorem keystream_continuous (cipher : Octets 32 → UInt32 → Octets 12 → ChaChaState)
    (key : Octets 32) (nonce : Octets 12) (requests : List Draw)
    (lasts : (requests.map Draw.size).sum ≤ 2 ^ 32 * 64) :
    ((new key nonce).drawAll cipher requests).1.map (·.octets.length) = requests.map Draw.size ∧
      ((new key nonce).drawAll cipher requests).1.flatMap Drawn.octets =
        (blocksUpTo (keystreamBlock cipher key nonce) (2 ^ 32)).take (requests.map Draw.size).sum ∧
      ((new key nonce).drawAll cipher requests).2.bytesSinceRekey =
        (requests.map Draw.size).sum :=
  HandedOut.new.answers requests lasts

/-- Requests that straddle the end of the first block are served without a gap. -/
theorem keystream_straddles_block :
    ((new ⟨List.replicate 32 7, rfl⟩ ⟨List.replicate 12 3, rfl⟩).drawAll chacha20Block
      [.fillBytes [0, 0, 0], .nextU64, .fillBytes (List.replicate 60 0)]).1.flatMap Drawn.octets =
        (blocksUpTo (keystreamBlock chacha20Block ⟨List.replicate 32 7, rfl⟩
          ⟨List.replicate 12 3, rfl⟩) (2 ^ 32)).take 71 :=
  (keystream_continuous chacha20Block ⟨List.replicate 32 7, rfl⟩ ⟨List.replicate 12 3, rfl⟩
    [.fillBytes [0, 0, 0], .nextU64, .fillBytes (List.replicate 60 0)] (by decide)).2.1

/-- After a rekey the answers are the keystream of the new key from its start. -/
theorem keystream_after_rekey (earlier requests : List Draw) (newKey : Octets 32)
    (newNonce : Octets 12) (lasted : (earlier.map Draw.size).sum ≤ 2 ^ 32 * 64)
    (lasts : (requests.map Draw.size).sum ≤ 2 ^ 32 * 64) :
    ((((new key nonce).drawAll cipher earlier).2.rekey newKey newNonce).drawAll cipher
        requests).1.flatMap Drawn.octets =
      (blocksUpTo (keystreamBlock cipher newKey newNonce) (2 ^ 32)).take
        (requests.map Draw.size).sum := by
  have fresh : HandedOut cipher key nonce [] (.new key nonce) := .new
  have before := fresh.drawAll earlier (by simp only [List.length_nil]; omega)
  exact ((before.2.rekey newKey newNonce).answers requests lasts).2.1

end Csprng

end RecurseX
