import RecurseX.Doq.Coalesced
import RecurseX.Doq.Operations

/-!
# Turns

A datagram may carry several packets, and what is learnt from one of them counts for the
next. So a run is taken apart once more: into turns, each of which is one packet, or an
operation that is no datagram.
-/

namespace RecurseX.Doq

open Library Wire Stateful QuicConnection

variable {PacketKey RootStore : Type}

/-- Whether an operation takes a datagram. -/
def Op.isDatagram : Op → Bool
  | .datagram .. => true
  | _ => false

/-- A step of a run: the ClientHello, a packet with what follows it in its datagram, or an
operation that is no datagram. -/
inductive Turn where
  | greet (env : Env) (hello : Bytes)
  | packet (env : Env) (dg : Bytes)
  | other (op : Op) (undelivered : op.isDatagram = false)

section Acting

variable (codec : Codec PacketKey) (env : Env) (crypto : Crypto RootStore)

/-- Take the first packet of what is left of a datagram; what is returned is where the next
one starts, if the datagram goes on. -/
def firstPacket (dg : Bytes) : Act PacketKey RootStore (Option Nat) :=
  if longVersion dg 0 then shut versionNegotiation
  else if isRetry dg then do
    processRetry codec env dg
    pure none
  else processPacket codec env crypto dg

/-- What a turn does. -/
def Turn.act : Turn → Act PacketKey RootStore Unit
  | .greet env hello => QuicConnection.greet codec env hello
  | .packet env dg => do
      let _ ← firstPacket codec env crypto dg
      pure ()
  | .other op _ => op.act codec crypto

/-- Turns one after the other, whether they fail or not. -/
def turnAll (turns : List Turn) (conn : QuicConnection PacketKey RootStore) :
    QuicConnection PacketKey RootStore :=
  turns.foldl (fun conn turn => (turn.act codec crypto conn).2) conn

/-- The turns a datagram takes. -/
def packetTurns : (fuel : Nat) → (dg : Bytes) → QuicConnection PacketKey RootStore → List Turn
  | 0, _, _ => []
  | fuel + 1, dg, conn =>
      if dg.isEmpty then []
      else .packet env dg ::
        match firstPacket codec env crypto dg conn with
        | (.ok (some stop), next) => packetTurns fuel (dg.drop stop) next
        | _ => []

/-- The turns an operation takes. -/
def Op.turns (conn : QuicConnection PacketKey RootStore) : Op → List Turn
  | .datagram env dg => packetTurns codec env crypto (dg.length + 1) dg conn
  | .heard => [.other .heard rfl]
  | .flushAcks env => [.other (.flushAcks env) rfl]
  | .runPto env => [.other (.runPto env) rfl]
  | .flushQuery env => [.other (.flushQuery env) rfl]
  | .openStream query => [.other (.openStream query) rfl]
  | .close env => [.other (.close env) rfl]

end Acting

section Turning

variable {codec : Codec PacketKey} {env : Env} {crypto : Crypto RootStore}
variable {conn after : QuicConnection PacketKey RootStore}

theorem turnAll_append (turns later : List Turn) :
    turnAll codec crypto (turns ++ later) conn =
      turnAll codec crypto later (turnAll codec crypto turns conn) :=
  List.foldl_append

theorem turnAll_concat (turns : List Turn) (turn : Turn) :
    turnAll codec crypto (turns ++ [turn]) conn =
      (turn.act codec crypto (turnAll codec crypto turns conn)).2 :=
  turnAll_append turns [turn]

/-! ## Operations are turns -/

/-- A datagram goes on from its first packet. -/
theorem processPackets_succ {fuel : Nat} {dg : Bytes} (octets : dg.isEmpty = false) :
    processPackets codec env crypto (fuel + 1) dg conn =
      (firstPacket codec env crypto dg >>= fun stopped =>
        match stopped with
        | none => pure ()
        | some stop => do
            let rest ← .lift (restAt dg stop)
            processPackets codec env crypto fuel rest) conn := by
  rw [processPackets, if_neg (by simp [octets]), firstPacket]
  split_ifs
  · rfl
  · exact (bind_assoc_run.trans bind_pure_unit_run).symm
  · rfl

/-- The packets of a datagram are its turns, and end as it does. -/
theorem packetTurns_ran {fuel : Nat} {dg : Bytes} {outcome : Except Error Unit}
    (ran : processPackets codec env crypto fuel dg conn = (outcome, after)) :
    turnAll codec crypto (packetTurns codec env crypto fuel dg conn) conn = after ∧
      (outcome = .ok () →
        each (Turn.act codec crypto) (packetTurns codec env crypto fuel dg conn) conn =
          (.ok (), after)) := by
  induction fuel generalizing dg conn with
  | zero =>
      cases ran
      exact ⟨rfl, by simp⟩
  | succ fuel inductionHypothesis =>
      cases empty : dg.isEmpty with
      | true =>
          rw [processPackets, if_pos empty] at ran
          cases ran
          rw [packetTurns, if_pos empty]
          exact ⟨rfl, fun _ => rfl⟩
      | false =>
          rw [processPackets_succ empty] at ran
          rw [packetTurns, if_neg (by simp [empty])]
          rcases first : firstPacket codec env crypto dg conn with ⟨stopped, middle⟩
          have turned : (Turn.packet env dg).act codec crypto conn =
              (stopped.map fun _ => (), middle) := by
            cases stopped with
            | error error => exact bind_of_error first
            | ok stop => exact bind_of_ok first
          rw [turnAll, List.foldl_cons, turned]
          cases stopped with
          | error error =>
              cases (bind_of_error first).symm.trans ran
              exact ⟨rfl, by simp⟩
          | ok stop =>
              rw [bind_of_ok first] at ran
              rw [each, bind_of_ok turned]
              cases stop with
              | none =>
                  cases ran
                  exact ⟨rfl, fun _ => rfl⟩
              | some stop =>
                  dsimp only at ran ⊢
                  cases rested : restAt dg stop with
                  | error error =>
                      rw [rested] at ran
                      cases ran
                      have past : dg.drop stop = [] := by
                        refine List.drop_eq_nil_iff.mpr ?_
                        by_contra short
                        cases rested.symm.trans (restAt_eq_ok.mpr ⟨by omega, rfl⟩)
                      rw [past]
                      refine ⟨?_, by simp⟩
                      cases fuel <;> rfl
                  | ok rest =>
                      obtain ⟨-, rfl⟩ := restAt_eq_ok.mp rested
                      rw [rested, lift_ok_bind_run] at ran
                      exact inductionHypothesis ran

theorem op_turns_ran {op : Op} {outcome : Except Error Unit}
    (ran : op.act codec crypto conn = (outcome, after)) :
    turnAll codec crypto (op.turns codec crypto conn) conn = after ∧
      (outcome = .ok () →
        each (Turn.act codec crypto) (op.turns codec crypto conn) conn = (.ok (), after)) := by
  have single {op : Op} {undelivered : op.isDatagram = false}
      (ran : op.act codec crypto conn = (outcome, after)) :
      turnAll codec crypto [.other op undelivered] conn = after ∧
        (outcome = .ok () →
          each (Turn.act codec crypto) [.other op undelivered] conn = (.ok (), after)) := by
    refine ⟨congrArg Prod.snd ran, ?_⟩
    rintro rfl
    exact bind_of_ok ran
  cases op with
  | datagram env dg => exact packetTurns_ran ran
  | heard | flushAcks | runPto | flushQuery | openStream | close => exact single ran

/-- Every run of operations is a run of turns. -/
theorem operate_turns (ops : List Op) :
    ∃ turns, turnAll codec crypto turns conn = operate codec crypto ops conn := by
  induction ops generalizing conn with
  | nil => exact ⟨[], rfl⟩
  | cons op ops inductionHypothesis =>
      obtain ⟨turns, same⟩ := @inductionHypothesis (op.act codec crypto conn).2
      obtain ⟨turned, -⟩ := op_turns_ran (run_eq (rfl : (op.act codec crypto conn).1 = _))
      exact ⟨op.turns codec crypto conn ++ turns, by rw [turnAll_append, turned, same]; rfl⟩

/-! ## A packet that opens -/

/-- A packet that opens is neither a version negotiation nor a Retry. -/
theorem QuicConnection.Opens.ordinary {dg plaintext : Bytes} {header : Header} {space : Space} {pn : Nat}
    (opens : Opens codec conn dg header space pn plaintext) :
    longVersion dg 0 = false ∧ isRetry dg = false := by
  have parsed := opens.parsed
  unfold parseHeader at parsed
  obtain ⟨first, starts, parsed⟩ := bind_eq_ok.mp parsed
  rw [okOr_eq_ok] at starts
  split_ifs at parsed with isLong
  · obtain ⟨version, ptype⟩ := parseLongHeader_checked parsed
    have notRetry : longType first ≠ .retry := by
      intro retry
      obtain ⟨key, read, -⟩ := opens.opened
      unfold readKey at read
      rw [ptype, retry] at read
      split at read <;> simp_all
    cases dg with
    | nil => cases starts
    | cons head tail =>
        obtain rfl : head = first := by simpa using starts
        refine ⟨?_, by simp [isRetry, notRetry]⟩
        simp [longVersion, version, VERSION_1]
  · exact ShortPacket.ordinary ⟨first, starts, not_not.mp isLong⟩

/-- What is done with a packet that opens. -/
theorem QuicConnection.Opens.firstPacket (lawful : codec.Lawful) {dg plaintext : Bytes} {header : Header}
    {space : Space} {pn : Nat} (opens : Opens codec conn dg header space pn plaintext) (env : Env)
    (crypto : Crypto RootStore) :
    Doq.firstPacket codec env crypto dg conn =
      (processPlaintext codec env crypto space pn plaintext >>= fun _ =>
        pure (some header.payloadEnd)) ((conn.learning header).numbering space pn) := by
  obtain ⟨version, retry⟩ := opens.ordinary
  rw [Doq.firstPacket, if_neg (by simp [version]), if_neg (by simp [retry])]
  obtain ⟨there, number, octets, again, ran⟩ | ⟨last, ⟨other, reparsed, unopened, -⟩, -⟩ :=
    processPacket_cases env crypto lawful opens.parsed
  · obtain ⟨-, rfl, rfl, rfl⟩ := opens.unique again
    exact ran
  · obtain rfl := Except.ok.inj (opens.parsed.symm.trans reparsed)
    exact absurd opens (unopened space pn plaintext)

/-- What the turn of a packet that opens does. -/
theorem QuicConnection.Opens.turn (lawful : codec.Lawful) {dg plaintext : Bytes} {header : Header}
    {space : Space} {pn : Nat} (opens : Opens codec conn dg header space pn plaintext) (env : Env)
    (crypto : Crypto RootStore) :
    (Turn.packet env dg).act codec crypto conn =
      processPlaintext codec env crypto space pn plaintext
        ((conn.learning header).numbering space pn) :=
  (bind_run_eq (opens.firstPacket lawful env crypto)).trans
    (bind_assoc_run.trans bind_pure_unit_run)

end Turning

end RecurseX.Doq
