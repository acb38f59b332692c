import RecurseX.Doq.Tls

/-!
# What a completed handshake rests on

`feed` is one message at a time, and one field says which message is due. Here
the whole run is put together: the messages that were accepted, what each of
them changed, and the transcript each check and each secret was computed over.
-/

namespace RecurseX.Doq

open Library Wire Stateful

namespace ClientHandshake

variable {RootStore : Type} {crypto : Crypto RootStore} {varint : Varint}

/-! ## One message -/

/-- The state after the ServerHello. -/
def afterServerHello (crypto : Crypto RootStore) (self : ClientHandshake RootStore) (msg : Bytes)
    (suite : UInt16) (share : Bytes) : ClientHandshake RootStore :=
  let shared := crypto.x25519 self.ecdheSecret share
  let secret := handshakeSecretOf crypto suite shared
  let chSh := hashOf crypto suite (self.transcriptMsgs ++ [msg])
  { self with
    suite := some suite
    shared := shared
    sawServerHello := true
    transcriptMsgs := self.transcriptMsgs ++ [msg]
    handshakeSecret := some secret
    cHs := some (deriveSecret crypto suite secret "c hs traffic" chSh)
    sHs := some (deriveSecret crypto suite secret "s hs traffic" chSh) }

/-- The state after the application secrets are derived. -/
def withApplicationSecrets (crypto : Crypto RootStore) (self : ClientHandshake RootStore)
    (suite : UInt16) (secret : Bytes) : ClientHandshake RootStore :=
  let master := masterSecretOf crypto suite secret
  let chToSf := hashOf crypto suite self.transcriptMsgs
  { self with
    cAp := some (deriveSecret crypto suite master "c ap traffic" chToSf)
    sAp := some (deriveSecret crypto suite master "s ap traffic" chToSf) }

/-- The state after the server's Finished. -/
def afterFinished (crypto : Crypto RootStore) (self : ClientHandshake RootStore) (msg : Bytes)
    (suite : UInt16) (secret : Bytes) : ClientHandshake RootStore :=
  let recorded := { self with transcriptMsgs := self.transcriptMsgs ++ [msg] }
  { recorded.withApplicationSecrets crypto suite secret with done := true }

/-- What it takes for a message to be accepted, and what it does. -/
inductive Accepts (crypto : Crypto RootStore) (varint : Varint)
    (self : ClientHandshake RootStore) (msg : Bytes) :
    Option Completed → ClientHandshake RootStore → Prop where
  | serverHello {body share : Bytes} {suite : UInt16}
      (split : splitMessage msg = .ok (HsType.SERVER_HELLO, body))
      (first : self.sawServerHello = false)
      (selected : readServerHello body = .ok (suite, share)) :
      Accepts crypto varint self msg none (self.afterServerHello crypto msg suite share)
  | encryptedExtensions {body : Bytes} {params : ServerTransportParams}
      (split : splitMessage msg = .ok (HsType.ENCRYPTED_EXTENSIONS, body))
      (saw : self.sawServerHello = true) (due : self.next = HsType.ENCRYPTED_EXTENSIONS)
      (parsed : parseEncryptedExtensions varint body = .ok params) :
      Accepts crypto varint self msg none { self with
        serverParams := some params
        next := HsType.CERTIFICATE
        transcriptMsgs := self.transcriptMsgs ++ [msg] }
  | certificate {body : Bytes} {chain : List Bytes}
      (split : splitMessage msg = .ok (HsType.CERTIFICATE, body))
      (saw : self.sawServerHello = true) (due : self.next = HsType.CERTIFICATE)
      (parsed : parseCertificateList body = .ok chain) :
      Accepts crypto varint self msg none { self with
        chain := chain
        next := HsType.CERTIFICATE_VERIFY
        transcriptMsgs := self.transcriptMsgs ++ [msg] }
  | certificateVerify {body : Bytes}
      (split : splitMessage msg = .ok (HsType.CERTIFICATE_VERIFY, body))
      (saw : self.sawServerHello = true) (due : self.next = HsType.CERTIFICATE_VERIFY)
      (verified : self.verifyCertificateVerify crypto body (self.transcriptHash crypto) = .ok ()) :
      Accepts crypto varint self msg none { self with
        next := HsType.FINISHED
        transcriptMsgs := self.transcriptMsgs ++ [msg] }
  | finished {body secret cHs : Bytes} {suite : UInt16}
      (split : splitMessage msg = .ok (HsType.FINISHED, body))
      (saw : self.sawServerHello = true) (due : self.next = HsType.FINISHED)
      (verified : self.verifyServerFinished crypto body (self.transcriptHash crypto) = .ok ())
      (negotiated : self.suite = some suite) (derived : self.handshakeSecret = some secret)
      (client : self.cHs = some cHs) :
      Accepts crypto varint self msg
        (some ⟨hsMessage HsType.FINISHED (finishedMac crypto suite cHs
          (hashOf crypto suite (self.transcriptMsgs ++ [msg]))), suite⟩)
        (self.afterFinished crypto msg suite secret)

theorem parseServerHello_ok {self after : ClientHandshake RootStore} {body : Bytes}
    (ran : parseServerHello crypto body self = (.ok (), after)) :
    ∃ suite share, readServerHello body = .ok (suite, share) ∧
      after = { self with
        suite := some suite
        shared := crypto.x25519 self.ecdheSecret share
        sawServerHello := true } := by
  unfold parseServerHello at ran
  obtain ⟨⟨suite, share⟩, selected, ran⟩ := lift_bind_eq_ok_iff.mp ran
  dsimp only at ran
  rw [read_bind_run] at ran
  split_ifs at ran
  · cases ran
  · cases ran
    exact ⟨suite, share, selected, rfl⟩

theorem deriveHandshakeSecrets_run {self : ClientHandshake RootStore} {suite : UInt16}
    (negotiated : self.suite = some suite) :
    deriveHandshakeSecrets crypto self = (.ok (), { self with
      handshakeSecret := some (handshakeSecretOf crypto suite self.shared)
      cHs := some (deriveSecret crypto suite (handshakeSecretOf crypto suite self.shared)
        "c hs traffic" (hashOf crypto suite self.transcriptMsgs))
      sHs := some (deriveSecret crypto suite (handshakeSecretOf crypto suite self.shared)
        "s hs traffic" (hashOf crypto suite self.transcriptMsgs)) }) := by
  unfold deriveHandshakeSecrets
  rw [read_bind_run]
  simp only [negotiated, transcriptHash, update_run, Option.getD_some]

theorem deriveApplicationSecrets_run {self : ClientHandshake RootStore} {suite : UInt16}
    {secret cHs : Bytes} (negotiated : self.suite = some suite)
    (derived : self.handshakeSecret = some secret) (client : self.cHs = some cHs) :
    deriveApplicationSecrets crypto self =
      (.ok (hsMessage HsType.FINISHED (finishedMac crypto suite cHs
        (hashOf crypto suite self.transcriptMsgs))),
      self.withApplicationSecrets crypto suite secret) := by
  unfold deriveApplicationSecrets
  rw [read_bind_run]
  simp only [negotiated, derived, client, transcriptHash, Option.getD_some, update_bind_run,
    pure_run, withApplicationSecrets]

/-- The secrets are there. -/
def Keyed (self : ClientHandshake RootStore) : Prop :=
  ∃ suite secret cHs, self.suite = some suite ∧ self.handshakeSecret = some secret ∧
    self.cHs = some cHs

theorem keyed_of_deriveApplicationSecrets {self after : ClientHandshake RootStore}
    {finished : Bytes} (ran : deriveApplicationSecrets crypto self = (.ok finished, after)) :
    self.Keyed := by
  unfold deriveApplicationSecrets at ran
  rw [read_bind_run] at ran
  cases negotiated : self.suite with
  | none => simp [negotiated] at ran
  | some suite =>
      cases derived : self.handshakeSecret with
      | none => simp [negotiated, derived] at ran
      | some secret =>
          cases client : self.cHs with
          | none => simp [negotiated, derived, client] at ran
          | some cHs => exact ⟨suite, secret, cHs, negotiated, derived, client⟩

theorem feedFinished_run {self : ClientHandshake RootStore} {msg body secret cHs : Bytes}
    {suite : UInt16} (due : self.next = HsType.FINISHED)
    (verified : self.verifyServerFinished crypto body (self.transcriptHash crypto) = .ok ())
    (negotiated : self.suite = some suite) (derived : self.handshakeSecret = some secret)
    (client : self.cHs = some cHs) :
    feedFinished crypto msg body self =
      (.ok ⟨hsMessage HsType.FINISHED (finishedMac crypto suite cHs
        (hashOf crypto suite (self.transcriptMsgs ++ [msg]))), suite⟩,
      self.afterFinished crypto msg suite secret) := by
  have secrets : deriveApplicationSecrets crypto
      { self with transcriptMsgs := self.transcriptMsgs ++ [msg] } = _ :=
    deriveApplicationSecrets_run negotiated derived client
  unfold feedFinished
  rw [read_bind_run, if_neg (not_not.mpr due), verified, lift_ok_bind_run, record, update_bind_run,
    bind_of_ok secrets, update_bind_run]
  simp only [negotiated, pure_run, afterFinished]

theorem feedFinished_ok {self after : ClientHandshake RootStore} {msg body : Bytes}
    {completed : Completed} (ran : feedFinished crypto msg body self = (.ok completed, after)) :
    ∃ suite secret cHs, self.next = HsType.FINISHED ∧
      self.verifyServerFinished crypto body (self.transcriptHash crypto) = .ok () ∧
      self.suite = some suite ∧ self.handshakeSecret = some secret ∧ self.cHs = some cHs ∧
      completed = ⟨hsMessage HsType.FINISHED (finishedMac crypto suite cHs
        (hashOf crypto suite (self.transcriptMsgs ++ [msg]))), suite⟩ ∧
      after = self.afterFinished crypto msg suite secret := by
  have whole := ran
  unfold feedFinished at ran
  rw [read_bind_run] at ran
  split_ifs at ran with due
  · cases ran
  · obtain ⟨_, verified, ran⟩ := lift_bind_eq_ok_iff.mp ran
    rw [record, update_bind_run] at ran
    obtain ⟨_, _, derived, -⟩ := bind_eq_ok_iff.mp ran
    obtain ⟨suite, secret, cHs, negotiated, kept, client⟩ :=
      keyed_of_deriveApplicationSecrets derived
    rw [feedFinished_run (not_not.mp due) verified negotiated kept client] at whole
    cases whole
    exact ⟨suite, secret, cHs, not_not.mp due, verified, negotiated, kept, client, rfl, rfl⟩

theorem feed_accepts {self after : ClientHandshake RootStore} {msg : Bytes}
    {result : Option Completed} (fed : feed crypto varint msg self = (.ok result, after)) :
    Accepts crypto varint self msg result after := by
  unfold feed at fed
  obtain ⟨⟨msgType, body⟩, split, fed⟩ := lift_bind_eq_ok_iff.mp fed
  dsimp only at fed
  rw [read_bind_run] at fed
  split_ifs at fed with hello flight finish
  · obtain ⟨rfl, first⟩ := hello
    obtain ⟨_, middle, parsed, fed⟩ := bind_eq_ok_iff.mp fed
    obtain ⟨suite, share, selected, rfl⟩ := parseServerHello_ok parsed
    rw [record, update_bind_run, bind_of_ok (deriveHandshakeSecrets_run rfl)] at fed
    cases fed
    exact .serverHello split first selected
  · obtain ⟨_, middle, flown, fed⟩ := bind_eq_ok_iff.mp fed
    rw [record, update_bind_run] at fed
    cases fed
    unfold feedFlight at flown
    rw [read_bind_run] at flown
    split_ifs at flown with due extensions certificate verify
    · cases flown
    · subst extensions
      obtain ⟨params, parsed, flown⟩ := lift_bind_eq_ok_iff.mp flown
      cases flown
      exact .encryptedExtensions split flight.2 (not_not.mp due).symm parsed
    · subst certificate
      obtain ⟨chain, parsed, flown⟩ := lift_bind_eq_ok_iff.mp flown
      cases flown
      exact .certificate split flight.2 (not_not.mp due).symm parsed
    · subst verify
      obtain ⟨_, verified, flown⟩ := lift_bind_eq_ok_iff.mp flown
      cases flown
      exact .certificateVerify split flight.2 (not_not.mp due).symm verified
    · cases flown
  · obtain ⟨completed, _, finished, fed⟩ := bind_eq_ok_iff.mp fed
    cases fed
    obtain ⟨rfl, saw⟩ := finish
    obtain ⟨suite, secret, cHs, due, verified, negotiated, derived, client, rfl, rfl⟩ :=
      feedFinished_ok finished
    exact .finished split saw due verified negotiated derived client
  · cases fed

theorem parseServerHello_refused {self after : ClientHandshake RootStore} {body : Bytes}
    {error : Error} (ran : parseServerHello crypto body self = (.error error, after)) :
    after = self := by
  unfold parseServerHello at ran
  rcases lift_bind_eq_error_iff.mp ran with ⟨-, same⟩ | ⟨⟨suite, share⟩, -, ran⟩
  · exact same
  · dsimp only at ran
    rw [read_bind_run] at ran
    split_ifs at ran
    · cases ran
      rfl
    · cases ran

theorem feedFlight_refused {self after : ClientHandshake RootStore} {msgType : UInt8}
    {body : Bytes} {error : Error}
    (ran : feedFlight crypto varint msgType body self = (.error error, after)) :
    after = self := by
  unfold feedFlight at ran
  rw [read_bind_run] at ran
  split_ifs at ran
  · cases ran
    rfl
  · rcases lift_bind_eq_error_iff.mp ran with ⟨-, same⟩ | ⟨params, -, ran⟩
    · exact same
    · cases ran
  · rcases lift_bind_eq_error_iff.mp ran with ⟨-, same⟩ | ⟨chain, -, ran⟩
    · exact same
    · cases ran
  · rcases lift_bind_eq_error_iff.mp ran with ⟨-, same⟩ | ⟨_, -, ran⟩
    · exact same
    · cases ran
  · cases ran
    rfl

theorem feedFinished_refused {self after : ClientHandshake RootStore} {msg body : Bytes}
    {error : Error} (keyed : self.next = HsType.FINISHED → self.Keyed)
    (ran : feedFinished crypto msg body self = (.error error, after)) : after = self := by
  have whole := ran
  unfold feedFinished at ran
  rw [read_bind_run] at ran
  split_ifs at ran with due
  · cases ran
    rfl
  · obtain ⟨suite, secret, cHs, negotiated, derived, client⟩ := keyed (not_not.mp due)
    rcases lift_bind_eq_error_iff.mp ran with ⟨-, same⟩ | ⟨_, verified, -⟩
    · exact same
    · rw [feedFinished_run (not_not.mp due) verified negotiated derived client] at whole
      cases whole

/-- A refused message changes nothing, if the secrets are there when Finished is due. -/
theorem feed_refused {self after : ClientHandshake RootStore} {msg : Bytes} {error : Error}
    (keyed : self.next = HsType.FINISHED → self.Keyed)
    (fed : feed crypto varint msg self = (.error error, after)) : after = self := by
  unfold feed at fed
  rcases lift_bind_eq_error_iff.mp fed with ⟨-, same⟩ | ⟨⟨msgType, body⟩, -, fed⟩
  · exact same
  · dsimp only at fed
    rw [read_bind_run] at fed
    split_ifs at fed
    · rcases bind_eq_error_iff.mp fed with refused | ⟨_, middle, parsed, fed⟩
      · exact parseServerHello_refused refused
      · obtain ⟨suite, share, -, rfl⟩ := parseServerHello_ok parsed
        rw [record, update_bind_run, bind_of_ok (deriveHandshakeSecrets_run rfl)] at fed
        cases fed
    · rcases bind_eq_error_iff.mp fed with refused | ⟨_, middle, _, fed⟩
      · exact feedFlight_refused refused
      · cases fed
    · rcases bind_eq_error_iff.mp fed with refused | ⟨_, middle, _, fed⟩
      · exact feedFinished_refused keyed refused
      · cases fed
    · cases fed
      rfl

/-! ## The order of the messages -/

/-- Handshakes that are reached by feeding messages, with those that were
accepted, before any of them completed the handshake. -/
inductive Fed (crypto : Crypto RootStore) (varint : Varint) (fresh : ClientHandshake RootStore) :
    List Bytes → ClientHandshake RootStore → Prop where
  | fresh : Fed crypto varint fresh [] fresh
  | accepted {messages : List Bytes} {self after : ClientHandshake RootStore} {msg : Bytes}
      (prior : Fed crypto varint fresh messages self)
      (fed : feed crypto varint msg self = (.ok none, after)) :
      Fed crypto varint fresh (messages ++ [msg]) after
  | refused {messages : List Bytes} {self after : ClientHandshake RootStore} {msg : Bytes}
      {error : Error} (prior : Fed crypto varint fresh messages self)
      (fed : feed crypto varint msg self = (.error error, after)) :
      Fed crypto varint fresh messages after

theorem Fed.step {fresh self : ClientHandshake RootStore} {messages : List Bytes} {msg : Bytes}
    (prior : Fed crypto varint fresh messages self)
    (fed : (feed crypto varint msg self).1 = .ok none) :
    Fed crypto varint fresh (messages ++ [msg]) (feed crypto varint msg self).2 :=
  .accepted prior (run_eq fed)

/-- How far a handshake has come: one constructor for each message that is in. -/
inductive Stage (crypto : Crypto RootStore) (varint : Varint) (fresh : ClientHandshake RootStore) :
    List Bytes → ClientHandshake RootStore → Prop where
  | fresh : Stage crypto varint fresh [] fresh
  | serverHello {sh body share : Bytes} {suite : UInt16}
      (split : splitMessage sh = .ok (HsType.SERVER_HELLO, body))
      (selected : readServerHello body = .ok (suite, share)) :
      Stage crypto varint fresh [sh] (fresh.afterServerHello crypto sh suite share)
  | encryptedExtensions {sh ee body : Bytes} {params : ServerTransportParams}
      {self : ClientHandshake RootStore} (prior : Stage crypto varint fresh [sh] self)
      (split : splitMessage ee = .ok (HsType.ENCRYPTED_EXTENSIONS, body))
      (parsed : parseEncryptedExtensions varint body = .ok params) :
      Stage crypto varint fresh [sh, ee] { self with
        serverParams := some params
        next := HsType.CERTIFICATE
        transcriptMsgs := self.transcriptMsgs ++ [ee] }
  | certificate {sh ee cert body : Bytes} {chain : List Bytes} {self : ClientHandshake RootStore}
      (prior : Stage crypto varint fresh [sh, ee] self)
      (split : splitMessage cert = .ok (HsType.CERTIFICATE, body))
      (parsed : parseCertificateList body = .ok chain) :
      Stage crypto varint fresh [sh, ee, cert] { self with
        chain := chain
        next := HsType.CERTIFICATE_VERIFY
        transcriptMsgs := self.transcriptMsgs ++ [cert] }
  | certificateVerify {sh ee cert cv body : Bytes} {self : ClientHandshake RootStore}
      (prior : Stage crypto varint fresh [sh, ee, cert] self)
      (split : splitMessage cv = .ok (HsType.CERTIFICATE_VERIFY, body))
      (verified : self.verifyCertificateVerify crypto body (self.transcriptHash crypto) = .ok ()) :
      Stage crypto varint fresh [sh, ee, cert, cv] { self with
        next := HsType.FINISHED
        transcriptMsgs := self.transcriptMsgs ++ [cv] }

section Order

variable {fresh self after : ClientHandshake RootStore} {messages : List Bytes} {msg : Bytes}
variable {result : Option Completed}

/-- A handshake that has sent its ClientHello and was fed nothing. -/
structure Unfed (fresh : ClientHandshake RootStore) : Prop where
  unseen : fresh.sawServerHello = false
  due : fresh.next = HsType.ENCRYPTED_EXTENSIONS

/-- What the state shows of the messages that are in. -/
structure Shows (messages : List Bytes) (handshake : ClientHandshake RootStore) : Prop where
  saw : handshake.sawServerHello = true ↔ messages ≠ []
  next : handshake.next = match messages.length with
    | 0 | 1 => HsType.ENCRYPTED_EXTENSIONS
    | 2 => HsType.CERTIFICATE
    | 3 => HsType.CERTIFICATE_VERIFY
    | _ => HsType.FINISHED
  keyed : messages ≠ [] → handshake.Keyed

theorem Stage.shows (unfed : fresh.Unfed) (stage : Stage crypto varint fresh messages self) :
    Shows messages self := by
  induction stage with
  | fresh => exact ⟨by simp [unfed.unseen], unfed.due, by simp⟩
  | serverHello split selected =>
      exact ⟨by simp [afterServerHello], unfed.due, fun _ => ⟨_, _, _, rfl, rfl, rfl⟩⟩
  | encryptedExtensions prior split parsed shown =>
      exact ⟨by simpa using shown.saw, rfl, fun _ => shown.keyed (by simp)⟩
  | certificate prior split parsed shown =>
      exact ⟨by simpa using shown.saw, rfl, fun _ => shown.keyed (by simp)⟩
  | certificateVerify prior split verified shown =>
      exact ⟨by simpa using shown.saw, rfl, fun _ => shown.keyed (by simp)⟩

/-- An accepted message is the next one, or the one that completes the handshake. -/
theorem Stage.accepts (unfed : fresh.Unfed) (stage : Stage crypto varint fresh messages self)
    (accepts : Accepts crypto varint self msg result after) :
    (result = none ∧ Stage crypto varint fresh (messages ++ [msg]) after) ∨
      ∃ completed sh ee cert cv, result = some completed ∧ messages = [sh, ee, cert, cv] := by
  have shown := stage.shows unfed
  cases accepts with
  | serverHello split first selected =>
      cases stage with
      | fresh => exact .inl ⟨rfl, .serverHello split selected⟩
      | serverHello => cases first
      | encryptedExtensions | certificate | certificateVerify =>
          cases first.symm.trans (shown.saw.mpr (by simp))
  | encryptedExtensions split saw due parsed =>
      cases stage with
      | fresh => cases unfed.unseen.symm.trans saw
      | serverHello helloSplit selected =>
          exact .inl ⟨rfl, .encryptedExtensions (.serverHello helloSplit selected) split parsed⟩
      | encryptedExtensions | certificate | certificateVerify =>
          simp [HsType.ENCRYPTED_EXTENSIONS, HsType.CERTIFICATE, HsType.CERTIFICATE_VERIFY,
            HsType.FINISHED] at due
  | certificate split saw due parsed =>
      cases stage with
      | fresh => cases unfed.unseen.symm.trans saw
      | serverHello => exact absurd (unfed.due.symm.trans due) (by decide)
      | encryptedExtensions prior extSplit extParsed =>
          exact .inl ⟨rfl, .certificate (.encryptedExtensions prior extSplit extParsed) split parsed⟩
      | certificate | certificateVerify =>
          simp [HsType.CERTIFICATE, HsType.CERTIFICATE_VERIFY, HsType.FINISHED] at due
  | certificateVerify split saw due verified =>
      cases stage with
      | fresh => cases unfed.unseen.symm.trans saw
      | serverHello => exact absurd (unfed.due.symm.trans due) (by decide)
      | certificate prior certSplit certParsed =>
          exact .inl ⟨rfl, .certificateVerify (.certificate prior certSplit certParsed) split
            verified⟩
      | encryptedExtensions | certificateVerify =>
          simp [HsType.CERTIFICATE, HsType.CERTIFICATE_VERIFY, HsType.FINISHED] at due
  | finished split saw due verified negotiated derived client =>
      cases stage with
      | fresh => cases unfed.unseen.symm.trans saw
      | serverHello => exact absurd (unfed.due.symm.trans due) (by decide)
      | encryptedExtensions | certificate =>
          simp [HsType.CERTIFICATE, HsType.CERTIFICATE_VERIFY, HsType.FINISHED] at due
      | certificateVerify => exact .inr ⟨_, _, _, _, _, rfl, rfl⟩

theorem Fed.stage (unfed : fresh.Unfed) (fed : Fed crypto varint fresh messages self) :
    Stage crypto varint fresh messages self := by
  induction fed with
  | fresh => exact .fresh
  | accepted _ fed stage =>
      rcases stage.accepts unfed (feed_accepts fed) with ⟨-, next⟩ | ⟨_, _, _, _, _, completed, -⟩
      · exact next
      · cases completed
  | @refused messages self after msg error _ fed stage =>
      have keyed : self.next = HsType.FINISHED → self.Keyed := by
        intro due
        have shown := stage.shows unfed
        refine shown.keyed ?_
        rintro rfl
        exact absurd (due.symm.trans shown.next) (by decide)
      rw [feed_refused keyed fed]
      exact stage

end Order

/-! ## What a completed handshake rests on -/

/-- What the server sent in a handshake that completed, taken apart. -/
structure Flight where
  serverHello : Bytes
  encryptedExtensions : Bytes
  certificate : Bytes
  certificateVerify : Bytes
  finished : Bytes
  suite : UInt16
  share : Bytes
  params : ServerTransportParams
  /-- The chain of the Certificate message, and its leaf. -/
  chain : List Bytes
  leafDer : Bytes
  leaf : Certificate
  /-- The scheme and the signature of the CertificateVerify message. -/
  scheme : UInt16
  signature : Bytes
  mac : Bytes

/-- The messages in order. -/
def Flight.messages (flight : Flight) : List Bytes :=
  [flight.serverHello, flight.encryptedExtensions, flight.certificate, flight.certificateVerify,
    flight.finished]

/-- The handshake secret of the flight. -/
def Flight.secret (crypto : Crypto RootStore) (entropy : Entropy) (flight : Flight) : Bytes :=
  handshakeSecretOf crypto flight.suite (crypto.x25519 entropy.ecdheSecret flight.share)

/-- The server's handshake traffic secret, over `ClientHello..ServerHello`. -/
def Flight.serverSecret (crypto : Crypto RootStore) (entropy : Entropy) (hello : Bytes)
    (flight : Flight) : Bytes :=
  deriveSecret crypto flight.suite (flight.secret crypto entropy) "s hs traffic"
    (hashOf crypto flight.suite [hello, flight.serverHello])

/-- The five messages have their types and contents. -/
structure Flight.Parsed (varint : Varint) (flight : Flight) : Prop where
  serverHello : ∃ body, splitMessage flight.serverHello = .ok (HsType.SERVER_HELLO, body) ∧
    readServerHello body = .ok (flight.suite, flight.share)
  encryptedExtensions : ∃ body,
    splitMessage flight.encryptedExtensions = .ok (HsType.ENCRYPTED_EXTENSIONS, body) ∧
    parseEncryptedExtensions varint body = .ok flight.params
  certificate : ∃ body, splitMessage flight.certificate = .ok (HsType.CERTIFICATE, body) ∧
    parseCertificateList body = .ok flight.chain
  certificateVerify : ∃ body,
    splitMessage flight.certificateVerify = .ok (HsType.CERTIFICATE_VERIFY, body) ∧
    u16At body 0 = .ok flight.scheme ∧ restAt body 4 = .ok flight.signature
  finished : splitMessage flight.finished = .ok (HsType.FINISHED, flight.mac)

/-- The checks the server passed. -/
structure Flight.Checked (crypto : Crypto RootStore) (cfg : ClientConfig RootStore)
    (entropy : Entropy) (hello : Bytes) (flight : Flight) : Prop where
  leafFirst : flight.chain.head? = some flight.leafDer
  leafParsed : crypto.parseCertificate flight.leafDer = .ok flight.leaf
  chain : cfg.verify = true → crypto.validateChain cfg.roots flight.chain cfg.now = .ok ()
  serverAuth : cfg.verify = true → crypto.hasServerAuthEku flight.leaf = true
  hostname : cfg.verify = true → ∀ hostname, cfg.hostname = some hostname →
    crypto.hostnameMatches hostname flight.leaf.dnsNames flight.leaf.ipNames = true
  /-- The leaf's key signed `ClientHello..Certificate`. -/
  signature : verifySignature crypto flight.suite flight.leaf flight.scheme
    (signedContent (hashOf crypto flight.suite [hello, flight.serverHello,
      flight.encryptedExtensions, flight.certificate])) flight.signature = .ok true
  /-- The MAC is over `ClientHello..CertificateVerify`. -/
  mac : flight.mac = finishedMac crypto flight.suite (flight.serverSecret crypto entropy hello)
    (hashOf crypto flight.suite [hello, flight.serverHello, flight.encryptedExtensions,
      flight.certificate, flight.certificateVerify])

/-- The secrets the client holds at the end. -/
structure Flight.Keys (crypto : Crypto RootStore) (entropy : Entropy) (hello : Bytes)
    (flight : Flight) (handshake : ClientHandshake RootStore) : Prop where
  suite : handshake.suite = some flight.suite
  clientHandshake : handshake.cHs = some (deriveSecret crypto flight.suite
    (flight.secret crypto entropy) "c hs traffic"
    (hashOf crypto flight.suite [hello, flight.serverHello]))
  serverHandshake : handshake.sHs = some (flight.serverSecret crypto entropy hello)
  clientApplication : handshake.cAp = some (deriveSecret crypto flight.suite
    (masterSecretOf crypto flight.suite (flight.secret crypto entropy)) "c ap traffic"
    (hashOf crypto flight.suite (hello :: flight.messages)))
  serverApplication : handshake.sAp = some (deriveSecret crypto flight.suite
    (masterSecretOf crypto flight.suite (flight.secret crypto entropy)) "s ap traffic"
    (hashOf crypto flight.suite (hello :: flight.messages)))

theorem validateCertificate_ok {self : ClientHandshake RootStore} {leaf : Certificate}
    (checked : self.validateCertificate crypto leaf = .ok ()) (verify : self.cfg.verify = true) :
    crypto.validateChain self.cfg.roots self.chain self.cfg.now = .ok () ∧
      crypto.hasServerAuthEku leaf = true ∧
      ∀ hostname, self.cfg.hostname = some hostname →
        crypto.hostnameMatches hostname leaf.dnsNames leaf.ipNames = true := by
  unfold validateCertificate at checked
  rw [if_neg (by simp [verify]), bind_eq_ok] at checked
  obtain ⟨_, chain, checked⟩ := checked
  obtain ⟨_, serverAuth, checked⟩ := bind_eq_ok.mp checked
  refine ⟨mapError_eq_ok.mp chain, by simpa using failIf_eq_ok.mp serverAuth, fun hostname set => ?_⟩
  rw [set] at checked
  simpa using failIf_eq_ok.mp checked

theorem verifyCertificateVerify_ok {self : ClientHandshake RootStore} {body hash : Bytes}
    (verified : self.verifyCertificateVerify crypto body hash = .ok ()) :
    ∃ scheme signature leafDer leaf suite, u16At body 0 = .ok scheme ∧
      restAt body 4 = .ok signature ∧ self.chain.head? = some leafDer ∧
      crypto.parseCertificate leafDer = .ok leaf ∧
      self.validateCertificate crypto leaf = .ok () ∧ self.suite = some suite ∧
      verifySignature crypto suite leaf scheme (signedContent hash) signature = .ok true := by
  unfold verifyCertificateVerify at verified
  simp only [bind_eq_ok] at verified
  obtain ⟨_, _, scheme, schemeRead, sigLen, _, _, _, signature, signatureRead, leafDer, leafFirst,
    leaf, leafParsed, _, validated, suite, negotiated, ok, checked, passed⟩ := verified
  refine ⟨scheme, signature, leafDer, leaf, suite, schemeRead, signatureRead,
    okOr_eq_ok.mp leafFirst, mapError_eq_ok.mp leafParsed, validated, okOr_eq_ok.mp negotiated, ?_⟩
  rw [checked, show ok = true by simpa using failIf_eq_ok.mp passed]

theorem verifyServerFinished_ok {self : ClientHandshake RootStore} {body hash sHs : Bytes}
    {suite : UInt16} (negotiated : self.suite = some suite) (derived : self.sHs = some sHs)
    (verified : self.verifyServerFinished crypto body hash = .ok ()) :
    body = finishedMac crypto suite sHs hash := by
  unfold verifyServerFinished at verified
  rw [negotiated, derived] at verified
  simp only [okOr, ok_bind, bind_eq_ok, failIf_eq_ok, not_not] at verified
  obtain ⟨_, _, same⟩ := verified
  exact same.symm

/-- A handshake that was fed nothing yet: its ClientHello is the whole transcript. -/
def greeted (varint : Varint) (cfg : ClientConfig RootStore) (entropy : Entropy) :
    ClientHandshake RootStore :=
  ((new cfg entropy).clientHello varint).2

/-- The ClientHello of a handshake. -/
def greeting (varint : Varint) (cfg : ClientConfig RootStore) (entropy : Entropy) : Bytes :=
  ((new cfg entropy).clientHello varint).1

theorem greeted_unfed {cfg : ClientConfig RootStore} {entropy : Entropy} :
    (greeted varint cfg entropy).Unfed := ⟨rfl, rfl⟩

/-- Whatever is fed, the handshake completes only with the five messages of the
server in order, after all of its checks and with the secrets of that transcript. -/
theorem completed_flight (crypto : Crypto RootStore) (varint : Varint)
    (cfg : ClientConfig RootStore) (entropy : Entropy) (accepted : List Bytes)
    (handshake final : ClientHandshake RootStore) (msg : Bytes) (completed : Completed)
    (fed : Fed crypto varint (greeted varint cfg entropy) accepted handshake)
    (last : feed crypto varint msg handshake = (.ok (some completed), final)) :
    ∃ flight : Flight, accepted ++ [msg] = flight.messages ∧ flight.Parsed varint ∧
      flight.Checked crypto cfg entropy (greeting varint cfg entropy) ∧
      flight.Keys crypto entropy (greeting varint cfg entropy) final := by
  have stage := fed.stage greeted_unfed
  have accepts := feed_accepts last
  have order := stage.accepts greeted_unfed accepts
  rcases order with ⟨done, -⟩ | ⟨_, sh, ee, cert, cv, -, rfl⟩
  · cases done
  · cases accepts with
    | finished split saw due verified negotiated derived client =>
        cases stage with
        | certificateVerify prior cvSplit cvVerified =>
            cases prior with
            | certificate prior certSplit certParsed =>
                cases prior with
                | encryptedExtensions prior eeSplit eeParsed =>
                    cases prior with
                    | @serverHello _ _ share _ shSplit selected =>
                        cases negotiated
                        cases derived
                        obtain ⟨scheme, signature, leafDer, leaf, _, schemeRead, signatureRead,
                          leafFirst, leafParsed, validated, suiteKept, signed⟩ :=
                          verifyCertificateVerify_ok cvVerified
                        cases suiteKept
                        have mac := verifyServerFinished_ok rfl rfl verified
                        exact ⟨⟨sh, ee, cert, cv, msg, _, share, _, _, leafDer, leaf, scheme,
                          signature, _⟩, rfl,
                          ⟨⟨_, shSplit, selected⟩, ⟨_, eeSplit, eeParsed⟩,
                            ⟨_, certSplit, certParsed⟩, ⟨_, cvSplit, schemeRead, signatureRead⟩,
                            split⟩,
                          ⟨leafFirst, leafParsed,
                            fun verify => (validateCertificate_ok validated verify).1,
                            fun verify => (validateCertificate_ok validated verify).2.1,
                            fun verify => (validateCertificate_ok validated verify).2.2,
                            signed, mac⟩,
                          ⟨rfl, rfl, rfl, rfl, rfl⟩⟩

end ClientHandshake

/-! A handshake that completes, with small stand-ins for the cryptography. -/

namespace Sample

open ClientHandshake

/-- The root store is the one root it trusts, and a certificate is its key. -/
def crypto : Crypto Bytes where
  hash _ octets := List.replicate 32 (octets.foldl (· + ·) 0)
  hkdfExtract _ salt secret := salt ++ secret
  expandLabel _ secret label context length :=
    List.replicate length ((secret ++ label ++ context).foldl (· + ·) 0)
  hmac _ key data := List.replicate 32 ((key ++ data).foldl (· + ·) 0)
  x25519 secret share := List.zipWith (· + ·) secret share
  verifyPss _ _ _ _ _ _ := false
  verifyPkcs1v15 _ _ _ _ _ := false
  ecdsaVerifyDer _ _ _ _ _ := false
  ed25519Verify key content signature :=
    signature == List.replicate 64 ((key ++ content).foldl (· + ·) 0)
  parseCertificate der := .ok ⟨der, none, [[110, 115]], []⟩
  validateChain root chain _ := if chain.getLast? = some root then .ok () else .error "untrusted"
  hasServerAuthEku _ := true
  hostnameMatches hostname dnsNames _ := dnsNames.contains (utf8 hostname)

def varint : Varint where
  encode value := [UInt8.ofNat value]
  decode
    | [] => none
    | octet :: _ => some (octet.toNat, 1)

def root : Bytes := List.replicate 32 7

def cfg : ClientConfig Bytes := ⟨utf8 "doq", some "ns", some "ns", root, true, 0, .clientDefaults [1]⟩

def entropy : Entropy := ⟨List.replicate 32 1, List.replicate 32 2, List.replicate 32 3⟩

def serverHello : Bytes :=
  hsMessage HsType.SERVER_HELLO ([3, 3] ++ List.replicate 32 9 ++ [0] ++
    be16 Suite.AES_128_GCM_SHA256 ++ [0] ++ be16 46 ++ extension 0x002b [3, 4] ++
    extension 0x0033 ([0, 29, 0, 32] ++ List.replicate 32 5))

def encryptedExtensions : Bytes :=
  hsMessage HsType.ENCRYPTED_EXTENSIONS (be16 7 ++ extension 0x0039 [4, 1, 16])

def certificate : Bytes :=
  hsMessage HsType.CERTIFICATE ([0] ++ be24 37 ++ be24 32 ++ root ++ be16 0)

def certificateVerify : Bytes :=
  hsMessage HsType.CERTIFICATE_VERIFY (be16 SigScheme.ED25519 ++ be16 64 ++ List.replicate 64 0)

def finished : Bytes := hsMessage HsType.FINISHED (List.replicate 32 32)

/-- The handshake before the Finished. -/
def verified : ClientHandshake Bytes :=
  [serverHello, encryptedExtensions, certificate, certificateVerify].foldl
    (fun handshake msg => (feed crypto varint msg handshake).2) (greeted varint cfg entropy)

theorem fed_verified :
    Fed crypto varint (greeted varint cfg entropy)
      [serverHello, encryptedExtensions, certificate, certificateVerify] verified :=
  (((Fed.fresh.step (by decide)).step (by decide)).step (by decide)).step
    (by decide +kernel)

theorem completes :
    (feed crypto varint finished verified).1 =
      .ok (some ⟨hsMessage HsType.FINISHED (List.replicate 32 160), Suite.AES_128_GCM_SHA256⟩) := by
  decide +kernel

theorem completed_sample_flight : ∃ flight : Flight,
    [serverHello, encryptedExtensions, certificate, certificateVerify, finished] =
      flight.messages ∧ flight.Parsed varint ∧
      flight.Checked crypto cfg entropy (greeting varint cfg entropy) ∧
      flight.Keys crypto entropy (greeting varint cfg entropy)
        (feed crypto varint finished verified).2 := by
  exact completed_flight crypto varint cfg entropy
    [serverHello, encryptedExtensions, certificate, certificateVerify] verified _ finished _
    fed_verified (run_eq completes)

end Sample

end RecurseX.Doq
