import RecurseX.Message.Basic
import RecurseX.Rdata.RoundTrip

/-!
# Messages survive a round trip

Serializing a parsed message and parsing the result returns the message up to
`Message.normalize`. The argument runs over the serializer's appends: the
segment of each section is read back in whatever buffer holds it, so the
section counts patched in at the end do not disturb it.
-/

namespace RecurseX

open Library Wire

/-! ## The flags word -/

namespace HeaderFlags

/-- Setting a flag below an aligned word adds its bit. -/
theorem setFlag_toNat (word mask : UInt16) (bit : Nat) (single : mask.toNat = 2 ^ bit)
    (flag : Bool) (aligned : word.toNat % 2 ^ (bit + 1) = 0) :
    (setFlag word mask flag).toNat = word.toNat + flag.toNat * 2 ^ bit := by
  cases flag with
  | false => simp [setFlag]
  | true =>
      rw [setFlag, if_pos rfl, UInt16.toNat_or, single,
        or_eq_add (bit + 1) aligned (Nat.pow_lt_pow_succ (by decide))]
      simp

/-- The flags word is the sum of its parts. -/
theorem toU16_toNat (self : HeaderFlags) :
    self.toU16.toNat = self.qr.toNat * 2 ^ 15 + self.opcode.toU8.toNat % 16 * 2 ^ 11 +
      self.aa.toNat * 2 ^ 10 + self.tc.toNat * 2 ^ 9 + self.rd.toNat * 2 ^ 8 +
      self.ra.toNat * 2 ^ 7 + self.ad.toNat * 2 ^ 5 + self.cd.toNat * 2 ^ 4 +
      self.rcode.toU8.toNat % 16 := by
  have opcode : ((self.opcode.toU8.toUInt16 &&& 0x0f) <<< 11).toNat =
      self.opcode.toU8.toNat % 16 * 2 ^ 11 := by
    simp only [UInt16.toNat_shiftLeft, UInt16.toNat_and, UInt8.toNat_toUInt16, UInt16.toNat_ofNat,
      Nat.shiftLeft_eq, Nat.reduceMod, Nat.reducePow]
    rw [Nat.and_two_pow_sub_one_eq_mod _ 4]
    omega
  have rcode : (self.rcode.toU8 &&& 0x0f).toUInt16.toNat = self.rcode.toU8.toNat % 16 := by
    rw [UInt8.toNat_toUInt16, UInt8.toNat_and, UInt8.toNat_ofNat,
      Nat.and_two_pow_sub_one_eq_mod _ 4]
  -- The source packs from the most significant field down, so that every step
  -- adds a field below an aligned word.
  simp only [toU16]
  have qr := setFlag_toNat 0 0x8000 15 rfl self.qr (by decide)
  generalize setFlag 0 0x8000 self.qr = word at qr ⊢
  rw [UInt16.toNat_ofNat, Nat.zero_mod, Nat.zero_add] at qr
  have high : (word ||| (self.opcode.toU8.toUInt16 &&& 0x0f) <<< 11).toNat =
      word.toNat + self.opcode.toU8.toNat % 16 * 2 ^ 11 := by
    rw [UInt16.toNat_or, opcode, or_eq_add 15 (by omega) (by omega)]
  generalize word ||| (self.opcode.toU8.toUInt16 &&& 0x0f) <<< 11 = word at high ⊢
  have aa := setFlag_toNat word 0x0400 10 rfl self.aa (by omega)
  generalize setFlag word 0x0400 self.aa = word at aa ⊢
  have tc := setFlag_toNat word 0x0200 9 rfl self.tc (by omega)
  generalize setFlag word 0x0200 self.tc = word at tc ⊢
  have rd := setFlag_toNat word 0x0100 8 rfl self.rd (by omega)
  generalize setFlag word 0x0100 self.rd = word at rd ⊢
  have ra := setFlag_toNat word 0x0080 7 rfl self.ra (by omega)
  generalize setFlag word 0x0080 self.ra = word at ra ⊢
  have ad := setFlag_toNat word 0x0020 5 rfl self.ad (by omega)
  generalize setFlag word 0x0020 self.ad = word at ad ⊢
  have cd := setFlag_toNat word 0x0010 4 rfl self.cd (by omega)
  generalize setFlag word 0x0010 self.cd = word at cd ⊢
  rw [UInt16.toNat_or, rcode, or_eq_add 4 (by omega) (by omega)]
  omega

/-- Unpacking the packed flags, when opcode and response code are four bits. -/
theorem fromU16_toU16 {self : HeaderFlags} (opcode : self.opcode.toU8.toNat < 16)
    (rcode : self.rcode.toU8.toNat < 16) : fromU16 self.toU16 = self := by
  have sum := self.toU16_toNat
  have bits : ∀ flag : Bool, flag.toNat ≤ 1 := Bool.toNat_le
  have flag : ∀ (mask : UInt16) (bit : Nat) (value : Bool), mask.toNat = 2 ^ bit →
      self.toU16.toNat / 2 ^ bit % 2 = value.toNat → (self.toU16 &&& mask != 0) = value := by
    intro mask bit value single extracted
    rw [flag16 _ _ single, extracted]
    cases value <;> rfl
  have qrBound := bits self.qr
  have aaBound := bits self.aa
  have tcBound := bits self.tc
  have rdBound := bits self.rd
  have raBound := bits self.ra
  have adBound := bits self.ad
  have cdBound := bits self.cd
  have nibble : ∀ word : UInt16, (word &&& 0x0f).toUInt8.toNat = word.toNat % 16 := by
    intro word
    rw [UInt16.toNat_toUInt8, UInt16.toNat_and, UInt16.toNat_ofNat,
      Nat.and_two_pow_sub_one_eq_mod _ 4]
    omega
  have opcodeEq : ((self.toU16 >>> 11) &&& 0x0f).toUInt8 = self.opcode.toU8 := by
    apply UInt8.toNat_inj.mp
    simp only [nibble, UInt16.toNat_shiftRight, UInt16.toNat_ofNat, Nat.shiftRight_eq_div_pow,
      Nat.reduceMod, Nat.reducePow]
    omega
  have rcodeEq : (self.toU16 &&& 0x0f).toUInt8 = self.rcode.toU8 := by
    apply UInt8.toNat_inj.mp
    rw [nibble]
    omega
  rw [fromU16, flag 0x8000 15 self.qr rfl (by omega), flag 0x0400 10 self.aa rfl (by omega),
    flag 0x0200 9 self.tc rfl (by omega), flag 0x0100 8 self.rd rfl (by omega),
    flag 0x0080 7 self.ra rfl (by omega), flag 0x0020 5 self.ad rfl (by omega),
    flag 0x0010 4 self.cd rfl (by omega), opcodeEq, rcodeEq]

/-- The flags of a parsed header have four-bit codes. -/
theorem fromU16_bounds (v : UInt16) :
    (fromU16 v).opcode.toU8.toNat < 16 ∧ (fromU16 v).rcode.toU8.toNat < 16 := by
  have nibble : ∀ word : UInt16, (word &&& 0x0f).toUInt8.toNat < 16 := by
    intro word
    rw [UInt16.toNat_toUInt8, UInt16.toNat_and, UInt16.toNat_ofNat,
      Nat.and_two_pow_sub_one_eq_mod _ 4]
    omega
  exact ⟨nibble _, nibble _⟩

end HeaderFlags

namespace Message

/-- The message a re-encoding carries: type bitmaps are sorted sets, and padding
loses its fill. -/
def normalize (message : Message) : Message :=
  { message with
    answers := message.answers.map Record.normalize
    authorities := message.authorities.map Record.normalize
    additionals := message.additionals.map Record.normalize
    edns := message.edns.map Edns.normalize }

/-- A message some parser returned. -/
structure WellFormed (message : Message) : Prop where
  opcode : message.flags.opcode.toU8.toNat < 16
  rcode : message.flags.rcode.toU8.toNat < 16
  questions : ∀ question ∈ message.questions, question.qname.Canonical
  answers : ∀ record ∈ message.answers, record.WellFormed
  authorities : ∀ record ∈ message.authorities, record.WellFormed
  additionals : ∀ record ∈ message.additionals, record.WellFormed ∧ record.rrType ≠ .OPT
  edns : ∀ edns, message.edns = some edns → edns.WellFormed
  questionCount : message.questions.length ≤ maxQuestions
  answerCount : message.answers.length ≤ maxSectionRecords
  authorityCount : message.authorities.length ≤ maxSectionRecords
  additionalCount : message.additionals.length + message.edns.isSome.toNat ≤ maxSectionRecords

/-! ## What the parser returns -/

theorem parseQuestions_wellFormed {buf : Bytes} {count : Nat} :
    ∀ {pos next : Nat} {questions : List Question},
      parseQuestions buf count pos = .ok (questions, next) →
        questions.length = count ∧ ∀ question ∈ questions, question.qname.Canonical := by
  induction count with
  | zero =>
      intro pos next questions parsed
      cases parsed
      simp
  | succ count inductionHypothesis =>
      intro pos next questions parsed
      simp only [parseQuestions, bind_eq_ok, Prod.exists] at parsed
      obtain ⟨_, _, decoded, _, _, _, _, rest, _, further, returned⟩ := parsed
      cases returned
      obtain ⟨length, canonical⟩ := inductionHypothesis further
      exact ⟨by simp [length],
        List.forall_mem_cons.mpr ⟨fromWire_domainName decoded, canonical⟩⟩

theorem parseRecords_wellFormed {buf : Bytes} {count : Nat} :
    ∀ {pos next : Nat} {records : List Record},
      parseRecords buf count pos = .ok (records, next) →
        records.length = count ∧ ∀ record ∈ records, record.WellFormed := by
  induction count with
  | zero =>
      intro pos next records parsed
      cases parsed
      simp
  | succ count inductionHypothesis =>
      intro pos next records parsed
      simp only [parseRecords, bind_eq_ok, Prod.exists] at parsed
      obtain ⟨_, _, first, rest, _, further, returned⟩ := parsed
      cases returned
      obtain ⟨length, wellFormed⟩ := inductionHypothesis further
      exact ⟨by simp [length],
        List.forall_mem_cons.mpr ⟨Record.parse_wellFormed first, wellFormed⟩⟩

theorem parseAdditionals_wellFormed {buf : Bytes} {count : Nat} :
    ∀ {pos : Nat} {records : List Record} {seen edns : Option Edns},
      parseAdditionals buf count pos seen = .ok (records, edns) →
      (∀ early, seen = some early → early.WellFormed) →
        records.length + edns.isSome.toNat = count + seen.isSome.toNat ∧
        (∀ record ∈ records, record.WellFormed ∧ record.rrType ≠ .OPT) ∧
        ∀ late, edns = some late → late.WellFormed := by
  induction count with
  | zero =>
      intro pos records seen edns parsed early
      cases parsed
      exact ⟨by simp, by simp, early⟩
  | succ count inductionHypothesis =>
      intro pos records seen edns parsed early
      simp only [parseAdditionals, bind_eq_ok, Prod.exists] at parsed
      obtain ⟨record, next, first, rest⟩ := parsed
      split at rest
      · rename_i pseudo
        simp only [bind_eq_ok, failIf_eq_ok] at rest
        obtain ⟨_, unseen, parsedEdns, read, further⟩ := rest
        obtain ⟨data, payload, short⟩ := Record.length_of_parse_opt first pseudo
        rw [payload] at read
        obtain ⟨counted, wellFormed, late⟩ := inductionHypothesis further (by
          rintro _ ⟨⟩
          exact Edns.parse_wellFormed short read)
        refine ⟨?_, wellFormed, late⟩
        cases seen with
        | none => simpa using counted
        | some early => simp at unseen
      · rename_i ordinary
        simp only [bind_eq_ok, Prod.exists] at rest
        obtain ⟨records, _, further, returned⟩ := rest
        cases returned
        obtain ⟨counted, wellFormed, late⟩ := inductionHypothesis further early
        refine ⟨?_, List.forall_mem_cons.mpr
          ⟨⟨Record.parse_wellFormed first, ordinary⟩, wellFormed⟩, late⟩
        simp only [List.length_cons]
        omega

theorem parse_wellFormed {buf : Bytes} {message : Message}
    (parsed : Message.parse buf = .ok message) : message.WellFormed := by
  simp only [Message.parse, bind_eq_ok, Prod.exists, failIf_eq_ok] at parsed
  obtain ⟨_, _, id, _, flags, _, qd, _, an, _, ns, _, ar, _, _, limits, questions, _, questionsRead,
    answers, _, answersRead, authorities, _, authoritiesRead, additionals, edns, additionalsRead,
    returned⟩ := parsed
  cases returned
  obtain ⟨questionCount, canonical⟩ := parseQuestions_wellFormed questionsRead
  obtain ⟨answerCount, answersWell⟩ := parseRecords_wellFormed answersRead
  obtain ⟨authorityCount, authoritiesWell⟩ := parseRecords_wellFormed authoritiesRead
  obtain ⟨additionalCount, additionalsWell, ednsWell⟩ :=
    parseAdditionals_wellFormed additionalsRead (by simp)
  simp only [Option.isSome_none, Bool.toNat_false] at additionalCount
  obtain ⟨opcode, rcode⟩ := HeaderFlags.fromU16_bounds flags
  exact
    { opcode, rcode
      questions := canonical
      answers := answersWell
      authorities := authoritiesWell
      additionals := additionalsWell
      edns := ednsWell
      questionCount := by dsimp only; omega
      answerCount := by dsimp only; omega
      authorityCount := by dsimp only; omega
      additionalCount := by dsimp only; omega }

/-! ## What the serializer leaves behind -/

theorem writeQuestion_appended (sink : Sink) {question : Question}
    (canonical : question.qname.Canonical) :
    sink.Appended (writeQuestion sink question) fun buf pos stop =>
      ∃ p, Name.fromWire buf pos = .ok (question.qname, p) ∧
        Located buf p (be16 question.qtype.toU16) ∧
        Located buf (p + 2) (be16 question.qclass.toU16) ∧ stop = p + 4 := by
  refine (((sink.name_appended canonical true).trans
    (Sink.extend_appended _ (be16 question.qtype.toU16))).trans
    (Sink.extend_appended _ (be16 question.qclass.toU16))).imp fun buf _ found => ?_
  obtain ⟨_, ⟨p, ⟨_, decoded⟩, typeAt, rfl⟩, classAt, reached⟩ := found
  exact ⟨p, decoded, typeAt, classAt, reached⟩

theorem writeQuestions_appended {questions : List Question}
    (canonical : ∀ question ∈ questions, question.qname.Canonical) :
    ∀ sink : Sink, sink.Appended (questions.foldl writeQuestion sink) fun buf pos stop =>
      parseQuestions buf questions.length pos = .ok (questions, stop) := by
  induction questions with
  | nil =>
      intro sink
      refine (Sink.Appended.refl sink).imp fun buf _ reached => ?_
      rfl
  | cons question questions inductionHypothesis =>
      intro sink
      have first := writeQuestion_appended sink (canonical question List.mem_cons_self)
      have rest := inductionHypothesis
        (fun other member => canonical other (List.mem_cons_of_mem _ member))
        (writeQuestion sink question)
      refine (first.trans rest).imp fun buf _ found => ?_
      obtain ⟨_, ⟨p, decoded, typeAt, classAt, rfl⟩, further⟩ := found
      simp only [List.length_cons, parseQuestions, decoded, ok_bind, u16At_located typeAt,
        u16At_located classAt, mapError_ok, further]

theorem writeRecords_appended {records : List Record}
    (wellFormed : ∀ record ∈ records, record.WellFormed) :
    ∀ {sink after : Sink}, writeRecords sink records = .ok after →
      sink.Appended after fun buf pos stop =>
        parseRecords buf records.length pos = .ok (records.map Record.normalize, stop) := by
  induction records with
  | nil =>
      intro sink after written
      cases written
      refine (Sink.Appended.refl sink).imp fun buf _ reached => ?_
      rfl
  | cons record records inductionHypothesis =>
      intro sink after written
      rw [writeRecords, List.foldlM_cons, bind_eq_ok] at written
      obtain ⟨middle, first, rest⟩ := written
      have here := Record.toWire_appended (wellFormed record List.mem_cons_self) first
      have later := inductionHypothesis
        (fun other member => wellFormed other (List.mem_cons_of_mem _ member)) rest
      refine (here.trans later).imp fun buf _ found => ?_
      obtain ⟨_, read, further⟩ := found
      simp only [List.length_cons, parseRecords, read, ok_bind, further, List.map_cons]

/-- The OPT record as the record layer sees it. -/
def optRecord (edns : Edns) : Record :=
  ⟨.root, .OPT, ⟨edns.udpPayloadSize⟩, edns.ttlField, .unknown edns.optionsWire⟩

theorem writeEdns_appended {edns : Edns} (wellFormed : edns.WellFormed) (sink : Sink) :
    sink.Appended (writeEdns sink edns) fun buf pos stop =>
      Record.parse buf pos = .ok (optRecord edns, stop) := by
  have rootCanonical : Name.root.Canonical := ⟨.root, rfl⟩
  have recordWell : (optRecord edns).WellFormed :=
    ⟨rootCanonical, rfl, ⟨by simp [optRecord, RData.pieces], trivial⟩⟩
  have width : (UInt16.ofNat edns.optionsWire.length).toNat = edns.optionsWire.length := by
    have := wellFormed.short
    rw [UInt16.toNat_ofNat']
    omega
  refine ((((((sink.name_appended rootCanonical true).trans
    (Sink.extend_appended _ (be16 RrType.OPT.toU16))).trans
    (Sink.extend_appended _ (be16 edns.udpPayloadSize))).trans
    (Sink.extend_appended _ (be32 edns.ttlField))).trans
    (Sink.extend_appended _ (be16 (UInt16.ofNat edns.optionsWire.length)))).trans
    (Sink.extend_appended _ edns.optionsWire)).imp fun buf fits found => ?_
  obtain ⟨_, ⟨_, ⟨_, ⟨_, ⟨p, ⟨_, decoded⟩, typeAt, rfl⟩, classAt, rfl⟩, ttlAt, rfl⟩, rdlenAt, rfl⟩,
    dataAt, reached⟩ := found
  exact Record.parse_found recordWell decoded typeAt classAt ttlAt rdlenAt
    (by rw [width]; exact reached) fits ⟨dataAt, reached.symm⟩

/-- Ordinary records in front of the rest of the additional section. -/
theorem parseAdditionals_of_parseRecords {buf : Bytes} {more mid : Nat} {seen edns : Option Edns}
    {others : List Record} (rest : parseAdditionals buf more mid seen = .ok (others, edns))
    {count : Nat} : ∀ {pos : Nat} {records : List Record},
      parseRecords buf count pos = .ok (records, mid) →
      (∀ record ∈ records, record.rrType ≠ .OPT) →
      parseAdditionals buf (count + more) pos seen = .ok (records ++ others, edns) := by
  induction count with
  | zero =>
      intro pos records read _
      cases read
      simpa using rest
  | succ count inductionHypothesis =>
      intro pos records read ordinary
      simp only [parseRecords, bind_eq_ok, Prod.exists] at read
      obtain ⟨record, next, first, tail, _, further, returned⟩ := read
      cases returned
      have deeper := inductionHypothesis further
        fun other member => ordinary other (List.mem_cons_of_mem _ member)
      rw [show count + 1 + more = count + more + 1 by omega, parseAdditionals, first, ok_bind]
      simp only [if_neg (ordinary record List.mem_cons_self), deeper, ok_bind, List.cons_append]

/-- The additional section with the OPT record at its end. -/
theorem writeAdditionals_appended {message : Message} (wellFormed : message.WellFormed)
    {sink after : Sink} (written : writeRecords sink message.additionals = .ok after) :
    sink.Appended (match message.edns with
      | some edns => writeEdns after edns
      | none => after) fun buf pos _ =>
      parseAdditionals buf (message.additionals.length + message.edns.isSome.toNat) pos none =
        .ok (message.additionals.map Record.normalize, message.edns.map Edns.normalize) := by
  have records := writeRecords_appended
    (fun record member => (wellFormed.additionals record member).1) written
  have ordinary : ∀ record ∈ message.additionals.map Record.normalize, record.rrType ≠ .OPT := by
    simp only [List.mem_map, forall_exists_index, and_imp, forall_apply_eq_imp_iff₂]
    exact fun record member => (wellFormed.additionals record member).2
  cases present : message.edns with
  | none =>
      refine records.imp fun buf _ found => ?_
      have rest {mid : Nat} : parseAdditionals buf 0 mid none = .ok ([], none) := rfl
      simpa using parseAdditionals_of_parseRecords rest found ordinary
  | some edns =>
      have ednsWell := wellFormed.edns edns present
      refine (records.trans (writeEdns_appended ednsWell after)).imp fun buf _ found => ?_
      obtain ⟨mid, read, opt⟩ := found
      have last : parseAdditionals buf 1 mid none = .ok ([], some edns.normalize) := by
        simp only [parseAdditionals, opt, ok_bind, optRecord, optionsData, if_true,
          failIf_of_not (show ¬ (none : Option Edns).isSome = true by simp),
          Edns.parse_written ednsWell]
      simpa using parseAdditionals_of_parseRecords last read ordinary

/-- The four section counts as the serializer patches them in. -/
def countBytes (message : Message) : Bytes :=
  be16 (UInt16.ofNat message.questions.length) ++ be16 (UInt16.ofNat message.answers.length) ++
    be16 (UInt16.ofNat message.authorities.length) ++
    be16 (UInt16.ofNat (message.additionals.length + message.edns.isSome.toNat))

/-- What the whole serialization leaves behind, read from any buffer. -/
theorem toBytes_appended {message : Message} (wellFormed : message.WellFormed) {bytes : Bytes}
    (written : message.toBytes = .ok bytes) :
    ∃ comp, (Sink.mk [] (some .new)).Appended ⟨bytes, comp⟩ fun buf pos _ =>
      ∃ p₁ p₂ p₃, Located buf pos (be16 message.id) ∧
        Located buf (pos + 2) (be16 message.flags.toU16) ∧
        Located buf (pos + 4) message.countBytes ∧
        parseQuestions buf message.questions.length (pos + 12) = .ok (message.questions, p₁) ∧
        parseRecords buf message.answers.length p₁ =
          .ok (message.answers.map Record.normalize, p₂) ∧
        parseRecords buf message.authorities.length p₂ =
          .ok (message.authorities.map Record.normalize, p₃) ∧
        parseAdditionals buf (message.additionals.length + message.edns.isSome.toNat) p₃ none =
          .ok (message.additionals.map Record.normalize, message.edns.map Edns.normalize) := by
  simp only [toBytes, bind_eq_ok, failIf_eq_ok] at written
  obtain ⟨sink₁, answers, sink₂, authorities, sink₃, additionals, _, _, returned⟩ := written
  have fixed := (Sink.extend_appended (Sink.mk [] (some .new)) (be16 message.id)).trans
    (Sink.extend_appended _ (be16 message.flags.toU16))
  have sections := (((writeQuestions_appended wellFormed.questions _).trans
    (writeRecords_appended wellFormed.answers answers)).trans
    (writeRecords_appended wellFormed.authorities authorities)).trans
    (writeAdditionals_appended wellFormed additionals)
  have whole := fixed.trans (sections.patched message.countBytes rfl)
  cases returned
  refine ⟨_, whole.imp fun buf _ found => ?_⟩
  obtain ⟨_, ⟨_, ⟨idAt, rfl⟩, flagsAt, rfl⟩, countsAt, p₃, ⟨p₂, ⟨p₁, questions, answers⟩,
    authorities⟩, additionals⟩ := found
  exact ⟨p₁, p₂, p₃, idAt, flagsAt, countsAt, questions, answers, authorities, additionals⟩

/-- A well-formed message that can be serialized is read back as its normal form. -/
theorem parse_toBytes {message : Message} (wellFormed : message.WellFormed) {bytes : Bytes}
    (written : message.toBytes = .ok bytes) : Message.parse bytes = .ok message.normalize := by
  obtain ⟨comp, segment, grown, reads⟩ := Message.toBytes_appended wellFormed written
  obtain rfl : bytes = segment := grown
  have sound : (Sink.mk [] (some .new)).Sound bytes := by
    rintro _ ⟨⟩
    exact NameCompressor.TableSound.new _ _
  obtain ⟨⟨p₁, p₂, p₃, idAt, flagsAt, countsAt, questions, answers, authorities, additionals⟩, _⟩ :=
    reads bytes sound ⟨Nat.zero_le _, List.prefix_rfl⟩
  simp only [List.length_nil, Nat.zero_add] at idAt flagsAt countsAt questions
  simp only [Message.countBytes, Located.append_iff, List.length_append, length_be16, Nat.reduceAdd]
    at countsAt
  obtain ⟨⟨⟨qdAt, anAt⟩, nsAt⟩, arAt⟩ := countsAt
  have questionCount := wellFormed.questionCount
  have answerCount := wellFormed.answerCount
  have authorityCount := wellFormed.authorityCount
  have additionalCount := wellFormed.additionalCount
  have header := arAt.bound
  simp only [maxQuestions, maxSectionRecords, length_be16]
    at questionCount answerCount authorityCount additionalCount header
  have word : ∀ count ≤ 4096, (UInt16.ofNat count).toNat = count := by
    intro count small
    rw [UInt16.toNat_ofNat']
    omega
  simp only [Message.parse, failIf_of_not (show ¬ bytes.length < 12 by omega), ok_bind,
    u16At_located idAt, u16At_located flagsAt, u16At_located qdAt, u16At_located anAt,
    u16At_located nsAt, u16At_located arAt, word message.questions.length (by omega),
    word message.answers.length answerCount, word message.authorities.length authorityCount,
    word _ additionalCount]
  rw [failIf_of_not (by simp only [maxQuestions, maxSectionRecords]; omega), ok_bind]
  simp only [questions, answers, authorities, additionals, ok_bind,
    HeaderFlags.fromU16_toU16 wellFormed.opcode wellFormed.rcode, Message.normalize]

end Message

/-- Message re-encode round trip: a parsed message that can be serialized is
read back as itself, up to the order and repetitions of NSEC and NSEC3 type
lists and the fill of the padding option. -/
theorem message_reencode {buf bytes : Bytes} {message : Message}
    (parsed : Message.parse buf = .ok message) (written : message.toBytes = .ok bytes) :
    Message.parse bytes = .ok message.normalize :=
  Message.parse_toBytes (Message.parse_wellFormed parsed) written

/-- An NSEC record with its windows out of order and an OPT record with padding. -/
theorem message_reencode_nsec_padding :
    Message.parse [0, 1, 0x81, 0x80, 0, 1, 0, 1, 0, 0, 0, 1, 1, 97, 0, 0, 1, 0, 1,
        0xc0, 12, 0, 47, 0, 1, 0, 0, 0, 60, 0, 7, 0, 1, 1, 0x80, 0, 1, 0x40,
        0, 0, 41, 4, 208, 0, 0, 0x80, 0, 0, 6, 0, 12, 0, 2, 0, 0] =
      .ok ⟨1, ⟨true, .QUERY, false, false, true, true, false, false, .NOERROR⟩,
        [⟨⟨[1, 97, 0]⟩, .A, .IN⟩],
        [⟨⟨[1, 97, 0]⟩, .NSEC, .IN, 60, .nsec .root [⟨256⟩, ⟨1⟩]⟩], [], [],
        some ⟨1232, 0, 0, true, [.padding 2]⟩⟩ ∧
    Message.parse [0, 1, 0x81, 0x80, 0, 1, 0, 1, 0, 0, 0, 1, 1, 97, 0, 0, 1, 0, 1,
        0xc0, 12, 0, 47, 0, 1, 0, 0, 0, 60, 0, 7, 0, 0, 1, 0x40, 1, 1, 0x80,
        0, 0, 41, 4, 208, 0, 0, 0x80, 0, 0, 4, 0, 12, 0, 0] =
      .ok ⟨1, ⟨true, .QUERY, false, false, true, true, false, false, .NOERROR⟩,
        [⟨⟨[1, 97, 0]⟩, .A, .IN⟩],
        [⟨⟨[1, 97, 0]⟩, .NSEC, .IN, 60, .nsec .root [⟨1⟩, ⟨256⟩]⟩], [], [],
        some ⟨1232, 0, 0, true, [.padding 0]⟩⟩ :=
  ⟨by decide, @message_reencode
    [0, 1, 0x81, 0x80, 0, 1, 0, 1, 0, 0, 0, 1, 1, 97, 0, 0, 1, 0, 1,
      0xc0, 12, 0, 47, 0, 1, 0, 0, 0, 60, 0, 7, 0, 1, 1, 0x80, 0, 1, 0x40,
      0, 0, 41, 4, 208, 0, 0, 0x80, 0, 0, 6, 0, 12, 0, 2, 0, 0] _
    ⟨1, ⟨true, .QUERY, false, false, true, true, false, false, .NOERROR⟩,
      [⟨⟨[1, 97, 0]⟩, .A, .IN⟩],
      [⟨⟨[1, 97, 0]⟩, .NSEC, .IN, 60, .nsec .root [⟨256⟩, ⟨1⟩]⟩], [], [],
      some ⟨1232, 0, 0, true, [.padding 2]⟩⟩
    (by decide) (by decide)⟩

end RecurseX
