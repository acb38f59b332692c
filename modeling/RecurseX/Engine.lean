import RecurseX.Message.Basic
import RecurseX.Name.Subdomain

/-!
# Resolution engine helpers

The pure functions of a response: classification, the bailiwick check and
DNAME synthesis. `classifyResponse_cases` says what a classification took from
the message, and under which tests.
-/

namespace RecurseX

open Library

/-- How a response should drive the resolution loop. -/
inductive ResponseKind where
  | answer (records rrsigs : List Record)
  | cname (record : Record) (rrsigs : List Record)
  | dname (record : Record)
  | negative (rcode : Rcode) (soa : Option Record)
  | referral (zone : Name) (ns glue : List Record)
  | empty
deriving DecidableEq, Repr

/-- What the walk over the answer section has collected. -/
structure AnswerScan where
  rrsigs : List Record
  answerData : List Record
  cname : Option Record
  dname : Option Record
deriving DecidableEq, Repr

namespace AnswerScan

/-- Before the first record. -/
def new : AnswerScan := ⟨[], [], none, none⟩

/-- A record owned by the query name: data, or the first alias. -/
def stepOwned (qtype : RrType) (scan : AnswerScan) (record : Record) : AnswerScan :=
  if record.rrType = qtype then { scan with answerData := scan.answerData ++ [record] }
  else if record.rrType = .CNAME ∧ scan.cname = none then { scan with cname := some record }
  else scan

/-- One record of the answer section. -/
def step (qname : Name) (qtype : RrType) (scan : AnswerScan) (record : Record) : AnswerScan :=
  if record.rrType = .RRSIG then { scan with rrsigs := scan.rrsigs ++ [record] }
  else
    let scan := if record.name = qname then scan.stepOwned qtype record else scan
    if record.rrType = .DNAME ∧ qname.isStrictSubdomainOf record.name = true ∧ scan.dname = none then
      { scan with dname := some record }
    else scan

end AnswerScan

/-- The NS RRset of a referral and its glue, taken at the first NS record that
is owned strictly below the current zone. -/
def findReferral (msg : Message) (zone : Name) : Option (Name × List Record × List Record) :=
  (msg.authorities.find? fun record =>
      record.rrType == .NS && record.name.isStrictSubdomainOf zone).map fun record =>
    (record.name,
      msg.authorities.filter fun ns => ns.rrType == .NS && ns.name == record.name,
      msg.additionals.filter fun glue => glue.rrType == .A || glue.rrType == .AAAA)

/-- Classify a validated response. `qname` is the name being resolved, `zone`
the zone the current servers are authoritative for. -/
def classifyResponse (msg : Message) (qname : Name) (qtype : RrType) (zone : Name) : ResponseKind :=
  if msg.rcode = 3 then .negative .NXDOMAIN msg.authoritySoa
  else
    let scan := msg.answers.foldl (AnswerScan.step qname qtype) .new
    if scan.answerData ≠ [] then .answer scan.answerData scan.rrsigs
    else match scan.cname, scan.dname with
      | some record, _ => .cname record scan.rrsigs
      | none, some record => .dname record
      | none, none =>
          match msg.authoritySoa with
          | some soa => .negative .NOERROR (some soa)
          | none =>
              match findReferral msg zone with
              | some (zone, ns, glue) => .referral zone ns glue
              | none => .empty

/-- Whether a record owner is inside `zone`. Only in-bailiwick data may be
cached from a response. -/
def inBailiwick (owner zone : Name) : Bool := owner.isSubdomainOf zone

/-- Labels behind their length octets. -/
def pushLabels (labels : List Bytes) : Bytes :=
  labels.flatMap fun label => UInt8.ofNat label.length :: label

/-- Synthesize the CNAME target implied by a DNAME: replace the DNAME owner
suffix of `qname` with the DNAME target. -/
def synthesizeDnameCname (qname dnameOwner dnameTarget : Name) : Option Name :=
  if qname.isStrictSubdomainOf dnameOwner then
    let keep := qname.labels.length - dnameOwner.labelCount
    let out := pushLabels (qname.labels.take keep) ++ pushLabels dnameTarget.labels ++ [0]
    match Name.fromWire out 0 with
    | .ok (name, _) => some name
    | .error _ => none
  else none

/-- A CNAME record for `name → target`. -/
def makeCnameRecord (name target : Name) (ttl : UInt32) : Record :=
  ⟨name, .CNAME, .IN, ttl, .cname target⟩

/-! ## What a classification takes from the message -/

/-- The collected records passed the tests of the walk. -/
structure AnswerScan.Collected (answers : List Record) (qname : Name) (qtype : RrType)
    (scan : AnswerScan) : Prop where
  rrsigs : ∀ record ∈ scan.rrsigs, record ∈ answers ∧ record.rrType = .RRSIG
  answerData : ∀ record ∈ scan.answerData,
    record ∈ answers ∧ record.name = qname ∧ record.rrType = qtype
  cname : ∀ record, scan.cname = some record →
    record ∈ answers ∧ record.name = qname ∧ record.rrType = .CNAME
  dname : ∀ record, scan.dname = some record →
    record ∈ answers ∧ record.rrType = .DNAME ∧ qname.isStrictSubdomainOf record.name = true

section Collected

variable {answers : List Record} {qname : Name} {qtype : RrType} {scan : AnswerScan}
variable {record : Record}

theorem AnswerScan.Collected.stepOwned (collected : scan.Collected answers qname qtype)
    (member : record ∈ answers) (owned : record.name = qname) :
    (scan.stepOwned qtype record).Collected answers qname qtype := by
  unfold AnswerScan.stepOwned
  split
  · rename_i typed
    refine ⟨collected.rrsigs, fun other found => ?_, collected.cname, collected.dname⟩
    rcases List.mem_append.mp found with earlier | latest
    · exact collected.answerData other earlier
    · rw [List.mem_singleton.mp latest]
      exact ⟨member, owned, typed⟩
  · split
    · rename_i first
      refine ⟨collected.rrsigs, collected.answerData, ?_, collected.dname⟩
      rintro _ ⟨⟩
      exact ⟨member, owned, first.1⟩
    · exact collected

theorem AnswerScan.Collected.step (collected : scan.Collected answers qname qtype)
    (member : record ∈ answers) : (scan.step qname qtype record).Collected answers qname qtype := by
  unfold AnswerScan.step
  split
  · rename_i signature
    refine ⟨fun other found => ?_, collected.answerData, collected.cname, collected.dname⟩
    rcases List.mem_append.mp found with earlier | latest
    · exact collected.rrsigs other earlier
    · rw [List.mem_singleton.mp latest]
      exact ⟨member, signature⟩
  · have middle : (if record.name = qname then scan.stepOwned qtype record else scan).Collected
        answers qname qtype := by
      split
      · rename_i owned
        exact collected.stepOwned member owned
      · exact collected
    -- The DNAME test looks at every record, whoever owns it.
    dsimp only
    generalize (if record.name = qname then scan.stepOwned qtype record else scan) = later
      at middle ⊢
    split
    · rename_i redirect
      refine ⟨middle.rrsigs, middle.answerData, middle.cname, ?_⟩
      rintro _ ⟨⟩
      exact ⟨member, redirect.1, redirect.2.1⟩
    · exact middle

theorem AnswerScan.collected_foldl {records : List Record} : ∀ {scan : AnswerScan}, scan.Collected answers qname qtype →
      (∀ record ∈ records, record ∈ answers) →
      (records.foldl (AnswerScan.step qname qtype) scan).Collected answers qname qtype := by
  induction records with
  | nil =>
      intro scan collected _
      exact collected
  | cons record records inductionHypothesis =>
      intro scan collected members
      exact inductionHypothesis (collected.step (members record List.mem_cons_self))
        fun other found => members other (List.mem_cons_of_mem _ found)

end Collected

/-- What a classification took from the message. -/
def ResponseKind.TakenFrom (msg : Message) (qname : Name) (qtype : RrType) (zone : Name) :
    ResponseKind → Prop
  | .answer records rrsigs =>
      (∀ record ∈ records, record ∈ msg.answers ∧ record.name = qname ∧ record.rrType = qtype) ∧
      ∀ record ∈ rrsigs, record ∈ msg.answers ∧ record.rrType = .RRSIG
  | .cname record rrsigs =>
      (record ∈ msg.answers ∧ record.name = qname ∧ record.rrType = .CNAME) ∧
      ∀ record ∈ rrsigs, record ∈ msg.answers ∧ record.rrType = .RRSIG
  | .dname record => record ∈ msg.answers ∧ record.rrType = .DNAME ∧
      qname.isStrictSubdomainOf record.name = true
  | .negative _ soa => ∀ record, soa = some record → record ∈ msg.authorities ∧ record.rrType = .SOA
  | .referral child ns glue => child.isStrictSubdomainOf zone = true ∧ ns ≠ [] ∧
      (∀ record ∈ ns, record ∈ msg.authorities ∧ record.rrType = .NS ∧ record.name = child) ∧
      ∀ record ∈ glue, record ∈ msg.additionals ∧ (record.rrType = .A ∨ record.rrType = .AAAA)
  | .empty => True

theorem authoritySoa_mem {msg : Message} {record : Record}
    (found : msg.authoritySoa = some record) :
    record ∈ msg.authorities ∧ record.rrType = .SOA :=
  ⟨List.mem_of_find?_eq_some found, by simpa using List.find?_some found⟩

theorem findReferral_taken {msg : Message} {zone child : Name} {ns glue : List Record}
    (found : findReferral msg zone = some (child, ns, glue)) :
    (ResponseKind.referral child ns glue).TakenFrom msg child .NS zone := by
  obtain ⟨record, first, shape⟩ := Option.map_eq_some_iff.mp found
  have tested := List.find?_some first
  simp only [Bool.and_eq_true, beq_iff_eq] at tested
  cases shape
  have owned : record ∈ msg.authorities.filter fun ns => ns.rrType == .NS && ns.name == record.name :=
    List.mem_filter.mpr ⟨List.mem_of_find?_eq_some first, by simp [tested.1]⟩
  exact ⟨tested.2, List.ne_nil_of_mem owned, by simp +contextual, by simp +contextual⟩

/-- A classification takes its records from the message, each by its own tests. -/
theorem classifyResponse_taken (msg : Message) (qname : Name) (qtype : RrType) (zone : Name) :
    (classifyResponse msg qname qtype zone).TakenFrom msg qname qtype zone := by
  have scanned : (msg.answers.foldl (AnswerScan.step qname qtype) .new).Collected
      msg.answers qname qtype :=
    AnswerScan.collected_foldl ⟨by simp [AnswerScan.new], by simp [AnswerScan.new],
      by simp [AnswerScan.new], by simp [AnswerScan.new]⟩ fun _ found => found
  unfold classifyResponse
  split
  · exact fun record found => authoritySoa_mem found
  dsimp only
  split
  · exact ⟨scanned.answerData, scanned.rrsigs⟩
  split
  · rename_i record found
    exact ⟨scanned.cname record found, scanned.rrsigs⟩
  · rename_i record _ found
    exact scanned.dname record found
  · split
    · rename_i soa found
      rintro _ ⟨⟩
      exact authoritySoa_mem found
    · split
      · rename_i found
        exact findReferral_taken found
      · trivial

end RecurseX
