/-
**The typed inter-agent contract and its OCC-1 encoding.**

`optimus.agent-comm.v1` is the typed message behind every encoding.  This module embeds
`core/occ/contract.rs`: the message with its findings, evidence and verification record, the
validation rules, the conversion to an OCC-1 message and the conversion back.

The codecs format and parse 32-bit floats, ask a calendar library whether a text is a timestamp,
hash a codebook with SHA-256 and quote strings in their error texts.  None of that is code of the
repository, so it enters as two classes of functions; the few facts the results need about these
functions are the fields of two further classes, and every theorem that needs one names the class.
-/

import OptimusAgent.Occ1

open Str

/-- The functions of other crates, and the quoting of strings by `{:?}`. -/
class Host where
  /-- The quoted and escaped form of a string. -/
  debugStr : Str → Str
  /-- Whether the calendar library parses the text as an RFC 3339 timestamp. -/
  isRfc3339 : Str → Bool
  /-- The SHA-256 digest of a text, in hexadecimal. -/
  sha256Hex : Str → Str

/-- The facts about `Host` that results of this development use. -/
class LawfulHost [Host] : Prop where
  /-- A digest has 64 characters. -/
  sha256Hex_length (s : Str) : (Host.sha256Hex s).length = 64
  /-- The characters of a digest are lower-case hexadecimal digits. -/
  sha256Hex_hex (s : Str) (c : Char) (h : c ∈ Host.sha256Hex s) : c.isDigit = true ∨ c ∈ ['a', 'b', 'c', 'd', 'e', 'f']

/-- The operations on 32-bit floats that the codecs use. -/
class F32 (R : Type) where
  /-- Three decimals: `{:.3}`. -/
  format3 : R → Str
  /-- `str::parse::<f32>`. -/
  parse : Str → Option R
  /-- The shortest decimal text: `{}`. -/
  display : R → Str
  /-- Membership in the closed interval from 0 to 1. -/
  inUnitInterval : R → Bool
  /-- Equality of floats, which is not reflexive on NaN. -/
  eq : R → R → Bool
  /-- The value is a whole number of thousandths. -/
  IsThousandth : R → Prop

/-- The facts about `F32` that results of this development use. -/
class LawfulF32 (R : Type) [F32 R] : Prop where
  /-- Three decimals carry a whole number of thousandths exactly. -/
  parse_format3 (c : R) (h : F32.IsThousandth c) : F32.parse (F32.format3 c) = some c
  /-- A whole number of thousandths is a number, hence equal to itself. -/
  eq_self (c : R) (h : F32.IsThousandth c) : F32.eq c c = true
  /-- The word `none` is not a number. -/
  parse_none : (F32.parse "none" : Option R) = none

namespace Sample

/-- Confidences counted in tenths. -/
def Tenths : Type := Fin 11 deriving DecidableEq, Fintype

/-- The tenths with three decimals. -/
def Tenths.format3 (c : Tenths) : Str := dec (c.val / 10) ++ '.' :: (dec (c.val % 10) ++ "00")

/-- The number of tenths that a text with three decimals spells. -/
def Tenths.parse (s : Str) : Option Tenths := do
  let (whole, decimals) ← splitOnce '.' s
  let a ← parseUnsigned 2 whole
  let b ← parseUnsigned 1000 decimals
  if h : 10 * a + b / 100 < 11 then some ⟨10 * a + b / 100, h⟩ else none

theorem Tenths.parse_format3 : ∀ c : Tenths, Tenths.parse (Tenths.format3 c) = some c := by decide

scoped instance : F32 Tenths where
  format3 := Tenths.format3
  parse := Tenths.parse
  display := Tenths.format3
  inUnitInterval _ := true
  eq a b := a = b
  IsThousandth _ := True

scoped instance : LawfulF32 Tenths where
  parse_format3 c _ := Tenths.parse_format3 c
  eq_self _ _ := by simp [F32.eq]
  parse_none := rfl

/-- Whether the text has the shape of a timestamp: a date and a time of day. -/
def isTimestamp (s : Str) : Bool :=
  match splitOnce 'T' s with
  | some (date, time) => (date.splitOn '-').length = 3 && (time.splitOn ':').length = 3
  | none => false

/-- The SHA-256 digest of the codebook of the default dialect. -/
def codebookDigest : Str := "1efce9992ee24ff779a0430d998b37704d484f9cbb90c2fb78feec063add1547"

/-- The codebook is the only text that is hashed. -/
scoped instance : Host where
  debugStr s := '"' :: s ++ ['"']
  isRfc3339 := isTimestamp
  sha256Hex _ := codebookDigest

scoped instance : LawfulHost where
  sha256Hex_length _ := rfl
  sha256Hex_hex _ c h := by
    have hall : (codebookDigest.all fun c => c.isDigit || c ∈ ['a', 'b', 'c', 'd', 'e', 'f']) = true := rfl
    simpa using List.all_eq_true.1 hall c h

end Sample

namespace Occ

open Str Checked

/-- The type `u64`. -/
abbrev U64 : Type := Fin (2 ^ 64)

instance U64.neZero : NeZero (2 ^ 64) := inferInstance

/-- The type `u32`. -/
abbrev U32 : Type := Fin (2 ^ 32)

instance U32.neZero : NeZero (2 ^ 32) := inferInstance

/-- The type `usize` holds the numbers below this bound. -/
def usizeBound : ℕ := 2 ^ 64

/-- Protocol identity stamped on every typed message. -/
def agentCommProtocol : Str := "optimus.agent-comm.v1"

/-- The known evidence kinds. -/
def knownEvidenceKinds : List Str :=
  ["src", "commit", "log", "build", "tool", "artifact", "lines", "finding", "file", "transcript"]

/-- Whether `kind` is a known evidence kind. -/
def isKnownEvidenceKind (kind : Str) : Bool := knownEvidenceKinds.contains kind

/-- The statuses of a verification record. -/
def verificationStatuses : List Str := ["pass", "fail", "unknown"]

/-! ### Messages -/

/-- A reference to verifiable evidence. -/
@[ext]
structure EvidenceRef where
  /-- An id, unique within the message. -/
  id : Str
  /-- One of the evidence kinds. -/
  kind : Str
  /-- A path, a commit, a log id or another locator of the kind. -/
  locator : Str
  /-- An inclusive line range. -/
  lineRange : Option (U32 × U32)
  /-- An integrity digest. -/
  digest : Option Str
  /-- The revision the locator was read at. -/
  revision : Option Str
  /-- Whether the evidence was independently checked, and how that ended. -/
  verified : Option Bool
  deriving DecidableEq

/-- One compact finding. -/
@[ext]
structure Finding (R : Type) where
  /-- An id, unique within the message. -/
  id : Str
  /-- The claim in one sentence. -/
  statement : Str
  /-- The confidence, when estimated. -/
  confidence : Option R
  /-- The ids of the evidence that supports the finding. -/
  evidence : List Str
  deriving DecidableEq

/-- An independent verification record for one claim. -/
@[ext]
structure Verification where
  /-- The claim being verified. -/
  claim : Str
  /-- One of the verification statuses. -/
  status : Str
  /-- How it was verified. -/
  method : Str
  /-- A pointer to the receipt of the verification run. -/
  receipt : Option Str
  deriving DecidableEq

/-- The typed agent-to-agent message. -/
@[ext]
structure AgentCommMessage (R : Type) where
  messageId : Option Str
  taskId : Str
  parentTaskId : Option Str
  traceId : Option Str
  senderIdentity : Option Str
  recipientIdentity : Option Str
  kind : Str
  status : Str
  findings : List (Finding R)
  evidence : List EvidenceRef
  artifacts : List Str
  verification : Option Verification
  dependencies : List Str
  nextActions : List Str
  sequence : Option U64
  protocol : Str
  timestamp : Option Str
  expiry : Option Str
  deriving DecidableEq

/-- Equality of findings, with the equality of floats on confidences. -/
def Finding.eq {R : Type} [F32 R] (a b : Finding R) : Bool := a.id = b.id && a.statement = b.statement &&
    (match a.confidence, b.confidence with
      | some c, some c' => F32.eq c c'
      | none, none => true
      | _, _ => false) &&
    a.evidence = b.evidence

/-- Equality of messages, field by field. -/
def AgentCommMessage.eq {R : Type} [F32 R] (a b : AgentCommMessage R) : Bool :=
  a.messageId = b.messageId && a.taskId = b.taskId && a.parentTaskId = b.parentTaskId &&
    a.traceId = b.traceId && a.senderIdentity = b.senderIdentity &&
    a.recipientIdentity = b.recipientIdentity && a.kind = b.kind && a.status = b.status &&
    a.findings.isEqv b.findings Finding.eq && a.evidence = b.evidence &&
    a.artifacts = b.artifacts && a.verification = b.verification &&
    a.dependencies = b.dependencies && a.nextActions = b.nextActions && a.sequence = b.sequence &&
    a.protocol = b.protocol && a.timestamp = b.timestamp && a.expiry = b.expiry

/-- A failure of validation or conversion. -/
inductive ContractError (R : Type) where
  | missingRequired (field : Str)
  | invalidTaskId (taskId : Str)
  | unknownKind (kind : Str)
  | unknownStatus (status : Str)
  | protocolMismatch (protocol : Str)
  | invalidConfidence (confidence : R)
  | unknownEvidence (findingId evidenceId : Str)
  | unknownEvidenceKind (kind : Str)
  | invalidTimestamp (stamp : Str)
  | occ1Conversion (reason : Str)
  | occ1 (error : Occ1Error)
  deriving DecidableEq

variable {R : Type} [Host]

open Host (debugStr isRfc3339)

/-- The text of a codec failure. -/
def Occ1Error.display : Occ1Error → Str
  | .empty => "OCC-1 input is empty"
  | .badHeader first header => "first line " ++ debugStr first ++ " is not the exact header " ++ debugStr header
  | .missingSeparator line => "line " ++ dec line ++ ": expected KEY=VALUE, no '=' found"
  | .invalidKey line key => "line " ++ dec line ++ ": key " ++ debugStr key ++ " is not [A-Z][A-Z0-9_]*"
  | .controlChar line key =>
    "line " ++ dec line ++ ": value of " ++ debugStr key ++ " contains a control character"
  | .blankLine line => "line " ++ dec line ++ ": blank lines are not allowed"
  | .tooLarge limit => "message exceeds the " ++ dec limit ++ " byte bound"
  | .tooManyFields limit => "message exceeds the " ++ dec limit ++ " field bound"
  | .valueTooLarge key limit => "value of " ++ debugStr key ++ " exceeds " ++ dec limit ++ " bytes"
  | .keyTooLarge key limit => "key " ++ debugStr key ++ " exceeds " ++ dec limit ++ " bytes"

/-- The text of a contract failure. -/
def ContractError.display [F32 R] : ContractError R → Str
  | .missingRequired field => "contract field " ++ debugStr field ++ " is required"
  | .invalidTaskId taskId => "task_id " ++ debugStr taskId ++ " is empty or malformed"
  | .unknownKind kind => "unknown message kind " ++ debugStr kind
  | .unknownStatus status => "unknown task status " ++ debugStr status
  | .protocolMismatch protocol =>
    "protocol " ++ debugStr protocol ++ " does not match " ++ debugStr agentCommProtocol
  | .invalidConfidence c => "confidence " ++ F32.display c ++ " is outside [0, 1]"
  | .unknownEvidence findingId evidenceId =>
    "finding " ++ debugStr findingId ++ " references unknown evidence " ++ debugStr evidenceId
  | .unknownEvidenceKind kind => "unknown evidence kind " ++ debugStr kind
  | .invalidTimestamp stamp => "timestamp " ++ debugStr stamp ++ " is not RFC 3339"
  | .occ1Conversion reason => "OCC-1 conversion error: " ++ reason
  | .occ1 error => error.display

namespace AgentCommMessage

/-- A minimal message for the given task. -/
def new (kind taskId status : Str) : AgentCommMessage R where
  messageId := none
  taskId := taskId
  parentTaskId := none
  traceId := none
  senderIdentity := none
  recipientIdentity := none
  kind := kind
  status := status
  findings := []
  evidence := []
  artifacts := []
  verification := none
  dependencies := []
  nextActions := []
  sequence := none
  protocol := agentCommProtocol
  timestamp := none
  expiry := none

variable [F32 R]

/-- The checks of one finding: its confidence, then its evidence links. -/
def validateFinding (evidenceIds : List Str) (finding : Finding R) : Except (ContractError R) Unit := do
  forM finding.confidence.toList fun c => rejectIf (¬ F32.inUnitInterval c = true) (.invalidConfidence c)
  forM finding.evidence fun id => rejectIf (id ∉ evidenceIds) (.unknownEvidence finding.id id)

/-- The invariant rules of the contract. -/
def validate (m : AgentCommMessage R) : Except (ContractError R) Unit := do
  rejectIf (m.taskId = [] ∨ hasControl m.taskId = true) (.invalidTaskId m.taskId)
  rejectIf (¬ isKnownKind m.kind = true) (.unknownKind m.kind)
  rejectIf (¬ isKnownStatus m.status = true) (.unknownStatus m.status)
  rejectIf (m.kind = "EVIDENCE" ∧ m.evidence = [])
    (.occ1Conversion "an EVIDENCE message must carry at least one evidence reference")
  rejectIf (m.protocol ≠ agentCommProtocol) (.protocolMismatch m.protocol)
  forM m.findings (validateFinding (m.evidence.map EvidenceRef.id))
  forM m.evidence fun e => rejectIf (¬ isKnownEvidenceKind e.kind = true) (.unknownEvidenceKind e.kind)
  forM m.verification.toList fun v =>
    rejectIf (v.status ∉ verificationStatuses)
      (.occ1Conversion ("unknown verification status " ++ debugStr v.status))
  forM (m.timestamp.toList ++ m.expiry.toList) fun stamp =>
    rejectIf (¬ isRfc3339 stamp = true) (.invalidTimestamp stamp)

/-- A message that follows the rules of the contract. -/
structure Valid (m : AgentCommMessage R) : Prop where
  taskId_ne : m.taskId ≠ []
  taskId_clean : hasControl m.taskId = false
  kind : isKnownKind m.kind = true
  status : isKnownStatus m.status = true
  evidence_ne : m.kind = "EVIDENCE" → m.evidence ≠ []
  protocol : m.protocol = agentCommProtocol
  confidence : ∀ f ∈ m.findings, ∀ c ∈ f.confidence, F32.inUnitInterval c = true
  links : ∀ f ∈ m.findings, ∀ id ∈ f.evidence, id ∈ m.evidence.map EvidenceRef.id
  kinds : ∀ e ∈ m.evidence, isKnownEvidenceKind e.kind = true
  verification : ∀ v ∈ m.verification, v.status ∈ verificationStatuses
  stamps : ∀ stamp ∈ m.timestamp.toList ++ m.expiry.toList, isRfc3339 stamp = true

omit [Host] in
theorem validateFinding_eq_ok_iff {evidenceIds : List Str} {f : Finding R} {u : Unit} :
    validateFinding evidenceIds f = .ok u ↔
      (∀ c ∈ f.confidence, F32.inUnitInterval c = true) ∧ ∀ id ∈ f.evidence, id ∈ evidenceIds := by
  simp only [validateFinding, bind_eq_ok, forM_eq_ok_iff, rejectIf_eq_ok, exists_const, not_not,
    Option.mem_toList, Option.mem_def]

/-- The validation accepts exactly the messages that follow the rules. -/
theorem validate_eq_ok_iff {m : AgentCommMessage R} {u : Unit} : m.validate = .ok u ↔ m.Valid := by
  simp only [validate, bind_eq_ok, forM_eq_ok_iff, rejectIf_eq_ok, exists_const, not_not,
    Option.mem_toList, Option.mem_def, validateFinding_eq_ok_iff, not_or, not_and, Bool.not_eq_true,
    Bool.not_eq_false]
  constructor
  · rintro ⟨h₁, h₂, h₃, h₄, h₅, h₆, h₇, h₈, h₉⟩
    exact ⟨h₁.1, h₁.2, h₂, h₃, h₄, h₅, fun f hf => (h₆ f hf).1, fun f hf => (h₆ f hf).2, h₇, h₈, h₉⟩
  · intro h
    exact ⟨⟨h.taskId_ne, h.taskId_clean⟩, h.kind, h.status, h.evidence_ne, h.protocol,
      fun f hf => ⟨h.confidence f hf, h.links f hf⟩, h.kinds, h.verification, h.stamps⟩

/-! ### Encoding -/

/-- The field of a value that is always there. -/
def reqField (key value : Str) : List (Str × Str) := [(key, value)]

/-- The field of an optional value. -/
def optField (key : Str) (value : Option Str) : List (Str × Str) := value.toList.map fun v => (key, v)

/-- The fields of finding number `n`. -/
def findingFields (n : ℕ) (f : Finding R) : List (Str × Str) :=
  reqField ("F" ++ dec n) f.statement ++ optField ("FC" ++ dec n) (f.confidence.map F32.format3) ++
    if f.evidence = [] then [] else reqField ("FE" ++ dec n) ([','].intercalate f.evidence)

/-- The fields of evidence reference number `n`. -/
def evidenceFields (n : ℕ) (e : EvidenceRef) : List (Str × Str) :=
  reqField ("E" ++ dec n) (e.kind ++ ':' :: e.locator) ++
    optField ("EL" ++ dec n) (e.lineRange.map fun r => dec r.1.val ++ '-' :: dec r.2.val) ++
    optField ("ED" ++ dec n) e.digest ++
    optField ("ER" ++ dec n) e.revision ++
    optField ("EV" ++ dec n) (e.verified.map fun b => if b then "pass" else "fail")

/-- The fields of the verification record. -/
def verificationFields (v : Verification) : List (Str × Str) :=
  reqField "V" v.claim ++ reqField "VS" v.status ++ reqField "VM" v.method ++ optField "VR" v.receipt

/-- The fields of a message, in the order in which the encoder pushes them. -/
def fields (m : AgentCommMessage R) : List (Str × Str) :=
  optField "MSGID" m.messageId ++ reqField "TASK" m.taskId ++ optField "PARENT" m.parentTaskId ++
    optField "TRACE" m.traceId ++ optField "SENDER" m.senderIdentity ++
    optField "RECIPIENT" m.recipientIdentity ++ reqField "KIND" m.kind ++
    reqField "STATUS" m.status ++
    optField "SEQ" (m.sequence.map fun n => dec n.val) ++
    ((m.findings.zipIdx 1).flatMap fun p => findingFields p.2 p.1) ++
    ((m.evidence.zipIdx 1).flatMap fun p => evidenceFields p.2 p.1) ++
    ((m.artifacts.zipIdx 1).flatMap fun p => reqField ("ART" ++ dec p.2) p.1) ++
    m.verification.toList.flatMap verificationFields ++
    ((m.dependencies.zipIdx 1).flatMap fun p => reqField ("DEP" ++ dec p.2) p.1) ++
    (m.nextActions.flatMap fun a => reqField "NEXT" a) ++
    optField "TS" m.timestamp ++ optField "EXP" m.expiry

/-- The OCC-1 message of a valid contract message. -/
def toOcc1 (m : AgentCommMessage R) : Except (ContractError R) Occ1Message := do
  m.validate
  pure ⟨m.fields⟩

/-- The encoder refuses exactly the invalid messages. -/
theorem toOcc1_eq_ok_iff {m : AgentCommMessage R} {w : Occ1Message} : m.toOcc1 = .ok w ↔ m.Valid ∧ w = ⟨m.fields⟩ := by
  simp only [toOcc1, bind_eq_ok, validate_eq_ok_iff, exists_const, pure_eq_ok, Except.ok.injEq]
  exact and_congr_right fun _ => eq_comm

end AgentCommMessage

/-! ### Decoding -/

/-- The highest index among the keys of a family. -/
def highestIndex (family : Str) (fields : List (Str × Str)) : ℕ :=
  fields.foldl (fun highest kv =>
    match (stripPrefix family kv.1).bind (parseUnsigned usizeBound) with
    | some index => max highest index
    | none => highest) 0

/-- The number of entries of a family: its indices must be contiguous from 1. -/
def indexedCount (w : Occ1Message) (family : Str) : Except (ContractError R) ℕ := do
  let highest := highestIndex family w.fields
  forM (List.range' 1 highest) fun index =>
    rejectIf (¬ w.has (family ++ dec index) = true)
      (.occ1Conversion (family ++ " index " ++ dec index ++ " missing below the highest index " ++ dec highest))
  pure highest

/-- The texts of a list of evidence references: separated by commas, trimmed, empty ones skipped. -/
def splitReferences (evidence : Str) : List Str :=
  ((evidence.splitOn ',').map trim).filter fun reference => reference ≠ []

/-- The evidence id that a reference of finding `index` names. -/
def decodeReference (index evidenceCount : ℕ) (reference : Str) : Except (ContractError R) Str := do
  let number ← okOr ((stripPrefix "E" reference).bind (parseUnsigned usizeBound))
    (.occ1Conversion ("FE" ++ dec index ++ " references " ++ debugStr reference ++ ", expected E<n>"))
  rejectIf (number = 0 ∨ evidenceCount < number)
    (.occ1Conversion ("FE" ++ dec index ++ " references E" ++ dec number ++ ", outside 1..=" ++ dec evidenceCount))
  pure ("E" ++ dec number)

/-- Finding number `index`. -/
def decodeFinding [F32 R] (w : Occ1Message) (evidenceCount index : ℕ) :
    Except (ContractError R) (Finding R) := do
  let statement ← okOr (w.get ("F" ++ dec index))
    (.occ1Conversion ("finding index " ++ dec index ++ " missing (indices must be contiguous from 1)"))
  let confidence ← optM (fun text => okOr (F32.parse text)
    (.occ1Conversion ("FC" ++ dec index ++ " not a number"))) (w.get ("FC" ++ dec index))
  let evidence ← (((w.get ("FE" ++ dec index)).map splitReferences).getD []).mapM
    (decodeReference index evidenceCount)
  pure { id := "F" ++ dec index, statement, confidence, evidence }

/-- The line range of evidence reference number `index`. -/
def decodeLineRange (index : ℕ) (range : Str) : Except (ContractError R) (U32 × U32) := do
  let bounds ← okOr (splitOnce '-' range)
    (.occ1Conversion ("EL" ++ dec index ++ " must be <start>-<end>"))
  let start ← okOr (parseFin (2 ^ 32) bounds.1)
    (.occ1Conversion ("EL" ++ dec index ++ " start invalid"))
  let last ← okOr (parseFin (2 ^ 32) bounds.2) (.occ1Conversion ("EL" ++ dec index ++ " end invalid"))
  pure (start, last)

/-- The verification state of evidence reference number `index`. -/
def decodeVerified (index : ℕ) (verified : Str) : Except (ContractError R) (Option Bool) :=
  if verified = "pass" then .ok (some true)
  else if verified = "fail" then .ok (some false)
  else if verified = "unknown" then .ok none
  else .error (.occ1Conversion ("EV" ++ dec index ++ " must be pass/fail/unknown, got " ++ debugStr verified))

/-- Evidence reference number `index`. -/
def decodeEvidence (w : Occ1Message) (index : ℕ) : Except (ContractError R) EvidenceRef := do
  let encoded ← okOr (w.get ("E" ++ dec index))
    (.occ1Conversion ("evidence index " ++ dec index ++ " missing (indices must be contiguous from 1)"))
  let parts ← okOr (splitOnce ':' encoded)
    (.occ1Conversion ("E" ++ dec index ++ " must be <kind>:<locator>"))
  let lineRange ← optM (decodeLineRange index) (w.get ("EL" ++ dec index))
  let digest := w.get ("ED" ++ dec index)
  let revision := w.get ("ER" ++ dec index)
  let verified ← optM (decodeVerified index) (w.get ("EV" ++ dec index))
  pure { id := "E" ++ dec index, kind := parts.1, locator := parts.2, lineRange, digest, revision,
         verified := verified.join }

/-- Entry number `index` of a family of plain texts. -/
def decodeEntry (w : Occ1Message) (family name : Str) (index : ℕ) : Except (ContractError R) Str :=
  okOr (w.get (family ++ dec index)) (.occ1Conversion (name ++ " index " ++ dec index ++ " missing"))

/-- The verification record: absent, or complete. -/
def decodeVerification (w : Occ1Message) : Except (ContractError R) (Option Verification) :=
  match w.get "V" with
  | some claim => do
      let status ← okOr (w.get "VS") (.occ1Conversion "V without VS")
      let method ← okOr (w.get "VM") (.occ1Conversion "V without VM")
      pure (some { claim, status, method, receipt := w.get "VR" })
  | none => do
      rejectIf (w.has "VS" = true ∨ w.has "VM" = true) (.occ1Conversion "VS/VM without V")
      pure none

/-- The contract message of an OCC-1 message. -/
def AgentCommMessage.fromOcc1 [F32 R] (w : Occ1Message) :
    Except (ContractError R) (AgentCommMessage R) := do
  let taskId ← okOr (w.get "TASK") (.missingRequired "TASK")
  let kind ← okOr (w.get "KIND") (.missingRequired "KIND")
  let status ← okOr (w.get "STATUS") (.missingRequired "STATUS")
  let sequence ← optM (fun seq => okOr (parseFin (2 ^ 64) seq)
    (.occ1Conversion ("SEQ " ++ debugStr seq ++ " is not a u64"))) (w.get "SEQ")
  let evidenceCount ← indexedCount w "E"
  let findingCount ← indexedCount w "F"
  let findings ← (List.range' 1 findingCount).mapM (decodeFinding w evidenceCount)
  let evidence ← (List.range' 1 evidenceCount).mapM (decodeEvidence w)
  let artifactCount ← indexedCount w "ART"
  let artifacts ← (List.range' 1 artifactCount).mapM (decodeEntry w "ART" "artifact")
  let verification ← decodeVerification w
  let dependencyCount ← indexedCount w "DEP"
  let dependencies ← (List.range' 1 dependencyCount).mapM (decodeEntry w "DEP" "dependency")
  let out : AgentCommMessage R :=
    { (AgentCommMessage.new kind taskId status : AgentCommMessage R) with
      messageId := w.get "MSGID"
      parentTaskId := w.get "PARENT"
      traceId := w.get "TRACE"
      senderIdentity := w.get "SENDER"
      recipientIdentity := w.get "RECIPIENT"
      sequence, findings, evidence, artifacts, verification, dependencies
      nextActions := w.getAll "NEXT"
      timestamp := w.get "TS"
      expiry := w.get "EXP" }
  out.validate
  pure out

end Occ
