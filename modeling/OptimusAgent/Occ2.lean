/-
**OCC-2: the symbolic wire codec.**

OCC-2 writes the fields of the contract as lines `<symbol>[<index>][<marker>]<operator><value>`
behind a header that names the dialect and its codebook hash.  This module embeds
`core/occ/occ2.rs`: the encoder, the decoder with its accumulator, and the dual payload that carries
an OCC-1 text behind a sentinel line.
-/

import OptimusAgent.Dialect
import OptimusAgent.WireFields

namespace Occ

open Str Checked

/-! ### Names of slots -/

/-- The canonical name of a base slot or of a subfield, as a literal. -/
def WireSlot.nameLiteral : WireSlot → String
  | messageId => "message_id"
  | taskId => "task_id"
  | parentTaskId => "parent_task_id"
  | traceId => "trace_id"
  | sender => "sender"
  | recipient => "recipient"
  | kind => "kind"
  | status => "status"
  | sequence => "sequence"
  | timestamp => "timestamp"
  | expiry => "expiry"
  | findingStatement => "finding.statement"
  | findingConfidence => "finding.confidence"
  | findingEvidence => "finding.evidence"
  | evidenceRef => "evidence.ref"
  | evidenceLineRange => "evidence.line_range"
  | evidenceDigest => "evidence.digest"
  | evidenceRevision => "evidence.revision"
  | evidenceVerified => "evidence.verified"
  | artifact => "artifact"
  | verificationClaim => "verification.claim"
  | verificationStatus => "verification.status"
  | verificationMethod => "verification.method"
  | verificationReceipt => "verification.receipt"
  | dependency => "dependency"
  | nextAction => "next_action"

/-- The canonical name of a base slot or of a subfield. -/
def WireSlot.name (slot : WireSlot) : Str := slot.nameLiteral

/-- The base slots in canonical order. -/
def WireSlot.bases : List WireSlot :=
  [.messageId, .taskId, .parentTaskId, .traceId, .sender, .recipient, .kind, .status, .sequence,
    .timestamp, .expiry, .findingStatement, .evidenceRef, .artifact, .verificationClaim,
    .dependency, .nextAction]

/-- The subfields in canonical order. -/
def WireSlot.subfields : List WireSlot :=
  [.findingConfidence, .findingEvidence, .evidenceLineRange, .evidenceDigest, .evidenceRevision,
    .evidenceVerified, .verificationStatus, .verificationMethod, .verificationReceipt]

/-- A failure of the OCC-2 codec.  Line 0 marks errors detected after the line loop or by the
encoder. -/
inductive Occ2Error (R : Type) where
  | empty
  | badHeader (header : Str)
  | unknownDialect (dialect : Str) (version : U32)
  | hashMismatch (dialect : Str) (version : U32) (advertised registered : Str)
  | missingSeparator (line : ℕ) (op : Char)
  | invalidSymbol (line : ℕ) (key dialect : Str)
  | unknownSymbol (line : ℕ) (key dialect : Str)
  | blankLine (line : ℕ)
  | controlChar (line : ℕ) (key : Str)
  | valueTooLarge (key : Str) (limit : ℕ)
  | tooManyFields (limit : ℕ)
  | tooLarge (limit : ℕ)
  | badValue (line : ℕ) (key reason : Str)
  | duplicateField (key : Str)
  | indexGap (family : Str) (index highest : ℕ)
  | verificationGroup (reason : Str)
  | fallbackSection (reason : Str)
  | dualMismatch
  | dialect (error : DialectError)
  | contract (error : ContractError R)
  deriving DecidableEq

namespace Occ2

/-- The first token of every OCC-2 header line. -/
def occ2Header : Str := "OCC/2"

/-- The line that introduces the embedded OCC-1 section of a dual payload. -/
def occ2FallbackSentinel : Str := "#FALLBACK-OCC1"

/-- The maximum number of symbolic field lines. -/
def occ2MaxFields : ℕ := 128

/-- The maximum length of a field value in bytes. -/
def occ2MaxValueBytes : ℕ := 4096

/-- The maximum size of the symbolic section in bytes. -/
def occ2MaxSymbolicBytes : ℕ := 64 * 1024

/-- The maximum size of a whole message in bytes. -/
def occ2MaxMessageBytes : ℕ := 128 * 1024

variable {R : Type}

/-! ### Encoding -/

/-- The symbols of a card, resolved once. -/
structure Symbols where
  /-- The symbol with which the keys of a slot start. -/
  symbol : WireSlot → Str
  /-- The marker with which the keys of a subfield end. -/
  marker : WireSlot → Option Char

/-- Looks every symbol and marker up; a validated card has all of them. -/
def Symbols.resolve (card : DialectCard) : Except (Occ2Error R) Symbols := do
  let table := card.symbolTable
  forM WireSlot.bases fun slot => rejectIf (table.symbol slot.name = none) (.dialect (.missingSlot slot.name))
  forM WireSlot.subfields fun slot =>
    rejectIf (table.marker slot.name = none) (.dialect (.missingSubfield slot.name))
  pure { symbol := fun slot => (table.symbol slot.base.name).getD []
         marker := fun slot => if slot.base = slot then none else table.marker slot.name }

/-- The wire key of a field. -/
def Symbols.key (symbols : Symbols) (k : WireKey) : Str :=
  symbols.symbol k.1 ++ (k.2.map dec).getD [] ++ (symbols.marker k.1).toList

/-- The output of the encoder so far, and the number of fields in it. -/
structure Output where
  out : Str
  fields : ℕ

/-- Appends one field line, enforcing the bounds. -/
def pushField (operator : Char) (o : Output) (key value : Str) : Except (Occ2Error R) Output := do
  rejectIf (occ2MaxFields ≤ o.fields) (.tooManyFields occ2MaxFields)
  rejectIf (occ2MaxValueBytes < byteLen value) (.valueTooLarge key occ2MaxValueBytes)
  rejectIf (hasControl value = true) (.controlChar 0 key)
  let out := o.out ++ '\n' :: (key ++ operator :: value)
  rejectIf (occ2MaxSymbolicBytes < byteLen out) (.tooLarge occ2MaxSymbolicBytes)
  pure { out, fields := o.fields + 1 }

/-- Appends the line of a value that may be absent. -/
def pushOpt (symbols : Symbols) (operator : Char) (k : WireKey) (value : Option Str)
    (o : Output) : Except (Occ2Error R) Output :=
  match value with
  | none => .ok o
  | some v => pushField operator o (symbols.key k) v

/-- The position that an evidence id of finding `n` names. -/
def encodeReference [Host] (symbols : Symbols) (count n : ℕ) (reference : Str) :
    Except (Occ2Error R) Str := do
  let number ← okOr
    (((stripPrefix "E" reference).bind (parseUnsigned usizeBound)).filter fun number =>
      1 ≤ number ∧ number ≤ count)
    (.badValue 0 (symbols.key (.findingEvidence, some n))
      ("finding " ++ dec n ++ " references evidence id " ++ Host.debugStr reference ++
        ", which is not a positional E<n> reference into 1..=" ++ dec count))
  pure (dec number)

/-- The lines of finding number `n`. -/
def pushFinding [Host] [F32 R] (symbols : Symbols) (grammar : DialectGrammar) (count : ℕ)
    (o : Output) (n : ℕ) (f : Finding R) : Except (Occ2Error R) Output := do
  let op := grammar.operator
  let o ← pushOpt symbols op (.findingStatement, some n) (some f.statement) o
  let o ← pushOpt symbols op (.findingConfidence, some n) (f.confidence.map F32.format3) o
  if f.evidence = [] then pure o
  else do
    let references ← f.evidence.mapM (encodeReference symbols count n)
    pushField op o (symbols.key (.findingEvidence, some n))
      ([grammar.listSeparator].intercalate references)

/-- The lines of evidence reference number `n`. -/
def pushEvidence (symbols : Symbols) (op : Char) (o : Output) (n : ℕ) (e : EvidenceRef) :
    Except (Occ2Error R) Output := do
  let o ← pushOpt symbols op (.evidenceRef, some n) (some (e.kind ++ ':' :: e.locator)) o
  let o ← pushOpt symbols op (.evidenceLineRange, some n)
    (e.lineRange.map fun r => dec r.1.val ++ '-' :: dec r.2.val) o
  let o ← pushOpt symbols op (.evidenceDigest, some n) e.digest o
  let o ← pushOpt symbols op (.evidenceRevision, some n) e.revision o
  pushOpt symbols op (.evidenceVerified, some n) (e.verified.map fun b => if b then "1" else "0") o

/-- The lines of the entries of a list, numbered from `n` on. -/
def pushEach {α : Type} (push : Output → ℕ → α → Except (Occ2Error R) Output) :
    ℕ → List α → Output → Except (Occ2Error R) Output
  | _, [], o => .ok o
  | n, x :: l, o => do
      let o ← push o n x
      pushEach push (n + 1) l o

/-- The header line. -/
def headerLine (card : DialectCard) : Str :=
  occ2Header ++ " D=" ++ card.dialectId ++ "@" ++ dec card.version.val ++ " C=" ++ card.sha256.take codebookPrefixLen

/-- The symbolic section: header and field lines, in the order of the OCC-1 contract encoder. -/
def encodeSymbolic [Host] [F32 R] (m : AgentCommMessage R) (card : DialectCard) :
    Except (Occ2Error R) Str := do
  card.validate.mapError .dialect
  m.validate.mapError .contract
  let symbols ← Symbols.resolve card
  let op := card.grammar.operator
  let o : Output := { out := headerLine card, fields := 0 }
  let o ← pushOpt symbols op (.messageId, none) m.messageId o
  let o ← pushOpt symbols op (.taskId, none) (some m.taskId) o
  let o ← pushOpt symbols op (.parentTaskId, none) m.parentTaskId o
  let o ← pushOpt symbols op (.traceId, none) m.traceId o
  let o ← pushOpt symbols op (.sender, none) m.senderIdentity o
  let o ← pushOpt symbols op (.recipient, none) m.recipientIdentity o
  let o ← pushOpt symbols op (.kind, none) (some m.kind) o
  let o ← pushOpt symbols op (.status, none) (some m.status) o
  let o ← pushOpt symbols op (.sequence, none) (m.sequence.map fun n => dec n.val) o
  let o ← pushEach (pushFinding symbols card.grammar m.evidence.length) 1 m.findings o
  let o ← pushEach (pushEvidence symbols op) 1 m.evidence o
  let o ← pushEach (fun o n text => pushOpt symbols op (.artifact, some n) (some text) o) 1
    m.artifacts o
  let o ← pushOpt symbols op (.verificationClaim, none) (m.verification.map (·.claim)) o
  let o ← pushOpt symbols op (.verificationStatus, none) (m.verification.map (·.status)) o
  let o ← pushOpt symbols op (.verificationMethod, none) (m.verification.map (·.method)) o
  let o ← pushOpt symbols op (.verificationReceipt, none) (m.verification.bind (·.receipt)) o
  let o ← pushEach (fun o n text => pushOpt symbols op (.dependency, some n) (some text) o) 1
    m.dependencies o
  let o ← pushEach (fun o _ action => pushOpt symbols op (.nextAction, none) (some action) o) 1
    m.nextActions o
  let o ← pushOpt symbols op (.timestamp, none) m.timestamp o
  let o ← pushOpt symbols op (.expiry, none) m.expiry o
  pure o.out

/-- Encodes a message with a dialect. -/
def encode [Host] [F32 R] (m : AgentCommMessage R) (card : DialectCard) :
    Except (Occ2Error R) Str := encodeSymbolic m card

/-- Encodes a message twice: the symbolic section, then the sentinel line and an OCC-1 text. -/
def encodeDual [Host] [F32 R] (m : AgentCommMessage R) (card : DialectCard) :
    Except (Occ2Error R) Str := do
  let symbolic ← encodeSymbolic m card
  let out := symbolic ++ '\n' :: (occ2FallbackSentinel ++ ['\n'])
  let occ1 ← m.toOcc1.mapError .contract
  let occ1Text ← occ1.encode.mapError fun error => .fallbackSection error.display
  rejectIf (occ2MaxMessageBytes < byteLen out + byteLen occ1Text) (.tooLarge occ2MaxMessageBytes)
  pure (out ++ occ1Text)

/-! ### Keys -/

/-- A scalar key has nothing after its symbol. -/
def scalarKey (rest : Str) (slot : WireSlot) : Option WireKey :=
  if rest = [] then some (slot, none) else none

/-- A 1-based decimal index with nothing after it. -/
def indexedKey (rest : Str) : Option ℕ :=
  if rest = [] ∨ ¬ rest.all Char.isDigit = true then none
  else (parseUnsigned usizeBound rest).filter fun index => 1 ≤ index

/-- Splits `<digits>[<one lowercase marker>]` into index and marker. -/
def splitIndexMarker (rest : Str) : Option (ℕ × Option Char) :=
  let digits := rest.takeWhile Char.isDigit
  let tail := rest.dropWhile Char.isDigit
  if digits = [] then none
  else
    ((parseUnsigned usizeBound digits).filter fun index => index ≠ 0).bind fun index =>
      match tail with
      | [] => some (index, none)
      | [marker] => if isAsciiLower marker = true then some (index, some marker) else none
      | _ => none

/-- The subfield of a base slot with a marker: the first in the order of the source. -/
def subfieldWith (table : SymbolTable) (candidates : List WireSlot) (marker : Char) : Option WireSlot :=
  candidates.find? fun slot => table.marker slot.name = some marker

/-- The key of an indexed group: the base field, or a subfield by its marker. -/
def groupKey (table : SymbolTable) (base : WireSlot) (candidates : List WireSlot) (rest : Str) : Option WireKey :=
  (splitIndexMarker rest).bind fun (index, marker) =>
    match marker with
    | none => some (base, some index)
    | some marker => (subfieldWith table candidates marker).map fun slot => (slot, some index)

/-- The key of a finding field. -/
def findingKey (rest : Str) (table : SymbolTable) : Option WireKey :=
  groupKey table .findingStatement [.findingConfidence, .findingEvidence] rest

/-- The key of an evidence field. -/
def evidenceKey (rest : Str) (table : SymbolTable) : Option WireKey := groupKey table .evidenceRef
    [.evidenceLineRange, .evidenceDigest, .evidenceRevision, .evidenceVerified] rest

/-- The key of a verification field. -/
def verificationKey (rest : Str) (table : SymbolTable) : Option WireKey :=
  match rest with
  | [] => some (.verificationClaim, none)
  | [marker] =>
    if isAsciiLower marker = true then
      (subfieldWith table [.verificationStatus, .verificationMethod, .verificationReceipt]
        marker).map fun slot => (slot, none)
    else none
  | _ => none

/-- What follows the symbol of a base slot. -/
def restKey (table : SymbolTable) (base : WireSlot) (rest : Str) : Option WireKey :=
  match base with
  | .verificationClaim => verificationKey rest table
  | .findingStatement => findingKey rest table
  | .evidenceRef => evidenceKey rest table
  | .artifact => (indexedKey rest).map fun index => (.artifact, some index)
  | .dependency => (indexedKey rest).map fun index => (.dependency, some index)
  | slot => scalarKey rest slot

/-- Parses one field key against the symbol table of a dialect. -/
def parseKey (key : Str) (card : DialectCard) : Except (Occ2Error R) WireKey :=
  match card.symbolTable.slots.entries.findSome? fun e =>
      (stripPrefix e.2 key).map fun rest => (e.1, rest) with
  | none => .error (.unknownSymbol 0 key card.dialectId)
  | some (slot, rest) =>
    match WireSlot.bases.find? fun base => base.name = slot with
    | none => .error (.unknownSymbol 0 key card.dialectId)
    | some base => okOr (restKey card.symbolTable base rest) (.invalidSymbol 0 key card.dialectId)

/-! ### The accumulator -/

/-- The fields of a finding seen so far. -/
structure WireFinding (R : Type) where
  statement : Option Str
  confidence : Option R
  evidence : Option (List ℕ)

instance : Inhabited (WireFinding R) := ⟨⟨none, none, none⟩⟩

/-- The fields of an evidence reference seen so far. -/
structure WireEvidence where
  kindLocator : Option Str
  lineRange : Option (U32 × U32)
  digest : Option Str
  revision : Option Str
  verified : Option Bool

instance : Inhabited WireEvidence := ⟨⟨none, none, none, none, none⟩⟩

/-- The fields of a message seen so far. -/
structure WireMessage (R : Type) where
  messageId : Option Str
  taskId : Option Str
  parentTaskId : Option Str
  traceId : Option Str
  sender : Option Str
  recipient : Option Str
  kind : Option Str
  status : Option Str
  sequence : Option U64
  timestamp : Option Str
  expiry : Option Str
  findings : OrdMap ℕ (WireFinding R)
  evidence : OrdMap ℕ WireEvidence
  artifacts : OrdMap ℕ Str
  dependencies : OrdMap ℕ Str
  nextActions : List Str
  verificationClaim : Option Str
  verificationStatus : Option Str
  verificationMethod : Option Str
  verificationReceipt : Option Str

/-- The accumulator before the first line. -/
def WireMessage.init : WireMessage R :=
  ⟨none, none, none, none, none, none, none, none, none, none, none, .empty, .empty, .empty, .empty,
    [], none, none, none, none⟩

/-- Stores a value that must not be there yet. -/
def setScalar {α : Type} (slot : Option α) (value : α) (key : Str) :
    Except (Occ2Error R) (Option α) := do
  rejectIf (slot.isSome = true) (.duplicateField key)
  pure (some value)

/-- Stores an entry that must not be there yet. -/
def setEntry (entries : OrdMap ℕ Str) (index : ℕ) (value key : Str) :
    Except (Occ2Error R) (OrdMap ℕ Str) := do
  rejectIf (entries.contains index = true) (.duplicateField key)
  pure (entries.insert index value)

/-- The evidence positions of a finding. -/
def parseReferences (separator : Char) (key : Str) (line : ℕ) (value : Str) : Except (Occ2Error R) (List ℕ) :=
  (value.splitOn separator).mapM fun part => do
    let number ← okOr (parseUnsigned usizeBound part)
      (.badValue line key "evidence references must be decimal indices")
    rejectIf (number = 0) (.badValue line key "evidence indices are 1-based")
    pure number

/-- The line range of an evidence reference. -/
def parseLineRange (key : Str) (line : ℕ) (value : Str) : Except (Occ2Error R) (U32 × U32) := do
  let bounds ← okOr (splitOnce '-' value) (.badValue line key "must be <start>-<end>")
  let start ← okOr (parseFin (2 ^ 32) bounds.1) (.badValue line key "start is not a u32")
  let last ← okOr (parseFin (2 ^ 32) bounds.2) (.badValue line key "end is not a u32")
  pure (start, last)

/-- The verification state of an evidence reference. -/
def parseVerified (key : Str) (line : ℕ) (value : Str) : Except (Occ2Error R) Bool :=
  if value = "1" then .ok true
  else if value = "0" then .ok false
  else .error (.badValue line key "must be 1 (verified) or 0 (failed)")

/-- Changes the finding with an index. -/
def updateFinding (wire : WireMessage R) (index : ℕ) (f : WireFinding R → Except (Occ2Error R) (WireFinding R)) :
    Except (Occ2Error R) (WireMessage R) := do
  let finding ← f ((wire.findings.get? index).getD default)
  pure { wire with findings := wire.findings.insert index finding }

/-- Changes the evidence reference with an index. -/
def updateEvidence (wire : WireMessage R) (index : ℕ) (f : WireEvidence → Except (Occ2Error R) WireEvidence) :
    Except (Occ2Error R) (WireMessage R) := do
  let evidence ← f ((wire.evidence.get? index).getD default)
  pure { wire with evidence := wire.evidence.insert index evidence }

/-- Applies one parsed field to the accumulator. -/
def applyField [F32 R] (wire : WireMessage R) (k : WireKey) (value key : Str) (line : ℕ)
    (separator : Char) : Except (Occ2Error R) (WireMessage R) :=
  let index : Except (Occ2Error R) ℕ := okOr k.2 (.badValue line key "missing index")
  match k.1 with
  | .messageId => do
      let v ← setScalar wire.messageId value key
      pure { wire with messageId := v }
  | .taskId => do
      let v ← setScalar wire.taskId value key
      pure { wire with taskId := v }
  | .parentTaskId => do
      let v ← setScalar wire.parentTaskId value key
      pure { wire with parentTaskId := v }
  | .traceId => do
      let v ← setScalar wire.traceId value key
      pure { wire with traceId := v }
  | .sender => do
      let v ← setScalar wire.sender value key
      pure { wire with sender := v }
  | .recipient => do
      let v ← setScalar wire.recipient value key
      pure { wire with recipient := v }
  | .kind => do
      let v ← setScalar wire.kind value key
      pure { wire with kind := v }
  | .status => do
      let v ← setScalar wire.status value key
      pure { wire with status := v }
  | .sequence => do
      let sequence ← okOr (parseFin (2 ^ 64) value) (.badValue line key "not a u64")
      let v ← setScalar wire.sequence sequence key
      pure { wire with sequence := v }
  | .timestamp => do
      let v ← setScalar wire.timestamp value key
      pure { wire with timestamp := v }
  | .expiry => do
      let v ← setScalar wire.expiry value key
      pure { wire with expiry := v }
  | .findingStatement => do
      let index ← index
      updateFinding wire index fun f => do
        let v ← setScalar f.statement value key
        pure { f with statement := v }
  | .findingConfidence => do
      let index ← index
      let confidence ← okOr (F32.parse value) (.badValue line key "not a number")
      updateFinding wire index fun f => do
        let v ← setScalar f.confidence confidence key
        pure { f with confidence := v }
  | .findingEvidence => do
      let index ← index
      let references ← parseReferences separator key line value
      updateFinding wire index fun f => do
        let v ← setScalar f.evidence references key
        pure { f with evidence := v }
  | .evidenceRef => do
      let index ← index
      updateEvidence wire index fun e => do
        let v ← setScalar e.kindLocator value key
        pure { e with kindLocator := v }
  | .evidenceLineRange => do
      let index ← index
      let range ← parseLineRange key line value
      updateEvidence wire index fun e => do
        let v ← setScalar e.lineRange range key
        pure { e with lineRange := v }
  | .evidenceDigest => do
      let index ← index
      updateEvidence wire index fun e => do
        let v ← setScalar e.digest value key
        pure { e with digest := v }
  | .evidenceRevision => do
      let index ← index
      updateEvidence wire index fun e => do
        let v ← setScalar e.revision value key
        pure { e with revision := v }
  | .evidenceVerified => do
      let index ← index
      let verified ← parseVerified key line value
      updateEvidence wire index fun e => do
        let v ← setScalar e.verified verified key
        pure { e with verified := v }
  | .artifact => do
      let index ← index
      let v ← setEntry wire.artifacts index value key
      pure { wire with artifacts := v }
  | .dependency => do
      let index ← index
      let v ← setEntry wire.dependencies index value key
      pure { wire with dependencies := v }
  | .verificationClaim => do
      let v ← setScalar wire.verificationClaim value key
      pure { wire with verificationClaim := v }
  | .verificationStatus => do
      let v ← setScalar wire.verificationStatus value key
      pure { wire with verificationStatus := v }
  | .verificationMethod => do
      let v ← setScalar wire.verificationMethod value key
      pure { wire with verificationMethod := v }
  | .verificationReceipt => do
      let v ← setScalar wire.verificationReceipt value key
      pure { wire with verificationReceipt := v }
  | .nextAction => .ok { wire with nextActions := wire.nextActions ++ [value] }

/-- The first number from `expected` on that the keys skip. -/
def firstGap : ℕ → List ℕ → Option ℕ
  | _, [] => none
  | expected, key :: keys => if key ≠ expected then some expected else firstGap (expected + 1) keys

/-- Checks that an indexed family is exactly `1..=n`. -/
def contiguous {α : Type} (entries : OrdMap ℕ α) (family : Str) : Except (Occ2Error R) Unit :=
  match entries.keys.getLast? with
  | none => .ok ()
  | some highest => rejectIf (entries.size ≠ highest) (.indexGap family ((firstGap 1 entries.keys).getD 1) highest)

/-- Finding number `index` of the message. -/
def finishFinding (count : ℕ) (entry : ℕ × WireFinding R) : Except (Occ2Error R) (Finding R) := do
  let id : Str := "F" ++ dec entry.1
  let statement ← okOr entry.2.statement (.badValue 0 id "finding statement missing")
  let evidence ← (entry.2.evidence.getD []).mapM fun number => do
    rejectIf (count < number)
      (.badValue 0 id ("references E" ++ dec number ++ ", outside 1..=" ++ dec count))
    pure ("E" ++ dec number : Str)
  pure { id, statement, confidence := entry.2.confidence, evidence }

/-- Evidence reference number `index` of the message. -/
def finishEvidence (entry : ℕ × WireEvidence) : Except (Occ2Error R) EvidenceRef := do
  let id : Str := "E" ++ dec entry.1
  let encoded ← okOr entry.2.kindLocator (.badValue 0 id "evidence kind:locator missing")
  let parts ← okOr (splitOnce ':' encoded) (.badValue 0 id "must be <kind>:<locator>")
  pure { id, kind := parts.1, locator := parts.2, lineRange := entry.2.lineRange,
         digest := entry.2.digest, revision := entry.2.revision, verified := entry.2.verified }

/-- The verification record: absent, or a complete group. -/
def finishVerification (wire : WireMessage R) : Except (Occ2Error R) (Option Verification) :=
  if (wire.verificationClaim.isSome || wire.verificationStatus.isSome ||
      wire.verificationMethod.isSome || wire.verificationReceipt.isSome) = true then do
    let claim ← okOr wire.verificationClaim
      (.verificationGroup "verification status, method or receipt requires the claim")
    let status ← okOr wire.verificationStatus
      (.verificationGroup "a verification claim requires its status")
    let method ← okOr wire.verificationMethod
      (.verificationGroup "a verification claim requires its method")
    pure (some { claim, status, method, receipt := wire.verificationReceipt })
  else .ok none

/-- Builds the contract message from the accumulated fields. -/
def finish [Host] [F32 R] (wire : WireMessage R) : Except (Occ2Error R) (AgentCommMessage R) := do
  let taskId ← okOr wire.taskId (.contract (.missingRequired "task_id"))
  let kind ← okOr wire.kind (.contract (.missingRequired "kind"))
  let status ← okOr wire.status (.contract (.missingRequired "status"))
  contiguous wire.findings "F"
  contiguous wire.evidence "E"
  contiguous wire.artifacts "G"
  contiguous wire.dependencies "D"
  let findings ← wire.findings.entries.mapM (finishFinding wire.evidence.size)
  let evidence ← wire.evidence.entries.mapM finishEvidence
  let verification ← finishVerification wire
  let out : AgentCommMessage R :=
    { (AgentCommMessage.new kind taskId status : AgentCommMessage R) with
      messageId := wire.messageId
      parentTaskId := wire.parentTaskId
      traceId := wire.traceId
      senderIdentity := wire.sender
      recipientIdentity := wire.recipient
      sequence := wire.sequence
      findings, evidence, verification
      artifacts := wire.artifacts.entries.map Prod.snd
      dependencies := wire.dependencies.entries.map Prod.snd
      nextActions := wire.nextActions
      timestamp := wire.timestamp
      expiry := wire.expiry }
  out.validate.mapError .contract
  pure out

/-! ### Decoding -/

/-- A lower-case hexadecimal digit. -/
def isLowerHex (c : Char) : Bool := c.isDigit || ('a' ≤ c && c ≤ 'f')

/-- Parses the three-token dialect header. -/
def parseHeader (header : Str) : Except (Occ2Error R) (Str × U32 × Str) :=
  match header.splitOn ' ' with
  | [first, second, third] => do
      rejectIf (first ≠ occ2Header) (.badHeader header)
      let dialectToken ← okOr (stripPrefix "D=" second) (.badHeader header)
      let parts ← okOr (splitOnce '@' dialectToken) (.badHeader header)
      rejectIf (¬ validDialectId parts.1 = true ∨ parts.2 = [] ∨ 10 < byteLen parts.2 ∨
        ¬ parts.2.all Char.isDigit = true) (.badHeader header)
      let version ← okOr (parseFin (2 ^ 32) parts.2) (.badHeader header)
      rejectIf (version = 0) (.badHeader header)
      let hashToken ← okOr (stripPrefix "C=" third) (.badHeader header)
      rejectIf (byteLen hashToken ≠ codebookPrefixLen ∨ ¬ hashToken.all isLowerHex = true)
        (.badHeader header)
      pure (parts.1, version, hashToken)
  | _ => .error (.badHeader header)

/-- One field line: the accumulator after it, and the number of fields so far. -/
def decodeLine [F32 R] (card : DialectCard) (lineNo : ℕ) (wire : WireMessage R) (fields : ℕ)
    (rawLine : Str) : Except (Occ2Error R) (WireMessage R) := do
  let line := chopSuffix '\r' rawLine
  rejectIf (line = []) (.blankLine lineNo)
  rejectIf (occ2MaxFields ≤ fields) (.tooManyFields occ2MaxFields)
  let kv ← okOr (splitOnce card.grammar.operator line) (.missingSeparator lineNo card.grammar.operator)
  rejectIf (occ2MaxValueBytes < byteLen kv.2) (.valueTooLarge kv.1 occ2MaxValueBytes)
  rejectIf (hasControl kv.2 = true) (.controlChar lineNo kv.1)
  let k ← parseKey kv.1 card
  applyField wire k kv.2 kv.1 lineNo card.grammar.listSeparator

/-- The field lines, read one after the other from line `lineNo` on. -/
def decodeLines [F32 R] (card : DialectCard) : ℕ → WireMessage R → ℕ → List Str → Except (Occ2Error R) (WireMessage R)
  | _, wire, _, [] => .ok wire
  | lineNo, wire, fields, raw :: rest => do
      let wire ← decodeLine card lineNo wire fields raw
      decodeLines card (lineNo + 1) wire (fields + 1) rest

/-- Decodes the symbolic section. -/
def decodeSymbolic [Host] [F32 R] (text : Str) (registry : DialectRegistry) :
    Except (Occ2Error R) (AgentCommMessage R) := do
  rejectIf (text = []) .empty
  rejectIf (occ2MaxSymbolicBytes < byteLen text) (.tooLarge occ2MaxSymbolicBytes)
  match (chopSuffix '\n' text).splitOn '\n' with
  | [] => .error .empty
  | first :: rest => do
      let (dialect, version, codebook) ← parseHeader (chopSuffix '\r' first)
      match registry.resolve dialect version codebook with
      | .unknown _ _ => .error (.unknownDialect dialect version)
      | .hashMismatch _ _ advertised registered => .error (.hashMismatch dialect version advertised registered)
      | .dialect card => do
          let wire ← decodeLines card 2 WireMessage.init 0 rest
          finish wire

/-- A line that is the sentinel, up to a final carriage return. -/
def isSentinel (line : Str) : Bool := chopSuffix '\r' line = occ2FallbackSentinel

/-- Splits a dual payload at the sentinel line.  The symbolic section keeps its final newline. -/
def splitFallback (text : Str) : Option (Str × Str) :=
  let lines := text.splitOn '\n'
  match lines.dropWhile fun line => !isSentinel line with
  | [] => none
  | _ :: rest => some
      ((lines.takeWhile fun line => !isSentinel line).flatMap fun line => line ++ ['\n'], unlines rest)

/-- Strict decode.  A dual payload must decode to the same message in both sections. -/
def decode [Host] [F32 R] (text : Str) (registry : DialectRegistry) :
    Except (Occ2Error R) (AgentCommMessage R) := do
  rejectIf (text = []) .empty
  rejectIf (occ2MaxMessageBytes < byteLen text) (.tooLarge occ2MaxMessageBytes)
  match splitFallback text with
  | none => decodeSymbolic text registry
  | some (symbolic, fallback) => do
      let message ← decodeSymbolic symbolic registry
      let decoded ← (Occ1Message.decode fallback).mapError fun error => .fallbackSection error.display
      let viaOcc1 ← (AgentCommMessage.fromOcc1 decoded).mapError fun error => .fallbackSection error.display
      rejectIf (¬ viaOcc1.eq message = true) .dualMismatch
      pure message

/-- Conservative decode via OCC-1 only. -/
def occ1Fallback [Host] [F32 R] (text : Str) : Except (ContractError R) (AgentCommMessage R) :=
  match splitFallback text with
  | some (_, fallback) => do
      let decoded ← (Occ1Message.decode fallback).mapError .occ1
      AgentCommMessage.fromOcc1 decoded
  | none => do
      let decoded ← (Occ1Message.decode text).mapError .occ1
      AgentCommMessage.fromOcc1 decoded

end Occ2

end Occ
