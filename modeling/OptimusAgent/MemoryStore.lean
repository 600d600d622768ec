/-
**The memory store of a project.**

A harness state holds entries of four kinds.  A proposal is a list of edits that create, update or
delete entries; every edit is tried on what the edits before it left.  The document of a project
holds its entries, a revision, the results of the refinements so far and a receipt for every event
that was committed.  `apply` commits a proposal under an event identifier, once: a known identifier
is answered from the receipts.  `restore` replaces the document by an older one but keeps the
receipts.  `rollback` reads the document, computes the edits that undo a refinement, and applies
them.

This module embeds `apply_refinement_proposal` of `core/refinement/refinement.rs` as the memory
store calls it: in the local scope, without a baseline and not as a rollback.  JSON objects and
values, lower case and the clock come from outside.  `apply` and `restore` hold the lock of the
store; the read of `rollback` does not.  A file is replaced as a whole or not at all, and which
writes fail is part of the input of a call.

A result that has gone through the JSON text of the document comes back without the identifiers
inside its edits, because the identifier of the outcome is written under the same key.
-/

import OptimusAgent.IndexMap
import OptimusAgent.Text
import OptimusAgent.Checked

namespace Memory

open Str

/-! ### Entries and edits -/

inductive HarnessScope where
  | localScope
  | globalScope
  deriving DecidableEq, Repr

/-- An entry; `M` are the JSON objects. -/
structure HarnessEntry (M : Type) where
  id : Str
  kind : Str
  title : Str
  content : Str
  path : Str
  scope : Option HarnessScope
  reference : M
  arguments : M
  metadata : M
  source : Str
  createdAt : Str
  updatedAt : Str
  version : ℤ

/-- An edit; the action and the kind are kept as they were written. -/
structure RefinementEdit (M : Type) where
  action : Str
  kind : Str
  id : Option Str
  title : Option Str
  content : Option Str
  path : Option Str
  reference : Option M
  arguments : Option M
  metadata : Option M
  reason : Option Str

structure RefinementProposal (M : Type) where
  summary : Str
  rationale : Str
  edits : List (RefinementEdit M)
  expectedOutcome : Str

structure AppliedRefinementEdit (M : Type) where
  edit : RefinementEdit M
  id : Str
  before : Option (HarnessEntry M)
  after : Option (HarnessEntry M)
  applied : Bool
  error : Option Str

structure RefinementResult (M : Type) where
  id : Str
  summary : Str
  rationale : Str
  expectedOutcome : Str
  appliedEdits : List (AppliedRefinementEdit M)
  harnessStatePath : Str
  rollbackOf : Option Str
  scope : Option HarnessScope

structure HarnessRefinementEvent where
  id : Str
  trigger : Str
  changes : List Str
  evidence : Str
  outcome : Str
  createdAt : Str

/-- The entries by kind and identifier. -/
abbrev HarnessEntries (M : Type) := IndexMap Str (IndexMap Str (HarnessEntry M))

/-- What is taken from the JSON library and from Unicode: objects `M` and values `V`. -/
class JsonHost (M V : Type) where
  empty : M
  get : M → Str → Option V
  insert : M → Str → V → M
  remove : M → Str → M
  entries : M → List (Str × V)
  asStr : V → Option Str
  ofStr : Str → V
  toLowercase : Str → Str

/-! ### One edit -/

section

variable {M V : Type} [JsonHost M V] [DecidableEq V]

/-- The words of a text joined by underscores, at most 80 characters. -/
def slug (V : Type) {M : Type} [JsonHost M V] (raw fallback : Str) : Str :=
  let lower := JsonHost.toLowercase M V (trim raw)
  let words := (lower.splitOnP fun c => !(c.isLower || c.isDigit)).filter (· ≠ [])
  let normalized := (['_'].intercalate words).take 80
  if normalized = [] then fallback else normalized

/-- A text that is there and not empty. -/
def isFilled (text : Option Str) : Bool := (text.map fun text => !text.isEmpty).getD false

/-- A string under a key of an object. -/
def strAt (V : Type) {M : Type} [JsonHost M V] (object : M) (key : Str) : Option Str :=
  (JsonHost.get object key : Option V).bind (JsonHost.asStr M)

def validateSkill (V : Type) {M : Type} [JsonHost M V] (edit : RefinementEdit M) : Option Str :=
  match edit.arguments, edit.reference with
  | none, _ => some (edit.action ++ " skill requires arguments")
  | some _, none => some (edit.action ++ " skill requires python reference")
  | some _, some reference =>
    if strAt V reference "type" ≠ some "python" then
      some (edit.action ++ " skill reference.type must be python")
    else if ¬ (isFilled (strAt V reference "import") || isFilled (strAt V reference "python_import")) then
      some (edit.action ++ " skill requires python import")
    else if ¬ (isFilled (strAt V reference "callable") || isFilled (strAt V reference "call_pattern")) then
      some (edit.action ++ " skill requires callable or call_pattern")
    else none

def validateEdit (V : Type) {M : Type} [JsonHost M V] (edit : RefinementEdit M) (computedId : Option Str) :
    Option Str :=
  if edit.action ∉ (["create", "update", "delete"] : List Str) then
    some ("unsupported action " ++ edit.action)
  else if edit.kind ∉ (["prompt", "memory", "skill", "subagent"] : List Str) then
    some ("unsupported kind " ++ edit.kind)
  else if edit.kind = "prompt" ∧
      (edit.id = some "base_system_prompt" ∨ computedId = some "base_system_prompt") then
    some "base system prompt is not editable"
  else if edit.action ≠ "create" ∧ edit.id = none then some (edit.action ++ " requires id")
  else if edit.action ≠ "delete" ∧ ¬ (isFilled edit.title && isFilled edit.content) then
    some (edit.action ++ " requires title and content")
  else if edit.action ≠ "delete" ∧ edit.kind = "skill" then validateSkill V edit
  else none

def computedEditId (V : Type) {M : Type} [JsonHost M V] (edit : RefinementEdit M) : Option Str :=
  match edit.id with
  | some id => some id
  | none => if edit.action = "create" then some (slug (M := M) V (edit.title.getD edit.kind) edit.kind) else none

/-- The entries and outcomes so far, and how often the clock was read. -/
structure Applying (M : Type) where
  entries : HarnessEntries M
  appliedEdits : List (AppliedRefinementEdit M)
  reads : ℕ

/-- Records the outcome of an edit. -/
def Applying.record (s : Applying M) (edit : RefinementEdit M) (id : Str)
    (before after : Option (HarnessEntry M)) (error : Option Str) : Applying M :=
  { s with appliedEdits := s.appliedEdits ++ [⟨edit, id, before, after, error.isNone, error⟩] }

/-- An entry with the content of the edit on the same host. -/
def isDuplicateOf (V : Type) {M : Type} [JsonHost M V] [DecidableEq V] (edit : RefinementEdit M)
    (entry : HarnessEntry M) : Bool :=
  trim entry.content = trim (edit.content.getD []) &&
    (JsonHost.get entry.metadata "hostId" : Option V) =
      edit.metadata.bind (fun metadata => JsonHost.get metadata "hostId") &&
    (JsonHost.get entry.metadata "supersededBy" : Option V).isNone

/-- The entry that a create or update leaves. -/
def editedEntry (V : Type) {M : Type} [JsonHost M V] (now : ℕ → Str) (reads : ℕ) (edit : RefinementEdit M)
    (id : Str) (before : Option (HarnessEntry M)) : HarnessEntry M where
  id := id
  kind := edit.kind
  title := (edit.title.or (before.map (·.title))).getD id
  content := (edit.content.or (before.map (·.content))).getD []
  path := (edit.path.or (before.map (·.path))).getD "general"
  scope := (before.bind (·.scope)).or (some .localScope)
  reference := (edit.reference.or (before.map (·.reference))).getD (JsonHost.empty V)
  arguments := (edit.arguments.or (before.map (·.arguments))).getD (JsonHost.empty V)
  metadata := (edit.metadata.or (before.map (·.metadata))).getD (JsonHost.empty V)
  source := "refine"
  createdAt := (before.map (·.createdAt)).getD (now reads)
  updatedAt := now (reads + 1)
  version := (before.map fun entry => entry.version + 1).getD 1

def applyRefinementEdit (V : Type) {M : Type} [JsonHost M V] [DecidableEq V] (now : ℕ → Str) (s : Applying M)
    (edit : RefinementEdit M) : Applying M :=
  let computedId := computedEditId V edit
  let id := computedId.getD []
  match validateEdit V edit computedId with
  | some error => s.record edit id none none (some error)
  | none =>
    let bucket := (s.entries.get? edit.kind).getD .empty
    let before := bucket.get? id
    let unchanged := (edit.content.bind fun content =>
      before.map fun entry => decide (trim content = trim entry.content)).getD false
    let duplicate := bucket.entries.find? fun entry => isDuplicateOf V edit entry.2
    if edit.action = "delete" then
      if before.isNone then s.record edit id none none (some "entry not found")
      else { s with entries := s.entries.modify edit.kind (·.erase id) }.record edit id before none none
    -- A create that restates an entry is applied as it is.
    else if edit.action = "create" ∧ before.isSome ∧ unchanged then s.record edit id before none none
    else if edit.action = "update" ∧ before.isNone then s.record edit id none none (some "entry not found")
    else if edit.action = "create" ∧ before.isNone ∧ duplicate.isSome then
      s.record edit id none none
        (some ("exact duplicate of " ++ (duplicate.map fun entry => entry.2.id).getD []))
    else
      let after := editedEntry V now s.reads edit id before
      { s with
        entries := s.entries.modify edit.kind (·.insert id after)
        reads := s.reads + 2 }.record edit id before (some after) none

/-- What the state notes down of an outcome. -/
def AppliedRefinementEdit.change (edit : AppliedRefinementEdit M) : Str :=
  edit.edit.action ++ " " ++ edit.edit.kind ++ ":" ++ edit.id

/-- The entries, the event and the result of a proposal. -/
def applyRefinementProposal (V : Type) {M : Type} [JsonHost M V] [DecidableEq V] (now : ℕ → Str)
    (entries : HarnessEntries M) (proposal : RefinementProposal M) (id : Str) :
    HarnessEntries M × HarnessRefinementEvent × RefinementResult M :=
  let s := proposal.edits.foldl (applyRefinementEdit V now) ⟨entries, [], 0⟩
  (s.entries,
    { id := id
      trigger := proposal.summary
      changes := (s.appliedEdits.filter (·.applied)).map AppliedRefinementEdit.change
      evidence := proposal.rationale
      outcome := proposal.expectedOutcome
      createdAt := now s.reads },
    { id := id
      summary := proposal.summary
      rationale := proposal.rationale
      expectedOutcome := proposal.expectedOutcome
      appliedEdits := s.appliedEdits
      harnessStatePath := []
      rollbackOf := none
      scope := some .localScope })

end

open Checked

/-! ### Documents -/

/-- A document, without its schema numbers and project. -/
structure MemoryDocument (M : Type) where
  entries : HarnessEntries M
  refinements : List HarnessRefinementEvent
  revision : ℤ
  history : List (RefinementResult M)
  events : IndexMap Str Str

def emptyDocument (M : Type) : MemoryDocument M where
  entries := (["memory", "prompt", "skill", "subagent"] : List Str).foldl
    (fun entries kind => entries.insert kind IndexMap.empty) IndexMap.empty
  refinements := []
  revision := 0
  history := []
  events := .empty

/-- The files of a project store. -/
structure Disk (M : Type) where
  document : MemoryDocument M
  backups : IndexMap Str (MemoryDocument M)

/-- The project and the host of a store, and the path of its document. -/
structure MemoryStore where
  projectId : Str
  hostId : Str
  path : Str

/-- `S` are the sources of memories. -/
structure ApplyOptions (S : Type) where
  eventId : Str
  expectedRevision : ℤ
  sources : Option (List S)
  host : Bool
  automatic : Bool
  replaceMetadata : Bool

/-- What a receipt is the hash of. -/
structure FingerprintPayload (M S : Type) where
  proposal : RefinementProposal M
  sources : List S
  host : Bool
  replaceMetadata : Bool
  sourcesProvided : Option Bool

/-- What is taken from elsewhere: regular expressions, hashes, JSON texts, and sources as JSON
values. -/
class MemoryHost (M V S : Type) extends JsonHost M V where
  isMatch : Str → Str → Bool
  hash : FingerprintPayload M S → Str
  /-- The first sixteen digits of the hash of a document. -/
  digest : MemoryDocument M → Str
  /-- The JSON text of an entry, or of its absence. -/
  entryText : Option (HarnessEntry M) → Str
  asSources : V → Option (List S)
  ofSources : List S → V

/-- The parts of a call that fail, with the error texts. -/
structure Faults where
  lock : Option Str
  backup : Option Str
  write : Option Str
  missing : Str

/-- An edit as it is read back: the identifier of the outcome takes the key of its own. -/
def AppliedRefinementEdit.asRead {M : Type} (edit : AppliedRefinementEdit M) : AppliedRefinementEdit M :=
  { edit with edit := { edit.edit with id := none } }

/-- A result as it is read back from the document. -/
def RefinementResult.asRead {M : Type} (result : RefinementResult M) : RefinementResult M :=
  { result with appliedEdits := result.appliedEdits.map AppliedRefinementEdit.asRead }

/-! ### What `apply` decides under the lock -/

/-- The host that an object names. -/
def namedHost (V : Type) {M : Type} [JsonHost M V] (metadata : M) : Option Str :=
  (strAt V metadata "hostId").filter (· ≠ [])

section

variable (V : Type) {M S : Type} [MemoryHost M V S] [DecidableEq V]

def idPattern : Str := "^[A-Za-z0-9_-]\x7b1,160\x7d$"

/-- Whether a text is there and satisfies a condition. -/
def holdsOf (text : Option Str) (p : Str → Bool) : Bool := (text.map p).getD false

/-- An edit with the metadata of the project. -/
def prepareEdit (store : MemoryStore) (entries : HarnessEntries M) (options : ApplyOptions S)
    (edit : RefinementEdit M) : Except Str (RefinementEdit M) := do
  rejectIf (holdsOf edit.id fun id => !MemoryHost.isMatch M V S idPattern id ||
    decide (id ∈ (["__proto__", "constructor", "prototype"] : List Str))) "Invalid memory ID"
  rejectIf (holdsOf (edit.metadata.bind fun metadata => strAt V metadata "projectId") fun project =>
    project ≠ store.projectId) "Memory belongs to another project"
  let bucket := entries.get? edit.kind
  let before := edit.id.bind fun id => bucket.bind fun bucket => bucket.get? id
  rejectIf (holdsOf (before.bind fun entry => namedHost V entry.metadata) fun host =>
    host ≠ store.hostId) "Memory belongs to another host"
  let base := if options.replaceMetadata then JsonHost.empty V
    else (before.map (·.metadata)).getD (JsonHost.empty V)
  let metadata := ((edit.metadata.map (JsonHost.entries (V := V))).getD []).foldl
    (fun object entry => JsonHost.insert object entry.1 entry.2) base
  rejectIf (holdsOf (namedHost V metadata) fun host => host ≠ store.hostId) "Memory belongs to another host"
  let hostId := if options.host then store.hostId else (namedHost V metadata).getD []
  let duplicate := if edit.action = "create" then
      bucket.bind fun bucket => bucket.entries.find? fun entry =>
        trim entry.2.content = trim (edit.content.getD []) &&
          (strAt V entry.2.metadata "hostId").getD [] = hostId &&
          (JsonHost.get entry.2.metadata "supersededBy" : Option V).isNone
    else none
  -- A create that restates an entry under its own identifier is let through.
  rejectIf (holdsOf (duplicate.map fun entry => entry.2.id) fun id => edit.id ≠ some id)
    ("Exact duplicate: " ++ (duplicate.map fun entry => entry.2.id).getD [])
  let superseded := (JsonHost.get metadata "supersededBy" : Option V).isSome
  let metadata := JsonHost.insert metadata "projectId" (JsonHost.ofStr M store.projectId : V)
  let metadata := if hostId = [] then JsonHost.remove V metadata "hostId"
    else JsonHost.insert metadata "hostId" (JsonHost.ofStr M hostId : V)
  let sources : List S := (options.sources.or
    ((JsonHost.get metadata "sources" : Option V).bind (MemoryHost.asSources M))).getD []
  let metadata := JsonHost.insert metadata "sources" (MemoryHost.ofSources M sources : V)
  let metadata := JsonHost.insert metadata "status"
    (JsonHost.ofStr M (if superseded then "superseded" else "current") : V)
  return { edit with metadata := some metadata }

/-- What `apply` has decided: a retry answered from the history, or a new document. -/
inductive Plan (M : Type) where
  | recorded (result : RefinementResult M)
  | committed (document : MemoryDocument M) (result : RefinementResult M)

/-- The hash that older receipts have. -/
def legacyFingerprint (proposal : RefinementProposal M) (options : ApplyOptions S) : Str := MemoryHost.hash V
    (⟨proposal, options.sources.getD [], options.host, options.replaceMetadata, none⟩ : FingerprintPayload M S)

def fingerprint (proposal : RefinementProposal M) (options : ApplyOptions S) : Str :=
  if options.sources.getD [] = [] then
    MemoryHost.hash V (⟨proposal, [], options.host, options.replaceMetadata, some options.sources.isSome⟩ :
      FingerprintPayload M S)
  else legacyFingerprint V proposal options

/-- The document with a committed proposal, and its result. -/
def commitProposal (store : MemoryStore) (now : ℕ → Str) (document : MemoryDocument M)
    (proposal : RefinementProposal M) (options : ApplyOptions S) : Except Str (Plan M) := do
  let edits ← proposal.edits.mapM (prepareEdit V store document.entries options)
  let applied := applyRefinementProposal V now document.entries { proposal with edits := edits } options.eventId
  let failed := applied.2.2.appliedEdits.filter fun edit => !edit.applied
  rejectIf (failed ≠ []) (("; " : Str).intercalate (failed.map fun edit => edit.error.getD []))
  let result := { applied.2.2 with harnessStatePath := store.path }
  return .committed
    { entries := applied.1
      refinements := document.refinements ++ [applied.2.1]
      revision := document.revision + 1
      history := document.history ++ [result.asRead]
      events := document.events.insert options.eventId (fingerprint V proposal options) }
    result

/-- What `apply` decides; `learning` is the setting, `now` the clock. -/
def planApply (store : MemoryStore) (learning : Bool) (now : ℕ → Str) (document : MemoryDocument M)
    (proposal : RefinementProposal M) (options : ApplyOptions S) : Except Str (Plan M) :=
  match document.events.get? options.eventId with
  | some prior =>
    if prior ≠ fingerprint V proposal options ∧ prior ≠ legacyFingerprint V proposal options then
      .error "Event ID reused with different content"
    else
      match document.history.find? fun item => item.id = options.eventId with
      | some result => .ok (.recorded result)
      | none => .error "Event already committed before restore; inspect current memory before resubmitting"
  | none => do
      rejectIf (options.automatic ∧ ¬ learning) "Automatic learning is paused"
      rejectIf (document.revision ≠ options.expectedRevision)
        "Memory changed; review current revision before applying"
      rejectIf (¬ MemoryHost.isMatch M V S idPattern options.eventId) "Invalid event ID"
      commitProposal V store now document proposal options

end

/-! ### The calls -/

section

variable (V S : Type) {M : Type} [MemoryHost M V S] [DecidableEq V]

/-- The name of the backup of a document. -/
def backupId (document : MemoryDocument M) : Str :=
  "backup_" ++ dec document.revision.toNat ++ "_" ++ MemoryHost.digest V S document

/-- The disk with a backup of its document. -/
def Disk.backedUp (disk : Disk M) : Disk M :=
  { disk with backups := disk.backups.insert (backupId V S disk.document) disk.document }

/-- `MemoryStore::apply`. -/
def MemoryStore.apply (store : MemoryStore) (faults : Faults) (learning : Bool) (now : ℕ → Str)
    (disk : Disk M) (proposal : RefinementProposal M) (options : ApplyOptions S) :
    Disk M × Except Str (RefinementResult M) :=
  match faults.lock, planApply V store learning now disk.document proposal options with
  | some error, _ => (disk, .error error)
  | none, .error error => (disk, .error error)
  | none, .ok (.recorded result) => (disk, .ok result)
  | none, .ok (.committed document result) =>
    match faults.backup, faults.write with
    | some error, _ => (disk, .error error)
    | none, some error => (disk.backedUp V S, .error error)
    | none, none => ({ disk.backedUp V S with document := document }, .ok result)

/-- The older document with the next revision and the receipts of the current one. -/
def restoredDocument (current older : MemoryDocument M) : MemoryDocument M :=
  { older with
    revision := current.revision + 1
    events := current.events.entries.foldl (fun events event => events.insert event.1 event.2) older.events }

/-- `MemoryStore::restore`. -/
def MemoryStore.restore (faults : Faults) (disk : Disk M) (id : Str) : Disk M × Except Str ℤ :=
  if ¬ MemoryHost.isMatch M V S "^backup_\\d+_[a-f0-9]\x7b16\x7d$" id then (disk, .error "Invalid backup ID")
  else
    match faults.lock, disk.backups.get? id with
    | some error, _ => (disk, .error error)
    | none, none => (disk, .error faults.missing)
    | none, some older =>
      match faults.backup, faults.write with
      | some error, _ => (disk, .error error)
      | none, some error => (disk.backedUp V S, .error error)
      | none, none =>
        let restored := restoredDocument disk.document older
        ({ disk.backedUp V S with document := restored }, .ok restored.revision)

/-- The edit that undoes an outcome, if the entry is still as the outcome left it. -/
def undoEdit (document : MemoryDocument M) (edit : AppliedRefinementEdit M) :
    Except Str (RefinementEdit M) := do
  let current := (document.entries.get? edit.edit.kind).bind fun bucket => bucket.get? edit.id
  rejectIf (MemoryHost.entryText V S current ≠ MemoryHost.entryText V S edit.after)
    ("Entry " ++ edit.id ++ " has changed since this edit")
  match edit.before with
  | some before =>
    return {
      action := if edit.after.isSome then "update" else "create"
      kind := before.kind
      id := some before.id
      title := some before.title
      content := some before.content
      path := some before.path
      reference := some before.reference
      arguments := some before.arguments
      metadata := some before.metadata
      reason := none }
  | none =>
    return {
      action := "delete", kind := edit.edit.kind, id := some edit.id, title := none, content := none,
      path := none, reference := none, arguments := none, metadata := none, reason := none }

/-- What `rollback` computes from its own read of the document. -/
def rollbackProposal (document : MemoryDocument M) (id : Str) : Except Str (RefinementProposal M) := do
  let result ← okOr (document.history.find? fun item => item.id = id) "Unknown refinement ID"
  let edits ← (result.appliedEdits.reverse.filter (·.applied)).mapM (undoEdit V S document)
  return {
    summary := "Rollback " ++ id
    rationale := "Explicit rollback"
    edits := edits
    expectedOutcome := "Restore prior memory" }

/-- The options under which `rollback` applies its edits. -/
def rollbackOptions (id : Str) (expectedRevision : ℤ) : ApplyOptions S where
  eventId := "rollback_" ++ id ++ "_" ++
    (if expectedRevision < 0 then ("-" : Str) else []) ++ dec expectedRevision.natAbs
  expectedRevision := expectedRevision
  sources := none
  host := false
  automatic := false
  replaceMetadata := true

end

end Memory
