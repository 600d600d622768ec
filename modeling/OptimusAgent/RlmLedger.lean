/-
**The spawn ledger.**

The daemon keeps a ledger of the sessions that agents spawn: one event log for each directory of
sessions, with a record for every spawn, rename and deletion.  Replaying it gives the edges from
parents to children, one for each child id and path.  This module embeds
`modes/daemon/rlm_ledger.rs` over the event log: the records with their JSON, the reader of a line,
the replay, and the appends with the admission check of a spawn.

A replay that fails is taken for an empty ledger; the error is only logged.

The JSON library and the canonical form of a path are parameters.  The appends of the ledger are
durable, so with a flush period too they write at once; the only difference is that after a failed
write the instance refuses to append, which here is an append that fails before it looks at the
file.  The ledger is not seeded from older registries.
-/

import OptimusAgent.EventLogThrough
import OptimusAgent.JsonText
import OptimusAgent.IndexMap

namespace RlmLedger

open Str RowCodec EventLog List

/-! ### Records -/

def rlmLedgerMaxBytes : ℕ := 32 * 1024 * 1024

def rlmLedgerMaxRecords : ℕ := 100000

/-- Integers of 64 bits. -/
abbrev I64 := {d : ℤ // -2 ^ 63 ≤ d ∧ d < 2 ^ 63}

inductive RlmLedgerDeleteReason where
  | user
  | parentTeardown
  | revoked
  | gc
  deriving DecidableEq

def RlmLedgerDeleteReason.asStr : RlmLedgerDeleteReason → Str
  | .user => "user"
  | .parentTeardown => "parent-teardown"
  | .revoked => "revoked"
  | .gc => "gc"

def RlmLedgerDeleteReason.fromStr (value : Str) : Option RlmLedgerDeleteReason :=
  if value = "user" then some .user
  else if value = "parent-teardown" then some .parentTeardown
  else if value = "revoked" then some .revoked
  else if value = "gc" then some .gc
  else none

structure RlmLedgerSpawnRecord where
  time : Str
  childId : Str
  parent : Str
  child : Str
  depth : I64
  name : Str
  deriving DecidableEq

structure RlmLedgerRenameRecord where
  time : Str
  childId : Str
  child : Str
  name : Str
  deriving DecidableEq

structure RlmLedgerDeleteRecord where
  time : Str
  childId : Str
  child : Str
  reason : RlmLedgerDeleteReason
  deriving DecidableEq

inductive RlmLedgerRecord where
  | metadata (time sessionsDir : Str)
  | spawn (record : RlmLedgerSpawnRecord)
  | rename (record : RlmLedgerRenameRecord)
  | delete (record : RlmLedgerDeleteRecord)
  deriving DecidableEq

section

variable {F : Type}

/-- The fields that every record begins with. -/
def recordHead (op time : Str) : FileEntry F := [("v", .number (.int 1)), ("op", .string op), ("at", .string time)]

def recordFields : RlmLedgerRecord → FileEntry F
  | .metadata time sessionsDir => recordHead "meta" time ++ [(("sessionsDir" : Str), .string sessionsDir)]
  | .spawn r =>
    recordHead "spawn" r.time ++ [(("childId" : Str), .string r.childId), (("parent" : Str), .string r.parent),
        (("child" : Str), .string r.child), (("depth" : Str), .number (.int r.depth.1)),
        (("name" : Str), .string r.name)]
  | .rename r =>
    recordHead "rename" r.time ++ [(("childId" : Str), .string r.childId), (("child" : Str), .string r.child),
        (("name" : Str), .string r.name)]
  | .delete r =>
    recordHead "delete" r.time ++ [(("childId" : Str), .string r.childId), (("child" : Str), .string r.child),
        (("reason" : Str), .string r.reason.asStr)]

def toValue (record : RlmLedgerRecord) : Json F := .object (recordFields record)

def malformed (index : ℕ) (what : Str) : Str := "Malformed RLM ledger line " ++ dec (index + 1) ++ ": " ++ what

def parseMeta (index : ℕ) (time : Str) (record : FileEntry F) : Except Str RlmLedgerRecord :=
  match fieldStr "sessionsDir" record with
  | some sessionsDir => .ok (.metadata time sessionsDir)
  | none => .error (malformed index "meta without sessionsDir")

def parseSpawn (index : ℕ) (time : Str) (record : FileEntry F) : Except Str RlmLedgerRecord :=
  match fieldStr "childId" record, fieldStr "parent" record, fieldStr "child" record,
    fieldStr "name" record, (field "depth" record) with
  | some childId, some parent, some child, some name, some (.number (.int depth)) =>
    if h : -2 ^ 63 ≤ depth ∧ depth < 2 ^ 63 then
      if 1 ≤ depth then .ok (.spawn ⟨time, childId, parent, child, ⟨depth, h⟩, name⟩)
      else .error (malformed index "invalid spawn record")
    else .error (malformed index "invalid spawn record")
  | _, _, _, _, _ => .error (malformed index "invalid spawn record")

def parseRename (index : ℕ) (time : Str) (record : FileEntry F) : Except Str RlmLedgerRecord :=
  match fieldStr "childId" record, fieldStr "child" record, fieldStr "name" record with
  | some childId, some child, some name => .ok (.rename ⟨time, childId, child, name⟩)
  | _, _, _ => .error (malformed index "invalid rename record")

def parseDelete (index : ℕ) (time : Str) (record : FileEntry F) : Except Str RlmLedgerRecord :=
  match fieldStr "childId" record, fieldStr "child" record,
    (fieldStr "reason" record).bind RlmLedgerDeleteReason.fromStr with
  | some childId, some child, some reason => .ok (.delete ⟨time, childId, child, reason⟩)
  | _, _, _ => .error (malformed index "invalid delete record")

/-- The record of a JSON value; one with an unknown operation is no record and no error. -/
def parseLedgerValue (index : ℕ) (value : Json F) : Except Str (Option RlmLedgerRecord) :=
  match value.asObject with
  | none => .error (malformed index "missing v/at")
  | some record =>
    if (field "v" record).bind Json.asI64 = some 1 then
      match fieldStr "at" record with
      | none => .error (malformed index "missing v/at")
      | some time =>
        match fieldStr "op" record with
        | none => .ok none
        | some op =>
          if op = "meta" then (parseMeta index time record).map some
          else if op = "spawn" then (parseSpawn index time record).map some
          else if op = "rename" then (parseRename index time record).map some
          else if op = "delete" then (parseDelete index time record).map some
          else .ok none
    else .error (malformed index "missing v/at")

/-- A spawn has a depth of at least one. -/
def RlmLedgerRecord.Valid : RlmLedgerRecord → Prop
  | .spawn r => 1 ≤ r.depth.1
  | _ => True

theorem parseLedgerValue_toValue {record : RlmLedgerRecord} (h : record.Valid) (index : ℕ) :
    parseLedgerValue index (toValue record : Json F) = .ok (some record) := by
  cases record with
  | metadata time sessionsDir | rename r => rfl
  | spawn r =>
    obtain ⟨time, childId, parent, child, ⟨depth, hdepth⟩, name⟩ := r
    have hparse : parseLedgerValue index (toValue (.spawn ⟨time, childId, parent, child,
        ⟨depth, hdepth⟩, name⟩) : Json F) =
        (if h : -2 ^ 63 ≤ depth ∧ depth < 2 ^ 63 then
          if 1 ≤ depth then .ok (.spawn ⟨time, childId, parent, child, ⟨depth, h⟩, name⟩)
          else .error (malformed index "invalid spawn record")
        else .error (malformed index "invalid spawn record") : Except Str RlmLedgerRecord).map
          some := rfl
    have hone : 1 ≤ depth := h
    rw [hparse, dif_pos hdepth, if_pos hone]
    rfl
  | delete r =>
    obtain ⟨time, childId, child, reason⟩ := r
    cases reason <;> rfl

theorem wellFormed_toValue (record : RlmLedgerRecord) : (toValue record : Json F).WellFormed := by
  have hvalues : ∀ e ∈ (recordFields record : FileEntry F), e.2.WellFormed := by
    intro e he
    cases record <;>
      simp only [recordFields, recordHead, cons_append, nil_append, mem_cons, not_mem_nil, or_false] at he
    all_goals
      rcases he with rfl | rfl | rfl | he
      · exact .number _
      · exact .string _
      · exact .string _
    · cases he
      exact .string _
    · rcases he with rfl | rfl | rfl | rfl | rfl
      · exact .string _
      · exact .string _
      · exact .string _
      · exact .number _
      · exact .string _
    · rcases he with rfl | rfl | rfl <;> exact .string _
    · rcases he with rfl | rfl | rfl <;> exact .string _
  refine .object ?_ hvalues
  cases record <;>
    simp only [recordFields, recordHead, cons_append, nil_append, map_cons, map_nil] <;> decide

end

/-! ### Lines -/

/-- What the ledger takes from the libraries and from the file system, for doubles `F`. -/
class LedgerHost (F : outParam Type) where
  toText : Json F → Str
  fromStr : Str → Except Str (Json F)
  fromUtf8Lossy : List UInt8 → Str
  /-- The canonical form of the path of a session. -/
  canonicalSessionPath : Str → Str

/-- JSON texts are lines that are read back, bytes are read as far as they are a text, and a
canonical path is its own canonical form. -/
class LawfulLedgerHost (F : outParam Type) [LedgerHost F] : Prop where
  fromStr_toText : ∀ v : Json F, v.WellFormed → LedgerHost.fromStr (LedgerHost.toText v) = .ok v
  newline_notMem : ∀ v : Json F, '\n' ∉ LedgerHost.toText v
  trim_text : ∀ v : Json F, trim (LedgerHost.toText v) = LedgerHost.toText v
  text_ne_nil : ∀ v : Json F, LedgerHost.toText v ≠ []
  fromUtf8Lossy_append : ∀ (s : Str) (b : List UInt8),
    LedgerHost.fromUtf8Lossy (Utf8.encode s ++ b) = s ++ LedgerHost.fromUtf8Lossy b
  fromUtf8Lossy_nil : LedgerHost.fromUtf8Lossy [] = []
  newline_of_mem : ∀ b : List UInt8, '\n' ∈ LedgerHost.fromUtf8Lossy b → LineLog.newline ∈ b
  canonical_canonical : ∀ path : Str, LedgerHost.canonicalSessionPath
    (LedgerHost.canonicalSessionPath path) = LedgerHost.canonicalSessionPath path

section

variable {F : Type} [LedgerHost F]

def canonicalSessionPath (path : Str) : Str := LedgerHost.canonicalSessionPath path

instance ledgerEventLogHost : EventLogHost RlmLedgerRecord where
  toText record := some (LedgerHost.toText (toValue record))
  fromUtf8Lossy := LedgerHost.fromUtf8Lossy

instance lossyLedgerEventLogHost [LawfulLedgerHost F] : LossyEventLogHost RlmLedgerRecord where
  newline_notMem v t h := by
    cases h
    exact LawfulLedgerHost.newline_notMem _
  trim_text v t h := by
    cases h
    exact LawfulLedgerHost.trim_text _
  text_ne_nil v t h := by
    cases h
    exact LawfulLedgerHost.text_ne_nil _
  fromUtf8Lossy_encode s := by
    have h := LawfulLedgerHost.fromUtf8Lossy_append s []
    rwa [append_nil, LawfulLedgerHost.fromUtf8Lossy_nil, append_nil] at h
  fromUtf8Lossy_append := LawfulLedgerHost.fromUtf8Lossy_append
  newline_of_mem := LawfulLedgerHost.newline_of_mem

def parseLedgerLine (line : Str) (index : ℕ) : Except Str (Option RlmLedgerRecord) :=
  match LedgerHost.fromStr line with
  | .error error => .error (malformed index error)
  | .ok value => parseLedgerValue index value

/-- A record that is written is read back. -/
theorem parseLedgerLine_toText [LawfulLedgerHost F] {record : RlmLedgerRecord} (h : record.Valid) (index : ℕ) :
    parseLedgerLine (LedgerHost.toText (toValue record)) index = .ok (some record) := by
  rw [parseLedgerLine, LawfulLedgerHost.fromStr_toText _ (wellFormed_toValue record)]
  exact parseLedgerValue_toValue h index

/-- A damaged line is skipped. -/
def readRecord (line : Str) (index : ℕ) : Except Str (Option RlmLedgerRecord) :=
  match parseLedgerLine line index with
  | .ok record => .ok record
  | .error _ => .ok none

/-! ### Edges -/

structure RlmLedgerEdge where
  childId : Str
  parent : Str
  child : Str
  depth : I64
  name : Str
  deleted : Option RlmLedgerDeleteReason
  deriving DecidableEq

def edgeKey (childId child : Str) : Str := childId ++ Char.ofNat 0 :: canonicalSessionPath child

def edgeOf (record : RlmLedgerSpawnRecord) : RlmLedgerEdge :=
  ⟨record.childId, record.parent, record.child, record.depth, record.name, none⟩

def applyRecord (edges : IndexMap Str RlmLedgerEdge) : RlmLedgerRecord → IndexMap Str RlmLedgerEdge
  | .metadata _ _ => edges
  | .spawn record => edges.insert (edgeKey record.childId record.child) (edgeOf record)
  | .rename record =>
    edges.modify (edgeKey record.childId record.child) fun edge => { edge with name := record.name }
  | .delete record =>
    edges.modify (edgeKey record.childId record.child) fun edge => { edge with deleted := some record.reason }

def replayRecords (records : List RlmLedgerRecord) : IndexMap Str RlmLedgerEdge := records.foldl applyRecord .empty

/-! ### The ledger -/

/-- The ledger of a directory of sessions. -/
structure Ledger where
  canonicalSessionsDir : Str
  log : Shared RlmLedgerRecord

def ledgerReplayOptions : ReplayOptions := ⟨some rlmLedgerMaxBytes, some rlmLedgerMaxRecords, false⟩

/-- What a call takes from its surroundings. -/
structure LedgerIo where
  now : Str
  through : ThroughIo
  read : ReplayIo

def recordCall (ledger : Ledger) (record : RlmLedgerRecord) (io : LedgerIo) : ThroughCall RlmLedgerRecord :=
  ⟨[record], true, some [.metadata io.now ledger.canonicalSessionsDir], some rlmLedgerMaxBytes⟩

def appendRecord (ledger : Ledger) (record : RlmLedgerRecord) (io : LedgerIo) : Ledger × Except Str Unit :=
  let call := recordCall ledger record io
  ({ ledger with log := stepThrough ledger.log (.append 0 call io.through) },
    (appendSync ledger.log.path ledger.log.file (ledger.log.instances 0) call io.through).2.2)

/-- The edges of the ledger; a replay that fails is taken for an empty one. -/
def replayEdges (ledger : Ledger) (io : ReplayIo) : IndexMap Str RlmLedgerEdge := replayRecords <|
    match (replay RlmLedgerRecord ⟨ledger.log.path, ledger.log.file, none⟩ readRecord
      ledgerReplayOptions io).2 with
    | .ok records => records
    | .error _ => []

def values (edges : IndexMap Str RlmLedgerEdge) : List RlmLedgerEdge := edges.entries.map Prod.snd

/-- The edges without those that were deleted. -/
def liveEdges (edges : IndexMap Str RlmLedgerEdge) : List RlmLedgerEdge :=
  (values edges).filter fun edge => edge.deleted = none

def edges (ledger : Ledger) (includeDeleted : Bool) (io : ReplayIo) : List RlmLedgerEdge :=
  if includeDeleted then values (replayEdges ledger io) else liveEdges (replayEdges ledger io)

structure RlmSpawnInput where
  childId : Str
  parent : Str
  child : Str
  depth : I64
  name : Str
  deriving DecidableEq

def intText : ℤ → Str
  | .ofNat n => dec n
  | .negSucc n => '-' :: dec (n + 1)

def invalidSpawn (input : RlmSpawnInput) : Str := "RLM ledger: invalid spawn for " ++
    (if input.childId = [] then ("<missing childId>" : Str) else input.childId) ++
    " (depth " ++ intText input.depth.1 ++ ")"

/-- A live edge with the path of a child, and another id. -/
def duplicate (edges : List RlmLedgerEdge) (childId childPath : Str) : Option RlmLedgerEdge :=
  edges.find? fun edge => canonicalSessionPath edge.child = childPath ∧ edge.childId ≠ childId

def spawnRecord (input : RlmSpawnInput) (now : Str) : RlmLedgerRecord :=
  .spawn ⟨now, input.childId, canonicalSessionPath input.parent, canonicalSessionPath input.child,
    input.depth, input.name⟩

def appendSpawn (ledger : Ledger) (input : RlmSpawnInput) (io : LedgerIo) : Ledger × Except Str Unit :=
  if input.childId = [] ∨ input.parent = [] ∨ input.child = [] ∨ input.depth.1 < 1 then
    (ledger, .error (invalidSpawn input))
  else
    let childPath := canonicalSessionPath input.child
    match duplicate (liveEdges (replayEdges ledger io.read)) input.childId childPath with
    | some edge =>
      (ledger, .error ("RLM ledger: duplicate child session path " ++ childPath ++ " (already " ++ edge.childId ++ ")"))
    | none => appendRecord ledger (spawnRecord input io.now) io

def renameRecord (childId child name now : Str) : RlmLedgerRecord :=
  .rename ⟨now, childId, canonicalSessionPath child, name⟩

def deleteRecord (childId child : Str) (reason : RlmLedgerDeleteReason) (now : Str) :
    RlmLedgerRecord := .delete ⟨now, childId, canonicalSessionPath child, reason⟩

def appendRename (ledger : Ledger) (childId child name : Str) (io : LedgerIo) :
    Ledger × Except Str Unit := appendRecord ledger (renameRecord childId child name io.now) io

def appendDelete (ledger : Ledger) (childId child : Str) (reason : RlmLedgerDeleteReason)
    (io : LedgerIo) : Ledger × Except Str Unit :=
  appendRecord ledger (deleteRecord childId child reason io.now) io

/-! ### Runs -/

inductive LedgerCall where
  | spawn (input : RlmSpawnInput) (io : LedgerIo)
  | rename (childId child name : Str) (io : LedgerIo)
  | delete (childId child : Str) (reason : RlmLedgerDeleteReason) (io : LedgerIo)
  /-- The daemon ends, and another one opens the ledger. -/
  | restart

def step (ledger : Ledger) : LedgerCall → Ledger
  | .spawn input io => (appendSpawn ledger input io).1
  | .rename childId child name io => (appendRename ledger childId child name io).1
  | .delete childId child reason io => (appendDelete ledger childId child reason io).1
  | .restart => { ledger with log := stepThrough ledger.log (.restart 0) }

def run (ledger : Ledger) (calls : List LedgerCall) : Ledger := calls.foldl step ledger

omit [LedgerHost F] in
def Ledger.fresh (sessionsDir path : Str) : Ledger := ⟨sessionsDir, .fresh path⟩

/-! ### The records of a reachable ledger -/

/-- A record as the ledger writes it. -/
def Canonical : RlmLedgerRecord → Prop
  | .metadata _ _ => True
  | .spawn r => canonicalSessionPath r.child = r.child ∧ canonicalSessionPath r.parent = r.parent ∧ 1 ≤ r.depth.1
  | .rename r => canonicalSessionPath r.child = r.child
  | .delete r => canonicalSessionPath r.child = r.child

structure Kept (ledger : Ledger) : Prop where
  intact : Intact ledger.log
  canonical : ∀ record ∈ ledger.log.landed, Canonical record

theorem Canonical.valid {record : RlmLedgerRecord} (h : Canonical record) : record.Valid := by
  cases record with
  | spawn r => exact h.2.2
  | _ => trivial

theorem kept_fresh (sessionsDir path : Str) : Kept (Ledger.fresh sessionsDir path) :=
  ⟨intact_fresh path, fun _ h => (not_mem_nil h).elim⟩

/-- A call lands at most the record that leads a new file and its own. -/
theorem landed_append (sys : Shared RlmLedgerRecord) (call : ThroughCall RlmLedgerRecord)
    (io : ThroughIo) : ∃ records, (∀ r ∈ records, r ∈ recordsThrough sys.file call) ∧
      (stepThrough sys (.append 0 call io)).landed = sys.landed ++ records := by
  refine ⟨_, fun r hr => ?_, rfl⟩
  split at hr
  · exact hr
  · rw [cutRecords] at hr
    split at hr
    · exact mem_of_mem_landedRecords hr
    · cases hr

/-- A spawn is refused, or its record is appended after the check. -/
theorem appendSpawn_cases (ledger : Ledger) (input : RlmSpawnInput) (io : LedgerIo) :
    (∃ error, appendSpawn ledger input io = (ledger, .error error)) ∨
    (1 ≤ input.depth.1 ∧ duplicate (liveEdges (replayEdges ledger io.read)) input.childId
        (canonicalSessionPath input.child) = none ∧
      appendSpawn ledger input io = RlmLedger.appendRecord ledger (spawnRecord input io.now) io) := by
  rw [appendSpawn]
  split_ifs with hinvalid
  · exact .inl ⟨_, rfl⟩
  · dsimp only
    cases hduplicate : duplicate (liveEdges (replayEdges ledger io.read)) input.childId
        (canonicalSessionPath input.child) with
    | some edge => exact .inl ⟨_, rfl⟩
    | none =>
      refine .inr ⟨?_, rfl, rfl⟩
      simp only [not_or, not_lt] at hinvalid
      exact hinvalid.2.2.2

variable {ledger : Ledger}

/-- A valid spawn of a path that no other child holds is appended. -/
theorem appendSpawn_eq {input : RlmSpawnInput} {io : LedgerIo}
    (hvalid : ¬ (input.childId = [] ∨ input.parent = [] ∨ input.child = [] ∨ input.depth.1 < 1))
    (hduplicate : duplicate (liveEdges (replayEdges ledger io.read)) input.childId
      (canonicalSessionPath input.child) = none) :
    appendSpawn ledger input io = appendRecord ledger (spawnRecord input io.now) io := by
  rw [appendSpawn, if_neg hvalid]
  dsimp only
  rw [hduplicate]

/-- What an append adds to the records: those that lead a new file, and its own. -/
theorem landed_appendRecord (ledger : Ledger) (record : RlmLedgerRecord) (io : LedgerIo) :
    ∃ more, (appendRecord ledger record io).1.log.landed = ledger.log.landed ++ more ∧
      ∀ x ∈ more, (∃ time dir, x = .metadata time dir) ∨ x = record := by
  obtain ⟨more, hmore, hlanded⟩ := landed_append ledger.log (recordCall ledger record io) io.through
  refine ⟨more, hlanded, fun x hx => ?_⟩
  rcases mem_append.1 (hmore x hx) with h | h
  · rw [leadThrough] at h
    split_ifs at h
    · exact .inl ⟨_, _, mem_singleton.1 h⟩
    · cases h
  · exact .inr (mem_singleton.1 h)

theorem mem_landed_appendRecord {record r : RlmLedgerRecord} {io : LedgerIo}
    (h : r ∈ (appendRecord ledger record io).1.log.landed) :
    r ∈ ledger.log.landed ∨ (∃ time dir, r = .metadata time dir) ∨ r = record := by
  obtain ⟨more, hlanded, hmore⟩ := landed_appendRecord ledger record io
  rw [hlanded] at h
  rcases mem_append.1 h with h | h
  · exact .inl h
  · exact .inr (hmore r h)

/-- The record that a call may append. -/
def LedgerCall.record : LedgerCall → Option RlmLedgerRecord
  | .spawn input io => some (spawnRecord input io.now)
  | .rename childId child name io => some (renameRecord childId child name io.now)
  | .delete childId child reason io => some (deleteRecord childId child reason io.now)
  | .restart => none

theorem mem_landed_step {call : LedgerCall} {r : RlmLedgerRecord}
    (h : r ∈ (step ledger call).log.landed) :
    r ∈ ledger.log.landed ∨ (∃ time dir, r = .metadata time dir) ∨ call.record = some r := by
  have happend : ∀ {record : RlmLedgerRecord} {io : LedgerIo},
      r ∈ (appendRecord ledger record io).1.log.landed → call.record = some record →
        r ∈ ledger.log.landed ∨ (∃ time dir, r = .metadata time dir) ∨ call.record = some r := by
    intro record io hr hcall
    rcases mem_landed_appendRecord hr with hr | hr | rfl
    · exact .inl hr
    · exact .inr (.inl hr)
    · exact .inr (.inr hcall)
  cases call with
  | spawn input io =>
    rcases appendSpawn_cases ledger input io with ⟨error, heq⟩ | ⟨-, -, heq⟩
    · rw [step, heq] at h
      exact .inl h
    · rw [step, heq] at h
      exact happend h rfl
  | rename childId child name io | delete childId child reason io => exact happend h rfl
  | restart => exact .inl h

variable [LawfulLedgerHost F]

theorem Kept.appendRecord (h : Kept ledger) {record : RlmLedgerRecord}
    (hrecord : Canonical record) (io : LedgerIo) : Kept (appendRecord ledger record io).1 := by
  refine ⟨h.intact.stepThrough (.append 0 (recordCall ledger record io) io.through), fun r hr => ?_⟩
  rcases mem_landed_appendRecord hr with hr | ⟨time, dir, rfl⟩ | rfl
  · exact h.canonical r hr
  · trivial
  · exact hrecord

theorem canonical_spawnRecord {input : RlmSpawnInput} (h : 1 ≤ input.depth.1) (now : Str) :
    Canonical (spawnRecord input now) :=
  ⟨LawfulLedgerHost.canonical_canonical _, LawfulLedgerHost.canonical_canonical _, h⟩

theorem Kept.step (h : Kept ledger) (call : LedgerCall) : Kept (step ledger call) := by
  cases call with
  | spawn input io =>
    rcases appendSpawn_cases ledger input io with ⟨error, heq⟩ | ⟨hdepth, -, heq⟩
    · rw [RlmLedger.step, heq]
      exact h
    · rw [RlmLedger.step, heq]
      exact h.appendRecord (canonical_spawnRecord hdepth io.now) io
  | rename childId child name io =>
    have hrecord : Canonical (renameRecord childId child name io.now) := LawfulLedgerHost.canonical_canonical child
    exact h.appendRecord hrecord io
  | delete childId child reason io =>
    have hrecord : Canonical (deleteRecord childId child reason io.now) := LawfulLedgerHost.canonical_canonical child
    exact h.appendRecord hrecord io
  | restart => exact ⟨h.intact.stepThrough (.restart 0), h.canonical⟩

/-- The records of every reachable ledger are canonical, and its log is intact. -/
theorem Kept.run (h : Kept ledger) (calls : List LedgerCall) : Kept (run ledger calls) := by
  induction calls generalizing ledger with
  | nil => exact h
  | cons call calls ih => exact ih (h.step call)

/-- The ledger can be read: the read succeeds, and the bounds are kept. -/
def Legible (ledger : Ledger) (io : ReplayIo) : Prop := io.readError = none ∧ Readable ledgerReplayOptions ledger.log

omit [LawfulLedgerHost F] in
/-- A read that fails finds nothing. -/
theorem replayEdges_of_readError {ledger : Ledger} {io : ReplayIo} (h : io.readError ≠ none) :
    replayEdges ledger io = .empty := by
  obtain ⟨error, herror⟩ := Option.ne_none_iff_exists'.1 h
  simp only [replayEdges, replay, drainShared, replayed]
  cases ledger.log.file with
  | none => rfl
  | some bytes =>
    simp only [herror]
    rfl

/-- What a replay finds: the edges of the landed records, or if it cannot read them none. -/
theorem Kept.replayEdges_eq (h : Kept ledger) (io : ReplayIo) :
    (Legible ledger io ∧ replayEdges ledger io = replayRecords ledger.log.landed) ∨
      (¬ Legible ledger io ∧ replayEdges ledger io = .empty) := by
  by_cases hread : io.readError = none
  · have hreads : Reads readRecord some ledger.log.landed := by
      intro record hrecord text index htext
      cases htext
      rw [readRecord, parseLedgerLine_toText (h.canonical record hrecord).valid index]
    rw [replayEdges]
    rcases h.intact.replay_cases hreads ledgerReplayOptions hread with
      ⟨hreadable, hok⟩ | ⟨hrefused, error, herror⟩
    · rw [hok, filterMap_some]
      exact .inl ⟨⟨hread, hreadable⟩, rfl⟩
    · rw [herror]
      exact .inr ⟨fun hlegible => hrefused hlegible.2, rfl⟩
  · exact .inr ⟨fun hlegible => hread hlegible.1, replayEdges_of_readError hread⟩

theorem Kept.replayEdges_of_legible (h : Kept ledger) {io : ReplayIo}
    (hlegible : Legible ledger io) : replayEdges ledger io = replayRecords ledger.log.landed := by
  rcases h.replayEdges_eq io with ⟨-, heq⟩ | ⟨hnot, -⟩
  · exact heq
  · exact absurd hlegible hnot

end

end RlmLedger
