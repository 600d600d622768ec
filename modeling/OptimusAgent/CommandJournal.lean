/-
**The command recovery journal.**

The daemon writes a record before it dispatches a command, another with the result, and a third when
the client has acknowledged the result.  After a crash the records are read back, so that a command
that was received is not dispatched again.  This module embeds
`modes/daemon/command_recovery_journal.rs`: the records and their JSON, the journal with its three
operations, the compaction that replaces the file by a snapshot of the entries, and the loader.

A file is a list of bytes; a missing file is an empty one.  The JSON library is a parameter, as are
the JSON of a response, the time, the outcome of each write and the order in which the entries of
the hash map are visited.  A write that fails has landed some first bytes of its line; a crash in
the middle of an operation is such a write followed by a reload.
-/

import OptimusAgent.RowCodec
import OptimusAgent.IndexMap
import OptimusAgent.LineLog

namespace CommandJournal

open Str RowCodec List

/-! ### Records -/

/-- A command that was received.  Its version is 1 and its type `received`. -/
structure ReceivedRecord where
  key : Str
  clientId : Str
  commandId : Str
  commandType : Str
  recordedAt : Str
  deriving DecidableEq

/-- A record, with responses `R`. -/
inductive JournalRecord (R : Type) where
  | received (record : ReceivedRecord)
  | result (key : Str) (response : R) (recordedAt : Str)
  | acknowledged (key : Str) (recordedAt : Str)
  deriving DecidableEq

/-- What the journal takes from the JSON library, for doubles `F` and responses `R`. -/
class JournalHost (F R : Type) where
  jsonStringify : Json F → Str
  fromStr : Str → Option (Json F)
  /-- A response as a JSON value, and back. -/
  responseValue : R → Json F
  responseOf : Json F → Option R
  /-- The `type` of a response. -/
  responseType : R → Str

section

variable {F R : Type} [JournalHost F R]

/-- The fields of a record, after its version, type and key. -/
def recordFields (type key : Str) (rest : FileEntry F) : FileEntry F :=
  ("version", .number (.int 1)) :: ("type", .string type) :: ("key", .string key) :: rest

def receivedFields (record : ReceivedRecord) : FileEntry F :=
  [("clientId", .string record.clientId), ("commandId", .string record.commandId),
    ("commandType", .string record.commandType),
    ("recordedAt", .string record.recordedAt)]

def resultFields (response : R) (recordedAt : Str) : FileEntry F :=
  [("response", JournalHost.responseValue response), ("recordedAt", .string recordedAt)]

def acknowledgedFields (recordedAt : Str) : FileEntry F := [("recordedAt", .string recordedAt)]

variable (F) in
def toValue : JournalRecord R → Json F
  | .received record => .object (recordFields "received" record.key (receivedFields record))
  | .result key response recordedAt => .object (recordFields "result" key (resultFields response recordedAt))
  | .acknowledged key recordedAt => .object (recordFields "acknowledged" key (acknowledgedFields recordedAt))

variable (F) in
/-- The line of a record. -/
def text (record : JournalRecord R) : Str := JournalHost.jsonStringify R (toValue F record)

variable (F R) in
/-- The key of a command: the JSON array of the client and the command. -/
def createCommandIdempotencyKey (clientId commandId : Str) : Str :=
  JournalHost.jsonStringify R (.array [.string clientId, .string commandId] : Json F)

/-- A part of the line of a record, from its start. -/
def Fragment (F : Type) {R : Type} [JournalHost F R] (s : Str) : Prop :=
  s ≠ [] ∧ ∃ record : JournalRecord R, s <+: text F record

end

/-- Printing and parsing are inverse, a text is one line, an object starts with a brace, and neither
a part of the line of a record nor several parts in a row are JSON. -/
class LawfulJournalHost (F R : Type) [JournalHost F R] : Prop where
  fromStr_jsonStringify : ∀ v : Json F, v.WellFormed → JournalHost.fromStr R (JournalHost.jsonStringify R v) = some v
  newline_notMem : ∀ v : Json F, '\n' ∉ JournalHost.jsonStringify R v
  head_object : ∀ fields : FileEntry F, (JournalHost.jsonStringify R (.object fields)).head? = some '{'
  wellFormed_responseValue : ∀ r : R, (JournalHost.responseValue r : Json F).WellFormed
  responseOf_responseValue : ∀ r : R, JournalHost.responseOf (JournalHost.responseValue r : Json F) = some r
  fromStr_part : ∀ (record : JournalRecord R) (s : Str), s <+: text F record → s ≠ text F record →
    (JournalHost.fromStr R s : Option (Json F)) = none
  fromStr_parts : ∀ (s t : Str) (rest : List Str), Fragment F (R := R) s → Fragment F (R := R) t →
    (∀ u ∈ rest, Fragment F (R := R) u) →
    (JournalHost.fromStr R (s ++ t ++ rest.flatten) : Option (Json F)) = none

/-! ### The journal -/

structure JournalEntry (R : Type) where
  received : ReceivedRecord
  response : Option R
  deriving DecidableEq

inductive CommandJournalBeginResult (R : Type) where
  | new
  | pending
  | complete (response : R)
  deriving DecidableEq

structure CommandRecoveryJournal (R : Type) where
  entries : IndexMap Str (JournalEntry R)
  recordCount : ℕ

def compactAfterRecords : ℕ := 4096

/-- The outcome of appending a line. -/
inductive Write where
  | done
  /-- Some first bytes have landed. -/
  | fails (landed : ℕ) (error : Str)

/-- The outcome of replacing the file atomically. -/
inductive Replace where
  | done
  | fails (renamed : Bool) (error : Str)

/-- What an operation takes from its surroundings. -/
structure Io (R : Type) where
  write : Write
  replace : Replace
  recordedAt : Str
  /-- The time of the result record of a key in a compaction. -/
  compactedAt : Str → Str
  /-- The order in which the hash map is visited. -/
  order : List (Str × JournalEntry R) → List (Str × JournalEntry R)
  perm : ∀ l, (order l).Perm l

section

variable (F : Type) {R : Type} [JournalHost F R]

namespace CommandRecoveryJournal

def lookup (journal : CommandRecoveryJournal R) (clientId commandId : Str) : Option (CommandJournalBeginResult R) :=
  (journal.entries.get? (createCommandIdempotencyKey F R clientId commandId)).map fun entry =>
    match entry.response with
    | some response => .complete response
    | none => .pending

end CommandRecoveryJournal

/-! ### The loader -/

def asU64 : Json F → Option ℤ
  | .number (.int n) => if 0 ≤ n ∧ n < 2 ^ 64 then some n else none
  | _ => none

variable {F}

/-- A received record, deserialised. -/
def receivedOf (candidate : FileEntry F) : Option ReceivedRecord := do
  let key ← fieldStr "key" candidate
  let clientId ← fieldStr "clientId" candidate
  let commandId ← fieldStr "commandId" candidate
  let commandType ← fieldStr "commandType" candidate
  let recordedAt ← fieldStr "recordedAt" candidate
  return ⟨key, clientId, commandId, commandType, recordedAt⟩

/-- The response of a result record, deserialised. -/
def resultOf (candidate : FileEntry F) : Option R := do
  let response ← (field "response" candidate).bind JournalHost.responseOf
  let _ ← fieldStr "recordedAt" candidate
  return response

def ReceivedRecord.named (record : ReceivedRecord) : Bool :=
  record.clientId ≠ [] && record.commandId ≠ [] && record.commandType ≠ []

/-- The entries after a record that was read. -/
def loadCandidate (entries : IndexMap Str (JournalEntry R)) (key : Str) (candidate : FileEntry F) :
    IndexMap Str (JournalEntry R) :=
  let type := fieldStr "type" candidate
  if type = some ("received" : Str) then
    match receivedOf candidate with
    | some received => if received.named then entries.insert key ⟨received, none⟩ else entries
    | none => entries
  else if type = some ("acknowledged" : Str) then entries.erase key
  else if type = some ("result" : Str) then
    match (resultOf candidate : Option R) with
    | some response =>
      if JournalHost.responseType F response = ("response" : Str) then
        entries.modify key fun entry => { entry with response := some response }
      else entries
    | none => entries
  else entries

variable (F) in
/-- The journal after a line of the file; a line that is not a record is skipped. -/
def loadLine (journal : CommandRecoveryJournal R) (line : Str) : CommandRecoveryJournal R :=
  if line = [] then journal
  else
    match (JournalHost.fromStr R line : Option (Json F)).bind Json.asObject with
    | none => journal
    | some candidate =>
      if (field "version" candidate).bind (asU64 F) ≠ some 1 then journal
      else
        match fieldStr "key" candidate with
        | none => journal
        | some key => ⟨loadCandidate journal.entries key candidate, journal.recordCount + 1⟩

variable (F) in
def loadText (contents : Str) : CommandRecoveryJournal R := LineLog.readText (loadLine F) ⟨IndexMap.empty, 0⟩ contents

variable (F) in
/-- The journal that is read from a file; bytes that are not text are an error. -/
def load (file : List UInt8) : Option (CommandRecoveryJournal R) := (Utf8.decode file).map (loadText F)

/-! ### Operations -/

/-- A journal and the file it is on. -/
structure State (R : Type) where
  file : List UInt8
  journal : CommandRecoveryJournal R

variable (F) in
def append (s : State R) (record : JournalRecord R) (write : Write) : State R × Except Str Unit :=
  let line := LineLog.lineBytes (text F record)
  match write with
  | .done => (⟨s.file ++ line, { s.journal with recordCount := s.journal.recordCount + 1 }⟩, .ok ())
  | .fails landed error => (⟨s.file ++ line.take landed, s.journal⟩, .error error)

/-- The records of an entry. -/
def entryRecords (compactedAt : Str → Str) (e : Str × JournalEntry R) : List (JournalRecord R) :=
  .received e.2.received ::
    (e.2.response.map fun response => .result e.1 response (compactedAt e.1)).toList

/-- The records that a compaction writes. -/
def snapshot (journal : CommandRecoveryJournal R) (io : Io R) : List (JournalRecord R) :=
  (io.order journal.entries.entries).flatMap (entryRecords io.compactedAt)

variable (F) in
def compact (s : State R) (io : Io R) : State R × Except Str Unit :=
  let records := snapshot s.journal io
  let file := LineLog.lineBytes (unlines (records.map (text F)))
  match io.replace with
  | .done => (⟨file, { s.journal with recordCount := records.length }⟩, .ok ())
  | .fails renamed error => (⟨if renamed then file else s.file, s.journal⟩, .error error)

variable (F) in
def begin (s : State R) (clientId commandId commandType : Str) (io : Io R) :
    State R × Except Str (CommandJournalBeginResult R) :=
  let key := createCommandIdempotencyKey F R clientId commandId
  match s.journal.lookup F clientId commandId with
  | some existing => (s, .ok existing)
  | none =>
    let received : ReceivedRecord := ⟨key, clientId, commandId, commandType, io.recordedAt⟩
    match append F s (.received received) io.write with
    | (s, .error error) => (s, .error error)
    | (s, .ok _) => ({ s with journal.entries := s.journal.entries.insert key ⟨received, none⟩ }, .ok .new)

variable (F) in
def recordResult (s : State R) (clientId commandId : Str) (response : R) (io : Io R) : State R × Except Str Unit :=
  let key := createCommandIdempotencyKey F R clientId commandId
  if s.journal.entries.contains key = false then
    (s, .error ("Cannot record a result before command receipt: " ++ key))
  else
    match append F s (.result key response io.recordedAt) io.write with
    | (s, .error error) => (s, .error error)
    | (s, .ok _) =>
      let s := { s with journal.entries := s.journal.entries.modify key fun entry =>
        { entry with response := some response } }
      if s.journal.recordCount ≥ compactAfterRecords then compact F s io else (s, .ok ())

variable (F) in
def acknowledge (s : State R) (clientId commandId : Str) (io : Io R) : State R × Except Str Unit :=
  let key := createCommandIdempotencyKey F R clientId commandId
  if s.journal.entries.contains key = false then (s, .ok ())
  else
    match append F s (.acknowledged key io.recordedAt) io.write with
    | (s, .error error) => (s, .error error)
    | (s, .ok _) =>
      let s := { s with journal.entries := s.journal.entries.erase key }
      if s.journal.entries.size = 0 ∨ s.journal.recordCount ≥ compactAfterRecords then
        compact F s io
      else (s, .ok ())

/-! ### Runs with crashes -/

inductive Call (R : Type) where
  | begin (clientId commandId commandType : Str)
  | recordResult (clientId commandId : Str) (response : R)
  | acknowledge (clientId commandId : Str)

inductive Step (R : Type) where
  | call (call : Call R) (io : Io R)
  /-- The process is gone, and a new one loads the file. -/
  | reload

/-- A file and the journal on it, which is missing when the file could not be read. -/
structure System (R : Type) where
  file : List UInt8
  journal : Option (CommandRecoveryJournal R)

/-- A journal on a new file. -/
def System.fresh : System R := ⟨[], some ⟨IndexMap.empty, 0⟩⟩

variable (F) in
def callState (s : State R) (io : Io R) : Call R → State R
  | .begin clientId commandId commandType => (begin F s clientId commandId commandType io).1
  | .recordResult clientId commandId response => (recordResult F s clientId commandId response io).1
  | .acknowledge clientId commandId => (acknowledge F s clientId commandId io).1

variable (F) in
def step (sys : System R) : Step R → System R
  | .call call io =>
    match sys.journal with
    | none => sys
    | some journal =>
      let s := callState F ⟨sys.file, journal⟩ io call
      ⟨s.file, some s.journal⟩
  | .reload => ⟨sys.file, load F sys.file⟩

variable (F) in
def run (sys : System R) (steps : List (Step R)) : System R := steps.foldl (step F) sys

variable (F) in
/-- What `begin` returns, if there is a journal to call it on. -/
def begins (sys : System R) (clientId commandId commandType : Str) (io : Io R) :
    Option (Except Str (CommandJournalBeginResult R)) :=
  sys.journal.map fun journal => (begin F ⟨sys.file, journal⟩ clientId commandId commandType io).2

/-! ### The line of a record -/

variable (F) in
/-- The entries after a record. -/
def applyRecord (entries : IndexMap Str (JournalEntry R)) : JournalRecord R → IndexMap Str (JournalEntry R)
  | .received record => if record.named then entries.insert record.key ⟨record, none⟩ else entries
  | .result key response _ =>
    if JournalHost.responseType F response = "response" then
      entries.modify key fun entry => { entry with response := some response }
    else entries
  | .acknowledged key _ => entries.erase key

variable (F) in
/-- The entry under a key after a record. -/
def effect (record : JournalRecord R) (key : Str) (entry : Option (JournalEntry R)) : Option (JournalEntry R) :=
  match record with
  | .received record => if record.named ∧ key = record.key then some ⟨record, none⟩ else entry
  | .result key' response _ =>
    if JournalHost.responseType F response = "response" ∧ key = key' then
      entry.map fun entry => { entry with response := some response }
    else entry
  | .acknowledged key' _ => if key = key' then none else entry

variable (F) in
theorem get?_applyRecord (entries : IndexMap Str (JournalEntry R)) (record : JournalRecord R)
    (key : Str) : (applyRecord F entries record).get? key = effect F record key (entries.get? key) := by
  cases record with
  | received record =>
    by_cases hnamed : record.named = true
    · simp only [applyRecord, effect, hnamed, if_true, true_and, IndexMap.get?_insert]
    · rw [applyRecord, if_neg hnamed, effect, if_neg fun h => hnamed h.1]
  | result key' response _ =>
    by_cases htype : JournalHost.responseType F response = "response"
    · simp only [applyRecord, effect, htype, if_true, true_and, IndexMap.get?_modify]
    · rw [applyRecord, if_neg htype, effect, if_neg fun h => htype h.1]
  | acknowledged key' _ => simp only [applyRecord, effect, IndexMap.get?_erase]

variable (F) in
theorem loadCandidate_received (entries : IndexMap Str (JournalEntry R)) (record : ReceivedRecord) :
    loadCandidate entries record.key
      (recordFields (F := F) "received" record.key (receivedFields record)) =
        applyRecord F entries (.received record) := by
  have htype : fieldStr "type" (recordFields (F := F) "received" record.key
      (receivedFields record)) = some ("received" : Str) := rfl
  have hreceived : receivedOf (recordFields (F := F) "received" record.key (receivedFields record)) = some record := rfl
  rw [loadCandidate, if_pos htype, hreceived]
  rfl

variable (F) in
theorem loadCandidate_acknowledged (entries : IndexMap Str (JournalEntry R)) (key recordedAt : Str) :
    loadCandidate entries key
      (recordFields (F := F) "acknowledged" key (acknowledgedFields recordedAt)) =
        applyRecord F entries (.acknowledged key recordedAt) := by
  have htype : fieldStr "type" (recordFields (F := F) "acknowledged" key
      (acknowledgedFields recordedAt)) = some ("acknowledged" : Str) := rfl
  rw [loadCandidate, if_neg (by rw [htype]; decide), if_pos htype]
  rfl

theorem loadLine_of_fromStr {line : Str} (h : (JournalHost.fromStr R line : Option (Json F)) = none)
    (journal : CommandRecoveryJournal R) : loadLine F journal line = journal := by
  rw [loadLine, h]
  split_ifs <;> rfl

/-- A line with the head of a record is read by its type. -/
theorem loadLine_of_recordFields {line type key : Str} {rest : FileEntry F} (hline : line ≠ [])
    (h : (JournalHost.fromStr R line : Option (Json F)) =
      some (.object (recordFields type key rest))) (journal : CommandRecoveryJournal R) :
    loadLine F journal line =
      ⟨loadCandidate journal.entries key (recordFields type key rest), journal.recordCount + 1⟩ := by
  have hobject : (some (Json.object (recordFields type key rest))).bind Json.asObject =
      some (recordFields type key rest) := rfl
  have hversion : (field "version" (recordFields type key rest)).bind (asU64 F) = some 1 := rfl
  have hkey : fieldStr "key" (recordFields type key rest) = some key := rfl
  simp only [loadLine, if_neg hline, h, hobject, hversion, hkey, ne_eq, not_true_eq_false, if_false]

section

variable [LawfulJournalHost F R]

theorem wellFormed_recordFields {type key : Str} {rest : FileEntry F}
    (hkeys : ((("version" : Str) :: ("type" : Str) :: ("key" : Str) :: rest.map Prod.fst)).Nodup)
    (hrest : ∀ e ∈ rest, e.2.WellFormed) :
    (Json.object (recordFields type key rest)).WellFormed := by
  refine .object hkeys fun e he => ?_
  simp only [recordFields, mem_cons] at he
  rcases he with rfl | rfl | rfl | he
  · exact .number _
  · exact .string _
  · exact .string _
  · exact hrest e he

theorem wellFormed_toValue (record : JournalRecord R) : (toValue F record).WellFormed := by
  cases record with
  | received record =>
    refine wellFormed_recordFields (show (["version", "type", "key", "clientId", "commandId",
      "commandType", "recordedAt"].map String.toList).Nodup by decide) fun e he => ?_
    simp only [receivedFields, mem_cons, not_mem_nil, or_false] at he
    rcases he with rfl | rfl | rfl | rfl <;> exact .string _
  | result key response recordedAt =>
    refine wellFormed_recordFields (show (["version", "type", "key", "response",
      "recordedAt"].map String.toList).Nodup by decide) fun e he => ?_
    simp only [resultFields, mem_cons, not_mem_nil, or_false] at he
    rcases he with rfl | rfl
    · exact LawfulJournalHost.wellFormed_responseValue response
    · exact .string _
  | acknowledged key recordedAt =>
    refine wellFormed_recordFields (show (["version", "type", "key",
      "recordedAt"].map String.toList).Nodup by decide) fun e he => ?_
    cases mem_singleton.1 he
    exact .string _

variable (F) in
theorem head?_text (record : JournalRecord R) : (text F record).head? = some '{' := by
  cases record <;> exact LawfulJournalHost.head_object _

variable (F) in
theorem text_ne_nil (record : JournalRecord R) : text F record ≠ [] := by
  intro h
  have hhead := head?_text F record
  rw [h] at hhead
  cases hhead

variable (F) in
theorem loadCandidate_result (entries : IndexMap Str (JournalEntry R)) (key : Str) (response : R) (recordedAt : Str) :
    loadCandidate entries key (recordFields (F := F) "result" key (resultFields response recordedAt)) =
        applyRecord F entries (.result key response recordedAt) := by
  have htype : fieldStr "type" (recordFields (F := F) "result" key
      (resultFields response recordedAt)) = some ("result" : Str) := rfl
  have hresult : resultOf (recordFields (F := F) "result" key (resultFields response recordedAt)) = some response := by
    have hfield : (field "response" (recordFields (F := F) "result" key
        (resultFields response recordedAt))).bind (JournalHost.responseOf (R := R)) =
          JournalHost.responseOf (JournalHost.responseValue response : Json F) := rfl
    have htime : fieldStr "recordedAt" (recordFields (F := F) "result" key
        (resultFields response recordedAt)) = some recordedAt := rfl
    rw [resultOf, hfield, LawfulJournalHost.responseOf_responseValue, htime]
    rfl
  rw [loadCandidate, if_neg (by rw [htype]; decide), if_neg (by rw [htype]; decide), if_pos htype, hresult]
  rfl

variable (F) in
/-- **The line of a record is read as the record.** -/
theorem loadLine_text (journal : CommandRecoveryJournal R) (record : JournalRecord R) :
    loadLine F journal (text F record) = ⟨applyRecord F journal.entries record, journal.recordCount + 1⟩ := by
  have hparse : (JournalHost.fromStr R (text F record) : Option (Json F)) = some (toValue F record) :=
    LawfulJournalHost.fromStr_jsonStringify _ (wellFormed_toValue record)
  have hline := text_ne_nil F record
  cases record with
  | received record => rw [loadLine_of_recordFields hline hparse, loadCandidate_received]
  | result key response recordedAt => rw [loadLine_of_recordFields hline hparse, loadCandidate_result]
  | acknowledged key recordedAt => rw [loadLine_of_recordFields hline hparse, loadCandidate_acknowledged]

variable (F R) in
/-- A key determines the client and the command. -/
theorem createCommandIdempotencyKey_injective {clientId commandId clientId' commandId' : Str}
    (h : createCommandIdempotencyKey F R clientId commandId = createCommandIdempotencyKey F R clientId' commandId') :
    clientId = clientId' ∧ commandId = commandId' := by
  have hwf : ∀ a b : Str, (Json.array [.string a, .string b] : Json F).WellFormed := by
    intro a b
    refine .array fun v hv => ?_
    simp only [mem_cons, not_mem_nil, or_false] at hv
    rcases hv with rfl | rfl <;> exact .string _
  have hread := LawfulJournalHost.fromStr_jsonStringify (R := R) _ (hwf clientId commandId)
  rw [createCommandIdempotencyKey, createCommandIdempotencyKey] at h
  rw [h, LawfulJournalHost.fromStr_jsonStringify (R := R) _ (hwf clientId' commandId')] at hread
  simpa [eq_comm] using hread

end

end

end CommandJournal
