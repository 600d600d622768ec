/-
**The worker recovery journal.**

The daemon keeps, for every active session, whether its worker is busy and with what.  A record is
appended to a file and kept in memory; an input that only repeats the last record of its session is
skipped; and the file is rewritten with the last records when every session is idle or the file has
grown large.  This module embeds `modes/daemon/worker_recovery_journal.rs`.

A repetition has the busy flag, the operation and the session file of the last record.  The session
id is not compared.

The JSON library is a parameter, as are the time and the order in which the hash map is visited.  A
file is a list of bytes, and a missing file is an empty one; no read or write fails.
-/

import OptimusAgent.IndexMap
import OptimusAgent.JsonText
import OptimusAgent.Latest
import OptimusAgent.LineLog

namespace WorkerRecovery

open Str RowCodec LineLog List Utf8 IndexMap

/-! ### Records -/

structure WorkerRecoveryRecord where
  version : ℕ
  activeSessionId : Str
  sessionId : Str
  sessionFile : Option Str
  busy : Bool
  operation : Str
  recordedAt : Str
  deriving DecidableEq

/-- What a caller says; the journal adds the version and the time. -/
structure WorkerRecoveryRecordInput where
  activeSessionId : Str
  sessionId : Str
  sessionFile : Option Str
  busy : Bool
  operation : Str
  deriving DecidableEq

/-- What the journal takes from the JSON library, for doubles `F`. -/
class RecoveryHost (F : Type) where
  jsonStringify : Json F → Str
  fromStr : Str → Option (Json F)

/-- Printing and parsing are inverse, and a text is one line that is not empty. -/
class LawfulRecoveryHost (F : Type) [RecoveryHost F] : Prop where
  fromStr_jsonStringify : ∀ v : Json F, v.WellFormed → RecoveryHost.fromStr (RecoveryHost.jsonStringify v) = some v
  newline_notMem : ∀ v : Json F, '\n' ∉ RecoveryHost.jsonStringify v
  jsonStringify_ne_nil : ∀ v : Json F, RecoveryHost.jsonStringify v ≠ []

section

variable {F : Type}

variable (F) in
/-- A session file that is missing is left out. -/
def sessionFileField : Option Str → FileEntry F
  | none => []
  | some file => [("sessionFile", .string file)]

variable (F) in
def stateFields (record : WorkerRecoveryRecord) : FileEntry F :=
  [("busy", .bool record.busy), ("operation", .string record.operation), ("recordedAt", .string record.recordedAt)]

variable (F) in
def toFields (record : WorkerRecoveryRecord) : FileEntry F :=
  ("version", .number (.int record.version)) :: ("activeSessionId", .string record.activeSessionId) ::
    ("sessionId", .string record.sessionId) ::
    (sessionFileField F record.sessionFile ++ stateFields F record)

variable (F) in
def toValue (record : WorkerRecoveryRecord) : Json F := .object (toFields F record)

def asU32 : Json F → Option ℕ
  | .number (.int n) => if 0 ≤ n ∧ n < 2 ^ 32 then some n.toNat else none
  | _ => none

def asBool : Json F → Option Bool
  | .bool b => some b
  | _ => none

/-- An optional text: it may be missing or null, but nothing else. -/
def sessionFileOf (fields : FileEntry F) : Option (Option Str) :=
  match field "sessionFile" fields with
  | none => some none
  | some .null => some none
  | some value => value.asStr.map some

/-- A record, deserialised; other fields are ignored. -/
def recordOf (value : Json F) : Option WorkerRecoveryRecord := do
  let fields ← value.asObject
  let version ← (field "version" fields).bind asU32
  let activeSessionId ← fieldStr "activeSessionId" fields
  let sessionId ← fieldStr "sessionId" fields
  let sessionFile ← sessionFileOf fields
  let busy ← (field "busy" fields).bind asBool
  let operation ← fieldStr "operation" fields
  let recordedAt ← fieldStr "recordedAt" fields
  return ⟨version, activeSessionId, sessionId, sessionFile, busy, operation, recordedAt⟩

theorem recordOf_toValue {record : WorkerRecoveryRecord} (h : record.version = 1) :
    recordOf (toValue F record) = some record := by
  obtain ⟨version, activeSessionId, sessionId, sessionFile, busy, operation, recordedAt⟩ := record
  cases h
  have hversion : asU32 (.number (.int (1 : ℕ)) : Json F) = some 1 := by
    rw [asU32, if_pos (by norm_num)]
    rfl
  have hfield : field "version" (toFields F ⟨1, activeSessionId, sessionId, sessionFile, busy, operation,
      recordedAt⟩) = some (.number (.int (1 : ℕ))) := rfl
  rw [recordOf, toValue, Json.asObject, Option.bind_eq_bind, Option.bind_some, hfield, Option.bind_some, hversion]
  cases sessionFile <;> rfl

theorem wellFormed_toValue (record : WorkerRecoveryRecord) : (toValue F record).WellFormed := by
  obtain ⟨version, activeSessionId, sessionId, sessionFile, busy, operation, recordedAt⟩ := record
  refine .object ?_ fun e he => ?_
  · cases sessionFile with
    | none =>
      exact show (["version", "activeSessionId", "sessionId", "busy", "operation",
        "recordedAt"].map String.toList).Nodup by decide
    | some file =>
      exact show (["version", "activeSessionId", "sessionId", "sessionFile", "busy", "operation",
        "recordedAt"].map String.toList).Nodup by decide
  · have hfile : ∀ e ∈ sessionFileField F sessionFile, e.2.WellFormed := by
      cases sessionFile with
      | none => exact fun e he => absurd he not_mem_nil
      | some file => exact fun e he => mem_singleton.1 he ▸ .string _
    simp only [toFields, stateFields, mem_append, mem_cons, not_mem_nil, or_false] at he
    rcases he with rfl | rfl | rfl | he | rfl | rfl | rfl
    · exact .number _
    · exact .string _
    · exact .string _
    · exact hfile e he
    · exact .bool _
    · exact .string _
    · exact .string _

end

/-! ### The journal -/

/-- The last record of each active session. -/
structure WorkerRecoveryJournal where
  latest : IndexMap Str WorkerRecoveryRecord

/-- A journal and the file it is on. -/
structure State where
  file : List UInt8
  journal : WorkerRecoveryJournal

/-- What an operation takes from its surroundings. -/
structure Io where
  recordedAt : Str
  /-- The order in which the hash map is visited. -/
  order : List WorkerRecoveryRecord → List WorkerRecoveryRecord
  perm : ∀ l, (order l).Perm l

def workerRecoveryCompactBytes : ℕ := 512 * 1024

section

variable (F : Type) [RecoveryHost F]

/-- The line of a record. -/
def text (record : WorkerRecoveryRecord) : Str := RecoveryHost.jsonStringify (toValue F record)

/-- The records after a line of the file; a line that is not a record is skipped. -/
def parseLine (latest : IndexMap Str WorkerRecoveryRecord) (line : Str) : IndexMap Str WorkerRecoveryRecord :=
  if line = [] then latest
  else
    match (RecoveryHost.fromStr line : Option (Json F)).bind recordOf with
    | none => latest
    | some record =>
      if record.version = 1 ∧ record.activeSessionId ≠ [] ∧ record.sessionId ≠ [] then
        latest.insert record.activeSessionId record
      else latest

/-- The last records of a file; bytes that are not text have none. -/
def parseRecords (file : List UInt8) : IndexMap Str WorkerRecoveryRecord :=
  ((decode file).map (readText (parseLine F) empty)).getD empty

/-- `WorkerRecoveryJournal::new`, on a file. -/
def openJournal (file : List UInt8) : State := ⟨file, ⟨parseRecords F file⟩⟩

/-- Whether an input is taken for a repetition of the last record. -/
def repeats (previous : WorkerRecoveryRecord) (input : WorkerRecoveryRecordInput) : Bool :=
  previous.busy = input.busy && previous.operation = input.operation &&
    previous.sessionFile = input.sessionFile

def newRecord (input : WorkerRecoveryRecordInput) (recordedAt : Str) : WorkerRecoveryRecord where
  version := 1
  activeSessionId := input.activeSessionId
  sessionId := input.sessionId
  sessionFile := input.sessionFile
  busy := input.busy
  operation := input.operation
  recordedAt := recordedAt

def append (file : List UInt8) (record : WorkerRecoveryRecord) : List UInt8 := file ++ lineBytes (text F record)

def getLatest (journal : WorkerRecoveryJournal) : List WorkerRecoveryRecord := journal.latest.entries.map Prod.snd

def readLatest (file : List UInt8) : List WorkerRecoveryRecord := (parseRecords F file).entries.map Prod.snd

/-- The file with the last records only. -/
def compact (journal : WorkerRecoveryJournal) (io : Io) : List UInt8 :=
  lineBytes (unlines ((io.order (getLatest journal)).map (text F)))

def record (s : State) (input : WorkerRecoveryRecordInput) (io : Io) : State :=
  if (s.journal.latest.get? input.activeSessionId).any (repeats · input) then s
  else
    let record := newRecord input io.recordedAt
    let file := append F s.file record
    let journal : WorkerRecoveryJournal := ⟨s.journal.latest.insert record.activeSessionId record⟩
    let allIdle := journal.latest.entries.all fun e => !e.2.busy
    ⟨if allIdle || file.length > workerRecoveryCompactBytes then compact F journal io else file, journal⟩

/-! ### Runs -/

inductive Step where
  | record (input : WorkerRecoveryRecordInput) (io : Io)
  /-- The journal is opened again on its file. -/
  | reopen

def step (s : State) : Step → State
  | .record input io => record F s input io
  | .reopen => openJournal F s.file

/-- A run from a journal that is opened on a new file. -/
def run (steps : List Step) : State := steps.foldl (step F) (openJournal F [])

/-- The inputs of a run. -/
def inputsOf (steps : List Step) : List WorkerRecoveryRecordInput :=
  steps.flatMap fun
    | .record input _ => [input]
    | .reopen => []

/-- The last input for an active session. -/
def lastInput (inputs : List WorkerRecoveryRecordInput) (id : Str) : Option WorkerRecoveryRecordInput :=
  Latest.latest (fun input => if input.activeSessionId = id then some input else none) inputs

/-- A record without what the journal added. -/
def toInput (record : WorkerRecoveryRecord) : WorkerRecoveryRecordInput :=
  ⟨record.activeSessionId, record.sessionId, record.sessionFile, record.busy, record.operation⟩

/-- For each active session there is exactly one record, that of its last input. -/
def Current (records : List WorkerRecoveryRecord) (inputs : List WorkerRecoveryRecordInput) : Prop :=
  ∀ id, (records.filter fun record => record.activeSessionId = id).map toInput = (lastInput inputs id).toList

/-- The journal has the last inputs, in memory and on its file. -/
def KeepsLatest (steps : List Step) : Prop := Current (getLatest (run F steps).journal) (inputsOf steps) ∧
    Current (readLatest F (run F steps).file) (inputsOf steps)

/-- The input differs from the last one for its active session in the session id alone. -/
def Renames (inputs : List WorkerRecoveryRecordInput) (input : WorkerRecoveryRecordInput) : Prop :=
  ∃ previous, lastInput inputs input.activeSessionId = some previous ∧ previous.busy = input.busy ∧
    previous.operation = input.operation ∧ previous.sessionFile = input.sessionFile ∧
    previous.sessionId ≠ input.sessionId

/-! ### The line of a record -/

/-- What a line must have to be read. -/
def WorkerRecoveryRecord.Valid (record : WorkerRecoveryRecord) : Prop :=
  record.version = 1 ∧ record.activeSessionId ≠ [] ∧ record.sessionId ≠ []

theorem parseLine_nil (latest : IndexMap Str WorkerRecoveryRecord) : parseLine F latest [] = latest := rfl

variable [LawfulRecoveryHost F]

theorem newline_notMem_text (record : WorkerRecoveryRecord) : '\n' ∉ text F record :=
  LawfulRecoveryHost.newline_notMem _

theorem parseLine_text {record : WorkerRecoveryRecord} (h : record.Valid) (latest : IndexMap Str WorkerRecoveryRecord) :
    parseLine F latest (text F record) = latest.insert record.activeSessionId record := by
  have hparse : (RecoveryHost.fromStr (text F record) : Option (Json F)) = some (toValue F record) :=
    LawfulRecoveryHost.fromStr_jsonStringify _ (wellFormed_toValue record)
  have hline : text F record ≠ [] := LawfulRecoveryHost.jsonStringify_ne_nil _
  rw [parseLine, if_neg hline, hparse, Option.bind_some, recordOf_toValue h.1]
  exact if_pos h

omit [LawfulRecoveryHost F] in
theorem parseRecords_encode (contents : Str) :
    parseRecords F (encode contents) = readText (parseLine F) empty contents := by
  rw [parseRecords, decode_encoded]
  rfl

theorem parseRecords_append {contents : Str} (hcomplete : CompleteText contents)
    {record : WorkerRecoveryRecord} (h : record.Valid) :
    parseRecords F (append F (encode contents) record) =
      (parseRecords F (encode contents)).insert record.activeSessionId record := by
  rw [append, lineBytes, ← encode_append, parseRecords_encode, parseRecords_encode,
    readText_append_line (parseLine_nil F) hcomplete (newline_notMem_text F record), parseLine_text F h]

theorem readText_records {records : List WorkerRecoveryRecord} (h : ∀ r ∈ records, r.Valid) :
    readText (parseLine F) empty (unlines (records.map (text F)) ++ ['\n']) =
      indexBy WorkerRecoveryRecord.activeSessionId records := by
  have hlines : ∀ l ∈ records.map (text F), '\n' ∉ l := by
    intro l hl
    obtain ⟨record, -, rfl⟩ := mem_map.1 hl
    exact newline_notMem_text F record
  rw [readText_unlines (parseLine_nil F) hlines, foldl_map, indexBy]
  refine foldl_ext _ _ _ fun latest record hrecord => ?_
  exact parseLine_text F (h record hrecord) latest

/-! ### The file and the memory -/

/-- The file is text that ends with a newline and is read as what the journal has in memory, where
every record is under its active session. -/
structure Consistent (s : State) : Prop where
  contents : ∃ contents, s.file = encode contents ∧ CompleteText contents
  parsed : ∀ id, (parseRecords F s.file).get? id = s.journal.latest.get? id
  own : ∀ id r, s.journal.latest.get? id = some r → r.activeSessionId = id
  valid : ∀ id r, s.journal.latest.get? id = some r → r.Valid

variable {F}

/-- The lookups of a compacted file. -/
theorem Consistent.compact {journal : WorkerRecoveryJournal}
    (hown : ∀ id r, journal.latest.get? id = some r → r.activeSessionId = id)
    (hvalid : ∀ id r, journal.latest.get? id = some r → r.Valid) (io : Io) :
    Consistent F ⟨compact F journal io, journal⟩ := by
  have hmem : ∀ r, r ∈ io.order (getLatest journal) ↔ ∃ id, journal.latest.get? id = some r := by
    intro r
    rw [(io.perm _).mem_iff, getLatest, mem_map]
    constructor
    · rintro ⟨e, he, rfl⟩
      exact ⟨e.1, (Keyed.first_eq_some_iff_mem journal.latest.nodup).2 he⟩
    · rintro ⟨id, hid⟩
      exact ⟨(id, r), Keyed.mem_of_first_eq_some hid, rfl⟩
  have hnodup : ((io.order (getLatest journal)).map WorkerRecoveryRecord.activeSessionId).Nodup := by
    have hkeys : (getLatest journal).map WorkerRecoveryRecord.activeSessionId = journal.latest.keys := by
      rw [getLatest, map_map]
      refine map_congr_left fun e he => ?_
      exact hown e.1 e.2 ((Keyed.first_eq_some_iff_mem journal.latest.nodup).2 he)
    rw [((io.perm _).map _).nodup_iff, hkeys]
    exact journal.latest.nodup
  have hread : parseRecords F (WorkerRecovery.compact F journal io) =
      indexBy WorkerRecoveryRecord.activeSessionId (io.order (getLatest journal)) := by
    rw [WorkerRecovery.compact, lineBytes, parseRecords_encode]
    refine readText_records F fun r hr => ?_
    obtain ⟨id, hid⟩ := (hmem r).1 hr
    exact hvalid id r hid
  refine ⟨⟨_, rfl, .inr ⟨_, rfl⟩⟩, fun id => Option.ext fun r => ?_, hown, hvalid⟩
  rw [hread]
  constructor
  · intro h
    obtain ⟨hr, rfl⟩ := of_get?_indexBy h
    obtain ⟨id, hid⟩ := (hmem r).1 hr
    rwa [hown id r hid]
  · intro h
    have hr := get?_indexBy_of_mem hnodup ((hmem r).2 ⟨id, h⟩)
    rwa [hown id r h] at hr

section

omit [LawfulRecoveryHost F]

theorem parseRecords_nil : parseRecords F [] = empty := by
  have hread := parseRecords_encode F []
  rwa [readText, show ([] : Str).splitOn '\n' = [[]] by simp] at hread

theorem get?_fresh (id : Str) : (openJournal F []).journal.latest.get? id = none := by
  rw [openJournal, parseRecords_nil]
  rfl

theorem Consistent.fresh : Consistent F (openJournal F []) where
  contents := ⟨[], rfl, .inl rfl⟩
  parsed _ := rfl
  own id r h := absurd h (by rw [get?_fresh]; nofun)
  valid id r h := absurd h (by rw [get?_fresh]; nofun)

end

variable {input : WorkerRecoveryRecordInput} {steps : List Step}

theorem Consistent.record {s : State} (h : Consistent F s)
    (hactive : input.activeSessionId ≠ []) (hsession : input.sessionId ≠ []) (io : Io) :
    Consistent F (record F s input io) := by
  rw [WorkerRecovery.record]
  split_ifs with hrepeats
  · exact h
  · have hnew : (newRecord input io.recordedAt).Valid := ⟨rfl, hactive, hsession⟩
    have hlookup : ∀ id r, (s.journal.latest.insert input.activeSessionId
        (newRecord input io.recordedAt)).get? id = some r →
          (r = newRecord input io.recordedAt ∧ id = input.activeSessionId) ∨ s.journal.latest.get? id = some r := by
      intro id r hr
      rw [get?_insert] at hr
      split_ifs at hr with hid
      · exact .inl ⟨(Option.some.inj hr).symm, hid⟩
      · exact .inr hr
    have hown : ∀ id r, (s.journal.latest.insert input.activeSessionId
        (newRecord input io.recordedAt)).get? id = some r → r.activeSessionId = id := by
      intro id r hr
      obtain ⟨rfl, rfl⟩ | hr := hlookup id r hr
      · rfl
      · exact h.own id r hr
    have hvalid : ∀ id r, (s.journal.latest.insert input.activeSessionId
        (newRecord input io.recordedAt)).get? id = some r → r.Valid := by
      intro id r hr
      obtain ⟨rfl, rfl⟩ | hr := hlookup id r hr
      · exact hnew
      · exact h.valid id r hr
    dsimp only
    split_ifs
    · exact Consistent.compact hown hvalid io
    · obtain ⟨contents, hfile, hcomplete⟩ := h.contents
      refine ⟨⟨contents ++ (text F (newRecord input io.recordedAt) ++ ['\n']), ?_, ?_⟩, fun id => ?_, hown, hvalid⟩
      · rw [append, lineBytes, hfile, ← encode_append]
      · exact .inr ⟨contents ++ text F (newRecord input io.recordedAt), by rw [append_assoc]⟩
      · rw [hfile, parseRecords_append F hcomplete hnew, get?_insert, ← hfile, h.parsed, get?_insert]

omit [LawfulRecoveryHost F] in
theorem Consistent.reopen {s : State} (h : Consistent F s) : Consistent F (openJournal F s.file) where
  contents := h.contents
  parsed _ := rfl
  own id r hr := h.own id r ((h.parsed id).symm.trans hr)
  valid id r hr := h.valid id r ((h.parsed id).symm.trans hr)

/-- **The file is always read as what the journal has in memory.** -/
theorem Consistent.run (hids : ∀ input ∈ inputsOf steps, input.activeSessionId ≠ [] ∧ input.sessionId ≠ []) :
    Consistent F (run F steps) := by
  induction steps using List.reverseRecOn with
  | nil => exact Consistent.fresh
  | append_singleton steps s ih =>
    rw [inputsOf, flatMap_append] at hids
    have hbefore := ih fun input hinput => hids input (mem_append_left _ hinput)
    rw [WorkerRecovery.run, foldl_append]
    cases s with
    | record input io =>
      obtain ⟨hactive, hsession⟩ := hids input (mem_append_right _ (by simp))
      exact hbefore.record hactive hsession io
    | reopen => exact hbefore.reopen

/-! ### The last inputs -/

variable {inputs : List WorkerRecoveryRecordInput}

/-- What the lookups of a map say about its records. -/
theorem current_iff {latest : IndexMap Str WorkerRecoveryRecord}
    (hown : ∀ id r, latest.get? id = some r → r.activeSessionId = id) :
    Current (latest.entries.map Prod.snd) inputs ↔ ∀ id, (latest.get? id).map toInput = lastInput inputs id := by
  have hfilter : ∀ id, ((latest.entries.map Prod.snd).filter fun r => r.activeSessionId = id) =
      (latest.get? id).toList := by
    intro id
    rw [get?, ← Keyed.all_of_nodup latest.nodup, Keyed.all, filter_map]
    congr 1
    refine filter_congr fun e he => ?_
    have hkey := hown e.1 e.2 ((Keyed.first_eq_some_iff_mem latest.nodup).2 he)
    rw [Function.comp_apply, hkey]
  refine forall_congr' fun id => ?_
  rw [hfilter, ← Option.toList_map]
  refine ⟨fun h => ?_, fun h => congrArg Option.toList h⟩
  have hhead := congrArg List.head? h
  rwa [Option.head?_toList, Option.head?_toList] at hhead

omit [LawfulRecoveryHost F] in
theorem Consistent.keepsLatest_iff (h : Consistent F (WorkerRecovery.run F steps)) : KeepsLatest F steps ↔
      ∀ id, ((WorkerRecovery.run F steps).journal.latest.get? id).map toInput = lastInput (inputsOf steps) id := by
  have hown : ∀ id r, (parseRecords F (WorkerRecovery.run F steps).file).get? id = some r →
      r.activeSessionId = id := fun id r hr => h.own id r ((h.parsed id).symm.trans hr)
  rw [KeepsLatest, getLatest, readLatest, current_iff h.own, current_iff hown]
  simp only [h.parsed, and_self]

theorem inputsOf_append (steps : List Step) (s : Step) :
    inputsOf (steps ++ [s]) = inputsOf steps ++ inputsOf [s] := flatMap_append

theorem lastInput_append (inputs : List WorkerRecoveryRecordInput) (input : WorkerRecoveryRecordInput)
    (id : Str) : lastInput (inputs ++ [input]) id =
      if input.activeSessionId = id then some input else lastInput inputs id := by
  rw [lastInput, Latest.latest_append, Latest.latest_cons, Latest.latest_nil, Option.none_or]
  split_ifs <;> rfl

theorem mem_of_lastInput {id : Str}
    (h : lastInput inputs id = some input) : input ∈ inputs := by
  obtain ⟨before, x, after, rfl, hx, -⟩ := Latest.exists_of_latest h
  split_ifs at hx
  cases hx
  exact mem_append_right _ mem_cons_self

theorem mem_inputsOf_of_front {before : List Step} (h : before <+: steps)
    (hinput : input ∈ inputsOf before) : input ∈ inputsOf steps := by
  obtain ⟨after, rfl⟩ := h
  rw [inputsOf, flatMap_append]
  exact mem_append_left _ hinput

section

variable (hids : ∀ input ∈ inputsOf steps, input.activeSessionId ≠ [] ∧ input.sessionId ≠ [])

include hids

/-- A record keeps the last inputs iff it does not rename. -/
theorem keepsLatest_record_iff (hactive : input.activeSessionId ≠ [])
    (hsession : input.sessionId ≠ []) (io : Io) (hkeeps : KeepsLatest F steps) :
    KeepsLatest F (steps ++ [.record input io]) ↔ ¬ Renames (inputsOf steps) input := by
  have hconsistent : Consistent F (WorkerRecovery.run F steps) := Consistent.run hids
  have hrun : WorkerRecovery.run F (steps ++ [.record input io]) =
      WorkerRecovery.record F (WorkerRecovery.run F steps) input io := by
    rw [WorkerRecovery.run, foldl_append]
    rfl
  have hconsistent' : Consistent F (WorkerRecovery.run F (steps ++ [.record input io])) := by
    rw [hrun]
    exact hconsistent.record hactive hsession io
  have hinputs : inputsOf (steps ++ [.record input io]) = inputsOf steps ++ [input] := inputsOf_append _ _
  rw [hconsistent.keepsLatest_iff] at hkeeps
  rw [hconsistent'.keepsLatest_iff, hrun, hinputs]
  simp only [lastInput_append]
  have hlast := hkeeps input.activeSessionId
  rw [WorkerRecovery.record]
  split_ifs with hrepeats
  · -- the input was skipped, so what is kept is the one before it
    obtain ⟨previous, hprevious, hsame⟩ := (Option.any_eq_true ..).1 hrepeats
    rw [hprevious, Option.map_some] at hlast
    have hown := hconsistent.own _ _ hprevious
    simp only [repeats, Bool.and_eq_true, decide_eq_true_eq] at hsame
    obtain ⟨⟨hbusy, hoperation⟩, hfile⟩ := hsame
    constructor
    · rintro hall ⟨previous', hprevious', -, -, -, hne⟩
      have hinput := hall input.activeSessionId
      rw [if_pos rfl, hprevious, Option.map_some, hlast, hprevious'] at hinput
      cases hinput
      exact hne rfl
    · intro hrenames id
      split_ifs with hid
      · subst hid
        rw [hprevious, Option.map_some]
        have hsessionId : previous.sessionId = input.sessionId := by
          by_contra hne
          exact hrenames ⟨toInput previous, hlast.symm, hbusy, hoperation, hfile, hne⟩
        rw [toInput, hown, hsessionId, hfile, hbusy, hoperation]
      · exact hkeeps id
  · -- the input was recorded, and is no repetition of the one before it
    refine iff_of_true (fun id => ?_) ?_
    · dsimp only
      rw [get?_insert]
      have hid : (id = input.activeSessionId) = (input.activeSessionId = id) := propext eq_comm
      dsimp only [newRecord]
      simp only [hid]
      split_ifs
      · rfl
      · exact hkeeps id
    · rintro ⟨previous, hprevious, hbusy, hoperation, hfile, -⟩
      rw [hprevious] at hlast
      obtain ⟨r, hr, rfl⟩ := Option.map_eq_some_iff.1 hlast
      refine hrepeats ((Option.any_eq_true ..).2 ⟨r, hr, ?_⟩)
      simp only [repeats, Bool.and_eq_true, decide_eq_true_eq]
      exact ⟨⟨hbusy, hoperation⟩, hfile⟩

theorem keepsLatest_reopen_iff : KeepsLatest F (steps ++ [.reopen]) ↔ KeepsLatest F steps := by
  have hconsistent : Consistent F (WorkerRecovery.run F steps) := Consistent.run hids
  have hrun : WorkerRecovery.run F (steps ++ [.reopen]) = openJournal F (WorkerRecovery.run F steps).file := by
    rw [WorkerRecovery.run, foldl_append]
    rfl
  have hconsistent' : Consistent F (WorkerRecovery.run F (steps ++ [.reopen])) := by
    rw [hrun]
    exact hconsistent.reopen
  have hinputs : inputsOf (steps ++ [.reopen]) = inputsOf steps := by
    rw [inputsOf_append]
    exact append_nil _
  rw [hconsistent.keepsLatest_iff, hconsistent'.keepsLatest_iff, hrun, hinputs]
  simp only [openJournal, hconsistent.parsed]

end

/-- **The journal keeps the last inputs iff none of them renames.**  In a run whose inputs have ids,
the records in memory and those read from the file are at every moment those of the last inputs, one
for each active session, exactly if no input differs from the one before it for its active session
in the session id alone. -/
theorem keeps_latest_iff (steps : List Step)
    (hids : ∀ input ∈ inputsOf steps, input.activeSessionId ≠ [] ∧ input.sessionId ≠ []) :
    (∀ before, before <+: steps → KeepsLatest F before) ↔
      ∀ before input io, before ++ [.record input io] <+: steps → ¬ Renames (inputsOf before) input := by
  induction steps using List.reverseRecOn with
  | nil =>
    refine iff_of_true (fun before hbefore => ?_) fun before input io hbefore => ?_
    · rw [prefix_nil.1 hbefore, Consistent.fresh.keepsLatest_iff]
      exact fun id => congrArg (Option.map toInput) (get?_fresh id)
    · exact absurd (prefix_nil.1 hbefore) (append_ne_nil_of_right_ne_nil _ (cons_ne_nil _ _))
  | append_singleton steps s ih =>
    have hids' : ∀ input ∈ inputsOf steps, input.activeSessionId ≠ [] ∧ input.sessionId ≠ [] := by
      intro input hinput
      refine hids input ?_
      rw [inputsOf_append]
      exact mem_append_left _ hinput
    have hnew : ∀ input io, s = .record input io → input.activeSessionId ≠ [] ∧ input.sessionId ≠ [] := by
      rintro input io rfl
      refine hids input ?_
      rw [inputsOf_append]
      exact mem_append_right _ mem_cons_self
    have hstart : ∀ {before : List Step}, before <+: steps → before <+: steps ++ [s] := fun h =>
      h.trans (prefix_append _ _)
    constructor
    · intro hall before input io hbefore
      rcases prefix_concat_iff.1 hbefore with heq | hbefore
      · obtain ⟨rfl, hs⟩ := append_inj' heq rfl
        cases hs
        obtain ⟨hactive, hsession⟩ := hnew input io rfl
        exact (keepsLatest_record_iff hids' hactive hsession io (hall _ (hstart prefix_rfl))).1
          (hall _ prefix_rfl)
      · exact (ih hids').1 (fun _ h => hall _ (hstart h)) before input io hbefore
    · intro hall before hbefore
      have hsteps := (ih hids').2 fun _ _ _ h => hall _ _ _ (hstart h)
      rcases prefix_concat_iff.1 hbefore with rfl | hbefore
      · have hkeeps := hsteps steps prefix_rfl
        cases s with
        | record input io =>
          obtain ⟨hactive, hsession⟩ := hnew input io rfl
          exact (keepsLatest_record_iff hids' hactive hsession io hkeeps).2
            (hall steps input io prefix_rfl)
        | reopen => exact (keepsLatest_reopen_iff hids').2 hkeeps
      · exact hsteps before hbefore

def Step.isRecord : Step → Bool
  | .record _ _ => true
  | .reopen => false

omit [LawfulRecoveryHost F] in
/-- What becomes of the lookups depends on the lookups alone, and not on the file. -/
theorem get?_record {s s' : State} (h : ∀ id, s.journal.latest.get? id = s'.journal.latest.get? id) (io : Io)
    (id : Str) : (record F s input io).journal.latest.get? id = (record F s' input io).journal.latest.get? id := by
  rw [record, record, h]
  split_ifs
  · exact h id
  · simp only [get?_insert, h]

/-- **Opening the journal again changes no record**: the records in memory and on the file are those
of the run in which the journal stays open. -/
theorem reopen_transparent
    (hids : ∀ input ∈ inputsOf steps, input.activeSessionId ≠ [] ∧ input.sessionId ≠ []) (id : Str) :
    (run F steps).journal.latest.get? id = (run F (steps.filter Step.isRecord)).journal.latest.get? id ∧
      (parseRecords F (run F steps).file).get? id = (run F steps).journal.latest.get? id := by
  refine ⟨?_, (Consistent.run hids).parsed id⟩
  induction steps using List.reverseRecOn generalizing id with
  | nil => rfl
  | append_singleton steps s ih =>
    rw [inputsOf_append] at hids
    have hbefore := fun input hinput => hids input (mem_append_left _ hinput)
    rw [filter_append, run, run, foldl_append, foldl_append]
    cases s with
    | reopen => exact ((Consistent.run hbefore).parsed id).trans (ih hbefore id)
    | record input io => exact get?_record (ih hbefore) io id

end

/-! ### A session id that changes -/

namespace RecoverySample

noncomputable scoped instance recoveryHost : RecoveryHost Empty where
  jsonStringify := JsonText.print
  fromStr := JsonText.read

scoped instance lawfulRecoveryHost : LawfulRecoveryHost Empty where
  fromStr_jsonStringify v _ := JsonText.read_print v
  newline_notMem := JsonText.newline_notMem_print
  jsonStringify_ne_nil _ := cons_ne_nil _ _

def io : Io := ⟨"2026-01-01T00:00:00.000Z", fun l => l, fun _ => .refl _⟩

/-- A worker that is busy with a prompt. -/
def prompt (sessionId : Str) : WorkerRecoveryRecordInput := ⟨"active", sessionId, none, true, "prompt"⟩

end RecoverySample

open RecoverySample in
/-- The same worker is busy with the same operation in another session: the journal keeps the old
one. -/
theorem renamed_session_skipped :
    (getLatest (run Empty [.record (prompt "first") io, .record (prompt "second") io]).journal).map
      WorkerRecoveryRecord.sessionId = [("first" : Str)] ∧
    ¬ KeepsLatest Empty [.record (prompt "first") io, .record (prompt "second") io] := by
  have hlatest : (getLatest (run Empty [.record (prompt "first") io,
      .record (prompt "second") io]).journal).map WorkerRecoveryRecord.sessionId = [("first" : Str)] := by
    decide
  refine ⟨hlatest, fun h => ?_⟩
  exact absurd (h.1 "active") (by decide)

open RecoverySample in
theorem reopen_transparent_prompt : (run Empty [.record (prompt "first") io, .reopen]).journal.latest.get? "active" =
      (run Empty [.record (prompt "first") io]).journal.latest.get? "active" :=
  (reopen_transparent (F := Empty) (by decide) "active").1

open RecoverySample in
/-- A worker that becomes idle, on a journal that is opened again. -/
theorem keeps_latest_iff_idle : KeepsLatest Empty [.record (prompt "first") io, .reopen,
      .record { prompt "first" with busy := false } io] := by
  refine (keeps_latest_iff _ (by decide)).2 (fun before input io' hbefore => ?_) _ prefix_rfl
  -- every input has the same session id
  rintro ⟨previous, hprevious, -, -, -, hne⟩
  have hsame : ∀ i ∈ inputsOf [.record (prompt "first") io, .reopen,
      .record { prompt "first" with busy := false } io], i.sessionId = "first" := by decide
  have hmem : ∀ i ∈ inputsOf (before ++ [.record input io']), i.sessionId = "first" :=
    fun i hi => hsame i (mem_inputsOf_of_front hbefore hi)
  rw [inputsOf_append] at hmem
  refine hne ((hmem previous ?_).trans (hmem input ?_).symm)
  · exact mem_append_left _ (mem_of_lastInput hprevious)
  · exact mem_append_right _ mem_cons_self

end WorkerRecovery
