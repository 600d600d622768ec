/-
**Event logs with a shared write buffer.**

An event log is a file of JSON lines.  Appended lines wait in a buffer that all instances on a path
share, until a timed flush, a durable append, a full buffer or a reader writes them out.  When such
a write fails, some of the waiting bytes may have landed, so they are dropped rather than written
again, and the error is kept for the appends that follow.  This module embeds the buffered mode of
`core/event_log.rs`.

The kept error is looked at by appends only.  A replay drains the buffer first, and draining an
empty buffer succeeds, so after a failed flush a replay returns the records that are in the file as
if they were all.  An append looks whether the file is there before it takes the lock of the buffer.
If it has found no file, and the file is created and other records are accepted for it before the
lock is taken, these are dropped as if the file had been deleted.

`TimedBytes` of `utils/timed_flush.rs` holds the waiting bytes and their deadline.  The outcome of
each write, the time, the file errors and the JSON printer are parameters.
-/

import Mathlib
import OptimusAgent.LineLog
import OptimusAgent.Checked

/-- Waiting bytes, and the time at which they have to be written. -/
structure TimedBytes where
  bytes : List UInt8
  deadline : Option ℕ
  deriving DecidableEq

namespace TimedBytes

def new : TimedBytes := ⟨[], none⟩

/-- The first waiting byte sets the deadline. -/
def push (timed : TimedBytes) (line : List UInt8) (period now : ℕ) : TimedBytes where
  bytes := timed.bytes ++ line
  deadline := if timed.bytes = [] then some (now + period) else timed.deadline

/-- The deadline has passed. -/
def due (timed : TimedBytes) (now : ℕ) : Bool := timed.deadline.any (· ≤ now)

end TimedBytes

namespace EventLog

open Str LineLog List Option

/-- What the log takes from the libraries, for JSON values `V`. -/
class EventLogHost (V : Type) where
  /-- The JSON text of a value, if it can be printed. -/
  toText : V → Option Str
  /-- The text of bytes, with replacements where they are none. -/
  fromUtf8Lossy : List UInt8 → Str

/-- A JSON text is a line without blanks around it, and the bytes of a text are read back. -/
class LawfulEventLogHost (V : Type) [EventLogHost V] : Prop where
  newline_notMem : ∀ (v : V) (t : Str), EventLogHost.toText v = some t → '\n' ∉ t
  trim_text : ∀ (v : V) (t : Str), EventLogHost.toText v = some t → trim t = t
  text_ne_nil : ∀ (v : V) (t : Str), EventLogHost.toText v = some t → t ≠ []
  fromUtf8Lossy_encode : ∀ s : Str, EventLogHost.fromUtf8Lossy V (Utf8.encode s) = s

/-! ### The shared buffer -/

structure SharedBuffer where
  maxBytes : Option ℕ
  period : ℕ
  timed : TimedBytes
  /-- The file was there at the last accept, or after the last successful drain. -/
  fileWasPresent : Bool
  /-- The error of the first drain that failed. -/
  pendingError : Option Str
  deriving DecidableEq

def eventLogWriteBufferCapBytes : ℕ := 128 * 1024

/-- The file of a path, and the buffer that its instances share once one of them has appended. -/
structure Log where
  path : Str
  file : Option (List UInt8)
  buffer : Option SharedBuffer
  deriving DecidableEq

def SharedBuffer.new (maxBytes : Option ℕ) (period : ℕ) : SharedBuffer := ⟨maxBytes, period, .new, false, none⟩

/-- The outcome of writing the waiting bytes. -/
inductive Outcome where
  | done
  /-- Nothing was written; the file may have been created. -/
  | failsBefore (created : Bool) (error : Str)
  /-- Some first bytes, or all of them, have landed. -/
  | failsAfter (landed : ℕ) (error : Str)

def exceeds (max : Option ℕ) (size : ℕ) : Bool := max.any (· < size)

def tooLarge (path : Str) (max : Option ℕ) (size : ℕ) : Str :=
  "event log " ++ path ++ " exceeds " ++ dec (max.getD 0) ++ " bytes (" ++ dec size ++ "); refusing to read"

/-- Cuts off an unterminated last line. -/
def repairTornTail (bytes : List UInt8) : List UInt8 := bytes.rdropWhile (· ≠ newline)

/-- The file after the waiting bytes were written, with a torn line cut off first. -/
def writePending (path : Str) (maxBytes : Option ℕ) (file : Option (List UInt8))
    (bytes : List UInt8) (outcome : Outcome) : Option (List UInt8) × Except Str Unit :=
  let present := file.getD []
  match outcome with
  | .failsBefore created error => (if created then some present else file, .error error)
  | .failsAfter landed error =>
    if exceeds maxBytes present.length then
      (some present, .error (tooLarge path maxBytes present.length))
    else (some (repairTornTail present ++ bytes.take landed), .error error)
  | .done =>
    if exceeds maxBytes present.length then
      (some present, .error (tooLarge path maxBytes present.length))
    else (some (repairTornTail present ++ bytes), .ok ())

def drainLocked (path : Str) (file : Option (List UInt8)) (buffer : SharedBuffer)
    (outcome : Outcome) : Option (List UInt8) × SharedBuffer × Except Str Unit :=
  if buffer.timed.bytes = [] then (file, buffer, .ok ())
  else
    match writePending path buffer.maxBytes file buffer.timed.bytes outcome with
    | (file, .ok _) => (file, { buffer with timed := .new, fileWasPresent := true }, .ok ())
    | (file, .error error) =>
      (file, { buffer with timed := .new, fileWasPresent := false, pendingError := some error }, .error error)

/-- Drains the buffer of the path, if there is one: `flush_sync`. -/
def drainShared (log : Log) (outcome : Outcome) : Log × Except Str Unit :=
  match log.buffer with
  | none => (log, .ok ())
  | some buffer =>
    match drainLocked log.path log.file buffer outcome with
    | (file, buffer, result) => ({ log with file := file, buffer := some buffer }, result)

/-- The background flusher. -/
def pollFlush (log : Log) (now : ℕ) (outcome : Outcome) : Log :=
  match log.buffer with
  | none => log
  | some buffer => if buffer.timed.due now then (drainShared log outcome).1 else log

/-! ### Appending -/

section

variable {V : Type} [EventLogHost V]

def serializeLine (event : V) : Except Str (List UInt8) :=
  match EventLogHost.toText event with
  | some text => .ok (lineBytes text)
  | none => .error "event is not JSON-serializable"

structure AppendCall (V : Type) where
  events : List V
  durable : Bool
  /-- The records that lead a file that the append creates. -/
  onCreate : Option (List V)
  /-- The bound and the period of the buffer, if it is created. -/
  maxBytes : Option ℕ
  period : ℕ

/-- What an append takes from its surroundings. -/
structure AppendIo where
  now : ℕ
  /-- The error of creating the directory. -/
  dirError : Option Str
  outcome : Outcome

/-- Bytes that were accepted for a file are dropped if the file is missing. -/
def dropOrphans (missing : Bool) (buffer : SharedBuffer) : SharedBuffer :=
  if missing ∧ buffer.timed.bytes ≠ [] ∧ buffer.fileWasPresent then
    { buffer with timed := .new, fileWasPresent := false }
  else buffer

/-- The records that lead the file, if this append creates it. -/
def leadRecords (missing : Bool) (buffer : SharedBuffer) (call : AppendCall V) : List V :=
  if missing ∧ buffer.timed.bytes = [] then call.onCreate.getD [] else []

/-- An append under the lock of the buffer, with what its look at the file has found, up to its
drain. -/
def acceptAppend (log : Log) (missing : Bool) (lines : List (List UInt8)) (call : AppendCall V) (now : ℕ) :
    Log × Except Str Unit :=
  let buffer := log.buffer.getD (.new call.maxBytes call.period)
  match buffer.pendingError with
  | some error => ({ log with buffer := some buffer }, .error error)
  | none =>
    let buffer := dropOrphans missing buffer
    match (leadRecords missing buffer call).mapM serializeLine with
    | .error error => ({ log with buffer := some buffer }, .error error)
    | .ok leadLines =>
      ({ log with buffer := some { buffer with
          fileWasPresent := !missing
          timed := buffer.timed.push (leadLines.flatten ++ lines.flatten) buffer.period now } },
        .ok ())

/-- The waiting bytes of the path. -/
def Log.pending (log : Log) : List UInt8 := (log.buffer.map fun b => b.timed.bytes).getD []

/-- The bytes that wait were accepted while a file was there. -/
def Log.wasPresent (log : Log) : Bool := log.buffer.any (·.fileWasPresent)

/-- A buffered append after its look at the file. -/
def bufferedAppend (log : Log) (missing : Bool) (lines : List (List UInt8)) (call : AppendCall V)
    (io : AppendIo) : Log × Except Str Unit :=
  -- The directory is created for a missing file only.
  match if missing then io.dirError else none with
  | some error =>
    ({ log with buffer := some (log.buffer.getD (.new call.maxBytes call.period)) }, .error error)
  | none =>
    match acceptAppend log missing lines call io.now with
    | (log, .error error) => (log, .error error)
    | (log, .ok _) =>
      if call.durable ∨ log.pending.length ≥ eventLogWriteBufferCapBytes then
        drainShared log io.outcome
      else (log, .ok ())

def append (log : Log) (missing : Bool) (call : AppendCall V) (io : AppendIo) : Log × Except Str Unit :=
  match call.events.mapM serializeLine with
  | .error error => (log, .error error)
  | .ok lines => bufferedAppend log missing lines call io

/-- The records that an append accepts. -/
def recordsOf (log : Log) (missing : Bool) (call : AppendCall V) : List V :=
  leadRecords missing (dropOrphans missing (log.buffer.getD (.new call.maxBytes call.period))) call ++
    call.events

end

/-! ### Replaying -/

structure ReplayOptions where
  maxBytes : Option ℕ
  maxRecords : Option ℕ
  missingFileThrows : Bool

/-- What a replay takes from its surroundings. -/
structure ReplayIo where
  /-- The error for a missing file. -/
  notFound : Str
  /-- The error of opening or reading a file that is there. -/
  readError : Option Str
  outcome : Outcome

def tooManyRecords (path : Str) (max : Option ℕ) : Str :=
  "event log " ++ path ++ " exceeds " ++ dec (max.getD 0) ++ " records; refusing to read"

/-- The events of the lines from an index on; a last line without its newline is ignored. -/
def replayLines {E : Type} (path : Str) (maxRecords : Option ℕ)
    (parse : Str → ℕ → Except Str (Option E)) (lineCount : ℕ) (endsWithNewline : Bool) :
    ℕ → ℕ → List Str → Except Str (List E)
  | _, _, [] => .ok []
  | index, count, rawLine :: rest =>
    let line := trim rawLine
    if line = [] then
      replayLines path maxRecords parse lineCount endsWithNewline (index + 1) count rest
    else if index = lineCount - 1 ∧ endsWithNewline = false then
      replayLines path maxRecords parse lineCount endsWithNewline (index + 1) count rest
    else
      let count := if maxRecords.isSome then count + 1 else count
      if exceeds maxRecords count then .error (tooManyRecords path maxRecords)
      else
        match parse line index with
        | .error error => .error error
        | .ok none => replayLines path maxRecords parse lineCount endsWithNewline (index + 1) count rest
        | .ok (some event) =>
          (replayLines path maxRecords parse lineCount endsWithNewline (index + 1) count rest).map (event :: ·)

def readEvents {E : Type} (path : Str) (maxRecords : Option ℕ)
    (parse : Str → ℕ → Except Str (Option E)) (contents : Str) : Except Str (List E) :=
  let rawLines := contents.splitOn '\n'
  replayLines path maxRecords parse rawLines.length (contents.getLast? = some '\n') 0 0 rawLines

variable (V : Type) [EventLogHost V] in
/-- What a replay reads, after the buffer was drained. -/
def replayed {E : Type} (log : Log) (parse : Str → ℕ → Except Str (Option E))
    (options : ReplayOptions) (io : ReplayIo) : Except Str (List E) :=
  match log.file with
  | none => if options.missingFileThrows then .error io.notFound else .ok []
  | some bytes =>
    match io.readError with
    | some error => .error error
    | none =>
      if exceeds options.maxBytes bytes.length then
        .error (tooLarge log.path options.maxBytes bytes.length)
      else readEvents log.path options.maxRecords parse (EventLogHost.fromUtf8Lossy V bytes)

variable (V : Type) [EventLogHost V] in
def replay {E : Type} (log : Log) (parse : Str → ℕ → Except Str (Option E))
    (options : ReplayOptions) (io : ReplayIo) : Log × Except Str (List E) :=
  match drainShared log io.outcome with
  | (log, .error error) => (log, .error error)
  | (log, .ok _) => (log, replayed V log parse options io)

/-! ### Runs -/

inductive Step (V : Type) where
  /-- An append of a task looks whether the file is there. -/
  | look (task : ℕ)
  /-- The rest of that append. -/
  | append (task : ℕ) (call : AppendCall V) (io : AppendIo)
  | poll (now : ℕ) (outcome : Outcome)
  | flush (outcome : Outcome)
  /-- A replay changes the log as its drain does. -/
  | replay (io : ReplayIo)

/-- A log, what the appends that are under way have found, and the records of those that returned
`Ok`, in the order of their acceptance. -/
structure System (V : Type) where
  log : Log
  /-- The file was missing. -/
  looks : ℕ → Option Bool
  accepted : List V

section

variable {V : Type} [EventLogHost V]

def step (sys : System V) : Step V → System V
  | .look task => { sys with looks := Function.update sys.looks task (some sys.log.file.isNone) }
  | .append task call io =>
    match sys.looks task with
    | none => sys
    | some missing =>
      match append sys.log missing call io with
      | (log, .ok _) => ⟨log, Function.update sys.looks task none, sys.accepted ++ recordsOf sys.log missing call⟩
      | (log, .error _) => ⟨log, Function.update sys.looks task none, sys.accepted⟩
  | .poll now outcome => { sys with log := pollFlush sys.log now outcome }
  | .flush outcome => { sys with log := (drainShared sys.log outcome).1 }
  | .replay io => { sys with log := (drainShared sys.log io.outcome).1 }

def run (sys : System V) (steps : List (Step V)) : System V := steps.foldl step sys

/-- A path without a file. -/
def System.fresh (path : Str) : System V := ⟨⟨path, none, none⟩, fun _ => none, []⟩

omit [EventLogHost V] in
/-- An append that has found no file takes the lock when records wait that were accepted for the
file: it was overtaken by the append that created it. -/
def Step.overtaken (sys : System V) : Step V → Bool
  | .append task _ _ => sys.looks task = some true && sys.log.pending ≠ [] && sys.log.wasPresent
  | _ => false

/-- No append of the run was overtaken. -/
def orderly : System V → List (Step V) → Bool
  | _, [] => true
  | sys, st :: steps => !st.overtaken sys && orderly (step sys st) steps

/-- The kept error of the buffer. -/
def Log.pendingError (log : Log) : Option Str := log.buffer.bind SharedBuffer.pendingError

/-! ### A log of truth values -/

def boolText (b : Bool) : Str := if b then "true" else "false"

instance boolHost : EventLogHost Bool where
  toText b := some (boolText b)
  fromUtf8Lossy bytes := (Utf8.decode bytes).getD []

instance lawfulBoolHost : LawfulEventLogHost Bool where
  newline_notMem v t h := by
    cases h
    cases v <;> decide
  trim_text v t h := by
    cases h
    cases v <;> decide
  text_ne_nil v t h := by
    cases h
    cases v <;> decide
  fromUtf8Lossy_encode s := congrArg (Option.getD · []) (Utf8.decode_encoded s)

/-- An append of one record, which waits for a flush. -/
def appendOf (task : ℕ) (record : Bool) : Step Bool :=
  .append task ⟨[record], false, none, none, 250⟩ ⟨0, none, .done⟩

def waiting : List (Step Bool) := [.look 0, appendOf 0 true]

/-! ### What a drain does -/

/-- The outcomes of a drain. -/
inductive Drained (log : Log) : Log → Except Str Unit → Prop where
  | nothing (h : log.pending = []) : Drained log log (.ok ())
  | written (buffer : SharedBuffer) (hbuffer : log.buffer = some buffer) :
      Drained log { log with
        file := some (repairTornTail (log.file.getD []) ++ buffer.timed.bytes)
        buffer := some { buffer with timed := .new, fileWasPresent := true } } (.ok ())
  | failed (file : Option (List UInt8)) (buffer : SharedBuffer) (error : Str)
      (herror : buffer.pendingError = some error) :
      Drained log { log with file := file, buffer := some buffer } (.error error)

theorem drained_drainShared (log : Log) (outcome : Outcome) :
    Drained log (drainShared log outcome).1 (drainShared log outcome).2 := by
  rw [drainShared]
  cases hbuffer : log.buffer with
  | none => exact .nothing (by rw [Log.pending, hbuffer]; rfl)
  | some buffer =>
    simp only [drainLocked]
    split_ifs with hempty
    · have hsame : { log with file := log.file, buffer := some buffer } = log := by rw [← hbuffer]
      rw [hsame]
      exact .nothing (by rw [Log.pending, hbuffer]; exact hempty)
    · cases outcome with
      | done =>
        simp only [writePending]
        split_ifs
        · exact .failed _ _ _ rfl
        · exact .written buffer hbuffer
      | failsBefore created error => exact .failed _ _ _ rfl
      | failsAfter landed error =>
        simp only [writePending]
        split_ifs <;> exact .failed _ _ _ rfl

variable {log log' : Log} {looks : ℕ → Option Bool} {result : Except Str Unit} {accepted : List V}
  {missing : Bool} {call : AppendCall V} {sys : System V}

/-- A kept error stays. -/
theorem Drained.pendingError (h : Drained log log' result)
    (herror : log.pendingError ≠ none) : log'.pendingError ≠ none := by
  cases h with
  | nothing h => exact herror
  | written buffer hbuffer =>
    rw [Log.pendingError, hbuffer] at herror
    exact herror
  | failed file buffer error hfailed =>
    rw [Log.pendingError, bind_some, hfailed]
    exact some_ne_none _

/-- A drain that succeeds leaves nothing waiting. -/
theorem Drained.ok (h : Drained log log' (.ok ())) : log'.pending = [] ∧ log'.pendingError = log.pendingError := by
  cases h with
  | nothing h => exact ⟨h, rfl⟩
  | written buffer hbuffer => exact ⟨rfl, by rw [Log.pendingError, Log.pendingError, hbuffer]; rfl⟩

/-- A drain that fails keeps its error. -/
theorem Drained.error {error : Str} (h : Drained log log' (.error error)) : log'.pendingError ≠ none := by
  cases h with
  | failed file buffer error hfailed =>
    rw [Log.pendingError, bind_some, hfailed]
    exact some_ne_none _

/-! ### The file and the waiting bytes are the accepted records -/

def textOf (v : V) : Str := (EventLogHost.toText v).getD []

def lineOf (v : V) : List UInt8 := lineBytes (textOf v)

structure Faithful (sys : System V) : Prop where
  printed : ∀ v ∈ sys.accepted, (EventLogHost.toText v).isSome = true
  content : sys.log.file.getD [] ++ sys.log.pending = sys.accepted.flatMap lineOf
  complete : Complete (sys.log.file.getD [])
  present : ∀ buffer, sys.log.buffer = some buffer → buffer.fileWasPresent = true → sys.log.file ≠ none
  looks : ∀ task, sys.looks task = some false → sys.log.file ≠ none

theorem repairTornTail_of_complete {bytes : List UInt8} (h : Complete bytes) : repairTornTail bytes = bytes := by
  rcases h with rfl | hlast
  · rfl
  · obtain ⟨init, rfl⟩ := List.getLast?_eq_some_iff.1 hlast
    rw [repairTornTail, rdropWhile_concat_neg]
    simp

theorem complete_flatMap_lineOf (vs : List V) : Complete (vs.flatMap lineOf) := by
  rcases eq_nil_or_concat vs with rfl | ⟨init, v, rfl⟩
  · exact .inl rfl
  · rw [concat_eq_append, flatMap_append, flatMap_singleton]
    exact complete_append_lineBytes _ _

theorem Faithful.drained (h : Faithful ⟨log, looks, accepted⟩) (hdrained : Drained log log' result)
    (hok : log'.pendingError = none) : Faithful ⟨log', looks, accepted⟩ := by
  cases hdrained with
  | nothing _ => exact h
  | failed file buffer error herror =>
    rw [Log.pendingError, bind_some, herror] at hok
    cases hok
  | written buffer hbuffer =>
    have hcontent := h.content
    simp only [Log.pending, hbuffer, map_some, getD_some] at hcontent
    have hfile : repairTornTail (log.file.getD []) ++ buffer.timed.bytes = accepted.flatMap lineOf := by
      rw [repairTornTail_of_complete h.complete, hcontent]
    refine ⟨h.printed, ?_, ?_, fun _ _ _ => some_ne_none _, fun _ _ => some_ne_none _⟩
    · simp only [Log.pending, map_some, getD_some, hfile]
      exact append_nil _
    · simp only [getD_some, hfile]
      exact complete_flatMap_lineOf accepted

/-! ### What an append does -/

theorem of_mapM_serializeLine {vs : List V} {lines : List (List UInt8)}
    (h : vs.mapM serializeLine = .ok lines) :
    (∀ v ∈ vs, (EventLogHost.toText v).isSome = true) ∧ lines.flatten = vs.flatMap lineOf := by
  rw [Checked.mapM_eq_ok_iff] at h
  induction h with
  | nil => exact ⟨by simp, rfl⟩
  | @cons v line vs lines hline _ ih =>
    rw [serializeLine] at hline
    cases htext : EventLogHost.toText v with
    | none =>
      rw [htext] at hline
      cases hline
    | some text =>
      rw [htext] at hline
      cases hline
      refine ⟨forall_mem_cons.2 ⟨by rw [htext]; rfl, ih.1⟩, ?_⟩
      rw [flatten_cons, flatMap_cons, ih.2, lineOf, textOf, htext]
      rfl

/-- The log with the bytes of some records waiting. -/
def pushed (log : Log) (missing : Bool) (buffer : SharedBuffer) (payload : List UInt8) (now : ℕ) : Log :=
  { log with buffer := some { buffer with
      fileWasPresent := !missing
      timed := buffer.timed.push payload buffer.period now } }

/-- The outcomes of an append: it is refused, or its records wait and may be drained. -/
inductive Appended (log : Log) (missing : Bool) (call : AppendCall V) (now : ℕ) :
    Log → Except Str Unit → Prop where
  | unprintable (error : Str) : Appended log missing call now log (.error error)
  | refused (error : Str) : Appended log missing call now
        { log with buffer := some (log.buffer.getD (.new call.maxBytes call.period)) } (.error error)
  | unprintableLead (error : Str) (hok : log.pendingError = none) :
      Appended log missing call now { log with buffer := some (dropOrphans missing
        (log.buffer.getD (.new call.maxBytes call.period))) } (.error error)
  | accepted (payload : List UInt8) (hok : log.pendingError = none)
      (hprinted : ∀ v ∈ recordsOf log missing call, (EventLogHost.toText v).isSome = true)
      (hpayload : payload = (recordsOf log missing call).flatMap lineOf) {log' : Log}
      {result : Except Str Unit}
      (hdrained : Drained (pushed log missing (dropOrphans missing
        (log.buffer.getD (.new call.maxBytes call.period))) payload now) log' result ∨
          (log' = pushed log missing (dropOrphans missing
            (log.buffer.getD (.new call.maxBytes call.period))) payload now ∧ result = .ok ())) :
      Appended log missing call now log' result

theorem pendingError_getD (log : Log) (maxBytes : Option ℕ) (period : ℕ) :
    (log.buffer.getD (.new maxBytes period)).pendingError = log.pendingError := by
  rw [Log.pendingError]
  cases log.buffer <;> rfl

theorem appended_append (log : Log) (missing : Bool) (call : AppendCall V) (io : AppendIo) :
    Appended log missing call io.now (append log missing call io).1 (append log missing call io).2 := by
  rw [append]
  cases hlines : call.events.mapM serializeLine with
  | error error => exact .unprintable error
  | ok lines =>
    obtain ⟨hevents, hlines⟩ := of_mapM_serializeLine hlines
    simp only [bufferedAppend]
    cases if missing then io.dirError else none with
    | some error => exact .refused error
    | none =>
      simp only [acceptAppend]
      rw [pendingError_getD]
      cases hpending : log.pendingError with
      | some error => exact .refused error
      | none =>
        simp only
        cases hlead : (leadRecords missing (dropOrphans missing (log.buffer.getD
            (.new call.maxBytes call.period))) call).mapM serializeLine with
        | error error => exact .unprintableLead error hpending
        | ok leadLines =>
          obtain ⟨hleads, hleadLines⟩ := of_mapM_serializeLine hlead
          have hprinted : ∀ v ∈ recordsOf log missing call, (EventLogHost.toText v).isSome = true :=
            forall_mem_append.2 ⟨hleads, hevents⟩
          have hpayload : leadLines.flatten ++ lines.flatten =
              (recordsOf log missing call).flatMap lineOf := by
            rw [hleadLines, hlines, recordsOf, flatMap_append]
          refine .accepted _ hpending hprinted hpayload ?_
          simp only
          split_ifs
          · exact .inl (drained_drainShared _ _)
          · exact .inr ⟨rfl, rfl⟩

/-- A kept error stays, and an append is refused because of it. -/
theorem Appended.pendingError {now : ℕ} (h : Appended log missing call now log' result)
    (herror : log.pendingError ≠ none) : log'.pendingError ≠ none ∧ ∃ error, result = .error error := by
  cases h with
  | unprintable error => exact ⟨herror, error, rfl⟩
  | refused error =>
    refine ⟨?_, error, rfl⟩
    rw [Log.pendingError, bind_some, pendingError_getD]
    exact herror
  | unprintableLead error hok | accepted _ hok => exact absurd hok herror

section

variable (h : Faithful ⟨log, looks, accepted⟩)

include h

theorem Faithful.setBuffer (maxBytes : Option ℕ) (period : ℕ) :
    Faithful ⟨{ log with buffer := some (log.buffer.getD (.new maxBytes period)) }, looks, accepted⟩ := by
  cases hbuffer : log.buffer with
  | some buffer =>
    have hsame : { log with buffer := some ((some buffer).getD (.new maxBytes period)) } = log := by
      rw [getD_some, ← hbuffer]
    rw [hsame]
    exact h
  | none =>
    have hcontent := h.content
    simp only [Log.pending, hbuffer, map_none, getD_none] at hcontent
    refine ⟨h.printed, hcontent, h.complete, fun buffer hb hpresent => ?_, h.looks⟩
    cases hb
    cases hpresent

omit h in
theorem Faithful.pushed {buffer : SharedBuffer} {records : List V}
    (h : Faithful ⟨{ log with buffer := some buffer }, looks, accepted⟩)
    (hmissing : missing = false → log.file ≠ none)
    (hprinted : ∀ v ∈ records, (EventLogHost.toText v).isSome = true) (now : ℕ) :
    Faithful ⟨EventLog.pushed log missing buffer (records.flatMap lineOf) now, looks,
      accepted ++ records⟩ := by
  refine ⟨forall_mem_append.2 ⟨h.printed, hprinted⟩, ?_, h.complete, fun b hb hpresent => ?_, h.looks⟩
  · have hcontent := h.content
    simp only [Log.pending, map_some, getD_some] at hcontent
    simp only [EventLog.pushed, Log.pending, map_some, getD_some, TimedBytes.push]
    rw [← append_assoc, hcontent, flatMap_append]
  · cases hb
    exact hmissing (by simpa using hpresent)

omit [EventLogHost V] h in
/-- An append that was not overtaken takes nothing for orphaned. -/
theorem dropOrphans_of_not_overtaken (maxBytes : Option ℕ) (period : ℕ)
    (hlost : ¬ (missing = true ∧ log.pending ≠ [] ∧ log.wasPresent = true)) :
    EventLog.dropOrphans missing (log.buffer.getD (.new maxBytes period)) =
      log.buffer.getD (.new maxBytes period) := by
  rw [EventLog.dropOrphans, if_neg]
  rintro ⟨hmissing, hwaiting, hpresent⟩
  cases hbuffer : log.buffer with
  | none =>
    rw [hbuffer] at hwaiting
    exact hwaiting rfl
  | some buffer =>
    rw [hbuffer] at hwaiting hpresent
    exact hlost ⟨hmissing, by rwa [Log.pending, hbuffer], by rwa [Log.wasPresent, hbuffer]⟩

variable (hlost : ¬ (missing = true ∧ log.pending ≠ [] ∧ log.wasPresent = true))

include hlost

theorem Faithful.appended_error {now : ℕ}
    {error : Str} (happended : Appended log missing call now log' (.error error))
    (hok : log'.pendingError = none) : Faithful ⟨log', looks, accepted⟩ := by
  cases happended with
  | unprintable => exact h
  | refused => exact h.setBuffer call.maxBytes call.period
  | unprintableLead =>
    rw [dropOrphans_of_not_overtaken _ _ hlost]
    exact h.setBuffer call.maxBytes call.period
  | accepted payload _ _ _ hdrained =>
    rcases hdrained with hdrained | ⟨-, hresult⟩
    · exact absurd hok hdrained.error
    · cases hresult

theorem Faithful.appended_ok {now : ℕ} (hmissing : missing = false → log.file ≠ none)
    (happended : Appended log missing call now log' (.ok ()))
    (hok : log'.pendingError = none) : Faithful ⟨log', looks, accepted ++ recordsOf log missing call⟩ := by
  cases happended with
  | accepted payload _ hprinted hpayload hdrained =>
    rw [dropOrphans_of_not_overtaken _ _ hlost, hpayload] at hdrained
    have hpushed := (h.setBuffer call.maxBytes call.period).pushed hmissing hprinted now
    rcases hdrained with hdrained | ⟨rfl, -⟩
    · exact hpushed.drained hdrained hok
    · exact hpushed

end

/-- What is said of a log stays true when an append begins or ends. -/
theorem Faithful.setLook (h : Faithful sys) (task : ℕ) {look : Option Bool}
    (hlook : look = some false → sys.log.file ≠ none) :
    Faithful { sys with looks := Function.update sys.looks task look } := by
  refine ⟨h.printed, h.content, h.complete, h.present, fun other hother => ?_⟩
  by_cases hsame : other = task
  · subst hsame
    exact hlook (by simpa using hother)
  · exact h.looks other (by simpa [hsame] using hother)

theorem pollFlush_cases (log : Log) (now : ℕ) (outcome : Outcome) :
    pollFlush log now outcome = log ∨ pollFlush log now outcome = (drainShared log outcome).1 := by
  rw [pollFlush]
  cases log.buffer with
  | none => exact .inl rfl
  | some buffer =>
    simp only
    split_ifs
    · exact .inr rfl
    · exact .inl rfl

/-- **The file and the waiting bytes are the accepted records**, until a write fails or an append is
overtaken. -/
theorem Faithful.step (h : Faithful sys) {st : Step V} (hlost : st.overtaken sys = false)
    (hok : (step sys st).log.pendingError = none) : Faithful (step sys st) := by
  cases st with
  | look task => exact h.setLook task fun hlook hnone => by simp [hnone] at hlook
  | append task call io =>
    simp only [EventLog.step] at hok ⊢
    cases hlook : sys.looks task with
    | none => exact h
    | some missing =>
      have hkept : ¬ (missing = true ∧ sys.log.pending ≠ [] ∧ sys.log.wasPresent = true) := by
        rintro ⟨rfl, hwaiting, hpresent⟩
        simp [Step.overtaken, hlook, hwaiting, hpresent] at hlost
      have happended := appended_append sys.log missing call io
      rw [hlook] at hok
      simp only at hok ⊢
      have hended : Faithful { sys with looks := Function.update sys.looks task none } := h.setLook task nofun
      generalize append sys.log missing call io = outcome at happended hok ⊢
      obtain ⟨log', result⟩ := outcome
      cases result with
      | error error => exact hended.appended_error hkept happended hok
      | ok _ =>
        refine hended.appended_ok hkept (fun hmissing => ?_) happended hok
        exact h.looks task (hmissing ▸ hlook)
  | poll now outcome =>
    simp only [EventLog.step] at hok ⊢
    rcases pollFlush_cases sys.log now outcome with hsame | hdrain
    · rw [hsame]
      exact h
    · rw [hdrain] at hok ⊢
      exact h.drained (drained_drainShared sys.log outcome) hok
  | flush outcome => exact h.drained (drained_drainShared sys.log outcome) hok
  | replay io => exact h.drained (drained_drainShared sys.log io.outcome) hok

/-- A kept error stays. -/
theorem pendingError_step (h : sys.log.pendingError ≠ none) (st : Step V) :
    (step sys st).log.pendingError ≠ none := by
  cases st with
  | look task => exact h
  | append task call io =>
    simp only [step]
    cases sys.looks task with
    | none => exact h
    | some missing =>
      have happended := (appended_append sys.log missing call io).pendingError h
      simp only
      generalize append sys.log missing call io = outcome at happended ⊢
      obtain ⟨log', result⟩ := outcome
      cases result <;> exact happended.1
  | poll now outcome =>
    simp only [step]
    rcases pollFlush_cases sys.log now outcome with hsame | hdrain
    · rw [hsame]
      exact h
    · rw [hdrain]
      exact (drained_drainShared sys.log outcome).pendingError h
  | flush outcome => exact (drained_drainShared sys.log outcome).pendingError h
  | replay io => exact (drained_drainShared sys.log io.outcome).pendingError h

theorem pendingError_run (h : sys.log.pendingError ≠ none) (steps : List (Step V)) :
    (run sys steps).log.pendingError ≠ none := by
  induction steps generalizing sys with
  | nil => exact h
  | cons st steps ih => exact ih (pendingError_step h st)

theorem Faithful.run (h : Faithful sys) {steps : List (Step V)} (horderly : orderly sys steps = true)
    (hok : (run sys steps).log.pendingError = none) : Faithful (run sys steps) := by
  induction steps generalizing sys with
  | nil => exact h
  | cons st steps ih =>
    obtain ⟨hlost, hrest⟩ := Bool.and_eq_true_iff.1 horderly
    have hstep : (EventLog.step sys st).log.pendingError = none := by
      by_contra herror
      exact pendingError_run herror steps hok
    exact ih (h.step (by simpa using hlost) hstep) hrest hok

/-! ### Reading the records back -/

/-- The parser returns the value that a line was printed for. -/
def Accepting (parse : Str → ℕ → Except Str (Option V)) : Prop :=
  ∀ (v : V) (text : Str) (index : ℕ), EventLogHost.toText v = some text → parse text index = .ok (some v)

/-- The parser makes of the line of each of some values what is made of the value. -/
def Reads {E : Type} (parse : Str → ℕ → Except Str (Option E)) (g : V → Option E) (vs : List V) : Prop :=
  ∀ v ∈ vs, ∀ (text : Str) (index : ℕ), EventLogHost.toText v = some text → parse text index = .ok (g v)

variable {parse : Str → ℕ → Except Str (Option V)}

theorem Accepting.reads (h : Accepting parse) (vs : List V) :
    Reads parse some vs := fun v _ text index htext => h v text index htext

section

variable [LawfulEventLogHost V]

omit [LawfulEventLogHost V] in
/-- One more record is too many, or the rest of them decides. -/
theorem exceeds_counted {max : Option ℕ} {count rest : ℕ}
    (h : exceeds max (if max.isSome then count + 1 else count) = true) :
    exceeds max (count + (rest + 1)) = true := by
  cases max with
  | none => cases h
  | some m =>
    simp only [exceeds, isSome_some, if_true, any_some, decide_eq_true_eq] at h ⊢
    omega

omit [LawfulEventLogHost V] in
theorem exceeds_counted_add (max : Option ℕ) (count rest : ℕ) :
    exceeds max ((if max.isSome then count + 1 else count) + rest) = exceeds max (count + (rest + 1)) := by
  cases max with
  | none => rfl
  | some m =>
    rw [isSome_some, if_pos rfl]
    congr 1
    omega

variable {vs : List V}

/-- The lines of records are read as the records, unless they are too many; what follows the last
newline is ignored. -/
theorem replayLines_texts {E : Type} {path : Str} {maxRecords : Option ℕ}
    {parse : Str → ℕ → Except Str (Option E)} {g : V → Option E} {lineCount : ℕ} {ends : Bool}
    (hparse : Reads parse g vs)
    (hprinted : ∀ v ∈ vs, (EventLogHost.toText v).isSome = true) {last : Str}
    (hlast : trim last = [] ∨ ends = false) {i count : ℕ} (hindex : i + vs.length + 1 = lineCount)
    (hcount : exceeds maxRecords count = false) :
    replayLines path maxRecords parse lineCount ends i count (vs.map textOf ++ [last]) =
      if exceeds maxRecords (count + vs.length) = true then .error (tooManyRecords path maxRecords)
      else .ok (vs.filterMap g) := by
  induction vs generalizing i count with
  | nil =>
    have hskip : trim last = [] ∨ (i = lineCount - 1 ∧ ends = false) :=
      hlast.imp_right fun hends => ⟨by rw [length_nil] at hindex; omega, hends⟩
    rw [map_nil, nil_append, replayLines, length_nil, Nat.add_zero count, hcount, filterMap_nil]
    rcases hskip with hblank | htorn
    · simp only [hblank, if_true, replayLines, Bool.false_eq_true, if_false]
    · simp only [htorn, and_self, if_true, replayLines, Bool.false_eq_true, if_false, ite_self]
  | cons v vs ih =>
    rw [forall_mem_cons] at hprinted
    obtain ⟨text, htext⟩ := isSome_iff_exists.1 hprinted.1
    have hline : textOf v = text := by rw [textOf, htext, getD_some]
    have hne : text ≠ [] := LawfulEventLogHost.text_ne_nil v text htext
    rw [length_cons] at hindex ⊢
    have hinner : ¬ (i = lineCount - 1 ∧ ends = false) := fun h => by omega
    rw [map_cons, cons_append, hline, replayLines]
    simp only [LawfulEventLogHost.trim_text v text htext, hne, if_false, hinner, hparse v mem_cons_self text _ htext]
    by_cases hmany : exceeds maxRecords (if maxRecords.isSome then count + 1 else count) = true
    · rw [if_pos hmany, if_pos (exceeds_counted hmany)]
    · have hrest := ih (fun w hw => hparse w (mem_cons_of_mem v hw)) hprinted.2
        (i := i + 1) (by omega) (by simpa using hmany)
      rw [if_neg hmany, hrest, exceeds_counted_add]
      cases hread : g v with
      | none => rw [filterMap_cons_none hread]
      | some event =>
        rw [filterMap_cons_some hread]
        split_ifs <;> rfl

/-- A text of the lines of records, and of a line without its newline. -/
theorem readEvents_lines {E : Type} (path : Str) (maxRecords : Option ℕ)
    {parse : Str → ℕ → Except Str (Option E)} {g : V → Option E}
    (hparse : Reads parse g vs) (hprinted : ∀ v ∈ vs, (EventLogHost.toText v).isSome = true)
    {last : Str} (hlast : '\n' ∉ last) :
    readEvents path maxRecords parse (((vs.map textOf).flatMap fun l => l ++ ['\n']) ++ last) =
      if exceeds maxRecords vs.length = true then .error (tooManyRecords path maxRecords)
      else .ok (vs.filterMap g) := by
  have hlines : ∀ l ∈ vs.map textOf, '\n' ∉ l := by
    intro l hl
    obtain ⟨v, hv, rfl⟩ := mem_map.1 hl
    obtain ⟨text, htext⟩ := isSome_iff_exists.1 (hprinted v hv)
    rw [textOf, htext, getD_some]
    exact LawfulEventLogHost.newline_notMem v text htext
  have hends : trim last = [] ∨ decide ((((vs.map textOf).flatMap fun l => l ++ ['\n']) ++
      last).getLast? = some '\n') = false := by
    rcases eq_nil_or_concat last with rfl | ⟨init, c, rfl⟩
    · exact .inl rfl
    · refine .inr (decide_eq_false fun h => hlast ?_)
      rw [concat_eq_append, ← append_assoc, List.getLast?_concat, Option.some.injEq] at h
      simp [h]
  have hzero : exceeds maxRecords 0 = false := by
    cases maxRecords with
    | none => rfl
    | some m => simp [exceeds]
  rw [readEvents]
  simp only [splitOn_lines_append hlines hlast]
  rw [replayLines_texts hparse hprinted hends (by simp) hzero, Nat.zero_add]

section

omit [LawfulEventLogHost V]

theorem flatMap_lineOf (vs : List V) :
    vs.flatMap lineOf = Utf8.encode ((vs.map textOf).flatMap fun l => l ++ ['\n']) := by
  rw [← flatMap_lineBytes, flatMap_map]
  rfl

theorem eq_nil_of_flatMap_lineOf (h : vs.flatMap lineOf = []) : vs = [] := by
  cases vs with
  | nil => rfl
  | cons v vs =>
    rw [flatMap_cons, lineOf, lineBytes_eq] at h
    simp at h

end

end

end

end EventLog
