/-
**The store of scheduled jobs.**

A jobs file holds jobs and open dispatch records.  `claim_due` advances every job that is due and
opens a record for it, unless it has one.  A record is closed by its result or by the recovery after
a crash.  These calls read and write a file under its lock.  `create`, `cancel` and the older result
calls read the jobs first and then write a changed copy of all of them; the write merges that copy
with the file by the time of the last update.

A store has one jobs file, or one for each registered session.  A call that writes several files may
stop after some of them: a crash or a failed write.

Times are integer milliseconds.  The cron expressions of the local time zone, the texts of schedules
and random identifiers come from outside.
-/

import OptimusAgent.FreshMerge
import OptimusAgent.Text

namespace Cron

/-! ### Jobs and dispatch records -/

inductive JobStatus where
  | active
  | paused
  | completed
  | cancelled
  deriving DecidableEq, Repr

/-- A schedule; a file with an interval that is not positive is not read. -/
inductive AgentCronSchedule where
  | once (expression : Str)
  | cron (expression : Str)
  | interval (expression : Str) (intervalMs : ℤ) (pos : 0 < intervalMs)
  deriving DecidableEq, Repr

/-- A job, without the fields that are only copied. -/
structure AgentCronJob where
  id : Str
  status : JobStatus
  sessionId : Str
  prompt : Str
  schedule : AgentCronSchedule
  updatedAt : ℤ
  nextRunAt : Option ℤ
  lastRunAt : Option ℤ
  lastSkippedAt : Option ℤ
  lastError : Option Str
  runCount : ℕ
  deriving DecidableEq, Repr

structure AgentCronDispatchRecord where
  id : Str
  jobId : Str
  claimedAt : ℤ
  scheduledFor : Option ℤ
  deriving DecidableEq, Repr

/-- A claimed job, as it is handed out. -/
structure AgentCronDispatch where
  id : Str
  job : AgentCronJob
  deriving DecidableEq, Repr

structure CronJobsState where
  jobs : List AgentCronJob
  dispatches : List AgentCronDispatchRecord
  deriving DecidableEq, Repr

inductive RunResult where
  | ran
  | skipped
  deriving DecidableEq, Repr

/-- What the store is given from outside. -/
class CronHost where
  /-- The next minute after a time that matches an expression in the local time zone. -/
  nextCronRunAfter : Str → ℤ → Option ℤ
  /-- A schedule and its first run, read from a text at a time. -/
  parseAgentCronSchedule : Str → ℤ → Except Str (AgentCronSchedule × ℤ)
  /-- The identifiers drawn one after the other. -/
  randomUuid : ℕ → Str
  randomUuid_injective : Function.Injective randomUuid

def AgentCronSchedule.isOnce : AgentCronSchedule → Bool
  | .once _ => true
  | _ => false

/-- `isDueJob`. -/
def isDueJob (job : AgentCronJob) (now : ℤ) : Bool :=
  job.status = .active && (job.nextRunAt.map fun next => decide (next ≤ now)).getD false

section

variable [CronHost]

def nextRunAtForSchedule (schedule : AgentCronSchedule) (after : ℤ) : Option ℤ :=
  match schedule with
  | .once _ => none
  | .interval _ intervalMs _ => some (after + intervalMs)
  | .cron expression => CronHost.nextCronRunAfter expression after

/-! ### One job -/

def cancelJob (id : Str) (now : ℤ) (job : AgentCronJob) : Option AgentCronJob :=
  if job.id ≠ id ∨ job.status = .cancelled then none
  else some { job with status := .cancelled, nextRunAt := none, updatedAt := now }

def recordRunJob (id : Str) (now : ℤ) (error : Option Str) (job : AgentCronJob) : Option AgentCronJob :=
  if job.id ≠ id then none
  else if job.status ≠ .active then some job
  else some { job with
    status := if job.schedule.isOnce then .completed else .active
    nextRunAt :=
      match job.schedule with
      | .cron _ => nextRunAtForSchedule job.schedule (now + 1)
      | .interval _ _ _ => nextRunAtForSchedule job.schedule now
      | .once _ => none
    lastRunAt := some now
    lastError := error
    runCount := job.runCount + 1
    updatedAt := now }

def recordSkipJob (id : Str) (now : ℤ) (job : AgentCronJob) : Option AgentCronJob :=
  if job.id ≠ id then none
  else if job.status ≠ .active then some job
  else some { job with
    nextRunAt := nextRunAtForSchedule job.schedule now
    lastSkippedAt := some now
    updatedAt := now }

/-- A one-shot job is done when its dispatch is. -/
def settledStatus (job : AgentCronJob) : JobStatus :=
  if job.schedule.isOnce then .completed else job.status

def settleJob (jobId : Str) (now : ℤ) (outcome : RunResult) (error : Option Str) (job : AgentCronJob) :
    Option AgentCronJob :=
  if job.id ≠ jobId ∨ job.status ≠ .active then none
  else if outcome = .skipped ∧ error = none then
    some { job with
      status := settledStatus job
      nextRunAt := nextRunAtForSchedule job.schedule now
      lastSkippedAt := some now
      updatedAt := now }
  else
    some { job with
      status := settledStatus job
      lastRunAt := some now
      lastError := error
      runCount := job.runCount + 1
      updatedAt := now }

def recoverJob (interrupted : List Str) (now : ℤ) (job : AgentCronJob) : Option AgentCronJob :=
  if job.id ∉ interrupted ∨ job.status ≠ .active then none
  else some { job with
    status := settledStatus job
    lastError := some "Interrupted before scheduled operation completion"
    updatedAt := now }

/-- All jobs, with the changed ones in their places. -/
def changeJobs (change : AgentCronJob → Option AgentCronJob) (jobs : List AgentCronJob) :
    List AgentCronJob := jobs.map fun job => (change job).getD job

/-- The job that the source keeps as `updated`: the last changed one. -/
def lastChanged (change : AgentCronJob → Option AgentCronJob) (jobs : List AgentCronJob) :
    Option AgentCronJob := (jobs.filterMap change).getLast?

/-! ### One file under its lock -/

/-- What a locked change leaves: the content of the file, what is handed out, and how many
identifiers have been drawn. -/
structure Mutated where
  state : CronJobsState
  dispatches : List AgentCronDispatch
  used : ℕ

/-- A due job, advanced to its next run. -/
def advanceJob (claimedAt : ℤ) (job : AgentCronJob) : AgentCronJob :=
  { job with nextRunAt := nextRunAtForSchedule job.schedule claimedAt, updatedAt := claimedAt }

/-- The jobs, new records and dispatches of a claim. -/
structure ClaimedJobs where
  jobs : List AgentCronJob
  records : List AgentCronDispatchRecord
  dispatches : List AgentCronDispatch
  used : ℕ

def claimJobs (claimedJobIds : List Str) (dueAt claimedAt : ℤ) : ℕ → List AgentCronJob → ClaimedJobs
  | used, [] => ⟨[], [], [], used⟩
  | used, job :: jobs =>
    if ¬ isDueJob job dueAt then
      let rest := claimJobs claimedJobIds dueAt claimedAt used jobs
      { rest with jobs := job :: rest.jobs }
    else if job.id ∈ claimedJobIds then
      let rest := claimJobs claimedJobIds dueAt claimedAt used jobs
      { rest with jobs := { advanceJob claimedAt job with lastSkippedAt := some claimedAt } :: rest.jobs }
    else
      let rest := claimJobs claimedJobIds dueAt claimedAt (used + 1) jobs
      let dispatchId := CronHost.randomUuid used
      { jobs := advanceJob claimedAt job :: rest.jobs
        records := ⟨dispatchId, job.id, claimedAt, job.nextRunAt⟩ :: rest.records
        dispatches := ⟨dispatchId, advanceJob claimedAt job⟩ :: rest.dispatches
        used := rest.used }

def claimDueInState (dueAt claimedAt : ℤ) (used : ℕ) (state : CronJobsState) : Mutated :=
  let claimed := claimJobs (state.dispatches.map (·.jobId)) dueAt claimedAt used state.jobs
  ⟨⟨claimed.jobs, state.dispatches ++ claimed.records⟩, claimed.dispatches, claimed.used⟩

/-- The mutator of `record_dispatch_result`. -/
def recordDispatchInState (dispatchId : Str) (now : ℤ) (outcome : RunResult) (error : Option Str)
    (state : CronJobsState) : CronJobsState :=
  match state.dispatches.find? fun candidate => candidate.id = dispatchId with
  | none => state
  | some dispatch =>
    ⟨changeJobs (settleJob dispatch.jobId now outcome error) state.jobs,
      state.dispatches.filter fun candidate => candidate.id ≠ dispatchId⟩

/-- What `record_dispatch_result` sees as updated in a file. -/
def recordDispatchUpdated (dispatchId : Str) (now : ℤ) (outcome : RunResult) (error : Option Str)
    (state : CronJobsState) : Option AgentCronJob := do
  let dispatch ← state.dispatches.find? fun candidate => candidate.id = dispatchId
  lastChanged (settleJob dispatch.jobId now outcome error) state.jobs

/-- The records that a recovery is about: those with the given identifiers, or all. -/
def isInterrupted (dispatchIds : Option (List Str)) (dispatch : AgentCronDispatchRecord) : Bool :=
  (dispatchIds.map fun ids => decide (dispatch.id ∈ ids)).getD true

def interruptedJobIds (dispatchIds : Option (List Str)) (state : CronJobsState) : List Str :=
  (state.dispatches.filter (isInterrupted dispatchIds)).map (·.jobId)

def recoverInterruptedInState (dispatchIds : Option (List Str)) (now : ℤ) (state : CronJobsState) : CronJobsState :=
  if interruptedJobIds dispatchIds state = [] then state
  else
    ⟨changeJobs (recoverJob (interruptedJobIds dispatchIds state) now) state.jobs,
      state.dispatches.filter fun dispatch => !isInterrupted dispatchIds dispatch⟩

/-- The jobs that a recovery reports. -/
def recovered (dispatchIds : Option (List Str)) (now : ℤ) (state : CronJobsState) : List AgentCronJob :=
  state.jobs.filterMap (recoverJob (interruptedJobIds dispatchIds state) now)

end

/-! ### The merging write -/

/-- `isAtLeastAsFresh`. -/
def isAtLeastAsFresh (candidate current : AgentCronJob) : Bool := current.updatedAt ≤ candidate.updatedAt

def mergeFreshJobs (currentJobs nextJobs : List AgentCronJob) : List AgentCronJob :=
  FreshMerge.merge AgentCronJob.id isAtLeastAsFresh currentJobs nextJobs

/-- `write_jobs_file` with `merge_current`. -/
def writeJobsFile (jobs : List AgentCronJob) (current : CronJobsState) : CronJobsState :=
  ⟨mergeFreshJobs current.jobs jobs, current.dispatches⟩

/-- A store: its one jobs file, or a jobs file for each registered session. -/
structure Store where
  sessionArtifactMode : Bool
  files : List (Str × CronJobsState)
  deriving DecidableEq, Repr

/-- The jobs of one session after a write. -/
def mergedJobs (jobs : List AgentCronJob) (sessionId : Str) (current : CronJobsState) : List AgentCronJob :=
  mergeFreshJobs
    (current.jobs.filter fun job =>
      ((jobs.find? fun incoming => incoming.id = job.id).map fun incoming =>
        decide (incoming.sessionId = sessionId)).getD true)
    (jobs.filter fun job => job.sessionId = sessionId)

/-- The last session that has a job. -/
def sessionOfJob (merged : List (Str × List AgentCronJob)) (jobId : Str) : Option Str :=
  (merged.reverse.find? fun session => session.2.any fun job => job.id = jobId).map Prod.fst

/-- The session files after a write: the dispatch records follow their jobs. -/
def writeArtifacts (jobs : List AgentCronJob) (files : List (Str × CronJobsState)) : List (Str × CronJobsState) :=
  let merged := files.map fun file => (file.1, mergedJobs jobs file.1 file.2)
  let dispatches := files.flatMap fun file => file.2.dispatches
  merged.map fun session =>
    (session.1, ⟨session.2, dispatches.filter fun dispatch => sessionOfJob merged dispatch.jobId = some session.1⟩)

/-- The files after a call that writes them one after the other and stops after some of them. -/
def written (stop : Option ℕ) (files files' : List (Str × CronJobsState)) : List (Str × CronJobsState) :=
  match stop with
  | none => files'
  | some count => files'.take count ++ files.drop count

namespace Store

def readJobs (store : Store) : List AgentCronJob := store.files.flatMap fun file => file.2.jobs

def writeJobs (store : Store) (stop : Option ℕ) (jobs : List AgentCronJob) : Store :=
  if store.sessionArtifactMode then
    -- The source panics if a job belongs to a session that is not registered.
    if jobs.all fun job => job.sessionId ∈ store.files.map Prod.fst then
      { store with files := written stop store.files (writeArtifacts jobs store.files) }
    else store
  else
    { store with
      files := written stop store.files (store.files.map fun file => (file.1, writeJobsFile jobs file.2)) }

end Store

/-- A locked change of all files, one after the other. -/
def mutateFiles (mutator : ℕ → CronJobsState → Mutated) :
    ℕ → List (Str × CronJobsState) → List (Str × CronJobsState) × List AgentCronDispatch × ℕ
  | used, [] => ([], [], used)
  | used, file :: files =>
    let mutated := mutator used file.2
    let rest := mutateFiles mutator mutated.used files
    ((file.1, mutated.state) :: rest.1, mutated.dispatches ++ rest.2.1, rest.2.2)

/-! ### The calls -/

/-- A store, and how many random identifiers have been drawn. -/
structure World where
  store : Store
  used : ℕ

structure CreateAgentCronJobInput where
  sessionId : Str
  prompt : Str
  scheduleText : Str
  now : ℤ

namespace World

/-- `mutate_states`: nothing is handed out if the call stops on the way. -/
def mutateStates (w : World) (stop : Option ℕ) (mutator : ℕ → CronJobsState → Mutated) :
    World × List AgentCronDispatch :=
  let result := mutateFiles mutator w.used w.store.files
  (⟨{ w.store with files := written stop w.store.files result.1 }, result.2.2⟩,
    if stop = none then result.2.1 else [])

/-- A change of the jobs that is not made under the lock: read, then write if a job is updated. -/
def updateJobs (w : World) (stop : Option ℕ) (change : AgentCronJob → Option AgentCronJob) :
    World × Option AgentCronJob :=
  let jobs := w.store.readJobs
  let updated := lastChanged change jobs
  (if updated.isSome then { w with store := w.store.writeJobs stop (changeJobs change jobs) } else w, updated)

variable [CronHost]

/-- The job that `create` adds. -/
def newJob (w : World) (input : CreateAgentCronJobInput) : Except Str AgentCronJob :=
  if Str.trim input.prompt = [] then .error "Cron job prompt cannot be empty"
  else do
    let (schedule, nextRunAt) ← CronHost.parseAgentCronSchedule input.scheduleText input.now
    return {
      id := CronHost.randomUuid w.used
      status := .active
      sessionId := input.sessionId
      prompt := Str.trim input.prompt
      schedule := schedule
      updatedAt := input.now
      nextRunAt := some nextRunAt
      lastRunAt := none
      lastSkippedAt := none
      lastError := none
      runCount := 0 }

def create (w : World) (stop : Option ℕ) (input : CreateAgentCronJobInput) : World × Except Str AgentCronJob :=
  match w.newJob input with
  | .error error => (w, .error error)
  | .ok job => (⟨w.store.writeJobs stop (w.store.readJobs ++ [job]), w.used + 1⟩, .ok job)

def claimDue (w : World) (stop : Option ℕ) (dueAt claimedAt : ℤ) : World × List AgentCronDispatch :=
  w.mutateStates stop (claimDueInState dueAt claimedAt)

def recordDispatchResult (w : World) (stop : Option ℕ) (dispatchId : Str) (now : ℤ) (outcome : RunResult)
    (error : Option Str) : World × Option AgentCronJob :=
  ((w.mutateStates stop fun used state =>
      ⟨recordDispatchInState dispatchId now outcome error state, [], used⟩).1,
    (w.store.files.filterMap fun file => recordDispatchUpdated dispatchId now outcome error file.2).getLast?)

def recoverInterruptedDispatches (w : World) (stop : Option ℕ) (now : ℤ) : World × List AgentCronJob :=
  ((w.mutateStates stop fun used state => ⟨recoverInterruptedInState none now state, [], used⟩).1,
    w.store.files.flatMap fun file => recovered none now file.2)

def cancel (w : World) (stop : Option ℕ) (id : Str) (now : ℤ) : World × Option AgentCronJob :=
  w.updateJobs stop (cancelJob id now)

end World

end Cron
