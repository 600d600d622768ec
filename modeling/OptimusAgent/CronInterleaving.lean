/-
**Interleaved calls on one jobs file.**

`cancel`, `record_run_result` and `record_skip_result` read the jobs, change their copy and write it
later; the write holds the lock and merges, job by job, by the time of the last update.  `claim_due`
and `record_dispatch_result` read and write under the lock.  Here the read and the write of a call
are two steps, and any number of processes take steps in any order.

A copy that was read before a cancellation was written still has the job active.  If its time is not
older, its write makes the job active again; and a cancellation that is older than what is in the
file is lost.
-/

import OptimusAgent.CronJobs

namespace Cron

open List Function FreshMerge

/-! ### Processes on one file -/

/-- The calls that do not hold the lock between their read and their write. -/
inductive UnlockedCall where
  | cancel (id : Str) (now : ℤ)
  | recordRunResult (id : Str) (now : ℤ) (error : Option Str)
  | recordSkipResult (id : Str) (now : ℤ)

/-- The jobs that a process will write, and the job that it cancels. -/
structure Pending where
  jobs : List AgentCronJob
  cancels : Option Str

/-- The file and the pending writes of the processes.  `cancelWritten` lists the jobs whose
cancellation has been written; no process reads it. -/
structure Shared (ι : Type) where
  file : CronJobsState
  pending : ι → Option Pending
  used : ℕ
  cancelWritten : List Str

/-- A step of a process.  A process gives up its write if it crashes or if the write fails. -/
inductive Act (ι : Type) where
  | read (p : ι) (call : UnlockedCall)
  | write (p : ι)
  | giveUp (p : ι)
  | claimDue (dueAt claimedAt : ℤ)
  | recordDispatchResult (dispatchId : Str) (now : ℤ) (outcome : RunResult) (error : Option Str)

/-- The time that a step stamps the jobs with. -/
def Act.stamp {ι : Type} : Act ι → Option ℤ
  | .read _ (.cancel _ now) => some now
  | .read _ (.recordRunResult _ now _) => some now
  | .read _ (.recordSkipResult _ now) => some now
  | .claimDue _ claimedAt => some claimedAt
  | .recordDispatchResult _ now _ _ => some now
  | .write _ => none
  | .giveUp _ => none

section

variable [CronHost]

def UnlockedCall.change : UnlockedCall → AgentCronJob → Option AgentCronJob
  | .cancel id now => cancelJob id now
  | .recordRunResult id now error => recordRunJob id now error
  | .recordSkipResult id now => recordSkipJob id now

def UnlockedCall.cancels : UnlockedCall → Option Str
  | .cancel id _ => some id
  | _ => none

variable {ι : Type} [DecidableEq ι]

namespace Shared

/-- A read: nothing is left to write if no job is updated. -/
def read (s : Shared ι) (p : ι) (call : UnlockedCall) : Shared ι :=
  match s.pending p with
  | some _ => s
  | none =>
    if (lastChanged call.change s.file.jobs).isSome then
      { s with
        pending := update s.pending p
          (some ⟨changeJobs call.change s.file.jobs, call.cancels⟩) }
    else s

/-- A locked write of what a process has read and changed. -/
def write (s : Shared ι) (p : ι) : Shared ι :=
  match s.pending p with
  | none => s
  | some w =>
    { s with
      file := writeJobsFile w.jobs s.file
      pending := update s.pending p none
      cancelWritten := w.cancels.toList ++ s.cancelWritten }

def step (s : Shared ι) : Act ι → Shared ι
  | .read p call => s.read p call
  | .write p => s.write p
  | .giveUp p => { s with pending := update s.pending p none }
  | .claimDue dueAt claimedAt =>
    let mutated := claimDueInState dueAt claimedAt s.used s.file
    { s with file := mutated.state, used := mutated.used }
  | .recordDispatchResult dispatchId now outcome error =>
    { s with file := recordDispatchInState dispatchId now outcome error s.file }

def run (s : Shared ι) (acts : List (Act ι)) : Shared ι := acts.foldl step s

end Shared

/-- A file, with no write pending and no cancellation written. -/
def Shared.start (file : CronJobsState) : Shared ι := ⟨file, fun _ => none, 0, []⟩

/-! ### Timely writes -/

/-- A write is timely if the copies it brings of jobs that are cancelled in the file are cancelled
too or older, and the job that it cancels is cancelled in the file or not newer there. -/
def Timely (s : Shared ι) : Act ι → Prop
  | .write p => ∀ w, s.pending p = some w → ∀ incoming ∈ w.jobs, ∀ current ∈ s.file.jobs,
      incoming.id = current.id → (current.status = .cancelled → incoming.status ≠ .cancelled →
          incoming.updatedAt < current.updatedAt) ∧
        (current.status ≠ .cancelled → w.cancels = some incoming.id → current.updatedAt ≤ incoming.updatedAt)
  | _ => True

/-- Every write of a run is timely. -/
def AllTimely (s : Shared ι) : List (Act ι) → Prop
  | [] => True
  | act :: acts => Timely s act ∧ AllTimely (s.step act) acts

/-! ### What a step keeps -/

/-- A job at a later time keeps its identifier, and stays cancelled. -/
def KeepsCancelled (job job' : AgentCronJob) : Prop :=
  job'.id = job.id ∧ (job.status = .cancelled → job'.status = .cancelled)

omit [CronHost] in
theorem KeepsCancelled.refl (job : AgentCronJob) : KeepsCancelled job job := ⟨rfl, fun h => h⟩

omit [CronHost] in
theorem keepsCancelled_of_active {job job' : AgentCronJob} (hid : job'.id = job.id)
    (hactive : job.status = .active) : KeepsCancelled job job' := by
  refine ⟨hid, fun hcancelled => ?_⟩
  rw [hactive] at hcancelled
  cases hcancelled

theorem keepsCancelled_change (call : UnlockedCall) (job : AgentCronJob) :
    KeepsCancelled job ((call.change job).getD job) := by
  cases call with
  | cancel id now =>
    rw [UnlockedCall.change, cancelJob]
    split_ifs
    · exact .refl job
    · exact ⟨rfl, fun _ => rfl⟩
  | recordRunResult id now error =>
    rw [UnlockedCall.change, recordRunJob]
    by_cases hactive : job.status = .active
    · split_ifs
      · exact .refl job
      · exact .refl job
      · exact keepsCancelled_of_active rfl hactive
      · exact keepsCancelled_of_active rfl hactive
    · simp only [ne_eq, hactive, not_false_eq_true, if_true]
      split_ifs <;> exact .refl job
  | recordSkipResult id now =>
    rw [UnlockedCall.change, recordSkipJob]
    split_ifs
    · exact .refl job
    · exact .refl job
    · exact ⟨rfl, fun hcancelled => hcancelled⟩

theorem keepsCancelled_settleJob (jobId : Str) (now : ℤ) (outcome : RunResult) (error : Option Str)
    (job : AgentCronJob) : KeepsCancelled job ((settleJob jobId now outcome error job).getD job) := by
  rw [settleJob]
  split_ifs with hidle
  · exact .refl job
  · exact keepsCancelled_of_active rfl (by tauto)
  · exact keepsCancelled_of_active rfl (by tauto)

theorem keepsCancelled_claimJobs (claimedJobIds : List Str) (dueAt claimedAt : ℤ) (used : ℕ)
    (jobs : List AgentCronJob) :
    Forall₂ KeepsCancelled jobs (claimJobs claimedJobIds dueAt claimedAt used jobs).jobs := by
  induction jobs generalizing used with
  | nil => exact .nil
  | cons job jobs ih =>
    rw [claimJobs]
    split_ifs with hdue hclaimed
    · exact .cons ⟨rfl, fun h => h⟩ (ih used)
    · exact .cons ⟨rfl, fun h => h⟩ (ih (used + 1))
    · exact .cons (.refl job) (ih used)

/-- The jobs of a file at a later time. -/
def JobsKept (jobs jobs' : List AgentCronJob) : Prop := Forall₂ KeepsCancelled jobs jobs'

omit [CronHost] in
theorem JobsKept.map_id {jobs jobs' : List AgentCronJob} (h : JobsKept jobs jobs') :
    jobs'.map (·.id) = jobs.map (·.id) := by
  induction h with
  | nil => rfl
  | cons hjob _ ih => rw [map_cons, map_cons, hjob.1, ih]

/-- A job is in the file and cancelled. -/
def IsCancelled (jobs : List AgentCronJob) (id : Str) : Prop :=
  ∃ job, lookup AgentCronJob.id id jobs = some job ∧ job.status = .cancelled

omit [CronHost] in
theorem IsCancelled.kept {jobs jobs' : List AgentCronJob} {id : Str} (h : IsCancelled jobs id)
    (hkept : JobsKept jobs jobs') : IsCancelled jobs' id := by
  obtain ⟨job, hlookup, hstatus⟩ := h
  induction hkept with
  | nil => cases hlookup
  | @cons a a' l l' ha _ ih =>
    by_cases hid : a.id = id
    · rw [FreshMerge.lookup, find?_cons_of_pos (by simpa using hid)] at hlookup
      cases hlookup
      refine ⟨a', find?_cons_of_pos ?_, ha.2 hstatus⟩
      simpa using ha.1.trans hid
    · rw [FreshMerge.lookup, find?_cons_of_neg (by simpa using hid)] at hlookup
      obtain ⟨job', hjob', hstatus'⟩ := ih hlookup
      refine ⟨job', ?_, hstatus'⟩
      rw [FreshMerge.lookup, find?_cons_of_neg (by simpa using ha.1.trans_ne hid)]
      exact hjob'

theorem jobsKept_changeJobs (call : UnlockedCall) (jobs : List AgentCronJob) :
    JobsKept jobs (changeJobs call.change jobs) :=
  forall₂_map_right_iff.2 (forall₂_same.2 fun job _ => keepsCancelled_change call job)

theorem jobsKept_recordDispatchInState (dispatchId : Str) (now : ℤ) (outcome : RunResult)
    (error : Option Str) (file : CronJobsState) :
    JobsKept file.jobs (recordDispatchInState dispatchId now outcome error file).jobs := by
  rw [recordDispatchInState]
  split
  · exact forall₂_same.2 fun job _ => .refl job
  · exact forall₂_map_right_iff.2
      (forall₂_same.2 fun job _ => keepsCancelled_settleJob _ now outcome error job)

section

variable {current incoming : List AgentCronJob} (hcurrent : (current.map (·.id)).Nodup)
  (hincoming : (incoming.map (·.id)).Nodup) {id : Str}

include hcurrent hincoming

omit [CronHost] in
theorem lookup_mergeFreshJobs : lookup AgentCronJob.id id (mergeFreshJobs current incoming) =
    (lookup AgentCronJob.id id incoming).elim (lookup AgentCronJob.id id current)
      fun job => some (challenged isAtLeastAsFresh job (lookup AgentCronJob.id id current)) :=
  lookup_merge hcurrent hincoming id

omit [CronHost] in
/-- A job that is cancelled in the file stays so if the incoming copy is cancelled or older. -/
theorem IsCancelled.merge_current (h : IsCancelled current id)
    (holder : ∀ job ∈ incoming, ∀ job' ∈ current, job.id = id → job'.id = id → job'.status = .cancelled →
      job.status ≠ .cancelled → job.updatedAt < job'.updatedAt) :
    IsCancelled (mergeFreshJobs current incoming) id := by
  obtain ⟨job', hjob', hstatus⟩ := h
  obtain ⟨hmem', hid'⟩ := (lookup_eq_some_iff hcurrent).1 hjob'
  rw [IsCancelled, lookup_mergeFreshJobs hcurrent hincoming, hjob']
  cases hjob : lookup AgentCronJob.id id incoming with
  | none => exact ⟨job', rfl, hstatus⟩
  | some job =>
    obtain ⟨hmem, hid⟩ := (lookup_eq_some_iff hincoming).1 hjob
    refine ⟨_, rfl, ?_⟩
    rw [challenged]
    split_ifs with hfresh
    · by_contra hne
      have hlt := holder job hmem job' hmem' hid hid' hstatus hne
      rw [isAtLeastAsFresh, decide_eq_true_iff] at hfresh
      exact absurd hfresh (not_le.2 hlt)
    · exact hstatus

omit [CronHost] in
/-- A job that is cancelled in what is written becomes so if it is cancelled in the file or not
newer there. -/
theorem IsCancelled.merge_incoming (h : IsCancelled incoming id)
    (hnewer : ∀ job ∈ incoming, ∀ job' ∈ current, job.id = id → job'.id = id → job'.status ≠ .cancelled →
      job'.updatedAt ≤ job.updatedAt) :
    IsCancelled (mergeFreshJobs current incoming) id := by
  obtain ⟨job, hjob, hstatus⟩ := h
  obtain ⟨hmem, hid⟩ := (lookup_eq_some_iff hincoming).1 hjob
  rw [IsCancelled, lookup_mergeFreshJobs hcurrent hincoming, hjob]
  refine ⟨_, rfl, ?_⟩
  cases hjob' : lookup AgentCronJob.id id current with
  | none => exact hstatus
  | some job' =>
    obtain ⟨hmem', hid'⟩ := (lookup_eq_some_iff hcurrent).1 hjob'
    rw [challenged]
    split_ifs with hfresh
    · exact hstatus
    · by_contra hne
      exact hfresh (decide_eq_true (hnewer job hmem job' hmem' hid hid' hne))

end

/-- What holds of the file and the pending writes in every run. -/
structure Shared.Holds (s : Shared ι) : Prop where
  nodup : (s.file.jobs.map (·.id)).Nodup
  pending : ∀ p w, s.pending p = some w → (w.jobs.map (·.id)).Nodup ∧ ∀ id, w.cancels = some id → IsCancelled w.jobs id
  cancelled : ∀ id ∈ s.cancelWritten, IsCancelled s.file.jobs id

namespace Shared

variable {s : Shared ι}

omit [CronHost] [DecidableEq ι] in
/-- A change of single jobs in the file keeps what holds. -/
theorem Holds.kept (h : s.Holds) {file' : CronJobsState} (hkept : JobsKept s.file.jobs file'.jobs)
    (used' : ℕ) : Holds { s with file := file', used := used' } :=
  ⟨hkept.map_id.symm ▸ h.nodup, h.pending, fun id hid => (h.cancelled id hid).kept hkept⟩

omit [CronHost] in
/-- Forgetting a pending write keeps what holds. -/
theorem Holds.forget (h : s.Holds) (p : ι) : ∀ q w, update s.pending p none q = some w → (w.jobs.map (·.id)).Nodup ∧
      ∀ id, w.cancels = some id → IsCancelled w.jobs id := by
  intro q w hw
  by_cases hq : q = p
  · rw [hq, update_self] at hw
    cases hw
  · rw [update_of_ne hq] at hw
    exact h.pending q w hw

/-- What a process has read and changed has the cancelled job cancelled. -/
theorem isCancelled_changeJobs {jobs : List AgentCronJob} (hnodup : (jobs.map (·.id)).Nodup)
    {call : UnlockedCall} {id : Str} (hcancels : call.cancels = some id)
    (hchanged : (lastChanged call.change jobs).isSome = true) :
    IsCancelled (changeJobs call.change jobs) id := by
  cases call with
  | recordRunResult id' now error | recordSkipResult id' now => cases hcancels
  | cancel id' now =>
    cases hcancels
    rw [lastChanged, getLast?_isSome] at hchanged
    obtain ⟨job', hjob'⟩ := exists_mem_of_ne_nil _ hchanged
    obtain ⟨job, hjob, hchange⟩ := mem_filterMap.1 hjob'
    have hmem : job' ∈ changeJobs (UnlockedCall.cancel id now).change jobs :=
      mem_map.2 ⟨job, hjob, by rw [hchange, Option.getD_some]⟩
    rw [UnlockedCall.change, cancelJob] at hchange
    split_ifs at hchange with hother
    rw [not_or, not_not] at hother
    cases hchange
    refine ⟨_, (lookup_eq_some_iff ?_).2 ⟨hmem, hother.1⟩, rfl⟩
    exact (jobsKept_changeJobs (.cancel id now) jobs).map_id.symm ▸ hnodup

theorem Holds.read (h : s.Holds) (p : ι) (call : UnlockedCall) : (s.read p call).Holds := by
  rw [Shared.read]
  split
  · exact h
  · split_ifs with hchanged
    · refine ⟨h.nodup, fun q w hw => ?_, h.cancelled⟩
      by_cases hq : q = p
      · rw [hq] at hw
        dsimp only at hw
        rw [update_self] at hw
        cases hw
        refine ⟨(jobsKept_changeJobs call s.file.jobs).map_id.symm ▸ h.nodup, fun id hcancels => ?_⟩
        exact isCancelled_changeJobs h.nodup hcancels hchanged
      · dsimp only at hw
        rw [update_of_ne hq] at hw
        exact h.pending q w hw
    · exact h

omit [CronHost] in
/-- **A timely write keeps the cancelled jobs, and cancels.** -/
theorem Holds.write (h : s.Holds) (p : ι) (htimely : Timely s (.write p)) : (s.write p).Holds := by
  rw [Shared.write]
  split
  · exact h
  · next w hw =>
    obtain ⟨hwNodup, hwCancels⟩ := h.pending p w hw
    refine ⟨nodup_merge h.nodup _, h.forget p, fun id hid => ?_⟩
    obtain hid | hid := mem_append.1 hid
    · have hcancels : w.cancels = some id := by simpa using hid
      refine (hwCancels id hcancels).merge_incoming h.nodup hwNodup fun job hjob job' hjob' hid hid' hne => ?_
      exact (htimely w hw job hjob job' hjob' (hid.trans hid'.symm)).2 hne (hid ▸ hcancels)
    · refine (h.cancelled id hid).merge_current h.nodup hwNodup fun job hjob job' hjob' hid hid' => ?_
      exact (htimely w hw job hjob job' hjob' (hid.trans hid'.symm)).1

/-- **One timely step keeps what holds.** -/
theorem Holds.step (h : s.Holds) {act : Act ι} (htimely : Timely s act) : (s.step act).Holds := by
  cases act with
  | read p call => exact h.read p call
  | write p => exact h.write p htimely
  | giveUp p => exact ⟨h.nodup, h.forget p, h.cancelled⟩
  | claimDue dueAt claimedAt =>
    have hkept : JobsKept s.file.jobs (claimDueInState dueAt claimedAt s.used s.file).state.jobs :=
      keepsCancelled_claimJobs _ dueAt claimedAt s.used s.file.jobs
    exact h.kept hkept _
  | recordDispatchResult dispatchId now outcome error =>
    exact h.kept (jobsKept_recordDispatchInState dispatchId now outcome error s.file) s.used

theorem Holds.run (h : s.Holds) {acts : List (Act ι)} (htimely : AllTimely s acts) : (s.run acts).Holds := by
  induction acts generalizing s with
  | nil => exact h
  | cons act acts ih => exact ih (h.step htimely.1) htimely.2

end Shared

/-! ### A cancelled job stays cancelled -/

/-- **In every run with timely writes a job stays cancelled once its cancellation has been
written.** -/
theorem cancelled_of_timely {file : CronJobsState} (hfile : (file.jobs.map (·.id)).Nodup)
    {acts : List (Act ι)} (htimely : AllTimely (Shared.start file) acts) :
    ∀ id ∈ ((Shared.start file).run acts).cancelWritten,
      ∀ job ∈ ((Shared.start file).run acts).file.jobs, job.id = id → job.status = .cancelled := by
  have hstart : (Shared.start file : Shared ι).Holds := ⟨hfile, fun p w hw => (by cases hw), by simp [Shared.start]⟩
  have hholds := hstart.run htimely
  intro id hid job hjob hjobId
  obtain ⟨job', hlookup, hstatus⟩ := hholds.cancelled id hid
  rw [(lookup_eq_some_iff hholds.nodup).2 ⟨hjob, hjobId⟩] at hlookup
  cases hlookup
  exact hstatus

end

namespace Sample

/-- No cron expression matches, no text is a schedule, and identifiers are numbers. -/
scoped instance quietHost : CronHost where
  nextCronRunAfter _ _ := none
  parseAgentCronSchedule _ _ := .error "Cron schedule cannot be empty"
  randomUuid := Str.dec
  randomUuid_injective := Str.dec_injective

/-- A job that runs every minute. -/
def minutely : AgentCronJob where
  id := "job"
  status := .active
  sessionId := "s"
  prompt := "look again"
  schedule := .interval "every 1m" 60000 (by decide)
  updatedAt := 0
  nextRunAt := some 60000
  lastRunAt := none
  lastSkippedAt := none
  lastError := none
  runCount := 0

/-- Both processes read the active job; the cancellation is written first. -/
def overtaken : List (Act Bool) :=
  [.read false (.cancel "job" 60000), .read true (.recordRunResult "job" 60001 none), .write false, .write true]

/-- Both calls come one after the other. -/
def inTurn : List (Act Bool) :=
  [.read true (.recordRunResult "job" 60000 none), .write true, .read false (.cancel "job" 60001), .write false]

end Sample

open Sample in
/-- The result of a run brings a cancelled job back: the times do not run backwards, the
cancellation has been written, and the job is active. -/
theorem cancelled_job_active_again : (overtaken.filterMap Act.stamp).Pairwise (· ≤ ·) ∧
      ("job" : Str) ∈ ((Shared.start ⟨[minutely], []⟩).run overtaken).cancelWritten ∧
      (((Shared.start ⟨[minutely], []⟩).run (overtaken.take 3)).file.jobs.map (·.status)) = [.cancelled] ∧
      (((Shared.start ⟨[minutely], []⟩).run overtaken).file.jobs.map (·.status)) = [.active] := by
  decide +kernel

open Sample in
theorem cancelled_of_timely_inTurn : ("job" : Str) ∈ ((Shared.start ⟨[minutely], []⟩).run inTurn).cancelWritten ∧
    ∀ id ∈ ((Shared.start ⟨[minutely], []⟩).run inTurn).cancelWritten,
      ∀ job ∈ ((Shared.start ⟨[minutely], []⟩).run inTurn).file.jobs, job.id = id → job.status = .cancelled := by
  refine ⟨by decide +kernel, cancelled_of_timely (by decide) ⟨trivial, ?_, trivial, ?_, trivial⟩⟩
  · intro w hw
    cases hw
    decide +kernel
  · intro w hw
    cases hw
    decide +kernel

end Cron
