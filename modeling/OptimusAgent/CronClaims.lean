/-
**Scheduled jobs never fire twice.**

Every call leaves the jobs of a file in their order, keeps their identifiers, sessions and
schedules, and never gives a one-shot job without a next run a new one.  Records are only closed, or
opened by a claim for jobs that have none.
-/

import OptimusAgent.CronJobs

namespace Cron

open List FreshMerge

/-! ### What a call may do to a job -/

/-- The same job at a later time. -/
structure Follows (job job' : AgentCronJob) : Prop where
  id : job'.id = job.id
  sessionId : job'.sessionId = job.sessionId
  schedule : job'.schedule = job.schedule
  spent : job.schedule.isOnce = true → job.nextRunAt = none → job'.nextRunAt = none

theorem Follows.refl (job : AgentCronJob) : Follows job job := ⟨rfl, rfl, rfl, fun _ h => h⟩

variable {job job' : AgentCronJob}

theorem follows_cancelJob {id : Str} {now : ℤ}
    (h : cancelJob id now job = some job') : Follows job job' := by
  rw [cancelJob] at h
  split_ifs at h
  cases h
  exact ⟨rfl, rfl, rfl, fun _ _ => rfl⟩

theorem follows_recoverJob {interrupted : List Str} {now : ℤ}
    (h : recoverJob interrupted now job = some job') : Follows job job' := by
  rw [recoverJob] at h
  split_ifs at h
  cases h
  exact ⟨rfl, rfl, rfl, fun _ hnone => hnone⟩

section

variable [CronHost]

theorem nextRunAtForSchedule_once {schedule : AgentCronSchedule} (h : schedule.isOnce = true) (after : ℤ) :
    nextRunAtForSchedule schedule after = none := by
  cases schedule with
  | once expression => rfl
  | cron expression | interval expression intervalMs pos => cases h

theorem follows_settleJob {jobId : Str} {now : ℤ} {outcome : RunResult} {error : Option Str}
    (h : settleJob jobId now outcome error job = some job') : Follows job job' := by
  rw [settleJob] at h
  split_ifs at h
  · cases h
    exact ⟨rfl, rfl, rfl, fun honce _ => nextRunAtForSchedule_once honce now⟩
  · cases h
    exact ⟨rfl, rfl, rfl, fun _ hnone => hnone⟩

theorem follows_advanceJob (claimedAt : ℤ) (job : AgentCronJob) : Follows job (advanceJob claimedAt job) :=
  ⟨rfl, rfl, rfl, fun honce _ => nextRunAtForSchedule_once honce claimedAt⟩

end

variable {change : AgentCronJob → Option AgentCronJob}

theorem follows_getD
    (h : ∀ job job', change job = some job' → Follows job job') (job : AgentCronJob) :
    Follows job ((change job).getD job) := by
  cases hchange : change job with
  | none => exact .refl job
  | some job' => exact h job job' hchange

theorem forall₂_changeJobs
    (h : ∀ job job', change job = some job' → Follows job job') (jobs : List AgentCronJob) :
    Forall₂ Follows jobs (changeJobs change jobs) :=
  forall₂_map_right_iff.2 (forall₂_same.2 fun job _ => follows_getD h job)

/-! ### What a call may do to a file -/

/-- A file at a later time: its jobs in their order, some of its records closed, and new ones for
jobs that had none. -/
structure FileStep (state state' : CronJobsState) : Prop where
  jobs : Forall₂ Follows state.jobs state'.jobs
  dispatches : ∃ kept new : List AgentCronDispatchRecord, state'.dispatches = kept ++ new ∧
    kept.Sublist state.dispatches ∧ (new.map (·.jobId)).Sublist (state.jobs.map (·.id)) ∧
    ∀ record ∈ new, record.jobId ∉ state.dispatches.map (·.jobId)

theorem FileStep.of_sublist {state state' : CronJobsState}
    (hjobs : Forall₂ Follows state.jobs state'.jobs)
    (hdispatches : state'.dispatches.Sublist state.dispatches) : FileStep state state' :=
  ⟨hjobs, state'.dispatches, [], (append_nil _).symm, hdispatches, nil_sublist _, by simp⟩

theorem FileStep.refl (state : CronJobsState) : FileStep state state :=
  .of_sublist (forall₂_same.2 fun job _ => .refl job) (Sublist.refl _)

theorem map_id_of_forall₂ {jobs jobs' : List AgentCronJob} (h : Forall₂ Follows jobs jobs') :
    jobs'.map (·.id) = jobs.map (·.id) := by
  induction h with
  | nil => rfl
  | cons hjob _ ih => rw [map_cons, map_cons, hjob.id, ih]

/-- What stands on the right of two related lists has a partner on the left. -/
theorem exists_of_mem_right {α β : Type} {R : α → β → Prop} {l : List α} {l' : List β}
    (h : Forall₂ R l l') {b : β} (hb : b ∈ l') : ∃ a ∈ l, R a b := by
  induction h with
  | nil => cases hb
  | cons hab _ ih =>
    obtain rfl | hb := mem_cons.1 hb
    · exact ⟨_, mem_cons_self, hab⟩
    · obtain ⟨a, ha, hR⟩ := ih hb
      exact ⟨a, mem_cons_of_mem _ ha, hR⟩

/-- A record is open for a job of the file, and no other one is open for it. -/
structure FileInv (state : CronJobsState) : Prop where
  once : (state.dispatches.map (·.jobId)).Nodup
  known : ∀ record ∈ state.dispatches, record.jobId ∈ state.jobs.map (·.id)

theorem FileInv.step {state state' : CronJobsState} (h : FileInv state)
    (hids : (state.jobs.map (·.id)).Nodup) (hstep : FileStep state state') : FileInv state' := by
  obtain ⟨kept, new, heq, hkept, hnew, hfree⟩ := hstep.dispatches
  constructor
  · rw [heq, map_append, nodup_append]
    refine ⟨h.once.sublist (hkept.map _), hids.sublist hnew, fun id hid id' hid' => ?_⟩
    rintro rfl
    obtain ⟨record, hrecord, rfl⟩ := mem_map.1 hid'
    exact hfree record hrecord ((hkept.map _).subset hid)
  · intro record hrecord
    rw [map_id_of_forall₂ hstep.jobs]
    rw [heq, mem_append] at hrecord
    obtain hrecord | hrecord := hrecord
    · exact h.known record (hkept.subset hrecord)
    · exact hnew.subset (mem_map_of_mem hrecord)

section

variable [CronHost]

theorem fileStep_recordDispatchInState (dispatchId : Str) (now : ℤ) (outcome : RunResult)
    (error : Option Str) (state : CronJobsState) :
    FileStep state (recordDispatchInState dispatchId now outcome error state) := by
  rw [recordDispatchInState]
  split
  · exact .refl state
  · exact .of_sublist (forall₂_changeJobs (fun _ _ => follows_settleJob) _) filter_sublist

omit [CronHost] in
theorem fileStep_recoverInterruptedInState (dispatchIds : Option (List Str)) (now : ℤ)
    (state : CronJobsState) : FileStep state (recoverInterruptedInState dispatchIds now state) := by
  rw [recoverInterruptedInState]
  split_ifs
  · exact .refl state
  · exact .of_sublist (forall₂_changeJobs (fun _ _ => follows_recoverJob) _) filter_sublist

/-- What a claim does to the jobs of a file. -/
structure Claims (claimedJobIds : List Str) (jobs : List AgentCronJob) (claimed : ClaimedJobs) : Prop where
  follow : Forall₂ Follows jobs claimed.jobs
  records : claimed.records.map (·.jobId) = claimed.dispatches.map (·.job.id)
  sublist : (claimed.dispatches.map (·.job.id)).Sublist (jobs.map (·.id))
  free : ∀ dispatch ∈ claimed.dispatches, dispatch.job.id ∉ claimedJobIds
  due : ∀ dispatch ∈ claimed.dispatches, ∃ job ∈ jobs, job.id = dispatch.job.id ∧ job.nextRunAt ≠ none
  handed : ∀ dispatch ∈ claimed.dispatches, dispatch.job ∈ claimed.jobs ∧
    (dispatch.job.schedule.isOnce = true → dispatch.job.nextRunAt = none)

omit [CronHost] in
theorem nextRunAt_of_isDueJob {job : AgentCronJob} {now : ℤ} (h : isDueJob job now = true) : job.nextRunAt ≠ none := by
  intro hnone
  simp [isDueJob, hnone] at h

omit [CronHost] in
/-- A job that is not claimed is put in front. -/
theorem Claims.skip {claimedJobIds : List Str} {jobs : List AgentCronJob} {claimed : ClaimedJobs}
    (h : Claims claimedJobIds jobs claimed) {job job' : AgentCronJob} (hjob : Follows job job') :
    Claims claimedJobIds (job :: jobs) { claimed with jobs := job' :: claimed.jobs } := by
  refine ⟨.cons hjob h.follow, h.records, h.sublist.cons _, h.free, fun d hd => ?_, fun d hd => ?_⟩
  · obtain ⟨due, hdue, hid⟩ := h.due d hd
    exact ⟨due, mem_cons_of_mem _ hdue, hid⟩
  · exact ⟨mem_cons_of_mem _ (h.handed d hd).1, (h.handed d hd).2⟩

theorem claims_claimJobs (claimedJobIds : List Str) (dueAt claimedAt : ℤ) (used : ℕ) (jobs : List AgentCronJob) :
    Claims claimedJobIds jobs (claimJobs claimedJobIds dueAt claimedAt used jobs) := by
  induction jobs generalizing used with
  | nil => exact ⟨.nil, rfl, Sublist.refl _, by simp [claimJobs], by simp [claimJobs], by simp [claimJobs]⟩
  | cons job jobs ih =>
    have hadvanced := follows_advanceJob claimedAt job
    rw [claimJobs]
    split_ifs with hdue hclaimed
    · -- The job is due and has an open record: it is advanced and skipped.
      exact (ih used).skip ⟨hadvanced.id, hadvanced.sessionId, hadvanced.schedule, hadvanced.spent⟩
    · -- The job is claimed.
      have hrest := (ih (used + 1)).skip hadvanced
      refine ⟨hrest.follow, congrArg (job.id :: ·) hrest.records, (ih (used + 1)).sublist.cons_cons _,
        forall_mem_cons.2 ⟨hclaimed, hrest.free⟩, forall_mem_cons.2 ⟨⟨job, mem_cons_self, rfl, ?_⟩, hrest.due⟩,
        forall_mem_cons.2 ⟨⟨mem_cons_self, fun honce => ?_⟩, hrest.handed⟩⟩
      · exact nextRunAt_of_isDueJob hdue
      · exact nextRunAtForSchedule_once honce claimedAt
    · -- The job is not due.
      exact (ih used).skip (.refl job)

theorem le_used_claimJobs (claimedJobIds : List Str) (dueAt claimedAt : ℤ) (used : ℕ)
    (jobs : List AgentCronJob) : used ≤ (claimJobs claimedJobIds dueAt claimedAt used jobs).used := by
  induction jobs generalizing used with
  | nil => exact le_rfl
  | cons job jobs ih =>
    rw [claimJobs]
    split_ifs
    · exact ih used
    · exact (Nat.le_succ used).trans (ih (used + 1))
    · exact ih used

theorem fileStep_claimDueInState (dueAt claimedAt : ℤ) (used : ℕ) (state : CronJobsState) :
    FileStep state (claimDueInState dueAt claimedAt used state).state := by
  have h := claims_claimJobs (state.dispatches.map (·.jobId)) dueAt claimedAt used state.jobs
  refine ⟨h.follow, state.dispatches, _, rfl, Sublist.refl _, h.records ▸ h.sublist, fun r hr => ?_⟩
  have hmem := mem_map_of_mem (f := AgentCronDispatchRecord.jobId) hr
  rw [h.records] at hmem
  obtain ⟨d, hd, heq⟩ := mem_map.1 hmem
  exact heq ▸ h.free d hd

end

/-! ### What a call may do to the files of a store -/

/-- The files of a store at a later time. -/
def FilesStep (files files' : List (Str × CronJobsState)) : Prop :=
  Forall₂ (fun file file' => file'.1 = file.1 ∧ FileStep file.2 file'.2) files files'

theorem FilesStep.refl (files : List (Str × CronJobsState)) : FilesStep files files :=
  forall₂_same.2 fun file _ => ⟨rfl, .refl file.2⟩

variable {files files' : List (Str × CronJobsState)}

theorem FilesStep.written (h : FilesStep files files')
    (stop : Option ℕ) : FilesStep files (written stop files files') := by
  cases stop with
  | none => exact h
  | some count =>
    have htake := forall₂_take count h
    have hdrop : FilesStep (files.drop count) (files.drop count) := .refl _
    have hjoin : FilesStep (files.take count ++ files.drop count) (files'.take count ++ files.drop count) :=
      rel_append htake hdrop
    rwa [take_append_drop] at hjoin

theorem FilesStep.jobs (h : FilesStep files files') :
    Forall₂ Follows (files.flatMap fun file => file.2.jobs) (files'.flatMap fun file => file.2.jobs) := by
  induction h with
  | nil => exact .nil
  | cons hfile _ ih => exact rel_append hfile.2.jobs ih

theorem FilesStep.keys (h : FilesStep files files') : files'.map Prod.fst = files.map Prod.fst := by
  induction h with
  | nil => rfl
  | cons hfile _ ih => rw [map_cons, map_cons, hfile.1, ih]

variable {mutator : ℕ → CronJobsState → Mutated}

theorem filesStep_mutateFiles
    (h : ∀ used state, FileStep state (mutator used state).state) (used : ℕ)
    (files : List (Str × CronJobsState)) : FilesStep files (mutateFiles mutator used files).1 := by
  induction files generalizing used with
  | nil => exact .nil
  | cons file files ih => exact .cons ⟨rfl, h used file.2⟩ (ih _)

theorem le_used_mutateFiles
    (h : ∀ used state, used ≤ (mutator used state).used) (used : ℕ) (files : List (Str × CronJobsState)) :
    used ≤ (mutateFiles mutator used files).2.2 := by
  induction files generalizing used with
  | nil => exact le_rfl
  | cons file files ih => exact (h used file.2).trans (ih _)

/-! ### The invariant of a store -/

/-- The open records of a store. -/
def Store.openRecords (store : Store) : List AgentCronDispatchRecord :=
  store.files.flatMap fun file => file.2.dispatches

section

variable [CronHost]

/-- What holds of the jobs and records of a store: the identifiers of the jobs are distinct and have
been drawn, each session has one file, and each job stands in the file of its session. -/
structure StoreInv (store : Store) (used : ℕ) : Prop where
  files : ∀ file ∈ store.files, FileInv file.2
  ids : (store.readJobs.map (·.id)).Nodup
  drawn : ∀ job ∈ store.readJobs, ∃ n < used, job.id = CronHost.randomUuid n
  keys : (store.files.map Prod.fst).Nodup
  sessions : store.sessionArtifactMode = true → ∀ file ∈ store.files, ∀ job ∈ file.2.jobs, job.sessionId = file.1
  single : store.sessionArtifactMode = false → store.files.length = 1

variable {store : Store} {used : ℕ} {file : Str × CronJobsState} {job : AgentCronJob}
  {files' : List (Str × CronJobsState)} {f : AgentCronJob → AgentCronJob} {extra : List AgentCronJob}

section

variable (h : StoreInv store used)

include h

theorem StoreInv.fileIds (hfile : file ∈ store.files) : (file.2.jobs.map (·.id)).Nodup := by
  have hids := h.ids
  rw [Store.readJobs, map_flatMap, nodup_flatMap] at hids
  exact hids.1 file hfile

/-- A job identifier occurs in one file only. -/
theorem StoreInv.file_unique {file' : Str × CronJobsState}
    (hfile : file ∈ store.files) (hfile' : file' ∈ store.files) {id : Str}
    (hid : id ∈ file.2.jobs.map (·.id)) (hid' : id ∈ file'.2.jobs.map (·.id)) : file = file' := by
  have hids := h.ids
  rw [Store.readJobs, map_flatMap, nodup_flatMap] at hids
  by_contra hne
  have hsymm : Std.Symm (Function.onFun Disjoint fun file : Str × CronJobsState =>
      file.2.jobs.map (·.id)) := ⟨fun _ _ hdisjoint => hdisjoint.symm⟩
  exact hids.2.forall hfile hfile' hne hid hid'

theorem StoreInv.job_unique {job' : AgentCronJob} (hjob : job ∈ store.readJobs)
    (hjob' : job' ∈ store.readJobs) (hid : job.id = job'.id) : job = job' :=
  inj_on_of_nodup_map h.ids hjob hjob' hid

/-- The next identifier to be drawn is not the one of a job. -/
theorem StoreInv.fresh : CronHost.randomUuid used ∉ store.readJobs.map (·.id) := by
  intro hmem
  obtain ⟨other, hother, heq⟩ := mem_map.1 hmem
  obtain ⟨n, hn, hdrawn⟩ := h.drawn other hother
  exact absurd (CronHost.randomUuid_injective (heq.symm.trans hdrawn)) (by omega)

/-- The open records are for distinct jobs. -/
theorem StoreInv.nodup_openRecords : (store.openRecords.map (·.jobId)).Nodup := by
  have hids := h.ids
  rw [Store.readJobs, map_flatMap, nodup_flatMap] at hids
  rw [Store.openRecords, map_flatMap, nodup_flatMap]
  refine ⟨fun file hfile => (h.files file hfile).once, ?_⟩
  refine Pairwise.imp_of_mem (fun {file file'} hfile hfile' hdisjoint id hid hid' => ?_) hids.2
  obtain ⟨record, hrecord, rfl⟩ := mem_map.1 hid
  obtain ⟨record', hrecord', heq⟩ := mem_map.1 hid'
  exact hdisjoint ((h.files file hfile).known record hrecord)
    (heq ▸ (h.files file' hfile').known record' hrecord')

/-- **A step of the files keeps the invariant.** -/
theorem StoreInv.step {used' : ℕ} (hstep : FilesStep store.files files') (hused : used ≤ used') :
    StoreInv { store with files := files' } used' := by
  refine ⟨fun file' hfile' => ?_, ?_, fun job' hjob' => ?_, ?_, fun hmode file' hfile' job' hjob' => ?_,
    fun hmode => ?_⟩
  · obtain ⟨file, hfile, -, hfileStep⟩ := exists_of_mem_right hstep hfile'
    exact (h.files file hfile).step (h.fileIds hfile) hfileStep
  · exact (map_id_of_forall₂ hstep.jobs).symm ▸ h.ids
  · obtain ⟨job, hjob, hfollows⟩ := exists_of_mem_right hstep.jobs hjob'
    obtain ⟨n, hn, heq⟩ := h.drawn job hjob
    exact ⟨n, hn.trans_le hused, hfollows.id.trans heq⟩
  · exact hstep.keys.symm ▸ h.keys
  · obtain ⟨file, hfile, hkey, hfileStep⟩ := exists_of_mem_right hstep hfile'
    obtain ⟨job, hjob, hfollows⟩ := exists_of_mem_right hfileStep.jobs hjob'
    rw [hfollows.sessionId, hkey]
    exact h.sessions hmode file hfile job hjob
  · rw [← h.single hmode]
    exact hstep.length_eq.symm

end

/-! ### The merging write -/

/-- The fresher one of a job and its changed copy. -/
def fresher (f : AgentCronJob → AgentCronJob) (job : AgentCronJob) : AgentCronJob :=
  if isAtLeastAsFresh (f job) job then f job else job

omit [CronHost] in
theorem mergeFreshJobs_eq (hf : ∀ job, (f job).id = job.id)
    {jobs : List AgentCronJob} (hjobs : (jobs.map (·.id)).Nodup) (hextra : (extra.map (·.id)).Nodup)
    (hnew : ∀ job ∈ extra, job.id ∉ jobs.map (·.id)) :
    mergeFreshJobs jobs (jobs.map f ++ extra) = jobs.map (fresher f) ++ extra := by
  have hmap : merge AgentCronJob.id isAtLeastAsFresh jobs (jobs.map f) = jobs.map (fresher f) := merge_map hf hjobs
  rw [mergeFreshJobs, merge_append, hmap]
  refine merge_of_new hextra fun job hjob hmem => hnew job hjob ?_
  rw [map_map] at hmem
  convert hmem using 1
  refine map_congr_left fun job _ => ?_
  exact (key_ite (hf job).symm).symm

omit [CronHost] in
/-- What belongs to one of several keys is found again among everything. -/
theorem filter_flatMap_of_owner {β γ : Type} {files : List (Str × β)} {g : Str × β → List γ}
    {p : Str → γ → Bool} (hkeys : (files.map Prod.fst).Nodup)
    (howner : ∀ file ∈ files, ∀ x ∈ g file, ∀ key, p key x = true ↔ key = file.1) {file : Str × β}
    (hfile : file ∈ files) : (files.flatMap g).filter (p file.1) = g file := by
  obtain ⟨before, after, rfl⟩ := append_of_mem hfile
  rw [map_append, map_cons, nodup_append] at hkeys
  obtain ⟨-, hafter, hbefore⟩ := hkeys
  have hothers : ∀ others : List (Str × β), others ⊆ before ++ file :: after →
      (∀ other ∈ others, other.1 ≠ file.1) → (others.flatMap g).filter (p file.1) = [] := by
    intro others hsub hne
    refine filter_eq_nil_iff.2 fun x hx hp => ?_
    obtain ⟨other, hother, hx⟩ := mem_flatMap.1 hx
    exact hne other hother ((howner other (hsub hother) x hx file.1).1 hp).symm
  have hself : (g file).filter (p file.1) = g file := filter_eq_self.2 fun x hx => (howner file hfile x hx file.1).2 rfl
  rw [flatMap_append, flatMap_cons, filter_append, filter_append, hself, hothers before (subset_append_left _ _)
      fun other hother => hbefore _ (mem_map_of_mem hother) _ mem_cons_self,
    hothers after (fun x hx => mem_append_right _ (mem_cons_of_mem _ hx))
      fun other hother heq => (nodup_cons.1 hafter).1 (heq ▸ mem_map_of_mem hother),
    nil_append, append_nil]

/-- Whether a job is written to a file. -/
def Store.keeps (store : Store) (file : Str × CronJobsState) (job : AgentCronJob) : Bool :=
  !store.sessionArtifactMode || job.sessionId = file.1

/-- A file with its jobs changed, where that is fresher, and new jobs at the end. -/
def Store.rewritten (store : Store) (f : AgentCronJob → AgentCronJob) (extra : List AgentCronJob)
    (file : Str × CronJobsState) : Str × CronJobsState :=
  (file.1, ⟨file.2.jobs.map (fresher f) ++ extra.filter (store.keeps file), file.2.dispatches⟩)

/-- The jobs that are new in a write. -/
structure NewJobs (store : Store) (extra : List AgentCronJob) : Prop where
  nodup : (extra.map (·.id)).Nodup
  fresh : ∀ job ∈ extra, job.id ∉ store.readJobs.map (·.id)

omit [CronHost] in
theorem mem_readJobs (hfile : file ∈ store.files)
    (hjob : job ∈ file.2.jobs) : job ∈ store.readJobs := mem_flatMap.2 ⟨file, hfile, hjob⟩

omit [CronHost] in
theorem sessionOfJob_eq {merged : List (Str × List AgentCronJob)} {jobId key : Str}
    (hexists : ∃ session ∈ merged, session.1 = key ∧ jobId ∈ session.2.map (·.id))
    (hunique : ∀ session ∈ merged, jobId ∈ session.2.map (·.id) → session.1 = key) :
    sessionOfJob merged jobId = some key := by
  have hany : ∀ session : Str × List AgentCronJob,
      (session.2.any fun job => decide (job.id = jobId)) = true ↔ jobId ∈ session.2.map (·.id) := by
    intro session
    simp
  obtain ⟨session, hsession, hkey, hid⟩ := hexists
  cases hfind : merged.reverse.find? fun session => session.2.any fun job => decide (job.id = jobId) with
  | none =>
    rw [find?_eq_none] at hfind
    exact absurd ((hany session).2 hid) (hfind session (mem_reverse.2 hsession))
  | some found =>
    have hmem := mem_reverse.1 (mem_of_find?_eq_some hfind)
    have hid' := find?_some hfind
    rw [sessionOfJob, hfind, Option.map_some, hunique found hmem ((hany found).1 hid')]

theorem mergedJobs_eq (h : StoreInv store used) (hmode : store.sessionArtifactMode = true)
    (hid : ∀ job, (f job).id = job.id)
    (hsession : ∀ job, (f job).sessionId = job.sessionId)
    (hextra : NewJobs store extra) (hfile : file ∈ store.files) :
    mergedJobs (store.readJobs.map f ++ extra) file.1 file.2 =
      file.2.jobs.map (fresher f) ++ extra.filter fun job => job.sessionId = file.1 := by
  -- No job of the file has moved to another session.
  have hretained : (file.2.jobs.filter fun job =>
      (((store.readJobs.map f ++ extra).find? fun incoming => incoming.id = job.id).map fun incoming =>
        decide (incoming.sessionId = file.1)).getD true) = file.2.jobs := by
    refine filter_eq_self.2 fun job hjob => ?_
    cases hfind : (store.readJobs.map f ++ extra).find? fun incoming => incoming.id = job.id with
    | none => rfl
    | some incoming =>
      have hsame : incoming.id = job.id := by simpa using find?_some hfind
      have hmem := mem_of_find?_eq_some hfind
      obtain hmem | hmem := mem_append.1 hmem
      · obtain ⟨other, hother, rfl⟩ := mem_map.1 hmem
        have hother : other = job := h.job_unique hother (mem_readJobs hfile hjob) ((hid other).symm.trans hsame)
        simp [hother, hsession, h.sessions hmode file hfile job hjob]
      · exact absurd (mem_map.2 ⟨job, mem_readJobs hfile hjob, hsame.symm⟩) (hextra.fresh incoming hmem)
  have hown : ((store.readJobs.map f).filter fun job => job.sessionId = file.1) = file.2.jobs.map f := by
    rw [filter_map, Store.readJobs]
    congr 1
    refine filter_flatMap_of_owner (p := fun key job => decide ((f job).sessionId = key)) h.keys
      (fun other hother job hjob key => ?_) hfile
    rw [decide_eq_true_iff, hsession, h.sessions hmode other hother job hjob, eq_comm]
  rw [mergedJobs, hretained, filter_append, hown]
  refine mergeFreshJobs_eq hid (h.fileIds hfile) (hextra.nodup.sublist (filter_sublist.map _))
    fun job hjob hmem => hextra.fresh job (mem_of_mem_filter hjob) ?_
  obtain ⟨other, hother, heq⟩ := mem_map.1 hmem
  exact mem_map.2 ⟨other, mem_readJobs hfile hother, heq⟩

/-- **What a merging write leaves of the session files**: every job stays in its file, the fresher
copy of it, and every record stays where it is. -/
theorem writeArtifacts_eq (h : StoreInv store used) (hmode : store.sessionArtifactMode = true)
    (hid : ∀ job, (f job).id = job.id)
    (hsession : ∀ job, (f job).sessionId = job.sessionId)
    (hextra : NewJobs store extra) :
    writeArtifacts (store.readJobs.map f ++ extra) store.files = store.files.map (store.rewritten f extra) := by
  have hkeeps : ∀ file, extra.filter (store.keeps file) = extra.filter fun job => job.sessionId = file.1 := by
    intro file
    exact filter_congr fun job _ => by simp [Store.keeps, hmode]
  have hmerged : (store.files.map fun file =>
      (file.1, mergedJobs (store.readJobs.map f ++ extra) file.1 file.2)) =
      store.files.map fun file => (file.1, (store.rewritten f extra file).2.jobs) := by
    refine map_congr_left fun file hfile => ?_
    rw [mergedJobs_eq h hmode hid hsession hextra hfile, Store.rewritten, hkeeps]
  have hids : ∀ file : Str × CronJobsState, (store.rewritten f extra file).2.jobs.map (·.id) =
      file.2.jobs.map (·.id) ++ (extra.filter (store.keeps file)).map (·.id) := by
    intro file
    rw [Store.rewritten, map_append, map_map]
    congr 1
    exact map_congr_left fun job _ => key_ite (hid job).symm
  -- The only session with the job of a record is the one of its file.
  have howner : ∀ file ∈ store.files, ∀ record ∈ file.2.dispatches,
      sessionOfJob (store.files.map fun file => (file.1, (store.rewritten f extra file).2.jobs))
        record.jobId = some file.1 := by
    intro file hfile record hrecord
    have hknown := (h.files file hfile).known record hrecord
    refine sessionOfJob_eq ⟨_, mem_map_of_mem hfile, rfl, ?_⟩ fun session hsession' hmem => ?_
    · rw [hids, mem_append]
      exact .inl hknown
    · obtain ⟨other, hother, rfl⟩ := mem_map.1 hsession'
      rw [hids, mem_append] at hmem
      obtain hmem | hmem := hmem
      · rw [h.file_unique hother hfile hmem hknown]
      · obtain ⟨job, hjob, heq⟩ := mem_map.1 hmem
        obtain ⟨job', hjob', heq'⟩ := mem_map.1 hknown
        exact absurd (mem_map.2 ⟨job', mem_readJobs hfile hjob', heq'.trans heq.symm⟩)
          (hextra.fresh job (mem_of_mem_filter hjob))
  rw [writeArtifacts, hmerged, map_map]
  refine map_congr_left fun file hfile => ?_
  have hrecords := filter_flatMap_of_owner (g := fun file => file.2.dispatches)
    (p := fun key record => decide (sessionOfJob (store.files.map fun file =>
      (file.1, (store.rewritten f extra file).2.jobs)) record.jobId = some key)) h.keys
    (fun other hother record hrecord key => by
      rw [decide_eq_true_iff, howner other hother record hrecord, Option.some_inj, eq_comm]) hfile
  dsimp only [Function.comp_apply]
  rw [hrecords, Store.rewritten]

/-- **What a merging write leaves.** -/
theorem Store.writeJobs_files (h : StoreInv store used)
    (hid : ∀ job, (f job).id = job.id) (hsession : ∀ job, (f job).sessionId = job.sessionId)
    (hextra : NewJobs store extra) (stop : Option ℕ) :
    store.writeJobs stop (store.readJobs.map f ++ extra) = store ∨
      store.writeJobs stop (store.readJobs.map f ++ extra) =
        { store with files := written stop store.files (store.files.map (store.rewritten f extra)) } := by
  rw [Store.writeJobs]
  cases hmode : store.sessionArtifactMode with
  | true =>
    rw [if_pos rfl, writeArtifacts_eq h hmode hid hsession hextra]
    split_ifs
    · exact .inr rfl
    · exact .inl rfl
  | false =>
    rw [if_neg Bool.false_ne_true]
    obtain ⟨file, hfiles⟩ := length_eq_one_iff.1 (h.single hmode)
    have hfile : file ∈ store.files := hfiles ▸ mem_singleton_self file
    have hread : store.readJobs = file.2.jobs := by simp [Store.readJobs, hfiles]
    have hkeeps : extra.filter (store.keeps file) = extra := filter_eq_self.2 fun job _ => by simp [Store.keeps, hmode]
    have hmerge := mergeFreshJobs_eq hid (h.fileIds hfile) hextra.nodup (hread ▸ hextra.fresh)
    refine .inr ?_
    rw [hfiles, map_singleton, map_singleton, hread, writeJobsFile, hmerge, Store.rewritten, hkeeps]

/-! ### The calls -/

omit [CronHost] in
theorem follows_fresher (hf : ∀ job, Follows job (f job)) (job : AgentCronJob) : Follows job (fresher f job) := by
  rw [fresher]
  split_ifs
  · exact hf job
  · exact .refl job

omit [CronHost] in
theorem written_self (stop : Option ℕ) (files : List (Str × CronJobsState)) : written stop files files = files := by
  cases stop with
  | none => rfl
  | some count => exact take_append_drop count files

/-- A change that is not made under the lock is a step of the files, if nothing comes between the
read and the write. -/
theorem filesStep_updateJobs {w : World} (h : StoreInv w.store w.used)
    (hchange : ∀ job job', change job = some job' → Follows job job') (stop : Option ℕ) :
    ∃ files', FilesStep w.store.files files' ∧
      (w.updateJobs stop change).1 = ⟨{ w.store with files := files' }, w.used⟩ := by
  have hfollows := follows_getD hchange
  have hwrite := Store.writeJobs_files h (fun job => (hfollows job).id) (fun job => (hfollows job).sessionId)
    (⟨nodup_nil, by simp⟩ : NewJobs w.store []) stop
  rw [append_nil] at hwrite
  rw [World.updateJobs]
  dsimp only
  split_ifs
  · obtain hsame | hfiles := hwrite
    · exact ⟨w.store.files, .refl _, by rw [changeJobs, hsame]⟩
    · refine ⟨_, FilesStep.written ?_ stop, by rw [changeJobs, hfiles]⟩
      refine forall₂_map_right_iff.2 (forall₂_same.2 fun file _ => ⟨rfl, ?_⟩)
      refine .of_sublist ?_ (Sublist.refl _)
      rw [Store.rewritten, filter_nil, append_nil]
      exact forall₂_map_right_iff.2 (forall₂_same.2 fun job _ => follows_fresher hfollows job)
  · exact ⟨w.store.files, .refl _, rfl⟩

omit [CronHost] in
/-- A change of one file that stops on the way has been written or not. -/
theorem written_one (stop : Option ℕ) (before after : List (Str × CronJobsState)) (file file' : Str × CronJobsState) :
    written stop (before ++ file :: after) (before ++ file' :: after) = before ++ file :: after ∨
      written stop (before ++ file :: after) (before ++ file' :: after) = before ++ file' :: after := by
  cases stop with
  | none => exact .inr rfl
  | some count =>
    rw [written]
    by_cases hcount : count ≤ before.length
    · refine .inl ?_
      rw [take_append_of_le_length hcount, drop_append_of_le_length hcount, ← append_assoc, take_append_drop]
    · obtain ⟨rest, rfl⟩ := Nat.exists_eq_add_of_lt (not_le.1 hcount)
      refine .inr ?_
      rw [Nat.add_assoc, take_length_add_append, drop_length_add_append, take_succ_cons,
        drop_succ_cons, append_assoc, cons_append, take_append_drop]

/-- The files with a job put into one of them. -/
def Adds (store : Store) (job : AgentCronJob) (files' : List (Str × CronJobsState)) : Prop :=
  ∃ (before : List (Str × CronJobsState)) (file : Str × CronJobsState) (after : List (Str × CronJobsState)),
    store.files = before ++ file :: after ∧ store.keeps file job = true ∧
      files' = before ++ (file.1, ⟨file.2.jobs ++ [job], file.2.dispatches⟩) :: after

section

omit [CronHost]

theorem map_fresher_id (jobs : List AgentCronJob) : jobs.map (fresher id) = jobs := by
  conv_rhs => rw [← map_id jobs]
  exact map_congr_left fun job _ => by simp [fresher]

theorem map_rewritten_of_keeps_false {files : List (Str × CronJobsState)}
    (h : ∀ file ∈ files, store.keeps file job = false) : files.map (store.rewritten id [job]) = files := by
  conv_rhs => rw [← map_id files]
  refine map_congr_left fun file hfile => ?_
  rw [Store.rewritten, map_fresher_id, filter_singleton, h file hfile, id]
  simp

theorem map_rewritten_eq {before after : List (Str × CronJobsState)}
    (hkeys : ((before ++ file :: after).map Prod.fst).Nodup)
    (hsingle : store.sessionArtifactMode = false → before = [] ∧ after = [])
    (hkeeps : store.keeps file job = true) :
    (before ++ file :: after).map (store.rewritten id [job]) =
      before ++ (file.1, ⟨file.2.jobs ++ [job], file.2.dispatches⟩) :: after := by
  rw [map_append, map_cons, nodup_append] at hkeys
  cases hmode : store.sessionArtifactMode with
  | false =>
    obtain ⟨rfl, rfl⟩ := hsingle hmode
    simp [Store.rewritten, map_fresher_id, hkeeps]
  | true =>
    have hsession : job.sessionId = file.1 := by simpa [Store.keeps, hmode] using hkeeps
    have hno : ∀ other : Str × CronJobsState, other.1 ≠ file.1 → store.keeps other job = false := by
      intro other hne
      simpa [Store.keeps, hmode, hsession] using hne.symm
    rw [map_append, map_cons,
      map_rewritten_of_keeps_false fun other hother =>
        hno other (hkeys.2.2 _ (mem_map_of_mem hother) _ mem_cons_self),
      map_rewritten_of_keeps_false fun other hother =>
        hno other fun heq => (nodup_cons.1 hkeys.2.1).1 (heq ▸ mem_map_of_mem hother)]
    simp [Store.rewritten, map_fresher_id, hkeeps]

end

theorem newJob_id {w : World} {input : CreateAgentCronJobInput}
    (h : w.newJob input = .ok job) : job.id = CronHost.randomUuid w.used := by
  rw [World.newJob] at h
  split_ifs at h
  cases hparse : CronHost.parseAgentCronSchedule input.scheduleText input.now with
  | error error =>
    rw [hparse] at h
    cases h
  | ok parsed =>
    rw [hparse] at h
    cases h
    rfl

/-- `create` leaves the store as it is, or puts one new job into one file. -/
theorem create_cases {w : World} (h : StoreInv w.store w.used) (stop : Option ℕ) (input : CreateAgentCronJobInput) :
    (w.create stop input).1 = w ∨ (w.create stop input).1 = ⟨w.store, w.used + 1⟩ ∨
      ∃ (job : AgentCronJob) (files' : List (Str × CronJobsState)), Adds w.store job files' ∧
        job.id = CronHost.randomUuid w.used ∧
        (w.create stop input).1 = ⟨{ w.store with files := files' }, w.used + 1⟩ := by
  rw [World.create]
  cases hnew : w.newJob input with
  | error error => exact .inl rfl
  | ok job =>
    have hid := newJob_id hnew
    have hfresh : NewJobs w.store [job] := by
      refine ⟨nodup_singleton _, fun job' hjob' => ?_⟩
      rw [mem_singleton.1 hjob', hid]
      exact h.fresh
    have hwrite := Store.writeJobs_files (f := id) h (fun _ => rfl) (fun _ => rfl) hfresh stop
    rw [map_id] at hwrite
    refine .inr ?_
    dsimp only
    by_cases hsession : ∃ file ∈ w.store.files, w.store.keeps file job = true
    · obtain ⟨file, hfile, hkeeps⟩ := hsession
      obtain ⟨before, after, hsplit⟩ := append_of_mem hfile
      obtain hsame | hfiles := hwrite
      · exact .inl (by rw [hsame])
      · have hsingle : w.store.sessionArtifactMode = false → before = [] ∧ after = [] := by
          intro hmode
          have hlength := h.single hmode
          rw [hsplit, length_append, length_cons] at hlength
          exact ⟨length_eq_zero_iff.1 (by omega), length_eq_zero_iff.1 (by omega)⟩
        rw [hsplit, map_rewritten_eq (hsplit ▸ h.keys) hsingle hkeeps] at hfiles
        obtain hnone | hdone := written_one stop before after file
          (file.1, ⟨file.2.jobs ++ [job], file.2.dispatches⟩)
        · rw [hnone, ← hsplit] at hfiles
          exact .inl (by rw [hfiles])
        · rw [hdone] at hfiles
          exact .inr ⟨job, _, ⟨before, file, after, hsplit, hkeeps, rfl⟩, hid, by rw [hfiles]⟩
    · -- No file takes the job.
      have hnone : ∀ file ∈ w.store.files, w.store.keeps file job = false := fun file hfile =>
        Bool.eq_false_iff.2 fun hkeeps => hsession ⟨file, hfile, hkeeps⟩
      rw [map_rewritten_of_keeps_false hnone, written_self, or_self] at hwrite
      exact .inl (by rw [hwrite])

omit [CronHost] in
/-- The jobs are the old ones and the new one. -/
theorem Adds.perm (h : Adds store job files') :
    (files'.flatMap fun file => file.2.jobs).Perm (job :: store.readJobs) := by
  obtain ⟨before, file, after, hsplit, -, rfl⟩ := h
  rw [Store.readJobs, hsplit]
  simp only [flatMap_append, flatMap_cons, append_assoc, singleton_append]
  rw [← append_assoc, ← append_assoc]
  exact perm_middle

theorem StoreInv.adds (h : StoreInv store used)
    (hadds : Adds store job files') (hid : job.id = CronHost.randomUuid used) :
    StoreInv { store with files := files' } (used + 1) := by
  have hperm := hadds.perm
  obtain ⟨before, file, after, hsplit, hkeeps, rfl⟩ := hadds
  have hfile : file ∈ store.files := hsplit ▸ mem_append_right _ mem_cons_self
  have hcases : ∀ other ∈ before ++ (file.1, (⟨file.2.jobs ++ [job], file.2.dispatches⟩ : CronJobsState)) ::
      after, other ∈ store.files ∨ other = (file.1, ⟨file.2.jobs ++ [job], file.2.dispatches⟩) := by
    intro other hother
    rw [hsplit]
    simp only [mem_append, mem_cons] at hother ⊢
    tauto
  refine ⟨fun other hother => ?_, ?_, fun other hother => ?_, ?_, fun hmode other hother job' hjob' => ?_,
    fun hmode => ?_⟩
  · obtain hother | rfl := hcases other hother
    · exact h.files other hother
    · refine ⟨(h.files file hfile).once, fun record hrecord => ?_⟩
      rw [map_append, mem_append]
      exact .inl ((h.files file hfile).known record hrecord)
  · exact ((hperm.map _).nodup_iff).2 (nodup_cons.2 ⟨(congrArg (· ∉ _) hid).mpr h.fresh, h.ids⟩)
  · obtain rfl | hother := mem_cons.1 (hperm.subset hother)
    · exact ⟨used, Nat.lt_succ_self used, hid⟩
    · obtain ⟨n, hn, hdrawn⟩ := h.drawn other hother
      exact ⟨n, hn.trans (Nat.lt_succ_self used), hdrawn⟩
  · have hkeys := h.keys
    rw [hsplit] at hkeys
    simpa using hkeys
  · obtain hother | rfl := hcases other hother
    · exact h.sessions hmode other hother job' hjob'
    · obtain hjob' | hjob' := mem_append.1 hjob'
      · exact h.sessions hmode file hfile job' hjob'
      · have hmode : store.sessionArtifactMode = true := hmode
        rw [mem_singleton.1 hjob']
        simpa [Store.keeps, hmode] using hkeeps
  · have hlength := h.single hmode
    rw [hsplit] at hlength
    simpa using hlength

/-- A job that has no open record in its file has none at all. -/
theorem StoreInv.no_record (h : StoreInv store used)
    (hfile : file ∈ store.files) {id : Str} (hid : id ∈ file.2.jobs.map (·.id))
    (hfree : id ∉ file.2.dispatches.map (·.jobId)) : ∀ record ∈ store.openRecords, record.jobId ≠ id := by
  rintro record hrecord rfl
  obtain ⟨file', hfile', hrecord⟩ := mem_flatMap.1 hrecord
  obtain rfl := h.file_unique hfile hfile' hid ((h.files file' hfile').known record hrecord)
  exact hfree (mem_map_of_mem hrecord)

/-- A step opens records only for jobs that have none. -/
theorem StoreInv.no_record_of_new (h : StoreInv store used)
    (hstep : FilesStep store.files files') {record' : AgentCronDispatchRecord}
    (hmem : record' ∈ files'.flatMap fun file => file.2.dispatches) (hnew : record' ∉ store.openRecords) :
    ∀ record ∈ store.openRecords, record.jobId ≠ record'.jobId := by
  obtain ⟨file', hfile', hmem⟩ := mem_flatMap.1 hmem
  obtain ⟨file, hfile, -, hfileStep⟩ := exists_of_mem_right hstep hfile'
  obtain ⟨kept, new, heq, hkept, hsublist, hfree⟩ := hfileStep.dispatches
  rw [heq, mem_append] at hmem
  obtain hmem | hmem := hmem
  · exact absurd (mem_flatMap.2 ⟨file, hfile, hkept.subset hmem⟩) hnew
  · exact h.no_record hfile (hsublist.subset (mem_map_of_mem hmem)) (hfree record' hmem)

/-! ### Runs -/

/-- The stores that are reached by the calls, each of which may stop after writing some files, with
the jobs that `claim_due` has handed out.  The session files are kept in a hash map, so their order
may change from call to call. -/
inductive Reached : World → List AgentCronDispatch → Prop
  | start (sessionArtifactMode : Bool) (keys : List Str) (hkeys : keys.Nodup)
      (hsingle : sessionArtifactMode = false → keys.length = 1) :
      Reached ⟨⟨sessionArtifactMode, keys.map fun key => (key, ⟨[], []⟩)⟩, 0⟩ []
  | reordered {w : World} {handed : List AgentCronDispatch} {files' : List (Str × CronJobsState)} :
      Reached w handed → w.store.files.Perm files' →
      Reached ⟨{ w.store with files := files' }, w.used⟩ handed
  | create {w : World} {handed : List AgentCronDispatch} (stop : Option ℕ)
      (input : CreateAgentCronJobInput) : Reached w handed → Reached (w.create stop input).1 handed
  | claimDue {w : World} {handed : List AgentCronDispatch} (stop : Option ℕ) (dueAt claimedAt : ℤ) : Reached w handed →
      Reached (w.claimDue stop dueAt claimedAt).1 (handed ++ (w.claimDue stop dueAt claimedAt).2)
  | recordDispatchResult {w : World} {handed : List AgentCronDispatch} (stop : Option ℕ) (dispatchId : Str)
      (now : ℤ) (outcome : RunResult) (error : Option Str) : Reached w handed →
      Reached (w.recordDispatchResult stop dispatchId now outcome error).1 handed
  | recoverInterruptedDispatches {w : World} {handed : List AgentCronDispatch} (stop : Option ℕ) (now : ℤ) :
      Reached w handed → Reached (w.recoverInterruptedDispatches stop now).1 handed
  | cancel {w : World} {handed : List AgentCronDispatch} (stop : Option ℕ) (id : Str) (now : ℤ) :
      Reached w handed → Reached (w.cancel stop id now).1 handed

/-- A dispatch of a one-shot job. -/
def AgentCronDispatch.isOnce (dispatch : AgentCronDispatch) : Bool := dispatch.job.schedule.isOnce

/-- The invariant of a run: a one-shot job that was handed out has no next run. -/
structure Inv (w : World) (handed : List AgentCronDispatch) : Prop where
  store : StoreInv w.store w.used
  drawn : ∀ dispatch ∈ handed, ∃ n < w.used, dispatch.job.id = CronHost.randomUuid n
  spent : ∀ dispatch ∈ handed, dispatch.isOnce = true → ∀ job ∈ w.store.readJobs,
    job.id = dispatch.job.id → job.schedule.isOnce = true ∧ job.nextRunAt = none
  once : ((handed.filter AgentCronDispatch.isOnce).map (·.job.id)).Nodup

variable {w : World} {handed : List AgentCronDispatch}

/-- **A step of the files keeps the invariant of a run.** -/
theorem Inv.step (h : Inv w handed) {used' : ℕ}
    (hstep : FilesStep w.store.files files') (hused : w.used ≤ used') :
    Inv ⟨{ w.store with files := files' }, used'⟩ handed := by
  refine ⟨h.store.step hstep hused, fun d hd => ?_, fun d hd honce job' hjob' hid => ?_, h.once⟩
  · obtain ⟨n, hn, heq⟩ := h.drawn d hd
    exact ⟨n, hn.trans_le hused, heq⟩
  · obtain ⟨job, hjob, hfollows⟩ := exists_of_mem_right hstep.jobs hjob'
    obtain ⟨hjobOnce, hnone⟩ := h.spent d hd honce job hjob (hfollows.id.symm.trans hid)
    exact ⟨hfollows.schedule ▸ hjobOnce, hfollows.spent hjobOnce hnone⟩

theorem Inv.adds (h : Inv w handed) (hadds : Adds w.store job files') (hid : job.id = CronHost.randomUuid w.used) :
    Inv ⟨{ w.store with files := files' }, w.used + 1⟩ handed := by
  refine ⟨h.store.adds hadds hid, fun d hd => ?_, fun d hd honce job' hjob' hid' => ?_, h.once⟩
  · obtain ⟨n, hn, heq⟩ := h.drawn d hd
    exact ⟨n, hn.trans (Nat.lt_succ_self _), heq⟩
  · obtain rfl | hmem := mem_cons.1 (hadds.perm.subset hjob')
    · obtain ⟨n, hn, heq⟩ := h.drawn d hd
      exact absurd (CronHost.randomUuid_injective (hid.symm.trans (hid'.trans heq))) (by omega)
    · exact h.spent d hd honce job' hmem hid'

/-- What a claim hands out. -/
structure HandsOut (files files' : List (Str × CronJobsState)) (dispatches : List AgentCronDispatch) :
    Prop where
  sublist : (dispatches.map (·.job.id)).Sublist ((files.flatMap fun file => file.2.jobs).map (·.id))
  due : ∀ dispatch ∈ dispatches, ∃ file ∈ files, dispatch.job.id ∉ file.2.dispatches.map (·.jobId) ∧
    ∃ job ∈ file.2.jobs, job.id = dispatch.job.id ∧ job.nextRunAt ≠ none
  handed : ∀ dispatch ∈ dispatches, dispatch.job ∈ files'.flatMap (fun file => file.2.jobs) ∧
    (dispatch.job.schedule.isOnce = true → dispatch.job.nextRunAt = none)

theorem handsOut_mutateFiles (dueAt claimedAt : ℤ) (used : ℕ) (files : List (Str × CronJobsState)) :
    HandsOut files (mutateFiles (claimDueInState dueAt claimedAt) used files).1
      (mutateFiles (claimDueInState dueAt claimedAt) used files).2.1 := by
  induction files generalizing used with
  | nil => exact ⟨Sublist.refl _, by simp [mutateFiles], by simp [mutateFiles]⟩
  | cons file files ih =>
    have hclaims := claims_claimJobs (file.2.dispatches.map (·.jobId)) dueAt claimedAt used file.2.jobs
    have hrest := ih (claimDueInState dueAt claimedAt used file.2).used
    refine ⟨?_, fun d hd => ?_, fun d hd => ?_⟩
    · rw [mutateFiles, map_append, flatMap_cons, map_append]
      exact hclaims.sublist.append hrest.sublist
    · obtain hd | hd := mem_append.1 hd
      · exact ⟨file, mem_cons_self, hclaims.free d hd, hclaims.due d hd⟩
      · obtain ⟨file', hfile', hdue⟩ := hrest.due d hd
        exact ⟨file', mem_cons_of_mem _ hfile', hdue⟩
    · rw [mutateFiles, flatMap_cons, mem_append]
      obtain hd | hd := mem_append.1 hd
      · exact ⟨.inl (hclaims.handed d hd).1, (hclaims.handed d hd).2⟩
      · exact ⟨.inr (hrest.handed d hd).1, (hrest.handed d hd).2⟩

theorem filesStep_claimDue (w : World) (dueAt claimedAt : ℤ) :
    FilesStep w.store.files (mutateFiles (claimDueInState dueAt claimedAt) w.used w.store.files).1 ∧
      w.used ≤ (mutateFiles (claimDueInState dueAt claimedAt) w.used w.store.files).2.2 :=
  ⟨filesStep_mutateFiles (fileStep_claimDueInState dueAt claimedAt) _ _,
    le_used_mutateFiles (fun _ _ => le_used_claimJobs _ _ _ _ _) _ _⟩

/-- **A claim that hands out its jobs keeps the invariant.** -/
theorem Inv.claim (h : Inv w handed) (dueAt claimedAt : ℤ) :
    Inv (w.claimDue none dueAt claimedAt).1 (handed ++ (w.claimDue none dueAt claimedAt).2) := by
  obtain ⟨hstep, hused⟩ := filesStep_claimDue w dueAt claimedAt
  have hout := handsOut_mutateFiles dueAt claimedAt w.used w.store.files
  have hinv := h.step hstep hused
  -- A handed out job was in the store and had a next run.
  have hdue : ∀ d ∈ (w.claimDue none dueAt claimedAt).2,
      ∃ job ∈ w.store.readJobs, job.id = d.job.id ∧ job.nextRunAt ≠ none := by
    intro d hd
    obtain ⟨file, hfile, -, job, hjob, hid, hnext⟩ := hout.due d hd
    exact ⟨job, mem_readJobs hfile hjob, hid, hnext⟩
  refine ⟨hinv.store, fun d hd => ?_, fun d hd honce job hjob hid => ?_, ?_⟩
  · obtain hd | hd := mem_append.1 hd
    · exact hinv.drawn d hd
    · obtain ⟨job, hjob, hid, -⟩ := hdue d hd
      obtain ⟨n, hn, heq⟩ := h.store.drawn job hjob
      exact ⟨n, hn.trans_le hused, hid.symm.trans heq⟩
  · obtain hd | hd := mem_append.1 hd
    · exact hinv.spent d hd honce job hjob hid
    · obtain ⟨hmem, hnone⟩ := hout.handed d hd
      obtain rfl := hinv.store.job_unique hjob hmem hid
      exact ⟨honce, hnone honce⟩
  · rw [filter_append, map_append, nodup_append]
    refine ⟨h.once, ?_, fun id hid id' hid' => ?_⟩
    · exact (h.store.ids.sublist hout.sublist).sublist (filter_sublist.map _)
    · rintro rfl
      obtain ⟨d, hd, rfl⟩ := mem_map.1 hid
      obtain ⟨d', hd', heq⟩ := mem_map.1 hid'
      obtain ⟨hd, honce⟩ := mem_filter.1 hd
      obtain ⟨job, hjob, hjobId, hnext⟩ := hdue d' (mem_of_mem_filter hd')
      exact hnext (h.spent d hd honce job hjob (hjobId.trans heq)).2

theorem Inv.perm (h : Inv w handed)
    (hperm : w.store.files.Perm files') : Inv ⟨{ w.store with files := files' }, w.used⟩ handed := by
  have hjobs : w.store.readJobs.Perm (files'.flatMap fun file => file.2.jobs) := hperm.flatMap_right _
  have hback : ∀ job ∈ files'.flatMap (fun file => file.2.jobs), job ∈ w.store.readJobs :=
    fun job hjob => hjobs.symm.subset hjob
  refine ⟨⟨fun file hfile => h.store.files file (hperm.symm.subset hfile), ?_, fun job hjob => ?_, ?_,
    fun hmode file hfile => h.store.sessions hmode file (hperm.symm.subset hfile), fun hmode => ?_⟩, h.drawn,
    fun d hd honce job hjob => h.spent d hd honce job (hback job hjob), h.once⟩
  · exact (hjobs.map _).nodup_iff.1 h.store.ids
  · exact h.store.drawn job (hback job hjob)
  · exact (hperm.map _).nodup_iff.1 h.store.keys
  · rw [← h.store.single hmode]
    exact hperm.length_eq.symm

/-- **The invariant holds in every run.** -/
theorem Reached.inv (h : Reached w handed) : Inv w handed := by
  induction h with
  | start sessionArtifactMode keys hkeys hsingle =>
    have hread : ((keys.map fun key => (key, (⟨[], []⟩ : CronJobsState))).flatMap fun file =>
        file.2.jobs) = [] := by simp
    refine ⟨⟨?_, ?_, ?_, ?_, ?_, ?_⟩, by simp, by simp, nodup_nil⟩
    · simp only [forall_mem_map]
      exact fun _ _ => ⟨nodup_nil, by simp⟩
    · rw [Store.readJobs, hread]
      exact nodup_nil
    · simp [Store.readJobs]
    · simpa [Function.comp_def] using hkeys
    · simp
    · intro hmode
      simpa using hsingle hmode
  | reordered _ hperm ih => exact ih.perm hperm
  | @create w handed stop input _ ih =>
    obtain hsame | hused | ⟨job, files', hadds, hid, hfiles⟩ := create_cases ih.store stop input
    · exact hsame.symm ▸ ih
    · exact hused.symm ▸ ih.step (.refl _) (Nat.le_succ _)
    · exact hfiles.symm ▸ ih.adds hadds hid
  | @claimDue w handed stop dueAt claimedAt _ ih =>
    cases stop with
    | none => exact ih.claim dueAt claimedAt
    | some count =>
      obtain ⟨hstep, hused⟩ := filesStep_claimDue w dueAt claimedAt
      have hnothing : (w.claimDue (some count) dueAt claimedAt).2 = [] := rfl
      rw [hnothing, append_nil]
      exact ih.step (hstep.written (some count)) hused
  | recordDispatchResult stop dispatchId now outcome error _ ih =>
    exact ih.step ((filesStep_mutateFiles
      (fun _ => fileStep_recordDispatchInState dispatchId now outcome error) _ _).written stop)
      (le_used_mutateFiles (fun _ _ => le_rfl) _ _)
  | recoverInterruptedDispatches stop now _ ih =>
    exact ih.step ((filesStep_mutateFiles (fun _ => fileStep_recoverInterruptedInState none now) _ _).written stop)
      (le_used_mutateFiles (fun _ _ => le_rfl) _ _)
  | cancel stop id now _ ih =>
    have hchange : ∀ job job', cancelJob id now job = some job' → Follows job job' := fun _ _ => follows_cancelJob
    obtain ⟨files', hstep, hfiles⟩ := filesStep_updateJobs ih.store hchange stop
    exact hfiles.symm ▸ ih.step hstep le_rfl

/-! ### At most once -/

omit [CronHost] in
theorem length_filter_le_one {α : Type} {f : α → Str} {l : List α} (h : (l.map f).Nodup) (k : Str) :
    (l.filter fun a => f a = k).length ≤ 1 := by
  have hcount := nodup_iff_count_le_one.1 h k
  rw [count_eq_countP, countP_map, countP_eq_length_filter] at hcount
  have hfilter : (l.filter fun a => f a = k) = l.filter ((fun x => x == k) ∘ f) :=
    filter_congr fun a _ => by rw [Bool.eq_iff_iff]; simp
  rwa [hfilter]

/-- **Scheduled jobs never fire twice**: every job has at most one open record, no job with an open
record is claimed, and a one-shot job is handed out at most once. -/
theorem claims_at_most_once (h : Reached w handed) :
    (∀ id, (w.store.openRecords.filter fun record => record.jobId = id).length ≤ 1) ∧
    (∀ (stop : Option ℕ) (dueAt claimedAt : ℤ),
      (∀ dispatch ∈ (w.claimDue stop dueAt claimedAt).2, ∀ record ∈ w.store.openRecords,
        record.jobId ≠ dispatch.job.id) ∧
      ∀ record' ∈ (w.claimDue stop dueAt claimedAt).1.store.openRecords, record' ∉ w.store.openRecords →
        ∀ record ∈ w.store.openRecords, record.jobId ≠ record'.jobId) ∧
    ∀ id, (handed.filter fun dispatch => dispatch.job.schedule.isOnce && dispatch.job.id = id).length ≤ 1 := by
  have hinv := h.inv
  refine ⟨length_filter_le_one hinv.store.nodup_openRecords, fun stop dueAt claimedAt => ⟨?_, ?_⟩, fun id => ?_⟩
  · intro d hd
    have hout := handsOut_mutateFiles dueAt claimedAt w.used w.store.files
    cases stop with
    | some count => cases hd
    | none =>
      obtain ⟨file, hfile, hfree, job, hjob, hid, -⟩ := hout.due d hd
      exact hinv.store.no_record hfile (mem_map.2 ⟨job, hjob, hid⟩) hfree
  · intro record' hrecord' hnew
    exact hinv.store.no_record_of_new ((filesStep_claimDue w dueAt claimedAt).1.written stop) hrecord' hnew
  · have hone := length_filter_le_one hinv.once id
    rw [filter_filter] at hone
    convert hone using 4
    exact Bool.and_comm _ _

/-- **Jobs stay in the files of their sessions**: in every store that is reached the jobs of all
files have distinct identifiers, an open record is for a job of its own file, and the file of a
session has jobs of that session only. -/
theorem jobs_in_own_files (h : Reached w handed) : (w.store.readJobs.map (·.id)).Nodup ∧
    ∀ file ∈ w.store.files, (∀ record ∈ file.2.dispatches, record.jobId ∈ file.2.jobs.map (·.id)) ∧
      (w.store.sessionArtifactMode = true → ∀ job ∈ file.2.jobs, job.sessionId = file.1) := by
  have hstore := h.inv.store
  exact ⟨hstore.ids, fun file hfile => ⟨(hstore.files file hfile).known, fun hmode => hstore.sessions hmode file hfile⟩⟩

end

namespace Sample

/-- Every text is the one-shot schedule in a minute, and identifiers are numbers. -/
scoped instance cronHost : CronHost where
  nextCronRunAfter _ _ := none
  parseAgentCronSchedule text now := .ok (.once text, now + 60000)
  randomUuid := Str.dec
  randomUuid_injective := Str.dec_injective

def remind : CreateAgentCronJobInput := ⟨"s", "look again", "in 1m", 0⟩

/-- A store with one job file and one job. -/
def created : World := ((⟨⟨false, [("jobs", ⟨[], []⟩)]⟩, 0⟩ : World).create none remind).1

/-- The job has been claimed, its result recorded, and due jobs claimed again. -/
def claimedAgain : World × List AgentCronDispatch :=
  let claimed := created.claimDue none 60000 60000
  let settled := claimed.1.recordDispatchResult none "1" 60001 .ran none
  let again := settled.1.claimDue none 60002 60002
  (again.1, claimed.2 ++ again.2)

theorem reached_claimedAgain : Reached claimedAgain.1 claimedAgain.2 :=
  .claimDue none 60002 60002 (.recordDispatchResult none "1" 60001 .ran none
    (.claimDue none 60000 60000 (.create none remind (.start false ["jobs"] (nodup_singleton _) fun _ => rfl))))

/-- Two sessions with their own files, and a job for each. -/
def twoSessions : World :=
  (((⟨⟨true, [("s", ⟨[], []⟩), ("t", ⟨[], []⟩)]⟩, 0⟩ : World).create none remind).1.create none
    { remind with sessionId := "t" }).1

theorem reached_twoSessions : Reached twoSessions [] :=
  .create none _ (.create none remind (.start true ["s", "t"] (by decide) nofun))

end Sample

theorem jobs_in_own_files_twoSessions :
    Sample.twoSessions.store.files.map (fun file => (file.1, file.2.jobs.map (·.sessionId))) =
      ([("s", ["s"]), ("t", ["t"])] : List (Str × List Str)) ∧ (Sample.twoSessions.store.readJobs.map (·.id)).Nodup :=
  ⟨by decide +kernel, (@jobs_in_own_files Sample.cronHost _ _ Sample.reached_twoSessions).1⟩

theorem claims_at_most_once_remind : Sample.claimedAgain.2.map (·.job.prompt) = ["look again"] ∧
      (Sample.claimedAgain.2.filter fun dispatch =>
        dispatch.job.schedule.isOnce && dispatch.job.id = ("0" : Str)).length ≤ 1 :=
  ⟨by decide +kernel, (@claims_at_most_once Sample.cronHost _ _ Sample.reached_claimedAgain).2.2 "0"⟩

end Cron
