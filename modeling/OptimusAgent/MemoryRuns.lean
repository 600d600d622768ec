/-
**Memory events commit at most once.**

Any number of processes call `apply`, `restore` and `rollback` on one project store.  What is done
under the lock is one step; the read of `rollback` is a step of its own, so that its edits may be
applied to a document that has changed since.

A receipt is never lost: `apply` adds one, and `restore` keeps those of the document it replaces.
Every backup is of an earlier document, so its receipts are known, and the results in its history
have receipts.
-/

import OptimusAgent.MemoryStore

namespace Memory

open Str Checked List IndexMap

variable {M : Type}

/-! ### What a call can do -/

/-- An event that was committed: its identifier, the revision it expected, and its result. -/
structure Commit (M : Type) where
  eventId : Str
  expectedRevision : ℤ
  result : RefinementResult M

/-- A document after a commit. -/
structure CommitsTo (document document' : MemoryDocument M) (commit : Commit M) : Prop where
  unknown : document.events.get? commit.eventId = none
  revision : document.revision = commit.expectedRevision
  revision' : document'.revision = document.revision + 1
  history : document'.history = document.history ++ [commit.result.asRead]
  events : ∃ receipt, document'.events = document.events.insert commit.eventId receipt
  id : commit.result.id = commit.eventId

section

variable {V S : Type} [MemoryHost M V S] [DecidableEq V] {proposal : RefinementProposal M}

theorem commitProposal_committed {store : MemoryStore} {now : ℕ → Str} {document : MemoryDocument M}
    {options : ApplyOptions S} {plan : Plan M}
    (h : commitProposal V store now document proposal options = .ok plan) :
    ∃ (document' : MemoryDocument M) (result : RefinementResult M), plan = .committed document' result ∧
      document'.revision = document.revision + 1 ∧ document'.history = document.history ++ [result.asRead] ∧
      (∃ receipt, document'.events = document.events.insert options.eventId receipt) ∧
      result.id = options.eventId := by
  rw [commitProposal, bind_eq_ok] at h
  obtain ⟨edits, -, h⟩ := h
  rw [rejectIf_bind_eq_ok] at h
  obtain ⟨-, h⟩ := h
  cases h
  exact ⟨_, _, rfl, rfl, rfl, ⟨_, rfl⟩, rfl⟩

theorem planApply_committed {store : MemoryStore} {learning : Bool} {now : ℕ → Str}
    {document document' : MemoryDocument M} {options : ApplyOptions S}
    {result : RefinementResult M}
    (h : planApply V store learning now document proposal options = .ok (.committed document' result)) :
    CommitsTo document document' ⟨options.eventId, options.expectedRevision, result⟩ := by
  rw [planApply] at h
  cases hprior : document.events.get? options.eventId with
  | some prior =>
    rw [hprior] at h
    dsimp only at h
    split_ifs at h
    split at h <;> cases h
  | none =>
    rw [hprior] at h
    dsimp only at h
    rw [rejectIf_bind_eq_ok, rejectIf_bind_eq_ok, rejectIf_bind_eq_ok] at h
    obtain ⟨-, hrevision, -, h⟩ := h
    obtain ⟨document'', result', hplan, hrevision', hhistory, hevents, hid⟩ := commitProposal_committed h
    cases hplan
    exact ⟨hprior, not_not.1 hrevision, hrevision', hhistory, hevents, hid⟩

/-- A known event identifier is answered with the result found in the history. -/
theorem planApply_known (store : MemoryStore) (learning : Bool) (now : ℕ → Str) (document : MemoryDocument M)
    (proposal : RefinementProposal M) (options : ApplyOptions S)
    (hknown : (document.events.get? options.eventId).isSome = true) :
    (∃ error, planApply V store learning now document proposal options = .error error) ∨
      ∃ result ∈ document.history, result.id = options.eventId ∧
        planApply V store learning now document proposal options = .ok (.recorded result) := by
  obtain ⟨prior, hprior⟩ := Option.isSome_iff_exists.1 hknown
  rw [planApply, hprior]
  dsimp only
  split_ifs
  · exact .inl ⟨_, rfl⟩
  · cases hfind : document.history.find? fun item => item.id = options.eventId with
    | none => exact .inl ⟨_, rfl⟩
    | some result => exact .inr ⟨result, mem_of_find?_eq_some hfind, by simpa using List.find?_some hfind, rfl⟩

/-- A disk whose document is the same, perhaps with a new backup of it. -/
def SameDocument (V S : Type) [MemoryHost M V S] (disk disk' : Disk M) : Prop :=
  disk' = disk ∨ disk' = disk.backedUp V S

omit [DecidableEq V] in
theorem SameDocument.document_eq {disk disk' : Disk M} (h : SameDocument V S disk disk') :
    disk'.document = disk.document := by
  obtain rfl | rfl := h <;> rfl

/-- **What `apply` can do**: leave the document, or commit. -/
theorem apply_cases (store : MemoryStore) (faults : Faults) (learning : Bool) (now : ℕ → Str) (disk : Disk M)
    (proposal : RefinementProposal M) (options : ApplyOptions S) :
    SameDocument V S disk (store.apply V S faults learning now disk proposal options).1 ∨
      ∃ (document' : MemoryDocument M) (result : RefinementResult M),
        store.apply V S faults learning now disk proposal options =
          ({ disk.backedUp V S with document := document' }, .ok result) ∧
        CommitsTo disk.document document' ⟨options.eventId, options.expectedRevision, result⟩ := by
  rw [MemoryStore.apply]
  split
  · exact .inl (.inl rfl)
  · exact .inl (.inl rfl)
  · exact .inl (.inl rfl)
  · next document' result _ hplan =>
    split
    · exact .inl (.inl rfl)
    · exact .inl (.inr rfl)
    · exact .inr ⟨document', result, rfl, planApply_committed hplan⟩

omit [DecidableEq V] in
/-- **What `restore` can do**: leave the document, or put a backup in its place. -/
theorem restore_cases (faults : Faults) (disk : Disk M) (id : Str) :
    SameDocument V S disk (MemoryStore.restore V S faults disk id).1 ∨
      ∃ older, disk.backups.get? id = some older ∧ MemoryStore.restore V S faults disk id =
          ({ disk.backedUp V S with document := restoredDocument disk.document older },
            .ok (disk.document.revision + 1)) := by
  rw [MemoryStore.restore]
  split_ifs
  · split
    · exact .inl (.inl rfl)
    · exact .inl (.inl rfl)
    · next older _ holder =>
      split
      · exact .inl (.inl rfl)
      · exact .inl (.inr rfl)
      · exact .inr ⟨older, holder, rfl⟩
  · exact .inl (.inl rfl)

end

/-! ### Runs -/

/-- The edits of a rollback that has read the document and not yet applied them. -/
structure PendingRollback (M : Type) where
  proposal : RefinementProposal M
  id : Str
  expectedRevision : ℤ

/-- The files of a project, the rollbacks the processes `ι` have begun, and the events committed so
far. -/
structure Project (M ι : Type) where
  disk : Disk M
  pending : ι → Option (PendingRollback M)
  commits : List (Commit M)

/-- A call of a process, with what its surroundings decide. -/
inductive Call (M S ι : Type) where
  | apply (store : MemoryStore) (faults : Faults) (learning : Bool) (now : ℕ → Str)
      (proposal : RefinementProposal M) (options : ApplyOptions S)
  | restore (faults : Faults) (id : Str)
  | rollbackRead (process : ι) (id : Str) (expectedRevision : ℤ)
  | rollbackApply (process : ι) (store : MemoryStore) (faults : Faults) (learning : Bool) (now : ℕ → Str)

section

variable (V S : Type) {ι : Type} [MemoryHost M V S] [DecidableEq V] [DecidableEq ι]

/-- A project before any call. -/
def Project.init (ι : Type) (disk : Disk M) : Project M ι := ⟨disk, fun _ => none, []⟩

/-- One call of `apply`.  A call commits when it leaves a document with another revision. -/
def Project.apply (project : Project M ι) (store : MemoryStore) (faults : Faults) (learning : Bool)
    (now : ℕ → Str) (proposal : RefinementProposal M) (options : ApplyOptions S) :
    Project M ι × Except Str Unit :=
  let applied := store.apply V S faults learning now project.disk proposal options
  match applied.2 with
  | .error error => ({ project with disk := applied.1 }, .error error)
  | .ok result =>
    ({ project with
        disk := applied.1
        commits := if applied.1.document.revision = project.disk.document.revision then project.commits
          else project.commits ++ [⟨options.eventId, options.expectedRevision, result⟩] }, .ok ())

/-- One call, or one half of a rollback, and whether it succeeds. -/
def Project.step (project : Project M ι) : Call M S ι → Project M ι × Except Str Unit
  | .apply store faults learning now proposal options =>
    project.apply V S store faults learning now proposal options
  | .restore faults id =>
    let restored := MemoryStore.restore V S faults project.disk id
    ({ project with disk := restored.1 }, restored.2.map fun _ => ())
  | .rollbackRead process id expectedRevision =>
    match rollbackProposal V S project.disk.document id with
    | .error error => (project, .error error)
    | .ok proposal =>
      ({ project with
          pending := Function.update project.pending process (some ⟨proposal, id, expectedRevision⟩) },
        .ok ())
  | .rollbackApply process store faults learning now =>
    match project.pending process with
    | none => (project, .ok ())
    | some rollback =>
      Project.apply V S { project with pending := Function.update project.pending process none } store
        faults learning now rollback.proposal (rollbackOptions S rollback.id rollback.expectedRevision)

/-- A run of calls. -/
def Project.run (project : Project M ι) (calls : List (Call M S ι)) : Project M ι :=
  calls.foldl (fun project call => (project.step V S call).1) project

end

/-! ### The invariant -/

/-- The documents on a disk: the current one and the backups. -/
def Disk.Has (disk : Disk M) (document : MemoryDocument M) : Prop :=
  document = disk.document ∨ ∃ id, disk.backups.get? id = some document

/-- The receipts of a store are complete: every result in a history has one, and the current
document knows those of every backup.  A store without a file is so, and the calls keep it so. -/
structure Undamaged (disk : Disk M) : Prop where
  receipts : ∀ document, disk.Has document → ∀ item ∈ document.history, item.id ∈ document.events.keys
  known : ∀ document, disk.Has document → ∀ id ∈ document.events.keys, id ∈ disk.document.events.keys

/-- The invariant of a run. -/
structure Project.Holds {ι : Type} (project : Project M ι) : Prop where
  undamaged : Undamaged project.disk
  committed : ∀ commit ∈ project.commits, commit.eventId ∈ project.disk.document.events.keys
  recorded : ∀ commit ∈ project.commits, ∀ document, project.disk.Has document →
    ∀ item ∈ document.history, item.id = commit.eventId → item = commit.result.asRead
  eventIds : (project.commits.map Commit.eventId).Nodup
  below : ∀ commit ∈ project.commits, commit.expectedRevision < project.disk.document.revision
  revisions : (project.commits.map Commit.expectedRevision).Nodup

theorem undamaged_empty : Undamaged (⟨emptyDocument M, empty⟩ : Disk M) where
  receipts := by
    rintro document (rfl | ⟨id, hid⟩) item hitem
    · exact absurd hitem not_mem_nil
    · cases hid
  known := by
    rintro document (rfl | ⟨id, hid⟩) key hkey
    · exact hkey
    · cases hid

theorem Project.Holds.init {ι : Type} {disk : Disk M} (h : Undamaged disk) :
    (Project.init ι disk).Holds where
  undamaged := h
  committed := by simp [Project.init]
  recorded := by simp [Project.init]
  eventIds := nodup_nil
  below := by simp [Project.init]
  revisions := nodup_nil

section

variable {V S ι : Type} [MemoryHost M V S] {disk : Disk M} {document' document : MemoryDocument M}

/-- A new backup is of the current document. -/
theorem Disk.has_backedUp (h : ({ disk.backedUp V S with document := document' } : Disk M).Has document) :
    document = document' ∨ disk.Has document := by
  obtain rfl | ⟨id, hid⟩ := h
  · exact .inl rfl
  · dsimp only [Disk.backedUp] at hid
    rw [get?_insert] at hid
    split_ifs at hid
    · exact .inr (.inl (Option.some.inj hid).symm)
    · exact .inr (.inr ⟨id, hid⟩)

theorem SameDocument.has {disk' : Disk M} (h : SameDocument V S disk disk')
    (hhas : disk'.Has document) : disk.Has document := by
  obtain rfl | rfl := h
  · exact hhas
  · exact (Disk.has_backedUp hhas).elim .inl id

/-- A document that knows the receipts of the current one may take its place. -/
theorem Undamaged.replace (h : Undamaged disk) (hreceipts : ∀ item ∈ document'.history, item.id ∈ document'.events.keys)
    (hknown : ∀ id ∈ disk.document.events.keys, id ∈ document'.events.keys) :
    Undamaged ({ disk.backedUp V S with document := document' } : Disk M) where
  receipts document hhas := by
    obtain rfl | hhas := Disk.has_backedUp hhas
    · exact hreceipts
    · exact h.receipts document hhas
  known document hhas id hid := by
    obtain rfl | hhas := Disk.has_backedUp hhas
    · exact hid
    · exact hknown id (h.known document hhas id hid)

theorem Undamaged.same {disk' : Disk M} (h : Undamaged disk) (hsame : SameDocument V S disk disk') :
    Undamaged disk' where
  receipts document hhas := h.receipts document (hsame.has hhas)
  known document hhas id hid := by
    rw [hsame.document_eq]
    exact h.known document (hsame.has hhas) id hid

variable {project project' : Project M ι}

theorem Project.Holds.same (h : project.Holds)
    (hsame : SameDocument V S project.disk project'.disk) (hcommits : project'.commits = project.commits) :
    project'.Holds where
  undamaged := h.undamaged.same hsame
  committed := by
    rw [hcommits, hsame.document_eq]
    exact h.committed
  recorded := by
    rw [hcommits]
    exact fun commit hcommit document hhas => h.recorded commit hcommit document (hsame.has hhas)
  eventIds := hcommits ▸ h.eventIds
  below := by
    rw [hcommits, hsame.document_eq]
    exact h.below
  revisions := hcommits ▸ h.revisions

/-- No document on the disk has a result under an identifier that is unknown. -/
theorem Undamaged.id_ne (h : Undamaged disk) {eventId : Str}
    (hunknown : eventId ∉ disk.document.events.keys) (hhas : disk.Has document)
    {item : RefinementResult M} (hitem : item ∈ document.history) : item.id ≠ eventId := by
  rintro rfl
  exact hunknown (h.known document hhas _ (h.receipts document hhas item hitem))

/-- A commit keeps the invariant. -/
theorem Project.Holds.commit (h : project.Holds) {commit : Commit M}
    (hdisk : project'.disk = { project.disk.backedUp V S with document := document' })
    (hcommits : project'.commits = project.commits ++ [commit])
    (hto : CommitsTo project.disk.document document' commit) : project'.Holds := by
  have hunknown := get?_eq_none_iff.1 hto.unknown
  obtain ⟨receipt, hevents⟩ := hto.events
  have hkeys : ∀ id, id ∈ document'.events.keys ↔ id = commit.eventId ∨ id ∈ project.disk.document.events.keys := by
    intro id
    rw [hevents, mem_keys_insert]
  have hhistory : ∀ item ∈ document'.history, item ∈ project.disk.document.history ∨ item = commit.result.asRead := by
    intro item hitem
    rwa [hto.history, mem_append, mem_singleton] at hitem
  have hasReadId : commit.result.asRead.id = commit.eventId := hto.id
  have hrevision : project'.disk.document.revision = project.disk.document.revision + 1 := by
    rw [hdisk]
    exact hto.revision'
  refine ⟨?_, ?_, ?_, ?_, ?_, ?_⟩
  · rw [hdisk]
    refine h.undamaged.replace ?_ fun id hid => (hkeys id).2 (.inr hid)
    intro item hitem
    rw [hkeys]
    obtain hitem | rfl := hhistory item hitem
    · exact .inr (h.undamaged.receipts _ (.inl rfl) item hitem)
    · exact .inl hasReadId
  · rw [hcommits, hdisk, forall_mem_append, forall_mem_singleton]
    exact ⟨fun c hc => (hkeys _).2 (.inr (h.committed c hc)), (hkeys _).2 (.inl rfl)⟩
  · intro c hc document hhas item hitem hid
    rw [hdisk] at hhas
    rw [hcommits, mem_append, mem_singleton] at hc
    -- An item of the old disk has another identifier than the new commit; the new item has no
    -- other.
    have hold : project.disk.Has document ∨ item = commit.result.asRead ∨ item ∈ project.disk.document.history := by
      obtain rfl | hhas := Disk.has_backedUp hhas
      · exact .inr (hhistory item hitem).symm
      · exact .inl hhas
    obtain hc | rfl := hc
    · obtain hhas | rfl | hitem := hold
      · exact h.recorded c hc document hhas item hitem hid
      · rw [hasReadId] at hid
        exact absurd (hid ▸ h.committed c hc) hunknown
      · exact h.recorded c hc _ (.inl rfl) item hitem hid
    · obtain hhas | rfl | hitem := hold
      · exact absurd hid (h.undamaged.id_ne hunknown hhas hitem)
      · rfl
      · exact absurd hid (h.undamaged.id_ne hunknown (.inl rfl) hitem)
  · rw [hcommits, map_append, map_singleton, ← concat_eq_append, nodup_concat]
    refine ⟨fun hmem => ?_, h.eventIds⟩
    obtain ⟨c, hc, heq⟩ := mem_map.1 hmem
    exact hunknown (heq ▸ h.committed c hc)
  · rw [hcommits, hrevision, forall_mem_append, forall_mem_singleton]
    exact ⟨fun c hc => (h.below c hc).trans (lt_add_one _), hto.revision ▸ lt_add_one _⟩
  · rw [hcommits, map_append, map_singleton, ← concat_eq_append, nodup_concat]
    refine ⟨fun hmem => ?_, h.revisions⟩
    obtain ⟨c, hc, heq⟩ := mem_map.1 hmem
    exact (h.below c hc).ne (heq.trans hto.revision.symm)

theorem mem_keys_restoredDocument {current older : MemoryDocument M} {id : Str} :
    id ∈ (restoredDocument current older).events.keys ↔ id ∈ current.events.keys ∨ id ∈ older.events.keys :=
  mem_keys_foldl_insert _

/-- A restore keeps the invariant. -/
theorem Project.Holds.restore (h : project.Holds)
    {older : MemoryDocument M} (holder : project.disk.Has older)
    (hdisk : project'.disk =
      { project.disk.backedUp V S with document := restoredDocument project.disk.document older })
    (hcommits : project'.commits = project.commits) : project'.Holds where
  undamaged := by
    rw [hdisk]
    refine h.undamaged.replace ?_ fun id hid => mem_keys_restoredDocument.2 (.inl hid)
    intro item hitem
    exact mem_keys_restoredDocument.2 (.inr (h.undamaged.receipts older holder item hitem))
  committed := by
    rw [hcommits, hdisk]
    exact fun c hc => mem_keys_restoredDocument.2 (.inl (h.committed c hc))
  recorded := by
    rw [hcommits, hdisk]
    intro c hc document hhas item hitem
    obtain rfl | hhas := Disk.has_backedUp hhas
    · exact h.recorded c hc older holder item hitem
    · exact h.recorded c hc document hhas item hitem
  eventIds := hcommits ▸ h.eventIds
  below := by
    rw [hcommits, hdisk]
    intro c hc
    have hbelow := h.below c hc
    change c.expectedRevision < project.disk.document.revision + 1
    omega
  revisions := hcommits ▸ h.revisions

end

/-! ### What one call of a run does -/

section

variable {V S ι : Type} [MemoryHost M V S] [DecidableEq V] [DecidableEq ι]

/-- **What one call does**: it leaves the document and the commits; or it succeeds, commits one
event or restores a backup, and raises the revision by one. -/
inductive Project.Moves (V S : Type) [MemoryHost M V S] (project project' : Project M ι)
    (reply : Except Str Unit) : Prop where
  | same (hsame : SameDocument V S project.disk project'.disk)
      (hcommits : project'.commits = project.commits)
  | commit (document' : MemoryDocument M) (commit : Commit M)
      (hdisk : project'.disk = { project.disk.backedUp V S with document := document' })
      (hcommits : project'.commits = project.commits ++ [commit])
      (hto : CommitsTo project.disk.document document' commit) (hreply : reply = .ok ())
  | restore (older : MemoryDocument M) (holder : project.disk.Has older) (hdisk : project'.disk =
        { project.disk.backedUp V S with document := restoredDocument project.disk.document older })
      (hcommits : project'.commits = project.commits) (hreply : reply = .ok ())

omit [DecidableEq ι] in
theorem Project.apply_moves (project : Project M ι) (store : MemoryStore) (faults : Faults) (learning : Bool)
    (now : ℕ → Str) (proposal : RefinementProposal M) (options : ApplyOptions S) :
    Project.Moves V S project (project.apply V S store faults learning now proposal options).1
      (project.apply V S store faults learning now proposal options).2 := by
  rw [Project.apply]
  obtain hsame | ⟨document', result, happly, hto⟩ :=
    apply_cases (V := V) store faults learning now project.disk proposal options
  · split
    · exact .same hsame rfl
    · exact .same hsame (if_pos (congrArg MemoryDocument.revision hsame.document_eq))
  · rw [happly]
    refine .commit document' _ rfl (if_neg ?_) hto rfl
    rw [hto.revision']
    omega

theorem Project.step_moves (project : Project M ι) (call : Call M S ι) :
    Project.Moves V S project (project.step V S call).1 (project.step V S call).2 := by
  cases call with
  | apply store faults learning now proposal options => exact project.apply_moves ..
  | restore faults id =>
    rw [Project.step]
    obtain hsame | ⟨older, holder, hrestore⟩ := restore_cases (V := V) (S := S) faults project.disk id
    · exact .same hsame rfl
    · rw [hrestore]
      exact .restore older (.inr ⟨id, holder⟩) rfl rfl rfl
  | rollbackRead process id expectedRevision =>
    rw [Project.step]
    split
    · exact .same (.inl rfl) rfl
    · exact .same (.inl rfl) rfl
  | rollbackApply process store faults learning now =>
    rw [Project.step]
    split
    · exact .same (.inl rfl) rfl
    · next rollback _ =>
      -- The pending rollback is no part of what a call changes on the disk.
      have hmoves := Project.apply_moves (V := V)
        { project with pending := Function.update project.pending process none } store faults learning now
        rollback.proposal (rollbackOptions S rollback.id rollback.expectedRevision)
      cases hmoves with
      | same hsame hcommits => exact .same hsame hcommits
      | commit document' commit hdisk hcommits hto hreply =>
        exact .commit document' commit hdisk hcommits hto hreply
      | restore older holder hdisk hcommits hreply => exact .restore older holder hdisk hcommits hreply

theorem Project.Holds.step {project : Project M ι} (h : project.Holds) (call : Call M S ι) :
    (project.step V S call).1.Holds := by
  cases Project.step_moves (V := V) project call with
  | same hsame hcommits => exact h.same hsame hcommits
  | commit document' commit hdisk hcommits hto => exact h.commit hdisk hcommits hto
  | restore older holder hdisk hcommits => exact h.restore holder hdisk hcommits

theorem Project.Holds.run {project : Project M ι} (h : project.Holds) (calls : List (Call M S ι)) :
    (project.run V S calls).Holds := by
  induction calls generalizing project with
  | nil => exact h
  | cons call calls ih => exact ih (h.step call)

/-- An `apply` under a known identifier changes nothing and replies from the history. -/
theorem apply_known (store : MemoryStore) (faults : Faults) (learning : Bool) (now : ℕ → Str) (disk : Disk M)
    (proposal : RefinementProposal M) (options : ApplyOptions S)
    (hknown : options.eventId ∈ disk.document.events.keys) :
    (store.apply V S faults learning now disk proposal options).1 = disk ∧
      ((∃ error, (store.apply V S faults learning now disk proposal options).2 = .error error) ∨
        ∃ result ∈ disk.document.history, result.id = options.eventId ∧
          (store.apply V S faults learning now disk proposal options).2 = .ok result) := by
  have hsome : (disk.document.events.get? options.eventId).isSome = true := by
    rw [Option.isSome_iff_ne_none]
    exact mt get?_eq_none_iff.1 (not_not.2 hknown)
  rw [MemoryStore.apply]
  cases faults.lock with
  | some error => exact ⟨rfl, .inl ⟨error, rfl⟩⟩
  | none =>
    obtain ⟨error, hplan⟩ | ⟨result, hmem, hid, hplan⟩ :=
      planApply_known (V := V) store learning now disk.document proposal options hsome
    · rw [hplan]
      exact ⟨rfl, .inl ⟨error, rfl⟩⟩
    · rw [hplan]
      exact ⟨rfl, .inr ⟨result, hmem, hid, rfl⟩⟩

/-- **An event is committed at most once, and no commit is lost.**  In every run from a store whose
receipts are complete: no event identifier is committed twice, and of the calls that expected one
revision at most one commits; a further `apply` under a committed identifier leaves the disk as it
is and replies with the recorded result or an error; and a call leaves the document and the commits
as they are, or succeeds and raises the revision by one. -/
theorem commits_at_most_once (disk : Disk M) (hdisk : Undamaged disk) (calls : List (Call M S ι)) :
    let project := (Project.init ι disk).run V S calls
    (project.commits.map Commit.eventId).Nodup ∧
    (project.commits.map Commit.expectedRevision).Nodup ∧
    (∀ commit ∈ project.commits, ∀ (store : MemoryStore) (faults : Faults) (learning : Bool)
      (now : ℕ → Str) (proposal : RefinementProposal M) (options : ApplyOptions S),
      options.eventId = commit.eventId →
        (store.apply V S faults learning now project.disk proposal options).1 = project.disk ∧
        ((store.apply V S faults learning now project.disk proposal options).2 = .ok commit.result.asRead ∨
          ∃ error, (store.apply V S faults learning now project.disk proposal options).2 = .error error)) ∧
    ∀ call : Call M S ι, ((project.step V S call).1.disk.document = project.disk.document ∧
        (project.step V S call).1.commits = project.commits) ∨
      ((project.step V S call).2 = .ok () ∧
        (project.step V S call).1.disk.document.revision = project.disk.document.revision + 1) := by
  intro project
  have h : project.Holds := (Project.Holds.init hdisk).run calls
  refine ⟨h.eventIds, h.revisions, ?_, ?_⟩
  · intro commit hcommit store faults learning now proposal options hid
    obtain ⟨hsame, hreply⟩ := apply_known (V := V) store faults learning now project.disk proposal options
      (hid ▸ h.committed commit hcommit)
    refine ⟨hsame, ?_⟩
    obtain ⟨error, herror⟩ | ⟨result, hmem, hresult, hok⟩ := hreply
    · exact .inr ⟨error, herror⟩
    · rw [h.recorded commit hcommit _ (.inl rfl) result hmem (hresult.trans hid)] at hok
      exact .inl hok
  · intro call
    cases Project.step_moves (V := V) project call with
    | same hsame hcommits => exact .inl ⟨hsame.document_eq, hcommits⟩
    | commit document' commit hdisk hcommits hto hreply =>
      refine .inr ⟨hreply, ?_⟩
      rw [hdisk]
      exact hto.revision'
    | restore older holder hdisk hcommits hreply =>
      refine .inr ⟨hreply, ?_⟩
      rw [hdisk]
      rfl

end

namespace Sample

/-- A host whose objects are empty and whose patterns match every text. -/
scoped instance memoryHost : MemoryHost Unit Unit Unit where
  empty := ()
  get _ _ := none
  insert _ _ _ := ()
  remove _ _ := ()
  entries _ := []
  asStr _ := none
  ofStr _ := ()
  toLowercase text := text
  isMatch _ _ := true
  hash payload := payload.proposal.summary
  digest document := document.history.flatMap (·.id)
  entryText entry := (entry.map (·.content)).getD []
  asSources _ := none
  ofSources _ := ()

def noFaults : Faults := ⟨none, none, none, []⟩

/-- A call that records a memory under an event identifier. -/
def remember (eventId content : Str) (expectedRevision : ℤ) : Call Unit Unit Unit :=
  .apply ⟨[], [], []⟩ noFaults true (fun _ => [])
    ⟨content, [], [⟨"create", "memory", some content, some content, some content, none, none, none, none, none⟩], []⟩
    ⟨eventId, expectedRevision, none, false, false, false⟩

end Sample

open Sample in
/-- Two events, a retry, a return to the first backup and a retry of what it has forgotten. -/
theorem commits_at_most_once_restored :
    let disk : Disk Unit := ⟨emptyDocument Unit, .empty⟩
    let calls := [remember "a" "tea" 0, remember "b" "milk" 1, remember "a" "tea" 2,
      .restore noFaults "backup_0_", remember "b" "milk" 3]
    let project := (Project.init Unit disk).run Unit Unit calls
    Undamaged disk ∧ project.commits.map Commit.eventId = ["a", "b"] ∧
      project.disk.document.revision = 3 ∧ (project.commits.map Commit.eventId).Nodup :=
  ⟨undamaged_empty, by decide +kernel, by decide +kernel,
    (commits_at_most_once (V := Unit) (S := Unit) (ι := Unit) _ undamaged_empty _).1⟩

end Memory
