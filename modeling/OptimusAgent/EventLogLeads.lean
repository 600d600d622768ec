/-
**The records that lead an event log.**

Each append of an event log may pass a hook whose records lead a file that the append creates.  With
a shared buffer the decision and the creation are apart: an append looks at the file, then takes the
lock of the buffer and decides by what it saw and by the bytes that wait, and the file is created by
a drain, later.  Here timed flushes, drains and the deletion of the file from outside come before,
between and after the two halves of an append; the appends of several tasks may be mixed.  Writes do
not fail.

A drain does not decide again.  Bytes that were accepted for a file that is deleted before the drain
make up a new file without lead records.  A look that is outdated when the lock is taken goes wrong
the other way: a timed flush between the two creates the file, and the lead records are accepted a
second time.
-/

import OptimusAgent.EventLog

namespace EventLog

open Str LineLog List

section

variable {V : Type} [EventLogHost V]

/-! ### Runs -/

/-- A log, what the last look of each task has found, and whether the file at the path was created
by the log. -/
structure Leading where
  log : Log
  /-- The file was missing. -/
  looks : ℕ → Bool
  created : Bool

inductive LeadStep (V : Type) where
  /-- The first half of an append of a task. -/
  | look (task : ℕ)
  /-- The second half, up to its drain. -/
  | accept (task : ℕ) (call : AppendCall V) (now : ℕ)
  | poll (now : ℕ)
  /-- The drain of a flush, of a replay or at the end of an append. -/
  | drain
  /-- The file is deleted from outside. -/
  | delete

/-- A path with or without a file, on which nothing waits. -/
def Leading.start (path : Str) (file : Option (List UInt8)) : Leading := ⟨⟨path, file, none⟩, fun _ => false, false⟩

/-- The file is there after a drain; it was created if it was not there before. -/
def Leading.drained (sys : Leading) (log : Log) : Leading :=
  { sys with log := log, created := sys.created || (sys.log.file.isNone && log.file.isSome) }

def leadStep (sys : Leading) : LeadStep V → Leading
  | .look task => { sys with looks := Function.update sys.looks task sys.log.file.isNone }
  | .accept task call now =>
    match call.events.mapM serializeLine with
    | .error _ => sys
    | .ok lines => { sys with log := (acceptAppend sys.log (sys.looks task) lines call now).1 }
  | .poll now => sys.drained (pollFlush sys.log now .done)
  | .drain => sys.drained (drainShared sys.log .done).1
  | .delete => { sys with log := { sys.log with file := none }, created := false }

def runLeads (sys : Leading) (steps : List (LeadStep V)) : Leading := steps.foldl leadStep sys

/-- The bytes that wait may be written: the file is there, or it was already missing when they were
accepted. -/
def Log.backed (log : Log) : Bool :=
  log.file.isSome || log.buffer.all fun buffer => buffer.timed.bytes = [] || !buffer.fileWasPresent

omit [EventLogHost V] in
/-- An accept still finds the file as its look did, and a drain finds the file that its bytes were
accepted for. -/
def steady (sys : Leading) : LeadStep V → Bool
  | .accept task _ _ => sys.looks task == sys.log.file.isNone
  | .poll now => !(sys.log.buffer.any fun buffer => buffer.timed.due now) || sys.log.backed
  | .drain => sys.log.backed
  | .look _ | .delete => true

/-- Every step of the run is steady in the state it comes in. -/
def steadyLeads : Leading → List (LeadStep V) → Bool
  | _, [] => true
  | sys, st :: rest => steady sys st && steadyLeads (leadStep sys st) rest

omit [EventLogHost V] in
/-- The records that an append is called with, besides those of its hook. -/
def LeadStep.events : LeadStep V → List V
  | .accept _ call _ => call.events
  | _ => []

omit [EventLogHost V] in
/-- The hook of every append gives these records. -/
def LeadStep.Hooked (leads : List V) : LeadStep V → Prop
  | .accept _ call _ => call.onCreate.getD [] = leads
  | _ => True

/-! ### What waits, and for which file -/

/-- What waits: records for a file that was there, or the first records of a file that is still
missing. -/
inductive Waits (leads waiting : List V) (log : Log) : Prop where
  | empty (hpending : log.pending = [])
  | present (hpending : log.pending = waiting.flatMap lineOf) (hpresent : log.wasPresent = true)
  | absent (hpending : log.pending = (leads ++ waiting).flatMap lineOf) (hpresent : log.wasPresent = false)
      (hfile : log.file = none)

/-- **The invariant.**  A file that the log has created is the lead records and then records of
appends, and so is what waits for a missing file. -/
structure Led (leads passed : List V) (sys : Leading) : Prop where
  exists_records : ∃ landed waiting : List V, (landed ++ waiting).Sublist passed ∧
    (sys.created = true → sys.log.file = some ((leads ++ landed).flatMap lineOf)) ∧ Waits leads waiting sys.log

variable {leads waiting passed : List V} {log : Log} {buffer : SharedBuffer} {sys : Leading}

theorem Waits.setBuffer (h : Waits leads waiting log) (maxBytes : Option ℕ) (period : ℕ) :
    Waits leads waiting { log with buffer := some (log.buffer.getD (.new maxBytes period)) } := by
  cases hbuffer : log.buffer with
  | none => exact .empty rfl
  | some buffer =>
    have hsame : { log with buffer := some ((some buffer).getD (.new maxBytes period)) } = log := by
      rw [Option.getD_some, ← hbuffer]
    rw [hsame]
    exact h

section

variable (h : Waits leads waiting { log with buffer := some buffer })

include h

/-- Bytes that have lost their file are dropped; nothing else is. -/
theorem Waits.dropOrphans :
    Waits leads waiting { log with buffer := some (EventLog.dropOrphans log.file.isNone buffer) } := by
  rw [EventLog.dropOrphans]
  split_ifs
  · exact .empty rfl
  · exact h

/-- **What an accept leaves waiting**, if the file is as its look has found it. -/
theorem Waits.push {call : AppendCall V}
    (horphans : EventLog.dropOrphans log.file.isNone buffer = buffer) (hhook : call.onCreate.getD [] = leads)
    (now : ℕ) :
    ∃ kept, kept.Sublist waiting ∧ Waits leads (kept ++ call.events)
      { log with buffer := some { buffer with
          fileWasPresent := !log.file.isNone
          timed := buffer.timed.push ((leadRecords log.file.isNone buffer call).flatMap lineOf ++
            call.events.flatMap lineOf) buffer.period now } } := by
  by_cases hempty : buffer.timed.bytes = []
  · -- This append is the first of its drain.
    refine ⟨[], nil_sublist _, ?_⟩
    cases hfile : log.file with
    | none =>
      refine .absent ?_ rfl rfl
      simp [Log.pending, TimedBytes.push, leadRecords, hempty, hhook]
    | some bytes =>
      refine .present ?_ rfl
      simp [Log.pending, TimedBytes.push, leadRecords, hempty]
  · refine ⟨waiting, Sublist.refl _, ?_⟩
    have hleads : leadRecords log.file.isNone buffer call = [] := if_neg fun hnone => hempty hnone.2
    rw [hleads, flatMap_nil, nil_append]
    cases h with
    | empty hpending => exact absurd hpending hempty
    | present hpending hpresent =>
      -- A missing file would have made these bytes orphans.
      have hfile : log.file ≠ none := by
        intro hfile
        have hdropped : buffer = { buffer with timed := .new, fileWasPresent := false } := by
          rw [← horphans, EventLog.dropOrphans, if_pos ⟨by rw [hfile]; rfl, hempty, hpresent⟩]
        rw [hdropped] at hempty
        exact hempty rfl
      refine .present ?_ ?_
      · rw [flatMap_append, ← hpending]
        rfl
      · cases hsome : log.file with
        | none => exact absurd hsome hfile
        | some bytes => rfl
    | absent hpending hpresent hfile =>
      refine .absent ?_ ?_ hfile
      · rw [← append_assoc, flatMap_append, ← hpending]
        rfl
      · have hnone : log.file = none := hfile
        rw [hnone]
        rfl

end

omit [EventLogHost V] in
theorem dropOrphans_idem (missing : Bool) (buffer : SharedBuffer) :
    dropOrphans missing (dropOrphans missing buffer) = dropOrphans missing buffer := by
  by_cases horphans : missing = true ∧ buffer.timed.bytes ≠ [] ∧ buffer.fileWasPresent
  · rw [dropOrphans, if_neg]
    rw [dropOrphans, if_pos horphans]
    exact fun hdropped => hdropped.2.1 rfl
  · rw [dropOrphans, dropOrphans, if_neg horphans, if_neg horphans]

/-! ### Steps -/

theorem Led.mono (h : Led leads passed sys) (events : List V) : Led leads (passed ++ events) sys := by
  obtain ⟨landed, waiting, hsub, hfile, hwaits⟩ := h.exists_records
  exact ⟨landed, waiting, hsub.trans (sublist_append_left _ _), hfile, hwaits⟩

theorem Led.accept (h : Led leads passed sys) {task : ℕ}
    {call : AppendCall V} (hhook : call.onCreate.getD [] = leads)
    (hlook : sys.looks task = sys.log.file.isNone) (now : ℕ) :
    Led leads (passed ++ call.events) (leadStep sys (.accept task call now)) := by
  simp only [leadStep]
  cases hlines : call.events.mapM serializeLine with
  | error error => exact h.mono call.events
  | ok lines =>
    obtain ⟨landed, waiting, hsub, hfile, hwaits⟩ := h.exists_records
    have hset := hwaits.setBuffer call.maxBytes call.period
    have hdropped := hset.dropOrphans
    have hsub' := hsub.trans (sublist_append_left passed call.events)
    simp only [acceptAppend, hlook]
    cases (sys.log.buffer.getD (.new call.maxBytes call.period)).pendingError with
    | some error => exact ⟨landed, waiting, hsub', hfile, hset⟩
    | none =>
      simp only
      cases hleads : (leadRecords sys.log.file.isNone (dropOrphans sys.log.file.isNone (sys.log.buffer.getD
          (.new call.maxBytes call.period))) call).mapM serializeLine with
      | error error => exact ⟨landed, waiting, hsub', hfile, hdropped⟩
      | ok leadLines =>
        obtain ⟨kept, hkept, hpushed⟩ := hdropped.push (dropOrphans_idem _ _) hhook now
        rw [← (of_mapM_serializeLine hleads).2, ← (of_mapM_serializeLine hlines).2] at hpushed
        refine ⟨landed, kept ++ call.events, ?_, hfile, hpushed⟩
        rw [← append_assoc]
        exact ((hkept.append_left landed).trans hsub).append_right call.events

omit [EventLogHost V] in
/-- What a drain that can write does: nothing, the write, or a refusal of a file that is too
large. -/
theorem drainShared_done (log : Log) : (log.pending = [] ∧ (drainShared log .done).1 = log) ∨
      (∃ buffer, log.buffer = some buffer ∧ buffer.timed.bytes ≠ [] ∧ (drainShared log .done).1 = { log with
        file := some (repairTornTail (log.file.getD []) ++ buffer.timed.bytes)
        buffer := some { buffer with timed := .new, fileWasPresent := true } }) ∨
      ∃ buffer bytes, log.file = some bytes ∧ buffer.timed.bytes = [] ∧
        (drainShared log .done).1 = { log with buffer := some buffer } := by
  rw [drainShared]
  cases hbuffer : log.buffer with
  | none => exact .inl ⟨by rw [Log.pending, hbuffer]; rfl, rfl⟩
  | some buffer =>
    simp only [drainLocked]
    by_cases hempty : buffer.timed.bytes = []
    · rw [if_pos hempty]
      refine .inl ⟨by rw [Log.pending, hbuffer]; exact hempty, ?_⟩
      rw [← hbuffer]
    · rw [if_neg hempty]
      simp only [writePending]
      by_cases hlarge : exceeds buffer.maxBytes (log.file.getD []).length = true
      · rw [if_pos hlarge]
        cases hfile : log.file with
        | none =>
          -- An empty file is never too large.
          rw [hfile, exceeds] at hlarge
          simp at hlarge
        | some bytes => exact .inr (.inr ⟨_, bytes, rfl, rfl, by rw [Option.getD_some, ← hfile]⟩)
      · rw [if_neg hlarge]
        exact .inr (.inl ⟨buffer, rfl, hempty, rfl⟩)

omit [EventLogHost V] in
theorem Leading.drained_self (sys : Leading) : sys.drained sys.log = sys := by
  rw [Leading.drained]
  cases sys.log.file <;> simp

/-- Records for a file that was there are drained only if it still is. -/
theorem Log.file_of_backed (hbacked : log.backed = true)
    (hbuffer : log.buffer = some buffer) (hwaiting : buffer.timed.bytes ≠ [])
    (hpresent : buffer.fileWasPresent = true) : ∃ bytes, log.file = some bytes := by
  rw [Log.backed, hbuffer] at hbacked
  simpa [hwaiting, hpresent, Option.isSome_iff_exists] using hbacked

/-- **A drain of bytes that have their file** keeps the lead records first. -/
theorem Led.drain (h : Led leads passed sys) (hbacked : sys.log.backed = true) :
    Led leads passed (sys.drained (drainShared sys.log .done).1) := by
  rcases drainShared_done sys.log with ⟨_, hsame⟩ | ⟨buffer, hbuffer, hwaiting, hwritten⟩ |
      ⟨buffer, bytes, hsome, hempty, hrefused⟩
  · rw [hsame, Leading.drained_self]
    exact h
  · obtain ⟨landed, waiting, hsub, hfile, hwaits⟩ := h.exists_records
    rw [hwritten]
    have hbytes : sys.log.pending = buffer.timed.bytes := by rw [Log.pending, hbuffer]; rfl
    have hwas : sys.log.wasPresent = buffer.fileWasPresent := by rw [Log.wasPresent, hbuffer]; rfl
    cases hwaits with
    | empty hpending => exact absurd (hbytes.symm.trans hpending) hwaiting
    | present hpending hpresent =>
      obtain ⟨bytes, hsome⟩ := Log.file_of_backed hbacked hbuffer hwaiting (hwas.symm.trans hpresent)
      refine ⟨landed ++ waiting, [], by rwa [append_nil], fun hcreated => ?_, .empty rfl⟩
      have hbefore : sys.created = true := by simpa [Leading.drained, hsome] using hcreated
      change some (repairTornTail (sys.log.file.getD []) ++ buffer.timed.bytes) = _
      rw [hfile hbefore, Option.getD_some, repairTornTail_of_complete (complete_flatMap_lineOf _),
        ← hbytes, hpending, ← flatMap_append, append_assoc]
    | absent hpending _ hnone =>
      have hwaited := (sublist_append_right landed waiting).trans hsub
      refine ⟨waiting, [], by rwa [append_nil], fun _ => ?_, .empty rfl⟩
      change some (repairTornTail (sys.log.file.getD []) ++ buffer.timed.bytes) = _
      rw [hnone, ← hbytes, hpending]
      rfl
  · obtain ⟨landed, waiting, hsub, hfile, _⟩ := h.exists_records
    rw [hrefused]
    have hlanded := (sublist_append_left landed waiting).trans hsub
    refine ⟨landed, [], by rwa [append_nil], fun hcreated => hfile ?_, .empty hempty⟩
    simpa [Leading.drained, hsome] using hcreated

theorem Waits.delete (h : Waits leads waiting log) : Waits leads waiting { log with file := none } := by
  cases h with
  | empty hpending => exact .empty hpending
  | present hpending hpresent => exact .present hpending hpresent
  | absent hpending hpresent _ => exact .absent hpending hpresent rfl

/-- **A steady step keeps the lead records where they belong.** -/
theorem Led.step (h : Led leads passed sys) {st : LeadStep V}
    (hhook : st.Hooked leads) (hsteady : steady sys st = true) :
    Led leads (passed ++ st.events) (leadStep sys st) := by
  cases st with
  | look task =>
    obtain ⟨landed, waiting, hrecords⟩ := (h.mono []).exists_records
    exact ⟨landed, waiting, hrecords⟩
  | accept task call now => exact h.accept hhook (beq_iff_eq.1 hsteady) now
  | poll now =>
    change Led leads (passed ++ []) _
    rw [append_nil]
    simp only [leadStep, pollFlush]
    cases hbuffer : sys.log.buffer with
    | none =>
      rw [Leading.drained_self]
      exact h
    | some buffer =>
      simp only
      by_cases hdue : buffer.timed.due now = true
      · rw [if_pos hdue]
        refine h.drain ?_
        simpa [steady, hbuffer, hdue] using hsteady
      · rw [if_neg hdue, Leading.drained_self]
        exact h
  | drain =>
    change Led leads (passed ++ []) _
    rw [append_nil]
    exact h.drain hsteady
  | delete =>
    obtain ⟨landed, waiting, hsub, _, hwaits⟩ := (h.mono []).exists_records
    exact ⟨landed, waiting, hsub, fun hcreated => absurd hcreated Bool.false_ne_true, hwaits.delete⟩

/-! ### Runs -/

theorem Led.run (h : Led leads passed sys) {steps : List (LeadStep V)} (hhook : ∀ st ∈ steps, st.Hooked leads)
    (hsteady : steadyLeads sys steps = true) :
    Led leads (passed ++ steps.flatMap LeadStep.events) (runLeads sys steps) := by
  induction steps generalizing sys passed with
  | nil =>
    rw [flatMap_nil, append_nil]
    exact h
  | cons st rest ih =>
    obtain ⟨hst, hrest⟩ := Bool.and_eq_true_iff.1 hsteady
    rw [flatMap_cons, ← append_assoc]
    exact ih (h.step (hhook st mem_cons_self) hst)
      (fun st' hst' => hhook st' (mem_cons_of_mem _ hst')) hrest

/-- **In a steady run the lead records lead the files that the log creates**, and what follows them
are records that appends were called with, each at most once and in the order of the calls. -/
theorem led_of_steady (path : Str) (file : Option (List UInt8)) (leads : List V) (steps : List (LeadStep V))
    (hhook : ∀ st ∈ steps, st.Hooked leads) (hsteady : steadyLeads (.start path file) steps = true)
    (hcreated : (runLeads (.start path file) steps).created = true) :
    ∃ events : List V, events.Sublist (steps.flatMap LeadStep.events) ∧
      (runLeads (.start path file) steps).log.file = some ((leads ++ events).flatMap lineOf) := by
  have hstart : Led leads [] (.start path file) :=
    ⟨[], [], Sublist.refl _, fun hstart => absurd hstart Bool.false_ne_true, .empty rfl⟩
  obtain ⟨landed, waiting, hsub, hfile, _⟩ := (hstart.run hhook hsteady).exists_records
  exact ⟨landed, (sublist_append_left _ _).trans hsub, hfile hcreated⟩

end

/-! ### Runs with and without lead records -/

/-- An append of one record, with a hook that gives the record `true`. -/
def hookedCall : AppendCall Bool := ⟨[false], false, some [true], none, 250⟩

/-- Three appends; the file is deleted before the last, which drops the record that has waited for
it. -/
def steadyAppends : List (LeadStep Bool) :=
  [.look 0, .accept 0 hookedCall 0, .poll 300, .look 0, .accept 0 hookedCall 400, .delete,
    .look 0, .accept 0 hookedCall 500, .drain]

theorem led_of_steady_appends : (runLeads (.start "log" none) steadyAppends).created = true ∧
      ∃ events : List Bool, events.Sublist (steadyAppends.flatMap LeadStep.events) ∧
        (runLeads (.start "log" none) steadyAppends).log.file = some (([true] ++ events).flatMap lineOf) := by
  have hcreated : (runLeads (.start "log" none) steadyAppends).created = true := by decide
  refine ⟨hcreated, led_of_steady "log" none [true] steadyAppends ?_ (by decide) hcreated⟩
  intro st hst
  fin_cases hst <;> first | rfl | trivial

/-- The file is deleted while a record waits for it, and the timed flush creates it anew. -/
def orphanedAppend : List (LeadStep Bool) := [.look 0, .accept 0 hookedCall 0, .delete, .poll 300]

/-- **A file that the log creates without its lead records.** -/
theorem orphans_unled : (runLeads (.start "log" (some [])) orphanedAppend).created = true ∧
      ¬ ∃ events : List Bool, events.Sublist (orphanedAppend.flatMap LeadStep.events) ∧
        (runLeads (.start "log" (some [])) orphanedAppend).log.file =
          some (([true] ++ events).flatMap lineOf) := by
  refine ⟨by decide, ?_⟩
  rintro ⟨events, -, hfile⟩
  have hunled : (runLeads (.start "log" (some [])) orphanedAppend).log.file =
      some ([false].flatMap lineOf) := by decide
  have hhead : ([false].flatMap lineOf).head? = (([true] ++ events).flatMap lineOf).head? :=
    congrArg head? (Option.some.inj (hunled.symm.trans hfile))
  cases hhead

end EventLog
