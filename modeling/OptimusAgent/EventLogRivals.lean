/-
**Event logs with rival writers.**

An instance that writes through remembers the length of the file that it left, and does not look at
the end of the file again while the file has that length.  Other writers may append any bytes, and
cut off an unterminated end, at any time.  This module takes an append of `core/event_log.rs` apart
into the points at which it looks at the file: the check with its repair, the reading of the length
after a repair, the write.  The rivals act before, between and after them.

What is remembered is the length that was read, not the one that the write found.  A length that
counts bytes which a rival takes away again before the write is too large, and the file may grow to
it with a torn end.

Handles are only known to be open, as in the module on instances that write through.
-/

import OptimusAgent.EventLogThrough

namespace EventLog

open Str LineLog List EventLog

/-! ### An append in steps -/

/-- Where an append stands. -/
inductive Phase where
  | idle
  /-- The tail was repaired, and the length is to be read again. -/
  | probed (payload : List UInt8) (durable : Bool)
  /-- The payload is to be written; the length that was read is that of the file before it. -/
  | ready (payload : List UInt8) (durable : Bool) (preAppendLen : Option ℕ)

/-- A file, one instance on it, and the result of its last append. -/
structure Racing where
  file : Option (List UInt8)
  state : EventLogAppendState
  phase : Phase
  result : Option (Except Str Unit)

/-- A new instance. -/
def Racing.start (file : Option (List UInt8)) : Racing := ⟨file, .default, .idle, none⟩

/-- After a failure nothing is known of the tail. -/
def Racing.fail (s : Racing) (error : Str) : Racing :=
  { s with state := .default, phase := .idle, result := some (.error error) }

inductive RaceStep (V : Type) where
  /-- An append begins. -/
  | check (call : ThroughCall V) (io : ThroughIo)
  | measure
  | write (io : ThroughIo)
  | rivalAppend (bytes : List UInt8)
  | rivalTruncate

section

variable {V : Type} [EventLogHost V]

/-- The beginning of an append.  With `always` the repair is made where the append skips it. -/
def checkTail (always : Bool) (path : Str) (s : Racing) (call : ThroughCall V) (io : ThroughIo) : Racing :=
  match call.events.mapM serializeLine with
  | .error error => { s with result := some (.error error) }
  | .ok lines =>
    match s.file with
    | some bytes =>
      if exceeds call.maxBytes bytes.length then s.fail (tooLarge path call.maxBytes bytes.length)
      else if s.state.cleanTailLen = some bytes.length then
        let kept := if always then repairTornTail bytes else bytes
        { s with file := some kept, phase := .ready lines.flatten call.durable (some kept.length) }
      else
        match io.repairError with
        | some error => s.fail error
        | none =>
          { s with
            file := some (repairTornTail bytes)
            state := { s.state with appendHandle := false }
            phase := .probed lines.flatten call.durable }
    | none =>
      match io.dirError with
      | some error => s.fail error
      | none =>
        match (call.onCreate.getD []).mapM serializeLine with
        | .error error => s.fail error
        | .ok leadLines =>
          { s with
            state := { s.state with appendHandle := false }
            phase := .ready (leadLines.flatten ++ lines.flatten) call.durable none }

/-- The write, and what is remembered after it. -/
def writeReady (path : Str) (s : Racing) (payload : List UInt8) (durable : Bool) (preAppendLen : Option ℕ)
    (io : ThroughIo) : Racing :=
  match if s.state.appendHandle then none else io.openError with
  | some error => s.fail error
  | none =>
    match writePayload path (s.file.getD []) payload durable io with
    | (bytes, .error error) => { s with file := some bytes }.fail error
    | (bytes, .ok _) =>
      { s with
        file := some bytes
        state := ⟨some (preAppendLen.getD 0 + payload.length), true⟩
        phase := .idle
        result := some (.ok ()) }

/-- One step; a step of the append that is not due does nothing. -/
def raceStep (always : Bool) (path : Str) (s : Racing) : RaceStep V → Racing
  | .check call io =>
    match s.phase with
    | .idle => checkTail always path s call io
    | _ => s
  | .measure =>
    match s.phase with
    | .probed payload durable => { s with phase := .ready payload durable (s.file.map length) }
    | _ => s
  | .write io =>
    match s.phase with
    | .ready payload durable preAppendLen => writeReady path s payload durable preAppendLen io
    | _ => s
  | .rivalAppend bytes => { s with file := some (s.file.getD [] ++ bytes) }
  | .rivalTruncate => { s with file := s.file.map repairTornTail }

def race (always : Bool) (path : Str) (s : Racing) (steps : List (RaceStep V)) : Racing :=
  steps.foldl (raceStep always path) s

/-! ### Calm runs -/

omit [EventLogHost V] in
/-- What rivals leave alone: they cut nothing off between the reading of the length and the write,
and append nothing between the repair and the reading if nothing is to be written. -/
def undisturbed (s : Racing) : RaceStep V → Bool
  | .rivalTruncate =>
    match s.phase with
    | .ready .. => s.file.all fun bytes => repairTornTail bytes = bytes
    | _ => true
  | .rivalAppend bytes =>
    match s.phase with
    | .probed [] _ => bytes.isEmpty
    | _ => true
  | _ => true

/-- All steps of a run are undisturbed. -/
def calm (path : Str) (s : Racing) : List (RaceStep V) → Bool
  | [] => true
  | st :: steps => undisturbed s st && calm path (raceStep false path s st) steps

/-! ### What is known of a file -/

/-- Some bytes of the file, at least as many as the length, are complete lines. -/
def Known (file : List UInt8) (length : ℕ) : Prop := ∃ c, length ≤ c ∧ c ≤ file.length ∧ Complete (file.take c)

variable {file : List UInt8} {length : ℕ} {s : Racing}

/-- A file of a known length is complete. -/
theorem Known.complete (h : Known file file.length) : Complete file := by
  obtain ⟨c, hle, -, hc⟩ := h
  rwa [take_of_length_le hle] at hc

theorem known_of_complete (h : Complete file) : Known file file.length :=
  ⟨file.length, le_rfl, le_rfl, by rwa [take_length]⟩

theorem Known.of_front {file' : List UInt8} {c : ℕ} (hle : length ≤ c)
    (hc : Complete (file.take c)) (hlength : c ≤ file.length) (h : file.take c <+: file') : Known file' length := by
  have hcut : (file.take c).length = c := by rw [length_take, Nat.min_eq_left hlength]
  have hle' := h.length_le
  refine ⟨c, hle, hcut ▸ hle', ?_⟩
  rw [prefix_iff_eq_take, hcut] at h
  rwa [← h]

theorem Known.append (h : Known file length) (more : List UInt8) : Known (file ++ more) length := by
  obtain ⟨c, hle, hlength, hc⟩ := h
  have hfront := take_prefix c file
  exact .of_front hle hc hlength (hfront.trans (prefix_append file more))

/-- A cut leaves the complete lines that are there. -/
theorem prefix_repairTornTail {lines : List UInt8} (h : Complete lines) (rest : List UInt8) :
    lines <+: repairTornTail (lines ++ rest) := by
  induction rest using reverseRecOn with
  | nil => rw [append_nil, repairTornTail_of_complete h]
  | append_singleton rest x ih =>
    rw [← append_assoc]
    by_cases hx : x = newline
    · rw [repairTornTail_of_complete (.inr (by rw [getLast?_concat, hx])), append_assoc]
      exact prefix_append _ _
    · rw [repairTornTail, rdropWhile_concat_pos _ _ _ (by simpa using hx)]
      exact ih

theorem Known.repairTornTail (h : Known file length) : Known (repairTornTail file) length := by
  obtain ⟨c, hle, hlength, hc⟩ := h
  refine .of_front hle hc hlength ?_
  have hcut := prefix_repairTornTail hc (file.drop c)
  rwa [take_append_drop] at hcut

theorem complete_repairTornTail (file : List UInt8) : Complete (repairTornTail file) := by
  rw [Complete, or_iff_not_imp_left]
  intro hne
  have hlast := rdropWhile_last_not (fun b => decide (b ≠ newline)) file hne
  rw [decide_eq_true_eq, not_not] at hlast
  rw [getLast?_eq_some_getLast hne]
  exact congrArg some hlast

/-! ### The invariant of calm runs -/

/-- What the instance remembers, and what an append has measured, is known of the file. -/
structure Aware (s : Racing) : Prop where
  remembered : ∀ length, s.state.cleanTailLen = some length → Known (s.file.getD []) length
  probed : ∀ payload durable, s.phase = .probed payload durable →
    Complete payload ∧ (payload = [] → Complete (s.file.getD []))
  ready : ∀ payload durable preAppendLen, s.phase = .ready payload durable preAppendLen →
    Complete payload ∧ preAppendLen.getD 0 ≤ (s.file.getD []).length ∧
      (payload = [] → Known (s.file.getD []) (preAppendLen.getD 0))

theorem aware_fail (s : Racing) (error : Str) : Aware (s.fail error) := ⟨nofun, nofun, nofun⟩

theorem aware_start (file : Option (List UInt8)) : Aware (Racing.start file) := ⟨nofun, nofun, nofun⟩

/-- A file of the remembered length would not be changed by the repair that is skipped. -/
theorem Aware.checkTail_always (h : Aware s) (path : Str) (call : ThroughCall V) (io : ThroughIo) :
    checkTail true path s call io = checkTail false path s call io := by
  rw [checkTail, checkTail]
  split
  · rfl
  · split
    · rename_i bytes hfile
      by_cases hlength : s.state.cleanTailLen = some bytes.length
      · have hknown := h.remembered _ hlength
        rw [hfile, Option.getD_some] at hknown
        simp only [repairTornTail_of_complete hknown.complete, ite_self]
      · rw [if_neg hlength, if_neg hlength]
    · rfl

theorem Aware.checkTail (h : Aware s) (path : Str) (call : ThroughCall V) (io : ThroughIo) :
    Aware (EventLog.checkTail false path s call io) := by
  simp only [EventLog.checkTail, Bool.false_eq_true, ↓reduceIte]
  split
  · exact ⟨h.remembered, h.probed, h.ready⟩
  · rename_i lines hlines
    have hcomplete : Complete lines.flatten := (of_mapM_serializeLine hlines).2 ▸ complete_flatMap_lineOf call.events
    split
    · rename_i bytes hfile
      have hremembered : ∀ length, s.state.cleanTailLen = some length → Known bytes length := by
        simpa [hfile] using h.remembered
      split_ifs with hlarge hlength
      · exact aware_fail _ _
      · -- the length is that of the whole file, which is complete then
        refine ⟨hremembered, nofun, ?_⟩
        rintro _ _ _ ⟨⟩
        exact ⟨hcomplete, le_rfl, fun _ => hremembered _ hlength⟩
      · split
        · exact aware_fail _ _
        · refine ⟨fun length hlength => (hremembered length hlength).repairTornTail, ?_, nofun⟩
          rintro _ _ ⟨⟩
          exact ⟨hcomplete, fun _ => complete_repairTornTail bytes⟩
    · rename_i hfile
      split
      · exact aware_fail _ _
      · split
        · exact aware_fail _ _
        · rename_i leadLines hlead
          refine ⟨h.remembered, nofun, ?_⟩
          rintro _ _ _ ⟨⟩
          refine ⟨?_, Nat.zero_le _, fun _ => ⟨0, le_rfl, Nat.zero_le _, .inl (take_zero)⟩⟩
          rw [(of_mapM_serializeLine hlines).2, (of_mapM_serializeLine hlead).2, ← flatMap_append]
          exact complete_flatMap_lineOf _

omit [EventLogHost V] in
/-- A write that succeeds writes the whole payload. -/
theorem writePayload_ok {path : Str} {bytes bytes' payload : List UInt8} {durable : Bool} {io : ThroughIo}
    (h : writePayload path bytes payload durable io = (bytes', .ok length)) :
    bytes' = bytes ++ payload := by
  rw [writePayload] at h
  split at h
  · cases h
  · rename_i written _
    obtain ⟨rfl, hresult⟩ := Prod.mk.inj h
    by_cases hshort : written < payload.length
    · rw [if_pos hshort] at hresult
      cases hresult
    · rw [take_of_length_le (not_lt.1 hshort)]

omit [EventLogHost V] in
/-- What is remembered after a write counts no more than the bytes up to the end of the payload. -/
theorem Aware.writeReady (h : Aware s) {payload : List UInt8} {durable : Bool}
    {preAppendLen : Option ℕ} (hphase : s.phase = .ready payload durable preAppendLen) (path : Str)
    (io : ThroughIo) : Aware (writeReady path s payload durable preAppendLen io) := by
  obtain ⟨hcomplete, hle, hnothing⟩ := h.ready _ _ _ hphase
  rw [EventLog.writeReady]
  split
  · exact aware_fail _ _
  · split
    · exact aware_fail _ _
    · rename_i bytes length hwrite
      obtain rfl := writePayload_ok hwrite
      refine ⟨?_, nofun, nofun⟩
      rintro _ ⟨⟩
      rcases hcomplete with rfl | hlast
      · rw [length_nil, Nat.add_zero, Option.getD_some, append_nil]
        exact hnothing rfl
      · have hend : Complete (s.file.getD [] ++ payload) :=
          .inr (by rw [getLast?_append_of_ne_nil _ (by rintro rfl; cases hlast), hlast])
        obtain ⟨c, hc, hlength, hlines⟩ := known_of_complete hend
        refine ⟨c, le_trans ?_ hc, hlength, hlines⟩
        rw [length_append]
        exact Nat.add_le_add_right hle _

/-- **One step**: the repair that is skipped would have changed nothing, and the invariant is
kept. -/
theorem Aware.raceStep (h : Aware s) (path : Str) {st : RaceStep V} (hst : undisturbed s st = true) :
    raceStep true path s st = raceStep false path s st ∧ Aware (raceStep false path s st) := by
  cases st with
  | check call io =>
    rw [EventLog.raceStep, EventLog.raceStep]
    split
    · exact ⟨h.checkTail_always path call io, h.checkTail path call io⟩
    · exact ⟨rfl, h⟩
  | measure =>
    refine ⟨rfl, ?_⟩
    rw [EventLog.raceStep]
    split
    · rename_i payload durable hphase
      obtain ⟨hcomplete, hfile⟩ := h.probed payload durable hphase
      refine ⟨h.remembered, nofun, ?_⟩
      rintro _ _ _ ⟨⟩
      have hlength : (s.file.map length).getD 0 = (s.file.getD []).length := by
        cases s.file <;> rfl
      rw [hlength]
      exact ⟨hcomplete, le_rfl, fun hnil => known_of_complete (hfile hnil)⟩
    · exact h
  | write io =>
    refine ⟨rfl, ?_⟩
    rw [EventLog.raceStep]
    split
    · rename_i hphase
      exact h.writeReady hphase path io
    · exact h
  | rivalAppend bytes =>
    refine ⟨rfl, fun length hlength => (h.remembered length hlength).append bytes, ?_, ?_⟩
    · intro payload durable hphase
      obtain ⟨hcomplete, hfile⟩ := h.probed payload durable hphase
      refine ⟨hcomplete, ?_⟩
      rintro rfl
      -- nothing is appended while an append without records has not read the length
      have hphase' : s.phase = .probed [] durable := hphase
      rw [undisturbed, hphase'] at hst
      rw [EventLog.raceStep, Option.getD_some, isEmpty_iff.1 hst, append_nil]
      exact hfile rfl
    · intro payload durable preAppendLen hphase
      obtain ⟨hcomplete, hle, hnothing⟩ := h.ready payload durable preAppendLen hphase
      refine ⟨hcomplete, hle.trans ?_, fun hnil => (hnothing hnil).append bytes⟩
      rw [EventLog.raceStep, Option.getD_some, length_append]
      exact Nat.le_add_right _ _
  | rivalTruncate =>
    have hcut : (s.file.map repairTornTail).getD [] = repairTornTail (s.file.getD []) := by
      cases s.file <;> rfl
    refine ⟨rfl, fun length hlength => ?_, ?_, ?_⟩
    · rw [EventLog.raceStep, hcut]
      exact (h.remembered length hlength).repairTornTail
    · intro payload durable hphase
      refine ⟨(h.probed payload durable hphase).1, fun _ => ?_⟩
      rw [EventLog.raceStep, hcut]
      exact complete_repairTornTail _
    · intro payload durable preAppendLen hphase
      have hphase' : s.phase = .ready payload durable preAppendLen := hphase
      have hsame : s.file.map repairTornTail = s.file := by
        rw [undisturbed, hphase'] at hst
        cases hfile : s.file with
        | none => rfl
        | some bytes =>
          rw [hfile] at hst
          exact congrArg some (of_decide_eq_true hst)
      rw [EventLog.raceStep, hsame]
      exact h.ready payload durable preAppendLen hphase'

/-- **In a calm run the skipped repairs would have changed nothing**: after every step the file,
what the instance remembers and its results are the same as if the tail were repaired before every
append. -/
theorem race_always_eq (path : Str) (file : Option (List UInt8)) (steps : List (RaceStep V))
    (hcalm : calm path (Racing.start file) steps = true) :
    ∀ before, before <+: steps →
      race true path (Racing.start file) before = race false path (Racing.start file) before := by
  suffices hrun : ∀ s : Racing, Aware s → ∀ steps : List (RaceStep V), calm path s steps = true →
      ∀ before, before <+: steps → race true path s before = race false path s before from
    hrun _ (aware_start file) steps hcalm
  intro s hs steps hcalm before hbefore
  -- over the steps that were made, with the state after them
  induction before generalizing s steps with
  | nil => rfl
  | cons st before ih =>
    obtain ⟨rest, rfl⟩ := hbefore
    rw [cons_append, calm, Bool.and_eq_true] at hcalm
    obtain ⟨hsame, hnext⟩ := hs.raceStep path hcalm.1
    rw [race, race, foldl_cons, foldl_cons, hsame]
    exact ih _ hnext _ hcalm.2 (prefix_append before rest)

end

/-! ### A length that counts too much -/

/-- One record, into a file that may be of any length. -/
def oneRecord : ThroughCall Bool := ⟨[true], false, none, none⟩

/-- A rival appends a byte before the length is read and takes it away before the write; then it
appends a byte again, and the file has the remembered length. -/
def countedTwice : List (RaceStep Bool) :=
  [.check oneRecord (.writing 5), .rivalAppend [97], .measure, .rivalTruncate, .write (.writing 5),
    .rivalAppend [97], .check oneRecord (.writing 5), .measure, .write (.writing 5)]

/-- The record is written into the line that the rival has begun. -/
theorem countedTwice_welds : (race false "log" (Racing.start (some [])) countedTwice).file =
        some (lineBytes (boolText true) ++ [97] ++ lineBytes (boolText true)) ∧
      (race true "log" (Racing.start (some [])) countedTwice).file =
        some (lineBytes (boolText true) ++ lineBytes (boolText true)) ∧
      (race false "log" (Racing.start (some [])) countedTwice).file ≠
        (race true "log" (Racing.start (some [])) countedTwice).file := by
  decide

/-- A rival's torn line between two appends. -/
def tornBetween : List (RaceStep Bool) :=
  [.check oneRecord (.writing 5), .measure, .write (.writing 5), .rivalAppend [97],
    .check oneRecord (.writing 5), .measure, .write (.writing 5), .check oneRecord (.writing 5),
    .write (.writing 5)]

theorem race_always_eq_tornBetween : calm "log" (Racing.start (some [])) tornBetween = true ∧
      (race true "log" (Racing.start (some [])) tornBetween).file =
        (race false "log" (Racing.start (some [])) tornBetween).file :=
  ⟨by decide, congrArg Racing.file (race_always_eq "log" (some []) tornBetween (by decide) tornBetween prefix_rfl)⟩

end EventLog
