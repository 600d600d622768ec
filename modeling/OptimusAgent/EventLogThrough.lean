/-
**Event logs that are written through.**

Without a flush period an append writes its lines at once.  A process can end in the middle of that
write, and a write can be short, so that the file ends with a torn line.  The next append cuts such
a line off before it writes; an instance that has found the end of the file clean does not look
again while the length of the file is the one it left.  A reader ignores a last line without its
newline.  This module embeds the write-through mode of `core/event_log.rs`, for any number of
instances on one path.

The handle of an instance is only known to be open: the file is never exchanged here, so every
handle is one of the file at the path.  A process that ends is a call whose result nobody sees,
followed by a new instance.
-/

import OptimusAgent.EventLog

namespace EventLog

open Str LineLog List Option Function Utf8

/-! ### One append -/

/-- What an instance knows of the file after its last append. -/
structure EventLogAppendState where
  /-- The length of the file that the last append left, if it succeeded. -/
  cleanTailLen : Option ℕ
  appendHandle : Bool
  deriving DecidableEq

def EventLogAppendState.default : EventLogAppendState := ⟨none, false⟩

/-- An append of an instance. -/
structure ThroughCall (V : Type) where
  events : List V
  durable : Bool
  /-- The records that lead a file that the append creates. -/
  onCreate : Option (List V)
  maxBytes : Option ℕ

/-- What an append takes from the file system. -/
structure ThroughIo where
  dirError : Option Str
  /-- The error of looking at the end of the file, or of cutting it. -/
  repairError : Option Str
  openError : Option Str
  /-- How many bytes were written. -/
  write : Except Str ℕ
  syncError : Option Str

/-- A write that does what it should, up to some bytes. -/
def ThroughIo.writing (written : ℕ) : ThroughIo := ⟨none, none, none, .ok written, none⟩

def shortWrite (path : Str) (written size : ℕ) : Str :=
  "event log " ++ path ++ ": short write (" ++ dec written ++ " of " ++ dec size ++ " bytes)"

section

variable {V : Type} [EventLogHost V]

/-- Looks at the end of a file that is there, and cuts off a torn line unless the end is known to be
clean; a directory is created for a file that is not there.  What is returned is the file, and
whether a handle is open. -/
def probeTail (path : Str) (maxBytes : Option ℕ) (file : Option (List UInt8))
    (state : EventLogAppendState) (io : ThroughIo) : Option (List UInt8) × Except Str Bool :=
  match file with
  | some bytes =>
    if exceeds maxBytes bytes.length then
      (some bytes, .error (tooLarge path maxBytes bytes.length))
    else if state.cleanTailLen = some bytes.length then (some bytes, .ok state.appendHandle)
    else
      match io.repairError with
      | some error => (some bytes, .error error)
      | none => (some (repairTornTail bytes), .ok false)
  | none =>
    match io.dirError with
    | some error => (none, .error error)
    | none => (none, .ok false)

/-- The records that lead the file, if an append creates it. -/
def leadThrough (file : Option (List UInt8)) (call : ThroughCall V) : List V :=
  if file = none then call.onCreate.getD [] else []

/-- What an append does before it writes: the file that it writes to, and the lines of the records
that lead it. -/
def prepareAppend (path : Str) (file : Option (List UInt8)) (state : EventLogAppendState)
    (call : ThroughCall V) (io : ThroughIo) : Option (List UInt8) × Except Str (List (List UInt8)) :=
  match probeTail path call.maxBytes file state io with
  | (probed, .error error) => (probed, .error error)
  | (probed, .ok handle) =>
    match (leadThrough file call).mapM serializeLine with
    | .error error => (probed, .error error)
    | .ok leadLines =>
      match if handle then none else io.openError with
      | some error => (probed, .error error)
      | none => (some (probed.getD []), .ok leadLines)

/-- One write.  A short one fails, and is neither completed nor taken back. -/
def writePayload (path : Str) (bytes payload : List UInt8) (durable : Bool) (io : ThroughIo) :
    List UInt8 × Except Str ℕ :=
  match io.write with
  | .error error => (bytes, .error error)
  | .ok written =>
    (bytes ++ payload.take written,
      if written < payload.length then .error (shortWrite path written payload.length)
      else
        match if durable then io.syncError else none with
        | some error => .error error
        | none => .ok (bytes.length + payload.length))

def appendSync (path : Str) (file : Option (List UInt8)) (state : EventLogAppendState)
    (call : ThroughCall V) (io : ThroughIo) :
    Option (List UInt8) × EventLogAppendState × Except Str Unit :=
  match call.events.mapM serializeLine with
  | .error error => (file, state, .error error)
  | .ok lines =>
    match prepareAppend path file state call io with
    | (prepared, .error error) => (prepared, .default, .error error)
    | (prepared, .ok leadLines) =>
      match writePayload path (prepared.getD []) (leadLines.flatten ++ lines.flatten) call.durable
        io with
      | (bytes, .error error) => (some bytes, .default, .error error)
      | (bytes, .ok length) => (some bytes, ⟨some length, true⟩, .ok ())

/-! ### Runs -/

/-- The records whose newline is among some first bytes of their lines. -/
def landedRecords : ℕ → List V → List V
  | _, [] => []
  | landed, v :: vs =>
    if (lineOf v).length ≤ landed then v :: landedRecords (landed - (lineOf v).length) vs else []

/-- The records of an append. -/
def recordsThrough (file : Option (List UInt8)) (call : ThroughCall V) : List V := leadThrough file call ++ call.events

/-- The records of an append that was cut off: those whose newline was written, if it wrote at
all. -/
def cutRecords (path : Str) (file : Option (List UInt8)) (state : EventLogAppendState)
    (call : ThroughCall V) (io : ThroughIo) : List V :=
  match call.events.mapM serializeLine, (prepareAppend path file state call io).2, io.write with
  | .ok _, .ok _, .ok landed => landedRecords landed (recordsThrough file call)
  | _, _, _ => []

/-- A file, the instances on its path, and the records that have landed: all of an append that
returned `Ok`, and those of another whose newline was written. -/
structure Shared (V : Type) where
  path : Str
  file : Option (List UInt8)
  instances : ℕ → EventLogAppendState
  landed : List V

inductive ThroughStep (V : Type) where
  | append (i : ℕ) (call : ThroughCall V) (io : ThroughIo)
  /-- The process of an instance ends, and another takes its place. -/
  | restart (i : ℕ)

def stepThrough (sys : Shared V) : ThroughStep V → Shared V
  | .append i call io =>
    match appendSync sys.path sys.file (sys.instances i) call io with
    | (file, state, result) =>
      { sys with
        file := file
        instances := update sys.instances i state
        landed := sys.landed ++
          match result with
          | .ok _ => recordsThrough sys.file call
          | .error _ => cutRecords sys.path sys.file (sys.instances i) call io }
  | .restart i => { sys with instances := update sys.instances i .default }

def runThrough (sys : Shared V) (steps : List (ThroughStep V)) : Shared V := steps.foldl stepThrough sys

/-- A path without a file. -/
def Shared.fresh (path : Str) : Shared V := ⟨path, none, fun _ => .default, []⟩

/-! ### The file is the landed records and a torn line -/

structure Intact (sys : Shared V) : Prop where
  printed : ∀ v ∈ sys.landed, (EventLogHost.toText v).isSome = true
  content : ∃ torn, newline ∉ torn ∧ sys.file.getD [] = sys.landed.flatMap lineOf ++ torn
  /-- An instance knows the length of complete lines. -/
  clean : ∀ i length, (sys.instances i).cleanTailLen = some length → length ≤ (sys.landed.flatMap lineOf).length

theorem intact_fresh (path : Str) : Intact (Shared.fresh path : Shared V) :=
  ⟨by simp [Shared.fresh], ⟨[], not_mem_nil, rfl⟩, by simp [Shared.fresh, EventLogAppendState.default]⟩

theorem repairTornTail_append {bytes torn : List UInt8} (hbytes : Complete bytes)
    (htorn : newline ∉ torn) : repairTornTail (bytes ++ torn) = bytes := by
  induction torn using List.reverseRecOn with
  | nil => rw [append_nil, repairTornTail_of_complete hbytes]
  | append_singleton torn x ih =>
    have hx : x ≠ newline := fun h => htorn (by simp [h])
    have hrest : newline ∉ torn := fun h => htorn (mem_append_left _ h)
    rw [repairTornTail, ← append_assoc, rdropWhile_concat_pos _ _ _ (by simpa using hx)]
    exact ih hrest

section

variable [LawfulEventLogHost V]

theorem newline_notMem_encode_textOf (v : V) : newline ∉ encode (textOf v) := by
  intro hmem
  have hchar : '\n' ∈ textOf v := mem_of_mem_encode (c := '\n') (by decide) (by decide) hmem
  rw [textOf] at hchar
  cases htext : EventLogHost.toText v with
  | none =>
    rw [htext] at hchar
    cases hchar
  | some text =>
    rw [htext] at hchar
    exact LawfulEventLogHost.newline_notMem v text htext hchar

/-- **The first bytes of a payload are the landed records and a torn line.** -/
theorem take_payload (n : ℕ) (vs : List V) : ∃ torn, newline ∉ torn ∧
      (vs.flatMap lineOf).take n = (landedRecords n vs).flatMap lineOf ++ torn := by
  induction vs generalizing n with
  | nil => exact ⟨[], not_mem_nil, by simp [landedRecords]⟩
  | cons v vs ih =>
    rw [landedRecords, flatMap_cons, take_append]
    split_ifs with hline
    · obtain ⟨torn, htorn, htake⟩ := ih (n - (lineOf v).length)
      refine ⟨torn, htorn, ?_⟩
      rw [take_of_length_le hline, htake, flatMap_cons, append_assoc]
    · -- The cut is inside the line of the first record, before its newline.
      refine ⟨(lineOf v).take n, ?_, ?_⟩
      · intro hmem
        rw [lineOf, lineBytes_eq, length_append, length_singleton] at hline
        rw [lineOf, lineBytes_eq, take_append_of_le_length (by omega)] at hmem
        exact newline_notMem_encode_textOf v (mem_of_mem_take hmem)
      · have hzero : n - (lineOf v).length = 0 := by omega
        rw [hzero, take_zero, append_nil, flatMap_nil, nil_append]

omit [LawfulEventLogHost V] in
theorem mem_of_mem_landedRecords {n : ℕ} {vs : List V} {v : V} (h : v ∈ landedRecords n vs) : v ∈ vs := by
  induction vs generalizing n with
  | nil => exact h
  | cons w vs ih =>
    rw [landedRecords] at h
    split_ifs at h
    · rcases mem_cons.1 h with rfl | h
      · exact mem_cons_self
      · exact mem_cons_of_mem w (ih h)
    · cases h

/-! ### What an append does -/

omit [LawfulEventLogHost V] in
/-- The file is left alone, or its torn line is cut off. -/
theorem probeTail_cases (path : Str) (maxBytes : Option ℕ) (io : ThroughIo)
    {file : Option (List UInt8)} {state : EventLogAppendState} {landed : List V} {torn : List UInt8}
    (htorn : newline ∉ torn) (hfile : file.getD [] = landed.flatMap lineOf ++ torn)
    (hclean : ∀ length, state.cleanTailLen = some length → length ≤ (landed.flatMap lineOf).length) :
    ((probeTail path maxBytes file state io).1.getD [] = file.getD [] ∧
        ∃ error, (probeTail path maxBytes file state io).2 = .error error) ∨
      (probeTail path maxBytes file state io).1.getD [] = landed.flatMap lineOf := by
  cases file with
  | none =>
    unfold probeTail
    cases io.dirError with
    | some error => exact .inl ⟨rfl, error, rfl⟩
    | none => exact .inr (append_eq_nil_iff.1 hfile.symm).1.symm
  | some bytes =>
    rw [getD_some] at hfile
    unfold probeTail
    dsimp only
    split_ifs with hlarge hknown
    · exact .inl ⟨rfl, _, rfl⟩
    · -- The length is one of complete lines, so there is no torn line.
      have hle := hclean _ hknown
      rw [hfile, length_append] at hle
      have hnil : torn = [] := length_eq_zero_iff.1 (by omega)
      rw [hnil, append_nil] at hfile
      exact .inr hfile
    · cases io.repairError with
      | some error => exact .inl ⟨rfl, error, rfl⟩
      | none =>
        refine .inr ?_
        rw [getD_some, hfile]
        exact repairTornTail_append (complete_flatMap_lineOf landed) htorn

/-- The outcomes of an append: nothing is written, or the first bytes of its records are written
after the complete lines. -/
inductive Wrote (sys : Shared V) (i : ℕ) (call : ThroughCall V) (records : List V) :
    Option (List UInt8) → EventLogAppendState → Except Str Unit → Prop where
  | unprintable (error : Str) (hrecords : records = []) :
      Wrote sys i call records sys.file (sys.instances i) (.error error)
  | nothing {file : Option (List UInt8)} (error : Str) (hrecords : records = [])
      (hfile : file.getD [] = sys.file.getD [] ∨ file.getD [] = sys.landed.flatMap lineOf) :
      Wrote sys i call records file .default (.error error)
  | part {bytes : List UInt8} (error : Str) (n : ℕ)
      (hprinted : ∀ v ∈ recordsThrough sys.file call, (EventLogHost.toText v).isSome = true)
      (hrecords : records = landedRecords n (recordsThrough sys.file call))
      (hbytes : bytes = sys.landed.flatMap lineOf ++ ((recordsThrough sys.file call).flatMap lineOf).take n) :
      Wrote sys i call records (some bytes) .default (.error error)
  | all {bytes : List UInt8} {length : ℕ}
      (hprinted : ∀ v ∈ recordsThrough sys.file call, (EventLogHost.toText v).isSome = true)
      (hbytes : bytes = sys.landed.flatMap lineOf ++ (recordsThrough sys.file call).flatMap lineOf)
      (hlength : length = bytes.length) :
      Wrote sys i call records (some bytes) ⟨some length, true⟩ (.ok ())

variable {sys : Shared V}

omit [LawfulEventLogHost V] in
/-- What is known before the write: an error, or the complete lines are all that is there. -/
theorem prepareAppend_cases (h : Intact sys) (i : ℕ) (call : ThroughCall V) (io : ThroughIo) :
    ((∃ error, (prepareAppend sys.path sys.file (sys.instances i) call io).2 = .error error) ∧
      ((prepareAppend sys.path sys.file (sys.instances i) call io).1.getD [] = sys.file.getD [] ∨
        (prepareAppend sys.path sys.file (sys.instances i) call io).1.getD [] = sys.landed.flatMap lineOf)) ∨
    ∃ leadLines, (leadThrough sys.file call).mapM serializeLine = .ok leadLines ∧
      prepareAppend sys.path sys.file (sys.instances i) call io =
        (some (sys.landed.flatMap lineOf), .ok leadLines) := by
  obtain ⟨torn, htorn, hfile⟩ := h.content
  have hprobe := probeTail_cases sys.path call.maxBytes io htorn hfile (h.clean i)
  rw [prepareAppend]
  generalize probeTail sys.path call.maxBytes sys.file (sys.instances i) io = probed at hprobe ⊢
  obtain ⟨file, result⟩ := probed
  cases result with
  | error error =>
    refine .inl ⟨⟨error, rfl⟩, ?_⟩
    rcases hprobe with ⟨hsame, -⟩ | hcut
    · exact .inl hsame
    · exact .inr hcut
  | ok handle =>
    have hcut : file.getD [] = sys.landed.flatMap lineOf := by
      rcases hprobe with ⟨-, error, herror⟩ | hcut
      · cases herror
      · exact hcut
    dsimp only
    cases hlead : (leadThrough sys.file call).mapM serializeLine with
    | error error => exact .inl ⟨⟨error, rfl⟩, .inr hcut⟩
    | ok leadLines =>
      dsimp only
      cases if handle then none else io.openError with
      | some error => exact .inl ⟨⟨error, rfl⟩, .inr hcut⟩
      | none => exact .inr ⟨leadLines, rfl, by rw [hcut]⟩

omit [LawfulEventLogHost V] in
theorem mapM_serializeLine_of_printed {vs : List V}
    (h : ∀ v ∈ vs, (EventLogHost.toText v).isSome = true) :
    ∃ lines, vs.mapM serializeLine = .ok lines ∧ lines.flatten = vs.flatMap lineOf := by
  have hlines : vs.mapM (serializeLine (V := V)) = .ok (vs.map lineOf) := by
    rw [Checked.mapM_eq_ok_iff]
    refine forall₂_map_right_iff.2 (forall₂_same.2 fun v hv => ?_)
    obtain ⟨text, htext⟩ := isSome_iff_exists.1 (h v hv)
    rw [serializeLine, lineOf, textOf, htext, getD_some]
  exact ⟨_, hlines, flatMap_def.symm⟩

omit [LawfulEventLogHost V] in
/-- An append that meets no error and no bound returns `Ok`, and all of it is written. -/
theorem appendSync_done (h : Intact sys) (i : ℕ) (call : ThroughCall V) {n : ℕ}
    (hprinted : ∀ v ∈ recordsThrough sys.file call, (EventLogHost.toText v).isSome = true)
    (hfits : exceeds call.maxBytes (sys.file.getD []).length = false)
    (hn : ((recordsThrough sys.file call).flatMap lineOf).length ≤ n) :
    (appendSync sys.path sys.file (sys.instances i) call (.writing n)).1 =
        some ((sys.landed ++ recordsThrough sys.file call).flatMap lineOf) ∧
      (appendSync sys.path sys.file (sys.instances i) call (.writing n)).2.2 = .ok () := by
  obtain ⟨lines, hlines, hflat⟩ := mapM_serializeLine_of_printed fun v hv => hprinted v (mem_append_right _ hv)
  obtain ⟨leadLines, hleadLines, hleadFlat⟩ :=
    mapM_serializeLine_of_printed fun v hv => hprinted v (mem_append_left _ hv)
  have hprobe : ∃ file handle, probeTail sys.path call.maxBytes sys.file (sys.instances i)
      (.writing n) = (file, .ok handle) := by
    cases hfile : sys.file with
    | none => exact ⟨none, false, rfl⟩
    | some bytes =>
      rw [hfile, getD_some] at hfits
      unfold probeTail
      dsimp only
      rw [if_neg (Bool.eq_false_iff.1 hfits)]
      split_ifs with hclean
      · exact ⟨_, _, rfl⟩
      · exact ⟨_, _, rfl⟩
  have hprepare : prepareAppend sys.path sys.file (sys.instances i) call (.writing n) =
      (some (sys.landed.flatMap lineOf), .ok leadLines) := by
    rcases prepareAppend_cases h i call (.writing n) with ⟨⟨error, herror⟩, -⟩ | ⟨found, hfound, heq⟩
    · obtain ⟨file, handle, hok⟩ := hprobe
      rw [prepareAppend, hok] at herror
      dsimp only at herror
      rw [hleadLines] at herror
      cases handle <;> cases herror
    · rw [hleadLines] at hfound
      cases hfound
      exact heq
  have hpayload : leadLines.flatten ++ lines.flatten = (recordsThrough sys.file call).flatMap lineOf := by
    rw [hleadFlat, hflat, recordsThrough, flatMap_append]
  have hwrite : writePayload sys.path (sys.landed.flatMap lineOf)
      ((recordsThrough sys.file call).flatMap lineOf) call.durable (.writing n) =
      (sys.landed.flatMap lineOf ++ (recordsThrough sys.file call).flatMap lineOf,
        .ok ((sys.landed.flatMap lineOf).length + ((recordsThrough sys.file call).flatMap lineOf).length)) := by
    simp only [writePayload, ThroughIo.writing]
    rw [take_of_length_le hn, if_neg (by omega)]
    cases call.durable <;> rfl
  rw [appendSync, hlines, hprepare]
  dsimp only
  rw [getD_some, hpayload, hwrite, flatMap_append]
  exact ⟨rfl, rfl⟩

omit [LawfulEventLogHost V] in
theorem wrote_appendSync (h : Intact sys) (i : ℕ) (call : ThroughCall V) (io : ThroughIo) :
    Wrote sys i call (cutRecords sys.path sys.file (sys.instances i) call io)
      (appendSync sys.path sys.file (sys.instances i) call io).1
      (appendSync sys.path sys.file (sys.instances i) call io).2.1
      (appendSync sys.path sys.file (sys.instances i) call io).2.2 := by
  rw [appendSync, cutRecords]
  cases hlines : call.events.mapM serializeLine with
  | error error => exact .unprintable error rfl
  | ok lines =>
    rcases prepareAppend_cases h i call io with ⟨⟨error, herror⟩, hfile⟩ | ⟨leadLines, hlead, heq⟩
    · generalize prepareAppend sys.path sys.file (sys.instances i) call io = prepared at herror hfile ⊢
      obtain ⟨file, result⟩ := prepared
      cases herror
      exact .nothing error rfl hfile
    · rw [heq]
      obtain ⟨hevents, hlines⟩ := of_mapM_serializeLine hlines
      obtain ⟨hleads, hleadLines⟩ := of_mapM_serializeLine hlead
      have hprinted : ∀ v ∈ recordsThrough sys.file call, (EventLogHost.toText v).isSome = true :=
        forall_mem_append.2 ⟨hleads, hevents⟩
      have hpayload : leadLines.flatten ++ lines.flatten = (recordsThrough sys.file call).flatMap lineOf := by
        rw [hleadLines, hlines, recordsThrough, flatMap_append]
      simp only [writePayload, getD_some, hpayload]
      cases hwrite : io.write with
      | error error => exact .nothing error rfl (.inr rfl)
      | ok written =>
        dsimp only
        by_cases hshort : written < ((recordsThrough sys.file call).flatMap lineOf).length
        · rw [if_pos hshort]
          exact .part _ written hprinted rfl rfl
        · rw [if_neg hshort]
          cases if call.durable then io.syncError else none with
          | some error => exact .part error written hprinted rfl rfl
          | none =>
            refine .all hprinted ?_ ?_
            · rw [take_of_length_le (by omega)]
            · rw [take_of_length_le (by omega), length_append]

omit [LawfulEventLogHost V] in
/-- The instances other than the one that appends know what they knew. -/
theorem Intact.clean_update (h : Intact sys) {i : ℕ} {s : EventLogAppendState} {R : List V}
    (hs : ∀ length, s.cleanTailLen = some length → length ≤ ((sys.landed ++ R).flatMap lineOf).length)
    (j length : ℕ) (hj : (update sys.instances i s j).cleanTailLen = some length) :
    length ≤ ((sys.landed ++ R).flatMap lineOf).length := by
  by_cases hij : j = i
  · subst hij
    rw [update_self] at hj
    exact hs length hj
  · rw [update_of_ne hij] at hj
    have hle := h.clean j length hj
    rw [flatMap_append, length_append]
    omega

/-- **A torn line is never followed by anything**: whatever an append does, the file is the landed
records and at most one line without its newline. -/
theorem Intact.stepThrough (h : Intact sys) (st : ThroughStep V) : Intact (stepThrough sys st) := by
  cases st with
  | restart i =>
    have hclean := h.clean_update (R := []) (i := i) (s := .default) nofun
    rw [append_nil] at hclean
    exact ⟨h.printed, h.content, hclean⟩
  | append i call io =>
    have hwrote := wrote_appendSync h i call io
    simp only [EventLog.stepThrough]
    generalize appendSync sys.path sys.file (sys.instances i) call io = outcome at hwrote ⊢
    generalize cutRecords sys.path sys.file (sys.instances i) call io = cut at hwrote ⊢
    obtain ⟨file, state, result⟩ := outcome
    cases hwrote with
    | unprintable error hcut =>
      subst hcut
      rw [update_eq_self, append_nil]
      exact h
    | nothing error hcut hfile =>
      subst hcut
      obtain ⟨torn, htorn, hcontent⟩ := h.content
      refine ⟨?_, ?_, h.clean_update nofun⟩
      · rw [append_nil]
        exact h.printed
      · rw [append_nil]
        rcases hfile with hsame | hlanded
        · exact ⟨torn, htorn, hsame.trans hcontent⟩
        · exact ⟨[], not_mem_nil, by rw [hlanded, append_nil]⟩
    | part error n hprinted hcut hbytes =>
      subst hcut
      obtain ⟨torn, htorn, htake⟩ := take_payload n (recordsThrough sys.file call)
      refine ⟨forall_mem_append.2 ⟨h.printed, fun v hv => hprinted v (mem_of_mem_landedRecords hv)⟩,
        ⟨torn, htorn, ?_⟩, h.clean_update nofun⟩
      · rw [getD_some, hbytes, htake, flatMap_append, append_assoc]
    | all hprinted hbytes hlength =>
      refine ⟨forall_mem_append.2 ⟨h.printed, hprinted⟩, ⟨[], not_mem_nil, ?_⟩, h.clean_update fun length hlen => ?_⟩
      · rw [getD_some, hbytes, flatMap_append, append_nil]
      · cases hlen
        rw [hlength, hbytes, flatMap_append]

theorem Intact.runThrough (h : Intact sys) (steps : List (ThroughStep V)) : Intact (runThrough sys steps) := by
  induction steps generalizing sys with
  | nil => exact h
  | cons st steps ih => exact ih (h.stepThrough st)

end

/-! ### Reading what has landed -/

variable (V) in
/-- Bytes are read as a text up to where they are none, and a newline is read for a newline only. -/
class LossyEventLogHost : Prop extends LawfulEventLogHost V where
  fromUtf8Lossy_append : ∀ (s : Str) (b : List UInt8),
    EventLogHost.fromUtf8Lossy V (encode s ++ b) = s ++ EventLogHost.fromUtf8Lossy V b
  newline_of_mem : ∀ b : List UInt8, '\n' ∈ EventLogHost.fromUtf8Lossy V b → newline ∈ b

section

variable [LossyEventLogHost V]

theorem readEvents_torn {E : Type} (path : Str) (maxRecords : Option ℕ)
    {parse : Str → ℕ → Except Str (Option E)} {g : V → Option E} {vs : List V}
    (hparse : Reads parse g vs) (hprinted : ∀ v ∈ vs, (EventLogHost.toText v).isSome = true)
    {torn : List UInt8} (htorn : newline ∉ torn) :
    readEvents path maxRecords parse (EventLogHost.fromUtf8Lossy V (vs.flatMap lineOf ++ torn)) =
      if exceeds maxRecords vs.length = true then .error (tooManyRecords path maxRecords)
      else .ok (vs.filterMap g) := by
  rw [flatMap_lineOf, LossyEventLogHost.fromUtf8Lossy_append]
  exact readEvents_lines path maxRecords hparse hprinted fun h => htorn (LossyEventLogHost.newline_of_mem torn h)

/-- The bounds of a reader, and that there is a file if there has to be one. -/
def Readable (options : ReplayOptions) (sys : Shared V) : Prop :=
  (sys.file = none → options.missingFileThrows = false) ∧ exceeds options.maxBytes (sys.file.getD []).length = false ∧
    exceeds options.maxRecords sys.landed.length = false

/-- What a replay of an intact log returns: an error, or what the parser makes of the landed
records. -/
theorem Intact.replay_cases {E : Type} {sys : Shared V} (h : Intact sys)
    {parse : Str → ℕ → Except Str (Option E)} {g : V → Option E} (hparse : Reads parse g sys.landed)
    (options : ReplayOptions) {io : ReplayIo} (hread : io.readError = none) :
    (Readable options sys ∧ (replay V ⟨sys.path, sys.file, none⟩ parse options io).2 = .ok (sys.landed.filterMap g)) ∨
    (¬ Readable options sys ∧ ∃ error, (replay V ⟨sys.path, sys.file, none⟩ parse options io).2 = .error error) := by
  obtain ⟨torn, htorn, hcontent⟩ := h.content
  simp only [replay, drainShared, replayed, Readable]
  cases hfile : sys.file with
  | none =>
    rw [hfile] at hcontent
    have hnone : sys.landed = [] := eq_nil_of_flatMap_lineOf (append_eq_nil_iff.1 hcontent.symm).1
    have hfits : ∀ max, exceeds max 0 = false := by
      intro max
      cases max with
      | none => rfl
      | some m => simp [exceeds]
    cases hthrows : options.missingFileThrows <;> simp [hnone, hfits]
  | some bytes =>
    rw [hfile, getD_some] at hcontent
    have hevents := readEvents_torn sys.path options.maxRecords hparse h.printed htorn
    rw [← hcontent] at hevents
    simp only [hread, hevents, getD_some, reduceCtorEq, false_imp_iff, true_and]
    cases exceeds options.maxBytes bytes.length with
    | true => simp
    | false => cases exceeds options.maxRecords sys.landed.length <;> simp

omit [LossyEventLogHost V] in
@[simp] theorem path_runThrough (sys : Shared V) (steps : List (ThroughStep V)) :
    (runThrough sys steps).path = sys.path := by
  induction steps generalizing sys with
  | nil => rfl
  | cons st steps ih =>
    refine (ih (stepThrough sys st)).trans ?_
    cases st <;> rfl

/-- **A replay returns what has landed, in every run of appends that may be cut off anywhere**, if
the log is within the bounds of the reader; the file is the lines of what has landed and at most one
torn line. -/
theorem replay_landed (path : Str) (steps : List (ThroughStep V))
    (parse : Str → ℕ → Except Str (Option V)) (options : ReplayOptions) (io : ReplayIo)
    (hparse : Accepting parse) (hread : io.readError = none) :
    (∃ torn, newline ∉ torn ∧ (runThrough (Shared.fresh path) steps).file.getD [] =
      (runThrough (Shared.fresh path : Shared V) steps).landed.flatMap lineOf ++ torn) ∧
    (Readable options (runThrough (Shared.fresh path : Shared V) steps) ↔
      (replay V ⟨path, (runThrough (Shared.fresh path : Shared V) steps).file, none⟩ parse options
        io).2 = .ok (runThrough (Shared.fresh path) steps).landed) := by
  have hintact := (intact_fresh (V := V) path).runThrough steps
  have hpath := path_runThrough (Shared.fresh path : Shared V) steps
  generalize runThrough (Shared.fresh path : Shared V) steps = sys at hintact hpath ⊢
  refine ⟨hintact.content, ?_⟩
  have hcases := hintact.replay_cases (hparse.reads sys.landed) options hread
  rw [hpath, filterMap_some] at hcases
  rcases hcases with ⟨hreadable, hok⟩ | ⟨hrefused, error, herror⟩
  · exact ⟨fun _ => hok, fun _ => hreadable⟩
  · refine ⟨fun hreadable => absurd hreadable hrefused, fun hok => ?_⟩
    rw [show (Shared.fresh path : Shared V).path = path from rfl, hok] at herror
    cases herror

end

end

/-! ### A log of scalars -/

def scalarText : Option Bool → Str
  | none => "null"
  | some true => "true"
  | some false => "false"

instance scalarHost : EventLogHost (Option Bool) where
  toText v := some (scalarText v)
  fromUtf8Lossy := decodeLossy

instance lossyScalarHost : LossyEventLogHost (Option Bool) where
  newline_notMem v t h := by
    cases h
    rcases v with _ | _ | _ <;> decide
  trim_text v t h := by
    cases h
    rcases v with _ | _ | _ <;> decide
  text_ne_nil v t h := by
    cases h
    rcases v with _ | _ | _ <;> decide
  fromUtf8Lossy_encode := decodeLossy_encode
  fromUtf8Lossy_append := decodeLossy_append
  newline_of_mem b h := mem_of_mem_decodeLossy (c := '\n') (by decide) h newline (by decide)

def parseScalar (line : Str) (_ : ℕ) : Except Str (Option (Option Bool)) :=
  if line = scalarText none then .ok (some none)
  else if line = scalarText (some true) then .ok (some (some true))
  else if line = scalarText (some false) then .ok (some (some false))
  else .error "corrupt line"

theorem accepting_parseScalar : Accepting parseScalar := by
  intro v text index h
  cases h
  rcases v with _ | _ | _ <;> rfl

/-- A record, two records of which the second is torn, and after a restart another one. -/
def tornRun : List (ThroughStep (Option Bool)) := [.append 0 ⟨[some true], false, none, none⟩ (.writing 5),
    .append 0 ⟨[none, some false], false, none, none⟩ (.writing 6),
    .restart 0,
    .append 0 ⟨[some true], false, none, none⟩ (.writing 5)]

theorem replay_landed_torn :
    (replay (Option Bool) ⟨"log", (runThrough (Shared.fresh "log") tornRun).file, none⟩ parseScalar
      ⟨none, none, false⟩ ⟨"not found", none, .done⟩).2 = .ok [some true, none, some true] :=
  ((replay_landed "log" tornRun parseScalar ⟨none, none, false⟩ ⟨"not found", none, .done⟩
    accepting_parseScalar rfl).2.1 ⟨fun _ => rfl, rfl, rfl⟩)

/-- A reader that takes no records refuses a log with one. -/
theorem replay_refuses_too_many : (runThrough (Shared.fresh "log")
      [.append 0 ⟨[some true], false, none, none⟩ (.writing 5)]).landed = [some true] ∧
    (replay (Option Bool) ⟨"log", (runThrough (Shared.fresh "log")
      [.append 0 ⟨[some true], false, none, none⟩ (.writing 5)]).file, none⟩ parseScalar
      ⟨none, some 0, false⟩ ⟨"not found", none, .done⟩).2 =
        .error "event log log exceeds 0 records; refusing to read" := by
  refine ⟨rfl, ?_⟩
  have hread : (replay (Option Bool) ⟨"log", (runThrough (Shared.fresh "log")
      [.append 0 ⟨[some true], false, none, none⟩ (.writing 5)]).file, none⟩ parseScalar
      ⟨none, some 0, false⟩ ⟨"not found", none, .done⟩).2 = readEvents "log" (some 0) parseScalar
        (EventLogHost.fromUtf8Lossy (Option Bool) (encode "true\n")) := rfl
  rw [hread, LawfulEventLogHost.fromUtf8Lossy_encode]
  decide

end EventLog
