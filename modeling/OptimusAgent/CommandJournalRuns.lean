/-
**Runs of the command recovery journal.**

Two things are asked of the journal.  Without a failure, the file says what the journal in memory
says: a journal that is loaded from it answers every lookup alike, through all compactions.  With
crashes, a command that `begin` called new is not called new again before it is acknowledged.

The second holds for a command whose record was appended to complete lines.  A torn line that a
crash has left is not ended before the next record is appended, so that record becomes part of the
torn line and cannot be read after the next crash: its command is dispatched a second time.
-/

import OptimusAgent.CommandJournal
import OptimusAgent.JsonText

namespace CommandJournal

open Str RowCodec LineLog List Option Utf8 IndexMap

variable {F R : Type} [JournalHost F R]

/-! ### Entries that survive -/

/-- The entry under a key would be read back from its record. -/
def Held (key : Str) (entries : IndexMap Str (JournalEntry R)) : Prop :=
  ∃ entry, entries.get? key = some entry ∧ entry.received.key = key ∧ entry.received.named = true

/-- The record does not acknowledge the key. -/
def Keeps (key : Str) : JournalRecord R → Prop
  | .acknowledged key' _ => key' ≠ key
  | _ => True

omit [JournalHost F R] in
theorem held_insert_self (entries : IndexMap Str (JournalEntry R)) {record : ReceivedRecord}
    (hnamed : record.named = true) : Held record.key (entries.insert record.key ⟨record, none⟩) :=
  ⟨⟨record, none⟩, by rw [get?_insert, if_pos rfl], rfl, hnamed⟩

variable {entries : IndexMap Str (JournalEntry R)}

section

omit [JournalHost F R]

theorem Held.insert {key key' : Str} (h : Held key entries)
    (hne : key' ≠ key) (entry : JournalEntry R) : Held key (entries.insert key' entry) := by
  rw [Held, get?_insert, if_neg hne.symm]
  exact h

theorem Held.erase {key key' : Str} (h : Held key entries) (hne : key' ≠ key) : Held key (entries.erase key') := by
  rw [Held, get?_erase, if_neg hne.symm]
  exact h

theorem Held.setResponse {key : Str} (h : Held key entries) (key' : Str) (response : R) :
    Held key (entries.modify key' fun entry => { entry with response := some response }) := by
  obtain ⟨entry, hentry, hkey, hnamed⟩ := h
  rw [Held, get?_modify, hentry]
  split_ifs
  · exact ⟨_, rfl, hkey, hnamed⟩
  · exact ⟨entry, rfl, hkey, hnamed⟩

end

theorem Held.applyRecord {key : Str}
    (h : Held key entries) {record : JournalRecord R} (hkeeps : Keeps key record) :
    Held key (applyRecord F entries record) := by
  cases record with
  | received record =>
    rw [CommandJournal.applyRecord]
    split_ifs with hnamed
    · by_cases hkey : record.key = key
      · rw [← hkey]
        exact held_insert_self entries hnamed
      · exact h.insert hkey _
    · exact h
  | result key' response _ =>
    rw [CommandJournal.applyRecord]
    split_ifs
    · exact h.setResponse key' response
    · exact h
  | acknowledged key' _ => exact h.erase hkeeps

/-! ### Parts of lines -/

/-- Some first bytes of the line of a record that does not acknowledge the key. -/
def Part (F : Type) {R : Type} [JournalHost F R] (key : Str) (bytes : List UInt8) : Prop :=
  bytes ≠ [] ∧ ∃ record : JournalRecord R, Keeps key record ∧ bytes <+: encode (text F record)

/-- Some first characters of such a line. -/
def TextPart (F : Type) {R : Type} [JournalHost F R] (key : Str) (s : Str) : Prop :=
  s ≠ [] ∧ ∃ record : JournalRecord R, Keeps key record ∧ s <+: text F record

section

variable [LawfulJournalHost F R]

theorem head?_encode_text (record : JournalRecord R) : (encode (text F record)).head? = some 123 := by
  obtain ⟨s, hs⟩ := head?_eq_some_iff.1 (head?_text F record)
  rw [hs, encode_cons]
  rfl

theorem newline_notMem_text (record : JournalRecord R) : '\n' ∉ text F record := LawfulJournalHost.newline_notMem _

variable {key clientId commandId commandType : Str} {file : List UInt8} {parts : List (List UInt8)}
  {s : State R} {journal : CommandRecoveryJournal R} {io : Io R} {sys : System R}

theorem Part.head? {bytes : List UInt8} (h : Part F (R := R) key bytes) : bytes.head? = some 123 := by
  obtain ⟨hne, record, -, hpre⟩ := h
  cases bytes with
  | nil => exact absurd rfl hne
  | cons b bytes =>
    obtain ⟨rest, hrest⟩ := hpre
    have hhead := head?_encode_text (F := F) record
    rw [← hrest] at hhead
    exact hhead

theorem ascii_head?_flatten (h : ∀ p ∈ parts, Part F (R := R) key p) : ∀ x ∈ parts.flatten.head?, x.toNat < 128 := by
  intro x hx
  cases parts with
  | nil => cases hx
  | cons p parts =>
    have hp := (h p (mem_cons_self ..)).head?
    obtain ⟨rest, rfl⟩ := head?_eq_some_iff.1 hp
    cases hx
    decide

/-- Parts that are read as text are read as parts. -/
theorem texts_of_parts (h : ∀ p ∈ parts, Part F (R := R) key p) {s : Str}
    (hs : parts.flatten = encode s) :
    ∃ texts : List Str, s = texts.flatten ∧ ∀ t ∈ texts, TextPart F (R := R) key t := by
  induction parts generalizing s with
  | nil => exact ⟨[], encode_injective (t := []) hs.symm, by simp⟩
  | cons p parts ih =>
    rw [forall_mem_cons] at h
    rw [flatten_cons] at hs
    obtain ⟨s₁, s₂, rfl, rfl, hrest⟩ := encode_split hs.symm (ascii_head?_flatten h.2)
    obtain ⟨texts, rfl, htexts⟩ := ih h.2 hrest
    obtain ⟨hne, record, hkeeps, hpre⟩ := h.1
    refine ⟨s₁ :: texts, rfl, forall_mem_cons.2 ⟨⟨?_, record, hkeeps, prefix_of_encode_prefix hpre⟩, htexts⟩⟩
    rintro rfl
    exact hne rfl

omit [LawfulJournalHost F R] in
theorem TextPart.fragment {s : Str} (h : TextPart F (R := R) key s) : Fragment F (R := R) s := by
  obtain ⟨hne, record, -, hpre⟩ := h
  exact ⟨hne, record, hpre⟩

theorem newline_notMem_flatten {texts : List Str}
    (h : ∀ t ∈ texts, TextPart F (R := R) key t) : '\n' ∉ texts.flatten := by
  intro hmem
  obtain ⟨t, ht, hnl⟩ := mem_flatten.1 hmem
  obtain ⟨-, record, -, hpre⟩ := h t ht
  exact newline_notMem_text record (hpre.subset hnl)

/-- A line made of parts never removes an entry. -/
theorem Held.loadLine (h : Held key journal.entries)
    {texts : List Str} (htexts : ∀ t ∈ texts, TextPart F (R := R) key t) :
    Held key (loadLine F journal texts.flatten).entries := by
  match texts, htexts with
  | [], _ => exact h
  | [t], htexts =>
    obtain ⟨-, record, hkeeps, hpre⟩ := htexts t (mem_cons_self ..)
    rw [flatten_cons, flatten_nil, append_nil]
    by_cases heq : t = text F record
    · rw [heq, loadLine_text]
      exact h.applyRecord hkeeps
    · rw [loadLine_of_fromStr (LawfulJournalHost.fromStr_part record t hpre heq)]
      exact h
  | t :: u :: rest, htexts =>
    rw [flatten_cons, flatten_cons, ← append_assoc, loadLine_of_fromStr]
    · exact h
    · exact LawfulJournalHost.fromStr_parts t u rest (htexts t (by simp)).fragment
        (htexts u (by simp)).fragment fun v hv => (htexts v (by simp [hv])).fragment

/-! ### Files that keep an entry -/

/-- The complete lines are read back with the entry, and no part after them acknowledges it. -/
def Durable (F : Type) {R : Type} [JournalHost F R] (key : Str) (file : List UInt8) : Prop :=
  ∃ head parts, file = head ++ flatten parts ∧ Complete head ∧
    (∀ s, head = encode s → Held key (loadText F (R := R) s).entries) ∧
    ∀ p ∈ parts, Part F (R := R) key p

omit [LawfulJournalHost F R] in
theorem loadLine_nil (journal : CommandRecoveryJournal R) : loadLine F journal [] = journal := rfl

/-- The parts of a readable file: its complete lines, and the texts of its parts. -/
theorem split_parts {head : List UInt8} {s : Str}
    (hhead : Complete head) (hparts : ∀ p ∈ parts, Part F (R := R) key p)
    (hs : head ++ parts.flatten = encode s) :
    ∃ s₁ texts, s = s₁ ++ flatten texts ∧ head = encode s₁ ∧ CompleteText s₁ ∧
      ∀ t ∈ texts, TextPart F (R := R) key t := by
  obtain ⟨s₁, s₂, rfl, hs₁, hs₂, hcomplete⟩ := hhead.split hs.symm (ascii_head?_flatten hparts)
  obtain ⟨texts, rfl, htexts⟩ := texts_of_parts hparts hs₂
  exact ⟨s₁, texts, rfl, hs₁, hcomplete, htexts⟩

section

variable (h : Durable F (R := R) key file)

include h

/-- The entry is there after a reload. -/
theorem Durable.load {journal : CommandRecoveryJournal R} (hload : load F file = some journal) :
    Held key journal.entries := by
  obtain ⟨head, parts, rfl, hhead, hheld, hparts⟩ := h
  obtain ⟨s, hs, rfl⟩ := map_eq_some_iff.1 hload
  obtain ⟨s₁, texts, rfl, hs₁, hcomplete, htexts⟩ :=
    split_parts hhead hparts (decode_eq_some_iff.1 hs)
  rw [loadText, readText_append_part loadLine_nil hcomplete (newline_notMem_flatten htexts)]
  exact (hheld s₁ hs₁).loadLine htexts

/-- A record that does not acknowledge the entry is appended, after complete lines or to a torn
one. -/
theorem Durable.append {record : JournalRecord R} (hkeeps : Keeps key record) :
    Durable F (R := R) key (file ++ lineBytes (text F record)) := by
  obtain ⟨head, parts, rfl, hhead, hheld, hparts⟩ := h
  refine ⟨_, [], (append_nil _).symm, complete_append_lineBytes _ _, fun s hs => ?_, by simp⟩
  have hall : ∀ p ∈ parts ++ [encode (text F record)], Part F (R := R) key p := by
    refine forall_mem_append.2 ⟨hparts, forall_mem_singleton.2 ⟨fun hnil => ?_, record, hkeeps, prefix_refl _⟩⟩
    exact text_ne_nil F record (encode_injective (t := []) hnil)
  -- The newline is cut off first; what is left are parts, the last of them the new record.
  rw [lineBytes_eq, ← append_assoc, append_assoc head] at hs
  obtain ⟨s₀, s₃, rfl, hs₀, hs₃⟩ := encode_split hs.symm fun x hx => by
    cases hx
    decide
  have hflat : head ++ (parts ++ [encode (text F record)]).flatten = encode s₀ := by
    rw [← hs₀]
    simp
  obtain ⟨s₁, texts, rfl, hs₁, hcomplete, htexts⟩ := split_parts hhead hall hflat
  rw [← encode_newline] at hs₃
  rw [← encode_injective hs₃, append_assoc, loadText,
    readText_append_line loadLine_nil hcomplete (newline_notMem_flatten htexts)]
  exact (hheld s₁ hs₁).loadLine htexts

/-- A failed append leaves some first bytes of the line. -/
theorem Durable.append_take {record : JournalRecord R} (hkeeps : Keeps key record) (landed : ℕ) :
    Durable F (R := R) key (file ++ (lineBytes (text F record)).take landed) := by
  by_cases hall : (lineBytes (text F record)).length ≤ landed
  · rw [take_of_length_le hall]
    exact h.append hkeeps
  by_cases hnone : (lineBytes (text F record)).take landed = []
  · rw [hnone, append_nil]
    exact h
  have hpre : (lineBytes (text F record)).take landed <+: encode (text F record) := by
    rw [lineBytes_eq, length_append, length_singleton] at hall
    rw [lineBytes_eq, take_append_of_le_length (by omega)]
    exact take_prefix _ _
  obtain ⟨head, parts, rfl, hhead, hheld, hparts⟩ := h
  refine ⟨head, parts ++ [(lineBytes (text F record)).take landed], by simp, hhead, hheld, ?_⟩
  exact forall_mem_append.2 ⟨hparts, forall_mem_singleton.2 ⟨hnone, record, hkeeps, hpre⟩⟩

end

/-- The record of a command starts a line, so it is read back. -/
theorem durable_received (hfile : Complete file) {record : ReceivedRecord} (hnamed : record.named = true) :
    Durable F (R := R) record.key (file ++ lineBytes (text F (R := R) (.received record))) := by
  refine ⟨_, [], (append_nil _).symm, complete_append_lineBytes _ _, fun s hs => ?_, by simp⟩
  have hascii : ∀ x ∈ (lineBytes (text F (R := R) (.received record))).head?, x.toNat < 128 := by
    intro x hx
    obtain ⟨rest, hrest⟩ := head?_eq_some_iff.1 (head?_encode_text (F := F) (R := R) (.received record))
    rw [lineBytes_eq, hrest] at hx
    cases hx
    decide
  obtain ⟨s₁, s₂, rfl, -, hs₂, hcomplete⟩ := hfile.split hs.symm hascii
  rw [← encode_injective hs₂, loadText,
    readText_append_line loadLine_nil hcomplete (newline_notMem_text _), loadLine_text, applyRecord,
    if_pos hnamed]
  exact held_insert_self _ hnamed

/-! ### Snapshots -/

/-- The file of a compaction is read record by record. -/
theorem loadText_records (records : List (JournalRecord R)) :
    (loadText F (unlines (records.map (text F)) ++ ['\n'])).entries = records.foldl (applyRecord F) empty := by
  have hfold : ∀ journal : CommandRecoveryJournal R, ((records.map (text F)).foldl (loadLine F) journal).entries =
        records.foldl (applyRecord F) journal.entries := by
    induction records with
    | nil => exact fun _ => rfl
    | cons record records ih =>
      intro journal
      rw [map_cons, foldl_cons, ih, loadLine_text, foldl_cons]
  have hlines : ∀ l ∈ records.map (text F), '\n' ∉ l := by
    intro l hl
    obtain ⟨record, -, rfl⟩ := mem_map.1 hl
    exact newline_notMem_text record
  rw [loadText, readText_unlines loadLine_nil hlines, hfold]

/-- The records that a compaction writes acknowledge nothing. -/
theorem keeps_of_mem_snapshot {record : JournalRecord R} (h : record ∈ snapshot journal io) (key : Str) :
    Keeps key record := by
  obtain ⟨e, -, he⟩ := mem_flatMap.1 h
  rcases mem_cons.1 he with rfl | he
  · trivial
  · obtain ⟨response, -, rfl⟩ := map_eq_some_iff.1 (mem_toList.1 he)
    trivial

section

omit [LawfulJournalHost F R]

variable {records : List (JournalRecord R)}

theorem Held.foldl_applyRecord (h : Held key entries) (hkeeps : ∀ record ∈ records, Keeps key record) :
    Held key (records.foldl (CommandJournal.applyRecord F) entries) := by
  induction records generalizing entries with
  | nil => exact h
  | cons record records ih =>
    rw [forall_mem_cons] at hkeeps
    exact ih (h.applyRecord hkeeps.1) hkeeps.2

theorem held_foldl_applyRecord
    (hkeeps : ∀ record ∈ records, Keeps key record) {record : ReceivedRecord}
    (hmem : .received record ∈ records) (hkey : record.key = key) (hnamed : record.named = true)
    (entries : IndexMap Str (JournalEntry R)) :
    Held key (records.foldl (applyRecord F) entries) := by
  induction records generalizing entries with
  | nil => cases hmem
  | cons first records ih =>
    rw [forall_mem_cons] at hkeeps
    rcases mem_cons.1 hmem with rfl | hmem
    · rw [foldl_cons, applyRecord, if_pos hnamed, ← hkey]
      rw [← hkey] at hkeeps
      exact (held_insert_self _ hnamed).foldl_applyRecord hkeeps.2
    · exact ih hkeeps.2 hmem _

end

/-- The snapshot of a journal with the entry is read back with it. -/
theorem durable_snapshot (h : Held key journal.entries) (io : Io R) :
    Durable F (R := R) key (lineBytes (unlines ((snapshot journal io).map (text F)))) := by
  refine ⟨_, [], (append_nil _).symm, ?_, fun s hs => ?_, by simp⟩
  · exact complete_append_lineBytes [] _
  · rw [← encode_injective hs, loadText_records]
    obtain ⟨entry, hentry, hkey, hnamed⟩ := h
    refine held_foldl_applyRecord (fun record hrecord => keeps_of_mem_snapshot hrecord key)
      (mem_flatMap.2 ⟨(key, entry), ?_, mem_cons_self ..⟩) hkey hnamed _
    exact (io.perm _).mem_iff.2 (Keyed.mem_of_first_eq_some hentry)

/-! ### A journal on a simple text format -/

noncomputable instance sampleHost : JournalHost Empty Bool where
  jsonStringify := JsonText.print
  fromStr := JsonText.read
  responseValue := .bool
  responseOf v :=
    match v with
    | .bool b => some b
    | _ => none
  responseType r := if r then "response" else "event"

theorem fragment_head {s : Str} (h : Fragment Empty (R := Bool) s) : s.head? = some '{' := by
  obtain ⟨hne, record, rest, hrest⟩ := h
  cases s with
  | nil => exact absurd rfl hne
  | cons c s =>
    have hhead : (text Empty record).head? = some '{' := rfl
    rw [← hrest] at hhead
    exact hhead

instance lawfulSampleHost : LawfulJournalHost Empty Bool where
  fromStr_jsonStringify v _ := JsonText.read_print v
  newline_notMem := JsonText.newline_notMem_print
  head_object _ := rfl
  wellFormed_responseValue r := .bool r
  responseOf_responseValue _ := rfl
  fromStr_part _ _ hpre hne := JsonText.read_of_prefix hpre hne
  fromStr_parts s t rest hs ht _ := by
    obtain ⟨s', rfl⟩ := head?_eq_some_iff.1 (fragment_head hs)
    obtain ⟨t', rfl⟩ := head?_eq_some_iff.1 (fragment_head ht)
    exact JsonText.read_of_brace (by simp)

/-- Surroundings in which the append has a given outcome and a compaction succeeds. -/
def Io.of (write : Write) : Io Bool where
  write := write
  replace := .done
  recordedAt := "2026-01-01T00:00:00.000Z"
  compactedAt _ := "2026-01-01T00:00:00.000Z"
  order := id
  perm := Perm.refl

/-! ### A command is new once -/

/-- The journal has the entry, and so does the file. -/
structure Kept (F : Type) {R : Type} [JournalHost F R] (key : Str) (s : State R) : Prop where
  held : Held key s.journal.entries
  durable : Durable F (R := R) key s.file

section

omit [LawfulJournalHost F R]

theorem append_entries (s : State R) (record : JournalRecord R) (write : Write) :
    (append F s record write).1.journal.entries = s.journal.entries := by
  cases write <;> rfl

theorem Kept.setEntries (h : Kept F key s) (hentries : Held key entries) :
    Kept F key { s with journal.entries := entries } :=
  ⟨hentries, h.durable⟩

end

theorem Kept.append (h : Kept F key s) (record : JournalRecord R)
    (hkeeps : Keeps key record) (write : Write) : Kept F key (append F s record write).1 := by
  refine ⟨by rw [append_entries]; exact h.held, ?_⟩
  cases write with
  | done => exact h.durable.append hkeeps
  | fails landed error => exact h.durable.append_take hkeeps landed

theorem Kept.compact (h : Kept F key s) (io : Io R) : Kept F key (compact F s io).1 := by
  rw [CommandJournal.compact]
  cases io.replace with
  | done => exact ⟨h.held, durable_snapshot h.held io⟩
  | fails renamed error =>
    refine ⟨h.held, ?_⟩
    cases renamed with
    | false => exact h.durable
    | true => exact durable_snapshot h.held io

omit [LawfulJournalHost F R] in
/-- A command that is held is found. -/
theorem Held.lookup_ne_none (h : Held (createCommandIdempotencyKey F R clientId commandId) journal.entries) :
    journal.lookup F clientId commandId ≠ none := by
  obtain ⟨entry, hentry, -, -⟩ := h
  rw [CommandRecoveryJournal.lookup, hentry]
  exact some_ne_none _

theorem Kept.begin (h : Kept F key s) (clientId commandId commandType : Str) (io : Io R) :
    Kept F key (begin F s clientId commandId commandType io).1 := by
  rw [CommandJournal.begin]
  cases hlookup : s.journal.lookup F clientId commandId with
  | some existing => exact h
  | none =>
    have hne : createCommandIdempotencyKey F R clientId commandId ≠ key := by
      rintro rfl
      exact h.held.lookup_ne_none hlookup
    have happend := h.append (.received ⟨createCommandIdempotencyKey F R clientId commandId, clientId,
      commandId, commandType, io.recordedAt⟩) trivial io.write
    simp only
    generalize CommandJournal.append F s _ io.write = appended at happend ⊢
    obtain ⟨s', result⟩ := appended
    cases result with
    | error error => exact happend
    | ok _ => exact happend.setEntries (happend.held.insert hne _)

theorem Kept.recordResult (h : Kept F key s) (clientId commandId : Str)
    (response : R) (io : Io R) : Kept F key (recordResult F s clientId commandId response io).1 := by
  have happend := h.append (.result (createCommandIdempotencyKey F R clientId commandId) response
    io.recordedAt) trivial io.write
  rw [CommandJournal.recordResult]
  simp only
  generalize CommandJournal.append F s _ io.write = appended at happend ⊢
  obtain ⟨s', result⟩ := appended
  split_ifs
  · exact h
  · cases result with
    | error error => exact happend
    | ok _ =>
      have hset := happend.setEntries (happend.held.setResponse
        (createCommandIdempotencyKey F R clientId commandId) response)
      simp only
      split_ifs
      · exact hset.compact io
      · exact hset

theorem Kept.acknowledge (h : Kept F key s)
    (hkey : createCommandIdempotencyKey F R clientId commandId ≠ key) (io : Io R) :
    Kept F key (acknowledge F s clientId commandId io).1 := by
  have happend := h.append (.acknowledged (createCommandIdempotencyKey F R clientId commandId)
    io.recordedAt) hkey io.write
  rw [CommandJournal.acknowledge]
  simp only
  generalize CommandJournal.append F s _ io.write = appended at happend ⊢
  obtain ⟨s', result⟩ := appended
  split_ifs
  · exact h
  · cases result with
    | error error => exact happend
    | ok _ =>
      have herase := happend.setEntries (happend.held.erase hkey)
      simp only
      split_ifs
      · exact herase.compact io
      · exact herase

/-- The step acknowledges a command. -/
def Step.Acknowledges (clientId commandId : Str) : Step R → Prop
  | .call (.acknowledge clientId' commandId') _ => clientId' = clientId ∧ commandId' = commandId
  | _ => False

/-- The journal has the entry if there is one, and the file has it. -/
structure Outstanding (F : Type) {R : Type} [JournalHost F R] (key : Str) (sys : System R) : Prop where
  held : ∀ journal, sys.journal = some journal → Held key journal.entries
  durable : Durable F (R := R) key sys.file

section

variable (h : Outstanding F (createCommandIdempotencyKey F R clientId commandId) sys)

include h

theorem Outstanding.step {st : Step R} (hst : ¬ st.Acknowledges clientId commandId) :
    Outstanding F (createCommandIdempotencyKey F R clientId commandId) (step F sys st) := by
  cases st with
  | reload => exact ⟨fun journal hload => h.durable.load hload, h.durable⟩
  | call call io =>
    rw [CommandJournal.step]
    cases hjournal : sys.journal with
    | none => exact h
    | some journal =>
      have hkept : Kept F (createCommandIdempotencyKey F R clientId commandId)
          ⟨sys.file, journal⟩ := ⟨h.held journal hjournal, h.durable⟩
      have hnext : Kept F (createCommandIdempotencyKey F R clientId commandId)
          (callState F ⟨sys.file, journal⟩ io call) := by
        cases call with
        | begin clientId' commandId' commandType => exact hkept.begin ..
        | recordResult clientId' commandId' response => exact hkept.recordResult ..
        | acknowledge clientId' commandId' =>
          exact hkept.acknowledge (fun heq => hst (createCommandIdempotencyKey_injective F R heq)) io
      exact ⟨fun journal' hjournal' => by cases hjournal'; exact hnext.held, hnext.durable⟩

omit h in
omit [LawfulJournalHost F R] in
theorem run_append (sys : System R) (steps steps' : List (Step R)) :
    run F sys (steps ++ steps') = run F (run F sys steps) steps' :=
  foldl_append

theorem Outstanding.run
    {steps : List (Step R)} (hsteps : ∀ st ∈ steps, ¬ st.Acknowledges clientId commandId) :
    Outstanding F (createCommandIdempotencyKey F R clientId commandId) (run F sys steps) := by
  induction steps generalizing sys with
  | nil => exact h
  | cons st steps ih =>
    rw [forall_mem_cons] at hsteps
    exact ih (h.step hsteps.1) hsteps.2

end

omit [LawfulJournalHost F R] in
/-- What `begin` has done when it returns that a command is new. -/
theorem begin_of_new (hnew : (begin F s clientId commandId commandType io).2 = .ok .new) :
    s.journal.lookup F clientId commandId = none ∧ ∃ record : ReceivedRecord,
      record = ⟨createCommandIdempotencyKey F R clientId commandId, clientId, commandId, commandType, io.recordedAt⟩ ∧
      (begin F s clientId commandId commandType io).1.file = s.file ++ lineBytes (text F (R := R) (.received record)) ∧
      (begin F s clientId commandId commandType io).1.journal.entries =
        s.journal.entries.insert record.key ⟨record, none⟩ := by
  rw [begin] at hnew ⊢
  cases hlookup : s.journal.lookup F clientId commandId with
  | some existing =>
    rw [hlookup] at hnew
    obtain rfl : existing = .new := Except.ok.inj hnew
    rw [CommandRecoveryJournal.lookup, map_eq_some_iff] at hlookup
    obtain ⟨entry, -, hentry⟩ := hlookup
    split at hentry <;> cases hentry
  | none =>
    rw [hlookup] at hnew
    cases hwrite : io.write with
    | done => exact ⟨rfl, _, rfl, rfl, rfl⟩
    | fails landed error =>
      rw [hwrite] at hnew
      cases hnew

omit [LawfulJournalHost F R] in
theorem begins_eq_some_iff {result : Except Str (CommandJournalBeginResult R)} :
    begins F sys clientId commandId commandType io = some result ↔ ∃ journal, sys.journal = some journal ∧
        (begin F ⟨sys.file, journal⟩ clientId commandId commandType io).2 = result :=
  map_eq_some_iff

/-- A command that is new is kept, if its record starts a line. -/
theorem outstanding_of_new (hclient : clientId ≠ []) (hcommand : commandId ≠ []) (htype : commandType ≠ [])
    (hfile : Complete sys.file)
    (hnew : begins F sys clientId commandId commandType io = some (.ok .new)) :
    Outstanding F (createCommandIdempotencyKey F R clientId commandId)
      (step F sys (.call (.begin clientId commandId commandType) io)) := by
  obtain ⟨journal, hjournal, hok⟩ := begins_eq_some_iff.1 hnew
  obtain ⟨-, record, hrecord, hfile', hentries⟩ := begin_of_new hok
  have hkey : createCommandIdempotencyKey F R clientId commandId = record.key := by rw [hrecord]
  have hnamed : record.named = true := by simp [hrecord, ReceivedRecord.named, hclient, hcommand, htype]
  rw [step, hjournal, hkey]
  refine ⟨fun journal' hjournal' => ?_, ?_⟩
  · cases hjournal'
    rw [callState, hentries]
    exact held_insert_self _ hnamed
  · simp only [callState, hfile']
    exact durable_received hfile hnamed

/-- **A command is new once, if its record starts a line.** -/
theorem new_at_most_once (before between : List (Step R)) (clientId commandId commandType : Str)
    (commandType' : Str) (io io' : Io R) (hclient : clientId ≠ []) (hcommand : commandId ≠ [])
    (htype : commandType ≠ []) (hfile : Complete (run F (System.fresh (R := R)) before).file)
    (hnew : begins F (run F System.fresh before) clientId commandId commandType io = some (.ok .new))
    (hbetween : ∀ st ∈ between, ¬ st.Acknowledges clientId commandId) :
    begins F (run F System.fresh (before ++ .call (.begin clientId commandId commandType) io :: between))
      clientId commandId commandType' io' ≠ some (.ok .new) := by
  intro hagain
  have hkept := (outstanding_of_new hclient hcommand htype hfile hnew).run hbetween
  rw [run_append] at hagain
  obtain ⟨journal, hjournal, hok⟩ := begins_eq_some_iff.1 hagain
  exact (hkept.held journal hjournal).lookup_ne_none (begin_of_new hok).1

/-- A crash while the result is written leaves three bytes of it. -/
theorem new_at_most_once_torn_result :
    begins Empty (run Empty System.fresh ([] ++ .call (.begin "client" "1" "prompt") (.of .done) ::
      [.call (.recordResult "client" "1" true) (.of (.fails 3 "crash")), .reload]))
      "client" "1" "prompt" (.of .done) ≠ some (.ok .new) :=
  new_at_most_once [] _ "client" "1" "prompt" "prompt" (.of .done) (.of .done) (by decide) (by decide)
    (by decide) (.inl rfl) rfl (by
      intro st hst
      simp only [mem_cons, not_mem_nil, or_false] at hst
      rcases hst with rfl | rfl <;> exact id)

/-- A line that a crash has left with one brace is not read, nor is a record on it. -/
theorem load_brace : load Empty [123] = some (⟨empty, 0⟩ : CommandRecoveryJournal Bool) := by
  have hbytes : ([123] : List UInt8) = encode ([] ++ ['{']) := by decide
  rw [load, hbytes, decode_encoded, map_some, loadText, readText_append_part loadLine_nil (.inl rfl) (by decide),
    loadLine_of_fromStr (JsonText.read_of_prefix (v := .null) ⟨_, rfl⟩ (by simp [JsonText.print]))]
  rfl

theorem load_brace_record (record : JournalRecord Bool) : load Empty ([123] ++ lineBytes (text Empty record)) =
      some (⟨empty, 0⟩ : CommandRecoveryJournal Bool) := by
  have hbytes : [123] ++ lineBytes (text Empty record) =
      encode ([] ++ ('{' :: text Empty record ++ ['\n'])) := rfl
  have hbrace : '{' ∈ text Empty record := mem_of_mem_head? (head?_text Empty record)
  rw [load, hbytes, decode_encoded, map_some, loadText, readText_append_line loadLine_nil (.inl rfl) (by
      simpa using newline_notMem_text (F := Empty) record),
    loadLine_of_fromStr (JsonText.read_of_brace hbrace)]
  rfl

/-- A crash while the record of one command is written leaves its first byte; the record of the next
command follows on the same line, and is lost in the next crash. -/
theorem new_twice : ∃ (before between : List (Step Bool)) (clientId commandId commandType : Str)
    (io : Io Bool), clientId ≠ [] ∧ commandId ≠ [] ∧ commandType ≠ [] ∧
    begins Empty (run Empty System.fresh before) clientId commandId commandType io = some (.ok .new) ∧
    (∀ st ∈ between, ¬ st.Acknowledges clientId commandId) ∧
    begins Empty (run Empty System.fresh (before ++ .call (.begin clientId commandId commandType) io :: between))
      clientId commandId commandType io = some (.ok .new) := by
  have htorn : run Empty System.fresh [.call (.begin "client" "1" "prompt") (.of (.fails 1 "crash")),
      .reload] = ⟨[123], some (⟨empty, 0⟩ : CommandRecoveryJournal Bool)⟩ := by
    have hload : run Empty System.fresh [.call (.begin "client" "1" "prompt")
        (.of (.fails 1 "crash")), .reload] = ⟨[123], load Empty [123]⟩ := rfl
    rw [hload, load_brace]
  refine ⟨[.call (.begin "client" "1" "prompt") (.of (.fails 1 "crash")), .reload], [.reload],
    "client", "2", "prompt", .of .done, by decide, by decide, by decide, ?_, ?_, ?_⟩
  · rw [htorn]
    rfl
  · intro st hst
    cases mem_singleton.1 hst
    exact id
  · rw [run_append, htorn, run, foldl_cons, foldl_cons, foldl_nil]
    have hlost : load Empty (step Empty ⟨[123], some ⟨empty, 0⟩⟩ (.call
        (.begin "client" "2" "prompt") (.of .done))).file =
          some (⟨empty, 0⟩ : CommandRecoveryJournal Bool) := load_brace_record _
    generalize step (R := Bool) Empty _ (.call _ _) = sys at hlost ⊢
    rw [step, hlost]
    rfl

/-! ### The file says what the journal says -/

/-- The entry is the one that its records make. -/
structure SoundEntry (F : Type) {R : Type} [JournalHost F R] (key : Str) (entry : JournalEntry R) :
    Prop where
  key_eq : entry.received.key = key
  named : entry.received.named = true
  response : ∀ r, entry.response = some r → JournalHost.responseType F r = "response"

/-- What is read from the file finds the same entries as the journal. -/
structure Mirrors (F : Type) {R : Type} [JournalHost F R] (s : State R) : Prop where
  sound : ∀ key entry, s.journal.entries.get? key = some entry → SoundEntry F key entry
  file : ∃ t, s.file = encode t ∧ CompleteText t ∧
    ∀ key, (loadText F (R := R) t).entries.get? key = s.journal.entries.get? key

section

omit [LawfulJournalHost F R]

theorem mirrors_fresh : Mirrors F (R := R) ⟨[], ⟨empty, 0⟩⟩ :=
  ⟨fun _ _ h => absurd h.symm (some_ne_none _), [], rfl, .inl rfl, fun _ => rfl⟩

theorem get?_foldl_applyRecord (records : List (JournalRecord R))
    (entries : IndexMap Str (JournalEntry R)) (key : Str) :
    (records.foldl (applyRecord F) entries).get? key =
      records.foldl (fun entry record => effect F record key entry) (entries.get? key) := by
  induction records generalizing entries with
  | nil => rfl
  | cons record records ih => rw [foldl_cons, ih, get?_applyRecord, foldl_cons]

end

/-- The file after a record is read with the effect of the record. -/
theorem Mirrors.append_file (h : Mirrors F s) (record : JournalRecord R) :
    ∃ t, (append F s record .done).1.file = encode t ∧ CompleteText t ∧
      ∀ key, (loadText F (R := R) t).entries.get? key = effect F record key (s.journal.entries.get? key) := by
  obtain ⟨t, hfile, hcomplete, hentries⟩ := h.file
  refine ⟨t ++ (text F record ++ ['\n']), ?_, .inr ⟨t ++ text F record, by simp⟩, fun key => ?_⟩
  · rw [append, hfile, lineBytes, ← encode_append]
  · rw [loadText, readText_append_line loadLine_nil hcomplete (newline_notMem_text record),
      loadLine_text, get?_applyRecord]
    exact congrArg (effect F record key) (hentries key)

section

omit [LawfulJournalHost F R]

/-- The records of an entry make the entry, and leave the others. -/
theorem foldl_effect_entryRecords {e : Str × JournalEntry R} (hsound : SoundEntry F e.1 e.2)
    (compactedAt : Str → Str) (key : Str) (entry : Option (JournalEntry R)) :
    (entryRecords compactedAt e).foldl (fun entry record => effect F record key entry) entry =
      if key = e.1 then some e.2 else entry := by
  obtain ⟨key', received, response⟩ := e
  obtain rfl : received.key = key' := hsound.key_eq
  have hnamed : received.named = true := hsound.named
  have hresponse := hsound.response
  cases response with
  | none => simp only [entryRecords, map_none, toList_none, foldl_cons, foldl_nil, effect, hnamed, true_and]
  | some r =>
    have htype : JournalHost.responseType F r = "response" := hresponse r rfl
    simp only [entryRecords, map_some, toList_some, foldl_cons, foldl_nil, effect, hnamed, htype, true_and]
    split_ifs <;> rfl

theorem foldl_effect_entries {entries : List (Str × JournalEntry R)} (compactedAt : Str → Str)
    (hnodup : (entries.map Prod.fst).Nodup) (hsound : ∀ e ∈ entries, SoundEntry F e.1 e.2) (key : Str)
    (entry : Option (JournalEntry R)) :
    (entries.flatMap (entryRecords compactedAt)).foldl
      (fun entry record => effect F record key entry) entry = (Keyed.first key entries).or entry := by
  induction entries generalizing entry with
  | nil => rfl
  | cons e entries ih =>
    rw [map_cons, nodup_cons] at hnodup
    rw [forall_mem_cons] at hsound
    rw [flatMap_cons, foldl_append, foldl_effect_entryRecords hsound.1, ih hnodup.2 hsound.2]
    split_ifs with hkey
    · have hnone : Keyed.first key entries = none := Keyed.first_eq_none_iff.2 fun x hx hxkey => hnodup.1 (by
          rw [← hkey, ← hxkey]
          exact mem_map_of_mem hx)
      rw [hnone, Keyed.first_cons, if_pos hkey.symm]
      rfl
    · rw [Keyed.first_cons, if_neg fun heq => hkey heq.symm]

/-- **A compaction writes what the journal says.** -/
theorem get?_snapshot (hsound : ∀ key entry, journal.entries.get? key = some entry → SoundEntry F key entry)
    (io : Io R) (key : Str) :
    ((snapshot journal io).foldl (applyRecord F) empty).get? key = journal.entries.get? key := by
  have hperm := io.perm journal.entries.entries
  have hnodup : ((io.order journal.entries.entries).map Prod.fst).Nodup :=
    (hperm.map Prod.fst).nodup_iff.2 journal.entries.nodup
  rw [get?_foldl_applyRecord, snapshot, foldl_effect_entries _ hnodup, get?_empty,
    or_none, Keyed.first_perm hperm hnodup]
  · rfl
  · intro e he
    exact hsound e.1 e.2 ((Keyed.first_eq_some_iff_mem journal.entries.nodup).2 (hperm.mem_iff.1 he))

end

theorem Mirrors.compact (h : Mirrors F s) (hio : io.replace = .done) : Mirrors F (compact F s io).1 := by
  rw [CommandJournal.compact, hio]
  refine ⟨h.sound, unlines ((snapshot s.journal io).map (text F)) ++ ['\n'], rfl, .inr ⟨_, rfl⟩,
    fun key => ?_⟩
  rw [loadText_records, get?_snapshot h.sound]

/-- The call has names, and a result is a response. -/
def Call.Regular (F : Type) {R : Type} [JournalHost F R] : Call R → Prop
  | .begin clientId commandId commandType => clientId ≠ [] ∧ commandId ≠ [] ∧ commandType ≠ []
  | .recordResult _ _ response => JournalHost.responseType F response = "response"
  | .acknowledge _ _ => True

/-- The record is read back with its effect. -/
def JournalRecord.Regular (F : Type) {R : Type} [JournalHost F R] : JournalRecord R → Prop
  | .received record => record.named = true
  | .result _ response _ => JournalHost.responseType F response = "response"
  | .acknowledged _ _ => True

omit [LawfulJournalHost F R] in
theorem SoundEntry.effect {record : JournalRecord R} (hrecord : record.Regular F)
    {old : Option (JournalEntry R)} (hold : ∀ entry, old = some entry → SoundEntry F key entry)
    {entry : JournalEntry R} (h : effect F record key old = some entry) : SoundEntry F key entry := by
  cases record with
  | received record =>
    rw [CommandJournal.effect] at h
    split_ifs at h with hkey
    · cases h
      exact ⟨hkey.2.symm, hkey.1, fun _ hr => absurd hr.symm (some_ne_none _)⟩
    · exact hold entry h
  | result key' response recordedAt =>
    rw [CommandJournal.effect] at h
    split_ifs at h with hkey
    · obtain ⟨entry', hentry', rfl⟩ := map_eq_some_iff.1 h
      have hsound := hold entry' hentry'
      refine ⟨hsound.key_eq, hsound.named, fun r hr => ?_⟩
      cases hr
      exact hrecord
    · exact hold entry h
  | acknowledged key' recordedAt =>
    rw [CommandJournal.effect] at h
    split_ifs at h
    exact hold entry h

/-- A record is appended, and the journal changes by its effect. -/
theorem Mirrors.record (h : Mirrors F s) (record : JournalRecord R)
    (hrecord : record.Regular F) (entries : IndexMap Str (JournalEntry R))
    (hentries : ∀ key, entries.get? key = effect F record key (s.journal.entries.get? key)) (n : ℕ) :
    Mirrors F ⟨(append F s record .done).1.file, ⟨entries, n⟩⟩ := by
  obtain ⟨t, hfile, hcomplete, hread⟩ := h.append_file record
  refine ⟨fun key entry hentry => ?_, t, hfile, hcomplete, fun key => ?_⟩
  · rw [hentries] at hentry
    exact SoundEntry.effect hrecord (h.sound key) hentry
  · rw [hread, hentries]

theorem Mirrors.callState (h : Mirrors F s) {call : Call R} (hcall : call.Regular F)
    (hwrite : io.write = .done) (hreplace : io.replace = .done) :
    Mirrors F (callState F s io call) := by
  cases call with
  | begin clientId commandId commandType =>
    obtain ⟨hclient, hcommand, htype⟩ := hcall
    have hnamed : (⟨createCommandIdempotencyKey F R clientId commandId, clientId, commandId,
        commandType, io.recordedAt⟩ : ReceivedRecord).named = true := by
      simp [ReceivedRecord.named, hclient, hcommand, htype]
    rw [CommandJournal.callState, begin]
    cases hlookup : s.journal.lookup F clientId commandId with
    | some existing => exact h
    | none =>
      simp only [hwrite]
      refine h.record (.received _) hnamed _ (fun key => ?_) _
      simp only [get?_insert, CommandJournal.effect, hnamed, true_and]
  | recordResult clientId commandId response =>
    have htype : JournalHost.responseType F response = "response" := hcall
    have hset := h.record (.result (createCommandIdempotencyKey F R clientId commandId) response
      io.recordedAt) hcall (s.journal.entries.modify (createCommandIdempotencyKey F R clientId
        commandId) fun entry => { entry with response := some response })
      (fun key => by simp only [get?_modify, CommandJournal.effect, htype, true_and])
      (s.journal.recordCount + 1)
    simp only [CommandJournal.callState, recordResult, hwrite, append] at hset ⊢
    split_ifs
    · exact h
    · exact hset.compact hreplace
    · exact hset
  | acknowledge clientId commandId =>
    have herase := h.record (.acknowledged (createCommandIdempotencyKey F R clientId commandId)
      io.recordedAt) trivial (s.journal.entries.erase (createCommandIdempotencyKey F R clientId
        commandId)) (fun key => by simp only [get?_erase, CommandJournal.effect])
      (s.journal.recordCount + 1)
    simp only [CommandJournal.callState, acknowledge, hwrite, append] at herase ⊢
    split_ifs
    · exact h
    · exact herase.compact hreplace
    · exact herase

/-- A call whose writes succeed. -/
def Step.CrashFree (F : Type) {R : Type} [JournalHost F R] : Step R → Prop
  | .call c io => c.Regular F ∧ io.write = .done ∧ io.replace = .done
  | .reload => False

theorem mirrors_run {steps : List (Step R)} (hsteps : ∀ st ∈ steps, st.CrashFree F)
    (h : Mirrors F s) : ∃ s', run F ⟨s.file, some s.journal⟩ steps = ⟨s'.file, some s'.journal⟩ ∧ Mirrors F s' := by
  induction steps generalizing s with
  | nil => exact ⟨s, rfl, h⟩
  | cons st steps ih =>
    rw [forall_mem_cons] at hsteps
    cases st with
    | reload => exact hsteps.1.elim
    | call call io =>
      obtain ⟨hcall, hwrite, hreplace⟩ := hsteps.1
      exact ih hsteps.2 (h.callState hcall hwrite hreplace)

/-- **The file says what the journal says**, and a key determines its command. -/
theorem replay_faithful (steps : List (Step R)) (hsteps : ∀ st ∈ steps, st.CrashFree F) :
    (∃ live loaded, (run F System.fresh steps).journal = some live ∧
      load F (run F (System.fresh (R := R)) steps).file = some loaded ∧
      ∀ clientId commandId : Str, loaded.lookup F clientId commandId = live.lookup F clientId commandId) ∧
    ∀ clientId commandId clientId' commandId' : Str, createCommandIdempotencyKey F R clientId commandId =
        createCommandIdempotencyKey F R clientId' commandId' →
      clientId = clientId' ∧ commandId = commandId' := by
  refine ⟨?_, fun _ _ _ _ => createCommandIdempotencyKey_injective F R⟩
  obtain ⟨s, hrun, -, t, hfile, -, hentries⟩ := mirrors_run hsteps mirrors_fresh
  have hfresh : run F System.fresh steps = ⟨s.file, some s.journal⟩ := hrun
  refine ⟨s.journal, loadText F t, by rw [hfresh], ?_, fun clientId commandId => ?_⟩
  · rw [hfresh, load, hfile, decode_encoded]
    rfl
  · rw [CommandRecoveryJournal.lookup, CommandRecoveryJournal.lookup, hentries]

/-- A command is acknowledged, so that the journal is compacted, and another one is answered. -/
def acknowledgedCycle : List (Step Bool) :=
  [.call (.begin "client" "1" "prompt") (.of .done), .call (.recordResult "client" "1" true) (.of .done),
    .call (.acknowledge "client" "1") (.of .done), .call (.begin "client" "2" "prompt") (.of .done),
    .call (.recordResult "client" "2" true) (.of .done)]

theorem replay_faithful_cycle :
    (∃ live loaded, (run Empty System.fresh acknowledgedCycle).journal = some live ∧
      load Empty (run Empty System.fresh acknowledgedCycle).file = some loaded ∧
      ∀ clientId commandId : Str, loaded.lookup Empty clientId commandId = live.lookup Empty clientId commandId) ∧
    createCommandIdempotencyKey Empty Bool "a" "b" ≠ createCommandIdempotencyKey Empty Bool "b" "a" := by
  have hfree : ∀ st ∈ acknowledgedCycle, st.CrashFree Empty := by
    intro st hst
    simp only [acknowledgedCycle, mem_cons, not_mem_nil, or_false] at hst
    rcases hst with rfl | rfl | rfl | rfl | rfl
    · exact ⟨⟨by decide, by decide, by decide⟩, rfl, rfl⟩
    · exact ⟨rfl, rfl, rfl⟩
    · exact ⟨trivial, rfl, rfl⟩
    · exact ⟨⟨by decide, by decide, by decide⟩, rfl, rfl⟩
    · exact ⟨rfl, rfl, rfl⟩
  obtain ⟨hlookup, hkeys⟩ := replay_faithful (F := Empty) (R := Bool) acknowledgedCycle hfree
  exact ⟨hlookup, fun heq => absurd (hkeys _ _ _ _ heq).1 (by decide)⟩

end

end CommandJournal
