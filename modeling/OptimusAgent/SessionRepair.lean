/-
**Session files: how they are read, and their repair after a crash.**

A session file is cut into lines, and every line that is a JSON object is an entry.  A small file is
read as a whole, a large one in chunks of any sizes that the operating system returns.  The rows are
taken only if the first is a valid header; then the usage that later rows attribute to a message of
the assistant is entered into it, and the last attribution stands.

A crash can leave the last line of a session file without its newline, or fill appended space with
zero bytes; the next append would then stand in the same line as the damage.  So a file is repaired
when it is opened: if its end looks damaged, the lines are scanned and the file is replaced.  This
module embeds the loaders, `tail_looks_damaged` and `repair_jsonl_damage` of
`core/session_manager.rs` and the reader of `utils/file_lines.rs`.

What the operating system answers to a repair is a parameter, `RepairFaults`; the contents of the
file do not change while it is read or repaired except where a fault says so, and then the repair
fails.  The counts that are only printed are left out.
-/

import OptimusAgent.Session
import OptimusAgent.LineLog
import OptimusAgent.Checked

namespace Session

open Str SessionManager

variable {J M : Type} [JsonHost J M]

/-- A single component of a file name. -/
def validSessionId (id : Str) : Bool :=
  id ≠ [] && id ≠ "." && id ≠ ".." && !id.any fun c => c = '/' || c = '\\' || c = ':' || isControl c

omit [JsonHost J M] in
def validSessionHeader (e : SessionEntry J) : Bool := e.isSessionHeader && validSessionId e.id

/-- The message to which an entry attributes a usage. -/
def attribution? (e : SessionEntry J) : Option (Str × J) :=
  match e.body with
  | .childUsageAttributed targetId aggregateUsage =>
    (JsonHost.usage aggregateUsage).map fun usage => (targetId, usage)
  | _ => none

/-- The messages of the assistant by id, with their places. -/
def assistantEntriesById (entries : List (SessionEntry J)) : IndexMap Str (SessionEntry J × ℕ) :=
  IndexMap.indexBy (fun p => p.1.id) (entries.zipIdx.filter fun p => isAssistantMessage p.1)

/-- Enters one attribution. -/
def applyAttribution (places : IndexMap Str (SessionEntry J × ℕ)) (entries : List (SessionEntry J))
    (a : Str × J) : List (SessionEntry J) :=
  match places.get? a.1 with
  | some (_, index) => entries.modify index (attributeUsage a.2)
  | none => entries

def applyChildUsageAttributions (entries : List (SessionEntry J)) : List (SessionEntry J) :=
  (entries.filterMap attribution?).foldl (applyAttribution (assistantEntriesById entries)) entries

/-- The entries of a file; none if the file does not begin with a header. -/
def loadEntries (rows : List (SessionEntry J)) : List (SessionEntry J) :=
  match rows with
  | [] => []
  | header :: _ => if validSessionHeader header = true then applyChildUsageAttributions rows else []

open LineLog ByteLines List

/-- What the loader takes from the JSON library: the value of a text, and the entry of an object,
with its inline texts put back. -/
class LineHost (V J : Type) where
  fromStr : Str → Option V
  entryOf : V → Option (SessionEntry J)

/-! ### The buffered loader -/

section

variable (V : Type) {J M : Type} [JsonHost J M] [LineHost V J]

omit [JsonHost J M] in
/-- The entry of a line; an empty line, and one that is no JSON object, has none. -/
def appendEntryFromBuffer (line : List UInt8) : Option (SessionEntry J) :=
  if line = [] then none else (LineHost.fromStr J (Utf8.lossy line) : Option V).bind LineHost.entryOf

omit [JsonHost J M] in
def parseEntriesFromBuffer (buffer : List UInt8) : List (SessionEntry J) :=
  (lines buffer).filterMap (appendEntryFromBuffer V)

/-- The entries of a file that may be missing. -/
def loadEntriesFromFile (file : Option (List UInt8)) : List (SessionEntry J) :=
  match file with
  | none => []
  | some buffer => loadEntries (parseEntriesFromBuffer V buffer)

/-! ### The streaming loader -/

omit [JsonHost J M] [LineHost V J] in
/-- The bytes that are asked for at a time. -/
def readChunkBytes : ℕ := 64 * 1024

/-- Both ends of a range are included. -/
structure ReadLinesRange where
  start : Option ℤ
  last : Option ℤ

/-- How many bytes are left to read, if that is bounded. -/
def ReadLinesRange.remaining (range : ReadLinesRange) : Option ℕ :=
  match range.start, range.last with
  | some start, some last => some (last - start + 1).toNat
  | none, some last => some (last + 1).toNat
  | _, none => none

/-- The reads.  The `k`-th one returns `short k + 1` bytes, or fewer if fewer were asked for or are
left. -/
def readLoop (short : ℕ → ℕ) (k : ℕ) (remaining : Option ℕ) (content : List UInt8) (s : Pieces) : Pieces :=
  let readSize := (remaining.map (min readChunkBytes)).getD readChunkBytes
  let bytesRead := min (min readSize content.length) (short k + 1)
  if remaining = some 0 ∨ bytesRead = 0 then s
  else
    readLoop short (k + 1) (remaining.map (· - bytesRead)) (content.drop bytesRead)
      (s.consume (content.take bytesRead))
  termination_by content.length
  decreasing_by
    rw [length_drop]
    omega

def readLinesAsBuffers (short : ℕ → ℕ) (content : List UInt8) (range : ReadLinesRange) : List (List UInt8) :=
  (readLoop short 0 range.remaining (content.drop (range.start.getD 0).toNat) .start).finish

def sessionStreamingLoadThresholdBytes : ℕ := 128 * 1024 * 1024

/-- The loader of the daemon: a file of the threshold size is read in chunks, up to its size when it
was opened. -/
def loadEntriesFromFileAsync (short : ℕ → ℕ) (file : Option (List UInt8))
    (streamThresholdBytes : Option ℕ) : List (SessionEntry J) :=
  match file with
  | none => []
  | some content =>
    let sizeAtOpen := content.length
    if sizeAtOpen < streamThresholdBytes.getD sessionStreamingLoadThresholdBytes then
      loadEntries (parseEntriesFromBuffer V content)
    else
      let range : ReadLinesRange := ⟨none, if sizeAtOpen > 0 then some (sizeAtOpen - 1) else none⟩
      loadEntries ((readLinesAsBuffers short content range).filterMap (appendEntryFromBuffer V))

end

/-! ### The lines that are put together -/

theorem readLoop_spec (short : ℕ → ℕ) (k : ℕ) (remaining : Option ℕ) (content : List UInt8) (s : Pieces)
    (hs : s.Pending) (hremaining : ∀ limit, remaining = some limit → content.length ≤ limit) :
    (readLoop short k remaining content s).finish = s.lines ++ lines (s.pendingParts.flatten ++ content) := by
  fun_induction readLoop short k remaining content s with
  | case1 k remaining content s readSize bytesRead hstop =>
    -- nothing is left to be read
    have hsize : remaining = some 0 ∨ 0 < readSize := by
      cases remaining with
      | none => exact .inr (by decide)
      | some limit =>
        rcases Nat.eq_zero_or_pos limit with rfl | hlimit
        · exact .inl rfl
        · exact .inr (Nat.lt_min.2 ⟨by decide, hlimit⟩)
    have hnil : content = [] := by
      rw [← length_eq_zero_iff]
      rcases hsize with h0 | hsize
      · exact Nat.le_zero.1 (hremaining 0 h0)
      · rcases hstop with h0 | h0
        · exact Nat.le_zero.1 (hremaining 0 h0)
        · dsimp only [bytesRead] at h0
          omega
    rw [hnil, append_nil]
    exact hs.finish_eq
  | case2 k remaining content s readSize bytesRead hmore ih =>
    rw [ih (hs.consume _) ?_, Pieces.lines_consume hs, take_append_drop]
    intro limit hlimit
    obtain ⟨limit', hlimit', rfl⟩ := Option.map_eq_some_iff.1 hlimit
    have hle := hremaining limit' hlimit'
    rw [length_drop]
    omega

/-- **The lines that are put together are those of the file.** -/
theorem readLinesAsBuffers_eq (short : ℕ → ℕ) (content : List UInt8) : readLinesAsBuffers short content
      ⟨none, if content.length > 0 then some ((content.length : ℤ) - 1) else none⟩ = lines content := by
  rw [readLinesAsBuffers, readLoop_spec _ _ _ _ _ Pieces.Pending.start]
  · rfl
  · intro limit hlimit
    split_ifs at hlimit with hpos
    · cases hlimit
      simp
    · cases hlimit

section

variable {V J M : Type} [JsonHost J M] [LineHost V J]

/-- **The streaming loader equals the buffered one**: for every content, threshold and way in which
the reads are split. -/
theorem loadEntriesFromFileAsync_eq (short : ℕ → ℕ) (file : Option (List UInt8))
    (streamThresholdBytes : Option ℕ) :
    (loadEntriesFromFileAsync V short file streamThresholdBytes : List (SessionEntry J)) =
      loadEntriesFromFile V file := by
  cases file with
  | none => rfl
  | some content =>
    rw [loadEntriesFromFileAsync, loadEntriesFromFile]
    dsimp only
    rw [readLinesAsBuffers_eq, parseEntriesFromBuffer]
    split_ifs <;> rfl

end

open LineLog ByteLines List Utf8

/-! ### The repair -/

def repairSuspicionWindowBytes : ℕ := 1024 * 1024

/-- What fails while a file is repaired. -/
structure RepairFaults where
  /-- The file cannot be opened, or its size or its end cannot be read. -/
  probe : Option Str
  /-- The end of the file cannot be sought. -/
  seek : Bool
  /-- The file or its metadata cannot be read. -/
  read : Option Str
  /-- The file has another size than what was read of it. -/
  changedOnRead : Bool
  /-- The file has changed, or is gone, when it is about to be replaced. -/
  beforeRename : Option Str
  /-- The replacement cannot be written. -/
  write : Option Str

section

variable (V J : Type) [LineHost V J]

def parsesAsJson (line : List UInt8) : Bool := (LineHost.fromStr J (lossy line) : Option V).isSome

/-- A look at the last bytes of the file decides whether its lines are scanned. -/
def tailLooksDamaged (faults : RepairFaults) (file : List UInt8) : Except Str Bool :=
  match faults.probe with
  | some error => .error error
  | none =>
    let size := file.length
    if size = 0 then .ok false
    else if faults.seek then .ok true
    else
      let windowBytes := min size repairSuspicionWindowBytes
      let window := file.drop (size - windowBytes)
      if window.contains 0 then .ok true
      else if window.getLast? ≠ some newline then .ok true
      else if newline ∉ window.dropLast ∧ windowBytes < size then
        -- the final line is longer than what was looked at
        .ok true
      else
        let lastLine := window.dropLast.rtakeWhile (· ≠ newline)
        .ok (!lastLine.isEmpty && !parsesAsJson V J lastLine)

omit [LineHost V J] in
/-- A line without the zero bytes before it. -/
def stripNul (line : List UInt8) : List UInt8 := line.dropWhile (· = 0)

/-- A damaged line is kept if it is a value all the same. -/
def keepIfJson (line : List UInt8) : Option (List UInt8) :=
  if !line.isEmpty && parsesAsJson V J line then some line else none

/-- What is kept of a line, and whether the file has to be replaced for it. -/
structure LineScan where
  kept : Option (List UInt8)
  dirty : Bool

def scanLine (terminated final : Bool) (rawLine : List UInt8) : LineScan :=
  let line := stripNul rawLine
  if line.length < rawLine.length then
    ⟨keepIfJson V J line, true⟩
  else if !terminated then
    -- an unterminated tail merges with the next append
    ⟨keepIfJson V J line, true⟩
  else if final && !line.isEmpty && !parsesAsJson V J line then ⟨none, true⟩
  else ⟨some line, false⟩

/-- The scan of all lines: every line but the last is terminated. -/
def scanLines (complete : Bool) : List (List UInt8) → List LineScan
  | [] => []
  | [line] => [scanLine V J complete true line]
  | line :: next :: more => scanLine V J true false line :: scanLines complete (next :: more)

omit [LineHost V J] in
/-- The text of the lines that are kept. -/
def repairedContent (keptLines : List (List UInt8)) : Str :=
  if keptLines = [] then [] else unlines (keptLines.map lossy) ++ ['\n']

def changedDuringRepair : Str := "session changed during required repair; retry opening"

/-- The result says whether the file was replaced, and has the file. -/
def repairJsonlDamageChecked (faults : RepairFaults) (file : List UInt8) : Except Str (Bool × List UInt8) := do
  if !(← tailLooksDamaged V J faults file) then return (false, file)
  match faults.read with
  | some error => throw error
  | none =>
    if file = [] ∨ faults.changedOnRead then throw changedDuringRepair
    let scans := scanLines V J (decide (Complete file)) (lines file)
    if !scans.any LineScan.dirty then return (false, file)
    match faults.beforeRename, faults.write with
    | none, none => return (true, encode (repairedContent (scans.filterMap LineScan.kept)))
    | some error, _ => throw error
    | none, some error => throw error

def repairJsonlDamage (filePath : Str) (faults : RepairFaults) (file : List UInt8) : Except Str (Bool × List UInt8) :=
  (repairJsonlDamageChecked V J faults file).mapError fun error =>
    "Session repair failed for " ++ filePath ++ ": " ++ error

end

/-- The law of the JSON library that the repair rests on: no value begins with a zero byte. -/
class LawfulLineHost (V J : Type) [LineHost V J] : Prop where
  fromStr_nul : ∀ s : Str, (LineHost.fromStr J (Char.ofNat 0 :: s) : Option V) = none

/-! ### Leading zero bytes -/

section

variable {V J : Type} [LineHost V J]

theorem length_stripNul_le (line : List UInt8) : (stripNul line).length ≤ line.length := (dropWhile_suffix _).length_le

variable {line file : List UInt8} {faults : RepairFaults}

theorem stripNul_eq_self (h : ¬ (stripNul line).length < line.length) : stripNul line = line :=
  (dropWhile_suffix _).eq_of_length (le_antisymm (length_stripNul_le line) (not_lt.1 h))

/-- **A line that has an entry has no zero bytes before it.** -/
theorem stripNul_of_entry [LawfulLineHost V J] {e : SessionEntry J}
    (h : appendEntryFromBuffer V line = some e) : stripNul line = line := by
  cases line with
  | nil => rfl
  | cons b line =>
    by_cases hb : b = 0
    · subst hb
      have hnul : lossy (0 :: line) = Char.ofNat 0 :: lossy line := lossy_cons (Char.ofNat 0) line
      rw [appendEntryFromBuffer, if_neg (cons_ne_nil _ _), hnul, LawfulLineHost.fromStr_nul] at h
      cases h
    · rw [stripNul, dropWhile_cons_of_neg (by simpa using hb)]

/-! ### The entries of the lines that are kept -/

/-- Writing a line as the text it was read as does not change its entry. -/
theorem appendEntryFromBuffer_encode_lossy (line : List UInt8) :
    (appendEntryFromBuffer V (encode (lossy line)) : Option (SessionEntry J)) = appendEntryFromBuffer V line := by
  by_cases hline : line = []
  · subst hline
    rfl
  · have hencoded : encode (lossy line) ≠ [] := by
      intro hnil
      have hlossy := lossy_encode (lossy line)
      rw [hnil] at hlossy
      exact lossy_ne_nil hline hlossy.symm
    rw [appendEntryFromBuffer, appendEntryFromBuffer, if_neg hline, if_neg hencoded, lossy_encode]

theorem appendEntryFromBuffer_of_not_parses (h : (!line.isEmpty && parsesAsJson V J line) = false) :
    (appendEntryFromBuffer V line : Option (SessionEntry J)) = none := by
  rw [appendEntryFromBuffer]
  split_ifs with hnil
  · rfl
  · have hparses : (LineHost.fromStr J (lossy line) : Option V).isSome = false := by
      simpa [List.isEmpty_iff, hnil, parsesAsJson] using h
    rw [Option.isSome_eq_false_iff, Option.isNone_iff_eq_none] at hparses
    rw [hparses]
    rfl

theorem keepIfJson_entry (line : List UInt8) :
    ((keepIfJson V J line).bind (appendEntryFromBuffer V) : Option (SessionEntry J)) =
      appendEntryFromBuffer V line := by
  rw [keepIfJson]
  split_ifs with h
  · rfl
  · exact (appendEntryFromBuffer_of_not_parses (Bool.eq_false_iff.2 h)).symm

/-- What is kept of a line has the entry of the line without its leading zero bytes. -/
theorem scanLine_entry (terminated final : Bool) (line : List UInt8) :
    ((scanLine V J terminated final line).kept.bind (appendEntryFromBuffer V) : Option (SessionEntry J)) =
      appendEntryFromBuffer V (stripNul line) := by
  rw [scanLine]
  split_ifs with hnul hterminated hfinal
  · exact keepIfJson_entry _
  · exact keepIfJson_entry _
  · refine (appendEntryFromBuffer_of_not_parses ?_).symm
    simp only [Bool.and_eq_true, Bool.not_eq_true'] at hfinal
    rw [hfinal.2, Bool.and_false]
  · rfl

theorem eq_of_mem_keepIfJson {l : List UInt8} (h : l ∈ keepIfJson V J line) : l = line := by
  rw [keepIfJson] at h
  split_ifs at h <;> cases h
  rfl

theorem mem_of_mem_kept (terminated final : Bool) (line : List UInt8) :
    ∀ l ∈ (scanLine V J terminated final line).kept, ∀ b ∈ l, b ∈ line := by
  have hstrip : ∀ b ∈ stripNul line, b ∈ line := fun b hb => (dropWhile_suffix _).mem hb
  intro l hl
  rw [scanLine] at hl
  split_ifs at hl
  · exact eq_of_mem_keepIfJson hl ▸ hstrip
  · exact eq_of_mem_keepIfJson hl ▸ hstrip
  · cases hl
  · cases hl
    exact hstrip

/-- A line that is not dirty stays as it is, and is terminated. -/
theorem scanLine_clean {terminated final : Bool} (h : (scanLine V J terminated final line).dirty = false) :
    stripNul line = line ∧ terminated = true := by
  rw [scanLine] at h
  split_ifs at h with hnul hterminated hfinal
  exact ⟨stripNul_eq_self hnul, by simpa using hterminated⟩

/-- The lines that are kept have the entries of the lines without their leading zero bytes. -/
theorem scanLines_entries (complete : Bool) (ls : List (List UInt8)) :
    (((scanLines V J complete ls).filterMap LineScan.kept).filterMap (appendEntryFromBuffer V) :
      List (SessionEntry J)) = ls.filterMap fun line => appendEntryFromBuffer V (stripNul line) := by
  rw [filterMap_filterMap]
  fun_induction scanLines V J complete ls with
  | case1 => rfl
  | case2 line =>
    rw [filterMap_cons, filterMap_cons, scanLine_entry]
    rfl
  | case3 line next more ih => rw [filterMap_cons, filterMap_cons, scanLine_entry, ih]

theorem notMem_scanLines {complete : Bool} {ls : List (List UInt8)} (h : ∀ line ∈ ls, newline ∉ line) :
    ∀ l ∈ (scanLines V J complete ls).filterMap LineScan.kept, newline ∉ l := by
  fun_induction scanLines V J complete ls with
  | case1 => exact fun l hl => absurd hl not_mem_nil
  | case2 line =>
    intro l hl hmem
    obtain ⟨scan, hscan, hkept⟩ := mem_filterMap.1 hl
    rw [mem_singleton.1 hscan] at hkept
    exact h line mem_cons_self (mem_of_mem_kept _ _ _ l hkept _ hmem)
  | case3 line next more ih =>
    intro l hl hmem
    obtain ⟨scan, hscan, hkept⟩ := mem_filterMap.1 hl
    rcases mem_cons.1 hscan with rfl | hscan
    · exact h line mem_cons_self (mem_of_mem_kept _ _ _ l hkept _ hmem)
    · exact ih (fun line' hline => h line' (mem_cons_of_mem _ hline)) l
        (mem_filterMap.2 ⟨scan, hscan, hkept⟩) hmem

/-- A scan that finds nothing dirty has seen a terminated last line. -/
theorem complete_of_clean {complete : Bool} {ls : List (List UInt8)} (hne : ls ≠ [])
    (h : (scanLines V J complete ls).any LineScan.dirty = false) : complete = true := by
  fun_induction scanLines V J complete ls with
  | case1 => exact absurd rfl hne
  | case2 line => exact (scanLine_clean (by simpa using h)).2
  | case3 line next more ih =>
    rw [any_cons, Bool.or_eq_false_iff] at h
    exact ih (cons_ne_nil _ _) h.2

/-! ### The repaired file -/

omit [LineHost V J] in
theorem encode_repairedContent (keptLines : List (List UInt8)) : encode (repairedContent keptLines) =
      (keptLines.map fun l => encode (lossy l)).flatMap fun l => l ++ [newline] := by
  rw [repairedContent]
  split_ifs with hnil
  · rw [hnil]
    rfl
  · rw [encode_unlines (by simpa using hnil), map_map]
    rfl

/-- A newline that is read as one was one. -/
theorem notMem_encode_lossy (h : newline ∉ line) : newline ∉ encode (lossy line) := by
  intro hmem
  have hchar : '\n' ∈ lossy line := mem_of_mem_encode (by decide) (by decide) hmem
  exact h (mem_of_mem_lossy (by decide) hchar newline (by decide))

theorem complete_flatMap (ls : List (List UInt8)) : Complete (ls.flatMap fun l => l ++ [newline]) := by
  induction ls using reverseRecOn with
  | nil => exact .inl rfl
  | append_singleton ls l ih =>
    rw [flatMap_append, flatMap_singleton, ← append_assoc]
    exact Complete.append_newline _

theorem tailLooksDamaged_clean (h : tailLooksDamaged V J faults file = .ok false) : Complete file := by
  rw [tailLooksDamaged] at h
  split at h
  · cases h
  · dsimp only at h
    split_ifs at h with hnil hseek hnul hlast
    · exact .inl (length_eq_zero_iff.1 hnil)
    · cases h
    · cases h
    · cases h
    · cases h
    · rw [ne_eq, not_not, getLast?_drop] at hlast
      split_ifs at hlast
      exact .inr hlast

/-- **A repair that returns** leaves the file as it was, with complete lines, or replaces it with
the lines that were kept. -/
theorem repairJsonlDamageChecked_cases {file' : List UInt8} {changed : Bool}
    (h : repairJsonlDamageChecked V J faults file = .ok (changed, file')) :
    (changed = false ∧ file' = file ∧ Complete file) ∨
      changed = true ∧ file' = encode (repairedContent
        ((scanLines V J (decide (Complete file)) (lines file)).filterMap LineScan.kept)) := by
  rw [repairJsonlDamageChecked] at h
  obtain ⟨damaged, hdamaged, h⟩ := Checked.bind_eq_ok.1 h
  cases damaged with
  | false =>
    cases h
    exact .inl ⟨rfl, rfl, tailLooksDamaged_clean hdamaged⟩
  | true =>
    simp only [Bool.not_true, Bool.false_eq_true, if_false] at h
    split at h
    · cases h
    · by_cases hchanged : file = [] ∨ faults.changedOnRead = true
      · rw [if_pos hchanged] at h
        cases h
      · rw [if_neg hchanged] at h
        split at h
        · rename_i hclean
          cases h
          have hne : lines file ≠ [] := lines_ne_nil fun hnil => hchanged (.inl hnil)
          exact .inl ⟨rfl, rfl, of_decide_eq_true (complete_of_clean hne (by simpa using hclean))⟩
        · split at h
          · cases h
            exact .inr ⟨rfl, rfl⟩
          · cases h
          · cases h

/-- The file after a repair ends with a newline, and its entries are those of its lines, without
their leading zero bytes if it was replaced. -/
theorem entries_repaired {file' : List UInt8} {changed : Bool}
    (h : repairJsonlDamageChecked V J faults file = .ok (changed, file')) :
    Complete file' ∧ (parseEntriesFromBuffer V file' : List (SessionEntry J)) =
      (lines file).filterMap fun line => appendEntryFromBuffer V (if changed then stripNul line else line) := by
  rcases repairJsonlDamageChecked_cases h with ⟨rfl, rfl, hcomplete⟩ | ⟨rfl, rfl⟩
  · exact ⟨hcomplete, rfl⟩
  · rw [encode_repairedContent]
    refine ⟨complete_flatMap _, ?_⟩
    have hlines : ∀ l ∈ (scanLines V J (decide (Complete file)) (lines file)).filterMap LineScan.kept,
        newline ∉ l := notMem_scanLines fun line hline => notMem_of_mem_lines hline
    rw [parseEntriesFromBuffer, lines_flatMap ?_, filterMap_map]
    · simp only [↓reduceIte]
      rw [← scanLines_entries (decide (Complete file))]
      exact filterMap_congr fun line _ => appendEntryFromBuffer_encode_lossy line
    · intro l hl
      obtain ⟨line, hline, rfl⟩ := mem_map.1 hl
      exact notMem_encode_lossy (hlines line hline)

/-- **A repair loses no entry and makes appends safe**: the entries of the repaired file are those
of the lines of the damaged one, in their places, where lines have lost their leading zero bytes if
the file was replaced; a line that had an entry had no such bytes, so it still has its entry; and a
row that is appended with its newline adds its entry at the end. -/
theorem repairJsonlDamage_entries [LawfulLineHost V J] (filePath : Str) (faults : RepairFaults)
    (file file' : List UInt8) (changed : Bool)
    (h : repairJsonlDamage V J filePath faults file = .ok (changed, file')) :
    (parseEntriesFromBuffer V file' : List (SessionEntry J)) =
        (lines file).filterMap (fun line => appendEntryFromBuffer V (if changed then stripNul line else line)) ∧
      (∀ line (e : SessionEntry J), appendEntryFromBuffer V line = some e → stripNul line = line) ∧
      ∀ row (e : SessionEntry J), newline ∉ row → appendEntryFromBuffer V row = some e →
        parseEntriesFromBuffer V (file' ++ (row ++ [newline])) = parseEntriesFromBuffer V file' ++ [e] := by
  obtain ⟨hcomplete, hentries⟩ := entries_repaired (Checked.mapError_eq_ok.1 h)
  refine ⟨hentries, fun line e hline => stripNul_of_entry hline, fun row e hrow he => ?_⟩
  rw [parseEntriesFromBuffer, lines_append_line hcomplete hrow, filterMap_append, parseEntriesFromBuffer,
    filterMap_cons, he]
  rfl

end

/-! ### A file with zero bytes before its last line -/

namespace RepairSample

def labelText : Str :=
  "\x7b\"type\":\"label\",\"id\":\"a\",\"parentId\":null,\"timestamp\":\"t\",\"targetId\":\"b\",\"label\":null\x7d"

/-- The row of a label is the only value. -/
scoped instance lineHost : LineHost Unit Unit where
  fromStr s := if s = labelText then some () else none
  entryOf _ := some ⟨"a", none, "t", .label "b" none⟩

def labelLine : List UInt8 := Utf8.encode labelText

scoped instance lawfulLineHost : LawfulLineHost Unit Unit where
  fromStr_nul s := if_neg fun h => absurd (cons.inj h).1 (by decide)

def quiet : RepairFaults := ⟨none, false, none, false, none, none⟩

theorem repair_zeros : repairJsonlDamage Unit Unit "s" quiet (0 :: labelLine) =
    .ok (true, labelLine ++ [newline]) := by decide +kernel

/-- The line is recovered, and a row that is appended is a row of its own. -/
theorem repairJsonlDamage_entries_zeros :
    repairJsonlDamage Unit Unit "s" quiet (0 :: labelLine) = .ok (true, labelLine ++ [newline]) ∧
      (parseEntriesFromBuffer Unit (labelLine ++ [newline]) : List (SessionEntry Unit)) =
        (lines (0 :: labelLine)).filterMap (fun line => appendEntryFromBuffer Unit (stripNul line)) ∧
      (parseEntriesFromBuffer Unit (labelLine ++ [newline] ++ (labelLine ++ [newline])) :
        List (SessionEntry Unit)) =
        parseEntriesFromBuffer Unit (labelLine ++ [newline]) ++ [⟨"a", none, "t", .label "b" none⟩] := by
  obtain ⟨hentries, -, happend⟩ := repairJsonlDamage_entries (V := Unit) (J := Unit) "s" quiet _ _ true repair_zeros
  exact ⟨repair_zeros, hentries, happend labelLine _ (by decide +kernel) (by decide +kernel)⟩

end RepairSample

end Session
