/-
**Editing a file.**

The edit tool reads a file, takes the mark at its beginning off, turns all line ends into newlines,
makes the replacements, and puts one line end everywhere: that of the first line.  A line that no
replacement meets is therefore written back as it was just if its own line end is that one.
-/

import OptimusAgent.EditDiff
import OptimusAgent.Utf8

namespace Tools

open Str Checked List Splice Utf8

/-! ### The source's functions -/

structure StripBomResult where
  bom : Str
  text : Str

def byteOrderMark : Char := Char.ofNat 0xFEFF

def stripBom (content : Str) : StripBomResult :=
  match stripPrefix [byteOrderMark] content with
  | some rest => ⟨[byteOrderMark], rest⟩
  | none => ⟨[], content⟩

structure EditToolInput where
  path : Str
  edits : List Edit

def validateEditInput (input : EditToolInput) : Except Str (Str × List Edit) :=
  if input.edits.isEmpty then
    .error "Edit tool input is invalid. edits must contain at least one replacement."
  else .ok (input.path, input.edits)

/-- What the file system and the caller do during one edit: whether it is cancelled before the file
is opened and after it was read, and the answers to the three file operations. -/
structure EditOutcomes where
  cancelledBefore : Bool
  access : Except Str Unit
  readFile : Except Str (List UInt8)
  cancelledAfterRead : Bool
  writeFile : Except Str Unit

def validUpToFrom : ℕ → List UInt8 → ℕ
  | 0, _ => 0
  | fuel + 1, b =>
    match firstChar b with
    | some (c, rest) => c.utf8Size + validUpToFrom fuel rest
    | none => 0

/-- The bytes up to the first that is not part of a text: `Utf8Error::valid_up_to`. -/
def validUpTo (b : List UInt8) : ℕ := validUpToFrom b.length b

def invalidUtf8EditError (path : Str) (buffer : List UInt8) : Str :=
  "Could not edit file: " ++ path ++ ". File content is not valid UTF-8 (invalid byte at offset " ++
    dec (validUpTo buffer) ++ "). Convert the file to UTF-8 before editing."

def accessError (path code : Str) : Str := "Could not edit file: " ++ path ++ ". Error code: " ++ code ++ "."

/-- The edit tool: its message and the bytes that it has written. -/
def executeEdit (io : EditOutcomes) (input : EditToolInput) : Except Str (Str × List UInt8) := do
  let (path, edits) ← validateEditInput input
  rejectIf (io.cancelledBefore = true) "Operation aborted"
  io.access.mapError (accessError path)
  let buffer ← io.readFile
  rejectIf (io.cancelledAfterRead = true) "Operation aborted"
  let rawContent ← okOr (decode buffer) (invalidUtf8EditError path buffer)
  let stripped := stripBom rawContent
  let originalEnding := detectLineEnding stripped.text
  let normalizedContent := normalizeToLf stripped.text
  let applied ← applyEditsToNormalizedContent normalizedContent edits path
  let finalContent := stripped.bom ++ restoreLineEndings applied.newContent originalEnding
  io.writeFile
  return ("Successfully replaced " ++ dec edits.length ++ " block(s) in " ++ path ++ ".", encode finalContent)

/-! ### The lines of a text -/

/-- How a line ends; the last line of a text may have no line end. -/
inductive RawEnd where
  | lf
  | crlf
  | cr
  | none
  deriving DecidableEq, Repr

def RawEnd.asStr : RawEnd → Str
  | .lf => ['\n']
  | .crlf => ['\r', '\n']
  | .cr => ['\r']
  | .none => []

/-- A line with its own line end. -/
structure RawLine where
  text : Str
  ending : RawEnd
  deriving DecidableEq, Repr

/-- The line as it stands in the file. -/
def RawLine.raw (line : RawLine) : Str := line.text ++ line.ending.asStr

/-- The line with a newline for its line end. -/
def RawLine.lf (line : RawLine) : Str := line.text ++ if line.ending = .none then [] else ['\n']

/-- The lines of a text: a line ends with a newline, a carriage return, or both. -/
def rawLines : Str → List RawLine
  | [] => []
  | [c] => if c = '\n' then [⟨[], .lf⟩] else if c = '\r' then [⟨[], .cr⟩] else [⟨[c], .none⟩]
  | c :: d :: s =>
    if c = '\r' ∧ d = '\n' then ⟨[], .crlf⟩ :: rawLines s
    else if c = '\n' then ⟨[], .lf⟩ :: rawLines (d :: s)
    else if c = '\r' then ⟨[], .cr⟩ :: rawLines (d :: s)
    else
      match rawLines (d :: s) with
      | [] => [⟨[c], .none⟩]
      | line :: lines => ⟨c :: line.text, line.ending⟩ :: lines

/-- The lines joined, with newlines for their line ends. -/
def lfText (lines : List RawLine) : Str := lines.flatMap RawLine.lf

/-- The lines joined as they stand in the file. -/
def rawText (lines : List RawLine) : Str := lines.flatMap RawLine.raw

@[simp] theorem rawText_cons (line : RawLine) (lines : List RawLine) :
    rawText (line :: lines) = line.raw ++ rawText lines := rfl

@[simp] theorem lfText_cons (line : RawLine) (lines : List RawLine) :
    lfText (line :: lines) = line.lf ++ lfText lines := rfl

@[simp] theorem lfText_append (lines lines' : List RawLine) :
    lfText (lines ++ lines') = lfText lines ++ lfText lines' := flatMap_append

theorem normalizeToLf_cons_cons (c d : Char) (s : Str) : normalizeToLf (c :: d :: s) =
      if c = '\r' ∧ d = '\n' then '\n' :: normalizeToLf s
      else (if c = '\r' then '\n' else c) :: normalizeToLf (d :: s) := by
  rw [normalizeToLf, replaceCrlf]
  split_ifs with h
  · rfl
  all_goals simp_all [normalizeToLf]

/-- What the lines of a text are: they make up the text, turning line ends into newlines does so
line by line, and no line is empty or has a line end inside. -/
theorem rawLines_spec (s : Str) : rawText (rawLines s) = s ∧ normalizeToLf s = lfText (rawLines s) ∧
      ∀ line ∈ rawLines s, line.raw ≠ [] ∧ '\n' ∉ line.text ∧ '\r' ∉ line.text := by
  induction s using rawLines.induct with
  | case1 => simp [rawLines, rawText, lfText, normalizeToLf, replaceCrlf]
  | case2 | case3 =>
    simp [rawLines, rawText, lfText, RawLine.raw, RawLine.lf, RawEnd.asStr, normalizeToLf, replaceCrlf]
  | case4 c hlf hcr =>
    simp [rawLines, rawText, lfText, RawLine.raw, RawLine.lf, RawEnd.asStr, normalizeToLf, replaceCrlf, hlf, hcr,
      Ne.symm hlf, Ne.symm hcr]
  | case5 c d s h ih =>
    obtain ⟨hraw, hlf, hall⟩ := ih
    rw [rawLines, if_pos h, normalizeToLf_cons_cons, if_pos h, hlf, rawText_cons, hraw]
    obtain ⟨rfl, rfl⟩ := h
    exact ⟨rfl, rfl, forall_mem_cons.2 ⟨by simp [RawLine.raw, RawEnd.asStr], hall⟩⟩
  | case6 d s h ih =>
    obtain ⟨hraw, hlf, hall⟩ := ih
    rw [rawLines, if_neg h, if_pos rfl, normalizeToLf_cons_cons, if_neg h, hlf, rawText_cons, hraw]
    exact ⟨rfl, rfl, forall_mem_cons.2 ⟨by simp [RawLine.raw, RawEnd.asStr], hall⟩⟩
  | case7 d s h hlf ih =>
    obtain ⟨hraw, hlf', hall⟩ := ih
    rw [rawLines, if_neg h, if_neg hlf, if_pos rfl, normalizeToLf_cons_cons, if_neg h, hlf', rawText_cons, hraw]
    exact ⟨rfl, rfl, forall_mem_cons.2 ⟨by simp [RawLine.raw, RawEnd.asStr], hall⟩⟩
  | case8 c d s h hlf hcr hnil ih =>
    rw [hnil] at ih
    simp [rawText] at ih
  | case9 c d s h hlf hcr line lines hlines ih =>
    rw [hlines] at ih
    obtain ⟨hraw, hlf', hall⟩ := ih
    rw [forall_mem_cons] at hall
    have hline : rawLines (c :: d :: s) = ⟨c :: line.text, line.ending⟩ :: lines := by
      rw [rawLines, if_neg h, if_neg hlf, if_neg hcr, hlines]
    rw [hline, normalizeToLf_cons_cons, if_neg h, if_neg hcr, hlf', ← hraw]
    refine ⟨rfl, rfl, forall_mem_cons.2 ⟨⟨by simp [RawLine.raw], ?_, ?_⟩, hall.2⟩⟩
    · exact not_mem_cons_of_ne_of_not_mem (Ne.symm hlf) hall.1.2.1
    · exact not_mem_cons_of_ne_of_not_mem (Ne.symm hcr) hall.1.2.2

/-! ### What is written -/

theorem restoreLineEndings_append (s t : Str) (ending : LineEnding) :
    restoreLineEndings (s ++ t) ending = restoreLineEndings s ending ++ restoreLineEndings t ending := by
  cases ending with
  | crlf => exact flatMap_append
  | lf => rfl

theorem restoreLineEndings_of_notMem {s : Str} (h : '\n' ∉ s) (ending : LineEnding) :
    restoreLineEndings s ending = s := by
  cases ending with
  | lf => rfl
  | crlf =>
    have hsame : ∀ c ∈ s, (if c = '\n' then ['\r', '\n'] else [c]) = [c] :=
      fun c hc => if_neg fun heq : c = '\n' => h (heq ▸ hc)
    rw [restoreLineEndings, flatMap_congr hsame, flatMap_singleton']

/-- A line keeps its line end just if it is the one that is put everywhere. -/
theorem restoreLineEndings_lf_iff {line : RawLine} (h : '\n' ∉ line.text) (ending : LineEnding) :
    restoreLineEndings line.lf ending = line.raw ↔ line.ending = .none ∨ line.ending.asStr = ending.asStr := by
  rw [RawLine.lf, restoreLineEndings_append, restoreLineEndings_of_notMem h, RawLine.raw, append_right_inj]
  generalize line.ending = e
  cases e <;> cases ending <;> decide

/-- A line of the text that no region meets, with the lines before it. -/
def Untouched (text : Str) (regions : List (Region Char)) (before : List RawLine) (line : RawLine) : Prop :=
  (∃ after, rawLines text = before ++ line :: after) ∧
    Avoids regions (lfText before).length ((lfText before).length + line.lf.length)

/-- The line is found again in the file, between what becomes of the lines before and after it. -/
def WrittenBack (bom : Str) (ending : LineEnding) (regions : List (Region Char)) (last : Str)
    (before : List RawLine) (line : RawLine) (written : List UInt8) : Prop :=
  written = encode (bom ++ restoreLineEndings (upTo regions last (lfText before).length) ending ++ line.raw ++
    restoreLineEndings (since regions last ((lfText before).length + line.lf.length)) ending)

/-- What is written: the mark, and the edited content with one line end everywhere. -/
theorem executeEdit_written {io : EditOutcomes} {input : EditToolInput} {raw message : Str}
    {written : List UInt8} (hread : io.readFile = .ok (encode raw))
    (hok : executeEdit io input = .ok (message, written)) :
    ∃ applied, applyEditsToNormalizedContent (normalizeToLf (stripBom raw).text) input.edits input.path = .ok applied ∧
      written = encode ((stripBom raw).bom ++
        restoreLineEndings applied.newContent (detectLineEnding (stripBom raw).text)) := by
  unfold executeEdit at hok
  obtain ⟨⟨path, edits⟩, hvalid, hok⟩ := bind_eq_ok.1 hok
  unfold validateEditInput at hvalid
  split_ifs at hvalid
  cases hvalid
  dsimp only at hok
  obtain ⟨-, hok⟩ := rejectIf_bind_eq_ok.1 hok
  obtain ⟨-, -, hok⟩ := bind_eq_ok.1 hok
  rw [hread, ok_bind] at hok
  obtain ⟨-, hok⟩ := rejectIf_bind_eq_ok.1 hok
  rw [decode_encoded, okOr_some, ok_bind] at hok
  obtain ⟨applied, happlied, hok⟩ := bind_eq_ok.1 hok
  obtain ⟨-, -, hok⟩ := bind_eq_ok.1 hok
  cases hok
  exact ⟨applied, happlied, rfl⟩

/-- A line that no region meets comes out of the edit with one line end put everywhere. -/
theorem restore_target_of_untouched {text : Str} {regions : List (Region Char)} {last : Str}
    {before : List RawLine} {line : RawLine} (ending : LineEnding)
    (hsource : source regions last = normalizeToLf text) (hold : ∀ r ∈ regions, r.old ≠ [])
    (h : Untouched text regions before line) :
    restoreLineEndings (target regions last) ending =
      restoreLineEndings (upTo regions last (lfText before).length) ending ++ restoreLineEndings line.lf ending ++
        restoreLineEndings (since regions last ((lfText before).length + line.lf.length)) ending := by
  obtain ⟨⟨after, hlines⟩, havoids⟩ := h
  obtain ⟨-, hlf, hall⟩ := rawLines_spec text
  rw [hlines] at hlf
  have hne : line.lf ≠ [] := by
    have hraw := (hall line (by rw [hlines]; simp)).1
    intro hnil
    apply hraw
    rw [RawLine.lf, append_eq_nil_iff] at hnil
    rw [RawLine.raw, hnil.1]
    by_cases hnone : line.ending = .none
    · rw [hnone]
      rfl
    · rw [if_neg hnone] at hnil
      cases hnil.2
  have hpos := length_pos_iff.2 hne
  have hself : ((source regions last).drop (lfText before).length).take
      ((lfText before).length + line.lf.length - (lfText before).length) = line.lf := by
    rw [hsource, hlf, lfText_append, lfText_cons, drop_left, Nat.add_sub_cancel_left, take_left]
  rw [target_eq_of_avoids havoids (by omega) hold, hself, restoreLineEndings_append, restoreLineEndings_append]

/-- **A line that no edit meets is written back as it was if and only if its line end is the
detected one.** -/
theorem untouched_writtenBack_iff {io : EditOutcomes} {input : EditToolInput} {raw message : Str}
    {written : List UInt8} (hread : io.readFile = .ok (encode raw))
    (hoccurs : ∀ e ∈ input.edits, normalizeToLf e.oldText <:+: normalizeToLf (stripBom raw).text)
    (hok : executeEdit io input = .ok (message, written)) :
    ∃ (regions : List (Region Char)) (last : Str),
      Located (normalizeToLf (stripBom raw).text) input.edits regions last ∧
      ((∀ before line, Untouched (stripBom raw).text regions before line →
          WrittenBack (stripBom raw).bom (detectLineEnding (stripBom raw).text) regions last before line
            written) ↔
        ∀ before line, Untouched (stripBom raw).text regions before line →
          line.ending = .none ∨ line.ending.asStr = (detectLineEnding (stripBom raw).text).asStr) := by
  obtain ⟨applied, happlied, rfl⟩ := executeEdit_written hread hok
  obtain ⟨-, regions, last, hlocated, hold, htarget⟩ := applyEdits_located hoccurs happlied
  refine ⟨regions, last, hlocated, ?_⟩
  refine forall_congr' fun before => forall_congr' fun line => forall_congr' fun huntouched => ?_
  have hline : '\n' ∉ line.text := by
    obtain ⟨⟨after, hlines⟩, -⟩ := huntouched
    exact ((rawLines_spec (stripBom raw).text).2.2 line (by rw [hlines]; simp)).2.1
  rw [← restoreLineEndings_lf_iff hline, WrittenBack, htarget,
    restore_target_of_untouched _ hlocated.source hold huntouched]
  constructor
  · intro h
    have htext := encode_injective h
    simp only [append_assoc, append_cancel_left_eq] at htext
    exact append_cancel_right htext
  · intro h
    rw [h]
    simp only [append_assoc]

/-- A file that mixes line ends. -/
def mixedFile : Str := "a\r\nb\nc\n"

/-- The file is read and written without trouble. -/
def smooth (raw : Str) : EditOutcomes := ⟨false, .ok (), .ok (encode raw), false, .ok ()⟩

/-- The third line of the file is met by an edit. -/
def mixedRegions : List (Region Char) := [⟨"a\nb\n", "c", "d"⟩]

/-- Editing the third line changes the second one. -/
theorem mixed_line_changed : (executeEdit (smooth mixedFile) ⟨"f", [⟨"c", "d"⟩]⟩).map Prod.snd =
        .ok (encode "a\r\nb\r\nd\r\n") ∧
      Untouched mixedFile mixedRegions [⟨"a", .crlf⟩] ⟨"b", .lf⟩ ∧
      ¬ WrittenBack [] .crlf mixedRegions "\n" [⟨"a", .crlf⟩] ⟨"b", .lf⟩
        (encode "a\r\nb\r\nd\r\n") := by
  refine ⟨by decide +kernel, ⟨⟨[⟨"c", .lf⟩], by decide +kernel⟩, ?_⟩, ?_⟩
  · intro xs r ys h
    cases xs with
    | nil =>
      cases h
      exact Or.inl (by decide)
    | cons x xs => simp [mixedRegions] at h
  · intro h
    exact absurd (encode_injective h) (by decide +kernel)

/-- A file with one kind of line end. -/
def crlfFile : Str := "a\r\nb\r\n"

/-- In a file with one kind of line end the other line is written back as it was. -/
theorem untouched_writtenBack_iff_crlf : ∃ (regions : List (Region Char)) (last : Str),
      Located "a\nb\n" [⟨"b", "c"⟩] regions last ∧
      ∀ before line, Untouched crlfFile regions before line →
        WrittenBack [] .crlf regions last before line (encode "a\r\nc\r\n") := by
  have hread : (smooth crlfFile).readFile = .ok (encode crlfFile) := rfl
  have hoccurs : ∀ e ∈ [(⟨"b", "c"⟩ : Edit)],
      normalizeToLf e.oldText <:+: normalizeToLf (stripBom crlfFile).text := by decide +kernel
  have hok : executeEdit (smooth crlfFile) ⟨"f", [⟨"b", "c"⟩]⟩ =
      .ok ("Successfully replaced 1 block(s) in f.", encode "a\r\nc\r\n") := by decide +kernel
  have htext : (stripBom crlfFile).text = crlfFile ∧ (stripBom crlfFile).bom = [] ∧
      normalizeToLf crlfFile = "a\nb\n" ∧ detectLineEnding crlfFile = .crlf := by decide +kernel
  obtain ⟨regions, last, hlocated, hiff⟩ := untouched_writtenBack_iff hread hoccurs hok
  rw [htext.1, htext.2.1, htext.2.2.2] at hiff
  rw [htext.1, htext.2.2.1] at hlocated
  refine ⟨regions, last, hlocated, hiff.2 fun before line huntouched => .inr ?_⟩
  obtain ⟨⟨after, hlines⟩, -⟩ := huntouched
  have hall : ∀ line ∈ rawLines crlfFile, line.ending.asStr = LineEnding.crlf.asStr := by decide +kernel
  exact hall line (by rw [hlines]; simp)

end Tools
