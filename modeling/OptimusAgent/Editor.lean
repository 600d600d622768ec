/-
**The editor and what it submits.**

The editor keeps its text as lines with a cursor.  Characters, line ends and texts are inserted at
the cursor.  A pasted text is filtered first; a large one is kept aside under a number and a marker
is inserted in its place.  On submission the markers are replaced and the editor starts afresh.

Over the lines stands the text before and after the cursor, and over that the pieces of the text:
typed characters and markers.  A run of the editor that leaves its markers intact keeps the three in
step.
-/

import OptimusAgent.EditDiff
import OptimusAgent.Keyed
import OptimusAgent.PasteMarkers

namespace Tui

open Str List

/-! ### The source's functions -/

/-- The editor state that the text depends on: the cursor column counts bytes. -/
structure Editor where
  lines : List Str
  cursorLine : ℕ
  cursorCol : ℕ
  pastes : List (ℕ × Str)
  pasteCounter : ℕ
  deriving DecidableEq, Repr

/-- `line[..col]` and `line[col..]`.  The source stops at a column inside a character. -/
def splitAtByte : ℕ → Str → Str × Str
  | _, [] => ([], [])
  | col, c :: s =>
    if col < c.utf8Size then ([], c :: s)
    else (c :: (splitAtByte (col - c.utf8Size) s).1, (splitAtByte (col - c.utf8Size) s).2)

def normalizeText (text : Str) : Str := (Tools.normalizeToLf text).flatMap fun c => if c = '\t' then "    " else [c]

/-- A control key of the terminal at the start of a text, with the rest of it. -/
def csiUCtrl (text : Str) : Option (Char × Str) := do
  let after ← stripPrefix "\x1b[" text
  let digits := after.takeWhile Char.isDigit
  let rest ← stripPrefix ";5u" (after.dropWhile Char.isDigit)
  let code := (parseUnsigned (2 ^ 32) digits).getD 0
  if digits.isEmpty then none
  else if 97 ≤ code ∧ code ≤ 122 then some (Char.ofNat (code - 96), rest)
  else if 65 ≤ code ∧ code ≤ 90 then some (Char.ofNat (code - 64), rest)
  else none

def decodeFrom : ℕ → Str → Str
  | _, [] => []
  | 0, text => text
  | fuel + 1, c :: text =>
    match csiUCtrl (c :: text) with
    | some (key, rest) => key :: decodeFrom fuel rest
    | none => c :: decodeFrom fuel text

def decodeCsiUCtrl (text : Str) : Str := decodeFrom text.length text

/-- More than ten lines or a thousand characters. -/
def isLarge (text : Str) : Bool := 10 < (text.splitOn '\n').length || 1000 < text.length

namespace Editor

def start : Editor := ⟨[[]], 0, 0, [], 0⟩

def getText (e : Editor) : Str := unlines e.lines

def currentLine (e : Editor) : Str := (e.lines[e.cursorLine]?).getD []

/-- The current line before and after the cursor. -/
def aroundCursor (e : Editor) : Str × Str :=
  splitAtByte (min e.cursorCol (byteLen e.currentLine)) e.currentLine

def insertTextAtCursorInternal (e : Editor) (text : Str) : Editor :=
  if text.isEmpty then e
  else
    let normalized := normalizeText text
    let inserted := normalized.splitOn '\n'
    let (beforeCursor, afterCursor) := e.aroundCursor
    if inserted.length = 1 then
      { e with
        lines := e.lines.set e.cursorLine (beforeCursor ++ normalized ++ afterCursor)
        cursorCol := e.cursorCol + byteLen normalized }
    else
      { e with
        lines := e.lines.take e.cursorLine ++ [beforeCursor ++ inserted.headD []] ++
          inserted.tail.dropLast ++ [inserted.getLastD [] ++ afterCursor] ++
          e.lines.drop (e.cursorLine + 1)
        cursorLine := e.cursorLine + (inserted.length - 1)
        cursorCol := byteLen (inserted.getLastD []) }

def insertTextAtCursor (e : Editor) (text : Str) : Editor :=
  if text.isEmpty then e else e.insertTextAtCursorInternal text

def insertCharacter (e : Editor) (char : Str) : Editor :=
  let (before, after) := e.aroundCursor
  { e with
    lines := e.lines.set e.cursorLine (before ++ char ++ after)
    cursorCol := e.cursorCol + byteLen char }

def addNewLine (e : Editor) : Editor :=
  let (before, after) := e.aroundCursor
  { e with
    lines := (e.lines.set e.cursorLine before).insertIdx (e.cursorLine + 1) after
    cursorLine := e.cursorLine + 1
    cursorCol := 0 }

/-- The character that is taken for the one before the cursor.  The line is read by characters here,
although the column counts bytes. -/
def charBeforeCursor (e : Editor) : Option Char :=
  if 0 < e.cursorCol then e.currentLine[e.cursorCol - 1]? else none

section

/-! The letters and digits of Unicode are a parameter. -/
variable (isAlphanumeric : Char → Bool)

def isWordChar (c : Char) : Bool := isAlphanumeric c || c = '_'

/-- What a paste inserts or keeps. -/
def filteredText (e : Editor) (pasted : Str) : Str :=
  let filtered := (normalizeText (decodeCsiUCtrl pasted)).filter fun c => c = '\n' || 32 ≤ c.toNat
  let isPath := filtered.head? = some '/' || filtered.head? = some '~' || filtered.head? = some '.'
  if isPath && (e.charBeforeCursor.map (isWordChar isAlphanumeric)).getD false then ' ' :: filtered
  else filtered

def handlePaste (e : Editor) (pasted : Str) : Editor :=
  let filtered := e.filteredText isAlphanumeric pasted
  if isLarge filtered then
    let pasteId := e.pasteCounter + 1
    let kept : Editor := { e with
      pastes := e.pastes.filter (fun paste => paste.1 ≠ pasteId) ++ [(pasteId, filtered)]
      pasteCounter := pasteId }
    kept.insertTextAtCursorInternal (pasteMarker pasteId filtered)
  else e.insertTextAtCursorInternal filtered

end

def getExpandedText (e : Editor) : Str := expandPasteMarkers e.pastes e.getText

/-- The editor after a submission, with the text given to `on_submit`. -/
def submitValue (e : Editor) : Editor × Str := (start, trim (expandPasteMarkers e.pastes e.getText))

end Editor

/-! ### Normalised texts -/

theorem replaceCrlf_of_notMem {s : Str} (h : '\r' ∉ s) : Tools.replaceCrlf s = s := by
  induction s using Tools.replaceCrlf.induct with
  | case1 | case2 c => rfl
  | case3 c d s hcd ih => exact absurd (hcd.1 ▸ mem_cons_self) h
  | case4 c d s hcd ih => rw [Tools.replaceCrlf, if_neg hcd, ih fun hmem => h (mem_cons_of_mem _ hmem)]

/-- The characters that a paste may keep. -/
def Printable (s : Str) : Prop := ∀ c ∈ s, c = '\n' ∨ 32 ≤ c.toNat

instance Printable.instDecidable (s : Str) : Decidable (Printable s) := decidableBAll _ s

theorem Printable.append {s t : Str} (hs : Printable s) (ht : Printable t) : Printable (s ++ t) :=
  forall_mem_append.2 ⟨hs, ht⟩

theorem Printable.notMem {s : Str} (h : Printable s) {c : Char} (hne : c ≠ '\n') (hlt : c.toNat < 32) :
    c ∉ s := fun hmem => (h c hmem).elim hne fun hle => by omega

theorem Printable.normalizeText_eq {s : Str} (h : Printable s) : normalizeText s = s := by
  have hcr : '\r' ∉ s := h.notMem (by decide) (by decide)
  have htab : '\t' ∉ s := h.notMem (by decide) (by decide)
  have hlf : Tools.normalizeToLf s = s := by
    rw [Tools.normalizeToLf, replaceCrlf_of_notMem hcr]
    conv_rhs => rw [← map_id s]
    refine map_congr_left fun c hc => if_neg ?_
    rintro rfl
    exact hcr hc
  rw [normalizeText, hlf]
  conv_rhs => rw [← flatMap_singleton' s]
  refine flatMap_congr fun c hc => if_neg ?_
  rintro rfl
  exact htab hc

theorem printable_dec (n : ℕ) : Printable (dec n) := by
  intro c hc
  have hdigit := isDigit_of_mem_dec hc
  simp only [Char.isDigit, Bool.and_eq_true, decide_eq_true_eq] at hdigit
  exact .inr (le_trans (by decide) (UInt32.le_iff_toNat_le.1 hdigit.1))

theorem printable_pasteMarker (pasteId : ℕ) (content : Str) : Printable (pasteMarker pasteId content) := by
  have hbegin : Printable (markerPrefix pasteId) :=
    Printable.append (by decide : Printable "[paste #") (printable_dec _)
  rw [pasteMarker]
  split_ifs
  · exact hbegin.append (((by decide : Printable " +").append (printable_dec _)).append
      (by decide : Printable " lines]"))
  · exact hbegin.append (((by decide : Printable " ").append (printable_dec _)).append
      (by decide : Printable " chars]"))

theorem Editor.printable_filteredText (isAlphanumeric : Char → Bool) (e : Editor) (pasted : Str) :
    Printable (e.filteredText isAlphanumeric pasted) := by
  have hfilter : Printable ((normalizeText (decodeCsiUCtrl pasted)).filter
      fun c => c = '\n' || 32 ≤ c.toNat) := fun c hc => by simpa using (mem_filter.1 hc).2
  rw [Editor.filteredText]
  split_ifs
  · exact Printable.append (by decide : Printable [' ']) hfilter
  · exact hfilter

/-! ### The text before and after the cursor -/

theorem splitAtByte_append (s t : Str) : splitAtByte (byteLen s) (s ++ t) = (s, t) := by
  induction s with
  | nil =>
    cases t with
    | nil => rfl
    | cons c t => simp [splitAtByte, byteLen, Char.utf8Size_pos c]
  | cons c s ih => simp [splitAtByte, ih]

/-- Two texts joined within a line. -/
theorem unlines_join (ls : List Str) (l l' : Str) (ls' : List Str) :
    unlines (ls ++ [l]) ++ unlines (l' :: ls') = unlines (ls ++ (l ++ l') :: ls') := by
  cases ls <;> simp [unlines_cons]

theorem insertIdx_length_succ (ls : List Str) (l l' : Str) (ls' : List Str) :
    (ls ++ l :: ls').insertIdx (ls.length + 1) l' = ls ++ l :: l' :: ls' := by
  induction ls with
  | nil => rfl
  | cons _ ls ih => simpa using ih

namespace Editor

/-- The cursor stands behind one text and before another. -/
def At (e : Editor) (before after : Str) : Prop := ∃ (ls : List Str) (line line' : Str) (ls' : List Str),
    e.lines = ls ++ (line ++ line') :: ls' ∧ e.cursorLine = ls.length ∧ e.cursorCol = byteLen line ∧
      before = unlines (ls ++ [line]) ∧ after = unlines (line' :: ls')

variable {e : Editor} {before after : Str}

section

variable (h : e.At before after)

include h

theorem At.getText : e.getText = before ++ after := by
  obtain ⟨ls, line, line', ls', hlines, -, -, rfl, rfl⟩ := h
  rw [Editor.getText, hlines, unlines_join]

omit h in
theorem aroundCursor_eq {ls : List Str} {line line' : Str} {ls' : List Str}
    (hlines : e.lines = ls ++ (line ++ line') :: ls') (hline : e.cursorLine = ls.length)
    (hcol : e.cursorCol = byteLen line) : e.aroundCursor = (line, line') := by
  have hcurrent : e.currentLine = line ++ line' := by simp [currentLine, hlines, hline]
  rw [aroundCursor, hcurrent, hcol, byteLen_append, min_eq_left (Nat.le_add_right _ _),
    splitAtByte_append]

theorem At.insertCharacter (char : Str) : (e.insertCharacter char).At (before ++ char) after := by
  obtain ⟨ls, line, line', ls', hlines, hline, hcol, rfl, rfl⟩ := h
  refine ⟨ls, line ++ char, line', ls', ?_, hline, ?_, ?_, rfl⟩
  · rw [Editor.insertCharacter, aroundCursor_eq hlines hline hcol]
    simp [hlines, hline]
  · rw [byteLen_append, ← hcol]
    rfl
  · have hjoin := unlines_join ls line char []
    rwa [unlines_singleton] at hjoin

theorem At.addNewLine : e.addNewLine.At (before ++ ['\n']) after := by
  obtain ⟨ls, line, line', ls', hlines, hline, hcol, rfl, rfl⟩ := h
  refine ⟨ls ++ [line], [], line', ls', ?_, ?_, rfl, ?_, rfl⟩
  · rw [Editor.addNewLine, aroundCursor_eq hlines hline hcol]
    simp [hlines, hline, insertIdx_length_succ]
  · simp [Editor.addNewLine, hline]
  · have hjoin := unlines_join ls line [] [[]]
    rw [append_nil] at hjoin
    rw [append_assoc, singleton_append, ← hjoin]
    rfl

/-- **A text is inserted at the cursor.** -/
theorem At.insertText (text : Str) : (e.insertTextAtCursorInternal text).At (before ++ normalizeText text) after := by
  obtain ⟨ls, line, line', ls', hlines, hline, hcol, rfl, rfl⟩ := h
  have hsplit := unlines_splitOn (normalizeText text)
  rw [insertTextAtCursorInternal, aroundCursor_eq hlines hline hcol]
  dsimp only
  split_ifs with hempty hone
  · rw [isEmpty_iff.1 hempty]
    exact ⟨ls, line, line', ls', hlines, hline, hcol, append_nil _, rfl⟩
  · refine ⟨ls, line ++ normalizeText text, line', ls', by simp [hlines, hline], hline, ?_, ?_, rfl⟩
    · rw [byteLen_append, ← hcol]
    · have hjoin := unlines_join ls line (normalizeText text) []
      rwa [unlines_singleton] at hjoin
  · have hne : (normalizeText text).splitOn '\n' ≠ [] := splitOn_ne_nil _ _
    -- The text has a first line and a last one.
    obtain ⟨first, rest, hfirst⟩ := exists_cons_of_ne_nil hne
    rw [hfirst] at hsplit hone ⊢
    have hrest : rest ≠ [] := by
      rintro rfl
      exact hone rfl
    obtain ⟨middle, last, rfl⟩ := (eq_nil_or_concat' rest).resolve_left hrest
    have hlast : (first :: (middle ++ [last])).getLastD [] = last := by rw [← cons_append, getLastD_concat]
    refine ⟨ls ++ (line ++ first) :: middle, last, line', ls', ?_, ?_, by rw [hlast], ?_, rfl⟩
    · rw [hlast]
      simp [hlines, hline]
    · simp [hline]
    · rw [← hsplit, unlines_join]
      simp

end

/-! ### Runs -/

@[simp] theorem insertTextAtCursorInternal_pastes (e : Editor) (text : Str) :
    (e.insertTextAtCursorInternal text).pastes = e.pastes := by
  rw [insertTextAtCursorInternal]
  dsimp only
  split_ifs <;> rfl

@[simp] theorem insertTextAtCursorInternal_pasteCounter (e : Editor) (text : Str) :
    (e.insertTextAtCursorInternal text).pasteCounter = e.pasteCounter := by
  rw [insertTextAtCursorInternal]
  dsimp only
  split_ifs <;> rfl

theorem insertTextAtCursor_eq (e : Editor) (text : Str) :
    e.insertTextAtCursor text = e.insertTextAtCursorInternal text := by
  rw [insertTextAtCursor, insertTextAtCursorInternal]
  split_ifs <;> rfl

/-- The text of a paste that was kept aside. -/
def content (e : Editor) (pasteId : ℕ) : Str := (Keyed.first pasteId e.pastes).getD []

/-- The cursor stands between two pieces of the text, so that no marker is broken up there. -/
def Between (e : Editor) (ds ds' : List Piece) : Prop := e.At (fill e.content 1 ds) (fill e.content 1 ds')

/-- What a paste adds to the pieces. -/
def pastedPieces (isAlphanumeric : Char → Bool) (e : Editor) (pasted : Str) : List Piece :=
  let filtered := e.filteredText isAlphanumeric pasted
  if isLarge filtered then [.marker (e.pasteCounter + 1)] else filtered.map .typed

/-- The editors, with the pieces of their texts, that are reached by moving the cursor anywhere and
by inserting characters, line ends, texts and pastes where no marker is broken up. -/
inductive Reached (isAlphanumeric : Char → Bool) : Editor → List Piece → Prop
  | start : Reached isAlphanumeric Editor.start []
  | moved {e : Editor} {ds : List Piece} (cursorLine cursorCol : ℕ) : Reached isAlphanumeric e ds →
      Reached isAlphanumeric { e with cursorLine := cursorLine, cursorCol := cursorCol } ds
  | character {e : Editor} {ds ds' : List Piece} (char : Str) :
      Reached isAlphanumeric e (ds ++ ds') → e.Between ds ds' →
      Reached isAlphanumeric (e.insertCharacter char) (ds ++ char.map .typed ++ ds')
  | newLine {e : Editor} {ds ds' : List Piece} : Reached isAlphanumeric e (ds ++ ds') → e.Between ds ds' →
      Reached isAlphanumeric e.addNewLine (ds ++ ['\n'].map .typed ++ ds')
  | text {e : Editor} {ds ds' : List Piece} (text : Str) : Reached isAlphanumeric e (ds ++ ds') → e.Between ds ds' →
      Reached isAlphanumeric (e.insertTextAtCursor text) (ds ++ (normalizeText text).map .typed ++ ds')
  | paste {e : Editor} {ds ds' : List Piece} (pasted : Str) : Reached isAlphanumeric e (ds ++ ds') → e.Between ds ds' →
      Reached isAlphanumeric (e.handlePaste isAlphanumeric pasted)
        (ds ++ e.pastedPieces isAlphanumeric pasted ++ ds')
  | submitted {e : Editor} {ds : List Piece} : Reached isAlphanumeric e ds → Reached isAlphanumeric e.submitValue.1 []

/-- What holds of an editor and the pieces of its text. -/
structure Holds (e : Editor) (ds : List Piece) : Prop where
  text : e.getText = fill e.content 1 ds
  numbered : Numbered e.pasteCounter ds
  ids : e.pastes.map Prod.fst = range' 1 e.pasteCounter

theorem fill_typed (content : ℕ → Str) (below : ℕ) (s : Str) : fill content below (s.map .typed) = s := by
  rw [fill, flatMap_map]
  exact flatMap_singleton' s

theorem count_typed (s : Str) (pasteId : ℕ) : (s.map Piece.typed).count (.marker pasteId) = 0 :=
  count_eq_zero.2 (by simp)

/-- Inserting a text keeps the editor and its pieces in step. -/
theorem Holds.typed {e' : Editor} {ds ds' : List Piece} {s : Str} (h : e.Holds (ds ++ ds'))
    (hpastes : e'.pastes = e.pastes) (hcounter : e'.pasteCounter = e.pasteCounter)
    (hat : e'.At (fill e.content 1 ds ++ s) (fill e.content 1 ds')) :
    e'.Holds (ds ++ s.map .typed ++ ds') := by
  have hcontent : e'.content = e.content := by
    funext pasteId
    rw [content, content, hpastes]
  refine ⟨?_, ?_, by rw [hpastes, hcounter, h.ids]⟩
  · rw [hat.getText, hcontent, fill_append, fill_append, fill_typed]
  · intro pasteId
    rw [hcounter, ← h.numbered pasteId, count_append, count_append, count_typed, count_append, Nat.add_zero]

variable {isAlphanumeric : Char → Bool}

/-- The editor with a paste kept aside. -/
theorem handlePaste_of_isLarge {pasted : Str} (hids : e.pastes.map Prod.fst = range' 1 e.pasteCounter)
    (hlarge : isLarge (e.filteredText isAlphanumeric pasted) = true) :
    e.handlePaste isAlphanumeric pasted = Editor.insertTextAtCursorInternal
        { e with
          pastes := e.pastes ++ [(e.pasteCounter + 1, e.filteredText isAlphanumeric pasted)]
          pasteCounter := e.pasteCounter + 1 }
        (pasteMarker (e.pasteCounter + 1) (e.filteredText isAlphanumeric pasted)) := by
  have hfilter : e.pastes.filter (fun paste => paste.1 ≠ e.pasteCounter + 1) = e.pastes := by
    refine filter_eq_self.2 fun paste hpaste => decide_eq_true fun heq => ?_
    have hmem : paste.1 ∈ range' 1 e.pasteCounter := hids ▸ mem_map_of_mem hpaste
    rw [mem_range'_1] at hmem
    omega
  rw [handlePaste]
  dsimp only
  rw [if_pos hlarge, hfilter]

/-- A large paste keeps the editor and its pieces in step. -/
theorem Holds.largePaste {ds ds' : List Piece} {pasted : Str}
    (h : e.Holds (ds ++ ds')) (hbetween : e.Between ds ds')
    (hlarge : isLarge (e.filteredText isAlphanumeric pasted) = true) :
    (e.handlePaste isAlphanumeric pasted).Holds (ds ++ [.marker (e.pasteCounter + 1)] ++ ds') := by
  rw [handlePaste_of_isLarge h.ids hlarge]
  set filtered := e.filteredText isAlphanumeric pasted with hfiltered
  set kept : Editor := { e with
    pastes := e.pastes ++ [(e.pasteCounter + 1, filtered)], pasteCounter := e.pasteCounter + 1 } with hkept
  set e' := kept.insertTextAtCursorInternal (pasteMarker (e.pasteCounter + 1) filtered) with he'
  have hpastes : e'.pastes = e.pastes ++ [(e.pasteCounter + 1, filtered)] := insertTextAtCursorInternal_pastes _ _
  have hcounter : e'.pasteCounter = e.pasteCounter + 1 := insertTextAtCursorInternal_pasteCounter _ _
  have hnew : e'.content (e.pasteCounter + 1) = filtered := by
    have hnone : Keyed.first (e.pasteCounter + 1) e.pastes = none := by
      rw [Keyed.first_eq_none_iff]
      intro paste hpaste heq
      have hmem : paste.1 ∈ range' 1 e.pasteCounter := h.ids ▸ mem_map_of_mem hpaste
      rw [mem_range'_1] at hmem
      omega
    simp [content, hpastes, hnone]
  have hold : ∀ pasteId, Piece.marker pasteId ∈ ds ++ ds' → e.content pasteId = e'.content pasteId := by
    intro pasteId hmem
    have hle := h.numbered.of_mem hmem
    have hne : e.pasteCounter + 1 ≠ pasteId := by omega
    simp [content, hpastes, hne]
  have hds : fill e.content 1 ds = fill e'.content 1 ds :=
    fill_congr 1 fun pasteId hmem => hold pasteId (mem_append_left _ hmem)
  have hds' : fill e.content 1 ds' = fill e'.content 1 ds' :=
    fill_congr 1 fun pasteId hmem => hold pasteId (mem_append_right _ hmem)
  refine ⟨?_, ?_, ?_⟩
  · have hat : kept.At (fill e.content 1 ds) (fill e.content 1 ds') := hbetween
    rw [(hat.insertText _).getText, (printable_pasteMarker _ _).normalizeText_eq, hds, hds', fill_append, fill_append]
    simp [fill, Piece.fill, hnew]
  · intro pasteId
    have hcount := h.numbered pasteId
    rw [count_append] at hcount
    rw [hcounter, count_append, count_append, count_singleton]
    by_cases heq : pasteId = e.pasteCounter + 1
    · subst heq
      rw [if_neg (by omega)] at hcount
      simp
      omega
    · have hiff : (1 ≤ pasteId ∧ pasteId ≤ e.pasteCounter + 1) ↔ (1 ≤ pasteId ∧ pasteId ≤ e.pasteCounter) := by
        omega
      rw [if_congr hiff rfl rfl, ← hcount]
      simp [Ne.symm heq]
  · rw [hpastes, hcounter, map_append, h.ids, range'_1_concat, Nat.add_comm 1]
    rfl

/-- **Every run keeps the editor and its pieces in step.** -/
theorem Reached.holds {ds : List Piece} (h : Reached isAlphanumeric e ds) : e.Holds ds := by
  induction h with
  | start => exact ⟨rfl, fun pasteId => by simp [Editor.start]; omega, rfl⟩
  | moved cursorLine cursorCol _ ih => exact ⟨ih.text, ih.numbered, ih.ids⟩
  | character char _ hbetween ih => exact ih.typed rfl rfl (At.insertCharacter hbetween char)
  | newLine _ hbetween ih => exact ih.typed rfl rfl (At.addNewLine hbetween)
  | @text e ds ds' text _ hbetween ih =>
    rw [insertTextAtCursor_eq]
    exact ih.typed (insertTextAtCursorInternal_pastes _ _) (insertTextAtCursorInternal_pasteCounter _ _)
      (At.insertText hbetween text)
  | @paste e ds ds' pasted _ hbetween ih =>
    rw [pastedPieces]
    split_ifs with hlarge
    · exact ih.largePaste hbetween hlarge
    · rw [handlePaste]
      dsimp only
      rw [if_neg hlarge]
      have hat := At.insertText hbetween (e.filteredText isAlphanumeric pasted)
      rw [(e.printable_filteredText isAlphanumeric pasted).normalizeText_eq] at hat
      exact ih.typed (insertTextAtCursorInternal_pastes _ _)
        (insertTextAtCursorInternal_pasteCounter _ _) hat
  | submitted _ _ => exact ⟨rfl, fun pasteId => by simp [submitValue, Editor.start]; omega, rfl⟩

theorem Holds.pastes_eq {ds : List Piece} (h : e.Holds ds) :
    e.pastes = (range' 1 e.pasteCounter).map fun pasteId => (pasteId, e.content pasteId) := by
  have hnodup : (e.pastes.map Prod.fst).Nodup := h.ids ▸ nodup_range'
  rw [← h.ids, map_map]
  conv_lhs => rw [← map_id e.pastes]
  refine map_congr_left fun paste hpaste => ?_
  have hfirst := (Keyed.first_eq_some_iff_mem hnodup).2 hpaste
  simp [content, hfirst]

/-! ### What is submitted -/

/-- **What was pasted is what is submitted, if no other marker of a paste is met on the way.** -/
theorem getExpandedText_of_clean {isAlphanumeric : Char → Bool} {e : Editor} {ds : List Piece}
    (h : Reached isAlphanumeric e ds) (hclean : Clean e.content e.pasteCounter ds) :
    e.getExpandedText = expanded e.content ds ∧ e.submitValue.2 = trim (expanded e.content ds) := by
  have hexpand : expandPasteMarkers e.pastes e.getText = expanded e.content ds := by
    rw [h.holds.pastes_eq, h.holds.text]
    exact expandPasteMarkers_eq h.holds.numbered hclean
  exact ⟨hexpand, congrArg trim hexpand⟩

theorem between_start : Editor.start.Between [] [] := ⟨[], [], [], [], rfl, rfl, rfl, rfl, rfl⟩

/-- Ten line ends. -/
def blankLines : Str := replicate 10 '\n'

/-- The first paste mentions the second one. -/
def mentioning : Str := "[paste #2]" ++ blankLines

def mentioned : Str := "second" ++ blankLines

/-- The editor after two pastes. -/
def twice : Editor := (Editor.start.handlePaste Char.isAlphanum mentioning).handlePaste Char.isAlphanum mentioned

/-- The pasted text `[paste #2]` is submitted as the second paste. -/
theorem twice_getExpandedText : Reached Char.isAlphanum twice [.marker 1, .marker 2] ∧
      expanded twice.content [.marker 1, .marker 2] = mentioning ++ mentioned ∧
      twice.getExpandedText = mentioned ++ blankLines ++ mentioned ∧
      twice.getExpandedText ≠ expanded twice.content [.marker 1, .marker 2] := by
  have hfirst : Reached Char.isAlphanum (Editor.start.handlePaste Char.isAlphanum mentioning) [.marker 1] :=
    Reached.paste mentioning .start between_start
  have hbetween : (Editor.start.handlePaste Char.isAlphanum mentioning).Between [.marker 1] [] :=
    ⟨[], pasteMarker 1 mentioning, [], [], by decide +kernel, by decide +kernel, by decide +kernel,
      by decide +kernel, by decide +kernel⟩
  exact ⟨Reached.paste mentioned hfirst hbetween, by decide +kernel, by decide +kernel, by decide +kernel⟩

theorem noMarker_of_tails {pasteId : ℕ} {text : Str}
    (h : ∀ t ∈ text.tails, ¬ markerPrefix pasteId <+: t) : NoMarker pasteId text := by
  rintro t ht ⟨tail, rest, -, rfl⟩
  exact h _ ((mem_tails _ _).2 ht) (by rw [append_assoc]; exact prefix_append _ _)

/-- Two pastes with a typed letter between them. -/
def apart : Editor := ((Editor.start.handlePaste Char.isAlphanum ("first" ++ blankLines)).insertCharacter
  ['x']).handlePaste Char.isAlphanum mentioned

theorem getExpandedText_of_clean_apart :
    apart.getExpandedText = "first" ++ blankLines ++ ['x'] ++ mentioned ∧
      apart.submitValue.2 = "first" ++ blankLines ++ "xsecond" := by
  have hfirst : Reached Char.isAlphanum (Editor.start.handlePaste Char.isAlphanum ("first" ++ blankLines))
      [.marker 1] := Reached.paste _ .start between_start
  have htyped := @Reached.character _ _ [.marker 1] [] ['x'] hfirst
    ⟨[], pasteMarker 1 ("first" ++ blankLines), [], [], by decide +kernel, by decide +kernel,
      by decide +kernel, by decide +kernel, by decide +kernel⟩
  have hreached : Reached Char.isAlphanum apart [.marker 1, .typed 'x', .marker 2] :=
    @Reached.paste _ _ [.marker 1, .typed 'x'] [] mentioned htyped
      ⟨[], pasteMarker 1 ("first" ++ blankLines) ++ ['x'], [], [], by decide +kernel, by decide +kernel,
        by decide +kernel, by decide +kernel, by decide +kernel⟩
  have hclean : Clean apart.content 2 [.marker 1, .typed 'x', .marker 2] := by
    intro pasteId _ _ before after heq
    rcases before with _ | ⟨p, _ | ⟨q, _ | ⟨r, before⟩⟩⟩
    · cases heq
      exact ⟨noMarker_of_tails (by decide +kernel), noMarker_of_tails (by decide +kernel)⟩
    · cases heq
    · cases heq
      exact ⟨noMarker_of_tails (by decide +kernel), noMarker_of_tails (by decide +kernel)⟩
    · exact absurd (congrArg length heq) (by simp)
  obtain ⟨htext, hsubmit⟩ := getExpandedText_of_clean hreached hclean
  exact ⟨htext.trans (by decide +kernel), hsubmit.trans (by decide +kernel)⟩

end Editor

end Tui
