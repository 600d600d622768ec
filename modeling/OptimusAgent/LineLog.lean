/-
**Files of lines.**

A log is a file of lines that is read by folding over them.  A record is appended as a line with its
newline; what is appended after a complete line is read after what was there, and what is appended
to an incomplete line becomes part of that line.

A buffer of bytes is cut at its newlines.  What stands after the last newline is a line of its own
if it is not empty, so a buffer that ends with a newline has as many lines as newlines.  Lines may
be cut out of a buffer as a whole, or out of its chunks, with the beginning of a line kept until its
end arrives.
-/

import OptimusAgent.Text
import OptimusAgent.Utf8

namespace LineLog

open List Utf8

/-! ### Bytes -/

def newline : UInt8 := 10

/-- The bytes end with a newline, or there are none. -/
def Complete (b : List UInt8) : Prop := b = [] ∨ b.getLast? = some newline

instance (b : List UInt8) : Decidable (Complete b) := instDecidableOr

/-- The text ends with a newline, or is empty. -/
def CompleteText (s : Str) : Prop := s = [] ∨ ∃ t, s = t ++ ['\n']

/-- The bytes of a line with its newline. -/
def lineBytes (line : Str) : List UInt8 := encode (line ++ ['\n'])

theorem encode_newline : encode ['\n'] = [newline] := by decide

theorem lineBytes_eq (line : Str) : lineBytes line = encode line ++ [newline] := by
  rw [lineBytes, encode_append, encode_newline]

theorem complete_append_lineBytes (b : List UInt8) (line : Str) : Complete (b ++ lineBytes line) :=
  .inr (by rw [lineBytes_eq, ← append_assoc, List.getLast?_concat])

theorem completeText_of_complete {s : Str} (h : Complete (encode s)) : CompleteText s := by
  rcases h with hnil | hlast
  · exact .inl (encode_injective (t := []) hnil)
  · obtain ⟨b, hb⟩ := List.getLast?_eq_some_iff.1 hlast
    obtain ⟨s₁, s₂, rfl, -, hs₂⟩ := encode_split hb fun x hx => by
      cases hx
      decide
    rw [← encode_newline] at hs₂
    exact .inr ⟨s₁, by rw [encode_injective hs₂]⟩

/-- **A readable file is a readable complete part and a readable rest.** -/
theorem Complete.split {b rest : List UInt8} {s : Str} (hb : Complete b)
    (h : encode s = b ++ rest) (hrest : ∀ x ∈ rest.head?, x.toNat < 128) :
    ∃ s₁ s₂, s = s₁ ++ s₂ ∧ b = encode s₁ ∧ rest = encode s₂ ∧ CompleteText s₁ := by
  obtain ⟨s₁, s₂, rfl, rfl, rfl⟩ := encode_split h hrest
  exact ⟨s₁, s₂, rfl, rfl, rfl, completeText_of_complete hb⟩

/-! ### Reading line by line -/

section

variable {σ : Type} (readLine : σ → Str → σ) (init : σ)

/-- What is read from a text, line by line. -/
def readText (contents : Str) : σ := (contents.splitOn '\n').foldl readLine init

variable {readLine init} {head line : Str}

theorem readText_append (hempty : ∀ s, readLine s [] = s) (hhead : CompleteText head)
    (rest : Str) : readText readLine init (head ++ rest) =
      (rest.splitOn '\n').foldl readLine (readText readLine init head) := by
  rcases hhead with rfl | ⟨t, rfl⟩
  · simp [readText, hempty]
  · have hnil : ([] : Str).splitOn '\n' = [[]] := by simp
    rw [readText, append_assoc, singleton_append, Str.splitOn_append_newline,
      foldl_append, readText, Str.splitOn_append_newline, foldl_append, hnil]
    simp [hempty]

theorem splitOn_of_notMem (h : '\n' ∉ line) : line.splitOn '\n' = [line] := by
  have hsplit := Str.splitOn_unlines (cons_ne_nil line []) (by simpa using h)
  rwa [Str.unlines_singleton] at hsplit

/-- Lines with their newlines are split into the lines and what follows the last newline. -/
theorem splitOn_lines_append {lines : List Str} (h : ∀ l ∈ lines, '\n' ∉ l) {last : Str}
    (hlast : '\n' ∉ last) :
    ((lines.flatMap fun l => l ++ ['\n']) ++ last).splitOn '\n' = lines ++ [last] := by
  induction lines with
  | nil => exact splitOn_of_notMem hlast
  | cons l lines ih =>
    rw [forall_mem_cons] at h
    rw [flatMap_cons, append_assoc, append_assoc, singleton_append,
      Str.splitOn_append_newline, splitOn_of_notMem h.1, ih h.2]
    rfl

theorem flatMap_lineBytes (lines : List Str) :
    lines.flatMap lineBytes = encode (lines.flatMap fun l => l ++ ['\n']) := by
  induction lines with
  | nil => rfl
  | cons l lines ih => rw [flatMap_cons, ih, flatMap_cons, encode_append, lineBytes]

variable (hempty : ∀ s, readLine s [] = s)

include hempty

/-- A last line without its newline is read like a line. -/
theorem readText_append_part (hhead : CompleteText head) (h : '\n' ∉ line) :
    readText readLine init (head ++ line) = readLine (readText readLine init head) line := by
  rw [readText_append hempty hhead, splitOn_of_notMem h]
  rfl

/-- A line after complete lines is read after them. -/
theorem readText_append_line (hhead : CompleteText head) (h : '\n' ∉ line) :
    readText readLine init (head ++ (line ++ ['\n'])) = readLine (readText readLine init head) line := by
  have hnil : ([] : Str).splitOn '\n' = [[]] := by simp
  rw [readText_append hempty hhead, Str.splitOn_append_newline, splitOn_of_notMem h, hnil]
  simp [hempty]

/-- Lines that are written together are read one after the other. -/
theorem readText_unlines {lines : List Str} (h : ∀ l ∈ lines, '\n' ∉ l) :
    readText readLine init (Str.unlines lines ++ ['\n']) = lines.foldl readLine init := by
  have hnil : ([] : Str).splitOn '\n' = [[]] := by simp
  rw [readText, Str.splitOn_append_newline, foldl_append, hnil, foldl_cons, foldl_nil, hempty]
  cases lines with
  | nil => simp [Str.unlines, hempty]
  | cons l lines => rw [Str.splitOn_unlines (cons_ne_nil _ _) h]

end

end LineLog

namespace ByteLines

open LineLog List

/-! ### The lines of a buffer -/

/-- The lines of a buffer, without their newlines. -/
def lines : List UInt8 → List (List UInt8)
  | [] => []
  | b :: rest =>
    if b = newline then [] :: lines rest
    else
      match lines rest with
      | [] => [[b]]
      | line :: more => (b :: line) :: more

@[simp] theorem lines_nil : lines [] = [] := rfl

theorem lines_newline_cons (rest : List UInt8) : lines (newline :: rest) = [] :: lines rest := rfl

variable {line : List UInt8}

theorem lines_cons_append {b : UInt8} (hb : b ≠ newline) {more : List (List UInt8)}
    {rest : List UInt8} (h : lines rest = line :: more) : lines (b :: rest) = (b :: line) :: more := by
  rw [lines, if_neg hb, h]

/-- The line in front of the first newline. -/
theorem lines_append_newline (h : newline ∉ line) (rest : List UInt8) :
    lines (line ++ newline :: rest) = line :: lines rest := by
  induction line with
  | nil => exact lines_newline_cons rest
  | cons b line ih =>
    rw [mem_cons, not_or] at h
    exact lines_cons_append (Ne.symm h.1) (ih h.2)

theorem lines_of_notMem (h : newline ∉ line) (hne : line ≠ []) : lines line = [line] := by
  induction line with
  | nil => exact absurd rfl hne
  | cons b line ih =>
    rw [mem_cons, not_or] at h
    cases line with
    | nil => rw [lines, if_neg (Ne.symm h.1), lines_nil]
    | cons b' line => exact lines_cons_append (Ne.symm h.1) (ih h.2 (cons_ne_nil _ _))

/-- A buffer is empty, one line without a newline, or begins with a line and its newline. -/
theorem cases_lines (buffer : List UInt8) :
    newline ∉ buffer ∨ ∃ line rest, buffer = line ++ newline :: rest ∧ newline ∉ line := by
  induction buffer with
  | nil => exact .inl not_mem_nil
  | cons b buffer ih =>
    by_cases hb : b = newline
    · exact .inr ⟨[], buffer, by rw [hb]; rfl, not_mem_nil⟩
    · obtain h | ⟨line, rest, rfl, h⟩ := ih
      · exact .inl (not_mem_cons_of_ne_of_not_mem (Ne.symm hb) h)
      · exact .inr ⟨b :: line, rest, rfl, not_mem_cons_of_ne_of_not_mem (Ne.symm hb) h⟩

/-- Induction over the lines of a buffer. -/
theorem lines_induction {motive : List UInt8 → Prop} (buffer : List UInt8) (last : ∀ line, newline ∉ line → motive line)
    (line : ∀ line rest, newline ∉ line → motive rest → motive (line ++ newline :: rest)) : motive buffer := by
  induction hn : buffer.length using Nat.strong_induction_on generalizing buffer with
  | _ n ih =>
    obtain h | ⟨l, rest, rfl, h⟩ := cases_lines buffer
    · exact last buffer h
    · refine line l rest h (ih rest.length ?_ rest rfl)
      rw [← hn, length_append, length_cons]
      omega

theorem lines_ne_nil {buffer : List UInt8} (h : buffer ≠ []) : lines buffer ≠ [] := by
  rcases cases_lines buffer with hbuffer | ⟨line, rest, rfl, hline⟩
  · rw [lines_of_notMem hbuffer h]
    exact cons_ne_nil _ _
  · rw [lines_append_newline hline]
    exact cons_ne_nil _ _

theorem notMem_of_mem_lines {buffer : List UInt8} (h : line ∈ lines buffer) : newline ∉ line := by
  induction buffer using lines_induction with
  | last l hl =>
    cases l with
    | nil => exact absurd h not_mem_nil
    | cons b l =>
      rw [lines_of_notMem hl (cons_ne_nil _ _), mem_singleton] at h
      exact h ▸ hl
  | line l rest hl ih =>
    rw [lines_append_newline hl, mem_cons] at h
    obtain rfl | h := h
    · exact hl
    · exact ih h

theorem Complete.append_newline (line : List UInt8) : Complete (line ++ [newline]) := .inr getLast?_concat

/-- What stands after a line with its newline ends like the whole buffer. -/
theorem complete_append_newline_iff {rest : List UInt8} : Complete (line ++ newline :: rest) ↔ Complete rest := by
  cases rest with
  | nil => exact iff_of_true (Complete.append_newline line) (.inl rfl)
  | cons b rest =>
    have hlast : (line ++ newline :: b :: rest).getLast? = (b :: rest).getLast? := by
      rw [getLast?_append_of_ne_nil _ (cons_ne_nil _ _), getLast?_cons_cons]
    constructor
    · rintro (h | h)
      · simp at h
      · exact .inr (hlast ▸ h)
    · rintro (h | h)
      · cases h
      · exact .inr (hlast.trans h)

/-- **Complete lines are cut out on their own.** -/
theorem lines_append {head : List UInt8} (h : Complete head) (rest : List UInt8) :
    lines (head ++ rest) = lines head ++ lines rest := by
  induction head using lines_induction with
  | last line hline =>
    obtain rfl | hlast := h
    · rfl
    · exact absurd (mem_of_getLast? hlast) hline
  | line line tail hline ih =>
    rw [append_assoc, cons_append, lines_append_newline hline, lines_append_newline hline,
      ih (complete_append_newline_iff.1 h), cons_append]

/-- A line after complete ones. -/
theorem lines_append_line {head : List UInt8} (h : Complete head) (hline : newline ∉ line) :
    lines (head ++ (line ++ [newline])) = lines head ++ [line] := by
  rw [lines_append h, lines_append_newline hline, lines_nil]

/-- Lines that are written with their newlines are read back. -/
theorem lines_flatMap {ls : List (List UInt8)} (h : ∀ l ∈ ls, newline ∉ l) :
    lines (ls.flatMap fun l => l ++ [newline]) = ls := by
  induction ls with
  | nil => rfl
  | cons l ls ih =>
    rw [forall_mem_cons] at h
    rw [flatMap_cons, append_assoc, singleton_append, lines_append_newline h.1, ih h.2]

/-- The bytes of joined lines are those of the lines with their newlines. -/
theorem encode_unlines {ls : List Str} (hne : ls ≠ []) :
    Utf8.encode (Str.unlines ls ++ ['\n']) = (ls.map Utf8.encode).flatMap fun l => l ++ [newline] := by
  induction ls with
  | nil => exact absurd rfl hne
  | cons l ls ih =>
    rw [map_cons, flatMap_cons]
    cases ls with
    | nil => rw [Str.unlines_singleton, Utf8.encode_append, encode_newline, map_nil, flatMap_nil, append_nil]
    | cons l' ls =>
      rw [← ih (cons_ne_nil _ _), Str.unlines_cons_cons, append_assoc, Utf8.encode_append,
        cons_append, ← singleton_append, Utf8.encode_append, encode_newline,
        append_assoc]

/-! ### Lines of chunks -/

/-- The lines so far, and the parts of the line that has no end yet. -/
structure Pieces where
  lines : List (List UInt8)
  pendingParts : List (List UInt8)

def Pieces.start : Pieces := ⟨[], []⟩

/-- The line that ends with a part. -/
def Pieces.joined (s : Pieces) (part : List UInt8) : List UInt8 :=
  if s.pendingParts = [] then part else (s.pendingParts ++ [part]).flatten

/-- The lines after a chunk. -/
def Pieces.consume (s : Pieces) (chunk : List UInt8) : Pieces :=
  match h : chunk.findIdx? (· = newline) with
  | none => if chunk = [] then s else { s with pendingParts := s.pendingParts ++ [chunk] }
  | some offset => Pieces.consume ⟨s.lines ++ [s.joined (chunk.take offset)], []⟩ (chunk.drop (offset + 1))
  termination_by chunk.length
  decreasing_by
    obtain ⟨hlt, -⟩ := findIdx?_eq_some_iff_getElem.1 h
    rw [length_drop]
    omega

/-- The lines when no chunk follows. -/
def Pieces.finish (s : Pieces) : List (List UInt8) :=
  if s.pendingParts = [] then s.lines else s.lines ++ [s.pendingParts.flatten]

/-- The parts that are kept have no newline and are not empty. -/
structure Pieces.Pending (s : Pieces) : Prop where
  notMem : ∀ part ∈ s.pendingParts, newline ∉ part
  ne_nil : ∀ part ∈ s.pendingParts, part ≠ []

theorem Pieces.Pending.start : Pieces.start.Pending := ⟨by simp [Pieces.start], by simp [Pieces.start]⟩

theorem Pieces.joined_eq (s : Pieces) (part : List UInt8) : s.joined part = s.pendingParts.flatten ++ part := by
  rw [Pieces.joined]
  split_ifs with h
  · rw [h]
    rfl
  · rw [flatten_append, flatten_singleton]

theorem Pieces.consume_of_notMem (s : Pieces) {chunk : List UInt8} (h : newline ∉ chunk) :
    s.consume chunk = if chunk = [] then s else { s with pendingParts := s.pendingParts ++ [chunk] } := by
  have hnone : chunk.findIdx? (· = newline) = none := by
    rw [findIdx?_eq_none_iff]
    exact fun b hb => decide_eq_false fun heq => h (heq ▸ hb)
  rw [Pieces.consume]
  split
  · rfl
  · next offset hoffset =>
    rw [hnone] at hoffset
    cases hoffset

theorem Pieces.consume_append_newline (s : Pieces) {part : List UInt8} (h : newline ∉ part) (rest : List UInt8) :
    s.consume (part ++ newline :: rest) = Pieces.consume ⟨s.lines ++ [s.joined part], []⟩ rest := by
  have hnone : part.findIdx? (· = newline) = none := by
    rw [findIdx?_eq_none_iff]
    exact fun b hb => decide_eq_false fun heq => h (heq ▸ hb)
  have hsome : (part ++ newline :: rest).findIdx? (· = newline) = some part.length := by
    rw [findIdx?_append, hnone, findIdx?_cons]
    simp
  rw [Pieces.consume]
  split
  · next hnone =>
    rw [hsome] at hnone
    cases hnone
  · next offset hoffset =>
    rw [hsome] at hoffset
    cases hoffset
    rw [take_left, drop_append, drop_eq_nil_of_le (by omega)]
    simp

variable {s : Pieces} (h : s.Pending)

include h

theorem Pieces.Pending.consume (chunk : List UInt8) : (s.consume chunk).Pending := by
  induction chunk using lines_induction generalizing s with
  | last line hline =>
    rw [Pieces.consume_of_notMem s hline]
    split_ifs with hne
    · exact h
    · refine ⟨fun part hpart => ?_, fun part hpart => ?_⟩
      · rcases mem_append.1 hpart with hpart | hpart
        · exact h.notMem part hpart
        · exact mem_singleton.1 hpart ▸ hline
      · rcases mem_append.1 hpart with hpart | hpart
        · exact h.ne_nil part hpart
        · exact mem_singleton.1 hpart ▸ hne
  | line line rest hline ih =>
    rw [Pieces.consume_append_newline s hline]
    exact ih ⟨by simp, by simp⟩

theorem Pieces.Pending.notMem_flatten : newline ∉ s.pendingParts.flatten := by
  rw [mem_flatten]
  rintro ⟨part, hpart, hmem⟩
  exact h.notMem part hpart hmem

/-- What is kept is the beginning of the next line. -/
theorem Pieces.Pending.finish_eq : s.finish = s.lines ++ ByteLines.lines s.pendingParts.flatten := by
  rw [Pieces.finish]
  split_ifs with hnone
  · rw [hnone]
    simp
  · obtain ⟨part, parts, hparts⟩ := exists_cons_of_ne_nil hnone
    have hne : s.pendingParts.flatten ≠ [] := by
      rw [hparts, flatten_cons]
      exact append_ne_nil_of_left_ne_nil (h.ne_nil part (by rw [hparts]; exact mem_cons_self)) _
    rw [lines_of_notMem h.notMem_flatten hne]

/-- **The lines of a chunk and of what follows it are cut out together**, from what is kept on. -/
theorem Pieces.lines_consume (chunk more : List UInt8) :
    (s.consume chunk).lines ++ ByteLines.lines ((s.consume chunk).pendingParts.flatten ++ more) =
      s.lines ++ ByteLines.lines (s.pendingParts.flatten ++ (chunk ++ more)) := by
  induction chunk using lines_induction generalizing s with
  | last line hline =>
    rw [Pieces.consume_of_notMem s hline]
    split_ifs with hne
    · rw [hne, nil_append]
    · rw [flatten_append, flatten_singleton, append_assoc]
  | line part rest hpart ih =>
    have hfirst : newline ∉ s.pendingParts.flatten ++ part := by
      rw [mem_append, not_or]
      exact ⟨h.notMem_flatten, hpart⟩
    rw [Pieces.consume_append_newline s hpart, ih ⟨by simp, by simp⟩, Pieces.joined_eq, flatten_nil,
      nil_append, append_assoc part, cons_append, ← append_assoc s.pendingParts.flatten,
      lines_append_newline hfirst, append_assoc, singleton_append]

end ByteLines
