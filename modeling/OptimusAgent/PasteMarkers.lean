/-
**Paste markers of the editor.**

A large paste is kept aside and stands in the editor as a marker, such as `[paste #3 +12 lines]`.
When the text is submitted, the markers are replaced by the pastes: the text is searched for markers
of the first paste, the result for markers of the second one, and so on.

Here the editor text is a list of typed characters and markers.  What should come out is the text
with every marker replaced by its own paste, all at once.  It does come out if no other marker of a
paste is met on the way.  A marker of a later paste inside the text of an earlier one is met, and
replaced.
-/

import OptimusAgent.Text

namespace Tui

open Str List

/-! ### The source's functions -/

/-- What a marker of a paste begins with. -/
def markerPrefix (pasteId : ℕ) : Str := "[paste #" ++ dec pasteId

/-- What follows a marker, read from behind its number. -/
def markerEnd : Str → Option Str
  | ']' :: rest => some rest
  | ' ' :: text =>
    let hasPlus := text.head? == some '+'
    let text := if hasPlus then text.tail else text
    let rest := text.dropWhile Char.isDigit
    if (text.takeWhile Char.isDigit).isEmpty then none
    else if hasPlus then stripPrefix " lines]" rest
    else stripPrefix " chars]" rest
  | _ => none

def replaceFrom (pasteId : ℕ) (content : Str) : ℕ → Str → Str
  | 0, text => text
  | fuel + 1, text =>
    match textBefore (markerPrefix pasteId) text with
    | none => text
    | some before =>
      let afterPrefix := text.drop (before.length + (markerPrefix pasteId).length)
      match markerEnd afterPrefix with
      | some rest => before ++ content ++ replaceFrom pasteId content fuel rest
      | none => before ++ markerPrefix pasteId ++ replaceFrom pasteId content fuel afterPrefix

/-- The markers of one paste replaced by its text. -/
def replacePasteMarker (text : Str) (pasteId : ℕ) (content : Str) : Str :=
  replaceFrom pasteId content (text.length + 1) text

/-- The markers of all pastes replaced, one paste after the other. -/
def expandPasteMarkers (pastes : List (ℕ × Str)) (text : Str) : Str :=
  pastes.foldl (fun result paste => replacePasteMarker result paste.1 paste.2) text

/-- The marker that stands for a paste. -/
def pasteMarker (pasteId : ℕ) (content : Str) : Str :=
  let lines := (content.splitOn '\n').length
  markerPrefix pasteId ++
    if 10 < lines then " +" ++ dec lines ++ " lines]"
    else " " ++ dec content.length ++ " chars]"

/-! ### Markers in a text -/

/-- What may follow the number of a marker. -/
def MarkerTail (tail : Str) : Prop := tail = "]" ∨ ∃ digits : Str, digits ≠ [] ∧ digits.all Char.isDigit = true ∧
    (tail = " +" ++ digits ++ " lines]" ∨ tail = " " ++ digits ++ " chars]")

/-- The text begins with a marker of the paste. -/
def BeginsMarker (pasteId : ℕ) (text : Str) : Prop :=
  ∃ tail rest, MarkerTail tail ∧ text = markerPrefix pasteId ++ tail ++ rest

/-- There is no marker of the paste in the text. -/
def NoMarker (pasteId : ℕ) (text : Str) : Prop := ∀ t, t <:+ text → ¬ BeginsMarker pasteId t

variable {pasteId : ℕ}

theorem NoMarker.suffix {text t : Str} (h : NoMarker pasteId text) (ht : t <:+ text) :
    NoMarker pasteId t := fun t' ht' => h t' (ht'.trans ht)

/-- Digits are read up to a character that is none. -/
theorem span_digits {digits : Str} {c : Char} (hdigits : digits.all Char.isDigit = true)
    (hc : c.isDigit = false) (rest : Str) :
    (digits ++ c :: rest).takeWhile Char.isDigit = digits ∧
      (digits ++ c :: rest).dropWhile Char.isDigit = c :: rest := by
  have hall : ∀ d ∈ digits, d.isDigit = true := all_eq_true.1 hdigits
  rw [takeWhile_append_of_pos hall, dropWhile_append_of_pos hall, takeWhile_cons, dropWhile_cons, hc]
  simp

/-- A number is read with its unit. -/
theorem readCount_eq_some_iff {text u rest : Str} (hu : u.head? = some ' ') :
    (if (text.takeWhile Char.isDigit).isEmpty then none
      else stripPrefix u (text.dropWhile Char.isDigit)) = some rest ↔
    ∃ digits : Str, digits ≠ [] ∧ digits.all Char.isDigit = true ∧ text = digits ++ (u ++ rest) := by
  obtain ⟨u, rfl⟩ := head?_eq_some_iff.1 hu
  constructor
  · intro h
    split_ifs at h with hempty
    refine ⟨_, by simpa using hempty, all_takeWhile, ?_⟩
    rw [← stripPrefix_eq_some_iff.1 h, takeWhile_append_dropWhile]
  · rintro ⟨digits, hne, hdigits, rfl⟩
    obtain ⟨htake, hdrop⟩ := span_digits hdigits (by decide : ' '.isDigit = false) (u ++ rest)
    rw [cons_append, htake, hdrop, if_neg (by simpa using hne)]
    exact stripPrefix_append (' ' :: u) rest

/-- The end of a marker is read exactly. -/
theorem markerEnd_eq_some_iff {s rest : Str} :
    markerEnd s = some rest ↔ ∃ tail, MarkerTail tail ∧ s = tail ++ rest := by
  constructor
  · intro h
    unfold markerEnd at h
    split at h
    · cases h
      exact ⟨"]", .inl rfl, rfl⟩
    · rename_i text
      dsimp only at h
      by_cases hplus : text.head? = some '+'
      · obtain ⟨text, rfl⟩ := head?_eq_some_iff.1 hplus
        simp only [head?_cons, beq_self_eq_true, if_true, tail_cons] at h
        obtain ⟨digits, hne, hdigits, rfl⟩ := (readCount_eq_some_iff rfl).1 h
        exact ⟨_, .inr ⟨digits, hne, hdigits, .inl rfl⟩, by simp only [append_assoc]; rfl⟩
      · simp only [beq_eq_false_iff_ne.2 hplus, Bool.false_eq_true, if_false] at h
        obtain ⟨digits, hne, hdigits, rfl⟩ := (readCount_eq_some_iff rfl).1 h
        exact ⟨_, .inr ⟨digits, hne, hdigits, .inr rfl⟩, by simp only [append_assoc]; rfl⟩
    · cases h
  · rintro ⟨tail, rfl | ⟨digits, hne, hdigits, rfl | rfl⟩, rfl⟩
    · rfl
    · simp only [append_assoc]
      exact (readCount_eq_some_iff rfl).2 ⟨digits, hne, hdigits, rfl⟩
    · have hplus : ((digits ++ (" chars]" ++ rest)).head? == some '+') = false := by
        obtain ⟨d, ds, rfl⟩ := exists_cons_of_ne_nil hne
        have hd := all_eq_true.1 hdigits d mem_cons_self
        rw [cons_append, head?_cons, beq_eq_false_iff_ne]
        rintro ⟨⟩
        exact absurd hd (by decide)
      have htext : " " ++ digits ++ " chars]" ++ rest = ' ' :: (digits ++ (" chars]" ++ rest)) := by simp
      rw [htext, markerEnd]
      simp only [hplus, Bool.false_eq_true, if_false]
      exact (readCount_eq_some_iff rfl).2 ⟨digits, hne, hdigits, rfl⟩

theorem markerPrefix_eq (pasteId : ℕ) : ∃ tail, markerPrefix pasteId = '[' :: tail ∧ '[' ∉ tail := by
  refine ⟨"paste #" ++ dec pasteId, rfl, ?_⟩
  rw [mem_append, not_or]
  exact ⟨by decide, notMem_dec (by decide) pasteId⟩

theorem MarkerTail.notMem {tail : Str} (h : MarkerTail tail) : '[' ∉ tail := by
  rcases h with rfl | ⟨digits, -, hdigits, rfl | rfl⟩
  · decide
  all_goals
    have hno : '[' ∉ digits := fun hmem => absurd (all_eq_true.1 hdigits _ hmem) (by decide)
    simp [hno]

/-- A text in front of an opening bracket holds the whole of a marker that begins in it. -/
theorem beginsMarker_of_append {a b : Str} (ha : a ≠ []) (hb : b.head? = some '[')
    (h : BeginsMarker pasteId (a ++ b)) : BeginsMarker pasteId a := by
  obtain ⟨tail, rest, htail, heq⟩ := h
  obtain ⟨p, hp, hbracket⟩ := markerPrefix_eq pasteId
  rcases append_eq_append_iff.1 heq with ⟨c, hc, hb'⟩ | ⟨c, rfl, -⟩
  · -- The marker ends after the text, or with it.
    cases c with
    | nil => exact ⟨tail, [], htail, by rw [hc, append_nil, append_nil]⟩
    | cons x c =>
      rw [hb', cons_append, head?_cons, Option.some_inj] at hb
      obtain ⟨y, a, rfl⟩ := exists_cons_of_ne_nil ha
      rw [hp, cons_append, cons_append, cons_eq_cons] at hc
      have hmem : '[' ∈ p ++ tail := by rw [hc.2, hb]; simp
      rcases mem_append.1 hmem with h | h
      · exact absurd h hbracket
      · exact absurd h htail.notMem
  · exact ⟨tail, c, htail, rfl⟩

theorem pasteMarker_eq (pasteId : ℕ) (content : Str) :
    ∃ tail, MarkerTail tail ∧ pasteMarker pasteId content = markerPrefix pasteId ++ tail := by
  have hdec : ∀ n, dec n ≠ [] ∧ (dec n).all Char.isDigit = true := fun n =>
    ⟨Nat.toDigits_ne_nil, all_isDigit_dec n⟩
  unfold pasteMarker
  dsimp only
  split_ifs
  · exact ⟨_, .inr ⟨_, (hdec _).1, (hdec _).2, .inl rfl⟩, rfl⟩
  · exact ⟨_, .inr ⟨_, (hdec _).1, (hdec _).2, .inr rfl⟩, rfl⟩

/-! ### Replacing one marker -/

theorem replaceFrom_of_noMarker (content : Str) (fuel : ℕ) {text : Str}
    (h : NoMarker pasteId text) : replaceFrom pasteId content fuel text = text := by
  induction fuel generalizing text with
  | zero => rfl
  | succ fuel ih =>
    rw [replaceFrom]
    cases hfind : textBefore (markerPrefix pasteId) text with
    | none => rfl
    | some before =>
      obtain ⟨after, rfl⟩ := exists_of_textBefore hfind
      dsimp only
      rw [← length_append, drop_left]
      have hsuffix : markerPrefix pasteId ++ after <:+ before ++ markerPrefix pasteId ++ after := by
        rw [append_assoc]
        exact suffix_append _ _
      have hnone : markerEnd after = none := by
        by_contra hsome
        obtain ⟨rest, hrest⟩ := Option.ne_none_iff_exists'.1 hsome
        obtain ⟨tail, htail, rfl⟩ := markerEnd_eq_some_iff.1 hrest
        exact h _ hsuffix ⟨tail, rest, htail, by rw [append_assoc]⟩
      rw [hnone]
      dsimp only
      rw [ih (h.suffix ((suffix_append _ _).trans hsuffix))]

/-- A single marker is replaced, and nothing else. -/
theorem replaceFrom_eq {content a tail b : Str} {fuel : ℕ} (hfuel : a.length < fuel)
    (htail : MarkerTail tail) (ha : NoMarker pasteId a) (hb : NoMarker pasteId b) :
    replaceFrom pasteId content fuel (a ++ (markerPrefix pasteId ++ tail) ++ b) = a ++ content ++ b := by
  induction fuel generalizing a with
  | zero => omega
  | succ fuel ih =>
    obtain ⟨p, hp, hbracket⟩ := markerPrefix_eq pasteId
    have hhead : (markerPrefix pasteId ++ tail ++ b).head? = some '[' := by rw [hp]; rfl
    have htext : a ++ (markerPrefix pasteId ++ tail) ++ b =
        a ++ markerPrefix pasteId ++ (tail ++ b) := by simp only [append_assoc]
    obtain ⟨before, hfind⟩ := exists_textBefore (⟨a, tail ++ b, htext.symm⟩ :
      markerPrefix pasteId <:+: a ++ (markerPrefix pasteId ++ tail) ++ b)
    obtain ⟨⟨after, hafter⟩, hfirst⟩ := isFirst_of_textBefore hfind
    have hle := hfirst a (tail ++ b) htext
    rw [replaceFrom, hfind]
    dsimp only
    rw [hafter, ← length_append, drop_left]
    obtain ⟨a₁, rfl⟩ : before <+: a := by
      refine prefix_of_prefix_length_le ⟨markerPrefix pasteId ++ after, ?_⟩
        ⟨markerPrefix pasteId ++ tail ++ b, rfl⟩ hle
      rw [← append_assoc, ← hafter, append_assoc a]
    have hrest : a₁ ++ (markerPrefix pasteId ++ tail ++ b) = markerPrefix pasteId ++ after := by
      simp only [append_assoc, append_cancel_left_eq] at hafter ⊢
      exact hafter
    cases a₁ with
    | nil =>
      -- The first place where a marker may begin is the marker's own.
      rw [nil_append, append_assoc, append_cancel_left_eq] at hrest
      rw [← hrest, markerEnd_eq_some_iff.2 ⟨tail, htail, rfl⟩]
      dsimp only
      rw [replaceFrom_of_noMarker content fuel hb, append_nil]
    | cons x a₁ =>
      -- Another one lies as a whole in the text in front.
      obtain ⟨a₂, ha₂, hafter₂⟩ : ∃ a₂, x :: a₁ = markerPrefix pasteId ++ a₂ ∧
          after = a₂ ++ (markerPrefix pasteId ++ tail ++ b) := by
        rcases append_eq_append_iff.1 hrest with ⟨c, hc, hb'⟩ | ⟨c, hc, hb'⟩
        · cases c with
          | nil => exact ⟨[], by simpa using hc.symm, by simpa using hb'.symm⟩
          | cons y c =>
            rw [hb', cons_append, head?_cons, Option.some_inj] at hhead
            rw [hp, cons_append, cons_eq_cons] at hc
            exact absurd (by rw [hc.2, hhead]; simp) hbracket
        · exact ⟨c, hc, hb'⟩
      rw [ha₂] at hfuel ha ⊢
      have hnone : markerEnd after = none := by
        by_contra hsome
        obtain ⟨rest, hend⟩ := Option.ne_none_iff_exists'.1 hsome
        obtain ⟨tail', htail', heq⟩ := markerEnd_eq_some_iff.1 hend
        have hbegins : BeginsMarker pasteId ((markerPrefix pasteId ++ a₂) ++ (markerPrefix pasteId ++ tail ++ b)) :=
          ⟨tail', rest, htail', by rw [append_assoc, ← hafter₂, heq, append_assoc]⟩
        exact ha _ (suffix_append _ _) (beginsMarker_of_append (by rw [hp]; simp) hhead hbegins)
      rw [hnone]
      dsimp only
      rw [length_append, length_append, hp, length_cons] at hfuel
      have hafter₃ : after = a₂ ++ (markerPrefix pasteId ++ tail) ++ b := by rw [hafter₂, append_assoc a₂]
      rw [hafter₃, ih (by omega) (ha.suffix ((suffix_append _ _).trans (suffix_append _ _)))]
      simp only [append_assoc]

/-- **A single marker is replaced, and nothing else.** -/
theorem replacePasteMarker_eq {content a b : Str} (ha : NoMarker pasteId a) (hb : NoMarker pasteId b) :
    replacePasteMarker (a ++ pasteMarker pasteId content ++ b) pasteId content = a ++ content ++ b := by
  obtain ⟨tail, htail, heq⟩ := pasteMarker_eq pasteId content
  rw [replacePasteMarker, heq]
  refine replaceFrom_eq ?_ htail ha hb
  rw [length_append, length_append]
  omega

/-! ### The editor text and its markers -/

/-- What the editor text is made of. -/
inductive Piece where
  | typed (c : Char)
  | marker (pasteId : ℕ)
  deriving DecidableEq, Repr

/-- A piece with the markers of the pastes below a number replaced. -/
def Piece.fill (content : ℕ → Str) (below : ℕ) : Piece → Str
  | .typed c => [c]
  | .marker pasteId => if pasteId < below then content pasteId else pasteMarker pasteId (content pasteId)

/-- The text with the markers of the pastes below a number replaced. -/
def fill (content : ℕ → Str) (below : ℕ) (pieces : List Piece) : Str := pieces.flatMap (Piece.fill content below)

/-- A piece with its marker replaced. -/
def Piece.expanded (content : ℕ → Str) : Piece → Str
  | .typed c => [c]
  | .marker pasteId => content pasteId

/-- The text with every marker replaced by its own paste, all at once. -/
def expanded (content : ℕ → Str) (pieces : List Piece) : Str := pieces.flatMap (Piece.expanded content)

/-- The pieces hold one marker for each of the first pastes, and no other. -/
def Numbered (count : ℕ) (pieces : List Piece) : Prop :=
  ∀ pasteId, pieces.count (.marker pasteId) = if 1 ≤ pasteId ∧ pasteId ≤ count then 1 else 0

/-- On the way to the marker of a paste no other marker of it is met: there is none before or after
it, when the markers of the pastes before it have been replaced. -/
def Clean (content : ℕ → Str) (count : ℕ) (pieces : List Piece) : Prop :=
  ∀ pasteId, 1 ≤ pasteId → pasteId ≤ count → ∀ before after : List Piece, pieces = before ++ .marker pasteId :: after →
      NoMarker pasteId (fill content pasteId before) ∧ NoMarker pasteId (fill content pasteId after)

@[simp] theorem fill_append (content : ℕ → Str) (below : ℕ) (pieces pieces' : List Piece) :
    fill content below (pieces ++ pieces') = fill content below pieces ++ fill content below pieces' :=
  flatMap_append

theorem fill_cons (content : ℕ → Str) (below : ℕ) (piece : Piece) (pieces : List Piece) :
    fill content below (piece :: pieces) = piece.fill content below ++ fill content below pieces := rfl

variable {count : ℕ} {content : ℕ → Str} {pieces : List Piece}

theorem fill_congr {content' : ℕ → Str} (below : ℕ)
    (h : ∀ pasteId, Piece.marker pasteId ∈ pieces → content pasteId = content' pasteId) :
    fill content below pieces = fill content' below pieces := by
  refine flatMap_congr fun piece hpiece => ?_
  cases piece with
  | typed c => rfl
  | marker pasteId => rw [Piece.fill, Piece.fill, h pasteId hpiece]

/-- Replacing one more paste changes nothing where its marker is not. -/
theorem fill_succ_of_notMem (h : Piece.marker pasteId ∉ pieces) :
    fill content (pasteId + 1) pieces = fill content pasteId pieces := by
  refine flatMap_congr fun piece hpiece => ?_
  cases piece with
  | typed c => rfl
  | marker other =>
    have hne : other ≠ pasteId := fun heq => h (heq ▸ hpiece)
    have hiff : other < pasteId + 1 ↔ other < pasteId := by omega
    simp only [Piece.fill, hiff]

theorem Numbered.of_mem (h : Numbered count pieces)
    (hmem : Piece.marker pasteId ∈ pieces) : 1 ≤ pasteId ∧ pasteId ≤ count := by
  have hcount := h pasteId
  have hpos := count_pos_iff.2 hmem
  split_ifs at hcount with hle
  · exact hle
  · omega

theorem fill_eq_expanded (h : Numbered count pieces) : fill content (count + 1) pieces = expanded content pieces := by
  refine flatMap_congr fun piece hpiece => ?_
  cases piece with
  | typed c => rfl
  | marker pasteId => rw [Piece.fill, if_pos (Nat.lt_succ_of_le (h.of_mem hpiece).2), Piece.expanded]

/-- **One paste more is replaced.** -/
theorem replacePasteMarker_fill (hnumbered : Numbered count pieces) (hclean : Clean content count pieces)
    (hpos : 1 ≤ pasteId)
    (hle : pasteId ≤ count) :
    replacePasteMarker (fill content pasteId pieces) pasteId (content pasteId) = fill content (pasteId + 1) pieces := by
  have hone := hnumbered pasteId
  rw [if_pos ⟨hpos, hle⟩] at hone
  obtain ⟨before, after, rfl⟩ := append_of_mem (count_pos_iff.1 (by omega : 0 < pieces.count (.marker pasteId)))
  obtain ⟨hbefore, hafter⟩ := hclean pasteId hpos hle before after rfl
  rw [count_append, count_cons_self] at hone
  rw [fill_append, fill_cons, fill_append, fill_cons,
    fill_succ_of_notMem (count_eq_zero.1 (by omega : before.count (.marker pasteId) = 0)),
    fill_succ_of_notMem (count_eq_zero.1 (by omega : after.count (.marker pasteId) = 0)),
    Piece.fill, Piece.fill, if_neg (lt_irrefl _), if_pos (Nat.lt_succ_self _), ← append_assoc,
    ← append_assoc]
  exact replacePasteMarker_eq hbefore hafter

/-- **All markers are replaced at once if no other is met on the way.** -/
theorem expandPasteMarkers_eq (hnumbered : Numbered count pieces) (hclean : Clean content count pieces) :
    expandPasteMarkers ((range' 1 count).map fun pasteId => (pasteId, content pasteId))
      (fill content 1 pieces) = expanded content pieces := by
  have hrun : ∀ n ≤ count, expandPasteMarkers ((range' 1 n).map fun pasteId => (pasteId, content pasteId))
        (fill content 1 pieces) = fill content (n + 1) pieces := by
    intro n
    induction n with
    | zero => exact fun _ => rfl
    | succ n ih =>
      intro hle
      have hrest := ih (by omega)
      rw [expandPasteMarkers] at hrest
      rw [range'_1_concat, map_append, expandPasteMarkers, foldl_append, hrest, Nat.add_comm 1 n]
      exact replacePasteMarker_fill hnumbered hclean (Nat.succ_pos n) hle
  rw [hrun count le_rfl, fill_eq_expanded hnumbered]

end Tui
