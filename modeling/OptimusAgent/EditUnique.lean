/-
**Is an accepted edit unambiguous?**

An edit is refused if its old text is found more than once.  What is counted are the matches of the
normalised old text in the normalised content, one after the other, so that matches which overlap
count once.  And an old text of blanks normalises to nothing; then the units of the content are
counted.
-/

import OptimusAgent.EditDiff

namespace Tools

open Str Checked List

/-! ### Blanks at line ends -/

/-- The text without blanks at line ends. -/
def trimLines (text : Str) : Str := unlines ((text.splitOn '\n').map fun line => line.rdropWhile isWhitespace)

/-- The first line is blank. -/
def blankLine (text : Str) : Bool := ((text.splitOn '\n').headD []).all isWhitespace

variable {c : Char} {s t v : Str}

theorem splitOn_newline (s : Str) : ('\n' :: s).splitOn '\n' = [] :: s.splitOn '\n' := by
  rw [splitOn_cons_eq_if_modifyHead, if_pos BEq.rfl]

/-- The lines of a text with one more character in front. -/
theorem exists_splitOn_cons (hc : c ≠ '\n') (s : Str) : ∃ line lines,
    s.splitOn '\n' = line :: lines ∧ (c :: s).splitOn '\n' = (c :: line) :: lines := by
  obtain ⟨line, lines, hlines⟩ := exists_cons_of_ne_nil (splitOn_ne_nil '\n' s)
  refine ⟨line, lines, hlines, ?_⟩
  rw [splitOn_cons_eq_if_modifyHead, if_neg (by simpa using hc), hlines, modifyHead_cons]

theorem rdropWhile_cons (p : Char → Bool) (c : Char) (s : Str) :
    (c :: s).rdropWhile p = if p c && s.all p then [] else c :: s.rdropWhile p := by
  rw [rdropWhile, rdropWhile, reverse_cons, dropWhile_append]
  by_cases hall : ∀ x ∈ s, p x = true
  · have hnil : s.reverse.dropWhile p = [] := dropWhile_eq_nil_iff.2 (by simpa using hall)
    cases hc : p c <;> simp [hnil, all_eq_true.2 hall, hc]
  · have hsome : s.reverse.dropWhile p ≠ [] := fun h => hall (by simpa using dropWhile_eq_nil_iff.1 h)
    have hnot : s.all p = false := Bool.eq_false_iff.2 fun h => hall (all_eq_true.1 h)
    simp [hsome, hnot]

theorem blankLine_cons (c : Char) (s : Str) :
    blankLine (c :: s) = true ↔ c = '\n' ∨ isWhitespace c = true ∧ blankLine s = true := by
  by_cases hc : c = '\n'
  · simp [hc, blankLine, splitOn_newline]
  · obtain ⟨line, lines, hlines, hcons⟩ := exists_splitOn_cons hc s
    simp [hc, blankLine, hlines, hcons]

/-- A character is dropped if it and the rest of its line are blank. -/
theorem trimLines_cons (c : Char) (s : Str) : trimLines (c :: s) =
    if c ≠ '\n' ∧ isWhitespace c = true ∧ blankLine s = true then trimLines s else c :: trimLines s := by
  by_cases hc : c = '\n'
  · obtain ⟨line, lines, hlines⟩ := exists_cons_of_ne_nil (splitOn_ne_nil '\n' s)
    simp [hc, trimLines, splitOn_newline, hlines, unlines_cons_cons]
  · obtain ⟨line, lines, hlines, hcons⟩ := exists_splitOn_cons hc s
    rw [trimLines, trimLines, blankLine, hlines, hcons, map_cons, map_cons, rdropWhile_cons, unlines_cons,
      unlines_cons, headD_cons]
    simp only [ne_eq, hc, not_false_eq_true, true_and, Bool.and_eq_true]
    split_ifs with hblank
    · rw [rdropWhile_eq_nil_iff.2 (all_eq_true.1 hblank.2)]
    · rfl

theorem blankLine_of_append (h : blankLine (s ++ t) = true) : blankLine s = true := by
  induction s with
  | nil => rfl
  | cons c s ih =>
    rw [cons_append, blankLine_cons] at h
    rw [blankLine_cons]
    exact h.imp_right fun h => ⟨h.1, ih h.2⟩

/-- A blank line that goes on with something else is the last one. -/
theorem trimLines_of_blankLine (h : blankLine s = true) (hmore : blankLine (s ++ t) ≠ true) : trimLines s = [] := by
  induction s with
  | nil => rfl
  | cons c s ih =>
    rw [cons_append, Ne, blankLine_cons, not_or] at hmore
    have hblank := ((blankLine_cons c s).1 h).resolve_left hmore.1
    rw [trimLines_cons, if_pos ⟨hmore.1, hblank⟩]
    exact ih hblank.2 fun hall => hmore.2 ⟨hblank.1, hall⟩

/-- What is left of the second part stands behind what is left of the first one. -/
theorem trimLines_append (s t : Str) : ∃ front, trimLines (s ++ t) = front ++ trimLines t ∧ trimLines s <+: front := by
  induction s with
  | nil => exact ⟨[], rfl, nil_prefix⟩
  | cons c s ih =>
    obtain ⟨front, happend, hfront⟩ := ih
    rw [cons_append, trimLines_cons, trimLines_cons]
    split_ifs with hdrop hdrop' hdrop'
    · exact ⟨front, happend, hfront⟩
    · exact absurd ⟨hdrop.1, hdrop.2.1, blankLine_of_append hdrop.2.2⟩ hdrop'
    · -- the line goes on behind the first part
      refine ⟨c :: front, by rw [happend, cons_append], ?_⟩
      rw [trimLines_of_blankLine hdrop'.2.2 fun hall => hdrop ⟨hdrop'.1, hdrop'.2.1, hall⟩]
      exact nil_prefix
    · exact ⟨c :: front, by rw [happend, cons_append], (prefix_cons_inj _).2 hfront⟩

theorem blankLine_trimLines (s : Str) : blankLine (trimLines s) = true ↔ blankLine s = true := by
  induction s with
  | nil => rfl
  | cons c s ih =>
    rw [trimLines_cons, blankLine_cons]
    split_ifs with hdrop
    · exact iff_of_true (ih.2 hdrop.2.2) (.inr hdrop.2)
    · rw [blankLine_cons, ih]

theorem trimLines_idem (s : Str) : trimLines (trimLines s) = trimLines s := by
  induction s with
  | nil => rfl
  | cons c s ih =>
    rw [trimLines_cons]
    split_ifs with hdrop
    · exact ih
    · simp only [trimLines_cons, blankLine_trimLines, if_neg hdrop, ih]

/-! ### The normalised text -/

/-- A character, replaced if it belongs to a class. -/
def replaceChar (inClass : ℕ → Bool) (d x : Char) : Char := if inClass x.toNat then d else x

/-- The character that one is taken for. -/
def normalizeChar (c : Char) : Char := replaceChar isUnicodeSpace ' ' (replaceChar isUnicodeDash '-'
    (replaceChar isSmartDoubleQuote (Char.ofNat 0x22) (replaceChar isSmartSingleQuote (Char.ofNat 0x27) c)))

theorem normalizeForFuzzyMatch_eq (text : Str) : normalizeForFuzzyMatch text = (trimLines text).map normalizeChar := by
  simp only [normalizeForFuzzyMatch, replaceClass, map_map]
  rfl

/-- Blanks are replaced by blanks, other characters by others, and newlines stay. -/
structure KeepsBlanks (f : Char → Char) : Prop where
  blank : ∀ x, isWhitespace (f x) = isWhitespace x
  newline : ∀ x, f x = '\n' ↔ x = '\n'

theorem KeepsBlanks.comp {f g : Char → Char} (hf : KeepsBlanks f) (hg : KeepsBlanks g) : KeepsBlanks (f ∘ g) :=
  ⟨fun x => (hf.blank _).trans (hg.blank x), fun x => (hf.newline _).trans (hg.newline x)⟩

theorem keepsBlanks_replaceChar {inClass : ℕ → Bool} {d : Char} (hd : d ≠ '\n')
    (h : ∀ x : Char, inClass x.toNat = true → isWhitespace x = isWhitespace d ∧ x.toNat ≠ 10) :
    KeepsBlanks (replaceChar inClass d) := by
  constructor
  · intro x
    unfold replaceChar
    split_ifs with hx
    · exact (h x hx).1.symm
    · rfl
  · intro x
    unfold replaceChar
    split_ifs with hx
    · refine iff_of_false hd ?_
      rintro rfl
      exact (h _ hx).2 rfl
    · exact Iff.rfl

theorem keepsBlanks_normalizeChar : KeepsBlanks normalizeChar := by
  have hspace : KeepsBlanks (replaceChar isUnicodeSpace ' ') := by
    refine keepsBlanks_replaceChar (by decide) fun x hx => ?_
    simp only [isUnicodeSpace, Bool.or_eq_true, Bool.and_eq_true, decide_eq_true_eq, beq_iff_eq] at hx
    refine ⟨?_, by omega⟩
    simp [isWhitespace]
    omega
  -- quotes and dashes
  have hother : ∀ {inClass : ℕ → Bool} {d : Char}, isWhitespace d = false →
      (∀ n, inClass n = true → 0x2010 ≤ n ∧ n ≤ 0x201F ∨ n = 0x2212) →
      KeepsBlanks (replaceChar inClass d) := by
    intro inClass d hd hclass
    refine keepsBlanks_replaceChar (by rintro rfl; cases hd) fun x hx => ?_
    have hrange := hclass _ hx
    refine ⟨?_, by omega⟩
    rw [hd]
    simp [isWhitespace]
    omega
  refine hspace.comp ((hother rfl fun n => ?_).comp ((hother rfl fun n => ?_).comp (hother rfl fun n => ?_)))
  · simp only [isUnicodeDash, Bool.or_eq_true, Bool.and_eq_true, decide_eq_true_eq, beq_iff_eq]
    omega
  · simp only [isSmartDoubleQuote, Bool.and_eq_true, decide_eq_true_eq]
    omega
  · simp only [isSmartSingleQuote, Bool.and_eq_true, decide_eq_true_eq]
    omega

theorem normalizeChar_idem : normalizeChar ∘ normalizeChar = normalizeChar := by
  funext c
  rw [Function.comp_apply]
  have hfixed : ∀ d ∈ [' ', '-', Char.ofNat 0x22, Char.ofNat 0x27], normalizeChar d = d := by
    simp [normalizeChar, replaceChar, isUnicodeSpace, isUnicodeDash, isSmartDoubleQuote, isSmartSingleQuote]
  have hcases : normalizeChar c = c ∨ normalizeChar c ∈ [' ', '-', Char.ofNat 0x22, Char.ofNat 0x27] := by
    unfold normalizeChar replaceChar
    split_ifs <;> simp
  rcases hcases with h | h
  · rw [h, h]
  · exact hfixed _ h

theorem trimLines_map {f : Char → Char} (hf : KeepsBlanks f) (s : Str) :
    trimLines (s.map f) = (trimLines s).map f ∧ (blankLine (s.map f) = true ↔ blankLine s = true) := by
  induction s with
  | nil => exact ⟨rfl, Iff.rfl⟩
  | cons c s ih =>
    simp only [map_cons, trimLines_cons, blankLine_cons, ne_eq, hf.newline, hf.blank, ih.1, ih.2, and_true]
    split_ifs <;> rfl

/-- Normalising twice is normalising once. -/
theorem normalizeForFuzzyMatch_idem (text : Str) :
    normalizeForFuzzyMatch (normalizeForFuzzyMatch text) = normalizeForFuzzyMatch text := by
  simp only [normalizeForFuzzyMatch_eq]
  rw [(trimLines_map keepsBlanks_normalizeChar _).1, trimLines_idem, map_map, normalizeChar_idem]

/-- The parts of a text can be found in the normalised text, one behind the other. -/
theorem normalizeForFuzzyMatch_append (s t : Str) : ∃ front,
    normalizeForFuzzyMatch (s ++ t) = front ++ normalizeForFuzzyMatch t ∧ normalizeForFuzzyMatch s <+: front := by
  obtain ⟨front, happend, hfront⟩ := trimLines_append s t
  simp only [normalizeForFuzzyMatch_eq, happend, map_append]
  exact ⟨_, rfl, hfront.map normalizeChar⟩

/-! ### Counting matches -/

variable {base content path : Str} {edits : List Edit} {result : AppliedEditsResult}

theorem countMatchesFrom_pos (hv : v ≠ []) (h : v <:+: s) {fuel : ℕ} (hfuel : s.length ≤ fuel) :
    1 ≤ countMatchesFrom v fuel s := by
  induction fuel generalizing s with
  | zero =>
    rw [length_eq_zero_iff.1 (Nat.le_zero.1 hfuel), infix_nil] at h
    exact absurd h hv
  | succ fuel ih =>
    cases s with
    | nil => exact absurd (infix_nil.1 h) hv
    | cons x s =>
      rw [countMatchesFrom]
      split_ifs with hfront
      · exact Nat.le_add_right 1 _
      · exact ih ((infix_cons_iff.1 h).resolve_left hfront) (Nat.le_of_succ_le_succ hfuel)

/-- Two matches that do not overlap are counted as two. -/
theorem two_le_countMatchesFrom (hv : v ≠ []) {before after : Str} (hafter : v <:+: after) {fuel : ℕ}
    (hfuel : (before ++ v ++ after).length ≤ fuel) : 2 ≤ countMatchesFrom v fuel (before ++ v ++ after) := by
  induction fuel generalizing before with
  | zero => simp [hv] at hfuel
  | succ fuel ih =>
    have hdrop : v <:+: (before ++ v ++ after).drop v.length := by
      rw [drop_append_of_le_length (by simp)]
      exact hafter.trans (suffix_append _ _).isInfix
    have hlength : ((before ++ v ++ after).drop v.length).length ≤ fuel := by
      have hpos := length_pos_iff.2 hv
      rw [length_drop]
      omega
    cases hs : before ++ v ++ after with
    | nil => simp [hv] at hs
    | cons x rest =>
      rw [countMatchesFrom, ← hs]
      split_ifs with hfront
      · have hmore := countMatchesFrom_pos hv hdrop hlength
        omega
      · -- the first match is behind the first character
        cases before with
        | nil => exact absurd ⟨after, rfl⟩ hfront
        | cons y before =>
          cases hs
          exact ih (Nat.le_of_succ_le_succ hfuel)

/-- Two places of the normalised text that do not overlap are counted as two. -/
theorem two_le_countOccurrences {before after : Str} (hv : normalizeForFuzzyMatch v ≠ [])
    (hbase : normalizeForFuzzyMatch base = before ++ normalizeForFuzzyMatch v ++ after)
    (hafter : normalizeForFuzzyMatch v <:+: after) : 2 ≤ countOccurrences base v := by
  simp only [countOccurrences, List.isEmpty_iff, if_neg hv, countMatches]
  rw [hbase]
  exact two_le_countMatchesFrom hv hafter le_rfl

theorem normalizeForFuzzyMatch_mono (h : v <:+: s) : normalizeForFuzzyMatch v <:+: normalizeForFuzzyMatch s := by
  obtain ⟨a, b, rfl⟩ := h
  obtain ⟨front, hfront, -⟩ := normalizeForFuzzyMatch_append a (v ++ b)
  obtain ⟨front', hfront', hv⟩ := normalizeForFuzzyMatch_append v b
  rw [append_assoc, hfront, hfront']
  exact hv.isInfix.trans ((prefix_append _ _).isInfix.trans (suffix_append _ _).isInfix)

/-! ### The accepted edits -/

/-- What an edit is matched by: its old text if it occurs, or else the normalised one. -/
def matchedForm (base : Str) (edit : Edit) : Str :=
  if normalizeToLf edit.oldText <:+: base then normalizeToLf edit.oldText
  else normalizeForFuzzyMatch (normalizeToLf edit.oldText)

/-- A text that is not empty occurs at one place. -/
def Unambiguous (base form : Str) : Prop := form ≠ [] ∧ ∃! before, ∃ after, base = before ++ form ++ after

/-- The old text has nothing but blanks, and normalises to nothing. -/
def Blank (edit : Edit) : Prop := normalizeForFuzzyMatch (normalizeToLf edit.oldText) = []

/-- Two occurrences of a text do not overlap. -/
def Apart (base form : Str) : Prop := ∀ before before' after after', base = before ++ form ++ after →
  base = before' ++ form ++ after' → before.length < before'.length →
  before.length + form.length ≤ before'.length

theorem matchedForm_ne_nil {edit : Edit} (h : ¬ Blank edit) : matchedForm base edit ≠ [] := by
  unfold matchedForm
  split_ifs
  · intro hnil
    rw [Blank, hnil] at h
    exact h rfl
  · exact h

theorem textBefore_eq_none_iff : textBefore v s = none ↔ ¬ v <:+: s := by
  constructor
  · intro hnone hv
    obtain ⟨before, hbefore⟩ := exists_textBefore hv
    rw [hnone] at hbefore
    cases hbefore
  · intro hv
    cases h : textBefore v s with
    | none => rfl
    | some before =>
      obtain ⟨after, rfl⟩ := exists_of_textBefore h
      exact absurd ⟨before, after, rfl⟩ hv

/-- What is found, literally or after normalising. -/
theorem fuzzyFindText_cases (base v : Str) : (v <:+: base ∧ (fuzzyFindText base v).usedFuzzyMatch = false) ∨
    (¬ v <:+: base ∧ (fuzzyFindText base v).found = (fuzzyFindText base v).usedFuzzyMatch ∧
      ((fuzzyFindText base v).found = true → normalizeForFuzzyMatch v <:+: normalizeForFuzzyMatch base)) := by
  rw [fuzzyFindText]
  cases hbefore : textBefore v base with
  | some before =>
    obtain ⟨after, rfl⟩ := exists_of_textBefore hbefore
    exact .inl ⟨⟨before, after, rfl⟩, rfl⟩
  | none =>
    refine .inr ⟨textBefore_eq_none_iff.1 hbefore, ?_⟩
    dsimp only
    cases hfuzzy : textBefore (normalizeForFuzzyMatch v) (normalizeForFuzzyMatch base) with
    | none => exact ⟨rfl, fun h => absurd h Bool.false_ne_true⟩
    | some before =>
      obtain ⟨after, hafter⟩ := exists_of_textBefore hfuzzy
      exact ⟨rfl, fun _ => ⟨before, after, hafter.symm⟩⟩

theorem matchEdit_of_forall₂ {total : ℕ} {spots : List (Edit × ℕ)} {ms : List MatchedEdit}
    (h : Forall₂ (fun edit m => matchEdit base path total edit = .ok m) spots ms) :
    ∀ edit ∈ spots, (fuzzyFindText base edit.1.oldText).found = true ∧ countOccurrences base edit.1.oldText ≤ 1 := by
  induction h with
  | nil => simp
  | cons hm _ ih =>
    refine forall_mem_cons.2 ⟨?_, ih⟩
    simp only [matchEdit, rejectIf_bind_eq_ok, not_lt, Bool.not_eq_false] at hm
    exact ⟨hm.1, hm.2.1⟩

/-- What is known of edits that are accepted. -/
theorem applyEdits_eq_ok (hok : applyEditsToNormalizedContent content edits path = .ok result) :
    (∀ e ∈ edits, (fuzzyFindText result.baseContent (normalizeToLf e.oldText)).found = true ∧
      countOccurrences result.baseContent (normalizeToLf e.oldText) ≤ 1) ∧
    (result.baseContent = normalizeForFuzzyMatch content ∨
      ∀ e ∈ edits, normalizeToLf e.oldText <:+: result.baseContent) := by
  unfold applyEditsToNormalizedContent at hok
  obtain ⟨-, -, hok⟩ := bind_eq_ok.1 hok
  dsimp only at hok
  generalize hany : ((edits.map normalizeEdit).map fun edit => fuzzyFindText content edit.oldText).any
    (·.usedFuzzyMatch) = fuzzy at hok
  obtain ⟨ms, hms, hok⟩ := bind_eq_ok.1 hok
  obtain ⟨-, rfl⟩ := replaceMatched_eq_ok hok
  have hfound := (forall_mem_zipIdx_iff fun edit => (fuzzyFindText _ edit.oldText).found = true ∧
    countOccurrences _ edit.oldText ≤ 1).1 (matchEdit_of_forall₂ (mapM_eq_ok_iff.1 hms))
  refine ⟨hfound, ?_⟩
  cases fuzzy with
  | true => exact .inl rfl
  | false =>
    refine .inr fun e he => ?_
    have hexact : (fuzzyFindText content (normalizeToLf e.oldText)).usedFuzzyMatch = false :=
      Bool.eq_false_iff.2 (any_eq_false.1 hany _ (mem_map_of_mem (mem_map_of_mem he)))
    rcases fuzzyFindText_cases content (normalizeToLf e.oldText) with ⟨hoccurs, -⟩ | ⟨-, hsame, -⟩
    · exact hoccurs
    · exact absurd ((hsame.trans hexact).symm.trans (hfound e he).1) Bool.false_ne_true

/-- The form of an accepted edit occurs, and twice only if it overlaps itself or is blank. -/
theorem matchedForm_occurs {e : Edit}
    (hfound : (fuzzyFindText base (normalizeToLf e.oldText)).found = true)
    (hcount : countOccurrences base (normalizeToLf e.oldText) ≤ 1)
    (hbase : normalizeForFuzzyMatch base = base ∨ normalizeToLf e.oldText <:+: base) :
    matchedForm base e <:+: base ∧ (normalizeForFuzzyMatch (normalizeToLf e.oldText) ≠ [] →
      ∀ before after, base = before ++ matchedForm base e ++ after → ¬ matchedForm base e <:+: after) := by
  unfold matchedForm
  generalize normalizeToLf e.oldText = v at hfound hcount hbase ⊢
  split_ifs with hliteral
  · refine ⟨hliteral, fun hblank before after heq hafter => ?_⟩
    obtain ⟨front, hfront, -⟩ := normalizeForFuzzyMatch_append before (v ++ after)
    obtain ⟨front', hfront', rest, hrest⟩ := normalizeForFuzzyMatch_append v after
    have hplace : normalizeForFuzzyMatch base =
        front ++ normalizeForFuzzyMatch v ++ (rest ++ normalizeForFuzzyMatch after) := by
      rw [heq, append_assoc, hfront, hfront', ← hrest]
      simp only [append_assoc]
    have htwo := two_le_countOccurrences hblank hplace
      ((normalizeForFuzzyMatch_mono hafter).trans (suffix_append _ _).isInfix)
    omega
  · have hidem := hbase.resolve_right hliteral
    rcases fuzzyFindText_cases base v with ⟨hoccurs, -⟩ | ⟨-, -, hfuzzy⟩
    · exact absurd hoccurs hliteral
    · refine ⟨hidem ▸ hfuzzy hfound, fun hblank before after heq hafter => ?_⟩
      have htwo := two_le_countOccurrences hblank (hidem.trans heq) hafter
      omega

/-- **Accepted edits of old texts that are not blank are unambiguous** exactly if no form overlaps
itself. -/
theorem unambiguous_iff_apart (hok : applyEditsToNormalizedContent content edits path = .ok result)
    (hblank : ∀ e ∈ edits, ¬ Blank e) :
    (∀ e ∈ edits, Unambiguous result.baseContent (matchedForm result.baseContent e)) ↔
      ∀ e ∈ edits, Apart result.baseContent (matchedForm result.baseContent e) := by
  obtain ⟨haccepted, hbase⟩ := applyEdits_eq_ok hok
  generalize result.baseContent = base at haccepted hbase ⊢
  refine forall₂_congr fun e he => ⟨fun h => ?_, fun hapart => ?_⟩
  · intro before before' after after' heq heq' hlt
    exact absurd (congrArg length (h.2.unique ⟨after, heq⟩ ⟨after', heq'⟩)) hlt.ne
  · have hidem : normalizeForFuzzyMatch base = base ∨ normalizeToLf e.oldText <:+: base := by
      rcases hbase with rfl | hliteral
      · exact .inl (normalizeForFuzzyMatch_idem content)
      · exact .inr (hliteral e he)
    obtain ⟨⟨before, after, hoccurs⟩, honce⟩ := matchedForm_occurs (haccepted e he).1 (haccepted e he).2 hidem
    refine ⟨matchedForm_ne_nil (hblank e he), before, ⟨after, hoccurs.symm⟩, ?_⟩
    replace honce := honce (hblank e he)
    generalize matchedForm base e = form at hoccurs honce hapart ⊢
    have hnot : ∀ b b' a a', base = b ++ form ++ a → base = b' ++ form ++ a' → ¬ b.length < b'.length := by
      intro b b' a a' heq heq' hlt
      refine honce b a heq ?_
      have hlength := hapart b b' a a' heq heq' hlt
      rw [← length_append] at hlength
      obtain ⟨gap, rfl⟩ : b ++ form <+: b' :=
        prefix_of_prefix_length_le ⟨a, heq.symm⟩ ⟨form ++ a', by rw [← append_assoc, ← heq']⟩ hlength
      have hsame : b ++ form ++ a = b ++ form ++ (gap ++ form ++ a') :=
        (heq.symm.trans heq').trans (by simp only [append_assoc])
      exact ⟨gap, a', (append_cancel_left hsame).symm⟩
    rintro before' ⟨after', hoccurs'⟩
    have hlength : before'.length = before.length :=
      le_antisymm (not_lt.1 (hnot _ _ _ _ hoccurs.symm hoccurs')) (not_lt.1 (hnot _ _ _ _ hoccurs' hoccurs.symm))
    have hsame := hoccurs'.symm.trans hoccurs.symm
    rw [append_assoc, append_assoc] at hsame
    exact append_inj_left hsame hlength

/-- An old text that occurs once, behind another character. -/
def onceEdit : Edit := ⟨"ab", "x"⟩

theorem unambiguous_iff_apart_once :
    applyEditsToNormalizedContent "cab" [onceEdit] "f" = .ok ⟨"cab", "cx"⟩ ∧
      Unambiguous "cab" (matchedForm "cab" onceEdit) := by
  have hok : applyEditsToNormalizedContent "cab" [onceEdit] "f" = .ok ⟨"cab", "cx"⟩ := by decide +kernel
  have hform : matchedForm "cab" onceEdit = "ab" := by decide +kernel
  have hblank : ∀ e ∈ [onceEdit], ¬ Blank e := by
    unfold Blank
    decide +kernel
  refine ⟨hok, (unambiguous_iff_apart hok hblank).2 (forall_mem_singleton.2 ?_) onceEdit mem_cons_self⟩
  rw [hform]
  intro before before' after after' heq heq' hlt
  -- the content begins with another character, and has no room for a second place
  cases before with
  | nil => cases heq
  | cons c before =>
    have hlength : 3 = before'.length + (after'.length + 1 + 1) := by simpa using congrArg length heq'
    rw [length_cons] at hlt
    omega

/-- An old text that overlaps itself, twice in the content. -/
def overlapEdit : Edit := ⟨"aba", "x"⟩

theorem overlap_accepted : applyEditsToNormalizedContent "ababa" [overlapEdit] "f" = .ok ⟨"ababa", "xba"⟩ := by
  decide +kernel

/-- The edit is accepted, and its old text occurs at two places. -/
theorem overlap_ambiguous :
    applyEditsToNormalizedContent "ababa" [overlapEdit] "f" = .ok ⟨"ababa", "xba"⟩ ∧
      ¬ Unambiguous "ababa" (matchedForm "ababa" overlapEdit) := by
  refine ⟨overlap_accepted, fun h => ?_⟩
  have hform : matchedForm "ababa" overlapEdit = "aba" := by decide +kernel
  rw [hform] at h
  exact absurd (h.2.unique ⟨"ba", rfl⟩ ⟨"", rfl⟩) (by decide : ("" : Str) ≠ "ab")

end Tools
