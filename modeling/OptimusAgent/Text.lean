/-
**Text, as the wire formats read it.**

A Rust `&str` is a sequence of Unicode scalar values, and so is a list of Lean characters.  Here are
the operations of the standard library that codecs are written with: byte lengths, splitting at the
first separator, stripping, trimming, and printing and parsing unsigned integers.  Lines are written
joined with newlines; reading them back tolerates a single trailing newline and one carriage return
at the end of each line.
-/

import Mathlib

/-- Text: a list of Unicode scalar values. -/
abbrev Str := List Char

instance Str.lawfulBEq : LawfulBEq Str := inferInstance

/-- A string literal stands for the text it spells. -/
instance : Coe String Str := ⟨String.toList⟩

namespace Str

open List Nat

/-! ### Length in bytes -/

/-- The number of UTF-8 bytes of a text: `str::len`. -/
def byteLen (s : Str) : ℕ := (s.map Char.utf8Size).sum

@[simp] theorem byteLen_cons (c : Char) (s : Str) : byteLen (c :: s) = c.utf8Size + byteLen s := by simp [byteLen]

@[simp] theorem byteLen_append (s t : Str) : byteLen (s ++ t) = byteLen s + byteLen t := by simp [byteLen]

theorem byteLen_flatMap {α : Type} (f : α → Str) (l : List α) :
    byteLen (l.flatMap f) = (l.map fun x => byteLen (f x)).sum := by
  induction l with
  | nil => rfl
  | cons x l ih => rw [flatMap_cons, byteLen_append, ih, map_cons, sum_cons]

theorem byteLen_replicate (n : ℕ) (c : Char) : byteLen (replicate n c) = n * c.utf8Size := by simp [byteLen]

variable {c : Char} {s k v p : Str} {n bound : ℕ}

/-- An ASCII character takes one byte. -/
theorem utf8Size_of_lt (h : c.toNat < 128) : c.utf8Size = 1 := by
  have hval : c.val ≤ 0x7f := by
    have hlt : c.val.toNat < 128 := h
    exact UInt32.le_iff_toNat_le.2 (by simpa using le_of_lt_succ hlt)
  simp [Char.utf8Size, hval]

/-- A text of ASCII characters has as many bytes as characters. -/
theorem byteLen_eq_length (h : ∀ c ∈ s, c.toNat < 128) : byteLen s = s.length := by
  induction s with
  | nil => rfl
  | cons c s ih =>
    rw [forall_mem_cons] at h
    rw [byteLen_cons, utf8Size_of_lt h.1, ih h.2, length_cons, add_comm]

/-- Dropping characters never adds bytes. -/
theorem byteLen_le_of_sublist {t : Str} (h : s.Sublist t) : byteLen s ≤ byteLen t := by
  induction h with
  | slnil => simp
  | cons c _ ih => rw [byteLen_cons]; omega
  | cons_cons c _ ih => rw [byteLen_cons, byteLen_cons]; omega

/-! ### Character classes -/

/-- The C0 and C1 control characters: `char::is_control`. -/
def isControl (c : Char) : Bool := c.toNat < 0x20 || (0x7f ≤ c.toNat && c.toNat ≤ 0x9f)

/-- Some character of the text is a control character. -/
def hasControl (s : Str) : Bool := s.any isControl

/-- A control character is not among the characters of a text without any. -/
theorem notMem_of_hasControl_false (h : hasControl s = false) (hc : isControl c = true) : c ∉ s := by
  intro hmem
  have hany : hasControl s = true := any_eq_true.2 ⟨c, hmem, hc⟩
  rw [h] at hany
  exact Bool.false_ne_true hany

/-- The Unicode `White_Space` property: `char::is_whitespace`. -/
def isWhitespace (c : Char) : Bool :=
  (0x09 ≤ c.toNat && c.toNat ≤ 0x0d) || c.toNat == 0x20 || c.toNat == 0x85 || c.toNat == 0xa0 ||
    c.toNat == 0x1680 || (0x2000 ≤ c.toNat && c.toNat ≤ 0x200a) || c.toNat == 0x2028 ||
    c.toNat == 0x2029 || c.toNat == 0x202f || c.toNat == 0x205f || c.toNat == 0x3000

theorem isWhitespace_of_isDigit (h : c.isDigit = true) : isWhitespace c = false := by
  simp only [Char.isDigit, Bool.and_eq_true, decide_eq_true_eq] at h
  have h₁ : 48 ≤ c.toNat := h.1
  have h₂ : c.toNat ≤ 57 := h.2
  simp [isWhitespace]
  omega

/-! ### Splitting and stripping -/

/-- The text before and after the first occurrence of `c`: `str::split_once`. -/
def splitOnce (c : Char) : Str → Option (Str × Str)
  | [] => none
  | x :: s => if x = c then some ([], s) else (splitOnce c s).map fun p => (x :: p.1, p.2)

theorem splitOnce_append (v : Str) (h : c ∉ k) : splitOnce c (k ++ c :: v) = some (k, v) := by
  induction k with
  | nil => simp [splitOnce]
  | cons x k ih =>
    have hx : x ≠ c := fun e => h (by simp [e])
    have hk : c ∉ k := fun e => h (mem_cons_of_mem _ e)
    simp [splitOnce, hx, ih hk]

/-- Splitting at the first separator is exact: the two parts rebuild the text, and the first one
is free of the separator. -/
theorem splitOnce_eq_some_iff : splitOnce c s = some (k, v) ↔ s = k ++ c :: v ∧ c ∉ k := by
  constructor
  · intro h
    induction s generalizing k v with
    | nil => simp [splitOnce] at h
    | cons x s ih =>
      by_cases hx : x = c
      · simp only [splitOnce, hx, if_true, Option.some.injEq, Prod.mk.injEq] at h
        obtain ⟨rfl, rfl⟩ := h
        simp [hx]
      · simp only [splitOnce, hx, if_false, Option.map_eq_some_iff, Prod.mk.injEq] at h
        obtain ⟨p, hp, rfl, rfl⟩ := h
        obtain ⟨hs, hc⟩ := ih (k := p.1) (v := p.2) hp
        refine ⟨by rw [cons_append, ← hs], ?_⟩
        simpa [Ne.symm hx] using hc
  · rintro ⟨rfl, hk⟩
    exact splitOnce_append v hk

/-- The text before the first occurrence of `v`: `str::find`, and the slice up to there. -/
def textBefore (v : Str) : Str → Option Str
  | [] => if v = [] then some [] else none
  | x :: s => if v <+: x :: s then some [] else (textBefore v s).map (x :: ·)

theorem exists_of_textBefore {b : Str} (h : textBefore v s = some b) : ∃ r, s = b ++ v ++ r := by
  induction s generalizing b with
  | nil =>
    simp only [textBefore, Option.ite_none_right_eq_some, Option.some.injEq] at h
    obtain ⟨rfl, rfl⟩ := h
    exact ⟨[], rfl⟩
  | cons x s ih =>
    rw [textBefore] at h
    split_ifs at h with hv
    · cases h
      obtain ⟨r, hr⟩ := hv
      exact ⟨r, hr.symm⟩
    · obtain ⟨b', hb, rfl⟩ := Option.map_eq_some_iff.1 h
      obtain ⟨r, rfl⟩ := ih hb
      exact ⟨r, rfl⟩

/-- The text `v` occurs in `s` after `before`, and not earlier. -/
def IsFirst (v s before : Str) : Prop :=
  (∃ after, s = before ++ v ++ after) ∧ ∀ b after, s = b ++ v ++ after → before.length ≤ b.length

theorem isFirst_of_textBefore {before : Str} (h : textBefore v s = some before) : IsFirst v s before := by
  refine ⟨exists_of_textBefore h, ?_⟩
  induction s generalizing before with
  | nil =>
    intro b after hs
    rw [textBefore] at h
    split_ifs at h
    cases h
    exact zero_le _
  | cons x s ih =>
    intro b after hs
    rw [textBefore] at h
    split_ifs at h with hv
    · cases h
      exact zero_le _
    · obtain ⟨before, hb, rfl⟩ := Option.map_eq_some_iff.1 h
      cases b with
      | nil => exact absurd ⟨after, hs.symm⟩ hv
      | cons y b =>
        rw [cons_append, cons_append, cons_eq_cons] at hs
        exact succ_le_succ (ih hb b after hs.2)

theorem exists_textBefore (h : v <:+: s) : ∃ before, textBefore v s = some before := by
  induction s with
  | nil =>
    rw [infix_nil.1 h]
    exact ⟨[], rfl⟩
  | cons x s ih =>
    rw [textBefore]
    split_ifs with hv
    · exact ⟨[], rfl⟩
    · obtain ⟨before, hb⟩ := ih ((infix_cons_iff.1 h).resolve_left hv)
      exact ⟨x :: before, by rw [hb]; rfl⟩

/-- What follows `p` in the text, when the text starts with `p`: `str::strip_prefix`. -/
def stripPrefix : Str → Str → Option Str
  | [], s => some s
  | _ :: _, [] => none
  | x :: p, y :: s => if x = y then stripPrefix p s else none

theorem stripPrefix_eq_some_iff {r : Str} : stripPrefix p s = some r ↔ s = p ++ r := by
  induction p generalizing s with
  | nil => simp [stripPrefix]
  | cons x p ih =>
    cases s with
    | nil => simp [stripPrefix]
    | cons y s =>
      by_cases h : x = y
      · simp [stripPrefix, h, ih]
      · simp [stripPrefix, h, Ne.symm h]

@[simp] theorem stripPrefix_append (p r : Str) : stripPrefix p (p ++ r) = some r := stripPrefix_eq_some_iff.2 rfl

/-- Appending to a text that is no initial part of `p` does not make it start with `p`. -/
theorem stripPrefix_append_eq_none (h : stripPrefix p s = none) (hs : ¬ s <+: p)
    (t : Str) : stripPrefix p (s ++ t) = none := by
  cases hst : stripPrefix p (s ++ t) with
  | none => rfl
  | some r =>
    rw [stripPrefix_eq_some_iff] at hst
    rcases prefix_or_prefix_of_prefix (prefix_append s t) ⟨r, hst.symm⟩ with h' | h'
    · exact absurd h' hs
    · obtain ⟨r', rfl⟩ := h'
      simp at h

/-- The text without one final `c`, if it ends in one: `s.strip_suffix(c).unwrap_or(s)`. -/
def chopSuffix (c : Char) (s : Str) : Str := if s.getLast? = some c then s.dropLast else s

theorem chopSuffix_of_notMem (h : c ∉ s) : chopSuffix c s = s := by
  rw [chopSuffix, if_neg]
  intro hl
  exact h (mem_of_getLast? hl)

@[simp] theorem chopSuffix_append_self (c : Char) (s : Str) : chopSuffix c (s ++ [c]) = s := by simp [chopSuffix]

theorem chopSuffix_sublist (c : Char) (s : Str) : (chopSuffix c s).Sublist s := by
  unfold chopSuffix
  split
  · exact dropLast_sublist s
  · exact Sublist.refl s

/-- The text without leading and trailing white space: `str::trim`. -/
def trim (s : Str) : Str := (s.dropWhile isWhitespace).rdropWhile isWhitespace

/-- The maximal pieces without white space: `str::split_whitespace`. -/
def splitWhitespace (s : Str) : List Str := (s.splitOnP isWhitespace).filter (· ≠ [])

/-- A text free of white space is its own trimming. -/
theorem trim_of_forall (h : ∀ c ∈ s, isWhitespace c = false) : trim s = s := by
  have hdrop : s.dropWhile isWhitespace = s := by
    cases s with
    | nil => rfl
    | cons c s => simp [h c (by simp)]
  rw [trim, hdrop]
  rcases eq_nil_or_concat s with rfl | ⟨l, c, rfl⟩
  · rfl
  · have hc : isWhitespace c = false := h c (by simp)
    rw [concat_eq_append]
    exact rdropWhile_concat_neg _ _ _ (by simp [hc])

/-! ### Decimal numbers -/

/-- The decimal digits of a number: `to_string` of an unsigned integer. -/
def dec (n : ℕ) : Str := toDigits 10 n

theorem isDigit_of_mem_dec (h : c ∈ dec n) : c.isDigit = true := isDigit_of_mem_toDigits (by omega) (by omega) h

@[simp] theorem dec_ne_nil (n : ℕ) : dec n ≠ [] := toDigits_ne_nil

theorem all_isDigit_dec (n : ℕ) : (dec n).all Char.isDigit = true := all_eq_true.2 fun _ h => isDigit_of_mem_dec h

theorem ofDigitChars_dec (n : ℕ) : ofDigitChars 10 (dec n) 0 = n := ofDigitChars_ten_toDigits

theorem dec_injective : Function.Injective dec := by
  intro n m h
  rw [← ofDigitChars_dec n, ← ofDigitChars_dec m, h]

theorem toNat_lt_of_isDigit (h : c.isDigit = true) : c.toNat < 128 := by
  simp only [Char.isDigit, Bool.and_eq_true, decide_eq_true_eq] at h
  have hhigh : c.toNat ≤ 57 := h.2
  omega

/-- A number below a power of ten has at most as many bytes as the exponent says. -/
theorem byteLen_dec_le {k : ℕ} (hk : 0 < k) (h : n < 10 ^ k) : byteLen (dec n) ≤ k := by
  rw [byteLen_eq_length fun c hc => toNat_lt_of_isDigit (isDigit_of_mem_dec hc)]
  exact toDigits_length 10 n k hk h

/-- A character that is no digit does not occur in a decimal number. -/
theorem notMem_dec (h : c.isDigit = false) (n : ℕ) : c ∉ dec n := by
  intro hc
  have := isDigit_of_mem_dec hc
  rw [h] at this
  exact Bool.false_ne_true this

/-- A text parsed as an unsigned integer below `bound`: `str::parse` of an unsigned type.  One
leading `+` is accepted, a text without digits is not, and neither is a value out of range. -/
def parseUnsigned (bound : ℕ) (s : Str) : Option ℕ :=
  let digits := (stripPrefix ['+'] s).getD s
  if digits ≠ [] ∧ digits.all Char.isDigit = true then
    let n := ofDigitChars 10 digits 0
    if n < bound then some n else none
  else none

/-- On plain digits the parser reads the number they spell. -/
theorem parseUnsigned_of_digits (hne : s ≠ []) (hd : s.all Char.isDigit = true) : parseUnsigned bound s =
      if ofDigitChars 10 s 0 < bound then some (ofDigitChars 10 s 0) else none := by
  have hplus : stripPrefix ['+'] s = none := by
    cases s with
    | nil => exact absurd rfl hne
    | cons c s =>
      have hc : c.isDigit = true := by simp only [all_cons, Bool.and_eq_true] at hd; exact hd.1
      have : '+' ≠ c := by rintro rfl; simp at hc
      simp [stripPrefix, this]
  simp [parseUnsigned, hplus, hne, hd]

/-- Parsing undoes printing, below the bound of the type. -/
theorem parseUnsigned_dec (h : n < bound) : parseUnsigned bound (dec n) = some n := by
  rw [parseUnsigned_of_digits (dec_ne_nil n) (all_isDigit_dec n), ofDigitChars_dec, if_pos h]

theorem isDigit_of_parseUnsigned (h : parseUnsigned bound s = some n) (hc : c ∈ s) : c = '+' ∨ c.isDigit = true := by
  simp only [parseUnsigned] at h
  split_ifs at h with hdigits
  rw [all_eq_true] at hdigits
  cases hplus : stripPrefix ['+'] s with
  | none => exact .inr (hdigits.2 c (by rwa [hplus]))
  | some rest =>
    rw [stripPrefix_eq_some_iff.1 hplus, cons_append, mem_cons] at hc
    exact hc.imp_right fun hc => hdigits.2 c (by rwa [hplus])

theorem parseUnsigned_lt (h : parseUnsigned bound s = some n) : n < bound := by
  simp only [parseUnsigned] at h
  split at h
  · split at h
    · next hlt => simp only [Option.some.injEq] at h; omega
    · simp at h
  · simp at h

/-- `str::parse` at a type of machine integers: the numbers below `bound`. -/
def parseFin (bound : ℕ) (s : Str) : Option (Fin bound) :=
  match h : parseUnsigned bound s with
  | some n => some ⟨n, parseUnsigned_lt h⟩
  | none => none

theorem parseFin_eq_some_iff {n : Fin bound} : parseFin bound s = some n ↔ parseUnsigned bound s = some n.val := by
  unfold parseFin
  split
  · rename_i k h
    simp [h, Fin.ext_iff]
  · rename_i h
    simp [h]

@[simp] theorem parseFin_dec (n : Fin bound) : parseFin bound (dec n.val) = some n :=
  parseFin_eq_some_iff.2 (parseUnsigned_dec n.isLt)

@[simp] theorem parseUnsigned_nil (bound : ℕ) : parseUnsigned bound [] = none := by
  simp [parseUnsigned, stripPrefix]

/-- A text whose first character neither is a digit nor a plus sign is no number. -/
theorem parseUnsigned_cons_of_not_digit (s : Str)
    (hd : c.isDigit = false) (hp : c ≠ '+') : parseUnsigned bound (c :: s) = none := by
  have : stripPrefix ['+'] (c :: s) = none := by simp [stripPrefix, Ne.symm hp]
  simp [parseUnsigned, this, hd]

/-! ### Keys with an index -/

/-- The text ends in a digit. -/
def endsInDigit (s : Str) : Bool := (s.getLast?.map Char.isDigit).getD false

@[simp] theorem endsInDigit_append_dec (p : Str) (n : ℕ) : endsInDigit (p ++ dec n) = true := by
  obtain ⟨c, hc⟩ : ∃ c, (dec n).getLast? = some c := ⟨_, getLast?_eq_some_getLast (dec_ne_nil n)⟩
  have hmem : c ∈ dec n := mem_of_getLast? hc
  simp [endsInDigit, getLast?_append, hc, isDigit_of_mem_dec hmem]

/-- A key without an index is no key with one. -/
theorem append_dec_ne (hk : endsInDigit k = false) (n : ℕ) : p ++ dec n ≠ k := by
  rintro rfl
  simp at hk

theorem rtakeWhile_append_digits {ds : Str} (hp : endsInDigit p = false)
    (hds : ds.all Char.isDigit = true) : (p ++ ds).rtakeWhile Char.isDigit = ds := by
  have hall : ∀ c ∈ ds.reverse, Char.isDigit c = true := by
    intro c hc
    exact all_eq_true.1 hds c (mem_reverse.1 hc)
  rw [rtakeWhile, reverse_append, takeWhile_append_of_pos hall]
  suffices h : p.reverse.takeWhile Char.isDigit = [] by simp [h]
  rcases eq_nil_or_concat p with rfl | ⟨l, c, rfl⟩
  · rfl
  · simpa [endsInDigit] using hp

/-- A stem that does not end in a digit and the digits after it are determined by their
concatenation. -/
theorem append_digits_inj {q ds es : Str} (hp : endsInDigit p = false)
    (hq : endsInDigit q = false) (hds : ds.all Char.isDigit = true)
    (hes : es.all Char.isDigit = true) : p ++ ds = q ++ es ↔ p = q ∧ ds = es := by
  constructor
  · intro h
    have hdigits : ds = es := by rw [← rtakeWhile_append_digits hp hds, ← rtakeWhile_append_digits hq hes, h]
    subst hdigits
    exact ⟨append_cancel_right h, rfl⟩
  · rintro ⟨rfl, rfl⟩
    rfl

/-- A stem that does not end in a digit and an index are determined by the key they form. -/
theorem append_dec_inj {q : Str} (hp : endsInDigit p = false) (hq : endsInDigit q = false)
    {m : ℕ} : p ++ dec n = q ++ dec m ↔ p = q ∧ n = m := by
  rw [append_digits_inj hp hq (all_isDigit_dec n) (all_isDigit_dec m), dec_injective.eq_iff]

/-- The spelling of a key: the word of its slot, and its number if it has one. -/
def spell {σ : Type} (word : σ → Str) : σ × Option ℕ → Str
  | (slot, none) => word slot
  | (slot, some n) => word slot ++ dec n

/-- Distinct words that do not end in a digit spell distinct keys. -/
theorem spell_injective {σ : Type} {word : σ → Str} (hword : Function.Injective word)
    (hdigit : ∀ slot, endsInDigit (word slot) = false) : Function.Injective (spell word) := by
  intro k k' h
  obtain ⟨a, i⟩ := k
  obtain ⟨b, j⟩ := k'
  cases i with
  | none =>
    cases j with
    | none => rw [hword h]
    | some m => exact absurd h.symm (append_dec_ne (hdigit a) m)
  | some n =>
    cases j with
    | none => exact absurd h (append_dec_ne (hdigit b) n)
    | some m =>
      obtain ⟨hslot, rfl⟩ := (append_dec_inj (hdigit a) (hdigit b)).1 h
      rw [hword hslot]

/-- Lines joined with newlines. -/
def unlines (ls : List Str) : Str := ['\n'].intercalate ls

/-- The newline-separated lines of a text, without the newline that may end the text and without
the carriage return that may end a line. -/
def readLines (t : Str) : List Str := ((chopSuffix '\n' t).splitOn '\n').map (chopSuffix '\r')

@[simp] theorem unlines_singleton (l : Str) : unlines [l] = l := by simp [unlines]

theorem unlines_cons_cons (l l' : Str) (ls : List Str) : unlines (l :: l' :: ls) = l ++ '\n' :: unlines (l' :: ls) := by
  simp [unlines, intercalate]

/-- Joined lines, written as a first line and the lines after it. -/
theorem unlines_cons (l : Str) (ls : List Str) : unlines (l :: ls) = l ++ ls.flatMap fun x => '\n' :: x := by
  induction ls generalizing l with
  | nil => simp
  | cons l' ls ih => rw [unlines_cons_cons, ih]; simp

variable {ls : List Str}

theorem unlines_append {ls' : List Str} (h : ls ≠ []) (h' : ls' ≠ []) :
    unlines (ls ++ ls') = unlines ls ++ '\n' :: unlines ls' := by
  obtain ⟨l, ls, rfl⟩ := exists_cons_of_ne_nil h
  obtain ⟨l', ls', rfl⟩ := exists_cons_of_ne_nil h'
  rw [cons_append, unlines_cons, unlines_cons, unlines_cons]
  simp

theorem splitOn_unlines (hne : ls ≠ []) (hnl : ∀ l ∈ ls, '\n' ∉ l) : (unlines ls).splitOn '\n' = ls :=
  splitOn_intercalate '\n' hnl hne

@[simp] theorem unlines_splitOn (t : Str) : unlines (t.splitOn '\n') = t := intercalate_splitOn '\n'

/-- No piece of a split contains the separator. -/
theorem notMem_of_mem_splitOn {c : Char} {t l : Str} (h : l ∈ t.splitOn c) : c ∉ l := by
  induction t generalizing l with
  | nil => simp_all
  | cons x t ih =>
    rw [splitOn_cons_eq_if_modifyHead] at h
    by_cases hx : x = c
    · simp only [hx, BEq.rfl, if_true, mem_cons] at h
      rcases h with rfl | h
      · simp
      · exact ih h
    · simp only [beq_eq_false_iff_ne.2 hx, Bool.false_eq_true, if_false] at h
      obtain ⟨l₀, ls, hls⟩ := exists_cons_of_ne_nil (splitOn_ne_nil c t)
      rw [hls, modifyHead_cons, mem_cons] at h
      rcases h with rfl | h
      · have hl₀ : c ∉ l₀ := ih (by rw [hls]; exact mem_cons_self ..)
        simpa [Ne.symm hx] using hl₀
      · exact ih (by rw [hls]; exact mem_cons_of_mem _ h)

/-- A newline separates the lines before it from those after it. -/
theorem splitOn_append_newline (s t : Str) : (s ++ '\n' :: t).splitOn '\n' = s.splitOn '\n' ++ t.splitOn '\n' := by
  have hs := splitOn_ne_nil '\n' s
  have hnl : ∀ l ∈ s.splitOn '\n' ++ t.splitOn '\n', '\n' ∉ l := by
    intro l hl
    rcases mem_append.1 hl with h | h
    · exact notMem_of_mem_splitOn h
    · exact notMem_of_mem_splitOn h
  have hjoin : unlines (s.splitOn '\n' ++ t.splitOn '\n') = s ++ '\n' :: t := by
    rw [unlines_append hs (splitOn_ne_nil '\n' t), unlines_splitOn, unlines_splitOn]
  rw [← hjoin]
  exact splitOn_unlines (append_ne_nil_of_left_ne_nil hs _) hnl

/-- A text whose last line is not empty does not end in a newline. -/
theorem chopSuffix_unlines (hnl : ∀ l ∈ ls, '\n' ∉ l)
    (hlast : ls.getLast? ≠ some []) : chopSuffix '\n' (unlines ls) = unlines ls := by
  rcases eq_nil_or_concat ls with rfl | ⟨init, l, rfl⟩
  · rfl
  · rw [concat_eq_append] at hnl hlast ⊢
    have hl : l ≠ [] := by simpa using hlast
    have hmem : '\n' ∉ l := hnl l (by simp)
    have hend : (unlines (init ++ [l])).getLast? = l.getLast? := by
      rcases eq_nil_or_concat l with rfl | ⟨l₀, c, rfl⟩
      · exact absurd rfl hl
      · by_cases hinit : init = []
        · simp [hinit]
        · rw [unlines_append hinit (by simp)]
          simp [getLast?_cons]
    rw [chopSuffix, hend, if_neg]
    intro h
    exact hmem (mem_of_getLast? h)

/-- Reading undoes writing, for lines that carry no line ends themselves and do not end in an
empty line. -/
theorem readLines_unlines (hne : ls ≠ []) (hnl : ∀ l ∈ ls, '\n' ∉ l)
    (hcr : ∀ l ∈ ls, '\r' ∉ l) (hlast : ls.getLast? ≠ some []) :
    readLines (unlines ls) = ls := by
  rw [readLines, chopSuffix_unlines hnl hlast, splitOn_unlines hne hnl]
  calc ls.map (chopSuffix '\r') = ls.map id := map_congr_left fun l hl => chopSuffix_of_notMem (hcr l hl)
    _ = ls := map_id ls

/-- Chopping lines only drops characters of the joined text. -/
theorem unlines_map_sublist {f : Str → Str} (hf : ∀ l, (f l).Sublist l) (ls : List Str) :
    (unlines (ls.map f)).Sublist (unlines ls) := by
  cases ls with
  | nil => exact Sublist.refl _
  | cons l ls =>
    rw [map_cons, unlines_cons, unlines_cons]
    refine Sublist.append (hf l) ?_
    induction ls with
    | nil => exact Sublist.refl _
    | cons l' ls ih =>
      rw [map_cons, flatMap_cons, flatMap_cons]
      exact Sublist.append ((hf l').cons_cons '\n') ih

/-- Reading a text and writing it again only drops characters. -/
theorem unlines_readLines_sublist (t : Str) : (unlines (readLines t)).Sublist t := by
  have h : (unlines (readLines t)).Sublist (unlines ((chopSuffix '\n' t).splitOn '\n')) :=
    unlines_map_sublist (chopSuffix_sublist '\r') _
  rw [unlines_splitOn] at h
  exact h.trans (chopSuffix_sublist '\n' t)

end Str
