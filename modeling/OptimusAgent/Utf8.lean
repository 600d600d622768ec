/-
**UTF-8 bytes of a text.**

Files hold bytes, and a text is read from them only if they are the UTF-8 bytes of one.  The codec
is that of the standard library.  The bytes in front of an ASCII byte are the bytes of a part of the
text, as no other character has an ASCII byte in it.

Bytes that are not those of a text are read with one replacement for each longest part that some
character begins with, as `String::from_utf8_lossy` reads them.  A reader of a stream keeps the
bytes of a character that breaks off at the end.
-/

import Mathlib

namespace Utf8

open List

/-- The bytes of a text. -/
def encode (s : List Char) : List UInt8 := s.flatMap String.utf8EncodeChar

/-- The text that the bytes are the bytes of, if any. -/
def decode (b : List UInt8) : Option (List Char) := b.toByteArray.utf8Decode?.map Array.toList

@[simp] theorem encode_nil : encode [] = [] := rfl

theorem encode_cons (c : Char) (s : List Char) : encode (c :: s) = String.utf8EncodeChar c ++ encode s := rfl

@[simp] theorem encode_append (s t : List Char) : encode (s ++ t) = encode s ++ encode t := flatMap_append

theorem toByteArray_encode (s : List Char) : (encode s).toByteArray = s.utf8Encode := rfl

variable {b : List UInt8} {s : List Char} {c : Char}

theorem toByteArray_injective {a : List UInt8} (h : a.toByteArray = b.toByteArray) : a = b := by
  have hdata := congrArg (fun x : ByteArray => x.data.toList) h
  simpa using hdata

@[simp] theorem decode_encoded (s : List Char) : decode (encode s) = some s := by
  rw [decode, toByteArray_encode, List.utf8Decode?_utf8Encode]
  simp

/-- Bytes are read as the text that they are the bytes of. -/
theorem decode_eq_some_iff : decode b = some s ↔ b = encode s := by
  constructor
  · intro h
    obtain ⟨chars, hchars, rfl⟩ := Option.map_eq_some_iff.1 h
    have hsome : b.toByteArray.utf8Decode?.isSome = true := by rw [hchars]; rfl
    have hback := ByteArray.utf8Encode_get_utf8Decode? (h := hsome)
    rw [Option.get_of_eq_some hsome hchars] at hback
    exact (toByteArray_injective hback).symm
  · rintro rfl
    exact decode_encoded s

theorem encode_injective {t : List Char} (h : encode s = encode t) : s = t := by
  have hs := decode_encoded s
  rw [h, decode_encoded] at hs
  exact (Option.some.inj hs).symm

/-- A text whose bytes come first comes first. -/
theorem prefix_of_encode_prefix {t : List Char} (h : encode s <+: encode t) : s <+: t := by
  obtain ⟨b, hb⟩ := h
  refine isPrefix_of_utf8Encode_append_eq_utf8Encode b.toByteArray ?_
  rw [← toByteArray_encode, ← toByteArray_encode, ← hb]
  simp

/-- A character has an ASCII byte in it only if that is all of it. -/
theorem utf8EncodeChar_cases (c : Char) :
    (∃ b : UInt8, String.utf8EncodeChar c = [b]) ∨ ∀ b ∈ String.utf8EncodeChar c, 128 ≤ b.toNat := by
  unfold String.utf8EncodeChar
  dsimp only
  split_ifs
  · exact .inl ⟨_, rfl⟩
  · refine .inr fun b hb => ?_
    simp only [mem_cons, not_mem_nil, or_false] at hb
    rcases hb with rfl | rfl <;> rw [UInt8.toNat_ofNat'] <;> omega
  · refine .inr fun b hb => ?_
    simp only [mem_cons, not_mem_nil, or_false] at hb
    rcases hb with rfl | rfl | rfl <;> rw [UInt8.toNat_ofNat'] <;> omega
  · refine .inr fun b hb => ?_
    simp only [mem_cons, not_mem_nil, or_false] at hb
    rcases hb with rfl | rfl | rfl | rfl <;> rw [UInt8.toNat_ofNat'] <;> omega

/-- **Bytes are cut into texts in front of an ASCII byte.** -/
theorem encode_split {a : List UInt8} (h : encode s = a ++ b) (hascii : ∀ x ∈ b.head?, x.toNat < 128) :
    ∃ s₁ s₂, s = s₁ ++ s₂ ∧ a = encode s₁ ∧ b = encode s₂ := by
  induction s generalizing a with
  | nil =>
    obtain ⟨rfl, rfl⟩ := append_eq_nil_iff.1 h.symm
    exact ⟨[], [], rfl, rfl, rfl⟩
  | cons c s ih =>
    rw [encode_cons, append_eq_append_iff] at h
    rcases h with ⟨a', rfl, hs⟩ | ⟨b', hc, rfl⟩
    · obtain ⟨s₁, s₂, rfl, rfl, rfl⟩ := ih hs
      exact ⟨c :: s₁, s₂, rfl, rfl, rfl⟩
    · -- The cut is inside the first character, or at one of its ends.
      cases a with
      | nil => exact ⟨[], c :: s, rfl, rfl, by rw [encode_cons, hc, nil_append]⟩
      | cons x a =>
        cases b' with
        | nil => exact ⟨[c], s, rfl, by rw [encode_cons, hc]; simp, rfl⟩
        | cons y b' =>
          rcases utf8EncodeChar_cases c with ⟨b, hb⟩ | hhigh
          · rw [hb] at hc
            simp at hc
          · have hy := hhigh y (by rw [hc]; simp)
            have hlow : y.toNat < 128 := hascii y rfl
            omega

/-- A text has the ASCII bytes of its characters. -/
theorem mem_of_mem_encode {b : UInt8} (hc : String.utf8EncodeChar c = [b])
    (hascii : b.toNat < 128) (h : b ∈ encode s) : c ∈ s := by
  obtain ⟨c', hc', hb⟩ := mem_flatMap.1 h
  rcases utf8EncodeChar_cases c' with ⟨b', hb'⟩ | hhigh
  · rw [hb', mem_singleton] at hb
    have heq : encode [c] = encode [c'] := by rw [encode_cons, encode_cons, hc, hb', hb]
    cases encode_injective heq
    exact hc'
  · exact absurd (hhigh b hb) (by omega)

/-! ### Bytes that are not those of a text -/

/-- The first character of the bytes, and what follows it. -/
def firstChar (b : List UInt8) : Option (Char × List UInt8) :=
  [1, 2, 3, 4].findSome? fun n =>
    match decode (b.take n) with
    | some [c] => some (c, b.drop n)
    | _ => none

def decodeLossyFrom : ℕ → List UInt8 → List Char
  | 0, _ => []
  | _, [] => []
  | fuel + 1, x :: b =>
    match firstChar (x :: b) with
    | some (c, rest) => c :: decodeLossyFrom fuel rest
    | none => Char.ofNat 0xFFFD :: decodeLossyFrom fuel b

/-- A text for any bytes; a byte at which no character begins is replaced. -/
def decodeLossy (b : List UInt8) : List Char := decodeLossyFrom b.length b

theorem of_firstChar {rest : List UInt8} (h : firstChar b = some (c, rest)) : b = String.utf8EncodeChar c ++ rest := by
  obtain ⟨n, -, hn⟩ := exists_of_findSome?_eq_some h
  split at hn
  · rename_i c' hdecode
    cases hn
    have htake := decode_eq_some_iff.1 hdecode
    rw [encode_cons, encode_nil, append_nil] at htake
    rw [← htake, take_append_drop]
  · cases hn

theorem length_utf8EncodeChar_mem (c : Char) : (String.utf8EncodeChar c).length ∈ [1, 2, 3, 4] := by
  unfold String.utf8EncodeChar
  dsimp only
  split_ifs <;> simp

theorem firstChar_append (c : Char) (rest : List UInt8) :
    firstChar (String.utf8EncodeChar c ++ rest) = some (c, rest) := by
  have hself : (firstChar (String.utf8EncodeChar c ++ rest)).isSome = true := by
    rw [firstChar, List.findSome?_isSome_iff]
    refine ⟨_, length_utf8EncodeChar_mem c, ?_⟩
    have hone : decode (String.utf8EncodeChar c) = some [c] := by
      rw [decode_eq_some_iff, encode_cons, encode_nil, append_nil]
    rw [take_left, hone]
    rfl
  obtain ⟨⟨c', rest'⟩, heq⟩ := Option.isSome_iff_exists.1 hself
  -- Two characters at the beginning of the same bytes are the same.
  have hsame := of_firstChar heq
  have hinj : ∀ {x y : Char}, String.utf8EncodeChar x <+: String.utf8EncodeChar y → x = y := by
    intro x y hxy
    have hlist : encode [x] <+: encode [y] := by simpa [encode] using hxy
    simpa using prefix_of_encode_prefix hlist
  have hchar : c = c' := by
    rcases prefix_or_prefix_of_prefix (prefix_append (String.utf8EncodeChar c) rest)
      ⟨rest', hsame.symm⟩ with h | h
    · exact hinj h
    · exact (hinj h).symm
  subst hchar
  rw [heq, append_cancel_left hsame]

theorem length_of_firstChar {rest : List UInt8} (h : firstChar b = some (c, rest)) : rest.length < b.length := by
  have hpos := length_utf8EncodeChar_mem c
  rw [of_firstChar h, length_append]
  simp only [mem_cons, not_mem_nil, or_false] at hpos
  omega

theorem decodeLossyFrom_eq {m n : ℕ} (h : b.length ≤ m)
    (h' : b.length ≤ n) : decodeLossyFrom m b = decodeLossyFrom n b := by
  induction m generalizing n b with
  | zero =>
    cases length_eq_zero_iff.1 (Nat.le_zero.1 h)
    cases n <;> rfl
  | succ m ih =>
    cases b with
    | nil => cases n <;> rfl
    | cons x b =>
      cases n with
      | zero => simp at h'
      | succ n =>
        rw [decodeLossyFrom, decodeLossyFrom]
        rw [length_cons] at h h'
        cases hfirst : firstChar (x :: b) with
        | none =>
          dsimp only
          rw [ih (n := n) (by omega) (by omega)]
        | some first =>
          have hlength := length_of_firstChar hfirst
          rw [length_cons] at hlength
          dsimp only
          rw [ih (n := n) (by omega) (by omega)]

theorem decodeLossy_cons (c : Char) (b : List UInt8) :
    decodeLossy (String.utf8EncodeChar c ++ b) = c :: decodeLossy b := by
  have hfirst := firstChar_append c b
  have hlength := length_of_firstChar hfirst
  rw [decodeLossy]
  generalize String.utf8EncodeChar c ++ b = bytes at hfirst hlength ⊢
  cases bytes with
  | nil => simp at hlength
  | cons x bytes =>
    rw [length_cons] at hlength ⊢
    rw [decodeLossyFrom, hfirst]
    dsimp only
    rw [decodeLossy, decodeLossyFrom_eq (n := b.length) (by omega) le_rfl]

/-- The bytes of a text are read as the text, whatever follows them. -/
theorem decodeLossy_append (s : List Char) (b : List UInt8) : decodeLossy (encode s ++ b) = s ++ decodeLossy b := by
  induction s with
  | nil => rfl
  | cons c s ih => rw [encode_cons, append_assoc, decodeLossy_cons, ih, cons_append]

theorem decodeLossy_encode (s : List Char) : decodeLossy (encode s) = s := by
  have h := decodeLossy_append s []
  rwa [append_nil, show decodeLossy [] = [] from rfl, append_nil] at h

/-- The characters of the text that are not replacements have their bytes among those read. -/
theorem mem_of_mem_decodeLossy (hc : c ≠ Char.ofNat 0xFFFD)
    (h : c ∈ decodeLossy b) : ∀ x ∈ String.utf8EncodeChar c, x ∈ b := by
  have hfrom : ∀ fuel (b : List UInt8), c ∈ decodeLossyFrom fuel b → ∀ x ∈ String.utf8EncodeChar c, x ∈ b := by
    intro fuel
    induction fuel with
    | zero =>
      intro b h
      cases h
    | succ fuel ih =>
      intro b h x hx
      cases b with
      | nil => cases h
      | cons y b =>
        rw [decodeLossyFrom] at h
        cases hfirst : firstChar (y :: b) with
        | none =>
          rw [hfirst] at h
          rcases mem_cons.1 h with rfl | h
          · exact absurd rfl hc
          · exact mem_cons_of_mem y (ih b h x hx)
        | some first =>
          obtain ⟨c', rest⟩ := first
          rw [hfirst] at h
          rw [of_firstChar hfirst]
          rcases mem_cons.1 h with rfl | h
          · exact mem_append_left _ hx
          · exact mem_append_right _ (ih rest h x hx)
  exact hfrom b.length b h

/-! ### Parts of a character -/

/-- A byte inside a character: `(b & 0xc0) == 0x80`. -/
def isContinuation (b : UInt8) : Bool := b &&& 0xc0 == 0x80

/-- The second bytes that may follow a first byte of three or four. -/
def secondOk (a b : ℕ) : Bool :=
  if a = 0xE0 then 0xA0 ≤ b && b ≤ 0xBF
  else if a = 0xED then 0x80 ≤ b && b ≤ 0x9F
  else if a = 0xF0 then 0x90 ≤ b && b ≤ 0xBF
  else if a = 0xF4 then 0x80 ≤ b && b ≤ 0x8F
  else 0x80 ≤ b && b ≤ 0xBF

/-- The bytes begin a character and end inside it. -/
def isShort : List UInt8 → Bool
  | [a] => 0xC2 ≤ a.toNat && a.toNat ≤ 0xF4
  | [a, b] => 0xE0 ≤ a.toNat && a.toNat ≤ 0xF4 && secondOk a.toNat b.toNat
  | [a, b, c] => 0xF0 ≤ a.toNat && a.toNat ≤ 0xF4 && secondOk a.toNat b.toNat && isContinuation c
  | _ => false

/-! ### Reading -/

/-- What stands for bytes that are not those of a character. -/
def replacement : Char := Char.ofNat 0xFFFD

/-- What bytes begin with: a character, a part that no character goes on from, or a part of a
character up to the end of the bytes. -/
inductive Head where
  | char (c : Char) (rest : List UInt8)
  | bad (rest : List UInt8)
  | short

/-- How many bytes are replaced where no character begins: `Utf8Error::error_len`. -/
def badLength (b : List UInt8) : ℕ :=
  if isShort (b.take 3) then 3 else if isShort (b.take 2) then 2 else 1

def head (b : List UInt8) : Head :=
  match firstChar b with
  | some (c, rest) => .char c rest
  | none => if isShort b then .short else .bad (b.drop (badLength b))

def readFrom (stream : Bool) : ℕ → List UInt8 → List Char × List UInt8
  | 0, b => ([], b)
  | _ + 1, [] => ([], [])
  | fuel + 1, x :: b =>
    match head (x :: b) with
    | .char c rest => ((c :: (readFrom stream fuel rest).1), (readFrom stream fuel rest).2)
    | .bad rest => ((replacement :: (readFrom stream fuel rest).1), (readFrom stream fuel rest).2)
    | .short => if stream then ([], x :: b) else ([replacement], [])

/-- The text that bytes are read as, and the bytes left over.  If more bytes may come, a part of a
character at the end is left over; otherwise it is replaced. -/
def read (stream : Bool) (b : List UInt8) : List Char × List UInt8 := readFrom stream b.length b

/-- The text of all the bytes: `String::from_utf8_lossy`. -/
def lossy (b : List UInt8) : List Char := (read false b).1

theorem head_utf8EncodeChar_append (c : Char) (rest : List UInt8) :
    head (String.utf8EncodeChar c ++ rest) = .char c rest := by
  rw [head, firstChar_append]

theorem badLength_pos (b : List UInt8) : 0 < badLength b := by
  unfold badLength
  split_ifs <;> norm_num

variable {b rest : List UInt8} {stream : Bool}

theorem length_of_head_char {c : Char} (h : head b = .char c rest) :
    b = String.utf8EncodeChar c ++ rest ∧ rest.length < b.length := by
  unfold head at h
  split at h
  · rename_i c' rest' hfirst
    cases h
    exact ⟨of_firstChar hfirst, length_of_firstChar hfirst⟩
  · split_ifs at h

theorem length_of_head_bad (hne : b ≠ []) (h : head b = .bad rest) : rest.length < b.length := by
  unfold head at h
  split at h
  · cases h
  · split_ifs at h
    cases h
    have hlength := length_pos_iff.2 hne
    have hpos := badLength_pos b
    rw [length_drop]
    omega

theorem suffix_of_head_bad (h : head b = .bad rest) : rest <:+ b := by
  rw [head] at h
  split at h
  · cases h
  · split_ifs at h
    cases h
    exact drop_suffix _ _

theorem readFrom_eq {m n : ℕ} (h : b.length ≤ m) (h' : b.length ≤ n) : readFrom stream m b = readFrom stream n b := by
  induction m generalizing n b with
  | zero =>
    cases length_eq_zero_iff.1 (Nat.le_zero.1 h)
    cases n <;> rfl
  | succ m ih =>
    cases b with
    | nil => cases n <;> rfl
    | cons x b =>
      cases n with
      | zero => simp at h'
      | succ n =>
        rw [readFrom, readFrom]
        cases hhead : head (x :: b) with
        | char c rest =>
          have hlength := (length_of_head_char hhead).2
          dsimp only
          rw [ih (n := n) (by omega) (by omega)]
        | bad rest =>
          have hlength := length_of_head_bad (cons_ne_nil x b) hhead
          dsimp only
          rw [ih (n := n) (by omega) (by omega)]
        | short => rfl

theorem read_char {c : Char} (h : head b = .char c rest) :
    read stream b = (c :: (read stream rest).1, (read stream rest).2) := by
  have hlength := (length_of_head_char h).2
  cases b with
  | nil => simp at hlength
  | cons x b =>
    rw [length_cons] at hlength
    rw [read, length_cons, readFrom, h]
    dsimp only
    rw [read, readFrom_eq (n := rest.length) (by omega) le_rfl]

theorem read_bad (hne : b ≠ []) (h : head b = .bad rest) :
    read stream b = (replacement :: (read stream rest).1, (read stream rest).2) := by
  have hlength := length_of_head_bad hne h
  cases b with
  | nil => exact absurd rfl hne
  | cons x b =>
    rw [length_cons] at hlength
    rw [read, length_cons, readFrom, h]
    dsimp only
    rw [read, readFrom_eq (n := rest.length) (by omega) le_rfl]

theorem read_short (hne : b ≠ []) (h : head b = .short) :
    read stream b = if stream then ([], b) else ([replacement], []) := by
  cases b with
  | nil => exact absurd rfl hne
  | cons x b => rw [read, length_cons, readFrom, h]

theorem lossy_cons (c : Char) (b : List UInt8) : lossy (String.utf8EncodeChar c ++ b) = c :: lossy b := by
  rw [lossy, read_char (head_utf8EncodeChar_append c b), ← lossy]

/-- The bytes of a text are read as the text. -/
theorem lossy_encode (s : List Char) : lossy (encode s) = s := by
  induction s with
  | nil => rfl
  | cons c s ih => rw [encode_cons, lossy_cons, ih]

theorem lossy_ne_nil (hne : b ≠ []) : lossy b ≠ [] := by
  rw [lossy]
  cases hhead : head b with
  | char c rest =>
    rw [read_char hhead]
    exact cons_ne_nil _ _
  | bad rest =>
    rw [read_bad hne hhead]
    exact cons_ne_nil _ _
  | short =>
    rw [read_short hne hhead]
    exact cons_ne_nil _ _

/-- The characters of the text that are not replacements have their bytes among those read. -/
theorem mem_of_mem_lossy {c : Char} (hc : c ≠ replacement) (h : c ∈ lossy b) :
    ∀ x ∈ String.utf8EncodeChar c, x ∈ b := by
  intro x hx
  induction hlength : b.length using Nat.strong_induction_on generalizing b with
  | _ n ih =>
    by_cases hne : b = []
    · subst hne
      exact absurd h not_mem_nil
    · rw [lossy] at h
      cases hhead : head b with
      | char c' rest =>
        obtain ⟨hb, hrest⟩ := length_of_head_char hhead
        rw [read_char hhead] at h
        rw [hb]
        rcases mem_cons.1 h with rfl | h
        · exact mem_append_left _ hx
        · exact mem_append_right _ (ih _ (hlength ▸ hrest) h rfl)
      | bad rest =>
        have hrest := length_of_head_bad hne hhead
        rw [read_bad hne hhead] at h
        rcases mem_cons.1 h with rfl | h
        · exact absurd rfl hc
        · exact (suffix_of_head_bad hhead).mem (ih _ (hlength ▸ hrest) h rfl)
      | short =>
        rw [read_short hne hhead] at h
        exact absurd (mem_singleton.1 h) hc

end Utf8
