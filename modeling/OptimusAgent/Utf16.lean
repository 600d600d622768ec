/-
**UTF-16 code units of a text.**

JavaScript counts the places in a text by UTF-16 code units: a character of the basic plane is one
unit, any other a pair of surrogates.  Reading units back is lossy in general, as a surrogate
without its partner becomes a replacement character, but not for the units of a text.
-/

import Mathlib

namespace Utf16

open List

/-- The units of a character. -/
def units (c : Char) : List ℕ :=
  if c.toNat < 0x10000 then [c.toNat]
  else [0xD800 + (c.toNat - 0x10000) / 0x400, 0xDC00 + (c.toNat - 0x10000) % 0x400]

def encode (s : List Char) : List ℕ := s.flatMap units

def isHigh (u : ℕ) : Bool := 0xD800 ≤ u && u < 0xDC00

def isLow (u : ℕ) : Bool := 0xDC00 ≤ u && u < 0xE000

/-- The text of some units; a surrogate without its partner is replaced. -/
def decodeLossy : List ℕ → List Char
  | [] => []
  | [u] => [if isHigh u || isLow u then '�' else Char.ofNat u]
  | u :: v :: us =>
    if isHigh u && isLow v then
      Char.ofNat (0x10000 + (u - 0xD800) * 0x400 + (v - 0xDC00)) :: decodeLossy us
    else if isHigh u || isLow u then '�' :: decodeLossy (v :: us)
    else Char.ofNat u :: decodeLossy (v :: us)

@[simp] theorem encode_cons (c : Char) (s : List Char) : encode (c :: s) = units c ++ encode s := rfl

@[simp] theorem encode_append (s t : List Char) : encode (s ++ t) = encode s ++ encode t := flatMap_append

theorem length_encode_replicate (n : ℕ) (c : Char) : (encode (List.replicate n c)).length = n * (units c).length := by
  simp [encode]

theorem decodeLossy_cons {u : ℕ} (h : isHigh u = false) (h' : isLow u = false) (us : List ℕ) :
    decodeLossy (u :: us) = Char.ofNat u :: decodeLossy us := by
  cases us with
  | nil | cons v us => simp [decodeLossy, h, h']

theorem decodeLossy_pair {u v : ℕ} (h : isHigh u = true) (h' : isLow v = true) (us : List ℕ) :
    decodeLossy (u :: v :: us) = Char.ofNat (0x10000 + (u - 0xD800) * 0x400 + (v - 0xDC00)) :: decodeLossy us := by
  simp [decodeLossy, h, h']

/-- The units of a character are read back. -/
theorem decodeLossy_units (c : Char) (us : List ℕ) : decodeLossy (units c ++ us) = c :: decodeLossy us := by
  have hvalid : c.toNat < 0xD800 ∨ 0xDFFF < c.toNat ∧ c.toNat < 0x110000 := c.valid
  unfold units
  split_ifs with h
  · have hhigh : isHigh c.toNat = false := by
      simp only [isHigh, Bool.and_eq_false_iff, decide_eq_false_iff_not]
      omega
    have hlow : isLow c.toNat = false := by
      simp only [isLow, Bool.and_eq_false_iff, decide_eq_false_iff_not]
      omega
    rw [singleton_append, decodeLossy_cons hhigh hlow, Char.ofNat_toNat]
  · have hhigh : isHigh (0xD800 + (c.toNat - 0x10000) / 0x400) = true := by
      simp only [isHigh, Bool.and_eq_true, decide_eq_true_eq]
      omega
    have hlow : isLow (0xDC00 + (c.toNat - 0x10000) % 0x400) = true := by
      simp only [isLow, Bool.and_eq_true, decide_eq_true_eq]
      omega
    have hcode : 0x10000 + (0xD800 + (c.toNat - 0x10000) / 0x400 - 0xD800) * 0x400 +
        (0xDC00 + (c.toNat - 0x10000) % 0x400 - 0xDC00) = c.toNat := by
      omega
    rw [cons_append, singleton_append, decodeLossy_pair hhigh hlow, hcode, Char.ofNat_toNat]

/-- **The units of a text are read back as the text.** -/
theorem decodeLossy_encode (s : List Char) : decodeLossy (encode s) = s := by
  induction s with
  | nil => rfl
  | cons c s ih => rw [encode_cons, decodeLossy_units, ih]

/-- The units of a part of a text. -/
theorem slice_encode (before part after : List Char) :
    ((encode (before ++ part ++ after)).drop (encode before).length).take (encode part).length = encode part := by
  rw [encode_append, encode_append, append_assoc, drop_left, take_left]

end Utf16
