/-
**A text format for JSON values.**

The JSON library is a parameter of the models, with laws about what it prints and parses.  This
module has one format that keeps them, for values without floating-point numbers: a value is
numbered, and its text is a brace, as many letters as the number says, and a closing brace.
-/

import OptimusAgent.RowCodec

namespace JsonText

open RowCodec List Function Nat

def strCode (s : Str) : ℕ := Encodable.encode (s.map Char.toNat)

theorem strCode_injective {s t : Str} (h : strCode s = strCode t) : s = t :=
  map_injective_iff.2 (fun _ _ hc => Char.toNat_inj.1 hc) (Encodable.encode_injective h)

mutual

/-- The number of a value. -/
def code : Json Empty → ℕ
  | .null => pair 0 0
  | .bool b => pair 1 b.toNat
  | .number (.int n) => pair 2 (Encodable.encode n)
  | .number (.float x) => x.elim
  | .string s => pair 3 (strCode s)
  | .array items => pair 4 (codeItems items)
  | .object fields => pair 5 (codeFields fields)

def codeItems : List (Json Empty) → ℕ
  | [] => 0
  | v :: items => pair (code v) (codeItems items) + 1

def codeFields : List (Str × Json Empty) → ℕ
  | [] => 0
  | (k, v) :: fields => pair (strCode k) (pair (code v) (codeFields fields)) + 1

end

mutual

theorem code_injective : ∀ (v w : Json Empty), code v = code w → v = w
  | .null, w, h => by
    cases w with
    | null => rfl
    | number n => cases n with
      | int n => simp [code] at h
      | float x => exact x.elim
    | _ => simp [code] at h
  | .bool b, w, h => by
    cases w with
    | bool b' => cases b <;> cases b' <;> simp [code] at h ⊢
    | number n => cases n with
      | int n => simp [code] at h
      | float x => exact x.elim
    | _ => simp [code] at h
  | .number (.int n), w, h => by
    cases w with
    | number m => cases m with
      | int m => simpa [code] using h
      | float x => exact x.elim
    | _ => simp [code] at h
  | .number (.float x), _, _ => x.elim
  | .string s, w, h => by
    cases w with
    | string t =>
      simp only [code, pair_eq_pair, true_and] at h
      rw [strCode_injective h]
    | number n => cases n with
      | int n => simp [code] at h
      | float x => exact x.elim
    | _ => simp [code] at h
  | .array items, w, h => by
    cases w with
    | array items' =>
      simp only [code, pair_eq_pair, true_and] at h
      rw [codeItems_injective items items' h]
    | number n => cases n with
      | int n => simp [code] at h
      | float x => exact x.elim
    | _ => simp [code] at h
  | .object fields, w, h => by
    cases w with
    | object fields' =>
      simp only [code, pair_eq_pair, true_and] at h
      rw [codeFields_injective fields fields' h]
    | number n => cases n with
      | int n => simp [code] at h
      | float x => exact x.elim
    | _ => simp [code] at h

theorem codeItems_injective : ∀ (l l' : List (Json Empty)), codeItems l = codeItems l' → l = l'
  | [], l', h => by cases l' <;> simp [codeItems] at h ⊢
  | v :: items, l', h => by
    cases l' with
    | nil => simp [codeItems] at h
    | cons v' items' =>
      simp only [codeItems, add_right_cancel_iff, pair_eq_pair] at h
      rw [code_injective v v' h.1, codeItems_injective items items' h.2]

theorem codeFields_injective : ∀ (l l' : List (Str × Json Empty)), codeFields l = codeFields l' → l = l'
  | [], l', h => by cases l' <;> simp [codeFields] at h ⊢
  | (k, v) :: fields, l', h => by
    cases l' with
    | nil => simp [codeFields] at h
    | cons e' fields' =>
      obtain ⟨k', v'⟩ := e'
      simp only [codeFields, add_right_cancel_iff, pair_eq_pair] at h
      rw [strCode_injective h.1, code_injective v v' h.2.1, codeFields_injective fields fields' h.2.2]

end

/-- The text of a value. -/
def print (v : Json Empty) : Str := '{' :: (replicate (code v) 'x' ++ ['}'])

theorem print_injective : Injective print := by
  intro v w h
  have hlen := congrArg length h
  simp only [print, length_cons, length_append, length_replicate] at hlen
  exact code_injective v w (by omega)

/-- The value of a text. -/
noncomputable def read : Str → Option (Json Empty) := partialInv print

theorem read_print (v : Json Empty) : read (print v) = some v := partialInv_left print_injective v

theorem newline_notMem_print (v : Json Empty) : '\n' ∉ print v := by simp [print, mem_replicate]

theorem read_eq_none {s : Str} (h : ∀ v, print v ≠ s) : read s = none := by
  rw [read, partialInv, dif_neg]
  rintro ⟨v, hv⟩
  exact h v hv

/-- A text without its end is not read. -/
theorem read_of_prefix {s : Str} {v : Json Empty} (hpre : s <+: print v) (hne : s ≠ print v) : read s = none := by
  refine read_eq_none fun w hw => hne ?_
  rw [← hw] at hpre ⊢
  refine hpre.eq_of_length_le ?_
  -- The closing brace of the shorter text stands where the longer one has a letter.
  by_contra hlt
  simp only [print, length_cons, length_append, length_replicate] at hlt
  have hget := hpre.getElem (i := code w + 1) (by simp [print])
  simp only [print, getElem_cons_succ] at hget
  rw [getElem_append_right (by simp), getElem_append_left (by simp; omega)] at hget
  simp at hget

/-- A text with another brace in it is not read. -/
theorem read_of_brace {c : Char} {s : Str} (h : '{' ∈ s) : read (c :: s) = none := by
  refine read_eq_none fun w hw => ?_
  rw [print, cons.injEq] at hw
  rw [← hw.2] at h
  simp [mem_replicate] at h

end JsonText
