/-
**Ordered maps.**

The repository keeps its tables in `BTreeMap`, whose iteration order is the order of the keys.
Here such a map is its list of entries, strictly increasing in the key: the order is a field of the
structure, so a map with two entries for one key cannot be built.
-/

import Mathlib

/-- A finite map with ordered keys. -/
structure OrdMap (κ ν : Type) [LinearOrder κ] where
  /-- The entries, in the order of the keys. -/
  entries : List (κ × ν)
  /-- The keys increase strictly. -/
  sorted : entries.Pairwise fun a b => a.1 < b.1

namespace OrdMap

open List

variable {κ ν : Type} [LinearOrder κ] {m : OrdMap κ ν} {k : κ} {l : List (κ × ν)}

theorem ext_entries {m' : OrdMap κ ν} (h : m.entries = m'.entries) : m = m' := by
  cases m
  cases m'
  simpa using h

instance [DecidableEq ν] : DecidableEq (OrdMap κ ν) := fun m m' =>
  decidable_of_iff (m.entries = m'.entries) (by cases m; cases m'; simp)

/-! ### Operations -/

/-- The map without entries. -/
def empty : OrdMap κ ν := ⟨[], .nil⟩

/-- The value stored under a key. -/
def get? (m : OrdMap κ ν) (k : κ) : Option ν := (m.entries.find? fun e => e.1 = k).map Prod.snd

/-- Whether a key has a value. -/
def contains (m : OrdMap κ ν) (k : κ) : Bool := (m.get? k).isSome

/-- The number of entries. -/
def size (m : OrdMap κ ν) : ℕ := m.entries.length

/-- The keys in order. -/
def keys (m : OrdMap κ ν) : List κ := m.entries.map Prod.fst

/-- Insertion into a sorted list of entries, replacing the entry of an equal key. -/
def insertEntry (k : κ) (v : ν) : List (κ × ν) → List (κ × ν)
  | [] => [(k, v)]
  | e :: l => if k < e.1 then (k, v) :: e :: l else if k = e.1 then (k, v) :: l
      else e :: insertEntry k v l

theorem mem_insertEntry {v : ν} {e : κ × ν} (h : e ∈ insertEntry k v l) : e = (k, v) ∨ e ∈ l := by
  induction l with
  | nil => simpa [insertEntry] using h
  | cons e' l ih =>
    rw [insertEntry] at h
    split_ifs at h with h₁ h₂
    · exact mem_cons.1 h
    · exact (mem_cons.1 h).imp_right (mem_cons_of_mem _)
    · rcases mem_cons.1 h with rfl | h
      · exact .inr (mem_cons_self ..)
      · exact (ih h).imp_right (mem_cons_of_mem _)

theorem pairwise_insertEntry (k : κ) (v : ν) (h : l.Pairwise fun a b => a.1 < b.1) :
    (insertEntry k v l).Pairwise fun a b => a.1 < b.1 := by
  induction l with
  | nil => simp [insertEntry]
  | cons e l ih =>
    rw [pairwise_cons] at h
    rw [insertEntry]
    split_ifs with h₁ h₂
    · refine pairwise_cons.2 ⟨fun a ha => ?_, pairwise_cons.2 h⟩
      rcases mem_cons.1 ha with rfl | ha
      · exact h₁
      · exact h₁.trans (h.1 a ha)
    · subst h₂
      exact pairwise_cons.2 h
    · refine pairwise_cons.2 ⟨fun a ha => ?_, ih h.2⟩
      rcases mem_insertEntry ha with rfl | ha
      · exact lt_of_le_of_ne (not_lt.1 h₁) (Ne.symm h₂)
      · exact h.1 a ha

/-- Stores a value under a key, replacing an earlier one. -/
def insert (m : OrdMap κ ν) (k : κ) (v : ν) : OrdMap κ ν :=
  ⟨insertEntry k v m.entries, pairwise_insertEntry k v m.sorted⟩

/-- Removes a key. -/
def erase (m : OrdMap κ ν) (k : κ) : OrdMap κ ν := ⟨m.entries.filter fun e => e.1 ≠ k, m.sorted.filter _⟩

/-- The map of a list of pairs, inserted in order. -/
def ofList (l : List (κ × ν)) : OrdMap κ ν := l.foldl (fun m e => m.insert e.1 e.2) empty

/-- A set is a map without values: adds keys to it. -/
def insertAll (m : OrdMap κ Unit) (ks : List κ) : OrdMap κ Unit := ks.foldl (fun m k => m.insert k ()) m

/-! ### Lookups -/

@[simp] theorem get?_empty (k : κ) : (empty : OrdMap κ ν).get? k = none := rfl

/-- An entry is what a lookup of its key finds. -/
theorem get?_eq_some_iff {v : ν} : m.get? k = some v ↔ (k, v) ∈ m.entries := by
  obtain ⟨l, hl⟩ := m
  simp only [get?]
  induction l with
  | nil => simp
  | cons e l ih =>
    rw [pairwise_cons] at hl
    by_cases hk : e.1 = k
    · simp only [hk, decide_true, find?_cons_of_pos, Option.map_some, Option.some.injEq, mem_cons]
      constructor
      · rintro rfl
        exact .inl (by rw [← hk])
      · rintro (h | h)
        · rw [← h]
        · have := hl.1 _ h
          rw [hk] at this
          exact absurd this (lt_irrefl _)
    · have hne : (k, v) ≠ e := by rintro rfl; exact hk rfl
      simpa [hk, hne] using ih hl.2

theorem get?_eq_none_iff : m.get? k = none ↔ ∀ e ∈ m.entries, e.1 ≠ k := by simp [get?]

theorem contains_iff : m.contains k = true ↔ k ∈ m.keys := by
  simp only [contains, keys, Option.isSome_iff_exists, get?_eq_some_iff, mem_map,
    Prod.exists, exists_and_right, exists_eq_right]

theorem get?_insert (m : OrdMap κ ν) (k : κ) (v : ν) (k' : κ) :
    (m.insert k v).get? k' = if k' = k then some v else m.get? k' := by
  obtain ⟨l, hl⟩ := m
  simp only [insert, get?]
  induction l with
  | nil =>
    by_cases hk : k' = k
    · simp [insertEntry, hk]
    · simp [insertEntry, hk, Ne.symm hk]
  | cons e l ih =>
    rw [pairwise_cons] at hl
    have ih := ih hl.2
    rw [insertEntry]
    by_cases hk : k' = k
    · subst hk
      rw [if_pos rfl] at ih ⊢
      split_ifs with h₁ h₂
      · simp
      · simp
      · have : ¬ e.1 = k' := fun h => h₂ h.symm
        simpa [this] using ih
    · simp only [hk, if_false] at ih ⊢
      split_ifs with h₁ h₂
      · simp [Ne.symm hk]
      · have : ¬ e.1 = k' := by rw [← h₂]; exact Ne.symm hk
        simp [Ne.symm hk, this]
      · by_cases he : e.1 = k'
        · simp [he]
        · simpa [he] using ih

@[simp] theorem get?_insert_self (m : OrdMap κ ν) (k : κ) (v : ν) : (m.insert k v).get? k = some v := by
  rw [get?_insert, if_pos rfl]

theorem get?_erase (m : OrdMap κ ν) (k k' : κ) : (m.erase k).get? k' = if k' = k then none else m.get? k' := by
  by_cases hk : k' = k
  · subst hk
    rw [if_pos rfl, get?_eq_none_iff]
    intro e he
    simpa using (mem_filter.1 he).2
  · rw [if_neg hk]
    refine Option.ext fun v => ?_
    rw [get?_eq_some_iff, get?_eq_some_iff]
    simp [erase, hk]

/-- Removing a key that has a value makes the map smaller. -/
theorem size_erase_lt {v : ν} (h : m.get? k = some v) : (m.erase k).size < m.size := by
  have hmem : (k, v) ∈ m.entries := get?_eq_some_iff.1 h
  exact length_filter_lt_length_iff_exists.2 ⟨(k, v), hmem, by simp⟩

/-! ### Insertion at the end -/

/-- Inserting above every key appends. -/
theorem entries_insert_of_lt (v : ν) (h : ∀ e ∈ m.entries, e.1 < k) :
    (m.insert k v).entries = m.entries ++ [(k, v)] := by
  obtain ⟨l, hl⟩ := m
  simp only [insert] at h ⊢
  clear hl
  induction l with
  | nil => rfl
  | cons e l ih =>
    rw [forall_mem_cons] at h
    rw [insertEntry, if_neg (not_lt.2 h.1.le), if_neg h.1.ne', ih h.2, cons_append]

theorem entries_foldl_insert (h : (m.entries ++ l).Pairwise fun a b => a.1 < b.1) :
    (l.foldl (fun m e => m.insert e.1 e.2) m).entries = m.entries ++ l := by
  induction l generalizing m with
  | nil => simp
  | cons e l ih =>
    have hlt : ∀ e' ∈ m.entries, e'.1 < e.1 := fun e' he' => (pairwise_append.1 h).2.2 e' he' e (mem_cons_self ..)
    have hins : (m.insert e.1 e.2).entries = m.entries ++ [e] := entries_insert_of_lt e.2 hlt
    rw [foldl_cons, ih (by rw [hins]; simpa using h), hins]
    simp

/-- A map is rebuilt from its entries. -/
theorem ofList_entries (m : OrdMap κ ν) : ofList m.entries = m :=
  ext_entries (entries_foldl_insert (m := empty) (by simpa [empty] using m.sorted))

/-- A set is rebuilt from its elements. -/
theorem insertAll_keys (m : OrdMap κ Unit) : empty.insertAll m.keys = m := by
  rw [insertAll, keys, foldl_map]
  exact ofList_entries m

/-! ### Maps with the keys 1 to n -/

/-- A strictly increasing list of numbers from `start` on reaches at least as far as the numbers
without a gap, and only these reach no further. -/
theorem eq_range'_of_getLast {ks : List ℕ} {start last : ℕ} (hlt : ks.Pairwise (· < ·))
    (hstart : ∀ k ∈ ks, start ≤ k) (hlast : ks.getLast? = some last) :
    start + ks.length ≤ last + 1 ∧ (start + ks.length = last + 1 → ks = range' start ks.length) := by
  induction ks generalizing start with
  | nil => simp at hlast
  | cons k rest ih =>
    rw [pairwise_cons] at hlt
    have hk : start ≤ k := hstart k (by simp)
    rcases eq_or_ne rest [] with rfl | hne
    · simp only [getLast?_singleton, Option.some.injEq] at hlast
      subst hlast
      refine ⟨by simpa using hk, fun h => ?_⟩
      simp only [length_singleton, Nat.add_right_cancel_iff] at h
      simp [h]
    · have hlast' : rest.getLast? = some last := by
        rw [getLast?_cons] at hlast
        cases hr : rest.getLast? with
        | none => exact absurd (getLast?_eq_none_iff.1 hr) hne
        | some x => simpa [hr] using hlast
      have hih : k + 1 + rest.length ≤ last + 1 ∧
          (k + 1 + rest.length = last + 1 → rest = range' (k + 1) rest.length) :=
        ih hlt.2 (fun x hx => hlt.1 x hx) hlast'
      refine ⟨by rw [length_cons]; omega, fun h => ?_⟩
      rw [length_cons] at h
      obtain rfl : start = k := by omega
      rw [length_cons, range'_succ, ← hih.2 (by omega)]

variable {ν : Type}

/-- The keys of the map are 1 to n. -/
def Contiguous (m : OrdMap ℕ ν) : Prop := m.keys = range' 1 m.size

theorem length_keys (m : OrdMap ℕ ν) : m.keys.length = m.size := by simp [keys, size]

theorem pairwise_keys (m : OrdMap ℕ ν) : m.keys.Pairwise (· < ·) := pairwise_map.2 m.sorted

variable {m : OrdMap ℕ ν}

/-- A map of positive keys is contiguous exactly when its last key is its size. -/
theorem contiguous_iff_getLast (hpos : ∀ k ∈ m.keys, 1 ≤ k) :
    m.Contiguous ↔ ∀ last, m.keys.getLast? = some last → m.size = last := by
  constructor
  · intro h last hlast
    have hle := (eq_range'_of_getLast m.pairwise_keys hpos hlast).1
    rw [length_keys] at hle
    rw [h] at hlast
    have hmem := mem_of_getLast? hlast
    rw [mem_range'_1] at hmem
    omega
  · intro h
    cases hlast : m.keys.getLast? with
    | none =>
      rw [getLast?_eq_none_iff] at hlast
      have hsize : m.size = 0 := by rw [← length_keys, hlast, length_nil]
      rw [Contiguous, hlast, hsize]
      rfl
    | some last =>
      have heq := (eq_range'_of_getLast m.pairwise_keys hpos hlast).2
      rw [length_keys, h last hlast] at heq
      rw [Contiguous, h last hlast]
      exact heq (by omega)

/-- The keys of a contiguous map are the numbers up to its size. -/
theorem Contiguous.isSome_iff (h : m.Contiguous) (n : ℕ) : (m.get? n).isSome = true ↔ 1 ≤ n ∧ n ≤ m.size := by
  rw [← contains, contains_iff, h, mem_range'_1]
  omega

/-- A map whose keys are the numbers up to `n` is contiguous and has `n` entries. -/
theorem contiguous_of_isSome_iff {n : ℕ}
    (h : ∀ i, (m.get? i).isSome = true ↔ 1 ≤ i ∧ i ≤ n) : m.Contiguous ∧ m.size = n := by
  have hmem : ∀ i, i ∈ m.keys ↔ i ∈ range' 1 n := by
    intro i
    rw [← contains_iff, contains, h, mem_range'_1]
    omega
  have hkeys : m.keys = range' 1 n := m.pairwise_keys.eq_of_mem_iff (pairwise_lt_range' ..) hmem
  have hsize : m.size = n := by rw [← length_keys, hkeys, length_range']
  exact ⟨by rw [Contiguous, hkeys, hsize], hsize⟩

/-- Entry number `i` of a contiguous map. -/
theorem Contiguous.getElem?_entries (h : m.Contiguous) (i : ℕ) :
    m.entries[i]? = (m.get? (i + 1)).map fun v => (i + 1, v) := by
  cases he : m.entries[i]? with
  | none =>
    have hlen : m.size ≤ i := getElem?_eq_none_iff.1 he
    cases hget : m.get? (i + 1) with
    | none => rfl
    | some v =>
      have := (h.isSome_iff (i + 1)).1 (by rw [hget]; rfl)
      omega
  | some e =>
    have hkey : m.keys[i]? = some e.1 := by rw [keys, List.getElem?_map, he, Option.map_some]
    have hlt : i < m.size := (List.getElem?_eq_some_iff.1 he).1
    rw [h, List.getElem?_range' hlt, Option.some.injEq] at hkey
    have hget : m.get? e.1 = some e.2 := get?_eq_some_iff.2 (mem_of_getElem? he)
    rw [show i + 1 = e.1 by omega, hget, Option.map_some]

end OrdMap
