/-
**Lists of keyed values.**

A wire message is a list of keyed fields that a decoder reads by key: the first value under a key,
or all of them.  This module has the laws of the two lookups that encoders rely on: over a
concatenation, under a renaming of the keys, and over the numbered groups of fields that an encoder
writes for the entries of a list.
-/

import Mathlib

namespace Keyed

open List Function

variable {κ κ' ν α : Type}

section

variable [DecidableEq κ] [DecidableEq κ']

/-- The first value under a key. -/
def first (k : κ) (l : List (κ × ν)) : Option ν := (l.find? fun e => e.1 = k).map Prod.snd

/-- All values under a key. -/
def all (k : κ) (l : List (κ × ν)) : List ν := (l.filter fun e => e.1 = k).map Prod.snd

@[simp] theorem first_nil (k : κ) : first k ([] : List (κ × ν)) = none := rfl

theorem first_cons (k : κ) (e : κ × ν) (l : List (κ × ν)) :
    first k (e :: l) = if e.1 = k then some e.2 else first k l := by
  by_cases h : e.1 = k <;> simp [first, h]

@[simp] theorem first_append (k : κ) (l l' : List (κ × ν)) : first k (l ++ l') = (first k l).or (first k l') := by
  rw [first, first, find?_append]
  cases l.find? fun e => e.1 = k <;> rfl

@[simp] theorem first_singleton (k k' : κ) (v : ν) : first k [(k', v)] = if k' = k then some v else none := by
  by_cases h : k' = k <;> simp [first, h]

variable {k : κ} {l changes : List (κ × ν)} {v : ν}

theorem first_eq_none_iff : first k l = none ↔ ∀ e ∈ l, e.1 ≠ k := by simp [first]

theorem mem_of_first_eq_some (h : first k l = some v) : (k, v) ∈ l := by
  simp only [first, Option.map_eq_some_iff] at h
  obtain ⟨e, he, rfl⟩ := h
  obtain rfl : e.1 = k := by simpa using find?_some he
  exact mem_of_find?_eq_some he

/-- Under distinct keys, what is found is what is there. -/
theorem first_eq_some_iff_mem (h : (l.map Prod.fst).Nodup) : first k l = some v ↔ (k, v) ∈ l := by
  refine ⟨mem_of_first_eq_some, fun hmem => ?_⟩
  induction l with
  | nil => cases hmem
  | cons e l ih =>
    rw [map_cons, nodup_cons] at h
    rcases mem_cons.1 hmem with rfl | hl
    · simp [first]
    · have hk : e.1 ≠ k := fun heq => h.1 (heq ▸ mem_map_of_mem hl)
      simpa [first, hk] using ih h.2 hl

/-- Under distinct keys, the order does not matter. -/
theorem first_perm {l' : List (κ × ν)} (hperm : l.Perm l') (h : (l.map Prod.fst).Nodup) (k : κ) :
    first k l = first k l' := by
  have h' : (l'.map Prod.fst).Nodup := (hperm.map Prod.fst).nodup_iff.1 h
  refine Option.ext fun v => ?_
  rw [first_eq_some_iff_mem h, first_eq_some_iff_mem h', hperm.mem_iff]

/-- Renaming keys one-to-one does not change what a lookup finds. -/
theorem first_map {f : κ → κ'} (hf : Injective f) (k : κ) (l : List (κ × ν)) :
    first (f k) (l.map fun e => (f e.1, e.2)) = first k l := by
  simp [first, find?_map, comp_def, hf.eq_iff]

/-- Removing a key hides its values and no others. -/
theorem first_filter_ne (k k' : κ) (l : List (κ × ν)) :
    first k' (l.filter fun e => e.1 ≠ k) = if k' = k then none else first k' l := by
  induction l with
  | nil => simp
  | cons e l ih =>
    by_cases h : e.1 = k
    · rw [filter_cons_of_neg (by simpa using h), ih]
      by_cases hk : k' = k
      · simp [hk]
      · have hne : ¬ e.1 = k' := fun he => hk (he.symm.trans h)
        simp [hk, first, hne]
    · rw [filter_cons_of_pos (by simpa using h)]
      by_cases hk : e.1 = k'
      · have hne : ¬ k' = k := fun he => h (hk.trans he)
        simp [first, hk, hne]
      · simpa [first, hk] using ih

@[simp] theorem all_nil (k : κ) : all k ([] : List (κ × ν)) = [] := rfl

@[simp] theorem all_append (k : κ) (l l' : List (κ × ν)) : all k (l ++ l') = all k l ++ all k l' := by simp [all]

theorem mem_all_iff : v ∈ all k l ↔ (k, v) ∈ l := by
  simp only [all, mem_map, mem_filter, decide_eq_true_eq]
  constructor
  · rintro ⟨e, ⟨he, rfl⟩, rfl⟩
    exact he
  · exact fun h => ⟨(k, v), ⟨h, rfl⟩, rfl⟩

theorem all_eq_nil_iff : all k l = [] ↔ ∀ e ∈ l, e.1 ≠ k := by simp [all]

/-- The first value under a key is the first of all values under it. -/
theorem first_eq_head?_all (k : κ) (l : List (κ × ν)) : first k l = (all k l).head? := by
  rw [first, all, head?_map, head?_filter]

/-- Under distinct keys there is at most one value under each. -/
theorem all_of_nodup (h : (l.map Prod.fst).Nodup) (k : κ) : all k l = (first k l).toList := by
  induction l with
  | nil => rfl
  | cons e l ih =>
    rw [map_cons, nodup_cons] at h
    rw [first_cons]
    by_cases hk : e.1 = k
    · have hrest : all k l = [] := all_eq_nil_iff.2 fun e' he' hk' => h.1 (mem_map.2 ⟨e', he', hk'.trans hk.symm⟩)
      rw [if_pos hk, all, filter_cons_of_pos (by simpa using hk), map_cons, ← all, hrest]
      rfl
    · rw [if_neg hk, ← ih h.2, all, filter_cons_of_neg (by simpa using hk), ← all]

/-- A value that is alone under its key is the first one. -/
theorem first_eq_some_of_length_all_le (hmem : (k, v) ∈ l) (hlen : (all k l).length ≤ 1) : first k l = some v := by
  rw [← mem_all_iff] at hmem
  rw [first_eq_head?_all]
  match hall : all k l with
  | [] => exact absurd (hall ▸ hmem) (by simp)
  | [v'] =>
    rw [hall, mem_singleton] at hmem
    rw [hmem]
    rfl
  | _ :: _ :: _ =>
    rw [hall] at hlen
    simp at hlen

theorem all_map {f : κ → κ'} (hf : Injective f) (k : κ) (l : List (κ × ν)) :
    all (f k) (l.map fun e => (f e.1, e.2)) = all k l := by
  simp [all, filter_map, comp_def, hf.eq_iff]

/-- A list whose fields all have one key. -/
theorem all_of_forall_eq (h : ∀ e ∈ l, e.1 = k) : all k l = l.map Prod.snd := by
  rw [all, filter_eq_self.2 (by simpa using h)]

/-- The values of an optional field. -/
theorem all_toList_map (k key : κ) (value : Option ν) :
    all k (value.toList.map fun v => (key, v)) = if key = k then value.toList else [] := by
  by_cases h : key = k <;> cases value <;> simp [all, h]

/-- The values of fields with one key. -/
theorem all_map_const (k key : κ) (l : List ν) : all k (l.map fun v => (key, v)) = if key = k then l else [] := by
  by_cases h : key = k
  · rw [if_pos h, all_of_forall_eq (by simp [h]), map_map]
    simp [comp_def]
  · rw [if_neg h, all_eq_nil_iff]
    intro e he hk
    obtain ⟨v, -, rfl⟩ := mem_map.1 he
    exact h hk

/-! ### Changing a value where it stands -/

/-- Replaces the first value under a key, or appends one. -/
def put (k : κ) (v : ν) : List (κ × ν) → List (κ × ν)
  | [] => [(k, v)]
  | e :: l => if e.1 = k then (k, v) :: l else e :: put k v l

@[simp] theorem put_put (k : κ) (v w : ν) (l : List (κ × ν)) : put k v (put k w l) = put k v l := by
  induction l with
  | nil => simp [put]
  | cons e l ih =>
    by_cases h : e.1 = k
    · simp [put, h]
    · simp [put, h, ih]

theorem first_put (k k' : κ) (v : ν) (l : List (κ × ν)) :
    first k' (put k v l) = if k' = k then some v else first k' l := by
  induction l with
  | nil =>
    rw [put, first_singleton]
    exact if_congr eq_comm rfl rfl
  | cons e l ih =>
    by_cases h : e.1 = k
    · by_cases hk : k' = k
      · simp [put, first, h, hk]
      · have hne : ¬ k = k' := fun heq => hk heq.symm
        simp [put, first, h, hk, hne]
    · by_cases hk : e.1 = k'
      · have hne : ¬ k' = k := fun heq => h (hk.trans heq)
        simp [put, first, hk, hne]
      · simpa [put, first, h, hk] using ih

theorem mem_put {e : κ × ν} (h : e ∈ put k v l) : e = (k, v) ∨ e ∈ l := by
  induction l with
  | nil => exact .inl (by simpa [put] using h)
  | cons x l ih =>
    rw [put] at h
    split_ifs at h
    · exact (mem_cons.1 h).imp_right (mem_cons_of_mem _)
    · rcases mem_cons.1 h with rfl | hmem
      · exact .inr (mem_cons_self ..)
      · exact (ih hmem).imp_right (mem_cons_of_mem _)

theorem nodup_keys_put (h : (l.map Prod.fst).Nodup) : ((put k v l).map Prod.fst).Nodup := by
  induction l with
  | nil => simp [put]
  | cons x l ih =>
    rw [map_cons, nodup_cons] at h
    rw [put]
    split_ifs with hk
    · exact nodup_cons.2 ⟨hk ▸ h.1, h.2⟩
    · refine nodup_cons.2 ⟨fun hmem => ?_, ih h.2⟩
      obtain ⟨e, he, hx⟩ := mem_map.1 hmem
      rcases mem_put he with rfl | hel
      · exact hk hx.symm
      · exact h.1 (hx ▸ mem_map_of_mem hel)

/-- Putting back the value that is there changes nothing. -/
theorem put_of_first (h : first k l = some v) : put k v l = l := by
  induction l with
  | nil => cases h
  | cons e l ih =>
    by_cases hk : e.1 = k
    · rw [put, if_pos hk]
      have hv : e.2 = v := by simpa [first, hk] using h
      rw [← hk, ← hv]
    · rw [put, if_neg hk, ih (by simpa [first, hk] using h)]

/-- Changes under different keys can be made in either order, if one of the keys is there. -/
theorem put_comm {k' : κ} (hne : k ≠ k') (h : (first k l).isSome = true)
    (v w : ν) : put k v (put k' w l) = put k' w (put k v l) := by
  induction l with
  | nil => cases h
  | cons e l ih =>
    by_cases hk : e.1 = k
    · have hk' : ¬ e.1 = k' := fun heq => hne (hk.symm.trans heq)
      simp [put, hk, hne]
    · by_cases hk' : e.1 = k'
      · simp [put, hk', Ne.symm hne]
      · simp only [put, if_neg hk, if_neg hk']
        rw [ih (by simpa [first, hk] using h)]

/-- Puts some values one after another. -/
def putAll (changes l : List (κ × ν)) : List (κ × ν) := changes.foldl (fun l e => put e.1 e.2 l) l

@[simp] theorem putAll_cons (e : κ × ν) (changes l : List (κ × ν)) :
    putAll (e :: changes) l = putAll changes (put e.1 e.2 l) := rfl

theorem first_putAll_of_notMem (h : k ∉ changes.map Prod.fst)
    (l : List (κ × ν)) : first k (putAll changes l) = first k l := by
  induction changes generalizing l with
  | nil => rfl
  | cons e changes ih =>
    rw [map_cons, mem_cons, not_or] at h
    rw [putAll_cons, ih h.2, first_put, if_neg h.1]

theorem first_putAll_of_mem (hnodup : (changes.map Prod.fst).Nodup)
    {e : κ × ν} (he : e ∈ changes) (l : List (κ × ν)) : first e.1 (putAll changes l) = some e.2 := by
  induction changes generalizing l with
  | nil => cases he
  | cons x changes ih =>
    rw [map_cons, nodup_cons] at hnodup
    rw [putAll_cons]
    rcases mem_cons.1 he with rfl | hmem
    · rw [first_putAll_of_notMem hnodup.1, first_put, if_pos rfl]
    · exact ih hnodup.2 hmem _

/-- A change under a key that is there can be made before changes under other keys. -/
theorem put_putAll (hk : k ∉ changes.map Prod.fst) (h : (first k l).isSome = true) (v : ν) :
    put k v (putAll changes l) = putAll changes (put k v l) := by
  induction changes generalizing l with
  | nil => rfl
  | cons e changes ih =>
    rw [map_cons, mem_cons, not_or] at hk
    have hfirst : (first k (put e.1 e.2 l)).isSome = true := by rw [first_put, if_neg hk.1, h]
    rw [putAll_cons, ih hk.2 hfirst, put_comm hk.1 h, putAll_cons]

/-- Values that were replaced are put back. -/
theorem putAll_putAll (hnodup : (changes.map Prod.fst).Nodup)
    {v : κ → ν} (h : ∀ e ∈ changes, first e.1 l = some (v e.1)) :
    putAll (changes.map fun e => (e.1, v e.1)) (putAll changes l) = l := by
  induction changes with
  | nil => rfl
  | cons e changes ih =>
    rw [map_cons, nodup_cons] at hnodup
    have he : first e.1 l = some (v e.1) := h e (mem_cons_self ..)
    have hsome : (first e.1 (put e.1 e.2 l)).isSome = true := by rw [first_put, if_pos rfl]; rfl
    rw [map_cons, putAll_cons, putAll_cons, put_putAll hnodup.1 hsome, put_put, put_of_first he]
    exact ih hnodup.2 fun x hx => h x (mem_cons_of_mem _ hx)

/-- A key that was not there is removed again. -/
theorem filter_put_self (h : first k l = none) (v : ν) : ((put k v l).filter fun e => e.1 ≠ k) = l := by
  induction l with
  | nil => simp [put]
  | cons e l ih =>
    have hall := first_eq_none_iff.1 h
    have hk : ¬ e.1 = k := hall e (mem_cons_self ..)
    rw [put, if_neg hk, filter_cons_of_pos (by simpa using hk),
      ih (first_eq_none_iff.2 fun x hx => hall x (mem_cons_of_mem _ hx))]

theorem filter_put_of_ne {k' : κ} (hne : k ≠ k') (v : ν) (l : List (κ × ν)) :
    ((put k v l).filter fun e => e.1 ≠ k') = put k v (l.filter fun e => e.1 ≠ k') := by
  induction l with
  | nil => simp [put, hne]
  | cons e l ih =>
    by_cases hk : e.1 = k
    · have hk' : ¬ e.1 = k' := fun heq => hne (hk.symm.trans heq)
      simp [put, hk, hne]
    · by_cases hk' : e.1 = k'
      · simpa [put, hk, hk', Ne.symm hne] using ih
      · simpa [put, hk, hk'] using ih

end

/-! ### Numbered groups -/

/-- The fields of the entries of a list: group number `n` holds the fields of entry `n`, counted
from `start`. -/
def groups (g : ℕ → α → List (κ × ν)) (start : ℕ) (l : List α) : List (κ × ν) :=
  (l.zipIdx start).flatMap fun p => g p.2 p.1

variable (g : ℕ → α → List (κ × ν))

@[simp] theorem groups_nil (start : ℕ) : groups g start [] = [] := rfl

@[simp] theorem groups_cons (start : ℕ) (x : α) (l : List α) :
    groups g start (x :: l) = g start x ++ groups g (start + 1) l := rfl

variable {g : ℕ → α → List (κ × ν)}

/-- Groups that are not empty have at least one pair per entry. -/
theorem length_le_length_groups (hg : ∀ n x, g n x ≠ []) (start : ℕ) (l : List α) :
    l.length ≤ (groups g start l).length := by
  induction l generalizing start with
  | nil => simp
  | cons x l ih =>
    have hpos := length_pos_iff.2 (hg start x)
    have hrest := ih (start + 1)
    rw [groups_cons, length_append, length_cons]
    omega

theorem mem_groups {start : ℕ} {l : List α} {e : κ × ν}
    (h : e ∈ groups g start l) : ∃ n x, start ≤ n ∧ l[n - start]? = some x ∧ e ∈ g n x := by
  induction l generalizing start with
  | nil => simp at h
  | cons x l ih =>
    rw [groups_cons, mem_append] at h
    rcases h with h | h
    · exact ⟨start, x, Nat.le_refl _, by simp, h⟩
    · obtain ⟨n, y, hn, hy, he⟩ := ih h
      refine ⟨n, y, by omega, ?_, he⟩
      rw [show n - start = (n - (start + 1)) + 1 by omega, getElem?_cons_succ, hy]

/-! The values that one entry of a list contributes, if there is such an entry. -/

theorem getD_map_toList (o : Option α) (g : α → Option ν) :
    (o.map fun x => (g x).toList).getD [] = (o.bind g).toList := by
  cases o <;> rfl

theorem getD_map_singleton (o : Option α) (g : α → ν) :
    (o.map fun x => (some (g x)).toList).getD [] = (o.map g).toList := by
  cases o <;> rfl

variable [DecidableEq κ]

/-- The fields under a key with number `n` are those in group `n`. -/
theorem all_groups {number : κ → Option ℕ}
    (hg : ∀ n x, ∀ e ∈ g n x, number e.1 = some n) {k : κ} {n : ℕ} (hk : number k = some n)
    (start : ℕ) (l : List α) (hn : start ≤ n) :
    all k (groups g start l) = (l[n - start]?.map fun x => all k (g n x)).getD [] := by
  induction l generalizing start with
  | nil => simp
  | cons x l ih =>
    rw [groups_cons, all_append]
    rcases Nat.eq_or_lt_of_le hn with rfl | hlt
    · -- the key's own group comes first, and no later group has its number
      have hrest : all k (groups g (start + 1) l) = [] := by
        rw [all_eq_nil_iff]
        intro e he hkey
        obtain ⟨n, y, hn', -, hmem⟩ := mem_groups he
        have hnumber := hg n y e hmem
        rw [hkey, hk, Option.some.injEq] at hnumber
        omega
      simp [hrest]
    · have hhead : all k (g start x) = [] := by
        rw [all_eq_nil_iff]
        intro e he hkey
        have hnumber := hg start x e he
        rw [hkey, hk, Option.some.injEq] at hnumber
        omega
      rw [hhead, nil_append, ih (start + 1) hlt,
        show n - start = (n - (start + 1)) + 1 by omega, getElem?_cons_succ]

/-- A lookup in the numbered groups of entries, for keys made of a slot and a number: the number
picks the group, and only slots of the entries' own are found. -/
theorem all_groups_numbered {σ : Type} [DecidableEq σ]
    {g : ℕ → α → List ((σ × Option ℕ) × ν)} (own : σ → Prop) [DecidablePred own]
    (hg : ∀ n x, ∀ e ∈ g n x, own e.1.1 ∧ e.1.2 = some n) (slot : σ) (number : Option ℕ)
    (l : List α) :
    all (slot, number) (groups g 1 l) =
      match number with
      | some (n + 1) => if own slot then
          (l[n]?.map fun x => all (slot, some (n + 1)) (g (n + 1) x)).getD [] else []
      | _ => [] := by
  have hnil : (¬ own slot ∨ number = none ∨ number = some 0) → all (slot, number) (groups g 1 l) = [] := by
    intro h
    rw [all_eq_nil_iff]
    intro e he hk
    obtain ⟨n, x, hn, -, hmem⟩ := mem_groups he
    obtain ⟨hown, hnum⟩ := hg n x _ hmem
    rw [hk] at hown hnum
    rcases h with h | h | h
    · exact h hown
    · simp [h] at hnum
    · simp only [h, Option.some.injEq] at hnum
      omega
  match number with
  | none => exact hnil (by simp)
  | some 0 => exact hnil (by simp)
  | some (n + 1) =>
    by_cases hown : own slot
    · have hnumber : ∀ n x, ∀ e ∈ g n x, Prod.snd e.1 = some n := fun n x e he => (hg n x e he).2
      rw [all_groups hnumber rfl 1 l (by omega)]
      simp [hown]
    · simp only [hown, if_false]
      exact hnil (.inl hown)

end Keyed
