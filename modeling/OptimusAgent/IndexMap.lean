/-
**Maps in the order of insertion.**

A map that is iterated in the order in which its keys first arrived, as `indexmap::IndexMap` is: a
list of pairs with distinct keys.  Inserting under a present key replaces the value where it stands.
-/

import OptimusAgent.Keyed

/-- A list of pairs with distinct keys. -/
structure IndexMap (κ ν : Type) where
  entries : List (κ × ν)
  nodup : (entries.map Prod.fst).Nodup

namespace IndexMap

open List

variable {κ ν : Type} [DecidableEq κ] {m : IndexMap κ ν} {k : κ}

omit [DecidableEq κ] in
theorem ext_entries {m' : IndexMap κ ν} (h : m.entries = m'.entries) : m = m' := by
  cases m
  cases m'
  congr

instance [DecidableEq ν] : DecidableEq (IndexMap κ ν) := fun m m' =>
  decidable_of_iff (m.entries = m'.entries) ⟨ext_entries, fun h => h ▸ rfl⟩

def empty : IndexMap κ ν := ⟨[], nodup_nil⟩

def keys (m : IndexMap κ ν) : List κ := m.entries.map Prod.fst

def size (m : IndexMap κ ν) : ℕ := m.entries.length

def get? (m : IndexMap κ ν) (k : κ) : Option ν := Keyed.first k m.entries

def contains (m : IndexMap κ ν) (k : κ) : Bool := (m.get? k).isSome

/-- Changes the value under a key, if there is one. -/
def modify (m : IndexMap κ ν) (k : κ) (f : ν → ν) : IndexMap κ ν where
  entries := m.entries.map fun e => (e.1, if e.1 = k then f e.2 else e.2)
  nodup := by
    rw [map_map]
    exact m.nodup

/-- Replaces the value under a present key, and appends a new one. -/
def insert (m : IndexMap κ ν) (k : κ) (v : ν) : IndexMap κ ν :=
  if h : k ∈ m.keys then m.modify k fun _ => v
  else
    { entries := m.entries ++ [(k, v)]
      nodup := by
        rw [map_append, map_singleton]
        refine nodup_append.2 ⟨m.nodup, nodup_singleton _, fun a ha b hb hab => h ?_⟩
        rw [hab, mem_singleton.1 hb] at ha
        exact ha }

/-- Removes a key; the order of the others stays. -/
def erase (m : IndexMap κ ν) (k : κ) : IndexMap κ ν where
  entries := m.entries.filter fun e => e.1 ≠ k
  nodup := m.nodup.sublist (filter_sublist.map _)

/-! ### Lookups -/

theorem get?_eq_none_iff : m.get? k = none ↔ k ∉ m.keys := by
  rw [get?, Keyed.first_eq_none_iff, keys, mem_map]
  exact ⟨fun h ⟨e, he, hk⟩ => h e he hk, fun h e he hk => h ⟨e, he, hk⟩⟩

theorem get?_empty (k : κ) : (empty : IndexMap κ ν).get? k = none := rfl

variable (m : IndexMap κ ν)

theorem get?_modify (k k' : κ) (f : ν → ν) :
    (m.modify k f).get? k' = if k' = k then (m.get? k').map f else m.get? k' := by
  have hfind : ∀ l : List (κ × ν), Keyed.first k' (l.map fun e =>
      (e.1, if e.1 = k then f e.2 else e.2)) =
        if k' = k then (Keyed.first k' l).map f else Keyed.first k' l := by
    intro l
    induction l with
    | nil => simp
    | cons e l ih =>
      by_cases hk : e.1 = k'
      · subst hk
        by_cases h : e.1 = k <;> simp [Keyed.first, h]
      · simpa [Keyed.first, hk] using ih
  exact hfind m.entries

theorem get?_insert (k k' : κ) (v : ν) : (m.insert k v).get? k' = if k' = k then some v else m.get? k' := by
  unfold insert
  split_ifs with hmem hk hk
  · rw [get?_modify, if_pos hk, hk]
    obtain ⟨old, hold⟩ := Option.ne_none_iff_exists'.1 (mt get?_eq_none_iff.1 (not_not.2 hmem))
    rw [hold]
    rfl
  · rw [get?_modify, if_neg hk]
  · rw [get?, Keyed.first_append, Keyed.first_singleton, if_pos hk.symm, hk]
    rw [← get?_eq_none_iff, get?] at hmem
    rw [hmem]
    rfl
  · rw [get?, Keyed.first_append, Keyed.first_singleton, if_neg (Ne.symm hk), Option.or_none]
    rfl

theorem mem_keys_insert {k' : κ} {v : ν} : k' ∈ (m.insert k v).keys ↔ k' = k ∨ k' ∈ m.keys := by
  rw [← not_iff_not, ← get?_eq_none_iff, get?_insert, not_or, ← get?_eq_none_iff]
  split_ifs with hk <;> simp [hk]

theorem mem_keys_foldl_insert {entries : List (κ × ν)} :
    k ∈ (entries.foldl (fun m e => m.insert e.1 e.2) m).keys ↔ k ∈ entries.map Prod.fst ∨ k ∈ m.keys := by
  induction entries generalizing m with
  | nil => simp
  | cons e entries ih =>
    rw [foldl_cons, ih, mem_keys_insert, map_cons, mem_cons]
    tauto

theorem get?_erase (k k' : κ) :
    (m.erase k).get? k' = if k' = k then none else m.get? k' := Keyed.first_filter_ne k k' m.entries

/-! ### Indices -/

/-- The index of a list of values by a key of theirs: a later value replaces an earlier one. -/
def indexBy (key : ν → κ) (vs : List ν) : IndexMap κ ν := vs.foldl (fun m v => m.insert (key v) v) empty

variable {key : ν → κ}

theorem get?_foldl_insert_of_notMem {vs : List ν} (h : k ∉ vs.map key) (m : IndexMap κ ν) :
    (vs.foldl (fun m v => m.insert (key v) v) m).get? k = m.get? k := by
  induction vs generalizing m with
  | nil => rfl
  | cons v vs ih =>
    rw [map_cons, mem_cons, not_or] at h
    rw [foldl_cons, ih h.2, get?_insert, if_neg h.1]

theorem get?_indexBy_of_mem {vs : List ν} (hnodup : (vs.map key).Nodup) {v : ν}
    (hv : v ∈ vs) : (indexBy key vs).get? (key v) = some v := by
  suffices h : ∀ m : IndexMap κ ν, (vs.foldl (fun m v => m.insert (key v) v) m).get? (key v) = some v from h _
  induction vs with
  | nil => cases hv
  | cons w vs ih =>
    intro m
    rw [map_cons, nodup_cons] at hnodup
    rcases mem_cons.1 hv with rfl | hv
    · rw [foldl_cons, get?_foldl_insert_of_notMem hnodup.1, get?_insert, if_pos rfl]
    · exact ih hnodup.2 hv _

theorem of_get?_indexBy {vs : List ν} {v : ν}
    (h : (indexBy key vs).get? k = some v) : v ∈ vs ∧ key v = k := by
  suffices hall : ∀ m : IndexMap κ ν, (vs.foldl (fun m v => m.insert (key v) v) m).get? k = some v →
        (v ∈ vs ∧ key v = k) ∨ m.get? k = some v by
    exact (hall _ h).resolve_right nofun
  clear h
  induction vs with
  | nil => exact fun m h => .inr h
  | cons w vs ih =>
    intro m h
    rcases ih _ h with ⟨hmem, hkey⟩ | h
    · exact .inl ⟨mem_cons_of_mem _ hmem, hkey⟩
    · rw [get?_insert] at h
      split_ifs at h with hk
      · cases h
        exact .inl ⟨mem_cons_self .., hk.symm⟩
      · exact .inr h

end IndexMap
