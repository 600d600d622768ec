/-
**Groups by key.**

Items are collected into groups one after the other: an item goes to the group with its key, or to a
new one after the others.  Each group is then what its own items make of it, in their order.
-/

import Mathlib

namespace Grouping

open List

variable {α κ γ : Type} [DecidableEq κ]

/-- The item is added to the group with its key, or to a new one. -/
def place (key : α → κ) (name : γ → κ) (start : κ → γ) (add : γ → α → γ) (groups : List γ) (x : α) : List γ :=
  match groups.findIdx? fun g => name g = key x with
  | some i => groups.modify i (add · x)
  | none => groups ++ [add (start (key x)) x]

def collect (key : α → κ) (name : γ → κ) (start : κ → γ) (add : γ → α → γ) (xs : List α) : List γ :=
  xs.foldl (place key name start add) []

variable {key : α → κ} {name : γ → κ} {start : κ → γ} {add : γ → α → γ}

/-- What the items with a key make of a group. -/
def made (key : α → κ) (start : κ → γ) (add : γ → α → γ) (xs : List α) (k : κ) : γ :=
  (xs.filter fun x => key x = k).foldl add (start k)

theorem made_append (xs : List α) (x : α) (k : κ) : made key start add (xs ++ [x]) k =
      if key x = k then add (made key start add xs k) x else made key start add xs k := by
  rw [made, filter_append, foldl_append]
  split_ifs with h
  · rw [filter_cons_of_pos (by simpa using h)]
    rfl
  · rw [filter_cons_of_neg (by simpa using h)]
    rfl

theorem made_of_notMem {xs : List α} {k : κ} (h : ∀ x ∈ xs, key x ≠ k) : made key start add xs k = start k := by
  have hnil : xs.filter (fun x => key x = k) = [] := by
    rw [filter_eq_nil_iff]
    exact fun x hx => by simpa using h x hx
  rw [made, hnil, foldl_nil]

variable (key name start add) in
/-- **Each group is made of its own items**, and there is one for each key. -/
theorem collect_eq (hstart : ∀ k, name (start k) = k) (hadd : ∀ g x, name (add g x) = name g)
    (xs : List α) : ∃ keys : List κ, keys.Nodup ∧ (∀ k, k ∈ keys ↔ ∃ x ∈ xs, key x = k) ∧
      collect key name start add xs = keys.map (made key start add xs) := by
  have hname : ∀ (xs : List α) k, name (made key start add xs k) = k := by
    intro xs k
    rw [made]
    exact foldlRecOn (motive := fun g => name g = k) _ _ (hstart k) fun g hg x _ => (hadd g x).trans hg
  induction xs using reverseRecOn with
  | nil => exact ⟨[], nodup_nil, by simp, rfl⟩
  | append_singleton xs x ih =>
    obtain ⟨keys, hnodup, hkeys, hcollect⟩ := ih
    have hstep : collect key name start add (xs ++ [x]) =
        place key name start add (collect key name start add xs) x := by
      rw [collect, foldl_append]
      rfl
    have hfind : (keys.map (made key start add xs)).findIdx? (fun g => name g = key x) =
        keys.findIdx? fun k => k = key x := by
      rw [findIdx?_map]
      congr 1
      funext k
      rw [Function.comp_apply, hname]
    have hmem : ∀ k, (∃ y ∈ xs ++ [x], key y = k) ↔ k ∈ keys ∨ key x = k := by
      intro k
      simp [hkeys, or_and_right, exists_or]
    rw [hstep, hcollect, place, hfind]
    cases hk : keys.findIdx? fun k => decide (k = key x) with
    | some i =>
      obtain ⟨hi, hki, -⟩ := findIdx?_eq_some_iff_getElem.1 hk
      have hkey : keys[i] = key x := by simpa using hki
      refine ⟨keys, hnodup, fun k => ?_, ?_⟩
      · rw [hmem]
        exact (or_iff_left_of_imp fun hsame => hsame ▸ hkey ▸ getElem_mem hi).symm
      · refine ext_getElem? fun j => ?_
        dsimp only
        rw [getElem?_modify, getElem?_map, getElem?_map]
        cases hj : keys[j]? with
        | none => rfl
        | some k =>
          simp only [Option.map_some, Option.map_eq_map]
          rw [made_append]
          by_cases hij : i = j
          · subst hij
            rw [getElem?_eq_getElem hi] at hj
            cases hj
            rw [if_pos rfl, if_pos hkey.symm]
          · rw [if_neg hij, if_neg]
            -- another place holds another key
            intro hsame
            obtain ⟨hj', rfl⟩ := List.getElem?_eq_some_iff.1 hj
            exact hij ((List.Nodup.getElem_inj_iff hnodup).1 (hkey.trans hsame))
    | none =>
      have hnew : key x ∉ keys := by
        intro hmem
        have hnone := findIdx?_eq_none_iff.1 hk (key x) hmem
        simp at hnone
      refine ⟨keys ++ [key x], ?_, fun k => ?_, ?_⟩
      · exact Nodup.append hnodup (nodup_singleton _) (by simpa using hnew)
      · rw [mem_append, mem_singleton, hmem, eq_comm (a := k)]
      · dsimp only
        rw [map_append, map_singleton]
        congr 1
        · refine map_congr_left fun k hk => ?_
          rw [made_append, if_neg]
          rintro rfl
          exact hnew hk
        · rw [made_append, if_pos rfl, made_of_notMem fun y hy hsame => hnew ((hkeys _).2 ⟨y, hy, hsame⟩)]

/-- What is derived from distinct keys, under its own key, has at most one member for each. -/
theorem filter_filterMap {β : Type} {keys : List κ} (hnodup : keys.Nodup) (f : κ → Option β)
    (label : β → κ) (hlabel : ∀ k b, f k = some b → label b = k) (k : κ) :
    (k ∉ keys → (keys.filterMap f).filter (fun b => label b = k) = []) ∧
      (k ∈ keys → (keys.filterMap f).filter (fun b => label b = k) = (f k).toList) := by
  have hnot : ∀ keys : List κ, k ∉ keys → (keys.filterMap f).filter (fun b => label b = k) = [] := by
    intro keys hk
    rw [filter_eq_nil_iff]
    rintro b hb hlabelled
    obtain ⟨k', hk', hf⟩ := mem_filterMap.1 hb
    have hsame : k' = k := (hlabel k' b hf).symm.trans (by simpa using hlabelled)
    exact hk (hsame ▸ hk')
  refine ⟨hnot keys, fun hk => ?_⟩
  -- the keys around the one in question give nothing
  obtain ⟨before, after, rfl⟩ := append_of_mem hk
  obtain ⟨-, hafter, hdisjoint⟩ := nodup_append.1 hnodup
  have hbefore : k ∉ before := fun h => hdisjoint k h k mem_cons_self rfl
  rw [filterMap_append, filterMap_cons, filter_append, hnot before hbefore, nil_append]
  cases hf : f k with
  | none => exact hnot after (nodup_cons.1 hafter).1
  | some b =>
    dsimp only
    rw [filter_cons_of_pos (by simpa using hlabel k b hf), hnot after (nodup_cons.1 hafter).1]
    rfl

/-! ### New keys -/

/-- Keeps an item if no item with its key is there. -/
def keepNew (key : α → κ) (seen : List α) (x : α) : List α :=
  if key x ∈ seen.map key then seen else seen ++ [x]

theorem filter_foldl_keepNew (key : α → κ) (xs seen : List α) (k : κ) :
    (xs.foldl (keepNew key) seen).filter (fun x => key x = k) =
      if k ∈ seen.map key then seen.filter fun x => key x = k
      else (xs.find? fun x => key x = k).toList := by
  induction xs generalizing seen with
  | nil =>
    split_ifs with hk
    · rfl
    · rw [foldl_nil, find?_nil, Option.toList_none, filter_eq_nil_iff]
      exact fun x hx hkx => hk (mem_map.2 ⟨x, hx, by simpa using hkx⟩)
  | cons x xs ih =>
    rw [foldl_cons, ih, keepNew]
    by_cases hseen : key x ∈ seen.map key
    · rw [if_pos hseen]
      by_cases hk : key x = k
      · subst hk
        rw [if_pos hseen, if_pos hseen]
      · rw [find?_cons_of_neg (by simpa using hk)]
    · rw [if_neg hseen, map_append, filter_append]
      by_cases hk : key x = k
      · subst hk
        rw [if_pos (by simp), if_neg hseen, find?_cons_of_pos (by simp)]
        have hnone : seen.filter (fun y => key y = key x) = [] := by
          rw [filter_eq_nil_iff]
          exact fun y hy hky => hseen (mem_map.2 ⟨y, hy, by simpa using hky⟩)
        rw [hnone]
        simp
      · have hmem : k ∈ seen.map key ++ [x].map key ↔ k ∈ seen.map key := by simp [Ne.symm hk]
        have hlast : [x].filter (fun y => key y = k) = [] := by simp [hk]
        rw [find?_cons_of_neg (by simpa using hk), hlast, append_nil]
        simp only [hmem]

theorem nodup_foldl_keepNew (key : α → κ) (xs seen : List α) (h : (seen.map key).Nodup) :
    ((xs.foldl (keepNew key) seen).map key).Nodup := by
  induction xs generalizing seen with
  | nil => exact h
  | cons x xs ih =>
    refine ih _ ?_
    rw [keepNew]
    split_ifs with hseen
    · exact h
    · rw [map_append]
      exact Nodup.append h (nodup_singleton _) (by simpa using hseen)

end Grouping
