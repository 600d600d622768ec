/-
**Merging two lists of records by freshness.**

Records carry a key.  Incoming records are offered to a list one after the other: one with a new key
is put at the end, one with a known key takes the place of the last record with that key if it wins
against it.  Where no key occurs twice, the merged list is read off key by key.
-/

import Mathlib

namespace FreshMerge

open List

variable {α κ : Type} [DecidableEq κ] (key : α → κ) (wins : α → α → Bool)

/-- The list with its last record under the key of `x` challenged by `x`, if there is such a
record. -/
def challenge (x : α) : List α → Option (List α)
  | [] => none
  | a :: l =>
    match challenge x l with
    | some l' => some (a :: l')
    | none => if key a = key x then some ((if wins x a then x else a) :: l) else none

/-- One record offered to a list. -/
def offer (l : List α) (x : α) : List α := (challenge key wins x l).getD (l ++ [x])

/-- A list of records offered to another one. -/
def merge (l incoming : List α) : List α := incoming.foldl (offer key wins) l

/-- The first record with a key. -/
def lookup (k : κ) (l : List α) : Option α := l.find? fun a => key a = k

@[simp] theorem merge_cons (l : List α) (x : α) (incoming : List α) :
    merge key wins l (x :: incoming) = merge key wins (offer key wins l x) incoming := rfl

theorem merge_append (l incoming incoming' : List α) :
    merge key wins l (incoming ++ incoming') = merge key wins (merge key wins l incoming) incoming' :=
  foldl_append

variable {key wins} {l : List α}

theorem challenge_eq_none {x : α} (h : key x ∉ l.map key) : challenge key wins x l = none := by
  induction l with
  | nil => rfl
  | cons a l ih =>
    rw [map_cons, mem_cons, not_or] at h
    rw [challenge, ih h.2]
    exact if_neg (Ne.symm h.1)

theorem challenge_eq_some {x a : α} {l' : List α} (hkey : key a = key x) (hlast : key x ∉ l'.map key) :
    challenge key wins x (l ++ a :: l') = some (l ++ (if wins x a then x else a) :: l') := by
  induction l with
  | nil =>
    rw [nil_append, challenge, challenge_eq_none hlast]
    exact if_pos hkey
  | cons b l ih => rw [cons_append, challenge, ih, cons_append]

theorem offer_of_notMem {x : α} (h : key x ∉ l.map key) : offer key wins l x = l ++ [x] := by
  rw [offer, challenge_eq_none h, Option.getD_none]

theorem offer_of_last {x a : α} {l' : List α} (hkey : key a = key x) (hlast : key x ∉ l'.map key) :
    offer key wins (l ++ a :: l') x = l ++ (if wins x a then x else a) :: l' := by
  rw [offer, challenge_eq_some hkey hlast, Option.getD_some]

/-- An offer replaces the record with the key, or puts the new one at the end. -/
theorem offer_cases (wins : α → α → Bool) (hnodup : (l.map key).Nodup) (x : α) :
    (key x ∉ l.map key ∧ offer key wins l x = l ++ [x]) ∨
      ∃ (before : List α) (a : α) (after : List α), l = before ++ a :: after ∧ key a = key x ∧
        key x ∉ before.map key ∧ offer key wins l x = before ++ (if wins x a then x else a) :: after := by
  by_cases hmem : key x ∈ l.map key
  · obtain ⟨a, ha, hkey⟩ := mem_map.1 hmem
    obtain ⟨before, after, rfl⟩ := append_of_mem ha
    rw [map_append, map_cons, nodup_append] at hnodup
    obtain ⟨-, hafter, hdisjoint⟩ := hnodup
    refine .inr ⟨before, a, after, rfl, hkey, ?_, offer_of_last hkey ?_⟩
    · exact fun hbefore => hdisjoint _ hbefore _ (hkey ▸ mem_cons_self) rfl
    · exact hkey ▸ (nodup_cons.1 hafter).1
  · exact .inl ⟨hmem, offer_of_notMem hmem⟩

omit [DecidableEq κ] in
theorem key_ite {x a : α} (hkey : key a = key x) : key (if wins x a then x else a) = key a := by
  split_ifs
  · exact hkey.symm
  · rfl

theorem nodup_offer (hnodup : (l.map key).Nodup) (x : α) : ((offer key wins l x).map key).Nodup := by
  obtain ⟨hnew, heq⟩ | ⟨before, a, after, rfl, hkey, -, heq⟩ := offer_cases wins hnodup x
  · rw [heq, map_append, nodup_append]
    refine ⟨hnodup, nodup_singleton _, fun k hk k' hk' => ?_⟩
    rintro rfl
    exact hnew (mem_singleton.1 hk' ▸ hk)
  · rw [heq, map_append, map_cons, key_ite hkey, ← map_cons, ← map_append]
    exact hnodup

theorem nodup_merge (hnodup : (l.map key).Nodup) (incoming : List α) : ((merge key wins l incoming).map key).Nodup := by
  induction incoming generalizing l with
  | nil => exact hnodup
  | cons x incoming ih => exact ih (nodup_offer hnodup x)

/-- Records with new keys are put at the end. -/
theorem merge_of_new {incoming : List α} (hincoming : (incoming.map key).Nodup)
    (hnew : ∀ x ∈ incoming, key x ∉ l.map key) : merge key wins l incoming = l ++ incoming := by
  induction incoming generalizing l with
  | nil => exact (append_nil l).symm
  | cons x incoming ih =>
    rw [map_cons, nodup_cons] at hincoming
    rw [forall_mem_cons] at hnew
    rw [merge_cons, offer_of_notMem hnew.1, ih hincoming.2, append_assoc, singleton_append]
    intro y hy hmem
    rw [map_append, mem_append, map_singleton, mem_singleton] at hmem
    obtain hmem | hmem := hmem
    · exact hnew.2 y hy hmem
    · exact hincoming.1 (hmem ▸ mem_map_of_mem hy)

/-! ### What is found under a key -/

theorem lookup_eq_some_iff (hnodup : (l.map key).Nodup) {k : κ} {a : α} :
    lookup key k l = some a ↔ a ∈ l ∧ key a = k := by
  constructor
  · intro h
    exact ⟨mem_of_find?_eq_some h, by simpa using find?_some h⟩
  · rintro ⟨hmem, rfl⟩
    obtain ⟨before, after, rfl⟩ := append_of_mem hmem
    rw [map_append, map_cons, nodup_append] at hnodup
    refine find?_eq_some_iff_append.2 ⟨by simp, before, after, rfl, fun b hb => ?_⟩
    have hne := hnodup.2.2 (key b) (mem_map_of_mem hb) (key a) mem_cons_self
    simpa using hne

theorem lookup_eq_none_iff {k : κ} : lookup key k l = none ↔ k ∉ l.map key := by simp [lookup, find?_eq_none]

/-- What is found under a key when `x` was offered to a list with `found` there. -/
def challenged (wins : α → α → Bool) (x : α) : Option α → α
  | some a => if wins x a then x else a
  | none => x

theorem lookup_offer (hnodup : (l.map key).Nodup) (x : α) (k : κ) : lookup key k (offer key wins l x) =
      if key x = k then some (challenged wins x (lookup key k l)) else lookup key k l := by
  obtain ⟨hnew, heq⟩ | ⟨before, a, after, rfl, hkey, hbefore, heq⟩ := offer_cases wins hnodup x
  · rw [heq, lookup, find?_append]
    split_ifs with hk
    · subst hk
      rw [lookup_eq_none_iff.2 hnew, challenged]
      have hnone : l.find? (fun a => decide (key a = key x)) = none := lookup_eq_none_iff.2 hnew
      simp [hnone]
    · simp [lookup, hk]
  · have hcases : ∀ b : α, key b = key x → lookup key k (before ++ b :: after) =
        if key x = k then some b else lookup key k (before ++ after) := by
      intro b hb
      split_ifs with hk
      · subst hk
        have hnone : before.find? (fun a => decide (key a = key x)) = none := lookup_eq_none_iff.2 hbefore
        simp [lookup, hnone, hb]
      · have hbk : key b ≠ k := hb ▸ hk
        simp [lookup, find?_append, hbk]
    rw [heq, hcases _ ((key_ite hkey).trans hkey), hcases a hkey]
    by_cases hk : key x = k
    · rw [if_pos hk, if_pos hk, if_pos hk, challenged]
    · rw [if_neg hk, if_neg hk, if_neg hk]

/-- **What is found under a key after a merge.** -/
theorem lookup_merge {incoming : List α} (hnodup : (l.map key).Nodup) (hincoming : (incoming.map key).Nodup) (k : κ) :
    lookup key k (merge key wins l incoming) =
      (lookup key k incoming).elim (lookup key k l) fun x => some (challenged wins x (lookup key k l)) := by
  induction incoming generalizing l with
  | nil => rfl
  | cons x incoming ih =>
    rw [map_cons, nodup_cons] at hincoming
    rw [merge_cons, ih (nodup_offer hnodup x) hincoming.2, lookup_offer hnodup]
    by_cases hk : key x = k
    · subst hk
      have hnone : lookup key (key x) incoming = none := lookup_eq_none_iff.2 hincoming.1
      rw [hnone]
      simp [lookup]
    · have hcons : lookup key k (x :: incoming) = lookup key k incoming := by simp [lookup, hk]
      rw [hcons, if_neg hk]

/-! ### Changed copies of the records of a list -/

/-- A list merged with changed copies of its own records. -/
theorem merge_map {f : α → α} (hf : ∀ a, key (f a) = key a) (hnodup : (l.map key).Nodup) :
    merge key wins l (l.map f) = l.map fun a => if wins (f a) a then f a else a := by
  -- The records before the ones that are still to come have been replaced.
  have hrun : ∀ (rest done : List α), ((done ++ rest).map key).Nodup →
      merge key wins (done ++ rest) (rest.map f) = done ++ rest.map fun a => if wins (f a) a then f a else a := by
    intro rest
    induction rest with
    | nil => intro done _; rfl
    | cons a rest ih =>
      intro done hdone
      have hlast : key (f a) ∉ rest.map key := by
        rw [map_append, map_cons, nodup_append] at hdone
        exact hf a ▸ (nodup_cons.1 hdone.2.1).1
      have hkeys : ((done ++ [if wins (f a) a then f a else a]) ++ rest).map key = (done ++ a :: rest).map key := by
        simp [key_ite (hf a).symm]
      rw [map_cons, merge_cons, offer_of_last (hf a).symm hlast]
      have hnext := ih (done ++ [if wins (f a) a then f a else a]) (hkeys ▸ hdone)
      simpa using hnext
  exact hrun l [] hnodup

end FreshMerge
