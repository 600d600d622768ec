/-
**The last choice along a list.**

A loop that overwrites a variable whenever an element has something to say leaves the last thing
that was said.  This module has the laws of that value: over a concatenation, and where it was said.
-/

import Mathlib

namespace Latest

open List

variable {α β : Type}

/-- The last value that a function gives along a list. -/
def latest (f : α → Option β) (l : List α) : Option β := l.foldl (fun found x => (f x).or found) none

variable (f : α → Option β)

theorem foldl_or (l : List α) (found : Option β) :
    l.foldl (fun found x => (f x).or found) found = (latest f l).or found := by
  induction l generalizing found with
  | nil => rfl
  | cons x l ih => rw [latest, foldl_cons, foldl_cons, ih, ih, Option.or_none, Option.or_assoc]

@[simp] theorem latest_nil : latest f [] = none := rfl

theorem latest_append (l l' : List α) : latest f (l ++ l') = (latest f l').or (latest f l) := by
  rw [latest, foldl_append, foldl_or]
  rfl

theorem latest_cons (x : α) (l : List α) : latest f (x :: l) = (latest f l).or (f x) := by
  rw [latest, foldl_cons, foldl_or, Option.or_none]

theorem latest_eq_none_iff {f : α → Option β} {l : List α} : latest f l = none ↔ ∀ x ∈ l, f x = none := by
  induction l with
  | nil => simp
  | cons x l ih => rw [latest_cons, Option.or_eq_none_iff, ih, forall_mem_cons, and_comm]

/-- The last choice stands at some element, and nothing is chosen after it. -/
theorem exists_of_latest {f : α → Option β} {l : List α} {y : β} (h : latest f l = some y) :
    ∃ before x after, l = before ++ x :: after ∧ f x = some y ∧ latest f after = none := by
  induction l with
  | nil => cases h
  | cons x l ih =>
    rw [latest_cons] at h
    cases hrest : latest f l with
    | none =>
      rw [hrest, Option.none_or] at h
      exact ⟨[], x, l, rfl, h, hrest⟩
    | some z =>
      rw [hrest, Option.some_or] at h
      obtain ⟨before, w, after, rfl, hw, hafter⟩ := ih (hrest.trans h)
      exact ⟨x :: before, w, after, rfl, hw, hafter⟩

end Latest
