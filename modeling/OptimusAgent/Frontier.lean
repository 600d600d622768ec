/-
**The frontier of a set of numbers.**

Things numbered `0, 1, 2, …` arrive in any order.  The *frontier* of what arrived is the first
number that is missing; everything above it waits.
-/

import Mathlib

namespace Frontier

open Finset

/-- The least number that is not in the set. -/
noncomputable def front (S : Finset ℕ) : ℕ := sInf {n | n ∉ S}

/-- The elements above the frontier. -/
noncomputable def waiting (S : Finset ℕ) : Finset ℕ := S.filter (front S < ·)

theorem front_notMem (S : Finset ℕ) : front S ∉ S := Nat.sInf_mem (s := {n | n ∉ S}) (Infinite.exists_notMem_finset S)

variable {S : Finset ℕ}

theorem mem_of_lt_front {n : ℕ} (h : n < front S) : n ∈ S := by
  by_contra hn
  exact Nat.notMem_of_lt_sInf h hn

/-- The frontier is the number that is missing while all below it are there. -/
theorem front_eq {c : ℕ} (hc : c ∉ S) (hbelow : ∀ j < c, j ∈ S) : front S = c := by
  refine le_antisymm (Nat.sInf_le hc) (not_lt.1 fun hlt => ?_)
  exact front_notMem S (hbelow _ hlt)

theorem front_insert {i : ℕ} (hi : front S < i) : front (insert i S) = front S := by
  refine front_eq ?_ fun j hj => mem_insert_of_mem (mem_of_lt_front hj)
  rw [mem_insert, not_or]
  exact ⟨hi.ne, front_notMem S⟩

theorem card_waiting_insert {i : ℕ} (hi : front S < i) (hnew : i ∉ S) :
    (waiting (insert i S)).card = (waiting S).card + 1 := by
  rw [waiting, front_insert hi, filter_insert, if_pos hi, card_insert_of_notMem]
  · rfl
  · exact fun hmem => hnew (mem_filter.1 hmem).1

end Frontier
