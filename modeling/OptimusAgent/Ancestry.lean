/-
**Walking up from a node to its root.**

The nodes of a store refer to their parents by key.  A walk follows these references; it ends at a
node without a parent, at a reference that leads nowhere, or when it would visit a key twice, so
that it ends in any store.  The walk is described by a relation and computed with fuel.
-/

import Mathlib

namespace Ancestry

open List

variable {κ ν : Type} (get : κ → Option ν) (key : ν → κ) (up : ν → Option κ)

/-- The walk from a start, given the keys that were visited before. -/
inductive Ascends : List κ → Option ν → List ν → Prop where
  | root {visited : List κ} : Ascends visited none []
  | again {visited : List κ} {v : ν} (h : key v ∈ visited) : Ascends visited (some v) []
  | step {visited : List κ} {v : ν} {path : List ν} (h : key v ∉ visited)
      (hrest : Ascends (key v :: visited) ((up v).bind get) path) :
      Ascends visited (some v) (v :: path)

variable {get key up}

/-! ### Walks -/

/-- The keys of a walk are distinct, and none was visited before. -/
theorem Ascends.nodup {visited : List κ} {start : Option ν} {path : List ν}
    (h : Ascends get key up visited start path) :
    (path.map key).Nodup ∧ ∀ v ∈ path, key v ∉ visited := by
  induction h with
  | root | again => simp
  | @step visited v path hnot _ ih =>
    obtain ⟨hnodup, hfresh⟩ := ih
    have hv : ∀ w ∈ path, key w ≠ key v ∧ key w ∉ visited := by
      intro w hw
      simpa [not_or] using hfresh w hw
    refine ⟨?_, ?_⟩
    · rw [map_cons, nodup_cons]
      refine ⟨fun hmem => ?_, hnodup⟩
      obtain ⟨w, hw, hkey⟩ := mem_map.1 hmem
      exact (hv w hw).1 hkey
    · intro w hw
      rcases mem_cons.1 hw with rfl | hw
      · exact hnot
      · exact (hv w hw).2

/-- The nodes of a walk are in the store if its start is. -/
theorem Ascends.mem_store {visited : List κ} {start : Option ν} {path : List ν}
    (h : Ascends get key up visited start path) (hstart : ∀ v ∈ start, ∃ k, get k = some v) :
    ∀ v ∈ path, ∃ k, get k = some v := by
  induction h with
  | root | again => simp
  | step hnot _ ih =>
    intro w hw
    rcases mem_cons.1 hw with rfl | hw
    · exact hstart w rfl
    · refine ih (fun x hx => ?_) w hw
      obtain ⟨k, _, hget⟩ := Option.bind_eq_some_iff.1 hx
      exact ⟨k, hget⟩

theorem Ascends.unique {visited : List κ} {start : Option ν} {path path' : List ν}
    (h : Ascends get key up visited start path) (h' : Ascends get key up visited start path') : path = path' := by
  induction h generalizing path' with
  | root => cases h'; rfl
  | again hmem =>
    cases h' with
    | again => rfl
    | step hnot => exact absurd hmem hnot
  | step hnot _ ih =>
    cases h' with
    | again hmem => exact absurd hmem hnot
    | step _ hrest => rw [ih hrest]

theorem Ascends.congr {get' : κ → Option ν} {visited : List κ} {start : Option ν} {path : List ν}
    (h : Ascends get key up visited start path) (hup : ∀ v ∈ path, (up v).bind get' = (up v).bind get) :
    Ascends get' key up visited start path := by
  induction h with
  | root => exact .root
  | again hmem => exact .again hmem
  | step hnot _ ih =>
    rw [forall_mem_cons] at hup
    exact .step hnot (hup.1 ▸ ih hup.2)

/-! ### The computed walk -/

variable [DecidableEq κ]

variable (get key up) in
/-- The nodes from the start upwards. -/
def ascend : ℕ → List κ → Option ν → List ν
  | 0, _, _ => []
  | _ + 1, _, none => []
  | fuel + 1, visited, some v =>
    if key v ∈ visited then []
    else v :: ascend fuel (key v :: visited) ((up v).bind get)

/-- With fuel for every key that can be visited, the computed walk is the whole walk. -/
theorem ascends_ascend (keys : List κ) (hkeys : ∀ k v, get k = some v → key v ∈ keys) :
    ∀ (fuel : ℕ) (visited : List κ) (start : Option ν), (∀ v ∈ start, key v ∈ keys) →
      (keys.filter fun k => k ∉ visited).length < fuel →
      Ascends get key up visited start (ascend get key up fuel visited start) := by
  intro fuel
  induction fuel with
  | zero => exact fun _ _ _ hfuel => absurd hfuel (Nat.not_lt_zero _)
  | succ fuel ih =>
    intro visited start hstart hfuel
    cases start with
    | none => exact .root
    | some v =>
      rw [ascend]
      split_ifs with hmem
      · exact .again hmem
      · refine .step hmem (ih _ _ ?_ ?_)
        · intro w hw
          obtain ⟨k, _, hget⟩ := Option.bind_eq_some_iff.1 hw
          exact hkeys k w hget
        · -- visiting `v` uses up its key
          have hless : (keys.filter fun k => k ∉ key v :: visited).length <
              (keys.filter fun k => k ∉ visited).length := by
            have hsub : (keys.filter fun k => k ∉ key v :: visited) =
                (keys.filter fun k => k ∉ visited).filter fun k => k ≠ key v := by
              rw [filter_filter]
              refine filter_congr fun k _ => ?_
              simp [not_or]
            rw [hsub]
            refine length_filter_lt_length_iff_exists.2 ⟨key v, ?_, by simp⟩
            exact mem_filter.2 ⟨hstart v rfl, by simpa using hmem⟩
          omega

end Ancestry
