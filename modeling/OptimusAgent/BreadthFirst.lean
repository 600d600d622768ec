/-
**Breadth-first walks that mark before they check.**

A walk takes nodes from a queue and looks at the entries that lead out of them.  An entry to a node
that was not seen before marks the node as seen; only if the entry is in order, the node is found
and queued.  An entry that is not in order thus hides its node from the entries after it.

The walk is compared with what it is for: the nodes that are reached through entries in order.  What
it finds is reached, and found once.  It finds all that is reached iff, in breadth-first order, no
entry in order comes after others to its node of which none is in order.
-/

import Mathlib.Data.List.Basic
import Mathlib.Data.List.Induction
import Mathlib.Data.List.Nodup

namespace BreadthFirst

open List

variable {N E : Type} [DecidableEq N] (out : N → List E) (dest : E → N) (ok : E → Bool)

/-! ### The nodes that a list of entries finds -/

/-- The nodes that entries find, in the order in which they find them.  The first entry to a node
decides. -/
def newNodes (seen : List N) : List E → List N
  | [] => []
  | e :: rest => (if dest e ∉ seen ∧ ok e = true then [dest e] else []) ++ newNodes (seen ++ [dest e]) rest

variable (seen : List N)

theorem newNodes_append (xs ys : List E) : newNodes dest ok seen (xs ++ ys) =
      newNodes dest ok seen xs ++ newNodes dest ok (seen ++ xs.map dest) ys := by
  induction xs generalizing seen with
  | nil => simp [newNodes]
  | cons x xs ih =>
    rw [cons_append, newNodes, newNodes, ih, append_assoc, map_cons, append_assoc, singleton_append]

theorem newNodes_singleton (e : E) :
    newNodes dest ok seen [e] = if dest e ∉ seen ∧ ok e = true then [dest e] else [] := by
  simp [newNodes]

/-- More entries find more, after what is already found. -/
theorem newNodes_mono {xs ys : List E} (h : xs <+: ys) : newNodes dest ok seen xs <+: newNodes dest ok seen ys := by
  obtain ⟨zs, rfl⟩ := h
  rw [newNodes_append]
  exact prefix_append _ _

variable {n : N}

theorem mem_newNodes {seen : List N} {xs : List E} : n ∈ newNodes dest ok seen xs ↔
      n ∉ seen ∧ ∃ before e after, xs = before ++ e :: after ∧ dest e = n ∧ ok e = true ∧ n ∉ before.map dest := by
  induction xs using reverseRecOn with
  | nil => simp [newNodes]
  | append_singleton xs x ih =>
    rw [newNodes_append, newNodes_singleton, mem_append, ih]
    constructor
    · rintro (⟨hseen, before, e, after, rfl, hdest, hok, hfirst⟩ | hx)
      · exact ⟨hseen, before, e, after ++ [x], by simp, hdest, hok, hfirst⟩
      · split_ifs at hx with hnew
        · obtain rfl := mem_singleton.1 hx
          rw [mem_append, not_or] at hnew
          exact ⟨hnew.1.1, xs, x, [], rfl, rfl, hnew.2, hnew.1.2⟩
        · cases hx
    · rintro ⟨hseen, before, e, after, hsplit, hdest, hok, hfirst⟩
      rcases eq_nil_or_concat after with rfl | ⟨init, last, rfl⟩
      · obtain ⟨rfl, hlast⟩ := append_inj' hsplit rfl
        obtain rfl := head_eq_of_cons_eq hlast
        refine .inr ?_
        have hfresh : dest x ∉ seen ++ xs.map dest := by
          rw [mem_append, hdest, not_or]
          exact ⟨hseen, hfirst⟩
        rw [if_pos ⟨hfresh, hok⟩, hdest]
        exact mem_singleton_self n
      · rw [concat_eq_append, ← cons_append, ← append_assoc] at hsplit
        obtain ⟨rfl, -⟩ := append_inj' hsplit rfl
        exact .inl ⟨hseen, before, e, init, rfl, hdest, hok, hfirst⟩

theorem nodup_newNodes (xs : List E) : (newNodes dest ok seen xs).Nodup := by
  induction xs using reverseRecOn with
  | nil => exact nodup_nil
  | append_singleton xs x ih =>
    rw [newNodes_append, newNodes_singleton]
    split_ifs with hnew
    · refine nodup_append.2 ⟨ih, nodup_singleton _, ?_⟩
      rintro n hn m hm rfl
      -- What was found before has an entry before.
      obtain ⟨-, before, e, after, rfl, hdest, -⟩ := (mem_newNodes dest ok).1 hn
      obtain rfl := mem_singleton.1 hm
      exact hnew.1 (by simp [hdest])
    · rwa [append_nil]

/-! ### Walks -/

/-- What is reached from the roots through entries in order. -/
inductive Reaches (roots : List N) : N → Prop where
  | root {n : N} (h : n ∈ roots) : Reaches roots n
  | step {n : N} {e : E} (h : Reaches roots n) (he : e ∈ out n) (hok : ok e = true) : Reaches roots (dest e)

structure Walk (N : Type) where
  seen : List N
  found : List N
  queue : List N

def Walk.start (roots : List N) : Walk N := ⟨roots, [], roots⟩

/-- Looks at an entry. -/
def Walk.meet (s : Walk N) (e : E) : Walk N :=
  if dest e ∈ s.seen then s
  else if ok e = true then ⟨dest e :: s.seen, s.found ++ [dest e], s.queue ++ [dest e]⟩
  else { s with seen := dest e :: s.seen }

/-- Looks at the entries of the nodes of the queue, at most so many nodes. -/
def walk (fuel : ℕ) (s : Walk N) : Option (List N) :=
  match s.queue, fuel with
  | [], _ => some s.found
  | _ :: _, 0 => none
  | n :: rest, fuel + 1 => walk fuel ((out n).foldl (Walk.meet dest ok) { s with queue := rest })

variable {s : Walk N}

theorem walk_of_empty (fuel : ℕ) (h : s.queue = []) : walk out dest ok fuel s = some s.found := by
  unfold walk
  simp only [h]

theorem walk_of_cons (fuel : ℕ) {rest : List N} (h : s.queue = n :: rest) : walk out dest ok (fuel + 1) s =
      walk out dest ok fuel ((out n).foldl (Walk.meet dest ok) { s with queue := rest }) := by
  conv_lhs => unfold walk
  simp only [h]

/-! ### What a walk has done -/

section

variable (roots : List N)

/-- The walk has seen the roots and the nodes of the entries that it has met. -/
structure Met (met : List E) (taken : List N) (s : Walk N) : Prop where
  seen : ∀ n, n ∈ s.seen ↔ n ∈ roots ++ met.map dest
  found : s.found = newNodes dest ok roots met
  queue : taken ++ s.queue = roots ++ s.found

variable {roots} {dest ok} {taken : List N}

theorem Met.meet {met : List E} (h : Met dest ok roots met taken s) (e : E) :
    Met dest ok roots (met ++ [e]) taken (s.meet dest ok e) := by
  have hadd : ∀ n, n ∈ roots ++ (met ++ [e]).map dest ↔ n = dest e ∨ n ∈ s.seen := by
    intro n
    rw [h.seen, map_append, ← append_assoc, mem_append, or_comm]
    simp
  have hnew := newNodes_append dest ok roots met [e]
  rw [newNodes_singleton, ← h.found] at hnew
  rw [Walk.meet]
  by_cases hseen : dest e ∈ s.seen
  · rw [if_pos hseen]
    have hmet : ¬ (dest e ∉ roots ++ met.map dest ∧ ok e = true) := fun hnot => hnot.1 ((h.seen _).1 hseen)
    rw [if_neg hmet, append_nil] at hnew
    refine ⟨fun n => ?_, hnew.symm, h.queue⟩
    rw [hadd]
    exact ⟨.inr, fun hn => hn.elim (fun hn => hn ▸ hseen) id⟩
  · rw [if_neg hseen]
    have hfresh : dest e ∉ roots ++ met.map dest := fun hmem => hseen ((h.seen _).2 hmem)
    by_cases hok : ok e = true
    · rw [if_pos hok]
      rw [if_pos ⟨hfresh, hok⟩] at hnew
      refine ⟨fun n => ?_, hnew.symm, ?_⟩
      · rw [hadd, mem_cons]
      · rw [← append_assoc, h.queue, append_assoc]
    · rw [if_neg hok]
      rw [if_neg fun hnot => hok hnot.2, append_nil] at hnew
      refine ⟨fun n => ?_, hnew.symm, h.queue⟩
      rw [hadd, mem_cons]

theorem Met.foldl {met : List E} (h : Met dest ok roots met taken s) (entries : List E) :
    Met dest ok roots (met ++ entries) taken (entries.foldl (Walk.meet dest ok) s) := by
  induction entries generalizing met s with
  | nil => rwa [append_nil]
  | cons e rest ih =>
    rw [← singleton_append, ← append_assoc]
    exact ih (h.meet e)

variable (roots) (dest ok)

/-- The walk has met the entries of the nodes that it has taken. -/
structure Walked (taken : List N) (s : Walk N) : Prop where
  met : Met dest ok roots (taken.flatMap out) taken s
  reached : ∀ n ∈ s.found, Reaches out dest ok roots n
  /-- Every list that repeats itself in the way of the walk begins as the walk does. -/
  follows : ∀ order, order = roots ++ newNodes dest ok roots (order.flatMap out) → taken ++ s.queue <+: order

variable {roots} {out dest ok}

theorem Walked.reaches (h : Walked out dest ok roots taken s)
    (hn : n ∈ taken ++ s.queue) : Reaches out dest ok roots n := by
  rw [h.met.queue] at hn
  rcases mem_append.1 hn with hn | hn
  · exact .root hn
  · exact h.reached n hn

/-- **One more node is taken.** -/
theorem Walked.visit {taken rest : List N} (h : Walked out dest ok roots taken s) (hqueue : s.queue = n :: rest) :
    Walked out dest ok roots (taken ++ [n])
      ((out n).foldl (Walk.meet dest ok) { s with queue := rest }) := by
  have hpop : Met dest ok roots (taken.flatMap out) (taken ++ [n]) { s with queue := rest } := by
    refine ⟨h.met.seen, h.met.found, ?_⟩
    rw [← h.met.queue, hqueue, append_assoc, singleton_append]
  have hmet := hpop.foldl (out n)
  rw [← flatMap_singleton out n, ← flatMap_append] at hmet
  rw [flatMap_singleton] at hmet
  refine ⟨hmet, fun m hm => ?_, fun order horder => ?_⟩
  · -- A node is found by an entry in order of a node that was taken.
    rw [hmet.found] at hm
    obtain ⟨-, before, e, after, hsplit, rfl, hok, -⟩ := (mem_newNodes dest ok).1 hm
    have he : e ∈ (taken ++ [n]).flatMap out := by
      rw [hsplit]
      simp
    obtain ⟨k, hk, he⟩ := mem_flatMap.1 he
    refine .step (h.reaches ?_) he hok
    rw [hqueue]
    rcases mem_append.1 hk with hk | hk
    · exact mem_append_left _ hk
    · exact mem_append_right _ (mem_singleton.1 hk ▸ mem_cons_self)
  · have htaken : taken ++ [n] <+: order := by
      refine IsPrefix.trans ?_ (h.follows order horder)
      rw [hqueue]
      exact ⟨rest, by rw [append_assoc, singleton_append]⟩
    obtain ⟨later, hlater⟩ := htaken
    rw [hmet.queue, hmet.found, horder]
    refine (prefix_append_right_inj roots).2 (newNodes_mono dest ok roots ?_)
    refine ⟨later.flatMap out, ?_⟩
    rw [← flatMap_append, hlater]

/-! ### The end of a walk -/

variable (roots) (out dest ok)

/-- What a walk finds: the nodes that the entries of the roots and of these nodes find. -/
structure Finds (found : List N) : Prop where
  fixed : found = newNodes dest ok roots ((roots ++ found).flatMap out)
  reached : ∀ n ∈ found, Reaches out dest ok roots n
  follows : ∀ order, order = roots ++ newNodes dest ok roots (order.flatMap out) → roots ++ found <+: order

variable {roots} {out dest ok}

theorem Walked.finds (h : Walked out dest ok roots taken s)
    (hqueue : s.queue = []) : Finds out dest ok roots s.found := by
  have htaken : taken = roots ++ s.found := by rw [← h.met.queue, hqueue, append_nil]
  refine ⟨?_, h.reached, fun order horder => ?_⟩
  · rw [← htaken]
    exact h.met.found
  · rw [← h.met.queue]
    exact h.follows order horder

variable (all : List N)

/-- The nodes that are left to be taken, at most. -/
def Walk.left (s : Walk N) : ℕ := s.queue.length + (all.filter (· ∉ s.seen)).length

theorem length_filter_notMem_cons {seen : List N} (hn : n ∈ all) (hseen : n ∉ seen) :
    (all.filter (· ∉ n :: seen)).length < (all.filter (· ∉ seen)).length := by
  have hfilter : all.filter (· ∉ n :: seen) = (all.filter (· ∉ seen)).filter (· ≠ n) := by
    rw [filter_filter]
    refine filter_congr fun m _ => ?_
    simp [not_or]
  rw [hfilter, length_filter_lt_length_iff_exists]
  exact ⟨n, mem_filter.2 ⟨hn, by simpa using hseen⟩, by simp⟩

variable {all}

theorem Walk.left_meet (s : Walk N) {e : E} (he : dest e ∈ all) : (s.meet dest ok e).left all ≤ s.left all := by
  rw [Walk.meet]
  by_cases hseen : dest e ∈ s.seen
  · refine Nat.le_of_eq ?_
    rw [if_pos hseen]
  · have hless := length_filter_notMem_cons all he hseen
    rw [if_neg hseen]
    by_cases hok : ok e = true
    · rw [if_pos hok]
      simp only [Walk.left, length_append, length_singleton]
      omega
    · rw [if_neg hok]
      exact Nat.add_le_add_left (Nat.le_of_lt hless) _

theorem Walk.left_foldl (s : Walk N) {entries : List E} (h : ∀ e ∈ entries, dest e ∈ all) :
    (entries.foldl (Walk.meet dest ok) s).left all ≤ s.left all := by
  induction entries generalizing s with
  | nil => exact Nat.le_refl _
  | cons e rest ih =>
    obtain ⟨he, hrest⟩ := forall_mem_cons.1 h
    exact Nat.le_trans (ih (s.meet dest ok e) hrest) (s.left_meet he)

/-- **A walk among finitely many nodes ends.** -/
theorem Walked.walk (hall : ∀ n, ∀ e ∈ out n, dest e ∈ all)
    (h : Walked out dest ok roots taken s) {bound : ℕ} (hbound : s.left all ≤ bound) :
    ∃ found, (∀ fuel ≥ bound, BreadthFirst.walk out dest ok fuel s = some found) ∧ Finds out dest ok roots found := by
  -- Each node that is taken leaves one less.
  induction bound generalizing s taken with
  | zero =>
    have hqueue : s.queue = [] := length_eq_zero_iff.1 (by rw [Walk.left] at hbound; omega)
    exact ⟨s.found, fun fuel _ => walk_of_empty out dest ok fuel hqueue, h.finds hqueue⟩
  | succ bound ih =>
    cases hqueue : s.queue with
    | nil => exact ⟨s.found, fun fuel _ => walk_of_empty out dest ok fuel hqueue, h.finds hqueue⟩
    | cons n rest =>
      have hpop : ({ s with queue := rest } : Walk N).left all ≤ bound := by
        rw [Walk.left, hqueue, length_cons] at hbound
        rw [Walk.left]
        simp only
        omega
      obtain ⟨found, hwalk, hfinds⟩ := ih (h.visit hqueue) (Nat.le_trans (Walk.left_foldl _ (hall n)) hpop)
      refine ⟨found, fun fuel hfuel => ?_, hfinds⟩
      obtain ⟨fuel, rfl⟩ := Nat.exists_eq_add_of_lt (Nat.lt_of_succ_le hfuel)
      rw [walk_of_cons out dest ok (bound + fuel) hqueue]
      exact hwalk (bound + fuel) (Nat.le_add_right _ _)

variable (roots) (out dest ok)

/-- Nothing is hidden: an entry in order to a node that earlier entries lead to is not the first in
order. -/
def Unhidden (entries : List E) : Prop :=
  ∀ before e after, entries = before ++ e :: after → ok e = true → dest e ∈ before.map dest →
    dest e ∈ roots ∨ dest e ∈ (before.filter ok).map dest

variable {roots} {out dest ok}

omit [DecidableEq N] in
theorem Unhidden.of_append {xs ys : List E} (h : Unhidden dest ok roots (xs ++ ys)) : Unhidden dest ok roots xs := by
  rintro before e after rfl hok hbefore
  exact h before e (after ++ ys) (by simp) hok hbefore

/-- An entry in order has its node found, if nothing is hidden. -/
theorem Unhidden.mem_newNodes {xs : List E} (h : Unhidden dest ok roots xs) {e : E} (he : e ∈ xs)
    (hok : ok e = true) : dest e ∈ roots ∨ dest e ∈ newNodes dest ok roots xs := by
  induction xs using reverseRecOn generalizing e with
  | nil => cases he
  | append_singleton xs x ih =>
    rw [newNodes_append, newNodes_singleton, mem_append]
    have hearlier : ∀ e ∈ xs, ok e = true → dest e ∈ roots ∨ dest e ∈ newNodes dest ok roots xs ∨
        dest e ∈ if dest x ∉ roots ++ xs.map dest ∧ ok x = true then [dest x] else [] :=
      fun e he hok => (ih h.of_append he hok).imp_right Or.inl
    rcases mem_append.1 he with he | he
    · exact hearlier e he hok
    · obtain rfl := mem_singleton.1 he
      by_cases hmet : dest e ∈ roots ++ xs.map dest
      · rcases mem_append.1 hmet with hroot | hmet
        · exact .inl hroot
        · rcases h xs e [] rfl hok hmet with hroot | hmem
          · exact .inl hroot
          · obtain ⟨e', he', hdest⟩ := mem_map.1 hmem
            obtain ⟨he', hok'⟩ := mem_filter.1 he'
            have hfound := hearlier e' he' hok'
            rwa [hdest] at hfound
      · rw [if_pos ⟨hmet, hok⟩]
        exact .inr (.inr (mem_singleton_self _))

variable {found : List N} (h : Finds out dest ok roots found)

include h

theorem Finds.reaches (hn : n ∈ roots ++ found) : Reaches out dest ok roots n := by
  rcases mem_append.1 hn with hn | hn
  · exact .root hn
  · exact h.reached n hn

theorem Finds.nodup : found.Nodup := by
  rw [h.fixed]
  exact nodup_newNodes dest ok roots _

end

end BreadthFirst
