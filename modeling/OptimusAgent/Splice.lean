/-
**Replacing parts of a sequence, all at once.**

A sequence is cut into parts that are replaced and gaps that are kept.  The regions list, from the
front, each gap with the part after it and what the part is replaced by; a last gap follows.  Where
a place lies in no part, the result is cut at the same place: what becomes of the items before it
comes first.
-/

import Mathlib

namespace Splice

open List

variable {α : Type}

/-- A gap, the part after it, and what the part is replaced by. -/
structure Region (α : Type) where
  gap : List α
  old : List α
  new : List α

/-- The sequence that is cut. -/
def source (regions : List (Region α)) (last : List α) : List α := (regions.flatMap fun r => r.gap ++ r.old) ++ last

/-- The result. -/
def target (regions : List (Region α)) (last : List α) : List α := (regions.flatMap fun r => r.gap ++ r.new) ++ last

/-- What becomes of the first `n` items. -/
def upTo : List (Region α) → List α → ℕ → List α
  | [], last, n => last.take n
  | r :: rs, last, n =>
    if n ≤ r.gap.length then r.gap.take n
    else r.gap ++ r.new ++ upTo rs last (n - (r.gap.length + r.old.length))

/-- What becomes of the items from the place `n` on. -/
def since : List (Region α) → List α → ℕ → List α
  | [], last, n => last.drop n
  | r :: rs, last, n =>
    if n ≤ r.gap.length then r.gap.drop n ++ r.new ++ target rs last
    else since rs last (n - (r.gap.length + r.old.length))

/-- The places from `start` up to `stop` lie in no part. -/
def Avoids (regions : List (Region α)) (start stop : ℕ) : Prop :=
  ∀ (xs : List (Region α)) (r : Region α) (ys : List (Region α)), regions = xs ++ r :: ys →
    stop ≤ (source xs r.gap).length ∨ (source xs r.gap).length + r.old.length ≤ start

@[simp] theorem source_nil (last : List α) : source [] last = last := rfl

@[simp] theorem target_nil (last : List α) : target [] last = last := rfl

theorem source_cons (r : Region α) (rs : List (Region α)) (last : List α) :
    source (r :: rs) last = r.gap ++ r.old ++ source rs last := by
  simp [source]

theorem target_cons (r : Region α) (rs : List (Region α)) (last : List α) :
    target (r :: rs) last = r.gap ++ r.new ++ target rs last := by
  simp [target]

variable {start stop : ℕ}

/-- The parts after the first one, seen from behind it. -/
theorem Avoids.of_cons {r : Region α} {rs : List (Region α)}
    (h : Avoids (r :: rs) start stop) :
    Avoids rs (start - (r.gap.length + r.old.length)) (stop - (r.gap.length + r.old.length)) := by
  intro xs r' ys hrs
  have hthere := h (r :: xs) r' ys (by rw [hrs, cons_append])
  rw [source_cons, length_append, length_append] at hthere
  omega

theorem drop_eq_take_append_drop {l : List α} (h : start ≤ stop) :
    l.drop start = (l.drop start).take (stop - start) ++ l.drop stop := by
  have hsplit := (take_append_drop (stop - start) (l.drop start)).symm
  rwa [drop_drop, Nat.add_sub_cancel' h] at hsplit

theorem target_eq_upTo_append_since (regions : List (Region α)) (last : List α) (n : ℕ) :
    target regions last = upTo regions last n ++ since regions last n := by
  induction regions generalizing n with
  | nil => rw [target_nil, upTo, since, take_append_drop]
  | cons r rs ih =>
    rw [target_cons, upTo, since]
    split_ifs
    · simp only [← append_assoc, take_append_drop]
    · rw [append_assoc (r.gap ++ r.new), ← ih]

/-- An interval that meets no part comes first of what becomes of the items from it on. -/
theorem since_eq_of_avoids {regions : List (Region α)} {last : List α}
    (h : Avoids regions start stop) (hlt : start < stop) (hold : ∀ r ∈ regions, r.old ≠ []) :
    since regions last start = ((source regions last).drop start).take (stop - start) ++ since regions last stop := by
  induction regions generalizing start stop with
  | nil => exact drop_eq_take_append_drop hlt.le
  | cons r rs ih =>
    rw [forall_mem_cons] at hold
    have hpos := length_pos_iff.2 hold.1
    rcases h [] r rs rfl with hbefore | hafter
    · -- The interval lies in the first gap.
      rw [source_nil] at hbefore
      have hsource : ((source (r :: rs) last).drop start).take (stop - start) =
          (r.gap.drop start).take (stop - start) := by
        rw [source_cons, append_assoc, drop_append_of_le_length (by omega),
          take_append_of_le_length (by rw [length_drop]; omega)]
      rw [since, since, if_pos (by omega), if_pos hbefore, hsource, ← append_assoc,
        ← append_assoc, ← drop_eq_take_append_drop hlt.le]
    · rw [source_nil] at hafter
      have hlength : (r.gap ++ r.old).length = r.gap.length + r.old.length := length_append
      have hsource : (source (r :: rs) last).drop start =
          (source rs last).drop (start - (r.gap.length + r.old.length)) := by
        rw [source_cons, drop_append, drop_eq_nil_of_le (by omega), nil_append, hlength]
      rw [since, since, if_neg (by omega), if_neg (by omega), hsource, ih h.of_cons (by omega) hold.2]
      congr 2
      omega

/-- **What meets no part is kept, between what becomes of the items before and after it.** -/
theorem target_eq_of_avoids {regions : List (Region α)} {last : List α}
    (h : Avoids regions start stop) (hlt : start < stop) (hold : ∀ r ∈ regions, r.old ≠ []) :
    target regions last = upTo regions last start ++
      ((source regions last).drop start).take (stop - start) ++ since regions last stop := by
  rw [target_eq_upTo_append_since regions last start, since_eq_of_avoids h hlt hold, append_assoc]

end Splice
