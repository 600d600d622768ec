/-
**Computations that may fail, and what their success says.**

The fallible functions of the repository return `Result`, and most of them are a sequence of early
returns: a test that fails ends the function with an error, and everything after it may use that
the test passed.  Here that shape is written in the monad `Except ε` with a few combinators, and
each of them gets the one lemma a caller needs: when does the whole computation succeed.
-/

import Mathlib

namespace Checked

open List

variable {ε α β γ : Type}

/-! ### Sequencing -/

variable {f : α → Except ε β} {bad : Prop}

theorem bind_eq_ok {x : Except ε α} {r : β} : (x >>= f) = .ok r ↔ ∃ a, x = .ok a ∧ f a = .ok r := by
  cases x with
  | error e | ok a => simp [bind, Except.bind]

@[simp] theorem ok_bind (a : α) (f : α → Except ε β) : (Except.ok a >>= f) = f a := rfl

@[simp] theorem error_bind (e : ε) (f : α → Except ε β) : ((Except.error e : Except ε α) >>= f) = .error e := rfl

@[simp] theorem pure_eq_ok {a : α} : (pure a : Except ε α) = .ok a := rfl

@[simp] theorem throw_eq_error {e : ε} : (throw e : Except ε α) = .error e := rfl

/-- Fails with `e` when `bad` holds: the early return `if bad { return Err(e) }`. -/
def rejectIf (bad : Prop) [Decidable bad] (e : ε) : Except ε Unit :=
  if bad then .error e else .ok ()

variable [Decidable bad]

theorem rejectIf_eq_ok {e : ε} {u : Unit} : rejectIf bad e = .ok u ↔ ¬ bad := by
  unfold rejectIf
  split <;> simp_all

theorem rejectIf_bind_eq_ok {e : ε} {f : Unit → Except ε β} {r : β} :
    (rejectIf bad e >>= f) = .ok r ↔ ¬ bad ∧ f () = .ok r := by
  unfold rejectIf
  split <;> simp_all

@[simp] theorem rejectIf_of_not (h : ¬ bad) (e : ε) : rejectIf bad e = .ok () := if_neg h

@[simp] theorem rejectIf_of (h : bad) (e : ε) : rejectIf bad e = .error e := if_pos h

/-- The value of an option, or the error `e`: `option.ok_or(e)?`. -/
def okOr (o : Option α) (e : ε) : Except ε α :=
  match o with
  | some a => .ok a
  | none => .error e

@[simp] theorem okOr_some (a : α) (e : ε) : okOr (some a) e = .ok a := rfl

@[simp] theorem okOr_none (e : ε) : okOr (none : Option α) e = .error e := rfl

theorem okOr_eq_ok {o : Option α} {e : ε} {a : α} : okOr o e = .ok a ↔ o = some a := by
  cases o <;> simp

theorem mapError_eq_ok {ε' : Type} {x : Except ε α} {f : ε → ε'} {a : α} : x.mapError f = .ok a ↔ x = .ok a := by
  cases x <;> simp [Except.mapError]

/-- Runs a computation on the value of an option, if there is one. -/
def optM (f : α → Except ε β) : Option α → Except ε (Option β)
  | none => .ok none
  | some a => (f a).map some

theorem optM_eq_ok_iff {o : Option α} {r : Option β} : optM f o = .ok r ↔
      (o = none ∧ r = none) ∨ ∃ a b, o = some a ∧ f a = .ok b ∧ r = some b := by
  cases o with
  | none => simp [optM, eq_comm]
  | some a => cases h : f a <;> simp [optM, h, Except.map, eq_comm]

/-! ### Loops -/

/-- A loop that only checks succeeds exactly when every check does. -/
theorem forM_eq_ok_iff {f : α → Except ε Unit} {l : List α} {u : Unit} : forM l f = .ok u ↔ ∀ x ∈ l, f x = .ok () := by
  induction l with
  | nil => simp
  | cons x l ih =>
    rw [forM_cons, bind_eq_ok, forall_mem_cons, ← ih]
    constructor
    · rintro ⟨⟨⟩, hx, hl⟩
      exact ⟨hx, hl⟩
    · rintro ⟨hx, hl⟩
      exact ⟨(), hx, hl⟩

/-- A loop that collects succeeds exactly when every round does, with the results in order. -/
theorem mapM_eq_ok_iff {l : List α} {r : List β} : l.mapM f = .ok r ↔ List.Forall₂ (fun x y => f x = .ok y) l r := by
  induction l generalizing r with
  | nil => simp [eq_comm]
  | cons x l ih =>
    rw [mapM_cons, bind_eq_ok]
    constructor
    · rintro ⟨y, hy, h⟩
      obtain ⟨ys, hys, hr⟩ := bind_eq_ok.1 h
      simp only [pure_eq_ok, Except.ok.injEq] at hr
      subst hr
      exact .cons hy (ih.1 hys)
    · intro h
      cases h with
      | cons hy hys => exact ⟨_, hy, bind_eq_ok.2 ⟨_, ih.2 hys, rfl⟩⟩

theorem mapM_eq_some_iff {f : α → Option β} {l : List α} {r : List β} :
    l.mapM f = some r ↔ List.Forall₂ (fun x y => f x = some y) l r := by
  induction l generalizing r with
  | nil => simp [eq_comm]
  | cons x l ih =>
    simp only [mapM_cons, Option.bind_eq_bind, Option.bind_eq_some_iff, Option.pure_def,
      Option.some.injEq, ih, forall₂_cons_left_iff]
    constructor
    · rintro ⟨y, hy, ys, hys, rfl⟩
      exact ⟨y, ys, hy, hys, rfl⟩
    · rintro ⟨y, ys, hy, hys, rfl⟩
      exact ⟨y, hy, ys, hys, rfl⟩

end Checked
