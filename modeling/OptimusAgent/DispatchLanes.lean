/-
**Dispatches of one session may overlap.**

`queue_dispatch` of `core/cron_jobs.rs` runs the dispatches of a session one after the other: each
takes the lane of its session, a fair mutex, and creates it if there is none.  A dispatch that is
done removes the lane from the map before it releases it.  Dispatches that wait for the lane keep
it, but one that comes later creates another lane, and runs beside them.
-/

import OptimusAgent.Text

namespace Cron

open Function

/-- Where a dispatch is in `queue_dispatch`, with the lane that it has. -/
inductive LanePhase where
  | called
  | found (lane : ℕ)
  | waiting (lane : ℕ)
  | running (lane : ℕ)
  | ran (lane : ℕ)
  | removed (lane : ℕ)
  | returned
  deriving DecidableEq

/-- The lane that a dispatch needs: it has found it, and has not yet removed it. -/
def LanePhase.needs : LanePhase → Option ℕ
  | .found lane | .waiting lane | .running lane | .ran lane => some lane
  | _ => none

/-- The lane whose guard a dispatch holds. -/
def LanePhase.holds : LanePhase → Option ℕ
  | .running lane | .ran lane | .removed lane => some lane
  | _ => none

/-- The lanes of a scheduler: the first in the queue of a lane may hold it. -/
structure Lanes where
  dispatchLanes : Str → Option ℕ
  created : ℕ
  queue : ℕ → List ℕ
  phase : ℕ → LanePhase

namespace Lanes

def start : Lanes := ⟨fun _ => none, 0, fun _ => [], fun _ => .called⟩

def setPhase (s : Lanes) (i : ℕ) (phase : LanePhase) : Lanes := { s with phase := update s.phase i phase }

section

variable (session : ℕ → Str)

/-- The next step of dispatch `i`; it stays where it is if another one holds its lane. -/
def step (s : Lanes) (i : ℕ) : Lanes :=
  match s.phase i with
  | .called =>
    match s.dispatchLanes (session i) with
    | some lane => s.setPhase i (.found lane)
    | none =>
      { s with
        dispatchLanes := update s.dispatchLanes (session i) (some s.created)
        created := s.created + 1 }.setPhase i (.found s.created)
  | .found lane => { s with queue := update s.queue lane (s.queue lane ++ [i]) }.setPhase i (.waiting lane)
  | .waiting lane => if (s.queue lane).head? = some i then s.setPhase i (.running lane) else s
  | .running lane => s.setPhase i (.ran lane)
  | .ran lane =>
    { s with
      dispatchLanes := if s.dispatchLanes (session i) = some lane
        then update s.dispatchLanes (session i) none else s.dispatchLanes }.setPhase i (.removed lane)
  | .removed lane => { s with queue := update s.queue lane (s.queue lane).tail }.setPhase i .returned
  | .returned => s

/-- The steps of the dispatches, in any order. -/
def run (s : Lanes) (order : List ℕ) : Lanes := order.foldl (step session) s

/-- No lane is removed while another dispatch has it. -/
def RemovesAlone : Lanes → List ℕ → Prop
  | _, [] => True
  | s, i :: order =>
    (∀ lane, s.phase i = .ran lane → ∀ j, j ≠ i → (s.phase j).needs ≠ some lane) ∧ RemovesAlone (s.step session i) order

/-- The lane that the dispatch needs is the one of its session, and no other one holds the lane that
it holds. -/
structure Placed (s : Lanes) (i : ℕ) (phase : LanePhase) : Prop where
  named : ∀ lane, phase.needs = some lane → s.dispatchLanes (session i) = some lane
  held : ∀ lane, phase.holds = some lane → (s.queue lane).head? = some i

def Sound (s : Lanes) : Prop := ∀ i, Placed session s i (s.phase i)

variable {session} {s : Lanes} {i j : ℕ} {phase : LanePhase}

theorem sound_setPhase (h : Placed session s i phase) (hothers : ∀ j, j ≠ i → Placed session s j (s.phase j)) :
    Sound session (s.setPhase i phase) := by
  intro j
  by_cases hj : j = i
  · subst hj
    simp only [setPhase, update_self]
    exact ⟨h.named, h.held⟩
  · have hplaced := hothers j hj
    simp only [setPhase, update_of_ne hj]
    exact ⟨hplaced.named, hplaced.held⟩

/-- Another dispatch joins the queue of a lane. -/
theorem Placed.join (h : Placed session s j phase) (lane i : ℕ) :
    Placed session { s with queue := update s.queue lane (s.queue lane ++ [i]) } j phase := by
  refine ⟨h.named, fun lane' hholds => ?_⟩
  have hheld := h.held lane' hholds
  dsimp only
  rw [update_apply]
  split_ifs with hlane
  · rw [List.head?_append, ← hlane, hheld, Option.some_or]
  · exact hheld

/-- The lane of another session is put into the map or removed. -/
theorem Placed.rename (h : Placed session s j phase) {name : Str} (lane : Option ℕ) (created : ℕ)
    (hname : ∀ lane, phase.needs = some lane → session j ≠ name) :
    Placed session { s with dispatchLanes := update s.dispatchLanes name lane, created := created } j
      phase := by
  refine ⟨fun lane' hneeds => ?_, h.held⟩
  dsimp only
  rw [update_of_ne (hname lane' hneeds)]
  exact h.named lane' hneeds

/-- **One step**: nobody misses a lane that is removed while nobody else has it. -/
theorem Sound.step (h : Sound session s)
    (halone : ∀ lane, s.phase i = .ran lane → ∀ j, j ≠ i → (s.phase j).needs ≠ some lane) :
    Sound session (s.step session i) := by
  have hself := h i
  rw [Lanes.step]
  cases hphase : s.phase i with
  | called =>
    cases hlane : s.dispatchLanes (session i) with
    | some lane =>
      refine sound_setPhase ⟨?_, fun _ hholds => (by cases hholds)⟩ fun j _ => h j
      rintro _ ⟨⟩
      exact hlane
    | none =>
      have hothers : ∀ j lane, (s.phase j).needs = some lane → session j ≠ session i := by
        intro j lane hneeds hsame
        have hnamed := (h j).named lane hneeds
        rw [hsame, hlane] at hnamed
        cases hnamed
      refine sound_setPhase ⟨?_, fun _ hholds => (by cases hholds)⟩ fun j _ =>
        (h j).rename (some s.created) (s.created + 1) (hothers j)
      rintro _ ⟨⟩
      exact update_self ..
  | found lane =>
    rw [hphase] at hself
    exact sound_setPhase ⟨hself.named, fun _ hholds => (by cases hholds)⟩ fun j _ => (h j).join lane i
  | waiting lane =>
    rw [hphase] at hself
    dsimp only
    split_ifs with hfirst
    · refine sound_setPhase ⟨hself.named, ?_⟩ fun j _ => h j
      rintro _ ⟨⟩
      exact hfirst
    · exact h
  | running lane =>
    rw [hphase] at hself
    exact sound_setPhase ⟨hself.named, hself.held⟩ fun j _ => h j
  | ran lane =>
    rw [hphase] at hself
    have hlane := hself.named lane rfl
    dsimp only
    rw [if_pos hlane]
    refine sound_setPhase ⟨fun _ hneeds => (by cases hneeds), hself.held⟩ fun j hj =>
      (h j).rename none s.created fun lane' hneeds hsame => ?_
    -- a dispatch of the session that needs a lane needs this one
    have hnamed := (h j).named lane' hneeds
    rw [hsame, hlane, Option.some_inj] at hnamed
    exact halone lane hphase j hj (hnamed ▸ hneeds)
  | removed lane =>
    rw [hphase] at hself
    refine sound_setPhase ⟨fun _ hneeds => (by cases hneeds), fun _ hholds => (by cases hholds)⟩ fun j hj =>
      ⟨(h j).named, fun lane' hholds => ?_⟩
    have hheld := (h j).held lane' hholds
    have hne : lane' ≠ lane := by
      rintro rfl
      exact hj (Option.some.inj (hheld.symm.trans (hself.held lane' rfl)))
    dsimp only
    rwa [update_of_ne hne]
  | returned => exact h

theorem Sound.run (h : Sound session s) {order : List ℕ} (halone : RemovesAlone session s order) :
    Sound session (s.run session order) := by
  induction order generalizing s with
  | nil => exact h
  | cons i order ih => exact ih (h.step halone.1) halone.2

/-- **Dispatches of one session do not overlap** if no lane is removed while another one has it. -/
theorem never_overlap (session : ℕ → Str) (order : List ℕ) (halone : RemovesAlone session start order) {i j : ℕ}
    (hij : i ≠ j) (hsame : session i = session j) :
    ¬ ∃ lane lane', (start.run session order).phase i = .running lane ∧
      (start.run session order).phase j = .running lane' := by
  rintro ⟨lane, lane', hi, hj⟩
  have hstart : Sound session start := fun _ =>
    ⟨fun _ hneeds => (by cases hneeds), fun _ hholds => (by cases hholds)⟩
  have hsound := hstart.run halone
  have hplaced := hsound i
  have hplaced' := hsound j
  rw [hi] at hplaced
  rw [hj] at hplaced'
  -- both run on the lane of the session, and its queue has one first dispatch
  have hnamed := hplaced'.named lane' rfl
  rw [← hsame, hplaced.named lane rfl, Option.some_inj] at hnamed
  have hheld := hplaced'.held lane' rfl
  rw [← hnamed, hplaced.held lane rfl] at hheld
  exact hij (Option.some.inj hheld)

end

/-- The first dispatch ends before the second comes. -/
theorem never_overlap_one_by_one :
    ¬ ∃ lane lane', (start.run (fun _ => "s") [0, 0, 0, 0, 0, 0, 1, 1, 1]).phase 0 = .running lane ∧
      (start.run (fun _ => "s") [0, 0, 0, 0, 0, 0, 1, 1, 1]).phase 1 = .running lane' := by
  refine never_overlap _ _ ?_ (by decide) rfl
  simp +contextual [RemovesAlone, start, step, setPhase, update_apply, LanePhase.needs]

/-- The second dispatch waits while the first one removes the lane; the third creates another
one. -/
theorem third_overlaps_second :
    (start.run (fun _ => "s") [0, 0, 0, 1, 1, 0, 0, 0, 1, 2, 2, 2]).phase 1 = .running 0 ∧
      (start.run (fun _ => "s") [0, 0, 0, 1, 1, 0, 0, 0, 1, 2, 2, 2]).phase 2 = .running 1 := by
  decide

end Lanes

end Cron
