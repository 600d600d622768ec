/-
**Settlement of session work.**

Work of a session is registered: a guard is issued, travels with the job, and is acknowledged when
the job has returned or was dropped.  A session that is stopped issues no guards, and is settled
when no guard is pending and none has failed; only then a new generation of work can begin.  This
module embeds the registry of `pi-jev/src/scheduler.rs`.  Each locked section is one step; the
decision of a guard to acknowledge, which reads its tokens, is a step of its own before the locked
one.

The counters are natural numbers.
-/

import OptimusAgent.Text
import OptimusAgent.IndexMap

namespace SessionWork

open List

/-! ### The registry -/

/-- As what a guard was counted. -/
inductive Outcome where
  | completed
  | cancelled
  | failed
  deriving DecidableEq

/-- A guard is held, has decided to acknowledge, or is acknowledged; one that finds no entry in the
registry is not counted. -/
inductive Phase where
  | held
  | acknowledging (success : Bool)
  | acknowledged (outcome : Option Outcome)
  deriving DecidableEq

structure SessionWorkState where
  generation : ℕ
  fenced : Bool
  nextId : ℕ
  pending : List ℕ
  completed : ℕ
  cancelled : ℕ
  failed : ℕ
  deriving DecidableEq

def SessionWorkState.default : SessionWorkState := ⟨0, false, 0, [], 0, 0, 0⟩

structure SessionWorkGuard where
  sessionId : Str
  id : ℕ
  generation : ℕ
  /-- The guard's own token was cancelled. -/
  tokenCancelled : Bool
  /-- The token of normal cancellation was cancelled, if there is one. -/
  normalCancelled : Bool
  phase : Phase
  deriving DecidableEq

/-- The sessions, and all guards that were issued. -/
structure Registry where
  sessions : IndexMap Str SessionWorkState
  guards : List SessionWorkGuard

def Registry.start : Registry := ⟨IndexMap.empty, []⟩

/-- The state of a session, which is a new one if it is not known. -/
def Registry.state (σ : Registry) (s : Str) : SessionWorkState := (σ.sessions.get? s).getD .default

def Registry.setState (σ : Registry) (s : Str) (state : SessionWorkState) : Registry :=
  { σ with sessions := σ.sessions.insert s state }

def SessionWorkGuard.isCancelled (g : SessionWorkGuard) : Bool := g.tokenCancelled || g.normalCancelled

/-- No guard is issued for a stopped session. -/
def registerSessionWork (σ : Registry) (s : Str) (normalCancelled : Bool) : Option SessionWorkGuard × Registry :=
  let state := σ.state s
  if state.fenced then (none, σ.setState s state)
  else
    let guard : SessionWorkGuard := ⟨s, state.nextId, state.generation, false, normalCancelled, .held⟩
    (some guard,
      { σ.setState s { state with
          nextId := state.nextId + 1
          pending := state.pending ++ [state.nextId] } with
        guards := σ.guards ++ [guard] })

def SessionWorkState.count (state : SessionWorkState) : Outcome → SessionWorkState
  | .completed => { state with completed := state.completed + 1 }
  | .cancelled => { state with cancelled := state.cancelled + 1 }
  | .failed => { state with failed := state.failed + 1 }

def SessionWorkGuard.outcome (g : SessionWorkGuard) (success : Bool) : Outcome :=
  if !success then .failed else if g.isCancelled then .cancelled else .completed

/-- The locked section of an acknowledgement. -/
def acknowledge (σ : Registry) (i : ℕ) (g : SessionWorkGuard) (success : Bool) : Registry :=
  let acknowledged (outcome : Option Outcome) : List SessionWorkGuard :=
    σ.guards.modify i fun g => { g with phase := .acknowledged outcome }
  match σ.sessions.get? g.sessionId with
  | none => { σ with guards := acknowledged none }
  | some state =>
    if state.generation = g.generation ∧ g.id ∈ state.pending then
      { σ.setState g.sessionId
          ({ state with pending := state.pending.erase g.id }.count (g.outcome success)) with
        guards := acknowledged (some (g.outcome success)) }
    else { σ with guards := acknowledged none }

structure SessionSettlementStatus where
  generation : ℕ
  cancelRequested : Bool
  pendingWork : ℕ
  completedWork : ℕ
  cancelledWork : ℕ
  failedWork : ℕ
  settled : Bool
  deriving DecidableEq

def sessionRetainStatus (σ : Registry) (s : Str) : SessionSettlementStatus :=
  match σ.sessions.get? s with
  | none => ⟨0, false, 0, 0, 0, 0, false⟩
  | some state =>
    ⟨state.generation, state.fenced, state.pending.length, state.completed, state.cancelled,
      state.failed, state.fenced && state.pending.isEmpty && state.failed = 0⟩

/-- The session is stopped, and the tokens of its pending guards are cancelled. -/
def requestSessionRetainStop (σ : Registry) (s : Str) : Registry :=
  let state := σ.state s
  { σ.setState s { state with fenced := true } with
    guards := σ.guards.map fun g =>
      if g.sessionId = s ∧ g.id ∈ state.pending then { g with tokenCancelled := true } else g }

/-- A new generation begins if the session is stopped and settled. -/
def beginSessionRetainGeneration (σ : Registry) (s : Str) (expectedGeneration : ℕ) : Bool × Registry :=
  match σ.sessions.get? s with
  | none => (false, σ)
  | some state =>
    if state.generation ≠ expectedGeneration ∨ state.fenced = false ∨ state.pending ≠ [] ∨
        state.failed ≠ 0 then (false, σ)
    else
      (true, σ.setState s { state with
        generation := state.generation + 1
        fenced := false
        completed := 0
        cancelled := 0 })

/-! ### Steps -/

inductive Action where
  | register (s : Str) (normalCancelled : Bool)
  /-- A token of normal cancellation is bound, or cancelled. -/
  | normalCancel (guard : ℕ) (cancelled : Bool)
  | finish (guard : ℕ)
  | drop (guard : ℕ) (panicking : Bool)
  /-- The job has returned, or was refused by the queue. -/
  | returned (guard : ℕ) (ok : Bool)
  /-- The locked section of a guard that has decided. -/
  | lock (guard : ℕ)
  | stop (s : Str)
  | begin (s : Str) (expectedGeneration : ℕ)

/-- The guard on which an action works. -/
def Action.guard? : Action → Option ℕ
  | normalCancel i _ | finish i | drop i _ | returned i _ | lock i => some i
  | _ => none

/-- A guard that is held decides to acknowledge. -/
def SessionWorkGuard.decide (g : SessionWorkGuard) (success : Bool) : SessionWorkGuard :=
  if g.phase = .held then { g with phase := .acknowledging success } else g

def act (σ : Registry) : Action → Registry
  | .register s normalCancelled => (registerSessionWork σ s normalCancelled).2
  | .normalCancel i cancelled =>
    { σ with guards := σ.guards.modify i fun g => { g with normalCancelled := cancelled } }
  | .finish i => { σ with guards := σ.guards.modify i fun g => g.decide true }
  | .drop i panicking => { σ with guards := σ.guards.modify i fun g => g.decide (g.isCancelled && !panicking) }
  | .returned i ok => { σ with guards := σ.guards.modify i fun g => g.decide ok }
  | .lock i =>
    match σ.guards[i]? with
    | some g =>
      match g.phase with
      | .acknowledging success => acknowledge σ i g success
      | _ => σ
    | none => σ
  | .stop s => requestSessionRetainStop σ s
  | .begin s expectedGeneration => (beginSessionRetainGeneration σ s expectedGeneration).2

def run (σ : Registry) (actions : List Action) : Registry := actions.foldl act σ

/-- The action begins a new generation of the session. -/
def Registry.begins (σ : Registry) (s : Str) : Action → Bool
  | .begin s' expectedGeneration => s' = s && (beginSessionRetainGeneration σ s' expectedGeneration).1
  | _ => false

/-- No action of the run begins a new generation of the session. -/
def NeverBegins (s : Str) (σ : Registry) : List Action → Prop
  | [] => True
  | a :: rest => σ.begins s a = false ∧ NeverBegins s (act σ a) rest

/-! ### One session -/

/-- What a session sees of a guard: its outcome, once it is acknowledged. -/
structure Issued where
  id : ℕ
  generation : ℕ
  outcome : Option (Option Outcome)
  deriving DecidableEq

def SessionWorkGuard.issued (g : SessionWorkGuard) : Issued where
  id := g.id
  generation := g.generation
  outcome :=
    match g.phase with
    | .acknowledged outcome => some outcome
    | _ => none

def Registry.issuedTo (σ : Registry) (s : Str) : List Issued :=
  (σ.guards.filter fun g => g.sessionId = s).map SessionWorkGuard.issued

/-- What a step can do to a session and its guards; the flag says whether a new generation
begins. -/
inductive SessionStep : Bool → SessionWorkState → List Issued → SessionWorkState → List Issued → Prop
  | quiet (state : SessionWorkState) (l : List Issued) : SessionStep false state l state l
  | stop (state : SessionWorkState) (l : List Issued) : SessionStep false state l { state with fenced := true } l
  | register {state : SessionWorkState} (l : List Issued) (unfenced : state.fenced = false) : SessionStep false state l
        { state with nextId := state.nextId + 1, pending := state.pending ++ [state.nextId] }
        (l ++ [⟨state.nextId, state.generation, none⟩])
  | counted {state : SessionWorkState} (before after : List Issued) {id generation : ℕ}
      (outcome : Outcome) (current : state.generation = generation) (pending : id ∈ state.pending) :
      SessionStep false state (before ++ ⟨id, generation, none⟩ :: after)
        ({ state with pending := state.pending.erase id }.count outcome)
        (before ++ ⟨id, generation, some (some outcome)⟩ :: after)
  | uncounted {state : SessionWorkState} (before after : List Issued) {id generation : ℕ}
      (late : ¬ (state.generation = generation ∧ id ∈ state.pending)) :
      SessionStep false state (before ++ ⟨id, generation, none⟩ :: after) state
        (before ++ ⟨id, generation, some none⟩ :: after)
  | begin {state : SessionWorkState} (l : List Issued) (fenced : state.fenced = true)
      (pending : state.pending = []) (failed : state.failed = 0) :
      SessionStep true state l
        { state with generation := state.generation + 1, fenced := false, completed := 0, cancelled := 0 }
        l

theorem state_setState (σ : Registry) (s s' : Str) (state : SessionWorkState) :
    (σ.setState s state).state s' = if s = s' then state else σ.state s' := by
  rw [Registry.state, Registry.setState]
  dsimp only
  rw [IndexMap.get?_insert]
  by_cases h : s = s'
  · subst h
    simp
  · have h' : ¬ s' = s := fun heq => h heq.symm
    simp [h, h', Registry.state]

variable {σ : Registry} {state : SessionWorkState} {l : List Issued}

theorem state_of_get? {s : Str} (h : σ.sessions.get? s = some state) : σ.state s = state := by
  rw [Registry.state, h]
  rfl

variable {f : SessionWorkGuard → SessionWorkGuard}

/-- Changes that a session does not see. -/
theorem map_issued_modify
    (hf : ∀ g, (f g).sessionId = g.sessionId ∧ (f g).issued = g.issued) (s : Str)
    (l : List SessionWorkGuard) (i : ℕ) :
    ((l.modify i f).filter fun g => g.sessionId = s).map SessionWorkGuard.issued =
      (l.filter fun g => g.sessionId = s).map SessionWorkGuard.issued := by
  induction l generalizing i with
  | nil => cases i <;> rfl
  | cons g l ih =>
    cases i with
    | zero =>
      rw [modify_zero_cons, filter_cons, filter_cons, (hf g).1]
      split_ifs
      · rw [map_cons, map_cons, (hf g).2]
      · rfl
    | succ i =>
      rw [modify_succ_cons, filter_cons, filter_cons]
      split_ifs
      · rw [map_cons, map_cons, ih]
      · exact ih i

theorem map_issued_map (hf : ∀ g, (f g).sessionId = g.sessionId ∧ (f g).issued = g.issued) (s : Str)
    (l : List SessionWorkGuard) :
    ((l.map f).filter fun g => g.sessionId = s).map SessionWorkGuard.issued =
      (l.filter fun g => g.sessionId = s).map SessionWorkGuard.issued := by
  induction l with
  | nil => rfl
  | cons g l ih =>
    rw [map_cons, filter_cons, filter_cons, (hf g).1]
    split_ifs
    · rw [map_cons, map_cons, (hf g).2, ih]
    · exact ih

theorem issued_decide (g : SessionWorkGuard) (success : Bool) :
    (g.decide success).sessionId = g.sessionId ∧ (g.decide success).issued = g.issued := by
  rw [SessionWorkGuard.decide]
  split_ifs with hheld
  · refine ⟨rfl, ?_⟩
    rw [SessionWorkGuard.issued, SessionWorkGuard.issued, hheld]
  · exact ⟨rfl, rfl⟩

variable {g : SessionWorkGuard} {success : Bool}

/-- The session of a guard sees its acknowledgement, and no other. -/
theorem issuedTo_acknowledged {i : ℕ}
    (hg : σ.guards[i]? = some g) (hphase : g.phase = .acknowledging success)
    (outcome : Option Outcome) (s : Str) :
    let l := ((σ.guards.modify i fun g => { g with phase := .acknowledged outcome }).filter
      fun g => g.sessionId = s).map SessionWorkGuard.issued
    (g.sessionId = s ∧ ∃ before after, σ.issuedTo s = before ++ ⟨g.id, g.generation, none⟩ :: after ∧
      l = before ++ ⟨g.id, g.generation, some outcome⟩ :: after) ∨
      (g.sessionId ≠ s ∧ l = σ.issuedTo s) := by
  obtain ⟨hi, hget⟩ := List.getElem?_eq_some_iff.1 hg
  have hsplit : σ.guards = σ.guards.take i ++ g :: σ.guards.drop (i + 1) := by
    rw [← hget, ← drop_eq_getElem_cons hi, take_append_drop]
  have hmodify : (σ.guards.modify i fun g => { g with phase := .acknowledged outcome }) =
      σ.guards.take i ++ { g with phase := .acknowledged outcome } :: σ.guards.drop (i + 1) := by
    rw [modify_eq_take_cons_drop hi, hget]
  have hissued : g.issued = ⟨g.id, g.generation, none⟩ := by rw [SessionWorkGuard.issued, hphase]
  dsimp only
  rw [hmodify, Registry.issuedTo]
  generalize σ.guards.take i = before at *
  generalize σ.guards.drop (i + 1) = after at *
  rw [hsplit, filter_append, filter_append, filter_cons, filter_cons]
  by_cases hs : g.sessionId = s
  · refine .inl ⟨hs, (before.filter fun g => g.sessionId = s).map SessionWorkGuard.issued,
      (after.filter fun g => g.sessionId = s).map SessionWorkGuard.issued, ?_, ?_⟩
    · simp [hs, hissued]
    · simp [hs, SessionWorkGuard.issued]
  · exact .inr ⟨hs, by simp [hs]⟩

/-- A step that a session does not see. -/
theorem SessionStep.unseen {σ' : Registry} {s : Str} (hstate : σ'.state s = σ.state s)
    (hissued : σ'.issuedTo s = σ.issuedTo s) :
    SessionStep false (σ.state s) (σ.issuedTo s) (σ'.state s) (σ'.issuedTo s) := by
  rw [hstate, hissued]
  exact .quiet _ _

theorem register_sessionStep (σ : Registry) (s' : Str) (normalCancelled : Bool) (s : Str) :
    SessionStep false (σ.state s) (σ.issuedTo s) ((registerSessionWork σ s' normalCancelled).2.state s)
      ((registerSessionWork σ s' normalCancelled).2.issuedTo s) := by
  rw [registerSessionWork]
  dsimp only
  by_cases hfenced : (σ.state s').fenced = true
  · rw [if_pos hfenced]
    refine .unseen ?_ rfl
    rw [state_setState]
    split_ifs with hs
    · rw [hs]
    · rfl
  · rw [if_neg hfenced]
    by_cases hs : s' = s
    · subst hs
      have hstep := SessionStep.register (σ.issuedTo s') (by simpa using hfenced : (σ.state s').fenced = false)
      convert hstep using 1
      · exact (state_setState σ s' s' _).trans (if_pos rfl)
      · rw [Registry.issuedTo, Registry.issuedTo, filter_append, map_append]
        simp [SessionWorkGuard.issued]
    · refine .unseen ((state_setState σ s' s _).trans (if_neg hs)) ?_
      rw [Registry.issuedTo, Registry.issuedTo, filter_append, map_append]
      simp [hs]

/-- A guard that is not counted is acknowledged nevertheless. -/
theorem uncounted_sessionStep {i : ℕ} (hg : σ.guards[i]? = some g) (hphase : g.phase = .acknowledging success)
    (hlate : ¬ ((σ.state g.sessionId).generation = g.generation ∧ g.id ∈ (σ.state g.sessionId).pending))
    (s : Str) : SessionStep false (σ.state s) (σ.issuedTo s) (σ.state s)
      (Registry.issuedTo { σ with guards := σ.guards.modify i fun g =>
        { g with phase := .acknowledged none } } s) := by
  rcases issuedTo_acknowledged hg hphase none s with ⟨rfl, before, after, hbefore, hafter⟩ | ⟨-, hsame⟩
  · have hstep := SessionStep.uncounted before after hlate
    rw [← hbefore, ← hafter] at hstep
    exact hstep
  · have hstep := SessionStep.quiet (σ.state s) (σ.issuedTo s)
    nth_rewrite 2 [← hsame] at hstep
    exact hstep

theorem acknowledge_sessionStep {i : ℕ} (hg : σ.guards[i]? = some g)
    (hphase : g.phase = .acknowledging success) (s : Str) :
    SessionStep false (σ.state s) (σ.issuedTo s) ((acknowledge σ i g success).state s)
      ((acknowledge σ i g success).issuedTo s) := by
  rw [acknowledge]
  cases hstate : σ.sessions.get? g.sessionId with
  | none =>
    refine uncounted_sessionStep hg hphase ?_ s
    rw [Registry.state, hstate]
    exact fun h => not_mem_nil h.2
  | some state =>
    dsimp only
    have hstate' := state_of_get? hstate
    by_cases hcounted : state.generation = g.generation ∧ g.id ∈ state.pending
    · rw [if_pos hcounted]
      have hset := state_setState σ g.sessionId s
        ({ state with pending := state.pending.erase g.id }.count (g.outcome success))
      rcases issuedTo_acknowledged hg hphase (some (g.outcome success)) s with
        ⟨rfl, before, after, hbefore, hafter⟩ | ⟨hne, hsame⟩
      · have hstep : SessionStep false state _ _ _ :=
          SessionStep.counted before after (g.outcome success) hcounted.1 hcounted.2
        rw [hstate', hbefore]
        convert hstep using 1
        · exact hset.trans (if_pos rfl)
        · exact hafter
      · exact .unseen (hset.trans (if_neg hne)) hsame
    · rw [if_neg hcounted]
      refine uncounted_sessionStep hg hphase ?_ s
      rw [hstate']
      exact hcounted

/-- **Every step is one of a few for each session.** -/
theorem act_sessionStep (σ : Registry) (a : Action) (s : Str) :
    SessionStep (σ.begins s a) (σ.state s) (σ.issuedTo s) ((act σ a).state s) ((act σ a).issuedTo s) := by
  cases a with
  | register s' normalCancelled => exact register_sessionStep σ s' normalCancelled s
  | normalCancel i cancelled =>
    exact .unseen rfl (map_issued_modify (f := fun g => { g with normalCancelled := cancelled })
      (fun g => ⟨rfl, rfl⟩) s σ.guards i)
  | finish i | drop i panicking | returned i ok =>
    exact .unseen rfl (map_issued_modify (fun g => issued_decide g _) s σ.guards i)
  | lock i =>
    rw [act]
    cases hg : σ.guards[i]? with
    | none => exact .quiet _ _
    | some g =>
      dsimp only
      cases hphase : g.phase with
      | held | acknowledged outcome => exact .quiet _ _
      | acknowledging success => exact acknowledge_sessionStep hg hphase s
  | stop s' =>
    have hsame : (act σ (.stop s')).issuedTo s = σ.issuedTo s := by
      refine map_issued_map (fun g => ?_) s σ.guards
      split_ifs
      · exact ⟨rfl, rfl⟩
      · exact ⟨rfl, rfl⟩
    have hset : (act σ (.stop s')).state s =
        if s' = s then { σ.state s' with fenced := true } else σ.state s := state_setState σ s' s _
    rw [hsame, hset]
    split_ifs with hs
    · rw [hs]
      exact .stop _ _
    · exact .quiet _ _
  | begin s' expectedGeneration =>
    rw [act, Registry.begins, beginSessionRetainGeneration]
    cases hstate : σ.sessions.get? s' with
    | none =>
      rw [Bool.and_false]
      exact .quiet _ _
    | some state =>
      dsimp only
      split_ifs with hrefused
      · rw [Bool.and_false]
        exact .quiet _ _
      · rw [not_or, not_or, not_or, not_not, not_not, not_not] at hrefused
        obtain ⟨-, hfenced, hpending, hfailed⟩ := hrefused
        dsimp only
        by_cases hs : s' = s
        · subst hs
          rw [state_setState, Bool.and_true, state_of_get? hstate, if_pos rfl, decide_eq_true rfl]
          exact .begin _ (by simpa using hfenced) hpending hfailed
        · rw [Bool.and_true, decide_eq_false hs]
          exact .unseen ((state_setState σ s' s _).trans (if_neg hs)) rfl

/-! ### Conservation -/

/-- The counts of a session are those of its guards: those of its generation are pending or counted,
and those of earlier ones are acknowledged. -/
structure Balanced (state : SessionWorkState) (l : List Issued) : Prop where
  pending : state.pending = (l.filter fun g => g.generation = state.generation && g.outcome = none).map Issued.id
  counted : state.completed + state.cancelled + state.failed =
    l.countP fun g => g.generation = state.generation && g.outcome ≠ none
  failed : state.failed = l.countP fun g => g.generation = state.generation && g.outcome = some (some .failed)
  current : ∀ g ∈ l, g.generation ≤ state.generation ∧ (g.outcome = none → g.generation = state.generation)
  ids : ∀ g ∈ l, g.id < state.nextId
  nodup : (l.map Issued.id).Nodup

theorem balanced_start : Balanced .default [] :=
  ⟨rfl, rfl, rfl, fun _ h => (not_mem_nil h).elim, fun _ h => (not_mem_nil h).elim, nodup_nil⟩

section

variable (h : Balanced state l)

include h

theorem Balanced.register :
    Balanced { state with nextId := state.nextId + 1, pending := state.pending ++ [state.nextId] }
      (l ++ [⟨state.nextId, state.generation, none⟩]) where
  pending := by simp [h.pending]
  counted := by simp [h.counted]
  failed := by simp [h.failed]
  current := forall_mem_append.2 ⟨h.current, forall_mem_singleton.2 ⟨le_rfl, fun _ => rfl⟩⟩
  ids := forall_mem_append.2
    ⟨fun g hg => Nat.lt_succ_of_lt (h.ids g hg), forall_mem_singleton.2 (Nat.lt_succ_self _)⟩
  nodup := by
    rw [map_append, map_singleton]
    refine Nodup.append h.nodup (nodup_singleton _) ?_
    rw [disjoint_singleton]
    intro hmem
    obtain ⟨g, hg, hid⟩ := mem_map.1 hmem
    exact absurd (h.ids g hg) (by rw [hid]; exact lt_irrefl _)

/-- A guard that is not acknowledged is pending. -/
theorem Balanced.mem_pending {g : Issued} (hg : g ∈ l) (hopen : g.outcome = none) :
    state.generation = g.generation ∧ g.id ∈ state.pending := by
  have hcurrent := (h.current g hg).2 hopen
  refine ⟨hcurrent.symm, ?_⟩
  rw [h.pending]
  exact mem_map_of_mem (mem_filter.2 ⟨hg, by simp [hcurrent, hopen]⟩)

omit h in
theorem Balanced.acknowledge {before after : List Issued} {id generation : ℕ}
    (h : Balanced state (before ++ ⟨id, generation, none⟩ :: after))
    (hcurrent : state.generation = generation) (outcome : Outcome) :
    Balanced ({ state with pending := state.pending.erase id }.count outcome)
      (before ++ ⟨id, generation, some (some outcome)⟩ :: after) := by
  subst hcurrent
  have hgeneration : ({ state with pending := state.pending.erase id }.count outcome).generation =
      state.generation := by cases outcome <;> rfl
  have hpending : ({ state with pending := state.pending.erase id }.count outcome).pending =
      state.pending.erase id := by cases outcome <;> rfl
  have hnextId : ({ state with pending := state.pending.erase id }.count outcome).nextId =
      state.nextId := by cases outcome <;> rfl
  have hcounts := h.counted
  have hfailed := h.failed
  rw [countP_append, countP_cons] at hcounts hfailed
  have hcurrent := h.current
  have hids := h.ids
  rw [forall_mem_append, forall_mem_cons] at hcurrent hids
  have hnodup := h.nodup
  rw [map_append, map_cons] at hnodup
  refine ⟨?_, ?_, ?_, ?_, ?_, ?_⟩
  · -- the id is at one place only
    have hid : id ∉ (before.filter fun g =>
        decide (g.generation = state.generation) && decide (g.outcome = none)).map Issued.id := by
      intro hmem
      obtain ⟨g, hg, hsame⟩ := mem_map.1 hmem
      refine (nodup_append.1 hnodup).2.2 id ?_ id mem_cons_self rfl
      exact hsame ▸ mem_map_of_mem (mem_filter.1 hg).1
    rw [hpending, hgeneration, h.pending, filter_append, filter_append,
      filter_cons_of_pos (by simp), filter_cons_of_neg (by simp), map_append,
      map_cons, erase_append_right _ hid, erase_cons_head, map_append]
  · rw [hgeneration, countP_append, countP_cons]
    cases outcome <;> simp [SessionWorkState.count] at hcounts ⊢ <;> omega
  · rw [hgeneration, countP_append, countP_cons]
    cases outcome <;> simp [SessionWorkState.count] at hfailed ⊢ <;> omega
  · rw [hgeneration, forall_mem_append, forall_mem_cons]
    exact ⟨hcurrent.1, ⟨le_rfl, fun _ => rfl⟩, hcurrent.2.2⟩
  · rw [hnextId, forall_mem_append, forall_mem_cons]
    exact hids
  · rw [map_append, map_cons]
    exact hnodup

theorem Balanced.begin (hpending : state.pending = []) (hfailed : state.failed = 0) : Balanced
      { state with generation := state.generation + 1, fenced := false, completed := 0, cancelled := 0 }
      l := by
  have hold : ∀ g ∈ l, g.generation ≠ state.generation + 1 := by
    intro g hg
    have hle := (h.current g hg).1
    omega
  have hnone : ∀ p : Issued → Bool, l.countP (fun g => decide (g.generation = state.generation + 1) && p g) = 0 := by
    intro p
    rw [countP_eq_zero]
    intro g hg
    simp [hold g hg]
  refine ⟨?_, ?_, ?_, fun g hg => ⟨(h.current g hg).1.trans (Nat.le_succ _), fun hopen => ?_⟩, h.ids, h.nodup⟩
  · have hempty : (l.filter fun g =>
        decide (g.generation = state.generation + 1) && decide (g.outcome = none)) = [] := by
      rw [filter_eq_nil_iff]
      intro g hg
      simp [hold g hg]
    rw [hempty]
    exact hpending
  · rw [hnone]
    dsimp only
    omega
  · rw [hnone]
    exact hfailed
  · -- no guard is left
    have hmem := (h.mem_pending hg hopen).2
    rw [hpending] at hmem
    exact (not_mem_nil hmem).elim

/-- The step: the counts stay those of the guards. -/
theorem Balanced.step {began : Bool} {state' : SessionWorkState} {l' : List Issued}
    (hstep : SessionStep began state l state' l') : Balanced state' l' := by
  cases hstep with
  | quiet => exact h
  | stop => exact ⟨h.pending, h.counted, h.failed, h.current, h.ids, h.nodup⟩
  | register => exact h.register
  | counted before after outcome current pending => exact h.acknowledge current outcome
  | uncounted before after late => exact (late (h.mem_pending (mem_append_right _ mem_cons_self) rfl)).elim
  | begin _ fenced pending failed => exact h.begin pending failed

end

/-- The run: **the counts are those of the guards.** -/
theorem balanced_run (actions : List Action) (s : Str) :
    Balanced ((run .start actions).state s) ((run .start actions).issuedTo s) :=
  foldlRecOn (motive := fun σ : Registry => Balanced (σ.state s) (σ.issuedTo s)) _ _ balanced_start
    fun σ hσ a _ => hσ.step (act_sessionStep σ a s)

/-! ### Stopped sessions -/

theorem SessionStep.fenced {state' : SessionWorkState} {l' : List Issued}
    (h : SessionStep false state l state' l') (hfenced : state.fenced = true) : state'.fenced = true := by
  cases h with
  | quiet | register unfenced | uncounted => exact hfenced
  | stop => rfl
  | counted before after outcome current pending =>
    cases outcome with
    | completed | cancelled | failed => exact hfenced

/-- A stopped session stays stopped until a generation begins. -/
theorem fenced_run {s : Str} {actions : List Action} (h : (σ.state s).fenced = true)
    (hnever : NeverBegins s σ actions) : ((run σ actions).state s).fenced = true := by
  induction actions generalizing σ with
  | nil => exact h
  | cons a rest ih =>
    have hstep := act_sessionStep σ a s
    rw [hnever.1] at hstep
    exact ih (hstep.fenced h) hnever.2

theorem registerSessionWork_of_fenced {s : Str} (h : (σ.state s).fenced = true)
    (normalCancelled : Bool) : (registerSessionWork σ s normalCancelled).1 = none := by
  rw [registerSessionWork]
  dsimp only
  rw [if_pos h]

/-! ### The status -/

/-- The status of a session that is not known is that of a new one. -/
theorem sessionRetainStatus_eq (σ : Registry) (s : Str) : sessionRetainStatus σ s =
      ⟨(σ.state s).generation, (σ.state s).fenced, (σ.state s).pending.length, (σ.state s).completed,
        (σ.state s).cancelled, (σ.state s).failed,
        (σ.state s).fenced && (σ.state s).pending.isEmpty && (σ.state s).failed = 0⟩ := by
  rw [sessionRetainStatus, Registry.state]
  cases σ.sessions.get? s with
  | none | some state => rfl

/-- A guard of another generation does not change its session. -/
theorem state_act_of_generation {i : ℕ}
    (hg : σ.guards[i]? = some g) (hne : g.generation ≠ (σ.state g.sessionId).generation) {a : Action}
    (ha : a.guard? = some i) (s : Str) : (act σ a).state s = σ.state s := by
  cases a with
  | register | stop | begin => cases ha
  | normalCancel | finish | drop | returned => rfl
  | lock j =>
    cases ha
    rw [act, hg]
    dsimp only
    cases g.phase with
    | held | acknowledged outcome => rfl
    | acknowledging success =>
      dsimp only
      rw [acknowledge]
      cases hstate : σ.sessions.get? g.sessionId with
      | none => rfl
      | some state =>
        rw [state_of_get? hstate] at hne
        dsimp only
        rw [if_neg fun h => hne h.1.symm]
        rfl

/-- The guards of a generation are pending or counted. -/
theorem Balanced.total (h : Balanced state l) :
    state.pending.length + state.completed + state.cancelled + state.failed =
      l.countP fun g => g.generation = state.generation := by
  have hsplit : (l.countP fun g => decide (g.generation = state.generation)) =
      (l.countP fun g => decide (g.generation = state.generation) && decide (g.outcome = none)) +
        l.countP fun g => decide (g.generation = state.generation) && decide (g.outcome ≠ none) := by
    rw [countP_eq_countP_filter_add l _ fun g => decide (g.outcome = none), countP_filter, countP_filter]
    simp
  rw [hsplit, ← h.counted, h.pending, length_map, countP_eq_length_filter]
  omega

/-- **A settled session has no work left.**  In every run, the counts of a session add up to the
guards of its generation; from a stop until a generation begins no guard is issued; if the session
is settled, every guard is acknowledged and none of its generation as failed; and guards of earlier
generations do not change its status. -/
theorem settled_session (actions : List Action) (s : Str) :
    let σ := run .start actions
    let status := sessionRetainStatus σ s
    status.pendingWork + status.completedWork + status.cancelledWork + status.failedWork =
        σ.guards.countP (fun g => g.sessionId = s && g.generation = status.generation) ∧
      (∀ later, NeverBegins s (act σ (.stop s)) later → ∀ normalCancelled,
        (registerSessionWork (run (act σ (.stop s)) later) s normalCancelled).1 = none) ∧
      (status.settled = true → ∀ g ∈ σ.guards, g.sessionId = s → (∃ outcome, g.phase = .acknowledged outcome) ∧
          (g.generation = status.generation → g.phase ≠ .acknowledged (some .failed))) ∧
      ∀ (i : ℕ) (g : SessionWorkGuard) (a : Action), σ.guards[i]? = some g → g.sessionId = s →
        g.generation < status.generation → a.guard? = some i →
        sessionRetainStatus (act σ a) s = status := by
  dsimp only
  have hbalanced := balanced_run actions s
  generalize run .start actions = σ at *
  rw [sessionRetainStatus_eq σ s]
  dsimp only
  refine ⟨?_, fun later hnever normalCancelled => ?_, fun hsettled g hg hs => ?_,
    fun i g a hg hs hlt ha => ?_⟩
  · rw [hbalanced.total, Registry.issuedTo, countP_map, countP_filter]
    refine countP_congr fun g _ => ?_
    by_cases hs : g.sessionId = s
    · simp only [Function.comp_apply, hs, decide_true, Bool.and_true, Bool.true_and, decide_eq_true_eq]
      exact Iff.rfl
    · simp [hs]
  · refine registerSessionWork_of_fenced (fenced_run ?_ hnever) normalCancelled
    have hset : (act σ (.stop s)).state s = { σ.state s with fenced := true } :=
      (state_setState σ s s _).trans (if_pos rfl)
    rw [hset]
  · simp only [Bool.and_eq_true, List.isEmpty_iff, decide_eq_true_eq] at hsettled
    have hmem : g.issued ∈ σ.issuedTo s := List.mem_map_of_mem (List.mem_filter.2 ⟨hg, by simpa using hs⟩)
    have hacknowledged : ∃ outcome, g.phase = .acknowledged outcome := by
      cases hphase : g.phase with
      | acknowledged outcome => exact ⟨outcome, rfl⟩
      | held | acknowledging success =>
        have hpending := (hbalanced.mem_pending hmem (by rw [SessionWorkGuard.issued, hphase])).2
        rw [hsettled.1.2] at hpending
        exact (List.not_mem_nil hpending).elim
    refine ⟨hacknowledged, fun hgeneration hphase => ?_⟩
    have hzero := hbalanced.failed
    rw [hsettled.2, eq_comm, countP_eq_zero] at hzero
    refine hzero g.issued hmem ?_
    simp [SessionWorkGuard.issued, hgeneration, hphase]
  · subst hs
    rw [sessionRetainStatus_eq, state_act_of_generation hg (Nat.ne_of_lt hlt) ha]

end SessionWork
