/-
**Copies of session actions that are written back.**

The tasks of a session work on copies.  A task takes a copy of an action, from the selection or from
a listing, and gives up the lock of the store; later it moves the copy along its lifecycle and
writes it back.  The transition is checked on the copy, and the write replaces whatever is stored
under the id.  In between another task may have cancelled the action, or may have run it.

Here the tasks interleave in any way.  A copy that was overtaken puts a cancelled or running action
back into the queue.
-/

import OptimusAgent.ActionStoreRuns

namespace Actions

open ActionStore List

variable {P Msg Entry J : Type}

/-- A copy of an action, the stored value that it was taken from or last written as, and the number
of transitions that were made on it since. -/
structure Clone (P J : Type) where
  base : SessionAction P J
  copy : SessionAction P J
  transitions : ℕ
  deriving DecidableEq

/-- A store and the copies of its tasks. -/
structure Tasks (P J : Type) where
  store : ActionStore P J
  clones : ℕ → Option (Clone P J)

/-- The steps of the tasks; a task is known by a number. -/
inductive TaskStep (P J Entry : Type) where
  | enqueue (action : SessionAction P J)
  | enqueueTail (action : SessionAction P J)
  | enqueueFront (action : SessionAction P J)
  | remove (predicate : SessionAction P J → Bool) (candidates : Option (List (SessionAction P J)))
  /-- A task selects the next action and keeps a copy. -/
  | select (task : ℕ)
  /-- A task takes a copy from the owned actions, of which the queued ones are some. -/
  | take (task : ℕ) (id : Str)
  /-- A transition of the copy; an illegal one leaves it as it is. -/
  | transition (task : ℕ) (next : ActionLifecycle J) (proof : Option (RollbackProof Entry))
  | write (task : ℕ)
  | rollback (task : ℕ) (proof : Option (RollbackProof Entry))
  | move (task : ℕ) (delivery : DeliveryPolicy) (index : ℕ)
  | release (task : ℕ)

/-- The copies after a task has another one. -/
def Tasks.setClone (sys : Tasks P J) (task : ℕ) (clone : Clone P J) : ℕ → Option (Clone P J) :=
  Function.update sys.clones task (some clone)

/-- A copy of an action as it is stored. -/
def Clone.of (action : SessionAction P J) : Clone P J := ⟨action, action, 0⟩

/-- A copy after a write with its result: if it was stored, it is current. -/
def Clone.written (clone : Clone P J) (copy : SessionAction P J) (transitions : ℕ)
    (result : Except Str Unit) : Clone P J :=
  match result with
  | .ok _ => .of copy
  | .error _ => ⟨clone.base, copy, transitions⟩

variable [SessionPayload P Msg Entry] [DecidableEq Entry]
variable {s : ActionStore P J} {sys : Tasks P J} {clone : Clone P J}

def stepTasks (sys : Tasks P J) : TaskStep P J Entry → Tasks P J
  | .enqueue action => { sys with store := (sys.store.enqueue action).1 }
  | .enqueueTail action => { sys with store := (sys.store.enqueueTail action).1 }
  | .enqueueFront action => { sys with store := (sys.store.enqueueFront action).1 }
  | .remove predicate candidates => { sys with store := (sys.store.remove predicate candidates).1 }
  | .select task =>
    match sys.store.selectFirst with
    | (store, .ok (some action)) => ⟨store, sys.setClone task (.of action)⟩
    | (store, _) => { sys with store := store }
  | .take task id =>
    match sys.store.ownedActions.find? fun action => action.id = id with
    | some action => { sys with clones := sys.setClone task (.of action) }
    | none => sys
  | .transition task next proof =>
    match sys.clones task with
    | none => sys
    | some clone =>
      match transitionSessionAction clone.copy next proof with
      | .error _ => sys
      | .ok copy => { sys with clones := sys.setClone task ⟨clone.base, copy, clone.transitions + 1⟩ }
  | .write task =>
    match sys.clones task with
    | none => sys
    | some clone =>
      match sys.store.updateAction clone.copy with
      | (store, result) =>
        ⟨store, sys.setClone task (clone.written clone.copy clone.transitions result)⟩
  | .rollback task proof =>
    match sys.clones task with
    | none => sys
    | some clone =>
      match sys.store.rollback clone.copy proof with
      | (store, copy, result) =>
        let transitions := if copy.state = clone.copy.state then 0 else 1
        ⟨store, sys.setClone task (clone.written copy (clone.transitions + transitions) result)⟩
  | .move task delivery index =>
    match sys.clones task with
    | none => sys
    | some clone =>
      match sys.store.moveQueued clone.copy delivery index with
      | (store, copy, result) => ⟨store, sys.setClone task (clone.written copy clone.transitions result)⟩
  | .release task =>
    match sys.clones task with
    | none => sys
    | some clone => { sys with store := (sys.store.releaseTerminal clone.copy).1 }

def runTasks (sys : Tasks P J) (steps : List (TaskStep P J Entry)) : Tasks P J := steps.foldl stepTasks sys

def Tasks.new : Tasks P J := ⟨.new, fun _ => none⟩

omit [SessionPayload P Msg Entry] [DecidableEq Entry] in
/-- The copy that a step writes back, or releases with, was taken from an action that is still
stored. -/
def TaskStep.Fresh (sys : Tasks P J) : TaskStep P J Entry → Prop
  | .write task => ∀ clone ∈ sys.clones task, clone.base ∈ sys.store.ownedActions
  | .rollback task _ => ∀ clone ∈ sys.clones task, clone.base ∈ sys.store.ownedActions
  | .move task _ _ => ∀ clone ∈ sys.clones task, clone.base ∈ sys.store.ownedActions
  | .release task => ∀ clone ∈ sys.clones task, clone.base ∈ sys.store.ownedActions
  | _ => True

omit [SessionPayload P Msg Entry] [DecidableEq Entry] in
/-- The number of transitions that a step writes into the store at most, for one action: those that
were made on the copy that it writes back, and the one that the step makes itself. -/
def TaskStep.transitions (sys : Tasks P J) : TaskStep P J Entry → ℕ
  | .write task | .move task _ _ => (sys.clones task).elim 0 Clone.transitions
  | .rollback task _ => (sys.clones task).elim 0 fun clone => clone.transitions + 1
  | _ => 1

/-- Every step of an interleaving is fresh. -/
def FreshRun (sys : Tasks P J) : List (TaskStep P J Entry) → Prop
  | [] => True
  | st :: steps => st.Fresh sys ∧ FreshRun (stepTasks sys st) steps

/-! ### What an interleaving keeps -/

section

omit [SessionPayload P Msg Entry] [DecidableEq Entry]

/-- The states a number of legal transitions later. -/
def After : ℕ → ActionLifecycleState → ActionLifecycleState → Prop
  | 0, state, next => next = state
  | n + 1, state, next => ∃ mid, After n state mid ∧ Legal mid next

/-- The states at most a number of legal transitions later. -/
def Within (n : ℕ) (state next : ActionLifecycleState) : Prop := ∃ m ≤ n, After m state next

instance (n : ℕ) : Std.Refl (Within n) := ⟨fun _ => ⟨0, Nat.zero_le n, rfl⟩⟩

theorem Within.leads {n : ℕ} {state next : ActionLifecycleState} (h : Within n state next) :
    Leads state next := by
  obtain ⟨m, -, h⟩ := h
  induction m generalizing next with
  | zero =>
    cases h
    exact .refl
  | succ m ih =>
    obtain ⟨mid, hmid, hlegal⟩ := h
    exact (ih hmid).tail hlegal

theorem Within.eq_or_legal {n : ℕ} {state next : ActionLifecycleState} (h : Within n state next)
    (hn : n ≤ 1) : next = state ∨ Legal state next := by
  obtain ⟨m, hm, h⟩ := h
  have hcases : m = 0 ∨ m = 1 := by omega
  rcases hcases with rfl | rfl
  · exact .inl h
  · obtain ⟨mid, rfl, hlegal⟩ := h
    exact .inr hlegal

theorem within_one_of_legal {state next : ActionLifecycleState} (h : Legal state next) :
    Within 1 state next :=
  ⟨1, le_rfl, state, rfl, h⟩

/-- A copy that is as many transitions further than its base as are counted, in the same lane. -/
structure Clone.Derived (clone : Clone P J) : Prop where
  id : clone.copy.id = clone.base.id
  lifecycle : After clone.transitions clone.base.state clone.copy.state
  delivery : clone.copy.delivery = clone.base.delivery

theorem Clone.Derived.of (a : SessionAction P J) : (Clone.of a).Derived := ⟨rfl, rfl, rfl⟩

theorem Clone.Derived.evolves (h : clone.Derived) :
    Evolves (Within clone.transitions) clone.base clone.copy :=
  ⟨h.id, clone.transitions, le_rfl, h.lifecycle⟩

end

structure Sound (sys : Tasks P J) : Prop where
  owned : WellOwned sys.store
  derived : ∀ task clone, sys.clones task = some clone → clone.Derived

omit [SessionPayload P Msg Entry] [DecidableEq Entry] in
theorem sound_new : Sound (Tasks.new : Tasks P J) := ⟨wellOwned_new, fun _ _ h => (Option.some_ne_none _ h.symm).elim⟩

/-- What a step does to the actions: they are kept, or one is added, or one is released. -/
inductive Changes (R : ActionLifecycleState → ActionLifecycleState → Prop) (s s' : ActionStore P J) :
    Prop where
  | kept (h : Kept R s s')
  | added (a : SessionAction P J) (hnew : a.id ∉ ids s) (h : s'.ownedActions.Perm (a :: s.ownedActions))
  | released (a : SessionAction P J) (h : s.ownedActions.Perm (a :: s'.ownedActions))

section

omit [SessionPayload P Msg Entry] [DecidableEq Entry]

theorem Sound.setClone (h : Sound sys) {store : ActionStore P J}
    (hstore : WellOwned store) {task : ℕ} (hclone : clone.Derived) :
    Sound ⟨store, sys.setClone task clone⟩ := by
  refine ⟨hstore, fun other found hfound => ?_⟩
  by_cases hother : other = task
  · subst hother
    dsimp only [Tasks.setClone] at hfound
    rw [Function.update_self] at hfound
    cases hfound
    exact hclone
  · dsimp only [Tasks.setClone] at hfound
    rw [Function.update_of_ne hother] at hfound
    exact h.derived other found hfound

theorem Clone.Derived.written {copy : SessionAction P J} {transitions : ℕ}
    (h : Clone.Derived ⟨clone.base, copy, transitions⟩) (result : Except Str Unit) :
    (clone.written copy transitions result).Derived := by
  cases result with
  | error error => exact h
  | ok _ => exact .of copy

end

/-- A rollback of a copy: the copy that is left. -/
theorem derived_rollback (h : clone.Derived) (proof : Option (RollbackProof Entry)) :
    Clone.Derived ⟨clone.base, (s.rollback clone.copy proof).2.1, clone.transitions +
      if (s.rollback clone.copy proof).2.1.state = clone.copy.state then 0 else 1⟩ := by
  rw [ActionStore.rollback]
  cases htransition : transitionSessionAction clone.copy .queued proof with
  | error error =>
    dsimp only
    rw [if_pos rfl]
    exact h
  | ok copy =>
    obtain ⟨rfl, hlegal⟩ := of_transition htransition
    refine ⟨h.id, ?_, h.delivery⟩
    dsimp only
    split_ifs with hsame
    · exact hsame ▸ h.lifecycle
    · exact ⟨clone.copy.state, h.lifecycle, hlegal⟩

omit [SessionPayload P Msg Entry] [DecidableEq Entry] in
/-- A move stores the copy with its new lane, or leaves it as it is. -/
theorem derived_moveQueued (h : clone.Derived) (delivery : DeliveryPolicy) (index : ℕ) :
    (clone.written (s.moveQueued clone.copy delivery index).2.1 clone.transitions
      (s.moveQueued clone.copy delivery index).2.2).Derived := by
  rw [ActionStore.moveQueued]
  split_ifs
  · exact h
  · cases (s.list clone.copy.delivery).findIdx? fun item => item.id = clone.copy.id with
    | none => exact h
    | some i => exact .of _

/-- A step of the store that needs no copy. -/
theorem Sound.call (h : Sound sys) (call : StoreCall P J Entry) (hcurrent : call.Current sys.store) :
    Sound { sys with store := step sys.store call } ∧
      Changes (Within 1) sys.store (step sys.store call) := by
  obtain ⟨howned, heffect⟩ := step_effect within_one_of_legal h.owned hcurrent
  refine ⟨⟨howned, h.derived⟩, ?_⟩
  cases heffect with
  | kept h => exact .kept h
  | added a _ hnew _ hperm => exact .added a (h.owned.tickets ▸ hnew) hperm
  | released a _ _ h => exact .released a h

/-- **Fresh steps are sound**: they keep the store well-owned, and keep, add or release actions. -/
theorem Sound.step (h : Sound sys) {st : TaskStep P J Entry} (hfresh : st.Fresh sys) :
    Sound (stepTasks sys st) ∧
      Changes (Within (st.transitions sys)) sys.store (stepTasks sys st).store := by
  cases st with
  | enqueue action => exact h.call (.enqueue action) trivial
  | enqueueTail action => exact h.call (.enqueueTail action) trivial
  | enqueueFront action => exact h.call (.enqueueFront action) trivial
  | remove predicate candidates =>
    obtain ⟨howned, hkept⟩ := h.owned.removeEach within_one_of_legal
      ((candidates.getD (sys.store.clearableActions none)).filter predicate)
    exact ⟨⟨howned, h.derived⟩, .kept hkept⟩
  | select task =>
    obtain ⟨howned, hkept⟩ := h.owned.selectFirst within_one_of_legal
    rw [stepTasks]
    generalize sys.store.selectFirst = selected at howned hkept ⊢
    obtain ⟨store, _ | _ | action⟩ := selected
    · exact ⟨⟨howned, h.derived⟩, .kept hkept⟩
    · exact ⟨⟨howned, h.derived⟩, .kept hkept⟩
    · exact ⟨h.setClone howned (.of action), .kept hkept⟩
  | take task id =>
    rw [stepTasks]
    cases sys.store.ownedActions.find? fun action => action.id = id with
    | none => exact ⟨h, .kept (.refl _)⟩
    | some action => exact ⟨h.setClone h.owned (.of action), .kept (.refl _)⟩
  | transition task next proof =>
    rw [stepTasks]
    cases hclone : sys.clones task with
    | none => exact ⟨h, .kept (.refl _)⟩
    | some clone =>
      have hderived := h.derived task clone hclone
      dsimp only
      cases htransition : transitionSessionAction clone.copy next proof with
      | error error => exact ⟨h, .kept (.refl _)⟩
      | ok copy =>
        obtain ⟨rfl, hlegal⟩ := of_transition htransition
        exact ⟨h.setClone h.owned ⟨hderived.id, ⟨_, hderived.lifecycle, hlegal⟩, hderived.delivery⟩,
          .kept (.refl _)⟩
  | write task =>
    rw [stepTasks, TaskStep.transitions]
    cases hclone : sys.clones task with
    | none => exact ⟨h, .kept (.refl _)⟩
    | some clone =>
      have hderived := h.derived task clone hclone
      obtain ⟨howned, hkept⟩ := h.owned.updateAction (hfresh clone hclone) hderived.evolves
        hderived.delivery
      exact ⟨h.setClone howned (.written hderived _), .kept hkept⟩
  | rollback task proof =>
    rw [stepTasks, TaskStep.transitions]
    cases hclone : sys.clones task with
    | none => exact ⟨h, .kept (.refl _)⟩
    | some clone =>
      have hderived := h.derived task clone hclone
      have hwithin (hlegal : Legal clone.copy.state .queued) :
          Within (clone.transitions + 1) clone.base.state .queued :=
        ⟨_, le_rfl, _, hderived.lifecycle, hlegal⟩
      obtain ⟨howned, hkept⟩ := h.owned.rollback (hfresh clone hclone) hderived.id hwithin
        hderived.delivery proof
      exact ⟨h.setClone howned (.written (derived_rollback hderived proof) _), .kept hkept⟩
  | move task delivery index =>
    rw [stepTasks, TaskStep.transitions]
    cases hclone : sys.clones task with
    | none => exact ⟨h, .kept (.refl _)⟩
    | some clone =>
      have hderived := h.derived task clone hclone
      obtain ⟨howned, hkept⟩ := h.owned.moveQueued (hfresh clone hclone) hderived.evolves
        hderived.delivery delivery index
      exact ⟨h.setClone howned (derived_moveQueued hderived delivery index), .kept hkept⟩
  | release task =>
    rw [stepTasks]
    cases hclone : sys.clones task with
    | none => exact ⟨h, .kept (.refl _)⟩
    | some clone =>
      have hderived := h.derived task clone hclone
      obtain ⟨howned, hchanges⟩ := h.owned.releaseTerminal (hfresh clone hclone)
        hderived.id hderived.delivery
      refine ⟨⟨howned, h.derived⟩, ?_⟩
      rcases hchanges with hsame | ⟨-, hperm⟩
      · dsimp only
        rw [hsame]
        exact .kept (.refl _)
      · exact .released _ hperm

theorem Sound.run (h : Sound sys) {steps : List (TaskStep P J Entry)}
    (hfresh : FreshRun sys steps) : Sound (runTasks sys steps) := by
  induction steps generalizing sys with
  | nil => exact h
  | cons st steps ih => exact ih (h.step hfresh.1).1 hfresh.2

/-! ### Stored lifecycles -/

omit [SessionPayload P Msg Entry] [DecidableEq Entry] in
/-- The lifecycle state that is stored for an id. -/
def storedState (s : ActionStore P J) (id : Str) : Option ActionLifecycleState :=
  (s.ownedActions.find? fun action => action.id = id).map SessionAction.state

section

omit [SessionPayload P Msg Entry] [DecidableEq Entry]

theorem of_storedState {id : Str} {state : ActionLifecycleState}
    (h : storedState s id = some state) : ∃ a ∈ s.ownedActions, a.id = id ∧ a.state = state := by
  obtain ⟨a, ha, rfl⟩ := Option.map_eq_some_iff.1 h
  exact ⟨a, mem_of_find?_eq_some ha, by simpa using List.find?_some ha, rfl⟩

theorem Changes.lifecycle {R : ActionLifecycleState → ActionLifecycleState → Prop} [Std.Refl R]
    {s' : ActionStore P J} (h : Changes R s s') (hs : WellOwned s) {id : Str}
    {before after : ActionLifecycleState} (hbefore : storedState s id = some before)
    (hafter : storedState s' id = some after) : R before after := by
  obtain ⟨x, hx, hxid, rfl⟩ := of_storedState hbefore
  obtain ⟨y, hy, hyid, rfl⟩ := of_storedState hafter
  cases h with
  | kept h =>
    obtain ⟨f, hf, hperm⟩ := h
    obtain ⟨z, hz, rfl⟩ := mem_map.1 (hperm.mem_iff.1 hy)
    have hzid : z.id = x.id := (hf z hz).id.symm.trans (hyid.trans hxid.symm)
    rw [← hs.eq_of_id hz hx hzid]
    exact (hf z hz).lifecycle
  | added a hnew h =>
    rcases mem_cons.1 (h.mem_iff.1 hy) with rfl | hy
    · refine absurd ?_ hnew
      rw [ids, mem_toFinset]
      exact mem_map.2 ⟨x, hx, hxid.trans hyid.symm⟩
    · cases hs.eq_of_id hx hy (hxid.trans hyid.symm)
      exact Std.Refl.refl _
  | released a h =>
    have hy' : y ∈ s.ownedActions := h.mem_iff.2 (mem_cons_of_mem a hy)
    cases hs.eq_of_id hx hy' (hxid.trans hyid.symm)
    exact Std.Refl.refl _

end

theorem Leads.of_terminal {before after : ActionLifecycleState} (h : Leads before after)
    (hterminal : isTerminal before = true) : after = before := by
  rcases Relation.ReflTransGen.cases_head h with rfl | ⟨next, hnext, -⟩
  · rfl
  · cases before with
    | completed | failed | cancelled => cases hnext
    | _ => cases hterminal

theorem Leads.of_running {after : ActionLifecycleState} (h : Leads .running after) :
    after = .running ∨ isTerminal after = true := by
  rcases Relation.ReflTransGen.cases_head h with rfl | ⟨next, hnext, hrest⟩
  · exact .inl rfl
  · have hterminal : isTerminal next = true := by
      simp only [Legal, legalTransitions, mem_cons, not_mem_nil, or_false] at hnext
      rcases hnext with rfl | rfl | rfl <;> rfl
    exact .inr (Leads.of_terminal hrest hterminal ▸ hterminal)

/-- **Fresh steps move stored lifecycles along the legal transitions**: at most by as many of them
as were made on the copy that is written back, so by one if the copy had one.  An action that has
ended stays as it ended, and one that runs only ends. -/
theorem lifecycle_leads (steps : List (TaskStep P J Entry)) (st : TaskStep P J Entry)
    (hfresh : FreshRun Tasks.new steps) (hlast : st.Fresh (runTasks Tasks.new steps)) (id : Str)
    (before after : ActionLifecycleState)
    (hbefore : storedState (runTasks Tasks.new steps).store id = some before)
    (hafter : storedState (runTasks Tasks.new (steps ++ [st])).store id = some after) :
    Within (st.transitions (runTasks Tasks.new steps)) before after ∧
      (st.transitions (runTasks Tasks.new steps) ≤ 1 → after = before ∨ Legal before after) ∧
      (isTerminal before = true → after = before) ∧
      (before = .running → after = .running ∨ isTerminal after = true) := by
  have hsound := sound_new.run hfresh
  rw [runTasks, foldl_append] at hafter
  have hwithin := (hsound.step hlast).2.lifecycle hsound.owned hbefore hafter
  have hleads := hwithin.leads
  refine ⟨hwithin, hwithin.eq_or_legal, hleads.of_terminal, ?_⟩
  rintro rfl
  exact hleads.of_running

/-! ### Runs -/

/-- An action is submitted, and a first task takes a copy of it. -/
def listed : List (TaskStep Unit Unit Unit) := [.enqueue (.of "a" .nextTurnBoundary .queued), .take 0 "a"]

/-- A second task selects the action and runs it. -/
def selectedAndRun : List (TaskStep Unit Unit Unit) :=
  [.select 1, .transition 1 (.running .sessionCommand) none, .write 1]

theorem lifecycle_leads_completed :
    FreshRun Tasks.new (listed ++ selectedAndRun ++ [.transition 1 .completed none]) ∧
    storedState (runTasks Tasks.new (listed ++ selectedAndRun ++
      [.transition 1 .completed none])).store "a" = some .running ∧
    Legal .running .completed := by
  have hselected : SessionAction.of "a" .nextTurnBoundary .selected ∈
      (runTasks Tasks.new (listed ++ selectedAndRun.take 2)).store.ownedActions := by decide
  have hrunning : SessionAction.of "a" .nextTurnBoundary (.running .sessionCommand) ∈
      (runTasks Tasks.new (listed ++ selectedAndRun ++
        [.transition 1 .completed none])).store.ownedActions := by decide
  have hfresh : FreshRun Tasks.new (listed ++ selectedAndRun ++ [.transition 1 .completed none]) := by
    refine ⟨trivial, trivial, trivial, trivial, fun clone hclone => ?_, trivial, trivial⟩
    cases hclone
    exact hselected
  refine ⟨hfresh, by decide, ?_⟩
  have hsteps := lifecycle_leads _ (.write 1) hfresh (fun clone hclone => ?_) "a" .running .completed
    (by decide) (by decide)
  · exact (hsteps.2.1 (by decide)).resolve_left (by decide)
  · cases hclone
    exact hrunning

/-- A copy that was taken while the action was queued is moved after the action was cancelled, or
while it runs: the stored action is queued again. -/
theorem stale_copy_requeues :
    (storedState (runTasks Tasks.new (listed ++ [.remove (fun _ => true) none])).store "a" = some .cancelled ∧
      storedState (runTasks Tasks.new (listed ++ [.remove (fun _ => true) none,
        .move 0 .whenRunIdle 0])).store "a" = some .queued) ∧
    (storedState (runTasks Tasks.new (listed ++ selectedAndRun)).store "a" = some .running ∧
      storedState (runTasks Tasks.new (listed ++ selectedAndRun ++
        [.move 0 .nextTurnBoundary 0])).store "a" = some .queued) ∧
    ¬ Leads .cancelled .queued ∧ ¬ Leads .running .queued := by
  refine ⟨⟨by decide, by decide⟩, ⟨by decide, by decide⟩, fun h => ?_, fun h => ?_⟩
  · cases h.of_terminal rfl
  · rcases h.of_running with h | h <;> cases h

end Actions
