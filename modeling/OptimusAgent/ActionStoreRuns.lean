/-
**Queued work is owned exactly once.**

The store keeps an action in one of two lanes and a ticket for it in a map.  Nine operations edit
them.  Whatever they do, seen from outside they do one of three things: they keep the actions, each
at most further in its lifecycle and perhaps at another place, or they add one action, or they take
one away.

An action that is given to an operation is a copy.  Here the copies are current: the store has the
action as it is given.  What copies that are not current do is the subject of
`OptimusAgent.ActionStoreTasks`.
-/

import OptimusAgent.ActionStore

namespace Actions

open ActionStore Relation List

variable {P Msg Entry J : Type}

/-! ### Lifecycles -/

def Legal (state next : ActionLifecycleState) : Prop := next ∈ legalTransitions state

/-- The states that can follow a state, one transition after the other. -/
def Leads : ActionLifecycleState → ActionLifecycleState → Prop := ReflTransGen Legal

section

variable {R R' : ActionLifecycleState → ActionLifecycleState → Prop} {x y z : SessionAction P J}

/-- The same action, in a state that follows its state. -/
structure Evolves (R : ActionLifecycleState → ActionLifecycleState → Prop) (x a : SessionAction P J) :
    Prop where
  id : a.id = x.id
  lifecycle : R x.state a.state

theorem Evolves.refl [Std.Refl R] (x : SessionAction P J) : Evolves R x x := ⟨rfl, Std.Refl.refl _⟩

theorem Evolves.trans [IsTrans ActionLifecycleState R] (h : Evolves R x y) (h' : Evolves R y z) :
    Evolves R x z :=
  ⟨h'.id.trans h.id, IsTrans.trans _ _ _ h.lifecycle h'.lifecycle⟩

theorem Evolves.mono (hR : ∀ {b c}, R b c → R' b c) (h : Evolves R x y) : Evolves R' x y :=
  ⟨h.id, hR h.lifecycle⟩

end

instance : Std.Refl Leads := ⟨fun _ => .refl⟩

/-- The state of an action that is cancelled at most once. -/
def Cancels (state next : ActionLifecycleState) : Prop := next = state ∨ Legal state next ∧ next = .cancelled

instance : Std.Refl Cancels := ⟨fun _ => .inl rfl⟩

instance : IsTrans ActionLifecycleState Cancels where
  trans := by
    rintro a b c (rfl | ⟨hlegal, rfl⟩) (rfl | ⟨hagain, rfl⟩)
    · exact .inl rfl
    · exact .inr ⟨hagain, rfl⟩
    · exact .inr ⟨hlegal, rfl⟩
    · cases hagain

variable {proof : Option (RollbackProof Entry)} {action action' : SessionAction P J}

theorem of_transition [SessionPayload P Msg Entry] [DecidableEq Entry] {next : ActionLifecycle J}
    (h : transitionSessionAction action next proof = .ok action') :
    action' = { action with lifecycle := next } ∧ Legal action.state next.state := by
  rw [transitionSessionAction] at h
  split_ifs at h with hlegal
  all_goals
    split at h
    · cases h
    · cases h
      exact ⟨rfl, hlegal⟩

theorem evolves_of_transition [SessionPayload P Msg Entry] [DecidableEq Entry]
    {next : ActionLifecycle J}
    (h : transitionSessionAction action next proof = .ok action') :
    Evolves Legal action action' ∧ action'.delivery = action.delivery := by
  obtain ⟨rfl, hlegal⟩ := of_transition h
  exact ⟨⟨rfl, hlegal⟩, rfl⟩

/-! ### Lanes -/

def DeliveryPolicy.other : DeliveryPolicy → DeliveryPolicy
  | .nextTurnBoundary => .whenRunIdle
  | .whenRunIdle => .nextTurnBoundary

section

variable (s : ActionStore P J) (p : DeliveryPolicy) (l : List (SessionAction P J))

@[simp] theorem tickets_setList : (s.setList p l).tickets = s.tickets := by
  cases p <;> rfl

@[simp] theorem list_setList_self : (s.setList p l).list p = l := by
  cases p <;> rfl

@[simp] theorem list_setList_other : (s.setList p l).list p.other = s.list p.other := by
  cases p <;> rfl

theorem eq_or_other (p q : DeliveryPolicy) : q = p ∨ q = p.other := by
  cases p <;> cases q <;> simp [DeliveryPolicy.other]

/-- One lane and the other are all actions. -/
theorem owned_perm : s.ownedActions.Perm (s.list p ++ s.list p.other) := by
  cases p with
  | nextTurnBoundary => exact .refl _
  | whenRunIdle => exact perm_append_comm

theorem owned_setList_perm : (s.setList p l).ownedActions.Perm (l ++ s.list p.other) := by
  have h := owned_perm (s.setList p l) p
  rwa [list_setList_self, list_setList_other] at h

theorem mem_owned_of_mem_list {s : ActionStore P J} {p : DeliveryPolicy} {a : SessionAction P J}
    (h : a ∈ s.list p) : a ∈ s.ownedActions :=
  (owned_perm s p).mem_iff.2 (mem_append_left _ h)

end

/-- Every action is in the lane of its delivery. -/
def Laned (s : ActionStore P J) : Prop := ∀ p, ∀ a ∈ s.list p, a.delivery = p

variable {s s' : ActionStore P J} {p : DeliveryPolicy} {x a : SessionAction P J}

theorem Laned.setList (h : Laned s)
    {l : List (SessionAction P J)} (hl : ∀ a ∈ l, a.delivery = p) : Laned (s.setList p l) := by
  intro q a ha
  rcases eq_or_other p q with rfl | rfl
  · rw [list_setList_self] at ha
    exact hl a ha
  · rw [list_setList_other] at ha
    exact h _ a ha

/-! ### Well-owned stores -/

def ids (s : ActionStore P J) : Finset Str := (s.ownedActions.map SessionAction.id).toFinset

/-- Distinct ids, a ticket for each of them and no other, and every action in its own lane. -/
structure WellOwned (s : ActionStore P J) : Prop where
  nodup : (s.ownedActions.map SessionAction.id).Nodup
  tickets : s.tickets = ids s
  laned : Laned s

theorem wellOwned_new : WellOwned (ActionStore.new : ActionStore P J) :=
  ⟨nodup_nil, rfl, by rintro (_ | _) a ha <;> cases ha⟩

variable {R R' : ActionLifecycleState → ActionLifecycleState → Prop}

/-- The same actions, each in a state that follows its state. -/
def Kept (R : ActionLifecycleState → ActionLifecycleState → Prop) (s s' : ActionStore P J) : Prop :=
  ∃ f : SessionAction P J → SessionAction P J, (∀ x ∈ s.ownedActions, Evolves R x (f x)) ∧
    s'.ownedActions.Perm (s.ownedActions.map f)

theorem Kept.of_perm [Std.Refl R] (h : s'.ownedActions.Perm s.ownedActions) : Kept R s s' :=
  ⟨id, fun x _ => .refl x, by rwa [map_id]⟩

theorem Kept.refl [Std.Refl R] (s : ActionStore P J) : Kept R s s := .of_perm (.refl _)

theorem Kept.trans [IsTrans ActionLifecycleState R] {s'' : ActionStore P J} (h : Kept R s s')
    (h' : Kept R s' s'') : Kept R s s'' := by
  obtain ⟨f, hf, hs'⟩ := h
  obtain ⟨g, hg, hs''⟩ := h'
  refine ⟨g ∘ f, fun x hx => ?_, ?_⟩
  · exact (hf x hx).trans (hg (f x) (hs'.mem_iff.2 (List.mem_map_of_mem hx)))
  · rw [← List.map_map]
    exact hs''.trans (hs'.map g)

theorem Kept.mono (hR : ∀ {b c}, R b c → R' b c) (h : Kept R s s') : Kept R' s s' := by
  obtain ⟨f, hf, hs'⟩ := h
  exact ⟨f, fun x hx => (hf x hx).mono hR, hs'⟩

theorem Kept.ids_perm (h : Kept R s s') :
    (s'.ownedActions.map SessionAction.id).Perm (s.ownedActions.map SessionAction.id) := by
  obtain ⟨f, hf, hs'⟩ := h
  refine (hs'.map _).trans ?_
  rw [List.map_map]
  exact .of_eq (List.map_congr_left fun x hx => (hf x hx).id)

theorem Kept.ids_eq (h : Kept R s s') : ids s' = ids s := toFinset_eq_of_perm _ _ h.ids_perm

section

variable (h : WellOwned s)

include h

theorem WellOwned.kept (hkept : Kept R s s') (htickets : s'.tickets = s.tickets) (hlaned : Laned s') :
    WellOwned s' :=
  ⟨hkept.ids_perm.nodup_iff.2 h.nodup, by rw [htickets, h.tickets, hkept.ids_eq], hlaned⟩

/-- Two owned actions with the same id are the same. -/
theorem WellOwned.eq_of_id
    (hx : x ∈ s.ownedActions) (ha : a ∈ s.ownedActions) (hid : x.id = a.id) : x = a :=
  inj_on_of_nodup_map h.nodup hx ha hid

theorem WellOwned.mem_list (ha : a ∈ s.ownedActions) : a ∈ s.list a.delivery := by
  rcases mem_append.1 ((owned_perm s a.delivery).mem_iff.1 ha) with ha | ha
  · exact ha
  · have hother := h.laned _ a ha
    cases hd : a.delivery <;> rw [hd] at hother <;> cases hother

/-- One action is exchanged for another with its id. -/
theorem WellOwned.kept_of_cons [Std.Refl R] {rest : List (SessionAction P J)} (hs : s.ownedActions.Perm (x :: rest))
    (hs' : s'.ownedActions.Perm (a :: rest)) (ha : Evolves R x a) :
    Kept R s s' := by
  have hnodup := ((hs.map SessionAction.id).nodup_iff.1 h.nodup)
  rw [map_cons, nodup_cons] at hnodup
  classical
  refine ⟨fun y => if y.id = x.id then a else y, fun y hy => ?_, ?_⟩
  · dsimp only
    split_ifs with hid
    · cases h.eq_of_id hy (hs.mem_iff.2 mem_cons_self) hid
      exact ha
    · exact .refl y
  · refine hs'.trans ?_
    have hrest : rest.map (fun y => if y.id = x.id then a else y) = rest := by
      refine (map_congr_left fun y hy => if_neg fun hid => ?_).trans (map_id rest)
      exact hnodup.1 (hid ▸ mem_map_of_mem hy)
    have hmap := hs.map fun y => if y.id = x.id then a else y
    rw [map_cons, if_pos rfl, hrest] at hmap
    exact hmap.symm

/-- An action is replaced at its place. -/
theorem WellOwned.set [Std.Refl R] {i : ℕ} (hx : (s.list p)[i]? = some x) (ha : Evolves R x a)
    (hdelivery : a.delivery = p) :
    WellOwned (s.setList p ((s.list p).set i a)) ∧ Kept R s (s.setList p ((s.list p).set i a)) := by
  obtain ⟨hi, hxi⟩ := List.getElem?_eq_some_iff.1 hx
  have hs : s.ownedActions.Perm (x :: ((s.list p).eraseIdx i ++ s.list p.other)) := by
    refine (owned_perm s p).trans ?_
    have hlane := (getElem_cons_eraseIdx_perm hi).symm
    rw [hxi] at hlane
    exact hlane.append_right _
  have hs' : (s.setList p ((s.list p).set i a)).ownedActions.Perm
      (a :: ((s.list p).eraseIdx i ++ s.list p.other)) := by
    refine (owned_setList_perm s p _).trans ?_
    exact (set_perm_cons_eraseIdx hi a).append_right _
  have hkept := h.kept_of_cons hs hs' ha
  refine ⟨h.kept hkept (tickets_setList s p _) (h.laned.setList fun b hb => ?_), hkept⟩
  rcases mem_or_eq_of_mem_set hb with hb | rfl
  · exact h.laned p b hb
  · exact hdelivery

end

/-! ### Places -/

theorem of_place {id : Str} {i : ℕ}
    (h : s.place id = some (p, i)) : ∃ x, (s.list p)[i]? = some x ∧ x.id = id := by
  have hfind : ∀ {l : List (SessionAction P J)} {i : ℕ},
      (l.findIdx? fun item => item.id = id) = some i → ∃ x, l[i]? = some x ∧ x.id = id := by
    intro l i hi
    obtain ⟨hlt, hid, -⟩ := findIdx?_eq_some_iff_getElem.1 hi
    exact ⟨l[i], getElem?_eq_getElem hlt, by simpa using hid⟩
  rw [place, Option.or_eq_some_iff] at h
  rcases h with h | ⟨-, h⟩
  all_goals
    obtain ⟨j, hj, heq⟩ := Option.map_eq_some_iff.1 h
    cases heq
    exact hfind hj

/-- The place of an owned action. -/
theorem WellOwned.of_place (h : WellOwned s) (ha : a ∈ s.ownedActions) {i : ℕ} (hplace : s.place a.id = some (p, i)) :
    (s.list p)[i]? = some a ∧ a.delivery = p := by
  obtain ⟨x, hx, hid⟩ := Actions.of_place hplace
  have hmem : x ∈ s.list p := mem_of_getElem? hx
  have heq := h.eq_of_id (mem_owned_of_mem_list hmem) ha hid
  rw [heq] at hx hmem
  exact ⟨hx, h.laned p a hmem⟩

/-- The place of an owned action in its own lane. -/
theorem WellOwned.of_findIdx? (h : WellOwned s) (ha : a ∈ s.ownedActions) {i : ℕ}
    (hi : ((s.list p).findIdx? fun item => item.id = a.id) = some i) :
    ∃ hlt : i < (s.list p).length, (s.list p)[i] = a := by
  obtain ⟨hlt, hid, -⟩ := findIdx?_eq_some_iff_getElem.1 hi
  refine ⟨hlt, h.eq_of_id (mem_owned_of_mem_list (getElem_mem hlt)) ha ?_⟩
  simpa using hid

theorem WellOwned.exists_findIdx? (h : WellOwned s) (ha : a ∈ s.ownedActions) :
    ∃ i, ((s.list a.delivery).findIdx? fun item => item.id = a.id) = some i := by
  cases hi : (s.list a.delivery).findIdx? fun item => item.id = a.id with
  | some i => exact ⟨i, rfl⟩
  | none =>
    have hne := findIdx?_eq_none_iff.1 hi a (h.mem_list ha)
    simp at hne

/-! ### Runs -/

/-- The operations of the store with their inputs. -/
inductive StoreCall (P J Entry : Type) where
  | enqueue (action : SessionAction P J)
  | enqueueTail (action : SessionAction P J)
  | enqueueFront (action : SessionAction P J)
  | selectFirst
  | remove (predicate : SessionAction P J → Bool) (candidates : Option (List (SessionAction P J)))
  | swapQueued (left right : SessionAction P J)
  | moveQueued (action : SessionAction P J) (delivery : DeliveryPolicy) (index : ℕ)
  | rollback (action : SessionAction P J) (proof : Option (RollbackProof Entry))
  | releaseTerminal (action : SessionAction P J)

/-- The action that a call enqueues. -/
def StoreCall.enqueued : StoreCall P J Entry → Option (SessionAction P J)
  | .enqueue action => some action
  | .enqueueTail action => some action
  | .enqueueFront action => some action
  | _ => none

/-- The actions that are given to a call are stored as they are given. -/
def StoreCall.Current (s : ActionStore P J) : StoreCall P J Entry → Prop
  | .remove _ candidates => ∀ candidate ∈ candidates.getD [], candidate ∈ s.ownedActions
  | .swapQueued left right => left ∈ s.ownedActions ∧ right ∈ s.ownedActions
  | .moveQueued action _ _ => action ∈ s.ownedActions
  | .rollback action _ => action ∈ s.ownedActions
  | .releaseTerminal action => action ∈ s.ownedActions
  | _ => True

variable [SessionPayload P Msg Entry] [DecidableEq Entry]

/-- The store after a call. -/
def step (s : ActionStore P J) : StoreCall P J Entry → ActionStore P J
  | .enqueue action => (s.enqueue action).1
  | .enqueueTail action => (s.enqueueTail action).1
  | .enqueueFront action => (s.enqueueFront action).1
  | .selectFirst => s.selectFirst.1
  | .remove predicate candidates => (s.remove predicate candidates).1
  | .swapQueued left right => (s.swapQueued left right).1
  | .moveQueued action delivery index => (s.moveQueued action delivery index).1
  | .rollback action proof => (s.rollback action proof).1
  | .releaseTerminal action => (s.releaseTerminal action).1

def run (s : ActionStore P J) (calls : List (StoreCall P J Entry)) : ActionStore P J := calls.foldl step s

/-- Every call of a run is given current actions. -/
def CurrentRun (s : ActionStore P J) : List (StoreCall P J Entry) → Prop
  | [] => True
  | call :: calls => call.Current s ∧ CurrentRun (step s call) calls

/-- The three things that a call does. -/
inductive Effect (R : ActionLifecycleState → ActionLifecycleState → Prop) (s : ActionStore P J)
    (call : StoreCall P J Entry) (s' : ActionStore P J) : Prop where
  | kept (h : Kept R s s')
  | added (a : SessionAction P J) (hcall : call.enqueued = some a) (hnew : a.id ∉ s.tickets)
      (hqueued : a.state = .queued) (h : s'.ownedActions.Perm (a :: s.ownedActions))
  | released (a : SessionAction P J) (hcall : call = .releaseTerminal a)
      (hterminal : isTerminal a.state = true) (h : s.ownedActions.Perm (a :: s'.ownedActions))

section

omit [SessionPayload P Msg Entry] [DecidableEq Entry]

theorem WellOwned.insertAt (h : WellOwned s)
    (hnew : a.id ∉ s.tickets) {index : ℕ} (hindex : index ≤ (s.list a.delivery).length) :
    WellOwned (s.insertAt index a) ∧ (s.insertAt index a).ownedActions.Perm (a :: s.ownedActions) := by
  have hperm : (s.insertAt index a).ownedActions.Perm (a :: s.ownedActions) := by
    refine (owned_setList_perm s a.delivery _).trans ?_
    refine ((perm_insertIdx a _ hindex).append_right _).trans ?_
    exact .cons a (owned_perm s a.delivery).symm
  have hids := hperm.map SessionAction.id
  refine ⟨⟨?_, ?_, ?_⟩, hperm⟩
  · rw [hids.nodup_iff, map_cons, nodup_cons]
    refine ⟨fun hmem => hnew ?_, h.nodup⟩
    rw [h.tickets, ids, mem_toFinset]
    exact hmem
  · rw [ids, toFinset_eq_of_perm _ _ hids, map_cons, toFinset_cons]
    exact congrArg (insert a.id) h.tickets
  · refine Laned.setList (s := s) h.laned fun b hb => ?_
    rcases mem_cons.1 ((perm_insertIdx a _ hindex).mem_iff.1 hb) with rfl | hb
    · rfl
    · exact h.laned _ b hb

theorem assertNewAction_cases (s : ActionStore P J) (a : SessionAction P J) :
    (∃ error, s.assertNewAction a = .error error) ∨
      (s.assertNewAction a = .ok () ∧ a.state = .queued ∧ a.id ∉ s.tickets) := by
  rw [assertNewAction]
  split_ifs with hstate hticket
  · exact .inl ⟨_, rfl⟩
  · exact .inl ⟨_, rfl⟩
  · exact .inr ⟨rfl, not_not.1 hstate, hticket⟩

end

omit [DecidableEq Entry] in
/-- Enqueueing at a place that depends on the lane. -/
theorem WellOwned.enqueued [Std.Refl R] (h : WellOwned s) {call : StoreCall P J Entry}
    (hcall : call.enqueued = some a) {n : ℕ}
    (hindex : n ≤ (s.list a.delivery).length)
    (hs' : s' = match s.assertNewAction a with
      | .error _ => s
      | .ok _ => s.insertAt n a) : WellOwned s' ∧ Effect R s call s' := by
  rcases assertNewAction_cases s a with ⟨error, herror⟩ | ⟨hok, hqueued, hnew⟩
  · rw [herror] at hs'
    exact hs' ▸ ⟨h, .kept (.refl s)⟩
  · rw [hok] at hs'
    obtain ⟨hwell, hperm⟩ := h.insertAt hnew hindex
    exact hs' ▸ ⟨hwell, .added a hcall hnew hqueued hperm⟩

theorem WellOwned.selectFirst [Std.Refl R] (hR : ∀ {b c}, Legal b c → R b c) (h : WellOwned s) :
    WellOwned s.selectFirst.1 ∧ Kept R s s.selectFirst.1 := by
  rw [ActionStore.selectFirst]
  cases s.firstQueued with
  | none => exact ⟨h, .refl s⟩
  | some found =>
    obtain ⟨policy, index⟩ := found
    dsimp only
    cases haction : (s.list policy)[index]? with
    | none => exact ⟨h, .refl s⟩
    | some action =>
      dsimp only
      cases htransition : transitionSessionAction action .selected none with
      | error error => exact ⟨h, .refl s⟩
      | ok action' =>
        obtain ⟨hevolves, hdelivery⟩ := evolves_of_transition htransition
        have hlane := h.laned policy action (mem_of_getElem? haction)
        exact h.set haction (hevolves.mono hR) (hdelivery.trans hlane)

theorem WellOwned.removeEach_cancels (h : WellOwned s) (candidates : List (SessionAction P J)) :
    WellOwned (s.removeEach candidates).1 ∧ Kept Cancels s (s.removeEach candidates).1 := by
  induction candidates generalizing s with
  | nil => exact ⟨h, .refl s⟩
  | cons candidate candidates ih =>
    rw [ActionStore.removeEach]
    cases s.place candidate.id with
    | none => exact ⟨h, .refl s⟩
    | some found =>
      obtain ⟨policy, index⟩ := found
      dsimp only
      cases haction : (s.list policy)[index]? with
      | none => exact ⟨h, .refl s⟩
      | some action =>
        dsimp only
        cases htransition : transitionSessionAction action .cancelled none with
        | error error => exact ⟨h, .refl s⟩
        | ok action' =>
          obtain ⟨rfl, hlegal⟩ := of_transition htransition
          have hlane := h.laned policy action (mem_of_getElem? haction)
          obtain ⟨hset, hkept⟩ := h.set (R := Cancels) (a := { action with lifecycle := .cancelled }) haction
            ⟨rfl, .inr ⟨hlegal, rfl⟩⟩ hlane
          obtain ⟨hwell, hrest⟩ := ih hset
          exact ⟨hwell, hkept.trans hrest⟩

theorem WellOwned.removeEach [Std.Refl R] (hR : ∀ {b c}, Legal b c → R b c) (h : WellOwned s)
    (candidates : List (SessionAction P J)) :
    WellOwned (s.removeEach candidates).1 ∧ Kept R s (s.removeEach candidates).1 := by
  refine (h.removeEach_cancels candidates).imp_right (Kept.mono ?_)
  rintro b c (rfl | ⟨hlegal, -⟩)
  · exact Std.Refl.refl _
  · exact hR hlegal

omit [SessionPayload P Msg Entry] [DecidableEq Entry] in
/-- A value is written back for an owned action that it evolves from. -/
theorem WellOwned.updateAction [Std.Refl R] (h : WellOwned s)
    (hx : x ∈ s.ownedActions) (ha : Evolves R x a) (hdelivery : a.delivery = x.delivery) :
    WellOwned (s.updateAction a).1 ∧ Kept R s (s.updateAction a).1 := by
  rw [ActionStore.updateAction]
  cases hplace : s.place a.id with
  | none => exact ⟨h, .refl s⟩
  | some found =>
    obtain ⟨policy, index⟩ := found
    rw [ha.id] at hplace
    obtain ⟨hget, hlane⟩ := h.of_place hx hplace
    exact h.set hget ha (hdelivery.trans hlane)

theorem WellOwned.rollback [Std.Refl R] (h : WellOwned s) (hx : x ∈ s.ownedActions) (hid : a.id = x.id)
    (ha : Legal a.state .queued → R x.state .queued) (hdelivery : a.delivery = x.delivery)
    (proof : Option (RollbackProof Entry)) :
    WellOwned (s.rollback a proof).1 ∧ Kept R s (s.rollback a proof).1 := by
  rw [ActionStore.rollback]
  cases htransition : transitionSessionAction a .queued proof with
  | error error => exact ⟨h, .refl s⟩
  | ok a' =>
    obtain ⟨rfl, hlegal⟩ := of_transition htransition
    exact h.updateAction hx ⟨hid, ha hlegal⟩ hdelivery

section

omit [SessionPayload P Msg Entry] [DecidableEq Entry]

theorem WellOwned.swapQueued [Std.Refl R] (h : WellOwned s) (left right : SessionAction P J) :
    WellOwned (s.swapQueued left right).1 ∧ Kept R s (s.swapQueued left right).1 := by
  rw [ActionStore.swapQueued]
  split_ifs
  · exact ⟨h, .refl s⟩
  · dsimp only
    split
    · rename_i i j hi hj
      obtain ⟨hlti, -, -⟩ := findIdx?_eq_some_iff_getElem.1 hi
      obtain ⟨hltj, -, -⟩ := findIdx?_eq_some_iff_getElem.1 hj
      rw [getElem?_eq_getElem hlti, getElem?_eq_getElem hltj]
      dsimp only
      have hperm := set_set_perm hlti hltj
      have hkept : Kept R s (s.setList left.delivery (((s.list left.delivery).set i
          (s.list left.delivery)[j]).set j (s.list left.delivery)[i])) := by
        refine .of_perm ((owned_setList_perm s left.delivery _).trans ?_)
        exact (hperm.append_right _).trans (owned_perm s left.delivery).symm
      refine ⟨h.kept hkept (tickets_setList s _ _) (h.laned.setList fun b hb => ?_), hkept⟩
      exact h.laned _ b (hperm.mem_iff.1 hb)
    · exact ⟨h, .refl s⟩

theorem insertPlace_le (target : List (SessionAction P J)) (index : ℕ) : insertPlace target index ≤ target.length := by
  rw [insertPlace]
  split
  · cases hfound : target.findIdx? _ with
    | none => exact le_rfl
    | some i =>
      obtain ⟨hlt, -, -⟩ := findIdx?_eq_some_iff_getElem.1 hfound
      exact hlt.le
  · exact le_rfl

theorem owned_perm_eraseIdx {d : DeliveryPolicy} {i : ℕ} (hlt : i < (s.list d).length) :
    s.ownedActions.Perm ((s.list d)[i] :: (s.setList d ((s.list d).eraseIdx i)).ownedActions) := by
  refine (owned_perm s d).trans ?_
  refine ((getElem_cons_eraseIdx_perm hlt).symm.append_right _).trans (.cons _ ?_)
  exact (owned_setList_perm s d _).symm

/-- An action leaves its lane and a value that it evolves to enters one. -/
theorem WellOwned.moveQueued [Std.Refl R] (h : WellOwned s)
    (hx : x ∈ s.ownedActions) (ha : Evolves R x a) (hdelivery : a.delivery = x.delivery)
    (delivery : DeliveryPolicy) (index : ℕ) :
    WellOwned (s.moveQueued a delivery index).1 ∧ Kept R s (s.moveQueued a delivery index).1 := by
  rw [ActionStore.moveQueued]
  split_ifs
  · exact ⟨h, .refl s⟩
  · have hfind : ((s.list a.delivery).findIdx? fun item => item.id = a.id) =
        (s.list x.delivery).findIdx? fun item => item.id = x.id := by
      rw [hdelivery, ha.id]
    rw [hfind, hdelivery]
    cases hi : (s.list x.delivery).findIdx? fun item => item.id = x.id with
    | none => exact ⟨h, .refl s⟩
    | some i =>
      obtain ⟨hlt, hget⟩ := h.of_findIdx? hx hi
      dsimp only
      generalize hmid : s.setList x.delivery ((s.list x.delivery).eraseIdx i) = mid
      generalize hmoved : { a with delivery := delivery } = moved
      have hplace := insertPlace_le (mid.list delivery) index
      -- What is left when the action has been taken out.
      have hrest : s.ownedActions.Perm (x :: mid.ownedActions) := hget ▸ hmid ▸ owned_perm_eraseIdx hlt
      have hinsert : (mid.setList delivery ((mid.list delivery).insertIdx
          (insertPlace (mid.list delivery) index) moved)).ownedActions.Perm
            (moved :: mid.ownedActions) := by
        refine (owned_setList_perm mid delivery _).trans ?_
        refine ((perm_insertIdx moved _ hplace).append_right _).trans ?_
        exact .cons moved (owned_perm mid delivery).symm
      have hlaned : Laned mid := by
        rw [← hmid]
        exact h.laned.setList fun b hb => h.laned _ b (mem_of_mem_eraseIdx hb)
      have hevolves : Evolves R x moved := by
        rw [← hmoved]
        exact ⟨ha.id, ha.lifecycle⟩
      have hkept := h.kept_of_cons hrest hinsert hevolves
      refine ⟨h.kept hkept ?_ (hlaned.setList fun b hb => ?_), hkept⟩
      · rw [tickets_setList, ← hmid, tickets_setList]
      · rcases mem_cons.1 ((perm_insertIdx moved _ hplace).mem_iff.1 hb) with rfl | hb
        · rw [← hmoved]
        · exact hlaned _ b hb

/-- An owned action is released with a value of the same lane. -/
theorem WellOwned.releaseTerminal (h : WellOwned s)
    (hx : x ∈ s.ownedActions) (hid : a.id = x.id) (hdelivery : a.delivery = x.delivery) :
    WellOwned (s.releaseTerminal a).1 ∧ ((s.releaseTerminal a).1 = s ∨ (isTerminal a.state = true ∧
        s.ownedActions.Perm (x :: (s.releaseTerminal a).1.ownedActions))) := by
  rw [ActionStore.releaseTerminal]
  split_ifs with hterminal
  · exact ⟨h, .inl rfl⟩
  · obtain ⟨i, hi⟩ := h.exists_findIdx? hx
    obtain ⟨hlt, hget⟩ := h.of_findIdx? hx hi
    dsimp only
    rw [hdelivery, hid, hi]
    dsimp only
    have hperm : s.ownedActions.Perm (x ::
        ({ s.setList x.delivery ((s.list x.delivery).eraseIdx i) with
          tickets := s.tickets.erase x.id } : ActionStore P J).ownedActions) := by
      have hrest := owned_perm_eraseIdx hlt
      rw [hget] at hrest
      exact hrest
    have hids := hperm.map SessionAction.id
    have hnodup := hids.nodup_iff.1 h.nodup
    rw [map_cons, nodup_cons] at hnodup
    refine ⟨⟨hnodup.2, ?_, ?_⟩, .inr ⟨by simpa using hterminal, hperm⟩⟩
    · rw [h.tickets, ids, toFinset_eq_of_perm _ _ hids, map_cons, toFinset_cons]
      exact Finset.erase_insert (by rw [mem_toFinset]; exact hnodup.1)
    · exact Laned.setList (s := s) h.laned fun b hb => h.laned _ b (mem_of_mem_eraseIdx hb)

end

/-- What a call does to a well-owned store. -/
theorem step_effect [Std.Refl R] (hR : ∀ {b c}, Legal b c → R b c) (h : WellOwned s)
    {call : StoreCall P J Entry} (hcurrent : call.Current s) :
    WellOwned (step s call) ∧ Effect R s call (step s call) := by
  cases call with
  | enqueue a =>
    refine h.enqueued (n := ((s.list a.delivery).rdropWhile fun item => item.state = .queued ∧
      (effectivePriority item).rank < (effectivePriority a).rank).length) rfl ?_ ?_
    · exact IsPrefix.length_le <| rdropWhile_prefix _ _
    · rw [step, ActionStore.enqueue]
      cases s.assertNewAction a <;> rfl
  | enqueueTail a =>
    refine h.enqueued rfl le_rfl ?_
    rw [step, ActionStore.enqueueTail]
    cases s.assertNewAction a <;> rfl
  | enqueueFront a =>
    refine h.enqueued (n := ((s.list a.delivery).findIdx? fun item =>
      item.state = .queued).getD (s.list a.delivery).length) rfl ?_ ?_
    · cases hfound : (s.list a.delivery).findIdx? fun item => item.state = .queued with
      | none => exact le_rfl
      | some i =>
        obtain ⟨hlt, -, -⟩ := findIdx?_eq_some_iff_getElem.1 hfound
        exact hlt.le
    · rw [step, ActionStore.enqueueFront]
      cases s.assertNewAction a <;> rfl
  | selectFirst => exact (h.selectFirst hR).imp_right .kept
  | remove predicate candidates => exact (h.removeEach hR _).imp_right .kept
  | swapQueued left right => exact (h.swapQueued left right).imp_right .kept
  | moveQueued a delivery index =>
    exact (h.moveQueued hcurrent (.refl a) rfl delivery index).imp_right .kept
  | rollback a proof => exact (h.rollback hcurrent rfl hR rfl proof).imp_right .kept
  | releaseTerminal a =>
    obtain ⟨hwell, heffect⟩ := h.releaseTerminal hcurrent rfl rfl
    refine ⟨hwell, ?_⟩
    rcases heffect with hsame | ⟨hterminal, hperm⟩
    · rw [step, hsame]
      exact .kept (.refl s)
    · exact .released a rfl hterminal hperm

theorem wellOwned_run (h : WellOwned s) {calls : List (StoreCall P J Entry)}
    (hcurrent : CurrentRun s calls) : WellOwned (run s calls) := by
  induction calls generalizing s with
  | nil => exact h
  | cons call calls ih => exact ih (step_effect (R := Leads) .single h hcurrent.1).1 hcurrent.2

/-- **Queued work is owned exactly once**: in every store that is reached with current actions the
ids are distinct, the tickets are those of the ids and every action is in its own lane, and the next
call adds at most the id that it enqueues and takes away at most the id that it releases. -/
theorem owned_exactly_once (calls : List (StoreCall P J Entry)) (hcurrent : CurrentRun ActionStore.new calls) :
    WellOwned (run ActionStore.new calls) ∧
    ∀ call : StoreCall P J Entry, call.Current (run ActionStore.new calls) →
      ids (run ActionStore.new (calls ++ [call])) = ids (run ActionStore.new calls) ∨
      (∃ a, call.enqueued = some a ∧ a.id ∉ ids (run ActionStore.new calls) ∧
        ids (run ActionStore.new (calls ++ [call])) = insert a.id (ids (run ActionStore.new calls))) ∨
      ∃ a, call = .releaseTerminal a ∧ isTerminal a.state = true ∧
        ids (run ActionStore.new (calls ++ [call])) = (ids (run ActionStore.new calls)).erase a.id := by
  have hwell := wellOwned_run wellOwned_new hcurrent
  refine ⟨hwell, fun call hcall => ?_⟩
  have hrun : run ActionStore.new (calls ++ [call]) = step (run ActionStore.new calls) call := by
    rw [run, foldl_append]
    rfl
  rw [hrun]
  generalize run ActionStore.new calls = s at hwell hcall ⊢
  obtain ⟨hwell', heffect⟩ := step_effect (R := Leads) .single hwell hcall
  cases heffect with
  | kept h => exact .inl h.ids_eq
  | added a henqueued hnew _ h =>
    refine .inr (.inl ⟨a, henqueued, hwell.tickets ▸ hnew, ?_⟩)
    rw [ids, toFinset_eq_of_perm _ _ (h.map _), map_cons, toFinset_cons, ids]
  | released a hrelease hterminal h =>
    refine .inr (.inr ⟨a, hrelease, hterminal, ?_⟩)
    have hids := h.map SessionAction.id
    have hnodup := hids.nodup_iff.1 hwell.nodup
    rw [map_cons, nodup_cons] at hnodup
    rw [ids, ids, toFinset_eq_of_perm _ _ hids, map_cons, toFinset_cons]
    exact (Finset.erase_insert (by rw [mem_toFinset]; exact hnodup.1)).symm

/-! ### A run -/

/-- Payloads without records. -/
instance unitPayload : SessionPayload Unit Unit Unit where
  records _ := []
  isCustom _ := false
  transcriptMessage _ := ()

/-- A user's action. -/
def SessionAction.of (id : Str) (delivery : DeliveryPolicy) (lifecycle : ActionLifecycle Unit) :
    SessionAction Unit Unit :=
  ⟨id, .input .interactive, none, delivery, .immediate, (), lifecycle, none, none, none⟩

/-- Two actions, of which the second is moved to the front of the other lane, the first is cancelled
and released. -/
def ownedRun : List (StoreCall Unit Unit Unit) :=
  [.enqueue (.of "a" .nextTurnBoundary .queued), .enqueue (.of "b" .whenRunIdle .queued),
    .moveQueued (.of "b" .whenRunIdle .queued) .nextTurnBoundary 0,
    .remove (fun action => action.id = "a") none]

theorem owned_exactly_once_released : CurrentRun ActionStore.new ownedRun ∧
    (run ActionStore.new ownedRun).ownedActions =
      [.of "b" .nextTurnBoundary .queued, .of "a" .nextTurnBoundary .cancelled] ∧
    WellOwned (run ActionStore.new ownedRun) ∧
    (run ActionStore.new (ownedRun ++
      [.releaseTerminal (.of "a" .nextTurnBoundary .cancelled)])).tickets = {("b" : Str)} := by
  have hmoved : SessionAction.of "b" .whenRunIdle .queued ∈
      (run ActionStore.new (ownedRun.take 2)).ownedActions := by decide
  have hcurrent : CurrentRun ActionStore.new ownedRun :=
    ⟨trivial, trivial, hmoved, fun candidate h => (not_mem_nil h).elim, trivial⟩
  exact ⟨hcurrent, by decide, (owned_exactly_once ownedRun hcurrent).1, by decide⟩

end Actions
