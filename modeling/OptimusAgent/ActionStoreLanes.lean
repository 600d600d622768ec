/-
**What a lane does with its order, and what a removal does when it fails.**

An action that enters a lane overtakes only queued work of lower priority at the end, so it stands
behind all that came before it and has at least its priority.  No other operation moves an action:
selecting, cancelling, rolling back and writing a copy replace it where it is, and a release takes
it out.

A removal cancels its candidates one after the other and stops at the first that it cannot cancel.
What it has cancelled before stays cancelled, and the caller does not learn of it.
-/

import OptimusAgent.ActionStoreRuns

namespace Actions

open ActionStore List Function Nat

variable {P Msg Entry J : Type} [SessionPayload P Msg Entry]

/-! ### What the order depends on -/

/-- What the order of a lane depends on: the id, the lane and the priority of an action. -/
structure Face where
  id : Str
  delivery : DeliveryPolicy
  rank : ℕ
  deriving DecidableEq

def face (a : SessionAction P J) : Face := ⟨a.id, a.delivery, (effectivePriority a).rank⟩

/-- The same actions at the same places, perhaps in other states. -/
structure Relabelled (s s' : ActionStore P J) : Prop where
  tickets : s'.tickets = s.tickets
  faces : ∀ p, (s'.list p).map face = (s.list p).map face

theorem Relabelled.refl (s : ActionStore P J) : Relabelled s s := ⟨rfl, fun _ => rfl⟩

theorem Relabelled.trans {s s' s'' : ActionStore P J} (h : Relabelled s s') (h' : Relabelled s' s'') :
    Relabelled s s'' :=
  ⟨h'.tickets.trans h.tickets, fun p => (h'.faces p).trans (h.faces p)⟩

/-- An action is replaced at its place. -/
theorem relabelled_set {s : ActionStore P J} {p : DeliveryPolicy} {i : ℕ} {x a : SessionAction P J}
    (hx : (s.list p)[i]? = some x) (hface : face a = face x) :
    Relabelled s (s.setList p ((s.list p).set i a)) := by
  refine ⟨tickets_setList s p _, fun q => ?_⟩
  rcases eq_or_other p q with rfl | rfl
  · obtain ⟨hi, hget⟩ := List.getElem?_eq_some_iff.1 hx
    rw [list_setList_self, map_set, hface, ← hget, ← map_set, set_getElem_self]
  · rw [list_setList_other]

theorem Relabelled.wellOwned {s s' : ActionStore P J} (h : Relabelled s s') (hs : WellOwned s) : WellOwned s' := by
  have hids : ∀ p, (s'.list p).map SessionAction.id = (s.list p).map SessionAction.id := fun p => by
    simpa [map_map, comp_def, face] using congrArg (map Face.id) (h.faces p)
  have howned : s'.ownedActions.map SessionAction.id = s.ownedActions.map SessionAction.id := by
    rw [ownedActions, ownedActions, map_append, map_append]
    exact congrArg₂ (· ++ ·) (hids .nextTurnBoundary) (hids .whenRunIdle)
  refine ⟨howned ▸ hs.nodup, ?_, fun p a ha => ?_⟩
  · rw [h.tickets, hs.tickets, ids, ids, howned]
  · have hmem : face a ∈ (s.list p).map face := h.faces p ▸ mem_map_of_mem ha
    obtain ⟨x, hx, hface⟩ := mem_map.1 hmem
    exact (congrArg Face.delivery hface).symm.trans (hs.laned p x hx)

/-! ### Runs -/

/-- The operations that keep the order of a lane.  A transition is one of a copy that is written
back. -/
inductive LaneCall (P J Entry : Type) where
  | enqueue (action : SessionAction P J)
  | enqueueTail (action : SessionAction P J)
  | selectFirst
  | rollback (action : SessionAction P J) (proof : Option (RollbackProof Entry))
  | transition (action : SessionAction P J) (next : ActionLifecycle J) (proof : Option (RollbackProof Entry))
  | remove (predicate : SessionAction P J → Bool) (candidates : Option (List (SessionAction P J)))
  | releaseTerminal (action : SessionAction P J)

/-- A store, the number of calls so far, and the call by which an action was last added. -/
structure History (P J : Type) where
  store : ActionStore P J
  births : Str → ℕ
  calls : ℕ

def History.start : History P J := ⟨.new, fun _ => 0, 0⟩

/-- The history after a call that was asked to add an action. -/
def History.added (h : History P J) (action : SessionAction P J)
    (outcome : ActionStore P J × Except Str Unit) : History P J :=
  match outcome with
  | (store, .ok _) => ⟨store, update h.births action.id h.calls, h.calls + 1⟩
  | (store, .error _) => ⟨store, h.births, h.calls + 1⟩

variable [DecidableEq Entry]

/-- The store after a transition of a copy, which is written back if it is legal. -/
def transitionStored (s : ActionStore P J) (action : SessionAction P J) (next : ActionLifecycle J)
    (proof : Option (RollbackProof Entry)) : ActionStore P J :=
  match transitionSessionAction action next proof with
  | .error _ => s
  | .ok action => (s.updateAction action).1

def stepLanes (h : History P J) : LaneCall P J Entry → History P J
  | .enqueue action => h.added action (h.store.enqueue action)
  | .enqueueTail action => h.added action (h.store.enqueueTail action)
  | .selectFirst => ⟨h.store.selectFirst.1, h.births, h.calls + 1⟩
  | .rollback action proof => ⟨(h.store.rollback action proof).1, h.births, h.calls + 1⟩
  | .transition action next proof => ⟨transitionStored h.store action next proof, h.births, h.calls + 1⟩
  | .remove predicate candidates => ⟨(h.store.remove predicate candidates).1, h.births, h.calls + 1⟩
  | .releaseTerminal action => ⟨(h.store.releaseTerminal action).1, h.births, h.calls + 1⟩

def runLanes (h : History P J) (calls : List (LaneCall P J Entry)) : History P J := calls.foldl stepLanes h

omit [DecidableEq Entry] in
/-- The value is a copy of the stored action with its id, if there is one: it has its lane and its
priority.  Its state may be an old one. -/
def Copied (s : ActionStore P J) (a : SessionAction P J) : Prop := ∀ x ∈ s.ownedActions, x.id = a.id → face a = face x

omit [DecidableEq Entry] in
/-- The actions that are given to a call are copies. -/
def LaneCall.Copies (s : ActionStore P J) : LaneCall P J Entry → Prop
  | .rollback action _ => Copied s action
  | .transition action _ _ => Copied s action
  | .releaseTerminal action => Copied s action
  | _ => True

def CopiesRun (h : History P J) : List (LaneCall P J Entry) → Prop
  | [] => True
  | call :: calls => call.Copies h.store ∧ CopiesRun (stepLanes h call) calls

/-! ### Calls that move nothing -/

theorem relabelled_selectFirst (s : ActionStore P J) : Relabelled s s.selectFirst.1 := by
  rw [ActionStore.selectFirst]
  cases s.firstQueued with
  | none => exact .refl s
  | some found =>
    obtain ⟨policy, index⟩ := found
    dsimp only
    cases haction : (s.list policy)[index]? with
    | none => exact .refl s
    | some action =>
      dsimp only
      cases htransition : transitionSessionAction action .selected none with
      | error error => exact .refl s
      | ok action' =>
        obtain ⟨rfl, -⟩ := of_transition htransition
        exact relabelled_set haction rfl

omit [SessionPayload P Msg Entry] [DecidableEq Entry] in
def SessionAction.cancel (x : SessionAction P J) : SessionAction P J := { x with lifecycle := .cancelled }

theorem transition_cancelled (x : SessionAction P J) :
    (isTerminal x.state = true ∧ ∃ error, transitionSessionAction x .cancelled none = .error error) ∨
    (isTerminal x.state = false ∧ transitionSessionAction x .cancelled none = .ok x.cancel) := by
  rw [transitionSessionAction]
  cases hstate : x.state
  all_goals simp [legalTransitions, ActionLifecycle.state, isTerminal, SessionAction.cancel]

/-- What the next candidate of a removal does: it stops the removal, or the stored action is
cancelled. -/
theorem removeEach_cons (s : ActionStore P J) (c : SessionAction P J) (cs : List (SessionAction P J)) :
    ((∃ error, s.removeEach (c :: cs) = (s, .error error)) ∧
      ∀ p i x, s.place c.id = some (p, i) → (s.list p)[i]? = some x → isTerminal x.state = true) ∨
    ∃ p i x, s.place c.id = some (p, i) ∧ (s.list p)[i]? = some x ∧ isTerminal x.state = false ∧
      s.removeEach (c :: cs) = (((s.setList p ((s.list p).set i x.cancel)).removeEach cs).1,
        ((s.setList p ((s.list p).set i x.cancel)).removeEach cs).2.map (x.cancel :: ·)) := by
  rw [ActionStore.removeEach]
  cases hplace : s.place c.id with
  | none => exact .inl ⟨⟨_, rfl⟩, fun p i x h _ => by cases h⟩
  | some found =>
    obtain ⟨p, i⟩ := found
    obtain ⟨x, hx, -⟩ := of_place hplace
    dsimp only
    rw [hx]
    dsimp only
    rcases transition_cancelled x with ⟨hterminal, error, herror⟩ | ⟨hlive, hok⟩
    · rw [herror]
      refine .inl ⟨⟨error, rfl⟩, fun p' i' x' h hx' => ?_⟩
      cases h
      rw [hx] at hx'
      cases hx'
      exact hterminal
    · rw [hok]
      exact .inr ⟨p, i, x, rfl, hx, hlive, rfl⟩

theorem relabelled_removeEach (s : ActionStore P J) (cs : List (SessionAction P J)) :
    Relabelled s (s.removeEach cs).1 := by
  induction cs generalizing s with
  | nil => exact .refl s
  | cons c cs ih =>
    rcases removeEach_cons s c cs with ⟨⟨error, heq⟩, -⟩ | ⟨p, i, x, -, hx, -, heq⟩
    · rw [heq]
      exact .refl s
    · rw [heq]
      have hset : Relabelled s (s.setList p ((s.list p).set i x.cancel)) := relabelled_set hx rfl
      exact hset.trans (ih _)

variable {s : ActionStore P J} {a : SessionAction P J} {h : History P J}

omit [DecidableEq Entry] in
theorem relabelled_updateAction (h : Copied s a) : Relabelled s (s.updateAction a).1 := by
  rw [ActionStore.updateAction]
  cases hplace : s.place a.id with
  | none => exact .refl s
  | some found =>
    obtain ⟨p, i⟩ := found
    obtain ⟨x, hx, hid⟩ := of_place hplace
    exact relabelled_set hx (h x (mem_owned_of_mem_list (mem_of_getElem? hx)) hid)

theorem relabelled_transitionStored (h : Copied s a) (next : ActionLifecycle J) (proof : Option (RollbackProof Entry)) :
    Relabelled s (transitionStored s a next proof) := by
  rw [transitionStored]
  cases htransition : transitionSessionAction a next proof with
  | error error => exact .refl s
  | ok a' =>
    obtain ⟨rfl, -⟩ := of_transition htransition
    exact relabelled_updateAction h

theorem rollback_eq (s : ActionStore P J) (a : SessionAction P J) (proof : Option (RollbackProof Entry)) :
    (s.rollback a proof).1 = transitionStored s a .queued proof := by
  rw [ActionStore.rollback, transitionStored]
  cases transitionSessionAction a .queued proof <;> rfl

/-! ### The order of a lane -/

omit [SessionPayload P Msg Entry] [DecidableEq Entry] in
theorem insertIdx_length_append (front back : List (SessionAction P J)) (a : SessionAction P J) :
    (front ++ back).insertIdx front.length a = front ++ a :: back := by
  induction front with
  | nil => rfl
  | cons x front ih => rw [cons_append, length_cons, insertIdx_succ_cons, ih, cons_append]

/-- Of two actions the one in front was added first, or has the higher priority. -/
def Precedes (births : Str → ℕ) (x y : Face) : Prop := births x.id < births y.id ∨ y.rank < x.rank

structure InOrder (h : History P J) : Prop where
  well : WellOwned h.store
  born : ∀ id ∈ h.store.tickets, h.births id < h.calls
  sorted : ∀ p, ((h.store.list p).map face).Pairwise (Precedes h.births)

section

omit [DecidableEq Entry]

theorem inOrder_start : InOrder (History.start : History P J) :=
  ⟨wellOwned_new, by simp [History.start, ActionStore.new], by rintro (_ | _) <;> exact Pairwise.nil⟩

theorem InOrder.relabelled (hin : InOrder h) {s' : ActionStore P J}
    (hs' : Relabelled h.store s') : InOrder ⟨s', h.births, h.calls + 1⟩ :=
  ⟨hs'.wellOwned hin.well, fun id hid => lt_succ_of_lt (hin.born id (hs'.tickets ▸ hid)),
    fun p => (hs'.faces p).symm ▸ hin.sorted p⟩

theorem mem_tickets (hs : WellOwned s) {p : DeliveryPolicy} {x : SessionAction P J}
    (hx : x ∈ s.list p) : x.id ∈ s.tickets := by
  rw [hs.tickets, ids, mem_toFinset]
  exact mem_map_of_mem (mem_owned_of_mem_list hx)

/-- An action enters its lane behind all that came before it, but for work of lower priority. -/
theorem InOrder.insertAt (hin : InOrder h) (hnew : a.id ∉ h.store.tickets) {front back : List (SessionAction P J)}
    (hlane : h.store.list a.delivery = front ++ back)
    (hback : ∀ x ∈ back, (effectivePriority x).rank < (effectivePriority a).rank) :
    InOrder ⟨h.store.insertAt front.length a, update h.births a.id h.calls, h.calls + 1⟩ := by
  have hlength : front.length ≤ (h.store.list a.delivery).length := by
    rw [hlane, length_append]
    exact le_add_right _ _
  have hbirths : ∀ id ∈ h.store.tickets, update h.births a.id h.calls id = h.births id :=
    fun id hid => update_of_ne (fun heq : id = a.id => hnew (heq ▸ hid)) _ _
  have hold : ∀ p, ((h.store.list p).map face).Pairwise
      (Precedes (update h.births a.id h.calls)) := by
    refine fun p => (hin.sorted p).imp_of_mem fun {u v} hu hv huv => ?_
    obtain ⟨x, hx, rfl⟩ := mem_map.1 hu
    obtain ⟨y, hy, rfl⟩ := mem_map.1 hv
    have hbirthx : _ = h.births (face x).id := hbirths x.id (mem_tickets hin.well hx)
    have hbirthy : _ = h.births (face y).id := hbirths y.id (mem_tickets hin.well hy)
    rwa [Precedes, ← hbirthx, ← hbirthy] at huv
  refine ⟨(hin.well.insertAt hnew hlength).1, fun id hid => ?_, fun p => ?_⟩
  · rcases Finset.mem_insert.1 hid with rfl | hid
    · exact (update_self a.id h.calls h.births).trans_lt (lt_succ_self h.calls)
    · exact (hbirths id hid).trans_lt (lt_succ_of_lt (hin.born id hid))
  · show (((h.store.setList a.delivery _).list p).map face).Pairwise _
    rcases eq_or_other a.delivery p with rfl | rfl
    · have hsorted := hold a.delivery
      rw [hlane, map_append, pairwise_append] at hsorted
      obtain ⟨hfront, hrest, hacross⟩ := hsorted
      rw [list_setList_self, hlane, insertIdx_length_append, map_append, map_cons, pairwise_append, pairwise_cons]
      refine ⟨hfront, ⟨fun v hv => ?_, hrest⟩, fun u hu v hv => ?_⟩
      · obtain ⟨y, hy, rfl⟩ := mem_map.1 hv
        exact .inr (hback y hy)
      · rcases mem_cons.1 hv with rfl | hv
        · obtain ⟨x, hx, rfl⟩ := mem_map.1 hu
          have hmem : x.id ∈ h.store.tickets := mem_tickets hin.well (hlane ▸ mem_append_left back hx)
          refine .inl ?_
          calc update h.births a.id h.calls x.id = h.births x.id := hbirths x.id hmem
            _ < h.calls := hin.born x.id hmem
            _ = update h.births a.id h.calls a.id := (update_self a.id h.calls h.births).symm
        · exact hacross u hu v hv
    · rw [list_setList_other]
      exact hold _

/-- Where a new action goes. -/
theorem enqueue_cases (s : ActionStore P J) (a : SessionAction P J) : (∃ error, s.enqueue a = (s, .error error)) ∨
    ∃ front back, a.id ∉ s.tickets ∧ s.list a.delivery = front ++ back ∧
      (∀ x ∈ back, x.state = .queued ∧ (effectivePriority x).rank < (effectivePriority a).rank) ∧
      s.enqueue a = (s.insertAt front.length a, .ok ()) := by
  rw [ActionStore.enqueue]
  rcases assertNewAction_cases s a with ⟨error, herror⟩ | ⟨hok, -, hnew⟩
  · rw [herror]
    exact .inl ⟨error, rfl⟩
  · rw [hok]
    refine .inr ⟨_, (s.list a.delivery).rtakeWhile fun item => item.state = .queued ∧
      (effectivePriority item).rank < (effectivePriority a).rank, hnew,
      (rdropWhile_append_rtakeWhile ..).symm, fun x hx => ?_, rfl⟩
    simpa using mem_rtakeWhile_imp hx

theorem InOrder.releaseTerminal (hin : InOrder h) (hcopied : Copied h.store a) :
    InOrder ⟨(h.store.releaseTerminal a).1, h.births, h.calls + 1⟩ := by
  by_cases howned : ∃ x ∈ h.store.ownedActions, x.id = a.id
  · obtain ⟨x, hx, hid⟩ := howned
    have hdelivery : a.delivery = x.delivery := congrArg Face.delivery (hcopied x hx hid)
    refine ⟨(hin.well.releaseTerminal hx hid.symm hdelivery).1, ?_, ?_⟩
    · rw [ActionStore.releaseTerminal]
      split_ifs
      · exact fun id hid => lt_succ_of_lt (hin.born id hid)
      · exact fun id hid => lt_succ_of_lt (hin.born id (Finset.mem_of_mem_erase hid))
    · intro p
      rw [ActionStore.releaseTerminal]
      split_ifs
      · exact hin.sorted p
      · refine (hin.sorted p).sublist (Sublist.map _ ?_)
        show Sublist ((h.store.setList a.delivery _).list p) _
        rcases eq_or_other a.delivery p with rfl | rfl
        · rw [list_setList_self]
          split
          · exact eraseIdx_sublist _ _
          · exact Sublist.refl _
        · rw [list_setList_other]
  · -- Nothing is stored under the id, so nothing is taken out.
    have habsent : a.id ∉ h.store.tickets := by
      rw [hin.well.tickets, ids, mem_toFinset]
      intro hmem
      exact howned (mem_map.1 hmem)
    have hsame : (h.store.releaseTerminal a).1 = h.store := by
      have hnone : ((h.store.list a.delivery).findIdx? fun item => item.id = a.id) = none := by
        refine findIdx?_eq_none_iff.2 fun x hx => ?_
        simpa using fun hid => howned ⟨x, mem_owned_of_mem_list hx, hid⟩
      rw [ActionStore.releaseTerminal]
      split_ifs
      · rfl
      · dsimp only
        rw [hnone, Finset.erase_eq_of_notMem habsent]
        cases a.delivery <;> rfl
    rw [hsame]
    exact hin.relabelled (.refl _)

end

/-- **Every call keeps the order.** -/
theorem InOrder.step (hin : InOrder h) {call : LaneCall P J Entry}
    (hcopies : call.Copies h.store) : InOrder (stepLanes h call) := by
  cases call with
  | enqueue a =>
    rw [stepLanes]
    rcases enqueue_cases h.store a with ⟨error, heq⟩ | ⟨front, back, hnew, hlane, hback, heq⟩
    · rw [heq]
      exact hin.relabelled (.refl _)
    · rw [heq]
      exact hin.insertAt hnew hlane fun x hx => (hback x hx).2
  | enqueueTail a =>
    rw [stepLanes, ActionStore.enqueueTail]
    rcases assertNewAction_cases h.store a with ⟨error, herror⟩ | ⟨hok, -, hnew⟩
    · rw [herror]
      exact hin.relabelled (.refl _)
    · rw [hok]
      exact hin.insertAt hnew (append_nil _).symm (by simp)
  | selectFirst => exact hin.relabelled (relabelled_selectFirst _)
  | rollback a proof =>
    rw [stepLanes, rollback_eq]
    exact hin.relabelled (relabelled_transitionStored hcopies _ _)
  | transition a next proof => exact hin.relabelled (relabelled_transitionStored hcopies _ _)
  | remove predicate candidates => exact hin.relabelled (relabelled_removeEach _ _)
  | releaseTerminal a => exact hin.releaseTerminal hcopies

theorem InOrder.run (hin : InOrder h) {calls : List (LaneCall P J Entry)}
    (hcopies : CopiesRun h calls) : InOrder (runLanes h calls) := by
  induction calls generalizing h with
  | nil => exact hin
  | cons call calls ih => exact ih (hin.step hcopies.1) hcopies.2

/-- The selected action was queued, and nothing before it in its lane was. -/
theorem of_selectFirst {b : SessionAction P J} (h : s.selectFirst.2 = .ok (some b)) :
    ∃ (p : DeliveryPolicy) (i : ℕ) (y : SessionAction P J), (s.list p)[i]? = some y ∧ y.id = b.id ∧
      ∀ j < i, ∀ x, (s.list p)[j]? = some x → x.state ≠ .queued := by
  rw [ActionStore.selectFirst] at h
  cases hfirst : s.firstQueued with
  | none =>
    rw [hfirst] at h
    cases h
  | some found =>
    obtain ⟨p, i⟩ := found
    rw [hfirst] at h
    dsimp only at h
    cases hy : (s.list p)[i]? with
    | none =>
      rw [hy] at h
      cases h
    | some y =>
      rw [hy] at h
      dsimp only at h
      cases htransition : transitionSessionAction y .selected none with
      | error error =>
        rw [htransition] at h
        cases h
      | ok a =>
        rw [htransition] at h
        cases h
        obtain ⟨rfl, -⟩ := of_transition htransition
        refine ⟨p, i, y, hy, rfl, fun j hj x hx => ?_⟩
        have hfind : ((s.list p).findIdx? fun item => item.state = .queued) = some i := by
          rw [firstQueued, Option.or_eq_some_iff] at hfirst
          rcases hfirst with hfound | ⟨-, hfound⟩
          all_goals
            obtain ⟨k, hk, heq⟩ := Option.map_eq_some_iff.1 hfound
            cases heq
            exact hk
        obtain ⟨hlt, -, hbefore⟩ := List.findIdx?_eq_some_iff_getElem.1 hfind
        obtain ⟨hj', rfl⟩ := List.getElem?_eq_some_iff.1 hx
        simpa using hbefore j hj

/-- **The order of enqueueing is respected within a lane**: while an action is queued, no action is
selected that was added to its lane later and has at most its priority; and an action that is
enqueued leaves the others in their order and goes ahead of queued work only. -/
theorem enqueue_order (calls : List (LaneCall P J Entry)) (hcopies : CopiesRun History.start calls) :
    let h := runLanes History.start calls
    (∀ x ∈ h.store.ownedActions, ∀ y ∈ h.store.ownedActions, x.delivery = y.delivery →
      h.births x.id < h.births y.id → (effectivePriority y).rank ≤ (effectivePriority x).rank →
      ∀ b, h.store.selectFirst.2 = .ok (some b) → b.id = y.id → x.state ≠ .queued) ∧
    ∀ a, (h.store.enqueue a).2 = .ok () →
      ∃ front back, h.store.list a.delivery = front ++ back ∧ (∀ x ∈ back, x.state = .queued) ∧
        (h.store.enqueue a).1.list a.delivery = front ++ a :: back ∧
        (h.store.enqueue a).1.list a.delivery.other = h.store.list a.delivery.other := by
  intro h
  have hin : InOrder h := inOrder_start.run hcopies
  constructor
  · intro x hx y hy hlane hbirths hpriority b hselect hid
    obtain ⟨p, i, y', hy', hid', hbefore⟩ := of_selectFirst hselect
    have hsame : y' = y := hin.well.eq_of_id (mem_owned_of_mem_list (mem_of_getElem? hy')) hy (hid'.trans hid)
    subst hsame
    have hp : x.delivery = p := hlane.trans (hin.well.laned p y' (mem_of_getElem? hy'))
    obtain ⟨j, hj⟩ := mem_iff_getElem?.1 (hp ▸ hin.well.mem_list hx)
    refine hbefore j ?_ x hj
    by_contra hij
    have hne : i ≠ j := by
      rintro rfl
      rw [hj] at hy'
      cases hy'
      exact lt_irrefl _ hbirths
    -- Were the selected action in front, it would be the older one or have the higher priority.
    obtain ⟨hi, hgeti⟩ := List.getElem?_eq_some_iff.1 hy'
    obtain ⟨hj, hgetj⟩ := List.getElem?_eq_some_iff.1 hj
    have hpair := pairwise_iff_getElem.1 (hin.sorted p) i j (by simpa using hi) (by simpa using hj)
      (by omega)
    rw [getElem_map, getElem_map, hgeti, hgetj] at hpair
    rcases hpair with hlt | hlt
    · exact absurd hlt (lt_asymm hbirths)
    · exact absurd hlt (not_lt.2 hpriority)
  · intro a hok
    rcases enqueue_cases h.store a with ⟨error, heq⟩ | ⟨front, back, -, hfront, hback, heq⟩
    · rw [heq] at hok
      cases hok
    · refine ⟨front, back, hfront, fun x hx => (hback x hx).1, ?_, ?_⟩
      · rw [heq]
        show (h.store.setList a.delivery _).list a.delivery = _
        rw [list_setList_self, hfront, insertIdx_length_append]
      · rw [heq]
        exact list_setList_other _ _ _

/-- Background work, then two prompts of the user, the first of which is selected and rolled
back. -/
def laneRun : List (LaneCall Unit Unit Unit) :=
  [.enqueue { SessionAction.of "w" .whenRunIdle .queued with source := .internal },
    .enqueue (.of "a" .whenRunIdle .queued), .enqueue (.of "b" .whenRunIdle .queued), .selectFirst,
    .rollback (.of "a" .whenRunIdle .selected) none]

theorem enqueue_order_laneRun : CopiesRun History.start laneRun ∧
    ((runLanes History.start laneRun).store.list .whenRunIdle).map SessionAction.id =
      [("a" : Str), ("b" : Str), ("w" : Str)] ∧
    ∀ b, (runLanes History.start laneRun).store.selectFirst.2 = .ok (some b) → b.id ≠ ("b" : Str) := by
  have hcopied : Copied (runLanes History.start (laneRun.take 4)).store
      (SessionAction.of "a" .whenRunIdle .selected) := by
    unfold Copied
    decide
  have hcopies : CopiesRun History.start laneRun := ⟨trivial, trivial, trivial, trivial, hcopied, trivial⟩
  refine ⟨hcopies, by decide, fun b hselect hid => ?_⟩
  exact (enqueue_order laneRun hcopies).1 (.of "a" .whenRunIdle .queued) (by decide)
    (.of "b" .whenRunIdle .queued) (by decide) rfl (by decide) (by decide) b hselect hid rfl

/-! ### Removals -/

/-- The first stored action with the id can be cancelled. -/
def Cancellable (s : ActionStore P J) (id : Str) : Prop :=
  ∃ x, (s.ownedActions.find? fun x => x.id = id) = some x ∧ isTerminal x.state = false

/-- The action was not cancelled before and is so now. -/
def BecameCancelled (s s' : ActionStore P J) (a : SessionAction P J) : Prop :=
  ∃ (k : ℕ) (x : SessionAction P J), s.ownedActions[k]? = some x ∧ s'.ownedActions[k]? = some a ∧
    x.state ≠ .cancelled ∧ a.state = .cancelled

/-- A removal that fails has changed no lifecycle; one that succeeds has cancelled what it
returns. -/
structure AllOrNothing (s : ActionStore P J)
    (outcome : ActionStore P J × Except Str (List (SessionAction P J))) : Prop where
  nothing : ∀ error, outcome.2 = .error error →
    outcome.1.ownedActions.map SessionAction.lifecycle = s.ownedActions.map SessionAction.lifecycle
  all : ∀ removed, outcome.2 = .ok removed → ∀ a, BecameCancelled s outcome.1 a ↔ a ∈ removed

omit [SessionPayload P Msg Entry] [DecidableEq Entry] in
/-- The place of an action among all actions. -/
theorem exists_of_place {id : Str} {p : DeliveryPolicy} {i : ℕ} (h : s.place id = some (p, i)) :
    ∃ k, (s.ownedActions.findIdx? fun x => x.id = id) = some k ∧ s.ownedActions[k]? = (s.list p)[i]? ∧
      ∀ a, (s.setList p ((s.list p).set i a)).ownedActions = s.ownedActions.set k a := by
  rw [place, Option.or_eq_some_iff] at h
  rcases h with h | ⟨hnone, h⟩
  · obtain ⟨j, hj, heq⟩ := Option.map_eq_some_iff.1 h
    cases heq
    obtain ⟨hlt, -⟩ := findIdx?_eq_some_iff_getElem.1 hj
    refine ⟨i, ?_, getElem?_append_left hlt, fun a => ?_⟩
    · rw [ownedActions, findIdx?_append, hj, Option.some_or]
    · exact (set_append_left i a hlt).symm
  · obtain ⟨j, hj, heq⟩ := Option.map_eq_some_iff.1 h
    cases heq
    refine ⟨i + s.nextTurnBoundary.length, ?_, ?_, fun a => ?_⟩
    · rw [ownedActions, findIdx?_append, Option.map_eq_none_iff.1 hnone, Option.none_or, hj, Option.map_some]
    · rw [ownedActions, getElem?_append_right (Nat.le_add_left _ _), Nat.add_sub_cancel]
      rfl
    · have hset : (s.nextTurnBoundary ++ s.whenRunIdle).set (i + s.nextTurnBoundary.length) a =
          s.nextTurnBoundary ++ s.whenRunIdle.set i a := by
        rw [set_append_right _ a (Nat.le_add_left _ _), Nat.add_sub_cancel]
      exact hset.symm

omit [SessionPayload P Msg Entry] [DecidableEq Entry] in
theorem find?_of_findIdx? {l : List (SessionAction P J)} {q : SessionAction P J → Bool} {k : ℕ}
    (h : l.findIdx? q = some k) : l.find? q = l[k]? := by
  obtain ⟨hlt, hq, hbefore⟩ := findIdx?_eq_some_iff_getElem.1 h
  rw [getElem?_eq_getElem hlt]
  exact find?_eq_some_iff_getElem.2 ⟨hq, k, hlt, rfl, fun j hj => by simpa using hbefore j hj⟩

/-- What one candidate does to the actions of both lanes. -/
theorem removeEach_cons_owned (s : ActionStore P J) (c : SessionAction P J) (cs : List (SessionAction P J)) :
    (¬ Cancellable s c.id ∧ ∃ error, s.removeEach (c :: cs) = (s, .error error)) ∨
    ∃ (s' : ActionStore P J) (k : ℕ) (x : SessionAction P J), x.id = c.id ∧
      (s.ownedActions.findIdx? fun x => x.id = c.id) = some k ∧ s.ownedActions[k]? = some x ∧
      isTerminal x.state = false ∧ s'.ownedActions = s.ownedActions.set k x.cancel ∧
      s.removeEach (c :: cs) = ((s'.removeEach cs).1, (s'.removeEach cs).2.map (x.cancel :: ·)) := by
  rcases removeEach_cons s c cs with ⟨herror, hterminal⟩ | ⟨p, i, x, hplace, hx, hlive, heq⟩
  · refine .inl ⟨?_, herror⟩
    rintro ⟨x, hfind, hlive⟩
    cases hplace : s.place c.id with
    | none =>
      rw [place, Option.or_eq_none_iff, Option.map_eq_none_iff, Option.map_eq_none_iff] at hplace
      have hmem := mem_of_find?_eq_some hfind
      have hid := find?_some hfind
      rcases mem_append.1 hmem with hmem | hmem
      · exact absurd hid (by simpa using findIdx?_eq_none_iff.1 hplace.1 x hmem)
      · exact absurd hid (by simpa using findIdx?_eq_none_iff.1 hplace.2 x hmem)
    | some found =>
      obtain ⟨p, i⟩ := found
      obtain ⟨k, hk, hget, -⟩ := exists_of_place hplace
      rw [find?_of_findIdx? hk, hget] at hfind
      rw [hterminal p i x hplace hfind] at hlive
      cases hlive
  · obtain ⟨k, hk, hget, hset⟩ := exists_of_place hplace
    obtain ⟨x', hx', hid⟩ := of_place hplace
    rw [hx] at hx'
    cases hx'
    exact .inr ⟨_, k, x, hid, hk, hget.trans hx, hlive, hset x.cancel, heq⟩

omit [SessionPayload P Msg Entry] [DecidableEq Entry] in
/-- After an action has been cancelled, the others can be cancelled as before, and it no more. -/
theorem cancellable_set {s' : ActionStore P J} {k : ℕ} {x : SessionAction P J}
    (hk : (s.ownedActions.findIdx? fun y => y.id = x.id) = some k) (hx : s.ownedActions[k]? = some x)
    (hs' : s'.ownedActions = s.ownedActions.set k x.cancel) (id : Str) :
    Cancellable s' id ↔ Cancellable s id ∧ id ≠ x.id := by
  rw [Cancellable, Cancellable, hs']
  by_cases hid : id = x.id
  · subst hid
    have hfind : ((s.ownedActions.set k x.cancel).find? fun y => y.id = x.id) = some x.cancel := by
      obtain ⟨hlt, -, hbefore⟩ := findIdx?_eq_some_iff_getElem.1 hk
      refine find?_eq_some_iff_getElem.2 ⟨decide_eq_true rfl, k, by simpa using hlt, by simp, fun j hj => ?_⟩
      rw [getElem_set_ne hj.ne']
      simpa using hbefore j hj
    rw [hfind]
    refine iff_of_false ?_ fun h => h.2 rfl
    rintro ⟨y, hy, hlive⟩
    cases hy
    cases hlive
  · have hfind : ∀ (l : List (SessionAction P J)) (k : ℕ), l[k]? = some x →
        ((l.set k x.cancel).find? fun y => y.id = id) = l.find? fun y => y.id = id := by
      intro l
      induction l with
      | nil => exact fun k _ => rfl
      | cons y l ih =>
        intro k hget
        cases k with
        | zero =>
          cases hget
          simp [SessionAction.cancel, Ne.symm hid]
        | succ k => rw [set_cons_succ, find?_cons, find?_cons, ih k (by simpa using hget)]
    rw [hfind _ k hx]
    exact ⟨fun h => ⟨h, hid⟩, And.left⟩

/-- A removal succeeds iff its candidates have distinct ids and can all be cancelled. -/
theorem removeEach_ok_iff (s : ActionStore P J) (cs : List (SessionAction P J)) :
    (∃ removed, (s.removeEach cs).2 = .ok removed) ↔
      (cs.map SessionAction.id).Nodup ∧ ∀ c ∈ cs, Cancellable s c.id := by
  induction cs generalizing s with
  | nil => exact iff_of_true ⟨[], rfl⟩ ⟨nodup_nil, by simp⟩
  | cons c cs ih =>
    rw [map_cons, nodup_cons, forall_mem_cons]
    rcases removeEach_cons_owned s c cs with
      ⟨hnot, error, heq⟩ | ⟨s', k, x, hid, hk, hx, hlive, hs', heq⟩
    · rw [heq]
      exact iff_of_false (by rintro ⟨_, h⟩; cases h) fun h => hnot h.2.1
    · rw [← hid] at hk ⊢
      have hself : Cancellable s x.id := ⟨x, (find?_of_findIdx? hk).trans hx, hlive⟩
      have hmap : (∃ removed, (s.removeEach (c :: cs)).2 = .ok removed) ↔
          ∃ removed, (s'.removeEach cs).2 = .ok removed := by
        rw [heq]
        cases (s'.removeEach cs).2 with
        | error error => exact Iff.rfl
        | ok removed => exact iff_of_true ⟨_, rfl⟩ ⟨_, rfl⟩
      rw [hmap, ih s']
      constructor
      · rintro ⟨hnodup, hall⟩
        have hall' := fun d hd => (cancellable_set hk hx hs' _).1 (hall d hd)
        refine ⟨⟨fun hmem => ?_, hnodup⟩, hself, fun d hd => (hall' d hd).1⟩
        obtain ⟨d, hd, hdid⟩ := mem_map.1 hmem
        exact (hall' d hd).2 hdid
      · rintro ⟨⟨hfresh, hnodup⟩, -, hall⟩
        refine ⟨hnodup, fun d hd => (cancellable_set hk hx hs' _).2 ⟨hall d hd, fun hdid => hfresh ?_⟩⟩
        exact mem_map.2 ⟨d, hd, hdid⟩

/-- What is cancelled stays as it is. -/
theorem removeEach_cancelled {k : ℕ}
    (ha : s.ownedActions[k]? = some a) (hcancelled : a.state = .cancelled) (cs : List (SessionAction P J)) :
    (s.removeEach cs).1.ownedActions[k]? = some a := by
  induction cs generalizing s with
  | nil => exact ha
  | cons c cs ih =>
    rcases removeEach_cons_owned s c cs with ⟨-, error, heq⟩ | ⟨s', i, x, -, -, hx, hlive, hs', heq⟩
    · rw [heq]
      exact ha
    · rw [heq]
      refine ih ?_
      rw [hs', getElem?_set_ne, ha]
      rintro rfl
      rw [hx] at ha
      cases ha
      rw [hcancelled] at hlive
      cases hlive

/-- A removal that succeeds has cancelled exactly what it returns. -/
theorem becameCancelled_removeEach {cs removed : List (SessionAction P J)}
    (hok : (s.removeEach cs).2 = .ok removed) (a : SessionAction P J) :
    BecameCancelled s (s.removeEach cs).1 a ↔ a ∈ removed := by
  induction cs generalizing s removed with
  | nil =>
    cases hok
    refine iff_of_false ?_ not_mem_nil
    rintro ⟨k, x, hx, ha, hne, heq⟩
    rw [ActionStore.removeEach, hx] at ha
    cases ha
    exact hne heq
  | cons c cs ih =>
    rcases removeEach_cons_owned s c cs with ⟨-, error, heq⟩ | ⟨s', i, x, -, -, hx, hlive, hs', heq⟩
    · rw [heq] at hok
      cases hok
    · obtain ⟨rest, hrest⟩ : ∃ rest, (s'.removeEach cs).2 = .ok rest := by
        rw [heq] at hok
        cases hresult : (s'.removeEach cs).2 with
        | error error =>
          rw [hresult] at hok
          cases hok
        | ok rest => exact ⟨rest, rfl⟩
      rw [heq, hrest] at hok
      cases hok
      obtain ⟨hlt, -⟩ := List.getElem?_eq_some_iff.1 hx
      have hnew : s'.ownedActions[i]? = some x.cancel := by rw [hs', List.getElem?_set_self hlt]
      have hkept := removeEach_cancelled hnew rfl cs
      rw [heq, mem_cons, ← ih hrest]
      constructor
      · rintro ⟨k, y, hy, ha, hne, hcancelled⟩
        by_cases hk : k = i
        · subst hk
          exact .inl (Option.some.inj (ha.symm.trans hkept))
        · refine .inr ⟨k, y, ?_, ha, hne, hcancelled⟩
          rw [hs', getElem?_set_ne (Ne.symm hk), hy]
      · rintro (rfl | ⟨k, y, hy, ha, hne, hcancelled⟩)
        · refine ⟨i, x, hx, hkept, fun hstate => ?_, rfl⟩
          rw [hstate] at hlive
          cases hlive
        · refine ⟨k, y, ?_, ha, hne, hcancelled⟩
          have hki : k ≠ i := by
            rintro rfl
            rw [hnew] at hy
            cases hy
            exact hne rfl
          rwa [hs', getElem?_set_ne (Ne.symm hki)] at hy

/-- **A removal is all or nothing** iff the chosen candidates have distinct ids and can all be
cancelled, or the first one cannot. -/
theorem remove_allOrNothing_iff (s : ActionStore P J) (predicate : SessionAction P J → Bool)
    (candidates : Option (List (SessionAction P J))) :
    let chosen := (candidates.getD (s.clearableActions none)).filter predicate
    AllOrNothing s (s.remove predicate candidates) ↔
      ((chosen.map SessionAction.id).Nodup ∧ ∀ c ∈ chosen, Cancellable s c.id) ∨
      ∃ c ∈ chosen.head?, ¬ Cancellable s c.id := by
  intro chosen
  show AllOrNothing s (s.removeEach chosen) ↔ _
  rw [← removeEach_ok_iff]
  constructor
  · intro h
    cases hresult : (s.removeEach chosen).2 with
    | ok removed => exact .inl ⟨removed, rfl⟩
    | error error =>
      right
      have hsame := h.nothing error hresult
      cases hchosen : chosen with
      | nil =>
        rw [hchosen] at hresult
        cases hresult
      | cons c cs =>
        refine ⟨c, rfl, ?_⟩
        rcases removeEach_cons_owned s c cs with ⟨hnot, -⟩ | ⟨s', i, x, -, -, hx, hlive, hs', heq⟩
        · exact hnot
        · obtain ⟨hlt, -⟩ := List.getElem?_eq_some_iff.1 hx
          have hkept := removeEach_cancelled (s := s') (k := i) (a := x.cancel)
            (by rw [hs', List.getElem?_set_self hlt]) rfl cs
          have hlifecycle := congrArg (·[i]?) hsame
          rw [hchosen, heq] at hlifecycle
          simp only [getElem?_map, hkept, hx, Option.map_some, Option.some.injEq] at hlifecycle
          rw [SessionAction.state, ← hlifecycle] at hlive
          cases hlive
  · rintro (⟨removed, hok⟩ | ⟨c, hc, hnot⟩)
    · refine ⟨fun error herror => ?_, fun removed' hok' => becameCancelled_removeEach hok'⟩
      rw [hok] at herror
      cases herror
    · obtain ⟨cs, hcs⟩ : ∃ cs, chosen = c :: cs := by
        cases hchosen : chosen with
        | nil =>
          rw [hchosen] at hc
          cases hc
        | cons d cs =>
          rw [hchosen] at hc
          cases hc
          exact ⟨cs, rfl⟩
      rcases removeEach_cons_owned s c cs with ⟨-, error, heq⟩ | ⟨s', k, x, hid, hk, hx, hlive, -⟩
      · rw [hcs, heq]
        exact ⟨fun _ _ => rfl, fun removed hok => by cases hok⟩
      · exact absurd ⟨x, (find?_of_findIdx? hk).trans hx, hlive⟩ hnot

/-- The second candidate has been released: the removal fails, and the first candidate is
cancelled. -/
theorem released_candidate :
    let s : ActionStore Unit Unit := run .new [.enqueue (.of "a" .whenRunIdle .queued)]
    let outcome := s.remove (fun _ => true)
      (some [.of "a" .whenRunIdle .queued, .of "b" .whenRunIdle .cancelled])
    s.ownedActions = [.of "a" .whenRunIdle .queued] ∧
    outcome.1.ownedActions = [.of "a" .whenRunIdle .cancelled] ∧
    outcome.2 = .error "Session action b is not owned by this store" ∧ ¬ AllOrNothing s outcome := by
  intro s outcome
  have herror : outcome.2 = .error "Session action b is not owned by this store" := by decide
  refine ⟨by decide, by decide, herror, fun h => ?_⟩
  exact absurd (h.nothing _ herror) (by decide)

end Actions
