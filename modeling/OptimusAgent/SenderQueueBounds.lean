/-
**Reachable sender queues, and when one can reload its own artifact.**

Only the head of the sender queue is armed, published, admitted or uncertain; the entries behind it
wait, and none is terminal.  Entries leave from the middle and are demoted by restarts, but their
order stays the order in which they were enqueued.

The loader refuses an artifact with an entry out of bounds.  Most of the bounds hold in every
reachable queue; two do not.  Nothing limits the number of attempts of an entry, and a restart adds
a message id to the history of an entry in flight without cutting the history to its limit.
-/

import OptimusAgent.SenderQueueSteps

namespace Occ3

open Str List

/-! ### What a change keeps -/

variable {q : SenderQueue} {call : QueueCall} {index : ℕ} {e e' : SenderQueueEntry}

section

variable (h : Touched q call index e e')

include h

theorem Touched.queueId_eq : e'.queueId = e.queueId := by
  cases h <;> rfl

/-- A changed entry stays open. -/
theorem Touched.isTerminal_eq : e'.state.isTerminal = false := by
  cases h with
  | progress hstate => rcases hstate with rfl | rfl <;> rfl
  | _ => rfl

/-- Only the head, or an entry in flight, can end up in a state that does not wait. -/
theorem Touched.waiting_or : e'.state.isWaiting = true ∨ index = 0 ∨ e.state.isInFlight = true := by
  cases h with
  | arm | progress => exact .inr (.inl rfl)
  | doubt hflight => exact .inr (.inr hflight)
  | _ => exact .inl rfl

end

/-- What a restart makes of an entry: nothing, or what was armed waits again, or what was published
becomes uncertain. -/
theorem SenderQueueEntry.demote_cases (e : SenderQueueEntry) :
    (e.state.isInFlight = false ∧ e.demote = e) ∨ (e.state.isInFlight = true ∧ ∃ reason state,
        e.demote = { e with
          attempts := satAdd32 e.attempts 1
          messageIds := e.messageIds ++ [(("restart_ambiguous" : Str), e.messageId.getD [])]
          reason := reason
          state := state } ∧
        state = if e.state ≠ .armed then .uncertain
          else if maxNativeCaptureRetries < satAdd32 e.attempts 1 then .fallbackPending
          else .pending) := by
  unfold demote
  by_cases hflight : e.state.isInFlight = true
  · refine .inr ⟨hflight, ?_⟩
    rw [if_pos hflight]
    by_cases harmed : e.state = .armed
    · exact ⟨_, _, if_pos harmed, by simp [harmed]⟩
    · exact ⟨_, _, if_neg harmed, by simp [harmed]⟩
  · exact .inl ⟨by simpa using hflight, if_neg hflight⟩

theorem SenderQueueEntry.demote_queueId (e : SenderQueueEntry) : e.demote.queueId = e.queueId := by
  rcases e.demote_cases with ⟨_, heq⟩ | ⟨_, reason, state, heq, _⟩ <;> rw [heq]

theorem isWaiting_of_isInFlight (h : e.state.isInFlight = true) : e.state.isWaiting = false := by
  cases hs : e.state <;> simp_all [SenderQueueState.isWaiting, SenderQueueState.isInFlight]

theorem SenderQueueEntry.demote_of_waiting (h : e.state.isWaiting = true) : e.demote = e := by
  rcases e.demote_cases with ⟨_, heq⟩ | ⟨hflight, _⟩
  · exact heq
  · rw [isWaiting_of_isInFlight hflight] at h
    cases h

theorem SenderQueueEntry.demote_isTerminal (h : e.state.isTerminal = false) : e.demote.state.isTerminal = false := by
  rcases e.demote_cases with ⟨_, heq⟩ | ⟨_, reason, state, heq, hstate⟩
  · rwa [heq]
  · rw [heq]
    simp only [hstate]
    split_ifs <;> rfl

/-! ### The discipline of the head -/

/-- Only the head leaves the waiting states, and no entry is terminal. -/
structure Disciplined (es : List SenderQueueEntry) : Prop where
  behind : ∀ e ∈ es.tail, e.state.isWaiting = true
  unsettled : ∀ e ∈ es, e.state.isTerminal = false

theorem disciplined_nil : Disciplined [] := ⟨by simp, by simp⟩

variable {es es' : List SenderQueueEntry}

section

variable (h : Disciplined es)

include h

/-- Removing entries keeps the discipline. -/
theorem Disciplined.sublist (hsub : es'.Sublist es) : Disciplined es' :=
  ⟨fun e he => h.behind e (hsub.tail.subset he), fun e he => h.unsettled e (hsub.subset he)⟩

/-- An entry that does not wait is the head. -/
theorem Disciplined.index_eq_zero
    (hget : es[index]? = some e) (hstate : e.state.isWaiting = false) : index = 0 := by
  cases es with
  | nil => simp at hget
  | cons head rest =>
    cases index with
    | zero => rfl
    | succ i =>
      have hmem : e ∈ rest := mem_of_getElem? (by simpa using hget)
      rw [h.behind e hmem] at hstate
      cases hstate

theorem Disciplined.set (hget : es[index]? = some e) (hopen : e'.state.isTerminal = false)
    (hwaiting : e'.state.isWaiting = true ∨ index = 0 ∨ e.state.isInFlight = true) :
    Disciplined (es.set index e') := by
  refine ⟨fun x hx => ?_, fun x hx => ?_⟩
  · cases es with
    | nil => simp at hx
    | cons head rest =>
      cases index with
      | zero => exact h.behind x hx
      | succ i =>
        have hx : x ∈ rest.set i e' := hx
        rcases mem_or_eq_of_mem_set hx with hx | rfl
        · exact h.behind x hx
        · rcases hwaiting with hwaiting | hzero | hflight
          · exact hwaiting
          · cases hzero
          · cases h.index_eq_zero hget (isWaiting_of_isInFlight hflight)
  · rcases mem_or_eq_of_mem_set hx with hx | rfl
    · exact h.unsettled x hx
    · exact hopen

omit h in
theorem isTerminal_of_isWaiting (h : e.state.isWaiting = true) : e.state.isTerminal = false := by
  cases hs : e.state <;> simp_all [SenderQueueState.isWaiting, SenderQueueState.isTerminal]

theorem Disciplined.append (hwaiting : e.state.isWaiting = true) : Disciplined (es ++ [e]) := by
  refine ⟨fun x hx => ?_, fun x hx => ?_⟩
  · cases es with
    | nil => simp at hx
    | cons head rest =>
      rcases mem_append.1 hx with hx | hx
      · exact h.behind x hx
      · rw [mem_singleton.1 hx]
        exact hwaiting
  · rcases mem_append.1 hx with hx | hx
    · exact h.unsettled x hx
    · rw [mem_singleton.1 hx]
      exact isTerminal_of_isWaiting hwaiting

theorem Disciplined.map_demote : Disciplined (es.map SenderQueueEntry.demote) := by
  refine ⟨fun x hx => ?_, fun x hx => ?_⟩
  · rw [← map_tail] at hx
    obtain ⟨e, he, rfl⟩ := mem_map.1 hx
    rw [SenderQueueEntry.demote_of_waiting (h.behind e he)]
    exact h.behind e he
  · obtain ⟨e, he, rfl⟩ := mem_map.1 hx
    exact SenderQueueEntry.demote_isTerminal (h.unsettled e he)

end

/-- Every call keeps the discipline. -/
theorem Effect.disciplined {ns : List QueueNotice}
    (h : Effect q call ns es') (hq : Disciplined q.entries) : Disciplined es' := by
  cases h with
  | kept => exact hq
  | appended _ _ _ hstate => exact hq.append (by rw [hstate]; rfl)
  | touched hget htouched => exact hq.set hget htouched.isTerminal_eq htouched.waiting_or
  | removed | popped => exact hq.sublist (eraseIdx_sublist ..)
  | swept => exact hq.sublist filter_sublist
  | retired | shut => exact disciplined_nil
  | reloaded => exact hq.map_demote.sublist filter_sublist

/-! ### The order of arrival -/

/-- The queue ids of the handoffs that the calls enqueue, in order. -/
def arrivals (calls : List QueueCall) : List Str :=
  calls.flatMap fun
    | .enqueue uuid _ _ _ => [uuid.queueId]
    | _ => []

/-- The queue ids of the entries, in order. -/
def queueIds (es : List SenderQueueEntry) : List Str := es.map SenderQueueEntry.queueId

theorem queueIds_set (hget : es[index]? = some e)
    (hid : e'.queueId = e.queueId) : queueIds (es.set index e') = queueIds es := by
  rw [queueIds, map_set, hid]
  obtain ⟨hlt, rfl⟩ := List.getElem?_eq_some_iff.1 hget
  exact ext_getElem (by simp [queueIds]) fun i h₁ h₂ => by
    rw [getElem_set]
    split_ifs with hi
    · subst hi
      simp [queueIds]
    · rfl

theorem queueIds_map_demote (es : List SenderQueueEntry) : queueIds (es.map SenderQueueEntry.demote) = queueIds es := by
  rw [queueIds, map_map]
  exact map_congr_left fun e _ => e.demote_queueId

/-- A call keeps the order of the entries and appends what arrives. -/
theorem Effect.queueIds_sublist {ns : List QueueNotice} (h : Effect q call ns es') :
    (queueIds es').Sublist (queueIds q.entries ++ arrivals [call]) := by
  have hold : (queueIds q.entries).Sublist (queueIds q.entries ++ arrivals [call]) := sublist_append_left ..
  cases h with
  | kept => exact hold
  | appended _ _ hid =>
    rw [queueIds, map_append, map_singleton, hid]
    exact Sublist.refl _
  | touched hget htouched =>
    rw [queueIds_set hget htouched.queueId_eq]
    exact hold
  | removed | popped => exact ((eraseIdx_sublist ..).map _).trans hold
  | swept => exact (filter_sublist.map _).trans hold
  | retired | shut => exact nil_sublist _
  | reloaded =>
    refine Sublist.trans (filter_sublist.map _) ?_
    rw [← queueIds, queueIds_map_demote]
    exact hold

namespace SenderQueue

theorem run_cons (q : SenderQueue) (call : QueueCall) (calls : List QueueCall) :
    q.run (call :: calls) = (q.step call).2.run calls := rfl

theorem queueIds_run (q : SenderQueue) (calls : List QueueCall) :
    (queueIds (q.run calls).entries).Sublist (queueIds q.entries ++ arrivals calls) := by
  induction calls generalizing q with
  | nil => exact sublist_append_left ..
  | cons call calls ih =>
    have hcalls : arrivals (call :: calls) = arrivals [call] ++ arrivals calls := by simp [arrivals]
    rw [run_cons, hcalls, ← append_assoc]
    exact (ih _).trans (Sublist.append_right (q.effect_step call).queueIds_sublist _)

theorem disciplined_run_of (h : Disciplined q.entries) (calls : List QueueCall) :
    Disciplined (q.run calls).entries := by
  induction calls generalizing q with
  | nil => exact h
  | cons call calls ih => exact ih ((q.effect_step call).disciplined h)

/-- In every reachable queue, an entry that is armed, published, admitted or uncertain is the head,
no entry is terminal, and the entries are in the order of their arrival. -/
theorem disciplined_run (ttlSecs maxEntries : ℕ) (calls : List QueueCall) :
    let q := (withLimits ttlSecs maxEntries).run calls
    (∀ (index : ℕ) (e : SenderQueueEntry), q.entries[index]? = some e →
        e.state ∈ [.armed, .published, .admitted, .uncertain] → index = 0) ∧
      (∀ e ∈ q.entries, e.state.isTerminal = false) ∧
      (queueIds q.entries).Sublist (arrivals calls) := by
  intro q
  have hq : Disciplined q.entries := disciplined_run_of disciplined_nil calls
  refine ⟨fun index e hget hstate => hq.index_eq_zero hget ?_, hq.unsettled, ?_⟩
  · simp only [mem_cons, not_mem_nil, or_false] at hstate
    rcases hstate with h | h | h | h <;> rw [h] <;> rfl
  · exact queueIds_run (withLimits ttlSecs maxEntries) calls

end SenderQueue

/-! ### Conditions on the calls of a run -/

/-- The condition holds of every call and the queue that it finds. -/
def EveryStep (P : SenderQueue → QueueCall → Prop) : SenderQueue → List QueueCall → Prop
  | _, [] => True
  | q, call :: calls => P q call ∧ EveryStep P (q.step call).2 calls

instance EveryStep.decidable {P : SenderQueue → QueueCall → Prop}
    [∀ q call, Decidable (P q call)] : ∀ q calls, Decidable (EveryStep P q calls)
  | _, [] => .isTrue trivial
  | q, call :: calls =>
    have := EveryStep.decidable (P := P) (q.step call).2 calls
    inferInstanceAs (Decidable (P q call ∧ EveryStep P (q.step call).2 calls))

/-- The rule for invariants of runs. -/
theorem EveryStep.run {P : SenderQueue → QueueCall → Prop} {I : SenderQueue → Prop}
    (hstep : ∀ q call, I q → P q call → I (q.step call).2) {q : SenderQueue}
    {calls : List QueueCall} (hq : I q) (hcalls : EveryStep P q calls) : I (q.run calls) := by
  induction calls generalizing q with
  | nil => exact hq
  | cons call calls ih => exact ih (hstep q call hq hcalls.1) hcalls.2

theorem everyStep_true (q : SenderQueue) (calls : List QueueCall) : EveryStep (fun _ _ => True) q calls := by
  induction calls generalizing q with
  | nil => trivial
  | cons call calls ih => exact ⟨trivial, ih _⟩

variable {q : SenderQueue} {call : QueueCall} {index : ℕ} {e e' : SenderQueueEntry}
  {ns : List QueueNotice} {es' : List SenderQueueEntry}

/-- A property of entries that arrivals have and that calls keep holds of all entries after a
call. -/
theorem Effect.forall_mem {P P' : SenderQueueEntry → Prop}
    (h : Effect q call ns es') (hq : ∀ e ∈ q.entries, P e)
    (hkeep : ∀ e, P e → P' e)
    (hnew : ∀ e, e.violatesBound = false → e.state = .pending → P' e)
    (htouched : ∀ index e e', e ∈ q.entries → Touched q call index e e' → P e → P' e')
    (hdemote : ∀ ttlSecs maxEntries now, call = .restart ttlSecs maxEntries now →
      q.blocked = none → (∀ e ∈ q.entries, e.violatesBound = false) →
      ∀ e ∈ q.entries, e.demote.droppable now = false → P e → P' e.demote) : ∀ e ∈ es', P' e := by
  have hold : ∀ e ∈ q.entries, P' e := fun e he => hkeep e (hq e he)
  intro x hx
  cases h with
  | kept => exact hold x hx
  | appended _ _ _ hstate hbound =>
    rcases mem_append.1 hx with hx | hx
    · exact hold x hx
    · rw [mem_singleton.1 hx]
      exact hnew _ hbound hstate
  | touched hget ht =>
    rcases mem_or_eq_of_mem_set hx with hx | rfl
    · exact hold x hx
    · have hmem := mem_of_getElem? hget
      exact htouched _ _ _ hmem ht (hq _ hmem)
  | removed | popped => exact hold x ((eraseIdx_sublist ..).subset hx)
  | swept => exact hold x (filter_sublist.subset hx)
  | retired | shut => cases hx
  | reloaded hopen hbounds =>
    obtain ⟨hmem, hstays⟩ := mem_filter.1 hx
    obtain ⟨e, he, rfl⟩ := mem_map.1 hmem
    exact hdemote _ _ _ rfl hopen hbounds e he (by simpa using hstays) (hq e he)

/-! ### The bounds that always hold -/

/-- The bounds of the loader that hold in every reachable queue. -/
structure Admissible (e : SenderQueueEntry) : Prop where
  queueId : byteLen e.queueId ≤ 128
  role : e.receiverRole ≠ []
  name : e.receiverName ≠ []
  nameLength : byteLen e.receiverName ≤ 128
  busy : e.busyRetries ≤ receiverBusyMaxRetries

theorem violatesBound_eq_false :
    e.violatesBound = false ↔ Admissible e ∧ e.attempts ≤ 64 ∧ e.messageIds.length ≤ 8 := by
  simp only [SenderQueueEntry.violatesBound, decide_eq_false_iff_not, not_or, not_lt]
  constructor
  · rintro ⟨hid, hrole, hname, hlen, hattempts, hbusy, hids⟩
    exact ⟨⟨hid, hrole, hname, hlen, hbusy⟩, hattempts, hids⟩
  · rintro ⟨⟨hid, hrole, hname, hlen, hbusy⟩, hattempts, hids⟩
    exact ⟨hid, hrole, hname, hlen, hattempts, hbusy, hids⟩

theorem satAdd32_le (a b : ℕ) : satAdd32 a b ≤ a + b := min_le_left ..

theorem Touched.admissible (h : Touched q call index e e') (he : Admissible e) : Admissible e' := by
  have hretry : e.busyRetries < receiverBusyMaxRetries →
      satAdd32 e.busyRetries 1 ≤ receiverBusyMaxRetries := fun hlt =>
    (satAdd32_le _ _).trans hlt
  cases h with
  | receiverBusy _ hbusy | sourceBusy _ hbusy => exact ⟨he.queueId, he.role, he.name, he.nameLength, hretry hbusy⟩
  | _ => exact ⟨he.queueId, he.role, he.name, he.nameLength, he.busy⟩

theorem Admissible.demote (he : Admissible e) : Admissible e.demote := by
  rcases e.demote_cases with ⟨_, heq⟩ | ⟨_, reason, state, heq, _⟩
  · rwa [heq]
  · rw [heq]
    exact ⟨he.queueId, he.role, he.name, he.nameLength, he.busy⟩

theorem Effect.admissible (h : Effect q call ns es') (hq : ∀ e ∈ q.entries, Admissible e) : ∀ e ∈ es', Admissible e :=
  h.forall_mem hq (fun _ he => he) (fun _ hbound _ => (violatesBound_eq_false.1 hbound).1)
    (fun _ _ _ _ ht he => ht.admissible he) fun _ _ _ _ _ _ _ _ _ he => he.demote

theorem SenderQueue.admissible_run (ttlSecs maxEntries : ℕ) (calls : List QueueCall) :
    ∀ e ∈ ((withLimits ttlSecs maxEntries).run calls).entries, Admissible e :=
  EveryStep.run (I := fun q => ∀ e ∈ q.entries, Admissible e)
    (fun q call hq _ => (q.effect_step call).admissible hq) (by simp [withLimits])
    (everyStep_true _ calls)

/-! ### The bounds that calls can exceed -/

/-- How many attempts a call may add to an entry. -/
def QueueCall.attemptCost : QueueCall → ℕ
  | .recordDeliveryEvent _ false _ _ _ => 1
  | .recordReceiverBusy .. => 1
  | .markFallback .. => 1
  | .captureFailed true _ _ _ => 2
  | .captureFailed false _ _ _ => 1
  | _ => 0

/-- The call leaves the attempts and the message ids of the entry within their limits.  A restart
adds one of each to an entry in flight. -/
def QueueCall.SparesEntry (call : QueueCall) (e : SenderQueueEntry) : Prop :=
  match call with
  | .restart .. => e.state.isInFlight = true → e.attempts < 64 ∧ e.messageIds.length < 8
  | call => e.attempts + call.attemptCost ≤ 64

instance (e : SenderQueueEntry) : (call : QueueCall) → Decidable (call.SparesEntry e)
  | .restart .. => inferInstanceAs
      (Decidable (e.state.isInFlight = true → e.attempts < 64 ∧ e.messageIds.length < 8))
  | .enqueue .. | .markArmed .. | .markProgressed .. | .recordDeliveryEvent .. |
    .recordReceiverBusy .. | .recordSourceBusy .. | .markFallback .. | .resolveUncertain .. |
    .acknowledgeFallback .. | .retireAllSilently | .popTerminalHead | .capturePolicyDenied .. |
    .captureFailed .. | .sweepExpired .. | .outboxRecord .. | .outboxAck .. => Nat.decLe _ _

/-- The call spares every entry of the queue. -/
def Spares (q : SenderQueue) (call : QueueCall) : Prop := ∀ e ∈ q.entries, call.SparesEntry e

instance (q : SenderQueue) (call : QueueCall) : Decidable (Spares q call) :=
  inferInstanceAs (Decidable (∀ e ∈ q.entries, call.SparesEntry e))

theorem length_rtake_le {α : Type} (n : ℕ) (l : List α) : (l.rtake n).length ≤ n := by
  rw [rtake, length_drop]
  omega

theorem SenderQueueEntry.length_messageIds_arm (e : SenderQueueEntry) (messageId session : Option Str)
    (h : e.messageIds.length ≤ 8) : (e.arm messageId session).messageIds.length ≤ 8 := by
  cases messageId with
  | none => exact h
  | some id =>
    simp only [arm]
    split_ifs
    · exact h
    · exact length_rtake_le ..

theorem fallBack_attempts_le (e : SenderQueueEntry) (reason : Str) (counted : Bool) (token : Uuid) :
    (e.fallBack reason counted token).attempts ≤ e.attempts + 1 := by
  simp only [SenderQueueEntry.fallBack]
  split_ifs
  · exact satAdd32_le ..
  · exact Nat.le_succ _

theorem Touched.spared (h : Touched q call index e e') (hids : e.messageIds.length ≤ 8)
    (hspares : call.SparesEntry e) : e'.attempts ≤ 64 ∧ e'.messageIds.length ≤ 8 := by
  cases h with
  | arm => exact ⟨hspares, e.length_messageIds_arm _ _ hids⟩
  | progress | doubt | sourceExhausted | sourceBusy | reemit | denied => exact ⟨hspares, hids⟩
  | unconsumed | receiverExhausted | fallBack => exact ⟨(fallBack_attempts_le ..).trans hspares, hids⟩
  | receiverBusy =>
    have hspares : e.attempts + 1 ≤ 64 := hspares
    exact ⟨by simp only [SenderQueueEntry.retry]; omega, hids⟩
  | failed => exact ⟨(satAdd32_le ..).trans hspares, hids⟩
  | failedTerminally =>
    have hspares : e.attempts + 2 ≤ 64 := hspares
    refine ⟨(fallBack_attempts_le ..).trans ?_, hids⟩
    have := satAdd32_le e.attempts 1
    simp only
    omega

theorem QueueCall.SparesEntry.demote {ttlSecs maxEntries now : ℕ}
    (hspares : (QueueCall.restart ttlSecs maxEntries now).SparesEntry e)
    (hbound : e.violatesBound = false) : e.demote.violatesBound = false := by
  obtain ⟨hadmissible, hattempts, hids⟩ := violatesBound_eq_false.1 hbound
  refine violatesBound_eq_false.2 ⟨hadmissible.demote, ?_⟩
  rcases e.demote_cases with ⟨_, heq⟩ | ⟨hflight, reason, state, heq, _⟩
  · rw [heq]
    exact ⟨hattempts, hids⟩
  · rw [heq]
    obtain ⟨hlt, hshort⟩ := hspares hflight
    refine ⟨(satAdd32_le _ _).trans hlt, ?_⟩
    rw [length_append, length_singleton]
    exact hshort

/-- A call that spares the entries keeps them within the bounds of the loader. -/
theorem Effect.bounded (h : Effect q call ns es') (hq : ∀ e ∈ q.entries, e.violatesBound = false)
    (hspares : Spares q call) : ∀ e ∈ es', e.violatesBound = false := by
  refine h.forall_mem (P := fun e => e.violatesBound = false ∧ call.SparesEntry e)
    (fun e he => ⟨hq e he, hspares e he⟩) (fun _ he => he.1) (fun _ hbound _ => hbound) ?_ ?_
  · intro index e e' _ ht he
    obtain ⟨hadmissible, _, hids⟩ := violatesBound_eq_false.1 he.1
    exact violatesBound_eq_false.2 ⟨ht.admissible hadmissible, ht.spared hids he.2⟩
  · rintro ttlSecs maxEntries now rfl _ _ e _ _ he
    exact he.2.demote he.1

/-! ### Reloading -/

/-- The queues that a session starts with: an empty one, or what an artifact of any origin gives
when it is accepted, provided that the demotion of its entries stays within the limits. -/
inductive Opened : SenderQueue → Prop where
  | fresh (ttlSecs maxEntries : ℕ) : Opened (.withLimits ttlSecs maxEntries)
  | accepted {persisted : PersistedQueue} {ttlSecs maxEntries now : ℕ}
      {entries : List SenderQueueEntry} {notices : List QueueNotice} {q : SenderQueue}
      (hload : SenderQueue.load (.parsed persisted) ttlSecs maxEntries now = (q, .loaded entries notices))
      (hspares : ∀ e ∈ persisted.entries, (QueueCall.restart ttlSecs maxEntries now).SparesEntry e) : Opened q

namespace SenderQueue

/-- An accepted artifact is of the schema and within the bounds. -/
theorem of_load_loaded {persisted : PersistedQueue} {ttlSecs maxEntries now : ℕ}
    {entries : List SenderQueueEntry} {notices : List QueueNotice}
    (h : load (.parsed persisted) ttlSecs maxEntries now = (q, .loaded entries notices)) :
    (∀ e ∈ persisted.entries, e.violatesBound = false) ∧
      q.entries = loadEntries now (persisted.entries.map SenderQueueEntry.demote) := by
  simp only [load, block] at h
  split_ifs at h with hschema hbounds
  · simp at h
  · simp at h
  · refine ⟨by simpa using hbounds, ?_⟩
    rw [← (Prod.mk.inj h).1]

theorem bounded_of_opened (h : Opened q) : ∀ e ∈ q.entries, e.violatesBound = false := by
  cases h with
  | fresh => simp [withLimits]
  | accepted hload hspares =>
    obtain ⟨hbounds, hentries⟩ := of_load_loaded hload
    intro x hx
    rw [hentries] at hx
    obtain ⟨e, he, rfl⟩ := mem_map.1 (filter_sublist.subset hx)
    exact (hspares e he).demote (hbounds e he)

/-- Whatever a run persists is accepted by the next load, when every call of the run spares the
entries that it finds. -/
theorem load_persisted_run (q : SenderQueue) (hopened : Opened q) (calls : List QueueCall)
    (hspares : EveryStep Spares q calls) (persisted : PersistedQueue)
    (hpersist : (q.run calls).persist = .ok persisted) (ttlSecs maxEntries now : ℕ) :
    ∃ entries notices, (load (.parsed persisted) ttlSecs maxEntries now).2 = .loaded entries notices := by
  have hbounds : ∀ e ∈ (q.run calls).entries, e.violatesBound = false :=
    EveryStep.run (I := fun q => ∀ e ∈ q.entries, e.violatesBound = false)
      (fun q call hq hcall => (q.effect_step call).bounded hq hcall)
      (bounded_of_opened hopened) hspares
  obtain rfl : persisted = (q.run calls).written := by
    unfold persist at hpersist
    split_ifs at hpersist
    exact (Except.ok.inj hpersist).symm
  rw [load_persisted _ rfl hbounds]
  exact ⟨_, _, rfl⟩

/-- Identifiers of 36 letters, distinct for distinct numbers up to 36. -/
def sampleUuid (n : ℕ) : Uuid where
  text := replicate (min n 36) 'b' ++ replicate (36 - n) 'a'
  byteLen_text := by
    have ha : Char.utf8Size 'a' = 1 := by decide
    have hb : Char.utf8Size 'b' = 1 := by decide
    rw [byteLen_append, byteLen_replicate, byteLen_replicate, ha, hb]
    omega

/-- One handoff is armed for eight messages in turn, each capture being stopped by policy, and the
process restarts. -/
def rearmedCalls : List QueueCall := [.enqueue (sampleUuid 0) "worker" "peer" 0] ++
    (["m1", "m2", "m3", "m4", "m5", "m6", "m7"].flatMap fun id =>
      [.markArmed (some id.toList) none 0, .capturePolicyDenied 0]) ++
    [.markArmed (some "m8") none 0, .restart 1800 8 0]

/-- The restart adds a ninth message id, which the next load refuses. -/
theorem rearmedQueue_blocked :
    let q := (withLimits 1800 8).run rearmedCalls
    q.persist = .ok q.written ∧
      (load (.parsed q.written) 1800 8 0).2 = .blocked (.unreadable "entry bound violation") := by
  decide

/-- A restart between the fifth and the sixth message. -/
def restartedCalls : List QueueCall := rearmedCalls.take 9 ++
  [.markArmed (some "m5") none 0, .restart 1800 8 0, .markArmed (some "m6") none 0]

theorem load_persisted_run_rearmed :
    ∃ entries notices, (load (.parsed ((withLimits 1800 8).run restartedCalls).written) 1800 8 0).2 =
      .loaded entries notices :=
  load_persisted_run _ (.fresh 1800 8) restartedCalls (by decide) _ (by decide) 1800 8 0

end SenderQueue

end Occ3
