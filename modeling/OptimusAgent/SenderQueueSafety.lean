/-
**Late callbacks and lost handoffs.**

Publications, admissions and deliveries are reported by callbacks that may arrive late.  Two things
are asked of the queue: a callback changes only the handoff that it is about, and only while that
handoff is in flight; and an uncertain handoff is settled by hand only.  Beyond that, no handoff may
leave the queue without a notice.
-/

import OptimusAgent.SenderQueueTokens

namespace Occ3

open Str List

variable {q : SenderQueue} {call : QueueCall} {index : ℕ} {e e' : SenderQueueEntry}

/-! ### Blocked queues -/

namespace SenderQueue

theorem markFallback_blocked (queueId : Option Str) (reason : Str) (token : Uuid) (now : ℕ) :
    (q.markFallback queueId reason token now).2.blocked = q.blocked := by
  rcases q.markFallback_cases queueId reason token now with h | ⟨_, _, _, _, _, _, _, _, h⟩ <;> rw [h]
  rfl

/-- Only a restart blocks or unblocks a queue. -/
theorem step_blocked (hcall : ∀ ttlSecs maxEntries now, call ≠ .restart ttlSecs maxEntries now) :
    (q.step call).2.blocked = q.blocked := by
  cases call with
  | enqueue => simp only [step, enqueue]; split_ifs <;> rfl
  | markArmed => simp only [step, markArmed]; repeat' split <;> try rfl
  | markProgressed => simp only [step, markProgressed]; repeat' split <;> try rfl
  | recordDeliveryEvent => simp only [step, recordDeliveryEvent]; repeat' split <;> try rfl
  | recordReceiverBusy =>
    simp only [step, recordReceiverBusy]
    split
    · rfl
    · split_ifs
      · exact markFallback_blocked ..
      · rfl
  | recordSourceBusy =>
    simp only [step, recordSourceBusy]
    split
    · rfl
    · split_ifs
      · rfl
      · exact markFallback_blocked ..
      · rfl
  | markFallback => exact markFallback_blocked ..
  | resolveUncertain => simp only [step, resolveUncertain]; repeat' split <;> try rfl
  | acknowledgeFallback => simp only [step, acknowledgeFallback]; split <;> rfl
  | retireAllSilently | sweepExpired => rfl
  | popTerminalHead => simp only [step, popTerminalHead]; repeat' split <;> try rfl
  | capturePolicyDenied => simp only [step, capturePolicyDenied]; repeat' split <;> try rfl
  | captureFailed =>
    simp only [step, captureFailed]
    split
    · rfl
    · split_ifs
      · rfl
      · exact markFallback_blocked ..
      · rfl
  | outboxRecord => simp only [step, outboxRecord]; split_ifs <;> rfl
  | outboxAck => simp only [step, outboxAck]; repeat' split <;> try rfl
  | restart => exact absurd rfl (hcall _ _ _)

end SenderQueue

variable {es' : List SenderQueueEntry}

theorem Effect.nil_of_blocked {ns : List QueueNotice}
    (h : Effect q call ns es') (hblocked : q.blocked ≠ none) (hnil : q.entries = []) : es' = [] := by
  cases h with
  | kept => exact hnil
  | appended _ hopen | reloaded hopen => exact absurd hopen hblocked
  | touched hget | removed hget => simp [hnil] at hget
  | swept => simp [hnil]
  | retired | shut => rfl
  | popped hhead => simp [hnil] at hhead

namespace SenderQueue

theorem nil_of_blocked_step (hq : q.blocked ≠ none → q.entries = [])
    (hblocked : (q.step call).2.blocked ≠ none) : (q.step call).2.entries = [] := by
  cases call with
  | restart ttlSecs maxEntries now =>
    rw [step] at hblocked ⊢
    by_cases hopen : q.blocked = none
    · by_cases hbounds : ∀ e ∈ q.entries, e.violatesBound = false
      · rw [restart_accepted hopen hbounds] at hblocked
        exact absurd rfl hblocked
      · obtain ⟨e, he, hviolates⟩ : ∃ e ∈ q.entries, e.violatesBound = true := by simpa using hbounds
        rw [restart_refused hopen he hviolates]
        rfl
    · rw [restart_blocked hopen]
      rfl
  | _ =>
    rw [step_blocked (by simp)] at hblocked
    exact (q.effect_step _).nil_of_blocked hblocked (hq hblocked)

/-- A blocked queue is empty. -/
theorem entries_nil_of_blocked (ttlSecs maxEntries : ℕ) (calls : List QueueCall) :
    let q := (withLimits ttlSecs maxEntries).run calls
    q.blocked ≠ none → q.entries = [] :=
  EveryStep.run (I := fun q => q.blocked ≠ none → q.entries = [])
    (fun _ _ hq _ => nil_of_blocked_step hq) (fun _ => rfl) (everyStep_true _ calls)

end SenderQueue

/-- What is known of a reachable queue. -/
structure Orderly (q : SenderQueue) : Prop where
  distinct : (queueIds q.entries).Nodup
  disciplined : Disciplined q.entries
  admissible : ∀ e ∈ q.entries, Admissible e
  nil_of_blocked : q.blocked ≠ none → q.entries = []

theorem SenderQueue.orderly_run (ttlSecs maxEntries : ℕ) {calls : List QueueCall}
    (hfresh : (arrivals calls).Nodup) : Orderly ((withLimits ttlSecs maxEntries).run calls) where
  distinct := distinct_run ttlSecs maxEntries hfresh
  disciplined := disciplined_run_of disciplined_nil calls
  admissible := admissible_run ttlSecs maxEntries calls
  nil_of_blocked := entries_nil_of_blocked ttlSecs maxEntries calls

/-- An entry beyond the two bounds that the operations do not keep. -/
def Overgrown (e : SenderQueueEntry) : Prop := 64 < e.attempts ∨ 8 < e.messageIds.length

instance : DecidablePred Overgrown := fun e =>
  inferInstanceAs (Decidable (64 < e.attempts ∨ 8 < e.messageIds.length))

theorem violatesBound_of_overgrown (h : Overgrown e) : e.violatesBound = true := by
  by_contra hbound
  obtain ⟨_, hattempts, hids⟩ := violatesBound_eq_false.1 (by simpa using hbound)
  rcases h with h | h <;> omega

theorem Admissible.overgrown (h : Admissible e) (hviolates : e.violatesBound = true) : Overgrown e := by
  by_contra hnot
  have hbound : e.violatesBound = false := violatesBound_eq_false.2 ⟨h, by simpa [Overgrown, not_or] using hnot⟩
  rw [hbound] at hviolates
  cases hviolates

/-- A restart with an overgrown entry empties the queue without a notice. -/
theorem Orderly.restart_overgrown (hq : Orderly q) (he : e ∈ q.entries) (hover : Overgrown e)
    (ttlSecs maxEntries now : ℕ) :
    (q.step (.restart ttlSecs maxEntries now)).1 = [] ∧ (q.step (.restart ttlSecs maxEntries now)).2.entries = [] := by
  have hopen : q.blocked = none := by
    by_contra hblocked
    rw [hq.nil_of_blocked hblocked] at he
    cases he
  rw [SenderQueue.step, SenderQueue.restart_refused hopen he (violatesBound_of_overgrown hover)]
  exact ⟨rfl, rfl⟩

/-- A restart that shuts a queue with entries finds an overgrown one. -/
theorem Orderly.exists_overgrown (hq : Orderly q) (he : e ∈ q.entries)
    (h : q.blocked ≠ none ∨ ∃ e ∈ q.entries, e.violatesBound = true) :
    ∃ e ∈ q.entries, Overgrown e := by
  rcases h with hblocked | ⟨x, hx, hviolates⟩
  · rw [hq.nil_of_blocked hblocked] at he
    cases he
  · exact ⟨x, hx, (hq.admissible x hx).overgrown hviolates⟩

/-! ### Late callbacks -/

/-- What is asked of a call with regard to callbacks. -/
structure RespectsCallbacks (q : SenderQueue) (call : QueueCall) : Prop where
  /-- A publication or an admission changes an entry only while its capture is in flight and for the
  same message. -/
  progress : ∀ state id now, call = .markProgressed state id now →
    ∀ (index : ℕ) (e : SenderQueueEntry), q.entries[index]? = some e → (q.step call).2.entries[index]? ≠ some e →
      (e.state = .armed ∨ e.state = .published) ∧ (e.messageId = none ∨ e.messageId = some id)
  /-- An uncertain entry stays uncertain until it is resolved by hand. -/
  uncertain : ∀ e ∈ q.entries, e.state = .uncertain →
    (∃ reemit token now, call = .resolveUncertain e.queueId reemit token now) ∨ call = .retireAllSilently ∨
      ∃ e' ∈ (q.step call).2.entries, e'.queueId = e.queueId ∧ e'.state = .uncertain

/-- The calls that do not respect callbacks: progress of a head that is not in flight or is in
flight for another message, a fallback of an uncertain entry, and a restart that loses one. -/
def LateCallback (q : SenderQueue) : QueueCall → Prop
  | .markProgressed state id _ =>
    (state = .published ∨ state = .admitted) ∧ ∃ head ∈ q.entries.head?,
      head.state ∈ [.pending, .fallbackPending, .uncertain] ∨
        head.state ∈ [.armed, .published] ∧ head.messageId ∉ [none, some id]
  | .markFallback none _ _ _ => ∃ head ∈ q.entries.head?, head.state = .uncertain
  | .markFallback (some id) _ _ _ => ∃ e ∈ q.entries, e.queueId = id ∧ e.state = .uncertain
  | .restart .. => (∃ e ∈ q.entries, e.state = .uncertain) ∧ ∃ e ∈ q.entries, Overgrown e
  | _ => False

instance (q : SenderQueue) : (call : QueueCall) → Decidable (LateCallback q call)
  | .markProgressed state id _ => inferInstanceAs (Decidable
      ((state = .published ∨ state = .admitted) ∧ ∃ head ∈ q.entries.head?,
        head.state ∈ [.pending, .fallbackPending, .uncertain] ∨
          head.state ∈ [.armed, .published] ∧ head.messageId ∉ [none, some id]))
  | .markFallback none _ _ _ => inferInstanceAs (Decidable (∃ head ∈ q.entries.head?, head.state = .uncertain))
  | .markFallback (some id) _ _ _ =>
    inferInstanceAs (Decidable (∃ e ∈ q.entries, e.queueId = id ∧ e.state = .uncertain))
  | .restart .. => inferInstanceAs
      (Decidable ((∃ e ∈ q.entries, e.state = .uncertain) ∧ ∃ e ∈ q.entries, Overgrown e))
  | .enqueue .. | .markArmed .. | .recordDeliveryEvent .. | .recordReceiverBusy .. |
    .recordSourceBusy .. | .resolveUncertain .. | .acknowledgeFallback .. | .retireAllSilently |
    .popTerminalHead | .capturePolicyDenied .. | .captureFailed .. | .sweepExpired .. |
    .outboxRecord .. | .outboxAck .. => .isFalse id

theorem SenderQueue.markProgressed_cases (state : SenderQueueState) (id : Str) (now : ℕ) :
    (q.step (.markProgressed state id now)).2 = q ∧ (∀ head ∈ q.entries.head?, head.state.isTerminal = true ∨
          ¬ (state = .published ∨ state = .admitted) ∨ head.state = .admitted) ∨
      ∃ head, q.entries.head? = some head ∧ head.state.isTerminal = false ∧
        (state = .published ∨ state = .admitted) ∧ head.state ≠ .admitted ∧
        (q.step (.markProgressed state id now)).2 = q.setEntry 0 (head.progress state id) := by
  simp only [step, markProgressed]
  cases hhead : q.entries.head? with
  | none => exact .inl ⟨rfl, by simp⟩
  | some head =>
    simp only
    split_ifs with hterminal hstate hadmitted
    · exact .inl ⟨rfl, by simp [hterminal]⟩
    · exact .inl ⟨rfl, by simp [hadmitted]⟩
    · exact .inr ⟨head, rfl, by simpa using hterminal, hstate, hadmitted, rfl⟩
    · exact .inl ⟨rfl, by simp [hstate]⟩

variable {now : ℕ} {state : SenderQueueState}

/-- Progress that is not late changes only a capture in flight for the same message. -/
theorem progress_of_not_late {id : Str}
    (hlate : ¬ LateCallback q (.markProgressed state id now)) (hget : q.entries[index]? = some e)
    (hchanged : (q.step (.markProgressed state id now)).2.entries[index]? ≠ some e) :
    (e.state = .armed ∨ e.state = .published) ∧ (e.messageId = none ∨ e.messageId = some id) := by
  rcases q.markProgressed_cases state id now with
    ⟨hsame, _⟩ | ⟨head, hhead, hopen, hstate, hadmitted, heq⟩
  · rw [hsame] at hchanged
    exact absurd hget hchanged
  · obtain rfl : index = 0 := by
      by_contra hne
      rw [heq, SenderQueue.setEntry, getElem?_set_ne (Ne.symm hne)] at hchanged
      exact hchanged hget
    obtain rfl : head = e := by
      rw [SenderQueue.head?_eq hhead] at hget
      exact Option.some.inj hget
    have hwaits : head.state ∉ [.pending, .fallbackPending, .uncertain] := fun h =>
      hlate ⟨hstate, head, hhead, .inl h⟩
    have hflight : head.state = .armed ∨ head.state = .published := by
      cases hs : head.state <;> simp_all [SenderQueueState.isTerminal]
    refine ⟨hflight, ?_⟩
    by_contra hother
    exact hlate ⟨hstate, head, hhead, .inr ⟨by simpa using hflight, by simpa using hother⟩⟩

/-- The target of a fallback that is not late is not uncertain. -/
theorem not_uncertain_of_fallbackTarget {queueId : Option Str} {reason : Str} {token : Uuid}
    (hlate : ¬ LateCallback q (.markFallback queueId reason token now))
    (h : q.fallbackTarget queueId = some (index, e)) : e.state ≠ .uncertain := by
  intro hstate
  have hget := SenderQueue.getElem?_of_fallbackTarget h
  cases queueId with
  | none =>
    refine hlate ⟨e, ?_, hstate⟩
    simp only [SenderQueue.fallbackTarget] at h
    split at h
    · cases h
    · next head hhead =>
        split_ifs at h
        cases h
        exact hhead
  | some id =>
    have htest := (SenderQueue.position_eq_some h).2
    simp only [Bool.and_eq_true, decide_eq_true_eq] at htest
    exact hlate ⟨e, mem_of_getElem? hget, htest.1, hstate⟩

/-- A change of an uncertain entry is a resolution of it, or late. -/
theorem Touched.resolves (h : Touched q call index e e') (hq : Orderly q)
    (hget : q.entries[index]? = some e) (hlate : ¬ LateCallback q call)
    (hstate : e.state = .uncertain) :
    ∃ reemit token now, call = .resolveUncertain e.queueId reemit token now := by
  cases h with
  | reemit => exact ⟨_, _, _, rfl⟩
  | fallBack htarget => exact absurd hstate (not_uncertain_of_fallbackTarget hlate htarget)
  | progress hprogress =>
    refine absurd ⟨hprogress, e, ?_, .inl (by simp [hstate])⟩ hlate
    rwa [head?_eq_getElem?]
  | receiverExhausted hbusy hflight hid =>
    rw [← eq_of_queueId_eq hq.distinct (mem_of_getElem? hget) hbusy hid, hstate] at hflight
    cases hflight
  | doubt hflight | unconsumed hflight | receiverBusy hflight =>
    rw [hstate] at hflight
    cases hflight
  | arm h | sourceExhausted h | sourceBusy h | denied h | failed h | failedTerminally h =>
    rw [hstate] at h
    cases h

theorem Leaves.resolves {n : QueueNotice} (h : Leaves call e n) (hstate : e.state = .uncertain) :
    ∃ reemit token now, call = .resolveUncertain e.queueId reemit token now := by
  cases h with
  | cancelled => exact ⟨_, _, _, rfl⟩
  | completed hflight =>
    rw [hstate] at hflight
    cases hflight
  | acknowledged hfallback =>
    rw [hstate] at hfallback
    cases hfallback

theorem not_droppable_of_uncertain (hstate : e.state = .uncertain) (now : ℕ) : e.droppable now = false := by
  simp [SenderQueueEntry.droppable, SenderQueueEntry.expired, hstate, SenderQueueState.isUncertain]

/-- An entry other than the removed one stays. -/
theorem mem_eraseIdx_of_ne {es : List SenderQueueEntry} {i : ℕ} (hget : es[i]? = some e)
    (hne : i ≠ index) : e ∈ es.eraseIdx index :=
  mem_eraseIdx_iff_getElem?.2 ⟨i, hne, hget⟩

theorem mem_set_of_ne {es : List SenderQueueEntry} {i : ℕ} (hget : es[i]? = some e)
    (hne : i ≠ index) : e ∈ es.set index e' :=
  mem_of_getElem? (i := i) (by rwa [getElem?_set_ne hne.symm])

/-- A call that is not late leaves an uncertain entry uncertain, or resolves it. -/
theorem Effect.uncertain_of_not_late {ns : List QueueNotice}
    (h : Effect q call ns es') (hq : Orderly q) (hlate : ¬ LateCallback q call)
    (he : e ∈ q.entries) (hstate : e.state = .uncertain) :
    (∃ reemit token now, call = .resolveUncertain e.queueId reemit token now) ∨
      call = .retireAllSilently ∨ ∃ e' ∈ es', e'.queueId = e.queueId ∧ e'.state = .uncertain := by
  have hstays : e ∈ es' → (∃ reemit token now, call = .resolveUncertain e.queueId reemit token now) ∨
      call = .retireAllSilently ∨ ∃ e' ∈ es', e'.queueId = e.queueId ∧ e'.state = .uncertain :=
    fun hmem => .inr (.inr ⟨e, hmem, rfl, hstate⟩)
  obtain ⟨i, hi⟩ := mem_iff_getElem?.1 he
  cases h with
  | kept => exact hstays he
  | appended => exact hstays (mem_append_left _ he)
  | @touched _ index x _ _ hget ht =>
    by_cases hindex : i = index
    · subst hindex
      obtain rfl : x = e := Option.some.inj (hget.symm.trans hi)
      exact .inl (ht.resolves hq hget hlate hstate)
    · exact hstays (mem_set_of_ne hi hindex)
  | @removed _ index x _ hget hleaves =>
    by_cases hindex : i = index
    · subst hindex
      obtain rfl : x = e := Option.some.inj (hget.symm.trans hi)
      exact .inl (hleaves.resolves hstate)
    · exact hstays (mem_eraseIdx_of_ne hi hindex)
  | swept => exact hstays (mem_filter.2 ⟨he, by simp [not_droppable_of_uncertain hstate]⟩)
  | retired => exact .inr (.inl rfl)
  | popped hhead hterminal =>
    have hmem := mem_of_getElem? (SenderQueue.head?_eq hhead)
    rw [hq.disciplined.unsettled _ hmem] at hterminal
    cases hterminal
  | reloaded =>
    have hdemote : e.demote = e := by simp [SenderQueueEntry.demote, hstate, SenderQueueState.isInFlight]
    refine hstays (mem_filter.2 ⟨?_, by simp [not_droppable_of_uncertain hstate]⟩)
    exact mem_map.2 ⟨e, he, hdemote⟩
  | shut hshut => exact absurd ⟨⟨e, he, hstate⟩, hq.exists_overgrown he hshut⟩ hlate

/-- Late progress changes the head against the rule. -/
theorem not_respects_of_late_progress {id : Str}
    (hlate : LateCallback q (.markProgressed state id now)) :
    ¬ RespectsCallbacks q (.markProgressed state id now) := by
  intro hrespects
  obtain ⟨hstate, head, hhead, hcase⟩ := hlate
  have hget := SenderQueue.head?_eq hhead
  rcases q.markProgressed_cases state id now with ⟨_, hrefused⟩ | ⟨head', hhead', _, _, _, heq⟩
  · rcases hrefused head hhead with h | h | h
    · cases hs : head.state <;> simp_all [SenderQueueState.isTerminal]
    · exact h hstate
    · simp [h] at hcase
  · obtain rfl : head' = head := Option.some.inj (hhead'.symm.trans hhead)
    have hafter : (q.step (.markProgressed state id now)).2.entries[0]? = some (head'.progress state id) := by
      rw [heq, SenderQueue.getElem?_setEntry hget]
    have hchanged : head'.progress state id ≠ head' := by
      intro hsame
      have hsameState : state = head'.state := congrArg SenderQueueEntry.state hsame
      have hsameId : some id = head'.messageId := congrArg SenderQueueEntry.messageId hsame
      rcases hcase with hwaits | ⟨_, hother⟩
      · rw [← hsameState] at hwaits
        rcases hstate with rfl | rfl <;> simp at hwaits
      · simp [← hsameId] at hother
    obtain ⟨hflight, hid⟩ := hrespects.progress state id now rfl 0 head' hget (by
      rw [hafter]
      exact fun h => hchanged (Option.some.inj h))
    rcases hcase with hwaits | ⟨_, hother⟩
    · rcases hflight with h | h <;> simp [h] at hwaits
    · rcases hid with h | h <;> simp [h] at hother

/-- A fallback takes its target out of the uncertain state. -/
theorem not_respects_of_fallbackTarget {queueId : Option Str} {reason : Str} {token : Uuid}
    (hq : Orderly q) (htarget : q.fallbackTarget queueId = some (index, e))
    (hstate : e.state = .uncertain) :
    ¬ RespectsCallbacks q (.markFallback queueId reason token now) := by
  intro hrespects
  have hget := SenderQueue.getElem?_of_fallbackTarget htarget
  obtain ⟨_, _, _, h⟩ | h | ⟨e', he', hid, huncertain⟩ := hrespects.uncertain e (mem_of_getElem? hget) hstate
  · cases h
  · cases h
  · obtain ⟨x, hx, hfell, hafter⟩ : ∃ x : SenderQueueEntry, x.queueId = e.queueId ∧ x.state = .fallbackPending ∧
        (q.step (.markFallback queueId reason token now)).2 = q.setEntry index x := by
      simp only [SenderQueue.step, SenderQueue.markFallback, htarget]
      exact ⟨e.fallBack _ _ token, rfl, rfl, rfl⟩
    rw [hafter] at he'
    -- the ids stay distinct, so the entry with this id is the one that fell back
    have hdistinct : (queueIds (q.setEntry index x).entries).Nodup := by
      rw [SenderQueue.setEntry, queueIds_set hget hx]
      exact hq.distinct
    have hmem : x ∈ (q.setEntry index x).entries := mem_of_getElem? (SenderQueue.getElem?_setEntry hget)
    rw [eq_of_queueId_eq hdistinct he' hmem (hid.trans hx.symm), hfell] at huncertain
    cases huncertain

/-- Every late call fails to respect callbacks. -/
theorem not_respects_of_late (hq : Orderly q) (hlate : LateCallback q call) : ¬ RespectsCallbacks q call := by
  match call, hlate with
  | .markProgressed .., hlate => exact not_respects_of_late_progress hlate
  | .markFallback none .., ⟨head, hhead, hstate⟩ =>
    refine not_respects_of_fallbackTarget hq (?_ : _ = some (0, head)) hstate
    simp [SenderQueue.fallbackTarget, Option.mem_def.1 hhead, hstate, SenderQueueState.isInFlight]
  | .markFallback (some id) .., ⟨e, he, hid, hstate⟩ =>
    obtain ⟨index, hget⟩ := mem_iff_getElem?.1 he
    refine not_respects_of_fallbackTarget hq (?_ : _ = some (index, e)) hstate
    refine SenderQueue.position_of_distinct hq.distinct hget
      (by simp [hid, hstate, SenderQueueState.isTerminal]) fun x hx => ?_
    simp only [Bool.and_eq_true, decide_eq_true_eq] at hx
    rw [hx.1, hid]
  | .restart ttlSecs maxEntries now, ⟨⟨e, he, hstate⟩, x, hx, hover⟩ =>
    intro hrespects
    have hnil := (hq.restart_overgrown hx hover ttlSecs maxEntries now).2
    obtain ⟨_, _, _, h⟩ | h | ⟨e', he', _⟩ := hrespects.uncertain e he hstate
    · cases h
    · cases h
    · rw [hnil] at he'
      cases he'

namespace SenderQueue

/-- In every reachable queue, a call respects callbacks exactly when it is not late. -/
theorem respectsCallbacks_iff (ttlSecs maxEntries : ℕ) (calls : List QueueCall)
    (hfresh : (arrivals calls).Nodup) (call : QueueCall) :
    let q := (withLimits ttlSecs maxEntries).run calls
    RespectsCallbacks q call ↔ ¬ LateCallback q call := by
  intro q
  have hq : Orderly q := orderly_run ttlSecs maxEntries hfresh
  refine ⟨fun hrespects hlate => not_respects_of_late hq hlate hrespects, fun hlate => ⟨?_, ?_⟩⟩
  · rintro state id now rfl index e hget hchanged
    exact progress_of_not_late hlate hget hchanged
  · intro e he hstate
    exact (q.effect_step call).uncertain_of_not_late hq hlate he hstate

/-- A handoff that is armed for the message `m1`. -/
def armedCalls : List QueueCall := [.enqueue (sampleUuid 0) "worker" "peer" 0, .markArmed (some "m1") none 0]

/-- Its capture has failed for good. -/
def fellCalls : List QueueCall := armedCalls ++ [.captureFailed true "timeout" (sampleUuid 1) 0]

/-- Its consumption is reported without a receipt. -/
def doubtedCalls : List QueueCall := armedCalls ++ [.recordDeliveryEvent "m1" true none (sampleUuid 1) 0]

/-- A late admission revives a handoff that fell back, and a fallback without an id takes an
uncertain one. -/
theorem lateCallbacks_applied :
    let fell := (withLimits 1800 8).run fellCalls
    let doubted := (withLimits 1800 8).run doubtedCalls
    (fell.entries.map SenderQueueEntry.state = [.fallbackPending] ∧
        (fell.step (.markProgressed .admitted "m2" 0)).2.entries.map SenderQueueEntry.state = [.admitted] ∧
        ¬ RespectsCallbacks fell (.markProgressed .admitted "m2" 0)) ∧
      doubted.entries.map SenderQueueEntry.state = [.uncertain] ∧
        (doubted.step (.markFallback none "stop" (sampleUuid 2) 0)).2.entries.map
          SenderQueueEntry.state = [.fallbackPending] ∧
        ¬ RespectsCallbacks doubted (.markFallback none "stop" (sampleUuid 2) 0) :=
  ⟨⟨by decide, by decide, not_respects_of_late (orderly_run 1800 8 (by decide)) (by decide)⟩,
    by decide, by decide,
    not_respects_of_late (orderly_run 1800 8 (by decide)) (by decide)⟩

theorem respectsCallbacks_armed : RespectsCallbacks ((withLimits 1800 8).run armedCalls)
      (.markProgressed .admitted "m1" 0) :=
  (respectsCallbacks_iff 1800 8 armedCalls (by decide) _).2 (by decide)

end SenderQueue

/-! ### Lost handoffs -/

/-- What is asked of a call with regard to notices. -/
structure ReportsLosses (q : SenderQueue) (call : QueueCall) : Prop where
  /-- An id leaves with a terminal notice, unless the whole queue is retired. -/
  leaves : ∀ id ∈ queueIds q.entries, id ∉ queueIds (q.step call).2.entries →
    call = .retireAllSilently ∨ ∃ n ∈ (q.step call).1,
      n.queueId = id ∧ n.state ∈ [.completed, .fallback, .failed, .expired]
  /-- No terminal notice is about an id that stays. -/
  stays : ∀ n ∈ (q.step call).1, n.state ∈ [.completed, .fallback, .failed, .expired] →
    n.queueId ∉ queueIds (q.step call).2.entries
  /-- A blocked or full queue refuses what arrives. -/
  refuses : ∀ uuid role name now, call = .enqueue uuid role name now →
    q.blocked ≠ none ∨ q.maxEntries ≤ q.entries.length → q.step call = ([], q)

/-- A restart that finds an overgrown entry. -/
def RefusesOwnArtifact (q : SenderQueue) : QueueCall → Prop
  | .restart .. => ∃ e ∈ q.entries, Overgrown e
  | _ => False

instance (q : SenderQueue) : (call : QueueCall) → Decidable (RefusesOwnArtifact q call)
  | .restart .. => inferInstanceAs (Decidable (∃ e ∈ q.entries, Overgrown e))
  | .enqueue .. | .markArmed .. | .markProgressed .. | .recordDeliveryEvent .. |
    .recordReceiverBusy .. | .recordSourceBusy .. | .markFallback .. | .resolveUncertain .. |
    .acknowledgeFallback .. | .retireAllSilently | .popTerminalHead | .capturePolicyDenied .. |
    .captureFailed .. | .sweepExpired .. | .outboxRecord .. | .outboxAck .. => .isFalse id

variable {es : List SenderQueueEntry} {n : QueueNotice} {ns : List QueueNotice}

theorem mem_queueIds {id : Str} : id ∈ queueIds es ↔ ∃ e ∈ es, e.queueId = id := mem_map

theorem terminal_iff : state ∈ [.completed, .fallback, .failed, .expired] ↔ state.isTerminal = true := by
  cases state <;> decide

theorem Leaves.notice (h : Leaves call e n) : n.queueId = e.queueId ∧ n.state.isTerminal = true := by
  cases h with
  | completed _ hid hstate | cancelled _ hid hstate | acknowledged _ hid hstate => exact ⟨hid, by rw [hstate]; rfl⟩

/-- An id that a sweep takes out is reported. -/
theorem ReportsExpiry.leaves (h : ReportsExpiry now es ns) {id : Str} (hid : id ∈ queueIds es)
    (hleft : id ∉ queueIds (es.filter fun e => !e.droppable now)) :
    ∃ n ∈ ns, n.queueId = id ∧ n.state.isTerminal = true := by
  obtain ⟨e, he, rfl⟩ := mem_queueIds.1 hid
  have hdrop : e.droppable now = true := by
    by_contra hstays
    exact hleft (mem_queueIds.2 ⟨e, mem_filter.2 ⟨he, by simpa using hstays⟩, rfl⟩)
  obtain ⟨n, hn, hnid, hstate⟩ := h.covers e he hdrop
  exact ⟨n, hn, hnid, by rw [hstate]; rfl⟩

/-- An id that a sweep reports does not stay. -/
theorem ReportsExpiry.stays (h : ReportsExpiry now es ns) (hdistinct : (queueIds es).Nodup)
    (hn : n ∈ ns) : n.queueId ∉ queueIds (es.filter fun e => !e.droppable now) := by
  intro hmem
  obtain ⟨x, hx, hid⟩ := mem_queueIds.1 hmem
  obtain ⟨hx, hstays⟩ := mem_filter.1 hx
  obtain ⟨_, e, he, hdrop, hne⟩ := h.only n hn
  rw [eq_of_queueId_eq hdistinct hx he (hid.trans hne), hdrop] at hstays
  cases hstays

/-- Where the artifact is not refused, an id leaves with a terminal notice. -/
theorem Effect.leaves
    (h : Effect q call ns es') (hq : Orderly q) (hown : ¬ RefusesOwnArtifact q call) {id : Str}
    (hid : id ∈ queueIds q.entries) (hleft : id ∉ queueIds es') :
    call = .retireAllSilently ∨ ∃ n ∈ ns, n.queueId = id ∧ n.state.isTerminal = true := by
  obtain ⟨e, he, rfl⟩ := mem_queueIds.1 hid
  cases h with
  | kept => exact absurd hid hleft
  | appended => exact absurd (mem_queueIds.2 ⟨e, mem_append_left _ he, rfl⟩) hleft
  | touched hget ht =>
    rw [queueIds_set hget ht.queueId_eq] at hleft
    exact absurd hid hleft
  | @removed _ index x n hget hleaves =>
    obtain ⟨i, hi⟩ := mem_iff_getElem?.1 he
    by_cases hindex : i = index
    · subst hindex
      obtain rfl : x = e := Option.some.inj (hget.symm.trans hi)
      exact .inr ⟨n, mem_singleton_self n, hleaves.notice⟩
    · exact absurd (mem_queueIds.2 ⟨e, mem_eraseIdx_of_ne hi hindex, rfl⟩) hleft
  | swept hreports => exact .inr (hreports.leaves hid hleft)
  | retired => exact .inl rfl
  | popped hhead hterminal =>
    have hmem := mem_of_getElem? (SenderQueue.head?_eq hhead)
    rw [hq.disciplined.unsettled _ hmem] at hterminal
    cases hterminal
  | reloaded _ _ hreports =>
    rw [← queueIds_map_demote] at hid
    exact .inr (hreports.leaves hid hleft)
  | shut hshut => exact absurd (hq.exists_overgrown he hshut) hown

/-- No terminal notice is about an id that stays. -/
theorem Effect.stays (h : Effect q call ns es') (hdistinct : (queueIds q.entries).Nodup)
    (hn : n ∈ ns) (hterminal : n.state.isTerminal = true) : n.queueId ∉ queueIds es' := by
  have hloud : ¬ n.state.isTerminal = false := by simp [hterminal]
  cases h with
  | kept | retired | popped | shut => cases hn
  | appended _ _ _ _ _ hquiet | touched _ _ hquiet => exact absurd (hquiet n hn) hloud
  | @removed _ index e _ hget hleaves =>
    obtain rfl := mem_singleton.1 hn
    intro hmem
    obtain ⟨x, hx, hid⟩ := mem_queueIds.1 hmem
    obtain ⟨i, hne, hi⟩ := mem_eraseIdx_iff_getElem?.1 hx
    exact hne (index_eq_of_queueId_eq hdistinct hi hget (hid.trans hleaves.notice.1))
  | swept hreports => exact hreports.stays hdistinct hn
  | reloaded _ _ hreports => exact hreports.stays (by rwa [queueIds_map_demote]) hn

namespace SenderQueue

/-- In every reachable queue, a call reports what it loses exactly when it is not a restart that
finds an overgrown entry. -/
theorem reportsLosses_iff (ttlSecs maxEntries : ℕ) (calls : List QueueCall)
    (hfresh : (arrivals calls).Nodup) (call : QueueCall) :
    let q := (withLimits ttlSecs maxEntries).run calls
    ReportsLosses q call ↔ ¬ RefusesOwnArtifact q call := by
  intro q
  have hq : Orderly q := orderly_run ttlSecs maxEntries hfresh
  constructor
  · intro hreports hown
    cases call with
    | restart ttlSecs maxEntries now =>
      obtain ⟨e, he, hover⟩ := hown
      obtain ⟨hquiet, hnil⟩ := hq.restart_overgrown he hover ttlSecs maxEntries now
      have hid : e.queueId ∈ queueIds q.entries := mem_queueIds.2 ⟨e, he, rfl⟩
      obtain h | ⟨n, hn, _⟩ := hreports.leaves e.queueId hid (by rw [hnil]; exact not_mem_nil)
      · cases h
      · rw [hquiet] at hn
        cases hn
    | _ => exact hown
  · intro hown
    refine ⟨fun id hid hleft => ?_, fun n hn hterminal => ?_, ?_⟩
    · simpa only [terminal_iff] using (q.effect_step call).leaves hq hown hid hleft
    · exact (q.effect_step call).stays hq.distinct hn (terminal_iff.1 hterminal)
    · rintro uuid role name now rfl (hblocked | hfull)
      · simp [step, enqueue, Option.isSome_iff_ne_none.2 hblocked]
      · simp [step, enqueue, hfull]

/-- The rearmed queue after its first restart. -/
theorem rearmedQueue_emptied :
    let q := (withLimits 1800 8).run rearmedCalls
    queueIds q.entries = [(sampleUuid 0).queueId] ∧
      (q.step (.restart 1800 8 0)).1 = [] ∧ (q.step (.restart 1800 8 0)).2.entries = [] := by
  decide

theorem reportsLosses_doubted : ReportsLosses ((withLimits 1800 8).run doubtedCalls) (.restart 1800 8 5000) :=
  (reportsLosses_iff 1800 8 doubtedCalls (by decide) _).2 (by decide)

end SenderQueue

end Occ3
