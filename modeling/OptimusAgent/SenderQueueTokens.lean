/-
**When a fallback can be acknowledged.**

An entry that fell back waits for the acknowledgement of its ordinary message, which must quote the
token that was drawn when the entry fell back.  Four of the five ways into that state draw a token.
The fifth is a restart: an armed capture that has used up its attempts is demoted without one, and
nothing but its time to live takes such an entry out of the queue.
-/

import OptimusAgent.SenderQueueBounds

namespace Occ3

open Str List

variable {q : SenderQueue} {call : QueueCall} {index : ℕ} {e e' : SenderQueueEntry}

/-! ### Runs and their beginnings -/

variable {calls : List QueueCall}

/-- A property that a call keeps exactly under a condition holds throughout a run exactly when every
call meets the condition. -/
theorem everyStep_iff {P : SenderQueue → QueueCall → Prop} {K : SenderQueue → Prop}
    (hstep : ∀ q call, K q → (K (q.step call).2 ↔ P q call)) (hq : K q) :
    (∀ pre, pre <+: calls → K (q.run pre)) ↔ EveryStep P q calls := by
  induction calls generalizing q with
  | nil =>
    refine iff_of_true (fun pre hpre => ?_) trivial
    rw [prefix_nil.1 hpre]
    exact hq
  | cons call calls ih =>
    constructor
    · intro h
      have hnext : K (q.step call).2 := h [call] ⟨calls, rfl⟩
      refine ⟨(hstep q call hq).1 hnext, (ih hnext).1 fun pre hpre => ?_⟩
      exact h (call :: pre) (cons_prefix_cons.2 ⟨rfl, hpre⟩)
    · rintro ⟨hcall, hcalls⟩ pre hpre
      cases pre with
      | nil => exact hq
      | cons c pre =>
        obtain ⟨rfl, hrest⟩ := cons_prefix_cons.1 hpre
        exact (ih ((hstep q c hq).2 hcall)).2 hcalls pre hrest

/-! ### Distinct ids -/

theorem arrivals_sublist {pre : List QueueCall} (h : pre <+: calls) : (arrivals pre).Sublist (arrivals calls) := by
  obtain ⟨rest, rfl⟩ := h
  rw [arrivals, arrivals, flatMap_append]
  exact sublist_append_left ..

theorem SenderQueue.distinct_run (ttlSecs maxEntries : ℕ) (hfresh : (arrivals calls).Nodup) :
    (queueIds ((withLimits ttlSecs maxEntries).run calls).entries).Nodup :=
  (queueIds_run (withLimits ttlSecs maxEntries) calls).nodup hfresh

theorem eq_of_queueId_eq {es : List SenderQueueEntry} (hdistinct : (queueIds es).Nodup)
    (he : e ∈ es) (he' : e' ∈ es) (hid : e.queueId = e'.queueId) : e = e' :=
  inj_on_of_nodup_map hdistinct he he' hid

theorem index_eq_of_queueId_eq {es : List SenderQueueEntry} (hdistinct : (queueIds es).Nodup)
    {i j : ℕ} (hi : es[i]? = some e) (hj : es[j]? = some e') (hid : e.queueId = e'.queueId) :
    i = j := by
  obtain ⟨hlt, _⟩ := List.getElem?_eq_some_iff.1 hi
  refine (List.getElem?_inj (by simpa [queueIds] using hlt) hdistinct).1 ?_
  simp [queueIds, hi, hj, hid]

/-- Among distinct ids, a test that names one finds its entry. -/
theorem SenderQueue.position_of_distinct (hdistinct : (queueIds q.entries).Nodup)
    (hget : q.entries[index]? = some e) {test : SenderQueueEntry → Bool} (htest : test e = true)
    (hnames : ∀ x, test x = true → x.queueId = e.queueId) : q.position test = some (index, e) := by
  cases hfound : q.position test with
  | none =>
    rw [position_eq_none hfound e (mem_of_getElem? hget)] at htest
    cases htest
  | some found =>
    obtain ⟨i, x⟩ := found
    obtain ⟨hi, hx⟩ := position_eq_some hfound
    obtain rfl := index_eq_of_queueId_eq hdistinct hi hget (hnames x hx)
    rw [hget, Option.some.injEq] at hi
    rw [hi]

/-! ### Tokens -/

/-- Every fallback has a token, with which exactly that entry is acknowledged. -/
def SenderQueue.Acknowledgeable (q : SenderQueue) : Prop :=
  ∀ (index : ℕ) (e : SenderQueueEntry), q.entries[index]? = some e → e.state = .fallbackPending →
    ∃ token, e.fallbackDispatchToken = some token ∧ ∀ now, q.acknowledgeFallback e.queueId (some token) now =
        (some (e.notice .fallback index now e.reason none), q.removeEntry index)

/-- An entry that fell back has a token. -/
def HasToken (e : SenderQueueEntry) : Prop := e.state = .fallbackPending → e.fallbackDispatchToken.isSome = true

/-- The call is a restart that demotes a capture without a token to a fallback: the artifact is
accepted, and the armed entry has no attempt left and is not expired. -/
def Strands (q : SenderQueue) : QueueCall → Prop
  | .restart _ _ now =>
    q.blocked = none ∧ (∀ e ∈ q.entries, e.violatesBound = false) ∧
      ∃ e ∈ q.entries, e.state = .armed ∧ maxNativeCaptureRetries ≤ e.attempts ∧
        e.fallbackDispatchToken = none ∧ now < e.expiresAtEpoch
  | _ => False

instance (q : SenderQueue) : (call : QueueCall) → Decidable (Strands q call)
  | .restart _ _ now => inferInstanceAs (Decidable (q.blocked = none ∧ (∀ e ∈ q.entries, e.violatesBound = false) ∧
        ∃ e ∈ q.entries, e.state = .armed ∧ maxNativeCaptureRetries ≤ e.attempts ∧
          e.fallbackDispatchToken = none ∧ now < e.expiresAtEpoch))
  | .enqueue .. | .markArmed .. | .markProgressed .. | .recordDeliveryEvent .. |
    .recordReceiverBusy .. | .recordSourceBusy .. | .markFallback .. | .resolveUncertain .. |
    .acknowledgeFallback .. | .retireAllSilently | .popTerminalHead | .capturePolicyDenied .. |
    .captureFailed .. | .sweepExpired .. | .outboxRecord .. | .outboxAck .. => .isFalse id

/-- Each change but a restart draws a token for the entries that fall back. -/
theorem Touched.hasToken (h : Touched q call index e e') : HasToken e' := by
  cases h with
  | progress hstate =>
    intro hfallback
    rcases hstate with rfl | rfl <;> cases hfallback
  | unconsumed | receiverExhausted | sourceExhausted | fallBack | reemit | failedTerminally => exact fun _ => rfl
  | arm | doubt | receiverBusy | sourceBusy | denied | failed => exact fun hfallback => nomatch hfallback

theorem lt_satAdd32_one {a b : ℕ} (hb : b < 2 ^ 32 - 1) : b < satAdd32 a 1 ↔ b ≤ a := by
  unfold satAdd32
  omega

/-- A restart makes a fallback of an armed entry that has no attempt left, and of no other. -/
theorem SenderQueueEntry.demote_fallbackPending_iff : (e.demote.state = .fallbackPending ↔
      e.state = .fallbackPending ∨ e.state = .armed ∧ maxNativeCaptureRetries ≤ e.attempts) ∧
      e.demote.fallbackDispatchToken = e.fallbackDispatchToken ∧
      e.demote.expiresAtEpoch = e.expiresAtEpoch := by
  have hretries := lt_satAdd32_one (a := e.attempts) (b := maxNativeCaptureRetries) (by decide)
  rcases e.demote_cases with ⟨hflight, heq⟩ | ⟨hflight, reason, state, heq, hstate⟩
  · rw [heq]
    refine ⟨⟨.inl, fun h => h.resolve_right fun ⟨harmed, _⟩ => ?_⟩, rfl, rfl⟩
    rw [harmed] at hflight
    cases hflight
  · rw [heq]
    refine ⟨?_, rfl, rfl⟩
    have hnot : e.state ≠ .fallbackPending := fun h => by rw [h] at hflight; cases hflight
    simp only [hstate, hnot, false_or]
    split_ifs with harmed hexhausted
    · simp [harmed]
    · exact iff_of_true rfl ⟨not_not.1 harmed, hretries.1 hexhausted⟩
    · exact iff_of_false (by simp) fun h => hexhausted (hretries.2 h.2)

/-- The fallbacks after a call have tokens exactly when the call strands none. -/
theorem hasToken_step_iff (hq : ∀ e ∈ q.entries, HasToken e) :
    (∀ e ∈ (q.step call).2.entries, HasToken e) ↔ ¬ Strands q call := by
  constructor
  · intro h hstrands
    cases call with
    | restart ttlSecs maxEntries now =>
      obtain ⟨hopen, hbounds, e, he, harmed, hexhausted, htoken, hlive⟩ := hstrands
      obtain ⟨hiff, hsame, hexpires⟩ := e.demote_fallbackPending_iff
      have hdrop : e.demote.droppable now = false := by
        simp [SenderQueueEntry.droppable, SenderQueueEntry.expired, hexpires, hlive]
      have hmem : e.demote ∈ (q.step (.restart ttlSecs maxEntries now)).2.entries := by
        rw [SenderQueue.step, SenderQueue.restart_accepted hopen hbounds]
        exact mem_filter.2 ⟨mem_map_of_mem he, by simp [hdrop]⟩
      have hsome := h _ hmem (hiff.2 (.inr ⟨harmed, hexhausted⟩))
      rw [hsame, htoken] at hsome
      cases hsome
    | _ => exact hstrands
  · intro hstrands
    refine (q.effect_step call).forall_mem hq (fun _ he => he) ?_ (fun _ _ _ _ ht _ => ht.hasToken) ?_
    · intro e _ hpending hfallback
      rw [hpending] at hfallback
      cases hfallback
    · rintro ttlSecs maxEntries now rfl hopen hbounds e he hstays htoken hfallback
      obtain ⟨hiff, hsame, hexpires⟩ := e.demote_fallbackPending_iff
      rw [hsame]
      rcases hiff.1 hfallback with h | ⟨harmed, hexhausted⟩
      · exact htoken h
      · rw [Option.isSome_iff_ne_none]
        intro hnone
        have hlive : now < e.expiresAtEpoch := by
          by_contra hle
          simp [SenderQueueEntry.droppable, SenderQueueEntry.expired, hexpires, hfallback,
            SenderQueueState.isInFlight, SenderQueueState.isUncertain, SenderQueueState.isWaiting,
            not_lt.1 hle] at hstays
        exact hstrands ⟨hopen, hbounds, e, he, harmed, hexhausted, hnone, hlive⟩

/-! ### Acknowledging -/

namespace SenderQueue

theorem Acknowledgeable.hasToken (h : q.Acknowledgeable) : ∀ e ∈ q.entries, HasToken e := by
  intro e he hfallback
  obtain ⟨index, hget⟩ := mem_iff_getElem?.1 he
  obtain ⟨token, htoken, _⟩ := h index e hget hfallback
  rw [htoken]
  rfl

/-- Among distinct ids, the token of a fallback acknowledges that entry. -/
theorem acknowledgeable_of_hasToken (hdistinct : (queueIds q.entries).Nodup)
    (h : ∀ e ∈ q.entries, HasToken e) : q.Acknowledgeable := by
  intro index e hget hfallback
  obtain ⟨token, htoken⟩ := Option.isSome_iff_exists.1 (h e (mem_of_getElem? hget) hfallback)
  refine ⟨token, htoken, fun now => ?_⟩
  have hfound : q.position (fun x => x.queueId = e.queueId && x.state = .fallbackPending &&
      x.fallbackDispatchToken.isSome && (some token).isSome &&
      some token = x.fallbackDispatchToken) = some (index, e) :=
    position_of_distinct hdistinct hget (by simp [hfallback, htoken]) fun x hx => by
      simp only [Bool.and_eq_true, decide_eq_true_eq] at hx
      exact hx.1.1.1.1
  rw [acknowledgeFallback, hfound]

/-- **Fallbacks can be acknowledged** throughout a run exactly when no restart strands one. -/
theorem acknowledgeable_run_iff (ttlSecs maxEntries : ℕ) (calls : List QueueCall)
    (hfresh : (arrivals calls).Nodup) :
    (∀ pre, pre <+: calls → ((withLimits ttlSecs maxEntries).run pre).Acknowledgeable) ↔
      EveryStep (fun q call => ¬ Strands q call) (withLimits ttlSecs maxEntries) calls := by
  rw [← everyStep_iff (K := fun q => ∀ e ∈ q.entries, HasToken e)
    (fun q call hq => hasToken_step_iff hq) (by simp [withLimits])]
  refine forall₂_congr fun pre hpre => ⟨Acknowledgeable.hasToken, fun h => ?_⟩
  exact acknowledgeable_of_hasToken
    (distinct_run ttlSecs maxEntries ((arrivals_sublist hpre).nodup hfresh)) h

/-- Three captures fail, and the process restarts while the fourth is armed. -/
def strandedCalls : List QueueCall := [.enqueue (sampleUuid 0) "worker" "peer" 0,
    .markArmed none none 0, .captureFailed false "timeout" (sampleUuid 1) 0,
    .markArmed none none 0, .captureFailed false "timeout" (sampleUuid 2) 0,
    .markArmed none none 0, .captureFailed false "timeout" (sampleUuid 3) 0,
    .markArmed none none 0, .restart 1800 8 0]

/-- The entry has fallen back without a token, so that no acknowledgement is accepted. -/
theorem strandedFallback_unacknowledged :
    let q := (withLimits 1800 8).run strandedCalls
    (q.entries.map fun e => (e.queueId, e.state, e.fallbackDispatchToken)) =
        [((sampleUuid 0).queueId, .fallbackPending, none)] ∧
      ∀ queueId token now, q.acknowledgeFallback queueId token now = (none, q) := by
  intro q
  have hnone : ∀ e ∈ q.entries, e.fallbackDispatchToken = none := by decide
  refine ⟨by decide, fun queueId token now => ?_⟩
  unfold acknowledgeFallback
  split
  · rfl
  · next index e hfound =>
      obtain ⟨hget, htest⟩ := position_eq_some hfound
      rw [hnone e (mem_of_getElem? hget)] at htest
      simp at htest

/-- The fourth capture fails too, before the restart. -/
theorem acknowledgeable_run_iff_stranded :
    (∀ pre, pre <+: strandedCalls.take 8 ++
        [.captureFailed false "timeout" (sampleUuid 4) 0, .restart 1800 8 0] →
      ((withLimits 1800 8).run pre).Acknowledgeable) ∧
    ¬ ∀ pre, pre <+: strandedCalls → ((withLimits 1800 8).run pre).Acknowledgeable :=
  ⟨(acknowledgeable_run_iff 1800 8 _ (by decide)).2 (by decide),
    mt (acknowledgeable_run_iff 1800 8 strandedCalls (by decide)).1 (by decide)⟩

end SenderQueue

end Occ3
