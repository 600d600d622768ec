/-
**What the calls of the sender queue do.**

A run is a sequence of calls, restarts among them: a restart persists the queue and loads what was
written.  The outcomes of a call are described once, by the relation `Effect`: the entries stay, one
is appended, changed or removed, the expired ones are swept, or the artifact is refused.
-/

import OptimusAgent.SenderQueue

namespace Occ3

open Str List

/-! ### Calls -/

/-- The operations of the queue, with their clocks and the identifiers that they draw.  A restart
persists the queue and loads what was written. -/
inductive QueueCall where
  | enqueue (uuid : Uuid) (receiverRole receiverName : Str) (now : ℕ)
  | markArmed (messageId receiverSessionId : Option Str) (now : ℕ)
  | markProgressed (state : SenderQueueState) (messageId : Str) (now : ℕ)
  | recordDeliveryEvent (messageId : Str) (consumed : Bool) (receiptSha256 : Option Str)
      (token : Uuid) (now : ℕ)
  | recordReceiverBusy (messageId : Str) (token : Uuid) (now : ℕ)
  | recordSourceBusy (retryAfterSecs : Option ℕ) (refusedAt : ℕ) (token : Uuid) (now : ℕ)
  | markFallback (queueId : Option Str) (reason : Str) (token : Uuid) (now : ℕ)
  | resolveUncertain (queueId : Str) (reemit : Bool) (token : Uuid) (now : ℕ)
  | acknowledgeFallback (queueId : Str) (dispatchToken : Option Str) (now : ℕ)
  | retireAllSilently
  | popTerminalHead
  | capturePolicyDenied (now : ℕ)
  | captureFailed (terminal : Bool) (reason : Str) (token : Uuid) (now : ℕ)
  | sweepExpired (now : ℕ)
  | outboxRecord (uuid : Uuid) (notice : QueueNotice)
  | outboxAck (noticeId : Str) (ack : SenderQueue.Ack)
  | restart (ttlSecs maxEntries now : ℕ)
  deriving DecidableEq

namespace SenderQueue

/-- Persists the queue and loads what was written.  A blocked queue keeps its artifact, which blocks
the next load again. -/
def restart (q : SenderQueue) (ttlSecs maxEntries now : ℕ) : List QueueNotice × SenderQueue :=
  match q.persist with
  | .error _ => ([], { withLimits ttlSecs maxEntries with blocked := q.blocked })
  | .ok persisted =>
    match load (.parsed persisted) ttlSecs maxEntries now with
    | (q', .loaded _ notices) => (notices, q')
    | (q', _) => ([], q')

/-- The notices that a call returns, and the queue after it. -/
def step (q : SenderQueue) : QueueCall → List QueueNotice × SenderQueue
  | .enqueue uuid role name now => ((q.enqueue uuid role name now).1.toList, (q.enqueue uuid role name now).2)
  | .markArmed messageId session now =>
    ((q.markArmed messageId session now).1.toList, (q.markArmed messageId session now).2)
  | .markProgressed state messageId now =>
    ((q.markProgressed state messageId now).1.toList, (q.markProgressed state messageId now).2)
  | .recordDeliveryEvent messageId consumed receipt token now =>
    q.recordDeliveryEvent messageId consumed receipt token now
  | .recordReceiverBusy messageId token now => q.recordReceiverBusy messageId token now
  | .recordSourceBusy after refusedAt token now =>
    ((q.recordSourceBusy after refusedAt token now).1.toList, (q.recordSourceBusy after refusedAt token now).2)
  | .markFallback queueId reason token now =>
    ((q.markFallback queueId reason token now).1.toList, (q.markFallback queueId reason token now).2)
  | .resolveUncertain queueId reemit token now =>
    (((q.resolveUncertain queueId reemit token now).1.toOption.join).toList,
      (q.resolveUncertain queueId reemit token now).2)
  | .acknowledgeFallback queueId token now =>
    ((q.acknowledgeFallback queueId token now).1.toList, (q.acknowledgeFallback queueId token now).2)
  | .retireAllSilently => ([], q.retireAllSilently.2)
  | .popTerminalHead => ([], q.popTerminalHead.2)
  | .capturePolicyDenied now => ((q.capturePolicyDenied now).1.toList, (q.capturePolicyDenied now).2)
  | .captureFailed terminal reason token now =>
    ((q.captureFailed terminal reason token now).1.toList, (q.captureFailed terminal reason token now).2)
  | .sweepExpired now => q.sweepExpired now
  | .outboxRecord uuid notice => ([], (q.outboxRecord uuid notice).2)
  | .outboxAck noticeId ack => ([], (q.outboxAck noticeId ack).2)
  | .restart ttlSecs maxEntries now => q.restart ttlSecs maxEntries now

/-- A sequence of calls. -/
def run (q : SenderQueue) (calls : List QueueCall) : SenderQueue := calls.foldl (fun q call => (q.step call).2) q

end SenderQueue

/-! ### What a call does -/

/-- How a call changes the entry at an index. -/
inductive Touched (q : SenderQueue) : QueueCall → ℕ → SenderQueueEntry → SenderQueueEntry → Prop where
  | arm {messageId session : Option Str} {now : ℕ} {e : SenderQueueEntry} (h : e.state = .pending) :
      Touched q (.markArmed messageId session now) 0 e (e.arm messageId session)
  | progress {state : SenderQueueState} {messageId : Str} {now : ℕ} {e : SenderQueueEntry}
      (hstate : state = .published ∨ state = .admitted) (hopen : e.state.isTerminal = false)
      (hnot : e.state ≠ .admitted) :
      Touched q (.markProgressed state messageId now) 0 e (e.progress state messageId)
  | doubt {messageId : Str} {token : Uuid} {now index : ℕ} {e : SenderQueueEntry}
      (h : e.state.isInFlight = true) :
      Touched q (.recordDeliveryEvent messageId true none token now) index e e.doubt
  | unconsumed {messageId : Str} {receipt : Option Str} {token : Uuid} {now index : ℕ}
      {e : SenderQueueEntry} {reason : Str} (h : e.state.isInFlight = true) :
      Touched q (.recordDeliveryEvent messageId false receipt token now) index e
        (e.fallBack reason true token)
  | receiverExhausted {messageId : Str} {token : Uuid} {now index : ℕ} {e busy : SenderQueueEntry}
      {reason : Str} {counted : Bool} (hbusy : busy ∈ q.entries)
      (hflight : busy.state.isInFlight = true) (hid : e.queueId = busy.queueId) :
      Touched q (.recordReceiverBusy messageId token now) index e (e.fallBack reason counted token)
  | receiverBusy {messageId : Str} {token : Uuid} {now index notBefore : ℕ} {e : SenderQueueEntry}
      {reason : Str} (h : e.state.isInFlight = true) (hbusy : e.busyRetries < receiverBusyMaxRetries) :
      Touched q (.recordReceiverBusy messageId token now) index e (e.retry reason notBefore)
  | sourceExhausted {after : Option ℕ} {refusedAt : ℕ} {token : Uuid} {now : ℕ}
      {e : SenderQueueEntry} {reason : Str} (h : e.state = .armed) :
      Touched q (.recordSourceBusy after refusedAt token now) 0 e (e.fallBack reason false token)
  | sourceBusy {after : Option ℕ} {refusedAt : ℕ} {token : Uuid} {now notBefore : ℕ}
      {e : SenderQueueEntry} {reason : Str} (h : e.state = .armed)
      (hbusy : e.busyRetries < receiverBusyMaxRetries) :
      Touched q (.recordSourceBusy after refusedAt token now) 0 e (e.retry reason notBefore)
  | fallBack {queueId : Option Str} {reason reason' : Str} {counted : Bool} {token : Uuid}
      {now index : ℕ} {e : SenderQueueEntry} (h : q.fallbackTarget queueId = some (index, e)) :
      Touched q (.markFallback queueId reason token now) index e (e.fallBack reason' counted token)
  | reemit {token : Uuid} {now index : ℕ} {e : SenderQueueEntry} {reason : Str}
      (h : e.state = .uncertain) :
      Touched q (.resolveUncertain e.queueId true token now) index e (e.fallBack reason false token)
  | denied {now : ℕ} {e : SenderQueueEntry} (h : e.state = .armed) : Touched q (.capturePolicyDenied now) 0 e e.release
  | failed {reason : Str} {token : Uuid} {now : ℕ} {e : SenderQueueEntry} (h : e.state = .armed) :
      Touched q (.captureFailed false reason token now) 0 e
        { e with attempts := satAdd32 e.attempts 1 }.release
  | failedTerminally {reason reason' : Str} {counted : Bool} {token : Uuid} {now : ℕ}
      {e : SenderQueueEntry} (h : e.state = .armed) :
      Touched q (.captureFailed true reason token now) 0 e
        ({ e with attempts := satAdd32 e.attempts 1 }.fallBack reason' counted token)

/-- With which notice an entry leaves the queue. -/
inductive Leaves : QueueCall → SenderQueueEntry → QueueNotice → Prop where
  | completed {messageId : Str} {receipt : Str} {token : Uuid} {now : ℕ} {e : SenderQueueEntry}
      {n : QueueNotice} (h : e.state.isInFlight = true) (hid : n.queueId = e.queueId)
      (hstate : n.state = .completed) :
      Leaves (.recordDeliveryEvent messageId true (some receipt) token now) e n
  | cancelled {token : Uuid} {now : ℕ} {e : SenderQueueEntry} {n : QueueNotice}
      (h : e.state = .uncertain) (hid : n.queueId = e.queueId) (hstate : n.state = .failed) :
      Leaves (.resolveUncertain e.queueId false token now) e n
  | acknowledged {dispatchToken : Option Str} {now : ℕ} {e : SenderQueueEntry} {n : QueueNotice}
      (h : e.state = .fallbackPending) (hid : n.queueId = e.queueId) (hstate : n.state = .fallback) :
      Leaves (.acknowledgeFallback e.queueId dispatchToken now) e n

/-- The notices say exactly which of the entries are dropped as expired. -/
structure ReportsExpiry (now : ℕ) (es : List SenderQueueEntry) (ns : List QueueNotice) : Prop where
  covers : ∀ e ∈ es, e.droppable now = true → ∃ n ∈ ns, n.queueId = e.queueId ∧ n.state = .expired
  only : ∀ n ∈ ns, n.state = .expired ∧ ∃ e ∈ es, e.droppable now = true ∧ n.queueId = e.queueId

/-- What a call does to the entries, and the notices that it returns. -/
inductive Effect (q : SenderQueue) : QueueCall → List QueueNotice → List SenderQueueEntry → Prop where
  | kept (call : QueueCall) : Effect q call [] q.entries
  | appended {uuid : Uuid} {role name : Str} {now : ℕ} {e : SenderQueueEntry}
      {ns : List QueueNotice} (hroom : q.entries.length < q.maxEntries) (hopen : q.blocked = none)
      (hid : e.queueId = uuid.queueId) (hstate : e.state = .pending)
      (hbound : e.violatesBound = false) (hquiet : ∀ n ∈ ns, n.state.isTerminal = false) :
      Effect q (.enqueue uuid role name now) ns (q.entries ++ [e])
  | touched {call : QueueCall} {index : ℕ} {e e' : SenderQueueEntry} {ns : List QueueNotice}
      (hget : q.entries[index]? = some e) (htouched : Touched q call index e e')
      (hquiet : ∀ n ∈ ns, n.state.isTerminal = false) :
      Effect q call ns (q.entries.set index e')
  | removed {call : QueueCall} {index : ℕ} {e : SenderQueueEntry} {n : QueueNotice}
      (hget : q.entries[index]? = some e) (hleaves : Leaves call e n) :
      Effect q call [n] (q.entries.eraseIdx index)
  | swept {now : ℕ} {ns : List QueueNotice} (hreports : ReportsExpiry now q.entries ns) :
      Effect q (.sweepExpired now) ns (q.entries.filter fun e => !e.droppable now)
  | retired : Effect q .retireAllSilently [] []
  | popped {e : SenderQueueEntry} (hget : q.entries.head? = some e)
      (hterminal : e.state.isTerminal = true) : Effect q .popTerminalHead [] (q.entries.eraseIdx 0)
  | reloaded {ttlSecs maxEntries now : ℕ} {ns : List QueueNotice} (hopen : q.blocked = none)
      (hbounds : ∀ e ∈ q.entries, e.violatesBound = false)
      (hreports : ReportsExpiry now (q.entries.map SenderQueueEntry.demote) ns) :
      Effect q (.restart ttlSecs maxEntries now) ns
        ((q.entries.map SenderQueueEntry.demote).filter fun e => !e.droppable now)
  | shut {ttlSecs maxEntries now : ℕ} (h : q.blocked ≠ none ∨ ∃ e ∈ q.entries, e.violatesBound = true) :
      Effect q (.restart ttlSecs maxEntries now) [] []

namespace SenderQueue

variable {q : SenderQueue}

/-! ### The operations have these effects -/

variable {index : ℕ} {e : SenderQueueEntry} {test : SenderQueueEntry → Bool}

theorem position_eq_some
    (h : q.position test = some (index, e)) : q.entries[index]? = some e ∧ test e = true := by
  unfold position at h
  obtain ⟨i, hi, hmap⟩ := Option.bind_eq_some_iff.1 h
  obtain ⟨e', hget, heq⟩ := Option.map_eq_some_iff.1 hmap
  obtain ⟨rfl, rfl⟩ := Prod.mk.inj heq
  obtain ⟨hlt, htest, _⟩ := findIdx?_eq_some_iff_getElem.1 hi
  rw [getElem?_eq_getElem hlt, Option.some.injEq] at hget
  exact ⟨by rw [getElem?_eq_getElem hlt, hget], hget ▸ htest⟩

theorem position_eq_none (h : q.position test = none) : ∀ e ∈ q.entries, test e = false := by
  unfold position at h
  cases hidx : q.entries.findIdx? test with
  | none => simpa using findIdx?_eq_none_iff.1 hidx
  | some i =>
    obtain ⟨hlt, _⟩ := findIdx?_eq_some_iff_getElem.1 hidx
    rw [hidx, Option.bind_some, getElem?_eq_getElem hlt] at h
    cases h

theorem head?_eq (h : q.entries.head? = some e) : q.entries[0]? = some e := by rw [← head?_eq_getElem?, h]

/-- A notice about an entry that stays open is not terminal. -/
theorem noticeAt_quiet {now : ℕ} {reason : Option Str}
    (hget : q.entries[index]? = some e) (hopen : e.state.isTerminal = false) :
    ∀ n ∈ (q.noticeAt index now reason).toList, n.state.isTerminal = false := by
  intro n hn
  rw [noticeAt, hget, Option.map_some, Option.toList, mem_singleton] at hn
  rw [hn]
  exact hopen

theorem getElem?_setEntry {e' : SenderQueueEntry} (h : q.entries[index]? = some e) :
    (q.setEntry index e').entries[index]? = some e' := by
  obtain ⟨hlt, _⟩ := List.getElem?_eq_some_iff.1 h
  rw [setEntry, List.getElem?_set_self hlt]

theorem effect_enqueue (uuid : Uuid) (role name : Str) (now : ℕ) :
    Effect q (.enqueue uuid role name now) (q.step (.enqueue uuid role name now)).1
      (q.step (.enqueue uuid role name now)).2.entries := by
  simp only [step, enqueue]
  split_ifs with hblocked hfull hreceiver
  · exact .kept _
  · exact .kept _
  · exact .kept _
  · obtain ⟨hrole, hname, hlen⟩ : role ≠ [] ∧ name ≠ [] ∧ byteLen name ≤ 128 := by simpa [not_or] using hreceiver
    refine .appended (not_le.1 hfull) (by simpa using hblocked) rfl rfl ?_ ?_
    · simp [SenderQueueEntry.violatesBound, SenderQueueEntry.new, uuid.byteLen_queueId, hrole, hname, hlen]
    · refine noticeAt_quiet (e := .new uuid role name now (satAdd64 now q.ttlSecs)) ?_ rfl
      simp

theorem markFallback_cases (queueId : Option Str) (reason : Str) (token : Uuid) (now : ℕ) :
    q.markFallback queueId reason token now = (none, q) ∨
      ∃ index e reason' counted n, q.fallbackTarget queueId = some (index, e) ∧ n.state = .fallbackPending ∧
        (reason = sourceBusyExhaustedReason → counted = false) ∧
        q.markFallback queueId reason token now = (some n, q.setEntry index (e.fallBack reason' counted token)) := by
  unfold markFallback
  cases htarget : q.fallbackTarget queueId with
  | none => exact .inl rfl
  | some found =>
    obtain ⟨index, e⟩ := found
    exact .inr ⟨index, e, _, _, _, rfl, rfl, by simp, rfl⟩

theorem getElem?_of_fallbackTarget {queueId : Option Str}
    (h : q.fallbackTarget queueId = some (index, e)) : q.entries[index]? = some e := by
  cases queueId with
  | some id => exact (position_eq_some h).1
  | none =>
    simp only [fallbackTarget] at h
    cases hhead : q.entries.head? with
    | none => simp [hhead] at h
    | some head =>
      rw [hhead] at h
      simp only at h
      split_ifs at h
      cases h
      exact head?_eq hhead

/-- The entry found by its id is the head, when the head has that id and is open. -/
theorem fallbackTarget_head {head : SenderQueueEntry} (hhead : q.entries.head? = some head)
    (hopen : head.state.isTerminal = false) :
    q.fallbackTarget (some head.queueId) = some (0, head) := by
  have htest : (decide (head.queueId = head.queueId) && !head.state.isTerminal) = true := by simp [hopen]
  obtain ⟨rest, hrest⟩ : ∃ rest, q.entries = head :: rest := head?_eq_some_iff.1 hhead
  simp [fallbackTarget, position, hrest, findIdx?_cons, hopen]

theorem effect_markArmed (messageId session : Option Str) (now : ℕ) :
    Effect q (.markArmed messageId session now) (q.step (.markArmed messageId session now)).1
      (q.step (.markArmed messageId session now)).2.entries := by
  simp only [step, markArmed]
  cases hhead : q.entries.head? with
  | none => exact .kept _
  | some head =>
    simp only
    split_ifs with hstate
    · exact .kept _
    · have hget := head?_eq hhead
      refine .touched hget (.arm (not_not.1 hstate)) (noticeAt_quiet (getElem?_setEntry hget) rfl)

theorem effect_markProgressed (state : SenderQueueState) (messageId : Str) (now : ℕ) :
    Effect q (.markProgressed state messageId now) (q.step (.markProgressed state messageId now)).1
      (q.step (.markProgressed state messageId now)).2.entries := by
  simp only [step, markProgressed]
  cases hhead : q.entries.head? with
  | none => exact .kept _
  | some head =>
    simp only
    split_ifs with hterminal hstate hadmitted
    · exact .kept _
    · exact .kept _
    · have hget := head?_eq hhead
      refine .touched hget (.progress hstate (by simpa using hterminal) hadmitted)
        (noticeAt_quiet (getElem?_setEntry hget) ?_)
      rcases hstate with rfl | rfl <;> rfl
    · exact .kept _

theorem effect_recordDeliveryEvent (messageId : Str) (consumed : Bool) (receipt : Option Str) (token : Uuid) (now : ℕ) :
    Effect q (.recordDeliveryEvent messageId consumed receipt token now)
      (q.step (.recordDeliveryEvent messageId consumed receipt token now)).1
      (q.step (.recordDeliveryEvent messageId consumed receipt token now)).2.entries := by
  simp only [step, recordDeliveryEvent]
  cases hfound : q.position fun e => e.messageId = some messageId && e.state.isInFlight with
  | none => exact .kept _
  | some found =>
    obtain ⟨index, e⟩ := found
    obtain ⟨hget, htest⟩ := position_eq_some hfound
    have hflight : e.state.isInFlight = true := (Bool.and_eq_true_iff.1 htest).2
    simp only
    split_ifs with hproven hconsumed
    · obtain ⟨rfl, hreceipt⟩ := hproven
      obtain ⟨digest, rfl⟩ := Option.isSome_iff_exists.1 hreceipt
      exact .removed hget (.completed hflight rfl rfl)
    · subst hconsumed
      obtain rfl : receipt = none := by simpa using hproven
      exact .touched hget (.doubt hflight) (by simp [SenderQueueEntry.notice, SenderQueueState.isTerminal])
    · obtain rfl : consumed = false := by simpa using hconsumed
      exact .touched hget (.unconsumed hflight) (by simp [SenderQueueEntry.notice, SenderQueueState.isTerminal])

theorem effect_recordReceiverBusy (messageId : Str) (token : Uuid) (now : ℕ) :
    Effect q (.recordReceiverBusy messageId token now)
      (q.step (.recordReceiverBusy messageId token now)).1
      (q.step (.recordReceiverBusy messageId token now)).2.entries := by
  simp only [step, recordReceiverBusy]
  cases hfound : q.position fun e => e.messageId = some messageId && e.state.isInFlight with
  | none => exact .kept _
  | some found =>
    obtain ⟨index, e⟩ := found
    obtain ⟨hget, htest⟩ := position_eq_some hfound
    have hflight : e.state.isInFlight = true := (Bool.and_eq_true_iff.1 htest).2
    simp only
    split_ifs with hbusy
    · rcases q.markFallback_cases (some e.queueId) "receiver_busy_exhausted" token now with
        heq | ⟨index', e', reason', counted, n, htarget, hn, hcounted, heq⟩
      · rw [heq]
        exact .kept _
      · rw [heq]
        have hid : e'.queueId = e.queueId := by simpa using (Bool.and_eq_true_iff.1 (position_eq_some htarget).2).1
        exact .touched (getElem?_of_fallbackTarget htarget)
          (.receiverExhausted (mem_of_getElem? hget) hflight hid)
          (by simp [hn, SenderQueueState.isTerminal])
    · exact .touched hget (.receiverBusy hflight (not_le.1 hbusy))
        (noticeAt_quiet (getElem?_setEntry hget) rfl)

theorem effect_recordSourceBusy (after : Option ℕ) (refusedAt : ℕ) (token : Uuid) (now : ℕ) :
    Effect q (.recordSourceBusy after refusedAt token now)
      (q.step (.recordSourceBusy after refusedAt token now)).1
      (q.step (.recordSourceBusy after refusedAt token now)).2.entries := by
  simp only [step, recordSourceBusy]
  cases hhead : q.entries.head? with
  | none => exact .kept _
  | some head =>
    have hget := head?_eq hhead
    simp only
    split_ifs with hstate hbusy
    · exact .kept _
    · have harmed : head.state = .armed := not_not.1 hstate
      have htarget := fallbackTarget_head hhead (by rw [harmed]; rfl)
      rcases q.markFallback_cases (some head.queueId) sourceBusyExhaustedReason token now with
        heq | ⟨index, e, reason', counted, n, htarget', hn, hcounted, heq⟩
      · rw [heq]
        exact .kept _
      · obtain ⟨rfl, rfl⟩ : index = 0 ∧ e = head := by simpa [htarget, eq_comm] using htarget'
        rw [heq, hcounted rfl]
        exact .touched hget (.sourceExhausted harmed) (by simp [hn, SenderQueueState.isTerminal])
    · exact .touched hget (.sourceBusy (not_not.1 hstate) (not_le.1 hbusy))
        (noticeAt_quiet (getElem?_setEntry hget) rfl)

theorem effect_markFallback (queueId : Option Str) (reason : Str) (token : Uuid) (now : ℕ) :
    Effect q (.markFallback queueId reason token now)
      (q.step (.markFallback queueId reason token now)).1
      (q.step (.markFallback queueId reason token now)).2.entries := by
  simp only [step]
  rcases q.markFallback_cases queueId reason token now with
    heq | ⟨index, e, reason', counted, n, htarget, hn, hcounted, heq⟩
  · rw [heq]
    exact .kept _
  · rw [heq]
    exact .touched (getElem?_of_fallbackTarget htarget) (.fallBack htarget)
      (by simp [hn, SenderQueueState.isTerminal])

theorem effect_capturePolicyDenied (now : ℕ) : Effect q (.capturePolicyDenied now) (q.step (.capturePolicyDenied now)).1
      (q.step (.capturePolicyDenied now)).2.entries := by
  simp only [step, capturePolicyDenied]
  cases hhead : q.entries.head? with
  | none => exact .kept _
  | some head =>
    have hget := head?_eq hhead
    simp only
    split_ifs with hstate
    · exact .kept _
    · exact .touched hget (.denied (not_not.1 hstate)) (noticeAt_quiet (getElem?_setEntry hget) rfl)

theorem effect_captureFailed (terminal : Bool) (reason : Str) (token : Uuid) (now : ℕ) :
    Effect q (.captureFailed terminal reason token now)
      (q.step (.captureFailed terminal reason token now)).1
      (q.step (.captureFailed terminal reason token now)).2.entries := by
  simp only [step, captureFailed]
  cases hhead : q.entries.head? with
  | none => exact .kept _
  | some head =>
    have hget := head?_eq hhead
    simp only
    split_ifs with hstate hterminal
    · exact .kept _
    · have harmed : head.state = .armed := not_not.1 hstate
      subst hterminal
      let counted : SenderQueueEntry := { head with attempts := satAdd32 head.attempts 1 }
      have hhead' : (q.setEntry 0 counted).entries.head? = some counted := by
        rw [head?_eq_getElem?]
        exact getElem?_setEntry hget
      have htarget := fallbackTarget_head hhead' (by simp [counted, harmed, SenderQueueState.isTerminal])
      rcases (q.setEntry 0 counted).markFallback_cases (some counted.queueId) reason token now with
        heq | ⟨index, e, reason', counted', n, htarget', hn, _, heq⟩
      · unfold markFallback at heq
        rw [htarget] at heq
        simp at heq
      · obtain ⟨rfl, rfl⟩ : index = 0 ∧ e = counted := by simpa [htarget, eq_comm] using htarget'
        rw [heq]
        have hset : ((q.setEntry 0 counted).setEntry 0 (counted.fallBack reason' counted' token)).entries =
            q.entries.set 0 (counted.fallBack reason' counted' token) := by
          simp [setEntry]
        rw [hset]
        exact .touched hget (.failedTerminally harmed) (by simp [hn, SenderQueueState.isTerminal])
    · obtain rfl : terminal = false := by simpa using hterminal
      exact .touched hget (.failed (not_not.1 hstate)) (noticeAt_quiet (getElem?_setEntry hget) rfl)

theorem effect_resolveUncertain (queueId : Str) (reemit : Bool) (token : Uuid) (now : ℕ) :
    Effect q (.resolveUncertain queueId reemit token now)
      (q.step (.resolveUncertain queueId reemit token now)).1
      (q.step (.resolveUncertain queueId reemit token now)).2.entries := by
  simp only [step, resolveUncertain]
  cases hfound : q.position fun e => e.queueId = queueId with
  | none => exact .kept _
  | some found =>
    obtain ⟨index, e⟩ := found
    obtain ⟨hget, htest⟩ := position_eq_some hfound
    obtain rfl : e.queueId = queueId := by simpa using htest
    simp only
    split_ifs with hstate hreemit
    · exact .kept _
    · subst hreemit
      exact .touched hget (.reemit (not_not.1 hstate)) (by
        simp [Except.toOption, SenderQueueEntry.notice, SenderQueueState.isTerminal])
    · obtain rfl : reemit = false := by simpa using hreemit
      exact .removed hget (.cancelled (not_not.1 hstate) rfl rfl)

theorem effect_acknowledgeFallback (queueId : Str) (dispatchToken : Option Str) (now : ℕ) :
    Effect q (.acknowledgeFallback queueId dispatchToken now)
      (q.step (.acknowledgeFallback queueId dispatchToken now)).1
      (q.step (.acknowledgeFallback queueId dispatchToken now)).2.entries := by
  simp only [step, acknowledgeFallback]
  split
  · exact .kept _
  · next index e hfound =>
      obtain ⟨hget, htest⟩ := position_eq_some hfound
      simp only [Bool.and_eq_true, decide_eq_true_eq] at htest
      obtain ⟨⟨⟨⟨rfl, hstate⟩, _⟩, _⟩, _⟩ := htest
      exact .removed hget (.acknowledged hstate rfl rfl)

theorem effect_popTerminalHead : Effect q .popTerminalHead (q.step .popTerminalHead).1
      (q.step .popTerminalHead).2.entries := by
  simp only [step, popTerminalHead]
  cases hhead : q.entries.head? with
  | none => exact .kept _
  | some head =>
    simp only
    split_ifs with hterminal
    · exact .popped hhead hterminal
    · exact .kept _

/-- The sweep keeps what does not expire and reports the rest. -/
theorem sweepLoop_spec (now index : ℕ) (es : List SenderQueueEntry) :
    (sweepLoop now index es).2 = es.filter (fun e => !e.droppable now) ∧
      ReportsExpiry now es (sweepLoop now index es).1 := by
  induction es generalizing index with
  | nil => exact ⟨rfl, by simp, by simp [sweepLoop]⟩
  | cons e es ih =>
    rw [sweepLoop]
    split_ifs with hdrop
    · obtain ⟨hkept, hreports⟩ := ih index
      refine ⟨by simp [hkept, hdrop], ?_, ?_⟩
      · intro x hx hdropped
        rcases mem_cons.1 hx with rfl | hx
        · exact ⟨_, mem_cons_self .., rfl, rfl⟩
        · obtain ⟨n, hn, hid, hstate⟩ := hreports.covers x hx hdropped
          exact ⟨n, mem_cons_of_mem _ hn, hid, hstate⟩
      · intro n hn
        rcases mem_cons.1 hn with rfl | hn
        · exact ⟨rfl, e, mem_cons_self .., hdrop, rfl⟩
        · obtain ⟨hstate, x, hx, hdropped, hid⟩ := hreports.only n hn
          exact ⟨hstate, x, mem_cons_of_mem _ hx, hdropped, hid⟩
    · obtain ⟨hkept, hreports⟩ := ih (index + 1)
      refine ⟨by simp [hkept, hdrop], ?_, ?_⟩
      · intro x hx hdropped
        rcases mem_cons.1 hx with rfl | hx
        · exact absurd hdropped hdrop
        · exact hreports.covers x hx hdropped
      · intro n hn
        obtain ⟨hstate, x, hx, hdropped, hid⟩ := hreports.only n hn
        exact ⟨hstate, x, mem_cons_of_mem _ hx, hdropped, hid⟩

/-- The loader reports the entries that it drops. -/
theorem reportsExpiry_loadNotices (now : ℕ) (es : List SenderQueueEntry) :
    ReportsExpiry now es (loadNotices now es) where
  covers e he hdrop := by
    obtain ⟨index, hindex⟩ := mem_iff_getElem?.1 he
    refine ⟨e.expiredNotice index now, mem_map.2 ⟨(e, index), ?_, rfl⟩, rfl, rfl⟩
    exact mem_filter.2 ⟨mk_mem_zipIdx_iff_getElem?.2 hindex, hdrop⟩
  only n hn := by
    obtain ⟨⟨e, index⟩, hmem, rfl⟩ := mem_map.1 hn
    obtain ⟨hzip, hdrop⟩ := mem_filter.1 hmem
    exact ⟨rfl, e, mem_of_getElem? (mk_mem_zipIdx_iff_getElem?.1 hzip), hdrop, rfl⟩

/-- What a queue that is not blocked writes is accepted when its entries are within the bounds. -/
theorem load_persisted (persisted : PersistedQueue) (hschema : persisted.schema = senderQueueSchema)
    (hbounds : ∀ e ∈ persisted.entries, e.violatesBound = false) (ttlSecs maxEntries now : ℕ) :
    load (.parsed persisted) ttlSecs maxEntries now =
      ({ withLimits ttlSecs maxEntries with
          entries := loadEntries now (persisted.entries.map SenderQueueEntry.demote)
          outbox := persisted.outbox
          outboxOverflow := persisted.outboxOverflow },
        .loaded (loadEntries now (persisted.entries.map SenderQueueEntry.demote))
          (loadNotices now (persisted.entries.map SenderQueueEntry.demote))) := by
  have hany : ¬ persisted.entries.any SenderQueueEntry.violatesBound = true := by simpa using hbounds
  simp only [load, hschema, ne_eq, not_true_eq_false, if_false, if_neg hany]

theorem load_violating (persisted : PersistedQueue) (hschema : persisted.schema = senderQueueSchema)
    (he : e ∈ persisted.entries) (hviolates : e.violatesBound = true)
    (ttlSecs maxEntries now : ℕ) :
    load (.parsed persisted) ttlSecs maxEntries now =
      (withLimits ttlSecs maxEntries).block (.unreadable "entry bound violation") := by
  have hany : persisted.entries.any SenderQueueEntry.violatesBound = true := any_eq_true.2 ⟨e, he, hviolates⟩
  simp only [load, hschema, ne_eq, not_true_eq_false, if_false, if_pos hany]

theorem persist_of_open (h : q.blocked = none) : q.persist = .ok q.written := by simp [persist, h]

/-! The three outcomes of a restart. -/

theorem restart_accepted (hopen : q.blocked = none)
    (hbounds : ∀ e ∈ q.entries, e.violatesBound = false) (ttlSecs maxEntries now : ℕ) :
    q.restart ttlSecs maxEntries now = (loadNotices now (q.entries.map SenderQueueEntry.demote),
        { withLimits ttlSecs maxEntries with
          entries := loadEntries now (q.entries.map SenderQueueEntry.demote)
          outbox := q.outbox
          outboxOverflow := q.outboxOverflow }) := by
  have hload := load_persisted q.written rfl hbounds ttlSecs maxEntries now
  simp only [restart, persist_of_open hopen, hload]
  rfl

theorem restart_refused (hopen : q.blocked = none) (he : e ∈ q.entries)
    (hviolates : e.violatesBound = true) (ttlSecs maxEntries now : ℕ) :
    q.restart ttlSecs maxEntries now =
      ([], { withLimits ttlSecs maxEntries with
        blocked := some (.unreadable "entry bound violation") }) := by
  have hload := load_violating q.written rfl he hviolates ttlSecs maxEntries now
  simp only [restart, persist_of_open hopen, hload, block]

theorem restart_blocked (hblocked : q.blocked ≠ none) (ttlSecs maxEntries now : ℕ) :
    q.restart ttlSecs maxEntries now = ([], { withLimits ttlSecs maxEntries with blocked := q.blocked }) := by
  simp only [restart, persist, Option.isSome_iff_ne_none.2 hblocked, if_true]

theorem effect_restart (ttlSecs maxEntries now : ℕ) :
    Effect q (.restart ttlSecs maxEntries now) (q.step (.restart ttlSecs maxEntries now)).1
      (q.step (.restart ttlSecs maxEntries now)).2.entries := by
  rw [step]
  by_cases hopen : q.blocked = none
  · by_cases hbounds : ∀ e ∈ q.entries, e.violatesBound = false
    · rw [restart_accepted hopen hbounds]
      exact .reloaded hopen hbounds (reportsExpiry_loadNotices now _)
    · obtain ⟨e, he, hviolates⟩ : ∃ e ∈ q.entries, e.violatesBound = true := by simpa using hbounds
      rw [restart_refused hopen he hviolates]
      exact .shut (.inr ⟨e, he, hviolates⟩)
  · rw [restart_blocked hopen]
    exact .shut (.inl hopen)

/-- Every call has one of the effects. -/
theorem effect_step (q : SenderQueue) (call : QueueCall) : Effect q call (q.step call).1 (q.step call).2.entries := by
  cases call with
  | enqueue => exact effect_enqueue ..
  | markArmed => exact effect_markArmed ..
  | markProgressed => exact effect_markProgressed ..
  | recordDeliveryEvent => exact effect_recordDeliveryEvent ..
  | recordReceiverBusy => exact effect_recordReceiverBusy ..
  | recordSourceBusy => exact effect_recordSourceBusy ..
  | markFallback => exact effect_markFallback ..
  | resolveUncertain => exact effect_resolveUncertain ..
  | acknowledgeFallback => exact effect_acknowledgeFallback ..
  | retireAllSilently => exact .retired
  | popTerminalHead => exact effect_popTerminalHead
  | capturePolicyDenied => exact effect_capturePolicyDenied ..
  | captureFailed => exact effect_captureFailed ..
  | sweepExpired now =>
    obtain ⟨hkept, hreports⟩ := sweepLoop_spec now 0 q.entries
    simp only [step, sweepExpired, hkept]
    exact .swept hreports
  | outboxRecord uuid notice =>
    simp only [step, outboxRecord]
    split_ifs <;> exact .kept _
  | outboxAck noticeId ack =>
    simp only [step, outboxAck]
    split
    · exact .kept _
    · split
      · exact .kept _
      · split_ifs <;> exact .kept _
  | restart => exact effect_restart ..

end SenderQueue

end Occ3
