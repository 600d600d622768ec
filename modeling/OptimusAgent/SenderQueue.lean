/-
**The sender queue of native handoffs.**

A sender session may queue several native handoffs.  The queue decides which of them the next
capture belongs to: only the head is armed, published and admitted, and the others wait.  This
module embeds `core/agent_session/occ3_sender_queue.rs`: the entries with their states, the
operations with the notices that they return, the durable outbox, and the artifact that is written
and read back over a restart.

Clocks are inputs of the operations, and so are the identifiers that the source draws at random.
Counters are natural numbers with the saturation of the source's types written out.  The artifact is
its content: what the JSON library makes of the bytes, or the failure to read them.
-/

import OptimusAgent.Text

namespace Occ3

open Str

/-! ### Numbers and identifiers -/

/-- `a.saturating_add(b)` of `u32`. -/
def satAdd32 (a b : ℕ) : ℕ := min (a + b) (2 ^ 32 - 1)

/-- `a.saturating_add(b)` of `u64`. -/
def satAdd64 (a b : ℕ) : ℕ := min (a + b) (2 ^ 64 - 1)

/-- A random identifier in its printed form of 36 bytes. -/
structure Uuid where
  text : Str
  byteLen_text : byteLen text = 36
  deriving DecidableEq

namespace Uuid

def queueId (uuid : Uuid) : Str := "occ3q_" ++ uuid.text
def dispatchToken (uuid : Uuid) : Str := "occ3dt_" ++ uuid.text
def noticeId (uuid : Uuid) : Str := "occ3n_" ++ uuid.text

theorem byteLen_queueId (uuid : Uuid) : byteLen uuid.queueId = 42 := by
  have hstem : byteLen "occ3q_" = 6 := by decide
  have happend : byteLen uuid.queueId = byteLen "occ3q_" + byteLen uuid.text := byteLen_append _ _
  have htext := uuid.byteLen_text
  omega

end Uuid

def senderQueueSchema : Str := "optimus.occ3-sender-queue.v1"

def minEntries : ℕ := 1
def maxEntriesLimit : ℕ := 64
def minTtlSecs : ℕ := 60
def maxTtlSecs : ℕ := 24 * 3600
def outboxCap : ℕ := 64

/-- Receiver-busy re-captures of an entry before it falls back. -/
def receiverBusyMaxRetries : ℕ := 3

/-- Capture failures of an entry before the native path counts as unavailable. -/
def maxNativeCaptureRetries : ℕ := 3

def busyBackoffMaxSecs : ℕ := 30

def sourceBusyRetryReason : Str := "source_busy_retry"
def receiverBusyRetryReason : Str := "receiver_busy_retry"
def sourceBusyExhaustedReason : Str := "source_busy_exhausted"

/-- The wait before a re-capture: 2, 4 and 8 seconds. -/
def receiverBusyBackoffSecs (retry : ℕ) : ℕ := 2 ^ max 1 (min retry receiverBusyMaxRetries)

/-- When a capture may be armed again after the server refused it as busy: the wait is the server's,
if it is in range, and counts from the refusal. -/
def sourceBusyNotBefore (retryAfterSecs : Option ℕ) (refusedAt now retry : ℕ) : ℕ :=
  let wait := (retryAfterSecs.filter fun seconds =>
    decide (1 ≤ seconds ∧ seconds ≤ busyBackoffMaxSecs)).getD (receiverBusyBackoffSecs retry)
  satAdd64 (if refusedAt = 0 then now else min refusedAt now) wait

/-- A reason is cut after 128 characters. -/
def boundedReason (reason : Str) : Str := reason.take 128

/-! ### States, entries and notices -/

/-- The state of a queued handoff. -/
inductive SenderQueueState where
  /-- Queued, not yet armed. -/
  | pending
  /-- The capture of the head is armed. -/
  | armed
  /-- The publication of the captured turn succeeded. -/
  | published
  /-- The receiver admitted the handoff. -/
  | admitted
  /-- The native path failed; the ordinary message is not acknowledged yet. -/
  | fallbackPending
  /-- The outcome cannot be proven. -/
  | uncertain
  /-- The ordinary message was acknowledged. -/
  | fallback
  /-- The receiver proved the use of the native state. -/
  | completed
  /-- The time to live ran out. -/
  | expired
  /-- Failure without a fallback. -/
  | failed
  deriving DecidableEq

namespace SenderQueueState

def isTerminal : SenderQueueState → Bool
  | fallback | completed | expired | failed => true
  | _ => false

def isInFlight : SenderQueueState → Bool
  | armed | published | admitted => true
  | _ => false

def isUncertain : SenderQueueState → Bool
  | uncertain => true
  | _ => false

/-- Whether an entry in this state waits, so that its time to live runs. -/
def isWaiting : SenderQueueState → Bool
  | pending | fallbackPending => true
  | _ => false

end SenderQueueState

/-- One queued handoff. -/
structure SenderQueueEntry where
  queueId : Str
  /-- The message id of the current attempt. -/
  messageId : Option Str
  /-- The attempts so far: a label and the message id. -/
  messageIds : List (Str × Str)
  receiverRole : Str
  receiverName : Str
  enqueuedAtEpoch : ℕ
  expiresAtEpoch : ℕ
  state : SenderQueueState
  /-- Capture failures and restarts. -/
  attempts : ℕ
  reason : Option Str
  /-- The token with which the ordinary message is acknowledged. -/
  fallbackDispatchToken : Option Str
  receiverSessionId : Option Str
  busyRetries : ℕ
  retryNotBeforeEpoch : Option ℕ
  deriving DecidableEq

/-- One notice for the sender's transcript. -/
structure QueueNotice where
  queueId : Str
  messageId : Option Str
  receiver : Str
  state : SenderQueueState
  attempts : ℕ
  /-- The position in the queue, counted from 1. -/
  position : ℕ
  timestamp : ℕ
  reason : Option Str
  dispatchToken : Option Str
  refusal : Option Str
  deriving DecidableEq

namespace SenderQueueEntry

/-- A handoff that was just queued. -/
def new (uuid : Uuid) (receiverRole receiverName : Str) (now expiresAt : ℕ) : SenderQueueEntry where
  queueId := uuid.queueId
  messageId := none
  messageIds := []
  receiverRole := receiverRole
  receiverName := receiverName
  enqueuedAtEpoch := now
  expiresAtEpoch := expiresAt
  state := .pending
  attempts := 0
  reason := none
  fallbackDispatchToken := none
  receiverSessionId := none
  busyRetries := 0
  retryNotBeforeEpoch := none

def receiverSelector (e : SenderQueueEntry) : Str := e.receiverRole ++ ':' :: e.receiverName

/-- Whether the time to live of the entry ran out.  In-flight and uncertain work does not expire. -/
def expired (e : SenderQueueEntry) (now : ℕ) : Bool :=
  !e.state.isInFlight && !e.state.isUncertain && decide (e.expiresAtEpoch ≤ now)

/-- Whether the entry is dropped as expired. -/
def droppable (e : SenderQueueEntry) (now : ℕ) : Bool := e.expired now && e.state.isWaiting

/-- A notice about the entry at a position counted from 0. -/
def notice (e : SenderQueueEntry) (state : SenderQueueState) (index now : ℕ)
    (reason dispatchToken : Option Str) : QueueNotice where
  queueId := e.queueId
  messageId := e.messageId
  receiver := e.receiverSelector
  state := state
  attempts := e.attempts
  position := (index + 1) % 2 ^ 32
  timestamp := now
  reason := reason
  dispatchToken := dispatchToken
  refusal := none

def expiredNotice (e : SenderQueueEntry) (index now : ℕ) : QueueNotice :=
  e.notice .expired index now (some "ttl_expired") none

/-! The changes that the operations make to an entry. -/

/-- The capture of the entry is armed. -/
def arm (e : SenderQueueEntry) (messageId receiverSessionId : Option Str) : SenderQueueEntry :=
  { e with
    state := .armed
    retryNotBeforeEpoch := none
    reason :=
      if e.reason = some sourceBusyRetryReason ∨ e.reason = some receiverBusyRetryReason then none
      else e.reason
    receiverSessionId := receiverSessionId
    messageIds :=
      match messageId with
      | some id =>
        if e.messageId = some id then e.messageIds else (e.messageIds ++ [(("armed" : Str), id)]).rtake 8
      | none => e.messageIds
    messageId := messageId.or e.messageId }

/-- A publication or an admission is reported for the entry. -/
def progress (e : SenderQueueEntry) (state : SenderQueueState) (messageId : Str) : SenderQueueEntry :=
  { e with
    state := state
    reason := none
    retryNotBeforeEpoch := none
    messageId := some messageId }

/-- A consumption was reported without its proof. -/
def doubt (e : SenderQueueEntry) : SenderQueueEntry :=
  { e with state := .uncertain, reason := some "consumed_without_receipt_digest" }

/-- The entry falls back to an ordinary message, with a fresh token. -/
def fallBack (e : SenderQueueEntry) (reason : Str) (counted : Bool) (token : Uuid) : SenderQueueEntry :=
  { e with
    state := .fallbackPending
    reason := some reason
    attempts := if counted = true then satAdd32 e.attempts 1 else e.attempts
    fallbackDispatchToken := some token.dispatchToken }

/-- A busy refusal returns the entry to `pending`. -/
def retry (e : SenderQueueEntry) (reason : Str) (notBefore : ℕ) : SenderQueueEntry :=
  { e with
    busyRetries := satAdd32 e.busyRetries 1
    state := .pending
    reason := some reason
    retryNotBeforeEpoch := some notBefore }

/-- A stopped capture returns the entry to `pending`. -/
def release (e : SenderQueueEntry) : SenderQueueEntry := { e with state := .pending, reason := none }

/-- A restart never replays a capture: what was in flight is demoted. -/
def demote (e : SenderQueueEntry) : SenderQueueEntry :=
  if e.state.isInFlight = true then
    let attempts := satAdd32 e.attempts 1
    let e' := { e with
      attempts := attempts
      messageIds := e.messageIds ++ [(("restart_ambiguous" : Str), e.messageId.getD [])] }
    if e.state = .armed then
      { e' with
        reason := some "restart_pre_publication"
        state := if maxNativeCaptureRetries < attempts then .fallbackPending else .pending }
    else { e' with reason := some "restart_uncertain_publication", state := .uncertain }
  else e

/-- The bounds that the loader checks. -/
def violatesBound (e : SenderQueueEntry) : Bool := 128 < byteLen e.queueId ∨ e.receiverRole = [] ∨ e.receiverName = [] ∨
    128 < byteLen e.receiverName ∨ 64 < e.attempts ∨ receiverBusyMaxRetries < e.busyRetries ∨
    8 < e.messageIds.length

end SenderQueueEntry

/-- One durable outbox record. -/
structure DurableQueueNotice where
  noticeId : Str
  queueId : Str
  messageId : Option Str
  receiver : Str
  state : SenderQueueState
  attempts : ℕ
  position : ℕ
  reason : Option Str
  refusal : Option Str
  timestamp : ℕ
  transcriptDone : Bool
  parentDone : Bool
  deriving DecidableEq

/-- Why a persisted queue could not be loaded. -/
inductive SenderQueueBlocked where
  | unsupportedSchema (found : Str)
  | unreadable (error : Str)
  | unreadableIo (error : Str)
  deriving DecidableEq

/-- The in-memory queue. -/
structure SenderQueue where
  /-- The entries in the order of arrival. -/
  entries : List SenderQueueEntry
  blocked : Option SenderQueueBlocked
  ttlSecs : ℕ
  maxEntries : ℕ
  outbox : List DurableQueueNotice
  outboxOverflow : Bool
  deriving DecidableEq

/-- What is written to the artifact. -/
structure PersistedQueue where
  schema : Str
  entries : List SenderQueueEntry
  outbox : List DurableQueueNotice
  outboxOverflow : Bool
  deriving DecidableEq

/-- The artifact, as reading and parsing it finds it. -/
inductive Artifact where
  | absent
  | ioError (error : Str)
  | malformed (error : Str)
  | parsed (persisted : PersistedQueue)
  deriving DecidableEq

/-- The outcome of loading. -/
inductive SenderQueueLoad where
  | fresh
  | loaded (entries : List SenderQueueEntry) (notices : List QueueNotice)
  | blocked (reason : SenderQueueBlocked)
  deriving DecidableEq

namespace SenderQueue

/-! ### The artifact -/

/-- An empty queue; the limits are clamped. -/
def withLimits (ttlSecs maxEntries : ℕ) : SenderQueue where
  entries := []
  blocked := none
  ttlSecs := max minTtlSecs (min ttlSecs maxTtlSecs)
  maxEntries := max minEntries (min maxEntries maxEntriesLimit)
  outbox := []
  outboxOverflow := false

/-- Opens the queue blocked. -/
def block (q : SenderQueue) (reason : SenderQueueBlocked) : SenderQueue × SenderQueueLoad :=
  ({ q with blocked := some reason }, .blocked reason)

/-- The notices about the entries that expired on disk, at their places in the file. -/
def loadNotices (now : ℕ) (entries : List SenderQueueEntry) : List QueueNotice :=
  (entries.zipIdx.filter fun found => found.1.droppable now).map fun found => found.1.expiredNotice found.2 now

/-- The entries of the file that are kept. -/
def loadEntries (now : ℕ) (entries : List SenderQueueEntry) : List SenderQueueEntry :=
  entries.filter fun e => !e.droppable now

/-- Loads the artifact.  What the file holds is refused, or demoted and swept of expired entries. -/
def load (file : Artifact) (ttlSecs maxEntries now : ℕ) : SenderQueue × SenderQueueLoad :=
  let q := withLimits ttlSecs maxEntries
  match file with
  | .absent => (q, .fresh)
  | .ioError error => q.block (.unreadableIo error)
  | .malformed error => q.block (.unreadable error)
  | .parsed persisted =>
    if persisted.schema ≠ senderQueueSchema then q.block (.unsupportedSchema persisted.schema)
    else if persisted.entries.any SenderQueueEntry.violatesBound = true then
      q.block (.unreadable "entry bound violation")
    else
      let demoted := persisted.entries.map SenderQueueEntry.demote
      ({ q with
          entries := loadEntries now demoted
          outbox := persisted.outbox
          outboxOverflow := persisted.outboxOverflow },
        .loaded (loadEntries now demoted) (loadNotices now demoted))

/-- What is written of a queue. -/
def written (q : SenderQueue) : PersistedQueue where
  schema := senderQueueSchema
  entries := q.entries
  outbox := q.outbox
  outboxOverflow := q.outboxOverflow

/-- What `persist` writes; a blocked queue refuses to overwrite its artifact. -/
def persist (q : SenderQueue) : Except Str PersistedQueue :=
  if q.blocked.isSome = true then
    .error "occ3 sender queue is blocked; refusing to overwrite its artifact"
  else .ok q.written

/-! ### Looking up and notifying -/

/-- The first entry that satisfies the test, with its index. -/
def position (q : SenderQueue) (test : SenderQueueEntry → Bool) : Option (ℕ × SenderQueueEntry) :=
  (q.entries.findIdx? test).bind fun index => (q.entries[index]?).map fun e => (index, e)

/-- The notice about the entry at an index. -/
def noticeAt (q : SenderQueue) (index now : ℕ) (reason : Option Str) : Option QueueNotice :=
  (q.entries[index]?).map fun e =>
    e.notice e.state index now (reason.or e.reason)
      (if e.state = .fallbackPending then e.fallbackDispatchToken else none)

/-- Replaces the entry at an index. -/
def setEntry (q : SenderQueue) (index : ℕ) (e : SenderQueueEntry) : SenderQueue :=
  { q with entries := q.entries.set index e }

/-- Removes the entry at an index. -/
def removeEntry (q : SenderQueue) (index : ℕ) : SenderQueue := { q with entries := q.entries.eraseIdx index }

/-! ### Queueing and capturing -/

/-- Enqueues a new handoff. -/
def enqueue (q : SenderQueue) (uuid : Uuid) (receiverRole receiverName : Str) (now : ℕ) :
    Option QueueNotice × SenderQueue :=
  if q.blocked.isSome = true then (none, q)
  else if q.maxEntries ≤ q.entries.length then (none, q)
  else if receiverRole = [] ∨ receiverName = [] ∨ 128 < byteLen receiverName then (none, q)
  else
    let e := SenderQueueEntry.new uuid receiverRole receiverName now (satAdd64 now q.ttlSecs)
    let q' := { q with entries := q.entries ++ [e] }
    (q'.noticeAt (q'.entries.length - 1) now none, q')

/-- The head is armed, with the message id and the receiver of the authorization. -/
def markArmed (q : SenderQueue) (messageId receiverSessionId : Option Str) (now : ℕ) :
    Option QueueNotice × SenderQueue :=
  match q.entries.head? with
  | none => (none, q)
  | some head =>
    if head.state ≠ .pending then (none, q)
    else
      let q' := q.setEntry 0 (head.arm messageId receiverSessionId)
      (q'.noticeAt 0 now none, q')

/-- The head advanced to `published` or `admitted`. -/
def markProgressed (q : SenderQueue) (state : SenderQueueState) (messageId : Str) (now : ℕ) :
    Option QueueNotice × SenderQueue :=
  match q.entries.head? with
  | none => (none, q)
  | some head =>
    if head.state.isTerminal = true then (none, q)
    else if ¬ (state = .published ∨ state = .admitted) then (none, q)
    -- an admission is final; any other state of the head is overwritten
    else if head.state = .admitted then (none, q)
    else
      let q' := q.setEntry 0 (head.progress state messageId)
      (q'.noticeAt 0 now none, q')

/-- The entry that `markFallback` demotes: the named one, or a head that is not in flight. -/
def fallbackTarget (q : SenderQueue) : Option Str → Option (ℕ × SenderQueueEntry)
  | some id => q.position fun e => e.queueId = id && !e.state.isTerminal
  | none =>
    match q.entries.head? with
    | none => none
    | some head => if head.state.isInFlight = true then none else some (0, head)

/-- Demotes the head or the named entry to `fallbackPending`. -/
def markFallback (q : SenderQueue) (queueId : Option Str) (reason : Str) (token : Uuid) (now : ℕ) :
    Option QueueNotice × SenderQueue :=
  match q.fallbackTarget queueId with
  | none => (none, q)
  | some (index, e) =>
    -- an exhausted source is no capture failure: the attempt is not counted
    let e' := e.fallBack (boundedReason reason) (reason ≠ sourceBusyExhaustedReason) token
    (some (e'.notice .fallbackPending index now e'.reason e'.fallbackDispatchToken), q.setEntry index e')

/-- A consumption or failure of one of the messages in flight. -/
def recordDeliveryEvent (q : SenderQueue) (messageId : Str) (consumed : Bool)
    (receiptSha256 : Option Str) (token : Uuid) (now : ℕ) : List QueueNotice × SenderQueue :=
  match q.position fun e => e.messageId = some messageId && e.state.isInFlight with
  | none => ([], q)
  | some (index, e) =>
    if consumed = true ∧ receiptSha256.isSome = true then
      ([e.notice .completed index now none none], q.removeEntry index)
    else if consumed = true then
      ([e.doubt.notice .uncertain index now e.doubt.reason none], q.setEntry index e.doubt)
    else
      let e' := e.fallBack "receiver_outcome_unconsumed" true token
      ([e'.notice .fallbackPending index now e'.reason e'.fallbackDispatchToken], q.setEntry index e')

/-- The receiver refused the published capture as busy. -/
def recordReceiverBusy (q : SenderQueue) (messageId : Str) (token : Uuid) (now : ℕ) : List QueueNotice × SenderQueue :=
  match q.position fun e => e.messageId = some messageId && e.state.isInFlight with
  | none => ([], q)
  | some (index, e) =>
    if receiverBusyMaxRetries ≤ e.busyRetries then
      let (notice, q') := q.markFallback (some e.queueId) "receiver_busy_exhausted" token now
      (notice.toList, q')
    else
      let notBefore := satAdd64 now (receiverBusyBackoffSecs (satAdd32 e.busyRetries 1))
      let q' := q.setEntry index (e.retry receiverBusyRetryReason notBefore)
      ((q'.noticeAt index now none).toList, q')

/-- The server refused the armed capture of the head as busy. -/
def recordSourceBusy (q : SenderQueue) (retryAfterSecs : Option ℕ) (refusedAt : ℕ) (token : Uuid)
    (now : ℕ) : Option QueueNotice × SenderQueue :=
  match q.entries.head? with
  | none => (none, q)
  | some head =>
    if head.state ≠ .armed then (none, q)
    else if receiverBusyMaxRetries ≤ head.busyRetries then
      q.markFallback (some head.queueId) sourceBusyExhaustedReason token now
    else
      let notBefore := sourceBusyNotBefore retryAfterSecs refusedAt now (satAdd32 head.busyRetries 1)
      let q' := q.setEntry 0 (head.retry sourceBusyRetryReason notBefore)
      (q'.noticeAt 0 now none, q')

/-- Policy stopped the armed capture of the head. -/
def capturePolicyDenied (q : SenderQueue) (now : ℕ) : Option QueueNotice × SenderQueue :=
  match q.entries.head? with
  | none => (none, q)
  | some head =>
    if head.state ≠ .armed then (none, q)
    else
      let q' := q.setEntry 0 head.release
      (q'.noticeAt 0 now (some "capture_policy_denied"), q')

/-- The armed capture of the head failed. -/
def captureFailed (q : SenderQueue) (terminal : Bool) (reason : Str) (token : Uuid) (now : ℕ) :
    Option QueueNotice × SenderQueue :=
  match q.entries.head? with
  | none => (none, q)
  | some head =>
    if head.state ≠ .armed then (none, q)
    else
      let counted := { head with attempts := satAdd32 head.attempts 1 }
      if terminal = true then
        (q.setEntry 0 counted).markFallback (some head.queueId) reason token now
      else
        let q' := q.setEntry 0 counted.release
        (q'.noticeAt 0 now (some (boundedReason reason)), q')

/-! ### Leaving the queue -/

/-- The manual resolution of an uncertain entry. -/
def resolveUncertain (q : SenderQueue) (queueId : Str) (reemit : Bool) (token : Uuid) (now : ℕ) :
    Except Str (Option QueueNotice) × SenderQueue :=
  match q.position fun e => e.queueId = queueId with
  | none => (.error "unknown queue id", q)
  | some (index, e) =>
    if e.state ≠ .uncertain then (.error "entry is not uncertain", q)
    else if reemit = true then
      let e' := e.fallBack "manual_reemit" false token
      (.ok (some (e'.notice .fallbackPending index now e'.reason e'.fallbackDispatchToken)), q.setEntry index e')
    else
      (.ok (some { e.notice .failed index now (some "manual_cancel") none with position := 0 }), q.removeEntry index)

/-- Acknowledges the ordinary message of an entry that fell back. -/
def acknowledgeFallback (q : SenderQueue) (queueId : Str) (dispatchToken : Option Str) (now : ℕ) :
    Option QueueNotice × SenderQueue :=
  match q.position fun e => e.queueId = queueId && e.state = .fallbackPending &&
      e.fallbackDispatchToken.isSome && dispatchToken.isSome &&
      dispatchToken = e.fallbackDispatchToken with
  | none => (none, q)
  | some (index, e) => (some (e.notice .fallback index now e.reason none), q.removeEntry index)

/-- Pops a terminal head. -/
def popTerminalHead (q : SenderQueue) : Option SenderQueueEntry × SenderQueue :=
  match q.entries.head? with
  | none => (none, q)
  | some head => if head.state.isTerminal = true then (some head, q.removeEntry 0) else (none, q)

/-- The loop of `sweepExpired`: the index does not move past an entry that is removed. -/
def sweepLoop (now : ℕ) : ℕ → List SenderQueueEntry → List QueueNotice × List SenderQueueEntry
  | _, [] => ([], [])
  | index, e :: rest =>
    if e.droppable now = true then
      (e.expiredNotice index now :: (sweepLoop now index rest).1, (sweepLoop now index rest).2)
    else ((sweepLoop now (index + 1) rest).1, e :: (sweepLoop now (index + 1) rest).2)

/-- Drops the expired entries that wait. -/
def sweepExpired (q : SenderQueue) (now : ℕ) : List QueueNotice × SenderQueue :=
  ((sweepLoop now 0 q.entries).1, { q with entries := (sweepLoop now 0 q.entries).2 })

/-- The owner session was deleted: everything is dropped without a notice. -/
def retireAllSilently (q : SenderQueue) : (ℕ × ℕ) × SenderQueue :=
  ((q.entries.length, q.outbox.length), { q with entries := [], outbox := [], outboxOverflow := false })

/-! ### The outbox -/

/-- Records one notice in the durable outbox. -/
def outboxRecord (q : SenderQueue) (uuid : Uuid) (notice : QueueNotice) : Option DurableQueueNotice × SenderQueue :=
  if outboxCap ≤ q.outbox.length then (none, { q with outboxOverflow := true })
  else
    let record : DurableQueueNotice :=
      { noticeId := uuid.noticeId
        queueId := notice.queueId
        messageId := notice.messageId
        receiver := notice.receiver
        state := notice.state
        attempts := notice.attempts
        position := notice.position
        reason := notice.reason
        refusal := notice.refusal
        timestamp := notice.timestamp
        transcriptDone := false
        parentDone := false }
    (some record, { q with outbox := q.outbox ++ [record] })

/-- A delivery of a record that can be acknowledged. -/
inductive Ack where
  | transcript
  | parent
  deriving DecidableEq

/-- Marks one delivery of a record; the record goes when both are done. -/
def outboxAck (q : SenderQueue) (noticeId : Str) (ack : Ack) : Option DurableQueueNotice × SenderQueue :=
  match q.outbox.findIdx? fun record => record.noticeId = noticeId with
  | none => (none, q)
  | some index =>
    match q.outbox[index]? with
    | none => (none, q)
    | some record =>
      let record' :=
        match ack with
        | .transcript => { record with transcriptDone := true }
        | .parent => { record with parentDone := true }
      if record'.transcriptDone = true ∧ record'.parentDone = true then
        let outbox := q.outbox.eraseIdx index
        (none, { q with
          outbox := outbox
          outboxOverflow := if outbox.length < outboxCap then false else q.outboxOverflow })
      else (some record', { q with outbox := q.outbox.set index record' })

end SenderQueue

end Occ3
