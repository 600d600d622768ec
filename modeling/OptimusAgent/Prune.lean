/-
**Suppression of redundant messages.**

A `Pruner` sits before the delivery of agent messages.  It keeps digests of what it delivered, a
bounded number of messages back, and suppresses a message whose content was delivered before.
`classify` first asks whether the message must be delivered in any case, and then has one
suppression rule for each of three kinds.  The rule for `EVIDENCE` messages looks at the evidence
alone: a finding that such a message carries is suppressed with it.
-/

import OptimusAgent.Contract

namespace Occ

open Str List
open Host (sha256Hex)

variable {R : Type}

/-! ### Digests -/

/-- A statement without surrounding blanks, with single spaces, in lower case. -/
def normalizedStatement (statement : Str) : Str := (intercalate [' '] (splitWhitespace statement)).map Char.toLower

/-- The status of the verification that the message carries for this finding. -/
def findingVerificationStatus (m : AgentCommMessage R) (f : Finding R) : Option Str :=
  match m.verification with
  | none => none
  | some record =>
    if normalizedStatement record.claim = normalizedStatement f.statement then some record.status
    else none

/-- The text that is hashed for an evidence entry. -/
def evidenceText (e : EvidenceRef) : Str := e.kind ++ '\x00' :: (e.locator ++ '\x00' :: e.digest.getD [])

/-- The digest of a finding statement. -/
def findingDigest [Host] (statement : Str) : Str := sha256Hex (normalizedStatement statement)

/-- The digest of an evidence entry. -/
def evidenceDigest [Host] (e : EvidenceRef) : Str := sha256Hex (evidenceText e)

/-! ### The pruner -/

/-- Suppression switches and history size. -/
structure PrunePolicy where
  suppressDuplicateFindings : Bool
  suppressUnchangedProgress : Bool
  suppressRepeatedEvidence : Bool
  /-- The number of delivered messages that are remembered. -/
  maxHistory : ℕ

/-- The default policy. -/
def PrunePolicy.default : PrunePolicy := ⟨true, true, true, 64⟩

/-- Why a message was suppressed. -/
inductive PruneReason where
  | duplicateFindings
  | unchangedProgress
  | repeatedEvidence
  deriving DecidableEq

/-- One classification outcome. -/
inductive PruneDecision where
  | deliver
  | suppress (reason : PruneReason)
  deriving DecidableEq

/-- Summary of one delivered message. -/
structure DeliveryRecord where
  messageId : Option Str
  taskId : Str
  kind : Str
  status : Str
  sequence : Option U64
  findingDigests : List Str
  evidenceDigests : List Str
  verification : Option Verification
  deriving DecidableEq

/-- A record with the statements of the findings and their verification statuses. -/
structure HistoryEntry where
  record : DeliveryRecord
  findingStatuses : List (Str × Option Str)
  deriving DecidableEq

/-- The suppressor, with the entries of the delivered messages, oldest first. -/
structure Pruner where
  policy : PrunePolicy
  history : List HistoryEntry

/-- The items without those that occurred before. -/
def dedupInOrder (items : List Str) : List Str :=
  items.foldl (fun out item => if item ∈ out then out else out ++ [item]) []

namespace Pruner

/-- A pruner that has delivered nothing. -/
def new (policy : PrunePolicy) : Pruner := ⟨policy, []⟩

/-- The entries of a task. -/
def entriesOf (p : Pruner) (taskId : Str) : List HistoryEntry :=
  p.history.filter fun entry => entry.record.taskId = taskId

def seenFindingDigests (p : Pruner) (taskId : Str) : List Str :=
  (p.entriesOf taskId).flatMap fun entry => entry.record.findingDigests

def seenEvidenceDigests (p : Pruner) (taskId : Str) : List Str :=
  (p.entriesOf taskId).flatMap fun entry => entry.record.evidenceDigests

def seenTaskIds (p : Pruner) : List Str := p.history.map fun entry => entry.record.taskId

/-- The record of the task that was delivered last. -/
def lastDelivered (p : Pruner) (taskId : Str) : Option DeliveryRecord :=
  (p.history.reverse.find? fun entry => entry.record.taskId = taskId).map HistoryEntry.record

/-- The statements delivered for a task with their verification statuses. -/
def statementStatuses (p : Pruner) (taskId : Str) : List (Str × Option Str) :=
  (p.entriesOf taskId).flatMap HistoryEntry.findingStatuses

/-- Whether the verification record differs from the one that was delivered last for the task. -/
def verificationChanged (p : Pruner) (taskId : Str) (record : Verification) : Bool :=
  match (p.lastDelivered taskId).bind DeliveryRecord.verification with
  | none => true
  | some previous =>
    normalizedStatement previous.claim ≠ normalizedStatement record.claim ||
      previous.status ≠ record.status || previous.method ≠ record.method ||
      previous.receipt ≠ record.receipt

/-- Whether a finding was delivered with another verification status. -/
def contradicts (p : Pruner) (m : AgentCommMessage R) (f : Finding R) : Bool :=
  (p.statementStatuses m.taskId).any fun (statement, status) =>
    statement = normalizedStatement f.statement ∧ status ≠ findingVerificationStatus m f

/-- The safety rules: these messages are never suppressed. -/
def mustDeliver (p : Pruner) (m : AgentCommMessage R) : Bool :=
  m.kind ∈ (["BLOCKED", "CANCELLED", "CORRECTION", "ACK"] : List Str) || m.status = "failed" ||
    (m.nextActions ≠ [] || m.artifacts ≠ []) ||
    m.verification.any (p.verificationChanged m.taskId) ||
    m.verification.any (fun record => record.status = ("fail" : Str)) ||
    m.findings.any (p.contradicts m) ||
    m.dependencies.any (fun dependency => dependency ∉ p.seenTaskIds) ||
    m.taskId ∉ p.seenTaskIds

/-- Whether the message delivered last for the task had the same status. -/
def statusUnchanged (p : Pruner) (m : AgentCommMessage R) : Bool :=
  (p.lastDelivered m.taskId).any fun record => record.status = m.status

variable [Host]

/-- What is remembered of a delivered message. -/
def entry (m : AgentCommMessage R) : HistoryEntry where
  record :=
    { messageId := m.messageId
      taskId := m.taskId
      kind := m.kind
      status := m.status
      sequence := m.sequence
      findingDigests := dedupInOrder (m.findings.map fun f => findingDigest f.statement)
      evidenceDigests := dedupInOrder (m.evidence.map evidenceDigest)
      verification := m.verification }
  findingStatuses := m.findings.map fun f => (normalizedStatement f.statement, findingVerificationStatus m f)

/-- Remembers a delivered message, and forgets the oldest ones beyond the bound. -/
def record (p : Pruner) (m : AgentCommMessage R) : Pruner :=
  { p with history := (p.history ++ [entry m]).rtake p.policy.maxHistory }

/-- Whether every finding of the message was delivered for the task. -/
def findingsAllSeen (p : Pruner) (m : AgentCommMessage R) : Bool :=
  m.findings.all fun f => findingDigest f.statement ∈ p.seenFindingDigests m.taskId

/-- Whether every evidence entry of the message was delivered for the task. -/
def noNewEvidence (p : Pruner) (m : AgentCommMessage R) : Bool :=
  m.evidence.all fun e => evidenceDigest e ∈ p.seenEvidenceDigests m.taskId

/-- Classifies one outgoing message. -/
def classify (p : Pruner) (m : AgentCommMessage R) : PruneDecision × Pruner :=
  if p.mustDeliver m = true then (.deliver, p.record m)
  else if m.kind = "PROGRESS" ∧ p.policy.suppressUnchangedProgress = true ∧
      p.findingsAllSeen m = true ∧ p.noNewEvidence m = true ∧ p.statusUnchanged m = true then
    (.suppress .unchangedProgress, p)
  else if m.kind = "RESULT" ∧ p.policy.suppressDuplicateFindings = true ∧
      p.findingsAllSeen m = true ∧ p.noNewEvidence m = true then
    (.suppress .duplicateFindings, p)
  -- the findings of an EVIDENCE message are not looked at
  else if m.kind = "EVIDENCE" ∧ p.policy.suppressRepeatedEvidence = true ∧
      p.noNewEvidence m = true then
    (.suppress .repeatedEvidence, p)
  else (.deliver, p.record m)

/-! ### What the history holds -/

omit [Host] in
theorem mem_dedupInOrder {item : Str} {items : List Str} : item ∈ dedupInOrder items ↔ item ∈ items := by
  have hfold : ∀ (items out : List Str),
      item ∈ items.foldl (fun out item => if item ∈ out then out else out ++ [item]) out ↔
        item ∈ out ∨ item ∈ items := by
    intro items
    induction items with
    | nil => simp
    | cons x items ih =>
      intro out
      rw [foldl_cons, ih]
      split_ifs with hx
      · simp only [mem_cons]
        constructor
        · rintro (h | h)
          · exact .inl h
          · exact .inr (.inr h)
        · rintro (h | rfl | h)
          · exact .inl h
          · exact .inl hx
          · exact .inr h
      · simp [or_assoc]
  rw [dedupInOrder, hfold]
  simp

/-- A sequence of classifications: the messages delivered, in order, and the pruner at the end. -/
def run (p : Pruner) : List (AgentCommMessage R) → List (AgentCommMessage R) × Pruner
  | [] => ([], p)
  | m :: ms =>
    match p.classify m with
    | (.deliver, q) => (m :: (q.run ms).1, (q.run ms).2)
    | (.suppress _, q) => q.run ms

/-- Only delivered messages are remembered. -/
theorem classify_cases (p : Pruner) (m : AgentCommMessage R) :
    p.classify m = (.deliver, p.record m) ∨ ∃ reason, p.classify m = (.suppress reason, p) := by
  unfold classify
  split_ifs
  · exact .inl rfl
  · exact .inr ⟨_, rfl⟩
  · exact .inr ⟨_, rfl⟩
  · exact .inr ⟨_, rfl⟩
  · exact .inl rfl

omit [Host] in
/-- Forgetting early or late leaves the same last elements. -/
theorem rtake_rtake_append {α : Type} (n : ℕ) (l : List α) (x : α) :
    (l.rtake n ++ [x]).rtake n = (l ++ [x]).rtake n := by
  cases n with
  | zero => simp
  | succ n =>
    rw [rtake_concat_succ, rtake_concat_succ, rtake_eq_reverse_take_reverse,
      rtake_eq_reverse_take_reverse, reverse_reverse, take_take,
      rtake_eq_reverse_take_reverse, Nat.min_eq_left (Nat.le_succ n)]

variable {p : Pruner} {m : AgentCommMessage R}

theorem history_run_of {past : List (AgentCommMessage R)}
    (h : p.history = (past.map entry).rtake p.policy.maxHistory)
    (ms : List (AgentCommMessage R)) :
    (p.run ms).2.history = ((past ++ (p.run ms).1).map entry).rtake p.policy.maxHistory ∧
      (p.run ms).2.policy = p.policy := by
  induction ms generalizing p past with
  | nil => simpa [run] using h
  | cons m ms ih =>
    rcases p.classify_cases m with hclass | ⟨reason, hclass⟩
    · have hrecord : (p.record m).history = ((past ++ [m]).map entry).rtake (p.record m).policy.maxHistory := by
        rw [record, h, rtake_rtake_append, map_append, map_singleton]
      obtain ⟨hhistory, hpolicy⟩ := ih hrecord
      rw [run, hclass]
      exact ⟨by rw [hhistory, append_assoc, singleton_append, record], hpolicy⟩
    · rw [run, hclass]
      exact ih h

/-- The history holds the records of the messages that were delivered last. -/
theorem history_run (policy : PrunePolicy) (ms : List (AgentCommMessage R)) :
    ((new policy).run ms).2.history = (((new policy).run ms).1.rtake policy.maxHistory).map entry := by
  have hnew : (new policy).history = (([] : List (AgentCommMessage R)).map entry).rtake policy.maxHistory := by
    simp [new]
  rw [(history_run_of hnew ms).1, nil_append, rtake, rtake, map_drop, length_map]
  rfl

theorem mem_of_mem_run {ms : List (AgentCommMessage R)} (h : m ∈ (p.run ms).1) : m ∈ ms := by
  induction ms generalizing p with
  | nil => exact h
  | cons x ms ih =>
    rcases p.classify_cases x with hclass | ⟨reason, hclass⟩
    · rw [run, hclass] at h
      rcases mem_cons.1 h with rfl | h
      · exact mem_cons_self ..
      · exact mem_cons_of_mem _ (ih h)
    · rw [run, hclass] at h
      exact mem_cons_of_mem _ (ih h)

/-! ### Suppression loses nothing -/

omit [Host] in
theorem not_mustDeliver (h : ¬ p.mustDeliver m = true) :
    m.kind ∉ (["BLOCKED", "CANCELLED", "CORRECTION", "ACK"] : List Str) ∧ m.status ≠ "failed" ∧
      m.nextActions = [] ∧ m.artifacts = [] := by
  simp only [mustDeliver, Bool.or_eq_true, not_or, decide_eq_true_eq, not_not] at h
  obtain ⟨⟨⟨⟨⟨⟨⟨hkind, hstatus⟩, hnext, hartifacts⟩, _⟩, _⟩, _⟩, _⟩, _⟩ := h
  exact ⟨hkind, hstatus, hnext, hartifacts⟩

/-- What a suppression checked: the safety rules, the evidence, and the findings unless the message
is of kind `EVIDENCE`. -/
theorem of_suppress {reason : PruneReason} (h : (p.classify m).1 = .suppress reason) :
    ¬ p.mustDeliver m = true ∧ p.noNewEvidence m = true ∧ (m.kind = "EVIDENCE" ∨ p.findingsAllSeen m = true) := by
  unfold classify at h
  split_ifs at h with hmust hprogress hresult hevidence
  · exact ⟨hmust, hprogress.2.2.2.1, .inr hprogress.2.2.1⟩
  · exact ⟨hmust, hresult.2.2.2, .inr hresult.2.2.1⟩
  · exact ⟨hmust, hevidence.2.2, .inl hevidence.1⟩

end Pruner

/-- Every finding statement, normalized, and every evidence entry of the message occurs in one of
the given messages of the same task. -/
structure Covered (delivered : List (AgentCommMessage R)) (m : AgentCommMessage R) : Prop where
  findings : ∀ f ∈ m.findings, ∃ m' ∈ delivered, m'.taskId = m.taskId ∧
    ∃ f' ∈ m'.findings, normalizedStatement f'.statement = normalizedStatement f.statement
  evidence : ∀ e ∈ m.evidence, ∃ m' ∈ delivered, m'.taskId = m.taskId ∧
    ∃ e' ∈ m'.evidence, e'.kind = e.kind ∧ e'.locator = e.locator ∧ e'.digest = e.digest

/-- The hashed text determines the kind, the locator and the digest of the entry: the first two are
free of the separator, and a digest that is there is not empty. -/
structure Separable (e : EvidenceRef) : Prop where
  kind : '\x00' ∉ e.kind
  locator : '\x00' ∉ e.locator
  digest : e.digest ≠ some []

theorem evidenceText_inj {e e' : EvidenceRef} (he : Separable e) (he' : Separable e')
    (h : evidenceText e = evidenceText e') :
    e.kind = e'.kind ∧ e.locator = e'.locator ∧ e.digest = e'.digest := by
  have hkind := congrArg (splitOnce '\x00') h
  rw [evidenceText, evidenceText, splitOnce_append _ he.kind, splitOnce_append _ he'.kind,
    Option.some.injEq, Prod.mk.injEq] at hkind
  have hlocator := congrArg (splitOnce '\x00') hkind.2
  rw [splitOnce_append _ he.locator, splitOnce_append _ he'.locator, Option.some.injEq, Prod.mk.injEq] at hlocator
  refine ⟨hkind.1, hlocator.1, ?_⟩
  have hdigest := hlocator.2
  have h₁ := he.digest
  have h₂ := he'.digest
  cases hd : e.digest with
  | none | some d => cases hd' : e'.digest <;> simp_all

/-- The texts that are hashed for the messages. -/
def digestedTexts (ms : List (AgentCommMessage R)) : List Str :=
  ms.flatMap fun m => (m.findings.map fun f => normalizedStatement f.statement) ++ m.evidence.map evidenceText

theorem normalizedStatement_mem_digestedTexts {ms : List (AgentCommMessage R)}
    {m : AgentCommMessage R} {f : Finding R} (hm : m ∈ ms) (hf : f ∈ m.findings) :
    normalizedStatement f.statement ∈ digestedTexts ms :=
  mem_flatMap.2 ⟨m, hm, mem_append_left _ (mem_map_of_mem hf)⟩

theorem evidenceText_mem_digestedTexts {ms : List (AgentCommMessage R)}
    {m : AgentCommMessage R} {e : EvidenceRef} (hm : m ∈ ms) (he : e ∈ m.evidence) :
    evidenceText e ∈ digestedTexts ms :=
  mem_flatMap.2 ⟨m, hm, mem_append_right _ (mem_map_of_mem he)⟩

namespace Pruner

section

variable [Host] {delivered : List (AgentCommMessage R)} {p : Pruner} {taskId digest : Str}

/-- A digest that the pruner has seen belongs to a finding of a remembered message. -/
theorem exists_finding (h : p.history = delivered.map entry) (hseen : digest ∈ p.seenFindingDigests taskId) :
    ∃ m' ∈ delivered, m'.taskId = taskId ∧ ∃ f' ∈ m'.findings, findingDigest f'.statement = digest := by
  obtain ⟨e, he, hdigest⟩ := mem_flatMap.1 hseen
  obtain ⟨he, htask⟩ := mem_filter.1 he
  obtain ⟨m', hm', rfl⟩ := mem_map.1 (h ▸ he)
  obtain ⟨f', hf', heq⟩ := mem_map.1 (mem_dedupInOrder.1 hdigest)
  exact ⟨m', hm', of_decide_eq_true htask, f', hf', heq⟩

/-- A digest that the pruner has seen belongs to an evidence entry of a remembered message. -/
theorem exists_evidence (h : p.history = delivered.map entry) (hseen : digest ∈ p.seenEvidenceDigests taskId) :
    ∃ m' ∈ delivered, m'.taskId = taskId ∧ ∃ e' ∈ m'.evidence, evidenceDigest e' = digest := by
  obtain ⟨e, he, hdigest⟩ := mem_flatMap.1 hseen
  obtain ⟨he, htask⟩ := mem_filter.1 he
  obtain ⟨m', hm', rfl⟩ := mem_map.1 (h ▸ he)
  obtain ⟨e', he', heq⟩ := mem_map.1 (mem_dedupInOrder.1 hdigest)
  exact ⟨m', hm', of_decide_eq_true htask, e', he', heq⟩

/-- What a run suppresses was delivered before and is still remembered, provided that `EVIDENCE`
messages carry no findings, that the hashed texts separate their parts, and that no two of the
hashed texts collide. -/
theorem suppressed_covered (policy : PrunePolicy) (ms : List (AgentCommMessage R))
    (m : AgentCommMessage R) (reason : PruneReason)
    (hsuppress : (((new policy).run ms).2.classify m).1 = .suppress reason)
    (hkind : m.kind = "EVIDENCE" → m.findings = [])
    (hseparable : ∀ x ∈ m :: ms, ∀ e ∈ x.evidence, Separable e)
    (hinjective : Set.InjOn sha256Hex {s | s ∈ digestedTexts (m :: ms)}) :
    Covered (((new policy).run ms).1.rtake policy.maxHistory) m ∧ m.nextActions = [] ∧ m.artifacts = [] ∧
      m.kind ∉ (["BLOCKED", "CANCELLED", "CORRECTION", "ACK"] : List Str) ∧
      m.status ≠ "failed" := by
  obtain ⟨hmust, hevidence, hfindings⟩ := of_suppress hsuppress
  obtain ⟨hkinds, hstatus, hnext, hartifacts⟩ := not_mustDeliver hmust
  have hhistory := history_run policy ms
  -- what is remembered was classified in the run
  have hmem : ∀ m' ∈ ((new policy).run ms).1.rtake policy.maxHistory, m' ∈ m :: ms :=
    fun m' hm' => mem_cons_of_mem _ (mem_of_mem_run (drop_subset _ _ hm'))
  refine ⟨⟨fun f hf => ?_, fun e he => ?_⟩, hnext, hartifacts, hkinds, hstatus⟩
  · have hseen : ((new policy).run ms).2.findingsAllSeen m = true := by
      rcases hfindings with hev | hseen
      · rw [hkind hev] at hf
        cases hf
      · exact hseen
    obtain ⟨m', hm', htask, f', hf', heq⟩ := exists_finding hhistory (by simpa using all_eq_true.1 hseen f hf)
    exact ⟨m', hm', htask, f', hf', hinjective (normalizedStatement_mem_digestedTexts (hmem m' hm') hf')
      (normalizedStatement_mem_digestedTexts (mem_cons_self ..) hf) heq⟩
  · obtain ⟨m', hm', htask, e', he', heq⟩ := exists_evidence hhistory (by simpa using all_eq_true.1 hevidence e he)
    have htext : evidenceText e' = evidenceText e := hinjective
      (evidenceText_mem_digestedTexts (hmem m' hm') he')
      (evidenceText_mem_digestedTexts (mem_cons_self ..) he) heq
    exact ⟨m', hm', htask, e', he', evidenceText_inj
      (hseparable m' (hmem m' hm') e' he') (hseparable m (mem_cons_self ..) e he) htext⟩

end

end Pruner

/-! ### A finding that is lost -/

namespace Digests

/-- The SHA-256 digests of the two texts that are hashed: a statement, and else the evidence. -/
scoped instance : Host where
  debugStr s := s
  isRfc3339 _ := false
  sha256Hex s :=
    if s = "the lock is never released" then
      "e991a3caa292cf1dc0cd8441f6bb4ee59453a4b67200e933f475dbb3ee47542a"
    else "30d2c754c0280f7ffc84b0a2f08afd01b06c83b6d784e92f9ab90a8d2dd4647d"

end Digests

namespace Pruner

open scoped Digests

/-- A message that points at a source file. -/
def evidenceMessage : AgentCommMessage Bool :=
  { messageId := none, taskId := "t1", parentTaskId := none, traceId := none
    senderIdentity := none, recipientIdentity := none, kind := "EVIDENCE", status := "in_progress"
    findings := [], evidence := [⟨"E1", "src", "src/lib.rs", none, none, none, none⟩]
    artifacts := [], verification := none, dependencies := [], nextActions := []
    sequence := none, protocol := agentCommProtocol, timestamp := none, expiry := none }

/-- The same evidence with a finding that was never delivered. -/
def findingMessage : AgentCommMessage Bool :=
  { evidenceMessage with findings := [⟨"F1", "the lock is never released", none, ["E1"]⟩] }

/-- The second message is suppressed, and its finding reaches nobody. -/
theorem findingMessage_lost : (((new .default).run [evidenceMessage]).2.classify findingMessage).1 =
        .suppress .repeatedEvidence ∧
      ¬ Covered (((new .default).run [evidenceMessage]).1.rtake PrunePolicy.default.maxHistory)
        findingMessage := by
  refine ⟨by decide, fun h => ?_⟩
  obtain ⟨m', hm', _, f', hf', _⟩ := h.findings _ (mem_singleton_self _)
  have hmem : m' ∈ [evidenceMessage] := mem_of_mem_run (drop_subset _ _ hm')
  rw [mem_singleton.1 hmem] at hf'
  cases hf'

theorem suppressed_covered_evidenceMessage :
    Covered (((new .default).run [evidenceMessage]).1.rtake PrunePolicy.default.maxHistory)
      evidenceMessage :=
  let texts := digestedTexts [evidenceMessage, evidenceMessage]
  have hsame : ∀ s ∈ texts, ∀ t ∈ texts, s = t := by decide
  (suppressed_covered .default [evidenceMessage] evidenceMessage .repeatedEvidence (by decide) (fun _ => rfl) (by
      intro x hx e he
      obtain rfl : x = evidenceMessage := by simpa using hx
      obtain rfl := mem_singleton.1 he
      exact ⟨by decide, by decide, by decide⟩)
    fun s hs t ht _ => hsame s hs t ht).1

end Pruner

end Occ
