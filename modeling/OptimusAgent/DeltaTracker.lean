/-
**The tracker of a delta stream.**

A delta changes the state of one task: it is rooted at a snapshot, numbered in a stream, and carries
field updates, new findings and new evidence (`core/occ/delta.rs`).

A `DeltaTracker` receives the deltas of one task in any order and decides which of them apply: it
keeps a cursor, buffers what arrives ahead of it, drops what it has seen, and refuses a delta that
patches a finding nobody introduced.  The caller learns what applied from *receipts*, which are
returned by `observe` or queued for `drain_ready`.
-/

import OptimusAgent.Contract
import OptimusAgent.OrdMap

namespace Occ

open Checked List OrdMap

variable {R : Type}

/-! ### Deltas -/

/-- A partial patch of one finding; absent fields are left unchanged. -/
@[ext]
structure FindingPatch (R : Type) where
  /-- The new statement, when changed. -/
  statement : Option Str
  /-- `some (some c)` sets the confidence, `some none` clears it. -/
  confidence : Option (Option R)
  /-- Evidence ids to attach. -/
  addEvidence : List Str
  /-- Evidence ids to detach. -/
  removeEvidence : List Str
  deriving DecidableEq

/-- The patch that changes nothing. -/
def FindingPatch.empty : FindingPatch R := ⟨none, none, [], []⟩

/-- One field update inside a delta. -/
inductive FieldUpdate (R : Type) where
  | setStatus (status : Str)
  | updateFinding (id : Str) (patch : FindingPatch R)
  | addEvidence (evidence : EvidenceRef)
  | setVerification (verification : Verification)
  deriving DecidableEq

/-- One change-only update for a task. -/
@[ext]
structure Delta (R : Type) where
  taskId : Str
  /-- The snapshot that the stream is rooted at. -/
  baseSequence : U64
  /-- The position in the stream, contiguous from the base on. -/
  sequence : U64
  updates : List (FieldUpdate R)
  newFindings : List (Finding R)
  newEvidence : List EvidenceRef
  nextActions : List Str
  reason : Option Str
  deriving DecidableEq

/-! ### The cursor -/

/-- The largest 64-bit number. -/
def maxU64 : U64 := ⟨2 ^ 64 - 1, by decide⟩

/-- The next 64-bit number, or the same one at the top: `n.saturating_add(1)`. -/
def satSucc (n : U64) : U64 := if h : n.val + 1 < 2 ^ 64 then ⟨n.val + 1, h⟩ else n

theorem satSucc_maxU64 : satSucc maxU64 = maxU64 := by decide

theorem le_maxU64 (n : U64) : n ≤ maxU64 := by
  have := n.isLt
  rw [Fin.le_def]
  simp only [maxU64]
  omega

theorem val_satSucc {n : U64} (h : n ≠ maxU64) : (satSucc n).val = n.val + 1 := by
  have hlt : n.val < 2 ^ 64 - 1 := Fin.lt_def.1 (lt_of_le_of_ne (le_maxU64 n) h)
  rw [satSucc, dif_pos (by omega)]

theorem le_satSucc (n : U64) : n ≤ satSucc n := by
  unfold satSucc
  split
  · exact Fin.le_def.2 (Nat.le_succ _)
  · exact le_rfl

/-- Nothing lies between a number and the next one. -/
theorem satSucc_le_of_lt {n k : U64} (h : n < k) : satSucc n ≤ k := by
  have hne : n ≠ maxU64 := fun heq => absurd (le_maxU64 k) (not_le.2 (heq ▸ h))
  rw [Fin.le_def, val_satSucc hne]
  exact Fin.lt_def.1 h

theorem lt_satSucc_iff {n k : U64} (h : n ≠ maxU64) : k < satSucc n ↔ k ≤ n := by
  rw [Fin.lt_def, Fin.le_def, val_satSucc h, Nat.lt_succ_iff]

/-! ### The tracker -/

/-- Why a delta does not fit the state of the stream. -/
inductive DeltaError where
  | wrongTask (expected got : Str)
  | duplicate (sequence : U64)
  | gap (expected got : U64)
  | staleBase (base gotBase : U64)
  | unknownFinding (id : Str)
  | unknownEvidence (id : Str)
  | baseUnavailable
  deriving DecidableEq

/-- What happened to one observed delta. -/
structure DeltaReceipt where
  /-- False when the delta was buffered for a gap. -/
  applied : Bool
  /-- True when the delta was (or is) buffered for a gap. -/
  buffered : Bool
  sequence : U64
  deriving DecidableEq

/-- Maximum number of deltas held buffered while a gap is unfilled. -/
def deltaBufferCap : ℕ := 1024

/-- Upper bound on how many missing sequences are reported. -/
def deltaMissingReportCap : ℕ := 1024

/-- Tracks the delta stream of one task. -/
structure DeltaTracker (R : Type) where
  taskId : Str
  baseSequence : U64
  /-- The sequence of the delta that applies next. -/
  nextSequence : U64
  /-- Deltas that arrived ahead of the cursor. -/
  buffered : OrdMap U64 (Delta R)
  /-- The finding ids that a patch may name. -/
  knownFindings : OrdMap Str Unit
  /-- Set once a delta with another base was observed. -/
  stale : Bool
  /-- Receipts that were not collected yet. -/
  pending : List DeltaReceipt

/-- The ids of the findings that a delta introduces. -/
def Delta.findingIds (d : Delta R) : List Str := d.newFindings.map Finding.id

namespace DeltaTracker

/-- `DeltaTracker::new`. -/
def new (taskId : Str) (baseSequence : U64) : DeltaTracker R where
  taskId := taskId
  baseSequence := baseSequence
  nextSequence := satSucc baseSequence
  buffered := empty
  knownFindings := empty
  stale := false
  pending := []

/-- Finding ids that predate the stream. -/
def seedFindings (t : DeltaTracker R) (ids : List Str) : DeltaTracker R :=
  { t with knownFindings := t.knownFindings.insertAll ids }

/-- The state after the delta at the cursor was committed. -/
def advance (t : DeltaTracker R) (d : Delta R) : DeltaTracker R :=
  { t with
    nextSequence := satSucc t.nextSequence
    knownFindings := t.knownFindings.insertAll d.findingIds }

/-- The check of one update of the delta `d`: a patched finding must exist. -/
def checkUpdate (t : DeltaTracker R) (d : Delta R) : FieldUpdate R → Except DeltaError Unit
  | .updateFinding id _ =>
    rejectIf (¬ (t.knownFindings.contains id = true ∨ id ∈ d.findingIds)) (.unknownFinding id)
  | _ => pure ()

/-- Validates and commits one delta at the cursor. -/
def apply (t : DeltaTracker R) (d : Delta R) : Except DeltaError (DeltaTracker R) := do
  forM d.updates (t.checkUpdate d)
  pure (t.advance d)

/-- The state without the buffered delta at the cursor. -/
def takeNext (t : DeltaTracker R) : DeltaTracker R := { t with buffered := t.buffered.erase t.nextSequence }

/-- Queues a receipt. -/
def push (t : DeltaTracker R) (receipt : DeltaReceipt) : DeltaTracker R :=
  { t with pending := t.pending ++ [receipt] }

/-- At most `fuel` rounds of the loop of `drain`. -/
def drainLoop : ℕ → DeltaTracker R → Except DeltaError Unit × DeltaTracker R
  | 0, t => (.ok (), t)
  | fuel + 1, t =>
    match t.buffered.get? t.nextSequence with
    | none => (.ok (), t)
    | some d =>
      match t.takeNext.apply d with
      | .ok u => drainLoop fuel (u.push ⟨true, true, d.sequence⟩)
      -- the failed delta stays out of the buffer
      | .error e => (.error e, t.takeNext)

/-- Applies the buffered deltas that became contiguous.  Every round removes an entry, so the size
of the buffer bounds the number of rounds. -/
def drain (t : DeltaTracker R) : Except DeltaError Unit × DeltaTracker R := drainLoop t.buffered.size t

/-- Records one delta. -/
def observe (t : DeltaTracker R) (d : Delta R) : Except DeltaError DeltaReceipt × DeltaTracker R :=
  if d.taskId ≠ t.taskId then
    (.error (.wrongTask t.taskId d.taskId), t)
  else if t.stale = true then
    (.error .baseUnavailable, t)
  else if d.baseSequence ≠ t.baseSequence then
    (.error (.staleBase t.baseSequence d.baseSequence), { t with stale := true })
  else if d.sequence < t.nextSequence ∨ t.buffered.contains d.sequence = true then
    (.error (.duplicate d.sequence), t)
  else if t.nextSequence < d.sequence then
    if deltaBufferCap ≤ t.buffered.size then
      (.error .baseUnavailable, t)
    else
      (.error (.gap t.nextSequence d.sequence),
        { t with buffered := t.buffered.insert d.sequence d }.push ⟨false, true, d.sequence⟩)
  else
    match t.apply d with
    | .error e => (.error e, t)
    | .ok u =>
      match u.drain with
      | (.ok (), u') => (.ok ⟨true, false, d.sequence⟩, u')
      -- the observed delta applied: its receipt is queued, and the failure is reported instead
      | (.error e, u') => (.error e, u'.push ⟨true, false, d.sequence⟩)

/-- Returns and clears the queued receipts. -/
def drainReady (t : DeltaTracker R) : List DeltaReceipt × DeltaTracker R := (t.pending, { t with pending := [] })

/-- The loop of `missingSequences`. -/
def missingLoop (t : DeltaTracker R) (highest sequence : U64) (missing : List U64) : List U64 :=
  if _h : sequence < highest ∧ missing.length < deltaMissingReportCap then
    t.missingLoop highest (satSucc sequence)
      (if t.buffered.contains sequence = true then missing else missing ++ [sequence])
  else missing
termination_by highest.val - sequence.val
decreasing_by
  have hne : sequence ≠ maxU64 := fun heq => absurd (le_maxU64 highest) (not_le.2 (heq ▸ _h.1))
  have hlt : sequence.val < highest.val := _h.1
  rw [val_satSucc hne]
  omega

/-- The sequences below the highest buffered one that are neither applied nor buffered. -/
def missingSequences (t : DeltaTracker R) : List U64 :=
  match t.buffered.keys.getLast? with
  | none => []
  | some highest => t.missingLoop highest t.nextSequence []

/-- Whether a gap remains or the tracker is stale. -/
def needsFullSnapshot (t : DeltaTracker R) : Bool := t.stale || !t.missingSequences.isEmpty

end DeltaTracker

/-- What is persisted of a tracker. -/
structure DeltaTrackerState (R : Type) where
  taskId : Str
  baseSequence : U64
  nextSequence : U64
  buffered : List (Delta R)
  knownFindings : List Str
  stale : Bool
  pendingReceipts : List DeltaReceipt

namespace DeltaTracker

/-- Captures the state for persistence. -/
def state (t : DeltaTracker R) : DeltaTrackerState R where
  taskId := t.taskId
  baseSequence := t.baseSequence
  nextSequence := t.nextSequence
  buffered := t.buffered.entries.map Prod.snd
  knownFindings := t.knownFindings.keys
  stale := t.stale
  pendingReceipts := t.pending

/-- Rebuilds a tracker.  Buffered deltas that no tracker could hold are left out. -/
def restore (s : DeltaTrackerState R) : DeltaTracker R :=
  let nextSequence := max s.nextSequence (satSucc s.baseSequence)
  { taskId := s.taskId
    baseSequence := s.baseSequence
    nextSequence := nextSequence
    buffered := ofList
      ((s.buffered.filter fun d => d.taskId = s.taskId ∧ d.baseSequence = s.baseSequence ∧
        nextSequence < d.sequence).map fun d => (d.sequence, d))
    knownFindings := empty.insertAll s.knownFindings
    stale := s.stale
    pending := s.pendingReceipts }

/-! ### Committing a delta -/

/-- Every finding that the delta patches is known, or introduced by the delta itself. -/
def Resolves (known : OrdMap Str Unit) (d : Delta R) : Prop :=
  ∀ id patch, FieldUpdate.updateFinding id patch ∈ d.updates → known.contains id = true ∨ id ∈ d.findingIds

variable {t u : DeltaTracker R} {d : Delta R}

theorem checkUpdate_eq_ok_iff {update : FieldUpdate R} :
    t.checkUpdate d update = .ok () ↔ ∀ id patch, update = .updateFinding id patch →
      t.knownFindings.contains id = true ∨ id ∈ d.findingIds := by
  cases update with
  | updateFinding id patch =>
    simp only [checkUpdate, rejectIf_eq_ok, not_not, FieldUpdate.updateFinding.injEq]
    constructor
    · rintro h _ _ ⟨rfl, rfl⟩
      exact h
    · intro h
      exact h id patch ⟨rfl, rfl⟩
  | _ => simp [checkUpdate]

theorem apply_eq_ok_iff : t.apply d = .ok u ↔ Resolves t.knownFindings d ∧ u = t.advance d := by
  simp only [apply, bind_eq_ok, forM_eq_ok_iff, checkUpdate_eq_ok_iff, pure_eq_ok, Except.ok.injEq]
  constructor
  · rintro ⟨_, h, rfl⟩
    exact ⟨fun id patch hmem => h _ hmem id patch rfl, rfl⟩
  · rintro ⟨h, rfl⟩
    exact ⟨(), fun update hmem id patch heq => h id patch (heq ▸ hmem), rfl⟩

theorem apply_of_resolves (h : Resolves t.knownFindings d) : t.apply d = .ok (t.advance d) := apply_eq_ok_iff.2 ⟨h, rfl⟩

theorem not_resolves_of_apply {e : DeltaError} (h : t.apply d = .error e) : ¬ Resolves t.knownFindings d := by
  intro hr
  rw [apply_of_resolves hr] at h
  cases h

/-! ### Draining the buffer -/

/-- `Drains t ds u`: from `t` on, the buffered deltas `ds` were applied at the cursor, in this
order, and the state is now `u`. -/
inductive Drains : DeltaTracker R → List (Delta R) → DeltaTracker R → Prop where
  | nil (t : DeltaTracker R) : Drains t [] t
  | cons {t u : DeltaTracker R} {d : Delta R} {ds : List (Delta R)}
      (hget : t.buffered.get? t.nextSequence = some d) (hres : Resolves t.knownFindings d)
      (rest : Drains ((t.takeNext.advance d).push ⟨true, true, d.sequence⟩) ds u) :
      Drains t (d :: ds) u

theorem drainLoop_spec (fuel : ℕ) (t : DeltaTracker R) (hfuel : t.buffered.size ≤ fuel) :
    ∃ ds u, Drains t ds u ∧ ((u.buffered.get? u.nextSequence = none ∧ drainLoop fuel t = (.ok (), u)) ∨
        ∃ d e, u.buffered.get? u.nextSequence = some d ∧ ¬ Resolves u.knownFindings d ∧
          drainLoop fuel t = (.error e, u.takeNext)) := by
  induction fuel generalizing t with
  | zero =>
    have hnil : t.buffered.entries = [] := length_eq_zero_iff.1 (Nat.le_zero.1 hfuel)
    exact ⟨[], t, .nil t, .inl ⟨by simp [get?, hnil], rfl⟩⟩
  | succ fuel ih =>
    cases hget : t.buffered.get? t.nextSequence with
    | none => exact ⟨[], t, .nil t, .inl ⟨hget, by rw [drainLoop, hget]⟩⟩
    | some d =>
      cases happly : t.takeNext.apply d with
      | error e =>
        have hnot : ¬ Resolves t.takeNext.knownFindings d := not_resolves_of_apply happly
        exact ⟨[], t, .nil t, .inr ⟨d, e, hget, hnot, by
          rw [drainLoop, hget]
          simp only [happly]⟩⟩
      | ok u =>
        obtain ⟨hres, rfl⟩ := apply_eq_ok_iff.1 happly
        have hlt : (t.takeNext.buffered).size < t.buffered.size := size_erase_lt hget
        obtain ⟨ds, u, hdrains, hend⟩ := ih ((t.takeNext.advance d).push ⟨true, true, d.sequence⟩)
            (Nat.le_of_lt_succ (hlt.trans_le hfuel))
        refine ⟨d :: ds, u, .cons hget hres hdrains, ?_⟩
        rw [drainLoop, hget]
        simpa only [happly] using hend

/-- The loop stops at a sequence that is not buffered, or at a buffered delta that does not
resolve, which it drops. -/
theorem drain_spec (t : DeltaTracker R) : ∃ ds u, Drains t ds u ∧
      ((u.buffered.get? u.nextSequence = none ∧ t.drain = (.ok (), u)) ∨
        ∃ d e, u.buffered.get? u.nextSequence = some d ∧ ¬ Resolves u.knownFindings d ∧
          t.drain = (.error e, u.takeNext)) :=
  drainLoop_spec _ t le_rfl

/-! ### The outcomes of an observation -/

/-- The delta belongs to the stream that the tracker follows. -/
structure Accepts (t : DeltaTracker R) (d : Delta R) : Prop where
  task : d.taskId = t.taskId
  fresh : t.stale = false
  base : d.baseSequence = t.baseSequence

/-- The receipt of a delta that `observe` applied itself. -/
def directReceipt (d : Delta R) : DeltaReceipt := ⟨true, false, d.sequence⟩

/-- What a call of `observe` can do to the tracker and return. -/
inductive Observed (t : DeltaTracker R) (d : Delta R) :
    Except DeltaError DeltaReceipt → DeltaTracker R → Prop where
  /-- Nothing changed: a delta of the stream was seen before, finds the buffer full, or does not
  resolve. -/
  | refused (e : DeltaError) (h : Accepts t d → t.nextSequence ≤ d.sequence →
        t.buffered.contains d.sequence = true ∨ (t.nextSequence < d.sequence ∧ deltaBufferCap ≤ t.buffered.size) ∨
          (d.sequence = t.nextSequence ∧ ¬ Resolves t.knownFindings d)) :
      Observed t d (.error e) t
  /-- The base differs: the tracker is unusable from here on. -/
  | marked (e : DeltaError) (h : d.baseSequence ≠ t.baseSequence) : Observed t d (.error e) { t with stale := true }
  /-- The delta is ahead of the cursor. -/
  | buffered (e : DeltaError) (h : Accepts t d) (hlt : t.nextSequence < d.sequence)
      (hnew : t.buffered.contains d.sequence = false) (hcap : t.buffered.size < deltaBufferCap) :
      Observed t d (.error e)
        ({ t with buffered := t.buffered.insert d.sequence d }.push ⟨false, true, d.sequence⟩)
  /-- The delta applied, and with it the buffered deltas `ds`. -/
  | applied {ds : List (Delta R)} {u : DeltaTracker R} (h : Accepts t d)
      (hseq : d.sequence = t.nextSequence) (hnew : t.buffered.contains d.sequence = false)
      (hres : Resolves t.knownFindings d) (hdrains : Drains (t.advance d) ds u)
      (hend : u.buffered.get? u.nextSequence = none) :
      Observed t d (.ok (directReceipt d)) u
  /-- The delta applied, and with it the buffered deltas `ds`; the buffered delta after them did
  not resolve. -/
  | drainFailed {ds : List (Delta R)} {u : DeltaTracker R} {bad : Delta R} (e : DeltaError)
      (h : Accepts t d) (hseq : d.sequence = t.nextSequence)
      (hnew : t.buffered.contains d.sequence = false)
      (hres : Resolves t.knownFindings d) (hdrains : Drains (t.advance d) ds u)
      (hbad : u.buffered.get? u.nextSequence = some bad) (hnot : ¬ Resolves u.knownFindings bad) :
      Observed t d (.error e) (u.takeNext.push (directReceipt d))

theorem observed_observe (t : DeltaTracker R) (d : Delta R) : Observed t d (t.observe d).1 (t.observe d).2 := by
  unfold observe
  split_ifs with htask hstale hbase hseen hlt hfull
  · exact .refused _ fun h => absurd h.task htask
  · exact .refused _ fun h => absurd h.fresh (by simp [hstale])
  · exact .marked _ hbase
  · exact .refused _ fun _ hle => .inl (hseen.resolve_left (not_lt.2 hle))
  · exact .refused _ fun _ _ => .inr (.inl ⟨hlt, hfull⟩)
  · exact .buffered _ ⟨by simpa using htask, by simpa using hstale, by simpa using hbase⟩ hlt
      (by simpa using (not_or.1 hseen).2) (not_le.1 hfull)
  · have haccepts : Accepts t d := ⟨by simpa using htask, by simpa using hstale, by simpa using hbase⟩
    have hseq : d.sequence = t.nextSequence := le_antisymm (not_lt.1 hlt) (not_lt.1 (not_or.1 hseen).1)
    have hnew : t.buffered.contains d.sequence = false := by simpa using (not_or.1 hseen).2
    cases happly : t.apply d with
    | error e => exact .refused e fun _ _ => .inr (.inr ⟨hseq, not_resolves_of_apply happly⟩)
    | ok u =>
      obtain ⟨hres, rfl⟩ := apply_eq_ok_iff.1 happly
      obtain ⟨ds, u, hdrains, ⟨hend, heq⟩ | ⟨bad, e, hbad, hnot, heq⟩⟩ := drain_spec (t.advance d)
      · simp only [heq]
        exact .applied haccepts hseq hnew hres hdrains hend
      · simp only [heq]
        exact .drainFailed e haccepts hseq hnew hres hdrains hbad hnot

/-! ### The invariant -/

/-- The invariant inside a call: the buffered deltas belong to the stream, are stored under their
own sequence, and do not lie below the cursor. -/
structure Sound (t : DeltaTracker R) : Prop where
  cursor : satSucc t.baseSequence ≤ t.nextSequence
  entry : ∀ {k d}, t.buffered.get? k = some d →
    d.taskId = t.taskId ∧ d.baseSequence = t.baseSequence ∧ d.sequence = k ∧ t.nextSequence ≤ k

/-- The invariant between two calls: besides, the delta at the cursor is missing. -/
structure Settled (t : DeltaTracker R) : Prop extends Sound t where
  missing : t.buffered.get? t.nextSequence = none

theorem Settled.lt (h : t.Settled) {k : U64} (hget : t.buffered.get? k = some d) : t.nextSequence < k := by
  refine lt_of_le_of_ne (h.entry hget).2.2.2 ?_
  rintro rfl
  rw [h.missing] at hget
  cases hget

theorem settled_new (taskId : Str) (baseSequence : U64) :
    (new taskId baseSequence : DeltaTracker R).Settled where
  cursor := le_rfl
  entry := by simp [new]
  missing := rfl

theorem Settled.advance (h : t.Settled) (d : Delta R) : (t.advance d).Sound where
  cursor := h.cursor.trans (le_satSucc _)
  entry hget :=
    let ⟨htask, hbase, hseq, _⟩ := h.entry hget
    ⟨htask, hbase, hseq, satSucc_le_of_lt (h.lt hget)⟩

theorem Sound.takeNext (h : t.Sound) : t.takeNext.Settled where
  cursor := h.cursor
  entry hget := by
    simp only [DeltaTracker.takeNext, get?_erase] at hget
    split_ifs at hget with hk
    exact h.entry hget
  missing := by rw [DeltaTracker.takeNext, get?_erase, if_pos rfl]

theorem Sound.push (h : t.Sound) (receipt : DeltaReceipt) : (t.push receipt).Sound := ⟨h.cursor, h.entry⟩

theorem Settled.push (h : t.Settled) (receipt : DeltaReceipt) :
    (t.push receipt).Settled := ⟨h.toSound.push receipt, h.missing⟩

theorem Drains.sound {ds : List (Delta R)} (h : Drains t ds u) (ht : t.Sound) : u.Sound := by
  induction h with
  | nil => exact ht
  | cons _ _ _ ih => exact ih ((ht.takeNext.advance _).push _)

/-- The invariant survives an observation, whatever its outcome. -/
theorem Settled.observed {r : Except DeltaError DeltaReceipt}
    (ht : t.Settled) (h : Observed t d r u) : u.Settled := by
  cases h with
  | refused => exact ht
  | marked => exact ⟨⟨ht.cursor, ht.entry⟩, ht.missing⟩
  | buffered e haccepts hlt =>
    have hinsert : Settled { t with buffered := t.buffered.insert d.sequence d } := by
      refine ⟨⟨ht.cursor, fun {k d'} hget => ?_⟩, ?_⟩
      · rw [get?_insert] at hget
        split_ifs at hget with hk
        · cases hget
          exact ⟨haccepts.task, haccepts.base, hk.symm, hk ▸ hlt.le⟩
        · exact ht.entry hget
      · rw [get?_insert, if_neg hlt.ne, ht.missing]
    exact hinsert.push _
  | applied _ _ _ _ hdrains hend => exact ⟨hdrains.sound (ht.advance d), hend⟩
  | drainFailed _ _ _ _ _ hdrains => exact (hdrains.sound (ht.advance d)).takeNext.push _

/-! ### Runs -/

end DeltaTracker

/-- A call that the owner of a tracker can make. -/
inductive TrackerCall (R : Type) where
  | observe (d : Delta R)
  | drainReady
  | seedFindings (ids : List Str)

namespace DeltaTracker

/-- The receipts that a call hands to its caller, and the state after it. -/
def call (t : DeltaTracker R) : TrackerCall R → List DeltaReceipt × DeltaTracker R
  | .observe d =>
    match t.observe d with
    | (.ok receipt, u) => ([receipt], u)
    | (.error _, u) => ([], u)
  | .drainReady => t.drainReady
  | .seedFindings ids => ([], t.seedFindings ids)

/-- A sequence of calls: the receipts handed out, in order, and the state at the end. -/
def run (t : DeltaTracker R) : List (TrackerCall R) → List DeltaReceipt × DeltaTracker R
  | [] => ([], t)
  | c :: cs => ((t.call c).1 ++ ((t.call c).2.run cs).1, ((t.call c).2.run cs).2)

/-- The state that a sequence of calls reaches from a new tracker. -/
def reached (taskId : Str) (baseSequence : U64) (calls : List (TrackerCall R)) : DeltaTracker R :=
  ((new taskId baseSequence).run calls).2

variable {t : DeltaTracker R}

theorem Settled.call (ht : t.Settled) (c : TrackerCall R) : (t.call c).2.Settled := by
  cases c with
  | observe d =>
    have hobserve := ht.observed (observed_observe t d)
    simp only [DeltaTracker.call]
    split <;> simp_all
  | drainReady | seedFindings ids => exact ⟨⟨ht.cursor, ht.entry⟩, ht.missing⟩

theorem Settled.run (ht : t.Settled) (cs : List (TrackerCall R)) : (t.run cs).2.Settled := by
  induction cs generalizing t with
  | nil => exact ht
  | cons c cs ih => exact ih (ht.call c)

theorem settled_reached (taskId : Str) (baseSequence : U64) (calls : List (TrackerCall R)) :
    (reached taskId baseSequence calls).Settled :=
  (settled_new taskId baseSequence).run calls

/-! ### Restarts and missing deltas -/

/-- A state between two calls is rebuilt exactly. -/
theorem Settled.restore_state (ht : t.Settled) : restore t.state = t := by
  have hnext : max t.nextSequence (satSucc t.baseSequence) = t.nextSequence := max_eq_left ht.cursor
  have hkept : ∀ e ∈ t.buffered.entries, e.2.taskId = t.taskId ∧
      e.2.baseSequence = t.baseSequence ∧ e.2.sequence = e.1 ∧ t.nextSequence < e.2.sequence := by
    intro e he
    have hget : t.buffered.get? e.1 = some e.2 := get?_eq_some_iff.2 he
    obtain ⟨htask, hbase, hseq, _⟩ := ht.entry hget
    exact ⟨htask, hbase, hseq, hseq ▸ ht.lt hget⟩
  -- every buffered delta passes the filter, and comes back under its own key
  have hfilter : (t.buffered.entries.map Prod.snd).filter (fun d => decide (d.taskId = t.taskId ∧
      d.baseSequence = t.baseSequence ∧ t.nextSequence < d.sequence)) =
      t.buffered.entries.map Prod.snd := by
    rw [filter_eq_self]
    intro d hd
    obtain ⟨e, he, rfl⟩ := mem_map.1 hd
    obtain ⟨htask, hbase, _, hlt⟩ := hkept e he
    simp [htask, hbase, hlt]
  have hentries : (t.buffered.entries.map Prod.snd).map (fun d => (d.sequence, d)) = t.buffered.entries := by
    rw [map_map]
    conv_rhs => rw [← map_id t.buffered.entries]
    refine map_congr_left fun e he => ?_
    exact Prod.ext (hkept e he).2.2.1 rfl
  simp only [restore, state, hnext, hfilter, hentries, ofList_entries, insertAll_keys]

/-- The loop only adds to its report. -/
theorem isPrefix_missingLoop (t : DeltaTracker R) (highest sequence : U64) (missing : List U64) :
    missing <+: t.missingLoop highest sequence missing := by
  fun_induction missingLoop t highest sequence missing with
  | case1 sequence missing _ ih =>
    refine List.IsPrefix.trans ?_ ih
    split
    · exact prefix_rfl
    · exact prefix_append ..
  | case2 => exact prefix_rfl

/-- A gap is reported exactly when a delta waits for one: the delta at the cursor is missing. -/
theorem Settled.missingSequences_ne_nil (ht : t.Settled) : t.missingSequences ≠ [] ↔ 0 < t.buffered.size := by
  unfold missingSequences
  cases hlast : t.buffered.keys.getLast? with
  | none =>
    have hnil : t.buffered.size = 0 := by simpa [OrdMap.keys, OrdMap.size] using List.getLast?_eq_none_iff.1 hlast
    simp [hnil]
  | some highest =>
    have hmem : highest ∈ t.buffered.keys := mem_of_getLast? hlast
    have hsize : 0 < t.buffered.size := by simpa [OrdMap.keys, OrdMap.size] using length_pos_of_mem hmem
    obtain ⟨d, hget⟩ := Option.isSome_iff_exists.1 (OrdMap.contains_iff.2 hmem)
    have hround : t.missingLoop highest t.nextSequence [] =
        t.missingLoop highest (satSucc t.nextSequence) [t.nextSequence] := by
      rw [missingLoop, dif_pos ⟨ht.lt hget, by decide⟩]
      simp [OrdMap.contains, ht.missing]
    refine iff_of_true (fun hnil => ?_) hsize
    have hpre := t.isPrefix_missingLoop highest (satSucc t.nextSequence) [t.nextSequence]
    simp only at hnil
    rw [← hround, hnil] at hpre
    simpa using hpre.length_le

/-- In every reachable state the buffered deltas lie above the cursor, a restart changes nothing,
and a full snapshot is asked for exactly when the tracker is stale or waits for a delta. -/
theorem restore_state_reached (taskId : Str) (baseSequence : U64) (calls : List (TrackerCall R)) :
    let t := reached taskId baseSequence calls
    (∀ k ∈ t.buffered.keys, t.nextSequence < k) ∧ restore t.state = t ∧
      (t.needsFullSnapshot = true ↔ t.stale = true ∨ 0 < t.buffered.size) := by
  intro t
  have ht : t.Settled := settled_reached taskId baseSequence calls
  refine ⟨fun k hk => ?_, ht.restore_state, ?_⟩
  · obtain ⟨d, hget⟩ := Option.isSome_iff_exists.1 (contains_iff.2 hk)
    exact ht.lt hget
  · rw [needsFullSnapshot, Bool.or_eq_true, Bool.not_eq_true', ← ht.missingSequences_ne_nil]
    simp

end DeltaTracker

end Occ
