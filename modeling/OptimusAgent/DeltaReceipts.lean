/-
**What the receipts of a delta stream say.**

The caller of a `DeltaTracker` learns from receipts which deltas applied.  At the top of the 64-bit
range the cursor saturates, and the delta with the largest sequence is applied each time it is
observed.

A caller that collects the queued receipts after every observation reads the applied sequences in
the order of the stream, except after one kind of failure: when a delta and some buffered successors
apply and a later successor does not resolve, the receipt of the first is queued behind the others.
-/

import OptimusAgent.DeltaTracker

namespace Occ

open List

variable {R : Type}

/-! ### Applied sequences -/

/-- The sequences of the receipts that report an application, in order. -/
def appliedSequences (receipts : List DeltaReceipt) : List U64 :=
  (receipts.filter DeltaReceipt.applied).map DeltaReceipt.sequence

@[simp] theorem appliedSequences_nil : appliedSequences [] = [] := rfl

@[simp] theorem appliedSequences_append (rs rs' : List DeltaReceipt) :
    appliedSequences (rs ++ rs') = appliedSequences rs ++ appliedSequences rs' := by
  simp [appliedSequences]

@[simp] theorem appliedSequences_waiting (sequence : U64) (rs : List DeltaReceipt) :
    appliedSequences (⟨false, true, sequence⟩ :: rs) = appliedSequences rs := rfl

@[simp] theorem appliedSequences_directReceipt (d : Delta R) (rs : List DeltaReceipt) :
    appliedSequences (DeltaTracker.directReceipt d :: rs) = d.sequence :: appliedSequences rs := rfl

/-- The receipts that the drain queues for the deltas `ds`. -/
def drainedReceipts (ds : List (Delta R)) : List DeltaReceipt := ds.map fun d => ⟨true, true, d.sequence⟩

@[simp] theorem appliedSequences_drainedReceipts (ds : List (Delta R)) :
    appliedSequences (drainedReceipts ds) = ds.map Delta.sequence := by
  induction ds with
  | nil => rfl
  | cons d ds ih => simpa [appliedSequences, drainedReceipts] using ih

namespace DeltaTracker

/-! ### What a drain applies -/

variable {t u : DeltaTracker R} {ds : List (Delta R)} {d : Delta R} {r : Except DeltaError DeltaReceipt}
  {given : List DeltaReceipt}

theorem Drains.pending_eq (h : Drains t ds u) : u.pending = t.pending ++ drainedReceipts ds := by
  induction h with
  | nil => simp [drainedReceipts]
  | cons _ _ _ ih => simpa [drainedReceipts, push, DeltaTracker.advance, takeNext] using ih

/-- No buffered delta is at the top of the range, where the cursor cannot move past it. -/
def Below (t : DeltaTracker R) : Prop := t.buffered.get? maxU64 = none

theorem Below.ne (h : t.Below) {k : U64} (hget : t.buffered.get? k = some d) : k ≠ maxU64 := by
  rintro rfl
  rw [h] at hget
  cases hget

theorem Below.takeNext (h : t.Below) : t.takeNext.Below := by
  unfold Below DeltaTracker.takeNext
  rw [OrdMap.get?_erase]
  split
  · rfl
  · exact h

theorem Drains.staysBelow (h : Drains t ds u) (ht : t.Below) : u.Below := by
  induction h with
  | nil => exact ht
  | cons _ _ _ ih => exact ih ht.takeNext

/-- A drain applies consecutive sequences from the cursor on. -/
theorem Drains.sequences (h : Drains t ds u) (ht : t.Sound) (hbelow : t.Below) :
    (ds.map Delta.sequence).map Fin.val = range' t.nextSequence.val ds.length ∧
      u.nextSequence.val = t.nextSequence.val + ds.length := by
  induction h with
  | nil => simp
  | @cons t u d ds hget hres rest ih =>
    have hne : t.nextSequence ≠ maxU64 := hbelow.ne hget
    have hseq : d.sequence = t.nextSequence := (ht.entry hget).2.2.1
    obtain ⟨hmap, hnext⟩ := ih ((ht.takeNext.advance d).push _) hbelow.takeNext
    have hcursor : ((t.takeNext.advance d).push ⟨true, true, d.sequence⟩).nextSequence.val =
        t.nextSequence.val + 1 := val_satSucc hne
    rw [hcursor] at hmap hnext
    refine ⟨?_, by rw [hnext, length_cons]; omega⟩
    rw [map_cons, map_cons, hmap, hseq, length_cons, range'_succ]

/-! ### The span of a tracker -/

theorem Drains.identity (h : Drains t ds u) : u.taskId = t.taskId ∧ u.baseSequence = t.baseSequence := by
  induction h with
  | nil => exact ⟨rfl, rfl⟩
  | cons _ _ _ ih => exact ih

theorem Observed.identity (h : Observed t d r u) : u.taskId = t.taskId ∧ u.baseSequence = t.baseSequence := by
  cases h with
  | applied _ _ _ _ hdrains | drainFailed _ _ _ _ _ hdrains => exact hdrains.identity
  | _ => exact ⟨rfl, rfl⟩

theorem Observed.below (h : Observed t d r u) (ht : t.Below) (hd : Accepts t d → d.sequence ≠ maxU64) : u.Below := by
  cases h with
  | refused | marked => exact ht
  | buffered _ haccepts =>
    unfold Below push
    rw [OrdMap.get?_insert, if_neg (hd haccepts).symm]
    exact ht
  | applied _ _ _ _ hdrains => exact hdrains.staysBelow ht
  | drainFailed _ _ _ _ _ hdrains => exact (hdrains.staysBelow ht).takeNext

/-- The sequences between the base and the cursor. -/
def span (t : DeltaTracker R) : List ℕ :=
  range' (t.baseSequence.val + 1) (t.nextSequence.val - (t.baseSequence.val + 1))

theorem mem_span {n : ℕ} : n ∈ t.span ↔ t.baseSequence.val < n ∧ n < t.nextSequence.val := by
  rw [span, mem_range'_1]
  omega

/-- Below the top, the cursor is past the base. -/
theorem Settled.base_lt (h : t.Settled) (hne : t.nextSequence ≠ maxU64) :
    t.baseSequence.val + 1 ≤ t.nextSequence.val := by
  have hne' : t.baseSequence ≠ maxU64 := by
    intro htop
    have hcursor := h.cursor
    rw [htop, satSucc_maxU64] at hcursor
    exact hne (le_antisymm (le_maxU64 _) hcursor)
  rw [← val_satSucc hne']
  exact h.cursor

/-- A delta and its buffered successors carry on the sequences applied before. -/
theorem Settled.span_eq (h : t.Settled) (hbelow : t.Below) (hseq : d.sequence = t.nextSequence)
    (hne : d.sequence ≠ maxU64) (hdrains : Drains (t.advance d) ds u) :
    u.span = t.span ++ (d.sequence :: ds.map Delta.sequence).map Fin.val := by
  rw [hseq] at hne
  have hadvance : (t.advance d).nextSequence.val = t.nextSequence.val + 1 := val_satSucc hne
  obtain ⟨hmap, hnext⟩ := hdrains.sequences (h.advance d) hbelow
  rw [hadvance] at hmap hnext
  have hbase : u.baseSequence = t.baseSequence := hdrains.identity.2
  have hlt := h.base_lt hne
  have hlength : t.nextSequence.val + 1 + ds.length - (t.baseSequence.val + 1) =
      (t.nextSequence.val - (t.baseSequence.val + 1)) + (ds.length + 1) := by omega
  have hstart : t.baseSequence.val + 1 + (t.nextSequence.val - (t.baseSequence.val + 1)) =
      t.nextSequence.val := by omega
  rw [span, span, hbase, hnext, hlength, ← range'_append_1, hstart, map_cons, hmap, hseq, ← range'_succ]

/-! ### Every sequence is applied at most once -/

/-- The receipts of a run: those handed to the caller and those still queued. -/
def issued (t : DeltaTracker R) (calls : List (TrackerCall R)) : List DeltaReceipt :=
  (t.run calls).1 ++ (t.run calls).2.pending

/-- The invariant of a run that handed out `given`: the applied sequences are the ones between the
base and the cursor. -/
structure Accounted (given : List DeltaReceipt) (t : DeltaTracker R) : Prop where
  settled : t.Settled
  below : t.Below
  applied : ((appliedSequences (given ++ t.pending)).map Fin.val).Perm t.span

/-- The calls never observe the delta with the largest sequence. -/
def AvoidsTop (taskId : Str) (baseSequence : U64) (calls : List (TrackerCall R)) : Prop :=
  ∀ d, TrackerCall.observe d ∈ calls → d.taskId = taskId → d.baseSequence = baseSequence → d.sequence ≠ maxU64

theorem accounted_new (taskId : Str) (baseSequence : U64) :
    Accounted [] (new taskId baseSequence : DeltaTracker R) where
  settled := settled_new taskId baseSequence
  below := rfl
  applied := by
    have hspan : (new taskId baseSequence : DeltaTracker R).span = [] := by
      rw [span, range'_eq_nil_iff]
      have hle : (satSucc baseSequence).val ≤ baseSequence.val + 1 := by
        unfold satSucc
        split <;> simp
      simp only [new]
      omega
    rw [hspan]
    exact .nil

/-- One observation keeps the account. -/
theorem Accounted.observed (h : Accounted given t) (hobs : Observed t d r u)
    (hd : Accepts t d → d.sequence ≠ maxU64) : Accounted (given ++ r.toOption.toList) u := by
  refine ⟨h.settled.observed hobs, hobs.below h.below hd, ?_⟩
  have happlied := h.applied
  cases hobs with
  | refused => simpa [Except.toOption] using happlied
  | marked => simpa [Except.toOption, span] using happlied
  | buffered => simpa [Except.toOption, push, span] using happlied
  | applied haccepts hseq _ _ hdrains =>
    rw [h.settled.span_eq h.below hseq (hd haccepts) hdrains, hdrains.pending_eq]
    refine .trans ?_ (happlied.append_right _)
    rw [← map_append]
    refine Perm.map _ ?_
    -- the direct receipt is handed out ahead of the queued ones
    simp only [Except.toOption, Option.toList, DeltaTracker.advance, appliedSequences_append,
      appliedSequences_directReceipt, appliedSequences_drainedReceipts, appliedSequences_nil,
      append_assoc]
    rw [singleton_append]
    exact Perm.append_left _ perm_middle.symm
  | @drainFailed ds u bad e haccepts hseq _ _ hdrains =>
    have hspan : (u.takeNext.push (directReceipt d)).span = u.span := rfl
    have hpending : (u.takeNext.push (directReceipt d)).pending =
        t.pending ++ drainedReceipts ds ++ [directReceipt d] := by
      rw [push, takeNext, hdrains.pending_eq, DeltaTracker.advance]
    rw [hspan, hpending, h.settled.span_eq h.below hseq (hd haccepts) hdrains]
    refine .trans ?_ (happlied.append_right _)
    rw [← map_append]
    refine Perm.map _ ?_
    -- the direct receipt is queued behind the ones of the drain
    simp only [Except.toOption, Option.toList, appliedSequences_append,
      appliedSequences_directReceipt, appliedSequences_drainedReceipts, appliedSequences_nil,
      append_assoc, nil_append]
    exact Perm.append_left _ (Perm.append_left _ (perm_append_singleton ..))

theorem Accounted.call (h : Accounted given t) (c : TrackerCall R)
    (hc : ∀ d, c = .observe d → Accepts t d → d.sequence ≠ maxU64) :
    Accounted (given ++ (t.call c).1) (t.call c).2 := by
  cases c with
  | observe d =>
    have hobserve := h.observed (observed_observe t d) (hc d rfl)
    simp only [DeltaTracker.call]
    split <;> simp_all [Except.toOption]
  | drainReady => exact ⟨⟨⟨h.settled.cursor, h.settled.entry⟩, h.settled.missing⟩, h.below, by
      simpa [DeltaTracker.call, drainReady, span] using h.applied⟩
  | seedFindings ids => exact ⟨⟨⟨h.settled.cursor, h.settled.entry⟩, h.settled.missing⟩, h.below, by
      simpa [DeltaTracker.call, seedFindings, span] using h.applied⟩

theorem accounted_seedFindings (taskId : Str) (baseSequence : U64) (ids : List Str) :
    Accounted [] ((new taskId baseSequence).seedFindings ids : DeltaTracker R) :=
  (accounted_new taskId baseSequence).call (.seedFindings ids) (by simp)

theorem call_identity (t : DeltaTracker R) (c : TrackerCall R) :
    (t.call c).2.taskId = t.taskId ∧ (t.call c).2.baseSequence = t.baseSequence := by
  cases c with
  | observe d =>
    have hobserve := (observed_observe t d).identity
    simp only [DeltaTracker.call]
    split <;> simp_all
  | drainReady | seedFindings ids => exact ⟨rfl, rfl⟩

theorem Accounted.run (h : Accounted given t)
    {calls : List (TrackerCall R)} (hcalls : AvoidsTop t.taskId t.baseSequence calls) :
    Accounted (given ++ (t.run calls).1) (t.run calls).2 := by
  induction calls generalizing given t with
  | nil => simpa [DeltaTracker.run] using h
  | cons c cs ih =>
    have hstep := h.call c fun d hd haccepts => hcalls d (hd ▸ mem_cons_self ..) haccepts.task haccepts.base
    obtain ⟨htask, hbase⟩ := t.call_identity c
    rw [DeltaTracker.run, ← append_assoc]
    refine ih hstep fun d hd ht hb => ?_
    exact hcalls d (mem_cons_of_mem _ hd) (ht.trans htask) (hb.trans hbase)

theorem run_identity (t : DeltaTracker R) (calls : List (TrackerCall R)) :
    (t.run calls).2.taskId = t.taskId ∧ (t.run calls).2.baseSequence = t.baseSequence := by
  induction calls generalizing t with
  | nil => exact ⟨rfl, rfl⟩
  | cons c cs ih =>
    obtain ⟨htask, hbase⟩ := t.call_identity c
    obtain ⟨htask', hbase'⟩ := ih (t.call c).2
    exact ⟨htask'.trans htask, hbase'.trans hbase⟩

/-- As long as the largest sequence is not observed, no sequence is applied twice, and the applied
ones are those between the base and the cursor. -/
theorem issued_applied_once (taskId : Str) (baseSequence : U64) (calls : List (TrackerCall R))
    (h : AvoidsTop taskId baseSequence calls) :
    (appliedSequences (issued (new taskId baseSequence) calls)).Nodup ∧
      ∀ s, s ∈ appliedSequences (issued (new taskId baseSequence) calls) ↔
        baseSequence < s ∧ s < (reached taskId baseSequence calls).nextSequence := by
  have hrun := (accounted_new taskId baseSequence).run h
  rw [nil_append] at hrun
  have hbase := ((new taskId baseSequence : DeltaTracker R).run_identity calls).2
  constructor
  · exact Nodup.of_map _ (hrun.applied.nodup_iff.2 (nodup_range' ..))
  · intro s
    have hmem := hrun.applied.mem_iff (a := s.val)
    rw [mem_span, hbase, mem_map_of_injective Fin.val_injective] at hmem
    exact hmem

/-- A delta without content. -/
def bareDelta (baseSequence sequence : U64) : Delta R := ⟨"stream", baseSequence, sequence, [], [], [], [], none⟩

/-- The base below the two largest sequences. -/
def highBase : U64 := ⟨2 ^ 64 - 3, by decide⟩

/-- At the top of the range a delta applies as often as it is observed. -/
theorem topDelta_applied_twice :
    let calls : List (TrackerCall Bool) := [.observe (bareDelta (satSucc highBase) maxU64),
      .observe (bareDelta (satSucc highBase) maxU64)]
    let receipts := issued (new "stream" (satSucc highBase)) calls
    appliedSequences receipts = [maxU64, maxU64] ∧ ¬ (appliedSequences receipts).Nodup ∧
      ¬ maxU64 < (reached "stream" (satSucc highBase) calls).nextSequence := by
  decide

/-- Two deltas, each observed twice and the second one first. -/
def reordered : List (TrackerCall Bool) :=
  [.observe (bareDelta 0 2), .observe (bareDelta 0 1), .observe (bareDelta 0 1), .observe (bareDelta 0 2)]

theorem issued_applied_once_reordered : appliedSequences (issued (new "stream" 0) reordered) = [1, 2] ∧
    (appliedSequences (issued (new "stream" 0) reordered)).Nodup := by
  have htop : AvoidsTop "stream" 0 reordered := by
    intro d hd _ _
    simp only [reordered, mem_cons, not_mem_nil, or_false, TrackerCall.observe.injEq] at hd
    rcases hd with rfl | rfl | rfl | rfl <;> decide
  exact ⟨by decide, (issued_applied_once "stream" 0 reordered htop).1⟩

/-! ### Where a drain stops -/

/-- The finding ids that a patch may name after the deltas applied. -/
def knownAfter (known : OrdMap Str Unit) (ds : List (Delta R)) : OrdMap Str Unit :=
  ds.foldl (fun known d => known.insertAll d.findingIds) known

/-- The deltas resolve one after the other. -/
def ResolveInTurn : OrdMap Str Unit → List (Delta R) → Prop
  | _, [] => True
  | known, d :: ds => Resolves known d ∧ ResolveInTurn (known.insertAll d.findingIds) ds

/-- The deltas are stored under consecutive sequences from `k` on. -/
def Holds (m : OrdMap U64 (Delta R)) : U64 → List (Delta R) → Prop
  | _, [] => True
  | k, d :: ds => m.get? k = some d ∧ Holds m (satSucc k) ds

theorem Holds.erase {m : OrdMap U64 (Delta R)} {k s : U64}
    (h : Holds m s ds) (hlt : k < s) : Holds (m.erase k) s ds := by
  induction ds generalizing s with
  | nil => trivial
  | cons d ds ih =>
    refine ⟨?_, ih h.2 (hlt.trans_le (le_satSucc s))⟩
    rw [OrdMap.get?_erase, if_neg hlt.ne', h.1]

theorem Holds.of_erase {m : OrdMap U64 (Delta R)} {k s : U64}
    (h : Holds (m.erase k) s ds) : Holds m s ds := by
  induction ds generalizing s with
  | nil => trivial
  | cons d ds ih =>
    refine ⟨?_, ih h.2⟩
    have hget := h.1
    rw [OrdMap.get?_erase] at hget
    split_ifs at hget
    exact hget

/-- A drain that stops at `bad` found it after the deltas that it applied. -/
theorem Drains.holds {bad : Delta R} (h : Drains t ds u) (hbad : u.buffered.get? u.nextSequence = some bad) :
    Holds t.buffered t.nextSequence (ds ++ [bad]) := by
  induction h with
  | nil => exact ⟨hbad, trivial⟩
  | cons hget _ _ ih => exact ⟨hget, (ih hbad).of_erase⟩

theorem Drains.resolveInTurn (h : Drains t ds u) :
    ResolveInTurn t.knownFindings ds ∧ u.knownFindings = knownAfter t.knownFindings ds := by
  induction h with
  | nil => exact ⟨trivial, rfl⟩
  | cons _ hres _ ih => exact ⟨⟨hres, ih.1⟩, ih.2⟩

/-- A chain that resolves up to `bad` is what the drain applies, and it stops there. -/
theorem Drains.eq_of_holds {l : List (Delta R)} {bad : Delta R} (h : Drains t ds u) (hbelow : t.Below)
    (hend : ∀ d, u.buffered.get? u.nextSequence = some d → ¬ Resolves u.knownFindings d)
    (hholds : Holds t.buffered t.nextSequence (l ++ [bad]))
    (hres : ResolveInTurn t.knownFindings l)
    (hnot : ¬ Resolves (knownAfter t.knownFindings l) bad) :
    ds = l ∧ u.buffered.get? u.nextSequence = some bad := by
  induction h generalizing l with
  | nil t =>
    cases l with
    | nil => exact ⟨rfl, hholds.1⟩
    | cons x l => exact absurd hres.1 (hend x hholds.1)
  | @cons t u d ds hget hresolves rest ih =>
    have hne : t.nextSequence ≠ maxU64 := hbelow.ne hget
    have hlt : t.nextSequence < satSucc t.nextSequence := (lt_satSucc_iff hne).2 le_rfl
    cases l with
    | nil =>
      obtain rfl : d = bad := Option.some.inj (hget.symm.trans hholds.1)
      exact absurd hresolves hnot
    | cons x l =>
      obtain rfl : d = x := Option.some.inj (hget.symm.trans hholds.1)
      obtain ⟨rfl, hstop⟩ := ih hbelow.takeNext hend (hholds.2.erase hlt) hres.2 hnot
      exact ⟨rfl, hstop⟩

/-! ### The order of the receipts -/

/-- The delta is next and resolves, at least one buffered delta follows it and resolves, and a later
one in the same chain does not. -/
structure Misorders (t : DeltaTracker R) (d : Delta R) : Prop where
  accepts : Accepts t d
  atCursor : d.sequence = t.nextSequence
  stops : ∃ first rest bad, Holds t.buffered (satSucc t.nextSequence) (first :: rest ++ [bad]) ∧
      ResolveInTurn t.knownFindings (d :: first :: rest) ∧
      ¬ Resolves (knownAfter t.knownFindings (d :: first :: rest)) bad

/-- The outcome of the drain decides whether the observation misorders. -/
theorem Misorders.drains (h : t.Misorders d) (hbelow : t.Below) (hdrains : Drains (t.advance d) ds u)
    (hend : ∀ d', u.buffered.get? u.nextSequence = some d' → ¬ Resolves u.knownFindings d') :
    ds ≠ [] ∧ u.buffered.get? u.nextSequence ≠ none := by
  obtain ⟨first, rest, bad, hholds, hres, hnot⟩ := h.stops
  obtain ⟨rfl, hstop⟩ := hdrains.eq_of_holds hbelow hend hholds hres.2 hnot
  exact ⟨by simp, by simp [hstop]⟩

/-- The receipts that the caller gets for one observation, when nothing was queued before. -/
def receiptsOf (r : Except DeltaError DeltaReceipt) (u : DeltaTracker R) : List DeltaReceipt :=
  r.toOption.toList ++ u.pending

/-- An observation either hands out the newly applied sequences in order, or misorders them. -/
theorem Observed.receipts (h : Observed t d r u) (ht : t.Settled) (hbelow : t.Below) (hpending : t.pending = [])
    (hd : Accepts t d → d.sequence ≠ maxU64) :
    (¬ t.Misorders d ∧ u.span = t.span ++ (appliedSequences (receiptsOf r u)).map Fin.val) ∨
      (t.Misorders d ∧ ¬ (appliedSequences (receiptsOf r u)).Pairwise (· < ·)) := by
  cases h with
  | refused e hrefused =>
    refine .inl ⟨fun hmis => ?_, by simp [receiptsOf, Except.toOption, hpending]⟩
    obtain ⟨first, rest, bad, _, hres, _⟩ := hmis.stops
    rcases hrefused hmis.accepts hmis.atCursor.ge with hcontains | ⟨hlt, _⟩ | ⟨_, hnot⟩
    · rw [hmis.atCursor, OrdMap.contains, ht.missing] at hcontains
      cases hcontains
    · exact hlt.ne' hmis.atCursor
    · exact hnot hres.1
  | marked e hbase =>
    refine .inl ⟨fun hmis => hbase hmis.accepts.base, ?_⟩
    simp [receiptsOf, Except.toOption, hpending, span]
  | buffered e _ hlt =>
    refine .inl ⟨fun hmis => hlt.ne' hmis.atCursor, ?_⟩
    simp [receiptsOf, Except.toOption, hpending, push, span]
  | @applied ds u haccepts hseq _ hres hdrains hend =>
    refine .inl ⟨fun hmis => ?_, ?_⟩
    · exact (hmis.drains hbelow hdrains (by simp [hend])).2 hend
    · rw [ht.span_eq hbelow hseq (hd haccepts) hdrains, receiptsOf, hdrains.pending_eq]
      simp only [Except.toOption, Option.toList, DeltaTracker.advance, hpending, nil_append,
        appliedSequences_directReceipt, appliedSequences_drainedReceipts, singleton_append]
  | @drainFailed ds u bad e haccepts hseq _ hres hdrains hbad hnot =>
    have happlied : appliedSequences (receiptsOf (.error e) (u.takeNext.push (directReceipt d))) =
        ds.map Delta.sequence ++ [d.sequence] := by
      simp [receiptsOf, push, takeNext, Except.toOption, hdrains.pending_eq, DeltaTracker.advance, hpending]
    rw [happlied]
    cases ds with
    | nil =>
      refine .inl ⟨fun hmis => (hmis.drains hbelow hdrains ?_).1 rfl, ?_⟩
      · intro d' hd'
        obtain rfl : bad = d' := Option.some.inj (hbad.symm.trans hd')
        exact hnot
      · exact ht.span_eq hbelow hseq (hd haccepts) hdrains
    | cons first rest =>
      obtain ⟨hturn, hknown⟩ := hdrains.resolveInTurn
      refine .inr ⟨⟨haccepts, hseq, first, rest, bad, hdrains.holds hbad, ⟨hres, hturn⟩, ?_⟩,
        fun hsorted => ?_⟩
      · rwa [hknown] at hnot
      · -- the first drained sequence is the one after the cursor
        have hmap := (hdrains.sequences (ht.advance d) hbelow).1
        rw [length_cons, range'_succ, map_cons, map_cons] at hmap
        have hfirst : first.sequence = satSucc t.nextSequence := Fin.ext (cons.inj hmap).1
        have hlt : first.sequence < d.sequence :=
          (pairwise_append.1 hsorted).2.2 first.sequence (by simp) d.sequence (by simp)
        rw [hfirst, hseq] at hlt
        exact absurd hlt (not_lt.2 (le_satSucc _))

/-- The calls of a caller that collects the queued receipts after every observation. -/
def polling (ds : List (Delta R)) : List (TrackerCall R) := ds.flatMap fun d => [.observe d, .drainReady]

/-- The invariant of such a run: nothing is queued, and the applied sequences were handed out in
order. -/
structure Ordered (given : List DeltaReceipt) (t : DeltaTracker R) : Prop where
  settled : t.Settled
  below : t.Below
  empty : t.pending = []
  applied : (appliedSequences given).map Fin.val = t.span

theorem Ordered.pairwise (h : Ordered given t) : (appliedSequences given).Pairwise (· < ·) := by
  have hspan : t.span.Pairwise (· < ·) := pairwise_lt_range' ..
  rw [← h.applied, pairwise_map] at hspan
  exact hspan

/-- One observation and the collection after it. -/
def poll (t : DeltaTracker R) (d : Delta R) : List DeltaReceipt × DeltaTracker R :=
  (receiptsOf (t.observe d).1 (t.observe d).2, { (t.observe d).2 with pending := [] })

theorem run_polling_cons (t : DeltaTracker R) (d : Delta R) (ds : List (Delta R)) :
    t.run (polling (d :: ds)) = ((t.poll d).1 ++ ((t.poll d).2.run (polling ds)).1,
      ((t.poll d).2.run (polling ds)).2) := by
  have hcalls : polling (d :: ds) = .observe d :: .drainReady :: polling ds := rfl
  rw [hcalls, DeltaTracker.run, DeltaTracker.run]
  simp only [DeltaTracker.call, poll, receiptsOf, drainReady]
  rcases t.observe d with ⟨r, u⟩
  cases r <;> simp [Except.toOption]

theorem Ordered.poll (h : Ordered given t) (hd : Accepts t d → d.sequence ≠ maxU64) (hmis : ¬ t.Misorders d) :
    Ordered (given ++ (t.poll d).1) (t.poll d).2 := by
  have hobs := observed_observe t d
  have hsettled := h.settled.observed hobs
  refine ⟨⟨⟨hsettled.cursor, hsettled.entry⟩, hsettled.missing⟩, hobs.below h.below hd, rfl, ?_⟩
  rcases hobs.receipts h.settled h.below h.empty hd with ⟨_, hspan⟩ | ⟨hmis', _⟩
  · rw [appliedSequences_append, map_append, h.applied]
    exact hspan.symm
  · exact absurd hmis' hmis

theorem Ordered.not_pairwise (h : Ordered given t) (hd : Accepts t d → d.sequence ≠ maxU64) (hmis : t.Misorders d)
    (rest : List DeltaReceipt) :
    ¬ (appliedSequences (given ++ ((t.poll d).1 ++ rest))).Pairwise (· < ·) := by
  intro hsorted
  rcases (observed_observe t d).receipts h.settled h.below h.empty hd with
    ⟨hnot, _⟩ | ⟨_, hbroken⟩
  · exact hnot hmis
  · rw [appliedSequences_append, appliedSequences_append] at hsorted
    exact hbroken (pairwise_append.1 (pairwise_append.1 hsorted).2.1).1

theorem poll_identity (t : DeltaTracker R) (d : Delta R) :
    (t.poll d).2.taskId = t.taskId ∧ (t.poll d).2.baseSequence = t.baseSequence :=
  (observed_observe t d).identity

/-- No observation of the run misorders, the states being those that the run goes through. -/
def NeverMisorders (t : DeltaTracker R) (ds : List (Delta R)) : Prop :=
  ∀ before d after, ds = before ++ d :: after → ¬ (t.run (polling before)).2.Misorders d

theorem neverMisorders_cons : t.NeverMisorders (d :: ds) ↔ ¬ t.Misorders d ∧ (t.poll d).2.NeverMisorders ds := by
  constructor
  · intro h
    refine ⟨h [] d ds rfl, fun before d' after heq => ?_⟩
    have := h (d :: before) d' after (by rw [heq, cons_append])
    rwa [run_polling_cons] at this
  · rintro ⟨hhead, htail⟩ before d' after heq
    cases before with
    | nil =>
      obtain ⟨rfl, -⟩ := cons.inj heq
      exact hhead
    | cons x before =>
      obtain ⟨rfl, htl⟩ := cons.inj heq
      rw [run_polling_cons]
      exact htail before d' after htl

/-- The run lemma: the receipts stay in order exactly as long as no observation misorders. -/
theorem Ordered.pairwise_run_iff (h : Ordered given t) (hds : AvoidsTop t.taskId t.baseSequence (polling ds)) :
    (appliedSequences (given ++ (t.run (polling ds)).1)).Pairwise (· < ·) ↔ t.NeverMisorders ds := by
  induction ds generalizing given t with
  | nil =>
    refine iff_of_true ?_ fun before d after heq => ?_
    · simpa [polling, DeltaTracker.run] using h.pairwise
    · simp at heq
  | cons d ds ih =>
    have hd : Accepts t d → d.sequence ≠ maxU64 := fun haccepts =>
      hds d (by simp [polling]) haccepts.task haccepts.base
    rw [run_polling_cons, neverMisorders_cons]
    by_cases hmis : t.Misorders d
    · exact iff_of_false (h.not_pairwise hd hmis _) fun hnever => hnever.1 hmis
    · obtain ⟨htask, hbase⟩ := t.poll_identity d
      have hrest : AvoidsTop (t.poll d).2.taskId (t.poll d).2.baseSequence (polling ds) :=
        fun d' hd' ht hb => hds d' (by
          rw [polling, flatMap_cons, ← polling]
          exact mem_append_right _ hd') (ht.trans htask) (hb.trans hbase)
      rw [← append_assoc, ih (h.poll hd hmis) hrest, and_iff_right hmis]

theorem ordered_new (taskId : Str) (baseSequence : U64) (ids : List Str) :
    Ordered [] ((new taskId baseSequence).seedFindings ids : DeltaTracker R) :=
  have hnew := accounted_seedFindings taskId baseSequence ids
  ⟨hnew.settled, hnew.below, rfl, (perm_nil.1 hnew.applied.symm).symm⟩

/-- A caller that collects the queued receipts after every observation reads the applied sequences
in increasing order exactly when no observation of the run misorders. -/
theorem polling_increasing_iff (taskId : Str) (baseSequence : U64) (ids : List Str)
    (ds : List (Delta R)) (h : AvoidsTop taskId baseSequence (polling ds)) :
    (appliedSequences (((new taskId baseSequence).seedFindings ids).run (polling ds)).1).Pairwise (· < ·) ↔
      ((new taskId baseSequence).seedFindings ids).NeverMisorders ds :=
  (ordered_new taskId baseSequence ids).pairwise_run_iff h

/-- Deltas 2 and 3 arrive before delta 1, and delta 3 patches a finding that nobody introduced. -/
def brokenStream : List (Delta Bool) :=
  [bareDelta 0 2, { bareDelta 0 3 with updates := [.updateFinding "F1" .empty] }, bareDelta 0 1]

/-- The receipt of delta 2 comes before the one of delta 1. -/
theorem brokenStream_misordered : appliedSequences ((new "stream" 0).run (polling brokenStream)).1 = [2, 1] ∧
      ¬ (appliedSequences ((new "stream" 0).run (polling brokenStream)).1).Pairwise (· < ·) := by
  decide

theorem polling_increasing_iff_inOrder : ((new "stream" 0).seedFindings []).NeverMisorders
      ([bareDelta 0 2, bareDelta 0 1] : List (Delta Bool)) :=
  (polling_increasing_iff "stream" 0 [] [bareDelta 0 2, bareDelta 0 1] (by
    intro d hd _ _
    have hd' : d = bareDelta 0 2 ∨ d = bareDelta 0 1 := by simpa [polling] using hd
    rcases hd' with rfl | rfl <;> decide)).1 (by decide)

end DeltaTracker

end Occ
