/-
**The order of delivery of a delta stream does not matter.**

The deltas of a stream are numbered from the base on.  They may be delivered in any order, any
number of times, and mixed with deltas of other tasks: as long as those that wait fit into the
buffer, the tracker ends in the state that the delivery in order reaches.

The proof abstracts a tracker to the *set of positions received so far*.  The cursor is the frontier
of that set, the buffer holds what waits above it, and the known findings are those of the deltas
below it.  Receiving a delta adds its position, so the final state depends only on what was
received.
-/

import OptimusAgent.DeltaReceipts
import OptimusAgent.Frontier

namespace Occ.DeltaTracker

open Frontier List OrdMap

variable {R : Type}

/-! ### Streams and schedules -/

/-- The deltas of a stream in order: one task, one base, and the sequences that follow the base. -/
structure IsStream (taskId : Str) (baseSequence : U64) (stream : List (Delta R)) : Prop where
  task : ∀ d ∈ stream, d.taskId = taskId
  base : ∀ d ∈ stream, d.baseSequence = baseSequence
  numbered : ∀ {i d}, stream[i]? = some d → d.sequence.val = baseSequence.val + 1 + i
  below : baseSequence.val + stream.length < maxU64.val

/-- Every delta applies when the deltas are observed in order. -/
def AppliesInOrder (t : DeltaTracker R) (stream : List (Delta R)) : Prop :=
  ∀ before d after, stream = before ++ d :: after →
    ∃ receipt, ((t.run (before.map .observe)).2.observe d).1 = .ok receipt

/-- The positions in the stream of the deltas that a schedule delivers to the task. -/
def positions (taskId : Str) (baseSequence : U64) (schedule : List (Delta R)) : Finset ℕ :=
  ((schedule.filter fun d => d.taskId = taskId).map fun d => d.sequence.val - (baseSequence.val + 1)).toFinset

/-- A delivery of the whole stream: in any order, with repetitions, mixed with deltas of other
tasks; those that wait at any time fit into the buffer. -/
structure IsSchedule (taskId : Str) (baseSequence : U64) (stream schedule : List (Delta R)) :
    Prop where
  delivers : ∀ d ∈ stream, d ∈ schedule
  only : ∀ d ∈ schedule, d ∈ stream ∨ d.taskId ≠ taskId
  fits : ∀ before, before <+: schedule → (waiting (positions taskId baseSequence before)).card ≤ deltaBufferCap

/-! ### The delivery in order -/

variable {ds : List (Delta R)}

/-- Without buffered deltas nothing is drained. -/
theorem Drains.eq_nil {t u : DeltaTracker R} (h : Drains t ds u) (hempty : t.buffered = empty) : ds = [] ∧ u = t := by
  cases h with
  | nil => exact ⟨rfl, rfl⟩
  | cons hget => rw [hempty] at hget; cases hget

theorem observe_inOrder {t : DeltaTracker R} {d : Delta R} {receipt : DeltaReceipt}
    (hempty : t.buffered = empty) (h : (t.observe d).1 = .ok receipt) :
    Resolves t.knownFindings d ∧ (t.observe d).2 = t.advance d := by
  have hobs := observed_observe t d
  rw [h] at hobs
  cases hobs with
  | applied _ _ _ hres hdrains => exact ⟨hres, (hdrains.eq_nil hempty).2⟩

/-- In order, the findings are resolved in turn and collected. -/
theorem AppliesInOrder.resolves {t : DeltaTracker R} {stream : List (Delta R)}
    (h : t.AppliesInOrder stream) (hempty : t.buffered = empty) :
    ResolveInTurn t.knownFindings stream ∧
      (t.run (stream.map .observe)).2.knownFindings = knownAfter t.knownFindings stream := by
  induction stream generalizing t with
  | nil => exact ⟨trivial, rfl⟩
  | cons d stream ih =>
    obtain ⟨receipt, hok⟩ := h [] d stream rfl
    obtain ⟨hres, hstate⟩ := observe_inOrder hempty hok
    have hcall : (t.call (.observe d)).2 = t.advance d := by
      rw [← hstate, DeltaTracker.call]
      split <;> simp_all
    have hrest : (t.advance d).AppliesInOrder stream := fun before d' after heq => by
      have := h (d :: before) d' after (by rw [heq, cons_append])
      rwa [map_cons, DeltaTracker.run, hcall] at this
    obtain ⟨hturn, hknown⟩ := ih hrest hempty
    refine ⟨⟨hres, hturn⟩, ?_⟩
    rw [map_cons, DeltaTracker.run, hcall]
    exact hknown

theorem ResolveInTurn.resolves {known : OrdMap Str Unit} {stream : List (Delta R)}
    (h : ResolveInTurn known stream) {i : ℕ} {d : Delta R} (hd : stream[i]? = some d) :
    Resolves (knownAfter known (stream.take i)) d := by
  induction stream generalizing known i with
  | nil => simp at hd
  | cons x stream ih =>
    cases i with
    | zero =>
      obtain rfl : x = d := by simpa using hd
      exact h.1
    | succ i => exact ih h.2 (by simpa using hd)

/-! ### The positions that a tracker has received -/

section

variable {taskId : Str} {baseSequence : U64} {known : OrdMap Str Unit} {stream : List (Delta R)}

/-- The tracker received the positions `S` of the stream and its cursor is at position `c`. -/
structure Tracks (taskId : Str) (baseSequence : U64) (known : OrdMap Str Unit)
    (stream : List (Delta R)) (S : Finset ℕ) (c : ℕ) (t : DeltaTracker R) : Prop where
  sound : t.Sound
  task : t.taskId = taskId
  base : t.baseSequence = baseSequence
  fresh : t.stale = false
  cursor : t.nextSequence.val = baseSequence.val + 1 + c
  behind : ∀ j < c, j ∈ S
  inside : ∀ j ∈ S, j < stream.length
  findings : t.knownFindings = knownAfter known (stream.take c)
  held : ∀ d, t.buffered.get? d.sequence = some d ↔ ∃ i ∈ S, c ≤ i ∧ stream[i]? = some d

variable {S : Finset ℕ} {c : ℕ} {t u : DeltaTracker R} {d : Delta R} {i : ℕ}

/-- Two deltas of the stream with one sequence are at one position. -/
theorem IsStream.position_eq (h : IsStream taskId baseSequence stream) {j : ℕ} {d' : Delta R}
    (hi : stream[i]? = some d) (hj : stream[j]? = some d') (hseq : d.sequence = d'.sequence) :
    i = j := by
  have h₁ := h.numbered hi
  have h₂ := h.numbered hj
  rw [hseq] at h₁
  omega

/-- A buffered delta is one of the stream, at a position received from the cursor on. -/
theorem Tracks.of_get? (h : Tracks taskId baseSequence known stream S c t) {k : U64}
    (hget : t.buffered.get? k = some d) : d.sequence = k ∧ ∃ i ∈ S, c ≤ i ∧ stream[i]? = some d := by
  have hseq : d.sequence = k := (h.sound.entry hget).2.2.1
  exact ⟨hseq, (h.held d).1 (hseq ▸ hget)⟩

theorem Tracks.push (h : Tracks taskId baseSequence known stream S c t) (receipt : DeltaReceipt) :
    Tracks taskId baseSequence known stream S c (t.push receipt) :=
  ⟨h.sound.push receipt, h.task, h.base, h.fresh, h.cursor, h.behind, h.inside, h.findings, h.held⟩

theorem observe_of_ne (hne : d.taskId ≠ t.taskId) : (t.observe d).2 = t := by rw [DeltaTracker.observe, if_pos hne]

theorem positions_cons_of_ne (hne : d.taskId ≠ taskId) (rest : List (Delta R)) :
    positions taskId baseSequence (d :: rest) = positions taskId baseSequence rest := by
  rw [positions, filter_cons_of_neg (by simpa using hne), ← positions]

theorem call_observe (t : DeltaTracker R) (d : Delta R) : (t.call (.observe d)).2 = (t.observe d).2 := by
  rw [DeltaTracker.call]
  split <;> simp_all

variable (hstream : IsStream taskId baseSequence stream)

include hstream

section

variable (h : Tracks taskId baseSequence known stream S c t)

include h

theorem Tracks.sequence_eq (hd : stream[i]? = some d) : d.sequence = t.nextSequence ↔ i = c := by
  have hnum := hstream.numbered hd
  have hcur := h.cursor
  rw [Fin.ext_iff]
  omega

theorem Tracks.lt_sequence (hd : stream[i]? = some d) : t.nextSequence < d.sequence ↔ c < i := by
  have hnum := hstream.numbered hd
  have hcur := h.cursor
  rw [Fin.lt_def]
  omega

/-- The buffered delta at the cursor is the one at position `c`. -/
theorem Tracks.get?_cursor : t.buffered.get? t.nextSequence = some d ↔ c ∈ S ∧ stream[c]? = some d := by
  constructor
  · intro hget
    obtain ⟨hseq, i, hi, _, hd⟩ := h.of_get? hget
    obtain rfl := (h.sequence_eq hstream hd).1 hseq
    exact ⟨hi, hd⟩
  · rintro ⟨hc, hd⟩
    rw [← (h.sequence_eq hstream hd).2 rfl, h.held]
    exact ⟨c, hc, le_rfl, hd⟩

/-- The cursor has reached the frontier when the delta there is missing. -/
theorem Tracks.front_eq (hend : t.buffered.get? t.nextSequence = none) : front S = c := by
  refine Frontier.front_eq (fun hc => ?_) h.behind
  have hget := (h.get?_cursor hstream).2 ⟨hc, getElem?_eq_getElem (h.inside c hc)⟩
  rw [hend] at hget
  cases hget

theorem Tracks.ne_maxU64 (hc : c < stream.length) : t.nextSequence ≠ maxU64 := by
  have hcur := h.cursor
  have hbelow := hstream.below
  rw [Ne, Fin.ext_iff]
  omega

/-- Committing the delta at the cursor moves it to the next position. -/
theorem Tracks.advance (hd : stream[c]? = some d) (hmissing : t.buffered.get? t.nextSequence = none) :
    Tracks taskId baseSequence known stream (insert c S) (c + 1) (t.advance d) where
  sound := Settled.advance ⟨h.sound, hmissing⟩ d
  task := h.task
  base := h.base
  fresh := h.fresh
  cursor := by
    have hlen : c < stream.length := (List.getElem?_eq_some_iff.1 hd).1
    have hval : (t.advance d).nextSequence.val = t.nextSequence.val + 1 := val_satSucc (h.ne_maxU64 hstream hlen)
    rw [hval, h.cursor]
    omega
  behind j hj := by
    rcases Nat.lt_succ_iff_lt_or_eq.1 hj with hj | rfl
    · exact Finset.mem_insert_of_mem (h.behind j hj)
    · exact Finset.mem_insert_self ..
  inside j hj := by
    rcases Finset.mem_insert.1 hj with rfl | hj
    · exact (List.getElem?_eq_some_iff.1 hd).1
    · exact h.inside j hj
  findings := by
    have htake : stream.take (c + 1) = stream.take c ++ [d] := by rw [take_add_one, hd, Option.toList]
    rw [htake, knownAfter, foldl_append, DeltaTracker.advance, h.findings]
    rfl
  held d' := by
    refine (h.held d').trans ⟨?_, ?_⟩
    · rintro ⟨i, hi, hle, hd'⟩
      refine ⟨i, Finset.mem_insert_of_mem hi, Nat.lt_of_le_of_ne hle ?_, hd'⟩
      rintro rfl
      rw [(h.get?_cursor hstream).2 ⟨hi, hd'⟩] at hmissing
      cases hmissing
    · rintro ⟨i, hi, hle, hd'⟩
      exact ⟨i, (Finset.mem_insert.1 hi).resolve_left (by omega), by omega, hd'⟩

theorem Tracks.takeNext : Tracks taskId baseSequence known stream (S.erase c) c t.takeNext where
  sound := h.sound.takeNext.toSound
  task := h.task
  base := h.base
  fresh := h.fresh
  cursor := h.cursor
  behind j hj := Finset.mem_erase_of_ne_of_mem hj.ne (h.behind j hj)
  inside j hj := h.inside j (Finset.mem_of_mem_erase hj)
  findings := h.findings
  held d' := by
    rw [DeltaTracker.takeNext, get?_erase]
    constructor
    · intro hget
      split_ifs at hget with hseq
      obtain ⟨i, hi, hle, hd'⟩ := (h.held d').1 hget
      have hne : i ≠ c := fun heq => hseq ((h.sequence_eq hstream hd').2 heq)
      exact ⟨i, Finset.mem_erase_of_ne_of_mem hne hi, hle, hd'⟩
    · rintro ⟨i, hi, hle, hd'⟩
      obtain ⟨hne, hi⟩ := Finset.mem_erase.1 hi
      rw [if_neg fun hseq => hne ((h.sequence_eq hstream hd').1 hseq), h.held]
      exact ⟨i, hi, hle, hd'⟩

/-- A drain moves the cursor inside what was received. -/
theorem Tracks.drains (hdrains : Drains t ds u) : ∃ c', Tracks taskId baseSequence known stream S c' u := by
  induction hdrains generalizing c with
  | nil => exact ⟨c, h⟩
  | @cons t u d ds hget _ _ ih =>
    obtain ⟨hc, hd⟩ := (h.get?_cursor hstream).1 hget
    have htaken := (h.takeNext hstream).advance hstream hd h.sound.takeNext.missing
    rw [Finset.insert_erase hc] at htaken
    exact ih (htaken.push _)

/-- A delta ahead of the cursor waits. -/
theorem Tracks.buffer (hd : stream[i]? = some d) (hlt : c < i)
    (hsound : Sound { t with buffered := t.buffered.insert d.sequence d }) :
    Tracks taskId baseSequence known stream (insert i S) c
      { t with buffered := t.buffered.insert d.sequence d } where
  sound := hsound
  task := h.task
  base := h.base
  fresh := h.fresh
  cursor := h.cursor
  behind j hj := Finset.mem_insert_of_mem (h.behind j hj)
  inside j hj := by
    rcases Finset.mem_insert.1 hj with rfl | hj
    · exact (List.getElem?_eq_some_iff.1 hd).1
    · exact h.inside j hj
  findings := h.findings
  held d' := by
    rw [get?_insert]
    split_ifs with hseq
    · constructor
      · rintro ⟨⟩
        exact ⟨i, Finset.mem_insert_self .., hlt.le, hd⟩
      · rintro ⟨j, _, _, hd'⟩
        obtain rfl := hstream.position_eq hd' hd hseq
        exact hd.symm.trans hd'
    · rw [h.held]
      constructor
      · rintro ⟨j, hj, hle, hd'⟩
        exact ⟨j, Finset.mem_insert_of_mem hj, hle, hd'⟩
      · rintro ⟨j, hj, hle, hd'⟩
        refine ⟨j, (Finset.mem_insert.1 hj).resolve_left ?_, hle, hd'⟩
        rintro rfl
        exact hseq (by rw [Option.some.inj (hd'.symm.trans hd)])

/-- A drain that is not cut short moves the cursor to the frontier. -/
theorem Tracks.drained (hdrains : Drains t ds u) (hend : u.buffered.get? u.nextSequence = none) :
    Tracks taskId baseSequence known stream S (front S) u := by
  obtain ⟨c', hu⟩ := h.drains hstream hdrains
  rwa [hu.front_eq hstream hend]

/-- No drain is cut short: in order, every delta of the stream resolves. -/
theorem Tracks.resolves_cursor (hturn : ResolveInTurn known stream)
    (hget : t.buffered.get? t.nextSequence = some d) : Resolves t.knownFindings d := by
  rw [h.findings]
  exact hturn.resolves ((h.get?_cursor hstream).1 hget).2

end

section

variable (h : Tracks taskId baseSequence known stream S (front S) t)

include h

/-- The deltas that wait are those above the frontier. -/
theorem Tracks.size_le : t.buffered.size ≤ (waiting S).card := by
  have hmem : ∀ k ∈ t.buffered.keys, ∃ i ∈ waiting S, k.val = baseSequence.val + 1 + i := by
    intro k hk
    obtain ⟨d, hget⟩ := Option.isSome_iff_exists.1 (contains_iff.2 hk)
    obtain ⟨hseq, i, hi, hle, hd⟩ := h.of_get? hget
    refine ⟨i, Finset.mem_filter.2 ⟨hi, lt_of_le_of_ne hle ?_⟩, hseq ▸ hstream.numbered hd⟩
    rintro rfl
    exact front_notMem S hi
  -- distinct keys are at distinct positions
  let position : U64 → ℕ := fun k => k.val - (baseSequence.val + 1)
  have hkeys : t.buffered.keys.Pairwise (· < ·) := pairwise_map.2 t.buffered.sorted
  have hnodup : (t.buffered.keys.map position).Nodup := by
    refine Nodup.map_on (fun k hk k' hk' heq => ?_) hkeys.nodup
    obtain ⟨i, _, hi⟩ := hmem k hk
    obtain ⟨j, _, hj⟩ := hmem k' hk'
    simp only [position] at heq
    exact Fin.ext (by omega)
  have hsub : (t.buffered.keys.map position).toFinset ⊆ waiting S := by
    intro n hn
    obtain ⟨k, hk, rfl⟩ := mem_map.1 (mem_toFinset.1 hn)
    obtain ⟨i, hi, heq⟩ := hmem k hk
    have : position k = i := by simp only [position]; omega
    rwa [this]
  calc t.buffered.size = (t.buffered.keys.map position).toFinset.card := by
        rw [toFinset_card_of_nodup hnodup, length_map, OrdMap.keys, length_map, OrdMap.size]
    _ ≤ (waiting S).card := Finset.card_le_card hsub

/-- A delta of the stream is refused only when its position was received before. -/
theorem Tracks.mem_of_refused (hturn : ResolveInTurn known stream)
    (hd : stream[i]? = some d) (hfits : (waiting (insert i S)).card ≤ deltaBufferCap)
    (hrefused : t.nextSequence ≤ d.sequence → t.buffered.contains d.sequence = true ∨
      (t.nextSequence < d.sequence ∧ deltaBufferCap ≤ t.buffered.size) ∨
      (d.sequence = t.nextSequence ∧ ¬ Resolves t.knownFindings d)) : i ∈ S := by
  by_contra hi
  rcases lt_or_ge d.sequence t.nextSequence with hlt | hle
  · refine hi (mem_of_lt_front ?_)
    have hnum := hstream.numbered hd
    have hcur := h.cursor
    rw [Fin.lt_def] at hlt
    omega
  · rcases hrefused hle with hcontains | ⟨hlt, hfull⟩ | ⟨hseq, hnot⟩
    · obtain ⟨d', hget⟩ := Option.isSome_iff_exists.1 hcontains
      obtain ⟨hseq, j, hj, _, hd'⟩ := h.of_get? hget
      exact hi (hstream.position_eq hd' hd hseq ▸ hj)
    · have hsize := h.size_le hstream
      rw [card_waiting_insert ((h.lt_sequence hstream hd).1 hlt) hi] at hfits
      omega
    · obtain rfl := (h.sequence_eq hstream hd).1 hseq
      rw [h.findings] at hnot
      exact hnot (hturn.resolves hd)

/-- Observing a delta of the stream adds its position. -/
theorem Tracks.observe (ht : t.Settled) (hturn : ResolveInTurn known stream) (hd : stream[i]? = some d)
    (hfits : (waiting (insert i S)).card ≤ deltaBufferCap) :
    Tracks taskId baseSequence known stream (insert i S) (front (insert i S)) (t.observe d).2 := by
  have hmem : d ∈ stream := mem_of_getElem? hd
  have haccepts : Accepts t d := ⟨(hstream.task d hmem).trans h.task.symm, h.fresh,
    (hstream.base d hmem).trans h.base.symm⟩
  have hobs := observed_observe t d
  have hsettled := ht.observed hobs
  generalize (t.observe d).1 = r at hobs
  generalize (t.observe d).2 = u at hobs hsettled ⊢
  cases hobs with
  | refused e hrefused =>
    rwa [Finset.insert_eq_of_mem (h.mem_of_refused hstream hturn hd hfits (hrefused haccepts))]
  | marked e hbase => exact absurd haccepts.base hbase
  | buffered e _ hlt =>
    have hgap := (h.lt_sequence hstream hd).1 hlt
    rw [front_insert hgap]
    exact (h.buffer hstream hd hgap ⟨hsettled.cursor, hsettled.entry⟩).push _
  | applied _ hseq _ _ hdrains hend =>
    obtain rfl := (h.sequence_eq hstream hd).1 hseq
    exact (h.advance hstream hd ht.missing).drained hstream hdrains hend
  | drainFailed e _ hseq _ _ hdrains hbad hnot =>
    obtain rfl := (h.sequence_eq hstream hd).1 hseq
    obtain ⟨c', hu⟩ := (h.advance hstream hd ht.missing).drains hstream hdrains
    exact absurd (hu.resolves_cursor hstream hturn hbad) hnot

omit h in
theorem IsStream.positions_cons (hd : stream[i]? = some d) (rest : List (Delta R)) :
    positions taskId baseSequence (d :: rest) = insert i (positions taskId baseSequence rest) := by
  have htask : d.taskId = taskId := hstream.task d (mem_of_getElem? hd)
  have hnum := hstream.numbered hd
  rw [positions, filter_cons_of_pos (by simpa using htask), map_cons,
    toFinset_cons, ← positions, show d.sequence.val - (baseSequence.val + 1) = i by omega]

/-- The run lemma: a tracker that has received `S` and runs through a schedule has received `S` and
what the schedule delivers. -/
theorem Tracks.run (ht : t.Settled) (hturn : ResolveInTurn known stream) {rest : List (Delta R)}
    (honly : ∀ d ∈ rest, d ∈ stream ∨ d.taskId ≠ taskId)
    (hfits : ∀ before, before <+: rest → (waiting (S ∪ positions taskId baseSequence before)).card ≤ deltaBufferCap) :
    Tracks taskId baseSequence known stream (S ∪ positions taskId baseSequence rest)
      (front (S ∪ positions taskId baseSequence rest)) (t.run (rest.map .observe)).2 := by
  induction rest generalizing S t with
  | nil => simpa [positions, DeltaTracker.run] using h
  | cons d rest ih =>
    rw [forall_mem_cons] at honly
    rw [map_cons, DeltaTracker.run]
    have hsettled := ht.call (.observe d)
    rw [call_observe] at hsettled ⊢
    by_cases hother : d.taskId ≠ taskId
    · rw [positions_cons_of_ne hother]
      rw [observe_of_ne (h.task ▸ hother)]
      refine ih h ht honly.2 fun before hbefore => ?_
      have := hfits (d :: before) (cons_prefix_cons.2 ⟨rfl, hbefore⟩)
      rwa [positions_cons_of_ne hother] at this
    · obtain ⟨i, hi⟩ := mem_iff_getElem?.1 (honly.1.resolve_right hother)
      -- the position may be added to what was received, or to what is still to come
      have hmove : ∀ l, S ∪ positions taskId baseSequence (d :: l) = insert i S ∪ positions taskId baseSequence l := by
        intro l
        rw [hstream.positions_cons hi, Finset.union_insert, Finset.insert_union]
      have hstep := h.observe hstream ht hturn hi (by
        have := hfits [d] (cons_prefix_cons.2 ⟨rfl, nil_prefix⟩)
        rw [hmove] at this
        simpa [positions] using this)
      rw [hmove]
      refine ih hstep hsettled honly.2 fun before hbefore => ?_
      rw [← hmove]
      exact hfits (d :: before) (cons_prefix_cons.2 ⟨rfl, hbefore⟩)

end

/-- A new tracker has received nothing. -/
theorem tracks_new (ids : List Str) :
    Tracks taskId baseSequence ((new taskId baseSequence : DeltaTracker R).seedFindings
      ids).knownFindings stream ∅ (front ∅) ((new taskId baseSequence).seedFindings ids) := by
  have hfront : front ∅ = 0 := Frontier.front_eq (Finset.notMem_empty 0) (by simp)
  have hne : baseSequence ≠ maxU64 := by
    rintro rfl
    exact absurd hstream.below (by omega)
  rw [hfront]
  refine ⟨?_, rfl, rfl, rfl, val_satSucc hne, by simp, by simp, rfl, ?_⟩
  · exact ((settled_new taskId baseSequence).call (.seedFindings ids)).toSound
  · intro d
    simp [seedFindings, new]

/-- A schedule delivers every position of the stream. -/
theorem IsSchedule.positions_eq {schedule : List (Delta R)}
    (h : IsSchedule taskId baseSequence stream schedule) :
    positions taskId baseSequence schedule = Finset.range stream.length := by
  ext i
  rw [Finset.mem_range, positions, mem_toFinset, mem_map]
  constructor
  · rintro ⟨d, hd, rfl⟩
    obtain ⟨hmem, htask⟩ := mem_filter.1 hd
    obtain ⟨j, hj⟩ := mem_iff_getElem?.1 ((h.only d hmem).resolve_right (by simpa using htask))
    have hnum := hstream.numbered hj
    have hlt : j < stream.length := (List.getElem?_eq_some_iff.1 hj).1
    omega
  · intro hi
    have hd := getElem?_eq_getElem hi
    have hmem := mem_of_getElem? hd
    have hnum := hstream.numbered hd
    refine ⟨stream[i], mem_filter.2 ⟨h.delivers _ hmem, ?_⟩, by omega⟩
    simpa using hstream.task _ hmem

theorem IsStream.map_sequence :
    (stream.map Delta.sequence).map Fin.val = range' (baseSequence.val + 1) stream.length := by
  refine ext_getElem (by simp) fun i h₁ h₂ => ?_
  have hlt : i < stream.length := by simpa using h₂
  have hnum := hstream.numbered (getElem?_eq_getElem hlt)
  simpa using hnum

/-- No delta of a schedule has the largest sequence. -/
theorem IsSchedule.avoidsTop {schedule : List (Delta R)}
    (h : IsSchedule taskId baseSequence stream schedule) :
    AvoidsTop taskId baseSequence (schedule.map .observe) := by
  intro d hd htask _ htop
  have hmem : d ∈ schedule := by simpa using hd
  obtain ⟨i, hi⟩ := mem_iff_getElem?.1 ((h.only d hmem).resolve_right (by simpa using htask))
  have hnum := hstream.numbered hi
  have hlt : i < stream.length := (List.getElem?_eq_some_iff.1 hi).1
  have hbelow := hstream.below
  rw [htop] at hnum
  omega

end

/-! ### Confluence -/

/-- However the stream is delivered, the tracker ends behind it with an empty buffer and the
findings of the delivery in order, and has issued one receipt of application for every delta. -/
theorem delivery_confluent (taskId : Str) (baseSequence : U64) (ids : List Str)
    (stream schedule : List (Delta R)) (hstream : IsStream taskId baseSequence stream)
    (happlies : ((new taskId baseSequence).seedFindings ids).AppliesInOrder stream)
    (hschedule : IsSchedule taskId baseSequence stream schedule) :
    let start := (new taskId baseSequence).seedFindings ids
    let final := (start.run (schedule.map .observe)).2
    final.nextSequence.val = baseSequence.val + stream.length + 1 ∧ final.buffered.size = 0 ∧ final.stale = false ∧
      final.knownFindings = (start.run (stream.map .observe)).2.knownFindings ∧
      (appliedSequences (start.issued (schedule.map .observe))).Perm (stream.map Delta.sequence) := by
  intro start final
  have hstart : start.Settled := (settled_new taskId baseSequence).call (.seedFindings ids)
  obtain ⟨hturn, hknown⟩ := happlies.resolves rfl
  have hfinal := (tracks_new hstream ids).run hstream hstart hturn hschedule.only fun before hb => by
    rw [Finset.empty_union]
    exact hschedule.fits before hb
  -- everything was received, so the frontier is the end of the stream
  have hfront : front (Finset.range stream.length) = stream.length := Frontier.front_eq (by simp) (by simp)
  rw [Finset.empty_union, hschedule.positions_eq hstream, hfront] at hfinal
  have hcursor : final.nextSequence.val = baseSequence.val + 1 + stream.length := hfinal.cursor
  refine ⟨by omega, ?_, hfinal.fresh, ?_, ?_⟩
  · rw [size, length_eq_zero_iff, eq_nil_iff_forall_not_mem]
    intro e he
    obtain ⟨_, i, hi, hle, _⟩ := hfinal.of_get? (get?_eq_some_iff.2 he)
    exact absurd (Finset.mem_range.1 hi) (not_lt.2 hle)
  · rw [hknown]
    have hfindings := hfinal.findings
    rwa [take_length] at hfindings
  · have hrun := (accounted_seedFindings taskId baseSequence ids).run (hschedule.avoidsTop hstream)
    have hbase : final.baseSequence = baseSequence := (start.run_identity _).2
    have hspan : final.span = (stream.map Delta.sequence).map Fin.val := by
      rw [hstream.map_sequence, span, hbase, hcursor]
      congr 1
      omega
    have hperm := hrun.applied
    rw [nil_append] at hperm
    exact (map_perm_map_iff Fin.val_injective).1 (hspan ▸ hperm)

/-- A schedule that is not longer than the buffer always fits. -/
theorem card_waiting_positions_le (taskId : Str) (baseSequence : U64) (schedule : List (Delta R)) :
    (waiting (positions taskId baseSequence schedule)).card ≤ schedule.length :=
  calc (waiting (positions taskId baseSequence schedule)).card
      ≤ (positions taskId baseSequence schedule).card := Finset.card_le_card (Finset.filter_subset ..)
    _ ≤ ((schedule.filter fun d => d.taskId = taskId).map _).length := toFinset_card_le _
    _ ≤ schedule.length := by
        rw [length_map]
        exact length_filter_le ..

/-- The second delta arrives twice before the first, with a delta of another task in between. -/
def shuffledSchedule : List (Delta Bool) :=
  [bareDelta 0 2, { bareDelta 0 7 with taskId := "other" }, bareDelta 0 2, bareDelta 0 1]

theorem delivery_confluent_shuffledSchedule : (appliedSequences (((new "stream" 0).seedFindings []).issued
      (shuffledSchedule.map .observe))).Perm [1, 2] := by
  refine (delivery_confluent "stream" 0 [] [bareDelta 0 1, bareDelta 0 2] shuffledSchedule
    ⟨by decide, by decide, ?_, by decide⟩ ?_
    ⟨by decide, by decide, ?_⟩).2.2.2.2
  · intro i d hd
    match i with
    | 0 | 1 =>
      simp only [getElem?_cons_zero, getElem?_cons_succ, Option.some.injEq] at hd
      subst hd
      decide
    | i + 2 => simp at hd
  · intro before d after heq
    match before with
    | [] | [x] =>
      simp only [nil_append, cons_append, cons.injEq] at heq
      obtain ⟨rfl, rfl, _⟩ := heq
      exact ⟨_, rfl⟩
    | x :: y :: before => simp at heq
  · intro before hbefore
    exact (card_waiting_positions_le ..).trans (hbefore.length_le.trans (by decide))

end Occ.DeltaTracker
