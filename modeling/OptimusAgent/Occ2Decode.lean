/-
**What the OCC-2 decoder accumulates.**

The decoder reads one line after the other into an accumulator and builds the message at the end.
This module gives the accumulator one view for all fields, says what one line does to that view, and
derives what a whole run of lines leaves in it: every field that was read, under its key, exactly
once.
-/

import OptimusAgent.Occ2Lines

namespace Occ

open Str Checked List Option Function Keyed

namespace Occ2

variable {R : Type}

/-! ### Parsed values -/

/-- The value of a field after parsing. -/
inductive Parsed (R : Type) where
  | text (s : Str)
  | number (n : U64)
  | confidence (c : R)
  | references (numbers : List ℕ)
  | range (r : U32 × U32)
  | verified (b : Bool)

/-- The positions that a list of references spells. -/
def referencesOf (separator : Char) (value : Str) : Option (List ℕ) :=
  (value.splitOn separator).mapM fun part => (parseUnsigned usizeBound part).filter (· ≠ 0)

/-- The verification state that a value spells. -/
def stateOf (value : Str) : Option Bool :=
  if value = "1" then some true else if value = "0" then some false else none

/-- The value of a field of a slot. -/
def parseValue [F32 R] (separator : Char) (slot : WireSlot) (value : Str) : Option (Parsed R) :=
  match slot with
  | .sequence => (parseFin (2 ^ 64) value).map .number
  | .findingConfidence => (F32.parse value).map .confidence
  | .findingEvidence => (referencesOf separator value).map .references
  | .evidenceLineRange => (lineRangeOf value).map .range
  | .evidenceVerified => (stateOf value).map .verified
  | _ => some (.text value)

theorem parseReferences_eq_ok_iff {separator : Char} {key value : Str} {line : ℕ} {numbers : List ℕ} :
    (parseReferences separator key line value : Except (Occ2Error R) (List ℕ)) = .ok numbers ↔
      referencesOf separator value = some numbers := by
  rw [parseReferences, mapM_eq_ok_iff, referencesOf, mapM_eq_some_iff]
  have hpart : ∀ part number, (do
      let number ← okOr (parseUnsigned usizeBound part)
        (.badValue line key "evidence references must be decimal indices")
      rejectIf (number = 0) (.badValue line key "evidence indices are 1-based")
      pure number : Except (Occ2Error R) ℕ) = .ok number ↔
        (parseUnsigned usizeBound part).filter (· ≠ 0) = some number := by
    intro part number
    simp only [bind_eq_ok, okOr_eq_ok, rejectIf_eq_ok, exists_const, pure_eq_ok, Except.ok.injEq]
    rw [filter_eq_some_iff]
    constructor
    · rintro ⟨n, hn, hne, rfl⟩
      exact ⟨hn, by simpa using hne⟩
    · rintro ⟨hn, hne⟩
      exact ⟨number, hn, by simpa using hne, rfl⟩
  simp only [hpart]

theorem parseLineRange_eq_ok_iff {key value : Str} {line : ℕ} {r : U32 × U32} :
    (parseLineRange key line value : Except (Occ2Error R) (U32 × U32)) = .ok r ↔ lineRangeOf value = some r := by
  simp only [parseLineRange, bind_eq_ok, okOr_eq_ok, pure_eq_ok, Except.ok.injEq, lineRangeOf,
    bind_eq_bind, bind_eq_some_iff, Option.some.injEq]

theorem parseVerified_eq_ok_iff {key value : Str} {line : ℕ} {b : Bool} :
    (parseVerified key line value : Except (Occ2Error R) Bool) = .ok b ↔ stateOf value = some b := by
  unfold parseVerified stateOf
  split_ifs <;> simp

/-! ### The accumulator as a table -/

/-- The value of a field of a finding. -/
def WireFinding.value (f : WireFinding R) : WireSlot → Option (Parsed R)
  | .findingStatement => f.statement.map .text
  | .findingConfidence => f.confidence.map .confidence
  | .findingEvidence => f.evidence.map .references
  | _ => none

/-- The value of a field of an evidence reference. -/
def WireEvidence.value (e : WireEvidence) : WireSlot → Option (Parsed R)
  | .evidenceRef => e.kindLocator.map .text
  | .evidenceLineRange => e.lineRange.map .range
  | .evidenceDigest => e.digest.map .text
  | .evidenceRevision => e.revision.map .text
  | .evidenceVerified => e.verified.map .verified
  | _ => none

namespace WireMessage

/-- The value of a field without a number. -/
def scalar (wire : WireMessage R) : WireSlot → Option (Parsed R)
  | .messageId => wire.messageId.map .text
  | .taskId => wire.taskId.map .text
  | .parentTaskId => wire.parentTaskId.map .text
  | .traceId => wire.traceId.map .text
  | .sender => wire.sender.map .text
  | .recipient => wire.recipient.map .text
  | .kind => wire.kind.map .text
  | .status => wire.status.map .text
  | .sequence => wire.sequence.map .number
  | .timestamp => wire.timestamp.map .text
  | .expiry => wire.expiry.map .text
  | .verificationClaim => wire.verificationClaim.map .text
  | .verificationStatus => wire.verificationStatus.map .text
  | .verificationMethod => wire.verificationMethod.map .text
  | .verificationReceipt => wire.verificationReceipt.map .text
  | _ => none

/-- The value of a field with a number. -/
def entry (wire : WireMessage R) (n : ℕ) (slot : WireSlot) : Option (Parsed R) :=
  if slot.base = .findingStatement then (wire.findings.get? n).bind fun f => f.value slot
  else if slot.base = .evidenceRef then (wire.evidence.get? n).bind fun e => e.value slot
  else if slot = .artifact then (wire.artifacts.get? n).map .text
  else if slot = .dependency then (wire.dependencies.get? n).map .text
  else none

/-- The value of a field. -/
def value (wire : WireMessage R) : WireKey → Option (Parsed R)
  | (slot, none) => wire.scalar slot
  | (slot, some n) => wire.entry n slot

end WireMessage

/-! ### Storing a value -/

/-- A finding with a value stored in a field. -/
def WireFinding.put (f : WireFinding R) : WireSlot → Parsed R → WireFinding R
  | .findingStatement, .text v => { f with statement := some v }
  | .findingConfidence, .confidence c => { f with confidence := some c }
  | .findingEvidence, .references numbers => { f with evidence := some numbers }
  | _, _ => f

/-- An evidence reference with a value stored in a field. -/
def WireEvidence.put (e : WireEvidence) : WireSlot → Parsed R → WireEvidence
  | .evidenceRef, .text v => { e with kindLocator := some v }
  | .evidenceLineRange, .range r => { e with lineRange := some r }
  | .evidenceDigest, .text v => { e with digest := some v }
  | .evidenceRevision, .text v => { e with revision := some v }
  | .evidenceVerified, .verified b => { e with verified := some b }
  | _, _ => e

namespace WireMessage

/-- The accumulator with a value stored under a key without a number. -/
def putScalar (wire : WireMessage R) : WireSlot → Parsed R → WireMessage R
  | .messageId, .text v => { wire with messageId := some v }
  | .taskId, .text v => { wire with taskId := some v }
  | .parentTaskId, .text v => { wire with parentTaskId := some v }
  | .traceId, .text v => { wire with traceId := some v }
  | .sender, .text v => { wire with sender := some v }
  | .recipient, .text v => { wire with recipient := some v }
  | .kind, .text v => { wire with kind := some v }
  | .status, .text v => { wire with status := some v }
  | .sequence, .number n => { wire with sequence := some n }
  | .timestamp, .text v => { wire with timestamp := some v }
  | .expiry, .text v => { wire with expiry := some v }
  | .verificationClaim, .text v => { wire with verificationClaim := some v }
  | .verificationStatus, .text v => { wire with verificationStatus := some v }
  | .verificationMethod, .text v => { wire with verificationMethod := some v }
  | .verificationReceipt, .text v => { wire with verificationReceipt := some v }
  | _, _ => wire

/-- The accumulator with a value stored under a key with a number. -/
def putEntry (wire : WireMessage R) (n : ℕ) : WireSlot → Parsed R → WireMessage R
  | .artifact, .text v => { wire with artifacts := wire.artifacts.insert n v }
  | .dependency, .text v => { wire with dependencies := wire.dependencies.insert n v }
  | slot, p =>
    if slot.base = .findingStatement then
      { wire with findings := wire.findings.insert n (((wire.findings.get? n).getD default).put slot p) }
    else
      { wire with evidence := wire.evidence.insert n (((wire.evidence.get? n).getD default).put slot p) }

/-- The accumulator with a value stored under a key. -/
def put (wire : WireMessage R) : WireKey → Parsed R → WireMessage R
  | (slot, none), p => wire.putScalar slot p
  | (slot, some n), p => wire.putEntry n slot p

end WireMessage

section

variable [F32 R] {wire : WireMessage R} {slot : WireSlot} {n : ℕ} {separator : Char} {value : Str}
  {p : Parsed R}

theorem WireFinding.value_put (f : WireFinding R) (hslot : slot.base = .findingStatement)
    (hp : parseValue separator slot value = some p) :
    (f.put slot p).value = update f.value slot (some p) := by
  cases slot <;> simp only [WireSlot.base, reduceCtorEq] at hslot <;>
    simp only [parseValue, map_eq_some_iff, Option.some.injEq] at hp
  case findingStatement =>
    subst hp
    funext s
    cases s <;> rfl
  all_goals
    obtain ⟨v, -, rfl⟩ := hp
    funext s
    cases s <;> rfl

theorem WireEvidence.value_put (e : WireEvidence) (hslot : slot.base = .evidenceRef)
    (hp : parseValue separator slot value = some p) :
    (e.put slot p).value = update e.value slot (some p) := by
  cases slot <;> simp only [WireSlot.base, reduceCtorEq] at hslot <;>
    simp only [parseValue, map_eq_some_iff, Option.some.injEq] at hp
  case evidenceLineRange | evidenceVerified =>
    obtain ⟨v, -, rfl⟩ := hp
    funext s
    cases s <;> rfl
  all_goals
    subst hp
    funext s
    cases s <;> rfl

end

namespace WireMessage

/-- A finding that was not met has no field. -/
theorem value_finding {wire : WireMessage R} {slot : WireSlot} {n : ℕ} (hslot : slot.base = .findingStatement) :
    wire.value (slot, some n) = ((wire.findings.get? n).getD default).value slot := by
  rw [value, entry, if_pos hslot]
  cases wire.findings.get? n with
  | none => cases slot <;> rfl
  | some f => rfl

theorem value_evidence {wire : WireMessage R} {slot : WireSlot} {n : ℕ} (hslot : slot.base = .evidenceRef) :
    wire.value (slot, some n) = ((wire.evidence.get? n).getD default).value slot := by
  rw [value, entry, if_neg (by simp [hslot]), if_pos hslot]
  cases wire.evidence.get? n with
  | none => cases slot <;> rfl
  | some e => rfl

/-- Every entry of the accumulator has a field. -/
structure Proper (wire : WireMessage R) : Prop where
  findings : ∀ n, (wire.findings.get? n).isSome = true →
    ∃ slot, slot.base = .findingStatement ∧ (wire.value (slot, some n)).isSome = true
  evidence : ∀ n, (wire.evidence.get? n).isSome = true →
    ∃ slot, slot.base = .evidenceRef ∧ (wire.value (slot, some n)).isSome = true

section

variable {wire : WireMessage R} {slot : WireSlot} {n : ℕ} {p : Parsed R}

theorem putEntry_finding (hslot : slot.base = .findingStatement) :
    wire.putEntry n slot p = { wire with
      findings := wire.findings.insert n (((wire.findings.get? n).getD default).put slot p) } := by
  cases slot <;> first | rfl | cases hslot

theorem putEntry_evidence (hslot : slot.base = .evidenceRef) :
    wire.putEntry n slot p = { wire with
      evidence := wire.evidence.insert n (((wire.evidence.get? n).getD default).put slot p) } := by
  cases slot <;> first | rfl | cases hslot

/-- A field without a number is stored beside the entries. -/
theorem putScalar_entries (wire : WireMessage R) (slot : WireSlot) (p : Parsed R) :
    (wire.putScalar slot p).entry = wire.entry ∧ (wire.putScalar slot p).findings = wire.findings ∧
      (wire.putScalar slot p).evidence = wire.evidence ∧
      (wire.putScalar slot p).nextActions = wire.nextActions := by
  unfold putScalar
  split <;> exact ⟨rfl, rfl, rfl, rfl⟩

theorem putEntry_scalars (wire : WireMessage R) (n : ℕ) (slot : WireSlot) (p : Parsed R) :
    (wire.putEntry n slot p).scalar = wire.scalar ∧ (wire.putEntry n slot p).nextActions = wire.nextActions := by
  unfold putEntry
  split
  · exact ⟨rfl, rfl⟩
  · exact ⟨rfl, rfl⟩
  · split_ifs <;> exact ⟨rfl, rfl⟩

theorem nextActions_put (wire : WireMessage R) (k : WireKey) (p : Parsed R) :
    (wire.put k p).nextActions = wire.nextActions := by
  obtain ⟨slot, number⟩ := k
  cases number with
  | none => exact (putScalar_entries wire slot p).2.2.2
  | some n => exact (putEntry_scalars wire n slot p).2

variable [F32 R] {separator : Char} {value : Str} {k : WireKey}

theorem scalar_putScalar (hslot : slot.isIndexed = false) (hnext : slot ≠ .nextAction)
    (hp : parseValue separator slot value = some p) :
    (wire.putScalar slot p).scalar = update wire.scalar slot (some p) := by
  cases slot
  case sequence =>
    obtain ⟨v, -, rfl⟩ := map_eq_some_iff.1 hp
    funext s
    cases s <;> rfl
  case nextAction => exact absurd rfl hnext
  all_goals first
    | exact absurd hslot (by decide)
    | (cases hp
       funext s
       cases s <;> rfl)

/-- The families of the fields with a number. -/
theorem family_of_isIndexed (h : slot.isIndexed = true) : slot.base = .findingStatement ∨
    slot.base = .evidenceRef ∨ slot = .artifact ∨ slot = .dependency := by
  revert h
  cases slot <;> decide

theorem value_putEntry (hslot : slot.isIndexed = true)
    (hp : parseValue separator slot value = some p) (i : ℕ) (s : WireSlot) :
    (wire.putEntry n slot p).value (s, some i) =
      if i = n ∧ s = slot then some p else wire.value (s, some i) := by
  rcases family_of_isIndexed hslot with hb | hb | rfl | rfl
  · rw [putEntry_finding hb]
    by_cases hs : s.base = .findingStatement
    · rw [value_finding hs, value_finding hs, OrdMap.get?_insert]
      by_cases hi : i = n <;> simp [hi, WireFinding.value_put _ hb hp, update_apply]
    · have hne : s ≠ slot := fun heq => hs (heq ▸ hb)
      simp [WireMessage.value, entry, hs, hne]
  · rw [putEntry_evidence hb]
    by_cases hs : s.base = .evidenceRef
    · rw [value_evidence hs, value_evidence hs, OrdMap.get?_insert]
      by_cases hi : i = n <;> simp [hi, WireEvidence.value_put _ hb hp, update_apply]
    · have hne : s ≠ slot := fun heq => hs (heq ▸ hb)
      simp [WireMessage.value, entry, hs, hne]
  all_goals
    cases hp
    cases s <;> by_cases hi : i = n <;>
      simp [putEntry, WireMessage.value, entry, WireSlot.base, hi, OrdMap.get?_insert]

/-- **Storing a value changes the table at its key only.** -/
theorem value_put (hk : FitsSlot k.1 k.2) (hnext : k.1 ≠ .nextAction) (hp : parseValue separator k.1 value = some p) :
    (wire.put k p).value = update wire.value k (some p) := by
  obtain ⟨slot, number⟩ := k
  funext ⟨s, number'⟩
  rw [update_apply]
  cases number with
  | none =>
    cases number' with
    | none => simp [WireMessage.value, put, scalar_putScalar hk hnext hp, update_apply]
    | some i => simp [WireMessage.value, put, putScalar_entries]
  | some n =>
    cases number' with
    | none => simp [WireMessage.value, put, putEntry_scalars]
    | some i => simp [put, value_putEntry hk.1 hp, and_comm]

/-- An entry is new only under the key that is stored. -/
theorem entries_put (hk : FitsSlot k.1 k.2) (hp : parseValue separator k.1 value = some p) (i : ℕ) :
    (((wire.put k p).findings.get? i).isSome = true →
      (wire.findings.get? i).isSome = true ∨ k.1.base = .findingStatement ∧ k.2 = some i) ∧
    (((wire.put k p).evidence.get? i).isSome = true →
      (wire.evidence.get? i).isSome = true ∨ k.1.base = .evidenceRef ∧ k.2 = some i) := by
  obtain ⟨slot, number⟩ := k
  cases number with
  | none =>
    obtain ⟨-, hfindings, hevidence, -⟩ := putScalar_entries wire slot p
    rw [put, hfindings, hevidence]
    exact ⟨.inl, .inl⟩
  | some n =>
    rw [put]
    rcases family_of_isIndexed hk.1 with hb | hb | rfl | rfl
    · rw [putEntry_finding hb]
      by_cases hi : i = n <;> simp_all [OrdMap.get?_insert]
    · rw [putEntry_evidence hb]
      by_cases hi : i = n <;> simp_all [OrdMap.get?_insert]
    all_goals
      cases hp
      exact ⟨.inl, .inl⟩

/-- Storing a value keeps every entry with a field. -/
theorem Proper.put (h : wire.Proper) (hk : FitsSlot k.1 k.2) (hnext : k.1 ≠ .nextAction)
    (hp : parseValue separator k.1 value = some p) : (wire.put k p).Proper := by
  have hvalue : (wire.put k p).value = _ := value_put hk hnext hp
  have hself : ((wire.put k p).value k).isSome = true := by
    rw [hvalue, update_self]
    rfl
  have hkeep : ∀ k', (wire.value k').isSome = true → ((wire.put k p).value k').isSome = true := by
    intro k' hk'
    rw [hvalue, update_apply]
    split_ifs
    · rfl
    · exact hk'
  constructor
  · intro i hi
    obtain hi | ⟨hb, hn⟩ := (entries_put hk hp i).1 hi
    · obtain ⟨s, hs, hsome⟩ := h.findings i hi
      exact ⟨s, hs, hkeep _ hsome⟩
    · exact ⟨k.1, hb, hn ▸ hself⟩
  · intro i hi
    obtain hi | ⟨hb, hn⟩ := (entries_put hk hp i).2 hi
    · obtain ⟨s, hs, hsome⟩ := h.evidence i hi
      exact ⟨s, hs, hkeep _ hsome⟩
    · exact ⟨k.1, hb, hn ▸ hself⟩

end

end WireMessage

/-! ### One line -/

section

variable {wire wire' : WireMessage R} {value key : Str} {line : ℕ} {separator : Char}

theorem setScalar_eq_ok_iff {α : Type} {slot r : Option α} {v : α} :
    (setScalar slot v key : Except (Occ2Error R) (Option α)) = .ok r ↔ slot = none ∧ r = some v := by
  simp only [setScalar, bind_eq_ok, rejectIf_eq_ok, exists_const, pure_eq_ok, Except.ok.injEq,
    Bool.not_eq_true, isSome_eq_false_iff, isNone_iff_eq_none]
  exact and_congr_right fun _ => eq_comm

theorem setEntry_eq_ok_iff {entries r : OrdMap ℕ Str} {n : ℕ} {v : Str} :
    (setEntry entries n v key : Except (Occ2Error R) (OrdMap ℕ Str)) = .ok r ↔
      entries.get? n = none ∧ r = entries.insert n v := by
  have hcontains : ¬ entries.contains n = true ↔ entries.get? n = none := by
    rw [OrdMap.contains, Bool.not_eq_true, isSome_eq_false_iff, isNone_iff_eq_none]
  simp only [setEntry, bind_eq_ok, rejectIf_eq_ok, exists_const, pure_eq_ok, Except.ok.injEq, hcontains]
  exact and_congr_right fun _ => eq_comm

theorem updateFinding_eq_ok_iff {n : ℕ} {f : WireFinding R → Except (Occ2Error R) (WireFinding R)} :
    updateFinding wire n f = .ok wire' ↔ ∃ f', f ((wire.findings.get? n).getD default) = .ok f' ∧
        { wire with findings := wire.findings.insert n f' } = wire' := by
  simp only [updateFinding, bind_eq_ok, pure_eq_ok, Except.ok.injEq]

theorem updateEvidence_eq_ok_iff {n : ℕ} {f : WireEvidence → Except (Occ2Error R) WireEvidence} :
    updateEvidence wire n f = .ok wire' ↔ ∃ e', f ((wire.evidence.get? n).getD default) = .ok e' ∧
        { wire with evidence := wire.evidence.insert n e' } = wire' := by
  simp only [updateEvidence, bind_eq_ok, pure_eq_ok, Except.ok.injEq]

variable [F32 R]

/-- **A line succeeds iff its value parses and its key is new**; it stores the value. -/
theorem applyField_eq_ok_iff {k : WireKey} (hk : FitsSlot k.1 k.2) (hnext : k.1 ≠ .nextAction) :
    applyField wire k value key line separator = .ok wire' ↔
      ∃ p, parseValue separator k.1 value = some p ∧ wire.value k = none ∧ wire.put k p = wire' := by
  obtain ⟨slot, number⟩ := k
  cases number with
  | none =>
    cases slot
    case nextAction => exact absurd rfl hnext
    case sequence =>
      simp only [applyField, bind_eq_ok, okOr_eq_ok, setScalar_eq_ok_iff, pure_eq_ok, Except.ok.injEq,
        parseValue, map_eq_some_iff, WireMessage.value, WireMessage.scalar, map_eq_none_iff,
        WireMessage.put, exists_exists_and_eq_and, WireMessage.putScalar, and_assoc, exists_and_left,
        exists_eq_left]
    all_goals first
      | exact absurd hk (by decide)
      | simp [applyField, bind_eq_ok, setScalar_eq_ok_iff, pure_eq_ok, parseValue,
          WireMessage.value, WireMessage.scalar, WireMessage.put, WireMessage.putScalar]
  | some n =>
    cases slot
    case artifact | dependency =>
      simp [applyField, bind_eq_ok, setEntry_eq_ok_iff, pure_eq_ok, parseValue, WireMessage.value,
        WireMessage.entry, WireSlot.base, WireMessage.put, WireMessage.putEntry]
    case findingStatement | findingConfidence | findingEvidence =>
      rw [WireMessage.value_finding rfl]
      simp [applyField, updateFinding_eq_ok_iff, bind_eq_ok, okOr_eq_ok, setScalar_eq_ok_iff, pure_eq_ok,
        parseReferences_eq_ok_iff, parseValue, WireFinding.value, WireSlot.base, WireMessage.put,
        WireMessage.putEntry, WireFinding.put]
    case evidenceRef | evidenceLineRange | evidenceDigest | evidenceRevision | evidenceVerified =>
      rw [WireMessage.value_evidence rfl]
      simp [-Bool.exists_bool, applyField, updateEvidence_eq_ok_iff, bind_eq_ok, setScalar_eq_ok_iff, pure_eq_ok,
        parseLineRange_eq_ok_iff, parseVerified_eq_ok_iff, parseValue, WireEvidence.value, WireSlot.base,
        WireMessage.put, WireMessage.putEntry, WireEvidence.put]
    all_goals exact absurd hk.1 Bool.false_ne_true

end

/-! ### A run of lines -/

section

variable [F32 R]

/-- The accumulator holds the fields of `l`. -/
structure Holds (separator : Char) (l : List (WireKey × Str)) (wire : WireMessage R) : Prop where
  value : ∀ k, k.1 ≠ .nextAction → wire.value k = (first k l).bind (parseValue separator k.1)
  nextActions : wire.nextActions = all (.nextAction, none) l
  parses : ∀ e ∈ l, (parseValue separator e.1.1 e.2 : Option (Parsed R)).isSome = true
  proper : wire.Proper

theorem holds_init (separator : Char) : Holds separator [] (WireMessage.init : WireMessage R) := by
  refine ⟨fun k _ => ?_, rfl, by simp, ⟨fun n h => absurd h (by simp [WireMessage.init]),
    fun n h => absurd h (by simp [WireMessage.init])⟩⟩
  obtain ⟨slot, number⟩ := k
  cases number with
  | none => cases slot <;> rfl
  | some n => simp [WireMessage.value, WireMessage.entry, WireMessage.init]

variable {separator : Char} {l : List (WireKey × Str)} {wire wire' : WireMessage R}

/-- A key without a value was not read. -/
theorem Holds.first_eq_none (hold : Holds separator l wire) {k : WireKey}
    (hk : k.1 ≠ .nextAction) (h : wire.value k = none) : first k l = none := by
  cases hfirst : first k l with
  | none => rfl
  | some v =>
    have hparse := hold.parses _ (mem_of_first_eq_some hfirst)
    rw [hold.value k hk, hfirst, bind_some] at h
    rw [h] at hparse
    exact absurd hparse Bool.false_ne_true

/-- A line that succeeds adds its field to what the accumulator holds. -/
theorem Holds.step (hold : Holds separator l wire) {k : WireKey} {value key : Str} {line : ℕ}
    (hk : FitsSlot k.1 k.2)
    (h : applyField wire k value key line separator = .ok wire') :
    Holds separator (l ++ [(k, value)]) wire' := by
  have hparses : (parseValue separator k.1 value : Option (Parsed R)).isSome = true →
      ∀ e ∈ l ++ [(k, value)], (parseValue separator e.1.1 e.2 : Option (Parsed R)).isSome = true := by
    intro hp e he
    rcases mem_append.1 he with he | he
    · exact hold.parses e he
    · rw [mem_singleton.1 he]
      exact hp
  by_cases hnext : k.1 = .nextAction
  · -- next actions are collected, without a check for duplicates
    obtain ⟨slot, number⟩ := k
    simp only at hnext
    subst hnext
    cases number with
    | some n => exact absurd hk.1 Bool.false_ne_true
    | none =>
      simp only [applyField, Except.ok.injEq] at h
      subst h
      refine ⟨fun k' hk' => ?_, ?_, hparses rfl, ⟨hold.proper.findings, hold.proper.evidence⟩⟩
      · have hne : ((WireSlot.nextAction, none) : WireKey) ≠ k' := by
          rintro rfl
          exact hk' rfl
        rw [first_append, first_singleton, if_neg hne, or_none]
        exact hold.value k' hk'
      · rw [Keyed.all_append, ← hold.nextActions]
        simp [Keyed.all]
  · obtain ⟨p, hp, hfresh, rfl⟩ := (applyField_eq_ok_iff hk hnext).1 h
    refine ⟨fun k' hk' => ?_, ?_, hparses (by rw [hp]; rfl), hold.proper.put hk hnext hp⟩
    · rw [WireMessage.value_put hk hnext hp, first_append, first_singleton]
      by_cases hkk : k' = k
      · subst hkk
        have hnone : first k' l = none := hold.first_eq_none hk' hfresh
        rw [update_self, hnone, if_pos rfl, none_or, bind_some, hp]
      · rw [update_of_ne hkk, if_neg (Ne.symm hkk), or_none]
        exact hold.value k' hk'
    · have hne : k ≠ (.nextAction, none) := by
        rintro rfl
        exact hnext rfl
      rw [WireMessage.nextActions_put, hold.nextActions, Keyed.all_append]
      simp [Keyed.all, hne]

variable [Host] {card : DialectCard}

/-- The line of a field is read as the field. -/
theorem decodeLine_fieldLine (hcard : card.Valid) {e : WireKey × Str} (hk : FitsSlot e.1.1 e.1.2)
    (hv : IsValue e.2) {lineNo fields : ℕ} (hfields : fields < 128) :
    decodeLine card lineNo wire fields (fieldLine card e) =
      applyField wire e.1 e.2 ((Symbols.ofCard card).key e.1) lineNo
        card.grammar.listSeparator := by
  have hchop : chopSuffix '\r' (fieldLine card e) = fieldLine card e :=
    chopSuffix_of_notMem (notMem_fieldLine hcard hv (by decide))
  have hsplit : splitOnce card.grammar.operator (fieldLine card e) = some ((Symbols.ofCard card).key e.1, e.2) :=
    splitOnce_append _ (operator_notMem_key hcard e.1)
  have hcount : ¬ occ2MaxFields ≤ fields := not_le.2 hfields
  have hsize : ¬ occ2MaxValueBytes < byteLen e.2 := not_lt.2 hv.bound
  have hclean : ¬ hasControl e.2 = true := by simp [hv.clean]
  simp only [decodeLine, hchop, hsplit, okOr_some, ok_bind, rejectIf_of_not (fieldLine_ne_nil e),
    rejectIf_of_not hcount, rejectIf_of_not hsize, rejectIf_of_not hclean, parseKey_key hcard hk]

/-- After a run of lines that succeeds the accumulator holds their fields. -/
theorem Holds.run (hcard : card.Valid) {l' : List (WireKey × Str)} {lineNo fields : ℕ}
    (hold : Holds card.grammar.listSeparator l wire) (hk : ∀ e ∈ l', FitsSlot e.1.1 e.1.2)
    (hv : ∀ e ∈ l', IsValue e.2) (hcount : fields + l'.length ≤ 128)
    (h : decodeLines card lineNo wire fields (l'.map (fieldLine card)) = .ok wire') :
    Holds card.grammar.listSeparator (l ++ l') wire' := by
  induction l' generalizing l lineNo fields wire with
  | nil =>
    simp only [map_nil, decodeLines, Except.ok.injEq] at h
    rw [append_nil, ← h]
    exact hold
  | cons e l' ih =>
    rw [forall_mem_cons] at hk hv
    rw [length_cons] at hcount
    rw [map_cons, decodeLines, decodeLine_fieldLine hcard hk.1 hv.1 (by omega)] at h
    obtain ⟨w, hw, hrest⟩ := bind_eq_ok.1 h
    have hstep := hold.step hk.1 hw
    rw [← singleton_append, ← append_assoc]
    exact ih hstep hk.2 hv.2 (by omega) hrest

/-- A run of lines with new keys, whose values parse, succeeds. -/
theorem Holds.exists_run (hcard : card.Valid) {l' : List (WireKey × Str)} {lineNo fields : ℕ}
    (hold : Holds card.grammar.listSeparator l wire) (hk : ∀ e ∈ l', FitsSlot e.1.1 e.1.2)
    (hv : ∀ e ∈ l', IsValue e.2) (hcount : fields + l'.length ≤ 128)
    (hparse : ∀ e ∈ l', (parseValue card.grammar.listSeparator e.1.1 e.2 : Option (Parsed R)).isSome = true)
    (honce : ∀ k : WireKey, k.1 ≠ .nextAction → (all k (l ++ l')).length ≤ 1) :
    ∃ wire', decodeLines card lineNo wire fields (l'.map (fieldLine card)) = .ok wire' := by
  induction l' generalizing l lineNo fields wire with
  | nil => exact ⟨wire, rfl⟩
  | cons e l' ih =>
    rw [forall_mem_cons] at hk hv hparse
    rw [length_cons] at hcount
    rw [map_cons, decodeLines, decodeLine_fieldLine hcard hk.1 hv.1 (by omega)]
    obtain ⟨w, hw⟩ : ∃ w, applyField wire e.1 e.2 ((Symbols.ofCard card).key e.1) lineNo
        card.grammar.listSeparator = .ok w := by
      by_cases hnext : e.1.1 = .nextAction
      · rw [applyField, hnext]
        exact ⟨_, rfl⟩
      · -- the key occurs once, and that is in this line
        have hone := honce e.1 hnext
        rw [Keyed.all_append, ← singleton_append, Keyed.all_append] at hone
        have hself : Keyed.all e.1 [e] = [e.2] := by simp [Keyed.all]
        rw [hself] at hone
        have hnil : all e.1 l = [] := by
          rw [← length_eq_zero_iff]
          simp only [length_append, length_singleton] at hone
          omega
        obtain ⟨p, hp⟩ := isSome_iff_exists.1 hparse.1
        refine ⟨_, (applyField_eq_ok_iff hk.1 hnext).2 ⟨p, hp, ?_, rfl⟩⟩
        rw [hold.value e.1 hnext, first_eq_head?_all, hnil]
        rfl
    obtain ⟨wire', hrest⟩ : ∃ wire', decodeLines card (lineNo + 1) w (fields + 1)
        (l'.map (fieldLine card)) = .ok wire' := by
      refine ih (hold.step hk.1 hw) hk.2 hv.2 (by omega) hparse.2 fun k hk' => ?_
      rw [append_assoc, singleton_append]
      exact honce k hk'
    exact ⟨wire', bind_eq_ok.2 ⟨w, hw, hrest⟩⟩

end

end Occ2

end Occ
