/-
**Which fields of an OCC-1 message survive the contract decoder.**

The decoder reads by first occurrence and by index, so a field can be dropped without an error: a
second value under one key, a number written with a leading zero, or a field of an entry that is not
there.
-/

import OptimusAgent.ContractRead

namespace Occ

open Str Checked List AgentCommMessage Bool

variable {R : Type} [F32 R]

/-! ### Normal forms -/

/-- The number of an evidence reference, without a bound. -/
def looseNumber (reference : Str) : Option ℕ := (stripPrefix "E" reference).bind (parseUnsigned usizeBound)

variable (R) in
/-- The canonical spelling of a value of a slot: numbers in their shortest form, confidences with
three decimals, lists of references without spaces and empty items.  A list without items and an
unknown verification state are not written at all.  A value that does not parse is left alone. -/
def normalize : WireSlot → Str → Option Str
  | .sequence, v => some (((parseFin (2 ^ 64) v).map fun n => dec n.val).getD v)
  | .findingConfidence, v => some (((F32.parse v : Option R).map F32.format3).getD v)
  | .findingEvidence, v =>
    match (splitReferences v).mapM looseNumber with
    | some [] => none
    | some numbers => some ([','].intercalate (numbers.map evidenceId))
    | none => some v
  | .evidenceLineRange, v => some (((lineRangeOf v).map fun r => dec r.1.val ++ '-' :: dec r.2.val).getD v)
  | .evidenceVerified, v => if v = "unknown" then none else some v
  | _, v => some v

theorem normalize_base_isSome (slot : WireSlot) (v : Str) : (normalize R slot.base v).isSome = true := by
  cases slot <;> simp [WireSlot.base, normalize]

/-- The slots whose values have one spelling only. -/
def WireSlot.isVerbatim : WireSlot → Bool
  | sequence | findingConfidence | findingEvidence | evidenceLineRange | evidenceVerified => false
  | _ => true

theorem bind_normalize {slot : WireSlot} (hs : slot.isVerbatim = true) (o : Option Str) :
    o.bind (normalize R slot) = o := by
  cases o with
  | none => rfl
  | some v => cases slot <;> first | rfl | exact absurd hs false_ne_true

theorem WireSlot.isIndexed_iff {slot : WireSlot} : slot.isIndexed = true ↔ slot.base.IsFamily := by
  simp [WireSlot.isIndexed, WireSlot.IsFamily]

/-- The digits of the number of a key. -/
def numberText : Option ℕ → Str
  | none => []
  | some n => dec n

theorem occ1Key_eq (slot : WireSlot) (number : Option ℕ) : occ1Key (slot, number) = slot.word ++ numberText number := by
  cases number with
  | none => simp [occ1Key, numberText]
  | some n => rfl

/-- The key of a slot: the word, followed by digits exactly when the slot is indexed. -/
def IsContractKey (slot : WireSlot) (digits : Str) : Prop :=
  if slot.isIndexed = true then digits ≠ [] ∧ digits.all Char.isDigit = true else digits = []

/-- The digits are those of a machine-sized number from 1 on, without leading zeros. -/
def Canonical (digits : Str) : Prop := digits = [] ∨ ∃ n, 1 ≤ n ∧ n < usizeBound ∧ digits = dec n

variable (R) in
/-- The message `w` has the field in its normal form; a field that normal forms leave out is carried
by the entry it belongs to. -/
def Carried (w : Occ1Message) (slot : WireSlot) (digits value : Str) : Prop :=
  match normalize R slot value with
  | some v => (slot.word ++ digits, v) ∈ w.fields
  | none => w.has (slot.base.word ++ digits) = true ∧ ¬ w.has (slot.word ++ digits) = true

variable (R) in
/-- Every contract field of `w` is carried by `w'`, and the next actions are carried as a list. -/
def Preserves (w w' : Occ1Message) : Prop :=
  (∀ slot digits value, IsContractKey slot digits → (slot.word ++ digits, value) ∈ w.fields →
    Carried R w' slot digits value) ∧ w'.getAll "NEXT" = w.getAll "NEXT"

variable (R) in
/-- Every contract field other than a next action has a canonical key, belongs to an entry that is
there, and has the same normal form as the first value under its key. -/
def Unambiguous (w : Occ1Message) : Prop :=
  ∀ slot digits value, IsContractKey slot digits → (slot.word ++ digits, value) ∈ w.fields →
    slot ≠ .nextAction → Canonical digits ∧ w.has (slot.base.word ++ digits) = true ∧
      (w.get (slot.word ++ digits)).bind (normalize R slot) = normalize R slot value

/-! ### What the re-encoded message holds -/

theorem mapM_looseNumber {count : ℕ} {references : List Str} {numbers : List ℕ}
    (h : Names count references numbers) : references.mapM looseNumber = some numbers := by
  induction h with
  | nil => rfl
  | cons h _ ih =>
    have hn := (Option.filter_eq_some_iff.1 h).1
    rw [mapM_cons, looseNumber, hn, ih]
    rfl

theorem normalize_references {count : ℕ} {v : Str} {numbers : List ℕ}
    (h : Names count (splitReferences v) numbers) :
    normalize R .findingEvidence v =
      if numbers.map evidenceId = [] then none
      else some ([','].intercalate (numbers.map evidenceId)) := by
  rw [normalize, mapM_looseNumber h]
  cases numbers <;> simp

/-- A family has an entry for an index exactly up to its count. -/
theorem Counts.field_isSome_iff {w : Occ1Message} {b : WireSlot} {len : ℕ}
    (h : Counts w b.word len) {n : ℕ} (hn : 1 ≤ n) (hlt : n < usizeBound) :
    (w.field (b, some n)).isSome = true ↔ n ≤ len := by
  have hfield : (w.field (b, some n)).isSome = true ↔ w.has (b.word ++ dec n) = true := by
    rw [Occ1Message.has_iff, Option.isSome_iff_exists]
    rfl
  rw [hfield]
  constructor
  · intro hhas
    obtain ⟨v, hv⟩ := Occ1Message.has_iff.1 hhas
    rw [← h.highest]
    refine le_highestIndex (Keyed.mem_of_first_eq_some hv) ?_
    rw [keyIndex, stripPrefix_append, Option.bind_some, parseUnsigned_dec hlt]
  · exact fun hle => h.present n hn hle

variable {w : Occ1Message} {m : AgentCommMessage R}

theorem WireSlot.base_base (slot : WireSlot) : slot.base.base = slot.base := by
  cases slot <;> rfl

theorem WireSlot.isIndexed_base (slot : WireSlot) : slot.base.isIndexed = slot.isIndexed := by
  rw [isIndexed, isIndexed, base_base]

variable {slot : WireSlot} {number : Option ℕ}

theorem fitsSlot_base : FitsSlot slot.base number ↔ FitsSlot slot number := by
  cases number <;> simp only [FitsSlot, WireSlot.isIndexed_base]

theorem all_isDigit_numberText (number : Option ℕ) : (numberText number).all Char.isDigit = true := by
  cases number with
  | none => rfl
  | some n => exact all_isDigit_dec n

theorem IsContractKey.all_isDigit {digits : Str} (h : IsContractKey slot digits) : digits.all Char.isDigit = true := by
  unfold IsContractKey at h
  split at h
  · exact h.2
  · rw [h]
    rfl

/-- A canonical key of a slot has a number that fits the slot. -/
theorem Canonical.exists_number {digits : Str} (hkey : IsContractKey slot digits)
    (h : Canonical digits) : ∃ number, digits = numberText number ∧ FitsSlot slot number := by
  unfold IsContractKey at hkey
  split at hkey
  · next hi =>
    rcases h with rfl | ⟨n, hn, hlt, rfl⟩
    · exact absurd rfl hkey.1
    · exact ⟨some n, rfl, hi, hn, hlt⟩
  · next hi => exact ⟨none, hkey, eq_false_iff.2 hi⟩

theorem canonical_numberText (h : FitsSlot slot number) : Canonical (numberText number) := by
  cases number with
  | none => exact .inl rfl
  | some n => exact .inr ⟨n, h.2.1, h.2.2, rfl⟩

theorem Occ1Message.has_iff_field :
    w.has (slot.word ++ numberText number) = true ↔ (w.field (slot, number)).isSome = true := by
  rw [Occ1Message.has_iff, Option.isSome_iff_exists, ← occ1Key_eq]
  rfl

/-- Apart from the next actions, a message has one field under a key. -/
theorem wireValue_of_mem {fmt : WireFormat} {e : WireKey × Str} (he : e ∈ m.wireFields fmt)
    (hnext : e.1.1 ≠ .nextAction) : m.wireValue fmt e.1 = some e.2 := by
  have hkey : e.1 ≠ (.nextAction, none) := fun h => hnext (congrArg Prod.fst h)
  have hall : e.2 ∈ Keyed.all e.1 (m.wireFields fmt) := Keyed.mem_all_iff.2 he
  rwa [all_wireFields, wireValues, if_neg hkey, Option.mem_toList] at hall

/-- A field of the re-encoded message under the key of a slot is the field of the slot. -/
theorem number_of_mem_fields {digits v : Str}
    (hd : digits.all Char.isDigit = true) (hnext : slot ≠ .nextAction)
    (hmem : (slot.word ++ digits, v) ∈ m.fields) :
    ∃ number, digits = numberText number ∧ m.wireValue occ1Format (slot, number) = some v := by
  rw [fields_eq_wireFields] at hmem
  obtain ⟨⟨⟨slot', number⟩, v'⟩, he, heq⟩ := mem_map.1 hmem
  rw [occ1Field, Prod.mk.injEq, occ1Key_eq] at heq
  obtain ⟨hkey, rfl⟩ := heq
  obtain ⟨hword, hdigits⟩ := (append_digits_inj slot'.endsInDigit_word slot.endsInDigit_word
    (all_isDigit_numberText number) hd).1 hkey
  obtain rfl := WireSlot.word_injective hword
  exact ⟨number, hdigits.symm, wireValue_of_mem he hnext⟩

/-- A list entry that is written has a number that fits, and its base field was read. -/
theorem entry_of_lt {b : WireSlot} {len i : ℕ} (hc : Counts w b.word len) (hi : i < len) :
    i + 1 < usizeBound ∧ (w.field (b, some (i + 1))).isSome = true := by
  have hlt : i + 1 < usizeBound := lt_of_le_of_lt (Nat.succ_le_of_lt hi) (hc.highest ▸ highestIndex_lt b.word w.fields)
  exact ⟨hlt, (hc.field_isSome_iff (by omega) hlt).2 hi⟩

section

variable [Host]

section

variable (h : w.Reads m)

include h

/-- A finding that is read, written again. -/
theorem wireValue_finding (hbase : slot.base = .findingStatement) {i : ℕ} (hi : i < m.findings.length) :
    m.wireValue occ1Format (slot, some (i + 1)) = (w.field (slot, some (i + 1))).bind (normalize R slot) := by
  have hget := getElem?_eq_getElem hi
  have hf := h.findings i _ hget
  cases slot <;> simp only [WireSlot.base, reduceCtorEq] at hbase
  case findingStatement => simp [wireValue, hget, hf.statement, normalize]
  case findingConfidence =>
    simp only [wireValue, hget, Option.bind_some]
    rcases hf.confidence with ⟨hw, hc⟩ | ⟨text, c, hw, hp, hc⟩
    · rw [hw, hc]
      rfl
    · simp [hw, hc, normalize, hp]
  case findingEvidence =>
    simp only [wireValue, hget, Option.bind_some]
    obtain ⟨numbers, hn, he⟩ := hf.evidence
    cases hw : w.field (.findingEvidence, some (i + 1)) with
    | none =>
      rw [hw] at hn
      cases hn
      simp [he]
    | some v =>
      rw [hw] at hn
      rw [Option.bind_some, normalize_references hn, he]
      rfl

/-- An evidence entry that is read, written again. -/
theorem wireValue_evidence (hbase : slot.base = .evidenceRef) {i : ℕ} (hi : i < m.evidence.length) :
    m.wireValue occ1Format (slot, some (i + 1)) = (w.field (slot, some (i + 1))).bind (normalize R slot) := by
  have hget := getElem?_eq_getElem hi
  have he := h.evidence i _ hget
  cases slot <;> simp only [WireSlot.base, reduceCtorEq] at hbase
  case evidenceRef =>
    obtain ⟨encoded, hw, hsplit⟩ := he.ref
    rw [splitOnce_eq_some_iff] at hsplit
    simp [wireValue, hget, hw, hsplit.1, normalize]
  case evidenceLineRange =>
    simp only [wireValue, hget, Option.bind_some]
    rcases he.lineRange with ⟨hw, hl⟩ | ⟨text, r, hw, hp, hl⟩
    · rw [hw, hl]
      rfl
    · simp [hw, hl, normalize, hp]
  case evidenceDigest =>
    rw [bind_normalize rfl, ← he.digest]
    simp [wireValue, hget]
  case evidenceRevision =>
    rw [bind_normalize rfl, ← he.revision]
    simp [wireValue, hget]
  case evidenceVerified =>
    simp only [wireValue, hget, Option.bind_some]
    obtain ⟨v, hv, hj⟩ := he.verified
    rw [hj]
    rcases hv with ⟨hw, hv⟩ | ⟨text, b, hw, hp, hv⟩
    · rw [hw, hv]
      rfl
    · rw [hw, hv, Option.bind_some, normalize]
      unfold verifiedOf at hp
      split_ifs at hp with h₁ h₂ h₃
      · cases hp
        rw [if_neg (by rw [h₁]; decide), h₁]
        rfl
      · cases hp
        rw [if_neg (by rw [h₂]; decide), h₂]
        rfl
      · cases hp
        rw [if_pos h₃]
        rfl

/-- The verification record that is read, written again. -/
theorem wireValue_verification (hbase : slot.base = .verificationClaim)
    (hclaim : (w.field (.verificationClaim, none)).isSome = true) :
    m.wireValue occ1Format (slot, none) = w.field (slot, none) := by
  have hv := h.verification
  cases hm : m.verification with
  | none =>
    rw [hm] at hv
    rw [hv.1] at hclaim
    exact absurd hclaim false_ne_true
  | some v =>
    rw [hm] at hv
    obtain ⟨h₁, h₂, h₃, h₄⟩ := hv
    cases slot <;> simp only [WireSlot.base, reduceCtorEq] at hbase
    all_goals simp [wireValue, *]

/-- The sequence number that is read, written again. -/
theorem wireValue_sequence : m.wireValue occ1Format (.sequence, none) =
      (w.field (.sequence, none)).bind (normalize R .sequence) := by
  simp only [wireValue]
  rcases h.sequence with ⟨hw, hs⟩ | ⟨text, n, hw, hp, hs⟩
  · rw [hw, hs]
    rfl
  · rw [hw, hs, Option.bind_some, normalize, hp]
    rfl

/-- The other fields without a number are written as they are read. -/
theorem wireValue_scalar (hslot : slot.isIndexed = false) (hseq : slot ≠ .sequence)
    (hnext : slot ≠ .nextAction) (hclaim : slot.base ≠ .verificationClaim) :
    m.wireValue occ1Format (slot, none) = w.field (slot, none) ∧ slot.base = slot ∧ slot.isVerbatim = true := by
  cases slot
  case messageId => exact ⟨h.messageId, rfl, rfl⟩
  case taskId => exact ⟨h.taskId.symm, rfl, rfl⟩
  case parentTaskId => exact ⟨h.parentTaskId, rfl, rfl⟩
  case traceId => exact ⟨h.traceId, rfl, rfl⟩
  case sender => exact ⟨h.sender, rfl, rfl⟩
  case recipient => exact ⟨h.recipient, rfl, rfl⟩
  case kind => exact ⟨h.kind.symm, rfl, rfl⟩
  case status => exact ⟨h.status.symm, rfl, rfl⟩
  case timestamp => exact ⟨h.timestamp, rfl, rfl⟩
  case expiry => exact ⟨h.expiry, rfl, rfl⟩
  case sequence => exact absurd rfl hseq
  case nextAction => exact absurd rfl hnext
  all_goals first | exact absurd rfl hclaim | exact absurd hslot (by decide)

/-- What the re-encoded message holds under a key of an entry that is there: the normal form of the
first value of the original message. -/
theorem wireValue_of_entry (hnext : slot ≠ .nextAction) (hfits : FitsSlot slot number)
    (hentry : (w.field (slot.base, number)).isSome = true) :
    m.wireValue occ1Format (slot, number) = (w.field (slot, number)).bind (normalize R slot) := by
  cases number with
  | none =>
    by_cases hv : slot.base = .verificationClaim
    · rw [wireValue_verification h hv (hv ▸ hentry)]
      cases slot <;> first | rw [bind_normalize rfl] | simp [WireSlot.base] at hv
    · by_cases hseq : slot = .sequence
      · rw [hseq]
        exact wireValue_sequence h
      · obtain ⟨hvalue, -, hverbatim⟩ := wireValue_scalar h hfits hseq hnext hv
        rw [bind_normalize hverbatim, hvalue]
  | some n =>
    obtain ⟨hindexed, hn, hlt⟩ := hfits
    obtain ⟨i, rfl⟩ : ∃ i, n = i + 1 := ⟨n - 1, by omega⟩
    rcases WireSlot.isIndexed_iff.1 hindexed with hb | hb | hb | hb
    · rw [hb] at hentry
      exact wireValue_finding h hb ((h.findingCount.field_isSome_iff (b := .findingStatement) hn hlt).1 hentry)
    · rw [hb] at hentry
      exact wireValue_evidence h hb ((h.evidenceCount.field_isSome_iff (b := .evidenceRef) hn hlt).1 hentry)
    · rw [hb] at hentry
      obtain rfl : slot = .artifact := by cases slot <;> first | rfl | simp [WireSlot.base] at hb
      have hi := (h.artifactCount.field_isSome_iff (b := .artifact) hn hlt).1 hentry
      rw [bind_normalize rfl, h.artifacts i _ (getElem?_eq_getElem hi)]
      simp [wireValue, getElem?_eq_getElem (Nat.lt_of_succ_le hi)]
    · rw [hb] at hentry
      obtain rfl : slot = .dependency := by
        cases slot <;> first | rfl | simp [WireSlot.base] at hb
      have hi := (h.dependencyCount.field_isSome_iff (b := .dependency) hn hlt).1 hentry
      rw [bind_normalize rfl, h.dependencies i _ (getElem?_eq_getElem hi)]
      simp [wireValue, getElem?_eq_getElem (Nat.lt_of_succ_le hi)]

/-- The re-encoded message has a key only for an entry that was there. -/
theorem entry_of_wireValue (hnext : slot ≠ .nextAction) (hv : (m.wireValue occ1Format (slot, number)).isSome = true) :
    FitsSlot slot number ∧ (w.field (slot.base, number)).isSome = true := by
  match number with
  | none =>
    by_cases hb : slot.base = .verificationClaim
    · cases hm : m.verification with
      | none => cases slot <;> simp [wireValue, WireSlot.base, hm] at hv hb
      | some v =>
        have hread := h.verification
        rw [hm] at hread
        rw [hb, hread.1]
        exact ⟨by cases slot <;> first | rfl | simp [WireSlot.base] at hb, rfl⟩
    · have hfits : slot.isIndexed = false := by
        cases slot <;> first | rfl | exact absurd hv false_ne_true
      refine ⟨hfits, ?_⟩
      by_cases hseq : slot = .sequence
      · subst hseq
        rcases h.sequence with ⟨-, hs⟩ | ⟨text, n, hw, -, -⟩
        · simp [wireValue, hs] at hv
        · exact congrArg Option.isSome hw
      · obtain ⟨hvalue, hbase, -⟩ := wireValue_scalar h hfits hseq hnext hb
        rw [hbase, ← hvalue]
        exact hv
  | some 0 => cases slot <;> exact absurd hv false_ne_true
  | some (i + 1) =>
    -- the entry number `i + 1` is written, so it is within the list that was read
    have hin : ∀ len, Counts w slot.base.word len → (len ≤ i → m.wireValue occ1Format (slot, some (i + 1)) = none) →
        i + 1 < usizeBound ∧ (w.field (slot.base, some (i + 1))).isSome = true := by
      intro len hc hnone
      refine entry_of_lt hc (not_le.1 fun hle => ?_)
      rw [hnone hle] at hv
      exact absurd hv false_ne_true
    have hfit : slot.base.IsFamily → i + 1 < usizeBound ∧ (w.field (slot.base, some (i + 1))).isSome = true →
        FitsSlot slot (some (i + 1)) ∧ (w.field (slot.base, some (i + 1))).isSome = true :=
      fun hb h => ⟨⟨WireSlot.isIndexed_iff.2 hb, by omega, h.1⟩, h.2⟩
    by_cases hb : slot.base.IsFamily
    · refine hfit hb ?_
      rcases hb with hb | hb | hb | hb
      · refine hin m.findings.length (hb ▸ h.findingCount) fun hle => ?_
        cases slot <;> simp [wireValue, WireSlot.base, hle] at hb ⊢
      · refine hin m.evidence.length (hb ▸ h.evidenceCount) fun hle => ?_
        cases slot <;> simp [wireValue, WireSlot.base, hle] at hb ⊢
      · refine hin m.artifacts.length (hb ▸ h.artifactCount) fun hle => ?_
        cases slot <;> simp [wireValue, WireSlot.base, hle] at hb ⊢
      · refine hin m.dependencies.length (hb ▸ h.dependencyCount) fun hle => ?_
        cases slot <;> simp [wireValue, WireSlot.base, hle] at hb ⊢
    · cases slot <;> first
        | exact absurd hv false_ne_true
        | simp [WireSlot.IsFamily, WireSlot.base] at hb

end

/-! ### Which fields survive -/

/-- A contract field of an accepted message survives exactly when its key is canonical, it belongs
to an entry that is there, and it has the normal form of the first value under its key. -/
theorem carried_iff (h : w.Reads m) {digits value : Str}
    (hkey : IsContractKey slot digits) (hnext : slot ≠ .nextAction) :
    Carried R ⟨m.fields⟩ slot digits value ↔ Canonical digits ∧ w.has (slot.base.word ++ digits) = true ∧
        (w.get (slot.word ++ digits)).bind (normalize R slot) = normalize R slot value := by
  have hbnext : slot.base ≠ .nextAction := by
    cases slot <;> first | exact absurd rfl hnext | exact nofun
  -- under a number that fits, survival compares the normal forms
  have hmain : ∀ number, FitsSlot slot number → (w.field (slot.base, number)).isSome = true →
      m.wireValue occ1Format (slot, number) = (w.get (slot.word ++ numberText number)).bind (normalize R slot) := by
    intro number hfits hentry
    rw [wireValue_of_entry h hnext hfits hentry, ← occ1Key_eq]
    rfl
  constructor
  · intro hc
    unfold Carried at hc
    split at hc
    · next v hv =>
      obtain ⟨number, rfl, hval⟩ := number_of_mem_fields hkey.all_isDigit hnext hc
      obtain ⟨hfits, hentry⟩ := entry_of_wireValue h hnext (by rw [hval]; rfl)
      refine ⟨canonical_numberText hfits, Occ1Message.has_iff_field.2 hentry, ?_⟩
      rw [← hmain number hfits hentry, hval, hv]
    · next hv =>
      obtain ⟨v, hbase⟩ := Occ1Message.has_iff.1 hc.1
      obtain ⟨number, rfl, hval⟩ := number_of_mem_fields hkey.all_isDigit hbnext
        (Keyed.mem_of_first_eq_some hbase)
      obtain ⟨hfits, hentry⟩ := entry_of_wireValue h hbnext (by rw [hval]; rfl)
      rw [WireSlot.base_base] at hentry
      rw [fitsSlot_base] at hfits
      refine ⟨canonical_numberText hfits, Occ1Message.has_iff_field.2 hentry, ?_⟩
      rw [← hmain number hfits hentry, hv, ← field_fields]
      have hnone := hc.2
      rw [Occ1Message.has_iff_field] at hnone
      simpa using hnone
  · rintro ⟨hcanon, hhas, heq⟩
    obtain ⟨number, rfl, hfits⟩ := hcanon.exists_number hkey
    rw [Occ1Message.has_iff_field] at hhas
    rw [← hmain number hfits hhas, ← field_fields] at heq
    unfold Carried
    split
    · next v hv =>
      rw [hv, Occ1Message.field, occ1Key_eq] at heq
      exact Keyed.mem_of_first_eq_some heq
    · next hv =>
      rw [hv] at heq
      have hbase := wireValue_of_entry h hbnext (fitsSlot_base.2 hfits)
        (by rw [WireSlot.base_base]; exact hhas)
      obtain ⟨v, hv⟩ := Option.isSome_iff_exists.1 hhas
      rw [hv, Option.bind_some] at hbase
      rw [Occ1Message.has_iff_field, Occ1Message.has_iff_field, heq, field_fields, hbase]
      exact ⟨normalize_base_isSome slot v, false_ne_true⟩

/-- The next actions are carried as a list. -/
theorem getAll_next_fields (h : w.Reads m) : (⟨m.fields⟩ : Occ1Message).getAll "NEXT" = w.getAll "NEXT" :=
  (getAll_nextAction_fields m).trans h.nextActions

/-- Decoding an OCC-1 message and encoding the result again keeps every contract field exactly when
the message is unambiguous: every key is canonical and belongs to an entry that is there, and all
values under one key have one normal form.  In every other accepted message some field is dropped
without an error. -/
theorem reencode_preserves_iff {w : Occ1Message} {m : AgentCommMessage R} (h : fromOcc1 w = .ok m) :
    ∃ w', m.toOcc1 = .ok w' ∧ (Preserves R w w' ↔ Unambiguous R w) := by
  rw [fromOcc1_eq_ok_iff] at h
  refine ⟨⟨m.fields⟩, toOcc1_eq_ok_iff.2 ⟨h.valid, rfl⟩, ?_⟩
  constructor
  · rintro ⟨hall, -⟩ slot digits value hkey hmem hnext
    exact (carried_iff h hkey hnext).1 (hall slot digits value hkey hmem)
  · intro hu
    refine ⟨fun slot digits value hkey hmem => ?_, getAll_next_fields h⟩
    by_cases hnext : slot = .nextAction
    · subst hnext
      obtain rfl : digits = [] := hkey
      -- the normal form of a next action is itself
      rw [append_nil] at hmem
      have hvalue : value ∈ (⟨m.fields⟩ : Occ1Message).getAll "NEXT" := by
        rw [getAll_next_fields h]
        exact Keyed.mem_all_iff.2 hmem
      exact Keyed.mem_all_iff.1 hvalue
    · exact (carried_iff h hkey hnext).2 (hu slot digits value hkey hmem hnext)

end

section

open Sample

/-- Two statuses, a finding with a leading zero, a confidence and a receipt without an entry. -/
def ambiguousMessage : Occ1Message := ⟨[("TASK", "t1"), ("KIND", "RESULT"), ("STATUS", "done"), ("STATUS", "failed"),
    ("F1", "lock held"), ("F01", "lock free"), ("FC3", "0.900"), ("VR", "run-7")]⟩

/-- The contract message read from it. -/
def ambiguousRead : AgentCommMessage Tenths :=
  { (new "RESULT" "t1" "done" : AgentCommMessage Tenths) with
    findings := [{ id := "F1", statement := "lock held", confidence := none, evidence := [] }] }

/-- A message with two statuses is accepted, and the second status is gone when the message is
encoded again; so are a finding with a leading zero, a confidence without a finding and a receipt
without a verification record. -/
theorem ambiguousMessage_not_preserved : fromOcc1 ambiguousMessage = .ok ambiguousRead ∧
      ambiguousRead.toOcc1 = .ok ⟨[("TASK", "t1"), ("KIND", "RESULT"), ("STATUS", "done"), ("F1", "lock held")]⟩ ∧
      ∀ w', ambiguousRead.toOcc1 = .ok w' → ¬ Preserves Tenths ambiguousMessage w' := by
  have hout : ambiguousRead.toOcc1 = .ok ⟨[("TASK", "t1"), ("KIND", "RESULT"), ("STATUS", "done"),
      ("F1", "lock held")]⟩ := by
    decide
  refine ⟨by decide, hout, ?_⟩
  rintro w' hw ⟨hall, -⟩
  rw [hout, Except.ok.injEq] at hw
  subst hw
  have hmem := hall .status [] "failed" rfl (by decide)
  revert hmem
  show ¬ _ ∈ _
  decide

/-- What is written for the message that was read. -/
def plainMessage : Occ1Message := ⟨[("TASK", "t1"), ("KIND", "RESULT"), ("STATUS", "done"), ("F1", "lock held")]⟩

theorem unambiguous_plainMessage : Unambiguous Tenths plainMessage := by
  intro slot digits value hkey hmem _
  have hfield : ∀ field ∈ plainMessage.fields, slot.word ++ digits = field.1 →
      digits = field.1.drop slot.word.length := fun field _ h => by rw [← h, drop_left]
  have hdigits := hfield _ hmem rfl
  have hcases : ∀ field ∈ plainMessage.fields, ∀ slot : WireSlot, slot ∈ WireSlot.inventory →
      slot.word ++ field.1.drop slot.word.length = field.1 →
      (field.1.drop slot.word.length = [] ∨ field.1.drop slot.word.length = dec 1) ∧
      plainMessage.has (slot.base.word ++ field.1.drop slot.word.length) = true ∧
      (plainMessage.get field.1).bind (normalize Tenths slot) = normalize Tenths slot field.2 := by
    decide +kernel
  have hslot : slot ∈ WireSlot.inventory := by cases slot <;> decide
  obtain ⟨hcanon, hhas, hsame⟩ := hcases _ hmem slot hslot (by rw [← hdigits])
  rw [← hdigits] at hcanon hhas
  exact ⟨hcanon.imp_right fun h => ⟨1, le_rfl, by decide, h⟩, hhas, hsame⟩

theorem reencode_preserves_iff_plainMessage : fromOcc1 plainMessage = .ok ambiguousRead ∧
    ∃ w', ambiguousRead.toOcc1 = .ok w' ∧ Preserves Tenths plainMessage w' := by
  have h : fromOcc1 plainMessage = .ok ambiguousRead := by decide
  obtain ⟨w', hw, hiff⟩ := reencode_preserves_iff h
  exact ⟨h, w', hw, hiff.2 unambiguous_plainMessage⟩

end

end Occ
