/-
**What the OCC-1 contract decoder reads.**

The decoder of `core/occ/contract.rs` looks its fields up one by one and stops at the first that is
missing or malformed.  This module turns that program into a relation between an OCC-1 message and
the contract message read from it, one lemma for each function of the decoder.
-/

import OptimusAgent.WireImage

namespace Occ

open Str Checked List AgentCommMessage

variable {R : Type}

/-! ### Counting the entries of a family -/

/-- The index of a key of a family. -/
def keyIndex (family key : Str) : Option ℕ := (stripPrefix family key).bind (parseUnsigned usizeBound)

theorem foldl_max_le {l : List ℕ} {a b : ℕ} : l.foldl max a ≤ b ↔ a ≤ b ∧ ∀ i ∈ l, i ≤ b := by
  induction l generalizing a with
  | nil => simp
  | cons i l ih => simp only [foldl_cons, ih, max_le_iff, forall_mem_cons, and_assoc]

theorem foldl_max_mem (l : List ℕ) (a : ℕ) : l.foldl max a = a ∨ l.foldl max a ∈ l := by
  induction l generalizing a with
  | nil => simp
  | cons i l ih =>
    rw [foldl_cons]
    rcases ih (max a i) with h | h
    · rcases max_choice a i with h' | h'
      · exact .inl (h.trans h')
      · exact .inr (by rw [h, h']; exact mem_cons_self ..)
    · exact .inr (mem_cons_of_mem _ h)

/-- The scan of the source is a maximum over the indices of the family. -/
theorem highestIndex_eq (family : Str) (fields : List (Str × Str)) :
    highestIndex family fields = (fields.filterMap fun kv => keyIndex family kv.1).foldl max 0 := by
  unfold highestIndex
  generalize (0 : ℕ) = highest
  induction fields generalizing highest with
  | nil => simp
  | cons kv fields ih =>
    rw [foldl_cons, ih, filterMap_cons]
    cases hk : (stripPrefix family kv.1).bind (parseUnsigned usizeBound) with
    | none | some i => simp [keyIndex, hk]

theorem le_highestIndex {family : Str} {fields : List (Str × Str)} {kv : Str × Str} {i : ℕ}
    (h : kv ∈ fields) (hi : keyIndex family kv.1 = some i) : i ≤ highestIndex family fields := by
  rw [highestIndex_eq]
  exact (foldl_max_le.1 le_rfl).2 i (mem_filterMap.2 ⟨kv, h, hi⟩)

theorem highestIndex_mem (family : Str) (fields : List (Str × Str)) : highestIndex family fields = 0 ∨
      ∃ kv ∈ fields, keyIndex family kv.1 = some (highestIndex family fields) := by
  rw [highestIndex_eq]
  exact (foldl_max_mem _ 0).imp_right mem_filterMap.1

theorem highestIndex_lt (family : Str) (fields : List (Str × Str)) : highestIndex family fields < usizeBound := by
  rcases highestIndex_mem family fields with h | ⟨kv, -, h⟩
  · rw [h]
    decide
  · obtain ⟨s, -, hs⟩ := Option.bind_eq_some_iff.1 h
    exact parseUnsigned_lt hs

/-- The family has the entries `1..=n`, and `n` is its highest index. -/
structure Counts (w : Occ1Message) (family : Str) (n : ℕ) : Prop where
  highest : highestIndex family w.fields = n
  present : ∀ i, 1 ≤ i → i ≤ n → w.has (family ++ dec i) = true

variable {n : ℕ}

theorem indexedCount_eq_ok_iff {w : Occ1Message} {family : Str} :
    (indexedCount w family : Except (ContractError R) ℕ) = .ok n ↔ Counts w family n := by
  simp only [indexedCount, bind_eq_ok, forM_eq_ok_iff, rejectIf_eq_ok, exists_const, not_not,
    mem_range'_1, pure_eq_ok, Except.ok.injEq]
  constructor
  · rintro ⟨h, rfl⟩
    exact ⟨rfl, fun i h₁ h₂ => h i ⟨h₁, by omega⟩⟩
  · rintro ⟨rfl, h⟩
    exact ⟨fun i hi => h i hi.1 (by omega), rfl⟩

/-- The key word of another slot cannot be taken for an index of the family `b`: after the word of
`b` it goes on with a letter, or it differs from that word. -/
def foreignWord (b slot : WireSlot) : Bool :=
  match stripPrefix b.word slot.word with
  | some (c :: _) => !c.isDigit && c != '+'
  | some [] => false
  | none => !slot.word.isPrefixOf b.word

theorem foreignWord_of_ne {b slot : WireSlot} (hb : b.IsFamily) (h : slot ≠ b) : foreignWord b slot = true := by
  rcases hb with rfl | rfl | rfl | rfl <;> cases slot <;> first | exact absurd rfl h | rfl

/-- The index of an OCC-1 key of a message in a family. -/
theorem keyIndex_occ1Key {b : WireSlot} (hb : b.IsFamily) (slot : WireSlot) (number : Option ℕ) :
    keyIndex b.word (occ1Key (slot, number)) =
      if slot = b then number.bind (fun n => parseUnsigned usizeBound (dec n)) else none := by
  obtain ⟨t, ht⟩ : ∃ t, occ1Key (slot, number) = slot.word ++ t := by
    cases number with
    | none => exact ⟨[], by rw [occ1Key, append_nil]⟩
    | some n => exact ⟨dec n, rfl⟩
  split
  · next h =>
    subst h
    cases number with
    | none =>
      have : occ1Key (slot, none) = slot.word ++ [] := by rw [occ1Key, append_nil]
      rw [keyIndex, this, stripPrefix_append, Option.bind_some, parseUnsigned_nil, Option.bind_none]
    | some n => rw [keyIndex, occ1Key, stripPrefix_append, Option.bind_some, Option.bind_some]
  · next h =>
    have hf := foreignWord_of_ne hb h
    rw [keyIndex, ht]
    unfold foreignWord at hf
    split at hf
    · next c r hs =>
      -- the word of the slot extends the word of the family by a letter
      rw [stripPrefix_eq_some_iff] at hs
      simp only [Bool.and_eq_true, Bool.not_eq_true', bne_iff_ne] at hf
      rw [hs, append_assoc, stripPrefix_append, Option.bind_some, cons_append,
        parseUnsigned_cons_of_not_digit _ hf.1 hf.2]
    · exact absurd hf Bool.false_ne_true
    · next hs =>
      have : ¬ slot.word <+: b.word := by
        rw [← isPrefixOf_iff_prefix]
        simp only [Bool.not_eq_true'] at hf
        rw [hf]
        exact Bool.false_ne_true
      rw [stripPrefix_append_eq_none hs this, Option.bind_none]

/-! ### Reading the fields -/

/-- The value under a key. -/
def Occ1Message.field (w : Occ1Message) (k : WireKey) : Option Str := w.get (occ1Key k)

/-- The verification state that a text names. -/
def verifiedOf (verified : Str) : Option (Option Bool) :=
  if verified = "pass" then some (some true)
  else if verified = "fail" then some (some false)
  else if verified = "unknown" then some none
  else none

/-- The positions that a field of references names. -/
def occ1References : ReferenceReader := fun count value numbers =>
  Names count ((value.map splitReferences).getD []) numbers

/-- The verification record as the decoder reads it.  A receipt without a claim is not looked at. -/
def ReadsVerification (field : WireTable) : Option Verification → Prop
  | some v => field (.verificationClaim, none) = some v.claim ∧ field (.verificationStatus, none) = some v.status ∧
      field (.verificationMethod, none) = some v.method ∧
      v.receipt = field (.verificationReceipt, none)
  | none => field (.verificationClaim, none) = none ∧
      field (.verificationStatus, none) = none ∧ field (.verificationMethod, none) = none

/-- The contract message that the decoder reads from an OCC-1 message. -/
abbrev Occ1Message.Reads [Host] [F32 R] (w : Occ1Message) (m : AgentCommMessage R) : Prop :=
  Occ.Reads w.field (w.getAll (occ1Key (.nextAction, none))) (fun b n => Counts w b.word n)
    occ1References verifiedOf (ReadsVerification w.field) m

/-- A loop over the numbers `1..=n` that collects its results. -/
theorem mapM_range'_eq_ok_iff {ε α : Type} {f : ℕ → Except ε α} {l : List α} :
    (range' 1 n).mapM f = .ok l ↔ l.length = n ∧ ∀ i x, l[i]? = some x → f (i + 1) = .ok x := by
  have hrange : (range' 1 n).length = n := length_range'
  rw [mapM_eq_ok_iff, forall₂_iff_get]
  constructor
  · rintro ⟨hlen, h⟩
    refine ⟨hlen.symm.trans hrange, fun i x hx => ?_⟩
    obtain ⟨hi, rfl⟩ := List.getElem?_eq_some_iff.1 hx
    have := h i (by omega) hi
    simpa [Nat.add_comm] using this
  · rintro ⟨hlen, h⟩
    refine ⟨hrange.trans hlen.symm, fun i h₁ h₂ => ?_⟩
    have := h i _ (getElem?_eq_getElem h₂)
    simpa [Nat.add_comm] using this

section

variable [Host] {index count : ℕ} {w : Occ1Message}

theorem decodeReference_eq_ok_iff {reference id : Str} :
    (decodeReference index count reference : Except (ContractError R) Str) = .ok id ↔
      ∃ n, refNumber count reference = some n ∧ id = evidenceId n := by
  simp only [decodeReference, bind_eq_ok, okOr_eq_ok, rejectIf_eq_ok, exists_const, not_or, not_lt,
    pure_eq_ok, Except.ok.injEq, refNumber, Option.filter_eq_some_iff, decide_eq_true_eq,
    evidenceId]
  constructor
  · rintro ⟨n, hn, ⟨h₀, hle⟩, rfl⟩
    exact ⟨n, ⟨hn, by omega, hle⟩, rfl⟩
  · rintro ⟨n, ⟨hn, h₁, hle⟩, rfl⟩
    exact ⟨n, hn, ⟨by omega, hle⟩, rfl⟩

theorem mapM_decodeReference_eq_ok_iff {references ids : List Str} :
    (references.mapM (decodeReference index count) : Except (ContractError R) (List Str)) =
        .ok ids ↔ ∃ numbers, Names count references numbers ∧ ids = numbers.map evidenceId := by
  simp only [mapM_eq_ok_iff, decodeReference_eq_ok_iff, Names]
  constructor
  · intro h
    induction h with
    | nil => exact ⟨[], .nil, rfl⟩
    | cons h _ ih =>
      obtain ⟨n, hn, rfl⟩ := h
      obtain ⟨numbers, hnum, rfl⟩ := ih
      exact ⟨n :: numbers, .cons hn hnum, rfl⟩
  · rintro ⟨numbers, h, rfl⟩
    rw [forall₂_map_right_iff]
    exact h.imp fun r n hn => ⟨n, hn, rfl⟩

theorem decodeFinding_eq_ok_iff [F32 R] {f : Finding R} :
    decodeFinding w count n = .ok f ↔ ReadsFinding w.field occ1References count n f := by
  simp only [decodeFinding, bind_eq_ok, okOr_eq_ok, mapM_decodeReference_eq_ok_iff,
    optM_eq_ok_iff_optReads (p := F32.parse) (fun a b => okOr_eq_ok), pure_eq_ok,
    Except.ok.injEq]
  constructor
  · rintro ⟨statement, hs, confidence, hc, evidence, he, rfl⟩
    exact ⟨rfl, hs, hc, he⟩
  · intro h
    refine ⟨f.statement, h.statement, f.confidence, h.confidence, f.evidence, h.evidence, ?_⟩
    rw [show "F" ++ dec n = f.id from h.id.symm]

omit [Host] in
theorem decodeLineRange_eq_ok_iff {range : Str} {r : U32 × U32} :
    (decodeLineRange index range : Except (ContractError R) (U32 × U32)) = .ok r ↔ lineRangeOf range = some r := by
  simp only [decodeLineRange, bind_eq_ok, okOr_eq_ok, pure_eq_ok, Except.ok.injEq, lineRangeOf,
    Option.bind_eq_bind, Option.bind_eq_some_iff, Option.some.injEq]

theorem decodeVerified_eq_ok_iff {verified : Str} {v : Option Bool} :
    (decodeVerified index verified : Except (ContractError R) (Option Bool)) = .ok v ↔
      verifiedOf verified = some v := by
  unfold decodeVerified verifiedOf
  split_ifs <;> simp

theorem decodeEvidence_eq_ok_iff {e : EvidenceRef} :
    (decodeEvidence w n : Except (ContractError R) EvidenceRef) = .ok e ↔ ReadsEvidence w.field verifiedOf n e := by
  simp only [decodeEvidence, bind_eq_ok, okOr_eq_ok, optM_eq_ok_iff_optReads (fun _ _ => decodeLineRange_eq_ok_iff),
    optM_eq_ok_iff_optReads (fun _ _ => decodeVerified_eq_ok_iff), pure_eq_ok, Except.ok.injEq]
  constructor
  · rintro ⟨encoded, he, parts, hp, lineRange, hl, verified, hv, rfl⟩
    exact ⟨rfl, ⟨encoded, he, hp⟩, hl, rfl, rfl, ⟨verified, hv, rfl⟩⟩
  · rintro ⟨hid, ⟨encoded, he, hp⟩, hl, hd, hr, ⟨v, hv, hj⟩⟩
    refine ⟨encoded, he, _, hp, _, hl, v, hv, ?_⟩
    cases e
    simp_all only [evidenceId]
    rfl

omit [Host] in
theorem decodeVerification_eq_ok_iff {v : Option Verification} :
    (decodeVerification w : Except (ContractError R) (Option Verification)) = .ok v ↔ ReadsVerification w.field v := by
  have hclaim : w.field (.verificationClaim, none) = w.get "V" := rfl
  unfold decodeVerification
  cases hv : w.get "V" with
  | some claim =>
    simp only [bind_eq_ok, okOr_eq_ok, pure_eq_ok, Except.ok.injEq]
    constructor
    · rintro ⟨status, hs, method, hm, rfl⟩
      exact ⟨hclaim.trans hv, hs, hm, rfl⟩
    · intro h
      cases v with
      | none => exact absurd (hclaim.symm.trans h.1) (by rw [hv]; exact Option.some_ne_none _)
      | some v =>
        obtain ⟨hc, hs, hm, hr⟩ := h
        refine ⟨v.status, hs, v.method, hm, ?_⟩
        rw [hclaim, hv, Option.some.injEq] at hc
        rw [hc, show w.get "VR" = v.receipt from hr.symm]
  | none =>
    have hhas : ∀ key, ¬ w.has key = true ↔ w.get key = none := by
      intro key
      rw [Occ1Message.has_iff, Option.eq_none_iff_forall_ne_some]
      simp
    simp only [bind_eq_ok, rejectIf_eq_ok, exists_const, not_or, hhas, pure_eq_ok, Except.ok.injEq]
    constructor
    · rintro ⟨⟨hs, hm⟩, rfl⟩
      exact ⟨hclaim.trans hv, hs, hm⟩
    · intro h
      cases v with
      | none => exact ⟨⟨h.2.1, h.2.2⟩, rfl⟩
      | some v => exact absurd (hclaim.symm.trans h.1) (by rw [hv]; exact (Option.some_ne_none _).symm)

/-- The decoder succeeds exactly with the message that it reads. -/
theorem fromOcc1_eq_ok_iff [F32 R] {m : AgentCommMessage R} : fromOcc1 w = .ok m ↔ w.Reads m := by
  simp only [fromOcc1, bind_eq_ok, okOr_eq_ok, indexedCount_eq_ok_iff,
    mapM_range'_eq_ok_iff, decodeFinding_eq_ok_iff, decodeEvidence_eq_ok_iff, decodeEntry,
    decodeVerification_eq_ok_iff, validate_eq_ok_iff, exists_const,
    optM_eq_ok_iff_optReads (p := parseFin (2 ^ 64)) (fun a b => okOr_eq_ok), pure_eq_ok,
    Except.ok.injEq]
  constructor
  · rintro ⟨taskId, ht, kind, hk, status, hs, sequence, hseq, evidenceCount, hec, findingCount,
      hfc, findings, ⟨hflen, hf⟩, evidence, ⟨helen, he⟩, artifactCount, hac, artifacts,
      ⟨halen, ha⟩, verification, hv, dependencyCount, hdc, dependencies, ⟨hdlen, hd⟩, hvalid, rfl⟩
    subst hflen helen halen hdlen
    exact ⟨ht, hk, hs, rfl, rfl, rfl, rfl, rfl, rfl, rfl, hseq, hec, hfc, hac, hdc, hf, he, ha, hd, hv, rfl, hvalid⟩
  · intro h
    have hm : m = { (new m.kind m.taskId m.status : AgentCommMessage R) with
        messageId := w.get "MSGID"
        parentTaskId := w.get "PARENT"
        traceId := w.get "TRACE"
        senderIdentity := w.get "SENDER"
        recipientIdentity := w.get "RECIPIENT"
        sequence := m.sequence
        findings := m.findings
        evidence := m.evidence
        artifacts := m.artifacts
        verification := m.verification
        dependencies := m.dependencies
        nextActions := w.getAll "NEXT"
        timestamp := w.get "TS"
        expiry := w.get "EXP" } :=
      AgentCommMessage.ext h.messageId rfl h.parentTaskId h.traceId h.sender h.recipient rfl rfl
        rfl rfl rfl rfl rfl h.nextActions rfl h.valid.protocol h.timestamp h.expiry
    refine ⟨m.taskId, h.taskId, m.kind, h.kind, m.status, h.status, m.sequence, h.sequence,
      m.evidence.length, h.evidenceCount, m.findings.length, h.findingCount, m.findings,
      ⟨rfl, h.findings⟩, m.evidence, ⟨rfl, h.evidence⟩, m.artifacts.length, h.artifactCount,
      m.artifacts, ⟨rfl, h.artifacts⟩, m.verification, h.verification, m.dependencies.length,
      h.dependencyCount, m.dependencies, ⟨rfl, h.dependencies⟩, ?_, hm.symm⟩
    rw [← hm]
    exact h.valid

end

/-! ### Reading an encoded message -/

/-- How the OCC-1 decoder takes a list of evidence ids apart. -/
def occ1Split (ids : List Str) : List Str := splitReferences ([','].intercalate ids)

theorem verifiedOf_print (b : Bool) : verifiedOf (occ1Format.verified b) = some (some b) := by
  cases b <;> decide

section

variable [F32 R]

theorem field_fields (m : AgentCommMessage R) (k : WireKey) :
    (⟨m.fields⟩ : Occ1Message).field k = m.wireValue occ1Format k :=
  m.get_fields k

variable {m : AgentCommMessage R}

/-- The decoder counts the entries of a list that the encoder numbered. -/
theorem counts_fields {b : WireSlot} (hb : b.IsFamily) {len : ℕ}
    (heq : m.entryCount b = len) (hlen : len < usizeBound) :
    Counts ⟨m.fields⟩ b.word n ↔ n = len := by
  have hval : ∀ n, (m.wireValue occ1Format (b, some n)).isSome = true ↔ 1 ≤ n ∧ n ≤ len :=
    fun n => heq ▸ isSome_wireValue_iff hb
  have hhas : ∀ n, (⟨m.fields⟩ : Occ1Message).has (b.word ++ dec n) = true ↔ 1 ≤ n ∧ n ≤ len := by
    intro n
    rw [Occ1Message.has_iff, ← Option.isSome_iff_exists, ← hval, ← field_fields]
    rfl
  have hhighest : highestIndex b.word m.fields = len := by
    refine le_antisymm ?_ ?_
    · rcases highestIndex_mem b.word m.fields with h | ⟨kv, hkv, h⟩
      · omega
      · -- the highest index is the number of a field of the message
        rw [fields_eq_wireFields] at hkv
        obtain ⟨⟨⟨slot, number⟩, v⟩, hmem, rfl⟩ := mem_map.1 hkv
        rw [occ1Field, keyIndex_occ1Key hb] at h
        split at h
        · next hslot =>
          subst hslot
          obtain ⟨n, rfl, hn⟩ := Option.bind_eq_some_iff.1 h
          have hlt := parseUnsigned_lt hn
          rw [parseUnsigned_of_digits (dec_ne_nil n) (all_isDigit_dec n), ofDigitChars_dec] at hn
          split at hn
          · rw [Option.some.injEq] at hn
            rw [← hn]
            refine ((hval n).1 ?_).2
            rw [← first_wireFields, Option.isSome_iff_ne_none]
            exact fun hnone => Keyed.first_eq_none_iff.1 hnone _ hmem rfl
          · exact absurd hn (by simp)
        · exact absurd h (by simp)
    · rcases Nat.eq_zero_or_pos len with h | h
      · omega
      · obtain ⟨v, hv⟩ := Occ1Message.has_iff.1 ((hhas len).2 ⟨h, le_rfl⟩)
        refine le_highestIndex (Keyed.mem_of_first_eq_some hv) ?_
        rw [keyIndex, stripPrefix_append, Option.bind_some, parseUnsigned_dec hlen]
  constructor
  · intro h
    exact h.highest.symm.trans hhighest
  · rintro rfl
    exact ⟨hhighest, fun i h₁ h₂ => (hhas i).2 ⟨h₁, h₂⟩⟩

theorem readsVerification_fields {v : Option Verification} :
    ReadsVerification (⟨m.fields⟩ : Occ1Message).field v ↔ v = m.verification := by
  cases v with
  | none =>
    simp only [ReadsVerification, field_fields, wireValue, Option.map_eq_none_iff, and_self]
    exact eq_comm
  | some v =>
    simp only [ReadsVerification, field_fields, wireValue]
    cases m.verification with
    | none => simp
    | some u =>
      cases v
      cases u
      simp [eq_comm]

theorem getAll_nextAction_fields (m : AgentCommMessage R) :
    (⟨m.fields⟩ : Occ1Message).getAll (occ1Key (.nextAction, none)) = m.nextActions := by
  have hkeys : m.fields = (m.wireFields occ1Format).map fun e => (occ1Key e.1, e.2) := m.fields_eq_wireFields
  rw [Occ1Message.getAll_eq_all, hkeys, Keyed.all_map occ1Key_injective, all_wireFields]
  rfl

/-- The OCC-1 decoder takes the fields of a message apart as the encoder wrote them. -/
theorem recovers_fields (hfits : Fits m) : Recovers occ1Format occ1Split m (⟨m.fields⟩ : Occ1Message).field
      ((⟨m.fields⟩ : Occ1Message).getAll (occ1Key (.nextAction, none)))
      (fun b n => Counts ⟨m.fields⟩ b.word n) occ1References verifiedOf
      (ReadsVerification (⟨m.fields⟩ : Occ1Message).field) where
  field := field_fields m
  next := getAll_nextAction_fields m
  findings _ := counts_fields (b := .findingStatement) (.inl rfl) rfl hfits.findings
  evidence _ := counts_fields (b := .evidenceRef) (.inr (.inl rfl)) rfl hfits.evidence
  artifacts _ := counts_fields (b := .artifact) (.inr (.inr (.inl rfl))) rfl hfits.artifacts
  dependencies _ := counts_fields (b := .dependency) (.inr (.inr (.inr rfl))) rfl hfits.dependencies
  refs f _ numbers := by
    rw [occ1References, occ1Split]
    split
    · next h => rw [h]; rfl
    · rfl
  state := verifiedOf_print
  record _ := readsVerification_fields

/-- Decoding the OCC-1 fields of a message gives its image, when that is valid. -/
theorem fromOcc1_fields [Host] {m' : AgentCommMessage R} (hv : m.Valid) (hfits : Fits m) :
    fromOcc1 ⟨m.fields⟩ = .ok m' ↔ WireImage occ1Split m m' ∧ m'.Valid := by
  rw [fromOcc1_eq_ok_iff, Occ1Message.Reads, (recovers_fields hfits).reads_iff hv]

end

/-- The OCC-1 decoder takes items that are an `E` before digits and signs apart correctly. -/
theorem occ1Split_of_spelled {ids : List Str}
    (h : ∀ id ∈ ids, ∃ digits, id = 'E' :: digits ∧ ∀ c ∈ digits, c = '+' ∨ c.isDigit = true) :
    occ1Split ids = ids := by
  have hclean : ∀ id ∈ ids, id ≠ [] ∧ ∀ c ∈ id, c ≠ ',' ∧ isWhitespace c = false := by
    intro id hid
    obtain ⟨digits, rfl, hdigits⟩ := h id hid
    refine ⟨cons_ne_nil _ _, forall_mem_cons.2 ⟨by decide, fun c hc => ?_⟩⟩
    rcases hdigits c hc with rfl | hdigit
    · decide
    · refine ⟨?_, isWhitespace_of_isDigit hdigit⟩
      rintro rfl
      exact absurd hdigit (by decide)
  rcases eq_or_ne ids [] with rfl | hne
  · rfl
  · have htrim : ids.map trim = ids.map id :=
      map_congr_left fun id hid => trim_of_forall fun c hc => ((hclean id hid).2 c hc).2
    rw [occ1Split, splitReferences, splitOn_intercalate ',' (fun id hid hc => ((hclean id hid).2 _ hc).1 rfl) hne,
      htrim, map_id, filter_eq_self]
    exact fun id hid => decide_eq_true (hclean id hid).1

theorem occ1Split_map_evidenceId (numbers : List ℕ) : occ1Split (numbers.map evidenceId) = numbers.map evidenceId :=
  occ1Split_of_spelled (forall_mem_map.2 fun n _ => ⟨dec n, rfl, fun _ hc => .inr (isDigit_of_mem_dec hc)⟩)

end Occ
