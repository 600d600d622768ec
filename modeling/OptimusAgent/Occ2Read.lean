/-
**What the OCC-2 decoder reads.**

After the last line the decoder checks that every list is complete and builds the message.  This
module shows that the message is the one that any decoder of the contract reads from the fields of
the text, with the OCC-2 reading of references and verification states.
-/

import OptimusAgent.Occ2Decode

namespace Occ

open Str Checked List Option Keyed

namespace Occ2

variable {R : Type}

/-! ### The OCC-2 reading -/

/-- References are positions, none of them beyond the last evidence entry. -/
def occ2References (separator : Char) : ReferenceReader := fun count value numbers =>
  (∃ parsed, OptReads (referencesOf separator) value parsed ∧ parsed.getD [] = numbers) ∧ ∀ n ∈ numbers, n ≤ count

/-- A verification state is always definite. -/
def occ2State : StateReader := fun value => (stateOf value).map some

/-- The verification record is absent, or a complete group. -/
def occ2Record (field : WireTable) : Option Verification → Prop
  | some v => field (.verificationClaim, none) = some v.claim ∧ field (.verificationStatus, none) = some v.status ∧
      field (.verificationMethod, none) = some v.method ∧
      v.receipt = field (.verificationReceipt, none)
  | none => field (.verificationClaim, none) = none ∧ field (.verificationStatus, none) = none ∧
      field (.verificationMethod, none) = none ∧ field (.verificationReceipt, none) = none

/-- The fields of the entries of a list carry exactly the numbers from 1 to `n`. -/
def occ2Counts (field : WireTable) (b : WireSlot) (n : ℕ) : Prop :=
  ∀ i, (∃ slot : WireSlot, slot.base = b ∧ (field (slot, some i)).isSome = true) ↔ 1 ≤ i ∧ i ≤ n

/-- A family has a field with the number `n`. -/
abbrev HasField (l : List (WireKey × Str)) (b : WireSlot) (n : ℕ) : Prop :=
  ∃ slot : WireSlot, slot.base = b ∧ (first (slot, some n) l).isSome = true

/-! ### What the accumulator holds, field by field -/

/-- A stored value and the field it was parsed from. -/
theorem optReads_of_map_eq_bind {α : Type} {p : Str → Option α} {inj : α → Parsed R}
    (hinj : Function.Injective inj) {o : Option α} {field : Option Str}
    (hparse : ∀ v, field = some v → ((p v).map inj).isSome = true)
    (h : o.map inj = field.bind fun v => (p v).map inj) : OptReads p field o := by
  cases field with
  | none =>
    left
    exact ⟨rfl, by simpa using h⟩
  | some v =>
    right
    obtain ⟨q, hq⟩ := isSome_iff_exists.1 (hparse v rfl)
    obtain ⟨a, ha, rfl⟩ := map_eq_some_iff.1 hq
    rw [bind_some, ha, map_some, map_eq_some_iff] at h
    obtain ⟨b, rfl, hb⟩ := h
    exact ⟨v, a, rfl, ha, by rw [hinj hb]⟩

/-- A stored text is the field itself. -/
theorem eq_of_map_text {o field : Option Str}
    (h : o.map Parsed.text = field.bind fun v => some (Parsed.text v : Parsed R)) : o = field := by
  cases o <;> cases field <;> simp_all

namespace Holds

variable [F32 R] {separator : Char} {l : List (WireKey × Str)} {wire : WireMessage R}
  (hold : Holds separator l wire)

include hold

theorem isSome_parse {k : WireKey} {v : Str} (hv : first k l = some v) :
    (parseValue separator k.1 v : Option (Parsed R)).isSome = true :=
  hold.parses _ (mem_of_first_eq_some hv)

theorem isSome_value {k : WireKey} (hk : k.1 ≠ .nextAction) : (wire.value k).isSome = (first k l).isSome := by
  rw [hold.value k hk]
  cases hfirst : first k l with
  | none => rfl
  | some v => exact hold.isSome_parse hfirst

/-- The fields of the header part. -/
theorem head : wire.messageId = first (.messageId, none) l ∧ wire.taskId = first (.taskId, none) l ∧
      wire.parentTaskId = first (.parentTaskId, none) l ∧
      wire.traceId = first (.traceId, none) l ∧
      wire.sender = first (.sender, none) l ∧
      wire.recipient = first (.recipient, none) l ∧
      wire.kind = first (.kind, none) l ∧
      wire.status = first (.status, none) l ∧
      wire.timestamp = first (.timestamp, none) l ∧
      wire.expiry = first (.expiry, none) l :=
  ⟨eq_of_map_text (hold.value (.messageId, none) (by decide)), eq_of_map_text (hold.value (.taskId, none) (by decide)),
    eq_of_map_text (hold.value (.parentTaskId, none) (by decide)),
    eq_of_map_text (hold.value (.traceId, none) (by decide)),
    eq_of_map_text (hold.value (.sender, none) (by decide)),
    eq_of_map_text (hold.value (.recipient, none) (by decide)),
    eq_of_map_text (hold.value (.kind, none) (by decide)),
    eq_of_map_text (hold.value (.status, none) (by decide)),
    eq_of_map_text (hold.value (.timestamp, none) (by decide)),
    eq_of_map_text (hold.value (.expiry, none) (by decide))⟩

/-- The fields of the verification record. -/
theorem record : wire.verificationClaim = first (.verificationClaim, none) l ∧
      wire.verificationStatus = first (.verificationStatus, none) l ∧
      wire.verificationMethod = first (.verificationMethod, none) l ∧
      wire.verificationReceipt = first (.verificationReceipt, none) l :=
  ⟨eq_of_map_text (hold.value (.verificationClaim, none) (by decide)),
    eq_of_map_text (hold.value (.verificationStatus, none) (by decide)),
    eq_of_map_text (hold.value (.verificationMethod, none) (by decide)),
    eq_of_map_text (hold.value (.verificationReceipt, none) (by decide))⟩

theorem sequence : OptReads (parseFin (2 ^ 64)) (first (.sequence, none) l) wire.sequence :=
  optReads_of_map_eq_bind (fun _ _ h => Parsed.number.inj h) (fun _ hv => hold.isSome_parse hv)
    (hold.value (.sequence, none) (by decide))

/-- The fields of a finding. -/
theorem finding {n : ℕ} {f : WireFinding R} (hf : wire.findings.get? n = some f) :
    f.statement = first (.findingStatement, some n) l ∧
      OptReads F32.parse (first (.findingConfidence, some n) l) f.confidence ∧
      OptReads (referencesOf separator) (first (.findingEvidence, some n) l) f.evidence := by
  have hvalue : ∀ slot, slot.base = .findingStatement → f.value slot =
      (first (slot, some n) l).bind (parseValue separator slot) := by
    intro slot hb
    rw [← hold.value (slot, some n) (by rintro rfl; cases hb), WireMessage.value_finding hb, hf, getD_some]
  exact ⟨eq_of_map_text (hvalue .findingStatement rfl), optReads_of_map_eq_bind (fun _ _ h => Parsed.confidence.inj h)
      (fun _ hv => hold.isSome_parse hv) (hvalue .findingConfidence rfl),
    optReads_of_map_eq_bind (fun _ _ h => Parsed.references.inj h)
      (fun _ hv => hold.isSome_parse hv) (hvalue .findingEvidence rfl)⟩

/-- The fields of an evidence reference. -/
theorem evidence {n : ℕ} {e : WireEvidence} (he : wire.evidence.get? n = some e) :
    e.kindLocator = first (.evidenceRef, some n) l ∧
      OptReads lineRangeOf (first (.evidenceLineRange, some n) l) e.lineRange ∧
      e.digest = first (.evidenceDigest, some n) l ∧
      e.revision = first (.evidenceRevision, some n) l ∧
      OptReads stateOf (first (.evidenceVerified, some n) l) e.verified := by
  have hvalue : ∀ slot, slot.base = .evidenceRef → (e.value slot : Option (Parsed R)) =
      (first (slot, some n) l).bind (parseValue separator slot) := by
    intro slot hb
    rw [← hold.value (slot, some n) (by rintro rfl; cases hb), WireMessage.value_evidence hb, he, getD_some]
  exact ⟨eq_of_map_text (hvalue .evidenceRef rfl), optReads_of_map_eq_bind (fun _ _ h => Parsed.range.inj h)
      (fun _ hv => hold.isSome_parse hv) (hvalue .evidenceLineRange rfl),
    eq_of_map_text (hvalue .evidenceDigest rfl), eq_of_map_text (hvalue .evidenceRevision rfl),
    optReads_of_map_eq_bind (fun _ _ h => Parsed.verified.inj h)
      (fun _ hv => hold.isSome_parse hv) (hvalue .evidenceVerified rfl)⟩

theorem artifact (n : ℕ) : wire.artifacts.get? n = first (.artifact, some n) l :=
  eq_of_map_text (hold.value (.artifact, some n) (by simp))

theorem dependency (n : ℕ) : wire.dependencies.get? n = first (.dependency, some n) l :=
  eq_of_map_text (hold.value (.dependency, some n) (by simp))

/-- A family has a value iff it has a field. -/
theorem exists_value_iff {b : WireSlot} (hb : b ≠ .nextAction) (n : ℕ) :
    (∃ slot : WireSlot, slot.base = b ∧ (wire.value (slot, some n)).isSome = true) ↔ HasField l b n := by
  refine exists_congr fun slot => and_congr_right fun hbase => ?_
  rw [hold.isSome_value]
  rintro rfl
  exact hb hbase.symm

/-- The findings with an entry are those with a field. -/
theorem isSome_finding_iff (n : ℕ) : (wire.findings.get? n).isSome = true ↔ HasField l .findingStatement n := by
  rw [← hold.exists_value_iff (by decide)]
  refine ⟨hold.proper.findings n, fun ⟨slot, hb, hs⟩ => ?_⟩
  cases hget : wire.findings.get? n with
  | some f => rfl
  | none => simp [WireMessage.value, WireMessage.entry, hb, hget] at hs

/-- The evidence references with an entry are those with a field. -/
theorem isSome_evidence_iff (n : ℕ) : (wire.evidence.get? n).isSome = true ↔ HasField l .evidenceRef n := by
  rw [← hold.exists_value_iff (by decide)]
  refine ⟨hold.proper.evidence n, fun ⟨slot, hb, hs⟩ => ?_⟩
  cases hget : wire.evidence.get? n with
  | some e => rfl
  | none => simp [WireMessage.value, WireMessage.entry, hb, hget] at hs

omit hold in
/-- A family of one field. -/
theorem isSome_first_iff {b : WireSlot} (hb : ∀ slot : WireSlot, slot.base = b ↔ slot = b) (n : ℕ) :
    (first (b, some n) l).isSome = true ↔ HasField l b n := by
  simp only [HasField, hb, exists_eq_left]

theorem isSome_artifact_iff (n : ℕ) : (wire.artifacts.get? n).isSome = true ↔ HasField l .artifact n := by
  rw [hold.artifact]
  exact isSome_first_iff (fun slot => by cases slot <;> decide) n

theorem isSome_dependency_iff (n : ℕ) : (wire.dependencies.get? n).isSome = true ↔ HasField l .dependency n := by
  rw [hold.dependency]
  exact isSome_first_iff (fun slot => by cases slot <;> decide) n

end Holds

/-! ### The final step -/

/-- The check of an indexed family. -/
theorem contiguous_eq_ok_iff {α : Type} {entries : OrdMap ℕ α} {family : Str} {u : Unit}
    (hpos : ∀ k ∈ entries.keys, 1 ≤ k) :
    (contiguous entries family : Except (Occ2Error R) Unit) = .ok u ↔ entries.Contiguous := by
  rw [OrdMap.contiguous_iff_getLast hpos, contiguous]
  cases entries.keys.getLast? with
  | none => simp
  | some last => simp [rejectIf_eq_ok]

/-- A loop over the entries of a contiguous map. -/
theorem mapM_entries_eq_ok_iff {ε α β : Type} {f : ℕ × α → Except ε β} {entries : OrdMap ℕ α}
    (h : entries.Contiguous) {r : List β} :
    entries.entries.mapM f = .ok r ↔ r.length = entries.size ∧
      ∀ i y, r[i]? = some y → ∃ v, entries.get? (i + 1) = some v ∧ f (i + 1, v) = .ok y := by
  have hlen : entries.entries.length = entries.size := rfl
  rw [mapM_eq_ok_iff, forall₂_iff_get]
  constructor
  · rintro ⟨hsize, hf⟩
    refine ⟨hsize.symm, fun i y hy => ?_⟩
    obtain ⟨hi, rfl⟩ := List.getElem?_eq_some_iff.1 hy
    have hget := h.getElem?_entries i
    rw [List.getElem?_eq_getElem (by omega)] at hget
    obtain ⟨v, hv, he⟩ := map_eq_some_iff.1 hget.symm
    refine ⟨v, hv, ?_⟩
    rw [he]
    exact hf i (by omega) hi
  · rintro ⟨hsize, hf⟩
    refine ⟨by omega, fun i h₁ h₂ => ?_⟩
    obtain ⟨v, hv, hok⟩ := hf i _ (getElem?_eq_getElem h₂)
    have hget := h.getElem?_entries i
    rw [hv, map_some, getElem?_eq_getElem h₁, Option.some.injEq] at hget
    simp only [get_eq_getElem, hget]
    exact hok

theorem finishVerification_eq_ok_iff {wire : WireMessage R} {v : Option Verification} :
    finishVerification wire = .ok v ↔
      match v with
      | some v => wire.verificationClaim = some v.claim ∧ wire.verificationStatus = some v.status ∧
          wire.verificationMethod = some v.method ∧ v.receipt = wire.verificationReceipt
      | none => wire.verificationClaim = none ∧ wire.verificationStatus = none ∧
          wire.verificationMethod = none ∧ wire.verificationReceipt = none := by
  unfold finishVerification
  split_ifs with h
  · simp only [bind_eq_ok, okOr_eq_ok, pure_eq_ok, Except.ok.injEq]
    cases v with
    | some v =>
      constructor
      · rintro ⟨claim, hc, status, hs, method, hm, hv⟩
        rw [Option.some.injEq] at hv
        subst hv
        exact ⟨hc, hs, hm, rfl⟩
      · rintro ⟨hc, hs, hm, hr⟩
        exact ⟨_, hc, _, hs, _, hm, by rw [← hr]⟩
    | none =>
      constructor
      · rintro ⟨claim, hc, status, hs, method, hm, hv⟩
        exact absurd hv (by simp)
      · rintro ⟨hc, hs, hm, hr⟩
        simp [hc, hs, hm, hr] at h
  · simp only [Bool.or_eq_true, not_or, not_isSome_iff_eq_none] at h
    obtain ⟨⟨⟨hc, hs⟩, hm⟩, hr⟩ := h
    cases v with
    | some v => simp [hc]
    | none => simp [hc, hs, hm, hr]

theorem finishFinding_eq_ok_iff {count n : ℕ} {wf : WireFinding R} {f : Finding R} :
    finishFinding count (n, wf) = .ok f ↔
      f.id = findingId n ∧ wf.statement = some f.statement ∧ f.confidence = wf.confidence ∧
        (∀ number ∈ wf.evidence.getD [], number ≤ count) ∧
        f.evidence = (wf.evidence.getD []).map evidenceId := by
  have hrefs : ∀ (numbers : List ℕ) (ids : List Str), (numbers.mapM fun number => do
      rejectIf (count < number) (.badValue 0 ("F" ++ dec n)
        ("references E" ++ dec number ++ ", outside 1..=" ++ dec count))
      .ok ("E" ++ dec number : Str) : Except (Occ2Error R) (List Str)) = .ok ids ↔
        (∀ number ∈ numbers, number ≤ count) ∧ ids = numbers.map evidenceId := by
    intro numbers ids
    simp only [mapM_eq_ok_iff, bind_eq_ok, rejectIf_eq_ok, exists_const, Except.ok.injEq, not_lt]
    induction numbers generalizing ids with
    | nil => simp
    | cons number numbers ih =>
      rw [forall₂_cons_left_iff, forall_mem_cons, map_cons]
      simp only [ih]
      constructor
      · rintro ⟨id, ids', ⟨hle, rfl⟩, ⟨hall, rfl⟩, rfl⟩
        exact ⟨⟨hle, hall⟩, rfl⟩
      · rintro ⟨⟨hle, hall⟩, rfl⟩
        exact ⟨_, _, ⟨hle, rfl⟩, ⟨hall, rfl⟩, rfl⟩
  simp only [finishFinding, bind_eq_ok, okOr_eq_ok, hrefs, pure_eq_ok, Except.ok.injEq]
  constructor
  · rintro ⟨statement, hs, evidence, ⟨hle, rfl⟩, rfl⟩
    exact ⟨rfl, hs, rfl, hle, rfl⟩
  · rintro ⟨hid, hs, hc, hle, he⟩
    refine ⟨_, hs, _, ⟨hle, rfl⟩, ?_⟩
    exact Finding.ext hid.symm rfl hc.symm he.symm

theorem finishEvidence_eq_ok_iff {n : ℕ} {we : WireEvidence} {e : EvidenceRef} :
    (finishEvidence (n, we) : Except (Occ2Error R) EvidenceRef) = .ok e ↔ e.id = evidenceId n ∧
        (∃ encoded, we.kindLocator = some encoded ∧ splitOnce ':' encoded = some (e.kind, e.locator)) ∧
        e.lineRange = we.lineRange ∧ e.digest = we.digest ∧ e.revision = we.revision ∧
        e.verified = we.verified := by
  simp only [finishEvidence, bind_eq_ok, okOr_eq_ok, pure_eq_ok, Except.ok.injEq]
  constructor
  · rintro ⟨encoded, henc, parts, hparts, rfl⟩
    exact ⟨rfl, ⟨encoded, henc, hparts⟩, rfl, rfl, rfl, rfl⟩
  · rintro ⟨hid, ⟨encoded, henc, hparts⟩, hl, hd, hr, hv⟩
    refine ⟨encoded, henc, _, hparts, ?_⟩
    exact EvidenceRef.ext hid.symm rfl rfl hl.symm hd.symm hr.symm hv.symm

section

variable [F32 R] {separator : Char} {l : List (WireKey × Str)} {wire : WireMessage R}

/-- The finding that the final step builds is the one that is read from the fields. -/
theorem readsFinding_iff_finish (hold : Holds separator l wire) {count n : ℕ} {f : Finding R}
    (hget : (wire.findings.get? n).isSome = true) :
    (∃ wf, wire.findings.get? n = some wf ∧ finishFinding count (n, wf) = .ok f) ↔
      ReadsFinding (fun k => first k l) (occ2References separator) count n f := by
  obtain ⟨wf, hwf⟩ := isSome_iff_exists.1 hget
  obtain ⟨hs, hc, he⟩ := hold.finding hwf
  simp only [hwf, Option.some.injEq, exists_eq_left', finishFinding_eq_ok_iff]
  constructor
  · rintro ⟨hid, hst, hconf, hle, hev⟩
    exact ⟨hid, hs ▸ hst, hconf ▸ hc, _, ⟨⟨_, he, rfl⟩, hle⟩, hev⟩
  · intro h
    obtain ⟨numbers, ⟨⟨parsed, hparsed, rfl⟩, hle⟩, hev⟩ := h.evidence
    have hp : parsed = wf.evidence := hparsed.unique he
    subst hp
    exact ⟨h.id, hs.trans h.statement, h.confidence.unique hc, hle, hev⟩

/-- The evidence reference that the final step builds is the one that is read from the fields. -/
theorem readsEvidence_iff_finish (hold : Holds separator l wire) {n : ℕ} {e : EvidenceRef}
    (hget : (wire.evidence.get? n).isSome = true) :
    (∃ we, wire.evidence.get? n = some we ∧ (finishEvidence (n, we) : Except (Occ2Error R) EvidenceRef) = .ok e) ↔
      ReadsEvidence (fun k => first k l) occ2State n e := by
  obtain ⟨we, hwe⟩ := isSome_iff_exists.1 hget
  obtain ⟨hk, hl, hd, hr, hv⟩ := hold.evidence hwe
  have hstate : ∀ v : Option Bool, (∃ u, OptReads occ2State
      (first (.evidenceVerified, some n) l) u ∧ v = u.join) ↔ v = we.verified := by
    intro v
    rcases hv with ⟨hf, hver⟩ | ⟨text, b, hf, hp, hver⟩
    · simp [OptReads, hf, hver]
    · cases b <;> simp [OptReads, hf, hver, occ2State, hp, eq_comm]
  simp only [hwe, Option.some.injEq, exists_eq_left', finishEvidence_eq_ok_iff]
  constructor
  · rintro ⟨hid, href, hle, hde, hre, hve⟩
    exact ⟨hid, hk ▸ href, hle ▸ hl, hde.trans hd, hre.trans hr, (hstate _).2 hve⟩
  · intro h
    exact ⟨h.id, hk.symm ▸ h.ref, h.lineRange.unique hl, h.digest.trans hd.symm,
      h.revision.trans hr.symm, (hstate _).1 h.verified⟩

variable {b : WireSlot}

/-- The keys of a family that holds numbered fields are positive. -/
theorem pos_of_isSome_first (hfits : ∀ e ∈ l, FitsSlot e.1.1 e.1.2) {n : ℕ} (h : HasField l b n) : 1 ≤ n := by
  obtain ⟨slot, -, hs⟩ := h
  obtain ⟨v, hv⟩ := isSome_iff_exists.1 hs
  exact (hfits _ (mem_of_first_eq_some hv)).2.1

omit [F32 R] in
/-- The check of a family and the loop over its entries: the fields are numbered without a gap, and
each entry is what is read from them. -/
theorem family_eq_ok_iff {α β : Type} {entries : OrdMap ℕ α} {family : Str} {u : Unit}
    {f : ℕ × α → Except (Occ2Error R) β} {P : ℕ → β → Prop} (hfits : ∀ e ∈ l, FitsSlot e.1.1 e.1.2)
    (hsome : ∀ n, (entries.get? n).isSome = true ↔ HasField l b n)
    (hread : ∀ n y, (entries.get? n).isSome = true →
      ((∃ v, entries.get? n = some v ∧ f (n, v) = .ok y) ↔ P n y)) {r : List β} :
    contiguous (R := R) entries family = .ok u ∧ entries.entries.mapM f = .ok r ↔
      occ2Counts (fun k => first k l) b r.length ∧ ∀ i y, r[i]? = some y → P (i + 1) y := by
  have hpos : ∀ k ∈ entries.keys, 1 ≤ k := by
    intro k hk
    rw [← OrdMap.contains_iff, OrdMap.contains, hsome] at hk
    exact pos_of_isSome_first hfits hk
  rw [contiguous_eq_ok_iff hpos]
  constructor
  · rintro ⟨hc, hr⟩
    obtain ⟨hlen, hr⟩ := (mapM_entries_eq_ok_iff hc).1 hr
    refine ⟨fun i => (hsome i).symm.trans (hlen ▸ hc.isSome_iff i), fun i y hy => ?_⟩
    obtain ⟨v, hv, hok⟩ := hr i y hy
    exact (hread _ y (by rw [hv]; rfl)).1 ⟨v, hv, hok⟩
  · rintro ⟨hcounts, hr⟩
    obtain ⟨hc, hsize⟩ := OrdMap.contiguous_of_isSome_iff fun i => (hsome i).trans (hcounts i)
    refine ⟨hc, (mapM_entries_eq_ok_iff hc).2 ⟨hsize.symm, fun i y hy => (hread _ y ?_).2 (hr i y hy)⟩⟩
    have hlt := (List.getElem?_eq_some_iff.1 hy).1
    exact (hc.isSome_iff _).2 (by omega)

omit [F32 R] in
/-- A family of texts. -/
theorem texts_eq_ok_iff {entries : OrdMap ℕ Str} {family : Str} {u : Unit}
    (hfits : ∀ e ∈ l, FitsSlot e.1.1 e.1.2) (hsome : ∀ n, (entries.get? n).isSome = true ↔ HasField l b n)
    (hget : ∀ n, entries.get? n = first (b, some n) l) {r : List Str} :
    contiguous (R := R) entries family = .ok u ∧ entries.entries.map Prod.snd = r ↔
      occ2Counts (fun k => first k l) b r.length ∧ ∀ i t, r[i]? = some t → first (b, some (i + 1)) l = some t := by
  refine Iff.trans (and_congr_right fun _ => ?_)
    (family_eq_ok_iff (f := fun e => pure e.2) (P := fun n t => first (b, some n) l = some t) hfits hsome
      fun n t _ => by simp [hget])
  rw [mapM_pure, pure_eq_ok, Except.ok.injEq]

variable [Host]

/-- The final step builds the message that is read from the fields. -/
theorem finish_eq_ok_iff (hold : Holds separator l wire)
    (hfits : ∀ e ∈ l, FitsSlot e.1.1 e.1.2) {m : AgentCommMessage R} :
    finish wire = .ok m ↔ Reads (fun k => first k l) (all (.nextAction, none) l)
      (occ2Counts fun k => first k l) (occ2References separator) occ2State
      (occ2Record fun k => first k l) m := by
  obtain ⟨hid, htask, hparent, htrace, hsender, hrecipient, hkind, hstatus, hts, hexp⟩ := hold.head
  have hseq := hold.sequence
  have hrecord : ∀ v, (finishVerification wire = .ok v ↔ occ2Record (fun k => first k l) v) := by
    intro v
    obtain ⟨h₁, h₂, h₃, h₄⟩ := hold.record
    rw [finishVerification_eq_ok_iff, h₁, h₂, h₃, h₄]
    cases v <;> rfl
  have hF : ∀ fs u, contiguous wire.findings "F" = .ok u ∧
      wire.findings.entries.mapM (finishFinding wire.evidence.size) = .ok fs ↔ _ := fun _ _ =>
    family_eq_ok_iff hfits hold.isSome_finding_iff fun _ _ hget => readsFinding_iff_finish hold hget
  have hE : ∀ es u, contiguous wire.evidence "E" = .ok u ∧
      wire.evidence.entries.mapM (finishEvidence (R := R)) = .ok es ↔ _ := fun _ _ =>
    family_eq_ok_iff hfits hold.isSome_evidence_iff fun _ _ hget => readsEvidence_iff_finish hold hget
  have hA : ∀ texts u, contiguous (R := R) wire.artifacts "G" = .ok u ∧ _ = texts ↔ _ := fun _ _ =>
    texts_eq_ok_iff hfits hold.isSome_artifact_iff hold.artifact
  have hD : ∀ texts u, contiguous (R := R) wire.dependencies "D" = .ok u ∧ _ = texts ↔ _ := fun _ _ =>
    texts_eq_ok_iff hfits hold.isSome_dependency_iff hold.dependency
  have hsize : ∀ n, occ2Counts (fun k => first k l) .evidenceRef n → wire.evidence.size = n :=
    fun _ h => (OrdMap.contiguous_of_isSome_iff fun i => (hold.isSome_evidence_iff i).trans (h i)).2
  simp only [finish, bind_eq_ok, okOr_eq_ok, mapError_eq_ok, pure_eq_ok, Except.ok.injEq, exists_const,
    hrecord, AgentCommMessage.validate_eq_ok_iff]
  constructor
  · rintro ⟨taskId, ht, kind, hk, status, hs, _, hcF, _, hcE, _, hcA, _, hcD, findings, hfs, evidence, hes,
      verification, hv, hvalid, rfl⟩
    obtain ⟨hcF, hfs⟩ := (hF _ _).1 ⟨hcF, hfs⟩
    obtain ⟨hcE, hes⟩ := (hE _ _).1 ⟨hcE, hes⟩
    obtain ⟨hcA, has⟩ := (hA _ _).1 ⟨hcA, rfl⟩
    obtain ⟨hcD, hds⟩ := (hD _ _).1 ⟨hcD, rfl⟩
    exact ⟨htask.symm.trans ht, hkind.symm.trans hk, hstatus.symm.trans hs, hid, hparent, htrace, hsender,
      hrecipient, hts, hexp, hseq, hcE, hcF, hcA, hcD, hsize _ hcE ▸ hfs, hes, has, hds, hv, hold.nextActions,
      hvalid⟩
  · intro h
    obtain ⟨hcF, hfs⟩ := (hF m.findings ()).2 ⟨h.findingCount, (hsize _ h.evidenceCount).symm ▸ h.findings⟩
    obtain ⟨hcE, hes⟩ := (hE m.evidence ()).2 ⟨h.evidenceCount, h.evidence⟩
    obtain ⟨hcA, has⟩ := (hA m.artifacts ()).2 ⟨h.artifactCount, h.artifacts⟩
    obtain ⟨hcD, hds⟩ := (hD m.dependencies ()).2 ⟨h.dependencyCount, h.dependencies⟩
    have hvalid : ∀ out, out = m → out.Valid ∧ out = m := by
      rintro _ rfl
      exact ⟨h.valid, rfl⟩
    refine ⟨m.taskId, htask.trans h.taskId, m.kind, hkind.trans h.kind, m.status, hstatus.trans h.status, (),
      hcF, (), hcE, (), hcA, (), hcD, m.findings, hfs, m.evidence, hes, m.verification, h.verification,
      hvalid _ ?_⟩
    exact AgentCommMessage.ext (hid.trans h.messageId.symm) rfl (hparent.trans h.parentTaskId.symm)
      (htrace.trans h.traceId.symm) (hsender.trans h.sender.symm) (hrecipient.trans h.recipient.symm) rfl rfl
      rfl rfl has rfl hds (hold.nextActions.trans h.nextActions.symm) (hseq.unique h.sequence)
      h.valid.protocol.symm (hts.trans h.timestamp.symm) (hexp.trans h.expiry.symm)

end

end Occ2

end Occ
