/-
**What remains of a message after it crossed the wire.**

Every decoder of the contract reads the same fields, and most of them in the same way; the decoders
differ in how they take references and verification states apart, in how they count the entries of
a list and in how they treat an incomplete verification record.  This module states once, for every
encoding, what a decoder reads, and what therefore remains of a message: findings and evidence
numbered by position, confidences printed and parsed, and the evidence ids of a finding replaced by
the positions that the ids spell.
-/

import OptimusAgent.WireFields

namespace Occ

open Str Checked List Option AgentCommMessage

variable {R : Type}

/-! ### Reading the fields -/

/-- An optional value that is parsed when it is there. -/
def OptReads {α β : Type} (p : α → Option β) (o : Option α) (r : Option β) : Prop :=
  (o = none ∧ r = none) ∨ ∃ a b, o = some a ∧ p a = some b ∧ r = some b

/-- What is read is determined. -/
theorem OptReads.unique {α β : Type} {p : α → Option β} {o : Option α} {r r' : Option β}
    (h : OptReads p o r) (h' : OptReads p o r') : r = r' := by
  rcases h with ⟨ho, hr⟩ | ⟨a, b, ho, hp, hr⟩
  · rcases h' with ⟨-, hr'⟩ | ⟨a', b', ho', -, -⟩
    · rw [hr, hr']
    · rw [ho] at ho'
      exact absurd ho' (by simp)
  · rcases h' with ⟨ho', -⟩ | ⟨a', b', ho', hp', hr'⟩
    · rw [ho] at ho'
      exact absurd ho' (by simp)
    · rw [ho, Option.some.injEq] at ho'
      rw [ho', hp', Option.some.injEq] at hp
      rw [hr, hr', hp]

theorem optM_eq_ok_iff_optReads {ε α β : Type} {f : α → Except ε β} {p : α → Option β}
    (h : ∀ a b, f a = .ok b ↔ p a = some b) {o : Option α} {r : Option β} :
    optM f o = .ok r ↔ OptReads p o r := by
  simp only [optM_eq_ok_iff, OptReads, h]

/-- The number of the evidence entry that a reference names. -/
def refNumber (count : ℕ) (reference : Str) : Option ℕ :=
  ((stripPrefix "E" reference).bind (parseUnsigned usizeBound)).filter fun n => 1 ≤ n ∧ n ≤ count

theorem refNumber_bounds {count n : ℕ} {id : Str} (h : refNumber count id = some n) :
    1 ≤ n ∧ n ≤ count ∧ n < usizeBound := by
  rw [refNumber, filter_eq_some_iff] at h
  obtain ⟨hparse, hbounds⟩ := h
  obtain ⟨rest, -, hrest⟩ := bind_eq_some_iff.1 hparse
  simp only [decide_eq_true_eq] at hbounds
  exact ⟨hbounds.1, hbounds.2, parseUnsigned_lt hrest⟩

/-- The references name these entries. -/
def Names (count : ℕ) (references : List Str) (numbers : List ℕ) : Prop :=
  List.Forall₂ (fun r n => refNumber count r = some n) references numbers

/-- The id of evidence entry `n` of a decoded message. -/
def evidenceId (n : ℕ) : Str := "E" ++ dec n

/-- The id of finding `n` of a decoded message. -/
def findingId (n : ℕ) : Str := "F" ++ dec n

/-- The two bounds of a line range. -/
def lineRangeOf (range : Str) : Option (U32 × U32) := do
  let bounds ← splitOnce '-' range
  let start ← parseFin (2 ^ 32) bounds.1
  let last ← parseFin (2 ^ 32) bounds.2
  some (start, last)

section

/-- A table of fields. -/
abbrev WireTable : Type := WireKey → Option Str

/-- How a decoder reads the references of a finding: the number of evidence entries, the field, and
the positions that it names. -/
abbrev ReferenceReader : Type := ℕ → Option Str → List ℕ → Prop

/-- How a decoder reads a verification state. -/
abbrev StateReader : Type := Str → Option (Option Bool)

/-- Finding number `n` as a decoder reads it. -/
structure ReadsFinding [F32 R] (field : WireTable) (refs : ReferenceReader) (count n : ℕ)
    (f : Finding R) : Prop where
  id : f.id = findingId n
  statement : field (.findingStatement, some n) = some f.statement
  confidence : OptReads F32.parse (field (.findingConfidence, some n)) f.confidence
  evidence : ∃ numbers, refs count (field (.findingEvidence, some n)) numbers ∧ f.evidence = numbers.map evidenceId

/-- Evidence reference number `n` as a decoder reads it. -/
structure ReadsEvidence (field : WireTable) (state : StateReader) (n : ℕ) (e : EvidenceRef) :
    Prop where
  id : e.id = evidenceId n
  ref : ∃ encoded, field (.evidenceRef, some n) = some encoded ∧
    splitOnce ':' encoded = some (e.kind, e.locator)
  lineRange : OptReads lineRangeOf (field (.evidenceLineRange, some n)) e.lineRange
  digest : e.digest = field (.evidenceDigest, some n)
  revision : e.revision = field (.evidenceRevision, some n)
  verified : ∃ v, OptReads state (field (.evidenceVerified, some n)) v ∧ e.verified = v.join

/-- The contract message that a decoder reads from a table of fields.  `next` are the next actions,
`counts b n` says that the list of slot `b` has `n` entries, and `record` is how the decoder reads
the verification record. -/
structure Reads [Host] [F32 R] (field : WireTable) (next : List Str) (counts : WireSlot → ℕ → Prop)
    (refs : ReferenceReader) (state : StateReader) (record : Option Verification → Prop)
    (m : AgentCommMessage R) : Prop where
  taskId : field (.taskId, none) = some m.taskId
  kind : field (.kind, none) = some m.kind
  status : field (.status, none) = some m.status
  messageId : m.messageId = field (.messageId, none)
  parentTaskId : m.parentTaskId = field (.parentTaskId, none)
  traceId : m.traceId = field (.traceId, none)
  sender : m.senderIdentity = field (.sender, none)
  recipient : m.recipientIdentity = field (.recipient, none)
  timestamp : m.timestamp = field (.timestamp, none)
  expiry : m.expiry = field (.expiry, none)
  sequence : OptReads (parseFin (2 ^ 64)) (field (.sequence, none)) m.sequence
  evidenceCount : counts .evidenceRef m.evidence.length
  findingCount : counts .findingStatement m.findings.length
  artifactCount : counts .artifact m.artifacts.length
  dependencyCount : counts .dependency m.dependencies.length
  findings : ∀ i f, m.findings[i]? = some f → ReadsFinding field refs m.evidence.length (i + 1) f
  evidence : ∀ i e, m.evidence[i]? = some e → ReadsEvidence field state (i + 1) e
  artifacts : ∀ i t, m.artifacts[i]? = some t → field (.artifact, some (i + 1)) = some t
  dependencies : ∀ i t, m.dependencies[i]? = some t → field (.dependency, some (i + 1)) = some t
  verification : record m.verification
  nextActions : m.nextActions = next
  valid : m.Valid

end

variable [F32 R]

/-! ### The image of a message -/

/-- Evidence numbered by position. -/
def numbered (l : List EvidenceRef) : List EvidenceRef := l.mapIdx fun i e => { e with id := evidenceId (i + 1) }

/-- What remains of finding number `n`.  `split` is how the encoding takes the list of evidence ids
apart again, `count` the number of evidence entries. -/
structure FindingImage (split : List Str → List Str) (count n : ℕ) (f f' : Finding R) : Prop where
  id : f'.id = findingId n
  statement : f'.statement = f.statement
  confidence : OptReads (fun c => F32.parse (F32.format3 c)) f.confidence f'.confidence
  evidence : ∃ numbers, Names count (split f.evidence) numbers ∧ f'.evidence = numbers.map evidenceId

/-- What remains of a message. -/
structure WireImage (split : List Str → List Str) (m m' : AgentCommMessage R) : Prop where
  rest : m' = { m with findings := m'.findings, evidence := m'.evidence }
  length : m'.findings.length = m.findings.length
  finding : ∀ i f f', m.findings[i]? = some f → m'.findings[i]? = some f' →
    FindingImage split m.evidence.length (i + 1) f f'
  evidence : m'.evidence = numbered m.evidence

@[simp] theorem length_numbered (l : List EvidenceRef) : (numbered l).length = l.length := by simp [numbered]

theorem getElem?_numbered (l : List EvidenceRef) (i : ℕ) :
    (numbered l)[i]? = l[i]?.map fun e => { e with id := evidenceId (i + 1) } := by
  simp [numbered]

theorem optReads_map_iff {α β : Type} {p : β → Option α} {f : α → β} (h : ∀ a, p (f a) = some a)
    {o r : Option α} : OptReads p (o.map f) r ↔ r = o := by
  cases o with
  | none => simp [OptReads]
  | some a => simp [OptReads, h]

theorem optReads_map {α β γ : Type} {p : β → Option γ} {f : α → β} {o : Option α} {r : Option γ} :
    OptReads p (o.map f) r ↔ OptReads (fun a => p (f a)) o r := by
  cases o with
  | none | some a => simp [OptReads]

/-- Two lists of one length, one of which has the other's entries, are equal. -/
theorem eq_of_forall_getElem? {α : Type} {l l' : List α} (hlen : l'.length = l.length)
    (h : ∀ (i : ℕ) x, l'[i]? = some x → l[i]? = some x) : l' = l := by
  refine ext_getElem? fun i => ?_
  cases hi : l'[i]? with
  | some x => exact (h i x hi).symm
  | none =>
    rw [List.getElem?_eq_none_iff, hlen, ← List.getElem?_eq_none_iff] at hi
    exact hi.symm

theorem colon_notMem_of_isKnownEvidenceKind {kind : Str} (h : isKnownEvidenceKind kind = true) : ':' ∉ kind := by
  have hall : ∀ k ∈ knownEvidenceKinds, ':' ∉ k := by decide
  exact hall kind (by simpa [isKnownEvidenceKind] using h)

theorem lineRangeOf_print (r : U32 × U32) : lineRangeOf (dec r.1.val ++ '-' :: dec r.2.val) = some r := by
  rw [lineRangeOf, splitOnce_append _ (notMem_dec (by decide) _)]
  simp

/-- A decoder takes the fields of a message apart as the encoder wrote them.  `split` is what
reading does to the evidence ids of a finding. -/
structure Recovers (fmt : WireFormat) (split : List Str → List Str) (m : AgentCommMessage R)
    (field : WireTable) (next : List Str) (counts : WireSlot → ℕ → Prop) (refs : ReferenceReader)
    (state : StateReader) (record : Option Verification → Prop) : Prop where
  field : ∀ k, field k = m.wireValue fmt k
  next : next = m.nextActions
  findings : ∀ n, counts .findingStatement n ↔ n = m.findings.length
  evidence : ∀ n, counts .evidenceRef n ↔ n = m.evidence.length
  artifacts : ∀ n, counts .artifact n ↔ n = m.artifacts.length
  dependencies : ∀ n, counts .dependency n ↔ n = m.dependencies.length
  refs : ∀ f ∈ m.findings, ∀ numbers,
    refs m.evidence.length (if f.evidence = [] then none else some (fmt.references f.evidence))
      numbers ↔ Names m.evidence.length (split f.evidence) numbers
  state : ∀ b, state (fmt.verified b) = some (some b)
  record : ∀ v, record v ↔ v = m.verification

namespace Recovers

variable {fmt : WireFormat} {split : List Str → List Str} {m m' : AgentCommMessage R}
  {field : WireTable} {next : List Str} {counts : WireSlot → ℕ → Prop} {refs : ReferenceReader}
  {state : StateReader} {record : Option Verification → Prop}
  (h : Recovers fmt split m field next counts refs state record)

include h

/-- Reading finding `i` of an encoded message gives its image. -/
theorem readsFinding_iff {i : ℕ} {f f' : Finding R} (hf : m.findings[i]? = some f) :
    ReadsFinding field refs m.evidence.length (i + 1) f' ↔ FindingImage split m.evidence.length (i + 1) f f' := by
  have hstatement : field (.findingStatement, some (i + 1)) = some f.statement := by simp [h.field, wireValue, hf]
  have hconfidence : field (.findingConfidence, some (i + 1)) = f.confidence.map F32.format3 := by
    simp [h.field, wireValue, hf]
  have hevidence : ∀ numbers, refs m.evidence.length (field (.findingEvidence, some (i + 1)))
      numbers ↔ Names m.evidence.length (split f.evidence) numbers := by
    intro numbers
    rw [← h.refs f (mem_of_getElem? hf), h.field]
    simp only [wireValue, hf, bind_some]
  constructor
  · intro hr
    refine ⟨hr.id, ?_, optReads_map.1 (hconfidence ▸ hr.confidence), ?_⟩
    · exact (Option.some.inj (hstatement.symm.trans hr.statement)).symm
    · simpa only [hevidence] using hr.evidence
  · intro hi
    refine ⟨hi.id, by rw [hstatement, hi.statement], ?_, ?_⟩
    · exact hconfidence ▸ optReads_map.2 hi.confidence
    · simpa only [hevidence] using hi.evidence

/-- Reading evidence entry `i` of an encoded message gives it back under its number. -/
theorem readsEvidence_iff {i : ℕ}
    {e e' : EvidenceRef} (he : m.evidence[i]? = some e) (hkind : ':' ∉ e.kind) :
    ReadsEvidence field state (i + 1) e' ↔ e' = { e with id := evidenceId (i + 1) } := by
  constructor
  · intro hr
    obtain ⟨encoded, henc, hsplit⟩ := hr.ref
    obtain ⟨v, hv, hverified⟩ := hr.verified
    have hlr := hr.lineRange
    have hd := hr.digest
    have hrev := hr.revision
    simp only [h.field, wireValue, he, bind_some, map_some, Option.some.injEq] at henc hv hlr hd hrev
    rw [← henc, splitOnce_append _ hkind, Option.some.injEq, Prod.mk.injEq] at hsplit
    rw [optReads_map_iff lineRangeOf_print] at hlr
    have hver : e'.verified = e.verified := by
      cases hev : e.verified <;> simp_all [OptReads, h.state]
    obtain ⟨id, kind, locator, lineRange, digest, revision, verified⟩ := e'
    have hid := hr.id
    simp only at hid hsplit hlr hd hrev hver
    rw [hid, hsplit.1, hsplit.2, hlr, hd, hrev, hver]
  · rintro rfl
    refine ⟨rfl, ⟨e.kind ++ ':' :: e.locator, ?_, splitOnce_append _ hkind⟩, ?_, ?_, ?_,
      ⟨e.verified.map some, ?_, by cases e.verified <;> rfl⟩⟩
    · simp [h.field, wireValue, he]
    · simp only [h.field, wireValue, he, bind_some]
      exact (optReads_map_iff lineRangeOf_print).2 rfl
    · simp [h.field, wireValue, he]
    · simp [h.field, wireValue, he]
    · simp only [h.field, wireValue, he, bind_some]
      cases e.verified <;> simp [OptReads, h.state]

end Recovers

/-- The lists of a message have machine-sized lengths. -/
structure Fits (m : AgentCommMessage R) : Prop where
  findings : m.findings.length < usizeBound
  evidence : m.evidence.length < usizeBound
  artifacts : m.artifacts.length < usizeBound
  dependencies : m.dependencies.length < usizeBound

variable {m : AgentCommMessage R} {fmt : WireFormat}

omit [F32 R] in
theorem Fits.entryCount_lt (h : Fits m) (slot : WireSlot) : m.entryCount slot < usizeBound := by
  unfold entryCount
  split
  · exact h.findings
  · exact h.evidence
  · exact h.artifacts
  · exact h.dependencies
  · decide

/-- A message with few fields has short lists. -/
theorem fits_of_length (h : (m.wireFields fmt).length ≤ 128) : Fits m := by
  have hF := Keyed.length_le_length_groups (fun n x => by simp [findingWire, wireField] :
      ∀ n (x : Finding R), findingWire fmt n x ≠ []) 1 m.findings
  have hE := Keyed.length_le_length_groups (fun n x => by simp [evidenceWire, wireField] :
      ∀ n x, evidenceWire fmt n x ≠ []) 1 m.evidence
  have hentry : ∀ (slot : WireSlot) (n : ℕ) (x : Str), entryWire slot n x ≠ [] := by
    intro slot n x
    simp [entryWire, wireField]
  have hA := Keyed.length_le_length_groups (hentry .artifact) 1 m.artifacts
  have hD := Keyed.length_le_length_groups (hentry .dependency) 1 m.dependencies
  simp only [wireFields, length_append] at h
  have hbound : 128 < usizeBound := by decide
  exact ⟨by omega, by omega, by omega, by omega⟩

/-- The keys of a message carry numbers that fit. -/
theorem fitsSlot_of_wireValue (hfits : Fits m) {k : WireKey}
    (h : (m.wireValue fmt k).isSome = true) : FitsSlot k.1 k.2 := by
  obtain ⟨slot, number⟩ := k
  cases number with
  | none =>
    cases slot <;> first
      | rfl
      | exact absurd h Bool.false_ne_true
  | some i =>
    obtain ⟨hindexed, h₁, hi⟩ := bounds_of_isSome_wireValue h
    have hcount := hfits.entryCount_lt slot
    exact ⟨hindexed, h₁, by omega⟩

theorem fitsSlot_of_mem_wireFields (hfits : Fits m)
    {e : WireKey × Str} (he : e ∈ m.wireFields fmt) : FitsSlot e.1.1 e.1.2 := by
  have hsome : (m.wireValue fmt e.1).isSome = true := by
    rw [← first_wireFields, isSome_iff_ne_none]
    exact fun hnone => Keyed.first_eq_none_iff.1 hnone e he rfl
  exact fitsSlot_of_wireValue hfits hsome

/-! ### Positional messages -/

/-- Findings are numbered `F1..Fn` and evidence `E1..Ek`, in order. -/
structure Positional (m : AgentCommMessage R) : Prop where
  findings : ∀ i f, m.findings[i]? = some f → f.id = findingId (i + 1)
  evidence : ∀ i e, m.evidence[i]? = some e → e.id = evidenceId (i + 1)

/-- Every confidence is a whole number of thousandths. -/
def ExactConfidences (m : AgentCommMessage R) : Prop := ∀ f ∈ m.findings, ∀ c ∈ f.confidence, F32.IsThousandth c

omit [F32 R] in
theorem Positional.numbered_evidence (h : Positional m) : numbered m.evidence = m.evidence := by
  refine ext_getElem? fun i => ?_
  rw [getElem?_numbered]
  cases he : m.evidence[i]? with
  | none => rfl
  | some e => rw [map_some, ← h.evidence i e he]

theorem refNumber_evidenceId {count n : ℕ} (h₁ : 1 ≤ n) (h : n ≤ count)
    (hcount : count < usizeBound) : refNumber count (evidenceId n) = some n := by
  rw [refNumber, evidenceId, stripPrefix_append, bind_some, parseUnsigned_dec (by omega)]
  simp [Option.filter, h₁, h]

theorem names_map_evidenceId {count : ℕ} (hcount : count < usizeBound) {numbers numbers' : List ℕ}
    (h : ∀ n ∈ numbers, 1 ≤ n ∧ n ≤ count) :
    Names count (numbers.map evidenceId) numbers' ↔ numbers' = numbers := by
  rw [Names, forall₂_map_left_iff]
  constructor
  · intro hn
    induction hn with
    | nil => rfl
    | cons hr _ ih =>
      rw [forall_mem_cons] at h
      rw [refNumber_evidenceId h.1.1 h.1.2 hcount, Option.some.injEq] at hr
      rw [hr, ih h.2]
  · rintro rfl
    exact forall₂_same.2 fun n hn => refNumber_evidenceId (h n hn).1 (h n hn).2 hcount

/-! ### Images of valid messages -/

variable [Host]

/-- Reading the fields of a valid message gives its image, when that is valid. -/
theorem Recovers.reads_iff {split : List Str → List Str}
    {m' : AgentCommMessage R} {field : WireTable} {next : List Str}
    {counts : WireSlot → ℕ → Prop} {refs : ReferenceReader} {state : StateReader}
    {record : Option Verification → Prop}
    (hr : Recovers fmt split m field next counts refs state record) (hv : m.Valid) :
    Reads field next counts refs state record m' ↔ WireImage split m m' ∧ m'.Valid := by
  obtain rfl : field = m.wireValue fmt := funext hr.field
  have hseq : ∀ r, OptReads (parseFin (2 ^ 64)) (m.wireValue fmt (.sequence, none)) r ↔ r = m.sequence :=
    fun r => optReads_map_iff parseFin_dec
  have hkind : ∀ {i} {e : EvidenceRef}, m.evidence[i]? = some e → ':' ∉ e.kind := fun he =>
    colon_notMem_of_isKnownEvidenceKind (hv.kinds _ (mem_of_getElem? he))
  constructor
  · intro h
    have hev := (hr.evidence _).1 h.evidenceCount
    refine ⟨⟨?_, (hr.findings _).1 h.findingCount, fun i f f' hf hf' => ?_, ?_⟩, h.valid⟩
    · exact AgentCommMessage.ext h.messageId (Option.some.inj h.taskId).symm h.parentTaskId h.traceId h.sender
        h.recipient (Option.some.inj h.kind).symm (Option.some.inj h.status).symm rfl rfl
        (eq_of_forall_getElem? ((hr.artifacts _).1 h.artifactCount) h.artifacts)
        ((hr.record _).1 h.verification)
        (eq_of_forall_getElem? ((hr.dependencies _).1 h.dependencyCount) h.dependencies)
        (h.nextActions.trans hr.next) ((hseq _).1 h.sequence) (h.valid.protocol.trans hv.protocol.symm)
        h.timestamp h.expiry
    · exact (hr.readsFinding_iff hf).1 (hev ▸ h.findings i f' hf')
    · refine eq_of_forall_getElem? (by rw [hev, length_numbered]) fun i e he => ?_
      have hi : i < m.evidence.length := by
        rw [← hev]
        exact (List.getElem?_eq_some_iff.1 he).1
      have hget := List.getElem?_eq_getElem hi
      rw [getElem?_numbered, hget, (hr.readsEvidence_iff hget (hkind hget)).1 (h.evidence i e he)]
      rfl
  · rintro ⟨h, hvalid⟩
    have hev : m'.evidence.length = m.evidence.length := by rw [h.evidence, length_numbered]
    have hrest := h.rest
    rw [AgentCommMessage.ext_iff] at hrest
    obtain ⟨h₁, h₂, h₃, h₄, h₅, h₆, h₇, h₈, -, -, h₁₁, h₁₂, h₁₃, h₁₄, h₁₅, -, h₁₇, h₁₈⟩ := hrest
    refine ⟨congrArg some h₂.symm, congrArg some h₇.symm, congrArg some h₈.symm, h₁, h₃, h₄, h₅, h₆, h₁₇, h₁₈,
      (hseq _).2 h₁₅, (hr.evidence _).2 hev, (hr.findings _).2 h.length,
      (hr.artifacts _).2 (congrArg length h₁₁), (hr.dependencies _).2 (congrArg length h₁₃),
      fun i f' hf' => ?_, fun i e he => ?_, fun i t ht => (congrArg (·[i]?) h₁₁).symm.trans ht,
      fun i t ht => (congrArg (·[i]?) h₁₃).symm.trans ht, (hr.record _).2 h₁₂, h₁₄.trans hr.next.symm, hvalid⟩
    · have hi : i < m.findings.length := by
        rw [← h.length]
        exact (List.getElem?_eq_some_iff.1 hf').1
      have hget := List.getElem?_eq_getElem hi
      rw [hev]
      exact (hr.readsFinding_iff hget).2 (h.finding i _ f' hget hf')
    · rw [h.evidence, getElem?_numbered, map_eq_some_iff] at he
      obtain ⟨e₀, he₀, rfl⟩ := he
      exact (hr.readsEvidence_iff he₀ (hkind he₀)).2 rfl

/-- A finding of a valid positional message cites entries of the message by their numbers. -/
theorem Positional.exists_numbers (h : Positional m) (hv : m.Valid) {f : Finding R} (hf : f ∈ m.findings) :
    ∃ numbers : List ℕ, f.evidence = numbers.map evidenceId ∧ ∀ n ∈ numbers, 1 ≤ n ∧ n ≤ m.evidence.length := by
  have hlinks := hv.links f hf
  generalize f.evidence = ids at hlinks
  induction ids with
  | nil => exact ⟨[], rfl, by simp⟩
  | cons id ids ih =>
    rw [forall_mem_cons] at hlinks
    obtain ⟨numbers, rfl, hn⟩ := ih hlinks.2
    obtain ⟨e, he, rfl⟩ := mem_map.1 hlinks.1
    obtain ⟨i, hi⟩ := mem_iff_getElem?.1 he
    have hlt := (List.getElem?_eq_some_iff.1 hi).1
    refine ⟨(i + 1) :: numbers, by rw [map_cons, h.evidence i e hi], ?_⟩
    exact forall_mem_cons.2 ⟨⟨by omega, by omega⟩, hn⟩

/-- A valid positional message with exact confidences is its own image, and its only one, in every
encoding that takes lists of positional ids apart correctly. -/
theorem wireImage_iff_eq [LawfulF32 R] {split : List Str → List Str}
    (hsplit : ∀ numbers : List ℕ, split (numbers.map evidenceId) = numbers.map evidenceId)
    {m' : AgentCommMessage R} (hv : m.Valid) (hfits : Fits m) (hp : Positional m)
    (hc : ExactConfidences m) : WireImage split m m' ↔ m' = m := by
  have hfinding : ∀ i f f', m.findings[i]? = some f → (FindingImage split m.evidence.length (i + 1) f f' ↔ f' = f) := by
    intro i f f' hf
    have hmem := mem_of_getElem? hf
    obtain ⟨numbers, hids, hrange⟩ := hp.exists_numbers hv hmem
    have hnames : ∀ numbers', Names m.evidence.length (split f.evidence) numbers' ↔ numbers' = numbers := by
      intro numbers'
      rw [hids, hsplit]
      exact names_map_evidenceId hfits.evidence hrange
    have hconf : ∀ r, OptReads (fun c => F32.parse (F32.format3 c)) f.confidence r ↔ r = f.confidence := by
      intro r
      cases hfc : f.confidence with
      | none => simp [OptReads]
      | some c => simp [OptReads, LawfulF32.parse_format3 c (hc f hmem c hfc)]
    constructor
    · rintro ⟨hid, hst, hcf, ⟨numbers', hn, he⟩⟩
      rw [hnames] at hn
      rw [hconf] at hcf
      exact Finding.ext (hid.trans (hp.findings i f hf).symm) hst hcf (by rw [he, hn, hids])
    · rintro rfl
      exact ⟨hp.findings i f' hf, rfl, (hconf _).2 rfl, numbers, (hnames _).2 rfl, hids⟩
  constructor
  · intro h
    have hfs : m'.findings = m.findings := by
      refine eq_of_forall_getElem? h.length fun i f' hf' => ?_
      have hi : i < m.findings.length := by
        rw [← h.length]
        exact (List.getElem?_eq_some_iff.1 hf').1
      have hget := List.getElem?_eq_getElem hi
      rw [hget, (hfinding i _ f' hget).1 (h.finding i _ f' hget hf')]
    rw [h.rest, hfs, h.evidence, hp.numbered_evidence]
  · rintro rfl
    refine ⟨rfl, rfl, fun i f f' hf hf' => ?_, hp.numbered_evidence.symm⟩
    rw [hf, Option.some.injEq] at hf'
    subst hf'
    exact (hfinding i f f hf).2 rfl

end Occ
