/-
**The fields of the contract, independent of their spelling.**

Every encoding of a contract message writes the same fields in the same order; the encodings differ
in how they spell a key and in two kinds of values.  This module names the fields by slots (the
`WireSlot` of `core/occ/occ2.rs`), lists the fields of a message once, and shows that the OCC-1
encoder writes that list under its own spelling.
-/

import OptimusAgent.Contract

namespace Occ

open Str Checked List

/-! ### Slots and keys -/

/-- The fields of the contract. -/
inductive WireSlot where
  | messageId | taskId | parentTaskId | traceId | sender | recipient | kind | status | sequence
  | timestamp | expiry
  | findingStatement | findingConfidence | findingEvidence
  | evidenceRef | evidenceLineRange | evidenceDigest | evidenceRevision | evidenceVerified
  | artifact
  | verificationClaim | verificationStatus | verificationMethod | verificationReceipt
  | dependency | nextAction
  deriving DecidableEq, Repr

namespace WireSlot

/-- The OCC-1 key word of a slot, as a literal. -/
def literal : WireSlot → String
  | messageId => "MSGID"
  | taskId => "TASK"
  | parentTaskId => "PARENT"
  | traceId => "TRACE"
  | sender => "SENDER"
  | recipient => "RECIPIENT"
  | kind => "KIND"
  | status => "STATUS"
  | sequence => "SEQ"
  | timestamp => "TS"
  | expiry => "EXP"
  | findingStatement => "F"
  | findingConfidence => "FC"
  | findingEvidence => "FE"
  | evidenceRef => "E"
  | evidenceLineRange => "EL"
  | evidenceDigest => "ED"
  | evidenceRevision => "ER"
  | evidenceVerified => "EV"
  | artifact => "ART"
  | verificationClaim => "V"
  | verificationStatus => "VS"
  | verificationMethod => "VM"
  | verificationReceipt => "VR"
  | dependency => "DEP"
  | nextAction => "NEXT"

/-- The OCC-1 key word of a slot. -/
def word (slot : WireSlot) : Str := slot.literal

/-- The slot a field hangs off: the entry it belongs to, or itself. -/
def base : WireSlot → WireSlot
  | findingConfidence | findingEvidence => findingStatement
  | evidenceLineRange | evidenceDigest | evidenceRevision | evidenceVerified => evidenceRef
  | verificationStatus | verificationMethod | verificationReceipt => verificationClaim
  | slot => slot

/-- Whether the keys of a slot carry a number. -/
def isIndexed (slot : WireSlot) : Bool := slot.base ∈ [findingStatement, evidenceRef, artifact, dependency]

/-- The base slots of the indexed families. -/
def IsFamily (b : WireSlot) : Prop := b = .findingStatement ∨ b = .evidenceRef ∨ b = .artifact ∨ b = .dependency

/-- The inventory of slots. -/
def inventory : List WireSlot :=
  [messageId, taskId, parentTaskId, traceId, sender, recipient, kind, status, sequence, timestamp,
    expiry, findingStatement, findingConfidence, findingEvidence, evidenceRef, evidenceLineRange,
    evidenceDigest, evidenceRevision, evidenceVerified, artifact, verificationClaim,
    verificationStatus, verificationMethod, verificationReceipt, dependency, nextAction]

theorem find?_word (slot : WireSlot) : (inventory.find? fun s => s.word = slot.word) = some slot := by
  cases slot <;> decide +kernel

theorem word_injective : Function.Injective word := by
  intro a b h
  rw [← Option.some.injEq, ← find?_word a, ← find?_word b, h]

theorem endsInDigit_word (slot : WireSlot) : endsInDigit slot.word = false := by
  cases slot <;> decide

end WireSlot

/-- A key: a slot, and the number of the entry it belongs to. -/
abbrev WireKey : Type := WireSlot × Option ℕ

/-- The number of a key fits its slot: machine-sized and from 1 on for an indexed slot, absent for
another. -/
def FitsSlot (slot : WireSlot) : Option ℕ → Prop
  | none => slot.isIndexed = false
  | some n => slot.isIndexed = true ∧ 1 ≤ n ∧ n < usizeBound

instance (slot : WireSlot) : (number : Option ℕ) → Decidable (FitsSlot slot number)
  | none => inferInstanceAs (Decidable (slot.isIndexed = false))
  | some n => inferInstanceAs (Decidable (slot.isIndexed = true ∧ 1 ≤ n ∧ n < usizeBound))

/-- The OCC-1 spelling of a key. -/
def occ1Key : WireKey → Str
  | (slot, none) => slot.word
  | (slot, some n) => slot.word ++ dec n

theorem occ1Key_eq_spell : occ1Key = spell WireSlot.word := by
  funext k
  obtain ⟨slot, number⟩ := k
  cases number <;> rfl

/-- The OCC-1 spelling is unambiguous. -/
theorem occ1Key_injective : Function.Injective occ1Key := by
  rw [occ1Key_eq_spell]
  exact spell_injective WireSlot.word_injective WireSlot.endsInDigit_word

/-! ### The fields of a message -/

/-- How an encoding writes the two kinds of values on which the encodings differ. -/
structure WireFormat where
  /-- The evidence ids a finding cites. -/
  references : List Str → Str
  /-- The verification state of an evidence reference. -/
  verified : Bool → Str

/-- The OCC-1 format. -/
def occ1Format : WireFormat where
  references := [','].intercalate
  verified b := if b then "pass" else "fail"

/-- The field of an optional value. -/
def wireField (key : WireKey) (value : Option Str) : List (WireKey × Str) := value.toList.map fun v => (key, v)

variable {R : Type} [F32 R]

namespace AgentCommMessage

/-- The fields of finding number `n`. -/
def findingWire (fmt : WireFormat) (n : ℕ) (f : Finding R) : List (WireKey × Str) :=
  wireField (.findingStatement, some n) (some f.statement) ++
    wireField (.findingConfidence, some n) (f.confidence.map F32.format3) ++
    wireField (.findingEvidence, some n)
      (if f.evidence = [] then none else some (fmt.references f.evidence))

/-- The fields of evidence reference number `n`. -/
def evidenceWire (fmt : WireFormat) (n : ℕ) (e : EvidenceRef) : List (WireKey × Str) :=
  wireField (.evidenceRef, some n) (some (e.kind ++ ':' :: e.locator)) ++ wireField (.evidenceLineRange, some n)
      (e.lineRange.map fun r => dec r.1.val ++ '-' :: dec r.2.val) ++
    wireField (.evidenceDigest, some n) e.digest ++
    wireField (.evidenceRevision, some n) e.revision ++
    wireField (.evidenceVerified, some n) (e.verified.map fmt.verified)

/-- The field of entry number `n` of a list of plain texts. -/
def entryWire (slot : WireSlot) (n : ℕ) (text : Str) : List (WireKey × Str) := wireField (slot, some n) (some text)

/-- The fields of the verification record. -/
def verificationWire (v : Option Verification) : List (WireKey × Str) :=
  wireField (.verificationClaim, none) (v.map Verification.claim) ++
    wireField (.verificationStatus, none) (v.map Verification.status) ++
    wireField (.verificationMethod, none) (v.map Verification.method) ++
    wireField (.verificationReceipt, none) (v.bind Verification.receipt)

/-- The fields before the findings. -/
def headWire (m : AgentCommMessage R) : List (WireKey × Str) :=
  wireField (.messageId, none) m.messageId ++ wireField (.taskId, none) (some m.taskId) ++
    wireField (.parentTaskId, none) m.parentTaskId ++ wireField (.traceId, none) m.traceId ++
    wireField (.sender, none) m.senderIdentity ++
    wireField (.recipient, none) m.recipientIdentity ++ wireField (.kind, none) (some m.kind) ++
    wireField (.status, none) (some m.status) ++
    wireField (.sequence, none) (m.sequence.map fun n => dec n.val)

/-- The fields of a message in wire order. -/
def wireFields (fmt : WireFormat) (m : AgentCommMessage R) : List (WireKey × Str) :=
  m.headWire ++ Keyed.groups (findingWire fmt) 1 m.findings ++ Keyed.groups (evidenceWire fmt) 1 m.evidence ++
    Keyed.groups (entryWire .artifact) 1 m.artifacts ++ verificationWire m.verification ++
    Keyed.groups (entryWire .dependency) 1 m.dependencies ++
    (m.nextActions.map fun a => ((.nextAction, none), a)) ++
    (wireField (.timestamp, none) m.timestamp ++ wireField (.expiry, none) m.expiry)

end AgentCommMessage

/-! ### Lookups -/

theorem all_wireField (k key : WireKey) (value : Option Str) :
    Keyed.all k (wireField key value) = if key = k then value.toList else [] :=
  Keyed.all_toList_map k key value

variable {e : WireKey × Str}

theorem mem_wireField {key : WireKey} {value : Option Str}
    (h : e ∈ wireField key value) : e.1 = key := by
  obtain ⟨v, -, rfl⟩ := mem_map.1 h
  rfl

namespace AgentCommMessage

variable {fmt : WireFormat}

/-- The fields of a finding belong to the finding and carry its number. -/
theorem mem_findingWire {n : ℕ} {f : Finding R}
    (h : e ∈ findingWire fmt n f) : e.1.1.base = .findingStatement ∧ e.1.2 = some n := by
  simp only [findingWire, mem_append] at h
  rcases h with (h | h) | h <;> rw [mem_wireField h] <;> exact ⟨rfl, rfl⟩

/-- The fields of an evidence reference belong to it and carry its number. -/
theorem mem_evidenceWire {n : ℕ} {r : EvidenceRef}
    (h : e ∈ evidenceWire fmt n r) : e.1.1.base = .evidenceRef ∧ e.1.2 = some n := by
  simp only [evidenceWire, mem_append] at h
  rcases h with (((h | h) | h) | h) | h <;> rw [mem_wireField h] <;> exact ⟨rfl, rfl⟩

/-- The value of a field of a message: what the encoding writes under a key. -/
def wireValue (fmt : WireFormat) (m : AgentCommMessage R) : WireKey → Option Str
  | (.messageId, none) => m.messageId
  | (.taskId, none) => some m.taskId
  | (.parentTaskId, none) => m.parentTaskId
  | (.traceId, none) => m.traceId
  | (.sender, none) => m.senderIdentity
  | (.recipient, none) => m.recipientIdentity
  | (.kind, none) => some m.kind
  | (.status, none) => some m.status
  | (.sequence, none) => m.sequence.map fun n => dec n.val
  | (.timestamp, none) => m.timestamp
  | (.expiry, none) => m.expiry
  | (.findingStatement, some (n + 1)) => m.findings[n]?.map Finding.statement
  | (.findingConfidence, some (n + 1)) => m.findings[n]?.bind fun f => f.confidence.map F32.format3
  | (.findingEvidence, some (n + 1)) => m.findings[n]?.bind fun f =>
    if f.evidence = [] then none else some (fmt.references f.evidence)
  | (.evidenceRef, some (n + 1)) => m.evidence[n]?.map fun e => e.kind ++ ':' :: e.locator
  | (.evidenceLineRange, some (n + 1)) => m.evidence[n]?.bind fun e =>
    e.lineRange.map fun r => dec r.1.val ++ '-' :: dec r.2.val
  | (.evidenceDigest, some (n + 1)) => m.evidence[n]?.bind EvidenceRef.digest
  | (.evidenceRevision, some (n + 1)) => m.evidence[n]?.bind EvidenceRef.revision
  | (.evidenceVerified, some (n + 1)) => m.evidence[n]?.bind fun e => e.verified.map fmt.verified
  | (.artifact, some (n + 1)) => m.artifacts[n]?
  | (.verificationClaim, none) => m.verification.map Verification.claim
  | (.verificationStatus, none) => m.verification.map Verification.status
  | (.verificationMethod, none) => m.verification.map Verification.method
  | (.verificationReceipt, none) => m.verification.bind Verification.receipt
  | (.dependency, some (n + 1)) => m.dependencies[n]?
  | (.nextAction, none) => m.nextActions.head?
  | _ => none

/-- The values of a field of a message: next actions share one key, every other key has at most one
value. -/
def wireValues (fmt : WireFormat) (m : AgentCommMessage R) (k : WireKey) : List Str :=
  if k = (.nextAction, none) then m.nextActions else (m.wireValue fmt k).toList

variable (fmt : WireFormat) (slot : WireSlot) (number : Option ℕ)

theorem all_findings (l : List (Finding R)) : Keyed.all (slot, number) (Keyed.groups (findingWire fmt) 1 l) =
      match number with
      | some (n + 1) => if slot.base = .findingStatement then
          (l[n]?.map fun x => Keyed.all (slot, some (n + 1)) (findingWire fmt (n + 1) x)).getD []
          else []
      | _ => [] :=
  Keyed.all_groups_numbered (fun s => s.base = .findingStatement)
    (fun _ _ _ => mem_findingWire) slot number l

theorem all_evidence (l : List EvidenceRef) : Keyed.all (slot, number) (Keyed.groups (evidenceWire fmt) 1 l) =
      match number with
      | some (n + 1) => if slot.base = .evidenceRef then
          (l[n]?.map fun x => Keyed.all (slot, some (n + 1)) (evidenceWire fmt (n + 1) x)).getD []
          else []
      | _ => [] :=
  Keyed.all_groups_numbered (fun s => s.base = .evidenceRef) (fun _ _ _ => mem_evidenceWire)
    slot number l

theorem all_entries (b slot : WireSlot) (hb : b.base = b) (number : Option ℕ) (l : List Str) :
    Keyed.all (slot, number) (Keyed.groups (entryWire b) 1 l) =
      match number with
      | some (n + 1) => if slot.base = b then
          (l[n]?.map fun x => Keyed.all (slot, some (n + 1)) (entryWire b (n + 1) x)).getD []
          else []
      | _ => [] :=
  Keyed.all_groups_numbered (fun s => s.base = b)
    (fun n x e he => by rw [mem_wireField he]; exact ⟨hb, rfl⟩) slot number l

theorem all_nextActions (l : List Str) :
    Keyed.all (slot, number) (l.map fun a => (((.nextAction, none) : WireKey), a)) =
      if slot = .nextAction ∧ number = none then l else [] := by
  rw [Keyed.all_map_const]
  simp [Prod.ext_iff, eq_comm]

/-- A lookup by key in the fields of a message finds exactly the values of the field. -/
theorem all_wireFields (m : AgentCommMessage R) (k : WireKey) :
    Keyed.all k (m.wireFields fmt) = m.wireValues fmt k := by
  obtain ⟨slot, number⟩ := k
  simp only [wireFields, Keyed.all_append, all_findings, all_evidence,
    all_entries .artifact slot rfl, all_entries .dependency slot rfl, all_nextActions, headWire,
    verificationWire, all_wireField, wireValues]
  cases number with
  | none =>
    simp only [Prod.mk.injEq, and_true, append_nil]
    cases slot <;> simp only [reduceCtorEq, if_true, if_false, nil_append, append_nil] <;> rfl
  | some number =>
    cases number with
    | zero =>
      simp only [Prod.mk.injEq, reduceCtorEq, and_false, if_false, append_nil]
      cases slot <;> rfl
    | succ n =>
      -- the number picks the entry; the slot picks the field within it
      simp only [Prod.mk.injEq, reduceCtorEq, and_false, if_false, append_nil, nil_append]
      cases slot <;> simp only [WireSlot.base, findingWire, evidenceWire, entryWire,
        Keyed.all_append, all_wireField, Prod.mk.injEq, reduceCtorEq, false_and, if_true, if_false,
        nil_append, append_nil]
      case findingStatement | evidenceRef => exact Keyed.getD_map_singleton ..
      case artifact | dependency => exact (Keyed.getD_map_toList _ some).trans (by rw [Option.bind_fun_some]; rfl)
      case findingConfidence | findingEvidence | evidenceLineRange | evidenceDigest |
          evidenceRevision | evidenceVerified => exact Keyed.getD_map_toList ..
      all_goals rfl

/-- A lookup of the first value under a key. -/
theorem first_wireFields (m : AgentCommMessage R) (k : WireKey) :
    Keyed.first k (m.wireFields fmt) = m.wireValue fmt k := by
  rw [Keyed.first_eq_head?_all, all_wireFields, wireValues]
  split
  · next hk =>
    subst hk
    rfl
  · exact Option.head?_toList

variable {fmt}

/-- The number of entries of the list that the fields of a slot belong to. -/
def entryCount (m : AgentCommMessage R) (slot : WireSlot) : ℕ :=
  match slot.base with
  | .findingStatement => m.findings.length
  | .evidenceRef => m.evidence.length
  | .artifact => m.artifacts.length
  | .dependency => m.dependencies.length
  | _ => 0

/-- A numbered field belongs to an entry of its list. -/
theorem bounds_of_isSome_wireValue {m : AgentCommMessage R} {slot : WireSlot}
    {i : ℕ} (h : (m.wireValue fmt (slot, some i)).isSome = true) :
    slot.isIndexed = true ∧ 1 ≤ i ∧ i ≤ m.entryCount slot := by
  have hlt : ∀ {α : Type} {l : List α} {n : ℕ}, l[n]?.isSome = true → n + 1 ≤ l.length := by
    intro α l n hs
    obtain ⟨x, hx⟩ := Option.isSome_iff_exists.1 hs
    exact (List.getElem?_eq_some_iff.1 hx).1
  have hbind : ∀ {α β : Type} {o : Option α} {g : α → Option β}, (o.bind g).isSome = true → o.isSome = true := by
    intro α β o g hs
    cases o with
    | none => exact hs
    | some x => rfl
  match i with
  | 0 => cases slot <;> exact absurd h Bool.false_ne_true
  | n + 1 =>
    cases slot
    case findingStatement | evidenceRef => exact ⟨rfl, by omega, hlt ((Option.isSome_map).symm.trans h)⟩
    case findingConfidence | findingEvidence | evidenceLineRange | evidenceDigest |
        evidenceRevision | evidenceVerified =>
      exact ⟨rfl, by omega, hlt (hbind h)⟩
    case artifact | dependency => exact ⟨rfl, by omega, hlt h⟩
    all_goals exact absurd h Bool.false_ne_true

/-- Every entry of a list has its base field. -/
theorem isSome_wireValue_iff {m : AgentCommMessage R} {b : WireSlot} (hb : b.IsFamily) {i : ℕ} :
    (m.wireValue fmt (b, some i)).isSome = true ↔ 1 ≤ i ∧ i ≤ m.entryCount b := by
  have hentry : ∀ {α : Type} (l : List α) (n : ℕ), l[n]?.isSome = true ↔ 1 ≤ n + 1 ∧ n + 1 ≤ l.length := by
    intro α l n
    rw [Option.isSome_iff_ne_none, ne_eq, List.getElem?_eq_none_iff]
    omega
  cases i with
  | zero =>
    rcases hb with rfl | rfl | rfl | rfl <;> exact iff_of_false Bool.false_ne_true (by omega)
  | succ n =>
    rcases hb with rfl | rfl | rfl | rfl
    · exact (Bool.eq_iff_iff.1 Option.isSome_map).trans (hentry m.findings n)
    · exact (Bool.eq_iff_iff.1 Option.isSome_map).trans (hentry m.evidence n)
    · exact hentry m.artifacts n
    · exact hentry m.dependencies n

/-! ### The OCC-1 spelling -/

/-- A field under its OCC-1 key. -/
def occ1Field (e : WireKey × Str) : Str × Str := (occ1Key e.1, e.2)

theorem map_occ1Field_wireField (k : WireKey) (value : Option Str) :
    (wireField k value).map occ1Field = optField (occ1Key k) value := by
  cases value <;> rfl

theorem optField_none (key : Str) : optField key none = [] := rfl

theorem optField_some (key value : Str) : optField key (some value) = reqField key value := rfl

theorem map_groups {α κ ν κ' ν' : Type} (f : κ × ν → κ' × ν') (g : ℕ → α → List (κ × ν)) (start : ℕ) (l : List α) :
    (Keyed.groups g start l).map f = Keyed.groups (fun n x => (g n x).map f) start l := by
  rw [Keyed.groups, map_flatMap, Keyed.groups]

theorem map_findingWire (n : ℕ) (f : Finding R) : (findingWire occ1Format n f).map occ1Field = findingFields n f := by
  simp only [findingWire, findingFields, map_append, map_occ1Field_wireField, occ1Key, WireSlot.word, WireSlot.literal]
  by_cases h : f.evidence = []
  · simp only [h, if_true, optField_none, optField_some]
  · simp only [h, if_false, optField_some, occ1Format]

theorem map_evidenceWire (n : ℕ) (e : EvidenceRef) :
    (evidenceWire occ1Format n e).map occ1Field = evidenceFields n e := by
  simp only [evidenceWire, evidenceFields, map_append, map_occ1Field_wireField, occ1Key,
    WireSlot.word, WireSlot.literal, optField_some, occ1Format]

theorem map_verificationWire (v : Option Verification) :
    (verificationWire v).map occ1Field = v.toList.flatMap verificationFields := by
  cases v with
  | none => rfl
  | some v =>
    simp only [verificationWire, map_append, map_occ1Field_wireField, Option.toList_some,
      flatMap_singleton, verificationFields, occ1Key, WireSlot.word, WireSlot.literal,
      Option.map_some, Option.bind_some, optField_some]

/-- The OCC-1 encoder writes the fields of the message under their OCC-1 keys. -/
theorem fields_eq_wireFields (m : AgentCommMessage R) : m.fields = (m.wireFields occ1Format).map occ1Field := by
  have hnext : (m.nextActions.map fun a => (((.nextAction, none) : WireKey), a)).map occ1Field =
      m.nextActions.flatMap fun a => reqField "NEXT" a := by
    rw [map_map, map_eq_flatMap]
    simp only [Function.comp_apply, occ1Field, occ1Key, WireSlot.word, WireSlot.literal, reqField]
  unfold fields
  simp only [wireFields, map_append, headWire, map_groups, map_findingWire, map_evidenceWire,
    map_verificationWire, map_occ1Field_wireField, hnext, entryWire, occ1Key,
    WireSlot.word, WireSlot.literal, optField_some, append_assoc]
  simp only [Keyed.groups]

/-- What the OCC-1 decoder finds under a key of an encoded message. -/
theorem get_fields (m : AgentCommMessage R) (k : WireKey) :
    (⟨m.fields⟩ : Occ1Message).get (occ1Key k) = m.wireValue occ1Format k := by
  have hkeys : m.fields = (m.wireFields occ1Format).map fun e => (occ1Key e.1, e.2) := m.fields_eq_wireFields
  rw [Occ1Message.get_eq_first, hkeys, Keyed.first_map occ1Key_injective, first_wireFields]

end AgentCommMessage

end Occ
