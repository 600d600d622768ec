/-
**Consolidation of findings.**

Findings of several messages with the same statement are merged into one, or reported as a conflict
if they disagree.  Each statement has a group, which keeps the first status and the first reference
for each locator; a later finding is compared with these.  A finding that cites one locator twice,
with different digests, is represented by the first of them alone, if it is the first to cite the
locator: a later finding that agrees with that one and not with the other goes unnoticed.  This
module embeds `core/occ/consolidation.rs`.
-/

import OptimusAgent.Prune
import OptimusAgent.Grouping

namespace Occ

open Str List Keyed

/-- The comparison of confidences with one half. -/
class BelowHalf (R : Type) where
  belowHalf : R → Bool

/-! ### The report -/

/-- Which fields of a reference are its identity. -/
inductive EvidenceKeyMode where
  | locator
  | locatorAndDigest
  | locatorDigestRevision
  deriving DecidableEq

structure ConsolidationOptions where
  mergeSameStatement : Bool
  evidenceKey : EvidenceKeyMode

structure ConsolidationStats where
  messagesIn : ℕ
  findingsIn : ℕ
  findingsOut : ℕ
  evidenceIn : ℕ
  evidenceOut : ℕ
  conflicts : ℕ
  uncertainties : ℕ
  deriving DecidableEq

/-- The finding that appeared first, with the messages that assert it. -/
structure ConsolidatedFinding (R : Type) where
  finding : Finding R
  sources : List Str
  agreement : ℕ

/-- One finding of a conflict. -/
structure ConflictPosition where
  statement : Str
  sourceMessageId : Str
  evidenceIds : List Str
  deriving DecidableEq

structure Conflict where
  topic : Str
  positions : List ConflictPosition
  deriving DecidableEq

structure ConsolidationReport (R : Type) where
  findings : List (ConsolidatedFinding R)
  evidence : List EvidenceRef
  conflicts : List Conflict
  uncertainties : List Str
  dependencies : List Str
  stats : ConsolidationStats

/-! ### Groups -/

/-- A finding in its message. -/
structure Occurrence (R : Type) where
  finding : Finding R
  source : Str
  status : Option Str
  evidence : List EvidenceRef

/-- What a reference points at. -/
def EvidenceRef.place (e : EvidenceRef) : Str × Str := (e.kind, e.locator)

/-- What a reference says about it. -/
def EvidenceRef.checked (e : EvidenceRef) : Option Str × Option Bool := (e.digest, e.verified)

/-- The findings with one statement, and what they agreed on so far. -/
structure Group (R : Type) where
  normalized : Str
  occurrences : List (Occurrence R)
  /-- The first content for each place. -/
  union : List ((Str × Str) × (Option Str × Option Bool))
  /-- The status of the first finding. -/
  statusState : Option (Option Str)
  /-- The number of the finding that disagreed first. -/
  firstDetection : Option ℕ

/-- The identity of a reference; its line range is always part of it. -/
structure EvidenceIdentity where
  kind : Str
  locator : Str
  digest : Option Str
  revision : Option Str
  lineRange : Option (U32 × U32)
  deriving DecidableEq

def EvidenceIdentity.new (mode : EvidenceKeyMode) (e : EvidenceRef) : EvidenceIdentity where
  kind := e.kind
  locator := e.locator
  digest := if mode = .locator then none else e.digest
  revision := if mode = .locatorDigestRevision then e.revision else none
  lineRange := e.lineRange

variable {R : Type}

def messageLabel (m : AgentCommMessage R) (index : ℕ) : Str :=
  match m.messageId with
  | some id => id
  | none =>
    match m.sequence with
    | some sequence => m.taskId ++ '#' :: dec sequence.val
    | none => m.taskId ++ '#' :: dec (index + 1)

/-- The references that a finding links to, in its own message; unknown ids are skipped. -/
def resolveFindingEvidence (m : AgentCommMessage R) (f : Finding R) : List EvidenceRef :=
  (dedupInOrder f.evidence).filterMap fun id => m.evidence.find? fun e => e.id = id

def isUncertain [BelowHalf R] (f : Finding R) (status : Option Str) : Bool :=
  f.confidence.any BelowHalf.belowHalf || status = some ("unknown" : Str)

def confidenceField [F32 R] (f : Finding R) : Str :=
  match f.confidence with
  | some confidence => F32.display confidence
  | none => "unknown"

def uncertainty [F32 R] (m : AgentCommMessage R) (f : Finding R) : Str :=
  "task=" ++ m.taskId ++ " finding=" ++ f.id ++ " confidence=" ++ confidenceField f ++ " statement=" ++ f.statement

/-- A finding of a message that is labelled. -/
def occurrence (m : AgentCommMessage R) (label : Str) (f : Finding R) : Occurrence R :=
  ⟨f, label, findingVerificationStatus m f, resolveFindingEvidence m f⟩

/-- A group without findings. -/
def Group.new (normalized : Str) : Group R := ⟨normalized, [], [], none, none⟩

/-- The finding is compared with what the findings before it agreed on. -/
def Group.disagrees (g : Group R) (o : Occurrence R) : Bool := g.statusState.any (· ≠ o.status) ||
    o.evidence.any fun e => (first e.place g.union).any (· ≠ e.checked)

/-- A content is kept if it is the first for its place. -/
def addContent (union : List ((Str × Str) × (Option Str × Option Bool))) (e : EvidenceRef) :
    List ((Str × Str) × (Option Str × Option Bool)) :=
  if (first e.place union).isSome then union else union ++ [(e.place, e.checked)]

def Group.add (g : Group R) (o : Occurrence R × ℕ) : Group R where
  normalized := g.normalized
  occurrences := g.occurrences ++ [o.1]
  union := o.1.evidence.foldl addContent g.union
  statusState := some (g.statusState.getD o.1.status)
  firstDetection := if g.disagrees o.1 ∧ g.firstDetection = none then some o.2 else g.firstDetection

def Occurrence.normalized (o : Occurrence R) : Str := normalizedStatement o.finding.statement

/-- The group of the finding's statement, or a new one. -/
def placeOccurrence (groups : List (Group R)) (o : Occurrence R × ℕ) : List (Group R) :=
  Grouping.place (fun o => o.1.normalized) Group.normalized Group.new Group.add groups o

/-! ### Consolidation -/

structure ConsolidationState (R : Type) where
  flat : List (Occurrence R)
  groups : List (Group R)
  evidence : List EvidenceRef
  dependencies : List Str
  uncertainties : List Str
  findingsIn : ℕ
  evidenceIn : ℕ

def ConsolidationState.start : ConsolidationState R := ⟨[], [], [], [], [], 0, 0⟩

section

variable [F32 R] [BelowHalf R]

def addFinding (options : ConsolidationOptions) (m : AgentCommMessage R) (label : Str)
    (s : ConsolidationState R) (f : Finding R) : ConsolidationState R where
  flat := if options.mergeSameStatement then s.flat else s.flat ++ [occurrence m label f]
  groups :=
    if options.mergeSameStatement then placeOccurrence s.groups (occurrence m label f, s.findingsIn)
    else s.groups
  evidence := s.evidence
  dependencies := s.dependencies
  uncertainties :=
    if isUncertain f (findingVerificationStatus m f) then s.uncertainties ++ [uncertainty m f]
    else s.uncertainties
  findingsIn := s.findingsIn + 1
  evidenceIn := s.evidenceIn

omit [F32 R] [BelowHalf R] in
/-- The references whose identity was not seen before, and the dependencies. -/
def addReferences (options : ConsolidationOptions) (s : ConsolidationState R)
    (m : AgentCommMessage R) : ConsolidationState R :=
  { s with
    evidence := m.evidence.foldl (fun seen e =>
      if EvidenceIdentity.new options.evidenceKey e ∈ seen.map (EvidenceIdentity.new options.evidenceKey)
      then seen else seen ++ [e]) s.evidence
    dependencies := m.dependencies.foldl (fun seen d => if d ∈ seen then seen else seen ++ [d])
      s.dependencies
    evidenceIn := s.evidenceIn + m.evidence.length }

def addMessage (options : ConsolidationOptions) (s : ConsolidationState R)
    (m : AgentCommMessage R × ℕ) : ConsolidationState R :=
  m.1.findings.foldl (addFinding options m.1 (messageLabel m.1 m.2)) (addReferences options s m.1)

omit [F32 R] [BelowHalf R] in
def Group.conflict (g : Group R) : Conflict :=
  ⟨g.normalized, g.occurrences.map fun o => ⟨o.finding.statement, o.source, o.finding.evidence⟩⟩

omit [F32 R] [BelowHalf R] in
/-- The finding that appeared first; the sources are the different labels. -/
def Group.merged (g : Group R) : Option (ConsolidatedFinding R) :=
  g.occurrences.head?.map fun o =>
    let sources := dedupInOrder (g.occurrences.map Occurrence.source)
    ⟨o.finding, sources, sources.length⟩

omit [F32 R] [BelowHalf R] in
/-- The conflicts, by the numbers of the findings that disagreed first. -/
def detected (groups : List (Group R)) : List (ℕ × Conflict) :=
  (groups.filterMap fun g => g.firstDetection.map fun n => (n, g.conflict)).insertionSort
    fun a b => a.1 ≤ b.1

def consolidate (messages : List (AgentCommMessage R)) (options : ConsolidationOptions) : ConsolidationReport R :=
  let s := messages.zipIdx.foldl (addMessage options) .start
  let findings :=
    if options.mergeSameStatement then
      (s.groups.filter fun g => g.firstDetection = none).filterMap Group.merged
    else s.flat.map fun o => ⟨o.finding, [o.source], 1⟩
  let conflicts := if options.mergeSameStatement then (detected s.groups).map Prod.snd else []
  { findings, evidence := s.evidence, conflicts, uncertainties := s.uncertainties,
    dependencies := s.dependencies
    stats := ⟨messages.length, s.findingsIn, findings.length, s.evidenceIn, s.evidence.length,
      conflicts.length, s.uncertainties.length⟩ }

end

/-! ### Disagreement -/

/-- What a finding says about its statement. -/
structure Stance where
  status : Option Str
  evidence : List EvidenceRef
  deriving DecidableEq

def Occurrence.stance (o : Occurrence R) : Stance := ⟨o.status, o.evidence⟩

/-- What the findings with the statement say, in order. -/
def stances (messages : List (AgentCommMessage R)) (statement : Str) : List Stance :=
  messages.flatMap fun m => (m.findings.filter fun f => normalizedStatement f.statement = statement).map
    fun f => ⟨findingVerificationStatus m f, resolveFindingEvidence m f⟩

/-- Different statuses, or different contents at one place. -/
def Stance.Disagree (a b : Stance) : Prop :=
  a.status ≠ b.status ∨ ∃ x ∈ a.evidence, ∃ y ∈ b.evidence, x.place = y.place ∧ x.checked ≠ y.checked

/-- Two different findings disagree. -/
def InConflict (l : List Stance) : Prop :=
  ∃ (i j : ℕ) (a b : Stance), i ≠ j ∧ l[i]? = some a ∧ l[j]? = some b ∧ a.Disagree b

/-- The first reference to a place. -/
def firstRef (l : List Stance) (place : Str × Str) : Option EvidenceRef :=
  (l.flatMap Stance.evidence).find? fun e => e.place = place

/-- Nothing disagrees with the first status or with the first reference to a place in an earlier
finding; but the first finding that cites some place cites it with different contents, and a later
one cites it too. -/
def Hidden (l : List Stance) : Prop := (∀ a ∈ l, ∀ b ∈ l, a.status = b.status) ∧
    (∀ (before : List Stance) (a : Stance) (after : List Stance), l = before ++ a :: after →
      ∀ x ∈ a.evidence, ∀ r, firstRef before x.place = some r → r.checked = x.checked) ∧
    ∃ (before : List Stance) (a : Stance) (after : List Stance), l = before ++ a :: after ∧
      ∃ x ∈ a.evidence, ∃ y ∈ a.evidence, x.place = y.place ∧ x.checked ≠ y.checked ∧
      (∀ b ∈ before, ∀ z ∈ b.evidence, z.place ≠ x.place) ∧
      ∃ b ∈ after, ∃ z ∈ b.evidence, z.place = x.place

/-! ### What a group has detected -/

/-- The finding disagrees with the first status, or with the first reference to a place. -/
def Clashes (before : List Stance) (a : Stance) : Prop := (∃ b, before.head? = some b ∧ b.status ≠ a.status) ∨
    ∃ x ∈ a.evidence, ∃ r, firstRef before x.place = some r ∧ r.checked ≠ x.checked

/-- Some finding clashes with those before it. -/
def Detected (l : List Stance) : Prop := ∃ before a after, l = before ++ a :: after ∧ Clashes before a

theorem detected_append (l : List Stance) (a : Stance) : Detected (l ++ [a]) ↔ Detected l ∨ Clashes l a := by
  constructor
  · rintro ⟨before, b, after, hl, hclash⟩
    rcases eq_nil_or_concat after with rfl | ⟨after', c, rfl⟩
    · obtain ⟨rfl, hab⟩ := append_inj' hl rfl
      cases hab
      exact .inr hclash
    · rw [concat_eq_append, ← cons_append, ← append_assoc] at hl
      obtain ⟨rfl, -⟩ := append_inj' hl rfl
      exact .inl ⟨before, b, after', rfl, hclash⟩
  · rintro (⟨before, b, after, rfl, hclash⟩ | hclash)
    · exact ⟨before, b, after ++ [a], by simp, hclash⟩
    · exact ⟨l, a, [], rfl, hclash⟩

theorem firstRef_append (l l' : List Stance) (place : Str × Str) :
    firstRef (l ++ l') place = (firstRef l place).or (firstRef l' place) := by
  rw [firstRef, flatMap_append, find?_append]
  rfl

theorem firstRef_singleton (a : Stance) (place : Str × Str) :
    firstRef [a] place = a.evidence.find? fun e => e.place = place := by
  rw [firstRef, flatMap_singleton]

variable {place : Str × Str}

theorem firstRef_eq_some {l : List Stance} {r : EvidenceRef}
    (h : firstRef l place = some r) : ∃ a ∈ l, r ∈ a.evidence ∧ r.place = place := by
  obtain ⟨a, ha, hr⟩ := mem_flatMap.1 (mem_of_find?_eq_some h)
  exact ⟨a, ha, hr, by simpa using find?_some h⟩

theorem firstRef_eq_none_iff {l : List Stance} :
    firstRef l place = none ↔ ∀ a ∈ l, ∀ z ∈ a.evidence, z.place ≠ place := by
  simp [firstRef]

theorem first_foldl_addContent (refs : List EvidenceRef)
    (union : List ((Str × Str) × (Option Str × Option Bool))) (place : Str × Str) :
    first place (refs.foldl addContent union) = (first place union).or
      ((refs.find? fun e => e.place = place).map EvidenceRef.checked) := by
  induction refs generalizing union with
  | nil => simp
  | cons e refs ih =>
    rw [foldl_cons, ih, addContent]
    split_ifs with hknown
    · by_cases hplace : e.place = place
      · subst hplace
        obtain ⟨content, hcontent⟩ := Option.isSome_iff_exists.1 hknown
        rw [hcontent, Option.some_or, Option.some_or]
      · rw [find?_cons_of_neg (by simpa using hplace)]
    · rw [Bool.not_eq_true, Option.isSome_eq_false_iff, Option.isNone_iff_eq_none] at hknown
      have hlast : first place (union ++ [(e.place, e.checked)]) =
          (first place union).or (if e.place = place then some e.checked else none) := by
        rw [first, find?_append, Option.map_or, first]
        congr 1
        by_cases hplace : e.place = place <;> simp [hplace]
      rw [hlast]
      by_cases hplace : e.place = place
      · subst hplace
        rw [hknown, if_pos rfl, find?_cons_of_pos (by simp)]
        simp
      · rw [if_neg hplace, Option.or_none, find?_cons_of_neg (by simpa using hplace)]

/-- What a group knows about its findings. -/
structure Group.Spec (g : Group R) (statement : Str) (l : List (Occurrence R)) : Prop where
  normalized : g.normalized = statement
  occurrences : g.occurrences = l
  union : ∀ place, first place g.union = (firstRef (l.map Occurrence.stance) place).map EvidenceRef.checked
  statusState : g.statusState = l.head?.map Occurrence.status
  firstDetection : g.firstDetection.isSome = true ↔ Detected (l.map Occurrence.stance)

/-- A group compares a finding with what it knows. -/
theorem Group.Spec.disagrees_iff {g : Group R} {statement : Str} {l : List (Occurrence R)}
    (h : g.Spec statement l) (o : Occurrence R) :
    g.disagrees o = true ↔ Clashes (l.map Occurrence.stance) o.stance := by
  rw [Group.disagrees, Bool.or_eq_true, h.statusState, Clashes]
  refine or_congr ?_ ?_
  · rw [head?_map]
    cases l.head? with
    | none => simp
    | some first => simp [Occurrence.stance]
  · rw [any_eq_true]
    refine exists_congr fun e => and_congr_right fun _ => ?_
    rw [h.union]
    cases firstRef (l.map Occurrence.stance) e.place with
    | none | some r => simp

theorem Group.Spec.add {g : Group R} {statement : Str} {l : List (Occurrence R)}
    (h : g.Spec statement l) (o : Occurrence R × ℕ) : (g.add o).Spec statement (l ++ [o.1]) where
  normalized := h.normalized
  occurrences := by rw [Group.add, h.occurrences]
  union place := by
    rw [Group.add]
    dsimp only
    rw [first_foldl_addContent, h.union, map_append, firstRef_append, Option.map_or, map_singleton, firstRef_singleton]
    rfl
  statusState := by
    rw [Group.add]
    dsimp only
    rw [h.statusState]
    cases l with
    | nil | cons first rest => rfl
  firstDetection := by
    rw [map_append, map_singleton, detected_append, ← h.firstDetection, ← h.disagrees_iff, Group.add]
    dsimp only
    cases g.firstDetection with
    | some n => simp
    | none => by_cases hdisagrees : g.disagrees o.1 = true <;> simp [hdisagrees]

/-- **What a group has detected.** -/
theorem Group.spec (statement : Str) (items : List (Occurrence R × ℕ)) :
    (items.foldl Group.add (Group.new statement)).Spec statement (items.map Prod.fst) := by
  induction items using reverseRecOn with
  | nil =>
    refine ⟨rfl, rfl, fun place => rfl, rfl, ?_⟩
    have hnone : ¬ Detected [] := by
      rintro ⟨before, a, after, hl, -⟩
      simp at hl
    exact iff_of_false Bool.false_ne_true hnone
  | append_singleton items o ih =>
    rw [foldl_append, map_append]
    exact ih.add o

/-! ### Groups of a report -/

/-- The findings of the messages, with their labels. -/
def occurrences (messages : List (AgentCommMessage R)) (start : ℕ) : List (Occurrence R) :=
  (messages.zipIdx start).flatMap fun m => m.1.findings.map (occurrence m.1 (messageLabel m.1 m.2))

theorem occurrences_cons (m : AgentCommMessage R) (rest : List (AgentCommMessage R)) (start : ℕ) :
    occurrences (m :: rest) start =
      m.findings.map (occurrence m (messageLabel m start)) ++ occurrences rest (start + 1) := by
  rw [occurrences, zipIdx_cons, flatMap_cons]
  rfl

/-- The findings with a statement. -/
def occurrencesOf (messages : List (AgentCommMessage R)) (statement : Str) : List (Occurrence R) :=
  (occurrences messages 0).filter fun o => o.normalized = statement

theorem stances_eq (messages : List (AgentCommMessage R)) (statement : Str) :
    stances messages statement = (occurrencesOf messages statement).map Occurrence.stance := by
  suffices h : ∀ start, stances messages statement =
      ((occurrences messages start).filter fun o => o.normalized = statement).map Occurrence.stance from h 0
  induction messages with
  | nil => exact fun _ => rfl
  | cons m rest ih =>
    intro start
    rw [stances, flatMap_cons, ← stances, ih (start + 1), occurrences_cons, filter_append, map_append]
    congr 1
    rw [filter_map, map_map]
    rfl

section

variable [F32 R] [BelowHalf R]

/-- The groups after the findings of a message. -/
theorem groups_foldl_addFinding (key : EvidenceKeyMode) (m : AgentCommMessage R) (label : Str)
    (findings : List (Finding R)) (s : ConsolidationState R) :
    let s' := findings.foldl (addFinding ⟨true, key⟩ m label) s
    s'.groups = ((findings.map (occurrence m label)).zipIdx s.findingsIn).foldl placeOccurrence s.groups ∧
      s'.findingsIn = s.findingsIn + findings.length := by
  induction findings generalizing s with
  | nil => exact ⟨rfl, rfl⟩
  | cons f rest ih =>
    obtain ⟨hgroups, hcount⟩ := ih (addFinding ⟨true, key⟩ m label s f)
    have hin : (addFinding ⟨true, key⟩ m label s f).findingsIn = s.findingsIn + 1 := rfl
    dsimp only
    rw [foldl_cons, hgroups, hcount, hin, map_cons, zipIdx_cons, foldl_cons, length_cons]
    exact ⟨rfl, by omega⟩

theorem groups_foldl_addMessage {key : EvidenceKeyMode} (messages : List (AgentCommMessage R))
    (start : ℕ) (s : ConsolidationState R) :
    ((messages.zipIdx start).foldl (addMessage ⟨true, key⟩) s).groups =
      ((occurrences messages start).zipIdx s.findingsIn).foldl placeOccurrence s.groups := by
  induction messages generalizing start s with
  | nil => rfl
  | cons m rest ih =>
    obtain ⟨hgroups, hcount⟩ := groups_foldl_addFinding key m (messageLabel m start) m.findings
      (addReferences ⟨true, key⟩ s m)
    have hin : (addReferences ⟨true, key⟩ s m).findingsIn = s.findingsIn := rfl
    have hsame : (addReferences ⟨true, key⟩ s m).groups = s.groups := rfl
    rw [zipIdx_cons, foldl_cons, ih, occurrences_cons, zipIdx_append, foldl_append]
    dsimp only [addMessage]
    rw [hgroups, hcount, hin, hsame, length_map]

section

omit [F32 R] [BelowHalf R]

theorem map_fst_filter_zipIdx (l : List (Occurrence R)) (start : ℕ) (k : Str) :
    ((l.zipIdx start).filter fun o => decide (o.1.normalized = k)).map Prod.fst =
      l.filter fun o => decide (o.normalized = k) := by
  induction l generalizing start with
  | nil => rfl
  | cons o l ih =>
    rw [zipIdx_cons, filter_cons, filter_cons]
    split_ifs
    · rw [map_cons, ih]
    · exact ih _

theorem normalized_of_mem_occurrencesOf {messages : List (AgentCommMessage R)} {k : Str} {o : Occurrence R}
    (h : o ∈ occurrencesOf messages k) : o.normalized = k := by
  simpa using (mem_filter.1 h).2

end

/-- There is one group for each statement, with what its findings say. -/
theorem groups_consolidate (key : EvidenceKeyMode) (messages : List (AgentCommMessage R)) :
    ∃ (statements : List Str) (group : Str → Group R),
      (messages.zipIdx.foldl (addMessage ⟨true, key⟩) .start).groups = statements.map group ∧
      statements.Nodup ∧ (∀ k, k ∈ statements ↔ occurrencesOf messages k ≠ []) ∧
      ∀ k, (group k).Spec k (occurrencesOf messages k) := by
  obtain ⟨statements, hnodup, hstatements, hcollect⟩ := Grouping.collect_eq
    (fun o : Occurrence R × ℕ => o.1.normalized) Group.normalized Group.new Group.add (fun _ => rfl)
    (fun _ _ => rfl)
    (occurrences messages 0).zipIdx
  refine ⟨statements, Grouping.made (fun o : Occurrence R × ℕ => o.1.normalized) Group.new Group.add
    (occurrences messages 0).zipIdx, (groups_foldl_addMessage messages 0 .start).trans hcollect, hnodup,
    fun k => ?_, fun k => ?_⟩
  · rw [hstatements, occurrencesOf, Ne, filter_eq_nil_iff]
    constructor
    · rintro ⟨o, ho, hk⟩ hnone
      exact hnone o.1 (fst_mem_of_mem_zipIdx ho) (by simpa using hk)
    · intro hsome
      by_contra hnone
      refine hsome fun o ho hk => hnone ?_
      obtain ⟨i, hi⟩ := mem_iff_getElem?.1 ho
      exact ⟨(o, i), mk_mem_zipIdx_iff_getElem?.2 hi, by simpa using hk⟩
  · rw [occurrencesOf, ← map_fst_filter_zipIdx _ 0]
    exact Group.spec k _

omit [F32 R] [BelowHalf R] in
/-- The finding that represents a group has its statement. -/
theorem Group.Spec.merged {g : Group R} {messages : List (AgentCommMessage R)} {k : Str}
    (h : g.Spec k (occurrencesOf messages k)) {f : ConsolidatedFinding R} (hf : g.merged = some f) :
    normalizedStatement f.finding.statement = k := by
  rw [Group.merged, h.occurrences] at hf
  obtain ⟨o, ho, rfl⟩ := Option.map_eq_some_iff.1 hf
  exact normalized_of_mem_occurrencesOf (mem_of_mem_head? ho)

/-- The statements that are reported as conflicts. -/
def conflictTopics (key : EvidenceKeyMode) (messages : List (AgentCommMessage R)) : List Str :=
  (consolidate messages ⟨true, key⟩).conflicts.map Conflict.topic

/-- The statements of merged findings. -/
def mergedStatements (key : EvidenceKeyMode) (messages : List (AgentCommMessage R)) : List Str :=
  (consolidate messages ⟨true, key⟩).findings.map fun f => normalizedStatement f.finding.statement

/-- A statement is reported iff a finding clashes with those before it. -/
theorem mem_conflictTopics_iff (key : EvidenceKeyMode) (messages : List (AgentCommMessage R)) (statement : Str) :
    statement ∈ conflictTopics key messages ↔ Detected (stances messages statement) := by
  obtain ⟨statements, group, hgroups, -, hstatements, hspec⟩ := groups_consolidate key messages
  have hconflicts : (consolidate messages ⟨true, key⟩).conflicts = (detected (statements.map group)).map Prod.snd := by
    rw [consolidate, hgroups]
    rfl
  rw [conflictTopics, hconflicts, detected, mem_map, stances_eq, ← (hspec statement).firstDetection]
  constructor
  · rintro ⟨conflict, hconflict, rfl⟩
    obtain ⟨p, hp, rfl⟩ := mem_map.1 hconflict
    obtain ⟨g, hg, hdetection⟩ := mem_filterMap.1 ((mem_insertionSort _).1 hp)
    obtain ⟨n, hn, rfl⟩ := Option.map_eq_some_iff.1 hdetection
    obtain ⟨k, -, rfl⟩ := mem_map.1 hg
    have htopic : (group k).conflict.topic = k := (hspec k).normalized
    dsimp only
    rw [htopic, hn]
    rfl
  · intro hdetected
    have hmem : statement ∈ statements := by
      rw [hstatements]
      intro hnil
      rw [(hspec statement).firstDetection, hnil] at hdetected
      obtain ⟨before, a, after, hl, -⟩ := hdetected
      simp at hl
    obtain ⟨n, hn⟩ := Option.isSome_iff_exists.1 hdetected
    refine ⟨(group statement).conflict, mem_map.2 ⟨(n, _), (mem_insertionSort _).2 ?_, rfl⟩,
      (hspec statement).normalized⟩
    refine mem_filterMap.2 ⟨group statement, mem_map_of_mem hmem, ?_⟩
    rw [hn]
    rfl

theorem mem_mergedStatements_iff (key : EvidenceKeyMode) (messages : List (AgentCommMessage R))
    (statement : Str) : statement ∈ mergedStatements key messages ↔
      stances messages statement ≠ [] ∧ ¬ Detected (stances messages statement) := by
  obtain ⟨statements, group, hgroups, -, hstatements, hspec⟩ := groups_consolidate key messages
  have hfindings : (consolidate messages ⟨true, key⟩).findings =
      ((statements.map group).filter fun g => g.firstDetection = none).filterMap Group.merged := by
    rw [consolidate, hgroups]
    rfl
  have hdetection : ∀ k, (group k).firstDetection = none ↔ ¬ Detected (stances messages k) := by
    intro k
    rw [stances_eq, ← (hspec k).firstDetection, Option.not_isSome_iff_eq_none]
  have hknown : ∀ k, k ∈ statements ↔ stances messages k ≠ [] := by
    intro k
    rw [hstatements, stances_eq, Ne, Ne, map_eq_nil_iff]
  rw [mergedStatements, hfindings, mem_map, ← hknown]
  constructor
  · rintro ⟨f, hf, rfl⟩
    obtain ⟨g, hg, hgf⟩ := mem_filterMap.1 hf
    obtain ⟨hg, hnone⟩ := mem_filter.1 hg
    obtain ⟨k, hk, rfl⟩ := mem_map.1 hg
    rw [(hspec k).merged hgf]
    exact ⟨hk, (hdetection k).1 (by simpa using hnone)⟩
  · rintro ⟨hk, hnot⟩
    obtain ⟨o, rest, hl⟩ := exists_cons_of_ne_nil ((hstatements statement).1 hk)
    have hsome : ∃ f, (group statement).merged = some f := by
      rw [Group.merged, (hspec statement).occurrences, hl]
      exact ⟨_, rfl⟩
    obtain ⟨f, hf⟩ := hsome
    refine ⟨f, mem_filterMap.2 ⟨group statement, mem_filter.2 ⟨mem_map_of_mem hk, ?_⟩, hf⟩, (hspec statement).merged hf⟩
    simpa using (hdetection statement).2 hnot

end

/-! ### Hidden disagreement -/

theorem Stance.Disagree.symm {a b : Stance} (h : a.Disagree b) : b.Disagree a := by
  rcases h with hstatus | ⟨x, hx, y, hy, hplace, hcontent⟩
  · exact .inl (Ne.symm hstatus)
  · exact .inr ⟨y, hy, x, hx, hplace.symm, Ne.symm hcontent⟩

variable {l : List Stance}

/-- The findings are in conflict iff one disagrees with an earlier one. -/
theorem inConflict_iff : InConflict l ↔ ∃ before a after, l = before ++ a :: after ∧ ∃ b ∈ before, b.Disagree a := by
  constructor
  · rintro ⟨i, j, a, b, hne, ha, hb, hab⟩
    -- the later one of the two
    have hlater : ∀ {i j : ℕ} {a b : Stance}, i < j → l[i]? = some a → l[j]? = some b → a.Disagree b →
        ∃ before c after, l = before ++ c :: after ∧ ∃ d ∈ before, d.Disagree c := by
      intro i j a b hij ha hb hab
      obtain ⟨hj, rfl⟩ := List.getElem?_eq_some_iff.1 hb
      refine ⟨l.take j, l[j], l.drop (j + 1), ?_, a, ?_, hab⟩
      · rw [← drop_eq_getElem_cons hj, take_append_drop]
      · exact mem_of_getElem? (by rw [getElem?_take_of_lt hij, ha])
    rcases Nat.lt_or_gt_of_ne hne with hlt | hlt
    · exact hlater hlt ha hb hab
    · exact hlater hlt hb ha hab.symm
  · rintro ⟨before, a, after, rfl, b, hb, hba⟩
    obtain ⟨i, hi⟩ := mem_iff_getElem?.1 hb
    have hlt := (List.getElem?_eq_some_iff.1 hi).1
    refine ⟨i, before.length, b, a, Nat.ne_of_lt hlt, ?_, ?_, hba⟩
    · rw [List.getElem?_append_left hlt, hi]
    · simp

theorem inConflict_perm {l' : List Stance} (h : l.Perm l') : InConflict l ↔ InConflict l' := by
  have hpairwise : ∀ l : List Stance, InConflict l ↔ ¬ l.Pairwise fun a b => ¬ a.Disagree b := by
    intro l
    rw [pairwise_iff_getElem]
    constructor
    · rintro ⟨i, j, a, b, hne, ha, hb, hab⟩ hall
      obtain ⟨hi, rfl⟩ := List.getElem?_eq_some_iff.1 ha
      obtain ⟨hj, rfl⟩ := List.getElem?_eq_some_iff.1 hb
      rcases Nat.lt_or_gt_of_ne hne with hlt | hlt
      · exact hall i j hi hj hlt hab
      · exact hall j i hj hi hlt hab.symm
    · intro hnot
      push Not at hnot
      obtain ⟨i, j, hi, hj, hlt, hab⟩ := hnot
      exact ⟨i, j, l[i], l[j], Nat.ne_of_lt hlt, getElem?_eq_getElem hi, getElem?_eq_getElem hj, hab⟩
  rw [hpairwise, hpairwise, h.pairwise_iff fun hab hba => hab hba.symm]

/-- What is detected is a conflict. -/
theorem inConflict_of_detected (h : Detected l) : InConflict l := by
  obtain ⟨before, a, after, rfl, ⟨b, hb, hstatus⟩ | ⟨x, hx, r, hr, hcontent⟩⟩ := h
  · exact inConflict_iff.2 ⟨before, a, after, rfl, b, mem_of_mem_head? hb, .inl hstatus⟩
  · obtain ⟨b, hb, hrb, hplace⟩ := firstRef_eq_some hr
    exact inConflict_iff.2 ⟨before, a, after, rfl, b, hb, .inr ⟨r, hrb, x, hx, hplace, hcontent⟩⟩

/-- A reference to a place that is cited later is the first one for good. -/
theorem firstRef_append_of_some {before after : List Stance} {r : EvidenceRef}
    (h : firstRef before place = some r) : firstRef (before ++ after) place = some r := by
  rw [firstRef_append, h, Option.some_or]

theorem inConflict_of_hidden (h : Hidden l) : InConflict l := by
  obtain ⟨-, -, before, a, after, rfl, x, hx, y, hy, hplace, hcontent, -, b, hb, z, hz, hzplace⟩ := h
  obtain ⟨mid, last, rfl⟩ := append_of_mem hb
  refine inConflict_iff.2 ⟨before ++ a :: mid, b, last, by simp, a, by simp, ?_⟩
  by_cases hxz : x.checked = z.checked
  · exact .inr ⟨y, hy, z, hz, by rw [← hplace, hzplace], fun hyz => hcontent (hxz.trans hyz.symm)⟩
  · exact .inr ⟨x, hx, z, hz, hzplace.symm, hxz⟩

theorem not_detected_of_hidden (h : Hidden l) : ¬ Detected l := by
  obtain ⟨hstatus, hfirst, -⟩ := h
  rintro ⟨before, a, after, rfl, ⟨b, hb, hne⟩ | ⟨x, hx, r, hr, hne⟩⟩
  · exact hne (hstatus b (mem_append_left _ (mem_of_mem_head? hb)) a (by simp))
  · exact hne (hfirst before a after rfl x hx r hr)

/-- **A conflict that is not detected is hidden.** -/
theorem hidden_of_not_detected (h : InConflict l) (hnot : ¬ Detected l) : Hidden l := by
  have hfirst : ∀ before a after, l = before ++ a :: after → ∀ x ∈ a.evidence, ∀ r,
      firstRef before x.place = some r → r.checked = x.checked := by
    intro before a after hl x hx r hr
    by_contra hne
    exact hnot ⟨before, a, after, hl, .inr ⟨x, hx, r, hr, hne⟩⟩
  have hstatus : ∀ a ∈ l, ∀ b ∈ l, a.status = b.status := by
    cases l with
    | nil => simp
    | cons c rest =>
      have hhead : ∀ a ∈ c :: rest, c.status = a.status := by
        refine forall_mem_cons.2 ⟨rfl, fun a ha => by_contra fun hne => hnot ?_⟩
        obtain ⟨before, after, rfl⟩ := append_of_mem ha
        exact ⟨c :: before, a, after, rfl, .inl ⟨c, rfl, hne⟩⟩
      exact fun a ha b hb => (hhead a ha).symm.trans (hhead b hb)
  refine ⟨hstatus, hfirst, ?_⟩
  obtain ⟨before, c, after, hl, b, hb, hdisagree⟩ := inConflict_iff.1 h
  rcases hdisagree with hne | ⟨x, hx, y, hy, hplace, hcontent⟩
  · exact absurd (hstatus b (hl ▸ mem_append_left _ hb) c (hl ▸ by simp)) hne
  · -- the first finding that cites the place
    obtain ⟨a, ha⟩ : ∃ a, before.find? (fun s => s.evidence.any fun e => e.place = x.place) = some a := by
      rw [← Option.isSome_iff_exists, find?_isSome]
      exact ⟨b, hb, any_eq_true.2 ⟨x, hx, by simp⟩⟩
    obtain ⟨hcites, first, mid, hbefore, hnone⟩ := find?_eq_some_iff_append.1 ha
    have hnone' : ∀ s ∈ first, ∀ z ∈ s.evidence, z.place ≠ x.place := by
      intro s hs z hz hsame
      have hfalse := hnone s hs
      simp only [Bool.not_eq_true', any_eq_false, decide_eq_true_eq] at hfalse
      exact hfalse z hz hsame
    obtain ⟨r, hr⟩ : ∃ r, firstRef [a] x.place = some r := by
      rw [firstRef_singleton, ← Option.isSome_iff_exists, find?_isSome]
      exact any_eq_true.1 hcites
    obtain ⟨-, -, hra, hrplace⟩ := firstRef_eq_some hr
    have hra' : r ∈ a.evidence := by
      rw [firstRef_singleton] at hr
      exact mem_of_find?_eq_some hr
    have hfirstRef : firstRef (first ++ [a]) x.place = some r := by
      rw [firstRef_append, firstRef_eq_none_iff.2 hnone', Option.none_or, hr]
    have hl' : l = first ++ a :: (mid ++ c :: after) := by
      rw [hl, hbefore]
      simp
    -- every later reference to the place agrees with its first one
    have hagree : ∀ s ∈ mid ++ c :: after, ∀ z ∈ s.evidence, z.place = x.place → r.checked = z.checked := by
      intro s hs z hz hzplace
      obtain ⟨mid', last, hsplit⟩ := append_of_mem hs
      refine hfirst (first ++ [a] ++ mid') s last (by rw [hl', hsplit]; simp) z hz r ?_
      rw [hzplace]
      exact firstRef_append_of_some hfirstRef
    have hyr : r.checked = y.checked := hagree c (by simp) y hy hplace.symm
    -- so the first finding itself cites the place with two contents
    have hxa : x ∈ a.evidence := by
      rw [hbefore, mem_append, mem_cons] at hb
      rcases hb with hb | rfl | hb
      · exact absurd rfl (hnone' b hb x hx)
      · exact hx
      · have hxr := hagree b (mem_append_left _ hb) x hx rfl
        exact absurd (hxr.symm.trans hyr) hcontent
    exact ⟨first, a, mid ++ c :: after, hl', x, hxa, r, hra', hrplace.symm,
      fun hsame => hcontent (hsame.trans hyr), hnone', c, by simp, y, hy, hplace.symm⟩

theorem stances_perm {messages messages' : List (AgentCommMessage R)} (h : messages.Perm messages')
    (statement : Str) : (stances messages statement).Perm (stances messages' statement) :=
  h.flatMap_right _

section

variable [F32 R] [BelowHalf R]

/-- **A statement is reported as a conflict iff two findings with it disagree**: for exactly the
messages without a hidden disagreement.  If neither of two orders of the messages has one, both give
the same topics and the same merged statements. -/
theorem conflicts_complete_iff (key : EvidenceKeyMode) (messages : List (AgentCommMessage R)) :
    ((∀ statement, statement ∈ conflictTopics key messages ↔ InConflict (stances messages statement)) ↔
      ∀ statement, ¬ Hidden (stances messages statement)) ∧
    ∀ messages', messages.Perm messages' → (∀ statement, ¬ Hidden (stances messages statement)) →
      (∀ statement, ¬ Hidden (stances messages' statement)) → ∀ statement,
        (statement ∈ conflictTopics key messages ↔ statement ∈ conflictTopics key messages') ∧
        (statement ∈ mergedStatements key messages ↔ statement ∈ mergedStatements key messages') := by
  have hcomplete : ∀ {messages : List (AgentCommMessage R)},
      (∀ statement, ¬ Hidden (stances messages statement)) → ∀ statement,
        (Detected (stances messages statement) ↔ InConflict (stances messages statement)) := by
    intro messages hvisible statement
    refine ⟨inConflict_of_detected, fun hconflict => ?_⟩
    by_contra hnot
    exact hvisible statement (hidden_of_not_detected hconflict hnot)
  refine ⟨⟨fun hall statement hhidden => ?_, fun hvisible statement => ?_⟩,
    fun messages' hperm hvisible hvisible' statement => ?_⟩
  · have hreported := (hall statement).2 (inConflict_of_hidden hhidden)
    exact not_detected_of_hidden hhidden ((mem_conflictTopics_iff key messages statement).1 hreported)
  · rw [mem_conflictTopics_iff, hcomplete hvisible]
  · have hsame : Detected (stances messages statement) ↔ Detected (stances messages' statement) := by
      rw [hcomplete hvisible, hcomplete hvisible', inConflict_perm (stances_perm hperm statement)]
    have hnil : stances messages statement = [] ↔ stances messages' statement = [] := by
      have hstances := stances_perm hperm statement
      exact ⟨fun h => (h ▸ hstances).nil_eq.symm, fun h => (h ▸ hstances).eq_nil⟩
    refine ⟨?_, ?_⟩
    · rw [mem_conflictTopics_iff, mem_conflictTopics_iff, hsame]
    · rw [mem_mergedStatements_iff, mem_mergedStatements_iff, hsame, Ne, Ne, hnil]

end

/-! ### A locator that is cited twice -/

section

open scoped Sample

scoped instance : BelowHalf Sample.Tenths where
  belowHalf c := c.val < 5

/-- A finding about a file, with references to it. -/
def fileMessage (evidence : List EvidenceRef) : AgentCommMessage Sample.Tenths :=
  { AgentCommMessage.new (R := Sample.Tenths) "FINDING" "t1" "done" with
    findings := [⟨"F1", "the lock is held", none, evidence.map EvidenceRef.id⟩]
    evidence := evidence }

def fileRef (id digest : Str) : EvidenceRef := ⟨id, "src", "src/lib.rs", none, some digest, none, none⟩

/-- A finding that cites a file with two digests, and one that cites it with the first of them. -/
def citedTwice : List (AgentCommMessage Sample.Tenths) :=
  [fileMessage [fileRef "E1" "d1", fileRef "E2" "d2"], fileMessage [fileRef "E1" "d1"]]

/-- The findings disagree, and no conflict is reported; in the other order it is. -/
theorem locator_cited_twice : InConflict (stances citedTwice "the lock is held") ∧
      conflictTopics .locatorAndDigest citedTwice = [] ∧
      mergedStatements .locatorAndDigest citedTwice = [("the lock is held" : Str)] ∧
      conflictTopics .locatorAndDigest citedTwice.reverse = [("the lock is held" : Str)] := by
  refine ⟨⟨0, 1, _, _, by decide, rfl, rfl, .inr ⟨fileRef "E2" "d2", ?_, fileRef "E1" "d1", ?_, rfl, ?_⟩⟩,
    by decide, by decide, by decide⟩
  · decide
  · decide
  · decide

/-- Two findings that cite the file once, with different digests. -/
theorem conflicts_complete_iff_cited_once : ("the lock is held" : Str) ∈ conflictTopics .locatorAndDigest
      [fileMessage [fileRef "E1" "d1"], fileMessage [fileRef "E1" "d2"]] := by
  refine ((conflicts_complete_iff .locatorAndDigest _).1.2 (fun statement hhidden => ?_) _).2 ?_
  · -- each finding cites one reference
    obtain ⟨-, -, before, a, after, hl, x, hx, y, hy, -, hcontent, -⟩ := hhidden
    have ha : a ∈ stances [fileMessage [fileRef "E1" "d1"], fileMessage [fileRef "E1" "d2"]] statement := by
      rw [hl]
      simp
    obtain ⟨m, hm, hstance⟩ := mem_flatMap.1 ha
    obtain ⟨f, hf, rfl⟩ := mem_map.1 hstance
    have hone : ∀ digest, ∀ f ∈ (fileMessage [fileRef "E1" digest]).findings,
        resolveFindingEvidence (fileMessage [fileRef "E1" digest]) f = [fileRef "E1" digest] := by
      intro digest f hf
      rw [mem_singleton.1 hf]
      rfl
    have hsingle : ∃ e, resolveFindingEvidence m f = [e] := by
      rcases mem_cons.1 hm with rfl | hm
      · exact ⟨_, hone _ f (mem_filter.1 hf).1⟩
      · rw [mem_singleton.1 hm] at hf ⊢
        exact ⟨_, hone _ f (mem_filter.1 hf).1⟩
    obtain ⟨e, he⟩ := hsingle
    dsimp only at hx hy
    rw [he, mem_singleton] at hx hy
    exact hcontent (by rw [hx, hy])
  · refine ⟨0, 1, _, _, by decide, rfl, rfl, .inr ⟨fileRef "E1" "d1", ?_, fileRef "E1" "d2", ?_, rfl, ?_⟩⟩
    · decide
    · decide
    · decide

end

end Occ
