/-
**A budget for the typed state.**

A compaction keeps what must not be lost in typed records.  For a prompt the records are ranked, and
those that fit a budget of tokens are included, each under the title of its section; the others are
reported.  This module embeds the allocation and the rendering of `core/compaction/typed_state.rs`,
with the vocabulary they use.

The allocator charges for a title when its section is first opened.  The renderer prints a title
whenever the section changes from one item to the next.  The ranking puts kinds of one tier in the
order of trust and age, so the sections of a tier can alternate, and titles are then printed that
were not paid for.  Nor are the notes on how a correction was paired, which the renderer adds to
lines.
-/

import OptimusAgent.Text

namespace TypedState

open Str List

/-! ### Vocabulary -/

inductive TypedInformationKind where
  | userConstraint
  | userCorrection
  | safetyOrPermissionBoundary
  | acceptanceCriterion
  | verifiedDecision
  | decisionRationale
  | currentTask
  | pendingAction
  | verifiedToolResult
  | sourceEvidence
  | repositoryState
  | subagentState
  | historicalFact
  | lowPriorityEpisode
  deriving DecidableEq

inductive RecordStatus where
  | current
  | superseded
  deriving DecidableEq

/-- How a correction found the record that it retires. -/
inductive SupersessionPath where
  | token
  | provenance
  deriving DecidableEq

inductive Verification where
  | verified
  | corroborated
  | unverified
  deriving DecidableEq

def SupersessionPath.pairingNote : SupersessionPath → Str
  | .token => "token-overlap pairing"
  | .provenance => "provenance pairing"

def Verification.rank : Verification → ℕ
  | .verified => 0
  | .corroborated => 1
  | .unverified => 2

def verificationTag : Verification → Str
  | .verified => "verified"
  | .corroborated => "corroborated"
  | .unverified => "unverified"

/-- Lower tiers are kept first. -/
def TypedInformationKind.tier : TypedInformationKind → ℕ
  | userConstraint | safetyOrPermissionBoundary | acceptanceCriterion => 0
  | userCorrection => 1
  | currentTask | pendingAction => 2
  | verifiedDecision | decisionRationale => 3
  | verifiedToolResult | sourceEvidence => 4
  | repositoryState | subagentState => 5
  | historicalFact => 6
  | lowPriorityEpisode => 7

structure TypedStateRecord where
  id : Str
  kind : TypedInformationKind
  /-- The entry of the first occurrence. -/
  sourceEntryId : Str
  /-- The position of the first occurrence. -/
  ordinal : ℕ
  text : Str
  status : RecordStatus
  verification : Verification
  /-- The record that a correction has retired, that a rationale explains, or that has retired this
  one. -/
  link : Option Str
  retirePath : Option SupersessionPath
  deriving DecidableEq

structure TypedStateLedger where
  records : List TypedStateRecord
  droppedByCap : ℕ

def maxDurableRecords : ℕ := 512

/-- A quarter of the characters, rounded up. -/
def estimateTokens (text : Str) : ℕ := (text.length + 3) / 4

/-! ### Lines and sections -/

def isMandatory : TypedInformationKind → Bool
  | .userConstraint | .safetyOrPermissionBoundary | .acceptanceCriterion | .currentTask => true
  | _ => false

def sectionTitle (kind : TypedInformationKind) (status : RecordStatus) : Str :=
  if status ≠ .current then "SUPERSEDED (HISTORY, NOT CURRENT)"
  else
    match kind with
    | .userConstraint => "ACTIVE CONSTRAINTS"
    | .userCorrection => "USER CORRECTIONS"
    | .safetyOrPermissionBoundary => "SAFETY BOUNDARIES"
    | .acceptanceCriterion => "ACCEPTANCE CRITERIA"
    | .verifiedDecision => "DECISIONS (CURRENT)"
    | .decisionRationale => "DECISION RATIONALE"
    | .currentTask => "CURRENT TASK"
    | .pendingAction => "PENDING ACTIONS"
    | .verifiedToolResult => "VERIFIED EVIDENCE"
    | .sourceEvidence => "SOURCE EVIDENCE"
    | .repositoryState => "REPOSITORY STATE"
    | .subagentState => "SUBAGENT STATE"
    | .historicalFact => "HISTORICAL FACTS"
    | .lowPriorityEpisode => "LOW-PRIORITY EPISODES"

def recordLine (record : TypedStateRecord) : Str :=
  let head : Str := "- [" ++ record.id ++ "] "
  let entryRef : Str := "[@" ++ record.sourceEntryId ++ "]"
  let supersededBy (retiring : Str) : Str := head ++ record.text ++ " (superseded by [" ++ retiring ++ "])"
  let plain : Str := head ++ entryRef ++ " " ++ record.text
  match record.kind, record.status, record.link with
  | .verifiedDecision, _, _ =>
    head ++ entryRef ++ " " ++ verificationTag record.verification ++ ": " ++ record.text
  | .decisionRationale, _, some decision => head ++ entryRef ++ " (for [" ++ decision ++ "]): " ++ record.text
  | .decisionRationale, _, none => head ++ entryRef ++ ": " ++ record.text
  | .userCorrection, .current, some target | .currentTask, .current, some target =>
    plain ++ " (supersedes [" ++ target ++ "])"
  | .userCorrection, _, none | .currentTask, _, none => plain
  | _, .superseded, some retiring => supersededBy retiring
  | _, .superseded, none => head ++ record.text
  | _, .current, _ => plain

/-! ### The allocation -/

structure OverflowEntry where
  id : Str
  kind : TypedInformationKind
  tokens : ℕ
  sourceEntryId : Str
  ordinal : ℕ
  text : Str

structure IncludedItem where
  id : Str
  kind : TypedInformationKind
  status : RecordStatus
  tokens : ℕ
  sectionName : Str
  line : Str
  retirePath : Option SupersessionPath

structure Allocation where
  included : List IncludedItem
  tokensUsed : ℕ
  budgetTokens : ℕ
  dropped : List OverflowEntry
  /-- Mandatory records that did not fit, if there are some. -/
  unsafeCompaction : Option (List OverflowEntry)
  droppedByCap : ℕ

def rankTier (record : TypedStateRecord) : ℕ := if record.status = .current then record.kind.tier else 8

/-- The order of the ranking: by tier, then stronger verification first, then newer first. -/
def ranksBefore (a b : TypedStateRecord) : Bool :=
  rankTier a < rankTier b || (rankTier a = rankTier b && (a.verification.rank < b.verification.rank ||
      (a.verification.rank = b.verification.rank && b.ordinal ≤ a.ordinal)))

def ranked (records : List TypedStateRecord) : List TypedStateRecord := records.mergeSort ranksBefore

def titleTokens (title : Str) : ℕ := estimateTokens title + estimateTokens ['\n']

def recordSection (record : TypedStateRecord) : Str := sectionTitle record.kind record.status

def includedItem (record : TypedStateRecord) : IncludedItem :=
  ⟨record.id, record.kind, record.status, estimateTokens (recordLine record), recordSection record,
    recordLine record, record.retirePath⟩

def overflowEntry (record : TypedStateRecord) (tokens : ℕ) : OverflowEntry :=
  ⟨record.id, record.kind, tokens, record.sourceEntryId, record.ordinal, record.text⟩

def mandatory (record : TypedStateRecord) : Bool := record.status = .current && isMandatory record.kind

/-- The allocation of one more record, with the sections that are open. -/
def allocateRecord (s : Allocation × List Str) (record : TypedStateRecord) : Allocation × List Str :=
  let (a, opened) := s
  let line := estimateTokens (recordLine record)
  let title := if recordSection record ∈ opened then 0 else titleTokens (recordSection record)
  if a.tokensUsed + (line + title) ≤ a.budgetTokens then
    ({ a with tokensUsed := a.tokensUsed + title + line, included := a.included ++ [includedItem record] },
      if recordSection record ∈ opened then opened else opened ++ [recordSection record])
  else
    let entry := overflowEntry record (line + title)
    (if mandatory record then
      { a with unsafeCompaction := some (a.unsafeCompaction.getD [] ++ [entry]) }
    else { a with dropped := a.dropped ++ [entry] }, opened)

/-- The mandatory records that did not fit are listed with the others. -/
def reportMandatory (a : Allocation) : Allocation := { a with dropped := a.dropped ++ a.unsafeCompaction.getD [] }

def Allocation.start (budget droppedByCap : ℕ) : Allocation := ⟨[], 0, budget, [], none, droppedByCap⟩

def allocateRanked (records : List TypedStateRecord) (budget droppedByCap : ℕ) : Allocation :=
  reportMandatory (records.foldl allocateRecord (.start budget droppedByCap, [])).1

def allocate (state : TypedStateLedger) (budget : ℕ) : Allocation :=
  allocateRanked (ranked state.records) budget state.droppedByCap

/-! ### The rendering -/

inductive Printed where
  | title (text : Str)
  | line (text : Str)

def itemText (item : IncludedItem) : Str :=
  match item.retirePath with
  | none => item.line
  | some path => item.line ++ " (" ++ path.pairingNote ++ ")"

/-- The titles and lines of items, after a line of a section. -/
def printed (currentSection : Str) : List IncludedItem → List Printed
  | [] => []
  | item :: rest =>
    (if item.sectionName ≠ currentSection then [.title item.sectionName] else []) ++
      .line (itemText item) :: printed item.sectionName rest

def Printed.render : Printed → Str
  | .title text => '\n' :: text ++ ['\n']
  | .line text => text ++ ['\n']

def hotStateHeader : Str := "## Typed Protected State (deterministic, provenance-tagged)"

def hotStateIntro : Str :=
  "Derived from the transcript by fixed provenance rules; no item is inferred or invented. Copy every " ++
    "item below into the matching summary section without paraphrasing identifiers, paths, numbers or " ++
    "error codes. Items under SUPERSEDED are history, not current requirements."

def renderAllocation (a : Allocation) : Str :=
  if a.included = [] then []
  else
    hotStateHeader ++ '\n' :: hotStateIntro ++ '\n' ::
      ((if a.droppedByCap > 0 then
        "- " ++ dec a.droppedByCap ++ " record(s) omitted by the durable ledger cap (" ++
          dec maxDurableRecords ++ "); lowest-priority records were dropped first\n"
      else []) ++ (printed [] a.included).flatMap Printed.render)

def titles (items : List Printed) : List Str := items.filterMap fun | .title text => some text | .line _ => none

def lines (items : List Printed) : List Str := items.filterMap fun | .title _ => none | .line text => some text

/-! ### Sound allocations -/

/-- What is printed was paid for: each title is printed once, the lines are those of the items, and
the tokens are those of the titles and lines. -/
def Paid (a : Allocation) : Prop :=
  (titles (printed [] a.included)).Nodup ∧ lines (printed [] a.included) = a.included.map IncludedItem.line ∧
    a.tokensUsed = ((titles (printed [] a.included)).map titleTokens).sum +
      ((lines (printed [] a.included)).map estimateTokens).sum

/-- **What an allocation is for.** -/
structure SoundAllocation (state : TypedStateLedger) (budget : ℕ) : Prop where
  complete : ((allocate state budget).included.map IncludedItem.id ++
    (allocate state budget).dropped.map OverflowEntry.id).Perm (state.records.map TypedStateRecord.id)
  within : (allocate state budget).tokensUsed ≤ budget
  isUnsafe_iff : (allocate state budget).unsafeCompaction.isSome = true ↔
    ∃ r ∈ state.records, mandatory r = true ∧ r.id ∉ (allocate state budget).included.map IncludedItem.id
  paid : Paid (allocate state budget)

/-! ### Titles -/

/-- The first members of the runs of equal members, after a member. -/
def runHeads (current : Str) : List Str → List Str
  | [] => []
  | s :: rest => (if s ≠ current then [s] else []) ++ runHeads s rest

/-- No section is left and entered again. -/
def Unbroken (sections : List Str) : Prop := ∀ s t, [s, t, s].Sublist sections → s = t

theorem titles_printed (items : List IncludedItem) (current : Str) :
    titles (printed current items) = runHeads current (items.map IncludedItem.sectionName) := by
  induction items generalizing current with
  | nil => rfl
  | cons item rest ih =>
    rw [printed, titles, filterMap_append, map_cons, runHeads, ← ih item.sectionName]
    split_ifs <;> rfl

theorem lines_printed (items : List IncludedItem) (current : Str) :
    lines (printed current items) = items.map itemText := by
  induction items generalizing current with
  | nil => rfl
  | cons item rest ih =>
    rw [printed, lines, filterMap_append, map_cons, ← ih item.sectionName]
    split_ifs <;> rfl

variable {s : Allocation × List Str} {sections : List Str} {done : List TypedStateRecord}

theorem mem_of_mem_runHeads {s current : Str} (h : s ∈ runHeads current sections) : s ∈ sections := by
  induction sections generalizing current with
  | nil => exact h
  | cons t rest ih =>
    rcases mem_append.1 h with h | h
    · split_ifs at h
      · exact mem_cons.2 (.inl (mem_singleton.1 h))
      · cases h
    · exact mem_cons_of_mem _ (ih h)

theorem mem_runHeads {s current : Str} (h : s ∈ sections) (hne : s ≠ current) : s ∈ runHeads current sections := by
  induction sections generalizing current with
  | nil => cases h
  | cons t rest ih =>
    rw [runHeads]
    by_cases hst : s = t
    · subst hst
      rw [if_pos hne]
      exact mem_append_left _ (mem_singleton_self s)
    · exact mem_append_right _ (ih ((mem_cons.1 h).resolve_left hst) hst)

theorem unbroken_cons_self {s : Str} : Unbroken (s :: s :: sections) ↔ Unbroken (s :: sections) := by
  refine ⟨fun h a b hsub => h a b (hsub.trans (sublist_cons_self _ _)), fun h a b hsub => ?_⟩
  cases hsub with
  | cons _ hsub => exact h a b hsub
  | cons_cons _ hsub =>
    cases hsub with
    | cons _ hsub => exact h _ b (hsub.cons_cons _)
    | cons_cons _ hsub => rfl

theorem unbroken_cons_of_ne {s t : Str} (hne : t ≠ s) :
    Unbroken (s :: t :: sections) ↔ s ∉ sections ∧ Unbroken (t :: sections) := by
  constructor
  · refine fun h => ⟨fun hmem => hne (h s t ?_).symm, fun a b hsub => h a b (hsub.cons _)⟩
    exact ((singleton_sublist.2 hmem).cons_cons t).cons_cons s
  · rintro ⟨hnot, h⟩ a b hsub
    cases hsub with
    | cons _ hsub => exact h a b hsub
    | cons_cons _ hsub =>
      have hmem : s ∈ t :: sections := hsub.subset (by simp)
      rcases mem_cons.1 hmem with rfl | hmem
      · exact absurd rfl hne
      · exact absurd hmem hnot

/-- **Titles are printed once iff no section is broken up.** -/
theorem nodup_runHeads_iff (current : Str) (sections : List Str) :
    (current ∉ runHeads current sections ∧ (runHeads current sections).Nodup) ↔ Unbroken (current :: sections) := by
  induction sections generalizing current with
  | nil =>
    refine iff_of_true ⟨not_mem_nil, nodup_nil⟩ fun a b hsub => ?_
    exact absurd hsub.length_le (by simp)
  | cons s rest ih =>
    rw [runHeads]
    by_cases hs : s = current
    · subst hs
      rw [if_neg (fun h => h rfl), nil_append, unbroken_cons_self]
      exact ih s
    · rw [if_pos hs, unbroken_cons_of_ne hs, ← ih s, singleton_append, mem_cons, not_or, nodup_cons]
      constructor
      · rintro ⟨⟨-, hcurrent⟩, hhead, hnodup⟩
        exact ⟨fun hmem => hcurrent (mem_runHeads hmem (Ne.symm hs)), hhead, hnodup⟩
      · rintro ⟨hcurrent, hhead, hnodup⟩
        exact ⟨⟨Ne.symm hs, fun hmem => hcurrent (mem_of_mem_runHeads hmem)⟩, hhead, hnodup⟩

theorem sectionTitle_ne_nil (kind : TypedInformationKind) (status : RecordStatus) : sectionTitle kind status ≠ [] := by
  cases kind <;> cases status <;> decide

/-- The titles of records are printed once iff their sections are unbroken. -/
theorem nodup_titles_iff (records : List TypedStateRecord) :
    (titles (printed [] (records.map includedItem))).Nodup ↔ Unbroken (records.map recordSection) := by
  have hnil : ([] : Str) ∉ records.map recordSection := by
    intro hmem
    obtain ⟨r, -, hr⟩ := mem_map.1 hmem
    exact sectionTitle_ne_nil _ _ hr
  have hmap : (records.map includedItem).map IncludedItem.sectionName = records.map recordSection := by
    rw [map_map]
    rfl
  rw [titles_printed, hmap]
  have hiff := nodup_runHeads_iff [] (records.map recordSection)
  refine ⟨fun h a b hsub => hiff.1 ⟨fun hmem => hnil (mem_of_mem_runHeads hmem), h⟩ a b (hsub.cons _),
    fun h => (hiff.2 fun a b hsub => ?_).2⟩
  cases hsub with
  | cons _ hsub => exact h a b hsub
  | cons_cons _ hsub => exact absurd (hsub.subset (by simp)) hnil

/-! ### What is allotted -/

/-- The records so far are kept, or they are reported: with others, or as mandatory ones. -/
def Reported (done : List TypedStateRecord) (a : Allocation) : Prop := ∃ kept other required : List TypedStateRecord,
    (kept ++ (other ++ required)).Perm done ∧ kept.Sublist done ∧ a.included = kept.map includedItem ∧
    a.dropped.map OverflowEntry.id = other.map TypedStateRecord.id ∧
    (a.unsafeCompaction.getD []).map OverflowEntry.id = required.map TypedStateRecord.id ∧
    (a.unsafeCompaction.isSome = true ↔ required ≠ []) ∧
    (∀ r ∈ other, mandatory r = false) ∧ ∀ r ∈ required, mandatory r = true

/-- What holds after some records, with the sections that are open. -/
structure Allotted (budget : ℕ) (done : List TypedStateRecord) (s : Allocation × List Str) : Prop where
  limit : s.1.budgetTokens = budget
  within : s.1.tokensUsed ≤ budget
  opened : s.2.Nodup
  mem_opened : ∀ t, t ∈ s.2 ↔ t ∈ s.1.included.map IncludedItem.sectionName
  tokens : s.1.tokensUsed = (s.2.map titleTokens).sum + (s.1.included.map IncludedItem.tokens).sum
  records : Reported done s.1

theorem allotted_start (budget droppedByCap : ℕ) : Allotted budget [] (.start budget droppedByCap, []) :=
  ⟨rfl, Nat.zero_le _, nodup_nil, fun _ => Iff.rfl, rfl, [], [], [], .refl _, .refl _, rfl, rfl, rfl,
    by simp [Allocation.start], by simp, by simp⟩

theorem perm_insert {α : Type} {xs ys done : List α} (h : (xs ++ ys).Perm done) (r : α) :
    (xs ++ r :: ys).Perm (done ++ [r]) :=
  perm_middle.trans ((h.cons r).trans (perm_append_singleton r done).symm)

theorem Reported.include {a : Allocation} (h : Reported done a) (record : TypedStateRecord) (tokens : ℕ) :
    Reported (done ++ [record])
      { a with tokensUsed := tokens, included := a.included ++ [includedItem record] } := by
  obtain ⟨kept, other, required, hperm, hsub, hincluded, hrest⟩ := h
  refine ⟨kept ++ [record], other, required, ?_, hsub.append_right [record], ?_, hrest⟩
  · simpa using perm_insert hperm record
  · rw [map_append, ← hincluded]
    rfl

theorem Reported.drop {a : Allocation} (h : Reported done a) (record : TypedStateRecord) (tokens : ℕ) :
    Reported (done ++ [record])
      (if mandatory record then
        { a with unsafeCompaction := some (a.unsafeCompaction.getD [] ++ [overflowEntry record tokens]) }
      else { a with dropped := a.dropped ++ [overflowEntry record tokens] }) := by
  obtain ⟨kept, other, required, hperm, hsub, hincluded, hdropped, hunsafe, hsome, hother, hrequired⟩ := h
  have hsub' : kept.Sublist (done ++ [record]) := hsub.trans (sublist_append_left _ _)
  rw [← append_assoc] at hperm
  split_ifs with hmandatory
  · have hlast : ((kept ++ other ++ required) ++ []).Perm done := by rwa [append_nil]
    refine ⟨kept, other, required ++ [record], by simpa using perm_insert hlast record, hsub', hincluded,
      hdropped, ?_, by simp, hother, ?_⟩
    · rw [Option.getD_some, map_append, hunsafe, map_append]
      rfl
    · exact forall_mem_append.2 ⟨hrequired, by simpa using hmandatory⟩
  · refine ⟨kept, other ++ [record], required, by simpa using perm_insert hperm record, hsub', hincluded,
      ?_, hunsafe, hsome, ?_, hrequired⟩
    · rw [map_append, hdropped, map_append]
      rfl
    · exact forall_mem_append.2 ⟨hother, by simpa using hmandatory⟩

/-- **One more record is kept or reported.** -/
theorem Allotted.step {budget : ℕ} (h : Allotted budget done s) (record : TypedStateRecord) :
    Allotted budget (done ++ [record]) (allocateRecord s record) := by
  obtain ⟨a, opened⟩ := s
  obtain ⟨hlimit, hwithin, hopened, hmem, htokens, hrecords⟩ := h
  simp only at hlimit hwithin hopened hmem htokens hrecords
  simp only [allocateRecord]
  by_cases hfits : a.tokensUsed + (estimateTokens (recordLine record) +
      if recordSection record ∈ opened then 0 else titleTokens (recordSection record)) ≤ a.budgetTokens
  · rw [if_pos hfits]
    have hsum : ((a.included ++ [includedItem record]).map IncludedItem.tokens).sum =
        (a.included.map IncludedItem.tokens).sum + estimateTokens (recordLine record) := by
      rw [map_append, sum_append]
      rfl
    have hsections : (a.included ++ [includedItem record]).map IncludedItem.sectionName =
        a.included.map IncludedItem.sectionName ++ [recordSection record] := map_append
    by_cases hopen : recordSection record ∈ opened
    · rw [if_pos hopen] at hfits
      rw [if_pos hopen, if_pos hopen]
      refine ⟨hlimit, by simp only; omega, hopened, fun t => ?_, by simp only [hsum]; omega, hrecords.include record _⟩
      simp only [hsections, mem_append, mem_singleton]
      rw [hmem]
      exact ⟨.inl, fun ht => ht.elim id fun ht => ht ▸ (hmem _).1 hopen⟩
    · rw [if_neg hopen] at hfits
      rw [if_neg hopen, if_neg hopen]
      refine ⟨hlimit, by simp only; omega, ?_, fun t => ?_, ?_, hrecords.include record _⟩
      · exact nodup_append.2 ⟨hopened, nodup_singleton _, fun s hs t ht hst =>
          hopen (mem_singleton.1 ht ▸ hst ▸ hs)⟩
      · simp only [hsections, mem_append]
        rw [hmem]
      · have hpaid : ((opened ++ [recordSection record]).map titleTokens).sum =
            (opened.map titleTokens).sum + titleTokens (recordSection record) := by
          rw [map_append, sum_append]
          rfl
        simp only [hsum, hpaid]
        omega
  · rw [if_neg hfits]
    have hreported := hrecords.drop record (estimateTokens (recordLine record) +
      if recordSection record ∈ opened then 0 else titleTokens (recordSection record))
    split_ifs at hreported ⊢ with hmandatory
    all_goals exact ⟨hlimit, hwithin, hopened, hmem, htokens, hreported⟩

theorem Allotted.run {budget : ℕ} (h : Allotted budget done s) (rest : List TypedStateRecord) :
    Allotted budget (done ++ rest) (rest.foldl allocateRecord s) := by
  induction rest generalizing done s with
  | nil => rwa [append_nil]
  | cons record rest ih =>
    rw [← singleton_append, ← append_assoc]
    exact ih (h.step record)

/-- Everything fits a large budget. -/
theorem included_of_budget (rest : List TypedStateRecord) (h : s.1.tokensUsed + (rest.map fun r =>
      estimateTokens (recordLine r) + titleTokens (recordSection r)).sum ≤ s.1.budgetTokens) :
    (rest.foldl allocateRecord s).1.included = s.1.included ++ rest.map includedItem := by
  induction rest generalizing s with
  | nil => rw [map_nil, append_nil]; rfl
  | cons record rest ih =>
    obtain ⟨a, opened⟩ := s
    rw [map_cons, sum_cons] at h
    have htitle : (if recordSection record ∈ opened then 0 else titleTokens (recordSection record)) ≤
        titleTokens (recordSection record) := by
      split_ifs
      · exact Nat.zero_le _
      · exact Nat.le_refl _
    simp only at h
    have hstep : allocateRecord (a, opened) record =
        ({ a with
          tokensUsed := a.tokensUsed + (if recordSection record ∈ opened then 0 else
            titleTokens (recordSection record)) + estimateTokens (recordLine record)
          included := a.included ++ [includedItem record] },
        if recordSection record ∈ opened then opened else opened ++ [recordSection record]) := by
      simp only [allocateRecord]
      rw [if_pos (by omega)]
    rw [foldl_cons, hstep, ih (by simp only; omega), map_cons, append_assoc, singleton_append]

/-! ### The main result -/

theorem itemText_eq_line_iff (item : IncludedItem) : itemText item = item.line ↔ item.retirePath = none := by
  rw [itemText]
  cases item.retirePath with
  | none => exact iff_of_true rfl rfl
  | some path => exact iff_of_false (fun h => by simpa using congrArg List.length h) (Option.some_ne_none _)

/-- What is printed for records of an unbroken ranking without notes was paid for. -/
theorem Allotted.paid {budget : ℕ}
    (h : Allotted budget done s) (hsections : Unbroken (done.map recordSection))
    (hnotes : ∀ r ∈ done, r.retirePath = none) : Paid s.1 := by
  obtain ⟨kept, other, required, -, hsub, hincluded, -⟩ := h.records
  have hnodup : (titles (printed [] s.1.included)).Nodup := by
    rw [hincluded, nodup_titles_iff]
    exact fun a b hab => hsections a b (hab.trans (hsub.map recordSection))
  have hlines : lines (printed [] s.1.included) = s.1.included.map IncludedItem.line := by
    rw [lines_printed, hincluded]
    refine map_congr_left fun item hitem => (itemText_eq_line_iff item).2 ?_
    obtain ⟨r, hr, rfl⟩ := mem_map.1 hitem
    exact hnotes r (hsub.subset hr)
  have hopened : (titles (printed [] s.1.included)).Perm s.2 := by
    refine (perm_ext_iff_of_nodup hnodup h.opened).2 fun t => ?_
    rw [titles_printed, h.mem_opened]
    refine ⟨mem_of_mem_runHeads, fun ht => mem_runHeads ht ?_⟩
    rw [hincluded, map_map] at ht
    obtain ⟨r, -, rfl⟩ := mem_map.1 ht
    exact sectionTitle_ne_nil _ _
  refine ⟨hnodup, hlines, ?_⟩
  rw [hlines, (hopened.map titleTokens).sum_eq, h.tokens, hincluded, map_map, map_map, map_map]
  rfl

/-- **The allocations of a ledger are sound for every budget iff no section of its ranking is left
and entered again, and no record has a note.** -/
theorem soundAllocation_iff (state : TypedStateLedger) (hids : (state.records.map TypedStateRecord.id).Nodup) :
    (∀ budget, SoundAllocation state budget) ↔
      Unbroken ((ranked state.records).map recordSection) ∧ ∀ r ∈ state.records, r.retirePath = none := by
  have hranked : (ranked state.records).Perm state.records := mergeSort_perm _ _
  constructor
  · intro h
    have hpaid := (h ((ranked state.records).map fun r =>
      estimateTokens (recordLine r) + titleTokens (recordSection r)).sum).paid
    have hall : (allocate state ((ranked state.records).map fun r =>
        estimateTokens (recordLine r) + titleTokens (recordSection r)).sum).included =
          (ranked state.records).map includedItem := by
      exact included_of_budget (ranked state.records) (by simp [Allocation.start])
    rw [Paid, hall] at hpaid
    refine ⟨(nodup_titles_iff _).1 hpaid.1, fun r hr => ?_⟩
    have hlines := hpaid.2.1
    rw [lines_printed] at hlines
    have hmem := mem_map_of_mem (f := includedItem) (hranked.mem_iff.2 hr)
    exact (itemText_eq_line_iff _).1 (map_inj_left.1 hlines _ hmem)
  · rintro ⟨hsections, hnotes⟩ budget
    have h := (allotted_start budget state.droppedByCap).run (ranked state.records)
    rw [nil_append] at h
    obtain ⟨kept, other, required, hperm, -, hincluded, hdropped, hunsafe, hsome, hother, hrequired⟩ := h.records
    have hrecords := hperm.trans hranked
    have hkept : (allocate state budget).included.map IncludedItem.id = kept.map TypedStateRecord.id := by
      rw [show (allocate state budget).included = kept.map includedItem from hincluded, map_map]
      rfl
    refine ⟨?_, h.within, ?_, h.paid hsections fun r hr => hnotes r (hranked.mem_iff.1 hr)⟩
    · rw [hkept, allocate, allocateRanked, reportMandatory, map_append, hdropped, hunsafe,
        ← map_append, ← map_append]
      exact hrecords.map _
    · rw [hkept]
      refine Iff.trans hsome ⟨fun hne => ?_, ?_⟩
      · obtain ⟨r, hr⟩ := exists_mem_of_ne_nil _ hne
        refine ⟨r, hrecords.mem_iff.1 (by simp [hr]), hrequired r hr, fun hmem => ?_⟩
        have hnodup := (hrecords.map TypedStateRecord.id).nodup_iff.2 hids
        rw [map_append, nodup_append] at hnodup
        exact hnodup.2.2 _ hmem _ (mem_map_of_mem (by simp [hr])) rfl
      · rintro ⟨r, hr, hmandatory, hnot⟩ rfl
        rw [← hrecords.mem_iff, append_nil] at hr
        rcases mem_append.1 hr with hr | hr
        · exact hnot (mem_map_of_mem hr)
        · rw [hother r hr] at hmandatory
          cases hmandatory

/-! ### Ledgers -/

def constraintAt (id : Str) (kind : TypedInformationKind) (ordinal : ℕ) : TypedStateRecord :=
  ⟨id, kind, "e", ordinal, "text", .current, .verified, none, none⟩

/-- Two constraints and a boundary. -/
def groupedLedger : TypedStateLedger := ⟨[constraintAt "a" .userConstraint 3, constraintAt "b" .userConstraint 2,
    constraintAt "c" .safetyOrPermissionBoundary 1], 0⟩

theorem soundAllocation_grouped :
    (groupedLedger.records.map TypedStateRecord.id).Nodup ∧ SoundAllocation groupedLedger 100 := by
  refine ⟨by decide, (soundAllocation_iff groupedLedger (by decide)).2 ⟨?_, by decide⟩ 100⟩
  have hsorted : ranked groupedLedger.records = groupedLedger.records := mergeSort_of_pairwise (by decide)
  rw [hsorted, ← nodup_titles_iff]
  decide

/-- The boundary was stated between the constraints. -/
def alternatingLedger : TypedStateLedger :=
  ⟨[constraintAt "a" .userConstraint 3, constraintAt "c" .safetyOrPermissionBoundary 2,
    constraintAt "b" .userConstraint 1], 0⟩

/-- **A title that is printed twice and paid for once.** -/
theorem alternating_sections :
    (alternatingLedger.records.map TypedStateRecord.id).Nodup ∧ ¬ SoundAllocation alternatingLedger 100 := by
  refine ⟨by decide, fun h => ?_⟩
  have hsorted : ranked alternatingLedger.records = alternatingLedger.records := mergeSort_of_pairwise (by decide)
  have hpaid := h.paid.1
  rw [allocate, hsorted] at hpaid
  exact absurd hpaid (by decide)

end TypedState
