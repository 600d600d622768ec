/-
**Cuts through an exchange and cuts at a turn.**

A cut must not part a tool's result from the call it answers, and it should count as a cut through a
turn only if it is one.  A cut is never made before a result, but it may be made before a message
that was stored between a call and its result; then the result is kept without its call.  A cut is
judged after it went back over metadata, so one at a turn behind metadata is taken for one through
the turn before.
-/

import OptimusAgent.CompactionLedger

namespace Compacting

open Str Session List

/-- The tool calls of a message and the call that a result answers. -/
class ToolHost (M : Type) where
  toolCallIds : M → List Str
  toolCallId : M → Str

section

variable {J M T : Type} [CompactionHost J M T] {entries : List (CompactionSessionEntry J M)}
  {startIndex endIndex kept place index : ℕ}

/-! ### Calls and results -/

section

variable [ToolHost M]

end

/-! ### Turns -/

/-- The entries that the model receives something of. -/
def bearsContext (entry : CompactionSessionEntry J M) : Bool :=
  match entry.body with
  | .message _ => true
  | .customMessage .. => true
  | .branchSummary .. => true
  | .compaction _ => false
  | .other => false

/-- The first entry at or after an index that bears context. -/
def firstContext (entries : List (CompactionSessionEntry J M)) (index : ℕ) : Option ℕ :=
  (indices index entries.length).find? fun i => entries[i]?.any bearsContext

/-- A turn is reported as split, with a prefix that is not empty. -/
def ReportsSplit (cutPoint : CutPointResult) : Prop :=
  cutPoint.isSplitTurn = true ∧ ∃ turnStart ∈ cutPoint.turnStartIndex, turnStart < cutPoint.firstKeptEntryIndex

/-- What is kept begins inside a turn, whose start is the one that was found. -/
def SplitsTurn (entries : List (CompactionSessionEntry J M)) (cutPoint : CutPointResult) : Prop :=
  ∃ first ∈ firstContext entries cutPoint.firstKeptEntryIndex, entries[first]?.any isTurnStart = false ∧
    ∃ turnStart ∈ cutPoint.turnStartIndex, turnStart < first ∧
      ∀ i, turnStart < i → i < first → entries[i]?.any isTurnStart = false

/-- Metadata is kept in front of a turn, and another turn begins before it. -/
def MetadataLeads (entries : List (CompactionSessionEntry J M)) (startIndex kept : ℕ) : Prop :=
  (∃ first ∈ firstContext entries kept, kept < first ∧ entries[first]?.any isTurnStart = true) ∧
    ∃ i, startIndex ≤ i ∧ i < kept ∧ entries[i]?.any isTurnStart = true

omit [CompactionHost J M T] in
theorem firstContext_eq_some_iff {first : ℕ} : firstContext entries index = some first ↔
    index ≤ first ∧ first < entries.length ∧ entries[first]?.any bearsContext = true ∧
      ∀ i, index ≤ i → i < first → entries[i]?.any bearsContext = false := by
  rw [firstContext, indices, find?_range'_eq_some, mem_range'_1]
  constructor
  · rintro ⟨hbears, ⟨hle, hlt⟩, hnone⟩
    exact ⟨hle, by omega, hbears, fun i hi hlt => by simpa using hnone i hi hlt⟩
  · rintro ⟨hle, hlt, hbears, hnone⟩
    exact ⟨hbears, ⟨hle, by omega⟩, fun i hi hlt => by simpa using hnone i hi hlt⟩

/-- The last index with a property. -/
theorem find?_reverse_indices {p : ℕ → Bool} {start stop last : ℕ} : (indices start stop).reverse.find? p = some last ↔
      start ≤ last ∧ last < stop ∧ p last = true ∧ ∀ i, last < i → i < stop → p i = false := by
  induction stop with
  | zero => simp [indices]
  | succ stop ih =>
    by_cases hle : start ≤ stop
    · rw [reverse_indices_succ hle, find?_cons]
      cases hp : p stop with
      | true =>
        constructor
        · intro h
          cases h
          exact ⟨hle, Nat.lt_succ_self _, hp, fun i hlt hle => absurd hle (by omega)⟩
        · rintro ⟨_, hlt, _, hnone⟩
          by_contra hne
          rw [hnone stop (by grind) (Nat.lt_succ_self stop)] at hp
          cases hp
      | false =>
        refine ih.trans ⟨?_, ?_⟩ <;> rintro ⟨hlow, hlt, hlast, hnone⟩
        · refine ⟨hlow, by omega, hlast, fun i hi hle => ?_⟩
          rcases Nat.lt_succ_iff_lt_or_eq.1 hle with hlt | rfl
          · exact hnone i hi hlt
          · exact hp
        · have hne : last ≠ stop := fun heq => by simp [← heq, hlast] at hp
          exact ⟨hlow, by omega, hlast, fun i hi hle => hnone i hi (by omega)⟩
    · have hnil : indices start (stop + 1) = [] := by rw [indices, show stop + 1 - start = 0 by omega, range'_zero]
      simp only [hnil, reverse_nil, find?_nil, reduceCtorEq, false_iff]
      omega

/-- The start of a turn that is found is the last one. -/
theorem findTurnStartIndex_eq_some_iff {turnStart : ℕ} : findTurnStartIndex entries index startIndex = some turnStart ↔
      startIndex ≤ turnStart ∧ turnStart ≤ index ∧ entries[turnStart]?.any isTurnStart = true ∧
        ∀ i, turnStart < i → i ≤ index → entries[i]?.any isTurnStart = false := by
  rw [findTurnStartIndex, find?_reverse_indices]
  simp only [Nat.lt_succ_iff]

theorem findTurnStartIndex_eq_none_iff : findTurnStartIndex entries index startIndex = none ↔
    ∀ i, startIndex ≤ i → i ≤ index → entries[i]?.any isTurnStart = false := by
  simp only [findTurnStartIndex, find?_eq_none, mem_reverse, mem_indices, Nat.lt_succ_iff, and_imp, Bool.not_eq_true]

theorem any_eq_false_of_imp {α : Type} {p q : α → Bool} (h : ∀ a, p a = true → q a = true)
    {o : Option α} (hq : o.any q = false) : o.any p = false := by
  cases o with
  | none => rfl
  | some a => exact Bool.eq_false_iff.2 fun hp => Bool.eq_false_iff.1 hq (h a hp)

variable (entry : CompactionSessionEntry J M)

theorem bearsContext_of_isTurnStart (h : isTurnStart entry = true) : bearsContext entry = true := by
  cases hbody : entry.body with
  | message | customMessage | branchSummary => rw [bearsContext, hbody]
  | compaction | other =>
    rw [isTurnStart, hbody] at h
    cases h

theorem isTurnStart_of_isUserMessage (h : isUserMessage entry = true) : isTurnStart entry = true := by
  cases hbody : entry.body with
  | message message =>
    rw [isUserMessage, hbody] at h
    rw [isTurnStart, hbody]
    exact decide_eq_true_iff.2 (.inl (of_decide_eq_true h))
  | customMessage | branchSummary | compaction | other =>
    rw [isUserMessage, hbody] at h
    cases h

/-- An allowed place bears context. -/
theorem exists_firstContext (hplace : place ∈ findValidCutPoints entries startIndex endIndex)
    (hle : index ≤ place) : ∃ first, firstContext entries index = some first := by
  have hcut := (mem_filter.1 hplace).2
  cases hentry : entries[place]? with
  | none =>
    rw [hentry] at hcut
    cases hcut
  | some entry =>
    rw [← Option.isSome_iff_exists, firstContext, find?_isSome]
    refine ⟨place, mem_indices.2 ⟨hle, (List.getElem?_eq_some_iff.1 hentry).1⟩, ?_⟩
    rw [hentry] at hcut ⊢
    cases hbody : entry.body with
    | message | customMessage | branchSummary => simp [bearsContext, hbody]
    | compaction | other => simp [isCutPoint, hbody] at hcut

theorem reportsSplit_iff_of_kept (entries : List (CompactionSessionEntry J M)) (startIndex endIndex : ℕ)
    (keepRecentTokens : T) :
    (ReportsSplit (findCutPoint entries startIndex endIndex keepRecentTokens) ↔
        SplitsTurn entries (findCutPoint entries startIndex endIndex keepRecentTokens)) ↔
      ¬ MetadataLeads entries startIndex
        (findCutPoint entries startIndex endIndex keepRecentTokens).firstKeptEntryIndex := by
  obtain ⟨-, heq⟩ | ⟨place, kept, turnStart, hplace, hkept, hturn, heq⟩ :=
    findCutPoint_cases entries startIndex endIndex keepRecentTokens
  · rw [heq]
    simp only [ReportsSplit, SplitsTurn, MetadataLeads]
    grind
  · have hhigh := (retreat_spec entries (mem_indices.1 (mem_filter.1 hplace).1).1).2.1
    rw [← hkept] at hhigh
    obtain ⟨first, hfirst⟩ := exists_firstContext hplace hhigh
    obtain ⟨hle, -, hbears, hnone⟩ := firstContext_eq_some_iff.1 hfirst
    rw [heq]
    simp only [ReportsSplit, SplitsTurn, MetadataLeads, hfirst, Option.mem_def, Option.some.injEq,
      exists_eq_left']
    cases hstart : entries[kept]?.any isTurnStart with
    | true =>
      -- what is kept begins with the turn
      have hsame : first = kept := by
        by_contra hne
        have hnot := any_eq_false_of_imp bearsContext_of_isTurnStart (hnone kept le_rfl (by omega))
        rw [hnot] at hstart
        cases hstart
      have hfound : ∀ t, turnStart = some t → ¬ t < kept := by
        intro t ht hlt
        rw [hturn] at ht
        split_ifs at ht
        rw [(findTurnStartIndex_eq_some_iff.1 ht).2.2.2 kept hlt le_rfl] at hstart
        cases hstart
      grind
    | false =>
      rw [any_eq_false_of_imp isTurnStart_of_isUserMessage hstart, if_neg Bool.false_ne_true] at hturn
      have hbefore : ∀ t, turnStart = some t → t < kept := by
        intro t ht
        obtain ⟨-, hle, hat, -⟩ := findTurnStartIndex_eq_some_iff.1 (hturn.symm.trans ht)
        refine lt_of_le_of_ne hle fun hsame => ?_
        rw [hsame, hstart] at hat
        cases hat
      cases hturns : entries[first]?.any isTurnStart with
      | true =>
        have hlead : kept < first := by
          refine lt_of_le_of_ne hle fun hsame => ?_
          rw [← hsame, hstart] at hturns
          cases hturns
        have hexists : (∃ t, turnStart = some t) ↔
            ∃ i, startIndex ≤ i ∧ i < kept ∧ entries[i]?.any isTurnStart = true := by
          refine ⟨fun ⟨t, ht⟩ => ?_, fun ⟨i, hlow, hlt, hat⟩ => ?_⟩
          · obtain ⟨hlow, -, hat, -⟩ := findTurnStartIndex_eq_some_iff.1 (hturn.symm.trans ht)
            exact ⟨t, hlow, hbefore t ht, hat⟩
          · rw [← Option.ne_none_iff_exists', hturn, Ne, findTurnStartIndex_eq_none_iff]
            intro hall
            rw [hall i hlow hlt.le] at hat
            cases hat
        grind
      | false =>
        have hbetween : ∀ t, turnStart = some t → ∀ i, t < i → i < first →
            entries[i]?.any isTurnStart = false := by
          intro t ht i hlt hfirst
          rcases Nat.lt_or_ge kept i with hi | hi
          · exact any_eq_false_of_imp bearsContext_of_isTurnStart (hnone i hi.le hfirst)
          · exact (findTurnStartIndex_eq_some_iff.1 (hturn.symm.trans ht)).2.2.2 i hlt hi
        grind

/-- **A turn is reported as split when it is** exactly if the kept entries do not begin with
metadata in front of a turn that follows another one. -/
theorem reportsSplit_iff (startIndex : ℕ) (hend : endIndex ≤ entries.length) (keepRecentTokens : T) :
    (ReportsSplit (findCutPoint entries startIndex endIndex keepRecentTokens) ↔
        SplitsTurn entries (findCutPoint entries startIndex endIndex keepRecentTokens)) ↔
      ∀ kept, KeepsFrom entries startIndex endIndex keepRecentTokens kept →
        ¬ MetadataLeads entries startIndex kept := by
  rw [reportsSplit_iff_of_kept]
  by_cases hcuts : findValidCutPoints entries startIndex endIndex = []
  · rw [findCutPoint, hcuts]
    refine iff_of_true ?_ ?_
    · rintro ⟨-, i, hle, hlt, -⟩
      exact absurd hlt (not_lt.2 hle)
    · rintro kept ⟨cut, ⟨first, more, hcons, -⟩, -⟩
      rw [hcuts] at hcons
      cases hcons
  · have hkept := keepsFrom_findCutPoint hend keepRecentTokens hcuts
    exact ⟨fun h kept hother => hother.unique hkept ▸ h, fun h => h _ hkept⟩

end

/-! ### A notice before a result, and metadata before a question -/

section

instance sampleToolHost : ToolHost SampleJson where
  toolCallIds message := [textField message "content"]
  toolCallId message := textField message "content"

/-- An answered question, metadata and another question. -/
def ledPath : List (CompactionSessionEntry SampleJson SampleJson) :=
  [messageEntry "a" "user" "question", messageEntry "b" "assistant" "answer", ⟨"c", .other⟩,
    messageEntry "d" "user" "question"]

/-- A question with two answers, of which the second is kept. -/
def splitPath : List (CompactionSessionEntry SampleJson SampleJson) :=
  [messageEntry "a" "user" "question", messageEntry "b" "assistant" "answer",
    messageEntry "c" "assistant" "answer"]

theorem reportsSplit_iff_splitPath : ReportsSplit (findCutPoint splitPath 0 3 5) ∧
    SplitsTurn splitPath (findCutPoint splitPath 0 3 5) := by
  have hreports : ReportsSplit (findCutPoint splitPath 0 3 5) := ⟨by decide, 0, by decide, by decide⟩
  have hfrom : KeepsFrom splitPath 0 3 5 _ := keepsFrom_findCutPoint (by decide) 5 (by decide)
  refine ⟨hreports, ((reportsSplit_iff 0 (by decide) 5).2 fun kept hkept => ?_).1 hreports⟩
  rw [hkept.unique hfrom]
  rintro ⟨⟨first, hfirst, hlt, -⟩, -⟩
  have hanswer : firstContext splitPath (findCutPoint splitPath 0 3 5).firstKeptEntryIndex = some 2 := by
    decide
  cases hanswer.symm.trans hfirst
  exact absurd hlt (by decide)

/-- The cut is made before the second question, and the first turn is reported as split. -/
theorem whole_turn_reported : ReportsSplit (findCutPoint ledPath 0 4 5) ∧
    ¬ SplitsTurn ledPath (findCutPoint ledPath 0 4 5) := by
  refine ⟨⟨by decide, 0, by decide, by decide⟩, ?_⟩
  rintro ⟨first, hfirst, hnot, -⟩
  have hquestion : firstContext ledPath (findCutPoint ledPath 0 4 5).firstKeptEntryIndex = some 3 := by decide
  cases hquestion.symm.trans hfirst
  exact absurd hnot (by decide)

end

end Compacting
