/-
**Preparing a compaction.**

A compaction replaces the older entries of a session's way by a summary.  Which entries it keeps is
found from the end: the newest entries whose estimated tokens reach a budget, from the next place on
at which a cut is allowed.  A cut inside a turn splits it; the beginning of the turn is summarised
apart.  What is summarised begins where the compaction before had begun to keep.  This module embeds
the entries, the cut and the preparation of `core/compaction/compaction.rs`, with the conversion of
session entries in `core/agent_session.rs`.

The roles of messages, the estimates of their tokens, the arithmetic of doubles and the ledger that
is built from the window are parameters.
-/

import OptimusAgent.Session

namespace Compacting

open Str Session List

/-! ### Entries -/

/-- What a compaction takes from elsewhere, for JSON values `J`, messages `M` and doubles `T`. -/
class CompactionHost (J : Type) (M T : outParam Type) where
  role : M → Str
  /-- The content of a custom message that is an empty text. -/
  emptyText : J
  /-- A text as a JSON value is written. -/
  jsonText : Str → Str
  estimateTokens : SessionMessage J M → T
  contentTokens : J → T
  summaryTokens : Str → T
  zero : T
  add : T → T → T
  ge : T → T → Bool

inductive CompactionEntryBody (J M : Type) where
  | message (message : SessionMessage J M)
  | customMessage (customType : Str) (content : J) (display : Bool) (details : Option J)
      (timestamp : Str)
  | branchSummary (summary fromId timestamp : Str)
  | compaction (compaction : Session.Compaction J)
  | other

structure CompactionSessionEntry (J M : Type) where
  id : Str
  body : CompactionEntryBody J M

section

variable {J M T : Type} [JsonHost J M] [CompactionHost J M T]

/-- A message that cannot be read becomes an empty custom message. -/
def agentMessageFromValue (value : J) : SessionMessage J M :=
  match JsonHost.message value with
  | some message => .stored message
  | none => .custom [] (CompactionHost.emptyText : J) false none 0

/-- The entry as the compaction reads it.  The timestamp of a branch summary is the text of its JSON
value, with the quotes. -/
def compactionSessionEntryFrom (entry : SessionEntry J) : CompactionSessionEntry J M where
  id := entry.id
  body :=
    match entry.body with
    | .message value => .message (agentMessageFromValue value)
    | .customMessage customType content display details =>
      .customMessage customType (JsonHost.content content) display details entry.timestamp
    | .branchSummary summary fromId => .branchSummary summary fromId (CompactionHost.jsonText J entry.timestamp)
    | .compaction compaction => .compaction compaction
    | _ => .other

def harnessDigestCustomType : Str := "harness_digest"

/-- The message of an entry for the summary: none of a compaction, and harness digests are left
out. -/
def getMessageFromEntryForCompaction (entry : CompactionSessionEntry J M) : Option (SessionMessage J M) :=
  match entry.body with
  | .message message => some message
  | .customMessage customType content display details timestamp =>
    if customType = harnessDigestCustomType then none
    else some (.custom customType content display details (JsonHost.isoToMillis J timestamp))
  | .branchSummary summary fromId timestamp =>
    some (.branchSummary summary fromId (JsonHost.isoToMillis J timestamp))
  | .compaction _ => none
  | .other => none

def roleOf : SessionMessage J M → Str
  | .stored message => CompactionHost.role J message
  | .custom .. => "custom"
  | .branchSummary .. => "branchSummary"
  | .compactionSummary .. => "compactionSummary"

/-! ### The cut -/

/-- A cut is allowed before everything but a tool result. -/
def isCutPoint (entry : CompactionSessionEntry J M) : Bool :=
  match entry.body with
  | .message message =>
    (roleOf message) ∈ (["bashExecution", "custom", "branchSummary", "compactionSummary", "user",
      "assistant"] : List Str)
  | .customMessage .. => true
  | .branchSummary .. => true
  | _ => false

def isTurnStart (entry : CompactionSessionEntry J M) : Bool :=
  match entry.body with
  | .message message => roleOf message = "user" ∨ roleOf message = "bashExecution"
  | .customMessage .. => true
  | .branchSummary .. => true
  | _ => false

def isUserMessage (entry : CompactionSessionEntry J M) : Bool :=
  match entry.body with
  | .message message => roleOf message = "user"
  | _ => false

def isMessage (entry : CompactionSessionEntry J M) : Bool :=
  match entry.body with
  | .message _ => true
  | _ => false

def isCompaction (entry : CompactionSessionEntry J M) : Bool :=
  match entry.body with
  | .compaction _ => true
  | _ => false

/-- The indices from `start` up to `stop`. -/
def indices (start stop : ℕ) : List ℕ := List.range' start (stop - start)

def findValidCutPoints (entries : List (CompactionSessionEntry J M)) (startIndex endIndex : ℕ) : List ℕ :=
  (indices startIndex endIndex).filter fun index => entries[index]?.any isCutPoint

/-- The last start of a turn up to an entry. -/
def findTurnStartIndex (entries : List (CompactionSessionEntry J M)) (entryIndex startIndex : ℕ) : Option ℕ :=
  (indices startIndex (entryIndex + 1)).reverse.find? fun index => entries[index]?.any isTurnStart

structure CutPointResult where
  firstKeptEntryIndex : ℕ
  turnStartIndex : Option ℕ
  isSplitTurn : Bool
  deriving DecidableEq

def entryTokenCost (entry : CompactionSessionEntry J M) : Option T :=
  match entry.body with
  | .message message => some (CompactionHost.estimateTokens message)
  | .customMessage _ content _ _ _ => some (CompactionHost.contentTokens content)
  | .branchSummary summary _ _ => some (CompactionHost.summaryTokens J summary)
  | .compaction _ => none
  | .other => none

/-- The tokens with those of one more entry. -/
def addCost (accumulated : T) (entry : Option (CompactionSessionEntry J M)) : T :=
  match entry.bind entryTokenCost with
  | some tokens => CompactionHost.add J accumulated tokens
  | none => accumulated

/-- The first cut at or after the entry where the newest entries reach the budget, the last cut if
there is none after it, and the first of all if they do not reach it. -/
def walkBack (entries : List (CompactionSessionEntry J M)) (keepRecentTokens : T) (first : ℕ)
    (cutPoints : List ℕ) : List ℕ → T → ℕ
  | [], _ => first
  | index :: rest, accumulated =>
    if CompactionHost.ge J (addCost accumulated entries[index]?) keepRecentTokens = true then
      (cutPoints.find? fun candidate => index ≤ candidate).getD (cutPoints.getLastD first)
    else walkBack entries keepRecentTokens first cutPoints rest (addCost accumulated entries[index]?)

/-- The entries before a cut that are no messages are kept with it. -/
def retreat (entries : List (CompactionSessionEntry J M)) (startIndex : ℕ) : ℕ → ℕ
  | 0 => 0
  | cutIndex + 1 =>
    if cutIndex + 1 ≤ startIndex then cutIndex + 1
    else if entries[cutIndex]?.any (fun entry => isCompaction entry || isMessage entry) = true then
      cutIndex + 1
    else retreat entries startIndex cutIndex

def findCutPoint (entries : List (CompactionSessionEntry J M)) (startIndex endIndex : ℕ)
    (keepRecentTokens : T) : CutPointResult :=
  match findValidCutPoints entries startIndex endIndex with
  | [] => ⟨startIndex, none, false⟩
  | first :: more =>
    let cutIndex := retreat entries startIndex
      (walkBack entries keepRecentTokens first (first :: more) (indices startIndex endIndex).reverse
        (CompactionHost.zero J))
    let isUser : Bool := entries[cutIndex]?.any isUserMessage
    let turnStartIndex := if isUser then none else findTurnStartIndex entries cutIndex startIndex
    ⟨cutIndex, turnStartIndex, !isUser && turnStartIndex.isSome⟩

/-! ### The preparation -/

structure CompactionPreparation (J M T L : Type) where
  firstKeptEntryId : Str
  messagesToSummarize : List (SessionMessage J M)
  turnPrefixMessages : List (SessionMessage J M)
  isSplitTurn : Bool
  tokensBefore : T
  /-- The protected state, built from the window and from the state of the compaction before. -/
  typedState : Option L
  deriving DecidableEq

/-- The compaction of an entry, unless it has a provider's checkpoint. -/
def ownCompaction (entry : CompactionSessionEntry J M) : Option (Session.Compaction J) :=
  match entry.body with
  | .compaction compaction =>
    if compaction.details.any hasProviderCheckpoint = true then none else some compaction
  | _ => none

/-- The last compaction of the way, with its index. -/
def prevCompaction (pathEntries : List (CompactionSessionEntry J M)) : Option (ℕ × Session.Compaction J) :=
  Latest.latest (fun p => (ownCompaction p.1).map fun compaction => (p.2, compaction))
    pathEntries.zipIdx

/-- Where the window begins: with the entry that the last compaction has kept first, or after it if
there is no such entry. -/
def boundaryStart (pathEntries : List (CompactionSessionEntry J M)) : ℕ :=
  match prevCompaction pathEntries with
  | none => 0
  | some (index, compaction) =>
    (pathEntries.findIdx? fun entry => entry.id = compaction.firstKeptEntryId).getD (index + 1)

/-- The entries from one index up to another. -/
def slice {α : Type} (l : List α) (start stop : ℕ) : List α := (l.take stop).drop start

def cutPointOf (pathEntries : List (CompactionSessionEntry J M)) (keepRecentTokens : T) : CutPointResult :=
  findCutPoint pathEntries (boundaryStart pathEntries) pathEntries.length keepRecentTokens

def historyEnd (cutPoint : CutPointResult) : ℕ :=
  if cutPoint.isSplitTurn = true then cutPoint.turnStartIndex.getD cutPoint.firstKeptEntryIndex
  else cutPoint.firstKeptEntryIndex

/-- The entries that the protected state is built from. -/
def ledgerWindow (pathEntries : List (CompactionSessionEntry J M)) (keepRecentTokens : T) :
    List (CompactionSessionEntry J M) :=
  slice pathEntries (boundaryStart pathEntries) (historyEnd (cutPointOf pathEntries keepRecentTokens))

/-- The preparation of a compaction.  `buildLedger` merges the state of the last compaction with the
one of the window, and `buildSessionContext` counts the tokens of the context. -/
def prepareCompaction {L : Type} (pathEntries : List (CompactionSessionEntry J M)) (keepRecentTokens : T)
    (buildLedger : Option (Session.Compaction J) → List (CompactionSessionEntry J M) → Option L)
    (buildSessionContext : List (CompactionSessionEntry J M) → T) :
    Option (CompactionPreparation J M T L) :=
  if pathEntries.getLast?.any isCompaction = true then none
  else
    let cutPoint := cutPointOf pathEntries keepRecentTokens
    match pathEntries[cutPoint.firstKeptEntryIndex]? with
    | none => none
    | some firstKeptEntry =>
      if firstKeptEntry.id = [] then none
      else
        let messagesToSummarize := (slice pathEntries (boundaryStart pathEntries)
          (historyEnd cutPoint)).filterMap getMessageFromEntryForCompaction
        let turnPrefixMessages :=
          if cutPoint.isSplitTurn = true then
            (slice pathEntries (cutPoint.turnStartIndex.getD 0)
              cutPoint.firstKeptEntryIndex).filterMap getMessageFromEntryForCompaction
          else []
        if messagesToSummarize.isEmpty && turnPrefixMessages.isEmpty then none
        else
          some ⟨firstKeptEntry.id, messagesToSummarize, turnPrefixMessages, cutPoint.isSplitTurn,
            buildSessionContext pathEntries,
            buildLedger ((prevCompaction pathEntries).map Prod.snd)
              (ledgerWindow pathEntries keepRecentTokens)⟩

/-! ### Slices -/

theorem mem_indices {start stop i : ℕ} : i ∈ indices start stop ↔ start ≤ i ∧ i < stop := by
  rw [indices, mem_range'_1]
  omega

theorem slice_append_slice {α : Type} (l : List α) {a b c : ℕ} (hab : a ≤ b) (hbc : b ≤ c) :
    slice l a b ++ slice l b c = slice l a c := by
  have htake : l.take b = (l.take c).take b := by rw [take_take, Nat.min_eq_left hbc]
  rw [slice, slice, slice, htake]
  conv_rhs => rw [← take_append_drop b (l.take c)]
  by_cases hlength : b ≤ (l.take c).length
  · rw [drop_append_of_le_length (by rw [length_take]; omega)]
  · have hrest : (l.take c).drop b = [] := drop_eq_nil_of_le (by omega)
    rw [hrest, append_nil, append_nil]

theorem slice_self {α : Type} (l : List α) (a : ℕ) : slice l a a = [] := drop_eq_nil_of_le (by simp)

theorem slice_length_eq_drop {α : Type} (l : List α) (a : ℕ) : slice l a l.length = l.drop a := by
  rw [slice, take_length]

/-! ### Where the cut lies -/

theorem getD_find?_mem {cutPoints : List ℕ} {first : ℕ} (hfirst : first ∈ cutPoints) (p : ℕ → Bool) :
    (cutPoints.find? p).getD (cutPoints.getLastD first) ∈ cutPoints := by
  cases hfind : cutPoints.find? p with
  | some candidate => exact mem_of_find?_eq_some hfind
  | none =>
    rw [Option.getD_none, getLastD_eq_getLast?]
    have hne : cutPoints ≠ [] := ne_nil_of_mem hfirst
    rw [getLast?_eq_some_getLast hne, Option.getD_some]
    exact getLast_mem hne

omit [JsonHost J M] in
theorem walkBack_mem (entries : List (CompactionSessionEntry J M)) (keepRecentTokens : T) {first : ℕ}
    {cutPoints : List ℕ} (hfirst : first ∈ cutPoints) (visited : List ℕ) (accumulated : T) :
    walkBack entries keepRecentTokens first cutPoints visited accumulated ∈ cutPoints := by
  induction visited generalizing accumulated with
  | nil => exact hfirst
  | cons index rest ih =>
    rw [walkBack]
    split_ifs
    · exact getD_find?_mem hfirst _
    · exact ih _

omit [JsonHost J M] [CompactionHost J M T] in
/-- The cut goes back over entries that are neither messages nor compactions. -/
theorem retreat_spec (entries : List (CompactionSessionEntry J M)) {startIndex cutIndex : ℕ}
    (h : startIndex ≤ cutIndex) : startIndex ≤ retreat entries startIndex cutIndex ∧
      retreat entries startIndex cutIndex ≤ cutIndex ∧
      ∀ index, retreat entries startIndex cutIndex ≤ index → index < cutIndex →
        entries[index]?.any (fun entry => isCompaction entry || isMessage entry) = false := by
  induction cutIndex with
  | zero => exact ⟨h, le_rfl, nofun⟩
  | succ cutIndex ih =>
    rw [retreat]
    split_ifs with hstart hprev
    · exact ⟨h, le_rfl, fun index hle hlt => absurd hlt (by omega)⟩
    · exact ⟨h, le_rfl, fun index hle hlt => absurd hlt (by omega)⟩
    · obtain ⟨hlow, hhigh, hskipped⟩ := ih (by omega)
      refine ⟨hlow, hhigh.trans (Nat.le_succ cutIndex), fun index hle hlt => ?_⟩
      rcases Nat.lt_succ_iff_lt_or_eq.1 hlt with hlt | rfl
      · exact hskipped index hle hlt
      · simpa using hprev

omit [JsonHost J M] in
theorem of_findTurnStartIndex {entries : List (CompactionSessionEntry J M)}
    {entryIndex startIndex turnStart : ℕ}
    (h : findTurnStartIndex entries entryIndex startIndex = some turnStart) :
    startIndex ≤ turnStart ∧ turnStart ≤ entryIndex := by
  have hmem := mem_indices.1 (mem_reverse.1 (mem_of_find?_eq_some h))
  exact ⟨hmem.1, Nat.lt_succ_iff.1 hmem.2⟩

omit [JsonHost J M] in
/-- What a cut can be: none is allowed and everything is kept, or the kept entries begin at an
allowed place or at entries before it that go with it. -/
theorem findCutPoint_cases (entries : List (CompactionSessionEntry J M)) (startIndex endIndex : ℕ)
    (keepRecentTokens : T) :
    (findValidCutPoints entries startIndex endIndex = [] ∧
      findCutPoint entries startIndex endIndex keepRecentTokens = ⟨startIndex, none, false⟩) ∨
    ∃ place kept turnStart, place ∈ findValidCutPoints entries startIndex endIndex ∧
      kept = retreat entries startIndex place ∧
      turnStart = (if entries[kept]?.any isUserMessage = true then none
        else findTurnStartIndex entries kept startIndex) ∧
      findCutPoint entries startIndex endIndex keepRecentTokens = ⟨kept, turnStart, turnStart.isSome⟩ := by
  rw [findCutPoint]
  cases hcuts : findValidCutPoints entries startIndex endIndex with
  | nil => exact .inl ⟨rfl, rfl⟩
  | cons first more =>
    have hplace := walkBack_mem entries keepRecentTokens (mem_cons_self (a := first) (l := more))
      (indices startIndex endIndex).reverse (CompactionHost.zero J)
    refine .inr ⟨_, _, _, hplace, rfl, rfl, ?_⟩
    dsimp only
    split_ifs with huser <;> simp [huser]

omit [JsonHost J M] in
/-- The cut lies in the window, and what is summarised ends with it or where the split turn
begins. -/
theorem findCutPoint_bounds (entries : List (CompactionSessionEntry J M)) (startIndex endIndex : ℕ)
    (keepRecentTokens : T) :
    startIndex ≤ historyEnd (findCutPoint entries startIndex endIndex keepRecentTokens) ∧
    historyEnd (findCutPoint entries startIndex endIndex keepRecentTokens) ≤
      (findCutPoint entries startIndex endIndex keepRecentTokens).firstKeptEntryIndex ∧
    ((findCutPoint entries startIndex endIndex keepRecentTokens).isSplitTurn = true →
      (findCutPoint entries startIndex endIndex keepRecentTokens).turnStartIndex =
        some (historyEnd (findCutPoint entries startIndex endIndex keepRecentTokens)) ∧
      findTurnStartIndex entries
        (findCutPoint entries startIndex endIndex keepRecentTokens).firstKeptEntryIndex startIndex =
        some (historyEnd (findCutPoint entries startIndex endIndex keepRecentTokens))) := by
  obtain ⟨-, heq⟩ | ⟨place, kept, turnStart, hplace, hkept, hturn, heq⟩ :=
    findCutPoint_cases entries startIndex endIndex keepRecentTokens
  · rw [heq]
    exact ⟨le_rfl, le_rfl, nofun⟩
  · have hlow := (retreat_spec entries (mem_indices.1 (mem_filter.1 hplace).1).1).1
    rw [← hkept] at hlow
    rw [heq]
    cases hindex : turnStart with
    | none => exact ⟨hlow, le_rfl, nofun⟩
    | some index =>
      rw [hindex] at hturn
      split_ifs at hturn
      obtain ⟨hturnLow, hturnHigh⟩ := of_findTurnStartIndex hturn.symm
      exact ⟨hturnLow, hturnHigh, fun _ => ⟨rfl, hturn.symm⟩⟩

/-- The parts of a preparation: what is summarised is the way from the boundary to the first entry
that is kept, in order. -/
theorem prepareCompaction_eq_some {L : Type} {pathEntries : List (CompactionSessionEntry J M)}
    {keepRecentTokens : T}
    {buildLedger : Option (Session.Compaction J) → List (CompactionSessionEntry J M) → Option L}
    {buildSessionContext : List (CompactionSessionEntry J M) → T}
    {preparation : CompactionPreparation J M T L}
    (h : prepareCompaction pathEntries keepRecentTokens buildLedger buildSessionContext = some preparation) :
    ∃ entry, pathEntries[(cutPointOf pathEntries keepRecentTokens).firstKeptEntryIndex]? = some entry ∧
      entry.id ≠ [] ∧ preparation.firstKeptEntryId = entry.id ∧
      preparation.messagesToSummarize ++ preparation.turnPrefixMessages = (slice pathEntries (boundaryStart pathEntries)
          (cutPointOf pathEntries keepRecentTokens).firstKeptEntryIndex).filterMap
            getMessageFromEntryForCompaction ∧
      preparation.typedState = buildLedger ((prevCompaction pathEntries).map Prod.snd)
        (ledgerWindow pathEntries keepRecentTokens) := by
  obtain ⟨hlow, hhigh, hsplit⟩ := findCutPoint_bounds pathEntries (boundaryStart pathEntries)
    pathEntries.length keepRecentTokens
  rw [← cutPointOf] at hlow hhigh hsplit
  rw [prepareCompaction] at h
  dsimp only at h
  generalize ledgerWindow pathEntries keepRecentTokens = window at h ⊢
  generalize cutPointOf pathEntries keepRecentTokens = cutPoint at h hlow hhigh hsplit ⊢
  have hlast : ¬ pathEntries.getLast?.any isCompaction = true := by
    intro hlast
    rw [if_pos hlast] at h
    cases h
  rw [if_neg hlast] at h
  cases hentry : pathEntries[cutPoint.firstKeptEntryIndex]? with
  | none =>
    rw [hentry] at h
    cases h
  | some entry =>
    rw [hentry] at h
    dsimp only at h
    by_cases hid : entry.id = []
    · rw [if_pos hid] at h
      cases h
    · rw [if_neg hid] at h
      have hparts := (Option.ite_none_left_eq_some.1 h).2
      cases hparts
      refine ⟨entry, rfl, hid, rfl, ?_, rfl⟩
      rw [← slice_append_slice pathEntries hlow hhigh, filterMap_append]
      congr 1
      by_cases hturn : cutPoint.isSplitTurn = true
      · rw [if_pos hturn, (hsplit hturn).1, Option.getD_some]
      · have hsame : historyEnd cutPoint = cutPoint.firstKeptEntryIndex := if_neg hturn
        rw [if_neg hturn, hsame, slice_self]
        rfl

end

end Compacting
