/-
**The windows of the protected ledger.**

The protected state of a compaction is built from the entries that leave the model's window.  Over a
growing way, each compaction begins where the one before has begun to keep, so the windows follow
one another.  They meet if each ends where the next begins, which is so if what is kept begins with
a turn.  A compaction that splits a turn ends its window where the turn begins, and what it keeps
begins later; the entries between are in no window.
-/

import OptimusAgent.CompactionContext

namespace Compacting

open Str Session List

/-! ### Where the kept entries begin -/

section

variable {J M T : Type} [CompactionHost J M T]

/-- The tokens of the entries from an index up to another, added from the end. -/
def tailTokens (entries : List (CompactionSessionEntry J M)) (endIndex index : ℕ) : T :=
  (slice entries index endIndex).reverse.foldl (fun accumulated entry => addCost accumulated (some entry))
    (CompactionHost.zero J)

/-- The entries from the index on are the fewest newest ones of the range that reach the budget. -/
def Reaches (entries : List (CompactionSessionEntry J M)) (startIndex endIndex : ℕ) (keepRecentTokens : T)
    (index : ℕ) : Prop :=
  startIndex ≤ index ∧ index < endIndex ∧
    CompactionHost.ge J (tailTokens entries endIndex index) keepRecentTokens = true ∧
    ∀ later, index < later → later < endIndex →
      CompactionHost.ge J (tailTokens entries endIndex later) keepRecentTokens = false

/-- The place of the cut: the first allowed one at or after the entries that reach the budget, or
else the last one; the first of all if they do not reach it. -/
def CutsAt (entries : List (CompactionSessionEntry J M)) (startIndex endIndex : ℕ) (keepRecentTokens : T)
    (cut : ℕ) : Prop :=
  ∃ first more, findValidCutPoints entries startIndex endIndex = first :: more ∧
    ((∃ index, Reaches entries startIndex endIndex keepRecentTokens index ∧
        cut = ((first :: more).find? fun candidate => index ≤ candidate).getD
          ((first :: more).getLastD first)) ∨
      ((∀ index, ¬ Reaches entries startIndex endIndex keepRecentTokens index) ∧ cut = first))

/-- Where the kept entries begin: at the cut, with the entries before it that are no messages. -/
def KeepsFrom (entries : List (CompactionSessionEntry J M)) (startIndex endIndex : ℕ) (keepRecentTokens : T)
    (kept : ℕ) : Prop :=
  ∃ cut, CutsAt entries startIndex endIndex keepRecentTokens cut ∧ kept = retreat entries startIndex cut

/-- The kept entries begin with a turn, or no turn begins before them. -/
def KeepsTurn (entries : List (CompactionSessionEntry J M)) (startIndex : ℕ) (keepRecentTokens : T) : Prop :=
  ∀ kept, KeepsFrom entries startIndex entries.length keepRecentTokens kept →
    entries[kept]?.any isTurnStart = true ∨
      ∀ index, startIndex ≤ index → index ≤ kept → entries[index]?.any isTurnStart = false

theorem reverse_indices_succ {start stop : ℕ} (h : start ≤ stop) :
    (indices start (stop + 1)).reverse = stop :: (indices start stop).reverse := by
  have hlen : stop + 1 - start = stop - start + 1 := by omega
  simp only [indices, hlen]
  rw [range'_1_concat, reverse_append, Nat.add_sub_cancel' h]
  rfl

variable {startIndex endIndex : ℕ} {entries : List (CompactionSessionEntry J M)} {keepRecentTokens : T}

theorem tailTokens_of_lt (hend : endIndex ≤ entries.length) {index : ℕ} (h : index < endIndex) :
    (tailTokens entries endIndex index : T) =
      addCost (tailTokens entries endIndex (index + 1)) entries[index]? := by
  have hlt : index < (entries.take endIndex).length := by
    rw [length_take]
    omega
  rw [tailTokens, slice, drop_eq_getElem_cons hlt, reverse_cons, foldl_append, getElem_take,
    getElem?_eq_getElem (by omega)]
  rfl

/-- The walk from the end stops at the entries that reach the budget. -/
theorem walkBack_spec (hend : endIndex ≤ entries.length) (keepRecentTokens : T) (first : ℕ)
    (cutPoints : List ℕ) (startIndex n : ℕ) (hn : startIndex + n ≤ endIndex)
    (hlater : ∀ later, startIndex + n ≤ later → later < endIndex →
      CompactionHost.ge J (tailTokens entries endIndex later) keepRecentTokens = false) :
    (∃ index, Reaches entries startIndex endIndex keepRecentTokens index ∧
      walkBack entries keepRecentTokens first cutPoints (indices startIndex (startIndex + n)).reverse
        (tailTokens entries endIndex (startIndex + n)) =
        (cutPoints.find? fun candidate => index ≤ candidate).getD (cutPoints.getLastD first)) ∨
    ((∀ index, ¬ Reaches entries startIndex endIndex keepRecentTokens index) ∧
      walkBack entries keepRecentTokens first cutPoints (indices startIndex (startIndex + n)).reverse
        (tailTokens entries endIndex (startIndex + n)) = first) := by
  induction n with
  | zero =>
    refine .inr ⟨fun index hreaches => ?_, by simp [indices, walkBack]⟩
    obtain ⟨hstart, hlt, hge, -⟩ := hreaches
    rw [hlater index hstart hlt] at hge
    cases hge
  | succ n ih =>
    have hlt : startIndex + n < endIndex := by omega
    rw [← Nat.add_assoc, reverse_indices_succ (Nat.le_add_right startIndex n), walkBack,
      ← tailTokens_of_lt hend hlt]
    by_cases hge : CompactionHost.ge J (tailTokens entries endIndex (startIndex + n) : T)
        keepRecentTokens = true
    · rw [if_pos hge]
      exact .inl ⟨startIndex + n, ⟨by omega, hlt, hge, fun later hlt => hlater later (by omega)⟩, rfl⟩
    · rw [if_neg hge]
      refine ih hlt.le fun later hle hlater' => ?_
      by_cases hsame : later = startIndex + n
      · rw [hsame]
        simpa using hge
      · exact hlater later (by omega) hlater'

theorem Reaches.unique {i j : ℕ} (hi : Reaches entries startIndex endIndex keepRecentTokens i)
    (hj : Reaches entries startIndex endIndex keepRecentTokens j) : i = j := by
  rcases lt_trichotomy i j with hlt | heq | hlt
  · have hfalse := hi.2.2.2 j hlt hj.2.1
    rw [hj.2.2.1] at hfalse
    cases hfalse
  · exact heq
  · have hfalse := hj.2.2.2 i hlt hi.2.1
    rw [hi.2.2.1] at hfalse
    cases hfalse

theorem CutsAt.unique {i j : ℕ} (hi : CutsAt entries startIndex endIndex keepRecentTokens i)
    (hj : CutsAt entries startIndex endIndex keepRecentTokens j) : i = j := by
  obtain ⟨first, more, hcuts, hcut⟩ := hi
  obtain ⟨first', more', hcuts', hcut'⟩ := hj
  cases hcuts.symm.trans hcuts'
  rcases hcut with ⟨index, hreaches, rfl⟩ | ⟨hnone, rfl⟩
  · rcases hcut' with ⟨index', hreaches', rfl⟩ | ⟨hnone', rfl⟩
    · rw [hreaches.unique hreaches']
    · exact (hnone' index hreaches).elim
  · rcases hcut' with ⟨index', hreaches', rfl⟩ | ⟨hnone', rfl⟩
    · exact (hnone index' hreaches').elim
    · rfl

theorem CutsAt.mem {place : ℕ} (h : CutsAt entries startIndex endIndex keepRecentTokens place) :
    place ∈ findValidCutPoints entries startIndex endIndex := by
  obtain ⟨first, more, hcuts, ⟨index, -, rfl⟩ | ⟨-, rfl⟩⟩ := h
  · rw [hcuts]
    exact getD_find?_mem mem_cons_self _
  · rw [hcuts]
    exact mem_cons_self

theorem KeepsFrom.unique {i j : ℕ} (hi : KeepsFrom entries startIndex endIndex keepRecentTokens i)
    (hj : KeepsFrom entries startIndex endIndex keepRecentTokens j) : i = j := by
  obtain ⟨cut, hcut, rfl⟩ := hi
  obtain ⟨cut', hcut', rfl⟩ := hj
  rw [hcut.unique hcut']

/-- **The cut is where the kept entries begin.** -/
theorem keepsFrom_findCutPoint (hend : endIndex ≤ entries.length) (keepRecentTokens : T)
    (hcuts : findValidCutPoints entries startIndex endIndex ≠ []) :
    KeepsFrom entries startIndex endIndex keepRecentTokens
      (findCutPoint entries startIndex endIndex keepRecentTokens).firstKeptEntryIndex := by
  obtain ⟨first, more, hcons⟩ := exists_cons_of_ne_nil hcuts
  have hstart : startIndex < endIndex := by
    obtain ⟨hle, hlt⟩ := mem_indices.1 (mem_filter.1 (hcons ▸ mem_cons_self)).1
    omega
  have hrange : startIndex + (endIndex - startIndex) = endIndex := by omega
  have hspec := walkBack_spec hend keepRecentTokens first (first :: more) startIndex
    (endIndex - startIndex) hrange.le fun later hle hlt => absurd hlt (by omega)
  rw [hrange] at hspec
  have hzero : (tailTokens entries endIndex endIndex : T) = CompactionHost.zero J := by
    rw [tailTokens, slice, drop_eq_nil_of_le (length_take_le _ _)]
    rfl
  rw [hzero] at hspec
  rw [findCutPoint, hcons]
  exact ⟨_, ⟨first, more, hcons, hspec⟩, rfl⟩

/-- If turns are kept whole, what is summarised ends where the kept entries begin. -/
theorem historyEnd_of_keepsTurn (h : KeepsTurn entries startIndex keepRecentTokens) :
    historyEnd (findCutPoint entries startIndex entries.length keepRecentTokens) =
      (findCutPoint entries startIndex entries.length keepRecentTokens).firstKeptEntryIndex := by
  by_cases hcuts : findValidCutPoints entries startIndex entries.length = []
  · rw [findCutPoint, hcuts]
    rfl
  · have hkept := h _ (keepsFrom_findCutPoint le_rfl keepRecentTokens hcuts)
    obtain ⟨hlow, hhigh, hsplit⟩ := findCutPoint_bounds entries startIndex entries.length keepRecentTokens
    generalize findCutPoint entries startIndex entries.length keepRecentTokens = cutPoint
      at hkept hlow hhigh hsplit ⊢
    by_cases hturn : cutPoint.isSplitTurn = true
    · have hindex := (hsplit hturn).2
      rcases hkept with hkept | hkept
      · -- the search for the start of the turn begins with the entry that is kept first
        rw [findTurnStartIndex, reverse_indices_succ (hlow.trans hhigh), find?_cons, hkept] at hindex
        exact (Option.some.inj hindex).symm
      · have hmem := find?_some hindex
        rw [hkept _ hlow hhigh] at hmem
        cases hmem
    · rw [historyEnd, if_neg hturn]

end

/-! ### A way that grows -/

section

variable {J M T : Type} [JsonHost J M] [CompactionHost J M T]

/-- The way goes on: an entry is appended, or a compaction is prepared and its entry appended. -/
inductive GrowthStep (J M T : Type) where
  | append (entry : CompactionSessionEntry J M)
  | compact (keepRecentTokens : T) (id : Str) (record : Session.Compaction J)

/-- The way, and the windows that were handed to the ledger's builder. -/
structure Grown (J M : Type) where
  path : List (CompactionSessionEntry J M)
  windows : List (List (CompactionSessionEntry J M))

omit [JsonHost J M] [CompactionHost J M T] in
def Grown.start : Grown J M := ⟨[], []⟩

/-- A preparation whose ledger is the window that is handed to its builder. -/
def prepareWindow (path : List (CompactionSessionEntry J M)) (keepRecentTokens : T) :
    Option (CompactionPreparation J M T (List (CompactionSessionEntry J M))) :=
  prepareCompaction path keepRecentTokens (fun _ window => some window) fun _ => keepRecentTokens

def compactionEntry (id : Str) (record : Session.Compaction J) (firstKeptEntryId : Str) : CompactionSessionEntry J M :=
  ⟨id, .compaction { record with firstKeptEntryId := firstKeptEntryId }⟩

def grow (g : Grown J M) : GrowthStep J M T → Grown J M
  | .append entry => { g with path := g.path ++ [entry] }
  | .compact keepRecentTokens id record =>
    match prepareWindow g.path keepRecentTokens with
    | none => g
    | some preparation =>
      ⟨g.path ++ [compactionEntry id record preparation.firstKeptEntryId], g.windows ++ preparation.typedState.toList⟩

def growAll (g : Grown J M) (steps : List (GrowthStep J M T)) : Grown J M := steps.foldl grow g

/-- Compactions come from preparations, and have no provider's checkpoint. -/
def GrowthStep.Own : GrowthStep J M T → Prop
  | .append entry => isCompaction entry = false
  | .compact _ _ record => record.details.any hasProviderCheckpoint = false

/-- The compactions of the run keep whole turns. -/
def WholeTurns : Grown J M → List (GrowthStep J M T) → Prop
  | _, [] => True
  | g, step :: steps =>
    (∀ keepRecentTokens id record, step = .compact keepRecentTokens id record →
      KeepsTurn g.path (boundaryStart g.path) keepRecentTokens) ∧
    WholeTurns (grow g step) steps

/-- The windows are the way up to the first entry that is kept. -/
structure Covers (g : Grown J M) : Prop where
  anchored : ∀ index c, prevCompaction g.path = some (index, c) →
    ∃ i, g.path.findIdx? (fun entry => entry.id = c.firstKeptEntryId) = some i
  windows : g.windows.flatten = g.path.take (boundaryStart g.path)

theorem prevCompaction_append (path : List (CompactionSessionEntry J M))
    (entry : CompactionSessionEntry J M) : prevCompaction (path ++ [entry]) =
      ((ownCompaction entry).map fun c => (path.length, c)).or (prevCompaction path) := by
  rw [prevCompaction, zipIdx_append, Latest.latest_append, prevCompaction]
  simp [Latest.latest]

variable {g : Grown J M}

theorem Covers.append (h : Covers g) {entry : CompactionSessionEntry J M}
    (hentry : isCompaction entry = false) : Covers { g with path := g.path ++ [entry] } := by
  have hown : ownCompaction entry = none := by
    obtain ⟨id, body⟩ := entry
    cases body with
    | compaction c => cases hentry
    | _ => rfl
  have hprev : prevCompaction (g.path ++ [entry]) = prevCompaction g.path := by
    rw [prevCompaction_append, hown, Option.map_none, Option.none_or]
  have hbound : boundaryStart (g.path ++ [entry]) = boundaryStart g.path ∧ boundaryStart g.path ≤ g.path.length := by
    rw [boundaryStart, boundaryStart, hprev]
    cases hlast : prevCompaction g.path with
    | none => exact ⟨rfl, Nat.zero_le _⟩
    | some found =>
      obtain ⟨i, hi⟩ := h.anchored found.1 found.2 hlast
      dsimp only
      rw [findIdx?_append, hi]
      exact ⟨rfl, (findIdx?_eq_some_iff_findIdx_eq.1 hi).1.le⟩
  refine ⟨fun index c hc => ?_, ?_⟩
  · obtain ⟨i, hi⟩ := h.anchored index c (hprev ▸ hc)
    exact ⟨i, by rw [findIdx?_append, hi]; rfl⟩
  · rw [h.windows]
    dsimp only
    rw [hbound.1, take_append_of_le_length hbound.2]

omit [JsonHost J M] [CompactionHost J M T] in
theorem findIdx?_id_eq {path : List (CompactionSessionEntry J M)}
    (hnodup : (path.map CompactionSessionEntry.id).Nodup) {i : ℕ} {entry : CompactionSessionEntry J M}
    (h : path[i]? = some entry) : path.findIdx? (fun x => x.id = entry.id) = some i := by
  obtain ⟨hi, rfl⟩ := List.getElem?_eq_some_iff.1 h
  rw [List.findIdx?_eq_some_iff_getElem]
  refine ⟨hi, by simp, fun j hj => ?_⟩
  simp only [decide_eq_true_eq]
  intro hid
  have hi' : i < (path.map CompactionSessionEntry.id).length := by rwa [length_map]
  have hj' : j < (path.map CompactionSessionEntry.id).length := hj.trans hi'
  have hsame : (path.map CompactionSessionEntry.id)[j] = (path.map CompactionSessionEntry.id)[i] := by
    simpa using hid
  have heq := (Nodup.getElem_inj_iff hnodup).1 hsame
  omega

/-- A compaction that keeps whole turns adds the window up to what it keeps. -/
theorem Covers.compact (h : Covers g)
    (hnodup : (g.path.map CompactionSessionEntry.id).Nodup) {keepRecentTokens : T} {id : Str}
    {record : Session.Compaction J} (hrecord : record.details.any hasProviderCheckpoint = false)
    (hturn : KeepsTurn g.path (boundaryStart g.path) keepRecentTokens) :
    Covers (grow g (.compact keepRecentTokens id record)) := by
  rw [grow]
  cases hprepare : prepareWindow g.path keepRecentTokens with
  | none => exact h
  | some preparation =>
    obtain ⟨entry, hentry, -, hfirst, -, hwindow⟩ := prepareCompaction_eq_some hprepare
    have hcut := (List.getElem?_eq_some_iff.1 hentry).1
    have hbounds := findCutPoint_bounds g.path (boundaryStart g.path) g.path.length keepRecentTokens
    have hend := historyEnd_of_keepsTurn hturn
    have hle := hbounds.1.trans hbounds.2.1
    rw [← cutPointOf] at hend hle
    have hfind := findIdx?_id_eq hnodup hentry
    have hown : ownCompaction (compactionEntry id record preparation.firstKeptEntryId : CompactionSessionEntry J M) =
        some { record with firstKeptEntryId := preparation.firstKeptEntryId } := by
      simp only [ownCompaction, compactionEntry]
      rw [if_neg (by simp [hrecord])]
    have hprev : prevCompaction (g.path ++ [compactionEntry id record preparation.firstKeptEntryId]) =
        some (g.path.length, { record with firstKeptEntryId := preparation.firstKeptEntryId }) := by
      rw [prevCompaction_append, hown]
      rfl
    have hfind' : (g.path ++ [compactionEntry id record preparation.firstKeptEntryId]).findIdx?
        (fun x : CompactionSessionEntry J M => x.id = preparation.firstKeptEntryId) =
        some (cutPointOf g.path keepRecentTokens).firstKeptEntryIndex := by
      rw [hfirst, findIdx?_append, hfind]
      rfl
    refine ⟨fun index c hc => ?_, ?_⟩
    · rw [hprev] at hc
      cases hc
      exact ⟨_, hfind'⟩
    · have hboundary : boundaryStart (g.path ++ [compactionEntry id record preparation.firstKeptEntryId]) =
          (cutPointOf g.path keepRecentTokens).firstKeptEntryIndex := by
        rw [boundaryStart, hprev]
        dsimp only
        rw [hfind']
        rfl
      dsimp only
      rw [hboundary, flatten_append, h.windows, hwindow, take_append_of_le_length hcut.le, ledgerWindow, hend]
      have hzero : g.path.take (boundaryStart g.path) = slice g.path 0 (boundaryStart g.path) := rfl
      rw [hzero, Option.toList_some, flatten_singleton, slice_append_slice g.path (Nat.zero_le _) hle]
      rfl

theorem path_prefix_grow (g : Grown J M) (step : GrowthStep J M T) : g.path <+: (grow g step).path := by
  cases step with
  | append entry => exact prefix_append _ _
  | compact keepRecentTokens id record =>
    rw [grow]
    cases prepareWindow g.path keepRecentTokens with
    | none => exact prefix_rfl
    | some preparation => exact prefix_append _ _

theorem path_prefix_growAll (g : Grown J M) (steps : List (GrowthStep J M T)) : g.path <+: (growAll g steps).path := by
  induction steps generalizing g with
  | nil => exact prefix_rfl
  | cons step steps ih => exact (path_prefix_grow g step).trans (ih (grow g step))

theorem Covers.growAll (h : Covers g) {steps : List (GrowthStep J M T)} (hsteps : ∀ step ∈ steps, step.Own)
    (hnodup : ((growAll g steps).path.map CompactionSessionEntry.id).Nodup)
    (hturns : WholeTurns g steps) : Covers (growAll g steps) := by
  induction steps generalizing g with
  | nil => exact h
  | cons step steps ih =>
    rw [forall_mem_cons] at hsteps
    have hg : (g.path.map CompactionSessionEntry.id).Nodup :=
      ((path_prefix_growAll g (step :: steps)).sublist.map _).nodup hnodup
    refine ih ?_ hsteps.2 hnodup hturns.2
    cases step with
    | append entry => exact h.append hsteps.1
    | compact keepRecentTokens id record => exact h.compact hg hsteps.1 (hturns.1 keepRecentTokens id record rfl)

omit [JsonHost J M] [CompactionHost J M T] in
/-- What occurs once in lists that follow one another is in one of them. -/
theorem countP_mem_eq_one {α β : Type} [BEq β] [LawfulBEq β] {f : α → List β} {l : List α} {x : β}
    (hnodup : (l.flatMap f).Nodup) (hmem : x ∈ l.flatMap f) : l.countP (fun a => x ∈ f a) = 1 := by
  induction l with
  | nil => exact (not_mem_nil hmem).elim
  | cons a l ih =>
    rw [flatMap_cons] at hnodup hmem
    obtain ⟨-, hrest, hdisjoint⟩ := nodup_append'.1 hnodup
    by_cases ha : x ∈ f a
    · have hnone : l.countP (fun a => x ∈ f a) = 0 := by
        rw [countP_eq_zero]
        intro b hb hxb
        exact hdisjoint ha (mem_flatMap.2 ⟨b, hb, by simpa using hxb⟩)
      rw [countP_cons_of_pos (by simpa using ha), hnone]
    · rw [countP_cons_of_neg (by simpa using ha)]
      exact ih hrest ((mem_append.1 hmem).resolve_left ha)

/-- **Each message that has left the window was in one window of the ledger**, in every run whose
compactions keep whole turns. -/
theorem windows_once {steps : List (GrowthStep J M T)} (hsteps : ∀ step ∈ steps, step.Own)
    (hnodup : ((growAll .start steps).path.map CompactionSessionEntry.id).Nodup)
    (hturns : WholeTurns .start steps) {index : ℕ} {c : Session.Compaction J}
    (hlast : prevCompaction (growAll .start steps).path = some (index, c))
    {before after : List (CompactionSessionEntry J M)} {kept : CompactionSessionEntry J M}
    (hpath : (growAll .start steps).path = before ++ kept :: after) (hkept : kept.id = c.firstKeptEntryId)
    {entry : CompactionSessionEntry J M} (hentry : entry ∈ before) :
    (growAll .start steps).windows.countP (fun window => entry.id ∈ window.map (·.id)) = 1 := by
  have hcovers : Covers (growAll .start steps) :=
    Covers.growAll ⟨fun _ _ h => (Option.some_ne_none _ h.symm).elim, rfl⟩ hsteps hnodup hturns
  have hboundary : boundaryStart (growAll .start steps).path = before.length := by
    have hget : (growAll .start steps).path[before.length]? = some kept := by
      rw [hpath, getElem?_append_right le_rfl, Nat.sub_self]
      rfl
    rw [boundaryStart, hlast]
    dsimp only
    rw [← hkept, findIdx?_id_eq hnodup hget]
    rfl
  have hwindows := hcovers.windows
  rw [hboundary, hpath, take_left] at hwindows
  have hids : (growAll .start steps).windows.flatMap (fun window => window.map (·.id)) =
      before.map (·.id) := by rw [← hwindows, map_flatten, flatMap_def]
  refine countP_mem_eq_one (f := fun window : List (CompactionSessionEntry J M) => window.map (·.id))
    ?_ ?_
  · rw [hids]
    rw [hpath, map_append] at hnodup
    exact (nodup_append'.1 hnodup).1
  · rw [hids]
    exact mem_map_of_mem hentry

end

/-! ### A split turn -/

section

def messageEntry (id role text : Str) : CompactionSessionEntry SampleJson SampleJson :=
  ⟨id, .message (.stored (.said role text))⟩

def plainCompaction : Session.Compaction SampleJson := ⟨"summary", [], .text [], none, none, none⟩

/-- An answered question, and another question. -/
def askAgain : List (GrowthStep SampleJson SampleJson ℕ) :=
  [.append (messageEntry "a" "user" "question"), .append (messageEntry "b" "assistant" "answer"),
    .append (messageEntry "c" "user" "question")]

/-- A question with two answers. -/
def answerAgain : List (GrowthStep SampleJson SampleJson ℕ) :=
  [.append (messageEntry "a" "user" "question"), .append (messageEntry "b" "assistant" "answer"),
    .append (messageEntry "c" "assistant" "answer")]

theorem keepsTurn_askAgain : KeepsTurn (growAll .start askAgain).path 0 5 := by
  have hcuts : findValidCutPoints (growAll .start askAgain).path 0
    (growAll .start askAgain).path.length ≠ [] := by decide
  intro kept hkept
  have heq := hkept.unique (keepsFrom_findCutPoint le_rfl 5 hcuts)
  exact .inl (by rw [heq]; decide)

theorem windows_once_askAgain : (growAll .start (askAgain ++ [.compact 5 "d" plainCompaction])).windows.countP
      (fun window => ("b" : Str) ∈ window.map (·.id)) = 1 := by
  have hsteps : ∀ step ∈ askAgain ++ [.compact 5 "d" plainCompaction], step.Own := by
    rw [askAgain, forall_mem_append, forall_mem_cons, forall_mem_cons]
    exact ⟨⟨rfl, rfl, forall_mem_singleton.2 rfl⟩, forall_mem_singleton.2 rfl⟩
  have hturns : WholeTurns .start (askAgain ++ [.compact 5 "d" plainCompaction]) := by
    refine ⟨nofun, nofun, nofun, ?_, trivial⟩
    intro keepRecentTokens id record hstep
    cases hstep
    exact keepsTurn_askAgain
  have hlast : prevCompaction (growAll .start (askAgain ++ [.compact 5 "d" plainCompaction])).path =
      some (3, { plainCompaction with firstKeptEntryId := "c" }) := by decide
  have hpath : (growAll .start (askAgain ++ [.compact 5 "d" plainCompaction])).path =
      [messageEntry "a" "user" "question", messageEntry "b" "assistant" "answer"] ++
        messageEntry "c" "user" "question" :: [compactionEntry "d" plainCompaction "c"] := rfl
  have hmem : messageEntry "b" "assistant" "answer" ∈
      [messageEntry "a" "user" "question", messageEntry "b" "assistant" "answer"] := by simp
  exact windows_once hsteps (by decide) hturns hlast hpath rfl hmem

/-- The question is before what is kept, and in no window. -/
theorem split_turn_unprotected : ∃ (index : ℕ) (c : Session.Compaction SampleJson)
      (after : List (CompactionSessionEntry SampleJson SampleJson)),
      prevCompaction (growAll .start (answerAgain ++ [.compact 5 "d" plainCompaction])).path = some (index, c) ∧
      (growAll .start (answerAgain ++ [.compact 5 "d" plainCompaction])).path =
        [messageEntry "a" "user" "question", messageEntry "b" "assistant" "answer"] ++
          messageEntry "c" "assistant" "answer" :: after ∧
      c.firstKeptEntryId = "c" ∧
      (growAll .start (answerAgain ++ [.compact 5 "d" plainCompaction])).windows.countP
        (fun window => ("a" : Str) ∈ window.map (·.id)) = 0 :=
  ⟨3, { plainCompaction with firstKeptEntryId := "c" }, [compactionEntry "d" plainCompaction "c"],
    by decide, rfl, rfl, by decide⟩

end

end Compacting
