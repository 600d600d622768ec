/-
**What a compaction does to the context.**

The window of a compaction is found twice: the preparation looks for the entry that the last
compaction has kept first, and the context builder looks for it among the entries before that
compaction.  Both find the same place, so the messages that are summarised and those that the
context shows afterwards are the messages that it showed before, in order.

The summary is not made from exactly the messages of the context.  Harness digests are left out,
since they are made anew; a branch summary without text is a message for the summary and none of the
context; and the timestamp of a branch summary is read with its quotes, which is no date.
-/

import OptimusAgent.Compaction

namespace Compacting

open Str Session List Option Latest

section

variable {J M T : Type}

def isSummary : SessionMessage J M → Bool
  | .compactionSummary .. => true
  | _ => false

/-- The messages of a context but the summary of the last compaction. -/
def conversation (messages : List (SessionMessage J M)) : List (SessionMessage J M) :=
  messages.filter fun message => !isSummary message

/-- A message without what a compaction does not keep: no harness digest, no branch summary without
text and no timestamp of a branch summary. -/
def shown : SessionMessage J M → Option (SessionMessage J M)
  | .custom customType content display details timestamp =>
    if customType = harnessDigestCustomType then none
    else some (.custom customType content display details timestamp)
  | .branchSummary summary fromId _ =>
    if summary = [] then none else some (.branchSummary summary fromId 0)
  | message => some message

variable [JsonHost J M] [CompactionHost J M T]

/-- The message that the context shows for an entry. -/
def entryMessage (e : SessionEntry J) : Option (SessionMessage J M) :=
  (contextMessageForEntry e).map SessionContextMessage.message

omit [CompactionHost J M T] in
theorem map_filterMap_contextMessage (l : List (SessionEntry J)) :
    (l.filterMap contextMessageForEntry).map SessionContextMessage.message = l.filterMap entryMessage := by
  rw [map_filterMap]
  rfl

variable {e : SessionEntry J} {path : List (SessionEntry J)} {c : Session.Compaction J}

section

omit [CompactionHost J M T]

theorem isSummary_entryMessage {message : SessionMessage J M}
    (h : entryMessage e = some message) : isSummary message = false := by
  obtain ⟨shown, hshown, rfl⟩ := map_eq_some_iff.1 h
  rw [contextMessageForEntry] at hshown
  split at hshown
  · obtain ⟨m, -, rfl⟩ := map_eq_some_iff.1 hshown
    rfl
  · cases hshown
    rfl
  · split_ifs at hshown
    cases hshown
    rfl
  · cases hshown

theorem conversation_filterMap (l : List (SessionEntry J)) :
    conversation (l.filterMap entryMessage) = l.filterMap (entryMessage (M := M)) := by
  rw [conversation, filter_eq_self]
  intro message hmessage
  obtain ⟨e, -, he⟩ := mem_filterMap.1 hmessage
  rw [isSummary_entryMessage he]
  rfl

end

/-! ### One entry -/

/-- The messages of an entry, for the context and for the summary, are the same where they are
shown. -/
theorem shown_entry (hread : ∀ value, e.body = .message value → (JsonHost.message value).isSome = true) :
    (getMessageFromEntryForCompaction (compactionSessionEntryFrom e)).bind shown =
      (entryMessage e : Option (SessionMessage J M)).bind shown := by
  obtain ⟨id, parentId, timestamp, body⟩ := e
  cases body with
  | message value =>
    obtain ⟨message, hmessage⟩ := isSome_iff_exists.1 (hread value rfl)
    simp only [compactionSessionEntryFrom, agentMessageFromValue, getMessageFromEntryForCompaction,
      entryMessage, contextMessageForEntry, hmessage]
    rfl
  | customMessage customType content display details =>
    simp only [compactionSessionEntryFrom, getMessageFromEntryForCompaction, entryMessage,
      contextMessageForEntry, map_some, bind_some]
    by_cases hdigest : customType = harnessDigestCustomType
    · rw [if_pos hdigest, shown, if_pos hdigest]
      rfl
    · rw [if_neg hdigest]
      rfl
  | branchSummary summary fromId =>
    simp only [compactionSessionEntryFrom, getMessageFromEntryForCompaction, entryMessage, contextMessageForEntry]
    by_cases hempty : summary = []
    · rw [if_pos hempty, bind_some, shown, if_pos hempty]
      rfl
    · rw [if_neg hempty, bind_some, shown, if_neg hempty, map_some, bind_some, shown, if_neg hempty]
  | _ => rfl

theorem shown_entries {l : List (SessionEntry J)}
    (hread : ∀ e ∈ l, ∀ value, e.body = .message value → (JsonHost.message value).isSome = true) :
    ((l.map compactionSessionEntryFrom).filterMap getMessageFromEntryForCompaction).filterMap shown =
      (l.filterMap entryMessage : List (SessionMessage J M)).filterMap shown := by
  rw [filterMap_map, filterMap_filterMap, filterMap_filterMap]
  exact filterMap_congr fun e he => shown_entry (hread e he)

/-! ### The window -/

/-- A way without the checkpoints of providers. -/
def Own (e : SessionEntry J) : Prop := ∀ c, e.compaction? = some c → c.details.any hasProviderCheckpoint = false

section

omit [CompactionHost J M T]

theorem Own.getProviderCheckpoint_eq_none (h : Own e)
    (hc : e.compaction? = some c) : c.details.bind getProviderCheckpoint = none := by
  have hdetails := h c hc
  cases hsome : c.details with
  | none => rfl
  | some details =>
    rw [hsome, any_some, hasProviderCheckpoint, Bool.or_eq_false_iff] at hdetails
    have hfield : JsonHost.field details "providerCheckpoint" = none := by simpa using hdetails.1
    rw [bind_some, getProviderCheckpoint, hfield]
    dsimp only
    rw [if_neg (by simp [hdetails.2])]

theorem Own.usableCompaction_eq (h : Own e) (model : Option CheckpointModelTarget) :
    usableCompaction model e = e.compaction?.map fun c => (e, c) := by
  cases hc : e.compaction? with
  | none => rw [usableCompaction, hc]; rfl
  | some c =>
    refine usableCompaction_eq_some_iff.2 ⟨rfl, hc, ?_⟩
    have hdetails := h c hc
    rw [Compaction.applies]
    cases hsome : c.details with
    | none => rfl
    | some details =>
      rw [hsome, any_some] at hdetails
      simp [hdetails]

theorem lastCompaction_eq (h : ∀ e ∈ path, Own e) (model : Option CheckpointModelTarget) :
    lastCompaction model path = latest (fun e => e.compaction?.map fun c => (e, c)) path := by
  induction path with
  | nil => rfl
  | cons e path ih =>
    rw [forall_mem_cons] at h
    rw [lastCompaction_cons, ih h.2, latest_cons, h.1.usableCompaction_eq]

theorem entryMessage_of_compaction (h : e.compaction? = some c) :
    (entryMessage e : Option (SessionMessage J M)) = none := by
  obtain ⟨id, parentId, timestamp, body⟩ := e
  cases body with
  | compaction c => rfl
  | _ => cases h

end

theorem ownCompaction_from (h : Own e) :
    ownCompaction (compactionSessionEntryFrom e : CompactionSessionEntry J M) = e.compaction? := by
  obtain ⟨id, parentId, timestamp, body⟩ := e
  cases body with
  | compaction c =>
    have hdetails := h c rfl
    simp only [compactionSessionEntryFrom, ownCompaction, SessionEntry.compaction?]
    rw [if_neg (by simp [hdetails])]
  | _ => rfl

theorem latest_ownCompaction_eq_none {l : List (SessionEntry J)} (h : ∀ e ∈ l, e.compaction? = none)
    (n : ℕ) : latest (fun p => (ownCompaction p.1).map fun compaction => (p.2, compaction))
      ((l.map compactionSessionEntryFrom : List (CompactionSessionEntry J M)).zipIdx n) = none := by
  rw [latest_eq_none_iff]
  intro p hp
  obtain ⟨e, he, hfrom⟩ := mem_map.1 (fst_mem_of_mem_zipIdx hp)
  have hown : Own e := by
    intro c hc
    rw [h e he] at hc
    cases hc
  rw [← hfrom, ownCompaction_from hown, h e he]
  rfl

/-- Without a compaction the window is the whole way. -/
theorem boundaryStart_of_none (h : ∀ e ∈ path, e.compaction? = none) :
    boundaryStart (path.map compactionSessionEntryFrom : List (CompactionSessionEntry J M)) = 0 := by
  rw [boundaryStart, prevCompaction, latest_ownCompaction_eq_none h]

/-- Where the window begins after a compaction. -/
theorem boundaryStart_of_split {before after : List (SessionEntry J)}
    (he : Own e) (hc : e.compaction? = some c)
    (hafter : ∀ x ∈ after, x.compaction? = none) :
    boundaryStart ((before ++ e :: after).map compactionSessionEntryFrom : List (CompactionSessionEntry J M)) =
      ((before ++ e :: after).findIdx? fun x => x.id = c.firstKeptEntryId).getD
        (before.length + 1) := by
  have hsome : prevCompaction ((before ++ e :: after).map compactionSessionEntryFrom :
      List (CompactionSessionEntry J M)) = some (before.length, c) := by
    rw [prevCompaction, map_append, zipIdx_append, latest_append, map_cons,
      zipIdx_cons, latest_cons, latest_ownCompaction_eq_none hafter, none_or,
      ownCompaction_from he, hc, map_some, some_or, length_map, Nat.zero_add]
  have hfind : ((before ++ e :: after).map compactionSessionEntryFrom :
      List (CompactionSessionEntry J M)).findIdx? (fun entry => entry.id = c.firstKeptEntryId) =
      (before ++ e :: after).findIdx? fun x => x.id = c.firstKeptEntryId := by
    rw [findIdx?_map]
    rfl
  rw [boundaryStart, hsome]
  dsimp only
  rw [hfind]

omit [CompactionHost J M T] in
/-- The conversation after a compaction: what it keeps, and what follows it. -/
theorem conversation_split {model : Option CheckpointModelTarget} {before after : List (SessionEntry J)}
    (hnodup : ((before ++ e :: after).map SessionEntry.id).Nodup) (he : Own e)
    (hc : e.compaction? = some c) (hafter : ∀ x ∈ after, x.compaction? = none) :
    conversation ((contextMessages model (before ++ e :: after)).map SessionContextMessage.message) =
      (if c.firstKeptEntryId = [] then []
        else (before.dropWhile fun x => x.id ≠ c.firstKeptEntryId)).filterMap entryMessage ++
      (after.filterMap entryMessage : List (SessionMessage J M)) := by
  have husable : usableCompaction model e = some (e, c) := by rw [he.usableCompaction_eq, hc]; rfl
  have hlast : lastCompaction model after = none := by
    refine latest_eq_none_iff.2 fun x hx => ?_
    rw [usableCompaction, hafter x hx]
    rfl
  have hnone : ¬ ((c.details.bind getProviderCheckpoint).isSome = true ∨ c.firstKeptEntryId = []) ↔
      ¬ c.firstKeptEntryId = [] := by
    rw [he.getProviderCheckpoint_eq_none hc]
    simp
  have hretained : (retainedMessages c before).map SessionContextMessage.message = ((if c.firstKeptEntryId = [] then []
        else (before.dropWhile fun x => x.id ≠ c.firstKeptEntryId)).filterMap entryMessage :
          List (SessionMessage J M)) := by
    rw [retainedMessages_eq]
    by_cases hempty : c.firstKeptEntryId = []
    · rw [if_pos (Or.inr hempty), if_pos hempty]
      rfl
    · rw [if_neg (hnone.2 hempty), if_neg hempty, map_filterMap_contextMessage]
  rw [contextMessages_split hnodup husable hlast, map_cons, map_append, hretained,
    map_filterMap_contextMessage, conversation, filter_cons_of_neg (by simp [compactionSummary, isSummary]),
    filter_append]
  exact congrArg₂ _ (conversation_filterMap _) (conversation_filterMap _)

/-- No compaction keeps an entry that comes after it. -/
def KeepsEarlier (path : List (SessionEntry J)) : Prop :=
  ∀ before e after c, path = before ++ e :: after → e.compaction? = some c → ∀ x ∈ after, x.id ≠ c.firstKeptEntryId

/-- **The context shows the window of the next compaction.** -/
theorem conversation_contextMessages (hnodup : (path.map SessionEntry.id).Nodup)
    (hid : ∀ e ∈ path, e.id ≠ []) (hown : ∀ e ∈ path, Own e)
    (hkeeps : KeepsEarlier path) (model : Option CheckpointModelTarget) :
    conversation ((contextMessages model path).map SessionContextMessage.message) =
      ((path.drop (boundaryStart (path.map compactionSessionEntryFrom :
        List (CompactionSessionEntry J M)))).filterMap entryMessage : List (SessionMessage J M)) := by
  cases hlast : latest (fun e : SessionEntry J => e.compaction?.map fun c => (e, c)) path with
  | none =>
    have hnone : ∀ e ∈ path, e.compaction? = none := fun e he =>
      map_eq_none_iff.1 (latest_eq_none_iff.1 hlast e he)
    rw [boundaryStart_of_none hnone, drop_zero, contextMessages_of_none ((lastCompaction_eq hown model).trans hlast),
      map_filterMap_contextMessage, conversation_filterMap]
  | some found =>
    obtain ⟨before, e, after, rfl, he, hrest⟩ := exists_of_latest hlast
    obtain ⟨c, hc, -⟩ := map_eq_some_iff.1 he
    have hafter : ∀ x ∈ after, x.compaction? = none := fun x hx =>
      map_eq_none_iff.1 (latest_eq_none_iff.1 hrest x hx)
    have heown : Own e := hown e (by simp)
    rw [conversation_split hnodup heown hc hafter, boundaryStart_of_split heown hc hafter]
    have hlater := hkeeps before e after c rfl hc
    have hsilent := entryMessage_of_compaction (M := M) hc
    by_cases hbefore : ∃ x ∈ before, x.id = c.firstKeptEntryId
    · -- the first kept entry is found before the compaction by both
      obtain ⟨x, hx, hxid⟩ := hbefore
      have hne : c.firstKeptEntryId ≠ [] := hxid ▸ hid x (by simp [hx])
      obtain ⟨i, hi⟩ : ∃ i, before.findIdx? (fun x => x.id = c.firstKeptEntryId) = some i := by
        rw [← isSome_iff_exists, findIdx?_isSome]
        exact any_eq_true.2 ⟨x, hx, decide_eq_true hxid⟩
      have hdrop : before.dropWhile (fun x => x.id ≠ c.firstKeptEntryId) = before.drop i := by
        rw [dropWhile_eq_drop_findIdx_not]
        simp only [decide_not, Bool.not_not]
        rw [findIdx_eq_getD_findIdx?, hi, getD_some]
      have hlength : i ≤ before.length := (findIdx?_eq_some_iff_findIdx_eq.1 hi).1.le
      rw [if_neg hne, hdrop, findIdx?_append, hi, some_or, getD_some,
        drop_append_of_le_length hlength, filterMap_append, filterMap_cons, hsilent]
    · have hnotBefore : before.findIdx? (fun x => x.id = c.firstKeptEntryId) = none := by
        rw [findIdx?_eq_none_iff]
        intro x hx
        exact decide_eq_false fun hxid => hbefore ⟨x, hx, hxid⟩
      have hnil : before.dropWhile (fun x => x.id ≠ c.firstKeptEntryId) = [] := by
        rw [dropWhile_eq_nil_iff]
        intro x hx
        exact decide_eq_true fun hxid => hbefore ⟨x, hx, hxid⟩
      have hnotAfter : after.findIdx? (fun x => x.id = c.firstKeptEntryId) = none := by
        rw [findIdx?_eq_none_iff]
        intro x hx
        exact decide_eq_false (hlater x hx)
      rw [hnil, ite_self, filterMap_nil, nil_append, findIdx?_append, hnotBefore, none_or, findIdx?_cons, hnotAfter]
      by_cases hself : e.id = c.firstKeptEntryId
      · rw [if_pos (decide_eq_true hself), map_some, Nat.zero_add, getD_some, drop_left, filterMap_cons, hsilent]
      · rw [if_neg (by simpa using hself)]
        simp only [map_none, getD_none]
        rw [show before ++ e :: after = (before ++ [e]) ++ after by simp, drop_left' (by simp)]

/-! ### A compaction -/

omit [JsonHost J M] [CompactionHost J M T] in
theorem dropWhile_id_ne_eq_drop (hnodup : (path.map SessionEntry.id).Nodup) {i : ℕ} (he : path[i]? = some e) :
    path.dropWhile (fun x => x.id ≠ e.id) = path.drop i := by
  obtain ⟨hi, rfl⟩ := List.getElem?_eq_some_iff.1 he
  have hsplit : path = path.take i ++ path[i] :: path.drop (i + 1) := by
    rw [← drop_eq_getElem_cons hi, take_append_drop]
  have hne : ∀ x ∈ path.take i, x.id ≠ path[i].id := by
    intro x hx hxid
    obtain ⟨j, hj, rfl⟩ := mem_take_iff_getElem.1 hx
    have hi' : i < (path.map SessionEntry.id).length := by rwa [length_map]
    have hj' : j < (path.map SessionEntry.id).length := by rw [length_map]; omega
    have hsame : (path.map SessionEntry.id)[j] = (path.map SessionEntry.id)[i] := by simpa using hxid
    have heq := (Nodup.getElem_inj_iff hnodup).1 hsame
    omega
  have hdrop : (path.take i ++ path[i] :: path.drop (i + 1)).dropWhile (fun x => x.id ≠ path[i].id) =
      path[i] :: path.drop (i + 1) := by
    rw [dropWhile_append_of_pos (by simpa using hne), dropWhile_cons_of_neg (by simp)]
  rw [← hsplit] at hdrop
  rw [hdrop, drop_eq_getElem_cons hi]

/-- **What is summarised and what is kept is what was shown**: the messages that a context shows
after a compaction are the last of those it showed before, and the others are those that are
summarised, but for harness digests, branch summaries without text and the timestamps of branch
summaries. -/
theorem summarized_or_kept {L : Type} {path : List (SessionEntry J)}
    (hnodup : (path.map SessionEntry.id).Nodup) (hid : ∀ e ∈ path, e.id ≠ []) (hown : ∀ e ∈ path, Own e)
    (hkeeps : KeepsEarlier path)
    (hread : ∀ e ∈ path, ∀ value, e.body = .message value → (JsonHost.message value).isSome = true)
    {keepRecentTokens : T}
    {buildLedger : Option (Session.Compaction J) → List (CompactionSessionEntry J M) → Option L}
    {buildSessionContext : List (CompactionSessionEntry J M) → T}
    {preparation : CompactionPreparation J M T L}
    (hprepare : prepareCompaction (path.map compactionSessionEntryFrom) keepRecentTokens buildLedger
      buildSessionContext = some preparation)
    {e : SessionEntry J} {c : Session.Compaction J} (he : Own e) (hc : e.compaction? = some c)
    (hfirst : c.firstKeptEntryId = preparation.firstKeptEntryId) (hfresh : e.id ∉ path.map SessionEntry.id)
    (target target' : Option Model) :
    ∃ left, conversation (contextOfPath target path).messages =
        left ++ conversation (contextOfPath target' (path ++ [e])).messages ∧
      (preparation.messagesToSummarize ++ preparation.turnPrefixMessages).filterMap shown =
        left.filterMap shown := by
  obtain ⟨entry, hentry, hne, hpfirst, hmessages, -⟩ := prepareCompaction_eq_some hprepare
  have hshown := conversation_contextMessages (M := M) hnodup hid hown hkeeps
  generalize hentries : (path.map compactionSessionEntryFrom : List (CompactionSessionEntry J M)) = entries
    at hprepare hentry hmessages hshown
  obtain ⟨hlow, hhigh, -⟩ := findCutPoint_bounds entries (boundaryStart entries) entries.length
    keepRecentTokens
  rw [← cutPointOf] at hlow hhigh
  have hcut := hlow.trans hhigh
  generalize (cutPointOf entries keepRecentTokens).firstKeptEntryIndex = cut at hentry hmessages hcut
  rw [← hentries, getElem?_map] at hentry
  obtain ⟨first, hfirstEntry, rfl⟩ := map_eq_some_iff.1 hentry
  have hfirstId : c.firstKeptEntryId = first.id := hfirst.trans hpfirst
  have hafter : conversation (contextOfPath target' (path ++ [e])).messages =
      ((path.drop cut).filterMap entryMessage : List (SessionMessage J M)) := by
    have hnodup' : ((path ++ e :: []).map SessionEntry.id).Nodup := by
      rw [map_append, nodup_append']
      exact ⟨hnodup, nodup_singleton _, by simpa using hfresh⟩
    have hfirstNe : ¬ first.id = [] := hne
    rw [contextOfPath]
    dsimp only
    rw [conversation_split hnodup' he hc (fun _ h => (not_mem_nil h).elim), hfirstId,
      if_neg hfirstNe, dropWhile_id_ne_eq_drop hnodup hfirstEntry, filterMap_nil, append_nil]
  refine ⟨(slice path (boundaryStart entries) cut).filterMap entryMessage, ?_, ?_⟩
  · rw [hafter, ← filterMap_append, contextOfPath]
    dsimp only
    have hsplit : path.drop (boundaryStart entries) = slice path (boundaryStart entries) cut ++ path.drop cut := by
      have hlt : cut ≤ path.length := (List.getElem?_eq_some_iff.1 hfirstEntry).1.le
      rw [← slice_length_eq_drop, ← slice_length_eq_drop path cut, slice_append_slice path hcut hlt]
    rw [hshown, ← hsplit]
  · have hslice : slice entries (boundaryStart entries) cut =
        (slice path (boundaryStart entries) cut).map compactionSessionEntryFrom := by
      rw [slice, slice, ← hentries, map_drop, map_take]
    rw [hmessages, hslice]
    exact shown_entries fun x hx => hread x (mem_of_mem_take (mem_of_mem_drop hx))

end

/-! ### A harness digest -/

section

instance sampleCompactionHost : CompactionHost SampleJson SampleJson ℕ where
  role := messageRole
  emptyText := .text []
  jsonText text := '"' :: text ++ ['"']
  estimateTokens message :=
    match message with
    | .stored value => (textField value "content").length
    | .custom _ content _ _ _ => content.toText.length
    | .branchSummary summary _ _ => summary.length
    | .compactionSummary summary .. => summary.length
  contentTokens content := content.toText.length
  summaryTokens := length
  zero := 0
  add := (· + ·)
  ge a b := b ≤ a

def saidEntry (id : Str) (parentId : Option Str) (role text : Str) : SessionEntry SampleJson :=
  ⟨id, parentId, "t", .message (.said role text)⟩

/-- A question with a harness digest before its answer, and another question. -/
def digestPath : List (SessionEntry SampleJson) := [saidEntry "a" none "user" "question",
    ⟨"b", some "a", "t", .customMessage harnessDigestCustomType (.text "state") false none⟩,
    saidEntry "c" (some "b") "assistant" "answer", saidEntry "d" (some "c") "user" "question"]

def keptFrom (firstKeptEntryId : Str) : SessionEntry SampleJson :=
  ⟨"e", some "d", "t", .compaction ⟨"summary", firstKeptEntryId, .text [], none, none, none⟩⟩

def preparedDigestPath : Option (CompactionPreparation SampleJson SampleJson ℕ Unit) :=
  prepareCompaction (digestPath.map compactionSessionEntryFrom) 5 (fun _ _ => none) fun _ => 0

theorem preparedDigestPath_eq : preparedDigestPath = some ⟨"d", [.stored (.said "user" "question"),
    .stored (.said "assistant" "answer")], [], false, 0, none⟩ := by decide

/-- The conversation goes on after a compaction. -/
def continuedPath : List (SessionEntry SampleJson) := digestPath ++ [keptFrom "d",
  saidEntry "f" (some "e") "assistant" "answer", saidEntry "g" (some "f") "user" "question"]

/-- The next compaction. -/
def keptAgain : SessionEntry SampleJson :=
  ⟨"h", some "g", "t", .compaction ⟨"summary", "g", .text [], none, none, none⟩⟩

theorem preparedContinuedPath_eq : prepareCompaction (continuedPath.map compactionSessionEntryFrom) 5
    (fun _ _ => none) (fun _ => 0) = some (⟨"g", [.stored (.said "user" "question"),
      .stored (.said "assistant" "answer")], [], false, 0, none⟩ :
        CompactionPreparation SampleJson SampleJson ℕ Unit) := by decide

theorem keepsEarlier_continuedPath : KeepsEarlier continuedPath := by
  intro before e after c hpath hc
  have hplaces : ∀ i < 7, ∀ e ∈ continuedPath[i]?, ∀ c ∈ e.compaction?,
      ∀ x ∈ continuedPath.drop (i + 1), x.id ≠ c.firstKeptEntryId := by decide
  have hlength : before.length < 7 := by
    have hsum := congrArg length hpath
    rw [length_append, length_cons, show continuedPath.length = 7 from rfl] at hsum
    omega
  have hafter := hplaces before.length hlength e (by simp [hpath]) c hc
  rwa [hpath, drop_append, drop_eq_nil_of_le (by omega), Nat.add_sub_cancel_left] at hafter

theorem summarized_or_kept_again : ∃ left, conversation (contextOfPath none continuedPath).messages =
        left ++ conversation (contextOfPath none (continuedPath ++ [keptAgain])).messages ∧
      ([.stored (.said "user" "question"), .stored (.said "assistant" "answer")] ++ [] :
        List (SessionMessage SampleJson SampleJson)).filterMap shown = left.filterMap shown := by
  have hown : ∀ e ∈ continuedPath, ∀ c ∈ e.compaction?, c.details.any hasProviderCheckpoint = false := by
    decide
  have hkept : Own keptAgain := by
    intro c hc
    cases hc
    rfl
  exact summarized_or_kept (by decide) (by decide) hown keepsEarlier_continuedPath (fun _ _ _ _ => rfl)
    preparedContinuedPath_eq hkept rfl rfl (by decide) none none

/-- The digest is neither summarised nor kept. -/
theorem digest_not_summarized : ∃ preparation, preparedDigestPath = some preparation ∧
      preparation.messagesToSummarize ++ preparation.turnPrefixMessages ++ conversation (contextOfPath none
            (digestPath ++ [keptFrom preparation.firstKeptEntryId])).messages ≠
        conversation (contextOfPath none digestPath).messages :=
  ⟨_, preparedDigestPath_eq, by decide⟩

end

end Compacting
