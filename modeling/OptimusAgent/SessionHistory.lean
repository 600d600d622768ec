/-
**The history of a session, in the order of its transcript.**

The context for a model begins with the summary of a compaction, before the messages that the
compaction kept.  Clients show the same messages in the order in which they were said, so the
summary is moved behind as many messages as it says were kept.  This module embeds
`order_session_context_for_transcript` and `build_session_history` of `core/session_manager.rs`, and
the operations that append entries and move the leaf.

A stored message may itself be a summary, with a count and a timestamp of its own; what it says is a
parameter.  A count is a natural number here, where the source has a floating-point number that is
compared with its whole part.
-/

import OptimusAgent.Session

namespace Session

open Str Ancestry List

/-! ### The order of the transcript -/

/-- What the order takes from stored messages. -/
class TranscriptHost (M : Type) where
  /-- For a summary of a compaction: how many messages it kept, if that is a whole number, and when
  it was made. -/
  summary : M → Option (Option ℕ × ℤ)
  timestamp : M → ℤ

structure SessionHistorySnapshot (J M : Type) where
  messages : List (SessionMessage J M)
  entryIds : List Str
  tipEntryId : Option Str

section

variable {J M : Type} [TranscriptHost M]

/-- The count and the timestamp of a summary; other messages have other roles. -/
def SessionMessage.summary? : SessionMessage J M → Option (Option ℕ × ℤ)
  | .stored message => TranscriptHost.summary message
  | .compactionSummary _ _ timestamp _ retainedMessageCount _ _ => some (some retainedMessageCount, timestamp)
  | _ => none

def messageTimestamp : SessionMessage J M → ℤ
  | .stored message => TranscriptHost.timestamp message
  | .custom _ _ _ _ timestamp => timestamp
  | .branchSummary _ _ timestamp => timestamp
  | .compactionSummary _ _ timestamp _ _ _ _ => timestamp

/-- Behind how many of the other messages a summary stands. -/
def summaryBoundary (summary : Option ℕ × ℤ) (remaining : List (SessionMessage J M × Str)) : ℕ :=
  match summary.1 with
  | some count => min count remaining.length
  | none => (remaining.filter fun pair => messageTimestamp pair.1 < summary.2).length

/-- Moves the first summary to its place. -/
def orderPairs (pairs : List (SessionMessage J M × Str)) : List (SessionMessage J M × Str) :=
  match pairs.findIdx? fun pair => pair.1.summary?.isSome with
  | none => pairs
  | some summaryIndex =>
    let remaining := pairs.eraseIdx summaryIndex
    let boundary := ((pairs[summaryIndex]?.bind fun pair => pair.1.summary?).map fun summary =>
      summaryBoundary summary remaining).getD 0
    remaining.take boundary ++ pairs[summaryIndex]?.toList ++ remaining.drop boundary

def orderSessionContextForTranscript (context : SessionContext J M) : SessionHistorySnapshot J M :=
  let pairs := orderPairs (context.messages.zip context.entryIds)
  ⟨pairs.map Prod.fst, pairs.map Prod.snd, none⟩

end

section

variable {J M : Type} [JsonHost J M] [TranscriptHost M]

/-- The history of a tip, by default of the leaf. -/
def SessionManager.buildSessionHistory (m : SessionManager J) (tipEntryId : Option Str) (target : Option Model) :
    Except Str (SessionHistorySnapshot J M) :=
  let effectiveTip := tipEntryId.or m.leafId
  match effectiveTip.filter fun tip => !m.byId.contains tip with
  | some tip => .error ("Session history tip no longer exists: " ++ tip)
  | none =>
    let context := buildSessionContext m.fileEntries (some effectiveTip) (some m.byId) target
    .ok { orderSessionContextForTranscript context with tipEntryId := effectiveTip }

/-! ### Summaries -/

/-- A message entry with the role of a summary. -/
def SessionEntry.CarriesSummary (e : SessionEntry J) : Prop :=
  ∃ value message, e.body = .message value ∧ JsonHost.message value = some message ∧
    (TranscriptHost.summary message).isSome = true

def SessionContextMessage.pair (m : SessionContextMessage J M) : SessionMessage J M × Str := (m.message, m.entryId)

omit [TranscriptHost M] in
theorem entryId_of_contextMessageForEntry {e : SessionEntry J} {m : SessionContextMessage J M}
    (h : contextMessageForEntry e = some m) : m.entryId = e.id := by
  unfold contextMessageForEntry at h
  split at h
  · obtain ⟨message, -, rfl⟩ := Option.map_eq_some_iff.1 h
    rfl
  · cases h
    rfl
  · split_ifs at h
    cases h
    rfl
  · cases h

theorem summary?_of_contextMessageForEntry {e : SessionEntry J} (he : ¬ e.CarriesSummary)
    {m : SessionContextMessage J M} (h : contextMessageForEntry e = some m) : m.message.summary? = none := by
  unfold contextMessageForEntry at h
  split at h
  · rename_i value hbody
    obtain ⟨message, hmessage, rfl⟩ := Option.map_eq_some_iff.1 h
    by_contra hsome
    exact he ⟨value, message, hbody, hmessage, Option.isSome_iff_ne_none.2 hsome⟩
  · cases h
    rfl
  · split_ifs at h
    cases h
    rfl
  · cases h

omit [TranscriptHost M] in
/-- The messages of entries have the ids of these entries, in their order. -/
theorem map_entryId_sublist (path : List (SessionEntry J)) :
    ((path.filterMap contextMessageForEntry).map (SessionContextMessage.entryId (M := M))).Sublist
      (path.map SessionEntry.id) := by
  induction path with
  | nil => exact Sublist.refl _
  | cons e path ih =>
    cases hm : (contextMessageForEntry e : Option (SessionContextMessage J M)) with
    | none =>
      rw [filterMap_cons_none hm]
      exact ih.cons _
    | some m =>
      rw [filterMap_cons_some hm, map_cons, map_cons, entryId_of_contextMessageForEntry hm]
      exact ih.cons_cons _

omit [TranscriptHost M] in
theorem retainedMessages_sublist (c : Compaction J) (before : List (SessionEntry J)) :
    ((retainedMessages c before).map (SessionContextMessage.entryId (M := M))).Sublist
      (before.map SessionEntry.id) := by
  rw [retainedMessages]
  split_ifs
  · exact (map_entryId_sublist _).trans ((drop_sublist _ _).map _)
  · exact nil_sublist _

/-! ### The messages of a way in order -/

omit [JsonHost J M] in
theorem orderPairs_of_no_summary {pairs : List (SessionMessage J M × Str)}
    (h : ∀ pair ∈ pairs, pair.1.summary? = none) : orderPairs pairs = pairs := by
  have hnone : pairs.findIdx? (fun pair => pair.1.summary?.isSome) = none := by
    rw [findIdx?_eq_none_iff]
    intro pair hpair
    rw [h pair hpair]
    rfl
  rw [orderPairs, hnone]

omit [JsonHost J M] in
/-- A summary at the front goes behind the messages that it counts. -/
theorem orderPairs_cons {summary : SessionMessage J M × Str} {kept after : List (SessionMessage J M × Str)}
    {timestamp : ℤ} (h : summary.1.summary? = some (some kept.length, timestamp)) :
    orderPairs (summary :: (kept ++ after)) = kept ++ summary :: after := by
  have hindex : (summary :: (kept ++ after)).findIdx? (fun pair => pair.1.summary?.isSome) = some 0 := by
    rw [findIdx?_cons, h]
    rfl
  have hboundary : min kept.length (kept ++ after).length = kept.length := by
    rw [length_append]
    omega
  rw [orderPairs, hindex]
  simp only [eraseIdx_zero, tail_cons, getElem?_cons_zero, Option.bind_some, h, Option.map_some,
    summaryBoundary, Option.getD_some, hboundary, take_left, drop_left, Option.toList_some,
    append_assoc, singleton_append]

/-- **The order of a context**: without a compaction the messages stay as they are; with one, what
it kept comes before its summary. -/
theorem orderPairs_contextMessages {path : List (SessionEntry J)} (hnodup : (path.map SessionEntry.id).Nodup)
    (hpath : ∀ e ∈ path, ¬ e.CarriesSummary) (model : Option CheckpointModelTarget) :
    (orderPairs ((contextMessages model path).map SessionContextMessage.pair)).Perm
        ((contextMessages model path).map SessionContextMessage.pair) ∧
      ((orderPairs ((contextMessages model path).map SessionContextMessage.pair)).map Prod.snd).Sublist
        (path.map SessionEntry.id) := by
  cases hlast : lastCompaction model path with
  | none =>
    rw [contextMessages_of_none hlast, orderPairs_of_no_summary]
    · refine ⟨Perm.refl _, ?_⟩
      rw [map_map]
      exact map_entryId_sublist path
    · intro pair hpair
      obtain ⟨m, hm, rfl⟩ := mem_map.1 hpair
      obtain ⟨e, he, hmessage⟩ := mem_filterMap.1 hm
      exact summary?_of_contextMessageForEntry (hpath e he) hmessage
  | some found =>
    obtain ⟨before, e, after, rfl, he, hafter⟩ := Latest.exists_of_latest hlast
    obtain ⟨e', c⟩ := found
    obtain ⟨rfl, -⟩ := usableCompaction_eq_some_iff.1 he
    rw [contextMessages_split hnodup he hafter, map_cons, map_append, orderPairs_cons]
    · refine ⟨perm_middle, ?_⟩
      rw [map_append, map_cons, map_map, map_map, map_append, map_cons]
      exact (retainedMessages_sublist c before).append ((map_entryId_sublist after).cons_cons _)
    · rw [length_map]
      rfl

/-! ### The history of a tip -/

omit [TranscriptHost M] in
theorem zip_contextOfPath (target : Option Model) (path : List (SessionEntry J)) :
    (contextOfPath target path).messages.zip (contextOfPath target path).entryIds =
      (contextMessages (checkpointModel target (settingsOf path)) path).map SessionContextMessage.pair := by
  rw [contextOfPath, zip_map', map_congr_left]
  exact fun _ _ => rfl

omit [TranscriptHost M] in
/-- The context of a tip that is known, or of none, is that of the way to it. -/
theorem buildSessionContext_tip (m : SessionManager J) (tip : Option Str) (target : Option Model)
    (htip : ∀ id ∈ tip, (m.byId.get? id).isSome = true) :
    buildSessionContext m.fileEntries (some tip) (some m.byId) target =
      contextOfPath target (pathTo m.byId (tip.bind m.byId.get?)) := by
  cases tip with
  | none => rfl
  | some id =>
    obtain ⟨e, he⟩ := Option.isSome_iff_exists.1 (htip id rfl)
    rw [buildSessionContext, Option.getD_some, Option.bind_some, he]
    rfl

/-- **The history is in the order of the path**: a tip that is not known is an error.  Otherwise the
entry ids are a subsequence of those on the way from the root to the tip, on which no entry is
repeated, and the messages with their ids are those of the context. -/
theorem SessionManager.buildSessionHistory_path_order (m : SessionManager J) (tip : Option Str)
    (target : Option Model) (hsummary : ∀ id e, m.byId.get? id = some e → ¬ e.CarriesSummary) :
    (∃ id, tip.or m.leafId = some id ∧ m.byId.get? id = none ∧ m.buildSessionHistory tip target =
        .error ("Session history tip no longer exists: " ++ id)) ∨
      ∃ (snapshot : SessionHistorySnapshot J M) (path : List (SessionEntry J)),
        m.buildSessionHistory tip target = .ok snapshot ∧
        Ascends m.byId.get? SessionEntry.id SessionEntry.parentId [] ((tip.or m.leafId).bind m.byId.get?)
          path.reverse ∧
        (path.map SessionEntry.id).Nodup ∧ snapshot.entryIds.Sublist (path.map SessionEntry.id) ∧
        snapshot.messages.length = snapshot.entryIds.length ∧
        (snapshot.messages.zip snapshot.entryIds).Perm
          ((buildSessionContext m.fileEntries (some (tip.or m.leafId)) (some m.byId) target).messages.zip
            (buildSessionContext m.fileEntries (some (tip.or m.leafId)) (some m.byId) target).entryIds) := by
  rw [SessionManager.buildSessionHistory]
  generalize tip.or m.leafId = effectiveTip
  dsimp only
  cases hmissing : effectiveTip.filter fun id => !m.byId.contains id with
  | some id =>
    obtain ⟨hid, hunknown⟩ := Option.filter_eq_some_iff.1 hmissing
    refine .inl ⟨id, hid, ?_, rfl⟩
    simpa [IndexMap.contains] using hunknown
  | none =>
    have htip : ∀ id ∈ effectiveTip, (m.byId.get? id).isSome = true := by
      intro id hid
      rw [Option.isSome_iff_ne_none]
      simpa [IndexMap.contains] using Option.filter_eq_none_iff.1 hmissing id hid
    have hwalk := ascends_pathTo m.byId (effectiveTip.bind m.byId.get?)
    have hpath : ∀ e ∈ pathTo m.byId (effectiveTip.bind m.byId.get?), ¬ e.CarriesSummary := by
      intro e he
      obtain ⟨id, hid⟩ := hwalk.mem_store
        (fun x hx => (Option.bind_eq_some_iff.1 hx).imp fun _ h => h.2) e (mem_reverse.2 he)
      exact hsummary id e hid
    obtain ⟨hperm, hsublist⟩ := orderPairs_contextMessages (nodup_pathTo _ _) hpath
      (checkpointModel target (settingsOf (pathTo m.byId (effectiveTip.bind m.byId.get?))))
    refine .inr ⟨_, _, rfl, hwalk, nodup_pathTo _ _, ?_⟩
    rw [buildSessionContext_tip m effectiveTip target htip, orderSessionContextForTranscript, zip_contextOfPath]
    refine ⟨hsublist, by rw [length_map, length_map], ?_⟩
    rw [zip_map', map_id'']
    · exact hperm
    · exact fun _ => rfl

end

/-! ### A compacted session -/

/-- No stored message of the small JSON is a summary. -/
instance SampleJson.transcriptHost : TranscriptHost SampleJson where
  summary _ := none
  timestamp _ := 0

/-- Two messages, a compaction that keeps the second one, and a message after it. -/
def compactedSession : SessionManager SampleJson := SessionManager.buildIndex
    { persist := false
      fileEntries := [⟨"a", none, "t", .message (.said "user" "one")⟩,
          ⟨"b", some "a", "t", .message (.said "user" "two")⟩,
          ⟨"c", some "b", "t", .compaction ⟨"sum", "b", .text "9", none, none, none⟩⟩,
          ⟨"d", some "c", "t", .message (.said "user" "three")⟩]
      byId := .empty
      labelsById := .empty
      labelTimestampsById := .empty
      leafId := none }

theorem SessionManager.buildSessionHistory_path_order_compacted :
    ∃ (snapshot : SessionHistorySnapshot SampleJson SampleJson) (path : List (SessionEntry SampleJson)),
      compactedSession.buildSessionHistory none none = .ok snapshot ∧
      snapshot.entryIds = [("b" : Str), ("c" : Str), ("d" : Str)] ∧
      snapshot.entryIds.Sublist (path.map SessionEntry.id) := by
  have hsummary : ∀ id e, compactedSession.byId.get? id = some e → ¬ e.CarriesSummary := by
    rintro id e - ⟨value, message, -, -, h⟩
    cases h
  rcases SessionManager.buildSessionHistory_path_order compactedSession none none hsummary with
    ⟨id, hid, hget, -⟩ | ⟨snapshot, path, hok, -, -, hsublist, -⟩
  · have hleaf : (none : Option Str).or compactedSession.leafId = some ("d" : Str) := by decide
    obtain rfl : ("d" : Str) = id := Option.some.inj (hleaf.symm.trans hid)
    exact absurd hget (by decide)
  · refine ⟨snapshot, path, hok, ?_, hsublist⟩
    rw [← Except.ok.inj hok]
    decide

/-! ### Branches -/

/-- An entry that attributes the usage of a child. -/
def EntryBody.isChildUsage : EntryBody J → Bool
  | .childUsageAttributed _ _ => true
  | _ => false

namespace SessionManager

variable {J M : Type}

/-- Enters a new entry, which becomes the leaf. -/
def appendEntry (m : SessionManager J) (e : SessionEntry J) : SessionManager J :=
  { m with fileEntries := m.fileEntries ++ [e], byId := m.byId.insert e.id e, leafId := some e.id }

/-- Goes on from a known entry. -/
def branch (m : SessionManager J) (branchFromId : Str) : Except Str (SessionManager J) :=
  if m.byId.contains branchFromId then .ok { m with leafId := some branchFromId }
  else .error ("Entry " ++ branchFromId ++ " not found")

def resetLeaf (m : SessionManager J) : SessionManager J := { m with leafId := none }

/-- A session goes on: entries with new ids are appended below the leaf, and the leaf is moved.  An
entry with the usage of a child is no such append, as it also changes the message that it is
attributed to. -/
inductive Grows (m : SessionManager J) : SessionManager J → Prop where
  | refl : Grows m m
  | append {m' : SessionManager J} (id timestamp : Str) (body : EntryBody J) (h : Grows m m')
      (hid : m'.byId.contains id = false) (hbody : body.isChildUsage = false) :
      Grows m (m'.appendEntry ⟨id, m'.leafId, timestamp, body⟩)
  | branch {m' m'' : SessionManager J} (id : Str) (h : Grows m m') (hbranch : m'.branch id = .ok m'') : Grows m m''
  | resetLeaf {m' : SessionManager J} (h : Grows m m') : Grows m m'.resetLeaf

variable {m m' : SessionManager J}

/-- Entries are not replaced. -/
theorem Grows.get? (h : Grows m m') {id : Str} {e : SessionEntry J} (he : m.byId.get? id = some e) :
    m'.byId.get? id = some e := by
  induction h with
  | refl => exact he
  | append new _ _ _ hnew _ ih =>
    rw [appendEntry, IndexMap.get?_insert, if_neg, ih]
    rintro rfl
    rw [IndexMap.contains, ih] at hnew
    cases hnew
  | branch _ _ hbranch ih =>
    rw [SessionManager.branch] at hbranch
    split_ifs at hbranch
    cases hbranch
    exact ih
  | resetLeaf _ ih => exact ih

variable [JsonHost J M] [TranscriptHost M]

/-- **Branches do not disturb each other**: however a session goes on in which all parents are
known, the history of an entry stays the same. -/
theorem buildSessionHistory_of_grows (h : Grows m m')
    (hclosed : ∀ id e, m.byId.get? id = some e → ∀ parent ∈ e.parentId, m.byId.contains parent = true)
    {tip : Str} (htip : m.byId.contains tip = true) (target : Option Model) :
    (m'.buildSessionHistory (some tip) target : Except Str (SessionHistorySnapshot J M)) =
      m.buildSessionHistory (some tip) target := by
  have hget : ∀ id, m.byId.contains id = true → m'.byId.get? id = m.byId.get? id := by
    intro id hid
    obtain ⟨e, he⟩ := Option.isSome_iff_exists.1 hid
    rw [he, h.get? he]
  -- the walk from the tip never leaves the old entries
  have hpath : pathTo m'.byId (m.byId.get? tip) = pathTo m.byId (m.byId.get? tip) := by
    have hwalk := ascends_pathTo m.byId (m.byId.get? tip)
    refine reverse_injective ((ascends_pathTo m'.byId _).unique (hwalk.congr fun e he => ?_))
    obtain ⟨id, hid⟩ := hwalk.mem_store (fun _ hv => ⟨tip, hv⟩) e he
    cases hparent : e.parentId with
    | none => rfl
    | some parent => exact hget parent (hclosed id e hid parent hparent)
  have hcontext : ∀ m : SessionManager J, m.byId.contains tip = true →
      buildSessionContext (M := M) m.fileEntries (some (some tip)) (some m.byId) target =
        contextOfPath target (pathTo m.byId (m.byId.get? tip)) := fun m hm =>
    buildSessionContext_tip m (some tip) target (by rintro _ ⟨⟩; exact hm)
  have htip' : m'.byId.contains tip = true := by rwa [IndexMap.contains, hget tip htip]
  simp only [buildSessionHistory, Option.some_or, Option.filter_some, htip, htip', Bool.not_true,
    Bool.false_eq_true, if_false, hcontext _ htip, hcontext _ htip', hget tip htip, hpath]

/-- An entry on another branch of the compacted session. -/
theorem buildSessionHistory_of_grows_compacted : ∃ m', Grows compactedSession m' ∧
      m'.leafId = some ("e" : Str) ∧ (m'.buildSessionHistory (some "d") none : Except Str
        (SessionHistorySnapshot SampleJson SampleJson)) = compactedSession.buildSessionHistory (some "d") none := by
  have hclosed : ∀ x ∈ compactedSession.byId.entries, ∀ parent ∈ x.2.parentId,
      compactedSession.byId.contains parent = true := by
    decide
  have hgrows : Grows compactedSession _ :=
    .append "e" "t" (.message (.text "four")) (.branch "a" .refl rfl) (by decide) rfl
  refine ⟨_, hgrows, rfl, buildSessionHistory_of_grows hgrows (fun id e he => ?_) (by decide) none⟩
  exact hclosed (id, e) (Keyed.mem_of_first_eq_some he)

end SessionManager

end Session
