/-
**Sessions: the entries of a transcript, their tree and the context of a branch.**

A session is a list of entries, each with an id and the id of the entry it follows.  Appending goes
on from the current leaf, and the leaf can be moved to any entry, so the entries form a tree.  The
context that is sent to a model is read off the way from the leaf to the root: the settings that
were last chosen, and the messages, of which a compaction replaces the older ones by a summary.

This module embeds the entries, the index and the context builder of `core/session_manager.rs`.
Stored messages are JSON values; what the JSON library makes of them, the numbers and the dates are
parameters.
-/

import OptimusAgent.Text
import OptimusAgent.IndexMap
import OptimusAgent.Ancestry
import OptimusAgent.Latest

namespace Session

open Str

/-! ### JSON values and what is read from them -/

/-- The window that a provider compacted, and the model that it belongs to. -/
structure ProviderCheckpoint (J : Type) where
  provider : Str
  api : Str
  model : Str
  baseUrl : Str
  endpoint : Option Str
  /-- The version, the opaque items and the estimated size. -/
  window : J
  deriving DecidableEq

/-- What the session manager takes from the JSON and date libraries, for values `J` and messages
`M`. -/
class JsonHost (J : Type) (M : outParam Type) where
  /-- The value of a field of an object. -/
  field : J → Str → Option J
  asStr : J → Option Str
  /-- The message that a stored value deserialises to. -/
  message : J → Option M
  /-- The stored message with another `usage`. -/
  withUsage : J → J → J
  /-- A stored usage, as it is stored again. -/
  usage : J → Option J
  /-- The content of a custom message, empty where it does not deserialise. -/
  content : J → J
  /-- A stored number, zero where there is none. -/
  number : J → J
  isoToMillis : Str → ℤ
  /-- A value that is a valid checkpoint. -/
  checkpoint : J → Option (ProviderCheckpoint J)
  /-- The checkpoint in the details of an older extension. -/
  legacyCheckpoint : J → Option (ProviderCheckpoint J)

section

variable {J M : Type} [JsonHost J M]

/-- The text of a field, empty where there is none. -/
def textField (value : J) (name : Str) : Str := ((JsonHost.field value name).bind JsonHost.asStr).getD []

def messageRole (value : J) : Str := textField value "role"

def isLegacyCheckpoint (details : J) : Bool := (JsonHost.field details "strategy").bind JsonHost.asStr =
    some ("openai-responses-compaction-v2" : Str)

def hasProviderCheckpoint (details : J) : Bool :=
  (JsonHost.field details "providerCheckpoint").isSome || isLegacyCheckpoint details

def getProviderCheckpoint (details : J) : Option (ProviderCheckpoint J) :=
  match JsonHost.field details "providerCheckpoint" with
  | some checkpoint => JsonHost.checkpoint checkpoint
  | none => if isLegacyCheckpoint details = true then JsonHost.legacyCheckpoint details else none

end

/-- The model that a checkpoint is compared with; what is not known is not compared. -/
structure CheckpointModelTarget where
  provider : Str
  id : Str
  api : Option Str
  baseUrl : Option Str
  nativeEndpoint : Option Str
  deriving DecidableEq

/-- What the builder reads of the model that a context is built for. -/
structure Model where
  provider : Str
  id : Str
  api : Str
  baseUrl : Str
  /-- The endpoint of the provider's own compaction. -/
  nativeCompaction : Option Str
  deriving DecidableEq

def trimTrailingSlashes (value : Str) : Str := value.rdropWhile (· = '/')

def compactionMatchesTarget {J : Type} (checkpoint : ProviderCheckpoint J) (model : CheckpointModelTarget) : Bool :=
  if checkpoint.provider ≠ model.provider ∨ checkpoint.model ≠ model.id then false
  else if ∃ api ∈ model.api, checkpoint.api ≠ api then false
  else if ∃ baseUrl ∈ model.baseUrl, trimTrailingSlashes checkpoint.baseUrl ≠ trimTrailingSlashes baseUrl then false
  else
    match checkpoint.endpoint, model.nativeEndpoint with
    | none, none => true
    | some endpoint, some native => trimTrailingSlashes endpoint = trimTrailingSlashes native
    | _, _ => false

/-! ### Entries -/

/-- What a compaction records. -/
structure Compaction (J : Type) where
  summary : Str
  firstKeptEntryId : Str
  tokensBefore : J
  details : Option J
  customInstructions : Option Str
  harnessDigest : Option Str
  deriving DecidableEq

/-- The entries that are only kept. -/
inductive RecordKind where
  | custom
  | sessionInfo
  | sessionState
  | agentStatus
  | gitState
  deriving DecidableEq

/-- The entries by their type. -/
inductive EntryBody (J : Type) where
  /-- The header of the session file. -/
  | session
  | message (value : J)
  | thinkingLevelChange (level : Str)
  /-- A JSON text or `null`. -/
  | serviceTierChange (tier : Option Str)
  | modelChange (provider modelId : Str)
  | compaction (compaction : Compaction J)
  | customMessage (customType : Str) (content : J) (display : Bool) (details : Option J)
  | branchSummary (summary fromId : Str)
  | label (targetId : Str) (label : Option Str)
  | childUsageAttributed (targetId : Str) (aggregateUsage : J)
  | record (kind : RecordKind) (payload : J)
  deriving DecidableEq

/-- Whether the type of an entry is `session`. -/
def EntryBody.isSession {J : Type} : EntryBody J → Bool
  | .session => true
  | _ => false

/-- One entry of the session file. -/
structure SessionEntry (J : Type) where
  id : Str
  parentId : Option Str
  timestamp : Str
  body : EntryBody J
  deriving DecidableEq

namespace SessionEntry

variable {J : Type}

def isSessionHeader (e : SessionEntry J) : Bool := e.body.isSession

def compaction? (e : SessionEntry J) : Option (Compaction J) :=
  match e.body with
  | .compaction compaction => some compaction
  | _ => none

end SessionEntry

/-! ### The context of a way -/

/-- The messages of a context. -/
inductive SessionMessage (J M : Type) where
  | stored (message : M)
  | custom (customType : Str) (content : J) (display : Bool) (details : Option J) (timestamp : ℤ)
  | branchSummary (summary fromId : Str) (timestamp : ℤ)
  | compactionSummary (summary : Str) (tokensBefore : J) (timestamp : ℤ)
      (customInstructions : Option Str) (retainedMessageCount : ℕ)
      (providerContext : Option (ProviderCheckpoint J)) (harnessDigest : Option Str)
  deriving DecidableEq

structure SessionContextMessage (J M : Type) where
  entryId : Str
  message : SessionMessage J M
  deriving DecidableEq

structure SessionContextModel where
  provider : Str
  modelId : Str
  deriving DecidableEq

/-- The settings that the entries of a way choose. -/
structure ContextSettings where
  thinkingLevel : Str := "off"
  serviceTier : Option (Option Str) := some (some "default")
  model : Option SessionContextModel := none
  deriving DecidableEq

structure SessionContext (J M : Type) where
  messages : List (SessionMessage J M)
  entryIds : List Str
  settings : ContextSettings
  deriving DecidableEq

section

variable {J M : Type} [JsonHost J M]

/-- The settings after an entry. -/
def ContextSettings.read (s : ContextSettings) (e : SessionEntry J) : ContextSettings :=
  match e.body with
  | .thinkingLevelChange level => { s with thinkingLevel := level }
  | .serviceTierChange tier => { s with serviceTier := tier.map some }
  | .modelChange provider modelId => { s with model := some ⟨provider, modelId⟩ }
  | .message value =>
    if messageRole value = "assistant" then
      { s with model := some ⟨textField value "provider", textField value "model"⟩ }
    else s
  | _ => s

/-- The settings after the entries of a way. -/
def settingsOf (path : List (SessionEntry J)) : ContextSettings := path.foldl ContextSettings.read {}

/-- The model to which checkpoints must belong: the given one, or the last of the way. -/
def checkpointModel (target : Option Model) (s : ContextSettings) : Option CheckpointModelTarget :=
  match target with
  | some target => some ⟨target.provider, target.id, some target.api, some target.baseUrl, target.nativeCompaction⟩
  | none => s.model.map fun model => ⟨model.provider, model.modelId, none, none, none⟩

/-- Whether a compaction can be used with the model.  Only checkpoints belong to one. -/
def Compaction.applies (model : Option CheckpointModelTarget) (c : Compaction J) : Bool :=
  match c.details with
  | none => true
  | some details =>
    if hasProviderCheckpoint details = true then
      match getProviderCheckpoint details, model with
      | some checkpoint, some model => compactionMatchesTarget checkpoint model
      | _, _ => false
    else true

/-- The compaction of an entry, if it can be used. -/
def usableCompaction (model : Option CheckpointModelTarget) (e : SessionEntry J) :
    Option (SessionEntry J × Compaction J) :=
  (e.compaction?.filter fun c => c.applies model).map fun c => (e, c)

/-- The last usable compaction of a way. -/
def lastCompaction (model : Option CheckpointModelTarget) (path : List (SessionEntry J)) :
    Option (SessionEntry J × Compaction J) :=
  Latest.latest (usableCompaction model) path

/-- The message that an entry contributes. -/
def contextMessageForEntry (e : SessionEntry J) : Option (SessionContextMessage J M) :=
  match e.body with
  | .message value => (JsonHost.message value).map fun message => ⟨e.id, .stored message⟩
  | .customMessage customType content display details =>
    some ⟨e.id, .custom customType (JsonHost.content content) display details (JsonHost.isoToMillis J e.timestamp)⟩
  | .branchSummary summary fromId =>
    if summary = [] then none
    else some ⟨e.id, .branchSummary summary fromId (JsonHost.isoToMillis J e.timestamp)⟩
  | _ => none

/-- Where the entries begin that a compaction at an index keeps. -/
def firstKept (c : Compaction J) (before : List (SessionEntry J)) : ℕ :=
  if c.firstKeptEntryId = [] then before.length
  else (before.findIdx? fun e => e.id = c.firstKeptEntryId).getD before.length

/-- The messages that a compaction keeps of the entries before it. -/
def retainedMessages (c : Compaction J) (before : List (SessionEntry J)) : List (SessionContextMessage J M) :=
  if (c.details.bind getProviderCheckpoint).isNone = true then
    (before.drop (firstKept c before)).filterMap contextMessageForEntry
  else []

/-- The message of a compaction. -/
def compactionSummary (e : SessionEntry J) (c : Compaction J) (retained : ℕ) :
    SessionContextMessage J M where
  entryId := e.id
  message := .compactionSummary c.summary (JsonHost.number c.tokensBefore)
    (JsonHost.isoToMillis J e.timestamp) c.customInstructions retained
    (c.details.bind getProviderCheckpoint) c.harnessDigest

/-- The messages of a way: a compaction comes first, then what it keeps, then what follows it. -/
def contextMessages (model : Option CheckpointModelTarget) (path : List (SessionEntry J)) :
    List (SessionContextMessage J M) :=
  match lastCompaction model path with
  | none => path.filterMap contextMessageForEntry
  | some (e, c) =>
    let index := (path.findIdx? fun x => x.compaction?.isSome && x.id = e.id).getD 0
    let retained := retainedMessages c (path.take index)
    compactionSummary e c retained.length :: retained ++ (path.drop (index + 1)).filterMap contextMessageForEntry

/-- The context of a way from the root to a leaf. -/
def contextOfPath (target : Option Model) (path : List (SessionEntry J)) : SessionContext J M :=
  let messages := contextMessages (checkpointModel target (settingsOf path)) path
  { messages := messages.map SessionContextMessage.message
    entryIds := messages.map SessionContextMessage.entryId
    settings := settingsOf path }

omit [JsonHost J M] in
/-- The way from the root to an entry. -/
def pathTo (byId : IndexMap Str (SessionEntry J)) (leaf : Option (SessionEntry J)) : List (SessionEntry J) :=
  (Ancestry.ascend byId.get? SessionEntry.id SessionEntry.parentId (byId.size + 2) [] leaf).reverse

/-- The context of a leaf: `some none` stands for no leaf at all, and a leaf that is unknown or left
out for the last entry. -/
def buildSessionContext (entries : List (SessionEntry J)) (leafId : Option (Option Str))
    (byId : Option (IndexMap Str (SessionEntry J))) (target : Option Model) :
    SessionContext J M :=
  let byId := byId.getD (IndexMap.indexBy SessionEntry.id entries)
  match leafId with
  | some none => ⟨[], [], {}⟩
  | some (some id) =>
    match (byId.get? id).or entries.getLast? with
    | none => ⟨[], [], {}⟩
    | some leaf => contextOfPath target (pathTo byId (some leaf))
  | none =>
    match entries.getLast? with
    | none => ⟨[], [], {}⟩
    | some leaf => contextOfPath target (pathTo byId (some leaf))

end

/-! ### The manager -/

structure SessionManager (J : Type) where
  /-- Whether the session is written to a file. -/
  persist : Bool
  fileEntries : List (SessionEntry J)
  byId : IndexMap Str (SessionEntry J)
  labelsById : IndexMap Str Str
  labelTimestampsById : IndexMap Str Str
  leafId : Option Str
  deriving DecidableEq

namespace SessionManager

variable {J : Type}

/-- The header of a session. -/
def header (sessionId timestamp : Str) : SessionEntry J := ⟨sessionId, none, timestamp, .session⟩

/-- A session without entries. -/
def newSession (persist : Bool) (sessionId timestamp : Str) : SessionManager J where
  persist := persist
  fileEntries := [header sessionId timestamp]
  byId := .empty
  labelsById := .empty
  labelTimestampsById := .empty
  leafId := none

/-- Enters the label of an entry. -/
def setLabel (m : SessionManager J) (targetId : Str) (label : Option Str) (timestamp : Str) : SessionManager J :=
  match label with
  | some label =>
    { m with
      labelsById := m.labelsById.insert targetId label
      labelTimestampsById := m.labelTimestampsById.insert targetId timestamp }
  | none =>
    { m with
      labelsById := m.labelsById.erase targetId
      labelTimestampsById := m.labelTimestampsById.erase targetId }

/-- Enters an entry of the file into the index. -/
def indexEntry (m : SessionManager J) (e : SessionEntry J) : SessionManager J :=
  if e.isSessionHeader = true then m
  else
    let m' := { m with byId := m.byId.insert e.id e, leafId := some e.id }
    match e.body with
    | .label targetId label => m'.setLabel targetId label e.timestamp
    | _ => m'

/-- Builds the index from the entries of the file. -/
def buildIndex (m : SessionManager J) : SessionManager J := m.fileEntries.foldl indexEntry
    { m with byId := .empty, labelsById := .empty, labelTimestampsById := .empty, leafId := none }

section

variable {M : Type} [JsonHost J M]

/-- Whether an entry is a message of the assistant. -/
def isAssistantMessage (e : SessionEntry J) : Bool :=
  match e.body with
  | .message value => messageRole value = "assistant"
  | _ => false

/-- The indexed entry with the usage that its children add; the file keeps the old one. -/
def attributeUsage (usage : J) (e : SessionEntry J) : SessionEntry J :=
  match e.body with
  | .message value => { e with body := .message (JsonHost.withUsage value usage) }
  | _ => e

end

end SessionManager

open Ancestry Latest List

variable {J M : Type} [JsonHost J M]

/-! ### Ways -/

omit [JsonHost J M] in
/-- The way to an entry is the whole walk from it to the root. -/
theorem ascends_pathTo (byId : IndexMap Str (SessionEntry J)) (leaf : Option (SessionEntry J)) :
    Ascends byId.get? SessionEntry.id SessionEntry.parentId [] leaf (pathTo byId leaf).reverse := by
  rw [pathTo, reverse_reverse]
  refine ascends_ascend (leaf.toList.map SessionEntry.id ++ byId.entries.map fun e => e.2.id) ?_ _ _ _ ?_ ?_
  · intro k e he
    exact mem_append_right _ (mem_map_of_mem (f := fun e => e.2.id) (Keyed.mem_of_first_eq_some he))
  · intro e he
    refine mem_append_left _ (mem_map_of_mem ?_)
    exact Option.mem_toList.2 he
  · refine (length_filter_le ..).trans_lt ?_
    rw [length_append, length_map, length_map, ← IndexMap.size]
    cases leaf with
    | none => simp
    | some e =>
      rw [Option.toList_some, length_singleton]
      omega

omit [JsonHost J M] in
theorem nodup_pathTo (byId : IndexMap Str (SessionEntry J)) (leaf : Option (SessionEntry J)) :
    ((pathTo byId leaf).map SessionEntry.id).Nodup := by
  have hnodup := (ascends_pathTo byId leaf).nodup.1
  rwa [map_reverse, nodup_reverse] at hnodup

/-! ### Compactions -/

variable {model : Option CheckpointModelTarget}

theorem usableCompaction_eq_some_iff {e : SessionEntry J} {found : SessionEntry J × Compaction J} :
    usableCompaction model e = some found ↔
      found.1 = e ∧ e.compaction? = some found.2 ∧ found.2.applies model = true := by
  obtain ⟨e', c⟩ := found
  simp only [usableCompaction, Option.map_eq_some_iff, Option.filter_eq_some_iff, Prod.mk.injEq]
  constructor
  · rintro ⟨c, ⟨hc, happlies⟩, rfl, rfl⟩
    exact ⟨rfl, hc, happlies⟩
  · rintro ⟨rfl, hc, happlies⟩
    exact ⟨c, ⟨hc, happlies⟩, rfl, rfl⟩

theorem lastCompaction_cons (model : Option CheckpointModelTarget) (e : SessionEntry J)
    (path : List (SessionEntry J)) : lastCompaction model (e :: path) =
      (lastCompaction model path).or (usableCompaction model e) := latest_cons ..

theorem lastCompaction_append (model : Option CheckpointModelTarget)
    (path path' : List (SessionEntry J)) : lastCompaction model (path ++ path') =
      (lastCompaction model path').or (lastCompaction model path) := latest_append ..

/-- What a compaction keeps begins with the entry that it names. -/
theorem retainedMessages_eq (c : Compaction J) (before : List (SessionEntry J)) : retainedMessages c before =
      if (c.details.bind getProviderCheckpoint).isSome = true ∨ c.firstKeptEntryId = [] then []
      else (before.dropWhile fun e => e.id ≠ c.firstKeptEntryId).filterMap contextMessageForEntry := by
  have hdrop : before.drop ((before.findIdx? fun e => e.id = c.firstKeptEntryId).getD before.length) =
      before.dropWhile fun e => e.id ≠ c.firstKeptEntryId := by
    rw [← findIdx_eq_getD_findIdx?, dropWhile_eq_drop_findIdx_not]
    simp
  unfold retainedMessages firstKept
  by_cases hprovider : (c.details.bind getProviderCheckpoint).isSome = true
  · rw [if_pos (Or.inl hprovider), if_neg]
    simpa using Option.isSome_iff_ne_none.1 hprovider
  · have hnone : (c.details.bind getProviderCheckpoint).isNone = true := by simpa using hprovider
    rw [if_pos hnone]
    by_cases hempty : c.firstKeptEntryId = []
    · rw [if_pos hempty, if_pos (Or.inr hempty), drop_length]
      rfl
    · rw [if_neg hempty, if_neg (by rintro (h | h); exacts [hprovider h, hempty h]), hdrop]

/-- The messages of a way without a usable compaction. -/
theorem contextMessages_of_none {path : List (SessionEntry J)} (h : lastCompaction model path = none) :
    contextMessages model path = path.filterMap contextMessageForEntry := by
  rw [contextMessages, h]

/-- The messages of a way whose last usable compaction is at `e`. -/
theorem contextMessages_split {before after : List (SessionEntry J)} {e : SessionEntry J} {c : Compaction J}
    (hnodup : ((before ++ e :: after).map SessionEntry.id).Nodup)
    (he : usableCompaction model e = some (e, c)) (hafter : lastCompaction model after = none) :
    contextMessages model (before ++ e :: after) = compactionSummary e c (retainedMessages c before).length ::
        (retainedMessages c before ++ after.filterMap contextMessageForEntry) := by
  have hlast : lastCompaction model (before ++ e :: after) = some (e, c) := by
    rw [lastCompaction_append, lastCompaction_cons, hafter, Option.none_or, he]
    rfl
  have hisSome : e.compaction?.isSome = true := by
    rw [(usableCompaction_eq_some_iff.1 he).2.1]
    rfl
  -- the ids are distinct, so that the compaction is found where it is
  have hindex : (before ++ e :: after).findIdx? (fun x => x.compaction?.isSome && x.id = e.id) =
      some before.length := by
    have hbefore : before.findIdx? (fun x => x.compaction?.isSome && x.id = e.id) = none := by
      rw [findIdx?_eq_none_iff]
      intro x hx
      have hne : x.id ≠ e.id := by
        rw [map_append, nodup_append] at hnodup
        exact hnodup.2.2 x.id (mem_map_of_mem hx) e.id (by simp)
      simp [hne]
    rw [findIdx?_append, hbefore, findIdx?_cons]
    simp [hisSome]
  rw [contextMessages, hlast]
  simp only [hindex, Option.getD_some]
  rw [take_left, show before ++ e :: after = (before ++ [e]) ++ after by simp, drop_left' (by simp), cons_append]

/-! ### A small JSON -/

/-- Texts and objects of texts, enough for sessions of a few messages. -/
inductive SampleJson where
  | text (value : Str)
  | object (fields : List (Str × Str))
  deriving DecidableEq

def SampleJson.toText : SampleJson → Str
  | .text value => value
  | .object _ => []

/-- Every value is a message, and there are no checkpoints. -/
instance SampleJson.jsonHost : JsonHost SampleJson SampleJson where
  field value name :=
    match value with
    | .text _ => none
    | .object fields => (Keyed.first name fields).map .text
  asStr value :=
    match value with
    | .text value => some value
    | .object _ => none
  message := some
  withUsage value usage :=
    match value with
    | .text value => .text value
    | .object fields =>
      .object ((fields.filter fun f => f.1 ≠ ("usage" : Str)) ++ [(("usage" : Str), usage.toText)])
  usage := some
  content := id
  number := id
  isoToMillis timestamp := timestamp.length
  checkpoint _ := none
  legacyCheckpoint _ := none

/-- A message with a role. -/
def SampleJson.said (role text : Str) : SampleJson := .object [("role", role), ("content", text)]

end Session
