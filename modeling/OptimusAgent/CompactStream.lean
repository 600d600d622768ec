/-
**Compact assistant streams.**

A worker streams the messages of its sessions as updates that carry the whole message so far.  To a
supervisor it sends compact deltas instead: the event without the message, with the cleared block of
a start and the arguments of a tool call.  The supervisor applies them to its own messages.  This
module embeds `modes/daemon/compact_session_stream.rs` with the relay between the two.

The deserialisation of messages and events and the lenient JSON reader are parameters, the fields of
a message beside its content are one opaque type, and a delta arrives as it was sent.

A delta carries the text that an event adds or sets, and nothing else of the block.  If the event
also changes the signature of the block, as providers do at its end, or the id or the name of a tool
call, the reconstructed block keeps the old ones.  An update that changes nothing else is steady.

Clearing a session drops the JSON of tool calls under every key that begins with its id and a colon,
also that of a session whose id begins so.  The deltas of a worker carry the arguments of their tool
calls, so that JSON is not read.
-/

import OptimusAgent.RowCodec

namespace CompactStream

open Str RowCodec Function

/-! ### Messages and events -/

structure TextContent where
  text : Str
  textSignature : Option Str
  deriving DecidableEq

structure ThinkingContent where
  thinking : Str
  thinkingSignature : Option Str
  redacted : Option Bool
  deriving DecidableEq

structure ToolCall (F : Type) where
  id : Str
  name : Str
  arguments : FileEntry F
  thoughtSignature : Option Str

inductive ContentBlock (F : Type) where
  | text (content : TextContent)
  | thinking (content : ThinkingContent)
  | toolCall (call : ToolCall F)

/-- An assistant message, with its other fields in `rest`. -/
structure AssistantMessage (F R : Type) where
  content : List (ContentBlock F)
  rest : R

/-- The events of a stream, without the message so far. -/
inductive CompactAssistantMessageEvent (F R : Type) where
  | start
  | textStart (contentIndex : ℕ)
  | textDelta (contentIndex : ℕ) (delta : Str)
  | textEnd (contentIndex : ℕ) (content : Str)
  | thinkingStart (contentIndex : ℕ)
  | thinkingDelta (contentIndex : ℕ) (delta : Str)
  | thinkingEnd (contentIndex : ℕ) (content : Str)
  | toolCallStart (contentIndex : ℕ)
  | toolCallDelta (contentIndex : ℕ) (delta : Str)
  | toolCallEnd (contentIndex : ℕ) (toolCall : ToolCall F)
  | done (reason : Str) (message : AssistantMessage F R)
  | error (reason : Str) (error : AssistantMessage F R)

structure CompactAssistantDelta (F R M : Type) where
  activeSessionId : Str
  assistantMessageEvent : CompactAssistantMessageEvent F R
  contentStart : Option (ContentBlock F)
  toolCallArguments : Option (FileEntry F)
  metadata : Option M

/-- What the streams take from the libraries. -/
class StreamHost (F R M : outParam Type) where
  messageFromValue : Json F → Except Str (AssistantMessage F R)
  eventFromValue : Json F → Except Str (CompactAssistantMessageEvent F R)
  metaFromValue : Json F → Option M
  parseStreamingJson : Str → Json F

section

variable {F R M : Type}

/-! ### Deltas -/

/-- A block without what its deltas bring. -/
def ContentBlock.cleared : ContentBlock F → ContentBlock F
  | .text content => .text { content with text := [] }
  | .thinking content => .thinking { content with thinking := [] }
  | .toolCall call => .toolCall { call with arguments := [] }

def compactToolCallArguments (message : AssistantMessage F R) : CompactAssistantMessageEvent F R → Option (FileEntry F)
  | .toolCallDelta contentIndex _ =>
    match message.content[contentIndex]? with
    | some (.toolCall call) => some call.arguments
    | _ => none
  | _ => none

def compactContentStart (message : AssistantMessage F R) : CompactAssistantMessageEvent F R → Option (ContentBlock F)
  | .textStart contentIndex =>
    match message.content[contentIndex]? with
    | some (.text content) => some (ContentBlock.text content).cleared
    | _ => none
  | .thinkingStart contentIndex =>
    match message.content[contentIndex]? with
    | some (.thinking content) => some (ContentBlock.thinking content).cleared
    | _ => none
  | .toolCallStart contentIndex =>
    match message.content[contentIndex]? with
    | some (.toolCall call) => some (ContentBlock.toolCall call).cleared
    | _ => none
  | _ => none

def roleOf (message : Json F) : Option Str := message.asObject.bind (fieldStr "role")

def activeSessionId (outbound : Json F) : Str := (outbound.asObject.bind (fieldStr "activeSessionId")).getD []

def defaultTextContent : TextContent := ⟨[], none⟩

def defaultThinkingContent : ThinkingContent := ⟨[], none, none⟩

/-- The content with a block at an index, after empty texts where it was too short. -/
def setContent (content : List (ContentBlock F)) (index : ℕ) (block : ContentBlock F) : List (ContentBlock F) :=
  (content ++ List.replicate (index + 1 - content.length) (ContentBlock.text defaultTextContent)).set index block

/-- A block is changed, if there is one that can be. -/
def editContent (content : List (ContentBlock F)) (index : ℕ)
    (edit : ContentBlock F → Option (ContentBlock F)) : Option (List (ContentBlock F)) :=
  (content[index]?.bind edit).map (content.set index)

def editText (edit : Str → Str) : ContentBlock F → Option (ContentBlock F)
  | .text content => some (.text { content with text := edit content.text })
  | _ => none

def editThinking (edit : Str → Str) : ContentBlock F → Option (ContentBlock F)
  | .thinking content => some (.thinking { content with thinking := edit content.thinking })
  | _ => none

def editArguments (arguments : FileEntry F) : ContentBlock F → Option (ContentBlock F)
  | .toolCall call => some (.toolCall { call with arguments := arguments })
  | _ => none

variable [StreamHost F R M]

/-- The assistant message and the event of an update; other messages are no updates. -/
def messageUpdateOf (outbound : Json F) :
    Except Str (Option (AssistantMessage F R × CompactAssistantMessageEvent F R)) :=
  match outbound.asObject with
  | none => .ok none
  | some candidate =>
    if fieldStr "type" candidate ≠ some "session_event" then .ok none
    else
      match (field "event" candidate).bind Json.asObject with
      | none => .ok none
      | some event =>
        if fieldStr "type" event ≠ some "message_update" then .ok none
        else
          match field "message" event with
          | none => .ok none
          | some message =>
            if roleOf message ≠ some "assistant" then .ok none
            else
              match StreamHost.messageFromValue message with
              | .error error => .error error
              | .ok assistantMessage =>
                match field "assistantMessageEvent" event with
                | none => .error "message_update without assistantMessageEvent"
                | some eventValue =>
                  match StreamHost.eventFromValue eventValue with
                  | .error error => .error error
                  | .ok compactEvent => .ok (some (assistantMessage, compactEvent))

def compactDelta (outbound : Json F) (message : AssistantMessage F R)
    (event : CompactAssistantMessageEvent F R) : CompactAssistantDelta F R M :=
  ⟨activeSessionId outbound, event, compactContentStart message event, compactToolCallArguments message event,
    (outbound.asObject.bind (field "meta")).bind StreamHost.metaFromValue⟩

def createCompactAssistantDelta (outbound : Json F) : Except Str (Option (CompactAssistantDelta F R M)) :=
  match messageUpdateOf outbound with
  | .error error => .error error
  | .ok none => .ok none
  | .ok (some (message, event)) => .ok (some (compactDelta outbound message event))

/-! ### The receiver -/

/-- The messages so far of the active sessions, and the JSON so far of their tool calls. -/
structure Reconstructor (F R : Type) where
  partialMessages : Str → Option (AssistantMessage F R)
  toolCallJson : Str → Option Str

omit [StreamHost F R M] in
def Reconstructor.new : Reconstructor F R := ⟨fun _ => none, fun _ => none⟩

def toolCallKey (activeSessionId : Str) (contentIndex : ℕ) : Str := activeSessionId ++ ':' :: dec contentIndex

omit [StreamHost F R M] in
def Reconstructor.clear (r : Reconstructor F R) (activeSessionId : Str) : Reconstructor F R :=
  ⟨update r.partialMessages activeSessionId none,
    fun key => if (activeSessionId ++ [':']).isPrefixOf key then none else r.toolCallJson key⟩

/-- What a message tells the receiver. -/
inductive Observed (F R : Type) where
  | nothing
  | clear (activeSessionId : Str)
  | messageStart (activeSessionId : Str) (message : AssistantMessage F R)

def observed (outbound : Json F) : Observed F R :=
  match outbound.asObject with
  | none => .nothing
  | some candidate =>
    let messageType := (fieldStr "type" candidate).getD []
    if messageType ≠ "session_event" then
      if messageType = "session_replaced" ∨ messageType = "session_resynced" ∨
          messageType = "session_closed" then
        .clear (activeSessionId outbound)
      else .nothing
    else
      match (field "event" candidate).bind Json.asObject with
      | none => .nothing
      | some event =>
        if fieldStr "type" event = some "message_start" then
          match field "message" event with
          | none => .nothing
          | some message =>
            if roleOf message = some "assistant" then
              match StreamHost.messageFromValue message with
              | .ok message => .messageStart (activeSessionId outbound) message
              | .error _ => .nothing
            else .nothing
        else if fieldStr "type" event = some "message_end" then .clear (activeSessionId outbound)
        else .nothing

def observe (r : Reconstructor F R) (outbound : Json F) : Reconstructor F R :=
  match (observed outbound : Observed F R) with
  | .nothing => r
  | .clear id => r.clear id
  | .messageStart id message => { r with partialMessages := update r.partialMessages id (some message) }

/-- The arguments of the tool call whose JSON is complete up to here. -/
def streamedArguments (partialJson : Str) : FileEntry F :=
  match StreamHost.parseStreamingJson partialJson with
  | .object fields => fields
  | _ => []

/-- The JSON of the tool calls after a delta, and the content of the message, unless the delta does
not fit it. -/
def reconstructContent (json : Str → Option Str) (delta : CompactAssistantDelta F R M)
    (content : List (ContentBlock F)) : (Str → Option Str) × Option (List (ContentBlock F)) :=
  match delta.assistantMessageEvent with
  | .textStart index =>
    (json, some (setContent content index (delta.contentStart.getD (.text defaultTextContent))))
  | .textDelta index text => (json, editContent content index (editText (· ++ text)))
  | .textEnd index text => (json, editContent content index (editText fun _ => text))
  | .thinkingStart index =>
    (json, some (setContent content index (delta.contentStart.getD (.thinking defaultThinkingContent))))
  | .thinkingDelta index text => (json, editContent content index (editThinking (· ++ text)))
  | .thinkingEnd index text => (json, editContent content index (editThinking fun _ => text))
  | .toolCallStart index =>
    match delta.contentStart with
    | some (.toolCall call) =>
      (update json (toolCallKey delta.activeSessionId index) (some []),
        some (setContent content index (.toolCall call)))
    | _ => (json, none)
  | .toolCallDelta index text =>
    match delta.toolCallArguments with
    | some arguments => (json, editContent content index (editArguments arguments))
    | none =>
      let key := toolCallKey delta.activeSessionId index
      let partialJson := (json key).getD [] ++ text
      (update json key (some partialJson), editContent content index (editArguments (streamedArguments partialJson)))
  | .toolCallEnd index call =>
    (update json (toolCallKey delta.activeSessionId index) none, some (setContent content index (.toolCall call)))
  | .start => (json, none)
  | .done _ _ => (json, none)
  | .error _ _ => (json, none)

/-- An update that the receiver has made from a delta. -/
structure MessageUpdate (F R M : Type) where
  activeSessionId : Str
  message : AssistantMessage F R
  assistantMessageEvent : CompactAssistantMessageEvent F R
  metadata : Option M

def reconstruct (r : Reconstructor F R) (delta : CompactAssistantDelta F R M) :
    Reconstructor F R × Option (MessageUpdate F R M) :=
  match r.partialMessages delta.activeSessionId with
  | none => (r, none)
  | some part =>
    match reconstructContent r.toolCallJson delta part.content with
    | (json, some content) =>
      let message := { part with content := content }
      (⟨update r.partialMessages delta.activeSessionId (some message), json⟩,
        some ⟨delta.activeSessionId, message, delta.assistantMessageEvent, delta.metadata⟩)
    | (json, none) => ({ r with toolCallJson := json }, none)

/-! ### Streams -/

/-- An update goes as a delta and is reconstructed, and every other message is observed. -/
def relay (r : Reconstructor F R) (outbound : Json F) : Reconstructor F R × Option (MessageUpdate F R M) :=
  match (createCompactAssistantDelta outbound : Except Str (Option (CompactAssistantDelta F R M))) with
  | .ok (some delta) => reconstruct r delta
  | _ => (observe r outbound, none)

def run (outbounds : List (Json F)) : Reconstructor F R := outbounds.foldl (fun r outbound => (relay r outbound).1) .new

/-- The content of the messages that the sessions are streaming. -/
abbrev Streams (F : Type) := Str → Option (List (ContentBlock F))

/-- The messages of the sessions after a message of the worker. -/
def follow (streams : Streams F) (outbound : Json F) : Streams F :=
  match (messageUpdateOf outbound :
    Except Str (Option (AssistantMessage F R × CompactAssistantMessageEvent F R))) with
  | .ok (some (message, _)) => update streams (activeSessionId outbound) (some message.content)
  | _ =>
    match (observed outbound : Observed F R) with
    | .nothing => streams
    | .clear id => update streams id none
    | .messageStart id message => update streams id (some message.content)

def streamsOf (outbounds : List (Json F)) : Streams F := outbounds.foldl follow fun _ => none

/-- The content follows from the content before by the event: a start inserts an empty block, a
delta appends to it, an end sets it. -/
inductive Follows (prev : List (ContentBlock F)) : CompactAssistantMessageEvent F R → List (ContentBlock F) → Prop
  | textStart {i : ℕ} (hi : i ≤ prev.length) (signature : Option Str) :
      Follows prev (.textStart i) (prev.insertIdx i (.text ⟨[], signature⟩))
  | textDelta {i : ℕ} {block : TextContent} (hi : prev[i]? = some (.text block)) (text : Str)
      (signature : Option Str) :
      Follows prev (.textDelta i text) (prev.set i (.text ⟨block.text ++ text, signature⟩))
  | textEnd {i : ℕ} {block : TextContent} (hi : prev[i]? = some (.text block)) (text : Str)
      (signature : Option Str) :
      Follows prev (.textEnd i text) (prev.set i (.text ⟨text, signature⟩))
  | thinkingStart {i : ℕ} (hi : i ≤ prev.length) (signature : Option Str) (redacted : Option Bool) :
      Follows prev (.thinkingStart i) (prev.insertIdx i (.thinking ⟨[], signature, redacted⟩))
  | thinkingDelta {i : ℕ} {block : ThinkingContent} (hi : prev[i]? = some (.thinking block))
      (text : Str) (signature : Option Str) (redacted : Option Bool) :
      Follows prev (.thinkingDelta i text)
        (prev.set i (.thinking ⟨block.thinking ++ text, signature, redacted⟩))
  | thinkingEnd {i : ℕ} {block : ThinkingContent} (hi : prev[i]? = some (.thinking block))
      (text : Str) (signature : Option Str) (redacted : Option Bool) :
      Follows prev (.thinkingEnd i text) (prev.set i (.thinking ⟨text, signature, redacted⟩))
  | toolCallStart {i : ℕ} (hi : i ≤ prev.length) (id name : Str) (signature : Option Str) :
      Follows prev (.toolCallStart i) (prev.insertIdx i (.toolCall ⟨id, name, [], signature⟩))
  | toolCallDelta {i : ℕ} {call : ToolCall F} (hi : prev[i]? = some (.toolCall call)) (text : Str)
      (next : ToolCall F) : Follows prev (.toolCallDelta i text) (prev.set i (.toolCall next))
  | toolCallEnd {i : ℕ} {call : ToolCall F} (hi : prev[i]? = some (.toolCall call))
      (next : ToolCall F) : Follows prev (.toolCallEnd i next) (prev.set i (.toolCall next))

/-- A start adds its block at the end, and a delta or the end of a text leaves everything of its
block as it is but the text or the arguments. -/
def Steady (prev next : List (ContentBlock F)) : CompactAssistantMessageEvent F R → Prop
  | .textStart i | .thinkingStart i | .toolCallStart i => i = prev.length
  | .textDelta i _ | .textEnd i _ | .thinkingDelta i _ | .thinkingEnd i _ | .toolCallDelta i _ =>
    next[i]?.map ContentBlock.cleared = prev[i]?.map ContentBlock.cleared
  | _ => True

/-- The updates of the streams follow from the messages before, and change nothing but what their
deltas carry. -/
def Steadily : Streams F → List (Json F) → Prop
  | _, [] => True
  | streams, outbound :: outbounds =>
    (∀ (message : AssistantMessage F R) (event : CompactAssistantMessageEvent F R),
      messageUpdateOf outbound = .ok (some (message, event)) → ∃ prev, streams (activeSessionId outbound) = some prev ∧
          Follows prev event message.content ∧ Steady prev message.content event) ∧
    Steadily (follow streams outbound) outbounds

end

open List Option

section

variable {F R M : Type} [StreamHost F R M]

/-! ### Blocks -/

omit [StreamHost F R M] in
theorem setContent_length (content : List (ContentBlock F)) (block : ContentBlock F) :
    setContent content content.length block = content ++ [block] := by
  have hone : content.length + 1 - content.length = 1 := by omega
  rw [setContent, hone, set_append_right _ _ le_rfl, Nat.sub_self]
  rfl

variable {content : List (ContentBlock F)} {index : ℕ} {message : AssistantMessage F R}
  {event : CompactAssistantMessageEvent F R} {r : Reconstructor F R} {outbound : Json F} {streams : Streams F}

omit [StreamHost F R M] in
theorem length_setContent_of_lt (h : index < content.length) (block : ContentBlock F) :
    (setContent content index block).length = content.length := by
  have hzero : index + 1 - content.length = 0 := by omega
  rw [setContent, hzero, length_set, replicate_zero, append_nil]

omit [StreamHost F R M] in
/-- A block that is set is the one that was inserted, if it comes at the end. -/
theorem setContent_eq_insertIdx_iff (h : index ≤ content.length) (block : ContentBlock F) :
    setContent content index block = content.insertIdx index block ↔ index = content.length := by
  constructor
  · intro heq
    by_contra hne
    have hlength := congrArg length heq
    rw [length_setContent_of_lt (by omega), length_insertIdx, if_pos h] at hlength
    omega
  · rintro rfl
    rw [setContent_length, insertIdx_length_self]

section

omit [StreamHost F R M]

theorem editContent_of_some {block block' : ContentBlock F}
    (h : content[index]? = some block) {edit : ContentBlock F → Option (ContentBlock F)}
    (hedit : edit block = some block') :
    editContent content index edit = some (content.set index block') := by
  rw [editContent, h, bind_some, hedit, map_some]

theorem set_inj_of_some {block : ContentBlock F} (h : content[index]? = some block) {a b : ContentBlock F} :
    content.set index a = content.set index b ↔ a = b := by
  refine ⟨fun heq => ?_, fun heq => by rw [heq]⟩
  obtain ⟨hlt, -⟩ := List.getElem?_eq_some_iff.1 h
  have hsame := congrArg (fun l => l[index]?) heq
  simpa [List.getElem?_set_self hlt] using hsame

end

omit [StreamHost F R M] in
/-- A changed block has the label that it had exactly if it is the old one with its text or
arguments changed. -/
theorem cleared_set_iff {block next : ContentBlock F} (h : content[index]? = some block) :
    (content.set index next)[index]?.map ContentBlock.cleared =
        content[index]?.map ContentBlock.cleared ↔ next.cleared = block.cleared := by
  obtain ⟨hlt, -⟩ := List.getElem?_eq_some_iff.1 h
  rw [List.getElem?_set_self hlt, h, map_some, map_some, Option.some.injEq]

/-! ### One update -/

/-- A delta whose update follows is applied, and gives the content of the update exactly if that is
steady. -/
theorem reconstructContent_of_follows {prev : List (ContentBlock F)} (h : Follows prev event message.content)
    (outbound : Json F) : ∃ content, (∀ json : Str → Option Str,
      (reconstructContent json (compactDelta outbound message event) prev).2 = some content) ∧
        (content = message.content ↔ Steady prev message.content event) := by
  obtain ⟨next, rest⟩ := message
  dsimp only at h ⊢
  cases h with
  | textStart hi signature =>
    refine ⟨_, fun json => ?_, setContent_eq_insertIdx_iff hi (.text ⟨[], signature⟩)⟩
    simp only [reconstructContent, compactDelta, compactContentStart,
      getElem?_insertIdx_self, if_pos hi, ContentBlock.cleared, getD_some]
  | textDelta hi text signature | textEnd hi text signature
  | thinkingDelta hi text signature redacted | thinkingEnd hi text signature redacted =>
    refine ⟨_, fun json => editContent_of_some hi rfl, ?_⟩
    rw [set_inj_of_some hi, Steady, cleared_set_iff hi]
    simp [ContentBlock.cleared, eq_comm]
  | thinkingStart hi signature redacted =>
    refine ⟨_, fun json => ?_, setContent_eq_insertIdx_iff hi (.thinking ⟨[], signature, redacted⟩)⟩
    simp only [reconstructContent, compactDelta, compactContentStart,
      getElem?_insertIdx_self, if_pos hi, ContentBlock.cleared, getD_some]
  | toolCallStart hi id name signature =>
    refine ⟨_, fun json => ?_, setContent_eq_insertIdx_iff hi (.toolCall ⟨id, name, [], signature⟩)⟩
    simp only [reconstructContent, compactDelta, compactContentStart,
      getElem?_insertIdx_self, if_pos hi, ContentBlock.cleared]
  | @toolCallDelta i call hi text next =>
    obtain ⟨hlt, -⟩ := List.getElem?_eq_some_iff.1 hi
    refine ⟨prev.set i (.toolCall { call with arguments := next.arguments }), fun json => ?_, ?_⟩
    · simp only [reconstructContent, compactDelta, compactToolCallArguments, List.getElem?_set_self hlt]
      exact editContent_of_some hi rfl
    · rw [set_inj_of_some hi, Steady, cleared_set_iff hi]
      cases call
      cases next
      simp [ContentBlock.cleared, eq_comm]
  | @toolCallEnd i call hi next =>
    obtain ⟨hlt, -⟩ := List.getElem?_eq_some_iff.1 hi
    have hset : setContent prev i (.toolCall next) = prev.set i (.toolCall next) := by
      have hzero : i + 1 - prev.length = 0 := by omega
      rw [setContent, hzero, replicate_zero, append_nil]
    exact ⟨_, fun json => rfl, iff_of_true hset trivial⟩

theorem relay_update (h : messageUpdateOf outbound = .ok (some (message, event))) :
    relay r outbound = reconstruct r (compactDelta outbound message event) := by
  rw [relay, createCompactAssistantDelta, h]

theorem relay_other (h : ∀ (message : AssistantMessage F R) (event : CompactAssistantMessageEvent F R),
      messageUpdateOf outbound ≠ .ok (some (message, event))) :
    relay r outbound = (observe r outbound, none) := by
  rw [relay, createCompactAssistantDelta]
  cases hupdate : (messageUpdateOf outbound :
      Except Str (Option (AssistantMessage F R × CompactAssistantMessageEvent F R))) with
  | error error => rfl
  | ok update =>
    cases update with
    | none => rfl
    | some update => exact absurd hupdate (h update.1 update.2)

/-- What the receiver makes of an update that follows from the message that it has; what else it has
does not matter. -/
theorem reconstruct_of_follows {part : AssistantMessage F R}
    (h : Follows part.content event message.content) :
    ∃ content, (content = message.content ↔ Steady part.content message.content event) ∧
      ∀ r : Reconstructor F R, r.partialMessages (activeSessionId outbound) = some part →
        ∃ json, reconstruct r (compactDelta outbound message event) =
          (⟨update r.partialMessages (activeSessionId outbound) (some { part with content := content }), json⟩,
            some ⟨activeSessionId outbound, { part with content := content }, event,
              (outbound.asObject.bind (field "meta")).bind StreamHost.metaFromValue⟩) := by
  obtain ⟨content, hcontent, hiff⟩ := reconstructContent_of_follows h outbound
  refine ⟨content, hiff, fun r hpart => ?_⟩
  have hid : (compactDelta outbound message event : CompactAssistantDelta F R M).activeSessionId =
    activeSessionId outbound := rfl
  have hsome := hcontent r.toolCallJson
  rw [reconstruct, hid, hpart]
  dsimp only
  generalize reconstructContent r.toolCallJson (compactDelta outbound message event) part.content = made at hsome ⊢
  obtain ⟨json, made⟩ := made
  cases hsome
  exact ⟨json, rfl⟩

/-! ### Runs -/

/-- The receiver has the content of the messages of all sessions. -/
def Mirrors (r : Reconstructor F R) (streams : Streams F) : Prop :=
  ∀ id, (r.partialMessages id).map AssistantMessage.content = streams id

omit [StreamHost F R M] in
theorem Mirrors.update (h : Mirrors r streams) (id : Str)
    (part : Option (AssistantMessage F R)) (json : Str → Option Str) :
    Mirrors ⟨update r.partialMessages id part, json⟩
      (update streams id (part.map AssistantMessage.content)) := by
  intro id'
  by_cases hid : id' = id
  · subst hid
    dsimp only
    rw [update_self, update_self]
  · dsimp only
    rw [update_of_ne hid, update_of_ne hid]
    exact h id'

theorem Mirrors.observe (h : Mirrors r streams) (hother : ∀ (message : AssistantMessage F R)
      (event : CompactAssistantMessageEvent F R),
      messageUpdateOf outbound ≠ .ok (some (message, event))) :
    Mirrors (observe r outbound) (follow streams outbound) := by
  rw [follow]
  split
  · next message event hupdate => exact absurd hupdate (hother message event)
  · rw [CompactStream.observe]
    cases (observed outbound : Observed F R) with
    | nothing => exact h
    | clear id => exact h.update id none _
    | messageStart id message => exact h.update id (some message) _

theorem Mirrors.relay (h : Mirrors r streams) (hstep : ∀ (message : AssistantMessage F R)
      (event : CompactAssistantMessageEvent F R),
      messageUpdateOf outbound = .ok (some (message, event)) → ∃ prev, streams (activeSessionId outbound) = some prev ∧
          Follows prev event message.content ∧ Steady prev message.content event) :
    Mirrors (relay r outbound).1 (follow streams outbound) := by
  by_cases hupdate : ∃ (message : AssistantMessage F R) (event : CompactAssistantMessageEvent F R),
      messageUpdateOf outbound = .ok (some (message, event))
  · obtain ⟨message, event, hupdate⟩ := hupdate
    obtain ⟨prev, hprev, hfollows, hsteady⟩ := hstep message event hupdate
    obtain ⟨part, hpart, rfl⟩ := map_eq_some_iff.1 ((h _).trans hprev)
    obtain ⟨content, hiff, hall⟩ := reconstruct_of_follows hfollows
    obtain ⟨json, hrec⟩ := hall r hpart
    have hnext : follow streams outbound =
        Function.update streams (activeSessionId outbound) (some message.content) := by
      rw [follow, hupdate]
    rw [relay_update hupdate, hrec, hnext, ← hiff.2 hsteady]
    exact h.update _ (some { part with content := content }) json
  · rw [relay_other fun message event heq => hupdate ⟨message, event, heq⟩]
    exact h.observe fun message event heq => hupdate ⟨message, event, heq⟩

theorem Mirrors.foldl (h : Mirrors r streams)
    {outbounds : List (Json F)} (hrun : Steadily streams outbounds) :
    Mirrors (outbounds.foldl (fun r outbound => (CompactStream.relay r outbound).1) r)
      (outbounds.foldl follow streams) := by
  induction outbounds generalizing r streams with
  | nil => exact h
  | cons outbound outbounds ih => exact ih (h.relay hrun.1) hrun.2

/-- The receiver has the messages of all sessions, in every interleaving of steady streams. -/
theorem Mirrors.run {outbounds : List (Json F)} (h : Steadily (fun _ => none) outbounds) :
    Mirrors (run outbounds) (streamsOf outbounds) :=
  Mirrors.foldl (fun _ => rfl) h

/-- Clearing a session changes nothing that is made of another session's updates. -/
theorem relay_clear {id : Str} (hid : activeSessionId outbound ≠ id)
    (hupdate : messageUpdateOf outbound = .ok (some (message, event)))
    {prev : List (ContentBlock F)}
    (hprev : (r.partialMessages (activeSessionId outbound)).map AssistantMessage.content = some prev)
    (hfollows : Follows prev event message.content) :
    (relay (r.clear id) outbound).2 = (relay r outbound).2 := by
  obtain ⟨part, hpart, rfl⟩ := map_eq_some_iff.1 hprev
  have hclear : (r.clear id).partialMessages (activeSessionId outbound) = some part := by
    rw [Reconstructor.clear]
    dsimp only
    rw [update_of_ne hid, hpart]
  obtain ⟨content, -, hall⟩ := reconstruct_of_follows hfollows
  obtain ⟨json, hrec⟩ := hall r hpart
  obtain ⟨json', hrec'⟩ := hall (r.clear id) hclear
  rw [relay_update hupdate, relay_update hupdate, hrec, hrec']

/-- **An update is reconstructed exactly if it is steady**, after any interleaving of steady
streams: the receiver has the messages of all sessions, and clearing one does not change another. -/
theorem reconstructs_iff_steady (outbounds : List (Json F)) (hrun : Steadily (fun _ => none) outbounds) :
    (∀ id, ((run outbounds).partialMessages id).map AssistantMessage.content = streamsOf outbounds id) ∧
    ∀ (outbound : Json F) (message : AssistantMessage F R) (event : CompactAssistantMessageEvent F R)
      (prev : List (ContentBlock F)),
      messageUpdateOf outbound = .ok (some (message, event)) →
      streamsOf outbounds (activeSessionId outbound) = some prev →
      Follows prev event message.content →
      ((∃ update, (relay (run outbounds) outbound).2 = some update ∧
          update.message.content = message.content) ↔ Steady prev message.content event) ∧
      ∀ id, activeSessionId outbound ≠ id →
        (relay ((run outbounds).clear id) outbound).2 = (relay (run outbounds) outbound).2 := by
  have hmirrors := Mirrors.run hrun
  refine ⟨hmirrors, fun outbound message event prev hupdate hprev hfollows => ⟨?_, fun id hid => ?_⟩⟩
  · obtain ⟨part, hpart, rfl⟩ := map_eq_some_iff.1 ((hmirrors _).trans hprev)
    obtain ⟨content, hiff, hall⟩ := reconstruct_of_follows hfollows
    obtain ⟨json, hrec⟩ := hall _ hpart
    rw [relay_update hupdate, hrec, ← hiff]
    constructor
    · rintro ⟨update, hmade, hcontent⟩
      cases hmade
      exact hcontent
    · intro hcontent
      exact ⟨_, rfl, hcontent⟩
  · exact relay_clear hid hupdate ((hmirrors _).trans hprev) hfollows

end

/-! ### A signature at the end of a block -/

section

/-- A block as it is written in a message. -/
def readBlock (value : Json Empty) : Option (ContentBlock Empty) := do
  let fields ← value.asObject
  if fieldStr "type" fields = some "text" then
    return .text ⟨← fieldStr "text" fields, fieldStr "textSignature" fields⟩
  else if fieldStr "type" fields = some "thinking" then
    return .thinking ⟨← fieldStr "thinking" fields, fieldStr "thinkingSignature" fields, none⟩
  else
    return .toolCall ⟨← fieldStr "id" fields, ← fieldStr "name" fields,
      ← (field "arguments" fields).bind Json.asObject, fieldStr "thoughtSignature" fields⟩

def readMessage (value : Json Empty) : Except Str (AssistantMessage Empty Unit) :=
  match ((value.asObject.bind (field "content")).bind Json.asArray).bind (·.mapM readBlock) with
  | some content => .ok ⟨content, ()⟩
  | none => .error "missing field content"

/-- The events of a thought. -/
def readEvent (value : Json Empty) : Except Str (CompactAssistantMessageEvent Empty Unit) :=
  match value.asObject.bind (fieldStr "type"), (value.asObject.bind (field "contentIndex")).bind Json.asI64,
    (value.asObject.bind (fieldStr "content")) with
  | some type, some index, some content =>
    if type = "thinking_end" then .ok (.thinkingEnd index.toNat content) else .error "unknown variant"
  | some type, some index, none =>
    if type = "thinking_start" then .ok (.thinkingStart index.toNat) else .error "unknown variant"
  | _, _, _ => .error "missing field"

instance sampleHost : StreamHost Empty Unit Unit where
  messageFromValue := readMessage
  eventFromValue := readEvent
  metaFromValue _ := none
  parseStreamingJson _ := .null

def thoughtValue (thinking : Str) (signature : List (Str × Json Empty)) : Json Empty :=
  .object ([(("type" : Str), .string "thinking"), (("thinking" : Str), .string thinking)] ++ signature)

def messageValue (content : List (Json Empty)) : Json Empty :=
  .object [("role", .string "assistant"), ("content", .array content)]

def sessionEvent (type : Str) (message : Json Empty) (event : List (Str × Json Empty)) : Json Empty :=
  .object [("type", .string "session_event"), ("activeSessionId", .string "s"),
    (("event" : Str), .object ([(("type" : Str), .string type), (("message" : Str), message)] ++ event))]

/-- A message starts, and a thought in it. -/
def thinkingStarted : List (Json Empty) := [sessionEvent "message_start" (messageValue []) [],
    sessionEvent "message_update" (messageValue [thoughtValue [] []])
      [("assistantMessageEvent", .object [("type", .string "thinking_start"), ("contentIndex", .number (.int 0))])]]

/-- The thought ends, with a signature or without one. -/
def thinkingEnded (signature : List (Str × Json Empty)) : Json Empty :=
  sessionEvent "message_update" (messageValue [thoughtValue "so" signature])
    [("assistantMessageEvent", .object [("type", .string "thinking_end"),
      ("contentIndex", .number (.int 0)), ("content", .string "so")])]

theorem update_thinkingEnded : messageUpdateOf (thinkingEnded []) =
    .ok (some (⟨[.thinking ⟨"so", none, none⟩], ()⟩, .thinkingEnd 0 "so")) := rfl

theorem update_thinkingEnded_signed : messageUpdateOf (thinkingEnded [(("thinkingSignature" : Str), .string "sig")]) =
      .ok (some (⟨[.thinking ⟨"so", some "sig", none⟩], ()⟩, .thinkingEnd 0 "so")) := rfl

theorem steadily_thinkingStarted : Steadily (fun _ => none) thinkingStarted := by
  refine ⟨fun message event h => ?_, fun message event h => ?_, trivial⟩
  · cases h
  · have hupdate : messageUpdateOf (thinkingStarted.getLast (cons_ne_nil _ _)) =
        .ok (some (⟨[.thinking ⟨[], none, none⟩], ()⟩, .thinkingStart 0)) := rfl
    obtain ⟨rfl, rfl⟩ := Prod.mk.inj (Option.some.inj (Except.ok.inj (h.symm.trans hupdate)))
    exact ⟨[], rfl, Follows.thinkingStart le_rfl none none, rfl⟩

theorem streamsOf_thinkingStarted : streamsOf thinkingStarted "s" = some [.thinking ⟨[], none, none⟩] := rfl

theorem follows_thinkingEnded (signature : Option Str) :
    Follows (F := Empty) (R := Unit) [.thinking ⟨[], none, none⟩] (.thinkingEnd 0 "so")
      [.thinking ⟨"so", signature, none⟩] := .thinkingEnd rfl "so" signature none

theorem reconstructs_iff_steady_thought :
    ∃ update, (relay (run thinkingStarted) (thinkingEnded [])).2 = some update ∧
      update.message.content = [.thinking ⟨"so", none, none⟩] :=
  (((reconstructs_iff_steady thinkingStarted steadily_thinkingStarted).2 _ _ _ _ update_thinkingEnded
    streamsOf_thinkingStarted (follows_thinkingEnded none)).1).2 rfl

/-- The signature that comes with the end of a thought is lost. -/
theorem end_loses_signature : Steadily (fun _ => none) thinkingStarted ∧
    streamsOf thinkingStarted "s" = some [.thinking ⟨[], none, none⟩] ∧
    messageUpdateOf (thinkingEnded [(("thinkingSignature" : Str), .string "sig")]) =
      .ok (some (⟨[.thinking ⟨"so", some "sig", none⟩], ()⟩, .thinkingEnd 0 "so")) ∧
    Follows (F := Empty) (R := Unit) [.thinking ⟨[], none, none⟩] (.thinkingEnd 0 "so")
      [.thinking ⟨"so", some "sig", none⟩] ∧
    ((relay (run thinkingStarted) (thinkingEnded [(("thinkingSignature" : Str), .string "sig")])).2.map
      fun update => update.message.content) = some [.thinking ⟨"so", none, none⟩] :=
  ⟨steadily_thinkingStarted, streamsOf_thinkingStarted, update_thinkingEnded_signed,
    follows_thinkingEnded (some "sig"), rfl⟩

end

end CompactStream
