/-
**Transcripts in chunks.**

A snapshot of a session sends its messages as lines, each of which holds some of them.  A line is
closed when one more message would make it longer than a target.
`modes/daemon/snapshot_transcript_cache.rs` does this three times: in an iterator that is resumed
after each line, in the constructor of the cache, and for the messages that a worker sends to the
cache.  This module embeds the three, with the storing of the lines in memory and, above a limit, in
files.  Every operation on the file system may fail.

The first two count the separator before a message also where the message turns out to begin a line,
the third counts it after each message.  In each case a line is counted as at least as long as it
is, and this is enough.

The JSON library is a parameter: a chunk line is read back as its index and its messages.
-/

import OptimusAgent.Checked
import OptimusAgent.Text
import OptimusAgent.Utf8

namespace SnapshotTranscript

open Str List Function Nat

/-! ### Chunk lines -/

/-- A line as it is read. -/
structure SnapshotChunk (V : Type) where
  index : ℕ
  messages : List V

/-- What the transcript takes from the JSON library, for values `V`. -/
class SnapshotHost (V : outParam Type) where
  jsonString : Str → Str
  fromStr : Str → Option V
  decodeChunk : List UInt8 → Option (SnapshotChunk V)

def joinComma : List Str → Str
  | [] => []
  | [t] => t
  | t :: rest => t ++ ',' :: joinComma rest

section

variable {V : Type} [SnapshotHost V]

/-- A line up to its index. -/
def chunkHead (activeSessionId snapshotId : Str) : Str :=
  "\x7b\"type\":\"session_snapshot_chunk\",\"activeSessionId\":" ++
    SnapshotHost.jsonString activeSessionId ++ ",\"snapshotId\":" ++
    SnapshotHost.jsonString snapshotId ++ ",\"index\":"

def chunkLine (activeSessionId snapshotId : Str) (index : ℕ) (messages : List Str) : List UInt8 :=
  Utf8.encode (chunkHead activeSessionId snapshotId ++ dec index ++ ",\"messages\":[" ++
    joinComma messages ++ "]\x7d\n")

variable (V) in
/-- A chunk line is read as its index and the values of its messages. -/
class LawfulSnapshotHost : Prop where
  decodeChunk_chunkLine : ∀ (activeSessionId snapshotId : Str) (index : ℕ) (messages : List Str)
    (values : List V), messages.map SnapshotHost.fromStr = values.map some →
      SnapshotHost.decodeChunk (chunkLine activeSessionId snapshotId index messages) = some ⟨index, values⟩

def snapshotTargetChunkBytes : ℕ := 512 * 1024

def snapshotMemoryCacheBytes : ℕ := 4 * 1024 * 1024

structure Options where
  activeSessionId : Str
  snapshotId : Str
  targetChunkBytes : Option ℕ
  memoryCacheBytes : Option ℕ

def Options.target (o : Options) : ℕ := o.targetChunkBytes.getD snapshotTargetChunkBytes

-- Messages, with their JSON texts.
variable (o : Options) {M : Type} (toText : M → Except Str Str)

/-! ### The iterator -/

structure SnapshotTranscriptChunks (M : Type) where
  serializedMessages : List Str
  serializedBytes : ℕ
  index : ℕ
  /-- The messages from the message index on. -/
  rest : List M
  finished : Bool

def createSnapshotTranscriptChunks (messages : List M) : SnapshotTranscriptChunks M := ⟨[], 0, 0, messages, false⟩

def SnapshotTranscriptChunks.flush (s : SnapshotTranscriptChunks M) :
    Option (List UInt8) × SnapshotTranscriptChunks M :=
  if s.serializedMessages = [] then (none, s)
  else
    (some (chunkLine o.activeSessionId o.snapshotId s.index s.serializedMessages),
      { s with serializedMessages := [], serializedBytes := 0, index := s.index + 1 })

def SnapshotTranscriptChunks.push (s : SnapshotTranscriptChunks M) (serialized : Str) (bytes : ℕ) :
    SnapshotTranscriptChunks M :=
  { s with
    serializedMessages := s.serializedMessages ++ [serialized]
    serializedBytes := s.serializedBytes + bytes }

/-- The loop of a call: it ends with a line, or with the messages. -/
def fill : List M → SnapshotTranscriptChunks M → Option (List UInt8) × SnapshotTranscriptChunks M
  | [], s => (none, { s with rest := [] })
  | message :: rest, s =>
    match toText message with
    | .error _ => fill rest s
    | .ok serialized =>
      let bytes := byteLen serialized + if s.serializedMessages = [] then 0 else 1
      if s.serializedMessages ≠ [] ∧ s.serializedBytes + bytes > o.target then
        match s.flush o with
        | (some chunk, s) => (some chunk, { s.push serialized bytes with rest := rest })
        | (none, s) => fill rest (s.push serialized bytes)
      else fill rest (s.push serialized bytes)

/-- The next line, or the error of a transcript that is aborted. -/
def next (aborted : Bool) (s : SnapshotTranscriptChunks M) :
    Option (Except Unit (List UInt8)) × SnapshotTranscriptChunks M :=
  if s.finished then (none, s)
  else if aborted then (some (.error ()), { s with finished := true })
  else
    match fill o toText s.rest s with
    | (some chunk, s) => (some (.ok chunk), s)
    | (none, s) =>
      match { s with finished := true }.flush o with
      | (chunk, s) => (chunk.map .ok, s)

/-- Calls for lines until there is none, at most so often. -/
def collect (aborted : Bool) : ℕ → SnapshotTranscriptChunks M → Option (List (Except Unit (List UInt8)))
  | 0, _ => none
  | fuel + 1, s =>
    match next o toText aborted s with
    | (none, _) => some []
    | (some line, s) => (collect aborted fuel s).map (line :: ·)

/-! ### The cache -/

inductive StoredChunk where
  | buffer (bytes : List UInt8)
  /-- A file of the cache directory, which is named by a number. -/
  | path (number : ℕ)

structure Cache where
  chunks : List StoredChunk
  /-- The files of the cache directory, if it was made. -/
  cacheDirectory : Option (ℕ → Option (List UInt8))
  totalBytes : ℕ
  completed : Bool
  failure : Option Str
  disposed : Bool
  /-- The number of operations on the file system so far. -/
  operations : ℕ

def Cache.empty : Cache := ⟨[], none, 0, false, none, false, 0⟩

-- The errors of the operations on the file system, by their numbers.
variable (fault : ℕ → Option Str)

/-- Moves chunks from memory to files, up to one that cannot be written. -/
def spill : (ℕ → Option (List UInt8)) → ℕ → ℕ → List StoredChunk →
    (ℕ → Option (List UInt8)) × ℕ × List StoredChunk × Except Str Unit
  | files, operations, _, [] => (files, operations, [], .ok ())
  | files, operations, index, .path number :: rest =>
    match spill files operations (index + 1) rest with
    | (files, operations, rest, result) => (files, operations, .path number :: rest, result)
  | files, operations, index, .buffer bytes :: rest =>
    match fault operations with
    | some error => (files, operations + 1, .buffer bytes :: rest, .error error)
    | none =>
      match spill (update files index (some bytes)) (operations + 1) (index + 1) rest with
      | (files, operations, rest, result) => (files, operations, .path index :: rest, result)

/-- The cache with its chunks in files, once they are too large for the memory. -/
def Cache.spilled (c : Cache) : Cache × Except Str Unit :=
  if c.cacheDirectory = none ∧ c.totalBytes > o.memoryCacheBytes.getD snapshotMemoryCacheBytes then
    -- The directory is made first.
    match fault c.operations with
    | some error => ({ c with operations := c.operations + 1 }, .error error)
    | none =>
      match spill fault (fun _ => none) (c.operations + 1) 0 c.chunks with
      | (files, operations, chunks, result) =>
        ({ c with cacheDirectory := some files, chunks := chunks, operations := operations }, result)
  else (c, .ok ())

def storeChunk (c : Cache) (buffer : List UInt8) : Cache × Except Str Unit :=
  match { c with totalBytes := c.totalBytes + buffer.length }.spilled o fault with
  | (c, .error error) => (c, .error error)
  | (c, .ok _) =>
    match c.cacheDirectory with
    | some files =>
      match fault c.operations with
      | some error => ({ c with operations := c.operations + 1 }, .error error)
      | none =>
        ({ c with
            cacheDirectory := some (update files c.chunks.length (some buffer))
            chunks := c.chunks ++ [.path c.chunks.length]
            operations := c.operations + 1 }, .ok ())
    | none => ({ c with chunks := c.chunks ++ [.buffer buffer] }, .ok ())

/-- The first failure is kept. -/
def Cache.markFailed (c : Cache) (error : Str) : Cache := { c with failure := c.failure.or (some error) }

def Cache.readChunk (c : Cache) (index : ℕ) : Except Str (List UInt8) :=
  match c.chunks[index]? with
  | none => .error ("Unknown snapshot transcript chunk: " ++ dec index)
  | some (.buffer bytes) => .ok bytes
  | some (.path number) =>
    match c.cacheDirectory.bind fun files => files number with
    | some bytes => .ok bytes
    | none => .error "file not found"

/-- All chunks, in their order. -/
def Cache.iterChunks (c : Cache) : Except Str (List (List UInt8)) := (range c.chunks.length).mapM c.readChunk

def flushMessages (c : Cache) (serializedMessages : List Str) : Cache :=
  if serializedMessages = [] then c
  else
    match storeChunk o fault c (chunkLine o.activeSessionId o.snapshotId c.chunks.length serializedMessages) with
    | (c, .ok _) => c
    | (c, .error error) => c.markFailed error

/-- The loop over the messages, with those of the line so far and the bytes that were counted. -/
def encodeMessages : List M → Cache → List Str → ℕ → Cache
  | [], c, serializedMessages, _ => flushMessages o fault c serializedMessages
  | message :: rest, c, serializedMessages, serializedBytes =>
    match toText message with
    | .error _ => encodeMessages rest c serializedMessages serializedBytes
    | .ok serialized =>
      let bytes := byteLen serialized + if serializedMessages = [] then 0 else 1
      if serializedMessages ≠ [] ∧ serializedBytes + bytes > o.target then
        encodeMessages rest (flushMessages o fault c serializedMessages) [serialized] bytes
      else encodeMessages rest c (serializedMessages ++ [serialized]) (serializedBytes + bytes)

/-- A cache that is made with its messages. -/
def Cache.new (messages : List M) : Cache :=
  { encodeMessages o toText fault messages .empty [] 0 with completed := true }

def appendEncodedChunk (c : Cache) (buffer : List UInt8) : Except Str Cache :=
  if c.completed ∨ c.failure ≠ none ∨ c.disposed then
    .error ("Snapshot transcript " ++ o.snapshotId ++ " is not writable")
  else
    match storeChunk o fault c buffer with
    | (c, .ok _) => .ok c
    | (_, .error error) => .error error

def markComplete (c : Cache) : Except Str Cache :=
  if c.completed then .ok c
  else if c.failure ≠ none ∨ c.disposed then
    .error ("Snapshot transcript " ++ o.snapshotId ++ " cannot be completed")
  else .ok { c with completed := true }

def appendMessageStrings (c : Cache) (messages : List Str) : Except Str Cache :=
  appendEncodedChunk o fault c (chunkLine o.activeSessionId o.snapshotId c.chunks.length messages)

/-- The loop over the messages of a worker. -/
def appendLoop : List M → Cache → List Str → ℕ → Except Str Cache
  | [], c, chunk, _ => do
      let c ← if chunk = [] then .ok c else appendMessageStrings o fault c chunk
      markComplete o c
  | message :: rest, c, chunk, bytes =>
    match toText message with
    | .error error => .error error
    | .ok encoded =>
      if chunk ≠ [] ∧ bytes + byteLen encoded > o.target then do
        let c ← appendMessageStrings o fault c chunk
        appendLoop rest c [encoded] (byteLen encoded + 1)
      else appendLoop rest c (chunk ++ [encoded]) (bytes + (byteLen encoded + 1))

def appendMessages (c : Cache) (messages : List M) : Except Str Cache :=
  appendLoop o toText fault messages c [] 0

/-! ### The messages of the lines -/

/-- The messages of the lines.  A message is counted with `slack` more bytes when it is added to a
line, and so that at least one separator is counted for all but the first message of a line. -/
def groups (slack target : ℕ) : ℕ → List Str → List Str → List (List Str)
  | _, group, [] => if group = [] then [] else [group]
  | bytes, group, t :: rest =>
    if group ≠ [] ∧ bytes + (byteLen t + slack) > target then
      group :: groups slack target (byteLen t + 1) [t] rest
    else
      groups slack target (bytes + (byteLen t + if group = [] then 1 - slack else 1)) (group ++ [t]) rest

/-- The first way to count: a message with a separator before it, unless the line is empty. -/
theorem groups_one_cons (target bytes : ℕ) (group : List Str) (t : Str) (rest : List Str) :
    groups 1 target bytes group (t :: rest) =
      let more := byteLen t + if group = [] then 0 else 1
      if group ≠ [] ∧ bytes + more > target then group :: groups 1 target more [t] rest
      else groups 1 target (bytes + more) (group ++ [t]) rest := by
  by_cases hgroup : group = [] <;> simp [groups, hgroup]

/-- The other way: a message with a separator after it. -/
theorem groups_zero_cons (target bytes : ℕ) (group : List Str) (t : Str) (rest : List Str) :
    groups 0 target bytes group (t :: rest) =
      if group ≠ [] ∧ bytes + byteLen t > target then group :: groups 0 target (byteLen t + 1) [t] rest
      else groups 0 target (bytes + (byteLen t + 1)) (group ++ [t]) rest := by
  by_cases hgroup : group = [] <;> simp [groups, hgroup]

variable {group : List Str} {lines : List (List UInt8)} {c : Cache}

theorem joinComma_concat (h : group ≠ []) (t : Str) : joinComma (group ++ [t]) = joinComma group ++ ',' :: t := by
  induction group with
  | nil => exact absurd rfl h
  | cons first rest ih =>
    cases rest with
    | nil => rfl
    | cons second rest =>
      change first ++ ',' :: joinComma ((second :: rest) ++ [t]) = _
      rw [ih (cons_ne_nil _ _)]
      exact (append_assoc first (',' :: joinComma (second :: rest)) (',' :: t)).symm

theorem byteLen_joinComma_concat (h : group ≠ []) (t : Str) :
    byteLen (joinComma (group ++ [t])) = byteLen (joinComma group) + (1 + byteLen t) := by
  rw [joinComma_concat h, byteLen_append, byteLen_cons]
  rfl

/-- **The groups are the messages in order**, none is empty, and only single messages exceed the
target. -/
theorem groups_spec {slack : ℕ} (hslack : slack ≤ 1) (target : ℕ) (rest : List Str) (bytes : ℕ) (group : List Str)
    (hbytes : group ≠ [] → byteLen (joinComma group) + (1 - slack) ≤ bytes)
    (hsingle : target < byteLen (joinComma group) → group.length ≤ 1) :
    (groups slack target bytes group rest).flatten = group ++ rest ∧
      ∀ g ∈ groups slack target bytes group rest, g ≠ [] ∧ (target < byteLen (joinComma g) → g.length = 1) := by
  have hlength : ∀ g : List Str, g ≠ [] → g.length ≤ 1 → g.length = 1 :=
    fun g hg hle => le_antisymm hle (length_pos_iff.2 hg)
  induction rest generalizing bytes group with
  | nil =>
    rw [groups]
    split_ifs with hgroup
    · simp [hgroup]
    · refine ⟨by simp, fun g hg => ?_⟩
      obtain rfl := mem_singleton.1 hg
      exact ⟨hgroup, fun hlong => hlength g hgroup (hsingle hlong)⟩
  | cons t rest ih =>
    rw [groups]
    split_ifs with hfull hgroup
    · obtain ⟨hflat, hall⟩ := ih (byteLen t + 1) [t]
        (fun _ => Nat.add_le_add_left (Nat.sub_le 1 slack) _) fun _ => Nat.le_refl 1
      refine ⟨by rw [flatten_cons, hflat, singleton_append], ?_⟩
      exact forall_mem_cons.2 ⟨⟨hfull.1, fun hlong => hlength group hfull.1 (hsingle hlong)⟩, hall⟩
    · subst hgroup
      exact ih _ _ (fun _ => by simp [joinComma]) fun _ => le_refl 1
    · -- There is room for the message.
      have hroom : bytes + (byteLen t + slack) ≤ target := not_lt.1 fun hlt => hfull ⟨hgroup, hlt⟩
      have hjoined := byteLen_joinComma_concat hgroup t
      have hcounted := hbytes hgroup
      obtain ⟨hflat, hall⟩ := ih (bytes + (byteLen t + 1)) (group ++ [t])
        (fun _ => by omega) fun hlong => by omega
      exact ⟨by rw [hflat, append_assoc, singleton_append], hall⟩

/-- The lines of groups, with their indices. -/
def render : ℕ → List (List Str) → List (List UInt8)
  | _, [] => []
  | index, group :: rest => chunkLine o.activeSessionId o.snapshotId index group :: render (index + 1) rest

/-- The texts of the messages that have one. -/
def serialized (messages : List M) : List Str := messages.filterMap fun m => (toText m).toOption

theorem serialized_cons_ok {m : M} {t : Str} (h : toText m = .ok t) (rest : List M) :
    serialized toText (m :: rest) = t :: serialized toText rest := by
  rw [serialized, filterMap_cons_some (by rw [h]; rfl)]
  rfl

theorem serialized_cons_error {m : M} {error : Str} (h : toText m = .error error) (rest : List M) :
    serialized toText (m :: rest) = serialized toText rest := by
  rw [serialized, filterMap_cons_none (by rw [h]; rfl)]
  rfl

/-! ### The lines of the iterator -/

/-- The lines that an iterator will give for messages. -/
def SnapshotTranscriptChunks.coming (s : SnapshotTranscriptChunks M) (messages : List M) : List (List UInt8) :=
  render o s.index (groups 1 o.target s.serializedBytes s.serializedMessages (serialized toText messages))

theorem fill_eq (messages : List M) (s : SnapshotTranscriptChunks M) (hfinished : s.finished = false) :
    (∃ line s', fill o toText messages s = (some line, s') ∧ s'.finished = false ∧
      s.coming o toText messages = line :: s'.coming o toText s'.rest) ∨
    ∃ s', fill o toText messages s = (none, s') ∧ s.coming o toText messages = (s'.flush o).1.toList := by
  induction messages generalizing s with
  | nil =>
    refine .inr ⟨_, rfl, ?_⟩
    simp only [SnapshotTranscriptChunks.coming, serialized, filterMap_nil, groups, SnapshotTranscriptChunks.flush]
    split_ifs <;> rfl
  | cons m rest ih =>
    rw [fill]
    cases htext : toText m with
    | error error =>
      rw [SnapshotTranscriptChunks.coming, serialized_cons_error toText htext]
      exact ih s hfinished
    | ok t =>
      rw [SnapshotTranscriptChunks.coming, serialized_cons_ok toText htext, groups_one_cons]
      simp only
      by_cases hfull : s.serializedMessages ≠ [] ∧ s.serializedBytes +
          (byteLen t + if s.serializedMessages = [] then 0 else 1) > o.target
      · rw [if_pos hfull, if_pos hfull, SnapshotTranscriptChunks.flush, if_neg hfull.1, render]
        refine .inl ⟨_, _, rfl, hfinished, ?_⟩
        simp only [SnapshotTranscriptChunks.coming, SnapshotTranscriptChunks.push, zero_add, nil_append]
      · rw [if_neg hfull, if_neg hfull]
        exact ih (s.push t _) hfinished

/-- **The lines of the iterator.** -/
theorem collect_eq {fuel : ℕ} {s : SnapshotTranscriptChunks M} (hfinished : s.finished = false)
    (hfuel : (s.coming o toText s.rest).length < fuel) :
    collect o toText false fuel s = some ((s.coming o toText s.rest).map .ok) := by
  induction fuel generalizing s with
  | zero => exact absurd hfuel (not_lt_zero _)
  | succ fuel ih =>
    rw [collect, next, if_neg (by rw [hfinished]; exact Bool.false_ne_true), if_neg Bool.false_ne_true]
    rcases fill_eq o toText s.rest s hfinished with ⟨line, s', hfill, hfinished', hcoming⟩ | ⟨s', hfill, hcoming⟩
    · rw [hcoming, length_cons] at hfuel
      simp only [hfill]
      rw [ih hfinished' (lt_of_succ_lt_succ hfuel), hcoming]
      rfl
    · -- The last line, and a call that finds the iterator finished.
      rw [hcoming] at hfuel ⊢
      simp only [hfill, SnapshotTranscriptChunks.flush] at hfuel ⊢
      by_cases hempty : s'.serializedMessages = []
      · rw [if_pos hempty, if_pos hempty]
        rfl
      · rw [if_neg hempty] at hfuel ⊢
        rw [if_neg hempty]
        obtain ⟨fuel, rfl⟩ := exists_eq_succ_of_ne_zero (ne_of_gt (lt_of_succ_lt_succ hfuel))
        rfl

/-! ### The lines of the cache -/

/-- What the cache holds. -/
inductive Holds (lines : List (List UInt8)) (c : Cache) : Prop where
  | memory (hdirectory : c.cacheDirectory = none) (hchunks : c.chunks = lines.map .buffer)
  | files (files : ℕ → Option (List UInt8)) (hdirectory : c.cacheDirectory = some files)
      (hchunks : c.chunks = (range lines.length).map .path)
      (hfiles : ∀ i (h : i < lines.length), files i = some (lines[i]))

omit [SnapshotHost V] in
theorem Holds.length (h : Holds lines c) : c.chunks.length = lines.length := by
  cases h with
  | memory _ hchunks => rw [hchunks, length_map]
  | files _ _ hchunks _ => rw [hchunks, length_map, length_range]

omit [SnapshotHost V] in
/-- Chunks in memory become files with their numbers. -/
theorem spill_buffers {files files' : ℕ → Option (List UInt8)} {operations operations' index : ℕ}
    {chunks : List StoredChunk} (h : spill fault files operations index (lines.map .buffer) =
      (files', operations', chunks, .ok ())) :
    chunks = (range' index lines.length).map .path ∧ (∀ i < index, files' i = files i) ∧
      ∀ i (h : i < lines.length), files' (index + i) = some (lines[i]) := by
  induction lines generalizing files operations index chunks with
  | nil =>
    cases h
    exact ⟨rfl, fun _ _ => rfl, fun i h => absurd h (not_lt_zero i)⟩
  | cons line rest ih =>
    rw [map_cons, spill] at h
    cases hfault : fault operations with
    | some error =>
      rw [hfault] at h
      cases h
    | none =>
      rw [hfault] at h
      generalize hrest : spill fault (update files index (some line)) (operations + 1) (index + 1)
        (rest.map .buffer) = spilled at h
      obtain ⟨files'', operations'', chunks'', result⟩ := spilled
      cases h
      obtain ⟨hchunks, hbelow, habove⟩ := ih hrest
      refine ⟨?_, fun i hi => ?_, fun i h => ?_⟩
      · rw [hchunks]
        rfl
      · rw [hbelow i (by omega), update_of_ne (by omega)]
      · cases i with
        | zero => rw [add_zero, hbelow index (by omega), update_self]; rfl
        | succ i =>
          have hi := habove i (lt_of_succ_lt_succ h)
          rw [add_right_comm] at hi
          exact hi

section

omit [SnapshotHost V]

variable {c' : Cache}

theorem Holds.spilled (h : Holds lines c) (hok : c.spilled o fault = (c', .ok ())) : Holds lines c' := by
  rw [Cache.spilled] at hok
  split_ifs at hok with hlarge
  · cases hfault : fault c.operations with
    | some error =>
      rw [hfault] at hok
      cases hok
    | none =>
      rw [hfault] at hok
      generalize hspill : spill fault (fun _ => none) (c.operations + 1) 0 c.chunks = spilled at hok
      obtain ⟨files, operations, chunks, result⟩ := spilled
      cases hok
      cases h with
      | memory _ hchunks =>
        rw [hchunks] at hspill
        obtain ⟨hpaths, -, hfiles⟩ := spill_buffers fault hspill
        exact .files files rfl (by rw [hpaths, range_eq_range']) fun i hi => by rw [← hfiles i hi, zero_add]
      | files files hdirectory => exact absurd (hdirectory.symm.trans hlarge.1) (Option.some_ne_none _)
  · cases hok
    exact h

theorem Holds.store (h : Holds lines c) {buffer : List UInt8}
    (hok : storeChunk o fault c buffer = (c', .ok ())) : Holds (lines ++ [buffer]) c' := by
  have hcounted : Holds lines { c with totalBytes := c.totalBytes + buffer.length } := by
    cases h with
    | memory hdirectory hchunks => exact .memory hdirectory hchunks
    | files files hdirectory hchunks hfiles => exact .files files hdirectory hchunks hfiles
  rw [storeChunk] at hok
  generalize hspill : ({ c with totalBytes := c.totalBytes + buffer.length } : Cache).spilled o fault =
    spilled at hok
  obtain ⟨c₁, _ | _⟩ := spilled
  · cases hok
  have hspilled := hcounted.spilled o fault hspill
  have hlength := hspilled.length
  cases hspilled with
  | memory hdirectory hchunks =>
    simp only [hdirectory] at hok
    cases hok
    exact .memory rfl (by rw [hchunks, map_append]; rfl)
  | files files hdirectory hchunks hfiles =>
    simp only [hdirectory] at hok
    cases hfault : fault c₁.operations with
    | some error =>
      rw [hfault] at hok
      cases hok
    | none =>
      rw [hfault] at hok
      cases hok
      refine .files _ rfl ?_ fun i hi => ?_
      · rw [hlength, hchunks, length_append, length_singleton, range_succ, map_append]
        rfl
      · rw [hlength]
        by_cases hlast : i = lines.length
        · subst hlast
          simp
        · rw [length_append, length_singleton] at hi
          have hlt : i < lines.length := by omega
          rw [update_of_ne hlast, hfiles i hlt, getElem_append_left hlt]

def Cache.flags (c : Cache) : Bool × Option Str × Bool := (c.completed, c.failure, c.disposed)

theorem storeChunk_flags (c : Cache) (buffer : List UInt8) :
    (storeChunk o fault c buffer).1.flags = c.flags := by
  have hspilled (c : Cache) : (c.spilled o fault).1.flags = c.flags := by
    rw [Cache.spilled]
    split_ifs
    · split <;> rfl
    · rfl
  have h := hspilled { c with totalBytes := c.totalBytes + buffer.length }
  rw [storeChunk]
  split
  · next heq => rwa [heq] at h
  · next heq =>
    rw [heq] at h
    split
    · split <;> exact h
    · exact h

theorem spill_of_no_fault (hfault : ∀ n, fault n = none) (files : ℕ → Option (List UInt8))
    (operations index : ℕ) (chunks : List StoredChunk) :
    (spill fault files operations index chunks).2.2.2 = .ok () := by
  induction chunks generalizing files operations index with
  | nil => rfl
  | cons chunk rest ih => cases chunk <;> simp [spill, hfault, ih]

theorem storeChunk_of_no_fault (hfault : ∀ n, fault n = none) (c : Cache) (buffer : List UInt8) :
    ∃ c', storeChunk o fault c buffer = (c', .ok ()) := by
  have hspilled (c : Cache) : (c.spilled o fault).2 = .ok () := by
    rw [Cache.spilled, hfault]
    split_ifs
    · exact spill_of_no_fault fault hfault _ _ _ _
    · rfl
  have h := hspilled { c with totalBytes := c.totalBytes + buffer.length }
  rw [storeChunk]
  generalize ({ c with totalBytes := c.totalBytes + buffer.length } : Cache).spilled o fault = spilled at h
  obtain ⟨c', result⟩ := spilled
  cases h
  simp only [hfault]
  split <;> exact ⟨_, rfl⟩

end

omit [SnapshotHost V] in
/-- **The chunks are read back as they were stored.** -/
theorem Holds.iterChunks (h : Holds lines c) : c.iterChunks = .ok lines := by
  rw [Cache.iterChunks, Checked.mapM_eq_ok_iff, h.length]
  refine forall₂_iff_get.2 ⟨length_range, fun i hrange hi => ?_⟩
  simp only [get_eq_getElem, getElem_range, Cache.readChunk]
  cases h with
  | memory _ hchunks =>
    rw [hchunks, getElem?_map, getElem?_eq_getElem hi]
    rfl
  | files files hdirectory hchunks hfiles =>
    rw [hchunks, getElem?_map, getElem?_range hi]
    simp only [Option.map_some, hdirectory, Option.bind_some, hfiles i hi]

/-- The cache can be written. -/
def Cache.Writable (c : Cache) : Prop := c.completed = false ∧ c.failure = none ∧ c.disposed = false

omit [SnapshotHost V] in
theorem Cache.Writable.store (h : c.Writable) {buffer : List UInt8} {c' : Cache}
    (hok : storeChunk o fault c buffer = (c', .ok ())) : c'.Writable := by
  have hflags := storeChunk_flags o fault c buffer
  simp only [hok, Cache.flags, Prod.mk.injEq] at hflags
  exact ⟨hflags.1.trans h.1, hflags.2.1.trans h.2.1, hflags.2.2.trans h.2.2⟩

theorem append_render_cons (lines : List (List UInt8)) (group : List Str) (gs : List (List Str)) :
    lines ++ render o lines.length (group :: gs) =
      (lines ++ [chunkLine o.activeSessionId o.snapshotId lines.length group]) ++
        render o (lines ++ [chunkLine o.activeSessionId o.snapshotId lines.length group]).length gs := by
  rw [render, length_append, length_singleton, append_assoc, singleton_append]

/-- What the constructor makes of lines: a cache holds them unless it has recorded a failure, and
there is one only if an operation has failed. -/
def Encodes (lines : List (List UInt8)) (c : Cache) : Prop :=
  (c.failure = none → Holds lines c) ∧ ((∀ n, fault n = none) → c.failure = none)

theorem Encodes.flush (h : Encodes fault lines c) (hgroup : group ≠ []) :
    Encodes fault (lines ++ [chunkLine o.activeSessionId o.snapshotId lines.length group])
      (flushMessages o fault c group) := by
  have hflags := storeChunk_flags o fault c (chunkLine o.activeSessionId o.snapshotId c.chunks.length group)
  rw [flushMessages, if_neg hgroup]
  generalize hstore : storeChunk o fault c _ = stored at hflags ⊢
  obtain ⟨c', error | _⟩ := stored
  · refine ⟨fun hok => ?_, fun hfault => ?_⟩
    · simp [Cache.markFailed] at hok
    · obtain ⟨c'', hok⟩ := storeChunk_of_no_fault o fault hfault c _
      cases hstore.symm.trans hok
  · have hfailure : c'.failure = c.failure := congrArg (fun flags => flags.2.1) hflags
    refine ⟨fun hok => ?_, fun hfault => hfailure.trans (h.2 hfault)⟩
    have hholds := h.1 (hfailure.symm.trans hok)
    rw [hholds.length] at hstore
    exact hholds.store o fault hstore

/-- **The lines of a cache that is made with its messages.** -/
theorem encodes_encodeMessages (messages : List M) (h : Encodes fault lines c) (group : List Str) (bytes : ℕ) :
    Encodes fault
      (lines ++ render o lines.length (groups 1 o.target bytes group (serialized toText messages)))
      (encodeMessages o toText fault messages c group bytes) := by
  induction messages generalizing c lines group bytes with
  | nil =>
    rw [encodeMessages, serialized, filterMap_nil, groups]
    split_ifs with hgroup
    · rw [flushMessages, if_pos hgroup, render, append_nil]
      exact h
    · exact h.flush o fault hgroup
  | cons m rest ih =>
    rw [encodeMessages]
    cases htext : toText m with
    | error error =>
      rw [serialized_cons_error toText htext]
      exact ih h group bytes
    | ok t =>
      rw [serialized_cons_ok toText htext, groups_one_cons]
      simp only
      by_cases hfull : group ≠ [] ∧ bytes + (byteLen t + if group = [] then 0 else 1) > o.target
      · rw [if_pos hfull, if_pos hfull, append_render_cons]
        exact ih (h.flush o fault hfull.1) _ _
      · rw [if_neg hfull, if_neg hfull]
        exact ih h _ _

theorem Holds.appendStrings (h : Holds lines c) (hwritable : c.Writable) (group : List Str) :
    appendMessageStrings o fault c group =
      match storeChunk o fault c (chunkLine o.activeSessionId o.snapshotId lines.length group) with
      | (c, .ok _) => .ok c
      | (_, .error error) => .error error := by
  rw [appendMessageStrings, appendEncodedChunk, if_neg, h.length]
  simp [hwritable.1, hwritable.2.1, hwritable.2.2]

omit [SnapshotHost V] in
/-- The flags do not matter for what is held. -/
theorem Holds.completed (h : Holds lines c) : Holds lines { c with completed := true } := by
  cases h with
  | memory hdirectory hchunks => exact .memory hdirectory hchunks
  | files files hdirectory hchunks hfiles => exact .files files hdirectory hchunks hfiles

omit [SnapshotHost V] in
theorem Holds.markComplete (h : Holds lines c)
    (hwritable : c.Writable) : ∃ c', SnapshotTranscript.markComplete o c = .ok c' ∧ Holds lines c' := by
  refine ⟨_, ?_, h.completed⟩
  simp [SnapshotTranscript.markComplete, hwritable.1, hwritable.2.1, hwritable.2.2]

/-- What a run of `append_messages` gives: it is refused only if an operation fails, and else holds
lines. -/
def Appends (result : Except Str Cache) (lines : List (List UInt8)) : Prop :=
  ((∀ n, fault n = none) → ∃ c, result = .ok c) ∧ ∀ c, result = .ok c → Holds lines c

/-- One line is stored, and the rest is done with the cache that is left. -/
theorem Holds.appends_cons (h : Holds lines c) (hwritable : c.Writable) {group : List Str}
    {gs : List (List Str)} {more : Cache → Except Str Cache}
    (hmore : ∀ {lines c}, Holds lines c → c.Writable →
      Appends fault (more c) (lines ++ render o lines.length gs)) :
    Appends fault (appendMessageStrings o fault c group >>= more)
      (lines ++ render o lines.length (group :: gs)) := by
  rw [h.appendStrings o fault hwritable, append_render_cons]
  generalize hstore : storeChunk o fault c _ = stored
  obtain ⟨c', error | _⟩ := stored
  · refine ⟨fun hfault => ?_, fun _ hc => by cases hc⟩
    obtain ⟨c'', hok⟩ := storeChunk_of_no_fault o fault hfault c _
    cases hstore.symm.trans hok
  · exact hmore (h.store o fault hstore) (hwritable.store o fault hstore)

/-- **The lines of the messages of a worker.** -/
theorem appendLoop_appends {messages : List M} (htexts : ∀ m ∈ messages, ∃ t, toText m = .ok t)
    (h : Holds lines c) (hwritable : c.Writable) (group : List Str) (bytes : ℕ) :
    Appends fault (appendLoop o toText fault messages c group bytes)
      (lines ++ render o lines.length (groups 0 o.target bytes group (serialized toText messages))) := by
  have hcomplete {lines : List (List UInt8)} {c : Cache} (h : Holds lines c) (hwritable : c.Writable) :
      Appends fault (markComplete o c) (lines ++ render o lines.length []) := by
    obtain ⟨c', hc', hholds⟩ := h.markComplete o hwritable
    refine ⟨fun _ => ⟨c', hc'⟩, fun c hc => ?_⟩
    cases hc'.symm.trans hc
    rwa [render, append_nil]
  induction messages generalizing c lines group bytes with
  | nil =>
    rw [appendLoop, serialized, filterMap_nil, groups]
    split_ifs with hgroup
    · exact hcomplete h hwritable
    · exact h.appends_cons o fault hwritable hcomplete
  | cons m rest ih =>
    obtain ⟨⟨t, htext⟩, hrest⟩ := forall_mem_cons.1 htexts
    rw [appendLoop, serialized_cons_ok toText htext, groups_zero_cons, htext]
    simp only
    split_ifs with hfull
    · exact h.appends_cons o fault hwritable fun h hwritable => ih hrest h hwritable _ _
    · exact ih hrest h hwritable _ _

/-! ### Faithful partitions -/

/-- What lines have to be for the texts of messages: they are read as chunks with the indices from
zero on, whose messages are the texts in order; no chunk is empty, and only chunks of one message
exceed the target. -/
def Partition (target : ℕ) (texts : List Str) (lines : List (List UInt8)) : Prop :=
  ∃ (gs : List (List Str)) (chunks : List (SnapshotChunk V)), lines.map SnapshotHost.decodeChunk = chunks.map some ∧
    chunks.map SnapshotChunk.index = range chunks.length ∧
    Forall₂ (fun g chunk => g.map SnapshotHost.fromStr = chunk.messages.map some) gs chunks ∧
    gs.flatten = texts ∧
    ∀ g ∈ gs, g ≠ [] ∧ (target < byteLen (joinComma g) → g.length = 1)

theorem exists_values {texts : List Str} (h : ∀ t ∈ texts, (SnapshotHost.fromStr t).isSome = true) :
    ∃ values : List V, texts.map SnapshotHost.fromStr = values.map some := by
  induction texts with
  | nil => exact ⟨[], rfl⟩
  | cons t rest ih =>
    obtain ⟨ht, hrest⟩ := forall_mem_cons.1 h
    obtain ⟨v, hv⟩ := Option.isSome_iff_exists.1 ht
    obtain ⟨values, hvalues⟩ := ih hrest
    exact ⟨v :: values, by rw [map_cons, map_cons, hv, hvalues]⟩

variable [LawfulSnapshotHost V]

/-- The lines of groups are read back. -/
theorem decode_render {gs : List (List Str)}
    (h : ∀ g ∈ gs, ∀ t ∈ g, (SnapshotHost.fromStr t).isSome = true) (index : ℕ) :
    ∃ chunks : List (SnapshotChunk V), (render o index gs).map SnapshotHost.decodeChunk = chunks.map some ∧
      chunks.map SnapshotChunk.index = range' index chunks.length ∧
      Forall₂ (fun g chunk => g.map SnapshotHost.fromStr = chunk.messages.map some) gs chunks := by
  induction gs generalizing index with
  | nil => exact ⟨[], rfl, rfl, .nil⟩
  | cons g rest ih =>
    obtain ⟨hg, hrest⟩ := forall_mem_cons.1 h
    obtain ⟨values, hvalues⟩ := exists_values hg
    obtain ⟨chunks, hlines, hindices, hmessages⟩ := ih hrest (index + 1)
    refine ⟨⟨index, values⟩ :: chunks, ?_, ?_, .cons hvalues hmessages⟩
    · rw [render, map_cons, map_cons, hlines, LawfulSnapshotHost.decodeChunk_chunkLine _ _ _ _ _ hvalues]
    · rw [map_cons, hindices]
      rfl

theorem partition_render {slack : ℕ} (hslack : slack ≤ 1) {texts : List Str}
    (h : ∀ t ∈ texts, (SnapshotHost.fromStr t).isSome = true) :
    Partition o.target texts (render o 0 (groups slack o.target 0 [] texts)) := by
  obtain ⟨hflat, hall⟩ := groups_spec hslack o.target texts 0 []
    (fun hnil => absurd rfl hnil) fun _ => zero_le 1
  have hparsed : ∀ g ∈ groups slack o.target 0 [] texts, ∀ t ∈ g, (SnapshotHost.fromStr t).isSome = true := by
    intro g hg t ht
    refine h t ?_
    rw [← nil_append texts, ← hflat]
    exact mem_flatten.2 ⟨g, hg, ht⟩
  obtain ⟨chunks, hlines, hindices, hmessages⟩ := decode_render o hparsed 0
  refine ⟨_, chunks, hlines, ?_, hmessages, hflat, hall⟩
  rw [hindices, range_eq_range']

/-- **All three ways to form lines give faithful partitions, and the first two the same lines**: the
iterator, the constructor of the cache if it records no failure, and the messages of a worker for a
new cache if they are not refused.  Failures come from the file system only.  Texts of messages can
be parsed, and those of a worker all exist. -/
theorem chunks_partition (hparsed : ∀ m t, toText m = .ok t → (SnapshotHost.fromStr t).isSome = true)
    (messages : List M) :
    ∃ lines, Partition o.target (serialized toText messages) lines ∧
      (∀ fuel > lines.length, collect o toText false fuel (createSnapshotTranscriptChunks messages) =
        some (lines.map .ok)) ∧
      ((Cache.new o toText fault messages).failure = none →
        (Cache.new o toText fault messages).iterChunks = .ok lines) ∧
      ((∀ n, fault n = none) → (Cache.new o toText fault messages).failure = none) ∧
      ((∀ m ∈ messages, ∃ t, toText m = .ok t) →
        ∃ lines', Partition o.target (serialized toText messages) lines' ∧
          ((∀ n, fault n = none) → ∃ c, appendMessages o toText fault .empty messages = .ok c) ∧
          ∀ c, appendMessages o toText fault .empty messages = .ok c → c.iterChunks = .ok lines') := by
  have htexts : ∀ t ∈ serialized toText messages, (SnapshotHost.fromStr t).isSome = true := by
    intro t ht
    obtain ⟨m, -, hm⟩ := mem_filterMap.1 ht
    cases htext : toText m with
    | error error =>
      rw [htext] at hm
      cases hm
    | ok t' =>
      rw [htext] at hm
      cases hm
      exact hparsed m t htext
  have hempty : Holds [] Cache.empty := .memory rfl rfl
  have hencodes := encodes_encodeMessages o toText fault messages ⟨fun _ => hempty, fun _ => rfl⟩ [] 0
  refine ⟨render o 0 (groups 1 o.target 0 [] (serialized toText messages)),
    partition_render o (le_refl 1) htexts, fun fuel hfuel => ?_, fun hok => ?_, fun hfault => ?_,
    fun hall => ?_⟩
  · exact collect_eq o toText rfl hfuel
  · exact (hencodes.1 hok).completed.iterChunks
  · exact hencodes.2 hfault
  · obtain ⟨hok, hholds⟩ := appendLoop_appends o toText fault hall hempty ⟨rfl, rfl, rfl⟩ [] 0
    exact ⟨_, partition_render o (zero_le 1) htexts, hok, fun c hc => (hholds c hc).iterChunks⟩

end

/-! ### A transcript of equal messages -/

/-- Every message has the text `0`. -/
def zeroText (_ : Unit) : Except Str Str := .ok "0"

/-- What stands before the index, if all ids are empty. -/
def zeroHead : Str := "\x7b\"type\":\"session_snapshot_chunk\",\"activeSessionId\":" ++ "\"\"" ++
    ",\"snapshotId\":" ++ "\"\"" ++ ",\"index\":"

def decodeZeros (bytes : List UInt8) : Option (SnapshotChunk Unit) :=
  (Utf8.decode bytes).bind fun text =>
    (splitOnce ',' (text.drop zeroHead.length)).map fun parts =>
      ⟨ofDigitChars 10 parts.1 0, replicate (parts.2.count '0') ()⟩

instance zeroHost : SnapshotHost Unit where
  jsonString _ := "\"\""
  fromStr t := if t = "0" then some () else none
  decodeChunk := decodeZeros

theorem count_joinComma_zeros {group : List Str} (h : ∀ t ∈ group, t = "0") :
    (joinComma group).count '0' = group.length := by
  induction group using reverseRecOn with
  | nil => rfl
  | append_singleton group t ih =>
    obtain rfl := h t (by simp)
    by_cases hgroup : group = []
    · subst hgroup
      decide
    · rw [joinComma_concat hgroup, count_append, ih fun t ht => h t (by simp [ht]), length_append]
      rfl

instance lawfulZeroHost : LawfulSnapshotHost Unit where
  decodeChunk_chunkLine a s index messages values h := by
    have hzeros : ∀ t ∈ messages, t = "0" := by
      intro t ht
      have hmem : SnapshotHost.fromStr t ∈ values.map some := h ▸ mem_map_of_mem ht
      by_contra hne
      obtain ⟨v, -, hv⟩ := mem_map.1 hmem
      rw [show SnapshotHost.fromStr t = none from if_neg hne] at hv
      cases hv
    have hlength : messages.length = values.length := by simpa using congrArg length h
    have hvalues : values = replicate messages.length () := eq_replicate_iff.2 ⟨hlength.symm, fun _ _ => rfl⟩
    have hhead : chunkHead a s = zeroHead := rfl
    have hcomma : ",\"messages\":[" = ',' :: "\"messages\":[" := by decide
    have htail : ("\"messages\":[" ++ (joinComma messages ++ "]\x7d\n")).count '0' = messages.length := by
      rw [count_append, count_append, count_joinComma_zeros hzeros]
      exact zero_add _
    change decodeZeros _ = _
    rw [chunkLine, hhead, hcomma]
    simp only [append_assoc, cons_append]
    rw [decodeZeros, Utf8.decode_encoded, Option.bind_some, drop_left,
      splitOnce_append _ (notMem_dec rfl index), Option.map_some, ofDigitChars_dec, htail, hvalues]

/-- Three messages in two lines, of which the first is moved to a file; if the second file cannot be
written, that is recorded. -/
theorem chunks_partition_zeros :
    (∃ lines, Partition 3 (serialized zeroText [(), (), ()]) lines ∧
      (Cache.new ⟨"", "", some 3, some 100⟩ zeroText (fun _ => none) [(), (), ()]).iterChunks = .ok lines) ∧
      (Cache.new ⟨"", "", some 3, some 100⟩ zeroText (fun n => if n = 2 then some "full" else none)
        [(), (), ()]).failure = some "full" := by
  obtain ⟨lines, hlines, -, hcache, hnone, -⟩ := chunks_partition ⟨"", "", some 3, some 100⟩ zeroText
    (fun _ => none) (fun _ _ h => by cases h; rfl) [(), (), ()]
  exact ⟨⟨lines, hlines, hcache (hnone fun _ => rfl)⟩, by decide +kernel⟩

end SnapshotTranscript
