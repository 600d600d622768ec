/-
**The migration of old session files.**

The entries of a session file of the first version are a plain list.  The migration gives every
entry an id and the id of the entry before it as its parent, and replaces the index from which a
compaction keeps entries by an id.  This module embeds `migrate_to_current_version` of
`core/session_manager.rs`.

The ids are the beginnings of random ids and are not compared with each other.  An index is resolved
while the ids are given out: an entry that stands after the compaction still has the id that it had
before.
-/

import OptimusAgent.RowCodec

namespace SessionMigration

open Str RowCodec List Keyed

/-! ### The migration -/

section

variable {F : Type}

def entryId (entry : FileEntry F) : Str := (fieldStr "id" entry).getD ""

def isSessionHeader (entry : FileEntry F) : Bool := entryType entry = "session"

/-- The fields without one of them: `Map::shift_remove`. -/
def shiftRemove (key : Str) (entry : FileEntry F) : FileEntry F := entry.filter fun e => e.1 ≠ key

def setVersion (version : ℤ) (entry : FileEntry F) : FileEntry F := setField "version" (.number (.int version)) entry

/-- A short id that is not taken, or after the attempts a long one, and how many random ids were
drawn. -/
def generateId (uuid : ℕ → Str) (taken : Str → Bool) : ℕ → ℕ → Str × ℕ
  | 0, drawn => (uuid drawn, drawn + 1)
  | attempts + 1, drawn =>
    if !taken ((uuid drawn).take 8) then ((uuid drawn).take 8, drawn + 1)
    else generateId uuid taken attempts (drawn + 1)

/-- The id of the entry at an index, or else of the entry after the compaction; a header is not
taken. -/
def resolveFirstKept (entries : List (FileEntry F)) (index : ℕ) (firstKeptIndex : ℤ) : Option Str :=
  ((entries[(max firstKeptIndex 0).toNat]?.filter fun target => !isSessionHeader target).map entryId).or
    ((entries[index + 1]?.filter fun target => !isSessionHeader target).map entryId)

def parentValue (prevId : Option Str) : Json F :=
  match prevId with
  | some prev => .string prev
  | none => .null

def withIds (id : Str) (prevId : Option Str) (entry : FileEntry F) : FileEntry F :=
  setField "parentId" (parentValue prevId) (setField "id" (.string id) entry)

section

variable (T : Type) [RowHost F T]

/-- The compaction at an index, with an id in the place of its index. -/
def keepBoundary (entries : List (FileEntry F)) (index : ℕ) (entry : FileEntry F) : FileEntry F :=
  match (field "firstKeptEntryIndex" entry).bind (isSafeInteger T) with
  | none => entry
  | some firstKeptIndex =>
    shiftRemove "firstKeptEntryIndex" <|
      match resolveFirstKept entries index firstKeptIndex with
      | some targetId => setField "firstKeptEntryId" (.string targetId) entry
      | none => entry

/-- An entry with its ids, between the entries that are done and those that are not. -/
def migrateEntry (done rest : List (FileEntry F)) (id : Str) (prevId : Option Str) (entry : FileEntry F) :
    FileEntry F :=
  if entryType (withIds id prevId entry) = "compaction" then
    keepBoundary T (done ++ withIds id prevId entry :: rest) done.length (withIds id prevId entry)
  else withIds id prevId entry

/-- The entries from an index on, after those that are done. -/
def migrateLoop (uuid : ℕ → Str) (done : List (FileEntry F)) : List (FileEntry F) → Option Str → ℕ → List (FileEntry F)
  | [], _, _ => []
  | entry :: rest, prevId, drawn =>
    if isSessionHeader entry then
      let entry' := setVersion 2 entry
      entry' :: migrateLoop uuid (done ++ [entry']) rest prevId drawn
    else
      -- the set of taken ids stays empty
      let drawing := generateId uuid (fun _ => false) 100 drawn
      let entry' := migrateEntry T done rest drawing.1 prevId entry
      entry' :: migrateLoop uuid (done ++ [entry']) rest (some drawing.1) drawing.2

def migrateV1ToV2 (uuid : ℕ → Str) (entries : List (FileEntry F)) : List (FileEntry F) :=
  migrateLoop T uuid [] entries none 0

end

/-- The role of messages of hooks has another name. -/
def renameRole (message : FileEntry F) : FileEntry F :=
  if fieldStr "role" message = some ("hookMessage" : Str) then setField "role" (.string "custom") message
  else message

def migrateEntryV3 (entry : FileEntry F) : FileEntry F :=
  if isSessionHeader entry then setVersion 3 entry
  else if entryType entry = "message" then
    match messageOf entry with
    | some message => setField "message" (.object (renameRole message)) entry
    | none => entry
  else entry

def migrateV2ToV3 (entries : List (FileEntry F)) : List (FileEntry F) := entries.map migrateEntryV3

def currentSessionVersion : ℤ := 3

def versionOf (header : FileEntry F) : ℤ := ((field "version" header).bind Json.asI64).getD 1

/-- The result says whether anything was migrated. -/
def migrateToCurrentVersion (T : Type) [RowHost F T] (uuid : ℕ → Str) (entries : List (FileEntry F)) :
    Bool × List (FileEntry F) :=
  let version := ((entries.find? isSessionHeader).map versionOf).getD 1
  if version ≥ currentSessionVersion then (false, entries)
  else
    let owned := if version < 2 then migrateV1ToV2 T uuid entries else entries
    (true, if version < 3 then migrateV2ToV3 owned else owned)

end

/-! ### What is meant -/

section

variable {F : Type}

/-- Each entry that is not a header follows the one before it. -/
def Chained : Option Str → List (FileEntry F) → Prop
  | _, [] => True
  | prevId, entry :: entries =>
    if isSessionHeader entry then Chained prevId entries
    else field "parentId" entry = some (parentValue prevId) ∧ Chained (some (entryId entry)) entries

/-- The ids of the entries that are not headers. -/
def idsOf (entries : List (FileEntry F)) : List Str := (entries.filter fun e => !isSessionHeader e).map entryId

/-- Whether an entry that is not a header stands at an index. -/
def hasEntryAt (entries : List (FileEntry F)) (index : ℕ) : Bool := entries[index]?.any fun e => !isSessionHeader e

variable (T : Type) [RowHost F T]

/-- The index at which a compaction of the old list begins to keep entries: the one that it has, if
that names an entry, or else the next one. -/
def boundaryTarget (entries : List (FileEntry F)) (index : ℕ) : Option ℕ :=
  match entries[index]?.filter fun e => entryType e = "compaction" with
  | none => none
  | some entry =>
    match (field "firstKeptEntryIndex" entry).bind (isSafeInteger T) with
    | none => none
    | some firstKeptIndex =>
      if 0 ≤ firstKeptIndex ∧ hasEntryAt entries firstKeptIndex.toNat = true then some firstKeptIndex.toNat
      else if hasEntryAt entries (index + 1) = true then some (index + 1)
      else none

/-- The migrated entries are a chain with distinct ids, the boundaries are named by the ids that
their targets have now, and there is nothing left to migrate. -/
structure Sound (entries : List (FileEntry F)) (result : Bool × List (FileEntry F)) : Prop where
  ids : (idsOf result.2).Nodup
  parents : Chained none result.2
  boundaries : ∀ index target, boundaryTarget T entries index = some target →
    ∃ entry kept, result.2[index]? = some entry ∧ result.2[target]? = some kept ∧
      field "firstKeptEntryId" entry = some (.string (entryId kept))
  again : ∀ uuid, migrateToCurrentVersion T uuid result.2 = (false, result.2)

end

/-! ### The fields of a migrated entry -/

section

variable {F T : Type} [RowHost F T]

omit [RowHost F T] in
theorem field_withIds (key id : Str) (prevId : Option Str) (entry : FileEntry F) : field key (withIds id prevId entry) =
      if key = "parentId" then some (parentValue prevId)
      else if key = "id" then some (.string id) else field key entry := by
  rw [withIds, field, first_put, first_put]

omit [RowHost F T] in
theorem entryType_withIds (id : Str) (prevId : Option Str) (entry : FileEntry F) :
    entryType (withIds id prevId entry) = entryType entry := by
  rw [entryType, fieldStr, field_withIds, if_neg (by decide), if_neg (by decide)]
  rfl

theorem field_keepBoundary {key : Str} (hid : key ≠ "firstKeptEntryId")
    (hindex : key ≠ "firstKeptEntryIndex") (entries : List (FileEntry F)) (index : ℕ)
    (entry : FileEntry F) : field key (keepBoundary T entries index entry) = field key entry := by
  rw [keepBoundary]
  split
  · rfl
  · rw [shiftRemove, field, first_filter_ne, if_neg hindex]
    split
    · rw [first_put, if_neg hid]
    · rfl

/-- Only the fields of a boundary change after the ids are set. -/
theorem field_migrateEntry {key : Str} (hid : key ≠ "firstKeptEntryId")
    (hindex : key ≠ "firstKeptEntryIndex") (done rest : List (FileEntry F)) (id : Str)
    (prevId : Option Str) (entry : FileEntry F) :
    field key (migrateEntry T done rest id prevId entry) = field key (withIds id prevId entry) := by
  rw [migrateEntry]
  split_ifs
  · exact field_keepBoundary hid hindex _ _ _
  · rfl

variable (done rest : List (FileEntry F))

theorem entryType_migrateEntry (id : Str) (prevId : Option Str)
    (entry : FileEntry F) : entryType (migrateEntry T done rest id prevId entry) = entryType entry := by
  rw [← entryType_withIds id prevId entry, entryType, fieldStr, field_migrateEntry (by decide) (by decide)]
  rfl

section

omit [RowHost F T]

theorem entryId_withIds (id : Str) (prevId : Option Str) (entry : FileEntry F) :
    entryId (withIds id prevId entry) = id := by
  rw [entryId, fieldStr, field_withIds, if_neg (by decide), if_pos rfl]
  rfl

theorem isSessionHeader_congr {entry entry' : FileEntry F} (h : entryType entry = entryType entry') :
    isSessionHeader entry = isSessionHeader entry' := by
  rw [isSessionHeader, h, isSessionHeader]

theorem entryType_setVersion (version : ℤ) (entry : FileEntry F) :
    entryType (setVersion version entry) = entryType entry := by
  rw [entryType, fieldStr, field, setVersion, first_put, if_neg (by decide)]
  rfl

end

theorem entryId_migrateEntry (id : Str) (prevId : Option Str)
    (entry : FileEntry F) : entryId (migrateEntry T done rest id prevId entry) = id := by
  rw [entryId, fieldStr, field_migrateEntry (by decide) (by decide), ← fieldStr, ← entryId, entryId_withIds]

theorem field_parentId_migrateEntry (id : Str) (prevId : Option Str) (entry : FileEntry F) :
    field "parentId" (migrateEntry T done rest id prevId entry) = some (parentValue prevId) := by
  rw [field_migrateEntry (by decide) (by decide), field_withIds, if_pos rfl]

end

/-! ### The loop -/

section

variable {F T : Type} [RowHost F T] {uuid : ℕ → Str}

/-- The beginning of a random id. -/
def shortId (uuid : ℕ → Str) (drawn : ℕ) : Str := (uuid drawn).take 8

/-- How many entries are not headers. -/
def entryCount (entries : List (FileEntry F)) : ℕ := entries.countP fun e => !isSessionHeader e

variable {entry : FileEntry F} {entries : List (FileEntry F)} {index : ℕ}

theorem migrateLoop_header (h : isSessionHeader entry = true)
    (done rest : List (FileEntry F)) (prevId : Option Str) (drawn : ℕ) :
    migrateLoop T uuid done (entry :: rest) prevId drawn =
      setVersion 2 entry :: migrateLoop T uuid (done ++ [setVersion 2 entry]) rest prevId drawn := by
  rw [migrateLoop, if_pos h]

/-- The set of taken ids is empty, so one random id is drawn for each entry. -/
theorem migrateLoop_entry (h : isSessionHeader entry = false)
    (done rest : List (FileEntry F)) (prevId : Option Str) (drawn : ℕ) :
    migrateLoop T uuid done (entry :: rest) prevId drawn = migrateEntry T done rest (shortId uuid drawn) prevId entry ::
        migrateLoop T uuid (done ++ [migrateEntry T done rest (shortId uuid drawn) prevId entry]) rest
          (some (shortId uuid drawn)) (drawn + 1) := by
  rw [migrateLoop, if_neg (by simp [h])]
  rfl

variable (done rest : List (FileEntry F)) (prevId : Option Str)

theorem map_entryType_migrateLoop (drawn : ℕ) :
    (migrateLoop T uuid done rest prevId drawn).map entryType = rest.map entryType := by
  induction rest generalizing done prevId drawn with
  | nil => rfl
  | cons entry rest ih =>
    cases hheader : isSessionHeader entry with
    | true => rw [migrateLoop_header hheader, map_cons, map_cons, ih, entryType_setVersion]
    | false => rw [migrateLoop_entry hheader, map_cons, map_cons, ih, entryType_migrateEntry]

/-- **The ids are given out in order.** -/
theorem map_entryId_migrateLoop (drawn : ℕ) : idsOf (migrateLoop T uuid done rest prevId drawn) =
      (range' drawn (entryCount rest)).map (shortId uuid) := by
  induction rest generalizing done prevId drawn with
  | nil => rfl
  | cons entry rest ih =>
    cases hheader : isSessionHeader entry with
    | true =>
      have hnext := (isSessionHeader_congr (entryType_setVersion 2 entry)).trans hheader
      rw [migrateLoop_header hheader, idsOf, filter_cons_of_neg (by simp [hnext]), ← idsOf, ih,
        entryCount, entryCount, countP_cons_of_neg (by simp [hheader])]
    | false =>
      have hnext := (isSessionHeader_congr (entryType_migrateEntry (T := T) done rest (shortId uuid drawn)
        prevId entry)).trans hheader
      rw [migrateLoop_entry hheader, idsOf, filter_cons_of_pos (by simp [hnext]), map_cons, ← idsOf,
        ih, entryId_migrateEntry, entryCount, entryCount, countP_cons_of_pos (by simp [hheader]),
        range'_succ, map_cons]

/-- **Each entry follows the one before it.** -/
theorem chained_migrateLoop (drawn : ℕ) : Chained prevId (migrateLoop T uuid done rest prevId drawn) := by
  induction rest generalizing done prevId drawn with
  | nil => trivial
  | cons entry rest ih =>
    cases hheader : isSessionHeader entry with
    | true =>
      have hnext := (isSessionHeader_congr (entryType_setVersion 2 entry)).trans hheader
      rw [migrateLoop_header hheader, Chained, if_pos hnext]
      exact ih _ _ _
    | false =>
      have hnext := (isSessionHeader_congr (entryType_migrateEntry (T := T) done rest (shortId uuid drawn)
        prevId entry)).trans hheader
      rw [migrateLoop_entry hheader, Chained, if_neg (by simp [hnext]), entryId_migrateEntry]
      exact ⟨field_parentId_migrateEntry _ _ _ _ _, ih _ _ _⟩

/-- The entry at an index is migrated between what is done before it and what is not done after
it. -/
theorem getElem?_migrateLoop {rest : List (FileEntry F)}
    (hentry : rest[index]? = some entry) (hheader : isSessionHeader entry = false) (done : List (FileEntry F))
    (prevId : Option Str) (drawn : ℕ) :
    ∃ prev, (migrateLoop T uuid done rest prevId drawn)[index]? =
      some (migrateEntry T (done ++ (migrateLoop T uuid done rest prevId drawn).take index)
        (rest.drop (index + 1)) (shortId uuid (drawn + entryCount (rest.take index))) prev entry) := by
  induction rest generalizing index done prevId drawn with
  | nil => cases hentry
  | cons first rest ih =>
    cases index with
    | zero =>
      cases hentry
      refine ⟨prevId, ?_⟩
      rw [migrateLoop_entry hheader, getElem?_cons_zero, take_zero, append_nil]
      rfl
    | succ index =>
      rw [getElem?_cons_succ] at hentry
      cases hfirst : isSessionHeader first with
      | true =>
        obtain ⟨prev, hprev⟩ := ih hentry (done ++ [setVersion 2 first]) prevId drawn
        refine ⟨prev, ?_⟩
        rw [migrateLoop_header hfirst, getElem?_cons_succ, hprev, append_assoc,
          take_succ_cons, take_succ_cons, entryCount, entryCount,
          countP_cons_of_neg (by simp [hfirst])]
        rfl
      | false =>
        obtain ⟨prev, hprev⟩ := ih hentry
          (done ++ [migrateEntry T done rest (shortId uuid drawn) prevId first]) (some (shortId uuid drawn))
          (drawn + 1)
        refine ⟨prev, ?_⟩
        rw [migrateLoop_entry hfirst, getElem?_cons_succ, hprev, append_assoc,
          take_succ_cons, take_succ_cons, entryCount, entryCount,
          countP_cons_of_pos (by simp [hfirst]), Nat.add_assoc, Nat.add_comm 1]
        rfl

/-! ### The ids of boundaries -/

omit [RowHost F T] in
theorem hasEntryAt_congr {entries' : List (FileEntry F)} {index' : ℕ}
    (h : entries[index]?.map entryType = entries'[index']?.map entryType) :
    hasEntryAt entries index = hasEntryAt entries' index' := by
  have hany : ∀ e : Option (FileEntry F), (e.any fun e => !isSessionHeader e) =
      (e.map entryType).any fun type => !decide (type = ("session" : Str)) := by
    intro e
    cases e <;> rfl
  rw [hasEntryAt, hasEntryAt, hany, hany, h]

/-- The id of the entry at an index. -/
def idAt (entries : List (FileEntry F)) (index : ℕ) : Option Str := entries[index]?.map entryId

omit [RowHost F T] in
theorem exists_idAt (h : hasEntryAt entries index = true) : ∃ id, idAt entries index = some id := by
  rw [hasEntryAt, Option.any_eq_true] at h
  obtain ⟨entry, hentry, -⟩ := h
  exact ⟨entryId entry, by rw [idAt, hentry]; rfl⟩

omit [RowHost F T] in
theorem targetId_eq (entries : List (FileEntry F)) (index : ℕ) :
    (entries[index]?.filter fun target => !isSessionHeader target).map entryId =
      if hasEntryAt entries index = true then idAt entries index else none := by
  rw [hasEntryAt, idAt]
  cases entries[index]? with
  | none => simp
  | some entry =>
    rw [Option.filter_some, Option.any_some]
    split_ifs <;> rfl

omit [RowHost F T] in
/-- What an index names while a compaction is migrated: the entries up to it have their new ids. -/
theorem context_at {out : List (FileEntry F)} {current : FileEntry F}
    (hentry : entries[index]? = some entry) (htypes : out.map entryType = entries.map entryType)
    (htype : entryType current = entryType entry) (hid : idAt out index = some (entryId current)) (target : ℕ) :
    hasEntryAt (out.take index ++ current :: entries.drop (index + 1)) target = hasEntryAt entries target ∧
      idAt (out.take index ++ current :: entries.drop (index + 1)) target =
        idAt (if target ≤ index then out else entries) target := by
  generalize hcontext : out.take index ++ current :: entries.drop (index + 1) = context
  have hlength : (out.take index).length = index := by
    have hout := congrArg List.length htypes
    have hindex := (List.getElem?_eq_some_iff.1 hentry).1
    rw [length_map, length_map] at hout
    rw [length_take]
    omega
  rcases Nat.lt_trichotomy target index with hlt | rfl | hgt
  · have hget : context[target]? = out[target]? := by
      rw [← hcontext, getElem?_append_left (by omega), getElem?_take_of_lt hlt]
    refine ⟨hasEntryAt_congr ?_, ?_⟩
    · rw [hget, ← getElem?_map, ← getElem?_map, htypes]
    · rw [idAt, hget, if_pos hlt.le]
      rfl
  · have hget : context[target]? = some current := by
      rw [← hcontext, getElem?_append_right (by omega), hlength, Nat.sub_self, getElem?_cons_zero]
    refine ⟨hasEntryAt_congr ?_, ?_⟩
    · rw [hget, hentry, Option.map_some, Option.map_some, htype]
    · rw [idAt, hget, if_pos le_rfl, hid]
      rfl
  · have hget : context[target]? = entries[target]? := by
      obtain ⟨k, rfl⟩ := Nat.exists_eq_add_of_lt hgt
      rw [← hcontext, getElem?_append_right (by omega), hlength, show index + k + 1 - index = k + 1 by omega,
        getElem?_cons_succ, getElem?_drop, Nat.add_right_comm]
    refine ⟨hasEntryAt_congr (by rw [hget]), ?_⟩
    rw [idAt, hget, if_neg (by omega)]
    rfl

omit [RowHost F T] in
/-- The header is not named by an index, so that a negative index names nothing. -/
theorem resolveFirstKept_eq (hzero : hasEntryAt entries 0 = false) (index : ℕ) (firstKeptIndex : ℤ) :
    resolveFirstKept entries index firstKeptIndex =
      if 0 ≤ firstKeptIndex ∧ hasEntryAt entries firstKeptIndex.toNat = true then
        idAt entries firstKeptIndex.toNat
      else if hasEntryAt entries (index + 1) = true then idAt entries (index + 1) else none := by
  rw [resolveFirstKept, targetId_eq, targetId_eq]
  by_cases hcond : 0 ≤ firstKeptIndex ∧ hasEntryAt entries firstKeptIndex.toNat = true
  · obtain ⟨id, hid⟩ := exists_idAt hcond.2
    rw [max_eq_left hcond.1, if_pos hcond.2, if_pos hcond, hid, Option.some_or]
  · have hnone : ¬ hasEntryAt entries (max firstKeptIndex 0).toNat = true := by
      rcases le_or_gt 0 firstKeptIndex with hle | hlt
      · rw [max_eq_left hle]
        exact fun h => hcond ⟨hle, h⟩
      · rw [max_eq_right hlt.le, Int.toNat_zero, hzero]
        exact Bool.false_ne_true
    rw [if_neg hnone, if_neg hcond, Option.none_or]

theorem field_firstKept_keepBoundary {firstKeptIndex : ℤ} {id : Str}
    (hindex : (field "firstKeptEntryIndex" entry).bind (isSafeInteger T) = some firstKeptIndex)
    (hresolve : resolveFirstKept entries index firstKeptIndex = some id) :
    field "firstKeptEntryId" (keepBoundary T entries index entry) = some (.string id) := by
  simp only [keepBoundary, hindex, hresolve]
  rw [shiftRemove, field, first_filter_ne, if_neg (by decide), first_put, if_pos rfl]

/-- A compaction whose boundary is written. -/
theorem of_boundaryTarget {target : ℕ} (h : boundaryTarget T entries index = some target) :
    ∃ entry firstKeptIndex, entries[index]? = some entry ∧ entryType entry = "compaction" ∧
      (field "firstKeptEntryIndex" entry).bind (isSafeInteger T) = some firstKeptIndex ∧
      hasEntryAt entries target = true ∧
      target = (if 0 ≤ firstKeptIndex ∧ hasEntryAt entries firstKeptIndex.toNat = true then firstKeptIndex.toNat
        else index + 1) := by
  rw [boundaryTarget] at h
  split at h
  · cases h
  · rename_i entry hfilter
    obtain ⟨hentry, hcompaction⟩ := Option.filter_eq_some_iff.1 hfilter
    split at h
    · cases h
    · rename_i firstKeptIndex hindex
      refine ⟨entry, firstKeptIndex, hentry, of_decide_eq_true hcompaction, hindex, ?_⟩
      split_ifs at h with hcond hnext
      · cases h
        exact ⟨hcond.2, by rw [if_pos hcond]⟩
      · cases h
        exact ⟨hnext, by rw [if_neg hcond]⟩

/-- **The id that is written for an index** is the new one of an entry up to the compaction, and the
old one of an entry after it. -/
theorem firstKept_migrateV1ToV2 (uuid : ℕ → Str) (hzero : hasEntryAt entries 0 = false) {target : ℕ}
    (h : boundaryTarget T entries index = some target) :
    ∃ entry id, (migrateV1ToV2 T uuid entries)[index]? = some entry ∧
      field "firstKeptEntryId" entry = some (.string id) ∧
      idAt (if target ≤ index then migrateV1ToV2 T uuid entries else entries) target = some id := by
  obtain ⟨entry, firstKeptIndex, hentry, hcompaction, hindex, hat, htarget⟩ := of_boundaryTarget h
  have hheader : isSessionHeader entry = false := by
    rw [isSessionHeader, hcompaction]
    decide
  have htypes : (migrateV1ToV2 T uuid entries).map entryType = entries.map entryType :=
    map_entryType_migrateLoop [] entries none 0
  generalize hmigrated : migrateV1ToV2 T uuid entries = out at htypes ⊢
  obtain ⟨id, prev, hout⟩ : ∃ id prev,
      out[index]? = some (migrateEntry T (out.take index) (entries.drop (index + 1)) id prev entry) := by
    rw [← hmigrated]
    exact ⟨_, getElem?_migrateLoop hentry hheader [] none 0⟩
  have hid : idAt out index = some (entryId (withIds id prev entry)) := by
    rw [idAt, hout, Option.map_some, entryId_migrateEntry, entryId_withIds]
  have hcontext := context_at hentry htypes (entryType_withIds id prev entry) hid
  -- the target is an entry in the list as it stands then
  obtain ⟨written, hwritten⟩ := exists_idAt ((hcontext target).1.trans hat)
  have hresolve : resolveFirstKept (out.take index ++ withIds id prev entry :: entries.drop (index + 1)) index
      firstKeptIndex = some written := by
    rw [resolveFirstKept_eq ((hcontext 0).1.trans hzero), (hcontext _).1, (hcontext _).1, ← hwritten, htarget]
    split_ifs with hcond hnext
    · rfl
    · rfl
    · rw [htarget, if_neg hcond] at hat
      exact absurd hat hnext
  refine ⟨_, written, hout, ?_, (hcontext target).2 ▸ hwritten⟩
  have hlength : (out.take index).length = index := by
    rw [length_take, Nat.min_eq_left (List.getElem?_eq_some_iff.1 hout).1.le]
  rw [migrateEntry, entryType_withIds, if_pos hcompaction, hlength]
  refine field_firstKept_keepBoundary ?_ hresolve
  rw [field_withIds, if_neg (by decide), if_neg (by decide), hindex]

/-- The entry at an index gets the random id that was drawn after those of the entries before it. -/
theorem idAt_migrateV1ToV2 (uuid : ℕ → Str) (h : hasEntryAt entries index = true) :
    idAt (migrateV1ToV2 T uuid entries) index = some (shortId uuid (entryCount (entries.take index))) := by
  rw [hasEntryAt, Option.any_eq_true] at h
  obtain ⟨entry, hentry, hheader⟩ := h
  have hfalse : isSessionHeader entry = false := by simpa using hheader
  obtain ⟨prev, hout⟩ : ∃ prev, (migrateV1ToV2 T uuid entries)[index]? = _ :=
    getElem?_migrateLoop hentry hfalse [] none 0
  rw [idAt, hout, Option.map_some, entryId_migrateEntry, Nat.zero_add]

end

/-! ### The current version -/

section

variable {F T : Type} [RowHost F T]

section

omit [RowHost F T]

theorem field_migrateEntryV3 {key : Str} (hversion : key ≠ "version") (hmessage : key ≠ "message")
    (entry : FileEntry F) : field key (migrateEntryV3 entry) = field key entry := by
  rw [migrateEntryV3]
  split_ifs
  · rw [setVersion, field, first_put, if_neg hversion]
  · split
    · rw [field, first_put, if_neg hmessage]
    · rfl
  · rfl

theorem entryType_migrateEntryV3 (entry : FileEntry F) : entryType (migrateEntryV3 entry) = entryType entry := by
  rw [entryType, fieldStr, field_migrateEntryV3 (by decide) (by decide)]
  rfl

theorem entryId_migrateEntryV3 (entry : FileEntry F) : entryId (migrateEntryV3 entry) = entryId entry := by
  rw [entryId, fieldStr, field_migrateEntryV3 (by decide) (by decide)]
  rfl

theorem idsOf_migrateV2ToV3 (entries : List (FileEntry F)) : idsOf (migrateV2ToV3 entries) = idsOf entries := by
  have hheader : (fun e : FileEntry F => !isSessionHeader e) ∘ migrateEntryV3 = fun e => !isSessionHeader e :=
    funext fun e => congrArg (!·) (isSessionHeader_congr (entryType_migrateEntryV3 e))
  rw [idsOf, migrateV2ToV3, filter_map, hheader, map_map, idsOf]
  exact map_congr_left fun e _ => entryId_migrateEntryV3 e

theorem Chained.migrateV2ToV3 {prevId : Option Str} {entries : List (FileEntry F)} (h : Chained prevId entries) :
    Chained prevId (migrateV2ToV3 entries) := by
  induction entries generalizing prevId with
  | nil => trivial
  | cons entry entries ih =>
    rw [Chained] at h
    rw [SessionMigration.migrateV2ToV3, map_cons, Chained,
      isSessionHeader_congr (entryType_migrateEntryV3 entry), entryId_migrateEntryV3,
      field_migrateEntryV3 (by decide) (by decide)]
    split_ifs at h ⊢
    · exact ih h
    · exact ⟨h.1, ih h.2⟩

theorem idAt_migrateV2ToV3 (entries : List (FileEntry F)) (index : ℕ) :
    idAt (migrateV2ToV3 entries) index = idAt entries index := by
  rw [idAt, migrateV2ToV3, getElem?_map, Option.map_map, idAt]
  cases entries[index]? with
  | none => rfl
  | some entry => exact congrArg some (entryId_migrateEntryV3 entry)

end

variable {header : FileEntry F} (hheader : isSessionHeader header = true) (rest : List (FileEntry F))

include hheader in
theorem migrateToCurrentVersion_eq (hversion : versionOf header < 2) (uuid : ℕ → Str) :
    migrateToCurrentVersion T uuid (header :: rest) =
      (true, migrateV2ToV3 (migrateV1ToV2 T uuid (header :: rest))) := by
  rw [migrateToCurrentVersion, find?_cons_of_pos hheader]
  simp only [Option.map_some, Option.getD_some, currentSessionVersion]
  rw [if_neg (by omega), if_pos hversion, if_pos (by omega)]

include hheader in
/-- A migrated file has the current version. -/
theorem migrateToCurrentVersion_migrated (uuid uuid' : ℕ → Str) :
    migrateToCurrentVersion T uuid' (migrateV2ToV3 (migrateV1ToV2 T uuid (header :: rest))) =
      (false, migrateV2ToV3 (migrateV1ToV2 T uuid (header :: rest))) := by
  have hsecond := (isSessionHeader_congr (entryType_setVersion 2 header)).trans hheader
  have hthird := (isSessionHeader_congr (entryType_setVersion 3 (setVersion 2 header))).trans hsecond
  have hversion : versionOf (setVersion 3 (setVersion 2 header)) = 3 := by
    rw [versionOf, setVersion, field, first_put, if_pos rfl, Option.bind_some, Json.asI64, if_pos (by norm_num)]
    rfl
  rw [migrateV1ToV2, migrateLoop_header hheader, migrateV2ToV3, map_cons, migrateEntryV3, if_pos hsecond,
    migrateToCurrentVersion, find?_cons_of_pos hthird]
  simp only [Option.map_some, Option.getD_some, hversion, currentSessionVersion]
  rw [if_pos (by omega)]

/-- A boundary names the entry that it should, unless that entry stands after the compaction and had
another id. -/
theorem boundary_iff (uuid : ℕ → Str) {entries : List (FileEntry F)} (hzero : hasEntryAt entries 0 = false)
    {index target : ℕ} (h : boundaryTarget T entries index = some target) :
    (∃ entry kept, (migrateV2ToV3 (migrateV1ToV2 T uuid entries))[index]? = some entry ∧
        (migrateV2ToV3 (migrateV1ToV2 T uuid entries))[target]? = some kept ∧
        field "firstKeptEntryId" entry = some (.string (entryId kept))) ↔
      (index < target → idAt entries target = some (shortId uuid (entryCount (entries.take target)))) := by
  obtain ⟨entry, id, hentry, hfield, hid⟩ := firstKept_migrateV1ToV2 uuid hzero h
  obtain ⟨-, -, -, -, -, hat, -⟩ := of_boundaryTarget h
  have hnew := idAt_migrateV1ToV2 (T := T) uuid hat
  have hentry' : (migrateV2ToV3 (migrateV1ToV2 T uuid entries))[index]? = some (migrateEntryV3 entry) := by
    rw [migrateV2ToV3, getElem?_map, hentry, Option.map_some]
  have hfield' : field "firstKeptEntryId" (migrateEntryV3 entry) = some (.string id) := by
    rw [field_migrateEntryV3 (by decide) (by decide), hfield]
  rw [← idAt_migrateV2ToV3] at hnew
  constructor
  · rintro ⟨entry', kept, hindex, htarget, hkept⟩ hlt
    obtain rfl : migrateEntryV3 entry = entry' := Option.some.inj (hentry'.symm.trans hindex)
    rw [hfield'] at hkept
    obtain rfl : id = entryId kept := Json.string.inj (Option.some.inj hkept)
    rw [if_neg (by omega)] at hid
    rw [hid, ← hnew, idAt, htarget]
    rfl
  · intro hforward
    obtain ⟨kept, htarget, hkept⟩ := Option.map_eq_some_iff.1 hnew
    refine ⟨_, kept, hentry', htarget, ?_⟩
    rw [hfield', hkept]
    by_cases hle : target ≤ index
    · rw [if_pos hle, ← idAt_migrateV2ToV3, hnew] at hid
      rw [Option.some.inj hid]
    · rw [if_neg hle, hforward (by omega)] at hid
      rw [Option.some.inj hid]

include hheader in
/-- **The migration is sound exactly if** the short ids of the entries are distinct, and an entry
after a compaction that is kept first has already the id that it will get. -/
theorem migrateToCurrentVersion_sound_iff (uuid : ℕ → Str) (hversion : versionOf header < 2) :
    Sound T (header :: rest) (migrateToCurrentVersion T uuid (header :: rest)) ↔
      ((range (entryCount rest)).map (shortId uuid)).Nodup ∧
      ∀ index target, boundaryTarget T (header :: rest) index = some target → index < target →
        idAt (header :: rest) target = some (shortId uuid (entryCount ((header :: rest).take target))) := by
  have hzero : hasEntryAt (header :: rest) 0 = false := by simp [hasEntryAt, hheader]
  have hids : idsOf (migrateV2ToV3 (migrateV1ToV2 T uuid (header :: rest))) =
      (range (entryCount rest)).map (shortId uuid) := by
    rw [idsOf_migrateV2ToV3, migrateV1ToV2, map_entryId_migrateLoop, range_eq_range', entryCount,
      countP_cons_of_neg (by simp [hheader])]
    rfl
  rw [migrateToCurrentVersion_eq hheader rest hversion]
  constructor
  · intro hsound
    refine ⟨hids ▸ hsound.ids, fun index target htarget => ?_⟩
    exact (boundary_iff uuid hzero htarget).1 (hsound.boundaries index target htarget)
  · rintro ⟨hnodup, hforward⟩
    refine ⟨hids ▸ hnodup, (chained_migrateLoop [] _ none 0).migrateV2ToV3, fun index target htarget => ?_,
      migrateToCurrentVersion_migrated hheader rest uuid⟩
    exact (boundary_iff uuid hzero htarget).2 (hforward index target htarget)

end

/-! ### A boundary that points forward -/

namespace Sample

def header : FileEntry Empty :=
  [("type", .string "session"), ("id", .string "s"), ("timestamp", .string "t"), ("cwd", .string "/w")]

def message (id : Str) : FileEntry Empty := [("type", .string "message"), ("id", .string id)]

def compaction (index : ℤ) : FileEntry Empty :=
  [("type", .string "compaction"), ("summary", .string "s"), ("firstKeptEntryIndex", .number (.int index))]

def uuid : ℕ → Str
  | 0 => "00000000-0000-4000-8000-000000000000"
  | 1 => "11111111-0000-4000-8000-000000000000"
  | _ => "22222222-0000-4000-8000-000000000000"

/-- The index is out of range, and the entry after the compaction is named by the id that it had. -/
theorem forward_boundary_dangles :
    (∀ i < 3, ∀ j < 3, uuid i = uuid j → i = j) ∧ isSessionHeader header = true ∧ versionOf header < 2 ∧
      ¬ Sound (Json Empty) [header, message "m1", compaction 9, message "m2"]
        (migrateToCurrentVersion (Json Empty) uuid [header, message "m1", compaction 9, message "m2"]) := by
  have hheader : isSessionHeader header = true := by decide
  have hversion : versionOf header < 2 := by decide
  refine ⟨by decide, hheader, hversion, fun hsound => ?_⟩
  rw [migrateToCurrentVersion_eq hheader _ hversion] at hsound
  have htarget : boundaryTarget (Json Empty) [header, message "m1", compaction 9, message "m2"] 2 = some 3 := by
    decide
  have hforward := (boundary_iff uuid (by decide) htarget).1 (hsound.boundaries 2 3 htarget) (by decide)
  exact absurd hforward (by decide)

/-- An index of an entry before the compaction. -/
theorem migrateToCurrentVersion_sound_iff_backward : isSessionHeader header = true ∧ versionOf header < 2 ∧
      Sound (Json Empty) [header, message "m1", compaction 1]
        (migrateToCurrentVersion (Json Empty) uuid [header, message "m1", compaction 1]) := by
  have hheader : isSessionHeader header = true := by decide
  have hversion : versionOf header < 2 := by decide
  refine ⟨hheader, hversion, (migrateToCurrentVersion_sound_iff hheader _ uuid hversion).2 ⟨by decide, ?_⟩⟩
  intro index target htarget hlt
  rcases index with _ | _ | _ | index
  · cases htarget
  · cases htarget
  · have hone : boundaryTarget (Json Empty) [header, message "m1", compaction 1] 2 = some 1 := by decide
    rw [hone] at htarget
    cases htarget
    exact absurd hlt (by decide)
  · cases htarget

end Sample

end SessionMigration
