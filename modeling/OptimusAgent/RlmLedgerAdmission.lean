/-
**Admission of spawned sessions.**

A spawn is admitted if no other child holds its path: no live edge of the replayed ledger has the
path under another id.  What is live is a matter of the records: a spawn that no later record
deletes.  If the ledger can be read, the replay finds exactly these, and an admitted child is the
only one with its path.

A ledger that cannot be read is replayed as an empty one.  Reading is bounded by the number of
records and appending is not, so a ledger that has grown beyond the bound admits any spawn and lists
no edges.

Edges are kept under a key that joins the id and the path with a NUL character, so ids without that
character are told apart.
-/

import OptimusAgent.RlmLedger

namespace RlmLedger

open Str RowCodec EventLog List

/-! ### Live spawns -/

def RlmLedgerRecord.Spawns (r : RlmLedgerRecord) (childId child : Str) : Prop :=
  ∃ s : RlmLedgerSpawnRecord, r = .spawn s ∧ s.childId = childId ∧ s.child = child

def RlmLedgerRecord.Deletes (r : RlmLedgerRecord) (childId child : Str) : Prop :=
  ∃ d : RlmLedgerDeleteRecord, r = .delete d ∧ d.childId = childId ∧ d.child = child

/-- A spawn that no later record deletes. -/
def LiveSpawn (records : List RlmLedgerRecord) (childId child : Str) : Prop :=
  ∃ before r after, records = before ++ r :: after ∧ r.Spawns childId child ∧ ∀ d ∈ after, ¬ d.Deletes childId child

theorem not_liveSpawn_nil (childId child : Str) : ¬ LiveSpawn [] childId child := by
  rintro ⟨before, r, after, hsplit, -⟩
  simp at hsplit

variable {records : List RlmLedgerRecord}

/-- One more record spawns the child, or leaves it as it was unless it deletes it. -/
theorem liveSpawn_concat {r : RlmLedgerRecord} {childId child : Str} : LiveSpawn (records ++ [r]) childId child ↔
      r.Spawns childId child ∨ (LiveSpawn records childId child ∧ ¬ r.Deletes childId child) := by
  constructor
  · rintro ⟨before, s, after, hsplit, hspawns, hkeeps⟩
    rcases eq_nil_or_concat after with rfl | ⟨init, last, rfl⟩
    · obtain ⟨-, hlast⟩ := append_inj' hsplit rfl
      cases hlast
      exact .inl hspawns
    · rw [concat_eq_append, ← cons_append, ← append_assoc] at hsplit
      obtain ⟨rfl, hlast⟩ := append_inj' hsplit rfl
      cases hlast
      refine .inr ⟨⟨before, s, init, rfl, hspawns, fun d hd => hkeeps d ?_⟩, hkeeps r ?_⟩
      · simp [hd]
      · simp
  · rintro (hspawns | ⟨⟨before, s, after, rfl, hspawns, hkeeps⟩, hr⟩)
    · exact ⟨records, r, [], rfl, hspawns, by simp⟩
    · exact ⟨before, s, after ++ [r], by simp, hspawns, forall_mem_append.2 ⟨hkeeps, forall_mem_singleton.2 hr⟩⟩

theorem LiveSpawn.exists_mem {childId child : Str}
    (h : LiveSpawn records childId child) : ∃ r ∈ records, r.Spawns childId child := by
  obtain ⟨before, r, after, rfl, hspawns, -⟩ := h
  exact ⟨r, by simp, hspawns⟩

/-- A record with another child's spawn does not bring a child to life. -/
theorem LiveSpawn.of_append {more : List RlmLedgerRecord} {childId child : Str}
    (h : LiveSpawn (records ++ more) childId child)
    (hmore : ∀ r ∈ more, ¬ r.Spawns childId child) : LiveSpawn records childId child := by
  induction more using reverseRecOn with
  | nil => rwa [append_nil] at h
  | append_singleton more r ih =>
    rw [← append_assoc, liveSpawn_concat] at h
    rcases h with hspawns | ⟨h, -⟩
    · exact absurd hspawns (hmore r (by simp))
    · exact ih h fun r' hr' => hmore r' (by simp [hr'])

/-! ### Keys -/

/-- The separator of a key. -/
def nul : Char := Char.ofNat 0

def RlmLedgerRecord.childId : RlmLedgerRecord → Str
  | .metadata _ _ => []
  | .spawn r => r.childId
  | .rename r => r.childId
  | .delete r => r.childId

/-- The id of a record has no separator in it. -/
def NulFree (r : RlmLedgerRecord) : Prop := nul ∉ r.childId

/-- Texts before a separator are told apart. -/
theorem append_separator_inj {a b x y : Str} {c : Char} (ha : c ∉ a) (hb : c ∉ b)
    (h : a ++ c :: x = b ++ c :: y) : a = b ∧ x = y := by
  rcases append_eq_append_iff.1 h with ⟨m, rfl, hm⟩ | ⟨m, rfl, hm⟩
  · cases m with
    | nil => exact ⟨(append_nil a).symm, by simpa using hm⟩
    | cons d m =>
      cases hm
      exact absurd (by simp) hb
  · cases m with
    | nil => exact ⟨append_nil b, by simpa using hm.symm⟩
    | cons d m =>
      cases hm
      exact absurd (by simp) ha

section

variable {F : Type} [LedgerHost F]

theorem edgeKey_inj {a b p q : Str} (ha : nul ∉ a) (hb : nul ∉ b)
    (hp : canonicalSessionPath p = p) (hq : canonicalSessionPath q = q)
    (h : edgeKey a p = edgeKey b q) : a = b ∧ p = q := by
  obtain ⟨hid, hpath⟩ := append_separator_inj ha hb h
  exact ⟨hid, by rw [← hp, hpath, hq]⟩

/-! ### What the replay finds -/

theorem replayRecords_concat (records : List RlmLedgerRecord) (r : RlmLedgerRecord) :
    replayRecords (records ++ [r]) = applyRecord (replayRecords records) r := by
  rw [replayRecords, foldl_append]
  rfl

variable {e : RlmLedgerEdge}

/-- An edge is kept under its key, and comes from a spawn. -/
theorem of_get?_replayRecords {k : Str} (h : (replayRecords records).get? k = some e) :
    k = edgeKey e.childId e.child ∧ ∃ s : RlmLedgerSpawnRecord, .spawn s ∈ records ∧
      s.childId = e.childId ∧ s.child = e.child ∧ s.parent = e.parent ∧ s.depth = e.depth := by
  induction records using reverseRecOn generalizing e with
  | nil => cases h
  | append_singleton records r ih =>
    have hold : ∀ {e' : RlmLedgerEdge}, (replayRecords records).get? k = some e' →
        k = edgeKey e'.childId e'.child ∧ ∃ s : RlmLedgerSpawnRecord,
          .spawn s ∈ records ++ [r] ∧ s.childId = e'.childId ∧ s.child = e'.child ∧
            s.parent = e'.parent ∧ s.depth = e'.depth := by
      intro e' he'
      obtain ⟨hkey, s, hs, hsame⟩ := ih he'
      exact ⟨hkey, s, mem_append_left _ hs, hsame⟩
    rw [replayRecords_concat] at h
    cases r with
    | metadata time dir => exact hold h
    | spawn s =>
      rw [applyRecord, IndexMap.get?_insert] at h
      split_ifs at h with hk
      · cases h
        exact ⟨hk, s, by simp, rfl, rfl, rfl, rfl⟩
      · exact hold h
    | rename s | delete s =>
      rw [applyRecord, IndexMap.get?_modify] at h
      split_ifs at h with hk
      · obtain ⟨e', he', rfl⟩ := Option.map_eq_some_iff.1 h
        have hsame := hold he'
        exact hsame
      · exact hold h

/-- An edge under a key that was not deleted. -/
def LiveAt (edges : IndexMap Str RlmLedgerEdge) (k : Str) : Prop := ∃ e, edges.get? k = some e ∧ e.deleted = none

/-- **The replay finds the live spawns.** -/
theorem replayRecords_live (hcanonical : ∀ r ∈ records, Canonical r)
    (hnul : ∀ r ∈ records, NulFree r) {childId child : Str} (hid : nul ∉ childId)
    (hchild : canonicalSessionPath child = child) :
    LiveAt (replayRecords records) (edgeKey childId child) ↔ LiveSpawn records childId child := by
  induction records using reverseRecOn with
  | nil =>
    refine ⟨fun h => ?_, fun h => (not_liveSpawn_nil childId child h).elim⟩
    obtain ⟨e, he, -⟩ := h
    cases he
  | append_singleton records r ih =>
    have hrest := ih (fun r hr => hcanonical r (by simp [hr])) fun r hr => hnul r (by simp [hr])
    have hr : Canonical r := hcanonical r (by simp)
    have hrnul : NulFree r := hnul r (by simp)
    rw [liveSpawn_concat, ← hrest, replayRecords_concat, LiveAt, LiveAt]
    -- a record for another child neither spawns nor deletes the child
    have hother : ∀ {a b : Str}, ¬ edgeKey childId child = edgeKey a b → ¬ (a = childId ∧ b = child) := by
      rintro a b hk ⟨rfl, rfl⟩
      exact hk rfl
    cases r with
    | metadata time dir => simp [applyRecord, RlmLedgerRecord.Spawns, RlmLedgerRecord.Deletes]
    | spawn s =>
      rw [applyRecord, IndexMap.get?_insert]
      split_ifs with hk
      · obtain ⟨rfl, rfl⟩ := edgeKey_inj hid hrnul hchild hr.1 hk
        simp [RlmLedgerRecord.Spawns, RlmLedgerRecord.childId, edgeOf]
      · simp [RlmLedgerRecord.Spawns, RlmLedgerRecord.Deletes, hother hk]
    | rename s =>
      rw [applyRecord, IndexMap.get?_modify]
      split_ifs <;> simp [RlmLedgerRecord.Spawns, RlmLedgerRecord.Deletes]
    | delete s =>
      rw [applyRecord, IndexMap.get?_modify]
      split_ifs with hk
      · obtain ⟨rfl, rfl⟩ := edgeKey_inj hid hrnul hchild hr hk
        simp [RlmLedgerRecord.Spawns, RlmLedgerRecord.Deletes, RlmLedgerRecord.childId]
      · simp [RlmLedgerRecord.Spawns, RlmLedgerRecord.Deletes, hother hk]

omit [LedgerHost F] in
theorem mem_values {edges : IndexMap Str RlmLedgerEdge} : e ∈ values edges ↔ ∃ k, edges.get? k = some e := by
  rw [values, mem_map]
  constructor
  · rintro ⟨⟨k, e'⟩, hmem, rfl⟩
    exact ⟨k, (Keyed.first_eq_some_iff_mem edges.nodup).2 hmem⟩
  · rintro ⟨k, hk⟩
    exact ⟨(k, e), Keyed.mem_of_first_eq_some hk, rfl⟩

omit [LedgerHost F] in
theorem mem_liveEdges {edges : IndexMap Str RlmLedgerEdge} :
    e ∈ liveEdges edges ↔ (∃ k, edges.get? k = some e) ∧ e.deleted = none := by
  rw [liveEdges, mem_filter, mem_values, decide_eq_true_eq]

/-- The live edges of the records are their live spawns. -/
theorem exists_mem_liveEdges (hcanonical : ∀ r ∈ records, Canonical r) (hnul : ∀ r ∈ records, NulFree r)
    {childId child : Str} (h : LiveSpawn records childId child) :
    ∃ e ∈ liveEdges (replayRecords records), e.childId = childId ∧ e.child = child := by
  obtain ⟨r, hr, s, rfl, rfl, rfl⟩ := h.exists_mem
  have hid : nul ∉ s.childId := hnul _ hr
  have hchild : canonicalSessionPath s.child = s.child := (hcanonical _ hr).1
  obtain ⟨e, he, hlive⟩ := (replayRecords_live hcanonical hnul hid hchild).2 h
  obtain ⟨hkey, s', hs', hid', hchild', -⟩ := of_get?_replayRecords he
  have hsame := edgeKey_inj hid (hid' ▸ hnul _ hs') hchild (hchild' ▸ (hcanonical _ hs').1) hkey
  exact ⟨e, mem_liveEdges.2 ⟨⟨_, he⟩, hlive⟩, hsame.1.symm, hsame.2.symm⟩

/-! ### Admission -/

/-- The id of a call has no separator in it. -/
def LedgerCall.NulFree (call : LedgerCall) : Prop := ∀ r ∈ call.record, RlmLedger.NulFree r

theorem nulFree_run (ledger : Ledger) (h : ∀ r ∈ ledger.log.landed, NulFree r)
    {calls : List LedgerCall} (hcalls : ∀ call ∈ calls, call.NulFree) :
    ∀ r ∈ (run ledger calls).log.landed, NulFree r := by
  induction calls generalizing ledger with
  | nil => exact h
  | cons call calls ih =>
    rw [forall_mem_cons] at hcalls
    refine ih (step ledger call) (fun r hr => ?_) hcalls.2
    rcases mem_landed_step hr with hr | ⟨time, dir, rfl⟩ | hr
    · exact h r hr
    · exact not_mem_nil
    · exact hcalls.1 r hr

variable [LawfulLedgerHost F]

/-- **An admitted child is the only one with its path, and live edges are listed**, while the ledger
can be read; one that cannot be read lists nothing. -/
theorem admission_of_legible (sessionsDir path : Str) (calls : List LedgerCall)
    (hcalls : ∀ call ∈ calls, call.NulFree) :
    (∀ (input : RlmSpawnInput) (io : LedgerIo), Legible (run (.fresh sessionsDir path) calls) io.read →
      (appendSpawn (run (.fresh sessionsDir path) calls) input io).2 = .ok () →
      ∀ childId, childId ≠ input.childId →
        ¬ LiveSpawn (appendSpawn (run (.fresh sessionsDir path) calls) input io).1.log.landed childId
          (canonicalSessionPath input.child)) ∧
    (∀ io : ReplayIo, Legible (run (.fresh sessionsDir path) calls) io →
      ∀ childId child, LiveSpawn (run (.fresh sessionsDir path) calls).log.landed childId child →
        ∃ e ∈ edges (run (.fresh sessionsDir path) calls) false io, e.childId = childId ∧ e.child = child) ∧
    ∀ io : ReplayIo, ¬ Legible (run (.fresh sessionsDir path) calls) io →
      edges (run (.fresh sessionsDir path) calls) false io = [] := by
  have hkept := (kept_fresh sessionsDir path).run calls
  have hnul := nulFree_run (.fresh sessionsDir path) (fun r hr => (not_mem_nil hr).elim) hcalls
  generalize run (.fresh sessionsDir path) calls = ledger at hkept hnul ⊢
  refine ⟨fun input io hlegible hok childId hne hlive => ?_, fun io hlegible childId child hlive => ?_,
    fun io hnot => ?_⟩
  · rcases appendSpawn_cases ledger input io with ⟨error, heq⟩ | ⟨-, hduplicate, heq⟩
    · rw [heq] at hok
      cases hok
    · obtain ⟨records, hrecords, hlanded⟩ := landed_append ledger.log
        (recordCall ledger (spawnRecord input io.now) io) io.through
      have hbefore : LiveSpawn ledger.log.landed childId (canonicalSessionPath input.child) := by
        rw [heq, appendRecord] at hlive
        dsimp only at hlive
        rw [hlanded] at hlive
        refine hlive.of_append fun r hr hspawns => ?_
        obtain ⟨s, rfl, rfl, -⟩ := hspawns
        rcases mem_append.1 (hrecords _ hr) with hlead | hown
        · rw [leadThrough] at hlead
          split_ifs at hlead
          · cases mem_singleton.1 hlead
          · cases hlead
        · cases mem_singleton.1 hown
          exact hne rfl
      obtain ⟨e, he, hid, hchild⟩ := exists_mem_liveEdges hkept.canonical hnul hbefore
      rw [hkept.replayEdges_of_legible hlegible, duplicate, find?_eq_none] at hduplicate
      refine hduplicate e he ?_
      have hcanonical : canonicalSessionPath e.child = canonicalSessionPath input.child := by
        rw [hchild]
        exact LawfulLedgerHost.canonical_canonical input.child
      simp [hcanonical, hid, hne]
  · rw [edges, if_neg Bool.false_ne_true, hkept.replayEdges_of_legible hlegible]
    exact exists_mem_liveEdges hkept.canonical hnul hlive
  · rcases hkept.replayEdges_eq io with ⟨hlegible, -⟩ | ⟨-, hempty⟩
    · exact absurd hlegible hnot
    · rw [edges, if_neg Bool.false_ne_true, hempty]
      rfl

end

/-! ### A ledger with short lines -/

section

/-- What a call meets when nothing fails. -/
def LedgerIo.of (size : ℕ) : LedgerIo := ⟨"now", .writing size, ⟨"not found", none, .done⟩⟩

def one : I64 := ⟨1, by decide⟩

def leadRecord : RlmLedgerRecord := .metadata "now" "dir"

def firstSpawn : RlmLedgerRecord := .spawn ⟨"now", "a", "root", "p", one, "first"⟩

def secondSpawn : RlmLedgerRecord := .spawn ⟨"now", "b", "root", "p", one, "second"⟩

def firstRename : RlmLedgerRecord := .rename ⟨"now", "a", "p", "again"⟩

/-- A letter for each of a few records, and a long text for every other one. -/
def recordText (r : RlmLedgerRecord) : Str :=
  if r = leadRecord then ['m']
  else if r = firstSpawn then ['s']
  else if r = secondSpawn then ['t']
  else if r = firstRename then ['r']
  else JsonText.print (toValue r)

open Classical in
noncomputable def shortText (v : Json Empty) : Str :=
  match parseLedgerValue 0 v with
  | .ok (some r) => if toValue r = v then recordText r else JsonText.print v
  | _ => JsonText.print v

noncomputable def readShort (text : Str) : Except Str (Json Empty) :=
  if text = ['m'] then .ok (toValue leadRecord)
  else if text = ['s'] then .ok (toValue firstSpawn)
  else if text = ['t'] then .ok (toValue secondSpawn)
  else if text = ['r'] then .ok (toValue firstRename)
  else
    match JsonText.read text with
    | some v => .ok v
    | none => .error "no JSON text"

/-- The text of a value is a long one, or one letter. -/
theorem shortText_cases (v : Json Empty) :
    shortText v = JsonText.print v ∨ ∃ r, toValue r = v ∧ shortText v = recordText r := by
  unfold shortText
  split
  · split_ifs with h
    · exact .inr ⟨_, h, rfl⟩
    · exact .inl rfl
  · exact .inl rfl

theorem readShort_print (v : Json Empty) : readShort (JsonText.print v) = .ok v := by
  have hne : ∀ c : Char, c ≠ '{' → JsonText.print v ≠ [c] := by
    intro c hc h
    rw [JsonText.print, cons.injEq] at h
    exact hc h.1.symm
  rw [readShort, if_neg (hne 'm' (by decide)), if_neg (hne 's' (by decide)),
    if_neg (hne 't' (by decide)), if_neg (hne 'r' (by decide)), JsonText.read_print]

theorem readShort_recordText (r : RlmLedgerRecord) : readShort (recordText r) = .ok (toValue r) := by
  unfold recordText
  split_ifs with hm hs ht hr
  · rw [hm]
    exact if_pos rfl
  · rw [hs, readShort, if_neg (by decide), if_pos rfl]
  · rw [ht, readShort, if_neg (by decide), if_neg (by decide), if_pos rfl]
  · rw [hr, readShort, if_neg (by decide), if_neg (by decide), if_neg (by decide), if_pos rfl]
  · exact readShort_print _

/-- A property of texts that the long ones and the letters have. -/
theorem forall_shortText {p : Str → Prop} (hprint : ∀ v, p (JsonText.print v))
    (hletter : p ['m'] ∧ p ['s'] ∧ p ['t'] ∧ p ['r']) (v : Json Empty) : p (shortText v) := by
  rcases shortText_cases v with h | ⟨r, rfl, h⟩
  · rw [h]
    exact hprint v
  · rw [h, recordText]
    split_ifs
    · exact hletter.1
    · exact hletter.2.1
    · exact hletter.2.2.1
    · exact hletter.2.2.2
    · exact hprint _

noncomputable instance shortHost : LedgerHost Empty where
  toText := shortText
  fromStr := readShort
  fromUtf8Lossy := Utf8.decodeLossy
  canonicalSessionPath path := path

theorem isWhitespace_of_mem_print {v : Json Empty} {c : Char} (h : c ∈ JsonText.print v) : isWhitespace c = false := by
  simp only [JsonText.print, mem_cons, mem_append, mem_replicate, not_mem_nil, or_false] at h
  rcases h with rfl | ⟨-, rfl⟩ | rfl <;> decide

instance lawfulShortHost : LawfulLedgerHost Empty where
  fromStr_toText v _ := by
    rcases shortText_cases v with h | ⟨r, rfl, h⟩
    · exact (congrArg readShort h).trans (readShort_print v)
    · exact (congrArg readShort h).trans (readShort_recordText r)
  newline_notMem := forall_shortText (p := fun t => '\n' ∉ t) JsonText.newline_notMem_print
    ⟨by decide, by decide, by decide, by decide⟩
  trim_text := forall_shortText (p := fun t => trim t = t)
    (fun _ => trim_of_forall fun _ => isWhitespace_of_mem_print) ⟨rfl, rfl, rfl, rfl⟩
  text_ne_nil := forall_shortText (p := fun t => t ≠ []) (fun _ => cons_ne_nil _ _)
    ⟨cons_ne_nil _ _, cons_ne_nil _ _, cons_ne_nil _ _, cons_ne_nil _ _⟩
  fromUtf8Lossy_append := Utf8.decodeLossy_append
  fromUtf8Lossy_nil := rfl
  newline_of_mem b h := Utf8.mem_of_mem_decodeLossy (c := '\n') (by decide) h _ (by decide)
  canonical_canonical _ := rfl

variable {r : RlmLedgerRecord}

theorem shortText_toValue (h : r.Valid) : shortText (toValue r) = recordText r := by
  rw [shortText, parseLedgerValue_toValue h]
  exact if_pos rfl

/-- A record with a text of one letter. -/
def Short (r : RlmLedgerRecord) : Prop := (lineOf r).length = 2

theorem short_of_recordText {c : Char} (hvalid : r.Valid)
    (htext : recordText r = [c]) (hc : (Utf8.encode [c]).length = 1) : Short r := by
  have hline : textOf r = [c] := (shortText_toValue hvalid).trans htext
  rw [Short, lineOf, hline, LineLog.lineBytes_eq, length_append, hc]
  rfl

theorem short_leadRecord : Short leadRecord := short_of_recordText (c := 'm') trivial (by decide) (by decide)

theorem short_firstSpawn : Short firstSpawn :=
  short_of_recordText (c := 's') (by decide : (1 : ℤ) ≤ 1) (by decide) (by decide)

theorem short_secondSpawn : Short secondSpawn :=
  short_of_recordText (c := 't') (by decide : (1 : ℤ) ≤ 1) (by decide) (by decide)

theorem short_firstRename : Short firstRename := short_of_recordText (c := 'r') trivial (by decide) (by decide)

theorem length_flatMap_lineOf (h : ∀ r ∈ records, Short r) : (records.flatMap lineOf).length = 2 * records.length := by
  induction records with
  | nil => rfl
  | cons r records ih =>
    rw [forall_mem_cons] at h
    rw [flatMap_cons, length_append, ih h.2, h.1, length_cons]
    omega

/-- A ledger of short lines without a torn one. -/
structure Trim (ledger : Ledger) (records : List RlmLedgerRecord) : Prop where
  dir : ledger.canonicalSessionsDir = "dir"
  kept : Kept ledger
  landed : ledger.log.landed = records
  file : ledger.log.file = if records = [] then none else some (records.flatMap lineOf)
  short : ∀ r ∈ records, Short r

/-- A short record is appended, while the file is not too large. -/
theorem Trim.appendRecord {ledger : Ledger} (h : Trim ledger records)
    (hsize : records.length ≤ 200000) (hcanonical : Canonical r) (hr : Short r) :
    Trim (appendRecord ledger r (.of 4)).1
        (records ++ (if records = [] then [leadRecord] else []) ++ [r]) ∧
      (appendRecord ledger r (.of 4)).2 = .ok () := by
  have hlead : leadThrough ledger.log.file (recordCall ledger r (.of 4)) =
      if records = [] then [leadRecord] else [] := by
    rw [leadThrough, h.file]
    by_cases hnil : records = []
    · rw [if_pos hnil, if_pos rfl, if_pos hnil, recordCall, h.dir]
      rfl
    · rw [if_neg hnil, if_neg (Option.some_ne_none _), if_neg hnil]
  have hrecords : recordsThrough ledger.log.file (recordCall ledger r (.of 4)) =
      (if records = [] then [leadRecord] else []) ++ [r] := by
    rw [recordsThrough, hlead]
    rfl
  have hmore : ∀ x ∈ (if records = [] then [leadRecord] else []) ++ [r], Short x := by
    refine forall_mem_append.2 ⟨?_, forall_mem_singleton.2 hr⟩
    split_ifs
    · exact forall_mem_singleton.2 short_leadRecord
    · simp
  have hfits : exceeds (some rlmLedgerMaxBytes) (ledger.log.file.getD []).length = false := by
    have hlength : (ledger.log.file.getD []).length ≤ 2 * records.length := by
      rw [h.file]
      split_ifs
      · simp
      · rw [Option.getD_some, length_flatMap_lineOf h.short]
    rw [exceeds, Option.any_some, decide_eq_false_iff_not, rlmLedgerMaxBytes]
    omega
  have hwritten : ((recordsThrough ledger.log.file (recordCall ledger r (.of 4))).flatMap lineOf).length ≤ 4 := by
    rw [hrecords, length_flatMap_lineOf hmore]
    split_ifs <;> simp
  obtain ⟨hfile, hok⟩ := appendSync_done h.kept.intact 0 (recordCall ledger r (.of 4))
    (fun _ _ => rfl) hfits hwritten
  have hlanded : (RlmLedger.appendRecord ledger r (.of 4)).1.log.landed =
      records ++ (if records = [] then [leadRecord] else []) ++ [r] := by
    simp only [RlmLedger.appendRecord, EventLog.stepThrough]
    have hok' : (appendSync ledger.log.path ledger.log.file (ledger.log.instances 0)
      (recordCall ledger r (.of 4)) (LedgerIo.of 4).through).2.2 = .ok () := hok
    rw [hok', hrecords, h.landed, append_assoc]
  refine ⟨⟨h.dir, h.kept.appendRecord hcanonical _, hlanded, ?_, ?_⟩, hok⟩
  · refine hfile.trans ?_
    have hne : records ++ ((if records = [] then [leadRecord] else []) ++ [r]) ≠ [] := by simp
    rw [hrecords, h.landed, append_assoc, if_neg hne]
  · rw [append_assoc]
    exact forall_mem_append.2 ⟨h.short, hmore⟩

theorem trim_fresh : Trim (.fresh "dir" "ledger") [] := ⟨rfl, kept_fresh _ _, rfl, rfl, fun _ h => (not_mem_nil h).elim⟩

/-- A child is spawned and renamed many times. -/
def renamed (n : ℕ) : List LedgerCall :=
  .spawn ⟨"a", "root", "p", one, "first"⟩ (.of 4) :: replicate n (.rename "a" "p" "again" (.of 4))

theorem trim_renamed {n : ℕ} (hn : n ≤ 199998) : Trim (run (.fresh "dir" "ledger") (renamed n))
      (leadRecord :: firstSpawn :: replicate n firstRename) := by
  induction n with
  | zero =>
    have hspawn : appendSpawn (.fresh "dir" "ledger") ⟨"a", "root", "p", one, "first"⟩ (.of 4) =
        appendRecord (.fresh "dir" "ledger") firstSpawn (.of 4) :=
      appendSpawn_eq (by decide) rfl
    have htrim := (trim_fresh.appendRecord (by simp) (r := firstSpawn) ⟨rfl, rfl, by decide⟩ short_firstSpawn).1
    rw [← hspawn] at htrim
    exact htrim
  | succ n ih =>
    have hrun : run (.fresh "dir" "ledger") (renamed (n + 1)) =
        (appendRecord (run (.fresh "dir" "ledger") (renamed n)) firstRename (.of 4)).1 := by
      rw [run, run, renamed, renamed, replicate_succ', ← cons_append, foldl_append]
      rfl
    have htrim := ((ih (by omega)).appendRecord (by simp; omega) (r := firstRename) rfl short_firstRename).1
    rw [if_neg (cons_ne_nil _ _), append_nil] at htrim
    rw [hrun, replicate_succ']
    exact htrim

theorem liveSpawn_renamed (n : ℕ) : LiveSpawn (leadRecord :: firstSpawn :: replicate n firstRename) "a" "p" := by
  refine ⟨[leadRecord], firstSpawn, replicate n firstRename, rfl, ⟨_, rfl, rfl, rfl⟩, ?_⟩
  rintro d hd ⟨d', rfl, -⟩
  cases eq_of_mem_replicate hd

theorem nulFree_renamed (n : ℕ) : ∀ call ∈ renamed n, call.NulFree := by
  have hid : nul ∉ ("a" : Str) := by decide
  intro call hcall r hr
  rcases mem_cons.1 hcall with rfl | hcall
  · cases hr
    exact hid
  · cases eq_of_mem_replicate hcall
    cases hr
    exact hid

theorem legible_start : Legible (.fresh "dir" "ledger") (LedgerIo.of 4).read := ⟨rfl, fun _ => rfl, rfl, rfl⟩

theorem legible_renamed_zero : Legible (run (.fresh "dir" "ledger") (renamed 0)) ⟨"not found", none, .done⟩ := by
  have htrim := trim_renamed (Nat.zero_le 199998)
  refine ⟨rfl, fun _ => rfl, ?_, ?_⟩
  · rw [htrim.file, if_neg (cons_ne_nil _ _), Option.getD_some, length_flatMap_lineOf htrim.short]
    rfl
  · rw [htrim.landed]
    rfl

theorem admission_of_legible_first :
    (appendSpawn (run (.fresh "dir" "ledger") []) ⟨"a", "root", "p", one, "first"⟩ (.of 4)).2 = .ok () ∧
    (∀ childId, childId ≠ ("a" : Str) → ¬ LiveSpawn (appendSpawn (run (.fresh "dir" "ledger") [])
      ⟨"a", "root", "p", one, "first"⟩ (.of 4)).1.log.landed childId "p") ∧
    ∃ e ∈ edges (run (.fresh "dir" "ledger") (renamed 0)) false ⟨"not found", none, .done⟩,
      e.childId = "a" ∧ e.child = "p" := by
  have hok : (appendSpawn (run (.fresh "dir" "ledger") []) ⟨"a", "root", "p", one, "first"⟩
      (.of 4)).2 = .ok () := by
    rw [appendSpawn_eq (by decide) rfl]
    exact (trim_fresh.appendRecord (by simp) (r := firstSpawn) ⟨rfl, rfl, by decide⟩ short_firstSpawn).2
  refine ⟨hok, (admission_of_legible "dir" "ledger" [] (fun _ h => (not_mem_nil h).elim)).1 _ _
    legible_start hok, ?_⟩
  exact (admission_of_legible "dir" "ledger" (renamed 0) (nulFree_renamed 0)).2.1 _
    legible_renamed_zero "a" "p" ((trim_renamed (Nat.zero_le 199998)).landed ▸ liveSpawn_renamed 0)

/-- The ledger has one record more than is read: it lists nothing, and another child is admitted
with the path of the first. -/
theorem full_ledger_admits_duplicate : LiveSpawn (run (.fresh "dir" "ledger") (renamed 99999)).log.landed "a" "p" ∧
    edges (run (.fresh "dir" "ledger") (renamed 99999)) false ⟨"not found", none, .done⟩ = [] ∧
    (appendSpawn (run (.fresh "dir" "ledger") (renamed 99999)) ⟨"b", "root", "p", one, "second"⟩
      (.of 4)).2 = .ok () ∧
    LiveSpawn (appendSpawn (run (.fresh "dir" "ledger") (renamed 99999))
      ⟨"b", "root", "p", one, "second"⟩ (.of 4)).1.log.landed "a" "p" := by
  have htrim := trim_renamed (n := 99999) (by decide)
  generalize run (.fresh "dir" "ledger") (renamed 99999) = ledger at htrim ⊢
  have hlive := liveSpawn_renamed 99999
  have hempty : replayEdges ledger ⟨"not found", none, .done⟩ = .empty := by
    rcases htrim.kept.replayEdges_eq ⟨"not found", none, .done⟩ with ⟨⟨-, -, -, hmany⟩, -⟩ | ⟨-, heq⟩
    · rw [htrim.landed, length_cons, length_cons, length_replicate] at hmany
      cases hmany
    · exact heq
  have hspawn : appendSpawn ledger ⟨"b", "root", "p", one, "second"⟩ (.of 4) =
      appendRecord ledger secondSpawn (.of 4) := by
    refine appendSpawn_eq (by decide) ?_
    dsimp only [LedgerIo.of]
    rw [hempty]
    rfl
  have hsize : (leadRecord :: firstSpawn :: replicate 99999 firstRename).length ≤ 200000 := by
    rw [length_cons, length_cons, length_replicate]
    decide
  obtain ⟨hafter, hok⟩ := htrim.appendRecord hsize (r := secondSpawn) ⟨rfl, rfl, by decide⟩
    short_secondSpawn
  refine ⟨htrim.landed ▸ hlive, ?_, hspawn ▸ hok, ?_⟩
  · rw [edges, if_neg Bool.false_ne_true, hempty]
    rfl
  · rw [hspawn, hafter.landed, if_neg (cons_ne_nil _ _), append_nil, liveSpawn_concat]
    refine .inr ⟨hlive, ?_⟩
    rintro ⟨d, hd, -⟩
    cases hd

end

end RlmLedger
