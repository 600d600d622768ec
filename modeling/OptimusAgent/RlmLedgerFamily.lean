/-
**The family of sessions.**

The family lists the sessions of a directory: its files that are no living children as roots, and
the living edges of the ledger as children, with their parents and depths.  An edge lives if the
files of its child and of its parent exist; an edge whose depth contradicts the depth of its
parent's edge is dropped.

While the ledger is within its read bounds, a path is held by one live edge at a time, since a spawn
checks the edges that it replays.
-/

import OptimusAgent.RlmLedgerAdmission

namespace RlmLedger

open Str RowCodec EventLog List

/-! ### The rows -/

/-- A session with its place in the family. -/
structure SessionRow where
  path : Str
  name : Option Str
  parentSessionPath : Option Str
  rlmDepth : ℤ
  deriving DecidableEq

/-- What the family takes from the file system. -/
structure FamilyIo where
  isFile : Str → Bool
  /-- The names in the directory, none if it cannot be read. -/
  readDir : List Str
  /-- The name in the information that a session's file holds. -/
  sessionName : Str → Option Str
  read : ReplayIo

/-- A path that is joined to a directory. -/
def joinPath (dir entry : Str) : Str :=
  if entry.head? = some '/' then entry
  else if dir = [] ∨ dir.getLast? = some '/' then dir ++ entry
  else dir ++ '/' :: entry

/-- The depth below a depth, in 64 bits. -/
def depthBelow (depth : I64) : ℤ := (depth.1 + 1).bmod (2 ^ 64)

def sessionRow (io : FamilyIo) (path : Str) (depth : ℤ) (parentPath name : Option Str) : SessionRow :=
  ⟨path, name.or (io.sessionName path), parentPath, depth⟩

section

variable {F : Type} [LedgerHost F]

def entryPath (dir entry : Str) : Str := canonicalSessionPath (joinPath dir entry)

def liveEdgesUnlocked (io : FamilyIo) (edges : List RlmLedgerEdge) : List RlmLedgerEdge :=
  edges.filter fun edge =>
    io.isFile (canonicalSessionPath edge.child) && io.isFile (canonicalSessionPath edge.parent)

def byChild (alive : List RlmLedgerEdge) : List Str := alive.map fun edge => canonicalSessionPath edge.child

/-- The files of the directory that are no children. -/
def rootPaths (dir : Str) (names : List Str) (alive : List RlmLedgerEdge) : List Str :=
  (((names.filter fun name => (".jsonl" : Str).isSuffixOf name).mergeSort
    fun a b => decide (a ≤ b)).map (entryPath dir)).filter fun path => path ∉ byChild alive

/-- The depth that the edges give for a path. -/
def depthByPath (alive : List RlmLedgerEdge) (path : Str) : Option I64 :=
  ((IndexMap.indexBy (fun edge => canonicalSessionPath edge.child) alive).get? path).map
    RlmLedgerEdge.depth

/-- The depth of an edge fits the depth of its parent, if the edges give one. -/
def depthFits (alive : List RlmLedgerEdge) (edge : RlmLedgerEdge) : Bool :=
  match depthByPath alive (canonicalSessionPath edge.parent) with
  | some parentDepth => edge.depth.1 = depthBelow parentDepth
  | none => true

def familyAlive (ledger : Ledger) (io : FamilyIo) : List RlmLedgerEdge :=
  liveEdgesUnlocked io (edges ledger false io.read)

def rootRow (io : FamilyIo) (path : Str) : SessionRow := sessionRow io path 0 none none

def childRow (io : FamilyIo) (edge : RlmLedgerEdge) : SessionRow :=
  sessionRow io (canonicalSessionPath edge.child) edge.depth.1
    (some (canonicalSessionPath edge.parent)) (some edge.name)

def family (ledger : Ledger) (io : FamilyIo) : List SessionRow :=
  let alive := familyAlive ledger io
  (rootPaths ledger.canonicalSessionsDir io.readDir alive).map (rootRow io) ++
    (alive.filter (depthFits alive)).map (childRow io)

/-! ### Paths are held once -/

/-- A path is held by the live edges under one id. -/
def HeldOnce (edges : IndexMap Str RlmLedgerEdge) : Prop :=
  ∀ e ∈ liveEdges edges, ∀ e' ∈ liveEdges edges, e.child = e'.child → e.childId = e'.childId

/-- A spawn leaves its path with one id. -/
def Admits (edges : IndexMap Str RlmLedgerEdge) (r : RlmLedgerRecord) : Prop :=
  ∀ s : RlmLedgerSpawnRecord, r = .spawn s → ∀ e ∈ liveEdges edges, e.child = s.child → e.childId = s.childId

variable {edges : IndexMap Str RlmLedgerEdge} {r : RlmLedgerRecord}

/-- A live edge is the one of the last spawn, or it was live with the same path and id. -/
theorem of_mem_liveEdges_applyRecord {e : RlmLedgerEdge} (h : e ∈ liveEdges (applyRecord edges r)) :
    (∃ s, r = .spawn s ∧ e = edgeOf s) ∨ ∃ e' ∈ liveEdges edges, e'.child = e.child ∧ e'.childId = e.childId := by
  have hold : e ∈ liveEdges edges → ∃ e' ∈ liveEdges edges, e'.child = e.child ∧ e'.childId = e.childId :=
    fun h => ⟨e, h, rfl, rfl⟩
  obtain ⟨⟨k, hk⟩, hlive⟩ := mem_liveEdges.1 h
  cases r with
  | metadata time dir => exact .inr (hold h)
  | spawn s =>
    rw [applyRecord, IndexMap.get?_insert] at hk
    split_ifs at hk
    · cases hk
      exact .inl ⟨s, rfl, rfl⟩
    · exact .inr (hold (mem_liveEdges.2 ⟨⟨k, hk⟩, hlive⟩))
  | rename s =>
    rw [applyRecord, IndexMap.get?_modify] at hk
    split_ifs at hk
    · obtain ⟨e', he', rfl⟩ := Option.map_eq_some_iff.1 hk
      exact .inr ⟨e', mem_liveEdges.2 ⟨⟨k, he'⟩, hlive⟩, rfl, rfl⟩
    · exact .inr (hold (mem_liveEdges.2 ⟨⟨k, hk⟩, hlive⟩))
  | delete s =>
    rw [applyRecord, IndexMap.get?_modify] at hk
    split_ifs at hk
    · obtain ⟨e', he', rfl⟩ := Option.map_eq_some_iff.1 hk
      cases hlive
    · exact .inr (hold (mem_liveEdges.2 ⟨⟨k, hk⟩, hlive⟩))

theorem HeldOnce.applyRecord (h : HeldOnce edges) (hr : Admits edges r) : HeldOnce (applyRecord edges r) := by
  intro e he e' he' hchild
  rcases of_mem_liveEdges_applyRecord he with ⟨s, rfl, rfl⟩ | ⟨o, ho, hoc, hoi⟩ <;>
    rcases of_mem_liveEdges_applyRecord he' with ⟨s', hs', rfl⟩ | ⟨o', ho', hoc', hoi'⟩
  · cases hs'
    rfl
  · rw [← hoi']
    exact (hr s rfl o' ho' (hoc'.trans hchild.symm)).symm
  · rw [← hoi]
    exact hr s' hs' o ho (hoc.trans hchild)
  · rw [← hoi, ← hoi']
    exact h o ho o' ho' (hoc.trans (hchild.trans hoc'.symm))

theorem Admits.applyRecord {r' : RlmLedgerRecord}
    (h : Admits edges r) (hr' : (∃ time dir, r' = .metadata time dir) ∨ r' = r) :
    Admits (applyRecord edges r') r := by
  intro s hs e he hchild
  rcases of_mem_liveEdges_applyRecord he with ⟨s', hs', rfl⟩ | ⟨o, ho, hoc, hoi⟩
  · rcases hr' with ⟨time, dir, rfl⟩ | rfl
    · cases hs'
    · cases hs.symm.trans hs'
      rfl
  · rw [← hoi]
    exact h s hs o ho (hoc.trans hchild)

/-- An admitted record keeps paths held once, with whatever leads a new file. -/
theorem HeldOnce.append {records : List RlmLedgerRecord} (h : HeldOnce (replayRecords records))
    (hr : Admits (replayRecords records) r) {more : List RlmLedgerRecord}
    (hmore : ∀ x ∈ more, (∃ time dir, x = .metadata time dir) ∨ x = r) :
    HeldOnce (replayRecords (records ++ more)) := by
  suffices hboth : HeldOnce (replayRecords (records ++ more)) ∧ Admits (replayRecords (records ++ more)) r from hboth.1
  induction more using reverseRecOn with
  | nil =>
    rw [append_nil]
    exact ⟨h, hr⟩
  | append_singleton more x ih =>
    obtain ⟨hheld, hadmits⟩ := ih fun x hx => hmore x (by simp [hx])
    have hx := hmore x (by simp)
    rw [← append_assoc, replayRecords_concat]
    refine ⟨hheld.applyRecord ?_, hadmits.applyRecord hx⟩
    rcases hx with ⟨time, dir, rfl⟩ | rfl
    · intro s hs
      cases hs
    · exact hadmits

/-! ### Runs within the read bounds -/

/-- A spawn replays a ledger that can be read. -/
def LedgerCall.Legible (ledger : Ledger) : LedgerCall → Prop
  | .spawn _ io => RlmLedger.Legible ledger io.read
  | _ => True

/-- Every spawn of the run replays a ledger that can be read. -/
def LegibleRun : Ledger → List LedgerCall → Prop
  | _, [] => True
  | ledger, call :: calls => call.Legible ledger ∧ LegibleRun (step ledger call) calls

/-- What a spawn that was not refused has checked. -/
theorem admits_spawnRecord {records : List RlmLedgerRecord} (hcanonical : ∀ r ∈ records, Canonical r)
    {input : RlmSpawnInput}
    (h : duplicate (liveEdges (replayRecords records)) input.childId
      (canonicalSessionPath input.child) = none) (now : Str) :
    Admits (replayRecords records) (spawnRecord input now) := by
  intro s hs e he hchild
  cases hs
  obtain ⟨⟨k, hk⟩, -⟩ := mem_liveEdges.1 he
  obtain ⟨-, s, hs, -, hsame, -⟩ := of_get?_replayRecords hk
  have hcanon : canonicalSessionPath e.child = e.child := hsame ▸ (hcanonical _ hs).1
  have hnot := find?_eq_none.1 h e he
  simp only [decide_eq_true_eq, not_and, not_not] at hnot
  exact hnot (hcanon.trans hchild)

variable [LawfulLedgerHost F] {ledger : Ledger} {io : FamilyIo}

theorem heldOnce_step (hkept : Kept ledger)
    (h : HeldOnce (replayRecords ledger.log.landed)) {call : LedgerCall} (hcall : call.Legible ledger) :
    HeldOnce (replayRecords (step ledger call).log.landed) := by
  have happend : ∀ {record : RlmLedgerRecord} (io : LedgerIo), Admits (replayRecords ledger.log.landed) record →
        HeldOnce (replayRecords (appendRecord ledger record io).1.log.landed) := by
    intro record io hadmits
    obtain ⟨more, hlanded, hmore⟩ := landed_appendRecord ledger record io
    rw [hlanded]
    exact h.append hadmits hmore
  cases call with
  | spawn input io =>
    rcases appendSpawn_cases ledger input io with ⟨error, heq⟩ | ⟨-, hduplicate, heq⟩
    · rw [step, heq]
      exact h
    · rw [step, heq]
      rw [hkept.replayEdges_of_legible hcall] at hduplicate
      exact happend io (admits_spawnRecord hkept.canonical hduplicate io.now)
  | rename childId child name io | delete childId child reason io =>
    refine happend io fun s hs => ?_
    cases hs
  | restart => exact h

/-- **A path is held by one live edge**, in every run within the read bounds. -/
theorem heldOnce_run (hkept : Kept ledger) (h : HeldOnce (replayRecords ledger.log.landed)) {calls : List LedgerCall}
    (hrun : LegibleRun ledger calls) : HeldOnce (replayRecords (run ledger calls).log.landed) := by
  induction calls generalizing ledger with
  | nil => exact h
  | cons call calls ih => exact ih (hkept.step call) (heldOnce_step hkept h hrun.1) hrun.2

/-! ### Living edges -/

omit [LawfulLedgerHost F] in
theorem nodup_values_replayRecords (records : List RlmLedgerRecord) : (values (replayRecords records)).Nodup := by
  refine Nodup.of_map (fun e => edgeKey e.childId e.child) ?_
  have hkeys : (values (replayRecords records)).map (fun e => edgeKey e.childId e.child) =
      (replayRecords records).entries.map Prod.fst := by
    rw [values, map_map]
    refine map_congr_left fun entry hentry => ?_
    have hget : (replayRecords records).get? entry.1 = some entry.2 :=
      (Keyed.first_eq_some_iff_mem (replayRecords records).nodup).2 hentry
    exact (of_get?_replayRecords hget).1.symm
  rw [hkeys]
  exact (replayRecords records).nodup

/-- What the family knows of the living edges. -/
structure Living (alive : List RlmLedgerEdge) : Prop where
  canonical : ∀ e ∈ alive, canonicalSessionPath e.child = e.child ∧
    canonicalSessionPath e.parent = e.parent ∧ 1 ≤ e.depth.1
  nodup : (byChild alive).Nodup

theorem living_familyAlive (hkept : Kept ledger)
    (hheld : HeldOnce (replayRecords ledger.log.landed)) (hread : Legible ledger io.read) :
    Living (familyAlive ledger io) := by
  have hsub : (familyAlive ledger io).Sublist (liveEdges (replayRecords ledger.log.landed)) := by
    rw [familyAlive, edges, hkept.replayEdges_of_legible hread]
    exact filter_sublist
  have hcanonical : ∀ e ∈ liveEdges (replayRecords ledger.log.landed),
      canonicalSessionPath e.child = e.child ∧ canonicalSessionPath e.parent = e.parent ∧ 1 ≤ e.depth.1 := by
    intro e he
    obtain ⟨⟨k, hk⟩, -⟩ := mem_liveEdges.1 he
    obtain ⟨-, s, hs, -, hchild, hparent, hdepth⟩ := of_get?_replayRecords hk
    rw [← hchild, ← hparent, ← hdepth]
    exact hkept.canonical _ hs
  refine ⟨fun e he => hcanonical e (hsub.subset he), (hsub.map _).nodup ?_⟩
  refine Nodup.map_on (fun e he e' he' hsame => ?_) ((nodup_values_replayRecords _).filter _)
  rw [(hcanonical e he).1, (hcanonical e' he').1] at hsame
  have hid := hheld e he e' he' hsame
  obtain ⟨⟨k, hk⟩, -⟩ := mem_liveEdges.1 he
  obtain ⟨⟨k', hk'⟩, -⟩ := mem_liveEdges.1 he'
  have hkey : k = k' := by rw [(of_get?_replayRecords hk).1, (of_get?_replayRecords hk').1, hid, hsame]
  rw [hkey, hk'] at hk
  exact (Option.some.inj hk).symm

omit [LawfulLedgerHost F] in
/-- An edge that fits is one deeper than the edge of its parent: the depth of a child is positive,
so it is not a sum that has overflowed. -/
theorem Living.depth_eq {alive : List RlmLedgerEdge} (h : Living alive) {e p : RlmLedgerEdge}
    (he : e ∈ alive) (hp : p ∈ alive) (hfits : depthFits alive e = true)
    (hparent : canonicalSessionPath e.parent = canonicalSessionPath p.child) :
    e.depth.1 = p.depth.1 + 1 := by
  have hdepth : depthByPath alive (canonicalSessionPath e.parent) = some p.depth := by
    rw [depthByPath, hparent, IndexMap.get?_indexBy_of_mem h.nodup hp]
    rfl
  rw [depthFits, hdepth] at hfits
  have hbelow : e.depth.1 = depthBelow p.depth := of_decide_eq_true hfits
  have hone := (h.canonical e he).2.2
  have hpone := (h.canonical p hp).2.2
  have hbound := p.depth.2.2
  rw [depthBelow, Int.bmod_def] at hbelow
  omega

/-! ### The forest -/

/-- The second row is the parent of the first. -/
def ParentIn (rows : List SessionRow) (row parent : SessionRow) : Prop :=
  row ∈ rows ∧ parent ∈ rows ∧ row.parentSessionPath = some parent.path

/-- Rows with distinct paths, whose parents do not lead back, and whose children are one deeper than
the children that are their parents. -/
structure Forest (rows : List SessionRow) : Prop where
  distinct : (rows.map SessionRow.path).Nodup
  acyclic : ∀ row, ¬ Relation.TransGen (ParentIn rows) row row
  depth : ∀ row parent, ParentIn rows row parent → parent.parentSessionPath.isSome = true →
    row.rlmDepth = parent.rlmDepth + 1

/-- Rows whose parents are less deep do not lead back. -/
theorem acyclic_of_decreasing {rows : List SessionRow}
    (h : ∀ row parent, ParentIn rows row parent → parent.rlmDepth < row.rlmDepth) (row : SessionRow) :
    ¬ Relation.TransGen (ParentIn rows) row row := by
  have hchain : ∀ {a b : SessionRow}, Relation.TransGen (ParentIn rows) a b → b.rlmDepth < a.rlmDepth := by
    intro a b hab
    induction hab with
    | single hstep => exact h _ _ hstep
    | tail _ hstep ih => exact (h _ _ hstep).trans ih
  exact fun hcycle => lt_irrefl _ (hchain hcycle)

omit [LawfulLedgerHost F] in
theorem mem_family {row : SessionRow} (h : row ∈ family ledger io) : (∃ path, row = rootRow io path) ∨
      ∃ e ∈ familyAlive ledger io, depthFits (familyAlive ledger io) e = true ∧ row = childRow io e := by
  rcases mem_append.1 h with h | h
  · obtain ⟨path, -, rfl⟩ := mem_map.1 h
    exact .inl ⟨path, rfl⟩
  · obtain ⟨e, he, rfl⟩ := mem_map.1 h
    obtain ⟨he, hfits⟩ := mem_filter.1 he
    exact .inr ⟨e, he, hfits, rfl⟩

omit [LawfulLedgerHost F] in
/-- A row with a parent is a child, and its parent is a root or a child that is one less deep. -/
theorem parentIn_family (h : Living (familyAlive ledger io))
    {row parent : SessionRow} (hparent : ParentIn (family ledger io) row parent) :
    1 ≤ row.rlmDepth ∧ ((parent.parentSessionPath = none ∧ parent.rlmDepth = 0) ∨
      row.rlmDepth = parent.rlmDepth + 1) := by
  obtain ⟨hrow, hmem, hpath⟩ := hparent
  rcases mem_family hrow with ⟨path, rfl⟩ | ⟨e, he, hfits, rfl⟩
  · cases hpath
  · refine ⟨(h.canonical e he).2.2, ?_⟩
    rcases mem_family hmem with ⟨path, rfl⟩ | ⟨p, hp, -, rfl⟩
    · exact .inl ⟨rfl, rfl⟩
    · exact .inr (h.depth_eq he hp hfits (Option.some.inj hpath))

omit [LawfulLedgerHost F] in
theorem nodup_path_family (h : Living (familyAlive ledger io))
    (hlisting : (io.readDir.map (entryPath ledger.canonicalSessionsDir)).Nodup) :
    ((family ledger io).map SessionRow.path).Nodup := by
  have hroots : (rootPaths ledger.canonicalSessionsDir io.readDir (familyAlive ledger io)).Nodup := by
    refine Nodup.filter _ ?_
    refine ((mergeSort_perm _ _).map _).nodup_iff.2 ?_
    exact (filter_sublist.map _).nodup hlisting
  have hpaths : (family ledger io).map SessionRow.path =
      rootPaths ledger.canonicalSessionsDir io.readDir (familyAlive ledger io) ++
        byChild ((familyAlive ledger io).filter (depthFits (familyAlive ledger io))) := by
    rw [family, map_append, map_map, map_map]
    exact congrArg₂ _ (map_id _) rfl
  have hchildren := filter_sublist (p := depthFits (familyAlive ledger io)) (l := familyAlive ledger io)
  rw [hpaths, nodup_append']
  refine ⟨hroots, (hchildren.map _).nodup h.nodup, fun path hroot hchild => ?_⟩
  have hnot := (mem_filter.1 hroot).2
  exact of_decide_eq_true hnot ((hchildren.map _).subset hchild)

/-- **The family is a forest**, for every ledger within its read bounds, all files and every listing
of distinct paths. -/
theorem forest_family (sessionsDir path : Str) (calls : List LedgerCall)
    (hrun : LegibleRun (.fresh sessionsDir path) calls) (io : FamilyIo)
    (hread : Legible (run (.fresh sessionsDir path) calls) io.read)
    (hlisting : (io.readDir.map (entryPath (run (.fresh sessionsDir path) calls).canonicalSessionsDir)).Nodup) :
    Forest (family (run (.fresh sessionsDir path) calls) io) := by
  have hempty : HeldOnce (replayRecords (Ledger.fresh sessionsDir path).log.landed) :=
    fun _ he => (not_mem_nil he).elim
  have hheld := heldOnce_run (kept_fresh sessionsDir path) hempty hrun
  have hliving := living_familyAlive ((kept_fresh sessionsDir path).run calls) hheld hread
  refine ⟨nodup_path_family hliving hlisting, acyclic_of_decreasing fun row parent hparent => ?_,
    fun row parent hparent hchild => ?_⟩
  · obtain ⟨hone, ⟨-, hzero⟩ | hdepth⟩ := parentIn_family hliving hparent
    · omega
    · omega
  · obtain ⟨-, ⟨hnone, -⟩ | hdepth⟩ := parentIn_family hliving hparent
    · rw [hnone] at hchild
      cases hchild
    · exact hdepth

end

/-- All files exist, and the directory has one session. -/
def oneRoot : FamilyIo := ⟨fun _ => true, ["root.jsonl", "notes.txt"], fun _ => none, ⟨"not found", none, .done⟩⟩

theorem forest_family_spawned : Forest (family (run (.fresh "dir" "ledger") (renamed 0)) oneRoot) := by
  have hdir := (trim_renamed (Nat.zero_le 199998)).dir
  refine forest_family "dir" "ledger" (renamed 0) ⟨legible_start, trivial⟩ oneRoot
    legible_renamed_zero ?_
  rw [hdir]
  decide

end RlmLedger
