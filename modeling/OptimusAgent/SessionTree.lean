/-
**The tree of a session.**

The entries of a session refer to their parents, and clients are shown them as a tree.  The tree is
built from a map of nodes: every entry is a node without children, then each node is copied, in the
order of the file, to the roots or to the children of its parent in the map, and at last the
children are sorted by date.  This module embeds `get_flat_tree` and `get_tree` of
`core/session_manager.rs`.

A copied node has the children that it had when it was copied.  The parents stand before their
children in the file, so that a root has none then: the tree has the roots and nothing below them.

The milliseconds of a date are a parameter; there are none where the text is not a date, and such
dates compare as equal.
-/

import OptimusAgent.Session

namespace Session

open Str List IndexMap

/-! ### The tree as it is built -/

structure SessionTreeFlatNode (J : Type) where
  entry : SessionEntry J
  label : Option Str
  labelTimestamp : Option Str
  deriving DecidableEq

inductive SessionTreeNode (J : Type) where
  | mk (node : SessionTreeFlatNode J) (children : List (SessionTreeNode J))

namespace SessionTreeNode

variable {J : Type}

def node : SessionTreeNode J → SessionTreeFlatNode J
  | .mk node _ => node

def children : SessionTreeNode J → List (SessionTreeNode J)
  | .mk _ children => children

def id (n : SessionTreeNode J) : Str := n.node.entry.id

def pushChild (child : SessionTreeNode J) : SessionTreeNode J → SessionTreeNode J
  | .mk node children => .mk node (children ++ [child])

mutual

/-- A node and all nodes below it. -/
def nodes : SessionTreeNode J → List (SessionTreeNode J)
  | .mk node children => .mk node children :: nodesOfAll children

def nodesOfAll : List (SessionTreeNode J) → List (SessionTreeNode J)
  | [] => []
  | n :: ns => n.nodes ++ nodesOfAll ns

end

/-- Whether a node has a later date than another. -/
def later (isoToMillis : Str → Option ℤ) (a b : SessionTreeNode J) : Bool :=
  match isoToMillis a.node.entry.timestamp, isoToMillis b.node.entry.timestamp with
  | some x, some y => y < x
  | _, _ => false

def sortByDate (isoToMillis : Str → Option ℤ) (ns : List (SessionTreeNode J)) : List (SessionTreeNode J) :=
  ns.mergeSort fun a b => !later isoToMillis a b

/-- Sorts the children of the nodes on a stack, and of all nodes below them. -/
def sortLoop (isoToMillis : Str → Option ℤ) : ℕ → List (SessionTreeNode J) →
    IndexMap Str (List (SessionTreeNode J)) → IndexMap Str (List (SessionTreeNode J))
  | 0, _, sorted => sorted
  | _ + 1, [], sorted => sorted
  | fuel + 1, n :: stack, sorted =>
    let children := sortByDate isoToMillis n.children
    sortLoop isoToMillis fuel (children.reverse ++ stack) (sorted.insert n.id children)

/-- Puts the sorted children in, down to a depth. -/
def apply (sorted : IndexMap Str (List (SessionTreeNode J))) : ℕ → SessionTreeNode J → SessionTreeNode J
  | 0, n => n
  | depth + 1, n => .mk n.node (((sorted.get? n.id).getD n.children).map (apply sorted depth))

end SessionTreeNode

namespace SessionManager

variable {J : Type}

def getEntries (m : SessionManager J) : List (SessionEntry J) := m.fileEntries.filter fun e => !e.isSessionHeader

/-- The entry with its label. -/
def flatNode (m : SessionManager J) (e : SessionEntry J) : SessionTreeFlatNode J :=
  ⟨e, m.labelsById.get? e.id, m.labelTimestampsById.get? e.id⟩

def getFlatTree (m : SessionManager J) : List (SessionTreeFlatNode J) := m.getEntries.map m.flatNode

/-- Copies the node of an entry to the roots, or to the children of its parent. -/
def attachNode (s : IndexMap Str (SessionTreeNode J) × List (SessionTreeNode J)) (flat : SessionTreeFlatNode J) :
    IndexMap Str (SessionTreeNode J) × List (SessionTreeNode J) :=
  match s.1.get? flat.entry.id with
  | none => s
  | some node =>
    match flat.entry.parentId with
    | none => (s.1, s.2 ++ [node])
    | some parent =>
      if parent = flat.entry.id then (s.1, s.2 ++ [node])
      else if s.1.contains parent = true then (s.1.modify parent (SessionTreeNode.pushChild node), s.2)
      else (s.1, s.2 ++ [node])

/-- The nodes by their ids, without children. -/
def nodeMap (m : SessionManager J) : IndexMap Str (SessionTreeNode J) :=
  indexBy SessionTreeNode.id (m.getFlatTree.map fun flat => .mk flat [])

def getTree (m : SessionManager J) (isoToMillis : Str → Option ℤ) : List (SessionTreeNode J) :=
  let roots := (m.getFlatTree.foldl attachNode (m.nodeMap, [])).2
  -- there is fuel for every node, and depth for every entry
  let sorted := SessionTreeNode.sortLoop isoToMillis ((SessionTreeNode.nodesOfAll roots).length + 1)
    roots.reverse .empty
  roots.map (SessionTreeNode.apply sorted (m.getEntries.length + 1))

end SessionManager

/-! ### The tree that is meant -/

section

variable {J : Type}

/-- Whether an entry stands at the top: it has no parent, or one that is not known. -/
def isRoot (entries : List (SessionEntry J)) (e : SessionEntry J) : Bool :=
  match e.parentId with
  | none => true
  | some parent => parent ∉ entries.map SessionEntry.id

/-- Parents stand before their children. -/
def ParentsPrecede (entries : List (SessionEntry J)) : Prop := ∀ before e after, entries = before ++ e :: after →
    ∀ parent ∈ e.parentId, parent ∈ entries.map SessionEntry.id → parent ∈ before.map SessionEntry.id

/-- A tree shows each entry once, under its parent or at the top, with the children of every node in
the order of their dates. -/
structure Shows (isoToMillis : Str → Option ℤ) (entries : List (SessionEntry J))
    (tree : List (SessionTreeNode J)) : Prop where
  once : ((SessionTreeNode.nodesOfAll tree).map fun n => n.node.entry).Perm entries
  roots : ∀ n ∈ tree, isRoot entries n.node.entry = true
  children : ∀ n ∈ SessionTreeNode.nodesOfAll tree, ∀ c ∈ n.children, c.node.entry.parentId = some n.id
  ordered : ∀ n ∈ SessionTreeNode.nodesOfAll tree,
    n.children.Pairwise fun a b => SessionTreeNode.later isoToMillis a b = false

theorem isRoot_iff {entries : List (SessionEntry J)} {e : SessionEntry J} :
    isRoot entries e = true ↔ ∀ parent ∈ e.parentId, parent ∉ entries.map SessionEntry.id := by
  rw [isRoot]
  cases e.parentId with
  | none | some parent => simp

end

/-! ### The copies -/

namespace SessionManager

variable {J : Type} (m : SessionManager J)

/-- The node of an entry without children. -/
def leafNode (e : SessionEntry J) : SessionTreeNode J := .mk (m.flatNode e) []

/-- The map before some entries are copied: these have no children yet, and all are found. -/
structure Awaits (entries rest : List (SessionEntry J)) (nodes : IndexMap Str (SessionTreeNode J)) : Prop where
  leaf : ∀ e ∈ rest, nodes.get? e.id = some (m.leafNode e)
  known : ∀ id, (nodes.get? id).isSome = true ↔ id ∈ entries.map SessionEntry.id

variable {m}

theorem awaits_nodeMap (hnodup : (m.getEntries.map SessionEntry.id).Nodup) :
    m.Awaits m.getEntries m.getEntries m.nodeMap := by
  have hmap : (m.getFlatTree.map fun flat => SessionTreeNode.mk flat []) = m.getEntries.map m.leafNode := by
    rw [getFlatTree, map_map]
    rfl
  have hkeys : (m.getEntries.map m.leafNode).map SessionTreeNode.id = m.getEntries.map SessionEntry.id := by
    rw [map_map]
    rfl
  rw [nodeMap, hmap]
  constructor
  · intro e he
    exact get?_indexBy_of_mem (hkeys ▸ hnodup) (mem_map_of_mem he)
  · intro id
    rw [← hkeys]
    constructor
    · intro hsome
      obtain ⟨n, hn⟩ := Option.isSome_iff_exists.1 hsome
      obtain ⟨hmem, rfl⟩ := of_get?_indexBy hn
      exact mem_map_of_mem hmem
    · intro hid
      obtain ⟨n, hn, rfl⟩ := mem_map.1 hid
      rw [get?_indexBy_of_mem (hkeys ▸ hnodup) hn]
      rfl

variable {nodes : IndexMap Str (SessionTreeNode J)}

/-- One copy: a root goes to the roots, and another entry to a parent that has been copied
before. -/
theorem Awaits.attachNode {entries before rest : List (SessionEntry J)} {e : SessionEntry J}
    (h : m.Awaits entries (e :: rest) nodes)
    (hentries : entries = before ++ e :: rest) (hnodup : (entries.map SessionEntry.id).Nodup)
    (hparents : ParentsPrecede entries) (roots : List (SessionTreeNode J)) :
    m.Awaits entries rest (SessionManager.attachNode (nodes, roots) (m.flatNode e)).1 ∧
      (SessionManager.attachNode (nodes, roots) (m.flatNode e)).2 =
        roots ++ (if isRoot entries e then [m.leafNode e] else []) := by
  have hstay : m.Awaits entries rest nodes := ⟨fun e' he' => h.leaf e' (mem_cons_of_mem _ he'), h.known⟩
  have hflat : (m.flatNode e).entry = e := rfl
  -- the ids before the entry are not those of the entry and of what follows it
  have hapart : ∀ parent ∈ before.map SessionEntry.id, ∀ e' ∈ e :: rest, parent ≠ e'.id := by
    intro parent hparent e' he'
    rw [hentries, map_append, nodup_append] at hnodup
    exact hnodup.2.2 parent hparent e'.id (mem_map_of_mem he')
  rw [SessionManager.attachNode, hflat, h.leaf e mem_cons_self, isRoot]
  cases hparent : e.parentId with
  | none => exact ⟨hstay, rfl⟩
  | some parent =>
    have hbefore := hparents before e rest hentries parent hparent
    dsimp only
    by_cases hknown : parent ∈ entries.map SessionEntry.id
    · have hcontains : nodes.contains parent = true := (h.known parent).2 hknown
      rw [if_neg (hapart parent (hbefore hknown) e mem_cons_self), if_pos hcontains]
      refine ⟨⟨fun e' he' => ?_, fun id => ?_⟩, by simp [hknown]⟩
      · rw [get?_modify, if_neg]
        · exact hstay.leaf e' he'
        · exact (hapart parent (hbefore hknown) e' (mem_cons_of_mem _ he')).symm
      · rw [get?_modify, ← h.known id]
        split_ifs
        · rw [Option.isSome_map]
        · rfl
    · have hcontains : ¬ nodes.contains parent = true := fun hc => hknown ((h.known parent).1 hc)
      rw [if_neg hcontains, ite_self]
      exact ⟨hstay, by simp [hknown]⟩

/-- **All copies**: the roots are the entries without a known parent, and none has children. -/
theorem Awaits.foldl_attachNode {entries rest : List (SessionEntry J)} (before : List (SessionEntry J))
    (h : m.Awaits entries rest nodes)
    (hentries : entries = before ++ rest) (hnodup : (entries.map SessionEntry.id).Nodup)
    (hparents : ParentsPrecede entries) (roots : List (SessionTreeNode J)) :
    ((rest.map m.flatNode).foldl SessionManager.attachNode (nodes, roots)).2 =
      roots ++ (rest.filter (isRoot entries)).map m.leafNode := by
  induction rest generalizing before nodes roots with
  | nil => simp
  | cons e rest ih =>
    obtain ⟨hnext, hroots⟩ := h.attachNode hentries hnodup hparents roots
    rw [map_cons, foldl_cons, ← Prod.mk.eta (p := SessionManager.attachNode _ _),
      ih (before ++ [e]) hnext (by rw [hentries, append_assoc]; rfl), hroots, append_assoc]
    congr 1
    cases hroot : isRoot entries e with
    | false => rw [filter_cons_of_neg (by simp [hroot])]; rfl
    | true => rw [filter_cons_of_pos hroot]; rfl

/-! ### The sorted children -/

variable (isoToMillis : Str → Option ℤ)

/-- Nodes without children stay without children. -/
theorem get?_sortLoop_leaves (fuel : ℕ) (es : List (SessionEntry J)) (sorted : IndexMap Str (List (SessionTreeNode J)))
    (hsorted : ∀ id children, sorted.get? id = some children → children = []) :
    ∀ id children, (SessionTreeNode.sortLoop isoToMillis fuel (es.map m.leafNode) sorted).get? id =
      some children → children = [] := by
  induction fuel generalizing es sorted with
  | zero => exact hsorted
  | succ fuel ih =>
    cases es with
    | nil => exact hsorted
    | cons e es =>
      have hleaf : SessionTreeNode.sortByDate isoToMillis (m.leafNode e).children = [] := mergeSort_nil
      rw [map_cons, SessionTreeNode.sortLoop, hleaf]
      refine ih es _ fun id children h => ?_
      rw [get?_insert] at h
      split_ifs at h with hid
      · cases h
        rfl
      · exact hsorted id children h

/-- **The tree has the roots and nothing below them.** -/
theorem getTree_eq (hnodup : (m.getEntries.map SessionEntry.id).Nodup) (hparents : ParentsPrecede m.getEntries) :
    m.getTree isoToMillis = (m.getEntries.filter (isRoot m.getEntries)).map m.leafNode := by
  have hroots : (m.getFlatTree.foldl SessionManager.attachNode (m.nodeMap, [])).2 =
      (m.getEntries.filter (isRoot m.getEntries)).map m.leafNode := by
    have hfold := (awaits_nodeMap hnodup).foldl_attachNode [] rfl hnodup hparents []
    rwa [nil_append] at hfold
  rw [getTree, hroots, ← map_reverse, map_map]
  refine map_congr_left fun e _ => ?_
  have hsorted := get?_sortLoop_leaves (m := m) isoToMillis
    ((SessionTreeNode.nodesOfAll ((m.getEntries.filter (isRoot m.getEntries)).map m.leafNode)).length + 1)
    (m.getEntries.filter (isRoot m.getEntries)).reverse .empty nofun
  generalize SessionTreeNode.sortLoop isoToMillis _ _ _ = sorted at hsorted
  rw [Function.comp_apply, SessionTreeNode.apply]
  cases hchildren : sorted.get? (m.leafNode e).id with
  | none => rfl
  | some children =>
    rw [Option.getD_some, hsorted _ _ hchildren]
    rfl

/-! ### What is shown -/

theorem nodesOfAll_leaves (es : List (SessionEntry J)) :
    SessionTreeNode.nodesOfAll (es.map m.leafNode) = es.map m.leafNode := by
  induction es with
  | nil => rfl
  | cons e es ih =>
    rw [map_cons, SessionTreeNode.nodesOfAll, ih]
    rfl

/-- **The tree shows every entry exactly if no entry has a known parent**, for distinct ids and
parents that stand before their children. -/
theorem getTree_shows_iff (m : SessionManager J) (isoToMillis : Str → Option ℤ)
    (hnodup : (m.getEntries.map SessionEntry.id).Nodup) (hparents : ParentsPrecede m.getEntries) :
    Shows isoToMillis m.getEntries (m.getTree isoToMillis) ↔
      ∀ e ∈ m.getEntries, ∀ parent ∈ e.parentId, parent ∉ m.getEntries.map SessionEntry.id := by
  rw [getTree_eq isoToMillis hnodup hparents]
  constructor
  · intro hshows e he
    have hlength := hshows.once.length_eq
    rw [nodesOfAll_leaves, length_map, length_map, length_filter_eq_length_iff] at hlength
    exact isRoot_iff.1 (hlength e he)
  · intro hroots
    have hall : m.getEntries.filter (isRoot m.getEntries) = m.getEntries :=
      filter_eq_self.2 fun e he => isRoot_iff.2 (hroots e he)
    have hleaf : ∀ n ∈ m.getEntries.map m.leafNode, n.children = [] := by
      intro n hn
      obtain ⟨e, -, rfl⟩ := mem_map.1 hn
      rfl
    rw [hall]
    constructor
    · rw [nodesOfAll_leaves, map_map]
      exact Perm.of_eq (map_id _)
    · intro n hn
      obtain ⟨e, he, rfl⟩ := mem_map.1 hn
      exact isRoot_iff.2 (hroots e he)
    · intro n hn c hc
      rw [hleaf n (nodesOfAll_leaves (m := m) _ ▸ hn)] at hc
      exact absurd hc not_mem_nil
    · intro n hn
      rw [hleaf n (nodesOfAll_leaves (m := m) _ ▸ hn)]
      exact Pairwise.nil

/-! ### A message and its reply -/

/-- A session in memory with the given entries. -/
def ofEntries (entries : List (SessionEntry J)) : SessionManager J :=
  buildIndex { newSession false "s" "t" with fileEntries := header "s" "t" :: entries }

def question : SessionEntry Unit := ⟨"a", none, "t", .message ()⟩

def answer : SessionEntry Unit := ⟨"b", some "a", "t", .message ()⟩

theorem getEntries_conversation : (ofEntries [question, answer]).getEntries = [question, answer] := by decide

theorem parentsPrecede_conversation : ParentsPrecede [question, answer] := by
  intro before e after h
  rcases before with _ | ⟨x, _ | ⟨y, before⟩⟩
  · obtain ⟨rfl, -⟩ := cons.inj h
    exact fun parent hparent => absurd hparent nofun
  · obtain ⟨rfl, hrest⟩ := cons.inj h
    obtain ⟨rfl, -⟩ := cons.inj hrest
    intro parent hparent _
    obtain rfl : "a" = parent := Option.some.inj hparent
    decide
  · have hlength := congrArg length h
    simp at hlength

/-- The reply is not in the tree. -/
theorem getTree_loses_answer : ((ofEntries [question, answer]).getEntries.map SessionEntry.id).Nodup ∧
      ParentsPrecede (ofEntries [question, answer]).getEntries ∧
      ¬ Shows (fun _ => none) (ofEntries [question, answer]).getEntries
        ((ofEntries [question, answer]).getTree fun _ => none) := by
  have hnodup : ((ofEntries [question, answer]).getEntries.map SessionEntry.id).Nodup := by decide
  have hparents : ParentsPrecede (ofEntries [question, answer]).getEntries :=
    getEntries_conversation ▸ parentsPrecede_conversation
  refine ⟨hnodup, hparents, fun hshows => ?_⟩
  have hlength := hshows.once.length_eq
  rw [getTree_eq _ hnodup hparents, nodesOfAll_leaves] at hlength
  exact absurd hlength (by decide)

/-- An entry whose parent is not in the session. -/
def stray : SessionEntry Unit := ⟨"c", some "b", "t", .message ()⟩

/-- Without the reply every entry is shown. -/
theorem getTree_shows_iff_question : Shows (fun _ => none) (ofEntries [question, stray]).getEntries
    ((ofEntries [question, stray]).getTree fun _ => none) := by
  have hroots : ∀ e ∈ (ofEntries [question, stray]).getEntries, ∀ parent ∈ e.parentId,
      parent ∉ (ofEntries [question, stray]).getEntries.map SessionEntry.id := by decide
  refine (getTree_shows_iff _ (fun _ => none) (by decide) fun before e after h parent hmem hknown => ?_).2 hroots
  exact absurd hknown (hroots e (by rw [h]; simp) parent hmem)

end SessionManager

end Session
