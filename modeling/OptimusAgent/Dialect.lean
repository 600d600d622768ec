/-
**OCC-2 dialects: symbol tables as data, and their negotiation.**

A dialect assigns a wire symbol to every field of the contract and names two separator characters.
This module embeds `core/occ/dialect.rs`: the card of a dialect with its validation, the hash of the
codebook, the registry in which cards are looked up by id and version, and the negotiation.

Two agents advertise which dialect versions they understand and each picks, on its own, the dialect
they will use: the highest version both support, and of the dialects with that version the one with
the least id.
-/

import OptimusAgent.Contract
import OptimusAgent.OrdMap

namespace Occ

open Str Checked OrdMap

/-! ### The inventory of names -/

/-- Id of the default hand-designed dialect. -/
def defaultDialectId : Str := "sym-v1"

/-- Hex characters of the codebook hash that the wire header carries. -/
def codebookPrefixLen : ℕ := 12

/-- Maximum length of a dialect id in bytes. -/
def maxDialectIdLen : ℕ := 32

/-- Maximum length of a base symbol in bytes. -/
def maxSymbolLen : ℕ := 8

/-- The base slots every dialect must cover, in canonical order. -/
def requiredSlots : List Str :=
  ["message_id", "task_id", "parent_task_id", "trace_id", "sender", "recipient", "kind", "status",
    "sequence", "timestamp", "expiry", "finding.statement", "evidence.ref", "artifact",
    "verification.claim", "dependency", "next_action"]

/-- The subfields every dialect must cover, in canonical order. -/
def requiredSubfields : List Str := ["finding.confidence", "finding.evidence", "evidence.line_range", "evidence.digest",
    "evidence.revision", "evidence.verified", "verification.status", "verification.method",
    "verification.receipt"]

/-- The base slot a subfield hangs off, and whether its wire keys carry an index. -/
def subfieldBase (subfield : Str) : Option (Str × Bool) :=
  if subfield = "finding.confidence" ∨ subfield = "finding.evidence" then
    some ("finding.statement", true)
  else if subfield = "evidence.line_range" ∨ subfield = "evidence.digest" ∨
      subfield = "evidence.revision" ∨ subfield = "evidence.verified" then
    some ("evidence.ref", true)
  else if subfield = "verification.status" ∨ subfield = "verification.method" ∨
      subfield = "verification.receipt" then
    some ("verification.claim", false)
  else none

/-! ### Cards -/

/-- The two separator characters of a dialect. -/
structure DialectGrammar where
  /-- Separates the symbol from the value on a field line. -/
  operator : Char
  /-- Joins list items inside a value. -/
  listSeparator : Char
  deriving DecidableEq

/-- The symbol assignment of a dialect. -/
structure SymbolTable where
  /-- Canonical base slot name to base symbol. -/
  slots : OrdMap Str Str
  /-- Canonical subfield name to marker. -/
  subfields : OrdMap Str Str
  deriving DecidableEq

/-- The base symbol of a slot. -/
def SymbolTable.symbol (t : SymbolTable) (slot : Str) : Option Str := t.slots.get? slot

/-- The marker of a subfield. -/
def SymbolTable.marker (t : SymbolTable) (subfield : Str) : Option Char := (t.subfields.get? subfield).bind List.head?

/-- One dialect version: grammar, symbol table and integrity hash. -/
structure DialectCard where
  dialectId : Str
  version : U32
  grammar : DialectGrammar
  symbolTable : SymbolTable
  /-- The hash of the canonical serialization of grammar and symbol table. -/
  sha256 : Str
  deriving DecidableEq

/-- A failure of validation or registration. -/
inductive DialectError where
  | invalidDialectId (id : Str)
  | invalidVersion (version : U32)
  | invalidSymbol (slot reason : Str)
  | invalidSubfield (subfield reason : Str)
  | invalidSeparator (separator : Char)
  | invalidListSeparator (separator : Char)
  | unknownSlot (slot : Str)
  | missingSlot (slot : Str)
  | unknownSubfield (subfield : Str)
  | missingSubfield (subfield : Str)
  | symbolCollision (symbol slot otherSlot : Str)
  | subfieldCollision (marker subfield other : Str)
  | hashMismatch (stored computed : Str)
  | duplicate (dialect : Str) (version : U32)
  deriving DecidableEq

/-! ### The codebook hash -/

/-- A character inside a JSON string. -/
def jsonChar (c : Char) : Str :=
  if c = '"' then "\\\""
  else if c = '\\' then "\\\\"
  else if c = '\n' then "\\n"
  else if c = '\r' then "\\r"
  else if c = '\t' then "\\t"
  else if c.toNat = 8 then "\\b"
  else if c.toNat = 12 then "\\f"
  else if c.toNat < 32 then
    "\\u00" ++ [Nat.digitChar (c.toNat / 16), Nat.digitChar (c.toNat % 16)]
  else [c]

/-- A JSON string. -/
def jsonString (s : Str) : Str := '"' :: s.flatMap jsonChar ++ ['"']

/-- A JSON object of strings, in the order of its keys. -/
def jsonMap (m : OrdMap Str Str) : Str :=
  "\x7b" ++ [','].intercalate (m.entries.map fun e => jsonString e.1 ++ ':' :: jsonString e.2) ++ "\x7d"

/-- The canonical JSON serialization of a codebook. -/
def canonicalCodebook (grammar : DialectGrammar) (table : SymbolTable) : Str :=
  "\x7b\"grammar\":\x7b\"operator\":" ++ jsonString [grammar.operator] ++
    ",\"list_separator\":" ++ jsonString [grammar.listSeparator] ++
    "\x7d,\"symbol_table\":\x7b\"slots\":" ++ jsonMap table.slots ++ ",\"subfields\":" ++
    jsonMap table.subfields ++ "\x7d\x7d"

/-- The hash of the canonical codebook serialization. -/
def codebookSha256 [Host] (grammar : DialectGrammar) (table : SymbolTable) : Str :=
  Host.sha256Hex (canonicalCodebook grammar table)

/-! ### Validation -/

/-- A lower-case ASCII letter. -/
def isAsciiLower (c : Char) : Bool := 'a' ≤ c && c ≤ 'z'

/-- An ASCII letter or digit. -/
def isAsciiAlphanumeric (c : Char) : Bool := c.isUpper || isAsciiLower c || c.isDigit

/-- Dialect ids are `[a-z][a-z0-9-]*` of bounded length. -/
def validDialectId (id : Str) : Bool :=
  id ≠ [] && byteLen id ≤ maxDialectIdLen && (id.head?.map isAsciiLower).getD false &&
    id.all fun c => isAsciiLower c || c.isDigit || c == '-'

/-- Symbols are 1 to 8 upper-case letters. -/
def validSymbol (symbol : Str) : Bool := symbol ≠ [] && byteLen symbol ≤ maxSymbolLen && symbol.all Char.isUpper

/-- Markers are a single lower-case letter. -/
def validMarker (marker : Str) : Bool := marker.length = 1 && marker.all isAsciiLower

/-- Separators are printable ASCII, not alphanumeric and not `#`. -/
def usableSeparator (c : Char) : Bool := ' ' ≤ c && c ≤ '~' && !isAsciiAlphanumeric c && c != '#'

/-- The check of a separator. -/
def validateSeparator (separator : Char) : Except DialectError Unit :=
  rejectIf (¬ usableSeparator separator = true) (.invalidSeparator separator)

namespace DialectCard

variable [Host]

/-- The check of one slot of the symbol table. -/
def validateSlot (e : Str × Str) : Except DialectError Unit := do
  rejectIf (e.1 ∉ requiredSlots) (.unknownSlot e.1)
  rejectIf (¬ validSymbol e.2 = true)
    (.invalidSymbol e.1 ("symbols are 1..=" ++ dec maxSymbolLen ++ " uppercase A-Z characters"))

/-- The check of one subfield of the symbol table. -/
def validateSubfield (e : Str × Str) : Except DialectError Unit := do
  rejectIf (e.1 ∉ requiredSubfields) (.unknownSubfield e.1)
  rejectIf (¬ validMarker e.2 = true)
    (.invalidSubfield e.1 "markers are a single lowercase a-z character")

/-- Two subfields of one base share a marker. -/
def subfieldsCollide (a b : Str × Str) : Bool :=
  match subfieldBase a.1, subfieldBase b.1 with
  | some base, some base' => a.1 ≠ b.1 && a.2 = b.2 && base.1 = base'.1
  | _, _ => false

/-- The rules of a card. -/
def validate (card : DialectCard) : Except DialectError Unit := do
  rejectIf (¬ validDialectId card.dialectId = true) (.invalidDialectId card.dialectId)
  rejectIf (card.version = 0) (.invalidVersion card.version)
  validateSeparator card.grammar.operator
  validateSeparator card.grammar.listSeparator
  rejectIf (card.grammar.operator = card.grammar.listSeparator)
    (.invalidListSeparator card.grammar.listSeparator)
  let slots := card.symbolTable.slots
  let subfields := card.symbolTable.subfields
  forM slots.entries validateSlot
  forM requiredSlots fun required => rejectIf (¬ slots.contains required = true) (.missingSlot required)
  forM slots.entries fun a => forM slots.entries fun b =>
    rejectIf (a.1 ≠ b.1 ∧ a.2 <+: b.2) (.symbolCollision a.2 a.1 b.1)
  forM subfields.entries validateSubfield
  forM requiredSubfields fun required =>
    rejectIf (¬ subfields.contains required = true) (.missingSubfield required)
  forM subfields.entries fun a => forM subfields.entries fun b =>
    rejectIf (subfieldsCollide a b = true) (.subfieldCollision a.2 a.1 b.1)
  let computed := codebookSha256 card.grammar card.symbolTable
  rejectIf (computed ≠ card.sha256) (.hashMismatch card.sha256 computed)

/-- A card that follows the rules. -/
structure Valid (card : DialectCard) : Prop where
  dialectId : validDialectId card.dialectId = true
  version : card.version ≠ 0
  operator : usableSeparator card.grammar.operator = true
  separator : usableSeparator card.grammar.listSeparator = true
  distinct : card.grammar.operator ≠ card.grammar.listSeparator
  slots_known : ∀ e ∈ card.symbolTable.slots.entries, e.1 ∈ requiredSlots ∧ validSymbol e.2 = true
  slots_all : ∀ slot ∈ requiredSlots, card.symbolTable.slots.contains slot = true
  symbols_free : ∀ a ∈ card.symbolTable.slots.entries, ∀ b ∈ card.symbolTable.slots.entries, a.1 ≠ b.1 → ¬ a.2 <+: b.2
  subfields_known : ∀ e ∈ card.symbolTable.subfields.entries, e.1 ∈ requiredSubfields ∧ validMarker e.2 = true
  subfields_all : ∀ subfield ∈ requiredSubfields, card.symbolTable.subfields.contains subfield = true
  markers_free : ∀ a ∈ card.symbolTable.subfields.entries,
    ∀ b ∈ card.symbolTable.subfields.entries, subfieldsCollide a b = false
  hash : codebookSha256 card.grammar card.symbolTable = card.sha256

/-- The validation accepts exactly the cards that follow the rules. -/
theorem validate_eq_ok_iff {card : DialectCard} {u : Unit} : card.validate = .ok u ↔ card.Valid := by
  simp only [validate, validateSeparator, validateSlot, validateSubfield, bind_eq_ok,
    forM_eq_ok_iff, rejectIf_eq_ok, exists_const, not_not, not_and, Bool.not_eq_true,
    Bool.not_eq_false]
  constructor
  · rintro ⟨h₁, h₂, h₃, h₄, h₅, h₆, h₇, h₈, h₉, h₁₀, h₁₁, h₁₂⟩
    exact ⟨h₁, h₂, h₃, h₄, h₅, h₆, h₇, h₈, h₉, h₁₀, h₁₁, h₁₂⟩
  · intro h
    exact ⟨h.dialectId, h.version, h.operator, h.separator, h.distinct, h.slots_known, h.slots_all,
      h.symbols_free, h.subfields_known, h.subfields_all, h.markers_free, h.hash⟩

/-- The separators of the default dialect. -/
def symV1Grammar : DialectGrammar := { operator := '=', listSeparator := ',' }

/-- The symbols of the default dialect. -/
def symV1Table : SymbolTable where
  slots := ofList
    [("message_id", "M"), ("task_id", "T"), ("parent_task_id", "P"), ("trace_id", "R"),
      ("sender", "A"), ("recipient", "B"), ("kind", "K"), ("status", "S"), ("sequence", "Q"),
      ("timestamp", "C"), ("expiry", "X"), ("finding.statement", "F"), ("evidence.ref", "E"),
      ("artifact", "G"), ("verification.claim", "V"), ("dependency", "D"), ("next_action", "N")]
  subfields := ofList
    [("finding.confidence", "c"), ("finding.evidence", "e"), ("evidence.line_range", "l"),
      ("evidence.digest", "d"), ("evidence.revision", "r"), ("evidence.verified", "v"),
      ("verification.status", "s"), ("verification.method", "m"), ("verification.receipt", "r")]

/-- The default hand-designed dialect. -/
def symV1 : DialectCard where
  dialectId := defaultDialectId
  version := 1
  grammar := symV1Grammar
  symbolTable := symV1Table
  sha256 := codebookSha256 symV1Grammar symV1Table

/-- The default dialect is valid, whatever the hash function is. -/
theorem symV1_valid : (symV1 : DialectCard).Valid where
  dialectId := by
    show validDialectId defaultDialectId = true
    decide
  version := by
    show (1 : U32) ≠ 0
    decide
  operator := by
    show usableSeparator symV1Grammar.operator = true
    decide
  separator := by
    show usableSeparator symV1Grammar.listSeparator = true
    decide
  distinct := by
    show symV1Grammar.operator ≠ symV1Grammar.listSeparator
    decide
  slots_known := by
    show ∀ e ∈ symV1Table.slots.entries, _
    decide
  slots_all := by
    show ∀ slot ∈ requiredSlots, symV1Table.slots.contains slot = true
    decide
  symbols_free := by
    show ∀ a ∈ symV1Table.slots.entries, ∀ b ∈ symV1Table.slots.entries, _
    decide
  subfields_known := by
    show ∀ e ∈ symV1Table.subfields.entries, _
    decide
  subfields_all := by
    show ∀ subfield ∈ requiredSubfields, symV1Table.subfields.contains subfield = true
    decide
  markers_free := by
    show ∀ a ∈ symV1Table.subfields.entries, ∀ b ∈ symV1Table.subfields.entries, _
    decide
  hash := rfl

end DialectCard

/-! ### The registry -/

/-- The key of a card in the registry. -/
abbrev DialectKey : Type := Lex (Str × U32)

/-- The registered cards.  A card can only be registered when it is valid, and it is stored under
its own id and version. -/
structure DialectRegistry [Host] where
  cards : OrdMap DialectKey DialectCard
  keyed : ∀ e ∈ cards.entries, e.1 = toLex (e.2.dialectId, e.2.version)
  valid : ∀ e ∈ cards.entries, e.2.Valid

/-- The outcome of looking up a wire header. -/
inductive Resolved where
  | dialect (card : DialectCard)
  | unknown (dialect : Str) (version : U32)
  | hashMismatch (dialect : Str) (version : U32) (advertised registered : Str)
  deriving DecidableEq

namespace DialectRegistry

variable [Host]

/-- The registry without cards. -/
def new : DialectRegistry where
  cards := empty
  keyed := by simp [empty]
  valid := by simp [empty]

/-- Registers a valid card; a registered id and version is never replaced. -/
def insert (registry : DialectRegistry) (card : DialectCard) : Except DialectError DialectRegistry :=
  match h : card.validate with
  | .error e => .error e
  | .ok _ =>
    let key : DialectKey := toLex (card.dialectId, card.version)
    if registry.cards.contains key = true then
      .error (.duplicate card.dialectId card.version)
    else
      .ok
        { cards := registry.cards.insert key card
          keyed := by
            intro e he
            rcases mem_insertEntry he with rfl | he
            · rfl
            · exact registry.keyed e he
          valid := by
            intro e he
            rcases mem_insertEntry he with rfl | he
            · exact DialectCard.validate_eq_ok_iff.1 h
            · exact registry.valid e he }

/-- The card for an id and version. -/
def get (registry : DialectRegistry) (dialectId : Str) (version : U32) : Option DialectCard :=
  registry.cards.get? (toLex (dialectId, version))

/-- Resolves a wire header. -/
def resolve (registry : DialectRegistry) (dialectId : Str) (version : U32) (codebook : Str) : Resolved :=
  match registry.get dialectId version with
  | none => .unknown dialectId version
  | some card =>
    if codebook <+: card.sha256 then .dialect card
    else .hashMismatch dialectId version codebook (card.sha256.take (byteLen codebook))

/-- A valid card under a new key can be registered, and is found afterwards. -/
theorem exists_insert (registry : DialectRegistry) {card : DialectCard} (hcard : card.Valid)
    (hnew : registry.get card.dialectId card.version = none) :
    ∃ registry', registry.insert card = .ok registry' ∧ registry'.get card.dialectId card.version = some card := by
  have hcontains : ¬ registry.cards.contains (toLex (card.dialectId, card.version)) = true := by
    rw [contains]
    show ¬ (registry.get card.dialectId card.version).isSome = true
    rw [hnew]
    exact Bool.false_ne_true
  have hvalidate : card.validate = .ok () := DialectCard.validate_eq_ok_iff.2 hcard
  unfold insert
  split
  · next e h =>
    rw [hvalidate] at h
    exact absurd h (by simp)
  · rw [if_neg hcontains]
    exact ⟨_, rfl, get?_insert_self _ _ _⟩

/-- A registered card resolves under every start of its hash. -/
theorem resolve_of_get {registry : DialectRegistry} {card : DialectCard} {codebook : Str}
    (h : registry.get card.dialectId card.version = some card) (hhash : codebook <+: card.sha256) :
    registry.resolve card.dialectId card.version codebook = .dialect card := by
  rw [resolve, h]
  simp only [hhash, if_true]

end DialectRegistry

open List

/-- What an agent advertises: whether it speaks OCC-1, and the versions of the dialects it
understands. -/
structure OccCapability where
  occ1 : Bool
  dialects : OrdMap Str (OrdMap U32 Unit)

namespace OccCapability

/-- Whether the dialect version is understood. -/
def supports (capability : OccCapability) (dialectId : Str) (version : U32) : Bool :=
  (capability.dialects.get? dialectId).any (·.contains version)

/-- The largest version in both sets. -/
def maxShared (versions peerVersions : OrdMap U32 Unit) : Option U32 :=
  (versions.keys.filter peerVersions.contains).max?

/-- The best version of one dialect that the peer shares. -/
def sharedEntry (peer : OccCapability) (entry : Str × OrdMap U32 Unit) : Option (Str × U32) :=
  (peer.dialects.get? entry.1).bind fun peerVersions =>
    (maxShared entry.2 peerVersions).map fun version => (entry.1, version)

/-- The best shared dialect with a peer.  The ids are met in ascending order, and a version must be
larger than the best one so far. -/
def negotiate (capability peer : OccCapability) : Option (Str × U32) :=
  capability.dialects.entries.foldl (fun best entry =>
    match peer.sharedEntry entry with
    | none => best
    | some candidate => if best.all (·.2 < candidate.2) then some candidate else best) none

end OccCapability

/-- Among the members with the largest value, the one that is kept comes first. -/
theorem le_of_mem_argmax_of_pairwise {α β κ : Type} [DecidableEq α] [LinearOrder β] [Preorder κ] {f : α → β}
    {key : α → κ} {l : List α} (hl : l.Pairwise fun a b => key a < key b) {m a : α} (hm : m ∈ l.argmax f)
    (ha : a ∈ l) (hle : f m ≤ f a) : key m ≤ key a := by
  have hindex := index_of_argmax hm ha hle
  have hi := idxOf_lt_length_iff.2 (argmax_mem hm)
  have hj := idxOf_lt_length_iff.2 ha
  rcases Nat.lt_or_eq_of_le hindex with hij | hij
  · have hlt := pairwise_iff_getElem.1 hl _ _ hi hj hij
    rw [getElem_idxOf, getElem_idxOf] at hlt
    exact hlt.le
  · rw [(idxOf_inj (argmax_mem hm)).1 hij]

/-! ### The best shared dialect -/

/-- Both agents understand the dialect version. -/
def Shares (a b : OccCapability) (dialectId : Str) (version : U32) : Prop :=
  a.supports dialectId version = true ∧ b.supports dialectId version = true

/-- The version is the largest that is shared under any id, and the id the least whose largest
shared version it is. -/
def BestShared (a b : OccCapability) (dialectId : Str) (version : U32) : Prop :=
  IsGreatest {v | ∃ id, Shares a b id v} version ∧ IsLeast {id | IsGreatest {v | Shares a b id v} version} dialectId

variable {a b : OccCapability}

theorem shares_comm {dialectId : Str} {version : U32} :
    Shares a b dialectId version ↔ Shares b a dialectId version := And.comm

theorem bestShared_comm {dialectId : Str} {version : U32} :
    BestShared a b dialectId version ↔ BestShared b a dialectId version := by
  simp only [BestShared, shares_comm (a := a)]

theorem BestShared.unique {id id' : Str} {version version' : U32}
    (h : BestShared a b id version) (h' : BestShared a b id' version') : (id, version) = (id', version') := by
  obtain rfl := h.1.unique h'.1
  rw [h.2.unique h'.2]

namespace OccCapability

variable {dialectId : Str} {version : U32}

theorem supports_iff {capability : OccCapability} : capability.supports dialectId version = true ↔
      ∃ versions, (dialectId, versions) ∈ capability.dialects.entries ∧ versions.contains version = true := by
  rw [supports, Option.any_eq_true]
  exact exists_congr fun versions => and_congr_left' OrdMap.get?_eq_some_iff

theorem maxShared_eq_some_iff {versions peerVersions : OrdMap U32 Unit} :
    maxShared versions peerVersions = some version ↔
      IsGreatest {v | versions.contains v = true ∧ peerVersions.contains v = true} version := by
  have hmem : ∀ v, v ∈ versions.keys.filter peerVersions.contains ↔
      versions.contains v = true ∧ peerVersions.contains v = true := by
    intro v
    rw [mem_filter, ← OrdMap.contains_iff]
  rw [maxShared, max?_eq_some_iff, hmem]
  refine and_congr_right fun _ => ?_
  simp only [hmem, mem_upperBounds, Set.mem_ofPred_eq]

/-- A dialect of the one agent gives its largest shared version. -/
theorem sharedEntry_eq_some_iff {entry : Str × OrdMap U32 Unit}
    (hentry : entry ∈ a.dialects.entries) {candidate : Str × U32} :
    b.sharedEntry entry = some candidate ↔
      candidate.1 = entry.1 ∧ IsGreatest {v | Shares a b entry.1 v} candidate.2 := by
  have hversions : ∀ v, a.supports entry.1 v = true ↔ entry.2.contains v = true := by
    intro v
    rw [supports, OrdMap.get?_eq_some_iff.2 hentry]
    rfl
  rw [sharedEntry]
  cases hpeer : b.dialects.get? entry.1 with
  | none =>
    refine iff_of_false nofun fun h => ?_
    have hshared := h.2.1.2
    rw [supports, hpeer] at hshared
    exact Bool.false_ne_true hshared
  | some peerVersions =>
    have hset : {v | Shares a b entry.1 v} =
        {v | entry.2.contains v = true ∧ peerVersions.contains v = true} := by
      ext v
      rw [Set.mem_ofPred_eq, Set.mem_ofPred_eq, Shares, hversions, supports, hpeer, Option.any_some]
    rw [Option.bind_some, hset, ← maxShared_eq_some_iff, Option.map_eq_some_iff]
    constructor
    · rintro ⟨version, hversion, rfl⟩
      exact ⟨rfl, hversion⟩
    · rintro ⟨hid, hversion⟩
      exact ⟨candidate.2, hversion, by rw [← hid]⟩

/-- The walk keeps the first of the candidates with the largest version. -/
theorem negotiate_eq_argmax (a b : OccCapability) :
    a.negotiate b = (a.dialects.entries.filterMap b.sharedEntry).argmax Prod.snd := by
  rw [negotiate, argmax, foldl_filterMap]
  congr 1
  funext best entry
  cases b.sharedEntry entry with
  | none => rfl
  | some candidate =>
    cases best with
    | none => rfl
    | some best => simp [argAux]

/-- The candidates are in the order of their ids. -/
theorem pairwise_candidates (a b : OccCapability) :
    (a.dialects.entries.filterMap b.sharedEntry).Pairwise fun c c' => c.1 < c'.1 := by
  refine pairwise_filterMap.2 (a.dialects.sorted.imp_of_mem ?_)
  intro entry entry' hentry hentry' hlt c hc c' hc'
  rw [((sharedEntry_eq_some_iff hentry).1 hc).1, ((sharedEntry_eq_some_iff hentry').1 hc').1]
  exact hlt

theorem mem_candidates_iff {c : Str × U32} :
    c ∈ a.dialects.entries.filterMap b.sharedEntry ↔ IsGreatest {v | Shares a b c.1 v} c.2 := by
  rw [mem_filterMap]
  constructor
  · rintro ⟨entry, hentry, hcandidate⟩
    obtain ⟨hid, hgreatest⟩ := (sharedEntry_eq_some_iff hentry).1 hcandidate
    rwa [hid]
  · intro hgreatest
    obtain ⟨versions, hentry, -⟩ := supports_iff.1 hgreatest.1.1
    exact ⟨_, hentry, (sharedEntry_eq_some_iff hentry).2 ⟨rfl, hgreatest⟩⟩

/-- Whatever is shared has a largest version under its id. -/
theorem exists_greatest_of_shares (h : Shares a b dialectId version) :
    ∃ best, version ≤ best ∧ IsGreatest {v | Shares a b dialectId v} best := by
  have hfinite : {v | Shares a b dialectId v}.Finite := Set.toFinite _
  obtain ⟨best, hbest, hle⟩ := hfinite.exists_maximalFor id _ ⟨version, h⟩
  refine ⟨best, le_of_not_gt fun hlt => (hle h hlt.le).not_gt hlt, hbest, fun v hv => ?_⟩
  exact le_of_not_gt fun hlt => (hle hv hlt.le).not_gt hlt

/-- What is negotiated is the best shared dialect. -/
theorem bestShared_of_negotiate
    (h : a.negotiate b = some (dialectId, version)) : BestShared a b dialectId version := by
  rw [negotiate_eq_argmax] at h
  have hgreatest := mem_candidates_iff.1 (argmax_mem h)
  refine ⟨⟨⟨dialectId, hgreatest.1⟩, ?_⟩, hgreatest, fun id hid => ?_⟩
  · rintro v ⟨id, hshares⟩
    obtain ⟨best, hv, hcandidate⟩ := exists_greatest_of_shares hshares
    exact hv.trans (le_of_mem_argmax (mem_candidates_iff (c := (id, best)).2 hcandidate) h)
  · exact le_of_mem_argmax_of_pairwise (pairwise_candidates a b) h
      (mem_candidates_iff (c := (id, version)).2 hid) le_rfl

/-- **The result is the best shared dialect.** -/
theorem negotiate_eq_some_iff : a.negotiate b = some (dialectId, version) ↔ BestShared a b dialectId version := by
  refine ⟨bestShared_of_negotiate, fun h => ?_⟩
  cases hresult : a.negotiate b with
  | none =>
    rw [negotiate_eq_argmax, argmax_eq_none] at hresult
    have hmem : (dialectId, version) ∈ a.dialects.entries.filterMap b.sharedEntry := mem_candidates_iff.2 h.2.1
    rw [hresult] at hmem
    exact absurd hmem not_mem_nil
  | some result => rw [← (bestShared_of_negotiate hresult).unique h]

/-- **Both sides pick the same dialect.**  There is a result iff a dialect version is in both
tables; its version is then the largest one shared under any id, and its id the least whose largest
shared version it is. -/
theorem negotiate_agrees (a b : OccCapability) : a.negotiate b = b.negotiate a ∧
    ((a.negotiate b).isSome = true ↔ ∃ id v, a.supports id v = true ∧ b.supports id v = true) ∧
    ∀ id v, a.negotiate b = some (id, v) →
      IsGreatest {v | ∃ id, a.supports id v = true ∧ b.supports id v = true} v ∧
      IsLeast {id | IsGreatest {v | a.supports id v = true ∧ b.supports id v = true} v} id := by
  refine ⟨?_, ⟨fun h => ?_, fun ⟨id, v, hshares⟩ => ?_⟩, fun id v h => bestShared_of_negotiate h⟩
  · refine Option.ext fun ⟨id, v⟩ => ?_
    rw [negotiate_eq_some_iff, negotiate_eq_some_iff, bestShared_comm]
  · obtain ⟨⟨id, v⟩, h⟩ := Option.isSome_iff_exists.1 h
    exact ⟨id, v, (bestShared_of_negotiate h).2.1.1⟩
  · obtain ⟨best, -, hgreatest⟩ := exists_greatest_of_shares hshares
    rw [Option.isSome_iff_ne_none, negotiate_eq_argmax, Ne, argmax_eq_none]
    exact ne_nil_of_mem (mem_candidates_iff (c := (id, best)).2 hgreatest)

end OccCapability

end Occ
