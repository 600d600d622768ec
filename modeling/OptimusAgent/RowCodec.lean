/-
**The rows of a session file.**

A tool result is stored with its content and with details that often repeat the content word for
word.  When a row is written, a detail that occurs in the content is replaced by a reference to its
place there, counted in UTF-16 code units, with a hash of the text; a field of the row says which
details were replaced.  The loader puts the texts back.  This module embeds the two directions,
`serialize_session_file_entry` and `rehydrate_session_file_entry` of `core/session_manager.rs`.

The JSON library, the hash and the floating-point numbers are parameters.  The loader reads places
as JavaScript does, as integers below `2 ^ 53`, so the codec is lossless for content that can be
counted this way.
-/

import OptimusAgent.Text
import OptimusAgent.Checked
import OptimusAgent.Keyed
import OptimusAgent.Utf16

namespace RowCodec

open Str List Keyed

/-! ### JSON values -/

/-- A JSON number: an integer, or a double `F`. -/
inductive JsonNumber (F : Type) where
  | int (n : ℤ)
  | float (x : F)
  deriving DecidableEq

/-- A JSON value; an object keeps its fields in order. -/
inductive Json (F : Type) where
  | null
  | bool (b : Bool)
  | number (n : JsonNumber F)
  | string (s : Str)
  | array (items : List (Json F))
  | object (fields : List (Str × Json F))

/-- The fields of an object: `FileEntry`. -/
abbrev FileEntry (F : Type) := List (Str × Json F)

/-- The value of a field: `Map::get`. -/
abbrev field {F : Type} (key : Str) (fields : FileEntry F) : Option (Json F) := first key fields

/-- The fields with one of them set: `Map::insert`. -/
abbrev setField {F : Type} (key : Str) (value : Json F) (fields : FileEntry F) : FileEntry F := put key value fields

namespace Json

variable {F : Type}

def asStr : Json F → Option Str
  | .string s => some s
  | _ => none

def asArray : Json F → Option (List (Json F))
  | .array items => some items
  | _ => none

def asObject : Json F → Option (FileEntry F)
  | .object fields => some fields
  | _ => none

/-- The value of an integer that fits in 64 bits. -/
def asI64 : Json F → Option ℤ
  | .number (.int n) => if -2 ^ 63 ≤ n ∧ n < 2 ^ 63 then some n else none
  | _ => none

/-- Each object in the value has each of its fields once. -/
inductive WellFormed : Json F → Prop where
  | null : WellFormed .null
  | bool (b : Bool) : WellFormed (.bool b)
  | number (n : JsonNumber F) : WellFormed (.number n)
  | string (s : Str) : WellFormed (.string s)
  | array {items : List (Json F)} (hitems : ∀ v ∈ items, WellFormed v) : WellFormed (.array items)
  | object {fields : List (Str × Json F)} (hkeys : (fields.map Prod.fst).Nodup)
      (hfields : ∀ e ∈ fields, WellFormed e.2) : WellFormed (.object fields)

attribute [simp] WellFormed.number WellFormed.string

variable {fields : FileEntry F}

theorem WellFormed.of_first (h : WellFormed (.object fields)) {k : Str}
    {v : Json F} (hv : first k fields = some v) : WellFormed v := by
  cases h with
  | object hkeys hfields => exact hfields (k, v) (mem_of_first_eq_some hv)

theorem WellFormed.put (h : WellFormed (.object fields)) (k : Str)
    {v : Json F} (hv : WellFormed v) : WellFormed (.object (put k v fields)) := by
  cases h with
  | object hkeys hfields =>
    refine .object (nodup_keys_put hkeys) fun e he => ?_
    rcases mem_put he with rfl | hmem
    · exact hv
    · exact hfields e hmem

theorem wellFormed_object_iff : WellFormed (.object fields) ↔
    (fields.map Prod.fst).Nodup ∧ ∀ e ∈ fields, WellFormed e.2 :=
  ⟨fun | .object hkeys hfields => ⟨hkeys, hfields⟩, fun h => .object h.1 h.2⟩

theorem asObject_bind_eq_some {v : Option (Json F)} : v.bind asObject = some fields ↔ v = some (.object fields) := by
  constructor
  · intro h
    obtain ⟨w, rfl, hw⟩ := Option.bind_eq_some_iff.1 h
    cases w <;> cases hw
    rfl
  · rintro rfl
    rfl

end Json

/-- What the codec takes from the libraries, for doubles `F` and JSON texts `T`. -/
class RowHost (F : outParam Type) (T : Type) where
  /-- The text of a value: `json_stringify`. -/
  jsonStringify : Json F → T
  fromStr : T → Option (Json F)
  /-- The length of a text in bytes. -/
  len : T → ℕ
  /-- The hash of a text in hexadecimal: `sha256_text`. -/
  sha256Text : Str → Str
  /-- The integer that a finite double without a fraction is. -/
  whole : F → Option ℤ

def isLowerHex (c : Char) : Bool := c.isDigit || 'a' ≤ c && c ≤ 'f'

/-- Printing and parsing are inverse, and a hash is 64 hexadecimal digits. -/
class LawfulRowHost (F : outParam Type) (T : Type) [RowHost F T] : Prop where
  fromStr_jsonStringify : ∀ v : Json F, v.WellFormed → RowHost.fromStr (RowHost.jsonStringify v : T) = some v
  length_sha256Text : ∀ s : Str, (RowHost.sha256Text T s).length = 64
  isLowerHex_sha256Text : ∀ s : Str, (RowHost.sha256Text T s).all isLowerHex = true

/-! ### Reading an entry -/

section

variable {F : Type}

def fieldStr (key : Str) (fields : FileEntry F) : Option Str := (field key fields).bind Json.asStr

def entryType (entry : FileEntry F) : Str := (fieldStr "type" entry).getD ""

def messageOf (entry : FileEntry F) : Option (FileEntry F) := (field "message" entry).bind Json.asObject

def messageRole (entry : FileEntry F) : Str := ((messageOf entry).bind (fieldStr "role")).getD ""

def detailsOf (message : FileEntry F) : Option (FileEntry F) := (field "details" message).bind Json.asObject

def inlineToolTextReferenceKey : Str := "$primeToolText"

def inlineToolTextReferenceVersion : ℤ := 1

def inlineToolTextEncodingKey : Str := "$primeSessionEncoding"

def inlineToolTextEncodingKind : Str := "inline_tool_text"

def toolDetailTextKeys : List Str := ["stdout", "stderr", "result", "backgroundOutput"]

theorem nodup_toolDetailTextKeys : toolDetailTextKeys.Nodup := by decide

/-- The text of one part of the content of a tool result. -/
def toolResultContentText (message : FileEntry F) (contentIndex : ℕ) : Option Str :=
  match field "content" message with
  | some (.string content) => if contentIndex = 0 then some content else none
  | some (.array parts) => (parts[contentIndex]?.bind Json.asObject).bind fun candidate =>
    if fieldStr "type" candidate = some ("text" : Str) then fieldStr "text" candidate else none
  | _ => none

def contentCount (message : FileEntry F) : ℕ :=
  match field "content" message with
  | some (.array parts) => parts.length
  | some (.string _) => 1
  | _ => 0

end

/-! ### Writing a row -/

section

variable {F : Type} (T : Type) [RowHost F T]

def referenceFields (contentIndex start length : ℕ) (sha256 : Str) : FileEntry F :=
  [("version", .number (.int inlineToolTextReferenceVersion)), ("source", .string "content"),
    ("contentIndex", .number (.int contentIndex)),
    ("start", .number (.int start)),
    ("length", .number (.int length)),
    ("sha256", .string sha256)]

/-- A reference to a part of the content. -/
def reference (contentIndex start length : ℕ) (sha256 : Str) : Json F :=
  .object [(inlineToolTextReferenceKey, .object (referenceFields contentIndex start length sha256))]

/-- The reference to the first occurrence of a value in one part, if it is shorter than the
value. -/
def referenceAt (message : FileEntry F) (value : Str) (contentIndex : ℕ) : Option (Json F) :=
  ((toolResultContentText message contentIndex).bind (textBefore value)).bind fun before =>
    let ref := reference contentIndex (Utf16.encode before).length (Utf16.encode value).length
      (RowHost.sha256Text T value)
    if RowHost.len (RowHost.jsonStringify ref : T) <
        RowHost.len (RowHost.jsonStringify (Json.string value : Json F) : T) then some ref
    else none

def inlineToolTextReference (message : FileEntry F) (value : Str) : Option (Json F) :=
  if value = [] then none
  else (range (contentCount message)).findSome? (referenceAt T message value)

/-- The details that are replaced, with the references that replace them. -/
def encodedDetails (message details : FileEntry F) : FileEntry F :=
  toolDetailTextKeys.filterMap fun key =>
    ((fieldStr key details).bind (inlineToolTextReference T message)).map fun ref => (key, ref)

/-- The field of a row that says which details are replaced. -/
def envelope (encoded : FileEntry F) : FileEntry F :=
  [("version", .number (.int inlineToolTextReferenceVersion)), ("kind", .string inlineToolTextEncodingKind),
    ("fields", .array (encoded.map fun e => .string e.1))]

/-- The row with references, and the field that says which details they replace. -/
def candidateEntry (entry message details encoded : FileEntry F) : FileEntry F :=
  setField "message" (.object (setField "details" (.object (putAll encoded details)) message))
    (setField inlineToolTextEncodingKey (.object (envelope encoded)) entry)

def serializeSessionFileEntry (entry : FileEntry F) : T :=
  let original : T := RowHost.jsonStringify (.object entry)
  if entryType entry ≠ "message" ∨ messageRole entry ≠ "toolResult" then original
  else
    match messageOf entry with
    | none => original
    | some message =>
      match detailsOf message with
      | none => original
      | some details =>
        let encoded := encodedDetails T message details
        if encoded = [] then original
        else
          let candidate : T := RowHost.jsonStringify (.object (candidateEntry entry message details encoded))
          if RowHost.len candidate < RowHost.len original then candidate else original

/-! ### Reading a row -/

/-- The integers that a double has exactly, with their neighbours. -/
def maxSafeInteger : ℤ := 9007199254740991

/-- An integer rounds to a double beyond the bound exactly when it is beyond the bound. -/
def isSafeInteger : Json F → Option ℤ
  | .number (.int n) => if |n| ≤ maxSafeInteger then some n else none
  | .number (.float x) => (RowHost.whole T x).filter fun n => |n| ≤ maxSafeInteger
  | _ => none

def isNonnegativeSafeInteger (value : Json F) : Option ℤ := (isSafeInteger T value).filter fun n => 0 ≤ n

/-- A place of a reference, as an index. -/
def place (key : Str) (ref : FileEntry F) : Option ℕ :=
  ((field key ref).bind (isNonnegativeSafeInteger T)).map Int.toNat

def decodeInlineToolTextReference (message : FileEntry F) (value : Json F) : Option Str := do
  let ref ← (value.asObject.bind (field inlineToolTextReferenceKey)).bind Json.asObject
  guard ((field "version" ref).bind Json.asI64 = some inlineToolTextReferenceVersion ∧
    fieldStr "source" ref = some ("content" : Str))
  let contentIndex ← place T "contentIndex" ref
  let start ← place T "start" ref
  let length ← place T "length" ref
  let sha ← fieldStr "sha256" ref
  guard (byteLen sha = 64 ∧ sha.all isLowerHex)
  let source ← toolResultContentText message contentIndex
  let units := Utf16.encode source
  guard (length ≤ units.length ∧ start ≤ units.length - length)
  let decoded := Utf16.decodeLossy ((units.drop start).take length)
  guard (RowHost.sha256Text T decoded = sha)
  return decoded

/-- The names of the replaced details, if the row says that some are. -/
def encodedInlineToolTextFields (entry : FileEntry F) : Option (List Str) := do
  let envelope ← (field inlineToolTextEncodingKey entry).bind Json.asObject
  let fields ← (field "fields" envelope).bind Json.asArray
  guard ((field "version" envelope).bind Json.asI64 = some inlineToolTextReferenceVersion ∧
    fieldStr "kind" envelope = some inlineToolTextEncodingKind ∧ fields ≠ [])
  let names ← fields.mapM fun field =>
    field.asStr.bind fun name => if name ∈ toolDetailTextKeys then some name else none
  guard names.Nodup
  return names

def invalidReferenceText (key : Str) : Str := "[session recovery error: invalid inline " ++ key ++ " reference]"

def diagnosticText (failedKeys : List Str) : Str := "[session recovery error: could not reconstruct " ++
    intercalate ", " failedKeys ++ " from tool-result content]"

/-- A replaced detail of a message, read back. -/
def decodedDetail (message sourceDetails : FileEntry F) (key : Str) : Option Str :=
  decodeInlineToolTextReference T message ((field key sourceDetails).getD .null)

/-- The content with the diagnostic at its end. -/
def diagnosticContent (message : FileEntry F) (diagnostic : Str) : Json F :=
  let part : Json F := .object [("type", .string "text"), ("text", .string diagnostic)]
  match field "content" message with
  | some (.array parts) => .array (parts ++ [part])
  | some (.string text) => .string (text ++ '\n' :: diagnostic)
  | _ => .array [part]

/-- The message with the details that are read back, and with an error for those that are not. -/
def outMessage (message : FileEntry F) (encodedFields : List Str) : FileEntry F :=
  let sourceDetails := (detailsOf message).getD []
  let decodedDetails := putAll (encodedFields.map fun key =>
    (key, .string ((decodedDetail T message sourceDetails key).getD (invalidReferenceText key))))
    sourceDetails
  let out := setField "details" (.object decodedDetails) message
  let failedKeys := encodedFields.filter fun key => (decodedDetail T message sourceDetails key).isNone
  if failedKeys = [] then out
  else setField "isError" (.bool true)
    (setField "content" (diagnosticContent message (diagnosticText failedKeys)) out)

def rehydrateSessionFileEntry (entry : FileEntry F) : FileEntry F :=
  match encodedInlineToolTextFields entry with
  | none => entry
  | some encodedFields =>
    if entryType entry ≠ "message" ∨ messageRole entry ≠ "toolResult" then entry
    else
      match messageOf entry with
      | none => entry
      | some message =>
        setField "message" (.object (outMessage T message encodedFields))
          (entry.filter fun e => e.1 ≠ inlineToolTextEncodingKey)

/-! ### A reference is read back -/

/-- The places in the content are safe integers. -/
def Countable (message : FileEntry F) : Prop := contentCount message ≤ 2 ^ 53 ∧
    ∀ i text, toolResultContentText message i = some text → (Utf16.encode text).length < 2 ^ 53

omit [RowHost F T] in
theorem toolResultContentText_setField {key : Str} (h : "content" ≠ key) (v : Json F) (message : FileEntry F) (i : ℕ) :
    toolResultContentText (setField key v message) i = toolResultContentText message i := by
  simp only [toolResultContentText, field, setField, first_put, if_neg h]

variable {T}

theorem place_int {key : Str} {ref : FileEntry F} {n : ℕ}
    (h : field key ref = some (.number (.int n))) (hn : n < 2 ^ 53) : place T key ref = some n := by
  have hsafe : (n : ℤ) ≤ maxSafeInteger := by
    rw [maxSafeInteger]
    omega
  simp [place, h, isNonnegativeSafeInteger, isSafeInteger, hsafe]

theorem place_referenceFields {i start length : ℕ} (hi : i < 2 ^ 53) (hstart : start < 2 ^ 53)
    (hlength : length < 2 ^ 53) (sha : Str) :
    place T "contentIndex" (referenceFields i start length sha) = some i ∧
      place T "start" (referenceFields i start length sha) = some start ∧
      place T "length" (referenceFields i start length sha) = some length :=
  ⟨place_int rfl hi, place_int rfl hstart, place_int rfl hlength⟩

theorem toNat_lt_of_isLowerHex {c : Char} (h : isLowerHex c = true) : c.toNat < 128 := by
  simp only [isLowerHex, Bool.or_eq_true, Bool.and_eq_true, decide_eq_true_eq] at h
  rcases h with hdigit | ⟨-, hle⟩
  · exact toNat_lt_of_isDigit hdigit
  · exact lt_of_le_of_lt (UInt32.le_iff_toNat_le.1 hle) (by decide)

theorem byteLen_sha256Text [LawfulRowHost F T] (value : Str) : byteLen (RowHost.sha256Text T value) = 64 := by
  have hhex := all_eq_true.1 (LawfulRowHost.isLowerHex_sha256Text (T := T) value)
  rw [byteLen_eq_length fun c hc => toNat_lt_of_isLowerHex (hhex c hc), LawfulRowHost.length_sha256Text]

variable {message : FileEntry F}

/-- What is read for a reference whose places are safe integers. -/
theorem decodeInlineToolTextReference_reference {i start length : ℕ}
    {sha source : Str} (hi : i < 2 ^ 53) (hstart : start < 2 ^ 53) (hlength : length < 2 ^ 53)
    (hsha : byteLen sha = 64 ∧ sha.all isLowerHex = true)
    (hsource : toolResultContentText message i = some source)
    (hfits : start + length ≤ (Utf16.encode source).length) :
    decodeInlineToolTextReference T message (reference i start length sha) =
      let decoded := Utf16.decodeLossy (((Utf16.encode source).drop start).take length)
      if RowHost.sha256Text T decoded = sha then some decoded else none := by
  obtain ⟨hplace, hstart, hlength⟩ := place_referenceFields (T := T) hi hstart hlength sha
  have hobject : ((reference i start length sha).asObject.bind (field inlineToolTextReferenceKey)).bind Json.asObject =
        some (referenceFields (F := F) i start length sha) := rfl
  have hversion : (field "version" (referenceFields (F := F) i start length sha)).bind Json.asI64 =
      some inlineToolTextReferenceVersion := rfl
  have hname : fieldStr "source" (referenceFields (F := F) i start length sha) = some ("content" : Str) := rfl
  have hhash : fieldStr "sha256" (referenceFields (F := F) i start length sha) = some sha := rfl
  have hslice : length ≤ (Utf16.encode source).length ∧ start ≤ (Utf16.encode source).length - length := by omega
  simp only [decodeInlineToolTextReference, hobject, hversion, hname, hplace, hstart, hlength, hhash,
    hsource, hsha, hslice, and_self, guard_true, Option.bind_eq_bind, Option.bind_some,
    Option.pure_def]
  split_ifs with hdecoded
  · rw [guard, if_pos hdecoded]
    rfl
  · rw [guard, if_neg hdecoded]
    rfl

/-- **A reference is read back as the text it was made for.** -/
theorem decode_reference [LawfulRowHost F T] (hcount : Countable message)
    {i : ℕ} (hi : i < contentCount message) {text value before : Str}
    (htext : toolResultContentText message i = some text)
    (hbefore : textBefore value text = some before) :
    decodeInlineToolTextReference T message (reference i (Utf16.encode before).length
      (Utf16.encode value).length (RowHost.sha256Text T value)) = some value := by
  obtain ⟨after, rfl⟩ := exists_of_textBefore hbefore
  have hlen := hcount.2 i _ htext
  have hunits : (Utf16.encode (before ++ value ++ after)).length = (Utf16.encode before).length +
      (Utf16.encode value).length + (Utf16.encode after).length := by
    simp only [Utf16.encode_append, length_append]
  rw [decodeInlineToolTextReference_reference (lt_of_lt_of_le hi hcount.1) (by omega) (by omega)
    ⟨byteLen_sha256Text value, LawfulRowHost.isLowerHex_sha256Text value⟩ htext (by omega),
    Utf16.slice_encode, Utf16.decodeLossy_encode]
  exact if_pos rfl

/-! ### The details are put back -/

variable {e : Str × Json F}

/-- A detail that is replaced is a text, and its reference is made for it. -/
theorem of_mem_encodedDetails {details : FileEntry F} (he : e ∈ encodedDetails T message details) :
    ∃ value i text before, field e.1 details = some (.string value) ∧ i < contentCount message ∧
      toolResultContentText message i = some text ∧ textBefore value text = some before ∧
      e.2 = reference i (Utf16.encode before).length (Utf16.encode value).length
        (RowHost.sha256Text T value) := by
  obtain ⟨key, -, hkey⟩ := mem_filterMap.1 he
  obtain ⟨ref, href, rfl⟩ := Option.map_eq_some_iff.1 hkey
  obtain ⟨value, hvalue, hinline⟩ := Option.bind_eq_some_iff.1 href
  have hfield : field key details = some (.string value) := by
    obtain ⟨v, hv, hstr⟩ := Option.bind_eq_some_iff.1 hvalue
    cases v <;> cases hstr
    exact hv
  rw [inlineToolTextReference] at hinline
  split_ifs at hinline
  obtain ⟨i, hi, hat⟩ := exists_of_findSome?_eq_some hinline
  obtain ⟨before, hbefore, hshort⟩ := Option.bind_eq_some_iff.1 hat
  obtain ⟨text, htext, hbefore⟩ := Option.bind_eq_some_iff.1 hbefore
  simp only [Option.ite_none_right_eq_some, Option.some.injEq] at hshort
  exact ⟨value, i, text, before, hfield, mem_range.1 hi, htext, hbefore, hshort.2.symm⟩

theorem decode_of_mem_encodedDetails [LawfulRowHost F T] {details : FileEntry F}
    (hcount : Countable message) (he : e ∈ encodedDetails T message details) :
    ∃ value, field e.1 details = some (.string value) ∧ decodeInlineToolTextReference T message e.2 = some value := by
  obtain ⟨value, i, text, before, hfield, hi, htext, hbefore, href⟩ := of_mem_encodedDetails he
  exact ⟨value, hfield, by rw [href, decode_reference hcount hi htext hbefore]⟩

variable (T) in
theorem names_encodedDetails_sublist (message details : FileEntry F) :
    ((encodedDetails T message details).map Prod.fst).Sublist toolDetailTextKeys := by
  rw [encodedDetails]
  generalize toolDetailTextKeys = keys
  induction keys with
  | nil => exact Sublist.slnil
  | cons key keys ih =>
    rw [filterMap_cons]
    cases (fieldStr key details).bind (inlineToolTextReference T message) with
    | none => exact ih.cons key
    | some ref => exact ih.cons_cons key

variable (T) in
theorem nodup_names_encodedDetails (message details : FileEntry F) :
    ((encodedDetails T message details).map Prod.fst).Nodup :=
  (names_encodedDetails_sublist T message details).nodup nodup_toolDetailTextKeys

variable {entry details : FileEntry F}

/-- The field of a candidate row says which details are replaced. -/
theorem encodedInlineToolTextFields_candidateEntry {encoded : FileEntry F}
    (hne : encoded ≠ []) (hsub : (encoded.map Prod.fst).Sublist toolDetailTextKeys) :
    encodedInlineToolTextFields (candidateEntry entry message details encoded) = some (encoded.map Prod.fst) := by
  have hkey : inlineToolTextEncodingKey ≠ "message" := by decide
  have hnames : ((encoded.map fun e => Json.string (F := F) e.1).mapM fun field =>
      field.asStr.bind fun name => if name ∈ toolDetailTextKeys then some name else none) =
        some (encoded.map Prod.fst) := by
    rw [Checked.mapM_eq_some_iff, forall₂_map_left_iff, forall₂_map_right_iff, forall₂_same]
    intro e he
    exact if_pos (hsub.subset (mem_map_of_mem he))
  have hfields : encoded.map (fun e => Json.string (F := F) e.1) ≠ [] := by simpa using hne
  have henvelope : (field inlineToolTextEncodingKey
      (candidateEntry entry message details encoded)).bind Json.asObject = some (envelope encoded) := by
    rw [candidateEntry, field, setField, first_put, if_neg hkey, setField, first_put, if_pos rfl]
    rfl
  have hlist : (field "fields" (envelope encoded)).bind Json.asArray =
      some (encoded.map fun e => Json.string e.1) := rfl
  have hversion : (field "version" (envelope encoded)).bind Json.asI64 = some inlineToolTextReferenceVersion := rfl
  have hkind : fieldStr "kind" (envelope encoded) = some inlineToolTextEncodingKind := rfl
  simp only [encodedInlineToolTextFields, henvelope, hlist, hversion, hkind, hfields, hnames,
    hsub.nodup nodup_toolDetailTextKeys, ne_eq, not_false_eq_true, and_self, guard_true,
    Option.bind_eq_bind, Option.bind_some, Option.pure_def]

theorem decodeInlineToolTextReference_setField {key : Str} (h : "content" ≠ key)
    (v value : Json F) (message : FileEntry F) :
    decodeInlineToolTextReference T (setField key v message) value = decodeInlineToolTextReference T message value := by
  simp only [decodeInlineToolTextReference, toolResultContentText_setField h]

omit [RowHost F T] in
/-- The message with some details replaced. -/
abbrev withDetails (encoded details message : FileEntry F) : FileEntry F :=
  setField "details" (.object (putAll encoded details)) message

/-- The message with the replaced details is read back as it was. -/
theorem outMessage_encoded [LawfulRowHost F T]
    (hcount : Countable message) (hdetails : field "details" message = some (.object details)) :
    outMessage T (withDetails (encodedDetails T message details) details message)
      ((encodedDetails T message details).map Prod.fst) = message := by
  have hnodup := nodup_names_encodedDetails T message details
  have hdecode : ∀ e ∈ encodedDetails T message details, ∃ value, field e.1 details = some (.string value) ∧
        decodeInlineToolTextReference T message e.2 = some value :=
    fun _ he => decode_of_mem_encodedDetails hcount he
  generalize encodedDetails T message details = encoded at hnodup hdecode ⊢
  have hsource : detailsOf (withDetails encoded details message) = some (putAll encoded details) := by
    rw [detailsOf, field, withDetails, setField, first_put, if_pos rfl]
    rfl
  have hdecoded : ∀ e ∈ encoded, ∃ value, field e.1 details = some (.string value) ∧
      decodedDetail T (withDetails encoded details message)
        (putAll encoded details) e.1 = some value := by
    intro e he
    obtain ⟨value, hvalue, href⟩ := hdecode e he
    refine ⟨value, hvalue, ?_⟩
    rw [decodedDetail, decodeInlineToolTextReference_setField (by decide), field,
      first_putAll_of_mem hnodup he, Option.getD_some, href]
  have hfailed : ((encoded.map Prod.fst).filter fun key =>
      (decodedDetail T (withDetails encoded details message) (putAll encoded details) key).isNone) = [] := by
    refine filter_eq_nil_iff.2 fun key hkey => ?_
    obtain ⟨e, he, rfl⟩ := mem_map.1 hkey
    obtain ⟨value, -, hvalue⟩ := hdecoded e he
    rw [hvalue]
    exact Bool.false_ne_true
  have hrestored : putAll (encoded.map fun e => (e.1, Json.string
      ((decodedDetail T (withDetails encoded details message)
        (putAll encoded details) e.1).getD (invalidReferenceText e.1))))
      (putAll encoded details) = details := by
    refine putAll_putAll hnodup (v := fun key => .string ((decodedDetail T _ _ key).getD
      (invalidReferenceText key))) fun e he => ?_
    obtain ⟨value, hfield, hvalue⟩ := hdecoded e he
    rw [hvalue]
    exact hfield
  simp only [outMessage, hsource, Option.getD_some, hfailed, if_true, map_map,
    Function.comp_def, hrestored, setField, put_put]
  exact put_of_first hdetails

omit [RowHost F T] in
theorem field_candidateEntry {key : Str} (hmessage : key ≠ "message")
    (hkey : key ≠ inlineToolTextEncodingKey) (entry message details encoded : FileEntry F) :
    field key (candidateEntry entry message details encoded) = field key entry := by
  rw [candidateEntry, field, setField, first_put, if_neg hmessage, setField, first_put, if_neg hkey]

/-- What is read for a row with references. -/
theorem rehydrateSessionFileEntry_candidateEntry {encoded : FileEntry F}
    (hkey : field inlineToolTextEncodingKey entry = none)
    (htype : entryType entry = "message") (hrole : messageRole entry = "toolResult")
    (hmessage : field "message" entry = some (.object message)) (hne : encoded ≠ [])
    (hsub : (encoded.map Prod.fst).Sublist toolDetailTextKeys) :
    rehydrateSessionFileEntry T (candidateEntry entry message details encoded) =
      setField "message" (.object (outMessage T (withDetails encoded details message) (encoded.map Prod.fst))) entry := by
  have hmessage' : messageOf (candidateEntry entry message details encoded) =
      some (withDetails encoded details message) := by
    rw [messageOf, candidateEntry, field, setField, first_put, if_pos rfl]
    rfl
  have htype' : entryType (candidateEntry entry message details encoded) = "message" := by
    rw [← htype, entryType, entryType, fieldStr, fieldStr, field_candidateEntry (by decide) (by decide)]
  have hrole' : messageRole (candidateEntry entry message details encoded) = "toolResult" := by
    rw [← hrole, messageRole, messageRole, hmessage', messageOf, hmessage]
    simp only [Option.bind_some, Json.asObject, fieldStr, field, first_put]
    rw [if_neg (by decide)]
  rw [rehydrateSessionFileEntry, encodedInlineToolTextFields_candidateEntry hne hsub]
  simp only [htype', hrole', hmessage', ne_eq, not_true_eq_false, or_self, if_false]
  rw [candidateEntry, setField, setField, filter_put_of_ne (by decide), setField, filter_put_self hkey, put_put]

/-- **A row with references is read back as it was.** -/
theorem rehydrate_candidate [LawfulRowHost F T] (hkey : field inlineToolTextEncodingKey entry = none)
    (htype : entryType entry = "message") (hrole : messageRole entry = "toolResult")
    (hmessage : field "message" entry = some (.object message))
    (hdetails : field "details" message = some (.object details))
    (hcount : Countable message) (hne : encodedDetails T message details ≠ []) :
    rehydrateSessionFileEntry T (candidateEntry entry message details (encodedDetails T message details)) = entry := by
  rw [rehydrateSessionFileEntry_candidateEntry hkey htype hrole hmessage hne
    (names_encodedDetails_sublist T message details), outMessage_encoded hcount hdetails]
  exact put_of_first hmessage

/-- A detail that cannot be read back makes the message an error. -/
theorem field_isError_outMessage {encodedFields : List Str} {key : Str} (hkey : key ∈ encodedFields)
    (hfailed : decodedDetail T message ((detailsOf message).getD []) key = none) :
    field "isError" (outMessage T message encodedFields) = some (.bool true) := by
  have hne : (encodedFields.filter fun key =>
      (decodedDetail T message ((detailsOf message).getD []) key).isNone) ≠ [] :=
    ne_nil_of_mem (mem_filter.2 ⟨hkey, by rw [hfailed]; rfl⟩)
  simp only [outMessage, if_neg hne, field, setField, first_put, if_true]

theorem rehydrateSessionFileEntry_of_none (h : field inlineToolTextEncodingKey entry = none) :
    rehydrateSessionFileEntry T entry = entry := by
  have hfields : encodedInlineToolTextFields entry = none := by
    rw [encodedInlineToolTextFields, h]
    rfl
  rw [rehydrateSessionFileEntry, hfields]

/-- A row that was read back has no references. -/
theorem rehydrateSessionFileEntry_cases (entry : FileEntry F) : rehydrateSessionFileEntry T entry = entry ∨
      field inlineToolTextEncodingKey (rehydrateSessionFileEntry T entry) = none := by
  rw [rehydrateSessionFileEntry]
  split
  · exact .inl rfl
  · split_ifs
    · exact .inl rfl
    · split
      · exact .inl rfl
      · refine .inr ?_
        rw [field, setField, first_put, if_neg (by decide)]
        exact first_eq_none_iff.2 fun e he => by simpa using (mem_filter.1 he).2

theorem rehydrateSessionFileEntry_idem (entry : FileEntry F) :
    rehydrateSessionFileEntry T (rehydrateSessionFileEntry T entry) = rehydrateSessionFileEntry T entry := by
  rcases rehydrateSessionFileEntry_cases (T := T) entry with hsame | hnone
  · rw [hsame, hsame]
  · exact rehydrateSessionFileEntry_of_none hnone

/-! ### The row that is written -/

variable (T) in
/-- A row is written as it is, or with references where that is shorter. -/
theorem serializeSessionFileEntry_cases (entry : FileEntry F) :
    serializeSessionFileEntry T entry = RowHost.jsonStringify (.object entry) ∨
      ∃ message details, entryType entry = "message" ∧
        messageRole entry = "toolResult" ∧ field "message" entry = some (.object message) ∧
        field "details" message = some (.object details) ∧ encodedDetails T message details ≠ [] ∧
        serializeSessionFileEntry T entry = RowHost.jsonStringify (.object
          (candidateEntry entry message details (encodedDetails T message details))) ∧
        RowHost.len (serializeSessionFileEntry T entry) < RowHost.len (RowHost.jsonStringify (.object entry) : T) := by
  by_cases hkind : entryType entry ≠ "message" ∨ messageRole entry ≠ "toolResult"
  · exact .inl (by rw [serializeSessionFileEntry, if_pos hkind])
  cases hmessage : messageOf entry with
  | none => exact .inl (by simp only [serializeSessionFileEntry, if_neg hkind, hmessage])
  | some message =>
    cases hdetails : detailsOf message with
    | none => exact .inl (by simp only [serializeSessionFileEntry, if_neg hkind, hmessage, hdetails])
    | some details =>
      simp only [serializeSessionFileEntry, if_neg hkind, hmessage, hdetails]
      split_ifs with hempty hshort
      · exact .inl rfl
      · push Not at hkind
        exact .inr ⟨message, details, hkind.1, hkind.2, Json.asObject_bind_eq_some.1 hmessage,
          Json.asObject_bind_eq_some.1 hdetails, hempty, rfl, hshort⟩
      · exact .inl rfl

/-! ### Rows are well formed -/

section

omit [RowHost F T]

theorem wellFormed_reference (i start length : ℕ) (sha : Str) : (reference (F := F) i start length sha).WellFormed := by
  have hkeys : ((referenceFields (F := F) i start length sha).map Prod.fst).Nodup :=
    show (["version", "source", "contentIndex", "start", "length", "sha256"].map String.toList).Nodup by decide
  simp only [reference, Json.wellFormed_object_iff, forall_mem_singleton, hkeys, map_singleton]
  simp [referenceFields]

theorem wellFormed_envelope (encoded : FileEntry F) : (Json.object (envelope encoded)).WellFormed := by
  have hnames : (Json.array (encoded.map fun e => Json.string (F := F) e.1)).WellFormed := by
    refine .array fun v hv => ?_
    obtain ⟨x, -, rfl⟩ := mem_map.1 hv
    exact .string _
  refine .object (show (["version", "kind", "fields"].map String.toList).Nodup by decide) ?_
  simp [envelope, hnames]

theorem wellFormed_putAll {changes fields : FileEntry F} (h : (Json.object fields).WellFormed)
    (hchanges : ∀ e ∈ changes, e.2.WellFormed) :
    (Json.object (putAll changes fields)).WellFormed := by
  induction changes generalizing fields with
  | nil => exact h
  | cons e changes ih =>
    rw [forall_mem_cons] at hchanges
    exact ih (h.put e.1 hchanges.1) hchanges.2

end

theorem wellFormed_of_mem_encodedDetails
    (he : e ∈ encodedDetails T message details) : e.2.WellFormed := by
  obtain ⟨value, i, text, before, -, -, -, -, href⟩ := of_mem_encodedDetails he
  rw [href]
  exact wellFormed_reference ..

theorem wellFormed_candidateEntry (hwf : (Json.object entry).WellFormed)
    (hmessage : field "message" entry = some (.object message))
    (hdetails : field "details" message = some (.object details)) :
    (Json.object (candidateEntry entry message details (encodedDetails T message details))).WellFormed := by
  have hmessage' := hwf.of_first hmessage
  have hdetails' : (Json.object (putAll (encodedDetails T message details) details)).WellFormed :=
    wellFormed_putAll (hmessage'.of_first hdetails) fun _ he => wellFormed_of_mem_encodedDetails he
  exact (hwf.put _ (wellFormed_envelope _)).put _ (hmessage'.put _ hdetails')

end

/-! ### Rows without floating-point numbers -/

mutual

/-- The number of characters of a value whose texts need no escapes. -/
def textLen : Json Empty → ℕ
  | .null => 4
  | .bool b => if b then 4 else 5
  | .number _ => 20
  | .string s => s.length + 2
  | .array items => itemsLen items + 1
  | .object fields => fieldsLen fields + 1

def itemsLen : List (Json Empty) → ℕ
  | [] => 1
  | v :: items => textLen v + 1 + itemsLen items

def fieldsLen : List (Str × Json Empty) → ℕ
  | [] => 1
  | (k, v) :: fields => k.length + 3 + textLen v + 1 + fieldsLen fields

end

/-- The output of a tool, and its SHA-256 digest. -/
def output : Str := replicate 1000 'y'

def outputHash : Str := "7e33ae3f1e88ddf3291109cc366b12dcd8bf8fe77bec53009f200a76e4649c07"

/-- The output is the only text that is hashed. -/
instance rowHost : RowHost Empty (Json Empty) where
  jsonStringify := id
  fromStr := some
  len := textLen
  sha256Text _ := outputHash
  whole x := x.elim

instance lawfulRowHost : LawfulRowHost Empty (Json Empty) where
  fromStr_jsonStringify _ _ := rfl
  length_sha256Text _ := rfl
  isLowerHex_sha256Text _ := rfl

/-- A tool result that has the output after some other text. -/
def farDetails : FileEntry Empty := [("stdout", .string output)]

def farMessage (n : ℕ) : FileEntry Empty :=
  [("role", .string "toolResult"), ("content", .string (replicate n 'x' ++ output)), ("details", .object farDetails)]

def farEntry (n : ℕ) : FileEntry Empty := [("type", .string "message"), ("message", .object (farMessage n))]

theorem wellFormed_farEntry (n : ℕ) : (Json.object (farEntry n)).WellFormed := by
  have hdetails : (Json.object farDetails).WellFormed :=
    .object (nodup_singleton _) (forall_mem_singleton.2 (.string _))
  have hmessage : (Json.object (farMessage n)).WellFormed := by
    refine .object (show (["role", "content", "details"].map String.toList).Nodup by decide) ?_
    simp [farMessage, hdetails]
  refine .object (show (["type", "message"].map String.toList).Nodup by decide) ?_
  simp [farEntry, hmessage]

theorem textBefore_output (n : ℕ) : textBefore output (replicate n 'x' ++ output) = some (replicate n 'x') := by
  have houtput : output = 'y' :: replicate 999 'y' := rfl
  induction n with
  | zero =>
    rw [replicate_zero, nil_append]
    nth_rewrite 2 [houtput]
    rw [textBefore, if_pos (by rw [← houtput])]
  | succ n ih =>
    rw [replicate_succ, cons_append, textBefore, if_neg, ih]
    · rfl
    · intro hpre
      rw [houtput, cons_prefix_cons] at hpre
      exact absurd hpre.1 (by decide)

/-- The reference to the output after `n` other characters. -/
def farReference (n : ℕ) : Json Empty := reference 0 n 1000 outputHash

def farEncoded (n : ℕ) : FileEntry Empty := [("stdout", farReference n)]

theorem referenceAt_farMessage (n : ℕ) : referenceAt (Json Empty) (farMessage n) output 0 = some (farReference n) := by
  have hx : (Utf16.encode (replicate n 'x')).length = n := by
    rw [Utf16.length_encode_replicate]
    exact Nat.mul_one n
  have hy : (Utf16.encode output).length = 1000 := by
    rw [output, Utf16.length_encode_replicate]
    rfl
  have hshort : textLen (farReference n) < textLen (.string output) := by
    have href : textLen (farReference n) = 243 := rfl
    rw [href, textLen, output, length_replicate]
    decide
  have htext : toolResultContentText (farMessage n) 0 = some (replicate n 'x' ++ output) := rfl
  rw [referenceAt, htext, Option.bind_some, textBefore_output, Option.bind_some, hx, hy]
  exact if_pos hshort

theorem encodedDetails_farMessage (n : ℕ) : encodedDetails (Json Empty) (farMessage n) farDetails = farEncoded n := by
  have hinline : inlineToolTextReference (Json Empty) (farMessage n) output = some (farReference n) := by
    have hcount : range (contentCount (farMessage n)) = [0] := rfl
    rw [inlineToolTextReference, if_neg (by decide), hcount, findSome?_cons, referenceAt_farMessage]
  have hstdout : fieldStr "stdout" farDetails = some output := rfl
  have hstderr : fieldStr "stderr" farDetails = none := rfl
  have hresult : fieldStr "result" farDetails = none := rfl
  have hbackground : fieldStr "backgroundOutput" farDetails = none := rfl
  simp only [encodedDetails, toolDetailTextKeys, filterMap_cons, filterMap_nil, hstdout,
    hstderr, hresult, hbackground, Option.bind_some, Option.bind_none, Option.map_none, hinline,
    Option.map_some, farEncoded]

theorem candidateEntry_shorter (n : ℕ) :
    textLen (.object (candidateEntry (farEntry n) (farMessage n) farDetails (farEncoded n))) <
      textLen (.object (farEntry n)) := by
  have hcandidate : candidateEntry (farEntry n) (farMessage n) farDetails (farEncoded n) =
      ([("type", .string "message"), ("message", .object [("role", .string "toolResult"),
        ("content", .string (replicate n 'x' ++ output)),
        ("details", .object (farEncoded n))]),
        (inlineToolTextEncodingKey, .object (envelope (farEncoded n)))] : FileEntry Empty) := rfl
  have henvelope : textLen (.object (envelope (farEncoded n))) = 80 := rfl
  have hencoded : textLen (.object (farEncoded n)) = 255 := rfl
  have hdetails : 1000 ≤ textLen (.object farDetails) := by
    rw [farDetails, textLen, fieldsLen, textLen, output, length_replicate]
    omega
  have hkey : inlineToolTextEncodingKey.length = 21 := rfl
  rw [hcandidate, farEntry, farMessage]
  simp only [textLen, fieldsLen] at henvelope hencoded hdetails ⊢
  omega

theorem serialize_farEntry (n : ℕ) :
    serializeSessionFileEntry (Json Empty) (farEntry n) = .object (candidateEntry (farEntry n)
      (farMessage n) farDetails (farEncoded n)) := by
  have htype : entryType (farEntry n) = "message" := rfl
  have hrole : messageRole (farEntry n) = "toolResult" := rfl
  have hmessage : messageOf (farEntry n) = some (farMessage n) := rfl
  have hdetails : detailsOf (farMessage n) = some farDetails := rfl
  have hne : farEncoded n ≠ [] := cons_ne_nil _ _
  simp only [serializeSessionFileEntry, htype, hrole, hmessage, hdetails, encodedDetails_farMessage,
    ne_eq, not_true_eq_false, or_self, if_false, hne]
  exact if_pos (candidateEntry_shorter n)

/-- A place beyond the safe integers is not read. -/
theorem decode_farReference {n : ℕ} (hn : 2 ^ 53 ≤ n) (message : FileEntry Empty) :
    decodeInlineToolTextReference (Json Empty) message (farReference n) = none := by
  have hobject : ((farReference n).asObject.bind (field inlineToolTextReferenceKey)).bind
      Json.asObject = some (referenceFields 0 n 1000 outputHash) := rfl
  have hindex : place (Json Empty) "contentIndex" (referenceFields 0 n 1000 outputHash) =
      some 0 := place_int rfl (by decide)
  have hstart : place (Json Empty) "start" (referenceFields 0 n 1000 outputHash) = none := by
    have hunsafe : ¬ |(n : ℤ)| ≤ maxSafeInteger := by
      rw [abs_of_nonneg (Int.natCast_nonneg n), maxSafeInteger]
      omega
    have hfield : field "start" (referenceFields (F := Empty) 0 n 1000 outputHash) =
        some (.number (.int n)) := rfl
    rw [place, hfield, Option.bind_some, isNonnegativeSafeInteger, isSafeInteger, if_neg hunsafe]
    rfl
  rw [decodeInlineToolTextReference, hobject]
  simp only [Option.bind_eq_bind, Option.bind_some, hindex, hstart, Option.bind_none, Option.bind_fun_none]

theorem rehydrate_farEntry {n : ℕ} (hn : 2 ^ 53 ≤ n) :
    rehydrateSessionFileEntry (Json Empty) (candidateEntry (farEntry n) (farMessage n) farDetails
      (farEncoded n)) ≠ farEntry n := by
  intro heq
  have hne : farEncoded n ≠ [] := cons_ne_nil _ _
  have hsub : ((farEncoded n).map Prod.fst).Sublist toolDetailTextKeys :=
    show [("stdout" : Str)].Sublist toolDetailTextKeys by decide
  rw [rehydrateSessionFileEntry_candidateEntry rfl rfl rfl rfl hne hsub] at heq
  have hmessage := congrArg (field "message") heq
  rw [field, setField, first_put, if_pos rfl] at hmessage
  have hout : outMessage (Json Empty) (withDetails (farEncoded n) farDetails (farMessage n))
      ((farEncoded n).map Prod.fst) = farMessage n := by
    injection hmessage with hobject
    injection hobject
  have herror : field "isError" (outMessage (Json Empty) (withDetails (farEncoded n) farDetails (farMessage n))
      ((farEncoded n).map Prod.fst)) = some (.bool true) :=
    field_isError_outMessage (mem_singleton_self _) (decode_farReference hn _)
  have hnone : field "isError" (farMessage n) = none := rfl
  rw [hout, hnone] at herror
  exact Option.some_ne_none _ herror.symm

theorem countable_farMessage {n : ℕ} (hn : n < 2 ^ 52) : Countable (farMessage n) := by
  refine ⟨show 1 ≤ 2 ^ 53 by decide, fun i text htext => ?_⟩
  have hcontent : toolResultContentText (farMessage n) i =
      if i = 0 then some (replicate n 'x' ++ output) else none := rfl
  rw [hcontent, Option.ite_none_right_eq_some] at htext
  cases htext.2
  rw [Utf16.encode_append, length_append, output, Utf16.length_encode_replicate,
    Utf16.length_encode_replicate, show (Utf16.units 'x').length = 1 from rfl,
    show (Utf16.units 'y').length = 1 from rfl]
  omega

/-! ### Rows are lossless -/

/-- **A row is read back as it was, and is never longer than its plain text.** -/
theorem row_lossless {F T : Type} [RowHost F T] [LawfulRowHost F T] :
    (∀ entry : FileEntry F, (Json.object entry).WellFormed → field inlineToolTextEncodingKey entry = none →
      (∀ message, messageOf entry = some message → Countable message) →
      ((RowHost.fromStr (serializeSessionFileEntry T entry)).bind Json.asObject).map
        (rehydrateSessionFileEntry T) = some entry) ∧
    (∀ entry : FileEntry F, RowHost.len (serializeSessionFileEntry T entry) ≤
      RowHost.len (RowHost.jsonStringify (.object entry) : T)) ∧
    ∀ entry : FileEntry F, rehydrateSessionFileEntry T (rehydrateSessionFileEntry T entry) =
      rehydrateSessionFileEntry T entry := by
  refine ⟨fun entry hwf hkey hcount => ?_, fun entry => ?_, rehydrateSessionFileEntry_idem⟩
  · rcases serializeSessionFileEntry_cases T entry with
      hplain | ⟨message, details, htype, hrole, hmessage, hdetails, hne, hrow, -⟩
    · rw [hplain, LawfulRowHost.fromStr_jsonStringify _ hwf]
      exact congrArg some (rehydrateSessionFileEntry_of_none hkey)
    · have hmessageOf : messageOf entry = some message := by
        rw [messageOf, hmessage]
        rfl
      rw [hrow, LawfulRowHost.fromStr_jsonStringify]
      · exact congrArg some (rehydrate_candidate hkey htype hrole hmessage hdetails
          (hcount message hmessageOf) hne)
      · exact wellFormed_candidateEntry hwf hmessage hdetails
  · rcases serializeSessionFileEntry_cases T entry with hplain | ⟨_, _, _, _, _, _, _, _, hlt⟩
    · rw [hplain]
    · exact hlt.le

theorem row_lossless_near :
    ((RowHost.fromStr (serializeSessionFileEntry (Json Empty) (farEntry 3))).bind Json.asObject).map
        (rehydrateSessionFileEntry (Json Empty)) = some (farEntry 3) ∧
      serializeSessionFileEntry (Json Empty) (farEntry 3) ≠ .object (farEntry 3) := by
  refine ⟨row_lossless.1 (farEntry 3) (wellFormed_farEntry 3) rfl fun message hmessage => ?_, ?_⟩
  · cases hmessage
    exact countable_farMessage (by decide)
  · rw [serialize_farEntry]
    intro heq
    have hlt := candidateEntry_shorter 3
    rw [heq] at hlt
    exact lt_irrefl _ hlt

/-- The output stands after more characters than a safe integer counts. -/
theorem row_beyond_safe_integers : ∃ entry : FileEntry Empty, (Json.object entry).WellFormed ∧
    field inlineToolTextEncodingKey entry = none ∧
    ((RowHost.fromStr (serializeSessionFileEntry (Json Empty) entry)).bind Json.asObject).map
      (rehydrateSessionFileEntry (Json Empty)) ≠ some entry := by
  refine ⟨farEntry (2 ^ 53), wellFormed_farEntry _, rfl, ?_⟩
  rw [serialize_farEntry]
  intro heq
  exact rehydrate_farEntry le_rfl (Option.some.inj heq)

end RowCodec
