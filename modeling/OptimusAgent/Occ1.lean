/-
**OCC-1: the line grammar of compact structured English.**

OCC-1 is the deterministic `KEY=VALUE` encoding behind the inter-agent messages: a header line
`OCC/1` and one line per field, with bounds on the number of fields, on keys, on values and on the
whole text.  The encoder and the decoder are two independent functions of the source
(`core/occ/occ1.rs`); this module embeds both.
-/

import OptimusAgent.Text
import OptimusAgent.Checked
import OptimusAgent.Keyed

namespace Occ

open Str Checked List

/-! ### Constants -/

/-- The required first line of every OCC-1 message. -/
def occ1Header : Str := "OCC/1"

/-- The maximum number of fields in one message. -/
def occ1MaxFields : ℕ := 128

/-- The maximum length of a field key in bytes. -/
def occ1MaxKeyBytes : ℕ := 32

/-- The maximum length of a field value in bytes. -/
def occ1MaxValueBytes : ℕ := 4096

/-- The maximum encoded size of one message in bytes. -/
def occ1MaxMessageBytes : ℕ := 64 * 1024

/-- The message kinds of the typed contract. -/
def knownKinds : List Str :=
  ["TASK", "PROGRESS", "RESULT", "EVIDENCE", "REQUEST_DETAIL", "ACK", "CORRECTION", "BLOCKED", "CANCELLED"]

/-- The task statuses of the typed contract. -/
def knownStatuses : List Str := ["pending", "in_progress", "done", "partial", "blocked", "failed", "cancelled"]

/-- Whether `kind` is one of the known message kinds. -/
def isKnownKind (kind : Str) : Bool := knownKinds.contains kind

/-- Whether `status` is one of the known task statuses. -/
def isKnownStatus (status : Str) : Bool := knownStatuses.contains status

/-- A failure of the codec.  Line numbers are 1-based and line 1 is the header; the encoder reports
line 0. -/
inductive Occ1Error where
  | empty
  | badHeader (first header : Str)
  | missingSeparator (line : ℕ)
  | invalidKey (line : ℕ) (key : Str)
  | controlChar (line : ℕ) (key : Str)
  | blankLine (line : ℕ)
  | tooLarge (limit : ℕ)
  | tooManyFields (limit : ℕ)
  | valueTooLarge (key : Str) (limit : ℕ)
  | keyTooLarge (key : Str) (limit : ℕ)
  deriving DecidableEq, Repr

/-! ### Messages -/

/-- An OCC-1 message: its fields in insertion order.  Repeated keys are legal. -/
structure Occ1Message where
  /-- The key and value of each field. -/
  fields : List (Str × Str)
  deriving DecidableEq, Repr

namespace Occ1Message

/-- The first value stored under a key. -/
def get (m : Occ1Message) (key : Str) : Option Str := (m.fields.find? fun kv => kv.1 = key).map Prod.snd

/-- Every value stored under a key, in insertion order. -/
def getAll (m : Occ1Message) (key : Str) : List Str := (m.fields.filter fun kv => kv.1 = key).map Prod.snd

/-- Whether some field has the key. -/
def has (m : Occ1Message) (key : Str) : Bool := m.fields.any fun kv => kv.1 = key

theorem get_eq_first (m : Occ1Message) (key : Str) : m.get key = Keyed.first key m.fields := rfl

theorem getAll_eq_all (m : Occ1Message) (key : Str) : m.getAll key = Keyed.all key m.fields := rfl

theorem has_iff {m : Occ1Message} {key : Str} : m.has key = true ↔ ∃ v, m.get key = some v := by
  rw [← Option.isSome_iff_exists, get_eq_first, ← Option.not_isNone, Bool.not_eq_true',
    Option.isNone_eq_false_iff, ← not_iff_not, Bool.not_eq_true, Option.not_isSome_iff_eq_none,
    Keyed.first_eq_none_iff]
  simp [has]

/-- The key grammar `[A-Z][A-Z0-9_]*` and the bound on keys. -/
def validateKey (key : Str) : Except Occ1Error Unit := do
  rejectIf (key = []) (.invalidKey 0 key)
  rejectIf (occ1MaxKeyBytes < byteLen key) (.keyTooLarge key occ1MaxKeyBytes)
  rejectIf (¬ (key.head?.map Char.isUpper).getD false = true) (.invalidKey 0 key)
  rejectIf (¬ key.tail.all (fun b => b.isUpper || b.isDigit || b == '_') = true) (.invalidKey 0 key)

/-- One field line appended to the output of the encoder. -/
def encodeField (out : Str) (kv : Str × Str) : Except Occ1Error Str := do
  validateKey kv.1
  rejectIf (occ1MaxValueBytes < byteLen kv.2) (.valueTooLarge kv.1 occ1MaxValueBytes)
  rejectIf (hasControl kv.2 = true) (.controlChar 0 kv.1)
  pure (out ++ '\n' :: (kv.1 ++ '=' :: kv.2))

/-- The wire text of a message. -/
def encode (m : Occ1Message) : Except Occ1Error Str := do
  rejectIf (occ1MaxFields < m.fields.length) (.tooManyFields occ1MaxFields)
  let out ← m.fields.foldlM encodeField occ1Header
  rejectIf (occ1MaxMessageBytes < byteLen out) (.tooLarge occ1MaxMessageBytes)
  pure out

/-- The error of the key check, at the line it was found on. -/
def atLine (line : ℕ) : Occ1Error → Occ1Error
  | .invalidKey _ key => .invalidKey line key
  | other => other

/-- One field line read by the decoder. -/
def decodeLine (lineNo : ℕ) (fields : List (Str × Str)) (rawLine : Str) :
    Except Occ1Error (List (Str × Str)) := do
  let line := chopSuffix '\r' rawLine
  rejectIf (line = []) (.blankLine lineNo)
  let kv ← okOr (splitOnce '=' line) (.missingSeparator lineNo)
  rejectIf (kv.1 = []) (.invalidKey lineNo kv.1)
  (validateKey kv.1).mapError (atLine lineNo)
  rejectIf (hasControl kv.2 = true) (.controlChar lineNo kv.1)
  rejectIf (occ1MaxValueBytes < byteLen kv.2) (.valueTooLarge kv.1 occ1MaxValueBytes)
  rejectIf (occ1MaxFields ≤ fields.length) (.tooManyFields occ1MaxFields)
  pure (fields ++ [kv])

/-- The field lines, read one after the other from line `lineNo` on. -/
def decodeLines : ℕ → List (Str × Str) → List Str → Except Occ1Error (List (Str × Str))
  | _, fields, [] => .ok fields
  | lineNo, fields, raw :: rest => do
      let fields ← decodeLine lineNo fields raw
      decodeLines (lineNo + 1) fields rest

/-- The message of a wire text. -/
def decode (text : Str) : Except Occ1Error Occ1Message := do
  rejectIf (text = []) .empty
  rejectIf (occ1MaxMessageBytes < byteLen text) (.tooLarge occ1MaxMessageBytes)
  match (chopSuffix '\n' text).splitOn '\n' with
  | [] => .error .empty
  | first :: rest => do
      let header := chopSuffix '\r' first
      rejectIf (header ≠ occ1Header) (.badHeader header occ1Header)
      let fields ← decodeLines 2 [] rest
      pure ⟨fields⟩

end Occ1Message

/-! ### The grammar -/

/-- The keys of the grammar: `[A-Z][A-Z0-9_]*`, at most 32 bytes long. -/
structure IsKey (key : Str) : Prop where
  /-- An upper-case letter, then upper-case letters, digits and underscores. -/
  shape : ∃ c rest, key = c :: rest ∧ c.isUpper = true ∧ ∀ x ∈ rest, x.isUpper = true ∨ x.isDigit = true ∨ x = '_'
  /-- The bound on keys. -/
  bound : byteLen key ≤ 32

/-- The values of the grammar: no control character, at most 4096 bytes. -/
structure IsValue (value : Str) : Prop where
  /-- No control character. -/
  clean : hasControl value = false
  /-- The bound on values. -/
  bound : byteLen value ≤ 4096

/-- The line that carries a field. -/
def fieldLine (kv : Str × Str) : Str := kv.1 ++ '=' :: kv.2

/-- The grammar of OCC-1 on the lines of a text: the header line, then at most 128 lines
`KEY=VALUE`. -/
structure Occ1Grammar (lines : List Str) (fields : List (Str × Str)) : Prop where
  /-- The header, then one line per field. -/
  lines_eq : lines = ("OCC/1" : Str) :: fields.map fieldLine
  /-- The bound on the number of fields. -/
  count : fields.length ≤ 128
  /-- Every key is in the grammar of keys. -/
  key : ∀ kv ∈ fields, IsKey kv.1
  /-- Every value is in the grammar of values. -/
  value : ∀ kv ∈ fields, IsValue kv.2

/-! ### Keys and lines -/

theorem IsKey.ne_nil {key : Str} (h : IsKey key) : key ≠ [] := by
  obtain ⟨c, rest, rfl, -⟩ := h.shape
  simp

/-- A character that is no upper-case letter, digit or underscore does not occur in a key. -/
theorem IsKey.notMem {key : Str} (h : IsKey key) {c : Char} (hu : c.isUpper = false)
    (hd : c.isDigit = false) (hc : c ≠ '_') : c ∉ key := by
  obtain ⟨c₀, rest, rfl, h₀, hrest⟩ := h.shape
  intro hmem
  rcases mem_cons.1 hmem with rfl | hmem
  · rw [hu] at h₀
    exact Bool.false_ne_true h₀
  · rcases hrest c hmem with h' | h' | h'
    · rw [hu] at h'; exact Bool.false_ne_true h'
    · rw [hd] at h'; exact Bool.false_ne_true h'
    · exact hc h'

theorem IsValue.notMem {value : Str} (h : IsValue value) {c : Char} (hc : isControl c = true) : c ∉ value :=
  notMem_of_hasControl_false h.clean hc

/-- A field line contains no control character that is not in the key. -/
theorem notMem_fieldLine {kv : Str × Str} (hk : IsKey kv.1) (hv : IsValue kv.2) {c : Char}
    (hc : isControl c = true) (hu : c.isUpper = false) (hd : c.isDigit = false)
    (hne : c ≠ '_') (heq : c ≠ '=') : c ∉ fieldLine kv := by
  simp only [fieldLine, mem_append, mem_cons, not_or]
  exact ⟨hk.notMem hu hd hne, heq, hv.notMem hc⟩

namespace Occ1Message

theorem validateKey_eq_ok_iff {key : Str} {u : Unit} : validateKey key = .ok u ↔ IsKey key := by
  simp only [validateKey, rejectIf_bind_eq_ok, rejectIf_eq_ok, not_not, not_lt]
  constructor
  · rintro ⟨hne, hb, hhead, htail⟩
    obtain ⟨c, rest, rfl⟩ := exists_cons_of_ne_nil hne
    refine ⟨⟨c, rest, rfl, by simpa using hhead, ?_⟩, hb⟩
    intro x hx
    have := all_eq_true.1 htail x (by simpa using hx)
    simpa [or_assoc] using this
  · rintro ⟨⟨c, rest, rfl, hc, hrest⟩, hb⟩
    refine ⟨by simp, hb, by simpa using hc, all_eq_true.2 ?_⟩
    intro x hx
    simpa [or_assoc] using hrest x hx

theorem encodeField_eq_ok_iff {out r : Str} {kv : Str × Str} : encodeField out kv = .ok r ↔
      IsKey kv.1 ∧ IsValue kv.2 ∧ r = out ++ '\n' :: fieldLine kv := by
  simp only [encodeField, bind_eq_ok, rejectIf_eq_ok, exists_const, validateKey_eq_ok_iff, not_lt,
    Bool.not_eq_true, pure_eq_ok, Except.ok.injEq, fieldLine]
  constructor
  · rintro ⟨hk, hlen, hctl, rfl⟩
    exact ⟨hk, ⟨hctl, hlen⟩, rfl⟩
  · rintro ⟨hk, hv, rfl⟩
    exact ⟨hk, hv.bound, hv.clean, rfl⟩

/-- The loop of the encoder appends the lines of its fields. -/
theorem foldlM_encodeField_eq_ok_iff {fields : List (Str × Str)} {out r : Str} :
    fields.foldlM encodeField out = .ok r ↔ (∀ kv ∈ fields, IsKey kv.1) ∧ (∀ kv ∈ fields, IsValue kv.2) ∧
        r = out ++ fields.flatMap fun kv => '\n' :: fieldLine kv := by
  induction fields generalizing out with
  | nil => simp [eq_comm]
  | cons kv fields ih =>
    rw [foldlM_cons, bind_eq_ok]
    constructor
    · rintro ⟨out', h, hrest⟩
      obtain ⟨hk, hv, rfl⟩ := encodeField_eq_ok_iff.1 h
      obtain ⟨hks, hvs, rfl⟩ := ih.1 hrest
      refine ⟨forall_mem_cons.2 ⟨hk, hks⟩, forall_mem_cons.2 ⟨hv, hvs⟩, ?_⟩
      simp
    · rintro ⟨hk, hv, rfl⟩
      rw [forall_mem_cons] at hk hv
      refine ⟨_, encodeField_eq_ok_iff.2 ⟨hk.1, hv.1, rfl⟩, ih.2 ⟨hk.2, hv.2, ?_⟩⟩
      simp

variable {m : Occ1Message}

/-- What the encoder accepts, and what it writes. -/
theorem encode_eq_ok_iff {t : Str} : m.encode = .ok t ↔
      Occ1Grammar (("OCC/1" : Str) :: m.fields.map fieldLine) m.fields ∧
        t = unlines ("OCC/1" :: m.fields.map fieldLine) ∧ byteLen t ≤ 64 * 1024 := by
  simp only [encode, bind_eq_ok, rejectIf_eq_ok, exists_const, not_lt,
    foldlM_encodeField_eq_ok_iff, pure_eq_ok, Except.ok.injEq]
  rw [unlines_cons, flatMap_map]
  constructor
  · rintro ⟨hcount, out, ⟨hk, hv, rfl⟩, hlen, rfl⟩
    exact ⟨⟨rfl, hcount, hk, hv⟩, rfl, hlen⟩
  · rintro ⟨hg, rfl, hlen⟩
    exact ⟨hg.count, _, ⟨hg.key, hg.value, rfl⟩, hlen, rfl⟩

theorem decodeLine_eq_ok_iff {n : ℕ} {acc r : List (Str × Str)} {raw : Str} : decodeLine n acc raw = .ok r ↔
      ∃ kv, chopSuffix '\r' raw = fieldLine kv ∧ IsKey kv.1 ∧ IsValue kv.2 ∧ acc.length < 128 ∧ r = acc ++ [kv] := by
  simp only [decodeLine, bind_eq_ok, rejectIf_eq_ok, exists_const, okOr_eq_ok, mapError_eq_ok,
    validateKey_eq_ok_iff, not_lt, not_le, Bool.not_eq_true, pure_eq_ok, Except.ok.injEq]
  constructor
  · rintro ⟨-, kv, hsplit, -, hk, hctl, hlen, hcount, rfl⟩
    exact ⟨kv, (splitOnce_eq_some_iff.1 hsplit).1, hk, ⟨hctl, hlen⟩, hcount, rfl⟩
  · rintro ⟨kv, hline, hk, hv, hcount, rfl⟩
    have heq : '=' ∉ kv.1 := hk.notMem (by decide) (by decide) (by decide)
    refine ⟨by simp [hline, fieldLine], kv, ?_, hk.ne_nil, hk, hv.clean, hv.bound, hcount, rfl⟩
    rw [hline]
    exact splitOnce_append kv.2 heq

/-- What the loop of the decoder accepts: as many lines as fit, each of them a field line. -/
theorem decodeLines_eq_ok_iff {lines : List Str} {n : ℕ} {acc r : List (Str × Str)}
    (hacc : acc.length ≤ 128) :
    decodeLines n acc lines = .ok r ↔ ∃ fields, lines.map (chopSuffix '\r') = fields.map fieldLine ∧
        (∀ kv ∈ fields, IsKey kv.1) ∧ (∀ kv ∈ fields, IsValue kv.2) ∧
        acc.length + fields.length ≤ 128 ∧ r = acc ++ fields := by
  induction lines generalizing n acc with
  | nil => simp [decodeLines, hacc, eq_comm]
  | cons raw lines ih =>
    rw [decodeLines, bind_eq_ok]
    constructor
    · rintro ⟨acc', h, hrest⟩
      obtain ⟨kv, hline, hk, hv, hcount, rfl⟩ := decodeLine_eq_ok_iff.1 h
      obtain ⟨fields, hlines, hks, hvs, hlen, rfl⟩ := (ih (by simp; omega)).1 hrest
      refine ⟨kv :: fields, by simp [hline, hlines], forall_mem_cons.2 ⟨hk, hks⟩,
        forall_mem_cons.2 ⟨hv, hvs⟩, ?_, by simp⟩
      simp only [length_append, length_cons, length_nil] at hlen ⊢
      omega
    · rintro ⟨fields, hlines, hk, hv, hlen, rfl⟩
      cases fields with
      | nil => simp at hlines
      | cons kv fields =>
        simp only [map_cons, cons.injEq] at hlines
        rw [forall_mem_cons] at hk hv
        simp only [length_cons] at hlen
        refine ⟨acc ++ [kv], decodeLine_eq_ok_iff.2 ⟨kv, hlines.1, hk.1, hv.1, by omega, rfl⟩, ?_⟩
        refine (ih (by simp; omega)).2 ⟨fields, hlines.2, hk.2, hv.2, ?_, by simp⟩
        simp only [length_append, length_cons, length_nil]
        omega

/-- What the decoder accepts, and what it returns. -/
theorem decode_eq_ok_iff {t : Str} : decode t = .ok m ↔ byteLen t ≤ 64 * 1024 ∧ Occ1Grammar (readLines t) m.fields := by
  obtain ⟨first, rest, hsplit⟩ := exists_cons_of_ne_nil (splitOn_ne_nil '\n' (chopSuffix '\n' t))
  have hlines : readLines t = chopSuffix '\r' first :: rest.map (chopSuffix '\r') := by
    rw [readLines, hsplit, map_cons]
  have hempty : ([] : List (Str × Str)).length ≤ 128 := Nat.zero_le _
  simp only [decode, hsplit, bind_eq_ok, rejectIf_eq_ok, exists_const, not_lt, not_not,
    decodeLines_eq_ok_iff hempty, pure_eq_ok, Except.ok.injEq]
  constructor
  · rintro ⟨-, hlen, hheader, fields, ⟨fs, hfs, hk, hv, hcount, rfl⟩, rfl⟩
    refine ⟨hlen, ⟨?_, by simpa using hcount, by simpa using hk, by simpa using hv⟩⟩
    rw [hlines, hheader, hfs]
    rfl
  · rintro ⟨hlen, hg⟩
    have hl := hg.lines_eq
    rw [hlines, cons.injEq] at hl
    refine ⟨?_, hlen, hl.1, m.fields, ⟨m.fields, hl.2, hg.key, hg.value, by simpa using hg.count, by simp⟩, rfl⟩
    rintro rfl
    -- the empty text has one empty line, which is not the header
    have hnil : readLines [] = [[]] := rfl
    rw [hg.lines_eq] at hnil
    simp at hnil

/-! ### Exactness -/

/-- Reading the lines of an encoded message gives the grammar's lines back. -/
theorem readLines_unlines_fields {fields : List (Str × Str)}
    (h : Occ1Grammar (("OCC/1" : Str) :: fields.map fieldLine) fields) :
    readLines (unlines ("OCC/1" :: fields.map fieldLine)) = ("OCC/1" : Str) :: fields.map fieldLine := by
  have hfree : ∀ c, isControl c = true → c.isUpper = false → c.isDigit = false → c ≠ '_' →
      c ≠ '=' → c ∉ ("OCC/1" : Str) →
      ∀ l ∈ (("OCC/1" : Str) :: fields.map fieldLine), c ∉ l := by
    intro c hc hu hd hne heq hhead l hl
    rcases mem_cons.1 hl with rfl | hl
    · exact hhead
    · obtain ⟨kv, hkv, rfl⟩ := mem_map.1 hl
      exact notMem_fieldLine (h.key kv hkv) (h.value kv hkv) hc hu hd hne heq
  refine readLines_unlines (by simp) ?_ ?_ ?_
  · exact hfree '\n' (by decide) (by decide) (by decide) (by decide) (by decide) (by decide)
  · exact hfree '\r' (by decide) (by decide) (by decide) (by decide) (by decide) (by decide)
  · rcases eq_nil_or_concat fields with rfl | ⟨init, kv, rfl⟩
    · simp
    · simp [fieldLine, getLast?_cons]

/-- What the encoder writes is decoded to the same fields. -/
theorem decode_of_encode {t : Str} (h : m.encode = .ok t) : decode t = .ok m := by
  obtain ⟨hg, rfl, hlen⟩ := encode_eq_ok_iff.1 h
  refine decode_eq_ok_iff.2 ⟨hlen, ?_⟩
  rw [readLines_unlines_fields hg]
  exact hg

/-- The OCC-1 grammar is exact.  Encoding then decoding is the identity; a text is accepted
exactly when it is short enough and its normal form — one final newline and one carriage return
per line removed — is in the grammar; and that normal form is what the encoder writes. -/
theorem occ1_grammar_exact : (∀ (m : Occ1Message) (t : Str), m.encode = .ok t → decode t = .ok m) ∧
      (∀ (t : Str) (m : Occ1Message),
        decode t = .ok m ↔ byteLen t ≤ 64 * 1024 ∧ Occ1Grammar (readLines t) m.fields) ∧
      (∀ (t : Str) (m : Occ1Message), decode t = .ok m → m.encode = .ok (unlines (readLines t))) := by
  refine ⟨fun m t => decode_of_encode, fun t m => decode_eq_ok_iff, ?_⟩
  intro t m h
  obtain ⟨hlen, hg⟩ := decode_eq_ok_iff.1 h
  have hlines := hg.lines_eq
  rw [hlines] at hg ⊢
  refine encode_eq_ok_iff.2 ⟨hg, rfl, ?_⟩
  rw [← hlines]
  exact (byteLen_le_of_sublist (unlines_readLines_sublist t)).trans hlen

end Occ1Message

end Occ
