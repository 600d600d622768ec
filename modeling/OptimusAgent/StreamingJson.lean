/-
**Streamed tool arguments.**

The arguments of a tool call arrive in pieces.  `StreamingJsonAccumulator` of `utils/json_parse.rs`
collects them and parses the text so far: after every piece while the text is short, and when it has
grown by a sixteenth once it is long.  A flush parses what has not been parsed.  The parser is a
parameter.
-/

import OptimusAgent.Text
import OptimusAgent.Utf16

namespace JsonParse

open List

/-- The text so far, with lengths in UTF-16 units. -/
structure StreamingJsonAccumulator where
  text : Str
  lenUtf16 : ℕ
  parsedLength : ℕ

namespace StreamingJsonAccumulator

def default : StreamingJsonAccumulator := ⟨[], 0, 0⟩

variable {V : Type} (parseStreamingJson : Str → V)

def parse (acc : StreamingJsonAccumulator) : V × StreamingJsonAccumulator :=
  (parseStreamingJson acc.text, { acc with parsedLength := acc.lenUtf16 })

/-- The accumulator with one more piece of the text. -/
def pushStr (acc : StreamingJsonAccumulator) (delta : Str) : StreamingJsonAccumulator :=
  { acc with text := acc.text ++ delta, lenUtf16 := acc.lenUtf16 + (Utf16.encode delta).length }

/-- A long text that has grown by less than a sixteenth, rounded up, since it was parsed. -/
def defers (acc : StreamingJsonAccumulator) : Bool :=
  8 * 1024 < acc.lenUtf16 && acc.lenUtf16 - acc.parsedLength < (acc.parsedLength + 15) / 16

def append (acc : StreamingJsonAccumulator) (delta : Str) : Option V × StreamingJsonAccumulator :=
  let acc := acc.pushStr delta
  if acc.defers then (none, acc) else ((acc.parse parseStreamingJson).map some id)

def flush (acc : StreamingJsonAccumulator) : Option V × StreamingJsonAccumulator :=
  if acc.parsedLength ≠ acc.lenUtf16 then (acc.parse parseStreamingJson).map some id else (none, acc)

end StreamingJsonAccumulator

open StreamingJsonAccumulator

section

variable {V : Type} (parseStreamingJson : Str → V)

/-- The call returns a value if it parses the text; the value and the length are noted. -/
def note (parses : List (V × ℕ)) (returned : Option V × StreamingJsonAccumulator) :
    StreamingJsonAccumulator × List (V × ℕ) :=
  (returned.2, parses ++ returned.1.toList.map fun value => (value, returned.2.lenUtf16))

def appendStep (s : StreamingJsonAccumulator × List (V × ℕ)) (delta : Str) : StreamingJsonAccumulator × List (V × ℕ) :=
  note s.2 (s.1.append parseStreamingJson delta)

/-- The parses for deltas that are appended to a fresh accumulator, and a flush. -/
def parses (deltas : List Str) : List (V × ℕ) :=
  let s := deltas.foldl (appendStep parseStreamingJson) (.default, [])
  (note s.2 (s.1.flush parseStreamingJson)).2

/-- The sum of the lengths of the long texts. -/
def longWork (parses : List (V × ℕ)) : ℕ := ((parses.map Prod.snd).filter (8 * 1024 < ·)).sum

variable {parseStreamingJson} {acc : StreamingJsonAccumulator} {ps : List (V × ℕ)} {text : Str}

theorem longWork_concat (p : V × ℕ) : longWork (ps ++ [p]) = longWork ps + if 8 * 1024 < p.2 then p.2 else 0 := by
  rw [longWork, longWork, map_append, filter_append, sum_append, map_singleton, filter_singleton]
  by_cases hlong : 8 * 1024 < p.2 <;> simp [hlong]

/-- What is known of an accumulator with a text that has been parsed, at least in part. -/
structure Sound (parseStreamingJson : Str → V) (text : Str) (s : StreamingJsonAccumulator × List (V × ℕ)) :
    Prop where
  text_eq : s.1.text = text
  units : s.1.lenUtf16 = (Utf16.encode text).length
  parsed_le : s.1.parsedLength ≤ s.1.lenUtf16
  last : s.1.parsedLength = s.1.lenUtf16 → (s.2.map Prod.fst).getLast? = some (parseStreamingJson text)
  work : longWork s.2 ≤ 17 * s.1.parsedLength
  short : s.1.parsedLength ≤ 8 * 1024 → longWork s.2 = 0

/-- A parse pays sixteen parts for the work so far, and one for itself. -/
theorem sound_parse (hunits : acc.lenUtf16 = (Utf16.encode acc.text).length)
    (hwork : longWork ps ≤ 16 * acc.lenUtf16) (hshort : acc.lenUtf16 ≤ 8 * 1024 → longWork ps = 0) :
    Sound parseStreamingJson acc.text (note ps ((acc.parse parseStreamingJson).map some id)) := by
  have hnote : note ps ((acc.parse parseStreamingJson).map some id) =
      ({ acc with parsedLength := acc.lenUtf16 }, ps ++ [(parseStreamingJson acc.text, acc.lenUtf16)]) := rfl
  rw [hnote]
  refine ⟨rfl, hunits, le_rfl, fun _ => by simp, ?_, fun hle => ?_⟩
  · rw [longWork_concat]
    dsimp only
    split_ifs <;> omega
  · rw [longWork_concat, hshort hle, Nat.zero_add]
    exact if_neg (not_lt.2 hle)

variable {s : StreamingJsonAccumulator × List (V × ℕ)}

/-- **One delta**: the text is parsed, or it is long and has not grown by a sixteenth. -/
theorem Sound.appendStep (h : Sound parseStreamingJson text s)
    (delta : Str) : Sound parseStreamingJson (text ++ delta) (appendStep parseStreamingJson s delta) := by
  obtain ⟨acc, ps⟩ := s
  obtain ⟨rfl, hunits, hle, hlast, hwork, hshort⟩ := h
  dsimp only at hunits hle hlast hwork hshort
  have hlength : (acc.pushStr delta).lenUtf16 = acc.lenUtf16 + (Utf16.encode delta).length := rfl
  have hparsed : (acc.pushStr delta).parsedLength = acc.parsedLength := rfl
  have hunits' : (acc.pushStr delta).lenUtf16 = (Utf16.encode (acc.text ++ delta)).length := by
    rw [hlength, Utf16.encode_append, length_append, hunits]
  rw [JsonParse.appendStep, append]
  dsimp only
  split_ifs with hdefers
  · simp only [note, Option.toList_none, map_nil, append_nil]
    refine ⟨rfl, hunits', hle.trans (Nat.le_add_right _ _), fun heq => ?_, hwork, hshort⟩
    rw [hlength, hparsed] at heq
    -- nothing was appended since the last parse
    have hdelta : Utf16.encode delta = [] := length_eq_zero_iff.1 (by omega)
    rw [← Utf16.decodeLossy_encode delta, hdelta, Utf16.decodeLossy, append_nil]
    exact hlast (by omega)
  · refine sound_parse hunits' ?_ fun hsmall => hshort (by omega)
    simp only [defers, Bool.and_eq_true, decide_eq_true_eq, not_and, not_lt] at hdefers
    by_cases hlong : 8 * 1024 < (acc.pushStr delta).lenUtf16
    · have hgrown := hdefers hlong
      omega
    · have hzero := hshort (by omega)
      omega

/-- **All deltas.** -/
theorem Sound.foldl (h : Sound parseStreamingJson text s)
    (deltas : List Str) : Sound parseStreamingJson (text ++ deltas.flatten)
      (deltas.foldl (JsonParse.appendStep parseStreamingJson) s) := by
  induction deltas generalizing text s with
  | nil => rwa [flatten_nil, append_nil]
  | cons delta deltas ih =>
    rw [flatten_cons, ← append_assoc]
    exact ih (h.appendStep delta)

/-- **The last value is the one of the whole text, and the work on long texts is linear.** -/
theorem streaming_complete_linear (parseStreamingJson : Str → V) (deltas : List Str) :
    ((parses parseStreamingJson deltas).map Prod.fst).getLast? =
        (if deltas = [] then none else some (parseStreamingJson deltas.flatten)) ∧
      longWork (parses parseStreamingJson deltas) ≤ 18 * (Utf16.encode deltas.flatten).length := by
  cases deltas with
  | nil => exact ⟨rfl, Nat.zero_le _⟩
  | cons delta deltas =>
    -- the first delta is parsed, however long it is
    have hfirst : Sound parseStreamingJson delta (appendStep parseStreamingJson (.default, []) delta) := by
      have hparse : (default.pushStr delta).defers = false := by
        simp [defers, pushStr, StreamingJsonAccumulator.default]
      have hunits : (default.pushStr delta).lenUtf16 = (Utf16.encode (default.pushStr delta).text).length :=
        Nat.zero_add _
      rw [appendStep, append]
      dsimp only
      rw [hparse, if_neg Bool.false_ne_true]
      exact sound_parse hunits (Nat.zero_le _) fun _ => rfl
    have hsound := hfirst.foldl deltas
    rw [if_neg (cons_ne_nil _ _), flatten_cons, parses, foldl_cons]
    generalize deltas.foldl _ _ = s at hsound
    have hle := hsound.parsed_le
    have hwork := hsound.work
    rw [← hsound.units, flush]
    split_ifs with hparsed
    · simp only [note, parse, Prod.map_apply, Option.toList_some, map_singleton, hsound.text_eq, id]
      refine ⟨by simp, ?_⟩
      rw [longWork_concat]
      dsimp only
      split_ifs <;> omega
    · simp only [note, Option.toList_none, map_nil, append_nil]
      exact ⟨hsound.last (not_not.1 hparsed), by omega⟩

end

end JsonParse
