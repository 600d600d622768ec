/-
**Dual payloads.**

A dual payload carries a message twice: the symbolic section, a sentinel line, and a complete OCC-1
text.  The decoder cuts the payload at the sentinel, decodes both sections and compares the results.
The section that it cuts off still ends in the newline before the sentinel, so its size bound is met
one byte earlier than that of the encoder.
-/

import OptimusAgent.Occ2RoundTrip
import OptimusAgent.ContractRead

namespace Occ

open Str Checked List AgentCommMessage

namespace Occ2

variable {R : Type} [F32 R] {m m' : AgentCommMessage R}

/-! ### The size of the symbolic section -/

/-- The size of a field line with the newline before it: key, operator and value. -/
def fieldSize (card : DialectCard) (e : WireKey × Str) : ℕ := 2 + byteLen ((Symbols.ofCard card).key e.1) + byteLen e.2

/-- The size of the symbolic section of a message. -/
def symbolicSize (card : DialectCard) (m : AgentCommMessage R) : ℕ :=
  byteLen (headerLine card) + ((symbolicFields card m).map (fieldSize card)).sum

variable {card : DialectCard}

theorem byteLen_symbolicText [Host] (hcard : card.Valid) : byteLen (symbolicText card m) = symbolicSize card m := by
  have hoperator : card.grammar.operator.utf8Size = 1 := by
    have husable := hcard.operator
    simp only [usableSeparator, Bool.and_eq_true, decide_eq_true_eq] at husable
    have hascii : card.grammar.operator.toNat ≤ 126 := husable.1.1.2
    exact utf8Size_of_lt (by omega)
  have hnewline : Char.utf8Size '\n' = 1 := by decide
  have hline : ∀ e, byteLen ('\n' :: fieldLine card e) = fieldSize card e := by
    intro e
    rw [fieldLine, byteLen_cons, byteLen_append, byteLen_cons, hoperator, hnewline, fieldSize]
    omega
  rw [symbolicText, unlines_cons, byteLen_append, flatMap_map, byteLen_flatMap, symbolicSize]
  simp only [hline]

/-! ### The sections of a payload -/

/-- A dual payload. -/
def dualText (symbolic occ1 : Str) : Str := symbolic ++ '\n' :: (occ2FallbackSentinel ++ '\n' :: occ1)

/-- The dual encoder writes the symbolic text and the OCC-1 text, within the common bound. -/
theorem encodeDual_eq_ok_iff [Host] {t : Str} : encodeDual m card = .ok t ↔ Writable card m ∧ ∃ occ1,
      (⟨m.fields⟩ : Occ1Message).encode = .ok occ1 ∧ byteLen (dualText (symbolicText card m) occ1) ≤ 131072 ∧
        t = dualText (symbolicText card m) occ1 := by
  have hmax : occ2MaxMessageBytes = 131072 := rfl
  have hsize : ∀ occ1, byteLen (symbolicText card m ++ '\n' :: (occ2FallbackSentinel ++ ['\n'])) +
      byteLen occ1 = byteLen (dualText (symbolicText card m) occ1) := by
    intro occ1
    simp only [dualText, byteLen_append, byteLen_cons, show byteLen [] = 0 from rfl]
    omega
  simp only [encodeDual, bind_eq_ok, mapError_eq_ok, rejectIf_eq_ok, exists_const, pure_eq_ok,
    Except.ok.injEq, encodeSymbolic_eq_ok_iff, toOcc1_eq_ok_iff, not_lt]
  constructor
  · rintro ⟨symbolic, ⟨h, hsymbolic⟩, w, ⟨-, rfl⟩, occ1, hocc1, hbound, ht⟩
    rw [hsymbolic, hsize, hmax] at hbound
    refine ⟨h, occ1, hocc1, hbound, ?_⟩
    rw [← ht, hsymbolic, dualText]
    simp only [append_assoc, cons_append, nil_append]
  · rintro ⟨h, occ1, hocc1, hbound, ht⟩
    refine ⟨_, ⟨h, rfl⟩, _, ⟨h.validMessage, rfl⟩, occ1, hocc1, ?_, ?_⟩
    · rw [hsize, hmax]
      exact hbound
    · rw [ht, dualText]
      simp only [append_assoc, cons_append, nil_append]

/-- The decoder cuts a payload at the sentinel line.  The newline before it stays with the symbolic
section. -/
theorem splitFallback_dualText [Host] [LawfulHost] (h : Writable card m) (occ1 : Str) :
    splitFallback (dualText (symbolicText card m) occ1) = some (symbolicText card m ++ ['\n'], occ1) := by
  have hsentinel : '\n' ∉ occ2FallbackSentinel := by decide
  have htext : dualText (symbolicText card m) occ1 =
      unlines (symbolicLines card m ++ occ2FallbackSentinel :: occ1.splitOn '\n') := by
    obtain ⟨l, ls, hocc1⟩ := exists_cons_of_ne_nil (splitOn_ne_nil '\n' occ1)
    rw [unlines_append (by simp [symbolicLines]) (by simp), hocc1, unlines_cons_cons, ← hocc1,
      unlines_splitOn, dualText]
    rfl
  have hlines : (dualText (symbolicText card m) occ1).splitOn '\n' =
      symbolicLines card m ++ occ2FallbackSentinel :: occ1.splitOn '\n' := by
    rw [htext]
    refine splitOn_unlines (by simp) ?_
    intro l hl
    rcases mem_append.1 hl with hl | hl
    · exact notMem_of_mem_symbolicLines h hl (by decide)
    · rcases mem_cons.1 hl with rfl | hl
      · exact hsentinel
      · exact notMem_of_mem_splitOn hl
  have hbefore : ∀ l ∈ symbolicLines card m, (!isSentinel l) = true := by
    intro l hl
    rw [isSentinel_of_mem_symbolicLines h hl]
    rfl
  have hat : (!isSentinel occ2FallbackSentinel) = false := by decide
  have hclosed : ∀ (l : Str) (ls : List Str), (l :: ls).flatMap (fun line => line ++ ['\n']) =
      unlines (l :: ls) ++ ['\n'] := by
    intro l ls
    induction ls generalizing l with
    | nil => simp
    | cons l' ls ih => rw [flatMap_cons, ih, unlines_cons_cons]; simp
  have hdrop : (symbolicLines card m ++ occ2FallbackSentinel :: occ1.splitOn '\n').dropWhile
      (fun line => !isSentinel line) = occ2FallbackSentinel :: occ1.splitOn '\n' := by
    rw [dropWhile_append_of_pos hbefore, dropWhile_cons_of_neg (by rw [hat]; simp)]
  have htake : (symbolicLines card m ++ occ2FallbackSentinel :: occ1.splitOn '\n').takeWhile
      (fun line => !isSentinel line) = symbolicLines card m := by
    rw [takeWhile_append_of_pos hbefore, takeWhile_cons_of_neg (by rw [hat]; simp), append_nil]
  have hsymbolic : (symbolicLines card m).flatMap (fun line => line ++ ['\n']) =
      symbolicText card m ++ ['\n'] := hclosed _ _
  simp only [splitFallback, hlines, hdrop, htake, hsymbolic, unlines_splitOn]

/-- A message with numbers for confidences is equal to itself. -/
theorem eq_self [LawfulF32 R] (hc : ExactConfidences m) : m.eq m = true := by
  have hfinding : ∀ f ∈ m.findings, f.eq f = true := by
    intro f hf
    cases hfc : f.confidence with
    | none => simp [Finding.eq, hfc]
    | some c => simp [Finding.eq, hfc, LawfulF32.eq_self c (hc f hf c hfc)]
  have hfindings : ∀ l : List (Finding R), (∀ f ∈ l, f.eq f = true) → l.isEqv l Finding.eq = true := by
    intro l hl
    induction l with
    | nil => rfl
    | cons f l ih =>
      rw [forall_mem_cons] at hl
      simp [isEqv, hl.1, ih hl.2]
  simp [eq, hfindings m.findings hfinding]

/-! ### Reading a payload back -/

section

variable [Host] [LawfulF32 R] {card : DialectCard}

/-- The OCC-1 section of a payload is read back. -/
theorem fromOcc1_fields_self (hv : m.Valid) (hfits : Fits m) (hp : Positional m)
    (hc : ExactConfidences m) : fromOcc1 ⟨m.fields⟩ = .ok m := by
  rw [fromOcc1_fields hv hfits, wireImage_iff_eq occ1Split_map_evidenceId hv hfits hp hc]
  exact ⟨rfl, hv⟩

variable [LawfulHost]

/-- The conservative decoder reads the OCC-1 section. -/
theorem occ1Fallback_dualText (h : Writable card m) (hp : Positional m) (hc : ExactConfidences m)
    {occ1 : Str} (hocc1 : (⟨m.fields⟩ : Occ1Message).encode = .ok occ1) :
    occ1Fallback (dualText (symbolicText card m) occ1) = .ok m := by
  simp only [occ1Fallback, splitFallback_dualText h, Occ1Message.decode_of_encode hocc1, Except.mapError, ok_bind]
  exact fromOcc1_fields_self h.validMessage (fits_of_length h.count) hp hc

/-- The strict decoder reads the symbolic section with the newline before the sentinel, and compares
the result with that of the OCC-1 section. -/
theorem decode_dualText (h : Writable card m) (hp : Positional m) (hc : ExactConfidences m)
    (registry : DialectRegistry) {occ1 : Str}
    (hocc1 : (⟨m.fields⟩ : Occ1Message).encode = .ok occ1)
    (hbound : byteLen (dualText (symbolicText card m) occ1) ≤ 131072) :
    decode (dualText (symbolicText card m) occ1) registry = (do
      let message ← decodeSymbolic (symbolicText card m ++ ['\n']) registry
      rejectIf (¬ m.eq message = true) .dualMismatch
      pure message) := by
  have hne : dualText (symbolicText card m) occ1 ≠ [] := by simp [dualText]
  have hlarge : ¬ occ2MaxMessageBytes < byteLen (dualText (symbolicText card m) occ1) := not_lt.2 hbound
  have hself := fromOcc1_fields_self h.validMessage (fits_of_length h.count) hp hc
  simp only [decode, rejectIf_of_not hne, rejectIf_of_not hlarge, ok_bind,
    splitFallback_dualText h, Occ1Message.decode_of_encode hocc1, hself, Except.mapError]

omit [LawfulF32 R] [LawfulHost] in
/-- The size check of the symbolic decoder counts the newline. -/
theorem decodeSymbolic_of_full {registry : DialectRegistry} (hcard : card.Valid) (hfull : symbolicSize card m = 65536) :
    (decodeSymbolic (symbolicText card m ++ ['\n']) registry :
      Except (Occ2Error R) (AgentCommMessage R)) = .error (.tooLarge 65536) := by
  have hsize : occ2MaxSymbolicBytes < byteLen (symbolicText card m ++ ['\n']) := by
    rw [byteLen_append, byteLen_symbolicText hcard, hfull]
    decide
  have hne : symbolicText card m ++ ['\n'] ≠ [] := by simp
  rw [decodeSymbolic, rejectIf_of_not hne, ok_bind, rejectIf, if_pos hsize]
  rfl

/-- Below the bound the newline does no harm. -/
theorem decodeSymbolic_of_not_full (h : Writable card m) (hp : Positional m)
    (hc : ExactConfidences m) {registry : DialectRegistry}
    (hreg : registry.get card.dialectId card.version = some card)
    (hfull : symbolicSize card m ≠ 65536) :
    decodeSymbolic (symbolicText card m ++ ['\n']) registry = .ok m := by
  have hbound := h.size
  have hsize : byteLen (symbolicText card m ++ ['\n']) ≤ 65536 := by
    rw [byteLen_symbolicText h.validCard] at hbound
    rw [byteLen_append, byteLen_symbolicText h.validCard]
    show symbolicSize card m + 1 ≤ 65536
    omega
  rw [decodeSymbolic_symbolicText h hreg (chopSuffix_append_self _ _) hsize,
    wireImage_iff_eq (fun _ => rfl) h.validMessage (fits_of_length h.count) hp hc]
  exact ⟨rfl, h.validMessage⟩

/-- **Round trip of the dual encoding.**  Of the positional messages with exact confidences, the
conservative decoder reads every payload back; the strict decoder does so unless the symbolic
section has exactly the size that the encoder still admits. -/
theorem dual_roundTrip_iff {registry : DialectRegistry} {t : Str}
    (hreg : registry.get card.dialectId card.version = some card) (hp : Positional m)
    (hc : ExactConfidences m) (ht : encodeDual m card = .ok t) :
    (decode t registry = .ok m ∧ occ1Fallback t = .ok m) ↔ symbolicSize card m ≠ 65536 := by
  obtain ⟨h, occ1, hocc1, hbound, ht⟩ := encodeDual_eq_ok_iff.1 ht
  rw [ht, and_iff_left (occ1Fallback_dualText h hp hc hocc1), decode_dualText h hp hc registry hocc1 hbound]
  constructor
  · intro hok hfull
    rw [decodeSymbolic_of_full h.validCard hfull] at hok
    exact absurd hok (by simp [bind, Except.bind])
  · intro hfull
    rw [decodeSymbolic_of_not_full h hp hc hreg hfull, ok_bind, rejectIf_of_not (by simp [eq_self hc])]
    rfl

end

section

open Sample

/-- The default dialect in its tenth version. -/
def symV10 : DialectCard := { DialectCard.symV1 with version := 10 }

theorem symV10_valid : symV10.Valid :=
  { DialectCard.symV1_valid with
    version := by
      show (10 : U32) ≠ 0
      decide }

/-- The sizes of the statements of `fullMessage`. -/
def statementSize (i : ℕ) : ℕ := if i < 15 then 4096 else 3972

/-- A message whose symbolic section has exactly the maximum size. -/
def fullMessage : AgentCommMessage Tenths :=
  { (new "RESULT" "t1" "done" : AgentCommMessage Tenths) with
    findings := (range 16).map fun i => ⟨findingId (i + 1), replicate (statementSize i) 'a', none, []⟩ }

/-- The statement of finding `i` as a field. -/
def statementField (i : ℕ) : WireKey × Str := ((.findingStatement, some (i + 1)), replicate (statementSize i) 'a')

/-- The fields of `fullMessage`, in every format. -/
theorem wireFields_fullMessage (fmt : WireFormat) : fullMessage.wireFields fmt =
      (wireField (.taskId, none) (some "t1") ++ wireField (.kind, none) (some "RESULT") ++
        wireField (.status, none) (some "done")) ++ (range 16).map statementField := by
  rfl

theorem isValue_fullMessage {fmt : WireFormat} {e : WireKey × Str}
    (he : e ∈ fullMessage.wireFields fmt) : IsValue e.2 := by
  have hletter : isControl 'a' = false := by decide
  have hstatement : ∀ i, IsValue (replicate (statementSize i) 'a') := by
    intro i
    constructor
    · simp [hasControl, hletter]
    · have hsize : Char.utf8Size 'a' = 1 := by decide
      rw [byteLen_replicate, hsize, statementSize]
      split <;> omega
  rw [wireFields_fullMessage, mem_append] at he
  rcases he with he | he
  · have hshort : ∀ e ∈ wireField (.taskId, none) (some "t1") ++
        wireField (.kind, none) (some "RESULT") ++ wireField (.status, none) (some "done"),
          hasControl e.2 = false ∧ byteLen e.2 ≤ 4096 := by
      decide
    exact ⟨(hshort e he).1, (hshort e he).2⟩
  · obtain ⟨i, -, rfl⟩ := mem_map.1 he
    exact hstatement i

theorem symbolicSize_fullMessage : symbolicSize symV10 fullMessage = 65536 := by
  have hkey : ∀ i ∈ range 16, fieldSize symV10 (statementField i) = (if i < 9 then 4 else 5) + statementSize i := by
    have h : ∀ i ∈ range 16, 2 + byteLen ((Symbols.ofCard symV10).key
        (.findingStatement, some (i + 1))) = if i < 9 then 4 else 5 := by
      decide
    have hsize : Char.utf8Size 'a' = 1 := by decide
    intro i hi
    rw [fieldSize, statementField, h i hi, byteLen_replicate, hsize, Nat.mul_one]
  rw [symbolicSize, symbolicFields, wireFields_fullMessage, map_append, map_map,
    sum_append, Function.comp_def, map_congr_left hkey]
  decide

theorem writable_fullMessage : Writable symV10 fullMessage where
  validCard := symV10_valid
  validMessage := validate_eq_ok_iff.1 (by decide : fullMessage.validate = .ok ())
  references f hf := by
    obtain ⟨i, -, rfl⟩ := mem_map.1 hf
    simp
  values e he := isValue_fullMessage he
  count := by
    rw [symbolicFields, wireFields_fullMessage]
    decide
  size := by rw [byteLen_symbolicText symV10_valid, symbolicSize_fullMessage]

/-- The OCC-1 text of the message is shorter than its symbolic section. -/
theorem encode_fullMessage : ∃ occ1, (⟨fullMessage.fields⟩ : Occ1Message).encode = .ok occ1 ∧ byteLen occ1 = 65520 := by
  have hfields : fullMessage.fields = (reqField "TASK" "t1" ++ reqField "KIND" "RESULT" ++ reqField "STATUS" "done") ++
        (range 16).map fun i => occ1Field (statementField i) := by
    rfl
  have hsize : byteLen (unlines ("OCC/1" :: fullMessage.fields.map Occ.fieldLine)) = 65520 := by
    have hline : ∀ i ∈ range 16, byteLen ('\n' :: Occ.fieldLine (occ1Field (statementField i))) =
          (if i < 9 then 4 else 5) + statementSize i := by
      have h : ∀ i ∈ range 16, 2 + byteLen (occ1Key (.findingStatement, some (i + 1))) =
          if i < 9 then 4 else 5 := by
        decide
      have ha : Char.utf8Size 'a' = 1 := by decide
      have hn : Char.utf8Size '\n' = 1 := by decide
      have he : Char.utf8Size '=' = 1 := by decide
      intro i hi
      have hvalue : byteLen (statementField i).2 = statementSize i := by
        rw [statementField, byteLen_replicate, ha, Nat.mul_one]
      rw [← h i hi, Occ.fieldLine, byteLen_cons, byteLen_append, byteLen_cons, hn, he]
      show 1 + (byteLen (occ1Key (.findingStatement, some (i + 1))) + (1 + byteLen (statementField i).2)) = _
      rw [hvalue]
      omega
    rw [unlines_cons, byteLen_append, flatMap_map, byteLen_flatMap, hfields, map_append,
      map_map, sum_append, Function.comp_def, map_congr_left hline]
    decide
  have hgrammar : Occ1Grammar ("OCC/1" :: fullMessage.fields.map Occ.fieldLine)
      fullMessage.fields := by
    refine ⟨rfl, by rw [hfields]; decide, fun kv hkv => ?_, fun kv hkv => ?_⟩
    · have hkeys : ∀ key ∈ fullMessage.fields.map Prod.fst, Occ1Message.validateKey key = .ok () := by
        rw [hfields]
        decide
      exact Occ1Message.validateKey_eq_ok_iff.1 (hkeys _ (mem_map_of_mem hkv))
    · rw [fields_eq_wireFields] at hkv
      obtain ⟨e, he, rfl⟩ := mem_map.1 hkv
      exact isValue_fullMessage he
  refine ⟨_, Occ1Message.encode_eq_ok_iff.2 ⟨hgrammar, rfl, ?_⟩, hsize⟩
  rw [hsize]
  omega

theorem positional_fullMessage : Positional fullMessage where
  findings i f h := by
    simp only [fullMessage, getElem?_map, Option.map_eq_some_iff] at h
    obtain ⟨j, hj, rfl⟩ := h
    obtain ⟨hlt, hget⟩ := List.getElem?_eq_some_iff.1 hj
    rw [getElem_range] at hget
    rw [hget]
  evidence i e h := absurd h (by simp [fullMessage, new])

/-- The symbolic section of this message fills the bound exactly: the dual encoder accepts it, and
the strict decoder refuses the payload because it counts one byte more. -/
theorem fullMessage_not_decoded : Positional fullMessage ∧ ExactConfidences fullMessage ∧
      ∃ registry t, DialectRegistry.new.insert symV10 = .ok registry ∧ encodeDual fullMessage symV10 = .ok t ∧
        (decode t registry : Except (Occ2Error Tenths) (AgentCommMessage Tenths)) = .error (.tooLarge 65536) := by
  have hexact : ExactConfidences fullMessage := fun _ _ _ _ => trivial
  obtain ⟨registry, hinsert, -⟩ := DialectRegistry.new.exists_insert symV10_valid rfl
  obtain ⟨occ1, hocc1, hlen⟩ := encode_fullMessage
  have hbound : byteLen (dualText (symbolicText symV10 fullMessage) occ1) ≤ 131072 := by
    have hsentinel : byteLen occ2FallbackSentinel = 14 := by decide
    have hn : Char.utf8Size '\n' = 1 := by decide
    rw [dualText, byteLen_append, byteLen_cons, byteLen_append, byteLen_cons, hsentinel, hn, hlen,
      byteLen_symbolicText symV10_valid, symbolicSize_fullMessage]
  refine ⟨positional_fullMessage, hexact, registry, _, hinsert,
    encodeDual_eq_ok_iff.2 ⟨writable_fullMessage, occ1, hocc1, hbound, rfl⟩, ?_⟩
  rw [decode_dualText writable_fullMessage positional_fullMessage hexact registry hocc1 hbound,
    decodeSymbolic_of_full symV10_valid symbolicSize_fullMessage]
  rfl

theorem dual_roundTrip_iff_reviewMessage :
    ∃ registry t, DialectRegistry.new.insert DialectCard.symV1 = .ok registry ∧
      encodeDual reviewMessage DialectCard.symV1 = .ok t ∧
      symbolicSize DialectCard.symV1 reviewMessage ≠ 65536 ∧
      decode t registry = .ok reviewMessage ∧ occ1Fallback t = .ok reviewMessage := by
  obtain ⟨registry, hinsert, hget⟩ := DialectRegistry.new.exists_insert DialectCard.symV1_valid rfl
  have hsize : symbolicSize DialectCard.symV1 reviewMessage ≤ 1000 := by decide
  have hocc1 : (⟨reviewMessage.fields⟩ : Occ1Message).encode =
      .ok (unlines ("OCC/1" :: reviewMessage.fields.map Occ.fieldLine)) := by
    decide +kernel
  have hbound : byteLen (dualText (symbolicText DialectCard.symV1 reviewMessage)
      (unlines ("OCC/1" :: reviewMessage.fields.map Occ.fieldLine))) ≤ 131072 := by
    have hrest : byteLen ('\n' :: (occ2FallbackSentinel ++ '\n' ::
        unlines ("OCC/1" :: reviewMessage.fields.map Occ.fieldLine))) ≤ 1000 := by
      decide +kernel
    rw [dualText, byteLen_append, byteLen_symbolicText DialectCard.symV1_valid]
    omega
  have ht := encodeDual_eq_ok_iff.2 ⟨writable_reviewMessage, _, hocc1, hbound, rfl⟩
  have hne : symbolicSize DialectCard.symV1 reviewMessage ≠ 65536 := by omega
  have hboth := (dual_roundTrip_iff hget positional_reviewMessage (fun _ _ _ _ => trivial) ht).2 hne
  exact ⟨registry, _, hinsert, ht, hne, hboth⟩

end

end Occ2

end Occ
