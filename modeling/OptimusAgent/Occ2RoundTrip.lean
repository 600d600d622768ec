/-
**Symbolic texts read back.**

The fields that the encoder writes are exactly what the decoder's reading recovers, so decoding a
symbolic text gives the image of the message it was written for, and the message itself when its
findings and evidence are numbered by position.
-/

import OptimusAgent.Occ2Read

namespace Occ

open Str Checked List AgentCommMessage

namespace Occ2

variable {R : Type}

/-! ### The fields of a message -/

variable [F32 R] {m m' : AgentCommMessage R}

/-- The numbered fields of a list are those of its entries. -/
theorem occ2Counts_wireValue {fmt : WireFormat} {b : WireSlot} (hb : b.IsFamily) {n : ℕ} :
    occ2Counts (m.wireValue fmt) b n ↔ n = m.entryCount b := by
  have hbase : b.base = b := by
    rcases hb with rfl | rfl | rfl | rfl <;> rfl
  have hiff : ∀ i, (∃ slot : WireSlot, slot.base = b ∧
      (m.wireValue fmt (slot, some i)).isSome = true) ↔ 1 ≤ i ∧ i ≤ m.entryCount b := by
    intro i
    constructor
    · rintro ⟨slot, rfl, hs⟩
      have hcount : m.entryCount slot.base = m.entryCount slot := by simp only [entryCount, hbase]
      rw [hcount]
      exact (bounds_of_isSome_wireValue hs).2
    · exact fun h => ⟨b, hbase, (isSome_wireValue_iff hb).2 h⟩
  simp only [occ2Counts, hiff]
  constructor
  · intro h
    have h₁ := h n
    have h₂ := h (m.entryCount b)
    omega
  · rintro rfl i
    rfl

variable {separator : Char}

/-- Positions that are printed with a separator between them are read back. -/
theorem referencesOf_intercalate (hsep : separator.isDigit = false)
    {numbers : List ℕ} (hne : numbers ≠ []) (h : ∀ n ∈ numbers, 1 ≤ n ∧ n < usizeBound) :
    referencesOf separator ([separator].intercalate (numbers.map dec)) = some numbers := by
  have hsplit : ([separator].intercalate (numbers.map dec)).splitOn separator = numbers.map dec := by
    refine splitOn_intercalate separator ?_ (by simpa using hne)
    intro t ht
    obtain ⟨n, -, rfl⟩ := mem_map.1 ht
    exact notMem_dec hsep n
  rw [referencesOf, hsplit, mapM_eq_some_iff, forall₂_map_left_iff, forall₂_same]
  intro n hn
  obtain ⟨h₁, hlt⟩ := h n hn
  rw [parseUnsigned_dec hlt]
  simp [Option.filter]
  omega

/-- References that all name an entry name exactly one list of positions. -/
theorem names_iff_eq_map {count : ℕ} {ids : List Str}
    (hids : ∀ id ∈ ids, (refNumber count id).isSome = true) {numbers : List ℕ} :
    Names count ids numbers ↔ numbers = ids.map fun id => (refNumber count id).getD 0 := by
  constructor
  · intro h
    induction h with
    | nil => rfl
    | cons hr _ ih =>
      rw [forall_mem_cons] at hids
      rw [map_cons, hr, Option.getD_some, ← ih hids.2]
  · rintro rfl
    rw [Names, forall₂_map_right_iff, forall₂_same]
    intro id hid
    obtain ⟨n, hn⟩ := Option.isSome_iff_exists.1 (hids id hid)
    rw [hn, Option.getD_some]

/-- The references of a finding are read back as the positions that its evidence ids spell. -/
theorem occ2References_print (hsep : separator.isDigit = false) {count : ℕ}
    {ids : List Str} (hids : ∀ id ∈ ids, (refNumber count id).isSome = true) (numbers : List ℕ) :
    occ2References separator count
        (if ids = [] then none else some ((occ2Format count separator).references ids)) numbers ↔
      Names count ids numbers := by
  have hbounds : ∀ n ∈ ids.map (fun id => (refNumber count id).getD 0), 1 ≤ n ∧ n ≤ count ∧ n < usizeBound := by
    intro n hn
    obtain ⟨id, hid, rfl⟩ := mem_map.1 hn
    obtain ⟨k, hk⟩ := Option.isSome_iff_exists.1 (hids id hid)
    rw [hk, Option.getD_some]
    exact refNumber_bounds hk
  rw [names_iff_eq_map hids, occ2References]
  by_cases hnil : ids = []
  · subst hnil
    simp only [if_true, OptReads, map_nil]
    constructor
    · rintro ⟨⟨parsed, hparsed, rfl⟩, -⟩
      rcases hparsed with ⟨-, rfl⟩ | ⟨_, _, h, -, -⟩
      · rfl
      · exact absurd h (by simp)
    · rintro rfl
      exact ⟨⟨none, by simp, rfl⟩, by simp⟩
  · have hread : referencesOf separator ((occ2Format count separator).references ids) =
        some (ids.map fun id => (refNumber count id).getD 0) := by
      rw [← referencesOf_intercalate hsep (by simpa using hnil) fun n hn =>
        ⟨(hbounds n hn).1, (hbounds n hn).2.2⟩, map_map]
      rfl
    rw [if_neg hnil]
    constructor
    · rintro ⟨⟨parsed, hparsed, rfl⟩, -⟩
      rcases hparsed with ⟨h, -⟩ | ⟨v, ns, hv, hp, rfl⟩
      · exact absurd h (by simp)
      · rw [Option.some.injEq] at hv
        rw [← hv, hread, Option.some.injEq] at hp
        rw [Option.getD_some, hp]
    · rintro rfl
      exact ⟨⟨some _, .inr ⟨_, _, rfl, hread, rfl⟩, rfl⟩, fun n hn => (hbounds n hn).2.1⟩

/-- The verification record is read back. -/
theorem occ2Record_wireValue {fmt : WireFormat} {v : Option Verification} :
    occ2Record (m.wireValue fmt) v ↔ v = m.verification := by
  cases v with
  | none =>
    simp only [occ2Record, wireValue]
    cases m.verification <;> simp
  | some v =>
    simp only [occ2Record, wireValue]
    cases m.verification with
    | none => simp
    | some u =>
      cases v
      cases u
      simp [eq_comm]

/-! ### The symbolic text read back -/

section

variable [Host]

/-- The OCC-2 reading takes the fields of a message apart as the encoder wrote them. -/
theorem recovers_symbolicFields {card : DialectCard} (h : Writable card m) :
    Recovers (occ2Format m.evidence.length card.grammar.listSeparator) id m
      (fun k => Keyed.first k (symbolicFields card m))
      (Keyed.all (.nextAction, none) (symbolicFields card m))
      (occ2Counts fun k => Keyed.first k (symbolicFields card m))
      (occ2References card.grammar.listSeparator) occ2State
      (occ2Record fun k => Keyed.first k (symbolicFields card m)) := by
  have hfield : (fun k => Keyed.first k (symbolicFields card m)) =
      m.wireValue (occ2Format m.evidence.length card.grammar.listSeparator) :=
    funext fun k => first_wireFields _ m k
  have hsep : card.grammar.listSeparator.isDigit = false := by
    have husable := h.validCard.separator
    cases hdigit : card.grammar.listSeparator.isDigit with
    | false => rfl
    | true => simp [usableSeparator, isAsciiAlphanumeric, hdigit] at husable
  rw [hfield]
  refine ⟨fun k => rfl, all_wireFields _ m _,
    fun n => occ2Counts_wireValue (.inl rfl), fun n => occ2Counts_wireValue (.inr (.inl rfl)),
    fun n => occ2Counts_wireValue (.inr (.inr (.inl rfl))),
    fun n => occ2Counts_wireValue (.inr (.inr (.inr rfl))),
    fun f hf numbers => occ2References_print hsep (h.references f hf) numbers, fun b => ?_,
    fun v => ?_⟩
  · have hstate : ∀ b, occ2State (if b then "1" else "0") = some (some b) := by decide
    exact hstate b
  · exact occ2Record_wireValue

/-- What the OCC-2 reading accepts has values that parse. -/
theorem isSome_parseValue_of_reads {field : WireTable} {next : List Str}
    (h : Reads field next (occ2Counts field) (occ2References separator) occ2State
      (occ2Record field) m') {k : WireKey} (hk : FitsSlot k.1 k.2) {v : Str}
    (hv : field k = some v) :
    (parseValue separator k.1 v : Option (Parsed R)).isSome = true := by
  obtain ⟨slot, number⟩ := k
  -- a numbered field belongs to an entry of the message that was read
  have hentry : ∀ {α : Type} {l : List α} {b : WireSlot} {n : ℕ}, occ2Counts field b l.length →
      slot.base = b → field (slot, some n) = some v → ∃ i x, l[i]? = some x ∧ i + 1 = n := by
    intro α l b n hcount hb hf
    obtain ⟨h₁, hn⟩ := (hcount n).1 ⟨slot, hb, by rw [hf]; rfl⟩
    have hlt : n - 1 < l.length := by omega
    exact ⟨n - 1, l[n - 1], List.getElem?_eq_getElem hlt, by omega⟩
  have hmap : ∀ {α : Type} {p : Str → Option α} {o : Option α} {inj : α → Parsed R},
      OptReads p (some v) o → ((p v).map inj).isSome = true := by
    intro α p o inj ho
    rcases ho with ⟨h, -⟩ | ⟨a, b, ha, hb, -⟩
    · exact absurd h (by simp)
    · rw [Option.some.injEq] at ha
      rw [ha, hb]
      rfl
  cases slot with
  | sequence =>
    cases number with
    | none => exact hmap (hv ▸ h.sequence)
    | some n => exact absurd hk.1 Bool.false_ne_true
  | findingConfidence =>
    cases number with
    | none => exact absurd hk (by decide)
    | some n =>
      obtain ⟨i, f, hf, rfl⟩ := hentry h.findingCount rfl hv
      exact hmap (hv ▸ (h.findings i f hf).confidence)
  | findingEvidence =>
    cases number with
    | none => exact absurd hk (by decide)
    | some n =>
      obtain ⟨i, f, hf, rfl⟩ := hentry h.findingCount rfl hv
      obtain ⟨numbers, ⟨⟨parsed, hparsed, -⟩, -⟩, -⟩ := (h.findings i f hf).evidence
      exact hmap (hv ▸ hparsed)
  | evidenceLineRange =>
    cases number with
    | none => exact absurd hk (by decide)
    | some n =>
      obtain ⟨i, e, he, rfl⟩ := hentry h.evidenceCount rfl hv
      exact hmap (hv ▸ (h.evidence i e he).lineRange)
  | evidenceVerified =>
    cases number with
    | none => exact absurd hk (by decide)
    | some n =>
      obtain ⟨i, e, he, rfl⟩ := hentry h.evidenceCount rfl hv
      obtain ⟨state, hstate, -⟩ := (h.evidence i e he).verified
      rw [hv] at hstate
      rcases hstate with ⟨h, -⟩ | ⟨a, b, ha, hb, -⟩
      · exact absurd h (by simp)
      · rw [Option.some.injEq] at ha
        obtain ⟨c, hc, -⟩ := Option.map_eq_some_iff.1 hb
        rw [parseValue, ha, hc]
        rfl
  | _ => rfl

omit [Host] in
/-- Every key but that of the next actions has at most one field. -/
theorem length_all_wireFields_le (fmt : WireFormat) {k : WireKey} (hk : k.1 ≠ .nextAction) :
    (Keyed.all k (m.wireFields fmt)).length ≤ 1 := by
  have hne : k ≠ (.nextAction, none) := fun h => hk (by rw [h])
  rw [all_wireFields, wireValues, if_neg hne]
  cases m.wireValue fmt k <;> simp

variable [LawfulHost] {card : DialectCard} {registry : DialectRegistry}

/-- The header of a symbolic text selects the card, and the decoder goes on with the field lines. -/
theorem decodeSymbolic_eq {t : Str}
    (h : Writable card m) (hreg : registry.get card.dialectId card.version = some card)
    (ht : chopSuffix '\n' t = symbolicText card m) (hsize : byteLen t ≤ 65536) :
    decodeSymbolic t registry = (do
      let wire ← decodeLines card 2 WireMessage.init 0 ((symbolicFields card m).map (fieldLine card))
      finish wire : Except (Occ2Error R) (AgentCommMessage R)) := by
  have hlines : (chopSuffix '\n' t).splitOn '\n' = symbolicLines card m := by rw [ht, splitOn_symbolicText h]
  have hne : t ≠ [] := by
    intro hnil
    have hsingle : (chopSuffix '\n' ([] : Str)).splitOn '\n' = [[]] := by decide
    rw [hnil, hsingle, symbolicLines, List.cons.injEq] at hlines
    exact symbolicFields_ne_nil card m (map_eq_nil_iff.1 hlines.2.symm)
  have hheader : chopSuffix '\r' (headerLine card) = headerLine card :=
    chopSuffix_of_notMem (notMem_of_mem_symbolicLines h (mem_cons_self ..) (by decide))
  have hresolve : registry.resolve card.dialectId card.version
      (card.sha256.take codebookPrefixLen) = .dialect card :=
    DialectRegistry.resolve_of_get hreg <| take_prefix _ _
  have hlarge : ¬ occ2MaxSymbolicBytes < byteLen t := not_lt.2 hsize
  simp only [decodeSymbolic, rejectIf_of_not hne, rejectIf_of_not hlarge, ok_bind, hlines,
    symbolicLines, hheader, parseHeader_headerLine h.validCard, hresolve]

/-- Decoding a symbolic text, with or without a final newline, gives the image of the message. -/
theorem decodeSymbolic_symbolicText {t : Str}
    (h : Writable card m) (hreg : registry.get card.dialectId card.version = some card)
    (ht : chopSuffix '\n' t = symbolicText card m) (hsize : byteLen t ≤ 65536) :
    decodeSymbolic t registry = .ok m' ↔ WireImage id m m' ∧ m'.Valid := by
  have hslots : ∀ e ∈ symbolicFields card m, FitsSlot e.1.1 e.1.2 := fun e he =>
    fitsSlot_of_mem_wireFields (fits_of_length h.count) he
  have hcount : 0 + (symbolicFields card m).length ≤ 128 := by
    rw [Nat.zero_add]
    exact h.count
  have hrun : ∀ wire : WireMessage R, decodeLines card 2 WireMessage.init 0
      ((symbolicFields card m).map (fieldLine card)) = .ok wire →
        Holds card.grammar.listSeparator (symbolicFields card m) wire := by
    intro wire hwire
    have hold := Holds.run h.validCard (holds_init _) hslots h.values hcount hwire
    rwa [nil_append] at hold
  rw [decodeSymbolic_eq h hreg ht hsize, bind_eq_ok, ← (recovers_symbolicFields h).reads_iff h.validMessage]
  constructor
  · rintro ⟨wire, hwire, hfinish⟩
    exact (finish_eq_ok_iff (hrun wire hwire) hslots).1 hfinish
  · intro hreads
    have hparse : ∀ e ∈ symbolicFields card m,
        (parseValue card.grammar.listSeparator e.1.1 e.2 : Option (Parsed R)).isSome = true := by
      intro e he
      by_cases hnext : e.1.1 = .nextAction
      · rw [hnext]
        rfl
      · refine isSome_parseValue_of_reads hreads (hslots e he) ?_
        exact Keyed.first_eq_some_of_length_all_le he (length_all_wireFields_le _ hnext)
    have honce : ∀ k : WireKey, k.1 ≠ .nextAction → (Keyed.all k ([] ++ symbolicFields card m)).length ≤ 1 := by
      intro k hk
      rw [nil_append]
      exact length_all_wireFields_le _ hk
    obtain ⟨wire, hwire⟩ : ∃ wire : WireMessage R, decodeLines card 2 WireMessage.init 0
        ((symbolicFields card m).map (fieldLine card)) = .ok wire :=
      Holds.exists_run h.validCard (holds_init _) hslots h.values hcount hparse honce
    exact ⟨wire, hwire, (finish_eq_ok_iff (hrun wire hwire) hslots).2 hreads⟩

/-- The decoder takes a symbolic text without a fallback for what it is. -/
theorem decode_symbolicText (registry : DialectRegistry) (h : Writable card m) : decode (symbolicText card m) registry =
      (decodeSymbolic (symbolicText card m) registry : Except (Occ2Error R) (AgentCommMessage R)) := by
  have hsize := h.size
  have hlarge : ¬ occ2MaxMessageBytes < byteLen (symbolicText card m) := by
    have hmax : occ2MaxMessageBytes = 131072 := rfl
    omega
  by_cases hempty : symbolicText card m = []
  · simp only [decode, decodeSymbolic, rejectIf, hempty, if_true]
    rfl
  · simp only [decode, rejectIf_of_not hempty, rejectIf_of_not hlarge, ok_bind,
      splitFallback_symbolicText h]

/-- Decoding the text of a message gives its image. -/
theorem decode_symbolicText_iff (h : Writable card m) (hreg : registry.get card.dialectId card.version = some card) :
    decode (symbolicText card m) registry = .ok m' ↔ WireImage id m m' ∧ m'.Valid := by
  rw [decode_symbolicText registry h]
  exact decodeSymbolic_symbolicText h hreg (chopSuffix_symbolicText h) h.size

/-- **Round trip of the single encoding.**  Whatever the dialect, what the encoder accepts of the
positional messages with exact confidences is decoded to the same message under every registry that
holds the card. -/
theorem decode_encode [LawfulF32 R] {card : DialectCard} {registry : DialectRegistry} {t : Str}
    (hreg : registry.get card.dialectId card.version = some card) (hp : Positional m)
    (hc : ExactConfidences m) (ht : encode m card = .ok t) : decode t registry = .ok m := by
  obtain ⟨h, ht⟩ := encodeSymbolic_eq_ok_iff.1 ht
  rw [ht, decode_symbolicText_iff h hreg,
    wireImage_iff_eq (fun _ => rfl) h.validMessage (fits_of_length h.count) hp hc]
  exact ⟨rfl, h.validMessage⟩

end

section

open Sample

/-- A positional message with two evidence entries. -/
def reviewMessage : AgentCommMessage Tenths :=
  { (new "RESULT" "t1" "done" : AgentCommMessage Tenths) with
    findings := [⟨"F1", "lock held", some (9 : Fin 11), ["E2", "E1"]⟩]
    evidence := [⟨"E1", "file", "src/lib.rs", some (3, 9), none, none, some true⟩,
      ⟨"E2", "log", "suite:lock", none, none, none, none⟩]
    nextActions := ["retry"] }

theorem writable_reviewMessage : Writable DialectCard.symV1 reviewMessage where
  validCard := DialectCard.symV1_valid
  validMessage := validate_eq_ok_iff.1 (by decide : reviewMessage.validate = .ok ())
  references := by decide
  values := by
    have h : ∀ e ∈ symbolicFields DialectCard.symV1 reviewMessage, hasControl e.2 = false ∧ byteLen e.2 ≤ 4096 := by
      decide
    exact fun e he => ⟨(h e he).1, (h e he).2⟩
  count := by decide
  size := by decide +kernel

theorem positional_reviewMessage : Positional reviewMessage where
  findings i f h := by
    match i with
    | 0 =>
      rw [← Option.some.inj h]
      decide
    | i + 1 => exact absurd h (by simp [reviewMessage])
  evidence i e h := by
    match i with
    | 0 =>
      rw [← Option.some.inj h]
      decide
    | 1 =>
      rw [← Option.some.inj h]
      decide
    | i + 2 => exact absurd h (by simp [reviewMessage])

theorem decode_encode_reviewMessage : ∃ registry t, DialectRegistry.new.insert DialectCard.symV1 = .ok registry ∧
      encode reviewMessage DialectCard.symV1 = .ok t ∧ decode t registry = .ok reviewMessage := by
  obtain ⟨registry, hinsert, hget⟩ := DialectRegistry.new.exists_insert DialectCard.symV1_valid rfl
  have ht := encodeSymbolic_eq_ok_iff.2 ⟨writable_reviewMessage, rfl⟩
  exact ⟨registry, _, hinsert, ht, decode_encode hget positional_reviewMessage (fun _ _ _ _ => trivial) ht⟩

end

end Occ2

end Occ
