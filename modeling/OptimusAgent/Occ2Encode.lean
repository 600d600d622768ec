/-
**What the OCC-2 encoder writes.**

The encoder pushes the fields of a message one by one and checks every bound as it goes.  This
module shows that it succeeds exactly for the messages whose fields respect the bounds, and that its
output then is the header line followed by one line for each field of the contract, in the order
that every encoding of the contract shares.
-/

import OptimusAgent.Occ2
import OptimusAgent.WireImage

namespace Occ

open Str Checked List AgentCommMessage Keyed

namespace Occ2

variable {R : Type}

/-! ### Symbols of a valid card -/

/-- The symbols of a card. -/
def Symbols.ofCard (card : DialectCard) : Symbols where
  symbol slot := (card.symbolTable.symbol slot.base.name).getD []
  marker slot := if slot.base = slot then none else card.symbolTable.marker slot.name

theorem map_name_bases : WireSlot.bases.map WireSlot.name = requiredSlots := by decide

theorem map_name_subfields : WireSlot.subfields.map WireSlot.name = requiredSubfields := by decide

section

variable [Host] {card : DialectCard}

/-- A valid card has a well-formed symbol for every base slot. -/
theorem exists_symbol (hcard : card.Valid) {slot : WireSlot} (hslot : slot ∈ WireSlot.bases) :
    ∃ symbol, card.symbolTable.slots.get? slot.name = some symbol ∧ validSymbol symbol = true := by
  have hmem : slot.name ∈ requiredSlots := map_name_bases ▸ mem_map_of_mem hslot
  obtain ⟨symbol, hsymbol⟩ := Option.isSome_iff_exists.1 (hcard.slots_all _ hmem)
  exact ⟨symbol, hsymbol, (hcard.slots_known _ (OrdMap.get?_eq_some_iff.1 hsymbol)).2⟩

/-- A valid card has a lower-case letter as marker for every subfield. -/
theorem exists_marker (hcard : card.Valid) {slot : WireSlot} (hslot : slot ∈ WireSlot.subfields) :
    ∃ c, card.symbolTable.subfields.get? slot.name = some [c] ∧ isAsciiLower c = true := by
  have hmem : slot.name ∈ requiredSubfields := map_name_subfields ▸ mem_map_of_mem hslot
  obtain ⟨marker, hmarker⟩ := Option.isSome_iff_exists.1 (hcard.subfields_all _ hmem)
  have hvalid := (hcard.subfields_known _ (OrdMap.get?_eq_some_iff.1 hmarker)).2
  simp only [validMarker, Bool.and_eq_true, decide_eq_true_eq] at hvalid
  obtain ⟨c, rfl⟩ := length_eq_one_iff.1 hvalid.1
  exact ⟨c, hmarker, by simpa using hvalid.2⟩

/-- The symbols of a valid card resolve. -/
theorem resolve_eq_ok_iff (hcard : card.Valid) {symbols : Symbols} :
    (Symbols.resolve card : Except (Occ2Error R) Symbols) = .ok symbols ↔ symbols = Symbols.ofCard card := by
  have hslots : ∀ slot ∈ WireSlot.bases, card.symbolTable.symbol slot.name ≠ none := by
    intro slot hslot
    obtain ⟨symbol, hsymbol, -⟩ := exists_symbol hcard hslot
    rw [SymbolTable.symbol, hsymbol]
    simp
  have hsubfields : ∀ slot ∈ WireSlot.subfields, card.symbolTable.marker slot.name ≠ none := by
    intro slot hslot
    obtain ⟨c, hc, -⟩ := exists_marker hcard hslot
    rw [SymbolTable.marker, hc]
    simp
  simp only [Symbols.resolve, bind_eq_ok, forM_eq_ok_iff, rejectIf_eq_ok, exists_const, pure_eq_ok, Except.ok.injEq]
  constructor
  · intro h
    exact h.2.2.symm
  · intro h
    exact ⟨hslots, hsubfields, h.symm⟩

end

/-! ### Pushing fields -/

/-- The line of a field. -/
def fieldLine (card : DialectCard) (e : WireKey × Str) : Str :=
  (Symbols.ofCard card).key e.1 ++ card.grammar.operator :: e.2

/-- A run of pushes. -/
def pushFields (R : Type) (card : DialectCard) (l : List (WireKey × Str)) (o : Output) : Except (Occ2Error R) Output :=
  l.foldlM (fun o e => pushField card.grammar.operator o ((Symbols.ofCard card).key e.1) e.2) o

variable {card : DialectCard}

theorem pushFields_append {l l' : List (WireKey × Str)} {o : Output} :
    pushFields R card (l ++ l') o = (pushFields R card l o >>= fun o => pushFields R card l' o) :=
  foldlM_append

variable {o o' : Output}

theorem pushField_eq_ok_iff {e : WireKey × Str} :
    (pushField card.grammar.operator o ((Symbols.ofCard card).key e.1) e.2 : Except (Occ2Error R) Output) = .ok o' ↔
      IsValue e.2 ∧ o.fields + 1 ≤ 128 ∧ byteLen (o.out ++ '\n' :: fieldLine card e) ≤ 65536 ∧
        o' = ⟨o.out ++ '\n' :: fieldLine card e, o.fields + 1⟩ := by
  simp only [pushField, bind_eq_ok, rejectIf_eq_ok, exists_const, not_lt, not_le, Bool.not_eq_true,
    pure_eq_ok, Except.ok.injEq, fieldLine]
  simp only [occ2MaxFields, occ2MaxValueBytes, occ2MaxSymbolicBytes]
  constructor
  · intro h
    obtain ⟨hfields, hlen, hctl, hsize, rfl⟩ := h
    exact ⟨⟨hctl, hlen⟩, hfields, hsize, rfl⟩
  · intro h
    obtain ⟨hvalue, hfields, hsize, rfl⟩ := h
    exact ⟨hfields, hvalue.bound, hvalue.clean, hsize, rfl⟩

/-- A run of pushes that succeeds has appended the lines of all fields, and the bounds hold at its
end. -/
theorem pushFields_eq_ok_iff {l : List (WireKey × Str)} (hl : l ≠ []) :
    pushFields R card l o = .ok o' ↔ (∀ e ∈ l, IsValue e.2) ∧ o.fields + l.length ≤ 128 ∧
        byteLen (o.out ++ l.flatMap fun e => '\n' :: fieldLine card e) ≤ 65536 ∧
        o' = ⟨o.out ++ l.flatMap fun e => '\n' :: fieldLine card e, o.fields + l.length⟩ := by
  induction l generalizing o with
  | nil => exact absurd rfl hl
  | cons e l ih =>
    rw [pushFields, foldlM_cons, bind_eq_ok]
    simp only [pushField_eq_ok_iff]
    rcases eq_or_ne l [] with rfl | hne
    · simp only [foldlM_nil, pure_eq_ok, Except.ok.injEq, forall_mem_cons, length_singleton, flatMap_singleton]
      constructor
      · rintro ⟨a, ⟨hv, hf, hs, rfl⟩, rfl⟩
        exact ⟨⟨hv, by simp⟩, hf, hs, rfl⟩
      · rintro ⟨⟨hv, -⟩, hf, hs, rfl⟩
        exact ⟨_, ⟨hv, hf, hs, rfl⟩, rfl⟩
    · -- the bounds after the whole run imply the bounds after its first push
      have ih := fun o => ih (o := o) hne
      simp only [pushFields] at ih
      simp only [forall_mem_cons, length_cons, flatMap_cons]
      constructor
      · rintro ⟨a, ⟨hv, hf, hs, rfl⟩, hrest⟩
        obtain ⟨hv', hf', hs', rfl⟩ := (ih _).1 hrest
        simp only [append_assoc] at hs'
        refine ⟨⟨hv, hv'⟩, by simp only at hf'; omega, hs', ?_⟩
        simp only [append_assoc, Output.mk.injEq, true_and]
        omega
      · rintro ⟨⟨hv, hv'⟩, hf, hs, rfl⟩
        refine ⟨_, ⟨hv, by omega, ?_, rfl⟩, (ih _).2 ⟨hv', by simp only; omega, ?_, ?_⟩⟩
        · simp only [byteLen_append] at hs ⊢
          omega
        · simpa only [append_assoc] using hs
        · simp only [append_assoc, Output.mk.injEq, true_and]
          omega

/-! ### The encoder as a run of pushes -/

/-- How OCC-2 writes the values on which the encodings differ: references as positions. -/
def occ2Format (count : ℕ) (separator : Char) : WireFormat where
  references ids := [separator].intercalate (ids.map fun id => dec ((refNumber count id).getD 0))
  verified b := if b then "1" else "0"

theorem pushOpt_eq (card : DialectCard) (k : WireKey) (value : Option Str) (o : Output) :
    (pushOpt (Symbols.ofCard card) card.grammar.operator k value o :
      Except (Occ2Error R) Output) = pushFields R card (wireField k value) o := by
  cases value with
  | none => rfl
  | some v =>
    simp only [pushOpt, wireField, pushFields, Option.toList_some, map_cons, map_nil, foldlM_cons, foldlM_nil]
    exact (bind_pure _).symm

/-- A loop over the entries of a list, each of which pushes the fields of its group, pushes the
fields of all groups.  `C` is what the pushes check besides the bounds. -/
theorem pushEach_eq_ok_iff {α : Type}
    {push : Output → ℕ → α → Except (Occ2Error R) Output} {g : ℕ → α → List (WireKey × Str)}
    {C : α → Prop}
    (hpush : ∀ o n x o', push o n x = .ok o' ↔ C x ∧ pushFields R card (g n x) o = .ok o')
    {start : ℕ} {l : List α} :
    pushEach push start l o = .ok o' ↔ (∀ x ∈ l, C x) ∧ pushFields R card (groups g start l) o = .ok o' := by
  induction l generalizing start o with
  | nil => simp [pushEach, pushFields]
  | cons x l ih =>
    simp only [pushEach, bind_eq_ok, hpush, ih, groups_cons, pushFields_append, forall_mem_cons]
    constructor
    · rintro ⟨a, ⟨hx, ha⟩, hl, ho⟩
      exact ⟨⟨hx, hl⟩, a, ha, ho⟩
    · rintro ⟨⟨hx, hl⟩, a, ha, ho⟩
      exact ⟨a, ⟨hx, ha⟩, hl, ho⟩

theorem pushEvidence_eq (card : DialectCard) (count : ℕ) (o : Output) (n : ℕ) (e : EvidenceRef) :
    (pushEvidence (Symbols.ofCard card) card.grammar.operator o n e : Except (Occ2Error R) Output) =
        pushFields R card (evidenceWire (occ2Format count card.grammar.listSeparator) n e) o := by
  simp only [pushEvidence, pushOpt_eq, evidenceWire, pushFields_append, occ2Format, bind_assoc]

section

variable [Host]

theorem encodeReference_eq_ok_iff {symbols : Symbols} {count n : ℕ} {id text : Str} :
    (encodeReference symbols count n id : Except (Occ2Error R) Str) = .ok text ↔
      (refNumber count id).isSome = true ∧ text = dec ((refNumber count id).getD 0) := by
  have href : ((stripPrefix "E" id).bind (parseUnsigned usizeBound)).filter
      (fun number => 1 ≤ number ∧ number ≤ count) = refNumber count id := rfl
  simp only [encodeReference, bind_eq_ok, okOr_eq_ok, pure_eq_ok, Except.ok.injEq, href]
  cases refNumber count id with
  | none => simp
  | some number => simp [eq_comm]

theorem mapM_encodeReference_eq_ok_iff {symbols : Symbols} {count n : ℕ} {ids texts : List Str} :
    (ids.mapM (encodeReference symbols count n) : Except (Occ2Error R) (List Str)) = .ok texts ↔
      (∀ id ∈ ids, (refNumber count id).isSome = true) ∧
        texts = ids.map fun id => dec ((refNumber count id).getD 0) := by
  simp only [mapM_eq_ok_iff, encodeReference_eq_ok_iff]
  induction ids generalizing texts with
  | nil => simp
  | cons id ids ih =>
    rw [forall₂_cons_left_iff, forall_mem_cons, map_cons]
    simp only [ih]
    constructor
    · rintro ⟨t, ts, ⟨hid, rfl⟩, ⟨hids, rfl⟩, rfl⟩
      exact ⟨⟨hid, hids⟩, rfl⟩
    · rintro ⟨⟨hid, hids⟩, rfl⟩
      exact ⟨_, _, ⟨hid, rfl⟩, ⟨hids, rfl⟩, rfl⟩

variable [F32 R]

/-- Pushing a finding checks that its evidence ids are positions, and pushes its fields. -/
theorem pushFinding_eq_ok_iff {count n : ℕ} {f : Finding R} :
    pushFinding (Symbols.ofCard card) card.grammar count o n f = .ok o' ↔
      (∀ id ∈ f.evidence, (refNumber count id).isSome = true) ∧ pushFields R card
          (findingWire (occ2Format count card.grammar.listSeparator) n f) o = .ok o' := by
  have hfield : ∀ (o : Output) v, (pushField card.grammar.operator o
        ((Symbols.ofCard card).key (.findingEvidence, some n)) v : Except (Occ2Error R) Output) =
        pushFields R card (wireField (.findingEvidence, some n) (some v)) o := fun o v =>
    pushOpt_eq card (.findingEvidence, some n) (some v) o
  simp only [pushFinding, findingWire, pushFields_append, pushOpt_eq, bind_eq_ok]
  by_cases hnil : f.evidence = []
  · simp only [hnil, if_true, not_mem_nil, false_imp_iff, implies_true, true_and]
    constructor
    · rintro ⟨a, ha, b, hb, ho⟩
      exact ⟨b, ⟨a, ha, hb⟩, ho⟩
    · rintro ⟨b, ⟨a, ha, hb⟩, ho⟩
      exact ⟨a, ha, b, hb, ho⟩
  · simp only [hnil, if_false, bind_eq_ok, mapM_encodeReference_eq_ok_iff, hfield]
    constructor
    · rintro ⟨a, ha, b, hb, texts, ⟨hids, rfl⟩, ho⟩
      exact ⟨hids, b, ⟨a, ha, hb⟩, ho⟩
    · rintro ⟨hids, b, ⟨a, ha, hb⟩, ho⟩
      exact ⟨a, ha, b, hb, _, ⟨hids, rfl⟩, ho⟩

/-- The fields of a message as OCC-2 writes them. -/
def symbolicFields (card : DialectCard) (m : AgentCommMessage R) : List (WireKey × Str) :=
  m.wireFields (occ2Format m.evidence.length card.grammar.listSeparator)

/-- The symbolic text of a message. -/
def symbolicText (card : DialectCard) (m : AgentCommMessage R) : Str :=
  unlines (headerLine card :: (symbolicFields card m).map (fieldLine card))

/-- A message that a card can write. -/
structure Writable (card : DialectCard) (m : AgentCommMessage R) : Prop where
  validCard : card.Valid
  validMessage : m.Valid
  /-- Every evidence id that a finding cites spells a position. -/
  references : ∀ f ∈ m.findings, ∀ id ∈ f.evidence, (refNumber m.evidence.length id).isSome = true
  values : ∀ e ∈ symbolicFields card m, IsValue e.2
  count : (symbolicFields card m).length ≤ 128
  size : byteLen (symbolicText card m) ≤ 65536

omit [Host] in
theorem symbolicFields_ne_nil (card : DialectCard) (m : AgentCommMessage R) : symbolicFields card m ≠ [] := by
  simp [symbolicFields, wireFields, headWire, wireField]

omit [Host] [F32 R] in
theorem groups_nextAction (start : ℕ) (l : List Str) :
    groups (fun _ a => wireField (.nextAction, none) (some a)) start l =
      l.map fun a => (((.nextAction, none) : WireKey), a) := by
  induction l generalizing start with
  | nil => rfl
  | cons a l ih =>
    rw [groups_cons, ih, map_cons]
    rfl

omit [Host] [F32 R] in
/-- A loop whose rounds only push pushes the fields of all groups. -/
theorem pushEach_eq {α : Type}
    {push : Output → ℕ → α → Except (Occ2Error R) Output} {g : ℕ → α → List (WireKey × Str)}
    (hpush : ∀ o n x, push o n x = pushFields R card (g n x) o) (start : ℕ) (l : List α)
    (o : Output) : pushEach push start l o = pushFields R card (groups g start l) o := by
  induction l generalizing start o with
  | nil => rfl
  | cons x l ih =>
    rw [pushEach, hpush, groups_cons, pushFields_append]
    simp only [ih]

omit [Host] in
/-- The fields after the findings. -/
def tailWire (fmt : WireFormat) (m : AgentCommMessage R) : List (WireKey × Str) :=
  groups (evidenceWire fmt) 1 m.evidence ++ (groups (entryWire .artifact) 1 m.artifacts ++
      (verificationWire m.verification ++ (groups (entryWire .dependency) 1 m.dependencies ++
          ((m.nextActions.map fun a => ((.nextAction, none), a)) ++
            (wireField (.timestamp, none) m.timestamp ++ wireField (.expiry, none) m.expiry)))))

/-- Once the card and the message are checked, the encoder pushes the fields of the message. -/
theorem encodeSymbolic_of_valid {m : AgentCommMessage R} (hcard : card.Valid) (hm : m.Valid) :
    encodeSymbolic m card = (do
      let o ← pushFields R card m.headWire ⟨headerLine card, 0⟩
      let o ← pushEach (pushFinding (Symbols.ofCard card) card.grammar m.evidence.length) 1 m.findings o
      let o ← pushFields R card (tailWire (occ2Format m.evidence.length card.grammar.listSeparator) m) o
      pure o.out) := by
  have hvalidate : card.validate = .ok () := DialectCard.validate_eq_ok_iff.2 hcard
  have hmessage : m.validate = .ok () := validate_eq_ok_iff.2 hm
  have hsymbols : (Symbols.resolve card : Except (Occ2Error R) Symbols) =
      .ok (Symbols.ofCard card) := (resolve_eq_ok_iff hcard).2 rfl
  have hentries : ∀ (slot : WireSlot) l o, pushEach (fun o n text =>
      pushFields R card (wireField (slot, some n) (some text)) o) 1 l o =
        pushFields R card (groups (entryWire slot) 1 l) o :=
    fun slot l o => pushEach_eq (fun _ _ _ => rfl) 1 l o
  have hnext : ∀ o, pushEach (fun o _ a =>
      pushFields R card (wireField (.nextAction, none) (some a)) o) 1 m.nextActions o =
        pushFields R card (m.nextActions.map fun a => ((.nextAction, none), a)) o := by
    intro o
    rw [← groups_nextAction 1]
    exact pushEach_eq (fun _ _ _ => rfl) 1 m.nextActions o
  simp only [encodeSymbolic, hvalidate, hmessage, hsymbols, Except.mapError, ok_bind, pushOpt_eq,
    hentries, hnext, pushEach_eq (pushEvidence_eq card m.evidence.length),
    headWire, tailWire, verificationWire, pushFields_append,
    bind_assoc]

/-- The encoder writes exactly the writable messages, as their symbolic text. -/
theorem encodeSymbolic_eq_ok_iff {m : AgentCommMessage R} {t : Str} :
    encodeSymbolic m card = .ok t ↔ Writable card m ∧ t = symbolicText card m := by
  have htext : symbolicText card m = headerLine card ++
      (symbolicFields card m).flatMap fun e => '\n' :: fieldLine card e := by
    rw [symbolicText, unlines_cons, flatMap_map]
  have hpush : ∀ o, pushFields R card (symbolicFields card m) ⟨headerLine card, 0⟩ = .ok o ↔
      (∀ e ∈ symbolicFields card m, IsValue e.2) ∧ (symbolicFields card m).length ≤ 128 ∧
        byteLen (symbolicText card m) ≤ 65536 ∧
        o = ⟨symbolicText card m, (symbolicFields card m).length⟩ := by
    intro o
    rw [pushFields_eq_ok_iff (symbolicFields_ne_nil card m), htext]
    simp only [Nat.zero_add]
  -- the pushes are one run over the fields, with a check of the references on the way
  have hrun : ∀ (_ : card.Valid) (_ : m.Valid), encodeSymbolic m card = .ok t ↔
      (∀ f ∈ m.findings, ∀ id ∈ f.evidence, (refNumber m.evidence.length id).isSome = true) ∧
        ∃ o, pushFields R card (symbolicFields card m) ⟨headerLine card, 0⟩ = .ok o ∧ o.out = t := by
    intro hcard hm
    have hfields : symbolicFields card m = m.headWire ++ (groups (findingWire
          (occ2Format m.evidence.length card.grammar.listSeparator)) 1 m.findings ++
            tailWire (occ2Format m.evidence.length card.grammar.listSeparator) m) := by
      simp only [symbolicFields, wireFields, tailWire, append_assoc]
    have hfindings : ∀ o o', pushEach (pushFinding (Symbols.ofCard card) card.grammar
        m.evidence.length) 1 m.findings o = .ok o' ↔ _ := fun o o' =>
      pushEach_eq_ok_iff (C := fun f : Finding R => ∀ id ∈ f.evidence,
        (refNumber m.evidence.length id).isSome = true) fun o n f o' => pushFinding_eq_ok_iff
    rw [encodeSymbolic_of_valid hcard hm, hfields]
    simp only [bind_eq_ok, pushFields_append, pure_eq_ok, Except.ok.injEq, hfindings]
    constructor
    · rintro ⟨a, ha, b, ⟨hrefs, hb⟩, o, ho, rfl⟩
      exact ⟨hrefs, o, ⟨a, ha, b, hb, ho⟩, rfl⟩
    · rintro ⟨hrefs, o, ⟨a, ha, b, hb, ho⟩, rfl⟩
      exact ⟨a, ha, b, ⟨hrefs, hb⟩, o, ho, rfl⟩
  constructor
  · intro h
    have hvalid : card.Valid ∧ m.Valid := by
      rw [encodeSymbolic] at h
      obtain ⟨u, hcard, h⟩ := bind_eq_ok.1 h
      obtain ⟨u', hm, -⟩ := bind_eq_ok.1 h
      exact ⟨DialectCard.validate_eq_ok_iff.1 (mapError_eq_ok.1 hcard), validate_eq_ok_iff.1 (mapError_eq_ok.1 hm)⟩
    obtain ⟨hrefs, o, ho, rfl⟩ := (hrun hvalid.1 hvalid.2).1 h
    obtain ⟨hvalues, hcount, hsize, ho⟩ := (hpush o).1 ho
    exact ⟨⟨hvalid.1, hvalid.2, hrefs, hvalues, hcount, hsize⟩, by simp only [ho]⟩
  · intro h
    obtain ⟨h, ht⟩ := h
    exact (hrun h.validCard h.validMessage).2
      ⟨h.references, _, (hpush _).2 ⟨h.values, h.count, h.size, rfl⟩, by simp only [ht]⟩

end

end Occ2

end Occ
