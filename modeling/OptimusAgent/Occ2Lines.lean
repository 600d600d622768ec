/-
**Reading OCC-2 lines back.**

The decoder recognises a field by its key: it looks for a symbol the key starts with, reads a
decimal index, and reads a marker.  Whether that undoes the encoder depends on the card, since the
card chooses symbols, markers and separators.
-/

import OptimusAgent.Occ2Encode

namespace Occ

open Str Checked List

namespace Occ2

variable {R : Type}

/-! ### Characters and searches -/

/-- A search that finds one result, whatever entry it comes from, returns it. -/
theorem findSome?_eq_some_of_unique {α β : Type} {f : α → Option β} {l : List α} {a : α} {b : β}
    (ha : a ∈ l) (hab : f a = some b) (h : ∀ x ∈ l, ∀ y, f x = some y → y = b) :
    l.findSome? f = some b := by
  cases hfind : l.findSome? f with
  | none =>
    rw [findSome?_eq_none_iff.1 hfind a ha] at hab
    exact absurd hab (by simp)
  | some y =>
    obtain ⟨x, hx, hxy⟩ := exists_of_findSome?_eq_some hfind
    rw [h x hx y hxy]

theorem isDigit_of_isAsciiLower {c : Char} (h : isAsciiLower c = true) : c.isDigit = false := by
  simp only [isAsciiLower, Bool.and_eq_true, decide_eq_true_eq] at h
  have hlow : 97 ≤ c.toNat := h.1
  simp only [Char.isDigit, Bool.and_eq_false_iff, decide_eq_false_iff_not]
  right
  intro hd
  have hhigh : c.toNat ≤ 57 := hd
  omega

theorem isControl_of_usableSeparator {c : Char} (h : usableSeparator c = true) : isControl c = false := by
  simp only [usableSeparator, Bool.and_eq_true, decide_eq_true_eq] at h
  have hlow : 32 ≤ c.toNat := h.1.1.1
  have hhigh : c.toNat ≤ 126 := h.1.1.2
  simp only [isControl, Bool.or_eq_false_iff, decide_eq_false_iff_not, Bool.and_eq_false_iff]
  omega

theorem isControl_of_isAsciiAlphanumeric {c : Char} (h : isAsciiAlphanumeric c = true) : isControl c = false := by
  have hrange : 48 ≤ c.toNat ∧ c.toNat ≤ 122 := by
    simp only [isAsciiAlphanumeric, isAsciiLower, Char.isUpper, Char.isDigit, Bool.or_eq_true,
      Bool.and_eq_true, decide_eq_true_eq] at h
    rcases h with (h | h) | h
    · have h₁ : 65 ≤ c.toNat := h.1
      have h₂ : c.toNat ≤ 90 := h.2
      omega
    · have h₁ : 97 ≤ c.toNat := h.1
      have h₂ : c.toNat ≤ 122 := h.2
      omega
    · have h₁ : 48 ≤ c.toNat := h.1
      have h₂ : c.toNat ≤ 57 := h.2
      omega
  simp only [isControl, Bool.or_eq_false_iff, decide_eq_false_iff_not, Bool.and_eq_false_iff]
  omega

/-! ### Slots -/

theorem base_mem_bases (slot : WireSlot) : slot.base ∈ WireSlot.bases := by
  cases slot <;> decide

theorem mem_subfields {slot : WireSlot} (h : slot.base ≠ slot) : slot ∈ WireSlot.subfields := by
  revert h
  cases slot <;> decide

theorem find?_name_bases : ∀ slot ∈ WireSlot.bases,
    (WireSlot.bases.find? fun base => base.name = slot.name) = some slot := by
  decide

theorem name_injOn_subfields : ∀ a ∈ WireSlot.subfields, ∀ b ∈ WireSlot.subfields, a.name = b.name → a = b := by
  decide

theorem subfieldBase_name : ∀ slot ∈ WireSlot.subfields,
    subfieldBase slot.name = some (slot.base.name, slot.isIndexed) := by
  decide

/-! ### Keys -/

section

variable [Host] {card : DialectCard}

/-- The symbol of every slot is an entry of the table, and well formed. -/
theorem symbol_ofCard (hcard : card.Valid) (slot : WireSlot) :
    (slot.base.name, (Symbols.ofCard card).symbol slot) ∈ card.symbolTable.slots.entries ∧
      validSymbol ((Symbols.ofCard card).symbol slot) = true := by
  obtain ⟨symbol, hget, hvalid⟩ := exists_symbol hcard (base_mem_bases slot)
  have hsymbol : (Symbols.ofCard card).symbol slot = symbol := by
    simp only [Symbols.ofCard, SymbolTable.symbol, hget, Option.getD_some]
  rw [hsymbol]
  exact ⟨OrdMap.get?_eq_some_iff.1 hget, hvalid⟩

variable {slot : WireSlot} {c : Char}

/-- The marker of a subfield is an entry of the table, and a lower-case letter. -/
theorem marker_ofCard (hcard : card.Valid) (hslot : slot.base ≠ slot) :
    ∃ c, (Symbols.ofCard card).marker slot = some c ∧ card.symbolTable.marker slot.name = some c ∧
      (slot.name, [c]) ∈ card.symbolTable.subfields.entries ∧ isAsciiLower c = true := by
  obtain ⟨c, hget, hlower⟩ := exists_marker hcard (mem_subfields hslot)
  have hmarker : card.symbolTable.marker slot.name = some c := by
    rw [SymbolTable.marker, hget]
    rfl
  exact ⟨c, by simp only [Symbols.ofCard, if_neg hslot, hmarker], hmarker, OrdMap.get?_eq_some_iff.1 hget, hlower⟩

/-- Subfields of one base have different markers. -/
theorem marker_inj (hcard : card.Valid) {a b : WireSlot} (ha : a.base ≠ a) (hb : b.base ≠ b) (hbase : a.base = b.base)
    (h : card.symbolTable.marker a.name = card.symbolTable.marker b.name) : a = b := by
  obtain ⟨c, -, hca, hma, -⟩ := marker_ofCard hcard ha
  obtain ⟨d, -, hdb, hmb, -⟩ := marker_ofCard hcard hb
  have hcd : c = d := by
    rw [hca, hdb, Option.some.injEq] at h
    exact h
  subst hcd
  have hfree := hcard.markers_free _ hma _ hmb
  simp only [DialectCard.subfieldsCollide, subfieldBase_name a (mem_subfields ha),
    subfieldBase_name b (mem_subfields hb), hbase, decide_true, Bool.and_true] at hfree
  exact name_injOn_subfields a (mem_subfields ha) b (mem_subfields hb) (by simpa using hfree)

/-- The marker of a subfield leads back to the subfield. -/
theorem subfieldWith_marker (hcard : card.Valid) (hslot : slot.base ≠ slot)
    {candidates : List WireSlot} (hmem : slot ∈ candidates)
    (hcand : ∀ s ∈ candidates, s.base ≠ s ∧ s.base = slot.base)
    (hc : card.symbolTable.marker slot.name = some c) :
    subfieldWith card.symbolTable candidates c = some slot := by
  cases hfind : subfieldWith card.symbolTable candidates c with
  | none =>
    have := find?_eq_none.1 hfind slot hmem
    simp [hc] at this
  | some s =>
    have hs : card.symbolTable.marker s.name = some c := by simpa using find?_some hfind
    have hbase := hcand s (mem_of_find?_eq_some hfind)
    rw [marker_inj hcard hbase.1 hslot hbase.2 (hs.trans hc.symm)]

/-! ### Key parsing -/

section

omit [Host]

theorem splitIndexMarker_dec {n : ℕ} (h₁ : 1 ≤ n) (hn : n < usizeBound) :
    splitIndexMarker (dec n) = some (n, none) := by
  have hdigits : ∀ c ∈ dec n, Char.isDigit c = true := fun c => isDigit_of_mem_dec
  have htake : (dec n).takeWhile Char.isDigit = dec n := takeWhile_eq_self_iff.2 hdigits
  have hdrop : (dec n).dropWhile Char.isDigit = [] := dropWhile_eq_nil_iff.2 hdigits
  have hne : n ≠ 0 := by omega
  simp [splitIndexMarker, htake, hdrop, parseUnsigned_dec hn, Option.filter, hne]

theorem splitIndexMarker_dec_append {n : ℕ} (h₁ : 1 ≤ n) (hn : n < usizeBound)
    (hc : isAsciiLower c = true) : splitIndexMarker (dec n ++ [c]) = some (n, some c) := by
  have hdigits : ∀ c ∈ dec n, Char.isDigit c = true := fun c => isDigit_of_mem_dec
  have hcd := isDigit_of_isAsciiLower hc
  have htake : (dec n ++ [c]).takeWhile Char.isDigit = dec n := by
    rw [takeWhile_append_of_pos hdigits]
    simp [hcd]
  have hdrop : (dec n ++ [c]).dropWhile Char.isDigit = [c] := by
    rw [dropWhile_append_of_pos hdigits]
    simp [hcd]
  have hne : n ≠ 0 := by omega
  simp [splitIndexMarker, htake, hdrop, parseUnsigned_dec hn, Option.filter, hne, hc]

theorem indexedKey_dec {n : ℕ} (h₁ : 1 ≤ n) (hn : n < usizeBound) : indexedKey (dec n) = some n := by
  have hdigits := all_isDigit_dec n
  rw [indexedKey, if_neg (by simp [hdigits]), parseUnsigned_dec hn]
  simp [Option.filter, h₁]

end

omit [Host] in
theorem marker_ofCard_base (hslot : slot.base = slot) : (Symbols.ofCard card).marker slot = none := by
  simp only [Symbols.ofCard, if_pos hslot]

/-- What follows the symbol in the key of a group is read back. -/
theorem groupKey_rest (hcard : card.Valid) {base : WireSlot} (hbase : slot.base = base)
    {candidates : List WireSlot}
    (hcand : ∀ s, s ∈ candidates ↔ s.base ≠ s ∧ s.base = base) {n : ℕ} (h₁ : 1 ≤ n)
    (hn : n < usizeBound) :
    groupKey card.symbolTable base candidates
      (dec n ++ ((Symbols.ofCard card).marker slot).toList) = some (slot, some n) := by
  by_cases hslot : slot.base = slot
  · rw [marker_ofCard_base hslot, Option.toList_none, append_nil, groupKey, splitIndexMarker_dec h₁ hn, ← hbase, hslot]
    rfl
  · obtain ⟨c, hc, htable, -, hlower⟩ := marker_ofCard hcard hslot
    have hcands : ∀ s ∈ candidates, s.base ≠ s ∧ s.base = slot.base := fun s hs => hbase ▸ (hcand s).1 hs
    have hfind := subfieldWith_marker hcard hslot ((hcand slot).2 ⟨hslot, hbase⟩) hcands htable
    rw [hc, Option.toList_some, groupKey, splitIndexMarker_dec_append h₁ hn hlower]
    simp only [Option.bind_some, hfind, Option.map_some]

/-- What follows the symbol in a key of the verification record is read back. -/
theorem verificationKey_rest (hcard : card.Valid) (hbase : slot.base = .verificationClaim) :
    verificationKey ((Symbols.ofCard card).marker slot).toList card.symbolTable = some (slot, none) := by
  by_cases hslot : slot.base = slot
  · rw [marker_ofCard_base hslot, ← hslot, hbase]
    rfl
  · obtain ⟨c, hc, htable, -, hlower⟩ := marker_ofCard hcard hslot
    have hcand : ∀ s ∈ [WireSlot.verificationStatus, .verificationMethod, .verificationReceipt],
        s.base ≠ s ∧ s.base = slot.base := by
      rw [hbase]
      decide
    have hmem : slot ∈ [WireSlot.verificationStatus, .verificationMethod, .verificationReceipt] := by
      revert hbase hslot
      cases slot <;> decide
    rw [hc, Option.toList_some, verificationKey, if_pos hlower,
      subfieldWith_marker hcard hslot hmem hcand htable, Option.map_some]

/-- What follows the symbol in a key is read back. -/
theorem restKey_rest (hcard : card.Valid) {number : Option ℕ} (hk : FitsSlot slot number) :
    restKey card.symbolTable slot.base
      ((number.map dec).getD [] ++ ((Symbols.ofCard card).marker slot).toList) = some (slot, number) := by
  cases number with
  | some n =>
    obtain ⟨hidx, h₁, hn⟩ := hk
    have hfamily : slot.base = .findingStatement ∨ slot.base = .evidenceRef ∨
        slot = .artifact ∨ slot = .dependency := by
      revert hidx
      cases slot <;> decide
    rw [Option.map_some, Option.getD_some]
    rcases hfamily with hbase | hbase | rfl | rfl
    · rw [hbase]
      exact groupKey_rest hcard hbase (by intro s; cases s <;> decide) h₁ hn
    · rw [hbase]
      exact groupKey_rest hcard hbase (by intro s; cases s <;> decide) h₁ hn
    · rw [marker_ofCard_base rfl, Option.toList_none, append_nil]
      exact congrArg (Option.map fun index => (WireSlot.artifact, some index)) (indexedKey_dec h₁ hn)
    · rw [marker_ofCard_base rfl, Option.toList_none, append_nil]
      exact congrArg (Option.map fun index => (WireSlot.dependency, some index)) (indexedKey_dec h₁ hn)
  | none =>
    have hscalar : slot.base = .verificationClaim ∨
        slot.base = slot ∧ restKey card.symbolTable slot [] = some (slot, none) := by
      revert hk
      cases slot <;> intro hk <;> first
        | exact .inl rfl
        | exact .inr ⟨rfl, rfl⟩
        | exact absurd hk (by decide)
    rw [Option.map_none, Option.getD_none, nil_append]
    rcases hscalar with hbase | ⟨hslot, hrest⟩
    · rw [hbase]
      exact verificationKey_rest hcard hbase
    · rw [marker_ofCard_base hslot, hslot]
      exact hrest

/-- The key of a field is read back as the slot and the number it was written for. -/
theorem parseKey_key (hcard : card.Valid) {k : WireKey} (hk : FitsSlot k.1 k.2) :
    (parseKey ((Symbols.ofCard card).key k) card : Except (Occ2Error R) WireKey) = .ok k := by
  obtain ⟨slot, number⟩ := k
  have hkey : (Symbols.ofCard card).key (slot, number) = (Symbols.ofCard card).symbol slot ++
      ((number.map dec).getD [] ++ ((Symbols.ofCard card).marker slot).toList) := by
    rw [Symbols.key, append_assoc]
  have hrest := restKey_rest hcard hk
  rw [hkey]
  generalize (number.map dec).getD [] ++ ((Symbols.ofCard card).marker slot).toList = rest at hrest
  obtain ⟨hmem, -⟩ := symbol_ofCard hcard slot
  -- only the slot's own symbol starts the key: of two symbols that do, one starts the other
  have hfind : (card.symbolTable.slots.entries.findSome? fun e =>
      (stripPrefix e.2 ((Symbols.ofCard card).symbol slot ++ rest)).map fun r => (e.1, r)) =
        some (slot.base.name, rest) := by
    refine findSome?_eq_some_of_unique hmem (by rw [stripPrefix_append, Option.map_some]) ?_
    intro e he r hr
    obtain ⟨r', hstrip, rfl⟩ := Option.map_eq_some_iff.1 hr
    have hfront := stripPrefix_eq_some_iff.1 hstrip
    have hname : e.1 = slot.base.name := by
      by_contra hne
      rcases prefix_or_prefix_of_prefix (prefix_append _ rest) ⟨r', hfront.symm⟩ with h | h
      · exact hcard.symbols_free _ hmem _ he (Ne.symm hne) h
      · exact hcard.symbols_free _ he _ hmem hne h
    have hsymbol : e.2 = (Symbols.ofCard card).symbol slot := by
      have h₁ := OrdMap.get?_eq_some_iff.2 hmem
      have h₂ := OrdMap.get?_eq_some_iff.2 (show (e.1, e.2) ∈ _ from he)
      rw [hname, h₁, Option.some.injEq] at h₂
      exact h₂.symm
    rw [hsymbol] at hfront
    rw [hname, append_cancel_left hfront]
  rw [parseKey, hfind]
  simp only [find?_name_bases _ (base_mem_bases slot), hrest, okOr_some]

/-! ### Lines -/

/-- Keys are alphanumeric. -/
theorem isAsciiAlphanumeric_of_mem_key (hcard : card.Valid) {k : WireKey}
    (h : c ∈ (Symbols.ofCard card).key k) : isAsciiAlphanumeric c = true := by
  obtain ⟨slot, number⟩ := k
  simp only [Symbols.key, mem_append] at h
  rcases h with (h | h) | h
  · have hsymbol := (symbol_ofCard hcard slot).2
    simp only [validSymbol, Bool.and_eq_true, all_eq_true] at hsymbol
    simp [isAsciiAlphanumeric, hsymbol.2 c h]
  · cases number with
    | none => exact absurd h (by simp)
    | some n => simp [isAsciiAlphanumeric, isDigit_of_mem_dec (n := n) (by simpa using h)]
  · rw [Option.mem_toList] at h
    have hslot : slot.base ≠ slot := by
      intro hslot
      simp [Symbols.ofCard, hslot] at h
    obtain ⟨d, hd, -, -, hlower⟩ := marker_ofCard hcard hslot
    rw [hd, Option.some.injEq] at h
    subst h
    simp [isAsciiAlphanumeric, hlower]

/-- A key starts with an upper-case letter. -/
theorem head?_key (hcard : card.Valid) (k : WireKey) :
    ∃ c, ((Symbols.ofCard card).key k).head? = some c ∧ c.isUpper = true := by
  have hsymbol := (symbol_ofCard hcard k.1).2
  simp only [validSymbol, Bool.and_eq_true, all_eq_true, decide_eq_true_eq] at hsymbol
  obtain ⟨c, rest, hcons⟩ := exists_cons_of_ne_nil hsymbol.1.1
  refine ⟨c, ?_, hsymbol.2 c (by rw [hcons]; simp)⟩
  rw [Symbols.key, hcons]
  rfl

theorem operator_notMem_key (hcard : card.Valid) (k : WireKey) :
    card.grammar.operator ∉ (Symbols.ofCard card).key k := by
  intro h
  have hal := isAsciiAlphanumeric_of_mem_key hcard h
  have hop := hcard.operator
  simp [usableSeparator, hal] at hop

/-- A field line contains no control character. -/
theorem notMem_fieldLine (hcard : card.Valid) {e : WireKey × Str} (hv : IsValue e.2)
    (hc : isControl c = true) : c ∉ fieldLine card e := by
  simp only [fieldLine, mem_append, mem_cons, not_or]
  refine ⟨fun h => ?_, fun h => ?_, hv.notMem hc⟩
  · rw [isControl_of_isAsciiAlphanumeric (isAsciiAlphanumeric_of_mem_key hcard h)] at hc
    exact Bool.false_ne_true hc
  · rw [h, isControl_of_usableSeparator hcard.operator] at hc
    exact Bool.false_ne_true hc

omit [Host] in
theorem fieldLine_ne_nil (e : WireKey × Str) : fieldLine card e ≠ [] := by simp [fieldLine]

/-! ### The header -/

omit [Host] in
theorem toNat_lt_of_isLowerHex (h : isLowerHex c = true) : c.toNat < 128 := by
  simp only [isLowerHex, Bool.or_eq_true, Bool.and_eq_true, decide_eq_true_eq] at h
  rcases h with h | h
  · exact toNat_lt_of_isDigit h
  · have hhigh : c.toNat ≤ 102 := h.2
    omega

variable [LawfulHost]

/-- The start of the hash that the header carries. -/
theorem codebook_ofCard (hcard : card.Valid) : (card.sha256.take codebookPrefixLen).length = codebookPrefixLen ∧
      ∀ c ∈ card.sha256.take codebookPrefixLen, isLowerHex c = true := by
  rw [← hcard.hash, codebookSha256]
  refine ⟨?_, fun c hc => ?_⟩
  · rw [length_take, LawfulHost.sha256Hex_length]
    rfl
  · rcases LawfulHost.sha256Hex_hex _ c (mem_of_mem_take hc) with h | h
    · simp [isLowerHex, h]
    · have hall : ['a', 'b', 'c', 'd', 'e', 'f'].all isLowerHex = true := by decide
      exact all_eq_true.1 hall c h

omit [LawfulHost] in
theorem mem_dialectId (hcard : card.Valid) (h : c ∈ card.dialectId) :
    isAsciiLower c = true ∨ c.isDigit = true ∨ c = '-' := by
  have hid := hcard.dialectId
  simp only [validDialectId, Bool.and_eq_true, all_eq_true, Bool.or_eq_true, beq_iff_eq] at hid
  exact or_assoc.1 (hid.2 c h)

omit [Host] [LawfulHost] in
theorem headerLine_eq (card : DialectCard) : headerLine card = [' '].intercalate
      [occ2Header, ['D', '='] ++ (card.dialectId ++ '@' :: dec card.version.val),
        ['C', '='] ++ card.sha256.take codebookPrefixLen] := by
  simp [headerLine, intercalate]

/-- The header of a valid card is read back. -/
theorem parseHeader_headerLine (hcard : card.Valid) :
    (parseHeader (headerLine card) : Except (Occ2Error R) (Str × U32 × Str)) =
      .ok (card.dialectId, card.version, card.sha256.take codebookPrefixLen) := by
  obtain ⟨hlen, hhex⟩ := codebook_ofCard hcard
  have hsplit : (headerLine card).splitOn ' ' =
      [occ2Header, ['D', '='] ++ (card.dialectId ++ '@' :: dec card.version.val),
        ['C', '='] ++ card.sha256.take codebookPrefixLen] := by
    rw [headerLine_eq]
    refine splitOn_intercalate ' ' ?_ (by simp)
    intro piece hpiece hspace
    simp only [mem_cons, not_mem_nil, or_false] at hpiece
    rcases hpiece with rfl | rfl | rfl
    · exact absurd hspace (by decide)
    · simp only [mem_append, mem_cons, not_mem_nil, or_false] at hspace
      rcases hspace with (h | h) | h | h | h
      · exact absurd h (by decide)
      · exact absurd h (by decide)
      · rcases mem_dialectId hcard h with h | h | h <;> exact absurd h (by decide)
      · exact absurd h (by decide)
      · exact notMem_dec (by decide) _ h
    · simp only [mem_append, mem_cons, not_mem_nil, or_false] at hspace
      rcases hspace with (h | h) | h
      · exact absurd h (by decide)
      · exact absurd h (by decide)
      · exact absurd (hhex _ h) (by decide)
  have hat : splitOnce '@' (card.dialectId ++ '@' :: dec card.version.val) =
      some (card.dialectId, dec card.version.val) := by
    refine splitOnce_append _ fun h => ?_
    rcases mem_dialectId hcard h with h | h | h <;> exact absurd h (by decide)
  have hversion : byteLen (dec card.version.val) ≤ 10 :=
    byteLen_dec_le (by decide) (lt_of_lt_of_le card.version.isLt (by decide))
  have hbytes : byteLen (card.sha256.take codebookPrefixLen) = codebookPrefixLen := by
    rw [byteLen_eq_length fun c hc => toNat_lt_of_isLowerHex (hhex c hc), hlen]
  have hnot : ¬ (¬ validDialectId card.dialectId = true ∨ dec card.version.val = [] ∨
      10 < byteLen (dec card.version.val) ∨ ¬ (dec card.version.val).all Char.isDigit = true) := by
    simp only [hcard.dialectId, not_true, dec_ne_nil, all_isDigit_dec, or_false, false_or, not_lt]
    exact hversion
  have hnot' : ¬ (byteLen (card.sha256.take codebookPrefixLen) ≠ codebookPrefixLen ∨
      ¬ (card.sha256.take codebookPrefixLen).all isLowerHex = true) := by
    simp only [hbytes, ne_eq, not_true, false_or, not_not, all_eq_true]
    exact hhex
  have hD : "D=" = ['D', '='] := by decide
  have hC : "C=" = ['C', '='] := by decide
  rw [parseHeader, hsplit]
  simp only [hD, hC, stripPrefix_append, hat, okOr_some, ok_bind, rejectIf_of_not hnot,
    rejectIf_of_not hnot', parseFin_dec, rejectIf_of_not hcard.version, ne_eq, not_true, not_false_iff,
    rejectIf_of_not, pure_eq_ok]

/-- The header line contains no control character. -/
theorem isControl_of_mem_headerLine (hcard : card.Valid) (h : c ∈ headerLine card) : isControl c = false := by
  have hall : (occ2Header ++ " D=" ++ "@" ++ " C=").all (fun c => !isControl c) = true := by decide
  have hliteral : ∀ c ∈ occ2Header ++ " D=" ++ "@" ++ " C=",
      isControl c = false := fun c hc => by simpa using all_eq_true.1 hall c hc
  simp only [mem_append] at hliteral
  simp only [headerLine, mem_append] at h
  rcases h with (((((h | h) | h) | h) | h) | h) | h
  · exact hliteral c (.inl (.inl (.inl h)))
  · exact hliteral c (.inl (.inl (.inr h)))
  · rcases mem_dialectId hcard h with h | h | rfl
    · exact isControl_of_isAsciiAlphanumeric (by simp [isAsciiAlphanumeric, h])
    · exact isControl_of_isAsciiAlphanumeric (by simp [isAsciiAlphanumeric, h])
    · decide
  · exact hliteral c (.inl (.inr h))
  · exact isControl_of_isAsciiAlphanumeric (by simp [isAsciiAlphanumeric, isDigit_of_mem_dec h])
  · exact hliteral c (.inr h)
  · have hhex := (codebook_ofCard hcard).2 c h
    refine isControl_of_isAsciiAlphanumeric ?_
    simp only [isLowerHex, Bool.or_eq_true, Bool.and_eq_true, decide_eq_true_eq] at hhex
    rcases hhex with hd | hl
    · simp [isAsciiAlphanumeric, hd]
    · have hlower : isAsciiLower c = true := by
        simp only [isAsciiLower, Bool.and_eq_true, decide_eq_true_eq]
        exact ⟨hl.1, hl.2.trans (by decide)⟩
      simp [isAsciiAlphanumeric, hlower]

/-! ### The lines of a symbolic text -/

variable [F32 R] {m : AgentCommMessage R}

/-- The lines of a symbolic text. -/
def symbolicLines (card : DialectCard) (m : AgentCommMessage R) : List Str :=
  headerLine card :: (symbolicFields card m).map (fieldLine card)

variable (h : Writable card m)

include h

/-- No line of a symbolic text contains a control character. -/
theorem notMem_of_mem_symbolicLines {l : Str} (hl : l ∈ symbolicLines card m) (hc : isControl c = true) : c ∉ l := by
  rcases mem_cons.1 hl with rfl | hl
  · intro hmem
    rw [isControl_of_mem_headerLine h.validCard hmem] at hc
    exact Bool.false_ne_true hc
  · obtain ⟨e, he, rfl⟩ := mem_map.1 hl
    exact notMem_fieldLine h.validCard (h.values e he) hc

/-- The lines of a symbolic text are the lines that were written. -/
theorem splitOn_symbolicText : (symbolicText card m).splitOn '\n' = symbolicLines card m :=
  splitOn_unlines (by simp) fun _ hl => notMem_of_mem_symbolicLines h hl (by decide)

/-- A symbolic text does not end in a newline. -/
theorem chopSuffix_symbolicText : chopSuffix '\n' (symbolicText card m) = symbolicText card m := by
  refine chopSuffix_unlines (fun _ hl => notMem_of_mem_symbolicLines h hl (by decide)) ?_
  rw [getLast?_cons, getLast?_map]
  obtain ⟨e, he⟩ := Option.isSome_iff_exists.1 (getLast?_isSome.2 (symbolicFields_ne_nil card m))
  rw [he]
  simp [fieldLine_ne_nil]

/-- No line of a symbolic text is the sentinel. -/
theorem isSentinel_of_mem_symbolicLines {l : Str}
    (hl : l ∈ symbolicLines card m) : isSentinel l = false := by
  have hchop : chopSuffix '\r' l = l := chopSuffix_of_notMem (notMem_of_mem_symbolicLines h hl (by decide))
  have hsentinel : occ2FallbackSentinel.head? = some '#' := by decide
  rw [isSentinel, hchop, decide_eq_false_iff_not]
  intro heq
  subst heq
  rcases mem_cons.1 hl with hl | hl
  · have hheader : occ2Header.head? = some 'O' := by decide
    simp only [hl, headerLine, head?_append, hheader, Option.some_or] at hsentinel
    exact absurd hsentinel (by decide)
  · obtain ⟨e, he, hline⟩ := mem_map.1 hl
    obtain ⟨c, hc, hupper⟩ := head?_key h.validCard e.1
    rw [← hline, fieldLine, head?_append, hc, Option.some_or, Option.some.injEq] at hsentinel
    subst hsentinel
    exact absurd hupper (by decide)

theorem splitFallback_symbolicText : splitFallback (symbolicText card m) = none := by
  have hdrop : ((symbolicText card m).splitOn '\n').dropWhile (fun line => !isSentinel line) = [] := by
    rw [splitOn_symbolicText h, dropWhile_eq_nil_iff]
    intro l hl
    rw [isSentinel_of_mem_symbolicLines h hl]
    rfl
  rw [splitFallback, hdrop]

end

end Occ2

end Occ
