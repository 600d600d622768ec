/-
**Evidence links on the wire.**

A finding names its evidence by id; on the wire and in the decoded message the same link is a
position.  Neither encoder checks that the id of an entry is its position: OCC-2 only asks that a
cited id spells some position, OCC-1 asks nothing.
-/

import OptimusAgent.Occ2RoundTrip
import OptimusAgent.ContractRead

namespace Occ

open Str Checked List

variable {R : Type}

/-! ### What a link refers to -/

/-- What an evidence entry says, apart from its id. -/
structure EvidenceContent where
  kind : Str
  locator : Str
  lineRange : Option (U32 × U32)
  digest : Option Str
  revision : Option Str
  verified : Option Bool
  deriving DecidableEq

/-- The content of an entry. -/
def EvidenceRef.content (e : EvidenceRef) : EvidenceContent :=
  ⟨e.kind, e.locator, e.lineRange, e.digest, e.revision, e.verified⟩

/-- The content of the entry that an id refers to. -/
def AgentCommMessage.resolve (m : AgentCommMessage R) (id : Str) : Option EvidenceContent :=
  (m.evidence.find? fun e => e.id = id).map EvidenceRef.content

/-- The findings of the two messages refer to the same evidence, in the same order. -/
structure LinksKept (m m' : AgentCommMessage R) : Prop where
  length : m'.findings.length = m.findings.length
  links : ∀ (i : ℕ) f f', m.findings[i]? = some f → m'.findings[i]? = some f' →
    f'.evidence.map m'.resolve = f.evidence.map m.resolve

/-- The reference `r` spells the position of an entry with the content that `id` refers to. -/
def Spells (m : AgentCommMessage R) (r id : Str) : Prop :=
  ∃ n e, refNumber m.evidence.length r = some n ∧ m.evidence[n - 1]? = some e ∧ m.resolve id = some e.content

/-- The references of every finding, taken apart as the wire does it, spell the positions of what
its evidence ids refer to. -/
def LinksSpelled (split : List Str → List Str) (m : AgentCommMessage R) : Prop :=
  ∀ f ∈ m.findings, Forall₂ (Spells m) (split f.evidence) f.evidence

/-! ### Links of an image -/

theorem evidenceId_injective : Function.Injective evidenceId := by
  intro a b h
  exact dec_injective (append_cancel_left h)

/-- Under its positional id every entry is found. -/
theorem find?_numbered {l : List EvidenceRef} {i : ℕ} {e : EvidenceRef} (h : l[i]? = some e) :
    (numbered l).find? (fun x => x.id = evidenceId (i + 1)) = some { e with id := evidenceId (i + 1) } := by
  have hi : (numbered l)[i]? = some { e with id := evidenceId (i + 1) } := by
    rw [getElem?_numbered, h, Option.map_some]
  obtain ⟨hlt, hget⟩ := List.getElem?_eq_some_iff.1 hi
  refine List.find?_eq_some_iff_getElem.2 ⟨by simp, i, hlt, hget, fun j hj => ?_⟩
  -- the entries before it have other numbers
  have hjlt : j < l.length := by
    rw [length_numbered] at hlt
    omega
  have hjget : (numbered l)[j]? = some { l[j] with id := evidenceId (j + 1) } := by
    rw [getElem?_numbered, List.getElem?_eq_getElem hjlt, Option.map_some]
  rw [(List.getElem?_eq_some_iff.1 hjget).2]
  simp only [Bool.not_eq_true', decide_eq_false_iff_not]
  intro heq
  have := evidenceId_injective heq
  omega

variable [F32 R] {split : List Str → List Str} {m m' : AgentCommMessage R}

/-- A positional id of a decoded message refers to the entry at that position. -/
theorem WireImage.resolve_evidenceId (h : WireImage split m m') {i : ℕ} {e : EvidenceRef}
    (he : m.evidence[i]? = some e) : m'.resolve (evidenceId (i + 1)) = some e.content := by
  rw [AgentCommMessage.resolve, h.evidence, find?_numbered he]
  rfl

/-- The links of one finding. -/
theorem WireImage.map_resolve_eq_iff (h : WireImage split m m') {references ids : List Str}
    {numbers : List ℕ} (hnames : Names m.evidence.length references numbers) :
    (numbers.map evidenceId).map m'.resolve = ids.map m.resolve ↔ Forall₂ (Spells m) references ids := by
  -- both sides compare the lists entry by entry
  induction hnames generalizing ids with
  | nil => cases ids <;> simp
  | @cons r n references numbers hr _ ih =>
    obtain ⟨h₁, hn, -⟩ := refNumber_bounds hr
    obtain ⟨i, rfl⟩ : ∃ i, n = i + 1 := ⟨n - 1, by omega⟩
    have hlt : i < m.evidence.length := by omega
    have hget := getElem?_eq_getElem hlt
    cases ids with
    | nil => simp
    | cons id ids =>
      rw [map_cons, map_cons, map_cons, cons.injEq, ih, forall₂_cons, h.resolve_evidenceId hget]
      refine and_congr_left fun _ => ?_
      constructor
      · intro hid
        exact ⟨i + 1, _, hr, hget, hid.symm⟩
      · rintro ⟨n, e, hn, he, hid⟩
        rw [hr, Option.some.injEq] at hn
        subst hn
        rw [Nat.add_sub_cancel, hget, Option.some.injEq] at he
        rw [hid, he]

/-- The links of a message survive exactly when they are spelled. -/
theorem WireImage.linksKept_iff (h : WireImage split m m') : LinksKept m m' ↔ LinksSpelled split m := by
  constructor
  · intro hk f hf
    obtain ⟨i, hi⟩ := mem_iff_getElem?.1 hf
    have hlt : i < m'.findings.length := by
      rw [h.length]
      exact (List.getElem?_eq_some_iff.1 hi).1
    have hi' := List.getElem?_eq_getElem hlt
    obtain ⟨numbers, hnames, he⟩ := (h.finding i f _ hi hi').evidence
    rw [← h.map_resolve_eq_iff hnames, ← he]
    exact hk.links i f _ hi hi'
  · intro hs
    refine ⟨h.length, fun i f f' hf hf' => ?_⟩
    obtain ⟨numbers, hnames, he⟩ := (h.finding i f f' hf hf').evidence
    rw [he, h.map_resolve_eq_iff hnames]
    exact hs f (mem_of_getElem? hf)

/-! ### Both encodings -/

/-- The OCC-1 decoder takes references that name entries apart correctly, however they are
spelled. -/
theorem occ1Split_of_references {count : ℕ} {ids : List Str}
    (h : ∀ id ∈ ids, (refNumber count id).isSome = true) : occ1Split ids = ids := by
  refine occ1Split_of_spelled fun id hid => ?_
  obtain ⟨n, hn⟩ := Option.isSome_iff_exists.1 (h id hid)
  obtain ⟨digits, hstrip, hparse⟩ := Option.bind_eq_some_iff.1 (Option.filter_eq_some_iff.1 hn).1
  exact ⟨digits, stripPrefix_eq_some_iff.1 hstrip, fun _ => isDigit_of_parseUnsigned hparse⟩

theorem WireImage.congr {split split' : List Str → List Str}
    (hsplit : ∀ f ∈ m.findings, split f.evidence = split' f.evidence) (h : WireImage split m m') :
    WireImage split' m m' := by
  refine ⟨h.rest, h.length, fun i f f' hf hf' => ?_, h.evidence⟩
  obtain ⟨hid, hstatement, hconfidence, hevidence⟩ := h.finding i f f' hf hf'
  rw [hsplit f (mem_of_getElem? hf)] at hevidence
  exact ⟨hid, hstatement, hconfidence, hevidence⟩

section

variable [Host]

/-- What the OCC-1 path gives back is the image of the message. -/
theorem wireImage_of_occ1 {w w' : Occ1Message} {t : Str} (hw : m.toOcc1 = .ok w)
    (ht : w.encode = .ok t) (hw' : Occ1Message.decode t = .ok w')
    (hm' : AgentCommMessage.fromOcc1 w' = .ok m') : WireImage occ1Split m m' := by
  obtain ⟨hv, rfl⟩ := AgentCommMessage.toOcc1_eq_ok_iff.1 hw
  rw [Occ1Message.decode_of_encode ht, Except.ok.injEq] at hw'
  subst hw'
  have hcount : m.fields.length ≤ 128 := (Occ1Message.encode_eq_ok_iff.1 ht).1.count
  have hwire : (m.wireFields occ1Format).length ≤ 128 := by
    simpa only [m.fields_eq_wireFields, length_map] using hcount
  exact ((fromOcc1_fields hv (fits_of_length hwire)).1 hm').1

/-- What the OCC-2 path gives back is the image of the message. -/
theorem wireImage_of_occ2 [LawfulHost] {card : DialectCard} {registry : DialectRegistry} {t : Str}
    (hreg : registry.get card.dialectId card.version = some card)
    (ht : Occ2.encode m card = .ok t) (hm' : Occ2.decode t registry = .ok m') :
    WireImage id m m' := by
  obtain ⟨h, ht⟩ := Occ2.encodeSymbolic_eq_ok_iff.1 ht
  rw [ht] at hm'
  exact ((Occ2.decode_symbolicText_iff h hreg).1 hm').1

/-- **Evidence links on the wire.**  When a message is encoded and decoded again, on the OCC-1 path
or on the OCC-2 path under a registered card, its findings refer to the same evidence exactly when
every cited id spells the position of an entry with the content it refers to; in every other case
the links are changed without an error. -/
theorem linksKept_iff_linksSpelled [LawfulHost] :
    (∀ w t w', m.toOcc1 = .ok w → w.encode = .ok t → Occ1Message.decode t = .ok w' →
      AgentCommMessage.fromOcc1 w' = .ok m' → (LinksKept m m' ↔ LinksSpelled occ1Split m)) ∧
    ∀ (card : DialectCard) (registry : DialectRegistry) t,
      registry.get card.dialectId card.version = some card → Occ2.encode m card = .ok t →
        Occ2.decode t registry = .ok m' → (LinksKept m m' ↔ LinksSpelled id m) := by
  constructor
  · intro w t w' hw ht hw' hm'
    exact (wireImage_of_occ1 hw ht hw' hm').linksKept_iff
  · intro card registry t hreg ht hm'
    exact (wireImage_of_occ2 hreg ht hm').linksKept_iff

/-- **Both encodings give back the same message**: what OCC-2 accepts, with whatever ids, is decoded
to one message on both paths, or is refused on both. -/
theorem decode_eq_ok_iff_fromOcc1 [LawfulHost] {card : DialectCard} {registry : DialectRegistry}
    {w : Occ1Message} {t : Str} (hreg : registry.get card.dialectId card.version = some card)
    (ht : Occ2.encode m card = .ok t) (hw : m.toOcc1 = .ok w) :
    Occ2.decode t registry = .ok m' ↔ AgentCommMessage.fromOcc1 w = .ok m' := by
  obtain ⟨h, ht⟩ := Occ2.encodeSymbolic_eq_ok_iff.1 ht
  obtain ⟨hv, hw⟩ := AgentCommMessage.toOcc1_eq_ok_iff.1 hw
  have hsplit := fun f hf => occ1Split_of_references (h.references f hf)
  rw [ht, hw, Occ2.decode_symbolicText_iff h hreg, fromOcc1_fields hv (fits_of_length h.count)]
  exact and_congr_left' ⟨.congr fun f hf => (hsplit f hf).symm, .congr hsplit⟩

end

section

open Sample

/-- The second entry has the id that spells the first position. -/
def swappedMessage : AgentCommMessage Tenths :=
  { (AgentCommMessage.new "RESULT" "t1" "done" : AgentCommMessage Tenths) with
    findings := [⟨"F1", "lock held", none, ["E1"]⟩]
    evidence := [⟨"E2", "file", "src/lib.rs", none, none, none, none⟩, ⟨"E1", "log", "suite", none, none, none, none⟩] }

/-- The message that is read back: the finding now cites the other entry. -/
def swappedRead : AgentCommMessage Tenths :=
  { (AgentCommMessage.new "RESULT" "t1" "done" : AgentCommMessage Tenths) with
    findings := [⟨"F1", "lock held", none, ["E1"]⟩]
    evidence := [⟨"E1", "file", "src/lib.rs", none, none, none, none⟩, ⟨"E2", "log", "suite", none, none, none, none⟩] }

theorem wireImage_swappedMessage : WireImage id swappedMessage swappedRead where
  rest := rfl
  length := rfl
  finding i f f' hf hf' := by
    match i with
    | 0 =>
      obtain rfl := Option.some.inj hf
      obtain rfl := Option.some.inj hf'
      exact ⟨by decide, rfl, .inl ⟨rfl, rfl⟩, [1], forall₂_cons.2 ⟨by decide, Forall₂.nil⟩, by decide⟩
    | i + 1 => exact absurd hf (by simp [swappedMessage])
  evidence := by decide

theorem writable_swappedMessage : Occ2.Writable DialectCard.symV1 swappedMessage where
  validCard := DialectCard.symV1_valid
  validMessage := AgentCommMessage.validate_eq_ok_iff.1 (by decide : swappedMessage.validate = .ok ())
  references := by decide
  values := by
    have h : ∀ e ∈ Occ2.symbolicFields DialectCard.symV1 swappedMessage,
        hasControl e.2 = false ∧ byteLen e.2 ≤ 4096 := by
      decide
    exact fun e he => ⟨(h e he).1, (h e he).2⟩
  count := by decide
  size := by decide +kernel

theorem decode_swappedMessage {registry : DialectRegistry}
    (hreg : registry.get DialectCard.symV1.dialectId DialectCard.symV1.version = some DialectCard.symV1) :
    Occ2.decode (Occ2.symbolicText DialectCard.symV1 swappedMessage) registry = .ok swappedRead := by
  have hread : swappedRead.validate = .ok () := by decide
  exact (Occ2.decode_symbolicText_iff writable_swappedMessage hreg).2
    ⟨wireImage_swappedMessage, AgentCommMessage.validate_eq_ok_iff.1 hread⟩

theorem encode_fields_swappedMessage : (⟨swappedMessage.fields⟩ : Occ1Message).encode =
      .ok (unlines ("OCC/1" :: swappedMessage.fields.map fieldLine)) := by
  decide

theorem fromOcc1_swappedMessage : AgentCommMessage.fromOcc1 ⟨swappedMessage.fields⟩ = .ok swappedRead := by decide

/-- Both encoders accept this message, both decoders accept the text, and the finding that cited the
log cites the source file afterwards. -/
theorem swappedMessage_links_changed : swappedMessage.validate = .ok () ∧
      (∃ w t w', swappedMessage.toOcc1 = .ok w ∧ w.encode = .ok t ∧
        Occ1Message.decode t = .ok w' ∧ AgentCommMessage.fromOcc1 w' = .ok swappedRead) ∧
      (∃ registry t, DialectRegistry.new.insert DialectCard.symV1 = .ok registry ∧
        Occ2.encode swappedMessage DialectCard.symV1 = .ok t ∧
        Occ2.decode t registry = .ok swappedRead) ∧
      ¬ LinksKept swappedMessage swappedRead := by
  have hvalid := writable_swappedMessage.validMessage
  obtain ⟨registry, hinsert, hget⟩ := DialectRegistry.new.exists_insert DialectCard.symV1_valid rfl
  refine ⟨AgentCommMessage.validate_eq_ok_iff.2 hvalid,
    ⟨_, _, _, AgentCommMessage.toOcc1_eq_ok_iff.2 ⟨hvalid, rfl⟩, encode_fields_swappedMessage,
      Occ1Message.decode_of_encode encode_fields_swappedMessage, fromOcc1_swappedMessage⟩,
    ⟨registry, _, hinsert, Occ2.encodeSymbolic_eq_ok_iff.2 ⟨writable_swappedMessage, rfl⟩,
      decode_swappedMessage hget⟩, ?_⟩
  intro hk
  have hlinks := hk.links 0 _ _ rfl rfl
  revert hlinks
  decide

theorem linksKept_iff_linksSpelled_swappedMessage : LinksKept swappedRead swappedRead ∧
    ¬ LinksKept swappedMessage swappedRead := by
  have hread : swappedRead.validate = .ok () := by decide
  have hvalid := AgentCommMessage.validate_eq_ok_iff.1 hread
  obtain ⟨registry, -, hget⟩ := DialectRegistry.new.exists_insert DialectCard.symV1_valid rfl
  have hencode : (⟨swappedRead.fields⟩ : Occ1Message).encode =
      .ok (unlines ("OCC/1" :: swappedRead.fields.map fieldLine)) := by decide
  have hspelled : LinksSpelled occ1Split swappedRead := by
    intro f hf
    obtain rfl := mem_singleton.1 hf
    exact forall₂_cons.2 ⟨⟨1, _, by decide, rfl, by decide⟩, .nil⟩
  refine ⟨(linksKept_iff_linksSpelled.1 _ _ _ (AgentCommMessage.toOcc1_eq_ok_iff.2 ⟨hvalid, rfl⟩) hencode
    (Occ1Message.decode_of_encode hencode) (by decide)).2 hspelled, fun hkept => ?_⟩
  have hswapped := (linksKept_iff_linksSpelled.2 _ _ _ hget
    (Occ2.encodeSymbolic_eq_ok_iff.2 ⟨writable_swappedMessage, rfl⟩) (decode_swappedMessage hget)).1 hkept
  obtain ⟨⟨n, e, hn, he, hid⟩, -⟩ := forall₂_cons.1 (hswapped _ (mem_singleton_self _))
  obtain rfl : n = 1 := Option.some.inj (hn.symm.trans (by decide))
  cases he
  exact absurd hid (by decide)

theorem decode_eq_ok_iff_fromOcc1_swappedMessage : ∃ registry t w,
      DialectRegistry.new.insert DialectCard.symV1 = .ok registry ∧
      Occ2.encode swappedMessage DialectCard.symV1 = .ok t ∧ swappedMessage.toOcc1 = .ok w ∧
        Occ2.decode t registry = .ok swappedRead := by
  obtain ⟨registry, hinsert, hget⟩ := DialectRegistry.new.exists_insert DialectCard.symV1_valid rfl
  have ht := Occ2.encodeSymbolic_eq_ok_iff.2 ⟨writable_swappedMessage, rfl⟩
  have hw := AgentCommMessage.toOcc1_eq_ok_iff.2 ⟨writable_swappedMessage.validMessage, rfl⟩
  exact ⟨registry, _, _, hinsert, ht, hw, (decode_eq_ok_iff_fromOcc1 hget ht hw).2 fromOcc1_swappedMessage⟩

end

end Occ
