/-
**Replacing texts in a file's content.**

The edit tool finds the old text of each edit in the content, as it is or, failing that, up to
blanks, quotes and dashes, and refuses edits that are not found, found more than once, or
overlapping.  Positions are counted in UTF-16 code units of the content before any edit, and the
replacements are made from the last one to the first, so that positions still to be used stay valid.
-/

import OptimusAgent.Text
import OptimusAgent.Checked
import OptimusAgent.Utf16
import OptimusAgent.Splice

namespace Tools

open Str Checked List Splice

/-! ### Line ends -/

inductive LineEnding where
  | crlf
  | lf
  deriving DecidableEq, Repr

def LineEnding.asStr : LineEnding → Str
  | .crlf => "\r\n"
  | .lf => "\n"

/-- The line end that the first newline of the content belongs to. -/
def detectLineEnding (content : Str) : LineEnding :=
  match textBefore "\n" content, textBefore "\r\n" content with
  | some lf, some crlf => if byteLen crlf < byteLen lf then .crlf else .lf
  | _, _ => .lf

/-- `text.replace("\r\n", "\n")`. -/
def replaceCrlf : Str → Str
  | [] => []
  | [c] => [c]
  | c :: d :: s => if c = '\r' ∧ d = '\n' then '\n' :: replaceCrlf s else c :: replaceCrlf (d :: s)

def normalizeToLf (text : Str) : Str := (replaceCrlf text).map fun c => if c = '\r' then '\n' else c

def restoreLineEndings (text : Str) : LineEnding → Str
  | .crlf => text.flatMap fun c => if c = '\n' then ['\r', '\n'] else [c]
  | .lf => text

/-! ### Finding a text -/

/-- The characters of a class are replaced by one character. -/
def replaceClass (inClass : ℕ → Bool) (c : Char) (text : Str) : Str :=
  text.map fun x => if inClass x.toNat then c else x

def isSmartSingleQuote (n : ℕ) : Bool := 0x2018 ≤ n && n ≤ 0x201B

def isSmartDoubleQuote (n : ℕ) : Bool := 0x201C ≤ n && n ≤ 0x201F

def isUnicodeDash (n : ℕ) : Bool := (0x2010 ≤ n && n ≤ 0x2015) || n == 0x2212

def isUnicodeSpace (n : ℕ) : Bool :=
  n == 0x00A0 || (0x2002 ≤ n && n ≤ 0x200A) || n == 0x202F || n == 0x205F || n == 0x3000

/-- The text up to blanks at line ends, quotes, dashes and spaces. -/
def normalizeForFuzzyMatch (text : Str) : Str :=
  let trimmed := unlines ((text.splitOn '\n').map fun line => line.rdropWhile isWhitespace)
  let trimmed := replaceClass isSmartSingleQuote (Char.ofNat 0x27) trimmed
  let trimmed := replaceClass isSmartDoubleQuote (Char.ofNat 0x22) trimmed
  let trimmed := replaceClass isUnicodeDash '-' trimmed
  replaceClass isUnicodeSpace ' ' trimmed

structure Edit where
  oldText : Str
  newText : Str
  deriving DecidableEq, Repr

structure FuzzyMatchResult where
  found : Bool
  index : ℤ
  matchLength : ℕ
  usedFuzzyMatch : Bool
  contentForReplacement : Str

/-- The number of UTF-16 code units of a text. -/
def utf16Len (text : Str) : ℕ := (Utf16.encode text).length

/-- The text as it is first, then up to blanks, quotes and dashes. -/
def fuzzyFindText (content oldText : Str) : FuzzyMatchResult :=
  match textBefore oldText content with
  | some before => ⟨true, utf16Len before, utf16Len oldText, false, content⟩
  | none =>
    let fuzzyContent := normalizeForFuzzyMatch content
    let fuzzyOldText := normalizeForFuzzyMatch oldText
    match textBefore fuzzyOldText fuzzyContent with
    | none => ⟨false, -1, 0, false, content⟩
    | some before => ⟨true, utf16Len before, utf16Len fuzzyOldText, true, fuzzyContent⟩

/-- The text between two UTF-16 indices; `none` is the largest index. -/
def sliceByIndex (text : Str) (start : ℕ) (stop : Option ℕ) : Str :=
  let units := Utf16.encode text
  let stop := (stop.map fun s => min s units.length).getD units.length
  Utf16.decodeLossy ((units.take stop).drop (min start stop))

def countMatchesFrom (v : Str) : ℕ → Str → ℕ
  | 0, _ => 0
  | _ + 1, [] => 0
  | fuel + 1, x :: s =>
    if v <+: x :: s then 1 + countMatchesFrom v fuel ((x :: s).drop v.length)
    else countMatchesFrom v fuel s

/-- The number of matches that do not overlap: `str::matches`. -/
def countMatches (v s : Str) : ℕ := countMatchesFrom v s.length s

def countOccurrences (content oldText : Str) : ℕ :=
  let fuzzyContent := normalizeForFuzzyMatch content
  let fuzzyOldText := normalizeForFuzzyMatch oldText
  if fuzzyOldText.isEmpty then utf16Len fuzzyContent else countMatches fuzzyOldText fuzzyContent

/-! ### Applying edits -/

structure MatchedEdit where
  editIndex : ℕ
  matchIndex : ℤ
  matchLength : ℕ
  newText : Str

structure AppliedEditsResult where
  baseContent : Str
  newContent : Str
  deriving DecidableEq, Repr

def getNotFoundError (path : Str) (editIndex totalEdits : ℕ) : Str :=
  if totalEdits = 1 then
    "Could not find the exact text in " ++ path ++
      ". The old text must match exactly including all whitespace and newlines."
  else
    "Could not find edits[" ++ dec editIndex ++ "] in " ++ path ++
      ". The oldText must match exactly including all whitespace and newlines."

def getDuplicateError (path : Str) (editIndex totalEdits occurrences : ℕ) : Str :=
  if totalEdits = 1 then
    "Found " ++ dec occurrences ++ " occurrences of the text in " ++ path ++
      ". The text must be unique. Please provide more context to make it unique."
  else
    "Found " ++ dec occurrences ++ " occurrences of edits[" ++ dec editIndex ++ "] in " ++ path ++
      ". Each oldText must be unique. Please provide more context to make it unique."

def getEmptyOldTextError (path : Str) (editIndex totalEdits : ℕ) : Str :=
  if totalEdits = 1 then "oldText must not be empty in " ++ path ++ "."
  else
    "edits[" ++ dec editIndex ++ "].oldText must not be empty in " ++ path ++ "."

def getNoChangeError (path : Str) (totalEdits : ℕ) : Str :=
  if totalEdits = 1 then
    "No changes made to " ++ path ++ (". The replacement produced identical content. This might " ++
      "indicate an issue with special characters or the text not existing as expected." : Str)
  else "No changes made to " ++ path ++ ". The replacements produced identical content."

def getOverlapError (path : Str) (previous current : MatchedEdit) : Str :=
  "edits[" ++ dec previous.editIndex ++ "] and edits[" ++ dec current.editIndex ++
    "] overlap in " ++ path ++ ". Merge them into one edit or target disjoint regions."

def normalizeEdit (edit : Edit) : Edit := ⟨normalizeToLf edit.oldText, normalizeToLf edit.newText⟩

/-- One edit is matched against the content. -/
def matchEdit (baseContent path : Str) (totalEdits : ℕ) (edit : Edit × ℕ) : Except Str MatchedEdit := do
  let matchResult := fuzzyFindText baseContent edit.1.oldText
  rejectIf (matchResult.found = false) (getNotFoundError path edit.2 totalEdits)
  let occurrences := countOccurrences baseContent edit.1.oldText
  rejectIf (1 < occurrences) (getDuplicateError path edit.2 totalEdits occurrences)
  return ⟨edit.2, matchResult.index, matchResult.matchLength, edit.1.newText⟩

/-- The first match that reaches into the next one, with that one. -/
def firstOverlap : List MatchedEdit → Option (MatchedEdit × MatchedEdit)
  | previous :: current :: rest =>
    if current.matchIndex < previous.matchIndex + previous.matchLength then some (previous, current)
    else firstOverlap (current :: rest)
  | _ => none

/-- One match is replaced in the content. -/
def replaceOne (edit : MatchedEdit) (content : Str) : Str :=
  let start := edit.matchIndex.toNat
  sliceByIndex content 0 (some start) ++ edit.newText ++ sliceByIndex content (start + edit.matchLength) none

/-- The sorted matches are replaced, from the last one to the first. -/
def replaceMatched (baseContent path : Str) (totalEdits : ℕ) (matchedEdits : List MatchedEdit) :
    Except Str AppliedEditsResult :=
  match firstOverlap matchedEdits with
  | some (previous, current) => .error (getOverlapError path previous current)
  | none =>
    let newContent := matchedEdits.foldr replaceOne baseContent
    if baseContent = newContent then .error (getNoChangeError path totalEdits)
    else .ok ⟨baseContent, newContent⟩

/-- The matches in the order of their places: a stable sort by key. -/
def sortMatches (matchedEdits : List MatchedEdit) : List MatchedEdit :=
  matchedEdits.insertionSort fun a b => a.matchIndex ≤ b.matchIndex

def applyEditsToNormalizedContent (normalizedContent : Str) (edits : List Edit) (path : Str) :
    Except Str AppliedEditsResult := do
  let normalizedEdits := edits.map normalizeEdit
  let totalEdits := normalizedEdits.length
  forM normalizedEdits.zipIdx fun edit =>
    rejectIf (edit.1.oldText = []) (getEmptyOldTextError path edit.2 totalEdits)
  let initialMatches := normalizedEdits.map fun edit => fuzzyFindText normalizedContent edit.oldText
  let baseContent :=
    if initialMatches.any (·.usedFuzzyMatch) then normalizeForFuzzyMatch normalizedContent
    else normalizedContent
  let matchedEdits ← normalizedEdits.zipIdx.mapM (matchEdit baseContent path totalEdits)
  replaceMatched baseContent path totalEdits (sortMatches matchedEdits)

/-! ### First occurrences -/

/-- The text before the first occurrence of the old text. -/
def found (content : Str) (edit : Edit) : Str := (textBefore edit.oldText content).getD []

variable {content base path : Str} {total : ℕ} {result : AppliedEditsResult} {edits : List Edit}

theorem isFirst_found {edit : Edit} (h : edit.oldText <:+: content) :
    textBefore edit.oldText content = some (found content edit) ∧
      IsFirst edit.oldText content (found content edit) := by
  obtain ⟨before, hb⟩ := exists_textBefore h
  have hfound : found content edit = before := by rw [found, hb, Option.getD_some]
  rw [hfound]
  exact ⟨hb, isFirst_of_textBefore hb⟩

/-! ### Places in UTF-16 -/

@[simp] theorem utf16Len_append (s t : Str) : utf16Len (s ++ t) = utf16Len s + utf16Len t := by
  rw [utf16Len, utf16Len, utf16Len, Utf16.encode_append, length_append]

theorem utf16Len_eq_zero {s : Str} (h : utf16Len s = 0) : s = [] := by
  cases s with
  | nil => rfl
  | cons c s =>
    have hunits : 0 < (Utf16.units c).length := by
      unfold Utf16.units
      split_ifs <;> simp
    rw [utf16Len, Utf16.encode_cons, length_append] at h
    omega

theorem sliceByIndex_left (s t : Str) : sliceByIndex (s ++ t) 0 (some (utf16Len s)) = s := by
  rw [sliceByIndex, Option.map_some, Option.getD_some, Utf16.encode_append, length_append, ← utf16Len,
    Nat.min_eq_left (Nat.le_add_right _ _), Nat.zero_min, drop_zero, utf16Len, take_left,
    Utf16.decodeLossy_encode]

theorem sliceByIndex_right (s t : Str) : sliceByIndex (s ++ t) (utf16Len s) none = t := by
  rw [sliceByIndex, Option.map_none, Option.getD_none, take_length, Utf16.encode_append, length_append,
    ← utf16Len, Nat.min_eq_left (Nat.le_add_right _ _), utf16Len, drop_left,
    Utf16.decodeLossy_encode]

/-- Of two texts in front of the same text, the one with fewer units is in front of the other. -/
theorem prefix_of_utf16Len_le {s a b : Str} (ha : a <+: s) (hb : b <+: s) (h : utf16Len a ≤ utf16Len b) : a <+: b := by
  rcases prefix_or_prefix_of_prefix ha hb with hab | ⟨t, rfl⟩
  · exact hab
  · rw [utf16Len_append] at h
    rw [utf16Len_eq_zero (by omega : utf16Len t = 0), append_nil]

theorem replaceOne_eq {edit : MatchedEdit} {before old after : Str}
    (hindex : edit.matchIndex = utf16Len before) (hlength : edit.matchLength = utf16Len old) :
    replaceOne edit (before ++ old ++ after) = before ++ edit.newText ++ after := by
  rw [replaceOne, hindex, hlength, Int.toNat_natCast, ← utf16Len_append, sliceByIndex_right,
    append_assoc before old, sliceByIndex_left]

/-! ### Replacing all at once -/

/-- The match of an edit whose old text occurs as it is. -/
def toMatched (content : Str) (edit : Edit × ℕ) : MatchedEdit :=
  ⟨edit.2, utf16Len (found content edit.1), utf16Len edit.1.oldText, edit.1.newText⟩

/-- The matches do not overlap and come in the order of the text, from some place on. -/
def InOrder (content : Str) : ℕ → List (Edit × ℕ) → Prop
  | _, [] => True
  | start, edit :: rest =>
    start ≤ utf16Len (found content edit.1) ∧
      InOrder content (utf16Len (found content edit.1) + utf16Len edit.1.oldText) rest

/-- **Replacing from the last match to the first replaces all of them at once.** -/
theorem exists_regions {front rest : Str} {spots : List (Edit × ℕ)}
    (hoccurs : ∀ edit ∈ spots, edit.1.oldText <:+: content) (hcontent : content = front ++ rest)
    (horder : InOrder content (utf16Len front) spots) :
    ∃ (regions : List (Region Char)) (last : Str), (regions.map fun r => (⟨r.old, r.new⟩ : Edit)) = spots.map Prod.fst ∧
      rest = source regions last ∧
      (spots.map (toMatched content)).foldr replaceOne content = front ++ target regions last ∧
      ∀ (xs : List (Region Char)) (r : Region Char) (ys : List (Region Char)),
        regions = xs ++ r :: ys → IsFirst r.old content (front ++ source xs r.gap) := by
  induction spots generalizing front rest with
  | nil =>
    refine ⟨[], rest, rfl, rfl, hcontent, fun xs r ys h => ?_⟩
    simp at h
  | cons edit spots ih =>
    rw [forall_mem_cons] at hoccurs
    obtain ⟨hstart, horder⟩ := horder
    obtain ⟨-, hfirst⟩ := isFirst_found hoccurs.1
    obtain ⟨after, hafter⟩ := hfirst.1
    -- The match lies behind the text in front.
    obtain ⟨gap, hgap⟩ : front <+: found content edit.1 :=
      prefix_of_utf16Len_le ⟨rest, hcontent.symm⟩ ⟨edit.1.oldText ++ after, by
        rw [← append_assoc, ← hafter]⟩ hstart
    rw [← hgap] at hafter hfirst
    have hrest : rest = gap ++ edit.1.oldText ++ after := by
      rw [hcontent, append_assoc, append_assoc] at hafter
      rw [append_cancel_left hafter, append_assoc]
    rw [← utf16Len_append, ← hgap] at horder
    obtain ⟨regions, last, hregions, hsource, htarget, hall⟩ := ih hoccurs.2 hafter horder
    refine ⟨⟨gap, edit.1.oldText, edit.1.newText⟩ :: regions, last, ?_, ?_, ?_, ?_⟩
    · rw [map_cons, map_cons, hregions]
    · rw [source_cons, ← hsource, hrest]
    · rw [map_cons, foldr_cons, htarget, target_cons, replaceOne_eq (by rw [toMatched, hgap]) rfl]
      simp [toMatched]
    · intro xs r ys h
      cases xs with
      | nil =>
        cases h
        exact hfirst
      | cons x xs =>
        rw [cons_append, cons_eq_cons] at h
        obtain ⟨rfl, h⟩ := h
        have hr := hall xs r ys h
        rw [source_cons]
        simpa only [append_assoc] using hr

/-! ### The order of the edits -/

/-- What is replaced, apart from the number of the edit. -/
def MatchedEdit.strip (edit : MatchedEdit) : ℤ × ℕ × Str := (edit.matchIndex, edit.matchLength, edit.newText)

theorem firstOverlap_eq_none_iff {l : List MatchedEdit} : firstOverlap l = none ↔
      (l.map MatchedEdit.strip).IsChain fun a b => a.1 + (a.2.1 : ℤ) ≤ b.1 := by
  induction l with
  | nil => simp [firstOverlap]
  | cons previous l ih =>
    cases l with
    | nil => simp [firstOverlap]
    | cons current rest =>
      rw [firstOverlap, map_cons, map_cons, isChain_cons_cons, ← map_cons, ← ih]
      split_ifs with h
      · exact iff_of_false (by simp) fun hand => absurd hand.1 (not_le.2 h)
      · exact (and_iff_right (not_lt.1 h)).symm

variable (l : List MatchedEdit)

theorem foldr_replaceOne (base : Str) : l.foldr replaceOne base =
      (l.map MatchedEdit.strip).foldr (fun x => replaceOne ⟨0, x.1, x.2.1, x.2.2⟩) base := by
  rw [foldr_map]
  rfl

theorem replaceMatched_eq_ok {l : List MatchedEdit} (hok : replaceMatched base path total l = .ok result) :
    firstOverlap l = none ∧ result = ⟨base, l.foldr replaceOne base⟩ := by
  unfold replaceMatched at hok
  cases hoverlap : firstOverlap l with
  | some pair =>
    rw [hoverlap] at hok
    cases hok
  | none =>
    rw [hoverlap] at hok
    dsimp only at hok
    split_ifs at hok
    cases hok
    exact ⟨rfl, rfl⟩

/-- The numbers of the edits do not matter for what is replaced. -/
theorem replaceMatched_congr {l l' : List MatchedEdit}
    (h : l.map MatchedEdit.strip = l'.map MatchedEdit.strip)
    (hok : replaceMatched base path total l = .ok result) :
    replaceMatched base path total l' = .ok result := by
  unfold replaceMatched at hok ⊢
  cases hoverlap : firstOverlap l with
  | some pair =>
    rw [hoverlap] at hok
    cases hok
  | none =>
    have hoverlap' : firstOverlap l' = none := by
      rw [firstOverlap_eq_none_iff] at hoverlap ⊢
      rwa [← h]
    rw [hoverlap] at hok
    rw [hoverlap']
    dsimp only at hok ⊢
    rw [foldr_replaceOne, h, ← foldr_replaceOne] at hok
    exact hok

theorem pairwise_sortMatches : (sortMatches l).Pairwise fun a b => a.matchIndex ≤ b.matchIndex := by
  have htotal : Std.Total fun a b : MatchedEdit => a.matchIndex ≤ b.matchIndex :=
    ⟨fun a b => le_total a.matchIndex b.matchIndex⟩
  have htrans : IsTrans MatchedEdit fun a b => a.matchIndex ≤ b.matchIndex := ⟨fun _ _ _ hab hbc => hab.trans hbc⟩
  exact pairwise_insertionSort _ l

theorem sortMatches_perm : (sortMatches l).Perm l := perm_insertionSort _ l

/-- **Matches that do not overlap are replaced in one way**, in whatever order they come. -/
theorem replaceMatched_perm {l l' : List MatchedEdit}
    (hperm : (l.map MatchedEdit.strip).Perm (l'.map MatchedEdit.strip))
    (hpos : ∀ edit ∈ l, 0 < edit.matchLength)
    (hok : replaceMatched base path total (sortMatches l) = .ok result) :
    replaceMatched base path total (sortMatches l') = .ok result := by
  have hsorted : ((sortMatches l).map MatchedEdit.strip).Perm ((sortMatches l').map MatchedEdit.strip) :=
    ((sortMatches_perm l).map _).trans (hperm.trans ((sortMatches_perm l').map _).symm)
  -- Matches that do not overlap begin at different places.
  have hapart : ((sortMatches l).map MatchedEdit.strip).Pairwise fun a b => a.1 < b.1 := by
    have hchain := firstOverlap_eq_none_iff.1 (replaceMatched_eq_ok hok).1
    have hlt : ((sortMatches l).map MatchedEdit.strip).IsChain fun a b => a.1 < b.1 := by
      refine hchain.imp_of_mem_imp fun a b ha _ hab => ?_
      obtain ⟨edit, hedit, rfl⟩ := mem_map.1 ha
      have hlength := hpos edit ((sortMatches_perm l).mem_iff.1 hedit)
      simp only [MatchedEdit.strip] at hab ⊢
      omega
    exact pairwise_map.1 ((isChain_map Prod.fst).2 hlt).pairwise
  have hsame : ∀ a b, a ∈ (sortMatches l).map MatchedEdit.strip →
      b ∈ (sortMatches l').map MatchedEdit.strip → a.1 ≤ b.1 → b.1 ≤ a.1 → a = b := by
    intro a b ha hb hab hba
    have hnodup : (((sortMatches l).map MatchedEdit.strip).map Prod.fst).Nodup := pairwise_map.2 (hapart.imp ne_of_lt)
    exact inj_on_of_nodup_map hnodup ha (hsorted.mem_iff.2 hb) (le_antisymm hab hba)
  have hle : ((sortMatches l).map MatchedEdit.strip).Pairwise fun a b => a.1 ≤ b.1 := hapart.imp le_of_lt
  have hle' : ((sortMatches l').map MatchedEdit.strip).Pairwise fun a b => a.1 ≤ b.1 :=
    pairwise_map.2 (pairwise_sortMatches l')
  exact replaceMatched_congr (List.Perm.eq_of_pairwise hsame hle hle' hsorted) hok

/-- Sorted matches are the matches of sorted edits. -/
theorem exists_sortMatches_map (content : Str) (edits : List (Edit × ℕ)) :
    ∃ sorted : List (Edit × ℕ), sorted.Perm edits ∧
      sortMatches (edits.map (toMatched content)) = sorted.map (toMatched content) := by
  refine ⟨edits.insertionSort fun a b => (toMatched content a).matchIndex ≤ (toMatched content b).matchIndex,
    perm_insertionSort _ _, ?_⟩
  rw [sortMatches, map_insertionSort _ (fun a b => a.matchIndex ≤ b.matchIndex) (toMatched content)]
  exact fun _ _ _ _ => Iff.rfl

theorem inOrder_of_firstOverlap {edits : List (Edit × ℕ)} {start : ℕ}
    (h : firstOverlap (edits.map (toMatched content)) = none)
    (hstart : ∀ edit ∈ edits.head?, start ≤ utf16Len (found content edit.1)) :
    InOrder content start edits := by
  induction edits generalizing start with
  | nil => trivial
  | cons edit edits ih =>
    refine ⟨hstart edit rfl, ih ?_ fun next hnext => ?_⟩
    · cases edits with
      | nil => rfl
      | cons next rest =>
        rw [map_cons, map_cons, firstOverlap] at h
        split_ifs at h
        exact h
    · cases edits with
      | nil => cases hnext
      | cons next' rest =>
        cases hnext
        rw [map_cons, map_cons, firstOverlap] at h
        split_ifs at h with hlt
        simp only [toMatched] at hlt
        omega

/-! ### The result -/

/-- The regions of the content are the first occurrences of the old texts, in the order of the
text. -/
structure Located (content : Str) (edits : List Edit) (regions : List (Region Char)) (last : Str) :
    Prop where
  perm : (regions.map fun r => (⟨r.old, r.new⟩ : Edit)).Perm (edits.map normalizeEdit)
  source : source regions last = content
  first : ∀ (xs : List (Splice.Region Char)) (r : Splice.Region Char) (ys : List (Splice.Region Char)),
    regions = xs ++ r :: ys → IsFirst r.old content (Splice.source xs r.gap)

theorem fuzzyFindText_of_occurs {edit : Edit} (h : edit.oldText <:+: content) : fuzzyFindText content edit.oldText =
      ⟨true, utf16Len (found content edit), utf16Len edit.oldText, false, content⟩ := by
  rw [fuzzyFindText, (isFirst_found h).1]

theorem matchEdit_of_occurs {edit : Edit × ℕ} {m : MatchedEdit} (h : edit.1.oldText <:+: content) :
    matchEdit content path total edit = .ok m ↔
      countOccurrences content edit.1.oldText ≤ 1 ∧ toMatched content edit = m := by
  unfold matchEdit
  rw [fuzzyFindText_of_occurs h]
  dsimp only
  rw [rejectIf_bind_eq_ok, rejectIf_bind_eq_ok, pure_eq_ok, Except.ok.injEq]
  simp [toMatched]

/-- The matches of edits that all occur. -/
theorem matched_of_forall₂ {edits : List (Edit × ℕ)}
    {ms : List MatchedEdit} (hall : ∀ edit ∈ edits, edit.1.oldText <:+: content)
    (h : List.Forall₂ (fun edit m => matchEdit content path total edit = .ok m) edits ms) :
    (∀ edit ∈ edits, countOccurrences content edit.1.oldText ≤ 1) ∧ ms = edits.map (toMatched content) := by
  induction h with
  | nil => exact ⟨by simp, rfl⟩
  | cons hm _ ih =>
    rw [forall_mem_cons] at hall
    obtain ⟨hcount, rfl⟩ := (matchEdit_of_occurs hall.1).1 hm
    obtain ⟨hcounts, rfl⟩ := ih hall.2
    exact ⟨forall_mem_cons.2 ⟨hcount, hcounts⟩, rfl⟩

theorem forall_mem_zipIdx_iff (P : Edit → Prop) :
    (∀ edit ∈ (edits.map normalizeEdit).zipIdx, P edit.1) ↔ ∀ e ∈ edits, P (normalizeEdit e) := by
  rw [← forall_mem_map (f := Prod.fst), zipIdx_map_fst, forall_mem_map]

section

variable (hoccurs : ∀ e ∈ edits, normalizeToLf e.oldText <:+: content)

include hoccurs

/-- When all old texts occur, an edit is refused for itself only: it is empty or not unique. -/
theorem applyEdits_eq_ok_iff :
    applyEditsToNormalizedContent content edits path = .ok result ↔
      (∀ e ∈ edits, normalizeToLf e.oldText ≠ [] ∧ countOccurrences content (normalizeToLf e.oldText) ≤ 1) ∧
      replaceMatched content path edits.length
        (sortMatches ((edits.map normalizeEdit).zipIdx.map (toMatched content))) = .ok result := by
  have hall : ∀ edit ∈ (edits.map normalizeEdit).zipIdx, edit.1.oldText <:+: content :=
    (forall_mem_zipIdx_iff fun edit => edit.oldText <:+: content).2 hoccurs
  have hexact : ((edits.map normalizeEdit).map fun edit => fuzzyFindText content edit.oldText).any
      (·.usedFuzzyMatch) = false := by
    rw [any_eq_false]
    intro m hm
    obtain ⟨edit, hedit, rfl⟩ := mem_map.1 hm
    obtain ⟨e, he, rfl⟩ := mem_map.1 hedit
    have hoccur : (normalizeEdit e).oldText <:+: content := hoccurs e he
    rw [fuzzyFindText_of_occurs hoccur]
    exact Bool.false_ne_true
  unfold applyEditsToNormalizedContent
  dsimp only
  rw [hexact, bind_eq_ok]
  simp only [Bool.false_eq_true, if_false, forM_eq_ok_iff, rejectIf_eq_ok, bind_eq_ok, mapM_eq_ok_iff, length_map]
  constructor
  · rintro ⟨-, hne, ms, hms, hok⟩
    obtain ⟨hcount, rfl⟩ := matched_of_forall₂ hall hms
    have hne' := (forall_mem_zipIdx_iff fun edit => edit.oldText ≠ []).1 hne
    have hcount' := (forall_mem_zipIdx_iff fun edit => countOccurrences content edit.oldText ≤ 1).1 hcount
    exact ⟨fun e he => ⟨hne' e he, hcount' e he⟩, hok⟩
  · rintro ⟨hpass, hok⟩
    have hne := (forall_mem_zipIdx_iff fun edit => edit.oldText ≠ []).2 fun e he => (hpass e he).1
    have hcount := (forall_mem_zipIdx_iff fun edit => countOccurrences content edit.oldText ≤ 1).2
      fun e he => (hpass e he).2
    refine ⟨(), hne, _, ?_, hok⟩
    rw [forall₂_map_right_iff, forall₂_same]
    exact fun edit hedit => (matchEdit_of_occurs (hall edit hedit)).2 ⟨hcount edit hedit, rfl⟩

omit hoccurs in
theorem strip_toMatched (content : Str) (edits : List Edit) :
    (edits.zipIdx.map (toMatched content)).map MatchedEdit.strip = edits.map fun edit =>
      ((utf16Len (found content edit) : ℤ), utf16Len edit.oldText, edit.newText) := by
  rw [map_map]
  conv_rhs => rw [← zipIdx_map_fst 0 edits, map_map]
  rfl

/-- The content with the first occurrences of the old texts replaced all at once. -/
theorem applyEdits_located (hok : applyEditsToNormalizedContent content edits path = .ok result) :
    result.baseContent = content ∧ ∃ (regions : List (Region Char)) (last : Str), Located content edits regions last ∧
        (∀ r ∈ regions, r.old ≠ []) ∧ result.newContent = target regions last := by
  obtain ⟨hpass, hok⟩ := (applyEdits_eq_ok_iff hoccurs).1 hok
  obtain ⟨hoverlap, rfl⟩ := replaceMatched_eq_ok hok
  -- The edits in the order of their places.
  obtain ⟨sorted, hperm, hsorted⟩ := exists_sortMatches_map content (edits.map normalizeEdit).zipIdx
  rw [hsorted] at hoverlap ⊢
  have hall : ∀ edit ∈ sorted, edit.1.oldText <:+: content := fun edit hedit =>
    (forall_mem_zipIdx_iff fun edit => edit.oldText <:+: content).2 hoccurs edit (hperm.mem_iff.1 hedit)
  obtain ⟨regions, last, hregions, hsource, htarget, hfirst⟩ :=
    exists_regions hall (nil_append content).symm (inOrder_of_firstOverlap hoverlap (by simp [utf16Len, Utf16.encode]))
  have hedits : (regions.map fun r => (⟨r.old, r.new⟩ : Edit)).Perm (edits.map normalizeEdit) := by
    rw [hregions]
    simpa using hperm.map Prod.fst
  refine ⟨rfl, regions, last, ⟨hedits, hsource.symm, hfirst⟩, fun r hr => ?_, htarget⟩
  obtain ⟨e, he, heq⟩ := mem_map.1 (hedits.mem_iff.1 (mem_map_of_mem hr))
  rw [← show (normalizeEdit e).oldText = r.old by rw [heq]]
  exact (hpass e he).1

theorem applyEdits_perm {edits' : List Edit} (hperm : edits'.Perm edits)
    (hok : applyEditsToNormalizedContent content edits path = .ok result) :
    applyEditsToNormalizedContent content edits' path = .ok result := by
  obtain ⟨hpass, hok⟩ := (applyEdits_eq_ok_iff hoccurs).1 hok
  have hmem : ∀ e ∈ edits', e ∈ edits := fun e he => hperm.mem_iff.1 he
  refine (applyEdits_eq_ok_iff fun e he => hoccurs e (hmem e he)).2 ⟨fun e he => hpass e (hmem e he), ?_⟩
  rw [hperm.length_eq]
  refine replaceMatched_perm ?_ ?_ hok
  · rw [strip_toMatched, strip_toMatched]
    exact (hperm.symm.map normalizeEdit).map _
  · intro m hm
    obtain ⟨edit, hedit, rfl⟩ := mem_map.1 hm
    have hne := (forall_mem_zipIdx_iff fun edit => edit.oldText ≠ []).2
      (fun e he => (hpass e he).1) edit hedit
    exact Nat.pos_of_ne_zero fun hzero => hne (utf16Len_eq_zero hzero)

end

/-- **The replacement is exact.**  The content is left as it is outside the first occurrences of the
old texts, these are replaced all at once, and the order of the edits does not matter. -/
theorem applyEdits_exact {content path : Str} {edits : List Edit} {result : AppliedEditsResult}
    (hoccurs : ∀ e ∈ edits, normalizeToLf e.oldText <:+: content)
    (hok : applyEditsToNormalizedContent content edits path = .ok result) :
    result.baseContent = content ∧
      (∃ (regions : List (Region Char)) (last : Str), Located content edits regions last ∧
        result.newContent = target regions last) ∧
      ∀ edits' : List Edit, edits'.Perm edits →
        applyEditsToNormalizedContent content edits' path = .ok result := by
  obtain ⟨hbase, regions, last, hlocated, -, htarget⟩ := applyEdits_located hoccurs hok
  exact ⟨hbase, ⟨regions, last, hlocated, htarget⟩, fun edits' hperm => applyEdits_perm hoccurs hperm hok⟩

/-- A text with a character outside the basic plane, and two edits in another order than the
text. -/
def smileText : Str := ['a', Char.ofNat 0x1F600, 'b', 'c']

def smileEdits : List Edit := [⟨['b'], ['x', 'y']⟩, ⟨[Char.ofNat 0x1F600], ['-']⟩]

/-- The edits are made at once, in either order. -/
theorem applyEdits_exact_smile :
    applyEditsToNormalizedContent smileText smileEdits "f" = .ok ⟨smileText, "a-xyc"⟩ ∧
      applyEditsToNormalizedContent smileText smileEdits.reverse "f" = .ok ⟨smileText, "a-xyc"⟩ := by
  have hoccurs : ∀ e ∈ smileEdits, normalizeToLf e.oldText <:+: smileText := by decide +kernel
  have hok : applyEditsToNormalizedContent smileText smileEdits "f" = .ok ⟨smileText, "a-xyc"⟩ := by decide +kernel
  exact ⟨hok, (applyEdits_exact hoccurs hok).2.2 _ (reverse_perm smileEdits)⟩

end Tools
