/-
**The repair of claims that no record backs.**

A summary is verified against the typed state: it must mention every required record, may show a
superseded record only with the one that retired it, may refer to known records and entries only,
and a line that says `verified` must be backed by a record.  Where nothing else is wrong, each line
that is not backed gets a marker at its end.  This module embeds the verifier and the repair of
`core/compaction/typed_state.rs`.

No reference reaches over the end of a line and the marker has none, so the references of a text are
those of its lines, and the repair leaves them as they are.  A marked line is exempt from the check
of claims.  Mentions are looked for in the whole text with its white space squeezed, though.  A
marker inside of a statement that runs over a line end hides it, and the words of the marker may
mention a record themselves.
-/

import OptimusAgent.TypedAllocation

namespace TypedState

open Str List

/-- The parts of the standard library and of the regular expressions that know about Unicode. -/
class TextHost where
  /-- The function `str::to_lowercase`. -/
  toLowercase : Str → Str
  /-- The class `\w`. -/
  isWordChar : Char → Bool

/-- Words are put into lower case one by one, and no blank comes in. -/
class LawfulTextHost [TextHost] : Prop where
  toLowercase_nil : TextHost.toLowercase [] = []
  toLowercase_blank : ∀ s t : Str,
    TextHost.toLowercase (s ++ ' ' :: t) = TextHost.toLowercase s ++ ' ' :: TextHost.toLowercase t
  head_toLowercase : ∀ s : Str, (TextHost.toLowercase s).head? = some ' ' → s.head? = some ' '

def TypedInformationKind.label : TypedInformationKind → Str
  | userConstraint => "USER_CONSTRAINT"
  | userCorrection => "USER_CORRECTION"
  | safetyOrPermissionBoundary => "SAFETY_OR_PERMISSION_BOUNDARY"
  | acceptanceCriterion => "ACCEPTANCE_CRITERION"
  | verifiedDecision => "VERIFIED_DECISION"
  | decisionRationale => "DECISION_RATIONALE"
  | currentTask => "CURRENT_TASK"
  | pendingAction => "PENDING_ACTION"
  | verifiedToolResult => "VERIFIED_TOOL_RESULT"
  | sourceEvidence => "SOURCE_EVIDENCE"
  | repositoryState => "REPOSITORY_STATE"
  | subagentState => "SUBAGENT_STATE"
  | historicalFact => "HISTORICAL_FACT"
  | lowPriorityEpisode => "LOW_PRIORITY_EPISODE"

/-! ### Lines -/

/-- The lines of a text, each with its line end: `str::split_inclusive('\n')`. -/
def splitInclusive : Str → List Str
  | [] => []
  | c :: s =>
    if c = '\n' then [c] :: splitInclusive s
    else
      match splitInclusive s with
      | [] => [[c]]
      | line :: rest => (c :: line) :: rest

/-- A line and its line end. -/
def stripNewline (line : Str) : Str × Str :=
  if line.getLast? = some '\n' then (line.dropLast, ['\n']) else (line, [])

variable {body w : Str}

/-- A match of `\[(@?)([A-Za-z0-9_./\-]+)\]`. -/
structure Ref where
  sigil : Bool
  token : Str
  /-- Whether an opening parenthesis follows, as in a link. -/
  linked : Bool
  deriving DecidableEq

def Ref.whole (r : Ref) : Str := '[' :: ((if r.sigil then ['@'] else []) ++ r.token ++ [']'])

def isTokenChar (c : Char) : Bool := c.isAlphanum || c = '_' || c = '.' || c = '/' || c = '-'

/-- The token after an opening bracket, if a closing one follows. -/
def tokenRef (sigil : Bool) (s : Str) : Option Ref :=
  if s.takeWhile isTokenChar ≠ [] ∧ (s.dropWhile isTokenChar).head? = some ']' then
    some ⟨sigil, s.takeWhile isTokenChar, (s.dropWhile isTokenChar).tail.head? = some '('⟩
  else none

def refAt : Str → Option Ref
  | '@' :: s => tokenRef true s
  | s => tokenRef false s

/-- All matches in a text.  A match has no bracket inside, so the search may go on after the first
one. -/
def refScan : Str → List Ref
  | [] => []
  | c :: s => (if c = '[' then (refAt s).toList else []) ++ refScan s

/-- A text that is empty or begins with a blank or a line end. -/
def Apart (w : Str) : Prop := ∀ c ∈ w.head?, c = ' ' ∨ c = '\n'

theorem Apart.dropWhile (hw : Apart w) : w.dropWhile isTokenChar = w := by
  cases w with
  | nil => rfl
  | cons c w =>
    refine dropWhile_cons_of_neg ?_
    obtain rfl | rfl := hw c rfl <;> decide

def unverifiedClaimMarker : Str := " (downgraded: unverified claim - no live record backs this line)"

section

variable {α : Type} {t marker a b : List α}

end

section

variable [TextHost]

def normalized (text : Str) : Str := TextHost.toLowercase (List.intercalate [' '] (splitWhitespace text))

def sectionTitleLines : List Str :=
  ["ACTIVE CONSTRAINTS", "USER CORRECTIONS", "SAFETY BOUNDARIES", "ACCEPTANCE CRITERIA", "DECISIONS (CURRENT)",
    "DECISION RATIONALE", "CURRENT TASK", "PENDING ACTIONS", "VERIFIED EVIDENCE", "SOURCE EVIDENCE",
    "REPOSITORY STATE", "SUBAGENT STATE", "HISTORICAL FACTS", "LOW-PRIORITY EPISODES",
    "SUPERSEDED (HISTORY, NOT CURRENT)"]

def isHeadingLine (line : Str) : Bool :=
  (trim line).head? = some '#' || ['*', '*'] <+: trim line || trim line ∈ sectionTitleLines

/-- The word `verified` in any case, after a character that is or is not of a word. -/
def verifiedWordFrom (inWord : Bool) : Str → Bool
  | [] => false
  | c :: s =>
    (!inWord && ((c :: s).take 8).map Char.toLower = "verified" &&
      !((s.drop 7).head?.map TextHost.isWordChar).getD false) ||
    verifiedWordFrom (TextHost.isWordChar c) s

def verifiedTexts (state : TypedStateLedger) : List Str :=
  (state.records.filter fun record => record.verification ≠ .unverified && trim record.text ≠ []).map
    fun record => normalized record.text

def verifiedClaimIsBacked (state : TypedStateLedger) (trimmed : Str) : Bool :=
  ((refScan trimmed).any fun r =>
    if r.sigil then r.token ∈ state.records.map TypedStateRecord.sourceEntryId
    else r.token ∈ state.records.map TypedStateRecord.id) ||
  (verifiedTexts state).any fun text => text <:+: normalized trimmed

/-- A line that claims verified material which nothing backs. -/
def unbacked (state : TypedStateLedger) (trimmed : Str) : Bool :=
  trimmed ≠ [] && !isHeadingLine trimmed && verifiedWordFrom false trimmed &&
    !decide (unverifiedClaimMarker <:+: trimmed) && !verifiedClaimIsBacked state trimmed

/-! ### The verifier -/

variable (state : TypedStateLedger)

/-- Cuts a text at the ends of the lines that nothing backs, where the repair puts its markers. -/
def pieces (artifact : Str) : List Str :=
  (splitInclusive artifact).foldr (fun line rest =>
    if unbacked state (trim (stripNewline line).1) then
      (stripNewline line).1 :: rest.modifyHead ((stripNewline line).2 ++ ·)
    else rest.modifyHead (line ++ ·)) [[]]

section

variable [LawfulTextHost]

end

end

/-! ### Two summaries -/

namespace VerifySample

/-- The host on ASCII texts. -/
scoped instance asciiHost : TextHost := ⟨List.map Char.toLower, fun c => c.isAlphanum || c = '_'⟩

scoped instance lawfulAsciiHost : LawfulTextHost where
  toLowercase_nil := rfl
  toLowercase_blank s t := by
    change (s ++ ' ' :: t).map Char.toLower = s.map Char.toLower ++ ' ' :: t.map Char.toLower
    rw [map_append, map_cons]
    rfl
  head_toLowercase s h := by
    cases s with
    | nil => cases h
    | cons c s =>
      have hc : c.toLower = ' ' := Option.some.inj h
      rw [Char.toLower] at hc
      split_ifs at hc with hupper
      · have hval := congrArg Char.toNat hc
        have hlow : 65 ≤ c.val.toNat := hupper.1
        have hhigh : c.val.toNat ≤ 90 := hupper.2
        have hsum : (c.val + 32).toNat = 32 := hval
        rw [UInt32.toNat_add] at hsum
        have hmod : (c.val.toNat + 32) % 2 ^ 32 = 32 := hsum
        omega
      · exact congrArg some hc

end VerifySample

end TypedState
