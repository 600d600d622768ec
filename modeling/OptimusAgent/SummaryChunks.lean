/-
**A summary that is made in chunks.**

A conversation that is too long for one request is summarised in chunks: every request carries the
summary so far and the next chunk, and its answer is the next summary.  How many characters a chunk
may have depends on the length of the summary so far; where a chunk ends in the bytes is found by a
scan from where the last one ended.  This module embeds the loop of `generate_bounded_summary` and
the scalar scan of `charcount.rs`.  The limits of the model are numbers, and rounded down; how a
request ends is part of the input.
-/

import OptimusAgent.Text
import OptimusAgent.Utf8

namespace SummaryChunks

open List Utf8

/-- The loop that looks for the target: the bytes that are left, their position, and the characters
seen. -/
def seek (target : ℕ) : List UInt8 → ℕ → ℕ → List UInt8 × ℕ × ℕ
  | [], pos, seen => ([], pos, seen)
  | byte :: bytes, pos, seen =>
    if seen < target then seek target bytes (pos + 1) (if isContinuation byte then seen else seen + 1)
    else (byte :: bytes, pos, seen)

def scanCharsForwardScalar (bytes : List UInt8) (start target : ℕ) : ℕ × ℕ :=
  let (rest, pos, seen) := seek target (bytes.drop start) start 0
  (pos + (rest.takeWhile isContinuation).length, seen)

/-- A conversation, and what the requests for its summary depend on. -/
structure Slice where
  conversation : Str
  /-- `((min(input_limit, context_window - retry_max_tokens) - 1024) * 3).floor()` -/
  inputChars : ℤ
  systemPromptChars : ℕ
  instructions : Option Str → Str
  cancelled : ℕ → Bool
  /-- How the request for each chunk ends, with its retries: its summary, if that is accepted. -/
  answer : ℕ → Except Str Str

variable (S : Slice)

def abortError : Str := "Aborted"

def Slice.suffix (summary : Option Str) : Str :=
  (match summary with
    | some summary => "<previous-summary>\n" ++ summary ++ "\n</previous-summary>\n\n"
    | none => []) ++ S.instructions summary

def Slice.budget (summary : Option Str) : ℤ := S.inputChars - (S.suffix summary).length - S.systemPromptChars - 64

def Slice.chunkEnd (start chars : ℕ) : Option ℕ :=
  if chars = 0 then some start
  else
    let (stop, seen) := scanCharsForwardScalar (encode S.conversation) start chars
    if seen < chars then none else some stop

/-- The loop, with the number of the chunk, where it starts, the summary so far and the chunks that
were sent. -/
def Slice.loop : ℕ → ℕ → ℕ → ℕ → Option Str → List (List UInt8) → Option (Except Str (Str × List (List UInt8)))
  | 0, _, _, _, _, _ => none
  | fuel + 1, i, offset, start, summary, sent =>
    if S.cancelled i then some (.error abortError)
    else if S.budget summary ≤ 0 then
      some (.error "Compaction instructions and previous summary exceed the model input budget")
    else
      let chars := min (S.budget summary).toNat (S.conversation.length - offset)
      match S.chunkEnd start chars with
      | none => some (.error abortError)
      | some stop =>
        let sent := sent ++ [((encode S.conversation).drop start).take (stop - start)]
        match S.answer i with
        | .error e => some (.error e)
        | .ok text =>
          if S.conversation.length ≤ offset + chars then some (.ok (text, sent))
          else Slice.loop fuel (i + 1) (offset + chars) stop (some text) sent

def generateBoundedSummary (previousSummary : Option Str) : Option (Except Str (Str × List (List UInt8))) :=
  S.loop (S.conversation.length + 1) 0 0 0 previousSummary []

/-! ### The scan -/

/-- A character is a byte at which one begins, and continuation bytes. -/
theorem utf8EncodeChar_eq (c : Char) : ∃ lead conts, String.utf8EncodeChar c = lead :: conts ∧
    isContinuation lead = false ∧ ∀ byte ∈ conts, isContinuation byte = true := by
  have hbyte : ∀ byte : UInt8, isContinuation byte = decide (128 ≤ byte.toNat ∧ byte.toNat < 192) := by
    decide +kernel
  unfold String.utf8EncodeChar
  dsimp only
  generalize c.val.toNat = code
  split_ifs <;> refine ⟨_, _, rfl, ?_, ?_⟩ <;> simp [hbyte] <;> omega

theorem seek_conts {target seen : ℕ} {conts : List UInt8} (h : ∀ byte ∈ conts, isContinuation byte = true)
    (hseen : seen < target) (rest : List UInt8) (pos : ℕ) :
    seek target (conts ++ rest) pos seen = seek target rest (pos + conts.length) seen := by
  induction conts generalizing pos with
  | nil => rfl
  | cons byte conts ih =>
    rw [forall_mem_cons] at h
    rw [cons_append, seek, if_pos hseen, if_pos h.1, ih h.2, length_cons, Nat.add_assoc, Nat.add_comm 1]

/-- From one character to another, the scan passes as many characters as it is asked to. -/
theorem scan_encode {s : List Char} (hne : s ≠ []) (t : List Char) (pos seen : ℕ) :
    ∃ rest stop, seek (seen + s.length) (encode (s ++ t)) pos seen = (rest, stop, seen + s.length) ∧
      stop + (rest.takeWhile isContinuation).length = pos + (encode s).length := by
  induction s generalizing pos seen with
  | nil => exact absurd rfl hne
  | cons c s ih =>
    obtain ⟨lead, conts, hc, hlead, hconts⟩ := utf8EncodeChar_eq c
    rw [cons_append, encode_cons, encode_cons, hc, cons_append, seek, if_pos (by simp), hlead, length_cons,
      Nat.add_comm s.length, ← Nat.add_assoc]
    cases s with
    | nil =>
      -- the scan stops behind the first byte of the last character
      refine ⟨conts ++ encode t, pos + 1, ?_, ?_⟩
      · rw [nil_append, if_neg Bool.false_ne_true]
        cases conts ++ encode t with
        | nil => rfl
        | cons byte bytes => exact if_neg (lt_irrefl _)
      · have htake : (encode t).takeWhile isContinuation = [] := by
          cases t with
          | nil => rfl
          | cons d t =>
            obtain ⟨lead', conts', hd, hlead', -⟩ := utf8EncodeChar_eq d
            rw [encode_cons, hd, cons_append, takeWhile_cons_of_neg (by simp [hlead'])]
        rw [takeWhile_append_of_pos hconts, htake]
        simp [Nat.add_comm, Nat.add_left_comm]
    | cons d s =>
      rw [if_neg Bool.false_ne_true, seek_conts hconts (by simp)]
      obtain ⟨rest, stop, hseek, hstop⟩ := ih (cons_ne_nil d s) (pos + 1 + conts.length) (seen + 1)
      refine ⟨rest, stop, hseek, hstop.trans ?_⟩
      simp only [length_append, length_cons]
      omega

/-! ### The loop -/

variable {S}

/-- The chunk from one character to another. -/
theorem chunkEnd_eq {before s after : Str} (h : S.conversation = before ++ s ++ after) :
    S.chunkEnd (encode before).length s.length = some ((encode before).length + (encode s).length) := by
  rw [Slice.chunkEnd]
  split_ifs with hzero
  · rw [length_eq_zero_iff.1 hzero]
    rfl
  · obtain ⟨rest, stop, hseek, hstop⟩ :=
      scan_encode (fun hs => hzero (length_eq_zero_iff.2 hs)) after (encode before).length 0
    rw [Nat.zero_add] at hseek
    rw [scanCharsForwardScalar, h, append_assoc, encode_append, drop_left, hseek]
    simp only [hstop, lt_irrefl, if_false]

/-- The chunks are texts that make up the conversation, none of them empty. -/
def Slice.Covers (S : Slice) (sent : List (List UInt8)) : Prop :=
  ∃ parts : List Str, sent = parts.map encode ∧ parts.flatten = S.conversation ∧ (S.conversation ≠ [] → [] ∉ parts)

theorem loop_covers (fuel i : ℕ) (summary : Option Str) (parts : List Str) {todo : Str}
    (hsplit : S.conversation = parts.flatten ++ todo) (hfuel : todo.length < fuel)
    (hne : S.conversation ≠ [] → todo ≠ [] ∧ [] ∉ parts) :
    ∃ result, S.loop fuel i parts.flatten.length (encode parts.flatten).length summary (parts.map encode) =
      some result ∧ ∀ text sent, result = .ok (text, sent) → S.Covers sent := by
  induction fuel generalizing i summary parts todo with
  | zero => exact absurd hfuel (Nat.not_lt_zero _)
  | succ fuel ih =>
    rw [Slice.loop]
    split_ifs with _ hbudget
    · exact ⟨_, rfl, nofun⟩
    · exact ⟨_, rfl, nofun⟩
    have hlength : S.conversation.length = parts.flatten.length + todo.length := by rw [hsplit, length_append]
    generalize hchars : min (S.budget summary).toNat (S.conversation.length - parts.flatten.length) = chars
    -- the chunk is the next part of the conversation
    obtain ⟨s, rest, rfl, rfl⟩ : ∃ s rest, todo = s ++ rest ∧ s.length = chars :=
      ⟨_, _, (take_append_drop chars todo).symm, length_take_of_le (by omega)⟩
    have hsplit' : S.conversation = parts.flatten ++ s ++ rest := by rw [hsplit, append_assoc]
    have hchunk : ((encode S.conversation).drop (encode parts.flatten).length).take (encode s).length = encode s := by
      rw [hsplit, encode_append, drop_left, encode_append, take_left]
    simp only [chunkEnd_eq hsplit', Nat.add_sub_cancel_left, hchunk]
    have hnonempty : S.conversation ≠ [] → [] ∉ parts ++ [s] := by
      intro hconversation
      have htodo := length_pos_iff.2 (hne hconversation).1
      simp only [mem_append, mem_singleton, not_or]
      refine ⟨(hne hconversation).2, fun hs => ?_⟩
      rw [← hs, length_nil] at hchars
      omega
    have hsent : parts.map encode ++ [encode s] = (parts ++ [s]).map encode := by simp
    have hflatten : (parts ++ [s]).flatten = parts.flatten ++ s := by simp
    cases S.answer i with
    | error e => exact ⟨_, rfl, nofun⟩
    | ok text =>
      dsimp only
      split_ifs with hend
      · refine ⟨_, rfl, ?_⟩
        rintro _ _ ⟨⟩
        have hrest : rest = [] := length_eq_zero_iff.1 (by rw [length_append] at hlength; omega)
        exact ⟨_, hsent, by rw [hflatten, hsplit', hrest, append_nil], hnonempty⟩
      · rw [length_append] at hlength hfuel
        have hconversation : S.conversation ≠ [] := fun h => hend (by simp [h])
        rw [hsent, ← length_append, ← length_append, ← encode_append, ← hflatten]
        refine ih (i + 1) (some text) _ (hflatten ▸ hsplit') ?_ fun _ => ⟨?_, hnonempty hconversation⟩
        · have hs : s.length ≠ 0 := fun h0 => hnonempty hconversation (by simp [length_eq_zero_iff.1 h0])
          omega
        · rintro rfl
          rw [length_nil] at hlength
          omega

/-- **The loop ends, and its chunks are the conversation.**  A summary that is returned was made
from chunks that are cut between characters, follow one another, and are not empty unless the
conversation is. -/
theorem chunks_cover (S : Slice) (previousSummary : Option Str) :
    ∃ result, generateBoundedSummary S previousSummary = some result ∧
      ∀ summary sent, result = .ok (summary, sent) → S.Covers sent :=
  loop_covers _ 0 previousSummary [] rfl (Nat.lt_succ_self _) fun h => ⟨h, not_mem_nil⟩

end SummaryChunks
