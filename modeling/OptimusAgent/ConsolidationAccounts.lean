/-
**Nothing is lost by consolidation.**

The groups of `OptimusAgent.Consolidation` have distinct statements, and what is reported is derived
from them one by one; the conflicts are then sorted, which keeps them as they are.
-/

import OptimusAgent.Consolidation

namespace Occ

open Str List AgentCommMessage

variable {R : Type}

/-! ### What a report says about a statement -/

/-- A finding as a position of a conflict. -/
def Occurrence.position (o : Occurrence R) : ConflictPosition := ⟨o.finding.statement, o.source, o.finding.evidence⟩

/-- The conflicts of a report about a statement. -/
def ConsolidationReport.conflictsAbout (report : ConsolidationReport R) (statement : Str) : List Conflict :=
  report.conflicts.filter fun conflict => conflict.topic = statement

/-- The findings of a report with a statement. -/
def ConsolidationReport.findingsAbout (report : ConsolidationReport R) (statement : Str) :
    List (ConsolidatedFinding R) :=
  report.findings.filter fun f => normalizedStatement f.finding.statement = statement

/-- The findings with a statement are the positions of one conflict, or are represented by one
finding whose sources are their labels; and nothing is reported if there are none. -/
def Accounted (report : ConsolidationReport R) (statement : Str) : List (Occurrence R) → Prop
  | [] => report.conflictsAbout statement = [] ∧ report.findingsAbout statement = []
  | first :: rest =>
    let positions := (first :: rest).map Occurrence.position
    let sources := dedupInOrder ((first :: rest).map Occurrence.source)
    (report.conflictsAbout statement = [⟨statement, positions⟩] ∧ report.findingsAbout statement = []) ∨
    (report.conflictsAbout statement = [] ∧ report.findingsAbout statement = [⟨first.finding, sources, sources.length⟩])

section

variable [F32 R] [BelowHalf R]

/-- **The report accounts for every finding.** -/
theorem accounted_consolidate (key : EvidenceKeyMode) (messages : List (AgentCommMessage R)) (statement : Str) :
    Accounted (consolidate messages ⟨true, key⟩) statement (occurrencesOf messages statement) := by
  obtain ⟨statements, group, hgroups, hnodup, hstatements, hspec⟩ := groups_consolidate key messages
  -- the conflicts are a permutation of what the groups give
  have hconflicts : (consolidate messages ⟨true, key⟩).conflicts.Perm (statements.filterMap fun k =>
      (group k).firstDetection.map fun _ => (group k).conflict) := by
    rw [consolidate, hgroups]
    refine ((perm_insertionSort _ _).map Prod.snd).trans (List.Perm.of_eq ?_)
    rw [filterMap_map, map_filterMap]
    refine filterMap_congr fun k _ => ?_
    rw [Function.comp_apply, Option.map_map]
    rfl
  have hfindings : (consolidate messages ⟨true, key⟩).findings = statements.filterMap fun k =>
      if (group k).firstDetection = none then (group k).merged else none := by
    rw [consolidate, hgroups]
    dsimp only
    rw [if_pos rfl, filterMap_filter, filterMap_map]
    refine filterMap_congr fun k _ => ?_
    simp
  have hconflict := Grouping.filter_filterMap hnodup
    (fun k => (group k).firstDetection.map fun _ => (group k).conflict) Conflict.topic
    (fun k conflict h => by
      obtain ⟨n, -, rfl⟩ := Option.map_eq_some_iff.1 h
      exact (hspec k).normalized) statement
  have hfinding := Grouping.filter_filterMap hnodup
    (fun k => if (group k).firstDetection = none then (group k).merged else none)
    (fun f => normalizedStatement f.finding.statement)
    (fun k f hf => by
      split_ifs at hf
      exact (hspec k).merged hf) statement
  have hperm := hconflicts.filter fun conflict => conflict.topic = statement
  rw [← ConsolidationReport.conflictsAbout] at hperm
  rw [← hfindings, ← ConsolidationReport.findingsAbout] at hfinding
  rw [hstatements] at hconflict hfinding
  cases hl : occurrencesOf messages statement with
  | nil =>
    rw [hconflict.1 (not_not.2 hl)] at hperm
    exact ⟨hperm.eq_nil, hfinding.1 (not_not.2 hl)⟩
  | cons first rest =>
    have hsome : occurrencesOf messages statement ≠ [] := by
      rw [hl]
      exact cons_ne_nil _ _
    have hoccurrences := (hspec statement).occurrences
    rw [hl] at hoccurrences
    rw [hconflict.2 hsome] at hperm
    have hone := hfinding.2 hsome
    cases hdetection : (group statement).firstDetection with
    | some n =>
      rw [hdetection] at hperm hone
      refine .inl ⟨(perm_singleton.1 hperm).trans ?_, hone⟩
      rw [Group.conflict, (hspec statement).normalized, hoccurrences]
      rfl
    | none =>
      rw [hdetection] at hperm hone
      refine .inr ⟨hperm.eq_nil, hone.trans ?_⟩
      rw [if_pos rfl, Group.merged, hoccurrences]
      rfl

/-! ### References and dependencies -/

variable (options : ConsolidationOptions)

theorem references_foldl_addFinding (m : AgentCommMessage R) (label : Str)
    (findings : List (Finding R)) (s : ConsolidationState R) :
    (findings.foldl (addFinding options m label) s).evidence = s.evidence ∧
      (findings.foldl (addFinding options m label) s).dependencies = s.dependencies := by
  induction findings generalizing s with
  | nil => exact ⟨rfl, rfl⟩
  | cons f findings ih => exact ih _

theorem references_foldl_addMessage
    (messages : List (AgentCommMessage R × ℕ)) (s : ConsolidationState R) :
    let s' := messages.foldl (addMessage options) s
    s'.evidence = (messages.flatMap fun m => m.1.evidence).foldl
        (Grouping.keepNew (EvidenceIdentity.new options.evidenceKey)) s.evidence ∧
      s'.dependencies = (messages.flatMap fun m => m.1.dependencies).foldl
        (fun seen d => if d ∈ seen then seen else seen ++ [d]) s.dependencies := by
  induction messages generalizing s with
  | nil => exact ⟨rfl, rfl⟩
  | cons m messages ih =>
    obtain ⟨hevidence, hdependencies⟩ := ih (addMessage options s m)
    obtain ⟨hevidence', hdependencies'⟩ := references_foldl_addFinding options m.1
      (messageLabel m.1 m.2) m.1.findings (addReferences options s m.1)
    dsimp only
    rw [foldl_cons, hevidence, hdependencies, addMessage, hevidence', hdependencies',
      flatMap_cons, flatMap_cons, foldl_append, foldl_append]
    exact ⟨rfl, rfl⟩

variable (messages : List (AgentCommMessage R))

omit [F32 R] [BelowHalf R] in
theorem flatMap_zipIdx {β : Type} (f : AgentCommMessage R → List β) :
    (messages.zipIdx.flatMap fun m => f m.1) = messages.flatMap f := by
  have hmap : messages.zipIdx.map Prod.fst = messages := zipIdx_map_fst 0 messages
  conv_rhs => rw [← hmap, flatMap_map]

/-- The references and dependencies of a report. -/
theorem references_consolidate : (consolidate messages options).evidence = (messages.flatMap evidence).foldl
        (Grouping.keepNew (EvidenceIdentity.new options.evidenceKey)) [] ∧
      (consolidate messages options).dependencies = dedupInOrder (messages.flatMap dependencies) := by
  obtain ⟨hevidence, hdependencies⟩ := references_foldl_addMessage options messages.zipIdx .start
  rw [flatMap_zipIdx messages evidence] at hevidence
  rw [flatMap_zipIdx messages dependencies] at hdependencies
  exact ⟨hevidence, hdependencies⟩

theorem dedupInOrder_eq (items : List Str) : dedupInOrder items = items.foldl (Grouping.keepNew id) [] := by
  rw [dedupInOrder]
  congr 1
  funext out item
  rw [Grouping.keepNew, map_id, id]
  split_ifs <;> rfl

/-- **Nothing is lost by consolidation.**  The findings with a statement are the positions of the
one conflict about it, in their order, or are represented by the one finding with it, whose sources
are their different labels; every reference has one reference with its identity, the first to
appear; and the dependencies are those of the messages, each once and in the order of their first
appearance. -/
theorem consolidate_accounts (key : EvidenceKeyMode) (messages : List (AgentCommMessage R)) :
    let report := consolidate messages ⟨true, key⟩
    (∀ statement, Accounted report statement (occurrencesOf messages statement)) ∧
    (∀ identity, (report.evidence.filter fun e => EvidenceIdentity.new key e = identity) =
      ((messages.flatMap evidence).find? fun e => EvidenceIdentity.new key e = identity).toList) ∧
    report.dependencies = dedupInOrder (messages.flatMap dependencies) ∧
    report.dependencies.Nodup ∧
    ∀ d, d ∈ report.dependencies ↔ ∃ m ∈ messages, d ∈ m.dependencies := by
  intro report
  obtain ⟨hevidence, hdependencies⟩ := references_consolidate ⟨true, key⟩ messages
  refine ⟨accounted_consolidate key messages, fun identity => ?_, hdependencies, ?_, fun d => ?_⟩
  · have hfirst := Grouping.filter_foldl_keepNew (EvidenceIdentity.new key)
      (messages.flatMap evidence) [] identity
    rw [if_neg (by simp), ← hevidence] at hfirst
    exact hfirst
  · have hnodup := Grouping.nodup_foldl_keepNew id (messages.flatMap dependencies) [] nodup_nil
    rw [map_id, ← dedupInOrder_eq, ← hdependencies] at hnodup
    exact hnodup
  · change d ∈ (consolidate messages ⟨true, key⟩).dependencies ↔ _
    rw [hdependencies, Pruner.mem_dedupInOrder, mem_flatMap]

end

end Occ
