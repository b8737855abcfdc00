import Spreadsheet.Proofs.Formula.Agreement
import Spreadsheet.Proofs.Graph.Entries
import Spreadsheet.Proofs.Sheet.Policies

/-!
# The cells and the graph stay in step

A cell knows what it reads, and the graph knows what reads it. The two are written at different
times: a call changes the graph once, by the difference between what the edited cell depended on and
what it depends on now, and the recalculation after it finds the dependencies of every cell anew and
leaves the graph alone. They stay in step because dependencies follow from the text of a cell, and no
recalculation changes a text, whatever the policy on cycles and whether or not it ends.
-/

namespace Spreadsheet

open Relation Formula

namespace Sheet

variable {s : Sheet} {e : Call} {g : Graph} {p : Progress} {r : Ref}

/-! ### What a call keeps -/

/-- The graph has the edges that the stored cells ask for and no entry without one, and what the
cells depend on follows from their texts. -/
structure Tracked (s : Sheet) : Prop where
  coherent : s.graph.Coherent s.cells
  fitsTexts : s.cells.FitsTexts
  pruned : s.graph.Pruned

theorem tracked_empty (config : Config) : (empty config).Tracked :=
  ⟨Graph.coherent_empty, Grid.consistent_empty.fitsTexts, Graph.pruned_empty⟩

theorem fitsTexts_of_stage (hfits : s.cells.FitsTexts) (h : s.stage e = .edited g p r) :
    p.cells.FitsTexts := by
  intro x c hc
  by_cases hx : x = r
  · subst hx
    rcases cell_of_stage h hc with ⟨raw, format, -, rfl⟩ | ⟨format, rfl⟩ | ⟨old, format, hold, rfl⟩
    · exact (Grid.settled_spread_recompute s.cells _).fitsText
    · exact (Grid.settled_ofFormat s.cells format).fitsText
    · have hfit := hfits x old hold
      exact ⟨hfit.isExpression_eq, hfit.dependencies_eq⟩
  · rw [getElem?_of_stage h hx] at hc
    exact hfits x c hc

theorem pruned_of_stage (hpruned : s.graph.Pruned) (h : s.stage e = .edited g p r) : g.Pruned := by
  rw [graph_of_stage h]
  exact hpruned.relink r _ _

/-- Whatever the policy, and even if the recalculation does not end, only the cells change. -/
theorem exists_keeps_finish (s : Sheet) (p : Progress) (r : Ref) :
    ∃ q, Progress.Keeps p q ∧ (s.finish p r).sheet = { s with cells := q.cells } := by
  cases hpolicy : s.config.cyclePolicy with
  | detect => exact ⟨_, Progress.keeps_propagate p s.graph r, sheet_finish hpolicy p r⟩
  | unguarded =>
    cases hq : Progress.propagateUnguarded? s.graph (p.cells.size + 1) p r with
    | none =>
      refine ⟨p, Progress.Keeps.refl p, ?_⟩
      rw [finish, hpolicy]
      simp only [hq]
    | some q =>
      refine ⟨q, Progress.keeps_propagateUnguarded? hq, ?_⟩
      rw [finish_of_unguarded hpolicy hq]
      rfl

theorem Tracked.call (h : s.Tracked) (e : Call) : (s.call e).sheet.Tracked := by
  cases hstage : s.stage e with
  | idle result =>
    rw [call_of_idle hstage]
    exact h
  | edited g p r =>
    have hfits := fitsTexts_of_stage h.fitsTexts hstage
    obtain ⟨q, hkeeps, hsheet⟩ := exists_keeps_finish { s with graph := g } p r
    rw [(call_of_edited hstage).1, hsheet]
    exact ⟨hkeeps.coherent hfits (coherent_of_stage h.coherent hstage), hkeeps.fitsTexts hfits,
      pruned_of_stage h.pruned hstage⟩

theorem Tracked.run (h : s.Tracked) (calls : List Call) : (s.run calls).Tracked :=
  List.foldlRecOn calls _ h fun _ h' e _ => h'.call e

theorem parseRef_eq_error {reference : String} (h : ¬ (Ref.parse? reference).isSome) :
    SheetError.parseRef reference = .error (.invalidReference reference) := by
  rw [SheetError.parseRef, Option.not_isSome_iff_eq_none.mp h]

theorem idle_cases {result : Except SheetError (List Change)} (h : s.stage e = .idle result) :
    result = .ok [] ∨ ∃ text, result = .error (.invalidReference text) := by
  cases hparses : e.parses with
  | true => exact Or.inl (idle_of_parses hparses h)
  | false =>
    cases e with
    | set r text => cases hparses
    | setAt reference text =>
      rw [stage, parseRef_eq_error (Bool.eq_false_iff.mp hparses)] at h
      exact Or.inr ⟨reference, (Stage.idle.inj h).symm⟩
    | toggleAt kind reference =>
      rw [stage, parseRef_eq_error (Bool.eq_false_iff.mp hparses)] at h
      exact Or.inr ⟨reference, (Stage.idle.inj h).symm⟩

/-- A call that closes no cycle ends, also without cycle detection. -/
theorem Tracked.call_ne_endless (h : s.Tracked) (hunguarded : s.config.cyclePolicy = .unguarded)
    (hacyclic : Acyclic (s.call e).sheet.cells.Reads) : (s.call e).result ≠ .error .endless := by
  cases hstage : s.stage e with
  | idle result =>
    rw [call_of_idle hstage]
    rcases idle_cases hstage with rfl | ⟨text, rfl⟩
    · exact fun heq => nomatch heq
    · exact fun heq => nomatch heq
  | edited g p r =>
    obtain ⟨hsheet, hresult⟩ := call_of_edited hstage
    have hfits := fitsTexts_of_stage h.fitsTexts hstage
    have hcoherent := coherent_of_stage h.coherent hstage
    obtain ⟨q, hkeeps, hfinish⟩ := exists_keeps_finish { s with graph := g } p r
    rw [hsheet, hfinish, hkeeps.reads_eq hfits] at hacyclic
    obtain ⟨q', hq', -⟩ := Progress.exists_swept (hcoherent.acyclic_iff.mpr hacyclic) hfits hcoherent
      (Graph.length_closure_le hcoherent r)
    have hpublish : ({ s with graph := g } : Sheet).finish p r =
        ({ s with graph := g } : Sheet).publish q' none :=
      finish_of_unguarded (s := { s with graph := g }) hunguarded hq'
    rw [hresult _ (congrArg Outcome.result hpublish)]
    exact fun heq => nomatch heq

/-! ### Reachable sheets -/

/-- The graph and the stored cells tell the same story. -/
structure InStep (s : Sheet) : Prop where
  hasEdge_iff : ∀ p d, s.graph.hasEdge p d = true ↔
    ∃ c, s.cells[d]? = some c ∧ p ∈ c.dependencies
  dependencies_eq : ∀ (r : Ref) (c : Cell), s.cells[r]? = some c →
    c.dependencies = if isValid c.raw then references c.raw else ∅
  dependents_ne_empty : ∀ (p : Ref) (dependents : RefSet),
    s.graph.dependentsOf[p]? = some dependents → dependents ≠ ∅
  size_eq : {p | ∃ (d : Ref) (c : Cell), s.cells[d]? = some c ∧ p ∈ c.dependencies}.encard =
    s.graph.size

theorem Tracked.inStep (h : s.Tracked) : s.InStep := by
  refine ⟨h.coherent, fun r c hc => ?_, h.pruned, ?_⟩
  · rw [(h.fitsTexts r c hc).dependencies_eq, Cell.precedentsOf_eq]
  · rw [← h.pruned.encard_precedents]
    refine congrArg Set.encard (Set.ext fun p => exists_congr fun d => ?_)
    exact (h.coherent p d).symm

/-- The cells and the graph are in step after any calls, under either policy. Without cycle detection
a run that stays acyclic never runs into an endless recalculation. -/
theorem inStep_of_calls (config : Config) (calls : List Call) :
    ((empty config).run calls).InStep ∧
      (config.cyclePolicy = .unguarded →
        (∀ before, before <+: calls → Acyclic ((empty config).run before).cells.Reads) →
        ∀ before e, before ++ [e] <+: calls →
          (((empty config).run before).call e).result ≠ .error .endless) := by
  refine ⟨((tracked_empty config).run calls).inStep, fun hunguarded hacyclic before e hcall => ?_⟩
  refine ((tracked_empty config).run before).call_ne_endless ?_ ?_
  · rw [config_run]
    exact hunguarded
  · rw [← run_concat]
    exact hacyclic (before ++ [e]) hcall

/-- A formula with a format that is cleared, replaced by one that is no formula, and read meanwhile. -/
def clearedFormula : List Call :=
  [.setAt "B1" "=A1+A2", .toggleAt "bold" "B1", .setAt "C1" "=B1*2", .setAt "B1" "",
    .setAt "B1" "=A1+"]

theorem inStep_of_clearedFormula :
    ((empty { cyclePolicy := .unguarded, keepFormatOnClear := true }).run clearedFormula).InStep ∧
      (((empty { cyclePolicy := .unguarded, keepFormatOnClear := true }).run
        clearedFormula.dropLast).call (.setAt "B1" "=A1+")).result ≠ .error .endless := by
  obtain ⟨hstep, hends⟩ := inStep_of_calls
    { cyclePolicy := .unguarded, keepFormatOnClear := true } clearedFormula
  refine ⟨hstep, hends rfl (fun before hbefore => ?_) _ _ List.prefix_rfl⟩
  have hforward : ∀ before ∈ clearedFormula.inits, ((empty
      { cyclePolicy := .unguarded, keepFormatOnClear := true }).run before).cells.Forward := by
    decide +kernel
  exact (hforward before ((List.mem_inits before clearedFormula).mpr hbefore)).acyclic

end Sheet

end Spreadsheet
