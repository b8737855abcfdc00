import Spreadsheet.Proofs.Sheet.Stage

/-!
# Sound sheets

On a sound sheet the graph has the edges that the stored cells ask for, and the grid is consistent.
Every call keeps a sheet sound if cycles are detected: before the recalculation only the edited cell
may be out of line, and recalculation brings back the rest.
-/

namespace Spreadsheet

/-- The graph fits the stored cells, which are settled, with exactly the right marks. -/
structure Sheet.Sound (s : Sheet) : Prop where
  coherent : s.graph.Coherent s.cells
  consistent : s.cells.Consistent

namespace Sheet

variable {s : Sheet} {r : Ref}

theorem sound_empty (config : Config) : (empty config).Sound :=
  ⟨Graph.coherent_empty, Grid.consistent_empty⟩

/-! ### What an edit leaves to recalculate -/

theorem edited_of_stage (h : s.Sound) {e : Call} {g : Graph} {p : Progress}
    (hstage : s.stage e = .edited g p r) : Edited s.cells p.cells g r := by
  refine ⟨h.consistent, fun x hx => getElem?_of_stage hstage hx, fun c hc => ?_,
    coherent_of_stage h.coherent hstage⟩
  rcases cell_of_stage hstage hc with ⟨raw, format, -, rfl⟩ | ⟨format, rfl⟩ |
    ⟨old, format, hold, rfl⟩
  · exact Grid.settled_spread_recompute s.cells _
  · exact Grid.settled_ofFormat s.cells format
  · exact (h.consistent r old hold).1.withFormat format

/-! ### Calls with cycle detection -/

theorem finish_of_detect (hdetect : s.config.cyclePolicy = .detect) (p : Progress) (origin : Ref) :
    s.finish p origin = s.publish (p.propagate s.graph origin).1 (p.propagate s.graph origin).2 := by
  rw [finish, hdetect]

theorem sheet_finish (hdetect : s.config.cyclePolicy = .detect) (p : Progress) (origin : Ref) :
    (s.finish p origin).sheet = { s with cells := (p.propagate s.graph origin).1.cells } := by
  rw [finish_of_detect hdetect]
  rfl

/-- A call changes no more than the cells and the graph. -/
theorem exists_sheet_call (s : Sheet) (e : Call) :
    ∃ cells graph, (s.call e).sheet = { s with cells, graph } := by
  cases hstage : s.stage e with
  | idle result =>
    rw [call_of_idle hstage]
    exact ⟨s.cells, s.graph, rfl⟩
  | edited g p origin =>
    rw [(call_of_edited hstage).1, finish]
    cases s.config.cyclePolicy with
    | detect => exact ⟨_, g, rfl⟩
    | unguarded =>
      dsimp only
      split
      · exact ⟨_, g, rfl⟩
      · exact ⟨_, g, rfl⟩

theorem config_call (s : Sheet) (e : Call) : (s.call e).sheet.config = s.config := by
  obtain ⟨cells, graph, hsheet⟩ := exists_sheet_call s e
  rw [hsheet]

theorem observer_call (s : Sheet) (e : Call) : (s.call e).sheet.observer = s.observer := by
  obtain ⟨cells, graph, hsheet⟩ := exists_sheet_call s e
  rw [hsheet]

theorem config_run (s : Sheet) (calls : List Call) : (s.run calls).config = s.config := by
  induction calls generalizing s with
  | nil => rfl
  | cons e rest ih => exact (ih _).trans (config_call s e)

theorem sound_call (h : s.Sound) (hdetect : s.config.cyclePolicy = .detect) (e : Call) :
    (s.call e).sheet.Sound := by
  cases hstage : s.stage e with
  | idle result =>
    rw [call_of_idle hstage]
    exact h
  | edited g p origin =>
    have hedit := edited_of_stage h hstage
    rw [(call_of_edited hstage).1, sheet_finish (s := { s with graph := g }) hdetect]
    exact ⟨Progress.coherent_propagate hedit, Progress.consistent_propagate hedit⟩

/-- Whatever calls are made, and whatever they return, a sheet that detects cycles stays sound. -/
theorem sound_run (h : s.Sound) (hdetect : s.config.cyclePolicy = .detect) (calls : List Call) :
    (s.run calls).Sound := by
  induction calls generalizing s with
  | nil => exact h
  | cons e rest ih =>
    refine ih (sound_call h hdetect e) ?_
    rw [config_call]
    exact hdetect

/-! ### Reachable sheets -/

/-- The sheets that detect cycles and come from an empty one, by any calls, whatever these return, and
with any observers on the way. -/
inductive Reachable : Sheet → Prop where
  | start {config : Config} (hdetect : config.cyclePolicy = .detect) : Reachable (empty config)
  | call {s : Sheet} (h : Reachable s) (e : Call) : Reachable (s.call e).sheet
  | observe {s : Sheet} (h : Reachable s) (isVisible : Ref → Bool) : Reachable (s.observe isVisible)
  | unobserve {s : Sheet} (h : Reachable s) : Reachable s.unobserve

theorem Reachable.detect (h : s.Reachable) : s.config.cyclePolicy = .detect := by
  induction h with
  | start hdetect => exact hdetect
  | call _ e ih =>
    rw [config_call]
    exact ih
  | observe _ _ ih => exact ih
  | unobserve _ ih => exact ih

theorem Reachable.sound (h : s.Reachable) : s.Sound := by
  induction h with
  | start _ => exact sound_empty _
  | call hs e ih => exact sound_call ih hs.detect e
  | observe _ _ ih => exact ⟨ih.coherent, ih.consistent⟩
  | unobserve _ ih => exact ⟨ih.coherent, ih.consistent⟩

theorem Reachable.run (h : s.Reachable) (calls : List Call) : (s.run calls).Reachable :=
  List.foldlRecOn calls _ h fun _ h' e _ => h'.call e

end Sheet

end Spreadsheet
