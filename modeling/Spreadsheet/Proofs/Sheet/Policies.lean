import Mathlib.Data.List.Infix
import Spreadsheet.Proofs.Sheet.Sound
import Spreadsheet.Proofs.Sheet.Unguarded

/-!
# The two policies on cycles

As long as no cycle is closed and no bare label is written, a sheet that recalculates unguarded does
what one does that detects cycles. Both recalculations settle all that they have to, what was entered
determines the settled cells, and both touch the edited cell first and then what reads it.
-/

namespace Spreadsheet

open Relation

namespace Grid

/-- Every cell reads only cells that come before it. -/
def Forward (cells : Grid) : Prop :=
  ∀ entry ∈ cells.toList, ∀ d ∈ entry.2.dependencies.toList, compare d entry.1 = .lt

instance (cells : Grid) : Decidable cells.Forward := List.decidableBAll _ _

theorem Forward.acyclic {cells : Grid} (h : cells.Forward) : Acyclic cells.Reads := by
  have hstep : ∀ r d, cells.Reads r d → compare d r = .lt := by
    intro r d hreads
    obtain ⟨c, hc, hd⟩ := hreads
    exact h (r, c) (Std.ExtTreeMap.mem_toList_iff_getElem?_eq_some.mpr hc) d
      (Std.ExtTreeSet.mem_toList.mpr hd)
  have hwalk : ∀ r d, TransGen cells.Reads r d → compare d r = .lt := by
    intro r d hrd
    induction hrd with
    | single hreads => exact hstep r _ hreads
    | tail _ hreads ih => exact Std.TransCmp.lt_trans (hstep _ _ hreads) ih
  intro r hcycle
  have hlt := hwalk r r hcycle
  rw [Std.compare_self] at hlt
  cases hlt

end Grid

namespace Edited

variable {old : Grid} {p : Progress} {g : Graph} {origin r : Ref}

/-- An edit unsettles at most what reads the edited cell. -/
theorem settledAt_of_not_edge (h : Edited old p.cells g origin) (hr : ¬ g.Edge origin r) :
    p.cells.SettledAt r := by
  intro c hc
  have hsame : ∀ d ∈ c.dependencies, p.cells[d]? = old[d]? := by
    intro d hd
    refine h.others d ?_
    intro heq
    subst heq
    exact hr ((h.coherent d r).mpr ⟨c, hc, hd⟩)
  by_cases horigin : r = origin
  · subst horigin
    exact (h.settled c hc).congr hsame
  · rw [h.others r horigin] at hc
    exact (h.consistent r c hc).1.congr hsame

end Edited

namespace Progress

variable {old : Grid} {p q : Progress} {g : Graph} {origin : Ref}

theorem stuck_of_acyclic (hacyclic : Acyclic g.Edge) : p.stuck g origin = [] := by
  rw [List.eq_nil_iff_forall_not_mem]
  intro r hr
  obtain ⟨hmem, hnot⟩ := mem_stuck.mp hr
  obtain ⟨y, hcycle, -⟩ := (Graph.not_mem_order_iff (nodup_affected p g origin) hmem).mp hnot
  exact hacyclic y (TransGen.mono (fun a b hab => hab.2.2) y y hcycle)

theorem snd_propagate_of_acyclic (hacyclic : Acyclic g.Edge) : (p.propagate g origin).2 = none := by
  rw [snd_propagate, if_pos (Or.inl (stuck_of_acyclic hacyclic))]

/-- Both recalculations lead to the same cells. -/
theorem Swept.cells_eq (h : Swept g p (g.dependents origin) q)
    (hedit : Edited old p.cells g origin) (hacyclic : Acyclic p.cells.Reads)
    (hlabels : ∀ (r : Ref) (c : Cell), p.cells[r]? = some c → ¬ HasBareLabel c.raw) :
    (p.propagate g origin).1.cells = q.cells := by
  have hreads := Grid.reads_eq_of_contents h.fitsTexts hedit.fitsTexts h.contents
  have hconsistent : q.cells.Consistent := by
    refine Grid.consistent_of_acyclic (hreads ▸ hacyclic) fun r => h.settled r ?_
    by_cases hedge : g.Edge origin r
    · exact Or.inl (Graph.mem_dependents.mpr hedge)
    · exact Or.inr (hedit.settledAt_of_not_edge hedge)
  have hcontents := (keeps_propagate p g origin).contents
  refine (consistent_propagate hedit).eq_of_contents hconsistent (hcontents.trans h.contents.symm) ?_
  intro r c hc
  obtain ⟨c', hc', hraw, -⟩ := Grid.exists_of_contents_eq (congrFun hcontents r) hc
  rw [hraw]
  exact hlabels r c' hc'

/-- Both recalculations touch the same references. -/
theorem Swept.mem_touched_iff (h : Swept g p (g.dependents origin) q)
    (hedit : Edited old p.cells g origin) (htouched : p.touched = [origin]) (x : Ref) :
    x ∈ (p.propagate g origin).1.touched ↔ x ∈ q.touched := by
  rw [mem_touched_of_edited hedit htouched, h.mem_touched, htouched, List.mem_singleton,
    ReflTransGen.cases_head_iff, eq_comm]
  simp only [Graph.mem_dependents]

end Progress

namespace Sheet

/-- Two results list the same changes, in orders that have the same first entry. -/
def SameChanges (a b : Except SheetError (List Change)) : Prop :=
  ∃ changes changes', a = .ok changes ∧ b = .ok changes' ∧ changes.Perm changes' ∧
    changes.head? = changes'.head?

/-- What a call does on a sheet that detects cycles and on one that recalculates unguarded: the cells
and the graph are the same after it, and so are the changes, but for their order. The unguarded
recursion ends, at a depth that the number of cells bounds. -/
structure Agree (d u : Sheet) (e : Call) : Prop where
  cells : (d.call e).sheet.cells = (u.call e).sheet.cells
  graph : (d.call e).sheet.graph = (u.call e).sheet.graph
  changes : e.parses = true → SameChanges (d.call e).result (u.call e).result
  ends : ∀ g p r, u.stage e = .edited g p r → ∃ q, ∀ depth, p.cells.size < depth →
    Progress.propagateUnguarded? g depth p r = some q

/-- A sound sheet that detects cycles, and one that recalculates unguarded, with the same cells and
no bare labels in them. -/
structure Twins (d u : Sheet) : Prop where
  detect : d.config.cyclePolicy = .detect
  unguarded : u.config.cyclePolicy = .unguarded
  keepFormat : d.config.keepFormatOnClear = u.config.keepFormatOnClear
  errorTexts : d.config.errorTexts = u.config.errorTexts
  cells : d.cells = u.cells
  graph : d.graph = u.graph
  sound : d.Sound
  labels : ∀ (r : Ref) (c : Cell), d.cells[r]? = some c → ¬ HasBareLabel c.raw

variable {d u : Sheet} {e : Call}

theorem change_congr (hcells : d.cells = u.cells)
    (htexts : d.config.errorTexts = u.config.errorTexts) : d.change = u.change := by
  funext r
  rw [change, change, hcells]
  split
  · rw [display, display, htexts]
  · rfl

theorem sameChanges_publish {p q : Progress} {r : Ref} (hcells : p.cells = q.cells)
    (htexts : d.config.errorTexts = u.config.errorTexts)
    (hmem : ∀ x, x ∈ p.touched ↔ x ∈ q.touched) (hp : [r] <:+ p.touched) (hq : [r] <:+ q.touched) :
    SameChanges (d.publish p none).result (u.publish q none).result := by
  refine ⟨_, _, rfl, rfl, ?_, ?_⟩
  · rw [change_congr (d := { d with cells := p.cells }) (u := { u with cells := q.cells }) hcells htexts]
    apply List.Perm.map
    rw [List.perm_ext_iff_of_nodup p.nodup_touchedOnce q.nodup_touchedOnce]
    intro x
    rw [Progress.mem_touchedOnce, Progress.mem_touchedOnce, hmem]
  · rw [change_congr (d := { d with cells := p.cells }) (u := { u with cells := q.cells }) hcells htexts,
      List.head?_map, List.head?_map, Progress.head?_touchedOnce_of_suffix hp,
      Progress.head?_touchedOnce_of_suffix hq]

theorem finish_of_unguarded {s : Sheet} {p q : Progress} {r : Ref}
    (hunguarded : s.config.cyclePolicy = .unguarded)
    (h : Progress.propagateUnguarded? s.graph (p.cells.size + 1) p r = some q) :
    s.finish p r = s.publish q none := by
  rw [finish, hunguarded]
  simp only [h]

theorem Twins.stage_eq (h : Twins d u) (e : Call) : u.stage e = d.stage e :=
  (stage_congr h.cells h.graph h.keepFormat e).symm

theorem Twins.labels_of_stage (h : Twins d u)
    (hlabel : ∀ raw ∈ e.written?, ¬ HasBareLabel raw) {g : Graph} {p : Progress} {r : Ref}
    (hstage : d.stage e = .edited g p r) (x : Ref) (c : Cell) (hc : p.cells[x]? = some c) :
    ¬ HasBareLabel c.raw := by
  rcases raw_of_stage hstage hc with ⟨c', hc', hraw⟩ | hraw | hwritten
  · rw [hraw]
    exact h.labels x c' hc'
  · rw [hraw]
    decide +kernel
  · exact hlabel c.raw hwritten

/-- Both recalculations end, with the same cells and the same touched references. -/
theorem Twins.exists_finish (h : Twins d u)
    (hlabel : ∀ raw ∈ e.written?, ¬ HasBareLabel raw)
    (hacyclic : Acyclic (d.call e).sheet.cells.Reads) {g : Graph} {p : Progress} {r : Ref}
    (hstage : d.stage e = .edited g p r) :
    ∃ q, Progress.propagateUnguarded? g (p.cells.size + 1) p r = some q ∧
      (p.propagate g r).1.cells = q.cells ∧
      ({ d with graph := g } : Sheet).finish p r =
        ({ d with graph := g } : Sheet).publish (p.propagate g r).1 none ∧
      ({ u with graph := g } : Sheet).finish p r = ({ u with graph := g } : Sheet).publish q none ∧
      SameChanges (d.call e).result (u.call e).result := by
  have hedit := edited_of_stage h.sound hstage
  have htouched := touched_of_stage hstage
  obtain ⟨hsheet, hresult⟩ := call_of_edited hstage
  obtain ⟨-, hresult'⟩ := call_of_edited ((h.stage_eq e).trans hstage)
  rw [hsheet, sheet_finish (s := { d with graph := g }) h.detect] at hacyclic
  have hreads : Acyclic p.cells.Reads := Progress.reads_propagate hedit ▸ hacyclic
  have hedges := hedit.coherent.acyclic_iff.mpr hreads
  obtain ⟨q, hq, hswept⟩ := Progress.exists_swept hedges hedit.fitsTexts hedit.coherent
    (Graph.length_closure_le hedit.coherent r)
  have hcells := hswept.cells_eq hedit hreads (h.labels_of_stage hlabel hstage)
  have hfinish : ({ d with graph := g } : Sheet).finish p r =
      ({ d with graph := g } : Sheet).publish (p.propagate g r).1 none := by
    rw [finish_of_detect (s := { d with graph := g }) h.detect,
      Progress.snd_propagate_of_acyclic hedges]
  have hfinish' : ({ u with graph := g } : Sheet).finish p r =
      ({ u with graph := g } : Sheet).publish q none :=
    finish_of_unguarded (s := { u with graph := g }) h.unguarded hq
  obtain ⟨changes, changes', hok, hok', hsame⟩ := sameChanges_publish
    (d := { d with graph := g }) (u := { u with graph := g }) hcells h.errorTexts
    (hswept.mem_touched_iff hedit htouched)
    (htouched ▸ Progress.suffix_touched_propagate p g r) (htouched ▸ hswept.suffix)
  exact ⟨q, hq, hcells, hfinish, hfinish', changes, changes', hresult changes (hfinish ▸ hok),
    hresult' changes' (hfinish' ▸ hok'), hsame⟩

theorem Twins.agree (h : Twins d u) (hlabel : ∀ raw ∈ e.written?, ¬ HasBareLabel raw)
    (hacyclic : Acyclic (d.call e).sheet.cells.Reads) : Agree d u e := by
  cases hstage : d.stage e with
  | idle result =>
    have hstage' := (h.stage_eq e).trans hstage
    refine ⟨?_, ?_, fun hparses => ?_, fun g p r hedited => ?_⟩
    · rw [call_of_idle hstage, call_of_idle hstage']
      exact h.cells
    · rw [call_of_idle hstage, call_of_idle hstage']
      exact h.graph
    · rw [call_of_idle hstage, call_of_idle hstage', idle_of_parses hparses hstage]
      exact ⟨[], [], rfl, rfl, List.Perm.refl [], rfl⟩
    · rw [hstage'] at hedited
      cases hedited
  | edited g p r =>
    have hstage' := (h.stage_eq e).trans hstage
    obtain ⟨q, hq, hcells, hfinish, hfinish', hchanges⟩ := h.exists_finish hlabel hacyclic hstage
    have hsheet := (call_of_edited hstage).1
    have hsheet' := (call_of_edited hstage').1
    rw [hfinish] at hsheet
    rw [hfinish'] at hsheet'
    refine ⟨?_, ?_, fun _ => hchanges, fun g' p' r' hedited => ?_⟩
    · rw [hsheet, hsheet']
      exact hcells
    · rw [hsheet, hsheet']
      rfl
    · rw [hstage'] at hedited
      obtain ⟨rfl, rfl, rfl⟩ := Stage.edited.inj hedited
      exact ⟨q, fun depth hdepth => Progress.propagateUnguarded?_of_le hdepth hq⟩

/-- A call that closes no cycle leads from twins to twins. -/
theorem Twins.call (h : Twins d u) (hlabel : ∀ raw ∈ e.written?, ¬ HasBareLabel raw)
    (hacyclic : Acyclic (d.call e).sheet.cells.Reads) :
    Twins (d.call e).sheet (u.call e).sheet := by
  have hagree := h.agree hlabel hacyclic
  refine ⟨?_, ?_, ?_, ?_, hagree.cells, hagree.graph, sound_call h.sound h.detect e, ?_⟩
  · rw [config_call]
    exact h.detect
  · rw [config_call]
    exact h.unguarded
  · rw [config_call, config_call]
    exact h.keepFormat
  · rw [config_call, config_call]
    exact h.errorTexts
  · intro x c hc
    cases hstage : d.stage e with
    | idle result =>
      rw [call_of_idle hstage] at hc
      exact h.labels x c hc
    | edited g p r =>
      rw [(call_of_edited hstage).1, sheet_finish (s := { d with graph := g }) h.detect] at hc
      obtain ⟨c', hc', hraw, -⟩ :=
        Grid.exists_of_contents_eq (congrFun (Progress.keeps_propagate p g r).contents x) hc
      rw [hraw]
      exact h.labels_of_stage hlabel hstage x c' hc'

theorem run_concat (s : Sheet) (calls : List Call) (e : Call) :
    s.run (calls ++ [e]) = ((s.run calls).call e).sheet := by
  rw [run, List.foldl_append]
  rfl

theorem twins_run {config : Config} {calls : List Call}
    (hlabels : ∀ e ∈ calls, ∀ raw ∈ e.written?, ¬ HasBareLabel raw)
    (hacyclic : ∀ before, before <+: calls →
      Acyclic ((empty { config with cyclePolicy := .detect }).run before).cells.Reads)
    {before : List Call} (hbefore : before <+: calls) :
    Twins ((empty { config with cyclePolicy := .detect }).run before)
      ((empty { config with cyclePolicy := .unguarded }).run before) := by
  induction before using List.reverseRecOn with
  | nil =>
    refine ⟨rfl, rfl, rfl, rfl, rfl, rfl, sound_empty _, fun r c hc => ?_⟩
    simp [run, empty] at hc
  | append_singleton before e ih =>
    rw [run_concat, run_concat]
    refine (ih ((List.prefix_append before [e]).trans hbefore)).call (hlabels e ?_) ?_
    · exact hbefore.subset (List.mem_append_right before List.mem_cons_self)
    · rw [← run_concat]
      exact hacyclic (before ++ [e]) hbefore

/-- As long as no bare label is written and no call closes a cycle, the two policies agree on every
call of a run. -/
theorem policies_agree (config : Config) (calls : List Call)
    (hlabels : ∀ e ∈ calls, ∀ raw ∈ e.written?, ¬ HasBareLabel raw)
    (hacyclic : ∀ before, before <+: calls →
      Acyclic ((empty { config with cyclePolicy := .detect }).run before).cells.Reads)
    {before : List Call} {e : Call} (hcall : before ++ [e] <+: calls) :
    Agree ((empty { config with cyclePolicy := .detect }).run before)
      ((empty { config with cyclePolicy := .unguarded }).run before) e := by
  have hbefore := (List.prefix_append before [e]).trans hcall
  refine (twins_run hlabels hacyclic hbefore).agree (hlabels e ?_) ?_
  · exact hcall.subset (List.mem_append_right before List.mem_cons_self)
  · rw [← run_concat]
    exact hacyclic (before ++ [e]) hcall

/-- A cell that is read along two paths, with its text changed afterwards. -/
def diamond : List Call :=
  [.setAt "A1" "1", .setAt "B1" "=A1+1", .setAt "C1" "=A1*B1", .setAt "D1" "=B1+C1",
    .toggleAt "bold" "B1", .setAt "A1" "5"]

theorem policies_agree_of_diamond :
    Agree ((empty { cyclePolicy := .detect }).run diamond.dropLast)
      ((empty { cyclePolicy := .unguarded }).run diamond.dropLast) (.setAt "A1" "5") := by
  refine policies_agree {} diamond (by decide +kernel) ?_ List.prefix_rfl
  intro before hbefore
  have hforward : ∀ before ∈ diamond.inits,
      ((empty { cyclePolicy := .detect }).run before).cells.Forward := by
    decide +kernel
  exact (hforward before ((List.mem_inits before diamond).mpr hbefore)).acyclic

end Sheet

end Spreadsheet
