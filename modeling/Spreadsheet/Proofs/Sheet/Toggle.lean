import Spreadsheet.Proofs.Format
import Spreadsheet.Proofs.Grid.Toggled
import Spreadsheet.Proofs.Sheet.Reachable

/-!
# Toggles

A toggle flips a flag of one cell and recalculates what reads it, as any edit does. Nothing that is
recalculated can have changed by the toggle, so it comes out as it was, unless it was stale: a formula
with a bare label gets no notice when the number behind the label changes, and takes it in the next
time that it is computed for another reason. A toggle is such a reason. It keeps all other cells
exactly if no cell that reads the toggled one is stale.
-/

namespace Spreadsheet

open Relation

/-! ### Recalculating what is up to date -/

namespace Progress

variable {old : Grid} {p q : Progress} {g : Graph} {origin r : Ref} {taken : List Ref}

theorem cells_recompute_eq_iff : (q.recompute r).cells = q.cells ↔ q.cells.FixedAt r := by
  constructor
  · intro h c hc
    have hself : (q.recompute r).cells[r]? = some (q.cells.spread (c.recompute q.cells.lookup)) := by
      rw [recompute_of_some hc, store, Std.ExtTreeMap.getElem?_insert_self]
    rw [h, hc] at hself
    exact (Option.some.inj hself).symm
  · intro hfixed
    cases hc : q.cells[r]? with
    | none => rw [recompute_of_none hc]
    | some c =>
      rw [recompute_of_some hc, store, hfixed c hc]
      apply Std.ExtTreeMap.ext_getElem?
      intro x
      by_cases hx : r = x
      · subst hx
        rw [Std.ExtTreeMap.getElem?_insert_self, hc]
      · rw [Std.ExtTreeMap.getElem?_insert, if_neg (by simpa using hx)]

theorem getElem?_retake_of_not_mem (hr : r ∉ taken) :
    (p.retake origin taken).cells[r]? = p.cells[r]? := by
  induction taken with
  | nil => rfl
  | cons x earlier ih =>
    rw [List.mem_cons, not_or] at hr
    rw [retake_cons]
    split
    · exact ih hr.2
    · rw [getElem?_recompute_of_ne hr.1, ih hr.2]

theorem cells_retake_eq_iff (hnodup : taken.Nodup) : (p.retake origin taken).cells = p.cells ↔
    ∀ x ∈ taken, x ≠ origin → p.cells.FixedAt x := by
  induction taken with
  | nil => exact iff_of_true rfl fun x hx => absurd hx List.not_mem_nil
  | cons r earlier ih =>
    obtain ⟨hfresh, hnodup⟩ := List.nodup_cons.mp hnodup
    rw [retake_cons, List.forall_mem_cons, ← ih hnodup]
    by_cases horigin : r = origin
    · rw [if_pos horigin, and_iff_right fun hne => absurd horigin hne]
    · rw [if_neg horigin]
      constructor
      · intro h
        -- Each cell is computed once, so what is there in the end was there before the last step.
        have hearlier : (p.retake origin earlier).cells = p.cells := by
          apply Std.ExtTreeMap.ext_getElem?
          intro x
          by_cases hx : x = r
          · subst hx
            exact getElem?_retake_of_not_mem hfresh
          · rw [← getElem?_recompute_of_ne hx, h]
        refine ⟨fun _ => ?_, hearlier⟩
        rw [← hearlier]
        exact cells_recompute_eq_iff.mp (h.trans hearlier.symm)
      · intro hboth
        obtain ⟨hfixed, hearlier⟩ := hboth
        refine Eq.trans (cells_recompute_eq_iff.mpr ?_) hearlier
        rw [hearlier]
        exact hfixed horigin

/-- A recalculation of a consistent grid changes nothing exactly if nothing that it computes is
stale. -/
theorem cells_propagate_eq_iff (hedit : Edited old p.cells g origin) (h : p.cells.Consistent) :
    (p.propagate g origin).1.cells = p.cells ↔
      ∀ x ∈ p.affected g origin, x ≠ origin → ¬ p.cells.IsStale x := by
  have hmarked : ∀ x ∈ p.stuck g origin, ∃ c, p.cells[x]? = some c ∧ c.error = some .cyclic ∧
      (p.propagate g origin).1.cells[x]? = p.cells[x]? := by
    intro x hx
    obtain ⟨c, hc, hmark⟩ := getElem?_of_mem_stuck hedit hx
    have herror := (h x c hc).2.mpr (leadsToCycle_of_mem_stuck hedit hx)
    rw [(h x c hc).1.mark_cyclic herror] at hmark
    exact ⟨c, hc, herror, hmark.trans hc.symm⟩
  have hretake : (p.propagate g origin).1.cells = p.cells ↔
      (p.retake origin (g.order (p.affected g origin)).reverse).cells = p.cells := by
    simp only [Std.ExtTreeMap.ext_getElem?_iff]
    refine forall_congr' fun x => ?_
    by_cases hx : x ∈ p.stuck g origin
    · obtain ⟨c, -, -, hsame⟩ := hmarked x hx
      have hnot : x ∉ (g.order (p.affected g origin)).reverse :=
        mt List.mem_reverse.mp (mem_stuck.mp hx).2
      exact iff_of_true hsame (getElem?_retake_of_not_mem hnot)
    · rw [getElem?_of_not_mem_stuck hx]
  have haffected := nodup_affected p g origin
  rw [hretake, cells_retake_eq_iff (List.nodup_reverse.mpr (Graph.nodup_order haffected))]
  refine forall_congr' fun x => ?_
  rw [List.mem_reverse, Grid.fixedAt_iff (h.settledAt x)]
  constructor
  · intro hordered hx horigin hstale
    by_cases hx' : x ∈ g.order (p.affected g origin)
    · exact hordered hx' horigin hstale
    · obtain ⟨c, hc, herror, -⟩ := hmarked x (mem_stuck.mpr ⟨hx, hx'⟩)
      obtain ⟨c', hc', herror', -⟩ := hstale
      obtain rfl : c = c' := Option.some.inj (hc.symm.trans hc')
      exact absurd (herror.symm.trans herror') (Option.some_ne_none _)
  · intro hfresh hx
    exact hfresh ((Graph.mem_order_iff haffected).mp hx).1

end Progress

/-! ### Toggling a flag -/

namespace Sheet

variable {s : Sheet} {r : Ref} {kind : FormatKind} {name reference : String}

theorem toggleAt_eq (hr : Ref.parse? reference = some r) (hkind : FormatKind.ofName? name = some kind) :
    s.toggleAt name reference = s.toggle kind r := by
  rw [toggleAt, SheetError.parseRef, hr]
  dsimp only
  rw [hkind]

/-- A toggle always gives its changes, also on a cycle. -/
theorem exists_ok_toggle (hdetect : s.config.cyclePolicy = .detect) (kind : FormatKind) (r : Ref) :
    ∃ changes, (s.toggle kind r).result = .ok changes := by
  rw [toggle, finish_of_detect hdetect]
  generalize (Progress.propagate _ _ _).2 = cycle
  cases cycle with
  | none => exact ⟨_, rfl⟩
  | some path => exact ⟨_, rfl⟩

/-- What there is to recalculate after a toggle. -/
def toggledProgress (s : Sheet) (kind : FormatKind) (r : Ref) : Progress :=
  ⟨s.cells.toggled r kind, [r]⟩

theorem sheet_toggle (hdetect : s.config.cyclePolicy = .detect) (kind : FormatKind) (r : Ref) :
    (s.toggle kind r).sheet =
      { s with cells := ((s.toggledProgress kind r).propagate s.graph r).1.cells } := by
  have hstage : s.stageToggle kind r = .edited s.graph (s.toggledProgress kind r) r := rfl
  have hfinish := sheet_finish hdetect (s.toggledProgress kind r) r
  rcases toggle_of_edited hstage with h | ⟨path, changes, -, h⟩
  · rw [h]
    exact hfinish
  · rw [h]
    exact hfinish

theorem edited_of_toggle (h : s.Sound) (kind : FormatKind) (r : Ref) :
    Edited s.cells (s.toggledProgress kind r).cells s.graph r := by
  refine ⟨h.consistent, fun x hx => Grid.getElem?_toggled_of_ne hx, fun c hc => ?_, fun q x => ?_⟩
  · obtain rfl := Option.some.inj ((Grid.getElem?_toggled_self _ _ _).symm.trans hc)
    exact Grid.settled_toggle (h.consistent.settledAt r) kind
  · rw [h.coherent, toggledProgress, Grid.reads_toggled]

/-! ### What a toggle leaves as it is -/

/-- The flag of one cell is flipped, and of the other cells at most the values are others. -/
structure TogglesBut (cells : Grid) (r : Ref) (kind : FormatKind) (after : Grid) : Prop where
  toggled : after[r]? = some ((cells[r]?.getD (.ofFormat {})).toggle kind)
  others : ∀ x, x ≠ r → ∃ value, after[x]? = cells[x]?.map fun c => { c with computed := value }

theorem affected_toggled (h : s.Sound) {x : Ref} (hx : x ≠ r) :
    x ∈ (s.toggledProgress kind r).affected s.graph r ↔ TransGen s.cells.Reads x r := by
  have hedit := edited_of_toggle h kind r
  have hreads : (s.toggledProgress kind r).cells.Reads = s.cells.Reads := Grid.reads_toggled _ _ _
  rw [Progress.mem_affected, hedit.coherent.walk_iff, hreads, reflTransGen_iff_eq_or_transGen,
    or_iff_right (Ne.symm hx), and_iff_left_iff_imp]
  intro hwalk
  obtain ⟨d, hstep, -⟩ := TransGen.head'_iff.mp hwalk
  rw [← hreads] at hstep
  exact hstep.mem

theorem togglesBut_propagate (h : s.Sound) (kind : FormatKind) (r : Ref) :
    TogglesBut s.cells r kind ((s.toggledProgress kind r).propagate s.graph r).1.cells := by
  have hedit := edited_of_toggle h kind r
  have hbefore : (s.toggledProgress kind r).cells.Consistent := Grid.consistent_toggled h.consistent
  have hafter := Progress.consistent_propagate hedit
  have hcontents := (Progress.keeps_propagate (s.toggledProgress kind r) s.graph r).contents
  have hcell : (s.toggledProgress kind r).cells[r]? = _ := Grid.getElem?_toggled_self s.cells r kind
  refine ⟨?_, fun x hx => ?_⟩
  · rcases Progress.getElem?_propagate_origin hedit with hsame | hmarked
    · exact hsame.trans hcell
    · -- What is marked lies on a cycle or behind one, where it was marked before.
      rw [hcell, Option.map_some] at hmarked
      have hcycle := (hafter r _ hmarked).2.mp rfl
      rw [Progress.reads_propagate hedit] at hcycle
      obtain ⟨hsettled, hmark⟩ := hbefore r _ hcell
      rwa [hsettled.mark_cyclic (hmark.mpr hcycle)] at hmarked
  · obtain ⟨value, hvalue⟩ := hbefore.exists_value hafter hcontents.symm x
    refine ⟨value, hvalue.trans ?_⟩
    rw [toggledProgress, Grid.getElem?_toggled_of_ne hx]

theorem sheet_toggle_eq_iff (h : s.Sound) (hdetect : s.config.cyclePolicy = .detect) :
    (s.toggle kind r).sheet = { s with cells := s.cells.toggled r kind } ↔
      ∀ x, x ≠ r → TransGen s.cells.Reads x r → ¬ s.cells.IsStale x := by
  have hiff := Progress.cells_propagate_eq_iff (edited_of_toggle h kind r)
    (Grid.consistent_toggled h.consistent)
  rw [sheet_toggle hdetect, Sheet.mk.injEq]
  simp only [true_and, and_true]
  refine hiff.trans (forall_congr' fun x => ?_)
  constructor
  · intro hfresh hx hwalk hstale
    refine hfresh ((affected_toggled h hx).mpr hwalk) hx ?_
    exact (Grid.isStale_toggled_iff hx).mpr hstale
  · intro hfresh hmem hx hstale
    refine hfresh hx ((affected_toggled h hx).mp hmem) ?_
    exact (Grid.isStale_toggled_iff hx).mp hstale

/-- A toggle of a known kind never fails. It flips the flag and changes nothing else, but for the
values of other cells, and those it keeps exactly if no cell that reads the toggled one is stale. -/
theorem toggleAt_keeps_iff (h : s.Reachable) (hr : Ref.parse? reference = some r)
    (hkind : FormatKind.ofName? name = some kind) :
    (∃ changes, (s.toggleAt name reference).result = .ok changes) ∧
      (∃ cells, (s.toggleAt name reference).sheet = { s with cells } ∧
        TogglesBut s.cells r kind cells) ∧
      ((s.toggleAt name reference).sheet = { s with cells := s.cells.toggled r kind } ↔
        ∀ x, x ≠ r → TransGen s.cells.Reads x r → ¬ s.cells.IsStale x) ∧
      ∀ x, s.cells.IsStale x → ∃ c, s.cells[x]? = some c ∧ HasBareLabel c.raw := by
  rw [toggleAt_eq hr hkind]
  refine ⟨exists_ok_toggle h.detect kind r, ?_, sheet_toggle_eq_iff h.sound h.detect, fun x => ?_⟩
  · exact ⟨_, sheet_toggle h.detect kind r, togglesBut_propagate h.sound kind r⟩
  · exact Grid.exists_bareLabel_of_isStale (h.sound.consistent.settledAt x)

/-- The cell that is toggled lies on the cycle, and a cell outside reads it. -/
theorem toggleAt_keeps_of_readCycle :
    (TransGen ((empty {}).run readCycle).cells.Reads (.ofCoordinates 3 1) (.ofCoordinates 3 1) ∧
        ((empty {}).run readCycle).cells.Reads firstCell (.ofCoordinates 3 1)) ∧
      (∃ changes, (((empty {}).run readCycle).toggleAt "bold" "c1").result = .ok changes) ∧
      (((empty {}).run readCycle).toggleAt "bold" "c1").sheet =
        { (empty {}).run readCycle with
          cells := ((empty {}).run readCycle).cells.toggled (.ofCoordinates 3 1) .bold } := by
  have hlabels : ∀ entry ∈ ((empty {}).run readCycle).cells.entries, ¬ HasBareLabel entry.2.1 := by
    decide +kernel
  obtain ⟨hforth, hback, houtside⟩ :
      ((empty {}).run readCycle).cells.Reads (.ofCoordinates 3 1) (.ofCoordinates 2 1) ∧
      ((empty {}).run readCycle).cells.Reads (.ofCoordinates 2 1) (.ofCoordinates 3 1) ∧
      ((empty {}).run readCycle).cells.Reads firstCell (.ofCoordinates 3 1) := by
    simp only [Grid.reads_iff_mem_precedents]
    decide +kernel
  have hreachable : ((empty {}).run readCycle).Reachable := (Reachable.start rfl).run _
  have hr : Ref.parse? "c1" = some (.ofCoordinates 3 1) := by decide +kernel
  have hkind : FormatKind.ofName? "bold" = some .bold := rfl
  obtain ⟨hok, -, hkeeps, hstale⟩ := toggleAt_keeps_iff hreachable hr hkind
  refine ⟨⟨(TransGen.single hforth).tail hback, houtside⟩, hok, ?_⟩
  refine hkeeps.mpr fun x _ _ hx => ?_
  obtain ⟨c, hc, hlabel⟩ := hstale x hx
  refine hlabels (x, c.raw, c.format) (Grid.mem_entries.mpr ?_) hlabel
  rw [Grid.contents, hc, Option.map_some]

/-- A formula with a bare label, entered before the number behind the label. -/
def staleLabel : Sheet := (empty {}).run [.setAt "C1" "=A1+B", .setAt "B" "5"]

/-- A toggle of another cell, which is not even stored, changes the value of the formula. -/
theorem toggleAt_changes_staleLabel :
    staleLabel.Reachable ∧ Ref.parse? "A1" = some firstCell ∧
      FormatKind.ofName? "bold" = some .bold ∧
      ∃ x, x ≠ firstCell ∧ staleLabel.cells[x]?.map (·.computed) = some 0.0 ∧
        (staleLabel.toggleAt "bold" "A1").sheet.cells[x]?.map (·.computed) = some 5.0 := by
  refine ⟨(Reachable.start rfl).run _, by decide +kernel, rfl, ?_⟩
  exact ⟨(Ref.parse? "C1").get (by decide +kernel), by decide +kernel⟩

end Sheet

end Spreadsheet
