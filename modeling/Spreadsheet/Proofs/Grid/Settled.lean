import Spreadsheet.Grid.Basic
import Spreadsheet.Proofs.Cell
import Spreadsheet.Proofs.Relation

/-!
# Settled cells

A cell is settled when it holds what recomputing it would give. A bare label is read without a
dependency on it, so this asks only for some numbers that agree with the current ones on what the
cell depends on. That makes being settled a matter of the cells that the cell reads, and of no other.
-/

namespace Spreadsheet.Grid

open Relation Formula

/-- A stored cell depends on a reference. -/
def Reads (cells : Grid) (r d : Ref) : Prop := ∃ c, cells[r]? = some c ∧ d ∈ c.dependencies

/-- What the cell at a reference depends on. -/
def precedents (cells : Grid) (r : Ref) : RefSet := (cells[r]?.map (·.dependencies)).getD ∅

/-- A stored cell is marked as cyclic. -/
def Marked (cells : Grid) (r : Ref) : Prop := ∃ c, cells[r]? = some c ∧ c.error = some .cyclic

/-- The cell holds what recomputing it would give. -/
def Settled (cells : Grid) (c : Cell) : Prop :=
  ∃ lookup : Lookup, (∀ r ∈ c.dependencies, lookup r = cells.lookup r) ∧
    c = cells.spread (c.recompute lookup)

/-- The cell stored at a reference, if there is one, is settled. -/
def SettledAt (cells : Grid) (r : Ref) : Prop := ∀ c, cells[r]? = some c → cells.Settled c

theorem mem_of_some {cells : Grid} {r : Ref} {c : Cell} (hc : cells[r]? = some c) : r ∈ cells := by
  rw [← Std.ExtTreeMap.isSome_getElem?_iff_mem, hc]
  rfl

theorem exists_of_mem {cells : Grid} {r : Ref} (h : r ∈ cells) : ∃ c, cells[r]? = some c :=
  Option.isSome_iff_exists.mp (Std.ExtTreeMap.isSome_getElem?_iff_mem.mpr h)

theorem reads_iff_of_some {cells : Grid} {r d : Ref} {c : Cell} (hc : cells[r]? = some c) :
    cells.Reads r d ↔ d ∈ c.dependencies := by
  simp [Reads, hc]

theorem not_reads_of_none {cells : Grid} {r d : Ref} (hc : cells[r]? = none) : ¬ cells.Reads r d := by
  simp [Reads, hc]

theorem reads_iff_mem_precedents {cells : Grid} {r d : Ref} :
    cells.Reads r d ↔ d ∈ cells.precedents r := by
  rw [precedents]
  cases hc : cells[r]? with
  | none => exact iff_of_false (not_reads_of_none hc) Std.ExtTreeSet.not_mem_empty
  | some c => exact reads_iff_of_some hc

theorem Reads.mem {cells : Grid} {r d : Ref} (h : cells.Reads r d) : r ∈ cells := by
  obtain ⟨c, hc, -⟩ := h
  exact mem_of_some hc

theorem lookup_congr {cells cells' : Grid} {r : Ref} (h : cells[r]? = cells'[r]?) :
    cells.lookup r = cells'.lookup r := by
  rw [lookup, lookup, h]

theorem marked_congr {cells cells' : Grid} {r : Ref} (h : cells[r]? = cells'[r]?) :
    cells.Marked r ↔ cells'.Marked r := by
  rw [Marked, Marked, h]

theorem readsCycle_iff {cells : Grid} {c : Cell} :
    cells.readsCycle c = true ↔ ∃ r ∈ c.dependencies, cells.Marked r := by
  simp only [readsCycle, List.any_eq_true, Std.ExtTreeSet.mem_toList, Option.any_eq_true, Marked,
    beq_iff_eq]

/-! ### Spreading marks -/

@[simp] theorem raw_spread (cells : Grid) (c : Cell) : (cells.spread c).raw = c.raw := by
  unfold spread
  split <;> rfl

@[simp] theorem format_spread (cells : Grid) (c : Cell) : (cells.spread c).format = c.format := by
  unfold spread
  split <;> rfl

@[simp] theorem dependencies_spread (cells : Grid) (c : Cell) :
    (cells.spread c).dependencies = c.dependencies := by
  unfold spread
  split <;> rfl

theorem computed_of_spread {cells : Grid} {c : Cell} (h : (cells.spread c).error = none) :
    (cells.spread c).computed = c.computed := by
  unfold spread at h ⊢
  split at h
  · cases h
  · rw [if_neg (by assumption)]

theorem spread_recompute_of_marked {cells : Grid} {c : Cell} {lookup : Lookup}
    (h : ∃ r ∈ Cell.precedentsOf c.raw, cells.Marked r) : cells.spread (c.recompute lookup) =
      ⟨c.raw, Cell.isExpressionText c.raw, 0.0, Cell.precedentsOf c.raw, some .cyclic, c.format⟩ := by
  have hread : cells.readsCycle (c.recompute lookup) = true := by
    rw [readsCycle_iff, Cell.recompute_eq]
    exact h
  obtain ⟨r, hr, -⟩ := h
  rw [spread, hread, Cell.recompute_eq, Cell.errorOf_of_mem_precedentsOf hr]
  rfl

theorem spread_recompute_of_not_marked {cells : Grid} {c : Cell} {lookup : Lookup}
    (h : ¬ ∃ r ∈ Cell.precedentsOf c.raw, cells.Marked r) :
    cells.spread (c.recompute lookup) = c.recompute lookup := by
  have hread : ¬ cells.readsCycle (c.recompute lookup) = true := by
    rw [readsCycle_iff, Cell.recompute_eq]
    exact h
  simp [spread, hread]

/-! ### Settled cells -/

variable {cells cells' : Grid} {c : Cell}

theorem Settled.isExpression_eq (h : cells.Settled c) : c.isExpression = Cell.isExpressionText c.raw := by
  obtain ⟨lookup, -, hc⟩ := h
  by_cases hmarked : ∃ r ∈ Cell.precedentsOf c.raw, cells.Marked r
  · rw [spread_recompute_of_marked hmarked] at hc
    exact congrArg Cell.isExpression hc
  · rw [spread_recompute_of_not_marked hmarked, Cell.recompute_eq] at hc
    exact congrArg Cell.isExpression hc

theorem Settled.dependencies_eq (h : cells.Settled c) : c.dependencies = Cell.precedentsOf c.raw := by
  obtain ⟨lookup, -, hc⟩ := h
  rw [Cell.recompute_eq] at hc
  simpa using congrArg Cell.dependencies hc

/-- A settled cell is marked exactly if it reads a marked cell. -/
theorem Settled.error_eq_cyclic_iff (h : cells.Settled c) :
    c.error = some .cyclic ↔ ∃ r ∈ c.dependencies, cells.Marked r := by
  have hdeps := h.dependencies_eq
  obtain ⟨lookup, -, hc⟩ := h
  rw [hdeps]
  by_cases hmarked : ∃ r ∈ Cell.precedentsOf c.raw, cells.Marked r
  · rw [spread_recompute_of_marked hmarked] at hc
    rw [congrArg Cell.error hc]
    exact iff_of_true rfl hmarked
  · rw [spread_recompute_of_not_marked hmarked, Cell.recompute_eq] at hc
    rw [congrArg Cell.error hc]
    exact iff_of_false (Cell.errorOf_ne_cyclic c.raw) hmarked

/-- A settled cell without a mark has the error of its text. -/
theorem Settled.error_eq_errorOf (h : cells.Settled c) (herror : c.error ≠ some .cyclic) :
    c.error = Cell.errorOf c.raw := by
  have hmarked := mt h.error_eq_cyclic_iff.mpr herror
  rw [h.dependencies_eq] at hmarked
  obtain ⟨lookup, -, hc⟩ := h
  rw [spread_recompute_of_not_marked hmarked, Cell.recompute_eq] at hc
  exact congrArg Cell.error hc

theorem Settled.computed_of_cyclic (h : cells.Settled c) (herror : c.error = some .cyclic) :
    c.computed = 0.0 := by
  have hmarked := h.error_eq_cyclic_iff.mp herror
  rw [h.dependencies_eq] at hmarked
  obtain ⟨lookup, -, hc⟩ := h
  rw [spread_recompute_of_marked hmarked] at hc
  exact congrArg Cell.computed hc

/-- Being settled is a matter of the cells that a cell reads. -/
theorem Settled.congr (h : cells.Settled c) (hsame : ∀ r ∈ c.dependencies, cells'[r]? = cells[r]?) :
    cells'.Settled c := by
  have hdeps := h.dependencies_eq
  obtain ⟨lookup, hlookup, hc⟩ := h
  refine ⟨lookup, fun r hr => (hlookup r hr).trans (lookup_congr (hsame r hr)).symm, ?_⟩
  have hmarked : (∃ r ∈ Cell.precedentsOf c.raw, cells'.Marked r) ↔
      ∃ r ∈ Cell.precedentsOf c.raw, cells.Marked r := by
    refine exists_congr fun r => and_congr_right fun hr => marked_congr (hsame r ?_)
    rwa [hdeps]
  by_cases hm : ∃ r ∈ Cell.precedentsOf c.raw, cells.Marked r
  · rw [spread_recompute_of_marked hm] at hc
    rwa [spread_recompute_of_marked (hmarked.mpr hm)]
  · rw [spread_recompute_of_not_marked hm] at hc
    rwa [spread_recompute_of_not_marked (mt hmarked.mp hm)]

theorem settled_spread_recompute (cells : Grid) (c : Cell) :
    cells.Settled (cells.spread (c.recompute cells.lookup)) := by
  refine ⟨cells.lookup, fun _ _ => rfl, ?_⟩
  rw [Cell.recompute_eq (cells.spread _)]
  simp [Cell.recompute_eq]

theorem settled_ofFormat (cells : Grid) (format : Format) : cells.Settled (.ofFormat format) := by
  refine ⟨cells.lookup, fun _ _ => rfl, ?_⟩
  have hraw : (Cell.ofFormat format).recompute cells.lookup = .ofFormat format := by
    rw [Cell.recompute_eq]
    rfl
  have hread : ¬ cells.readsCycle (.ofFormat format) = true := by
    rw [readsCycle_iff]
    simp [Cell.ofFormat]
  rw [hraw, spread, Bool.eq_false_iff.mpr hread, Bool.and_false]
  rfl

theorem Settled.withFormat (h : cells.Settled c) (format : Format) : cells.Settled { c with format } := by
  obtain ⟨lookup, hlookup, hc⟩ := h
  refine ⟨lookup, hlookup, ?_⟩
  by_cases hm : ∃ r ∈ Cell.precedentsOf c.raw, cells.Marked r
  · rw [spread_recompute_of_marked hm] at hc
    rw [spread_recompute_of_marked (c := { c with format }) hm, hc]
  · rw [spread_recompute_of_not_marked hm, Cell.recompute_eq] at hc
    rw [spread_recompute_of_not_marked (c := { c with format }) hm, Cell.recompute_eq, hc]

/-- A cell that reads a marked cell is settled by marking it, whatever value it had. -/
theorem settled_mark (hexpr : c.isExpression = Cell.isExpressionText c.raw)
    (hdeps : c.dependencies = Cell.precedentsOf c.raw) (hmarked : ∃ r ∈ c.dependencies, cells.Marked r) :
    cells.Settled (c.mark .cyclic) := by
  refine ⟨cells.lookup, fun _ _ => rfl, ?_⟩
  rw [hdeps] at hmarked
  rw [spread_recompute_of_marked (c := c.mark .cyclic) hmarked]
  simp only [Cell.mark, hexpr, hdeps]

/-- A settled formula without an error and without bare labels has the value of its tokens. -/
theorem Settled.computed_eq (h : cells.Settled c) (herror : c.error = none)
    (hlabel : ¬ HasBareLabel c.raw) : c.computed = Cell.valueOf c.raw cells.lookup := by
  have hdeps := h.dependencies_eq
  obtain ⟨lookup, hlookup, hc⟩ := h
  rw [hdeps] at hlookup
  by_cases hm : ∃ r ∈ Cell.precedentsOf c.raw, cells.Marked r
  · rw [spread_recompute_of_marked hm] at hc
    rw [hc] at herror
    cases herror
  · rw [spread_recompute_of_not_marked hm, Cell.recompute_eq] at hc
    rw [← Cell.valueOf_congr hlabel hlookup]
    exact congrArg Cell.computed hc

/-- Settled cells with the same text and format are equal if both are marked. -/
theorem Settled.eq_of_cyclic {c' : Cell} (h : cells.Settled c) (h' : cells'.Settled c')
    (hraw : c.raw = c'.raw) (hformat : c.format = c'.format) (herror : c.error = some .cyclic)
    (herror' : c'.error = some .cyclic) : c = c' := by
  have hdeps := h.dependencies_eq.trans ((congrArg Cell.precedentsOf hraw).trans h'.dependencies_eq.symm)
  have hexpr := h.isExpression_eq.trans
    ((congrArg Cell.isExpressionText hraw).trans h'.isExpression_eq.symm)
  have hvalue := (h.computed_of_cyclic herror).trans (h'.computed_of_cyclic herror').symm
  cases c
  cases c'
  simp_all

/-- Settled cells with the same text and format are equal if they read equal cells. -/
theorem Settled.eq_of_same {c' : Cell} (h : cells.Settled c) (h' : cells'.Settled c')
    (hraw : c.raw = c'.raw) (hformat : c.format = c'.format) (hlabel : ¬ HasBareLabel c.raw)
    (hsame : ∀ r ∈ c.dependencies, cells[r]? = cells'[r]?) : c = c' := by
  have hdeps : c.dependencies = c'.dependencies := by
    rw [h.dependencies_eq, h'.dependencies_eq, hraw]
  -- Both cells are settled in the same grid, as they read nothing on which the grids differ.
  have h₂ : cells.Settled c' := h'.congr fun r hr => hsame r (hdeps ▸ hr)
  have hreads := h.dependencies_eq
  obtain ⟨lookup, hlookup, hc⟩ := h
  obtain ⟨lookup', hlookup', hc'⟩ := h₂
  have hvalue : Cell.valueOf c.raw lookup = Cell.valueOf c.raw lookup' := by
    apply Cell.valueOf_congr hlabel
    intro r hr
    rw [← hreads] at hr
    rw [hlookup r hr, hlookup' r (hdeps ▸ hr)]
  rw [hc, hc', Cell.recompute_eq, Cell.recompute_eq, hvalue, hraw, hformat]

end Spreadsheet.Grid
