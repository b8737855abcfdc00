import Spreadsheet.Proofs.Grid.Consistent

/-!
# Toggled grids

Flipping a flag of a cell gives it another format and nothing else, so a consistent grid stays
consistent, with the same numbers in it and the same marks. Not all of its cells need hold what
recomputing them would give, though: what a cell reads through a bare label can have changed behind
its back. Such a cell is stale, and computing it again brings it up to date.
-/

namespace Spreadsheet.Grid

open Relation Formula

/-- The grid with a flag of one cell flipped; the cell is stored for it if need be. -/
def toggled (cells : Grid) (r : Ref) (kind : FormatKind) : Grid :=
  cells.insert r ((cells[r]?.getD (.ofFormat {})).toggle kind)

/-- The cell at a reference has no error, and another value than its text has for the numbers in the
grid. -/
def IsStale (cells : Grid) (r : Ref) : Prop :=
  ∃ c, cells[r]? = some c ∧ c.error = none ∧ c.computed ≠ Cell.valueOf c.raw cells.lookup

/-- Computing the cell at a reference again gives the cell that is there. -/
def FixedAt (cells : Grid) (r : Ref) : Prop :=
  ∀ c, cells[r]? = some c → cells.spread (c.recompute cells.lookup) = c

variable {cells cells' : Grid} {c c' : Cell} {r x d : Ref} {kind : FormatKind}

/-! ### Stale cells -/

theorem Settled.spread_recompute_eq_iff (h : cells.Settled c) :
    cells.spread (c.recompute cells.lookup) = c ↔
      (c.error = none → c.computed = Cell.valueOf c.raw cells.lookup) := by
  by_cases hmarked : ∃ r ∈ Cell.precedentsOf c.raw, cells.Marked r
  · have herror : c.error = some .cyclic := h.error_eq_cyclic_iff.mpr (h.dependencies_eq ▸ hmarked)
    obtain ⟨lookup, -, hc⟩ := h
    rw [spread_recompute_of_marked hmarked] at hc ⊢
    exact iff_of_true hc.symm fun hnone => absurd (herror.symm.trans hnone) (Option.some_ne_none _)
  · obtain ⟨lookup, -, hc⟩ := h
    rw [spread_recompute_of_not_marked hmarked, Cell.recompute_eq] at hc ⊢
    have hvalue : c.computed = Cell.valueOf c.raw lookup := congrArg Cell.computed hc
    have herror : c.error = Cell.errorOf c.raw := congrArg Cell.error hc
    constructor
    · intro hsame _
      exact (congrArg Cell.computed hsame).symm
    · intro hfresh
      have hsame : Cell.valueOf c.raw cells.lookup = Cell.valueOf c.raw lookup := by
        by_cases hnone : c.error = none
        · rw [← hfresh hnone, hvalue]
        · exact Cell.valueOf_eq_of_errorOf (herror ▸ hnone) _ _
      rw [hsame]
      exact hc.symm

theorem fixedAt_iff (h : cells.SettledAt r) : cells.FixedAt r ↔ ¬ cells.IsStale r := by
  constructor
  · rintro hfixed ⟨c, hc, herror, hvalue⟩
    exact hvalue ((h c hc).spread_recompute_eq_iff.mp (hfixed c hc) herror)
  · intro hfresh c hc
    refine (h c hc).spread_recompute_eq_iff.mpr fun herror => ?_
    by_contra hvalue
    exact hfresh ⟨c, hc, herror, hvalue⟩

/-- Only what is read through a bare label can be missed. -/
theorem exists_bareLabel_of_isStale (h : cells.SettledAt r) (hstale : cells.IsStale r) :
    ∃ c, cells[r]? = some c ∧ HasBareLabel c.raw := by
  obtain ⟨c, hc, herror, hvalue⟩ := hstale
  refine ⟨c, hc, ?_⟩
  by_contra hlabel
  exact hvalue ((h c hc).computed_eq herror hlabel)

theorem Settled.mark_cyclic (h : cells.Settled c) (herror : c.error = some .cyclic) :
    c.mark .cyclic = c := by
  rw [Cell.mark, ← h.computed_of_cyclic herror, ← herror]

/-- In consistent grids with the same contents, cells differ in their value at most. -/
theorem Consistent.exists_value (h : cells.Consistent) (h' : cells'.Consistent)
    (hcontents : cells.contents = cells'.contents) (r : Ref) :
    ∃ value, cells'[r]? = cells[r]?.map fun c => { c with computed := value } := by
  cases hc : cells[r]? with
  | none =>
    refine ⟨0.0, ?_⟩
    have hcontent := congrFun hcontents r
    rw [contents, contents, hc, Option.map_none, eq_comm, Option.map_eq_none_iff] at hcontent
    rw [hcontent, Option.map_none]
  | some c =>
    obtain ⟨c', hc', hraw, hformat⟩ := exists_of_contents_eq (congrFun hcontents r) hc
    have hreads := reads_eq_of_contents h.fitsTexts h'.fitsTexts hcontents
    obtain ⟨hsettled, hmark⟩ := h r c hc
    obtain ⟨hsettled', hmark'⟩ := h' r c' hc'
    have herror : c.error = c'.error := by
      by_cases hcycle : LeadsToCycle cells.Reads r
      · rw [hmark.mpr hcycle, hmark'.mpr (hreads ▸ hcycle)]
      · rw [hsettled.error_eq_errorOf (mt hmark.mp hcycle),
          hsettled'.error_eq_errorOf (mt hmark'.mp (hreads ▸ hcycle)), hraw]
    have hexpr : c.isExpression = c'.isExpression := by
      rw [hsettled.isExpression_eq, hsettled'.isExpression_eq, hraw]
    have hdeps : c.dependencies = c'.dependencies := by
      rw [hsettled.dependencies_eq, hsettled'.dependencies_eq, hraw]
    refine ⟨c'.computed, ?_⟩
    rw [hc', Option.map_some, hraw, hformat, herror, hexpr, hdeps]

/-! ### Flipping a flag -/

theorem getElem?_toggled_self (cells : Grid) (r : Ref) (kind : FormatKind) :
    (cells.toggled r kind)[r]? = some ((cells[r]?.getD (.ofFormat {})).toggle kind) :=
  Std.ExtTreeMap.getElem?_insert_self

theorem getElem?_toggled_of_ne (h : x ≠ r) : (cells.toggled r kind)[x]? = cells[x]? := by
  rw [toggled, Std.ExtTreeMap.getElem?_insert, if_neg (by simpa using Ne.symm h)]

theorem marked_toggled_iff : (cells.toggled r kind).Marked x ↔ cells.Marked x := by
  by_cases hx : x = r
  · subst hx
    rw [Marked, Marked, getElem?_toggled_self]
    cases cells[x]? <;> simp [Cell.toggle, Cell.ofFormat]
  · exact marked_congr (getElem?_toggled_of_ne hx)

theorem reads_toggled (cells : Grid) (r : Ref) (kind : FormatKind) :
    (cells.toggled r kind).Reads = cells.Reads := by
  ext x d
  by_cases hx : x = r
  · subst hx
    rw [Reads, Reads, getElem?_toggled_self]
    cases cells[x]? <;> simp [Cell.toggle, Cell.ofFormat]
  · rw [Reads, Reads, getElem?_toggled_of_ne hx]

theorem getD_lookup_toggled (cells : Grid) (r : Ref) (kind : FormatKind) (x : Ref) :
    ((cells.toggled r kind).lookup x).getD 0.0 = (cells.lookup x).getD 0.0 := by
  by_cases hx : x = r
  · subst hx
    rw [lookup, lookup, getElem?_toggled_self]
    cases cells[x]? <;> rfl
  · rw [lookup_congr (getElem?_toggled_of_ne hx)]

theorem isStale_toggled_iff (hx : x ≠ r) : (cells.toggled r kind).IsStale x ↔ cells.IsStale x := by
  have hvalue : ∀ raw, Cell.valueOf raw (cells.toggled r kind).lookup = Cell.valueOf raw cells.lookup :=
    fun _ => Cell.valueOf_congr_getD (getD_lookup_toggled cells r kind)
  simp only [IsStale, getElem?_toggled_of_ne hx, hvalue]

theorem spread_recompute_congr {lookup lookup' : Lookup}
    (hmarked : ∀ d, cells'.Marked d ↔ cells.Marked d)
    (hvalue : ∀ d, (lookup' d).getD 0.0 = (lookup d).getD 0.0) :
    cells'.spread (c.recompute lookup') = cells.spread (c.recompute lookup) := by
  have hread : cells'.readsCycle = cells.readsCycle := by
    funext c
    rw [Bool.eq_iff_iff, readsCycle_iff, readsCycle_iff]
    simp only [hmarked]
  rw [spread, spread, hread, Cell.recompute_eq, Cell.recompute_eq, Cell.valueOf_congr_getD hvalue]

theorem Settled.toggled (h : cells.Settled c) : (cells.toggled r kind).Settled c := by
  classical
  obtain ⟨lookup, hlookup, hc⟩ := h
  -- A cell that is stored only now counted as zero before, so the numbers may have to be others.
  let lookup' : Lookup := fun d =>
    if d ∈ c.dependencies then (cells.toggled r kind).lookup d else lookup d
  refine ⟨lookup', fun d hd => if_pos hd, hc.trans ?_⟩
  refine (spread_recompute_congr (fun d => marked_toggled_iff) fun d => ?_).symm
  by_cases hd : d ∈ c.dependencies
  · rw [show lookup' d = _ from if_pos hd, getD_lookup_toggled, hlookup d hd]
  · rw [show lookup' d = _ from if_neg hd]

theorem settled_toggle (h : cells.SettledAt r) (kind : FormatKind) :
    cells.Settled ((cells[r]?.getD (.ofFormat {})).toggle kind) := by
  cases hc : cells[r]? with
  | none => exact settled_ofFormat _ _
  | some c => exact (h c hc).withFormat _

theorem consistent_toggled (h : cells.Consistent) : (cells.toggled r kind).Consistent := by
  intro x c hc
  rw [reads_toggled]
  by_cases hx : x = r
  · subst hx
    have hsettled := settled_toggle (h.settledAt x) kind
    rw [getElem?_toggled_self] at hc
    obtain rfl := Option.some.inj hc
    refine ⟨hsettled.toggled, ?_⟩
    cases hold : cells[x]? with
    | none =>
      refine iff_of_false (Option.some_ne_none _).symm fun hcycle => ?_
      obtain ⟨d, hreads, -⟩ := leadsToCycle_iff.mp hcycle
      exact not_reads_of_none hold hreads
    | some c => exact (h x c hold).2
  · rw [getElem?_toggled_of_ne hx] at hc
    exact ⟨(h x c hc).1.toggled, (h x c hc).2⟩

end Spreadsheet.Grid
