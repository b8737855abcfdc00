import Spreadsheet.Proofs.Grid.Consistent
import Spreadsheet.Sheet.Recalc

/-!
# Steps of a recalculation

What computing one cell again and marking one cell do to the grid and to the touched references.
Neither of them changes what was entered, and so neither changes what any cell reads.
-/

namespace Spreadsheet

namespace Grid

variable {cells cells' : Grid} {c : Cell} {r : Ref}

theorem contents_insert (hc : cells[r]? = some c) {c' : Cell} (hraw : c'.raw = c.raw)
    (hformat : c'.format = c.format) : contents (cells.insert r c') = cells.contents := by
  funext x
  by_cases hx : r = x
  · subst hx
    simp [contents, hc, hraw, hformat]
  · simp [contents, Std.ExtTreeMap.getElem?_insert, hx]

theorem FitsTexts.insert (h : cells.FitsTexts) (hc : c.FitsText) : FitsTexts (cells.insert r c) := by
  intro x c₂ hc₂
  by_cases hx : r = x
  · subst hx
    simp only [Std.ExtTreeMap.getElem?_insert_self, Option.some.injEq] at hc₂
    exact hc₂ ▸ hc
  · simp only [Std.ExtTreeMap.getElem?_insert, Std.compare_eq_iff_eq, hx, if_false] at hc₂
    exact h x c₂ hc₂

/-- Whether a reference is right depends on its cell and on those that the cell reads. -/
theorem Right.congr (h : cells.Right r) (hreads : cells'.Reads = cells.Reads)
    (hcell : cells'[r]? = cells[r]?) (hsame : ∀ d, cells.Reads r d → cells'[d]? = cells[d]?) :
    cells'.Right r := by
  intro c hc
  rw [hcell] at hc
  obtain ⟨hsettled, hmark⟩ := h c hc
  rw [hreads]
  exact ⟨hsettled.congr fun d hd => hsame d ⟨c, hc, hd⟩, hmark⟩

end Grid

namespace Progress

variable {p q q' : Progress} {c : Cell} {r x : Ref}

/-! ### Keeping what was entered -/

/-- What was entered is as it was, and what follows from texts still does. -/
structure Keeps (p q : Progress) : Prop where
  contents : q.cells.contents = p.cells.contents
  fitsTexts : p.cells.FitsTexts → q.cells.FitsTexts

theorem Keeps.refl (p : Progress) : Keeps p p := ⟨rfl, id⟩

theorem Keeps.trans (h : Keeps p q) (h' : Keeps q q') : Keeps p q' :=
  ⟨h'.contents.trans h.contents, h'.fitsTexts ∘ h.fitsTexts⟩

theorem Keeps.reads_eq (h : Keeps p q) (hfits : p.cells.FitsTexts) : q.cells.Reads = p.cells.Reads :=
  Grid.reads_eq_of_contents (h.fitsTexts hfits) hfits h.contents

/-! ### Computing a cell again -/

theorem recompute?_of_some (hc : p.cells[r]? = some c) :
    p.recompute? r = some (p.store r (p.cells.spread (c.recompute p.cells.lookup))) := by
  rw [recompute?, hc, Option.map_some]

theorem recompute?_of_none (hc : p.cells[r]? = none) : p.recompute? r = none := by
  rw [recompute?, hc, Option.map_none]

theorem recompute_of_some (hc : p.cells[r]? = some c) :
    p.recompute r = p.store r (p.cells.spread (c.recompute p.cells.lookup)) := by
  rw [recompute, recompute?_of_some hc, Option.getD_some]

theorem recompute_of_none (hc : p.cells[r]? = none) : p.recompute r = p := by
  rw [recompute, recompute?_of_none hc, Option.getD_none]

theorem getElem?_recompute_of_ne (hx : x ≠ r) : (p.recompute r).cells[x]? = p.cells[x]? := by
  cases hc : p.cells[r]? with
  | none => rw [recompute_of_none hc]
  | some c =>
    rw [recompute_of_some hc]
    simp [store, Std.ExtTreeMap.getElem?_insert, Ne.symm hx]

theorem contents_recompute (p : Progress) (r : Ref) :
    (p.recompute r).cells.contents = p.cells.contents := by
  cases hc : p.cells[r]? with
  | none => rw [recompute_of_none hc]
  | some c =>
    rw [recompute_of_some hc]
    exact Grid.contents_insert hc (by simp [Cell.recompute_eq]) (by simp [Cell.recompute_eq])

theorem fitsTexts_recompute (h : p.cells.FitsTexts) (r : Ref) : (p.recompute r).cells.FitsTexts := by
  cases hc : p.cells[r]? with
  | none => rwa [recompute_of_none hc]
  | some c =>
    rw [recompute_of_some hc]
    exact h.insert (Grid.settled_spread_recompute p.cells c).fitsText

theorem keeps_recompute (p : Progress) (r : Ref) : Keeps p (p.recompute r) :=
  ⟨contents_recompute p r, fun hfits => fitsTexts_recompute hfits r⟩

theorem reads_recompute (h : p.cells.FitsTexts) (r : Ref) :
    (p.recompute r).cells.Reads = p.cells.Reads :=
  (keeps_recompute p r).reads_eq h

/-- A cell that does not read itself is settled once it is computed again. -/
theorem settled_recompute (hc : p.cells[r]? = some c) (hself : r ∉ Cell.precedentsOf c.raw) :
    ∃ c', (p.recompute r).cells[r]? = some c' ∧ c'.dependencies = Cell.precedentsOf c.raw ∧
      (p.recompute r).cells.Settled c' := by
  refine ⟨p.cells.spread (c.recompute p.cells.lookup), ?_, ?_, ?_⟩
  · rw [recompute_of_some hc]
    simp [store]
  · simp [Cell.recompute_eq]
  · refine (Grid.settled_spread_recompute p.cells c).congr fun d hd => getElem?_recompute_of_ne ?_
    rw [Grid.dependencies_spread, Cell.recompute_eq] at hd
    exact fun heq => hself (heq ▸ hd)

theorem touched_recompute (hc : p.cells[r]? = some c) : (p.recompute r).touched = r :: p.touched := by
  rw [recompute_of_some hc, store]

/-! ### Marking cells -/

theorem getElem?_markCyclic (p : Progress) (r x : Ref) : (p.markCyclic r).cells[x]? =
    if x = r then p.cells[x]?.map (·.mark .cyclic) else p.cells[x]? := by
  unfold markCyclic
  cases hc : p.cells[r]? with
  | none =>
    by_cases hx : x = r
    · subst hx
      simp [hc]
    · simp [hx]
  | some c =>
    by_cases hx : x = r
    · subst hx
      simp [store, hc]
    · simp [store, Std.ExtTreeMap.getElem?_insert, hx, Ne.symm hx]

theorem getElem?_foldl_markCyclic (p : Progress) (rs : List Ref) (x : Ref) :
    (rs.foldl markCyclic p).cells[x]? =
      if x ∈ rs then p.cells[x]?.map (·.mark .cyclic) else p.cells[x]? := by
  induction rs generalizing p with
  | nil => simp
  | cons r rest ih =>
    rw [List.foldl_cons, ih, getElem?_markCyclic]
    by_cases hr : x = r
    · by_cases hrest : x ∈ rest <;> simp [hr, Cell.mark, Function.comp_def]
    · simp [hr]

theorem contents_foldl_markCyclic (p : Progress) (rs : List Ref) :
    (rs.foldl markCyclic p).cells.contents = p.cells.contents := by
  funext x
  rw [Grid.contents, Grid.contents, getElem?_foldl_markCyclic]
  split
  · rw [Option.map_map]
    rfl
  · rfl

theorem fitsTexts_foldl_markCyclic (h : p.cells.FitsTexts) (rs : List Ref) :
    (rs.foldl markCyclic p).cells.FitsTexts := by
  intro x c hc
  rw [getElem?_foldl_markCyclic] at hc
  split at hc
  · obtain ⟨c₀, hc₀, rfl⟩ := Option.map_eq_some_iff.mp hc
    have hfits := h x c₀ hc₀
    exact ⟨hfits.isExpression_eq, hfits.dependencies_eq⟩
  · exact h x c hc

theorem keeps_foldl_markCyclic (p : Progress) (rs : List Ref) : Keeps p (rs.foldl markCyclic p) :=
  ⟨contents_foldl_markCyclic p rs, fun hfits => fitsTexts_foldl_markCyclic hfits rs⟩

end Progress

end Spreadsheet
