import Mathlib.Data.List.Sort
import Mathlib.Data.Prod.Basic
import Spreadsheet.Proofs.Ref
import Spreadsheet.Viewport

/-!
# What a viewport shows

A viewport tells in two ways what it shows. It compares the column and the row of a reference with the
ends of its region, and it lists the references of the region. The two agree, as the coordinates of a
reference can be read from it and determine it.
-/

namespace Spreadsheet

/-- The ends of a region are numbers that a column and a row can have. -/
def Region.Fits (region : Region) : Prop := region.endColumn ≤ maxIndex ∧ region.endRow ≤ maxIndex

instance (region : Region) : Decidable region.Fits := inferInstanceAs (Decidable (_ ∧ _))

theorem Region.mem_span {first last n : Nat} : n ∈ span first last ↔ n ≠ 0 ∧ first ≤ n ∧ n ≤ last := by
  rw [span, List.mem_range'_1]
  omega

theorem Region.pairwise_span (first last : Nat) : (span first last).Pairwise (· < ·) :=
  List.pairwise_lt_range' 1

/-- In a row before, or in the same row and a column before. -/
def Ref.Precedes (a b : Ref) : Prop := Prod.Lex (· < ·) (· < ·) a.sortKey b.sortKey

instance : Std.Asymm Ref.Precedes := inferInstanceAs (Std.Asymm (InvImage _ Ref.sortKey))

namespace Viewport

variable {v : Viewport} {r : Ref}

theorem contains_iff : v.contains r ↔ ∃ column row, r.column = some column ∧ r.row = some row ∧
    column ∈ Region.span v.region.startColumn v.region.endColumn ∧
    row ∈ Region.span v.region.startRow v.region.endRow := by
  simp only [Region.mem_span]
  rw [contains]
  split
  · rename_i column row hcolumn hrow
    simp only [hcolumn, hrow, Option.some.injEq, Region.contains, Bool.and_eq_true, bne_iff_ne,
      decide_eq_true_eq]
    constructor
    · rintro ⟨⟨hc, hr⟩, hcs, hrs⟩
      exact ⟨column, row, rfl, rfl, ⟨hc, hcs⟩, hr, hrs⟩
    · rintro ⟨_, _, rfl, rfl, ⟨hc, hcs⟩, hr, hrs⟩
      exact ⟨⟨hc, hr⟩, hcs, hrs⟩
  · rename_i hnone
    refine iff_of_false Bool.false_ne_true ?_
    rintro ⟨column, row, hcolumn, hrow, -⟩
    exact hnone column row hcolumn hrow

theorem mem_visible : r ∈ v.visible ↔
    ∃ row ∈ Region.span v.region.startRow v.region.endRow,
      ∃ column ∈ Region.span v.region.startColumn v.region.endColumn,
        Ref.ofCoordinates column row = r := by
  simp only [visible, List.mem_flatMap, List.mem_map]

/-- A viewport lists the references that it contains. -/
theorem contains_iff_mem_visible (hfits : v.region.Fits) : v.contains r ↔ r ∈ v.visible := by
  rw [contains_iff, mem_visible]
  constructor
  · rintro ⟨column, row, hcolumn, hrow, hcolumns, hrows⟩
    exact ⟨row, hrows, column, hcolumns, (Ref.eq_ofCoordinates hcolumn hrow).symm⟩
  · rintro ⟨row, hrows, column, hcolumns, rfl⟩
    obtain ⟨hnonzero, -, hcolumnEnd⟩ := Region.mem_span.mp hcolumns
    obtain ⟨-, -, hrowEnd⟩ := Region.mem_span.mp hrows
    refine ⟨column, row, ?_, ?_, hcolumns, hrows⟩
    · rw [Ref.column_ofCoordinates, if_pos ⟨hnonzero, Nat.le_trans hcolumnEnd hfits.1⟩]
    · rw [Ref.row_ofCoordinates, if_pos (Nat.le_trans hrowEnd hfits.2)]

/-- The references are listed row by row, by column within a row. -/
theorem pairwise_visible (hfits : v.region.Fits) : v.visible.Pairwise Ref.Precedes := by
  have hkey : ∀ {column row : Nat}, column ∈ Region.span v.region.startColumn v.region.endColumn →
      row ∈ Region.span v.region.startRow v.region.endRow →
      (Ref.ofCoordinates column row).sortKey = (row, column) := by
    intro column row hcolumn hrow
    obtain ⟨hnonzero, -, hcolumnEnd⟩ := Region.mem_span.mp hcolumn
    obtain ⟨-, -, hrowEnd⟩ := Region.mem_span.mp hrow
    rw [Ref.sortKey, Ref.column_ofCoordinates, if_pos ⟨hnonzero, Nat.le_trans hcolumnEnd hfits.1⟩,
      Ref.row_ofCoordinates, if_pos (Nat.le_trans hrowEnd hfits.2)]
    rfl
  rw [visible, List.pairwise_flatMap]
  constructor
  · intro row hrow
    rw [List.pairwise_map]
    refine (Region.pairwise_span _ _).imp_of_mem fun hcolumn hcolumn' hlt => ?_
    rw [Ref.Precedes, hkey hcolumn hrow, hkey hcolumn' hrow]
    exact Prod.Lex.right row hlt
  · refine (Region.pairwise_span _ _).imp_of_mem fun hrow hrow' hlt a ha b hb => ?_
    obtain ⟨column, hcolumn, rfl⟩ := List.mem_map.mp ha
    obtain ⟨column', hcolumn', rfl⟩ := List.mem_map.mp hb
    rw [Ref.Precedes, hkey hcolumn hrow, hkey hcolumn' hrow']
    exact Prod.Lex.left _ _ hlt

end Viewport

end Spreadsheet
