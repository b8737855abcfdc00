import Spreadsheet.Ref

/-!
# Regions and viewports

A region is a rectangle of columns and rows, both ends included; it is empty when an end is before
its start. A viewport shows the cells of a region, and never a header: column and row zero are left
out.
-/

namespace Spreadsheet

/-- A rectangle of columns and rows. -/
structure Region where
  startColumn : Nat := 0
  endColumn : Nat := 0
  startRow : Nat := 0
  endRow : Nat := 0
deriving DecidableEq, Repr, Inhabited

/-- Whether a column and a row are in a region. -/
def Region.contains (region : Region) (column row : Nat) : Bool :=
  (region.startColumn ≤ column && column ≤ region.endColumn)
    && (region.startRow ≤ row && row ≤ region.endRow)

/-- The numbers from `first`, but at least one, up to `last`. -/
def Region.span (first last : Nat) : List Nat := List.range' (max first 1) (last + 1 - max first 1)

/-- A window on a sheet. -/
structure Viewport where
  region : Region := {}
deriving DecidableEq, Repr, Inhabited

namespace Viewport

def setRegion (_ : Viewport) (region : Region) : Viewport := ⟨region⟩

/-- Whether a reference is shown. -/
def contains (v : Viewport) (r : Ref) : Bool :=
  match r.column, r.row with
  | some column, some row => column != 0 && row != 0 && v.region.contains column row
  | _, _ => false

/-- The references that are shown, row by row. -/
def visible (v : Viewport) : List Ref :=
  (Region.span v.region.startRow v.region.endRow).flatMap fun row =>
    (Region.span v.region.startColumn v.region.endColumn).map fun column =>
      Ref.ofCoordinates column row

end Viewport

end Spreadsheet
