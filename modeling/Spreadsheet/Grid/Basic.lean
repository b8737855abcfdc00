import Spreadsheet.Cell

/-!
# Grids

A grid is the stored cells of a sheet. It knows the numbers that formulas read, and which cells read
one that is marked as cyclic.
-/

namespace Spreadsheet

/-- The stored cells of a sheet. -/
abbrev Grid := RefMap Cell

namespace Grid

/-- The number in a stored cell. -/
def lookup (cells : Grid) : Formula.Lookup := fun r => cells[r]?.map (·.computed)

/-- Whether a cell reads a stored cell that is marked as cyclic. -/
def readsCycle (cells : Grid) (c : Cell) : Bool :=
  c.dependencies.toList.any fun r => cells[r]?.any (·.error == some .cyclic)

/-- The mark of a cycle spreads to the cells that read it, unless they have an error already. -/
def spread (cells : Grid) (c : Cell) : Cell :=
  if c.error.isNone && cells.readsCycle c then c.mark .cyclic else c

end Grid

end Spreadsheet
