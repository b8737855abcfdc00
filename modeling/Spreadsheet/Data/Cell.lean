import Spreadsheet.Cell
import Spreadsheet.Data.Basic

/-!
# Cells as data

A cell is read from a record of its parts. The parts are taken as they are: nothing is computed, and
they need not fit together.
-/

namespace Spreadsheet

/-- The references in a list of texts. -/
def RefSet.ofData? (data : Data) : Option RefSet := do
  let texts ← (← data.list?).mapM Data.text?
  let refs ← texts.mapM Ref.parse?
  return Std.ExtTreeSet.ofList refs compare

/-- The error of a cell, which may be null. -/
def CellError.ofData? (dialect : Data.Dialect) : Data → Option (Option CellError)
  | .null => some none
  | data => ((data.name? dialect).bind ofName?).map some

/-- The flags of a format by name. -/
def Format.ofData? (data : Data) : Option Format := do
  (← data.table?).foldlM (fun f (name, on) => do
    return f.set (← FormatKind.ofName? name) (← on.boolean?)) {}

/-- A cell from its parts. Only the error may be absent, and that only if the fields have names. -/
def Cell.ofData? (dialect : Data.Dialect) (data : Data) : Option Cell := do
  let fields ← data.record? dialect true
    ["raw", "is_expression", "computed", "dependencies", "error", "format"]
  let raw ← Data.field? fields "raw" Data.text?
  let isExpression ← Data.field? fields "is_expression" Data.boolean?
  let computed ← Data.field? fields "computed" Data.number?
  let dependencies ← Data.field? fields "dependencies" RefSet.ofData?
  let error ← Data.fieldOr? fields "error" (CellError.ofData? dialect) none
  let format ← Data.field? fields "format" Format.ofData?
  return ⟨raw, isExpression, computed, dependencies, error, format⟩

end Spreadsheet
