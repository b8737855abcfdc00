import Spreadsheet.Config
import Spreadsheet.Data.Basic

/-!
# Settings as data

Settings are read from a record in which every field may be absent and has a default then. A field
that is not a setting is refused.
-/

namespace Spreadsheet

def CyclePolicy.ofData? (dialect : Data.Dialect) (data : Data) : Option CyclePolicy :=
  (data.name? dialect).bind ofName?

def Config.ofData? (dialect : Data.Dialect) (data : Data) : Option Config := do
  let fields ← data.record? dialect false
    ["cycle_policy", "keep_format_on_clear", "invalid_formula_text", "cyclic_text"]
  let default : Config := {}
  let cyclePolicy ← Data.fieldOr? fields "cycle_policy" (CyclePolicy.ofData? dialect)
    default.cyclePolicy
  let keepFormatOnClear ← Data.fieldOr? fields "keep_format_on_clear" Data.boolean?
    default.keepFormatOnClear
  let invalidFormula ← Data.fieldOr? fields "invalid_formula_text" Data.text?
    default.errorTexts.invalidFormula
  let cyclic ← Data.fieldOr? fields "cyclic_text" Data.text? default.errorTexts.cyclic
  return ⟨cyclePolicy, keepFormatOnClear, ⟨invalidFormula, cyclic⟩⟩

end Spreadsheet
