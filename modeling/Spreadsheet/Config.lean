import Spreadsheet.Cell

/-!
# Sheet settings

A sheet either detects cycles and marks the cells on and behind them, or recalculates unguarded,
which is meant for sheets without cycles.
-/

namespace Spreadsheet

/-- What a sheet does about cycles. -/
inductive CyclePolicy where
  | detect
  | unguarded
deriving DecidableEq, Repr, Inhabited

namespace CyclePolicy

def name : CyclePolicy → String
  | detect => "detect"
  | unguarded => "unguarded"

/-- The policy with exactly this name. -/
def ofName? (s : String) : Option CyclePolicy := [detect, unguarded].find? (·.name == s)

/-- The form in which the name of a policy is compared on the command line. -/
def normalizeName (s : String) : String := String.ofList (Text.lower (Text.trimmed s.toList))

/-- The policy named on the command line, in any case and between blanks. -/
def parse? (s : String) : Option CyclePolicy := ofName? (normalizeName s)

/-- What is said of a name that no policy has. -/
def unknownMessage (s : String) : String :=
  "Unknown cycle policy '" ++ normalizeName s ++ "' (expected 'detect' or 'unguarded')"

end CyclePolicy

/-- The settings of a sheet. -/
structure Config where
  cyclePolicy : CyclePolicy := .detect
  keepFormatOnClear : Bool := false
  errorTexts : ErrorTexts := {}
deriving DecidableEq, Repr, Inhabited

end Spreadsheet
