import Spreadsheet.Format
import Spreadsheet.Formula.Check
import Spreadsheet.Formula.Evaluate
import Spreadsheet.Formula.Lexer
import Spreadsheet.Formula.References
import Spreadsheet.Literal

/-!
# Cells

A cell holds the text that was entered, what was computed from it and its format. Everything
computed is a function of the text and of the numbers in other cells, `Cell.recompute`; only the
mark of a cycle is set from outside.
-/

namespace Spreadsheet

open Formula

/-- Why a cell has no value of its own. -/
inductive CellError where
  | invalidFormula
  | cyclic
deriving DecidableEq, Repr, Inhabited

namespace CellError

def name : CellError → String
  | invalidFormula => "invalidFormula"
  | cyclic => "cyclic"

def ofName? (s : String) : Option CellError := [invalidFormula, cyclic].find? (·.name == s)

end CellError

/-- What a cell shows in place of a value. -/
structure ErrorTexts where
  invalidFormula : String := "#INVALID FORMULA"
  cyclic : String := "#ERROR CYCLIC"
deriving DecidableEq, Repr, Inhabited

/-- One cell of a sheet. -/
structure Cell where
  raw : String
  isExpression : Bool
  computed : Float
  dependencies : RefSet
  error : Option CellError
  format : Format
deriving Inhabited

namespace Cell

/-- An empty cell with a format. -/
def ofFormat (format : Format) : Cell := ⟨"", false, 0.0, ∅, none, format⟩

/-- A cell with an error has the value zero. -/
def mark (c : Cell) (error : CellError) : Cell := { c with computed := 0.0, error := some error }

/-- The tokens of a text that is a formula. -/
def tokens? (raw : String) : Option (List Token) :=
  match check raw, tokenize raw with
  | .ok _, .ok tokens => some tokens
  | _, _ => none

/-- A text that begins like a formula is an expression. -/
def isExpressionText (raw : String) : Bool := raw.toList.head? == some '='

/-- Computes a cell from its text and the numbers in other cells. -/
def recompute (c : Cell) (lookup : Lookup) : Cell :=
  let c := { c with isExpression := isExpressionText c.raw, dependencies := ∅, error := none }
  if !c.isExpression then { c with computed := Literal.value c.raw }
  else match tokens? c.raw with
    | none => c.mark .invalidFormula
    | some tokens =>
      { c with computed := evaluate (resolve lookup tokens), dependencies := references c.raw }

/-- The cell with this text and no format. -/
def ofText (raw : String) (lookup : Lookup) : Cell := { ofFormat {} with raw }.recompute lookup

/-- Flips a flag of the format. -/
def toggle (c : Cell) (kind : FormatKind) : Cell := { c with format := c.format.toggle kind }

/-- What a cell shows: the text for its error, the value of an expression, or what was entered. -/
def display (c : Cell) (texts : ErrorTexts) : String :=
  match c.error with
  | some .cyclic => texts.cyclic
  | some .invalidFormula => texts.invalidFormula
  | none => if c.isExpression then Number.display c.computed else c.raw

end Cell

end Spreadsheet
