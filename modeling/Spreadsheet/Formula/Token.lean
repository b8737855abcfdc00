import Spreadsheet.Number.Text

/-!
# Formula tokens

A formula is a sequence of numbers, references, operators and parentheses. A reference keeps its
name, in upper case, as it stands in the formula: `A01` and `A1` are different names of one cell.
-/

namespace Spreadsheet.Formula

/-- The arithmetic operators. -/
inductive Operator where
  | add
  | sub
  | mul
  | div
deriving DecidableEq, Repr, Inhabited

namespace Operator

def symbol : Operator → Char
  | add => '+'
  | sub => '-'
  | mul => '*'
  | div => '/'

/-- The operator that a character stands for. -/
def ofChar? : Char → Option Operator
  | '+' => some add
  | '-' => some sub
  | '*' => some mul
  | '/' => some div
  | _ => none

theorem ofChar?_symbol (op : Operator) : ofChar? op.symbol = some op := by
  cases op <;> rfl

end Operator

/-- What a formula is made of. -/
inductive Token where
  | number (value : Float)
  | reference (name : String)
  | operator (op : Operator)
  | openParen
  | closeParen
deriving Repr, Inhabited

/-- The text of a token; a number has the fewest digits that read back. -/
def Token.text : Token → String
  | number value => Number.text value
  | reference name => name
  | operator op => String.singleton op.symbol
  | openParen => "("
  | closeParen => ")"

end Spreadsheet.Formula
