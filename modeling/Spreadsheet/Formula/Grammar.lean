import Spreadsheet.Formula.Token

/-!
# The grammar of formulas

A formula is an equals sign and an expression: operands with operators between them, where an
operand is a number, a reference or an expression in parentheses. The grammar is given on
characters, independently of how they are scanned.
-/

namespace Spreadsheet.Formula

/-- One or more digits, and possibly a point with one or more digits after it. -/
inductive IsNumber : List Char → Prop where
  | whole {digits : List Char} (hne : digits ≠ []) (hdigits : ∀ c ∈ digits, c.isDigit) :
      IsNumber digits
  | decimal {digits fraction : List Char} (hne : digits ≠ []) (hdigits : ∀ c ∈ digits, c.isDigit)
      (hfne : fraction ≠ []) (hfraction : ∀ c ∈ fraction, c.isDigit) :
      IsNumber (digits ++ '.' :: fraction)

/-- One or more letters, and possibly digits after them. -/
inductive IsName : List Char → Prop where
  | mk {letters digits : List Char} (hne : letters ≠ []) (hletters : ∀ c ∈ letters, c.isAlpha)
      (hdigits : ∀ c ∈ digits, c.isDigit) : IsName (letters ++ digits)

mutual

/-- The texts of operands. -/
inductive IsOperand : List Char → Prop where
  | number {cs : List Char} (h : IsNumber cs) : IsOperand cs
  | reference {cs : List Char} (h : IsName cs) : IsOperand cs
  | group {cs : List Char} (h : IsExpr cs) : IsOperand ('(' :: (cs ++ [')']))

/-- The texts of expressions. -/
inductive IsExpr : List Char → Prop where
  | single {cs : List Char} (h : IsOperand cs) : IsExpr cs
  | chain {cs operand : List Char} (op : Operator) (h : IsExpr cs) (ho : IsOperand operand) :
      IsExpr (cs ++ op.symbol :: operand)

end

/-- The texts of formulas. -/
def IsFormula (cs : List Char) : Prop := ∃ body, cs = '=' :: body ∧ IsExpr body

end Spreadsheet.Formula
