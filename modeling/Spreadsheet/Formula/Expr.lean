import Spreadsheet.Formula.Evaluate
import Spreadsheet.Formula.Lexeme

/-!
# Expressions and their meaning

The trees that formulas stand for. `Expr.tokens` writes a tree as tokens, `Expr.Derives` says of
which texts it is the derivation, and `Expr.value` is what it means. The operands are split into
terms before every `+` and `-`. A term is its first operand, negated after `-`, multiplied and
divided by the following ones from left to right, and the terms are added up from negative zero.
-/

namespace Spreadsheet.Formula

mutual

/-- What operators connect. -/
inductive Operand where
  | number (value : Float)
  | reference (name : String)
  | group (inner : Expr)

/-- Operands with operators between them, the last one outermost. -/
inductive Expr where
  | single (operand : Operand)
  | chain (left : Expr) (op : Operator) (operand : Operand)

end

mutual

/-- The tokens of an operand. -/
def Operand.tokens : Operand → List Token
  | .number value => [.number value]
  | .reference name => [.reference name]
  | .group inner => .openParen :: (inner.tokens ++ [.closeParen])

/-- The tokens of an expression. -/
def Expr.tokens : Expr → List Token
  | .single operand => operand.tokens
  | .chain left op operand => left.tokens ++ .operator op :: operand.tokens

end

/-- The formula is an equals sign and a spelling of the expression. -/
def Expr.Derives (e : Expr) (formula : String) : Prop :=
  ∃ body, formula.toList = '=' :: body ∧ Spells e.tokens body

/-! ### Meaning -/

/-- Whether an operand with this operator before it belongs to the term of the operand before. -/
def Operator.isFactor : Operator → Bool
  | .add => false
  | .sub => false
  | .mul => true
  | .div => true

/-- Multiplies or divides a term by one more operand. -/
def applyFactor (term : Float) (factor : Operator × Float) : Float :=
  if factor.1 = .mul then term * factor.2 else term / factor.2

/-- The value of a term. -/
def termValue : List (Operator × Float) → Float
  | [] => 0.0
  | (op, first) :: factors => factors.foldl applyFactor (if op = .sub then -first else first)

/-- The sum of operands, each with the operator before it. -/
def sumOfTerms (operands : List (Operator × Float)) : Float :=
  ((operands.splitBy fun _ next => next.1.isFactor).map termValue).foldl (· + ·) (-0.0)

mutual

/-- The value of an operand; a name without a value counts as zero. -/
def Operand.value (lookup : Lookup) : Operand → Float
  | .number value => value
  | .reference name => ((Ref.parse? name).bind lookup).getD 0.0
  | .group inner => sumOfTerms (inner.operands lookup)

/-- The values of the operands, each with the operator before it. The first one counts as added. -/
def Expr.operands (lookup : Lookup) : Expr → List (Operator × Float)
  | .single operand => [(.add, operand.value lookup)]
  | .chain left op operand => left.operands lookup ++ [(op, operand.value lookup)]

end

/-- The value of an expression. -/
def Expr.value (lookup : Lookup) (e : Expr) : Float := sumOfTerms (e.operands lookup)

end Spreadsheet.Formula
