import Spreadsheet.Ref
import Spreadsheet.Formula.Token

/-!
# Evaluating formulas

`evaluate` computes the value of a token list in one pass. Every level of parentheses collects
terms: `+` and `-` begin a new term, `*` and `/` change the last one, and the value of the level is
the sum of its terms. Any token list has a value: levels left open are closed at its end, and a
closing parenthesis that closes nothing ends the evaluation.
-/

namespace Spreadsheet.Formula

/-- What is known about the values of other cells. -/
abbrev Lookup := Ref → Option Float

/-- A reference becomes the number in its cell, and zero if there is none. -/
def Token.resolve (lookup : Lookup) : Token → Token
  | reference name => number (((Ref.parse? name).bind lookup).getD 0.0)
  | token => token

/-- The tokens with every reference replaced by the number in its cell. -/
def resolve (lookup : Lookup) (tokens : List Token) : List Token := tokens.map (Token.resolve lookup)

/-- The terms of one level of parentheses, the last one first. -/
abbrev Terms := List Float

/-- The terms after an operand. A factor without a term before it leaves the term zero. -/
def Terms.apply (terms : Terms) (op : Operator) (value : Float) : Terms :=
  match op, terms with
  | .add, terms => value :: terms
  | .sub, terms => -value :: terms
  | .mul, last :: terms => last * value :: terms
  | .div, last :: terms => last / value :: terms
  | .mul, [] => [0.0]
  | .div, [] => [0.0]

/-- The sum of the terms from the first one on. It starts at negative zero, which changes no term. -/
def Terms.total (terms : Terms) : Float := terms.foldr (fun term sum => sum + term) (-0.0)

/-- The evaluation in progress: the terms of the current level, the operator that the next operand
is for, and the suspended outer levels, the innermost one first, each with the operator that its
parenthesised operand is for. -/
structure Evaluation where
  terms : Terms
  pending : Operator
  outer : List (Terms × Operator)

namespace Evaluation

def start : Evaluation := ⟨[], .add, []⟩

def operand (e : Evaluation) (value : Float) : Evaluation :=
  { e with terms := e.terms.apply e.pending value }

/-- Suspends the current level and begins an inner one. -/
def descend (e : Evaluation) : Evaluation := ⟨[], .add, (e.terms, e.pending) :: e.outer⟩

/-- Runs through the tokens, up to a closing parenthesis that closes nothing. -/
def run (e : Evaluation) : List Token → Evaluation
  | [] => e
  | .number value :: tokens => (e.operand value).run tokens
  | .reference _ :: tokens => (e.operand 0.0).run tokens
  | .operator op :: tokens => { e with pending := op }.run tokens
  | .openParen :: tokens => e.descend.run tokens
  | .closeParen :: tokens =>
    match e.outer with
    | [] => e
    | (terms, op) :: outer => run ⟨terms.apply op e.terms.total, e.pending, outer⟩ tokens

/-- The value once all open levels are closed. -/
def value (e : Evaluation) : Float :=
  Terms.total (e.outer.foldl (fun inner (terms, op) => Terms.apply terms op (Terms.total inner)) e.terms)

end Evaluation

/-- The value of a token list. A reference that is not resolved counts as zero. -/
def evaluate (tokens : List Token) : Float := (Evaluation.start.run tokens).value

end Spreadsheet.Formula
