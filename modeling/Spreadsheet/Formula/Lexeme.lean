import Spreadsheet.Formula.Token
import Spreadsheet.Text

/-!
# Lexemes

How tokens are spelled, independently of how a text is cut. A number may have a fraction, the name
of a reference may be in either case, and every other token is spelled in one way.
-/

namespace Spreadsheet.Formula

/-- The spellings of a token. -/
inductive Lexeme : Token → List Char → Prop where
  | whole {digits : List Char} (hne : digits ≠ []) (hdigits : ∀ c ∈ digits, c.isDigit) :
      Lexeme (.number (Number.ofDigits digits [])) digits
  | decimal {digits fraction : List Char} (hne : digits ≠ []) (hdigits : ∀ c ∈ digits, c.isDigit)
      (hfne : fraction ≠ []) (hfraction : ∀ c ∈ fraction, c.isDigit) :
      Lexeme (.number (Number.ofDigits digits fraction)) (digits ++ '.' :: fraction)
  | name {letters digits : List Char} (hne : letters ≠ []) (hletters : ∀ c ∈ letters, c.isAlpha)
      (hdigits : ∀ c ∈ digits, c.isDigit) :
      Lexeme (.reference (String.ofList (Text.upper (letters ++ digits)))) (letters ++ digits)
  | operator (op : Operator) : Lexeme (.operator op) [op.symbol]
  | openParen : Lexeme .openParen ['(']
  | closeParen : Lexeme .closeParen [')']

/-- The spellings of a token list: one lexeme after another, with nothing between them. -/
inductive Spells : List Token → List Char → Prop where
  | nil : Spells [] []
  | cons {token : Token} {lexeme : List Char} {tokens : List Token} {rest : List Char}
      (h : Lexeme token lexeme) (hrest : Spells tokens rest) :
      Spells (token :: tokens) (lexeme ++ rest)

end Spreadsheet.Formula
