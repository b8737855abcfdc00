import Spreadsheet.Number.Decimal

/-!
# Literal cells

A text that is not a formula has a value of its own: that of a decimal without sign and exponent,
which may lack the part before its point, and zero for any other text.
-/

namespace Spreadsheet.Literal

/-- The digits before and after the point of a decimal. -/
def split? (cs : List Char) : Option (List Char × List Char) :=
  let whole := cs.takeWhile Char.isDigit
  match cs.dropWhile Char.isDigit with
  | [] => if whole.isEmpty then none else some (whole, [])
  | '.' :: fraction =>
    if fraction.isEmpty || !fraction.all Char.isDigit then none else some (whole, fraction)
  | _ => none

/-- Whether a text is a decimal. -/
def isNumeric (text : String) : Bool := (split? text.toList).isSome

/-- The value of a text that is not a formula. -/
def value (text : String) : Float :=
  match split? text.toList with
  | some (whole, fraction) => Number.ofDigits whole fraction
  | none => 0.0

end Spreadsheet.Literal
