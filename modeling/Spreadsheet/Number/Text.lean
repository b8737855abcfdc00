import Spreadsheet.Number.Decimal

/-!
# Numbers as text

A number has two texts. In a formula it is written with the fewest digits that read back, never
with an exponent. In a cell an integer of at most ten digits is written as it is and any other
number with two decimal places.
-/

namespace Spreadsheet.Number

private def signed (negative : Bool) (digits : List Char) : String :=
  String.ofList (if negative then '-' :: digits else digits)

/-- The text of a number in a formula. -/
def text (x : Float) : String :=
  match decode x with
  | .nan => "NaN"
  | .infinite negative => signed negative ['i', 'n', 'f']
  | .finite negative mantissa exponent => signed negative (shortest mantissa exponent).positional

/-- Whether `mantissa * 2 ^ exponent` is an integer below `10 ^ 10`. -/
def isShortInteger (mantissa : Nat) (exponent : Int) : Bool :=
  let (twoNum, twoDen) := powerRatio 2 exponent
  mantissa % twoDen == 0 && mantissa * twoNum < Nat.pow 10 10 * twoDen

/-- The decimal places that a cell shows. -/
def displayPlaces (mantissa : Nat) (exponent : Int) : Nat :=
  if isShortInteger mantissa exponent then 0 else 2

/-- The text of a number in a cell. -/
def display (x : Float) : String :=
  match decode x with
  | .nan => "#NAN!"
  | .infinite _ => "#INF!"
  | .finite negative mantissa exponent =>
    signed negative (fixed (displayPlaces mantissa exponent) mantissa exponent).positional

end Spreadsheet.Number
