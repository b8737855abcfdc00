import Spreadsheet.Number.Binary
import Spreadsheet.Toml.Text

/-!
# TOML numbers

Which words are numbers. An integer is decimal or has a base in front, and must fit in 64 bits with a
sign. A float has a fraction or an exponent, or is infinite or no number at all, and what is written
with digits must not be too large for binary64. Underscores may stand between two digits.
-/

namespace Spreadsheet.Toml

/-! ### Digits -/

/-- The value of a character as a digit in a base up to sixteen. -/
def digit? (base : Nat) (c : Char) : Option Nat := (hexValue? c).filter (· < base)

/-- Whether these are digits, at least one, with underscores between some of them. -/
def isDigits (base : Nat) (cs : List Char) : Bool :=
  (cs.splitOn '_').all fun run => !run.isEmpty && run.all fun c => (digit? base c).isSome

/-- Whether these are decimal digits of which the first is no zero, unless it is alone. -/
def isWhole (cs : List Char) : Bool := isDigits 10 cs && (cs.head? != some '0' || cs == ['0'])

/-- The values of the digits, without the underscores between them. -/
def digitValues (base : Nat) (cs : List Char) : List Nat := cs.filterMap (digit? base)

/-- Whether a sign is negative, and what follows it. The sign may be missing. -/
def unsigned : List Char → Bool × List Char
  | '-' :: rest => (true, rest)
  | '+' :: rest => (false, rest)
  | cs => (false, cs)

/-! ### Integers -/

/-- Whether the value of digits is at most `bound`. No larger value is computed than is needed to see
that it is not. -/
def isAtMost (bound base : Nat) (digits : List Nat) : Bool :=
  digits.foldl (fun n d => min (bound + 1) (base * n + d)) 0 ≤ bound

/-- The largest integer. -/
def maxInteger : Nat := Nat.pow 2 63 - 1

/-- Whether digits after the mark of a base are an integer. -/
def isBased (base : Nat) (cs : List Char) : Bool :=
  isDigits base cs && isAtMost maxInteger base (digitValues base cs)

/-- Only a decimal integer has a sign, and the least one is beyond the largest by one. -/
def isInteger : List Char → Bool
  | '0' :: 'x' :: cs => isBased 16 cs
  | '0' :: 'o' :: cs => isBased 8 cs
  | '0' :: 'b' :: cs => isBased 2 cs
  | word =>
    let (negative, cs) := unsigned word
    isWhole cs && isAtMost (maxInteger + if negative then 1 else 0) 10 (digitValues 10 cs)

/-! ### Floats -/

/-- The parts of a float without its sign. The fraction follows a point, the exponent a letter. -/
structure FloatParts where
  whole : List Char
  fraction : Option (List Char)
  exponent : Option (List Char)

/-- The parts of a word, whatever they hold. -/
def FloatParts.ofWord (cs : List Char) : FloatParts :=
  let isMark (c : Char) : Bool := c == 'e' || c == 'E'
  let mantissa := cs.takeWhile (!isMark ·)
  { whole := mantissa.takeWhile (· != '.')
    fraction := (mantissa.dropWhile (· != '.')).tail?
    exponent := (cs.dropWhile (!isMark ·)).tail? }

/-- Whether the parts hold digits, and there are not only whole ones. -/
def FloatParts.isWellFormed (p : FloatParts) : Bool :=
  (p.fraction.isSome || p.exponent.isSome) && isWhole p.whole && p.fraction.all (isDigits 10)
    && p.exponent.all fun cs => isDigits 10 (unsigned cs).2

/-- The value of an exponent. From `2 ^ 16` on further digits do not count. -/
def exponentValue (cs : List Char) : Int :=
  let (negative, digits) := unsigned cs
  let magnitude : Nat := (digitValues 10 digits).foldl
    (fun n d => if n < Nat.pow 2 16 then 10 * n + d else n) 0
  if negative then -(magnitude : Int) else magnitude

/-- How many digits the least too large number has. -/
def overflowDigits : Nat := 309

/-- Whether the parts make a number too large for binary64: after its leading zeros there are more
than `overflowDigits` digits before the point, or as many that make a number not below the least
too large one. -/
def FloatParts.overflows (p : FloatParts) : Bool :=
  let whole := digitValues 10 p.whole
  let digits := whole ++ digitValues 10 (p.fraction.getD [])
  let significant := digits.dropWhile (· == 0)
  let zeros := digits.length - significant.length
  let point : Int := whole.length - zeros + exponentValue (p.exponent.getD [])
  let leading := (significant ++ List.replicate overflowDigits 0).take overflowDigits
  if significant.isEmpty || point < overflowDigits then false
  else point > overflowDigits || Number.overflow ≤ leading.foldl (fun n d => 10 * n + d) 0

/-- A float may not be too large, but below zero it stands for minus infinity then. -/
def isFloat (word : List Char) : Bool :=
  let (negative, cs) := unsigned word
  let parts := FloatParts.ofWord cs
  cs == ['i', 'n', 'f'] || cs == ['n', 'a', 'n']
    || (parts.isWellFormed && (negative || !parts.overflows))

end Spreadsheet.Toml
