/-!
# Binary64 numbers as exact values

A finite number is `mantissa * 2 ^ exponent` up to its sign. `decode` reads that pair off the bits,
and `nearest` goes back from a quotient of naturals to the closest number, a half going to the even
mantissa.
-/

namespace Spreadsheet.Number

/-- The value that a binary64 number stands for. -/
inductive Exact where
  | nan
  | infinite (negative : Bool)
  | finite (negative : Bool) (mantissa : Nat) (exponent : Int)
deriving DecidableEq, Repr

/-- The exponent of the smallest positive number. -/
def minExponent : Int := -1074

/-- The mantissa of a power of two, the smallest one that a normal number has. -/
def hiddenBit : Nat := Nat.pow 2 52

/-- The biased exponent that marks infinities and NaN. -/
def specialExponent : Nat := 0x7FF

/-- The value of a number: a subnormal has the exponent of the smallest normal number and no hidden
bit. -/
def decode (x : Float) : Exact :=
  let bits := x.toBits.toNat
  let negative := bits / Nat.pow 2 63 == 1
  let biased := bits / Nat.pow 2 52 % Nat.pow 2 11
  let fraction := bits % Nat.pow 2 52
  if biased = specialExponent then
    if fraction = 0 then .infinite negative else .nan
  else if biased = 0 then .finite negative fraction minExponent
  else .finite negative (hiddenBit + fraction) (minExponent + (biased - 1 : Nat))

/-- The least natural that is too large: from halfway beyond the largest finite number on, the closest
number is infinite. -/
def overflow : Nat := Nat.pow 2 1024 - Nat.pow 2 970

/-- The quotient rounded to the nearest natural, a half to the even one. -/
def roundDiv (num den : Nat) : Nat :=
  let quotient := num / den
  let twice := 2 * (num % den)
  if twice < den || (twice == den && quotient % 2 == 0) then quotient else quotient + 1

/-- The number `mantissa * 2 ^ exponent`, infinite when that is too large. A mantissa of `2 ^ 53`
carries into the exponent, and one below the hidden bit belongs to the smallest exponent. -/
def pack (mantissa : Nat) (exponent : Int) : Float :=
  let infinity := specialExponent * hiddenBit
  let bits := (exponent - minExponent).toNat * hiddenBit + mantissa
  Float.ofBits (UInt64.ofNat (min bits infinity))

/-- The number closest to `num / den`, a tie going to the even mantissa. The first guess at the
exponent leaves a quotient of 53 or 54 bits, unless the value is subnormal. -/
def nearest (num den : Nat) : Float :=
  if num = 0 then 0.0 else
  let exponent := max minExponent ((num.log2 : Int) - den.log2 - 53)
  let scaledNum := num <<< (-exponent).toNat
  let scaledDen := den <<< exponent.toNat
  if scaledNum / scaledDen < 2 * hiddenBit then pack (roundDiv scaledNum scaledDen) exponent
  else pack (roundDiv scaledNum (2 * scaledDen)) (exponent + 1)

end Spreadsheet.Number
