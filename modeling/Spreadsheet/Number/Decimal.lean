import Spreadsheet.Number.Binary

/-!
# Decimal digits

How decimal digits are read and how decimals are written. A number read from digits is the closest
one, and there are two ways to write one: with the fewest digits that read back, or with a fixed
count of decimal places.
-/

namespace Spreadsheet.Number

/-- The natural that digits denote. Long digits are read by halves: then the factors of a product are
of like size, which is much faster than one digit after another. -/
def naturalOfDigits (digits : List Char) : Nat :=
  if digits.length ≤ 64 then Nat.ofDigitChars 10 digits 0
  else
    let half := digits.length / 2
    naturalOfDigits (digits.take half) * Nat.pow 10 (digits.length - half)
      + naturalOfDigits (digits.drop half)
termination_by digits.length

theorem naturalOfDigits_eq (digits : List Char) :
    naturalOfDigits digits = Nat.ofDigitChars 10 digits 0 := by
  fun_induction naturalOfDigits digits with
  | case1 digits hshort => rfl
  | case2 digits hlong half ihfront ihback =>
    have hback : (digits.drop half).length = digits.length - half := List.length_drop
    rw [ihfront, ihback, ← hback, Nat.pow_eq, Nat.mul_comm, ← Nat.ofDigitChars_eq_ofDigitChars_zero,
      ← Nat.ofDigitChars_append, List.take_append_drop]

/-- The number closest to the digits `whole`, a point, and the digits `fraction`. -/
def ofDigits (whole fraction : List Char) : Float :=
  nearest (naturalOfDigits (whole ++ fraction)) (Nat.pow 10 fraction.length)

/-- The number `coefficient * 10 ^ exponent`. -/
structure Decimal where
  coefficient : Nat
  exponent : Int
deriving DecidableEq, Repr

/-- Positional notation, without a point when there are no decimal places. -/
def Decimal.positional (d : Decimal) : List Char :=
  let digits := Nat.toDigits 10 d.coefficient
  let places := (-d.exponent).toNat
  if places = 0 then
    if d.coefficient = 0 then digits else digits ++ List.replicate d.exponent.toNat '0'
  else
    let padded := List.replicate (places + 1 - digits.length) '0' ++ digits
    let whole := padded.length - places
    padded.take whole ++ '.' :: padded.drop whole

/-! ### The fewest digits -/

/-- The numerator and the denominator of `base ^ exponent`. -/
def powerRatio (base : Nat) (exponent : Int) : Nat × Nat :=
  (base.pow exponent.toNat, base.pow (-exponent).toNat)

/-- The multiple of `10 ^ place` closest to a positive number, among those that are read back as
that number: they lie between the midpoints to its neighbours, the midpoints counting when the
mantissa is even. Only the two multiples around the number can be closest, and of two equally close
ones the larger is taken. Everything is measured in quarters of the mantissa's last unit. -/
def candidate? (mantissa : Nat) (exponent : Int) (place : Int) : Option Nat :=
  let (tenNum, tenDen) := powerRatio 10 place
  let (twoNum, twoDen) := powerRatio 2 (exponent - 2)
  let unit := tenNum * twoDen
  let quarter := twoNum * tenDen
  let value := 4 * mantissa * quarter
  let below := if mantissa = hiddenBit ∧ exponent ≠ minExponent then 1 else 2
  let low := value - below * quarter
  let high := value + 2 * quarter
  let inside (n : Nat) : Bool :=
    if mantissa % 2 = 0 then low ≤ n * unit && n * unit ≤ high else low < n * unit && n * unit < high
  let down := value / unit
  let up := down + 1
  match inside down, inside up with
  | true, true => some (if value - down * unit < up * unit - value then down else up)
  | true, false => some down
  | false, true => some up
  | false, false => none

/-- The first place, going down from `place`, at which some multiple reads back. -/
def firstPlace (mantissa : Nat) (exponent : Int) : (steps : Nat) → (place : Int) → Decimal
  | 0, place => ⟨0, place⟩
  | steps + 1, place =>
    match candidate? mantissa exponent place with
    | some n => ⟨n, place⟩
    | none => firstPlace mantissa exponent steps (place - 1)

/-- The decimal with the fewest digits that reads back as `mantissa * 2 ^ exponent`, and of those
the closest. The search starts at a power of ten above the number and ends after at most 17 digits
of it. -/
def shortest (mantissa : Nat) (exponent : Int) : Decimal :=
  if mantissa = 0 then ⟨0, 0⟩ else
  let bits := (mantissa.log2 : Int) + 1 + exponent
  firstPlace mantissa exponent 24 (bits * 30103 / 100000 + 2)

/-! ### A fixed count of places -/

/-- The decimal with `places` decimal places closest to `mantissa * 2 ^ exponent`, a half going to
the even last digit. -/
def fixed (places : Nat) (mantissa : Nat) (exponent : Int) : Decimal :=
  let (twoNum, twoDen) := powerRatio 2 exponent
  ⟨roundDiv (mantissa * twoNum * Nat.pow 10 places) twoDen, -places⟩

end Spreadsheet.Number
