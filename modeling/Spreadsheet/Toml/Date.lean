import Spreadsheet.Toml.Number

/-!
# TOML dates

Which words are dates and times, and how a word without quotes is read. A date may be followed by a
time, and the time then by its offset from universal time.
-/

namespace Spreadsheet.Toml

/-- Whether these are decimal digits that make a number in a range. -/
def isBetween (low high : Nat) (cs : List Char) : Bool :=
  let n := Nat.ofDigitChars 10 cs 0
  cs.all Char.isDigit && low ≤ n && n ≤ high

def isLeap (year : Nat) : Bool := year % 4 == 0 && (year % 100 != 0 || year % 400 == 0)

def daysIn (year month : Nat) : Nat :=
  if month = 2 then if isLeap year then 29 else 28
  else if month ∈ [4, 6, 9, 11] then 30 else 31

/-- A date has a year of four digits, a month and a day of it. -/
def isDate : List Char → Bool
  | [y₁, y₂, y₃, y₄, '-', m₁, m₂, '-', d₁, d₂] =>
    let year := Nat.ofDigitChars 10 [y₁, y₂, y₃, y₄] 0
    let month := Nat.ofDigitChars 10 [m₁, m₂] 0
    isBetween 0 9999 [y₁, y₂, y₃, y₄] && isBetween 1 12 [m₁, m₂]
      && isBetween 1 (daysIn year month) [d₁, d₂]
  | _ => false

/-- Whether these are decimal places of seconds, which may be missing. -/
def isPlaces : List Char → Bool
  | [] => true
  | '.' :: digits => !digits.isEmpty && digits.all Char.isDigit
  | _ => false

/-- A time has hours, minutes and seconds; any minute may have a leap second. -/
def isTime : List Char → Bool
  | h₁ :: h₂ :: ':' :: m₁ :: m₂ :: ':' :: s₁ :: s₂ :: places =>
    isBetween 0 23 [h₁, h₂] && isBetween 0 59 [m₁, m₂] && isBetween 0 60 [s₁, s₂]
      && isPlaces places
  | _ => false

/-- An offset from universal time is nothing, or hours and minutes with a sign. -/
def isOffset : List Char → Bool
  | [z] => z == 'Z' || z == 'z'
  | [sign, h₁, h₂, ':', m₁, m₂] =>
    (sign == '+' || sign == '-') && isBetween 0 23 [h₁, h₂] && isBetween 0 59 [m₁, m₂]
  | _ => false

/-- A time after a date, with or without an offset. -/
def isDayTime (cs : List Char) : Bool :=
  let isStart (c : Char) : Bool := c == 'Z' || c == 'z' || c == '+' || c == '-'
  let offset := cs.dropWhile (!isStart ·)
  isTime (cs.takeWhile (!isStart ·)) && (offset.isEmpty || isOffset offset)

/-- A date and a time with a letter between them. -/
def isMoment (word : List Char) : Bool :=
  match word.drop 10 with
  | t :: time => isDate (word.take 10) && (t == 'T' || t == 't') && isDayTime time
  | [] => false

/-! ### Words -/

/-- The characters of numbers and dates. -/
def isWordChar (c : Char) : Bool :=
  c.isAlphanum || c == '_' || c == '+' || c == '-' || c == '.' || c == ':'

/-- Reads a number or a date, as it is written. Between a date and a time there may be a space. -/
def bare? (cs : List Char) : Option (String × List Char) :=
  let word := cs.takeWhile isWordChar
  let rest := cs.dropWhile isWordChar
  if isDate word then
    match rest with
    | ' ' :: after =>
      let time := after.takeWhile isWordChar
      if isDayTime time then
        some (String.ofList (word ++ ' ' :: time), after.dropWhile isWordChar)
      else some (String.ofList word, rest)
    | _ => some (String.ofList word, rest)
  else if isInteger word || isFloat word || isTime word || isMoment word then
    some (String.ofList word, rest)
  else none

end Spreadsheet.Toml
