import Std.Data.ExtTreeMap
import Std.Data.ExtTreeSet
import Spreadsheet.Column
import Spreadsheet.Text

/-!
# Cell references

A reference is a text: the upper-case letters of a column followed by the digits of a row, or by
nothing for the header of a column. `Ref.parse?` accepts any case, leading zeros and surrounding
blanks and yields the one normal form, so two accepted texts denote the same cell exactly when their
references are equal.

References are ordered by their text. Maps and sets of references are extensional: two of them are
equal when they hold the same entries.
-/

namespace Spreadsheet

/-- The digits of a row number; a header has none. -/
def rowDigits : Option Nat → List Char
  | none => []
  | some row => Nat.toDigits 10 row

/-- The form of a reference: upper-case letters, and a row number without leading zeros if any. -/
def IsRefText (cs : List Char) : Prop :=
  ∃ (letters : List Char) (row : Option Nat), (∀ c ∈ letters, c.isUpper) ∧ cs = letters ++ rowDigits row

/-- A reference to a cell or to the header of a column. -/
structure Ref where
  text : String
  isRefText : IsRefText text.toList
deriving DecidableEq

namespace Ref

instance : Repr Ref := ⟨fun r _ => r.text⟩

instance : Ord Ref := ⟨fun a b => compare a.text b.text⟩

instance : Std.TransOrd Ref where
  eq_swap {a b} := @Std.OrientedCmp.eq_swap String compare inferInstance a.text b.text
  isLE_trans {a b c} := @Std.TransCmp.isLE_trans String compare inferInstance a.text b.text c.text

theorem eq_of_text_eq {a b : Ref} (h : a.text = b.text) : a = b := by
  cases a; cases b; cases h; rfl

instance : Std.LawfulEqOrd Ref where
  compare_self {a} := @Std.ReflCmp.compare_self String compare inferInstance a.text
  eq_of_compare h := eq_of_text_eq (@Std.LawfulEqCmp.eq_of_compare String compare inferInstance _ _ h)

/-! ### Coordinates -/

/-- The part before the first digit. -/
def letters (r : Ref) : List Char := r.text.toList.takeWhile (!·.isDigit)

/-- The part from the first digit on. -/
def digits (r : Ref) : List Char := r.text.toList.dropWhile (!·.isDigit)

/-- The column number, if the letters have one. -/
def column (r : Ref) : Option Nat := Column.index? r.letters

/-- The number that results when one more digit follows, unless it is not a digit or the number
becomes too large. -/
def shift? (n : Nat) (c : Char) : Option Nat :=
  let next := n * 10 + (c.toNat - '0'.toNat)
  if c.isDigit && next ≤ maxIndex then some next else none

/-- The number that decimal digits denote, if there are any and it is at most `maxIndex`. -/
def number? (cs : List Char) : Option Nat :=
  if cs.isEmpty then none else cs.foldlM shift? 0

/-- The row number; a header has none. -/
def row (r : Ref) : Option Nat := number? r.digits

/-- Row and column, a missing one counting as zero: the order in which a sheet is read. -/
def sortKey (r : Ref) : Nat × Nat := (r.row.getD 0, r.column.getD 0)

/-- Row before column before text. -/
def readsBefore (a b : Ref) : Bool :=
  (compareLex (compareOn (·.sortKey.1)) (compareLex (compareOn (·.sortKey.2)) compare) a b).isLE

/-! ### Making references -/

/-- The reference with these letters, in either case, and this row. -/
def ofParts (letters : List Char) (h : ∀ c ∈ letters, c.isAlpha) (row : Option Nat) : Ref where
  text := String.ofList (Text.upper letters ++ rowDigits row)
  isRefText := ⟨Text.upper letters, row, fun _ => Text.isUpper_of_mem_upper h, String.toList_ofList⟩

/-- The reference to a column and a row, both counted from one. -/
def ofCoordinates (column row : Nat) : Ref where
  text := String.ofList (Column.letters column ++ rowDigits (some row))
  isRefText := ⟨Column.letters column, some row, fun _ => Column.isUpper_of_mem_letters,
    String.toList_ofList⟩

instance : Inhabited Ref := ⟨ofCoordinates 1 1⟩

/-- The reference with a column label and a row counted from one. -/
def ofLabel? (label : String) (row : Nat) : Option Ref :=
  if h : label.toList.all Char.isAlpha then
    if row = 0 || label.isEmpty then none
    else some (ofParts label.toList (List.all_eq_true.mp h) row)
  else none

/-- The row that the part of a reference after its letters denotes: none for a header, and else a
number that is not zero. -/
def parseRow? (digits : List Char) : Option (Option Nat) :=
  if digits.isEmpty then some none
  else match number? digits with
    | none | some 0 => none
    | some row => some (some row)

/-- The reference that a text without surrounding blanks denotes: letters that have a column number,
then either nothing or the digits of a row number. -/
def ofChars? (cs : List Char) : Option Ref :=
  if (Column.index? (cs.takeWhile Char.isAlpha)).isNone then none
  else (parseRow? (cs.dropWhile Char.isAlpha)).map
    (ofParts (cs.takeWhile Char.isAlpha) (List.all_eq_true.mp List.all_takeWhile))

/-- The reference that a text denotes. -/
def parse? (text : String) : Option Ref := ofChars? (Text.trimmed text.toList)

end Ref

/-- A finite set of references. Its list is ascending. -/
abbrev RefSet := Std.ExtTreeSet Ref

/-- A finite map on references. Its entries are listed in ascending order. -/
abbrev RefMap (α : Type) := Std.ExtTreeMap Ref α

end Spreadsheet
