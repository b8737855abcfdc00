/-!
# Column labels

Columns are counted from one and written in bijective base 26: `A` to `Z`, then `AA`. `label` writes
an index and `index?` reads a label in either case. The largest index is `maxIndex`; a label beyond
it has no index.
-/

namespace Spreadsheet

/-- The largest row or column number: coordinates are 64-bit words. -/
def maxIndex : Nat := Nat.pow 2 64 - 1

namespace Column

/-- The letter of a digit below 26. -/
def letter (digit : Nat) : Char := Char.ofNat ('A'.toNat + digit)

/-- The letters of an index, the last one first. -/
def lettersReversed : Nat → List Char
  | 0 => []
  | n + 1 => letter (n % 26) :: lettersReversed (n / 26)
decreasing_by omega

/-- The letters of an index; index zero has none. -/
def letters (index : Nat) : List Char := (lettersReversed index).reverse

theorem isUpper_letter {digit : Nat} (h : digit < 26) : (letter digit).isUpper := by
  have hall : ∀ d : Fin 26, (letter d.val).isUpper := by decide
  exact hall ⟨digit, h⟩

theorem isUpper_of_mem_lettersReversed {index : Nat} {c : Char} (h : c ∈ lettersReversed index) :
    c.isUpper := by
  fun_induction lettersReversed index with
  | case1 => cases h
  | case2 n ih =>
    rcases List.mem_cons.mp h with rfl | h
    · exact isUpper_letter (Nat.mod_lt n (by decide))
    · exact ih h

theorem isUpper_of_mem_letters {index : Nat} {c : Char} (h : c ∈ letters index) : c.isUpper :=
  isUpper_of_mem_lettersReversed (List.mem_reverse.mp h)

/-- The label of an index. -/
def label (index : Nat) : String := String.ofList (letters index)

/-- The value of a letter, from one for `A` to 26 for `Z`, in either case. -/
def letterValue (c : Char) : Nat := c.toUpper.toNat - 'A'.toNat + 1

/-- The index that results when one more letter follows, unless it is not a letter or the index
becomes too large. -/
def shift? (index : Nat) (c : Char) : Option Nat :=
  let next := index * 26 + letterValue c
  if c.isAlpha && next ≤ maxIndex then some next else none

/-- The index of a label: one or more ASCII letters whose value is at most `maxIndex`. -/
def index? (cs : List Char) : Option Nat :=
  if cs.isEmpty then none else cs.foldlM shift? 0

end Column

end Spreadsheet
