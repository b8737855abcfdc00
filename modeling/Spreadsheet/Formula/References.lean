import Spreadsheet.Ref

/-!
# The references that a text names

`references` finds the names of cells in any text: every longest run of letters that digits follow,
with all of these digits. A name that is no reference, such as `A0`, is passed over.
-/

namespace Spreadsheet.Formula

/-- The names in a text, in order. -/
def names (cs : List Char) : List (List Char) :=
  match cs with
  | [] => []
  | c :: rest =>
    if c.isAlpha then
      let letters := c :: rest.takeWhile Char.isAlpha
      let after := rest.dropWhile Char.isAlpha
      let digits := after.takeWhile Char.isDigit
      let others := names (after.dropWhile Char.isDigit)
      if digits.isEmpty then others else (letters ++ digits) :: others
    else names rest
termination_by cs.length
decreasing_by
  · have h₁ := (List.dropWhile_suffix Char.isAlpha (l := rest)).length_le
    have h₂ := (List.dropWhile_suffix Char.isDigit (l := rest.dropWhile Char.isAlpha)).length_le
    simp only [List.length_cons]
    omega
  · simp

/-- The cells that a text names. -/
def references (text : String) : RefSet :=
  Std.ExtTreeSet.ofList ((names text.toList).filterMap Ref.ofChars?) compare

end Spreadsheet.Formula
