/-!
# Texts

What is done with texts as lists of characters: blanks are dropped at the ends, words and lines are
cut apart, and ASCII letters change their case.
-/

namespace Spreadsheet.Text

/-- The characters of the Unicode property `White_Space`. -/
def isBlank (c : Char) : Bool :=
  let n := c.toNat
  (0x09 ≤ n && n ≤ 0x0D) || n == 0x20 || n == 0x85 || n == 0xA0 || n == 0x1680
    || (0x2000 ≤ n && n ≤ 0x200A) || n == 0x2028 || n == 0x2029 || n == 0x202F || n == 0x205F
    || n == 0x3000

/-- The characters between the first and the last one that is not blank. -/
def trimmed (cs : List Char) : List Char :=
  ((cs.dropWhile isBlank).reverse.dropWhile isBlank).reverse

/-- The text without the blanks at its ends. -/
def trim (s : String) : String := String.ofList (trimmed s.toList)

/-- The longest runs of characters that are not blank, in order. -/
def words (cs : List Char) : List (List Char) := (cs.splitOnP isBlank).filter (!·.isEmpty)

/-- The lines of a text, without the line feeds between them. A text that ends with a line feed has
an empty last line, and a carriage return before a line feed belongs to the line as a blank. -/
def lines (cs : List Char) : List (List Char) := cs.splitOn '\n'

/-- ASCII letters in upper case, all other characters as they are. -/
def upper (cs : List Char) : List Char := cs.map Char.toUpper

theorem isUpper_toUpper {c : Char} (h : c.isAlpha) : c.toUpper.isUpper := by
  delta Char.isAlpha Char.isUpper Char.isLower at h
  delta Char.toUpper Char.isUpper
  simp only [Bool.or_eq_true, Bool.and_eq_true, decide_eq_true_eq, UInt32.le_iff_toNat_le,
    ge_iff_le] at h ⊢
  split
  · have ha : 'a'.val.toNat = 97 := rfl
    have hz : 'z'.val.toNat = 122 := rfl
    have hA : 'A'.val.toNat = 65 := rfl
    have hZ : 'Z'.val.toNat = 90 := rfl
    simp only [UInt32.toNat_add] at *
    simp at *
    omega
  · rename_i hlower
    exact h.resolve_right hlower

theorem isUpper_of_mem_upper {cs : List Char} (h : ∀ c ∈ cs, c.isAlpha) {c : Char}
    (hc : c ∈ upper cs) : c.isUpper := by
  obtain ⟨d, hd, rfl⟩ := List.mem_map.mp hc
  exact isUpper_toUpper (h d hd)

/-- ASCII letters in lower case, all other characters as they are. -/
def lower (cs : List Char) : List Char := cs.map Char.toLower

end Spreadsheet.Text
