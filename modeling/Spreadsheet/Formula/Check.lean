/-!
# Checking formulas

`check` decides whether a text is a formula: an equals sign, then operands with operators between
them, where an operand is a number, a reference or a parenthesised expression. A text that is not
one is refused at the position, counted in bytes, where it stops being the beginning of a formula.
-/

namespace Spreadsheet.Formula

/-- Why a text is not a formula. -/
inductive CheckError where
  | missingEquals
  | expectedOperand (position : Nat)
  | expectedOperator (position : Nat)
  | unclosedParen (position : Nat)
deriving DecidableEq, Repr

def CheckError.message : CheckError → String
  | missingEquals => "Formula must start with '='"
  | expectedOperand position => "Expected an operand at position " ++ toString position
  | expectedOperator position => "Expected an operator at position " ++ toString position
  | unclosedParen position => "Unclosed parenthesis opened at position " ++ toString position

/-- The fraction at the front of a text: its length and what follows. A point without a digit after
it is no fraction. -/
def skipFraction : List Char → Nat × List Char
  | '.' :: d :: rest =>
    if d.isDigit then ((rest.takeWhile Char.isDigit).length + 2, rest.dropWhile Char.isDigit)
    else (0, '.' :: d :: rest)
  | rest => (0, rest)

/-- The number or reference at the front of a text: its length and what follows. -/
def skipOperand? : List Char → Option (Nat × List Char)
  | [] => none
  | c :: cs =>
    if c.isDigit then
      let (fraction, rest) := skipFraction (cs.dropWhile Char.isDigit)
      some ((cs.takeWhile Char.isDigit).length + 1 + fraction, rest)
    else if c.isAlpha then
      let rest := cs.dropWhile Char.isAlpha
      some ((cs.takeWhile Char.isAlpha).length + 1 + (rest.takeWhile Char.isDigit).length,
        rest.dropWhile Char.isDigit)
    else none

theorem skipFraction_le (cs : List Char) : (skipFraction cs).2.length ≤ cs.length := by
  unfold skipFraction
  split
  · rename_i d rest
    have h := (List.dropWhile_suffix Char.isDigit (l := rest)).length_le
    split
    · simp only [List.length_cons]; omega
    · simp
  · simp

theorem skipOperand?_shorter {cs rest : List Char} {length : Nat}
    (h : skipOperand? cs = some (length, rest)) : rest.length < cs.length := by
  cases cs with
  | nil => simp [skipOperand?] at h
  | cons c cs =>
    simp only [skipOperand?] at h
    split at h
    · simp only [Option.some.injEq, Prod.mk.injEq] at h
      have h₁ := (List.dropWhile_suffix Char.isDigit (l := cs)).length_le
      have h₂ := skipFraction_le (cs.dropWhile Char.isDigit)
      rw [← h.2, List.length_cons]
      omega
    · split at h
      · simp only [Option.some.injEq, Prod.mk.injEq] at h
        have h₁ := (List.dropWhile_suffix Char.isAlpha (l := cs)).length_le
        have h₂ := (List.dropWhile_suffix Char.isDigit (l := cs.dropWhile Char.isAlpha)).length_le
        rw [← h.2, List.length_cons]
        omega
      · simp at h

/-- The characters that stand for an operator. -/
def isOperator (c : Char) : Bool := c == '+' || c == '-' || c == '*' || c == '/'

/-- The verdict at a place where neither an operator nor a closing parenthesis can be read. An open
parenthesis is reported first, the innermost one. -/
def stop (opened : List Nat) (position : Nat) (rest : List Char) : Except CheckError Unit :=
  match opened with
  | innermost :: _ => .error (.unclosedParen innermost)
  | [] => if rest.isEmpty then .ok () else .error (.expectedOperator position)

mutual

/-- Checks a text at whose front an operand must stand. The positions of the open parentheses are
known, the innermost one first. -/
def checkOperand (opened : List Nat) (position : Nat) (cs : List Char) : Except CheckError Unit :=
  match cs with
  | '(' :: rest => checkOperand (position :: opened) (position + 1) rest
  | cs =>
    match _h : skipOperand? cs with
    | some (length, rest) => checkOperator opened (position + length) rest
    | none => .error (.expectedOperand position)
termination_by cs.length
decreasing_by
  · simp
  · exact skipOperand?_shorter _h

/-- Checks a text that follows an operand. -/
def checkOperator (opened : List Nat) (position : Nat) (cs : List Char) : Except CheckError Unit :=
  match cs with
  | [] => stop opened position []
  | c :: rest =>
    if isOperator c then checkOperand opened (position + 1) rest
    else match c, opened with
      | ')', _ :: outer => checkOperator outer (position + 1) rest
      | _, _ => stop opened position (c :: rest)
termination_by cs.length

end

/-- Decides whether the characters are a formula. -/
def checkChars : List Char → Except CheckError Unit
  | '=' :: body => checkOperand [] 1 body
  | _ => .error .missingEquals

/-- Decides whether a text is a formula. -/
def check (formula : String) : Except CheckError Unit := checkChars formula.toList

/-- Whether a text is a formula. -/
def isValid (formula : String) : Bool := (check formula).isOk

end Spreadsheet.Formula
