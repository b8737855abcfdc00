import Spreadsheet.Formula.Token
import Spreadsheet.Text

/-!
# Reading tokens

`tokenize` cuts a formula into lexemes, each as long as it can be: an operator, a parenthesis,
letters followed by digits, or digits with an optional fraction. One leading equals sign is skipped.
Positions are byte offsets in the whole text.
-/

namespace Spreadsheet.Formula

/-- Why a text cannot be cut into tokens. -/
inductive LexError where
  | unexpectedChar (c : Char) (position : Nat)
  | malformedNumber (position : Nat)
deriving DecidableEq, Repr

def LexError.message : LexError → String
  | unexpectedChar c position =>
    "Unexpected character '" ++ String.singleton c ++ "' at position " ++ toString position
  | malformedNumber position => "Malformed number at position " ++ toString position

/-- What stands at the front of a text. A lexeme is ASCII, so its length counts its bytes. -/
inductive Front where
  | lexeme (token : Token) (length : Nat) (rest : List Char)
  | malformedNumber
  | stray

/-- The number at the front of a text that starts with a digit. A point belongs to the number, and
without a digit after it the number is malformed. -/
def frontNumber (cs : List Char) : Front :=
  let whole := cs.takeWhile Char.isDigit
  match cs.dropWhile Char.isDigit with
  | '.' :: rest =>
    let fraction := rest.takeWhile Char.isDigit
    if fraction.isEmpty then .malformedNumber
    else .lexeme (.number (Number.ofDigits whole fraction)) (whole.length + 1 + fraction.length)
      (rest.dropWhile Char.isDigit)
  | rest => .lexeme (.number (Number.ofDigits whole [])) whole.length rest

/-- The name at the front of a text that starts with a letter. -/
def frontName (cs : List Char) : Front :=
  let letters := cs.takeWhile Char.isAlpha
  let rest := cs.dropWhile Char.isAlpha
  let digits := rest.takeWhile Char.isDigit
  .lexeme (.reference (String.ofList (Text.upper (letters ++ digits))))
    (letters.length + digits.length) (rest.dropWhile Char.isDigit)

/-- The longest lexeme at the front of a text. -/
def front (c : Char) (cs : List Char) : Front :=
  if c = '(' then .lexeme .openParen 1 cs
  else if c = ')' then .lexeme .closeParen 1 cs
  else if c.isAlpha then frontName (c :: cs)
  else if c.isDigit then frontNumber (c :: cs)
  else match Operator.ofChar? c with
    | some op => .lexeme (.operator op) 1 cs
    | none => .stray

theorem frontName_shorter {c : Char} {cs rest : List Char} {token : Token} {length : Nat}
    (hc : c.isAlpha) (h : frontName (c :: cs) = .lexeme token length rest) :
    rest.length < (c :: cs).length := by
  simp only [frontName, List.dropWhile_cons_of_pos hc, Front.lexeme.injEq] at h
  have h₁ := (List.dropWhile_suffix Char.isAlpha (l := cs)).length_le
  have h₂ := (List.dropWhile_suffix Char.isDigit (l := cs.dropWhile Char.isAlpha)).length_le
  rw [← h.2.2, List.length_cons]
  omega

theorem frontNumber_shorter {c : Char} {cs rest : List Char} {token : Token} {length : Nat}
    (hc : c.isDigit) (h : frontNumber (c :: cs) = .lexeme token length rest) :
    rest.length < (c :: cs).length := by
  have h₁ := (List.dropWhile_suffix Char.isDigit (l := cs)).length_le
  simp only [frontNumber, List.dropWhile_cons_of_pos hc] at h
  split at h
  · rename_i more hmore
    split at h
    · simp at h
    · simp only [Front.lexeme.injEq] at h
      have h₂ := (List.dropWhile_suffix Char.isDigit (l := more)).length_le
      rw [hmore, List.length_cons] at h₁
      rw [← h.2.2, List.length_cons]
      omega
  · simp only [Front.lexeme.injEq] at h
    rw [← h.2.2, List.length_cons]
    omega

theorem front_shorter {c : Char} {cs rest : List Char} {token : Token} {length : Nat}
    (h : front c cs = .lexeme token length rest) : rest.length < (c :: cs).length := by
  have hone {t : Token} (h : Front.lexeme t 1 cs = .lexeme token length rest) :
      rest.length < (c :: cs).length := by
    cases h
    simp
  unfold front at h
  split at h
  · exact hone h
  split at h
  · exact hone h
  split at h
  · exact frontName_shorter (by assumption) h
  split at h
  · exact frontNumber_shorter (by assumption) h
  split at h
  · exact hone h
  · cases h

/-- Cuts the text that starts at a byte position, after the tokens read so far, the last one
first. -/
def scan (position : Nat) (tokens : List Token) : List Char → Except LexError (List Token)
  | [] => .ok tokens.reverse
  | c :: cs =>
    match _h : front c cs with
    | .lexeme token length rest => scan (position + length) (token :: tokens) rest
    | .malformedNumber => .error (.malformedNumber position)
    | .stray => .error (.unexpectedChar c position)
termination_by cs => cs.length
decreasing_by exact front_shorter _h

/-- The tokens of a formula. -/
def tokenizeChars : List Char → Except LexError (List Token)
  | '=' :: body => scan 1 [] body
  | body => scan 0 [] body

/-- The tokens of a formula. -/
def tokenize (formula : String) : Except LexError (List Token) := tokenizeChars formula.toList

end Spreadsheet.Formula
