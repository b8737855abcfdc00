/-!
# TOML strings and keys

The texts of a TOML document: strings in their four forms, and keys, which are bare or quoted and
may be dotted. A reader yields what it read and the rest of the document, and nothing if the
document is malformed there.
-/

namespace Spreadsheet.Toml

/-- The characters that may stand for themselves in a comment or a string. -/
def isPlain (c : Char) : Bool := c == '\t' || (0x20 ≤ c.toNat && c.toNat != 0x7F)

def isSpace (c : Char) : Bool := c == ' ' || c == '\t'

def skipSpaces (cs : List Char) : List Char := cs.dropWhile isSpace

/-- What follows the line end at the front. -/
def newline? : List Char → Option (List Char)
  | '\n' :: rest => some rest
  | '\r' :: '\n' :: rest => some rest
  | _ => none

theorem newline?_shorter {cs rest : List Char} (h : newline? cs = some rest) :
    rest.length < cs.length := by
  unfold newline? at h
  split at h
  · cases h; simp
  · cases h; simp only [List.length_cons]; omega
  · cases h

theorem skipSpaces_le (cs : List Char) : (skipSpaces cs).length ≤ cs.length :=
  (List.dropWhile_suffix isSpace).length_le

/-- Skips a comment, if one is at the front. -/
def skipComment : List Char → List Char
  | '#' :: rest => rest.dropWhile isPlain
  | cs => cs

theorem skipComment_le (cs : List Char) : (skipComment cs).length ≤ cs.length := by
  unfold skipComment
  split
  · rename_i rest
    have := (List.dropWhile_suffix isPlain (l := rest)).length_le
    simp only [List.length_cons]
    omega
  · exact Nat.le_refl _

/-- Skips all spaces, comments and line ends at the front. -/
def skipBlank (cs : List Char) : List Char :=
  match _h : newline? (skipComment (skipSpaces cs)) with
  | some rest => skipBlank rest
  | none => skipComment (skipSpaces cs)
termination_by cs.length
decreasing_by
  have h₁ := newline?_shorter _h
  have h₂ := skipComment_le (skipSpaces cs)
  have h₃ := skipSpaces_le cs
  omega

/-- What follows the end of a line, which comes after spaces and a comment or is the end of the
document. -/
def lineEnd? (cs : List Char) : Option (List Char) :=
  match skipComment (skipSpaces cs) with
  | [] => some []
  | rest => newline? rest

/-! ### Strings -/

def hexValue? (c : Char) : Option Nat :=
  if c.isDigit then some (c.toNat - '0'.toNat)
  else if 'a' ≤ c && c ≤ 'f' then some (c.toNat - 'a'.toNat + 10)
  else if 'A' ≤ c && c ≤ 'F' then some (c.toNat - 'A'.toNat + 10)
  else none

/-- The character with a number in hexadecimal. -/
def scalar? (digits : List Char) : Option Char := do
  let n ← digits.foldlM (fun n c => (hexValue? c).map (16 * n + ·)) 0
  if n.isValidChar then some (Char.ofNat n) else none

/-- The number of hexadecimal digits after an escape that has some. -/
def hexWidth? : Char → Option Nat
  | 'u' => some 4
  | 'U' => some 8
  | _ => none

/-- The character that an escape without digits stands for. -/
def escaped? : Char → Option Char
  | 'b' => some '\x08'
  | 't' => some '\t'
  | 'n' => some '\n'
  | 'f' => some '\x0c'
  | 'r' => some '\r'
  | '"' => some '"'
  | '\\' => some '\\'
  | _ => none

/-- Reads what follows a backslash. -/
def escape? : List Char → Option (Char × List Char)
  | [] => none
  | c :: rest =>
    match escaped? c, hexWidth? c with
    | some e, _ => some (e, rest)
    | none, some width =>
      let digits := rest.take width
      if digits.length < width then none else (scalar? digits).map (·, rest.drop width)
    | none, none => none

theorem escape?_shorter {cs rest : List Char} {e : Char} (h : escape? cs = some (e, rest)) :
    rest.length < cs.length := by
  cases cs with
  | nil => simp [escape?] at h
  | cons c cs =>
    simp only [escape?] at h
    split at h
    · simp only [Option.some.injEq, Prod.mk.injEq] at h
      simp [h.2]
    · split at h
      · simp at h
      · simp only [Option.map_eq_some_iff, Prod.mk.injEq] at h
        obtain ⟨_, _, _, rfl⟩ := h
        simp only [List.length_drop, List.length_cons]
        omega
    · simp at h

/-- Reads a basic string after its opening quote; the characters read so far come last first. -/
def basic? (text : List Char) (cs : List Char) : Option (String × List Char) :=
  match cs with
  | [] => none
  | '"' :: rest => some (String.ofList text.reverse, rest)
  | '\\' :: rest =>
    match _h : escape? rest with
    | some (e, rest) => basic? (e :: text) rest
    | none => none
  | c :: rest => if isPlain c then basic? (c :: text) rest else none
termination_by cs.length
decreasing_by
  · have := escape?_shorter _h
    simp only [List.length_cons]
    omega
  · simp

/-- Reads a literal string after its opening quote. -/
def literal? (cs : List Char) : Option (String × List Char) :=
  let isText (c : Char) : Bool := isPlain c && c != '\''
  match cs.dropWhile isText with
  | '\'' :: rest => some (String.ofList (cs.takeWhile isText), rest)
  | _ => none

/-- The quotes of the text, at most two, between the three that close it and what follows. -/
def surplus (quote : Char) (cs : List Char) : List Char := (cs.take 2).takeWhile (· == quote)

/-- Skips all spaces and line ends at the front. -/
def skipBreaks (cs : List Char) : List Char :=
  match _h : newline? (skipSpaces cs) with
  | some rest => skipBreaks rest
  | none => skipSpaces cs
termination_by cs.length
decreasing_by
  have h₁ := newline?_shorter _h
  have h₂ := skipSpaces_le cs
  omega

theorem skipBreaks_le (cs : List Char) : (skipBreaks cs).length ≤ cs.length := by
  fun_induction skipBreaks cs with
  | case1 cs rest h ih =>
    have h₁ := newline?_shorter h
    have h₂ := skipSpaces_le cs
    omega
  | case2 cs h => exact skipSpaces_le cs

/-- Reads a multi-line basic string after its opening quotes and a line end that follows them. A
backslash at the end of a line joins it with the next text. -/
def multiBasic? (text : List Char) (cs : List Char) : Option (String × List Char) :=
  match cs with
  | [] => none
  | '"' :: '"' :: '"' :: rest =>
    let quotes := surplus '"' rest
    some (String.ofList (quotes ++ text).reverse, rest.drop quotes.length)
  | '\\' :: rest =>
    if (newline? (skipSpaces rest)).isSome then multiBasic? text (skipBreaks rest)
    else match _h : escape? rest with
      | some (e, rest) => multiBasic? (e :: text) rest
      | none => none
  | '\r' :: '\n' :: rest => multiBasic? ('\n' :: text) rest
  | c :: rest => if isPlain c || c == '\n' then multiBasic? (c :: text) rest else none
termination_by cs.length
decreasing_by
  · have := skipBreaks_le rest
    simp only [List.length_cons]
    omega
  · have := escape?_shorter _h
    simp only [List.length_cons]
    omega
  · simp only [List.length_cons]
    omega
  · simp

/-- Reads a multi-line literal string after its opening quotes and a line end that follows them. -/
def multiLiteral? (text : List Char) (cs : List Char) : Option (String × List Char) :=
  match cs with
  | [] => none
  | '\'' :: '\'' :: '\'' :: rest =>
    let quotes := surplus '\'' rest
    some (String.ofList (quotes ++ text).reverse, rest.drop quotes.length)
  | '\r' :: '\n' :: rest => multiLiteral? ('\n' :: text) rest
  | c :: rest => if isPlain c || c == '\n' then multiLiteral? (c :: text) rest else none

/-- Reads a string in any of its forms. -/
def string? : List Char → Option (String × List Char)
  | '"' :: '"' :: '"' :: rest => multiBasic? [] ((newline? rest).getD rest)
  | '"' :: rest => basic? [] rest
  | '\'' :: '\'' :: '\'' :: rest => multiLiteral? [] ((newline? rest).getD rest)
  | '\'' :: rest => literal? rest
  | _ => none

/-! ### Keys -/

def isBare (c : Char) : Bool := c.isAlphanum || c == '-' || c == '_'

/-- Reads a key without dots. -/
def simpleKey? : List Char → Option (String × List Char)
  | '"' :: rest => basic? [] rest
  | '\'' :: rest => literal? rest
  | cs =>
    let bare := cs.takeWhile isBare
    if bare.isEmpty then none else some (String.ofList bare, cs.dropWhile isBare)

/-- Reads the parts of a dotted key, of which there are at most `parts`, with spaces around them. -/
def key? : (parts : Nat) → List Char → Option (List String × List Char)
  | 0, _ => none
  | parts + 1, cs => do
    let (key, rest) ← simpleKey? (skipSpaces cs)
    match skipSpaces rest with
    | '.' :: rest => do
      let (keys, rest) ← key? parts rest
      return (key :: keys, rest)
    | rest => return ([key], rest)

/-- How deep arrays and inline tables can be nested, and how many parts a dotted key can have. -/
def maxDepth : Nat := 79

/-- Reads a dotted key. -/
def path? (cs : List Char) : Option (List String × List Char) := key? maxDepth cs

end Spreadsheet.Toml
