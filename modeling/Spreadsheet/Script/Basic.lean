import Spreadsheet.Format
import Spreadsheet.Ref

/-!
# Edit scripts

An edit script is a text with one edit a line. `REF: TEXT` sets a cell, an empty text clearing it,
and `!KIND REF` toggles a flag of its format. Empty lines and lines that begin with `#` are skipped,
and blanks around a line, a reference and a text do not count.
-/

namespace Spreadsheet.Script

/-- One edit of a sheet. -/
inductive Edit where
  | set (reference : Ref) (text : String)
  | toggle (kind : FormatKind) (reference : Ref)
deriving DecidableEq, Repr

/-- An edit and the line, counted from one, that it stands on. -/
structure Entry where
  line : Nat
  edit : Edit
deriving DecidableEq, Repr

/-- What is wrong with a line. -/
inductive LineError where
  | notAnEdit
  | notAToggle
  | unknownKind (name : String)
  | invalidReference (text : String)
deriving DecidableEq, Repr

def LineError.message : LineError → String
  | notAnEdit => "Expected 'REF: TEXT' or '!KIND REF'"
  | notAToggle => "Expected '!KIND REF'"
  | unknownKind name => FormatKind.unknownMessage name
  | invalidReference text => "Invalid cell reference: " ++ text

/-- The first line that is no edit. -/
structure ParseError where
  line : Nat
  cause : LineError
deriving DecidableEq, Repr

def ParseError.message (e : ParseError) : String :=
  "Parse error at line " ++ toString e.line ++ ": " ++ e.cause.message

/-! ### Lines -/

/-- The reference that the characters denote. -/
def parseRef (cs : List Char) : Except LineError Ref :=
  let cs := Text.trimmed cs
  match Ref.ofChars? cs with
  | some r => .ok r
  | none => .error (.invalidReference (String.ofList cs))

/-- Reads what follows the exclamation mark of a toggle: a kind, in any case, and a reference. -/
def parseToggle (cs : List Char) : Except LineError Edit :=
  match Text.words cs with
  | [kind, reference] =>
    let name := String.ofList (Text.lower kind)
    match FormatKind.ofName? name with
    | some kind => (parseRef reference).map (.toggle kind)
    | none => .error (.unknownKind name)
  | _ => .error .notAToggle

/-- Reads a line that sets a cell: the reference ends at the first colon. -/
def parseSet (cs : List Char) : Except LineError Edit :=
  match cs.dropWhile (· != ':') with
  | [] => .error .notAnEdit
  | _ :: text => (parseRef (cs.takeWhile (· != ':'))).map (.set · (String.ofList (Text.trimmed text)))

/-- Reads one line; a line to be skipped has no edit. -/
def parseLine (line : List Char) : Except LineError (Option Edit) :=
  match Text.trimmed line with
  | [] => .ok none
  | '#' :: _ => .ok none
  | '!' :: rest => (parseToggle rest).map some
  | cs => (parseSet cs).map some

/-! ### Scripts -/

/-- Adds what a line says to the entries read so far, the last one first. -/
def addLine (entries : List Entry) (line : List Char × Nat) : Except ParseError (List Entry) :=
  match parseLine line.1 with
  | .error cause => .error ⟨line.2, cause⟩
  | .ok none => .ok entries
  | .ok (some edit) => .ok (⟨line.2, edit⟩ :: entries)

/-- The edits of a script in order, or the first line that is none. -/
def parse (content : String) : Except ParseError (List Entry) := do
  let entries ← ((Text.lines content.toList).zipIdx 1).foldlM addLine []
  return entries.reverse

end Spreadsheet.Script
