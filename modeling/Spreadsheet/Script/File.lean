import Spreadsheet.File
import Spreadsheet.Script.Basic

/-!
# Script files

A script is read from a file, which may be missing or no text.
-/

namespace Spreadsheet.Script

/-- Why a script cannot be had from a file. -/
inductive LoadError where
  | unreadable
  | malformed (cause : ParseError)
deriving DecidableEq, Repr

def LoadError.message : LoadError → String
  | unreadable => "IO error"
  | malformed cause => cause.message

/-- The edits of a script file. -/
def load (file : File) : Except LoadError (List Entry) :=
  match file.text? with
  | none => .error .unreadable
  | some content => (parse content).mapError .malformed

end Spreadsheet.Script
