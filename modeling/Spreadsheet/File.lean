/-!
# Files

What a program finds at a path. The file system is a function from paths to files, so that what
depends on it can be computed without reading anything.
-/

namespace Spreadsheet

/-- What stands at a path. -/
inductive File where
  | missing
  | directory
  | content (bytes : ByteArray)

/-- The files that a program can see. -/
abbrev Files := String → File

/-- The text of a file, if it has one: its bytes must be UTF-8. -/
def File.text? : File → Option String
  | content bytes => String.fromUTF8? bytes
  | _ => none

end Spreadsheet
