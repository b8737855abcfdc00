import Spreadsheet.CommandLine.Run

/-!
# The command

Reads what the command line needs, and prints what it computes.
-/

namespace Spreadsheet.CommandLine

/-- The system's code for the attempt to read a directory. -/
def isDirectoryCode : UInt32 := 21

/-- What stands at a path. A path through something that is no directory leads nowhere, and whatever
cannot be read counts as a directory. -/
def readFile (path : String) : IO File := do
  try
    return .content (← IO.FS.readBinFile path)
  catch
    | .noFileOrDirectory .. => return .missing
    | .inappropriateType _ code _ => return if code == isDirectoryCode then .directory else .missing
    | _ => return .directory

/-- Everything that stands on the standard input. -/
def readInput : IO File := do
  return .content (← (← IO.getStdin).readBinToEnd)

/-- The command with its arguments. -/
def execute (arguments : List String) : IO UInt32 := do
  let user := Settings.userPath? (← IO.getEnv "HOME") (← IO.getEnv "XDG_CONFIG_HOME")
  let (paths, readsInput) := needs arguments user
  let found ← paths.mapM fun path => return (path, ← readFile path)
  let input ← if readsInput then readInput else pure .missing
  let o := run arguments ⟨fun path => (found.lookup path).getD .missing, input, user⟩
  o.lines.forM IO.println
  o.errors.forM IO.eprintln
  return o.code

end Spreadsheet.CommandLine

def main (arguments : List String) : IO UInt32 := Spreadsheet.CommandLine.execute arguments
