import Spreadsheet.CommandLine.Options
import Spreadsheet.Settings
import Spreadsheet.Script.File
import Spreadsheet.Script.Replay

/-!
# Running the command

The command loads its settings, replays an edit script on an empty sheet, and prints either the
value of a formula or all cells. `run` computes what it prints from its arguments and what it can
read, so nothing here reads or writes.
-/

namespace Spreadsheet.CommandLine

/-- What the command can read. -/
structure Surroundings where
  files : Files
  input : File
  userConfig : Option String

/-- What the command prints, line by line, and the code that it ends with. -/
structure Output where
  code : UInt32 := 0
  lines : List String := []
  errors : List String := []
deriving DecidableEq, Repr

namespace Output

/-- Prints further lines. -/
def print (o : Output) (lines : List String) : Output := { o with lines := o.lines ++ lines }

/-- Prints warnings. -/
def warn (o : Output) (messages : List String) : Output :=
  { o with errors := o.errors ++ messages.map ("Warning: " ++ ·) }

/-- Ends with an error. -/
def fail (o : Output) (message : String) : Output :=
  { o with code := 1, errors := o.errors ++ ["Error: " ++ message] }

end Output

/-- Why the command ends before it has anything to report. -/
inductive RunError where
  | script (path : String) (cause : Script.LoadError)
  | input (cause : Script.LoadError)
  | replay (cause : Script.ReplayError)
deriving DecidableEq, Repr

def RunError.message : RunError → String
  | script path cause => "Failed to load " ++ path ++ ": " ++ cause.message
  | input .unreadable => "Failed to read edit script from stdin"
  | input (.malformed cause) => "Failed to parse stdin: " ++ cause.message
  | replay cause => cause.message

/-! ### Lines -/

def changeLine (c : Change) : String :=
  "change\t" ++ c.reference.text ++ "\t" ++ if c.removed then "(removed)" else c.display

/-- A cell is shown with what was entered and with the formats that are on. -/
def cellLine (s : Snapshot) : String :=
  let formats := match s.format.active with
    | [] => []
    | kinds => [",".intercalate (kinds.map (·.name))]
  "\t".intercalate ([s.reference.text, s.display, s.raw] ++ formats)

/-! ### Steps -/

/-- The settings in the files, overridden by the options. -/
def Options.apply (options : Options) (config : Config) : Config :=
  { config with
    cyclePolicy := options.cyclePolicy.getD config.cyclePolicy
    keepFormatOnClear := options.keepFormatOnClear || config.keepFormatOnClear }

/-- The edits to replay: those of the script, or else of the input unless a formula is given. -/
def Options.entries (options : Options) (around : Surroundings) :
    Except RunError (List Script.Entry) :=
  match options.script, options.formula with
  | some path, _ => (Script.load (around.files path)).mapError (.script path)
  | none, some _ => .ok []
  | none, none => (Script.load around.input).mapError .input

/-- The sheet that the edits lead to, with their changes and warnings. -/
def Options.replay (options : Options) (around : Surroundings) (config : Config) :
    Except RunError Script.Replay := do
  let entries ← options.entries around
  (Script.replay (.empty (options.apply config)) entries).mapError .replay

/-- Prints the value of the formula, or all cells if there is none. -/
def Options.report (options : Options) (s : Sheet) (o : Output) : Output :=
  match options.formula with
  | none => o.print (s.snapshots.map cellLine)
  | some formula =>
    match s.evaluate formula with
    | .ok value => o.print [Number.display value]
    | .error e => (o.print [s.config.errorTexts.invalidFormula]).fail e.message

/-- Does what the options ask for. -/
def Options.run (options : Options) (around : Surroundings) : Output :=
  let (config, warning) := Settings.load around.files options.config around.userConfig
  let o := ({} : Output).warn (warning.toList.map (·.message))
  match options.replay around config with
  | .error e => o.fail e.message
  | .ok replayed =>
    let o := if options.showChanges then o.print (replayed.allChanges.map changeLine) else o
    options.report replayed.sheet (o.warn replayed.allWarnings)

/-- What the command prints. -/
def run (arguments : List String) (around : Surroundings) : Output :=
  match ({} : Options).parse arguments with
  | .ok .help => { errors := usage }
  | .ok (.run options) => options.run around
  | .error e =>
    let o := ({} : Output).fail e.message
    if e.showsUsage then { o with errors := o.errors ++ usage } else o

/-- The paths that the command may read, and whether it reads its input. -/
def needs (arguments : List String) (userConfig : Option String) : List String × Bool :=
  match ({} : Options).parse arguments with
  | .ok (.run options) =>
    ((options.config <|> userConfig).toList ++ options.script.toList,
      options.script.isNone && options.formula.isNone)
  | _ => ([], false)

end Spreadsheet.CommandLine
