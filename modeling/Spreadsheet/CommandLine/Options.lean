import Spreadsheet.Config

/-!
# Options of the command line

Arguments are read from left to right, and the first one that asks for help or is wrong decides. An
option that is given twice counts as given last.
-/

namespace Spreadsheet.CommandLine

/-- What the command is to do. -/
structure Options where
  script : Option String := none
  formula : Option String := none
  cyclePolicy : Option CyclePolicy := none
  keepFormatOnClear : Bool := false
  config : Option String := none
  showChanges : Bool := false
deriving DecidableEq, Repr

/-- What is wrong with the arguments. -/
inductive UsageError where
  | formulaMissing
  | policyMissing
  | configMissing
  | unknownPolicy (name : String)
  | unknownOption (argument : String)
  | unexpectedArgument (argument : String)
deriving DecidableEq, Repr

namespace UsageError

def message : UsageError → String
  | formulaMissing => "--command requires a formula"
  | policyMissing => "--cycles requires a value"
  | configMissing => "--config requires a file path"
  | unknownPolicy name => CyclePolicy.unknownMessage name
  | unknownOption argument => "Unknown option: " ++ argument
  | unexpectedArgument argument => "Unexpected argument: " ++ argument

/-- Whether the usage is shown with the error. -/
def showsUsage : UsageError → Bool
  | unknownOption _ | unexpectedArgument _ => true
  | _ => false

end UsageError

/-- What the arguments ask for. -/
inductive Request where
  | help
  | run (options : Options)
deriving DecidableEq, Repr

/-- Reads the arguments after those that gave the options so far. -/
def Options.parse (options : Options) : List String → Except UsageError Request
  | [] => .ok (.run options)
  | argument :: rest =>
    if argument == "-h" || argument == "--help" then .ok .help
    else if argument == "-c" || argument == "--command" then
      match rest with
      | [] => .error .formulaMissing
      | formula :: rest => { options with formula := some formula }.parse rest
    else if argument == "--cycles" then
      match rest with
      | [] => .error .policyMissing
      | name :: rest =>
        match CyclePolicy.parse? name with
        | none => .error (.unknownPolicy name)
        | some policy => { options with cyclePolicy := some policy }.parse rest
    else if argument == "--keep-format-on-clear" then
      { options with keepFormatOnClear := true }.parse rest
    else if argument == "--config" then
      match rest with
      | [] => .error .configMissing
      | path :: rest => { options with config := some path }.parse rest
    else if argument == "--changes" then { options with showChanges := true }.parse rest
    else if argument.toList.head? == some '-' then .error (.unknownOption argument)
    else if options.script.isSome then .error (.unexpectedArgument argument)
    else { options with script := some argument }.parse rest

/-- How the command is used. -/
def usage : List String :=
  ["Usage: sheetcalc [OPTIONS] [FILE]",
    "",
    "Arguments:",
    "  [FILE]                    Edit script to replay (reads stdin when omitted)",
    "",
    "Options:",
    "  -c, --command <FORMULA>   Evaluate a formula against the sheet and print it",
    "  --cycles <POLICY>         Cycle handling: detect (default) or unguarded",
    "  --keep-format-on-clear    Keep formatting when a cell is cleared",
    "  --config <FILE>           Load settings from TOML file",
    "  --changes                 Print every change while replaying",
    "  -h, --help                Print help"]

end Spreadsheet.CommandLine
