import Spreadsheet.Data.Config
import Spreadsheet.File
import Spreadsheet.Toml.Document

/-!
# Settings files

The settings of a sheet come from a TOML document with a table `sheet`, either one that is asked for
or that of the user. A file that cannot be used gives a warning and the default settings; a user
without a file gives no warning.
-/

namespace Spreadsheet.Settings

/-- The size in bytes that a settings file must not exceed. -/
def maxSize : Nat := 1048576

/-- Why a settings file is not used. -/
inductive Warning where
  | notFound (path : String)
  | tooLarge (path : String) (size : Nat)
  | unreadable (path : String)
  | malformed (path : String)
deriving DecidableEq, Repr

def Warning.message : Warning → String
  | notFound path => "Config file not found: " ++ path
  | tooLarge path size =>
    "Refusing to read " ++ path ++ ": file too large (" ++ toString size ++ " bytes, max "
      ++ toString maxSize ++ ")"
  | unreadable path => "Failed to read " ++ path
  | malformed path => "Failed to parse " ++ path

/-- The settings in a document: its table `sheet`, and nothing else beside it. -/
def ofDocument? (document : String) : Option Config := do
  let fields ← (← Toml.read? document).record? .toml false ["sheet"]
  Data.fieldOr? fields "sheet" (Config.ofData? .toml) {}

/-- The settings in a file that is there. -/
def read (path : String) (file : File) : Except Warning Config :=
  match file with
  | .missing => .error (.notFound path)
  | .directory => .error (.unreadable path)
  | .content bytes =>
    if bytes.size > maxSize then .error (.tooLarge path bytes.size)
    else match file.text? with
      | none => .error (.unreadable path)
      | some document =>
        match ofDocument? document with
        | none => .error (.malformed path)
        | some config => .ok config

/-- The settings in the file asked for, or else in that of the user, and the warning if there is
one. -/
def load (files : Files) (asked user : Option String) : Config × Option Warning :=
  match asked, user with
  | none, none => ({}, none)
  | some path, _ => settle (read path (files path))
  | none, some path =>
    match files path with
    | .missing => ({}, none)
    | file => settle (read path file)
where
  settle : Except Warning Config → Config × Option Warning
    | .ok config => (config, none)
    | .error warning => ({}, some warning)

/-- The path of the user's settings. The configuration directory counts only if it is an absolute
path, and otherwise lies in the home directory. -/
def userPath? (home configHome : Option String) : Option String :=
  let isAbsolute (path : String) : Bool := path.toList.head? == some '/'
  let directory := match configHome.filter isAbsolute with
    | some directory => some directory
    | none => (home.filter (· != "")).map (· ++ "/.config")
  directory.map (· ++ "/sheetcalc/config.toml")

end Spreadsheet.Settings
