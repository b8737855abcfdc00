import Spreadsheet.Script.Basic
import Spreadsheet.Sheet.Edit

/-!
# Replaying scripts

`replay` applies the edits of a script to a sheet one after another and collects their changes. An
edit that closes a cycle is kept and gives a warning; any other failing edit ends the replay.
-/

namespace Spreadsheet.Script

/-- Applies an edit. A toggle is passed on by the names of its kind and of its cell. -/
def Edit.apply (edit : Edit) (s : Sheet) : Outcome :=
  match edit with
  | set r text => s.set r text
  | toggle kind r => s.toggleAt kind.name r.text

/-- A failing edit and the line that it stands on. -/
structure ReplayError where
  line : Nat
  cause : SheetError
deriving DecidableEq, Repr

def ReplayError.message (e : ReplayError) : String :=
  "Line " ++ toString e.line ++ ": " ++ e.cause.message

/-- The replay so far: the sheet, the changes of each edit, and the warnings, the last ones
first. -/
structure Replay where
  sheet : Sheet
  changes : List (List Change)
  warnings : List ReplayError

namespace Replay

/-- Applies one more edit. -/
def step (p : Replay) (entry : Entry) : Except ReplayError Replay :=
  let outcome := entry.edit.apply p.sheet
  match outcome.result with
  | .ok changes => .ok ⟨outcome.sheet, changes :: p.changes, p.warnings⟩
  | .error (.cyclic path changes) =>
    .ok ⟨outcome.sheet, changes :: p.changes, ⟨entry.line, .cyclic path changes⟩ :: p.warnings⟩
  | .error cause => .error ⟨entry.line, cause⟩

/-- All changes, in the order in which they were made. -/
def allChanges (p : Replay) : List Change := p.changes.reverse.flatten

/-- The warnings, in the order of their lines. -/
def allWarnings (p : Replay) : List String := p.warnings.reverse.map (·.message)

end Replay

/-- Applies the edits of a script in order. -/
def replay (s : Sheet) (entries : List Entry) : Except ReplayError Replay :=
  entries.foldlM Replay.step ⟨s, [], []⟩

end Spreadsheet.Script
