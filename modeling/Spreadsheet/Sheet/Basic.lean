import Spreadsheet.Config
import Spreadsheet.Grid.Basic
import Spreadsheet.Graph.Basic
import Spreadsheet.Formula.Check
import Spreadsheet.Viewport

/-!
# Sheets

A sheet stores cells, knows which cells read which, and may have an observer. Reading a sheet gives
snapshots of its cells or the numbers of formulas evaluated against it; editing it gives a list of
changes.
-/

namespace Spreadsheet

open Formula

/-- What an observer is told about a cell after an edit. -/
structure Change where
  reference : Ref
  display : String
  format : Format
  error : Option CellError
  removed : Bool
deriving DecidableEq, Repr, Inhabited

/-- Everything about a stored cell that can be shown. -/
structure Snapshot where
  reference : Ref
  raw : String
  isExpression : Bool
  computed : Float
  display : String
  format : Format
  error : Option CellError
deriving Repr, Inhabited

/-- Why an operation on a sheet fails. An edit that closes a cycle is kept all the same, so its
error carries the changes; `endless` is the fate of an unguarded recalculation that runs into a
cycle. -/
inductive SheetError where
  | invalidReference (text : String)
  | invalidFormula (cause : CheckError)
  | unreadable (cause : LexError)
  | cyclic (path : List Ref) (changes : List Change)
  | endless
deriving DecidableEq, Repr

def SheetError.message : SheetError → String
  | invalidReference text => "Invalid cell reference: " ++ text
  | invalidFormula cause => "Invalid formula: " ++ cause.message
  | unreadable cause => "Unreadable formula text: " ++ cause.message
  | cyclic path _ => "Circular dependency detected: " ++ " -> ".intercalate (path.map (·.text))
  | endless => "Recalculation does not end"

/-- The reference that a text denotes. -/
def SheetError.parseRef (text : String) : Except SheetError Ref :=
  match Ref.parse? text with
  | some r => .ok r
  | none => .error (.invalidReference text)

/-- A spreadsheet. The observer, if there is one, sees the changes of the references that it takes
for visible. -/
structure Sheet where
  config : Config
  cells : Grid
  graph : Graph
  observer : Option (Ref → Bool)
deriving Inhabited

namespace Sheet

/-- A sheet without cells. -/
def empty (config : Config) : Sheet := ⟨config, ∅, .empty, none⟩

def observe (s : Sheet) (isVisible : Ref → Bool) : Sheet := { s with observer := some isVisible }

def unobserve (s : Sheet) : Sheet := { s with observer := none }

/-! ### Reading -/

/-- What a cell shows on this sheet. -/
def display (s : Sheet) (c : Cell) : String := c.display s.config.errorTexts

def snapshot (s : Sheet) (r : Ref) (c : Cell) : Snapshot :=
  ⟨r, c.raw, c.isExpression, c.computed, s.display c, c.format, c.error⟩

/-- The state of a reference as a change: a cell that is not stored counts as removed. -/
def change (s : Sheet) (r : Ref) : Change :=
  match s.cells[r]? with
  | some c => ⟨r, s.display c, c.format, c.error, false⟩
  | none => ⟨r, "", {}, none, true⟩

/-- The snapshot of the stored cell that a text refers to. -/
def snapshotAt? (s : Sheet) (reference : String) : Option Snapshot := do
  let r ← Ref.parse? reference
  let c ← s.cells[r]?
  return s.snapshot r c

/-- All stored cells, row by row. -/
def snapshots (s : Sheet) : List Snapshot :=
  (s.cells.toList.mergeSort fun a b => a.1.readsBefore b.1).map fun (r, c) => s.snapshot r c

/-- The stored cells that a viewport shows, as changes. -/
def repaint (s : Sheet) (v : Viewport) : List Change :=
  (v.visible.filter (s.cells.contains ·)).map s.change

/-- The value of a formula, which may lack its equals sign, without storing it. -/
def evaluate (s : Sheet) (formula : String) : Except SheetError Float := do
  let body := Text.trimmed formula.toList
  let chars := if body.head? == some '=' then body else '=' :: body
  match checkChars chars with
  | .error cause => throw (.invalidFormula cause)
  | .ok _ =>
    match tokenizeChars chars with
    | .error cause => throw (.unreadable cause)
    | .ok tokens => return Formula.evaluate (resolve s.cells.lookup tokens)

end Sheet

end Spreadsheet
