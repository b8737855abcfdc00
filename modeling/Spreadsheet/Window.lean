import Spreadsheet.Sheet.Basic

/-!
# Windows

A window is a viewport that remembers. It writes the label of a column once and keeps it, and it keeps
the references of the region that it listed last, for as long as the region stays the same.
-/

namespace Spreadsheet

namespace Column

/-- The labels that have been written, by column. -/
abbrev Labels := Std.ExtTreeMap Nat String

/-- The label of a column, which is written only if it has not been before. -/
def Labels.label (index : Nat) : StateM Labels String := do
  match (← get)[index]? with
  | some label => return label
  | none =>
    modify (·.insert index (Column.label index))
    return Column.label index

end Column

/-- A viewport with what it has worked out. -/
structure Window where
  region : Region := {}
  /-- The region listed last, with its references. -/
  listed : Option (Region × List Ref) := none
  labels : Column.Labels := ∅

namespace Window

/-- A window that has not worked out anything. -/
def ofRegion (region : Region) : Window := { region }

def viewport (w : Window) : Viewport := ⟨w.region⟩

def setRegion (w : Window) (region : Region) : Window := { w with region }

/-- Whether a reference is shown. -/
def contains (w : Window) (r : Ref) : Bool := w.viewport.contains r

/-- The references of a region, row by row. -/
def build (region : Region) : StateM Column.Labels (List Ref) :=
  (Region.span region.startRow region.endRow).flatMapM fun row =>
    (Region.span region.startColumn region.endColumn).filterMapM fun column =>
      return Ref.ofLabel? (← Column.Labels.label column) row

/-- Works out the references of the region and keeps them. -/
def relist (w : Window) : List Ref × Window :=
  let (refs, labels) := (build w.region).run w.labels
  (refs, { w with listed := some (w.region, refs), labels })

/-- The references that are shown. They are worked out unless it was this region that was listed last. -/
def visible (w : Window) : List Ref × Window :=
  match w.listed with
  | some (region, refs) => if region = w.region then (refs, w) else w.relist
  | none => w.relist

end Window

/-- The stored cells that a window shows, as changes. -/
def Sheet.refresh (s : Sheet) (w : Window) : List Change × Window :=
  let (refs, w) := w.visible
  ((refs.filter (s.cells.contains ·)).map s.change, w)

namespace Window

/-- What a window is used for, but for looking whether it contains a reference. -/
inductive Use where
  | setRegion (region : Region)
  | visible
  | refresh (s : Sheet)

/-- The window after it was used. -/
def after (w : Window) : Use → Window
  | .setRegion region => w.setRegion region
  | .visible => w.visible.2
  | .refresh s => (s.refresh w).2

def run (w : Window) (uses : List Use) : Window := uses.foldl after w

end Window

end Spreadsheet
