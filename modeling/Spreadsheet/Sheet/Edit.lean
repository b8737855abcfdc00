import Spreadsheet.Sheet.Recalc

/-!
# Editing a sheet

An edit sets or clears the text of a cell, or toggles a flag of its format. Its result lists the
changes: first the edited cell, then the cells recalculated because of it, each with its final
state. The observer sees those of them that it takes for visible, in the same order.
-/

namespace Spreadsheet

/-- What an edit leads to: the sheet after it, its result, and what the observer saw. -/
structure Outcome where
  sheet : Sheet
  result : Except SheetError (List Change)
  events : List Change

namespace Sheet

/-- An edit that changes nothing. -/
def unchanged (s : Sheet) (result : Except SheetError (List Change)) : Outcome := ⟨s, result, []⟩

/-- The changes that the observer sees. -/
def visibleChanges (s : Sheet) (changes : List Change) : List Change :=
  match s.observer with
  | some isVisible => changes.filter (isVisible ·.reference)
  | none => []

/-- Ends an edit: the touched references are reported with their final state, and a cycle through
the edited cell is an error. -/
def publish (s : Sheet) (p : Progress) (cycle : Option (List Ref)) : Outcome :=
  let s := { s with cells := p.cells }
  let changes := p.touchedOnce.map s.change
  let result := match cycle with
    | some path => .error (.cyclic path changes)
    | none => .ok changes
  ⟨s, result, s.visibleChanges changes⟩

/-- Recalculates after an edit of `origin` and ends it. In an acyclic sheet a chain of dependents is
no longer than the number of cells, which bounds the depth of an unguarded recalculation. -/
def finish (s : Sheet) (p : Progress) (origin : Ref) : Outcome :=
  match s.config.cyclePolicy with
  | .detect =>
    let (p, cycle) := p.propagate s.graph origin
    s.publish p cycle
  | .unguarded =>
    match Progress.propagateUnguarded? s.graph (p.cells.size + 1) p origin with
    | some p => s.publish p none
    | none => ⟨{ s with cells := p.cells }, .error .endless, []⟩

/-- Stores a text without blanks at its ends in a cell, which keeps its format. -/
def write (s : Sheet) (r : Ref) (raw : String) : Sheet × Progress :=
  let (old, format) := match s.cells[r]? with
    | some c => (c.dependencies, c.format)
    | none => (∅, {})
  let c := s.cells.spread { Cell.ofText raw s.cells.lookup with format }
  ({ s with graph := (s.graph.relink r old c.dependencies).graph }, Progress.store ⟨s.cells, []⟩ r c)

/-- Empties a cell; depending on the settings one with a format stays stored with it. -/
def erase (s : Sheet) (r : Ref) (c : Cell) : Sheet × Progress :=
  let cells := s.cells.erase r
  let keep := s.config.keepFormatOnClear && !c.format.isEmpty
  ({ s with graph := (s.graph.relink r c.dependencies ∅).graph },
    ⟨if keep then cells.insert r (.ofFormat c.format) else cells, [r]⟩)

/-- Sets the text of a cell; an empty text clears it. Setting the text that is stored already does
nothing. -/
def set (s : Sheet) (r : Ref) (text : String) : Outcome :=
  let old := s.cells[r]?
  if old.any (·.raw == text) then s.unchanged (.ok [])
  else if text.isEmpty then
    match old with
    | none => s.unchanged (.ok [])
    | some c =>
      let (s, p) := s.erase r c
      s.finish p r
  else
    let (s, p) := s.write r (Text.trim text)
    s.finish p r

/-- Sets the text of the cell that a text refers to. -/
def setAt (s : Sheet) (reference text : String) : Outcome :=
  match SheetError.parseRef reference with
  | .error e => s.unchanged (.error e)
  | .ok r => s.set r text

/-- Toggles a flag of a cell, which is stored for it if need be. A cell that lies on a cycle is no
error here. -/
def toggle (s : Sheet) (kind : FormatKind) (r : Ref) : Outcome :=
  let c := (s.cells[r]?.getD (.ofFormat {})).toggle kind
  let outcome := s.finish (Progress.store ⟨s.cells, []⟩ r c) r
  match outcome.result with
  | .error (.cyclic _ changes) => { outcome with result := .ok changes }
  | _ => outcome

/-- Toggles the named flag of the cell that a text refers to. An unknown kind does nothing. -/
def toggleAt (s : Sheet) (kind reference : String) : Outcome :=
  match SheetError.parseRef reference with
  | .error e => s.unchanged (.error e)
  | .ok r =>
    match FormatKind.ofName? kind with
    | none => s.unchanged (.ok [])
    | some kind => s.toggle kind r

end Sheet

end Spreadsheet
