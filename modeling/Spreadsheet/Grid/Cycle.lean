import Spreadsheet.Grid.Basic

/-!
# Cycles of stored cells

`findCycle` follows dependencies from a stored cell, depth first and in ascending order, until they
lead back to it. A cell that was entered once is not entered again.
-/

namespace Spreadsheet.Grid

/-- A cell on the current path, with those of its dependencies that are still to be followed. -/
structure Visit where
  ref : Ref
  rest : List Ref

/-- Continues the search; `path` holds the current path, the last cell first. Every step uses up a
dependency or leaves a cell. -/
def search (cells : Grid) (start : Ref) :
    (steps : Nat) → (path : List Visit) → (entered : RefSet) → Option (List Ref)
  | 0, _, _ => none
  | _ + 1, [], _ => none
  | steps + 1, ⟨_, []⟩ :: path, entered => cells.search start steps path entered
  | steps + 1, ⟨r, next :: rest⟩ :: path, entered =>
    let path := ⟨r, rest⟩ :: path
    if next = start then some ((path.map (·.ref)).reverse ++ [start])
    else if entered.contains next then cells.search start steps path entered
    else match cells[next]? with
      | none => cells.search start steps path entered
      | some c => cells.search start steps (⟨next, c.dependencies.toList⟩ :: path) (entered.insert next)

/-- A bound on the steps of a search: each stored cell is left once and each of its dependencies is
used up once. -/
def searchSteps (cells : Grid) : Nat :=
  cells.toList.foldl (fun n (_, c) => n + c.dependencies.size + 1) 1

/-- A path from a stored cell along dependencies back to it, if there is one. -/
def findCycle (cells : Grid) (start : Ref) : Option (List Ref) :=
  cells[start]?.bind fun c =>
    cells.search start cells.searchSteps [⟨start, c.dependencies.toList⟩] {start}

end Spreadsheet.Grid
