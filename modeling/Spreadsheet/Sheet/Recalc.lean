import Spreadsheet.Grid.Cycle
import Spreadsheet.Graph.Closure
import Spreadsheet.Graph.Order
import Spreadsheet.Sheet.Basic

/-!
# Recalculation

After an edit the cells that read the edited one, directly or not, are computed again. With cycle
detection each of them is computed once, after the cells it reads, and those that cannot be ordered
are marked as cyclic. Without it the dependents are recomputed depth first, once along every path.
-/

namespace Spreadsheet

/-- The cells during an edit, and the references touched so far, the last one first. -/
structure Progress where
  cells : Grid
  touched : List Ref

namespace Progress

/-- Stores a cell and takes note of it. -/
def store (p : Progress) (r : Ref) (c : Cell) : Progress := ⟨p.cells.insert r c, r :: p.touched⟩

/-- Computes a stored cell again; a cell that is not stored stays so. -/
def recompute? (p : Progress) (r : Ref) : Option Progress :=
  p.cells[r]?.map fun c => p.store r (p.cells.spread (c.recompute p.cells.lookup))

def recompute (p : Progress) (r : Ref) : Progress := (p.recompute? r).getD p

/-- Marks a stored cell as cyclic. -/
def markCyclic (p : Progress) (r : Ref) : Progress :=
  match p.cells[r]? with
  | some c => p.store r (c.mark .cyclic)
  | none => p

/-- The references touched, in the order in which each was touched first. -/
def touchedOnce (p : Progress) : List Ref :=
  (p.touched.foldr (fun r (seen, order) =>
    if seen.contains r then (seen, order) else (seen.insert r, r :: order))
    ((∅ : RefSet), ([] : List Ref))).2.reverse

/-- The stored cells among a reference and its transitive dependents. -/
def affected (p : Progress) (graph : Graph) (origin : Ref) : List Ref :=
  (graph.closure origin).filter (p.cells.contains ·)

/-- Recalculates what reads `origin`, which itself is up to date. The second component is a cycle
through `origin`, if it lies on one. -/
def propagate (p : Progress) (graph : Graph) (origin : Ref) : Progress × Option (List Ref) :=
  let affected := p.affected graph origin
  let order := graph.order affected
  let ordered : RefSet := Std.ExtTreeSet.ofList order compare
  let stuck := affected.filter (!ordered.contains ·)
  let p := (order.filter (· != origin)).foldl recompute p
  let p := stuck.foldl markCyclic p
  if stuck.isEmpty || ordered.contains origin then (p, none) else (p, p.cells.findCycle origin)

/-- Recomputes the dependents of `origin` and what reads them, to a depth that is given; nothing if
that depth does not suffice. -/
def propagateUnguarded? (graph : Graph) : (depth : Nat) → Progress → (origin : Ref) → Option Progress
  | 0, _, _ => none
  | depth + 1, p, origin =>
    (graph.dependents origin).foldlM (fun p r =>
      match p.recompute? r with
      | some p => propagateUnguarded? graph depth p r
      | none => some p) p

end Progress

end Spreadsheet
