import Spreadsheet.Ref

/-!
# Dependency graphs

An edge leads from a precedent to a cell that reads it, its dependent. The graph keeps for every
precedent the set of its dependents, and no set that is empty.
-/

namespace Spreadsheet

/-- The dependents of every precedent that has some. -/
structure Graph where
  dependentsOf : RefMap RefSet
deriving Inhabited

namespace Graph

def empty : Graph := ⟨∅⟩

/-- The dependents of a reference, ascending. -/
def dependents (g : Graph) (r : Ref) : List Ref := (g.dependentsOf.getD r ∅).toList

def hasEdge (g : Graph) (precedent dependent : Ref) : Bool :=
  (g.dependentsOf.getD precedent ∅).contains dependent

/-- How many precedents have a dependent. -/
def size (g : Graph) : Nat := g.dependentsOf.size

def isEmpty (g : Graph) : Bool := g.dependentsOf.isEmpty

/-- Adds an edge. -/
def link (g : Graph) (precedent dependent : Ref) : Graph :=
  ⟨g.dependentsOf.insert precedent ((g.dependentsOf.getD precedent ∅).insert dependent)⟩

/-- Removes an edge, and with the last one of a precedent its whole entry. -/
def unlink (g : Graph) (precedent dependent : Ref) : Graph :=
  let left := (g.dependentsOf.getD precedent ∅).erase dependent
  if left.isEmpty then ⟨g.dependentsOf.erase precedent⟩
  else ⟨g.dependentsOf.insert precedent left⟩

/-- The members of the first set that are not in the second, ascending. -/
def difference (a b : RefSet) : List Ref := a.toList.filter (!b.contains ·)

/-- A graph after a cell has moved to other precedents, with those that it left and those that it
came to, both ascending. -/
structure Relinked where
  graph : Graph
  unlinked : List Ref
  linked : List Ref

/-- Moves a cell from the precedents it read to those it reads now. -/
def relink (g : Graph) (dependent : Ref) (old new : RefSet) : Relinked :=
  let unlinked := difference old new
  let linked := difference new old
  let g := unlinked.foldl (fun g precedent => g.unlink precedent dependent) g
  ⟨linked.foldl (fun g precedent => g.link precedent dependent) g, unlinked, linked⟩

end Graph

end Spreadsheet
