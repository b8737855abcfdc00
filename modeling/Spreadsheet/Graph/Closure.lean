import Spreadsheet.Graph.Basic

/-!
# Transitive dependents

The closure of a reference lists everything that reads it, directly or through other cells, in
breadth-first order. It is built level by level: a level holds the dependents of the level before
that no earlier level has, in the order in which they are met.
-/

namespace Spreadsheet.Graph

/-- What is seen so far, and the next level, the last one met first. -/
structure Frontier where
  seen : RefSet
  next : List Ref

def Frontier.meet (f : Frontier) (r : Ref) : Frontier :=
  if f.seen.contains r then f else ⟨f.seen.insert r, r :: f.next⟩

/-- The level after `level`. -/
def expand (g : Graph) (seen : RefSet) (level : List Ref) : Frontier :=
  level.foldl (fun f r => (g.dependents r).foldl Frontier.meet f) ⟨seen, []⟩

/-- At most `depth` levels from `level` on. -/
def levels (g : Graph) : (depth : Nat) → (seen : RefSet) → (level : List Ref) → List (List Ref)
  | 0, _, _ => []
  | _ + 1, _, [] => []
  | depth + 1, seen, r :: rest =>
    let frontier := g.expand seen (r :: rest)
    (r :: rest) :: g.levels depth frontier.seen frontier.next.reverse

/-- A reference and its transitive dependents. Every level but the last has a precedent of its own,
which bounds their number. -/
def closure (g : Graph) (start : Ref) : List Ref := (g.levels (g.size + 1) {start} [start]).flatten

end Spreadsheet.Graph
