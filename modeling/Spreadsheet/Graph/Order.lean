import Spreadsheet.Graph.Basic

/-!
# Recalculation order

Cells are recalculated after the cells they read. Among the affected cells, one is ready when all
its affected precedents are taken; ready cells are taken first come, first served. What can never be
taken lies on a cycle or behind one.
-/

namespace Spreadsheet.Graph

/-- The pass over the affected cells: how many precedents of each are not taken yet, the cells that
are ready, and those that are taken, the last one first. The cells that became ready of late wait
apart, the last one first, until those before them are taken. -/
structure Pass where
  pending : RefMap Nat
  ready : List Ref
  late : List Ref
  taken : List Ref

namespace Pass

/-- The cells that are ready, in the order in which they will be taken. -/
def queue (p : Pass) : List Ref := p.ready ++ p.late.reverse

/-- Counts one more precedent of an affected cell. -/
def count (pending : RefMap Nat) (dependent : Ref) : RefMap Nat :=
  match pending[dependent]? with
  | some n => pending.insert dependent (n + 1)
  | none => pending

/-- How many affected precedents each affected cell has. -/
def precedentCounts (g : Graph) (affected : List Ref) : RefMap Nat :=
  let zeros : RefMap Nat := affected.foldl (fun pending r => pending.insert r 0) ∅
  affected.foldl (fun pending r => (g.dependents r).foldl count pending) zeros

/-- Before anything is taken, the cells without affected precedents are ready. -/
def start (g : Graph) (affected : List Ref) : Pass :=
  let pending := precedentCounts g affected
  ⟨pending, affected.filter (pending[·]? == some 0), [], []⟩

/-- One precedent of a cell is taken. An affected cell becomes ready with the last of them. -/
def release (p : Pass) (dependent : Ref) : Pass :=
  match p.pending[dependent]? with
  | none => p
  | some n =>
    { p with
      pending := p.pending.insert dependent (n - 1)
      late := if n - 1 = 0 then dependent :: p.late else p.late }

/-- Takes a cell, the first one of the queue of which the others are given. -/
def take (g : Graph) (p : Pass) (r : Ref) (ready late : List Ref) : Pass :=
  (g.dependents r).foldl release { p with ready, late, taken := r :: p.taken }

/-- Takes the next ready cell. -/
def step (g : Graph) (p : Pass) : Pass :=
  match p.ready with
  | r :: rest => p.take g r rest p.late
  | [] =>
    match p.late.reverse with
    | r :: rest => p.take g r rest []
    | [] => p

/-- The pass after a number of steps. -/
def steps (g : Graph) (p : Pass) : Nat → Pass
  | 0 => p
  | n + 1 => (p.step g).steps g n

end Pass

/-- The affected cells that can be taken, in the order in which they are. -/
def order (g : Graph) (affected : List Ref) : List Ref :=
  ((Pass.start g affected).steps g affected.length).taken.reverse

end Spreadsheet.Graph
