import Spreadsheet.Proofs.Graph.Entries

/-!
# A graph is its set of edges

A graph keeps edges grouped by precedent. Seen as a set of edges, `link` adds one, `unlink` removes
one, and `relink` removes and adds those in which two sets of precedents differ. Each operation has
on a graph the effect that it has on this set, redundant or not, and leaves no entry empty, so after
any operations the graph answers as the set does.
-/

namespace Spreadsheet

/-- Each reference comes before those after it; in particular none occurs twice. -/
def Ascending (rs : List Ref) : Prop := rs.Pairwise fun a b => compare a b = .lt

namespace Graph

/-! ### Operations on edges -/

/-- What changes a graph. -/
inductive Operation where
  | link (precedent dependent : Ref)
  | unlink (precedent dependent : Ref)
  | relink (dependent : Ref) (old new : RefSet)

namespace Operation

def perform (g : Graph) : Operation → Graph
  | link precedent dependent => g.link precedent dependent
  | unlink precedent dependent => g.unlink precedent dependent
  | relink dependent old new => (g.relink dependent old new).graph

/-- The effect on a set of edges, each of which is a precedent with a dependent. -/
def rewire (edges : Set (Ref × Ref)) : Operation → Set (Ref × Ref)
  | link precedent dependent => insert (precedent, dependent) edges
  | unlink precedent dependent => edges \ {(precedent, dependent)}
  | relink dependent old new =>
    (edges \ {e | e.2 = dependent ∧ e.1 ∈ old ∧ e.1 ∉ new}) ∪
      {e | e.2 = dependent ∧ e.1 ∈ new ∧ e.1 ∉ old}

end Operation

/-- The graph that operations make of one without edges. -/
def ofOperations (operations : List Operation) : Graph := operations.foldl Operation.perform empty

/-- The edges that are there after some operations. -/
def edgesOf (operations : List Operation) : Set (Ref × Ref) := operations.foldl Operation.rewire ∅

/-- The edges of a graph. -/
def edgeSet (g : Graph) : Set (Ref × Ref) := {e | g.Edge e.1 e.2}

variable {g : Graph}

theorem edgeSet_empty : empty.edgeSet = ∅ := by
  ext e
  simpa [edgeSet] using not_edge_empty e.1 e.2

theorem edgeSet_perform (g : Graph) (operation : Operation) :
    (operation.perform g).edgeSet = operation.rewire g.edgeSet := by
  ext ⟨p, d⟩
  cases operation with
  | link precedent dependent =>
    simp [edgeSet, Operation.perform, Operation.rewire, edge_link]
  | unlink precedent dependent =>
    simp [edgeSet, Operation.perform, Operation.rewire, edge_unlink]
  | relink dependent old new =>
    simp only [edgeSet, Operation.perform, Operation.rewire, Set.mem_ofPred_eq, edge_relink,
      Set.mem_union, Set.mem_sdiff]
    tauto

theorem Pruned.perform (h : g.Pruned) (operation : Operation) : (operation.perform g).Pruned := by
  cases operation with
  | link precedent dependent => exact h.link precedent dependent
  | unlink precedent dependent => exact h.unlink precedent dependent
  | relink dependent old new => exact h.relink dependent old new

theorem edgeSet_foldl_perform (g : Graph) (operations : List Operation) :
    (operations.foldl Operation.perform g).edgeSet = operations.foldl Operation.rewire g.edgeSet := by
  induction operations generalizing g with
  | nil => rfl
  | cons operation rest ih => rw [List.foldl_cons, ih, edgeSet_perform, List.foldl_cons]

theorem edgeSet_ofOperations (operations : List Operation) :
    (ofOperations operations).edgeSet = edgesOf operations := by
  rw [ofOperations, edgeSet_foldl_perform, edgeSet_empty, edgesOf]

theorem pruned_ofOperations (operations : List Operation) : (ofOperations operations).Pruned :=
  List.foldlRecOn operations _ pruned_empty fun _ h operation _ => h.perform operation

/-! ### Answers of a graph -/

/-- A list of what is in the first set and not in the second. -/
def ListsDifference (rs : List Ref) (a b : RefSet) : Prop :=
  Ascending rs ∧ ∀ r, r ∈ rs ↔ r ∈ a ∧ r ∉ b

/-- A graph answers for a set of edges: it has these edges and no others, lists the dependents of a
reference in order, and keeps an entry for each precedent that has some. -/
structure Answers (g : Graph) (edges : Set (Ref × Ref)) : Prop where
  hasEdge_iff : ∀ p d, g.hasEdge p d = true ↔ (p, d) ∈ edges
  mem_dependents_iff : ∀ p d, d ∈ g.dependents p ↔ (p, d) ∈ edges
  ascending_dependents : ∀ p, Ascending (g.dependents p)
  entries_ne_empty : ∀ (p : Ref) (ds : RefSet), g.dependentsOf[p]? = some ds → ds ≠ ∅
  size_eq : {p | ∃ d, (p, d) ∈ edges}.encard = g.size
  isEmpty_iff : g.isEmpty = true ↔ edges = ∅

theorem ascending_dependents (g : Graph) (p : Ref) : Ascending (g.dependents p) :=
  Std.ExtTreeSet.ordered_toList

theorem ascending_difference (a b : RefSet) : Ascending (difference a b) :=
  List.Pairwise.filter _ Std.ExtTreeSet.ordered_toList

theorem Pruned.answers (h : g.Pruned) : g.Answers g.edgeSet := by
  refine ⟨fun _ _ => Iff.rfl, fun _ _ => mem_dependents, g.ascending_dependents, h,
    h.encard_precedents, ?_⟩
  rw [isEmpty, Std.ExtTreeMap.isEmpty_eq_size_beq_zero, beq_iff_eq, ← size, ← ENat.natCast_inj,
    ← h.encard_precedents, Nat.cast_zero, Set.encard_eq_zero]
  simp [Set.eq_empty_iff_forall_notMem, edgeSet]

theorem listsDifference_difference (a b : RefSet) : ListsDifference (difference a b) a b :=
  ⟨ascending_difference a b, fun _ => mem_difference⟩

/-- After any operations a graph answers for the edges that are left. A relink lists what it removes
and what it adds; told exactly the precedents that a reference has, it gives it exactly the new ones
and leaves those of all others. -/
theorem answers_ofOperations (operations : List Operation) :
    (ofOperations operations).Answers (edgesOf operations) ∧
    ∀ (r : Ref) (old new : RefSet),
      ListsDifference ((ofOperations operations).relink r old new).unlinked old new ∧
      ListsDifference ((ofOperations operations).relink r old new).linked new old ∧
      ((∀ p, (p, r) ∈ edgesOf operations ↔ p ∈ old) →
        (∀ p, ((ofOperations operations).relink r old new).graph.hasEdge p r = true ↔ p ∈ new) ∧
        ∀ p d, d ≠ r → (((ofOperations operations).relink r old new).graph.hasEdge p d = true ↔
          (p, d) ∈ edgesOf operations)) := by
  rw [← edgeSet_ofOperations]
  refine ⟨(pruned_ofOperations operations).answers, fun r old new => ?_⟩
  refine ⟨listsDifference_difference old new, listsDifference_difference new old, fun hold => ?_⟩
  refine ⟨fun p => ?_, fun p d hd => ?_⟩
  · exact (edge_relink_of_exact hold).trans (by rw [if_pos rfl])
  · exact (edge_relink_of_exact hold).trans (by rw [if_neg hd]; rfl)

/-- A reader of two cells, and edges that were added twice, removed again or never there. -/
def twoPrecedents : List Operation :=
  [.relink (.ofCoordinates 3 1) ∅ {.ofCoordinates 1 1, .ofCoordinates 2 1},
    .link (.ofCoordinates 1 1) (.ofCoordinates 4 1), .link (.ofCoordinates 1 1) (.ofCoordinates 4 1),
    .unlink (.ofCoordinates 4 1) (.ofCoordinates 4 1),
    .link (.ofCoordinates 3 1) (.ofCoordinates 3 1), .unlink (.ofCoordinates 3 1) (.ofCoordinates 3 1)]

theorem answers_ofOperations_of_twoPrecedents :
    (∀ p, (p, .ofCoordinates 3 1) ∈ edgesOf twoPrecedents ↔
      p ∈ ({.ofCoordinates 1 1, .ofCoordinates 2 1} : RefSet)) ∧
    ∀ p, ((ofOperations twoPrecedents).relink (.ofCoordinates 3 1)
        {.ofCoordinates 1 1, .ofCoordinates 2 1} {.ofCoordinates 2 1, .ofCoordinates 4 1}).graph.hasEdge
          p (.ofCoordinates 3 1) = true ↔ p ∈ ({.ofCoordinates 2 1, .ofCoordinates 4 1} : RefSet) := by
  have hold : ∀ p, (p, .ofCoordinates 3 1) ∈ edgesOf twoPrecedents ↔
      p ∈ ({.ofCoordinates 1 1, .ofCoordinates 2 1} : RefSet) := by
    have hfourth : Ref.ofCoordinates 3 1 ≠ Ref.ofCoordinates 4 1 := by decide +kernel
    have hloop : ∀ p, Ref.ofCoordinates 1 1 = p ∨ Ref.ofCoordinates 2 1 = p →
        p ≠ .ofCoordinates 3 1 := by
      rintro _ (rfl | rfl) <;> decide +kernel
    simpa [edgesOf, twoPrecedents, Operation.rewire, hfourth] using hloop
  exact ⟨hold, (((answers_ofOperations twoPrecedents).2 _ _ _).2.2 hold).1⟩

end Graph

end Spreadsheet
