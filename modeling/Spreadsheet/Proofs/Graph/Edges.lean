import Mathlib.Tactic.ByContra
import Mathlib.Tactic.Tauto
import Spreadsheet.Graph.Basic

/-!
# Edges of a dependency graph

A graph is known through its edges. Every operation says what it does to them: `link` adds one,
`unlink` takes one away, and `relink` gives a dependent whose precedents were known new ones.
-/

namespace Spreadsheet.Graph

/-- The dependent reads the precedent. -/
def Edge (g : Graph) (precedent dependent : Ref) : Prop := g.hasEdge precedent dependent = true

theorem mem_dependents {g : Graph} {p d : Ref} : d ∈ g.dependents p ↔ g.Edge p d := by
  simp [dependents, Edge, hasEdge]

theorem nodup_dependents (g : Graph) (p : Ref) : (g.dependents p).Nodup := by
  simpa [List.Nodup, dependents] using (g.dependentsOf.getD p ∅).distinct_toList

theorem not_edge_empty (p d : Ref) : ¬ empty.Edge p d := by
  simp [Edge, hasEdge, empty]

/-- A precedent has an entry. -/
theorem Edge.mem_keys {g : Graph} {p d : Ref} (h : g.Edge p d) : p ∈ g.dependentsOf.keys := by
  rw [Std.ExtTreeMap.mem_keys]
  by_contra hp
  simp [Edge, hasEdge, Std.ExtTreeMap.getD_eq_fallback hp] at h

/-! ### Changing edges -/

theorem edge_link {g : Graph} {p d p' d' : Ref} :
    (g.link p d).Edge p' d' ↔ (p' = p ∧ d' = d) ∨ g.Edge p' d' := by
  simp only [Edge, hasEdge, link, Std.ExtTreeMap.getD_insert, Std.compare_eq_iff_eq]
  by_cases hp : p = p'
  · subst hp
    simp [Std.ExtTreeSet.contains_insert, @eq_comm Ref d]
  · simp [hp, Ne.symm hp]

theorem edge_unlink {g : Graph} {p d p' d' : Ref} :
    (g.unlink p d).Edge p' d' ↔ g.Edge p' d' ∧ ¬ (p' = p ∧ d' = d) := by
  have hleft : ((g.dependentsOf.getD p ∅).erase d).contains d' ↔ g.Edge p d' ∧ d' ≠ d := by
    simp [Edge, hasEdge, @eq_comm Ref d, and_comm]
  simp only [unlink]
  split
  · rename_i hempty
    rw [Std.ExtTreeSet.isEmpty_iff] at hempty
    rw [hempty] at hleft
    simp only [Edge, hasEdge, Std.ExtTreeMap.getD_erase, Std.compare_eq_iff_eq] at hleft ⊢
    by_cases hp : p = p'
    · subst hp
      simpa using hleft
    · simp [hp, Ne.symm hp]
  · simp only [Edge, hasEdge, Std.ExtTreeMap.getD_insert, Std.compare_eq_iff_eq] at hleft ⊢
    by_cases hp : p = p'
    · subst hp
      simpa using hleft
    · simp [hp, Ne.symm hp]

theorem edge_foldl_link {g : Graph} {r p d : Ref} {precedents : List Ref} :
    (precedents.foldl (fun g precedent => g.link precedent r) g).Edge p d ↔
      (d = r ∧ p ∈ precedents) ∨ g.Edge p d := by
  induction precedents generalizing g with
  | nil => simp
  | cons q rest ih =>
    rw [List.foldl_cons, ih, edge_link, List.mem_cons]
    tauto

theorem edge_foldl_unlink {g : Graph} {r p d : Ref} {precedents : List Ref} :
    (precedents.foldl (fun g precedent => g.unlink precedent r) g).Edge p d ↔
      g.Edge p d ∧ ¬ (d = r ∧ p ∈ precedents) := by
  induction precedents generalizing g with
  | nil => simp
  | cons q rest ih =>
    rw [List.foldl_cons, ih, edge_unlink, List.mem_cons]
    tauto

theorem mem_difference {a b : RefSet} {r : Ref} : r ∈ difference a b ↔ r ∈ a ∧ r ∉ b := by
  simp only [difference, List.mem_filter, Std.ExtTreeSet.mem_toList, Std.ExtTreeSet.mem_iff_contains,
    Bool.not_eq_eq_eq_not, Bool.not_true, Bool.not_eq_true]

theorem edge_relink {g : Graph} {r p d : Ref} {old new : RefSet} :
    (g.relink r old new).graph.Edge p d ↔
      (d = r ∧ p ∈ new ∧ p ∉ old) ∨ (g.Edge p d ∧ ¬ (d = r ∧ p ∈ old ∧ p ∉ new)) := by
  simp only [relink, edge_foldl_link, edge_foldl_unlink, mem_difference]

theorem relink_self (g : Graph) (r : Ref) (precedents : RefSet) :
    (g.relink r precedents precedents).graph = g := by
  have hnone : difference precedents precedents = [] := by
    rw [List.eq_nil_iff_forall_not_mem]
    intro q hq
    obtain ⟨hmem, hnot⟩ := mem_difference.mp hq
    exact hnot hmem
  rw [relink, hnone]
  rfl

/-- Moving a dependent from exactly its precedents gives it exactly the new ones and leaves the
others alone. -/
theorem edge_relink_of_exact {g : Graph} {r p d : Ref} {old new : RefSet}
    (hold : ∀ q, g.Edge q r ↔ q ∈ old) :
    (g.relink r old new).graph.Edge p d ↔ if d = r then p ∈ new else g.Edge p d := by
  rw [edge_relink]
  split
  · rename_i hd
    subst hd
    rw [hold p]
    tauto
  · tauto

end Spreadsheet.Graph
