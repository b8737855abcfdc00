import Mathlib.Data.Set.Card
import Spreadsheet.Proofs.Graph.Edges

/-!
# Entries of a dependency graph

No entry of a graph is empty: adding an edge puts a dependent into its entry, and an entry goes with
its last edge. So the size of a graph is the number of precedents that something reads.
-/

namespace Spreadsheet.Graph

variable {g : Graph} {p d : Ref}

/-- Every entry has a dependent. -/
def Pruned (g : Graph) : Prop :=
  ∀ (p : Ref) (ds : RefSet), g.dependentsOf[p]? = some ds → ds ≠ ∅

theorem pruned_empty : empty.Pruned := by
  intro p ds hds
  simp [empty] at hds

theorem Pruned.insert (h : g.Pruned) {ds : RefSet} (hne : ds ≠ ∅) :
    Pruned ⟨g.dependentsOf.insert p ds⟩ := by
  intro q es hes
  rw [Std.ExtTreeMap.getElem?_insert] at hes
  split at hes
  · exact Option.some.inj hes ▸ hne
  · exact h q es hes

theorem Pruned.erase (h : g.Pruned) : Pruned ⟨g.dependentsOf.erase p⟩ := by
  intro q es hes
  rw [Std.ExtTreeMap.getElem?_erase] at hes
  split at hes
  · cases hes
  · exact h q es hes

theorem Pruned.link (h : g.Pruned) (p d : Ref) : (g.link p d).Pruned := by
  refine h.insert fun hempty => ?_
  have hmem : d ∈ (g.dependentsOf.getD p ∅).insert d := Std.ExtTreeSet.mem_insert_self
  rw [hempty] at hmem
  exact Std.ExtTreeSet.not_mem_empty hmem

theorem Pruned.unlink (h : g.Pruned) (p d : Ref) : (g.unlink p d).Pruned := by
  unfold Graph.unlink
  extract_lets left
  split
  · exact h.erase
  · rename_i hleft
    exact h.insert fun hempty => hleft (Std.ExtTreeSet.isEmpty_iff.mpr hempty)

theorem Pruned.relink (h : g.Pruned) (r : Ref) (old new : RefSet) :
    (g.relink r old new).graph.Pruned := by
  have hunlink : ∀ precedents : List Ref,
      (precedents.foldl (fun g precedent => g.unlink precedent r) g).Pruned := by
    intro precedents
    exact List.foldlRecOn precedents _ h fun _ h' q _ => h'.unlink q r
  exact List.foldlRecOn _ _ (hunlink _) fun _ h' q _ => h'.link q r

theorem Pruned.mem_keys_iff (h : g.Pruned) : p ∈ g.dependentsOf.keys ↔ ∃ d, g.Edge p d := by
  constructor
  · intro hp
    obtain ⟨ds, hds⟩ := Option.isSome_iff_exists.mp
      (Std.ExtTreeMap.isSome_getElem?_iff_mem.mpr (Std.ExtTreeMap.mem_keys.mp hp))
    obtain ⟨d, hd⟩ := List.exists_mem_of_ne_nil ds.toList fun hnil =>
      h p ds hds (Std.ExtTreeSet.toList_eq_nil_iff.mp hnil)
    refine ⟨d, ?_⟩
    rw [Edge, hasEdge, Std.ExtTreeMap.getD_eq_getD_getElem?, hds]
    exact Std.ExtTreeSet.contains_iff_mem.mpr (Std.ExtTreeSet.mem_toList.mp hd)
  · intro hedge
    obtain ⟨d, hd⟩ := hedge
    exact hd.mem_keys

theorem Pruned.encard_precedents (h : g.Pruned) : {p | ∃ d, g.Edge p d}.encard = g.size := by
  classical
  have hkeys : {p | ∃ d, g.Edge p d} = ↑g.dependentsOf.keys.toFinset := by
    ext p
    rw [Set.mem_ofPred_eq, ← h.mem_keys_iff, Finset.mem_coe, List.mem_toFinset]
  have hnodup : g.dependentsOf.keys.Nodup := by
    simpa [List.Nodup] using g.dependentsOf.distinct_keys
  rw [hkeys, Set.encard_coe_eq_coe_finsetCard, List.toFinset_card_of_nodup hnodup,
    Std.ExtTreeMap.length_keys, size]

end Spreadsheet.Graph
