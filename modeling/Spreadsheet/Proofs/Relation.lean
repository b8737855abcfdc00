import Mathlib.Data.Fintype.Order
import Mathlib.Data.Set.Finite.List
import Mathlib.Logic.Relation
import Mathlib.Order.WellFounded

/-!
# Walks and cycles

Which walks lead to a cycle. One that can always go on without leaving a finite set does, which is
used twice: cells that can never be taken have precedents of their kind, and so have the cells on
which two sheets with the same texts could differ.
-/

namespace Spreadsheet

open Relation

variable {α : Type} {r : α → α → Prop}

/-- A walk that can always go on inside a finite set comes to a cycle. -/
theorem exists_cycle_of_forall_exists {members : List α}
    (hnext : ∀ x ∈ members, ∃ y ∈ members, r x y) {x : α} (hx : x ∈ members) :
    ∃ y ∈ members, ReflTransGen r x y ∧ TransGen r y y := by
  by_contra hnone
  push Not at hnone
  let Ahead := {y // y ∈ members ∧ ReflTransGen r x y}
  let after (y z : Ahead) : Prop := TransGen r z.val y.val
  have hfinite : Finite Ahead := Set.Finite.subset (List.finite_toSet members) fun _ h => h.1
  have : IsTrans Ahead after := ⟨fun _ _ _ hab hbc => hbc.trans hab⟩
  have : Std.Irrefl after := ⟨fun y => hnone y.val y.property.1 y.property.2⟩
  -- Without a cycle the walk has a last element, which goes on all the same.
  obtain ⟨last, -, hlast⟩ := (Finite.wellFounded_of_trans_of_irrefl after).has_min Set.univ
    ⟨⟨x, hx, ReflTransGen.refl⟩, trivial⟩
  obtain ⟨y, hy, hstep⟩ := hnext last.val last.property.1
  exact hlast ⟨y, hy, last.property.2.tail hstep⟩ trivial (TransGen.single hstep)

/-- A walk of zero or more steps leads to a place from which a walk of one or more steps leads
back. -/
def LeadsToCycle (r : α → α → Prop) (x : α) : Prop := ∃ y, ReflTransGen r x y ∧ TransGen r y y

/-- There is no walk of one or more steps from a place to itself. -/
def Acyclic (r : α → α → Prop) : Prop := ∀ x, ¬ TransGen r x x

theorem Acyclic.not_leadsToCycle (h : Acyclic r) (x : α) : ¬ LeadsToCycle r x := by
  intro hleads
  obtain ⟨y, -, hcycle⟩ := hleads
  exact h y hcycle

theorem leadsToCycle_iff {x : α} : LeadsToCycle r x ↔ ∃ y, r x y ∧ LeadsToCycle r y := by
  constructor
  · intro hleads
    obtain ⟨z, hwalk, hcycle⟩ := hleads
    rcases ReflTransGen.cases_head hwalk with rfl | ⟨y, hstep, hwalk⟩
    · obtain ⟨y, hstep, hback⟩ := TransGen.head'_iff.mp hcycle
      exact ⟨y, hstep, x, hback, hcycle⟩
    · exact ⟨y, hstep, z, hwalk, hcycle⟩
  · intro hleads
    obtain ⟨y, hstep, z, hwalk, hcycle⟩ := hleads
    exact ⟨z, hwalk.head hstep, hcycle⟩

/-- Whether a walk leads to a cycle depends only on the steps from where it can come. -/
theorem leadsToCycle_congr {s : α → α → Prop} {x : α}
    (h : ∀ y, ReflTransGen r x y → ∀ z, r y z ↔ s y z) : LeadsToCycle r x ↔ LeadsToCycle s x := by
  have hto : ∀ y z, ReflTransGen r x y → ReflTransGen r y z → ReflTransGen s y z := by
    intro y z hy hwalk
    induction hwalk with
    | refl => exact ReflTransGen.refl
    | tail hyz hstep ih => exact ih.tail ((h _ (hy.trans hyz) _).mp hstep)
  have hfrom : ∀ y z, ReflTransGen r x y → ReflTransGen s y z → ReflTransGen r y z := by
    intro y z hy hwalk
    induction hwalk with
    | refl => exact ReflTransGen.refl
    | tail _ hstep ih => exact ih.tail ((h _ (hy.trans ih) _).mpr hstep)
  constructor
  · intro hleads
    obtain ⟨y, hwalk, hcycle⟩ := hleads
    obtain ⟨z, hstep, hback⟩ := TransGen.head'_iff.mp hcycle
    refine ⟨y, hto x y ReflTransGen.refl hwalk, TransGen.head'_iff.mpr ⟨z, ?_, ?_⟩⟩
    · exact (h y hwalk z).mp hstep
    · exact hto z y (hwalk.tail hstep) hback
  · intro hleads
    obtain ⟨y, hwalk, hcycle⟩ := hleads
    have hwalk' := hfrom x y ReflTransGen.refl hwalk
    obtain ⟨z, hstep, hback⟩ := TransGen.head'_iff.mp hcycle
    have hstep' := (h y hwalk' z).mpr hstep
    exact ⟨y, hwalk', TransGen.head'_iff.mpr ⟨z, hstep', hfrom z y (hwalk'.tail hstep') hback⟩⟩

end Spreadsheet
