import Mathlib.Tactic.ByContra
import Mathlib.Tactic.Push
import Spreadsheet.Proofs.Grid.Settled

/-!
# Consistent grids

A grid is consistent when all its cells are settled and the marks of cycles are on the cells that
lead to a cycle and on no other. Marks alone could hold each other up: two cells that read each
other would stay settled, marked or not, so what the marks say is asked for apart.

Without bare labels there is only one consistent grid for given texts and formats.
-/

namespace Spreadsheet

/-- What follows from the text of a cell alone fits the text. -/
structure Cell.FitsText (c : Cell) : Prop where
  isExpression_eq : c.isExpression = isExpressionText c.raw
  dependencies_eq : c.dependencies = precedentsOf c.raw

namespace Grid

open Relation

variable {cells cells' : Grid} {c : Cell} {r d : Ref}

theorem Settled.fitsText (h : cells.Settled c) : c.FitsText := ⟨h.isExpression_eq, h.dependencies_eq⟩

/-- What was entered: the text and the format of each stored cell. -/
def contents (cells : Grid) (r : Ref) : Option (String × Format) :=
  cells[r]?.map fun c => (c.raw, c.format)

theorem mem_iff_contents : r ∈ cells ↔ (cells.contents r).isSome := by
  rw [contents, Option.isSome_map, Std.ExtTreeMap.mem_iff_isSome_getElem?]

/-- Every stored cell fits its text. -/
def FitsTexts (cells : Grid) : Prop := ∀ (r : Ref) (c : Cell), cells[r]? = some c → c.FitsText

/-- What a cell reads follows from what was entered. -/
theorem reads_iff_contents (h : cells.FitsTexts) :
    cells.Reads r d ↔ ∃ content, cells.contents r = some content ∧ d ∈ Cell.precedentsOf content.1 := by
  simp only [Reads, contents, Option.map_eq_some_iff]
  constructor
  · intro hreads
    obtain ⟨c, hc, hd⟩ := hreads
    exact ⟨_, ⟨c, hc, rfl⟩, (h r c hc).dependencies_eq ▸ hd⟩
  · rintro ⟨_, ⟨c, hc, rfl⟩, hd⟩
    exact ⟨c, hc, (h r c hc).dependencies_eq ▸ hd⟩

theorem reads_eq_of_contents (h : cells.FitsTexts) (h' : cells'.FitsTexts)
    (hcontents : cells.contents = cells'.contents) : cells.Reads = cells'.Reads := by
  funext r d
  rw [eq_iff_iff, reads_iff_contents h, reads_iff_contents h', hcontents]

theorem exists_of_contents_eq (h : cells.contents r = cells'.contents r) (hc : cells[r]? = some c) :
    ∃ c', cells'[r]? = some c' ∧ c.raw = c'.raw ∧ c.format = c'.format := by
  rw [contents, contents, hc, Option.map_some, eq_comm, Option.map_eq_some_iff] at h
  obtain ⟨c', hc', heq⟩ := h
  rw [Prod.mk.injEq] at heq
  exact ⟨c', hc', heq.1.symm, heq.2.symm⟩

/-! ### Right marks -/

/-- A reference holds no cell, or one that is settled and marked exactly if it leads to a cycle. -/
def Right (cells : Grid) (r : Ref) : Prop := ∀ c, cells[r]? = some c →
  cells.Settled c ∧ (c.error = some .cyclic ↔ LeadsToCycle cells.Reads r)

/-- All cells are settled, and exactly those that lead to a cycle are marked. -/
def Consistent (cells : Grid) : Prop := ∀ r, cells.Right r

theorem Right.marked_iff (h : cells.Right r) : cells.Marked r ↔ LeadsToCycle cells.Reads r := by
  constructor
  · intro hmarked
    obtain ⟨c, hc, herror⟩ := hmarked
    exact (h c hc).2.mp herror
  · intro hcycle
    obtain ⟨_, ⟨c, hc, -⟩, -⟩ := leadsToCycle_iff.mp hcycle
    exact ⟨c, hc, (h c hc).2.mpr hcycle⟩

/-- A settled cell is right if what it reads is. -/
theorem right_of_settled (hc : cells[r]? = some c) (hsettled : cells.Settled c)
    (hreads : ∀ d ∈ c.dependencies, cells.Right d) : cells.Right r := by
  intro c₂ hc₂
  obtain rfl : c = c₂ := Option.some.inj (hc.symm.trans hc₂)
  refine ⟨hsettled, ?_⟩
  rw [hsettled.error_eq_cyclic_iff, leadsToCycle_iff]
  constructor
  · intro hread
    obtain ⟨d, hd, hmarked⟩ := hread
    exact ⟨d, ⟨c, hc, hd⟩, (hreads d hd).marked_iff.mp hmarked⟩
  · intro hleads
    obtain ⟨d, ⟨c₃, hc₃, hd⟩, hcycle⟩ := hleads
    obtain rfl : c = c₃ := Option.some.inj (hc.symm.trans hc₃)
    exact ⟨d, hd, (hreads d hd).marked_iff.mpr hcycle⟩

theorem Consistent.settledAt (h : cells.Consistent) (r : Ref) : cells.SettledAt r :=
  fun c hc => (h r c hc).1

theorem Consistent.fitsTexts (h : cells.Consistent) : cells.FitsTexts :=
  fun r c hc => (h r c hc).1.fitsText

theorem consistent_empty : Consistent ∅ := by
  intro r c hc
  simp at hc

/-- A property of stored cells that each of them gets from a cell that it reads comes from a cycle in
the end. -/
theorem leadsToCycle_of_forall_exists {P : Ref → Prop}
    (hnext : ∀ r, P r → ∃ d, cells.Reads r d ∧ P d) (hr : P r) : LeadsToCycle cells.Reads r := by
  classical
  let members := cells.keys.filter fun q => decide (P q)
  have hmem : ∀ q, P q → q ∈ members := by
    intro q hq
    obtain ⟨d, hreads, -⟩ := hnext q hq
    rw [List.mem_filter, Std.ExtTreeMap.mem_keys, decide_eq_true_eq]
    exact ⟨hreads.mem, hq⟩
  have hnext' : ∀ q ∈ members, ∃ d ∈ members, cells.Reads q d := by
    intro q hq
    rw [List.mem_filter, decide_eq_true_eq] at hq
    obtain ⟨d, hreads, hd⟩ := hnext q hq.2
    exact ⟨d, hmem d hd, hreads⟩
  obtain ⟨y, -, hwalk, hcycle⟩ := exists_cycle_of_forall_exists hnext' (hmem r hr)
  exact ⟨y, hwalk, hcycle⟩

/-- Marks hold each other up on a cycle only: without one, settled cells have none. -/
theorem consistent_of_acyclic (hacyclic : Acyclic cells.Reads) (h : ∀ r, cells.SettledAt r) :
    cells.Consistent := by
  have hnext : ∀ r, cells.Marked r → ∃ d, cells.Reads r d ∧ cells.Marked d := by
    intro r hr
    obtain ⟨c, hc, herror⟩ := hr
    obtain ⟨d, hd, hmarked⟩ := (h r c hc).error_eq_cyclic_iff.mp herror
    exact ⟨d, ⟨c, hc, hd⟩, hmarked⟩
  intro r c hc
  refine ⟨h r c hc, iff_of_false (fun herror => ?_) (hacyclic.not_leadsToCycle r)⟩
  exact hacyclic.not_leadsToCycle r (leadsToCycle_of_forall_exists hnext ⟨c, hc, herror⟩)

/-! ### Uniqueness -/

theorem exists_pair_of_ne (hcontents : cells.contents = cells'.contents)
    (hne : cells[r]? ≠ cells'[r]?) : ∃ c c', cells[r]? = some c ∧ cells'[r]? = some c' ∧
      c.raw = c'.raw ∧ c.format = c'.format ∧ c ≠ c' := by
  cases hc : cells[r]? with
  | none =>
    have hcontent := congrFun hcontents r
    rw [contents, contents, hc, Option.map_none, eq_comm, Option.map_eq_none_iff] at hcontent
    exact absurd (hc.trans hcontent.symm) hne
  | some c =>
    obtain ⟨c', hc', hraw, hformat⟩ := exists_of_contents_eq (congrFun hcontents r) hc
    refine ⟨c, c', rfl, hc', hraw, hformat, fun heq => hne ?_⟩
    rw [hc, hc', heq]

/-- Without bare labels, what was entered determines all the rest: a cell on which two grids differ
would read another one of that kind, and so lead to a cycle, but then both grids mark it. -/
theorem Consistent.eq_of_contents (h : cells.Consistent) (h' : cells'.Consistent)
    (hcontents : cells.contents = cells'.contents)
    (hlabels : ∀ (r : Ref) (c : Cell), cells[r]? = some c → ¬ HasBareLabel c.raw) : cells = cells' := by
  have hnext : ∀ r, cells[r]? ≠ cells'[r]? → ∃ d, cells.Reads r d ∧ cells[d]? ≠ cells'[d]? := by
    intro r hne
    obtain ⟨c, c', hc, hc', hraw, hformat, hdiffer⟩ := exists_pair_of_ne hcontents hne
    by_contra hnone
    push Not at hnone
    refine hdiffer ((h r c hc).1.eq_of_same (h' r c' hc').1 hraw hformat (hlabels r c hc) ?_)
    exact fun d hd => hnone d ⟨c, hc, hd⟩
  apply Std.ExtTreeMap.ext_getElem?
  intro r
  by_contra hne
  have hcycle := leadsToCycle_of_forall_exists hnext hne
  obtain ⟨c, c', hc, hc', hraw, hformat, hdiffer⟩ := exists_pair_of_ne hcontents hne
  have hreads := reads_eq_of_contents h.fitsTexts h'.fitsTexts hcontents
  refine hdiffer ((h r c hc).1.eq_of_cyclic (h' r c' hc').1 hraw hformat ?_ ?_)
  · exact (h r c hc).2.mpr hcycle
  · exact (h' r c' hc').2.mpr (hreads ▸ hcycle)

end Grid

end Spreadsheet
