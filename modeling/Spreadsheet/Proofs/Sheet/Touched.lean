import Spreadsheet.Proofs.Sheet.Recalc

/-!
# Touched references

A change list names every touched reference once, in the order in which each was touched first. What
a recalculation with cycle detection touches are the affected cells, the edited one apart if it lies
on no cycle.
-/

namespace Spreadsheet.Progress

open Relation

variable {p : Progress} {g : Graph} {origin r : Ref}

/-! ### Naming each reference once -/

/-- Takes note of a reference, unless it is seen already. -/
def note (r : Ref) (noted : RefSet × List Ref) : RefSet × List Ref :=
  if noted.1.contains r then noted else (noted.1.insert r, r :: noted.2)

theorem foldr_note (touched : List Ref) (r : Ref) :
    r ∈ (touched.foldr note (∅, [])).1 ↔ r ∈ (touched.foldr note (∅, [])).2 := by
  induction touched with
  | nil => simp
  | cons x rest ih =>
    rw [List.foldr_cons, note]
    split
    · exact ih
    · simp only [Std.ExtTreeSet.mem_insert, Std.compare_eq_iff_eq, List.mem_cons, ih]
      rw [eq_comm]

theorem mem_foldr_note (touched : List Ref) (r : Ref) :
    r ∈ (touched.foldr note (∅, [])).2 ↔ r ∈ touched := by
  induction touched with
  | nil => rfl
  | cons x rest ih =>
    rw [List.foldr_cons, note, List.mem_cons]
    split
    · rename_i hseen
      rw [Std.ExtTreeSet.contains_iff_mem, foldr_note] at hseen
      rw [ih]
      constructor
      · exact Or.inr
      · intro hmem
        rcases hmem with rfl | hr
        · exact ih.mp hseen
        · exact hr
    · rw [List.mem_cons, ih]

theorem nodup_foldr_note (touched : List Ref) : (touched.foldr note (∅, [])).2.Nodup := by
  induction touched with
  | nil => exact List.nodup_nil
  | cons x rest ih =>
    rw [List.foldr_cons, note]
    split
    · exact ih
    · rename_i hfresh
      rw [Std.ExtTreeSet.contains_iff_mem, foldr_note] at hfresh
      exact List.nodup_cons.mpr ⟨hfresh, ih⟩

theorem getLast?_foldr_note (touched : List Ref) :
    (touched.foldr note (∅, [])).2.getLast? = touched.getLast? := by
  induction touched with
  | nil => rfl
  | cons x rest ih =>
    cases hrest : rest with
    | nil => simp [note]
    | cons y ys =>
      rw [List.getLast?_cons_cons, ← hrest, ← ih, List.foldr_cons, note]
      split
      · rfl
      · have hne : (rest.foldr note (∅, [])).2 ≠ [] := by
          refine List.ne_nil_of_mem (a := y) ?_
          rw [mem_foldr_note, hrest]
          exact List.mem_cons_self
        obtain ⟨z, zs, hzs⟩ := List.exists_cons_of_ne_nil hne
        simp only [hzs, List.getLast?_cons_cons]

theorem touchedOnce_eq (p : Progress) :
    p.touchedOnce = (p.touched.foldr note (∅, [])).2.reverse := rfl

theorem mem_touchedOnce : r ∈ p.touchedOnce ↔ r ∈ p.touched := by
  rw [touchedOnce_eq, List.mem_reverse, mem_foldr_note]

theorem nodup_touchedOnce (p : Progress) : p.touchedOnce.Nodup := by
  rw [touchedOnce_eq, List.nodup_reverse]
  exact nodup_foldr_note p.touched

theorem head?_touchedOnce (p : Progress) : p.touchedOnce.head? = p.touched.getLast? := by
  rw [touchedOnce_eq, List.head?_reverse, getLast?_foldr_note]

theorem head?_touchedOnce_of_suffix (h : [origin] <:+ p.touched) :
    p.touchedOnce.head? = some origin := by
  obtain ⟨later, hlater⟩ := h
  rw [head?_touchedOnce, ← hlater, List.getLast?_concat]

/-! ### What a recalculation touches -/

theorem mem_recompute {x : Ref} : x ∈ (p.recompute r).cells ↔ x ∈ p.cells := by
  rw [Grid.mem_iff_contents, contents_recompute, ← Grid.mem_iff_contents]

theorem mem_markCyclic {x : Ref} : x ∈ (p.markCyclic r).cells ↔ x ∈ p.cells := by
  rw [Grid.mem_iff_contents, show p.markCyclic r = [r].foldl markCyclic p from rfl,
    contents_foldl_markCyclic, ← Grid.mem_iff_contents]

theorem touched_recompute_eq (p : Progress) (r : Ref) :
    (p.recompute r).touched = if r ∈ p.cells then r :: p.touched else p.touched := by
  cases hc : p.cells[r]? with
  | none =>
    have hr : r ∉ p.cells := by simp [Std.ExtTreeMap.mem_iff_isSome_getElem?, hc]
    rw [recompute_of_none hc, if_neg hr]
  | some c =>
    rw [touched_recompute hc, if_pos (Grid.mem_of_some hc)]

theorem touched_markCyclic_eq (p : Progress) (r : Ref) :
    (p.markCyclic r).touched = if r ∈ p.cells then r :: p.touched else p.touched := by
  unfold markCyclic
  cases hc : p.cells[r]? with
  | none => simp [Std.ExtTreeMap.mem_iff_isSome_getElem?, hc]
  | some c => simp [Std.ExtTreeMap.mem_iff_isSome_getElem?, hc, store]

theorem mem_touched_recompute {x : Ref} :
    x ∈ (p.recompute r).touched ↔ x ∈ p.touched ∨ (x = r ∧ x ∈ p.cells) := by
  rw [touched_recompute_eq]
  by_cases hx : x = r
  · subst hx
    by_cases hstored : x ∈ p.cells <;> simp [hstored]
  · split <;> simp [hx]

theorem mem_touched_markCyclic {x : Ref} :
    x ∈ (p.markCyclic r).touched ↔ x ∈ p.touched ∨ (x = r ∧ x ∈ p.cells) := by
  rw [touched_markCyclic_eq]
  by_cases hx : x = r
  · subst hx
    by_cases hstored : x ∈ p.cells <;> simp [hstored]
  · split <;> simp [hx]

theorem mem_retake {taken : List Ref} {x : Ref} : x ∈ (p.retake origin taken).cells ↔ x ∈ p.cells := by
  induction taken with
  | nil => rfl
  | cons y earlier ih =>
    rw [retake_cons]
    split
    · exact ih
    · exact mem_recompute.trans ih

theorem mem_touched_retake {taken : List Ref} {x : Ref} :
    x ∈ (p.retake origin taken).touched ↔
      x ∈ p.touched ∨ (x ∈ taken ∧ x ≠ origin ∧ x ∈ p.cells) := by
  induction taken with
  | nil => simp [retake_nil]
  | cons y earlier ih =>
    rw [retake_cons, List.mem_cons]
    by_cases hy : y = origin
    · rw [if_pos hy, ih, hy]
      grind
    · rw [if_neg hy, mem_touched_recompute, mem_retake, ih]
      by_cases hx : x = y
      · subst hx
        grind
      · grind

theorem mem_touched_foldl_markCyclic {rs : List Ref} {x : Ref} :
    x ∈ (rs.foldl markCyclic p).touched ↔ x ∈ p.touched ∨ (x ∈ rs ∧ x ∈ p.cells) := by
  induction rs generalizing p with
  | nil => simp
  | cons y rest ih =>
    rw [List.foldl_cons, ih, mem_markCyclic, mem_touched_markCyclic, List.mem_cons]
    grind

/-- What is touched by a recalculation: the affected cells, and of these the edited one only if it
is stuck. -/
theorem mem_touched_propagate {x : Ref} : x ∈ (p.propagate g origin).1.touched ↔
    x ∈ p.touched ∨ (x ∈ p.affected g origin ∧ (x ≠ origin ∨ x ∈ p.stuck g origin)) := by
  rw [fst_propagate, mem_touched_foldl_markCyclic, mem_touched_retake, mem_retake,
    List.mem_reverse]
  have horder : x ∈ g.order (p.affected g origin) → x ∈ p.affected g origin := fun hx =>
    ((Graph.mem_order_iff (nodup_affected p g origin)).mp hx).1
  have hstored : x ∈ p.affected g origin → x ∈ p.cells := fun hx => (mem_affected.mp hx).2
  have hstuck : x ∈ p.stuck g origin ↔
      x ∈ p.affected g origin ∧ x ∉ g.order (p.affected g origin) := mem_stuck
  grind

/-- After an edit the edited cell is touched and all that reads it, and nothing else. -/
theorem mem_touched_of_edited {old : Grid} {x : Ref} (hedit : Edited old p.cells g origin)
    (htouched : p.touched = [origin]) :
    x ∈ (p.propagate g origin).1.touched ↔ ReflTransGen g.Edge origin x := by
  rw [mem_touched_propagate, htouched, List.mem_singleton]
  constructor
  · intro hmem
    rcases hmem with rfl | ⟨haffected, -⟩
    · exact ReflTransGen.refl
    · exact (mem_affected.mp haffected).1
  · intro hwalk
    by_cases hx : x = origin
    · exact Or.inl hx
    · have hproper := (reflTransGen_iff_eq_or_transGen.mp hwalk).resolve_left hx
      have hstored := hedit.coherent.mem_of_walk hproper
      exact Or.inr ⟨mem_affected.mpr ⟨hwalk, hstored⟩, Or.inl hx⟩

theorem suffix_touched_recompute (p : Progress) (r : Ref) :
    p.touched <:+ (p.recompute r).touched := by
  rw [touched_recompute_eq]
  split
  · exact List.suffix_cons r p.touched
  · exact List.suffix_rfl

theorem suffix_touched_retake (p : Progress) (origin : Ref) (taken : List Ref) :
    p.touched <:+ (p.retake origin taken).touched := by
  induction taken with
  | nil => exact List.suffix_rfl
  | cons y earlier ih =>
    rw [retake_cons]
    split
    · exact ih
    · exact ih.trans (suffix_touched_recompute _ y)

theorem suffix_touched_foldl_markCyclic (p : Progress) (rs : List Ref) :
    p.touched <:+ (rs.foldl markCyclic p).touched := by
  induction rs generalizing p with
  | nil => exact List.suffix_rfl
  | cons y rest ih =>
    refine List.IsSuffix.trans ?_ (ih (p.markCyclic y))
    rw [touched_markCyclic_eq]
    split
    · exact List.suffix_cons y p.touched
    · exact List.suffix_rfl

/-- What was touched before a recalculation stays at the end of the list. -/
theorem suffix_touched_propagate (p : Progress) (g : Graph) (origin : Ref) :
    p.touched <:+ (p.propagate g origin).1.touched := by
  rw [fst_propagate]
  exact (suffix_touched_retake p origin _).trans (suffix_touched_foldl_markCyclic _ _)

end Spreadsheet.Progress
