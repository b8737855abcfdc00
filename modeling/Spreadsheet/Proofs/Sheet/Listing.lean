import Spreadsheet.Proofs.Sheet.Ledger

/-!
# The stored cells in order

A sheet lists its cells row by row, and by column within a row. References that were read from texts
are told apart by their column and their row, so a sheet that was edited through such references has
one place in this order for each of its cells. References of other kinds need not have that: a column
can have a label that is too long to be read, and all such columns count as the same one.
-/

namespace Spreadsheet

namespace Ref

/-- Some text is read as this reference. -/
def IsParsed (r : Ref) : Prop := ∃ text, parse? text = some r

/-- Row before column before text. -/
def readingOrder : Ref → Ref → Ordering :=
  compareLex (compareOn (·.sortKey.1)) (compareLex (compareOn (·.sortKey.2)) compare)

instance : Std.TransCmp readingOrder := inferInstanceAs (Std.TransCmp (compareLex _ _))

variable {a b c : Ref}

theorem readsBefore_eq (a b : Ref) : a.readsBefore b = (readingOrder a b).isLE := rfl

theorem readsBefore_trans (hab : a.readsBefore b) (hbc : b.readsBefore c) : a.readsBefore c := by
  rw [readsBefore_eq] at hab hbc ⊢
  exact Std.TransCmp.isLE_trans hab hbc

theorem readsBefore_total (a b : Ref) : (a.readsBefore b || b.readsBefore a) = true := by
  have hswap : readingOrder b a = (readingOrder a b).swap := Std.OrientedCmp.eq_swap
  rw [readsBefore_eq, readsBefore_eq, hswap]
  cases readingOrder a b <;> rfl

theorem sortKey_lt_of_readsBefore (h : a.readsBefore b) (hne : a.sortKey ≠ b.sortKey) :
    Prod.Lex (· < ·) (· < ·) a.sortKey b.sortKey := by
  rw [readsBefore_eq, readingOrder, compareLex, Ordering.isLE_then_iff_or, compareLex,
    Ordering.isLE_then_iff_or] at h
  simp only [compareOn, Nat.compare_eq_lt, Nat.compare_eq_eq] at h
  rcases h with hrow | ⟨hrow, hcolumn | ⟨hcolumn, -⟩⟩
  · exact Prod.Lex.left _ _ hrow
  · exact Prod.lex_iff.mpr (Or.inr ⟨hrow, hcolumn⟩)
  · exact absurd (Prod.ext hrow hcolumn) hne

end Ref

/-- The reference that a call edits was read from some text. -/
def Call.EditsParsed (e : Call) : Prop := ∀ r, e.target? = some r → r.IsParsed

namespace Grid

/-- The stored cells in the order in which they are listed. -/
def inOrder (cells : Grid) : List (Ref × Cell) :=
  cells.toList.mergeSort fun a b => a.1.readsBefore b.1

theorem perm_inOrder (cells : Grid) : cells.inOrder.Perm cells.toList := List.mergeSort_perm _ _

theorem mem_of_mem_inOrder {cells : Grid} {entry : Ref × Cell} (h : entry ∈ cells.inOrder) :
    entry.1 ∈ cells := by
  rw [cells.perm_inOrder.mem_iff, Std.ExtTreeMap.mem_toList_iff_getElem?_eq_some] at h
  exact mem_of_some h

theorem pairwise_inOrder (cells : Grid) :
    cells.inOrder.Pairwise fun a b => a.1.readsBefore b.1 ∧ a.1 ≠ b.1 := by
  refine List.Pairwise.and ?_ ?_
  · apply List.pairwise_mergeSort
    · exact fun _ _ _ => Ref.readsBefore_trans
    · exact fun a b => Ref.readsBefore_total a.1 b.1
  · rw [cells.perm_inOrder.pairwise_iff fun hab => hab.symm]
    refine cells.distinct_keys_toList.imp fun hab heq => hab ?_
    rw [heq]
    exact Std.ReflCmp.compare_self

end Grid

namespace Sheet

variable {s : Sheet} {r : Ref}

/-- The list of a sheet has each stored cell once, and the rows and columns increase along it. -/
structure ListsInOrder (s : Sheet) : Prop where
  perm : s.snapshots.Perm (s.cells.toList.map fun entry => s.snapshot entry.1 entry.2)
  increasing : s.snapshots.Pairwise fun a b =>
    Prod.Lex (· < ·) (· < ·) a.reference.sortKey b.reference.sortKey

theorem snapshots_eq (s : Sheet) :
    s.snapshots = s.cells.inOrder.map fun entry => s.snapshot entry.1 entry.2 := rfl

theorem listsInOrder_of_isParsed (h : ∀ r ∈ s.cells, r.IsParsed) : s.ListsInOrder := by
  refine ⟨s.snapshots_eq ▸ s.cells.perm_inOrder.map _, ?_⟩
  rw [snapshots_eq, List.pairwise_map]
  refine s.cells.pairwise_inOrder.imp_of_mem fun {a b} ha hb hab => ?_
  obtain ⟨text, htext⟩ := h a.1 (Grid.mem_of_mem_inOrder ha)
  obtain ⟨text', htext'⟩ := h b.1 (Grid.mem_of_mem_inOrder hb)
  exact Ref.sortKey_lt_of_readsBefore hab.1 (mt (Ref.eq_of_sortKey_eq htext htext') hab.2)

/-! ### What a run stores -/

theorem mem_or_target_of_call {e : Call} (h : r ∈ (s.call e).sheet.cells) :
    r ∈ s.cells ∨ e.target? = some r := by
  rw [Grid.mem_iff_contents, contents_call, ← Grid.mem_iff_contents] at h
  cases hstage : s.stage e with
  | idle result =>
    rw [hstage] at h
    exact Or.inl h
  | edited g p x =>
    rw [hstage] at h
    by_cases hx : r = x
    · exact Or.inr (hx ▸ target_of_stage hstage)
    · obtain ⟨c, hc⟩ := Grid.exists_of_mem h
      rw [stagedCells, getElem?_of_stage hstage hx] at hc
      exact Or.inl (Grid.mem_of_some hc)

theorem mem_or_target_of_run {calls : List Call} (h : r ∈ (s.run calls).cells) :
    r ∈ s.cells ∨ ∃ e ∈ calls, e.target? = some r := by
  induction calls generalizing s with
  | nil => exact Or.inl h
  | cons e rest ih =>
    rcases ih h with hmem | ⟨e', he', htarget⟩
    · exact (mem_or_target_of_call hmem).imp_right fun htarget => ⟨e, List.mem_cons_self, htarget⟩
    · exact Or.inr ⟨e', List.mem_cons_of_mem e he', htarget⟩

theorem listsInOrder_run {config : Config} {calls : List Call} (h : ∀ e ∈ calls, e.EditsParsed) :
    ((empty config).run calls).ListsInOrder := by
  refine listsInOrder_of_isParsed fun r hr => ?_
  rcases mem_or_target_of_run hr with hempty | ⟨e, he, htarget⟩
  · simp [empty] at hempty
  · exact h e he r htarget

end Sheet

namespace Ref

/-- A text is accepted exactly if it denotes a column and, unless it is a header, a row. The reference
it is read as stands for these numbers and for nothing else: it is read back from its own text, another
text gives the same reference exactly if it denotes the same numbers, and the reference made from the
numbers is the one that is read. So references that were read have different places in the order of
reading, and a sheet edited through them lists each cell once, in that order. -/
theorem parse?_faithful :
    (∀ text, (parse? text).isSome ↔ ∃ column row, Denotes text column row) ∧
    (∀ text r, parse? text = some r → parse? r.text = some r ∧
      ∀ column row, Denotes text column row ↔ r.column = some column ∧ r.row = row) ∧
    (∀ text text' r r', parse? text = some r → parse? text' = some r' →
      (r = r' ↔ ∃ column row, Denotes text column row ∧ Denotes text' column row) ∧
      (r.sortKey = r'.sortKey → r = r')) ∧
    (∀ column row, 1 ≤ column → column ≤ maxIndex → 1 ≤ row → row ≤ maxIndex →
      parse? (ofCoordinates column row).text = some (ofCoordinates column row) ∧
      (ofCoordinates column row).column = some column ∧ (ofCoordinates column row).row = some row ∧
      ofLabel? (Column.label column) row = some (ofCoordinates column row)) ∧
    ∀ (config : Config) (calls : List Call), (∀ e ∈ calls, e.EditsParsed) →
      ((Sheet.empty config).run calls).ListsInOrder := by
  refine ⟨fun text => ?_, fun text r h => ⟨parse?_text h, fun column row => denotes_iff h⟩,
    fun text text' r r' h h' => ⟨eq_iff_denotes h h', eq_of_sortKey_eq h h'⟩,
    fun column row hcolumn hcolumn' hrow hrow' => ?_, fun config calls => Sheet.listsInOrder_run⟩
  · simp only [Option.isSome_iff_exists, parse?_eq_some_iff]
    constructor
    · rintro ⟨_, column, row, hdenotes, -⟩
      exact ⟨column, row, hdenotes⟩
    · rintro ⟨column, row, hdenotes⟩
      exact ⟨_, column, row, hdenotes, rfl⟩
  · have hcolumn₀ : column ≠ 0 := Nat.ne_of_gt hcolumn
    have hdenotes : Denotes (ofCoordinates column row).text column (some row) :=
      denotes_text hcolumn₀ hcolumn' fun n hn => Option.some.inj hn ▸ ⟨hrow, hrow'⟩
    exact ⟨parse?_eq_some_iff.mpr ⟨column, some row, hdenotes, rfl⟩, hdenotes.column_ofNumbers,
      hdenotes.row_ofNumbers, ofLabel?_label hcolumn₀ (Nat.ne_of_gt hrow)⟩

/-- Two spellings of a cell, and the header of its column. -/
def spellings : List Call := [.setAt " a007 " "1", .setAt "A7" "2", .toggleAt "bold" "a"]

theorem parse?_faithful_of_spellings :
    parse? " a007 " = some (ofCoordinates 1 7) ∧ parse? "A7" = some (ofCoordinates 1 7) ∧
    Denotes " a007 " 1 (some 7) ∧ (∃ column row, Denotes " a007 " column row ∧ Denotes "A7" column row) ∧
    ofLabel? (Column.label 1) 7 = some (ofCoordinates 1 7) ∧
    ((Sheet.empty {}).run spellings).ListsInOrder := by
  have hspelled : parse? " a007 " = some (ofCoordinates 1 7) := by decide +kernel
  have hplain : parse? "A7" = some (ofCoordinates 1 7) := by decide +kernel
  obtain ⟨-, hreads, hpairs, hcoordinates, hlists⟩ := parse?_faithful
  obtain ⟨-, hcolumn, hrow, hlabel⟩ :=
    hcoordinates 1 7 (by decide) (by decide) (by decide) (by decide)
  refine ⟨hspelled, hplain, ((hreads _ _ hspelled).2 1 (some 7)).mpr ⟨hcolumn, hrow⟩,
    (hpairs _ _ _ _ hspelled hplain).1.mp rfl, hlabel, hlists {} spellings ?_⟩
  have hset : ∀ reference text, (Call.setAt reference text).EditsParsed := fun reference _ _ h =>
    ⟨reference, h⟩
  have htoggle : ∀ kind reference, (Call.toggleAt kind reference).EditsParsed := fun _ reference _ h =>
    ⟨reference, h⟩
  exact List.forall_mem_cons.mpr ⟨hset _ _, List.forall_mem_cons.mpr ⟨hset _ _,
    List.forall_mem_singleton.mpr (htoggle _ _)⟩⟩

end Ref

end Spreadsheet
