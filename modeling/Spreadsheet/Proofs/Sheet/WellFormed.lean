import Spreadsheet.Proofs.Formula.Agreement
import Spreadsheet.Proofs.Sheet.Ledger
import Spreadsheet.Proofs.Sheet.Reachable

/-!
# Well-formed cells

What can be said of a single stored cell without looking at any other: its text has no blanks at its
ends and decides whether it is an expression, literals are no errors and have the value of their text,
and whatever is an error is an expression of value zero. A mark of a cycle is set without a look at
the cell that gets it. It spares literals and invalid formulas because these read nothing, and only
what reads a marked cell is marked.
-/

namespace Spreadsheet

open Formula

/-- A cell that could be stored, on some sheet. -/
structure Cell.WellFormed (c : Cell) : Prop where
  isTrimmed : Text.IsTrimmed c.raw.toList
  isExpression_iff : c.isExpression = true ↔ c.raw.toList.head? = some '='
  literal : c.isExpression = false →
    c.error = none ∧ c.dependencies = ∅ ∧ c.computed = Literal.value c.raw
  invalid_iff : c.isExpression = true →
    (c.error = some .invalidFormula ↔ ∃ cause, check c.raw = .error cause)
  invalid : c.error = some .invalidFormula → c.computed = 0.0 ∧ c.dependencies = ∅
  error : c.error ≠ none → c.isExpression = true ∧ c.computed = 0.0

/-! ### What follows from a text -/

namespace Cell

variable {raw : String}

theorem tokens?_eq_none_iff : tokens? raw = none ↔ ∃ cause, check raw = .error cause := by
  rw [← Option.not_isSome_iff_eq_none, isSome_tokens?, isValid]
  cases check raw with
  | error cause => exact iff_of_true Bool.false_ne_true ⟨cause, rfl⟩
  | ok _ =>
    refine iff_of_false (fun h => h rfl) ?_
    rintro ⟨cause, h⟩
    cases h

theorem tokens?_of_not_isExpressionText (h : isExpressionText raw = false) : tokens? raw = none := by
  rw [Option.eq_none_iff_forall_ne_some]
  intro tokens htokens
  exact Bool.false_ne_true (h.symm.trans (isExpressionText_of_tokens? htokens))

theorem precedentsOf_of_none (h : tokens? raw = none) : precedentsOf raw = ∅ := by
  rw [precedentsOf, h]
  rfl

theorem errorOf_eq_invalidFormula_iff :
    errorOf raw = some .invalidFormula ↔ isExpressionText raw = true ∧ tokens? raw = none := by
  rw [errorOf, ← Option.isNone_iff_eq_none, ← Bool.and_eq_true]
  split <;> simp_all

/-- What reads anything is a formula. -/
theorem isExpressionText_of_mem_precedentsOf {r : Ref} (h : r ∈ precedentsOf raw) :
    isExpressionText raw = true := by
  by_contra hnot
  rw [precedentsOf_of_none (tokens?_of_not_isExpressionText (Bool.eq_false_iff.mpr hnot))] at h
  exact Std.ExtTreeSet.not_mem_empty h

end Cell

/-! ### Settled cells -/

namespace Grid

variable {cells : Grid} {c : Cell}

/-- A settled cell without a mark has the value of its text for some numbers. -/
theorem Settled.exists_computed_eq (h : cells.Settled c) (herror : c.error ≠ some .cyclic) :
    ∃ lookup, c.computed = Cell.valueOf c.raw lookup := by
  have hmarked := mt h.error_eq_cyclic_iff.mpr herror
  rw [h.dependencies_eq] at hmarked
  obtain ⟨lookup, -, hc⟩ := h
  rw [spread_recompute_of_not_marked hmarked, Cell.recompute_eq] at hc
  exact ⟨lookup, congrArg Cell.computed hc⟩

theorem Settled.isExpression_of_cyclic (h : cells.Settled c) (herror : c.error = some .cyclic) :
    c.isExpression = true := by
  obtain ⟨r, hr, -⟩ := h.error_eq_cyclic_iff.mp herror
  rw [h.dependencies_eq] at hr
  rw [h.isExpression_eq, Cell.isExpressionText_of_mem_precedentsOf hr]

theorem Settled.invalidFormula_iff (h : cells.Settled c) : c.error = some .invalidFormula ↔
    c.isExpression = true ∧ ∃ cause, check c.raw = .error cause := by
  rw [h.isExpression_eq, ← Cell.tokens?_eq_none_iff, ← Cell.errorOf_eq_invalidFormula_iff]
  by_cases hcyclic : c.error = some .cyclic
  · -- A marked cell reads something, so that its text is no error.
    obtain ⟨r, hr, -⟩ := h.error_eq_cyclic_iff.mp hcyclic
    rw [h.dependencies_eq] at hr
    rw [hcyclic, Cell.errorOf_of_mem_precedentsOf hr]
    simp
  · rw [h.error_eq_errorOf hcyclic]

theorem Settled.wellFormed (h : cells.Settled c) (htrimmed : Text.IsTrimmed c.raw.toList) :
    c.WellFormed := by
  have hinvalid : c.error = some .invalidFormula → c.computed = 0.0 ∧ c.dependencies = ∅ := by
    intro herror
    obtain ⟨lookup, hvalue⟩ := h.exists_computed_eq (by simp [herror])
    obtain ⟨hexpr, hcheck⟩ := h.invalidFormula_iff.mp herror
    rw [h.isExpression_eq] at hexpr
    have hnone := Cell.tokens?_eq_none_iff.mpr hcheck
    refine ⟨?_, h.dependencies_eq.trans (Cell.precedentsOf_of_none hnone)⟩
    rw [hvalue, Cell.valueOf, hnone, if_pos hexpr]
  refine ⟨htrimmed, ?_, fun hliteral => ?_, fun hexpr => ?_, hinvalid, fun herror => ?_⟩
  · rw [h.isExpression_eq, Cell.isExpressionText, beq_iff_eq]
  · have hcyclic : c.error ≠ some .cyclic := by
      intro hcyclic
      exact Bool.false_ne_true (hliteral.symm.trans (h.isExpression_of_cyclic hcyclic))
    obtain ⟨lookup, hvalue⟩ := h.exists_computed_eq hcyclic
    rw [h.isExpression_eq] at hliteral
    have hnone := Cell.tokens?_of_not_isExpressionText hliteral
    refine ⟨?_, h.dependencies_eq.trans (Cell.precedentsOf_of_none hnone), ?_⟩
    · rw [h.error_eq_errorOf hcyclic, Cell.errorOf, hliteral]
      rfl
    · rw [hvalue, Cell.valueOf, hnone, hliteral]
      rfl
  · rw [h.invalidFormula_iff, and_iff_right hexpr]
  · obtain ⟨e, he⟩ := Option.ne_none_iff_exists'.mp herror
    cases e with
    | invalidFormula => exact ⟨(h.invalidFormula_iff.mp he).1, (hinvalid he).1⟩
    | cyclic => exact ⟨h.isExpression_of_cyclic he, h.computed_of_cyclic he⟩

/-! ### Trimmed texts -/

/-- All stored texts are without blanks at their ends. -/
def Trimmed (cells : Grid) : Prop :=
  ∀ (r : Ref) (c : Cell), cells[r]? = some c → Text.IsTrimmed c.raw.toList

theorem Trimmed.of_contents {cells' : Grid} (h : cells.Trimmed)
    (hcontents : cells'.contents = cells.contents) : cells'.Trimmed := by
  intro r c hc
  obtain ⟨c', hc', hraw, -⟩ := exists_of_contents_eq (congrFun hcontents r) hc
  rw [hraw]
  exact h r c' hc'

end Grid

namespace Sheet

variable {s : Sheet} {e : Call} {r : Ref} {c : Cell}

theorem isTrimmed_of_written {raw : String} (h : e.written? = some raw) :
    Text.IsTrimmed raw.toList := by
  have htrim : ∀ text, Text.IsTrimmed (Text.trim text).toList := by
    intro text
    rw [Text.trim, String.toList_ofList]
    exact Text.isTrimmed_trimmed _
  cases e with
  | set r text => exact Option.some.inj h ▸ htrim text
  | setAt reference text => exact Option.some.inj h ▸ htrim text
  | toggleAt kind reference => cases h

theorem trimmed_stagedCells (h : s.cells.Trimmed) (e : Call) :
    (s.stagedCells (s.stage e)).Trimmed := by
  cases hstage : s.stage e with
  | idle result => exact h
  | edited g p r =>
    intro x c hc
    rcases raw_of_stage hstage hc with ⟨c', hc', hraw⟩ | hraw | hwritten
    · rw [hraw]
      exact h x c' hc'
    · rw [hraw]
      simp [Text.IsTrimmed]
    · exact isTrimmed_of_written hwritten

theorem trimmed_call (h : s.cells.Trimmed) (e : Call) : (s.call e).sheet.cells.Trimmed :=
  (trimmed_stagedCells h e).of_contents (contents_call s e)

theorem Reachable.trimmed (h : s.Reachable) : s.cells.Trimmed := by
  induction h with
  | start _ =>
    intro r c hc
    simp [empty] at hc
  | call _ e ih => exact trimmed_call ih e
  | observe _ _ ih => exact ih
  | unobserve _ ih => exact ih

/-- Every stored cell is well formed, whatever calls led to it. -/
theorem wellFormed_of_reachable (h : s.Reachable) (hc : s.cells[r]? = some c) : c.WellFormed :=
  (h.sound.consistent r c hc).1.wellFormed (h.trimmed r c hc)

/-- A cell that was marked with its cycle gets a text that is no formula, with blanks around it. -/
def spoiledCycle : Sheet :=
  (empty {}).run [.setAt "A1" "=B1", .setAt "B1" "=A1", .setAt "A1" "  =B1+ "]

theorem wellFormed_of_spoiledCycle : ∃ c, spoiledCycle.cells[firstCell]? = some c ∧
    c.raw = "=B1+" ∧ c.error = some .invalidFormula ∧ c.WellFormed := by
  have hcell : spoiledCycle.cells[firstCell]?.map (fun c => (c.raw, c.error)) =
      some ("=B1+", some .invalidFormula) := by
    decide +kernel
  obtain ⟨c, hc, heq⟩ := Option.map_eq_some_iff.mp hcell
  obtain ⟨hraw, herror⟩ := Prod.mk.inj heq
  exact ⟨c, hc, hraw, herror, wellFormed_of_reachable ((Reachable.start rfl).run _) hc⟩

end Sheet

end Spreadsheet
