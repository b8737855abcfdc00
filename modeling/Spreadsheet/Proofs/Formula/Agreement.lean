import Spreadsheet.Proofs.Cell
import Spreadsheet.Proofs.Formula.Lexer

/-!
# No valid formula is refused

The check and the cutting are two scanners of the same text. A text passes the check exactly if it
begins like a formula and its tokens are those of an expression. So a cell whose text passes the check
always has tokens to evaluate, and the check alone decides what the cell reads and whether its text
is an error.
-/

namespace Spreadsheet

open Formula

namespace Cell

variable {raw : String}

theorem isSome_tokens? (raw : String) : (tokens? raw).isSome = isValid raw := by
  rw [Bool.eq_iff_iff, Option.isSome_iff_exists, isValid_iff]
  constructor
  · intro h
    obtain ⟨tokens, htokens⟩ := h
    exact (tokens?_eq_some_iff.mp htokens).1
  · intro h
    obtain ⟨e, he⟩ := check_eq_ok_iff_derives.mp h
    exact ⟨e.tokens, tokens?_eq_some_iff.mpr ⟨h, he.tokenize_eq⟩⟩

theorem precedentsOf_eq (raw : String) :
    precedentsOf raw = if isValid raw then references raw else ∅ := by
  rw [precedentsOf, isSome_tokens?]

theorem errorOf_of_check (h : check raw = .ok ()) : errorOf raw = none := by
  have hsome : (tokens? raw).isSome = true := (isSome_tokens? raw).trans (isValid_iff.mpr h)
  rw [errorOf, Option.isNone_eq_false_iff.mpr hsome, Bool.and_false]
  rfl

end Cell

namespace Formula

/-- A text is a formula exactly if it begins like one and is cut into the tokens of an expression. A
cell with such a text is never refused for want of tokens. -/
theorem check_eq_ok_iff_tokens (formula : String) :
    (check formula = .ok () ↔ formula.toList.head? = some '=' ∧
      ∃ tokens, tokenize formula = .ok tokens ∧ ∃ e : Expr, e.tokens = tokens) ∧
    (check formula = .ok () → ∀ (c : Cell) (lookup : Lookup), c.raw = formula →
      (c.recompute lookup).error = none) := by
  refine ⟨⟨fun h => ?_, fun h => ?_⟩, fun h c lookup hraw => ?_⟩
  · obtain ⟨e, he⟩ := check_eq_ok_iff_derives.mp h
    have htokens := he.tokenize_eq
    obtain ⟨body, hbody, -⟩ := he
    exact ⟨by rw [hbody, List.head?_cons], e.tokens, htokens, e, rfl⟩
  · obtain ⟨hequals, tokens, htokens, e, rfl⟩ := h
    exact check_eq_ok_iff_derives.mpr ⟨e, Expr.derives_of_tokenize hequals htokens⟩
  · rw [Cell.recompute_eq, hraw]
    exact Cell.errorOf_of_check h

end Formula

end Spreadsheet
