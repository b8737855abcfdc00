import Spreadsheet.Proofs.Sheet.Cyclic
import Spreadsheet.Proofs.Sheet.WellFormed

/-!
# Evaluating without storing

A formula can be evaluated against a sheet without storing it. That goes another way than setting it:
the text is prepared by itself, an equals sign may be missing, and nothing is recalculated. Both see
the same numbers all the same. What is set is computed before it is stored, from the cells that an
evaluation reads, and its own recalculation computes it no second time, though it may mark it.
-/

namespace Spreadsheet

open Formula

/-- A formula with its equals sign, and without blanks at its ends. -/
def Formula.completed (text : String) : String :=
  let body := Text.trimmed text.toList
  String.ofList (if body.head? == some '=' then body else '=' :: body)

namespace Formula

variable {text : String}

theorem head?_completed (text : String) : (completed text).toList.head? = some '=' := by
  rw [completed, String.toList_ofList]
  split
  · rename_i hequals
    exact eq_of_beq hequals
  · rfl

theorem completed_eq_trim (h : (Text.trim text).toList.head? = some '=') :
    completed text = Text.trim text := by
  rw [Text.trim, String.toList_ofList] at h
  rw [completed, Text.trim, h]
  rfl

theorem check_completed_ne (text : String) : check (completed text) ≠ .error .missingEquals :=
  fun h => checkChars_eq_missingEquals_iff.mp h (head?_completed text)

end Formula

namespace Sheet

variable {s : Sheet} {g : Graph} {p : Progress} {r : Ref} {c : Cell} {text : String}

/-! ### What an evaluation gives -/

theorem evaluate_of_error {cause : CheckError} (h : check (completed text) = .error cause) :
    s.evaluate text = .error (.invalidFormula cause) := by
  rw [check, completed, String.toList_ofList] at h
  simp only [evaluate, h]
  rfl

theorem evaluate_of_tokens? {tokens : List Token} (h : Cell.tokens? (completed text) = some tokens) :
    s.evaluate text = .ok (Cell.valueOf (completed text) s.cells.lookup) := by
  obtain ⟨hcheck, htokens⟩ := Cell.tokens?_eq_some_iff.mp h
  rw [check, completed, String.toList_ofList] at hcheck
  rw [tokenize, completed, String.toList_ofList] at htokens
  rw [Cell.valueOf, h]
  simp only [evaluate, hcheck, htokens]
  rfl

/-- An evaluation refuses what the check refuses, and gives the value of any other text. -/
theorem evaluate_cases (s : Sheet) (text : String) :
    (∃ cause, check (completed text) = .error cause ∧
      s.evaluate text = .error (.invalidFormula cause)) ∨
    ((Cell.tokens? (completed text)).isSome ∧
      s.evaluate text = .ok (Cell.valueOf (completed text) s.cells.lookup)) := by
  cases htokens : Cell.tokens? (completed text) with
  | none =>
    obtain ⟨cause, hcause⟩ := Cell.tokens?_eq_none_iff.mp htokens
    exact Or.inl ⟨cause, hcause, evaluate_of_error hcause⟩
  | some tokens => exact Or.inr ⟨rfl, evaluate_of_tokens? htokens⟩

theorem evaluate_invalid_iff :
    (∃ cause, s.evaluate text = .error (.invalidFormula cause)) ↔
      ∃ cause, check (completed text) = .error cause := by
  rcases evaluate_cases s text with ⟨cause, hcheck, heval⟩ | ⟨hsome, heval⟩
  · exact iff_of_true ⟨cause, heval⟩ ⟨cause, hcheck⟩
  · refine iff_of_false ?_ ?_
    · rintro ⟨cause, h⟩
      cases heval.symm.trans h
    · rw [← Cell.tokens?_eq_none_iff]
      exact Option.isSome_iff_ne_none.mp hsome

/-! ### What setting a text stores -/

/-- What is set is computed with the numbers from before. -/
theorem exists_written (hstage : s.stageSet r text = .edited g p r) (hne : text ≠ "") :
    ∃ c, p.cells[r]? = some c ∧ c.raw = Text.trim text ∧
      (c.error = none → c.computed = Cell.valueOf (Text.trim text) s.cells.lookup) := by
  rcases stageSet_cases hstage with ⟨-, rfl⟩ | ⟨hempty, -⟩
  · obtain ⟨format, hwrite⟩ := exists_snd_write s r (Text.trim text)
    rw [hwrite, Progress.store, Std.ExtTreeMap.getElem?_insert_self, Cell.ofText, Cell.recompute_eq]
    refine ⟨_, rfl, Grid.raw_spread _ _, fun herror => ?_⟩
    rw [Grid.computed_of_spread herror]
  · exact absurd hempty hne

theorem exists_stored (h : s.Sound) (hdetect : s.config.cyclePolicy = .detect)
    (hstage : s.stageSet r text = .edited g p r) (hne : text ≠ "") :
    ∃ c, (s.set r text).sheet.cells[r]? = some c ∧ c.raw = Text.trim text ∧
      (c.error = none → c.computed = Cell.valueOf (Text.trim text) s.cells.lookup) := by
  obtain ⟨c, hc, hraw, hvalue⟩ := exists_written hstage hne
  have hedit := edited_of_stage (e := .set r text) h hstage
  have hcells : (s.set r text).sheet.cells = (p.propagate g r).1.cells := by
    rw [set_eq_publish hdetect hstage]
    rfl
  rw [hcells]
  rcases Progress.getElem?_propagate_origin hedit with hsame | hmarked
  · exact ⟨c, hsame.trans hc, hraw, hvalue⟩
  · rw [hc, Option.map_some] at hmarked
    exact ⟨c.mark .cyclic, hmarked, hraw, fun herror => nomatch herror⟩

/-! ### Both ways agree -/

/-- What became of a formula that was set, beside what evaluating it gave. -/
structure AgreesWith (c : Cell) (result : Except SheetError Float) : Prop where
  invalid_iff : c.error = some .invalidFormula ↔ ∃ cause, result = .error (.invalidFormula cause)
  value : c.error = none → result = .ok c.computed
  cyclic : c.error = some .cyclic → ∃ value, result = .ok value

theorem agreesWith_of_settled {cells : Grid} (h : cells.Settled c)
    (hraw : c.raw = completed text)
    (hvalue : c.error = none → c.computed = Cell.valueOf (completed text) s.cells.lookup) :
    AgreesWith c (s.evaluate text) := by
  have hexpr : c.isExpression = true := by
    rw [h.isExpression_eq, hraw, Cell.isExpressionText, head?_completed]
    rfl
  have hinvalid : c.error = some .invalidFormula ↔
      ∃ cause, s.evaluate text = .error (.invalidFormula cause) := by
    rw [h.invalidFormula_iff, and_iff_right hexpr, hraw, evaluate_invalid_iff]
  have hok : c.error ≠ some .invalidFormula →
      s.evaluate text = .ok (Cell.valueOf (completed text) s.cells.lookup) := by
    intro herror
    rcases evaluate_cases s text with ⟨cause, -, heval⟩ | ⟨-, heval⟩
    · exact absurd (hinvalid.mpr ⟨cause, heval⟩) herror
    · exact heval
  refine ⟨hinvalid, fun herror => ?_, fun herror => ?_⟩
  · rw [hvalue herror]
    exact hok (by simp [herror])
  · exact ⟨_, hok (by simp [herror])⟩

/-- On any sheet an evaluation gives a value or blames a position in the text. On a reachable sheet it
agrees with setting a formula, wherever that is not stored already. -/
theorem evaluate_agrees_with_set (s : Sheet) (text : String) :
    (∀ cause, s.evaluate text ≠ .error (.unreadable cause)) ∧
      s.evaluate text ≠ .error (.invalidFormula .missingEquals) ∧
      (s.Reachable → ∀ r, (Text.trim text).toList.head? = some '=' →
        (∀ c, s.cells[r]? = some c → c.raw ≠ text) →
        ∃ c, (s.set r text).sheet.cells[r]? = some c ∧ AgreesWith c (s.evaluate text)) := by
  refine ⟨fun cause heval => ?_, fun heval => ?_, fun h r hequals hnew => ?_⟩
  · rcases evaluate_cases s text with ⟨_, -, h'⟩ | ⟨-, h'⟩ <;> cases h'.symm.trans heval
  · rcases evaluate_cases s text with ⟨cause, hcheck, h'⟩ | ⟨-, h'⟩
    · obtain rfl : cause = .missingEquals := by
        injection h'.symm.trans heval with hcause
        injection hcause
      exact check_completed_ne text hcheck
    · cases h'.symm.trans heval
  · have hne : text ≠ "" := by
      rintro rfl
      cases hequals
    have hedits : ¬ s.HasText r text := by
      rintro (⟨c, hc, hraw⟩ | ⟨-, hempty⟩)
      · exact hnew c hc hraw
      · exact hne hempty
    obtain ⟨g, p, hstage⟩ := stageSet_of_not_hasText hedits
    obtain ⟨c, hc, hraw, hvalue⟩ := exists_stored h.sound h.detect hstage hne
    have hsettled := ((sound_call h.sound h.detect (.set r text)).consistent r c hc).1
    rw [← completed_eq_trim hequals] at hraw hvalue
    exact ⟨c, hc, agreesWith_of_settled hsettled hraw hvalue⟩

/-- Evaluated, a formula has a value although it closes a cycle where it is set; and it has the value
that is stored where it closes none. -/
theorem evaluate_agrees_with_set_of_spoiledCycle :
    (∃ c, (spoiledCycle.set firstCell " =B1*2").sheet.cells[firstCell]? = some c ∧
      c.error = some .cyclic ∧ ∃ value, spoiledCycle.evaluate " =B1*2" = .ok value) ∧
    ∃ c, (spoiledCycle.set firstCell "=B2+2 ").sheet.cells[firstCell]? = some c ∧
      c.error = none ∧ spoiledCycle.evaluate "=B2+2 " = .ok c.computed := by
  have hold : spoiledCycle.cells[firstCell]?.map (·.raw) = some "=B1+" := by decide +kernel
  have hnew : ∀ text, text ≠ "=B1+" → ∀ c, spoiledCycle.cells[firstCell]? = some c → c.raw ≠ text := by
    intro text hne c hc hraw
    rw [hc, Option.map_some, hraw] at hold
    exact hne (Option.some.inj hold)
  have hreachable : spoiledCycle.Reachable := (Reachable.start rfl).run _
  have hagrees := fun text => (evaluate_agrees_with_set spoiledCycle text).2.2 hreachable firstCell
  have herrors : (spoiledCycle.set firstCell " =B1*2").sheet.cells[firstCell]?.map (·.error) =
        some (some .cyclic) ∧
      (spoiledCycle.set firstCell "=B2+2 ").sheet.cells[firstCell]?.map (·.error) = some none := by
    decide +kernel
  constructor
  · obtain ⟨c, hc, hagree⟩ := hagrees " =B1*2" (by decide) (hnew _ (by decide))
    have herror := herrors.1
    rw [hc, Option.map_some] at herror
    exact ⟨c, hc, Option.some.inj herror, hagree.cyclic (Option.some.inj herror)⟩
  · obtain ⟨c, hc, hagree⟩ := hagrees "=B2+2 " (by decide) (hnew _ (by decide))
    have herror := herrors.2
    rw [hc, Option.map_some] at herror
    exact ⟨c, hc, Option.some.inj herror, hagree.value (Option.some.inj herror)⟩

end Sheet

end Spreadsheet
