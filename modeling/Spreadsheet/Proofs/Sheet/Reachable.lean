import Spreadsheet.Proofs.Sheet.Sound

/-!
# Reachable sheets

What holds after any calls on an empty sheet that detects cycles. The values are those of a complete
recalculation, the marks are on the cells that lead to a cycle and on no other, and what was entered
determines all the rest.
-/

namespace Spreadsheet

open Relation Formula

namespace Grid

/-- The references, texts and formats of the stored cells, in order. -/
def entries (cells : Grid) : List (Ref × String × Format) :=
  cells.toList.map fun entry => (entry.1, entry.2.raw, entry.2.format)

theorem mem_entries {cells : Grid} {r : Ref} {raw : String} {format : Format} :
    (r, raw, format) ∈ cells.entries ↔ cells.contents r = some (raw, format) := by
  simp only [entries, List.mem_map, Prod.exists, Prod.mk.injEq, contents, Option.map_eq_some_iff,
    Std.ExtTreeMap.mem_toList_iff_getElem?_eq_some]
  constructor
  · intro hmem
    obtain ⟨x, c, hc, hx, hraw, hformat⟩ := hmem
    exact ⟨c, hx ▸ hc, hraw, hformat⟩
  · intro hcontent
    obtain ⟨c, hc, hraw, hformat⟩ := hcontent
    exact ⟨r, c, hc, rfl, hraw, hformat⟩

theorem contents_eq_of_entries {cells cells' : Grid} (h : cells.entries = cells'.entries) :
    cells.contents = cells'.contents := by
  funext r
  ext ⟨raw, format⟩
  rw [← mem_entries, ← mem_entries, h]

end Grid

namespace Sheet

variable {config config' : Config} {calls calls' : List Call} {r : Ref} {c : Cell}

theorem sound_of_calls (hdetect : config.cyclePolicy = .detect) (calls : List Call) :
    ((empty config).run calls).Sound :=
  sound_run (sound_empty config) hdetect calls

/-- Recalculation is complete: every stored formula without an error has the value that evaluating it
against the stored cells gives. A bare label is read, but nothing depends on it, and so a formula
with one may hold an old value. -/
theorem computed_eq_evaluate (hdetect : config.cyclePolicy = .detect)
    (hc : ((empty config).run calls).cells[r]? = some c) (hcheck : check c.raw = .ok ())
    (herror : c.error = none) (hlabel : ¬ HasBareLabel c.raw) :
    ∃ tokens, tokenize c.raw = .ok tokens ∧
      c.computed = Formula.evaluate (resolve ((empty config).run calls).cells.lookup tokens) := by
  have hsettled := ((sound_of_calls hdetect calls).consistent r c hc).1
  have hvalue := hsettled.computed_eq herror hlabel
  cases htokens : Cell.tokens? c.raw with
  | none =>
    have hown := hsettled.error_eq_errorOf (by simp [herror])
    rw [herror, Cell.errorOf, Cell.isExpressionText_of_check hcheck, htokens] at hown
    cases hown
  | some tokens =>
    refine ⟨tokens, (Cell.tokens?_eq_some_iff.mp htokens).2, ?_⟩
    rw [hvalue, Cell.valueOf, htokens]

/-- The first cell of a sheet. -/
def firstCell : Ref :=
  ⟨"A1", ['A'], some 1, List.forall_mem_singleton.mpr (by decide), by decide +kernel⟩

/-- A cycle of two cells that is closed and broken again. -/
def brokenCycle : List Call := [.setAt "A1" "=B1+1", .setAt "B1" "=A1", .setAt "B1" "4"]

theorem computed_eq_evaluate_of_brokenCycle : ∃ c,
    ((empty {}).run brokenCycle).cells[firstCell]? = some c ∧ c.raw = "=B1+1" ∧
      ∃ tokens, tokenize c.raw = .ok tokens ∧
        c.computed = Formula.evaluate (resolve ((empty {}).run brokenCycle).cells.lookup tokens) := by
  have hcell : ((empty {}).run brokenCycle).cells[firstCell]?.map (fun c => (c.raw, c.error)) =
      some ("=B1+1", none) := by
    decide +kernel
  obtain ⟨c, hc, heq⟩ := Option.map_eq_some_iff.mp hcell
  obtain ⟨hraw, herror⟩ := Prod.mk.inj heq
  refine ⟨c, hc, hraw, computed_eq_evaluate rfl hc ?_ herror ?_⟩
  · rw [hraw]
    decide +kernel
  · rw [hraw]
    decide +kernel

/-- Marks are exact: a cell is marked exactly if it leads to a cycle of stored cells, and then its
value is zero. -/
theorem error_eq_cyclic_iff_leadsToCycle (hdetect : config.cyclePolicy = .detect)
    (hc : ((empty config).run calls).cells[r]? = some c) :
    (c.error = some .cyclic ↔ LeadsToCycle ((empty config).run calls).cells.Reads r) ∧
      (c.error = some .cyclic → c.computed = 0.0) := by
  obtain ⟨hsettled, hmark⟩ := (sound_of_calls hdetect calls).consistent r c hc
  exact ⟨hmark, hsettled.computed_of_cyclic⟩

/-- A cycle of two cells with its second cell entered last, read from outside by a third one. -/
def readCycle : List Call := [.setAt "A1" "=C1", .setAt "C1" "=B1", .setAt "B1" "=C1"]

theorem error_eq_cyclic_of_readCycle : ∃ c,
    ((empty {}).run readCycle).cells[firstCell]? = some c ∧ c.error = some .cyclic ∧
      LeadsToCycle ((empty {}).run readCycle).cells.Reads firstCell ∧ c.computed = 0.0 := by
  have hcell : ((empty {}).run readCycle).cells[firstCell]?.map (·.error) = some (some .cyclic) := by
    decide +kernel
  obtain ⟨c, hc, herror⟩ := Option.map_eq_some_iff.mp hcell
  obtain ⟨hmark, hvalue⟩ := error_eq_cyclic_iff_leadsToCycle rfl hc
  exact ⟨c, hc, herror, hmark.mp herror, hvalue herror⟩

/-- The history does not matter: sheets in which the same was entered have equal cells and the same
edges, whatever calls they come from. -/
theorem cells_eq_of_contents (hdetect : config.cyclePolicy = .detect)
    (hdetect' : config'.cyclePolicy = .detect)
    (hcontents : ((empty config).run calls).cells.contents =
      ((empty config').run calls').cells.contents)
    (hlabels : ∀ (r : Ref) (c : Cell), ((empty config).run calls).cells[r]? = some c →
      ¬ HasBareLabel c.raw) :
    ((empty config).run calls).cells = ((empty config').run calls').cells ∧
      ∀ q r, ((empty config).run calls).graph.Edge q r ↔
        ((empty config').run calls').graph.Edge q r := by
  have hsound := sound_of_calls hdetect calls
  have hsound' := sound_of_calls hdetect' calls'
  have hcells := hsound.consistent.eq_of_contents hsound'.consistent hcontents hlabels
  refine ⟨hcells, fun q r => ?_⟩
  rw [hsound.coherent, hsound'.coherent, hcells]

theorem cells_eq_of_brokenCycle :
    ((empty {}).run brokenCycle).cells =
      ((empty {}).run [.setAt "B1" "4", .setAt "A1" "=B1+1"]).cells ∧
      ∀ q r, ((empty {}).run brokenCycle).graph.Edge q r ↔
        ((empty {}).run [.setAt "B1" "4", .setAt "A1" "=B1+1"]).graph.Edge q r := by
  have hlabels : ∀ entry ∈ ((empty {}).run brokenCycle).cells.entries, ¬ HasBareLabel entry.2.1 := by
    decide +kernel
  refine cells_eq_of_contents rfl rfl (Grid.contents_eq_of_entries (by decide +kernel)) ?_
  intro r c hc
  exact hlabels (r, c.raw, c.format) (Grid.mem_entries.mpr (by rw [Grid.contents, hc, Option.map_some]))

end Sheet

end Spreadsheet
