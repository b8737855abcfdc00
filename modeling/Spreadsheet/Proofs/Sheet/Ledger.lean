import Spreadsheet.Proofs.Format
import Spreadsheet.Proofs.Sheet.InStep

/-!
# What was entered

A ledger is a plain map from references to what was entered there: a text, and the flags that were
toggled. Its rules know of no values, dependencies or errors. A sheet keeps such a ledger, whatever
else its calls do and return: what a call comes to before the recalculation follows the rules, and
the recalculation rewrites whole cells but leaves the ledger as it is.
-/

namespace Spreadsheet

/-- The flags that were toggled at least once. -/
abbrev Flags := FormatKind → Option Bool

/-- What was entered in a cell. -/
structure Entered where
  raw : String
  flags : Flags

/-- What was entered in each cell; a reference without an entry is not stored. -/
abbrev Ledger := Ref → Option Entered

namespace Ledger

/-- The text at a reference, empty where nothing was entered. -/
def raw (l : Ledger) (r : Ref) : String := (l r).elim "" Entered.raw

/-- The flags at a reference, none where nothing was entered. -/
def flags (l : Ledger) (r : Ref) : Flags := (l r).elim (fun _ => none) Entered.flags

/-- A text is entered without the blanks at its ends and leaves the flags alone. The text that is
there already changes nothing, and no more does clearing what is not stored. An empty text removes
the entry, unless it has flags and these are to be kept. -/
def set (keep : Bool) (l : Ledger) (r : Ref) (text : String) : Ledger :=
  if (l r).map Entered.raw = some text ∨ (l r = none ∧ text = "") then l
  else if text = "" then
    Function.update l r
      (if keep = true ∧ ∃ kind, l.flags r kind ≠ none then some ⟨"", l.flags r⟩ else none)
  else Function.update l r (some ⟨Text.trim text, l.flags r⟩)

/-- A flag that was never toggled turns on, any other one is flipped. -/
def flip (flags : Flags) (kind : FormatKind) : Flags :=
  Function.update flags kind (some (!(flags kind).getD false))

/-- A toggle leaves the text alone. -/
def toggle (l : Ledger) (kind : FormatKind) (r : Ref) : Ledger :=
  Function.update l r (some ⟨l.raw r, flip (l.flags r) kind⟩)

/-- A call with a reference or a kind that is none changes nothing. -/
def call (keep : Bool) (l : Ledger) : Call → Ledger
  | .set r text => l.set keep r text
  | .setAt reference text =>
    match Ref.parse? reference with
    | none => l
    | some r => l.set keep r text
  | .toggleAt kind reference =>
    match Ref.parse? reference, FormatKind.ofName? kind with
    | some r, some kind => l.toggle kind r
    | _, _ => l

/-- The ledger after some calls. -/
def run (keep : Bool) (l : Ledger) (calls : List Call) : Ledger := calls.foldl (call keep) l

end Ledger

/-! ### Ledgers of grids -/

/-- What was entered in a cell. -/
def Cell.entered (c : Cell) : Entered := ⟨c.raw, c.format.get?⟩

namespace Grid

/-- What was entered in the stored cells. -/
def ledger (cells : Grid) : Ledger := fun r => cells[r]?.map Cell.entered

variable {cells cells' : Grid} {r : Ref} {c : Cell}

theorem ledger_eq_of_contents (h : cells.contents = cells'.contents) : cells.ledger = cells'.ledger := by
  have hledger : ∀ cells : Grid, ∀ r,
      cells.ledger r = (cells.contents r).map fun content => ⟨content.1, content.2.get?⟩ := by
    intro cells r
    rw [ledger, contents, Option.map_map]
    rfl
  funext r
  rw [hledger, hledger, h]

theorem ledger_insert (cells : Grid) (r : Ref) (c : Cell) :
    ledger (cells.insert r c) = Function.update cells.ledger r (some c.entered) := by
  funext x
  by_cases hx : x = r
  · subst hx
    rw [ledger, Std.ExtTreeMap.getElem?_insert_self, Function.update_self, Option.map_some]
  · rw [ledger, Std.ExtTreeMap.getElem?_insert, if_neg (by simpa using Ne.symm hx),
      Function.update_of_ne hx, ledger]

theorem ledger_erase (cells : Grid) (r : Ref) :
    ledger (cells.erase r) = Function.update cells.ledger r none := by
  funext x
  by_cases hx : x = r
  · subst hx
    rw [ledger, Std.ExtTreeMap.getElem?_erase_self, Function.update_self, Option.map_none]
  · rw [ledger, Std.ExtTreeMap.getElem?_erase, if_neg (by simpa using Ne.symm hx),
      Function.update_of_ne hx, ledger]

theorem entered_spread (cells : Grid) (c : Cell) : (cells.spread c).entered = c.entered := by
  rw [Cell.entered, raw_spread, format_spread, Cell.entered]

end Grid

namespace Sheet

variable {s : Sheet} {r : Ref} {c : Cell}

/-! ### Before a recalculation -/

/-- The cells that a call leaves to the recalculation. -/
def stagedCells (s : Sheet) : Stage → Grid
  | .idle _ => s.cells
  | .edited _ p _ => p.cells

theorem ledger_of_some (hc : s.cells[r]? = some c) : s.cells.ledger r = some c.entered := by
  rw [Grid.ledger, hc, Option.map_some]

theorem ledger_of_none (hnone : s.cells[r]? = none) : s.cells.ledger r = none := by
  rw [Grid.ledger, hnone, Option.map_none]

theorem ledger_write (s : Sheet) (r : Ref) (raw : String) : (s.write r raw).2.cells.ledger =
    Function.update s.cells.ledger r (some ⟨raw, s.cells.ledger.flags r⟩) := by
  have hentered : ∀ format : Format,
      { Cell.ofText raw s.cells.lookup with format }.entered = ⟨raw, format.get?⟩ := by
    intro format
    rw [Cell.ofText, Cell.recompute_eq, Cell.entered]
  unfold write Progress.store
  cases hold : s.cells[r]? with
  | none =>
    rw [Grid.ledger_insert, Grid.entered_spread, hentered, Ledger.flags,
      ledger_of_none hold, Format.get?_empty, Option.elim_none]
  | some c =>
    rw [Grid.ledger_insert, Grid.entered_spread, hentered, Ledger.flags,
      ledger_of_some hold, Option.elim_some, Cell.entered]

theorem ledger_erase (hc : s.cells[r]? = some c) : (s.erase r c).2.cells.ledger =
    Function.update s.cells.ledger r
      (if s.config.keepFormatOnClear = true ∧ ∃ kind, s.cells.ledger.flags r kind ≠ none
        then some ⟨"", s.cells.ledger.flags r⟩ else none) := by
  have hflags : s.cells.ledger.flags r = c.format.get? := by
    rw [Ledger.flags, ledger_of_some hc, Option.elim_some, Cell.entered]
  have hkeep : (s.config.keepFormatOnClear && !c.format.isEmpty) = true ↔
      s.config.keepFormatOnClear = true ∧ ∃ kind, c.format.get? kind ≠ none := by
    rw [Bool.and_eq_true, Bool.not_eq_true', Bool.eq_false_iff, Ne, Format.isEmpty_iff, not_forall]
  rw [hflags, erase]
  dsimp only
  by_cases h : (s.config.keepFormatOnClear && !c.format.isEmpty) = true
  · rw [if_pos h, if_pos (hkeep.mp h), Grid.ledger_insert, Grid.ledger_erase, Function.update_idem]
    rfl
  · rw [if_neg h, if_neg (mt hkeep.mpr h), Grid.ledger_erase]

theorem hasText_iff_ledger {text : String} : s.HasText r text ↔
    (s.cells.ledger r).map Entered.raw = some text ∨ (s.cells.ledger r = none ∧ text = "") := by
  cases hold : s.cells[r]? with
  | none => simp [HasText, ledger_of_none hold, hold]
  | some c => simp [HasText, ledger_of_some hold, hold, Cell.entered]

theorem ledger_stageSet (s : Sheet) (r : Ref) (text : String) :
    (s.stagedCells (s.stageSet r text)).ledger =
      s.cells.ledger.set s.config.keepFormatOnClear r text := by
  rw [Ledger.set]
  by_cases hsame : s.HasText r text
  · rw [stageSet_of_hasText hsame, if_pos (hasText_iff_ledger.mp hsame), stagedCells]
  · have hnew : ¬ s.cells[r]?.any (·.raw == text) = true := by
      intro hany
      obtain ⟨c, hc, hraw⟩ := (Option.any_eq_true _ _).mp hany
      exact hsame (Or.inl ⟨c, hc, eq_of_beq hraw⟩)
    rw [if_neg (mt hasText_iff_ledger.mpr hsame), stageSet, if_neg hnew]
    by_cases hempty : text = ""
    · rw [if_pos hempty, if_pos (String.isEmpty_iff.mpr hempty)]
      cases hold : s.cells[r]? with
      | none => exact absurd (Or.inr ⟨hold, hempty⟩) hsame
      | some c => exact ledger_erase hold
    · rw [if_neg hempty, if_neg (mt String.isEmpty_iff.mp hempty)]
      exact ledger_write s r (Text.trim text)

theorem ledger_stageToggle (s : Sheet) (kind : FormatKind) (r : Ref) :
    (s.stagedCells (s.stageToggle kind r)).ledger = s.cells.ledger.toggle kind r := by
  rw [stageToggle, stagedCells, Progress.store, Grid.ledger_insert, Ledger.toggle, Ledger.raw,
    Ledger.flags, Cell.entered, Cell.toggle, Format.get?_toggle, Ledger.flip]
  cases hold : s.cells[r]? with
  | none => rw [ledger_of_none hold, ← Format.get?_empty]; rfl
  | some c => rw [ledger_of_some hold]; rfl

/-- What a call does before the recalculation follows the rules of the ledger. -/
theorem ledger_stage (s : Sheet) (e : Call) : (s.stagedCells (s.stage e)).ledger =
    s.cells.ledger.call s.config.keepFormatOnClear e := by
  cases e with
  | set r text => exact ledger_stageSet s r text
  | setAt reference text =>
    rw [stage, SheetError.parseRef, Ledger.call]
    cases Ref.parse? reference with
    | none => rfl
    | some r => exact ledger_stageSet s r text
  | toggleAt kind reference =>
    rw [stage, SheetError.parseRef, Ledger.call]
    cases Ref.parse? reference with
    | none => rfl
    | some r =>
      cases FormatKind.ofName? kind with
      | none => rfl
      | some kind => exact ledger_stageToggle s kind r

/-! ### Calls -/

/-- No recalculation changes what was entered. -/
theorem contents_call (s : Sheet) (e : Call) :
    (s.call e).sheet.cells.contents = (s.stagedCells (s.stage e)).contents := by
  cases hstage : s.stage e with
  | idle result =>
    rw [call_of_idle hstage]
    rfl
  | edited g p r =>
    obtain ⟨q, hkeeps, hsheet⟩ := exists_keeps_finish { s with graph := g } p r
    rw [(call_of_edited hstage).1, hsheet]
    exact hkeeps.contents

theorem ledger_call (s : Sheet) (e : Call) : (s.call e).sheet.cells.ledger =
    s.cells.ledger.call s.config.keepFormatOnClear e := by
  rw [Grid.ledger_eq_of_contents (contents_call s e), ledger_stage]

theorem ledger_run (s : Sheet) (calls : List Call) : (s.run calls).cells.ledger =
    s.cells.ledger.run s.config.keepFormatOnClear calls := by
  induction calls generalizing s with
  | nil => rfl
  | cons e rest ih =>
    have hrest := ih (s.call e).sheet
    rw [config_call, ledger_call] at hrest
    exact hrest

/-- Whatever calls are made, and whatever they return, what a sheet stores of texts and formats is
what a plain map would store that knows nothing of recalculation. A recalculation alters, creates and
drops none of it, whichever cells it marks. -/
theorem ledger_eq_run (config : Config) (calls : List Call) :
    ((empty config).run calls).cells.ledger =
        Ledger.run config.keepFormatOnClear (fun _ => none) calls ∧
      ∀ (p : Progress) (g : Graph) (r : Ref), (p.propagate g r).1.cells.ledger = p.cells.ledger := by
  constructor
  · rw [ledger_run]
    rfl
  · intro p g r
    exact Grid.ledger_eq_of_contents (Progress.keeps_propagate p g r).contents

end Sheet

end Spreadsheet
