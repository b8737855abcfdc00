import Spreadsheet.Proofs.Script.Parse
import Spreadsheet.Proofs.Sheet.Cyclic
import Spreadsheet.Proofs.Sheet.Toggle
import Spreadsheet.Script.Replay

/-!
# Scripts replay to the end

A toggle is passed on by names, and the names of an edit that was read from a script denote its own
kind and cell. So no edit of a script is refused: on a sheet that detects cycles it gives its changes,
or the error of a cycle that it closes, which ends no replay. What a replay tells of is therefore known
beforehand, edit by edit: `Told` says which changes and which warnings there are.
-/

namespace Spreadsheet

open Relation

/-! ### The result of an edit -/

namespace Sheet

variable {s : Sheet} {r : Ref} {text : String}

theorem isCyclic_set (h : s.Reachable) (hnew : ¬ s.HasText r text)
    (hcycle : TransGen (s.set r text).sheet.cells.Reads r r) : IsCyclic (s.set r text).result := by
  obtain ⟨g, p, hstage⟩ := stageSet_of_not_hasText hnew
  exact (isCyclic_set_iff h.sound h.detect hstage).mpr hcycle

theorem exists_ok_set (h : s.Reachable)
    (hquiet : ¬ (¬ s.HasText r text ∧ TransGen (s.set r text).sheet.cells.Reads r r)) :
    ∃ changes, (s.set r text).result = .ok changes := by
  by_cases hsame : s.HasText r text
  · rw [set_of_idle (stageSet_of_hasText hsame)]
    exact ⟨[], rfl⟩
  · obtain ⟨g, p, hstage⟩ := stageSet_of_not_hasText hsame
    have hcyclic : ¬ IsCyclic (s.set r text).result := by
      rw [isCyclic_set_iff h.sound h.detect hstage]
      exact fun hcycle => hquiet ⟨hsame, hcycle⟩
    rw [set_eq_publish h.detect hstage] at hcyclic ⊢
    exact exists_ok_publish hcyclic

end Sheet

namespace Script

/-- The reference that an edit is about. -/
def Edit.reference : Edit → Ref
  | set r _ => r
  | toggle _ r => r

/-- The call that an edit makes. -/
def Edit.call : Edit → Call
  | set r text => .set r text
  | toggle kind r => .toggleAt kind.name r.text

/-- The call of an edit reaches the cell that the edit is about. -/
def Edit.ReadsBack (edit : Edit) : Prop := edit.call.target? = some edit.reference

/-- An edit sets a text that is not there yet, and then its cell lies on a cycle. Toggles do no such
thing. -/
def Edit.ClosesCycle (s : Sheet) : Edit → Prop
  | set r text => ¬ s.HasText r text ∧ TransGen (s.set r text).sheet.cells.Reads r r
  | toggle _ _ => False

variable {s : Sheet} {edit : Edit}

theorem Edit.apply_eq_call (edit : Edit) (s : Sheet) : edit.apply s = s.call edit.call := by
  cases edit with
  | set r text => rfl
  | toggle kind r => rfl

theorem Edit.exists_ok (h : s.Reachable) (hback : edit.ReadsBack) (hquiet : ¬ edit.ClosesCycle s) :
    ∃ changes, (s.call edit.call).result = .ok changes := by
  cases edit with
  | set r text => exact Sheet.exists_ok_set h hquiet
  | toggle kind r =>
    have htoggle : s.call (toggle kind r).call = s.toggle kind r :=
      Sheet.toggleAt_eq hback (FormatKind.ofName?_eq_some_iff.mpr rfl)
    rw [htoggle]
    exact Sheet.exists_ok_toggle h.detect kind r

theorem Edit.isCyclic (h : s.Reachable) (hcloses : edit.ClosesCycle s) :
    Sheet.IsCyclic (s.call edit.call).result := by
  cases edit with
  | set r text => exact Sheet.isCyclic_set h hcloses.1 hcloses.2
  | toggle kind r => exact hcloses.elim

/-! ### Edits of a script -/

theorem readsBack_of_says {line : List Char} (h : Says line (some edit)) : edit.ReadsBack := by
  cases h with
  | toggle h =>
    obtain ⟨rest, word, name, -, -, -, hr⟩ := h
    exact Ref.parse?_text hr
  | set h => rfl

theorem readsBack_of_parse {content : String} {entries : List Entry}
    (h : parse content = .ok entries) : ∀ entry ∈ entries, entry.edit.ReadsBack := by
  intro entry hmem
  obtain ⟨said, hsaid, rfl⟩ := exists_allSay_of_parse h
  obtain ⟨line, hline⟩ := exists_says_of_mem_numbered hsaid hmem
  exact readsBack_of_says hline

/-! ### Replays -/

/-- What a replay tells of: the list of changes of each entry, and a warning, with the number of its
line, for each entry that closes a cycle and for no other. -/
inductive Told : Sheet → List Entry → List (List Change) → List ReplayError → Prop
  | nil {s : Sheet} : Told s [] [] []
  | quiet {s : Sheet} {entry : Entry} {entries : List Entry} {changes : List Change}
      {lists : List (List Change)} {warnings : List ReplayError}
      (hquiet : ¬ entry.edit.ClosesCycle s)
      (hresult : (s.call entry.edit.call).result = .ok changes)
      (hrest : Told (s.call entry.edit.call).sheet entries lists warnings) :
      Told s (entry :: entries) (changes :: lists) warnings
  | warning {s : Sheet} {entry : Entry} {entries : List Entry} {path : List Ref}
      {changes : List Change} {lists : List (List Change)} {warnings : List ReplayError}
      (hcloses : entry.edit.ClosesCycle s)
      (hresult : (s.call entry.edit.call).result = .error (.cyclic path changes))
      (hrest : Told (s.call entry.edit.call).sheet entries lists warnings) :
      Told s (entry :: entries) (changes :: lists) (⟨entry.line, .cyclic path changes⟩ :: warnings)

variable {entries : List Entry} {lists : List (List Change)} {warnings : List ReplayError}

theorem exists_told (h : s.Reachable) (hback : ∀ entry ∈ entries, entry.edit.ReadsBack) :
    ∃ lists warnings, Told s entries lists warnings := by
  induction entries generalizing s with
  | nil => exact ⟨[], [], .nil⟩
  | cons entry rest ih =>
    obtain ⟨hentry, hrest⟩ := List.forall_mem_cons.mp hback
    obtain ⟨lists, warnings, htold⟩ := ih (h.call entry.edit.call) hrest
    by_cases hcloses : entry.edit.ClosesCycle s
    · obtain ⟨path, changes, hresult⟩ := Edit.isCyclic h hcloses
      exact ⟨changes :: lists, _, .warning hcloses hresult htold⟩
    · obtain ⟨changes, hresult⟩ := Edit.exists_ok h hentry hcloses
      exact ⟨changes :: lists, warnings, .quiet hcloses hresult htold⟩

namespace Replay

variable {p : Replay} {entry : Entry} {path : List Ref} {changes : List Change}

theorem step_of_ok (h : (p.sheet.call entry.edit.call).result = .ok changes) :
    p.step entry =
      .ok ⟨(p.sheet.call entry.edit.call).sheet, changes :: p.changes, p.warnings⟩ := by
  rw [step, Edit.apply_eq_call, h]

theorem step_of_cyclic (h : (p.sheet.call entry.edit.call).result = .error (.cyclic path changes)) :
    p.step entry = .ok ⟨(p.sheet.call entry.edit.call).sheet, changes :: p.changes,
      ⟨entry.line, .cyclic path changes⟩ :: p.warnings⟩ := by
  rw [step, Edit.apply_eq_call, h]

/-- A replay goes on to the end and adds what it tells of to what it told of before. -/
theorem foldlM_step_of_told (h : Told p.sheet entries lists warnings) :
    entries.foldlM step p = .ok ⟨p.sheet.run (entries.map fun entry => entry.edit.call),
      lists.reverse ++ p.changes, warnings.reverse ++ p.warnings⟩ := by
  generalize hs : p.sheet = s at h
  -- What was told before is kept at the end of both lists, as the step puts the new in front.
  induction h generalizing p with
  | nil =>
    subst hs
    rfl
  | quiet _ hresult _ ih =>
    subst hs
    rw [List.foldlM_cons, step_of_ok hresult]
    refine (ih rfl).trans ?_
    simp only [List.reverse_cons, List.append_assoc, List.singleton_append]
    rfl
  | warning _ hresult _ ih =>
    subst hs
    rw [List.foldlM_cons, step_of_cyclic hresult]
    refine (ih rfl).trans ?_
    simp only [List.reverse_cons, List.append_assoc, List.singleton_append]
    rfl

end Replay

theorem replay_of_told (h : Told s entries lists warnings) : ∃ p, replay s entries = .ok p ∧
    p.sheet = s.run (entries.map fun entry => entry.edit.call) ∧ p.allChanges = lists.flatten ∧
      p.allWarnings = warnings.map ReplayError.message := by
  refine ⟨_, Replay.foldlM_step_of_told (p := ⟨s, [], []⟩) h, rfl, ?_, ?_⟩
  · simp only [Replay.allChanges, List.append_nil, List.reverse_reverse]
  · simp only [Replay.allWarnings, List.append_nil, List.reverse_reverse]

/-- A script that could be read is replayed to the end on every sheet that can come about. Its edits
are made one after another, each of them on the cell that it names. All of their changes are passed on,
in order, and the warnings are about those edits that close a cycle. -/
theorem replay_of_parse {content : String} (h : s.Reachable) (hparse : parse content = .ok entries) :
    (∀ entry ∈ entries, entry.edit.ReadsBack) ∧
      ∃ p lists warnings, replay s entries = .ok p ∧
        p.sheet = s.run (entries.map fun entry => entry.edit.call) ∧
        Told s entries lists warnings ∧ p.allChanges = lists.flatten ∧
        p.allWarnings = warnings.map ReplayError.message := by
  have hback := readsBack_of_parse hparse
  obtain ⟨lists, warnings, htold⟩ := exists_told h hback
  obtain ⟨p, hp, hsheet, hchanges, hwarnings⟩ := replay_of_told htold
  exact ⟨hback, p, lists, warnings, hp, hsheet, htold, hchanges, hwarnings⟩

/-- A script that closes a cycle with its second edit and toggles a flag of a cell on it. -/
def toggledCycle : String := "# a cycle\na01: =C1\n !BOLD A1 \nC1: =B1\nA1:\n"

theorem replay_of_toggledCycle : ∃ entries p lists warnings,
    parse toggledCycle = .ok entries ∧ replay Sheet.openChain entries = .ok p ∧
      p.sheet = Sheet.openChain.run (entries.map fun entry => entry.edit.call) ∧
      Told Sheet.openChain entries lists warnings ∧ p.allChanges = lists.flatten ∧
      p.allWarnings = warnings.map ReplayError.message ∧
      p.allWarnings = ["Line 2: Circular dependency detected: A1 -> C1 -> B1 -> A1"] := by
  have hread : ((parse toggledCycle).toOption.bind fun entries =>
      (replay Sheet.openChain entries).toOption).map Replay.allWarnings =
        some ["Line 2: Circular dependency detected: A1 -> C1 -> B1 -> A1"] := by
    decide +kernel
  cases hparse : parse toggledCycle with
  | error cause =>
    rw [hparse] at hread
    cases hread
  | ok entries =>
    obtain ⟨-, p, lists, warnings, hp, hsheet, htold, hchanges, hwarnings⟩ :=
      replay_of_parse Sheet.reachable_openChain hparse
    rw [hparse, show (Except.ok entries).toOption = some entries from rfl, Option.bind_some, hp] at hread
    exact ⟨entries, p, lists, warnings, rfl, hp, hsheet, htold, hchanges, hwarnings,
      Option.some.inj hread⟩

end Script

end Spreadsheet
