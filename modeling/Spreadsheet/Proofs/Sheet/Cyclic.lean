import Spreadsheet.Proofs.Grid.Cycle
import Spreadsheet.Proofs.Sheet.Changes

/-!
# Cyclic results

Setting a text is an error exactly if the edited cell lies on a cycle afterwards. Two searches decide
that. The order of recalculation knows the affected cells and the edges of the graph; if the edited
cell is ordered, no cycle passes through it. Otherwise the dependencies are followed through the
stored cells, from where the path of the error comes. A cycle elsewhere, before the edited cell or
after it, leaves the search without a path and is no error.
-/

namespace Spreadsheet

open Relation

/-! ### The edited cell and the order of recalculation -/

namespace Edited

variable {old : Grid} {p : Progress} {g : Graph} {origin : Ref}

/-- All cells of a cycle through the edited cell are affected. -/
theorem transGen_within (h : Edited old p.cells g origin)
    (hcycle : TransGen p.cells.Reads origin origin) :
    TransGen (g.EdgeWithin (p.affected g origin)) origin origin := by
  obtain ⟨d, hreads, hwalk⟩ := TransGen.head'_iff.mp hcycle
  have horigin : origin ∈ p.affected g origin :=
    Progress.mem_affected.mpr ⟨ReflTransGen.refl, hreads.mem⟩
  have hd : d ∈ p.affected g origin := by
    refine Progress.mem_affected.mpr ⟨h.coherent.walk_iff.mpr hwalk, ?_⟩
    rcases ReflTransGen.cases_head hwalk with rfl | ⟨_, hnext, -⟩
    · exact hreads.mem
    · exact hnext.mem
  exact TransGen.tail' (h.walk_within horigin hd) ⟨hd, horigin, (h.coherent d origin).mpr hreads⟩

end Edited

namespace Progress

variable {old : Grid} {p : Progress} {g : Graph} {origin : Ref}

theorem mem_stuck_of_cycle (hedit : Edited old p.cells g origin)
    (hcycle : TransGen p.cells.Reads origin origin) : origin ∈ p.stuck g origin := by
  have hwithin := hedit.transGen_within hcycle
  obtain ⟨_, hedge, -⟩ := TransGen.head'_iff.mp hwithin
  rw [mem_stuck, Graph.not_mem_order_iff (nodup_affected p g origin) hedge.1]
  exact ⟨hedge.1, origin, hwithin, ReflTransGen.refl⟩

/-- A recalculation comes with a path exactly if the edited cell lies on a cycle. -/
theorem isSome_snd_propagate_iff (hedit : Edited old p.cells g origin) :
    (p.propagate g origin).2.isSome ↔
      TransGen (p.propagate g origin).1.cells.Reads origin origin := by
  rw [snd_propagate]
  split
  · rename_i hordered
    refine iff_of_false Bool.false_ne_true fun hcycle => ?_
    rw [reads_propagate hedit] at hcycle
    have hstuck := mem_stuck_of_cycle hedit hcycle
    rcases hordered with hnone | htaken
    · exact List.not_mem_nil (hnone ▸ hstuck)
    · exact (mem_stuck.mp hstuck).2 htaken
  · exact Grid.isSome_findCycle_iff

theorem isCycle_of_snd_propagate {path : List Ref} (h : (p.propagate g origin).2 = some path) :
    (p.propagate g origin).1.cells.IsCycle origin path := by
  rw [snd_propagate] at h
  split at h
  · cases h
  · exact Grid.isCycle_of_findCycle h

end Progress

/-! ### The result of setting a text -/

namespace Sheet

/-- A result that blames a cycle. -/
def IsCyclic (result : Except SheetError (List Change)) : Prop :=
  ∃ path changes, result = .error (.cyclic path changes)

instance : DecidablePred IsCyclic
  | .error (.cyclic path changes) => isTrue ⟨path, changes, rfl⟩
  | .ok _ | .error (.invalidReference _) | .error (.invalidFormula _) | .error (.unreadable _)
  | .error .endless => isFalse fun ⟨_, _, h⟩ => nomatch h

/-- What goes with a cyclic result: the text is stored all the same, the path is a cycle through the
edited cell, and all that is listed is marked. -/
structure ClosesCycle (cells : Grid) (r : Ref) (text : String) (path : List Ref)
    (changes : List Change) : Prop where
  stored : cells[r]?.map (·.raw) = some (Text.trim text)
  isCycle : cells.IsCycle r path
  marked : ∀ ch ∈ changes, ch.error = some .cyclic ∧ cells.Marked ch.reference

variable {s : Sheet} {g : Graph} {p : Progress} {r : Ref} {text : String}

theorem isCyclic_publish_iff {cycle : Option (List Ref)} :
    IsCyclic (s.publish p cycle).result ↔ cycle.isSome := by
  cases cycle with
  | none => exact iff_of_false (fun ⟨_, _, h⟩ => nomatch h) Bool.false_ne_true
  | some path => exact iff_of_true ⟨path, _, rfl⟩ rfl

theorem exists_ok_publish {cycle : Option (List Ref)} (h : ¬ IsCyclic (s.publish p cycle).result) :
    ∃ changes, (s.publish p cycle).result = .ok changes := by
  cases cycle with
  | none => exact ⟨_, rfl⟩
  | some path => exact absurd ⟨path, _, rfl⟩ h

theorem eq_some_of_publish {cycle : Option (List Ref)} {path : List Ref} {changes : List Change}
    (h : (s.publish p cycle).result = .error (.cyclic path changes)) : cycle = some path := by
  cases cycle with
  | none => cases h
  | some found =>
    injection h with h
    injection h with hpath
    rw [hpath]

theorem set_eq_publish (hdetect : s.config.cyclePolicy = .detect)
    (hstage : s.stageSet r text = .edited g p r) :
    s.set r text =
      ({ s with graph := g } : Sheet).publish (p.propagate g r).1 (p.propagate g r).2 := by
  rw [set_of_edited hstage]
  exact finish_of_detect (s := { s with graph := g }) hdetect p r

theorem isCyclic_set_iff (h : s.Sound) (hdetect : s.config.cyclePolicy = .detect)
    (hstage : s.stageSet r text = .edited g p r) :
    IsCyclic (s.set r text).result ↔ TransGen (s.set r text).sheet.cells.Reads r r := by
  have hedit := edited_of_stage (e := .set r text) h hstage
  rw [set_eq_publish hdetect hstage, isCyclic_publish_iff]
  exact Progress.isSome_snd_propagate_iff hedit

/-- What lies on a cycle after its text was set is stored, with that text. -/
theorem stored_of_cycle (hdetect : s.config.cyclePolicy = .detect)
    (hstage : s.stageSet r text = .edited g p r)
    (hcycle : TransGen (s.set r text).sheet.cells.Reads r r) :
    (s.set r text).sheet.cells[r]?.map (·.raw) = some (Text.trim text) := by
  obtain ⟨d, ⟨c, hc, -⟩, -⟩ := TransGen.head'_iff.mp hcycle
  rw [hc, Option.map_some]
  rw [set_eq_publish hdetect hstage] at hc
  obtain ⟨c', hc', hraw, -⟩ :=
    Grid.exists_of_contents_eq (congrFun (Progress.keeps_propagate p g r).contents r) hc
  rw [hraw, raw_of_stageSet hstage hc']

/-- All that reads a cell on a cycle is marked like the cell itself. -/
theorem Reports.marked {e : Call} {changes : List Change} (h : s.Reports e r changes)
    (hsound : (s.call e).sheet.Sound) (hcycle : TransGen (s.call e).sheet.cells.Reads r r) :
    ∀ ch ∈ changes, ch.error = some .cyclic ∧ (s.call e).sheet.cells.Marked ch.reference := by
  intro ch hch
  have hwalk : ReflTransGen (s.call e).sheet.cells.Reads ch.reference r := by
    rw [← hsound.coherent.walk_iff, reflTransGen_iff_eq_or_transGen, ← h.mem_iff]
    exact List.mem_map_of_mem hch
  have hmarked := (hsound.consistent ch.reference).marked_iff.mpr ⟨r, hwalk, hcycle⟩
  obtain ⟨c, hc, herror⟩ := hmarked
  refine ⟨?_, c, hc, herror⟩
  rw [h.stored ch hch c hc]
  exact herror

theorem closesCycle_of_stage (h : s.Sound) (hdetect : s.config.cyclePolicy = .detect)
    (hstage : s.stageSet r text = .edited g p r) {path : List Ref} {changes : List Change}
    (hresult : (s.set r text).result = .error (.cyclic path changes)) :
    ClosesCycle (s.set r text).sheet.cells r text path changes := by
  have hreports := reports_of_stage (e := .set r text) h hdetect hstage
  have hcycle := (isCyclic_set_iff h hdetect hstage).mp ⟨path, changes, hresult⟩
  refine ⟨stored_of_cycle hdetect hstage hcycle, ?_, ?_⟩
  · rw [set_eq_publish hdetect hstage] at hresult ⊢
    exact Progress.isCycle_of_snd_propagate (eq_some_of_publish hresult)
  · have hlisted := hreports.listed
    rw [show (s.call (.set r text)).result = .error (.cyclic path changes) from hresult] at hlisted
    rw [show changes = _ from Option.some.inj hlisted]
    exact hreports.marked (sound_call h hdetect (.set r text)) hcycle

theorem not_isCyclic_clear (h : s.Sound) (hdetect : s.config.cyclePolicy = .detect)
    (hstage : s.stageSet r "" = .edited g p r) : ¬ IsCyclic (s.set r "").result := by
  intro hcyclic
  have hcycle := (isCyclic_set_iff h hdetect hstage).mp hcyclic
  have hstored := stored_of_cycle hdetect hstage hcycle
  obtain ⟨d, ⟨c, hc, hd⟩, -⟩ := TransGen.head'_iff.mp hcycle
  rw [hc, Option.map_some] at hstored
  -- An empty text reads nothing.
  have hraw : c.raw = "" := Option.some.inj hstored
  have hafter := sound_call h hdetect (.set r "")
  rw [(hafter.consistent.fitsTexts r c hc).dependencies_eq, hraw, Cell.precedentsOf_empty] at hd
  exact Std.ExtTreeSet.not_mem_empty hd

/-- Setting a text gives its changes, or an error that blames a cycle, and this exactly if the edited
cell lies on a cycle afterwards. Clearing a cell closes no cycle. -/
theorem set_cyclic_iff (h : s.Reachable) (r : Ref) (text : String) :
    ((∃ changes, (s.set r text).result = .ok changes) ∨ IsCyclic (s.set r text).result) ∧
      (¬ s.HasText r text → (IsCyclic (s.set r text).result ↔
        TransGen (s.set r text).sheet.cells.Reads r r)) ∧
      (∀ path changes, (s.set r text).result = .error (.cyclic path changes) →
        ClosesCycle (s.set r text).sheet.cells r text path changes) ∧
      (text = "" → ∃ changes, (s.set r text).result = .ok changes) := by
  by_cases hsame : s.HasText r text
  · have hok : (s.set r text).result = .ok [] := by
      rw [set_of_idle (stageSet_of_hasText hsame)]
      rfl
    refine ⟨Or.inl ⟨_, hok⟩, absurd hsame, fun path changes hresult => ?_, fun _ => ⟨_, hok⟩⟩
    rw [hok] at hresult
    cases hresult
  · obtain ⟨g, p, hstage⟩ := stageSet_of_not_hasText hsame
    have hok : ¬ IsCyclic (s.set r text).result → ∃ changes, (s.set r text).result = .ok changes := by
      rw [set_eq_publish h.detect hstage]
      exact exists_ok_publish
    refine ⟨or_iff_not_imp_right.mpr hok, fun _ => isCyclic_set_iff h.sound h.detect hstage,
      fun path changes => closesCycle_of_stage h.sound h.detect hstage, ?_⟩
    rintro rfl
    exact hok (not_isCyclic_clear h.sound h.detect hstage)

theorem set_cyclic_iff_of_openChain : ∃ path changes,
    ¬ openChain.HasText firstCell "=C1" ∧
      (openChain.set firstCell "=C1").result = .error (.cyclic path changes) ∧
      TransGen (openChain.set firstCell "=C1").sheet.cells.Reads firstCell firstCell ∧
      ClosesCycle (openChain.set firstCell "=C1").sheet.cells firstCell "=C1" path changes ∧
      ∃ cleared, (openChain.set firstCell "").result = .ok cleared := by
  obtain ⟨-, hiff, hcloses, -⟩ := set_cyclic_iff reachable_openChain firstCell "=C1"
  obtain ⟨-, -, -, hcleared⟩ := set_cyclic_iff reachable_openChain firstCell ""
  have hnew : ¬ openChain.HasText firstCell "=C1" := by decide +kernel
  have hcyclic : IsCyclic (openChain.set firstCell "=C1").result := by decide +kernel
  obtain ⟨path, changes, hresult⟩ := hcyclic
  exact ⟨path, changes, hnew, hresult, (hiff hnew).mp ⟨path, changes, hresult⟩,
    hcloses path changes hresult, hcleared rfl⟩

end Sheet

end Spreadsheet
