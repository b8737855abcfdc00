import Spreadsheet.Proofs.Sheet.Reachable
import Spreadsheet.Proofs.Sheet.Touched

/-!
# What an edit reports

An edit lists the edited cell and all that reads it, directly or not, each once and in its final
state, and it changes no other cell. So whoever follows the list misses nothing. The observer is told
the part of the list that it takes for visible, in the same order.
-/

namespace Spreadsheet

open Relation

namespace Sheet

/-- The changes that a result lists, that of an edit which closes a cycle too. -/
def changes? : Except SheetError (List Change) → Option (List Change)
  | .ok changes => some changes
  | .error (.cyclic _ changes) => some changes
  | .error _ => none

variable {s : Sheet} {e : Call} {g : Graph} {p : Progress} {r : Ref}

/-- What a call that takes effect reports. -/
structure Reports (s : Sheet) (e : Call) (r : Ref) (changes : List Change) : Prop where
  listed : changes? (s.call e).result = some changes
  head? : changes.head?.map (·.reference) = some r
  nodup : (changes.map (·.reference)).Nodup
  mem_iff : ∀ x, x ∈ changes.map (·.reference) ↔ x = r ∨ TransGen (s.call e).sheet.graph.Edge r x
  stored : ∀ ch ∈ changes, ∀ c, (s.call e).sheet.cells[ch.reference]? = some c →
    ch = ⟨ch.reference, (s.call e).sheet.display c, c.format, c.error, false⟩
  removed : ∀ ch ∈ changes, (s.call e).sheet.cells[ch.reference]? = none → ch = ⟨r, "", {}, none, true⟩
  others : ∀ x, x ∉ changes.map (·.reference) → (s.call e).sheet.cells[x]? = s.cells[x]?
  observed : ∀ isVisible, s.observer = some isVisible →
    (s.call e).events = changes.filter fun ch => isVisible ch.reference

/-! ### The published list -/

theorem changes?_of_edited (h : s.stage e = .edited g p r) :
    changes? (s.call e).result = changes? ({ s with graph := g }.finish p r).result ∧
      (s.call e).events = ({ s with graph := g }.finish p r).events := by
  rcases call_eq_of_edited h with heq | ⟨path, changes, hresult, heq⟩
  · rw [heq]
    exact ⟨rfl, rfl⟩
  · rw [heq, hresult]
    exact ⟨rfl, rfl⟩

theorem changes?_publish (s : Sheet) (p : Progress) (cycle : Option (List Ref)) :
    changes? (s.publish p cycle).result = some (p.touchedOnce.map (s.publish p cycle).sheet.change) := by
  cases cycle <;> rfl

theorem reference_change (s : Sheet) (r : Ref) : (s.change r).reference = r := by
  rw [change]
  split <;> rfl

theorem map_reference_change (s : Sheet) (rs : List Ref) :
    (rs.map s.change).map (·.reference) = rs := by
  rw [List.map_map]
  exact List.map_id'' s.reference_change rs

/-- The list that a call reports is that of the touched references, each in its final state. -/
theorem published_of_stage (hdetect : s.config.cyclePolicy = .detect)
    (hstage : s.stage e = .edited g p r) :
    (s.call e).sheet = { s with graph := g, cells := (p.propagate g r).1.cells } ∧
      changes? (s.call e).result =
        some ((p.propagate g r).1.touchedOnce.map (s.call e).sheet.change) ∧
      ∀ isVisible, s.observer = some isVisible → (s.call e).events =
        ((p.propagate g r).1.touchedOnce.map (s.call e).sheet.change).filter
          fun ch => isVisible ch.reference := by
  have hfinish : ({ s with graph := g } : Sheet).finish p r =
      ({ s with graph := g } : Sheet).publish (p.propagate g r).1 (p.propagate g r).2 :=
    finish_of_detect (s := { s with graph := g }) hdetect p r
  obtain ⟨hresult, hevents⟩ := changes?_of_edited hstage
  rw [hresult, hevents, (call_of_edited hstage).1, hfinish]
  refine ⟨rfl, changes?_publish _ _ _, fun isVisible hobserver => ?_⟩
  simp only [publish, visibleChanges, hobserver]

theorem mem_touchedOnce_of_stage (h : s.Sound) (hstage : s.stage e = .edited g p r) (x : Ref) :
    x ∈ (p.propagate g r).1.touchedOnce ↔ x = r ∨ TransGen g.Edge r x := by
  rw [Progress.mem_touchedOnce, Progress.mem_touched_of_edited (edited_of_stage h hstage)
    (touched_of_stage hstage), reflTransGen_iff_eq_or_transGen]

theorem getElem?_of_not_touched (h : s.Sound) (hstage : s.stage e = .edited g p r) {x : Ref}
    (hx : x ∉ (p.propagate g r).1.touchedOnce) : (p.propagate g r).1.cells[x]? = s.cells[x]? := by
  rw [mem_touchedOnce_of_stage h hstage, not_or] at hx
  have hnot : x ∉ p.affected g r := by
    intro haffected
    have hwalk := (Progress.mem_affected.mp haffected).1
    exact (reflTransGen_iff_eq_or_transGen.mp hwalk).elim hx.1 hx.2
  rw [Progress.getElem?_of_not_mem_affected (edited_of_stage h hstage) hnot,
    getElem?_of_stage hstage hx.1]

theorem reports_of_stage (h : s.Sound) (hdetect : s.config.cyclePolicy = .detect)
    (hstage : s.stage e = .edited g p r) :
    s.Reports e r ((p.propagate g r).1.touchedOnce.map (s.call e).sheet.change) := by
  have hafter := sound_call h hdetect e
  have hmem := mem_touchedOnce_of_stage h hstage
  obtain ⟨hsheet, hlisted, hobserved⟩ := published_of_stage hdetect hstage
  have hgraph : (s.call e).sheet.graph = g := congrArg Sheet.graph hsheet
  have hcells : (s.call e).sheet.cells = (p.propagate g r).1.cells := congrArg Sheet.cells hsheet
  refine ⟨hlisted, ?_, ?_, fun x => ?_, ?_, ?_, fun x hx => ?_, hobserved⟩
  · rw [← List.head?_map, map_reference_change]
    exact Progress.head?_touchedOnce_of_suffix
      (touched_of_stage hstage ▸ Progress.suffix_touched_propagate p g r)
  · rw [map_reference_change]
    exact Progress.nodup_touchedOnce _
  · rw [map_reference_change, hgraph]
    exact hmem x
  · intro ch hch c hc
    obtain ⟨x, -, rfl⟩ := List.mem_map.mp hch
    rw [reference_change] at hc ⊢
    rw [change, hc]
  · intro ch hch hnone
    obtain ⟨x, hx, rfl⟩ := List.mem_map.mp hch
    rw [reference_change] at hnone
    rcases (hmem x).mp hx with rfl | hwalk
    · rw [change, hnone]
    · -- Whatever reads another cell is stored.
      rw [← hgraph] at hwalk
      obtain ⟨c, hc⟩ := Grid.exists_of_mem (hafter.coherent.mem_of_walk hwalk)
      rw [hnone] at hc
      cases hc
  · rw [map_reference_change] at hx
    rw [hcells, getElem?_of_not_touched h hstage hx]

/-- A call without effect leaves all as it is. Any other call reports the edited cell and all that
reads it, and changes nothing else. -/
theorem call_reports (h : s.Reachable) (htarget : e.target? = some r) :
    (s.Ignores r e → s.call e = ⟨s, .ok [], []⟩) ∧
      (¬ s.Ignores r e → ∃ changes, s.Reports e r changes) := by
  constructor
  · intro hignores
    exact call_of_idle (stage_of_ignores htarget hignores)
  · intro hnot
    obtain ⟨g, p, hstage⟩ := exists_stage_of_not_ignores htarget hnot
    exact ⟨_, reports_of_stage h.sound h.detect hstage⟩

/-- Cells that read each other in a chain, one call short of a cycle, with a reader besides and an
observer who does not see one of them. -/
def openChain : Sheet :=
  ((empty {}).run [.setAt "C1" "=B1", .setAt "B1" "=A1", .setAt "D1" "=C1"]).observe
    fun r => r.text != "C1"

theorem reachable_openChain : openChain.Reachable := ((Reachable.start rfl).run _).observe _

theorem call_reports_of_openChain :
    openChain.call (.setAt "A1" "") = ⟨openChain, .ok [], []⟩ ∧
      ∃ changes, openChain.Reports (.setAt "A1" "=C1") firstCell changes :=
  ⟨(call_reports reachable_openChain (r := firstCell) (by decide +kernel)).1 (by decide +kernel),
    (call_reports reachable_openChain (by decide +kernel)).2 (by decide +kernel)⟩

end Sheet

end Spreadsheet
