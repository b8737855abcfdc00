import Spreadsheet.Proofs.Sheet.Changes
import Spreadsheet.Proofs.Viewport

/-!
# Screens

A client shows a region of a sheet. It is painted once in full and then follows what the observer of
the sheet is told: a removed cell is wiped off and any other one painted over. It need not ask the
sheet again. `Shows` says for each reference what such a screen has to show; a full repaint achieves
it, each call keeps it, and only one screen fits.
-/

namespace Spreadsheet

/-- What a screen shows of a cell. -/
structure Painted where
  display : String
  format : Format
  error : Option CellError
deriving DecidableEq, Repr

abbrev Screen := RefMap Painted

def Change.painted (ch : Change) : Painted := ⟨ch.display, ch.format, ch.error⟩

namespace Screen

/-- The screen after a full repaint. -/
def paint (changes : List Change) : Screen :=
  changes.foldl (fun screen ch => screen.insert ch.reference ch.painted) ∅

def apply (screen : Screen) (ch : Change) : Screen :=
  if ch.removed then screen.erase ch.reference else screen.insert ch.reference ch.painted

def follow (screen : Screen) (changes : List Change) : Screen := changes.foldl apply screen

end Screen

namespace Sheet

/-- What the observer is told during some calls. -/
def events (s : Sheet) : List Call → List Change
  | [] => []
  | e :: rest => (s.call e).events ++ (s.call e).sheet.events rest

/-- What there is to see of a reference. -/
def painted? (s : Sheet) (r : Ref) : Option Painted :=
  s.cells[r]?.map fun c => ⟨s.display c, c.format, c.error⟩

/-- A screen shows the stored cells of a sheet that a viewport contains, and nothing else. -/
def Shows (s : Sheet) (v : Viewport) (screen : Screen) : Prop :=
  ∀ x, screen[x]? = if v.contains x then s.painted? x else none

variable {s : Sheet} {e : Call} {v : Viewport} {screen : Screen} {r x : Ref}

theorem Shows.eq {screen' : Screen} (h : s.Shows v screen) (h' : s.Shows v screen') :
    screen = screen' :=
  Std.ExtTreeMap.ext_getElem? fun x => (h x).trans (h' x).symm

/-! ### Painting -/

theorem getElem?_apply_change (s : Sheet) (screen : Screen) (r x : Ref) :
    (screen.apply (s.change r))[x]? = if x = r then s.painted? x else screen[x]? := by
  by_cases hx : x = r
  · subst hx
    rw [if_pos rfl, Screen.apply, change, painted?]
    cases hc : s.cells[x]? with
    | none => exact Std.ExtTreeMap.getElem?_erase_self
    | some c => exact Std.ExtTreeMap.getElem?_insert_self
  · have hne : ¬ compare r x = .eq := by simpa using Ne.symm hx
    rw [if_neg hx, Screen.apply, reference_change]
    split
    · rw [Std.ExtTreeMap.getElem?_erase, if_neg hne]
    · rw [Std.ExtTreeMap.getElem?_insert, if_neg hne]

/-- Following changes that have the final state of a sheet shows this state of what they name. -/
theorem getElem?_follow (s : Sheet) {changes : List Change}
    (h : ∀ ch ∈ changes, ch = s.change ch.reference) (screen : Screen) (x : Ref) :
    (screen.follow changes)[x]? =
      if x ∈ changes.map (·.reference) then s.painted? x else screen[x]? := by
  induction changes generalizing screen with
  | nil => rfl
  | cons ch rest ih =>
    have hrest := ih (fun ch' hch' => h ch' (List.mem_cons_of_mem ch hch')) (screen.apply ch)
    rw [h ch List.mem_cons_self, getElem?_apply_change] at hrest
    rw [Screen.follow, List.foldl_cons, ← Screen.follow, h ch List.mem_cons_self, hrest,
      List.map_cons, reference_change]
    by_cases hx : x = ch.reference
    · simp [hx]
    · simp [hx]

theorem paint_eq_follow {changes : List Change} (h : ∀ ch ∈ changes, ch.removed = false) :
    Screen.paint changes = Screen.follow ∅ changes := by
  refine List.foldl_ext _ _ _ fun screen ch hch => ?_
  rw [Screen.apply, h ch hch]
  rfl

theorem removed_change (h : r ∈ s.cells) : (s.change r).removed = false := by
  obtain ⟨c, hc⟩ := Grid.exists_of_mem h
  rw [change, hc]

theorem shows_repaint (s : Sheet) (hfits : v.region.Fits) : s.Shows v (Screen.paint (s.repaint v)) := by
  intro x
  have hmem : x ∈ v.visible.filter (s.cells.contains ·) ↔ v.contains x = true ∧ x ∈ s.cells := by
    rw [List.mem_filter, Viewport.contains_iff_mem_visible hfits, Std.ExtTreeMap.contains_iff_mem]
  have hkept : ∀ ch ∈ s.repaint v, ch.removed = false := by
    intro ch hch
    obtain ⟨r, hr, rfl⟩ := List.mem_map.mp hch
    exact removed_change (Std.ExtTreeMap.contains_iff_mem.mp (List.mem_filter.mp hr).2)
  have hstate : ∀ ch ∈ s.repaint v, ch = s.change ch.reference := by
    intro ch hch
    obtain ⟨r, -, rfl⟩ := List.mem_map.mp hch
    rw [reference_change]
  rw [paint_eq_follow hkept, getElem?_follow s hstate, repaint, map_reference_change]
  by_cases hstored : x ∈ s.cells
  · simp only [hmem, hstored, and_true, Std.ExtTreeMap.getElem?_empty]
  · have hnone : s.cells[x]? = none := Std.ExtTreeMap.getElem?_eq_none hstored
    rw [if_neg fun h => hstored (hmem.mp h).2, painted?, hnone, Option.map_none, ite_self,
      Std.ExtTreeMap.getElem?_empty]

/-! ### Following -/

theorem Reports.eq_change {changes : List Change} (h : s.Reports e r changes) :
    ∀ ch ∈ changes, ch = (s.call e).sheet.change ch.reference := by
  intro ch hch
  rw [change]
  cases hc : (s.call e).sheet.cells[ch.reference]? with
  | none =>
    have hremoved := h.removed ch hch hc
    rw [hremoved]
  | some c => exact h.stored ch hch c hc

theorem painted?_call_of_not_mem {changes : List Change} (h : s.Reports e r changes)
    (hx : x ∉ changes.map (·.reference)) : (s.call e).sheet.painted? x = s.painted? x := by
  rw [painted?, painted?, h.others x hx]
  simp only [display, config_call]

theorem Shows.follow {changes : List Change} (h : s.Shows v screen) (hreports : s.Reports e r changes)
    (hobserver : s.observer = some v.contains) :
    (s.call e).sheet.Shows v (screen.follow (s.call e).events) := by
  intro x
  have hmem : x ∈ ((changes.filter fun ch => v.contains ch.reference).map (·.reference)) ↔
      v.contains x = true ∧ x ∈ changes.map (·.reference) := by
    simp only [List.mem_map, List.mem_filter]
    constructor
    · rintro ⟨ch, ⟨hch, hvisible⟩, rfl⟩
      exact ⟨hvisible, ch, hch, rfl⟩
    · rintro ⟨hvisible, ch, hch, rfl⟩
      exact ⟨ch, ⟨hch, hvisible⟩, rfl⟩
  have hstate : ∀ ch ∈ changes.filter fun ch => v.contains ch.reference,
      ch = (s.call e).sheet.change ch.reference :=
    fun ch hch => hreports.eq_change ch (List.mem_filter.mp hch).1
  rw [hreports.observed _ hobserver, getElem?_follow _ hstate, h x]
  by_cases hx : x ∈ changes.map (·.reference)
  · -- What is listed is told if it is visible, and not shown before or after if it is not.
    simp only [hmem, hx, and_true]
    split <;> rfl
  · rw [if_neg fun h => hx (hmem.mp h).2, painted?_call_of_not_mem hreports hx]

/-- A client that follows a call shows the sheet after it if it showed the sheet before. -/
theorem Shows.call (h : s.Shows v screen) (hreachable : s.Reachable)
    (hobserver : s.observer = some v.contains) (e : Call) :
    (s.call e).sheet.Shows v (screen.follow (s.call e).events) := by
  cases hstage : s.stage e with
  | idle result =>
    rw [call_of_idle hstage]
    exact h
  | edited g p r =>
    have hreports := reports_of_stage hreachable.sound hreachable.detect hstage
    exact h.follow hreports hobserver

theorem Shows.run (h : s.Shows v screen) (hreachable : s.Reachable)
    (hobserver : s.observer = some v.contains) (calls : List Call) :
    (s.run calls).Shows v (screen.follow (s.events calls)) := by
  induction calls generalizing s screen with
  | nil => exact h
  | cons e rest ih =>
    rw [events, Screen.follow, List.foldl_append]
    exact ih (h.call hreachable hobserver e) (hreachable.call e) ((observer_call s e).trans hobserver)

/-- A client that asks for the events of a viewport and follows them keeps showing the sheet. -/
theorem Shows.run_observe (h : s.Shows v screen) (hreachable : s.Reachable) (calls : List Call) :
    ((s.observe v.contains).run calls).Shows v
      (screen.follow ((s.observe v.contains).events calls)) :=
  Shows.run (s := s.observe v.contains) h (hreachable.observe _) rfl calls

/-- A client that repaints a region once and follows the observer from then on shows what another
full repaint would show, after any calls. -/
theorem follow_events_eq_paint (h : s.Reachable) (hfits : v.region.Fits) (calls : List Call) :
    (Screen.paint (s.repaint v)).follow ((s.observe v.contains).events calls) =
      Screen.paint (((s.observe v.contains).run calls).repaint v) :=
  Shows.eq ((shows_repaint s hfits).run_observe h calls) (shows_repaint _ hfits)

def leftColumns : Viewport := ⟨{ startColumn := 0, endColumn := 2, startRow := 1, endRow := 9 }⟩

/-- The chain is closed and broken again, so that cells become cyclic, vanish and recover. -/
def brokenChain : List Call :=
  [.setAt "A1" "=C1", .toggleAt "bold" "B2", .setAt "B1" "", .setAt "1A" "7", .setAt "A1" "=D1",
    .setAt "B1" "5"]

theorem follow_events_eq_paint_of_brokenChain :
    (Screen.paint (openChain.repaint leftColumns)).follow
        ((openChain.observe leftColumns.contains).events brokenChain) =
      Screen.paint (((openChain.observe leftColumns.contains).run brokenChain).repaint leftColumns) :=
  follow_events_eq_paint reachable_openChain (by decide) brokenChain

end Sheet

end Spreadsheet
