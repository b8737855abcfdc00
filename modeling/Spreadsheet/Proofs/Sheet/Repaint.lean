import Spreadsheet.Proofs.Sheet.Screen
import Spreadsheet.Proofs.Window

/-!
# Repainting a region

A region of a sheet can be repainted in two ways: by listing the references of the region and looking
each of them up, or by listing the stored cells and looking which of them are in the region. Both go
row by row, and references with a column and a row are told apart by these, so both come to the same
list. A window takes the first way, with what it remembers, and what is proved of a repaint holds of a
window through `Window.Sound.refresh`: also that a client need not repaint it again.
-/

namespace Spreadsheet

variable {v : Viewport} {r : Ref}

namespace Grid

theorem mem_map_inOrder {cells : Grid} : r ∈ cells.inOrder.map Prod.fst ↔ r ∈ cells := by
  rw [(cells.perm_inOrder.map Prod.fst).mem_iff, Std.ExtTreeMap.map_fst_toList_eq_keys,
    Std.ExtTreeMap.mem_keys]

/-- Stored cells that are in a region are told apart by their columns and rows. -/
theorem pairwise_shown (cells : Grid) (v : Viewport) :
    ((cells.inOrder.map Prod.fst).filter v.contains).Pairwise Ref.Precedes := by
  rw [List.pairwise_filter, List.pairwise_map]
  refine cells.pairwise_inOrder.imp fun hab ha hb => ?_
  refine Ref.sortKey_lt_of_readsBefore hab.1 fun hkey => hab.2 ?_
  obtain ⟨column, row, hcolumn, hrow, -⟩ := Viewport.contains_iff.mp ha
  obtain ⟨column', row', hcolumn', hrow', -⟩ := Viewport.contains_iff.mp hb
  simp only [Ref.sortKey, hcolumn, hrow, hcolumn', hrow', Option.getD_some, Prod.mk.injEq] at hkey
  rw [Ref.eq_ofCoordinates hcolumn hrow, Ref.eq_ofCoordinates hcolumn' hrow', hkey.1, hkey.2]

/-- The references of a region that are stored are the stored ones that are in the region. -/
theorem filter_visible (cells : Grid) (hfits : v.region.Fits) :
    v.visible.filter (cells.contains ·) = (cells.inOrder.map Prod.fst).filter v.contains := by
  apply List.Pairwise.eq_of_mem_iff (r := Ref.Precedes)
  · exact (Viewport.pairwise_visible hfits).filter _
  · exact cells.pairwise_shown v
  · intro r
    rw [List.mem_filter, List.mem_filter, mem_map_inOrder, Viewport.contains_iff_mem_visible hfits,
      Std.ExtTreeMap.contains_iff_mem, and_comm]

end Grid

/-- A repaint lists the stored cells that the viewport contains, in the order of the sheet. -/
theorem Sheet.repaint_eq (s : Sheet) (hfits : v.region.Fits) :
    s.repaint v = (s.snapshots.filter (v.contains ·.reference)).map (s.change ·.reference) := by
  rw [repaint, Grid.filter_visible s.cells hfits, snapshots_eq, List.filter_map, List.filter_map,
    List.map_map, List.map_map]
  rfl

namespace Window

variable {w : Window} {region : Region}

theorem Sound.refresh (h : w.Sound) (s : Sheet) : (s.refresh w).1 = s.repaint w.viewport := by
  show (w.visible.1.filter (s.cells.contains ·)).map s.change = _
  rw [h.visible.1]
  rfl

/-- A window shows a region: it lists the references of the region and no others, each of them once, row
by row, it contains what it lists, and it repaints the stored cells that it contains, in the order of the
sheet. -/
structure Shows (w : Window) (region : Region) : Prop where
  mem_visible : ∀ r, r ∈ w.visible.1 ↔ ∃ column row, r.column = some column ∧ r.row = some row ∧
    column ≠ 0 ∧ row ≠ 0 ∧ region.contains column row
  increasing : w.visible.1.Pairwise Ref.Precedes
  contains_iff : ∀ r, w.contains r ↔ r ∈ w.visible.1
  refresh_eq : ∀ s : Sheet, (s.refresh w).1 =
    (s.snapshots.filter (w.contains ·.reference)).map (s.change ·.reference)

theorem Sound.shows (h : w.Sound) (hfits : w.region.Fits) : w.Shows w.region := by
  have hvisible := h.visible.1
  refine ⟨fun r => ?_, hvisible ▸ Viewport.pairwise_visible hfits, fun r => ?_, fun s => ?_⟩
  · rw [hvisible, ← Viewport.contains_iff_mem_visible hfits, Viewport.contains_iff]
    simp only [Region.mem_span, Region.contains, Bool.and_eq_true, decide_eq_true_eq]
    grind [viewport]
  · rw [hvisible, ← Viewport.contains_iff_mem_visible hfits]
    rfl
  · rw [h.refresh, s.repaint_eq hfits]
    rfl

/-- The ends of a region that is set are numbers that a column and a row can have. -/
def Use.Fits : Use → Prop
  | setRegion region => region.Fits
  | visible => True
  | refresh _ => True

theorem fits_lastRegion {uses : List Use} (hregion : region.Fits) (huses : ∀ use ∈ uses, use.Fits) :
    (lastRegion region uses).Fits := by
  induction uses generalizing region with
  | nil => exact hregion
  | cons use uses ih =>
    obtain ⟨huse, huses⟩ := List.forall_mem_cons.mp huses
    refine ih ?_ huses
    cases use with
    | setRegion region => exact huse
    | visible => exact hregion
    | refresh s => exact hregion

/-- However a window was used, it shows the region that was set last, whatever it remembers of others. -/
theorem shows_lastRegion {uses : List Use} (hregion : region.Fits) (huses : ∀ use ∈ uses, use.Fits) :
    ((ofRegion region).run uses).Shows (lastRegion region uses) := by
  have hlast : ((ofRegion region).run uses).region = lastRegion region uses := region_run _ uses
  rw [← hlast]
  refine ((sound_ofRegion region).run uses).shows ?_
  rw [hlast]
  exact fits_lastRegion hregion huses

/-- Regions that are empty, that touch the headers or that were shown before. -/
def scrolled (s : Sheet) : List Use :=
  [.visible, .setRegion ⟨3, 1, 1, 1⟩, .refresh s, .setRegion ⟨0, 2, 0, maxIndex⟩, .setRegion ⟨26, 27, 5, 5⟩,
    .visible, .refresh s]

theorem shows_lastRegion_of_scrolled :
    ((ofRegion {}).run (scrolled Sheet.openChain)).Shows ⟨26, 27, 5, 5⟩ := by
  refine shows_lastRegion (by decide) ?_
  simp [scrolled, Use.Fits]
  decide

/-! ### Following what a window shows -/

theorem Sound.shows_refresh (h : w.Sound) (s : Sheet) (hfits : w.region.Fits) :
    s.Shows w.viewport (Screen.paint (s.refresh w).1) := by
  rw [h.refresh]
  exact s.shows_repaint hfits

/-- A client that repaints a window once and follows the observer from then on shows what another
repaint would show, after any calls. In between the window may be used for anything, also to show other
regions, if it comes back to this one. -/
theorem Sound.follow_events_eq_refresh (h : w.Sound) (hfits : w.region.Fits) {s : Sheet}
    (hreachable : s.Reachable) (calls : List Call) {uses : List Use}
    (hback : lastRegion w.region uses = w.region) :
    (Screen.paint (s.refresh w).1).follow ((s.observe w.contains).events calls) =
      Screen.paint (((s.observe w.contains).run calls).refresh (w.run uses)).1 := by
  have hregion : (w.run uses).region = w.region := (region_run w uses).trans hback
  have hviewport : (w.run uses).viewport = w.viewport := by rw [viewport, hregion, viewport]
  have hfollowed := (h.shows_refresh s hfits).run_observe hreachable calls
  have hafresh := (h.run uses).shows_refresh ((s.observe w.contains).run calls) (hregion ▸ hfits)
  rw [hviewport] at hafresh
  exact hfollowed.eq hafresh

end Window

end Spreadsheet
