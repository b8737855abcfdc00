import Spreadsheet.Proofs.Sheet.Listing
import Spreadsheet.Proofs.Viewport
import Spreadsheet.Window

/-!
# What a window remembers

A window answers as a viewport on its region does, whatever it was used for before: the labels that it
keeps are those of their columns, and the references that it keeps are those of the region they were
listed for. Both stay so through every use (`Window.Sound`). So what it lists is what it contains, and
what it shows of a sheet is what the sheet lists of it.
-/

namespace Spreadsheet

/-! ### Labels -/

namespace Column.Labels

variable {α β : Type}

/-- Each label that has been written is the one of its column. -/
def Sound (labels : Labels) : Prop := ∀ index label, labels[index]? = some label → label = Column.label index

/-- Whatever labels have been written, the action gives this value, and it writes none but right ones. -/
def Gives (action : StateM Labels α) (a : α) : Prop :=
  ∀ labels : Labels, labels.Sound → (action.run labels).1 = a ∧ Sound (action.run labels).2

theorem sound_empty : Sound ∅ := by
  intro index label h
  simp at h

theorem gives_pure (a : α) : Gives (pure a) a := fun _ h => ⟨rfl, h⟩

theorem Gives.bind {action : StateM Labels α} {next : α → StateM Labels β} {a : α} {b : β}
    (h : Gives action a) (hnext : Gives (next a) b) : Gives (action >>= next) b := by
  intro labels hlabels
  obtain ⟨hvalue, hsound⟩ := h labels hlabels
  rw [← hvalue] at hnext
  exact hnext _ hsound

/-- A label is the same whether it is looked up or written. -/
theorem gives_label (index : Nat) : Gives (label index) (Column.label index) := by
  intro labels hlabels
  simp only [label, StateT.run_bind, StateT.run_get, pure_bind]
  cases hlookup : labels[index]? with
  | some written => exact ⟨hlabels index written hlookup, hlabels⟩
  | none =>
    refine ⟨rfl, fun index' written h => ?_⟩
    change (labels.insert index (Column.label index))[index']? = some written at h
    rw [Std.ExtTreeMap.getElem?_insert] at h
    split at h
    · rename_i heq
      rw [← Std.LawfulEqCmp.eq_of_compare heq]
      exact (Option.some.inj h).symm
    · exact hlabels index' written h

theorem Gives.filterMapM {action : α → StateM Labels (Option β)} {value : α → Option β} {xs : List α}
    (h : ∀ x ∈ xs, Gives (action x) (value x)) : Gives (xs.filterMapM action) (xs.filterMap value) := by
  induction xs with
  | nil => exact gives_pure []
  | cons x xs ih =>
    obtain ⟨hx, hxs⟩ := List.forall_mem_cons.mp h
    rw [List.filterMapM_cons, List.filterMap_cons]
    refine hx.bind ?_
    cases value x with
    | none => exact ih hxs
    | some b => exact (ih hxs).bind (gives_pure _)

theorem Gives.flatMapM {action : α → StateM Labels (List β)} {value : α → List β} {xs : List α}
    (h : ∀ x ∈ xs, Gives (action x) (value x)) : Gives (xs.flatMapM action) (xs.flatMap value) := by
  induction xs with
  | nil => exact gives_pure []
  | cons x xs ih =>
    obtain ⟨hx, hxs⟩ := List.forall_mem_cons.mp h
    rw [List.flatMapM_cons, List.flatMap_cons]
    exact hx.bind ((ih hxs).bind (gives_pure _))

end Column.Labels

namespace Window

open Column.Labels (Gives gives_label gives_pure)

/-- No reference of a region is left out, since all its columns have labels. -/
theorem gives_build (region : Region) : Gives (build region) (Viewport.visible ⟨region⟩) := by
  refine Gives.flatMapM fun row hrow => ?_
  have hrow₀ := (Region.mem_span.mp hrow).1
  have hmap : (Region.span region.startColumn region.endColumn).map (Ref.ofCoordinates · row) =
      (Region.span region.startColumn region.endColumn).filterMap
        fun column => Ref.ofLabel? (Column.label column) row := by
    rw [← List.filterMap_eq_map]
    refine List.filterMap_congr fun column hcolumn => ?_
    exact (Ref.ofLabel?_label (Region.mem_span.mp hcolumn).1 hrow₀).symm
  rw [hmap]
  exact Gives.filterMapM fun column _ => (gives_label column).bind (gives_pure _)

/-! ### Windows -/

/-- What a window remembers is right. -/
structure Sound (w : Window) : Prop where
  labels : w.labels.Sound
  listed : ∀ region refs, w.listed = some (region, refs) → refs = Viewport.visible ⟨region⟩

variable {w : Window}

theorem sound_ofRegion (region : Region) : (ofRegion region).Sound := ⟨Column.Labels.sound_empty, nofun⟩

theorem Sound.relist (h : w.Sound) : w.relist.1 = w.viewport.visible ∧ w.relist.2.Sound := by
  obtain ⟨hrefs, hlabels⟩ := gives_build w.region w.labels h.labels
  refine ⟨hrefs, hlabels, fun region refs hlisted => ?_⟩
  obtain ⟨rfl, rfl⟩ := Prod.mk.inj (Option.some.inj hlisted)
  exact hrefs

theorem Sound.visible (h : w.Sound) : w.visible.1 = w.viewport.visible ∧ w.visible.2.Sound := by
  unfold Window.visible
  split
  · rename_i region refs hlisted
    split
    · rename_i hregion
      rw [h.listed region refs hlisted, hregion]
      exact ⟨rfl, h⟩
    · exact h.relist
  · exact h.relist

theorem region_visible (w : Window) : w.visible.2.region = w.region := by
  unfold visible
  split
  · split
    · rfl
    · rfl
  · rfl

theorem Sound.after (h : w.Sound) (use : Use) : (w.after use).Sound := by
  cases use with
  | setRegion region => exact ⟨h.labels, h.listed⟩
  | visible => exact h.visible.2
  | refresh s => exact h.visible.2

theorem Sound.run (h : w.Sound) (uses : List Use) : (w.run uses).Sound := by
  induction uses generalizing w with
  | nil => exact h
  | cons use uses ih => exact ih (h.after use)

/-- The region that a window has after it was used. -/
def Use.region (region : Region) : Use → Region
  | setRegion region => region
  | visible => region
  | refresh _ => region

/-- The region that was set last. -/
def lastRegion (region : Region) (uses : List Use) : Region := uses.foldl Use.region region

theorem region_after (w : Window) (use : Use) : (w.after use).region = use.region w.region := by
  cases use with
  | setRegion region => rfl
  | visible => exact region_visible w
  | refresh s => exact region_visible w

theorem region_run (w : Window) (uses : List Use) : (w.run uses).region = lastRegion w.region uses := by
  induction uses generalizing w with
  | nil => rfl
  | cons use uses ih => exact (ih (w.after use)).trans (by rw [region_after]; rfl)

end Window

end Spreadsheet
