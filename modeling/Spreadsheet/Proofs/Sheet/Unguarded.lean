import Spreadsheet.Proofs.Graph.Closure
import Spreadsheet.Proofs.Sheet.Touched

/-!
# Unguarded recalculation

Without cycles the recursion ends, as a cell has fewer transitive dependents than any cell that it
reads. On the way a cell may be computed from old values, but computing one unsettles at most the
cells that read it, and these are the ones visited next. So a visit settles its cell and unsettles
nothing in the end, whatever the order of the visits.
-/

namespace Spreadsheet

open Relation

namespace Graph

variable {g : Graph}

/-- Along an edge of an acyclic graph the closure gets smaller. -/
theorem length_closure_lt (hacyclic : Acyclic g.Edge) {q r : Ref} (hedge : g.Edge q r) :
    (g.closure r).length < (g.closure q).length := by
  have hq : q ∉ g.closure r := by
    rw [mem_closure]
    exact fun hwalk => hacyclic q (TransGen.head' hedge hwalk)
  have hnodup : (q :: g.closure r).Nodup := List.nodup_cons.mpr ⟨hq, g.nodup_closure r⟩
  have hsubset : q :: g.closure r ⊆ g.closure q := by
    intro x hx
    rw [mem_closure]
    rcases List.mem_cons.mp hx with rfl | hx
    · exact ReflTransGen.refl
    · exact (mem_closure.mp hx).head hedge
  exact (List.subperm_of_subset hnodup hsubset).length_le

theorem length_closure_pos (g : Graph) (r : Ref) : 0 < (g.closure r).length :=
  List.length_pos_of_mem (mem_closure.mpr ReflTransGen.refl)

/-- Apart from the start the closure holds stored cells only. -/
theorem length_closure_le {cells : Grid} (hcoherent : g.Coherent cells) (r : Ref) :
    (g.closure r).length ≤ cells.size + 1 := by
  have hsubset : g.closure r ⊆ r :: cells.keys := by
    intro x hx
    rcases ReflTransGen.cases_tail (mem_closure.mp hx) with rfl | ⟨q, -, hedge⟩
    · exact List.mem_cons_self
    · have hstored := ((hcoherent q x).mp hedge).mem
      exact List.mem_cons_of_mem r (Std.ExtTreeMap.mem_keys.mpr hstored)
  have hle := (List.subperm_of_subset (g.nodup_closure r) hsubset).length_le
  rwa [List.length_cons, Std.ExtTreeMap.length_keys] at hle

end Graph

namespace Progress

variable {g : Graph} {p q : Progress} {r : Ref}

/-- A visit of a cell: it is computed again, and then what reads it is recalculated. -/
def visit? (g : Graph) (depth : Nat) (p : Progress) (r : Ref) : Option Progress :=
  match p.recompute? r with
  | some p => propagateUnguarded? g depth p r
  | none => some p

theorem propagateUnguarded?_succ (g : Graph) (depth : Nat) (p : Progress) (r : Ref) :
    propagateUnguarded? g (depth + 1) p r = (g.dependents r).foldlM (visit? g depth) p := rfl

theorem visit?_of_mem (hr : r ∈ p.cells) (depth : Nat) :
    visit? g depth p r = propagateUnguarded? g depth (p.recompute r) r := by
  obtain ⟨c, hc⟩ := Grid.exists_of_mem hr
  rw [visit?, recompute, recompute?_of_some hc]
  rfl

theorem visit?_of_not_mem (hr : r ∉ p.cells) (depth : Nat) : visit? g depth p r = some p := by
  rw [visit?, recompute?_of_none (Std.ExtTreeMap.getElem?_eq_none hr)]

/-- A recalculation that ends within some depth ends in the same way with more. -/
theorem propagateUnguarded?_succ_of_some {depth : Nat} (h : propagateUnguarded? g depth p r = some q) :
    propagateUnguarded? g (depth + 1) p r = some q := by
  induction depth generalizing p r q with
  | zero => cases h
  | succ depth ih =>
    rw [propagateUnguarded?_succ] at h ⊢
    have hvisit : ∀ p q x, visit? g depth p x = some q → visit? g (depth + 1) p x = some q := by
      intro p q x hx
      unfold visit? at hx ⊢
      split at hx
      · exact ih hx
      · exact hx
    generalize g.dependents r = rs at h ⊢
    induction rs generalizing p with
    | nil => exact h
    | cons x rest ih =>
      rw [List.foldlM_cons] at h ⊢
      obtain ⟨p', hx, hrest⟩ := Option.bind_eq_some_iff.mp h
      rw [hvisit p p' x hx]
      exact ih hrest

theorem propagateUnguarded?_of_le {depth depth' : Nat} (hle : depth ≤ depth')
    (h : propagateUnguarded? g depth p r = some q) : propagateUnguarded? g depth' p r = some q := by
  induction hle with
  | refl => exact h
  | step _ ih => exact propagateUnguarded?_succ_of_some ih

/-- A recalculation that ends has changed nothing that was entered, cycles or not. -/
theorem keeps_propagateUnguarded? {depth : Nat} (h : propagateUnguarded? g depth p r = some q) :
    Keeps p q := by
  induction depth generalizing p r q with
  | zero => cases h
  | succ depth ih =>
    rw [propagateUnguarded?_succ] at h
    have hvisit : ∀ p q x, visit? g depth p x = some q → Keeps p q := by
      intro p q x hx
      by_cases hmem : x ∈ p.cells
      · rw [visit?_of_mem hmem] at hx
        exact (keeps_recompute p x).trans (ih hx)
      · rw [visit?_of_not_mem hmem] at hx
        exact Option.some.inj hx ▸ Keeps.refl p
    generalize g.dependents r = rs at h
    induction rs generalizing p with
    | nil => exact Option.some.inj h ▸ Keeps.refl p
    | cons x rest ihRest =>
      rw [List.foldlM_cons] at h
      obtain ⟨p', hx, hrest⟩ := Option.bind_eq_some_iff.mp h
      exact (hvisit p p' x hx).trans (ihRest hrest)

end Progress

/-! ### What visits settle -/

namespace Progress

variable {g : Graph} {p p' q : Progress} {r : Ref} {rs : List Ref}

/-- What holds after visits of some cells: they are settled, and nothing was unsettled; touched were
these cells and all that reads them. -/
structure Swept (g : Graph) (p : Progress) (rs : List Ref) (q : Progress) : Prop where
  contents : q.cells.contents = p.cells.contents
  fitsTexts : q.cells.FitsTexts
  settled : ∀ x, x ∈ rs ∨ p.cells.SettledAt x → q.cells.SettledAt x
  mem_touched : ∀ x, x ∈ q.touched ↔ x ∈ p.touched ∨ ∃ r ∈ rs, ReflTransGen g.Edge r x
  suffix : p.touched <:+ q.touched

theorem Swept.nil (hfits : p.cells.FitsTexts) : Swept g p [] p :=
  ⟨rfl, hfits, fun _ hx => hx.resolve_left List.not_mem_nil, by simp, List.suffix_rfl⟩

theorem Swept.cons (h : Swept g p [r] p') (h' : Swept g p' rs q) : Swept g p (r :: rs) q := by
  refine ⟨h'.contents.trans h.contents, h'.fitsTexts, fun x hx => h'.settled x ?_, fun x => ?_,
    h.suffix.trans h'.suffix⟩
  · rcases hx with hx | hx
    · rcases List.mem_cons.mp hx with rfl | hx
      · exact Or.inr (h.settled x (Or.inl List.mem_cons_self))
      · exact Or.inl hx
    · exact Or.inr (h.settled x (Or.inr hx))
  · rw [h'.mem_touched, h.mem_touched]
    simp only [List.mem_cons, List.not_mem_nil, or_false, exists_eq_left, exists_eq_or_imp, or_assoc]

theorem Swept.keeps (h : Swept g p rs q) : Keeps p q := ⟨h.contents, fun _ => h.fitsTexts⟩

/-- Computing a cell and then visiting what reads it is a visit of the cell. -/
theorem Swept.of_recompute (hfits : p.cells.FitsTexts) (hcoherent : g.Coherent p.cells)
    (hacyclic : Acyclic g.Edge) (hr : r ∈ p.cells)
    (h : Swept g (p.recompute r) (g.dependents r) q) : Swept g p [r] q := by
  obtain ⟨c, hc⟩ := Grid.exists_of_mem hr
  refine ⟨h.contents.trans (contents_recompute p r), h.fitsTexts, fun x hx => ?_, fun x => ?_,
    (suffix_touched_recompute p r).trans h.suffix⟩
  · by_cases hxr : x = r
    · subst hxr
      have hself : x ∉ Cell.precedentsOf c.raw := by
        intro hmem
        rw [← (hfits x c hc).dependencies_eq] at hmem
        exact hacyclic x (TransGen.single ((hcoherent x x).mpr ⟨c, hc, hmem⟩))
      obtain ⟨c', hc', -, hsettled⟩ := settled_recompute hc hself
      refine h.settled x (Or.inr fun c₂ hc₂ => ?_)
      obtain rfl := Option.some.inj (hc'.symm.trans hc₂)
      exact hsettled
    · have hbefore := hx.resolve_left (mt List.mem_singleton.mp hxr)
      by_cases hedge : g.Edge r x
      · exact h.settled x (Or.inl (Graph.mem_dependents.mpr hedge))
      · refine h.settled x (Or.inr fun c₂ hc₂ => ?_)
        rw [getElem?_recompute_of_ne hxr] at hc₂
        refine (hbefore c₂ hc₂).congr fun d hd => getElem?_recompute_of_ne ?_
        intro heq
        subst heq
        exact hedge ((hcoherent d x).mpr ⟨c₂, hc₂, hd⟩)
  · rw [h.mem_touched, touched_recompute hc, List.mem_cons]
    simp only [Graph.mem_dependents, List.mem_singleton, exists_eq_left]
    rw [ReflTransGen.cases_head_iff (a := r), eq_comm (a := x), or_assoc, or_left_comm]

/-- Without cycles the recalculation ends, and it settles all that reads the edited cell. -/
theorem exists_swept (hacyclic : Acyclic g.Edge) {depth : Nat} (hfits : p.cells.FitsTexts)
    (hcoherent : g.Coherent p.cells) (hdepth : (g.closure r).length ≤ depth) :
    ∃ q, propagateUnguarded? g depth p r = some q ∧ Swept g p (g.dependents r) q := by
  induction depth generalizing p r with
  | zero =>
    have hpos := g.length_closure_pos r
    omega
  | succ depth ih =>
    rw [propagateUnguarded?_succ]
    have hedges : ∀ x ∈ g.dependents r, g.Edge r x := fun x hx => Graph.mem_dependents.mp hx
    generalize g.dependents r = rs at hedges
    induction rs generalizing p with
    | nil => exact ⟨p, rfl, Swept.nil hfits⟩
    | cons x rest ihRest =>
      have hedge := hedges x List.mem_cons_self
      have hx := ((hcoherent r x).mp hedge).mem
      have hlt := Graph.length_closure_lt hacyclic hedge
      obtain ⟨p', hvisit, hswept⟩ := ih (r := x) (fitsTexts_recompute hfits x)
        ((keeps_recompute p x).coherent hfits hcoherent) (by omega)
      have hfirst := Swept.of_recompute hfits hcoherent hacyclic hx hswept
      obtain ⟨q, hrest, hswept'⟩ := ihRest hfirst.fitsTexts (hfirst.keeps.coherent hfits hcoherent)
        fun y hy => hedges y (List.mem_cons_of_mem x hy)
      refine ⟨q, ?_, hfirst.cons hswept'⟩
      rw [List.foldlM_cons, visit?_of_mem hx, hvisit]
      exact hrest

end Progress

end Spreadsheet
