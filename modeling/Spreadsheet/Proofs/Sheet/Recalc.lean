import Spreadsheet.Proofs.Graph.Closure
import Spreadsheet.Proofs.Graph.Order
import Spreadsheet.Proofs.Sheet.Progress

/-!
# Recalculation makes a grid consistent

`Edited` says in what state an edit leaves a sheet before it is recalculated: all is as it was in a
consistent grid, but for the edited cell, which is settled there. Recalculation with cycle detection
leads from there to a consistent grid again. What is not affected cannot lead to the edited cell, so
it is right from the start; what is taken becomes right because all that it reads is right by then;
and what is stuck lies on a cycle or behind one, so that its mark is right.
-/

namespace Spreadsheet

open Relation

/-- The graph has an edge exactly where a stored cell reads a precedent. -/
def Graph.Coherent (g : Graph) (cells : Grid) : Prop := ∀ q r, g.Edge q r ↔ cells.Reads r q

namespace Graph.Coherent

variable {g : Graph} {cells : Grid} {q r : Ref}

theorem edge_eq (h : g.Coherent cells) : g.Edge = Function.swap cells.Reads := by
  ext q r
  exact h q r

theorem walk_iff (h : g.Coherent cells) : ReflTransGen g.Edge q r ↔ ReflTransGen cells.Reads r q := by
  rw [h.edge_eq, reflTransGen_swap]

/-- What reads another cell, directly or not, is stored. -/
theorem mem_of_walk (h : g.Coherent cells) (hwalk : TransGen g.Edge q r) : r ∈ cells := by
  obtain ⟨y, -, hedge⟩ := TransGen.tail'_iff.mp hwalk
  exact ((h y r).mp hedge).mem

theorem acyclic_iff (h : g.Coherent cells) : Acyclic g.Edge ↔ Acyclic cells.Reads := by
  refine forall_congr' fun x => not_congr ?_
  rw [h.edge_eq, transGen_swap]

end Graph.Coherent

theorem Progress.Keeps.coherent {p q : Progress} {g : Graph} (h : Keeps p q)
    (hfits : p.cells.FitsTexts) (hcoherent : g.Coherent p.cells) : g.Coherent q.cells := by
  intro a b
  rw [h.reads_eq hfits]
  exact hcoherent a b

/-- The state of a grid and a graph after an edit of `origin` and before the recalculation. -/
structure Edited (old cells : Grid) (g : Graph) (origin : Ref) : Prop where
  consistent : old.Consistent
  others : ∀ r, r ≠ origin → cells[r]? = old[r]?
  settled : ∀ c, cells[origin]? = some c → old.Settled c
  coherent : g.Coherent cells

namespace Progress

variable {old : Grid} {p : Progress} {g : Graph} {origin : Ref}

theorem mem_affected {r : Ref} :
    r ∈ p.affected g origin ↔ ReflTransGen g.Edge origin r ∧ r ∈ p.cells := by
  rw [affected, List.mem_filter, Graph.mem_closure, Std.ExtTreeMap.contains_iff_mem]

theorem nodup_affected (p : Progress) (g : Graph) (origin : Ref) : (p.affected g origin).Nodup :=
  (g.nodup_closure origin).filter _

end Progress

namespace Edited

variable {old : Grid} {p : Progress} {g : Graph} {origin : Ref}

theorem fitsTexts (h : Edited old p.cells g origin) : p.cells.FitsTexts := by
  intro r c hc
  by_cases hr : r = origin
  · subst hr
    exact (h.settled c hc).fitsText
  · rw [h.others r hr] at hc
    exact h.consistent.fitsTexts r c hc

/-- What reads an affected cell is affected. -/
theorem mem_affected_of_reads (h : Edited old p.cells g origin) {r d : Ref}
    (hd : d ∈ p.affected g origin) (hreads : p.cells.Reads r d) : r ∈ p.affected g origin := by
  rw [Progress.mem_affected] at hd ⊢
  exact ⟨hd.1.tail ((h.coherent d r).mpr hreads), hreads.mem⟩

/-- From a stored origin every affected cell is reached without leaving the affected ones. -/
theorem walk_within (h : Edited old p.cells g origin) (horigin : origin ∈ p.affected g origin)
    {r : Ref} (hr : r ∈ p.affected g origin) :
    ReflTransGen (g.EdgeWithin (p.affected g origin)) origin r := by
  have hwalk := (Progress.mem_affected.mp hr).1
  clear hr
  suffices hboth : r ∈ p.affected g origin ∧
      ReflTransGen (g.EdgeWithin (p.affected g origin)) origin r from hboth.2
  induction hwalk with
  | refl => exact ⟨horigin, ReflTransGen.refl⟩
  | @tail q r _ hedge ih =>
    have hr := h.mem_affected_of_reads ih.1 ((h.coherent q r).mp hedge)
    exact ⟨hr, ih.2.tail ⟨ih.1, hr, hedge⟩⟩

/-- What is not affected is right before anything is recalculated. -/
theorem right_of_not_mem (h : Edited old p.cells g origin) {r : Ref}
    (hr : r ∉ p.affected g origin) : p.cells.Right r := by
  intro c hc
  have hstored := Grid.mem_of_some hc
  have hfar : ∀ y, ReflTransGen p.cells.Reads r y → y ≠ origin := by
    intro y hwalk heq
    subst heq
    exact hr (Progress.mem_affected.mpr ⟨h.coherent.walk_iff.mpr hwalk, hstored⟩)
  have hsame : ∀ y, ReflTransGen p.cells.Reads r y → p.cells[y]? = old[y]? := fun y hwalk =>
    h.others y (hfar y hwalk)
  obtain ⟨hsettled, hmark⟩ := h.consistent r c ((hsame r ReflTransGen.refl).symm.trans hc)
  refine ⟨hsettled.congr fun d hd => hsame d (ReflTransGen.single ⟨c, hc, hd⟩), hmark.trans ?_⟩
  refine (leadsToCycle_congr fun y hwalk z => ?_).symm
  rw [Grid.Reads, Grid.Reads, hsame y hwalk]

end Edited

/-! ### Taking the affected cells -/

namespace Progress

/-- The cells that are taken, the last one first, are computed again in order, but for the edited
one. -/
def retake (p : Progress) (origin : Ref) (taken : List Ref) : Progress :=
  (taken.filter (· != origin)).foldr (fun r p => p.recompute r) p

theorem retake_nil (p : Progress) (origin : Ref) : p.retake origin [] = p := rfl

theorem retake_cons (p : Progress) (origin r : Ref) (taken : List Ref) :
    p.retake origin (r :: taken) =
      if r = origin then p.retake origin taken else (p.retake origin taken).recompute r := by
  unfold retake
  by_cases hr : r = origin <;> simp [hr]

theorem keeps_retake (p : Progress) (origin : Ref) (taken : List Ref) :
    Keeps p (p.retake origin taken) := by
  induction taken with
  | nil => exact Keeps.refl p
  | cons r rest ih =>
    rw [retake_cons]
    split
    · exact ih
    · exact ih.trans (keeps_recompute _ r)

variable {old : Grid} {p : Progress} {g : Graph} {origin : Ref}

/-- What holds after some cells were taken: nothing but those was changed, and they are right now, as
is what is not affected. -/
structure Retaken (p : Progress) (g : Graph) (origin : Ref) (taken : List Ref) (q : Progress) :
    Prop where
  contents : q.cells.contents = p.cells.contents
  fitsTexts : q.cells.FitsTexts
  untouched : ∀ r, r ∉ taken ∨ r = origin → q.cells[r]? = p.cells[r]?
  right : ∀ r, r ∈ taken ∨ r ∉ p.affected g origin → q.cells.Right r

theorem Retaken.reads_eq {taken : List Ref} {q : Progress} (h : Retaken p g origin taken q)
    (hedit : Edited old p.cells g origin) : q.cells.Reads = p.cells.Reads :=
  Grid.reads_eq_of_contents h.fitsTexts hedit.fitsTexts h.contents

theorem Retaken.start (hedit : Edited old p.cells g origin) : Retaken p g origin [] p :=
  ⟨rfl, hedit.fitsTexts, fun _ _ => rfl, fun _ hr =>
    hedit.right_of_not_mem (hr.resolve_left List.not_mem_nil)⟩

/-- Taking the edited cell leaves it as it is, and it is right already: it would lie on a cycle if
it read an affected cell. -/
theorem Retaken.right_origin {taken : List Ref} {q : Progress} (h : Retaken p g origin taken q)
    (hedit : Edited old p.cells g origin) (horigin : origin ∈ p.affected g origin)
    (hmem : ∀ r ∈ taken, r ∈ p.affected g origin)
    (hlegal : g.Legal (p.affected g origin) (origin :: taken)) : q.cells.Right origin := by
  intro c hc
  have hcell : p.cells[origin]? = some c := (h.untouched origin (Or.inr rfl)) ▸ hc
  have hfree : ∀ d ∈ c.dependencies, d ∉ p.affected g origin := by
    intro d hd haffected
    have hedge := (hedit.coherent d origin).mpr ⟨c, hcell, hd⟩
    refine hlegal.not_cycle List.mem_cons_self (TransGen.tail'_iff.mpr ⟨d, ?_, ?_⟩)
    · exact hedit.walk_within horigin haffected
    · exact ⟨haffected, horigin, hedge⟩
  have hsame : ∀ d ∈ c.dependencies, q.cells[d]? = old[d]? := by
    intro d hd
    rw [h.untouched d (Or.inl fun hd' => hfree d hd (hmem d hd'))]
    exact hedit.others d fun heq => hfree d hd (heq ▸ horigin)
  refine Grid.right_of_settled hc ((hedit.settled c hcell).congr hsame) ?_ c hc
  exact fun d hd => h.right d (Or.inr (hfree d hd))

theorem Retaken.cons_origin {taken : List Ref} {q : Progress} (h : Retaken p g origin taken q)
    (hedit : Edited old p.cells g origin)
    (hmem : ∀ x ∈ origin :: taken, x ∈ p.affected g origin)
    (hlegal : g.Legal (p.affected g origin) (origin :: taken)) :
    Retaken p g origin (origin :: taken) q := by
  refine ⟨h.contents, h.fitsTexts, fun x hx => h.untouched x ?_, fun x hx => ?_⟩
  · exact hx.imp_left (mt (List.mem_cons_of_mem origin))
  · by_cases horigin : x = origin
    · subst horigin
      exact h.right_origin hedit (hmem x List.mem_cons_self)
        (fun y hy => hmem y (List.mem_cons_of_mem x hy)) hlegal
    · exact h.right x (hx.imp_left fun hx' => (List.mem_cons.mp hx').resolve_left horigin)

/-- Taking a cell leaves right what was right: nothing of it reads the cell. -/
theorem Retaken.right_recompute_of_ne {taken : List Ref} {q : Progress} {r x : Ref}
    (h : Retaken p g origin taken q) (hedit : Edited old p.cells g origin)
    (hmem : ∀ x ∈ r :: taken, x ∈ p.affected g origin) (hnodup : (r :: taken).Nodup)
    (hlegal : g.Legal (p.affected g origin) taken) (hxr : x ≠ r)
    (hx : x ∈ taken ∨ x ∉ p.affected g origin) : (q.recompute r).cells.Right x := by
  have hr := hmem r List.mem_cons_self
  refine (h.right x hx).congr (reads_recompute h.fitsTexts r) (getElem?_recompute_of_ne hxr) ?_
  intro d hd
  rw [h.reads_eq hedit] at hd
  refine getElem?_recompute_of_ne ?_
  intro heq
  subst heq
  rcases hx with hx | hx
  · have hedge := (hedit.coherent d x).mpr hd
    have hx' := hmem x (List.mem_cons_of_mem d hx)
    exact (List.nodup_cons.mp hnodup).1 (hlegal.mem_of_edge hx ⟨hr, hx', hedge⟩)
  · exact hx (hedit.mem_affected_of_reads hr hd)

/-- The cell that is taken becomes right, as all that it reads is right by then. -/
theorem Retaken.right_recompute_self {taken : List Ref} {q : Progress} {r : Ref}
    (h : Retaken p g origin taken q) (hedit : Edited old p.cells g origin)
    (hmem : ∀ x ∈ r :: taken, x ∈ p.affected g origin) (hnodup : (r :: taken).Nodup)
    (hlegal : g.Legal (p.affected g origin) (r :: taken)) : (q.recompute r).cells.Right r := by
  have hr := hmem r List.mem_cons_self
  have hfresh := (List.nodup_cons.mp hnodup).1
  obtain ⟨c, hc⟩ : ∃ c, q.cells[r]? = some c := by
    rw [h.untouched r (Or.inl hfresh)]
    exact Grid.exists_of_mem (mem_affected.mp hr).2
  have hedges : ∀ d ∈ Cell.precedentsOf c.raw, g.Edge d r := by
    intro d hd
    rw [hedit.coherent, ← h.reads_eq hedit]
    exact ⟨c, hc, (h.fitsTexts r c hc).dependencies_eq ▸ hd⟩
  have hself : r ∉ Cell.precedentsOf c.raw := fun hd => hfresh (hlegal.1 r hr (hedges r hd))
  obtain ⟨c', hc', hdeps, hsettled⟩ := settled_recompute hc hself
  refine Grid.right_of_settled hc' hsettled fun d hd => ?_
  rw [hdeps] at hd
  refine h.right_recompute_of_ne hedit hmem hnodup hlegal.2 (fun heq => hself (heq ▸ hd)) ?_
  by_cases haffected : d ∈ p.affected g origin
  · exact Or.inl (hlegal.1 d haffected (hedges d hd))
  · exact Or.inr haffected

theorem Retaken.cons_of_ne {taken : List Ref} {q : Progress} {r : Ref}
    (h : Retaken p g origin taken q) (hedit : Edited old p.cells g origin)
    (hmem : ∀ x ∈ r :: taken, x ∈ p.affected g origin) (hnodup : (r :: taken).Nodup)
    (hlegal : g.Legal (p.affected g origin) (r :: taken)) (horigin : r ≠ origin) :
    Retaken p g origin (r :: taken) (q.recompute r) := by
  refine ⟨?_, fitsTexts_recompute h.fitsTexts r, fun x hx => ?_, fun x hx => ?_⟩
  · rw [contents_recompute, h.contents]
  · have hxr : x ≠ r := by
      intro heq
      subst heq
      exact hx.elim (fun hx' => hx' List.mem_cons_self) horigin
    rw [getElem?_recompute_of_ne hxr]
    exact h.untouched x (hx.imp_left (mt (List.mem_cons_of_mem r)))
  · by_cases hxr : x = r
    · subst hxr
      exact h.right_recompute_self hedit hmem hnodup hlegal
    · exact h.right_recompute_of_ne hedit hmem hnodup hlegal.2 hxr
        (hx.imp_left fun hx' => (List.mem_cons.mp hx').resolve_left hxr)

theorem retaken_retake (hedit : Edited old p.cells g origin) {taken : List Ref}
    (hmem : ∀ x ∈ taken, x ∈ p.affected g origin) (hnodup : taken.Nodup)
    (hlegal : g.Legal (p.affected g origin) taken) :
    Retaken p g origin taken (p.retake origin taken) := by
  induction taken with
  | nil => exact Retaken.start hedit
  | cons r earlier ih =>
    have hearlier := ih (fun x hx => hmem x (List.mem_cons_of_mem r hx))
      (List.nodup_cons.mp hnodup).2 hlegal.2
    rw [retake_cons]
    by_cases horigin : r = origin
    · subst horigin
      rw [if_pos rfl]
      exact hearlier.cons_origin hedit hmem hlegal
    · rw [if_neg horigin]
      exact hearlier.cons_of_ne hedit hmem hnodup hlegal horigin

/-! ### Marking what is stuck -/

/-- The affected cells that are never taken. -/
def stuck (p : Progress) (g : Graph) (origin : Ref) : List Ref :=
  let affected := p.affected g origin
  affected.filter (!(Std.ExtTreeSet.ofList (g.order affected) compare).contains ·)

theorem mem_stuck {r : Ref} : r ∈ p.stuck g origin ↔
    r ∈ p.affected g origin ∧ r ∉ g.order (p.affected g origin) := by
  rw [stuck, List.mem_filter, Std.ExtTreeSet.contains_ofList]
  simp

theorem fst_propagate (p : Progress) (g : Graph) (origin : Ref) :
    (p.propagate g origin).1 = (p.stuck g origin).foldl markCyclic
      (p.retake origin (g.order (p.affected g origin)).reverse) := by
  rw [retake, List.filter_reverse, List.foldr_reverse]
  unfold propagate
  extract_lets affected order ordered stuck p₁ p₂
  split <;> rfl

theorem snd_propagate (p : Progress) (g : Graph) (origin : Ref) :
    (p.propagate g origin).2 =
      if p.stuck g origin = [] ∨ origin ∈ g.order (p.affected g origin) then none
      else (p.propagate g origin).1.cells.findCycle origin := by
  unfold propagate
  extract_lets affected order ordered stuck p₁ p₂
  have hordered : ordered.contains origin = true ↔ origin ∈ order := by
    rw [Std.ExtTreeSet.contains_ofList, List.contains_iff_mem]
  have hiff : (stuck.isEmpty || ordered.contains origin) = true ↔ stuck = [] ∨ origin ∈ order := by
    rw [Bool.or_eq_true, List.isEmpty_iff, hordered]
  by_cases hnone : stuck = [] ∨ origin ∈ order
  · rw [if_pos (hiff.mpr hnone)]
    exact (if_pos hnone).symm
  · rw [if_neg (mt hiff.mp hnone)]
    exact (if_neg hnone).symm

theorem retaken_order (hedit : Edited old p.cells g origin) :
    Retaken p g origin (g.order (p.affected g origin)).reverse
      (p.retake origin (g.order (p.affected g origin)).reverse) := by
  have haffected := nodup_affected p g origin
  refine retaken_retake hedit (fun x hx => ?_) ?_ (Graph.legal_order haffected)
  · rw [List.mem_reverse, Graph.mem_order_iff haffected] at hx
    exact hx.1
  · exact List.nodup_reverse.mpr (Graph.nodup_order haffected)

theorem keeps_propagate (p : Progress) (g : Graph) (origin : Ref) :
    Keeps p (p.propagate g origin).1 := by
  rw [fst_propagate]
  exact (keeps_retake p origin _).trans (keeps_foldl_markCyclic _ _)

theorem reads_propagate (hedit : Edited old p.cells g origin) :
    (p.propagate g origin).1.cells.Reads = p.cells.Reads :=
  (keeps_propagate p g origin).reads_eq hedit.fitsTexts

theorem getElem?_of_not_mem_stuck {x : Ref} (hx : x ∉ p.stuck g origin) :
    (p.propagate g origin).1.cells[x]? =
      (p.retake origin (g.order (p.affected g origin)).reverse).cells[x]? := by
  rw [fst_propagate, getElem?_foldl_markCyclic, if_neg hx]

theorem getElem?_of_mem_stuck (hedit : Edited old p.cells g origin) {x : Ref}
    (hx : x ∈ p.stuck g origin) : ∃ c, p.cells[x]? = some c ∧
      (p.propagate g origin).1.cells[x]? = some (c.mark .cyclic) := by
  obtain ⟨hmem, hnot⟩ := mem_stuck.mp hx
  obtain ⟨c, hc⟩ := Grid.exists_of_mem (mem_affected.mp hmem).2
  refine ⟨c, hc, ?_⟩
  rw [fst_propagate, getElem?_foldl_markCyclic, if_pos hx,
    (retaken_order hedit).untouched x (Or.inl (mt List.mem_reverse.mp hnot)), hc, Option.map_some]

/-- A recalculation marks the edited cell or leaves it as it is. -/
theorem getElem?_propagate_origin (hedit : Edited old p.cells g origin) :
    (p.propagate g origin).1.cells[origin]? = p.cells[origin]? ∨
      (p.propagate g origin).1.cells[origin]? = p.cells[origin]?.map (Cell.mark · .cyclic) := by
  by_cases hstuck : origin ∈ p.stuck g origin
  · obtain ⟨c, hc, hmarked⟩ := getElem?_of_mem_stuck hedit hstuck
    exact Or.inr (by rw [hmarked, hc, Option.map_some])
  · refine Or.inl ?_
    rw [getElem?_of_not_mem_stuck hstuck]
    exact (retaken_order hedit).untouched origin (Or.inr rfl)

/-- A recalculation leaves all cells as they are that are not affected. -/
theorem getElem?_of_not_mem_affected (hedit : Edited old p.cells g origin) {x : Ref}
    (hx : x ∉ p.affected g origin) : (p.propagate g origin).1.cells[x]? = p.cells[x]? := by
  rw [getElem?_of_not_mem_stuck fun hstuck => hx (mem_stuck.mp hstuck).1]
  refine (retaken_order hedit).untouched x (Or.inl fun htaken => hx ?_)
  exact ((Graph.mem_order_iff (nodup_affected p g origin)).mp (List.mem_reverse.mp htaken)).1

theorem right_of_not_mem_stuck (hedit : Edited old p.cells g origin) {r : Ref}
    (hr : r ∉ p.stuck g origin) : (p.propagate g origin).1.cells.Right r := by
  have hretaken := retaken_order hedit
  have hright : r ∈ g.order (p.affected g origin) ∨ r ∉ p.affected g origin := by
    by_cases hmem : r ∈ p.affected g origin
    · exact Or.inl (not_not.mp fun hnot => hr (mem_stuck.mpr ⟨hmem, hnot⟩))
    · exact Or.inr hmem
  refine (hretaken.right r (hright.imp_left List.mem_reverse.mpr)).congr ?_
    (getElem?_of_not_mem_stuck hr) fun d hd => getElem?_of_not_mem_stuck fun hstuck => ?_
  · rw [reads_propagate hedit, hretaken.reads_eq hedit]
  · rw [hretaken.reads_eq hedit] at hd
    obtain ⟨haffected, hnot⟩ := mem_stuck.mp hstuck
    have hr' := hedit.mem_affected_of_reads haffected hd
    have htaken := hright.resolve_right (not_not.mpr hr')
    rw [Graph.mem_order_iff (nodup_affected p g origin)] at htaken
    exact hnot (htaken.2 d haffected ((hedit.coherent d r).mpr hd))

theorem leadsToCycle_of_mem_stuck (hedit : Edited old p.cells g origin) {r : Ref}
    (hr : r ∈ p.stuck g origin) : LeadsToCycle p.cells.Reads r := by
  obtain ⟨hmem, hnot⟩ := mem_stuck.mp hr
  obtain ⟨y, hcycle, hwalk⟩ :=
    (Graph.not_mem_order_iff (nodup_affected p g origin) hmem).mp hnot
  have hstep : ∀ a b, g.EdgeWithin (p.affected g origin) a b → Function.swap p.cells.Reads a b :=
    fun a b hab => (hedit.coherent a b).mp hab.2.2
  refine ⟨y, ?_, ?_⟩
  · exact reflTransGen_swap.mp (ReflTransGen.mono hstep y r hwalk)
  · exact transGen_swap.mp (TransGen.mono hstep y y hcycle)

theorem right_of_mem_stuck (hedit : Edited old p.cells g origin) {r : Ref}
    (hr : r ∈ p.stuck g origin) : (p.propagate g origin).1.cells.Right r := by
  obtain ⟨hmem, hnot⟩ := mem_stuck.mp hr
  obtain ⟨c, hc, hmark⟩ := getElem?_of_mem_stuck hedit hr
  have hfits := hedit.fitsTexts r c hc
  intro c' hc'
  obtain rfl := Option.some.inj (hmark.symm.trans hc')
  constructor
  · -- The cell reads another one that is never taken, which is marked like itself.
    rw [Graph.mem_order_iff (nodup_affected p g origin)] at hnot
    push Not at hnot
    obtain ⟨q, hq, hedge, hqnot⟩ := hnot hmem
    obtain ⟨c₂, -, hmark₂⟩ := getElem?_of_mem_stuck hedit (mem_stuck.mpr ⟨hq, hqnot⟩)
    have hreads := (hedit.coherent q r).mp hedge
    rw [Grid.reads_iff_of_some hc] at hreads
    exact Grid.settled_mark hfits.isExpression_eq hfits.dependencies_eq ⟨q, hreads, _, hmark₂, rfl⟩
  · refine iff_of_true rfl ?_
    rw [reads_propagate hedit]
    exact leadsToCycle_of_mem_stuck hedit hr

/-- Recalculation makes the grid consistent again. -/
theorem consistent_propagate (hedit : Edited old p.cells g origin) :
    (p.propagate g origin).1.cells.Consistent := by
  intro r
  by_cases hr : r ∈ p.stuck g origin
  · exact right_of_mem_stuck hedit hr
  · exact right_of_not_mem_stuck hedit hr

theorem coherent_propagate (hedit : Edited old p.cells g origin) :
    g.Coherent (p.propagate g origin).1.cells :=
  (keeps_propagate p g origin).coherent hedit.fitsTexts hedit.coherent

end Progress

end Spreadsheet
