import Spreadsheet.Proofs.Sheet.Recalc

/-!
# The pass over the affected cells

A recalculation takes the affected cells one by one from a queue and counts for each of them the
precedents that are not taken yet. This is right for every graph, also for one that does not fit the
stored cells: no count is lowered below zero, no cell comes into the queue twice, each is taken after
its affected precedents, and what is left over lies on a cycle of affected cells or behind one. A cell
may be computed again as soon as it is taken or when the whole order is known, which comes to the same.
-/

namespace Spreadsheet

open Relation

namespace Graph

/-- Among the affected cells, a walk of zero or more edges leads from a cycle to the cell. -/
def BehindCycle (g : Graph) (affected : List Ref) (x : Ref) : Prop :=
  ∃ y, TransGen (g.EdgeWithin affected) y y ∧ ReflTransGen (g.EdgeWithin affected) y x

namespace Pass

variable {g : Graph} {affected : List Ref} {p : Pass} {r : Ref} {rest : List Ref}

/-! ### Taking one cell -/

theorem steps_succ (g : Graph) (p : Pass) (n : Nat) : p.steps g (n + 1) = (p.steps g n).step g := by
  induction n generalizing p with
  | zero => rfl
  | succ n ih => exact ih (p.step g)

/-- All cells that are ready or taken, in the order in which they came into the queue. -/
def entered (p : Pass) : List Ref := p.taken.reverse ++ p.queue

theorem entered_prefix_step (g : Graph) (p : Pass) : p.entered <+: (p.step g).entered := by
  cases hqueue : p.queue with
  | nil => rw [step_of_queue_nil hqueue]
  | cons r rest =>
    obtain ⟨htaken, hqueue', -⟩ := step_of_queue_cons (g := g) hqueue
    refine ⟨p.released g r, ?_⟩
    simp [entered, htaken, hqueue', hqueue]

/-- What is right about a step that takes a cell: its affected precedents are taken, and each count
that is lowered for it is at least one when its turn comes. -/
structure TakesInOrder (g : Graph) (affected : List Ref) (p : Pass) (r : Ref) : Prop where
  mem_taken : ∀ q, g.EdgeWithin affected q r → q ∈ p.taken
  step_eq : p.step g = (g.dependents r).foldl release p.pop
  count_pos : ∀ before d after, g.dependents r = before ++ d :: after →
    ∀ n, (before.foldl release p.pop).pending[d]? = some n → 1 ≤ n

theorem Sound.takesInOrder (hnodup : affected.Nodup) (h : p.Sound g affected)
    (hqueue : p.queue = r :: rest) : p.TakesInOrder g affected r := by
  obtain ⟨hr, hready, hfresh⟩ := h.head hqueue
  refine ⟨fun q hq => waiting_eq_zero_iff.mp hready q hq.1 hq.2.2, step_eq_foldl_release hqueue, ?_⟩
  intro before d after hdependents n hn
  have hdistinct := g.nodup_dependents r
  rw [hdependents, List.nodup_append] at hdistinct
  have hbefore : d ∉ before := fun hd => hdistinct.2.2 d hd d List.mem_cons_self rfl
  have hedge : g.hasEdge r d = true := mem_dependents.mp (by simp [hdependents])
  rw [(foldl_release p.pop before hdistinct.1).2.2.2 d, (pop_of_queue_cons hqueue).1,
    h.pending] at hn
  -- The dependents before this one have left its count alone, and the cell taken is still in it.
  have hcount := waiting_cons (g := g) hnodup hr hfresh d
  rw [if_pos hedge] at hcount
  simp only [hbefore, if_false, Option.map_id'] at hn
  split at hn
  · cases hn
    omega
  · cases hn

theorem Sound.nodup_entered (h : p.Sound g affected) : p.entered.Nodup := by
  have hperm : p.entered.Perm (p.taken ++ p.queue) := (List.reverse_perm p.taken).append_right p.queue
  exact hperm.nodup_iff.mpr h.nodup

theorem Sound.mem_affected (h : p.Sound g affected) (hr : r ∈ p.entered) : r ∈ affected := by
  refine ((h.mem_iff r).mp ?_).1
  simpa [entered] using hr

end Pass

theorem mem_order_iff_not_behindCycle {g : Graph} {affected : List Ref} (hnodup : affected.Nodup)
    {x : Ref} : x ∈ g.order affected ↔ x ∈ affected ∧ ¬ g.BehindCycle affected x := by
  constructor
  · intro hx
    have haffected := ((mem_order_iff hnodup).mp hx).1
    exact ⟨haffected, fun hbehind => (not_mem_order_iff hnodup haffected).mpr hbehind hx⟩
  · intro hx
    by_contra hnot
    exact hx.2 ((not_mem_order_iff hnodup hx.1).mp hnot)

end Graph

namespace Progress

variable {p : Progress} {g : Graph} {origin : Ref}

/-- The pass over the affected cells after a number of steps. -/
def pass (p : Progress) (g : Graph) (origin : Ref) (n : Nat) : Graph.Pass :=
  (Graph.Pass.start g (p.affected g origin)).steps g n

theorem pass_succ (p : Progress) (g : Graph) (origin : Ref) (n : Nat) :
    p.pass g origin (n + 1) = (p.pass g origin n).step g := Graph.Pass.steps_succ g _ n

theorem sound_pass (p : Progress) (g : Graph) (origin : Ref) (n : Nat) :
    (p.pass g origin n).Sound g (p.affected g origin) :=
  (Graph.Pass.Sound.start (nodup_affected p g origin)).steps (nodup_affected p g origin) n

/-! ### Computing cells as they are taken -/

/-- A recalculation under way: the pass, and the cells as far as they are computed again. -/
structure Underway where
  pass : Graph.Pass
  progress : Progress

/-- Takes the next ready cell and computes it again, unless it is the edited one. -/
def Underway.turn (g : Graph) (origin : Ref) (u : Underway) : Underway :=
  match u.pass.queue with
  | [] => u
  | r :: _ => ⟨u.pass.step g, if r = origin then u.progress else u.progress.recompute r⟩

theorem iterate_turn (p : Progress) (g : Graph) (origin : Ref) (n : Nat) :
    (Underway.turn g origin)^[n] ⟨p.pass g origin 0, p⟩ =
      ⟨p.pass g origin n, p.retake origin (p.pass g origin n).taken⟩ := by
  induction n with
  | zero => rfl
  | succ n ih =>
    rw [Function.iterate_succ_apply', ih, Underway.turn, pass_succ]
    cases hqueue : (p.pass g origin n).queue with
    | nil => simp only [Graph.Pass.step_of_queue_nil hqueue]
    | cons r rest =>
      have htaken := (Graph.Pass.step_of_queue_cons (g := g) hqueue).1
      simp only [htaken, retake_cons]

theorem retake_eq_foldl (p : Progress) (origin : Ref) (taken : List Ref) :
    p.retake origin taken = (taken.reverse.filter (· != origin)).foldl recompute p := by
  rw [retake, List.filter_reverse, List.foldl_reverse]

/-! ### The whole pass -/

/-- What is right about the pass of a recalculation. The affected cells are the stored ones that walks
along edges lead to. At every step: cells are taken in order, and each affected cell comes into the
queue once at most. At the end: the queue is empty, the cells taken are
computed again once each, but for the edited one, and those left over are the ones on a cycle or
behind one. -/
structure Orderly (p : Progress) (g : Graph) (origin : Ref) : Prop where
  mem_affected_iff : ∀ r, r ∈ p.affected g origin ↔ ReflTransGen g.Edge origin r ∧ r ∈ p.cells
  takesInOrder : ∀ n r rest, (p.pass g origin n).queue = r :: rest →
    (p.pass g origin n).TakesInOrder g (p.affected g origin) r
  nodup_entered : ∀ n, (p.pass g origin n).entered.Nodup
  affected_of_entered : ∀ n, ∀ r ∈ (p.pass g origin n).entered, r ∈ p.affected g origin
  entered_prefix : ∀ n, (p.pass g origin n).entered <+: (p.pass g origin (n + 1)).entered
  turns_eq : ∀ n, (Underway.turn g origin)^[n] ⟨p.pass g origin 0, p⟩ = ⟨p.pass g origin n,
    ((p.pass g origin n).taken.reverse.filter (· != origin)).foldl recompute p⟩
  queue_eq_nil : (p.pass g origin (p.affected g origin).length).queue = []
  order_eq : g.order (p.affected g origin) =
    (p.pass g origin (p.affected g origin).length).taken.reverse
  nodup_order : (g.order (p.affected g origin)).Nodup
  propagate_eq : (p.propagate g origin).1 = (p.stuck g origin).foldl markCyclic
    (((g.order (p.affected g origin)).filter (· != origin)).foldl recompute p)
  mem_order_iff : ∀ r, r ∈ g.order (p.affected g origin) ↔
    r ∈ p.affected g origin ∧ ¬ g.BehindCycle (p.affected g origin) r
  mem_stuck_iff : ∀ r, r ∈ p.stuck g origin ↔
    r ∈ p.affected g origin ∧ g.BehindCycle (p.affected g origin) r

/-- The pass of a recalculation is right whatever the cells, the graph and the edited cell are, also
where the graph does not say what the cells read. -/
theorem orderly_propagate (p : Progress) (g : Graph) (origin : Ref) : p.Orderly g origin where
  mem_affected_iff _ := mem_affected
  takesInOrder n _ _ hqueue := (p.sound_pass g origin n).takesInOrder (nodup_affected p g origin) hqueue
  nodup_entered n := (p.sound_pass g origin n).nodup_entered
  affected_of_entered n _ hr := (p.sound_pass g origin n).mem_affected hr
  entered_prefix n := pass_succ p g origin n ▸ Graph.Pass.entered_prefix_step g _
  turns_eq n := by rw [iterate_turn, retake_eq_foldl]
  queue_eq_nil := Graph.Pass.queue_final (nodup_affected p g origin)
  order_eq := rfl
  nodup_order := Graph.nodup_order (nodup_affected p g origin)
  propagate_eq := by rw [fst_propagate, retake_eq_foldl, List.reverse_reverse]
  mem_order_iff _ := Graph.mem_order_iff_not_behindCycle (nodup_affected p g origin)
  mem_stuck_iff r := by
    rw [mem_stuck, Graph.mem_order_iff_not_behindCycle (nodup_affected p g origin)]
    tauto

end Progress

end Spreadsheet
