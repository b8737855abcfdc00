import Mathlib.Data.List.Nodup
import Mathlib.Data.List.Perm.Subperm
import Spreadsheet.Graph.Order
import Spreadsheet.Proofs.Graph.Edges
import Spreadsheet.Proofs.Relation

/-!
# The recalculation order is right

Taking cells preserves `Pass.Sound`: the counts are those of the affected precedents that are not
taken yet, and the cells that are taken or ready are those whose count is zero. So every cell that is
taken comes after its affected precedents, and what is never taken has a precedent of its kind, which
by finiteness means that it lies on a cycle or behind one.
-/

namespace Spreadsheet.Graph

open Relation

/-- How many affected precedents of a cell are not taken yet. -/
def waiting (g : Graph) (affected taken : List Ref) (x : Ref) : Nat :=
  affected.countP fun q => decide (q ∉ taken) && g.hasEdge q x

/-- Each cell comes after its affected precedents; the last cell stands first. -/
def Legal (g : Graph) (affected : List Ref) : List Ref → Prop
  | [] => True
  | x :: earlier => (∀ q ∈ affected, g.Edge q x → q ∈ earlier) ∧ g.Legal affected earlier

/-- An edge between affected cells. -/
def EdgeWithin (g : Graph) (affected : List Ref) (q x : Ref) : Prop :=
  q ∈ affected ∧ x ∈ affected ∧ g.Edge q x

theorem waiting_eq_zero_iff {g : Graph} {affected taken : List Ref} {x : Ref} :
    g.waiting affected taken x = 0 ↔ ∀ q ∈ affected, g.Edge q x → q ∈ taken := by
  simp only [waiting, List.countP_eq_zero, Edge, Bool.and_eq_true, decide_eq_true_eq]
  refine forall₂_congr fun q _ => ?_
  tauto

/-- Taking a precedent lowers the count of its dependents by one. -/
theorem waiting_cons {g : Graph} {affected taken : List Ref} {r : Ref} (hnodup : affected.Nodup)
    (hr : r ∈ affected) (htaken : r ∉ taken) (x : Ref) :
    g.waiting affected taken x
      = g.waiting affected (r :: taken) x + if g.hasEdge r x then 1 else 0 := by
  have hperm := List.perm_cons_erase hr
  have hothers : (affected.erase r).countP (fun q => decide (q ∉ taken) && g.hasEdge q x)
      = (affected.erase r).countP fun q => decide (q ∉ r :: taken) && g.hasEdge q x := by
    apply List.countP_congr
    intro q hq
    have hne : q ≠ r := (hnodup.mem_erase_iff.mp hq).1
    simp [hne]
  rw [waiting, waiting, hperm.countP_eq, hperm.countP_eq, List.countP_cons, List.countP_cons, hothers]
  simp [htaken]

theorem count_dependents (g : Graph) (r x : Ref) :
    (g.dependents r).count x = if g.hasEdge r x then 1 else 0 := by
  split
  · rename_i hedge
    exact List.count_eq_one_of_mem (g.nodup_dependents r) (mem_dependents.mpr hedge)
  · rename_i hedge
    exact List.count_eq_zero_of_not_mem fun h => hedge (mem_dependents.mp h)

namespace Pass

/-! ### Counting -/

theorem getElem?_count (pending : RefMap Nat) (d x : Ref) :
    (count pending d)[x]? = pending[x]?.map fun n => if d = x then n + 1 else n := by
  unfold count
  split
  · rename_i n hn
    by_cases hd : d = x
    · subst hd
      simp [hn]
    · simp [Std.ExtTreeMap.getElem?_insert, hd]
  · rename_i hn
    by_cases hd : d = x
    · subst hd
      simp [hn]
    · simp [hd]

theorem getElem?_foldl_count (pending : RefMap Nat) (ds : List Ref) (x : Ref) :
    (ds.foldl count pending)[x]? = pending[x]?.map (· + ds.count x) := by
  induction ds generalizing pending with
  | nil => simp
  | cons d rest ih =>
    rw [List.foldl_cons, ih, getElem?_count, Option.map_map]
    congr 1
    funext n
    by_cases hd : d = x
    · simp only [Function.comp, hd, if_true, List.count_cons_self]
      omega
    · simp [hd]

theorem getElem?_foldl_insert_zero (pending : RefMap Nat) (rs : List Ref) (x : Ref) :
    (rs.foldl (fun pending r => pending.insert r 0) pending)[x]?
      = if x ∈ rs then some 0 else pending[x]? := by
  induction rs generalizing pending with
  | nil => simp
  | cons r rest ih =>
    rw [List.foldl_cons, ih]
    by_cases hx : x ∈ rest
    · simp [hx]
    · simp [hx, Std.ExtTreeMap.getElem?_insert, @eq_comm Ref r]

theorem getElem?_foldl_foldl_count (g : Graph) (pending : RefMap Nat) (rs : List Ref) (x : Ref) :
    (rs.foldl (fun pending r => (g.dependents r).foldl count pending) pending)[x]?
      = pending[x]?.map (· + rs.countP fun q => g.hasEdge q x) := by
  induction rs generalizing pending with
  | nil => simp
  | cons r rest ih =>
    rw [List.foldl_cons, ih, getElem?_foldl_count, Option.map_map, count_dependents]
    congr 1
    funext n
    simp only [Function.comp, List.countP_cons]
    omega

theorem getElem?_precedentCounts (g : Graph) (affected : List Ref) (x : Ref) :
    (precedentCounts g affected)[x]?
      = if x ∈ affected then some (g.waiting affected [] x) else none := by
  rw [precedentCounts, getElem?_foldl_foldl_count, getElem?_foldl_insert_zero]
  by_cases hx : x ∈ affected
  · simp [hx, waiting]
  · simp [hx]

/-! ### Releasing the dependents of a cell -/

@[simp] theorem ready_release (p : Pass) (d : Ref) : (p.release d).ready = p.ready := by
  unfold release
  split <;> rfl

@[simp] theorem taken_release (p : Pass) (d : Ref) : (p.release d).taken = p.taken := by
  unfold release
  split <;> rfl

theorem getElem?_pending_release (p : Pass) (d x : Ref) :
    (p.release d).pending[x]? = p.pending[x]?.map fun n => if d = x then n - 1 else n := by
  unfold release
  split
  · rename_i hn
    by_cases hd : d = x
    · subst hd
      simp [hn]
    · simp [hd]
  · rename_i n hn
    by_cases hd : d = x
    · subst hd
      simp [hn]
    · simp [Std.ExtTreeMap.getElem?_insert, hd]

theorem late_release (p : Pass) (d : Ref) :
    (p.release d).late = if p.pending[d]?.any (· ≤ 1) then d :: p.late else p.late := by
  unfold release
  split
  · rename_i hn
    simp [hn]
  · rename_i n hn
    simp only [hn, Option.any_some, decide_eq_true_eq]
    congr 1
    exact propext (by omega)

theorem foldl_release (p : Pass) (ds : List Ref) (hnodup : ds.Nodup) :
    (ds.foldl release p).ready = p.ready ∧ (ds.foldl release p).taken = p.taken ∧
    (ds.foldl release p).late = (ds.filter fun d => p.pending[d]?.any (· ≤ 1)).reverse ++ p.late ∧
    ∀ x, (ds.foldl release p).pending[x]? = p.pending[x]?.map fun n => if x ∈ ds then n - 1 else n := by
  induction ds generalizing p with
  | nil => simp
  | cons d rest ih =>
    obtain ⟨hd, hrest⟩ := List.nodup_cons.mp hnodup
    obtain ⟨hready, htaken, hlate, hpending⟩ := ih (p.release d) hrest
    have hsame : rest.filter (fun q => (p.release d).pending[q]?.any (· ≤ 1))
        = rest.filter fun q => p.pending[q]?.any (· ≤ 1) := by
      apply List.filter_congr
      intro q hq
      have hne : d ≠ q := fun h => hd (h ▸ hq)
      simp [getElem?_pending_release, hne]
    refine ⟨by simpa using hready, by simpa using htaken, ?_, ?_⟩
    · rw [List.foldl_cons, hlate, hsame, late_release, List.filter_cons]
      split <;> simp
    · intro x
      rw [List.foldl_cons, hpending, getElem?_pending_release, Option.map_map]
      congr 1
      funext n
      by_cases hx : d = x
      · subst hx
        simp [hd]
      · simp [hx, Ne.symm hx]

/-- The dependents of a cell that become ready when it is taken. -/
def released (g : Graph) (p : Pass) (r : Ref) : List Ref :=
  (g.dependents r).filter fun d => p.pending[d]?.any (· ≤ 1)

/-- The pass when the next cell is taken and none of its dependents is released yet. -/
def pop (p : Pass) : Pass :=
  match p.ready with
  | r :: rest => { p with ready := rest, taken := r :: p.taken }
  | [] =>
    match p.late.reverse with
    | r :: rest => { p with ready := rest, late := [], taken := r :: p.taken }
    | [] => p

theorem pop_of_queue_cons {p : Pass} {r : Ref} {rest : List Ref} (hqueue : p.queue = r :: rest) :
    p.pop.pending = p.pending ∧ p.pop.taken = r :: p.taken ∧ p.pop.queue = rest := by
  unfold pop
  split
  · rename_i q others hready
    rw [queue, hready, List.cons_append, List.cons.injEq] at hqueue
    obtain ⟨rfl, rfl⟩ := hqueue
    exact ⟨rfl, rfl, rfl⟩
  · rename_i hready
    rw [queue, hready, List.nil_append] at hqueue
    rw [hqueue]
    exact ⟨rfl, rfl, List.append_nil rest⟩

theorem step_eq_foldl_release {g : Graph} {p : Pass} {r : Ref} {rest : List Ref}
    (hqueue : p.queue = r :: rest) : p.step g = (g.dependents r).foldl release p.pop := by
  cases hready : p.ready with
  | cons q others =>
    rw [queue, hready, List.cons_append, List.cons.injEq] at hqueue
    rw [step, pop, hready, ← hqueue.1]
    rfl
  | nil =>
    rw [queue, hready, List.nil_append] at hqueue
    rw [step, pop, hready, hqueue]
    rfl

/-- What taking the first cell of the queue does. -/
theorem step_of_queue_cons {g : Graph} {p : Pass} {r : Ref} {rest : List Ref}
    (hqueue : p.queue = r :: rest) :
    (p.step g).taken = r :: p.taken ∧ (p.step g).queue = rest ++ p.released g r ∧
    ∀ x, (p.step g).pending[x]? = p.pending[x]?.map fun n => if g.hasEdge r x then n - 1 else n := by
  obtain ⟨hpending, htaken, hrest⟩ := pop_of_queue_cons hqueue
  obtain ⟨hready', htaken', hlate', hpending'⟩ :=
    foldl_release p.pop (g.dependents r) (g.nodup_dependents r)
  rw [step_eq_foldl_release hqueue]
  refine ⟨htaken'.trans htaken, ?_, fun x => ?_⟩
  · rw [queue, hready', hlate', ← hrest]
    simp [released, queue, hpending]
  · rw [hpending', hpending]
    simp [mem_dependents, Edge]

theorem step_of_queue_nil {g : Graph} {p : Pass} (hqueue : p.queue = []) : p.step g = p := by
  rw [queue, List.append_eq_nil_iff] at hqueue
  simp [step, hqueue.1, hqueue.2]

/-! ### The invariant of the pass -/

/-- What holds all along: the counts are right, what is taken or ready is listed once and is what has
count zero, and everything was taken after its affected precedents. -/
structure Sound (g : Graph) (affected : List Ref) (p : Pass) : Prop where
  pending : ∀ x, p.pending[x]? = if x ∈ affected then some (g.waiting affected p.taken x) else none
  nodup : (p.taken ++ p.queue).Nodup
  mem_iff : ∀ x, x ∈ p.taken ++ p.queue ↔ x ∈ affected ∧ g.waiting affected p.taken x = 0
  legal : g.Legal affected p.taken

theorem Sound.start {g : Graph} {affected : List Ref} (hnodup : affected.Nodup) :
    (start g affected).Sound g affected := by
  have hqueue : (Pass.start g affected).queue
      = affected.filter (fun r => (precedentCounts g affected)[r]? == some 0) := by
    simp [queue, Pass.start]
  refine ⟨getElem?_precedentCounts g affected, ?_, ?_, trivial⟩
  · rw [hqueue]
    exact hnodup.filter _
  · intro x
    rw [hqueue]
    simp only [Pass.start, List.nil_append, List.mem_filter, getElem?_precedentCounts, beq_iff_eq]
    refine and_congr_right fun hx => ?_
    simp [hx]

theorem Sound.mem_released_iff {g : Graph} {affected : List Ref} {p : Pass} {r x : Ref}
    (h : p.Sound g affected) : x ∈ p.released g r ↔
      g.Edge r x ∧ x ∈ affected ∧ g.waiting affected p.taken x ≤ 1 := by
  rw [released, List.mem_filter, mem_dependents, h.pending]
  by_cases hx : x ∈ affected <;> simp [hx]

/-- The next cell of the queue is ready and not taken yet. -/
theorem Sound.head {g : Graph} {affected : List Ref} {p : Pass} (h : p.Sound g affected) {r : Ref}
    {rest : List Ref} (hqueue : p.queue = r :: rest) :
    r ∈ affected ∧ g.waiting affected p.taken r = 0 ∧ r ∉ p.taken := by
  obtain ⟨hr, hzero⟩ := (h.mem_iff r).mp (by simp [hqueue])
  have hall := h.nodup
  rw [hqueue] at hall
  exact ⟨hr, hzero, fun hmem => List.disjoint_of_nodup_append hall hmem List.mem_cons_self⟩

theorem mem_taken_append_queue {p : Pass} {r : Ref} {rest : List Ref} (hqueue : p.queue = r :: rest)
    (x : Ref) : x ∈ r :: p.taken ++ rest ↔ x ∈ p.taken ++ p.queue := by
  rw [hqueue]
  simp only [List.mem_append, List.mem_cons]
  tauto

theorem Sound.not_mem_of_released {g : Graph} {affected : List Ref} {p : Pass}
    (hnodup : affected.Nodup) (h : p.Sound g affected) {r x : Ref} {rest : List Ref}
    (hqueue : p.queue = r :: rest) (hx : x ∈ p.released g r) : x ∉ r :: p.taken ++ rest := by
  intro hmem
  obtain ⟨hr, -, hrtaken⟩ := h.head hqueue
  obtain ⟨hedge, -, -⟩ := h.mem_released_iff.mp hx
  have hzero := ((h.mem_iff x).mp ((mem_taken_append_queue hqueue x).mp hmem)).2
  have hedge : g.hasEdge r x = true := hedge
  rw [waiting_cons hnodup hr hrtaken x, if_pos hedge] at hzero
  omega

theorem Sound.step {g : Graph} {affected : List Ref} {p : Pass} (hnodup : affected.Nodup)
    (h : p.Sound g affected) : (p.step g).Sound g affected := by
  cases hqueue : p.queue with
  | nil => rwa [step_of_queue_nil hqueue]
  | cons r rest =>
    obtain ⟨htaken', hqueue', hpending'⟩ := step_of_queue_cons (g := g) hqueue
    obtain ⟨hr, hready, hrtaken⟩ := h.head hqueue
    have hcount := waiting_cons (g := g) hnodup hr hrtaken
    refine ⟨?_, ?_, ?_, ?_⟩
    · intro x
      rw [hpending', h.pending, htaken']
      by_cases hx : x ∈ affected
      · rw [if_pos hx, if_pos hx, Option.map_some, hcount x]
        split <;> simp
      · simp [hx]
    · rw [htaken', hqueue', ← List.append_assoc]
      have hall := h.nodup
      rw [hqueue] at hall
      have hmoved : (r :: p.taken ++ rest).Nodup := (List.perm_middle.nodup_iff).mp hall
      refine hmoved.append ((g.nodup_dependents r).filter _) ?_
      exact fun x hx hnew => h.not_mem_of_released hnodup hqueue hnew hx
    · intro x
      rw [htaken', hqueue', ← List.append_assoc, List.mem_append, mem_taken_append_queue hqueue,
        h.mem_iff, h.mem_released_iff, hcount x]
      by_cases hedge : g.hasEdge r x
      · rw [if_pos hedge]
        simp only [Edge, hedge, true_and]
        constructor
        · intro hnew
          rcases hnew with ⟨hx, hzero⟩ | ⟨hx, hone⟩
          · exact ⟨hx, by omega⟩
          · exact ⟨hx, by omega⟩
        · intro hnew
          exact Or.inr ⟨hnew.1, by omega⟩
      · simp [Edge, hedge]
    · rw [htaken']
      exact ⟨waiting_eq_zero_iff.mp hready, h.legal⟩

theorem Sound.steps {g : Graph} {affected : List Ref} {p : Pass} (hnodup : affected.Nodup)
    (h : p.Sound g affected) (n : Nat) : (p.steps g n).Sound g affected := by
  induction n generalizing p with
  | zero => exact h
  | succ n ih => exact ih (h.step hnodup)

/-- A step takes a cell unless the queue is empty. -/
theorem queue_steps_eq_nil_or {g : Graph} (p : Pass) (n : Nat) :
    (p.steps g n).queue = [] ∨ (p.steps g n).taken.length = p.taken.length + n := by
  induction n generalizing p with
  | zero => exact Or.inr rfl
  | succ n ih =>
    cases hqueue : p.queue with
    | nil =>
      rw [steps, step_of_queue_nil hqueue]
      rcases ih p with hnil | hlength
      · exact Or.inl hnil
      · have hstay : ∀ m, p.steps g m = p := by
          intro m
          induction m with
          | zero => rfl
          | succ m ihm => rw [steps, step_of_queue_nil hqueue, ihm]
        exact Or.inl (by rw [hstay, hqueue])
    | cons r rest =>
      have htaken := (step_of_queue_cons (g := g) hqueue).1
      rw [steps]
      rcases ih (p.step g) with hnil | hlength
      · exact Or.inl hnil
      · rw [htaken, List.length_cons] at hlength
        exact Or.inr (by omega)

/-- As many steps as there are affected cells empty the queue. -/
theorem queue_final {g : Graph} {affected : List Ref} (hnodup : affected.Nodup) :
    ((start g affected).steps g affected.length).queue = [] := by
  have hsound := (Sound.start (g := g) hnodup).steps hnodup affected.length
  rcases queue_steps_eq_nil_or (g := g) (start g affected) affected.length with hnil | hlength
  · exact hnil
  · have hsub := hsound.nodup.subperm (fun x hx => ((hsound.mem_iff x).mp hx).1)
    have hle := hsub.length_le
    rw [List.length_append, hlength] at hle
    exact List.eq_nil_of_length_eq_zero (by omega)

end Pass

/-! ### The order -/

variable {g : Graph} {affected : List Ref}

theorem nodup_order (hnodup : affected.Nodup) : (g.order affected).Nodup := by
  have hsound := (Pass.Sound.start (g := g) hnodup).steps hnodup affected.length
  exact List.nodup_reverse.mpr hsound.nodup.of_append_left

theorem legal_order (hnodup : affected.Nodup) : g.Legal affected (g.order affected).reverse := by
  rw [order, List.reverse_reverse]
  exact ((Pass.Sound.start (g := g) hnodup).steps hnodup affected.length).legal

/-- A cell is taken exactly if all its affected precedents are. -/
theorem mem_order_iff (hnodup : affected.Nodup) {x : Ref} : x ∈ g.order affected ↔
    x ∈ affected ∧ ∀ q ∈ affected, g.Edge q x → q ∈ g.order affected := by
  have hsound := (Pass.Sound.start (g := g) hnodup).steps hnodup affected.length
  have hmem := hsound.mem_iff x
  rw [Pass.queue_final hnodup, List.append_nil, waiting_eq_zero_iff] at hmem
  simpa [order] using hmem

theorem Legal.mem_of_edge {taken : List Ref} (h : g.Legal affected taken) {q x : Ref}
    (hx : x ∈ taken) (hedge : g.EdgeWithin affected q x) : q ∈ taken := by
  induction taken with
  | nil => cases hx
  | cons y earlier ih =>
    rcases List.mem_cons.mp hx with rfl | hx
    · exact List.mem_cons_of_mem x (h.1 q hedge.1 hedge.2.2)
    · exact List.mem_cons_of_mem y (ih h.2 hx)

theorem Legal.mem_of_walk {taken : List Ref} (h : g.Legal affected taken) {q x : Ref}
    (hx : x ∈ taken) (hwalk : ReflTransGen (g.EdgeWithin affected) q x) : q ∈ taken := by
  induction hwalk using ReflTransGen.head_induction_on with
  | refl => exact hx
  | head hedge _ ih => exact h.mem_of_edge ih hedge

/-- No cell of a cycle is ever taken: the one taken first would have a precedent taken before it. -/
theorem Legal.not_cycle {taken : List Ref} (h : g.Legal affected taken) {x : Ref} (hx : x ∈ taken) :
    ¬ TransGen (g.EdgeWithin affected) x x := by
  induction taken with
  | nil => cases hx
  | cons y earlier ih =>
    rcases List.mem_cons.mp hx with rfl | hx
    · intro hcycle
      obtain ⟨q, hwalk, hedge⟩ := TransGen.tail'_iff.mp hcycle
      have hq : q ∈ earlier := h.1 q hedge.1 hedge.2.2
      exact ih h.2 (h.2.mem_of_walk hq hwalk) hcycle
    · exact ih h.2 hx

/-- What is never taken lies on a cycle of affected cells, or behind one. -/
theorem not_mem_order_iff (hnodup : affected.Nodup) {x : Ref} (hx : x ∈ affected) :
    x ∉ g.order affected ↔ ∃ y, TransGen (g.EdgeWithin affected) y y ∧
      ReflTransGen (g.EdgeWithin affected) y x := by
  constructor
  · intro hstuck
    let stuck := affected.filter fun r => decide (r ∉ g.order affected)
    have hstuck' : ∀ r, r ∈ stuck ↔ r ∈ affected ∧ r ∉ g.order affected := by
      simp [stuck]
    have hback : ∀ r ∈ stuck, ∃ q ∈ stuck, Function.swap (g.EdgeWithin affected) r q := by
      intro r hr
      obtain ⟨hr, hnot⟩ := (hstuck' r).mp hr
      rw [mem_order_iff hnodup] at hnot
      push Not at hnot
      obtain ⟨q, hq, hedge, hqnot⟩ := hnot hr
      exact ⟨q, (hstuck' q).mpr ⟨hq, hqnot⟩, hq, hr, hedge⟩
    obtain ⟨y, -, hwalk, hcycle⟩ :=
      exists_cycle_of_forall_exists hback ((hstuck' x).mpr ⟨hx, hstuck⟩)
    exact ⟨y, transGen_swap.mp hcycle, reflTransGen_swap.mp hwalk⟩
  · intro h hmem
    obtain ⟨y, hcycle, hwalk⟩ := h
    have hlegal := legal_order (g := g) hnodup
    exact hlegal.not_cycle (hlegal.mem_of_walk (List.mem_reverse.mpr hmem) hwalk) hcycle

end Spreadsheet.Graph
