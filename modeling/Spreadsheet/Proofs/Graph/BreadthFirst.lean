import Mathlib.Data.ENat.Lattice
import Spreadsheet.Proofs.Graph.Closure

/-!
# The closure is breadth first

The levels of a closure are its references at distance zero, one, two and so on from where it starts,
so a closure lists what is near before what is far. The same list comes out of a search that keeps
one queue in place of levels: it visits what it found first, and meets the dependents of that in
ascending order. Visiting a level takes it off the queue and leaves there the next one, so that the
search ends with the last level.
-/

namespace Spreadsheet.Graph

open Relation

/-! ### Distances -/

/-- A walk along a number of edges leads from one reference to another. -/
inductive Walk (g : Graph) (start : Ref) : Nat → Ref → Prop
  | stay : g.Walk start 0 start
  | step {n : Nat} {x y : Ref} : g.Walk start n x → g.Edge x y → g.Walk start (n + 1) y

/-- The number of edges of a shortest walk, infinite if no walk leads there. -/
noncomputable def distance (g : Graph) (start x : Ref) : ℕ∞ :=
  ⨅ (n : Nat) (_ : g.Walk start n x), (n : ℕ∞)

variable {g : Graph} {start x y : Ref} {n depth : Nat} {seen : RefSet} {level before : List Ref}

theorem Walk.distance_le (h : g.Walk start n x) : g.distance start x ≤ n := iInf₂_le n h

theorem distance_le_iff : g.distance start x ≤ n ↔ ∃ m ≤ n, g.Walk start m x := by
  constructor
  · intro hle
    by_contra hnone
    push Not at hnone
    have hlong : ((n + 1 : Nat) : ℕ∞) ≤ g.distance start x := by
      refine le_iInf₂ fun m hwalk => ?_
      by_contra hless
      exact hnone m (Nat.le_of_lt_succ (by exact_mod_cast not_le.mp hless)) hwalk
    have : n + 1 ≤ n := by exact_mod_cast hlong.trans hle
    omega
  · intro hwalk
    obtain ⟨m, hm, hwalk⟩ := hwalk
    exact hwalk.distance_le.trans (by exact_mod_cast hm)

theorem distance_le_zero_iff : g.distance start x ≤ (0 : Nat) ↔ x = start := by
  rw [distance_le_iff]
  constructor
  · intro hwalk
    obtain ⟨m, hm, hwalk⟩ := hwalk
    cases hwalk with
    | stay => rfl
    | step => omega
  · intro heq
    exact ⟨0, le_rfl, heq ▸ .stay⟩

/-- What is one step further away has a precedent that is not. -/
theorem distance_le_succ_iff : g.distance start x ≤ (n + 1 : Nat) ↔
    g.distance start x ≤ n ∨ ∃ y, g.distance start y ≤ n ∧ g.Edge y x := by
  simp only [distance_le_iff]
  constructor
  · intro hwalk
    obtain ⟨m, hm, hwalk⟩ := hwalk
    cases hwalk with
    | stay => exact Or.inl ⟨0, Nat.zero_le n, .stay⟩
    | step hwalk hedge => exact Or.inr ⟨_, ⟨_, Nat.le_of_succ_le_succ hm, hwalk⟩, hedge⟩
  · intro hnear
    rcases hnear with ⟨m, hm, hwalk⟩ | ⟨y, ⟨m, hm, hwalk⟩, hedge⟩
    · exact ⟨m, Nat.le_succ_of_le hm, hwalk⟩
    · exact ⟨m + 1, Nat.succ_le_succ hm, hwalk.step hedge⟩

theorem Edge.distance_le (h : g.Edge x y) : g.distance start y ≤ g.distance start x + 1 := by
  cases hx : g.distance start x with
  | top => exact le_top
  | coe n => exact_mod_cast distance_le_succ_iff.mpr (Or.inr ⟨x, hx.le, h⟩)

theorem distance_eq_succ_iff : g.distance start x = (n + 1 : Nat) ↔
    g.distance start x ≤ (n + 1 : Nat) ∧ ¬ g.distance start x ≤ n := by
  rw [le_antisymm_iff, not_le, ← ENat.add_one_le_iff (ENat.natCast_ne_top n)]
  norm_cast

/-! ### Levels by distance -/

/-- What is seen lies within a distance, and the level at it. -/
structure Levelled (g : Graph) (start : Ref) (n : Nat) (seen : RefSet) (level : List Ref) : Prop where
  seen_iff : ∀ x, x ∈ seen ↔ g.distance start x ≤ n
  level_iff : ∀ x, x ∈ level ↔ g.distance start x = n

theorem levelled_start (g : Graph) (start : Ref) : g.Levelled start 0 {start} [start] := by
  refine ⟨fun x => ?_, fun x => ?_⟩
  · rw [distance_le_zero_iff]
    simp [@eq_comm Ref start]
  · rw [Nat.cast_zero, ← nonpos_iff_eq_zero, ← Nat.cast_zero, distance_le_zero_iff,
      List.mem_singleton]

theorem Levelled.expand (h : g.Levelled start n seen level) :
    g.Levelled start (n + 1) (g.expand seen level).seen (g.expand seen level).next.reverse := by
  have hseen : ∀ x, x ∈ (g.expand seen level).seen ↔ g.distance start x ≤ (n + 1 : Nat) := by
    intro x
    rw [mem_seen_expand, distance_le_succ_iff, h.seen_iff]
    constructor
    · intro hx
      refine hx.imp_right fun hx => ?_
      obtain ⟨r, hr, hedge⟩ := hx
      exact ⟨r, ((h.level_iff r).mp hr).le, hedge⟩
    · intro hx
      rcases hx with hx | ⟨y, hy, hedge⟩
      · exact Or.inl hx
      -- A precedent that is nearer than the level brings its dependents no further than the level.
      · rcases hy.eq_or_lt with hy | hy
        · exact Or.inr ⟨y, (h.level_iff y).mpr hy, hedge⟩
        · exact Or.inl (hedge.distance_le.trans (Order.add_one_le_of_lt hy))
  refine ⟨hseen, fun x => ?_⟩
  rw [distance_eq_succ_iff, ← hseen, ← h.seen_iff, List.mem_reverse, mem_next_expand,
    mem_seen_expand]
  tauto

/-- Level after level, what is listed first is no further away than what follows. -/
theorem Levelled.levels (h : g.Levelled start n seen level) (depth : Nat) :
    (∀ x ∈ (g.levels depth seen level).flatten, (n : ℕ∞) ≤ g.distance start x) ∧
      (g.levels depth seen level).flatten.Pairwise
        fun x y => g.distance start x ≤ g.distance start y := by
  induction depth generalizing n seen level with
  | zero => simp [Graph.levels]
  | succ depth ih =>
    cases level with
    | nil => simp [levels_nil]
    | cons r rest =>
      obtain ⟨hfar, hsorted⟩ := ih h.expand
      have hnext : (n : ℕ∞) ≤ (n + 1 : Nat) := by exact_mod_cast n.le_succ
      have hlater : ∀ x ∈ (g.levels depth (g.expand seen (r :: rest)).seen
          (g.expand seen (r :: rest)).next.reverse).flatten, (n : ℕ∞) ≤ g.distance start x :=
        fun x hx => hnext.trans (hfar x hx)
      have hhere : ∀ x ∈ r :: rest, g.distance start x = n := fun x => (h.level_iff x).mp
      simp only [Graph.levels, List.flatten_cons]
      constructor
      · intro x hx
        rcases List.mem_append.mp hx with hx | hx
        · exact (hhere x hx).ge
        · exact hlater x hx
      · refine List.pairwise_append.mpr ⟨?_, hsorted, fun x hx y hy => ?_⟩
        · exact List.pairwise_of_forall_mem_list fun x hx y hy => (hhere x hx).trans_le (hhere y hy).ge
        · exact (hhere x hx).trans_le (hlater y hy)

/-! ### One queue in place of levels -/

/-- A search under way: what is found, in the order in which it was, and what of it is still to be
visited. -/
structure Search where
  found : List Ref
  queue : List Ref

namespace Search

/-- Takes note of a reference, unless it was found before. -/
def meet (s : Search) (r : Ref) : Search :=
  if r ∈ s.found then s else ⟨s.found ++ [r], s.queue ++ [r]⟩

/-- The course of a search: the first reference of the queue is visited and its dependents are met,
until the queue is empty. What is found then is the answer. -/
inductive Ends (g : Graph) : Search → List Ref → Prop
  | done {found : List Ref} : Ends g ⟨found, []⟩ found
  | visit {found : List Ref} {r : Ref} {rest answer : List Ref} :
    Ends g ((g.dependents r).foldl meet ⟨found, rest⟩) answer → Ends g ⟨found, r :: rest⟩ answer

theorem Ends.unique {s : Search} {answer answer' : List Ref} (h : Ends g s answer)
    (h' : Ends g s answer') : answer = answer' := by
  induction h with
  | done =>
    cases h' with
    | done => rfl
  | visit _ ih =>
    cases h' with
    | visit h' => exact ih h'

/-- The search that has found some references before, is to visit some of them, and has met what a
frontier holds since. -/
def during (before rest : List Ref) (f : Frontier) : Search :=
  ⟨before ++ f.next.reverse, rest ++ f.next.reverse⟩

/-- A frontier has seen what was found before it and what it holds. -/
def Follows (before : List Ref) (f : Frontier) : Prop := ∀ x, x ∈ f.seen ↔ x ∈ before ∨ x ∈ f.next

variable {rest answer : List Ref} {f : Frontier}

theorem Follows.foldl_meet (h : Follows before f) (rs : List Ref) :
    Follows before (rs.foldl Frontier.meet f) := by
  intro x
  rw [mem_seen_foldl_meet, mem_next_foldl_meet, h x]
  tauto

theorem meet_during (h : Follows before f) (rest : List Ref) (r : Ref) :
    (during before rest f).meet r = during before rest (f.meet r) := by
  have hfound : r ∈ (during before rest f).found ↔ f.seen.contains r = true := by
    rw [Std.ExtTreeSet.contains_iff_mem, h r]
    simp [during]
  unfold meet Frontier.meet
  by_cases hr : f.seen.contains r = true
  · rw [if_pos (hfound.mpr hr), if_pos hr]
  · rw [if_neg (mt hfound.mp hr), if_neg hr]
    simp [during]

theorem foldl_meet_during (h : Follows before f) (rest rs : List Ref) :
    rs.foldl meet (during before rest f) = during before rest (rs.foldl Frontier.meet f) := by
  induction rs generalizing f with
  | nil => rfl
  | cons r rs ih =>
    have hr : Follows before (f.meet r) := h.foldl_meet [r]
    rw [List.foldl_cons, List.foldl_cons, meet_during h, ih hr]

/-- Visiting a level takes it off the queue and leaves the next level there. -/
theorem Ends.of_level (h : Follows before f)
    (hends : Ends g (during before []
      (level.foldl (fun f r => (g.dependents r).foldl Frontier.meet f) f)) answer) :
    Ends g (during before level f) answer := by
  induction level generalizing f with
  | nil => exact hends
  | cons r rest ih =>
    have hrest := ih (h.foldl_meet (g.dependents r)) hends
    rw [← foldl_meet_during h] at hrest
    exact .visit hrest

/-- A search whose queue is a level ends, with this level and those after it. -/
theorem ends_levels (hseen : ∀ x, x ∈ seen ↔ x ∈ before ++ level)
    (hdepth : (g.unused seen level).card < depth) :
    Ends g ⟨before ++ level, level⟩ (before ++ (g.levels depth seen level).flatten) := by
  induction depth generalizing before seen level with
  | zero => exact absurd hdepth (Nat.not_lt_zero _)
  | succ depth ih =>
    cases level with
    | nil =>
      rw [levels_nil, List.flatten_nil]
      exact .done
    | cons r rest =>
      let f := g.expand seen (r :: rest)
      have hfollows : Follows (before ++ r :: rest) ⟨seen, []⟩ := by simpa [Follows] using hseen
      have hstart : (⟨before ++ r :: rest, r :: rest⟩ : Search) =
          during (before ++ r :: rest) (r :: rest) ⟨seen, []⟩ := by simp [during]
      rw [hstart]
      refine Ends.of_level hfollows ?_
      change Ends g ⟨before ++ r :: rest ++ f.next.reverse, f.next.reverse⟩ _
      rw [levels, List.flatten_cons, ← List.append_assoc]
      by_cases hleads : ∃ q ∈ r :: rest, ∃ z, g.Edge q z
      · obtain ⟨q, hq, z, hqz⟩ := hleads
        have hless := unused_expand_lt hq hqz fun x hx =>
          (hseen x).mpr (List.mem_append_right before hx)
        -- The next level has used up a precedent, so the depth left is enough for it.
        refine ih (fun x => ?_) (hless.trans_le (Nat.le_of_lt_succ hdepth))
        rw [mem_seen_expand_iff, hseen, List.mem_append (t := f.next.reverse)]
      · push Not at hleads
        have hnone : f.next.reverse = [] := by rw [next_expand_eq_nil hleads, List.reverse_nil]
        change Ends g _ (_ ++ (g.levels depth f.seen f.next.reverse).flatten)
        rw [hnone, levels_nil, List.flatten_nil]
        exact .done

theorem ends_closure (g : Graph) (start : Ref) : Ends g ⟨[start], [start]⟩ (g.closure start) := by
  have hdepth : (g.unused {start} [start]).card < g.size + 1 :=
    Nat.lt_succ_of_le (g.card_unused_le {start} [start])
  have hseen : ∀ x, x ∈ ({start} : RefSet) ↔ x ∈ ([] : List Ref) ++ [start] := by
    simp [@eq_comm Ref start]
  exact ends_levels hseen hdepth

end Search

/-! ### The closure -/

/-- A search with one queue comes to an end from every reference, also in a graph with cycles, and
gives the closure. That lists what walks along edges lead to, once each and what is near first. -/
theorem closure_breadthFirst (g : Graph) (start : Ref) :
    (∀ answer, Search.Ends g ⟨[start], [start]⟩ answer ↔ answer = g.closure start) ∧
    (g.closure start).Nodup ∧ (g.closure start).head? = some start ∧
    (∀ x, x ∈ g.closure start ↔ ReflTransGen g.Edge start x) ∧
    (g.closure start).Pairwise fun x y => g.distance start x ≤ g.distance start y := by
  refine ⟨fun answer => ⟨fun hends => ?_, fun heq => ?_⟩, g.nodup_closure start,
    g.head?_closure start, fun _ => mem_closure, ?_⟩
  · exact hends.unique (Search.ends_closure g start)
  · exact heq ▸ Search.ends_closure g start
  · exact ((levelled_start g start).levels (g.size + 1)).2

end Spreadsheet.Graph
