import Mathlib.Data.Finset.Card
import Mathlib.Logic.Relation
import Spreadsheet.Graph.Closure
import Spreadsheet.Proofs.Graph.Edges

/-!
# The closure is reachability

The transitive dependents of a reference are listed once each, and they are exactly the references
to which a walk along edges leads. What bounds the number of levels is that every level but the last
holds a precedent of its own.
-/

namespace Spreadsheet.Graph

open Relation

/-! ### One level -/

theorem mem_seen_meet {f : Frontier} {r x : Ref} : x ∈ (f.meet r).seen ↔ x ∈ f.seen ∨ x = r := by
  unfold Frontier.meet
  split
  · rename_i hseen
    rw [Std.ExtTreeSet.contains_iff_mem] at hseen
    constructor
    · exact Or.inl
    · intro hmem
      rcases hmem with h | rfl
      · exact h
      · exact hseen
  · simp [@eq_comm Ref r, or_comm]

theorem mem_next_meet {f : Frontier} {r x : Ref} :
    x ∈ (f.meet r).next ↔ x ∈ f.next ∨ (x = r ∧ r ∉ f.seen) := by
  unfold Frontier.meet
  split
  · rename_i hseen
    rw [Std.ExtTreeSet.contains_iff_mem] at hseen
    simp [hseen]
  · rename_i hseen
    rw [Std.ExtTreeSet.contains_iff_mem] at hseen
    simp [hseen, or_comm]

theorem mem_seen_foldl_meet {f : Frontier} {rs : List Ref} {x : Ref} :
    x ∈ (rs.foldl Frontier.meet f).seen ↔ x ∈ f.seen ∨ x ∈ rs := by
  induction rs generalizing f with
  | nil => simp
  | cons r rest ih => rw [List.foldl_cons, ih, mem_seen_meet, List.mem_cons, or_assoc]

theorem mem_next_foldl_meet {f : Frontier} {rs : List Ref} {x : Ref} :
    x ∈ (rs.foldl Frontier.meet f).next ↔ x ∈ f.next ∨ (x ∈ rs ∧ x ∉ f.seen) := by
  induction rs generalizing f with
  | nil => simp
  | cons r rest ih =>
    rw [List.foldl_cons, ih, mem_next_meet, mem_seen_meet, List.mem_cons]
    by_cases hx : x = r
    · subst hx
      tauto
    · tauto

theorem nodup_next_foldl_meet {f : Frontier} {rs : List Ref} (hnodup : f.next.Nodup)
    (hseen : ∀ x ∈ f.next, x ∈ f.seen) : (rs.foldl Frontier.meet f).next.Nodup := by
  induction rs generalizing f with
  | nil => exact hnodup
  | cons r rest ih =>
    rw [List.foldl_cons]
    apply ih
    · unfold Frontier.meet
      split
      · exact hnodup
      · rename_i hr
        rw [Std.ExtTreeSet.contains_iff_mem] at hr
        exact List.nodup_cons.mpr ⟨fun h => hr (hseen r h), hnodup⟩
    · intro x hx
      rw [mem_next_meet] at hx
      rw [mem_seen_meet]
      rcases hx with hx | ⟨rfl, -⟩
      · exact Or.inl (hseen x hx)
      · exact Or.inr rfl

theorem expand_eq_foldl_meet (g : Graph) (seen : RefSet) (level : List Ref) :
    g.expand seen level = (level.flatMap g.dependents).foldl Frontier.meet ⟨seen, []⟩ := by
  rw [expand, List.foldl_flatMap]

theorem mem_seen_expand {g : Graph} {seen : RefSet} {level : List Ref} {x : Ref} :
    x ∈ (g.expand seen level).seen ↔ x ∈ seen ∨ ∃ r ∈ level, g.Edge r x := by
  simp only [expand_eq_foldl_meet, mem_seen_foldl_meet, List.mem_flatMap, mem_dependents]

theorem mem_next_expand {g : Graph} {seen : RefSet} {level : List Ref} {x : Ref} :
    x ∈ (g.expand seen level).next ↔ (∃ r ∈ level, g.Edge r x) ∧ x ∉ seen := by
  simp only [expand_eq_foldl_meet, mem_next_foldl_meet, List.mem_flatMap, mem_dependents,
    List.not_mem_nil, false_or]

theorem next_expand_eq_nil {g : Graph} {seen : RefSet} {level : List Ref}
    (hends : ∀ r ∈ level, ∀ x, ¬ g.Edge r x) : (g.expand seen level).next = [] := by
  refine List.eq_nil_iff_forall_not_mem.mpr fun x hx => ?_
  obtain ⟨⟨r, hr, hedge⟩, -⟩ := mem_next_expand.mp hx
  exact hends r hr x hedge

theorem nodup_next_expand (g : Graph) (seen : RefSet) (level : List Ref) :
    (g.expand seen level).next.Nodup := by
  rw [expand_eq_foldl_meet]
  exact nodup_next_foldl_meet List.nodup_nil (by simp)

/-! ### All levels -/

/-- What the levels hold is new, but for the first one. -/
theorem mem_levels_new {g : Graph} {depth : Nat} {seen : RefSet} {level : List Ref} {x : Ref}
    (hx : x ∈ (g.levels depth seen level).flatten) : x ∈ level ∨ x ∉ seen := by
  induction depth generalizing seen level with
  | zero => simp [levels] at hx
  | succ depth ih =>
    cases level with
    | nil => simp [levels] at hx
    | cons r rest =>
      simp only [levels, List.flatten_cons, List.mem_append] at hx
      rcases hx with hx | hx
      · exact Or.inl hx
      · rcases ih hx with hx | hx
        · rw [List.mem_reverse, mem_next_expand] at hx
          exact Or.inr hx.2
        · rw [mem_seen_expand] at hx
          exact Or.inr fun h => hx (Or.inl h)

theorem nodup_levels {g : Graph} {depth : Nat} {seen : RefSet} {level : List Ref}
    (hnodup : level.Nodup) (hseen : ∀ x ∈ level, x ∈ seen) :
    (g.levels depth seen level).flatten.Nodup := by
  induction depth generalizing seen level with
  | zero => simp [levels]
  | succ depth ih =>
    cases level with
    | nil => simp [levels]
    | cons r rest =>
      simp only [levels, List.flatten_cons]
      apply hnodup.append
      · apply ih (List.nodup_reverse.mpr (nodup_next_expand g seen (r :: rest)))
        intro x hx
        rw [List.mem_reverse, mem_next_expand] at hx
        exact mem_seen_expand.mpr (Or.inr hx.1)
      · intro x hx hlater
        rcases mem_levels_new hlater with h | h
        · rw [List.mem_reverse, mem_next_expand] at h
          exact h.2 (hseen x hx)
        · exact h (mem_seen_expand.mpr (Or.inl (hseen x hx)))

theorem reachable_of_mem_levels {g : Graph} {depth : Nat} {seen : RefSet} {level : List Ref}
    {x : Ref} (hx : x ∈ (g.levels depth seen level).flatten) :
    ∃ r ∈ level, ReflTransGen g.Edge r x := by
  induction depth generalizing seen level with
  | zero => simp [levels] at hx
  | succ depth ih =>
    cases level with
    | nil => simp [levels] at hx
    | cons r rest =>
      simp only [levels, List.flatten_cons, List.mem_append] at hx
      rcases hx with hx | hx
      · exact ⟨x, hx, ReflTransGen.refl⟩
      · obtain ⟨y, hy, hwalk⟩ := ih hx
        rw [List.mem_reverse, mem_next_expand] at hy
        obtain ⟨⟨q, hq, hedge⟩, -⟩ := hy
        exact ⟨q, hq, hwalk.head hedge⟩

/-- The precedents that earlier levels do not hold: each further level uses up one of them. -/
def unused (g : Graph) (seen : RefSet) (level : List Ref) : Finset Ref :=
  g.dependentsOf.keys.toFinset.filter fun r => r ∉ seen ∨ r ∈ level

theorem card_unused_le (g : Graph) (seen : RefSet) (level : List Ref) :
    (g.unused seen level).card ≤ g.size := by
  rw [size, ← Std.ExtTreeMap.length_keys]
  exact (Finset.card_filter_le _ _).trans (List.toFinset_card_le _)

theorem unused_expand_lt {g : Graph} {seen : RefSet} {level : List Ref} {r x : Ref} (hr : r ∈ level)
    (hedge : g.Edge r x) (hseen : ∀ x ∈ level, x ∈ seen) :
    (g.unused (g.expand seen level).seen (g.expand seen level).next.reverse).card
      < (g.unused seen level).card := by
  apply Finset.card_lt_card
  rw [Finset.ssubset_iff_of_subset]
  · refine ⟨r, ?_, ?_⟩
    · simp only [unused, Finset.mem_filter, List.mem_toFinset]
      exact ⟨hedge.mem_keys, Or.inr hr⟩
    · simp only [unused, Finset.mem_filter, mem_seen_expand, List.mem_reverse, mem_next_expand]
      have := hseen r hr
      tauto
  · intro y hy
    simp only [unused, Finset.mem_filter, mem_seen_expand, List.mem_reverse, mem_next_expand] at hy ⊢
    tauto

theorem levels_nil (g : Graph) (depth : Nat) (seen : RefSet) : g.levels depth seen [] = [] := by
  cases depth <;> rfl

theorem mem_levels_of_mem {g : Graph} {depth : Nat} {seen : RefSet} {level : List Ref} {x : Ref}
    (hx : x ∈ level) (hdepth : 0 < depth) : x ∈ (g.levels depth seen level).flatten := by
  obtain ⟨depth, rfl⟩ := Nat.exists_eq_add_of_lt hdepth
  cases level with
  | nil => cases hx
  | cons r rest =>
    simp only [Nat.zero_add, levels, List.flatten_cons, List.mem_append]
    exact Or.inl hx

/-- Of what was seen, only the last level may have dependents that were not. -/
def ClosedBefore (g : Graph) (seen : RefSet) (level : List Ref) : Prop :=
  ∀ x ∈ seen, x ∉ level → ∀ y, g.Edge x y → y ∈ seen

theorem mem_seen_expand_iff {g : Graph} {seen : RefSet} {level : List Ref} {x : Ref} :
    x ∈ (g.expand seen level).seen ↔ x ∈ seen ∨ x ∈ (g.expand seen level).next.reverse := by
  rw [mem_seen_expand, List.mem_reverse, mem_next_expand]
  tauto

theorem ClosedBefore.expand {g : Graph} {seen : RefSet} {level : List Ref}
    (h : g.ClosedBefore seen level) :
    g.ClosedBefore (g.expand seen level).seen (g.expand seen level).next.reverse := by
  intro x hx hnew y hedge
  have hseen := (mem_seen_expand_iff.mp hx).resolve_right hnew
  by_cases hlevel : x ∈ level
  · exact mem_seen_expand.mpr (Or.inr ⟨x, hlevel, hedge⟩)
  · exact mem_seen_expand_iff.mpr (Or.inl (h x hseen hlevel y hedge))

/-- With enough depth nothing is left out: the levels and what was seen before are closed under
edges. -/
theorem levels_closed {g : Graph} {depth : Nat} {seen : RefSet} {level : List Ref}
    (hseen : ∀ x ∈ level, x ∈ seen) (hclosed : g.ClosedBefore seen level)
    (hdepth : (g.unused seen level).card < depth) {x y : Ref}
    (hx : x ∈ seen ∨ x ∈ (g.levels depth seen level).flatten) (hedge : g.Edge x y) :
    y ∈ seen ∨ y ∈ (g.levels depth seen level).flatten := by
  induction depth generalizing seen level with
  | zero => exact absurd hdepth (Nat.not_lt_zero _)
  | succ depth ih =>
    cases level with
    | nil =>
      simp only [levels_nil, List.flatten_nil, List.not_mem_nil, or_false] at hx ⊢
      exact hclosed x hx List.not_mem_nil y hedge
    | cons r rest =>
      let f := g.expand seen (r :: rest)
      have hx' : x ∈ f.seen ∨ x ∈ (g.levels depth f.seen f.next.reverse).flatten := by
        simp only [levels, List.flatten_cons, List.mem_append] at hx
        rcases hx with hx | hx | hx
        · exact Or.inl (mem_seen_expand_iff.mpr (Or.inl hx))
        · exact Or.inl (mem_seen_expand_iff.mpr (Or.inl (hseen x hx)))
        · exact Or.inr hx
      simp only [levels, List.flatten_cons, List.mem_append]
      by_cases hleads : ∃ q ∈ r :: rest, ∃ z, g.Edge q z
      · obtain ⟨q, hq, z, hqz⟩ := hleads
        have hless : (g.unused f.seen f.next.reverse).card < (g.unused seen (r :: rest)).card :=
          unused_expand_lt hq hqz hseen
        have hy := ih (fun z hz => mem_seen_expand_iff.mpr (Or.inr hz)) hclosed.expand
          (hless.trans_le (Nat.le_of_lt_succ hdepth)) hx'
        rw [mem_seen_expand_iff] at hy
        rcases hy with (hy | hy) | hy
        · exact Or.inl hy
        · exact Or.inr (Or.inr (mem_levels_of_mem hy (by omega)))
        · exact Or.inr (Or.inr hy)
      · -- Nothing leads on, so there is no next level and nothing new was seen.
        push Not at hleads
        have hnone : f.next.reverse = [] := by rw [next_expand_eq_nil hleads, List.reverse_nil]
        rw [hnone, levels_nil] at hx'
        have hxseen : x ∈ f.seen := hx'.resolve_right List.not_mem_nil
        have hy : y ∈ f.seen := hclosed.expand x hxseen (hnone ▸ List.not_mem_nil) y hedge
        exact Or.inl ((mem_seen_expand_iff.mp hy).resolve_right (hnone ▸ List.not_mem_nil))

/-! ### The closure -/

/-- The closure of a reference is what walks along edges lead to. -/
theorem mem_closure {g : Graph} {start x : Ref} :
    x ∈ g.closure start ↔ ReflTransGen g.Edge start x := by
  constructor
  · intro hx
    obtain ⟨r, hr, hwalk⟩ := reachable_of_mem_levels hx
    rw [List.mem_singleton] at hr
    exact hr ▸ hwalk
  · intro hwalk
    have hfirst : start ∈ g.closure start :=
      mem_levels_of_mem (List.mem_singleton.mpr rfl) (Nat.succ_pos _)
    have hsize : (g.unused {start} [start]).card < g.size + 1 :=
      Nat.lt_succ_of_le (g.card_unused_le {start} [start])
    induction hwalk with
    | refl => exact hfirst
    | @tail y z _ hedge ih =>
      have hz := levels_closed (by simp) (by simp [ClosedBefore]) hsize (Or.inr ih) hedge
      rcases hz with hz | hz
      · have hstart : start = z := by simpa using hz
        exact hstart ▸ hfirst
      · exact hz

theorem nodup_closure (g : Graph) (start : Ref) : (g.closure start).Nodup :=
  nodup_levels (List.nodup_singleton start) (by simp)

theorem head?_closure (g : Graph) (start : Ref) : (g.closure start).head? = some start := by
  simp [closure, levels]

end Spreadsheet.Graph
