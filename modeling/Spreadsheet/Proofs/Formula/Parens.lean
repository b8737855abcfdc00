import Mathlib.Data.List.Infix

/-!
# Open and closed parentheses

A text is `Balanced` if its parentheses match each other. Of any beginning of such a text `Opened`
lists where the parentheses stand that are still open: between one and the next, and behind the
innermost one, all is balanced. What follows `ClosesOne` of them if its own parentheses match each other
up to a closing one, and that is a matter of counting.
-/

namespace Spreadsheet.Formula

/-- All parentheses match each other. -/
inductive Balanced : List Char → Prop where
  | nil : Balanced []
  | other {c : Char} {cs : List Char} (hopen : c ≠ '(') (hclose : c ≠ ')') (h : Balanced cs) :
      Balanced (c :: cs)
  | group {inside cs : List Char} (hinside : Balanced inside) (h : Balanced cs) :
      Balanced ('(' :: (inside ++ ')' :: cs))

/-- The positions of the open parentheses of a text, the innermost one first. -/
inductive Opened : List Nat → List Char → Prop where
  | nil {cs : List Char} (h : Balanced cs) : Opened [] cs
  | cons {outer : List Nat} {before inside : List Char} (h : Opened outer before)
      (hinside : Balanced inside) : Opened (before.length :: outer) (before ++ '(' :: inside)

/-- The text closes a parenthesis that is open before it. -/
def ClosesOne (cs : List Char) : Prop :=
  ∃ inside rest, cs = inside ++ ')' :: rest ∧ Balanced inside

variable {cs more inside : List Char} {opened outer : List Nat} {innermost : Nat}

namespace Balanced

theorem append (h : Balanced cs) (hmore : Balanced more) : Balanced (cs ++ more) := by
  induction h with
  | nil => exact hmore
  | other hopen hclose _ ih => exact .other hopen hclose ih
  | group hinside _ _ ih =>
    rw [List.cons_append, List.append_assoc, List.cons_append]
    exact .group hinside ih

theorem of_forall_ne (h : ∀ c ∈ cs, c ≠ '(' ∧ c ≠ ')') : Balanced cs := by
  induction cs with
  | nil => exact .nil
  | cons c cs ih =>
    obtain ⟨⟨hopen, hclose⟩, hcs⟩ := List.forall_mem_cons.mp h
    exact .other hopen hclose (ih hcs)

theorem count_eq (h : Balanced cs) : cs.count '(' = cs.count ')' := by
  induction h with
  | nil => rfl
  | other hopen hclose _ ih => rw [List.count_cons_of_ne hopen, List.count_cons_of_ne hclose, ih]
  | group _ _ ihinside ih =>
    rw [List.count_cons_self, List.count_cons_of_ne (by decide), List.count_append, List.count_append,
      List.count_cons_self, List.count_cons_of_ne (by decide), ihinside, ih]
    omega

/-- No beginning of a balanced text closes more than it opens. -/
theorem count_le (h : Balanced cs) {front : List Char} (hfront : front <+: cs) :
    front.count ')' ≤ front.count '(' := by
  induction h generalizing front with
  | nil => simp [List.prefix_nil.mp hfront]
  | other hopen hclose _ ih =>
    obtain rfl | ⟨front, rfl, htail⟩ := List.prefix_cons_iff.mp hfront
    · simp
    · simpa [hopen, hclose] using ih htail
  | @group inside cs hinside _ ihinside ih =>
    obtain rfl | ⟨front, rfl, rest, hrest⟩ := List.prefix_cons_iff.mp hfront
    · simp
    obtain ⟨more, hmore, -⟩ | ⟨more, rfl, hmore⟩ := List.append_eq_append_iff.mp hrest
    · have hle := ihinside ⟨more, hmore.symm⟩
      simp
      omega
    · have hcount := hinside.count_eq
      cases more with
      | nil => simp; omega
      | cons c more =>
        obtain ⟨rfl, hcs⟩ := List.cons.inj hmore
        have hle := ih ⟨rest, hcs.symm⟩
        simp [List.count_append]
        omega

end Balanced

/-! ### Texts that close a parenthesis -/

theorem closesOne_of_count_lt (h : cs.count '(' < cs.count ')') : ClosesOne cs := by
  induction hlength : cs.length using Nat.strongRecOn generalizing cs with
  | ind n ih =>
    cases cs with
    | nil => simp at h
    | cons c cs =>
      by_cases hclose : c = ')'
      · subst hclose
        exact ⟨[], cs, rfl, .nil⟩
      by_cases hopen : c = '('
      · -- The parenthesis is closed, and what follows it closes one more.
        subst hopen
        simp at h hlength
        obtain ⟨inside, rest, rfl, hinside⟩ := ih cs.length (by omega) (by omega) rfl
        have hcount := hinside.count_eq
        simp [List.count_append] at h hlength
        obtain ⟨inside', rest', rfl, hinside'⟩ := ih rest.length (by omega) (by omega) rfl
        exact ⟨'(' :: (inside ++ ')' :: inside'), rest', by simp, .group hinside hinside'⟩
      · simp [hopen, hclose] at h hlength
        obtain ⟨inside, rest, rfl, hinside⟩ := ih cs.length (by omega) h rfl
        exact ⟨c :: inside, rest, rfl, .other hopen hclose hinside⟩

/-- A text closes a parenthesis exactly if some beginning of it closes more than it opens. -/
theorem closesOne_iff : ClosesOne cs ↔ ∃ front, front <+: cs ∧ front.count '(' < front.count ')' := by
  constructor
  · intro ⟨inside, rest, hcs, hinside⟩
    refine ⟨inside ++ [')'], ⟨rest, by simp [hcs]⟩, ?_⟩
    have hcount := hinside.count_eq
    simp [List.count_append]
    omega
  · intro ⟨front, ⟨more, hmore⟩, hcount⟩
    obtain ⟨inside, rest, rfl, hinside⟩ := closesOne_of_count_lt hcount
    exact ⟨inside, rest ++ more, by simp [← hmore], hinside⟩

/-- Balanced parentheses before a text leave it what it closes. -/
theorem closesOne_append_iff (h : Balanced inside) : ClosesOne (inside ++ cs) ↔ ClosesOne cs := by
  rw [closesOne_iff, closesOne_iff]
  have hcount := h.count_eq
  constructor
  · intro ⟨front, ⟨rest, hrest⟩, hlt⟩
    obtain ⟨more, hmore, -⟩ | ⟨more, rfl, hmore⟩ := List.append_eq_append_iff.mp hrest
    · have hle := h.count_le ⟨more, hmore.symm⟩
      omega
    · refine ⟨more, ⟨rest, hmore.symm⟩, ?_⟩
      rw [List.count_append, List.count_append] at hlt
      omega
  · intro ⟨front, hfront, hlt⟩
    refine ⟨inside ++ front, (List.prefix_append_right_inj inside).mpr hfront, ?_⟩
    rw [List.count_append, List.count_append]
    omega

namespace Opened

theorem exists_of_cons (h : Opened (innermost :: outer) cs) : ∃ before inside,
    cs = before ++ '(' :: inside ∧ innermost = before.length ∧ Balanced inside := by
  cases h with
  | cons _ hinside => exact ⟨_, _, rfl, rfl, hinside⟩

theorem append (h : Opened opened cs) (hinside : Balanced inside) : Opened opened (cs ++ inside) := by
  cases h with
  | nil h => exact .nil (h.append hinside)
  | cons h hbefore =>
    rw [List.append_assoc, List.cons_append]
    exact .cons h (hbefore.append hinside)

theorem openParen (h : Opened opened cs) : Opened (cs.length :: opened) (cs ++ ['(']) :=
  .cons h .nil

theorem closeParen (h : Opened (innermost :: outer) cs) : Opened outer (cs ++ [')']) := by
  cases h with
  | @cons _ before inside h hinside =>
    rw [List.append_assoc]
    exact h.append (.group hinside .nil)

theorem count_eq (h : Opened opened cs) : cs.count '(' = cs.count ')' + opened.length := by
  induction h with
  | nil h => exact h.count_eq
  | cons _ hinside ih =>
    rw [List.count_append, List.count_append, List.count_cons_self, List.count_cons_of_ne (by decide),
      ih, hinside.count_eq, List.length_cons]
    omega

end Opened

end Spreadsheet.Formula
