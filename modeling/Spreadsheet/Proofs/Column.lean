import Mathlib.Data.List.Induction
import Spreadsheet.Column
import Spreadsheet.Proofs.Text

/-!
# Column labels and their indices

A label has a value, its number in bijective base 26. The values and the labels in upper case
correspond one to one: `letters` gives the label with a value, and the index of a label is its value
unless that is too large. That no sum wraps around shows in the first lemmas, which are about any
number that is read digit by digit up to a bound.
-/

namespace Spreadsheet

open Text

/-! ### Reading up to a bound -/

section Bounded

variable {α : Type} {place : Nat → α → Nat}

theorem le_foldl_place (hmono : ∀ n c, n ≤ place n c) (cs : List α) (start : Nat) :
    start ≤ cs.foldl place start := by
  induction cs generalizing start with
  | nil => exact Nat.le_refl start
  | cons c rest ih => exact Nat.le_trans (hmono start c) (ih (place start c))

/-- A reading that stops at the first digit that is none, or that leads beyond a bound, gives the
number whenever that is within the bound: on the way it is never larger than at the end. -/
theorem foldlM_place_eq_some_iff {valid : α → Bool} {bound start n : Nat} {cs : List α}
    (hmono : ∀ n c, n ≤ place n c) (hstart : start ≤ bound) :
    cs.foldlM (fun n c => if valid c && place n c ≤ bound then some (place n c) else none) start
        = some n ↔
      (∀ c ∈ cs, valid c) ∧ cs.foldl place start = n ∧ n ≤ bound := by
  induction cs generalizing start with
  | nil =>
    simp only [List.foldlM_nil, List.foldl_nil, List.not_mem_nil, Option.pure_def, Option.some.injEq]
    constructor
    · rintro rfl
      exact ⟨fun c hc => hc.elim, rfl, hstart⟩
    · exact fun h => h.2.1
  | cons c rest ih =>
    rw [List.foldlM_cons, List.foldl_cons, List.forall_mem_cons, Option.bind_eq_bind]
    by_cases hc : valid c = true ∧ place start c ≤ bound
    · rw [if_pos (by simpa using hc), Option.bind_some, ih hc.2]
      simp only [hc.1, true_and]
    · rw [if_neg (by simpa using hc), Option.bind_none]
      refine iff_of_false (fun h => nomatch h) ?_
      rintro ⟨⟨hvalid, -⟩, rfl, hbound⟩
      exact hc ⟨hvalid, Nat.le_trans (le_foldl_place hmono rest _) hbound⟩

end Bounded

namespace Column

/-! ### Letters and their values -/

theorem letterValue_letter {digit : Nat} (h : digit < 26) : letterValue (letter digit) = digit + 1 := by
  have hall : ∀ d : Fin 26, letterValue (letter d.val) = d.val + 1 := by decide
  exact hall ⟨digit, h⟩

theorem letterValue_of_isUpper {c : Char} (h : c.isUpper) :
    ∃ digit, digit < 26 ∧ letterValue c = digit + 1 ∧ letter digit = c := by
  have hrange := toNat_of_isUpper h
  refine ⟨c.toNat - 65, by omega, ?_, ?_⟩
  · rw [letterValue, toUpper_of_isUpper h]
    rfl
  · rw [letter, show 'A'.toNat + (c.toNat - 65) = c.toNat by simp; omega, Char.ofNat_toNat]

theorem shift?_toUpper {c : Char} (h : c.isAlpha) (index : Nat) :
    shift? index c.toUpper = shift? index c := by
  have hupper := isUpper_toUpper h
  rw [shift?, shift?, letterValue, letterValue, toUpper_of_isUpper hupper, h,
    isAlpha_of_isUpper hupper]

theorem index?_upper {cs : List Char} (h : ∀ c ∈ cs, c.isAlpha) :
    index? (upper cs) = index? cs := by
  have hfold : ∀ (cs : List Char) (index : Nat), (∀ c ∈ cs, c.isAlpha) →
      (upper cs).foldlM shift? index = cs.foldlM shift? index := by
    intro cs
    induction cs with
    | nil => intros; rfl
    | cons c rest ih =>
      intro index hall
      rw [upper, List.map_cons, List.foldlM_cons, List.foldlM_cons,
        shift?_toUpper (hall c List.mem_cons_self)]
      exact congrArg _ (funext fun next => ih next fun d hd => hall d (List.mem_cons_of_mem c hd))
  simp only [index?, upper, List.isEmpty_map]
  rw [← upper, hfold cs 0 h]

/-! ### Labels and their values -/

/-- The value of a label in bijective base 26. -/
def value (cs : List Char) : Nat := cs.foldl (fun index c => index * 26 + letterValue c) 0

theorem value_concat (cs : List Char) (c : Char) : value (cs ++ [c]) = value cs * 26 + letterValue c := by
  rw [value, List.foldl_append]
  rfl

/-- Whether a label has an index depends on its value only. -/
theorem index?_eq_some_iff {cs : List Char} {n : Nat} :
    index? cs = some n ↔ cs ≠ [] ∧ (∀ c ∈ cs, c.isAlpha) ∧ value cs = n ∧ n ≤ maxIndex := by
  have hmono : ∀ n c, n ≤ n * 26 + letterValue c := fun n c => by omega
  have hread : cs.foldlM shift? 0 = some n ↔
      (∀ c ∈ cs, c.isAlpha) ∧ value cs = n ∧ n ≤ maxIndex :=
    foldlM_place_eq_some_iff hmono (Nat.zero_le maxIndex)
  rw [index?]
  split
  · rename_i hnone
    exact iff_of_false (fun h => nomatch h) fun h => h.1 (List.isEmpty_iff.mp hnone)
  · rename_i hsome
    rw [List.isEmpty_iff] at hsome
    exact hread.trans (and_iff_right hsome).symm

theorem letters_zero : letters 0 = [] := by
  rw [letters, lettersReversed, List.reverse_nil]

/-- One more letter at the end of a label. -/
theorem letters_shift (index : Nat) {digit : Nat} (h : digit < 26) :
    letters (index * 26 + (digit + 1)) = letters index ++ [letter digit] := by
  rw [letters, ← Nat.add_assoc, lettersReversed, List.reverse_cons]
  rw [show (index * 26 + digit) % 26 = digit by omega, show (index * 26 + digit) / 26 = index by omega]
  rfl

theorem value_letters (n : Nat) : value (letters n) = n := by
  induction n using Nat.strongRecOn with
  | ind n ih =>
    cases n with
    | zero => rw [letters_zero, value, List.foldl_nil]
    | succ m =>
      have hdigit : m % 26 < 26 := Nat.mod_lt m (by decide)
      rw [show m + 1 = m / 26 * 26 + (m % 26 + 1) by omega, letters_shift _ hdigit, value_concat,
        letterValue_letter hdigit, ih (m / 26) (by omega)]

theorem letters_value {cs : List Char} (h : ∀ c ∈ cs, c.isUpper) : letters (value cs) = cs := by
  induction cs using List.reverseRecOn with
  | nil => exact letters_zero
  | append_singleton cs c ih =>
    obtain ⟨digit, hdigit, hvalue, hletter⟩ :=
      letterValue_of_isUpper (h c (List.mem_append_right cs List.mem_cons_self))
    rw [value_concat, hvalue, letters_shift _ hdigit, hletter,
      ih fun d hd => h d (List.mem_append_left [c] hd)]

theorem letters_ne_nil {n : Nat} (h : n ≠ 0) : letters n ≠ [] := by
  intro hnil
  apply h
  rw [← value_letters n, hnil]
  rfl

/-- The index of the label of a number is that number, if that is an index. -/
theorem index?_letters (n : Nat) :
    index? (letters n) = if n ≠ 0 ∧ n ≤ maxIndex then some n else none := by
  split
  · rename_i hn
    refine index?_eq_some_iff.mpr ⟨letters_ne_nil hn.1, fun c hc => ?_, value_letters n, hn.2⟩
    exact isAlpha_of_isUpper (isUpper_of_mem_letters hc)
  · rename_i hn
    rw [Option.eq_none_iff_forall_ne_some]
    intro m hm
    obtain ⟨hne, -, hvalue, hle⟩ := index?_eq_some_iff.mp hm
    rw [value_letters] at hvalue
    subst hvalue
    refine hn ⟨?_, hle⟩
    rintro rfl
    exact hne letters_zero

/-- A label in upper case is the label of its index. -/
theorem eq_letters_of_index? {cs : List Char} {n : Nat} (hupper : ∀ c ∈ cs, c.isUpper)
    (h : index? cs = some n) : cs = letters n := by
  obtain ⟨-, -, hvalue, -⟩ := index?_eq_some_iff.mp h
  rw [← hvalue, letters_value hupper]

end Column

end Spreadsheet
