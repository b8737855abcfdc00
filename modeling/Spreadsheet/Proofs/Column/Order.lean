import Mathlib.Data.List.Shortlex
import Spreadsheet.Proofs.Column

/-!
# Columns in order

The value of a label is a sum: every letter counts by its rank in the alphabet and by the power of 26
that belongs to its place. The labels of one length have an interval of values to themselves, so a
longer label has the larger value, and of two labels of one length the first letter that differs
decides. Hence columns come in the order of their labels when shorter labels go first.
-/

namespace Spreadsheet.Column

open Text

/-! ### Values by places -/

/-- The rank of a letter in the alphabet, in either case. -/
def rank (c : Char) : Nat := "ABCDEFGHIJKLMNOPQRSTUVWXYZ".toList.idxOf c.toUpper + 1

/-- The number that a label is in bijective base 26. -/
def placeValue : List Char → Nat
  | [] => 0
  | c :: cs => rank c * 26 ^ cs.length + placeValue cs

theorem rank_eq_letterValue {c : Char} (h : c.isAlpha) : rank c = letterValue c := by
  have hall : ∀ d : Fin 26,
      "ABCDEFGHIJKLMNOPQRSTUVWXYZ".toList.idxOf (letter d.val) = d.val := by decide +kernel
  obtain ⟨digit, hdigit, hvalue, hletter⟩ := letterValue_of_isUpper (isUpper_toUpper h)
  have hupper : c.toUpper.toUpper = c.toUpper := toUpper_of_isUpper (isUpper_toUpper h)
  calc
    rank c = digit + 1 := by rw [rank, ← hletter, hall ⟨digit, hdigit⟩]
    _ = letterValue c.toUpper := hvalue.symm
    _ = letterValue c := by rw [letterValue, letterValue, hupper]

theorem foldl_place (cs : List Char) (start : Nat) :
    cs.foldl (fun index c => index * 26 + letterValue c) start =
      start * 26 ^ cs.length + value cs := by
  induction cs generalizing start with
  | nil => simp [value]
  | cons c cs ih =>
    rw [value, List.foldl_cons, List.foldl_cons, ih, ih, List.length_cons, Nat.pow_succ,
      Nat.zero_mul, Nat.zero_add, Nat.add_mul, Nat.mul_assoc, Nat.mul_comm 26, Nat.add_assoc]

theorem value_cons (c : Char) (cs : List Char) :
    value (c :: cs) = letterValue c * 26 ^ cs.length + value cs := by
  rw [value, List.foldl_cons, foldl_place, Nat.zero_mul, Nat.zero_add]

theorem value_eq_placeValue {cs : List Char} (h : ∀ c ∈ cs, c.isAlpha) : value cs = placeValue cs := by
  induction cs with
  | nil => rfl
  | cons c cs ih =>
    obtain ⟨hc, hcs⟩ := List.forall_mem_cons.mp h
    rw [value_cons, placeValue, rank_eq_letterValue hc, ih hcs]

/-! ### The order of labels -/

variable {cs ds : List Char}

theorem letterValue_bounds {c : Char} (h : c.isUpper) : 1 ≤ letterValue c ∧ letterValue c ≤ 26 := by
  obtain ⟨digit, hdigit, hvalue, -⟩ := letterValue_of_isUpper h
  omega

theorem letterValue_lt {c d : Char} (hc : c.isUpper) (hd : d.isUpper) (h : c < d) :
    letterValue c < letterValue d := by
  have hlt : c.toNat < d.toNat := h
  have hcode : 'A'.toNat = 65 := rfl
  have := toNat_of_isUpper hc
  rw [letterValue, letterValue, toUpper_of_isUpper hc, toUpper_of_isUpper hd]
  omega

/-- The values of the labels of one length lie between that of the label `AA…A` and that of `ZZ…Z`. -/
theorem value_bounds (h : ∀ c ∈ cs, c.isUpper) :
    26 ^ cs.length ≤ 25 * value cs + 1 ∧ 25 * value cs + 26 ≤ 26 ^ (cs.length + 1) := by
  induction cs with
  | nil => decide
  | cons c cs ih =>
    obtain ⟨hc, hcs⟩ := List.forall_mem_cons.mp h
    obtain ⟨hone, hlast⟩ := letterValue_bounds hc
    have hlow : 1 * 26 ^ cs.length ≤ letterValue c * 26 ^ cs.length := Nat.mul_le_mul_right _ hone
    have hhigh : letterValue c * 26 ^ cs.length ≤ 26 * 26 ^ cs.length :=
      Nat.mul_le_mul_right _ hlast
    have hrest := ih hcs
    simp only [value_cons, List.length_cons, Nat.pow_succ] at hrest ⊢
    omega

theorem value_lt_of_length_lt (hcs : ∀ c ∈ cs, c.isUpper) (hds : ∀ c ∈ ds, c.isUpper)
    (h : cs.length < ds.length) : value cs < value ds := by
  have hmono : 26 ^ (cs.length + 1) ≤ 26 ^ ds.length := Nat.pow_le_pow_right (by decide) h
  have := value_bounds hcs
  have := value_bounds hds
  omega

theorem value_lt_of_lex (hcs : ∀ c ∈ cs, c.isUpper) (hds : ∀ c ∈ ds, c.isUpper)
    (hlength : cs.length = ds.length) (h : List.Lex (· < ·) cs ds) : value cs < value ds := by
  induction h with
  | nil => cases hlength
  | @cons c cs ds h ih =>
    have hrest := ih (List.forall_mem_cons.mp hcs).2 (List.forall_mem_cons.mp hds).2
      (Nat.succ.inj hlength)
    rw [value_cons, value_cons, Nat.succ.inj hlength]
    omega
  | @rel c cs d ds h =>
    obtain ⟨hc, hcs⟩ := List.forall_mem_cons.mp hcs
    obtain ⟨hd, hds⟩ := List.forall_mem_cons.mp hds
    have hcarry : (letterValue c + 1) * 26 ^ ds.length ≤ letterValue d * 26 ^ ds.length :=
      Nat.mul_le_mul_right _ (letterValue_lt hc hd h)
    have hhigh := (value_bounds hcs).2
    have hlow := (value_bounds hds).1
    rw [value_cons, value_cons, Nat.succ.inj hlength]
    rw [Nat.succ.inj hlength, Nat.pow_succ] at hhigh
    rw [Nat.add_mul] at hcarry
    omega

theorem value_lt_of_shortlex (hcs : ∀ c ∈ cs, c.isUpper) (hds : ∀ c ∈ ds, c.isUpper)
    (h : List.Shortlex (· < ·) cs ds) : value cs < value ds := by
  rcases List.shortlex_def.mp h with hshorter | ⟨hlength, hlex⟩
  · exact value_lt_of_length_lt hcs hds hshorter
  · exact value_lt_of_lex hcs hds hlength hlex

theorem letters_injective : Function.Injective letters := by
  intro n m h
  rw [← value_letters n, ← value_letters m, h]

theorem lt_iff_shortlex_letters (n m : Nat) :
    n < m ↔ List.Shortlex (· < ·) (letters n) (letters m) := by
  have hlt {n m : Nat} (h : List.Shortlex (· < ·) (letters n) (letters m)) : n < m := by
    have hvalue := value_lt_of_shortlex (fun _ => isUpper_of_mem_letters)
      (fun _ => isUpper_of_mem_letters) h
    rwa [value_letters, value_letters] at hvalue
  constructor
  · intro h
    by_contra hnot
    have heq : letters n = letters m :=
      Std.Trichotomous.trichotomous (r := List.Shortlex (· < ·)) _ _ hnot
        fun hgreater => absurd (hlt hgreater) (Nat.lt_asymm h)
    exact Nat.ne_of_lt h (letters_injective heq)
  · exact hlt

/-! ### Labels and indices -/

theorem index?_eq_some_iff_placeValue {n : Nat} : index? cs = some n ↔
    cs ≠ [] ∧ (∀ c ∈ cs, c.isAlpha) ∧ placeValue cs = n ∧ n ≤ maxIndex := by
  rw [index?_eq_some_iff]
  refine and_congr_right fun _ => and_congr_right fun halpha => ?_
  rw [value_eq_placeValue halpha]

theorem index?_eq_none_iff (hne : cs ≠ []) (halpha : ∀ c ∈ cs, c.isAlpha) :
    index? cs = none ↔ maxIndex < placeValue cs := by
  rw [Option.eq_none_iff_forall_ne_some, ← Nat.not_le]
  constructor
  · intro h hle
    exact h _ (index?_eq_some_iff_placeValue.mpr ⟨hne, halpha, rfl, hle⟩)
  · intro h n hn
    obtain ⟨-, -, rfl, hle⟩ := index?_eq_some_iff_placeValue.mp hn
    exact h hle

theorem upper_eq_letters {n : Nat} (h : index? cs = some n) : upper cs = letters n := by
  have halpha := (index?_eq_some_iff.mp h).2.1
  exact eq_letters_of_index? (fun _ => isUpper_of_mem_upper halpha) ((index?_upper halpha).trans h)

/-- Labels and indices correspond one to one and in order. Every index has a label in capital letters
that is read as this index. A text has an index exactly if it is letters whose number is not too
large, and then the label of the index is the text in capital letters. Of two indices the smaller one
has the shorter label, or of two labels of one length the alphabetically first one. -/
theorem labels_correspond :
    (∀ n, 1 ≤ n → n ≤ maxIndex → label n ≠ "" ∧ (∀ c ∈ (label n).toList, c.isUpper) ∧
      index? (label n).toList = some n) ∧
    (∀ (l : String) (n : Nat), index? l.toList = some n ↔
      l ≠ "" ∧ (∀ c ∈ l.toList, c.isAlpha) ∧ placeValue l.toList = n ∧ n ≤ maxIndex) ∧
    (∀ l : String, l ≠ "" → (∀ c ∈ l.toList, c.isAlpha) →
      (index? l.toList = none ↔ maxIndex < placeValue l.toList)) ∧
    (∀ (l : String) (n : Nat), index? l.toList = some n →
      label n = String.ofList (upper l.toList)) ∧
    ∀ n m, n < m ↔ List.Shortlex (· < ·) (label n).toList (label m).toList := by
  have hlabel : ∀ n, (label n).toList = letters n := fun n => String.toList_ofList
  have hempty : ∀ l : String, l ≠ "" ↔ l.toList ≠ [] := fun l => not_congr String.toList_eq_nil_iff.symm
  refine ⟨fun n hpos hle => ?_, fun l n => ?_, fun l hne halpha => ?_, fun l n h => ?_, fun n m => ?_⟩
  · have hzero : n ≠ 0 := Nat.ne_of_gt hpos
    rw [hempty, hlabel]
    refine ⟨letters_ne_nil hzero, fun c => isUpper_of_mem_letters, ?_⟩
    rw [index?_letters, if_pos ⟨hzero, hle⟩]
  · rw [hempty]
    exact index?_eq_some_iff_placeValue
  · exact index?_eq_none_iff ((hempty l).mp hne) halpha
  · rw [label, upper_eq_letters h]
  · rw [hlabel, hlabel]
    exact lt_iff_shortlex_letters n m

/-- The label of the last column, in either case, and the label behind it. -/
theorem labels_correspond_of_last :
    index? "gKGWBYLWRXTLPo".toList = some maxIndex ∧ label maxIndex = "GKGWBYLWRXTLPO" ∧
      index? (label maxIndex).toList = some maxIndex ∧ index? "GKGWBYLWRXTLPP".toList = none := by
  obtain ⟨hlabel, hread, hnone, hupper, -⟩ := labels_correspond
  have hlast : index? "gKGWBYLWRXTLPo".toList = some maxIndex :=
    (hread _ _).mpr ⟨by decide, List.all_eq_true.mp (by decide +kernel), by decide +kernel,
      Nat.le_refl _⟩
  refine ⟨hlast, ?_, (hlabel maxIndex (by decide) (Nat.le_refl _)).2.2, ?_⟩
  · rw [hupper _ _ hlast]
    decide +kernel
  · exact (hnone _ (by decide) (List.all_eq_true.mp (by decide +kernel))).mpr (by decide +kernel)

end Spreadsheet.Column
