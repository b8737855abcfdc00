import Mathlib.Data.List.DropRight
import Spreadsheet.Text

/-!
# Letters, digits and blanks

Which characters exclude each other, and what stays as it is when a text is trimmed or written in
upper case.
-/

namespace Spreadsheet.Text

/-! ### Classes of characters -/

theorem toNat_of_isUpper {c : Char} (h : c.isUpper) : 65 ≤ c.toNat ∧ c.toNat ≤ 90 := by
  delta Char.isUpper at h
  simp only [decide_eq_true_eq, ge_iff_le, UInt32.le_iff_toNat_le] at h
  exact h

theorem toNat_of_isLower {c : Char} (h : c.isLower) : 97 ≤ c.toNat ∧ c.toNat ≤ 122 := by
  delta Char.isLower at h
  simp only [Bool.and_eq_true, decide_eq_true_eq, ge_iff_le, UInt32.le_iff_toNat_le] at h
  exact h

theorem toNat_of_isDigit {c : Char} (h : c.isDigit) : 48 ≤ c.toNat ∧ c.toNat ≤ 57 := by
  simp only [Char.isDigit, Bool.and_eq_true, decide_eq_true_eq, ge_iff_le, UInt32.le_iff_toNat_le] at h
  exact h

theorem toNat_of_isAlpha {c : Char} (h : c.isAlpha) :
    (65 ≤ c.toNat ∧ c.toNat ≤ 90) ∨ (97 ≤ c.toNat ∧ c.toNat ≤ 122) := by
  delta Char.isAlpha at h
  rw [Bool.or_eq_true] at h
  exact h.imp toNat_of_isUpper toNat_of_isLower

theorem isAlpha_of_isUpper {c : Char} (h : c.isUpper) : c.isAlpha := by
  show (c.isUpper || c.isLower) = true
  rw [h, Bool.true_or]

theorem not_isAlpha_of_isDigit {c : Char} (h : c.isDigit) : ¬ c.isAlpha := by
  intro halpha
  have hdigit := toNat_of_isDigit h
  have hletter := toNat_of_isAlpha halpha
  omega

theorem not_isBlank_of_isAlpha {c : Char} (h : c.isAlpha) : ¬ isBlank c := by
  have hletter := toNat_of_isAlpha h
  simp only [isBlank, Bool.or_eq_true, Bool.and_eq_true, decide_eq_true_eq, beq_iff_eq]
  omega

theorem not_isBlank_of_isDigit {c : Char} (h : c.isDigit) : ¬ isBlank c := by
  have hdigit := toNat_of_isDigit h
  simp only [isBlank, Bool.or_eq_true, Bool.and_eq_true, decide_eq_true_eq, beq_iff_eq]
  omega

/-! ### Runs -/

theorem takeWhile_append_run {p : Char → Bool} {run rest : List Char} (hrun : ∀ c ∈ run, p c)
    (hrest : ∀ c ∈ rest.head?, ¬ p c) : (run ++ rest).takeWhile p = run := by
  rw [List.takeWhile_append_of_pos hrun]
  cases rest with
  | nil => rw [List.takeWhile_nil, List.append_nil]
  | cons c rest => rw [List.takeWhile_cons_of_neg (hrest c rfl), List.append_nil]

theorem dropWhile_append_run {p : Char → Bool} {run rest : List Char} (hrun : ∀ c ∈ run, p c)
    (hrest : ∀ c ∈ rest.head?, ¬ p c) : (run ++ rest).dropWhile p = rest := by
  rw [List.dropWhile_append_of_pos hrun]
  cases rest with
  | nil => rfl
  | cons c rest => exact List.dropWhile_cons_of_neg (hrest c rfl)

/-- A run that ends before the text is cut off stays as it is. -/
theorem takeWhile_of_prefix {p : Char → Bool} {as bs : List Char} (h : as <+: bs)
    (hlength : (bs.takeWhile p).length ≤ as.length) :
    as.takeWhile p = bs.takeWhile p ∧ as.dropWhile p <+: bs.dropWhile p := by
  induction as generalizing bs with
  | nil =>
    rw [List.length_nil, Nat.le_zero, List.length_eq_zero_iff] at hlength
    exact ⟨hlength.symm, List.nil_prefix⟩
  | cons a as ih =>
    obtain ⟨rest, rfl⟩ := h
    rw [List.cons_append] at hlength ⊢
    by_cases ha : p a
    · rw [List.takeWhile_cons_of_pos ha, List.length_cons, List.length_cons] at hlength
      obtain ⟨htake, hdrop⟩ := ih (List.prefix_append as rest) (Nat.le_of_succ_le_succ hlength)
      rw [List.takeWhile_cons_of_pos ha, List.takeWhile_cons_of_pos ha, List.dropWhile_cons_of_pos ha,
        List.dropWhile_cons_of_pos ha, htake]
      exact ⟨rfl, hdrop⟩
    · rw [List.takeWhile_cons_of_neg ha, List.takeWhile_cons_of_neg ha, List.dropWhile_cons_of_neg ha,
        List.dropWhile_cons_of_neg ha, ← List.cons_append]
      exact ⟨rfl, List.prefix_append _ rest⟩

theorem of_mem_takeWhile {p : Char → Bool} {cs : List Char} : ∀ c ∈ cs.takeWhile p, p c :=
  List.all_eq_true.mp List.all_takeWhile

theorem not_of_mem_head?_dropWhile {p : Char → Bool} {cs : List Char} :
    ∀ c ∈ (cs.dropWhile p).head?, ¬ p c := by
  intro c hc
  have hnot := List.head?_dropWhile_not p cs
  rw [hc] at hnot
  exact Bool.eq_false_iff.mp hnot

/-- A run that ends within a text ends there also in a longer one. -/
theorem takeWhile_append_of_ended {p : Char → Bool} {as : List Char} (h : as.dropWhile p ≠ [])
    (bs : List Char) : (as ++ bs).takeWhile p = as.takeWhile p ∧
      (as ++ bs).dropWhile p = as.dropWhile p ++ bs := by
  have hsplit : as.takeWhile p ++ (as.dropWhile p ++ bs) = as ++ bs := by
    rw [← List.append_assoc, List.takeWhile_append_dropWhile]
  have hend : ∀ c ∈ (as.dropWhile p ++ bs).head?, ¬ p c := by
    rw [List.head?_append_of_ne_nil _ h]
    exact not_of_mem_head?_dropWhile
  rw [← hsplit, takeWhile_append_run of_mem_takeWhile hend, dropWhile_append_run of_mem_takeWhile hend]
  exact ⟨rfl, rfl⟩

/-! ### Upper case -/

theorem toUpper_of_not_isLower {c : Char} (h : ¬ c.isLower) : c.toUpper = c := by
  have hrange : ¬ (c.val ≥ 'a'.val ∧ c.val ≤ 'z'.val) := by
    delta Char.isLower at h
    rwa [Bool.and_eq_true, decide_eq_true_eq, decide_eq_true_eq] at h
  delta Char.toUpper
  rw [dif_neg hrange]

theorem toUpper_of_isUpper {c : Char} (h : c.isUpper) : c.toUpper = c := by
  apply toUpper_of_not_isLower
  intro hlower
  have := toNat_of_isUpper h
  have := toNat_of_isLower hlower
  omega

theorem toUpper_of_isDigit {c : Char} (h : c.isDigit) : c.toUpper = c := by
  apply toUpper_of_not_isLower
  intro hlower
  have := toNat_of_isDigit h
  have := toNat_of_isLower hlower
  omega

theorem isAlpha_of_mem_upper {cs : List Char} (h : ∀ c ∈ cs, c.isAlpha) :
    ∀ c ∈ upper cs, c.isAlpha :=
  fun _ hc => isAlpha_of_isUpper (isUpper_of_mem_upper h hc)

theorem upper_append (as bs : List Char) : upper (as ++ bs) = upper as ++ upper bs :=
  List.map_append

theorem upper_of_isUpper {cs : List Char} (h : ∀ c ∈ cs, c.isUpper) : upper cs = cs := by
  rw [upper, List.map_congr_left fun c hc => toUpper_of_isUpper (h c hc), List.map_id']

theorem upper_of_isDigit {cs : List Char} (h : ∀ c ∈ cs, c.isDigit) : upper cs = cs := by
  rw [upper, List.map_congr_left fun c hc => toUpper_of_isDigit (h c hc), List.map_id']

theorem upper_upper {cs : List Char} (h : ∀ c ∈ cs, c.isAlpha) : upper (upper cs) = upper cs :=
  upper_of_isUpper fun _ => isUpper_of_mem_upper h

/-! ### Trimming -/

/-- Neither the first nor the last character is a blank. -/
def IsTrimmed (cs : List Char) : Prop :=
  (∀ c ∈ cs.head?, ¬ isBlank c) ∧ ∀ c ∈ cs.getLast?, ¬ isBlank c

theorem trimmed_eq_rdropWhile (cs : List Char) :
    trimmed cs = (cs.dropWhile isBlank).rdropWhile isBlank :=
  rfl

theorem isTrimmed_trimmed (cs : List Char) : IsTrimmed (trimmed cs) := by
  constructor
  · intro c hc
    have hfirst : [c] <+: cs.dropWhile isBlank :=
      (List.singleton_prefix_iff_head?_eq_some.mpr hc).trans (List.rdropWhile_prefix isBlank _)
    exact not_of_mem_head?_dropWhile c (List.singleton_prefix_iff_head?_eq_some.mp hfirst)
  · intro c hc
    rw [trimmed, List.getLast?_reverse] at hc
    exact not_of_mem_head?_dropWhile c hc

theorem trimmed_of_isTrimmed {cs : List Char} (h : IsTrimmed cs) : trimmed cs = cs := by
  have hfirst : cs.dropWhile isBlank = cs := by
    cases cs with
    | nil => rfl
    | cons c rest => exact List.dropWhile_cons_of_neg (h.1 c rfl)
  rw [trimmed_eq_rdropWhile, hfirst, List.rdropWhile_eq_self_iff]
  intro hne
  exact h.2 _ (List.getLast?_eq_some_getLast hne)

theorem trimmed_trimmed (cs : List Char) : trimmed (trimmed cs) = trimmed cs :=
  trimmed_of_isTrimmed (isTrimmed_trimmed cs)

theorem trimmed_eq_self {cs : List Char} (h : ∀ c ∈ cs, ¬ isBlank c) : trimmed cs = cs :=
  trimmed_of_isTrimmed ⟨fun c hc => h c (List.mem_of_mem_head? hc),
    fun c hc => h c (List.mem_of_getLast? hc)⟩

/-- Blanks at the end of a text are dropped. -/
theorem trimmed_append_blanks {cs blanks : List Char} (h : ∀ c ∈ blanks, isBlank c) :
    trimmed (cs ++ blanks) = trimmed cs := by
  have hend : ∀ cs : List Char, (cs ++ blanks).rdropWhile isBlank = cs.rdropWhile isBlank := by
    intro cs
    rw [List.rdropWhile, List.reverse_append,
      List.dropWhile_append_of_pos fun c hc => h c (List.mem_reverse.mp hc), List.rdropWhile]
  rw [trimmed_eq_rdropWhile, trimmed_eq_rdropWhile, List.dropWhile_append]
  split
  · rename_i hnone
    rw [List.isEmpty_iff.mp hnone, List.dropWhile_eq_nil_iff.mpr h]
  · exact hend _

end Spreadsheet.Text
