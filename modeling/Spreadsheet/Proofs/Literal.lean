import Spreadsheet.Literal
import Spreadsheet.Proofs.Formula.Munch

/-!
# Numbers in cells and in formulas

A number is read in three places: as the text of a literal cell, as a token of a formula, and as an
operand by the check. The three agree on every text, but for one difference. A literal may lack the
digits before its point, and a formula may not.
-/

namespace Spreadsheet

open Formula Text

namespace Literal

variable {cs whole fraction : List Char} {text : String} {value : Float}

/-! ### The digits of a literal -/

theorem split?_whole (hne : whole ≠ []) (hwhole : ∀ c ∈ whole, c.isDigit) :
    split? whole = some (whole, []) := by
  have htake : whole.takeWhile Char.isDigit = whole := List.takeWhile_eq_self_iff.mpr hwhole
  have hdrop : whole.dropWhile Char.isDigit = [] := List.dropWhile_eq_nil_iff.mpr hwhole
  rw [split?, htake, hdrop]
  exact if_neg (mt List.isEmpty_iff.mp hne)

theorem split?_decimal (hwhole : ∀ c ∈ whole, c.isDigit) (hne : fraction ≠ [])
    (hfraction : ∀ c ∈ fraction, c.isDigit) :
    split? (whole ++ '.' :: fraction) = some (whole, fraction) := by
  have hpoint := not_isDigit_of_point fraction
  have hall : fraction.all Char.isDigit = true := List.all_eq_true.mpr hfraction
  rw [split?, takeWhile_append_run hwhole hpoint, dropWhile_append_run hwhole hpoint]
  simp [hne, hall]

/-- A literal has digits only, or digits behind a point and possibly before it. -/
theorem split?_cases (h : split? cs = some (whole, fraction)) :
    (∀ c ∈ whole, c.isDigit) ∧ ((cs = whole ∧ whole ≠ [] ∧ fraction = []) ∨
      (cs = whole ++ '.' :: fraction ∧ fraction ≠ [] ∧ ∀ c ∈ fraction, c.isDigit)) := by
  have hsplit := List.takeWhile_append_dropWhile (p := Char.isDigit) (l := cs)
  rw [split?] at h
  split at h
  · rename_i hrest
    split at h
    · cases h
    · rename_i hne
      obtain ⟨rfl, rfl⟩ := Prod.mk.inj (Option.some.inj h)
      rw [hrest, List.append_nil] at hsplit
      exact ⟨of_mem_takeWhile, Or.inl ⟨hsplit.symm, mt List.isEmpty_iff.mpr hne, rfl⟩⟩
  · rename_i rest hrest
    split at h
    · cases h
    · rename_i hdigits
      obtain ⟨rfl, rfl⟩ := Prod.mk.inj (Option.some.inj h)
      rw [hrest] at hsplit
      simp only [Bool.or_eq_true, List.isEmpty_iff, Bool.not_eq_true', not_or,
        Bool.not_eq_false, List.all_eq_true] at hdigits
      exact ⟨of_mem_takeWhile, Or.inr ⟨hsplit.symm, hdigits⟩⟩
  · cases h

/-! ### Lexemes of numbers -/

theorem isNumeric_and_value_iff : isNumeric text ∧ Literal.value text = value ↔
    ∃ whole fraction, split? text.toList = some (whole, fraction) ∧
      Number.ofDigits whole fraction = value := by
  rw [isNumeric, Literal.value]
  cases split? text.toList with
  | none => simp
  | some parts =>
    obtain ⟨whole, fraction⟩ := parts
    simp

/-- The lexemes of a number are the literals that do not begin with a point. -/
theorem lexeme_number_iff : Lexeme (.number value) text.toList ↔
    isNumeric text ∧ text.toList.head? ≠ some '.' ∧ Literal.value text = value := by
  have hparts : isNumeric text ∧ text.toList.head? ≠ some '.' ∧ Literal.value text = value ↔
      text.toList.head? ≠ some '.' ∧ ∃ whole fraction,
        split? text.toList = some (whole, fraction) ∧ Number.ofDigits whole fraction = value := by
    rw [← isNumeric_and_value_iff]
    tauto
  rw [hparts]
  generalize text.toList = cs
  constructor
  · intro h
    have hpoint : cs.head? ≠ some '.' := by
      obtain ⟨c, cs, rfl, hbegins⟩ := h.exists_begins
      have hdigit : c.isDigit := hbegins
      rintro ⟨⟩
      exact absurd hdigit (by decide)
    refine ⟨hpoint, ?_⟩
    cases h with
    | whole hne hdigits => exact ⟨_, _, split?_whole hne hdigits, rfl⟩
    | decimal hne hdigits hfne hfraction => exact ⟨_, _, split?_decimal hdigits hfne hfraction, rfl⟩
  · intro ⟨hpoint, whole, fraction, hsplit, hvalue⟩
    obtain ⟨hwhole, hcases⟩ := split?_cases hsplit
    obtain ⟨rfl, hne, rfl⟩ | ⟨rfl, hfne, hfraction⟩ := hcases
    · exact hvalue ▸ .whole hne hwhole
    · have hne : whole ≠ [] := by
        rintro rfl
        exact hpoint rfl
      exact hvalue ▸ .decimal hne hwhole hfne hfraction

end Literal

namespace Formula

variable {token : Token} {cs : List Char} {position : Nat}

/-- A text is cut into a single token exactly if it is a lexeme of it. -/
theorem scan_eq_singleton_iff : scan position [] cs = .ok [token] ↔ Lexeme token cs := by
  constructor
  · intro h
    obtain ⟨tokens, htokens, hspells⟩ := spells_of_scan h
    obtain rfl : [token] = tokens := by simpa using htokens
    exact hspells.lexeme_of_singleton
  · intro h
    simpa using (Spells.singleton h).scan_eq (.singleton token) position []

theorem check_equals_of_isNumber {text : String} (h : IsNumber text.toList) :
    check ("=" ++ text) = .ok () := by
  refine checkChars_eq_ok_iff.mpr ⟨text.toList, ?_, .single (.number h)⟩
  rw [String.toList_append]
  rfl

/-- A text is cut into one number exactly if it is a literal with digits before any point, and then
the number is the value of the literal and the text is a formula behind an equals sign. Nothing else
is a formula of one number. -/
theorem number_token_iff_literal (text : String) (value : Float) :
    (text.toList.head? ≠ some '=' →
      (tokenize text = .ok [.number value] ↔ Literal.isNumeric text ∧
        text.toList.head? ≠ some '.' ∧ Literal.value text = value) ∧
      (tokenize text = .ok [.number value] → check ("=" ++ text) = .ok ())) ∧
    (check ("=" ++ text) = .ok () ∧ tokenize ("=" ++ text) = .ok [.number value] ↔
      Literal.isNumeric text ∧ text.toList.head? ≠ some '.' ∧ Literal.value text = value) := by
  have hequals : tokenize ("=" ++ text) = scan 1 [] text.toList := by
    rw [tokenize, String.toList_append]
    rfl
  rw [hequals, scan_eq_singleton_iff, ← Literal.lexeme_number_iff]
  refine ⟨fun hne => ?_, fun h => h.2, fun h => ⟨check_equals_of_isNumber h.isNumber, h⟩⟩
  have htokens : tokenize text = scan 0 [] text.toList :=
    tokenizeChars_of_ne fun rest heq => hne (by rw [heq]; rfl)
  rw [htokens, scan_eq_singleton_iff]
  exact ⟨Iff.rfl, fun h => check_equals_of_isNumber h.isNumber⟩

/-- Leading zeros and a fraction, in a cell and in a formula. -/
theorem number_token_iff_literal_of_zeros :
    tokenize "007.50" = .ok [.number 7.5] ∧ check "=007.50" = .ok () ∧
      Literal.isNumeric "007.50" ∧ Literal.value "007.50" = 7.5 := by
  have hequals : "007.50".toList.head? ≠ some '=' := by decide
  have hnumeric : Literal.isNumeric "007.50" = true := by decide +kernel
  have hvalue : Literal.value "007.50" = 7.5 := by decide +kernel
  obtain ⟨hcell, hformula⟩ := number_token_iff_literal "007.50" 7.5
  obtain ⟨htokens, hcheck⟩ := hcell hequals
  have hcut := htokens.mpr ⟨hnumeric, by decide, hvalue⟩
  exact ⟨hcut, hcheck hcut, hnumeric, hvalue⟩

end Formula

end Spreadsheet
