import Spreadsheet.Number.Text
import Spreadsheet.Proofs.Number.Nearest

/-!
# The fewest digits read back

The search for the fewest digits of a number looks for a multiple of a power of ten that the number is
the closest one to. It finds one, since the powers that it tries get smaller than the distance between
numbers. So what is written is read as the number again.
-/

namespace Spreadsheet.Number

variable {mantissa n low value high : Nat} {exponent place : Int}

/-! ### One place -/

theorem two_zpow_eq_quarters (exponent : Int) : (2 : ℚ) ^ exponent = 4 * 2 ^ (exponent - 2) := by
  rw [zpow_sub₀ two_ne_zero]
  ring

theorem powerRatio_cast (base : Nat) (exponent : Int) :
    ((powerRatio base exponent).1 : ℚ) / (powerRatio base exponent).2 = (base : ℚ) ^ exponent :=
  (zpow_eq_div base exponent).symm

theorem powerRatio_pos {base : Nat} (hbase : 0 < base) (exponent : Int) :
    0 < (powerRatio base exponent).1 ∧ 0 < (powerRatio base exponent).2 :=
  ⟨Nat.pow_pos hbase, Nat.pow_pos hbase⟩

theorem inside_iff :
    (if mantissa % 2 = 0 then low ≤ value && value ≤ high else low < value && value < high) = true ↔
      Within mantissa (low : ℚ) value high := by
  split
  · rename_i heven
    rw [Bool.and_eq_true, decide_eq_true_eq, decide_eq_true_eq]
    exact ⟨fun h => ⟨Nat.cast_le.mpr h.1, Nat.cast_le.mpr h.2, fun _ => heven⟩,
      fun h => ⟨Nat.cast_le.mp h.low_le, Nat.cast_le.mp h.le_high⟩⟩
  · rename_i hodd
    rw [Bool.and_eq_true, decide_eq_true_eq, decide_eq_true_eq]
    refine ⟨fun h => ⟨(Nat.cast_lt.mpr h.1).le, (Nat.cast_lt.mpr h.2).le, ?_⟩, fun h => ⟨?_, ?_⟩⟩
    · rintro (heq | heq)
      · exact absurd (Nat.cast_injective heq) h.1.ne'
      · exact absurd (Nat.cast_injective heq) h.2.ne
    · exact Nat.cast_lt.mp (h.low_le.lt_of_ne fun heq => hodd (h.even (Or.inl heq.symm)))
    · exact Nat.cast_lt.mp (h.le_high.lt_of_ne fun heq => hodd (h.even (Or.inr heq)))

/-- The ends between which a multiple reads back, over a common denominator. -/
theorem within_iff_rounds (hpos : 0 < mantissa) {unit quarter denominator : Nat}
    (hdenominator : 0 < denominator) (hunit : (unit : ℚ) / denominator = 10 ^ place)
    (hquarter : (quarter : ℚ) / denominator = 2 ^ (exponent - 2)) (n : Nat) :
    Within mantissa ((4 * mantissa * quarter -
        (if mantissa = hiddenBit ∧ exponent ≠ minExponent then 1 else 2) * quarter : Nat) : ℚ)
      (n * unit : Nat) (4 * mantissa * quarter + 2 * quarter : Nat) ↔
        Rounds mantissa exponent (n * 10 ^ place) := by
  have hcommon : (0 : ℚ) < denominator := Nat.cast_pos.mpr hdenominator
  have hexponent := two_zpow_eq_quarters exponent
  rw [div_eq_iff hcommon.ne'] at hunit hquarter
  refine Iff.trans ?_ (Within.mul_right_iff hcommon)
  rw [hexponent, ← Nat.sub_mul]
  have hbelow : ((4 * mantissa - if mantissa = hiddenBit ∧ exponent ≠ minExponent then 1 else 2 : Nat)
      : ℚ) = 4 * (mantissa - gapBelow mantissa exponent) := by
    unfold gapBelow
    split
    · rw [Nat.cast_sub (by omega)]
      push_cast
      ring
    · rw [Nat.cast_sub (by omega)]
      push_cast
      ring
  rw [Nat.cast_mul, hbelow]
  push_cast [hunit, hquarter]
  ring_nf

theorem div_bounds (value : Nat) {unit denominator : Nat} (hunit : 0 < unit)
    (hdenominator : 0 < denominator) :
    (value / unit : Nat) * ((unit : ℚ) / denominator) ≤ value / denominator ∧
      (value : ℚ) / denominator < ((value / unit : Nat) + 1) * ((unit : ℚ) / denominator) := by
  have hpos : (0 : ℚ) < denominator := Nat.cast_pos.mpr hdenominator
  rw [← mul_div_assoc, ← mul_div_assoc, div_le_div_iff_of_pos_right hpos,
    div_lt_div_iff_of_pos_right hpos]
  exact ⟨by exact_mod_cast Nat.div_mul_le_self value unit,
    by exact_mod_cast Nat.lt_mul_of_div_lt (Nat.lt_succ_self (value / unit)) hunit⟩

/-- The two multiples around the number are looked at. -/
theorem candidate?_eq (hpos : 0 < mantissa) (exponent place : Int) :
    ∃ (reads : Nat → Bool) (down closest : Nat),
      (∀ n, reads n = true ↔ Rounds mantissa exponent (n * 10 ^ place)) ∧
      (down * 10 ^ place : ℚ) ≤ mantissa * 2 ^ exponent ∧
      (mantissa * 2 ^ exponent : ℚ) < (down + 1) * 10 ^ place ∧
      (closest = down ∨ closest = down + 1) ∧
      candidate? mantissa exponent place = match reads down, reads (down + 1) with
        | true, true => some closest
        | true, false => some down
        | false, true => some (down + 1)
        | false, false => none := by
  have hten := powerRatio_cast 10 place
  have htwo := powerRatio_cast 2 (exponent - 2)
  obtain ⟨htenNum, htenDen⟩ := powerRatio_pos (show 0 < 10 by decide) place
  obtain ⟨htwoNum, htwoDen⟩ := powerRatio_pos (show 0 < 2 by decide) (exponent - 2)
  unfold candidate?
  generalize powerRatio 10 place = ten at *
  generalize powerRatio 2 (exponent - 2) = two at *
  obtain ⟨tenNum, tenDen⟩ := ten
  obtain ⟨twoNum, twoDen⟩ := two
  have hdenominator := Nat.mul_pos htenDen htwoDen
  have hunit : ((tenNum * twoDen : Nat) : ℚ) / (tenDen * twoDen : Nat) = 10 ^ place := by
    rw [Nat.cast_mul, Nat.cast_mul, mul_div_mul_right _ _ (Nat.cast_ne_zero.mpr htwoDen.ne')]
    exact hten
  have hquarter : ((twoNum * tenDen : Nat) : ℚ) / (tenDen * twoDen : Nat) = 2 ^ (exponent - 2) := by
    rw [Nat.cast_mul, Nat.cast_mul, mul_comm (tenDen : ℚ),
      mul_div_mul_right _ _ (Nat.cast_ne_zero.mpr htenDen.ne')]
    exact htwo
  have hvalue : ((4 * mantissa * (twoNum * tenDen) : Nat) : ℚ) / (tenDen * twoDen : Nat) =
      mantissa * 2 ^ exponent := by
    rw [Nat.cast_mul, mul_div_assoc, hquarter, two_zpow_eq_quarters exponent]
    push_cast
    ring
  have hbounds := div_bounds (4 * mantissa * (twoNum * tenDen)) (Nat.mul_pos htenNum htwoDen)
    hdenominator
  rw [hvalue, hunit] at hbounds
  exact ⟨_, 4 * mantissa * (twoNum * tenDen) / (tenNum * twoDen), _, fun n => inside_iff.trans
    (within_iff_rounds hpos hdenominator hunit hquarter n), hbounds.1, hbounds.2,
    ite_eq_or_eq .., rfl⟩

/-- Where the multiples are closer to each other than the midpoints are to the number, one of them
reads back. -/
theorem exists_candidate? (hpos : 0 < mantissa) (hplace : (10 : ℚ) ^ place ≤ 2 ^ (exponent - 2)) :
    ∃ n, candidate? mantissa exponent place = some n := by
  obtain ⟨reads, down, closest, hreads, hle, hlt, -, heq⟩ := candidate?_eq hpos exponent place
  have hdown : reads down = true := by
    have hunit := two_zpow_pos (exponent - 2)
    have hquarters := two_zpow_eq_quarters exponent
    have hgap := le_gapBelow mantissa exponent
    have hlow : (mantissa - gapBelow mantissa exponent) * 2 ^ exponent
        ≤ mantissa * 2 ^ exponent - 2 ^ (exponent - 2) := by
      have hmul := mul_le_mul_of_nonneg_right hgap (two_zpow_pos exponent).le
      linarith
    have hhigh : (mantissa * 2 ^ exponent : ℚ) < (mantissa + 1 / 2) * 2 ^ exponent := by linarith
    rw [hreads]
    refine ⟨by linarith, by linarith, ?_⟩
    rintro (heq | heq)
    · linarith
    · linarith
  rw [hdown] at heq
  cases hup : reads (down + 1) with
  | true => exact ⟨closest, heq.trans (by rw [hup])⟩
  | false => exact ⟨down, heq.trans (by rw [hup])⟩

theorem rounds_of_candidate? (hpos : 0 < mantissa) (h : candidate? mantissa exponent place = some n) :
    Rounds mantissa exponent (n * 10 ^ place) := by
  obtain ⟨reads, down, closest, hreads, -, -, hclosest, heq⟩ := candidate?_eq hpos exponent place
  rw [heq] at h
  rw [← hreads]
  split at h
  · rename_i hdown hup
    obtain rfl := Option.some.inj h
    rcases hclosest with rfl | rfl
    · exact hdown
    · exact hup
  · rename_i hdown _
    exact Option.some.inj h ▸ hdown
  · rename_i _ hup
    exact Option.some.inj h ▸ hup
  · cases h

/-! ### The search -/

theorem rounds_firstPlace (hpos : 0 < mantissa) {steps : Nat} {tried : Int} (hlow : place - steps < tried)
    (hhigh : tried ≤ place) (htried : ∃ n, candidate? mantissa exponent tried = some n) :
    Rounds mantissa exponent ((firstPlace mantissa exponent steps place).coefficient *
      10 ^ (firstPlace mantissa exponent steps place).exponent) := by
  induction steps generalizing place with
  | zero => omega
  | succ steps ih =>
    rw [firstPlace]
    cases hcandidate : candidate? mantissa exponent place with
    | some n => exact rounds_of_candidate? hpos hcandidate
    | none =>
      have hne : tried ≠ place := by
        rintro rfl
        obtain ⟨n, hn⟩ := htried
        cases hn.symm.trans hcandidate
      exact ih (by omega) (by omega)

/-- Powers of ten against powers of two, by `10 ^ 3 ≤ 2 ^ 10` and `2 ^ 93 ≤ 10 ^ 28`. -/
theorem ten_zpow_le_two_zpow {ten two : Int} (hlarge : 10 * ten ≤ 3 * two)
    (hsmall : 93 * ten ≤ 28 * two) : (10 : ℚ) ^ ten ≤ 2 ^ two := by
  rcases Int.le_total 0 ten with hpos | hneg
  · obtain ⟨n, rfl⟩ := Int.eq_ofNat_of_zero_le hpos
    refine le_of_pow_le_pow_left₀ three_ne_zero (two_zpow_pos two).le ?_
    calc ((10 : ℚ) ^ (n : Int)) ^ 3 = (10 ^ 3) ^ n := by rw [zpow_natCast, pow_right_comm]
      _ ≤ (2 ^ 10) ^ n := pow_le_pow_left₀ (by norm_num) (by norm_num) n
      _ = 2 ^ (10 * n : Int) := by rw [← pow_mul]; norm_cast
      _ ≤ 2 ^ (two * 3) := two_zpow_mono (by omega)
      _ = (2 ^ two) ^ 3 := by rw [zpow_mul]; norm_cast
  · obtain ⟨n, hn⟩ := Int.eq_ofNat_of_zero_le (Int.neg_nonneg_of_nonpos hneg)
    obtain rfl : ten = -n := by omega
    refine le_of_pow_le_pow_left₀ (n := 28) (by decide) (two_zpow_pos two).le ?_
    calc ((10 : ℚ) ^ (-n : Int)) ^ 28 = ((10 ^ 28) ^ n)⁻¹ := by
          rw [zpow_neg, zpow_natCast, inv_pow, pow_right_comm]
      _ ≤ ((2 ^ 93) ^ n)⁻¹ := inv_anti₀ (by positivity) (pow_le_pow_left₀ (by norm_num) (by norm_num) n)
      _ = 2 ^ (-(93 * n : Int)) := by rw [← pow_mul, zpow_neg]; norm_cast
      _ ≤ 2 ^ (two * 28) := two_zpow_mono (by omega)
      _ = (2 ^ two) ^ 28 := by rw [zpow_mul]; norm_cast

theorem rounds_shortest (hpos : 0 < mantissa) (hcanonical : Canonical mantissa exponent) :
    Rounds mantissa exponent
      ((shortest mantissa exponent).coefficient * 10 ^ (shortest mantissa exponent).exponent) := by
  have hlog : mantissa.log2 < 53 := (Nat.log2_lt hpos.ne').mpr hcanonical.mantissa_lt
  have hlow : -1074 ≤ exponent := hcanonical.minExponent_le
  have hhigh := hcanonical.exponent_le
  rw [shortest, if_neg hpos.ne']
  dsimp only
  generalize hplace : ((mantissa.log2 : Int) + 1 + exponent) * 30103 / 100000 + 2 = place
  have hlast : ∃ n, candidate? mantissa exponent (place - 23) = some n :=
    exists_candidate? hpos (ten_zpow_le_two_zpow (by omega) (by omega))
  exact rounds_firstPlace hpos (by omega) (by omega) hlast

/-! ### Reading the digits -/

/-- The text is a whole part, with a point and decimal places behind it if there are any. -/
structure Written (text whole fraction : List Char) : Prop where
  text_eq : text = if fraction.isEmpty then whole else whole ++ '.' :: fraction
  ne_nil : whole ≠ []
  isDigit : ∀ c ∈ whole ++ fraction, c.isDigit

theorem isDigit_of_mem_zeros {count : Nat} {c : Char} (h : c ∈ List.replicate count '0') :
    c.isDigit := by
  rw [List.eq_of_mem_replicate h]
  rfl

theorem Written.whole {digits : List Char} (hne : digits ≠ []) (hdigits : ∀ c ∈ digits, c.isDigit) :
    Written digits digits [] :=
  ⟨rfl, hne, by rwa [List.append_nil]⟩

section Digits

variable {digits : List Char}

theorem Written.replicate_zero (hne : digits ≠ []) (hdigits : ∀ c ∈ digits, c.isDigit) (zeros : Nat) :
    Written (digits ++ List.replicate zeros '0') (digits ++ List.replicate zeros '0') [] :=
  .whole (List.append_ne_nil_of_left_ne_nil hne _)
    (List.forall_mem_append.mpr ⟨hdigits, fun _ => isDigit_of_mem_zeros⟩)

/-- A point goes before the last decimal places, with zeros in front where there are too few digits. -/
theorem Written.padded (hdigits : ∀ c ∈ digits, c.isDigit) {places : Nat} (hplaces : places ≠ 0)
    {padded : List Char} (hpadded : List.replicate (places + 1 - digits.length) '0' ++ digits = padded) :
    Written (padded.take (padded.length - places) ++ '.' :: padded.drop (padded.length - places))
        (padded.take (padded.length - places)) (padded.drop (padded.length - places)) ∧
      (padded.drop (padded.length - places)).length = places := by
  have hlength : places < padded.length := by
    rw [← hpadded, List.length_append, List.length_replicate]
    omega
  have hfraction : (padded.drop (padded.length - places)).length = places := by
    rw [List.length_drop]
    omega
  refine ⟨⟨?_, ?_, ?_⟩, hfraction⟩
  · rw [if_neg]
    rw [List.isEmpty_iff_length_eq_zero, hfraction]
    exact hplaces
  · refine List.ne_nil_of_length_pos ?_
    rw [List.length_take]
    omega
  · rw [List.take_append_drop, ← hpadded]
    exact List.forall_mem_append.mpr ⟨fun _ => isDigit_of_mem_zeros, hdigits⟩

end Digits

/-- Positional notation is read as the decimal that it was made from. -/
theorem Decimal.exists_written (d : Decimal) : ∃ whole fraction, Written d.positional whole fraction ∧
    (naturalOfDigits (whole ++ fraction) : ℚ) / (10 ^ fraction.length : Nat) =
      d.coefficient * 10 ^ d.exponent := by
  simp only [naturalOfDigits_eq]
  rw [positional]
  dsimp only
  generalize hdigits : Nat.toDigits 10 d.coefficient = digits
  have hne : digits ≠ [] := hdigits ▸ Nat.toDigits_ne_nil
  have hisDigit : ∀ c ∈ digits, c.isDigit := fun c hc =>
    Nat.isDigit_of_mem_toDigits (by decide) (by decide) (hdigits ▸ hc)
  have hvalue : Nat.ofDigitChars 10 digits 0 = d.coefficient := hdigits ▸ Nat.ofDigitChars_ten_toDigits
  split
  · rename_i hplaces
    obtain ⟨zeros, hzeros⟩ := Int.eq_ofNat_of_zero_le (show 0 ≤ d.exponent by omega)
    rw [hzeros, zpow_natCast, Int.toNat_natCast]
    split
    · rename_i hzero
      refine ⟨digits, [], .whole hne hisDigit, ?_⟩
      rw [List.append_nil, hvalue, hzero]
      simp
    · refine ⟨digits ++ List.replicate zeros '0', [], .replicate_zero hne hisDigit zeros, ?_⟩
      rw [List.append_nil, Nat.ofDigitChars_append, hvalue, Nat.ofDigitChars_replicate_zero,
        List.length_nil]
      push_cast
      ring
  · rename_i hplaces
    obtain ⟨places, hexponent⟩ := Int.eq_ofNat_of_zero_le (show 0 ≤ -d.exponent by omega)
    obtain hneg : d.exponent = -places := by omega
    rw [hexponent, Int.toNat_natCast] at hplaces ⊢
    generalize hpadded : List.replicate (places + 1 - digits.length) '0' ++ digits = padded
    obtain ⟨hwritten, hfraction⟩ := Written.padded hisDigit hplaces hpadded
    refine ⟨_, _, hwritten, ?_⟩
    rw [List.take_append_drop, hfraction, ← hpadded, Nat.ofDigitChars_append,
      Nat.ofDigitChars_replicate_zero, Nat.mul_zero, hvalue, hneg, zpow_neg, zpow_natCast]
    push_cast
    rfl

variable {x : Float}

theorem nearest_zero (den : Nat) : nearest 0 den = pack 0 minExponent := by
  rw [nearest, if_pos rfl, zero_eq_pack]

/-- A finite number without a sign is read again from the text that it has in a formula. -/
theorem exists_written_text (h : decode x = .finite false mantissa exponent) :
    ∃ whole fraction, Written (text x).toList whole fraction ∧ ofDigits whole fraction = x := by
  obtain ⟨hcanonical, -⟩ := of_decode h
  obtain ⟨whole, fraction, hwritten, hvalue⟩ := (shortest mantissa exponent).exists_written
  have htext : text x = String.ofList (shortest mantissa exponent).positional := by
    rw [text, h]
    rfl
  refine ⟨whole, fraction, by rwa [htext, String.toList_ofList], ?_⟩
  rw [← pack_of_decode h, ofDigits]
  have hden : 0 < 10 ^ fraction.length := Nat.pow_pos (by decide)
  rcases Nat.eq_zero_or_pos mantissa with rfl | hpos
  · have hzero : naturalOfDigits (whole ++ fraction) = 0 := by
      have hcoefficient : (shortest 0 exponent).coefficient = 0 := rfl
      rw [hcoefficient, Nat.cast_zero, zero_mul, div_eq_zero_iff] at hvalue
      exact Nat.cast_eq_zero.mp (hvalue.resolve_right (Nat.cast_ne_zero.mpr hden.ne'))
    obtain rfl := hcanonical.hidden.resolve_right (by decide)
    rw [hzero, nearest_zero]
  · have hrounds := rounds_shortest hpos hcanonical
    rw [← hvalue] at hrounds
    have hnum : 0 < naturalOfDigits (whole ++ fraction) := by
      have hquotient := hrounds.pos hpos
      rw [div_pos_iff_of_pos_right (Nat.cast_pos.mpr hden)] at hquotient
      exact Nat.cast_pos.mp hquotient
    exact nearest_eq_pack hnum hden hcanonical hrounds

end Spreadsheet.Number
