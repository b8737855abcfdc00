import Spreadsheet.Proofs.Number.Bits

/-!
# The closest number

A number is the closest one to all that lies between the midpoints to its neighbours, the midpoints
counting when its mantissa is even. Below a power of two the neighbours are closer than above it.
-/

namespace Spreadsheet.Number

/-- The value lies between two ends, and at an end only if the mantissa is even. -/
structure Within (mantissa : Nat) (low value high : ℚ) : Prop where
  low_le : low ≤ value
  le_high : value ≤ high
  even : value = low ∨ value = high → mantissa % 2 = 0

namespace Within

variable {mantissa mantissa' : Nat} {low low' value high high' : ℚ}

theorem mono (h : Within mantissa low value high) (hlow : low' ≤ low) (hhigh : high ≤ high') :
    Within mantissa low' value high' := by
  refine ⟨hlow.trans h.low_le, h.le_high.trans hhigh, ?_⟩
  rintro (heq | heq)
  · exact h.even (Or.inl (le_antisymm (heq ▸ hlow) h.low_le))
  · exact h.even (Or.inr (le_antisymm h.le_high (heq ▸ hhigh)))

theorem mul_right (h : Within mantissa low value high) {factor : ℚ} (hfactor : 0 < factor) :
    Within mantissa (low * factor) (value * factor) (high * factor) := by
  refine ⟨mul_le_mul_of_nonneg_right h.low_le hfactor.le,
    mul_le_mul_of_nonneg_right h.le_high hfactor.le, ?_⟩
  rintro (heq | heq)
  · exact h.even (Or.inl (mul_right_cancel₀ hfactor.ne' heq))
  · exact h.even (Or.inr (mul_right_cancel₀ hfactor.ne' heq))

theorem mul_right_iff {factor : ℚ} (hfactor : 0 < factor) :
    Within mantissa (low * factor) (value * factor) (high * factor) ↔
      Within mantissa low value high := by
  refine ⟨fun h => ?_, fun h => h.mul_right hfactor⟩
  have hback := h.mul_right (inv_pos.mpr hfactor)
  rwa [mul_inv_cancel_right₀ hfactor.ne', mul_inv_cancel_right₀ hfactor.ne',
    mul_inv_cancel_right₀ hfactor.ne'] at hback

end Within

theorem roundDiv_eq_of_le {num den n : Nat} (hden : 0 < den) (hlow : 2 * (den * n) ≤ 2 * num + den)
    (hhigh : 2 * num ≤ 2 * (den * n) + den)
    (heven : 2 * (den * n) = 2 * num + den ∨ 2 * num = 2 * (den * n) + den → n % 2 = 0) :
    roundDiv num den = n := by
  have hnum := Nat.div_add_mod num den
  have hrest := Nat.mod_lt num hden
  have hge : num / den ≤ n := by
    by_contra hlt
    have hmul := Nat.mul_le_mul_left den (Nat.lt_of_not_le hlt)
    rw [Nat.mul_succ] at hmul
    omega
  have hle : n ≤ num / den + 1 := by
    by_contra hlt
    have hmul := Nat.mul_le_mul_left den (Nat.lt_of_not_le hlt)
    rw [Nat.mul_succ, Nat.mul_succ] at hmul
    omega
  rw [roundDiv]
  simp only [Bool.or_eq_true, Bool.and_eq_true, decide_eq_true_eq, beq_iff_eq]
  obtain rfl | rfl : n = num / den ∨ n = num / den + 1 := by omega
  · refine if_pos ?_
    rcases Nat.lt_or_ge (2 * (num % den)) den with hdown | htie
    · exact Or.inl hdown
    · exact Or.inr ⟨by omega, heven (Or.inr (by omega))⟩
  · refine if_neg ?_
    rw [Nat.mul_succ] at hlow heven
    rintro (hdown | ⟨htie, hparity⟩)
    · omega
    · have hodd := heven (Or.inl (by omega))
      omega

/-- A quotient is rounded to the natural that it is at most a half away from. -/
theorem roundDiv_eq {num den n : Nat} (hden : 0 < den)
    (h : Within n (n - 1 / 2) (num / den) (n + 1 / 2)) : roundDiv num den = n := by
  have hpos : (0 : ℚ) < den := Nat.cast_pos.mpr hden
  refine roundDiv_eq_of_le hden ?_ ?_ fun htie => h.even ?_
  · have hle := (le_div_iff₀ hpos).mp h.low_le
    have : (2 * (den * n) : ℚ) ≤ 2 * num + den := by linarith
    exact_mod_cast this
  · have hle := (div_le_iff₀ hpos).mp h.le_high
    have : (2 * num : ℚ) ≤ 2 * (den * n) + den := by linarith
    exact_mod_cast this
  · rw [div_eq_iff hpos.ne', div_eq_iff hpos.ne']
    refine htie.imp (fun htie => ?_) fun htie => ?_
    · have : (2 * (den * n) : ℚ) = 2 * num + den := by exact_mod_cast htie
      linarith
    · have : (2 * num : ℚ) = 2 * (den * n) + den := by exact_mod_cast htie
      linarith

/-! ### The exponent of the closest number -/

theorem zpow_eq_div (base : Nat) (exponent : Int) :
    (base : ℚ) ^ exponent = (base ^ exponent.toNat : Nat) / (base ^ (-exponent).toNat : Nat) := by
  rcases Int.le_total 0 exponent with hpos | hneg
  · obtain ⟨n, rfl⟩ := Int.eq_ofNat_of_zero_le hpos
    simp
  · obtain ⟨n, hn⟩ := Int.eq_ofNat_of_zero_le (Int.neg_nonneg_of_nonpos hneg)
    obtain rfl : exponent = -n := by omega
    simp

theorem two_zpow_pos (exponent : Int) : (0 : ℚ) < 2 ^ exponent := zpow_pos two_pos exponent

theorem two_zpow_mono {exponent exponent' : Int} (h : exponent ≤ exponent') :
    (2 : ℚ) ^ exponent ≤ 2 ^ exponent' :=
  zpow_le_zpow_right₀ one_le_two h

theorem two_pow_mul_zpow (n : Nat) (exponent : Int) :
    (2 : ℚ) ^ n * 2 ^ exponent = 2 ^ (n + exponent) := by
  rw [zpow_add₀ two_ne_zero, zpow_natCast]

theorem two_zpow_succ (exponent : Int) : (2 : ℚ) ^ (exponent + 1) = 2 * 2 ^ exponent := by
  rw [zpow_add_one₀ two_ne_zero, mul_comm]

theorem scaled_eq (num den : Nat) (exponent : Int) :
    ((num <<< (-exponent).toNat : Nat) : ℚ) / (den <<< exponent.toNat : Nat) =
      num / den / 2 ^ exponent := by
  have hpow := zpow_eq_div 2 exponent
  rw [Nat.cast_ofNat] at hpow
  rw [hpow, Nat.shiftLeft_eq, Nat.shiftLeft_eq]
  push_cast
  field_simp

/-- The logarithms of a quotient's terms tell its magnitude. -/
theorem log2_bounds {num den : Nat} (hnum : 0 < num) (hden : 0 < den) :
    (2 : ℚ) ^ ((num.log2 : Int) - den.log2 - 1) ≤ num / den ∧
      (num : ℚ) / den < 2 ^ ((num.log2 : Int) - den.log2 + 1) := by
  have hpos : (0 : ℚ) < den := Nat.cast_pos.mpr hden
  have hnumLow : (2 : ℚ) ^ (num.log2 : Int) ≤ num := by
    rw [zpow_natCast]
    exact_mod_cast Nat.log2_self_le (Nat.ne_of_gt hnum)
  have hnumHigh : (num : ℚ) < 2 ^ ((num.log2 : Int) + 1) := by
    exact_mod_cast Nat.lt_log2_self
  have hdenLow : (2 : ℚ) ^ (den.log2 : Int) ≤ den := by
    rw [zpow_natCast]
    exact_mod_cast Nat.log2_self_le (Nat.ne_of_gt hden)
  have hdenHigh : (den : ℚ) < 2 ^ ((den.log2 : Int) + 1) := by
    exact_mod_cast Nat.lt_log2_self
  constructor
  · rw [le_div_iff₀ hpos]
    calc (2 : ℚ) ^ ((num.log2 : Int) - den.log2 - 1) * den
        ≤ 2 ^ ((num.log2 : Int) - den.log2 - 1) * 2 ^ ((den.log2 : Int) + 1) :=
          mul_le_mul_of_nonneg_left hdenHigh.le (two_zpow_pos _).le
      _ = 2 ^ (num.log2 : Int) := by
          rw [← zpow_add₀ two_ne_zero]
          congr 1
          omega
      _ ≤ num := hnumLow
  · rw [div_lt_iff₀ hpos]
    calc (num : ℚ) < 2 ^ ((num.log2 : Int) + 1) := hnumHigh
      _ = 2 ^ ((num.log2 : Int) - den.log2 + 1) * 2 ^ (den.log2 : Int) := by
          rw [← zpow_add₀ two_ne_zero]
          congr 1
          omega
      _ ≤ 2 ^ ((num.log2 : Int) - den.log2 + 1) * den :=
          mul_le_mul_of_nonneg_left hdenLow (two_zpow_pos _).le

theorem div_lt_iff_cast {num den n : Nat} (hden : 0 < den) :
    num / den < n ↔ (num : ℚ) / den < n := by
  rw [Nat.div_lt_iff_lt_mul hden, div_lt_iff₀ (Nat.cast_pos.mpr hden)]
  norm_cast

/-- A quotient is measured in units in which it has 53 bits, or in the smallest unit. -/
theorem nearest_eq_pack_roundDiv {num den : Nat} (hnum : 0 < num) (hden : 0 < den) :
    ∃ (exponent : Int) (scaledNum scaledDen : Nat), minExponent ≤ exponent ∧
      (num : ℚ) / den < 2 ^ 53 * 2 ^ exponent ∧
      (exponent = minExponent ∨ 2 ^ 52 * 2 ^ exponent ≤ (num : ℚ) / den) ∧ 0 < scaledDen ∧
      (scaledNum : ℚ) / scaledDen = num / den / 2 ^ exponent ∧
      nearest num den = pack (roundDiv scaledNum scaledDen) exponent := by
  obtain ⟨hlow, hhigh⟩ := log2_bounds hnum hden
  rw [nearest, if_neg (Nat.ne_of_gt hnum)]
  dsimp only
  generalize hguess : (num.log2 : Int) - den.log2 - 53 = guess
  obtain ⟨exponent, hexponent⟩ : ∃ exponent, exponent = max minExponent guess := ⟨_, rfl⟩
  have hscaled := scaled_eq num den exponent
  have hpos : 0 < den <<< exponent.toNat := by
    rw [Nat.shiftLeft_eq]
    exact Nat.mul_pos hden (Nat.two_pow_pos _)
  have hunit := two_zpow_pos exponent
  rw [← hexponent]
  split
  · rename_i hfits
    refine ⟨exponent, _, _, hexponent ▸ Int.le_max_left .., ?_, ?_, hpos, hscaled, rfl⟩
    · rw [div_lt_iff_cast hpos, hscaled, div_lt_iff₀ hunit] at hfits
      exact_mod_cast hfits
    · rcases Int.le_total guess minExponent with h | h
      · exact Or.inl (hexponent.trans (Int.max_eq_left h))
      · rw [Int.max_eq_right h] at hexponent
        rw [two_pow_mul_zpow, hexponent, ← hguess]
        exact Or.inr (le_trans (two_zpow_mono (by omega)) hlow)
  · rename_i hlarge
    rw [div_lt_iff_cast hpos, hscaled, div_lt_iff₀ hunit, not_lt] at hlarge
    refine ⟨exponent + 1, _, _, by omega, ?_, Or.inr ?_, Nat.mul_pos two_pos hpos, ?_, rfl⟩
    · rw [two_pow_mul_zpow]
      exact hhigh.trans_le (two_zpow_mono (by omega))
    · rw [two_zpow_succ, ← mul_assoc]
      refine le_trans (le_of_eq ?_) hlarge
      congr 1
      norm_num [hiddenBit]
    · rw [Nat.cast_mul, mul_comm, ← div_div, hscaled, div_div, two_zpow_succ, mul_comm]
      rfl

/-! ### What a number is the closest one to -/

/-- Half the distance from a number to the next smaller one, in units of its mantissa. -/
def gapBelow (mantissa : Nat) (exponent : Int) : ℚ :=
  if mantissa = hiddenBit ∧ exponent ≠ minExponent then 1 / 4 else 1 / 2

theorem gapBelow_le (mantissa : Nat) (exponent : Int) : gapBelow mantissa exponent ≤ 1 / 2 := by
  unfold gapBelow
  split <;> norm_num

theorem le_gapBelow (mantissa : Nat) (exponent : Int) : 1 / 4 ≤ gapBelow mantissa exponent := by
  unfold gapBelow
  split <;> norm_num

/-- A mantissa of 54 bits carries into the exponent. -/
theorem pack_carry {exponent : Int} (h : minExponent < exponent) :
    pack (2 * hiddenBit) (exponent - 1) = pack hiddenBit exponent := by
  have hbits : (exponent - 1 - minExponent).toNat * hiddenBit + 2 * hiddenBit =
      (exponent - minExponent).toNat * hiddenBit + hiddenBit := by
    have hsucc : (exponent - minExponent).toNat = (exponent - 1 - minExponent).toNat + 1 := by omega
    rw [hsucc, Nat.two_mul, Nat.add_mul, Nat.one_mul, Nat.add_assoc]
  rw [pack, hbits]
  rfl

/-- The value lies between the midpoints to the neighbours of a number. -/
def Rounds (mantissa : Nat) (exponent : Int) (value : ℚ) : Prop :=
  Within mantissa ((mantissa - gapBelow mantissa exponent) * 2 ^ exponent) value
    ((mantissa + 1 / 2) * 2 ^ exponent)

variable {num den mantissa : Nat} {exponent : Int} {value : ℚ}

theorem cast_hiddenBit : (hiddenBit : ℚ) = 2 ^ 52 := by
  norm_num [hiddenBit]

theorem Rounds.pos (h : Rounds mantissa exponent value) (hpos : 0 < mantissa) : 0 < value := by
  have hgap := gapBelow_le mantissa exponent
  have hone : (1 : ℚ) ≤ mantissa := by exact_mod_cast hpos
  exact (mul_pos (by linarith) (two_zpow_pos exponent)).trans_le h.low_le

theorem Rounds.lt (h : Rounds mantissa exponent value) (hcanonical : Canonical mantissa exponent) :
    value < 2 ^ 53 * 2 ^ exponent := by
  have hmantissa : (mantissa + 1 : ℚ) ≤ 2 * hiddenBit := by
    exact_mod_cast hcanonical.mantissa_lt
  rw [cast_hiddenBit] at hmantissa
  refine h.le_high.trans_lt (mul_lt_mul_of_pos_right ?_ (two_zpow_pos exponent))
  linarith

/-- Only the midpoint below a power of two is measured in a smaller unit. -/
theorem Rounds.eq_hiddenBit (h : Rounds mantissa exponent value)
    (hcanonical : Canonical mantissa exponent) (hexponent : exponent ≠ minExponent)
    (hvalue : value < 2 ^ 52 * 2 ^ exponent) : mantissa = hiddenBit := by
  have hle := hcanonical.hidden.resolve_left hexponent
  have hgap := gapBelow_le mantissa exponent
  have hcast := lt_of_mul_lt_mul_right (h.low_le.trans_lt hvalue) (two_zpow_pos exponent).le
  have hlt : (mantissa : ℚ) < (hiddenBit + 1 : Nat) := by
    push_cast
    rw [cast_hiddenBit]
    linarith
  have := Nat.cast_lt.mp hlt
  omega

theorem Rounds.hiddenBit_low (h : Rounds hiddenBit exponent value) (hexponent : exponent ≠ minExponent) :
    (2 ^ 52 - 1 / 4) * 2 ^ exponent ≤ value := by
  have hgap : gapBelow hiddenBit exponent = 1 / 4 := if_pos ⟨rfl, hexponent⟩
  have hlow := h.low_le
  rwa [hgap, cast_hiddenBit] at hlow

theorem Rounds.roundDiv_eq (h : Rounds mantissa exponent value) (hden : 0 < den)
    (hvalue : (num : ℚ) / den = value / 2 ^ exponent) : roundDiv num den = mantissa := by
  apply Number.roundDiv_eq hden
  have hunit := two_zpow_pos exponent
  have hgap := gapBelow_le mantissa exponent
  rw [hvalue, ← Within.mul_right_iff hunit, div_mul_cancel₀ _ hunit.ne']
  exact h.mono (mul_le_mul_of_nonneg_right (by linarith) hunit.le) le_rfl

theorem Rounds.roundDiv_carry (h : Rounds hiddenBit exponent value) (hexponent : exponent ≠ minExponent)
    (hupper : value < 2 ^ 52 * 2 ^ exponent) (hden : 0 < den)
    (hvalue : (num : ℚ) / den = value / 2 ^ (exponent - 1)) : roundDiv num den = 2 * hiddenBit := by
  apply Number.roundDiv_eq hden
  have hunit := two_zpow_pos (exponent - 1)
  have htwice : (2 : ℚ) ^ exponent = 2 * 2 ^ (exponent - 1) := by
    rw [← two_zpow_succ, sub_add_cancel]
  have hlow := h.hiddenBit_low hexponent
  rw [hvalue]
  refine ⟨?_, ?_, fun _ => rfl⟩
  · rw [le_div_iff₀ hunit]
    push_cast
    rw [cast_hiddenBit]
    linarith
  · rw [div_le_iff₀ hunit]
    push_cast
    rw [cast_hiddenBit]
    linarith

/-- A number is the closest one to all that lies between the midpoints to its neighbours. -/
theorem nearest_eq_pack (hnum : 0 < num) (hden : 0 < den) (hcanonical : Canonical mantissa exponent)
    (h : Rounds mantissa exponent (num / den)) : nearest num den = pack mantissa exponent := by
  obtain ⟨unit, scaledNum, scaledDen, hmin, hlt, hge, hpos, hscaled, hnearest⟩ :=
    nearest_eq_pack_roundDiv hnum hden
  have hunit := two_zpow_pos exponent
  have hle : unit ≤ exponent := by
    by_contra hlarge
    have hlow := hcanonical.minExponent_le
    have hnormal := hge.resolve_left (by omega)
    have hmono := two_zpow_mono (show exponent + 1 ≤ unit by omega)
    have hupper := h.lt hcanonical
    rw [two_zpow_succ] at hmono
    linarith
  rcases eq_or_lt_of_le hle with rfl | hsmaller
  · rw [hnearest, h.roundDiv_eq hpos hscaled]
  · have hexponent : exponent ≠ minExponent := by omega
    have hbelow : (num : ℚ) / den < 2 ^ 52 * 2 ^ exponent := by
      have hmono := two_zpow_mono (show unit + 1 ≤ exponent by omega)
      rw [two_zpow_succ] at hmono
      linarith
    obtain rfl := h.eq_hiddenBit hcanonical hexponent hbelow
    obtain rfl : unit = exponent - 1 := by
      by_contra hfar
      have hmono := two_zpow_mono (show unit + 1 + 1 ≤ exponent by omega)
      have hlow := h.hiddenBit_low hexponent
      rw [two_zpow_succ, two_zpow_succ] at hmono
      linarith
    rw [hnearest, h.roundDiv_carry hexponent hbelow hpos hscaled, pack_carry (by omega)]

end Spreadsheet.Number
