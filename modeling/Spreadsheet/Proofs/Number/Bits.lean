import Mathlib
import Spreadsheet.Number.Binary

/-!
# Numbers and their bits

The bits of a number come in three fields: a sign, an exponent of 11 bits and a fraction of 52 bits.
`decode` reads them off, `of_decode` says what they were, and on finite numbers without a sign `pack`
undoes `decode`.
-/

namespace Spreadsheet.Number

open Float.Model Float.Model.UnpackedFloat

/-! ### The fields -/

section Fields

variable (b : BitVec Format.binary64.numBits)

theorem toNat_unpackMantissa : (unpackMantissa b).toNat = b.toNat % 2 ^ 52 := by
  simp [unpackMantissa, BitVec.extractLsb_toNat]

theorem toNat_unpackExponent : (unpackExponent b).toNat = b.toNat / 2 ^ 52 % 2 ^ 11 := by
  simp [unpackExponent, BitVec.extractLsb_toNat, Nat.shiftRight_eq_div_pow]

theorem unpackExponent_eq_special_iff :
    unpackExponent b = (-1#11 : BitVec 11) ↔ b.toNat / 2 ^ 52 % 2 ^ 11 = specialExponent := by
  rw [← toNat_unpackExponent, ← BitVec.toNat_inj]
  rfl

end Fields

/-! ### Numbers that are decoded and packed -/

variable {x : Float} {negative : Bool} {mantissa : Nat} {exponent : Int}

theorem toBits_ofBits {bits : UInt64} (h : Format.binary64.Valid bits.toBitVec) :
    (Float.ofBits bits).toBits = bits :=
  UInt64.toBitVec_inj.mp (pack_unpack_of_valid h)

theorem zero_eq_pack : (0.0 : Float) = pack 0 minExponent := by
  apply Float.toBits_inj.mp
  decide +kernel

theorem toNat_toBits_pack (mantissa : Nat) (exponent : Int) : (pack mantissa exponent).toBits.toNat =
    min ((exponent - minExponent).toNat * hiddenBit + mantissa) (specialExponent * hiddenBit) := by
  rw [pack]
  generalize hmin : min _ (specialExponent * hiddenBit) = bits
  have hsmall : bits ≤ 2047 * 2 ^ 52 := hmin ▸ Nat.min_le_right ..
  have hbits : (UInt64.ofNat bits).toNat = bits := UInt64.toNat_ofNat_of_lt
    (Nat.lt_of_le_of_lt hsmall (by decide))
  rw [toBits_ofBits ⟨?_⟩, hbits]
  -- up to infinity the special exponent goes with no fraction
  intro hspecial hnan
  refine absurd (BitVec.eq_of_toNat_eq ?_) hnan
  rw [unpackExponent_eq_special_iff, UInt64.toNat_toBitVec, hbits] at hspecial
  rw [toNat_unpackMantissa, UInt64.toNat_toBitVec, hbits]
  have hspecial : bits / 2 ^ 52 % 2 ^ 11 = 2047 := hspecial
  show bits % 2 ^ 52 = 0
  omega

/-- The mantissas and exponents of finite numbers. -/
structure Canonical (mantissa : Nat) (exponent : Int) : Prop where
  mantissa_lt : mantissa < 2 * hiddenBit
  minExponent_le : minExponent ≤ exponent
  exponent_le : exponent ≤ 971
  hidden : exponent = minExponent ∨ hiddenBit ≤ mantissa

/-- The bits of a finite number say its mantissa and exponent. -/
theorem of_decode (h : decode x = .finite negative mantissa exponent) :
    Canonical mantissa exponent ∧ x.toBits.toNat =
      negative.toNat * 2 ^ 63 + ((exponent - minExponent).toNat * hiddenBit + mantissa) := by
  have hbits : x.toBits.toNat < 2 ^ 64 := x.toBits.toNat_lt
  have hhidden : hiddenBit = 2 ^ 52 := rfl
  have hmin : minExponent = -1074 := rfl
  have hspecial : specialExponent = 2047 := rfl
  have hsign : (x.toBits.toNat / 2 ^ 63 == 1).toNat = x.toBits.toNat / 2 ^ 63 := by
    rcases Nat.lt_or_ge x.toBits.toNat (2 ^ 63) with hpos | hneg
    · rw [Nat.div_eq_of_lt hpos]
      rfl
    · rw [show x.toBits.toNat / 2 ^ 63 = 1 by omega]
      rfl
  rw [decode] at h
  dsimp only [Nat.pow_eq] at h
  split at h
  · split at h <;> cases h
  split at h
  · obtain ⟨rfl, rfl, rfl⟩ := Exact.finite.inj h
    refine ⟨⟨by omega, by omega, by omega, Or.inl rfl⟩, ?_⟩
    rw [hsign, hhidden]
    omega
  · obtain ⟨rfl, rfl, rfl⟩ := Exact.finite.inj h
    refine ⟨⟨by omega, by omega, by omega, Or.inr (by omega)⟩, ?_⟩
    rw [hsign, hhidden]
    omega

theorem pack_of_decode (h : decode x = .finite false mantissa exponent) :
    pack mantissa exponent = x := by
  obtain ⟨hcanonical, hbits⟩ := of_decode h
  have hfinite : (exponent - minExponent).toNat * hiddenBit + mantissa
      ≤ specialExponent * hiddenBit := by
    have hlt := hcanonical.mantissa_lt
    have hle := hcanonical.exponent_le
    have hhidden : hiddenBit = 2 ^ 52 := rfl
    have hmin : minExponent = -1074 := rfl
    have hspecial : specialExponent = 2047 := rfl
    rw [hhidden] at hlt ⊢
    omega
  apply Float.toBits_inj.mp
  apply UInt64.toNat_inj.mp
  rw [toNat_toBits_pack, hbits, Nat.min_eq_left hfinite, Bool.toNat_false, Nat.zero_mul,
    Nat.zero_add]

theorem exists_decode_of_isFinite (h : x.isFinite) :
    ∃ negative mantissa exponent, decode x = .finite negative mantissa exponent := by
  have hne : x.toBits.toNat / 2 ^ 52 % 2 ^ 11 ≠ specialExponent := by
    intro hspecial
    have hfields := (unpackExponent_eq_special_iff _).mpr hspecial
    have hfinite : (UnpackedFloat.unpack Format.binary64 x.toBits.toBitVec).isFinite := h
    rw [UnpackedFloat.unpack] at hfinite
    dsimp only at hfinite
    rw [if_pos hfields] at hfinite
    split at hfinite <;> cases hfinite
  rw [decode]
  dsimp only [Nat.pow_eq]
  rw [if_neg hne]
  split
  · exact ⟨_, _, _, rfl⟩
  · exact ⟨_, _, _, rfl⟩

/-- Zero and what is packed have no sign. -/
theorem nearest_not_negative {num den : Nat}
    (h : decode (nearest num den) = .finite negative mantissa exponent) : negative = false := by
  have hpack {mantissa' : Nat} {exponent' : Int}
      (h : decode (pack mantissa' exponent') = .finite negative mantissa exponent) :
      negative = false := by
    obtain ⟨-, hbits⟩ := of_decode h
    have hsmall : (pack mantissa' exponent').toBits.toNat ≤ 2047 * 2 ^ 52 := by
      rw [toNat_toBits_pack]
      exact Nat.min_le_right ..
    cases negative with
    | false => rfl
    | true =>
      rw [Bool.toNat_true] at hbits
      omega
  rw [nearest] at h
  split at h
  · exact hpack (zero_eq_pack ▸ h)
  dsimp only at h
  split at h
  · exact hpack h
  · exact hpack h

end Spreadsheet.Number
