import Mathlib.Data.Nat.Cast.Field
import Milona.Foundation.Binary64

/-!
# Whole double-precision numbers

A finite double is whole when its mantissa is a multiple of the power of two
that its exponent divides by.  Rounding a whole double to an integer loses
nothing; a double that is not whole is small.
-/

namespace Milona.Foundation.Binary64

open Float.Model
open Float.Model.UnpackedFloat
open FloatPacking RoundToNearest

private theorem mantissa_shiftRight (em : ExtendedMantissa) (shift : Nat) :
    (em >>> shift).mantissa = em.mantissa / 2 ^ shift := by
  induction shift with
  | zero => exact (Nat.div_one _).symm
  | succ shift ih =>
      change (em >>> shift).mantissa / 2 = _
      rw [ih, Nat.div_div_eq_div_mul, ← Nat.pow_succ]

theorem roundToInt_eq (sign : Sign) (mantissa : Nat) (exponent : Int) :
    roundToInt sign mantissa exponent =
      sign.apply (mantissa <<< exponent.toNat / 2 ^ (-exponent).toNat : Nat) := by
  have hdrop : (0 - (exponent - (exponent.toNat : Int))).toNat = (-exponent).toNat := by
    omega
  simp only [roundToInt, decreaseExponent, shiftToExponent, sub_zero, hdrop,
    mantissa_shiftRight, ExtendedMantissa.ofMantissaAndAccuracy]

section Finite

variable {sign : Sign} {mantissa : Nat} {exponent : Int}

theorem scaled_eq_div (h : exponent < 0) :
    (mantissa : ℚ) * 2 ^ exponent = mantissa / (2 ^ (-exponent).toNat : Nat) := by
  obtain ⟨shift, rfl⟩ : ∃ shift : Nat, exponent = -shift := ⟨(-exponent).toNat, by omega⟩
  rw [neg_neg, Int.toNat_natCast, zpow_neg, zpow_natCast, div_eq_mul_inv]
  push_cast
  rfl

private theorem cast_whole
    (h : 0 ≤ exponent ∨ mantissa % 2 ^ (-exponent).toNat = 0) :
    ((mantissa <<< exponent.toNat / 2 ^ (-exponent).toNat : Nat) : ℚ) =
      mantissa * 2 ^ exponent := by
  rcases le_or_gt 0 exponent with hnonneg | hneg
  · obtain ⟨shift, rfl⟩ := Int.eq_ofNat_of_zero_le hnonneg
    have hdrop : (-(shift : Int)).toNat = 0 := by omega
    rw [hdrop, Int.toNat_natCast, Nat.pow_zero, Nat.div_one,
      Nat.shiftLeft_eq, zpow_natCast]
    push_cast
    rfl
  · have hdvd : 2 ^ (-exponent).toNat ∣ mantissa :=
      Nat.dvd_of_mod_eq_zero (h.resolve_left (by omega))
    have hshift : exponent.toNat = 0 := by omega
    have hne : ((2 ^ (-exponent).toNat : Nat) : ℚ) ≠ 0 := by
      exact_mod_cast (Nat.two_pow_pos _).ne'
    rw [scaled_eq_div hneg, hshift, Nat.shiftLeft_zero, Nat.cast_div hdvd hne]

theorem cast_roundToInt (h : 0 ≤ exponent ∨ mantissa % 2 ^ (-exponent).toNat = 0) :
    (roundToInt sign mantissa exponent : ℚ) = signed sign (mantissa * 2 ^ exponent) := by
  rw [roundToInt_eq, ← cast_whole h]
  cases sign with
  | negative => exact Int.cast_neg _
  | positive => rfl

theorem signed_ne_int (hexponent : exponent < 0)
    (h : mantissa % 2 ^ (-exponent).toNat ≠ 0) (n : Int) :
    signed sign (mantissa * 2 ^ exponent) ≠ n := by
  have hquotient : ∀ m : Int, (mantissa : ℚ) * 2 ^ exponent ≠ m := by
    intro m hm
    have hne : ((2 ^ (-exponent).toNat : Nat) : ℚ) ≠ 0 := by
      exact_mod_cast (Nat.two_pow_pos _).ne'
    rw [scaled_eq_div hexponent, div_eq_iff hne] at hm
    have hint : (mantissa : Int) = m * (2 ^ (-exponent).toNat : Nat) := by
      exact_mod_cast hm
    have hdvd : ((2 ^ (-exponent).toNat : Nat) : Int) ∣ mantissa :=
      ⟨m, by rw [hint, mul_comm]⟩
    exact h (Nat.mod_eq_zero_of_dvd (Int.natCast_dvd_natCast.mp hdvd))
  cases sign with
  | negative =>
      intro hn
      apply hquotient (-n)
      rw [Int.cast_neg, ← hn]
      exact (neg_neg _).symm
  | positive => exact hquotient n

theorem fraction_within (h : IsCanonical Format.binary64 mantissa exponent)
    (hneg : exponent < 0) :
    -2 ^ (63 : Int) ≤ signed sign (mantissa * 2 ^ exponent) ∧
      signed sign (mantissa * 2 ^ exponent) < 2 ^ (63 : Int) := by
  have hlt : (mantissa : ℚ) < 2 ^ 53 := by
    exact_mod_cast h.mantissa_lt
  have hbelow : (mantissa : ℚ) * 2 ^ exponent < 2 ^ (63 : Int) := by
    calc
      (mantissa : ℚ) * 2 ^ exponent ≤ mantissa * 1 :=
        mul_le_mul_of_nonneg_left (zpow_le_one_of_nonpos₀ one_le_two hneg.le)
          (Nat.cast_nonneg mantissa)
      _ < 2 ^ (63 : Int) := by
        norm_num at hlt ⊢
        linarith
  have hnonneg : (0 : ℚ) ≤ mantissa * 2 ^ exponent :=
    mul_nonneg (Nat.cast_nonneg mantissa) (two_zpow_pos exponent).le
  cases sign with
  | negative =>
      simp only [signed]
      exact ⟨by linarith, by linarith⟩
  | positive =>
      simp only [signed]
      exact ⟨by linarith, by linarith⟩

end Finite

/-! ## Narrowing -/

theorem toInt_ofIntClamp_iff (n : Int) :
    (Int64.ofIntClamp n).toInt = n ↔ -2 ^ 63 ≤ n ∧ n < 2 ^ 63 := by
  have hmin : Int64.minValue.toInt = -2 ^ 63 := rfl
  have hmax : Int64.maxValue.toInt = 2 ^ 63 - 1 := rfl
  constructor
  · intro h
    have hlow := (Int64.ofIntClamp n).minValue_le_toInt
    have hhigh := (Int64.ofIntClamp n).toInt_le
    omega
  · rintro ⟨hlow, hhigh⟩
    exact Int64.toInt_ofIntClamp (by omega) (by omega)

theorem cast_within_iff (n : Int) :
    (-2 ^ (63 : Int) ≤ (n : ℚ) ∧ (n : ℚ) < 2 ^ (63 : Int)) ↔
      -2 ^ 63 ≤ n ∧ n < 2 ^ 63 := by
  have hpower : (2 : ℚ) ^ (63 : Int) = (2 ^ 63 : Int) := by norm_num
  rw [hpower]
  norm_cast

end Milona.Foundation.Binary64
