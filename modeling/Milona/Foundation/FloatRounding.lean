import Milona.Foundation.FloatPacking
import Milona.Foundation.RoundToNearest

/-!
# Rounding of floating-point numbers

An exact result is kept as a mantissa with two more bits, a half and whatever is
left below it.  It is shifted to the exponent for its magnitude and rounded
there, and a tie goes to the even mantissa: what is packed is the rounded
number, or an infinity where that would be too large.
-/

namespace Milona.Foundation.FloatRounding

open Float.Model
open Float.Model.UnpackedFloat
open FloatPacking RoundToNearest

/-! ## Extended mantissas -/

def half (bit : Bool) : ℚ := cond bit (1 / 2) 0

theorem half_nonneg (bit : Bool) : 0 ≤ half bit := by
  cases bit <;> norm_num [half]

theorem half_le (bit : Bool) : half bit ≤ 1 / 2 := by
  cases bit <;> norm_num [half]

theorem half_odd (n : Nat) : half (n % 2 != 0) = (n % 2 : Nat) / 2 := by
  rcases Nat.mod_two_eq_zero_or_one n with h | h <;> simp [h, half]

/-- The round bit is a half, and the sticky bit tells of what is left below it. -/
def Represents (em : ExtendedMantissa) (y : ℚ) : Prop :=
  ∃ rest : ℚ, 0 ≤ rest ∧ rest < 1 / 2 ∧ y = em.mantissa + half em.roundBit + rest ∧
    (em.stickyBit = true ↔ 0 < rest)

theorem mantissa_ofMantissaAndAccuracy (mantissa : Nat) (accuracy : Accuracy) :
    (ExtendedMantissa.ofMantissaAndAccuracy mantissa accuracy).mantissa =
      mantissa := by
  rcases accuracy with _ | order
  · rfl
  · cases order <;> rfl

theorem represents_exact (mantissa : Nat) :
    Represents (ExtendedMantissa.ofMantissaAndAccuracy mantissa .exact) mantissa :=
  ⟨0, le_rfl, by norm_num, by simp [ExtendedMantissa.ofMantissaAndAccuracy, half],
    by simp [ExtendedMantissa.ofMantissaAndAccuracy]⟩

theorem represents_fraction (mantissa : Nat) {numerator denominator : Nat}
    (h : numerator < denominator) :
    Represents (.ofMantissaAndAccuracy mantissa
        (accuracyOfFraction numerator denominator))
      (mantissa + numerator / denominator) := by
  have hcast : (numerator : ℚ) < denominator := by
    exact_mod_cast h
  have hnonneg : (0 : ℚ) ≤ numerator := Nat.cast_nonneg numerator
  have hdenominator : (0 : ℚ) < denominator := by linarith
  unfold accuracyOfFraction
  split
  next hzero =>
    rw [hzero, Nat.cast_zero, zero_div, add_zero]
    exact represents_exact mantissa
  next hne =>
    have hpos : (0 : ℚ) < numerator / denominator := by
      apply div_pos _ hdenominator
      exact_mod_cast Nat.pos_of_ne_zero hne
    rcases lt_trichotomy (2 * numerator) denominator with hlt | heq | hgt
    · have hcastLt : (2 : ℚ) * numerator < denominator := by
        exact_mod_cast hlt
      have hsmall : (numerator : ℚ) / denominator < 1 / 2 := by
        rw [div_lt_iff₀ hdenominator]
        linarith
      rw [compare_lt_iff_lt.mpr hlt]
      exact ⟨numerator / denominator, hpos.le, hsmall,
        by simp [ExtendedMantissa.ofMantissaAndAccuracy, half],
        by simp [ExtendedMantissa.ofMantissaAndAccuracy, hpos]⟩
    · have hcastEq : (2 : ℚ) * numerator = denominator := by
        exact_mod_cast heq
      have hhalf : (numerator : ℚ) / denominator = 1 / 2 := by
        rw [div_eq_iff hdenominator.ne']
        linarith
      rw [compare_eq_iff_eq.mpr heq, hhalf]
      exact ⟨0, le_rfl, by norm_num,
        by simp [ExtendedMantissa.ofMantissaAndAccuracy, half],
        by simp [ExtendedMantissa.ofMantissaAndAccuracy]⟩
    · have hcastGt : (denominator : ℚ) < 2 * numerator := by
        exact_mod_cast hgt
      have hlarge : 1 / 2 < (numerator : ℚ) / denominator := by
        rw [lt_div_iff₀ hdenominator]
        linarith
      have hone : (numerator : ℚ) / denominator < 1 :=
        (div_lt_one₀ hdenominator).mpr hcast
      rw [compare_gt_iff_gt.mpr hgt]
      exact ⟨numerator / denominator - 1 / 2, by linarith, by linarith,
        by simp [ExtendedMantissa.ofMantissaAndAccuracy, half],
        by simpa [ExtendedMantissa.ofMantissaAndAccuracy] using hlarge⟩

namespace Represents

variable {em : ExtendedMantissa} {y : ℚ}

theorem mantissa_le (h : Represents em y) : (em.mantissa : ℚ) ≤ y := by
  obtain ⟨rest, hrest, -, rfl, -⟩ := h
  linarith [half_nonneg em.roundBit]

theorem lt_mantissa_succ (h : Represents em y) : y < em.mantissa + 1 := by
  obtain ⟨rest, -, hrest, rfl, -⟩ := h
  linarith [half_le em.roundBit]

theorem shiftRightOne (h : Represents em y) :
    Represents em.shiftRightOne (y / 2) := by
  obtain ⟨rest, hnonneg, hlt, rfl, hsticky⟩ := h
  have hdiv : (em.mantissa : ℚ) = 2 * (em.mantissa / 2 : Nat) +
    (em.mantissa % 2 : Nat) := by
    exact_mod_cast (Nat.div_add_mod em.mantissa 2).symm
  have hlow := half_nonneg em.roundBit
  have hhigh := half_le em.roundBit
  refine ⟨(half em.roundBit + rest) / 2, by linarith, by linarith, ?_, ?_⟩
  · rw [ExtendedMantissa.shiftRightOne, half_odd]
    linarith
  · rw [ExtendedMantissa.shiftRightOne]
    cases hbit : em.roundBit with
    | true =>
        simp only [half, cond_true, Bool.true_or, true_iff]
        linarith
    | false =>
        rw [Bool.false_or, hsticky, half, cond_false, zero_add]
        exact ⟨fun h => by linarith, fun h => by linarith⟩

theorem shiftRight (h : Represents em y) (n : Nat) :
    Represents (em >>> n) (y / 2 ^ n) := by
  induction n with
  | zero =>
      rw [pow_zero, div_one]
      exact h
  | succ n ih =>
      have hstep := ih.shiftRightOne
      rwa [div_div, ← pow_succ] at hstep

end Represents

/-- The natural number nearest to `y`, the even one of two. -/
structure IsNearestEven (n : Nat) (y : ℚ) : Prop where
  le_add : (n : ℚ) ≤ y + 1 / 2
  add_ge : y ≤ n + 1 / 2
  even_of_tie : (n : ℚ) = y + 1 / 2 ∨ y = n + 1 / 2 → n % 2 = 0

namespace IsNearestEven

variable {n : Nat} {y : ℚ}

theorem lt_iff (h : IsNearestEven n y) (k : Nat) :
    n < 2 * k ↔ y < 2 * k - 1 / 2 := by
  constructor
  · intro hlt
    have hcast : (n : ℚ) + 1 ≤ 2 * k := by
      exact_mod_cast hlt
    apply lt_of_le_of_ne (by linarith [h.add_ge])
    intro htie
    have heven := h.even_of_tie (Or.inr (by linarith [h.add_ge]))
    have hodd : (n : ℚ) + 1 = 2 * k := by
      linarith [h.add_ge]
    have hnat : n + 1 = 2 * k := by
      exact_mod_cast hodd
    omega
  · intro hlt
    have hcast : (n : ℚ) < (2 * k : Nat) := by
      push_cast
      linarith [h.le_add]
    exact_mod_cast hcast

theorem le_iff (h : IsNearestEven n y) (k : Nat) :
    n ≤ 2 * k ↔ y ≤ 2 * k + 1 / 2 := by
  constructor
  · intro hle
    have hcast : (n : ℚ) ≤ 2 * k := by
      exact_mod_cast hle
    linarith [h.add_ge]
  · intro hle
    have hcast : (n : ℚ) ≤ (2 * k + 1 : Nat) := by
      push_cast
      linarith [h.le_add]
    have hnat : n ≤ 2 * k + 1 := by
      exact_mod_cast hcast
    apply Nat.le_of_lt_succ
    apply lt_of_le_of_ne hnat
    rintro rfl
    have hle_add := h.le_add
    push_cast at hle_add
    have heven := h.even_of_tie (Or.inl (by push_cast; linarith))
    omega

theorem dist_le_half (h : IsNearestEven n y) : |(n : ℚ) - y| ≤ 1 / 2 :=
  abs_le.mpr ⟨by linarith [h.add_ge], by linarith [h.le_add]⟩

theorem half_le_dist (h : IsNearestEven n y) {k : Int} (hne : k ≠ n) :
    1 / 2 ≤ |(k : ℚ) - y| := by
  have hdist := abs_sub_abs_le_abs_sub ((k : ℚ) - n) (y - n)
  have hapart : (1 : ℚ) ≤ |(k : ℚ) - n| := by
    exact_mod_cast Int.one_le_abs (sub_ne_zero.mpr hne)
  rw [sub_sub_sub_cancel_right, abs_sub_comm y] at hdist
  linarith [h.dist_le_half]

theorem dist_le (h : IsNearestEven n y) (k : Int) :
    |(n : ℚ) - y| ≤ |(k : ℚ) - y| := by
  by_cases hk : k = n
  · rw [hk, Int.cast_natCast]
  · exact h.dist_le_half.trans (h.half_le_dist hk)

/-- An integer that is as near is the next one, and `n` is even. -/
theorem of_dist_eq (h : IsNearestEven n y) {k : Int} (hne : k ≠ n)
    (htie : |(k : ℚ) - y| = |(n : ℚ) - y|) : |(k : ℚ) - n| = 1 ∧ n % 2 = 0 := by
  have hhalf : |(n : ℚ) - y| = 1 / 2 :=
    le_antisymm h.dist_le_half (htie ▸ h.half_le_dist hne)
  have hapart : (1 : ℚ) ≤ |(k : ℚ) - n| := by
    exact_mod_cast Int.one_le_abs (sub_ne_zero.mpr hne)
  have hsum := abs_sub_le (k : ℚ) y n
  rw [htie, abs_sub_comm y, hhalf] at hsum
  refine ⟨by linarith, h.even_of_tie ?_⟩
  rcases abs_choice ((n : ℚ) - y) with habs | habs <;> rw [habs] at hhalf
  · exact Or.inl (by linarith)
  · exact Or.inr (by linarith)

end IsNearestEven

theorem Represents.isNearestEven {em : ExtendedMantissa} {y : ℚ}
    (h : Represents em y) :
    IsNearestEven em.roundedMantissa y := by
  obtain ⟨rest, hnonneg, hlt, rfl, hsticky⟩ := h
  obtain ⟨mantissa, roundBit, stickyBit⟩ := em
  cases roundBit with
  | false =>
      have hrounded : (ExtendedMantissa.mk mantissa false
          stickyBit).roundedMantissa =
          mantissa := by
        cases stickyBit <;> rfl
      rw [hrounded]
      simp only [half, cond_false]
      exact ⟨by linarith, by linarith, by rintro (htie | htie) <;> linarith⟩
  | true =>
      cases stickyBit with
      | false =>
          have hrest : rest = 0 := by
            apply le_antisymm _ hnonneg
            simpa using hsticky
          have hrounded : (ExtendedMantissa.mk mantissa true
              false).roundedMantissa =
              mantissa + mantissa % 2 := rfl
          rw [hrounded, hrest]
          simp only [half, cond_true]
          rcases Nat.mod_two_eq_zero_or_one mantissa with hparity | hparity
          · rw [hparity]
            exact ⟨by push_cast; linarith, by push_cast; linarith,
              fun _ => by omega⟩
          · rw [hparity]
            exact ⟨by push_cast; linarith, by push_cast; linarith,
              fun _ => by omega⟩
      | true =>
          have hrest : 0 < rest := hsticky.mp rfl
          have hrounded : (ExtendedMantissa.mk mantissa true
              true).roundedMantissa =
              mantissa + 1 := rfl
          rw [hrounded]
          simp only [half, cond_true]
          refine ⟨by push_cast; linarith, by push_cast; linarith, ?_⟩
          push_cast
          rintro (htie | htie) <;> linarith

/-! ## Rounded numbers -/

/-- The exponent for `x` is `exponent`, and `n` is its rounded mantissa. -/
structure IsRounding (spec : Format) (x : ℚ) (n : Nat) (exponent : Int) :
    Prop where
  nearest : IsNearestEven n (x / 2 ^ exponent)
  exponent_ge : spec.minExponent ≤ exponent
  lt_top : x < 2 ^ (exponent + spec.mantissaBits)
  normal_or_least : 2 ^ (exponent + spec.mantissaBitsWithoutImplicit) ≤ x ∨
    exponent = spec.minExponent

variable {spec : Format} {sign : Sign} {mantissa n : Nat} {exponent : Int} {x : ℚ}

private theorem scale_dist (x k : ℚ) (exponent : Int) :
    |k * 2 ^ exponent - x| = |k - x / 2 ^ exponent| * 2 ^ exponent := by
  have hpos := two_zpow_pos exponent
  rw [← abs_of_pos hpos, ← abs_mul, abs_of_pos hpos, sub_mul,
    div_mul_cancel₀ _ hpos.ne']

namespace IsRounding

theorem le_top (h : IsRounding spec x n exponent) : n ≤ 2 ^ spec.mantissaBits := by
  have hlt : x / 2 ^ exponent < 2 ^ spec.mantissaBits := by
    rw [div_lt_iff₀ (two_zpow_pos exponent), two_pow_mul_zpow]
    exact h.lt_top
  have hsplit : (2 : ℚ) ^ spec.mantissaBits =
    2 * 2 ^ spec.mantissaBitsWithoutImplicit := by
    exact_mod_cast two_pow_mantissaBits spec
  rw [two_pow_mantissaBits]
  apply (h.nearest.le_iff _).mpr
  push_cast
  linarith

theorem normal (h : IsRounding spec x n exponent) :
    2 ^ spec.mantissaBitsWithoutImplicit ≤ n ∨ exponent = spec.minExponent := by
  refine h.normal_or_least.imp_left fun hlow => ?_
  have hle : (2 : ℚ) ^ spec.mantissaBitsWithoutImplicit ≤ x / 2 ^ exponent := by
    rw [le_div_iff₀ (two_zpow_pos exponent), two_pow_mul_zpow]
    exact hlow
  obtain ⟨half, hhalf⟩ := Nat.exists_eq_succ_of_ne_zero spec.hm.ne'
  rw [hhalf, Nat.succ_eq_add_one, pow_succ'] at hle ⊢
  by_contra hlt
  have hnot := (h.nearest.lt_iff (2 ^ half)).mp (not_le.mp hlt)
  push_cast at hnot
  linarith

theorem dist_multiple_le (h : IsRounding spec x n exponent) (k : Int) :
    |(n : ℚ) * 2 ^ exponent - x| ≤ |(k : ℚ) * 2 ^ exponent - x| := by
  rw [scale_dist, scale_dist]
  exact mul_le_mul_of_nonneg_right (h.nearest.dist_le k) (two_zpow_pos exponent).le

private theorem even_of_multiple (h : IsRounding spec x n exponent) {k : Int}
    (hne : (k : ℚ) * 2 ^ exponent ≠ n * 2 ^ exponent)
    (htie : |(k : ℚ) * 2 ^ exponent - x| = |(n : ℚ) * 2 ^ exponent - x|) :
    ∃ j : Int, (n : ℚ) * 2 ^ exponent =
      2 * j * |(k : ℚ) * 2 ^ exponent - n * 2 ^ exponent| := by
  have hpos := two_zpow_pos exponent
  rw [scale_dist, scale_dist] at htie
  obtain ⟨hnext, heven⟩ :=
    h.nearest.of_dist_eq (fun heq => hne (by rw [heq, Int.cast_natCast]))
    (mul_right_cancel₀ hpos.ne' htie)
  have hdouble : (n : ℚ) = 2 * (n / 2 : Nat) := by
    exact_mod_cast (Nat.mul_div_cancel' (Nat.dvd_of_mod_eq_zero heven)).symm
  refine ⟨(n / 2 : Nat), ?_⟩
  rw [← sub_mul, abs_mul, hnext, abs_of_pos hpos, one_mul,
    Int.cast_natCast, ← hdouble]

/-- A number of the format that is no multiple of the unit is farther away. -/
theorem multiple_or_farther (h : IsRounding spec x n exponent) {z : ℚ}
    (hz : Representable spec.mantissaBits spec.minExponent z) :
    (∃ k : Int, z = k * 2 ^ exponent) ∨
      |(n : ℚ) * 2 ^ exponent - x| < |z - x| := by
  obtain ⟨k, low, hk, hlow, rfl⟩ := hz
  rcases le_or_gt exponent low with hcoarse | hfine
  · exact Or.inl ((Representable.of_scaled hk le_rfl).multiple hcoarse)
  · -- It is below the least normal mantissa for `x`, which is a multiple.
    have hnormal := h.normal_or_least.resolve_right (by omega)
    have hbelow : (k : ℚ) * 2 ^ low ≤
        2 ^ (exponent + spec.mantissaBitsWithoutImplicit) := by
      have hsucc := cast_mantissaBits spec
      exact (Representable.scaled_le hk low).trans (two_zpow_le (by omega))
    rcases hbelow.eq_or_lt with heq | hlt
    · refine Or.inl ⟨2 ^ spec.mantissaBitsWithoutImplicit, ?_⟩
      push_cast
      rw [heq, two_pow_mul_zpow]
    · right
      have hdist := h.dist_multiple_le (2 ^ spec.mantissaBitsWithoutImplicit)
      push_cast at hdist
      rw [two_pow_mul_zpow, abs_of_nonpos (by linarith :
        (2 : ℚ) ^ (exponent + spec.mantissaBitsWithoutImplicit) - x ≤ 0)] at hdist
      rw [abs_of_neg (by linarith : (k : ℚ) * 2 ^ low - x < 0)]
      linarith

theorem isTiesToEven (h : IsRounding spec x n exponent) :
    IsTiesToEven spec.mantissaBits spec.minExponent x (n * 2 ^ exponent) := by
  refine ⟨⟨.of_natCast h.le_top h.exponent_ge, fun z hz => ?_⟩,
    fun z hz hne htie => ?_⟩
  · rcases h.multiple_or_farther hz with ⟨k, rfl⟩ | hfar
    · exact h.dist_multiple_le k
    · exact hfar.le
  · rcases h.multiple_or_farther hz with ⟨k, rfl⟩ | hfar
    · exact h.even_of_multiple hne htie
    · exact absurd htie hfar.ne'

end IsRounding

/-! ## Packing a rounded number -/

def finiteOrZero (sign : Sign) (n : Nat) (exponent : Int) : UnpackedFloat :=
  if h : n = 0 then .zero sign else .finite sign n exponent (Nat.pos_of_ne_zero h)

theorem finiteOrZero_of_pos (hpos : 0 < n) :
    finiteOrZero sign n exponent = .finite sign n exponent hpos :=
  dif_neg hpos.ne'

/-- What the number packs to has the value `r`, unless that is too large. -/
def PacksTo (spec : Format) (u : UnpackedFloat) (r : ℚ) : Prop :=
  (|r| < 2 ^ topExponent spec →
    unpackedValue (UnpackedFloat.unpack spec (UnpackedFloat.pack spec u)) =
      some r) ∧
  (2 ^ topExponent spec ≤ |r| →
    ∃ sign, UnpackedFloat.unpack spec (UnpackedFloat.pack spec u) = .infinity sign)

def Rounds (spec : Format) (u : UnpackedFloat) (x : ℚ) : Prop :=
  ∃ r, IsTiesToEven spec.mantissaBits spec.minExponent x r ∧ PacksTo spec u r

theorem isTiesToEven_signed {r : ℚ} (sign : Sign)
    (h : IsTiesToEven spec.mantissaBits spec.minExponent x r) :
    IsTiesToEven spec.mantissaBits spec.minExponent (signed sign x)
      (signed sign r) := by
  cases sign
  · exact h.opposite
  · exact h

theorem packsTo_zero (spec : Format) (sign : Sign) :
    PacksTo spec (.zero sign) 0 := by
  have hpos : (0 : ℚ) < 2 ^ topExponent spec := two_zpow_pos _
  refine ⟨fun _ => ?_, fun hlarge => ?_⟩
  · exact congrArg unpackedValue (unpack_pack_zero spec sign)
  · rw [abs_zero] at hlarge
    exact absurd hlarge (not_le.mpr hpos)

/-- A value at most a power of two that the format has is not too large. -/
theorem Rounds.value {u : UnpackedFloat} (h : Rounds spec u x) {bound : Int}
    (hlow : spec.minExponent ≤ bound) (hhigh : bound < topExponent spec)
    (hx : |x| ≤ 2 ^ bound) :
    ∃ r, unpackedValue (UnpackedFloat.unpack spec (UnpackedFloat.pack spec u)) =
      some r ∧
      IsNearest spec.mantissaBits spec.minExponent x r := by
  obtain ⟨r, hround, hvalue, -⟩ := h
  have hr : |r| ≤ 2 ^ bound := hround.magnitude_le (.two_zpow hlow) hx
  exact ⟨r, hvalue (hr.trans_lt (zpow_lt_zpow_right₀ one_lt_two hhigh)),
    hround.toIsNearest⟩

theorem rounds_zero (spec : Format) (sign : Sign) : Rounds spec (.zero sign) 0 :=
  ⟨0, .of_representable .zero, packsTo_zero spec sign⟩

section Finite

variable (hspec : 1 < spec.exponentBits)
include hspec

theorem packsTo_finite (hpos : 0 < mantissa)
    (h : IsCanonical spec mantissa exponent) (sign : Sign) :
    PacksTo spec (.finite sign mantissa exponent hpos)
      (signed sign (mantissa * 2 ^ exponent)) := by
  have hsucc := cast_mantissaBits spec
  have hnonneg : (0 : ℚ) ≤ mantissa * 2 ^ exponent :=
    mul_nonneg (Nat.cast_nonneg mantissa) (two_zpow_pos exponent).le
  rw [PacksTo, abs_signed sign hnonneg]
  constructor
  · intro hsmall
    have htop : exponent + spec.mantissaBits ≤ topExponent spec := by
      rcases h.normal_or_least with hnormal | hleast
      · have hcast : (2 : ℚ) ^ spec.mantissaBitsWithoutImplicit ≤ mantissa := by
          exact_mod_cast hnormal
        have hlt : exponent + spec.mantissaBitsWithoutImplicit <
          topExponent spec := by
          rw [← zpow_lt_zpow_iff_right₀ (one_lt_two : (1 : ℚ) < 2),
            ← two_pow_mul_zpow]
          exact (mul_le_mul_of_nonneg_right hcast
            (two_zpow_pos exponent).le).trans_lt hsmall
        omega
      · have hmin := minExponent_eq spec
        have htwo := two_le_topExponent hspec
        omega
    rw [unpack_pack_finite hpos h htop, unpackedValue_finite]
  · intro hlarge
    have hcast : (mantissa : ℚ) < 2 ^ spec.mantissaBits := by
      exact_mod_cast h.mantissa_lt
    have htop : topExponent spec < exponent + spec.mantissaBits := by
      rw [← zpow_lt_zpow_iff_right₀ (one_lt_two : (1 : ℚ) < 2), ← two_pow_mul_zpow]
      exact hlarge.trans_lt (mul_lt_mul_of_pos_right hcast (two_zpow_pos exponent))
    exact ⟨sign, unpack_pack_large hpos htop⟩

theorem rounds_finite (hpos : 0 < mantissa)
    (h : IsCanonical spec mantissa exponent) (sign : Sign) :
    Rounds spec (.finite sign mantissa exponent hpos)
      (signed sign (mantissa * 2 ^ exponent)) :=
  ⟨_, isTiesToEven_signed sign
      (.of_representable (.of_natCast h.mantissa_lt.le h.exponent_ge)),
    packsTo_finite hspec hpos h sign⟩

theorem packsTo_finiteOrZero (sign : Sign)
    (h : 0 < n → IsCanonical spec n exponent) :
    PacksTo spec (finiteOrZero sign n exponent)
      (signed sign (n * 2 ^ exponent)) := by
  rcases n.eq_zero_or_pos with rfl | hpos
  · rw [Nat.cast_zero, zero_mul, signed_zero]
    exact packsTo_zero spec sign
  · rw [finiteOrZero_of_pos hpos]
    exact packsTo_finite hspec hpos (h hpos) sign

end Finite

/-! ## The rounding step -/

theorem targetExponent_eq (spec : Format) (mantissa : Nat) (exponent : Int) :
    spec.targetExponent (totalExponent mantissa exponent) =
      max (mantissa.log2 + exponent - spec.mantissaBitsWithoutImplicit)
        spec.minExponent := by
  have hsucc := cast_mantissaBits spec
  rw [Format.targetExponent, totalExponent]
  congr 1
  omega

theorem shiftToTargetExponent_of_lt (hn : n < 2 ^ spec.mantissaBits)
    (hexponent : spec.minExponent ≤ exponent) :
    shiftToTargetExponent spec n exponent .exact =
      (⟨n, false, false⟩, exponent) := by
  have hsucc := cast_mantissaBits spec
  have hlog : n.log2 < spec.mantissaBits := by
    rcases Nat.eq_zero_or_pos n with rfl | hpos
    · rw [Nat.log2_zero]
      omega
    · exact (Nat.log2_lt hpos.ne').mpr hn
  have hshift : (max ((n.log2 : Int) + exponent - spec.mantissaBitsWithoutImplicit)
      spec.minExponent - exponent).toNat = 0 := by
    omega
  rw [shiftToTargetExponent, targetExponent_eq, shiftToExponent, hshift]
  simp only [Nat.cast_zero, add_zero]
  rfl

theorem shiftToTargetExponent_top (hexponent : spec.minExponent ≤ exponent) :
    shiftToTargetExponent spec (2 ^ spec.mantissaBits) exponent .exact =
      (⟨2 ^ spec.mantissaBitsWithoutImplicit, false, false⟩, exponent + 1) := by
  have hsucc := cast_mantissaBits spec
  have hlog : (2 ^ spec.mantissaBits).log2 = spec.mantissaBits := Nat.log2_two_pow
  have hshift :
      (max (((2 ^ spec.mantissaBits).log2 : Int) + exponent -
        spec.mantissaBitsWithoutImplicit) spec.minExponent - exponent).toNat = 1 := by
    omega
  have hhalf :
      2 ^ spec.mantissaBits / 2 = 2 ^ spec.mantissaBitsWithoutImplicit := by
    rw [two_pow_mantissaBits, Nat.mul_div_cancel_left _ two_pos]
  have heven : 2 ^ spec.mantissaBits % 2 = 0 := by
    rw [two_pow_mantissaBits, Nat.mul_mod_right]
  rw [shiftToTargetExponent, targetExponent_eq, shiftToExponent, hshift]
  change
    (ExtendedMantissa.shiftRightOne ⟨2 ^ spec.mantissaBits, false, false⟩, _) = _
  rw [ExtendedMantissa.shiftRightOne, hhalf, heven]
  rfl

theorem isRounding_shiftRight {em : ExtendedMantissa} {y : ℚ} {target : Int}
    {shift : Nat} (h : Represents em y)
    (hpos : 0 < em.mantissa ∨ exponent ≤ spec.minExponent)
    (htarget : max (em.mantissa.log2 + exponent -
      spec.mantissaBitsWithoutImplicit) spec.minExponent = target)
    (hsum : exponent + shift = target) :
    IsRounding spec (y * 2 ^ exponent) (em >>> shift).roundedMantissa target := by
  have hsucc := cast_mantissaBits spec
  have hscale : y / 2 ^ shift = y * 2 ^ exponent / 2 ^ target := by
    rw [← hsum, ← two_pow_mul_zpow,
      mul_div_mul_right _ _ (two_zpow_pos exponent).ne']
  have habove : (em.mantissa : ℚ) + 1 ≤ 2 ^ (em.mantissa.log2 + 1) := by
    exact_mod_cast Nat.lt_log2_self
  refine ⟨?_, by omega, ?_, ?_⟩
  · rw [← hscale]
    exact (h.shiftRight shift).isNearestEven
  · calc
      y * 2 ^ exponent < 2 ^ (em.mantissa.log2 + 1) * 2 ^ exponent :=
        mul_lt_mul_of_pos_right (h.lt_mantissa_succ.trans_le habove)
          (two_zpow_pos exponent)
      _ = 2 ^ (exponent + (em.mantissa.log2 + 1 : Nat)) :=
          two_pow_mul_zpow _ exponent
      _ ≤ 2 ^ (target + spec.mantissaBits) := two_zpow_le (by omega)
  · by_cases hleast : target = spec.minExponent
    · exact Or.inr hleast
    · left
      have hmantissa : em.mantissa ≠ 0 := by
        intro hzero
        have hlow := hpos.resolve_left (by omega)
        rw [hzero, Nat.log2_zero] at htarget
        omega
      have hbelow : (2 : ℚ) ^ em.mantissa.log2 ≤ em.mantissa := by
        exact_mod_cast Nat.log2_self_le hmantissa
      calc
        (2 : ℚ) ^ (target + spec.mantissaBitsWithoutImplicit) ≤
            2 ^ (exponent + em.mantissa.log2) := two_zpow_le (by omega)
        _ = 2 ^ em.mantissa.log2 * 2 ^ exponent :=
            (two_pow_mul_zpow _ exponent).symm
        _ ≤ y * 2 ^ exponent :=
          mul_le_mul_of_nonneg_right (hbelow.trans h.mantissa_le)
            (two_zpow_pos exponent).le

theorem log2_shiftLeft {n : Nat} (h : 0 < n) (shift : Nat) :
    (n <<< shift).log2 = n.log2 + shift := by
  induction shift with
  | zero => rfl
  | succ shift ih =>
      rw [Nat.shiftLeft_succ,
        Nat.log2_two_mul (Nat.shiftLeft_pos_iff.mpr h).ne', ih]
      rfl

theorem shiftLeft_mul_zpow (n shift : Nat) (exponent : Int) :
    ((n <<< shift : Nat) : ℚ) * 2 ^ (exponent - shift) = n * 2 ^ exponent := by
  rw [Nat.shiftLeft_eq, Nat.cast_mul, mul_assoc, Nat.cast_pow, Nat.cast_ofNat,
    ← zpow_natCast, ← two_zpow_add]
  congr 2
  omega

/-- The second shift renormalises a full mantissa. -/
theorem roundWithAccuracy_eq {accuracy : Accuracy}
    {first second : ExtendedMantissa × Int}
    (hfirst : shiftToTargetExponent spec mantissa exponent accuracy = first)
    (hsecond : shiftToTargetExponent spec first.1.roundedMantissa first.2 .exact = second) :
    roundWithAccuracy spec sign mantissa exponent accuracy =
      finiteOrZero sign second.1.mantissa second.2 := by
  subst hfirst hsecond
  rfl

section Rounding

variable (hspec : 1 < spec.exponentBits)
include hspec

private theorem rounds_of_isRounding (sign : Sign)
    (h : IsRounding spec x n exponent) {second : ExtendedMantissa × Int}
    (hsecond : shiftToTargetExponent spec n exponent .exact = second) :
    Rounds spec (finiteOrZero sign second.1.mantissa second.2)
      (signed sign x) := by
  have hge := h.exponent_ge
  refine ⟨_, isTiesToEven_signed sign h.isTiesToEven, ?_⟩
  rcases h.le_top.lt_or_eq with hlt | rfl
  · rw [shiftToTargetExponent_of_lt hlt hge] at hsecond
    subst hsecond
    exact packsTo_finiteOrZero hspec sign fun hpos => ⟨hpos, hlt, hge, h.normal⟩
  · have hbits := two_pow_mantissaBits spec
    have hpos : 0 < 2 ^ spec.mantissaBitsWithoutImplicit := Nat.two_pow_pos _
    have hcanonical : IsCanonical spec (2 ^ spec.mantissaBitsWithoutImplicit)
        (exponent + 1) :=
      ⟨hpos, by rw [hbits]; omega, by omega, Or.inl le_rfl⟩
    have hvalue : ((2 ^ spec.mantissaBits : Nat) : ℚ) * 2 ^ exponent =
        (2 ^ spec.mantissaBitsWithoutImplicit : Nat) * 2 ^ (exponent + 1) := by
      rw [hbits, zpow_add_one₀ two_ne_zero]
      push_cast
      ring
    rw [shiftToTargetExponent_top hge] at hsecond
    subst hsecond
    rw [hvalue]
    exact packsTo_finiteOrZero hspec sign fun _ => hcanonical

theorem rounds_roundWithAccuracy (sign : Sign) {accuracy : Accuracy} {y : ℚ}
    (hpos : 0 < mantissa ∨ exponent ≤ spec.minExponent)
    (hrepresents : Represents (.ofMantissaAndAccuracy mantissa accuracy) y)
    (hexponent : exponent ≤
      max (mantissa.log2 + exponent - spec.mantissaBitsWithoutImplicit)
      spec.minExponent) :
    Rounds spec (roundWithAccuracy spec sign mantissa exponent accuracy)
      (signed sign (y * 2 ^ exponent)) := by
  obtain ⟨target, htarget⟩ : ∃ target,
    max ((mantissa.log2 : Int) + exponent - spec.mantissaBitsWithoutImplicit)
      spec.minExponent = target := ⟨_, rfl⟩
  obtain ⟨shift, hshift⟩ : ∃ shift : Nat,
    (target - exponent).toNat = shift := ⟨_, rfl⟩
  have hsum : exponent + shift = target := by omega
  have hmantissa := mantissa_ofMantissaAndAccuracy mantissa accuracy
  have hround := isRounding_shiftRight hrepresents (by rwa [hmantissa])
    (by rw [hmantissa, htarget]) hsum
  have hfirst : shiftToTargetExponent spec mantissa exponent accuracy =
      (ExtendedMantissa.ofMantissaAndAccuracy mantissa accuracy >>> shift,
        target) := by
    rw [shiftToTargetExponent, targetExponent_eq, htarget,
      shiftToExponent, hshift, hsum]
  rw [roundWithAccuracy_eq hfirst rfl]
  exact rounds_of_isRounding hspec sign hround rfl

theorem rounds_round (sign : Sign) (hpos : 0 < mantissa) (exponent : Int) :
    Rounds spec (UnpackedFloat.round spec sign mantissa exponent)
      (signed sign (mantissa * 2 ^ exponent)) := by
  obtain ⟨shift, hshift⟩ : ∃ shift : Nat,
    (exponent -
      max ((mantissa.log2 : Int) + exponent - spec.mantissaBitsWithoutImplicit)
        spec.minExponent).toNat = shift := ⟨_, rfl⟩
  have hlog := log2_shiftLeft hpos shift
  rw [← shiftLeft_mul_zpow mantissa shift exponent, UnpackedFloat.round,
    targetExponent_eq]
  simp only [decreaseExponent, hshift]
  exact rounds_roundWithAccuracy hspec sign
      (Or.inl (Nat.shiftLeft_pos_iff.mpr hpos))
    (represents_exact _) (by omega)

theorem rounds_normalize (mantissa exponent : Int) (zeroSign : Sign) :
    Rounds spec (UnpackedFloat.normalize spec mantissa exponent zeroSign)
      (mantissa * 2 ^ exponent) := by
  unfold UnpackedFloat.normalize
  split
  next hlt =>
    rw [compare_lt_iff_lt] at hlt
    have hcast : ((-mantissa).toNat : ℚ) = -mantissa := by
      exact_mod_cast Int.toNat_of_nonneg (by omega : 0 ≤ -mantissa)
    have hround := rounds_round hspec .negative
      (by omega : 0 < (-mantissa).toNat) exponent
    rwa [hcast, signed, neg_mul, neg_neg] at hround
  next heq =>
    rw [compare_eq_iff_eq] at heq
    rw [heq, Int.cast_zero, zero_mul]
    exact rounds_zero spec zeroSign
  next hgt =>
    rw [compare_gt_iff_gt] at hgt
    have hcast : (mantissa.toNat : ℚ) = mantissa := by
      exact_mod_cast Int.toNat_of_nonneg (by omega : 0 ≤ mantissa)
    have hround := rounds_round hspec .positive
      (by omega : 0 < mantissa.toNat) exponent
    rwa [hcast, signed] at hround

end Rounding

end Milona.Foundation.FloatRounding
