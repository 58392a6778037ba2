import Milona.Foundation.FloatRounding

/-!
# Arithmetic of floating-point numbers

Each operation on finite numbers of a format is rounded once: the packed result
is a number nearest to the exact sum, product, quotient or square root, or an
infinity where that number would be too large.  The exact value is stated as a
rational number; a square root is nearest to rational numbers on either side.
-/

namespace Milona.Foundation.FloatArithmetic

open Float.Model
open Float.Model.UnpackedFloat
open FloatPacking RoundToNearest FloatRounding

variable {spec : Format} {mantissa n : Nat} {exponent : Int} {x : ℚ}

/-! ## Operations -/

/-- The numbers with a value, as they are unpacked. -/
inductive IsFinite (spec : Format) : UnpackedFloat → ℚ → Prop
  | zero (sign : Sign) : IsFinite spec (.zero sign) 0
  | finite (sign : Sign) (mantissa : Nat) (exponent : Int) (hpos : 0 < mantissa)
      (h : IsCanonical spec mantissa exponent) :
      IsFinite spec (.finite sign mantissa exponent hpos)
        (signed sign (mantissa * 2 ^ exponent))

theorem isFinite_of_value (hspec : 1 < spec.exponentBits)
    {bits : BitVec spec.numBits}
    (h : unpackedValue (UnpackedFloat.unpack spec bits) = some x) :
    IsFinite spec (UnpackedFloat.unpack spec bits) x := by
  cases hunpack : UnpackedFloat.unpack spec bits with
  | zero sign =>
      rw [hunpack] at h
      cases h
      exact .zero sign
  | finite sign mantissa exponent hpos =>
      rw [hunpack, unpackedValue_finite] at h
      cases h
      exact .finite sign mantissa exponent hpos
        (isCanonical_of_unpack hspec hunpack).1
  | infinity sign =>
      rw [hunpack] at h
      cases h
  | notANumber =>
      rw [hunpack] at h
      cases h

theorem IsFinite.opposite {u : UnpackedFloat} (h : IsFinite spec u x) :
    IsFinite spec u.neg (-x) := by
  cases h with
  | zero sign =>
      rw [neg_zero]
      exact .zero (-sign)
  | finite sign mantissa exponent hpos h =>
      rw [neg_signed]
      exact .finite (-sign) mantissa exponent hpos h

theorem IsFinite.representable {u : UnpackedFloat} (h : IsFinite spec u x) :
    Representable spec.mantissaBits spec.minExponent x := by
  cases h with
  | zero sign => exact .zero
  | finite sign mantissa exponent hpos h =>
      have hscaled : Representable spec.mantissaBits spec.minExponent
          ((mantissa : ℚ) * 2 ^ exponent) :=
            .of_natCast h.mantissa_lt.le h.exponent_ge
      cases sign
      · exact hscaled.opposite
      · exact hscaled

private theorem scaled_lt_of_exponent_lt {m₁ m₂ : Nat} {e₁ e₂ : Int}
    (h₁ : IsCanonical spec m₁ e₁) (h₂ : IsCanonical spec m₂ e₂) (hlt : e₁ < e₂) :
    (m₁ : ℚ) * 2 ^ e₁ < m₂ * 2 ^ e₂ := by
  have hsucc := cast_mantissaBits spec
  have hge := h₁.exponent_ge
  have hnormal := h₂.normal_or_least.resolve_right (by omega)
  have hcast₁ : (m₁ : ℚ) < 2 ^ spec.mantissaBits := by
    exact_mod_cast h₁.mantissa_lt
  have hcast₂ : (2 : ℚ) ^ spec.mantissaBitsWithoutImplicit ≤ m₂ := by
    exact_mod_cast hnormal
  calc
    (m₁ : ℚ) * 2 ^ e₁ < 2 ^ spec.mantissaBits * 2 ^ e₁ :=
      mul_lt_mul_of_pos_right hcast₁ (two_zpow_pos e₁)
    _ = 2 ^ (e₁ + spec.mantissaBits) := two_pow_mul_zpow _ e₁
    _ ≤ 2 ^ (e₂ + spec.mantissaBitsWithoutImplicit) := two_zpow_le (by omega)
    _ = 2 ^ spec.mantissaBitsWithoutImplicit * 2 ^ e₂ :=
        (two_pow_mul_zpow _ e₂).symm
    _ ≤ m₂ * 2 ^ e₂ := mul_le_mul_of_nonneg_right hcast₂ (two_zpow_pos e₂).le

/-- Canonical pairs are ordered by exponent, then by mantissa. -/
theorem compare_scaled {m₁ m₂ : Nat} {e₁ e₂ : Int} (h₁ : IsCanonical spec m₁ e₁)
    (h₂ : IsCanonical spec m₂ e₂) :
    (compare e₁ e₂).then (compare m₁ m₂) =
      compare ((m₁ : ℚ) * 2 ^ e₁) (m₂ * 2 ^ e₂) := by
  rcases lt_trichotomy e₁ e₂ with hlt | rfl | hgt
  · rw [compare_lt_iff_lt.mpr hlt,
      compare_lt_iff_lt.mpr (scaled_lt_of_exponent_lt h₁ h₂ hlt)]
    rfl
  · have hpos := two_zpow_pos e₁
    rcases lt_trichotomy m₁ m₂ with hlt | rfl | hgt
    · have hcast : (m₁ : ℚ) < m₂ := by
        exact_mod_cast hlt
      rw [compare_eq_iff_eq.mpr rfl, compare_lt_iff_lt.mpr hlt,
        compare_lt_iff_lt.mpr (mul_lt_mul_of_pos_right hcast hpos)]
      rfl
    · rw [compare_eq_iff_eq.mpr rfl, compare_eq_iff_eq.mpr rfl,
        compare_eq_iff_eq.mpr rfl]
      rfl
    · have hcast : (m₂ : ℚ) < m₁ := by
        exact_mod_cast hgt
      rw [compare_eq_iff_eq.mpr rfl, compare_gt_iff_gt.mpr hgt,
        compare_gt_iff_gt.mpr (mul_lt_mul_of_pos_right hcast hpos)]
      rfl
  · rw [compare_gt_iff_gt.mpr hgt,
      compare_gt_iff_gt.mpr (scaled_lt_of_exponent_lt h₂ h₁ hgt)]
    rfl

private theorem compare_neg (x y : ℚ) :
    compare (-x) (-y) = (compare x y).swap := by
  rcases lt_trichotomy x y with hlt | rfl | hgt
  · rw [compare_lt_iff_lt.mpr hlt, compare_gt_iff_gt.mpr (neg_lt_neg hlt)]
    rfl
  · rw [compare_eq_iff_eq.mpr rfl, compare_eq_iff_eq.mpr rfl]
    rfl
  · rw [compare_gt_iff_gt.mpr hgt, compare_lt_iff_lt.mpr (neg_lt_neg hgt)]
    rfl

/-- The comparison of two numbers is the comparison of their values. -/
theorem compare_eq {first second : UnpackedFloat} {y : ℚ}
    (hfirst : IsFinite spec first x) (hsecond : IsFinite spec second y) :
    UnpackedFloat.compare first second = some (compare x y) := by
  have hpos : ∀ {m : Nat} (e : Int), 0 < m → (0 : ℚ) < m * 2 ^ e :=
    fun e hm => mul_pos (by exact_mod_cast hm) (two_zpow_pos e)
  cases hfirst with
  | zero sign₁ =>
      cases hsecond with
      | zero sign₂ =>
          rw [compare_eq_iff_eq.mpr rfl]
          rfl
      | finite sign₂ m₂ e₂ hpos₂ h₂ =>
          have hsecond := hpos e₂ hpos₂
          cases sign₂ with
          | negative =>
              rw [signed, compare_gt_iff_gt.mpr (neg_lt_zero.mpr hsecond)]
              rfl
          | positive =>
              rw [signed, compare_lt_iff_lt.mpr hsecond]
              rfl
  | finite sign₁ m₁ e₁ hpos₁ h₁ =>
      have hfirst := hpos e₁ hpos₁
      cases hsecond with
      | zero sign₂ =>
          cases sign₁ with
          | negative =>
              rw [signed, compare_lt_iff_lt.mpr (neg_lt_zero.mpr hfirst)]
              rfl
          | positive =>
              rw [signed, compare_gt_iff_gt.mpr hfirst]
              rfl
      | finite sign₂ m₂ e₂ hpos₂ h₂ =>
          have hsecond := hpos e₂ hpos₂
          have hscaled := compare_scaled h₁ h₂
          cases sign₁ <;> cases sign₂ <;> rw [signed, signed]
          · rw [compare_neg, ← hscaled]
            rfl
          · rw [compare_lt_iff_lt.mpr (by linarith)]
            rfl
          · rw [compare_gt_iff_gt.mpr (by linarith)]
            rfl
          · rw [← hscaled]
            rfl

theorem beq_zero_iff {u : UnpackedFloat} (h : IsFinite spec u x) :
    u.beq (.zero .positive) = true ↔ x = 0 := by
  change (u.compare (.zero .positive) == some .eq) = true ↔ _
  rw [compare_eq h (.zero .positive), beq_iff_eq, Option.some.injEq,
    compare_eq_iff_eq]

section Finite

variable (spec) (sign₁ sign₂ : Sign) {m₁ m₂ : Nat} {e₁ e₂ : Int} (hpos₁ : 0 < m₁)
variable (hpos₂ : 0 < m₂)

theorem add_finite :
    UnpackedFloat.add spec (.finite sign₁ m₁ e₁ hpos₁)
        (.finite sign₂ m₂ e₂ hpos₂) =
      UnpackedFloat.normalize spec
        (sign₁.apply (m₁ <<< (e₁ - min e₁ e₂).toNat) +
          sign₂.apply (m₂ <<< (e₂ - min e₁ e₂).toNat)) (min e₁ e₂) .positive :=
  rfl

theorem sub_finite :
    UnpackedFloat.sub spec (.finite sign₁ m₁ e₁ hpos₁)
        (.finite sign₂ m₂ e₂ hpos₂) =
      UnpackedFloat.normalize spec
        (sign₁.apply (m₁ <<< (e₁ - min e₁ e₂).toNat) -
          sign₂.apply (m₂ <<< (e₂ - min e₁ e₂).toNat)) (min e₁ e₂) .positive :=
  rfl

theorem div_finite {quotient : Nat} {exponent : Int} {accuracy : Accuracy}
    (hcore : divCore spec m₁ e₁ m₂ e₂ = (quotient, exponent, accuracy)) :
    UnpackedFloat.div spec (.finite sign₁ m₁ e₁ hpos₁)
        (.finite sign₂ m₂ e₂ hpos₂) =
      roundWithAccuracy spec (sign₁ / sign₂) quotient exponent accuracy := by
  change (match divCore spec m₁ e₁ m₂ e₂ with
    | (quotient, exponent, accuracy) =>
      roundWithAccuracy spec (sign₁ / sign₂) quotient exponent accuracy) = _
  rw [hcore]

end Finite

private theorem apply_opposite (sign : Sign) (n : Nat) :
    (-sign).apply n = -sign.apply n := by
  cases sign with
  | negative => exact (neg_neg _).symm
  | positive => rfl

theorem sub_eq_add_opposite (spec : Format) (first second : UnpackedFloat) :
    UnpackedFloat.sub spec first second =
      UnpackedFloat.add spec first second.neg := by
  cases first with
  | finite sign₁ mantissa₁ exponent₁ hpos₁ =>
      cases second with
      | finite sign₂ mantissa₂ exponent₂ hpos₂ =>
          rw [sub_finite, sub_eq_add_neg, ← apply_opposite]
          exact (add_finite spec sign₁ (-sign₂) hpos₁ hpos₂).symm
      | _ => rfl
  | _ => cases second <;> rfl

theorem log2_quotient {numerator denominator shift bits : Nat}
    (hnumerator : 0 < numerator) (hdenominator : 0 < denominator)
    (h : denominator.log2 + 1 + bits ≤ numerator.log2 + shift) :
    bits ≤ (numerator <<< shift / denominator).log2 := by
  have hle : 2 ^ bits ≤ numerator <<< shift / denominator := by
    rw [Nat.le_div_iff_mul_le hdenominator]
    calc
      2 ^ bits * denominator ≤ 2 ^ bits * 2 ^ (denominator.log2 + 1) :=
        Nat.mul_le_mul_left _ Nat.lt_log2_self.le
      _ = 2 ^ (denominator.log2 + 1 + bits) := by
        rw [← Nat.pow_add, Nat.add_comm]
      _ ≤ 2 ^ (numerator <<< shift).log2 := by
        rw [log2_shiftLeft hnumerator]
        exact Nat.pow_le_pow_right two_pos h
      _ ≤ numerator <<< shift :=
          Nat.log2_self_le (Nat.shiftLeft_pos_iff.mpr hnumerator).ne'
  exact (Nat.le_log2 ((Nat.two_pow_pos bits).trans_le hle).ne').mpr hle

theorem quotient_add_fraction (numerator : Nat) {denominator : Nat}
    (h : 0 < denominator) :
    ((numerator / denominator : Nat) : ℚ) +
      (numerator % denominator : Nat) / denominator =
      numerator / denominator := by
  have hne : (denominator : ℚ) ≠ 0 := by
    exact_mod_cast h.ne'
  rw [eq_div_iff hne, add_mul, div_mul_cancel₀ _ hne]
  exact_mod_cast Nat.div_add_mod' numerator denominator

theorem quotient_mul_zpow (mantissa₁ mantissa₂ shift : Nat)
    (exponent₁ exponent₂ : Int) :
    ((mantissa₁ <<< shift : Nat) : ℚ) / mantissa₂ *
        2 ^ (exponent₁ - exponent₂ - shift) =
      mantissa₁ * 2 ^ exponent₁ / (mantissa₂ * 2 ^ exponent₂) := by
  have hscale : exponent₁ - (shift : Int) =
      exponent₁ - exponent₂ - shift + exponent₂ := by
    omega
  rw [← shiftLeft_mul_zpow mantissa₁ shift exponent₁, hscale, two_zpow_add,
    ← mul_assoc,
    mul_div_mul_right _ _ (two_zpow_pos exponent₂).ne', mul_div_right_comm]

/-- The numerator is shifted until the quotient has all its bits. -/
theorem divCore_eq {mantissa₁ mantissa₂ : Nat} (hpos₁ : 0 < mantissa₁)
    (hpos₂ : 0 < mantissa₂) (exponent₁ exponent₂ : Int) :
    ∃ shift : Nat,
      divCore spec mantissa₁ exponent₁ mantissa₂ exponent₂ =
        (mantissa₁ <<< shift / mantissa₂, exponent₁ - exponent₂ - shift,
          accuracyOfFraction (mantissa₁ <<< shift % mantissa₂) mantissa₂) ∧
      (spec.mantissaBitsWithoutImplicit ≤ (mantissa₁ <<< shift / mantissa₂).log2 ∨
        exponent₁ - exponent₂ - shift ≤ spec.minExponent) := by
  have hsucc := cast_mantissaBits spec
  obtain ⟨low, hlow⟩ : ∃ low,
    min (exponent₁ - exponent₂) (max ((mantissa₁.log2 : Int) + exponent₁ -
      (mantissa₂.log2 + exponent₂) - spec.mantissaBits) spec.minExponent) =
        low := ⟨_, rfl⟩
  obtain ⟨shift, hshift⟩ : ∃ shift : Nat,
    (exponent₁ - exponent₂ - low).toNat = shift := ⟨_, rfl⟩
  have hdrop : exponent₁ - exponent₂ - (shift : Int) = low := by omega
  have htarget : spec.targetExponent
      (totalExponent mantissa₁ exponent₁ - totalExponent mantissa₂ exponent₂) =
        max ((mantissa₁.log2 : Int) + exponent₁ -
          (mantissa₂.log2 + exponent₂) - spec.mantissaBits) spec.minExponent := by
    rw [Format.targetExponent, totalExponent, totalExponent]
    congr 1
    omega
  refine ⟨shift, ?_, ?_⟩
  · rw [divCore, htarget, hlow, hshift, hdrop]
  · by_cases hsmall : low ≤ spec.minExponent
    · exact Or.inr (by omega)
    · exact Or.inl (log2_quotient hpos₁ hpos₂ (by omega))

private theorem aligned (sign : Sign) (mantissa : Nat) {exponent low : Int}
    (h : low ≤ exponent) :
    (sign.apply (mantissa <<< (exponent - low).toNat : Nat) : ℚ) * 2 ^ low =
      signed sign (mantissa * 2 ^ exponent) := by
  have hlow : exponent - ((exponent - low).toNat : Int) = low := by omega
  have hvalue := shiftLeft_mul_zpow mantissa (exponent - low).toNat exponent
  rw [hlow] at hvalue
  rw [cast_apply, hvalue]

section Operations

variable (hspec : 1 < spec.exponentBits) {first second : UnpackedFloat} {y : ℚ}
include hspec

theorem rounds_add (hfirst : IsFinite spec first x)
    (hsecond : IsFinite spec second y) :
    Rounds spec (UnpackedFloat.add spec first second) (x + y) := by
  cases hfirst with
  | zero sign₁ =>
      rw [zero_add]
      cases hsecond with
      | zero sign₂ =>
          cases sign₁ <;> cases sign₂ <;> exact rounds_zero spec _
      | finite sign mantissa exponent hpos h =>
          exact rounds_finite hspec hpos h sign
  | finite sign₁ mantissa₁ exponent₁ hpos₁ h₁ =>
      cases hsecond with
      | zero sign₂ =>
          rw [add_zero]
          exact rounds_finite hspec hpos₁ h₁ sign₁
      | finite sign₂ mantissa₂ exponent₂ hpos₂ h₂ =>
          rw [add_finite, ← aligned sign₁ mantissa₁ (min_le_left _ exponent₂),
            ← aligned sign₂ mantissa₂ (min_le_right exponent₁ _), ← add_mul,
            ← Int.cast_add]
          exact rounds_normalize hspec _ _ _

theorem rounds_sub (hfirst : IsFinite spec first x)
    (hsecond : IsFinite spec second y) :
    Rounds spec (UnpackedFloat.sub spec first second) (x - y) := by
  rw [sub_eq_add_neg, sub_eq_add_opposite]
  exact rounds_add hspec hfirst hsecond.opposite

theorem rounds_mul (hfirst : IsFinite spec first x)
    (hsecond : IsFinite spec second y) :
    Rounds spec (UnpackedFloat.mul spec first second) (x * y) := by
  cases hfirst with
  | zero sign₁ =>
      rw [zero_mul]
      cases hsecond <;> exact rounds_zero spec _
  | finite sign₁ mantissa₁ exponent₁ hpos₁ h₁ =>
      cases hsecond with
      | zero sign₂ =>
          rw [mul_zero]
          exact rounds_zero spec _
      | finite sign₂ mantissa₂ exponent₂ hpos₂ h₂ =>
          have hpos : 0 < mantissa₁ * mantissa₂ := Nat.mul_pos hpos₁ hpos₂
          have hexponent : spec.mantissaBitsWithoutImplicit ≤
            (mantissa₁ * mantissa₂).log2 ∨
              exponent₁ + exponent₂ ≤ spec.minExponent := by
            rw [Nat.le_log2 hpos.ne']
            rcases h₁.normal_or_least with hnormal₁ | hleast₁
            · exact Or.inl (hnormal₁.trans (Nat.le_mul_of_pos_right _ hpos₂))
            · rcases h₂.normal_or_least with hnormal₂ | hleast₂
              · exact Or.inl (hnormal₂.trans (Nat.le_mul_of_pos_left _ hpos₁))
              · have hmin := minExponent_eq spec
                have htwo := two_le_topExponent hspec
                exact Or.inr (by omega)
          have hvalue : signed sign₁ (mantissa₁ * 2 ^ exponent₁) *
              signed sign₂ (mantissa₂ * 2 ^ exponent₂) =
                signed (sign₁ * sign₂) ((mantissa₁ * mantissa₂ : Nat) *
                  2 ^ (exponent₁ + exponent₂)) := by
            rw [signed_mul, two_zpow_add]
            push_cast
            ring_nf
          rw [hvalue]
          exact rounds_roundWithAccuracy hspec _ (Or.inl hpos) (represents_exact _)
            (by omega)

theorem rounds_div (hfirst : IsFinite spec first x)
    (hsecond : IsFinite spec second y) (hy : y ≠ 0) :
    Rounds spec (UnpackedFloat.div spec first second) (x / y) := by
  cases hsecond with
  | zero sign₂ => exact absurd rfl hy
  | finite sign₂ mantissa₂ exponent₂ hpos₂ h₂ =>
      cases hfirst with
      | zero sign₁ =>
          rw [zero_div]
          exact rounds_zero spec _
      | finite sign₁ mantissa₁ exponent₁ hpos₁ h₁ =>
          obtain ⟨shift, hcore, henough⟩ :=
            @divCore_eq spec _ _ hpos₁ hpos₂ exponent₁ exponent₂
          have hquotient := quotient_add_fraction (mantissa₁ <<< shift) hpos₂
          have hmin := minExponent_eq spec
          have htwo := two_le_topExponent hspec
          rw [signed_div, ← quotient_mul_zpow mantissa₁ mantissa₂ shift,
            div_finite spec sign₁ sign₂ hpos₁ hpos₂ hcore, ← hquotient]
          apply rounds_roundWithAccuracy hspec _ _
            (represents_fraction _ (Nat.mod_lt _ hpos₂)) (by omega)
          refine henough.imp_left fun hlog => Nat.pos_of_ne_zero fun hzero => ?_
          rw [hzero, Nat.log2_zero] at hlog
          exact absurd hlog (not_le.mpr spec.hm)

end Operations

/-! ## Square roots -/

/-- How `sqrtCore` tells the square root from its integer part. -/
def rootAccuracy (n : Nat) : Accuracy :=
  if n - Nat.sqrt n * Nat.sqrt n = 0 then .exact
  else .inexact (if n - Nat.sqrt n * Nat.sqrt n ≤ Nat.sqrt n then .lt else .gt)

private theorem exists_in_cell {low high left right : ℚ} (horder : low ≤ high)
    (hlow : low < right) (hhigh : left < high) (hcell : left < right) :
    ∃ y, low ≤ y ∧ y ≤ high ∧ left < y ∧ y < right := by
  obtain ⟨middle, hleft, hright⟩ := exists_between hcell
  exact ⟨max low (min high middle), le_max_left _ _,
    max_le horder (min_le_left _ _),
    lt_max_of_lt_right (lt_min hhigh hleft),
      max_lt hlow ((min_le_right _ _).trans_lt hright)⟩

/-- A rational number between the bounds that is rounded as the square root is. -/
theorem represents_root {n : Nat} {low high : ℚ} (hlow : 0 ≤ low)
    (hhigh : 0 ≤ high) (hle : low * low ≤ n) (hge : n ≤ high * high) :
    ∃ y, low ≤ y ∧ y ≤ high ∧
      Represents (.ofMantissaAndAccuracy (Nat.sqrt n) (rootAccuracy n)) y := by
  obtain ⟨root, hroot⟩ : ∃ root, Nat.sqrt n = root := ⟨_, rfl⟩
  have hsquare : root * root ≤ n := hroot ▸ Nat.sqrt_le n
  have hsucc : (n : ℚ) < (root + 1) * (root + 1) := by
    exact_mod_cast (hroot ▸ Nat.lt_succ_sqrt n : n < (root + 1) * (root + 1))
  have hnonneg : (0 : ℚ) ≤ root := Nat.cast_nonneg root
  have horder : low ≤ high :=
    (mul_self_le_mul_self_iff hlow hhigh).mpr (hle.trans hge)
  rw [rootAccuracy, hroot]
  by_cases hexact : n - root * root = 0
  · have heq : (n : ℚ) = root * root := by
      exact_mod_cast (by omega : n = root * root)
    rw [if_pos hexact]
    rw [heq] at hle hge
    exact ⟨root, (mul_self_le_mul_self_iff hlow hnonneg).mpr hle,
      (mul_self_le_mul_self_iff hnonneg hhigh).mpr hge, represents_exact root⟩
  · rw [if_neg hexact]
    by_cases hhalf : n - root * root ≤ root
    · have hbelow : (root : ℚ) < high := by
        have hstrict : (root : ℚ) * root < n := by
          exact_mod_cast (by omega : root * root < n)
        exact (mul_self_lt_mul_self_iff hnonneg hhigh).mpr (hstrict.trans_le hge)
      have habove : low < root + 1 / 2 := by
        have hcast : (n : ℚ) ≤ root * root + root := by
          exact_mod_cast (by omega : n ≤ root * root + root)
        apply (mul_self_lt_mul_self_iff hlow (by linarith)).mpr
        linarith
      obtain ⟨y, hlowY, hhighY, hleft, hright⟩ :=
        exists_in_cell horder habove hbelow (by linarith)
      rw [if_pos hhalf]
      refine ⟨y, hlowY, hhighY, y - root, by linarith, by linarith, ?_, ?_⟩
      · simp [ExtendedMantissa.ofMantissaAndAccuracy, half]
      · simpa [ExtendedMantissa.ofMantissaAndAccuracy] using hleft
    · have hcast : (root : ℚ) * root + root + 1 ≤ n := by
        exact_mod_cast (by omega : root * root + root + 1 ≤ n)
      have hbelow : (root : ℚ) + 1 / 2 < high := by
        apply (mul_self_lt_mul_self_iff (by linarith) hhigh).mpr
        linarith
      have habove : low < root + 1 :=
        (mul_self_lt_mul_self_iff hlow (by linarith)).mpr (hle.trans_lt hsucc)
      obtain ⟨y, hlowY, hhighY, hleft, hright⟩ :=
        exists_in_cell horder habove hbelow (by linarith)
      rw [if_neg hhalf]
      refine ⟨y, hlowY, hhighY, y - root - 1 / 2, by linarith, by linarith, ?_, ?_⟩
      · simp [ExtendedMantissa.ofMantissaAndAccuracy, half]
      · simp only [ExtendedMantissa.ofMantissaAndAccuracy, true_iff]
        linarith

/-- The radicand is shifted to an even exponent until its root has all its bits. -/
theorem sqrtCore_eq (hpos : 0 < mantissa) (exponent : Int) :
    ∃ (shift : Nat) (target : Int), exponent = 2 * target + shift ∧
      sqrtCore spec mantissa exponent =
        (Nat.sqrt (mantissa <<< shift), target,
          rootAccuracy (mantissa <<< shift)) ∧
      (spec.mantissaBitsWithoutImplicit ≤ (Nat.sqrt (mantissa <<< shift)).log2 ∨
        target ≤ spec.minExponent) := by
  have hsucc := cast_mantissaBits spec
  obtain ⟨target, htarget⟩ : ∃ target, min (exponent.ediv 2)
    (max ((totalExponent mantissa exponent + 1).ediv 2 - spec.mantissaBits)
      spec.minExponent) = target := ⟨_, rfl⟩
  have hhalf : target ≤ exponent / 2 := htarget ▸ min_le_left _ _
  obtain ⟨shift, hshift⟩ : ∃ shift : Nat,
    (exponent - 2 * target).toNat = shift := ⟨_, rfl⟩
  have hsum : exponent = 2 * target + shift := by omega
  refine ⟨shift, target, hsum, ?_, ?_⟩
  · rw [sqrtCore, Format.targetExponent, htarget, hshift]
    rfl
  · by_cases hsmall : target ≤ spec.minExponent
    · exact Or.inr hsmall
    · left
      have htotal : target ≤
          (mantissa.log2 + 1 + exponent + 1) / 2 - spec.mantissaBits := by
        have hright : target ≤ max ((totalExponent mantissa exponent + 1).ediv 2 -
          spec.mantissaBits) spec.minExponent := htarget ▸ min_le_right _ _
        exact (le_max_iff.mp hright).resolve_right hsmall
      have hlog : 2 * spec.mantissaBitsWithoutImplicit ≤
        (mantissa <<< shift).log2 := by
        rw [log2_shiftLeft hpos]
        omega
      have hshifted : 0 < mantissa <<< shift := Nat.shiftLeft_pos_iff.mpr hpos
      have hroot : 2 ^ spec.mantissaBitsWithoutImplicit ≤
        Nat.sqrt (mantissa <<< shift) := by
        rw [Nat.le_sqrt, ← Nat.pow_add, ← Nat.two_mul]
        exact (Nat.le_log2 hshifted.ne').mp hlog
      exact (Nat.le_log2 ((Nat.two_pow_pos _).trans_le hroot).ne').mpr hroot

private theorem sqrt_positive {root : Nat} {target : Int} {accuracy : Accuracy}
    (hpos : 0 < mantissa)
    (hcore : sqrtCore spec mantissa exponent = (root, target, accuracy)) :
    UnpackedFloat.sqrt spec (.finite .positive mantissa exponent hpos) =
      roundWithAccuracy spec .positive root target accuracy := by
  change (match sqrtCore spec mantissa exponent with
    | (root, target, accuracy) =>
        roundWithAccuracy spec .positive root target accuracy) = _
  rw [hcore]

theorem rounds_sqrt (hspec : 1 < spec.exponentBits) {u : UnpackedFloat}
    (hu : IsFinite spec u x) {low high : ℚ} (hlow : 0 ≤ low) (hhigh : 0 ≤ high)
    (hle : low * low ≤ x) (hge : x ≤ high * high) :
    ∃ y, low ≤ y ∧ y ≤ high ∧ Rounds spec (UnpackedFloat.sqrt spec u) y := by
  cases hu with
  | zero sign =>
      have hzero : low = 0 :=
        mul_self_eq_zero.mp (le_antisymm hle (mul_self_nonneg low))
      exact ⟨0, hzero.le, hhigh, rounds_zero spec sign⟩
  | finite sign mantissa exponent hpos h =>
      have hcast : (0 : ℚ) < mantissa * 2 ^ exponent :=
        mul_pos (by exact_mod_cast hpos) (two_zpow_pos exponent)
      cases sign with
      | negative =>
          have hneg : signed .negative ((mantissa : ℚ) * 2 ^ exponent) =
            -(mantissa * 2 ^ exponent) := rfl
          rw [hneg] at hle
          linarith [mul_self_nonneg low]
      | positive =>
          obtain ⟨shift, target, hsum, hcore, henough⟩ :=
            @sqrtCore_eq spec mantissa hpos exponent
          have hunit := two_zpow_pos target
          have hvalue : signed .positive ((mantissa : ℚ) * 2 ^ exponent) =
              (mantissa <<< shift : Nat) * (2 ^ target * 2 ^ target) := by
            have hexponent : exponent - shift = target + target := by omega
            rw [← two_zpow_add, ← hexponent, shiftLeft_mul_zpow]
            rfl
          have hsquare : ∀ z : ℚ, z / 2 ^ target * (z / 2 ^ target) =
              z * z / (2 ^ target * 2 ^ target) :=
                fun z => div_mul_div_comm z _ z _
          rw [hvalue] at hle hge
          obtain ⟨y, hlowY, hhighY, hrepresents⟩ :=
            represents_root (div_nonneg hlow hunit.le) (div_nonneg hhigh hunit.le)
              (by rwa [hsquare, div_le_iff₀ (mul_pos hunit hunit)])
              (by rwa [hsquare, le_div_iff₀ (mul_pos hunit hunit)])
          refine ⟨y * 2 ^ target, (div_le_iff₀ hunit).mp hlowY,
            (le_div_iff₀ hunit).mp hhighY, ?_⟩
          have hmin := minExponent_eq spec
          have htwo := two_le_topExponent hspec
          have hroot : 0 < Nat.sqrt (mantissa <<< shift) :=
            Nat.sqrt_pos.mpr (Nat.shiftLeft_pos_iff.mpr hpos)
          rw [sqrt_positive hpos hcore]
          exact rounds_roundWithAccuracy hspec .positive (Or.inl hroot)
            hrepresents (by omega)

end Milona.Foundation.FloatArithmetic
