import Mathlib.Algebra.Order.Ring.Int
import Mathlib.Tactic.Ring

/-!
# Packed floating-point numbers

The value of a number is rational; infinities and NaN have none.  A finite
number of a format is a mantissa below `2 ^ mantissaBits` times a power
of two that is no less than `2 ^ minExponent`.  Packing such a pair loses nothing
while it is below two to the format's `topExponent`, and gives an infinity from
there on.
-/

namespace Milona.Foundation.FloatPacking

open Float.Model
open Float.Model.UnpackedFloat

/-! ## Values -/

def unpackedValue : UnpackedFloat → Option ℚ
  | .zero _ => some 0
  | .finite sign mantissa exponent _ => some (sign.apply mantissa * 2 ^ exponent)
  | .infinity _ => none
  | .notANumber => none

def signed (sign : Sign) (x : ℚ) : ℚ :=
  match sign with
  | .negative => -x
  | .positive => x

theorem cast_apply (sign : Sign) (n : Nat) (exponent : Int) :
    (sign.apply n : ℚ) * 2 ^ exponent = signed sign (n * 2 ^ exponent) := by
  cases sign <;> simp [Sign.apply, signed]

theorem unpackedValue_finite (sign : Sign) (mantissa : Nat) (exponent : Int)
    (hpos : 0 < mantissa) :
    unpackedValue (.finite sign mantissa exponent hpos) =
      some (signed sign (mantissa * 2 ^ exponent)) :=
  congrArg some (cast_apply sign mantissa exponent)

theorem signed_zero (sign : Sign) : signed sign 0 = 0 := by
  cases sign
  · exact neg_zero
  · rfl

theorem abs_signed (sign : Sign) {x : ℚ} (h : 0 ≤ x) : |signed sign x| = x := by
  cases sign
  · exact (abs_neg x).trans (abs_of_nonneg h)
  · exact abs_of_nonneg h

theorem neg_signed (sign : Sign) (x : ℚ) : -signed sign x = signed (-sign) x := by
  cases sign
  · exact neg_neg x
  · rfl

theorem signed_mul (first second : Sign) (x y : ℚ) :
    signed first x * signed second y = signed (first * second) (x * y) := by
  cases first <;> cases second
  · exact neg_mul_neg x y
  · exact neg_mul x y
  · exact mul_neg x y
  · rfl

theorem signed_div (first second : Sign) (x y : ℚ) :
    signed first x / signed second y = signed (first / second) (x / y) := by
  cases first <;> cases second
  · exact neg_div_neg_eq x y
  · exact neg_div y x
  · exact div_neg x
  · rfl

/-! ## Formats -/

/-- The finite numbers of a format are less than two to this power. -/
def topExponent (spec : Format) : Int := 2 ^ (spec.exponentBits - 1)

theorem mantissaBits_eq (spec : Format) :
    spec.mantissaBits = 1 + spec.mantissaBitsWithoutImplicit := rfl

theorem exponentBias_eq (spec : Format) :
    (spec.exponentBias : Int) = topExponent spec - 1 := by
  have hpos : 1 ≤ 2 ^ (spec.exponentBits - 1) := Nat.one_le_two_pow
  rw [Format.exponentBias, topExponent, Nat.cast_sub hpos]
  push_cast
  rfl

theorem minExponent_eq (spec : Format) :
    spec.minExponent = 2 - topExponent spec -
      spec.mantissaBitsWithoutImplicit := by
  rw [Format.minExponent, mantissaBits_eq, topExponent]
  push_cast
  ring

theorem two_pow_exponentBits (spec : Format) :
    ((2 ^ spec.exponentBits : Nat) : Int) = 2 * topExponent spec := by
  obtain ⟨bits, hbits⟩ := Nat.exists_eq_succ_of_ne_zero spec.he.ne'
  rw [topExponent, hbits, Nat.succ_eq_add_one, Nat.add_sub_cancel, Nat.pow_succ]
  push_cast
  ring

structure IsCanonical (spec : Format) (mantissa : Nat) (exponent : Int) :
    Prop where
  mantissa_pos : 0 < mantissa
  mantissa_lt : mantissa < 2 ^ spec.mantissaBits
  exponent_ge : spec.minExponent ≤ exponent
  normal_or_least : 2 ^ spec.mantissaBitsWithoutImplicit ≤ mantissa ∨
    exponent = spec.minExponent

theorem toNat_implicit {bits : Nat} (fraction : BitVec bits) :
    (1#1 ++ fraction).toNat = 2 ^ bits + fraction.toNat := by
  rw [BitVec.toNat_append, ← Nat.shiftLeft_add_eq_or_of_lt fraction.isLt,
    Nat.shiftLeft_eq]
  simp

theorem cast_mantissaBits (spec : Format) :
    (spec.mantissaBits : Int) = 1 + spec.mantissaBitsWithoutImplicit := by
  rw [mantissaBits_eq]
  push_cast
  rfl

theorem two_pow_mantissaBits (spec : Format) :
    2 ^ spec.mantissaBits = 2 * 2 ^ spec.mantissaBitsWithoutImplicit := by
  rw [mantissaBits_eq, Nat.add_comm, Nat.pow_succ, Nat.mul_comm]

theorem toNat_exponent {bits : Nat} {exponent : BitVec bits}
    (hlow : exponent ≠ BitVec.ofNat bits 0)
    (hhigh : exponent ≠ -BitVec.ofNat bits 1) :
    0 < exponent.toNat ∧ exponent.toNat + 1 < 2 ^ bits := by
  have hlt := exponent.isLt
  have hpos : exponent.toNat ≠ 0 := fun hzero =>
    hlow (BitVec.eq_of_toNat_eq (by simpa using hzero))
  refine ⟨Nat.pos_of_ne_zero hpos, ?_⟩
  apply lt_of_le_of_ne hlt
  intro heq
  apply hhigh
  apply BitVec.eq_of_toNat_eq
  rw [BitVec.neg_one_eq_allOnes, BitVec.toNat_allOnes]
  omega

theorem two_le_topExponent {spec : Format} (h : 1 < spec.exponentBits) :
    2 ≤ topExponent spec := by
  obtain ⟨bits, hbits⟩ := Nat.exists_eq_add_of_lt h
  rw [topExponent, hbits, show 1 + bits + 1 - 1 = bits + 1 by omega, pow_succ]
  have hone : (1 : Int) ≤ 2 ^ bits := one_le_pow₀ one_le_two
  omega

variable {spec : Format} {sign : Sign} {mantissa : Nat} {exponent : Int}

/-! ## Unpacking -/

theorem finite_congr {sign₁ sign₂ : Sign} {m₁ m₂ : Nat} {e₁ e₂ : Int}
    {hpos₁ : 0 < m₁} {hpos₂ : 0 < m₂} (hsign : sign₁ = sign₂)
    (hmantissa : m₁ = m₂) (hexponent : e₁ = e₂) :
    UnpackedFloat.finite sign₁ m₁ e₁ hpos₁ = .finite sign₂ m₂ e₂ hpos₂ := by
  subst hsign hmantissa hexponent
  rfl

section Unpack

variable {bits : BitVec spec.numBits}

theorem unpack_special (h : unpackExponent bits = -BitVec.ofNat _ 1) :
    UnpackedFloat.unpack spec bits =
      if unpackMantissa bits = 0 then .infinity (.ofBitVec (unpackSign bits))
      else .notANumber :=
  if_pos h

variable (hfinite : unpackExponent bits ≠ -BitVec.ofNat _ 1)
include hfinite

theorem unpack_zero (hexponent : unpackExponent bits = BitVec.ofNat _ 0)
    (hfraction : unpackMantissa bits = 0) :
    UnpackedFloat.unpack spec bits = .zero (.ofBitVec (unpackSign bits)) :=
  (if_neg hfinite).trans ((if_pos hexponent).trans (dif_pos hfraction))

theorem unpack_subnormal (hexponent : unpackExponent bits = BitVec.ofNat _ 0)
    (hfraction : unpackMantissa bits ≠ 0)
    (hpos : 0 < (unpackMantissa bits).toNat) :
    UnpackedFloat.unpack spec bits =
      .finite (.ofBitVec (unpackSign bits)) (unpackMantissa bits).toNat
        spec.minExponent hpos := by
  have hleast : ((unpackExponent bits).toNat : Int) -
      (spec.exponentBias + spec.mantissaBitsWithoutImplicit) + 1 =
        spec.minExponent := by
    have hbias := exponentBias_eq spec
    have hmin := minExponent_eq spec
    rw [hexponent, BitVec.toNat_zero]
    push_cast
    omega
  exact (if_neg hfinite).trans ((if_pos hexponent).trans
    ((dif_neg hfraction).trans (finite_congr rfl rfl hleast)))

theorem unpack_normal (hexponent : unpackExponent bits ≠ BitVec.ofNat _ 0)
    (hpos : 0 < 2 ^ spec.mantissaBitsWithoutImplicit +
      (unpackMantissa bits).toNat) :
    UnpackedFloat.unpack spec bits =
      .finite (.ofBitVec (unpackSign bits))
        (2 ^ spec.mantissaBitsWithoutImplicit + (unpackMantissa bits).toNat)
        ((unpackExponent bits).toNat -
          (spec.exponentBias + spec.mantissaBitsWithoutImplicit)) hpos :=
  (if_neg hfinite).trans ((if_neg hexponent).trans
    (finite_congr rfl (toNat_implicit _) rfl))

end Unpack

theorem isCanonical_of_unpack (hspec : 1 < spec.exponentBits)
    {bits : BitVec spec.numBits} {hpos : 0 < mantissa}
    (h : UnpackedFloat.unpack spec bits = .finite sign mantissa exponent hpos) :
    IsCanonical spec mantissa exponent ∧
      exponent + spec.mantissaBits ≤ topExponent spec := by
  have hbias := exponentBias_eq spec
  have hleast := minExponent_eq spec
  have htop := two_pow_exponentBits spec
  have hbits := two_pow_mantissaBits spec
  have htwo := two_le_topExponent hspec
  have hsucc := cast_mantissaBits spec
  have hfraction : (unpackMantissa bits).toNat <
    2 ^ spec.mantissaBitsWithoutImplicit :=
    BitVec.isLt _
  by_cases hfinite : unpackExponent bits = -BitVec.ofNat _ 1
  · rw [unpack_special hfinite] at h
    by_cases hzero : unpackMantissa bits = 0
    · rw [if_pos hzero] at h
      cases h
    · rw [if_neg hzero] at h
      cases h
  by_cases hexponent : unpackExponent bits = BitVec.ofNat _ 0
  · by_cases hzero : unpackMantissa bits = 0
    · rw [unpack_zero hfinite hexponent hzero] at h
      cases h
    · have hne : (unpackMantissa bits).toNat ≠ 0 := fun heq =>
        hzero (BitVec.eq_of_toNat_eq (heq.trans BitVec.toNat_zero.symm))
      rw [unpack_subnormal hfinite hexponent hzero (Nat.pos_of_ne_zero hne)] at h
      cases h
      exact ⟨⟨hpos, by rw [hbits]; omega, le_rfl, Or.inr rfl⟩, by omega⟩
  · obtain ⟨hlow, hhigh⟩ := toNat_exponent hexponent hfinite
    rw [unpack_normal hfinite hexponent
      (Nat.add_pos_left (Nat.two_pow_pos _) _)] at h
    cases h
    exact ⟨⟨hpos, by rw [hbits]; omega, by omega,
      Or.inl (Nat.le_add_right _ _)⟩, by omega⟩

/-! ## Packing -/

theorem sign_packComponents (spec : Format) (sign : Sign)
    (exponent : BitVec spec.exponentBits)
    (fraction : BitVec spec.mantissaBitsWithoutImplicit) :
    Sign.ofBitVec (unpackSign (packComponents spec sign exponent fraction)) =
      sign := by
  have hbit : unpackSign (packComponents spec sign exponent fraction) =
    sign.toBitVec := by
    ext i hi
    obtain rfl : i = 0 := by omega
    delta unpackSign
    simp [packComponents, BitVec.getLsbD_eq_getElem, BitVec.getLsbD_append,
      BitVec.getElem_append]
  rw [hbit]
  cases sign <;> rfl

theorem toNat_biased {bits biased : Nat} (h : biased + 1 < 2 ^ bits) :
    (BitVec.ofNat bits biased).toNat = biased ∧
      BitVec.ofNat bits biased ≠ -BitVec.ofNat bits 1 := by
  have htoNat : (BitVec.ofNat bits biased).toNat = biased :=
    Nat.mod_eq_of_lt (by omega)
  refine ⟨htoNat, fun heq => ?_⟩
  rw [heq, BitVec.neg_one_eq_allOnes, BitVec.toNat_allOnes] at htoNat
  omega

theorem zero_ne_max (spec : Format) :
    BitVec.ofNat spec.exponentBits 0 ≠ -BitVec.ofNat spec.exponentBits 1 := by
  have htwo : 2 ^ 1 ≤ 2 ^ spec.exponentBits := Nat.pow_le_pow_right two_pos spec.he
  exact (@toNat_biased spec.exponentBits 0 (by omega)).2

theorem unpack_packedInfinity (spec : Format) (sign : Sign) :
    UnpackedFloat.unpack spec (packedInfinity spec sign) = .infinity sign := by
  rw [packedInfinity, unpack_special unpackExponent_packComponents,
    if_pos unpackMantissa_packComponents, sign_packComponents]

theorem unpack_pack_zero (spec : Format) (sign : Sign) :
    UnpackedFloat.unpack spec (UnpackedFloat.pack spec (.zero sign)) =
      .zero sign := by
  change UnpackedFloat.unpack spec
    (packComponents spec sign (BitVec.ofNat _ 0) 0) = _
  have hfinite : BitVec.ofNat spec.exponentBits 0 ≠ -BitVec.ofNat _ 1 :=
    zero_ne_max spec
  rw [unpack_zero (by rwa [unpackExponent_packComponents])
      unpackExponent_packComponents
    unpackMantissa_packComponents, sign_packComponents]

theorem pack_finite (spec : Format) (sign : Sign) (mantissa : Nat) (exponent : Int)
    (hpos : 0 < mantissa) {biased : Nat}
    (hbiased : (exponent + (spec.exponentBias : Int) +
      (spec.mantissaBitsWithoutImplicit : Int)).toNat = biased) :
    UnpackedFloat.pack spec (.finite sign mantissa exponent hpos) =
      if 2 ^ spec.exponentBits ≤ biased + 1 then packedInfinity spec sign
      else if mantissa.log2 + 1 = spec.mantissaBits then
        packComponents spec sign (BitVec.ofNat _ biased) (BitVec.ofNat _ mantissa)
      else packComponents spec sign (BitVec.ofNat _ 0)
        (BitVec.ofNat _ mantissa) := by
  subst hbiased
  rfl

private theorem unpack_components_normal (hpos : 0 < mantissa)
    (h : IsCanonical spec mantissa exponent)
    (hnormal : 2 ^ spec.mantissaBitsWithoutImplicit ≤ mantissa) {biased : Nat}
    (hbiased : exponent + (spec.exponentBias : Int) +
      (spec.mantissaBitsWithoutImplicit : Int) = biased)
    (hrange : biased + 1 < 2 ^ spec.exponentBits) :
    UnpackedFloat.unpack spec (packComponents spec sign (BitVec.ofNat _ biased)
        (BitVec.ofNat _ mantissa)) =
      .finite sign mantissa exponent hpos := by
  have hleast := minExponent_eq spec
  have hbias := exponentBias_eq spec
  have hbits := two_pow_mantissaBits spec
  have hge := h.exponent_ge
  have hlt := h.mantissa_lt
  obtain ⟨htoNat, hnotMax⟩ := @toNat_biased spec.exponentBits biased hrange
  have hnotZero : BitVec.ofNat spec.exponentBits biased ≠
      BitVec.ofNat spec.exponentBits 0 := by
    intro hzero
    rw [hzero, BitVec.toNat_zero] at htoNat
    omega
  have hmantissa : 2 ^ spec.mantissaBitsWithoutImplicit +
      (BitVec.ofNat spec.mantissaBitsWithoutImplicit mantissa).toNat = mantissa := by
    rw [BitVec.toNat_ofNat, Nat.mod_eq_sub_mod hnormal, Nat.mod_eq_of_lt (by omega)]
    omega
  rw [unpack_normal (by rwa [unpackExponent_packComponents])
    (by rwa [unpackExponent_packComponents])
    (Nat.add_pos_left (Nat.two_pow_pos _) _)]
  apply finite_congr (sign_packComponents _ _ _ _)
  · rw [unpackMantissa_packComponents, hmantissa]
  · rw [unpackExponent_packComponents, htoNat]
    omega

private theorem unpack_components_subnormal (hpos : 0 < mantissa)
    (hbelow : mantissa < 2 ^ spec.mantissaBitsWithoutImplicit)
    (hexponent : exponent = spec.minExponent) :
    UnpackedFloat.unpack spec (packComponents spec sign (BitVec.ofNat _ 0)
        (BitVec.ofNat _ mantissa)) =
      .finite sign mantissa exponent hpos := by
  have hmantissa :
      (BitVec.ofNat spec.mantissaBitsWithoutImplicit mantissa).toNat = mantissa :=
    Nat.mod_eq_of_lt hbelow
  have hnotZero : BitVec.ofNat spec.mantissaBitsWithoutImplicit mantissa ≠ 0 := by
    intro hzero
    rw [hzero] at hmantissa
    exact hpos.ne' (hmantissa.symm.trans BitVec.toNat_zero)
  have hnotMax := zero_ne_max spec
  rw [unpack_subnormal (by rwa [unpackExponent_packComponents])
    unpackExponent_packComponents (by rwa [unpackMantissa_packComponents])
    (by rwa [unpackMantissa_packComponents, hmantissa])]
  apply finite_congr (sign_packComponents _ _ _ _)
  · rw [unpackMantissa_packComponents, hmantissa]
  · exact hexponent.symm

theorem unpack_pack_finite (hpos : 0 < mantissa)
    (h : IsCanonical spec mantissa exponent)
    (hexponent : exponent + spec.mantissaBits ≤ topExponent spec) :
    UnpackedFloat.unpack spec
        (UnpackedFloat.pack spec (.finite sign mantissa exponent hpos)) =
      .finite sign mantissa exponent hpos := by
  have hbias := exponentBias_eq spec
  have hleast := minExponent_eq spec
  have htop := two_pow_exponentBits spec
  have hbits := two_pow_mantissaBits spec
  have hsucc := cast_mantissaBits spec
  have hge := h.exponent_ge
  have hlt := h.mantissa_lt
  obtain ⟨biased, hbiased⟩ : ∃ biased : Nat,
    exponent + (spec.exponentBias : Int) +
      (spec.mantissaBitsWithoutImplicit : Int) =
      biased := Int.eq_ofNat_of_zero_le (by omega)
  have hrange : biased + 1 < 2 ^ spec.exponentBits := by
    omega
  rw [pack_finite spec sign mantissa exponent hpos
      (by rw [hbiased, Int.toNat_natCast]),
    if_neg (by omega)]
  by_cases hnormal : 2 ^ spec.mantissaBitsWithoutImplicit ≤ mantissa
  · have hfull : mantissa.log2 + 1 = spec.mantissaBits := by
      rw [mantissaBits_eq, Nat.add_comm, Nat.add_left_cancel_iff,
        Nat.log2_eq_iff hpos.ne', Nat.pow_succ, Nat.mul_comm, ← hbits]
      exact ⟨hnormal, hlt⟩
    rw [if_pos hfull, unpack_components_normal hpos h hnormal hbiased hrange]
  · have hbelow : mantissa < 2 ^ spec.mantissaBitsWithoutImplicit := by
      omega
    have hlog : mantissa.log2 < spec.mantissaBitsWithoutImplicit :=
      (Nat.log2_lt hpos.ne').mpr hbelow
    rw [if_neg (by omega), unpack_components_subnormal hpos hbelow
      (h.normal_or_least.resolve_left hnormal)]

theorem unpack_pack_large (hpos : 0 < mantissa)
    (hexponent : topExponent spec < exponent + spec.mantissaBits) :
    UnpackedFloat.unpack spec
        (UnpackedFloat.pack spec (.finite sign mantissa exponent hpos)) =
      .infinity sign := by
  have hbias := exponentBias_eq spec
  have htop := two_pow_exponentBits spec
  have hsucc := cast_mantissaBits spec
  rw [pack_finite spec sign mantissa exponent hpos rfl, if_pos (by omega),
    unpack_packedInfinity]

end Milona.Foundation.FloatPacking
