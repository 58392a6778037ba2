import Milona.Foundation.FloatArithmetic

/-!
# Double-precision numbers

An operation whose exact result is a double has that result, as long as it is
below the overflow threshold by a binary place; the integers up to `2 ^ 53` are
doubles.  Any result lies in `[-2 ^ b, 2 ^ b)` exactly when the exact value lies
in `[-(2 ^ b + 2 ^ (b - 53)), 2 ^ b - 2 ^ (b - 54))`.
-/

namespace Milona.Foundation.Binary64

open Float.Model
open Float.Model.UnpackedFloat
open FloatPacking FloatArithmetic FloatRounding RoundToNearest

def value (f : Float) : Option ℚ := unpackedValue f.toModel.unpack

theorem isFinite_of_value {f : Float} {x : ℚ} (h : value f = some x) :
    IsFinite Format.binary64 f.toModel.unpack x :=
  FloatArithmetic.isFinite_of_value (by decide) h

theorem isCanonical_of_unpack {f : Float} {sign : Sign} {mantissa : Nat} {exponent : Int}
    {hpos : 0 < mantissa} (h : f.toModel.unpack = .finite sign mantissa exponent hpos) :
    IsCanonical Format.binary64 mantissa exponent :=
  (FloatPacking.isCanonical_of_unpack (by decide) h).1

theorem beq_zero_iff {f : Float} {x : ℚ} (h : value f = some x) :
    (f == 0) = true ↔ x = 0 :=
  FloatArithmetic.beq_zero_iff (isFinite_of_value h)

/-! ## Exact results -/

abbrev IsDouble (x : ℚ) : Prop :=
  Representable Format.binary64.mantissaBits Format.binary64.minExponent x

theorem isDouble_int {n : Int} (h : |n| ≤ 2 ^ 53) : IsDouble n :=
  .int h (by decide)

/-- The float that an operation packs its result to. -/
def packed (u : UnpackedFloat) : Float := .ofModel (Float.Model.pack u)

theorem value_packed {u : UnpackedFloat} {z : ℚ}
    (h : Rounds Format.binary64 u z) (hz : IsDouble z)
    (hbound : |z| ≤ 2 ^ (1023 : Int)) : value (packed u) = some z := by
  obtain ⟨r, hr, hnearest⟩ := h.value (by decide) (by decide) hbound
  rw [← hnearest.eq_of_representable hz]
  exact hr

theorem value_toFloat {n : UInt64} (h : IsDouble n.toNat) :
    value n.toFloat = some (n.toNat : ℚ) := by
  have hrounds : Rounds Format.binary64
      (UnpackedFloat.ofUInt64 Format.binary64 n) n.toNat := by
    have hinteger := @rounds_normalize Format.binary64 (by decide)
      n.toNat 0 .positive
    rwa [zpow_zero, mul_one, Int.cast_natCast] at hinteger
  refine value_packed hrounds h ?_
  have hlt : (n.toNat : ℚ) < 2 ^ 64 := by
    exact_mod_cast n.toNat_lt
  rw [Nat.abs_cast]
  exact hlt.le.trans ((zpow_natCast (2 : ℚ) 64).ge.trans (two_zpow_le (by decide)))

theorem value_ofInt64 {n : Int64} (h : IsDouble n.toInt) :
    value (.ofModel (.ofInt64 n)) = some (n.toInt : ℚ) := by
  have hrounds : Rounds Format.binary64
      (UnpackedFloat.ofInt64 Format.binary64 n) n.toInt := by
    have hinteger := @rounds_normalize Format.binary64 (by decide)
      n.toInt 0 .positive
    rwa [zpow_zero, mul_one] at hinteger
  refine value_packed hrounds h ?_
  have hlow := n.le_toInt
  have hhigh := n.toInt_lt
  have habs : |n.toInt| ≤ 2 ^ 63 := abs_le.mpr ⟨by omega, by omega⟩
  have hcast : |(n.toInt : ℚ)| ≤ 2 ^ 63 := by
    exact_mod_cast habs
  exact hcast.trans ((zpow_natCast (2 : ℚ) 63).ge.trans (two_zpow_le (by decide)))

section Operations

variable {a b : Float} {x y z : ℚ} (ha : value a = some x) (hb : value b = some y)
variable (hz : IsDouble z) (hbound : |z| ≤ 2 ^ (1023 : Int))
include ha hb hz hbound

theorem value_add (h : x + y = z) : value (a + b) = some z :=
  value_packed (h ▸ rounds_add (by decide) (isFinite_of_value ha)
    (isFinite_of_value hb)) hz hbound

theorem value_sub (h : x - y = z) : value (a - b) = some z :=
  value_packed (h ▸ rounds_sub (by decide) (isFinite_of_value ha)
    (isFinite_of_value hb)) hz hbound

theorem value_mul (h : x * y = z) : value (a * b) = some z :=
  value_packed (h ▸ rounds_mul (by decide) (isFinite_of_value ha)
    (isFinite_of_value hb)) hz hbound

theorem value_div (hy : y ≠ 0) (h : x / y = z) : value (a / b) = some z :=
  value_packed (h ▸ rounds_div (by decide) (isFinite_of_value ha)
    (isFinite_of_value hb) hy) hz hbound

end Operations

/-! ## Bounds -/

/-- The value of a double is in `[-2 ^ bound, 2 ^ bound)`. -/
def IsWithin (bound : Int) (f : Float.Model) : Prop :=
  ∃ q, unpackedValue f.unpack = some q ∧ -2 ^ bound ≤ q ∧ q < 2 ^ bound

/-- The exact values that are rounded into `[-2 ^ bound, 2 ^ bound)`. -/
def RoundsWithin (bound : Int) (x : ℚ) : Prop :=
  -(2 ^ bound + 2 ^ (bound - 53)) ≤ x ∧ x < 2 ^ bound - 2 ^ (bound - 54)

section Bounds

variable {bound : Int}

theorem isWithin_of_value {f : Float.Model} {q : ℚ}
    (h : unpackedValue f.unpack = some q) :
    IsWithin bound f ↔ -2 ^ bound ≤ q ∧ q < 2 ^ bound := by
  constructor
  · rintro ⟨r, hr, hrange⟩
    cases h.symm.trans hr
    exact hrange
  · intro hrange
    exact ⟨q, h, hrange⟩

variable (hlow : -1021 ≤ bound)
include hlow

/-- A tie at the upper end is rounded out of the range, and one at the lower end into it. -/
theorem roundsWithin_iff {x r : ℚ}
    (h : IsTiesToEven Format.binary64.mantissaBits Format.binary64.minExponent x r) :
    RoundsWithin bound x ↔ -2 ^ bound ≤ r ∧ r < 2 ^ bound := by
  have hleast : Format.binary64.minExponent ≤ bound - Format.binary64.mantissaBits := by
    change (-1074 : Int) ≤ bound - 53
    omega
  have hupper := h.lt_two_zpow_iff (by decide) hleast
  have hlower := h.opposite.le_two_zpow_iff (by decide) hleast
  have hbits : bound - (Format.binary64.mantissaBits : Int) = bound - 53 := rfl
  rw [hbits, sub_sub] at hupper
  rw [hbits] at hlower
  rw [RoundsWithin, neg_le, ← hlower, neg_le]
  exact and_congr_right fun _ => hupper.symm

variable (hhigh : bound ≤ 1023)
include hhigh

theorem isWithin_of_rounds {u : UnpackedFloat} {x : ℚ} (h : Rounds Format.binary64 u x) :
    IsWithin bound (Float.Model.pack u) ↔ RoundsWithin bound x := by
  obtain ⟨r, hround, hvalue, hinfinite⟩ := h
  rw [roundsWithin_iff hlow hround]
  rcases lt_or_ge |r| (2 ^ topExponent Format.binary64) with hsmall | hlarge
  · exact isWithin_of_value (hvalue hsmall)
  · apply iff_of_false
    · obtain ⟨sign, hsign⟩ := hinfinite hlarge
      rintro ⟨q, hq, -⟩
      cases (congrArg unpackedValue hsign).symm.trans hq
    · rintro ⟨hbelow, habove⟩
      have hmax : (2 : ℚ) ^ bound < 2 ^ topExponent Format.binary64 :=
        zpow_lt_zpow_right₀ one_lt_two (hhigh.trans_lt (by decide))
      exact absurd (abs_le.mpr ⟨hbelow, habove.le⟩) (not_le.mpr (hmax.trans_le hlarge))

variable {a b : Float} {x y : ℚ} (ha : value a = some x) (hb : value b = some y)
include ha hb

theorem isWithin_add : IsWithin bound (a + b).toModel ↔ RoundsWithin bound (x + y) :=
  isWithin_of_rounds hlow hhigh
    (rounds_add (by decide) (isFinite_of_value ha) (isFinite_of_value hb))

theorem isWithin_sub : IsWithin bound (a - b).toModel ↔ RoundsWithin bound (x - y) :=
  isWithin_of_rounds hlow hhigh
    (rounds_sub (by decide) (isFinite_of_value ha) (isFinite_of_value hb))

theorem isWithin_mul : IsWithin bound (a * b).toModel ↔ RoundsWithin bound (x * y) :=
  isWithin_of_rounds hlow hhigh
    (rounds_mul (by decide) (isFinite_of_value ha) (isFinite_of_value hb))

theorem isWithin_div (hy : y ≠ 0) :
    IsWithin bound (a / b).toModel ↔ RoundsWithin bound (x / y) :=
  isWithin_of_rounds hlow hhigh
    (rounds_div (by decide) (isFinite_of_value ha) (isFinite_of_value hb) hy)

end Bounds

end Milona.Foundation.Binary64
