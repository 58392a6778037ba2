import Milona.Foundation.Binary64

/-!
# Bounds of single-precision arithmetic

While the exact result of an operation on finite numbers is at most `2 ^ 127`,
the float has a value and that value is nearest to the exact one.  A sum of any
number of terms stays within `2 ^ 25` times the bound of its terms, because
there a further term is less than half the spacing of the floats.
-/

namespace Milona.Foundation.Binary32

open Float.Model
open Float.Model.UnpackedFloat
open FloatPacking FloatRounding FloatArithmetic RoundToNearest

def value (f : Float32) : Option ℚ := unpackedValue f.toModel.unpack

/-- The single-precision number nearest to `x` is `r`. -/
abbrev Nearest (x r : ℚ) : Prop :=
  IsNearest Format.binary32.mantissaBits Format.binary32.minExponent x r

abbrev IsSingle (x : ℚ) : Prop :=
  Representable Format.binary32.mantissaBits Format.binary32.minExponent x

def IsBounded (bound : ℚ) (f : Float32) : Prop := ∃ x ∈ value f, |x| ≤ bound

theorem isBounded_of_le {low high : ℚ} {f : Float32} (h : IsBounded low f)
    (hle : low ≤ high) :
    IsBounded high f := by
  obtain ⟨x, hx, hbound⟩ := h
  exact ⟨x, hx, hbound.trans hle⟩

theorem isSingle_two_zpow {exponent : Int} (h : -149 ≤ exponent) :
    IsSingle (2 ^ exponent) :=
  .two_zpow h

theorem isFinite_of_value {f : Float32} {x : ℚ} (h : value f = some x) :
    IsFinite Format.binary32 f.toModel.unpack x :=
  FloatArithmetic.isFinite_of_value (by decide) h

theorem isBounded_of_finite {f : Float32} (sign : Sign) (mantissa : Nat)
    (exponent : Int) (hpos : 0 < mantissa)
    (h : f.toModel.unpack = .finite sign mantissa exponent hpos) {bound : ℚ}
    (hbound : (mantissa : ℚ) * 2 ^ exponent ≤ bound) : IsBounded bound f := by
  refine ⟨signed sign (mantissa * 2 ^ exponent), ?_, ?_⟩
  · rw [value, h, unpackedValue_finite, Option.mem_some]
  · rwa [abs_signed sign
      (mul_nonneg (Nat.cast_nonneg mantissa) (two_zpow_pos exponent).le)]

theorem isSingle_of_value {f : Float32} {x : ℚ} (h : value f = some x) :
    IsSingle x :=
  (isFinite_of_value h).representable

theorem isNaN_of_value {f : Float32} {x : ℚ} (h : value f = some x) :
    f.isNaN = false := by
  have hfinite := isFinite_of_value h
  change f.toModel.unpack.isNaN = false
  cases hunpack : f.toModel.unpack with
  | notANumber =>
      rw [hunpack] at hfinite
      cases hfinite
  | _ => rfl

/-- The float that an operation packs its result to. -/
def packed (u : UnpackedFloat) : Float32 := .ofModel (Float32.Model.pack u)

theorem value_packed {u : UnpackedFloat} {x : ℚ} (h : Rounds Format.binary32 u x)
    (hx : |x| ≤ 2 ^ (127 : Int)) : ∃ r, value (packed u) = some r ∧ Nearest x r :=
  h.value (by decide) (by decide) hx

theorem isNaN_packed {u : UnpackedFloat} {x : ℚ} (h : Rounds Format.binary32 u x) :
    (packed u).isNaN = false := by
  obtain ⟨r, -, hvalue, hinfinite⟩ := h
  rcases lt_or_ge |r| (2 ^ topExponent Format.binary32) with hsmall | hlarge
  · exact isNaN_of_value (hvalue hsmall)
  · obtain ⟨sign, hsign⟩ := hinfinite hlarge
    change (UnpackedFloat.unpack _ (UnpackedFloat.pack _ u)).isNaN = false
    rw [hsign]
    rfl

/-! ## Conversions -/

/-- The cast of a double, which rounds it once more. -/
def narrow (f : Float) : Float32 :=
  packed <| match f.toModel.unpack with
    | .finite sign mantissa exponent _ =>
        UnpackedFloat.round Format.binary32 sign mantissa exponent
    | other => other

theorem value_narrow {f : Float} {x : ℚ} (h : Binary64.value f = some x)
    (hx : |x| ≤ 2 ^ (127 : Int)) :
    ∃ r, value (narrow f) = some r ∧ Nearest x r := by
  have hfinite := Binary64.isFinite_of_value h
  rw [narrow]
  cases hunpack : f.toModel.unpack with
  | zero sign =>
      rw [hunpack] at hfinite
      cases hfinite
      exact value_packed (rounds_zero _ sign) hx
  | finite sign mantissa exponent hpos =>
      rw [hunpack] at hfinite
      cases hfinite
      exact value_packed (rounds_round (by decide) sign hpos exponent) hx
  | infinity sign =>
      rw [hunpack] at hfinite
      cases hfinite
  | notANumber =>
      rw [hunpack] at hfinite
      cases hfinite

theorem value_toFloat32 (n : UInt64) :
    ∃ r, value n.toFloat32 = some r ∧ Nearest n.toNat r := by
  have hrounds : Rounds Format.binary32
      (UnpackedFloat.ofUInt64 Format.binary32 n) n.toNat := by
    have hinteger := @rounds_normalize Format.binary32 (by decide)
      n.toNat 0 .positive
    rwa [zpow_zero, mul_one, Int.cast_natCast] at hinteger
  apply value_packed hrounds
  have hlt : (n.toNat : ℚ) < 2 ^ 64 := by
    exact_mod_cast n.toNat_lt
  rw [Nat.abs_cast]
  exact hlt.le.trans (by norm_num)

/-! ## Operations -/

section Operations

variable {a b : Float32} {x y : ℚ} (ha : value a = some x) (hb : value b = some y)
include ha

theorem value_sqrt {low high : ℚ} (hlow : 0 ≤ low) (hhigh : low ≤ high)
    (hle : low * low ≤ x) (hge : x ≤ high * high) (hmax : high ≤ 2 ^ (127 : Int)) :
    ∃ y r, value a.sqrt = some r ∧ Nearest y r ∧ low ≤ y ∧ y ≤ high := by
  obtain ⟨y, hlowY, hhighY, hrounds⟩ :=
    rounds_sqrt (by decide) (isFinite_of_value ha) hlow
    (hlow.trans hhigh) hle hge
  have hy : |y| ≤ 2 ^ (127 : Int) := by
    rw [abs_of_nonneg (hlow.trans hlowY)]
    exact hhighY.trans hmax
  obtain ⟨r, hr, hnearest⟩ := value_packed hrounds hy
  exact ⟨y, r, hr, hnearest, hlowY, hhighY⟩

theorem beq_zero_iff : (a == 0.0) = true ↔ x = 0 :=
  FloatArithmetic.beq_zero_iff (isFinite_of_value ha)

include hb

theorem lt_iff : a < b ↔ x < y := by
  have hcompare := compare_eq (isFinite_of_value ha) (isFinite_of_value hb)
  have hlt : a < b ↔ (a.toModel.unpack.compare b.toModel.unpack == some .lt) =
    true :=
    decide_eq_true_iff
  rw [hlt, hcompare, beq_iff_eq, Option.some.injEq, compare_lt_iff_lt]

theorem value_add (h : |x + y| ≤ 2 ^ (127 : Int)) :
    ∃ r, value (a + b) = some r ∧ Nearest (x + y) r :=
  value_packed (rounds_add (by decide) (isFinite_of_value ha)
    (isFinite_of_value hb)) h

theorem value_mul (h : |x * y| ≤ 2 ^ (127 : Int)) :
    ∃ r, value (a * b) = some r ∧ Nearest (x * y) r :=
  value_packed (rounds_mul (by decide) (isFinite_of_value ha)
    (isFinite_of_value hb)) h

theorem value_div (hy : y ≠ 0) (h : |x / y| ≤ 2 ^ (127 : Int)) :
    ∃ r, value (a / b) = some r ∧ Nearest (x / y) r :=
  value_packed (rounds_div (by decide) (isFinite_of_value ha)
    (isFinite_of_value hb) hy) h

theorem isNaN_div (hy : y ≠ 0) : (a / b).isNaN = false :=
  isNaN_packed (rounds_div (by decide) (isFinite_of_value ha)
    (isFinite_of_value hb) hy)

end Operations

/-! ## Bounds -/

theorem isBounded_mul {low high : Int} {a b : Float32}
    (ha : IsBounded (2 ^ low) a) (hb : IsBounded (2 ^ high) b)
    (hmin : -149 ≤ low + high) (hmax : low + high ≤ 127) :
    IsBounded (2 ^ (low + high)) (a * b) := by
  obtain ⟨x, hx, hxBound⟩ := ha
  obtain ⟨y, hy, hyBound⟩ := hb
  have hproduct : |x * y| ≤ 2 ^ (low + high) := by
    rw [abs_mul, two_zpow_add]
    exact mul_le_mul hxBound hyBound (abs_nonneg y) (two_zpow_pos low).le
  obtain ⟨r, hr, hnearest⟩ := value_mul hx hy (hproduct.trans (two_zpow_le hmax))
  exact ⟨r, hr, hnearest.magnitude_le (isSingle_two_zpow hmin) hproduct⟩

section Sum

variable {top : Int} (hmin : -149 ≤ top) (hmax : top ≤ 126)
include hmin hmax

/-- Step lemma: a further term does not leave the bound. -/
theorem value_add_of_bounded {s a : Float32} {x y : ℚ} (hs : value s = some x)
    (ha : value a = some y) (hx : |x| ≤ 2 ^ top) (hy : |y| ≤ 2 ^ (top - 25)) :
    ∃ r, value (s + a) = some r ∧ Nearest (x + y) r ∧ |r| ≤ 2 ^ top := by
  have hterm : (2 : ℚ) ^ (top - 25) < 2 ^ (top - 24) :=
    zpow_lt_zpow_right₀ one_lt_two (by omega)
  have hle : (2 : ℚ) ^ (top - 24) ≤ 2 ^ top := two_zpow_le (by omega)
  have hdouble : (2 : ℚ) ^ top + 2 ^ top ≤ 2 ^ (127 : Int) := by
    rw [← mul_two, ← zpow_add_one₀ two_ne_zero]
    exact two_zpow_le (by omega)
  have hsum : |x + y| ≤ 2 ^ (127 : Int) := (abs_add_le x y).trans (by linarith)
  obtain ⟨r, hr, hnearest⟩ := value_add hs ha hsum
  refine ⟨r, hr, hnearest, ?_⟩
  exact hnearest.magnitude_add_le (by decide) hmin hx (hy.trans_lt hterm)

theorem isBounded_add {s a : Float32} (hs : IsBounded (2 ^ top) s)
    (ha : IsBounded (2 ^ (top - 25)) a) : IsBounded (2 ^ top) (s + a) := by
  obtain ⟨x, hx, hxBound⟩ := hs
  obtain ⟨y, hy, hyBound⟩ := ha
  obtain ⟨r, hr, -, hbound⟩ := value_add_of_bounded hmin hmax hx hy hxBound hyBound
  exact ⟨r, hr, hbound⟩

theorem isBounded_foldl_add {s : Float32} (hs : IsBounded (2 ^ top) s)
    {terms : List Float32}
    (hterms : ∀ a ∈ terms, IsBounded (2 ^ (top - 25)) a) :
    IsBounded (2 ^ top) (terms.foldl (· + ·) s) := by
  induction terms generalizing s with
  | nil => exact hs
  | cons a terms ih =>
      exact ih (isBounded_add hmin hmax hs (hterms a (by simp)))
        fun b hb => hterms b (by simp [hb])

/-- A sum of terms that are not negative is no less than any of them. -/
theorem foldl_add_ge {s : Float32} {x : ℚ} (hs : value s = some x) (hx : 0 ≤ x)
    (hbound : x ≤ 2 ^ top) {terms : List Float32}
    (hterms : ∀ a ∈ terms, ∃ y ∈ value a, 0 ≤ y ∧ y ≤ 2 ^ (top - 25)) :
    ∃ r, value (terms.foldl (· + ·) s) = some r ∧ x ≤ r ∧ r ≤ 2 ^ top ∧
      ∀ a ∈ terms, ∀ y ∈ value a, y ≤ r := by
  induction terms generalizing s x with
  | nil => exact ⟨x, hs, le_rfl, hbound, by simp⟩
  | cons a terms ih =>
      obtain ⟨y, hy, hnonneg, hyBound⟩ := hterms a (by simp)
      obtain ⟨q, hq, hnearest, hqBound⟩ := value_add_of_bounded hmin hmax hs hy
        (by rwa [abs_of_nonneg hx]) (by rwa [abs_of_nonneg hnonneg])
      have hxq : x ≤ q := hnearest.ge (isSingle_of_value hs) (by linarith)
      have hyq : y ≤ q := hnearest.ge (isSingle_of_value hy) (by linarith)
      obtain ⟨r, hr, hqr, hrBound, hmembers⟩ :=
        ih hq (hx.trans hxq) ((le_abs_self q).trans hqBound)
          fun b hb => hterms b (by simp [hb])
      refine ⟨r, hr, hxq.trans hqr, hrBound, ?_⟩
      intro b hb z hz
      rcases List.mem_cons.mp hb with rfl | hb
      · cases hy.symm.trans hz
        exact hyq.trans hqr
      · exact hmembers b hb z hz

end Sum

end Milona.Foundation.Binary32
