import Mathlib.Algebra.Order.Field.Basic
import Mathlib.Logic.Function.Iterate

/-!
# Clamped geometric growth

A value is multiplied by a factor and clamped to a ceiling, again and again.
From a start below the ceiling this is the geometric sequence, clamped once.
-/

namespace Milona.Foundation

variable {α : Type} [Field α] [LinearOrder α] [IsStrictOrderedRing α]

def growClamped (ceiling factor value : α) : α := min (value * factor) ceiling

/-- The geometric sequence from `start`, clamped. -/
def clampedPower (ceiling factor start : α) (n : Nat) : α :=
  min ceiling (start * factor ^ n)

variable {ceiling factor start : α}

private theorem mul_pow_le_start (hstart : 0 ≤ start) (hfactor : 0 ≤ factor)
    (hsmall : factor ≤ 1) (n : Nat) : start * factor ^ n ≤ start := by
  have hpow : factor ^ n ≤ 1 := pow_le_one₀ hfactor hsmall
  calc
    start * factor ^ n ≤ start * 1 := mul_le_mul_of_nonneg_left hpow hstart
    _ = start := mul_one start

private theorem growClamped_clampedPower (hstart : 0 ≤ start)
    (hfactor : 0 ≤ factor) (hbelow : start ≤ ceiling) (n : Nat) :
    growClamped ceiling factor (clampedPower ceiling factor start n) =
      clampedPower ceiling factor start (n + 1) := by
  unfold growClamped clampedPower
  rw [pow_succ, ← mul_assoc, min_comm]
  rcases le_total (start * factor ^ n) ceiling with hunder | hover
  · rw [min_eq_right hunder]
  · rw [min_eq_left hover]
    rcases le_total factor 1 with hsmall | hlarge
    · have heq : start * factor ^ n = ceiling :=
        le_antisymm ((mul_pow_le_start hstart hfactor hsmall n).trans hbelow) hover
      rw [heq]
    · have hceiling : 0 ≤ ceiling := hstart.trans hbelow
      have hfirst : ceiling ≤ ceiling * factor :=
        le_mul_of_one_le_right hceiling hlarge
      have hsecond : ceiling * factor ≤ start * factor ^ n * factor :=
        mul_le_mul_of_nonneg_right hover hfactor
      rw [min_eq_left hfirst, min_eq_left (hfirst.trans hsecond)]

theorem iterate_growClamped (hstart : 0 ≤ start) (hfactor : 0 ≤ factor)
    (hbelow : start ≤ ceiling) (n : Nat) :
    (growClamped ceiling factor)^[n] start =
      clampedPower ceiling factor start n := by
  induction n with
  | zero =>
      rw [Function.iterate_zero_apply, clampedPower, pow_zero, mul_one,
        min_eq_right hbelow]
  | succ n ih =>
      rw [Function.iterate_succ_apply', ih,
        growClamped_clampedPower hstart hfactor hbelow]

/-- If the product at one index is below the limit, so are those before it. -/
theorem clampedPower_mul_lt {limit : α} (hstart : 0 ≤ start)
    (hfactor : 0 ≤ factor) (hbelow : start ≤ ceiling)
    (hceiling : ceiling < limit) {n m : Nat} (hn : n ≤ m)
    (hlast : clampedPower ceiling factor start m * factor < limit) :
    clampedPower ceiling factor start n * factor < limit := by
  rcases le_total factor 1 with hsmall | hlarge
  · have hpower : 0 ≤ clampedPower ceiling factor start n :=
      le_min (hstart.trans hbelow) (mul_nonneg hstart (pow_nonneg hfactor n))
    calc
      clampedPower ceiling factor start n * factor
          ≤ clampedPower ceiling factor start n :=
            mul_le_of_le_one_right hpower hsmall
      _ ≤ ceiling := min_le_left _ _
      _ < limit := hceiling
  · have hpower : factor ^ n ≤ factor ^ m := pow_le_pow_right₀ hlarge hn
    have hmono : clampedPower ceiling factor start n ≤
        clampedPower ceiling factor start m :=
      min_le_min_left ceiling (mul_le_mul_of_nonneg_left hpower hstart)
    exact lt_of_le_of_lt (mul_le_mul_of_nonneg_right hmono hfactor) hlast

end Milona.Foundation
