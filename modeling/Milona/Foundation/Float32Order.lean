import Mathlib.Data.Prod.Lex

/-!
# The partial order of single-precision numbers

`partial_cmp` of two floats is `none` exactly when one of them is not a number.
The other floats are linearly preordered: `rank` maps a float to a triple of
its class, exponent and mantissa, and the IEEE comparison of two numbers is the
lexicographic comparison of their ranks.  Both zeros have the same rank.
-/

namespace Milona.Foundation

open Float.Model (UnpackedFloat)

abbrev Rank : Type := ℤ ×ₗ ℤ ×ₗ ℤ

def unpackedRank : UnpackedFloat → Rank
  | .infinity .negative => toLex (-2, toLex (0, 0))
  | .finite .negative mantissa exponent _ =>
      toLex (-1, toLex (-exponent, -mantissa))
  | .zero _ => toLex (0, toLex (0, 0))
  | .finite .positive mantissa exponent _ =>
      toLex (1, toLex (exponent, mantissa))
  | .infinity .positive => toLex (2, toLex (0, 0))
  | .notANumber => toLex (0, toLex (0, 0))

private theorem isLE_magnitude (e₁ e₂ : ℤ) (m₁ m₂ : ℕ) :
    ((compare e₁ e₂).then (compare m₁ m₂)).isLE = true ↔
      e₁ < e₂ ∨ e₁ = e₂ ∧ m₁ ≤ m₂ := by
  rcases lt_trichotomy e₁ e₂ with h | rfl | h
  · simp [compare_lt_iff_lt.mpr h, h]
  · simp [Nat.isLE_compare]
  · simp [compare_gt_iff_gt.mpr h, h.ne', h.le]

private theorem isGE_magnitude (e₁ e₂ : ℤ) (m₁ m₂ : ℕ) :
    ((compare e₁ e₂).then (compare m₁ m₂)).isGE = true ↔
      e₂ < e₁ ∨ e₁ = e₂ ∧ m₂ ≤ m₁ := by
  rcases lt_trichotomy e₁ e₂ with h | rfl | h
  · simp [compare_lt_iff_lt.mpr h, h.ne, h.le]
  · simp [Nat.isGE_compare]
  · simp [compare_gt_iff_gt.mpr h, h]

theorem unpacked_le_iff (a b : UnpackedFloat) :
    a.le b = true ↔
      a.isNaN = false ∧ b.isNaN = false ∧
        unpackedRank a ≤ unpackedRank b := by
  rcases a with (_ | _) | _ | _ | ⟨(_ | _), m₁, e₁, _⟩ <;>
    rcases b with (_ | _) | _ | _ | ⟨(_ | _), m₂, e₂, _⟩ <;>
      delta UnpackedFloat.isNaN <;>
      dsimp only [UnpackedFloat.le, UnpackedFloat.compare, unpackedRank] <;>
      simp [Prod.Lex.toLex_le_toLex, isLE_magnitude, isGE_magnitude]
  all_goals decide

/-! ## Single precision -/

def rank (f : Float32) : Rank := unpackedRank f.toModel.unpack

/-- `f32::partial_cmp`, from the two IEEE comparisons. -/
def partialCmp (a b : Float32) : Option Ordering :=
  match Float32.le a b, Float32.le b a with
  | false, false => none
  | false, true => some .gt
  | true, false => some .lt
  | true, true => some .eq

theorem le_iff (a b : Float32) :
    Float32.le a b = true ↔
      a.isNaN = false ∧ b.isNaN = false ∧ rank a ≤ rank b := by
  unfold Float32.le
  rw [decide_eq_true_iff]
  exact unpacked_le_iff _ _

theorem partialCmp_of_number {a b : Float32} (ha : a.isNaN = false)
    (hb : b.isNaN = false) :
    partialCmp a b = some (compare (rank a) (rank b)) := by
  have hle := le_iff a b
  have hge := le_iff b a
  simp only [ha, hb, true_and] at hle hge
  unfold partialCmp
  rcases lt_trichotomy (rank a) (rank b) with h | h | h
  · rw [hle.mpr h.le, Bool.eq_false_iff.mpr (hge.not.mpr h.not_ge),
      compare_lt_iff_lt.mpr h]
  · rw [hle.mpr h.le, hge.mpr h.ge, compare_eq_iff_eq.mpr h]
  · rw [hge.mpr h.le, Bool.eq_false_iff.mpr (hle.not.mpr h.not_ge),
      compare_gt_iff_gt.mpr h]

private theorem le_eq_false_of_isNaN {a b : Float32}
    (h : a.isNaN = true ∨ b.isNaN = true) : Float32.le a b = false := by
  refine Bool.eq_false_iff.mpr fun hle => ?_
  have hnumbers := (le_iff a b).mp hle
  rcases h with h | h
  · rw [hnumbers.1] at h
    cases h
  · rw [hnumbers.2.1] at h
    cases h

theorem partialCmp_eq_none_iff (a b : Float32) :
    partialCmp a b = none ↔ a.isNaN = true ∨ b.isNaN = true := by
  constructor
  · intro h
    by_contra hnumbers
    simp only [not_or, Bool.not_eq_true] at hnumbers
    rw [partialCmp_of_number hnumbers.1 hnumbers.2] at h
    cases h
  · intro h
    simp [partialCmp, le_eq_false_of_isNaN h, le_eq_false_of_isNaN h.symm]

end Milona.Foundation
