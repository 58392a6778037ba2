import Mathlib.Analysis.Real.Sqrt
import Milona.Foundation.RoundingError

/-!
# Cosines of rational vectors

The inner product pairs the components as far as both vectors have them.  By the
Cauchy-Schwarz inequality it is at most the product of the norms, and so is the
sum of the magnitudes of its terms.  The cosine of a zero vector is zero.

`Near` bounds a relative error; products, square roots and quotients of
approximations have errors in terms of those of their arguments.
-/

namespace Milona.Foundation

open RoundToNearest (totalMagnitude totalMagnitude_cons)

def innerProduct (x y : List ℚ) : ℚ := (List.zipWith (· * ·) x y).sum

@[simp] theorem innerProduct_cons (a b : ℚ) (x y : List ℚ) :
    innerProduct (a :: x) (b :: y) = a * b + innerProduct x y := by
  rw [innerProduct, List.zipWith_cons_cons, List.sum_cons]
  rfl

theorem innerProduct_self_nonneg (x : List ℚ) : 0 ≤ innerProduct x x := by
  induction x with
  | nil => exact le_rfl
  | cons a x ih =>
      rw [innerProduct_cons]
      exact add_nonneg (mul_self_nonneg a) ih

/-- In a product with itself no term is negative. -/
theorem totalMagnitude_squares (x : List ℚ) :
    totalMagnitude (List.zipWith (· * ·) x x) = innerProduct x x := by
  induction x with
  | nil => rfl
  | cons a x ih =>
      rw [List.zipWith_cons_cons, totalMagnitude_cons, ih, abs_mul_self,
        innerProduct_cons]

theorem eq_zero_of_innerProduct_self {x : List ℚ} (h : innerProduct x x = 0) :
    ∀ a ∈ x, a = 0 := by
  induction x with
  | nil => simp
  | cons a x ih =>
      rw [innerProduct_cons] at h
      have hrest := innerProduct_self_nonneg x
      have hsquare : a * a = 0 := le_antisymm (by linarith) (mul_self_nonneg a)
      exact List.forall_mem_cons.mpr ⟨mul_self_eq_zero.mp hsquare,
        ih (by linarith)⟩

theorem innerProduct_map_div (x : List ℚ) (r : ℚ) :
    innerProduct (x.map (· / r)) (x.map (· / r)) = innerProduct x x / (r * r) := by
  induction x with
  | nil => exact (zero_div _).symm
  | cons a x ih =>
      rw [List.map_cons, innerProduct_cons, innerProduct_cons, ih,
        div_mul_div_comm, add_div]

/-- Errors of components as errors of the squared norm. -/
theorem innerProduct_self_sub_le {u η : ℚ} (hu : 0 ≤ u) (huTop : u ≤ 1 / 2)
    (hη : 0 ≤ η) (hηTop : η ≤ 1) {x y : List ℚ}
    (h : List.Forall₂ (fun b a => |b - a| ≤ u * |a| + η) y x)
    (hx : ∀ a ∈ x, |a| ≤ 1) :
    |innerProduct y y - innerProduct x x| ≤ 3 * u * innerProduct x x +
      x.length * (5 * η) := by
  induction h with
  | nil => simp [innerProduct]
  | @cons b a y x hb _ ih =>
      obtain ⟨ha, hx⟩ := List.forall_mem_cons.mp hx
      have hsum : |b + a| ≤ (2 + u) * |a| + η := by
        calc
          |b + a| = |(b - a) + 2 * a| := by
            congr 1
            ring
          _ ≤ |b - a| + |2 * a| := abs_add_le _ _
          _ ≤ (2 + u) * |a| + η := by
            rw [abs_mul, abs_two]
            linarith
      have hsquare : |a| * |a| = a * a := abs_mul_abs_self a
      have hterm : |b * b - a * a| ≤ 3 * u * (a * a) + 5 * η := by
        have hcross : (u * |a| + η) * ((2 + u) * |a| + η) ≤
          3 * u * (|a| * |a|) + 5 * η := by
          nlinarith [abs_nonneg a, mul_nonneg hu (mul_self_nonneg |a|),
            mul_nonneg hη hη,
            mul_nonneg hu hη, mul_nonneg hη (abs_nonneg a)]
        rw [hsquare] at hcross
        calc
          |b * b - a * a| = |b - a| * |b + a| := by
            rw [← abs_mul]
            congr 1
            ring
          _ ≤ (u * |a| + η) * ((2 + u) * |a| + η) :=
            mul_le_mul hb hsum (abs_nonneg _) ((abs_nonneg _).trans hb)
          _ ≤ 3 * u * (a * a) + 5 * η := hcross
      rw [innerProduct_cons, innerProduct_cons, List.length_cons]
      push_cast
      calc
        |b * b + innerProduct y y - (a * a + innerProduct x x)| =
            |(b * b - a * a) + (innerProduct y y - innerProduct x x)| := by
          congr 1
          ring
        _ ≤ |b * b - a * a| + |innerProduct y y - innerProduct x x| :=
            abs_add_le _ _
        _ ≤ 3 * u * (a * a + innerProduct x x) + (x.length + 1) * (5 * η) := by
          linarith [ih hx]

noncomputable def euclideanNorm (x : List ℚ) : ℝ := √(innerProduct x x : ℚ)

noncomputable def cosine (x y : List ℚ) : ℝ :=
  innerProduct x y / (euclideanNorm x * euclideanNorm y)

theorem euclideanNorm_nonneg (x : List ℚ) : 0 ≤ euclideanNorm x :=
  Real.sqrt_nonneg _

theorem euclideanNorm_mul_self (x : List ℚ) :
    euclideanNorm x * euclideanNorm x = (innerProduct x x : ℚ) :=
  Real.mul_self_sqrt (by exact_mod_cast innerProduct_self_nonneg x)

theorem norms_mul_nonneg (x y : List ℚ) : 0 ≤ euclideanNorm x * euclideanNorm y :=
  mul_nonneg (euclideanNorm_nonneg x) (euclideanNorm_nonneg y)

/-- The Cauchy-Schwarz inequality, for the magnitudes of the terms. -/
theorem totalMagnitude_le_norms (x y : List ℚ) :
    (totalMagnitude (List.zipWith (· * ·) x y) : ℝ) ≤
      euclideanNorm x * euclideanNorm y := by
  induction x generalizing y with
  | nil => simpa using norms_mul_nonneg [] y
  | cons a x ih =>
      cases y with
      | nil => simpa using norms_mul_nonneg (a :: x) []
      | cons b y =>
          obtain ⟨p, hp⟩ : ∃ p, euclideanNorm x = p := ⟨_, rfl⟩
          obtain ⟨q, hq⟩ : ∃ q, euclideanNorm y = q := ⟨_, rfl⟩
          have hpp := euclideanNorm_mul_self x
          have hqq := euclideanNorm_mul_self y
          have hrest := ih y
          rw [hp] at hpp hrest
          rw [hq] at hqq hrest
          have hx : (innerProduct (a :: x) (a :: x) : ℝ) =
            (a : ℝ) * a + p * p := by
            rw [innerProduct_cons, hpp]
            push_cast
            rfl
          have hy : (innerProduct (b :: y) (b :: y) : ℝ) =
            (b : ℝ) * b + q * q := by
            rw [innerProduct_cons, hqq]
            push_cast
            rfl
          have hsquare : (|(a : ℝ)| * |(b : ℝ)| + p * q) ^ 2 ≤
              ((a : ℝ) * a + p * p) * ((b : ℝ) * b + q * q) := by
            have hcross := sq_nonneg (|(a : ℝ)| * q - |(b : ℝ)| * p)
            have ha := abs_mul_abs_self (a : ℝ)
            have hb := abs_mul_abs_self (b : ℝ)
            calc
              (|(a : ℝ)| * |(b : ℝ)| + p * q) ^ 2 =
                  (|(a : ℝ)| * |(a : ℝ)| + p * p) *
                    (|(b : ℝ)| * |(b : ℝ)| + q * q) -
                    (|(a : ℝ)| * q - |(b : ℝ)| * p) ^ 2 := by ring
              _ ≤ (|(a : ℝ)| * |(a : ℝ)| + p * p) *
                  (|(b : ℝ)| * |(b : ℝ)| + q * q) :=
                sub_le_self _ hcross
              _ = ((a : ℝ) * a + p * p) * ((b : ℝ) * b + q * q) := by rw [ha, hb]
          rw [List.zipWith_cons_cons, totalMagnitude_cons, abs_mul,
            euclideanNorm, euclideanNorm,
            hx, hy, ← Real.sqrt_mul
              (add_nonneg (mul_self_nonneg _) (mul_self_nonneg _))]
          push_cast
          exact (by linarith : _ ≤ |(a : ℝ)| * |(b : ℝ)| + p * q).trans
            (Real.le_sqrt_of_sq_le hsquare)

private theorem abs_sum_le_totalMagnitude (terms : List ℚ) :
    |terms.sum| ≤ totalMagnitude terms := by
  induction terms with
  | nil => simp
  | cons term terms ih =>
      rw [List.sum_cons, totalMagnitude_cons]
      exact (abs_add_le term terms.sum).trans (by linarith)

theorem abs_innerProduct_le (x y : List ℚ) :
    |(innerProduct x y : ℝ)| ≤ euclideanNorm x * euclideanNorm y := by
  refine le_trans ?_ (totalMagnitude_le_norms x y)
  exact_mod_cast abs_sum_le_totalMagnitude _

theorem abs_cosine_le_one (x y : List ℚ) : |cosine x y| ≤ 1 := by
  rw [cosine, abs_div, abs_of_nonneg (norms_mul_nonneg x y)]
  exact div_le_one_of_le₀ (abs_innerProduct_le x y) (norms_mul_nonneg x y)

theorem cosine_of_zero {x y : List ℚ}
    (h : innerProduct x x = 0 ∨ innerProduct y y = 0) :
    cosine x y = 0 := by
  rcases h with h | h
  · rw [cosine, euclideanNorm, h, Rat.cast_zero, Real.sqrt_zero,
      zero_mul, div_zero]
  · rw [cosine, mul_comm, euclideanNorm, h, Rat.cast_zero, Real.sqrt_zero,
      zero_mul, div_zero]

theorem cosine_self {x : List ℚ} (h : innerProduct x x ≠ 0) : cosine x x = 1 := by
  rw [cosine, euclideanNorm_mul_self]
  exact div_self (by exact_mod_cast h)

/-! ## Relative errors -/

/-- The number `r` is within the fraction `ε` of `x`. -/
def Near (ε r x : ℝ) : Prop := |r - x| ≤ ε * x

namespace Near

variable {ε δ r q x y : ℝ}

theorem ge (h : Near ε r x) : (1 - ε) * x ≤ r := by
  have hlow := (abs_le.mp h).1
  linarith

theorem le (h : Near ε r x) : r ≤ (1 + ε) * x := by
  have hhigh := (abs_le.mp h).2
  linarith

theorem mono (h : Near ε r x) (hle : ε ≤ δ) (hx : 0 ≤ x) : Near δ r x :=
  h.trans (mul_le_mul_of_nonneg_right hle hx)

/-- An approximation of an approximation. -/
theorem after (h : Near ε r q) (h' : Near δ q x) (hε : 0 ≤ ε) :
    Near (ε + δ + ε * δ) r x := by
  have hq : ε * q ≤ ε * ((1 + δ) * x) := mul_le_mul_of_nonneg_left h'.le hε
  have hfirst : |r - q| ≤ ε * q := h
  have hsecond : |q - x| ≤ δ * x := h'
  calc
    |r - x| ≤ |r - q| + |q - x| := abs_sub_le r q x
    _ ≤ (ε + δ + ε * δ) * x := by linarith

theorem mul (h : Near ε r x) (h' : Near δ q y) (hε : 0 ≤ ε) (hx : 0 ≤ x)
    (hy : 0 ≤ y) :
    Near (ε + δ + ε * δ) (r * q) (x * y) := by
  have hr : |r| ≤ (1 + ε) * x := by
    have hsplit : |r| ≤ |r - x| + |x| := by simpa using abs_add_le (r - x) x
    rw [abs_of_nonneg hx] at hsplit
    have hdist : |r - x| ≤ ε * x := h
    linarith
  have hfirst : |r| * |q - y| ≤ (1 + ε) * x * (δ * y) :=
    mul_le_mul hr h' (abs_nonneg _) (by positivity)
  have hsecond : |r - x| * y ≤ ε * x * y := mul_le_mul_of_nonneg_right h hy
  calc
    |r * q - x * y| = |r * (q - y) + (r - x) * y| := by
      congr 1
      ring
    _ ≤ |r * (q - y)| + |(r - x) * y| := abs_add_le _ _
    _ = |r| * |q - y| + |r - x| * y := by rw [abs_mul, abs_mul, abs_of_nonneg hy]
    _ ≤ (ε + δ + ε * δ) * (x * y) := by linarith

/-- A square root does not magnify a relative error. -/
theorem sqrt (h : Near ε r x) (hr : 0 ≤ r) (hx : 0 ≤ x) : Near ε √r √x := by
  rcases hx.eq_or_lt with rfl | hpos
  · have hzero : r = 0 := by
      have hle := h.le
      rw [mul_zero] at hle
      exact le_antisymm hle hr
    rw [Near, hzero, sub_self, abs_zero, Real.sqrt_zero, mul_zero]
  · have hroot : 0 < √x := Real.sqrt_pos.mpr hpos
    have hproduct : |√r - √x| * (√r + √x) = |r - x| := by
      rw [← abs_of_nonneg (by positivity : 0 ≤ √r + √x), ← abs_mul]
      congr 1
      rw [show (√r - √x) * (√r + √x) = √r * √r - √x * √x by ring,
        Real.mul_self_sqrt hr,
        Real.mul_self_sqrt hx]
    have hscaled : |√r - √x| * √x ≤ ε * √x * √x := by
      calc
        |√r - √x| * √x ≤ |√r - √x| * (√r + √x) :=
          mul_le_mul_of_nonneg_left (le_add_of_nonneg_left (Real.sqrt_nonneg r))
            (abs_nonneg _)
        _ = |r - x| := hproduct
        _ ≤ ε * x := h
        _ = ε * √x * √x := by rw [mul_assoc, Real.mul_self_sqrt hx]
    exact le_of_mul_le_mul_right hscaled hroot

/-- A number over an approximation of itself. -/
theorem ratio {s : ℝ} (h : Near ε r s) (hs : 0 < s) (hε : 0 ≤ ε)
    (hεTop : ε ≤ 1 / 25) :
    0 < r ∧ s / r ≤ 25 / 24 ∧ 1 / 2 ≤ s / r * (s / r) ∧
    |s / r - 1| ≤ ε * (25 / 24) := by
  have hrLow : 24 / 25 * s ≤ r :=
    le_trans (mul_le_mul_of_nonneg_right (by linarith) hs.le) h.ge
  have hrHigh : r ≤ 26 / 25 * s :=
    h.le.trans (mul_le_mul_of_nonneg_right (by linarith) hs.le)
  have hr : 0 < r := lt_of_lt_of_le (by positivity) hrLow
  have hhigh : s / r ≤ 25 / 24 := by
    rw [div_le_iff₀ hr]
    linarith
  have hlow : 25 / 26 ≤ s / r := by
    rw [le_div_iff₀ hr]
    linarith
  refine ⟨hr, hhigh, ?_, ?_⟩
  · exact le_trans (by norm_num)
      (mul_le_mul hlow hlow (by norm_num) (by positivity))
  · have hdist : |r - s| ≤ ε * s := h
    calc
      |s / r - 1| = |r - s| / r := by
        rw [div_sub_one hr.ne', abs_div, abs_of_pos hr, abs_sub_comm]
      _ ≤ ε * s / r := div_le_div_of_nonneg_right hdist hr.le
      _ = ε * (s / r) := mul_div_assoc ε s r
      _ ≤ ε * (25 / 24) := mul_le_mul_of_nonneg_left hhigh hε

end Near

/-- The error of a quotient of absolute value at most one. -/
theorem abs_div_sub_le {γ τ d d' s s' : ℝ} (hs : 0 < s) (hd : |d| ≤ s)
    (hd' : |d' - d| ≤ γ * s) (hs' : Near τ s' s) (hτ : τ < 1) :
    |d' / s' - d / s| ≤ (γ + τ) / (1 - τ) := by
  have hlow : 0 < (1 - τ) * s := mul_pos (by linarith) hs
  have hpos : 0 < s' := hlow.trans_le hs'.ge
  have hcross : |d' * s - d * s'| ≤ (γ + τ) * (s * s) := by
    calc
      |d' * s - d * s'| = |(d' - d) * s + d * (s - s')| := by
        congr 1
        ring
      _ ≤ |(d' - d) * s| + |d * (s - s')| := abs_add_le _ _
      _ = |d' - d| * s + |d| * |s' - s| := by
        rw [abs_mul, abs_mul, abs_of_pos hs, abs_sub_comm s s']
      _ ≤ γ * s * s + s * (τ * s) :=
        add_le_add (mul_le_mul_of_nonneg_right hd' hs.le)
          (mul_le_mul hd hs' (abs_nonneg _) hs.le)
      _ = (γ + τ) * (s * s) := by ring
  have hnonneg : 0 ≤ γ + τ :=
    nonneg_of_mul_nonneg_left ((abs_nonneg _).trans hcross) (mul_pos hs hs)
  calc
    |d' / s' - d / s| = |d' * s - d * s'| / (s' * s) := by
      rw [div_sub_div d' d hpos.ne' hs.ne', abs_div, abs_of_pos (mul_pos hpos hs)]
      congr 2
      ring
    _ ≤ (γ + τ) * (s * s) / ((1 - τ) * s * s) :=
      div_le_div₀ (mul_nonneg hnonneg (mul_pos hs hs).le) hcross (mul_pos hlow hs)
        (mul_le_mul_of_nonneg_right hs'.ge hs.le)
    _ = (γ + τ) / (1 - τ) := by
      rw [mul_assoc, mul_div_mul_right _ _ (mul_pos hs hs).ne']

end Milona.Foundation
