import Mathlib.Algebra.Order.BigOperators.Group.List
import Milona.Foundation.RoundToNearest

/-!
# Errors of rounded sums

One rounding errs by a fraction `2 ^ -precision` of the number, or by half the
least spacing where the number is that small.  A sum of two numbers of the
format has only the first part.  A sum of many terms is rounded after each of
them, so its relative error grows with the number of terms; it is relative to
the sum of the magnitudes, since terms may cancel.
-/

namespace Milona.Foundation.RoundToNearest

variable {precision : Nat} {least : Int}

namespace IsNearest

variable {x r : ℚ}

theorem dist_le_of_normal (h : IsNearest precision least x r)
    (hx : 2 ^ (least + precision - 1) ≤ |x|) :
    |r - x| ≤ 2 ^ (-precision : Int) * |x| := by
  wlog hnonneg : 0 ≤ x generalizing x r
  · have hopposite := this h.opposite (by rwa [abs_neg]) (by linarith)
    rwa [abs_neg, ← abs_neg (-r - -x), neg_sub, sub_neg_eq_add,
      neg_add_eq_sub] at hopposite
  · rw [abs_of_nonneg hnonneg] at hx ⊢
    have hpos : 0 < x := (zpow_pos two_pos _).trans_le hx
    obtain ⟨k, hlow, hhigh⟩ := exists_mem_Ico_zpow hpos (one_lt_two : (1 : ℚ) < 2)
    have hk : least + precision - 1 ≤ k := by
      have hlt := (zpow_lt_zpow_iff_right₀ (one_lt_two : (1 : ℚ) < 2)).mp
        (hx.trans_lt hhigh)
      omega
    have hhalf := h.dist_le_half (by omega : least ≤ k + 1 - precision)
      hnonneg hhigh
    calc
      |r - x| ≤ 2 ^ (k + 1 - precision) / 2 := hhalf
      _ = 2 ^ (-precision : Int) * 2 ^ k := by
        rw [div_eq_mul_inv, ← zpow_sub_one₀ two_ne_zero, ← zpow_add₀ two_ne_zero]
        congr 1
        ring
      _ ≤ 2 ^ (-precision : Int) * x :=
        mul_le_mul_of_nonneg_left hlow (zpow_pos two_pos _).le

private theorem dist_le_of_subnormal (h : IsNearest precision least x r)
    (hx : |x| < 2 ^ (least + precision)) : |r - x| ≤ 2 ^ (least - 1) := by
  wlog hnonneg : 0 ≤ x generalizing x r
  · have hopposite := this h.opposite (by rwa [abs_neg]) (by linarith)
    rwa [← abs_neg (-r - -x), neg_sub, sub_neg_eq_add, neg_add_eq_sub] at hopposite
  · rw [abs_of_nonneg hnonneg] at hx
    have hhalf := h.dist_le_half
      (by omega : least ≤ least + precision - precision) hnonneg hx
    rwa [add_sub_cancel_right, div_eq_mul_inv,
      ← zpow_sub_one₀ two_ne_zero] at hhalf

/-- The error of one rounding. -/
theorem dist_le_error (h : IsNearest precision least x r) :
    |r - x| ≤ 2 ^ (-precision : Int) * |x| + 2 ^ (least - 1) := by
  rcases le_or_gt (2 ^ (least + precision - 1)) |x| with hnormal | hsmall
  · exact (h.dist_le_of_normal hnormal).trans
      (le_add_of_nonneg_right (zpow_pos two_pos _).le)
  · have hlt : |x| < 2 ^ (least + precision) :=
      hsmall.trans (zpow_lt_zpow_right₀ one_lt_two (by omega))
    exact (h.dist_le_of_subnormal hlt).trans
      (le_add_of_nonneg_left (mul_nonneg (zpow_pos two_pos _).le (abs_nonneg x)))

/-- A small sum of two numbers of the format is one itself. -/
theorem dist_add_le {y : ℚ} (h : IsNearest precision least (x + y) r)
    (hx : Representable precision least x) (hy : Representable precision least y) :
    |r - (x + y)| ≤ 2 ^ (-precision : Int) * |x + y| := by
  rcases le_or_gt (2 ^ (least + precision - 1)) |x + y| with hnormal | hsmall
  · exact h.dist_le_of_normal hnormal
  · obtain ⟨i, hi⟩ := hx.multiple le_rfl
    obtain ⟨j, hj⟩ := hy.multiple le_rfl
    have hsum : x + y = ((i + j : Int) : ℚ) * 2 ^ least := by
      rw [hi, hj]
      push_cast
      ring
    have hlt : |x + y| < 2 ^ precision * 2 ^ least := by
      rw [← zpow_natCast, ← zpow_add₀ two_ne_zero]
      exact hsmall.trans (zpow_lt_zpow_right₀ one_lt_two (by omega))
    rw [hsum, abs_mul, abs_of_pos
      (zpow_pos two_pos least : (0 : ℚ) < 2 ^ least)] at hlt
    have hbits : |i + j| ≤ 2 ^ precision := by
      exact_mod_cast (lt_of_mul_lt_mul_right hlt (zpow_pos two_pos least).le).le
    have hexact := h.eq_of_representable (hsum ▸ .of_scaled hbits le_rfl)
    rw [hexact, sub_self, abs_zero]
    exact mul_nonneg (zpow_pos two_pos _).le (abs_nonneg _)

/-- Rounding keeps the multiples of a unit, where the format is at least that fine. -/
theorem multiple (h : IsNearest precision least x r) {unit : Int}
    (hunit : least ≤ unit) {k : Int} (hx : x = k * 2 ^ unit) :
    ∃ j : Int, r = j * 2 ^ unit := by
  wlog hpos : 0 ≤ k generalizing x r k
  · obtain ⟨j, hj⟩ := this h.opposite (k := -k)
      (by rw [hx]; push_cast; ring) (by omega)
    refine ⟨-j, ?_⟩
    push_cast
    linarith
  · rcases le_or_gt k (2 ^ precision) with hsmall | hlarge
    · rw [h.eq_of_representable
        (hx ▸ .of_scaled (by rwa [abs_of_nonneg hpos]) hunit)]
      exact ⟨k, hx⟩
    · have hcast : (2 : ℚ) ^ precision ≤ k := by
        exact_mod_cast hlarge.le
      have hbottom : 2 ^ precision * 2 ^ unit ≤ r := by
        have hrepresentable :
          Representable precision least ((2 ^ precision : Nat) * 2 ^ unit) :=
          .of_natCast le_rfl hunit
        push_cast at hrepresentable
        exact h.ge hrepresentable
          (hx ▸ mul_le_mul_of_nonneg_right hcast (zpow_pos two_pos _).le)
      obtain ⟨m, e, hm, -, hr⟩ := h.representable
      have hmTop : (m : ℚ) ≤ 2 ^ precision := by
        exact_mod_cast (le_abs_self m).trans hm
      have hexponent : unit ≤ e := by
        rw [← zpow_le_zpow_iff_right₀ (one_lt_two : (1 : ℚ) < 2)]
        have hchain : 2 ^ precision * (2 : ℚ) ^ unit ≤ 2 ^ precision * 2 ^ e :=
          hbottom.trans (hr ▸ mul_le_mul_of_nonneg_right hmTop
            (zpow_pos two_pos e).le)
        exact le_of_mul_le_mul_left hchain (by positivity)
      exact hr ▸ (Representable.of_scaled hm le_rfl).multiple hexponent

end IsNearest

/-! ## Sums -/

/-- The terms are added to the start one by one, each time with a relative error. -/
inductive RoundedSum (u : ℚ) : ℚ → List ℚ → ℚ → Prop
  | nil (s : ℚ) : RoundedSum u s [] s
  | cons {s term q r : ℚ} {terms : List ℚ}
      (hadd : |q - (s + term)| ≤ u * |s + term|)
      (hrest : RoundedSum u q terms r) : RoundedSum u s (term :: terms) r

def totalMagnitude (terms : List ℚ) : ℚ := (terms.map abs).sum

@[simp] theorem totalMagnitude_nil : totalMagnitude [] = 0 := rfl

@[simp] theorem totalMagnitude_cons (term : ℚ) (terms : List ℚ) :
    totalMagnitude (term :: terms) = |term| + totalMagnitude terms := by
  simp [totalMagnitude]

theorem totalMagnitude_nonneg (terms : List ℚ) : 0 ≤ totalMagnitude terms := by
  apply List.sum_nonneg
  simp

/-- The terms are themselves rounded. -/
theorem sum_dist_le {u η : ℚ} {terms exacts : List ℚ}
    (h : List.Forall₂ (fun term exact => |term - exact| ≤
      u * |exact| + η) terms exacts) :
    |terms.sum - exacts.sum| ≤ u * totalMagnitude exacts + terms.length * η ∧
      totalMagnitude terms ≤ (1 + u) * totalMagnitude exacts +
        terms.length * η := by
  induction h with
  | nil => simp
  | @cons term exact terms exacts hterm _ ih =>
      have hmagnitude : |term| ≤ |term - exact| + |exact| := by
        simpa using abs_add_le (term - exact) exact
      rw [List.sum_cons, List.sum_cons, totalMagnitude_cons,
        totalMagnitude_cons, List.length_cons]
      push_cast
      constructor
      · calc
          |term + terms.sum - (exact + exacts.sum)| =
              |(term - exact) + (terms.sum - exacts.sum)| := by
            congr 1
            ring
          _ ≤ |term - exact| + |terms.sum - exacts.sum| := abs_add_le _ _
          _ ≤ u * (|exact| + totalMagnitude exacts) + (terms.length + 1) * η := by
            linarith [ih.1]
      · linarith [ih.2]

section Bounds

variable {u : ℚ} (hu : 0 ≤ u)
include hu

/-- Every later rounding acts on all that is summed before it. -/
theorem RoundedSum.dist_le {s r : ℚ} {terms : List ℚ}
    (h : RoundedSum u s terms r) :
    |r - (s + terms.sum)| ≤
      ((1 + u) ^ terms.length - 1) * (|s| + totalMagnitude terms) := by
  induction h with
  | nil s => simp
  | @cons s term q r terms hadd hrest ih =>
      obtain ⟨total, htotal⟩ : ∃ total, totalMagnitude terms = total := ⟨_, rfl⟩
      obtain ⟨growth, hgrowth⟩ : ∃ growth, (1 + u) ^ terms.length = growth :=
        ⟨_, rfl⟩
      have hnonneg : 0 ≤ total := htotal ▸ totalMagnitude_nonneg terms
      have hone : 1 ≤ growth := hgrowth ▸ one_le_pow₀ (by linarith)
      have hsum : |s + term| ≤ |s| + |term| := abs_add_le s term
      have hq : |q| ≤ (1 + u) * (|s| + |term|) := by
        have hsplit : |q| ≤ |q - (s + term)| + |s + term| := by
          simpa using abs_add_le (q - (s + term)) (s + term)
        linarith [mul_le_mul_of_nonneg_left hsum hu]
      rw [htotal, hgrowth] at ih
      rw [List.sum_cons, List.length_cons, pow_succ, totalMagnitude_cons,
        htotal, hgrowth]
      have hlater : (growth - 1) * (|q| + total) ≤
          (growth - 1) * ((1 + u) * (|s| + |term|) + total) :=
        mul_le_mul_of_nonneg_left (by linarith) (by linarith)
      have hslack : 0 ≤ u * growth * total :=
        mul_nonneg (mul_nonneg hu (by linarith)) hnonneg
      calc
        |r - (s + (term + terms.sum))| = |(r - (q + terms.sum)) +
          (q - (s + term))| := by
          congr 1
          ring
        _ ≤ |r - (q + terms.sum)| + |q - (s + term)| := abs_add_le _ _
        _ ≤ (growth - 1) * ((1 + u) * (|s| + |term|) + total) +
            u * (|s| + |term|) := by
          linarith [mul_le_mul_of_nonneg_left hsum hu]
        _ ≤ (growth * (1 + u) - 1) * (|s| + (|term| + total)) := by linarith

private theorem pow_mul_le_one (hone : u ≤ 1) (count : Nat) :
    (1 + u) ^ count * (1 - count * u) ≤ 1 := by
  have hbernoulli : 1 - count * u ≤ (1 - u) ^ count := by
    have h := one_add_mul_le_pow (by linarith : -2 ≤ -u) count
    rwa [mul_neg, ← sub_eq_add_neg, ← sub_eq_add_neg] at h
  calc
    (1 + u) ^ count * (1 - count * u) ≤ (1 + u) ^ count * (1 - u) ^ count :=
      mul_le_mul_of_nonneg_left hbernoulli (pow_nonneg (by linarith) count)
    _ = (1 - u * u) ^ count := by
      rw [← mul_pow]
      congr 1
      ring
    _ ≤ 1 := pow_le_one₀ (by nlinarith) (by nlinarith)

/--
A sum of rounded terms, rounded after each, is off by little more than twice
the number of its terms times the relative error of one rounding.
-/
theorem RoundedSum.dist_le_of_small {η S r : ℚ} {terms exacts : List ℚ}
    (h : RoundedSum u 0 terms r)
    (hterms : List.Forall₂ (fun term exact => |term - exact| ≤
      u * |exact| + η) terms exacts)
    (hS : totalMagnitude exacts ≤ S) (hηS : η ≤ u * S) {count : Nat}
    (hcount : terms.length + 1 ≤ count) (hsmall : count * u ≤ 1 / 60) :
    |r - exacts.sum| ≤ 21 / 10 * (count * u) * S := by
  obtain ⟨g, hg⟩ : ∃ g, (count : ℚ) * u = g := ⟨_, rfl⟩
  obtain ⟨length, hlength⟩ : ∃ length, (terms.length : ℚ) = length := ⟨_, rfl⟩
  obtain ⟨growth, hgrowth⟩ : ∃ growth, (1 + u) ^ terms.length = growth := ⟨_, rfl⟩
  have hcast : length + 1 ≤ count := by
    rw [← hlength]
    exact_mod_cast hcount
  have hlengthNonneg : 0 ≤ length := hlength ▸ Nat.cast_nonneg _
  have hgu : length * u + u ≤ g := by
    rw [← hg]
    linarith [mul_le_mul_of_nonneg_right hcast hu]
  have hSnonneg : 0 ≤ S := (totalMagnitude_nonneg exacts).trans hS
  have hlu : 0 ≤ length * u := mul_nonneg hlengthNonneg hu
  have hgle : g ≤ 1 / 60 := hg ▸ hsmall
  have hone : 1 ≤ growth := hgrowth ▸ one_le_pow₀ (by linarith)
  have hpow : growth * (1 - length * u) ≤ 1 := by
    rw [← hgrowth, ← hlength]
    exact pow_mul_le_one hu (by linarith) terms.length
  have hfirst := h.dist_le hu
  obtain ⟨hdist, hmagnitude⟩ := sum_dist_le hterms
  rw [zero_add, abs_zero, zero_add, hgrowth] at hfirst
  rw [hlength] at hdist hmagnitude
  have hηlength : length * η ≤ length * u * S := by
    rw [mul_assoc]
    exact mul_le_mul_of_nonneg_left hηS hlengthNonneg
  have huS : u * totalMagnitude exacts ≤ u * S := mul_le_mul_of_nonneg_left hS hu
  have hgrow : (growth - 1) * totalMagnitude terms ≤
    (growth - 1) * ((1 + g) * S) := by
    apply mul_le_mul_of_nonneg_left _ (by linarith)
    linarith [mul_le_mul_of_nonneg_right hgu hSnonneg]
  have hlg : length * u ≤ g := by linarith
  have hgrowthTop : growth ≤ 60 / 59 := by
    linarith [mul_le_mul_of_nonneg_left (hlg.trans hgle)
      (by linarith : 0 ≤ growth)]
  have hgrowthLe : growth - 1 ≤ 60 / 59 * g := by
    linarith [mul_le_mul hgrowthTop hlg hlu (by norm_num)]
  have hbound : (growth - 1) * (1 + g) + g ≤ 21 / 10 * g := by
    have hg0 : 0 ≤ g := hlu.trans hlg
    linarith [mul_le_mul hgrowthLe hgle hg0 (by linarith : 0 ≤ 60 / 59 * g)]
  calc
    |r - exacts.sum| = |(r - terms.sum) + (terms.sum - exacts.sum)| := by
      congr 1
      ring
    _ ≤ |r - terms.sum| + |terms.sum - exacts.sum| := abs_add_le _ _
    _ ≤ (growth - 1) * ((1 + g) * S) + (length * u + u) * S := by linarith
    _ ≤ ((growth - 1) * (1 + g) + g) * S := by
      linarith [mul_le_mul_of_nonneg_right hgu hSnonneg]
    _ ≤ 21 / 10 * g * S := mul_le_mul_of_nonneg_right hbound hSnonneg
    _ = 21 / 10 * (count * u) * S := by rw [hg]

end Bounds

end Milona.Foundation.RoundToNearest
