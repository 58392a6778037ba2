import Milona.Foundation.Binary32Error
import Milona.Storage.Memory.ModerateVectors

/-!
# Accuracy of similarities

A similarity rounds every product, sum and square root, the product of the
norms and the quotient.  For moderate vectors whose norm is zero or not tiny it
is nevertheless within `scoreError` of the cosine of the two vectors: an error
proportional to the number of dimensions, below one in five thousand for the
384 dimensions of the embedder.
-/

namespace Milona.Storage.Memory

open Milona.Core Milona.Foundation
open Milona.Foundation.Binary32
open Milona.Foundation.RoundToNearest (totalMagnitude)

def scoreError (dimensions : Nat) : ℚ := (dimensions + 4) / 2 ^ 21

/-- A vector of a number of dimensions whose similarities are accurate. -/
structure Measured (dimensions : Nat) (vector : List Float32) : Prop where
  length_le : vector.length ≤ dimensions
  moderate : IsModerate vector
  norm : innerProduct (values vector) (values vector) = 0 ∨
    1 / 2 ^ 126 ≤ innerProduct (values vector) (values vector)

/-- The cosine of what two vectors stand for. -/
noncomputable def exactCosine (query vector : List Float32) : ℝ :=
  cosine (values query) (values vector)

namespace InMemoryVectorStore

/-! ## The budget of errors -/

/-- The relative error of a norm, where `g` is that of a sum of exact terms. -/
noncomputable def normError (g : ℝ) : ℝ :=
  1 / 2 ^ 22 + 21 / 10 * g + 1 / 2 ^ 22 * (21 / 10 * g)

/-- The relative error of the rounded product of two norms. -/
noncomputable def normsError (g : ℝ) : ℝ :=
  1 / 2 ^ 22 + (normError g + normError g + normError g * normError g) +
    1 / 2 ^ 22 * (normError g + normError g + normError g * normError g)

theorem normError_nonneg {g : ℝ} (hnonneg : 0 ≤ g) : 0 ≤ normError g := by
  rw [normError]
  positivity

theorem normError_le {g : ℝ} (hsmall : g ≤ 1 / 60) :
    normError g ≤ 21 / 10 * g + 11 / 10 * (1 / 2 ^ 22) := by
  rw [normError]
  linarith

section Budget

variable {g : ℝ} (hnonneg : 0 ≤ g) (hsmall : g ≤ 1 / 60)
include hnonneg hsmall

theorem product_normError_le :
    normError g + normError g + normError g * normError g ≤
      43 / 10 * g + 23 / 10 * (1 / 2 ^ 22) := by
  have hle := normError_le hsmall
  have htop : normError g ≤ 1 / 25 := hle.trans (by linarith)
  have hproduct := mul_le_mul_of_nonneg_left htop (normError_nonneg hnonneg)
  linarith

theorem normsError_le : normsError g ≤ 43 / 10 * g + 14 / 2 ^ 24 := by
  have hle := product_normError_le hnonneg hsmall
  rw [normsError]
  linarith

theorem normsError_small : normsError g ≤ 1 / 12 :=
  (normsError_le hnonneg hsmall).trans (by linarith)

/-- What is left of the budget pays for the last rounding. -/
theorem quotient_error_le :
    (21 / 10 * g + normsError g) / (1 - normsError g) ≤ 8 * g + 21 / 2 ^ 24 := by
  have hle := normsError_le hnonneg hsmall
  have htop := normsError_small hnonneg hsmall
  rw [div_le_iff₀ (by linarith)]
  have hbudget : (8 * g + 21 / 2 ^ 24) * normsError g ≤
    (8 * g + 21 / 2 ^ 24) * (1 / 12) :=
    mul_le_mul_of_nonneg_left htop (by positivity)
  linarith

end Budget

/-! ## Norms -/

theorem zipWith_self_eq_squares (vector : List Float32) :
    List.zipWith (· * ·) vector vector = squares vector :=
  List.zipWith_self

theorem value_norm_of_zero {vector : List Float32} (h : IsModerate vector)
    (hzero : innerProduct (values vector) (values vector) = 0) :
    value (sum (squares vector)).sqrt = some 0 := by
  apply value_sqrt_zero
  refine value_foldl_zeros rfl fun square hsquare => ?_
  obtain ⟨c, hc, rfl⟩ := List.mem_map.mp hsquare
  obtain ⟨x, hx, -⟩ := h c hc
  have hvalue : x = 0 := by
    have hmem : (value c).getD 0 ∈ values vector := List.mem_map_of_mem hc
    rw [Option.mem_def.mp hx] at hmem
    exact eq_zero_of_innerProduct_self hzero x hmem
  rw [hvalue] at hx
  obtain ⟨r, hr, hnearest⟩ := value_mul hx hx (by norm_num)
  rw [mul_zero] at hnearest
  rw [hr, hnearest.eq_of_representable .zero]

section Accuracy

variable {dimensions : Nat} (hdimensions : dimensions ≤ 2 ^ 18)
include hdimensions

theorem dimensions_error_le :
    ((dimensions + 1 : Nat) : ℚ) * (1 / 2 ^ 24) ≤ 1 / 60 := by
  have hcast : ((dimensions + 1 : Nat) : ℚ) ≤ 2 ^ 18 + 1 := by
    exact_mod_cast Nat.succ_le_succ hdimensions
  linarith

theorem dimensions_error_real_le :
    ((dimensions + 1 : Nat) : ℝ) * (1 / 2 ^ 24) ≤ 1 / 60 := by
  have hcast := (Rat.cast_le (K := ℝ)).mpr (dimensions_error_le hdimensions)
  push_cast at hcast ⊢
  exact hcast

theorem value_norm_near {vector : List Float32} (h : Measured dimensions vector)
    (hne : innerProduct (values vector) (values vector) ≠ 0) :
    ∃ r, value (sum (squares vector)).sqrt = some r ∧
      Near (normError ((dimensions + 1 : Nat) * (1 / 2 ^ 24))) r
        (euclideanNorm (values vector)) := by
  obtain ⟨total, htotal⟩ : ∃ total,
    innerProduct (values vector) (values vector) = total := ⟨_, rfl⟩
  have hleast : 1 / 2 ^ 126 ≤ total := htotal ▸ h.norm.resolve_left hne
  have hleastReal : (1 : ℝ) / 2 ^ 126 ≤ total := by
    have hcast := (Rat.cast_le (K := ℝ)).mpr hleast
    push_cast at hcast
    exact hcast
  have hsmall := dimensions_error_real_le hdimensions
  obtain ⟨q, hq, hdist⟩ :=
    value_foldl_products (rfl : value (-0.0) = some 0) h.moderate h.moderate
    (Nat.succ_le_succ h.length_le) (dimensions_error_le hdimensions)
    (totalMagnitude_squares (values vector) ▸ le_rfl) (htotal ▸ hleastReal)
  rw [zipWith_self_eq_squares] at hq
  rw [htotal] at hdist
  have hnear : Near (21 / 10 * ((dimensions + 1 : Nat) * (1 / 2 ^ 24)))
    q total := hdist
  have hlow : 1 / 2 ^ 128 ≤ q := by
    have hge := hnear.ge
    have hscaled : (1 / 4 : ℝ) * (1 / 2 ^ 126) ≤
        (1 - 21 / 10 * ((dimensions + 1 : Nat) * (1 / 2 ^ 24))) * total :=
      mul_le_mul (by linarith) hleastReal (by positivity) (by linarith)
    have hreal : ((1 / 2 ^ 128 : ℚ) : ℝ) ≤ q := by
      push_cast
      linarith
    exact_mod_cast hreal
  have hhigh : q ≤ 2 ^ (126 : Int) := by
    obtain ⟨s, hs, -, hbound, -⟩ := value_sum_squares h.moderate
    rw [show q = s from Option.some.inj (hq.symm.trans hs)]
    exact hbound.trans (RoundToNearest.two_zpow_le (by omega))
  obtain ⟨r, hr, -, hroot⟩ := value_sqrt_near hq hlow hhigh
  have hqNonneg : (0 : ℝ) ≤ q := by
    exact_mod_cast le_trans (by norm_num : (0 : ℚ) ≤ 1 / 2 ^ 128) hlow
  have htotalNonneg : (0 : ℝ) ≤ total := le_trans (by positivity) hleastReal
  refine ⟨r, hr, ?_⟩
  rw [euclideanNorm, htotal]
  exact hroot.after (hnear.sqrt hqNonneg htotalNonneg) (by positivity)

/-! ## Scores -/

theorem value_dot_near {a b : List Float32} (ha : Measured dimensions a)
    (hb : Measured dimensions b)
    (hleast : 1 / 2 ^ 126 ≤ euclideanNorm (values a) * euclideanNorm (values b)) :
    ∃ r, value (sum (List.zipWith (· * ·) a b)) = some r ∧
      |(r : ℝ) - innerProduct (values a) (values b)| ≤
        21 / 10 * ((dimensions + 1 : Nat) * (1 / 2 ^ 24)) *
          (euclideanNorm (values a) * euclideanNorm (values b)) :=
  value_foldl_products rfl ha.moderate hb.moderate (Nat.succ_le_succ ha.length_le)
    (dimensions_error_le hdimensions) (totalMagnitude_le_norms _ _) hleast

omit hdimensions in
theorem norm_ge {vector : List Float32} (h : Measured dimensions vector)
    (hne : innerProduct (values vector) (values vector) ≠ 0) :
    1 / 2 ^ 63 ≤ euclideanNorm (values vector) := by
  have hleast := (Rat.cast_le (K := ℝ)).mpr (h.norm.resolve_left hne)
  push_cast at hleast
  apply Real.le_sqrt_of_sq_le
  refine le_trans (le_of_eq ?_) hleast
  norm_num

theorem value_norm_ne_zero {vector : List Float32} (h : Measured dimensions vector)
    (hne : innerProduct (values vector) (values vector) ≠ 0) {x : ℚ}
    (hx : value (sum (squares vector)).sqrt = some x) : x ≠ 0 := by
  obtain ⟨r, hr, hnear⟩ := value_norm_near hdimensions h hne
  have hsmall := dimensions_error_real_le hdimensions
  have hrelative := normError_le hsmall
  have hpos : 0 < euclideanNorm (values vector) :=
    lt_of_lt_of_le (by positivity) (norm_ge h hne)
  have hrPos : (0 : ℝ) < r := lt_of_lt_of_le (mul_pos (by linarith) hpos) hnear.ge
  rw [Option.some.inj (hx.symm.trans hr)]
  exact_mod_cast hrPos.ne'

theorem value_mul_norms_near {a b : List Float32} (ha : Measured dimensions a)
    (hb : Measured dimensions b) (hane : innerProduct (values a) (values a) ≠ 0)
    (hbne : innerProduct (values b) (values b) ≠ 0) :
    ∃ r, value ((sum (squares a)).sqrt * (sum (squares b)).sqrt) = some r ∧
      Near (normsError ((dimensions + 1 : Nat) * (1 / 2 ^ 24))) r
        (euclideanNorm (values a) * euclideanNorm (values b)) := by
  have hsmall := dimensions_error_real_le hdimensions
  obtain ⟨g, hg⟩ : ∃ g : ℝ, (dimensions + 1 : Nat) * (1 / 2 ^ 24) = g := ⟨_, rfl⟩
  have hgNonneg : 0 ≤ g := hg ▸ by positivity
  obtain ⟨x, hx, hxNear⟩ := value_norm_near hdimensions ha hane
  obtain ⟨y, hy, hyNear⟩ := value_norm_near hdimensions hb hbne
  rw [hg] at hsmall hxNear hyNear ⊢
  have hproduct := hxNear.mul hyNear (normError_nonneg hgNonneg)
    (euclideanNorm_nonneg _) (euclideanNorm_nonneg _)
  have hnorms : (1 : ℝ) / 2 ^ 63 * (1 / 2 ^ 63) ≤
      euclideanNorm (values a) * euclideanNorm (values b) :=
    mul_le_mul (norm_ge ha hane) (norm_ge hb hbne) (by positivity)
      (euclideanNorm_nonneg _)
  have hlow : 1 / 2 ^ 127 ≤ x * y := by
    have hle := product_normError_le hgNonneg hsmall
    have hscaled : (1 / 2 : ℝ) * (1 / 2 ^ 63 * (1 / 2 ^ 63)) ≤
        (1 - (normError g + normError g + normError g * normError g)) *
          (euclideanNorm (values a) * euclideanNorm (values b)) :=
      mul_le_mul (by linarith) hnorms (by positivity) (by linarith)
    have hreal : ((1 / 2 ^ 127 : ℚ) : ℝ) ≤ ((x * y : ℚ) : ℝ) := by
      push_cast
      linarith [hproduct.ge]
    exact_mod_cast hreal
  have hhigh : |x * y| ≤ 2 ^ (127 : Int) := by
    obtain ⟨x', hx', hxTop, -⟩ := value_norm ha.moderate
    obtain ⟨y', hy', hyTop, hyLeast⟩ := value_norm hb.moderate
    cases hx.symm.trans hx'
    cases hy.symm.trans hy'
    have hyNonneg : 0 ≤ y :=
      hyLeast.elim (fun h => h.ge) fun h => le_trans (by norm_num) h
    rw [abs_of_nonneg (le_trans (by norm_num) hlow)]
    exact (mul_le_mul hxTop hyTop hyNonneg (by norm_num)).trans (by norm_num)
  obtain ⟨r, hr, hnearest⟩ := value_mul hx hy hhigh
  have hround := hnearest.near hlow
  rw [Rat.cast_mul] at hround
  exact ⟨r, hr, hround.after hproduct (by positivity)⟩

omit hdimensions in
theorem cosineSimilarity_eq {a b : List Float32} {x y : ℚ}
    (hx : value (sum (squares a)).sqrt = some x)
    (hy : value (sum (squares b)).sqrt = some y) :
    cosineSimilarity a b = if x = 0 ∨ y = 0 then 0.0
      else sum (List.zipWith (· * ·) a b) /
        ((sum (squares a)).sqrt * (sum (squares b)).sqrt) := by
  have hnorms : ((sum (squares a)).sqrt == 0.0 ||
    (sum (squares b)).sqrt == 0.0) = true ↔
      x = 0 ∨ y = 0 := by
    rw [Bool.or_eq_true, beq_zero_iff hx, beq_zero_iff hy]
  exact if_congr hnorms rfl rfl

omit hdimensions in
private theorem cosineSimilarity_of_zero {a b : List Float32}
    (ha : Measured dimensions a) (hb : Measured dimensions b)
    (hzero : innerProduct (values a) (values a) = 0 ∨
      innerProduct (values b) (values b) = 0) :
    value (cosineSimilarity a b) = some 0 := by
  obtain ⟨x, hx, -⟩ := value_norm ha.moderate
  obtain ⟨y, hy, -⟩ := value_norm hb.moderate
  have hnorms : x = 0 ∨ y = 0 := hzero.imp
    (fun h => Option.some.inj (hx.symm.trans (value_norm_of_zero ha.moderate h)))
    fun h => Option.some.inj (hy.symm.trans (value_norm_of_zero hb.moderate h))
  rw [cosineSimilarity_eq hx hy, if_pos hnorms]
  rfl

/-- The rounded dot product over the rounded norms, before the division is rounded. -/
theorem quotient_accurate {a b : List Float32} (ha : Measured dimensions a)
    (hb : Measured dimensions b) (hane : innerProduct (values a) (values a) ≠ 0)
    (hbne : innerProduct (values b) (values b) ≠ 0) :
    ∃ d t, value (sum (List.zipWith (· * ·) a b)) = some d ∧
      value ((sum (squares a)).sqrt * (sum (squares b)).sqrt) = some t ∧ t ≠ 0 ∧
      |(d : ℝ) / t - exactCosine a b| ≤
        8 * ((dimensions + 1 : Nat) * (1 / 2 ^ 24)) + 21 / 2 ^ 24 := by
  obtain ⟨g, hg⟩ : ∃ g : ℝ, (dimensions + 1 : Nat) * (1 / 2 ^ 24) = g := ⟨_, rfl⟩
  obtain ⟨s, hs⟩ : ∃ s,
    euclideanNorm (values a) * euclideanNorm (values b) = s := ⟨_, rfl⟩
  have hgNonneg : 0 ≤ g := hg ▸ by positivity
  have hsLow : (1 : ℝ) / 2 ^ 63 * (1 / 2 ^ 63) ≤ s := hs ▸
    mul_le_mul (norm_ge ha hane) (norm_ge hb hbne) (by positivity)
      (euclideanNorm_nonneg _)
  have hsPos : 0 < s := lt_of_lt_of_le (by positivity) hsLow
  have hsmall := dimensions_error_real_le hdimensions
  obtain ⟨d, hd, hdNear⟩ := value_dot_near hdimensions ha hb
    (hs ▸ le_trans (le_of_eq (by norm_num)) hsLow)
  obtain ⟨t, ht, htNear⟩ := value_mul_norms_near hdimensions ha hb hane hbne
  have hcauchy := abs_innerProduct_le (values a) (values b)
  rw [hg] at hsmall hdNear htNear ⊢
  rw [hs] at hdNear htNear hcauchy
  have hnorms := normsError_small hgNonneg hsmall
  have htPos : (0 : ℝ) < t :=
    lt_of_lt_of_le (mul_pos (by linarith) hsPos) htNear.ge
  have htNe : t ≠ 0 := by
    rintro rfl
    exact absurd htPos (by norm_num)
  have hquotient := abs_div_sub_le hsPos hcauchy hdNear htNear
    (hnorms.trans_lt (by norm_num))
  have hcosine : (innerProduct (values a) (values b) : ℝ) / s =
    exactCosine a b := by
    rw [exactCosine, cosine, hs]
  rw [hcosine] at hquotient
  exact ⟨d, t, hd, ht, htNe, hquotient.trans (quotient_error_le hgNonneg hsmall)⟩

/-- The score of two measured vectors is within the error of their cosine. -/
theorem cosineSimilarity_accurate {a b : List Float32} (ha : Measured dimensions a)
    (hb : Measured dimensions b) :
    ∃ r, value (cosineSimilarity a b) = some r ∧
      |(r : ℝ) - exactCosine a b| ≤ scoreError dimensions := by
  have herror : (scoreError dimensions : ℝ) =
      8 * ((dimensions + 1 : Nat) * (1 / 2 ^ 24)) + 24 / 2 ^ 24 := by
    rw [scoreError]
    push_cast
    ring
  rw [herror]
  by_cases hzero : innerProduct (values a) (values a) = 0 ∨
    innerProduct (values b) (values b) = 0
  · refine ⟨0, cosineSimilarity_of_zero ha hb hzero, ?_⟩
    rw [exactCosine, cosine_of_zero hzero, Rat.cast_zero, sub_zero, abs_zero]
    positivity
  · obtain ⟨hane, hbne⟩ := not_or.mp hzero
    obtain ⟨x, hx, -⟩ := value_norm ha.moderate
    obtain ⟨y, hy, -⟩ := value_norm hb.moderate
    obtain ⟨d, t, hd, ht, htNe, hquotient⟩ :=
      quotient_accurate hdimensions ha hb hane hbne
    have htop : |(d : ℝ) / t| ≤ 2 := by
      have hone : |exactCosine a b| ≤ 1 := abs_cosine_le_one _ _
      have hsplit : |(d : ℝ) / t| ≤
          |(d : ℝ) / t - exactCosine a b| + |exactCosine a b| := by
        simpa using abs_add_le ((d : ℝ) / t - exactCosine a b) (exactCosine a b)
      have hsmall := dimensions_error_real_le hdimensions
      linarith
    have htopRat : |d / t| ≤ 2 := by
      exact_mod_cast htop
    obtain ⟨r, hr, hnearest⟩ := value_div hd ht htNe (htopRat.trans (by norm_num))
    have hround : |r - d / t| ≤ 3 / 2 ^ 24 := by
      have hdist := hnearest.dist_le
      linarith
    have hroundReal := (Rat.cast_le (K := ℝ)).mpr hround
    push_cast at hroundReal
    refine ⟨r, ?_, ?_⟩
    · rw [cosineSimilarity_eq hx hy, if_neg]
      · exact hr
      · exact not_or.mpr ⟨value_norm_ne_zero hdimensions ha hane hx,
          value_norm_ne_zero hdimensions hb hbne hy⟩
    · calc
        |(r : ℝ) - exactCosine a b| ≤
            |(r : ℝ) - d / t| + |(d : ℝ) / t - exactCosine a b| :=
          abs_sub_le _ _ _
        _ ≤ 8 * ((dimensions + 1 : Nat) * (1 / 2 ^ 24)) + 24 / 2 ^ 24 := by
            linarith

end Accuracy

end InMemoryVectorStore

end Milona.Storage.Memory
