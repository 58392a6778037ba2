import Milona.Foundation.Binary32
import Milona.Foundation.Cosine

/-!
# Errors of single-precision arithmetic

The rounding errors of `RoundingError` at the single-precision format, where
one rounding errs by a fraction `1 / 2 ^ 24`.  A sum of products of bounded
components is compared with the exact dot product, and a square root with the
real one.
-/

namespace Milona.Foundation.Binary32

open RoundToNearest
open Float.Model (Format)

/-- What the components of a vector stand for. -/
def values (vector : List Float32) : List ℚ :=
  vector.map fun component => (value component).getD 0

@[simp] theorem values_cons (component : Float32) (vector : List Float32) :
    values (component :: vector) = (value component).getD 0 :: values vector := rfl

theorem unitRoundoff_eq :
    (2 : ℚ) ^ (-Format.binary32.mantissaBits : Int) = 1 / 2 ^ 24 := by
  change (2 : ℚ) ^ (-24 : Int) = 1 / 2 ^ 24
  norm_num

theorem Nearest.dist_le {x r : ℚ} (h : Nearest x r) :
    |r - x| ≤ 1 / 2 ^ 24 * |x| + 1 / 2 ^ 150 := by
  have hleast : (2 : ℚ) ^ (Format.binary32.minExponent - 1) = 1 / 2 ^ 150 := by
    change (2 : ℚ) ^ (-150 : Int) = 1 / 2 ^ 150
    norm_num
  have hdist := IsNearest.dist_le_error h
  rwa [unitRoundoff_eq, hleast] at hdist

theorem le_iff {a b : Float32} {x y : ℚ} (ha : value a = some x)
    (hb : value b = some y) :
    a ≤ b ↔ x ≤ y := by
  have hcompare := FloatArithmetic.compare_eq (isFinite_of_value ha)
    (isFinite_of_value hb)
  have hle : a ≤ b ↔ a.toModel.unpack.le b.toModel.unpack = true :=
    decide_eq_true_iff
  rw [hle, Float.Model.UnpackedFloat.le, hcompare]
  rcases lt_trichotomy x y with h | h | h
  · simp [compare_lt_iff_lt.mpr h, h.le]
  · simp [compare_eq_iff_eq.mpr h, h.le]
  · simp [compare_gt_iff_gt.mpr h, h]

/-! ## Sums of products -/

theorem roundedSum_foldl_add {top : Int} (hmin : -149 ≤ top) (hmax : top ≤ 126)
    {s : Float32} {x : ℚ} (hs : value s = some x) (hx : |x| ≤ 2 ^ top)
    {terms : List Float32} {ys : List ℚ}
    (hterms : List.Forall₂ (fun a y => value a = some y ∧
      |y| ≤ 2 ^ (top - 25)) terms ys) :
    ∃ r, value (terms.foldl (· + ·) s) = some r ∧
    RoundedSum (1 / 2 ^ 24) x ys r := by
  induction hterms generalizing s x with
  | nil => exact ⟨x, hs, .nil x⟩
  | @cons a y terms ys hterm _ ih =>
      obtain ⟨q, hq, hnearest, hbound⟩ :=
        value_add_of_bounded hmin hmax hs hterm.1 hx hterm.2
      obtain ⟨r, hr, hsum⟩ := ih hq hbound
      have hadd := IsNearest.dist_add_le hnearest (isSingle_of_value hs)
        (isSingle_of_value hterm.1)
      rw [unitRoundoff_eq] at hadd
      exact ⟨r, hr, .cons hadd hsum⟩

private theorem exists_products {a b : List Float32}
    (ha : ∀ c ∈ a, IsBounded (2 ^ (50 : Int)) c)
    (hb : ∀ c ∈ b, IsBounded (2 ^ (50 : Int)) c) :
    ∃ ys, List.Forall₂ (fun p y => value p = some y ∧ |y| ≤ 2 ^ (125 - 25 : Int))
        (List.zipWith (· * ·) a b) ys ∧
      List.Forall₂ (fun y exact => |y - exact| ≤
        1 / 2 ^ 24 * |exact| + 1 / 2 ^ 150)
        ys (List.zipWith (· * ·) (values a) (values b)) := by
  induction a generalizing b with
  | nil => exact ⟨[], .nil, .nil⟩
  | cons c a ih =>
      cases b with
      | nil => exact ⟨[], .nil, .nil⟩
      | cons d b =>
          obtain ⟨hc, ha⟩ := List.forall_mem_cons.mp ha
          obtain ⟨hd, hb⟩ := List.forall_mem_cons.mp hb
          obtain ⟨ys, hvalues, herrors⟩ := ih ha hb
          have hproduct : IsBounded (2 ^ (50 + 50 : Int)) (c * d) :=
            isBounded_mul hc hd (by omega) (by omega)
          obtain ⟨x, hx, hxBound⟩ := hc
          obtain ⟨y, hy, hyBound⟩ := hd
          have hsmall : |x * y| ≤ 2 ^ (127 : Int) := by
            rw [abs_mul]
            exact (mul_le_mul hxBound hyBound (abs_nonneg y)
                (two_zpow_pos 50).le).trans
              (by norm_num)
          obtain ⟨r, hr, hnearest⟩ := value_mul hx hy hsmall
          obtain ⟨r', hr', hrBound⟩ := hproduct
          cases hr.symm.trans hr'
          refine ⟨r :: ys, .cons ⟨hr, hrBound⟩ hvalues, ?_⟩
          rw [values_cons, values_cons, List.zipWith_cons_cons,
            Option.mem_def.mp hx,
            Option.mem_def.mp hy]
          exact .cons hnearest.dist_le herrors

private theorem length_products_le {a b : List Float32} {ys : List ℚ}
    {P : Float32 → ℚ → Prop}
    (h : List.Forall₂ P (List.zipWith (· * ·) a b) ys) :
    ys.length ≤ a.length := by
  rw [← h.length_eq, List.length_zipWith]
  exact min_le_left _ _

/-- The error of a dot product, against any bound of the magnitudes of its terms. -/
theorem value_foldl_products {start : Float32} (hstart : value start = some 0)
    {a b : List Float32} (ha : ∀ c ∈ a, IsBounded (2 ^ (50 : Int)) c)
    (hb : ∀ c ∈ b, IsBounded (2 ^ (50 : Int)) c) {count : Nat}
    (hcount : a.length + 1 ≤ count)
    (hsmall : (count : ℚ) * (1 / 2 ^ 24) ≤ 1 / 60) {S : ℝ}
    (hS : totalMagnitude (List.zipWith (· * ·) (values a) (values b)) ≤ S)
    (hleast : 1 / 2 ^ 126 ≤ S) :
    ∃ r, value ((List.zipWith (· * ·) a b).foldl (· + ·) start) = some r ∧
      |(r : ℝ) - innerProduct (values a) (values b)| ≤
        21 / 10 * (count * (1 / 2 ^ 24)) * S := by
  obtain ⟨ys, hvalues, herrors⟩ := exists_products ha hb
  obtain ⟨r, hr, hsum⟩ :=
    roundedSum_foldl_add (by omega : -149 ≤ (125 : Int)) (by omega) hstart
    (by norm_num) hvalues
  refine ⟨r, hr, ?_⟩
  -- a rational bound between the magnitudes and `S`
  obtain ⟨total, htotal⟩ : ∃ total,
      totalMagnitude (List.zipWith (· * ·) (values a) (values b)) = total :=
        ⟨_, rfl⟩
  rw [htotal] at hS
  have hbound := hsum.dist_le_of_small (by norm_num) herrors
    (htotal.le.trans (le_max_left total (1 / 2 ^ 126)))
    (le_trans (by norm_num)
        (mul_le_mul_of_nonneg_left (le_max_right total (1 / 2 ^ 126))
      (by norm_num)))
    ((Nat.succ_le_succ (length_products_le hvalues)).trans hcount) hsmall
  have hmax : max (total : ℝ) (1 / 2 ^ 126) ≤ S := max_le hS hleast
  change |r - innerProduct (values a) (values b)| ≤ _ at hbound
  have hcast := (Rat.cast_le (K := ℝ)).mpr hbound
  push_cast at hcast
  exact hcast.trans (mul_le_mul_of_nonneg_left hmax (by positivity))

theorem value_foldl_zeros {start : Float32} (hstart : value start = some 0)
    {terms : List Float32} (hterms : ∀ a ∈ terms, value a = some 0) :
    value (terms.foldl (· + ·) start) = some 0 := by
  induction terms generalizing start with
  | nil => exact hstart
  | cons a terms ih =>
      obtain ⟨ha, hterms⟩ := List.forall_mem_cons.mp hterms
      obtain ⟨r, hr, hnearest⟩ := value_add hstart ha (by norm_num)
      rw [add_zero] at hnearest
      rw [hnearest.eq_of_representable .zero] at hr
      exact ih hr hterms

/-! ## Operations on positive numbers -/

/-- From a number on that is not too small, the error is relative. -/
theorem Nearest.near {x r : ℚ} (h : Nearest x r) (hx : 1 / 2 ^ 127 ≤ x) :
    Near (1 / 2 ^ 22) r x := by
  have hpos : (0 : ℚ) < 1 / 2 ^ 127 := by norm_num
  have hdist := h.dist_le
  rw [abs_of_pos (hpos.trans_le hx)] at hdist
  have hrelative : |r - x| ≤ 1 / 2 ^ 22 * x := by
    have hleast : (2 : ℚ) ^ (-150 : Int) ≤ 1 / 2 ^ 23 * x :=
      le_trans (by norm_num) (mul_le_mul_of_nonneg_left hx (by norm_num))
    have hfirst : (2 : ℚ) ^ (-24 : Int) * x + 1 / 2 ^ 23 * x ≤ 1 / 2 ^ 22 * x := by
      rw [← add_mul]
      exact mul_le_mul_of_nonneg_right (by norm_num) (hpos.le.trans hx)
    linarith
  have hcast := (Rat.cast_le (K := ℝ)).mpr hrelative
  push_cast at hcast
  exact hcast

theorem value_sqrt_zero {a : Float32} (ha : value a = some 0) :
    value a.sqrt = some 0 := by
  obtain ⟨y, r, hr, hnearest, hlow, hhigh⟩ := value_sqrt ha le_rfl le_rfl
    (by rw [zero_mul]) (by rw [zero_mul]) (two_zpow_pos 127).le
  rw [le_antisymm hhigh hlow] at hnearest
  rw [hr, hnearest.eq_of_representable .zero]

/-- A square root is computed from rational bounds that may be as close as we like. -/
theorem value_sqrt_near {a : Float32} {x : ℚ} (ha : value a = some x)
    (hlow : 1 / 2 ^ 128 ≤ x) (hhigh : x ≤ 2 ^ (126 : Int)) :
    ∃ r, value a.sqrt = some r ∧ 0 ≤ r ∧ Near (1 / 2 ^ 22) r √(x : ℝ) := by
  obtain ⟨root, hroot⟩ : ∃ root, √(x : ℝ) = root := ⟨_, rfl⟩
  have hxNonneg : (0 : ℝ) ≤ x := by
    exact_mod_cast le_trans (by norm_num : (0 : ℚ) ≤ 1 / 2 ^ 128) hlow
  have hsquare : root * root = x := hroot ▸ Real.mul_self_sqrt hxNonneg
  have hrootLow : 1 / 2 ^ 64 ≤ root := by
    rw [← hroot]
    apply Real.le_sqrt_of_sq_le
    have hcast : ((1 / 2 ^ 128 : ℚ) : ℝ) ≤ x := by exact_mod_cast hlow
    refine le_trans (le_of_eq ?_) hcast
    norm_num
  have hrootPos : 0 < root := lt_of_lt_of_le (by positivity) hrootLow
  have hrootHigh : root ≤ 2 ^ (63 : Int) := by
    rw [← hroot]
    apply Real.sqrt_le_iff.mpr
    have hcast : (x : ℝ) ≤ ((2 ^ (126 : Int) : ℚ) : ℝ) := by exact_mod_cast hhigh
    refine ⟨by positivity, hcast.trans (le_of_eq ?_)⟩
    norm_num
  have hslack : 0 < 1 / 2 ^ 24 * root := mul_pos (by positivity) hrootPos
  obtain ⟨low, hlowAbove, hlowBelow⟩ :=
    exists_rat_btwn (by linarith : root - 1 / 2 ^ 24 * root < root)
  obtain ⟨high, hhighAbove, hhighBelow⟩ :=
    exists_rat_btwn (by linarith : root < root + 1 / 2 ^ 24 * root)
  have hlowNonneg : (0 : ℝ) ≤ low := by
    have hunit : 1 / 2 ^ 24 * root ≤ root :=
      mul_le_of_le_one_left hrootPos.le (by norm_num)
    linarith
  have hhighTop : (high : ℝ) ≤ 2 ^ (127 : Int) := by
    have hdouble : 1 / 2 ^ 24 * root ≤ root :=
      mul_le_of_le_one_left hrootPos.le (by norm_num)
    refine (hhighBelow.le.trans (by linarith : _ ≤ root + root)).trans ?_
    exact (add_le_add hrootHigh hrootHigh).trans (by norm_num)
  have hlowSquare : (low : ℝ) * low ≤ x := hsquare ▸
    mul_self_le_mul_self hlowNonneg hlowBelow.le
  have hhighSquare : (x : ℝ) ≤ high * high := hsquare ▸
    mul_self_le_mul_self hrootPos.le hhighAbove.le
  obtain ⟨y, r, hr, hnearest, hylow, hyhigh⟩ := value_sqrt ha
    (by exact_mod_cast hlowNonneg : 0 ≤ low)
    (by exact_mod_cast (hlowBelow.trans hhighAbove).le : low ≤ high)
    (by exact_mod_cast hlowSquare) (by exact_mod_cast hhighSquare)
    (by exact_mod_cast hhighTop)
  have hyNonneg : 0 ≤ y := le_trans (by exact_mod_cast hlowNonneg) hylow
  refine ⟨r, hr, hnearest.ge .zero hyNonneg, ?_⟩
  have hround : |(r : ℝ) - y| ≤ 1 / 2 ^ 24 * y + 1 / 2 ^ 150 := by
    have hdist := hnearest.dist_le
    rw [abs_of_nonneg hyNonneg] at hdist
    have hcast := (Rat.cast_le (K := ℝ)).mpr hdist
    push_cast at hcast
    exact hcast
  have hylowReal : (low : ℝ) ≤ y := by exact_mod_cast hylow
  have hyhighReal : (y : ℝ) ≤ high := by exact_mod_cast hyhigh
  have hyroot : |(y : ℝ) - root| ≤ 1 / 2 ^ 24 * root :=
    abs_le.mpr ⟨by linarith, by linarith⟩
  have hleast : 1 / 2 ^ 150 ≤ 1 / 2 ^ 24 * root :=
    le_trans (by norm_num) (mul_le_mul_of_nonneg_left hrootLow (by positivity))
  rw [hroot, Near]
  calc
    |(r : ℝ) - root| ≤ |(r : ℝ) - y| + |(y : ℝ) - root| := abs_sub_le _ _ _
    _ ≤ 4 * (1 / 2 ^ 24 * root) := by linarith
    _ = 1 / 2 ^ 22 * root := by
      rw [← mul_assoc]
      norm_num

end Milona.Foundation.Binary32
