import Mathlib.Algebra.Order.Archimedean.Basic
import Mathlib.Tactic.Linarith

/-!
# Rounding to the nearest number of a format

A format has the numbers that are an integer of at most `precision` bits times
a power of two no less than `2 ^ least`.  A rounding of a rational number is a
nearest one among them.  It keeps the number's place among the numbers of the
format, leaves these where they are, and does not leave a power of two for a
term below half the spacing there.  Where ties go to the even number, the
numbers that are rounded to either side of a power of two are known exactly.
-/

namespace Milona.Foundation.RoundToNearest

/-! ## Powers of two -/

theorem two_zpow_pos (exponent : Int) : (0 : ℚ) < 2 ^ exponent :=
  zpow_pos two_pos exponent

theorem two_zpow_add (first second : Int) :
    (2 : ℚ) ^ (first + second) = 2 ^ first * 2 ^ second :=
  zpow_add₀ two_ne_zero first second

theorem two_pow_mul_zpow (k : Nat) (exponent : Int) :
    (2 : ℚ) ^ k * 2 ^ exponent = 2 ^ (exponent + k) := by
  rw [two_zpow_add, zpow_natCast, mul_comm]

theorem two_pow_mul_zpow_sub (k : Nat) (exponent : Int) :
    (2 : ℚ) ^ k * 2 ^ (exponent - k) = 2 ^ exponent := by
  rw [two_pow_mul_zpow, sub_add_cancel]

theorem two_zpow_le {first second : Int} (h : first ≤ second) :
    (2 : ℚ) ^ first ≤ 2 ^ second :=
  zpow_le_zpow_right₀ one_le_two h

/-! ## Numbers of a format -/

def Representable (precision : Nat) (least : Int) (x : ℚ) : Prop :=
  ∃ mantissa exponent : Int, |mantissa| ≤ 2 ^ precision ∧ least ≤ exponent ∧
    x = mantissa * 2 ^ exponent

structure IsNearest (precision : Nat) (least : Int) (x r : ℚ) : Prop where
  representable : Representable precision least r
  dist_le : ∀ z, Representable precision least z → |r - x| ≤ |z - x|

/-- The nearest number, and of two the one that is an even multiple of their distance. -/
structure IsTiesToEven (precision : Nat) (least : Int) (x r : ℚ) : Prop
    extends IsNearest precision least x r where
  even_of_tie : ∀ z, Representable precision least z → z ≠ r → |z - x| = |r - x| →
    ∃ k : Int, r = 2 * k * |z - r|

variable {precision : Nat} {least : Int}

namespace Representable

theorem scaled_le {mantissa : Int} (hmantissa : |mantissa| ≤ 2 ^ precision)
    (exponent : Int) :
    (mantissa : ℚ) * 2 ^ exponent ≤ 2 ^ (exponent + precision) := by
  have hle : (mantissa : ℚ) ≤ 2 ^ precision := by
    exact_mod_cast (le_abs_self mantissa).trans hmantissa
  rw [← two_pow_mul_zpow]
  exact mul_le_mul_of_nonneg_right hle (two_zpow_pos exponent).le

theorem of_scaled {mantissa : Int} (hmantissa : |mantissa| ≤ 2 ^ precision)
    {exponent : Int} (h : least ≤ exponent) :
    Representable precision least (mantissa * 2 ^ exponent) :=
  ⟨mantissa, exponent, hmantissa, h, rfl⟩

theorem of_natCast {n : Nat} (hn : n ≤ 2 ^ precision) {exponent : Int}
    (h : least ≤ exponent) : Representable precision least (n * 2 ^ exponent) := by
  refine ⟨n, exponent, ?_, h, by rw [Int.cast_natCast]⟩
  rw [Nat.abs_cast]
  exact_mod_cast hn

theorem zero : Representable precision least 0 :=
  ⟨0, least, by simp, le_rfl, by simp⟩

theorem two_zpow {exponent : Int} (h : least ≤ exponent) :
    Representable precision least (2 ^ exponent) :=
  ⟨1, exponent, by simpa using one_le_pow₀ (one_le_two : (1 : Int) ≤ 2),
    h, by simp⟩

theorem int {n : Int} (hn : |n| ≤ 2 ^ precision) (hleast : least ≤ 0) :
    Representable precision least n := by
  simpa using of_scaled hn hleast

theorem opposite {x : ℚ} (h : Representable precision least x) :
    Representable precision least (-x) := by
  obtain ⟨mantissa, exponent, hmantissa, hexponent, rfl⟩ := h
  refine ⟨-mantissa, exponent, by rwa [abs_neg], hexponent, ?_⟩
  push_cast
  ring

theorem magnitude {x : ℚ} (h : Representable precision least x) :
    Representable precision least |x| := by
  rcases abs_choice x with habs | habs <;> rw [habs]
  · exact h
  · exact h.opposite

/-- A number is an integer multiple of any unit that is fine enough for it. -/
theorem multiple {x : ℚ} (h : Representable precision least x) {unit : Int}
    (hunit : unit ≤ least) : ∃ k : Int, x = k * 2 ^ unit := by
  obtain ⟨mantissa, exponent, -, hexponent, rfl⟩ := h
  obtain ⟨shift, hshift⟩ :=
    Int.eq_ofNat_of_zero_le (by omega : 0 ≤ exponent - unit)
  refine ⟨mantissa * 2 ^ shift, ?_⟩
  rw [show exponent = unit + shift by omega, zpow_add₀ two_ne_zero, zpow_natCast]
  push_cast
  ring

/-- Above `2 ^ top` the numbers are multiples of the spacing there. -/
theorem multiple_of_lt {z : ℚ} (h : Representable precision least z) {top : Int}
    (hlt : 2 ^ top < z) : ∃ k : Int, z = k * 2 ^ (top - precision + 1) := by
  obtain ⟨mantissa, exponent, hmantissa, -, rfl⟩ := h
  have hexponent : top < exponent + precision := by
    rw [← zpow_lt_zpow_iff_right₀ (one_lt_two : (1 : ℚ) < 2)]
    exact hlt.trans_le (scaled_le hmantissa exponent)
  have hscaled : Representable precision exponent (mantissa * 2 ^ exponent) :=
    of_scaled hmantissa le_rfl
  exact hscaled.multiple (by omega)

theorem two_zpow_eq_half (hprecision : 0 < precision) (top : Int) :
    (2 : ℚ) ^ top = (2 ^ (precision - 1) : Int) * 2 ^ (top - precision + 1) := by
  have hbits : top - (precision : Int) + 1 = top - (precision - 1 : Nat) := by
    omega
  push_cast
  rw [hbits, two_pow_mul_zpow_sub]

/-- The number above `2 ^ top` is a whole spacing away. -/
theorem add_le_of_lt {z : ℚ} (h : Representable precision least z) {top : Int}
    (hprecision : 0 < precision) (hlt : 2 ^ top < z) :
    2 ^ top + 2 ^ (top - precision + 1) ≤ z := by
  obtain ⟨k, rfl⟩ := h.multiple_of_lt hlt
  have hpos := two_zpow_pos (top - precision + 1)
  have htop := two_zpow_eq_half hprecision top
  rw [htop] at hlt ⊢
  have hk : (2 ^ (precision - 1) : Int) < k := by
    exact_mod_cast lt_of_mul_lt_mul_right hlt hpos.le
  have hcast : ((2 ^ (precision - 1) : Int) : ℚ) + 1 ≤ k := by
    exact_mod_cast hk
  calc
    _ = (((2 ^ (precision - 1) : Int) : ℚ) + 1) *
        2 ^ (top - precision + 1) := by ring
    _ ≤ k * 2 ^ (top - precision + 1) := mul_le_mul_of_nonneg_right hcast hpos.le

/-- So is the number below it, in the spacing there. -/
theorem le_sub_of_lt {z : ℚ} (h : Representable precision least z) {top : Int}
    (hprecision : 0 < precision) (hlt : z < 2 ^ top) :
    z ≤ 2 ^ top - 2 ^ (top - precision) := by
  obtain ⟨mantissa, exponent, hmantissa, -, rfl⟩ := h
  have hpos := two_zpow_pos (top - precision)
  have htop := two_pow_mul_zpow_sub precision top
  rcases le_or_gt (top - precision) exponent with hcoarse | hfine
  · obtain ⟨k, hk⟩ := (of_scaled hmantissa le_rfl).multiple hcoarse
    rw [hk, ← htop] at hlt ⊢
    have hcast : (k : ℚ) + 1 ≤ 2 ^ precision := by
      exact_mod_cast lt_of_mul_lt_mul_right hlt hpos.le
    linarith [mul_le_mul_of_nonneg_right hcast hpos.le]
  · have hle : (2 : ℚ) ^ (exponent + precision) ≤ 2 ^ (top - 1) :=
      two_zpow_le (by omega)
    have hgap : (2 : ℚ) ^ (top - precision) ≤ 2 ^ (top - 1) :=
      two_zpow_le (by omega)
    have hhalf : (2 : ℚ) ^ top = 2 ^ (top - 1) * 2 := by
      rw [← zpow_add_one₀ two_ne_zero, sub_add_cancel]
    linarith [scaled_le hmantissa exponent]

theorem sub_spacing_eq (precision : Nat) (top : Int) :
    (2 : ℚ) ^ top - 2 ^ (top - precision) =
      (2 ^ precision - 1 : Int) * 2 ^ (top - precision) := by
  push_cast
  rw [sub_mul, two_pow_mul_zpow_sub, one_mul]

theorem add_spacing_eq (hprecision : 0 < precision) (top : Int) :
    (2 : ℚ) ^ top + 2 ^ (top - precision + 1) =
      (2 ^ (precision - 1) + 1 : Int) * 2 ^ (top - precision + 1) := by
  rw [two_zpow_eq_half hprecision top]
  push_cast
  ring

theorem sub_spacing {top : Int} (htop : least ≤ top - precision) :
    Representable precision least (2 ^ top - 2 ^ (top - precision)) := by
  have hone : (1 : Int) ≤ 2 ^ precision := one_le_pow₀ one_le_two
  rw [sub_spacing_eq]
  exact of_scaled (by rw [abs_of_nonneg (by omega)]; omega) htop

theorem add_spacing (hprecision : 2 ≤ precision) {top : Int}
    (htop : least ≤ top - precision) :
    Representable precision least (2 ^ top + 2 ^ (top - precision + 1)) := by
  have hone : (1 : Int) ≤ 2 ^ (precision - 1) := one_le_pow₀ one_le_two
  have hsucc : (2 : Int) ^ precision = 2 ^ (precision - 1) * 2 := by
    rw [← pow_succ]
    congr 1
    omega
  rw [add_spacing_eq (by omega)]
  exact of_scaled (by rw [abs_of_nonneg (by omega)]; omega) (by omega)

private theorem odd_multiple_ne {m : Int} (hodd : m % 2 = 1) (k unit : Int) :
    (m : ℚ) * 2 ^ unit ≠ 2 * k * 2 ^ unit := by
  intro heq
  have hcast := mul_right_cancel₀ (two_zpow_pos unit).ne' heq
  have hint : m = 2 * k := by
    exact_mod_cast hcast
  omega

theorem sub_spacing_ne_even (hprecision : 0 < precision) (top k : Int) :
    (2 : ℚ) ^ top - 2 ^ (top - precision) ≠ 2 * k * 2 ^ (top - precision) := by
  have heven : (2 : Int) ∣ 2 ^ precision := dvd_pow_self 2 hprecision.ne'
  rw [sub_spacing_eq]
  exact odd_multiple_ne (by omega) k _

theorem add_spacing_ne_even (hprecision : 2 ≤ precision) (top k : Int) :
    (2 : ℚ) ^ top + 2 ^ (top - precision + 1) ≠
      2 * k * 2 ^ (top - precision + 1) := by
  have heven : (2 : Int) ∣ 2 ^ (precision - 1) := dvd_pow_self 2 (by omega)
  rw [add_spacing_eq (by omega)]
  exact odd_multiple_ne (by omega) k _

end Representable

namespace IsNearest

variable {x r z : ℚ}

theorem opposite (h : IsNearest precision least x r) :
    IsNearest precision least (-x) (-r) := by
  refine ⟨h.representable.opposite, fun z hz => ?_⟩
  have hdist := h.dist_le (-z) hz.opposite
  rwa [← abs_neg (-r - -x), ← abs_neg (z - -x), neg_sub, neg_sub,
    show -x - -r = r - x by ring, show -x - z = -z - x by ring]

theorem ge (h : IsNearest precision least x r)
    (hz : Representable precision least z) (hle : z ≤ x) : z ≤ r := by
  by_contra hlt
  have hdist := h.dist_le z hz
  rw [abs_of_nonpos (by linarith), abs_of_nonpos (by linarith)] at hdist
  linarith

theorem le (h : IsNearest precision least x r)
    (hz : Representable precision least z) (hle : x ≤ z) : r ≤ z :=
  neg_le_neg_iff.mp (h.opposite.ge hz.opposite (neg_le_neg hle))

theorem eq_of_representable (h : IsNearest precision least x r)
    (hx : Representable precision least x) : r = x :=
  le_antisymm (h.le hx le_rfl) (h.ge hx le_rfl)

theorem of_representable (hx : Representable precision least x) :
    IsNearest precision least x x :=
  ⟨hx, fun z _ => by simp⟩

theorem magnitude_le (h : IsNearest precision least x r)
    (hz : Representable precision least z) (hle : |x| ≤ z) : |r| ≤ z := by
  obtain ⟨hlow, hhigh⟩ := abs_le.mp hle
  exact abs_le.mpr ⟨h.ge hz.opposite hlow, h.le hz hhigh⟩

/-- Past the middle of the way from zero to `z` nothing is rounded to zero. -/
theorem ne_zero (h : IsNearest precision least x r)
    (hz : Representable precision least z) (hpos : 0 < z)
    (hmiddle : z < 2 * x) : r ≠ 0 := by
  rintro rfl
  have hdist := h.dist_le z hz
  rw [zero_sub, abs_neg, abs_of_pos (by linarith)] at hdist
  rcases abs_cases (z - x) with ⟨habs, -⟩ | ⟨habs, -⟩ <;> linarith

theorem le_two_zpow (h : IsNearest precision least x r)
    (hprecision : 0 < precision) {top : Int} (htop : least ≤ top)
    (hlt : x < 2 ^ top + 2 ^ (top - precision)) :
    r ≤ 2 ^ top := by
  by_contra hgt
  have hgap := h.representable.add_le_of_lt hprecision (not_le.mp hgt)
  have hdouble : (2 : ℚ) ^ (top - precision + 1) = 2 ^ (top - precision) * 2 :=
    zpow_add_one₀ two_ne_zero _
  rcases le_total x (2 ^ top) with hle | hge
  · exact hgt (h.le (.two_zpow htop) hle)
  · have hdist := h.dist_le _ (.two_zpow htop)
    rw [abs_of_nonneg (by linarith), abs_of_nonpos (by linarith)] at hdist
    linarith

/-- A sum stays within a power of two that its next term is small against. -/
theorem magnitude_add_le {s y : ℚ} (h : IsNearest precision least (s + y) r)
    (hprecision : 0 < precision) {top : Int} (htop : least ≤ top)
    (hs : |s| ≤ 2 ^ top) (hy : |y| < 2 ^ (top - precision)) :
    |r| ≤ 2 ^ top := by
  obtain ⟨hslow, hshigh⟩ := abs_le.mp hs
  obtain ⟨hylow, hyhigh⟩ := abs_lt.mp hy
  apply abs_le.mpr
  constructor
  · have hle := h.opposite.le_two_zpow hprecision htop (by linarith)
    linarith
  · exact h.le_two_zpow hprecision htop (by linarith)

/-- The error is at most half the spacing of the numbers below `2 ^ top`. -/
theorem dist_le_half (h : IsNearest precision least x r) {top : Int}
    (htop : least ≤ top - precision) (hnonneg : 0 ≤ x) (hlt : x < 2 ^ top) :
    |r - x| ≤ 2 ^ (top - precision) / 2 := by
  obtain ⟨unit, hunit⟩ : ∃ unit : ℚ, 2 ^ (top - precision) = unit := ⟨_, rfl⟩
  have hpos : 0 < unit := hunit ▸ zpow_pos two_pos _
  have hscale : (2 : ℚ) ^ top = 2 ^ precision * unit := by
    rw [← hunit, ← zpow_natCast, ← zpow_add₀ two_ne_zero]
    congr 1
    omega
  obtain ⟨n, hn⟩ : ∃ n, ⌊x / unit⌋₊ = n := ⟨_, rfl⟩
  have hfloor : (n : ℚ) * unit ≤ x := by
    rw [← le_div_iff₀ hpos, ← hn]
    exact Nat.floor_le (div_nonneg hnonneg hpos.le)
  have hceil : x < ((n + 1 : Nat) : ℚ) * unit := by
    rw [← div_lt_iff₀ hpos, ← hn]
    exact_mod_cast Nat.lt_floor_add_one (x / unit)
  have hbelow : n < 2 ^ precision := by
    have hlt' : (n : ℚ) * unit < 2 ^ precision * unit := by
      linarith
    exact_mod_cast lt_of_mul_lt_mul_right hlt' hpos.le
  have hlow := h.dist_le _ (.of_natCast hbelow.le htop)
  have hhigh := h.dist_le _ (.of_natCast (Nat.succ_le_of_lt hbelow) htop)
  rw [hunit, abs_of_nonpos (by linarith : (n : ℚ) * unit - x ≤ 0)] at hlow
  rw [hunit, abs_of_pos
    (by linarith : 0 < ((n + 1 : Nat) : ℚ) * unit - x)] at hhigh
  rw [hunit]
  push_cast at hceil hhigh
  linarith

end IsNearest

/-! ## Ties -/

namespace IsTiesToEven

variable {x r : ℚ}

theorem of_representable (hx : Representable precision least x) :
    IsTiesToEven precision least x x := by
  refine ⟨.of_representable hx, fun z _ hne htie => ?_⟩
  rw [sub_self, abs_zero, abs_eq_zero, sub_eq_zero] at htie
  exact absurd htie hne

theorem opposite (h : IsTiesToEven precision least x r) :
    IsTiesToEven precision least (-x) (-r) := by
  refine ⟨h.toIsNearest.opposite, fun z hz hne htie => ?_⟩
  rw [← abs_neg (z - -x), ← abs_neg (-r - -x), show -(z - -x) = -z - x by ring,
    show -(-r - -x) = r - x by ring] at htie
  obtain ⟨k, hk⟩ := h.even_of_tie (-z) hz.opposite
    (fun heq => hne (by rw [← heq, neg_neg])) htie
  refine ⟨-k, ?_⟩
  rw [← abs_neg (z - -r), show -(z - -r) = -z - r by ring]
  push_cast
  linarith

/-- Between `2 ^ top` and the number below it the middle goes up. -/
theorem lt_two_zpow_iff (h : IsTiesToEven precision least x r)
    (hprecision : 0 < precision) {top : Int} (htop : least ≤ top - precision) :
    r < 2 ^ top ↔ x < 2 ^ top - 2 ^ (top - precision - 1) := by
  have hrepresentable : Representable precision least (2 ^ top) :=
    .two_zpow (by omega)
  have hbelow : Representable precision least (2 ^ top - 2 ^ (top - precision)) :=
    .sub_spacing htop
  have hhalf : (2 : ℚ) ^ (top - precision) = 2 ^ (top - precision - 1) * 2 := by
    rw [← zpow_add_one₀ two_ne_zero, sub_add_cancel]
  have hpos := two_zpow_pos (top - precision - 1)
  constructor
  · intro hlt
    have hgap := h.representable.le_sub_of_lt hprecision hlt
    have hx : x < 2 ^ top := by
      by_contra hge
      linarith [h.ge hrepresentable (not_lt.mp hge)]
    by_contra hmiddle
    rw [not_lt] at hmiddle
    have hdist := h.dist_le _ hrepresentable
    rw [abs_of_nonpos (by linarith : r - x ≤ 0), abs_of_pos (by linarith)] at hdist
    -- The number is the middle, and the one below it is odd.
    have hr : r = 2 ^ top - 2 ^ (top - precision) := by linarith
    obtain ⟨k, hk⟩ := h.even_of_tie _ hrepresentable hlt.ne' (by
      rw [abs_of_pos (by linarith), abs_of_nonpos (by linarith : r - x ≤ 0)]
      linarith)
    rw [abs_of_pos (by linarith), hr, sub_sub_cancel] at hk
    exact Representable.sub_spacing_ne_even hprecision top k hk
  · intro hlt
    by_contra hge
    rw [not_lt] at hge
    have hx : 2 ^ top - 2 ^ (top - precision) < x := by
      by_contra hle
      linarith [h.le hbelow (not_lt.mp hle)]
    have hdist := h.dist_le _ hbelow
    rw [abs_of_pos (by linarith), abs_of_neg (by linarith)] at hdist
    linarith

/-- Between `2 ^ top` and the number above it the middle goes down. -/
theorem le_two_zpow_iff (h : IsTiesToEven precision least x r)
    (hprecision : 2 ≤ precision) {top : Int} (htop : least ≤ top - precision) :
    r ≤ 2 ^ top ↔ x ≤ 2 ^ top + 2 ^ (top - precision) := by
  have hrepresentable : Representable precision least (2 ^ top) :=
    .two_zpow (by omega)
  have habove : Representable precision least
      (2 ^ top + 2 ^ (top - precision + 1)) :=
    .add_spacing hprecision htop
  have hdouble : (2 : ℚ) ^ (top - precision + 1) = 2 ^ (top - precision) * 2 :=
    zpow_add_one₀ two_ne_zero _
  have hpos := two_zpow_pos (top - precision)
  constructor
  · intro hle
    by_contra hgt
    rw [not_le] at hgt
    have hx : x < 2 ^ top + 2 ^ (top - precision + 1) := by
      by_contra hge
      linarith [h.ge habove (not_lt.mp hge)]
    have hdist := h.dist_le _ habove
    rw [abs_of_neg (by linarith), abs_of_pos (by linarith)] at hdist
    linarith
  · intro hle
    rcases hle.lt_or_eq with hlt | heq
    · exact h.le_two_zpow (by omega) (by omega) hlt
    · by_contra hgt
      rw [not_le] at hgt
      -- The number is the middle, and the one above it is odd.
      have hr : r = 2 ^ top + 2 ^ (top - precision + 1) :=
        le_antisymm (h.le habove (by linarith))
          (h.representable.add_le_of_lt (by omega) hgt)
      obtain ⟨k, hk⟩ := h.even_of_tie _ hrepresentable hgt.ne (by
        rw [abs_of_neg (by linarith), abs_of_pos (by linarith)]
        linarith)
      rw [abs_of_neg (by linarith), hr, neg_sub, add_sub_cancel_left] at hk
      exact Representable.add_spacing_ne_even hprecision top k hk

end IsTiesToEven

/-! ## Square roots -/

theorem root_bound_sq_le {x q w d N : ℚ} (hw : 0 < w) (hd : 0 < d) (hN : 4 ≤ N)
    (hscale : N * d = w) (hx : N * w + 2 * w ≤ x)
    (hq : x * x - 2 * (N * w * w) ≤ q) :
    (x - (w - d)) * (x - (w - d)) ≤ q := by
  have hsmall : 4 * d ≤ w := hscale ▸ mul_le_mul_of_nonneg_right hN hd.le
  have hcross : (N * w + 2 * w) * (w - d) ≤ x * (w - d) :=
    mul_le_mul_of_nonneg_right hx (by linarith)
  have hexpand : (N * w + 2 * w) * (w - d) = N * w * w + w * w - 2 * (w * d) := by
    calc
      (N * w + 2 * w) * (w - d) =
          N * w * w - w * (N * d) + 2 * (w * w) - 2 * (w * d) := by ring
      _ = N * w * w + w * w - 2 * (w * d) := by
        rw [hscale]
        ring
  have hproduct : 4 * (w * d) ≤ w * w := by
    calc
      4 * (w * d) = w * (4 * d) := by ring
      _ ≤ w * w := mul_le_mul_of_nonneg_left hsmall hw.le
  have hsquare : (w - d) * (w - d) ≤ w * w :=
    mul_self_le_mul_self (by linarith) (by linarith)
  calc
    (x - (w - d)) * (x - (w - d)) =
        x * x - 2 * (x * (w - d)) + (w - d) * (w - d) := by ring
    _ ≤ q := by linarith

/--
The root of a rounded square is rounded to no less than the number: there is a
lower bound of the root from which on nothing is rounded below it.
-/
theorem Representable.exists_root_bound {x q : ℚ}
    (hx : Representable precision least x) {k : Int} (hk : 2 ^ k ≤ x)
    (hleast : least ≤ 2 * k - precision) (hprecision : 2 ≤ precision)
    (hq : IsNearest precision least (x * x) q) :
    ∃ low, 0 ≤ low ∧ low * low ≤ q ∧
      ∀ y r, low ≤ y → IsNearest precision least y r → x ≤ r := by
  have hpos : 0 < x := (zpow_pos two_pos k).trans_le hk
  obtain ⟨top, hlow, hhigh⟩ := exists_mem_Ico_zpow hpos (one_lt_two : (1 : ℚ) < 2)
  have htop : k ≤ top := by
    have hlt := (zpow_lt_zpow_iff_right₀ (one_lt_two : (1 : ℚ) < 2)).mp
      (hk.trans_lt hhigh)
    omega
  rcases hlow.eq_or_lt with heq | hlt
  · have hexact : x * x = 2 ^ (2 * top) := by
      rw [← heq, ← zpow_add₀ two_ne_zero, two_mul]
    have hrepresentable : Representable precision least (x * x) :=
      hexact ▸ .two_zpow (by omega)
    exact ⟨x, hpos.le, (hq.eq_of_representable hrepresentable).ge,
      fun y r hy hr => hr.ge hx hy⟩
  · obtain ⟨w, hw⟩ : ∃ w : ℚ, 2 ^ (top - precision) = w := ⟨_, rfl⟩
    obtain ⟨N, hN⟩ : ∃ N : ℚ, 2 ^ precision = N := ⟨_, rfl⟩
    have hwPos : 0 < w := hw ▸ zpow_pos two_pos _
    have hfour : 4 ≤ N := by
      rw [← hN]
      calc
        (4 : ℚ) = 2 ^ 2 := by norm_num
        _ ≤ 2 ^ precision := pow_le_pow_right₀ one_le_two hprecision
    have hstep : (2 : ℚ) ^ (top - precision + 1) = 2 * w := by
      rw [zpow_add_one₀ two_ne_zero, hw, mul_comm]
    have hscale : (2 : ℚ) ^ top = N * w := by
      rw [← hN, ← hw, ← zpow_natCast, ← zpow_add₀ two_ne_zero]
      congr 1
      omega
    have hgap : N * w + 2 * w ≤ x := by
      have hnext := hx.add_le_of_lt (by omega) hlt
      rwa [hscale, hstep] at hnext
    have hsquare : x * x - 2 * (N * w * w) ≤ q := by
      have hupper : x * x < 2 ^ (2 * top + 2) := by
        rw [show 2 * top + 2 = top + 1 + (top + 1) by ring, zpow_add₀ two_ne_zero]
        exact mul_self_lt_mul_self hpos.le hhigh
      have hhalf : (2 : ℚ) ^ (2 * top + 2 - precision) / 2 = 2 * (N * w * w) := by
        rw [show 2 * top + 2 - (precision : Int) =
            top + (top - precision) + 1 + 1 by ring,
          zpow_add_one₀ two_ne_zero, zpow_add_one₀ two_ne_zero,
          zpow_add₀ two_ne_zero, hscale, hw]
        ring
      have hdist := hq.dist_le_half (by omega) (mul_self_nonneg x) hupper
      rw [hhalf] at hdist
      linarith [(abs_le.mp hdist).1]
    have hd : 0 < w / N := div_pos hwPos (by linarith)
    have hNd : N * (w / N) = w := mul_div_cancel₀ w (by linarith)
    have hNw : 4 * w ≤ N * w := mul_le_mul_of_nonneg_right hfour hwPos.le
    refine ⟨x - (w - w / N), by linarith,
      root_bound_sq_le hwPos hd hfour hNd hgap hsquare, fun y r hy hr => ?_⟩
    by_contra hbelow
    have hyx : y < x := by
      by_contra hge
      exact hbelow (hr.ge hx (not_lt.mp hge))
    have hfar : r ≤ x - 2 * w := by
      rcases le_or_gt r (2 ^ top) with hle | habove
      · linarith
      · obtain ⟨i, hi⟩ := hr.representable.multiple_of_lt habove
        obtain ⟨j, hj⟩ := hx.multiple_of_lt hlt
        rw [hstep] at hi hj
        rw [hi, hj] at hbelow
        have hij : i < j := by
          exact_mod_cast lt_of_mul_lt_mul_right (not_le.mp hbelow) (by linarith)
        have hcast : (i : ℚ) + 1 ≤ j := by
          exact_mod_cast hij
        rw [hi, hj]
        linarith [mul_le_mul_of_nonneg_right hcast (by linarith : 0 ≤ 2 * w)]
    have hdist := hr.dist_le x hx
    rw [abs_of_nonpos (by linarith), abs_of_pos (by linarith)] at hdist
    linarith

end Milona.Foundation.RoundToNearest
