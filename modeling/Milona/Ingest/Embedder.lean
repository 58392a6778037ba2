import Milona.Foundation.RoundingError
import Milona.Foundation.Words
import Milona.Storage.Memory.ModerateVectors

/-!
# The placeholder embedder

Every word of the text is hashed together with each dimension, the hashes are
folded into `[-1, 1]` and added up, and the vector is divided by its norm.  What
the hasher finishes with is a parameter.
-/

namespace Milona.Ingest

open Milona.Core Milona.Foundation
open Milona.Foundation.Binary32
open Milona.Foundation.FloatRounding (Rounds rounds_normalize)
open Milona.Foundation.FloatArithmetic (IsFinite isFinite_of_value rounds_div)
open Float.Model (Format UnpackedFloat)
open Milona.Storage.Memory
open Milona.Storage.Memory.InMemoryVectorStore (sum squares)

def splitWhitespace (text : String) : List (List Char) :=
  words isWhitespace text.toList

/-- What the hasher finishes with after the bytes and the dimension. -/
abbrev Hasher : Type := List UInt8 → Nat → UInt64

/-- The constructor asserts that there is a dimension. -/
structure MockEmbedder where
  dimensions : Nat
  dimensions_pos : 0 < dimensions

namespace MockEmbedder

def defaultDimensions : Nat := 384

def new (dimensions : Nat) : Outcome MockEmbedder :=
  if h : 0 < dimensions then .returned ⟨dimensions, h⟩ else .panicked

def hashTokenDim (hasher : Hasher) (token : List Char) (dim : Nat) : UInt64 :=
  hasher (String.ofList token).toUTF8.toList dim

/-- The hash as a signed integer over half of `u64::MAX`, in double precision. -/
def signed (h : UInt64) : Float :=
  Float.ofModel (.ofInt64 h.toInt64) / ((UInt64.ofNat (2 ^ 64 - 1)).toFloat / 2.0)

def addToken (hasher : Hasher) (vector : List Float32) (token : List Char) :
    List Float32 :=
  vector.mapIdx fun dim slot =>
    slot + narrow (signed (hashTokenDim hasher token dim))

/-- `f32::EPSILON`. -/
def epsilon : Float32 := 1.1920929e-7

def normalize (vector : List Float32) : List Float32 :=
  let norm := (sum (squares vector)).sqrt
  if norm > epsilon then vector.map (· / norm) else vector

def embedWords (hasher : Hasher) (embedder : MockEmbedder)
    (tokens : List (List Char)) :
    Result (List Float32) :=
  let vector := List.replicate embedder.dimensions (0 : Float32)
  if tokens.isEmpty then .ok vector
  else .ok (normalize (tokens.foldl (addToken hasher) vector))

def embed (hasher : Hasher) (embedder : MockEmbedder) (text : String) :
    Result (List Float32) :=
  embedWords hasher embedder (splitWhitespace text)

/-! ## Components -/

theorem value_numerator (h : UInt64) :
    ∃ k : Int, Binary64.value (Float.ofModel (.ofInt64 h.toInt64)) = some (k : ℚ) ∧
      |(k : ℚ)| ≤ 2 ^ (63 : Int) := by
  have hrounds : Rounds Format.binary64
    (UnpackedFloat.ofInt64 Format.binary64 h.toInt64)
      h.toInt64.toInt := by
    have hinteger :=
      @rounds_normalize Format.binary64 (by decide) h.toInt64.toInt 0 .positive
    rwa [zpow_zero, mul_one] at hinteger
  have hbound : |(h.toInt64.toInt : ℚ)| ≤ 2 ^ (63 : Int) := by
    have hlow := h.toInt64.le_toInt
    have hhigh := h.toInt64.toInt_lt
    have habs : |h.toInt64.toInt| ≤ 2 ^ 63 := abs_le.mpr ⟨hlow, hhigh.le⟩
    exact_mod_cast habs
  obtain ⟨r, hr, hnearest⟩ := hrounds.value (by decide) (by decide) hbound
  obtain ⟨k, hk⟩ := hnearest.multiple (by decide : Format.binary64.minExponent ≤ 0)
    (by simp : (h.toInt64.toInt : ℚ) = h.toInt64.toInt * 2 ^ (0 : Int))
  rw [zpow_zero, mul_one] at hk
  subst hk
  exact ⟨k, hr, hnearest.magnitude_le (.two_zpow (by decide)) hbound⟩

/-- The folded hash is a multiple of `2 ^ -63` in `[-1, 1]`. -/
theorem value_narrow_signed (h : UInt64) :
    ∃ k : Int, value (narrow (signed h)) = some ((k : ℚ) * 2 ^ (-63 : Int)) ∧
      |(k : ℚ) * 2 ^ (-63 : Int)| ≤ 1 := by
  obtain ⟨numerator, hx, hxBound⟩ := value_numerator h
  have hhalf : IsFinite Format.binary64
    ((UInt64.ofNat (2 ^ 64 - 1)).toFloat / 2.0).toModel.unpack
      (2 ^ (63 : Int)) := by
    have hunpack : ((UInt64.ofNat (2 ^ 64 - 1)).toFloat / 2.0).toModel.unpack =
      .finite .positive (2 ^ 52) 11 (by decide) := rfl
    have hvalue : (2 : ℚ) ^ (63 : Int) =
      FloatPacking.signed .positive ((2 ^ 52 : Nat) * 2 ^ (11 : Int)) := by
      rw [FloatPacking.signed]
      norm_num
    rw [hunpack, hvalue]
    exact .finite .positive (2 ^ 52) 11 (by decide)
      ⟨by decide, by decide, by decide, by decide⟩
  have hquotient : |(numerator : ℚ) / 2 ^ (63 : Int)| ≤ 2 ^ (0 : Int) := by
    rw [abs_div, abs_of_pos (RoundToNearest.two_zpow_pos 63), zpow_zero,
      div_le_one (RoundToNearest.two_zpow_pos 63)]
    exact hxBound
  have hdiv : Rounds Format.binary64 _ ((numerator : ℚ) / 2 ^ (63 : Int)) :=
    rounds_div (by decide) (isFinite_of_value (by decide) hx) hhalf
      (RoundToNearest.two_zpow_pos 63).ne'
  obtain ⟨q, hq, hnearest⟩ := hdiv.value (by decide) (by decide) hquotient
  have hqBound := hnearest.magnitude_le (.two_zpow (by decide)) hquotient
  obtain ⟨j, hj⟩ := hnearest.multiple
      (by decide : Format.binary64.minExponent ≤ -63)
    (by rw [zpow_neg, div_eq_mul_inv] :
      (numerator : ℚ) / 2 ^ (63 : Int) = numerator * 2 ^ (-63 : Int))
  obtain ⟨r, hr, hnearest'⟩ :=
    value_narrow (f := signed h) hq (hqBound.trans (by norm_num))
  have hrBound := hnearest'.magnitude_le (isSingle_two_zpow (by omega)) hqBound
  obtain ⟨k, hk⟩ := hnearest'.multiple (by decide) hj
  rw [zpow_zero, hk] at hrBound
  exact ⟨k, hk ▸ hr, hrBound⟩

private theorem isBounded_signed (h : UInt64) :
    IsBounded 1 (narrow (signed h)) := by
  obtain ⟨k, hk, hbound⟩ := value_narrow_signed h
  exact ⟨_, hk, hbound⟩

theorem value_epsilon : value epsilon = some (2 ^ (-23 : Int)) := by
  have hunpack : epsilon.toModel.unpack =
    .finite .positive (2 ^ 23) (-46) (by decide) := rfl
  rw [value, hunpack, FloatPacking.unpackedValue_finite, FloatPacking.signed]
  norm_num

private theorem addToken_bounded (hasher : Hasher) {vector : List Float32}
    (h : ∀ slot ∈ vector, IsBounded (2 ^ (25 : Int)) slot) (token : List Char) :
    ∀ slot ∈ addToken hasher vector token, IsBounded (2 ^ (25 : Int)) slot := by
  intro slot hslot
  obtain ⟨dim, hdim, rfl⟩ := List.mem_mapIdx.mp hslot
  have hsigned := isBounded_signed (hashTokenDim hasher token dim)
  rw [← zpow_zero 2] at hsigned
  exact isBounded_add (by omega) (by omega) (h _ (List.getElem_mem hdim)) hsigned

theorem foldl_addToken_bounded (hasher : Hasher) {vector : List Float32}
    (h : ∀ slot ∈ vector, IsBounded (2 ^ (25 : Int)) slot)
    (tokens : List (List Char)) :
    ∀ slot ∈ tokens.foldl (addToken hasher) vector,
      IsBounded (2 ^ (25 : Int)) slot := by
  induction tokens generalizing vector with
  | nil => exact h
  | cons token tokens ih => exact ih (addToken_bounded hasher h token)

theorem length_foldl_addToken (hasher : Hasher) (vector : List Float32)
    (tokens : List (List Char)) :
    (tokens.foldl (addToken hasher) vector).length = vector.length := by
  induction tokens generalizing vector with
  | nil => rfl
  | cons token tokens ih => exact (ih _).trans List.length_mapIdx

theorem length_normalize (vector : List Float32) :
    (normalize vector).length = vector.length := by
  rw [normalize]
  split
  · exact List.length_map _
  · rfl

/-- A component is at most the norm that it is divided by. -/
theorem abs_le_divisor {vector : List Float32} (h : IsModerate vector) {r : ℚ}
    (hr : value (sum (squares vector)).sqrt = some r)
    (hlarge : 2 ^ (-23 : Int) < r) {a : Float32} (ha : a ∈ vector) {x : ℚ}
    (hx : value a = some x) : |x| ≤ r := by
  rcases le_total |x| (2 ^ (-23 : Int)) with htiny | hnot
  · exact htiny.trans hlarge.le
  · exact InMemoryVectorStore.abs_le_norm h ha hx hnot hr

private theorem normalize_bounded {vector : List Float32}
    (h : ∀ slot ∈ vector, IsBounded (2 ^ (25 : Int)) slot) :
    ∀ slot ∈ normalize vector, IsBounded 1 slot := by
  have hmoderate : IsModerate vector := fun slot hslot =>
    isBounded_of_le (h slot hslot) (RoundToNearest.two_zpow_le (by omega))
  obtain ⟨r, hr, -⟩ := InMemoryVectorStore.value_norm hmoderate
  have hcompare : (sum (squares vector)).sqrt > epsilon ↔ 2 ^ (-23 : Int) < r :=
    lt_iff value_epsilon hr
  have hepsilon : (2 : ℚ) ^ (-23 : Int) < 1 := by norm_num
  intro slot hslot
  rw [normalize] at hslot
  simp only [hcompare] at hslot
  split at hslot
  next hlarge =>
    obtain ⟨a, ha, rfl⟩ := List.mem_map.mp hslot
    obtain ⟨x, hx, -⟩ := h a ha
    have hrPos : 0 < r := (RoundToNearest.two_zpow_pos (-23)).trans hlarge
    have hxr := abs_le_divisor hmoderate hr hlarge ha hx
    have hquotient : |x / r| ≤ 1 := by
      rw [abs_div, abs_of_pos hrPos, div_le_one hrPos]
      exact hxr
    obtain ⟨q, hq, hnearest⟩ :=
      value_div hx hr hrPos.ne' (hquotient.trans (by norm_num))
    have hone : IsSingle 1 := by
      simpa using isSingle_two_zpow (by omega : -149 ≤ (0 : Int))
    exact ⟨q, hq, hnearest.magnitude_le hone hquotient⟩
  next hsmall =>
    obtain ⟨x, hx, -⟩ := h slot hslot
    refine ⟨x, hx, ?_⟩
    by_contra hbig
    have hnot : (2 : ℚ) ^ (-23 : Int) ≤ |x| :=
      hepsilon.le.trans (not_le.mp hbig).le
    have hxr := InMemoryVectorStore.abs_le_norm hmoderate hslot hx hnot hr
    linarith [not_lt.mp hsmall, not_le.mp hbig]

private theorem exists_embed (hasher : Hasher) (embedder : MockEmbedder)
    (text : String) :
    ∃ vector, embed hasher embedder text = .ok vector := by
  rw [embed, embedWords]
  split
  next => exact ⟨_, rfl⟩
  next => exact ⟨_, rfl⟩

theorem bounded_of_embed {hasher : Hasher} {embedder : MockEmbedder}
    {text : String} {vector : List Float32}
    (h : embed hasher embedder text = .ok vector) :
    vector.length = embedder.dimensions ∧ ∀ component ∈ vector,
      IsBounded 1 component := by
  have hzero : ∀ slot ∈ List.replicate embedder.dimensions (0 : Float32),
      value slot = some 0 := by
    intro slot hslot
    rw [List.eq_of_mem_replicate hslot]
    rfl
  rw [embed, embedWords] at h
  split at h
  next =>
    cases h
    refine ⟨List.length_replicate, fun slot hslot => ⟨0, hzero slot hslot, ?_⟩⟩
    norm_num
  next =>
    cases h
    refine ⟨?_, normalize_bounded (foldl_addToken_bounded hasher ?_ _)⟩
    · rw [length_normalize, length_foldl_addToken, List.length_replicate]
    · exact fun slot hslot => ⟨0, hzero slot hslot, by norm_num⟩

/--
Whatever the hasher and the text, an embedding has the declared dimensions, and
every component is a number in `[-1, 1]`.
-/
theorem embed_bounded (hasher : Hasher) (embedder : MockEmbedder) (text : String) :
    ∃ vector, embed hasher embedder text = .ok vector ∧
      vector.length = embedder.dimensions ∧ ∀ component ∈ vector,
        IsBounded 1 component := by
  obtain ⟨vector, h⟩ := exists_embed hasher embedder text
  exact ⟨vector, h, bounded_of_embed h⟩

end MockEmbedder

end Milona.Ingest
