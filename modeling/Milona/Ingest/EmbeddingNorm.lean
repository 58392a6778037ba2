import Milona.Ingest.Embedder
import Milona.Storage.Memory.NearestNeighbours

/-!
# Norms of embeddings

The folded hashes are multiples of `2 ^ -63`, and so are their rounded sums, so
an accumulated vector is zero or far enough from zero for its norm to be
computed accurately.  Dividing by that norm makes a vector of unit length, up to
an error that is proportional to the number of dimensions; a vector that is too
short for that is left as it is.  Either way the embeddings of a store are
measured, and its searches find nearest neighbours.
-/

namespace Milona.Ingest

open Milona.Core Milona.Foundation
open Milona.Foundation.Binary32
open Milona.Storage.Memory
open Milona.Storage.Memory.InMemoryVectorStore (sum squares)

namespace MockEmbedder

/-! ## Accumulated vectors -/

/-- A slot of the accumulator is a multiple of the finest hash. -/
def IsAccumulated (slot : Float32) : Prop :=
  ∃ k : Int, value slot = some ((k : ℚ) * 2 ^ (-63 : Int)) ∧
    |(k : ℚ) * 2 ^ (-63 : Int)| ≤ 2 ^ (25 : Int)

private theorem isAccumulated_add {slot : Float32} (h : IsAccumulated slot)
    (hash : UInt64) :
    IsAccumulated (slot + narrow (signed hash)) := by
  obtain ⟨k, hk, hkBound⟩ := h
  obtain ⟨j, hj, hjBound⟩ := value_narrow_signed hash
  rw [← zpow_zero 2] at hjBound
  obtain ⟨r, hr, hnearest, hbound⟩ :=
    value_add_of_bounded (by omega) (by omega) hk hj hkBound hjBound
  have hsum : (k : ℚ) * 2 ^ (-63 : Int) + j * 2 ^ (-63 : Int) =
      ((k + j : Int) : ℚ) * 2 ^ (-63 : Int) := by
    push_cast
    ring
  obtain ⟨i, hi⟩ := hnearest.multiple (by decide) hsum
  exact ⟨i, hi ▸ hr, hi ▸ hbound⟩

theorem isAccumulated_foldl (hasher : Hasher) {vector : List Float32}
    (h : ∀ slot ∈ vector, IsAccumulated slot) (tokens : List (List Char)) :
    ∀ slot ∈ tokens.foldl (addToken hasher) vector, IsAccumulated slot := by
  induction tokens generalizing vector with
  | nil => exact h
  | cons token tokens ih =>
      apply ih
      intro slot hslot
      obtain ⟨dim, hdim, rfl⟩ := List.mem_mapIdx.mp hslot
      exact isAccumulated_add (h _ (List.getElem_mem hdim)) _

/-- The vector that is normalized. -/
def accumulated (hasher : Hasher) (embedder : MockEmbedder) (text : String) :
    List Float32 :=
  (splitWhitespace text).foldl (addToken hasher)
    (List.replicate embedder.dimensions 0)

theorem length_accumulated (hasher : Hasher) (embedder : MockEmbedder)
    (text : String) :
    (accumulated hasher embedder text).length = embedder.dimensions := by
  rw [accumulated, length_foldl_addToken, List.length_replicate]

theorem isAccumulated_accumulated (hasher : Hasher) (embedder : MockEmbedder)
    (text : String) :
    ∀ slot ∈ accumulated hasher embedder text, IsAccumulated slot := by
  refine isAccumulated_foldl hasher (fun slot hslot => ⟨0, ?_, by norm_num⟩) _
  rw [List.eq_of_mem_replicate hslot, Int.cast_zero, zero_mul]
  rfl

theorem isModerate_of_accumulated {vector : List Float32}
    (h : ∀ slot ∈ vector, IsAccumulated slot) : IsModerate vector := by
  intro slot hslot
  obtain ⟨k, hk, hbound⟩ := h slot hslot
  exact ⟨_, hk, hbound.trans (RoundToNearest.two_zpow_le (by omega))⟩

private theorem innerProduct_multiple {vector : List Float32}
    (h : ∀ slot ∈ vector, IsAccumulated slot) :
    ∃ k : Int, innerProduct (values vector) (values vector) =
      k * (1 / 2 ^ 126) := by
  induction vector with
  | nil => exact ⟨0, by simp [values, innerProduct]⟩
  | cons slot vector ih =>
      obtain ⟨⟨j, hj, -⟩, hvector⟩ := List.forall_mem_cons.mp h
      obtain ⟨k, hk⟩ := ih hvector
      refine ⟨j * j + k, ?_⟩
      rw [values_cons, hj, Option.getD_some, innerProduct_cons, hk]
      push_cast
      rw [zpow_neg, show (2 : ℚ) ^ (63 : Int) = 2 ^ 63 by norm_num]
      ring

theorem measured_of_accumulated {vector : List Float32}
    (h : ∀ slot ∈ vector, IsAccumulated slot) {dimensions : Nat}
    (hlength : vector.length ≤ dimensions) : Measured dimensions vector := by
  refine ⟨hlength, isModerate_of_accumulated h, ?_⟩
  obtain ⟨k, hk⟩ := innerProduct_multiple h
  have hnonneg := innerProduct_self_nonneg (values vector)
  rw [hk] at hnonneg ⊢
  rcases le_or_gt k 0 with hle | hpos
  · have hcast : (k : ℚ) ≤ 0 := by exact_mod_cast hle
    exact .inl (le_antisymm
      (mul_nonpos_of_nonpos_of_nonneg hcast (by positivity)) hnonneg)
  · have hone : (1 : ℚ) ≤ k := by exact_mod_cast hpos
    exact .inr (le_mul_of_one_le_left (by positivity) hone)

/-! ## Unit length -/

theorem forall₂_map_div {vector : List Float32} {divisor : Float32} {r : ℚ}
    (hr : value divisor = some r) (hpos : 0 < r)
    (h : ∀ slot ∈ vector, ∃ x ∈ value slot, |x| ≤ r) :
    List.Forall₂ (fun b a => |b - a| ≤ 1 / 2 ^ 24 * |a| + 1 / 2 ^ 150)
      (values (vector.map (· / divisor))) ((values vector).map (· / r)) ∧
      ∀ a ∈ (values vector).map (· / r), |a| ≤ 1 := by
  induction vector with
  | nil => exact ⟨.nil, by simp [values]⟩
  | cons slot vector ih =>
      obtain ⟨⟨x, hx, hxr⟩, hvector⟩ := List.forall_mem_cons.mp h
      obtain ⟨hforall, hbounds⟩ := ih hvector
      have hquotient : |x / r| ≤ 1 := by
        rw [abs_div, abs_of_pos hpos, div_le_one hpos]
        exact hxr
      obtain ⟨q, hq, hnearest⟩ :=
        value_div hx hr hpos.ne' (hquotient.trans (by norm_num))
      rw [List.map_cons, values_cons, values_cons, List.map_cons, hq,
        Option.getD_some,
        Option.mem_def.mp hx, Option.getD_some]
      exact ⟨.cons hnearest.dist_le hforall,
        List.forall_mem_cons.mpr ⟨hquotient, hbounds⟩⟩

def normTolerance (dimensions : Nat) : ℚ := (dimensions + 4) / 2 ^ 22

private theorem tolerance_budget {dimensions : Nat} {α : ℝ}
    (h : α ≤ 21 / 10 * ((dimensions + 1 : Nat) * (1 / 2 ^ 24)) +
      11 / 10 * (1 / 2 ^ 22)) :
    (1 / 2 ^ 22 + α) * (25 / 24) ≤ normTolerance dimensions := by
  rw [normTolerance]
  push_cast at h ⊢
  have hnonneg : (0 : ℝ) ≤ dimensions := Nat.cast_nonneg dimensions
  linarith

section Unit

variable {dimensions : Nat} (hdimensions : dimensions ≤ 2 ^ 18)
include hdimensions

/-- Dividing by the computed norm divides the exact norm by it. -/
theorem squares_of_divided {vector : List Float32}
    (h : ∀ slot ∈ vector, IsAccumulated slot)
    (hlength : vector.length ≤ dimensions) {r : ℚ}
    (hr : value (sum (squares vector)).sqrt = some r)
    (hlarge : 2 ^ (-23 : Int) < r)
    (hratio : 1 / 2 ≤ euclideanNorm (values vector) / r *
      (euclideanNorm (values vector) / r)) :
    Near (1 / 2 ^ 22)
      (innerProduct (values (vector.map (· / (sum (squares vector)).sqrt)))
        (values (vector.map (· / (sum (squares vector)).sqrt))) : ℚ)
      (euclideanNorm (values vector) / r *
        (euclideanNorm (values vector) / r)) := by
  have hmoderate := isModerate_of_accumulated h
  have hpos : 0 < r := (RoundToNearest.two_zpow_pos (-23)).trans hlarge
  obtain ⟨hforall, hbounds⟩ := forall₂_map_div hr hpos fun slot hslot => by
    obtain ⟨x, hx, -⟩ := hmoderate slot hslot
    exact ⟨x, hx, abs_le_divisor hmoderate hr hlarge hslot hx⟩
  have hsquares := innerProduct_self_sub_le (by norm_num)
      (by norm_num) (by norm_num)
    (by norm_num) hforall hbounds
  have hsquaresReal := (Rat.cast_le (K := ℝ)).mpr hsquares
  rw [innerProduct_map_div, List.length_map] at hsquaresReal
  push_cast at hsquaresReal
  rw [← euclideanNorm_mul_self (values vector), ← div_mul_div_comm] at hsquaresReal
  have hlengthReal : ((values vector).length : ℝ) ≤ 2 ^ 18 := by
    rw [values, List.length_map]
    exact_mod_cast hlength.trans hdimensions
  rw [Near]
  linarith

theorem norm_of_divided {vector : List Float32}
    (h : ∀ slot ∈ vector, IsAccumulated slot)
    (hlength : vector.length ≤ dimensions) {r : ℚ}
    (hr : value (sum (squares vector)).sqrt = some r)
    (hlarge : 2 ^ (-23 : Int) < r) :
    |euclideanNorm (values (vector.map (· / (sum (squares vector)).sqrt))) - 1| ≤
      normTolerance dimensions := by
  have hpos : 0 < r := (RoundToNearest.two_zpow_pos (-23)).trans hlarge
  have hne : innerProduct (values vector) (values vector) ≠ 0 := by
    intro hzero
    rw [InMemoryVectorStore.value_norm_of_zero
      (isModerate_of_accumulated h) hzero] at hr
    exact hpos.ne (Option.some.inj hr)
  have hmeasured := measured_of_accumulated h hlength
  obtain ⟨r', hr', hnear⟩ :=
    InMemoryVectorStore.value_norm_near hdimensions hmeasured hne
  cases hr.symm.trans hr'
  have hsmall := InMemoryVectorStore.dimensions_error_real_le hdimensions
  have hrelative := InMemoryVectorStore.normError_le hsmall
  have hsPos : 0 < euclideanNorm (values vector) :=
    lt_of_lt_of_le (by positivity) (InMemoryVectorStore.norm_ge hmeasured hne)
  obtain ⟨hrPos, hratioTop, hratioLow, hratio⟩ := hnear.ratio hsPos
    (InMemoryVectorStore.normError_nonneg (by positivity)) (by linarith)
  have hroot := (squares_of_divided hdimensions h hlength hr hlarge hratioLow).sqrt
    (by exact_mod_cast innerProduct_self_nonneg _) (mul_self_nonneg _)
  rw [Real.sqrt_mul_self (div_nonneg hsPos.le hrPos.le)] at hroot
  refine le_trans ?_ (tolerance_budget hrelative)
  calc
    |euclideanNorm (values (vector.map (· / (sum (squares vector)).sqrt))) - 1| ≤
        |euclideanNorm (values (vector.map (· / (sum (squares vector)).sqrt))) -
          euclideanNorm (values vector) / r| +
            |euclideanNorm (values vector) / r - 1| :=
      abs_sub_le _ _ _
    _ ≤ 1 / 2 ^ 22 * (25 / 24) +
        InMemoryVectorStore.normError ((dimensions + 1 : Nat) * (1 / 2 ^ 24)) *
          (25 / 24) :=
      add_le_add (hroot.trans
        (mul_le_mul_of_nonneg_left hratioTop (by positivity))) hratio
    _ = _ := by ring

end Unit

/-! ## Embeddings -/

theorem accumulated_of_no_tokens (hasher : Hasher) (embedder : MockEmbedder)
    {text : String} (h : splitWhitespace text = []) :
    accumulated hasher embedder text = List.replicate embedder.dimensions 0 := by
  rw [accumulated, h]
  rfl

private theorem innerProduct_zeros (count : Nat) :
    innerProduct (values (List.replicate count 0))
      (values (List.replicate count 0)) = 0 := by
  have hzero : value 0 = some 0 := rfl
  induction count with
  | zero => rfl
  | succ count ih =>
      rw [List.replicate_succ, values_cons, innerProduct_cons, ih, hzero,
        Option.getD_some,
        mul_zero, add_zero]

/-- An embedding is the accumulated vector, divided by its norm where that is not tiny. -/
theorem embed_cases (hasher : Hasher) (embedder : MockEmbedder) (text : String) :
    ∃ r, value (sum (squares (accumulated hasher embedder text))).sqrt = some r ∧
      ((2 ^ (-23 : Int) < r ∧ embed hasher embedder text =
          .ok ((accumulated hasher embedder text).map
            (· / (sum (squares (accumulated hasher embedder text))).sqrt))) ∨
        (r ≤ 2 ^ (-23 : Int) ∧
          embed hasher embedder text =
            .ok (accumulated hasher embedder text))) := by
  have hmoderate := isModerate_of_accumulated
    (isAccumulated_accumulated hasher embedder text)
  by_cases htokens : splitWhitespace text = []
  · refine ⟨0, ?_, .inr ⟨by positivity, ?_⟩⟩
    · apply InMemoryVectorStore.value_norm_of_zero hmoderate
      rw [accumulated_of_no_tokens hasher embedder htokens, innerProduct_zeros]
    · rw [embed, htokens, accumulated_of_no_tokens hasher embedder htokens]
      rfl
  · obtain ⟨r, hr, -⟩ := InMemoryVectorStore.value_norm hmoderate
    have hnonempty : (splitWhitespace text).isEmpty = false := by
      simpa using htokens
    have hembed : embed hasher embedder text =
        .ok (normalize (accumulated hasher embedder text)) := by
      rw [embed, embedWords, hnonempty]
      rfl
    have hcompare : (sum (squares (accumulated hasher embedder text))).sqrt >
      epsilon ↔
        2 ^ (-23 : Int) < r := lt_iff value_epsilon hr
    refine ⟨r, hr, ?_⟩
    rw [hembed, normalize]
    simp only [hcompare]
    rcases lt_or_ge (2 ^ (-23 : Int)) r with hlarge | hsmall
    · exact .inl ⟨hlarge, by rw [if_pos hlarge]⟩
    · exact .inr ⟨hsmall, by rw [if_neg hsmall.not_gt]⟩

theorem measured_accumulated (hasher : Hasher) (embedder : MockEmbedder)
    (text : String) :
    Measured embedder.dimensions (accumulated hasher embedder text) :=
  measured_of_accumulated (isAccumulated_accumulated hasher embedder text)
    (length_accumulated hasher embedder text).le

section Embeddings

variable (hasher : Hasher) {embedder : MockEmbedder}
    (hdimensions : embedder.dimensions ≤ 2 ^ 18)
include hdimensions

private theorem norm_le_of_not_divided {text : String} {r : ℚ}
    (hr : value (sum (squares (accumulated hasher embedder text))).sqrt = some r)
    (hsmall : r ≤ 2 ^ (-23 : Int)) :
    euclideanNorm (values (accumulated hasher embedder text)) ≤ 1 / 2 ^ 22 := by
  have hmeasured := measured_accumulated hasher embedder text
  by_cases hzero : innerProduct (values (accumulated hasher embedder text))
      (values (accumulated hasher embedder text)) = 0
  · rw [euclideanNorm, hzero, Rat.cast_zero, Real.sqrt_zero]
    positivity
  · obtain ⟨r', hr', hnear⟩ :=
      InMemoryVectorStore.value_norm_near hdimensions hmeasured hzero
    cases hr.symm.trans hr'
    have hrelative := InMemoryVectorStore.normError_le
      (InMemoryVectorStore.dimensions_error_real_le hdimensions)
    have htop := InMemoryVectorStore.dimensions_error_real_le hdimensions
    have hhalf : 1 / 2 *
      euclideanNorm (values (accumulated hasher embedder text)) ≤ r :=
      le_trans (mul_le_mul_of_nonneg_right (by linarith)
        (euclideanNorm_nonneg _)) hnear.ge
    have hepsilon : r ≤ 1 / 2 ^ 23 := hsmall.trans (by norm_num)
    have hsmallReal := (Rat.cast_le (K := ℝ)).mpr hepsilon
    push_cast at hsmallReal
    linarith

/--
Whatever the hasher and the text, an embedding has unit length up to the
tolerance, or it is the accumulated vector and negligibly short.
-/
theorem embed_normalized (text : String) :
    ∃ vector, embed hasher embedder text = .ok vector ∧
      (|euclideanNorm (values vector) - 1| ≤ normTolerance embedder.dimensions ∨
        vector = accumulated hasher embedder text ∧
          euclideanNorm (values vector) ≤ 1 / 2 ^ 22) := by
  obtain ⟨r, hr, ⟨hlarge, hembed⟩ | ⟨hsmall, hembed⟩⟩ :=
    embed_cases hasher embedder text
  · exact ⟨_, hembed, .inl (norm_of_divided hdimensions
      (isAccumulated_accumulated hasher embedder text)
      (length_accumulated hasher embedder text).le hr hlarge)⟩
  · exact ⟨_, hembed, .inr
      ⟨rfl, norm_le_of_not_divided hasher hdimensions hr hsmall⟩⟩

omit hdimensions in
theorem embed_normalized_twoWords :
    let hasher : Hasher := fun bytes dim => .ofNat (bytes.length + dim)
    let embedder : MockEmbedder := ⟨384, by decide⟩
    ∃ vector, embed hasher embedder "two words" = .ok vector ∧
      (|euclideanNorm (values vector) - 1| ≤ normTolerance 384 ∨
        vector = accumulated hasher embedder "two words" ∧
          euclideanNorm (values vector) ≤ 1 / 2 ^ 22) := by
  intro hasher embedder
  exact @embed_normalized hasher embedder (by decide) "two words"

omit hdimensions in
private theorem quarter_le_of_half_le {xs : List ℚ}
    (h : 1 / 2 ≤ euclideanNorm xs) :
    1 / 4 ≤ innerProduct xs xs := by
  have hsquare : (1 : ℝ) / 2 * (1 / 2) ≤ (innerProduct xs xs : ℚ) := by
    rw [← euclideanNorm_mul_self]
    exact mul_self_le_mul_self (by norm_num) h
  have hcast : ((1 / 4 : ℚ) : ℝ) ≤ (innerProduct xs xs : ℚ) :=
    le_trans (by norm_num) hsquare
  exact_mod_cast hcast

theorem measured_of_embed {text : String} {vector : List Float32}
    (h : embed hasher embedder text = .ok vector) :
    Measured embedder.dimensions vector := by
  obtain ⟨hlength, hbounded⟩ := bounded_of_embed h
  obtain ⟨r, hr, ⟨hlarge, hembed⟩ | ⟨-, hembed⟩⟩ :=
    embed_cases hasher embedder text
  · have hunit := norm_of_divided hdimensions
        (isAccumulated_accumulated hasher embedder text)
      (length_accumulated hasher embedder text).le hr hlarge
    cases h.symm.trans hembed
    refine ⟨hlength.le, fun slot hslot =>
      isBounded_of_le (hbounded slot hslot) ?_, .inr ?_⟩
    · exact le_trans (by norm_num)
        (RoundToNearest.two_zpow_le (by omega : (0 : Int) ≤ 50))
    · have htolerance : normTolerance embedder.dimensions ≤ 1 / 2 := by
        have hcast : (embedder.dimensions : ℚ) ≤ 2 ^ 18 := by
          exact_mod_cast hdimensions
        rw [normTolerance]
        linarith
      have htoleranceReal := (Rat.cast_le (K := ℝ)).mpr htolerance
      push_cast at htoleranceReal
      exact le_trans (by norm_num)
        (quarter_le_of_half_le (by linarith [(abs_le.mp hunit).1]))
  · cases h.symm.trans hembed
    exact measured_accumulated hasher embedder text

end Embeddings

/-! ## Stores of embeddings -/

def IsEmbedding (hasher : Hasher) (embedder : MockEmbedder)
    (vector : List Float32) : Prop :=
  ∃ text, embed hasher embedder text = .ok vector

/-- A search lists nearest neighbours, and a record that holds its query is not missed. -/
def FindsAlike (dimensions : Nat) (store : InMemoryVectorStore)
    (call : VectorCall) : Prop :=
  ∀ order ctx query topK, call = .search order ctx query topK →
    ∃ found, (call.perform store).1 = .returned (.found (.ok found)) ∧
      SelectsNearest dimensions store.value ctx.tenantId query topK found ∧
      ∀ chunkId record, store.value.lookup chunkId = some record →
        record.tenantId = ctx.tenantId → record.embedding = query →
          innerProduct (values query) (values query) ≠ 0 →
            (∃ match_ ∈ found, match_.chunkId = chunkId ∧
              ∃ r ∈ value match_.score, 1 - scoreError dimensions ≤ r) ∨
            ∀ match_ ∈ found, ∃ r ∈ value match_.score,
              1 - 3 * scoreError dimensions ≤ r

/--
In every run on embeddings a search finds nearest neighbours by the exact
cosine, and what was embedded from the words of the query is not missed.
-/
theorem embedded_run_recalls (hasher : Hasher) {embedder : MockEmbedder}
    (hdimensions : embedder.dimensions ≤ 2 ^ 18) (calls : List VectorCall)
    (h : ∀ call ∈ calls, call.Brings (IsEmbedding hasher embedder)) :
    EachStep VectorCall.next (FindsAlike embedder.dimensions)
      InMemoryVectorStore.empty calls := by
  have hmeasured : ∀ call ∈ calls, call.Brings (Measured embedder.dimensions) :=
    fun call hcall => (h call hcall).imp fun _ ⟨_, htext⟩ =>
      measured_of_embed hasher hdimensions htext
  apply VectorCall.run_of_findsNearest hdimensions ?_ hmeasured
  intro store call hfinds order ctx query topK hcall
  obtain ⟨found, hfound, hnearest⟩ := hfinds order ctx query topK hcall
  exact ⟨found, hfound, hnearest, fun chunkId record hrecord howner hsame hne =>
    hnearest.recalls hrecord howner hsame hne⟩

/-- A word is hashed to one in the dimension of its length and to zero in the others. -/
def lengthHasher : Hasher := fun bytes dim =>
  if bytes.length = dim then .ofNat (2 ^ 63 - 1) else 0

def threeDimensions : MockEmbedder := ⟨3, by decide⟩

/-- Two texts are stored, and the best match for the first of them is searched. -/
def twoTexts : List VectorCall :=
  let owner : TenantContext := ⟨⟨⟨1⟩⟩, .member, "user-1"⟩
  let order := IterationOrder.ascending ChunkId.number ChunkId.number_injective
  [.upsert owner ⟨⟨⟨1⟩⟩, ⟨⟨1⟩⟩, "a", 0, 1⟩ [0, 1, 0],
    .upsert owner ⟨⟨⟨2⟩⟩, ⟨⟨1⟩⟩, "of an", 1, 2⟩ [0, 0, 1],
    .search order owner [0, 1, 0] 1]

theorem embedded_run_recalls_twoTexts :
    embed lengthHasher threeDimensions "a" = .ok [0, 1, 0] ∧
      embed lengthHasher threeDimensions "of an" = .ok [0, 0, 1] ∧
      EachStep VectorCall.next (FindsAlike 3) InMemoryVectorStore.empty
        twoTexts := by
  have hfirst : embed lengthHasher threeDimensions "a" = .ok [0, 1, 0] := by
    decide +kernel
  have hsecond : embed lengthHasher threeDimensions "of an" = .ok [0, 0, 1] := by
    decide +kernel
  refine ⟨hfirst, hsecond,
    @embedded_run_recalls lengthHasher threeDimensions (by decide) _ ?_⟩
  rw [twoTexts, List.forall_mem_cons, List.forall_mem_cons,
    List.forall_mem_singleton]
  exact ⟨⟨_, hfirst⟩, ⟨_, hsecond⟩, ⟨_, hfirst⟩⟩

end MockEmbedder

end Milona.Ingest
