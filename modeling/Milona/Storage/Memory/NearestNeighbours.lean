import Milona.Storage.Memory.CosineAccuracy

/-!
# Searches as nearest-neighbour searches

A search sorts by rounded similarities.  On measured vectors it still lists the
caller's records by the cosine of what the vectors stand for, up to twice the
error of a score: no listed record is behind a later or an omitted one by more.
This holds of every search of every run that brings measured vectors only.
-/

namespace Milona.Storage.Memory

open Milona.Core Milona.Foundation
open Milona.Foundation.Binary32 (value values)

/-- The answer to a search, in terms of the exact cosines of the records. -/
structure SelectsNearest (dimensions : Nat) (records : Records)
    (tenantId : TenantId)
    (query : List Float32) (topK : Nat) (found : List VectorMatch) : Prop where
  length : found.length = min topK
    (InMemoryVectorStore.ownRecords tenantId records).entries.card
  distinct : (found.map VectorMatch.chunkId).Nodup
  own : ∀ match_ ∈ found, ∃ record r, records.lookup match_.chunkId = some record ∧
    record.tenantId = tenantId ∧ value match_.score = some r ∧
      |(r : ℝ) - exactCosine query record.embedding| ≤ scoreError dimensions
  descending : found.Pairwise fun a b => ∀ record record',
    records.lookup a.chunkId = some record →
      records.lookup b.chunkId = some record' →
      exactCosine query record'.embedding ≤
        exactCosine query record.embedding + 2 * scoreError dimensions
  greatest : ∀ chunkId record, records.lookup chunkId = some record →
    record.tenantId = tenantId → chunkId ∉ found.map VectorMatch.chunkId →
      ∀ match_ ∈ found, ∀ record', records.lookup match_.chunkId = some record' →
        exactCosine query record.embedding ≤
          exactCosine query record'.embedding + 2 * scoreError dimensions

/--
A record that holds the query is listed with a score of about one, or all that
is listed has such a score.
-/
theorem SelectsNearest.recalls {dimensions : Nat} {records : Records}
    {tenantId : TenantId} {query : List Float32} {topK : Nat}
    {found : List VectorMatch}
    (h : SelectsNearest dimensions records tenantId query topK found)
    {chunkId : ChunkId} {record : StoredVector}
    (hrecord : records.lookup chunkId = some record)
    (howner : record.tenantId = tenantId) (hsame : record.embedding = query)
    (hne : innerProduct (values query) (values query) ≠ 0) :
    (∃ match_ ∈ found, match_.chunkId = chunkId ∧
      ∃ r ∈ value match_.score, 1 - scoreError dimensions ≤ r) ∨
    ∀ match_ ∈ found, ∃ r ∈ value match_.score,
      1 - 3 * scoreError dimensions ≤ r := by
  have hone : exactCosine query record.embedding = 1 := by
    rw [exactCosine, hsame, cosine_self hne]
  by_cases hlisted : chunkId ∈ found.map VectorMatch.chunkId
  · obtain ⟨match_, hmatch, rfl⟩ := List.mem_map.mp hlisted
    obtain ⟨record', r, hrecord', -, hr, herror⟩ := h.own match_ hmatch
    rw [hrecord] at hrecord'
    rw [← Option.some.inj hrecord', hone] at herror
    have hscore : (1 - scoreError dimensions : ℝ) ≤ r := by
      linarith [(abs_le.mp herror).1]
    exact .inl ⟨match_, hmatch, rfl, r, hr, by exact_mod_cast hscore⟩
  · refine .inr fun match_ hmatch => ?_
    obtain ⟨record', r, hrecord', -, hr, herror⟩ := h.own match_ hmatch
    have hbest := h.greatest chunkId record hrecord howner hlisted match_ hmatch
      record' hrecord'
    rw [hone] at hbest
    have hscore : (1 - 3 * scoreError dimensions : ℝ) ≤ r := by
      linarith [(abs_le.mp herror).1]
    exact ⟨r, hr, by exact_mod_cast hscore⟩

namespace InMemoryVectorStore

variable {dimensions : Nat} (hdimensions : dimensions ≤ 2 ^ 18)
include hdimensions

/-- Scores in order have cosines in order, up to the error of either. -/
theorem exactCosine_le_of_score_le {query a b : List Float32}
    (hquery : Measured dimensions query) (ha : Measured dimensions a)
    (hb : Measured dimensions b)
    (h : cosineSimilarity query a ≤ cosineSimilarity query b) :
    exactCosine query a ≤ exactCosine query b + 2 * scoreError dimensions := by
  obtain ⟨x, hx, hxError⟩ := cosineSimilarity_accurate hdimensions hquery ha
  obtain ⟨y, hy, hyError⟩ := cosineSimilarity_accurate hdimensions hquery hb
  have hxy : (x : ℝ) ≤ y := by
    exact_mod_cast (Binary32.le_iff hx hy).mp h
  linarith [(abs_le.mp hxError).1, (abs_le.mp hyError).2]

private theorem selectsNearest_of_selectsBest {records : Records}
    (hrecords : VectorCall.HoldsOnly (Measured dimensions) records)
    {tenantId : TenantId} {query : List Float32}
    (hquery : Measured dimensions query) {topK : Nat} {found : List VectorMatch}
    (h : SelectsBest records tenantId query topK found) :
    SelectsNearest dimensions records tenantId query topK found := by
  have hscore : ∀ match_ ∈ found, ∀ record,
      records.lookup match_.chunkId = some record →
      match_.score = cosineSimilarity query record.embedding := by
    intro match_ hmatch record hrecord
    obtain ⟨record', hrecord', -, hscore⟩ := h.own match_ hmatch
    rw [hrecord] at hrecord'
    rw [hscore, Option.some.inj hrecord']
  refine ⟨h.length, h.distinct, ?_, ?_, ?_⟩
  · intro match_ hmatch
    obtain ⟨record, hrecord, howner, hscore⟩ := h.own match_ hmatch
    obtain ⟨r, hr, herror⟩ :=
      cosineSimilarity_accurate hdimensions hquery (hrecords _ _ hrecord)
    exact ⟨record, r, hrecord, howner, hscore ▸ hr, herror⟩
  · refine h.descending.imp_of_mem
      fun {a b} ha hb hle record record' hrecord hrecord' => ?_
    rw [hscore a ha record hrecord, hscore b hb record' hrecord'] at hle
    exact exactCosine_le_of_score_le hdimensions hquery (hrecords _ _ hrecord')
      (hrecords _ _ hrecord) hle
  · intro chunkId record hrecord howner hleft match_ hmatch record' hrecord'
    have hle := h.greatest chunkId record hrecord howner hleft match_ hmatch
    rw [hscore match_ hmatch record' hrecord'] at hle
    exact exactCosine_le_of_score_le hdimensions hquery (hrecords _ _ hrecord)
      (hrecords _ _ hrecord') hle

end InMemoryVectorStore

/-! ## Runs -/

namespace VectorCall

open InMemoryVectorStore

/-- A search is answered, with nearest neighbours. -/
def FindsNearest (dimensions : Nat) (store : InMemoryVectorStore)
    (call : VectorCall) : Prop :=
  ∀ order ctx query topK, call = .search order ctx query topK →
    ∃ found, (call.perform store).1 = .returned (.found (.ok found)) ∧
      SelectsNearest dimensions store.value ctx.tenantId query topK found

private theorem findsNearest_of_measured {dimensions : Nat}
    (hdimensions : dimensions ≤ 2 ^ 18) {records : Records} {call : VectorCall}
    (hrecords : HoldsOnly (Measured dimensions) records)
    (hcall : call.Brings (Measured dimensions)) :
    FindsNearest dimensions ⟨records, false⟩ call := by
  rintro order ctx query topK rfl
  have hmoderate : ∀ vector, Measured dimensions vector → IsModerate vector :=
    fun _ hmeasured => hmeasured.moderate
  obtain ⟨found, hfound, hbest⟩ := (answered_of_moderate (hrecords.imp hmoderate)
    (hcall.imp hmoderate)).best order ctx query topK rfl
  exact ⟨found, hfound,
    selectsNearest_of_selectsBest hdimensions hrecords hcall hbest⟩

/-- Run lemma: what nearest neighbours give at one call holds in every run. -/
theorem run_of_findsNearest {dimensions : Nat}
    (hdimensions : dimensions ≤ 2 ^ 18)
    {P : InMemoryVectorStore → VectorCall → Prop}
    (hP : ∀ store call, FindsNearest dimensions store call → P store call)
    {calls : List VectorCall}
    (h : ∀ call ∈ calls, call.Brings (Measured dimensions)) :
    EachStep next P empty calls :=
  run_of_brings (fun _ hmeasured => hmeasured.moderate)
    (fun _ _ hrecords hcall =>
      hP _ _ (findsNearest_of_measured hdimensions hrecords hcall)) h

/-- Every search of a run on measured vectors finds nearest neighbours. -/
theorem measured_run_nearest {dimensions : Nat}
    (hdimensions : dimensions ≤ 2 ^ 18) (calls : List VectorCall)
    (h : ∀ call ∈ calls, call.Brings (Measured dimensions)) :
    EachStep next (FindsNearest dimensions) empty calls :=
  run_of_findsNearest hdimensions (fun _ _ hfinds => hfinds) h

private theorem value_one : value 1 = some 1 := by
  have hunpack : (1 : Float32).toModel.unpack =
    .finite .positive (2 ^ 23) (-23) (by decide) := rfl
  rw [value, hunpack, FloatPacking.unpackedValue_finite, FloatPacking.signed]
  norm_num

private theorem value_half : value (-0.5) = some (-(1 / 2)) := by
  have hunpack : (-0.5 : Float32).toModel.unpack =
      .finite .negative (2 ^ 23) (-24) (by decide) := rfl
  rw [value, hunpack, FloatPacking.unpackedValue_finite, FloatPacking.signed]
  norm_num

theorem measured_run_nearest_moderateCalls :
    EachStep next (FindsNearest 2) empty moderateCalls := by
  have hzero : value 0 = some 0 := rfl
  have hone : Binary32.IsBounded (2 ^ (50 : Int)) 1 := ⟨1, value_one, by norm_num⟩
  have hhalf : Binary32.IsBounded (2 ^ (50 : Int)) (-0.5) :=
    ⟨-(1 / 2), value_half, by norm_num⟩
  have hnone : Binary32.IsBounded (2 ^ (50 : Int)) 0 := ⟨0, hzero, by norm_num⟩
  apply measured_run_nearest (by decide)
  rw [moderateCalls, List.forall_mem_cons, List.forall_mem_cons,
    List.forall_mem_singleton]
  refine ⟨⟨by decide, ?_, .inr ?_⟩, ⟨by decide, ?_, .inl ?_⟩,
    ⟨by decide, ?_, .inr ?_⟩⟩
  · exact List.forall_mem_cons.mpr ⟨hone, List.forall_mem_singleton.mpr hhalf⟩
  · norm_num [values, innerProduct, value_one, value_half]
  · exact List.forall_mem_singleton.mpr hnone
  · norm_num [values, innerProduct, hzero]
  · exact List.forall_mem_cons.mpr ⟨hone, List.forall_mem_singleton.mpr hone⟩
  · norm_num [values, innerProduct, value_one]

end VectorCall

end Milona.Storage.Memory
