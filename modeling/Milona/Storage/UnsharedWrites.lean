import Milona.Storage.VectorRefinement

/-!
# Writes that share no chunk id

In a history whose chunk ids are each upserted by one tenant only, no write
takes an id over.  Both stores then keep every tenant's records as if it had
made its own writes alone.
-/

namespace Milona.Storage

open Milona.Core Milona.Foundation
open Milona.Storage.Memory Milona.Storage.Mongo
open Milona.Storage.Memory.InMemoryVectorStore (ownRecords)

/-- Two upserts of a chunk id are by the same tenant. -/
def Unshared (writes : List VectorWrite) : Prop :=
  ∀ ctx chunk embedding, VectorWrite.upsert ctx chunk embedding ∈ writes →
    ∀ ctx' chunk' embedding', VectorWrite.upsert ctx' chunk' embedding' ∈ writes →
      chunk.id = chunk'.id → ctx.tenantId = ctx'.tenantId

theorem upserted_of_lookup {writes : List VectorWrite} {chunkId : ChunkId}
    {record : StoredVector}
    (h : (VectorWrite.records writes).lookup chunkId = some record) :
    ∃ ctx chunk, VectorWrite.upsert ctx chunk record.embedding ∈ writes ∧
      chunk.id = chunkId ∧ ctx.tenantId = record.tenantId ∧
      chunk.documentId = record.documentId := by
  obtain ⟨later, ⟨ctx, chunk, ⟨hid, ⟨before, hwrites⟩, -⟩, howner, hdocument⟩,
    -⟩ :=
    VectorWrite.lookup_records.mp h
  refine ⟨ctx, chunk, ?_, hid, howner, hdocument⟩
  rw [hwrites]
  exact List.mem_append_right before List.mem_cons_self

private theorem takesNothing_of_append {before later : List VectorWrite}
    (h : Unshared (before ++ later)) :
    EachStep VectorCall.next TakesNothing ⟨VectorWrite.records before, false⟩
      (later.map VectorWrite.call) := by
  induction later generalizing before with
  | nil => trivial
  | cons write later ih =>
      constructor
      · refine ⟨write.not_faults _, ?_⟩
        cases write with
        | upsert ctx chunk embedding =>
            intro record hlookup
            obtain ⟨ctx', chunk', hmem, hid, howner, -⟩ :=
              upserted_of_lookup hlookup
            rw [← howner]
            exact h ctx' chunk' _ (List.mem_append_left _ hmem) ctx chunk embedding
              (List.mem_append_right _ List.mem_cons_self) hid
        | deleteDocument ctx documentId => trivial
      · rw [next_write, ← VectorWrite.records_append_one]
        apply ih
        rwa [List.append_assoc, List.singleton_append]

theorem takesNothing_of_unshared {writes : List VectorWrite}
    (h : Unshared writes) :
    EachStep VectorCall.next TakesNothing ⟨∅, false⟩
      (writes.map VectorWrite.call) :=
  @takesNothing_of_append [] writes h

/-! ## The writes of one tenant -/

def ownWrites (tenantId : TenantId) (writes : List VectorWrite) :
    List VectorWrite :=
  writes.filter fun write => write.call.tenantId = tenantId

private theorem ownRecords_recordsAfter {tenantId : TenantId}
    {records records' : Records} {writes : List VectorWrite}
    (h : EachStep VectorCall.next TakesNothing ⟨records, false⟩
      (writes.map VectorWrite.call))
    (hsame : ownRecords tenantId records = ownRecords tenantId records') :
    ownRecords tenantId (recordsAfter records writes) =
      ownRecords tenantId (recordsAfter records' (ownWrites tenantId writes)) := by
  induction writes generalizing records records' with
  | nil => exact hsame
  | cons write writes ih =>
      obtain ⟨hwrite, hrest⟩ := h
      rw [next_write] at hrest
      by_cases howner : write.call.tenantId = tenantId
      · have hown : ownWrites tenantId (write :: writes) =
            write :: ownWrites tenantId writes :=
              List.filter_cons_of_pos (by simpa)
        rw [hown]
        exact ih hrest (VectorCall.ownRecords_effect_congr hsame write.call)
      · have hother : ownWrites tenantId (write :: writes) =
          ownWrites tenantId writes :=
          List.filter_cons_of_neg (by simpa)
        rw [hother]
        apply ih hrest
        exact (VectorCall.ownRecords_effect_of_harmless hwrite
          (Ne.symm howner)).trans hsame

theorem searchOutcomes_ownWrites {writes : List VectorWrite} (h : Unshared writes)
    (ctx : TenantContext) (query : List Float32) (topK : Nat) :
    VectorCall.searchOutcomes ctx query topK (VectorWrite.after writes) =
      VectorCall.searchOutcomes ctx query topK
        (VectorWrite.after (ownWrites ctx.tenantId writes)) := by
  rw [VectorWrite.after_eq, VectorWrite.after_eq]
  apply VectorCall.searchOutcomes_congr
  exact ownRecords_recordsAfter (takesNothing_of_unshared h) rfl

theorem acknowledged_of_unshared {writes : List VectorWrite} (h : Unshared writes)
    (store : MongoVectorStore) (order : IterationOrder String VectorDocument) :
    acknowledged store Collection.empty (writes.map (reached order)) = writes :=
  acknowledged_reached store order corresponds_empty
    (takesNothing_of_unshared h)

/-- Only what was called is acknowledged. -/
theorem acknowledged_subset (store : MongoVectorStore) (docs : VectorCollection)
    (calls : List MongoVectorCall) :
    acknowledged store docs calls ⊆ calls.filterMap writeOf := by
  induction calls generalizing docs with
  | nil => exact List.Subset.refl _
  | cons call calls ih =>
      intro write hwrite
      rcases List.mem_append.mp hwrite with hfirst | hlater
      · refine List.mem_filterMap.mpr ⟨call, List.mem_cons_self, ?_⟩
        unfold acknowledgedBy at hfirst
        split at hfirst
        · exact Option.mem_toList.mp hfirst
        · cases hfirst
        · cases hfirst
      · obtain ⟨later, hmem, heq⟩ := List.mem_filterMap.mp (ih _ hlater)
        exact List.mem_filterMap.mpr ⟨later, List.mem_cons_of_mem _ hmem, heq⟩

end Milona.Storage
