import Milona.Core.Traits
import Milona.Foundation.Float32Order
import Milona.Foundation.HashMap
import Milona.Foundation.Selection

/-!
# The in-memory vector store

The records of all tenants live in one map keyed by chunk id alone, behind one
mutex.  A search scans the map in iteration order, keeps the caller's records,
scores them against the query, sorts by descending score and cuts the list.
The comparator unwraps `partial_cmp`, so a score that is not a number panics
with the guard held.

A search depends on the map only through the caller's `ownRecords`; the search
specifications below are stated in terms of them.
-/

namespace Milona.Storage.Memory

open Milona.Core Milona.Foundation

structure StoredVector where
  tenantId : TenantId
  documentId : DocumentId
  embedding : List Float32
  deriving DecidableEq

abbrev Records : Type := HashMap ChunkId StoredVector

abbrev InMemoryVectorStore : Type := Mutex Records

namespace InMemoryVectorStore

def empty : InMemoryVectorStore := Mutex.new ∅

/-- `Iterator::sum` on floats folds from negative zero. -/
def sum (xs : List Float32) : Float32 := xs.foldl (· + ·) (-0.0)

def cosineSimilarity (a b : List Float32) : Float32 :=
  let dot := sum (List.zipWith (· * ·) a b)
  let normA := (sum (a.map fun x => x * x)).sqrt
  let normB := (sum (b.map fun x => x * x)).sqrt
  if normA == 0.0 || normB == 0.0 then 0.0 else dot / (normA * normB)

def upsert (ctx : TenantContext) (chunk : Chunk) (embedding : List Float32) :
    Action InMemoryVectorStore (Result Unit) :=
  Mutex.lock do
    Action.modify fun records =>
      records.insert chunk.id ⟨ctx.tenantId, chunk.documentId, embedding⟩
    return .ok ()

def scoreRecord (query : List Float32) (entry : Entry ChunkId StoredVector) :
    VectorMatch :=
  ⟨entry.1, cosineSimilarity query entry.2.embedding⟩

def ownedBy (tenantId : TenantId) (_ : ChunkId) (record : StoredVector) :
    Bool :=
  record.tenantId = tenantId

/-- The comparator of `sort_by`, higher scores first. -/
def compareScores (a b : VectorMatch) : Option Ordering :=
  partialCmp b.score a.score

def search (order : IterationOrder ChunkId StoredVector)
    (ctx : TenantContext) (query : List Float32) (topK : Nat) :
    Action InMemoryVectorStore (Result (List VectorMatch)) :=
  Mutex.lock do
    let records ← Action.get
    let scored := ((order.iterate records).filter fun entry =>
      ownedBy ctx.tenantId entry.1 entry.2).map (scoreRecord query)
    match sortBy compareScores scored with
    | none => Action.panic
    | some sorted => return .ok (sorted.take topK)

def deleteDocument (ctx : TenantContext) (documentId : DocumentId) :
    Action InMemoryVectorStore (Result Unit) :=
  Mutex.lock do
    Action.modify <| HashMap.retain fun _ record =>
      !(record.tenantId = ctx.tenantId && record.documentId = documentId)
    return .ok ()

def vectorStore (order : IterationOrder ChunkId StoredVector) :
    VectorStore InMemoryVectorStore where
  upsert := upsert
  search := search order
  deleteDocument := deleteDocument

/-! ## Writes -/

@[simp] theorem upsert_apply (ctx : TenantContext) (chunk : Chunk)
    (embedding : List Float32) (records : Records) :
    upsert ctx chunk embedding ⟨records, false⟩ =
      (.returned (.ok ()),
        ⟨records.insert chunk.id ⟨ctx.tenantId, chunk.documentId, embedding⟩,
          false⟩) := rfl

@[simp] theorem deleteDocument_apply (ctx : TenantContext)
    (documentId : DocumentId) (records : Records) :
    deleteDocument ctx documentId ⟨records, false⟩ =
      (.returned (.ok ()),
        ⟨records.retain fun _ record =>
          !(record.tenantId = ctx.tenantId && record.documentId = documentId),
          false⟩) := rfl

/-! ## Searches -/

/-- The part of the map that a tenant's searches see. -/
def ownRecords (tenantId : TenantId) (records : Records) : Records :=
  records.retain (ownedBy tenantId)

theorem lookup_ownRecords {tenantId : TenantId} {records : Records}
    {id : ChunkId} {record : StoredVector} :
    (ownRecords tenantId records).lookup id = some record ↔
      records.lookup id = some record ∧ record.tenantId = tenantId := by
  rw [ownRecords, HashMap.lookup_retain, Option.filter_eq_some_iff]
  simp [ownedBy]

/-- The scored records that a search sorts, as a multiset. -/
def scoredPool (tenantId : TenantId) (query : List Float32)
    (records : Records) : Multiset VectorMatch :=
  (ownRecords tenantId records).entries.map (scoreRecord query)

theorem scoredPool_congr {tenantId : TenantId} {records records' : Records}
    (h : ownRecords tenantId records = ownRecords tenantId records')
    (query : List Float32) :
    scoredPool tenantId query records = scoredPool tenantId query records' := by
  rw [scoredPool, scoredPool, h]

def scoredList (order : IterationOrder ChunkId StoredVector)
    (tenantId : TenantId) (query : List Float32) (records : Records) :
    List VectorMatch :=
  ((order.iterate records).filter fun entry =>
    ownedBy tenantId entry.1 entry.2).map (scoreRecord query)

theorem coe_scoredList (order : IterationOrder ChunkId StoredVector)
    (tenantId : TenantId) (query : List Float32) (records : Records) :
    (scoredList order tenantId query records : Multiset VectorMatch) =
      scoredPool tenantId query records := by
  rw [scoredPool, ownRecords, ← order.filter_iterate (ownedBy tenantId)]
  rfl

theorem mem_scoredList (order : IterationOrder ChunkId StoredVector)
    {tenantId : TenantId} {query : List Float32} {records : Records}
    {found : VectorMatch} :
    found ∈ scoredList order tenantId query records ↔
      found ∈ scoredPool tenantId query records := by
  rw [← coe_scoredList order, Multiset.mem_coe]

theorem mem_scoredPool {tenantId : TenantId} {query : List Float32}
    {records : Records} {found : VectorMatch} :
    found ∈ scoredPool tenantId query records ↔
      ∃ record, records.lookup found.chunkId = some record ∧
        record.tenantId = tenantId ∧
        found.score = cosineSimilarity query record.embedding := by
  constructor
  · intro h
    obtain ⟨⟨id, record⟩, hmem, rfl⟩ := Multiset.mem_map.mp h
    have hlookup := lookup_ownRecords.mp (HashMap.mem_entries.mp hmem)
    exact ⟨record, hlookup.1, hlookup.2, rfl⟩
  · rintro ⟨record, hlookup, howner, hscore⟩
    refine Multiset.mem_map.mpr ⟨⟨found.chunkId, record⟩, ?_, ?_⟩
    · exact HashMap.mem_entries.mpr (lookup_ownRecords.mpr ⟨hlookup, howner⟩)
    · rw [scoreRecord, ← hscore]

theorem card_scoredPool (tenantId : TenantId) (query : List Float32)
    (records : Records) :
    (scoredPool tenantId query records).card =
      (ownRecords tenantId records).entries.card :=
  Multiset.card_map _ _

theorem nodup_chunkId_scoredPool (tenantId : TenantId) (query : List Float32)
    (records : Records) :
    ((scoredPool tenantId query records).map VectorMatch.chunkId).Nodup := by
  rw [scoredPool, Multiset.map_map]
  exact Multiset.nodup_keys.mpr (ownRecords tenantId records).nodupKeys

/-- A chunk id stands for one record, so for one score. -/
theorem eq_of_chunkId_eq {tenantId : TenantId} {query : List Float32}
    {records : Records} {a b : VectorMatch}
    (ha : a ∈ scoredPool tenantId query records)
    (hb : b ∈ scoredPool tenantId query records)
    (h : a.chunkId = b.chunkId) : a = b := by
  obtain ⟨record, hrecord, -, hscore⟩ := mem_scoredPool.mp ha
  obtain ⟨record', hrecord', -, hscore'⟩ := mem_scoredPool.mp hb
  rw [h, hrecord'] at hrecord
  cases hrecord
  cases a
  cases b
  simp_all

/--
The scores of a tenant against a query can be sorted: there is nothing to
compare, or every score is a number.
-/
def Sortable (tenantId : TenantId) (query : List Float32)
    (records : Records) : Prop :=
  (ownRecords tenantId records).entries.card ≤ 1 ∨
    ∀ found ∈ scoredPool tenantId query records, found.score.isNaN = false

instance (tenantId : TenantId) (query : List Float32) (records : Records) :
    Decidable (Sortable tenantId query records) :=
  inferInstanceAs (Decidable (_ ∨ _))

def matchRank (found : VectorMatch) : Rank := rank found.score

private theorem agrees_compareScores {matches_ : List VectorMatch}
    (h : ∀ found ∈ matches_, found.score.isNaN = false) :
    Agrees compareScores (fun a b => matchRank b ≤ matchRank a) matches_ := by
  intro a ha b hb
  refine ⟨_, partialCmp_of_number (h b hb) (h a ha), ?_⟩
  rw [compare_gt_iff_gt, not_le]
  rfl

theorem sortBy_scoredList (order : IterationOrder ChunkId StoredVector)
    {tenantId : TenantId} {query : List Float32} {records : Records}
    (h : Sortable tenantId query records) :
    ∃ sorted,
      sortBy compareScores (scoredList order tenantId query records) =
        some sorted ∧
      (sorted : Multiset VectorMatch) = scoredPool tenantId query records ∧
      sorted.Pairwise fun a b => matchRank b ≤ matchRank a := by
  rcases h with h | h
  · have hlength : (scoredList order tenantId query records).length ≤ 1 := by
      rw [← Multiset.coe_card, coe_scoredList, scoredPool, Multiset.card_map]
      exact h
    refine ⟨_, sortBy_of_length_le_one hlength, coe_scoredList _ _ _ _, ?_⟩
    exact List.pairwise_iff_getElem.mpr fun i j hi hj hij => by omega
  · have hagrees := agrees_compareScores fun found hfound =>
      h found ((mem_scoredList order).mp hfound)
    refine ⟨_, sortBy_eq_insertionSort hagrees, ?_, ?_⟩
    · rw [← coe_scoredList order]
      exact Multiset.coe_eq_coe.mpr (List.perm_insertionSort _ _)
    · have htotal : Std.Total fun a b : VectorMatch =>
          matchRank b ≤ matchRank a :=
        ⟨fun a b => le_total (matchRank b) (matchRank a)⟩
      have htrans : IsTrans VectorMatch fun a b =>
          matchRank b ≤ matchRank a := ⟨fun _ _ _ hab hbc => hbc.trans hab⟩
      exact List.pairwise_insertionSort _ _

theorem search_apply (order : IterationOrder ChunkId StoredVector)
    (ctx : TenantContext) (query : List Float32) (topK : Nat)
    (records : Records) :
    search order ctx query topK ⟨records, false⟩ =
      match sortBy compareScores
        (scoredList order ctx.tenantId query records) with
      | none => (.panicked, ⟨records, true⟩)
      | some sorted => (.returned (.ok (sorted.take topK)), ⟨records, false⟩) := by
  simp only [search, Mutex.lock, Action.get_bind, scoredList]
  cases sortBy compareScores _ <;> rfl

/-- What a search returns was stored under its id by the caller. -/
theorem mem_scoredPool_of_search {order : IterationOrder ChunkId StoredVector}
    {ctx : TenantContext} {query : List Float32} {topK : Nat}
    {store : InMemoryVectorStore} {found : List VectorMatch}
    (h : (search order ctx query topK store).1 = .returned (.ok found)) :
    ∀ match_ ∈ found, match_ ∈ scoredPool ctx.tenantId query store.value := by
  obtain ⟨records, poisoned⟩ := store
  cases poisoned with
  | true =>
      rw [search, Mutex.lock_poisoned _ rfl] at h
      cases h
  | false =>
      rw [search_apply] at h
      cases hsort : sortBy compareScores
          (scoredList order ctx.tenantId query records) with
      | none =>
          rw [hsort] at h
          cases h
      | some sorted =>
          rw [hsort] at h
          cases h
          intro match_ hmatch
          have hsorted := (sortBy_perm hsort).mem_iff.mp
            (List.mem_of_mem_take hmatch)
          exact (mem_scoredList order).mp hsorted

/-- A search of sortable scores selects the best of the caller's records. -/
theorem search_of_sortable (order : IterationOrder ChunkId StoredVector)
    (ctx : TenantContext) (query : List Float32) (topK : Nat)
    {records : Records} (h : Sortable ctx.tenantId query records) :
    ∃ found,
      search order ctx query topK ⟨records, false⟩ =
        (.returned (.ok found), ⟨records, false⟩) ∧
      IsTopK matchRank (scoredPool ctx.tenantId query records) topK found := by
  obtain ⟨sorted, hsort, hpool, hdescending⟩ := sortBy_scoredList order h
  refine ⟨sorted.take topK, ?_, ?_⟩
  · rw [search_apply, hsort]
  · rw [← hpool]
    exact isTopK_take hdescending topK

/-- Otherwise the comparator meets a score that is not a number. -/
theorem search_of_not_sortable (order : IterationOrder ChunkId StoredVector)
    (ctx : TenantContext) (query : List Float32) (topK : Nat)
    {records : Records} (h : ¬ Sortable ctx.tenantId query records) :
    search order ctx query topK ⟨records, false⟩ =
      (.panicked, ⟨records, true⟩) := by
  simp only [Sortable, not_or, not_le, not_forall, Bool.not_eq_false] at h
  obtain ⟨hcard, bad, hbad, hnan⟩ := h
  have hlength : 2 ≤ (scoredList order ctx.tenantId query records).length := by
    rw [← Multiset.coe_card, coe_scoredList, scoredPool, Multiset.card_map]
    exact hcard
  have hleft : ∀ found, compareScores bad found = none := fun found =>
    (partialCmp_eq_none_iff _ _).mpr (.inr hnan)
  have hright : ∀ found, compareScores found bad = none := fun found =>
    (partialCmp_eq_none_iff _ _).mpr (.inl hnan)
  rw [search_apply, sortBy_eq_none hlength ((mem_scoredList order).mpr hbad)
    hleft hright]

theorem scoredList_eq_nil_iff (order : IterationOrder ChunkId StoredVector)
    (tenantId : TenantId) (query : List Float32) (records : Records) :
    scoredList order tenantId query records = [] ↔
      ownRecords tenantId records = ∅ := by
  rw [← Multiset.coe_eq_zero, coe_scoredList, scoredPool,
    Multiset.map_eq_zero]
  constructor
  · intro h
    exact Finmap.ext h
  · intro h
    rw [h]
    rfl

theorem search_of_no_records (order : IterationOrder ChunkId StoredVector)
    {ctx : TenantContext} {records : Records}
    (h : ownRecords ctx.tenantId records = ∅) (query : List Float32)
    (topK : Nat) :
    search order ctx query topK ⟨records, false⟩ =
      (.returned (.ok []), ⟨records, false⟩) := by
  rw [search_apply, (scoredList_eq_nil_iff order ctx.tenantId query records).mpr h]
  simp [sortBy]

/-- A search finds nothing exactly if the caller has stored nothing. -/
theorem search_eq_nil_iff (order : IterationOrder ChunkId StoredVector)
    (ctx : TenantContext) (query : List Float32) {topK : Nat} (hk : 0 < topK)
    (records : Records) :
    (search order ctx query topK ⟨records, false⟩).1 = .returned (.ok []) ↔
      ownRecords ctx.tenantId records = ∅ := by
  constructor
  · intro h
    rw [search_apply] at h
    rw [← scoredList_eq_nil_iff order ctx.tenantId query]
    cases hsort : sortBy compareScores
        (scoredList order ctx.tenantId query records) with
    | none =>
        rw [hsort] at h
        cases h
    | some sorted =>
        rw [hsort] at h
        simp only [Outcome.returned.injEq, Except.ok.injEq,
          List.take_eq_nil_iff] at h
        have hsorted : sorted = [] := h.resolve_left (by omega)
        subst hsorted
        exact (sortBy_perm hsort).nil_eq.symm
  · intro h
    rw [search_of_no_records order h]

end InMemoryVectorStore

end Milona.Storage.Memory
