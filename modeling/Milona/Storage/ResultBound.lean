import Milona.Storage.Memory.Vector
import Milona.Storage.Mongo.Vector

/-!
# At most `topK` matches

The in-memory search truncates its matches.  The search of MongoDB asks the
database for `limit` documents and takes what it gets, so its bound is that of
the limit: at least one, and the given number as long as neither the conversion
nor the product wraps.

The database is a parameter; `Contract` says what is assumed of it.
-/

namespace Milona.Storage

open Milona.Core Milona.Foundation Milona.Storage.Memory Milona.Storage.Mongo
open MongoGraphStore (toI64)

/-- A document as a row of the result. -/
def projected (hit : VectorDocument × Option Float) : Except String ScoredRow :=
  .ok ⟨.ok hit.1.chunkId, hit.2⟩

/-- Documents of a collection that a stage may return. -/
def Eligible (stage : VectorSearchStage) (docs : VectorCollection)
    (doc : VectorDocument) : Prop :=
  docs.find doc.chunkId = some doc ∧ doc.matchesFilter stage.filter = true

/--
A `$vectorSearch` returns at most `limit` documents, and as many as that when
enough documents match; a UUID is read back from its text.
-/
structure Contract (server : VectorServer) : Prop where
  atMost : ∀ stage docs rows, server.vectorSearch stage docs = .ok rows →
    (rows.length : Int) ≤ stage.limit
  enough : ∀ stage docs (chosen : List VectorDocument),
    1 ≤ stage.limit → stage.limit ≤ stage.numCandidates →
    chosen.Nodup → (∀ doc ∈ chosen, Eligible stage docs doc) →
    stage.limit ≤ chosen.length →
    ∃ hits : List (VectorDocument × Option Float),
      server.vectorSearch stage docs = .ok (hits.map projected) ∧
      (hits.length : Int) = stage.limit ∧
      ∀ hit ∈ hits, Eligible stage docs hit.1
  parse : ∀ id : Uuid, server.parseUuid id.hyphenated = .ok id

/-- What the two searches and the pipeline of the second promise for `topK`. -/
structure KeepsTopK (store : MongoVectorStore) (topK : Nat) : Prop where
  memory : ∀ order ctx query records found,
    (InMemoryVectorStore.search order ctx query topK records).1 =
      .returned (.ok found) → found.length ≤ topK
  mongo : ∀ ctx query docs found,
    (store.search ctx query topK docs).1 = .returned (.ok found) →
      found.length ≤ topK
  cast : toI64 (max topK 1) = (max topK 1 : Nat)
  product : Int.bmod (toI64 (max topK 1) * 20) (2 ^ 64) = toI64 (max topK 1) * 20
  limit : ∀ ctx query, 1 ≤ (store.searchStage ctx query topK).limit
  candidates : ∀ ctx query, (store.searchStage ctx query topK).limit ≤
    (store.searchStage ctx query topK).numCandidates

/-! ## The bounds -/

theorem limit_searchStage (store : MongoVectorStore) (ctx : TenantContext)
    (query : List Float32) (topK : Nat) :
    (store.searchStage ctx query topK).limit = toI64 (max topK 1) := by
  simp only [MongoVectorStore.searchStage]

theorem numCandidates_searchStage (store : MongoVectorStore) (ctx : TenantContext)
    (query : List Float32) (topK : Nat) :
    (store.searchStage ctx query topK).numCandidates =
      max (Int.bmod (toI64 (max topK 1) * 20) (2 ^ 64)) 100 := by
  simp only [MongoVectorStore.searchStage]

theorem length_memory_search {order : IterationOrder ChunkId StoredVector}
    {ctx : TenantContext} {query : List Float32} {topK : Nat}
    {store : InMemoryVectorStore} {found : List VectorMatch}
    (h : (InMemoryVectorStore.search order ctx query topK store).1 =
      .returned (.ok found)) : found.length ≤ topK := by
  obtain ⟨records, poisoned⟩ := store
  cases poisoned with
  | true =>
      rw [InMemoryVectorStore.search, Mutex.lock_poisoned _ rfl] at h
      cases h
  | false =>
      rw [InMemoryVectorStore.search_apply] at h
      split at h
      · cases h
      · cases h
        exact List.length_take_le _ _

private theorem length_mapM_ok {α β ε : Type} {f : α → Except ε β} {xs : List α}
    {ys : List β} (h : xs.mapM f = .ok ys) : ys.length = xs.length := by
  induction xs generalizing ys with
  | nil =>
      cases h
      rfl
  | cons x xs ih =>
      rw [List.mapM_cons] at h
      cases hx : f x with
      | error e =>
          rw [hx] at h
          cases h
      | ok y =>
          cases hrest : xs.mapM f with
          | error e =>
              rw [hx, hrest] at h
              cases h
          | ok rest =>
              rw [hx, hrest] at h
              cases h
              simp [ih hrest]

theorem length_mongo_search {store : MongoVectorStore}
    (hserver : Contract store.server) {ctx : TenantContext}
    {query : List Float32} {topK : Nat} {docs : VectorCollection}
    {found : List VectorMatch}
    (h : (store.search ctx query topK docs).1 = .returned (.ok found)) :
    (found.length : Int) ≤ toI64 (max topK 1) := by
  unfold MongoVectorStore.search at h
  split at h
  · cases h
  · split at h
    next rows hrows =>
      have hread : rows.mapM store.readRow = .ok found := by
        injection h
      have hbound := hserver.atMost _ docs rows hrows
      rw [limit_searchStage] at hbound
      rwa [length_mapM_ok hread]
    next => cases h

theorem toI64_max {topK : Nat} (h : topK ≤ (2 ^ 63 - 1) / 20) :
    toI64 (max topK 1) = (max topK 1 : Nat) :=
  MongoGraphStore.toI64_of_lt (by omega)

theorem bmod_product {topK : Nat} (h : topK ≤ (2 ^ 63 - 1) / 20) :
    Int.bmod (toI64 (max topK 1) * 20) (2 ^ 64) = toI64 (max topK 1) * 20 := by
  have hmax : max topK 1 ≤ (2 ^ 63 - 1) / 20 := by omega
  rw [toI64_max h]
  generalize max topK 1 = limit at hmax
  exact Int.bmod_eq_of_le (by omega) (by omega)

theorem le_of_keepsTopK {store : MongoVectorStore} {topK : Nat}
    (h : KeepsTopK store topK) :
    topK ≤ (2 ^ 63 - 1) / 20 := by
  have hcast := h.cast
  have hproduct := h.product
  have hbelow : toI64 (max topK 1) < 2 ^ 63 := by
    have hlt := Int.bmod_lt (show 0 < 2 ^ 64 by decide) (x := (max topK 1 : Nat))
    unfold toI64
    omega
  have hproductBelow := Int.bmod_lt (show 0 < 2 ^ 64 by decide)
    (x := toI64 (max topK 1) * 20)
  omega

section Sample

def sampleCaller : TenantContext := ⟨⟨⟨1⟩⟩, .member, "user-1"⟩

def sampleChunk : Chunk := ⟨⟨⟨2⟩⟩, ⟨⟨3⟩⟩, "first", 0, 1⟩

def sampleDocument : VectorDocument := .ofChunk sampleCaller sampleChunk [1]

def sampleDocuments : VectorCollection := Collection.empty.put sampleDocument

variable {store : MongoVectorStore}

private theorem eligible_sampleDocument (query : List Float32) (topK : Nat)
    (doc : VectorDocument) :
    Eligible (store.searchStage sampleCaller query topK) sampleDocuments doc ↔
      doc = sampleDocument := by
  constructor
  · rintro ⟨hfind, -⟩
    rw [sampleDocuments, Collection.find_put, Collection.find_empty] at hfind
    split at hfind
    · exact (Option.some.inj hfind).symm
    · cases hfind
  · rintro rfl
    refine ⟨?_, ?_⟩
    · rw [sampleDocuments, Collection.find_put, if_pos rfl]
    · simp [VectorDocument.matchesFilter, MongoVectorStore.searchStage,
        sampleDocument,
        VectorDocument.ofChunk, VectorDocument.get]

/-- Asked for no match, the store returns the one document that there is. -/
theorem length_search_zero (hatlas : store.backend = .atlas)
    (hserver : Contract store.server) (query : List Float32) :
    ∃ found, (store.search sampleCaller query 0 sampleDocuments).1 =
        .returned (.ok found) ∧ found.length = 1 := by
  have hlimit : (store.searchStage sampleCaller query 0).limit = 1 := rfl
  have hcandidates : (store.searchStage sampleCaller query 0).numCandidates =
    100 := rfl
  obtain ⟨hits, hsearch, hlength, heligible⟩ := hserver.enough
    (store.searchStage sampleCaller query 0) sampleDocuments [sampleDocument]
    (by omega) (by omega) (List.nodup_singleton _)
    (fun doc hdoc => (eligible_sampleDocument query 0 doc).mpr
      (List.mem_singleton.mp hdoc))
    (by rw [hlimit]; rfl)
  rw [hlimit] at hlength
  obtain ⟨⟨doc, score⟩, rfl⟩ :=
    List.length_eq_one_iff.mp (show hits.length = 1 by omega)
  have hdoc := (eligible_sampleDocument query 0 doc).mp
    (heligible _ (List.mem_singleton_self _))
  have hread : store.readRow (projected (doc, score)) =
      .ok ⟨sampleChunk.id, (score.getD 0.0).toFloat32⟩ := by
    have hparse : store.server.parseUuid doc.chunkId =
      .ok sampleChunk.id.uuid := by
      rw [hdoc]
      exact hserver.parse _
    rw [MongoVectorStore.readRow, projected]
    dsimp only [Except.mapError, bind, Except.bind]
    rw [hparse]
    rfl
  have hvector : store.backend.supportsVectorSearch = true := by
    rw [hatlas]
    rfl
  refine ⟨[⟨sampleChunk.id, (score.getD 0.0).toFloat32⟩], ?_, rfl⟩
  rw [MongoVectorStore.search, hvector, hsearch]
  simp only [Bool.not_true, Bool.false_eq_true, if_false,
    List.map_cons, List.map_nil,
    List.mapM_cons, List.mapM_nil, hread]
  rfl

end Sample

theorem not_keepsTopK_zero {store : MongoVectorStore}
    (hatlas : store.backend = .atlas) (hserver : Contract store.server) :
    ¬ KeepsTopK store 0 := by
  intro h
  obtain ⟨found, hsearch, hlength⟩ := length_search_zero hatlas hserver []
  have hbound := h.mongo _ _ _ _ hsearch
  omega

theorem keepsTopK_iff {store : MongoVectorStore} (hatlas : store.backend = .atlas)
    (hserver : Contract store.server) (topK : Nat) :
    KeepsTopK store topK ↔ 1 ≤ topK ∧ topK ≤ (2 ^ 63 - 1) / 20 := by
  constructor
  · intro h
    refine ⟨Nat.pos_of_ne_zero ?_, le_of_keepsTopK h⟩
    rintro rfl
    exact not_keepsTopK_zero hatlas hserver h
  · rintro ⟨hpos, hbound⟩
    have hmax : max topK 1 = topK := by omega
    have hcast := toI64_max hbound
    refine ⟨fun _ _ _ _ _ => length_memory_search,
      fun ctx query docs found hfound => ?_,
      hcast, bmod_product hbound, fun ctx query => ?_, fun ctx query => ?_⟩
    · have hlength := length_mongo_search hserver hfound
      rw [hcast, hmax] at hlength
      omega
    · rw [limit_searchStage, hcast, hmax]
      omega
    · rw [limit_searchStage, numCandidates_searchStage,
        bmod_product hbound, hcast, hmax]
      omega

/-! ## A database of its own -/

/-- A database that visits the matching documents in some order. -/
def referenceServer (order : IterationOrder String VectorDocument) :
    VectorServer where
  vectorSearch stage docs :=
    if 1 ≤ stage.limit ∧ stage.limit ≤ stage.numCandidates then
      let matching := ((order.iterate docs.docs).map fun entry => entry.2).filter
        (VectorDocument.matchesFilter stage.filter)
      .ok ((matching.take stage.limit.toNat).map fun doc =>
        projected (doc, some 1.0))
    else .error "limit must be positive and at most numCandidates"
  describe _ := "E11000 duplicate key error"
  parseUuid text :=
    match Uuid.ofHyphenated text with
    | some id => .ok id
    | none => .error "invalid length"

theorem mem_matching {order : IterationOrder String VectorDocument}
    {stage : VectorSearchStage} {docs : VectorCollection} {doc : VectorDocument} :
    doc ∈ ((order.iterate docs.docs).map fun entry => entry.2).filter
        (VectorDocument.matchesFilter stage.filter) ↔
      Eligible stage docs doc := by
  rw [List.mem_filter, List.mem_map]
  constructor
  · rintro ⟨⟨entry, hentry, rfl⟩, hmatches⟩
    have hfind := Collection.mem_iterate.mp hentry
    have hid := Collection.idOf_of_find hfind
    exact ⟨by rw [hid]; exact hfind, hmatches⟩
  · rintro ⟨hfind, hmatches⟩
    exact ⟨⟨⟨doc.chunkId, doc⟩, Collection.mem_iterate.mpr hfind, rfl⟩, hmatches⟩

theorem contract_referenceServer (order : IterationOrder String VectorDocument) :
    Contract (referenceServer order) where
  atMost stage docs rows h := by
    simp only [referenceServer] at h
    split at h
    next hstage =>
      cases h
      rw [List.length_map, List.length_take]
      omega
    next => cases h
  enough stage docs chosen hlimit hcandidates hnodup heligible hlength := by
    have hsubset : chosen ⊆
      ((order.iterate docs.docs).map fun entry => entry.2).filter
        (VectorDocument.matchesFilter stage.filter) :=
      fun doc hdoc => mem_matching.mpr (heligible doc hdoc)
    have hcount := (hnodup.subperm hsubset).length_le
    refine ⟨((((order.iterate docs.docs).map fun entry => entry.2).filter
      (VectorDocument.matchesFilter stage.filter)).take stage.limit.toNat).map
        fun doc => (doc, some 1.0), ?_, ?_, ?_⟩
    · simp only [referenceServer, if_pos (And.intro hlimit hcandidates),
        List.map_map]
      rfl
    · rw [List.length_map, List.length_take]
      omega
    · intro hit hhit
      obtain ⟨doc, hdoc, rfl⟩ := List.mem_map.mp hhit
      exact mem_matching.mp (List.mem_of_mem_take hdoc)
  parse id := by
    simp only [referenceServer, Uuid.ofHyphenated_hyphenated]

noncomputable def atlasStore : MongoVectorStore :=
  .withDefaultIndex (referenceServer .arbitrary) .atlas

theorem keepsTopK_iff_atlasStore :
    KeepsTopK atlasStore 5 ↔ 1 ≤ 5 ∧ 5 ≤ (2 ^ 63 - 1) / 20 :=
  keepsTopK_iff rfl (contract_referenceServer _) 5

/-- No match asked for, and more than the product can hold. -/
theorem atlasStore_exceeds :
    (∃ found, (atlasStore.search sampleCaller [] 0 sampleDocuments).1 =
        .returned (.ok found) ∧ found.length = 1) ∧
      ¬ KeepsTopK atlasStore 0 ∧
      (atlasStore.searchStage sampleCaller [] (2 ^ 62)).limit = 2 ^ 62 ∧
      (atlasStore.searchStage sampleCaller [] (2 ^ 62)).numCandidates = 100 := by
  refine ⟨length_search_zero rfl (contract_referenceServer _) [],
    not_keepsTopK_zero rfl (contract_referenceServer _), ?_, ?_⟩
  · rw [limit_searchStage]
    decide
  · rw [numCandidates_searchStage]
    decide

end Milona.Storage
