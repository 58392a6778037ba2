import Milona.Storage.Mongo.Vector

/-!
# The tenant frame of the MongoDB vector store

A run is any list of calls by any tenants.  Every call of a run leaves the
documents of the other tenants alone, keeps the owner of each document, and
changes nothing when it fails; a successful upsert leaves the chunk in place.
The two counters are stored as signed 64-bit integers.
-/

namespace Milona.Storage.Mongo

open Milona.Core Milona.Foundation

inductive MongoVectorCall where
  | upsert (link : Link) (ctx : TenantContext) (chunk : Chunk)
      (embedding : List Float32)
  | search (ctx : TenantContext) (query : List Float32) (topK : Nat)
  | deleteDocument (link : Link) (ctx : TenantContext) (documentId : DocumentId)

namespace MongoVectorCall

def tenantId : MongoVectorCall → TenantId
  | .upsert _ ctx _ _ => ctx.tenantId
  | .search ctx _ _ => ctx.tenantId
  | .deleteDocument _ ctx _ => ctx.tenantId

/-- The matches of a search are dropped; the call still tells if it failed. -/
def perform (store : MongoVectorStore) :
    MongoVectorCall → Action VectorCollection (Result Unit)
  | .upsert link ctx chunk embedding => store.upsert link ctx chunk embedding
  | .search ctx query topK => do
      let found ← store.search ctx query topK
      return found.map fun _ => ()
  | .deleteDocument link ctx documentId =>
      MongoVectorStore.deleteDocument link ctx documentId

def next (store : MongoVectorStore) (docs : VectorCollection)
    (call : MongoVectorCall) : VectorCollection :=
  (call.perform store docs).2

/-- The collection holds the chunk of an upsert, owned by the caller. -/
def Stored (docs : VectorCollection) : MongoVectorCall → Prop
  | .upsert _ ctx chunk embedding =>
      ∃ doc, docs.find chunk.id.uuid.hyphenated = some doc ∧
        doc.tenantId = ctx.tenantId.display ∧
        doc.documentId = chunk.documentId.uuid.hyphenated ∧
        doc.text = chunk.text ∧ doc.embedding = embedding ∧
        doc.sequence = MongoGraphStore.toI64 chunk.sequence ∧
        doc.tokenCount = MongoGraphStore.toI64 chunk.tokenCount ∧
        (chunk.sequence < 2 ^ 63 → doc.sequence = chunk.sequence) ∧
        (chunk.tokenCount < 2 ^ 63 → doc.tokenCount = chunk.tokenCount)
  | .search .. | .deleteDocument .. => True

structure Framed (store : MongoVectorStore) (docs : VectorCollection)
    (call : MongoVectorCall) : Prop where
  others : ∀ other, other ≠ call.tenantId → ∀ id doc,
    doc.tenantId = other.display →
      ((next store docs call).find id = some doc ↔ docs.find id = some doc)
  owner : ∀ id doc doc', docs.find id = some doc →
    (next store docs call).find id = some doc' → doc'.tenantId = doc.tenantId
  unique : ∀ (chunkId : ChunkId) id id' doc doc',
    (next store docs call).find id = some doc →
    (next store docs call).find id' = some doc' →
    doc.chunkId = chunkId.uuid.hyphenated →
    doc'.chunkId = chunkId.uuid.hyphenated → id = id' ∧ doc = doc'
  failed : ∀ e, (call.perform store docs).1 = .returned (.error e) →
    next store docs call = docs
  stored : (call.perform store docs).1 = .returned (.ok ()) →
    call.Stored (next store docs call)

theorem unique_of_find {docs : VectorCollection} {chunkId : ChunkId}
    {id id' : String} {doc doc' : VectorDocument}
    (h : docs.find id = some doc) (h' : docs.find id' = some doc')
    (hid : doc.chunkId = chunkId.uuid.hyphenated)
    (hid' : doc'.chunkId = chunkId.uuid.hyphenated) : id = id' ∧ doc = doc' := by
  have hsame : id = id' :=
    ((Collection.idOf_of_find h).symm.trans hid).trans
      (hid'.symm.trans (Collection.idOf_of_find h'))
  subst hsame
  rw [h] at h'
  exact ⟨rfl, Option.some.inj h'⟩

theorem framed_of_unchanged {store : MongoVectorStore}
    {docs : VectorCollection} {call : MongoVectorCall}
    (h : next store docs call = docs)
    (hstored : (call.perform store docs).1 = .returned (.ok ()) →
      call.Stored docs) : Framed store docs call where
  others other hother id doc howner := by rw [h]
  owner id doc doc' hbefore hafter := by
    rw [h, hbefore] at hafter
    rw [Option.some.inj hafter]
  unique chunkId id id' doc doc' := unique_of_find
  failed e he := h
  stored hok := by
    rw [h]
    exact hstored hok

private theorem stored_ofChunk (link : Link) (ctx : TenantContext)
    (chunk : Chunk) (embedding : List Float32) (docs : VectorCollection) :
    (MongoVectorCall.upsert link ctx chunk embedding).Stored
      (docs.put (VectorDocument.ofChunk ctx chunk embedding)) := by
  refine ⟨VectorDocument.ofChunk ctx chunk embedding, ?_, ?_⟩
  · simp [VectorDocument.ofChunk]
  · simp only [VectorDocument.ofChunk, true_and]
    exact ⟨MongoGraphStore.toI64_of_lt, MongoGraphStore.toI64_of_lt⟩

theorem framed_upsert (store : MongoVectorStore) (link : Link)
    (ctx : TenantContext) (chunk : Chunk) (embedding : List Float32)
    (docs : VectorCollection) :
    Framed store docs (.upsert link ctx chunk embedding) := by
  rcases store.upsert_cases link ctx chunk embedding docs with
    ⟨hfree, hupsert⟩ | ⟨e, hupsert⟩
  · have hnext : next store docs (.upsert link ctx chunk embedding) =
        docs.put (VectorDocument.ofChunk ctx chunk embedding) := by
      rw [next, perform, hupsert]
    refine ⟨fun other hother id doc howner => ?_, fun id doc doc' hbefore hafter => ?_,
      fun _ _ _ _ _ => unique_of_find, fun e he => ?_, fun _ => ?_⟩
    · rw [hnext, Collection.find_put]
      split
      · rename_i hid
        -- neither the old nor the new document is the other tenant's
        have hne : ctx.tenantId.display ≠ doc.tenantId := fun h =>
          hother (TenantId.display_injective (howner.symm.trans h.symm))
        constructor
        · intro hdoc
          exact absurd (congrArg VectorDocument.tenantId (Option.some.inj hdoc)) hne
        · intro hdoc
          rw [hid] at hdoc
          exact absurd (hfree doc hdoc).symm hne
      · exact Iff.rfl
    · rw [hnext, Collection.find_put] at hafter
      split at hafter
      · rename_i hid
        rw [hid] at hbefore
        rw [hfree doc hbefore, ← Option.some.inj hafter]
        rfl
      · rw [hbefore] at hafter
        rw [Option.some.inj hafter]
    · rw [perform, hupsert] at he
      cases he
    · rw [hnext]
      exact stored_ofChunk link ctx chunk embedding docs
  · refine framed_of_unchanged (by rw [next, perform, hupsert]) fun hok => ?_
    rw [perform, hupsert] at hok
    cases hok

private theorem framed_search (store : MongoVectorStore) (ctx : TenantContext)
    (query : List Float32) (topK : Nat) (docs : VectorCollection) :
    Framed store docs (.search ctx query topK) := by
  refine framed_of_unchanged ?_ fun _ => trivial
  have hsame := store.search_snd ctx query topK docs
  cases hsearch : store.search ctx query topK docs with
  | mk outcome docs' =>
      rw [hsearch] at hsame
      cases outcome with
      | returned found =>
          rw [next, perform, Action.bind_of_returned hsearch]
          exact hsame
      | panicked =>
          rw [next, perform, Action.bind_of_panicked hsearch]
          exact hsame

private theorem framed_deleteDocument (store : MongoVectorStore) (link : Link)
    (ctx : TenantContext) (documentId : DocumentId) (docs : VectorCollection) :
    Framed store docs (.deleteDocument link ctx documentId) := by
  cases houtage : link.outage with
  | some e =>
      refine framed_of_unchanged ?_ fun _ => trivial
      simp only [next, perform, MongoVectorStore.deleteDocument, houtage]
  | none =>
      have hnext : next store docs (.deleteDocument link ctx documentId) =
          docs.deleteMany (VectorDocument.matchesFilter
            (MongoVectorStore.deleteFilter ctx documentId)) := by
        simp only [next, perform, MongoVectorStore.deleteDocument, houtage]
      refine ⟨fun other hother id doc howner => ?_,
        fun id doc doc' hbefore hafter => ?_, fun _ _ _ _ _ => unique_of_find,
        fun e he => ?_, fun _ => trivial⟩
      · rw [hnext, Collection.find_deleteMany]
        refine and_iff_left_of_imp fun _ => Bool.eq_false_iff.mpr fun hmatches => ?_
        have howner' := (MongoVectorStore.matches_deleteFilter.mp hmatches).1
        exact hother (TenantId.display_injective (howner.symm.trans howner'))
      · rw [hnext, Collection.find_deleteMany, hbefore] at hafter
        rw [Option.some.inj hafter.1]
      · simp only [perform, MongoVectorStore.deleteDocument, houtage] at he
        cases he

private theorem framed (store : MongoVectorStore) (docs : VectorCollection)
    (call : MongoVectorCall) : Framed store docs call := by
  cases call with
  | upsert link ctx chunk embedding =>
      exact framed_upsert store link ctx chunk embedding docs
  | search ctx query topK => exact framed_search store ctx query topK docs
  | deleteDocument link ctx documentId =>
      exact framed_deleteDocument store link ctx documentId docs

/-- Every call of every run from the empty collection keeps the frame. -/
theorem all_framed (store : MongoVectorStore) (calls : List MongoVectorCall) :
    EachStep (next store) (Framed store) Collection.empty calls :=
  EachStep.of_forall (framed store) Collection.empty calls

def referenceStore : MongoVectorStore :=
  .withDefaultIndex
    ⟨fun _ _ => .ok [], fun _ => "E11000 duplicate key error",
      fun _ => .error "invalid length"⟩ .atlas

/-- A sequence number of 2^63 is stored as a negative number. -/
theorem upsert_wraps_sequence :
    let ctx : TenantContext := ⟨⟨⟨1⟩⟩, .member, "user-1"⟩
    let chunk : Chunk := ⟨⟨⟨1⟩⟩, ⟨⟨1⟩⟩, "first", 2 ^ 63, 1⟩
    let call : MongoVectorCall := .upsert ⟨.arbitrary, none⟩ ctx chunk [1]
    (call.perform referenceStore Collection.empty).1 = .returned (.ok ()) ∧
      ∀ doc, (next referenceStore Collection.empty call).find
          chunk.id.uuid.hyphenated = some doc →
        doc.sequence ≠ chunk.sequence := by
  intro ctx chunk call
  have hupsert : call.perform referenceStore Collection.empty =
      (.returned (.ok ()), Collection.empty.put
        (VectorDocument.ofChunk ctx chunk [1])) :=
    referenceStore.upsert_of_free .arbitrary [1] (by
      intro held hheld
      simp at hheld)
  refine ⟨by rw [hupsert], fun doc hdoc => ?_⟩
  rw [next, hupsert, Collection.find_put] at hdoc
  have hid : chunk.id.uuid.hyphenated =
      (VectorDocument.ofChunk ctx chunk [1]).chunkId := rfl
  rw [if_pos hid] at hdoc
  rw [← Option.some.inj hdoc]
  decide

end MongoVectorCall

end Milona.Storage.Mongo
