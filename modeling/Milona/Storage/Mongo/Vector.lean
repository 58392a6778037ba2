import Milona.Foundation.Collection
import Milona.Foundation.Runs
import Milona.Storage.Mongo.Graph

/-!
# The MongoDB vector store

One document per chunk in one collection, under the text of the chunk id.  The
filters of the writes ask for the caller's `tenant_id`; the search is a
`$vectorSearch` stage that the database runs, so its answer is a parameter.
-/

namespace Milona.Storage.Mongo

open Milona.Core Milona.Foundation

def MongoBackend.supportsVectorSearch : MongoBackend → Bool
  | .atlas => true
  | .documentDb => false

structure VectorDocument where
  chunkId : String
  tenantId : String
  documentId : String
  text : String
  sequence : Int
  tokenCount : Int
  embedding : List Float32
  deriving DecidableEq

namespace VectorDocument

/-- A text field by its name in the database. -/
def get (doc : VectorDocument) : String → Option String
  | "_id" => some doc.chunkId
  | "tenant_id" => some doc.tenantId
  | "document_id" => some doc.documentId
  | "text" => some doc.text
  | _ => none

def matchesFilter (filter : List (String × String)) (doc : VectorDocument) :
    Bool :=
  filter.all fun field => doc.get field.1 = some field.2

def ofChunk (ctx : TenantContext) (chunk : Chunk) (embedding : List Float32) :
    VectorDocument where
  chunkId := chunk.id.uuid.hyphenated
  tenantId := ctx.tenantId.display
  documentId := chunk.documentId.uuid.hyphenated
  text := chunk.text
  sequence := MongoGraphStore.toI64 chunk.sequence
  tokenCount := MongoGraphStore.toI64 chunk.tokenCount
  embedding := embedding

end VectorDocument

abbrev VectorCollection : Type := Collection VectorDocument.chunkId

/-! ## The store -/

structure VectorSearchStage where
  index : String
  path : String
  queryVector : List Float
  numCandidates : Int
  limit : Int
  filter : List (String × String)

/-- A projected result; reading its id may fail. -/
structure ScoredRow where
  id : Except String String
  score : Option Float

/-- What the store asks of the driver and of the `uuid` parser. -/
structure VectorServer where
  vectorSearch : VectorSearchStage → VectorCollection →
    Except String (List (Except String ScoredRow))
  describe : WriteError → String
  parseUuid : String → Except String Uuid

/--
How the database meets one command: the order in which it visits documents, or
the error of a command that does not reach it.
-/
structure Link where
  order : IterationOrder String VectorDocument
  outage : Option String

structure MongoVectorStore where
  server : VectorServer
  backend : MongoBackend
  indexName : String

namespace MongoVectorStore

open MongoGraphStore (toI64)

def defaultVectorIndexName : String := "milona_vector_index"

def withDefaultIndex (server : VectorServer) (backend : MongoBackend) :
    MongoVectorStore :=
  ⟨server, backend, defaultVectorIndexName⟩

def upsertFilter (ctx : TenantContext) (doc : VectorDocument) :
    List (String × String) :=
  [("_id", doc.chunkId), ("tenant_id", ctx.tenantId.display)]

/-- `replace_one` with `upsert(true)`. -/
def replaceOne (store : MongoVectorStore) (link : Link)
    (filter : List (String × String)) (doc : VectorDocument)
    (docs : VectorCollection) : Except String VectorCollection :=
  match link.outage with
  | some e => .error e
  | none =>
      (docs.replaceOne link.order (VectorDocument.matchesFilter filter)
        doc).mapError store.server.describe

def upsert (store : MongoVectorStore) (link : Link) (ctx : TenantContext)
    (chunk : Chunk) (embedding : List Float32) :
    Action VectorCollection (Result Unit) := fun docs =>
  let doc := VectorDocument.ofChunk ctx chunk embedding
  match store.replaceOne link (upsertFilter ctx doc) doc docs with
  | .ok docs' => (.returned (.ok ()), docs')
  | .error e =>
      (.returned (.error (.other ("mongo upsert failed: " ++ e))), docs)

def searchStage (store : MongoVectorStore) (ctx : TenantContext)
    (query : List Float32) (topK : Nat) : VectorSearchStage :=
  let limit := toI64 (max topK 1)
  { index := store.indexName
    path := "embedding"
    queryVector := query.map Float32.toFloat
    numCandidates := max (Int.bmod (limit * 20) (2 ^ 64)) 100
    limit := limit
    filter := [("tenant_id", ctx.tenantId.display)] }

def readRow (store : MongoVectorStore) (row : Except String ScoredRow) :
    Result VectorMatch := do
  let doc ← row.mapError fun e => .other ("mongo cursor error: " ++ e)
  let text ← doc.id.mapError fun e => .other ("missing _id in result: " ++ e)
  let score := (doc.score.getD 0.0).toFloat32
  let uuid ← (store.server.parseUuid text).mapError fun e =>
    .other ("invalid id `" ++ text ++ "`: " ++ e)
  return ⟨⟨uuid⟩, score⟩

def search (store : MongoVectorStore) (ctx : TenantContext)
    (query : List Float32) (topK : Nat) :
    Action VectorCollection (Result (List VectorMatch)) := fun docs =>
  if !store.backend.supportsVectorSearch then
    (.returned (.error (.unsupported
      "$vectorSearch is not supported on the configured MongoBackend (DocumentDB)")),
      docs)
  else
    match store.server.vectorSearch (store.searchStage ctx query topK) docs with
    | .ok rows => (.returned (rows.mapM store.readRow), docs)
    | .error e =>
        (.returned (.error (.other ("mongo $vectorSearch failed: " ++ e))), docs)

def deleteFilter (ctx : TenantContext) (documentId : DocumentId) :
    List (String × String) :=
  [("tenant_id", ctx.tenantId.display),
    ("document_id", documentId.uuid.hyphenated)]

def deleteDocument (link : Link) (ctx : TenantContext)
    (documentId : DocumentId) : Action VectorCollection (Result Unit) :=
  fun docs =>
    match link.outage with
    | some e =>
        (.returned (.error (.other ("mongo delete_many failed: " ++ e))), docs)
    | none =>
        (.returned (.ok ()), docs.deleteMany
          (VectorDocument.matchesFilter (deleteFilter ctx documentId)))

def vectorStore (store : MongoVectorStore) (link : Link) :
    VectorStore VectorCollection where
  upsert := store.upsert link
  search := store.search
  deleteDocument := deleteDocument link

/-! ## What the commands do -/

theorem matches_upsertFilter {ctx : TenantContext} {replacement doc : VectorDocument} :
    doc.matchesFilter (upsertFilter ctx replacement) = true ↔
      doc.chunkId = replacement.chunkId ∧ doc.tenantId = ctx.tenantId.display := by
  simp [VectorDocument.matchesFilter, upsertFilter, VectorDocument.get]

theorem matches_deleteFilter {ctx : TenantContext} {documentId : DocumentId}
    {doc : VectorDocument} :
    doc.matchesFilter (deleteFilter ctx documentId) = true ↔
      doc.tenantId = ctx.tenantId.display ∧
        doc.documentId = documentId.uuid.hyphenated := by
  simp [VectorDocument.matchesFilter, deleteFilter, VectorDocument.get]

theorem pinned_upsertFilter (ctx : TenantContext) (replacement : VectorDocument) :
    ∀ doc : VectorDocument,
      doc.matchesFilter (upsertFilter ctx replacement) = true →
        doc.chunkId = replacement.chunkId :=
  fun _ h => (matches_upsertFilter.mp h).1

theorem replace_of_held (order : IterationOrder String VectorDocument)
    {ctx : TenantContext} (doc : VectorDocument) {held : VectorDocument}
    {docs : VectorCollection}
    (hfind : docs.find doc.chunkId = some held)
    (hother : held.tenantId ≠ ctx.tenantId.display) :
    docs.replaceOne order
        (VectorDocument.matchesFilter (upsertFilter ctx doc)) doc =
      .error .duplicateKey := by
  have hfails : ¬ held.matchesFilter (upsertFilter ctx doc) = true :=
    fun h => hother (matches_upsertFilter.mp h).2
  rw [Collection.replaceOne_of_pinned (pinned_upsertFilter ctx doc), hfind]
  simp [hfails]

theorem replace_of_free (order : IterationOrder String VectorDocument)
    {ctx : TenantContext} (doc : VectorDocument) {docs : VectorCollection}
    (hfree : ∀ held, docs.find doc.chunkId = some held →
      held.tenantId = ctx.tenantId.display) :
    docs.replaceOne order
        (VectorDocument.matchesFilter (upsertFilter ctx doc)) doc =
      .ok (docs.put doc) := by
  rw [Collection.replaceOne_of_pinned (pinned_upsertFilter ctx doc)]
  cases hfind : docs.find doc.chunkId with
  | none => rfl
  | some held =>
      have hmatches : held.matchesFilter (upsertFilter ctx doc) = true :=
        matches_upsertFilter.mpr ⟨Collection.idOf_of_find hfind, hfree held hfind⟩
      simp [hmatches]

/-- No other tenant holds a document under the chunk's id. -/
def Free (ctx : TenantContext) (chunk : Chunk) (docs : VectorCollection) :
    Prop :=
  ∀ held, docs.find chunk.id.uuid.hyphenated = some held →
    held.tenantId = ctx.tenantId.display

/--
An upsert puts the document in place, or fails and changes nothing; it cannot
succeed on an id that another tenant holds.
-/
theorem upsert_cases (store : MongoVectorStore) (link : Link)
    (ctx : TenantContext) (chunk : Chunk) (embedding : List Float32)
    (docs : VectorCollection) :
    (Free ctx chunk docs ∧
      store.upsert link ctx chunk embedding docs =
        (.returned (.ok ()),
          docs.put (VectorDocument.ofChunk ctx chunk embedding))) ∨
    ∃ e, store.upsert link ctx chunk embedding docs =
      (.returned (.error e), docs) := by
  cases houtage : link.outage with
  | some e =>
      right
      exact ⟨_, by simp only [upsert, replaceOne, houtage]; rfl⟩
  | none =>
      by_cases hfree : Free ctx chunk docs
      · left
        have hreplace := replace_of_free link.order
          (VectorDocument.ofChunk ctx chunk embedding) hfree
        exact ⟨hfree, by simp only [upsert, replaceOne, houtage, hreplace]; rfl⟩
      · right
        simp only [Free, not_forall] at hfree
        obtain ⟨held, hfind, hother⟩ := hfree
        have hreplace := replace_of_held link.order
          (VectorDocument.ofChunk ctx chunk embedding) hfind hother
        exact ⟨_, by simp only [upsert, replaceOne, houtage, hreplace]; rfl⟩

theorem upsert_of_free (store : MongoVectorStore)
    (order : IterationOrder String VectorDocument) {ctx : TenantContext}
    {chunk : Chunk} (embedding : List Float32) {docs : VectorCollection}
    (hfree : Free ctx chunk docs) :
    store.upsert ⟨order, none⟩ ctx chunk embedding docs =
      (.returned (.ok ()),
        docs.put (VectorDocument.ofChunk ctx chunk embedding)) := by
  have hreplace := replace_of_free order
    (VectorDocument.ofChunk ctx chunk embedding) hfree
  simp only [upsert, replaceOne, hreplace]
  rfl

theorem search_snd (store : MongoVectorStore) (ctx : TenantContext)
    (query : List Float32) (topK : Nat) (docs : VectorCollection) :
    (store.search ctx query topK docs).2 = docs := by
  unfold search
  split
  · rfl
  · split <;> rfl

end MongoVectorStore

end Milona.Storage.Mongo
