import Milona.Presenter.State
import Milona.Retrieval.TrustBoundary
import Milona.Storage.Mongo.Vector

/-!
# Backend selection

The environment selects the stores behind the knowledge facade: the in-memory
stores of the process, or two collections of a MongoDB database.  What the
driver and the database do is a parameter.

`newDefault` does not look at the environment; `newFromEnv` does.
-/

namespace Milona.Presenter

open Milona.Core Milona.Foundation Milona.Retrieval
open Milona.Storage.Memory Milona.Storage.Mongo

/-- The variables that are set. -/
structure Environment where
  storageBackend : Option String
  mongoUri : Option String
  mongoDb : Option String
  mongoBackend : Option String
  deriving DecidableEq, Repr

def eqIgnoreAsciiCase (first second : String) : Bool :=
  first.toLower = second.toLower

structure Namespace where
  uri : String
  database : String
  collection : String
  deriving DecidableEq, Repr

/-- The collections of chunks and of edges. -/
abbrev Databases : Type :=
  (Namespace → VectorCollection) × (Namespace → List EdgeDocument)

/-- The stores in a process, and the databases that it can reach. -/
abbrev Backends : Type := InMemoryStores × Databases

structure MongoDriver where
  withUriStr : String → Except String Unit
  vectorServer : VectorServer
  graphServer : MongoServer
  link : Link

def MongoDriver.vectorStore (driver : MongoDriver) (backend : MongoBackend)
    (collection : Namespace) : VectorStore Backends :=
  let store := MongoVectorStore.withDefaultIndex driver.vectorServer backend
  (((store.vectorStore driver.link).zoom (.entry collection)).zoom .fst).zoom .snd

def MongoDriver.graphStore (driver : MongoDriver) (backend : MongoBackend)
    (collection : Namespace) : GraphStore Backends :=
  let store : MongoGraphStore := ⟨driver.graphServer, backend⟩
  ((store.graphStore.zoom (.entry collection)).zoom .snd).zoom .snd

def required (setting : Option String) (message : String) :
    Except String String :=
  match setting with
  | some value => .ok value
  | none => .error message

def buildMongoKnowledge (driver : MongoDriver) (env : Environment) :
    Except String (Knowledge Backends) := do
  let uri ← required env.mongoUri
    "MILONA_MONGO_BACKEND=mongo requires MILONA_MONGO_URI"
  let dbName ← required env.mongoDb
    "MILONA_MONGO_BACKEND=mongo requires MILONA_MONGO_DB"
  let backend : MongoBackend :=
    match env.mongoBackend with
    | some value =>
        if eqIgnoreAsciiCase value "document_db" then .documentDb else .atlas
    | none => .atlas
  driver.withUriStr uri
  return Knowledge.new (driver.vectorStore backend ⟨uri, dbName, "vectors"⟩)
    (driver.graphStore backend ⟨uri, dbName, "graph_edges"⟩) sameTenantPolicy

def inMemoryKnowledge (order : IterationOrder ChunkId StoredVector) :
    Knowledge Backends :=
  (defaultInMemoryKnowledge order).zoom .fst

def knowledgeFromEnv (driver : MongoDriver)
    (order : IterationOrder ChunkId StoredVector) (env : Environment) :
    Except String (Knowledge Backends) :=
  match env.storageBackend with
  | some value =>
      if eqIgnoreAsciiCase value "mongo" then buildMongoKnowledge driver env
      else .ok (inMemoryKnowledge order)
  | none => .ok (inMemoryKnowledge order)

namespace AppState

def newDefault (order : IterationOrder ChunkId StoredVector)
    (tools : ToolRegistry Backends) (llm : LlmProvider Backends)
    (sleep : Adapter.Duration → Action Backends Unit) : AppState Backends :=
  newWithKnowledge (inMemoryKnowledge order) tools llm sleep

def newFromEnv (driver : MongoDriver)
    (order : IterationOrder ChunkId StoredVector) (env : Environment)
    (tools : ToolRegistry Backends) (llm : LlmProvider Backends)
    (sleep : Adapter.Duration → Action Backends Unit) :
    Except String (AppState Backends) := do
  let knowledge ← knowledgeFromEnv driver order env
  return newWithKnowledge knowledge tools llm sleep

/-- The environment selects the stores and nothing else. -/
theorem newFromEnv_eq_ok_iff {driver : MongoDriver}
    {order : IterationOrder ChunkId StoredVector} {env : Environment}
    {tools : ToolRegistry Backends} {llm : LlmProvider Backends}
    {sleep : Adapter.Duration → Action Backends Unit} {app : AppState Backends} :
    newFromEnv driver order env tools llm sleep = .ok app ↔
      ∃ knowledge, knowledgeFromEnv driver order env = .ok knowledge ∧
        newWithKnowledge knowledge tools llm sleep = app := by
  unfold newFromEnv
  cases knowledgeFromEnv driver order env with
  | error e =>
      constructor
      · intro h
        cases h
      · rintro ⟨knowledge, h, -⟩
        cases h
  | ok knowledge =>
      constructor
      · intro h
        exact ⟨knowledge, rfl, Except.ok.inj h⟩
      · rintro ⟨_, ⟨rfl⟩, rfl⟩
        rfl

end AppState

/-! ## A new process -/

/-- The stores of a new process. -/
def freshBackends (databases : Databases) : Backends :=
  (Contents.empty.unlocked, databases)

/-- The in-memory stores hold nothing for a tenant without records. -/
theorem retrieve_eq_nil_iff (order : IterationOrder ChunkId StoredVector)
    (ctx : TenantContext) (embedding : List Float32) {topK : Nat}
    (hk : 0 < topK) (contents : Contents) (databases : Databases) :
    ((inMemoryKnowledge order).retrieve ctx embedding topK
        (contents.unlocked, databases)).1 = .returned (.ok []) ↔
      InMemoryVectorStore.ownRecords ctx.tenantId contents.records = ∅ := by
  have hread : (inMemoryKnowledge order).policy.canRead ctx ctx.tenantId =
      true := sameTenantPolicy_canRead ctx
  constructor
  · intro h
    exact (InMemoryVectorStore.search_eq_nil_iff order ctx embedding hk
      contents.records).mp (Knowledge.search_of_retrieve h)
  · intro h
    have hsearch : (inMemoryKnowledge order).vectorStore.search ctx embedding
        topK (contents.unlocked, databases) =
          (.returned (.ok []), (contents.unlocked, databases)) :=
      Action.zoom_of_unchanged (Action.zoom_of_unchanged
        (InMemoryVectorStore.search_of_no_records order h embedding topK))
    rw [Knowledge.retrieve_of_found hread hsearch rfl]

theorem retrieve_fresh (order : IterationOrder ChunkId StoredVector)
    (databases : Databases) (ctx : TenantContext) (embedding : List Float32)
    {topK : Nat} (hk : 0 < topK) :
    ((inMemoryKnowledge order).retrieve ctx embedding topK
      (freshBackends databases)).1 = .returned (.ok []) :=
  (retrieve_eq_nil_iff order ctx embedding hk .empty databases).mpr rfl

end Milona.Presenter
