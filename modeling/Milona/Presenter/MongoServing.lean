import Milona.Presenter.ServedRuns
import Milona.Retrieval.MongoRetrieval

/-!
# Serving from a database

The environment selects MongoDB, and other processes write the two collections
while this one serves requests.  In every state of every run a request gets a
response and changes the limiter's checks only.  An accepted question fails as
the database fails; otherwise it gets the model's answer to live chunks of the
caller and to the caller's edges around them.
-/

namespace Milona.Presenter

open Milona.Core Milona.Foundation Milona.Retrieval Milona.Adapter
open Milona.Storage Milona.Storage.Memory Milona.Storage.Mongo

/-! ## The selected stores -/

def Environment.SelectsMongo (env : Environment) : Prop :=
  ∃ value, env.storageBackend = some value ∧ eqIgnoreAsciiCase value "mongo" = true

def Environment.mongoKind (env : Environment) : MongoBackend :=
  match env.mongoBackend with
  | some value =>
      if eqIgnoreAsciiCase value "document_db" then .documentDb else .atlas
  | none => .atlas

/-- The two collections of a database. -/
def collectionsLens (uri database : String) : Lens Databases MongoStores :=
  .prod (.entry ⟨uri, database, "vectors"⟩) (.entry ⟨uri, database, "graph_edges"⟩)

namespace MongoDriver

def stores (driver : MongoDriver) (kind : MongoBackend) : MongoBackends :=
  ⟨.withDefaultIndex driver.vectorServer kind, ⟨driver.graphServer, kind⟩⟩

def knowledge (driver : MongoDriver) (kind : MongoBackend)
    (uri database : String) :
    Knowledge Backends :=
  .new (driver.vectorStore kind ⟨uri, database, "vectors"⟩)
    (driver.graphStore kind ⟨uri, database, "graph_edges"⟩) sameTenantPolicy

theorem knowledge_of_selected {driver : MongoDriver} {env : Environment}
    {order : IterationOrder ChunkId StoredVector}
    {knowledge : Knowledge Backends} (hselects : env.SelectsMongo)
    (h : knowledgeFromEnv driver order env = .ok knowledge) :
    ∃ uri database, env.mongoUri = some uri ∧ env.mongoDb = some database ∧
      knowledge = driver.knowledge env.mongoKind uri database := by
  obtain ⟨value, hvalue, hmongo⟩ := hselects
  rw [knowledgeFromEnv, hvalue] at h
  dsimp only at h
  rw [if_pos hmongo, buildMongoKnowledge] at h
  cases huri : env.mongoUri with
  | none =>
      rw [huri] at h
      cases h
  | some uri =>
      cases hdb : env.mongoDb with
      | none =>
          rw [huri, hdb] at h
          cases h
      | some database =>
          rw [huri, hdb] at h
          cases hclient : driver.withUriStr uri with
          | error e =>
              simp only [required, hclient, bind, Except.bind] at h
              cases h
          | ok _ =>
              simp only [required, hclient, bind, Except.bind] at h
              cases h
              exact ⟨uri, database, rfl, rfl, rfl⟩

end MongoDriver

/-! ## What a question finds -/

/-- What a retrieval finds after the given calls, as the database answers. -/
inductive Found (stores : MongoBackends) (history : List MongoCall)
    (ctx : TenantContext)
    (query : List Float32) (topK : Nat) : Result (List RetrievedItem) → Prop where
  | unsupported : stores.vector.backend = .documentDb →
      Found stores history ctx query topK (.error (.unsupported
        "$vectorSearch is not supported on the configured MongoBackend (DocumentDB)"))
  | failed (e : String) : stores.vector.backend = .atlas →
      stores.vector.server.vectorSearch (stores.vector.searchStage ctx query topK)
        (MongoCall.after stores history (Collection.empty, [])).1 = .error e →
      Found stores history ctx query topK
        (.error (.other ("mongo $vectorSearch failed: " ++ e)))
  | answered (rows : List (Except String ScoredRow)) (items : List RetrievedItem) :
      stores.vector.backend = .atlas →
      stores.vector.server.vectorSearch (stores.vector.searchStage ctx query topK)
        (MongoCall.after stores history (Collection.empty, [])).1 = .ok rows →
      ListsLive (MongoCall.acknowledgedWrites stores history) ctx.tenantId
        (Exhaustive (stores.vector.searchStage ctx query topK)
          (MongoCall.after stores history (Collection.empty, [])).1 rows)
        (items.map RetrievedItem.toMatch) →
      (∀ item ∈ items, stores.Enriched ctx 2 history item.chunkId
          item.relatedEdges) →
      Found stores history ctx query topK (.ok items)

section Retrieval

variable {driver : MongoDriver} {kind : MongoBackend} {uri database : String}
variable (hvector : Selective driver.vectorServer)
    (hgraph : Sound driver.graphServer)
variable {history : List MongoCall} {s : Backends}
variable (hview : (collectionsLens uri database).view s.2 =
  MongoCall.after (driver.stores kind) history (Collection.empty, []))

include hview

include hgraph in
private theorem collectItems_mongo (ctx : TenantContext)
    (found : List VectorMatch) :
    ∃ items, (driver.knowledge kind uri database).collectItems ctx found s =
        (.returned items, s) ∧
      ∀ item ∈ items,
        (driver.stores kind).Enriched ctx 2 history item.chunkId
          item.relatedEdges := by
  obtain ⟨items, s', hcollect, hitems, rfl⟩ := @collectItems_of_step Backends
    (driver.knowledge kind uri database) ctx (fun _ s' => s' = s)
    (fun _ chunkId edges =>
      (driver.stores kind).Enriched ctx 2 history chunkId edges)
    (by
      rintro n s' chunkId rfl
      refine @MongoBackends.relatedEdges_of_traverse (driver.stores kind) Backends
        (driver.knowledge kind uri database) ctx history chunkId s'
          (fun s => s = s') rfl
        (fun _ => rfl) fun _ => ?_
      obtain ⟨result, htraverse, henriched⟩ := @MongoBackends.traverse_cases
        (driver.stores kind) hgraph ctx chunkId 2 (by decide) history
      refine ⟨result, s', ?_, henriched, rfl⟩
      rw [← hview] at htraverse
      have hentry : (driver.stores kind).graph.graphStore.traverse ctx
        (chunkIdAsNode chunkId) 2
          ((Lens.entry ⟨uri, database, "graph_edges"⟩).view s'.2.2) =
            (.returned result,
              (Lens.entry ⟨uri, database, "graph_edges"⟩).view s'.2.2) :=
        htraverse
      exact Action.zoom_of_unchanged (Action.zoom_of_unchanged
        (Action.zoom_of_unchanged hentry))) found 0 s rfl
  refine ⟨items, hcollect, fun item hitem => ?_⟩
  obtain ⟨i, hi⟩ := List.mem_iff_getElem?.mp hitem
  exact hitems i item hi

include hvector hgraph in
theorem retrieve_mongo (ctx : TenantContext) (query : List Float32) (topK : Nat) :
    ∃ result, (driver.knowledge kind uri database).retrieve ctx query topK s =
        (.returned result, s) ∧
      Found (driver.stores kind) history ctx query topK result := by
  have hread : (driver.knowledge kind uri database).policy.canRead ctx
      ctx.tenantId = true :=
    sameTenantPolicy_canRead ctx
  have hdocs : s.2.1 ⟨uri, database, "vectors"⟩ =
      (MongoCall.after (driver.stores kind) history (Collection.empty, [])).1 :=
    congrArg Prod.fst hview
  have hsearch : ∀ result, ((driver.stores kind).vector.search ctx query topK
        (MongoCall.after (driver.stores kind) history
            (Collection.empty, [])).1).1 =
          .returned result →
      (driver.knowledge kind uri database).vectorStore.search ctx query topK s =
        (.returned result, s) := by
    intro result hresult
    rw [← hdocs] at hresult
    have hentry : (driver.stores kind).vector.search ctx query topK
        ((Lens.entry ⟨uri, database, "vectors"⟩).view s.2.1) =
          (.returned result, (Lens.entry ⟨uri, database, "vectors"⟩).view s.2.1) :=
      Prod.ext hresult ((driver.stores kind).vector.search_snd ctx query topK _)
    exact Action.zoom_of_unchanged (Action.zoom_of_unchanged
      (Action.zoom_of_unchanged hentry))
  cases kind with
  | documentDb =>
      refine ⟨_, ?_, .unsupported rfl⟩
      rw [Knowledge.retrieve_of_permitted hread, hsearch _ rfl]
  | atlas =>
      cases hrows : (driver.stores .atlas).vector.server.vectorSearch
          ((driver.stores .atlas).vector.searchStage ctx query topK)
          (MongoCall.after (driver.stores .atlas)
            history (Collection.empty, [])).1 with
      | error e =>
          refine ⟨_, ?_, .failed e rfl hrows⟩
          rw [Knowledge.retrieve_of_permitted hread,
            hsearch _ (search_of_failure rfl hrows)]
      | ok rows =>
          obtain ⟨found, hfound, hlists⟩ := search_of_rows rfl hvector
            (MongoCall.corresponds_after (driver.stores .atlas) history) hrows
          obtain ⟨items, hcollect, henriched⟩ :=
            collectItems_mongo hgraph hview ctx found
          refine ⟨_, Knowledge.retrieve_of_found hread (hsearch _ hfound) hcollect,
            .answered rows items rfl hrows ?_ henriched⟩
          rwa [Knowledge.collectItems_matches _ ctx hcollect]

end Retrieval

/-! ## The process -/

inductive MongoEvent where
  | request (request : Request)
  | write (call : MongoCall)

def MongoEvent.call? : MongoEvent → Option MongoCall
  | .request _ => none
  | .write call => some call

/-- A service over an application that was wired from an environment with MongoDB. -/
structure MongoDeployment where
  framework : Framework
  service : Service
  tools : ToolRegistry Backends
  model : Model
  driver : MongoDriver
  order : IterationOrder ChunkId StoredVector
  env : Environment
  selects : env.SelectsMongo
  app : AppState Backends
  wired : AppState.newFromEnv driver order env tools (fixedLlm model) noSleep =
    .ok app

namespace MongoDeployment

variable (deployment : MongoDeployment)

def stores : MongoBackends := deployment.driver.stores deployment.env.mongoKind

def uri : String := deployment.env.mongoUri.getD ""

def database : String := deployment.env.mongoDb.getD ""

def collections : Lens Databases MongoStores :=
  collectionsLens deployment.uri deployment.database

theorem app_eq : deployment.app = .newWithKnowledge
    (deployment.driver.knowledge deployment.env.mongoKind deployment.uri
      deployment.database)
    deployment.tools (fixedLlm deployment.model) noSleep := by
  obtain ⟨knowledge, hknowledge, happ⟩ :=
    AppState.newFromEnv_eq_ok_iff.mp deployment.wired
  obtain ⟨uri, database, huri, hdatabase, rfl⟩ :=
    MongoDriver.knowledge_of_selected deployment.selects hknowledge
  rw [← happ, MongoDeployment.uri, MongoDeployment.database, huri, hdatabase,
    Option.getD_some, Option.getD_some]

def serve : Handler World :=
  buildRouter deployment.framework deployment.service deployment.app

def writeCollections (call : MongoCall) (databases : Databases) : Databases :=
  deployment.collections.put
    (MongoCall.next deployment.stores (deployment.collections.view databases)
      call) databases

def next (world : World) : MongoEvent → World
  | .request request => (deployment.serve request world).2
  | .write call =>
      (world.1, (world.2.1,
        (world.2.2.1, deployment.writeCollections call world.2.2.2)))

/-- The collections hold what the calls made of empty ones. -/
def Holds (history : List MongoCall) (world : World) : Prop :=
  deployment.collections.view world.2.2.2 =
    MongoCall.after deployment.stores history (Collection.empty, [])

variable {deployment}

section Step

variable (hvector : Selective deployment.driver.vectorServer)
variable (hgraph : Sound deployment.driver.graphServer)
variable {history : List MongoCall} {world : World}
    (hholds : deployment.Holds history world)

include hvector hgraph hholds

private theorem answerQuestion_mongo (ctx : TenantContext) (question : String) :
    ∃ result, deployment.app.answerQuestion ctx question world.2 =
        (.returned (result >>= reply deployment.model question), world.2) ∧
      Found deployment.stores history ctx (naiveEmbed question) 5 result := by
  obtain ⟨result, hretrieve, hfound⟩ := retrieve_mongo hvector hgraph hholds ctx
    (naiveEmbed question) 5
  refine ⟨result, ?_, hfound⟩
  rw [deployment.app_eq]
  exact answerQuestion_of_result hretrieve deployment.tools
    deployment.model world.2.1

/-- Step lemma: a request gets a response and changes the checks only. -/
theorem serve_mongo : ∃ answer : TenantContext → String → Result GenAiResponse,
    (∀ ctx question, ∃ result,
      answer ctx question = result >>= reply deployment.model question ∧
      Found deployment.stores history ctx (naiveEmbed question) 5 result) ∧
    ∀ request, deployment.serve request world =
      (.returned (guarded deployment.framework deployment.service
          (respondWith deployment.framework answer) world.1 request).1,
        ((guarded deployment.framework deployment.service
          (respondWith deployment.framework answer) world.1 request).2,
            world.2)) := by
  choose result hanswer hfound using answerQuestion_mongo hvector hgraph hholds
  refine ⟨fun ctx question => result ctx question >>=
    reply deployment.model question,
    fun ctx question => ⟨_, rfl, hfound ctx question⟩, fun request => ?_⟩
  exact routerWith_of_answers (endpoint_of_results hanswer deployment.framework)
    deployment.service world.1 request

private theorem holds_next (event : MongoEvent) :
    deployment.Holds (history ++ event.call?.toList)
      (deployment.next world event) := by
  cases event with
  | request request =>
      obtain ⟨answer, -, hserve⟩ := serve_mongo hvector hgraph hholds
      rw [MongoEvent.call?, Option.toList_none, List.append_nil, next, hserve]
      exact hholds
  | write call =>
      rw [MongoEvent.call?, Option.toList_some, Holds,
        MongoCall.after_append, ← hholds]
      exact deployment.collections.view_put _ _

end Step

/-- Run lemma: the collections hold what the writes of the run made of them. -/
theorem holds_run (hvector : Selective deployment.driver.vectorServer)
    (hgraph : Sound deployment.driver.graphServer) {history : List MongoCall}
    {world : World} (hholds : deployment.Holds history world)
    (events : List MongoEvent) :
    deployment.Holds (history ++ events.filterMap MongoEvent.call?)
      (events.foldl deployment.next world) := by
  induction events generalizing history world with
  | nil => simpa using hholds
  | cons event events ih =>
      have hlast := ih (holds_next hvector hgraph hholds event)
      rw [List.append_assoc] at hlast
      rw [List.foldl_cons, List.filterMap_cons]
      cases hcall : event.call? with
      | none => simpa [hcall] using hlast
      | some call => simpa [hcall] using hlast

/--
After any run over empty collections, every request gets a response that leaves
stores and counters as they are, and an accepted question of an admitted caller
gets the model's answer to what the database finds, or its failure.
-/
theorem mongo_run_served (hvector : Selective deployment.driver.vectorServer)
    (hgraph : Sound deployment.driver.graphServer) {start : World}
    (hstart : deployment.collections.view start.2.2.2 = (Collection.empty, []))
    (events : List MongoEvent) (request : Request) :
    let world := events.foldl deployment.next start
    let history := events.filterMap MongoEvent.call?
    (∃ response checks, deployment.serve request world =
      (.returned response, (checks, world.2))) ∧
    ∀ record question, isQuery request →
    PresentsKey deployment.service request record →
      Admitted deployment.service world.1 record.context request.time = true →
      Accepted deployment.framework (request.asCaller record.context) question →
        ∃ result, Found deployment.stores history record.context
          (naiveEmbed question) 5
            result ∧
          (deployment.serve request world).1 =
            .returned (answerResponse
              (result >>= reply deployment.model question)) := by
  intro world history
  have hholds : deployment.Holds history world :=
    holds_run hvector hgraph (show deployment.Holds [] start from hstart) events
  obtain ⟨answer, hanswer, hserve⟩ := serve_mongo hvector hgraph hholds
  refine ⟨⟨_, _, hserve request⟩,
    fun record question hquery hkey hadmitted haccepted => ?_⟩
  obtain ⟨result, hresult, hfound⟩ := hanswer record.context question
  refine ⟨result, hfound, ?_⟩
  rw [hserve, guarded_of_admitted _ hquery hkey hadmitted,
    respondWith_of_accepted hquery haccepted, hresult]

noncomputable def documentedDriver : MongoDriver where
  withUriStr _ := .ok ()
  vectorServer := Storage.referenceServer .arbitrary
  graphServer := Storage.Mongo.referenceServer
  link := ⟨.arbitrary, none⟩

def mongoEnvironment : Environment :=
  ⟨some "mongo", some "mongodb://localhost", some "milona", none⟩

theorem knowledgeFromEnv_mongoEnvironment :
    knowledgeFromEnv documentedDriver LocalSetup.wiring.order mongoEnvironment =
      .ok (documentedDriver.knowledge .atlas "mongodb://localhost" "milona") := by
  have hmongo : eqIgnoreAsciiCase "mongo" "mongo" = true := by decide +kernel
  simp only [knowledgeFromEnv, mongoEnvironment, if_pos hmongo]
  rfl

noncomputable def mongoDeployment : MongoDeployment where
  framework := frameworkFor "hello?"
  service := LocalSetup.service
  tools := ToolRegistry.new
  model := fun _ => .ok ⟨"canned answer", 10, 5⟩
  driver := documentedDriver
  order := LocalSetup.wiring.order
  env := mongoEnvironment
  selects := ⟨"mongo", rfl, by decide +kernel⟩
  app := .newWithKnowledge
      (documentedDriver.knowledge .atlas "mongodb://localhost" "milona")
    ToolRegistry.new (fixedLlm fun _ => .ok ⟨"canned answer", 10, 5⟩) noSleep
  wired := AppState.newFromEnv_eq_ok_iff.mpr
    ⟨_, knowledgeFromEnv_mongoEnvironment, rfl⟩

/-- Another process writes a chunk and an edge, and then a user asks. -/
noncomputable def chunkThenEdge : List MongoEvent :=
  [.write (.vector (.upsert ⟨.arbitrary, none⟩ sampleCaller sampleChunk [1])),
    .write (.addEdge Storage.Mongo.referenceServer
        (.of_documented referenceServer_documented)
      sampleCaller ⟨chunkIdAsNode sampleChunk.id, "b", "mentions"⟩)]

theorem mongo_run_served_chunkThenEdge :
    let world := chunkThenEdge.foldl mongoDeployment.next
      (World.fresh LocalSetup.databases)
    let history := chunkThenEdge.filterMap MongoEvent.call?
    let request := postQuestion "key-a" "hello?"
    (∃ response checks, mongoDeployment.serve request world =
      (.returned response, (checks, world.2))) ∧
    ∃ result, Found mongoDeployment.stores history ⟨ourTenant, .member, "user-a"⟩
        (naiveEmbed "hello?") 5 result ∧
      (mongoDeployment.serve request world).1 =
        .returned (answerResponse
          (result >>= reply mongoDeployment.model "hello?")) := by
  intro world history request
  obtain ⟨hanswered, hserved⟩ := @mongo_run_served mongoDeployment
    (selective_referenceServer _) (.of_documented referenceServer_documented)
    (.fresh LocalSetup.databases) rfl chunkThenEdge request
  refine ⟨hanswered, hserved ⟨ourTenant, .member, "user-a"⟩ "hello?" ⟨rfl, rfl⟩
    (LocalSetup.presentsKey "hello?") ?_ ⟨rfl, by decide⟩⟩
  decide +kernel

end MongoDeployment

end Milona.Presenter
