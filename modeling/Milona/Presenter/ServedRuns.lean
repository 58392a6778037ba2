import Milona.Presenter.Agreement
import Milona.Retrieval.Isolation
import Milona.Storage.Memory.ModerateVectors

/-!
# Runs of a serving process

A process serves requests over in-memory stores that other parts of it write.
As long as the stored vectors are moderate, every request gets a response that
is a function of the limiter's checks and of the contents of the stores, and
requests change the checks only.
-/

namespace Milona.Presenter

open Milona.Core Milona.Foundation Milona.Retrieval Milona.Adapter
open Milona.Storage.Memory
open Milona.Foundation.Binary32

/-! ## Questions as vectors -/

theorem isModerate_naiveEmbed (question : String) :
    IsModerate (naiveEmbed question) := by
  intro component hcomponent
  obtain ⟨entry, -, rfl⟩ := List.mem_map.mp hcomponent
  have hlt : (entry % 1000).toNat < 1000 := by
    rw [UInt64.toNat_mod]
    exact Nat.mod_lt _ (by decide)
  obtain ⟨x, hx, hnearest⟩ := value_toFloat32 (entry % 1000)
  have hnonneg : 0 ≤ x := hnearest.ge .zero (Nat.cast_nonneg _)
  have htop : x ≤ 2 ^ (10 : Int) := by
    refine hnearest.le (isSingle_two_zpow (by omega)) ?_
    have hcast : ((entry % 1000).toNat : ℚ) < 1000 := by exact_mod_cast hlt
    exact hcast.le.trans (by norm_num)
  have hthousand : value 1000 = some 1000 := by
    have hunpack : (1000 : Float32).toModel.unpack =
        .finite .positive (1000 * 2 ^ 14) (-14) (by decide) := rfl
    rw [value, hunpack, FloatPacking.unpackedValue_finite]
    norm_num [FloatPacking.signed]
  have hquotient : |x / 1000| ≤ 2 ^ (50 : Int) := by
    rw [abs_of_nonneg (by positivity)]
    calc
      x / 1000 ≤ x := div_le_self hnonneg (by norm_num)
      _ ≤ 2 ^ (50 : Int) := htop.trans (by norm_num)
  obtain ⟨r, hr, hround⟩ := value_div hx hthousand (by norm_num)
    (hquotient.trans (RoundToNearest.two_zpow_le (by omega)))
  exact ⟨r, hr, hround.magnitude_le (isSingle_two_zpow (by omega)) hquotient⟩

/-! ## One turn -/

section Turn

variable {σ : Type}

private theorem generate_unchanged (tools : ToolRegistry σ)
    (llm : LlmProvider σ) {model : Model} {s : σ}
    (hllm : ∀ messages, llm.complete messages s = (.returned (model messages), s))
    (ctx : TenantContext) (question : String) (items : List RetrievedItem) :
    generate ctx tools llm (questionRequest question) items s =
      (.returned (reply model question items), s) := by
  unfold generate
  change ((pure [] : Action σ (List (String × String))) >>= _) s = _
  rw [Action.pure_bind, Action.bind_of_returned (hllm _)]
  unfold reply
  cases model (buildMessages (questionRequest question) items []) <;> rfl

theorem answerQuestion_of_retrieve {knowledge : Knowledge σ}
    {ctx : TenantContext} {question : String} {items : List RetrievedItem}
    {s : σ}
    (h : knowledge.retrieve ctx (naiveEmbed question) 5 s =
      (.returned (.ok items), s))
    (tools : ToolRegistry σ) (model : Model) (counters : Mutex Usage) :
    (AppState.newWithKnowledge knowledge tools (fixedLlm model)
      noSleep).answerQuestion ctx
        question (counters, s) =
      (.returned (reply model question items), (counters, s)) := by
  have hinitial : RetryConfig.default.initialBackoff.seconds ≤ 5 := by
    decide +kernel
  have hturn := generate_unchanged tools
    (AppState.newWithKnowledge knowledge tools (fixedLlm model)
      noSleep).retrying.llmProvider
    (fun messages => attempts_fixed model messages s 2 hinitial none)
      ctx question items
  rw [AppState.answerQuestion_eq]
  apply Action.zoom_of_unchanged
  change runTurn ctx knowledge tools _ (questionRequest question) s = _
  change knowledge.retrieve ctx (questionRequest question).queryEmbedding
    (questionRequest question).topK s = _ at h
  rw [runTurn_apply, h]
  exact hturn

theorem answerQuestion_of_result {knowledge : Knowledge σ} {ctx : TenantContext}
    {question : String} {result : Result (List RetrievedItem)} {s : σ}
    (h : knowledge.retrieve ctx (naiveEmbed question) 5 s = (.returned result, s))
    (tools : ToolRegistry σ) (model : Model) (counters : Mutex Usage) :
    (AppState.newWithKnowledge knowledge tools (fixedLlm model)
      noSleep).answerQuestion ctx
        question (counters, s) =
      (.returned (result >>= reply model question), (counters, s)) := by
  cases result with
  | ok items => exact answerQuestion_of_retrieve h tools model counters
  | error e =>
      rw [AppState.answerQuestion_eq]
      apply Action.zoom_of_unchanged
      change runTurn ctx knowledge tools _ (questionRequest question) s = _
      change knowledge.retrieve ctx (questionRequest question).queryEmbedding
        (questionRequest question).topK s = _ at h
      rw [runTurn_apply, h]
      rfl

def answerResponse : Result GenAiResponse → Response
  | .ok response => queryResponse response
  | .error e => errorResponse (statusOf e) "query_failed" e.display

/-- What the routes answer, for given answers to the callers' questions. -/
def respondWith (framework : Framework)
    (answer : TenantContext → String → Result GenAiResponse)
    (request : Request) : Response :=
  match routeOf request, request.extension with
  | .healthz, _ => healthz
  | .unmatched, _ => framework.unmatched request
  | .query, none => framework.missingExtension
  | .query, some ctx =>
      match framework.decodeQuestion request with
      | .error rejection => rejection
      | .ok question =>
          if question.toList.all isWhitespace then
            errorResponse 400 "invalid_input" "question must not be empty"
          else answerResponse (answer ctx question)

/-- What the routes answer, for given items of the caller's question. -/
def respond (framework : Framework) (model : Model)
    (items : TenantContext → String → List RetrievedItem) : Request → Response :=
  respondWith framework fun ctx question =>
    reply model question (items ctx question)

theorem endpoint_of_results {s : σ}
    {answerQuestion : TenantContext → String → Action σ (Result GenAiResponse)}
    {answer : TenantContext → String → Result GenAiResponse}
    (h : ∀ ctx question, answerQuestion ctx question s =
      (.returned (answer ctx question), s))
    (framework : Framework) (request : Request) :
    endpoint framework (query framework answerQuestion) request s =
      (.returned (respondWith framework answer request), s) := by
  unfold endpoint respondWith query
  cases routeOf request with
  | healthz => rfl
  | unmatched => rfl
  | query =>
      cases request.extension with
      | none => rfl
      | some ctx =>
          dsimp only
          cases framework.decodeQuestion request with
          | error rejection => rfl
          | ok question =>
              dsimp only
              split
              · rfl
              · rw [Action.bind_of_returned (h ctx question)]
                cases answer ctx question <;> rfl

theorem endpoint_of_answers {model : Model} {s : σ}
    {answerQuestion : TenantContext → String → Action σ (Result GenAiResponse)}
    {items : TenantContext → String → List RetrievedItem}
    (h : ∀ ctx question, answerQuestion ctx question s =
      (.returned (reply model question (items ctx question)), s))
    (framework : Framework) (request : Request) :
    endpoint framework (query framework answerQuestion) request s =
      (.returned (respond framework model items request), s) :=
  endpoint_of_results h framework request

/-- The response to a request and the checks after it, for given answers of the routes. -/
def guarded (framework : Framework) (service : Service)
    (answer : Request → Response) (checks : Checks) (request : Request) :
    Response × Checks :=
  if guards framework request then
    match authenticate service.apiKeys request with
    | .error reason => (unauthorized reason, checks)
    | .ok ctx =>
        let checks' := checks ++
          [(limiterKey ctx.tenantId ctx.subject, request.time)]
        if Admitted service checks ctx request.time then
          (answer (request.asCaller ctx), checks')
        else (tooManyRequests, checks')
  else (answer request, checks)

theorem routerWith_of_answers {framework : Framework} {handler : Handler σ}
    {s : σ} {answer : Request → Response}
    (h : ∀ request, endpoint framework handler request s =
      (.returned (answer request), s))
    (service : Service) (checks : Checks) (request : Request) :
    routerWith framework service handler request (checks, s) =
      (.returned (guarded framework service answer checks request).1,
        ((guarded framework service answer checks request).2, s)) := by
  rw [guarded]
  cases treatment framework service request with
  | unguarded hguards =>
      rw [routerWith_of_unguarded _ _ hguards, h]
      simp [hguards]
  | refused reason hguards hcaller =>
      rw [routerWith_of_error _ _ hguards hcaller]
      simp [hguards, hcaller]
  | checked ctx hguards hcaller =>
      rw [routerWith_of_ok _ _ hguards hcaller, h]
      simp only [hguards, hcaller, if_true]
      split <;> rfl

theorem guarded_of_admitted {framework : Framework} {service : Service}
    {checks : Checks} {request : Request} {record : ApiKeyRecord}
    (answer : Request → Response) (hquery : isQuery request)
    (hkey : PresentsKey service request record)
    (hadmitted : Admitted service checks record.context request.time = true) :
    (guarded framework service answer checks request).1 =
      answer (request.asCaller record.context) := by
  rw [guarded, guards_of_isQuery _ hquery, authenticate_of_record hkey]
  simp [hadmitted]

theorem respondWith_of_accepted {framework : Framework} {request : Request}
    {ctx : TenantContext} {question : String} (hquery : isQuery request)
    (haccepted : Accepted framework (request.asCaller ctx) question)
    (answer : TenantContext → String → Result GenAiResponse) :
    respondWith framework answer (request.asCaller ctx) =
      answerResponse (answer ctx question) := by
  have hroute : routeOf (request.asCaller ctx) = .query :=
    routeOf_of_isQuery hquery
  have hcaller : (request.asCaller ctx).extension = some ctx := rfl
  simp [respondWith, hroute, hcaller, haccepted.1, haccepted.2]

end Turn

/-! ## Retrievals from unlocked stores -/

section Unlocked

variable (order : IterationOrder ChunkId StoredVector)

/-- What a question of a caller finds in the contents of the stores. -/
def itemsIn (contents : Contents) (ctx : TenantContext) (question : String) :
    List RetrievedItem :=
  let scored := InMemoryVectorStore.scoredList order ctx.tenantId
      (naiveEmbed question)
    contents.records
  (((sortBy InMemoryVectorStore.compareScores scored).getD []).take 5).map
    (itemOf (InMemoryGraphStore.edgesOf ctx.tenantId contents.edges) 2)

private theorem collectItems_unlocked (contents : Contents)
    (databases : Databases)
    (ctx : TenantContext) (matches_ : List VectorMatch) :
    (inMemoryKnowledge order).collectItems ctx matches_
        (contents.unlocked, databases) =
      (.returned (matches_.map
        (itemOf (InMemoryGraphStore.edgesOf ctx.tenantId contents.edges) 2)),
        (contents.unlocked, databases)) := by
  induction matches_ with
  | nil => rfl
  | cons found rest ih =>
      have hrelated : (inMemoryKnowledge order).relatedEdges ctx found.chunkId
          (contents.unlocked, databases) = (.returned (itemOf
            (InMemoryGraphStore.edgesOf ctx.tenantId contents.edges)
              2 found).relatedEdges,
            (contents.unlocked, databases)) := rfl
      rw [Knowledge.collectItems, Action.bind_of_returned hrelated,
        Action.bind_of_returned ih]
      rfl

theorem retrieve_unlocked {contents : Contents} (databases : Databases)
    {ctx : TenantContext} {question : String}
    (h : InMemoryVectorStore.Sortable ctx.tenantId (naiveEmbed question)
      contents.records) :
    (inMemoryKnowledge order).retrieve ctx (naiveEmbed question) 5
        (contents.unlocked, databases) =
      (.returned (.ok (itemsIn order contents ctx question)),
        (contents.unlocked, databases)) ∧
    IsTopK InMemoryVectorStore.matchRank
      (InMemoryVectorStore.scoredPool ctx.tenantId (naiveEmbed question)
        contents.records) 5
      ((itemsIn order contents ctx question).map RetrievedItem.toMatch) := by
  obtain ⟨sorted, hsort, hpool, hdescending⟩ :=
    InMemoryVectorStore.sortBy_scoredList order h
  have hitems : itemsIn order contents ctx question = (sorted.take 5).map
      (itemOf (InMemoryGraphStore.edgesOf ctx.tenantId contents.edges) 2) := by
    rw [itemsIn, hsort, Option.getD_some]
  constructor
  · have hsearch : InMemoryVectorStore.search order ctx (naiveEmbed question) 5
        ⟨contents.records, false⟩ =
          (.returned (.ok (sorted.take 5)), ⟨contents.records, false⟩) := by
      rw [InMemoryVectorStore.search_apply, hsort]
    have hzoom : (inMemoryKnowledge order).vectorStore.search ctx
      (naiveEmbed question) 5
        (contents.unlocked, databases) =
          (.returned (.ok (sorted.take 5)), (contents.unlocked, databases)) :=
      Action.zoom_of_unchanged (Action.zoom_of_unchanged hsearch)
    rw [hitems]
    exact Knowledge.retrieve_of_found (sameTenantPolicy_canRead ctx) hzoom
      (collectItems_unlocked order contents databases ctx _)
  · rw [hitems, map_toMatch_itemOf, ← hpool]
    exact isTopK_take hdescending 5

end Unlocked

/-! ## The process -/

structure Deployment where
  framework : Framework
  service : Service
  tools : ToolRegistry Backends
  model : Model

inductive ServerEvent where
  | request (request : Request)
  | write (call : StoreCall)

abbrev World : Type := Checks × Metered Backends

/-- A process with the given checks and contents, and with nothing locked. -/
def World.of (databases : Databases) (checks : Checks) (contents : Contents) :
    World :=
  (checks, (Mutex.new ∅, (contents.unlocked, databases)))

def World.fresh (databases : Databases) : World := .of databases [] .empty

def writeStores (call : StoreCall) : Action World (Result Unit) :=
  Action.zoom .snd (Action.zoom .snd (Action.zoom .fst call.perform))

namespace ServerEvent

/-- The vector that the event brings is moderate. -/
def BringsModerate : ServerEvent → Prop
  | .write (.upsert _ _ embedding) => IsModerate embedding
  | .write (.deleteDocument ..) | .write (.addEdge ..) | .request _ => True

theorem holdsModerate_effect {contents : Contents}
    (h : VectorCall.HoldsModerate contents.records) {call : StoreCall}
    (hcall : (ServerEvent.write call).BringsModerate) :
    VectorCall.HoldsModerate (call.effect contents).records := by
  cases call with
  | upsert ctx chunk embedding =>
      exact VectorCall.holdsOnly_effect h hcall
  | deleteDocument ctx documentId =>
      exact VectorCall.holdsOnly_effect h trivial
  | addEdge ctx edge => exact h

end ServerEvent

namespace Deployment

variable (deployment : Deployment)

def serve (order : IterationOrder ChunkId StoredVector) : Handler World :=
  buildRouter deployment.framework deployment.service
    (AppState.newDefault order deployment.tools
      (fixedLlm deployment.model) noSleep)

/-- The response to a request, and the checks after it. -/
def responseTo (order : IterationOrder ChunkId StoredVector) (checks : Checks)
    (contents : Contents) (request : Request) : Response × Checks :=
  guarded deployment.framework deployment.service
    (respond deployment.framework deployment.model (itemsIn order contents))
      checks request

variable {deployment} {contents : Contents} {databases : Databases}

private theorem endpoint_of_moderate
    (order : IterationOrder ChunkId StoredVector)
    (h : VectorCall.HoldsModerate contents.records) (counters : Mutex Usage)
    (request : Request) :
    let app := AppState.newDefault order deployment.tools
      (fixedLlm deployment.model) noSleep
    let s := (counters, (contents.unlocked, databases))
    endpoint deployment.framework
        (query deployment.framework app.answerQuestion) request s =
      (.returned (respond deployment.framework deployment.model
          (itemsIn order contents)
        request), s) := by
  apply endpoint_of_answers
  intro ctx question
  have hsortable := VectorCall.sortable_of_moderate h
      (isModerate_naiveEmbed question)
    ctx.tenantId
  exact answerQuestion_of_retrieve (retrieve_unlocked order databases hsortable).1
    deployment.tools deployment.model counters

/-- Step lemma: over moderate records a request changes the checks only. -/
theorem serve_of_moderate (order : IterationOrder ChunkId StoredVector)
    (h : VectorCall.HoldsModerate contents.records) (checks : Checks)
    (request : Request) :
    deployment.serve order request (.of databases checks contents) =
      (.returned (deployment.responseTo order checks contents request).1,
        .of databases (deployment.responseTo order checks contents request).2
          contents) := by
  have hendpoint := fun request =>
    @endpoint_of_moderate deployment contents databases order h
      (Mutex.new ∅) request
  exact routerWith_of_answers hendpoint deployment.service checks request

theorem writeStores_of (call : StoreCall) (checks : Checks) :
    writeStores call (.of databases checks contents) =
      (.returned (.ok ()), .of databases checks (call.effect contents)) := by
  simp only [writeStores, World.of, Action.zoom_apply, Lens.snd_view,
    Lens.fst_view, StoreCall.perform_unlocked]
  rfl

/-! ## Every request of a run is answered -/

variable (deployment) in
def next (world : World)
    (step : IterationOrder ChunkId StoredVector × ServerEvent) : World :=
  match step.2 with
  | .request request => (deployment.serve step.1 request world).2
  | .write call => (writeStores call world).2

variable (deployment) in
/--
A step of the process: a request is answered and leaves the stores alone, an
admitted question gets the model's answer to the five best of the caller's
chunks, with the caller's edges around each, and a write is done.
-/
structure Serves (world : World)
    (step : IterationOrder ChunkId StoredVector × ServerEvent) : Prop where
  answered : ∀ request, step.2 = .request request →
    ∃ response checks, deployment.serve step.1 request world =
      (.returned response, (checks, world.2))
  best : ∀ request record question, step.2 = .request request → isQuery request →
    PresentsKey deployment.service request record →
    Admitted deployment.service world.1 record.context request.time = true →
    Accepted deployment.framework (request.asCaller record.context) question →
      ∃ items,
        IsTopK InMemoryVectorStore.matchRank
          (poolOf record.tenantId (naiveEmbed question) world.2.2.1) 5
          (items.map RetrievedItem.toMatch) ∧
        (∀ item ∈ items, item = itemOf
          (InMemoryGraphStore.edgesOf record.tenantId world.2.2.1.2.value)
              2 item.toMatch) ∧
        (deployment.serve step.1 request world).1 =
          .returned (answerResponse (reply deployment.model question items))
  written : ∀ call, step.2 = .write call →
    (writeStores call world).1 = .returned (.ok ())

private theorem responseTo_accepted
    (order : IterationOrder ChunkId StoredVector)
    {checks : Checks} {request : Request} {record : ApiKeyRecord}
    {question : String} (hquery : isQuery request)
    (hkey : PresentsKey deployment.service request record)
    (hadmitted : Admitted deployment.service checks record.context request.time = true)
    (haccepted : Accepted deployment.framework
      (request.asCaller record.context) question) :
    (deployment.responseTo order checks contents request).1 =
      answerResponse (reply deployment.model question
        (itemsIn order contents record.context question)) := by
  refine (guarded_of_admitted _ hquery hkey hadmitted).trans ?_
  exact respondWith_of_accepted hquery haccepted _

private theorem serves_of_moderate
    (h : VectorCall.HoldsModerate contents.records) (checks : Checks)
    (step : IterationOrder ChunkId StoredVector × ServerEvent) :
    deployment.Serves (.of databases checks contents) step := by
  refine ⟨fun request _ => ?_,
    fun request record question _ hquery hkey hadmitted haccepted => ?_,
    fun call _ => ?_⟩
  · rw [serve_of_moderate step.1 h]
    exact ⟨_, _, rfl⟩
  · have hsortable := VectorCall.sortable_of_moderate h
        (isModerate_naiveEmbed question)
      record.context.tenantId
    refine ⟨itemsIn step.1 contents record.context question,
      (retrieve_unlocked step.1 databases hsortable).2, ?_, ?_⟩
    · intro item hitem
      obtain ⟨found, -, rfl⟩ := List.mem_map.mp hitem
      rfl
    · rw [serve_of_moderate step.1 h]
      exact congrArg _ (responseTo_accepted step.1 hquery hkey hadmitted haccepted)
  · rw [writeStores_of]

/--
In a run that stores moderate vectors only, whatever the clients send and in
whatever order the map is iterated, every step is served.
-/
theorem moderate_run_served (deployment : Deployment) (databases : Databases)
    (steps : List (IterationOrder ChunkId StoredVector × ServerEvent))
    (h : ∀ step ∈ steps, step.2.BringsModerate) :
    EachStep deployment.next deployment.Serves (.fresh databases) steps := by
  have hrun : EachStep deployment.next (fun _ step => step.2.BringsModerate)
      (.fresh databases) steps :=
    .of_forall_mem (fun step hstep _ => h step hstep) (World.fresh databases)
  refine .of_invariant (fun world => ∃ checks contents,
    world = .of databases checks contents ∧
      VectorCall.HoldsModerate contents.records)
    ?_ ?_ ⟨[], .empty, rfl, fun id record hlookup => ?_⟩ hrun
  · rintro world step ⟨checks, contents, rfl, hmoderate⟩ -
    exact serves_of_moderate hmoderate checks step
  · rintro world ⟨order, event⟩ ⟨checks, contents, rfl, hmoderate⟩ hbrings
    cases event with
    | request request =>
        exact ⟨_, contents, congrArg Prod.snd
            (serve_of_moderate order hmoderate checks request),
          hmoderate⟩
    | write call =>
        exact ⟨checks, call.effect contents,
          congrArg Prod.snd (writeStores_of call checks),
          ServerEvent.holdsModerate_effect hmoderate hbrings⟩
  · cases hlookup

def twoUserDeployment : Deployment :=
  ⟨frameworkFor "hello?", LocalSetup.service, ToolRegistry.new,
    fun _ => .ok ⟨"canned answer", 10, 5⟩⟩

/-- Two tenants write, and then two users of one of them ask. -/
def mixedEvents : List ServerEvent :=
  mixedHistory.map .write ++
    [.request (postQuestion "key-a" "hello?"),
      .request (postQuestion "key-b" "hello?")]

private theorem isModerate_unit {vector : List Float32} (h : vector ⊆ [0, 1]) :
    IsModerate vector := by
  intro component hcomponent
  rcases List.mem_cons.mp (h hcomponent) with rfl | hone
  · exact ⟨0, rfl, by norm_num⟩
  · rw [List.mem_singleton.mp hone]
    exact isBounded_of_finite .positive (2 ^ 23) (-23) (by decide)
      rfl (by norm_num)

theorem bringsModerate_mixedEvents :
    ∀ event ∈ mixedEvents, event.BringsModerate := by
  simp only [mixedEvents, mixedHistory, List.map_cons, List.map_nil,
    List.cons_append, List.nil_append, List.forall_mem_cons]
  refine ⟨isModerate_unit ?_, isModerate_unit ?_, trivial,
    isModerate_unit ?_, trivial, trivial, trivial,
    fun event h => absurd h List.not_mem_nil⟩ <;> simp

theorem moderate_run_served_mixedEvents :
    EachStep twoUserDeployment.next twoUserDeployment.Serves
        (World.fresh LocalSetup.databases)
      (mixedEvents.map fun event => (LocalSetup.wiring.order, event)) := by
  apply moderate_run_served
  rintro step hstep
  obtain ⟨event, hevent, rfl⟩ := List.mem_map.mp hstep
  exact bringsModerate_mixedEvents event hevent

end Deployment

end Milona.Presenter
