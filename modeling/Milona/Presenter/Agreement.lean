import Milona.Presenter.Cli
import Milona.Storage.Mongo.VectorFrame

/-!
# Agreement of the presenters

With a fixed model a turn is a function of what its retrieval finds.  The
command never finds anything, so the presenters agree where the route finds
nothing either, or where no answer comes out on both sides.
-/

namespace Milona.Presenter

open Milona.Core Milona.Foundation Milona.Retrieval Milona.Adapter
open Milona.Storage.Memory

variable {σ : Type}

/-! ## Turns with a fixed model -/

/-- What the model makes of a question and the items retrieved for it. -/
def reply (model : Model) (question : String) (items : List RetrievedItem) :
    Result GenAiResponse :=
  (model (buildMessages (questionRequest question) items [])).map fun response =>
    ⟨response.content, items, response.inputTokens, response.outputTokens⟩

def turnOutcome (model : Model) (question : String) :
    Outcome (Result (List RetrievedItem)) → Outcome (Result GenAiResponse)
  | .returned (.ok items) => .returned (reply model question items)
  | .returned (.error e) => .returned (.error e)
  | .panicked => .panicked

private theorem generate_fixed (tools : ToolRegistry σ) (llm : LlmProvider σ)
    {model : Model} (hllm : ∀ messages s,
      llm.complete messages s = (.returned (model messages), s))
    (ctx : TenantContext) (question : String) (items : List RetrievedItem)
    (s : σ) :
    (generate ctx tools llm (questionRequest question) items s).1 =
      .returned (reply model question items) := by
  unfold generate
  change (((pure [] : Action σ (List (String × String))) >>= _) s).1 = _
  rw [Action.pure_bind, Action.bind_of_returned (hllm _ s)]
  unfold reply
  cases model (buildMessages (questionRequest question) items []) <;> rfl

theorem answerQuestion_fixed (knowledge : Knowledge σ) (tools : ToolRegistry σ)
    (model : Model) (ctx : TenantContext) (question : String)
    (counters : Mutex Usage) (s : σ) :
    ((AppState.newWithKnowledge knowledge tools (fixedLlm model)
        noSleep).answerQuestion ctx question (counters, s)).1 =
      turnOutcome model question
        (knowledge.retrieve ctx (naiveEmbed question) 5 s).1 := by
  have hllm : ∀ messages s, (AppState.newWithKnowledge knowledge tools
      (fixedLlm model) noSleep).retrying.llmProvider.complete messages s =
        (.returned (model messages), s) := by
    intro messages s
    have hinitial : RetryConfig.default.initialBackoff.seconds ≤ 5 := by
      decide +kernel
    exact attempts_fixed model messages s 2 hinitial none
  rw [AppState.answerQuestion_eq, Action.zoom_apply]
  change (runTurn ctx knowledge tools _ (questionRequest question) s).1 =
    turnOutcome model question (knowledge.retrieve ctx
      (questionRequest question).queryEmbedding (questionRequest question).topK
      s).1
  rw [runTurn_apply]
  rcases knowledge.retrieve ctx (questionRequest question).queryEmbedding
      (questionRequest question).topK s with ⟨(e | items) | _, s'⟩
  · rfl
  · exact generate_fixed tools _ hllm ctx question items s'
  · rfl

/-! ## When the presenters agree -/

def Fails (model : Model) (question : String) (items : List RetrievedItem) :
    Prop :=
  ∃ e, model (buildMessages (questionRequest question) items []) = .error e

/--
The route takes the question and finds nothing for it; or the model fails on the
bare question, and on whatever the route finds for a question that it takes.
-/
def AgreeWhen (model : Model) (question : String) (accepted : Prop)
    (retrieval : Outcome (Result (List RetrievedItem))) : Prop :=
  (accepted ∧ retrieval = .returned (.ok [])) ∨
    (Fails model question [] ∧ (accepted → ∀ items,
      retrieval = .returned (.ok items) → Fails model question items))

theorem observe_turnOutcome_ok (model : Model) (question : String)
    (items : List RetrievedItem) :
    (Fails model question items ∧
      observe (turnOutcome model question (.returned (.ok items))) =
        Observation.refused) ∨
    (¬ Fails model question items ∧ ∃ answer,
      observe (turnOutcome model question (.returned (.ok items))) =
        ⟨some answer, [items]⟩) := by
  unfold Fails
  cases hmodel : model (buildMessages (questionRequest question) items []) with
  | error e =>
      left
      exact ⟨⟨e, rfl⟩, by simp [turnOutcome, reply, hmodel, Except.map, observe]⟩
  | ok response =>
      right
      exact ⟨by simp, response.content,
        by simp [turnOutcome, reply, hmodel, Except.map, observe]⟩

theorem answer_eq_none_iff (model : Model) (question : String)
    (retrieval : Outcome (Result (List RetrievedItem))) :
    (observe (turnOutcome model question retrieval)).answer = none ↔
      ∀ items, retrieval = .returned (.ok items) →
        Fails model question items := by
  rcases retrieval with (e | items) | _
  · simp [turnOutcome, observe, Observation.refused]
  · have hcases := observe_turnOutcome_ok model question items
    constructor
    · rintro hnone _ ⟨rfl⟩
      rcases hcases with ⟨hfails, -⟩ | ⟨-, answer, hanswer⟩
      · exact hfails
      · rw [hanswer] at hnone
        cases hnone
    · intro hfails
      rcases hcases with ⟨-, hrefused⟩ | ⟨hworks, -⟩
      · rw [hrefused]
        rfl
      · exact absurd (hfails items rfl) hworks
  · simp [turnOutcome, observe, Observation.refused]

/-- An answer shows which items it was computed from. -/
theorem retrieval_of_observe {model : Model} {question : String}
    {retrieval : Outcome (Result (List RetrievedItem))} {answer : Option String}
    {items : List RetrievedItem}
    (h : observe (turnOutcome model question retrieval) = ⟨answer, [items]⟩) :
    retrieval = .returned (.ok items) := by
  rcases retrieval with (e | items') | _
  · cases h
  · rcases observe_turnOutcome_ok model question items' with
      ⟨-, hrefused⟩ | ⟨-, answer', hanswer⟩
    · rw [hrefused] at h
      cases h
    · rw [hanswer] at h
      cases h
      rfl
  · cases h

/-- The command has no items; the route takes the question or refuses it. -/
theorem agree_iff (model : Model) (question : String) {accepted : Prop}
    {retrieval : Outcome (Result (List RetrievedItem))} {route : Observation}
    (haccepted : accepted →
      route = observe (turnOutcome model question retrieval))
    (hrefused : ¬ accepted → route = Observation.refused) :
    Agree (observe (turnOutcome model question (.returned (.ok [])))) route ↔
      AgreeWhen model question accepted retrieval := by
  rcases observe_turnOutcome_ok model question [] with
    ⟨hfails, hcommand⟩ | ⟨hworks, answer, hcommand⟩
  · rw [hcommand, agree_refused_iff]
    by_cases htaken : accepted
    · rw [haccepted htaken, answer_eq_none_iff]
      constructor
      · exact fun h => .inr ⟨hfails, fun _ => h⟩
      · rintro (⟨-, hnothing⟩ | ⟨-, h⟩)
        · rintro items hitems
          rw [hnothing] at hitems
          cases hitems
          exact hfails
        · exact h htaken
    · rw [hrefused htaken]
      exact ⟨fun _ => .inr ⟨hfails, fun h => absurd h htaken⟩, fun _ => rfl⟩
  · rw [hcommand, agree_answered_iff]
    constructor
    · intro hroute
      by_cases htaken : accepted
      · rw [haccepted htaken] at hroute
        exact .inl ⟨htaken, retrieval_of_observe hroute⟩
      · rw [hrefused htaken] at hroute
        cases hroute
    · rintro (⟨htaken, hnothing⟩ | ⟨hfails, -⟩)
      · rw [haccepted htaken, hnothing, hcommand]
      · exact absurd hfails hworks

/--
The command and an admitted question on the route agree exactly if the route
takes the question and the configured stores hold nothing for it, or neither
side gets an answer out of the model.
-/
theorem presenters_agree_iff (driver : MongoDriver)
    (order : IterationOrder ChunkId StoredVector) (env : Environment)
    (tools : ToolRegistry Backends) (model : Model) {app : AppState Backends}
    (happ : AppState.newFromEnv driver order env tools (fixedLlm model) noSleep =
      .ok app)
    (framework : Framework) (hrejects : RejectsWithError framework)
    {service : Service} {checks : Checks} {request : Request}
    (hquery : isQuery request) {tenant : Uuid} {subject question : String}
    (hkey : PresentsKey service request ⟨⟨tenant⟩, .member, subject⟩)
    (hadmitted : Admitted service checks ⟨⟨tenant⟩, .member, subject⟩
      request.time = true)
    (hcarries : Carries framework
      (request.asCaller ⟨⟨tenant⟩, .member, subject⟩) question)
    (newV4 : Uuid) (databases : Databases) (stores : InMemoryStores)
    (counters : Mutex Usage) :
    Agree
      (observeCommand ⟨order, tools, fixedLlm model, noSleep⟩ databases question
        (some tenant) newV4 subject)
      (observeRoute framework service app request checks
        (counters, (stores, databases))) ↔
    AgreeWhen model question
      (Accepted framework (request.asCaller ⟨⟨tenant⟩, .member, subject⟩)
        question)
      (app.knowledge.retrieve ⟨⟨tenant⟩, .member, subject⟩
        (naiveEmbed question) 5 (stores, databases)).1 := by
  obtain ⟨knowledge, -, hknowledge⟩ := AppState.newFromEnv_eq_ok_iff.mp happ
  subst hknowledge
  rw [observeCommand_eq, CommandWiring.app, AppState.newDefault,
    answerQuestion_fixed, retrieve_fresh order databases _ _ (by decide)]
  apply agree_iff
  · intro haccepted
    rw [observeRoute_of_accepted _ _ hquery hkey hadmitted haccepted]
    exact congrArg observe (answerQuestion_fixed knowledge tools model _
      question counters (stores, databases))
  · exact observeRoute_of_refused _ _ hquery hkey hadmitted hrejects hcarries

/-! ## A user on both sides -/

namespace LocalSetup

def wiring : CommandWiring where
  order := .ascending ChunkId.number ChunkId.number_injective
  tools := ToolRegistry.new
  llm := fixedLlm fun _ => .ok ⟨"canned answer", 10, 5⟩
  sleep := noSleep

noncomputable def driver : MongoDriver where
  withUriStr _ := .ok ()
  vectorServer := Storage.Mongo.MongoVectorCall.referenceStore.server
  graphServer := Storage.Mongo.referenceServer
  link := ⟨.arbitrary, none⟩

def unset : Environment := ⟨none, none, none, none⟩

def databases : Databases := (fun _ => Collection.empty, fun _ => [])

def service : Service := ⟨twoUsers, buildLimiter burst .default⟩

theorem newFromEnv_unset :
    AppState.newFromEnv driver wiring.order unset wiring.tools wiring.llm
      wiring.sleep = .ok wiring.app := rfl

theorem presentsKey (question : String) :
    PresentsKey service (postQuestion "key-a" question)
      ⟨ourTenant, .member, "user-a"⟩ := by
  refine ⟨"key-a".toUTF8.toList, rfl, ?_, ?_, ?_⟩
  · decide +kernel
  · decide +kernel
  · decide +kernel

theorem rejectsWithError (question : String) :
    RejectsWithError (frameworkFor question) := by
  intro request rejection h
  cases h

end LocalSetup

open LocalSetup in
theorem presenters_agree_greeting :
    Agree
      (observeCommand wiring databases "hello?" (some ourTenant.uuid) ⟨0⟩
        "user-a")
      (observeRoute (frameworkFor "hello?") service wiring.app
        (postQuestion "key-a" "hello?") []
        (Mutex.new ∅, freshBackends databases)) := by
  apply (presenters_agree_iff driver wiring.order unset wiring.tools
    (fun _ => .ok ⟨"canned answer", 10, 5⟩) newFromEnv_unset
    (frameworkFor "hello?") (rejectsWithError "hello?") ⟨rfl, rfl⟩
    (presentsKey "hello?") (by decide +kernel) ?_ ⟨0⟩ databases
    Contents.empty.unlocked (Mutex.new ∅)).mpr
  · left
    exact ⟨⟨rfl, by decide⟩,
      retrieve_fresh wiring.order databases _ _ (by decide)⟩
  · intro text htext
    cases htext
    rfl

open LocalSetup in
/-- The command answers a blank question, which the route refuses. -/
theorem blankQuestion_disagrees :
    isQuery (postQuestion "key-a" " ") ∧
      PresentsKey service (postQuestion "key-a" " ")
        ⟨ourTenant, .member, "user-a"⟩ ∧
      Admitted service [] ⟨ourTenant, .member, "user-a"⟩ 0 = true ∧
      ¬ Agree
        (observeCommand wiring databases " " (some ourTenant.uuid) ⟨0⟩ "user-a")
        (observeRoute (frameworkFor " ") service wiring.app
          (postQuestion "key-a" " ") []
          (Mutex.new ∅, freshBackends databases)) := by
  have hadmitted : Admitted service [] ⟨ourTenant, .member, "user-a"⟩ 0 =
      true := by
    decide +kernel
  refine ⟨⟨rfl, rfl⟩, presentsKey " ", hadmitted, ?_⟩
  have hcarries : Carries (frameworkFor " ") ((postQuestion "key-a" " ").asCaller
      ⟨ourTenant, .member, "user-a"⟩) " " := by
    intro text htext
    cases htext
    rfl
  have hblank : ¬ Accepted (frameworkFor " ")
      ((postQuestion "key-a" " ").asCaller ⟨ourTenant, .member, "user-a"⟩) " " :=
    fun h => absurd h.2 (by decide)
  rw [observeCommand_eq, CommandWiring.app, AppState.newDefault, wiring,
    answerQuestion_fixed, retrieve_fresh _ databases _ _ (by decide),
    observeRoute_of_refused _ _ ⟨rfl, rfl⟩ (presentsKey " ") hadmitted
      (rejectsWithError " ") hcarries hblank]
  simp [Agree, observe, turnOutcome, reply, Except.map, Observation.refused]

end Milona.Presenter
