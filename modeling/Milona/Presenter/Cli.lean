import Milona.Presenter.Environment
import Milona.Presenter.Router

/-!
# The two presenters

`milona query` and the query route end in the same turn of the application.  The
route refuses blank questions and asks the stores that the environment selects;
the command asks the empty in-memory stores of its own process.

A presenter is observed through the text that its user reads and the items
behind it.
-/

namespace Milona.Presenter

open Milona.Core Milona.Foundation Milona.Retrieval Milona.Adapter
open Milona.Storage.Memory

variable {σ : Type}

def commandContext (tenant : Option Uuid) (newV4 : Uuid) (subject : String) :
    TenantContext :=
  ⟨⟨tenant.getD newV4⟩, .member, subject⟩

def printAnswer
    (answerQuestion : TenantContext → String → Action σ (Result GenAiResponse))
    (ctx : TenantContext) (question : String) : Action σ (Result String) := do
  match ← answerQuestion ctx question with
  | .ok response => return .ok response.answer
  | .error e => return .error e

structure CommandWiring where
  order : IterationOrder ChunkId StoredVector
  tools : ToolRegistry Backends
  llm : LlmProvider Backends
  sleep : Duration → Action Backends Unit

def CommandWiring.app (wiring : CommandWiring) : AppState Backends :=
  AppState.newDefault wiring.order wiring.tools wiring.llm wiring.sleep

/-- A run of `milona query` in a process of its own. -/
def runQueryCommand (wiring : CommandWiring) (databases : Databases)
    (question : String) (tenant : Option Uuid) (newV4 : Uuid)
    (subject : String) : Outcome (Result String) :=
  (printAnswer wiring.app.answerQuestion
    (commandContext tenant newV4 subject) question
    (Mutex.new ∅, freshBackends databases)).1

/-! ## Observations -/

/-- The answer that a user reads, and the items retrieved for it. -/
structure Observation where
  answer : Option String
  retrieved : List (List RetrievedItem)
  deriving DecidableEq

def Observation.refused : Observation := ⟨none, []⟩

/-- Both presenters refuse, or both give one answer from the same items. -/
def Agree (command route : Observation) : Prop :=
  (command.answer = none ∧ route.answer = none) ∨
    (command.answer.isSome ∧ command = route)

theorem agree_refused_iff {route : Observation} :
    Agree Observation.refused route ↔ route.answer = none := by
  simp [Agree, Observation.refused]

theorem agree_answered_iff {answer : String}
    {retrieved : List (List RetrievedItem)} {route : Observation} :
    Agree ⟨some answer, retrieved⟩ route ↔ route = ⟨some answer, retrieved⟩ := by
  simp [Agree, eq_comm]

abbrev Answers : Type := List (Outcome (Result GenAiResponse))

def logAnswers
    (answerQuestion : TenantContext → String → Action σ (Result GenAiResponse)) :
    TenantContext → String → Action (σ × Answers) (Result GenAiResponse) :=
  fun ctx question => Action.logged id (answerQuestion ctx question)

def retrievedOf : Outcome (Result GenAiResponse) → Option (List RetrievedItem)
  | .returned (.ok response) => some response.retrieved
  | .returned (.error _) | .panicked => none

def printed : Outcome (Result String) → Option String
  | .returned (.ok answer) => some answer
  | .returned (.error _) | .panicked => none

/-- The answer in a response with status 200. -/
def answerText : Outcome Response → Option String
  | .returned ⟨200, .object (("answer", .string answer) :: _)⟩ => some answer
  | _ => none

def observeCommand (wiring : CommandWiring) (databases : Databases)
    (question : String) (tenant : Option Uuid) (newV4 : Uuid)
    (subject : String) : Observation where
  answer := printed
    (runQueryCommand wiring databases question tenant newV4 subject)
  retrieved :=
    (printAnswer (logAnswers wiring.app.answerQuestion)
      (commandContext tenant newV4 subject) question
      ((Mutex.new ∅, freshBackends databases), [])).2.2.filterMap retrievedOf

def observeRoute (framework : Framework) (service : Service)
    (app : AppState σ) (request : Request) (checks : Checks)
    (world : Metered σ) : Observation where
  answer := answerText (buildRouter framework service app request (checks, world)).1
  retrieved :=
    (routerWith framework service (query framework
      (logAnswers app.answerQuestion)) request
      (checks, (world, []))).2.2.2.filterMap retrievedOf

/-! ### Logging the turns changes nothing else -/

section Logging

variable
  (answerQuestion : TenantContext → String → Action σ (Result GenAiResponse))

theorem instruments_printAnswer (ctx : TenantContext) (question : String) :
    Action.Instruments (printAnswer answerQuestion ctx question)
      (printAnswer (logAnswers answerQuestion) ctx question) := by
  apply (Action.instruments_logged id (answerQuestion ctx question)).bind
  intro result
  cases result <;> exact Action.instruments_pure _

theorem instruments_query (framework : Framework) (request : Request) :
    Action.Instruments (query framework answerQuestion request)
      (query framework (logAnswers answerQuestion) request) := by
  unfold query
  cases request.extension with
  | none => exact Action.instruments_pure _
  | some ctx =>
      dsimp only
      cases framework.decodeQuestion request with
      | error rejection => exact Action.instruments_pure _
      | ok question =>
          dsimp only
          split
          · exact Action.instruments_pure _
          · apply (Action.instruments_logged id
              (answerQuestion ctx question)).bind
            intro result
            cases result <;> exact Action.instruments_pure _

end Logging

/-! ### One turn -/

/-- What a user sees of a turn. -/
def observe : Outcome (Result GenAiResponse) → Observation
  | .returned (.ok response) => ⟨some response.answer, [response.retrieved]⟩
  | .returned (.error _) | .panicked => Observation.refused

theorem observeCommand_eq (wiring : CommandWiring) (databases : Databases)
    (question : String) (tenant : Option Uuid) (newV4 : Uuid)
    (subject : String) :
    observeCommand wiring databases question tenant newV4 subject =
      observe (wiring.app.answerQuestion (commandContext tenant newV4 subject)
        question (Mutex.new ∅, freshBackends databases)).1 := by
  have hsame := (instruments_printAnswer wiring.app.answerQuestion
    (commandContext tenant newV4 subject) question
    (Mutex.new ∅, freshBackends databases) []).1
  rw [observeCommand, runQueryCommand, ← hsame, printAnswer, Action.bind_apply]
  simp only [logAnswers, Action.logged]
  rcases wiring.app.answerQuestion (commandContext tenant newV4 subject)
    question (Mutex.new ∅, freshBackends databases) with
    ⟨(e | response) | _, s'⟩ <;> rfl

/-! ## A question on the query route -/

/-- The body of the request is the question, if the framework takes it. -/
def Carries (framework : Framework) (request : Request) (question : String) :
    Prop :=
  ∀ text, framework.decodeQuestion request = .ok text → text = question

/-- A body that the framework does not take gets an error status. -/
def RejectsWithError (framework : Framework) : Prop :=
  ∀ request rejection, framework.decodeQuestion request = .error rejection →
    rejection.status ≠ 200

def Accepted (framework : Framework) (request : Request) (question : String) :
    Prop :=
  framework.decodeQuestion request = .ok question ∧
    question.toList.all isWhitespace = false

theorem answerText_of_status {response : Response} (h : response.status ≠ 200) :
    answerText (.returned response) = none := by
  unfold answerText
  split
  · rename_i heq
    cases heq
    exact absurd rfl h
  · rfl

theorem statusOf_ne_ok (e : CoreError) : statusOf e ≠ 200 := by
  cases e <;> simp [statusOf]

section Route

variable {framework : Framework} {service : Service} {request : Request}
variable {record : ApiKeyRecord} {checks : Checks} {question : String}
variable (app : AppState σ) (world : Metered σ)
variable (hquery : isQuery request) (hkey : PresentsKey service request record)
variable (hadmitted :
  Admitted service checks record.context request.time = true)

include hquery hkey hadmitted

private theorem routerWith_of_admitted {τ : Type} (handler : Handler τ)
    (s : τ) :
    routerWith framework service handler request (checks, s) =
      let served := handler (request.asCaller record.context) s
      (served.1, (checks ++ [(limiterKey record.context.tenantId
        record.context.subject, request.time)], served.2)) := by
  have hroute : routeOf { request with extension := some record.context } =
      .query := routeOf_of_isQuery hquery
  rw [routerWith_of_ok framework _ (guards_of_isQuery framework hquery)
    (authenticate_of_record hkey)]
  simp only [hadmitted, if_pos, endpoint, hroute]
  rfl

theorem observeRoute_of_admitted :
    observeRoute framework service app request checks world =
      let run := query framework (logAnswers app.answerQuestion)
        (request.asCaller record.context) (world, [])
      ⟨answerText run.1, run.2.2.filterMap retrievedOf⟩ := by
  have hsame := (instruments_query app.answerQuestion framework
    (request.asCaller record.context) world []).1
  rw [observeRoute, buildRouter, routerWith_of_admitted hquery hkey hadmitted,
    routerWith_of_admitted hquery hkey hadmitted, ← hsame]

theorem observeRoute_of_accepted
    (haccepted : Accepted framework (request.asCaller record.context) question) :
    observeRoute framework service app request checks world =
      observe (app.answerQuestion record.context question world).1 := by
  obtain ⟨hdecoded, hblank⟩ := haccepted
  have hcaller : (request.asCaller record.context).extension =
      some record.context := rfl
  rw [observeRoute_of_admitted app world hquery hkey hadmitted]
  simp only [query, hcaller, hdecoded, hblank, Bool.false_eq_true, if_false]
  rw [Action.bind_apply]
  simp only [logAnswers, Action.logged]
  rcases app.answerQuestion record.context question world with
    ⟨(e | response) | _, s'⟩
  · have hstatus : answerText (.returned (errorResponse (statusOf e)
        "query_failed" e.display)) = none :=
      answerText_of_status (statusOf_ne_ok e)
    simp [observe, hstatus, retrievedOf, Observation.refused]
  · rfl
  · rfl

theorem observeRoute_of_refused (hrejects : RejectsWithError framework)
    (hcarries : Carries framework (request.asCaller record.context) question)
    (hrefused :
      ¬ Accepted framework (request.asCaller record.context) question) :
    observeRoute framework service app request checks world =
      Observation.refused := by
  have hcaller : (request.asCaller record.context).extension =
      some record.context := rfl
  rw [observeRoute_of_admitted app world hquery hkey hadmitted]
  cases hdecoded : framework.decodeQuestion (request.asCaller record.context) with
  | error rejection =>
      have hstatus := answerText_of_status (hrejects _ _ hdecoded)
      simp [query, hcaller, hdecoded, hstatus, Observation.refused]
  | ok text =>
      have htext := hcarries text hdecoded
      subst htext
      have hblank : text.toList.all isWhitespace = true := by
        by_contra hnot
        exact hrefused ⟨hdecoded, by simpa using hnot⟩
      simp only [query, hcaller, hdecoded, hblank, if_true]
      rfl

end Route

end Milona.Presenter
