import Milona.Retrieval.GenaiLoop

/-!
# The effects of a turn

A turn calls its collaborators in a fixed order: one search, a traversal for
each match, an attempt for each tool request and one completion.  A denial stops
it before the first call and a failed search after it; failures of traversals
and tools do not stop it.  An attempt is a call of the registry, so that a
request for an unknown tool counts.
-/

namespace Milona.Retrieval

open Milona.Core Milona.Foundation Milona.Foundation.Action

variable {σ : Type}

/-- A call of a collaborator, without how it ended. -/
inductive Effect where
  | search (ctx : TenantContext) (query : List Float32) (topK : Nat)
  | traverse (ctx : TenantContext) (startNode : String) (maxDepth : Nat)
  | attempt (ctx : TenantContext) (invocation : ToolInvocation)
  | complete (messages : List LlmMessage)

namespace Event

def effect : Event → Effect
  | .searched ctx query topK _ => .search ctx query topK
  | .traversed ctx startNode maxDepth _ => .traverse ctx startNode maxDepth
  | .invoked ctx invocation _ => .attempt ctx invocation
  | .completed messages _ => .complete messages

def Unwound : Event → Prop
  | .searched _ _ _ outcome => outcome = .panicked
  | .traversed _ _ _ outcome => outcome = .panicked
  | .invoked _ _ outcome => outcome = .panicked
  | .completed _ outcome => outcome = .panicked

end Event

/-! ## Turns with logged attempts -/

/-- A registry that logs every attempt, also of an unknown tool. -/
def attemptedTools (tools : ToolRegistry σ) : ToolRegistry (Traced σ) where
  get name := some
    { name := name
      description := ""
      invoke := fun ctx invocation =>
        Action.logged (.invoked ctx invocation) (tools.invoke ctx invocation) }

theorem invoke_attemptedTools (tools : ToolRegistry σ) (ctx : TenantContext)
    (invocation : ToolInvocation) :
    (attemptedTools tools).invoke ctx invocation =
      Action.logged (.invoked ctx invocation) (tools.invoke ctx invocation) :=
  rfl

abbrev Phase {α : Type} (effects : List Effect) (outcome : Outcome α)
    (events : List Event) : Prop :=
  Performs Event.effect Event.Unwound effects outcome events

def attempts (ctx : TenantContext) (requests : List ToolRequest) : List Effect :=
  requests.map fun request => .attempt ctx request.invocation

theorem emits_attempts (tools : ToolRegistry σ) (ctx : TenantContext)
    (requests : List ToolRequest) :
    Emits (collectTools (attemptedTools tools) ctx requests)
      (Phase (attempts ctx requests)) := by
  induction requests with
  | nil => exact emits_performs_pure _
  | cons request rest ih =>
      have hinvoke : Emits ((attemptedTools tools).invoke ctx request.invocation)
          (Phase [.attempt ctx request.invocation]) :=
        invoke_attemptedTools tools ctx request.invocation ▸
          emits_performs_logged Event.effect Event.Unwound (.invoked ctx _)
            (fun _ => rfl) (fun _ => Iff.rfl) _
      refine emits_performs_bind hinvoke fun result => ?_
      cases result with
      | error e => exact ih
      | ok result =>
          change Emits _ (Phase (attempts ctx rest))
          rw [← List.append_nil (attempts ctx rest)]
          exact emits_performs_bind ih fun outputs => emits_performs_pure _

def respond (retrieved : List RetrievedItem) (response : LlmResponse) :
    GenAiResponse :=
  ⟨response.content, retrieved, response.inputTokens, response.outputTokens⟩

/-- All attempts and then one completion, whose outcome is the result. -/
def AnswerPhase (ctx : TenantContext) (request : GenAiRequest)
    (retrieved : List RetrievedItem) (outcome : Outcome (Result GenAiResponse))
    (events : List Event) : Prop :=
  (∀ result, outcome = .returned result → ∃ messages answer,
    events.map Event.effect =
      attempts ctx request.toolRequests ++ [.complete messages] ∧
    events.getLast? = some (.completed messages (.returned answer)) ∧
    result = answer.map (respond retrieved) ∧
    ∀ event ∈ events, ¬ event.Unwound) ∧
  (outcome = .panicked → ∃ event ∈ events, event.Unwound)

theorem AnswerPhase.panicked_iff {ctx : TenantContext}
    {request : GenAiRequest} {retrieved : List RetrievedItem}
    {outcome : Outcome (Result GenAiResponse)} {events : List Event}
    (h : AnswerPhase ctx request retrieved outcome events) :
    outcome = .panicked ↔ ∃ event ∈ events, event.Unwound := by
  constructor
  · exact h.2
  · rintro ⟨event, hevent, hunwound⟩
    cases outcome with
    | panicked => rfl
    | returned result =>
        obtain ⟨messages, answer, -, -, -, hnone⟩ := h.1 result rfl
        exact absurd hunwound (hnone event hevent)

end Milona.Retrieval
