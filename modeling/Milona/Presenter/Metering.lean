import Milona.Adapter.Mock
import Milona.Foundation.Runs
import Milona.Foundation.Tally
import Milona.Presenter.State
import Milona.Retrieval.TrustBoundary

/-!
# Budgets on the application path

A session asks one question after another and keeps what was returned to whom.
The counters of the budget never move, since no question is metered.  So the
budget is enforced exactly in the sessions in which there is nothing to count
and nothing to reject.
-/

namespace Milona.Presenter

open Milona.Core Milona.Foundation Milona.Retrieval Milona.Adapter

variable {σ : Type}

structure Session (σ : Type) where
  world : Metered (σ × List (Outcome (Result LlmResponse)))
  returned : List (TenantId × GenAiResponse)

namespace Session

def state (session : Session σ) : σ := session.world.2.1

def providerLog (session : Session σ) : List (Outcome (Result LlmResponse)) :=
  session.world.2.2

def start (s : σ) : Session σ := ⟨(Mutex.new ∅, (s, [])), []⟩

/-- The tokens of the responses returned to a tenant so far. -/
def tokensReturned (tenantId : TenantId) (session : Session σ) : Nat :=
  tally (fun entry => if entry.1 = tenantId then
    entry.2.inputTokens.toNat + entry.2.outputTokens.toNat else 0)
    session.returned

end Session

namespace AppState

open Session

def reply (app : AppState σ) (session : Session σ)
    (call : TenantContext × String) : Outcome (Result GenAiResponse) :=
  (app.traced.answerQuestion call.1 call.2 session.world).1

def ask (app : AppState σ) (session : Session σ)
    (call : TenantContext × String) : Session σ where
  world := (app.traced.answerQuestion call.1 call.2 session.world).2
  returned := session.returned ++
    match app.reply session call with
    | .returned (.ok response) => [(call.1.tenantId, response)]
    | .returned (.error _) | .panicked => []

def budgetOf (app : AppState σ) (ctx : TenantContext) : Nat :=
  (app.llm.budgetFor ctx.tenantId).maxTokens.toNat

/-- The budget is enforced in one step of a session. -/
structure EnforcesBudget (app : AppState σ) (session : Session σ)
    (call : TenantContext × String) : Prop where
  accounted : ∀ tenantId, ∃ used,
    (BudgetedLlmProvider.usageFor tenantId (app.ask session call).world).1 =
        .returned used ∧
      used.toNat = tokensReturned tenantId (app.ask session call)
  rejected : app.budgetOf call.1 ≤ tokensReturned call.1.tenantId session →
    (∃ e, app.reply session call = .returned (.error e)) ∧
      (app.ask session call).providerLog = session.providerLog
  served : tokensReturned call.1.tenantId session < app.budgetOf call.1 →
    app.reply session call =
      (app.traced.unmeteredTurn call.1 call.2 session.world.2).1

/--
The provider has spent nothing, and a caller without a budget does not reach
it.
-/
structure NothingToMeter (app : AppState σ) (session : Session σ)
    (call : TenantContext × String) : Prop where
  spent : ∀ tokens ∈ providerTokens (app.ask session call).providerLog,
    tokens = 0
  stopped : app.budgetOf call.1 = 0 →
    app.StopsEarly call.1 call.2 session.state

/-! ## One question -/

theorem reply_eq (app : AppState σ) (session : Session σ)
    (call : TenantContext × String) :
    app.reply session call =
      (app.traced.unmeteredTurn call.1 call.2 session.world.2).1 := by
  rw [reply, answerQuestion_eq]
  rfl

theorem ask_world (app : AppState σ) (session : Session σ)
    (call : TenantContext × String) :
    (app.ask session call).world =
      (session.world.1,
        (app.traced.unmeteredTurn call.1 call.2 session.world.2).2) := by
  rw [ask, answerQuestion_eq]
  rfl

theorem tokensReturned_ask (app : AppState σ) (session : Session σ)
    (call : TenantContext × String) (tenantId : TenantId) :
    tokensReturned tenantId (app.ask session call) =
      tokensReturned tenantId session +
        if call.1.tenantId = tenantId then
          (returnedTokens (app.reply session call)).sum else 0 := by
  rw [tokensReturned, ask, tally_append]
  congr 1
  rcases app.reply session call with (e | response) | _ <;>
    simp [returnedTokens]

theorem providerTokens_append
    (before later : List (Outcome (Result LlmResponse))) :
    providerTokens (before ++ later) =
      providerTokens before ++ providerTokens later := by
  simp [providerTokens]

theorem exists_events (app : AppState σ) (session : Session σ)
    (call : TenantContext × String) :
    ∃ events,
      (app.ask session call).providerLog = session.providerLog ++ events ∧
      providerTokens events = returnedTokens (app.reply session call) ∧
      (Rejected (app.reply session call) events ↔
        app.StopsEarly call.1 call.2 session.state) := by
  rw [reply_eq, providerLog, ask_world]
  exact app.emits_unmeteredTurn call.1 call.2 session.state session.providerLog

/-! ## Sessions -/

structure Untouched (session : Session σ) : Prop where
  counters : session.world.1 = Mutex.new ∅
  provider : ∀ tokens ∈ providerTokens session.providerLog, tokens = 0
  returned : ∀ tenantId, tokensReturned tenantId session = 0

theorem untouched_start (s : σ) : Untouched (start s) where
  counters := rfl
  provider := by simp [start, providerLog, providerTokens]
  returned := by simp [start, tokensReturned]

theorem usageFor_ask {app : AppState σ} {session : Session σ}
    (h : Untouched session) (call : TenantContext × String)
    (tenantId : TenantId) :
    (BudgetedLlmProvider.usageFor tenantId (app.ask session call).world).1 =
      .returned 0 := by
  rw [ask_world, h.counters, Mutex.new, BudgetedLlmProvider.usageFor_apply,
    Usage.used_empty]

theorem tokensReturned_ask_eq_zero_iff {app : AppState σ}
    {session : Session σ} (h : Untouched session)
    (call : TenantContext × String) :
    (∀ tenantId, tokensReturned tenantId (app.ask session call) = 0) ↔
      ∀ tokens ∈ providerTokens (app.ask session call).providerLog,
        tokens = 0 := by
  obtain ⟨events, hlog, htokens, -⟩ := exists_events app session call
  have hsum : (∀ tenantId,
      tokensReturned tenantId (app.ask session call) = 0) ↔
        (returnedTokens (app.reply session call)).sum = 0 := by
    constructor
    · intro hzero
      have hcaller := hzero call.1.tenantId
      rw [tokensReturned_ask, if_pos rfl] at hcaller
      omega
    · intro hzero tenantId
      rw [tokensReturned_ask, h.returned, hzero]
      split <;> rfl
  rw [hsum, hlog, providerTokens_append, htokens, List.sum_eq_zero_iff]
  simp only [List.mem_append]
  constructor
  · rintro hzero tokens (hbefore | hlater)
    · exact h.provider tokens hbefore
    · exact hzero tokens hlater
  · exact fun hzero tokens hlater => hzero tokens (.inr hlater)

theorem enforcesBudget_iff {app : AppState σ} {session : Session σ}
    (h : Untouched session) (call : TenantContext × String) :
    app.EnforcesBudget session call ↔ app.NothingToMeter session call := by
  obtain ⟨events, hlog, -, hrejected⟩ := exists_events app session call
  have hempty : (app.ask session call).providerLog = session.providerLog ↔
      events = [] := by
    simp [hlog]
  constructor
  · intro henforced
    constructor
    · apply (tokensReturned_ask_eq_zero_iff h call).mp
      intro tenantId
      obtain ⟨used, hused, hsum⟩ := henforced.accounted tenantId
      rw [usageFor_ask h] at hused
      cases hused
      exact hsum.symm
    · intro hbudget
      obtain ⟨herror, hsame⟩ := henforced.rejected (by rw [hbudget]; omega)
      exact hrejected.mp ⟨herror, hempty.mp hsame⟩
  · intro hnothing
    constructor
    · intro tenantId
      refine ⟨0, usageFor_ask h call tenantId, ?_⟩
      exact ((tokensReturned_ask_eq_zero_iff h call).mpr hnothing.spent
        tenantId).symm
    · intro hbudget
      rw [h.returned] at hbudget
      obtain ⟨herror, hnil⟩ := hrejected.mpr (hnothing.stopped (by omega))
      exact ⟨herror, hempty.mpr hnil⟩
    · exact fun _ => reply_eq app session call

private theorem untouched_ask {app : AppState σ} {session : Session σ}
    (h : Untouched session) {call : TenantContext × String}
    (hnothing : app.NothingToMeter session call) :
    Untouched (app.ask session call) where
  counters := by rw [ask_world, h.counters]
  provider := hnothing.spent
  returned := (tokensReturned_ask_eq_zero_iff h call).mpr hnothing.spent

/--
The budget is enforced in a session exactly if the provider spends no token in
it and no caller with a budget of zero reaches the provider.
-/
theorem budget_enforced_iff (app : AppState σ) (s : σ)
    (calls : List (TenantContext × String)) :
    EachStep app.ask app.EnforcesBudget (start s) calls ↔
      EachStep app.ask app.NothingToMeter (start s) calls :=
  EachStep.congr_of_invariant Untouched
    (fun _ call h => enforcesBudget_iff h call)
    (fun _ _ h hnothing => untouched_ask h hnothing) (untouched_start s) calls

def defaultApp : AppState (Storage.Memory.InMemoryStores × UInt32) :=
  newWithKnowledge
    ((defaultInMemoryKnowledge
      (.ascending ChunkId.number ChunkId.number_injective)).zoom .fst)
    ToolRegistry.new (MockLlmProvider.default.llmProvider.zoom .snd)
    fun _ => return ()

def emptyWorld : Storage.Memory.InMemoryStores × UInt32 :=
  (Storage.Memory.Contents.empty.unlocked, 0)

theorem defaultApp_unmetered :
    ¬ EachStep defaultApp.ask defaultApp.EnforcesBudget (start emptyWorld)
      [(questioner, "What is Milona?")] := by
  intro h
  obtain ⟨used, hused, hsum⟩ := h.1.accounted questioner.tenantId
  rw [usageFor_ask (untouched_start emptyWorld)] at hused
  cases hused
  revert hsum
  decide +kernel

end AppState

end Milona.Presenter
