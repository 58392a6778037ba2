import Milona.Core.Traits
import Milona.Foundation.HashMap

/-!
# Token budgets

A `BudgetedLlmProvider` keeps one counter per tenant behind a mutex.  The
metered method `completeForTenant` checks the counter, calls the inner provider
with the lock free, and records what a successful response spent.  The trait
method `complete` passes the call through unmetered.  The counters are 64-bit
and wrap, as in a build without overflow checks.
-/

namespace Milona.Adapter

open Milona.Core Milona.Foundation

structure TokenBudget where
  maxTokens : UInt64
  deriving DecidableEq, Repr

inductive BudgetError where
  | exceeded (tenantId : TenantId) (used limit : UInt64)
  | core (error : CoreError)
  deriving DecidableEq, Repr

namespace BudgetError

def display : BudgetError → String
  | .exceeded tenantId used limit =>
      "tenant " ++ tenantId.display ++ " exceeded its token budget: used " ++
        toString used ++ ", limit " ++ toString limit
  | .core error => error.display

def toCoreError : BudgetError → CoreError
  | .exceeded tenantId used limit =>
      .unauthorized ("tenant " ++ tenantId.display ++
        " exceeded its token budget (used " ++ toString used ++ ", limit " ++
        toString limit ++ ")")
  | .core error => error

end BudgetError

abbrev Usage : Type := HashMap TenantId UInt64

namespace Usage

def used (usage : Usage) (tenantId : TenantId) : UInt64 :=
  (usage.lookup tenantId).getD 0

def spent (response : LlmResponse) : UInt64 :=
  response.inputTokens.toUInt64 + response.outputTokens.toUInt64

/-- The first critical section: the tenant must be below its budget. -/
def check (budget : TokenBudget) (tenantId : TenantId) (usage : Usage) :
    Except BudgetError Unit :=
  if usage.used tenantId ≥ budget.maxTokens then
    .error (.exceeded tenantId (usage.used tenantId) budget.maxTokens)
  else .ok ()

/-- The second critical section. -/
def record (tenantId : TenantId) (response : LlmResponse) (usage : Usage) :
    Usage :=
  usage.insert tenantId (usage.used tenantId + spent response)

@[simp] theorem used_empty (tenantId : TenantId) :
    Usage.used ∅ tenantId = 0 := by
  simp [used]

theorem used_record (tenantId tenantId' : TenantId) (response : LlmResponse)
    (usage : Usage) :
    (usage.record tenantId response).used tenantId' =
      if tenantId' = tenantId then usage.used tenantId + spent response
      else usage.used tenantId' := by
  rw [used, record, HashMap.lookup_insert_eq_ite]
  split <;> rfl

theorem check_eq_ok_iff {budget : TokenBudget} {tenantId : TenantId}
    {usage : Usage} :
    usage.check budget tenantId = .ok () ↔
      usage.used tenantId < budget.maxTokens := by
  rw [check]
  split
  · rename_i h
    simp only [reduceCtorEq, false_iff, UInt64.not_lt]
    exact h
  · rename_i h
    simpa using h

theorem toNat_spent (response : LlmResponse) :
    (spent response).toNat =
      response.inputTokens.toNat + response.outputTokens.toNat := by
  have hinput := response.inputTokens.toNat_lt
  have houtput := response.outputTokens.toNat_lt
  rw [spent, UInt64.toNat_add, UInt32.toNat_toUInt64, UInt32.toNat_toUInt64,
    Nat.mod_eq_of_lt (by omega)]

theorem toNat_spent_le (response : LlmResponse) :
    (spent response).toNat ≤ 2 ^ 33 - 2 := by
  have hinput := response.inputTokens.toNat_lt
  have houtput := response.outputTokens.toNat_lt
  rw [toNat_spent]
  omega

end Usage

/-! ## The provider -/

structure BudgetedLlmProvider (σ : Type) where
  inner : LlmProvider σ
  defaultBudget : TokenBudget
  perTenantBudget : HashMap TenantId TokenBudget

/-- The counters, and the state of the inner provider. -/
abbrev Metered (σ : Type) : Type := Mutex Usage × σ

namespace BudgetedLlmProvider

variable {σ : Type}

def new (inner : LlmProvider σ) (defaultBudget : TokenBudget) :
    BudgetedLlmProvider σ :=
  ⟨inner, defaultBudget, ∅⟩

def withTenantBudget (provider : BudgetedLlmProvider σ) (tenantId : TenantId)
    (budget : TokenBudget) : BudgetedLlmProvider σ :=
  { provider with
    perTenantBudget := provider.perTenantBudget.insert tenantId budget }

def budgetFor (provider : BudgetedLlmProvider σ) (tenantId : TenantId) :
    TokenBudget :=
  (provider.perTenantBudget.lookup tenantId).getD provider.defaultBudget

def usageFor (tenantId : TenantId) : Action (Metered σ) UInt64 :=
  Action.zoom .fst <| Mutex.lock do
    let usage ← Action.get
    return usage.used tenantId

def checkBudget (provider : BudgetedLlmProvider σ) (tenantId : TenantId) :
    Action (Metered σ) (Except BudgetError Unit) :=
  Action.zoom .fst <| Mutex.lock do
    let usage ← Action.get
    return usage.check (provider.budgetFor tenantId) tenantId

def recordUsage (tenantId : TenantId) (response : LlmResponse) :
    Action (Metered σ) Unit :=
  Action.zoom .fst <| Mutex.lock <|
    Action.modify (Usage.record tenantId response)

def completeForTenant (provider : BudgetedLlmProvider σ) (tenantId : TenantId)
    (messages : List LlmMessage) :
    Action (Metered σ) (Except BudgetError LlmResponse) := do
  match ← provider.checkBudget tenantId with
  | .error e => return .error e
  | .ok () =>
      match ← Action.zoom .snd (provider.inner.complete messages) with
      | .error e => return .error (.core e)
      | .ok response =>
          recordUsage tenantId response
          return .ok response

/-- The trait implementation, which does not meter. -/
def llmProvider (provider : BudgetedLlmProvider σ) : LlmProvider (Metered σ) where
  complete messages := Action.zoom .snd (provider.inner.complete messages)

@[simp] theorem usageFor_apply (tenantId : TenantId) (usage : Usage) (s : σ) :
    usageFor tenantId (⟨usage, false⟩, s) =
      (.returned (usage.used tenantId), (⟨usage, false⟩, s)) := rfl

theorem completeForTenant_apply (provider : BudgetedLlmProvider σ)
    (tenantId : TenantId) (messages : List LlmMessage) (usage : Usage) (s : σ) :
    provider.completeForTenant tenantId messages (⟨usage, false⟩, s) =
      match usage.check (provider.budgetFor tenantId) tenantId with
      | .error e => (.returned (.error e), (⟨usage, false⟩, s))
      | .ok () =>
          match provider.inner.complete messages s with
          | (.returned (.ok response), s') =>
              (.returned (.ok response),
                (⟨usage.record tenantId response, false⟩, s'))
          | (.returned (.error e), s') =>
              (.returned (.error (.core e)), (⟨usage, false⟩, s'))
          | (.panicked, s') => (.panicked, (⟨usage, false⟩, s')) := by
  have hcheck : provider.checkBudget tenantId (⟨usage, false⟩, s) =
      (.returned (usage.check (provider.budgetFor tenantId) tenantId),
        (⟨usage, false⟩, s)) := rfl
  rw [completeForTenant, Action.bind_of_returned hcheck]
  cases usage.check (provider.budgetFor tenantId) tenantId with
  | error e => rfl
  | ok _ =>
      have hinner : Action.zoom (.snd : Lens (Metered σ) σ)
          (provider.inner.complete messages) (⟨usage, false⟩, s) =
            ((provider.inner.complete messages s).1,
              (⟨usage, false⟩, (provider.inner.complete messages s).2)) := rfl
      generalize provider.inner.complete messages s = called at *
      obtain ⟨(result | _), s'⟩ := called
      · refine (Action.bind_of_returned hinner).trans ?_
        cases result <;> rfl
      · exact Action.bind_of_panicked hinner

end BudgetedLlmProvider

end Milona.Adapter
