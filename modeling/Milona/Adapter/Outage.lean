import Milona.Adapter.Mock
import Milona.Adapter.OutcomeStream

/-!
# An outage of the model

The metered provider runs over retries over a mock model that fails its first
calls.  A request that the budget rejects makes no call; an admitted one makes
up to `maxAttempts`.  So the outage fails the first `failures / maxAttempts`
admitted requests of a run, whoever makes them, and no other.
-/

namespace Milona.Adapter

open Milona.Core Milona.Foundation

namespace MockLlmProvider

def failure (callNumber : UInt32) : CoreError :=
  .upstream ("mock provider simulated transient failure (call #" ++
    toString callNumber ++ ")")

def response (mock : MockLlmProvider) (messages : List LlmMessage) : LlmResponse :=
  ⟨mock.cannedResponse,
    messages.foldl (fun tokens message => tokens + messageTokens message) 0, 8⟩

theorem complete_apply (mock : MockLlmProvider) (messages : List LlmMessage)
    (count : UInt32) :
    mock.llmProvider.complete messages count =
      (.returned (if mock.shouldFail (count + 1) then .error (failure (count + 1))
        else .ok (mock.response messages)), count + 1) := by
  change
    (if mock.shouldFail (count + 1) then _ else _ : Action UInt32 _) (count + 1) = _
  split <;> rfl

end MockLlmProvider

structure Outage where
  failures : UInt32
  cannedResponse : String
  config : RetryConfig
  defaultBudget : TokenBudget
  perTenantBudget : HashMap TenantId TokenBudget

namespace Outage

variable (outage : Outage)

def mock : MockLlmProvider :=
  (MockLlmProvider.new outage.cannedResponse).withBehavior
    (.failNTimesThenSucceed outage.failures)

def retrying : RetryingLlmProvider UInt32 :=
  ⟨outage.mock.llmProvider, outage.config, noSleep⟩

def provider : BudgetedLlmProvider UInt32 where
  inner := outage.retrying.llmProvider
  defaultBudget := outage.defaultBudget
  perTenantBudget := outage.perTenantBudget

def attempts : Nat := outage.config.maxAttempts.toNat

def perform (request : MeteredRequest) :
    Action (Metered UInt32) (Except BudgetError LlmResponse) :=
  outage.provider.completeForTenant request.tenantId request.messages

def next (s : Metered UInt32) (request : MeteredRequest) : Metered UInt32 :=
  (outage.perform request s).2

def Admits (s : Metered UInt32) (request : MeteredRequest) : Prop :=
  s.1.value.used request.tenantId <
    (outage.provider.budgetFor request.tenantId).maxTokens

instance (s : Metered UInt32) (request : MeteredRequest) :
    Decidable (outage.Admits s request) :=
  inferInstanceAs (Decidable (_ < _))

/-- The requests of a run that the budget admits, with their outcomes. -/
def admitted : Metered UInt32 → List MeteredRequest →
    List (MeteredRequest × Outcome (Except BudgetError LlmResponse))
  | _, [] => []
  | s, request :: requests =>
      (if outage.Admits s request then [(request, (outage.perform request s).1)]
          else []) ++
        admitted (outage.next s request) requests

/-- The answer to an admitted request that so many others precede. -/
def answer (earlier : Nat) (messages : List LlmMessage) : Result LlmResponse :=
  if (earlier + 1) * outage.attempts ≤ outage.failures.toNat then
    .error (MockLlmProvider.failure (.ofNat ((earlier + 1) * outage.attempts)))
  else .ok (outage.mock.response messages)

/-- The calls that so many admitted requests make of the model. -/
def calls (requests : Nat) : Nat :=
  if requests * outage.attempts ≤ outage.failures.toNat then
    requests * outage.attempts
  else
    outage.failures.toNat + (requests - outage.failures.toNat / outage.attempts)

/-! ## One request -/

variable {outage : Outage}

theorem toNat_succ {count : UInt32} (hroom : count.toNat + 1 < 2 ^ 32) :
    (count + 1).toNat = count.toNat + 1 := by
  rw [UInt32.toNat_add]
  exact Nat.mod_eq_of_lt hroom

/-- The model fails up to the end of the outage. -/
theorem complete_of_count (messages : List LlmMessage) {count : UInt32}
    (hroom : count.toNat + 1 < 2 ^ 32) :
    outage.retrying.inner.complete messages count =
      (.returned (if count.toNat + 1 ≤ outage.failures.toNat then
          .error (MockLlmProvider.failure (count + 1))
        else .ok (outage.mock.response messages)), count + 1) := by
  have hfails : outage.mock.shouldFail (count + 1) =
      decide (count.toNat + 1 ≤ outage.failures.toNat) := by
    change decide (count + 1 ≤ outage.failures) = _
    exact decide_eq_decide.mpr (by rw [UInt32.le_iff_toNat_le, toNat_succ hroom])
  have hcall := outage.mock.complete_apply messages count
  simp only [hfails, decide_eq_true_eq] at hcall
  exact hcall

/-- The loop spends its attempts on the outage, or outlasts it. -/
theorem attempts_of_count (messages : List LlmMessage) {remaining : Nat}
    (hremaining : 0 < remaining) {backoff : Duration}
    (lastErr : Option CoreError) {count : UInt32}
    (hroom : max outage.failures.toNat count.toNat + 1 < 2 ^ 32)
    (hfit : ∀ failures < remaining,
      (outage.config.backoffAfter failures backoff).isSome) :
    ∃ count', outage.retrying.attempts messages remaining backoff lastErr count =
        (.returned (if count.toNat + remaining ≤ outage.failures.toNat then
            .error (MockLlmProvider.failure (.ofNat (count.toNat + remaining)))
          else .ok (outage.mock.response messages)), count') ∧
      count'.toNat = if count.toNat + remaining ≤ outage.failures.toNat then
          count.toNat + remaining
        else max outage.failures.toNat count.toNat + 1 := by
  induction remaining generalizing backoff lastErr count with
  | zero => omega
  | succ remaining ih =>
      have hsucc : (count + 1).toNat = count.toNat + 1 := toNat_succ (by omega)
      have hcall := @complete_of_count outage messages count (by omega)
      by_cases hout : count.toNat + 1 ≤ outage.failures.toNat
      · rw [if_pos hout] at hcall
        by_cases hlast : remaining = 0
        · subst hlast
          refine ⟨count + 1, ?_, ?_⟩
          · rw [Nat.zero_add, if_pos hout, ← hsucc, UInt32.ofNat_toNat]
            exact RetryingLlmProvider.attempts_of_last_error hcall backoff lastErr
          · rw [Nat.zero_add, if_pos hout, hsucc]
        · obtain ⟨later, hlater, hfits⟩ :=
            RetryConfig.exists_fitting_backoff hlast hfit
          have hpause : outage.retrying.pause backoff (count + 1) =
              (.returned (), count + 1) := RetryingLlmProvider.pause_of_sleep rfl
          obtain ⟨count', hrest, hcount'⟩ := ih (by omega)
            (some (MockLlmProvider.failure (count + 1)))
              (by rw [hsucc]; omega) hfits
          have hsum : (count + 1).toNat + remaining =
            count.toNat + (remaining + 1) := by
            omega
          have hmax : max outage.failures.toNat (count + 1).toNat =
              max outage.failures.toNat count.toNat := by omega
          rw [hsum] at hrest hcount'
          rw [hmax] at hcount'
          refine ⟨count', ?_, hcount'⟩
          rw [← hrest]
          exact RetryingLlmProvider.attempts_of_error hcall hlast hpause
            hlater lastErr
      · rw [if_neg hout] at hcall
        have hover : ¬ count.toNat + (remaining + 1) ≤
          outage.failures.toNat := by omega
        refine ⟨count + 1, ?_, ?_⟩
        · rw [if_neg hover]
          exact RetryingLlmProvider.attempts_of_ok hcall remaining backoff lastErr
        · rw [if_neg hover, hsucc]
          omega

/-! ## Counting calls -/

theorem calls_succ (hattempts : 0 < outage.attempts) (requests : Nat) :
    outage.calls (requests + 1) =
        (if outage.calls requests + outage.attempts ≤ outage.failures.toNat then
          outage.calls requests + outage.attempts
        else max outage.failures.toNat (outage.calls requests) + 1) ∧
      (outage.calls requests + outage.attempts ≤ outage.failures.toNat ↔
        (requests + 1) * outage.attempts ≤ outage.failures.toNat) := by
  have hmul : (requests + 1) * outage.attempts =
      requests * outage.attempts + outage.attempts := Nat.succ_mul _ _
  have hthis : requests ≤ outage.failures.toNat / outage.attempts ↔
      requests * outage.attempts ≤ outage.failures.toNat :=
        Nat.le_div_iff_mul_le hattempts
  have hnext : requests + 1 ≤ outage.failures.toNat / outage.attempts ↔
      (requests + 1) * outage.attempts ≤ outage.failures.toNat :=
    Nat.le_div_iff_mul_le hattempts
  unfold calls
  generalize outage.failures.toNat / outage.attempts = quotient at hthis hnext ⊢
  by_cases hcovered : (requests + 1) * outage.attempts ≤ outage.failures.toNat
  · rw [if_pos (show requests * outage.attempts ≤ outage.failures.toNat by omega),
      if_pos hcovered, ← hmul, if_pos hcovered]
    exact ⟨rfl, Iff.rfl⟩
  · rw [if_neg hcovered]
    by_cases hreached : requests * outage.attempts ≤ outage.failures.toNat
    · rw [if_pos hreached, ← hmul, if_neg hcovered]
      exact ⟨by omega, Iff.rfl⟩
    · rw [if_neg hreached, if_neg (by omega)]
      exact ⟨by omega, by omega⟩

theorem calls_le (requests : Nat) :
    outage.calls requests ≤ outage.failures.toNat + requests := by
  unfold calls
  split
  · omega
  · exact Nat.add_le_add_left (Nat.sub_le _ _) _

/-! ## Runs -/

/-- An unlocked counter, and a model called by so many admitted requests. -/
structure After (outage : Outage) (requests : Nat) (s : Metered UInt32) :
    Prop where
  unlocked : s.1.poisoned = false
  count : s.2.toNat = outage.calls requests

private theorem after_rejected {requests : Nat} {s : Metered UInt32}
    (h : After outage requests s) {request : MeteredRequest}
    (hrejected : ¬ outage.Admits s request) :
    After outage requests (outage.next s request) := by
  obtain ⟨⟨usage, poisoned⟩, count⟩ := s
  obtain ⟨rfl, hcount⟩ := h
  have hcheck : usage.check (outage.provider.budgetFor request.tenantId)
      request.tenantId = .error (.exceeded request.tenantId
        (usage.used request.tenantId)
        (outage.provider.budgetFor request.tenantId).maxTokens) :=
    if_pos (UInt64.not_lt.mp hrejected)
  rw [next, perform, BudgetedLlmProvider.completeForTenant_apply, hcheck]
  exact ⟨rfl, hcount⟩

/-- Step lemma: an admitted request gets its answer. -/
theorem answer_of_admitted (hattempts : 0 < outage.attempts)
    (hfit : outage.config.BackoffsFit) {requests : Nat} {s : Metered UInt32}
    (h : After outage requests s)
    (hroom : outage.failures.toNat + (requests + 1) < 2 ^ 32)
    {request : MeteredRequest} (hadmits : outage.Admits s request) :
    (outage.perform request s).1 =
        .returned ((outage.answer requests request.messages).mapError
            BudgetError.core) ∧
      After outage (requests + 1) (outage.next s request) := by
  obtain ⟨⟨usage, poisoned⟩, count⟩ := s
  obtain ⟨rfl, hcount⟩ := h
  have hcount : count.toNat = outage.calls requests := hcount
  have hcheck : usage.check (outage.provider.budgetFor request.tenantId)
      request.tenantId = .ok () := Usage.check_eq_ok_iff.mpr hadmits
  have hle := @calls_le outage requests
  obtain ⟨hcalls, hcovered⟩ := calls_succ hattempts requests
  obtain ⟨count', hinner, hcount'⟩ :=
    attempts_of_count request.messages hattempts none
    (show max outage.failures.toNat count.toNat + 1 < 2 ^ 32 by omega) hfit
  rw [hcount] at hinner hcount'
  rw [← hcalls] at hcount'
  have hanswer : outage.provider.inner.complete request.messages count =
      (.returned (outage.answer requests request.messages), count') := by
    refine hinner.trans ?_
    unfold answer
    by_cases hout : (requests + 1) * outage.attempts ≤ outage.failures.toNat
    · have hspent : outage.calls requests + outage.attempts =
          (requests + 1) * outage.attempts := by
        have hreached : requests * outage.attempts ≤ outage.failures.toNat := by
          rw [Nat.succ_mul] at hout
          omega
        rw [calls, if_pos hreached, Nat.succ_mul]
      rw [if_pos hout, hspent, if_pos hout]
    · rw [if_neg hout, if_neg (mt hcovered.mp hout)]
  rw [next, perform, BudgetedLlmProvider.completeForTenant_apply, hcheck]
  dsimp only
  rw [hanswer]
  cases outage.answer requests request.messages with
  | ok response => exact ⟨rfl, rfl, hcount'⟩
  | error e => exact ⟨rfl, rfl, hcount'⟩

/-- Run lemma: the admitted requests get their answers in order. -/
theorem admitted_of_after (hattempts : 0 < outage.attempts)
    (hfit : outage.config.BackoffsFit) {earlier : Nat} {s : Metered UInt32}
    (h : After outage earlier s) {requests : List MeteredRequest}
    (hroom : outage.failures.toNat + earlier + requests.length < 2 ^ 32) :
    (∀ i request outcome, (outage.admitted s requests)[i]? =
      some (request, outcome) →
      outcome = Outcome.returned
        ((outage.answer (earlier + i) request.messages).mapError
            BudgetError.core)) ∧
    After outage (earlier + (outage.admitted s requests).length)
      (requests.foldl outage.next s) := by
  induction requests generalizing earlier s with
  | nil =>
      exact ⟨fun i request outcome hanswer => by simp [admitted] at hanswer, h⟩
  | cons request requests ih =>
      rw [List.length_cons] at hroom
      rw [admitted, List.foldl_cons]
      by_cases hadmits : outage.Admits s request
      · obtain ⟨houtcome, hafter⟩ :=
          answer_of_admitted hattempts hfit h (by omega) hadmits
        obtain ⟨hanswers, hlast⟩ := ih hafter (by omega)
        rw [if_pos hadmits, List.singleton_append, List.length_cons]
        refine ⟨fun i other outcome hanswer => ?_, ?_⟩
        · cases i with
          | zero =>
              rw [List.getElem?_cons_zero, Option.some.injEq,
                Prod.mk.injEq] at hanswer
              obtain ⟨rfl, rfl⟩ := hanswer
              exact houtcome
          | succ i =>
              rw [List.getElem?_cons_succ] at hanswer
              rw [hanswers i other outcome hanswer, Nat.add_right_comm,
                Nat.add_assoc]
        · rwa [Nat.add_right_comm, Nat.add_assoc] at hlast
      · obtain ⟨hanswers, hlast⟩ := ih (after_rejected h hadmits) (by omega)
        rw [if_neg hadmits, List.nil_append]
        exact ⟨hanswers, hlast⟩

def initial : Metered UInt32 := (Mutex.new ∅, 0)

/--
Over any run of requests by any tenants, the outage fails exactly the first
`failures / maxAttempts` admitted requests, each with the error of its last
attempt; every later one is answered, and the calls of the model add up.
-/
theorem outage_answers (hattempts : 0 < outage.attempts)
    (hfit : outage.config.BackoffsFit) {requests : List MeteredRequest}
    (hroom : outage.failures.toNat + requests.length < 2 ^ 32) :
    let served := outage.admitted initial requests
    (∀ i request outcome, served[i]? = some (request, outcome) →
      outcome = Outcome.returned
        ((outage.answer i request.messages).mapError BudgetError.core)) ∧
    (∀ i messages, (∃ e, outage.answer i messages = .error e) ↔
      i < outage.failures.toNat / outage.attempts) ∧
    (requests.foldl outage.next initial).2.toNat = outage.calls served.length := by
  intro served
  have hstart : After outage 0 initial := by
    refine ⟨rfl, ?_⟩
    rw [calls, Nat.zero_mul, if_pos (Nat.zero_le _)]
    rfl
  obtain ⟨hanswers, hlast⟩ := admitted_of_after hattempts hfit hstart
    (show outage.failures.toNat + 0 + requests.length < 2 ^ 32 from hroom)
  refine ⟨fun i request outcome hserved => ?_, fun i messages => ?_, ?_⟩
  · rw [hanswers i request outcome hserved, Nat.zero_add]
  · rw [← Nat.succ_le_iff, Nat.le_div_iff_mul_le hattempts, answer]
    split <;> simp [*]
  · rw [hlast.count, Nat.zero_add]

/-- Four failing calls, met with three attempts for each request. -/
def fourFailures : Outage where
  failures := 4
  cannedResponse := "ok"
  config := .default
  defaultBudget := ⟨18446744073709551615⟩
  perTenantBudget := ∅

theorem outage_answers_fourFailures :
    let requests : List MeteredRequest := [⟨⟨⟨1⟩⟩, []⟩, ⟨⟨⟨2⟩⟩, []⟩, ⟨⟨⟨1⟩⟩, []⟩]
    let served := fourFailures.admitted initial requests
    (∀ i request outcome, served[i]? = some (request, outcome) →
      outcome = Outcome.returned
        ((fourFailures.answer i request.messages).mapError BudgetError.core)) ∧
    (∀ i messages, (∃ e, fourFailures.answer i messages = .error e) ↔
      i < fourFailures.failures.toNat / fourFailures.attempts) ∧
    (requests.foldl fourFailures.next initial).2.toNat =
      fourFailures.calls served.length :=
  outage_answers (by decide) Wiring.largestWiring_fits (by decide)

end Outage

end Milona.Adapter
