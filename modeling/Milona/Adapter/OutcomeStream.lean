import Milona.Adapter.Budget
import Milona.Adapter.Retry
import Milona.Foundation.Runs

/-!
# A metered provider over retries

The inner provider answers its calls by the successive outcomes of a stream, so
its state is a position in the stream.  One metered call that is admitted uses
the outcomes up to the first success, within the number of attempts, and charges
the tokens of that success only.
-/

namespace Milona.Adapter

open Milona.Core Milona.Foundation

/-- The next position, and the positions at which the provider was called. -/
structure Tape where
  position : Nat
  called : List Nat
  deriving DecidableEq, Repr

namespace Tape

def start : Tape := ⟨0, []⟩

def advance (tape : Tape) (count : Nat) : Tape :=
  ⟨tape.position + count, tape.called ++ List.range' tape.position count⟩

@[simp] theorem advance_zero (tape : Tape) : tape.advance 0 = tape := by
  simp [advance]

theorem advance_succ (tape : Tape) (count : Nat) :
    (tape.advance 1).advance count = tape.advance (count + 1) := by
  simp only [advance, List.append_assoc, Tape.mk.injEq]
  refine ⟨by omega, ?_⟩
  rw [Nat.add_comm count 1, ← List.range'_append_1]

end Tape

def streamed (outcomes : Nat → Result LlmResponse) : LlmProvider Tape where
  complete _ := fun tape => (.returned (outcomes tape.position), tape.advance 1)

/-- A retrying provider over a stream; waiting does not touch the stream. -/
def retried (outcomes : Nat → Result LlmResponse) (config : RetryConfig) :
    RetryingLlmProvider Tape :=
  ⟨streamed outcomes, config, fun _ => return ()⟩

namespace RetryConfig

/-- The delay after the given number of further failures. -/
def backoffAfter (config : RetryConfig) : Nat → Duration → Option Duration
  | 0, backoff => some backoff
  | failures + 1, backoff =>
      (config.nextBackoff backoff).bind (config.backoffAfter failures)

/-- Every delay that the loop computes fits a duration. -/
def BackoffsFit (config : RetryConfig) : Prop :=
  ∀ failures < config.maxAttempts.toNat,
    (config.backoffAfter failures config.initialBackoff).isSome

/-- Delays that fit go on to a next one, and fit from there. -/
theorem exists_fitting_backoff {config : RetryConfig} {remaining : Nat}
    (hlast : remaining ≠ 0) {backoff : Duration}
    (hfit : ∀ failures < remaining + 1, (config.backoffAfter failures backoff).isSome) :
    ∃ next, config.nextBackoff backoff = some next ∧
      ∀ failures < remaining, (config.backoffAfter failures next).isSome := by
  have hsecond := hfit 1 (by omega)
  obtain ⟨next, hnext⟩ : ∃ next, config.nextBackoff backoff = some next := by
    simpa [backoffAfter, Option.isSome_iff_exists] using hsecond
  refine ⟨next, hnext, fun failures hfailures => ?_⟩
  have hlater := hfit (failures + 1) (by omega)
  simpa [backoffAfter, hnext] using hlater

end RetryConfig

/-! ## One retried call -/

/--
What the loop makes of the outcomes from a position on: the result, and the
number of outcomes it uses.
-/
inductive Exchange (outcomes : Nat → Result LlmResponse) (position attempts : Nat)
    (lastErr : Option CoreError) : Result LlmResponse → Nat → Prop where
  | answered (index : Nat) {response : LlmResponse} : index < attempts →
      outcomes (position + index) = .ok response →
      (∀ earlier < index, ∃ e, outcomes (position + earlier) = .error e) →
      Exchange outcomes position attempts lastErr (.ok response) (index + 1)
  | exhausted (last : Nat) {e : CoreError} : attempts = last + 1 →
      outcomes (position + last) = .error e →
      (∀ earlier < last, ∃ e, outcomes (position + earlier) = .error e) →
      Exchange outcomes position attempts lastErr (.error e) attempts
  | unattempted : attempts = 0 →
      Exchange outcomes position attempts lastErr
        (.error (lastErr.getD
          (.upstream "retry loop exited with no recorded error"))) 0

variable {outcomes : Nat → Result LlmResponse} {position : Nat}

theorem Exchange.consumed_le {attempts consumed : Nat}
    {lastErr : Option CoreError} {result : Result LlmResponse}
    (h : Exchange outcomes position attempts lastErr result consumed) :
    consumed ≤ attempts := by
  cases h with
  | answered index hindex => exact hindex
  | exhausted last hattempts => exact le_refl _
  | unattempted hattempts => exact Nat.zero_le _

/-- A failure in front is one more outcome used. -/
theorem Exchange.after_failure {attempts consumed : Nat} {e : CoreError}
    {lastErr : Option CoreError} {result : Result LlmResponse}
    (hfailed : outcomes position = .error e)
    (h : Exchange outcomes (position + 1) attempts (some e) result consumed) :
    Exchange outcomes position (attempts + 1) lastErr result (consumed + 1) := by
  have hfailures : ∀ index,
      (∀ earlier < index, ∃ e, outcomes (position + 1 + earlier) = .error e) →
        ∀ earlier < index + 1, ∃ e, outcomes (position + earlier) = .error e := by
    intro index hrest earlier hearlier
    cases earlier with
    | zero => exact ⟨e, hfailed⟩
    | succ earlier =>
        obtain ⟨e', he'⟩ := hrest earlier (by omega)
        exact ⟨e', by rw [← he', Nat.add_right_comm, Nat.add_assoc]⟩
  cases h with
  | answered index hindex hresponse hrest =>
      refine .answered (index + 1) (by omega) ?_ (hfailures index hrest)
      rw [← hresponse, Nat.add_right_comm, Nat.add_assoc]
  | exhausted last hattempts herror hrest =>
      refine .exhausted (last + 1) (by omega) ?_ (hfailures last hrest)
      rw [← herror, Nat.add_right_comm, Nat.add_assoc]
  | unattempted hattempts =>
      subst hattempts
      exact .exhausted 0 rfl hfailed (by simp)

theorem attempts_exchange {config : RetryConfig} (messages : List LlmMessage)
    {remaining : Nat} {backoff : Duration} (lastErr : Option CoreError)
    (tape : Tape)
    (hfit : ∀ failures < remaining,
      (config.backoffAfter failures backoff).isSome) :
    ∃ result consumed,
      (retried outcomes config).attempts messages remaining backoff lastErr tape =
        (.returned result, tape.advance consumed) ∧
      Exchange outcomes tape.position remaining lastErr result consumed := by
  induction remaining generalizing backoff lastErr tape with
  | zero => exact ⟨_, 0, by simp [RetryingLlmProvider.attempts], .unattempted rfl⟩
  | succ remaining ih =>
      have hcall : (retried outcomes config).inner.complete messages tape =
          (.returned (outcomes tape.position), tape.advance 1) := rfl
      cases houtcome : outcomes tape.position with
      | ok response =>
          rw [houtcome] at hcall
          exact ⟨_, _, RetryingLlmProvider.attempts_of_ok hcall _ _ _,
            .answered 0 (by omega) houtcome (by simp)⟩
      | error e =>
          rw [houtcome] at hcall
          by_cases hlast : remaining = 0
          · subst hlast
            exact ⟨_, 1, RetryingLlmProvider.attempts_of_last_error hcall _ _,
              .exhausted 0 rfl houtcome (by simp)⟩
          · obtain ⟨next, hnext, hfits⟩ := RetryConfig.exists_fitting_backoff hlast hfit
            have hpause : (retried outcomes config).pause backoff
                (tape.advance 1) = (.returned (), tape.advance 1) :=
              RetryingLlmProvider.pause_of_sleep rfl
            obtain ⟨result, consumed, hrest, hexchange⟩ :=
              ih (some e) (tape.advance 1) hfits
            refine ⟨result, consumed + 1, ?_, hexchange.after_failure houtcome⟩
            rw [RetryingLlmProvider.attempts_of_error hcall hlast hpause hnext,
              hrest, Tape.advance_succ]

/-! ## Metered calls -/

/-- A budgeted provider over a retrying provider over a stream. -/
structure Wiring where
  outcomes : Nat → Result LlmResponse
  config : RetryConfig
  defaultBudget : TokenBudget
  perTenantBudget : HashMap TenantId TokenBudget

structure MeteredRequest where
  tenantId : TenantId
  messages : List LlmMessage

namespace Wiring

def provider (wiring : Wiring) : BudgetedLlmProvider Tape where
  inner := (retried wiring.outcomes wiring.config).llmProvider
  defaultBudget := wiring.defaultBudget
  perTenantBudget := wiring.perTenantBudget

def attempts (wiring : Wiring) : Nat := wiring.config.maxAttempts.toNat

def budget (wiring : Wiring) (tenantId : TenantId) : UInt64 :=
  (wiring.provider.budgetFor tenantId).maxTokens

def perform (wiring : Wiring) (request : MeteredRequest) :
    Action (Metered Tape) (Except BudgetError LlmResponse) :=
  wiring.provider.completeForTenant request.tenantId request.messages

def next (wiring : Wiring) (s : Metered Tape) (request : MeteredRequest) :
    Metered Tape :=
  (wiring.perform request s).2

def initial : Metered Tape := (Mutex.new ∅, Tape.start)

/-- Charging a result: only a response counts. -/
def charge (result : Result LlmResponse) : UInt64 :=
  match result with
  | .ok response => Usage.spent response
  | .error _ => 0

def tokens (result : Result LlmResponse) : Nat :=
  match result with
  | .ok response => response.inputTokens.toNat + response.outputTokens.toNat
  | .error _ => 0

def Admits (wiring : Wiring) (s : Metered Tape) (request : MeteredRequest) :
    Prop :=
  s.1.value.used request.tenantId < wiring.budget request.tenantId

instance (wiring : Wiring) (s : Metered Tape) (request : MeteredRequest) :
    Decidable (wiring.Admits s request) :=
  inferInstanceAs (Decidable (_ < _))

/-- What one metered call does. -/
structure ChargedOnce (wiring : Wiring) (s : Metered Tape)
    (request : MeteredRequest) : Prop where
  rejected : ¬ wiring.Admits s request → wiring.perform request s =
    (.returned (.error (.exceeded request.tenantId
      (s.1.value.used request.tenantId) (wiring.budget request.tenantId))), s)
  admitted : wiring.Admits s request → ∃ result consumed usage,
    Exchange wiring.outcomes s.2.position wiring.attempts none result consumed ∧
    wiring.perform request s =
      (.returned (result.mapError BudgetError.core),
        (⟨usage, false⟩, s.2.advance consumed)) ∧
    (∀ other, other ≠ request.tenantId →
      usage.used other = s.1.value.used other) ∧
    usage.used request.tenantId =
      s.1.value.used request.tenantId + charge result ∧
    ((wiring.budget request.tenantId).toNat + (2 ^ 33 - 2) ≤ 2 ^ 64 →
      (usage.used request.tenantId).toNat =
        (s.1.value.used request.tenantId).toNat + tokens result)

theorem toNat_charge (result : Result LlmResponse) :
    (charge result).toNat = tokens result := by
  cases result with
  | ok response => exact Usage.toNat_spent response
  | error e => rfl

private theorem tokens_le (result : Result LlmResponse) :
    tokens result ≤ 2 ^ 33 - 2 := by
  rw [← toNat_charge]
  cases result with
  | ok response => exact Usage.toNat_spent_le response
  | error e => exact Nat.zero_le _

/-- Below such a budget the counter has room for any response. -/
theorem toNat_add_charge {used budget : UInt64} (hbelow : used < budget)
    (hroom : budget.toNat + (2 ^ 33 - 2) ≤ 2 ^ 64)
    (result : Result LlmResponse) :
    (used + charge result).toNat = used.toNat + tokens result := by
  have hlt := UInt64.lt_iff_toNat_lt.mp hbelow
  have htokens := tokens_le result
  rw [UInt64.toNat_add, toNat_charge, Nat.mod_eq_of_lt (by omega)]

def settle (tenantId : TenantId) (result : Result LlmResponse) (usage : Usage) :
    Usage :=
  match result with
  | .ok response => usage.record tenantId response
  | .error _ => usage

theorem used_settle (tenantId other : TenantId) (result : Result LlmResponse)
    (usage : Usage) :
    (settle tenantId result usage).used other =
      if other = tenantId then usage.used tenantId + charge result
      else usage.used other := by
  cases result with
  | ok response => exact Usage.used_record tenantId other response usage
  | error e =>
      simp only [settle, charge, UInt64.add_zero]
      split
      · rename_i hsame
        rw [hsame]
      · rfl

private theorem perform_of_rejected (wiring : Wiring) (usage : Usage)
    (tape : Tape) {request : MeteredRequest}
    (h : ¬ wiring.Admits (⟨usage, false⟩, tape) request) :
    wiring.perform request (⟨usage, false⟩, tape) =
      (.returned (.error (.exceeded request.tenantId
        (usage.used request.tenantId) (wiring.budget request.tenantId))),
        (⟨usage, false⟩, tape)) := by
  have hcheck : usage.check (wiring.provider.budgetFor request.tenantId)
      request.tenantId = .error (.exceeded request.tenantId
        (usage.used request.tenantId) (wiring.budget request.tenantId)) :=
    if_pos (UInt64.not_lt.mp h)
  rw [perform, BudgetedLlmProvider.completeForTenant_apply, hcheck]

private theorem perform_of_admitted (wiring : Wiring) (usage : Usage)
    (tape : Tape) {request : MeteredRequest}
    (h : wiring.Admits (⟨usage, false⟩, tape) request)
    {result : Result LlmResponse} {tape' : Tape}
    (hinner : wiring.provider.inner.complete request.messages tape =
      (.returned result, tape')) :
    wiring.perform request (⟨usage, false⟩, tape) =
      (.returned (result.mapError BudgetError.core),
        (⟨settle request.tenantId result usage, false⟩, tape')) := by
  have hcheck : usage.check (wiring.provider.budgetFor request.tenantId)
      request.tenantId = .ok () := Usage.check_eq_ok_iff.mpr h
  rw [perform, BudgetedLlmProvider.completeForTenant_apply, hcheck]
  dsimp only
  rw [hinner]
  cases result with
  | ok response => rfl
  | error e => rfl

/-- Step lemma: every call on an unlocked counter charges at most once. -/
theorem chargedOnce (wiring : Wiring) (hfit : wiring.config.BackoffsFit)
    {s : Metered Tape} (hlock : s.1.poisoned = false)
    (request : MeteredRequest) : ChargedOnce wiring s request := by
  obtain ⟨⟨usage, poisoned⟩, tape⟩ := s
  change poisoned = false at hlock
  subst hlock
  refine ⟨wiring.perform_of_rejected usage tape, fun hadmits => ?_⟩
  obtain ⟨result, consumed, hinner, hexchange⟩ :=
    attempts_exchange request.messages none tape hfit
  refine ⟨result, consumed, settle request.tenantId result usage, hexchange,
    wiring.perform_of_admitted usage tape hadmits hinner, fun other hother => ?_,
    ?_, fun hroom => ?_⟩
  · rw [used_settle, if_neg hother]
  · rw [used_settle, if_pos rfl]
  · rw [used_settle, if_pos rfl]
    exact toNat_add_charge hadmits hroom result

theorem next_unpoisoned (wiring : Wiring) (hfit : wiring.config.BackoffsFit)
    {s : Metered Tape} (hlock : s.1.poisoned = false)
    (request : MeteredRequest) : (wiring.next s request).1.poisoned = false := by
  have hcharged := wiring.chargedOnce hfit hlock request
  by_cases hadmits : wiring.Admits s request
  · obtain ⟨result, consumed, usage, -, hperform, -⟩ := hcharged.admitted hadmits
    rw [next, hperform]
  · rw [next, hcharged.rejected hadmits]
    exact hlock

/-! ## Runs -/

def after (wiring : Wiring) (requests : List MeteredRequest) : Metered Tape :=
  requests.foldl wiring.next initial

/-- The number of calls of a run that the budget admits. -/
def admittedFrom (wiring : Wiring) : Metered Tape → List MeteredRequest → Nat
  | _, [] => 0
  | s, request :: requests =>
      (if wiring.Admits s request then 1 else 0) +
        wiring.admittedFrom (wiring.next s request) requests

/-- The provider was called at each position once, in order. -/
def Consecutive (tape : Tape) : Prop := tape.called = List.range tape.position

theorem Consecutive.advance {tape : Tape} (h : Consecutive tape) (count : Nat) :
    Consecutive (tape.advance count) := by
  simp only [Consecutive, Tape.advance] at h ⊢
  have happend := List.range'_append_1 (s := 0) (m := tape.position) (n := count)
  rw [Nat.zero_add] at happend
  rw [h, List.range_eq_range', List.range_eq_range', happend]

/-- Step lemma: an admitted call moves the tape by at most its attempts. -/
theorem next_tape (wiring : Wiring) (hfit : wiring.config.BackoffsFit)
    {s : Metered Tape} (hlock : s.1.poisoned = false)
    (request : MeteredRequest) :
    ∃ consumed,
      consumed ≤ wiring.attempts * (if wiring.Admits s request then 1 else 0) ∧
      (wiring.next s request).2 = s.2.advance consumed := by
  have hcharged := wiring.chargedOnce hfit hlock request
  by_cases hadmits : wiring.Admits s request
  · obtain ⟨result, consumed, usage, hexchange, hperform, -⟩ :=
      hcharged.admitted hadmits
    refine ⟨consumed, ?_, by rw [next, hperform]⟩
    rw [if_pos hadmits, Nat.mul_one]
    exact hexchange.consumed_le
  · refine ⟨0, Nat.zero_le _, ?_⟩
    rw [next, hcharged.rejected hadmits, Tape.advance_zero]

private theorem foldl_tape (wiring : Wiring) (hfit : wiring.config.BackoffsFit)
    (requests : List MeteredRequest) {s : Metered Tape}
    (hlock : s.1.poisoned = false) (hcalled : Consecutive s.2) :
    Consecutive (requests.foldl wiring.next s).2 ∧
      (requests.foldl wiring.next s).2.position ≤
        s.2.position + wiring.attempts * wiring.admittedFrom s requests := by
  induction requests generalizing s with
  | nil => exact ⟨hcalled, Nat.le_add_right _ _⟩
  | cons request requests ih =>
      obtain ⟨consumed, hconsumed, htape⟩ := wiring.next_tape hfit hlock request
      have hrest := ih (wiring.next_unpoisoned hfit hlock request)
        (by rw [htape]; exact hcalled.advance consumed)
      refine ⟨hrest.1, hrest.2.trans ?_⟩
      have hposition : (wiring.next s request).2.position =
          s.2.position + consumed := by
        rw [htape]
        rfl
      rw [hposition, admittedFrom, Nat.mul_add]
      omega

/--
Every call of every run charges once, and over the whole run the provider is
called at consecutive positions, at most `maxAttempts` times for each call that
the budget admits.
-/
theorem charges_once (wiring : Wiring) (hfit : wiring.config.BackoffsFit)
    (requests : List MeteredRequest) :
    EachStep wiring.next (ChargedOnce wiring) initial requests ∧
      (wiring.after requests).2.called =
        List.range (wiring.after requests).2.position ∧
      (wiring.after requests).2.called.length ≤
        wiring.attempts * wiring.admittedFrom initial requests := by
  have htape := wiring.foldl_tape hfit requests (s := initial) rfl rfl
  have hcalled : (wiring.after requests).2.called =
      List.range (wiring.after requests).2.position := htape.1
  have hbound : (wiring.after requests).2.position ≤
      0 + wiring.attempts * wiring.admittedFrom initial requests := htape.2
  refine ⟨?_, hcalled, ?_⟩
  · exact EachStep.of_step (fun s => s.1.poisoned = false)
      (fun s request hlock => wiring.chargedOnce hfit hlock request)
      (fun s request hlock => wiring.next_unpoisoned hfit hlock request) rfl
      requests
  · rw [hcalled, List.length_range]
    omega

/-- Four of five calls of the provider fail. -/
def flakyWiring : Wiring where
  outcomes position :=
    if position % 5 = 4 then .ok ⟨"canned answer", 3, 2⟩
    else .error (.upstream "connection reset")
  config := .default
  defaultBudget := ⟨5⟩
  perTenantBudget := ∅

def flakyRequests : List MeteredRequest := List.replicate 3 ⟨⟨⟨1⟩⟩, []⟩

/-- One call uses up its attempts, one is answered, and the budget rejects the last. -/
theorem charges_once_flakyWiring :
    EachStep flakyWiring.next (ChargedOnce flakyWiring) initial flakyRequests ∧
      (flakyWiring.after flakyRequests).2.called =
        List.range (flakyWiring.after flakyRequests).2.position ∧
      (flakyWiring.after flakyRequests).2.called.length ≤
        flakyWiring.attempts * flakyWiring.admittedFrom initial flakyRequests ∧
      (flakyWiring.after flakyRequests).2.position = 5 ∧
      (flakyWiring.after flakyRequests).1.value.used ⟨⟨1⟩⟩ = 5 := by
  have hfit : flakyWiring.config.BackoffsFit := by
    unfold RetryConfig.BackoffsFit
    decide +kernel
  obtain ⟨hsteps, hcalled, hbound⟩ := charges_once flakyWiring hfit flakyRequests
  exact ⟨hsteps, hcalled, hbound, by decide +kernel, by decide +kernel⟩

/-! ## A counter at its limit -/

def largestRequest : MeteredRequest := ⟨⟨⟨1⟩⟩, []⟩

/-- Every call of the provider reports the greatest number of tokens. -/
def largestWiring : Wiring where
  outcomes _ := .ok ⟨"", 4294967295, 4294967295⟩
  config := .default
  defaultBudget := ⟨18446744073709551615⟩
  perTenantBudget := ∅

theorem largestWiring_fits : largestWiring.config.BackoffsFit := by
  unfold RetryConfig.BackoffsFit
  decide +kernel

private theorem largestWiring_exchange {position consumed : Nat}
    {result : Result LlmResponse}
    (h : Exchange largestWiring.outcomes position largestWiring.attempts none
      result consumed) : result = .ok ⟨"", 4294967295, 4294967295⟩ := by
  cases h with
  | answered index hindex hresponse => exact hresponse.symm
  | exhausted last hattempts herror => cases herror
  | unattempted hattempts => cases hattempts

theorem largestWiring_step {s : Metered Tape} (hlock : s.1.poisoned = false)
    (hadmits : largestWiring.Admits s largestRequest) :
    (largestWiring.perform largestRequest s).1 =
        .returned (.ok ⟨"", 4294967295, 4294967295⟩) ∧
      ((largestWiring.next s largestRequest).1.value.used
        largestRequest.tenantId).toNat =
          ((s.1.value.used largestRequest.tenantId).toNat + (2 ^ 33 - 2)) %
            2 ^ 64 := by
  obtain ⟨result, consumed, usage, hexchange, hperform, -, hused, -⟩ :=
    (largestWiring.chargedOnce largestWiring_fits hlock largestRequest).admitted
      hadmits
  have hresult := largestWiring_exchange hexchange
  subst hresult
  refine ⟨by rw [hperform]; rfl, ?_⟩
  rw [next, hperform, hused, UInt64.toNat_add, toNat_charge]
  rfl

theorem largestWiring_admits {s : Metered Tape} {count : Nat}
    (hcount : count ≤ 2 ^ 31)
    (hused : (s.1.value.used largestRequest.tenantId).toNat =
      count * (2 ^ 33 - 2)) : largestWiring.Admits s largestRequest := by
  have hbudget : (largestWiring.budget largestRequest.tenantId).toNat =
      18446744073709551615 := by decide +kernel
  rw [Admits, UInt64.lt_iff_toNat_lt, hused, hbudget]
  omega

private theorem largestWiring_used {count : Nat} (hcount : count ≤ 2 ^ 31) :
    (largestWiring.after (List.replicate count largestRequest)).1.poisoned =
        false ∧
      ((largestWiring.after (List.replicate count largestRequest)).1.value.used
        largestRequest.tenantId).toNat = count * (2 ^ 33 - 2) := by
  induction count with
  | zero => exact ⟨rfl, by simp [after, initial, Mutex.new]⟩
  | succ count ih =>
      obtain ⟨hlock, hused⟩ := ih (by omega)
      have hadmits := largestWiring_admits (by omega) hused
      have hafter : largestWiring.after
          (List.replicate (count + 1) largestRequest) =
            largestWiring.next
              (largestWiring.after (List.replicate count largestRequest))
              largestRequest := by
        rw [after, List.replicate_succ', List.foldl_append]
        rfl
      have hstep := (largestWiring_step hlock hadmits).2
      rw [hafter]
      refine ⟨largestWiring.next_unpoisoned largestWiring_fits hlock _, ?_⟩
      rw [hstep, hused, Nat.mod_eq_of_lt (by omega)]
      omega

/-- The admitted call after 2^31 others is not charged its tokens. -/
theorem largestWiring_undercharges :
    let s := largestWiring.after (List.replicate (2 ^ 31) largestRequest)
    ∃ response, (largestWiring.perform largestRequest s).1 =
        .returned (.ok response) ∧
      ((largestWiring.next s largestRequest).1.value.used
        largestRequest.tenantId).toNat ≠
          (s.1.value.used largestRequest.tenantId).toNat +
            tokens (.ok response) := by
  intro s
  obtain ⟨hlock, hused⟩ := largestWiring_used (le_refl (2 ^ 31))
  have hadmits := largestWiring_admits (le_refl (2 ^ 31)) hused
  obtain ⟨hresponse, hnext⟩ := largestWiring_step hlock hadmits
  refine ⟨_, hresponse, ?_⟩
  have hlt := ((largestWiring.next s largestRequest).1.value.used
    largestRequest.tenantId).toNat_lt
  have htokens : tokens (.ok ⟨"", 4294967295, 4294967295⟩) = 2 ^ 33 - 2 := rfl
  rw [htokens, hused]
  omega

end Wiring

end Milona.Adapter
