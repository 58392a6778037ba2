import Mathlib.Algebra.Order.Ring.Unbundled.Rat
import Mathlib.Tactic.Linarith
import Milona.Core.Traits
import Milona.Foundation.Congruence

/-!
# Retries

A `RetryingLlmProvider` calls the inner provider until it succeeds, at most
`maxAttempts` times, and sleeps between attempts.  Durations and the multiplier
are exact numbers of seconds; computing a delay that does not fit a duration
panics.
-/

namespace Milona.Adapter

open Milona.Core Milona.Foundation

/-- A number of seconds that fits 64 bits. -/
structure Duration where
  seconds : ℚ
  nonneg : 0 ≤ seconds
  lt_limit : seconds < 2 ^ 64

namespace Duration

def zero : Duration := ⟨0, by decide +kernel, by decide +kernel⟩

def fromSeconds (seconds : ℚ) : Option Duration :=
  if h : 0 ≤ seconds ∧ seconds < 2 ^ 64 then some ⟨seconds, h.1, h.2⟩ else none

def min (first second : Duration) : Duration :=
  if first.seconds ≤ second.seconds then first else second

theorem min_le_right (first second : Duration) :
    (first.min second).seconds ≤ second.seconds := by
  unfold Duration.min
  split
  · assumption
  · exact le_refl _

end Duration

structure RetryConfig where
  maxAttempts : UInt32
  initialBackoff : Duration
  backoffMultiplier : ℚ
  maxBackoff : Duration

namespace RetryConfig

def default : RetryConfig where
  maxAttempts := 3
  initialBackoff := ⟨1 / 20, by decide +kernel, by decide +kernel⟩
  backoffMultiplier := 2
  maxBackoff := ⟨5, by decide +kernel, by decide +kernel⟩

def nextBackoff (config : RetryConfig) (backoff : Duration) : Option Duration :=
  (Duration.fromSeconds (max (backoff.seconds * config.backoffMultiplier) 0)).map
    fun next => next.min config.maxBackoff

end RetryConfig

structure RetryingLlmProvider (σ : Type) where
  inner : LlmProvider σ
  config : RetryConfig
  sleep : Duration → Action σ Unit

namespace RetryingLlmProvider

variable {σ : Type}

def pause (provider : RetryingLlmProvider σ) (backoff : Duration) :
    Action σ Unit :=
  if backoff.seconds = 0 then return () else provider.sleep backoff

/-- The loop, with the number of attempts that remain. -/
def attempts (provider : RetryingLlmProvider σ) (messages : List LlmMessage) :
    Nat → Duration → Option CoreError → Action σ (Result LlmResponse)
  | 0, _, lastErr =>
      return .error (lastErr.getD
        (.upstream "retry loop exited with no recorded error"))
  | remaining + 1, backoff, _ => do
      match ← provider.inner.complete messages with
      | .ok response => return .ok response
      | .error e =>
          if remaining = 0 then
            return .error e
          else do
            provider.pause backoff
            match provider.config.nextBackoff backoff with
            | none => Action.panic
            | some backoff =>
                provider.attempts messages remaining backoff (some e)

def llmProvider (provider : RetryingLlmProvider σ) : LlmProvider σ where
  complete messages :=
    provider.attempts messages provider.config.maxAttempts.toNat
      provider.config.initialBackoff none

/-! ## One attempt -/

section Attempt

variable {provider : RetryingLlmProvider σ} {messages : List LlmMessage}
  {s s' : σ}

/-- Pausing changes nothing where sleeping does not. -/
theorem pause_of_sleep {backoff : Duration}
    (h : provider.sleep backoff s = (.returned (), s)) :
    provider.pause backoff s = (.returned (), s) := by
  unfold pause
  split
  · rfl
  · exact h

theorem attempts_of_ok {response : LlmResponse}
    (h : provider.inner.complete messages s = (.returned (.ok response), s'))
    (remaining : Nat) (backoff : Duration) (lastErr : Option CoreError) :
    provider.attempts messages (remaining + 1) backoff lastErr s =
      (.returned (.ok response), s') := by
  rw [attempts, Action.bind_of_returned h]
  rfl

theorem attempts_of_last_error {e : CoreError}
    (h : provider.inner.complete messages s = (.returned (.error e), s'))
    (backoff : Duration) (lastErr : Option CoreError) :
    provider.attempts messages 1 backoff lastErr s =
      (.returned (.error e), s') := by
  rw [attempts, Action.bind_of_returned h]
  rfl

theorem attempts_of_error {e : CoreError} {s'' : σ} {remaining : Nat}
    {backoff next : Duration}
    (h : provider.inner.complete messages s = (.returned (.error e), s'))
    (hlast : remaining ≠ 0)
    (hpause : provider.pause backoff s' = (.returned (), s''))
    (hnext : provider.config.nextBackoff backoff = some next)
    (lastErr : Option CoreError) :
    provider.attempts messages (remaining + 1) backoff lastErr s =
      provider.attempts messages remaining next (some e) s'' := by
  rw [attempts, Action.bind_of_returned h]
  dsimp only
  rw [if_neg hlast, Action.bind_of_returned hpause, hnext]

end Attempt

/-! ## Calls of the inner provider -/

def traced (provider : RetryingLlmProvider σ) :
    RetryingLlmProvider (σ × List (Outcome (Result LlmResponse))) where
  inner := ⟨fun messages => Action.logged id (provider.inner.complete messages)⟩
  config := provider.config
  sleep duration := Action.zoom .fst (provider.sleep duration)

private theorem attempts_related {τ : Type}
    {R : ∀ α : Type, Action σ α → Action τ α → Prop}
    (hR : Action.Congruence R) {provider : RetryingLlmProvider σ}
    {provider' : RetryingLlmProvider τ}
    (hinner : ∀ messages, R _ (provider.inner.complete messages)
      (provider'.inner.complete messages))
    (hsleep : ∀ duration,
      R _ (provider.sleep duration) (provider'.sleep duration))
    (hconfig : provider'.config = provider.config)
    (messages : List LlmMessage) (remaining : Nat) (backoff : Duration)
    (lastErr : Option CoreError) :
    R _ (provider.attempts messages remaining backoff lastErr)
      (provider'.attempts messages remaining backoff lastErr) := by
  have hpause : ∀ backoff,
      R _ (provider.pause backoff) (provider'.pause backoff) := by
    intro backoff
    unfold pause
    split
    · exact hR.pure _
    · exact hsleep backoff
  induction remaining generalizing backoff lastErr with
  | zero => exact hR.pure _
  | succ remaining ih =>
      apply hR.bind (hinner messages)
      intro result
      cases result with
      | ok response => exact hR.pure _
      | error e =>
          dsimp only
          split
          · exact hR.pure _
          · apply hR.bind (hpause backoff)
            intro _
            rw [hconfig]
            split
            · exact hR.panic
            · exact ih _ _

/-- Logging the calls of the inner provider changes nothing else. -/
theorem instruments_complete (provider : RetryingLlmProvider σ)
    (messages : List LlmMessage) :
    Action.Instruments (provider.llmProvider.complete messages)
      (provider.traced.llmProvider.complete messages) :=
  attempts_related Action.congruence_instruments
    (fun _ => Action.instruments_logged _ _) (fun _ => Action.instruments_zoom _)
    rfl messages _ _ none

end RetryingLlmProvider

def success : Outcome (Result LlmResponse) → Option LlmResponse
  | .returned (.ok response) => some response
  | .returned (.error _) | .panicked => none

/--
At most one call of the inner provider succeeds, and its response is the
result; there is no call only if there is no attempt.
-/
def AttemptPhase (remaining : Nat) (outcome : Outcome (Result LlmResponse))
    (events : List (Outcome (Result LlmResponse))) : Prop :=
  events.filterMap success = (success outcome).toList ∧
    if remaining = 0 then events = [] ∧ ∃ e, outcome = .returned (.error e)
    else events ≠ []

theorem AttemptPhase.after_failure {remaining remaining' : Nat}
    {outcome : Outcome (Result LlmResponse)}
    {events : List (Outcome (Result LlmResponse))}
    (h : AttemptPhase remaining outcome events) (e : CoreError) :
    AttemptPhase (remaining' + 1) outcome (.returned (.error e) :: events) := by
  refine ⟨?_, by simp⟩
  rw [List.filterMap_cons_none rfl]
  exact h.1

theorem AttemptPhase.eq_nil_iff {remaining : Nat}
    {outcome : Outcome (Result LlmResponse)}
    {events : List (Outcome (Result LlmResponse))}
    (h : AttemptPhase remaining outcome events) :
    events = [] ↔ remaining = 0 := by
  obtain ⟨-, hattempts⟩ := h
  by_cases hzero : remaining = 0
  · rw [if_pos hzero] at hattempts
    exact ⟨fun _ => hzero, fun _ => hattempts.1⟩
  · rw [if_neg hzero] at hattempts
    exact ⟨fun hnil => absurd hnil hattempts, fun h => absurd h hzero⟩

theorem AttemptPhase.exists_error {outcome : Outcome (Result LlmResponse)}
    {events : List (Outcome (Result LlmResponse))}
    (h : AttemptPhase 0 outcome events) : ∃ e, outcome = .returned (.error e) :=
  h.2.2

namespace RetryingLlmProvider

variable {σ : Type}

open Action

private theorem emits_pause (provider : RetryingLlmProvider σ)
    (backoff : Duration) :
    Emits (provider.traced.pause backoff) fun _ events => events = [] := by
  unfold pause
  split
  · exact emits_pure rfl
  · exact emits_zoom fun _ => rfl

theorem emits_attempts (provider : RetryingLlmProvider σ)
    (messages : List LlmMessage) (remaining : Nat) (backoff : Duration)
    (lastErr : Option CoreError) :
    Emits (provider.traced.attempts messages remaining backoff lastErr)
      (AttemptPhase remaining) := by
  induction remaining generalizing backoff lastErr with
  | zero => exact emits_pure ⟨rfl, rfl, _, rfl⟩
  | succ remaining ih =>
      refine (emits_logged (P := fun outcome events => events = [outcome])
        fun _ => rfl).bind (fun result events hevents => ?_)
          fun events hevents => ?_
      · subst hevents
        cases result with
        | ok response => exact emits_pure ⟨rfl, by simp⟩
        | error e =>
            dsimp only
            by_cases hlast : remaining = 0
            · rw [if_pos hlast]
              exact emits_pure ⟨rfl, by simp⟩
            · rw [if_neg hlast]
              refine (emits_pause provider backoff).bind
                (fun _ events hevents => ?_) fun events hevents => ?_
              · subst hevents
                split
                · exact emits_panic ⟨rfl, by simp⟩
                · exact (ih _ _).mono fun outcome later hlater =>
                    hlater.after_failure e
              · subst hevents
                exact ⟨rfl, by simp⟩
      · subst hevents
        exact ⟨rfl, by simp⟩

theorem emits_complete (provider : RetryingLlmProvider σ)
    (messages : List LlmMessage) :
    Emits (provider.traced.llmProvider.complete messages)
      (AttemptPhase provider.config.maxAttempts.toNat) :=
  emits_attempts provider messages _ _ none

end RetryingLlmProvider

/-! ## A fixed model -/

abbrev Model : Type := List LlmMessage → Result LlmResponse

variable {σ : Type}

def fixedLlm (model : Model) : LlmProvider σ where
  complete messages := return model messages

def noSleep : Duration → Action σ Unit := fun _ => return ()

private theorem exists_nextBackoff {backoff : Duration}
    (h : backoff.seconds ≤ 5) :
    ∃ next, RetryConfig.default.nextBackoff backoff = some next ∧
      next.seconds ≤ 5 := by
  have hfits : 0 ≤ max (backoff.seconds * 2) 0 ∧
      max (backoff.seconds * 2) 0 < 2 ^ 64 := by
    refine ⟨le_max_right _ _, max_lt ?_ (by norm_num)⟩
    linarith
  have hmultiplier : RetryConfig.default.backoffMultiplier = 2 := rfl
  refine ⟨Duration.min ⟨_, hfits.1, hfits.2⟩ RetryConfig.default.maxBackoff,
    ?_, Duration.min_le_right _ _⟩
  rw [RetryConfig.nextBackoff, Duration.fromSeconds, hmultiplier, dif_pos hfits]
  rfl

/-- Retrying a fixed model gives what the model gives. -/
theorem attempts_fixed (model : Model) (messages : List LlmMessage) (s : σ)
    (remaining : Nat) {backoff : Duration} (hbackoff : backoff.seconds ≤ 5)
    (lastErr : Option CoreError) :
    RetryingLlmProvider.attempts ⟨fixedLlm model, RetryConfig.default, noSleep⟩
        messages (remaining + 1) backoff lastErr s =
      (.returned (model messages), s) := by
  have hcall : (fixedLlm model).complete messages s =
      (.returned (model messages), s) := rfl
  induction remaining generalizing backoff lastErr with
  | zero =>
      cases hmodel : model messages with
      | ok response =>
          rw [hmodel] at hcall
          exact RetryingLlmProvider.attempts_of_ok hcall 0 backoff lastErr
      | error e =>
          rw [hmodel] at hcall
          exact RetryingLlmProvider.attempts_of_last_error hcall backoff lastErr
  | succ remaining ih =>
      cases hmodel : model messages with
      | ok response =>
          rw [hmodel] at hcall
          exact RetryingLlmProvider.attempts_of_ok hcall _ backoff lastErr
      | error e =>
          obtain ⟨next, hnext, hsmall⟩ := exists_nextBackoff hbackoff
          rw [hmodel] at hcall
          have hpause : RetryingLlmProvider.pause
              ⟨fixedLlm model, RetryConfig.default, noSleep⟩ backoff s =
                (.returned (), s) := RetryingLlmProvider.pause_of_sleep rfl
          rw [RetryingLlmProvider.attempts_of_error hcall (by omega) hpause hnext,
            ih hsmall, hmodel]

end Milona.Adapter
