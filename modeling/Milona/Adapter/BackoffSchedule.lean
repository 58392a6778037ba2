import Milona.Adapter.OutcomeStream
import Milona.Foundation.ClampedGrowth

/-!
# The backoff schedule

The delays of one call are read off a log of the inner calls and the sleeps.
The loop clamps a delay when it computes the next one, so the first delay is not
clamped, and a product that does not fit a duration panics before it is clamped.
-/

namespace Milona.Adapter

open Milona.Core Milona.Foundation

inductive RetryEvent where
  | called (outcome : Outcome (Result LlmResponse))
  | slept (duration : Duration)

/-- The time slept before the next call. -/
def pauseBefore : List RetryEvent → ℚ
  | .slept duration :: events => duration.seconds + pauseBefore events
  | _ => 0

/-- The time slept after each call. -/
def waits : List RetryEvent → List ℚ
  | [] => []
  | .called _ :: events => pauseBefore events :: waits events
  | .slept _ :: events => waits events

def RetryingLlmProvider.withLog {σ : Type} (provider : RetryingLlmProvider σ) :
    RetryingLlmProvider (σ × List RetryEvent) where
  inner := ⟨fun messages =>
    Action.logged .called (provider.inner.complete messages)⟩
  config := provider.config
  sleep duration := Action.logged (fun _ => .slept duration)
    (provider.sleep duration)

/-- A stream that fails the given number of times and then succeeds. -/
def failingFor (failures : Nat) (errors : Nat → CoreError)
    (response : LlmResponse) :
    Nat → Result LlmResponse :=
  fun index => if index < failures then .error (errors index) else .ok response

theorem Duration.seconds_min (first second : Duration) :
    (first.min second).seconds = Min.min first.seconds second.seconds := by
  unfold Duration.min
  split
  next hle => rw [min_eq_left hle]
  next hle => rw [min_eq_right (le_of_not_ge hle)]

namespace RetryConfig

def calls (config : RetryConfig) (failures : Nat) : Nat :=
  min (failures + 1) config.maxAttempts.toNat

def retries (config : RetryConfig) (failures : Nat) : Nat :=
  config.calls failures - 1

/-- The delay that the documentation asks for before a retry. -/
def expectedDelay (config : RetryConfig) (retry : Nat) : ℚ :=
  min config.maxBackoff.seconds
    (config.initialBackoff.seconds * config.backoffMultiplier ^ retry)

def clampNext (config : RetryConfig) : ℚ → ℚ :=
  growClamped config.maxBackoff.seconds config.backoffMultiplier

/-- The call ends, with the expected delay before each retry and none at its end. -/
def OnSchedule (config : RetryConfig) (failures : Nat)
    (outcome : Outcome (Result LlmResponse)) (events : List RetryEvent) : Prop :=
  outcome ≠ .panicked ∧
    waits events = (List.range (config.calls failures)).map fun index =>
      if index + 1 < config.calls failures then config.expectedDelay index else 0

variable {config : RetryConfig} {backoff : Duration}

theorem nextBackoff_of_lt (hmult : 0 ≤ config.backoffMultiplier)
    (h : backoff.seconds * config.backoffMultiplier < 2 ^ 64) :
    ∃ next, config.nextBackoff backoff = some next ∧
      next.seconds = config.clampNext backoff.seconds := by
  have hnonneg : 0 ≤ backoff.seconds * config.backoffMultiplier :=
    mul_nonneg backoff.nonneg hmult
  have hfits : Duration.fromSeconds
      (max (backoff.seconds * config.backoffMultiplier) 0) =
      some ⟨backoff.seconds * config.backoffMultiplier, hnonneg, h⟩ := by
    rw [max_eq_left hnonneg, Duration.fromSeconds, dif_pos ⟨hnonneg, h⟩]
  exact ⟨_, by rw [nextBackoff, hfits]; rfl, Duration.seconds_min _ _⟩

theorem nextBackoff_of_le
    (h : 2 ^ 64 ≤ backoff.seconds * config.backoffMultiplier) :
    config.nextBackoff backoff = none := by
  have hover : ¬ (0 ≤ max (backoff.seconds * config.backoffMultiplier) 0 ∧
      max (backoff.seconds * config.backoffMultiplier) 0 < 2 ^ 64) := by
    rintro ⟨-, hlt⟩
    exact absurd (lt_of_le_of_lt (le_max_left _ _) hlt) (not_lt.mpr h)
  rw [nextBackoff, Duration.fromSeconds, dif_neg hover]
  rfl

end RetryConfig

/-! ## The loop -/

section Loop

variable {config : RetryConfig} {failures : Nat}

def sleepEvents (backoff : Duration) : List RetryEvent :=
  if backoff.seconds = 0 then [] else [.slept backoff]

theorem pauseBefore_sleepEvents (backoff : Duration) {events : List RetryEvent}
    (h : pauseBefore events = 0) :
    pauseBefore (sleepEvents backoff ++ events) = backoff.seconds := by
  unfold sleepEvents
  split
  next hzero => rw [List.nil_append, h, hzero]
  next => rw [List.singleton_append, pauseBefore, h, add_zero]

theorem waits_sleepEvents (backoff : Duration) (events : List RetryEvent) :
    waits (sleepEvents backoff ++ events) = waits events := by
  unfold sleepEvents
  split <;> rfl

theorem pause_withLog (config : RetryConfig) (outcomes : Nat → Result LlmResponse)
    (backoff : Duration) (tape : Tape) (log : List RetryEvent) :
    (retried outcomes config).withLog.pause backoff (tape, log) =
      (.returned (), (tape, log ++ sleepEvents backoff)) := by
  unfold RetryingLlmProvider.pause sleepEvents
  split
  · rw [List.append_nil]
    rfl
  · rfl

theorem complete_withLog (config : RetryConfig)
    {outcomes : Nat → Result LlmResponse} {tape : Tape}
    {result : Result LlmResponse} (houtcome : outcomes tape.position = result)
    (messages : List LlmMessage) (log : List RetryEvent) :
    (retried outcomes config).withLog.inner.complete messages (tape, log) =
      (.returned result, (tape.advance 1,
        log ++ [.called (.returned result)])) := by
  subst houtcome
  rfl

/-- The loop with some attempts to go, before its next call. -/
def loopFrom (config : RetryConfig) (outcomes : Nat → Result LlmResponse)
    (messages : List LlmMessage) (remaining : Nat) (backoff : Duration)
    (lastErr : Option CoreError) (tape : Tape) (log : List RetryEvent) :
    Outcome (Result LlmResponse) × Tape × List RetryEvent :=
  (retried outcomes config).withLog.attempts messages remaining backoff lastErr
    (tape, log)

section Step

variable {outcomes : Nat → Result LlmResponse} {tape : Tape} {remaining : Nat}
variable {e : CoreError} {backoff next : Duration} (messages : List LlmMessage)
variable (lastErr : Option CoreError) (log : List RetryEvent)

theorem loopFrom_of_ok {response : LlmResponse}
    (houtcome : outcomes tape.position = .ok response) :
    loopFrom config outcomes messages (remaining + 1) backoff lastErr tape log =
      (.returned (.ok response), tape.advance 1,
        log ++ [.called (.returned (.ok response))]) :=
  RetryingLlmProvider.attempts_of_ok
    (complete_withLog config houtcome messages log) _ _ _

theorem loopFrom_of_last_error (houtcome : outcomes tape.position = .error e) :
    loopFrom config outcomes messages 1 backoff lastErr tape log =
      (.returned (.error e), tape.advance 1,
        log ++ [.called (.returned (.error e))]) :=
  RetryingLlmProvider.attempts_of_last_error
    (complete_withLog config houtcome messages log) _ _

theorem loopFrom_of_error (houtcome : outcomes tape.position = .error e)
    (hlast : remaining ≠ 0) (hnext : config.nextBackoff backoff = some next) :
    loopFrom config outcomes messages (remaining + 1) backoff lastErr tape log =
      loopFrom config outcomes messages remaining next (some e) (tape.advance 1)
        (log ++ .called (.returned (.error e)) :: sleepEvents backoff) := by
  have hstep := RetryingLlmProvider.attempts_of_error
    (complete_withLog config houtcome messages log) hlast
    (pause_withLog config outcomes backoff (tape.advance 1) _) hnext lastErr
  rw [List.append_assoc] at hstep
  exact hstep

theorem loopFrom_of_unfit (houtcome : outcomes tape.position = .error e)
    (hlast : remaining ≠ 0) (hnext : config.nextBackoff backoff = none) :
    (loopFrom config outcomes messages (remaining + 1)
        backoff lastErr tape log).1 =
      .panicked := by
  have hcall := complete_withLog config houtcome messages log
  have hpause := pause_withLog config outcomes backoff (tape.advance 1)
    (log ++ [.called (.returned (.error e))])
  have hunfit : (retried outcomes config).withLog.config.nextBackoff backoff =
    none := hnext
  rw [loopFrom, RetryingLlmProvider.attempts, Action.bind_of_returned hcall]
  dsimp only
  rw [if_neg hlast, Action.bind_of_returned hpause, hunfit]
  rfl

end Step

/-- The delays of a loop that makes the given number of calls. -/
def delays (config : RetryConfig) (backoff : Duration) (calls : Nat) : List ℚ :=
  (List.range calls).map fun index =>
    if index + 1 < calls then config.clampNext^[index] backoff.seconds else 0

theorem delays_one (config : RetryConfig) (backoff : Duration) :
    delays config backoff 1 = [0] := rfl

theorem delays_succ {backoff next : Duration}
    (hnext : next.seconds = config.clampNext backoff.seconds) {calls : Nat}
    (hcalls : 0 < calls) :
    delays config backoff (calls + 1) =
      backoff.seconds :: delays config next calls := by
  unfold delays
  rw [List.range_succ_eq_map, List.map_cons, List.map_map]
  congr 1
  · rw [if_pos (by omega), Function.iterate_zero_apply]
  · apply List.map_congr_left
    intro index _
    simp only [Function.comp_apply, Nat.succ_eq_add_one, Nat.add_lt_add_iff_right,
      Function.iterate_succ_apply, hnext]

theorem failingFor_of_lt (errors : Nat → CoreError) (response : LlmResponse)
    {index : Nat} (h : index < failures) :
    failingFor failures errors response index = .error (errors index) := if_pos h

private theorem failingFor_self (failures : Nat) (errors : Nat → CoreError)
    (response : LlmResponse) :
    failingFor failures errors response failures = .ok response :=
  if_neg (lt_irrefl failures)

theorem position_advance {tape : Tape} {left : Nat}
    (h : tape.position + (left + 1) = failures) :
    (tape.advance 1).position + left = failures := by
  simp only [Tape.advance]
  omega

theorem waits_loopFrom (errors : Nat → CoreError) (response : LlmResponse)
    (messages : List LlmMessage) (hmult : 0 ≤ config.backoffMultiplier)
    {left remaining : Nat} {backoff : Duration} {tape : Tape}
    (hleft : tape.position + left = failures)
    (hfits : ∀ index, index + 1 < min (left + 1) remaining →
      config.clampNext^[index] backoff.seconds * config.backoffMultiplier < 2 ^ 64)
    (lastErr : Option CoreError) (log : List RetryEvent) :
    ∃ result tape' events,
      loopFrom config (failingFor failures errors response)
        messages remaining backoff
          lastErr tape log = (.returned result, tape', log ++ events) ∧
        pauseBefore events = 0 ∧
        waits events = delays config backoff (min (left + 1) remaining) := by
  induction remaining generalizing left backoff tape lastErr log with
  | zero => exact ⟨_, tape, [], by rw [List.append_nil]; rfl, rfl, rfl⟩
  | succ remaining ih =>
      cases left with
      | zero =>
          have houtcome : failingFor failures errors response tape.position =
            .ok response := by
            rw [← hleft]
            exact failingFor_self _ _ _
          have hone : min (0 + 1) (remaining + 1) = 1 := by omega
          rw [hone, delays_one]
          exact ⟨_, _, _, loopFrom_of_ok messages lastErr log houtcome, rfl, rfl⟩
      | succ left =>
          have houtcome := failingFor_of_lt errors response
            (show tape.position < failures by omega)
          cases remaining with
          | zero =>
              have hone : min (left + 1 + 1) (0 + 1) = 1 := by omega
              rw [hone, delays_one]
              exact ⟨_, _, _, loopFrom_of_last_error messages lastErr log
                houtcome, rfl, rfl⟩
          | succ remaining =>
              obtain ⟨next, hnext, hseconds⟩ := RetryConfig.nextBackoff_of_lt hmult
                (hfits 0 (by omega))
              have hshift : ∀ index, index + 1 < min (left + 1) (remaining + 1) →
                  config.clampNext^[index] next.seconds *
                    config.backoffMultiplier <
                    2 ^ 64 := by
                intro index hindex
                rw [hseconds, ← Function.iterate_succ_apply]
                exact hfits (index + 1) (by omega)
              obtain ⟨result, tape', events, hrun, hpause, hwaits⟩ := ih
                (position_advance hleft) hshift (some (errors tape.position))
                (log ++ .called (.returned (.error (errors tape.position))) ::
                  sleepEvents backoff)
              have hcalls : min (left + 1 + 1) (remaining + 1 + 1) =
                  min (left + 1) (remaining + 1) + 1 := by omega
              refine ⟨result, tape',
                .called (.returned (.error (errors tape.position))) ::
                  (sleepEvents backoff ++ events), ?_, rfl, ?_⟩
              · rw [loopFrom_of_error messages lastErr log houtcome
                    (Nat.succ_ne_zero _)
                  hnext, hrun, List.append_assoc, List.cons_append]
              · rw [waits, pauseBefore_sleepEvents backoff hpause,
                  waits_sleepEvents, hwaits,
                  hcalls, delays_succ hseconds (by omega)]

theorem panicked_loopFrom (errors : Nat → CoreError) (response : LlmResponse)
    (messages : List LlmMessage) (hmult : 0 ≤ config.backoffMultiplier)
    {left remaining : Nat} {backoff : Duration} {tape : Tape}
    (hleft : tape.position + left = failures)
    {index : Nat} (hindex : index + 1 < min (left + 1) remaining)
    (hunfit : 2 ^ 64 ≤
      config.clampNext^[index] backoff.seconds * config.backoffMultiplier)
    (lastErr : Option CoreError) (log : List RetryEvent) :
    (loopFrom config (failingFor failures errors response)
        messages remaining backoff
      lastErr tape log).1 = .panicked := by
  induction remaining generalizing left backoff tape index lastErr log with
  | zero => omega
  | succ remaining ih =>
      cases left with
      | zero => omega
      | succ left =>
          have houtcome := failingFor_of_lt errors response
            (show tape.position < failures by omega)
          have hlast : remaining ≠ 0 := by omega
          by_cases hfits : backoff.seconds * config.backoffMultiplier < 2 ^ 64
          · obtain ⟨next, hnext, hseconds⟩ :=
              RetryConfig.nextBackoff_of_lt hmult hfits
            cases index with
            | zero => exact absurd hfits (not_lt.mpr hunfit)
            | succ index =>
                rw [Function.iterate_succ_apply, ← hseconds] at hunfit
                have hnextIndex : index + 1 < min (left + 1) remaining := by omega
                rw [loopFrom_of_error messages lastErr log houtcome hlast hnext]
                exact ih (position_advance hleft) hnextIndex hunfit _ _
          · exact loopFrom_of_unfit messages lastErr log houtcome hlast
              (RetryConfig.nextBackoff_of_le (not_lt.mp hfits))

end Loop

/-! ## The schedule -/

namespace RetryConfig

variable {config : RetryConfig} {failures : Nat}

theorem iterate_clampNext (hmult : 0 ≤ config.backoffMultiplier)
    (hbelow : config.initialBackoff.seconds ≤ config.maxBackoff.seconds)
    (index : Nat) :
    config.clampNext^[index] config.initialBackoff.seconds =
      config.expectedDelay index :=
  iterate_growClamped config.initialBackoff.nonneg hmult hbelow index

theorem delays_eq_expected_iff :
    delays config config.initialBackoff (config.calls failures) =
        ((List.range (config.calls failures)).map fun index =>
          if index + 1 < config.calls failures then config.expectedDelay index
          else 0) ↔
      ∀ index, index + 1 < config.calls failures →
        config.clampNext^[index] config.initialBackoff.seconds =
          config.expectedDelay index := by
  unfold delays
  rw [List.map_inj_left]
  constructor
  · intro h index hindex
    have heq := h index (List.mem_range.mpr (by omega))
    rwa [if_pos hindex, if_pos hindex] at heq
  · intro h index _
    split
    next hindex => exact h index hindex
    next => rfl

/-- Every product fits a duration and every delay is the expected one. -/
def FollowsSchedule (config : RetryConfig) (failures : Nat) : Prop :=
  ∀ index, index + 1 < config.calls failures →
    config.clampNext^[index] config.initialBackoff.seconds *
      config.backoffMultiplier <
        2 ^ 64 ∧
      config.clampNext^[index] config.initialBackoff.seconds =
        config.expectedDelay index

theorem followsSchedule_iff (hmult : 0 ≤ config.backoffMultiplier) :
    config.FollowsSchedule failures ↔
      config.retries failures = 0 ∨
        config.initialBackoff.seconds ≤ config.maxBackoff.seconds ∧
          config.expectedDelay (config.retries failures - 1) *
            config.backoffMultiplier <
            2 ^ 64 := by
  unfold FollowsSchedule retries
  constructor
  · intro h
    by_cases hnone : config.calls failures - 1 = 0
    · exact Or.inl hnone
    · have hfirst := (h 0 (by omega)).2
      have hlast := h (config.calls failures - 1 - 1) (by omega)
      refine Or.inr ⟨?_, ?_⟩
      · rw [Function.iterate_zero_apply, expectedDelay, pow_zero,
          mul_one] at hfirst
        rw [hfirst]
        exact min_le_left _ _
      · rw [← hlast.2]
        exact hlast.1
  · rintro (hnone | ⟨hbelow, hlast⟩) index hindex
    · omega
    · rw [iterate_clampNext hmult hbelow]
      exact ⟨clampedPower_mul_lt config.initialBackoff.nonneg hmult hbelow
        config.maxBackoff.lt_limit (by omega) hlast, rfl⟩

end RetryConfig

/-- One call of a retrying provider over a stream, with its log. -/
def loggedComplete (config : RetryConfig) (outcomes : Nat → Result LlmResponse)
    (messages : List LlmMessage) :
    Outcome (Result LlmResponse) × Tape × List RetryEvent :=
  (retried outcomes config).withLog.llmProvider.complete messages (Tape.start, [])

theorem onSchedule_iff_follows {config : RetryConfig}
    (hmult : 0 ≤ config.backoffMultiplier) (failures : Nat)
    (errors : Nat → CoreError) (response : LlmResponse)
    (messages : List LlmMessage) :
    config.OnSchedule failures
        (loggedComplete config (failingFor failures errors response) messages).1
        (loggedComplete config (failingFor failures errors response)
            messages).2.2 ↔
      config.FollowsSchedule failures := by
  have hstart : Tape.start.position + failures = failures := Nat.zero_add failures
  by_cases hfits : ∀ index, index + 1 < config.calls failures →
      config.clampNext^[index] config.initialBackoff.seconds *
        config.backoffMultiplier <
        2 ^ 64
  · obtain ⟨result, tape, events, hrun, -, hwaits⟩ :=
      waits_loopFrom errors response messages
      hmult hstart hfits none []
    have hcomplete : loggedComplete config (failingFor failures errors response)
        messages =
        (.returned result, tape, [] ++ events) := hrun
    rw [hcomplete, List.nil_append, RetryConfig.OnSchedule, hwaits]
    change _ ∧ delays config config.initialBackoff (config.calls failures) = _ ↔ _
    rw [RetryConfig.delays_eq_expected_iff]
    constructor
    · exact fun h index hindex => ⟨hfits index hindex, h.2 index hindex⟩
    · exact fun h => ⟨fun hpanicked => (nomatch hpanicked), fun index hindex =>
        (h index hindex).2⟩
  · constructor
    · intro h
      simp only [not_forall] at hfits
      obtain ⟨index, hindex, hunfit⟩ := hfits
      exact absurd (panicked_loopFrom errors response messages hmult hstart hindex
        (not_lt.mp hunfit) none []) h.1
    · exact fun h => absurd (fun index hindex => (h index hindex).1) hfits

/--
A call that fails some number of times is on schedule if and only if it is not
retried, or the first delay is within the cap and the product after the last
delay fits a duration.
-/
theorem onSchedule_iff {config : RetryConfig}
    (hmult : 0 ≤ config.backoffMultiplier) (failures : Nat)
    (errors : Nat → CoreError) (response : LlmResponse)
    (messages : List LlmMessage) :
    config.OnSchedule failures
        (loggedComplete config (failingFor failures errors response) messages).1
        (loggedComplete config (failingFor failures errors response)
            messages).2.2 ↔
      config.retries failures = 0 ∨
        config.initialBackoff.seconds ≤ config.maxBackoff.seconds ∧
          config.expectedDelay (config.retries failures - 1) *
            config.backoffMultiplier <
            2 ^ 64 :=
  (onSchedule_iff_follows hmult failures errors response messages).trans
    (RetryConfig.followsSchedule_iff hmult)

/-- The greeting that every sample stream ends with. -/
def greeting : LlmResponse := ⟨"hello", 1, 1⟩

theorem onSchedule_iff_default :
    RetryConfig.default.OnSchedule 2
        (loggedComplete .default
          (failingFor 2 (fun _ => .upstream "unavailable") greeting) []).1
        (loggedComplete .default
          (failingFor 2 (fun _ => .upstream "unavailable") greeting) []).2.2 ↔
      RetryConfig.default.retries 2 = 0 ∨
        RetryConfig.default.initialBackoff.seconds ≤
            RetryConfig.default.maxBackoff.seconds ∧
          RetryConfig.default.expectedDelay (RetryConfig.default.retries 2 - 1) *
              RetryConfig.default.backoffMultiplier <
            2 ^ 64 :=
  onSchedule_iff (by decide +kernel) 2 _ greeting []

/-- A first delay of ten seconds under a cap of one. -/
def slowStart : RetryConfig where
  maxAttempts := 2
  initialBackoff := ⟨10, by decide +kernel, by decide +kernel⟩
  backoffMultiplier := 2
  maxBackoff := ⟨1, by decide +kernel, by decide +kernel⟩

/-- A delay whose double does not fit a duration. -/
def hugeBackoff : RetryConfig where
  maxAttempts := 2
  initialBackoff := ⟨2 ^ 63, by decide +kernel, by decide +kernel⟩
  backoffMultiplier := 2
  maxBackoff := ⟨2 ^ 63, by decide +kernel, by decide +kernel⟩

theorem off_schedule :
    ¬ slowStart.OnSchedule 1
        (loggedComplete slowStart
          (failingFor 1 (fun _ => .upstream "unavailable") greeting) []).1
        (loggedComplete slowStart
          (failingFor 1 (fun _ => .upstream "unavailable") greeting) []).2.2 ∧
      waits (loggedComplete slowStart
        (failingFor 1 (fun _ => .upstream "unavailable") greeting) []).2.2 =
          [10, 0] ∧
      (loggedComplete hugeBackoff
        (failingFor 1 (fun _ => .upstream "unavailable") greeting) []).1 =
          .panicked := by
  refine ⟨?_, by decide +kernel, by decide +kernel⟩
  rw [onSchedule_iff_follows (by decide +kernel)]
  intro h
  exact absurd (h 0 (by decide)).2 (by decide +kernel)

end Milona.Adapter
