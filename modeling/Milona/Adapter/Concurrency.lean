import Milona.Adapter.Budget
import Milona.Foundation.Runs
import Milona.Foundation.Tally

/-!
# Concurrent metered calls

A metered call takes three atomic steps: it checks the counter under the lock,
the inner provider answers with the lock free, and a success is recorded under
the lock.  The state is the counters and the phase of every call that has
arrived; a run interleaves the steps of any number of calls in any order, and
an event that its call is not ready for changes nothing.

The invariants are kept by tallies over the calls of one tenant.
-/

namespace Milona.Adapter.Concurrency

open Milona.Core Milona.Foundation

inductive Phase where
  | waiting
  | admitted
  | responded (response : LlmResponse)
  | recorded (response : LlmResponse)
  | rejected (error : BudgetError)
  | failed (error : CoreError)
  deriving DecidableEq, Repr

structure Call where
  tenantId : TenantId
  phase : Phase
  deriving DecidableEq, Repr

inductive Act where
  | check
  | respond (outcome : Result LlmResponse)
  | record

structure State where
  usage : Usage
  calls : List Call

def initial : State := ⟨∅, []⟩

/-- A new call arrives, or the call with an index takes a step. -/
inductive Event where
  | arrive (tenantId : TenantId)
  | act (index : Nat) (act : Act)

/-- The counters and the phase after a step that the call is ready for. -/
def Act.apply (budget : TokenBudget) (usage : Usage) (call : Call) :
    Act → Option (Usage × Phase)
  | .check =>
      match call.phase with
      | .waiting =>
          match usage.check budget call.tenantId with
          | .error e => some (usage, .rejected e)
          | .ok () => some (usage, .admitted)
      | _ => none
  | .respond outcome =>
      match call.phase with
      | .admitted =>
          match outcome with
          | .ok response => some (usage, .responded response)
          | .error e => some (usage, .failed e)
      | _ => none
  | .record =>
      match call.phase with
      | .responded response =>
          some (usage.record call.tenantId response, .recorded response)
      | _ => none

variable (budgetFor : TenantId → TokenBudget)

def next (s : State) : Event → State
  | .arrive tenantId => { s with calls := s.calls ++ [⟨tenantId, .waiting⟩] }
  | .act index act =>
      match s.calls[index]? with
      | none => s
      | some call =>
          match act.apply (budgetFor call.tenantId) s.usage call with
          | none => s
          | some (usage, phase) =>
              ⟨usage, s.calls.set index { call with phase := phase }⟩

def after (events : List Event) : State := events.foldl (next budgetFor) initial

/-! ## What one step does -/

inductive Moves (budget : TokenBudget) (tenantId : TenantId) (usage : Usage) :
    Phase → Usage → Phase → Prop where
  | reject (error : BudgetError) :
      Moves budget tenantId usage .waiting usage (.rejected error)
  | pass (below : usage.used tenantId < budget.maxTokens) :
      Moves budget tenantId usage .waiting usage .admitted
  | fail (error : CoreError) :
      Moves budget tenantId usage .admitted usage (.failed error)
  | respond (response : LlmResponse) :
      Moves budget tenantId usage .admitted usage (.responded response)
  | record (response : LlmResponse) :
      Moves budget tenantId usage (.responded response)
        (usage.record tenantId response) (.recorded response)

theorem Moves.used_of_ne {budget : TokenBudget} {tenantId other : TenantId}
    {usage usage' : Usage} {before phase : Phase}
    (h : Moves budget tenantId usage before usage' phase)
    (hother : other ≠ tenantId) : usage'.used other = usage.used other := by
  cases h with
  | record response => rw [Usage.used_record, if_neg hother]
  | _ => rfl

theorem Act.moves {budget : TokenBudget} {usage usage' : Usage} {call : Call}
    {act : Act} {phase : Phase}
    (h : act.apply budget usage call = some (usage', phase)) :
    Moves budget call.tenantId usage call.phase usage' phase := by
  obtain ⟨tenantId, before⟩ := call
  cases act with
  | check =>
      cases before with
      | waiting =>
          simp only [Act.apply] at h
          cases hcheck : usage.check budget tenantId with
          | error e =>
              rw [hcheck] at h
              cases h
              exact .reject e
          | ok _ =>
              rw [hcheck] at h
              cases h
              exact .pass (Usage.check_eq_ok_iff.mp hcheck)
      | _ => cases h
  | respond outcome =>
      cases before with
      | admitted =>
          cases outcome with
          | ok response =>
              cases h
              exact .respond response
          | error e =>
              cases h
              exact .fail e
      | _ => cases h
  | record =>
      cases before with
      | responded response =>
          cases h
          exact .record response
      | _ => cases h

theorem next_cases (s : State) (event : Event) :
    next budgetFor s event = s ∨
    (∃ tenantId, event = .arrive tenantId ∧
      next budgetFor s event =
        { s with calls := s.calls ++ [⟨tenantId, .waiting⟩] }) ∨
    ∃ index act call usage phase, event = .act index act ∧
      s.calls[index]? = some call ∧
      Moves (budgetFor call.tenantId) call.tenantId s.usage call.phase usage
        phase ∧
      next budgetFor s event =
        ⟨usage, s.calls.set index { call with phase := phase }⟩ := by
  cases event with
  | arrive tenantId => exact .inr (.inl ⟨tenantId, rfl, rfl⟩)
  | act index act =>
      cases hcall : s.calls[index]? with
      | none =>
          left
          simp [next, hcall]
      | some call =>
          cases happly : act.apply (budgetFor call.tenantId) s.usage call with
          | none =>
              left
              simp [next, hcall, happly]
          | some moved =>
              right
              right
              refine ⟨index, act, call, moved.1, moved.2, rfl, hcall,
                Act.moves happly, ?_⟩
              simp [next, hcall, happly]

/-! ## Tallies over the calls of a tenant -/

def Phase.recordedTokens : Phase → Nat
  | .recorded response => (Usage.spent response).toNat
  | _ => 0

def Phase.inFlight : Phase → Nat
  | .admitted | .responded _ => 1
  | _ => 0

def Phase.pendingTokens : Phase → Nat
  | .responded response => (Usage.spent response).toNat
  | _ => 0

theorem Phase.pendingTokens_le (phase : Phase) :
    phase.pendingTokens ≤ 2 ^ 33 - 2 := by
  cases phase with
  | responded response => exact Usage.toNat_spent_le response
  | _ => simp [Phase.pendingTokens]

/-- The tokens that a call in flight may still add, `limit` before it responds. -/
def Phase.reserved (limit : Nat) : Phase → Nat
  | .admitted => limit
  | .responded response => (Usage.spent response).toNat
  | _ => 0

def total (weight : Phase → Nat) (tenantId : TenantId) (s : State) : Nat :=
  tally (fun call => if call.tenantId = tenantId then weight call.phase else 0)
    s.calls

theorem total_arrive {weight : Phase → Nat} (hweight : weight .waiting = 0)
    (tenantId : TenantId) (s : State) (newcomer : TenantId) :
    total weight tenantId { s with calls := s.calls ++ [⟨newcomer, .waiting⟩] } =
      total weight tenantId s := by
  simp [total, hweight]

private theorem total_set (weight : Phase → Nat) (tenantId : TenantId)
    {s : State} {index : Nat} {call : Call} (h : s.calls[index]? = some call)
    (usage : Usage) (phase : Phase) :
    total weight tenantId
        ⟨usage, s.calls.set index { call with phase := phase }⟩ +
        (if call.tenantId = tenantId then weight call.phase else 0) =
      total weight tenantId s +
        if call.tenantId = tenantId then weight phase else 0 :=
  tally_set _ h _

theorem le_total (weight : Phase → Nat) {tenantId : TenantId} {s : State}
    {phase : Phase} (h : (⟨tenantId, phase⟩ : Call) ∈ s.calls) :
    weight phase ≤ total weight tenantId s := by
  obtain ⟨index, hindex⟩ := List.mem_iff_getElem?.mp h
  have hle := le_tally (fun call : Call =>
    if call.tenantId = tenantId then weight call.phase else 0) hindex
  simp only [if_pos] at hle
  exact hle

/--
One step as a tenant sees it: its counter and its tallies stay as they are, or
one of its calls moves.
-/
theorem next_total (tenantId : TenantId) (s : State) (event : Event) :
    ((next budgetFor s event).usage.used tenantId = s.usage.used tenantId ∧
      ∀ weight : Phase → Nat, weight .waiting = 0 →
        total weight tenantId (next budgetFor s event) =
          total weight tenantId s) ∨
    ∃ before phase,
      Moves (budgetFor tenantId) tenantId s.usage before
        (next budgetFor s event).usage phase ∧
      (⟨tenantId, before⟩ : Call) ∈ s.calls ∧
      (⟨tenantId, phase⟩ : Call) ∈ (next budgetFor s event).calls ∧
      ∀ weight : Phase → Nat,
        total weight tenantId (next budgetFor s event) + weight before =
          total weight tenantId s + weight phase := by
  rcases next_cases budgetFor s event with
    hsame | ⟨newcomer, -, hnext⟩ | ⟨index, act, call, usage, phase, -, hcall,
      hmoves, hnext⟩
  · left
    rw [hsame]
    exact ⟨rfl, fun _ _ => rfl⟩
  · left
    rw [hnext]
    exact ⟨rfl, fun weight hweight => total_arrive hweight tenantId s newcomer⟩
  · rw [hnext]
    by_cases htenant : call.tenantId = tenantId
    · right
      subst htenant
      refine ⟨call.phase, phase, hmoves, List.mem_of_getElem? hcall, ?_, ?_⟩
      · apply List.mem_of_getElem? (i := index)
        rw [List.getElem?_set_self (List.getElem?_eq_some_iff.mp hcall).1]
      · intro weight
        simpa only [if_pos] using
          total_set weight call.tenantId hcall usage phase
    · left
      constructor
      · exact hmoves.used_of_ne fun h => htenant h.symm
      · intro weight _
        have hset := total_set weight tenantId hcall usage phase
        simpa only [if_neg htenant, Nat.add_zero] using hset

/-! ## Accounting -/

/-- The counter of a tenant is the sum of its recorded responses, wrapped. -/
def Accounted (tenantId : TenantId) (s : State) : Prop :=
  (s.usage.used tenantId).toNat =
    total Phase.recordedTokens tenantId s % 2 ^ 64

theorem accounted_next (tenantId : TenantId) {s : State}
    (h : Accounted tenantId s) (event : Event) :
    Accounted tenantId (next budgetFor s event) := by
  unfold Accounted at h ⊢
  rcases next_total budgetFor tenantId s event with
    ⟨hused, htotal⟩ | ⟨before, phase, hmoves, -, -, htotal⟩
  · rw [hused, htotal _ rfl, h]
  · have hrecorded := htotal Phase.recordedTokens
    generalize (next budgetFor s event).usage = usage at hmoves ⊢
    cases hmoves with
    | record response =>
        simp only [Phase.recordedTokens, Nat.add_zero] at hrecorded
        rw [Usage.used_record, if_pos rfl, UInt64.toNat_add, h, hrecorded,
          Nat.mod_add_mod]
    | _ =>
        simp only [Phase.recordedTokens, Nat.add_zero] at hrecorded
        rw [hrecorded, h]

theorem accounted_after (tenantId : TenantId) (events : List Event) :
    Accounted tenantId (after budgetFor events) := by
  apply List.foldlRecOn events (next budgetFor)
  · simp [Accounted, initial, total]
  · exact fun s h event _ => accounted_next budgetFor tenantId h event

/-- The calls of a tenant in flight, and the tokens of their responses. -/
structure Limits (tenantId : TenantId) (calls spend : Nat) (s : State) :
    Prop where
  inFlight : total Phase.inFlight tenantId s ≤ calls
  spent : ∀ call ∈ s.calls, call.tenantId = tenantId →
    call.phase.pendingTokens ≤ spend

instance (tenantId : TenantId) (calls spend : Nat) (s : State) :
    Decidable (Limits tenantId calls spend s) :=
  decidable_of_iff
    (total Phase.inFlight tenantId s ≤ calls ∧
      ∀ call ∈ s.calls, call.tenantId = tenantId →
        call.phase.pendingTokens ≤ spend)
    ⟨fun h => ⟨h.1, h.2⟩, fun h => ⟨h.1, h.2⟩⟩

theorem Limits.reserved {tenantId : TenantId} {calls spend : Nat} {s : State}
    (h : Limits tenantId calls spend s) :
    total (Phase.reserved spend) tenantId s ≤ calls * spend := by
  refine le_trans (tally_le_mul fun call hcall => ?_)
    (Nat.mul_le_mul_right spend h.inFlight)
  obtain ⟨caller, phase⟩ := call
  by_cases hcaller : caller = tenantId
  · subst hcaller
    cases phase with
    | responded response =>
        have hspent := h.spent _ hcall rfl
        simpa [Phase.reserved, Phase.inFlight, Phase.pendingTokens] using hspent
    | _ => simp [Phase.reserved, Phase.inFlight]
  · simp [hcaller]

/--
What is recorded and what is reserved stay within the last token below the
budget and one full response for each call in flight.
-/
def Covered (tenantId : TenantId) (calls spend : Nat) (s : State) : Prop :=
  total Phase.recordedTokens tenantId s +
      total (Phase.reserved spend) tenantId s ≤
    ((budgetFor tenantId).maxTokens.toNat - 1) + calls * spend

private theorem covered_next {tenantId : TenantId} {calls spend : Nat}
    {s : State}
    (hbound : ((budgetFor tenantId).maxTokens.toNat - 1) + calls * spend <
      2 ^ 64) (haccounted : Accounted tenantId s)
    (h : Covered budgetFor tenantId calls spend s) {event : Event}
    (hlimits : Limits tenantId calls spend (next budgetFor s event)) :
    Covered budgetFor tenantId calls spend (next budgetFor s event) := by
  have hreserved := hlimits.reserved
  have hspent := hlimits.spent
  unfold Covered at h ⊢
  unfold Accounted at haccounted
  rcases next_total budgetFor tenantId s event with
    ⟨-, htotal⟩ | ⟨before, phase, hmoves, -, hphase, htotal⟩
  · rw [htotal _ rfl, htotal _ rfl]
    exact h
  · have hrecorded := htotal Phase.recordedTokens
    have hheld := htotal (Phase.reserved spend)
    generalize (next budgetFor s event).usage = usage at hmoves
    cases hmoves with
    | reject error =>
        simp only [Phase.recordedTokens, Phase.reserved] at hrecorded hheld
        omega
    | pass below =>
        -- the check read the exact sum, since the sum has not wrapped
        have hbelow := UInt64.lt_iff_toNat_lt.mp below
        rw [haccounted, Nat.mod_eq_of_lt (by omega)] at hbelow
        simp only [Phase.recordedTokens] at hrecorded
        omega
    | fail error =>
        simp only [Phase.recordedTokens, Phase.reserved] at hrecorded hheld
        omega
    | respond response =>
        have hresponse := hspent _ hphase rfl
        simp only [Phase.pendingTokens] at hresponse
        simp only [Phase.recordedTokens, Phase.reserved] at hrecorded hheld
        omega
    | record response =>
        simp only [Phase.recordedTokens, Phase.reserved] at hrecorded hheld
        omega

def Limited (tenantId : TenantId) (calls spend : Nat) (events : List Event) :
    Prop :=
  EachStep (next budgetFor)
    (fun s event => Limits tenantId calls spend (next budgetFor s event))
    initial events

theorem covered_after {tenantId : TenantId} {calls spend : Nat}
    {events : List Event}
    (hbound : ((budgetFor tenantId).maxTokens.toNat - 1) + calls * spend <
      2 ^ 64) (h : Limited budgetFor tenantId calls spend events) :
    Covered budgetFor tenantId calls spend (after budgetFor events) := by
  have hrun : Accounted tenantId (after budgetFor events) ∧
      Covered budgetFor tenantId calls spend (after budgetFor events) := by
    apply EachStep.foldl_invariant (fun s => Accounted tenantId s ∧
      Covered budgetFor tenantId calls spend s) _ _ h
    · intro s event hs hlimits
      exact ⟨accounted_next budgetFor tenantId hs.1 event,
        covered_next budgetFor hbound hs.1 hs.2 hlimits⟩
    · exact ⟨accounted_after budgetFor tenantId [],
        by simp [Covered, initial, total]⟩
  exact hrun.2

def Unused (tenantId : TenantId) (s : State) : Prop :=
  s.usage.used tenantId = 0 ∧ total Phase.inFlight tenantId s = 0

theorem unused_next {tenantId : TenantId}
    (hbudget : (budgetFor tenantId).maxTokens = 0) {s : State}
    (h : Unused tenantId s) (event : Event) :
    Unused tenantId (next budgetFor s event) := by
  obtain ⟨hused, hidle⟩ := h
  unfold Unused
  rcases next_total budgetFor tenantId s event with
    ⟨hused', htotal⟩ | ⟨before, phase, hmoves, hbefore, -, htotal⟩
  · rw [hused', htotal _ rfl]
    exact ⟨hused, hidle⟩
  · have hle := le_total Phase.inFlight hbefore
    have hflight := htotal Phase.inFlight
    generalize (next budgetFor s event).usage = usage at hmoves ⊢
    cases hmoves with
    | reject error =>
        simp only [Phase.inFlight] at hflight
        exact ⟨hused, by omega⟩
    | pass below =>
        rw [hbudget] at below
        exact absurd below UInt64.not_lt_zero
    | _ =>
        simp only [Phase.inFlight] at hle
        omega

theorem unused_after {tenantId : TenantId}
    (hbudget : (budgetFor tenantId).maxTokens = 0) (events : List Event) :
    Unused tenantId (after budgetFor events) := by
  apply List.foldlRecOn events (next budgetFor)
  · simp [Unused, initial, total]
  · exact fun s h event _ => unused_next budgetFor hbudget h event

def Event.caller (s : State) : Event → Option TenantId
  | .arrive tenantId => some tenantId
  | .act index _ => s.calls[index]?.map Call.tenantId

theorem used_next_of_other {tenantId : TenantId} {s : State} {event : Event}
    (h : event.caller s ≠ some tenantId) :
    (next budgetFor s event).usage.used tenantId = s.usage.used tenantId := by
  rcases next_cases budgetFor s event with
    hsame | ⟨newcomer, -, hnext⟩ | ⟨index, act, call, usage, phase, rfl, hcall,
      hmoves, hnext⟩
  · rw [hsame]
  · rw [hnext]
  · rw [hnext]
    apply hmoves.used_of_ne
    rintro rfl
    exact h (by rw [Event.caller, hcall, Option.map_some])

/-! ## Calls one after another -/

def wholeCall (tenantId : TenantId) (index : Nat)
    (outcome : Result LlmResponse) : List Event :=
  [.arrive tenantId, .act index .check, .act index (.respond outcome),
    .act index .record]

theorem wholeCall_apply (tenantId : TenantId) (s : State)
    (outcome : Result LlmResponse) :
    (wholeCall tenantId s.calls.length outcome).foldl (next budgetFor) s =
      match s.usage.check (budgetFor tenantId) tenantId with
      | .error e => ⟨s.usage, s.calls ++ [⟨tenantId, .rejected e⟩]⟩
      | .ok () =>
          match outcome with
          | .error e => ⟨s.usage, s.calls ++ [⟨tenantId, .failed e⟩]⟩
          | .ok response =>
              ⟨s.usage.record tenantId response,
                s.calls ++ [⟨tenantId, .recorded response⟩]⟩ := by
  cases hcheck : s.usage.check (budgetFor tenantId) tenantId with
  | error e => simp [wholeCall, next, Act.apply, hcheck]
  | ok _ =>
      cases outcome with
      | error e => simp [wholeCall, next, Act.apply, hcheck]
      | ok response => simp [wholeCall, next, Act.apply, hcheck]

def callsInTurn (tenantId : TenantId) (response : LlmResponse) :
    Nat → List Event
  | 0 => []
  | n + 1 => callsInTurn tenantId response n ++
      wholeCall tenantId n (.ok response)

theorem after_callsInTurn {tenantId : TenantId} {response : LlmResponse}
    {n : Nat} (h : ∀ k < n, k * (Usage.spent response).toNat <
      (budgetFor tenantId).maxTokens.toNat) :
    (after budgetFor (callsInTurn tenantId response n)).calls =
      List.replicate n ⟨tenantId, .recorded response⟩ := by
  induction n with
  | zero => rfl
  | succ n ih =>
      have hcalls := ih fun k hk => h k (by omega)
      have haccounted := accounted_after budgetFor tenantId
        (callsInTurn tenantId response n)
      rw [callsInTurn, after, List.foldl_append]
      change (List.foldl _ (after budgetFor _) _).calls = _
      generalize after budgetFor (callsInTurn tenantId response n) = s at *
      have hbelow : s.usage.used tenantId <
          (budgetFor tenantId).maxTokens := by
        rw [UInt64.lt_iff_toNat_lt]
        refine lt_of_le_of_lt ?_ (h n (by omega))
        rw [haccounted]
        simp [total, hcalls, Phase.recordedTokens, Nat.mod_le]
      have hlength : s.calls.length = n := by simp [hcalls]
      have hwhole := wholeCall_apply budgetFor tenantId s (.ok response)
      rw [hlength, Usage.check_eq_ok_iff.mpr hbelow] at hwhole
      rw [hwhole, hcalls, List.replicate_succ']

theorem callsInTurn_wraps {tenantId : TenantId} {response : LlmResponse}
    {n : Nat} (h : ∀ k < n, k * (Usage.spent response).toNat <
      (budgetFor tenantId).maxTokens.toNat)
    (hfull : 2 ^ 64 ≤ n * (Usage.spent response).toNat) :
    let s := after budgetFor (callsInTurn tenantId response n)
    (s.usage.used tenantId).toNat ≠
      total Phase.recordedTokens tenantId s := by
  intro s
  have hcalls : s.calls = List.replicate n ⟨tenantId, .recorded response⟩ :=
    after_callsInTurn budgetFor h
  have htotal : total Phase.recordedTokens tenantId s =
      n * (Usage.spent response).toNat := by
    rw [total, hcalls, tally_replicate, if_pos rfl, Phase.recordedTokens]
  have hused := (s.usage.used tenantId).toNat_lt
  omega

def Phase.result : Phase → Option (Except BudgetError LlmResponse)
  | .recorded response => some (.ok response)
  | .rejected error => some (.error error)
  | .failed error => some (.error (.core error))
  | .waiting | .admitted | .responded _ => none

/-- A call that is not interrupted is the metered method. -/
theorem wholeCall_completeForTenant {σ : Type}
    (provider : BudgetedLlmProvider σ) (tenantId : TenantId)
    (messages : List LlmMessage) (s : State) (rest : σ)
    {outcome : Result LlmResponse}
    (h : (provider.inner.complete messages rest).1 = .returned outcome) :
    ∃ usage phase result rest',
      (wholeCall tenantId s.calls.length outcome).foldl
          (next provider.budgetFor) s =
        ⟨usage, s.calls ++ [⟨tenantId, phase⟩]⟩ ∧
      phase.result = some result ∧
      provider.completeForTenant tenantId messages (⟨s.usage, false⟩, rest) =
        (.returned result, (⟨usage, false⟩, rest')) := by
  rw [wholeCall_apply, provider.completeForTenant_apply]
  cases s.usage.check (provider.budgetFor tenantId) tenantId with
  | error e => exact ⟨_, _, _, _, rfl, rfl, rfl⟩
  | ok _ =>
      obtain ⟨rest', hinner⟩ := Action.exists_of_outcome h
      rw [hinner]
      cases outcome with
      | error e => exact ⟨_, _, _, _, rfl, rfl, rfl⟩
      | ok response => exact ⟨_, _, _, _, rfl, rfl, rfl⟩

/-! ## The counters in every reachable state -/

/--
In every state of every run a tenant's counter is the wrapped sum of its
recorded responses, and no other tenant's call changes it.  The calls in flight
bound it, and with room for their responses the sum does not wrap.
-/
theorem usage_accounting (tenantId : TenantId) (events : List Event) :
    let s := after budgetFor events
    let budget := (budgetFor tenantId).maxTokens.toNat
    (s.usage.used tenantId).toNat =
        total Phase.recordedTokens tenantId s % 2 ^ 64 ∧
      (∀ event : Event, event.caller s ≠ some tenantId →
        (next budgetFor s event).usage.used tenantId =
          s.usage.used tenantId) ∧
      (budget = 0 → s.usage.used tenantId = 0) ∧
      (∀ calls spend, Limited budgetFor tenantId calls spend events →
        (s.usage.used tenantId).toNat ≤ (budget - 1) + calls * spend) ∧
      ∀ calls,
        EachStep (next budgetFor) (fun s event =>
          total Phase.inFlight tenantId (next budgetFor s event) ≤ calls)
          initial events →
        budget + calls * (2 ^ 33 - 2) ≤ 2 ^ 64 →
        (s.usage.used tenantId).toNat =
            total Phase.recordedTokens tenantId s ∧
          ∀ response, (⟨tenantId, .responded response⟩ : Call) ∈ s.calls →
            (s.usage.used tenantId).toNat + (Usage.spent response).toNat <
              2 ^ 64 := by
  intro s budget
  have haccounted : Accounted tenantId s :=
    accounted_after budgetFor tenantId events
  refine ⟨haccounted, fun event hother =>
    used_next_of_other budgetFor hother, ?_, ?_, ?_⟩
  · intro hbudget
    exact (unused_after budgetFor (UInt64.toNat_inj.mp hbudget) events).1
  · intro calls spend hlimited
    by_cases hbound : (budget - 1) + calls * spend < 2 ^ 64
    · have hcovered : Covered budgetFor tenantId calls spend s :=
        covered_after budgetFor hbound hlimited
      unfold Covered at hcovered
      unfold Accounted at haccounted
      have hmod := Nat.mod_le (total Phase.recordedTokens tenantId s) (2 ^ 64)
      omega
    · have hused := (s.usage.used tenantId).toNat_lt
      omega
  · intro calls hinFlight hroom
    have hlimited : Limited budgetFor tenantId calls (2 ^ 33 - 2) events :=
      hinFlight.mono fun s event h =>
        ⟨h, fun call _ _ => call.phase.pendingTokens_le⟩
    have hbound : (budget - 1) + calls * (2 ^ 33 - 2) < 2 ^ 64 := by omega
    have hcovered : Covered budgetFor tenantId calls (2 ^ 33 - 2) s :=
      covered_after budgetFor hbound hlimited
    unfold Covered at hcovered
    unfold Accounted at haccounted
    rw [Nat.mod_eq_of_lt (by omega)] at haccounted
    refine ⟨haccounted, fun response hresponse => ?_⟩
    have hreserved := le_total (Phase.reserved (2 ^ 33 - 2)) hresponse
    simp only [Phase.reserved] at hreserved
    omega

def caller : TenantId := ⟨⟨1⟩⟩

def overlappingRun : List Event :=
  let response : LlmResponse := ⟨"canned answer", 3, 2⟩
  [.arrive caller, .arrive caller, .act 0 .check, .act 1 .check,
    .act 0 (.respond (.ok response)), .act 1 (.respond (.ok response)),
    .act 0 .record, .act 1 .record]

theorem usage_accounting_overlappingRun :
    ((after (fun _ => ⟨1⟩) overlappingRun).usage.used caller).toNat ≤
      (1 - 1) + 2 * 5 := by
  obtain ⟨-, -, -, hceiling, -⟩ :=
    usage_accounting (fun _ => ⟨1⟩) caller overlappingRun
  apply hceiling 2 5
  unfold Limited
  decide

def largestRun : List Event :=
  callsInTurn caller ⟨"", 4294967295, 4294967295⟩ (2 ^ 31 + 1)

theorem largestRun_wraps :
    let s := after (fun _ => ⟨18446744073709551615⟩) largestRun
    (s.usage.used caller).toNat ≠ total Phase.recordedTokens caller s := by
  have hspent : (Usage.spent ⟨"", 4294967295, 4294967295⟩).toNat =
      2 ^ 33 - 2 := by decide
  apply callsInTurn_wraps
  · intro k hk
    rw [hspent]
    change k * (2 ^ 33 - 2) < 18446744073709551615
    omega
  · rw [hspent]
    omega

end Milona.Adapter.Concurrency
