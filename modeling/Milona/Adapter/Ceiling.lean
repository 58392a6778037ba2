import Milona.Adapter.Concurrency

/-!
# The budget as a ceiling

The check and the record of a metered call are separate critical sections.  A
tenant with one call in flight at a time records only below its budget.  With
two calls in flight both may pass the check before either records, and the
second then records at or above the budget.
-/

namespace Milona.Adapter.Concurrency

open Milona.Core Milona.Foundation

variable (budgetFor : TenantId → TokenBudget)

def Phase.isResponded : Phase → Bool
  | .responded _ => true
  | _ => false

/-- A record of the tenant finds the counter below the budget. -/
def RecordsBelow (tenantId : TenantId) (s : State) : Event → Prop
  | .act index .record =>
      ∀ call ∈ s.calls[index]?, call.tenantId = tenantId →
        call.phase.isResponded = true →
          s.usage.used tenantId < (budgetFor tenantId).maxTokens
  | _ => True

instance (tenantId : TenantId) (s : State) (event : Event) :
    Decidable (RecordsBelow budgetFor tenantId s event) :=
  match event with
  | .act index .record =>
      inferInstanceAs (Decidable (∀ call ∈ s.calls[index]?, _ → _ → _))
  | .arrive _ | .act _ .check | .act _ (.respond _) => isTrue trivial

def InFlightAtMost (calls : Nat) (tenantId : TenantId) (events : List Event) :
    Prop :=
  EachStep (next budgetFor) (fun s event =>
    total Phase.inFlight tenantId (next budgetFor s event) ≤ calls)
    initial events

/-! ## One call at a time -/

/-- A call in flight is one that the budget still admits. -/
def Guarded (tenantId : TenantId) (s : State) : Prop :=
  total Phase.inFlight tenantId s ≤ 1 ∧
    (0 < total Phase.inFlight tenantId s →
      s.usage.used tenantId < (budgetFor tenantId).maxTokens)

private theorem inFlight_of_responded {tenantId : TenantId} {s : State}
    {index : Nat} {call : Call} (hcall : call ∈ s.calls[index]?)
    (htenant : call.tenantId = tenantId)
    (hresponded : call.phase.isResponded = true) :
    0 < total Phase.inFlight tenantId s := by
  obtain ⟨caller, phase⟩ := call
  subst htenant
  have hle := le_total Phase.inFlight (List.mem_of_getElem? hcall)
  cases phase with
  | responded response => exact hle
  | _ => cases hresponded

private theorem guarded_next {tenantId : TenantId} {s : State}
    (h : Guarded budgetFor tenantId s) {event : Event}
    (hnext : total Phase.inFlight tenantId (next budgetFor s event) ≤ 1) :
    Guarded budgetFor tenantId (next budgetFor s event) := by
  obtain ⟨hone, hbelow⟩ := h
  refine ⟨hnext, ?_⟩
  rcases next_total budgetFor tenantId s event with
    ⟨hused, htotal⟩ | ⟨before, phase, hmoves, -, -, htotal⟩
  · rw [hused, htotal _ rfl]
    exact hbelow
  · have hflight := htotal Phase.inFlight
    generalize (next budgetFor s event).usage = usage at hmoves ⊢
    intro hpositive
    cases hmoves with
    | reject error =>
        simp only [Phase.inFlight] at hflight
        exact hbelow (by omega)
    | pass below => exact below
    | fail error =>
        simp only [Phase.inFlight] at hflight
        omega
    | respond response =>
        simp only [Phase.inFlight] at hflight
        exact hbelow (by omega)
    | record response =>
        -- the recorded call was the only one in flight
        simp only [Phase.inFlight] at hflight
        omega

theorem recordsBelow_of_inFlight {tenantId : TenantId} {s : State}
    (h : 0 < total Phase.inFlight tenantId s →
      s.usage.used tenantId < (budgetFor tenantId).maxTokens) (event : Event) :
    RecordsBelow budgetFor tenantId s event := by
  cases event with
  | arrive newcomer => trivial
  | act index act =>
      cases act with
      | record =>
          intro call hcall htenant hresponded
          exact h (inFlight_of_responded hcall htenant hresponded)
      | _ => trivial

theorem recordsBelow_of_one {tenantId : TenantId} {events : List Event}
    (h : InFlightAtMost budgetFor 1 tenantId events) :
    EachStep (next budgetFor) (RecordsBelow budgetFor tenantId) initial
      events := by
  apply EachStep.of_invariant (Guarded budgetFor tenantId) _ _ _ h
  · exact fun s event hguarded _ =>
      recordsBelow_of_inFlight budgetFor hguarded.2 event
  · exact fun s event hguarded hnext => guarded_next budgetFor hguarded hnext
  · simp [Guarded, initial, total]

theorem recordsBelow_of_unused {tenantId : TenantId} {calls : Nat}
    {events : List Event} (hbudget : (budgetFor tenantId).maxTokens = 0)
    (h : InFlightAtMost budgetFor calls tenantId events) :
    EachStep (next budgetFor) (RecordsBelow budgetFor tenantId) initial
      events := by
  apply EachStep.of_invariant (Unused tenantId) _ _ _ h
  · intro s event hunused _
    apply recordsBelow_of_inFlight budgetFor
    intro hpositive
    have hidle := hunused.2
    omega
  · exact fun s event hunused _ => unused_next budgetFor hbudget hunused event
  · simp [Unused, initial, total]

/-! ## Two calls at a time -/

/-- Two calls that are both checked before either is recorded. -/
def twoCalls (tenantId : TenantId) (index : Nat) (response : LlmResponse) :
    List Event :=
  [.arrive tenantId, .arrive tenantId,
    .act index .check, .act (index + 1) .check,
    .act index (.respond (.ok response)),
    .act (index + 1) (.respond (.ok response)),
    .act index .record, .act (index + 1) .record]

variable {budgetFor}

theorem wholeCall_inFlight {tenantId : TenantId} {s : State}
    (hidle : total Phase.inFlight tenantId s = 0)
    (hbelow : s.usage.used tenantId < (budgetFor tenantId).maxTokens)
    (response : LlmResponse) :
    EachStep (next budgetFor) (fun s event =>
      total Phase.inFlight tenantId (next budgetFor s event) ≤ 2) s
      (wholeCall tenantId s.calls.length (.ok response)) := by
  have hcheck := Usage.check_eq_ok_iff.mpr hbelow
  simp only [total, Phase.inFlight] at hidle
  simp [wholeCall, next, Act.apply, hcheck, total, Phase.inFlight, hidle]

theorem twoCalls_inFlight {tenantId : TenantId} {s : State}
    (hidle : total Phase.inFlight tenantId s = 0)
    (hbelow : s.usage.used tenantId < (budgetFor tenantId).maxTokens)
    (response : LlmResponse) :
    EachStep (next budgetFor) (fun s event =>
      total Phase.inFlight tenantId (next budgetFor s event) ≤ 2) s
      (twoCalls tenantId s.calls.length response) := by
  have hcheck := Usage.check_eq_ok_iff.mpr hbelow
  simp only [total, Phase.inFlight] at hidle
  simp [twoCalls, next, Act.apply, hcheck, total, Phase.inFlight, hidle]

theorem not_recordsBelow_twoCalls {tenantId : TenantId} {s : State}
    {response : LlmResponse}
    (hbelow : s.usage.used tenantId < (budgetFor tenantId).maxTokens)
    (hfull : (budgetFor tenantId).maxTokens ≤
      s.usage.used tenantId + Usage.spent response) :
    ¬ EachStep (next budgetFor) (RecordsBelow budgetFor tenantId) s
      (twoCalls tenantId s.calls.length response) := by
  have hcheck := Usage.check_eq_ok_iff.mpr hbelow
  simp [twoCalls, next, Act.apply, hcheck, RecordsBelow, Usage.used_record,
    Phase.isResponded, hfull]

theorem total_inFlight_callsInTurn {tenantId : TenantId}
    {response : LlmResponse} {n : Nat}
    (h : ∀ k < n, k * (Usage.spent response).toNat <
      (budgetFor tenantId).maxTokens.toNat) :
    total Phase.inFlight tenantId
      (after budgetFor (callsInTurn tenantId response n)) = 0 := by
  simp [total, after_callsInTurn budgetFor h, Phase.inFlight]

theorem used_callsInTurn {tenantId : TenantId} {response : LlmResponse}
    {n : Nat} (h : ∀ k < n, k * (Usage.spent response).toNat <
      (budgetFor tenantId).maxTokens.toNat) :
    ((after budgetFor (callsInTurn tenantId response n)).usage.used
      tenantId).toNat = n * (Usage.spent response).toNat % 2 ^ 64 := by
  rw [accounted_after budgetFor tenantId (callsInTurn tenantId response n)]
  simp [total, after_callsInTurn budgetFor h, Phase.recordedTokens]

private theorem inFlightAtMost_callsInTurn {tenantId : TenantId}
    {response : LlmResponse} {n : Nat}
    (h : ∀ k < n, k * (Usage.spent response).toNat <
      (budgetFor tenantId).maxTokens.toNat) :
    InFlightAtMost budgetFor 2 tenantId
      (callsInTurn tenantId response n) := by
  induction n with
  | zero => trivial
  | succ n ih =>
      have hprefix : ∀ k < n, k * (Usage.spent response).toNat <
          (budgetFor tenantId).maxTokens.toNat := fun k hk => h k (by omega)
      have hidle := total_inFlight_callsInTurn hprefix
      have hbelow : (after budgetFor (callsInTurn tenantId response n)).usage.used
          tenantId < (budgetFor tenantId).maxTokens := by
        rw [UInt64.lt_iff_toNat_lt, used_callsInTurn hprefix]
        exact lt_of_le_of_lt (Nat.mod_le _ _) (h n (by omega))
      have hlength : (after budgetFor (callsInTurn tenantId response n)).calls.length
          = n := by
        simp [after_callsInTurn budgetFor hprefix]
      apply EachStep.append_iff.mpr
      refine ⟨ih hprefix, ?_⟩
      have hwhole := wholeCall_inFlight hidle hbelow response
      rwa [hlength] at hwhole

/-- Spend the budget up to its last token, then let two calls overlap. -/
theorem exists_record_at_ceiling {tenantId : TenantId}
    (hbudget : (budgetFor tenantId).maxTokens ≠ 0) :
    ∃ events, InFlightAtMost budgetFor 2 tenantId events ∧
      ¬ EachStep (next budgetFor) (RecordsBelow budgetFor tenantId) initial
        events := by
  let response : LlmResponse := ⟨"", 1, 0⟩
  have hspent : Usage.spent response = 1 := by decide
  let n := (budgetFor tenantId).maxTokens.toNat - 1
  have hpositive : (budgetFor tenantId).maxTokens.toNat ≠ 0 := fun hzero =>
    hbudget (UInt64.toNat_inj.mp hzero)
  have hsmall := (budgetFor tenantId).maxTokens.toNat_lt
  have hturn : ∀ k < n, k * (Usage.spent response).toNat <
      (budgetFor tenantId).maxTokens.toNat := by
    intro k hk
    rw [hspent]
    change k * 1 < _
    omega
  have hidle := total_inFlight_callsInTurn hturn
  have hsequence := inFlightAtMost_callsInTurn hturn
  have hlength : (after budgetFor (callsInTurn tenantId response n)).calls.length
      = n := by
    simp [after_callsInTurn budgetFor hturn]
  have hused : ((after budgetFor (callsInTurn tenantId response n)).usage.used
      tenantId).toNat = n := by
    rw [used_callsInTurn hturn, hspent]
    change n * 1 % _ = n
    rw [Nat.mul_one, Nat.mod_eq_of_lt (by omega)]
  have hbelow : (after budgetFor (callsInTurn tenantId response n)).usage.used
      tenantId < (budgetFor tenantId).maxTokens := by
    rw [UInt64.lt_iff_toNat_lt, hused]
    omega
  have hfull : (budgetFor tenantId).maxTokens ≤
      (after budgetFor (callsInTurn tenantId response n)).usage.used tenantId +
        Usage.spent response := by
    rw [hspent, UInt64.le_iff_toNat_le, UInt64.toNat_add, hused]
    change _ ≤ (n + 1) % 2 ^ 64
    rw [Nat.mod_eq_of_lt (by omega)]
    omega
  have hoverlap := twoCalls_inFlight hidle hbelow response
  have hviolates := not_recordsBelow_twoCalls hbelow hfull
  rw [hlength] at hoverlap hviolates
  refine ⟨callsInTurn tenantId response n ++ twoCalls tenantId n response,
    EachStep.append_iff.mpr ⟨hsequence, hoverlap⟩, fun h => ?_⟩
  exact hviolates (EachStep.append_iff.mp h).2

/--
For each number of calls in flight: every run within it records below the
budget only, if and only if that number is at most one or the budget is zero.
-/
theorem records_below_budget_iff (budgetFor : TenantId → TokenBudget)
    (tenantId : TenantId) (calls : Nat) :
    (∀ events, InFlightAtMost budgetFor calls tenantId events →
      EachStep (next budgetFor) (RecordsBelow budgetFor tenantId) initial
        events) ↔
      calls ≤ 1 ∨ (budgetFor tenantId).maxTokens = 0 := by
  constructor
  · intro h
    by_contra hcontra
    obtain ⟨hcalls, hbudget⟩ := not_or.mp hcontra
    obtain ⟨events, htwo, hviolates⟩ := exists_record_at_ceiling hbudget
    apply hviolates
    apply h
    exact htwo.mono fun s event hle => by omega
  · rintro (hcalls | hbudget) events h
    · apply recordsBelow_of_one
      exact h.mono fun s event hle => hle.trans hcalls
    · exact recordsBelow_of_unused budgetFor hbudget h

theorem overlappingRun_records_above :
    (after (fun _ => ⟨1⟩) (overlappingRun.take 7)).usage.used caller = 5 ∧
      ¬ EachStep (next fun _ => ⟨1⟩) (RecordsBelow (fun _ => ⟨1⟩) caller)
        initial overlappingRun := by
  decide

end Milona.Adapter.Concurrency
