import Milona.Foundation.Quota
import Milona.Presenter.Metering
import Milona.Presenter.Router

/-!
# The rate of a tenant

Requests that arrive at one instant are a list of checks, each with a key and a
number, and the limiter is a gate.  The gate has a quota for each key, that is,
for each subject of a tenant.
-/

namespace Milona.Presenter

open Milona.Core Milona.Foundation Milona.Retrieval

variable {σ : Type}

namespace KeyedLimiter

/-- How many checks of a key are granted at one instant. -/
def grants (limiter : KeyedLimiter) (key : String) (time : Instant)
    (times : List Instant) : Nat :=
  (List.range times.length).countP fun i =>
    times[i]?.any (fun t => t = time) && limiter.admits key (times.take i) time

def KeepsQuota (limiter : KeyedLimiter) (quota : Nat) : Prop :=
  ∀ key time times, limiter.grants key time times ≤ quota

/-- The checks at one instant, after earlier ones. -/
def gateAt (limiter : KeyedLimiter) (checks : Checks) (time : Instant) :
    Gate String := fun key i =>
  limiter.admits key (checks.timesOf key ++ List.replicate i time) time

theorem KeepsQuota.keeps_gateAt {limiter : KeyedLimiter} {quota : Nat}
    (h : limiter.KeepsQuota quota) (checks : Checks) (time : Instant) :
    (limiter.gateAt checks time).Keeps quota := by
  intro key m
  have hall := h key time (checks.timesOf key ++ List.replicate m time)
  rw [grants, List.length_append, List.length_replicate, List.range_add,
    List.countP_append, List.countP_map] at hall
  refine le_trans (List.countP_mono_left fun i hi hgranted => ?_)
    ((Nat.le_add_left _ _).trans hall)
  have him : i < m := List.mem_range.mp hi
  simpa [gateAt, him, List.take_length_add_append, Nat.min_eq_left him.le]
    using hgranted

/-- A limiter that opens a given gate after the checks so far. -/
def opening (gate : Gate String) (checks : Checks) : KeyedLimiter where
  admits key times _ := decide ((checks.timesOf key).length ≤ times.length) &&
    gate key (times.length - (checks.timesOf key).length)

theorem gateAt_opening (gate : Gate String) (checks : Checks) (time : Instant) :
    (opening gate checks).gateAt checks time = gate := by
  funext key i
  simp [opening, gateAt]

theorem keepsQuota_opening {gate : Gate String} {quota : Nat}
    (h : gate.Keeps quota) (checks : Checks) :
    (opening gate checks).KeepsQuota quota := by
  intro key time times
  have hshift := Gate.countP_range_shift (gate key)
    (checks.timesOf key).length times.length
  refine le_trans (List.countP_mono_left fun i hi hgranted => ?_)
    (hshift.trans_le (h key _))
  have hlength : (times.take i).length = i := by
    rw [List.length_take, Nat.min_eq_left (List.mem_range.mp hi).le]
  simpa [opening, hlength] using (Bool.and_eq_true_iff.mp hgranted).2

end KeyedLimiter

def keyOf (ctx : TenantContext) : String := limiterKey ctx.tenantId ctx.subject

/-- The caller whose quota a request uses, and whether it is a question. -/
def checkOf (framework : Framework) (directory : ApiKeyDirectory)
    (request : Request) : Option (TenantContext × Bool) :=
  if guards framework request then
    match authenticate directory request with
    | .ok ctx => some (ctx, decide (routeOf request = .query))
    | .error _ => none
  else none

/-- The log of the requests that the query handler has seen after a run. -/
def reached (framework : Framework) (service : Service) (handler : Handler σ)
    (requests : List Request) (world : Checks × σ × List Request) :
    List Request :=
  let router := routerWith framework service (tracedQuery handler)
  (requests.foldl (fun world request => (router request world).2) world).2.2

def countOf (tenantId : TenantId) (requests : List Request) : Nat :=
  requests.countP fun request =>
    request.extension.any fun ctx => ctx.tenantId = tenantId

section Step

variable (framework : Framework) (service : Service) (handler : Handler σ)
variable (request : Request) (checks : Checks) (s : σ) (log : List Request)

theorem traced_of_unchecked
    (h : checkOf framework service.apiKeys request = none) :
    ∃ s', (routerWith framework service (tracedQuery handler) request
      (checks, (s, log))).2 = (checks, (s', log)) := by
  cases treatment framework service request with
  | unguarded hguards =>
      have hroute : routeOf request ≠ .query := by
        intro hroute
        rw [guards, hroute] at hguards
        cases hguards
      rw [routerWith_of_unguarded service _ hguards]
      refine ⟨(endpoint framework handler request s).2, ?_⟩
      simp [endpoint_traced, hroute]
  | refused reason hguards hcaller =>
      rw [routerWith_of_error framework _ hguards hcaller]
      exact ⟨s, rfl⟩
  | checked ctx hguards hcaller =>
      rw [checkOf, if_pos hguards, hcaller] at h
      cases h

theorem traced_of_checked {ctx : TenantContext} {isQuestion : Bool}
    (h : checkOf framework service.apiKeys request = some (ctx, isQuestion)) :
    ∃ s', (routerWith framework service (tracedQuery handler) request
        (checks, (s, log))).2 =
      (checks ++ [(keyOf ctx, request.time)], (s',
        log ++ if Admitted service checks ctx request.time && isQuestion
          then [request.asCaller ctx] else [])) := by
  cases treatment framework service request with
  | unguarded hguards =>
      rw [checkOf, hguards] at h
      cases h
  | refused reason hguards hcaller =>
      rw [checkOf, if_pos hguards, hcaller] at h
      cases h
  | checked caller hguards hcaller =>
      rw [checkOf, if_pos hguards, hcaller] at h
      cases h
      have hroute : routeOf { request with extension := some ctx } =
          routeOf request := rfl
      rw [routerWith_of_ok framework _ hguards hcaller]
      cases hadmitted : Admitted service checks ctx request.time with
      | false => exact ⟨s, by simp [keyOf]⟩
      | true =>
          refine ⟨(endpoint framework handler (request.asCaller ctx) s).2, ?_⟩
          simp [endpoint_traced, hroute, keyOf, Request.asCaller]

end Step

/-- The checks so far and, at one instant, checks with the keys `before`. -/
def CheckedSince (checks : Checks) (time : Instant) (before : List String)
    (checks' : Checks) : Prop :=
  ∀ key, checks'.timesOf key =
    checks.timesOf key ++ List.replicate (before.count key) time

theorem checkedSince_refl (checks : Checks) (time : Instant) :
    CheckedSince checks time [] checks := by
  intro key
  simp

section CheckedSince

variable {checks checks' : Checks} {time : Instant} {before : List String}

theorem CheckedSince.check (h : CheckedSince checks time before checks')
    (key : String) :
    CheckedSince checks time (key :: before) (checks' ++ [(key, time)]) := by
  intro key'
  by_cases hkey : key' = key
  · subst hkey
    rw [timesOf_append_self, h, List.count_cons_self, List.replicate_succ',
      List.append_assoc]
  · rw [timesOf_append_of_ne (Ne.symm hkey), h,
      List.count_cons_of_ne (Ne.symm hkey)]

theorem CheckedSince.admitted (h : CheckedSince checks time before checks')
    (service : Service) (ctx : TenantContext) :
    Admitted service checks' ctx time =
      service.limiter.gateAt checks time (keyOf ctx)
        (before.count (keyOf ctx)) := by
  rw [KeyedLimiter.gateAt, ← h]
  rfl

end CheckedSince

def tenantOf (check : TenantContext × Bool) : TenantId := check.1.tenantId

/-- One check counts in the log if and only if it counts in the list. -/
theorem countOf_granted (tenantId : TenantId) (log : List Request)
    (request : Request) (ctx : TenantContext) (granted isQuestion : Bool)
    (later : List (TenantContext × Bool)) :
    let wanted := Gate.wantedIn tenantOf Prod.snd tenantId
    countOf tenantId (log ++
        if granted && isQuestion then [request.asCaller ctx] else []) +
        later.countP wanted =
      countOf tenantId log +
        (if granted then (ctx, isQuestion) :: later else later).countP
          wanted := by
  cases granted with
  | false => simp
  | true =>
      cases isQuestion with
      | false => simp [Gate.wantedIn]
      | true =>
          by_cases htenant : ctx.tenantId = tenantId
          · simp [countOf, Request.asCaller, Gate.wantedIn, tenantOf, htenant]
            omega
          · simp [countOf, Request.asCaller, Gate.wantedIn, tenantOf, htenant]

/-- The requests of a tenant that reach the handler are the checks that pass. -/
theorem countOf_reached (framework : Framework) (service : Service)
    (handler : Handler σ) (tenantId : TenantId) {time : Instant}
    (checks : Checks) (requests : List Request)
    (hinstant : ∀ request ∈ requests, request.time = time)
    {before : List String} {world : Checks × σ × List Request}
    (hworld : CheckedSince checks time before world.1) :
    countOf tenantId (reached framework service handler requests world) =
      countOf tenantId world.2.2 +
        ((service.limiter.gateAt checks time).passing (fun c => keyOf c.1)
          before (requests.filterMap
            (checkOf framework service.apiKeys))).countP
          (Gate.wantedIn tenantOf Prod.snd tenantId) := by
  induction requests generalizing before world with
  | nil => simp [reached, Gate.passing]
  | cons request requests ih =>
      obtain ⟨checks', s, log⟩ := world
      have hlater : ∀ r ∈ requests, r.time = time :=
        fun r hr => hinstant r (List.mem_cons_of_mem request hr)
      change countOf tenantId (reached framework service handler requests
        (routerWith framework service (tracedQuery handler) request
          (checks', s, log)).2) = _
      cases hcheck : checkOf framework service.apiKeys request with
      | none =>
          obtain ⟨s', hstep⟩ := traced_of_unchecked framework service handler
            request checks' s log hcheck
          rw [hstep, List.filterMap_cons_none hcheck]
          exact ih hlater hworld
      | some check =>
          obtain ⟨ctx, isQuestion⟩ := check
          obtain ⟨s', hstep⟩ := traced_of_checked framework service handler
            request checks' s log hcheck
          have htime := hinstant request List.mem_cons_self
          rw [htime, hworld.admitted service ctx] at hstep
          rw [hstep, List.filterMap_cons_some hcheck,
            ih hlater (hworld.check (keyOf ctx))]
          exact countOf_granted tenantId log request ctx _ isQuestion _

/-! ## The quota of a tenant -/

def callerOf (directory : ApiKeyDirectory) (request : Request) :
    Option TenantContext :=
  if routeOf request = .query then (authenticate directory request).toOption
  else none

/-- The callers of a tenant's questions. -/
def questionsOf (directory : ApiKeyDirectory) (tenantId : TenantId)
    (requests : List Request) : List TenantContext :=
  (requests.filterMap (callerOf directory)).filter fun ctx =>
    ctx.tenantId = tenantId

private theorem checkOf_filter (framework : Framework)
    (directory : ApiKeyDirectory) (tenantId : TenantId) (request : Request) :
    ((checkOf framework directory request).filter
        (Gate.wantedIn tenantOf Prod.snd tenantId)).map Prod.fst =
      (callerOf directory request).filter fun ctx =>
        ctx.tenantId = tenantId := by
  unfold checkOf callerOf
  by_cases hroute : routeOf request = .query
  · have hguards : guards framework request = true := by
      rw [guards, hroute]
    rw [if_pos hguards, if_pos hroute]
    cases authenticate directory request with
    | error reason => rfl
    | ok ctx =>
        by_cases htenant : ctx.tenantId = tenantId <;>
          simp [hroute, Except.toOption, Option.filter, Gate.wantedIn, tenantOf,
            htenant]
  · rw [if_neg hroute]
    cases guards framework request with
    | false => rfl
    | true =>
        cases authenticate directory request with
        | error reason => rfl
        | ok ctx => simp [hroute, Option.filter, Gate.wantedIn]

theorem map_fst_checks (framework : Framework) (directory : ApiKeyDirectory)
    (tenantId : TenantId) (requests : List Request) :
    ((requests.filterMap (checkOf framework directory)).filter
        (Gate.wantedIn tenantOf Prod.snd tenantId)).map Prod.fst =
      questionsOf directory tenantId requests := by
  rw [questionsOf, List.filter_filterMap, List.map_filterMap,
    List.filter_filterMap]
  congr 1
  funext request
  exact checkOf_filter framework directory tenantId request

/-- No tenant gets more questions to the handler than the quota. -/
def TenantsCapped (framework : Framework) (service : Service)
    (app : AppState σ) (quota : Nat) (checks : Checks)
    (world : Adapter.Metered σ) (requests : List Request) : Prop :=
  ∀ tenantId, countOf tenantId (reached framework service
    (query framework app.answerQuestion) requests (checks, (world, []))) ≤ quota

theorem tenantsCapped_iff_gates (framework : Framework)
    (directory : ApiKeyDirectory) (config : RateLimiterConfig)
    (app : AppState σ) (checks : Checks) (world : Adapter.Metered σ)
    {requests : List Request} {time : Instant}
    (hinstant : ∀ request ∈ requests, request.time = time) :
    (∀ algorithm, (buildLimiter algorithm config).KeepsQuota config.quota →
      TenantsCapped framework ⟨directory, buildLimiter algorithm config⟩
        app config.quota checks world requests) ↔
    ∀ gate : Gate String, gate.Keeps config.quota → ∀ tenantId,
      (gate.passing (fun c => keyOf c.1) [] (requests.filterMap
        (checkOf framework directory))).countP
          (Gate.wantedIn tenantOf Prod.snd tenantId) ≤ config.quota := by
  have hcount : ∀ limiter tenantId,
      countOf tenantId (reached framework ⟨directory, limiter⟩
        (query framework app.answerQuestion) requests (checks, (world, []))) =
      ((limiter.gateAt checks time).passing (fun c => keyOf c.1) []
        (requests.filterMap (checkOf framework directory))).countP
          (Gate.wantedIn tenantOf Prod.snd tenantId) := by
    intro limiter tenantId
    rw [countOf_reached framework ⟨directory, limiter⟩ _ tenantId checks
      requests hinstant (checkedSince_refl checks time)]
    simp [countOf]
  constructor
  · intro h gate hgate tenantId
    have hlimiter := KeyedLimiter.keepsQuota_opening hgate checks
    have hcapped := h (fun _ => (KeyedLimiter.opening gate checks).admits)
      hlimiter tenantId
    rw [hcount] at hcapped
    rw [← KeyedLimiter.gateAt_opening gate checks time]
    exact hcapped
  · intro h algorithm hquota tenantId
    rw [hcount]
    exact h _ (hquota.keeps_gateAt checks time) tenantId

/-- The tenant has few questions, or asks them all under one subject. -/
def WithinOneQuota (quota : Nat) (questions : List TenantContext) : Prop :=
  questions.length ≤ quota ∨
    ∀ ctx ∈ questions, ∀ ctx' ∈ questions, ctx.subject = ctx'.subject

theorem withinOneQuota_iff (framework : Framework)
    (directory : ApiKeyDirectory) (tenantId : TenantId) (quota : Nat)
    (requests : List Request) :
    let checks := requests.filterMap (checkOf framework directory)
    let wanted := Gate.wantedIn tenantOf Prod.snd tenantId
    (checks.countP wanted ≤ quota ∨
      ∀ a ∈ checks, ∀ b ∈ checks, wanted a = true → wanted b = true →
        keyOf a.1 = keyOf b.1) ↔
    WithinOneQuota quota (questionsOf directory tenantId requests) := by
  intro checks wanted
  have htenant : ∀ a, wanted a = true → a.1.tenantId = tenantId := by
    intro a ha
    exact of_decide_eq_true (Bool.and_eq_true_iff.mp ha).2
  rw [WithinOneQuota, ← map_fst_checks framework directory tenantId requests,
    List.length_map, ← List.countP_eq_length_filter]
  refine or_congr Iff.rfl ?_
  simp only [List.mem_map, List.mem_filter]
  constructor
  · rintro h _ ⟨a, ⟨ha, haw⟩, rfl⟩ _ ⟨b, ⟨hb, hbw⟩, rfl⟩
    exact (limiterKey_inj (h a ha b hb haw hbw)).2
  · intro h a ha b hb haw hbw
    rw [keyOf, keyOf, htenant a haw, htenant b hbw,
      h a.1 ⟨a, ⟨ha, haw⟩, rfl⟩ b.1 ⟨b, ⟨hb, hbw⟩, rfl⟩]

theorem RateLimiterConfig.quota_pos (config : RateLimiterConfig) :
    0 < config.quota := by
  rw [RateLimiterConfig.quota]
  omega

/--
The quota of the limiter is a quota of the tenants exactly if every tenant has
few questions at the instant or asks them all under one subject.
-/
theorem tenants_capped_iff (framework : Framework)
    (directory : ApiKeyDirectory) (config : RateLimiterConfig)
    (app : AppState σ) (checks : Checks) (world : Adapter.Metered σ)
    {requests : List Request} {time : Instant}
    (hinstant : ∀ request ∈ requests, request.time = time) :
    (∀ algorithm, (buildLimiter algorithm config).KeepsQuota config.quota →
      TenantsCapped framework ⟨directory, buildLimiter algorithm config⟩
        app config.quota checks world requests) ↔
    ∀ tenantId,
      WithinOneQuota config.quota (questionsOf directory tenantId requests) := by
  rw [tenantsCapped_iff_gates framework directory config app checks world
    hinstant, Gate.group_quota_iff config.quota_pos]
  · exact forall_congr' fun tenantId =>
      withinOneQuota_iff framework directory tenantId config.quota requests
  · exact fun a b hkey => (limiterKey_inj hkey).1

/-! ## Two users of one tenant -/

theorem keepsQuota_burst (quota : Nat) :
    (KeyedLimiter.mk (burst quota)).KeepsQuota quota := by
  intro key time times
  have hgenerous := Gate.keeps_generous (fun _ => ()) (fun t => t = time) quota
    times () times.length
  unfold Gate.generous at hgenerous
  simpa [KeyedLimiter.grants, burst, Gate.own] using hgenerous

def greeting (key : String) : Request := postQuestion key "hello?"

theorem tenants_capped_oneUser :
    TenantsCapped (frameworkFor "hello?") ⟨twoUsers, buildLimiter burst ⟨1⟩⟩
      AppState.defaultApp 1 [] (Mutex.new ∅, AppState.emptyWorld)
      [greeting "key-a", greeting "key-a"] := by
  have hinstant : ∀ request ∈ [greeting "key-a", greeting "key-a"],
      request.time = 0 := by
    simp [greeting, postQuestion]
  apply (tenants_capped_iff (frameworkFor "hello?") twoUsers ⟨1⟩
    AppState.defaultApp [] (Mutex.new ∅, AppState.emptyWorld) hinstant).mpr ?_
      burst (keepsQuota_burst 1)
  intro tenantId
  right
  have hcallers : [greeting "key-a", greeting "key-a"].filterMap
      (callerOf twoUsers) = [⟨ourTenant, .member, "user-a"⟩,
        ⟨ourTenant, .member, "user-a"⟩] := by
    decide +kernel
  have hsubject : ∀ ctx ∈ questionsOf twoUsers tenantId
      [greeting "key-a", greeting "key-a"], ctx.subject = "user-a" := by
    intro ctx hctx
    rw [questionsOf, hcallers] at hctx
    have hmem := (List.mem_filter.mp hctx).1
    simp only [List.mem_cons, List.not_mem_nil, or_false, or_self] at hmem
    rw [hmem]
  exact fun ctx hctx ctx' hctx' =>
    (hsubject ctx hctx).trans (hsubject ctx' hctx').symm

theorem twoUsers_exceed :
    (buildLimiter burst ⟨1⟩).KeepsQuota 1 ∧
      ¬ TenantsCapped (frameworkFor "hello?")
        ⟨twoUsers, buildLimiter burst ⟨1⟩⟩ AppState.defaultApp 1 []
        (Mutex.new ∅, AppState.emptyWorld)
        [greeting "key-a", greeting "key-b"] := by
  refine ⟨keepsQuota_burst 1, fun h => ?_⟩
  have hcount := h ourTenant
  revert hcount
  decide +kernel

end Milona.Presenter
