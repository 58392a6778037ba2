import Milona.Foundation.Runs
import Milona.Presenter.Http

/-!
# The router

Authentication runs before the rate limit, and both run before the query
handler.  What a guarded request does is a function of its key's record and of
the limiter's decision; a request without a valid key changes nothing.

The limiter's key determines the tenant and the subject, so the requests of one
identity meet the same decisions whoever else sends requests.
-/

namespace Milona.Presenter

open Milona.Core Milona.Foundation Milona.Retrieval

variable {σ : Type}

inductive Route where
  | healthz
  | query
  | unmatched
  deriving DecidableEq, Repr

def routeOf (request : Request) : Route :=
  if request.method = .get ∧ request.path = "/healthz" then .healthz
  else if request.method = .post ∧ request.path = "/v1/query" then .query
  else .unmatched

def guards (framework : Framework) (request : Request) : Bool :=
  match routeOf request with
  | .healthz => false
  | .query => true
  | .unmatched => framework.guardsUnmatched request

/-- What the router does apart from the middleware. -/
def endpoint (framework : Framework) (query : Handler σ) : Handler σ :=
  fun request =>
    match routeOf request with
    | .healthz => return healthz
    | .query => query request
    | .unmatched => return framework.unmatched request

structure Service where
  apiKeys : ApiKeyDirectory
  limiter : KeyedLimiter

/-- The layer added last runs first. -/
def routerWith (framework : Framework) (service : Service)
    (query : Handler σ) : Handler (Checks × σ) := fun request =>
  let handler : Handler (Checks × σ) := fun request =>
    Action.zoom .snd (endpoint framework query request)
  if guards framework request then
    requireApiKey service.apiKeys (rateLimit service.limiter handler) request
  else handler request

def buildRouter (framework : Framework) (service : Service)
    (app : AppState σ) : Handler (Checks × Adapter.Metered σ) :=
  routerWith framework service (query framework app.answerQuestion)

/-! ## One request -/

/-- The first key header of the request is the key of the record. -/
def PresentsKey (service : Service) (request : Request)
    (record : ApiKeyRecord) : Prop :=
  ∃ value, request.header apiKeyHeader = some value ∧ value ≠ [] ∧
    (∀ byte ∈ value, isVisibleAscii byte = true) ∧
    service.apiKeys.keys.lookup (asciiText value) = some record

theorem isEmpty_asciiText (value : List UInt8) :
    (asciiText value).isEmpty = value.isEmpty := by
  rw [Bool.eq_iff_iff, String.isEmpty_iff, List.isEmpty_iff, asciiText,
    String.ofList_eq_empty_iff, List.map_eq_nil_iff]

theorem authenticate_eq_ok_iff {service : Service} {request : Request}
    {ctx : TenantContext} :
    authenticate service.apiKeys request = .ok ctx ↔
      ∃ record, PresentsKey service request record ∧ record.context = ctx := by
  unfold authenticate PresentsKey
  cases request.header apiKeyHeader with
  | none => simp
  | some value =>
      by_cases hvisible : ∀ byte ∈ value, isVisibleAscii byte = true
      · have htext : toStr value = some (asciiText value) := by
          rw [toStr, if_pos (List.all_eq_true.mpr hvisible)]
        by_cases hempty : value = []
        · subst hempty
          simp [htext, isEmpty_asciiText]
        · have hkey : (asciiText value).isEmpty = false := by
            simp [isEmpty_asciiText, hempty]
          cases hlookup : service.apiKeys.keys.lookup (asciiText value) <;>
            simp_all [ApiKeyDirectory.validate]
      · have htext : toStr value = none := by
          rw [toStr, if_neg fun h => hvisible (List.all_eq_true.mp h)]
        simp [htext, hvisible]

def Admitted (service : Service) (checks : Checks) (ctx : TenantContext)
    (time : Instant) : Bool :=
  let key := limiterKey ctx.tenantId ctx.subject
  service.limiter.admits key (checks.timesOf key) time

theorem routerWith_of_error (framework : Framework) {service : Service}
    (query : Handler σ) {request : Request} {reason : String}
    (hguards : guards framework request = true)
    (h : authenticate service.apiKeys request = .error reason)
    (world : Checks × σ) :
    routerWith framework service query request world =
      (.returned (unauthorized reason), world) := by
  simp [routerWith, hguards, requireApiKey, h]

theorem routerWith_of_ok (framework : Framework) {service : Service}
    (query : Handler σ) {request : Request} {ctx : TenantContext}
    (hguards : guards framework request = true)
    (h : authenticate service.apiKeys request = .ok ctx)
    (checks : Checks) (s : σ) :
    routerWith framework service query request (checks, s) =
      let checks' :=
        checks ++ [(limiterKey ctx.tenantId ctx.subject, request.time)]
      if Admitted service checks ctx request.time then
        let served := endpoint framework query
          { request with extension := some ctx } s
        (served.1, (checks', served.2))
      else (.returned tooManyRequests, (checks', s)) := by
  simp only [routerWith, hguards, if_pos, requireApiKey, h, rateLimit]
  rw [Action.bind_of_returned (Action.zoom_apply _ _ _)]
  change (if Admitted service checks ctx request.time = true then
    (_ : Action (Checks × σ) Response) else _) _ = _
  split
  · simp [KeyedLimiter.checkKey]
  · rfl

theorem routerWith_of_unguarded {framework : Framework} (service : Service)
    (query : Handler σ) {request : Request}
    (h : guards framework request = false) (checks : Checks) (s : σ) :
    routerWith framework service query request (checks, s) =
      let served := endpoint framework query request s
      (served.1, (checks, served.2)) := by
  simp [routerWith, h]

/-- What the middleware makes of a request. -/
inductive Treatment (framework : Framework) (service : Service)
    (request : Request) : Prop where
  | unguarded : guards framework request = false →
      Treatment framework service request
  | refused (reason : String) : guards framework request = true →
      authenticate service.apiKeys request = .error reason →
      Treatment framework service request
  | checked (ctx : TenantContext) : guards framework request = true →
      authenticate service.apiKeys request = .ok ctx →
      Treatment framework service request

theorem treatment (framework : Framework) (service : Service)
    (request : Request) : Treatment framework service request := by
  cases hguards : guards framework request with
  | false => exact .unguarded hguards
  | true =>
      cases hcaller : authenticate service.apiKeys request with
      | error reason => exact .refused reason hguards hcaller
      | ok ctx => exact .checked ctx hguards hcaller

/-! ## The limiter's key -/

/-- The tenant's part has a fixed length, whatever the subject contains. -/
theorem limiterKey_inj {tenantId tenantId' : TenantId}
    {subject subject' : String}
    (h : limiterKey tenantId subject = limiterKey tenantId' subject') :
    tenantId = tenantId' ∧ subject = subject' := by
  have hchars := congrArg String.toList h
  simp only [limiterKey, TenantId.display, String.toList_append,
    Uuid.toList_hyphenated, List.append_assoc] at hchars
  obtain ⟨htenant, hrest⟩ := List.append_inj hchars (by simp)
  obtain ⟨-, hsubject⟩ := List.append_inj hrest rfl
  constructor
  · apply TenantId.display_injective
    rw [TenantId.display, TenantId.display, Uuid.hyphenated, Uuid.hyphenated,
      htenant]
  · exact String.toList_inj.mp hsubject

theorem timesOf_append_of_ne {key key' : String} (h : key' ≠ key)
    (checks : Checks) (time : Instant) :
    Checks.timesOf (checks ++ [(key', time)]) key = checks.timesOf key := by
  simp [Checks.timesOf, h]

theorem timesOf_append_self (key : String) (checks : Checks) (time : Instant) :
    Checks.timesOf (checks ++ [(key, time)]) key =
      checks.timesOf key ++ [time] := by
  simp [Checks.timesOf]

/-! ## Refusals of one identity -/

def identityOf (service : Service) (request : Request) :
    Option (TenantId × String) :=
  match authenticate service.apiKeys request with
  | .ok ctx => some (ctx.tenantId, ctx.subject)
  | .error _ => none

/-- Log the requests that the query handler sees. -/
def tracedQuery (query : Handler σ) : Handler (σ × List Request) :=
  fun request => Action.logged (fun _ => request) (query request)

def isQuery (request : Request) : Prop :=
  request.method = .post ∧ request.path = "/v1/query"

theorem routeOf_of_isQuery {request : Request} (h : isQuery request) :
    routeOf request = .query := by
  obtain ⟨hmethod, hpath⟩ := h
  simp [routeOf, hmethod, hpath]

theorem guards_of_isQuery (framework : Framework) {request : Request}
    (h : isQuery request) : guards framework request = true := by
  rw [guards, routeOf_of_isQuery h]

theorem authenticate_of_record {service : Service} {request : Request}
    {record : ApiKeyRecord} (h : PresentsKey service request record) :
    authenticate service.apiKeys request = .ok record.context :=
  authenticate_eq_ok_iff.mpr ⟨record, h, rfl⟩

theorem endpoint_traced (framework : Framework) (handler : Handler σ)
    (request : Request) (s : σ) (log : List Request) :
    endpoint framework (tracedQuery handler) request (s, log) =
      let served := endpoint framework handler request s
      (served.1, (served.2,
        log ++ if routeOf request = .query then [request] else [])) := by
  unfold endpoint
  cases routeOf request <;> simp [tracedQuery, Action.logged]

def ourTenant : TenantId := ⟨⟨1⟩⟩

def twoUsers : ApiKeyDirectory :=
  ⟨Finmap.insert "key-a" ⟨ourTenant, .member, "user-a"⟩
    (Finmap.singleton "key-b" ⟨ourTenant, .member, "user-b"⟩)⟩

/-- Grant a key its first checks of an instant. -/
def burst (quota : Nat) (_ : String) (times : List Instant) (time : Instant) :
    Bool :=
  decide ((times.countP fun t => t = time) < quota)

def postQuestion (key question : String) : Request where
  method := .post
  path := "/v1/query"
  headers := [(apiKeyHeader, key.toUTF8.toList)]
  body := ("\x7b\"question\":\"" ++ question ++ "\"\x7d").toUTF8.toList
  time := 0
  extension := none

/-- A framework that decodes the bodies of one question. -/
def frameworkFor (question : String) : Framework where
  decodeQuestion _ := .ok question
  missingExtension := errorResponse 500 "internal" "missing extension"
  unmatched _ := errorResponse 404 "not_found" "no such route"
  guardsUnmatched _ := true

end Milona.Presenter
