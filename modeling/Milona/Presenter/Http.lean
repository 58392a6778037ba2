import Milona.Foundation.Text
import Milona.Presenter.State

/-!
# Requests, middleware and handlers

A handler turns a request into an action that ends in a response.  A middleware
turns a handler into a handler.  The state of a served request is the list of
the limiter's checks next to the state `σ` of the application.

What the web framework decides on its own is in `Framework`: how a body is
decoded, and what a request gets that no route matches.  The limiter decides
from the times at which the same key was checked before.
-/

namespace Milona.Presenter

open Milona.Core Milona.Foundation Milona.Retrieval

abbrev Instant : Type := Nat

inductive Method where
  | get
  | post
  | other (name : String)
  deriving DecidableEq, Repr

/-- A request, with its header names in lower case, and when it is served. -/
structure Request where
  method : Method
  path : String
  headers : List (String × List UInt8)
  body : List UInt8
  time : Instant
  extension : Option TenantContext
  deriving DecidableEq, Repr

structure Response where
  status : Nat
  body : Json

abbrev Handler (σ : Type) : Type := Request → Action σ Response

def errorResponse (status : Nat) (error reason : String) : Response :=
  ⟨status, .object [("error", .string error), ("reason", .string reason)]⟩

/-- The first value of a header. -/
def Request.header (request : Request) (name : String) : Option (List UInt8) :=
  request.headers.lookup name

def Request.asCaller (request : Request) (ctx : TenantContext) : Request :=
  { request with extension := some ctx }

/-! ## API keys -/

structure ApiKeyRecord where
  tenantId : TenantId
  role : Role
  subject : String
  deriving DecidableEq, Repr

def ApiKeyRecord.context (record : ApiKeyRecord) : TenantContext :=
  ⟨record.tenantId, record.role, record.subject⟩

structure ApiKeyDirectory where
  keys : HashMap String ApiKeyRecord

def ApiKeyDirectory.validate (directory : ApiKeyDirectory) (key : String) :
    Option TenantContext :=
  (directory.keys.lookup key).map ApiKeyRecord.context

def apiKeyHeader : String := "x-api-key"

def unauthorized (reason : String) : Response :=
  errorResponse 401 "unauthorized" reason

/-- The bytes that a header text may consist of; a tab is one of them. -/
def isVisibleAscii (byte : UInt8) : Bool :=
  (32 ≤ byte && byte < 127) || byte = 9

def asciiText (value : List UInt8) : String :=
  String.ofList (value.map fun byte => Char.ofNat byte.toNat)

def toStr (value : List UInt8) : Option String :=
  if value.all isVisibleAscii then some (asciiText value) else none

def authenticate (directory : ApiKeyDirectory) (request : Request) :
    Except String TenantContext :=
  match (request.header apiKeyHeader).bind toStr with
  | some key =>
      if key.isEmpty then .error "missing x-api-key header"
      else
        match directory.validate key with
        | some ctx => .ok ctx
        | none => .error "invalid api key"
  | none => .error "missing x-api-key header"

variable {σ : Type}

def requireApiKey (directory : ApiKeyDirectory) (next : Handler σ) :
    Handler σ := fun request =>
  match authenticate directory request with
  | .ok ctx => next { request with extension := some ctx }
  | .error reason => return unauthorized reason

/-! ## Rate limit -/

structure RateLimiterConfig where
  requestsPerMinute : UInt32

namespace RateLimiterConfig

def default : RateLimiterConfig := ⟨60⟩

def quota (config : RateLimiterConfig) : Nat :=
  max config.requestsPerMinute.toNat 1

end RateLimiterConfig

abbrev Checks : Type := List (String × Instant)

def Checks.timesOf (checks : Checks) (key : String) : List Instant :=
  (checks.filter fun check => check.1 = key).map Prod.snd

/-- The decision on a key, from the times of its earlier checks. -/
structure KeyedLimiter where
  admits : String → List Instant → Instant → Bool

namespace KeyedLimiter

def checkKey (limiter : KeyedLimiter) (key : String) (time : Instant) :
    Action Checks Bool := fun checks =>
  (.returned (limiter.admits key (checks.timesOf key) time),
    checks ++ [(key, time)])

end KeyedLimiter

/-- The limiter of a quota, for a given rate-limiting algorithm. -/
def buildLimiter
    (algorithm : Nat → String → List Instant → Instant → Bool)
    (config : RateLimiterConfig) : KeyedLimiter :=
  ⟨algorithm config.quota⟩

def tooManyRequests : Response :=
  errorResponse 429 "rate_limited" "request quota exceeded, try again later"

def limiterKey (tenantId : TenantId) (subject : String) : String :=
  tenantId.display ++ ":" ++ subject

def rateLimit (limiter : KeyedLimiter) (next : Handler (Checks × σ)) :
    Handler (Checks × σ) := fun request =>
  match request.extension with
  | none => return tooManyRequests
  | some ctx => do
      let admitted ← Action.zoom .fst
        (limiter.checkKey (limiterKey ctx.tenantId ctx.subject) request.time)
      if admitted then next request else return tooManyRequests

/-! ## Handlers -/

/-- What the web framework decides. -/
structure Framework where
  decodeQuestion : Request → Except Response String
  missingExtension : Response
  unmatched : Request → Response
  guardsUnmatched : Request → Bool

def healthz : Response := ⟨200, .object [("status", .string "ok")]⟩

def statusOf : CoreError → Nat
  | .unauthorized _ => 403
  | .invalidInput _ => 400
  | .notFound _ => 404
  | .tenantIsolationViolation _ | .unsupported _ | .upstream _ | .other _ => 500

def queryResponse (response : GenAiResponse) : Response :=
  let number (n : Nat) : Json := .number (.natural (UInt64.ofNat n))
  ⟨200, .object [("answer", .string response.answer),
    ("retrieved_count", number response.retrieved.length),
    ("input_tokens", number response.inputTokens.toNat),
    ("output_tokens", number response.outputTokens.toNat)]⟩

def query (framework : Framework)
    (answerQuestion : TenantContext → String → Action σ (Result GenAiResponse)) :
    Handler σ := fun request =>
  match request.extension with
  | none => return framework.missingExtension
  | some ctx =>
      match framework.decodeQuestion request with
      | .error rejection => return rejection
      | .ok question =>
          if question.toList.all isWhitespace then
            return errorResponse 400 "invalid_input"
              "question must not be empty"
          else do
            match ← answerQuestion ctx question with
            | .ok response => return queryResponse response
            | .error e =>
                return errorResponse (statusOf e) "query_failed" e.display

end Milona.Presenter
