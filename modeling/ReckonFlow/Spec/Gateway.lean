import ReckonFlow.Lib.Lts
import ReckonFlow.Spec.Idempotency

/-! The stack `create_app` builds: the request id outermost, then the rate limit, the
idempotency middleware, and routing with `require_api_key` innermost. -/

namespace ReckonFlow.Gateway

open Text

/-- The application below the middleware, with `API_KEY` configured. -/
structure App where
  apiKey : String
  configured : apiKey ≠ ""
  /-- what the framework answers before any dependency runs: no such route, a method the
  route does not have, a body it cannot read -/
  refuse : Request → Option Response

/-! ## Routing -/

/-- The paths of `api_router`; a star is a path parameter. -/
def financeRoutes : List (List String) :=
  [["accounts"], ["accounts", "*"], ["accounts", "*", "balance"],
    ["ledger", "transactions"], ["ledger", "transactions", "*"],
    ["travel-requests"], ["travel-requests", "*"],
    ["approvals"], ["approvals", "*"], ["approvals", "*", "transition"],
    ["expenses"], ["expenses", "*"],
    ["bank", "transactions", "upload"], ["bank", "transactions"],
    ["receipts"], ["receipts", "runs"], ["receipts", "*"], ["receipts", "*", "extraction"],
    ["reconciliation", "expenses", "*", "suggestions"],
    ["reconciliation", "expenses", "*", "match"],
    ["reconciliation", "expenses", "*", "auto-match"]]

def segments (path : String) : List String := (path.toList.splitOn '/').map String.ofList

/-- A parameter matches any segment that is not empty. -/
def segmentMatches (pattern segment : String) : Bool :=
  if pattern = "*" then segment ≠ "" else segment = pattern

def routeMatches : List String → List String → Bool
  | [], [] => true
  | p :: ps, x :: xs => segmentMatches p x && routeMatches ps xs
  | _, _ => false

/-- A path of `api_router` under `/api/v1`. -/
def isFinance (r : Request) : Bool :=
  financeRoutes.any fun route => routeMatches ("" :: "api" :: "v1" :: route) (segments r.path)

/-! ## The key -/

def apiKeyHeader : String := "x-api-key"

def isAscii (s : String) : Bool := s.toList.all (·.toNat < 128)

inductive Gate where
  | pass
  | reject
  /-- `compare_digest` of text that is not ASCII -/
  | raise
  deriving DecidableEq

/-- `_reject_bad_api_key`. -/
def App.checkKey (app : App) (r : Request) : Gate :=
  match r.header apiKeyHeader with
  | none => .reject
  | some key =>
      if key = "" then .reject
      else if isAscii key && isAscii app.apiKey then
        if key = app.apiKey then .pass else .reject
      else .raise

/-- A correct key. -/
def App.authenticated (app : App) (r : Request) : Bool := app.checkKey r = .pass

def unauthorized : Response :=
  response 401 [("WWW-Authenticate", "ApiKey")]
    (encodeUtf8 "\x7b\"detail\":\"Invalid or missing X-API-Key\"\x7d") true (by decide)

/-- Whether the application can answer `r` with `resp`; a handler answers as it likes. -/
def App.canAnswer (app : App) (r : Request) (resp : Response) : Bool :=
  match app.refuse r with
  | some refusal => resp = refusal
  | none =>
      if isFinance r then
        match app.checkKey r with
        | .pass => true
        | .reject => resp = unauthorized
        | .raise => false
      else true

def App.canRaise (app : App) (r : Request) : Bool :=
  (app.refuse r).isNone && !(isFinance r && app.checkKey r = .reject)

/-! ## Rate limit and request id -/

structure RateLimit where
  enabled : Bool := true
  requestsPerMinute : ℤ := 120

def exemptPrefixes : List String :=
  ["/health", "/ready", "/api/v1/health", "/api/v1/ready", "/metrics", "/docs", "/swagger",
    "/redoc", "/openapi"]

/-- Requests the limiter counts. -/
def RateLimit.counts (limit : RateLimit) (r : Request) : Bool :=
  limit.enabled && !exemptPrefixes.any fun p => p.toList.isPrefixOf (urlPath r.path).toList

def RateLimit.tooMany (limit : RateLimit) : Response :=
  let shown := limit.requestsPerMinute
  response 429 [("Retry-After", "60")]
    (encodeUtf8 ("\x7b\"error\":\"RateLimitExceeded\",\"detail\":\"Limit is " ++ toString shown ++
      " requests per minute\"\x7d")) true (by decide)

def requestIdHeader : String := "x-request-id"

/-- The client's request id, or the one minted. -/
def requestId (r : Request) (minted : String) : String :=
  match r.header requestIdHeader with
  | some v => if v = "" then minted else v
  | none => minted

/-- `response.headers["X-Request-ID"] = request_id`; headers arrive as Latin-1. -/
def withRequestId (r : Request) (minted : String) (resp : Response) : Response :=
  if h : IsLatin1 (requestId r minted) then
    resp.setHeader requestIdHeader (requestId r minted) ⟨by decide, h⟩
  else resp

/-- The answer of the server when an exception passes all middleware. -/
def serverError : Response :=
  response 500 [("content-type", "text/plain; charset=utf-8")]
    (encodeUtf8 "Internal Server Error") false (by decide)

/-! ## The stack -/

/-- `admitted` is what the rate limit said of a request; the counters behind it are left
open. -/
structure State where
  admitted : ℕ → Option Bool
  inner : ReckonFlow.State

inductive Event where
  | arrive (i : ℕ) (allowed : Bool)
  | inner (e : ReckonFlow.Event)

variable (M : Middleware) (app : App) (limit : RateLimit) (req : ℕ → Request)

/-- The application answers or raises only as `App` allows. -/
def faithful (e : ReckonFlow.Event) : Bool :=
  match e with
  | .finish i resp => app.canAnswer (req i) resp
  | .raise i => app.canRaise (req i)
  | _ => true

def step (s : State) : Event → Option State
  | .arrive i allowed =>
      if s.admitted i = none ∧ (allowed = false → limit.counts (req i)) then
        some { s with admitted := Function.update s.admitted i (some allowed) }
      else none
  | .inner e =>
      if (∀ i ∈ e.actor, s.admitted i = some true) ∧ faithful app req e then
        (dispatchStep M req s.inner e).map fun inner => { s with inner := inner }
      else none

/-- How a request ended, seen from the request id middleware. -/
inductive Answer where
  | limited
  | inner (o : Outcome)

def State.answer (s : State) (i : ℕ) : Option Answer :=
  if s.admitted i = some false then some .limited
  else match s.inner.phase i with
    | .ended o => some (.inner o)
    | _ => none

/-- What the client receives. -/
def received (minted : String) (r : Request) : Answer → Response
  | .limited => withRequestId r minted limit.tooMany
  | .inner (.conflict detail) => withRequestId r minted (conflict detail)
  | .inner (.replay resp) | .inner (.answered resp) | .inner (.passed resp) =>
      withRequestId r minted resp
  | .inner .raised | .inner .crashed => serverError

/-- No request sent, nothing stored. -/
def State.init : State := ⟨fun _ => none, ReckonFlow.State.init fun _ => none⟩

end ReckonFlow.Gateway
