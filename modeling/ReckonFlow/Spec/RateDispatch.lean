import ReckonFlow.Spec.Gateway
import ReckonFlow.Spec.RateLimit

/-! `RateLimitMiddleware.dispatch` in several processes: one counter in Redis, a window in the
memory of each process, and the clock of the process behind it. -/

namespace ReckonFlow.RateDispatch

/-- A request and the process that serves it. -/
structure Call where
  request : Request
  process : ℕ

/-- `client_key`. -/
def Call.clientKey (c : Call) : String :=
  match c.request.header Gateway.apiKeyHeader with
  | some key => if key = "" then c.request.client.getD "anonymous" else key
  | none => c.request.client.getD "anonymous"

/-- A call handed on, when, and the process whose memory let it pass. -/
structure Admission where
  call : ℕ
  time : ℚ
  memory : Option ℕ
  deriving DecidableEq

/-- `fallback` is what `_check_memory` said of a call. -/
structure State where
  redis : LimiterState
  hits : ℕ → Hits
  fallback : ℕ → Option Bool
  admitted : List Admission

inductive Event where
  | redis (e : LimiterEvent)
  | memory (i : ℕ)

/-- The call whose command an event is. -/
def commandOf : LimiterEvent → Option ℕ
  | .tick _ => none
  | .incr i _ | .expire i _ => some i

/-- What Redis lets pass with an event. -/
def letPass (redis : LimiterState) (e : LimiterEvent) : List Admission :=
  match commandOf e with
  | none => []
  | some i => if redis.phase i = .ended (some true) then [⟨i, redis.now, none⟩] else []

variable (limit : Gateway.RateLimit) (keyPrefix : String) (clock : ℕ → ℚ) (call : ℕ → Call)

/-- The two checks of the middleware. -/
def checks : RateLimit := ⟨limit.requestsPerMinute, keyPrefix⟩

def clientOf (i : ℕ) : String := (call i).clientKey

/-- One step of a call of `dispatch`, or time passing; `time.monotonic` of a process is the time
but for a constant. -/
def step (s : State) : Event → Option State
  | .redis e =>
      if ∀ i ∈ commandOf e, limit.counts (call i).request then
        (limiterStep (checks limit keyPrefix) (clientOf call) s.redis e).map fun redis =>
          { s with redis := redis, admitted := s.admitted ++ letPass redis e }
      else none
  | .memory i =>
      if s.redis.phase i = .ended none ∧ s.fallback i = none then
        let p := (call i).process
        let checked := checkMemory (checks limit keyPrefix) (s.hits p) (clientOf call i)
          (s.redis.now + clock p)
        some { s with
          hits := Function.update s.hits p checked.1
          fallback := Function.update s.fallback i (some checked.2)
          admitted := s.admitted ++
            if checked.2 then [⟨i, s.redis.now, some p⟩] else [] }
      else none

/-- New processes and no counter. -/
def State.init (now : ℚ) : State := ⟨LimiterState.init now, fun _ _ => [], fun _ => none, []⟩

/-- What `dispatch` answers: whether the request is handed on. -/
def State.verdict (s : State) (i : ℕ) : Option Bool :=
  if limit.counts (call i).request then
    match s.redis.phase i with
    | .ended (some allowed) => some allowed
    | .ended none => s.fallback i
    | _ => none
  else some true

end ReckonFlow.RateDispatch
