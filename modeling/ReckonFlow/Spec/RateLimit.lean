import ReckonFlow.Spec.Idempotency

/-! `api/middleware/rate_limit.py`: the in-memory window, and the Redis counter as a transition
system in which each of the two commands is one event. -/

namespace ReckonFlow

/-- The constructor arguments of `RateLimitMiddleware` the two checks use. -/
structure RateLimit where
  requestsPerMinute : ℤ := 120
  keyPrefix : String := "reckonflow:"

variable (R : RateLimit)

/-! ## In memory -/

/-- `_hits`: the times admitted, a window for each client. -/
abbrev Hits := String → List ℚ

/-- `_check_memory` at the clock reading `now`. -/
def checkMemory (hits : Hits) (clientKey : String) (now : ℚ) : Hits × Bool :=
  let window := (hits clientKey).dropWhile (· < now - 60)
  if R.requestsPerMinute ≤ window.length then (Function.update hits clientKey window, false)
  else (Function.update hits clientKey (window ++ [now]), true)

/-- A call of `_check_memory` as it went. -/
structure MemoryCall where
  client : String
  time : ℚ
  admitted : Bool
  deriving DecidableEq

/-- One more call, by a client at a time. -/
def record (acc : Hits × List MemoryCall) (call : String × ℚ) : Hits × List MemoryCall :=
  let checked := checkMemory R acc.1 call.1 call.2
  (checked.1, acc.2 ++ [⟨call.1, call.2, checked.2⟩])

/-- What a new limiter holds after the calls, and how they went. -/
def recordAll (calls : List (String × ℚ)) : Hits × List MemoryCall :=
  calls.foldl (record R) (fun _ => [], [])

def history (calls : List (String × ℚ)) : List MemoryCall := (recordAll R calls).2

/-! ## In Redis -/

/-- `bucket`. -/
def bucketOf (clientKey : String) : String := R.keyPrefix ++ "ratelimit:" ++ clientKey

/-- A counter, and when it disappears. -/
structure Counter where
  count : ℤ
  deadline : Option ℚ
  deriving DecidableEq

/-- Where a call of `_check_redis` stands; `ended none` falls back to memory. -/
inductive CheckPhase where
  | idle
  | expiring
  | ended (allowed : Option Bool)
  deriving DecidableEq

structure LimiterState where
  now : ℚ
  counters : String → Option Counter
  phase : ℕ → CheckPhase

inductive LimiterEvent where
  /-- time passes -/
  | tick (seconds : ℚ)
  | incr (i : ℕ) (a : Answer)
  | expire (i : ℕ) (a : Answer)

def LimiterState.setPhase (s : LimiterState) (i : ℕ) (p : CheckPhase) : LimiterState :=
  { s with phase := Function.update s.phase i p }

def LimiterState.put (s : LimiterState) (key : String) (c : Option Counter) : LimiterState :=
  { s with counters := Function.update s.counters key c }

/-- `INCR`: a counter that is not there starts at zero and without expiry. -/
def increased (c : Option Counter) : Counter :=
  ⟨(c.map (·.count)).getD 0 + 1, c.bind (·.deadline)⟩

/-- `EXPIRE key 60`: nothing is set on a key that is not there. -/
def LimiterState.setExpiry (s : LimiterState) (key : String) : LimiterState :=
  s.put key ((s.counters key).map fun c => { c with deadline := some (s.now + 60) })

/-- The counters whose time is not up. -/
def alive (now : ℚ) (c : Counter) : Bool :=
  match c.deadline with
  | none => true
  | some t => now < t

/-- One Redis command of a call, or time passing; `client i` is the client of call `i`. -/
def limiterStep (client : ℕ → String) (s : LimiterState) : LimiterEvent → Option LimiterState
  | .tick seconds =>
      if 0 ≤ seconds then
        some { s with
          now := s.now + seconds
          counters := fun key => (s.counters key).filter (alive (s.now + seconds)) }
      else none
  | .incr i a => match s.phase i with
      | .idle =>
          let key := bucketOf R (client i)
          let c := increased (s.counters key)
          match a with
          | .ok => some ((s.put key c).setPhase i (if c.count = 1 then .expiring
              else .ended (some (c.count ≤ R.requestsPerMinute))))
          | .lost => some ((s.put key c).setPhase i (.ended none))
          | .failed => some (s.setPhase i (.ended none))
      | _ => none
  | .expire i a => match s.phase i with
      | .expiring =>
          let key := bucketOf R (client i)
          match a with
          | .ok => some ((s.setExpiry key).setPhase i (.ended (some (1 ≤ R.requestsPerMinute))))
          | .lost => some ((s.setExpiry key).setPhase i (.ended none))
          | .failed => some (s.setPhase i (.ended none))
      | _ => none

/-- No counter yet, and no call. -/
def LimiterState.init (now : ℚ) : LimiterState := ⟨now, fun _ => none, fun _ => .idle⟩

end ReckonFlow
