import ReckonFlow.Spec.Idempotency

/-! `get_db` under the idempotency middleware. The code behind its `yield` runs once the
application has sent its response, so the commit, the final `SET` of the middleware and the
delivery to the client follow in any order. -/

namespace ReckonFlow.Commits

/-- The transaction of a request. -/
inductive Session where
  | opened
  | committed
  | rolledBack
  deriving DecidableEq

def Session.rollback : Session → Session
  | .committed => .committed
  | _ => .rolledBack

/-- A status 2xx. -/
def Success (status : ℤ) : Prop := 200 ≤ status ∧ status < 300

instance (status : ℤ) : Decidable (Success status) := inferInstanceAs (Decidable (_ ∧ _))

/-- The middleware with the transactions of its requests. `source` tells which request wrote the
response a replay returns and `delivered` what clients have got, each response with the
request whose application made it. -/
structure State where
  middleware : ReckonFlow.State
  session : ℕ → Session
  source : ℕ → Option ℕ
  delivered : List (ℕ × Response)

inductive Event where
  /-- one await of the middleware, the call of the application among them -/
  | dispatch (e : ReckonFlow.Event)
  /-- the commit of `get_db`, which may fail: a deferred trigger, a serialization failure, a
  lost connection -/
  | commit (i : ℕ) (effective : Bool)
  /-- the response of request `i` reaches its client -/
  | deliver (i : ℕ)

variable (M : Middleware) (req : ℕ → Request)

/-- `get_db` rolls back what raises; error responses are made from exceptions. -/
def sessionAfter (session : ℕ → Session) : ReckonFlow.Event → ℕ → Session
  | .raise i => Function.update session i (session i).rollback
  | .finish i r =>
      if Success r.status then session else Function.update session i (session i).rollback
  | _ => session

/-- A read remembers who wrote what it reads. -/
def sourceAfter (s : State) : ReckonFlow.Event → ℕ → Option ℕ
  | .read i true => Function.update s.source i
      ((keyOf M (req i)).bind fun key => (s.middleware.redis key).bind (·.writer))
  | _ => s.source

/-- The application has sent its response. -/
def Responded : Phase → Prop
  | .storing _ | .ended (.answered _) | .ended (.passed _) => True
  | _ => False

instance : DecidablePred Responded
  | .storing _ | .ended (.answered _) | .ended (.passed _) => .isTrue trivial
  | .idle | .reading _ | .deleting _ | .reclaiming | .running _ | .ended (.conflict _)
  | .ended (.replay _) | .ended .raised | .ended .crashed => .isFalse id

/-- What the client of `i` gets of an application. -/
def announcement (s : State) (i : ℕ) : Option (ℕ × Response) :=
  match s.middleware.phase i with
  | .ended (.answered r) | .ended (.passed r) => some (i, r)
  | .ended (.replay r) => (s.source i).map fun j => (j, r)
  | _ => none

def step (s : State) : Event → Option State
  | .dispatch e => (dispatchStep M req s.middleware e).map fun m =>
      { s with
        middleware := m
        session := sessionAfter s.session e
        source := sourceAfter M req s e }
  | .commit i effective =>
      if Responded (s.middleware.phase i) ∧ s.session i = .opened then
        some { s with
          session := Function.update s.session i (if effective then .committed else .rolledBack) }
      else none
  | .deliver i => match s.middleware.phase i with
      | .ended _ => some { s with delivered := s.delivered ++ (announcement s i).toList }
      | _ => none

/-- Nothing sent yet; Redis may hold what earlier processes left. -/
def State.init (redis : String → Option Stored) : State where
  middleware := ReckonFlow.State.init fun key => (redis key).map fun value => ⟨value, none⟩
  session _ := .opened
  source _ := none
  delivered := []

end ReckonFlow.Commits
