import ReckonFlow.Lib.Machine
import ReckonFlow.Spec.Gateway

/-! Requests served one after another with a healthy Redis, no expiry and the rate limit
off: the idempotency middleware and the application below it as one function on the stored
entries and the database. -/

namespace ReckonFlow.Gateway

open Text

/-- The application with its handlers, which see the request and the database; `none` stands
for an exception no one catches. -/
structure Backend (σ : Type) extends App where
  handle : Request → σ → Option Response × σ
  /-- the routes outside `api_router` only read -/
  probe : Request → σ → Option Response

structure World (σ : Type) where
  redis : String → Option Stored
  db : σ

variable {σ : Type} (M : Middleware) (backend : Backend σ)

/-- The application below the middleware. -/
def Backend.call (backend : Backend σ) (db : σ) (r : Request) : Option Response × σ :=
  match backend.refuse r with
  | some refusal => (some refusal, db)
  | none =>
      if isFinance r then
        match backend.checkKey r with
        | .pass => backend.handle r db
        | .reject => (some unauthorized, db)
        | .raise => (none, db)
      else (backend.probe r db, db)

def World.put (w : World σ) (key : String) (v : Stored) : World σ :=
  { w with redis := Function.update w.redis key (some v) }

/-- The application called under a claim: its response is captured, stored and rebuilt; an
exception leaves the claim. -/
def execute (w : World σ) (r : Request) (key : String) : Outcome × World σ :=
  match backend.call w.db r with
  | (some resp, db) =>
      let c := capture resp (bodyFingerprint M r.body)
      (match rebuild c.fields with
        | some rebuilt => .answered rebuilt
        | none => .crashed, { w with db := db }.put key (.json (.obj c.fields)))
  | (none, db) => (.raised, { w with db := db }.put key (claimPayload (bodyFingerprint M r.body)))

def dispatch (w : World σ) (r : Request) : Outcome × World σ :=
  match keyOf M r with
  | none => match backend.call w.db r with
      | (some resp, db) => (.passed resp, { w with db := db })
      | (none, db) => (.raised, { w with db := db })
  | some key => match w.redis key with
      | none => execute M backend w r key
      | some v => match handleExisting (bodyFingerprint M r.body) (some v) with
          -- a corrupt entry is deleted, and the second `SET NX` claims the key
          | .reclaim | .discard => execute M backend w r key
          | .conflict detail => (.conflict detail, w)
          | .replay resp => (.replay resp, w)
          | .crash => (.crashed, w)

/-- Status and body of what the client receives; the request id changes neither. -/
def statusAndBody : Outcome → ℤ × List UInt8
  | .conflict detail => ((conflict detail).status, (conflict detail).body)
  | .replay resp | .answered resp | .passed resp => (resp.status, resp.body)
  | .raised | .crashed => (serverError.status, serverError.body)

end ReckonFlow.Gateway
