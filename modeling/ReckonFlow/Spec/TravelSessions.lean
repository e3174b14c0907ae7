import ReckonFlow.Lib.Locks
import ReckonFlow.Spec.Service

/-! Approval transitions, manual posts and new expenses as concurrent sessions at READ
COMMITTED. A session keeps the lock of its approval and, in the unique index, the
reference of its ledger transaction to its end; its rows enter the tables when it commits. -/

namespace ReckonFlow.TravelSession

inductive Request where
  | transition (approvalId : Id) (target : ApprovalStatus) (reviewer notes : Option String)
  | post (p : Posting)
  | expense (f : ExpenseFields)

/-- What a session has flushed. `payment` is there when the target is PAID, with the tables
its amount was read from. -/
inductive Write where
  | decision (approval : Approval) (target : ApprovalStatus) (reviewer notes : Option String)
      (payment : Option (Posting × Db))
  | post (p : Posting)
  | expense (f : ExpenseFields)

inductive Phase where
  | idle
  /-- the approval is locked and the transition allowed -/
  | decided (approval : Approval)
  /-- the payment is computed -/
  | priced (approval : Approval) (posting : Posting) (seen : Db)
  /-- the payment is flushed -/
  | paying (approval : Approval) (posting : Posting) (seen : Db)
  | flushed (w : Write)
  | committed
  | failed (e : Error)
  | aborted

/-- A ledger transaction committed by a transition to PAID, with the tables its amount was
read from. -/
structure Payment where
  approvalId : Id
  txId : Id
  seen : Db

/-- The committed tables and the locks; `history` and `payments` record what was committed. -/
structure State where
  db : Db
  approvalLock : Locks Id
  referenceLock : Locks String
  phase : ℕ → Phase
  /-- the statuses each approval was seen with, latest last -/
  history : Id → List ApprovalStatus
  payments : List Payment

inductive Event where
  /-- accounts and trips come from requests served whole -/
  | account (code name currency : String)
  | trip (f : TripFields)
  /-- SELECT FOR UPDATE of the approval, and the check of the transition -/
  | lock (i : ℕ)
  /-- the reads of `_post_payment_ledger`: trips and accounts never change, so only the sum
  depends on the moment -/
  | price (i : ℕ)
  /-- the INSERTs of `create_balanced_transaction` -/
  | post (i : ℕ)
  /-- the UPDATE of the approval -/
  | decide (i : ℕ)
  | expense (i : ℕ)
  | commit (i : ℕ)
  | abort (i : ℕ)

def State.setPhase (s : State) (i : ℕ) (p : Phase) : State :=
  { s with phase := Function.update s.phase i p }

@[simp] theorem setPhase_self (s : State) (i : ℕ) (p : Phase) : (s.setPhase i p).phase i = p :=
  Function.update_self ..

theorem setPhase_of_ne (s : State) {i j : ℕ} (p : Phase) (h : j ≠ i) :
    (s.setPhase i p).phase j = s.phase j := Function.update_of_ne h ..

/-- The end of a transaction. -/
def State.release (s : State) (i : ℕ) : State :=
  { s with
    approvalLock := s.approvalLock.release i
    referenceLock := s.referenceLock.release i }

def State.fail (s : State) (i : ℕ) (p : Phase) : State := (s.release i).setPhase i p

def State.lockApproval (s : State) (i : ℕ) (a : Id) : State :=
  { s with approvalLock := s.approvalLock.take i a }

/-- What the unique index holds of a posting. -/
def indexKey (p : Posting) : String := String.ofList (p.reference.toList.take 64)

def State.lockReference (s : State) (i : ℕ) (p : Posting) : State :=
  { s with referenceLock := s.referenceLock.take i (indexKey p) }

/-- A status is added to the history when it differs from the last one seen. -/
def observed (history : List ApprovalStatus) : Option Approval → List ApprovalStatus
  | none => history
  | some a => if history.getLast? = some a.status then history else history ++ [a.status]

/-- The tables after a commit. -/
def State.publish (s : State) (db : Db) (payments : List Payment) : State :=
  { s with
    db := db
    history := fun i => observed (s.history i) (db.approvals.get i)
    payments := s.payments ++ payments }

variable (env : Env) (req : ℕ → Request)

/-- A request served whole. -/
def State.serve (s : State) : Except Error Db → State
  | .ok db => s.publish db []
  | .error _ => s

/-- The rows of a ledger transaction, inserted by session `i`: an uncommitted transaction
with the same reference is waited for. -/
def State.post (s : State) (i : ℕ) (p : Posting) (next : Phase) : Option State :=
  if s.referenceLock.Free i (indexKey p) then
    some (match p.post env s.db with
      | .ok _ => (s.lockReference i p).setPhase i next
      | .error err => s.fail i (.failed err))
  else none

/-- The status of an approval, written by session `i`. -/
def State.decide (s : State) (i : ℕ) (approval : Approval) (target : ApprovalStatus)
    (reviewer notes : Option String) (payment : Option (Posting × Db)) : State :=
  match writeDecision s.db approval.id target reviewer notes with
  | .ok _ => s.setPhase i (.flushed (.decision approval target reviewer notes payment))
  | .error err => s.fail i (.failed err)

/-- The flushed rows in the tables of the moment, and the payment among them. -/
def Write.apply (db : Db) : Write → Except Error (Db × List Payment)
  | .decision approval target reviewer notes none =>
      (writeDecision db approval.id target reviewer notes).map (·, [])
  | .decision approval target reviewer notes (some (p, seen)) => do
      let (posted, txId) ← p.post env db
      let written ← writeDecision posted approval.id target reviewer notes
      return (written, [⟨approval.id, txId, seen⟩])
  | .post p => (p.post env db).map fun r => (r.1, [])
  | .expense f => (insertExpense env db f).map (·, [])

/-- The commit, with the trigger deferred to it. -/
def Write.commit (db : Db) (w : Write) : Except Error (Db × List Payment) := do
  let (after, payments) ← w.apply env db
  let db' ← ReckonFlow.commit db after
  return (db', payments)

/-- One statement of session `i`; `none` where it waits or does not stand there. -/
def step (s : State) : Event → Option State
  | .account code name currency => some (s.serve (createAccount env s.db code name currency))
  | .trip f => some (s.serve (createTravelRequest env s.db f))
  | .lock i => match s.phase i, req i with
      | .idle, .transition a target _ _ =>
          if s.approvalLock.Free i a then
            some (match required s.db.approvals "Approval" a with
              | .ok approval => match checkTransition approval target with
                  | .ok _ => (s.lockApproval i a).setPhase i (.decided approval)
                  | .error err => s.fail i (.failed err)
              | .error err => s.fail i (.failed err))
          else none
      | _, _ => none
  | .price i => match s.phase i, req i with
      | .decided approval, .transition _ .paid _ _ =>
          some (match paymentPosting s.db approval with
            | .ok posting => s.setPhase i (.priced approval posting s.db)
            | .error err => s.fail i (.failed err))
      | _, _ => none
  | .post i => match s.phase i, req i with
      | .priced approval posting seen, _ => s.post env i posting (.paying approval posting seen)
      | .idle, .post p => s.post env i p (.flushed (.post p))
      | _, _ => none
  | .decide i => match s.phase i, req i with
      | .decided approval, .transition _ target reviewer notes =>
          if target = .paid then none
          else some (s.decide i approval target reviewer notes none)
      | .paying approval posting seen, .transition _ target reviewer notes =>
          some (s.decide i approval target reviewer notes (some (posting, seen)))
      | _, _ => none
  | .expense i => match s.phase i, req i with
      | .idle, .expense f => some (match createExpense env s.db f with
          | .ok _ => s.setPhase i (.flushed (.expense f))
          | .error err => s.fail i (.failed err))
      | _, _ => none
  | .commit i => match s.phase i with
      | .flushed w => some (match w.commit env s.db with
          | .ok r => ((s.publish r.1 r.2).release i).setPhase i .committed
          | .error err => s.fail i (.failed err))
      | _ => none
  | .abort i => match s.phase i with
      | .committed | .failed _ | .aborted => none
      | _ => some (s.fail i .aborted)

/-- Empty tables and no request sent. -/
def State.init : State :=
  ⟨Db.empty, fun _ => none, fun _ => none, fun _ => .idle, fun _ => [], []⟩

end ReckonFlow.TravelSession
