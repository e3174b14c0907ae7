import ReckonFlow.Spec.Service

/-! The session of `core/db.py` as a service call finds and leaves it: what the transaction has
flushed, what is pending, and the approvals loaded with their attributes. `autoflush` is off, so
only `flush` and the commit write. -/

namespace ReckonFlow.UnitOfWork

/-- What the CHECKs, unique indexes and column types refuse. -/
def FromDatabase : Error → Prop
  | .data _ | .integrity _ => True
  | _ => False

/-- Pending rows and changes of the other tables, which only the database can refuse. -/
structure OtherWrite where
  run : Db → Except Error Db
  ledger : ∀ db db', run db = .ok db' →
    db'.ledgerTransactions = db.ledgerTransactions ∧ db'.ledgerEntries = db.ledgerEntries
  refused : ∀ db e, run db = .error e → FromDatabase e

/-- An approval in the identity map: as it was loaded, and as its attributes are. -/
structure Loaded where
  row : Approval
  now : Approval
  same : now.id = row.id

def Loaded.clean (row : Approval) : Loaded := ⟨row, row, rfl⟩

structure Session where
  /-- the database when the transaction began -/
  committed : Db
  /-- what the transaction sees: that, and what it has flushed -/
  db : Db
  /-- a failed flush leaves the transaction to be rolled back -/
  active : Bool
  others : List OtherWrite
  /-- reference and description of the transactions added -/
  transactions : List (String × String)
  /-- the entries added, each with its transaction -/
  entries : List (Id × ParsedLine)
  loaded : List Loaded

def Session.opened (committed : Db) : Session := ⟨committed, committed, true, [], [], [], []⟩

inductive SessionError where
  | service (e : Error)
  /-- `InvalidRequestError`: a flush failed before, or the row to refresh is gone -/
  | invalidRequest

/-- A call: on failure the session stays as it is by then. -/
abbrev Call := EStateM SessionError Session

/-! ## The session -/

/-- SELECTs. -/
def read {α : Type} (query : Db → Except Error α) : Call α := fun s =>
  if s.active then match query s.db with
    | .ok a => .ok a s
    | .error e => .error (.service e) s
  else .error .invalidRequest s

/-- A test of the service itself. -/
def check {α : Type} (x : Except Error α) : Call α := fun s => match x with
  | .ok a => .ok a s
  | .error e => .error (.service e) s

def Loaded.changed (i : Loaded) : Bool := i.row ≠ i.now

/-- The UPDATE of an approval names the columns that changed. -/
def updateApproval (db : Db) (i : Loaded) : Except Error Db := do
  let reviewer ← nullable (varchar "reviewer" 120) i.now.reviewer
  let notes ← nullable (text "notes") i.now.notes
  return { db with
    approvals := db.approvals.modify i.row.id (fun a => { a with
      status := written i.row.status i.now.status a.status
      reviewer := written i.row.reviewer reviewer a.reviewer
      notes := written i.row.notes notes a.notes }) fun _ => rfl }

/-- The statements of a flush, table by table. -/
def Session.statements (s : Session) : Except Error Db := do
  let db ← s.others.foldlM (fun db write => write.run db) s.db
  let db ← s.transactions.foldlM (fun db t => (insertTransaction db t.1 t.2).map (·.1)) db
  let db ← s.entries.foldlM (fun db e => insertReferenced e.1 db e.2) db
  (s.loaded.filter (·.changed)).foldlM updateApproval db

def Session.flushed (s : Session) (db : Db) : Session := { s with
  db := db
  others := []
  transactions := []
  entries := []
  loaded := s.loaded.map fun i => .clean i.now }

@[simp] theorem flushed_db (s : Session) (db : Db) : (s.flushed db).db = db := rfl
@[simp] theorem flushed_entries (s : Session) (db : Db) : (s.flushed db).entries = [] := rfl

/-- Rolled back, with what was pending expunged. -/
def Session.failed (s : Session) : Session := { s with
  db := s.committed
  active := false
  others := []
  transactions := []
  entries := []
  loaded := [] }

/-- `session.flush()` -/
def flush : Call Unit := fun s =>
  if s.active then match s.statements with
    | .ok db => .ok () (s.flushed db)
    | .error e => .error (.service e) s.failed
  else .error .invalidRequest s

/-- The commit flushes and runs the deferred trigger. -/
def Session.commit (s : Session) : Except SessionError Db :=
  if s.active then match s.statements >>= ReckonFlow.commit s.committed with
    | .ok db => .ok db
    | .error e => .error (.service e)
  else .error .invalidRequest

def Session.rollback (s : Session) : Db := s.committed

/-- `get_db` around a call: the result, and the database after it. -/
def getDb {α : Type} (committed : Db) (body : Call α) : Except SessionError α × Db :=
  match body (Session.opened committed) with
  | .error e s => (.error e, s.rollback)
  | .ok a s => match s.commit with
      | .ok db => (.ok a, db)
      | .error e => (.error e, s.rollback)

/-! ## `create_balanced_transaction` -/

variable (env : Env)

def addTransaction (reference description : String) : Call Unit :=
  modify fun s => { s with transactions := s.transactions ++ [(reference, description)] }

def addEntry (transactionId : Id) (line : ParsedLine) : Call Unit :=
  modify fun s => { s with entries := s.entries ++ [(transactionId, line)] }

/-- `tx.id` of the transaction added last, once it is flushed. -/
def lastTransaction : Call Id := fun s => .ok (s.db.ledgerTransactions.next - 1) s

def createBalancedTransaction (reference description : String) (lines : List LedgerLine) : Call Id := do
  check (ensure (2 ≤ lines.length) (.unbalancedLedger "Need at least two ledger lines"))
  let parsed ← lines.foldlM (fun acc raw => read (addLine env · acc raw)) ([], [])
  check (checkTotals parsed.2)
  addTransaction reference description
  flush
  let txId ← lastTransaction
  parsed.1.forM (addEntry txId)
  flush
  return txId

/-! ## `transition_approval` -/

/-- An approval as the session has it: an instance that is loaded keeps its attributes. -/
def Session.approval (s : Session) (approvalId : Id) : Option Approval :=
  (s.db.approvals.get approvalId).map fun row =>
    match s.loaded.find? (·.row.id = approvalId) with
    | some i => i.now
    | none => row

/-- The instance of a row that was read. -/
def load (row : Approval) : Call Approval := fun s =>
  match s.loaded.find? (·.row.id = row.id) with
  | some i => .ok i.now s
  | none => .ok row { s with loaded := s.loaded ++ [.clean row] }

/-- SELECT FOR UPDATE of one approval. -/
def selectForUpdate (approvalId : Id) : Call Approval := do
  let row ← read fun db => required db.approvals "Approval" approvalId
  load row

/-- `_post_payment_ledger` -/
def postPaymentLedger (approval : Approval) : Call Id := do
  let posting ← read (paymentPosting · approval)
  createBalancedTransaction env posting.reference posting.description posting.lines

def Loaded.decided (i : Loaded) (target : ApprovalStatus) (reviewer notes : Option String) : Loaded :=
  ⟨i.row, i.now.decided target reviewer notes, i.same⟩

/-- The attributes of an approval, set on the instance. -/
def setDecision (approvalId : Id) (target : ApprovalStatus) (reviewer notes : Option String) : Call Unit :=
  modify fun s => { s with
    loaded := s.loaded.map fun i => if i.row.id = approvalId then i.decided target reviewer notes else i }

/-- The row read again into its instance. -/
def refresh (approvalId : Id) : Call Approval := fun s =>
  match s.db.approvals.get approvalId with
  | some row => .ok row { s with
      loaded := s.loaded.map fun i => if i.row.id = approvalId then .clean row else i }
  | none => .error .invalidRequest s

def transitionApproval (approvalId : Id) (target : ApprovalStatus) (reviewer notes : Option String) :
    Call Approval := do
  let approval ← selectForUpdate approvalId
  check (checkTransition approval target)
  if target = .paid then
    let _ ← postPaymentLedger env approval
  setDecision approvalId target reviewer notes
  flush
  refresh approvalId

/-! ## Calls in one session -/

/-- The calls that write in more than one table. -/
inductive ServiceCall where
  | post (reference description : String) (lines : List LedgerLine)
  | transition (approvalId : Id) (target : ApprovalStatus) (reviewer notes : Option String)

inductive ServiceReply where
  | posted (transactionId : Id)
  | decided (approval : Approval)
  deriving DecidableEq

def ServiceCall.op : ServiceCall → Op
  | .post reference description lines => .createBalancedTransaction reference description lines
  | .transition approvalId target reviewer notes => .transitionApproval approvalId target reviewer notes

def ServiceCall.inSession : ServiceCall → Call ServiceReply
  | .post reference description lines =>
      .posted <$> createBalancedTransaction env reference description lines
  | .transition approvalId target reviewer notes =>
      .decided <$> transitionApproval env approvalId target reviewer notes

/-- The call as a function of the tables. -/
def ServiceCall.onTables : ServiceCall → StateT Db (Except Error) ServiceReply
  | .post reference description lines => fun db => do
      let (after, txId) ← ReckonFlow.createBalancedTransaction env db reference description lines
      return (.posted txId, after)
  | .transition approvalId target reviewer notes => fun db => do
      let after ← ReckonFlow.transitionApproval env db approvalId target reviewer notes
      let approval ← required after.approvals "Approval" approvalId
      return (.decided approval, after)

/-- Functions of the tables between the begin and the commit of one transaction. -/
def transacted {α : Type} (committed : Db) (f : StateT Db (Except Error) α) : Except Error α × Db :=
  match f committed >>= fun p => (ReckonFlow.commit committed p.2).map fun after => (p.1, after) with
  | .ok (a, after) => (.ok a, after)
  | .error e => (.error e, committed)

end ReckonFlow.UnitOfWork
