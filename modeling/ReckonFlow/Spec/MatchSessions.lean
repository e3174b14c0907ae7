import ReckonFlow.Lib.Locks
import ReckonFlow.Lib.Lts
import ReckonFlow.Spec.Reconciliation

/-! `confirm_match` and `auto_reconcile` as concurrent sessions: one transaction per
request at READ COMMITTED, row locks held to its end, and one identity map per session,
in which a row keeps the values it was first loaded with. -/

namespace ReckonFlow.MatchSession

inductive Request where
  | confirm (expenseId bankTransactionId : Id)
  | auto (expenseId : Id)
  deriving DecidableEq

/-- The rows of the identity map that `confirm_match` will meet again. -/
structure IdentityMap where
  expense : Option Expense := none
  bankRow : Option BankTransaction := none

/-- What `flush` has sent, with the rows as the session loaded them. -/
inductive Write where
  /-- `flag_for_review` -/
  | park (expense : Expense)
  /-- `confirm_match` -/
  | link (expense : Expense) (bankRow : BankTransaction)

def writeStatus (loaded : Expense) (status : MatchStatus) (current : Expense) : Expense :=
  current.setMatchStatus (written loaded.matchStatus status current.matchStatus)

def writeLink (loaded : BankTransaction) (expenseId : Id) (current : BankTransaction) :
    BankTransaction :=
  { current with
    matchedExpenseId := written loaded.matchedExpenseId (some expenseId) current.matchedExpenseId
    matchStatus := written loaded.matchStatus .matched current.matchStatus }

def writeExpense (db : Db) (loaded : Expense) (status : MatchStatus) : Db :=
  { db with
    expenses := db.expenses.modify loaded.id (writeStatus loaded status) fun _ => rfl }

def Write.apply (db : Db) : Write → Db
  | .park expense => writeExpense db expense .pendingReview
  | .link expense bankRow =>
      { writeExpense db expense .matched with
        bankTransactions := db.bankTransactions.modify bankRow.id (writeLink bankRow expense.id)
          fun _ => rfl }

/-- The links a write makes. -/
def Write.links : Write → List (Id × Id)
  | .park _ => []
  | .link expense bankRow => [(expense.id, bankRow.id)]

inductive Phase where
  | idle
  /-- `auto_reconcile` has its expense -/
  | loaded (expense : Expense)
  /-- in `flag_for_review` -/
  | parking (expense : Expense)
  /-- in `confirm_match`, before the first lock -/
  | confirming (expenseId bankTransactionId : Id) (map : IdentityMap)
  | expenseLocked (bankTransactionId : Id) (expense : Expense) (cached : Option BankTransaction)
  | bothLocked (expense : Expense) (bankRow : BankTransaction)
  | flushed (w : Write)
  | committed
  | failed (e : Error)
  | aborted

/-- The committed tables, the row locks, and `links`, the matches committed so far. -/
structure State where
  db : Db
  expenseLock : Locks Id
  bankLock : Locks Id
  phase : ℕ → Phase
  links : List (Id × Id)

inductive Event where
  /-- the request enters its service; for an auto-match, `session.get` -/
  | start (i : ℕ)
  /-- the candidate SELECT, ranked and decided on -/
  | rank (i : ℕ) (scan : Scan)
  /-- the two SELECTs FOR UPDATE -/
  | lockExpense (i : ℕ)
  | lockBank (i : ℕ)
  | flush (i : ℕ)
  | commit (i : ℕ)
  /-- any failure from outside, or a deadlock broken by the database -/
  | abort (i : ℕ)

def State.setPhase (s : State) (i : ℕ) (p : Phase) : State :=
  { s with phase := Function.update s.phase i p }

@[simp] theorem setPhase_self (s : State) (i : ℕ) (p : Phase) : (s.setPhase i p).phase i = p :=
  Function.update_self ..

theorem setPhase_of_ne (s : State) {i j : ℕ} (p : Phase) (h : j ≠ i) :
    (s.setPhase i p).phase j = s.phase j := Function.update_of_ne h ..

/-- The end of a transaction. -/
def State.release (s : State) (i : ℕ) : State :=
  { s with
    expenseLock := s.expenseLock.release i
    bankLock := s.bankLock.release i }

def State.fail (s : State) (i : ℕ) (p : Phase) : State := (s.release i).setPhase i p

def State.lockExpense (s : State) (i : ℕ) (e : Id) : State :=
  { s with expenseLock := s.expenseLock.take i e }

def State.lockBank (s : State) (i : ℕ) (b : Id) : State :=
  { s with bankLock := s.bankLock.take i b }

/-- A commit makes the writes visible. -/
def State.write (s : State) (w : Write) : State :=
  { s with db := w.apply s.db, links := s.links ++ w.links }

/-- `auto_reconcile` after the ranking: `confirm_match` runs in the same session. -/
def decided (expense : Expense) (ranked : List ScoredCandidate) : Phase :=
  match autoDecision ranked with
  | none => .parking expense
  | some best => .confirming expense.id best
      ⟨some expense, (ranked.map (·.bankTransaction)).find? (·.id = best)⟩

/-- The unique constraint on `matched_expense_id`. -/
def Unclaimed (db : Db) (expense : Expense) (bankRow : BankTransaction) : Prop :=
  ∀ r ∈ db.bankTransactions.rows, r.matchedExpenseId = some expense.id → r.id = bankRow.id

instance (db : Db) (expense : Expense) (bankRow : BankTransaction) :
    Decidable (Unclaimed db expense bankRow) :=
  inferInstanceAs (Decidable (∀ r ∈ db.bankTransactions.rows, _))

variable (env : Env) (settings : Settings) (req : ℕ → Request)

/-- One statement of session `i`; `none` where it waits or does not stand there. -/
def step (s : State) : Event → Option State
  | .start i => match s.phase i, req i with
      | .idle, .confirm e b => some (s.setPhase i (.confirming e b {}))
      | .idle, .auto e => some (match required s.db.expenses "Expense" e with
          | .ok expense => s.setPhase i (.loaded expense)
          | .error err => s.fail i (.failed err))
      | _, _ => none
  | .rank i scan => match s.phase i with
      | .loaded expense =>
          some (match rankCandidates env settings scan s.db expense 2 none none with
            | .ok suggested => s.setPhase i (decided expense suggested.1)
            | .error err => s.fail i (.failed err))
      | _ => none
  | .lockExpense i => match s.phase i with
      | .confirming e b map =>
          if s.expenseLock.Free i e then
            some (match required s.db.expenses "Expense" e with
              | .ok current => (s.lockExpense i e).setPhase i
                  (.expenseLocked b (map.expense.getD current) map.bankRow)
              | .error err => s.fail i (.failed err))
          else none
      | _ => none
  | .lockBank i => match s.phase i with
      | .expenseLocked b expense cached =>
          if s.bankLock.Free i b then
            some (match required s.db.bankTransactions "Bank transaction" b with
              | .ok current => (s.lockBank i b).setPhase i
                  (.bothLocked expense (cached.getD current))
              | .error err => s.fail i (.failed err))
          else none
      | _ => none
  | .flush i => match s.phase i with
      | .bothLocked expense bankRow =>
          some (match checkOpen expense bankRow expense.id bankRow.id with
            -- another writer of a clashing row is waited for: the step is then taken later
            | .ok _ => if Unclaimed s.db expense bankRow
                then s.setPhase i (.flushed (.link expense bankRow))
                else s.fail i (.failed (.integrity "bank_transactions_matched_expense_id_key"))
            | .error err => s.fail i (.failed err))
      | .parking expense =>
          if expense.matchStatus = .pendingReview then
            some (s.setPhase i (.flushed (.park expense)))
          else if s.expenseLock.Free i expense.id then
            some ((s.lockExpense i expense.id).setPhase i (.flushed (.park expense)))
          else none
      | _ => none
  | .commit i => match s.phase i with
      | .flushed w => some (((s.write w).release i).setPhase i .committed)
      | _ => none
  | .abort i => match s.phase i with
      | .committed | .failed _ | .aborted => none
      | _ => some (s.fail i .aborted)

/-- Before the first request. -/
def State.init (db : Db) : State := ⟨db, fun _ => none, fun _ => none, fun _ => .idle, []⟩

end ReckonFlow.MatchSession
