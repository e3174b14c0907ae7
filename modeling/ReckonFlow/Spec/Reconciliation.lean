import ReckonFlow.Lib.Fallible
import ReckonFlow.Spec.Fusion

/-! `services/reconciliation.py`: suggestions, confirmation and auto-match as
functions on the committed tables. Each is one database transaction; on an error
the tables stay as they were. -/

namespace ReckonFlow

open Text

/-- `_OPEN_STATUSES`. -/
def openStatuses : List MatchStatus := [.unmatched, .suggested, .pendingReview]

def amountSimilarity (left right : ℚ) : ℚ :=
  let largest := max |left| |right|
  if largest = 0 then 1 else 1 - |(|left| - |right|)| / largest

def dateSimilarity (left right : Date) (windowDays : ℤ) : ℚ :=
  if windowDays ≤ 0 then if left = right then 1 else 0
  else max 0 (1 - |left.ordinal - right.ordinal| / windowDays)

/-- The order in which the database returns rows that no ORDER BY separates. -/
structure Scan where
  order : List BankTransaction → List BankTransaction
  perm : ∀ l, (order l).Perm l

/-- The WHERE clause of `_prefilter`. -/
def Survives (expense : Expense) (earliest latest : Date) (low high : ℚ)
    (row : BankTransaction) : Prop :=
  row.matchedExpenseId = none ∧ row.matchStatus ∈ openStatuses ∧ row.currency = expense.currency ∧
    (earliest.ordinal ≤ row.bookingDate.ordinal ∧ row.bookingDate.ordinal ≤ latest.ordinal) ∧
    ((low ≤ row.amount.value ∧ row.amount.value ≤ high) ∨
      (-high ≤ row.amount.value ∧ row.amount.value ≤ -low))

instance (expense : Expense) (earliest latest : Date) (low high : ℚ) (row : BankTransaction) :
    Decidable (Survives expense earliest latest low high row) :=
  inferInstanceAs (Decidable (_ ∧ _))

variable (env : Env) (settings : Settings) (scan : Scan) (db : Db)

def prefilter (expense : Expense) (window : ℤ) (tolerance : ℚ) :
    Except Error (List BankTransaction) := do
  let amount := |expense.amount.value|
  let slack := max (1 / 100) (amount * tolerance)
  let low := amount - slack
  let high := amount + slack
  let earliest ← expense.expenseDate.addDays (-window)
  let latest ← expense.expenseDate.addDays window
  let rows := scan.order
    (db.bankTransactions.rows.filter (Survives expense earliest latest low high ·))
  return rows.insertionSort fun a b => a.bookingDate.ordinal ≤ b.bookingDate.ordinal

/-- `_score` for one row. -/
def scoreRow (expense : Expense) (window : ℤ) (candidate : BankTransaction) : ScoredCandidate where
  bankTransaction := candidate
  fuzzyScore := env.tokenSetRatio (strip (expense.vendor ++ " " ++ expense.description))
    candidate.description
  amountScore := amountSimilarity expense.amount.value candidate.amount.value
  dateScore := dateSimilarity expense.expenseDate candidate.bookingDate window
  embeddingScore := match expense.embedding, candidate.embedding with
    | some (x :: xs), some (y :: ys) => some (env.cosineSimilarity (x :: xs) (y :: ys))
    | _, _ => none

def score (expense : Expense) (candidates : List BankTransaction) (window : ℤ) :
    List ScoredCandidate :=
  candidates.map (scoreRow env expense window)

/-- `suggest_matches` once the expense is loaded. -/
def rankCandidates (expense : Expense) (limit : ℕ) (dateWindowDays : Option ℤ)
    (amountTolerance : Option ℚ) : Except Error (List ScoredCandidate × ℕ) := do
  let window := dateWindowDays.getD settings.reconciliationDateWindowDays
  let tolerance := amountTolerance.getD settings.reconciliationAmountTolerance
  let candidates ← prefilter scan db expense window tolerance
  let ranked ← (if candidates.isEmpty then .ok []
    else fuse settings (score env expense candidates window) limit)
  return (ranked, candidates.length)

def suggestMatches (expenseId : Id) (limit : ℕ) (dateWindowDays : Option ℤ)
    (amountTolerance : Option ℚ) : Except Error (Expense × List ScoredCandidate × ℕ) := do
  let expense ← required db.expenses "Expense" expenseId
  let suggested ← rankCandidates env settings scan db expense limit dateWindowDays amountTolerance
  return (expense, suggested)

def Expense.setMatchStatus (e : Expense) (status : MatchStatus) : Expense :=
  { e with matchStatus := status }

/-- The two columns `confirm_match` writes on a bank row. -/
def BankTransaction.link (r : BankTransaction) (expenseId : Id) : BankTransaction :=
  { r with matchedExpenseId := some expenseId, matchStatus := .matched }

theorem Expense.setMatchStatus_id (status : MatchStatus) (e : Expense) :
    (e.setMatchStatus status).id = e.id := rfl

theorem BankTransaction.link_id (expenseId : Id) (r : BankTransaction) :
    (r.link expenseId).id = r.id := rfl

def Db.setMatchStatus (expenseId : Id) (status : MatchStatus) : Db :=
  { db with
    expenses := db.expenses.modify expenseId (·.setMatchStatus status)
      (Expense.setMatchStatus_id status) }

def Db.link (expenseId bankTransactionId : Id) : Db :=
  { db.setMatchStatus expenseId .matched with
    bankTransactions := db.bankTransactions.modify bankTransactionId (·.link expenseId)
      (BankTransaction.link_id expenseId) }

/-- The two checks `confirm_match` makes under the locks. -/
def checkOpen (expense : Expense) (bankRow : BankTransaction) (expenseId bankTransactionId : Id) :
    Except Error Unit := do
  let claimed := bankRow.matchedExpenseId.getD 0
  ensure (bankRow.matchedExpenseId = none ∨ bankRow.matchedExpenseId = some expenseId)
    (.conflict s!"Bank transaction {bankTransactionId} is already matched to expense {claimed}")
  ensure (expense.matchStatus ≠ .matched) (.conflict s!"Expense {expenseId} is already matched")

def confirmMatch (expenseId bankTransactionId : Id) : Except Error (Db × Id) := do
  let expense ← required db.expenses "Expense" expenseId
  let bankRow ← required db.bankTransactions "Bank transaction" bankTransactionId
  checkOpen expense bankRow expenseId bankTransactionId
  -- the unique constraint on `matched_expense_id`, checked by the flush
  ensure (∀ r ∈ db.bankTransactions.rows, r.matchedExpenseId = some expenseId →
    r.id = bankTransactionId) (.integrity "bank_transactions_matched_expense_id_key")
  return (db.link expenseId bankTransactionId, bankRow.id)

def flagForReview (expenseId : Id) : Except Error Db := do
  let expense ← required db.expenses "Expense" expenseId
  return db.setMatchStatus expense.id .pendingReview

/-- `auto_reconcile` after the suggestions: the id of the row claimed, `none` when parked. -/
def settle (expenseId : Id) (ranked : List ScoredCandidate) : Except Error (Db × Option Id) :=
  match autoDecision ranked with
  | none => (flagForReview db expenseId).map fun db' => (db', none)
  | some best => (confirmMatch db expenseId best).map fun r => (r.1, some r.2)

def autoReconcile (expenseId : Id) : Except Error (Db × Option Id) := do
  let suggested ← suggestMatches env settings scan db expenseId 2 none none
  settle db expenseId suggested.2.1

end ReckonFlow
