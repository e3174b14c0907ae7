import ReckonFlow.Lib.Paging
import ReckonFlow.Spec.Service

/-! The read operations of `services/ledger.py`, `services/travel.py` and `services/bank.py`.
The order of `code` is that of the database's collation, in which only equal strings tie. -/

namespace ReckonFlow

open Paging

variable (db : Db) (limit offset : ℕ)

/-- `get_transaction`, with its entries. -/
def getTransaction (transactionId : Id) : Except Error (LedgerTransaction × List LedgerEntry) := do
  let tx ← required db.ledgerTransactions "Ledger transaction" transactionId
  return (tx, entriesOf db tx.id)

def getApproval (approvalId : Id) : Except Error Approval := required db.approvals "Approval" approvalId

def getExpense (expenseId : Id) : Except Error Expense := required db.expenses "Expense" expenseId

def listAccounts {κ : Type} [LinearOrder κ] (collation : String ↪ κ) : List Account :=
  page limit offset (sortedDesc ((OrderDual.toDual ∘ collation) ∘ Account.code) db.accounts.rows)

def listTravelRequests : List TravelRequest :=
  page limit offset (sortedDesc (id ∘ TravelRequest.id) db.travelRequests.rows)

def listApprovals (status : Option ApprovalStatus) : List Approval :=
  page limit 0 (sortedDesc Approval.id
    (db.approvals.rows.filter fun a => status = none ∨ status = some a.status))

def listExpenses (travelRequestId : Option Id) : List Expense :=
  page limit offset (sortedDesc (id ∘ Expense.id)
    (db.expenses.rows.filter fun e => travelRequestId = none ∨ e.travelRequestId = travelRequestId))

/-- What statement rows are listed by: date, then id. -/
def BankTransaction.position (r : BankTransaction) : ℤ × ℤ := (r.bookingDate.ordinal, r.id)

def listTransactions (matchStatus : Option MatchStatus) : List BankTransaction :=
  page limit offset (sortedDesc (toLex ∘ BankTransaction.position)
    (db.bankTransactions.rows.filter fun r => matchStatus = none ∨ matchStatus = some r.matchStatus))

end ReckonFlow
