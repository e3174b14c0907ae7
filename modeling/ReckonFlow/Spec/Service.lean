import ReckonFlow.Lib.Lts
import ReckonFlow.Spec.Bank
import ReckonFlow.Spec.Reconciliation
import ReckonFlow.Spec.Travel

/-! The write operations of the services, one database transaction each: `get_db`
commits when the service returns, and an error leaves the tables as they were. -/

namespace ReckonFlow

inductive Op where
  | createAccount (code name currency : String)
  | createBalancedTransaction (reference description : String) (lines : List LedgerLine)
  | createTravelRequest (f : TripFields)
  | createExpense (f : ExpenseFields)
  | transitionApproval (approvalId : Id) (target : ApprovalStatus) (reviewer notes : Option String)
  | importCsv (parsed : List BankCsvRow)
  | suggestMatches (scan : Scan) (expenseId : Id) (limit : ℕ) (dateWindowDays : Option ℤ)
      (amountTolerance : Option ℚ)
  | confirmMatch (expenseId bankTransactionId : Id)
  | autoReconcile (scan : Scan) (expenseId : Id)

variable (env : Env) (settings : Settings) (db : Db)

/-- What the session holds when the service returns. -/
def Op.run : Op → Except Error Db
  | .createAccount code name currency => ReckonFlow.createAccount env db code name currency
  | .createBalancedTransaction reference description lines =>
      (ReckonFlow.createBalancedTransaction env db reference description lines).map (·.1)
  | .createTravelRequest f => ReckonFlow.createTravelRequest env db f
  | .createExpense f => ReckonFlow.createExpense env db f
  | .transitionApproval approvalId target reviewer notes =>
      ReckonFlow.transitionApproval env db approvalId target reviewer notes
  | .importCsv parsed => (insertPostgres env db parsed).map (·.1)
  | .suggestMatches scan expenseId limit dateWindowDays amountTolerance =>
      (ReckonFlow.suggestMatches env settings scan db expenseId limit dateWindowDays
        amountTolerance).map fun _ => db
  | .confirmMatch expenseId bankTransactionId =>
      (ReckonFlow.confirmMatch db expenseId bankTransactionId).map (·.1)
  | .autoReconcile scan expenseId =>
      (ReckonFlow.autoReconcile env settings scan db expenseId).map (·.1)

/-- The commit: the deferred trigger runs for every entry of the session. -/
def commit (before after : Db) : Except Error Db := do
  ((after.ledgerEntries.rows.filter fun e => before.ledgerEntries.next ≤ e.id).map
    (·.transactionId)).forM (checkBalanced after)
  return after

/-- One request: the committed tables after it. -/
def serve (op : Op) : Db :=
  match op.run env settings db >>= commit db with
  | .ok db' => db'
  | .error _ => db

/-- `serve` as the step of a transition system. -/
def ServeStep (db : Db) (op : Op) (db' : Db) : Prop := db' = serve env settings db op

end ReckonFlow
