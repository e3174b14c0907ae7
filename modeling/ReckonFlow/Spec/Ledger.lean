import ReckonFlow.Lib.Fallible
import ReckonFlow.Lib.Text
import ReckonFlow.Spec.Json
import ReckonFlow.Spec.Models

/-! `services/ledger.py`: accounts, balanced transactions and balances, with the
triggers of the migrations. -/

namespace ReckonFlow

variable (env : Env) (db : Db)

/-- An account code is unique; the integrity error is turned into a conflict. -/
def createAccount (code name currency : String) : Except Error Db := do
  let storedCode ← varchar "code" 32 code
  let storedName ← varchar "name" 120 name
  let storedCurrency ← varchar "currency" 3 (env.upper currency)
  let shown := reprStr code
  ensure (∀ a ∈ db.accounts.rows, a.code ≠ storedCode)
    (.conflict s!"Account code {shown} already exists")
  return { db with
    accounts := db.accounts.insert (⟨·, storedCode, storedName, storedCurrency⟩) fun _ => rfl }

def getAccount (accountId : Id) : Except Error Account := required db.accounts "Account" accountId

/-- One line as callers pass it. An amount is the `Decimal` it parses to; `none` stands for
what `parse_money` refuses and for a `Decimal` that is not finite, neither of which reaches
the database. -/
structure LedgerLine where
  accountId : Id
  debit : Option ℚ := some 0
  credit : Option ℚ := some 0
  currency : String := "EUR"
  memo : Option String := none

/-- A line of `parsed`. -/
structure ParsedLine where
  accountId : Id
  debit : ℚ
  credit : ℚ
  currency : String
  memo : Option String
  deriving DecidableEq

def parseMoney : Option ℚ → Except Error ℚ
  | some q => .ok q
  | none => .error (.value "Cannot parse money")

/-- Addition in the default context of `decimal`. -/
def decimalAdd (a b : ℚ) : ℚ := Decimal.add 28 a b

/-- The same with the context's trap: past the exponent `Emax = 999999` Python raises. -/
def decimalSum (a b : ℚ) : Except Error ℚ :=
  if 999999 < Int.log 10 |decimalAdd a b| then .error .overflow else .ok (decimalAdd a b)

/-- The totals `(debit, credit)` of each currency, in order of first use. -/
abbrev Buckets := List (String × (ℚ × ℚ))

/-- The two additions to the bucket of a line. -/
def addToBucket (buckets : Buckets) (currency : String) (debit credit : ℚ) :
    Except Error Buckets := do
  let bucket := (Dict.get buckets currency).getD (0, 0)
  let debits ← decimalSum bucket.1 debit
  let credits ← decimalSum bucket.2 credit
  return Dict.set buckets currency (debits, credits)

/-- One turn of the loop over `lines`. -/
def addLine (acc : List ParsedLine × Buckets) (raw : LedgerLine) :
    Except Error (List ParsedLine × Buckets) := do
  let debit ← parseMoney raw.debit
  let credit ← parseMoney raw.credit
  let currency := env.upper raw.currency
  ensure (¬ ((0 < debit ∧ 0 < credit) ∨ (debit = 0 ∧ credit = 0)))
    (.unbalancedLedger "Each line must be either a debit or a credit, not both or neither")
  let account ← getAccount db raw.accountId
  let shown := reprStr currency
  let shownCode := reprStr account.code
  let shownCurrency := reprStr account.currency
  ensure (currency = env.upper account.currency) (.unbalancedLedger <|
    s!"Entry currency {shown} must match account {shownCode} currency {shownCurrency} " ++
      "(single-currency accounts only)")
  let buckets ← addToBucket acc.2 currency debit credit
  return (acc.1 ++ [⟨raw.accountId, debit, credit, currency, raw.memo⟩], buckets)

/-- The check of the buckets; the first currency that differs is reported. -/
def checkTotals (buckets : Buckets) : Except Error Unit :=
  match buckets.find? fun b => b.2.1 ≠ b.2.2 with
  | some (currency, debit, credit) => .error (.unbalancedTotals currency debit credit)
  | none => .ok ()

def insertTransaction (reference description : String) : Except Error (Db × Id) := do
  let storedReference ← varchar "reference" 64 reference
  let storedDescription ← varchar "description" 255 description
  ensure (∀ t ∈ db.ledgerTransactions.rows, t.reference ≠ storedReference)
    (.integrity "ledger_transactions_reference_key")
  return ({ db with
    ledgerTransactions := db.ledgerTransactions.insert (⟨·, storedReference, storedDescription⟩)
      fun _ => rfl }, db.ledgerTransactions.next)

def insertEntry (transactionId : Id) (db : Db) (line : ParsedLine) : Except Error Db := do
  let debit ← numeric "debit" line.debit
  let credit ← numeric "credit" line.credit
  let currency ← varchar "currency" 3 line.currency
  let memo ← nullable (text "memo") line.memo
  if h : OneSided debit credit then
    .ok { db with
      ledgerEntries := db.ledgerEntries.insert
        (⟨·, transactionId, line.accountId, debit, credit, currency, memo, h⟩) fun _ => rfl }
  else .error (.integrity "ck_ledger_entry_one_sided")

/-- An INSERT that bypasses the service meets the foreign keys as well. -/
def insertReferenced (transactionId : Id) (db : Db) (line : ParsedLine) : Except Error Db := do
  ensure (∃ t ∈ db.ledgerTransactions.rows, t.id = transactionId)
    (.integrity "ledger_entries_transaction_id_fkey")
  ensure (∃ a ∈ db.accounts.rows, a.id = line.accountId)
    (.integrity "ledger_entries_account_id_fkey")
  insertEntry transactionId db line

/-- `create_balanced_transaction`; the second component is the id of the transaction. -/
def createBalancedTransaction (reference description : String) (lines : List LedgerLine) :
    Except Error (Db × Id) := do
  ensure (2 ≤ lines.length) (.unbalancedLedger "Need at least two ledger lines")
  let parsed ← lines.foldlM (addLine env db) ([], [])
  checkTotals parsed.2
  let (withTx, txId) ← insertTransaction db reference description
  let withEntries ← parsed.1.foldlM (insertEntry txId) withTx
  return (withEntries, txId)

def entriesOf (db : Db) (transactionId : Id) : List LedgerEntry :=
  db.ledgerEntries.rows.filter (·.transactionId = transactionId)

/-- `check_ledger_transaction_balanced`, the trigger deferred to the commit. -/
def checkBalanced (transactionId : Id) : Except Error Unit := do
  let entries := entriesOf db transactionId
  let imbalance ← numeric "imbalance"
    ((entries.map (·.debit.value)).sum - (entries.map (·.credit.value)).sum)
  ensure (imbalance.units = 0) (.integrity "trg_ledger_tx_balanced")

/-- `account_balance`. -/
def accountBalance (accountId : Id) : Except Error ℚ := do
  let account ← getAccount db accountId
  let entries := db.ledgerEntries.rows.filter fun e =>
    e.accountId = accountId ∧ e.currency = account.currency
  return decimalAdd (entries.map (·.debit.value)).sum (-(entries.map (·.credit.value)).sum)

end ReckonFlow
