import ReckonFlow.Lib.Decimal
import ReckonFlow.Lib.Table

/-! The rows of `models/` with the constraints of the migrations, and what the
services rely on from outside the repository. Timestamps are left out; a float is
the rational it stands for. -/

namespace ReckonFlow

/-- Primary keys; a Python `int` that names no row is an `Id` as well. -/
abbrev Id := ℤ

/-- `Numeric(15, 4)`. -/
abbrev Money := Numeric 15 4

inductive ApprovalStatus where
  | pending
  | approved
  | rejected
  | paid
  deriving DecidableEq

inductive MatchStatus where
  | unmatched
  | suggested
  | matched
  | pendingReview
  deriving DecidableEq

/-- `datetime.date`, by its proleptic ordinal: years 1 to 9999. -/
structure Date where
  ordinal : ℤ
  valid : 1 ≤ ordinal ∧ ordinal ≤ 3652059
  deriving DecidableEq

/-- Domain errors under the names of `core/exceptions.py`, with `str(exc)`; the errors of
the interpreter, the driver and the database that no service catches come last. -/
inductive Error where
  | notFound (detail : String)
  | conflict (detail : String)
  | unbalancedLedger (detail : String)
  /-- `UnbalancedLedgerError` with the currency and both totals in its text -/
  | unbalancedTotals (currency : String) (debit credit : ℚ)
  | invalidStateTransition (detail : String)
  | reckonFlow (detail : String)
  | value (detail : String)
  | overflow
  | data (column : String)
  | integrity (constraint : String)
  deriving DecidableEq

/-- `date + timedelta(days=days)`. -/
def Date.addDays (d : Date) (days : ℤ) : Except Error Date :=
  if h : 1 ≤ d.ordinal + days ∧ d.ordinal + days ≤ 3652059 then .ok ⟨d.ordinal + days, h⟩
  else .error .overflow

/-- What the services call and this model does not spell out: RapidFuzz on processed text,
the two functions computed in floating point, and Unicode upper case, character by character. -/
structure Env where
  tokenSetRatio : String → String → ℚ
  textEmbedding : String → List ℚ
  cosineSimilarity : List ℚ → List ℚ → ℚ
  upperChar : Char → List Char
  /-- upper case is a fixed point of upper-casing -/
  upper_fixed : ∀ c, ∀ d ∈ upperChar c, upperChar d = [d]

/-- `str.upper()`. -/
def Env.upper (env : Env) (s : String) : String := String.ofList (s.toList.flatMap env.upperChar)

theorem Env.upper_of_fixed {env : Env} {s : String} (h : ∀ c ∈ s.toList, env.upperChar c = [c]) :
    env.upper s = s := by
  unfold Env.upper
  rw [List.flatMap_congr h, List.flatMap_singleton', String.ofList_toList]

theorem Env.upper_upper (env : Env) (s : String) : env.upper (env.upper s) = env.upper s := by
  refine Env.upper_of_fixed fun d hd => ?_
  rw [Env.upper, String.toList_ofList] at hd
  obtain ⟨c, -, hc⟩ := List.mem_flatMap.1 hd
  exact env.upper_fixed c d hc

/-- A `VARCHAR(n)` column: excess blanks are cut, any other excess and NUL are refused. -/
def varchar (column : String) (n : ℕ) (s : String) : Except Error String :=
  if '\x00' ∈ s.toList then .error (.data column)
  else if (s.toList.drop n).all (· = ' ') then .ok (String.ofList (s.toList.take n))
  else .error (.data column)

/-- A `TEXT` column. -/
def text (column : String) (s : String) : Except Error String :=
  if '\x00' ∈ s.toList then .error (.data column) else .ok s

/-- A nullable column. -/
def nullable (store : String → Except Error String) : Option String → Except Error (Option String)
  | some s => (store s).map some
  | none => .ok none

/-- A `NUMERIC(15, 4)` column. -/
def numeric (column : String) (q : ℚ) : Except Error Money :=
  match Numeric.ofRat? q with
  | some x => .ok x
  | none => .error (.data column)

structure Account where
  id : Id
  code : String
  name : String
  currency : String
  deriving DecidableEq

structure LedgerTransaction where
  id : Id
  reference : String
  description : String
  deriving DecidableEq

/-- The CHECKs `ck_ledger_entry_one_sided` and `ck_ledger_entry_nonneg`. -/
def OneSided (debit credit : Money) : Prop :=
  ((0 < debit.value ∧ credit.value = 0) ∨ (0 < credit.value ∧ debit.value = 0)) ∧
    0 ≤ debit.value ∧ 0 ≤ credit.value

instance (debit credit : Money) : Decidable (OneSided debit credit) :=
  inferInstanceAs (Decidable (_ ∧ _))

structure LedgerEntry where
  id : Id
  transactionId : Id
  accountId : Id
  debit : Money
  credit : Money
  currency : String
  memo : Option String
  oneSided : OneSided debit credit
  deriving DecidableEq

structure TravelRequest where
  id : Id
  employeeName : String
  destination : String
  purpose : String
  startDate : Date
  endDate : Date
  estimatedAmount : Money
  currency : String
  /-- `ck_travel_requests_estimated_amount_positive` -/
  positive : 0 < estimatedAmount.value
  deriving DecidableEq

structure Approval where
  id : Id
  travelRequestId : Id
  status : ApprovalStatus
  reviewer : Option String
  notes : Option String
  deriving DecidableEq

structure Expense where
  id : Id
  travelRequestId : Option Id
  vendor : String
  description : String
  amount : Money
  currency : String
  expenseDate : Date
  matchStatus : MatchStatus
  embedding : Option (List ℚ)
  /-- `ck_expenses_amount_positive` -/
  positive : 0 < amount.value
  deriving DecidableEq

structure BankTransaction where
  id : Id
  bookingDate : Date
  amount : Money
  currency : String
  description : String
  externalId : Option String
  matchStatus : MatchStatus
  matchedExpenseId : Option Id
  embedding : Option (List ℚ)
  deriving DecidableEq

/-- The committed tables. -/
structure Db where
  accounts : Table Account Account.id
  ledgerTransactions : Table LedgerTransaction LedgerTransaction.id
  ledgerEntries : Table LedgerEntry LedgerEntry.id
  travelRequests : Table TravelRequest TravelRequest.id
  approvals : Table Approval Approval.id
  expenses : Table Expense Expense.id
  bankTransactions : Table BankTransaction BankTransaction.id

def Db.empty : Db := ⟨.empty, .empty, .empty, .empty, .empty, .empty, .empty⟩

/-- A row that must exist. -/
def required {α : Type*} {key : α → ℤ} (t : Table α key) (what : String) (i : Id) :
    Except Error α :=
  match t.get i with
  | some r => .ok r
  | none => .error (.notFound s!"{what} {i} not found")

/-- An UPDATE names the columns whose value differs from the one loaded. -/
def written {α : Type*} [DecidableEq α] (loaded new current : α) : α :=
  if new = loaded then current else new

theorem written_self {α : Type*} [DecidableEq α] (loaded new : α) :
    written loaded new loaded = new := by
  unfold written
  split_ifs with h
  · exact h.symm
  · rfl

theorem written_ne {α : Type*} [DecidableEq α] {loaded new : α} (current : α) (h : new ≠ loaded) :
    written loaded new current = new := if_neg h

end ReckonFlow
