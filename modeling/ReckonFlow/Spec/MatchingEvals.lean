import ReckonFlow.Spec.Reconciliation

/-! `scripts/run_matching_evals.py`: the offline baselines, which prefilter, score and fuse the rows
of a case without the database; and the verdict of the service's WHERE clause on a single row. -/

namespace ReckonFlow.MatchingEvals

open Text

structure Candidate where
  id : Id
  description : String
  amount : ℚ
  bookingDate : Date

/-- `Case`; no baseline reads its own id, nor `gold_id`. -/
structure Case where
  vendor : String
  description : String
  amount : ℚ
  expenseDate : Date
  candidates : List Candidate

def Case.expenseText (bill : Case) : String := strip (bill.vendor ++ " " ++ bill.description)

variable (env : Env) (settings : Settings) (bill : Case)

/-- What the loop of `_prefilter` keeps. -/
def passes (window : ℤ) (tolerance : ℚ) (row : Candidate) : Bool :=
  let amount := |bill.amount|
  let slack := max (1 / 100) (amount * tolerance)
  let low := amount - slack
  let high := amount + slack
  if |row.bookingDate.ordinal - bill.expenseDate.ordinal| > window then false
  else decide (low ≤ |row.amount| ∧ |row.amount| ≤ high)

/-- `_prefilter`. -/
def prefilter (window : ℤ) (tolerance : ℚ) : List Candidate :=
  bill.candidates.filter (passes bill window tolerance ·)

def fuzzyScore (row : Candidate) : ℚ := env.tokenSetRatio bill.expenseText row.description

def embeddingScore (row : Candidate) : ℚ :=
  env.cosineSimilarity (env.textEmbedding bill.expenseText) (env.textEmbedding row.description)

inductive Baseline where
  | fuzzy
  | embeddings
  | hybrid

/-- One of the tuples `rank` sorts. -/
structure Scored where
  row : Candidate
  fuzzy : ℚ
  amount : ℚ
  day : ℚ
  emb : ℚ

def score (window : ℤ) (row : Candidate) : Scored where
  row := row
  fuzzy := fuzzyScore env bill row
  amount := amountSimilarity bill.amount row.amount
  day := dateSimilarity bill.expenseDate row.bookingDate window
  emb := embeddingScore env bill row

def hybridRankings (scored : List Scored) : List (String × List Id) :=
  [("fuzzy", (sortedDesc (·.fuzzy) scored).map (·.row.id)),
    ("amount_date", (sortedDesc (fun item => (item.amount + item.day) / 2) scored).map (·.row.id)),
    ("embedding", (sortedDesc (·.emb) scored).map (·.row.id))]

def rank (baseline : Baseline) : Except Error (List Id) :=
  let window := settings.reconciliationDateWindowDays
  let tolerance := settings.reconciliationAmountTolerance
  let filtered := prefilter bill window tolerance
  if filtered.isEmpty then .ok []
  else match baseline with
    | .fuzzy => .ok ((sortedDesc (fuzzyScore env bill) filtered).map (·.id))
    | .embeddings => .ok ((sortedDesc (embeddingScore env bill) filtered).map (·.id))
    | .hybrid => do
        let scored := filtered.map (score env bill window)
        let fused ← reciprocalRankFusion (hybridRankings scored) settings.reconciliationRrfK
        return (sortedDesc (·.2) fused).map (·.1)

/-- A bank row as a candidate. -/
def Candidate.ofRow (row : BankTransaction) : Candidate where
  id := row.id
  description := row.description
  amount := row.amount.value
  bookingDate := row.bookingDate

/-- An expense as a case, with its amount, of any sign, in `amount`. -/
def Case.ofExpense (expense : Expense) (amount : ℚ) (rows : List BankTransaction) : Case where
  vendor := expense.vendor
  description := expense.description
  amount := amount
  expenseDate := expense.expenseDate
  candidates := rows.map .ofRow

end ReckonFlow.MatchingEvals

namespace ReckonFlow

/-- The WHERE clause `_prefilter` of the service builds, on one row; `amount`, of any sign, stands
for the amount of the expense. -/
def passesWhere (expense : Expense) (amount : ℚ) (window : ℤ) (tolerance : ℚ) (row : BankTransaction) :
    Except Error Bool := do
  let slack := max (1 / 100) (|amount| * tolerance)
  let earliest ← expense.expenseDate.addDays (-window)
  let latest ← expense.expenseDate.addDays window
  return decide (Survives expense earliest latest (|amount| - slack) (|amount| + slack) row)

/-- Unmatched, open and in the currency of the expense. -/
structure OpenFor (expense : Expense) (row : BankTransaction) : Prop where
  unmatched : row.matchedExpenseId = none
  status : row.matchStatus ∈ openStatuses
  currency : row.currency = expense.currency

instance (expense : Expense) (row : BankTransaction) : Decidable (OpenFor expense row) :=
  decidable_of_iff (row.matchedExpenseId = none ∧ row.matchStatus ∈ openStatuses ∧
    row.currency = expense.currency) ⟨fun ⟨h₁, h₂, h₃⟩ => ⟨h₁, h₂, h₃⟩, fun ⟨h₁, h₂, h₃⟩ => ⟨h₁, h₂, h₃⟩⟩

end ReckonFlow
