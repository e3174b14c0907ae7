import ReckonFlow.Spec.MoneyText
import ReckonFlow.Spec.Reconciliation

/-! The suggestions route of `api/v1/reconciliation.py`, with its query parameters and the
response models of `schemas/reconciliation.py`. -/

namespace ReckonFlow

open MoneyText

structure MatchSignals where
  fuzzyScore : ℚ
  amountScore : ℚ
  dateScore : ℚ
  embeddingScore : Option ℚ

structure MatchSuggestion where
  bankTransactionId : Id
  bookingDate : Date
  amount : String
  currency : String
  description : String
  rrfScore : ℚ
  confidence : ℚ
  autoMatchable : Bool
  signals : MatchSignals

structure MatchSuggestionResponse where
  expenseId : Id
  expenseAmount : String
  expenseDate : Date
  candidatesConsidered : ℕ
  suggestions : List MatchSuggestion

/-- How a request for suggestions fails. -/
inductive SuggestionError where
  /-- a query parameter out of its range: 422 -/
  | query (parameter : String)
  | service (e : Error)
  /-- a response model that refuses its value: 500 -/
  | amount (e : MoneyError)
  | confidence
  deriving DecidableEq

/-- A field of type `MoneyStr` given `money_to_str` of a column. -/
def moneyField (U : Unicode) (x : Money) : Except SuggestionError String :=
  (moneyStr U (.str (moneyToStr (columnDecimal x)))).mapError .amount

/-- `MatchSuggestion(...)` of a ranked candidate. -/
def matchSuggestion (U : Unicode) (item : ScoredCandidate) : Except SuggestionError MatchSuggestion := do
  let amount ← moneyField U item.bankTransaction.amount
  ensure (0 ≤ item.confidence ∧ item.confidence ≤ 1) .confidence
  return {
    bankTransactionId := item.bankTransaction.id
    bookingDate := item.bankTransaction.bookingDate
    amount := amount
    currency := item.bankTransaction.currency
    description := item.bankTransaction.description
    rrfScore := item.rrfScore
    confidence := item.confidence
    autoMatchable := item.autoMatchable
    signals := ⟨item.fuzzyScore, item.amountScore, item.dateScore, item.embeddingScore⟩ }

variable (U : Unicode) (env : Env) (settings : Settings) (scan : Scan) (db : Db)

/-- `GET /reconciliation/expenses/{expense_id}/suggestions` -/
def suggestMatchesRoute (expenseId : Id) (limit : ℤ) (dateWindowDays : Option ℤ) :
    Except SuggestionError MatchSuggestionResponse := do
  ensure (1 ≤ limit ∧ limit ≤ 25) (.query "limit")
  ensure (∀ w ∈ dateWindowDays, 0 ≤ w ∧ w ≤ 90) (.query "date_window_days")
  let (expense, ranked, considered) ←
    (suggestMatches env settings scan db expenseId limit.toNat dateWindowDays none).mapError .service
  let suggestions ← ranked.mapM (matchSuggestion U)
  let expenseAmount ← moneyField U expense.amount
  return {
    expenseId := expense.id
    expenseAmount := expenseAmount
    expenseDate := expense.expenseDate
    candidatesConsidered := considered
    suggestions := suggestions }

end ReckonFlow
