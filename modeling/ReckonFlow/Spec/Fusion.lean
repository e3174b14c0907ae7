import ReckonFlow.Lib.Ranking
import ReckonFlow.Lib.Text
import ReckonFlow.Spec.Models

/-! `services/reconciliation.py`, the ranking of scored candidates: reciprocal rank
fusion, `_fuse`, and the decision `auto_reconcile` takes from its result. -/

namespace ReckonFlow

/-- The reconciliation fields of `Settings`, with their defaults. -/
structure Settings where
  reconciliationDateWindowDays : ℤ := 5
  reconciliationAmountTolerance : ℚ := 1 / 50
  reconciliationAutoMatchThreshold : ℚ := 18 / 25
  reconciliationMinFuzzyScore : ℚ := 60
  reconciliationRrfK : ℤ := 60

structure ScoredCandidate where
  bankTransaction : BankTransaction
  fuzzyScore : ℚ
  amountScore : ℚ
  dateScore : ℚ
  embeddingScore : Option ℚ := none
  rrfScore : ℚ := 0
  confidence : ℚ := 0
  autoMatchable : Bool := false
  rankingsUsed : List String := []

def ScoredCandidate.id (c : ScoredCandidate) : Id := c.bankTransaction.id

/-- One ranking added to the scores so far; positions start at 1. -/
def fuseRanking (k : ℤ) (fused : List (Id × ℚ)) (rankedIds : List Id) : List (Id × ℚ) :=
  (rankedIds.zipIdx 1).foldl
    (fun fused c => Dict.set fused c.1 ((Dict.get fused c.1).getD 0 + 1 / (k + c.2))) fused

def reciprocalRankFusion (rankings : List (String × List Id)) (k : ℤ) :
    Except Error (List (Id × ℚ)) :=
  if k ≤ 0 then .error (.value "RRF k must be positive")
  else .ok (rankings.foldl (fun fused r => fuseRanking k fused r.2) [])

def maxRrfScore (rankingCount : ℕ) (k : ℤ) : ℚ :=
  if rankingCount ≤ 0 then 0 else rankingCount / (k + 1)

/-- `i.embedding_score or -1.0`: a cosine of exactly zero counts as absent. -/
def embeddingKey (c : ScoredCandidate) : ℚ :=
  match c.embeddingScore with
  | some x => if x = 0 then -1 else x
  | none => -1

def rankings (scored : List ScoredCandidate) : List (String × List Id) :=
  [("fuzzy", (sortedDesc (·.fuzzyScore) scored).map (·.id)),
    ("amount_date", (sortedDesc (fun i => (i.amountScore + i.dateScore) / 2) scored).map (·.id))] ++
  if scored.any (·.embeddingScore.isSome) then
    [("embedding", (sortedDesc embeddingKey scored).map (·.id))]
  else []

variable (settings : Settings)

/-- `max_rrf_score(...) or 1.0`. -/
def bestPossible (scored : List ScoredCandidate) : ℚ :=
  let m := maxRrfScore (rankings scored).length settings.reconciliationRrfK
  if m = 0 then 1 else m

/-- A candidate with its raw score, as `_fuse` rebuilds it. -/
def withScore (scored : List ScoredCandidate) (item : ScoredCandidate) (rawScore : ℚ) :
    ScoredCandidate :=
  let confidence := min 1 (rawScore / bestPossible settings scored)
  { item with
    rrfScore := rawScore
    confidence := confidence
    autoMatchable := decide (settings.reconciliationAutoMatchThreshold ≤ confidence) &&
      decide (settings.reconciliationMinFuzzyScore ≤ item.fuzzyScore)
    rankingsUsed := (rankings scored).map (·.1) }

def rankKey (c : ScoredCandidate) : ℚ ×ₗ ℚ := toLex (c.confidence, c.fuzzyScore)

/-- `_fuse` before the cut to `limit`. -/
def fuseAll (scored : List ScoredCandidate) : Except Error (List ScoredCandidate) := do
  let byId := Dict.ofPairs (scored.map fun item => (item.id, item))
  let fused ← reciprocalRankFusion (rankings scored) settings.reconciliationRrfK
  -- every ranked id is the id of a scored candidate
  let results := fused.filterMap fun c =>
    (Dict.get byId c.1).map fun item => withScore settings scored item c.2
  return sortedDesc rankKey results

def fuse (scored : List ScoredCandidate) (limit : ℕ) : Except Error (List ScoredCandidate) :=
  (fuseAll settings scored).map (·.take limit)

/-- What `auto_reconcile` does with the ranked candidates: the bank row to confirm, or
`none` to park the expense. -/
def autoDecision : List ScoredCandidate → Option Id
  | [] => none
  | best :: rest =>
      if !best.autoMatchable then none
      else match rest with
        | [] => some best.id
        | runnerUp :: _ => if runnerUp.autoMatchable then none else some best.id

end ReckonFlow
