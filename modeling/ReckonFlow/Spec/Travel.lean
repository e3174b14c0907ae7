import ReckonFlow.Spec.Ledger

/-! `services/travel.py`: trips, the approval state machine with the payment it posts,
and expenses. -/

namespace ReckonFlow

open Text

variable (env : Env) (db : Db)

/-- `ALLOWED_TRANSITIONS`. -/
def allowedTransitions : ApprovalStatus → List ApprovalStatus
  | .pending => [.approved, .rejected]
  | .approved => [.paid]
  | .rejected => []
  | .paid => []

def ApprovalStatus.value : ApprovalStatus → String
  | .pending => "pending"
  | .approved => "approved"
  | .rejected => "rejected"
  | .paid => "paid"

def cashCode : String := "CASH"
def travelCode : String := "TRAVEL"
def spendable : List ApprovalStatus := [.approved, .paid]

/-- The fields of a new trip. -/
structure TripFields where
  employeeName : String
  destination : String
  purpose : String
  startDate : Date
  endDate : Date
  estimatedAmount : ℚ
  currency : String := "EUR"

/-- The trip and its pending approval in one unit of work. -/
def createTravelRequest (f : TripFields) : Except Error Db := do
  let employeeName ← varchar "employee_name" 120 f.employeeName
  let destination ← varchar "destination" 120 f.destination
  let purpose ← text "purpose" f.purpose
  let estimated ← numeric "estimated_amount" f.estimatedAmount
  let currency ← varchar "currency" 3 (env.upper f.currency)
  if h : 0 < estimated.value then
    .ok { db with
      travelRequests := db.travelRequests.insert
        (⟨·, employeeName, destination, purpose, f.startDate, f.endDate, estimated, currency, h⟩)
        fun _ => rfl
      approvals := db.approvals.insert
        (⟨·, db.travelRequests.next, .pending, none, none⟩) fun _ => rfl }
  else .error (.integrity "ck_travel_requests_estimated_amount_positive")

def getTravelRequest (travelRequestId : Id) : Except Error TravelRequest :=
  required db.travelRequests "Travel request" travelRequestId

/-- `trip.approval`. -/
def approvalOf (travelRequestId : Id) : Option Approval :=
  db.approvals.rows.find? (·.travelRequestId = travelRequestId)

def accountByCode (code : String) : Except Error Account :=
  let shown := reprStr code
  match db.accounts.rows.find? (·.code = code) with
  | some a => .ok a
  | none => .error (.reckonFlow <| s!"Account {shown} is required before marking a trip paid; " ++
      "run the seed script or create CASH and TRAVEL accounts")

/-- `coalesce(sum(amount), 0)` over the expenses of a trip. -/
def spentOn (travelRequestId : Id) : ℚ :=
  ((db.expenses.rows.filter (·.travelRequestId = some travelRequestId)).map (·.amount.value)).sum

/-- What a trip is paid: its expenses, or its estimate when they come to nothing. -/
def payable (trip : TravelRequest) : ℚ :=
  let spent := spentOn db trip.id
  if spent = 0 then trip.estimatedAmount.value else spent

/-- The lines of a payment: TRAVEL debit, CASH credit. -/
def paymentLines (travel cash : Account) (trip : TravelRequest) (amount : ℚ) : List LedgerLine :=
  [{ accountId := travel.id, debit := some amount, credit := some 0, currency := trip.currency },
    { accountId := cash.id, debit := some 0, credit := some amount, currency := trip.currency }]

def paymentReference (approvalId : Id) : String := s!"PAY-{approvalId}"

def paymentDescription (trip : TravelRequest) : String :=
  "Travel payment: " ++ trip.employeeName ++ " → " ++ trip.destination

/-- The arguments of a call of `create_balanced_transaction`. -/
structure Posting where
  reference : String
  description : String
  lines : List LedgerLine

def Posting.post (env : Env) (db : Db) (p : Posting) : Except Error (Db × Id) :=
  createBalancedTransaction env db p.reference p.description p.lines

/-- What `_post_payment_ledger` reads before it posts. -/
def paymentPosting (approval : Approval) : Except Error Posting := do
  let trip ← getTravelRequest db approval.travelRequestId
  let cash ← accountByCode db cashCode
  let travel ← accountByCode db travelCode
  return ⟨paymentReference approval.id, paymentDescription trip,
    paymentLines travel cash trip (payable db trip)⟩

def postPaymentLedger (approval : Approval) : Except Error (Db × Id) := do
  let posting ← paymentPosting db approval
  posting.post env db

def allowedText (current : ApprovalStatus) : String :=
  let names := (allowedTransitions current).map (·.value)
  if names.isEmpty then "nothing" else String.intercalate ", " names

/-- `reviewer` and `notes` are kept unless the request gives new ones. -/
def Approval.decided (a : Approval) (target : ApprovalStatus) (reviewer notes : Option String) :
    Approval :=
  { a with status := target, reviewer := reviewer.or a.reviewer, notes := notes.or a.notes }

theorem Approval.decided_id (target : ApprovalStatus) (reviewer notes : Option String)
    (a : Approval) : (a.decided target reviewer notes).id = a.id := rfl

/-- The status, reviewer and notes of an approval written. -/
def writeDecision (approvalId : Id) (target : ApprovalStatus) (reviewer notes : Option String) :
    Except Error Db := do
  let reviewer ← nullable (varchar "reviewer" 120) reviewer
  let notes ← nullable (text "notes") notes
  return { db with
    approvals := db.approvals.modify approvalId (·.decided target reviewer notes)
      (Approval.decided_id target reviewer notes) }

def checkTransition (approval : Approval) (target : ApprovalStatus) : Except Error Unit :=
  let current := approval.status.value
  let wanted := target.value
  let allowed := allowedText approval.status
  let approvalId := approval.id
  ensure (target ∈ allowedTransitions approval.status) (.invalidStateTransition <|
    s!"Cannot move approval {approvalId} from {current} to {wanted};" ++
      s!" allowed next: {allowed}")

def transitionApproval (approvalId : Id) (target : ApprovalStatus)
    (reviewer notes : Option String) : Except Error Db := do
  let approval ← required db.approvals "Approval" approvalId
  checkTransition approval target
  let posted ← (if target = .paid then (postPaymentLedger env db approval).map (·.1) else .ok db)
  writeDecision posted approvalId target reviewer notes

/-- The fields of a new expense. -/
structure ExpenseFields where
  vendor : String
  description : String
  amount : ℚ
  expenseDate : Date
  currency : String := "EUR"
  travelRequestId : Option Id := none

/-- A linked trip must be approved or paid, and in the expense's currency. -/
def checkTrip (currency : String) (travelRequestId : Id) : Except Error Unit := do
  let trip ← getTravelRequest db travelRequestId
  match approvalOf db trip.id with
  | none => .error (.invalidStateTransition
      s!"Travel request {travelRequestId} has no approval row")
  | some approval =>
      let status := approval.status.value
      ensure (approval.status ∈ spendable) (.invalidStateTransition <|
        s!"Cannot attach expense to travel request {travelRequestId} while approval is {status}; " ++
          "approve the trip first")
      let shown := reprStr (env.upper currency)
      let shownTrip := reprStr trip.currency
      ensure (env.upper currency = env.upper trip.currency) (.conflict <|
        s!"Expense currency {shown} must match trip currency {shownTrip} (single-currency trips only)")

def insertExpense (f : ExpenseFields) : Except Error Db := do
  let vendor ← varchar "vendor" 160 f.vendor
  let description ← text "description" f.description
  let amount ← numeric "amount" f.amount
  let currency ← varchar "currency" 3 (env.upper f.currency)
  let embedding := env.textEmbedding (strip (f.vendor ++ " " ++ f.description))
  if h : 0 < amount.value then
    .ok { db with
      expenses := db.expenses.insert
        (⟨·, f.travelRequestId, vendor, description, amount, currency, f.expenseDate, .unmatched,
          some embedding, h⟩) fun _ => rfl }
  else .error (.integrity "ck_expenses_amount_positive")

def createExpense (f : ExpenseFields) : Except Error Db := do
  match f.travelRequestId with
  | some travelRequestId => checkTrip env db f.currency travelRequestId
  | none => pure ()
  insertExpense env db f

end ReckonFlow
