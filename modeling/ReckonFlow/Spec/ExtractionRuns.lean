import ReckonFlow.Lib.Effects
import ReckonFlow.Lib.PyText
import ReckonFlow.Spec.ReceiptUploads

/-! `run_extraction` alone on its receipt, with a working database: the three commits of its
session, what the column types refuse, and the exceptions it swallows, records and raises. -/

namespace ReckonFlow.ExtractionRuns

open PyText ReceiptUpload Text

/-- A row of `receipts`. -/
structure Row extends Receipt where
  filename : String
  storagePath : String
  deriving DecidableEq

inductive Outcome where
  | success
  | failed
  deriving DecidableEq

/-- A row of `extraction_runs`. -/
structure ExtractionRun where
  receiptId : Id
  provider : String
  outcome : Outcome
  durationMs : ℤ
  attempt : ℤ
  jobId : Option String
  error : Option String
  tokenCount : Option ℤ := none
  deriving DecidableEq

/-- The receipt of the id in hand, and all rows of `extraction_runs`. -/
structure Db where
  receipt : Option Row
  runs : List ExtractionRun
  deriving DecidableEq

/-- What is raised; `str(exc)` of the last two is not looked at again. -/
inductive Raised where
  | notFound (detail : String)
  /-- raised below `run_extraction`, with `str(exc)` -/
  | other (text : PyStr)
  /-- a value the column does not take -/
  | refused (column : String)
  | runtimeError (text : PyStr)
  deriving DecidableEq

def Raised.text : Raised → PyStr
  | .notFound detail => py detail
  | .other text | .runtimeError text => text
  | .refused column => py column

/-- `model_dump_json`: control characters are escaped. -/
structure JsonText where
  text : String
  noNul : '\x00' ∉ text.toList

/-- An extractor, and the JSON of what it returns; both may raise anything. -/
structure Extractor (ε : Type) where
  name : PyStr
  extract : (rawText filename : String) → Except PyStr ε
  dumpJson : ε → Except PyStr JsonText

/-- What stands at a storage path. -/
inductive Stored where
  /-- outside the storage directory -/
  | escapes
  | missing
  | file (content : List UInt8)
  | unreadable (text : PyStr)

/-- A call of `run_extraction`, with the time it takes. -/
structure Call (ε : Type) where
  receiptId : Id
  extractor : Extractor ε
  storage : String → Stored
  attempt : ℤ := 1
  jobId : Option PyStr := none
  reraise : Bool := false
  durationMs : ℤ

/-! ## The session -/

/-- The committed rows, and the rows as the open transaction sees them. -/
structure Session where
  committed : Db
  current : Db

abbrev Work := EStateM Raised Session

def commit : Work Unit := fun s => .ok () { s with committed := s.current }

def rollback : Work Unit := fun s => .ok () { s with current := s.committed }

/-- `flush` of a changed receipt. -/
def writeReceipt (row : Row) : Work Unit := fun s =>
  .ok () { s with current := { s.current with receipt := some row } }

def insertRun (run : ExtractionRun) : Work Unit := fun s =>
  .ok () { s with current := { s.current with runs := s.current.runs ++ [run] } }

/-- A result from outside the session. -/
def lift {α : Type} (x : Except Raised α) : Work α := fun s => match x with
  | .ok a => .ok a s
  | .error e => .error e s

/-- A parameter of a statement: sent as UTF-8, then taken by its column. -/
def column (name : String) (store : String → Except Error String) (s : PyStr) :
    Except Raised String :=
  match text? s with
  | none => .error (.refused name)
  | some t => (store t).mapError fun _ => .refused name

/-- An `INTEGER` column. -/
def integer (name : String) (n : ℤ) : Except Raised ℤ :=
  if -2 ^ 31 ≤ n ∧ n < 2 ^ 31 then .ok n else .error (.refused name)

/-- A nullable column. -/
def optional {α β : Type} (store : α → Except Raised β) : Option α → Except Raised (Option β)
  | some a => (store a).map some
  | none => .ok none

/-! ## `ReceiptService` -/

def notFoundText (receiptId : Id) : String := "Receipt " ++ toString receiptId ++ " not found"

def getReceipt (receiptId : Id) : Work Row := fun s => match s.current.receipt with
  | some row => .ok row s
  | none => .error (.notFound (notFoundText receiptId)) s

def markProcessing (receiptId : Id) : Work Unit := do
  let receipt ← getReceipt receiptId
  writeReceipt { receipt with status := .processing }

variable {ε : Type}

def saveExtraction (receiptId : Id) (dumpJson : ε → Except PyStr JsonText) (extraction : ε) :
    Work Unit := do
  let receipt ← getReceipt receiptId
  let json ← lift ((dumpJson extraction).mapError .other)
  writeReceipt { receipt with toReceipt := ReceiptUpload.saveExtraction json.text }

def markFailed (receiptId : Id) (reason : PyStr) : Work Unit := do
  let receipt ← getReceipt receiptId
  let message ← lift (column "error_message" (ReckonFlow.text "error_message") (reason.take 2000))
  writeReceipt { receipt with status := .failed, errorMessage := some message }

def maxExtractionChars : ℕ := 50000

def readText (receiptId : Id) (storage : String → Stored) (receipt : Row) : Except Raised String :=
  match storage receipt.storagePath with
  | .escapes => .error (.notFound "Stored file path escapes the storage directory")
  | .missing => .error (.notFound ("Stored file for receipt " ++ toString receiptId ++ " is missing"))
  | .unreadable text => .error (.other text)
  | .file content => .ok (String.ofList ((decodeUtf8 content).toList.take maxExtractionChars))

/-! ## `run_extraction` -/

/-- The first block: the receipt to work on, if there is work to do. -/
def start (x : Call ε) : Work (Option Row) :=
  try
    let receipt ← getReceipt x.receiptId
    if receipt.status = .extracted then pure none
    else
      markProcessing x.receiptId
      commit
      let receipt ← getReceipt x.receiptId
      pure (some receipt)
  catch exc =>
    rollback
    if x.reraise then throw exc else pure none

/-- The second block: the outcome, and the text of the exception. -/
def attempt (x : Call ε) (receipt : Row) : Work (Outcome × Option PyStr) :=
  try
    let rawText ← lift (readText x.receiptId x.storage receipt)
    let extraction ← lift ((x.extractor.extract rawText receipt.filename).mapError .other)
    saveExtraction x.receiptId x.extractor.dumpJson extraction
    commit
    pure (.success, none)
  catch exc =>
    rollback
    markFailed x.receiptId exc.text
    commit
    pure (.failed, some exc.text)

/-- `error_text[:2000] if error_text else None` -/
def runError : Option PyStr → Option PyStr
  | some text => if text = [] then none else some (text.take 2000)
  | none => none

/-- The row of `extraction_runs`, as the columns take it. -/
def extractionRun (x : Call ε) (outcome : Outcome) (errorText : Option PyStr) :
    Except Raised ExtractionRun := do
  let provider ← column "provider" (varchar "provider" 64) x.extractor.name
  let durationMs ← integer "duration_ms" x.durationMs
  let attempt ← integer "attempt" x.attempt
  let jobId ← optional (column "job_id" (varchar "job_id" 128)) x.jobId
  let error ← optional (column "error" (ReckonFlow.text "error")) (runError errorText)
  return {
    receiptId := x.receiptId
    provider := provider
    outcome := outcome
    durationMs := durationMs
    attempt := attempt
    jobId := jobId
    error := error }

def runExtraction (x : Call ε) : Work Unit := do
  match ← start x with
  | none => return ()
  | some receipt =>
      let (outcome, errorText) ← attempt x receipt
      let run ← lift (extractionRun x outcome errorText)
      insertRun run
      commit
      if x.reraise ∧ outcome = .failed then
        let text := errorText.getD []
        throw (.runtimeError (if text = [] then py "extraction failed" else text))

/-- `extract_receipt_task`: whether it raised, and the rows when the session is closed. -/
def extractReceiptTask (x : Call ε) (db : Db) : Except Raised Unit × Db :=
  match runExtraction x ⟨db, db⟩ with
  | .ok _ s => (.ok (), s.committed)
  | .error e s => (.error e, s.committed)

end ReckonFlow.ExtractionRuns
