import ReckonFlow.Lib.Machine
import ReckonFlow.Spec.ExtractionRuns

/-! `worker.py` and the background task of `upload_receipt`: the executions of the extraction of
one receipt, one after the other. -/

namespace ReckonFlow.ExtractionRuns

open PyText

/-- `receipt_job_id` -/
def receiptJobId (receiptId : Id) : String := "receipt-extract:" ++ toString receiptId

/-- What a delivery is told by the queue: `ctx`. -/
structure Ctx where
  jobTry : Option ℤ
  jobId : Option PyStr

/-- The extractor, the files and the time of one execution. -/
structure World (ε : Type) where
  extractor : Extractor ε
  storage : String → Stored
  durationMs : ℤ

/-- What runs the extraction. -/
inductive Trigger where
  /-- ARQ delivers the job -/
  | job (ctx : Ctx)
  /-- `background_tasks.add_task(extract_receipt_task, receipt.id)` -/
  | task

/-- `int(ctx.get("job_try") or 1)` -/
def Ctx.attempt (ctx : Ctx) : ℤ := match ctx.jobTry with
  | some n => if n = 0 then 1 else n
  | none => 1

/-- `str(ctx.get("job_id") or "")`, and then `job_id or None`. -/
def Ctx.jobIdOrNone (ctx : Ctx) : Option PyStr := match ctx.jobId with
  | some id => if id = [] then none else some id
  | none => none

variable {ε : Type}

/-- The arguments `extract_receipt_task` is called with. -/
def call (receiptId : Id) (world : World ε) : Trigger → Call ε
  | .job ctx =>
    { receiptId := receiptId
      extractor := world.extractor
      storage := world.storage
      attempt := ctx.attempt
      jobId := ctx.jobIdOrNone
      reraise := true
      durationMs := world.durationMs }
  | .task =>
    { receiptId := receiptId
      extractor := world.extractor
      storage := world.storage
      durationMs := world.durationMs }

/-- `extract_receipt` -/
def extractReceipt (ctx : Ctx) (receiptId : Id) (world : World ε) (db : Db) :
    Except Raised String × Db :=
  let result := extractReceiptTask (call receiptId world (.job ctx)) db
  (result.1.map fun _ => "ok", result.2)

/-- One execution: what its trigger sees of it, and the rows it leaves. -/
def execute (receiptId : Id) (db : Db) (x : Trigger × World ε) : Except Raised (Option String) × Db :=
  match x.1 with
  | .job ctx =>
      let result := extractReceipt ctx receiptId x.2 db
      (result.1.map some, result.2)
  | .task =>
      let result := extractReceiptTask (call receiptId x.2 .task) db
      (result.1.map fun _ => none, result.2)

/-- The executions of a receipt, with what becomes of each. -/
def executions (receiptId : Id) (db : Db) (xs : List (Trigger × World ε)) :
    List ((Trigger × World ε) × Except Raised (Option String)) × Db :=
  Machine.serve (execute receiptId) db xs

end ReckonFlow.ExtractionRuns
