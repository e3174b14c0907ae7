import ReckonFlow.Lib.Lts
import ReckonFlow.Spec.Models

/-! `upload_receipt` and `extract_receipt_task` as concurrent sessions: the request has its
own, committed by `get_db` after the response and its background task, and so has every
execution of the extraction, which sees committed rows only. -/

namespace ReckonFlow.ReceiptUpload

inductive ReceiptStatus where
  | uploaded
  | processing
  | extracted
  | failed
  deriving DecidableEq

/-- The columns of `receipts` an extraction reads or writes. -/
structure Receipt where
  status : ReceiptStatus := .uploaded
  extractedJson : Option String := none
  errorMessage : Option String := none
  deriving DecidableEq

/-- How a commit, or a call to Redis, goes: answered, failed before or after taking effect. -/
inductive Reply where
  | ok
  | failed
  | lost
  deriving DecidableEq

/-- The UPDATE of a row loaded as `loaded` and set to `new`. -/
def Receipt.write (loaded new current : Receipt) : Receipt where
  status := written loaded.status new.status current.status
  extractedJson := written loaded.extractedJson new.extractedJson current.extractedJson
  errorMessage := written loaded.errorMessage new.errorMessage current.errorMessage

/-! ## The extraction -/

/-- What runs the extraction: a job of the worker, or a background task of the request. -/
inductive Origin where
  | job
  | task
  deriving DecidableEq

/-- `reraise`. -/
def Origin.reraise : Origin → Bool
  | .job => true
  | .task => false

/-- Where an execution stands; it keeps the row in its identity map. -/
inductive Stage where
  | absent
  /-- enqueued, or attached to a response that has been sent -/
  | waiting
  | loaded (row : Receipt)
  /-- PROCESSING is committed; the extractor runs -/
  | processing (row : Receipt)
  | saving (row : Receipt) (json : String)
  /-- the extraction raised and its session was rolled back, with the row `mark_failed` gets
  from the session, unless it has to be read again -/
  | failing (row : Option Receipt) (error : String)
  /-- the outcome is committed, the `extraction_runs` row is not -/
  | recording (failed : Bool)
  | ended (raised : Bool)
  deriving DecidableEq

inductive Act where
  /-- the first `get_receipt` -/
  | load (answered : Bool)
  /-- `mark_processing` and its commit -/
  | mark (reply : Reply)
  /-- `read_text` and the extractor, which return JSON or raise -/
  | extract (result : Except String String)
  /-- `save_extraction` and its commit, with the text of what they raise -/
  | save (reply : Reply) (error : String)
  /-- the `get_receipt` of `mark_failed`, after a rollback that expired the row -/
  | reload (answered : Bool)
  /-- `mark_failed` and its commit -/
  | fail (reply : Reply)
  /-- the `extraction_runs` row and its commit -/
  | record (answered : Bool)

def Receipt.markProcessing (row : Receipt) : Receipt := { row with status := .processing }

def saveExtraction (json : String) : Receipt where
  status := .extracted
  extractedJson := some json
  errorMessage := none

def Receipt.markFailed (row : Receipt) (reason : String) : Receipt :=
  { row with
    status := .failed
    errorMessage := some (String.ofList (reason.toList.take 2000)) }

/-- What follows the first `get_receipt`. -/
def afterLoad (origin : Origin) : Option Receipt → Stage
  -- `NotFoundError` is logged and swallowed, or re-raised
  | none => .ended origin.reraise
  | some row => if row.status = .extracted then .ended false else .loaded row

/-- What follows the second one. -/
def afterReload (error : String) : Option Receipt → Stage
  | none => .ended true
  | some row => .failing (some row) error

/-- One await of `run_extraction`: the committed row and the stage it leaves. -/
def runExtraction (origin : Origin) (current : Option Receipt) :
    Stage → Act → Option (Option Receipt × Stage)
  | .waiting, .load true => some (current, afterLoad origin current)
  | .waiting, .load false => some (current, .ended origin.reraise)
  | .loaded row, .mark reply =>
      let marked := row.markProcessing
      match reply with
      | .ok => some (current.map (row.write marked), .processing marked)
      | .failed => some (current, .ended origin.reraise)
      | .lost => some (current.map (row.write marked), .ended origin.reraise)
  | .processing row, .extract (.ok json) => some (current, .saving row json)
  -- no transaction is open, so the rollback expires nothing
  | .processing row, .extract (.error error) => some (current, .failing (some row) error)
  | .saving row json, .save reply error =>
      let saved := saveExtraction json
      match reply with
      | .ok => some (current.map (row.write saved), .recording false)
      | .failed => some (current, .failing none error)
      | .lost => some (current.map (row.write saved), .failing none error)
  | .failing none error, .reload true => some (current, afterReload error current)
  | .failing none _, .reload false => some (current, .ended true)
  | .failing (some row) error, .fail reply =>
      let failed := row.markFailed error
      match reply with
      | .ok => some (current.map (row.write failed), .recording true)
      | .failed => some (current, .ended true)
      | .lost => some (current.map (row.write failed), .ended true)
  | .recording failed, .record true => some (current, .ended (origin.reraise && failed))
  | .recording _, .record false => some (current, .ended true)
  | _, _ => none

/-! ## The requests -/

structure Execution where
  origin : Origin
  receiptId : ℕ
  deriving DecidableEq

/-- Where a request stands; `inline` tells whether it carries a background task. -/
inductive Phase where
  | idle
  | flushed (receiptId : ℕ)
  /-- the file is written -/
  | stored (receiptId : ℕ)
  | queued (receiptId : ℕ) (inline : Bool)
  /-- the 202 is sent -/
  | responded (receiptId : ℕ) (inline : Bool)
  | ended
  deriving DecidableEq

/-- The committed rows, the next value of the sequence, and where everyone stands. -/
structure State where
  receipts : ℕ → Option Receipt
  nextId : ℕ
  phase : ℕ → Phase
  stage : Execution → Stage

inductive Event where
  /-- a 404, 409, 413 or 415: no row is inserted -/
  | refuse (i : ℕ)
  | flush (i : ℕ)
  | writeFile (i : ℕ)
  | enqueue (i : ℕ) (reply : Reply)
  | respond (i : ℕ)
  /-- the commit of `get_db` takes effect -/
  | commit (i : ℕ)
  /-- the session of the request is rolled back -/
  | rollback (i : ℕ)
  | run (x : Execution) (act : Act)

def State.setPhase (s : State) (i : ℕ) (p : Phase) : State :=
  { s with phase := Function.update s.phase i p }

def State.setStage (s : State) (x : Execution) (p : Stage) : State :=
  { s with stage := Function.update s.stage x p }

def State.setReceipt (s : State) (receiptId : ℕ) (row : Option Receipt) : State :=
  { s with receipts := Function.update s.receipts receiptId row }

@[simp] theorem setPhase_self (s : State) (i : ℕ) (p : Phase) : (s.setPhase i p).phase i = p :=
  Function.update_self ..

theorem setPhase_of_ne (s : State) {i j : ℕ} (p : Phase) (h : j ≠ i) :
    (s.setPhase i p).phase j = s.phase j := Function.update_of_ne h ..

@[simp] theorem setStage_self (s : State) (x : Execution) (p : Stage) :
    (s.setStage x p).stage x = p := Function.update_self ..

theorem setStage_of_ne (s : State) {x y : Execution} (p : Stage) (h : y ≠ x) :
    (s.setStage x p).stage y = s.stage y := Function.update_of_ne h ..

@[simp] theorem setReceipt_self (s : State) (receiptId : ℕ) (row : Option Receipt) :
    (s.setReceipt receiptId row).receipts receiptId = row := Function.update_self ..

theorem setReceipt_of_ne (s : State) {receiptId id : ℕ} (row : Option Receipt)
    (h : id ≠ receiptId) : (s.setReceipt receiptId row).receipts id = s.receipts id :=
  Function.update_of_ne h ..

/-- `enqueue_job`: nothing happens while the job id is known. -/
def State.enqueueJob (s : State) (receiptId : ℕ) : State :=
  if s.stage ⟨.job, receiptId⟩ = .absent then s.setStage ⟨.job, receiptId⟩ .waiting else s

/-- `enqueue_extract`, with whether the caller has to run the task itself. -/
def enqueueExtract (receiptQueue : String) (s : State) (receiptId : ℕ) (reply : Reply) :
    State × Bool :=
  if receiptQueue ≠ "arq" then (s, true)
  else match reply with
    | .ok => (s.enqueueJob receiptId, false)
    | .failed => (s, true)
    | .lost => (s.enqueueJob receiptId, true)

/-- Background tasks start once the response is sent. -/
def State.startTask (s : State) (receiptId : ℕ) (inline : Bool) : State :=
  if inline then s.setStage ⟨.task, receiptId⟩ .waiting else s

/-- The background task, if there is one, has ended; `raised` tells how. -/
def State.TaskEnded (s : State) (receiptId : ℕ) (inline raised : Bool) : Prop :=
  inline = true → s.stage ⟨.task, receiptId⟩ = .ended raised

instance (s : State) (receiptId : ℕ) (inline raised : Bool) :
    Decidable (s.TaskEnded receiptId inline raised) :=
  inferInstanceAs (Decidable (_ → _))

/-- One step of a request, or of an execution; `none` when it does not stand there. -/
def step (receiptQueue : String) (s : State) : Event → Option State
  | .refuse i => match s.phase i with
      | .idle => some (s.setPhase i .ended)
      | _ => none
  | .flush i => match s.phase i with
      | .idle => some ({ s with nextId := s.nextId + 1 }.setPhase i (.flushed s.nextId))
      | _ => none
  | .writeFile i => match s.phase i with
      | .flushed id => some (s.setPhase i (.stored id))
      | _ => none
  | .enqueue i reply => match s.phase i with
      | .stored id =>
          let queued := enqueueExtract receiptQueue s id reply
          some (queued.1.setPhase i (.queued id queued.2))
      | _ => none
  | .respond i => match s.phase i with
      | .queued id inline => some ((s.startTask id inline).setPhase i (.responded id inline))
      | _ => none
  | .commit i => match s.phase i with
      | .responded id inline =>
          if s.TaskEnded id inline false then
            some ((s.setReceipt id (some {})).setPhase i .ended)
          else none
      | _ => none
  | .rollback i => match s.phase i with
      | .flushed _ | .stored _ | .queued _ _ => some (s.setPhase i .ended)
      | .responded id inline =>
          if s.TaskEnded id inline false ∨ s.TaskEnded id inline true then
            some (s.setPhase i .ended)
          else none
      | _ => none
  | .run x act => (runExtraction x.origin (s.receipts x.receiptId) (s.stage x) act).map fun p =>
      (s.setReceipt x.receiptId p.1).setStage x p.2

/-- Nothing uploaded. -/
def State.init : State := ⟨fun _ => none, 1, fun _ => .idle, fun _ => .absent⟩

end ReckonFlow.ReceiptUpload
