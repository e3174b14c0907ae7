import ReckonFlow.Spec.ReceiptUploads

/-! Any number of executions of `run_extraction` on one receipt: jobs that run again and tasks
beside them, each in its own session. -/

namespace ReckonFlow.Extraction

open ReceiptUpload

/-- The committed row and where the executions stand. -/
structure State where
  row : Receipt
  stage : ℕ → Stage

def State.setStage (s : State) (i : ℕ) (p : Stage) : State :=
  { s with stage := Function.update s.stage i p }

@[simp] theorem setStage_row (s : State) (i : ℕ) (p : Stage) : (s.setStage i p).row = s.row := rfl

@[simp] theorem setStage_self (s : State) (i : ℕ) (p : Stage) : (s.setStage i p).stage i = p :=
  Function.update_self ..

theorem setStage_of_ne (s : State) {i j : ℕ} (p : Stage) (h : j ≠ i) :
    (s.setStage i p).stage j = s.stage j := Function.update_of_ne h ..

/-- One await of execution `i`, a job or a task as `origin` tells; receipts are never deleted. -/
def step (origin : ℕ → Origin) (s : State) (e : ℕ × Act) : Option State :=
  match runExtraction (origin e.1) (some s.row) (s.stage e.1) e.2 with
  | some (some row, stage) => some ({ s with row := row }.setStage e.1 stage)
  | _ => none

/-- The receipt as `upload_receipt` inserts it. -/
def State.init : State := ⟨{}, fun _ => .waiting⟩

end ReckonFlow.Extraction
