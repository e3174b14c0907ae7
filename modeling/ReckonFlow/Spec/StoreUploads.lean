import ReckonFlow.Lib.Locks
import ReckonFlow.Lib.Lts
import ReckonFlow.Spec.Models
import ReckonFlow.Spec.StoragePaths

/-! `store_upload` in the sessions of `get_db`, at READ COMMITTED, with the files it writes. An
uncommitted row holds its expense in the unique index until the session ends. Any step may fail; a
commit that fails takes no effect. -/

namespace ReckonFlow.StoreUpload

open PyText PyPath Storage

/-- The arguments of `store_upload`, and the UUID it draws. -/
structure Upload where
  filename : PyStr
  contentType : PyStr
  content : List UInt8
  expenseId : Option Id
  uuid : UuidHex

/-- The row without its status, UPLOADED; the path by its components. -/
structure Receipt where
  id : Id
  expenseId : Option Id
  filename : PyStr
  contentType : PyStr
  storagePath : List PyStr
  deriving DecidableEq

def Upload.receipt (a : Upload) (id : Id) (path : List PyStr) : Receipt where
  id := id
  expenseId := a.expenseId
  filename := safeFilename a.filename
  contentType := if a.contentType = [] then py "application/octet-stream" else a.contentType
  storagePath := path

abbrev Files := List PyStr → Option (List UInt8)

/-- The uploads of a run and what they find on disk: no UUID is drawn twice, and none begins a name
that is there already. -/
structure Setup where
  fs : FileSystem
  storage : Path
  files : Files
  uploads : List Upload
  distinct : (uploads.map (·.uuid.digits)).Nodup
  unused : ∀ a ∈ uploads, ∀ (directory : List PyStr) (name : PyStr), a.uuid.digits.map codePoint <+: name →
    fs.readlink (directory ++ [name]) = none ∧ files (directory ++ [name]) = none

/-- The path resolved for an upload. -/
def Setup.path (u : Setup) (a : Upload) : Except PathError (List PyStr) :=
  uploadPath u.fs u.storage a.uuid a.filename

/-- Where a request can raise; `outside` is in between, and after `store_upload` has returned. -/
inductive Stage where
  | lookup
  | duplicateCheck
  | path
  | flush
  | write
  | outside
  | commit
  deriving DecidableEq

inductive Phase where
  | idle
  /-- the expense is there -/
  | found
  /-- it has no receipt yet, or the upload is for none -/
  | checked
  | resolved (path : List PyStr)
  | flushed (row : Receipt)
  /-- the file is written -/
  | stored (row : Receipt)
  | committed (row : Receipt)
  /-- rolled back; `none` for an error of the driver or the operating system -/
  | raised (stage : Stage) (error : Option Error)
  deriving DecidableEq

/-- The committed rows, the next value of the sequence, who holds which expense in the unique index, the
files, and where every request stands. -/
structure State where
  expenses : List Id
  receipts : List Receipt
  nextId : Id
  expenseLock : Locks Id
  files : Files
  phase : ℕ → Phase

/-- What a statement or a call of a request does. -/
inductive Act where
  /-- `session.get(Expense, expense_id)` -/
  | lookup (answered : Bool)
  /-- the SELECT of another receipt -/
  | checkDuplicate (answered : Bool)
  /-- `mkdir` and `_resolve_storage_path` -/
  | resolve (answered : Bool)
  /-- the INSERT -/
  | flush (answered : Bool)
  | writeBytes
  /-- `write_bytes` raises, with that many bytes in the file, if it was opened -/
  | writeFails (written : Option ℕ)
  | commit (answered : Bool)
  /-- an exception of `upload_receipt`, or the end of the task -/
  | interrupt

inductive Event where
  /-- an expense committed by another request -/
  | expense (expenseId : Id)
  | act (i : ℕ) (a : Act)

def State.setPhase (s : State) (i : ℕ) (p : Phase) : State :=
  { s with phase := Function.update s.phase i p }

@[simp] theorem setPhase_self (s : State) (i : ℕ) (p : Phase) : (s.setPhase i p).phase i = p :=
  Function.update_self ..

theorem setPhase_of_ne (s : State) {i j : ℕ} (p : Phase) (h : j ≠ i) :
    (s.setPhase i p).phase j = s.phase j := Function.update_of_ne h ..

/-- The end of a transaction. -/
def State.release (s : State) (i : ℕ) : State := { s with expenseLock := s.expenseLock.release i }

def State.raise (s : State) (i : ℕ) (stage : Stage) (error : Option Error) : State :=
  (s.release i).setPhase i (.raised stage error)

def State.takeExpense (s : State) (i : ℕ) (expenseId : Id) : State :=
  { s with expenseLock := s.expenseLock.take i expenseId }

/-- A value of the sequence is gone also where the INSERT fails. -/
def State.drawId (s : State) : State := { s with nextId := s.nextId + 1 }

def State.writeFile (s : State) (path : List PyStr) (content : Option (List UInt8)) : State :=
  { s with files := Function.update s.files path content }

/-- What `session.get` finds. -/
def State.lookup (s : State) (i : ℕ) (expenseId : Id) : State :=
  if expenseId ∈ s.expenses then s.setPhase i .found
  else s.raise i .lookup (some (.notFound s!"Expense {expenseId} not found"))

def State.checkDuplicate (s : State) (i : ℕ) (expenseId : Id) : State :=
  match s.receipts.find? (·.expenseId = some expenseId) with
  | none => s.setPhase i .checked
  | some existing => s.raise i .duplicateCheck
      (some (.conflict s!"Expense {expenseId} already has a receipt (id={existing.id})"))

def State.resolve (s : State) (i : ℕ) : Except PathError (List PyStr) → State
  | .ok path => s.setPhase i (.resolved path)
  | .error .escapes =>
      s.raise i .path (some (.notFound "Stored file path escapes the storage directory"))
  | .error .symlinkLoop => s.raise i .path none

/-- The INSERT, with the foreign key and the unique index of `expense_id`. An uncommitted row for the same
expense is waited for. -/
def State.insert (s : State) (i : ℕ) (row : Receipt) : Option State :=
  match row.expenseId with
  | none => some (s.setPhase i (.flushed row))
  | some expenseId =>
      if s.expenseLock.Free i expenseId then
        some (if expenseId ∈ s.expenses ∧ ∀ r ∈ s.receipts, r.expenseId ≠ some expenseId then
            (s.takeExpense i expenseId).setPhase i (.flushed row)
          else s.raise i .flush (some (.conflict s!"Expense {expenseId} already has a receipt")))
      else none

/-- What `write_bytes` leaves when it raises. -/
def State.writeFails (s : State) (path : List PyStr) (content : List UInt8) : Option ℕ → State
  | none => s
  | some written => s.writeFile path (some (content.take written))

def State.commit (s : State) (i : ℕ) (row : Receipt) : State :=
  ({ s with receipts := s.receipts ++ [row] }.release i).setPhase i (.committed row)

/-- One await of a request with the upload `a`; `none` where it waits or does not stand there. -/
def act (u : Setup) (a : Upload) (s : State) (i : ℕ) : Phase → Act → Option State
  | .idle, .lookup answered => some (match a.expenseId with
      | none => s.setPhase i .checked
      | some expenseId => if answered then s.lookup i expenseId else s.raise i .lookup none)
  | .found, .checkDuplicate answered => a.expenseId.map fun expenseId =>
      if answered then s.checkDuplicate i expenseId else s.raise i .duplicateCheck none
  | .checked, .resolve answered =>
      some (if answered then s.resolve i (u.path a) else s.raise i .path none)
  | .resolved path, .flush answered =>
      if answered then s.drawId.insert i (a.receipt s.nextId path) else some (s.raise i .flush none)
  | .flushed row, .writeBytes =>
      some ((s.writeFile row.storagePath (some a.content)).setPhase i (.stored row))
  | .flushed row, .writeFails written =>
      some ((s.writeFails row.storagePath a.content written).raise i .write none)
  | .stored row, .commit answered => some (if answered then s.commit i row else s.raise i .commit none)
  | .committed _, _ | .raised _ _, _ => none
  | _, .interrupt => some (s.raise i .outside none)
  | _, _ => none

def step (u : Setup) (s : State) : Event → Option State
  | .expense expenseId => some { s with expenses := expenseId :: s.expenses }
  | .act i x => (u.uploads[i]?).bind fun a => act u a s i (s.phase i) x

/-- No row committed, no request sent. -/
def State.init (u : Setup) : State := ⟨[], [], 1, fun _ => none, u.files, fun _ => .idle⟩

end ReckonFlow.StoreUpload
