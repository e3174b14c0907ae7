import ReckonFlow.Lib.Locks
import ReckonFlow.Lib.Lts
import ReckonFlow.Spec.BankCsv

/-! `import_csv` on PostgreSQL as concurrent sessions: one transaction per upload at READ
COMMITTED. INSERT … ON CONFLICT DO NOTHING waits while its external id stands in a row that
another transaction has inserted and not committed. -/

namespace ReckonFlow.ImportSession

/-- The loop of `_insert_postgres`. -/
structure Work where
  parsed : Parsed
  todo : List BankCsvRow
  /-- sent and not committed -/
  rows : List BankValues := []
  pending : List BankCsvRow := []
  seenInFile : List String := []
  inserted : ℕ := 0
  skipped : ℕ := 0

inductive Phase where
  | idle
  | importing (w : Work)
  /-- `import_csv` has returned -/
  | flushed (rows : List BankValues) (result : BankImportResult)
  | committed (result : BankImportResult)
  | failed (e : ImportFailure)
  | aborted

/-- A committed import: the rows it stored and what it reported. -/
structure Import where
  session : ℕ
  rows : List BankValues
  result : BankImportResult

/-- The committed tables, for each external id the session with an uncommitted row under it,
and the imports committed so far. -/
structure State where
  db : Db
  lock : Locks String
  phase : ℕ → Phase
  imports : List Import

inductive Event where
  /-- the file is read and validated -/
  | start (i : ℕ)
  /-- one round of the loop -/
  | insert (i : ℕ)
  | flush (i : ℕ)
  | commit (i : ℕ)
  /-- any failure from outside, or a deadlock broken by the database -/
  | abort (i : ℕ)
  deriving DecidableEq

def Event.session : Event → ℕ
  | .start i | .insert i | .flush i | .commit i | .abort i => i

def State.init (db : Db) : State := ⟨db, fun _ => none, fun _ => .idle, []⟩

def State.setPhase (s : State) (i : ℕ) (p : Phase) : State :=
  { s with phase := Function.update s.phase i p }

@[simp] theorem setPhase_self (s : State) (i : ℕ) (p : Phase) : (s.setPhase i p).phase i = p :=
  Function.update_self ..

theorem setPhase_of_ne (s : State) {i j : ℕ} (p : Phase) (h : j ≠ i) :
    (s.setPhase i p).phase j = s.phase j := Function.update_of_ne h ..

/-- The end of a transaction. -/
def State.finish (s : State) (i : ℕ) (p : Phase) : State :=
  { s with lock := s.lock.release i }.setPhase i p

def State.take (s : State) (i : ℕ) (key : String) : State := { s with lock := s.lock.take i key }

/-- A commit makes the rows visible. -/
def State.store (s : State) (i : ℕ) (rows : List BankValues) (result : BankImportResult) : State :=
  { s with db := insertAll s.db rows, imports := s.imports ++ [⟨i, rows, result⟩] }

variable (U : Unicode) (env : Env) (file : ℕ → List UInt8)

/-- `import_csv` up to the insertion. -/
def readFile (content : List UInt8) : Phase :=
  match parseCsv U env content with
  | .error e => .failed e
  | .ok none => .flushed [] ⟨0, 0, 0, [⟨0, .noHeader⟩]⟩
  | .ok (some parsed) => .importing { parsed, todo := parsed.rows }

/-- One row of the loop; `none` where the statement waits. -/
def insertRow (s : State) (i : ℕ) (w : Work) (row : BankCsvRow) : Option State :=
  match row.key with
  | none => some (s.setPhase i (.importing
      { w with pending := w.pending ++ [row], inserted := w.inserted + 1 }))
  | some key =>
      if key ∈ w.seenInFile then
        some (s.setPhase i (.importing { w with skipped := w.skipped + 1 }))
      else
        let w := { w with seenInFile := key :: w.seenInFile }
        match bankValues env row with
        | .error e => some (s.finish i (.failed (.database e)))
        | .ok v =>
            if s.lock.Free i key then
              if ExternalIdTaken s.db v.externalId then
                some (s.setPhase i (.importing { w with skipped := w.skipped + 1 }))
              else some ((s.take i key).setPhase i (.importing
                { w with rows := w.rows ++ [v], inserted := w.inserted + 1 }))
            else none

/-- The final flush: rows without an external id meet no index. -/
def flushWork (s : State) (i : ℕ) (w : Work) : State :=
  match w.pending.mapM (bankValues env) with
  | .error e => s.finish i (.failed (.database e))
  | .ok vs => s.setPhase i (.flushed (w.rows ++ vs)
      ⟨w.parsed.received, w.inserted, w.skipped, w.parsed.errors⟩)

/-- One step of session `i`; `none` where it waits or does not stand there. -/
def step (s : State) : Event → Option State
  | .start i => match s.phase i with
      | .idle => some (s.setPhase i (readFile U env (file i)))
      | _ => none
  | .insert i => match s.phase i with
      | .importing w => match w.todo with
          | [] => none
          | row :: todo => insertRow env s i { w with todo } row
      | _ => none
  | .flush i => match s.phase i with
      | .importing w => if w.todo = [] then some (flushWork env s i w) else none
      | _ => none
  | .commit i => match s.phase i with
      | .flushed rows result => some ((s.store i rows result).finish i (.committed result))
      | _ => none
  | .abort i => match s.phase i with
      | .importing _ | .flushed _ _ => some (s.finish i .aborted)
      | _ => none

/-- Session `i` stands at a row under an external id that `j` has inserted and not committed. -/
def Waits (s : State) (i j : ℕ) : Prop :=
  i ≠ j ∧ ∃ w row todo key v, s.phase i = .importing w ∧ w.todo = row :: todo ∧
    row.key = some key ∧ key ∉ w.seenInFile ∧ bankValues env row = .ok v ∧ s.lock key = some j

end ReckonFlow.ImportSession
