import ReckonFlow.Lib.Fallible
import ReckonFlow.Lib.Lts
import ReckonFlow.Spec.Models

/-! The ledger tables of the migrations, written by any SQL of any number of sessions: keys,
foreign keys, the row triggers that refuse UPDATE and DELETE, and the constraint trigger on
the balance. A row carries its CHECKs; an INSERT that fails one is an `error`. TRUNCATE and
DDL, which fire no row trigger, are left out, and accounts are only added. -/

namespace ReckonFlow.LedgerSession

structure Rows where
  accounts : List Account
  transactions : List LedgerTransaction
  entries : List LedgerEntry
  deriving DecidableEq

def Rows.empty : Rows := ⟨[], [], []⟩

def Rows.append (a b : Rows) : Rows :=
  ⟨a.accounts ++ b.accounts, a.transactions ++ b.transactions, a.entries ++ b.entries⟩

instance : Append Rows := ⟨Rows.append⟩

/-- What the unique indexes hold. -/
inductive Key where
  | account (id : Id)
  | code (code : String)
  | transaction (id : Id)
  | reference (reference : String)
  | entry (id : Id)
  deriving DecidableEq

def Rows.keys (r : Rows) : List Key :=
  r.accounts.map (.account ·.id) ++ r.accounts.map (.code ·.code) ++
    r.transactions.map (.transaction ·.id) ++ r.transactions.map (.reference ·.reference) ++
    r.entries.map (.entry ·.id)

/-- `SUM(debit) - SUM(credit)` of a transaction. -/
def imbalance (entries : List LedgerEntry) (transactionId : Id) : ℚ :=
  let found := entries.filter (·.transactionId = transactionId)
  (found.map (·.debit.value)).sum - (found.map (·.credit.value)).sum

/-- `check_ledger_transaction_balanced`, on the rows the session sees. -/
def checkBalanced (entries : List LedgerEntry) (transactionId : Id) : Except Error Unit := do
  let imbalance ← numeric "imbalance" (imbalance entries transactionId)
  ensure (imbalance.units = 0) (.integrity "trg_ledger_tx_balanced")

/-- `refuse_ledger_mutation`, before each row that an UPDATE or a DELETE has found. -/
def refuseLedgerMutation (op table : String) : Except Error Unit :=
  .error (.integrity <| s!"ledger is append-only: {op} on {table} is not allowed; " ++
    "post a reversing transaction")

/-- What a transaction has done so far: its rows, and the checks of the constraint trigger that
are due, one for each entry. -/
structure Work where
  own : Rows := .empty
  pending : List Id := []

/-- The session's snapshot, if its isolation level keeps one, and its savepoints. -/
inductive Phase where
  | idle
  | active (snapshot : Option Rows) (work : Work) (saved : List Work)
  /-- after an error only a rollback is possible -/
  | broken (snapshot : Option Rows) (saved : List Work)
  | ended

variable {n : ℕ}

/-- The committed rows and `n` sessions. -/
structure State (n : ℕ) where
  committed : Rows
  phase : Fin n → Phase

inductive Event (n : ℕ) where
  | start (i : Fin n) (repeatable : Bool)
  | insert (i : Fin n) (new : Rows)
  /-- UPDATE or DELETE … WHERE, by the rows it finds -/
  | mutateTransactions (i : Fin n) (op : String) (found : LedgerTransaction → Bool)
  | mutateEntries (i : Fin n) (op : String) (found : LedgerEntry → Bool)
  /-- the next check that is due: at the commit, or at SET CONSTRAINTS … IMMEDIATE -/
  | check (i : Fin n)
  | error (i : Fin n)
  | savepoint (i : Fin n)
  | rollbackTo (i : Fin n)
  | releaseSavepoint (i : Fin n)
  | commit (i : Fin n)
  | rollback (i : Fin n)

def State.setPhase (s : State n) (i : Fin n) (p : Phase) : State n :=
  { s with phase := Function.update s.phase i p }

/-- The work a session may still commit: what it has done, and what it can roll back to. -/
def works : Phase → List Work
  | .active _ work saved => work :: saved
  | .broken _ saved => saved
  | _ => []

/-- Another session has one of the keys in a row that is not committed: the INSERT waits. -/
def Contended (s : State n) (i : Fin n) (new : Rows) : Prop :=
  ∃ j, j ≠ i ∧ ∃ w ∈ works (s.phase j), ∃ k ∈ new.keys, k ∈ w.own.keys

instance (s : State n) (i : Fin n) (new : Rows) : Decidable (Contended s i new) :=
  inferInstanceAs (Decidable (∃ _ : Fin n, _))

/-- The unique indexes and the foreign keys, which look at all committed rows. -/
def insertRows (committed : Rows) (work : Work) (new : Rows) : Except Error Work := do
  let rows := committed ++ (work.own ++ new)
  ensure (∀ k ∈ new.keys, k ∉ (committed ++ work.own).keys) (.integrity "unique")
  ensure new.keys.Nodup (.integrity "unique")
  ensure (∀ e ∈ new.entries, ∃ t ∈ rows.transactions, t.id = e.transactionId)
    (.integrity "ledger_entries_transaction_id_fkey")
  ensure (∀ e ∈ new.entries, ∃ a ∈ rows.accounts, a.id = e.accountId)
    (.integrity "ledger_entries_account_id_fkey")
  return ⟨work.own ++ new, work.pending ++ new.entries.map (·.transactionId)⟩

/-- The trigger before an UPDATE or a DELETE of the rows found. -/
def mutateRows {α : Type} (op table : String) (found : α → Bool) (rows : List α) : Except Error Unit :=
  (rows.filter found).forM fun _ => refuseLedgerMutation op table

/-- A statement that fails breaks the transaction. -/
def State.attempt (s : State n) (i : Fin n) (snapshot : Option Rows) (saved : List Work) :
    Except Error Work → State n
  | .ok work => s.setPhase i (.active snapshot work saved)
  | .error _ => s.setPhase i (.broken snapshot saved)

/-- The rows a statement of a session sees. -/
def State.seen (s : State n) (snapshot : Option Rows) (work : Work) : Rows :=
  snapshot.getD s.committed ++ work.own

/-- One statement of session `i`; `none` where it waits or does not stand there. -/
def step (s : State n) : Event n → Option (State n)
  | .start i repeatable => match s.phase i with
      | .idle => some (s.setPhase i
          (.active (if repeatable then some s.committed else none) {} []))
      | _ => none
  | .insert i new => match s.phase i with
      | .active snapshot work saved =>
          if Contended s i new then none
          else some (s.attempt i snapshot saved (insertRows s.committed work new))
      | _ => none
  | .mutateTransactions i op found => match s.phase i with
      | .active snapshot work saved => some (s.attempt i snapshot saved
          ((mutateRows op "ledger_transactions" found (s.seen snapshot work).transactions).map
            fun _ => work))
      | _ => none
  | .mutateEntries i op found => match s.phase i with
      | .active snapshot work saved => some (s.attempt i snapshot saved
          ((mutateRows op "ledger_entries" found (s.seen snapshot work).entries).map fun _ => work))
      | _ => none
  | .check i => match s.phase i with
      | .active snapshot ⟨own, t :: pending⟩ saved => some (s.attempt i snapshot saved
          ((checkBalanced (s.seen snapshot ⟨own, t :: pending⟩).entries t).map
            fun _ => ⟨own, pending⟩))
      | _ => none
  | .error i => match s.phase i with
      | .active snapshot _ saved => some (s.setPhase i (.broken snapshot saved))
      | _ => none
  | .savepoint i => match s.phase i with
      | .active snapshot work saved => some (s.setPhase i (.active snapshot work (work :: saved)))
      | _ => none
  | .rollbackTo i => match s.phase i with
      | .active snapshot _ (work :: saved) | .broken snapshot (work :: saved) =>
          some (s.setPhase i (.active snapshot work (work :: saved)))
      | _ => none
  | .releaseSavepoint i => match s.phase i with
      | .active snapshot work (_ :: saved) => some (s.setPhase i (.active snapshot work saved))
      | _ => none
  | .commit i => match s.phase i with
      | .active _ ⟨own, []⟩ _ => some { s.setPhase i .ended with committed := s.committed ++ own }
      | .broken _ _ => some (s.setPhase i .ended)
      | _ => none
  | .rollback i => match s.phase i with
      | .active _ _ _ | .broken _ _ => some (s.setPhase i .ended)
      | _ => none

/-- The tables as the migrations leave them. -/
def State.init (n : ℕ) : State n := ⟨.empty, fun _ => .idle⟩

end ReckonFlow.LedgerSession
