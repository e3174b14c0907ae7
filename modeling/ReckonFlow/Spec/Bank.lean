import ReckonFlow.Lib.Fallible
import ReckonFlow.Lib.Text
import ReckonFlow.Spec.Models

/-! `services/bank.py`: the insertion of validated statement rows on PostgreSQL. -/

namespace ReckonFlow

variable (env : Env)

/-- `BankCsvRow`, after validation. -/
structure BankCsvRow where
  bookingDate : Date
  amount : ℚ
  currency : String := "EUR"
  description : String
  externalId : Option String := none

/-- The stored form of a row. -/
structure BankValues where
  bookingDate : Date
  amount : Money
  currency : String
  description : String
  externalId : Option String
  embedding : List ℚ

def bankValues (row : BankCsvRow) : Except Error BankValues := do
  let amount ← numeric "amount" row.amount
  let currency ← varchar "currency" 3 row.currency
  let description ← text "description" row.description
  let externalId ← nullable (varchar "external_id" 64) row.externalId
  return ⟨row.bookingDate, amount, currency, description, externalId, env.textEmbedding row.description⟩

/-- A new row is unmatched. -/
def insertBankRow (db : Db) (v : BankValues) : Db :=
  { db with
    bankTransactions := db.bankTransactions.insert
      (⟨·, v.bookingDate, v.amount, v.currency, v.description, v.externalId, .unmatched, none,
        some v.embedding⟩) fun _ => rfl }

def insertAll (db : Db) (vs : List BankValues) : Db := vs.foldl insertBankRow db

/-- The partial unique index on `external_id`. -/
def ExternalIdTaken (db : Db) (externalId : Option String) : Prop :=
  externalId ≠ none ∧ ∃ r ∈ db.bankTransactions.rows, r.externalId = externalId

instance (db : Db) (externalId : Option String) : Decidable (ExternalIdTaken db externalId) :=
  inferInstanceAs (Decidable (_ ∧ _))

/-- What the loop of `_insert_postgres` carries: rows without a key are only added to the
session, and flushed at the end. -/
structure ImportState where
  db : Db
  pending : List BankCsvRow := []
  seenInFile : List String := []
  inserted : ℕ := 0
  skipped : ℕ := 0

/-- `row.external_id`, when it is a key: present and not empty. -/
def BankCsvRow.key (row : BankCsvRow) : Option String := row.externalId.filter (· ≠ "")

def importRow (st : ImportState) (row : BankCsvRow) : Except Error ImportState :=
  match row.key with
  | none => .ok { st with pending := st.pending ++ [row], inserted := st.inserted + 1 }
  | some key =>
      if key ∈ st.seenInFile then .ok { st with skipped := st.skipped + 1 }
      else
        let st := { st with seenInFile := key :: st.seenInFile }
        -- INSERT … ON CONFLICT DO NOTHING
        (bankValues env row).map fun v =>
          if ExternalIdTaken st.db v.externalId then { st with skipped := st.skipped + 1 }
          else { st with db := insertBankRow st.db v, inserted := st.inserted + 1 }

/-- A pending row at the final flush. -/
def flushRow (db : Db) (row : BankCsvRow) : Except Error Db := do
  let v ← bankValues env row
  ensure (¬ ExternalIdTaken db v.externalId) (.integrity "ix_bank_transactions_external_id")
  return insertBankRow db v

/-- `_insert_postgres`: the tables, and the numbers of rows inserted and skipped. -/
def insertPostgres (db : Db) (parsed : List BankCsvRow) : Except Error (Db × ℕ × ℕ) := do
  let st ← parsed.foldlM (importRow env) { db := db }
  let db' ← st.pending.foldlM (flushRow env) st.db
  return (db', st.inserted, st.skipped)

end ReckonFlow
