import ReckonFlow.Spec.BankCsv

/-! `_insert_sqlite_safe`, over a table whose columns hold any text and any number, and `import_csv`
with it. -/

namespace ReckonFlow

open Decimal

/-- SQLite keeps an amount as a double, and the driver reads it back with four decimals. -/
structure Sqlite where
  readBack : ℚ → ℚ
  /-- a double holds fifteen digits -/
  exact : ∀ q, HasScale 4 q → |q| < 10 ^ 11 → readBack q = q

structure SqliteRow where
  id : Id
  bookingDate : Date
  amount : ℚ
  currency : String
  description : String
  externalId : Option String
  matchStatus : MatchStatus
  matchedExpenseId : Option Id
  embedding : Option (List ℚ)
  deriving DecidableEq

abbrev SqliteTable := Table SqliteRow SqliteRow.id

variable (env : Env) (S : Sqlite)

/-- The row of the session, as it is read back. -/
def sqliteRow (row : BankCsvRow) (id : Id) : SqliteRow :=
  ⟨id, row.bookingDate, S.readBack row.amount, row.currency, row.description, row.externalId,
    .unmatched, none, some (env.textEmbedding row.description)⟩

/-- The unique index on `external_id`. -/
def SqliteTaken (t : SqliteTable) (externalId : Option String) : Prop :=
  externalId ≠ none ∧ ∃ r ∈ t.rows, r.externalId = externalId

instance (t : SqliteTable) (externalId : Option String) : Decidable (SqliteTaken t externalId) :=
  inferInstanceAs (Decidable (_ ∧ _))

/-- `_existing_external_ids` -/
def existingExternalIds (t : SqliteTable) (candidates : List String) : List String :=
  if candidates = [] then [] else (t.rows.filterMap (·.externalId)).filter (· ∈ candidates)

/-- What the loop of `_insert_sqlite_safe` carries. -/
structure SafeState where
  pending : List BankCsvRow := []
  seenInFile : List String := []
  inserted : ℕ := 0
  skipped : ℕ := 0

def safeRow (existingIds : List String) (st : SafeState) (row : BankCsvRow) : SafeState :=
  match row.key with
  | none => { st with pending := st.pending ++ [row], inserted := st.inserted + 1 }
  | some key =>
      if key ∈ existingIds ∨ key ∈ st.seenInFile then { st with skipped := st.skipped + 1 }
      else { st with
        seenInFile := key :: st.seenInFile
        pending := st.pending ++ [row]
        inserted := st.inserted + 1 }

/-- A row at the flush. -/
def flushSqlite (t : SqliteTable) (row : BankCsvRow) : Except Error SqliteTable := do
  ensure (¬ SqliteTaken t row.externalId) (.integrity "ix_bank_transactions_external_id")
  return t.insert (sqliteRow env S row) fun _ => rfl

/-- `_insert_sqlite_safe` -/
def insertSqliteSafe (t : SqliteTable) (parsed : List BankCsvRow) : Except Error (SqliteTable × ℕ × ℕ) := do
  let existingIds := existingExternalIds t (parsed.filterMap BankCsvRow.key)
  let st := parsed.foldl (safeRow existingIds) {}
  let t' ← st.pending.foldlM (flushSqlite env S) t
  return (t', st.inserted, st.skipped)

/-- `import_csv` on SQLite. -/
def importCsvSqlite (U : Unicode) (t : SqliteTable) (content : List UInt8) :
    Except ImportFailure (SqliteTable × BankImportResult) := do
  match ← parseCsv U env content with
  | none => return (t, ⟨0, 0, 0, [⟨0, .noHeader⟩]⟩)
  | some parsed =>
      let (t', inserted, skipped) ← (insertSqliteSafe env S t parsed.rows).mapError .database
      return (t', ⟨parsed.received, inserted, skipped, parsed.errors⟩)

end ReckonFlow
