import ReckonFlow.Proofs.MoneyText
import ReckonFlow.Spec.SqliteImport

/-! The two ways an import inserts: row by row against the index, or after one query for the ids
that are there. -/

namespace ReckonFlow

open Decimal

variable {U : Unicode} {env : Env} {S : Sqlite} {db : Db} {t : SqliteTable} {row : BankCsvRow}
  {rows parsed : List BankCsvRow} {existing seen : List String}

/-! ## The rows the query lets through -/

def kept (existing : List String) : List String → List BankCsvRow → List BankCsvRow
  | _, [] => []
  | seen, row :: rows => match row.key with
      | none => row :: kept existing seen rows
      | some key => if key ∈ existing ∨ key ∈ seen then kept existing seen rows
          else row :: kept existing (key :: seen) rows

theorem kept_none (h : row.key = none) :
    kept existing seen (row :: rows) = row :: kept existing seen rows := by
  rw [kept, h]

theorem kept_skip {k : String} (h : row.key = some k) (hk : k ∈ existing ∨ k ∈ seen) :
    kept existing seen (row :: rows) = kept existing seen rows := by
  rw [kept, h]
  exact if_pos hk

theorem kept_new {k : String} (h : row.key = some k) (hexisting : k ∉ existing) (hseen : k ∉ seen) :
    kept existing seen (row :: rows) = row :: kept existing (k :: seen) rows := by
  rw [kept, h]
  exact if_neg (not_or.2 ⟨hexisting, hseen⟩)

/-- The three ways the list goes on. -/
theorem key_cases (existing seen : List String) (row : BankCsvRow) : row.key = none ∨
    (∃ k, row.key = some k ∧ (k ∈ existing ∨ k ∈ seen)) ∨
      ∃ k, row.key = some k ∧ k ∉ existing ∧ k ∉ seen := by
  cases row.key with
  | none => exact .inl rfl
  | some k =>
    by_cases h : k ∈ existing ∨ k ∈ seen
    · exact .inr (.inl ⟨k, rfl, h⟩)
    · exact .inr (.inr ⟨k, rfl, not_or.1 h⟩)

/-- An id that is stored makes no difference when seen. -/
theorem kept_existing {k : String} (h : k ∈ existing) {seen' : List String}
    (hsame : ∀ j, j ∈ seen' ↔ j = k ∨ j ∈ seen) : kept existing seen' rows = kept existing seen rows := by
  induction rows generalizing seen seen' with
  | nil => rfl
  | cons row rows ih =>
    rcases key_cases existing seen row with hk | ⟨j, hk, hj⟩ | ⟨j, hk, hexisting, hseen⟩
    · rw [kept_none hk, kept_none hk, ih hsame]
    · rw [kept_skip hk hj, kept_skip hk (hj.imp id fun hj => (hsame j).2 (.inr hj)), ih hsame]
    · have hne : j ≠ k := by
        rintro rfl
        exact hexisting h
      have hseen' : j ∉ seen' := fun hj => ((hsame j).1 hj).elim hne hseen
      rw [kept_new hk hexisting hseen, kept_new hk hexisting hseen']
      congr 1
      refine ih fun i => ?_
      rw [List.mem_cons, List.mem_cons, hsame]
      tauto

/-- Not stored yet. -/
def New (existing : List String) (row : BankCsvRow) : Prop := ∀ k ∈ existing, row.key ≠ some k

instance (existing : List String) : DecidablePred (New existing) := fun _ => inferInstanceAs (Decidable (∀ k ∈ _, _))

/-- Up to their order the rows are the first ones of each new key and those without a key. -/
theorem kept_perm (existing seen : List String) (rows : List BankCsvRow) :
    (kept existing seen rows).Perm
      ((firsts BankCsvRow.key seen rows).filter (New existing ·) ++ unkeyed rows) := by
  induction rows generalizing seen with
  | nil => exact .refl _
  | cons row rows ih =>
    rcases key_cases existing seen row with hk | ⟨k, hk, hmem⟩ | ⟨k, hk, hexisting, hseen⟩
    · rw [kept_none hk, firsts_none hk, unkeyed_none hk]
      exact ((ih seen).cons row).trans List.perm_middle.symm
    · rw [kept_skip hk hmem, unkeyed_some hk]
      by_cases hseen : k ∈ seen
      · rw [firsts_seen hk hseen]
        exact ih seen
      · have hexisting := hmem.resolve_right hseen
        have hold : ¬ New existing row := fun h => h k hexisting hk
        have hsame : ∀ j, j ∈ k :: seen ↔ j = k ∨ j ∈ seen := fun j => List.mem_cons
        rw [firsts_new hk hseen, List.filter_cons_of_neg (by simpa using hold),
          ← kept_existing hexisting hsame]
        exact ih (k :: seen)
    · have hnew : New existing row := by
        rintro j hj hrow
        obtain rfl := Option.some.inj (hk.symm.trans hrow)
        exact hexisting hj
      rw [kept_new hk hexisting hseen, firsts_new hk hseen, List.filter_cons_of_pos (by simpa using hnew),
        unkeyed_some hk]
      exact (ih (k :: seen)).cons row

theorem mem_of_mem_kept (h : row ∈ kept existing seen rows) :
    row ∈ rows ∧ ∀ k, row.key = some k → k ∉ existing ∧ k ∉ seen := by
  induction rows generalizing seen with
  | nil => cases h
  | cons r rows ih =>
    rcases key_cases existing seen r with hk | ⟨k, hk, hmem⟩ | ⟨k, hk, hexisting, hseen⟩
    · rw [kept_none hk] at h
      rcases List.mem_cons.1 h with rfl | h
      · refine ⟨List.mem_cons_self .., fun k hk' => ?_⟩
        cases hk.symm.trans hk'
      · exact ⟨List.mem_cons_of_mem _ (ih h).1, (ih h).2⟩
    · rw [kept_skip hk hmem] at h
      exact ⟨List.mem_cons_of_mem _ (ih h).1, (ih h).2⟩
    · rw [kept_new hk hexisting hseen] at h
      rcases List.mem_cons.1 h with rfl | h
      · refine ⟨List.mem_cons_self .., fun j hj => ?_⟩
        obtain rfl := Option.some.inj (hk.symm.trans hj)
        exact ⟨hexisting, hseen⟩
      · obtain ⟨hmem, hfree⟩ := ih h
        refine ⟨List.mem_cons_of_mem _ hmem, fun j hj => ⟨(hfree j hj).1, fun hjs => ?_⟩⟩
        exact (hfree j hj).2 (List.mem_cons_of_mem _ hjs)

theorem kept_distinct (existing seen : List String) (rows : List BankCsvRow) :
    (kept existing seen rows).Pairwise fun r r' => ∀ k, r.key = some k → r'.key ≠ some k := by
  induction rows generalizing seen with
  | nil => exact .nil
  | cons row rows ih =>
    rcases key_cases existing seen row with hk | ⟨k, hk, hmem⟩ | ⟨k, hk, hexisting, hseen⟩
    · rw [kept_none hk]
      refine (ih seen).cons fun r _ k hk' => ?_
      cases hk.symm.trans hk'
    · rw [kept_skip hk hmem]
      exact ih seen
    · rw [kept_new hk hexisting hseen]
      refine (ih (k :: seen)).cons fun r hr j hj hrj => ?_
      obtain rfl := Option.some.inj (hk.symm.trans hj)
      exact ((mem_of_mem_kept hr).2 k hrj).2 (List.mem_cons_self ..)

/-! ## The loop and the flush -/

theorem safe_loop (existing : List String) (rows : List BankCsvRow) (st : SafeState) : ∃ seen skipped,
    rows.foldl (safeRow existing) st =
      ⟨st.pending ++ kept existing st.seenInFile rows, seen,
        st.inserted + (kept existing st.seenInFile rows).length, skipped⟩ ∧
      (kept existing st.seenInFile rows).length + skipped = st.skipped + rows.length := by
  induction rows generalizing st with
  | nil => exact ⟨st.seenInFile, st.skipped, by simp [kept], by simp [kept]⟩
  | cons row rows ih =>
    rw [List.foldl_cons]
    rcases key_cases existing st.seenInFile row with hk | ⟨k, hk, hmem⟩ | ⟨k, hk, hexisting, hseen⟩
    · have hstep : safeRow existing st row =
          { st with pending := st.pending ++ [row], inserted := st.inserted + 1 } := by
        rw [safeRow, hk]
      obtain ⟨seen, skipped, hloop, hsum⟩ := ih (safeRow existing st row)
      rw [hstep] at hloop hsum ⊢
      refine ⟨seen, skipped, ?_, ?_⟩
      · rw [hloop, kept_none hk, List.append_assoc, List.singleton_append, List.length_cons]
        congr 1
        exact Nat.add_right_comm ..
      · rw [kept_none hk, List.length_cons, List.length_cons]
        simp only at hsum
        omega
    · have hstep : safeRow existing st row = { st with skipped := st.skipped + 1 } := by
        rw [safeRow, hk]
        exact if_pos hmem
      obtain ⟨seen, skipped, hloop, hsum⟩ := ih (safeRow existing st row)
      rw [hstep] at hloop hsum ⊢
      refine ⟨seen, skipped, ?_, ?_⟩
      · rw [hloop, kept_skip hk hmem]
      · rw [kept_skip hk hmem, List.length_cons]
        simp only at hsum
        omega
    · have hstep : safeRow existing st row = { st with
          seenInFile := k :: st.seenInFile
          pending := st.pending ++ [row]
          inserted := st.inserted + 1 } := by
        rw [safeRow, hk]
        exact if_neg (not_or.2 ⟨hexisting, hseen⟩)
      obtain ⟨seen, skipped, hloop, hsum⟩ := ih (safeRow existing st row)
      rw [hstep] at hloop hsum ⊢
      refine ⟨seen, skipped, ?_, ?_⟩
      · rw [hloop, kept_new hk hexisting hseen, List.append_assoc, List.singleton_append,
          List.length_cons]
        congr 1
        exact Nat.add_right_comm ..
      · rw [kept_new hk hexisting hseen, List.length_cons, List.length_cons]
        simp only at hsum
        omega

/-- The rows behind the old ones when `vs` is flushed. -/
theorem flush_sqlite (env : Env) (S : Sqlite) (t : SqliteTable)
    (hfree : ∀ r ∈ rows, ¬ SqliteTaken t r.externalId)
    (hdistinct : rows.Pairwise fun r r' => r.externalId ≠ none → r'.externalId ≠ r.externalId) :
    ∃ t' new, rows.foldlM (flushSqlite env S) t = .ok t' ∧ t'.rows = t.rows ++ new ∧
      new.map ({ · with id := 0 }) = rows.map (sqliteRow env S · 0) := by
  induction rows generalizing t with
  | nil => exact ⟨t, [], rfl, (List.append_nil _).symm, rfl⟩
  | cons row rows ih =>
    obtain ⟨hrow, hrows⟩ := List.forall_mem_cons.1 hfree
    obtain ⟨hfirst, hrest⟩ := List.pairwise_cons.1 hdistinct
    have hinsert : flushSqlite env S t row = .ok (t.insert (sqliteRow env S row) fun _ => rfl) := by
      simp only [flushSqlite, Except.bind_eq_ok, ensure_eq_ok, Except.pure_eq_ok]
      exact ⟨(), hrow, trivial⟩
    obtain ⟨t', new, hloop, hnew, hids⟩ := ih (t.insert (sqliteRow env S row) fun _ => rfl) (by
      rintro r hr ⟨hne, r', hr', he⟩
      rcases Table.mem_insert.1 hr' with hr' | rfl
      · exact hrows r hr ⟨hne, r', hr', he⟩
      · have hsame : row.externalId = r.externalId := he
        exact hfirst r hr (hsame ▸ hne) hsame.symm) hrest
    refine ⟨t', sqliteRow env S row t.next :: new, ?_, ?_, ?_⟩
    · rw [List.foldlM_cons, hinsert]
      exact hloop
    · rw [hnew]
      exact (List.append_cons ..).symm
    · rw [List.map_cons, List.map_cons, hids]
      rfl

/-! ## Contents -/

/-- A row without its id, its amount as a number. -/
def BankTransaction.contents (r : BankTransaction) : SqliteRow :=
  ⟨0, r.bookingDate, r.amount.value, r.currency, r.description, r.externalId, r.matchStatus,
    r.matchedExpenseId, r.embedding⟩

/-- The tables are equal up to the ids. -/
def SameContents (db : Db) (t : SqliteTable) : Prop :=
  (db.bankTransactions.rows.map BankTransaction.contents).Perm (t.rows.map ({ · with id := 0 }))

/-- What validation lets through. -/
def FromCsv (U : Unicode) (env : Env) (row : BankCsvRow) : Prop := ∃ raw, validateRow U env raw = .ok row

theorem FromCsv.validated (h : FromCsv U env row) : Validated row := by
  obtain ⟨raw, hraw⟩ := h
  exact validated_of_row hraw

theorem FromCsv.hasScale (h : FromCsv U env row) : HasScale 4 row.amount := by
  obtain ⟨raw, hraw⟩ := h
  have hamount := (validateRow_ok hraw).1
  unfold validateAmount at hamount
  split at hamount
  · cases hamount
  · exact mustBeDecimal_hasScale hamount
  · cases hamount

/-- The two stores keep the same of a row unless its currency loses blanks at the end. -/
theorem contents_eq_iff (h : FromCsv U env row) {v : BankValues} (hv : bankValues env row = .ok v) (id : Id) :
    (v.transaction id).contents = sqliteRow env S row 0 ↔ row.currency.toList.length ≤ 3 := by
  have hext := h.validated.externalId hv
  simp only [bankValues, Except.bind_eq_ok, Except.pure_eq_ok] at hv
  obtain ⟨m, hm, c, hc, d, hd, x, -, rfl⟩ := hv
  -- the amount
  have hstored := numeric_eq_ok.1 hm
  have hamount : m.value = S.readBack row.amount := by
    rw [S.exact _ h.hasScale ((ofRat?_of_hasScale h.hasScale).1 ⟨m, hstored⟩)]
    exact Numeric.value_of_ofRat? h.hasScale hstored
  -- the description
  have hdescription : d = row.description := by
    unfold text at hd
    split_ifs at hd
    exact (Except.ok.inj hd).symm
  -- the currency
  have hcurrency : c = row.currency ↔ row.currency.toList.length ≤ 3 := by
    constructor
    · intro he
      unfold varchar at hc
      split_ifs at hc
      obtain rfl := Except.ok.inj hc
      have hlength := congrArg (fun s : String => s.toList.length) he
      simp only [String.toList_ofList, List.length_take] at hlength
      omega
    · exact fun hle => varchar_short hle hc
  have hx : x = row.externalId := hext
  rw [← hcurrency]
  constructor
  · intro he
    exact congrArg SqliteRow.currency he
  · intro he
    simp only [BankTransaction.contents, BankValues.transaction, sqliteRow, hamount, hdescription, he, hx]

theorem taken_iff (h : SameContents db t) (x : Option String) : SqliteTaken t x ↔ ExternalIdTaken db x := by
  have hmem : ∀ c, c ∈ db.bankTransactions.rows.map BankTransaction.contents ↔
      c ∈ t.rows.map ({ · with id := 0 } : SqliteRow → SqliteRow) := fun c => h.mem_iff
  unfold SqliteTaken ExternalIdTaken
  refine and_congr_right fun _ => ?_
  constructor
  · rintro ⟨r, hr, rfl⟩
    obtain ⟨r', hr', he⟩ := List.mem_map.1 ((hmem _).2 (List.mem_map_of_mem hr))
    exact ⟨r', hr', congrArg SqliteRow.externalId he⟩
  · rintro ⟨r, hr, rfl⟩
    obtain ⟨r', hr', he⟩ := List.mem_map.1 ((hmem _).1 (List.mem_map_of_mem hr))
    exact ⟨r', hr', congrArg SqliteRow.externalId he⟩

/-- The query finds the ids of the file that are stored. -/
theorem mem_existing {candidates : List String} {k : String} (hk : k ∈ candidates) :
    k ∈ existingExternalIds t candidates ↔ SqliteTaken t (some k) := by
  have hne : candidates ≠ [] := List.ne_nil_of_mem hk
  unfold existingExternalIds SqliteTaken
  rw [if_neg hne]
  simp [hk]

/-! ## The rows sent -/

/-- The rows both paths insert: past the ids that are stored. -/
def sent (db : Db) (parsed : List BankCsvRow) : List BankCsvRow :=
  (firsts BankCsvRow.key [] parsed).filter (fun row => ¬ ExternalIdTaken db row.externalId) ++ unkeyed parsed

theorem mem_sent (hvalid : ∀ r ∈ parsed, Validated r) :
    row ∈ sent db parsed ↔ row ∈ reaching parsed ∧ ¬ ExternalIdTaken db row.externalId := by
  unfold sent reaching
  rw [List.mem_append, List.mem_append, List.mem_filter, decide_eq_true_iff, or_and_right]
  refine or_congr_right ⟨fun h => ⟨h, ?_⟩, fun h => h.1⟩
  obtain ⟨hmem, hk⟩ := mem_unkeyed.1 h
  exact fun htaken => htaken.1 ((hvalid row hmem).key.symm.trans hk)

theorem newRows_eq (env : Env) (db : Db) (parsed : List BankCsvRow) :
    newRows env db parsed = (sent db parsed).filterMap (stored env) := List.filterMap_append.symm

theorem kept_sent (hsame : SameContents db t) (hvalid : ∀ r ∈ parsed, Validated r) :
    (kept (existingExternalIds t (parsed.filterMap BankCsvRow.key)) [] parsed).Perm (sent db parsed) := by
  refine (kept_perm _ _ _).trans (List.Perm.append_right _ (List.Perm.of_eq ?_))
  refine List.filter_congr fun row hrow => ?_
  obtain ⟨hmem, k, hk, -⟩ := mem_of_mem_firsts hrow
  have hext : row.externalId = some k := (hvalid row hmem).key.symm.trans hk
  have hexisting := mem_existing (t := t) (List.mem_filterMap.2 ⟨row, hmem, hk⟩)
  rw [taken_iff hsame] at hexisting
  rw [decide_eq_decide, hext, ← hexisting]
  constructor
  · exact fun hnew hk' => hnew k hk' hk
  · rintro hnew j hj hrow
    obtain rfl := Option.some.inj (hk.symm.trans hrow)
    exact hnew hj

/-- `_insert_sqlite_safe` always succeeds, and adds the rows sent. -/
theorem insertSqliteSafe_ok (env : Env) (S : Sqlite) (hsame : SameContents db t)
    (hvalid : ∀ r ∈ parsed, Validated r) : ∃ t' new skipped,
      insertSqliteSafe env S t parsed = .ok (t', (sent db parsed).length, skipped) ∧
      (sent db parsed).length + skipped = parsed.length ∧ t'.rows = t.rows ++ new ∧
      (new.map ({ · with id := 0 })).Perm ((sent db parsed).map (sqliteRow env S · 0)) := by
  have hperm := kept_sent hsame hvalid
  obtain ⟨seen, skipped, hloop, hsum⟩ :=
    safe_loop (existingExternalIds t (parsed.filterMap BankCsvRow.key)) parsed {}
  simp only [List.nil_append, zero_add] at hloop hsum
  have hkeys : ∀ r ∈ kept (existingExternalIds t (parsed.filterMap BankCsvRow.key)) [] parsed,
      r ∈ parsed ∧ r.key = r.externalId := fun r hr =>
    ⟨(mem_of_mem_kept hr).1, (hvalid r (mem_of_mem_kept hr).1).key⟩
  have hfree : ∀ r ∈ kept (existingExternalIds t (parsed.filterMap BankCsvRow.key)) [] parsed,
      ¬ SqliteTaken t r.externalId := by
    intro r hr
    rw [taken_iff hsame]
    exact ((mem_sent hvalid).1 (hperm.mem_iff.1 hr)).2
  have hdistinct := (kept_distinct (existingExternalIds t (parsed.filterMap BankCsvRow.key)) [] parsed).imp_of_mem
    (S := fun r r' => r.externalId ≠ none → r'.externalId ≠ r.externalId) (by
      intro r r' hr hr' hkey hne he
      obtain ⟨k, hk⟩ := Option.ne_none_iff_exists'.1 hne
      exact hkey k ((hkeys r hr).2.trans hk) (((hkeys r' hr').2.trans he).trans hk))
  obtain ⟨t', new, hflush, hrows, hids⟩ := flush_sqlite env S t hfree hdistinct
  refine ⟨t', new, skipped, ?_, ?_, hrows, ?_⟩
  · simp only [insertSqliteSafe, hloop, hflush, hperm.length_eq]
    rfl
  · rw [← hperm.length_eq]
    exact hsum
  · rw [hids]
    exact hperm.map _

/-- What PostgreSQL keeps of rows that it stores. -/
theorem contents_insertAll (db : Db) (vs : List BankValues) :
    (insertAll db vs).bankTransactions.rows.map BankTransaction.contents =
      db.bankTransactions.rows.map BankTransaction.contents ++
        vs.map fun v => (v.transaction 0).contents := by
  obtain ⟨new, hrows, hnew⟩ := insertAll_rows db vs
  have hids : new.map BankTransaction.contents =
      (new.map ({ · with id := 0 } : BankTransaction → BankTransaction)).map BankTransaction.contents := by
    rw [List.map_map]
    rfl
  rw [hrows, List.map_append, hids, hnew, List.map_map]
  rfl

theorem contents_stored (hst : ∀ r ∈ rows, Storable r) (hcsv : ∀ r ∈ rows, FromCsv U env r) :
    ((rows.filterMap (stored env)).map fun v => (v.transaction 0).contents).Perm
        (rows.map (sqliteRow env S · 0)) ↔ ∀ r ∈ rows, r.currency.toList.length ≤ 3 := by
  constructor
  · -- a code longer than three characters is in no column
    intro hperm r hr
    have hmem := hperm.mem_iff.2 (List.mem_map_of_mem (f := (sqliteRow env S · 0)) hr)
    obtain ⟨v, hv, he⟩ := List.mem_map.1 hmem
    obtain ⟨r', -, hr'⟩ := List.mem_filterMap.1 hv
    have hcurrency : v.currency = r.currency := congrArg SqliteRow.currency he
    have hvalues := stored_eq_some.1 hr'
    simp only [bankValues, Except.bind_eq_ok, Except.pure_eq_ok] at hvalues
    obtain ⟨m, -, c, hc, d, -, x, -, rfl⟩ := hvalues
    obtain ⟨-, -, rfl⟩ := varchar_eq_ok.1 hc
    rw [← hcurrency, String.toList_ofList, List.length_take]
    exact min_le_left ..
  · intro hshort
    refine List.Perm.of_eq ?_
    induction rows with
    | nil => rfl
    | cons r rows ih =>
      obtain ⟨hr, hrows⟩ := List.forall_mem_cons.1 hst
      obtain ⟨hcsvr, hcsvs⟩ := List.forall_mem_cons.1 hcsv
      obtain ⟨hshortr, hshorts⟩ := List.forall_mem_cons.1 hshort
      obtain ⟨v, hv⟩ := (storable_iff env).2 hr
      rw [List.filterMap_cons_some (stored_eq_some.2 hv), List.map_cons, List.map_cons, ih hrows hcsvs hshorts,
        (contents_eq_iff hcsvr hv 0).2 hshortr]

/-! ## Agreement -/

/-- Both paths return the same numbers, which add up to the rows given, and leave the same table. -/
def PathsAgree (env : Env) (S : Sqlite) (db : Db) (t : SqliteTable) (parsed : List BankCsvRow) : Prop :=
  ∃ after t' inserted skipped, insertPostgres env db parsed = .ok (after, inserted, skipped) ∧
    insertSqliteSafe env S t parsed = .ok (t', inserted, skipped) ∧
    SameContents after t' ∧ inserted + skipped = parsed.length

/-- The two paths agree iff every row that reaches the database fits its columns, and no new row has
a currency code that is longer only by blanks. -/
theorem import_paths_iff (U : Unicode) (env : Env) (S : Sqlite) (db : Db) (t : SqliteTable)
    (parsed : List BankCsvRow) (hsame : SameContents db t)
    (hcsv : ∀ row ∈ parsed, FromCsv U env row) : PathsAgree env S db t parsed ↔
      (∀ row ∈ reaching parsed, Storable row) ∧
      ∀ row ∈ reaching parsed, ¬ ExternalIdTaken db row.externalId → row.currency.toList.length ≤ 3 := by
  have hvalid : ∀ r ∈ parsed, Validated r := fun r hr => (hcsv r hr).validated
  have hsent : ∀ r ∈ sent db parsed, FromCsv U env r := by
    intro r hr
    rcases List.mem_append.1 ((mem_sent hvalid).1 hr).1 with h | h
    · exact hcsv r (mem_of_mem_firsts h).1
    · exact hcsv r (mem_unkeyed.1 h).1
  obtain ⟨t', new, skipped, hsqlite, hsum, hrows, hnew⟩ := insertSqliteSafe_ok env S hsame hvalid
  have hcontents : (∀ row ∈ reaching parsed, Storable row) →
      (SameContents (insertAll db (newRows env db parsed)) t' ↔
        ∀ r ∈ sent db parsed, r.currency.toList.length ≤ 3) := by
    intro hst
    have hstored := contents_stored (S := S) (fun r hr => hst r ((mem_sent hvalid).1 hr).1) hsent
    rw [← hstored, SameContents, contents_insertAll, newRows_eq, hrows, List.map_append]
    constructor
    · intro h
      have hcancel := (List.perm_append_left_iff _).1 (h.trans (hsame.symm.append_right _))
      exact hcancel.trans hnew
    · exact fun h => hsame.append (h.trans hnew.symm)
  have hshort : (∀ r ∈ sent db parsed, r.currency.toList.length ≤ 3) ↔ ∀ row ∈ reaching parsed,
      ¬ ExternalIdTaken db row.externalId → row.currency.toList.length ≤ 3 := by
    simp only [mem_sent hvalid, and_imp]
  constructor
  · rintro ⟨after, t'', inserted, skipped', hpostgres, hsafe, hafter, -⟩
    have hst := (insertPostgres_iff env db hvalid).1 ⟨_, hpostgres⟩
    obtain ⟨skipped'', hok, -⟩ := insertPostgres_ok env db hvalid hst
    rw [hok] at hpostgres
    rw [hsqlite] at hsafe
    obtain ⟨rfl, -⟩ := Prod.mk.inj (Except.ok.inj hpostgres)
    obtain ⟨rfl, -⟩ := Prod.mk.inj (Except.ok.inj hsafe)
    exact ⟨hst, hshort.1 ((hcontents hst).1 hafter)⟩
  · rintro ⟨hst, hcurrency⟩
    obtain ⟨skipped'', hok, hcount⟩ := insertPostgres_ok env db hvalid hst
    have hlength : (newRows env db parsed).length = (sent db parsed).length := by
      rw [newRows_eq, List.length_filterMap_eq_countP, List.countP_eq_length]
      intro r hr
      obtain ⟨v, hv⟩ := (storable_iff env).2 (hst r ((mem_sent hvalid).1 hr).1)
      rw [stored_eq_some.2 hv]
      rfl
    have hskipped : skipped'' = skipped := by omega
    refine ⟨_, t', _, skipped, ?_, hsqlite, (hcontents hst).2 (hshort.2 hcurrency), hsum⟩
    rw [hok, hlength, hskipped]

/-- A double that happens to hold every amount exactly. -/
def demoSqlite : Sqlite := ⟨id, fun _ _ _ => rfl⟩

def demoCsvRow (amount : ℚ) (externalId : Option String) : BankCsvRow :=
  ⟨⟨739618, by norm_num⟩, amount, "EUR", "?", externalId⟩

def demoRaw (amount externalId : String) : List (Option String × Csv.Value) :=
  [(some "booking_date", .cell "2026-01-02"), (some "amount", .cell amount),
    (some "description", .cell "?"), (some "external_id", .cell externalId)]

deriving instance DecidableEq for BankCsvRow

theorem fromCsv_demo {q : ℚ} {x : Option String} (amount externalId : String)
    (h : validateRow demoUnicode demoEnv (demoRaw amount externalId) = .ok (demoCsvRow q x)) :
    FromCsv demoUnicode demoEnv (demoCsvRow q x) := ⟨_, h⟩

theorem sameContents_empty : SameContents Db.empty Table.empty := .refl _

theorem import_paths_iff_mixed : PathsAgree demoEnv demoSqlite Db.empty Table.empty
    [demoCsvRow 5 (some "A"), demoCsvRow 7 none, demoCsvRow 9 (some "A")] := by
  have hcsv : ∀ row ∈ [demoCsvRow 5 (some "A"), demoCsvRow 7 none, demoCsvRow 9 (some "A")],
      FromCsv demoUnicode demoEnv row := by
    simp only [List.mem_cons, List.not_mem_nil, or_false, forall_eq_or_imp, forall_eq]
    exact ⟨fromCsv_demo "5" "A" (by decide +kernel), fromCsv_demo "7" "" (by decide +kernel),
      fromCsv_demo "9" "A" (by decide +kernel)⟩
  refine (import_paths_iff demoUnicode demoEnv demoSqlite _ _ _ sameContents_empty hcsv).2 ⟨?_, ?_⟩
  · have hreaching : reaching [demoCsvRow 5 (some "A"), demoCsvRow 7 none, demoCsvRow 9 (some "A")] =
        [demoCsvRow 5 (some "A"), demoCsvRow 7 none] := by decide +kernel
    rw [hreaching]
    simp only [List.mem_cons, List.not_mem_nil, or_false, forall_eq_or_imp, forall_eq]
    exact ⟨(storable_iff demoEnv).1 (Except.isOk_iff.1 (by decide +kernel)),
      (storable_iff demoEnv).1 (Except.isOk_iff.1 (by decide +kernel))⟩
  · decide +kernel

/-- An amount that only the columns of PostgreSQL refuse. -/
theorem import_paths_fail : ¬ ∀ (U : Unicode) (env : Env) (S : Sqlite) (db : Db) (t : SqliteTable)
    (parsed : List BankCsvRow), UniqueIds db → SameContents db t →
    (∀ row ∈ parsed, FromCsv U env row) → PathsAgree env S db t parsed := by
  intro hall
  have hcsv : ∀ row ∈ [demoCsvRow (10 ^ 12) none], FromCsv demoUnicode demoEnv row := by
    simp only [List.mem_singleton, forall_eq]
    exact fromCsv_demo "1e12" "" (by decide +kernel)
  obtain ⟨after, -, inserted, skipped, hpostgres, -⟩ := hall demoUnicode demoEnv demoSqlite Db.empty
    Table.empty _ (by rintro r ⟨⟩) sameContents_empty hcsv
  have hfailed : (insertPostgres demoEnv Db.empty [demoCsvRow (10 ^ 12) none]).isOk = false := by
    decide +kernel
  rw [hpostgres] at hfailed
  cases hfailed

end ReckonFlow
