import ReckonFlow.Lib.Firsts
import ReckonFlow.Proofs.Service
import ReckonFlow.Spec.BankCsv

/-! `_insert_postgres` as a whole: which rows make it fail, and otherwise which rows it adds. -/

namespace ReckonFlow

variable {env : Env} {db db' : Db} {row : BankCsvRow} {rows : List BankCsvRow}

/-! ## Columns -/

/-- What a `VARCHAR(n)` column takes. -/
def Fits (n : ℕ) (s : String) : Prop := '\x00' ∉ s.toList ∧ (s.toList.drop n).all (· = ' ')

theorem varchar_ok (column : String) {n : ℕ} {s : String} :
    (∃ s', varchar column n s = .ok s') ↔ Fits n s := by
  unfold varchar Fits
  split_ifs with hnul hlong
  · simp [hnul]
  · simp only [hnul, hlong, not_false_eq_true, and_self, iff_true]
    exact ⟨_, rfl⟩
  · simp [hlong]

theorem varchar_short {column : String} {n : ℕ} {s s' : String} (hs : s.toList.length ≤ n)
    (h : varchar column n s = .ok s') : s' = s := by
  unfold varchar at h
  split_ifs at h
  obtain rfl := Except.ok.inj h
  rw [List.take_of_length_le hs, String.ofList_toList]

theorem numeric_ok {column : String} {q : ℚ} :
    (∃ m, numeric column q = .ok m) ↔ |Decimal.roundHalfAway (q * 10 ^ 4)| < 10 ^ 15 := by
  unfold numeric
  by_cases h : |Decimal.roundHalfAway (q * 10 ^ 4)| < 10 ^ 15
  · have hsome : (Numeric.ofRat? q : Option Money) = some ⟨_, h⟩ := dif_pos h
    rw [hsome]
    exact iff_of_true ⟨_, rfl⟩ h
  · have hnone : (Numeric.ofRat? q : Option Money) = none := dif_neg h
    rw [hnone]
    exact iff_of_false (by rintro ⟨m, hm⟩; cases hm) h

/-- Every column takes its value. -/
structure Storable (row : BankCsvRow) : Prop where
  amount : |Decimal.roundHalfAway (row.amount * 10 ^ 4)| < 10 ^ 15
  currency : Fits 3 row.currency
  description : '\x00' ∉ row.description.toList
  externalId : ∀ x, row.externalId = some x → Fits 64 x

theorem storable_iff (env : Env) : (∃ v, bankValues env row = .ok v) ↔ Storable row := by
  have hamount : (∃ m, numeric "amount" row.amount = .ok m) ↔
      |Decimal.roundHalfAway (row.amount * 10 ^ 4)| < 10 ^ 15 := numeric_ok
  have hdescription : (∃ t, text "description" row.description = .ok t) ↔
      '\x00' ∉ row.description.toList := by
    unfold text
    split_ifs with h
    · simp [h]
    · simp [h]
  have hexternal : (∃ x, nullable (varchar "external_id" 64) row.externalId = .ok x) ↔
      ∀ x, row.externalId = some x → Fits 64 x := by
    cases row.externalId with
    | none => simp [nullable]
    | some x =>
      simp only [nullable, Except.map_eq_ok, Option.some.injEq, forall_eq']
      rw [← varchar_ok "external_id"]
      constructor
      · rintro ⟨_, s', hs', -⟩
        exact ⟨s', hs'⟩
      · rintro ⟨s', hs'⟩
        exact ⟨_, s', hs', rfl⟩
  constructor
  · rintro ⟨v, hv⟩
    simp only [bankValues, Except.bind_eq_ok, Except.pure_eq_ok] at hv
    obtain ⟨m, hm, c, hc, t, ht, x, hx, -⟩ := hv
    exact ⟨hamount.1 ⟨m, hm⟩, (varchar_ok _).1 ⟨c, hc⟩, hdescription.1 ⟨t, ht⟩, hexternal.1 ⟨x, hx⟩⟩
  · intro h
    obtain ⟨m, hm⟩ := hamount.2 h.amount
    obtain ⟨c, hc⟩ := (varchar_ok "currency").2 h.currency
    obtain ⟨t, ht⟩ := hdescription.2 h.description
    obtain ⟨x, hx⟩ := hexternal.2 h.externalId
    refine ⟨⟨row.bookingDate, m, c, t, x, env.textEmbedding row.description⟩, ?_⟩
    simp only [bankValues, hm, hc, ht, hx]
    rfl

/-- What validation leaves in `external_id`. -/
def Validated (row : BankCsvRow) : Prop :=
  ∀ x, row.externalId = some x → x ≠ "" ∧ x.toList.length ≤ 64

theorem Validated.key (h : Validated row) : row.key = row.externalId := by
  unfold BankCsvRow.key
  cases hx : row.externalId with
  | none => rfl
  | some x => exact Option.filter_eq_some_iff.2 ⟨rfl, by simpa using (h x hx).1⟩

theorem Validated.externalId (h : Validated row) {v : BankValues}
    (hv : bankValues env row = .ok v) : v.externalId = row.externalId := by
  simp only [bankValues, Except.bind_eq_ok, Except.pure_eq_ok] at hv
  obtain ⟨m, -, c, -, t, -, x, hx, rfl⟩ := hv
  cases hext : row.externalId with
  | none =>
    rw [hext] at hx
    exact (Except.ok.inj hx).symm
  | some y =>
    rw [hext] at hx
    obtain ⟨s', hs', rfl⟩ := Except.map_eq_ok.1 hx
    exact congrArg some (varchar_short (h y hext).2 hs')

/-! ## The rows added -/

/-- What is stored of a row, if it can be. -/
def stored (env : Env) (row : BankCsvRow) : Option BankValues := (bankValues env row).toOption

theorem stored_eq_some {v : BankValues} : stored env row = some v ↔ bankValues env row = .ok v := by
  unfold stored
  cases bankValues env row with
  | ok v' => exact ⟨fun h => congrArg _ (Option.some.inj h), fun h => congrArg _ (Except.ok.inj h)⟩
  | error e => exact iff_of_false (by rintro ⟨⟩) (by rintro ⟨⟩)

theorem taken_insert {v : BankValues} {x : Option String} :
    ExternalIdTaken (insertBankRow db v) x ↔ ExternalIdTaken db x ∨ (x ≠ none ∧ v.externalId = x) := by
  have hmem : ∀ r, r ∈ (insertBankRow db v).bankTransactions.rows ↔ r ∈ db.bankTransactions.rows ∨
      r = ⟨db.bankTransactions.next, v.bookingDate, v.amount, v.currency, v.description,
        v.externalId, .unmatched, none, some v.embedding⟩ := fun r => Table.mem_insert
  unfold ExternalIdTaken
  simp only [hmem, or_and_right, exists_or, exists_eq_left, and_or_left]

/-- The keyed rows an import inserts: the first of each key, unless the key is stored. -/
def fresh (env : Env) (db : Db) (seen : List String) (rows : List BankCsvRow) : List BankValues :=
  ((firsts BankCsvRow.key seen rows).filter fun row => ¬ ExternalIdTaken db row.externalId).filterMap
    (stored env)

def unkeyed (rows : List BankCsvRow) : List BankCsvRow := rows.filter (·.key = none)

/-- The rows that reach the database. -/
def reaching (rows : List BankCsvRow) : List BankCsvRow :=
  firsts BankCsvRow.key [] rows ++ unkeyed rows

/-- The rows an import adds: the keyed ones as they come, the others at the flush. -/
def newRows (env : Env) (db : Db) (rows : List BankCsvRow) : List BankValues :=
  fresh env db [] rows ++ (unkeyed rows).filterMap (stored env)

section Cons

variable {k : String} {seen : List String}

theorem unkeyed_none (hk : row.key = none) : unkeyed (row :: rows) = row :: unkeyed rows :=
  List.filter_cons_of_pos (by simpa using hk)

theorem unkeyed_some (hk : row.key = some k) : unkeyed (row :: rows) = unkeyed rows :=
  List.filter_cons_of_neg (by simp [hk])

theorem fresh_none (hk : row.key = none) : fresh env db seen (row :: rows) = fresh env db seen rows := by
  unfold fresh
  rw [firsts_none hk]

theorem fresh_seen (hk : row.key = some k) (hseen : k ∈ seen) :
    fresh env db seen (row :: rows) = fresh env db seen rows := by
  unfold fresh
  rw [firsts_seen hk hseen]

theorem fresh_taken (hk : row.key = some k) (hseen : k ∉ seen) (htaken : ExternalIdTaken db row.externalId) :
    fresh env db seen (row :: rows) = fresh env db (k :: seen) rows := by
  unfold fresh
  rw [firsts_new hk hseen, List.filter_cons_of_neg (by simpa using htaken)]

theorem fresh_new {v : BankValues} (hk : row.key = some k) (hseen : k ∉ seen)
    (htaken : ¬ ExternalIdTaken db row.externalId) (hv : bankValues env row = .ok v) :
    fresh env db seen (row :: rows) = v :: fresh env db (k :: seen) rows := by
  unfold fresh
  rw [firsts_new hk hseen, List.filter_cons_of_pos (by simpa using htaken),
    List.filterMap_cons_some (stored_eq_some.2 hv)]

end Cons

/-- What one row does to the loop. -/
theorem importRow_cases (env : Env) (st : ImportState) (row : BankCsvRow) :
    (row.key = none ∧ importRow env st row =
      .ok { st with pending := st.pending ++ [row], inserted := st.inserted + 1 }) ∨
    (∃ k, row.key = some k ∧ k ∈ st.seenInFile ∧
      importRow env st row = .ok { st with skipped := st.skipped + 1 }) ∨
    ∃ k, row.key = some k ∧ k ∉ st.seenInFile ∧ importRow env st row =
      (bankValues env row).map fun v =>
        if ExternalIdTaken st.db v.externalId then
          { st with seenInFile := k :: st.seenInFile, skipped := st.skipped + 1 }
        else { st with
          seenInFile := k :: st.seenInFile
          db := insertBankRow st.db v
          inserted := st.inserted + 1 } := by
  unfold importRow
  cases hk : row.key with
  | none => exact .inl ⟨rfl, rfl⟩
  | some k =>
    by_cases hseen : k ∈ st.seenInFile
    · exact .inr (.inl ⟨k, rfl, hseen, if_pos hseen⟩)
    · exact .inr (.inr ⟨k, rfl, hseen, if_neg hseen⟩)

/-- An insertion under one key leaves the other keys as they were. -/
theorem fresh_insert (env : Env) (db : Db) {v : BankValues} {k : String} (seen : List String)
    (hvalid : ∀ row ∈ rows, Validated row) (hv : v.externalId = some k) :
    fresh env (insertBankRow db v) (k :: seen) rows = fresh env db (k :: seen) rows := by
  unfold fresh
  congr 1
  refine List.filter_congr fun row hrow => ?_
  obtain ⟨hmem, k', hk', hnew⟩ := mem_of_mem_firsts hrow
  have hext : row.externalId = some k' := (hvalid row hmem).key.symm.trans hk'
  have hne : some k ≠ some k' := by
    intro he
    obtain rfl := Option.some.inj he
    exact hnew (List.mem_cons_self ..)
  simp only [taken_insert, hext, hv, hne, and_false, or_false]

/-- The loop over rows that can be stored. -/
theorem import_loop (env : Env) (hvalid : ∀ row ∈ rows, Validated row) (st : ImportState)
    (hst : ∀ row ∈ firsts BankCsvRow.key st.seenInFile rows, Storable row) :
    ∃ st', rows.foldlM (importRow env) st = .ok st' ∧
      st'.db = insertAll st.db (fresh env st.db st.seenInFile rows) ∧
      st'.pending = st.pending ++ unkeyed rows ∧
      st'.inserted = st.inserted + (fresh env st.db st.seenInFile rows).length +
        (unkeyed rows).length ∧
      st'.inserted + st'.skipped = st.inserted + st.skipped + rows.length := by
  induction rows generalizing st with
  | nil => exact ⟨st, rfl, rfl, by simp [unkeyed], by simp [fresh, firsts, unkeyed], rfl⟩
  | cons row rows ih =>
    have hvalid' : ∀ r ∈ rows, Validated r := fun r hr => hvalid r (List.mem_cons_of_mem _ hr)
    have hrow : Validated row := hvalid row (List.mem_cons_self ..)
    rw [List.foldlM_cons]
    rcases importRow_cases env st row with ⟨hk, he⟩ | ⟨k, hk, hseen, he⟩ | ⟨k, hk, hseen, he⟩
    · rw [firsts_none hk] at hst
      rw [unkeyed_none hk, fresh_none hk]
      obtain ⟨st', hloop, hdb, hpending, hinserted, hsum⟩ := ih hvalid'
        { st with pending := st.pending ++ [row], inserted := st.inserted + 1 } hst
      refine ⟨st', by rw [he]; exact hloop, hdb, ?_, ?_, ?_⟩
      · rw [hpending, List.append_assoc, List.singleton_append]
      · simp only [hinserted, List.length_cons]
        omega
      · simp only [hsum, List.length_cons]
        omega
    · rw [firsts_seen hk hseen] at hst
      rw [unkeyed_some hk, fresh_seen hk hseen]
      obtain ⟨st', hloop, hdb, hpending, hinserted, hsum⟩ := ih hvalid'
        { st with skipped := st.skipped + 1 } hst
      refine ⟨st', by rw [he]; exact hloop, hdb, hpending, hinserted, ?_⟩
      simp only [hsum, List.length_cons]
      omega
    · rw [firsts_new hk hseen] at hst
      rw [unkeyed_some hk]
      obtain ⟨v, hv⟩ := (storable_iff env).2 (hst row (List.mem_cons_self ..))
      have hrest : ∀ r ∈ firsts BankCsvRow.key (k :: st.seenInFile) rows, Storable r :=
        fun r hr => hst r (List.mem_cons_of_mem _ hr)
      have hext : v.externalId = row.externalId := hrow.externalId hv
      rw [he, hv]
      by_cases htaken : ExternalIdTaken st.db v.externalId
      · rw [fresh_taken hk hseen (hext ▸ htaken)]
        obtain ⟨st', hloop, hdb, hpending, hinserted, hsum⟩ := ih hvalid'
          { st with seenInFile := k :: st.seenInFile, skipped := st.skipped + 1 } hrest
        refine ⟨st', ?_, hdb, hpending, hinserted, ?_⟩
        · simp only [Except.map, if_pos htaken]
          exact hloop
        · simp only [hsum, List.length_cons]
          omega
      · have hkey : v.externalId = some k := hext.trans (hrow.key.symm.trans hk)
        rw [fresh_new hk hseen (hext ▸ htaken) hv,
          ← fresh_insert env st.db st.seenInFile hvalid' hkey]
        obtain ⟨st', hloop, hdb, hpending, hinserted, hsum⟩ := ih hvalid'
          { st with
            seenInFile := k :: st.seenInFile
            db := insertBankRow st.db v
            inserted := st.inserted + 1 } hrest
        refine ⟨st', ?_, hdb, hpending, ?_, ?_⟩
        · simp only [Except.map, if_neg htaken]
          exact hloop
        · simp only [hinserted, List.length_cons]
          omega
        · simp only [hsum, List.length_cons]
          omega

theorem import_ok {st st' : ImportState} (h : rows.foldlM (importRow env) st = .ok st') :
    ∀ row ∈ firsts BankCsvRow.key st.seenInFile rows, Storable row := by
  induction rows generalizing st with
  | nil => simp [firsts]
  | cons row rows ih =>
    rw [List.foldlM_cons, Except.bind_eq_ok] at h
    obtain ⟨st₁, hrow, hrows⟩ := h
    have hrest := ih hrows
    rcases importRow_cases env st row with ⟨hk, he⟩ | ⟨k, hk, hseen, he⟩ | ⟨k, hk, hseen, he⟩
    · obtain rfl := Except.ok.inj (he.symm.trans hrow)
      rwa [firsts_none hk]
    · obtain rfl := Except.ok.inj (he.symm.trans hrow)
      rwa [firsts_seen hk hseen]
    · obtain ⟨v, hv, hst₁⟩ := Except.map_eq_ok.1 (he.symm.trans hrow)
      have hseen₁ : st₁.seenInFile = k :: st.seenInFile := by
        rw [← hst₁]
        split_ifs
        · rfl
        · rfl
      rw [hseen₁] at hrest
      rw [firsts_new hk hseen, List.forall_mem_cons]
      exact ⟨(storable_iff env).1 ⟨v, hv⟩, hrest⟩

theorem flushRow_ok : (∃ db', flushRow env db row = .ok db') → Storable row := by
  rintro ⟨db', h⟩
  simp only [flushRow, Except.bind_eq_ok] at h
  obtain ⟨v, hv, -⟩ := h
  exact (storable_iff env).1 ⟨v, hv⟩

theorem flush_ok (h : rows.foldlM (flushRow env) db = .ok db') : ∀ row ∈ rows, Storable row := by
  induction rows generalizing db with
  | nil => simp
  | cons row rows ih =>
    rw [List.foldlM_cons, Except.bind_eq_ok] at h
    obtain ⟨db₁, hrow, hrows⟩ := h
    exact List.forall_mem_cons.2 ⟨flushRow_ok ⟨db₁, hrow⟩, ih hrows⟩

/-- Rows without an id meet no index. -/
theorem flush_loop (env : Env) (db : Db) (hnone : ∀ row ∈ rows, row.externalId = none)
    (hst : ∀ row ∈ rows, Storable row) :
    rows.foldlM (flushRow env) db = .ok (insertAll db (rows.filterMap (stored env))) := by
  induction rows generalizing db with
  | nil => rfl
  | cons row rows ih =>
    obtain ⟨v, hv⟩ := (storable_iff env).2 (hst row (List.mem_cons_self ..))
    have hext : v.externalId = none := by
      have hrow := hnone row (List.mem_cons_self ..)
      have hvalid : Validated row := by
        intro x hx
        cases hrow.symm.trans hx
      exact (hvalid.externalId hv).trans hrow
    have hflush : flushRow env db row = .ok (insertBankRow db v) := by
      have hfree : ¬ ExternalIdTaken db v.externalId := fun h => h.1 hext
      simp only [flushRow, Except.bind_eq_ok, ensure_eq_ok, Except.pure_eq_ok]
      exact ⟨v, hv, (), hfree, rfl⟩
    rw [List.foldlM_cons, hflush, List.filterMap_cons_some (stored_eq_some.2 hv)]
    exact ih _ (fun r hr => hnone r (List.mem_cons_of_mem _ hr))
      fun r hr => hst r (List.mem_cons_of_mem _ hr)

theorem mem_unkeyed : row ∈ unkeyed rows ↔ row ∈ rows ∧ row.key = none := by
  unfold unkeyed
  rw [List.mem_filter, decide_eq_true_iff]

theorem unkeyed_append (rows rows' : List BankCsvRow) :
    unkeyed (rows ++ rows') = unkeyed rows ++ unkeyed rows' := List.filter_append ..

theorem unkeyed_singleton (row : BankCsvRow) :
    unkeyed [row] = if row.key = none then [row] else [] := by
  unfold unkeyed
  split_ifs with h
  · rw [List.filter_cons_of_pos (by simpa using h), List.filter_nil]
  · rw [List.filter_cons_of_neg (by simpa using h), List.filter_nil]

theorem insertAll_append (db : Db) (vs vs' : List BankValues) :
    insertAll db (vs ++ vs') = insertAll (insertAll db vs) vs' := List.foldl_append ..

/-- What an import of rows that can be stored does. -/
theorem insertPostgres_ok (env : Env) (db : Db) (hvalid : ∀ row ∈ rows, Validated row)
    (hst : ∀ row ∈ reaching rows, Storable row) : ∃ skipped,
    insertPostgres env db rows =
      .ok (insertAll db (newRows env db rows), (newRows env db rows).length, skipped) ∧
      (newRows env db rows).length + skipped = rows.length := by
  have hkeyed : ∀ row ∈ firsts BankCsvRow.key [] rows, Storable row :=
    fun row hrow => hst row (List.mem_append_left _ hrow)
  have hpending : ∀ row ∈ unkeyed rows, Storable row :=
    fun row hrow => hst row (List.mem_append_right _ hrow)
  obtain ⟨st, hloop, hdb, hpend, hinserted, hsum⟩ := import_loop env hvalid { db := db } hkeyed
  have hnone : ∀ row ∈ unkeyed rows, row.externalId = none := by
    intro row hrow
    obtain ⟨hmem, hk⟩ := mem_unkeyed.1 hrow
    exact (hvalid row hmem).key.symm.trans hk
  have hflush := flush_loop env st.db hnone hpending
  have hlength : ((unkeyed rows).filterMap (stored env)).length = (unkeyed rows).length := by
    rw [List.length_filterMap_eq_countP, List.countP_eq_length]
    intro row hrow
    obtain ⟨v, hv⟩ := (storable_iff env).2 (hpending row hrow)
    rw [stored_eq_some.2 hv]
    rfl
  have hcount : st.inserted = (newRows env db rows).length := by
    unfold newRows
    rw [List.length_append, hlength]
    simpa using hinserted
  refine ⟨st.skipped, ?_, by rw [← hcount]; simpa using hsum⟩
  have hnil : ([] : List BankCsvRow) ++ unkeyed rows = unkeyed rows := List.nil_append _
  unfold insertPostgres
  rw [hloop]
  change (do
    let db' ← st.pending.foldlM (flushRow env) st.db
    return (db', st.inserted, st.skipped)) = _
  rw [hpend, hnil, hflush, hdb, hcount]
  change Except.ok (insertAll _ _, _, _) = _
  rw [← insertAll_append]
  rfl

theorem insertPostgres_iff (env : Env) (db : Db) (hvalid : ∀ row ∈ rows, Validated row) :
    (∃ r, insertPostgres env db rows = .ok r) ↔ ∀ row ∈ reaching rows, Storable row := by
  constructor
  · rintro ⟨⟨db', n, m⟩, h⟩
    simp only [insertPostgres, Except.bind_eq_ok] at h
    obtain ⟨st, hloop, db₁, hflush, -⟩ := h
    have hkeyed := import_ok hloop
    obtain ⟨st', hloop', -, hpend, -⟩ := import_loop env hvalid { db := db } hkeyed
    obtain rfl := Except.ok.inj (hloop.symm.trans hloop')
    have hpending : st.pending = unkeyed rows := hpend
    rw [hpending] at hflush
    intro row hrow
    rcases List.mem_append.1 hrow with hrow | hrow
    · exact hkeyed row hrow
    · exact flush_ok hflush row hrow
  · intro hst
    obtain ⟨skipped, h, -⟩ := insertPostgres_ok env db hvalid hst
    exact ⟨_, h⟩

/-! ## One row more -/

/-- What an import adds of one row whose key no other row has. -/
def ownRow (env : Env) (db : Db) (row : BankCsvRow) : Option BankValues :=
  if ExternalIdTaken db row.externalId then none else stored env row

theorem ownRow_ok {v : BankValues} (h : ownRow env db row = some v) : bankValues env row = .ok v := by
  unfold ownRow at h
  split_ifs at h
  exact stored_eq_some.1 h

variable {pre post : List BankCsvRow}

theorem reaching_insert (hown : ∀ k, row.key = some k → ∀ r ∈ pre ++ post, r.key ≠ some k) :
    (reaching (pre ++ row :: post)).Perm (row :: reaching (pre ++ post)) := by
  unfold reaching unkeyed
  cases hk : row.key with
  | none =>
    rw [firsts_insert_none hk, List.filter_append, List.filter_cons_of_pos (by simpa using hk),
      List.filter_append]
    refine (List.Perm.append_left _ List.perm_middle).trans List.perm_middle
  | some k =>
    have hnew : k ∉ ([] : List String) := List.not_mem_nil
    rw [List.filter_append, List.filter_cons_of_neg (by simp [hk]), List.filter_append]
    exact (firsts_insert hk hnew (hown k hk)).append_right _

theorem newRows_insert (env : Env) (db : Db) (hrow : Validated row)
    (hown : ∀ k, row.key = some k → ∀ r ∈ pre ++ post, r.key ≠ some k) :
    (newRows env db (pre ++ row :: post)).Perm
      ((ownRow env db row).toList ++ newRows env db (pre ++ post)) := by
  have hcons : ∀ (o : Option BankValues) (row : BankCsvRow) (rows : List BankCsvRow),
      stored env row = o → (row :: rows).filterMap (stored env) = o.toList ++ rows.filterMap (stored env) := by
    rintro o row rows rfl
    cases h : stored env row with
    | none => rw [List.filterMap_cons_none h, Option.toList_none, List.nil_append]
    | some v => rw [List.filterMap_cons_some h, Option.toList_some, List.singleton_append]
  unfold newRows fresh unkeyed ownRow
  cases hk : row.key with
  | none =>
    have hfree : ¬ ExternalIdTaken db row.externalId := fun h => h.1 (hrow.key.symm.trans hk)
    rw [firsts_insert_none hk, if_neg hfree, List.filter_append, List.filter_append,
      List.filter_cons_of_pos (by simpa using hk), List.filterMap_append,
      List.filterMap_append, hcons _ row _ rfl, ← List.append_assoc, ← List.append_assoc, ← List.append_assoc,
      ← List.append_assoc]
    refine List.Perm.append_right _ ?_
    rw [List.append_assoc (stored env row).toList]
    exact List.perm_append_comm
  | some k =>
    have hnew : k ∉ ([] : List String) := List.not_mem_nil
    have hperm := firsts_insert hk hnew (hown k hk)
    rw [List.filter_append, List.filter_append, List.filter_cons_of_neg (by simp [hk]), ← List.append_assoc]
    refine List.Perm.append_right _ ?_
    have hfilter := (hperm.filter fun r => ¬ ExternalIdTaken db r.externalId).filterMap (stored env)
    by_cases htaken : ExternalIdTaken db row.externalId
    · rw [List.filter_cons_of_neg (by simpa using htaken)] at hfilter
      rw [if_pos htaken]
      exact hfilter
    · rw [List.filter_cons_of_pos (by simpa using htaken), hcons _ row _ rfl] at hfilter
      rw [if_neg htaken]
      exact hfilter

/-! ## The table afterwards -/

/-- The row of the table that holds `v`. -/
def BankValues.transaction (v : BankValues) (id : Id) : BankTransaction :=
  ⟨id, v.bookingDate, v.amount, v.currency, v.description, v.externalId, .unmatched, none,
    some v.embedding⟩

/-- The new rows stand behind the old ones, in the order of insertion. -/
theorem insertAll_rows (db : Db) (vs : List BankValues) : ∃ new,
    (insertAll db vs).bankTransactions.rows = db.bankTransactions.rows ++ new ∧
      new.map ({ · with id := 0 }) = vs.map (BankValues.transaction · 0) := by
  induction vs generalizing db with
  | nil => exact ⟨[], (List.append_nil _).symm, rfl⟩
  | cons v vs ih =>
    obtain ⟨new, hrows, hnew⟩ := ih (insertBankRow db v)
    have hfirst : (insertBankRow db v).bankTransactions.rows =
        db.bankTransactions.rows ++ [v.transaction db.bankTransactions.next] := rfl
    refine ⟨v.transaction db.bankTransactions.next :: new, ?_, ?_⟩
    · rw [List.append_cons, ← hfirst]
      exact hrows
    · rw [List.map_cons, List.map_cons, hnew]
      rfl

theorem prefix_insertAll (db : Db) (vs : List BankValues) :
    db.bankTransactions.rows <+: (insertAll db vs).bankTransactions.rows := by
  obtain ⟨new, hrows, -⟩ := insertAll_rows db vs
  exact ⟨new, hrows.symm⟩

theorem length_insertAll (db : Db) (vs : List BankValues) :
    (insertAll db vs).bankTransactions.rows.length = db.bankTransactions.rows.length + vs.length := by
  obtain ⟨new, hrows, hnew⟩ := insertAll_rows db vs
  have hlength := congrArg List.length hnew
  rw [List.length_map, List.length_map] at hlength
  rw [hrows, List.length_append, hlength]

theorem mem_insertAll {vs : List BankValues} {t : BankTransaction}
    (h : t ∈ (insertAll db vs).bankTransactions.rows) :
    t ∈ db.bankTransactions.rows ∨ ∃ v ∈ vs, t = v.transaction t.id := by
  obtain ⟨new, hrows, hnew⟩ := insertAll_rows db vs
  rw [hrows] at h
  rcases List.mem_append.1 h with h | h
  · exact .inl h
  · have hmem : ({ t with id := 0 } : BankTransaction) ∈ vs.map (BankValues.transaction · 0) := by
      rw [← hnew]
      exact List.mem_map_of_mem h
    obtain ⟨v, hv, he⟩ := List.mem_map.1 hmem
    refine .inr ⟨v, hv, ?_⟩
    have hid := congrArg (fun r : BankTransaction => { r with id := t.id }) he
    exact hid.symm

theorem taken_insertAll {vs : List BankValues} {x : Option String} :
    ExternalIdTaken (insertAll db vs) x ↔
      ExternalIdTaken db x ∨ (x ≠ none ∧ ∃ v ∈ vs, v.externalId = x) := by
  induction vs generalizing db with
  | nil => simp [insertAll]
  | cons v vs ih =>
    have htail := @ih (insertBankRow db v)
    rw [taken_insert] at htail
    simp only [List.mem_cons, exists_eq_or_imp, and_or_left, ← or_assoc]
    exact htail

/-- The partial unique index holds: no two rows share an external id. -/
def UniqueIds (db : Db) : Prop :=
  ∀ t ∈ db.bankTransactions.rows, ∀ t' ∈ db.bankTransactions.rows,
    t.externalId ≠ none → t'.externalId = t.externalId → t' = t

theorem UniqueIds.insert (h : UniqueIds db) {v : BankValues}
    (hfree : ¬ ExternalIdTaken db v.externalId) : UniqueIds (insertBankRow db v) := by
  have hclash : ∀ t ∈ db.bankTransactions.rows, t.externalId ≠ none → v.externalId ≠ t.externalId :=
    fun t ht hne he => hfree ⟨he ▸ hne, t, ht, he.symm⟩
  intro t ht t' ht' hne he
  rcases Table.mem_insert.1 ht with ht | rfl
  · rcases Table.mem_insert.1 ht' with ht' | rfl
    · exact h t ht t' ht' hne he
    · exact absurd he (hclash t ht hne)
  · rcases Table.mem_insert.1 ht' with ht' | rfl
    · exact absurd he.symm (hclash t' ht' (he ▸ hne))
    · rfl

theorem UniqueIds.insertAll {vs : List BankValues} (h : UniqueIds db)
    (hfree : ∀ v ∈ vs, ¬ ExternalIdTaken db v.externalId)
    (hdistinct : vs.Pairwise fun v v' => v.externalId ≠ none → v.externalId ≠ v'.externalId) :
    UniqueIds (insertAll db vs) := by
  induction vs generalizing db with
  | nil => exact h
  | cons v vs ih =>
    obtain ⟨hv, hvs⟩ := List.pairwise_cons.1 hdistinct
    refine ih (h.insert (hfree v (List.mem_cons_self ..))) (fun v' hv' htaken => ?_) hvs
    rcases taken_insert.1 htaken with htaken | ⟨hne, he⟩
    · exact hfree v' (List.mem_cons_of_mem _ hv') htaken
    · exact hv v' hv' (he ▸ hne) he

/-- The rows of `db'` past those of `db`, without their ids. -/
def added (db db' : Db) : List BankTransaction :=
  (db'.bankTransactions.rows.drop db.bankTransactions.rows.length).map ({ · with id := 0 })

theorem added_insertAll (db : Db) (vs : List BankValues) :
    added db (insertAll db vs) = vs.map (BankValues.transaction · 0) := by
  obtain ⟨new, hrows, hnew⟩ := insertAll_rows db vs
  unfold added
  rw [hrows, List.drop_left, hnew]

end ReckonFlow
