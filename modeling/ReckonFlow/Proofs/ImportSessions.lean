import ReckonFlow.Proofs.BankImport
import ReckonFlow.Spec.ImportSessions

/-! Concurrent imports neither duplicate nor alter bank rows: what is stored under an external
id was stored once, by the import that first committed it. -/

namespace ReckonFlow.ImportSession

open Lts Csv

variable {U : Unicode} {env : Env} {file : ℕ → List UInt8} {s s' : State} {ev : Event}

/-! ## What a step does -/

/-- The steps that take effect, with what they need. -/
inductive Moved (U : Unicode) (env : Env) (file : ℕ → List UInt8) (s : State) : Event → State → Prop
  | started {i : ℕ} (hphase : s.phase i = .idle) :
      Moved U env file s (.start i) (s.setPhase i (readFile U env (file i)))
  | queued {i : ℕ} {w : Work} {row : BankCsvRow} {todo : List BankCsvRow}
      (hphase : s.phase i = .importing w) (htodo : w.todo = row :: todo) (hkey : row.key = none) :
      Moved U env file s (.insert i) (s.setPhase i (.importing
        { w with todo, pending := w.pending ++ [row], inserted := w.inserted + 1 }))
  | repeated {i : ℕ} {w : Work} {row : BankCsvRow} {todo : List BankCsvRow} {k : String}
      (hphase : s.phase i = .importing w) (htodo : w.todo = row :: todo) (hkey : row.key = some k)
      (hseen : k ∈ w.seenInFile) :
      Moved U env file s (.insert i) (s.setPhase i (.importing
        { w with todo, skipped := w.skipped + 1 }))
  | present {i : ℕ} {w : Work} {row : BankCsvRow} {todo : List BankCsvRow} {k : String} {v : BankValues}
      (hphase : s.phase i = .importing w) (htodo : w.todo = row :: todo) (hkey : row.key = some k)
      (hseen : k ∉ w.seenInFile) (hv : bankValues env row = .ok v) (hfree : s.lock.Free i k)
      (htaken : ExternalIdTaken s.db v.externalId) :
      Moved U env file s (.insert i) (s.setPhase i (.importing
        { w with todo, seenInFile := k :: w.seenInFile, skipped := w.skipped + 1 }))
  | sent {i : ℕ} {w : Work} {row : BankCsvRow} {todo : List BankCsvRow} {k : String} {v : BankValues}
      (hphase : s.phase i = .importing w) (htodo : w.todo = row :: todo) (hkey : row.key = some k)
      (hseen : k ∉ w.seenInFile) (hv : bankValues env row = .ok v) (hfree : s.lock.Free i k)
      (htaken : ¬ ExternalIdTaken s.db v.externalId) :
      Moved U env file s (.insert i) ((s.take i k).setPhase i (.importing
        { w with todo, seenInFile := k :: w.seenInFile, rows := w.rows ++ [v], inserted := w.inserted + 1 }))
  | flushed {i : ℕ} {w : Work} {vs : List BankValues} (hphase : s.phase i = .importing w)
      (htodo : w.todo = []) (hvs : w.pending.mapM (bankValues env) = .ok vs) :
      Moved U env file s (.flush i) (s.setPhase i (.flushed (w.rows ++ vs)
        ⟨w.parsed.received, w.inserted, w.skipped, w.parsed.errors⟩))
  | committed {i : ℕ} {rows : List BankValues} {result : BankImportResult}
      (hphase : s.phase i = .flushed rows result) :
      Moved U env file s (.commit i) ((s.store i rows result).finish i (.committed result))
  | dropped {ev : Event} {i : ℕ} {p : Phase} (hev : ev.session = i)
      (hlive : ∀ result, s.phase i ≠ .committed result)
      (hdrop : (∃ e, p = .failed e) ∨ p = .aborted) : Moved U env file s ev (s.finish i p)

theorem moved_of_insertRow {i : ℕ} {w : Work} {row : BankCsvRow} {todo : List BankCsvRow}
    (hphase : s.phase i = .importing w) (htodo : w.todo = row :: todo)
    (h : insertRow env s i { w with todo } row = some s') : Moved U env file s (.insert i) s' := by
  unfold insertRow at h
  cases hk : row.key with
  | none =>
    simp only [hk, Option.some.injEq] at h
    subst h
    exact .queued hphase htodo hk
  | some k =>
    simp only [hk] at h
    by_cases hseen : k ∈ w.seenInFile
    · rw [if_pos hseen, Option.some.injEq] at h
      subst h
      exact .repeated hphase htodo hk hseen
    · rw [if_neg hseen] at h
      cases hv : bankValues env row with
      | error e =>
        simp only [hv, Option.some.injEq] at h
        subst h
        exact .dropped rfl (by simp [hphase]) (.inl ⟨_, rfl⟩)
      | ok v =>
        simp only [hv] at h
        obtain ⟨hfree, h⟩ := Option.ite_none_right_eq_some.1 h
        by_cases htaken : ExternalIdTaken s.db v.externalId
        · rw [if_pos htaken, Option.some.injEq] at h
          subst h
          exact .present hphase htodo hk hseen hv hfree htaken
        · rw [if_neg htaken, Option.some.injEq] at h
          subst h
          exact .sent hphase htodo hk hseen hv hfree htaken

theorem moved_of_step (h : step U env file s ev = some s') : Moved U env file s ev s' := by
  cases ev with
  | start i =>
    simp only [step] at h
    split at h
    · rename_i hphase
      obtain rfl := Option.some.inj h
      exact .started hphase
    · cases h
  | insert i =>
    simp only [step] at h
    split at h
    · rename_i w hphase
      split at h
      · cases h
      · rename_i row todo htodo
        exact moved_of_insertRow hphase htodo h
    · cases h
  | flush i =>
    simp only [step] at h
    split at h
    · rename_i w hphase
      obtain ⟨htodo, h⟩ := Option.ite_none_right_eq_some.1 h
      obtain rfl := Option.some.inj h
      unfold flushWork
      cases hvs : w.pending.mapM (bankValues env) with
      | error e => exact .dropped rfl (by simp [hphase]) (.inl ⟨_, rfl⟩)
      | ok vs => exact .flushed hphase htodo hvs
    · cases h
  | commit i =>
    simp only [step] at h
    split at h
    · rename_i rows result hphase
      obtain rfl := Option.some.inj h
      exact .committed hphase
    · cases h
  | abort i =>
    simp only [step] at h
    split at h
    · rename_i w hphase
      obtain rfl := Option.some.inj h
      exact .dropped rfl (by simp [hphase]) (.inr rfl)
    · rename_i rows result hphase
      obtain rfl := Option.some.inj h
      exact .dropped rfl (by simp [hphase]) (.inr rfl)
    · cases h

/-! ## Files -/

/-- The valid rows of a file. -/
def fileRows (U : Unicode) (env : Env) (content : List UInt8) : List BankCsvRow :=
  match reader (decodeSig content) with
  | (header :: body, _) => validRows U env (header.map (normalizeHeader U)) body
  | ([], _) => []

theorem fileRows_validated {content : List UInt8} {r : BankCsvRow} (h : r ∈ fileRows U env content) :
    Validated r := by
  unfold fileRows at h
  split at h
  · exact validRows_validated r h
  · cases h

theorem readFile_cases (U : Unicode) (env : Env) (content : List UInt8) :
    (∃ e, readFile U env content = .failed e) ∨
      (fileRows U env content = [] ∧ ∃ errors, readFile U env content = .flushed [] ⟨0, 0, 0, errors⟩) ∨
      ∃ parsed, readFile U env content = .importing { parsed, todo := fileRows U env content } := by
  unfold readFile
  cases hparse : parseCsv U env content with
  | error e => exact .inl ⟨e, rfl⟩
  | ok o =>
    refine .inr ?_
    unfold parseCsv at hparse
    unfold fileRows
    rcases hread : reader (decodeSig content) with ⟨rows, stop⟩
    rw [hread] at hparse
    cases rows with
    | nil =>
      cases stop with
      | none =>
        obtain rfl := Except.ok.inj hparse
        exact .inl ⟨rfl, _, rfl⟩
      | some e => cases hparse
    | cons header body =>
      obtain ⟨st, hbody, hst⟩ := Except.bind_eq_ok.1 hparse
      cases stop with
      | some e => cases hst
      | none =>
        obtain rfl := Except.ok.inj hst
        obtain ⟨st', hbody', hrows⟩ := parse_body U env (parse_body_surplus hbody) {}
        obtain rfl := Except.ok.inj (hbody.symm.trans hbody')
        refine .inr ⟨st, ?_⟩
        have hparsed : st.rows = validRows U env (header.map (normalizeHeader U)) body := hrows
        simp only [hparsed]

/-! ## The invariant -/

def Stored (db : Db) (k : String) : Prop := ExternalIdTaken db (some k)

/-- What session `i` holds after the rows `done`: `rows` are its uncommitted rows under a key. -/
structure Held (env : Env) (s : State) (i : ℕ) (done : List BankCsvRow) (rows : List BankValues) :
    Prop where
  own : ∀ v ∈ rows, ∃ k, v.externalId = some k ∧ s.lock k = some i
  held : ∀ k, s.lock k = some i → ∃ v ∈ rows, v.externalId = some k
  distinct : rows.Pairwise fun v v' => v.externalId ≠ v'.externalId
  first : ∀ v ∈ rows, ∃ r ∈ firsts BankCsvRow.key [] done,
    r.key = v.externalId ∧ bankValues env r = .ok v
  seen : ∀ r ∈ done, ∀ k, r.key = some k → s.lock k = some i ∨ Stored s.db k

structure Importing (U : Unicode) (env : Env) (file : ℕ → List UInt8) (s : State) (i : ℕ)
    (done : List BankCsvRow) (w : Work) : Prop where
  read : fileRows U env (file i) = done ++ w.todo
  seenInFile : ∀ k, k ∈ w.seenInFile ↔ ∃ r ∈ done, r.key = some k
  pending : w.pending = unkeyed done
  inserted : w.inserted = w.rows.length + w.pending.length
  counted : w.inserted + w.skipped = done.length
  held : Held env s i done w.rows

structure Flushed (U : Unicode) (env : Env) (file : ℕ → List UInt8) (s : State) (i : ℕ)
    (keyed plain : List BankValues) (result : BankImportResult) : Prop where
  held : Held env s i (fileRows U env (file i)) keyed
  queued : (unkeyed (fileRows U env (file i))).mapM (bankValues env) = .ok plain
  inserted : result.inserted = keyed.length + plain.length
  counted : result.inserted + result.skippedDuplicates = (fileRows U env (file i)).length

def SessionInv (U : Unicode) (env : Env) (file : ℕ → List UInt8) (s : State) (i : ℕ) : Phase → Prop
  | .importing w => ∃ done, Importing U env file s i done w
  | .flushed rows result => ∃ keyed plain, rows = keyed ++ plain ∧
      Flushed U env file s i keyed plain result
  | .idle | .committed _ | .failed _ | .aborted => ∀ k, s.lock k ≠ some i

/-- Where a stored row comes from: the initial table, or the first import that committed its key. -/
def Origin (U : Unicode) (env : Env) (file : ℕ → List UInt8) (db₀ : Db) (imports : List Import)
    (t : BankTransaction) (k : String) : Prop :=
  t ∈ db₀.bankTransactions.rows ∨ ∃ pre c post, imports = pre ++ c :: post ∧
    (∀ c' ∈ pre, ∀ v ∈ c'.rows, v.externalId ≠ some k) ∧
    ∃ r ∈ firsts BankCsvRow.key [] (fileRows U env (file c.session)), ∃ v ∈ c.rows,
      r.key = some k ∧ bankValues env r = .ok v ∧ t = v.transaction t.id

/-- What an import leaves behind. -/
structure Kept (U : Unicode) (env : Env) (file : ℕ → List UInt8) (s : State) (c : Import) : Prop where
  phase : s.phase c.session = .committed c.result
  stored : ∀ r ∈ fileRows U env (file c.session), ∀ k, r.key = some k → Stored s.db k
  inserted : c.result.inserted = c.rows.length

structure Inv (U : Unicode) (env : Env) (file : ℕ → List UInt8) (db₀ : Db) (s : State) : Prop where
  unique : UniqueIds db₀ → UniqueIds s.db
  fresh : ∀ k i, s.lock k = some i → ¬ Stored s.db k
  session : ∀ i, SessionInv U env file s i (s.phase i)
  history : s.db = insertAll db₀ (s.imports.flatMap (·.rows))
  kept : ∀ c ∈ s.imports, Kept U env file s c
  listed : ∀ i result, s.phase i = .committed result → ∃ rows, ⟨i, rows, result⟩ ∈ s.imports
  once : (s.imports.map (·.session)).Nodup
  origin : ∀ t ∈ s.db.bankTransactions.rows, ∀ k, t.externalId = some k →
    Origin U env file db₀ s.imports t k

variable {db₀ : Db} {i j : ℕ} {done : List BankCsvRow} {rows : List BankValues}

theorem Inv.init : Inv U env file db₀ (State.init db₀) where
  unique := id
  fresh := by rintro k i ⟨⟩
  session := by rintro i k ⟨⟩
  history := rfl
  kept := by rintro c ⟨⟩
  listed := by rintro i result ⟨⟩
  once := .nil
  origin := fun t ht _ _ => .inl ht

theorem Held.frame (h : Held env s i done rows)
    (hlock : ∀ k, s'.lock k = some i ↔ s.lock k = some i)
    (hstored : ∀ k, Stored s.db k → Stored s'.db k) : Held env s' i done rows where
  own := by
    intro v hv
    obtain ⟨k, hk, hheld⟩ := h.own v hv
    exact ⟨k, hk, (hlock k).2 hheld⟩
  held := fun k hk => h.held k ((hlock k).1 hk)
  distinct := h.distinct
  first := h.first
  seen := fun r hr k hk => (h.seen r hr k hk).imp (hlock k).2 (hstored k)

/-- A session goes by its own locks, and by ids that stay stored. -/
theorem SessionInv.frame {p : Phase} (h : SessionInv U env file s i p)
    (hlock : ∀ k, s'.lock k = some i ↔ s.lock k = some i)
    (hstored : ∀ k, Stored s.db k → Stored s'.db k) : SessionInv U env file s' i p := by
  cases p with
  | importing w =>
    obtain ⟨done, h⟩ := h
    exact ⟨done, { h with held := h.held.frame hlock hstored }⟩
  | flushed rows result =>
    obtain ⟨keyed, plain, he, h⟩ := h
    exact ⟨keyed, plain, he, { h with held := h.held.frame hlock hstored }⟩
  | idle => exact fun k hk => h k ((hlock k).1 hk)
  | committed result => exact fun k hk => h k ((hlock k).1 hk)
  | failed e => exact fun k hk => h k ((hlock k).1 hk)
  | aborted => exact fun k hk => h k ((hlock k).1 hk)

theorem Held.nil (h : ∀ k, s.lock k ≠ some i) : Held env s i [] [] where
  own := by rintro v ⟨⟩
  held := fun k hk => absurd hk (h k)
  distinct := .nil
  first := by rintro v ⟨⟩
  seen := by rintro r ⟨⟩

/-- A row that leaves the transaction as it is. -/
theorem Held.pass (h : Held env s i done rows) (row : BankCsvRow)
    (hrow : ∀ k, row.key = some k → s.lock k = some i ∨ Stored s.db k) :
    Held env s i (done ++ [row]) rows where
  own := h.own
  held := h.held
  distinct := h.distinct
  first := by
    intro v hv
    obtain ⟨r, hr, hbank⟩ := h.first v hv
    refine ⟨r, ?_, hbank⟩
    rw [firsts_cut]
    exact List.mem_append_left _ hr
  seen := by
    intro r hr k hk
    rcases List.mem_append.1 hr with hr | hr
    · exact h.seen r hr k hk
    · obtain rfl := List.mem_singleton.1 hr
      exact hrow k hk

/-- A row sent under a key of its own. -/
theorem Held.send (h : Held env s i done rows) {row : BankCsvRow} {k : String} {v : BankValues}
    (hkey : row.key = some k) (hnew : ∀ r ∈ done, r.key ≠ some k) (hv : bankValues env row = .ok v)
    (hext : v.externalId = some k) (hfree : s.lock.Free i k) :
    Held env (s.take i k) i (done ++ [row]) (rows ++ [v]) where
  own := by
    intro v' hv'
    rcases List.mem_append.1 hv' with hv' | hv'
    · obtain ⟨k', hk', hlock⟩ := h.own v' hv'
      exact ⟨k', hk', Locks.take_own hlock⟩
    · obtain rfl := List.mem_singleton.1 hv'
      exact ⟨k, hext, Locks.take_self⟩
  held := by
    intro k' hk'
    rcases Locks.of_take hk' with rfl | hlock
    · exact ⟨v, List.mem_append_right _ (List.mem_singleton_self v), hext⟩
    · obtain ⟨v', hv', he⟩ := h.held k' hlock
      exact ⟨v', List.mem_append_left _ hv', he⟩
  distinct := by
    rw [List.pairwise_append]
    refine ⟨h.distinct, List.pairwise_singleton .., fun v' hv' v'' hv'' he => ?_⟩
    obtain rfl := List.mem_singleton.1 hv''
    obtain ⟨r, hr, hk, -⟩ := h.first v' hv'
    exact hnew r (mem_of_mem_firsts hr).1 (hk.trans (he.trans hext))
  first := by
    intro v' hv'
    rcases List.mem_append.1 hv' with hv' | hv'
    · obtain ⟨r, hr, hbank⟩ := h.first v' hv'
      refine ⟨r, ?_, hbank⟩
      rw [firsts_cut]
      exact List.mem_append_left _ hr
    · obtain rfl := List.mem_singleton.1 hv'
      exact ⟨row, mem_firsts_snoc hkey List.not_mem_nil hnew, hkey.trans hext.symm, hv⟩
  seen := by
    intro r hr k' hk'
    rcases List.mem_append.1 hr with hr | hr
    · exact (h.seen r hr k' hk').imp Locks.take_own id
    · obtain rfl := List.mem_singleton.1 hr
      obtain rfl := Option.some.inj (hkey.symm.trans hk')
      exact .inl Locks.take_self

/-- A step of session `i` that changes its own locks at most, and none under a stored id. -/
theorem Inv.own (h : Inv U env file db₀ s) {l : Locks String} {p : Phase}
    (hlock : ∀ j ≠ i, ∀ k, l k = some j ↔ s.lock k = some j)
    (hfresh : ∀ k j, l k = some j → ¬ Stored s.db k) (hlive : ∀ result, s.phase i ≠ .committed result)
    (hopen : ∀ result, p ≠ .committed result) (hp : SessionInv U env file { s with lock := l } i p) :
    Inv U env file db₀ ({ s with lock := l }.setPhase i p) where
  unique := h.unique
  fresh := hfresh
  session := by
    intro j
    by_cases hj : j = i
    · subst hj
      rw [setPhase_self]
      exact hp.frame (fun _ => .rfl) fun _ => id
    · rw [setPhase_of_ne _ _ hj]
      exact (h.session j).frame (hlock j hj) fun _ => id
  history := h.history
  kept := by
    intro c hc
    have hcommitted := (h.kept c hc).phase
    have hj : c.session ≠ i := fun he => hlive _ (he ▸ hcommitted)
    exact { h.kept c hc with phase := (setPhase_of_ne _ _ hj).trans hcommitted }
  listed := by
    intro j result hj
    by_cases hji : j = i
    · subst hji
      exact absurd ((setPhase_self ..).symm.trans hj) (hopen result)
    · exact h.listed j result ((setPhase_of_ne _ _ hji).symm.trans hj)
  once := h.once
  origin := h.origin

theorem Inv.move (h : Inv U env file db₀ s) {p : Phase} (hlive : ∀ result, s.phase i ≠ .committed result)
    (hopen : ∀ result, p ≠ .committed result) (hp : SessionInv U env file s i p) :
    Inv U env file db₀ (s.setPhase i p) :=
  h.own (fun _ _ _ => .rfl) h.fresh hlive hopen hp

theorem Inv.drop (h : Inv U env file db₀ s) {p : Phase}
    (hlive : ∀ result, s.phase i ≠ .committed result) (hp : (∃ e, p = .failed e) ∨ p = .aborted) :
    Inv U env file db₀ (s.finish i p) := by
  have hown := h.own (p := p) (fun j hj k => Locks.release_iff hj)
    (fun k j hk => h.fresh k j (Locks.of_release hk)) hlive
  rcases hp with ⟨e, rfl⟩ | rfl
  · exact hown (by simp) fun k => Locks.release_self
  · exact hown (by simp) fun k => Locks.release_self

/-- The end of one transaction is none of the others' business. -/
theorem SessionInv.finish (h : SessionInv U env file s j (s.phase j)) {p : Phase} (hj : j ≠ i)
    (hlock : s'.lock = s.lock) (hphase : s'.phase = s.phase)
    (hstored : ∀ k, Stored s.db k → Stored s'.db k) :
    SessionInv U env file (s'.finish i p) j ((s'.finish i p).phase j) := by
  have hsame : (s'.finish i p).phase j = s.phase j := by
    rw [State.finish, setPhase_of_ne _ _ hj]
    exact congrFun hphase j
  rw [hsame]
  refine h.frame (fun k => ?_) hstored
  exact (Locks.release_iff hj).trans (by rw [hlock])

/-- Rows sent without a key meet no index. -/
theorem Flushed.plain_none {keyed plain : List BankValues} {result : BankImportResult}
    (h : Flushed U env file s i keyed plain result) : ∀ v ∈ plain, v.externalId = none := by
  intro v hv
  obtain ⟨r, hr, hbank⟩ := Except.mem_of_mapM h.queued hv
  obtain ⟨hmem, hkey⟩ := mem_unkeyed.1 hr
  have hvalid := fileRows_validated hmem
  exact (hvalid.externalId hbank).trans (hvalid.key.symm.trans hkey)

section Commit

variable {keyed plain : List BankValues} {result : BankImportResult}

/-- The keys of flushed rows are locked. -/
theorem Flushed.locked (h : Flushed U env file s i keyed plain result) {v : BankValues} {k : String}
    (hv : v ∈ keyed ++ plain) (hk : v.externalId = some k) : v ∈ keyed ∧ s.lock k = some i := by
  rcases List.mem_append.1 hv with hv | hv
  · obtain ⟨k', hk', hlock⟩ := h.held.own v hv
    obtain rfl := Option.some.inj (hk.symm.trans hk')
    exact ⟨hv, hlock⟩
  · cases (h.plain_none v hv).symm.trans hk

theorem Flushed.distinct (h : Flushed U env file s i keyed plain result) :
    (keyed ++ plain).Pairwise fun v v' => v.externalId ≠ none → v.externalId ≠ v'.externalId := by
  refine List.pairwise_append.2 ⟨?_, ?_, ?_⟩
  · refine h.held.distinct.imp ?_
    intro v v' hne _
    exact hne
  · exact List.pairwise_of_forall_mem_list fun v hv v' _ hne => absurd (h.plain_none v hv) hne
  · intro v _ v' hv' hne he
    exact hne (he.trans (h.plain_none v' hv'))

/-- Once flushed rows are stored, so is every key of the file. -/
theorem Flushed.stored (h : Flushed U env file s i keyed plain result) {r : BankCsvRow} {k : String}
    (hr : r ∈ fileRows U env (file i)) (hk : r.key = some k) : Stored (insertAll s.db (keyed ++ plain)) k := by
  rcases h.held.seen r hr k hk with hlock | hstored
  · obtain ⟨v, hv, he⟩ := h.held.held k hlock
    exact taken_insertAll.2 (.inr ⟨Option.some_ne_none k, v, List.mem_append_left _ hv, he⟩)
  · exact taken_insertAll.2 (.inl hstored)

/-- Later imports leave the origin of a row as it is. -/
theorem Origin.append {imports : List Import} {t : BankTransaction} {k : String}
    (h : Origin U env file db₀ imports t k) (later : List Import) :
    Origin U env file db₀ (imports ++ later) t k := by
  rcases h with hold | ⟨pre, c, post, rfl, hfirst, hrest⟩
  · exact .inl hold
  · exact .inr ⟨pre, c, post ++ later, by rw [List.append_assoc, List.cons_append], hfirst, hrest⟩

/-- No import so far stored a row under a locked key. -/
theorem Inv.externalId_ne (h : Inv U env file db₀ s) {k : String} (hlock : s.lock k = some i) :
    ∀ c ∈ s.imports, ∀ v ∈ c.rows, v.externalId ≠ some k := by
  intro c hc v hv he
  refine h.fresh k i hlock ?_
  unfold Stored
  rw [h.history]
  exact taken_insertAll.2 (.inr ⟨Option.some_ne_none k, v, List.mem_flatMap.2 ⟨c, hc, hv⟩, he⟩)

theorem Inv.not_committed (h : Inv U env file db₀ s) (hphase : s.phase i = .flushed rows result) :
    i ∉ s.imports.map (·.session) := by
  intro hmem
  obtain ⟨c, hc, rfl⟩ := List.mem_map.1 hmem
  cases hphase.symm.trans (h.kept c hc).phase

theorem Inv.commit (h : Inv U env file db₀ s) (hphase : s.phase i = .flushed rows result) :
    Inv U env file db₀ ((s.store i rows result).finish i (.committed result)) := by
  have hsession := h.session i
  rw [hphase] at hsession
  obtain ⟨keyed, plain, rfl, hf⟩ := hsession
  have hmono : ∀ k, Stored s.db k → Stored (insertAll s.db (keyed ++ plain)) k :=
    fun k hk => taken_insertAll.2 (.inl hk)
  have hfree : ∀ v ∈ keyed ++ plain, ¬ ExternalIdTaken s.db v.externalId := by
    rintro v hv ⟨hne, hmem⟩
    obtain ⟨k, hk⟩ := Option.ne_none_iff_exists'.1 hne
    rw [hk] at hne hmem
    exact h.fresh k i (hf.locked hv hk).2 ⟨hne, hmem⟩
  have himports : ((s.store i (keyed ++ plain) result).finish i (.committed result)).imports =
      s.imports ++ [⟨i, keyed ++ plain, result⟩] := rfl
  exact {
    unique := fun hunique => (h.unique hunique).insertAll hfree hf.distinct
    fresh := by
      intro k j hk hstored
      have hlock : s.lock k = some j := Locks.of_release hk
      rcases taken_insertAll.1 hstored with hstored | ⟨-, v, hv, he⟩
      · exact h.fresh k j hlock hstored
      · obtain rfl := Option.some.inj (hlock.symm.trans (hf.locked hv he).2)
        exact Locks.release_self hk
    session := by
      intro j
      by_cases hj : j = i
      · subst hj
        have hself : ((s.store j (keyed ++ plain) result).finish j (.committed result)).phase j =
            .committed result := setPhase_self ..
        rw [hself]
        exact fun k => Locks.release_self
      · exact SessionInv.finish (h.session j) hj rfl rfl hmono
    history := by
      rw [himports, List.flatMap_append, insertAll_append, ← h.history, List.flatMap_singleton]
      rfl
    kept := by
      intro c hc
      rcases List.mem_append.1 hc with hc | hc
      · have hj : c.session ≠ i := fun he =>
          h.not_committed hphase (he ▸ List.mem_map_of_mem (f := (·.session)) hc)
        exact ⟨(setPhase_of_ne _ _ hj).trans (h.kept c hc).phase,
          fun r hr k hk => hmono k ((h.kept c hc).stored r hr k hk), (h.kept c hc).inserted⟩
      · obtain rfl := List.mem_singleton.1 hc
        exact ⟨setPhase_self .., fun r hr k hk => hf.stored hr hk, hf.inserted.trans List.length_append.symm⟩
    listed := by
      intro j result' hj
      by_cases hji : j = i
      · subst hji
        obtain rfl := Phase.committed.inj ((setPhase_self ..).symm.trans hj)
        exact ⟨_, List.mem_append_right _ (List.mem_singleton_self _)⟩
      · obtain ⟨rows, hmem⟩ := h.listed j result' ((setPhase_of_ne _ _ hji).symm.trans hj)
        exact ⟨rows, List.mem_append_left _ hmem⟩
    once := by
      rw [himports, List.map_append]
      exact h.once.append (List.nodup_singleton i) (by simpa using h.not_committed hphase)
    origin := by
      intro t ht k hk
      rw [himports]
      rcases mem_insertAll ht with ht | ⟨v, hv, he⟩
      · exact (h.origin t ht k hk).append _
      · have hext : v.externalId = some k := by rw [← hk, he]; rfl
        obtain ⟨hmem, hlock⟩ := hf.locked hv hext
        obtain ⟨r, hr, hkey, hbank⟩ := hf.held.first v hmem
        exact .inr ⟨s.imports, ⟨i, keyed ++ plain, result⟩, [], rfl, h.externalId_ne hlock,
          r, hr, v, hv, hkey.trans hext, hbank, he⟩ }

end Commit

/-! ## Runs -/

theorem Importing.externalId {w : Work} {row : BankCsvRow} {todo : List BankCsvRow} {k : String}
    {v : BankValues} (h : Importing U env file s i done w) (htodo : w.todo = row :: todo)
    (hkey : row.key = some k) (hv : bankValues env row = .ok v) : v.externalId = some k := by
  have hmem : row ∈ fileRows U env (file i) := by
    rw [h.read, htodo]
    exact List.mem_append_right _ (List.mem_cons_self ..)
  have hvalid := fileRows_validated hmem
  exact (hvalid.externalId hv).trans (hvalid.key.symm.trans hkey)

/-- One row on. -/
theorem Importing.pass {w w' : Work} {row : BankCsvRow} (h : Importing U env file s i done w)
    (htodo : w.todo = row :: w'.todo)
    (hseen : ∀ k, k ∈ w'.seenInFile ↔ k ∈ w.seenInFile ∨ row.key = some k)
    (hpending : w'.pending = w.pending ++ unkeyed [row])
    (hinserted : w'.inserted + (w.rows.length + w.pending.length) =
      w.inserted + (w'.rows.length + w'.pending.length))
    (hcounted : w'.inserted + w'.skipped = w.inserted + w.skipped + 1)
    (hheld : Held env s' i (done ++ [row]) w'.rows) :
    Importing U env file s' i (done ++ [row]) w' where
  read := by rw [h.read, htodo, List.append_cons]
  seenInFile := by
    intro k
    rw [hseen, h.seenInFile]
    simp only [List.mem_append, List.mem_singleton, or_and_right, exists_or, exists_eq_left]
  pending := by rw [hpending, h.pending, unkeyed_append]
  inserted := by
    have hbefore := h.inserted
    omega
  counted := by
    have hbefore := h.counted
    rw [List.length_append, List.length_singleton]
    omega
  held := hheld

theorem SessionInv.started (h : ∀ k, s.lock k ≠ some i) : SessionInv U env file s i (readFile U env (file i)) := by
  rcases readFile_cases U env (file i) with ⟨e, he⟩ | ⟨hnil, errors, he⟩ | ⟨parsed, he⟩
  · rw [he]
    exact h
  · rw [he]
    refine ⟨[], [], rfl, ?_, ?_, rfl, ?_⟩
    · rw [hnil]
      exact .nil h
    · rw [hnil]
      rfl
    · rw [hnil]
      rfl
  · rw [he]
    exact ⟨[], (List.nil_append _).symm, by simp, rfl, rfl, rfl, .nil h⟩

theorem readFile_open (U : Unicode) (env : Env) (content : List UInt8) (result : BankImportResult) :
    readFile U env content ≠ .committed result := by
  rcases readFile_cases U env content with ⟨e, he⟩ | ⟨-, errors, he⟩ | ⟨parsed, he⟩ <;> simp [he]

section Rows

variable {w : Work} {row : BankCsvRow} {todo : List BankCsvRow} {k : String} {v : BankValues}

theorem Importing.queued (h : Importing U env file s i done w) (htodo : w.todo = row :: todo)
    (hkey : row.key = none) : Importing U env file s i (done ++ [row])
      { w with todo, pending := w.pending ++ [row], inserted := w.inserted + 1 } := by
  refine h.pass htodo ?_ ?_ ?_ ?_ ?_
  · simp [hkey]
  · rw [unkeyed_singleton, if_pos hkey]
  · simp only [List.length_append, List.length_singleton]
    omega
  · dsimp only
    omega
  · exact h.held.pass row fun k hk => by cases hkey.symm.trans hk

theorem unkeyed_of_key (hkey : row.key = some k) (pending : List BankCsvRow) :
    pending = pending ++ unkeyed [row] := by
  rw [unkeyed_singleton, if_neg (by simp [hkey]), List.append_nil]

theorem Importing.repeated (h : Importing U env file s i done w) (htodo : w.todo = row :: todo)
    (hkey : row.key = some k) (hseen : k ∈ w.seenInFile) :
    Importing U env file s i (done ++ [row]) { w with todo, skipped := w.skipped + 1 } := by
  refine h.pass htodo ?_ (unkeyed_of_key hkey _) rfl ?_ ?_
  · intro k'
    rw [hkey, Option.some.injEq, or_iff_left_of_imp]
    rintro rfl
    exact hseen
  · dsimp only
    omega
  · refine h.held.pass row fun k' hk' => ?_
    obtain ⟨r, hr, hrk⟩ := (h.seenInFile k).1 hseen
    obtain rfl := Option.some.inj (hkey.symm.trans hk')
    exact h.held.seen r hr k hrk

theorem Importing.present (h : Importing U env file s i done w) (htodo : w.todo = row :: todo)
    (hkey : row.key = some k) (hstored : Stored s.db k) : Importing U env file s i (done ++ [row])
      { w with todo, seenInFile := k :: w.seenInFile, skipped := w.skipped + 1 } := by
  refine h.pass htodo ?_ (unkeyed_of_key hkey _) rfl ?_ ?_
  · intro k'
    rw [hkey, Option.some.injEq, List.mem_cons, or_comm, eq_comm]
  · dsimp only
    omega
  · refine h.held.pass row fun k' hk' => .inr ?_
    obtain rfl := Option.some.inj (hkey.symm.trans hk')
    exact hstored

theorem Importing.sent (h : Importing U env file s i done w) (htodo : w.todo = row :: todo)
    (hkey : row.key = some k) (hseen : k ∉ w.seenInFile) (hv : bankValues env row = .ok v)
    (hext : v.externalId = some k) (hfree : s.lock.Free i k) :
    Importing U env file (s.take i k) i (done ++ [row])
      { w with todo, seenInFile := k :: w.seenInFile, rows := w.rows ++ [v], inserted := w.inserted + 1 } := by
  have hnew : ∀ r ∈ done, r.key ≠ some k := fun r hr hk => hseen ((h.seenInFile k).2 ⟨r, hr, hk⟩)
  refine h.pass htodo ?_ (unkeyed_of_key hkey _) ?_ ?_ ?_
  · intro k'
    rw [hkey, Option.some.injEq, List.mem_cons, or_comm, eq_comm]
  · simp only [List.length_append, List.length_singleton]
    omega
  · dsimp only
    omega
  · exact h.held.send hkey hnew hv hext hfree

theorem Importing.flushed {vs : List BankValues} (h : Importing U env file s i done w) (htodo : w.todo = [])
    (hvs : w.pending.mapM (bankValues env) = .ok vs) :
    Flushed U env file s i w.rows vs ⟨w.parsed.received, w.inserted, w.skipped, w.parsed.errors⟩ := by
  have hdone : fileRows U env (file i) = done := by rw [h.read, htodo, List.append_nil]
  have hlength := Except.length_of_mapM hvs
  refine ⟨?_, ?_, ?_, ?_⟩
  · rw [hdone]
    exact h.held
  · rw [hdone, ← h.pending]
    exact hvs
  · rw [hlength]
    exact h.inserted
  · rw [hdone]
    exact h.counted

theorem Inv.importing (h : Inv U env file db₀ s) (hphase : s.phase i = .importing w) :
    ∃ done, Importing U env file s i done w := by
  have hsession := h.session i
  rw [hphase] at hsession
  exact hsession

end Rows

theorem Inv.step (h : Inv U env file db₀ s) (hs : ImportSession.step U env file s ev = some s') :
    Inv U env file db₀ s' := by
  cases moved_of_step hs with
  | @started i hphase =>
    have hidle := h.session i
    rw [hphase] at hidle
    exact h.move (by simp [hphase]) (readFile_open U env (file i)) (.started hidle)
  | queued hphase htodo hkey =>
    obtain ⟨done, hi⟩ := h.importing hphase
    exact h.move (by simp [hphase]) (by simp) ⟨_, hi.queued htodo hkey⟩
  | repeated hphase htodo hkey hseen =>
    obtain ⟨done, hi⟩ := h.importing hphase
    exact h.move (by simp [hphase]) (by simp) ⟨_, hi.repeated htodo hkey hseen⟩
  | present hphase htodo hkey hseen hv hfree htaken =>
    obtain ⟨done, hi⟩ := h.importing hphase
    rw [hi.externalId htodo hkey hv] at htaken
    exact h.move (by simp [hphase]) (by simp) ⟨_, hi.present htodo hkey htaken⟩
  | @sent i w row todo k v hphase htodo hkey hseen hv hfree htaken =>
    obtain ⟨done, hi⟩ := h.importing hphase
    have hext := hi.externalId htodo hkey hv
    rw [hext] at htaken
    refine h.own (fun j hj k' => Locks.take_iff hfree hj) (fun k' j hk' => ?_) (by simp [hphase])
      (by simp) ⟨_, hi.sent htodo hkey hseen hv hext hfree⟩
    by_cases hj : j = i
    · subst hj
      rcases Locks.of_take hk' with rfl | hlock
      · exact htaken
      · exact h.fresh k' j hlock
    · exact h.fresh k' j ((Locks.take_iff hfree hj).1 hk')
  | flushed hphase htodo hvs =>
    obtain ⟨done, hi⟩ := h.importing hphase
    exact h.move (by simp [hphase]) (by simp) ⟨_, _, rfl, hi.flushed htodo hvs⟩
  | committed hphase => exact h.commit hphase
  | dropped hev hlive hdrop => exact h.drop hlive hdrop

theorem idle_of_start (hs : step U env file s (.start i) = some s') : s.phase i = .idle := by
  simp only [step] at hs
  split at hs
  · assumption
  · cases hs

/-- Only commits store rows. -/
theorem stores_of_step (hs : step U env file s ev = some s') :
    (s'.db = s.db ∧ s'.imports = s.imports) ∨ ∃ i rows result, s.phase i = .flushed rows result ∧
      s'.db = insertAll s.db rows ∧ s'.imports = s.imports ++ [⟨i, rows, result⟩] := by
  cases moved_of_step hs with
  | started hphase => exact .inl ⟨rfl, rfl⟩
  | queued hphase htodo hkey => exact .inl ⟨rfl, rfl⟩
  | repeated hphase htodo hkey hseen => exact .inl ⟨rfl, rfl⟩
  | present hphase htodo hkey hseen hv hfree htaken => exact .inl ⟨rfl, rfl⟩
  | sent hphase htodo hkey hseen hv hfree htaken => exact .inl ⟨rfl, rfl⟩
  | flushed hphase htodo hvs => exact .inl ⟨rfl, rfl⟩
  | @committed i rows result hphase => exact .inr ⟨i, rows, result, hphase, rfl, rfl⟩
  | dropped hev hlive hdrop => exact .inl ⟨rfl, rfl⟩

theorem stored_of_step (hs : step U env file s ev = some s') {k : String} (hk : Stored s.db k) :
    Stored s'.db k := by
  rcases stores_of_step hs with ⟨hdb, -⟩ | ⟨i, rows, result, -, hdb, -⟩
  · exact hdb ▸ hk
  · exact hdb ▸ taken_insertAll.2 (.inl hk)

theorem prefix_of_step (hs : step U env file s ev = some s') :
    s.db.bankTransactions.rows <+: s'.db.bankTransactions.rows := by
  rcases stores_of_step hs with ⟨hdb, -⟩ | ⟨i, rows, result, -, hdb, -⟩
  · rw [hdb]
  · rw [hdb]
    exact prefix_insertAll _ _

/-- What the import `c` of a file of valid rows `rows` does when all their ids are stored. -/
structure Reimported (env : Env) (rows : List BankCsvRow) (c : Import) : Prop where
  added : (rows.filter (·.externalId = none)).mapM (bankValues env) = .ok c.rows
  inserted : c.result.inserted = (rows.filter (·.externalId = none)).length
  skipped : c.result.skippedDuplicates = (rows.filter (·.externalId ≠ none)).length

def AllStored (U : Unicode) (env : Env) (file : ℕ → List UInt8) (s : State) (j : ℕ) : Prop :=
  ∀ r ∈ fileRows U env (file j), ∀ k, r.key = some k → Stored s.db k

theorem unkeyed_fileRows (U : Unicode) (env : Env) (content : List UInt8) :
    unkeyed (fileRows U env content) =
      (fileRows U env content).filter (·.externalId = none) := by
  unfold unkeyed
  refine List.filter_congr fun r hr => ?_
  rw [(fileRows_validated hr).key]

theorem Inv.reimported (h : Inv U env file db₀ s) (hall : AllStored U env file s j)
    {rows : List BankValues} {result : BankImportResult} (hphase : s.phase j = .flushed rows result) :
    Reimported env (fileRows U env (file j)) ⟨j, rows, result⟩ := by
  obtain ⟨keyed, plain, rfl, hf⟩ : SessionInv U env file s j (.flushed rows result) :=
    hphase ▸ h.session j
  have hnil : keyed = [] := by
    refine List.eq_nil_iff_forall_not_mem.2 fun v hv => ?_
    obtain ⟨k, hk, hlock⟩ := hf.held.own v hv
    obtain ⟨r, hr, hkey, -⟩ := hf.held.first v hv
    exact h.fresh k j hlock (hall r (mem_of_mem_firsts hr).1 k (hkey.trans hk))
  subst hnil
  have hqueued := hf.queued
  have hinserted := hf.inserted
  have hcounted := hf.counted
  have hlength := Except.length_of_mapM hqueued
  have hsplit := List.length_eq_length_filter_add (l := fileRows U env (file j)) (·.externalId = none)
  rw [unkeyed_fileRows] at hqueued hlength
  refine ⟨hqueued, ?_, ?_⟩
  · rw [hinserted, ← hlength, List.length_nil, Nat.zero_add]
  · simp only [List.length_nil, Nat.zero_add] at hinserted
    have hkeyed : (fileRows U env (file j)).filter (fun r => ¬ r.externalId = none) =
        (fileRows U env (file j)).filter (fun r => !decide (r.externalId = none)) := by
      simp
    simp only [ne_eq, hkeyed]
    omega

theorem reimported_of_run (hall : AllStored U env file s j) (h : Inv U env file db₀ s)
    (hidle : s.phase j = .idle) {tr : List (State × Event)}
    (hrun : Run (Fires (step U env file)) s tr s') :
    ∀ c ∈ s'.imports, c.session = j → Reimported env (fileRows U env (file j)) c := by
  have hinv : Inv U env file db₀ s' ∧ AllStored U env file s' j ∧
      ∀ c ∈ s'.imports, c.session = j → Reimported env (fileRows U env (file j)) c := by
    refine hrun.invariant (I := fun s => Inv U env file db₀ s ∧ AllStored U env file s j ∧
      ∀ c ∈ s.imports, c.session = j → Reimported env (fileRows U env (file j)) c) ?_ ?_
    · refine ⟨h, hall, fun c hc he => ?_⟩
      cases (he ▸ (h.kept c hc).phase).symm.trans hidle
    · rintro s e s' ⟨h, hall, hre⟩ hs
      refine ⟨h.step hs, fun r hr k hk => stored_of_step hs (hall r hr k hk), fun c hc he => ?_⟩
      rcases stores_of_step hs with ⟨-, himports⟩ | ⟨i, rows, result, hphase, -, himports⟩
      · exact hre c (himports ▸ hc) he
      · rw [himports] at hc
        rcases List.mem_append.1 hc with hc | hc
        · exact hre c hc he
        · obtain rfl := List.mem_singleton.1 hc
          obtain rfl : i = j := he
          exact h.reimported hall hphase
  exact hinv.2.2

/-- For any initial table under the unique index and any interleaving of imports: ids stay unique;
every valid row with an id, of every committed file, is represented by the row first committed
under that id; rows stored stay as they are; the table is the initial one with what the
imports report as inserted; and a file imported again adds its rows without an id and skips the
others. -/
theorem imports_keep_rows (hunique : UniqueIds db₀) {tr : List (State × Event)}
    (hrun : Run (Fires (step U env file)) (State.init db₀) tr s) :
    UniqueIds s.db ∧
    (∀ i result, s.phase i = .committed result ↔ ∃ rows, ⟨i, rows, result⟩ ∈ s.imports) ∧
    (s.imports.map (·.session)).Nodup ∧
    (∀ c ∈ s.imports, ∀ r ∈ fileRows U env (file c.session), ∀ k, r.externalId = some k →
      ∃ t ∈ s.db.bankTransactions.rows, t.externalId = some k ∧
        Origin U env file db₀ s.imports t k) ∧
    (∀ p ∈ tr, p.1.db.bankTransactions.rows <+: s.db.bankTransactions.rows) ∧
    s.db = insertAll db₀ (s.imports.flatMap (·.rows)) ∧
    s.db.bankTransactions.rows.length =
      db₀.bankTransactions.rows.length + (s.imports.map (·.result.inserted)).sum ∧
    ∀ p ∈ tr, ∀ c ∈ p.1.imports, ∀ j, p.2 = .start j → file j = file c.session →
      ∀ c' ∈ s.imports, c'.session = j → Reimported env (fileRows U env (file j)) c' := by
  have h : Inv U env file db₀ s := hrun.invariant .init fun _ _ _ hI hs => hI.step hs
  refine ⟨h.unique hunique, fun i result => ⟨h.listed i result, ?_⟩, h.once, ?_, ?_, h.history, ?_, ?_⟩
  · rintro ⟨rows, hmem⟩
    exact (h.kept _ hmem).phase
  · intro c hc r hr k hk
    obtain ⟨-, t, ht, he⟩ := (h.kept c hc).stored r hr k ((fileRows_validated hr).key.trans hk)
    exact ⟨t, ht, he, h.origin t ht k he⟩
  · exact hrun.since (r := fun s s' => s.db.bankTransactions.rows <+: s'.db.bankTransactions.rows)
      (fun _ _ _ => List.IsPrefix.trans) fun _ _ _ hs => prefix_of_step hs
  · have hcounts : s.imports.map (·.result.inserted) = s.imports.map (·.rows.length) :=
      List.map_congr_left fun c hc => (h.kept c hc).inserted
    rw [h.history, length_insertAll, hcounts, List.length_flatMap]
  · rintro ⟨s₀, ev⟩ hp c hc j rfl hfile c' hc' he
    obtain ⟨tr₁, tr₂, rfl⟩ := List.append_of_mem hp
    obtain ⟨s₁, hrun₁, hs, hrun₂⟩ := hrun.split
    have h₀ : Inv U env file db₀ s₀ :=
      hrun₁.invariant .init fun _ _ _ hI hs => hI.step hs
    have hall : AllStored U env file s₀ j := by
      intro r hr k hk
      rw [hfile] at hr
      exact (h₀.kept c hc).stored r hr k hk
    exact reimported_of_run hall h₀ (idle_of_start hs) (hrun₂.cons hs) c' hc' he

/-- One row with an id and one without. -/
def demoStatement : List UInt8 :=
  Text.encodeUtf8 "Date,Amount,Details,Id\n2026-01-02,5,?,A\n2026-01-03,6,!,\n"

/-- The statement imported twice. -/
def demoTwice : Option (List (State × Event) × State) :=
  drive (step demoUnicode demoEnv fun _ => demoStatement) (State.init Db.empty)
    [.start 0, .insert 0, .insert 0, .flush 0, .commit 0,
      .start 1, .insert 1, .insert 1, .flush 1, .commit 1]

theorem imports_keep_rows_twice : ∃ tr s,
    Run (Fires (step demoUnicode demoEnv fun _ => demoStatement)) (State.init Db.empty) tr s ∧
      s.imports.map (fun c => (c.session, c.result.inserted, c.result.skippedDuplicates)) =
        [(0, 2, 0), (1, 1, 1)] ∧
      UniqueIds s.db ∧ s.db.bankTransactions.rows.length = 3 := by
  have hdemo : demoTwice.map (fun r => r.2.imports.map
      fun c => (c.session, c.result.inserted, c.result.skippedDuplicates)) =
        some [(0, 2, 0), (1, 1, 1)] := by decide +kernel
  obtain ⟨⟨tr, s⟩, hdrive, himports⟩ := Option.map_eq_some_iff.1 hdemo
  have hunique : UniqueIds Db.empty := by rintro t ⟨⟩
  obtain ⟨hids, -, -, -, -, -, hlength, -⟩ := imports_keep_rows hunique (run_of_drive hdrive)
  refine ⟨tr, s, run_of_drive hdrive, himports, hids, ?_⟩
  have hcounts : s.imports.map (·.result.inserted) = [2, 1] := by
    have hmap := congrArg (List.map fun c : ℕ × ℕ × ℕ => c.2.1) himports
    rw [List.map_map] at hmap
    exact hmap
  rw [hlength, hcounts]
  rfl

end ReckonFlow.ImportSession
