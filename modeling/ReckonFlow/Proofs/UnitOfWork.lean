import ReckonFlow.Lib.Effects
import ReckonFlow.Proofs.Backstop
import ReckonFlow.Spec.UnitOfWork

/-! A ledger post and an approval transition read and test before they change anything: an error
of the domain leaves the session as it was, and every other error ends in a rollback. -/

namespace ReckonFlow.UnitOfWork

open Effects Decimal

variable {env : Env} {db db' : Db} {s s' : Session} {reference description : String}
  {lines : List LedgerLine} {approvalId : Id} {target : ApprovalStatus} {reviewer notes : Option String}

/-- The errors a caller may catch: not found, unbalanced, an illegal transition, a missing account. -/
def IsDomain : SessionError → Prop
  | .service (.notFound _) | .service (.unbalancedLedger _) | .service (.unbalancedTotals _ _ _)
  | .service (.invalidStateTransition _) | .service (.reckonFlow _) => True
  | _ => False

theorem FromDatabase.not_domain {e : Error} (h : FromDatabase e) : ¬ IsDomain (.service e) := by
  cases e <;> first | exact h.elim | exact id

/-! ## What a flush may fail with -/

theorem varchar_error {column text : String} {n : ℕ} {e : Error} (h : varchar column n text = .error e) :
    FromDatabase e := by
  unfold varchar at h
  split_ifs at h
  · obtain rfl := Except.error.inj h
    trivial
  · obtain rfl := Except.error.inj h
    trivial

theorem nullable_error {store : String → Except Error String} {value : Option String} {e : Error}
    (hstore : ∀ text, store text = .error e → FromDatabase e) (h : nullable store value = .error e) :
    FromDatabase e := by
  cases value with
  | none => cases h
  | some text =>
    cases hrun : store text with
    | error e' =>
      rw [nullable, hrun] at h
      obtain rfl := Except.error.inj h
      exact hstore text hrun
    | ok stored =>
      rw [nullable, hrun] at h
      cases h

theorem text_error {column content : String} {e : Error} (h : text column content = .error e) :
    FromDatabase e := by
  unfold text at h
  split_ifs at h
  obtain rfl := Except.error.inj h
  trivial

theorem numeric_error {column : String} {q : ℚ} {e : Error} (h : numeric column q = .error e) :
    FromDatabase e := by
  unfold numeric at h
  split at h
  · cases h
  · obtain rfl := Except.error.inj h
    trivial

theorem insertTransaction_error {e : Error} (h : insertTransaction db reference description = .error e) :
    FromDatabase e := by
  simp only [insertTransaction, Except.bind_eq_error, ensure_eq_error] at h
  rcases h with h | ⟨_, -, h | ⟨_, -, ⟨-, rfl⟩ | ⟨_, -, h⟩⟩⟩
  · exact varchar_error h
  · exact varchar_error h
  · trivial
  · cases h

theorem insertEntry_error {txId : Id} {line : ParsedLine} {e : Error}
    (h : insertEntry txId db line = .error e) : FromDatabase e := by
  simp only [insertEntry, Except.bind_eq_error] at h
  rcases h with h | ⟨_, -, h | ⟨_, -, h | ⟨_, -, h | ⟨_, -, h⟩⟩⟩⟩
  · exact numeric_error h
  · exact numeric_error h
  · exact varchar_error h
  · exact nullable_error (fun _ => text_error) h
  · split_ifs at h
    obtain rfl := Except.error.inj h
    trivial

theorem insertReferenced_error {txId : Id} {line : ParsedLine} {e : Error}
    (h : insertReferenced txId db line = .error e) : FromDatabase e := by
  simp only [insertReferenced, Except.bind_eq_error, ensure_eq_error] at h
  rcases h with ⟨-, rfl⟩ | ⟨_, -, ⟨-, rfl⟩ | ⟨_, -, h⟩⟩
  · trivial
  · trivial
  · exact insertEntry_error h

theorem updateApproval_error {i : Loaded} {e : Error} (h : updateApproval db i = .error e) :
    FromDatabase e := by
  simp only [updateApproval, Except.bind_eq_error] at h
  rcases h with h | ⟨_, -, h | ⟨_, -, h⟩⟩
  · exact nullable_error (fun _ => varchar_error) h
  · exact nullable_error (fun _ => text_error) h
  · cases h

theorem statements_error {e : Error} (h : s.statements = .error e) : FromDatabase e := by
  simp only [Session.statements, Except.bind_eq_error] at h
  rcases h with h | ⟨_, -, h | ⟨_, -, h | ⟨_, -, h⟩⟩⟩
  · exact Except.foldlM_error (fun db write e => write.refused db e) h
  · refine Except.foldlM_error (fun db t e hrun => ?_) h
    cases hinsert : insertTransaction db t.1 t.2 with
    | ok r =>
      rw [hinsert] at hrun
      cases hrun
    | error e' =>
      rw [hinsert] at hrun
      obtain rfl := Except.error.inj hrun
      exact insertTransaction_error hinsert
  · exact Except.foldlM_error (fun db t e => insertReferenced_error) h
  · exact Except.foldlM_error (fun db i e => updateApproval_error) h

/-! ## The operations of the session -/

theorem flush_ok {u : Unit} (h : flush s = .ok u s') :
    s.active = true ∧ ∃ db, s.statements = .ok db ∧ s' = s.flushed db := by
  unfold flush at h
  split_ifs at h with hactive
  cases hrun : s.statements with
  | ok db =>
    rw [hrun] at h
    cases h
    exact ⟨hactive, db, rfl, rfl⟩
  | error e =>
    rw [hrun] at h
    cases h

/-- A failed flush is an error of the database, and only resets the session. -/
theorem flush_error {e : SessionError} (h : flush s = .error e s') :
    ¬ IsDomain e ∧ s'.committed = s.committed := by
  unfold flush at h
  split_ifs at h with hactive
  · cases hrun : s.statements with
    | ok db =>
      rw [hrun] at h
      cases h
    | error e' =>
      rw [hrun] at h
      cases h
      exact ⟨(statements_error hrun).not_domain, rfl⟩
  · cases h
    exact ⟨id, rfl⟩

theorem read_ok {α : Type} {query : Db → Except Error α} {a : α} (h : read query s = .ok a s') :
    s.active = true ∧ query s.db = .ok a ∧ s' = s := by
  unfold read at h
  split_ifs at h with hactive
  cases hrun : query s.db with
  | ok b =>
    rw [hrun] at h
    cases h
    exact ⟨hactive, rfl, rfl⟩
  | error e =>
    rw [hrun] at h
    cases h

theorem read_error {α : Type} {query : Db → Except Error α} {e : SessionError}
    (h : read query s = .error e s') : s' = s := by
  unfold read at h
  split_ifs at h with hactive
  · cases hrun : query s.db with
    | ok b =>
      rw [hrun] at h
      cases h
    | error e' =>
      rw [hrun] at h
      cases h
      rfl
  · cases h
    rfl

theorem check_ok {α : Type} {x : Except Error α} {a : α} (h : check x s = .ok a s') :
    x = .ok a ∧ s' = s := by
  unfold check at h
  cases x with
  | ok b =>
    cases h
    exact ⟨rfl, rfl⟩
  | error e => cases h

theorem check_error {α : Type} {x : Except Error α} {e : SessionError} (h : check x s = .error e s') :
    s' = s := by
  unfold check at h
  cases x with
  | ok b => cases h
  | error e' =>
    cases h
    rfl

theorem read_leaves {α : Type} {R : Session → Session → Prop} (hrefl : ∀ s, R s s)
    (query : Db → Except Error α) : Leaves R (read query) where
  ok := by
    intro s a s' h
    obtain ⟨-, -, rfl⟩ := read_ok h
    exact hrefl _
  error := by
    intro s e s' h
    obtain rfl := read_error h
    exact hrefl _

theorem check_leaves {α : Type} {R : Session → Session → Prop} (hrefl : ∀ s, R s s)
    (x : Except Error α) : Leaves R (check x) where
  ok := by
    intro s a s' h
    obtain ⟨-, rfl⟩ := check_ok h
    exact hrefl _
  error := by
    intro s e s' h
    obtain rfl := check_error h
    exact hrefl _

theorem modify_leaves {R : Session → Session → Prop} {f : Session → Session} (hf : ∀ s, R s (f s)) :
    Leaves R (modify f : Call Unit) where
  ok := by
    rintro s a s' ⟨⟩
    exact hf s
  error := by rintro s e s' ⟨⟩

theorem modify_never (D : SessionError → Prop) (f : Session → Session) : Never D (modify f : Call Unit) := by
  rintro s e s' ⟨⟩

theorem flush_never : Never IsDomain flush := fun _ _ _ h => (flush_error h).1

theorem lastTransaction_leaves {R : Session → Session → Prop} (hrefl : ∀ s, R s s) :
    Leaves R lastTransaction where
  ok := by
    rintro s a s' ⟨⟩
    exact hrefl s
  error := by rintro s e s' ⟨⟩

theorem lastTransaction_never (D : SessionError → Prop) : Never D lastTransaction := by
  rintro s e s' ⟨⟩

/-- The entries of a transaction, added one by one. -/
theorem forM_addEntry (txId : Id) (parsed : List ParsedLine) : ∀ s : Session,
    parsed.forM (addEntry txId) s = .ok ⟨⟩ { s with entries := s.entries ++ parsed.map (txId, ·) } := by
  induction parsed with
  | nil =>
    intro s
    rw [List.map_nil, List.append_nil]
    rfl
  | cons line parsed ih =>
    intro s
    have hstep : (line :: parsed).forM (addEntry txId) s =
        parsed.forM (addEntry txId) { s with entries := s.entries ++ [(txId, line)] } := rfl
    rw [hstep, ih, List.map_cons, List.append_assoc, List.singleton_append]

theorem forM_addEntry_never (D : SessionError → Prop) (txId : Id) (parsed : List ParsedLine) :
    Never D (parsed.forM (addEntry txId)) := by
  intro s e s' h
  rw [forM_addEntry] at h
  cases h

/-! ## The two halves of a post -/

/-- `create_balanced_transaction` up to its first write. -/
def checks (env : Env) (lines : List LedgerLine) : Call (List ParsedLine) := do
  check (ensure (2 ≤ lines.length) (.unbalancedLedger "Need at least two ledger lines"))
  let parsed ← lines.foldlM (fun acc raw => read (addLine env · acc raw)) ([], [])
  check (checkTotals parsed.2)
  return parsed.1

/-- The rest of it. -/
def writes (reference description : String) (parsed : List ParsedLine) : Call Id := do
  addTransaction reference description
  flush
  let txId ← lastTransaction
  parsed.forM (addEntry txId)
  flush
  return txId

theorem createBalancedTransaction_halves (env : Env) (reference description : String)
    (lines : List LedgerLine) : createBalancedTransaction env reference description lines =
      checks env lines >>= writes reference description := by
  simp only [createBalancedTransaction, checks, bind_assoc, pure_bind]
  rfl

/-- The loop over the lines reads what the transaction sees. -/
theorem readLines_ok {parsed : List ParsedLine × Buckets} : ∀ {acc : List ParsedLine × Buckets} {s s' : Session},
    lines.foldlM (fun acc raw => read (addLine env · acc raw)) acc s = .ok parsed s' →
      s' = s ∧ lines.foldlM (addLine env s.db) acc = .ok parsed := by
  induction lines with
  | nil =>
    intro acc s s' h
    obtain ⟨rfl, rfl⟩ := pure_ok.1 h
    exact ⟨rfl, rfl⟩
  | cons raw lines ih =>
    intro acc s s' h
    rw [List.foldlM_cons] at h
    obtain ⟨next, s₁, hread, hrest⟩ := bind_ok.1 h
    obtain ⟨-, hline, rfl⟩ := read_ok hread
    obtain ⟨rfl, hlines⟩ := ih hrest
    refine ⟨rfl, ?_⟩
    rw [List.foldlM_cons, Except.bind_eq_ok]
    exact ⟨next, hline, hlines⟩

theorem checks_ok {parsed : List ParsedLine} (h : checks env lines s = .ok parsed s') :
    s' = s ∧ parsed = lines.map (parsedOf env) := by
  obtain ⟨_, s₁, hcount, h₁⟩ := bind_ok.1 h
  obtain ⟨-, rfl⟩ := check_ok hcount
  obtain ⟨acc, s₂, hloop, h₂⟩ := bind_ok.1 h₁
  obtain ⟨rfl, hlines⟩ := readLines_ok hloop
  obtain ⟨_, s₃, htotals, h₃⟩ := bind_ok.1 h₂
  obtain ⟨-, rfl⟩ := check_ok htotals
  obtain ⟨rfl, rfl⟩ := pure_ok.1 h₃
  exact ⟨rfl, foldlM_addLine_parsed hlines⟩

theorem checks_leaves {R : Session → Session → Prop} (hrefl : ∀ s, R s s)
    (htrans : ∀ a b c, R a b → R b c → R a c) : Leaves R (checks env lines) := by
  apply Leaves.bind htrans (check_leaves hrefl _)
  intro _
  apply Leaves.bind htrans (Leaves.foldlM hrefl htrans (fun acc raw => read_leaves hrefl _) lines _)
  intro parsed
  apply Leaves.bind htrans (check_leaves hrefl _)
  exact fun _ => Leaves.pure hrefl parsed.1

/-- From the first write on only the database can refuse. -/
theorem writes_never (parsed : List ParsedLine) : Never IsDomain (writes reference description parsed) := by
  refine Never.bind (modify_never _ _) fun _ => Never.bind flush_never fun _ => ?_
  refine Never.bind (lastTransaction_never _) fun txId => ?_
  refine Never.bind (forM_addEntry_never _ txId parsed) fun _ => ?_
  exact Never.bind flush_never fun _ => Never.pure txId

/-! ## A failing call leaves no trace -/

def Unchanged (s s' : Session) : Prop := s' = s

theorem createBalancedTransaction_onError :
    OnError IsDomain Unchanged (createBalancedTransaction env reference description lines) := by
  have htrans : ∀ a b c, Unchanged a b → Unchanged b c → Unchanged a c := fun _ _ _ h₁ h₂ => h₂.trans h₁
  rw [createBalancedTransaction_halves]
  apply OnError.bind htrans (checks_leaves (fun _ => rfl) htrans)
  exact fun parsed => (writes_never parsed).onError

/-- Everything the session would write is as before, and so are the attributes of every approval. -/
structure NoTrace (s s' : Session) : Prop where
  committed : s'.committed = s.committed
  db : s'.db = s.db
  active : s'.active = s.active
  others : s'.others = s.others
  transactions : s'.transactions = s.transactions
  entries : s'.entries = s.entries
  changed : s'.loaded.filter (·.changed) = s.loaded.filter (·.changed)
  approval : ∀ i, s'.approval i = s.approval i

theorem NoTrace.refl (s : Session) : NoTrace s s := ⟨rfl, rfl, rfl, rfl, rfl, rfl, rfl, fun _ => rfl⟩

theorem NoTrace.trans {s₁ s₂ s₃ : Session} (h : NoTrace s₁ s₂) (h' : NoTrace s₂ s₃) : NoTrace s₁ s₃ where
  committed := h'.committed.trans h.committed
  db := h'.db.trans h.db
  active := h'.active.trans h.active
  others := h'.others.trans h.others
  transactions := h'.transactions.trans h.transactions
  entries := h'.entries.trans h.entries
  changed := h'.changed.trans h.changed
  approval := fun i => (h'.approval i).trans (h.approval i)

/-- What is committed after it is what would have been committed before. -/
theorem NoTrace.commit (h : NoTrace s s') : s'.commit = s.commit := by
  unfold Session.commit Session.statements
  rw [h.active, h.committed, h.db, h.others, h.transactions, h.entries, h.changed]

/-- An approval loaded is an approval as the tables have it. -/
theorem noTrace_load {row : Approval} (hrow : s.db.approvals.get row.id = some row)
    (hnone : s.loaded.find? (·.row.id = row.id) = none) :
    NoTrace s { s with loaded := s.loaded ++ [.clean row] } where
  committed := rfl
  db := rfl
  active := rfl
  others := rfl
  transactions := rfl
  entries := rfl
  changed := by
    rw [List.filter_append]
    simp [Loaded.clean, Loaded.changed]
  approval := by
    intro i
    unfold Session.approval
    rw [List.find?_append]
    by_cases hi : i = row.id
    · subst hi
      rw [hnone, hrow]
      simp [Loaded.clean]
    · have hne : ¬ row.id = i := Ne.symm hi
      simp [Loaded.clean, hne]

theorem selectForUpdate_leaves : Leaves NoTrace (selectForUpdate approvalId) where
  ok := by
    intro s a s' h
    obtain ⟨row, s₁, hread, hload⟩ := bind_ok.1 h
    obtain ⟨-, hrow, rfl⟩ := read_ok hread
    obtain ⟨hmem, -⟩ := Table.get_eq_some.1 (required_eq_ok.1 hrow)
    clear h
    unfold load at hload
    split at hload
    · cases hload
      exact NoTrace.refl _
    · rename_i hnone
      cases hload
      exact noTrace_load (Table.get_of_mem hmem) hnone
  error := by
    intro s e s' h
    rcases bind_error.1 h with h | ⟨row, s₁, -, h⟩
    · obtain rfl := read_error h
      exact NoTrace.refl _
    · unfold load at h
      split at h
      · cases h
      · cases h

/-- Once the approval is changed only the database can refuse. -/
theorem decides_never : Never IsDomain (do
    setDecision approvalId target reviewer notes
    flush
    refresh approvalId) := by
  refine Never.bind (modify_never _ _) fun _ => Never.bind flush_never fun _ => ?_
  intro s e s' h
  unfold refresh at h
  split at h
  · cases h
  · cases h
    exact id

theorem postPaymentLedger_onError {approval : Approval} :
    OnError IsDomain NoTrace (postPaymentLedger env approval) := by
  refine OnError.bind (fun _ _ _ => NoTrace.trans) (read_leaves NoTrace.refl _) fun posting => ?_
  intro s e s' h hD
  obtain rfl := createBalancedTransaction_onError s e s' h hD
  exact NoTrace.refl _

theorem transitionApproval_onError :
    OnError IsDomain NoTrace (transitionApproval env approvalId target reviewer notes) := by
  have htrans : ∀ a b c, NoTrace a b → NoTrace b c → NoTrace a c := fun _ _ _ => NoTrace.trans
  unfold transitionApproval
  apply OnError.bind htrans selectForUpdate_leaves
  intro approval
  apply OnError.bind htrans (check_leaves NoTrace.refl _)
  intro _
  split_ifs with hpaid
  · exact OnError.then_never postPaymentLedger_onError fun _ => decides_never
  · exact decides_never.onError

/-! ## The transaction keeps what it began with -/

/-- The database of the beginning is not replaced. -/
def SameBegin (s s' : Session) : Prop := s'.committed = s.committed

theorem selectForUpdate_begin : Leaves SameBegin (selectForUpdate approvalId) where
  ok := fun s a s' h => (selectForUpdate_leaves.ok s a s' h).committed
  error := fun s e s' h => (selectForUpdate_leaves.error s e s' h).committed

theorem refresh_begin : Leaves SameBegin (refresh approvalId) where
  ok := by
    intro s a s' h
    unfold refresh at h
    split at h
    · cases h
      rfl
    · cases h
  error := by
    intro s e s' h
    unfold refresh at h
    split at h
    · cases h
    · cases h
      rfl

theorem forM_addEntry_begin (txId : Id) (parsed : List ParsedLine) :
    Leaves SameBegin (parsed.forM (addEntry txId)) where
  ok := by
    intro s a s' h
    rw [forM_addEntry] at h
    cases h
    rfl
  error := by
    intro s e s' h
    rw [forM_addEntry] at h
    cases h

theorem flush_begin : Leaves SameBegin flush where
  ok := by
    intro s u s' h
    obtain ⟨-, db, -, rfl⟩ := flush_ok h
    rfl
  error := fun _ _ _ h => (flush_error h).2

theorem addTransaction_begin : Leaves SameBegin (addTransaction reference description) :=
  modify_leaves fun _ => rfl

theorem setDecision_begin : Leaves SameBegin (setDecision approvalId target reviewer notes) :=
  modify_leaves fun _ => rfl

theorem createBalancedTransaction_begin :
    Leaves SameBegin (createBalancedTransaction env reference description lines) := by
  have hrefl : ∀ s, SameBegin s s := fun _ => rfl
  have htrans : ∀ a b c, SameBegin a b → SameBegin b c → SameBegin a c := fun _ _ _ h₁ h₂ => h₂.trans h₁
  rw [createBalancedTransaction_halves]
  apply Leaves.bind htrans (checks_leaves hrefl htrans)
  intro parsed
  apply Leaves.bind htrans addTransaction_begin
  intro _
  apply Leaves.bind htrans flush_begin
  intro _
  apply Leaves.bind htrans (lastTransaction_leaves hrefl)
  intro txId
  apply Leaves.bind htrans (forM_addEntry_begin txId parsed)
  intro _
  exact Leaves.bind htrans flush_begin fun _ => Leaves.pure hrefl txId

theorem transitionApproval_begin :
    Leaves SameBegin (transitionApproval env approvalId target reviewer notes) := by
  have hrefl : ∀ s, SameBegin s s := fun _ => rfl
  have htrans : ∀ a b c, SameBegin a b → SameBegin b c → SameBegin a c := fun _ _ _ h₁ h₂ => h₂.trans h₁
  have hdecides : Leaves SameBegin (do
      setDecision approvalId target reviewer notes
      flush
      refresh approvalId) := by
    apply Leaves.bind htrans setDecision_begin
    intro _
    exact Leaves.bind htrans flush_begin fun _ => refresh_begin
  unfold transitionApproval
  apply Leaves.bind htrans selectForUpdate_begin
  intro approval
  apply Leaves.bind htrans (check_leaves hrefl _)
  intro _
  split_ifs with hpaid
  · apply Leaves.bind htrans _ fun _ => hdecides
    apply Leaves.bind htrans (read_leaves hrefl _)
    exact fun posting => createBalancedTransaction_begin
  · exact hdecides

/-- Whatever fails inside a request, the database is as before it. -/
theorem getDb_error {α : Type} {body : Call α} (hbody : Leaves SameBegin body) {committed after : Db}
    {e : SessionError} (h : getDb committed body = (.error e, after)) : after = committed := by
  unfold getDb at h
  cases hrun : body (Session.opened committed) with
  | error e' s =>
    rw [hrun] at h
    obtain rfl := (Prod.mk.inj h).2
    exact hbody.error _ _ _ hrun
  | ok a s =>
    rw [hrun] at h
    simp only at h
    cases hcommit : s.commit with
    | ok db =>
      rw [hcommit] at h
      cases (Prod.mk.inj h).1
    | error e' =>
      rw [hcommit] at h
      obtain rfl := (Prod.mk.inj h).2
      exact hbody.ok _ _ _ hrun

/-! ## What a successful post adds -/

/-- The row a transaction is stored as. -/
structure StoresTransaction (t : String × String) (row : LedgerTransaction) : Prop where
  reference : varchar "reference" 64 t.1 = .ok row.reference
  description : varchar "description" 255 t.2 = .ok row.description

theorem insertTransaction_ok {r : Db × Id} (h : insertTransaction db reference description = .ok r) :
    ∃ row, StoresTransaction (reference, description) row ∧ row.id = db.ledgerTransactions.next ∧
      r.1.ledgerTransactions.rows = db.ledgerTransactions.rows ++ [row] ∧
      r.1.ledgerTransactions.next = db.ledgerTransactions.next + 1 ∧
      r.1.ledgerEntries = db.ledgerEntries := by
  simp only [insertTransaction, Except.bind_eq_ok, Except.pure_eq_ok] at h
  obtain ⟨storedReference, hreference, storedDescription, hdescription, _, -, rfl⟩ := h
  exact ⟨⟨_, storedReference, storedDescription⟩, ⟨hreference, hdescription⟩, rfl, rfl, rfl, rfl⟩

/-- The pending transactions, in their order; the last one has the last id. -/
theorem foldlM_insertTransaction {ts : List (String × String)} : ∀ {db db' : Db},
    ts.foldlM (fun db t => (insertTransaction db t.1 t.2).map (·.1)) db = .ok db' →
      ∃ rows, List.Forall₂ StoresTransaction ts rows ∧
        db'.ledgerTransactions.rows = db.ledgerTransactions.rows ++ rows ∧
        db'.ledgerEntries = db.ledgerEntries ∧
        ∀ row, rows.getLast? = some row → row.id = db'.ledgerTransactions.next - 1 := by
  induction ts with
  | nil =>
    intro db db' h
    rw [List.foldlM_nil, Except.pure_eq_ok] at h
    subst h
    exact ⟨[], .nil, (List.append_nil _).symm, rfl, by rintro row ⟨⟩⟩
  | cons t ts ih =>
    intro db db' h
    rw [List.foldlM_cons, Except.bind_eq_ok] at h
    obtain ⟨db₁, h₁, h₂⟩ := h
    obtain ⟨r, hinsert, rfl⟩ := Except.map_eq_ok.1 h₁
    obtain ⟨row, hrow, hid, hrows, hnext, hentries⟩ := insertTransaction_ok hinsert
    obtain ⟨rows, hstored, hrows', hentries', hlast⟩ := ih h₂
    refine ⟨row :: rows, .cons hrow hstored, ?_, hentries'.trans hentries, fun last hl => ?_⟩
    · rw [hrows', hrows, List.append_assoc, List.singleton_append]
    · cases rows with
      | nil =>
        have hl' : row = last := Option.some.inj hl
        cases hstored
        rw [List.foldlM_nil, Except.pure_eq_ok] at h₂
        rw [← h₂, hnext, ← hl', hid]
        exact (add_sub_cancel_right _ _).symm
      | cons row' rows => exact hlast last hl

/-- The pending entries, in their order. -/
theorem foldlM_insertReferenced_stores {es : List (Id × ParsedLine)} : ∀ {db db' : Db},
    es.foldlM (fun db e => insertReferenced e.1 db e.2) db = .ok db' →
      ∃ rows, List.Forall₂ (fun e row => Stores e.1 e.2 row) es rows ∧
        db'.ledgerEntries.rows = db.ledgerEntries.rows ++ rows ∧
        db'.ledgerTransactions = db.ledgerTransactions := by
  induction es with
  | nil =>
    intro db db' h
    rw [List.foldlM_nil, Except.pure_eq_ok] at h
    subst h
    exact ⟨[], .nil, (List.append_nil _).symm, rfl⟩
  | cons e es ih =>
    intro db db' h
    rw [List.foldlM_cons, Except.bind_eq_ok] at h
    obtain ⟨db₁, h₁, h₂⟩ := h
    simp only [insertReferenced, Except.bind_eq_ok, ensure_eq_ok] at h₁
    obtain ⟨_, -, _, -, hinsert⟩ := h₁
    obtain ⟨row, hrow, hrows, hrest⟩ := insertEntry_ok hinsert
    obtain ⟨rows, hstored, hrows', hsame⟩ := ih h₂
    refine ⟨row :: rows, .cons hrow hstored, ?_, ?_⟩
    · rw [hrows', hrows, List.append_assoc, List.singleton_append]
    · rw [hsame, hrest]

/-- What a flush adds to the ledger. -/
theorem statements_ok (h : s.statements = .ok db) : ∃ txRows entryRows,
    List.Forall₂ StoresTransaction s.transactions txRows ∧
      db.ledgerTransactions.rows = s.db.ledgerTransactions.rows ++ txRows ∧
      (∀ row, txRows.getLast? = some row → row.id = db.ledgerTransactions.next - 1) ∧
      List.Forall₂ (fun e row => Stores e.1 e.2 row) s.entries entryRows ∧
      db.ledgerEntries.rows = s.db.ledgerEntries.rows ++ entryRows := by
  simp only [Session.statements, Except.bind_eq_ok] at h
  obtain ⟨db₁, hothers, db₂, htransactions, db₃, hentries, happrovals⟩ := h
  have hledger₁ : db₁.ledgerTransactions = s.db.ledgerTransactions ∧ db₁.ledgerEntries = s.db.ledgerEntries := by
    refine Except.foldlM_invariant (P := fun d : Db => d.ledgerTransactions = s.db.ledgerTransactions ∧
      d.ledgerEntries = s.db.ledgerEntries) ?_ ⟨rfl, rfl⟩ hothers
    intro d write d' hd hrun
    obtain ⟨htx, hen⟩ := write.ledger d d' hrun
    exact ⟨htx.trans hd.1, hen.trans hd.2⟩
  have hledger₄ : db.ledgerTransactions = db₃.ledgerTransactions ∧ db.ledgerEntries = db₃.ledgerEntries := by
    refine Except.foldlM_invariant (P := fun d : Db => d.ledgerTransactions = db₃.ledgerTransactions ∧
      d.ledgerEntries = db₃.ledgerEntries) ?_ ⟨rfl, rfl⟩ happrovals
    intro d i d' hd hrun
    simp only [updateApproval, Except.bind_eq_ok, Except.pure_eq_ok] at hrun
    obtain ⟨_, -, _, -, rfl⟩ := hrun
    exact hd
  obtain ⟨txRows, htxStored, htxRows, htxEntries, hlast⟩ := foldlM_insertTransaction htransactions
  obtain ⟨entryRows, henStored, henRows, henTx⟩ := foldlM_insertReferenced_stores hentries
  refine ⟨txRows, entryRows, htxStored, ?_, ?_, henStored, ?_⟩
  · rw [hledger₄.1, henTx, htxRows, hledger₁.1]
  · rw [hledger₄.1, henTx]
    exact hlast
  · rw [hledger₄.2, henRows, htxEntries, hledger₁.2]

/-- An entry of the transaction with the amounts of a line, which are stored as they are when they
have no more than four decimals. -/
structure EntryOf (txId : Id) (line : ParsedLine) (row : LedgerEntry) : Prop where
  stores : Stores txId line row
  debit : HasScale 4 line.debit → row.debit.value = line.debit
  credit : HasScale 4 line.credit → row.credit.value = line.credit

/-- Behind the rows the caller had pending: one transaction, and one entry for each line. -/
structure Added (env : Env) (s s' : Session) (txId : Id) (reference description : String)
    (lines : List LedgerLine) : Prop where
  transactions : ∃ caller tx, List.Forall₂ StoresTransaction s.transactions caller ∧
    StoresTransaction (reference, description) tx ∧ tx.id = txId ∧
    s'.db.ledgerTransactions.rows = s.db.ledgerTransactions.rows ++ caller ++ [tx]
  entries : ∃ caller new, List.Forall₂ (fun e row => Stores e.1 e.2 row) s.entries caller ∧
    List.Forall₂ (EntryOf txId) (lines.map (parsedOf env)) new ∧
    s'.db.ledgerEntries.rows = s.db.ledgerEntries.rows ++ caller ++ new
  flushed : s'.others = [] ∧ s'.transactions = [] ∧ s'.entries = []

theorem forall₂_concat {α β : Type} {R : α → β → Prop} {a : α} {l : List α} : ∀ {bs : List β},
    List.Forall₂ R (l ++ [a]) bs → ∃ first b, bs = first ++ [b] ∧ List.Forall₂ R l first ∧ R a b := by
  induction l with
  | nil =>
    intro bs h
    rw [List.nil_append, List.forall₂_cons_left_iff] at h
    obtain ⟨b, bs, hab, hnil, rfl⟩ := h
    obtain rfl := List.forall₂_nil_left_iff.1 hnil
    exact ⟨[], b, rfl, .nil, hab⟩
  | cons x l ih =>
    intro bs h
    rw [List.cons_append, List.forall₂_cons_left_iff] at h
    obtain ⟨y, bs, hxy, hrest, rfl⟩ := h
    obtain ⟨first, b, rfl, hfirst, hab⟩ := ih hrest
    exact ⟨y :: first, b, rfl, .cons hxy hfirst, hab⟩

theorem createBalancedTransaction_added {txId : Id}
    (h : createBalancedTransaction env reference description lines s = .ok txId s') :
    Added env s s' txId reference description lines := by
  rw [createBalancedTransaction_halves] at h
  obtain ⟨parsed, s₁, hchecks, h₁⟩ := bind_ok.1 h
  obtain ⟨rfl, hparsed⟩ := checks_ok hchecks
  obtain ⟨_, s₂, hadd, h₂⟩ := bind_ok.1 h₁
  cases hadd
  obtain ⟨_, s₃, hfirst, h₃⟩ := bind_ok.1 h₂
  obtain ⟨-, db₁, hstatements₁, rfl⟩ := flush_ok hfirst
  obtain ⟨_, s₄, hlast, h₄⟩ := bind_ok.1 h₃
  cases hlast
  obtain ⟨_, s₅, hentries, h₅⟩ := bind_ok.1 h₄
  rw [forM_addEntry] at hentries
  cases hentries
  obtain ⟨_, s₆, hsecond, h₆⟩ := bind_ok.1 h₅
  obtain ⟨-, db₂, hstatements₂, rfl⟩ := flush_ok hsecond
  obtain ⟨rfl, rfl⟩ := pure_ok.1 h₆
  obtain ⟨txRows, callerEntries, htx, htxRows, hid, hcaller, hcallerRows⟩ := statements_ok hstatements₁
  obtain ⟨noRows, new, hnone, hnoRows, -, hnew, hnewRows⟩ := statements_ok hstatements₂
  obtain rfl := List.forall₂_nil_left_iff.1 hnone
  obtain ⟨callerTxs, tx, rfl, hcallerTxs, hstored⟩ := forall₂_concat htx
  simp only [flushed_db, flushed_entries, List.append_nil, List.nil_append] at hnoRows hnew hnewRows
  refine ⟨⟨callerTxs, tx, hcallerTxs, hstored, hid tx (by simp), ?_⟩, ⟨callerEntries, new, hcaller, ?_, ?_⟩,
    rfl, rfl, rfl⟩
  · rw [flushed_db, hnoRows, htxRows, List.append_assoc]
  · rw [List.forall₂_map_left_iff, hparsed] at hnew
    refine hnew.imp fun line row hrow => ⟨hrow, ?_, ?_⟩
    · exact fun hscale => Numeric.value_of_ofRat? hscale hrow.debit
    · exact fun hscale => Numeric.value_of_ofRat? hscale hrow.credit
  · rw [flushed_db, hnewRows, hcallerRows]

/-! ## A session that has just begun -/

/-- The tables and the result of a call. -/
def tables {α : Type} : EStateM.Result SessionError Session α → Except SessionError (Db × α)
  | .ok a s => .ok (s.db, a)
  | .error e _ => .error e

theorem check_bind {α β : Type} (x : Except Error α) (f : α → Call β) (s : Session) :
    (check x >>= f) s = match x with
      | .ok a => f a s
      | .error e => .error (.service e) s := by
  cases x <;> rfl

theorem read_of_ok {α : Type} {query : Db → Except Error α} {a : α} (hactive : s.active = true)
    (h : query s.db = .ok a) : read query s = .ok a s := by
  unfold read
  rw [if_pos hactive, h]

theorem read_of_error {α : Type} {query : Db → Except Error α} {e : Error} (hactive : s.active = true)
    (h : query s.db = .error e) : read query s = .error (.service e) s := by
  unfold read
  rw [if_pos hactive, h]

theorem readLines_of_ok (hactive : s.active = true) {parsed : List ParsedLine × Buckets} :
    ∀ {acc}, lines.foldlM (addLine env s.db) acc = .ok parsed →
      lines.foldlM (fun acc raw => read (addLine env · acc raw)) acc s = .ok parsed s := by
  induction lines with
  | nil =>
    intro acc h
    rw [List.foldlM_nil, Except.pure_eq_ok] at h
    subst h
    rfl
  | cons raw lines ih =>
    intro acc h
    rw [List.foldlM_cons, Except.bind_eq_ok] at h
    obtain ⟨next, hline, hrest⟩ := h
    rw [List.foldlM_cons, bind_of_ok (read_of_ok hactive hline)]
    exact ih hrest

theorem readLines_of_error (hactive : s.active = true) {e : Error} :
    ∀ {acc}, lines.foldlM (addLine env s.db) acc = .error e →
      lines.foldlM (fun acc raw => read (addLine env · acc raw)) acc s = .error (.service e) s := by
  induction lines with
  | nil =>
    intro acc h
    cases h
  | cons raw lines ih =>
    intro acc h
    rw [List.foldlM_cons, Except.bind_eq_error] at h
    rw [List.foldlM_cons]
    rcases h with hline | ⟨next, hline, hrest⟩
    · exact bind_of_error (read_of_error hactive hline)
    · rw [bind_of_ok (read_of_ok hactive hline)]
      exact ih hrest

/-- Entries of a transaction that is there, on accounts that are there. -/
theorem foldlM_insertReferenced_eq {txId : Id} {parsed : List ParsedLine} : ∀ {db : Db},
    (∃ t ∈ db.ledgerTransactions.rows, t.id = txId) →
      (∀ line ∈ parsed, ∃ a ∈ db.accounts.rows, a.id = line.accountId) →
        parsed.foldlM (insertReferenced txId) db = parsed.foldlM (insertEntry txId) db := by
  induction parsed with
  | nil => exact fun _ _ => rfl
  | cons line parsed ih =>
    intro db htx haccounts
    obtain ⟨haccount, hrest⟩ := List.forall_mem_cons.1 haccounts
    have hline : insertReferenced txId db line = insertEntry txId db line := by
      simp only [insertReferenced, ensure, if_pos htx, if_pos haccount]
      rfl
    rw [List.foldlM_cons, List.foldlM_cons, hline]
    cases hrun : insertEntry txId db line with
    | error e => rfl
    | ok next =>
      obtain ⟨entry, -, happends⟩ := insertEntry_ok hrun
      apply ih
      · rw [happends.rest]
        exact htx
      · rw [happends.rest]
        exact hrest

theorem insertTransaction_next {r : Db × Id} (h : insertTransaction db reference description = .ok r) :
    r.1.ledgerTransactions.next - 1 = r.2 ∧ (∃ t ∈ r.1.ledgerTransactions.rows, t.id = r.2) ∧
      r.1.accounts = db.accounts := by
  simp only [insertTransaction, Except.bind_eq_ok, Except.pure_eq_ok] at h
  obtain ⟨storedReference, -, storedDescription, -, _, -, rfl⟩ := h
  refine ⟨add_sub_cancel_right _ _, ⟨_, Table.mem_insert.2 (.inr rfl), rfl⟩, rfl⟩

theorem flush_of_ok (hactive : s.active = true) (h : s.statements = .ok db) :
    flush s = .ok () (s.flushed db) := by
  unfold flush
  rw [if_pos hactive, h]

theorem flush_of_error (hactive : s.active = true) {e : Error} (h : s.statements = .error e) :
    flush s = .error (.service e) s.failed := by
  unfold flush
  rw [if_pos hactive, h]

/-- The statements of the first flush of a post, and of the second. -/
theorem statements_transaction (db : Db) (reference description : String) :
    Session.statements { Session.opened db with transactions := [(reference, description)] } =
      (insertTransaction db reference description).map (·.1) := by
  unfold Session.statements Session.opened
  simp only [List.foldlM_nil, List.foldlM_cons, List.filter_nil, pure_bind, bind_pure]

theorem statements_entries (db₀ db : Db) (entries : List (Id × ParsedLine)) :
    Session.statements { Session.opened db₀ with db := db, entries := entries } =
      entries.foldlM (fun db e => insertReferenced e.1 db e.2) db := by
  unfold Session.statements Session.opened
  simp only [List.foldlM_nil, List.filter_nil, pure_bind, bind_pure]

/-- The checks read the tables and leave the session alone. -/
theorem checks_opened (env : Env) (db : Db) (lines : List LedgerLine) :
    checks env lines (Session.opened db) = match amountChecks env db lines with
      | .ok parsed => .ok parsed (Session.opened db)
      | .error e => .error (.service e) (Session.opened db) := by
  unfold checks amountChecks
  rw [check_bind]
  cases ensure (2 ≤ lines.length) (Error.unbalancedLedger "Need at least two ledger lines") with
  | error e => rfl
  | ok u =>
    simp only
    cases hlines : lines.foldlM (addLine env db) ([], []) with
    | error e =>
      rw [bind_of_error (readLines_of_error (s := Session.opened db) rfl hlines)]
      rfl
    | ok acc =>
      rw [bind_of_ok (readLines_of_ok (s := Session.opened db) rfl hlines), check_bind]
      simp only [bind, Except.bind]
      cases checkTotals acc.2 <;> rfl

/-- The writes insert the transaction and then its entries. -/
theorem writes_opened (db : Db) (reference description : String) (parsed : List ParsedLine)
    (haccounts : ∀ line ∈ parsed, ∃ a ∈ db.accounts.rows, a.id = line.accountId) :
    tables (writes reference description parsed (Session.opened db)) = (do
      let (withTx, txId) ← insertTransaction db reference description
      let withEntries ← parsed.foldlM (insertEntry txId) withTx
      return (withEntries, txId) : Except Error (Db × Id)).mapError .service := by
  have hadd : addTransaction reference description (Session.opened db) =
      .ok () { Session.opened db with transactions := [(reference, description)] } := rfl
  have hfirst := statements_transaction db reference description
  unfold writes
  rw [bind_of_ok hadd]
  cases hinsert : insertTransaction db reference description with
  | error e =>
    rw [hinsert] at hfirst
    rw [bind_of_error (flush_of_error rfl hfirst)]
    rfl
  | ok p =>
    rw [hinsert] at hfirst
    obtain ⟨hnext, htx, hsame⟩ := insertTransaction_next hinsert
    have hlast : lastTransaction (Session.flushed { Session.opened db with
        transactions := [(reference, description)] } p.1) = .ok p.2 _ :=
      congrArg (EStateM.Result.ok · _) hnext
    rw [bind_of_ok (flush_of_ok rfl hfirst), bind_of_ok hlast, bind_of_ok (forM_addEntry p.2 parsed _)]
    have hsecond := statements_entries db p.1 (parsed.map (p.2, ·))
    rw [List.foldlM_map, foldlM_insertReferenced_eq htx (hsame ▸ haccounts)] at hsecond
    simp only [bind, Except.bind]
    cases hentries : parsed.foldlM (insertEntry p.2) p.1 with
    | error e =>
      rw [hentries] at hsecond
      exact congrArg tables (bind_of_error (flush_of_error rfl hsecond))
    | ok after =>
      rw [hentries] at hsecond
      exact congrArg tables (bind_of_ok (flush_of_ok rfl hsecond))

/-- On a session with nothing pending the call does what `createBalancedTransaction` does to
the tables. -/
theorem createBalancedTransaction_opened (env : Env) (db : Db) (reference description : String)
    (lines : List LedgerLine) :
    tables (createBalancedTransaction env reference description lines (Session.opened db)) =
      (ReckonFlow.createBalancedTransaction env db reference description lines).mapError .service := by
  rw [createBalancedTransaction_halves, ReckonFlow.createBalancedTransaction_eq]
  have hchecks := checks_opened env db lines
  cases hrun : amountChecks env db lines with
  | error e =>
    rw [hrun] at hchecks
    rw [bind_of_error hchecks]
    rfl
  | ok parsed =>
    rw [hrun] at hchecks
    rw [bind_of_ok hchecks, writes_opened db reference description parsed (amountChecks_accounts hrun)]
    rfl

/-- An error of the domain leaves no trace in the session, in a post or in a transition, so that what
the caller commits is what it would have committed; any error of a request leaves the database as it
was; a post that succeeds adds one transaction and one entry for each line. -/
theorem no_trace (env : Env) :
    (∀ s s' reference description lines e,
      createBalancedTransaction env reference description lines s = .error e s' → IsDomain e → s' = s) ∧
    (∀ s s' approvalId target reviewer notes e,
      transitionApproval env approvalId target reviewer notes s = .error e s' → IsDomain e →
        NoTrace s s' ∧ s'.commit = s.commit) ∧
    (∀ committed after reference description lines e,
      getDb committed (createBalancedTransaction env reference description lines) = (.error e, after) →
        after = committed) ∧
    (∀ committed after approvalId target reviewer notes e,
      getDb committed (transitionApproval env approvalId target reviewer notes) = (.error e, after) →
        after = committed) ∧
    ∀ s s' reference description lines txId,
      createBalancedTransaction env reference description lines s = .ok txId s' →
        Added env s s' txId reference description lines := by
  refine ⟨?_, ?_, ?_, ?_, ?_⟩
  · intro s s' reference description lines e h hdomain
    exact createBalancedTransaction_onError s e s' h hdomain
  · intro s s' approvalId target reviewer notes e h hdomain
    have hnone := transitionApproval_onError s e s' h hdomain
    exact ⟨hnone, hnone.commit⟩
  · intro committed after reference description lines e h
    exact getDb_error createBalancedTransaction_begin h
  · intro committed after approvalId target reviewer notes e h
    exact getDb_error transitionApproval_begin h
  · intro s s' reference description lines txId h
    exact createBalancedTransaction_added h

/-- Ten euros from the account to itself. -/
def demoTransfer (accountId : Id) : List LedgerLine :=
  [{ accountId, debit := some 10 }, { accountId, credit := some 10 }]

/-- Without its account the transfer leaves no trace, with it three rows. -/
theorem no_trace_transfer :
    (∃ e, createBalancedTransaction demoEnv "T-1" "By hand" (demoTransfer 2) (Session.opened demoOpen) =
      .error e (Session.opened demoOpen)) ∧
    ∃ txId s', createBalancedTransaction demoEnv "T-1" "By hand" (demoTransfer 1)
        (Session.opened demoOpen) = .ok txId s' ∧
      Added demoEnv (Session.opened demoOpen) s' txId "T-1" "By hand" (demoTransfer 1) := by
  have hdomain := (no_trace demoEnv).1 (Session.opened demoOpen)
  have hadded := (no_trace demoEnv).2.2.2.2 (Session.opened demoOpen)
  constructor
  · obtain ⟨e, s', herror, he⟩ : ∃ e s', createBalancedTransaction demoEnv "T-1" "By hand" (demoTransfer 2)
        (Session.opened demoOpen) = .error e s' ∧ IsDomain e := ⟨_, _, rfl, trivial⟩
    obtain rfl := hdomain s' "T-1" "By hand" (demoTransfer 2) e herror he
    exact ⟨e, herror⟩
  · obtain ⟨r, hservice⟩ : ∃ r, ReckonFlow.createBalancedTransaction demoEnv demoOpen "T-1" "By hand"
        (demoTransfer 1) = .ok r := Except.isOk_iff.1 (by decide +kernel)
    have htables := createBalancedTransaction_opened demoEnv demoOpen "T-1" "By hand" (demoTransfer 1)
    rw [hservice] at htables
    cases hrun : createBalancedTransaction demoEnv "T-1" "By hand" (demoTransfer 1)
        (Session.opened demoOpen) with
    | ok txId s' => exact ⟨txId, s', rfl, hadded s' "T-1" "By hand" (demoTransfer 1) txId hrun⟩
    | error e s' =>
      rw [hrun] at htables
      cases htables

end ReckonFlow.UnitOfWork
