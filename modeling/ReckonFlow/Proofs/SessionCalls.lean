import ReckonFlow.Lib.Simulation
import ReckonFlow.Proofs.Payments
import ReckonFlow.Proofs.UnitOfWork

/-! A session that holds rows back, keeps loaded approvals and writes the columns that changed does
what the services do to the tables: posts and transitions one after the other, then one commit. -/

namespace ReckonFlow.UnitOfWork

open Effects Lts Simulation

variable {env : Env} {settings : Settings} {committed db db' : Db} {s : Session} {approval : Approval}
  {approvalId : Id} {target : ApprovalStatus} {reviewer notes : Option String}

/-! ## Stored approvals -/

/-- The texts of an approval are what its columns hold. -/
structure Fits (a : Approval) : Prop where
  reviewer : nullable (varchar "reviewer" 120) a.reviewer = .ok a.reviewer
  notes : nullable (text "notes") a.notes = .ok a.notes

def AllFit (db : Db) : Prop := ∀ a ∈ db.approvals.rows, Fits a

theorem nullable_stored {store : String → Except Error String} {value stored : Option String}
    (hstore : ∀ s s', store s = .ok s' → store s' = .ok s') (h : nullable store value = .ok stored) :
    nullable store stored = .ok stored := by
  cases value with
  | none =>
    obtain rfl := Except.ok.inj h
    rfl
  | some s =>
    obtain ⟨s', hs, rfl⟩ := Except.map_eq_ok.1 h
    exact congrArg (Except.map some) (hstore s s' hs)

theorem text_stored {column s s' : String} (h : text column s = .ok s') : text column s' = .ok s' := by
  have hsame : s' = s := by
    unfold text at h
    split_ifs at h
    exact (Except.ok.inj h).symm
  rw [hsame] at h ⊢
  exact h

/-- A decision keeps the texts it does not replace, and the others are stored first. -/
theorem Fits.decided {a : Approval} (h : Fits a)
    (hreviewer : nullable (varchar "reviewer" 120) reviewer = .ok reviewer)
    (hnotes : nullable (text "notes") notes = .ok notes) : Fits (a.decided target reviewer notes) where
  reviewer := by
    cases reviewer with
    | none => exact h.reviewer
    | some _ => exact hreviewer
  notes := by
    cases notes with
    | none => exact h.notes
    | some _ => exact hnotes

theorem AllFit.frame (h : AllFit db) (happrovals : db'.approvals = db.approvals) : AllFit db' := by
  unfold AllFit
  rw [happrovals]
  exact h

theorem AllFit.written (h : AllFit db) (hwrite : writeDecision db approvalId target reviewer notes = .ok db') :
    AllFit db' := by
  simp only [writeDecision, Except.bind_eq_ok, Except.pure_eq_ok] at hwrite
  obtain ⟨storedReviewer, hreviewer, storedNotes, hnotes, rfl⟩ := hwrite
  intro a ha
  obtain ⟨b, hb, rfl⟩ : ∃ b ∈ db.approvals.rows,
      (if b.id = approvalId then b.decided target storedReviewer storedNotes else b) = a := List.mem_map.1 ha
  split_ifs
  · exact (h b hb).decided (nullable_stored (fun _ _ => varchar_stored) hreviewer)
      (nullable_stored (fun _ _ => text_stored) hnotes)
  · exact h b hb

theorem postPaymentLedger_approvals {r : Db × Id}
    (h : ReckonFlow.postPaymentLedger env db approval = .ok r) : r.1.approvals = db.approvals := by
  obtain ⟨_, _, _, _, -, hpost⟩ := postPaymentLedger_ok h
  rw [hpost.rest]

/-- The payment leaves the approvals to the decision. -/
theorem transitionApproval_written
    (h : ReckonFlow.transitionApproval env db approvalId target reviewer notes = .ok db') :
    ∃ row posted, db.approvals.get approvalId = some row ∧ posted.approvals = db.approvals ∧
      writeDecision posted approvalId target reviewer notes = .ok db' := by
  obtain ⟨row, posted, hrow, -, hposted, hwrite⟩ := transitionApproval_ok h
  refine ⟨row, posted, hrow, ?_, hwrite⟩
  split_ifs at hposted
  · obtain ⟨_, hp⟩ := hposted
    exact postPaymentLedger_approvals hp
  · rw [hposted]

theorem AllFit.of_run {op : Op} (h : AllFit db) (hrun : op.run env settings db = .ok db') : AllFit db' := by
  cases op with
  | createAccount code name currency =>
    obtain ⟨_, _, _, -, -, rfl⟩ := createAccount_ok hrun
    exact h
  | createBalancedTransaction reference description lines =>
    obtain ⟨_, hpost, rfl⟩ := Except.map_eq_ok.1 hrun
    rw [(createBalancedTransaction_ok hpost).rest]
    exact h
  | createTravelRequest f =>
    obtain ⟨_, _, -, rfl⟩ := createTravelRequest_ok hrun
    intro a ha
    rcases Table.mem_insert.1 ha with ha | rfl
    · exact h a ha
    · exact ⟨rfl, rfl⟩
  | createExpense f =>
    obtain ⟨_, _, -, rfl⟩ := insertExpense_ok (createExpense_ok hrun)
    exact h
  | transitionApproval approvalId target reviewer notes =>
    obtain ⟨_, posted, -, hsame, hwrite⟩ := transitionApproval_written hrun
    exact (h.frame hsame).written hwrite
  | importCsv parsed =>
    obtain ⟨_, himport, rfl⟩ := Except.map_eq_ok.1 hrun
    rw [(insertPostgres_imports himport).rest]
    exact h
  | suggestMatches scan e limit window tolerance =>
    obtain ⟨_, -, rfl⟩ := Except.map_eq_ok.1 hrun
    exact h
  | confirmMatch e b =>
    obtain ⟨⟨_, _⟩, hconfirm, rfl⟩ := Except.map_eq_ok.1 hrun
    obtain ⟨_, _, -, -, -, -, -, rfl, -⟩ := confirmMatch_ok hconfirm
    exact h
  | autoReconcile scan e =>
    obtain ⟨⟨_, _⟩, hauto, rfl⟩ := Except.map_eq_ok.1 hrun
    obtain ⟨_, -, hsettle⟩ := autoReconcile_ok hauto
    have hcase := (settle_ok hsettle).2
    split at hcase
    · obtain ⟨_, -, rfl⟩ := flagForReview_ok hcase
      exact h
    · obtain ⟨_, _, -, -, -, -, -, rfl, -⟩ := confirmMatch_ok hcase
      exact h

theorem AllFit.served (h : AllFit db) (op : Op) : AllFit (serve env settings db op) := by
  rcases serve_cases env settings db op with heq | hrun
  · rw [heq]
    exact h
  · exact h.of_run hrun

theorem AllFit.empty : AllFit Db.empty := by
  intro a ha
  cases ha

/-! ## Between two calls -/

/-- Nothing to write, and every approval loaded as the tables have it. -/
structure Idle (committed : Db) (s : Session) (db : Db) : Prop where
  began : s.committed = committed
  seen : s.db = db
  active : s.active = true
  others : s.others = []
  transactions : s.transactions = []
  entries : s.entries = []
  nodup : (s.loaded.map (·.row.id)).Nodup
  loaded : ∀ i ∈ s.loaded, i.now = i.row ∧ db.approvals.get i.row.id = some i.row
  fit : AllFit db

theorem Idle.opened (h : AllFit db) : Idle db (Session.opened db) db where
  began := rfl
  seen := rfl
  active := rfl
  others := rfl
  transactions := rfl
  entries := rfl
  nodup := List.nodup_nil
  loaded := by
    intro i hi
    cases hi
  fit := h

/-- Rows of other tables were written. -/
theorem Idle.wrote (h : Idle committed s db) (happrovals : db'.approvals = db.approvals) :
    Idle committed { s with db := db' } db' where
  began := h.began
  seen := rfl
  active := h.active
  others := h.others
  transactions := h.transactions
  entries := h.entries
  nodup := h.nodup
  loaded := by
    intro i hi
    rw [happrovals]
    exact h.loaded i hi
  fit := h.fit.frame happrovals

theorem Idle.unchanged (h : Idle committed s db) : s.loaded.filter (·.changed) = [] := by
  rw [List.filter_eq_nil_iff]
  intro i hi
  simp [Loaded.changed, (h.loaded i hi).1.symm]

theorem Loaded.clean_now {i : Loaded} (h : i.now = i.row) : Loaded.clean i.now = i := by
  obtain ⟨row, now, same⟩ := i
  obtain rfl : now = row := h
  rfl

/-- What a flush of new transactions and entries executes. -/
theorem Idle.statements (h : Idle committed s db) (ts : List (String × String)) (es : List (Id × ParsedLine)) :
    Session.statements { s with transactions := ts, entries := es } =
      ts.foldlM (fun db t => (insertTransaction db t.1 t.2).map (·.1)) db >>= fun db =>
        es.foldlM (fun db e => insertReferenced e.1 db e.2) db := by
  unfold Session.statements
  simp only [h.others, h.seen, h.unchanged, List.foldlM_nil, pure_bind, bind_pure]

/-- The loaded approvals stay as they were. -/
theorem Idle.flush_of_ok (h : Idle committed s db) {ts : List (String × String)}
    {es : List (Id × ParsedLine)}
    (hrun : Session.statements { s with transactions := ts, entries := es } = .ok db') :
    flush { s with transactions := ts, entries := es } = .ok () { s with db := db' } := by
  have hloaded : s.loaded.map (fun i => Loaded.clean i.now) = s.loaded := by
    conv_rhs => rw [← List.map_id s.loaded]
    exact List.map_congr_left fun i hi => Loaded.clean_now (h.loaded i hi).1
  rw [UnitOfWork.flush_of_ok (s := { s with transactions := ts, entries := es }) h.active hrun]
  unfold Session.flushed
  rw [hloaded]
  simp only [h.others, h.transactions, h.entries]

theorem Idle.flush_of_error (h : Idle committed s db) {ts : List (String × String)}
    {es : List (Id × ParsedLine)} {e : Error}
    (hrun : Session.statements { s with transactions := ts, entries := es } = .error e) :
    flush { s with transactions := ts, entries := es } = .error (.service e) s.failed :=
  UnitOfWork.flush_of_error (s := { s with transactions := ts, entries := es }) h.active hrun

/-! ## Posts -/

/-- A call on an idle session and the function of its tables end alike. -/
inductive Ends {α : Type} (s : Session) :
    EStateM.Result SessionError Session α → Except Error (Db × α) → Prop
  | ok (db : Db) (a : α) : Ends s (.ok a { s with db := db }) (.ok (db, a))
  | error (e : Error) (s' : Session) : Ends s (.error (.service e) s') (.error e)

theorem Ends.of_ok {α : Type} {r : EStateM.Result SessionError Session α} {p : Db × α} (h : Ends s r (.ok p)) :
    r = .ok p.2 { s with db := p.1 } := by
  cases h
  rfl

theorem Ends.of_error {α : Type} {r : EStateM.Result SessionError Session α} {e : Error}
    (h : Ends s r (.error e)) : ∃ s', r = .error (.service e) s' := by
  cases h
  exact ⟨_, rfl⟩

theorem insertTransaction_approvals {reference description : String} {r : Db × Id}
    (h : insertTransaction db reference description = .ok r) : r.1.approvals = db.approvals := by
  simp only [insertTransaction, Except.bind_eq_ok, Except.pure_eq_ok] at h
  obtain ⟨_, -, _, -, _, -, rfl⟩ := h
  rfl

theorem Idle.checks_of_ok (h : Idle committed s db) {lines : List LedgerLine} {parsed : List ParsedLine}
    (hrun : amountChecks env db lines = .ok parsed) : checks env lines s = .ok parsed s := by
  simp only [amountChecks, Except.bind_eq_ok, Except.pure_eq_ok] at hrun
  obtain ⟨_, hcount, acc, hlines, _, htotals, rfl⟩ := hrun
  rw [← h.seen] at hlines
  unfold checks
  rw [check_bind, hcount]
  simp only
  rw [bind_of_ok (readLines_of_ok h.active hlines), check_bind, htotals]
  rfl

theorem Idle.checks_of_error (h : Idle committed s db) {lines : List LedgerLine} {e : Error}
    (hrun : amountChecks env db lines = .error e) : checks env lines s = .error (.service e) s := by
  simp only [amountChecks, Except.bind_eq_error] at hrun
  unfold checks
  rw [check_bind]
  rcases hrun with hcount | ⟨_, hcount, hrun⟩
  · rw [hcount]
  rw [hcount]
  simp only
  rcases hrun with hlines | ⟨acc, hlines, hrun⟩
  · rw [← h.seen] at hlines
    exact bind_of_error (readLines_of_error h.active hlines)
  rw [← h.seen] at hlines
  rw [bind_of_ok (readLines_of_ok h.active hlines), check_bind]
  rcases hrun with htotals | ⟨_, -, hrun⟩
  · rw [htotals]
  · cases hrun

/-- The transaction is flushed first, for its id, and then its entries. -/
theorem Idle.writes (h : Idle committed s db) (reference description : String) {parsed : List ParsedLine}
    (haccounts : ∀ line ∈ parsed, ∃ a ∈ db.accounts.rows, a.id = line.accountId) :
    Ends s (UnitOfWork.writes reference description parsed s) (do
      let (withTx, txId) ← insertTransaction db reference description
      let withEntries ← parsed.foldlM (insertEntry txId) withTx
      return (withEntries, txId)) := by
  have hadd : addTransaction reference description s =
      .ok () { s with transactions := [(reference, description)], entries := [] } := by
    simp only [addTransaction, modify, modifyGet, MonadStateOf.modifyGet, EStateM.modifyGet, h.transactions,
      List.nil_append, h.entries]
  have hfirst := h.statements [(reference, description)] []
  rw [List.foldlM_cons] at hfirst
  simp only [List.foldlM_nil, bind_pure] at hfirst
  unfold UnitOfWork.writes
  rw [bind_of_ok hadd]
  cases hinsert : insertTransaction db reference description with
  | error e =>
    rw [hinsert] at hfirst
    rw [bind_of_error (h.flush_of_error hfirst)]
    exact .error e _
  | ok p =>
    rw [hinsert] at hfirst
    obtain ⟨hnext, htx, hsame⟩ := insertTransaction_next hinsert
    have hwrote := h.wrote (insertTransaction_approvals hinsert)
    have hlast : lastTransaction { s with db := p.1 } = .ok p.2 { s with db := p.1 } :=
      congrArg (EStateM.Result.ok · _) hnext
    have hadds : parsed.forM (addEntry p.2) { s with db := p.1 } = .ok ⟨⟩ { s with
        db := p.1, transactions := [], entries := parsed.map (p.2, ·) } := by
      rw [forM_addEntry, h.entries, h.transactions]
      rfl
    rw [bind_of_ok (h.flush_of_ok hfirst), bind_of_ok hlast, bind_of_ok hadds]
    have hsecond := hwrote.statements [] (parsed.map (p.2, ·))
    rw [List.foldlM_nil, pure_bind, List.foldlM_map, foldlM_insertReferenced_eq htx (hsame ▸ haccounts)]
      at hsecond
    change Ends s _ (parsed.foldlM (insertEntry p.2) p.1 >>= fun after => pure (after, p.2))
    cases hentries : parsed.foldlM (insertEntry p.2) p.1 with
    | error e =>
      rw [hentries] at hsecond
      rw [bind_of_error (hwrote.flush_of_error hsecond)]
      exact .error e _
    | ok after =>
      rw [hentries] at hsecond
      rw [bind_of_ok (hwrote.flush_of_ok hsecond)]
      exact .ok after p.2

theorem Idle.post (h : Idle committed s db) (reference description : String) (lines : List LedgerLine) :
    Ends s (createBalancedTransaction env reference description lines s)
      (ReckonFlow.createBalancedTransaction env db reference description lines) := by
  rw [createBalancedTransaction_halves, ReckonFlow.createBalancedTransaction_eq]
  cases hrun : amountChecks env db lines with
  | error e =>
    rw [bind_of_error (h.checks_of_error hrun)]
    exact .error e s
  | ok parsed =>
    rw [bind_of_ok (h.checks_of_ok hrun)]
    exact h.writes reference description (amountChecks_accounts hrun)

/-! ## Transitions -/

theorem Idle.postPayment (h : Idle committed s db) (approval : Approval) :
    Ends s (postPaymentLedger env approval s) (ReckonFlow.postPaymentLedger env db approval) := by
  unfold postPaymentLedger ReckonFlow.postPaymentLedger
  cases hposting : paymentPosting db approval with
  | error e =>
    rw [bind_of_error (read_of_error h.active (h.seen ▸ hposting))]
    exact .error e s
  | ok posting =>
    rw [bind_of_ok (read_of_ok h.active (h.seen ▸ hposting))]
    exact h.post posting.reference posting.description posting.lines

/-- The approval of a row is in the session once it was selected. -/
theorem Idle.selected (h : Idle committed s db) {row : Approval}
    (hrow : db.approvals.get approvalId = some row) :
    ∃ s', selectForUpdate approvalId s = .ok row s' ∧ Idle committed s' db ∧ .clean row ∈ s'.loaded := by
  obtain ⟨hmem, rfl⟩ := Table.get_eq_some.1 hrow
  have hread : read (fun db => required db.approvals "Approval" row.id) s = .ok row s :=
    read_of_ok h.active (required_eq_ok.2 (h.seen ▸ hrow))
  unfold selectForUpdate
  rw [bind_of_ok hread]
  unfold load
  cases hfind : s.loaded.find? (·.row.id = row.id) with
  | some i =>
    obtain ⟨hnow, hget⟩ := h.loaded i (List.mem_of_find?_eq_some hfind)
    have hid : i.row.id = row.id := by simpa using List.find?_some hfind
    have hsame : i.row = row := by
      rw [hid, hrow] at hget
      exact (Option.some.inj hget).symm
    refine ⟨s, by simp only [hnow, hsame], h, ?_⟩
    rw [← hsame, ← hnow, Loaded.clean_now hnow]
    exact List.mem_of_find?_eq_some hfind
  | none =>
    refine ⟨_, rfl, ?_, List.mem_append_right _ (List.mem_singleton_self _)⟩
    refine { h with nodup := ?_, loaded := ?_ }
    · rw [List.map_append, List.map_singleton, ← List.concat_eq_append]
      refine List.Nodup.concat (fun hid => ?_) h.nodup
      obtain ⟨i, hi, hid⟩ := List.mem_map.1 hid
      exact List.find?_eq_none.1 hfind i hi (decide_eq_true hid)
    · intro i hi
      rcases List.mem_append.1 hi with hi | hi
      · exact h.loaded i hi
      · obtain rfl := List.mem_singleton.1 hi
        exact ⟨rfl, hrow⟩

theorem nullable_or {store : String → Except Error String} {new old : Option String}
    (hold : nullable store old = .ok old) :
    nullable store (new.or old) = (nullable store new).map (·.or old) := by
  cases new with
  | none => exact hold
  | some text =>
    have hstore : nullable store (some text) = (store text).map some := rfl
    rw [Option.some_or, hstore]
    cases store text <;> rfl

/-- The columns that changed hold the decision. -/
theorem updateApproval_decided {row : Approval} (hrow : db.approvals.get row.id = some row) (hfit : Fits row) :
    updateApproval db ((Loaded.clean row).decided target reviewer notes) =
      writeDecision db row.id target reviewer notes := by
  have hreviewer : nullable (varchar "reviewer" 120) (reviewer.or row.reviewer) = _ := nullable_or hfit.reviewer
  have hnotes : nullable (text "notes") (notes.or row.notes) = _ := nullable_or hfit.notes
  simp only [updateApproval, writeDecision, Loaded.decided, Loaded.clean, Approval.decided]
  rw [hreviewer, hnotes]
  cases nullable (varchar "reviewer" 120) reviewer with
  | error e => rfl
  | ok storedReviewer =>
    cases nullable (text "notes") notes with
    | error e => rfl
    | ok storedNotes =>
      simp only [Except.map, bind, Except.bind, pure, Except.pure]
      congr 2
      refine Table.modify_congr fun a ha => ?_
      obtain rfl : row = a := Option.some.inj (hrow.symm.trans ha)
      simp only [written_self]

/-- The instance of one approval set, and read again. -/
def mark (approvalId : Id) (target : ApprovalStatus) (reviewer notes : Option String) (i : Loaded) : Loaded :=
  if i.row.id = approvalId then i.decided target reviewer notes else i

def reload (approvalId : Id) (row : Approval) (i : Loaded) : Loaded :=
  if i.row.id = approvalId then .clean row else i

/-- Of instances that are clean only the one set is written. -/
theorem filter_mark {l : List Loaded} {i : Loaded} (hnodup : (l.map (·.row.id)).Nodup)
    (hclean : ∀ j ∈ l, j.now = j.row) (hi : i ∈ l)
    (hchanged : (i.decided target reviewer notes).changed = true) :
    (l.map (mark i.row.id target reviewer notes)).filter (·.changed) = [i.decided target reviewer notes] := by
  have hsame : ∀ j : Loaded, j.now = j.row → j.changed = false := by
    intro j hj
    simp [Loaded.changed, hj.symm]
  induction l with
  | nil => cases hi
  | cons j l ih =>
    obtain ⟨hnow, htail⟩ := List.forall_mem_cons.1 hclean
    rw [List.map_cons, List.nodup_cons] at hnodup
    rw [List.map_cons]
    rcases List.mem_cons.1 hi with rfl | hi
    · have hrest : l.map (mark i.row.id target reviewer notes) = l := by
        conv_rhs => rw [← List.map_id l]
        refine List.map_congr_left fun j hj => if_neg fun hid => hnodup.1 ?_
        rw [← hid]
        exact List.mem_map_of_mem hj
      have hmark : mark i.row.id target reviewer notes i = i.decided target reviewer notes := if_pos rfl
      rw [hmark, List.filter_cons_of_pos hchanged, hrest, List.filter_eq_nil_iff.2]
      intro j hj
      rw [hsame j (htail j hj)]
      exact Bool.false_ne_true
    · have hmark : mark i.row.id target reviewer notes j = j := by
        refine if_neg fun hid => hnodup.1 ?_
        rw [hid]
        exact List.mem_map_of_mem hi
      rw [hmark, List.filter_cons_of_neg (by rw [hsame j hnow]; exact Bool.false_ne_true)]
      exact ih hnodup.2 htail hi

/-- After the flush and the refresh the other instances are as they were. -/
theorem map_reload {l : List Loaded} (hclean : ∀ i ∈ l, i.now = i.row) (row : Approval) :
    ((l.map (mark approvalId target reviewer notes)).map fun i => Loaded.clean i.now).map
      (reload approvalId row) = l.map (reload approvalId row) := by
  rw [List.map_map, List.map_map]
  refine List.map_congr_left fun i hi => ?_
  by_cases hid : i.row.id = approvalId
  · have hmark : mark approvalId target reviewer notes i = i.decided target reviewer notes := if_pos hid
    have hreload : reload approvalId row i = .clean row := if_pos hid
    rw [Function.comp_apply, Function.comp_apply, hmark, hreload]
    exact if_pos (i.same.trans hid)
  · have hmark : mark approvalId target reviewer notes i = i := if_neg hid
    rw [Function.comp_apply, Function.comp_apply, hmark, Loaded.clean_now (hclean i hi)]

theorem writeDecision_row {row : Approval} (hrow : db.approvals.get approvalId = some row)
    (hwrite : writeDecision db approvalId target reviewer notes = .ok db') :
    ∃ decided, db'.approvals.get approvalId = some decided ∧
      ∀ i ≠ approvalId, db'.approvals.get i = db.approvals.get i := by
  simp only [writeDecision, Except.bind_eq_ok, Except.pure_eq_ok] at hwrite
  obtain ⟨_, -, _, -, rfl⟩ := hwrite
  simp only [Table.get_modify, hrow]
  refine ⟨_, rfl, fun i hi => ?_⟩
  simp [hi]

/-- The approval written and read again, all others as they were. -/
theorem Idle.reloaded (h : Idle committed s db) {decided : Approval}
    (hget : db'.approvals.get approvalId = some decided)
    (hothers : ∀ i ≠ approvalId, db'.approvals.get i = db.approvals.get i) (hfit : AllFit db') :
    Idle committed { s with db := db', loaded := s.loaded.map (reload approvalId decided) } db' := by
  have hid : decided.id = approvalId := (Table.get_eq_some.1 hget).2
  have hids : (s.loaded.map (reload approvalId decided)).map (·.row.id) = s.loaded.map (·.row.id) := by
    rw [List.map_map]
    refine List.map_congr_left fun i _ => ?_
    rw [Function.comp_apply, reload]
    split_ifs with hi
    · exact hid.trans hi.symm
    · rfl
  refine ⟨h.began, rfl, h.active, h.others, h.transactions, h.entries, hids ▸ h.nodup, ?_, hfit⟩
  intro j hj
  obtain ⟨i, hi, rfl⟩ := List.mem_map.1 hj
  rw [reload]
  split_ifs with hsame
  · exact ⟨rfl, hid.symm ▸ hget⟩
  · rw [hothers _ hsame]
    exact h.loaded i hi

/-- The transition of a session and that of the tables end alike. -/
inductive Decides (committed : Db) (approvalId : Id) :
    EStateM.Result SessionError Session Approval → Except Error Db → Prop
  | ok {after : Db} {decided : Approval} {s : Session} (hrow : after.approvals.get approvalId = some decided)
      (hidle : Idle committed s after) : Decides committed approvalId (.ok decided s) (.ok after)
  | error (e : Error) (s : Session) : Decides committed approvalId (.error (.service e) s) (.error e)

theorem Decides.of_ok {r : EStateM.Result SessionError Session Approval} {after : Db}
    (h : Decides committed approvalId r (.ok after)) :
    ∃ decided s', after.approvals.get approvalId = some decided ∧ r = .ok decided s' ∧
      Idle committed s' after := by
  cases h with
  | ok hrow hidle => exact ⟨_, _, hrow, rfl, hidle⟩

theorem Decides.of_error {r : EStateM.Result SessionError Session Approval} {e : Error}
    (h : Decides committed approvalId r (.error e)) : ∃ s', r = .error (.service e) s' := by
  cases h
  exact ⟨_, rfl⟩

/-- The end of a transition: the instance set, written and read again. -/
theorem Idle.decides (h : Idle committed s db) {row : Approval} (hrow : db.approvals.get approvalId = some row)
    (hloaded : .clean row ∈ s.loaded) (hnew : target ≠ row.status) :
    Decides committed approvalId
      ((do setDecision approvalId target reviewer notes; flush; refresh approvalId) s)
      (writeDecision db approvalId target reviewer notes) := by
  obtain ⟨hmem, rfl⟩ := Table.get_eq_some.1 hrow
  have hclean : ∀ i ∈ s.loaded, i.now = i.row := fun i hi => (h.loaded i hi).1
  let marked : Session := { s with loaded := s.loaded.map (mark row.id target reviewer notes) }
  have hset : setDecision row.id target reviewer notes s = .ok () marked := rfl
  have hstatements : marked.statements = writeDecision db row.id target reviewer notes := by
    have hchanged : ((Loaded.clean row).decided target reviewer notes).changed = true := by
      refine decide_eq_true fun hsame => hnew ?_
      exact (congrArg Approval.status hsame).symm
    have honly : marked.loaded.filter (·.changed) = [(Loaded.clean row).decided target reviewer notes] :=
      filter_mark h.nodup hclean hloaded hchanged
    rw [← updateApproval_decided hrow (h.fit row hmem)]
    unfold Session.statements
    rw [honly]
    simp only [marked, h.others, h.seen, h.transactions, h.entries, List.foldlM_nil, List.foldlM_cons,
      pure_bind, bind_pure]
  rw [bind_of_ok hset]
  cases hwrite : writeDecision db row.id target reviewer notes with
  | error e =>
    have hflush : flush marked = .error (.service e) marked.failed :=
      UnitOfWork.flush_of_error (s := marked) h.active (hstatements.trans hwrite)
    rw [bind_of_error hflush]
    exact .error e _
  | ok after =>
    obtain ⟨decided, hget, hothers⟩ := writeDecision_row hrow hwrite
    have hflush : flush marked = .ok () (marked.flushed after) :=
      UnitOfWork.flush_of_ok (s := marked) h.active (hstatements.trans hwrite)
    have hrefresh : refresh row.id (marked.flushed after) =
        .ok decided { s with db := after, loaded := s.loaded.map (reload row.id decided) } := by
      have hinstances : (marked.loaded.map fun i => Loaded.clean i.now).map (reload row.id decided) =
          s.loaded.map (reload row.id decided) := map_reload hclean decided
      rw [← hinstances]
      unfold refresh
      rw [flushed_db, hget]
      simp only [Session.flushed, marked, h.others, h.transactions, h.entries]
      rfl
    rw [bind_of_ok hflush, hrefresh]
    exact .ok hget (h.reloaded hget hothers (h.fit.written hwrite))

/-- A transition in a session is the transition of the tables, and answers the row it wrote. -/
theorem Idle.transition (h : Idle committed s db) :
    Decides committed approvalId (transitionApproval env approvalId target reviewer notes s)
      (ReckonFlow.transitionApproval env db approvalId target reviewer notes) := by
  unfold ReckonFlow.transitionApproval transitionApproval
  cases hrow : required db.approvals "Approval" approvalId with
  | error e =>
    have hselect : selectForUpdate approvalId s = .error (.service e) s :=
      bind_of_error (read_of_error h.active (h.seen ▸ hrow))
    rw [bind_of_error hselect]
    exact .error e s
  | ok row =>
    have hget := required_eq_ok.1 hrow
    obtain ⟨s₁, hselect, hidle, hloaded⟩ := h.selected hget
    rw [bind_of_ok hselect, check_bind]
    change Decides committed approvalId _ (checkTransition row target >>= _)
    cases hcheck : checkTransition row target with
    | error e => exact .error e s₁
    | ok u =>
      have hnew : target ≠ row.status := by
        simp only [checkTransition, ensure_eq_ok] at hcheck
        rintro rfl
        exact absurd hcheck (by cases row.status <;> decide)
      change Decides committed approvalId _
        (_ >>= fun posted => writeDecision posted approvalId target reviewer notes)
      simp only
      split_ifs with hpaid
      · have hpost : Ends s₁ (postPaymentLedger env row s₁) (ReckonFlow.postPaymentLedger env db row) :=
          hidle.postPayment row
        cases hposted : ReckonFlow.postPaymentLedger env db row with
        | error e =>
          rw [hposted] at hpost
          obtain ⟨s₂, hrun⟩ := hpost.of_error
          rw [bind_of_error hrun]
          exact .error e s₂
        | ok p =>
          rw [hposted] at hpost
          have hsame := postPaymentLedger_approvals hposted
          rw [bind_of_ok hpost.of_ok]
          exact (hidle.wrote hsame).decides (by rw [hsame]; exact hget) hloaded hnew
      · exact hidle.decides hget hloaded hnew

/-! ## Transactions -/

theorem post_simulates (reference description : String) (lines : List LedgerLine) :
    Simulates (Idle committed) SessionError.service
      ((ServiceCall.post reference description lines).inSession env)
      ((ServiceCall.post reference description lines).onTables env) where
  ok := by
    intro s t reply t' hidle hrun
    obtain ⟨p, hpost, hreply⟩ := Except.bind_eq_ok.1 hrun
    obtain ⟨rfl, rfl⟩ := Prod.mk.inj (Except.ok.inj hreply)
    have hends := hpost ▸ hidle.post reference description lines
    have happrovals : p.1.approvals = t.approvals := by rw [(createBalancedTransaction_ok hpost).rest]
    exact ⟨_, map_ok.2 ⟨_, hends.of_ok, rfl⟩, hidle.wrote happrovals⟩
  error := by
    intro s t e hidle hrun
    rcases Except.bind_eq_error.1 hrun with hpost | ⟨p, -, hreply⟩
    · have hends := hpost ▸ hidle.post reference description lines
      obtain ⟨s', hcall⟩ := hends.of_error
      exact ⟨s', map_error.2 hcall⟩
    · cases hreply

theorem transition_simulates (approvalId : Id) (target : ApprovalStatus) (reviewer notes : Option String) :
    Simulates (Idle committed) SessionError.service
      ((ServiceCall.transition approvalId target reviewer notes).inSession env)
      ((ServiceCall.transition approvalId target reviewer notes).onTables env) where
  ok := by
    intro s t reply t' hidle hrun
    obtain ⟨after, htransition, hrun⟩ := Except.bind_eq_ok.1 hrun
    obtain ⟨row, hrow, hreply⟩ := Except.bind_eq_ok.1 hrun
    obtain ⟨rfl, rfl⟩ := Prod.mk.inj (Except.ok.inj hreply)
    have hdecides : Decides committed approvalId _ _ := htransition ▸ hidle.transition
    obtain ⟨decided, s', hdecided, hcall, hidle⟩ := hdecides.of_ok
    obtain rfl := Option.some.inj (hdecided.symm.trans (required_eq_ok.1 hrow))
    exact ⟨s', map_ok.2 ⟨_, hcall, rfl⟩, hidle⟩
  error := by
    intro s t e hidle hrun
    rcases Except.bind_eq_error.1 hrun with htransition | ⟨after, htransition, hrun⟩
    · have hdecides : Decides committed approvalId _ _ := htransition ▸ hidle.transition
      obtain ⟨s', hcall⟩ := hdecides.of_error
      exact ⟨s', map_error.2 hcall⟩
    · have hdecides : Decides committed approvalId _ _ := htransition ▸ hidle.transition
      obtain ⟨decided, s', hdecided, -⟩ := hdecides.of_ok
      -- the row written is there
      rw [required_eq_ok.2 hdecided] at hrun
      cases hrun

theorem ServiceCall.simulates (call : ServiceCall) :
    Simulates (Idle committed) SessionError.service (call.inSession env) (call.onTables env) := by
  cases call with
  | post reference description lines => exact post_simulates reference description lines
  | transition approvalId target reviewer notes => exact transition_simulates approvalId target reviewer notes

theorem ServiceCall.begin (call : ServiceCall) : Leaves SameBegin (call.inSession env) := by
  cases call with
  | post reference description lines => exact createBalancedTransaction_begin.map _
  | transition approvalId target reviewer notes => exact transitionApproval_begin.map _

theorem Idle.commit (h : Idle committed s db) :
    s.commit = (ReckonFlow.commit committed db).mapError .service := by
  have hstatements : s.statements = .ok db := by
    unfold Session.statements
    simp only [h.others, h.seen, h.transactions, h.entries, h.unchanged, List.foldlM_nil, pure_bind]
    rfl
  unfold Session.commit
  rw [if_pos h.active, hstatements, h.began]
  simp only [bind, Except.bind]
  cases ReckonFlow.commit committed db <;> rfl

/-- `get_db` around a call, when the call simulates a function of the tables. -/
theorem getDb_of_simulates {α : Type} {body : Call α} {f : StateT Db (Except Error) α} (hfit : AllFit db)
    (hbody : Simulates (Idle db) SessionError.service body f) (hbegin : Leaves SameBegin body) :
    getDb db body = ((transacted db f).1.mapError .service, (transacted db f).2) := by
  unfold getDb transacted
  cases hf : f db with
  | error e =>
    obtain ⟨s', hrun⟩ := hbody.error _ _ e (.opened hfit) hf
    have hback : s'.committed = db := hbegin.error _ _ _ hrun
    rw [hrun]
    exact congrArg (Prod.mk _) hback
  | ok p =>
    obtain ⟨s', hrun, hidle⟩ := hbody.ok _ _ p.1 p.2 (.opened hfit) hf
    have hback : s'.rollback = db := hidle.began
    rw [hrun]
    simp only [hidle.commit, hback, bind, Except.bind]
    cases ReckonFlow.commit db p.2 <;> rfl

/-- Alone in its transaction a call leaves what its request leaves. -/
theorem ServiceCall.transacted_op (settings : Settings) (call : ServiceCall) :
    (transacted db (call.onTables env)).2 = serve env settings db call.op := by
  cases call with
  | post reference description lines =>
    simp only [transacted, serve, ServiceCall.onTables, ServiceCall.op, Op.run, bind, Except.bind]
    cases ReckonFlow.createBalancedTransaction env db reference description lines with
    | error e => rfl
    | ok p =>
      simp only [pure, Except.pure, Except.map]
      cases ReckonFlow.commit db p.1 <;> rfl
  | transition approvalId target reviewer notes =>
    simp only [transacted, serve, ServiceCall.onTables, ServiceCall.op, Op.run, bind, Except.bind]
    cases hrun : ReckonFlow.transitionApproval env db approvalId target reviewer notes with
    | error e => rfl
    | ok after =>
      obtain ⟨row, posted, hrow, hsame, hwrite⟩ := transitionApproval_written hrun
      obtain ⟨decided, hget, -⟩ := writeDecision_row (hsame ▸ hrow) hwrite
      simp only [required_eq_ok.2 hget, pure, Except.pure]
      cases ReckonFlow.commit db after <;> rfl

/-- In every state the services reach, posts and transitions in one session, which holds rows back
until a flush, keeps approvals loaded and updates changed columns only, answer and leave what the
functions of the tables do one after the other before one commit; and requests with a session each
leave what `serve` does. -/
theorem sessions_refine {tr : List (Db × Op)} (hrun : Run (ServeStep env settings) Db.empty tr db) :
    (∀ calls : List ServiceCall, getDb db (calls.mapM (·.inSession env)) =
      ((transacted db (calls.mapM (·.onTables env))).1.mapError .service,
        (transacted db (calls.mapM (·.onTables env))).2)) ∧
    ∀ calls : List ServiceCall, calls.foldl (fun db call => (getDb db (call.inSession env)).2) db =
      calls.foldl (fun db call => serve env settings db call.op) db := by
  have hfit : AllFit db := by
    refine hrun.invariant .empty ?_
    rintro db op _ h rfl
    exact h.served op
  clear hrun
  constructor
  · intro calls
    have hrefl : ∀ s, SameBegin s s := fun _ => rfl
    have htrans : ∀ a b c, SameBegin a b → SameBegin b c → SameBegin a c := fun _ _ _ h₁ h₂ => h₂.trans h₁
    refine getDb_of_simulates hfit (.mapM ServiceCall.simulates calls) ?_
    exact Leaves.mapM hrefl htrans ServiceCall.begin calls
  · intro calls
    induction calls generalizing db with
    | nil => rfl
    | cons call calls ih =>
      have hcall : (getDb db (call.inSession env)).2 = serve env settings db call.op := by
        rw [getDb_of_simulates hfit call.simulates call.begin]
        exact call.transacted_op settings
      rw [List.foldl_cons, List.foldl_cons, hcall]
      exact ih (hfit.served call.op)

/-- A payment and a post in one session are kept together, and a second payment undoes the first. -/
theorem sessions_refine_paid :
    (getDb demoApproved ([ServiceCall.transition 1 .paid none none,
        .post "T-1" "By hand" (demoTransfer 1)].mapM (·.inSession demoEnv))).2.ledgerTransactions.rows.map
          (·.reference) = ["PAY-1", "T-1"] ∧
    (getDb demoApproved ([ServiceCall.transition 1 .paid none none,
        .transition 1 .paid none none].mapM (·.inSession demoEnv))).2.ledgerTransactions.rows = [] := by
  have hrun : Run (ServeStep demoEnv {}) Db.empty _ demoApproved :=
    (((Run.nil.snoc rfl).snoc rfl).snoc rfl).snoc rfl
  have hrefine := (sessions_refine hrun).1
  constructor
  · rw [hrefine]
    decide +kernel
  · rw [hrefine]
    decide +kernel

end ReckonFlow.UnitOfWork
