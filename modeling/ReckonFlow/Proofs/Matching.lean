import ReckonFlow.Proofs.Fusion
import ReckonFlow.Proofs.Service

/-! The matching invariant over whole runs of the services: expense status, bank row
status and link stay in step exactly as long as no auto-match parks a matched expense. -/

namespace ReckonFlow

open Lts

variable {env : Env} {settings : Settings} {db db' : Db} {op : Op}

/-- A matched expense has exactly one bank row, a matched bank row has an expense, and no
two bank rows share one. -/
structure MatchingInvariant (expenses : List Expense) (rows : List BankTransaction) : Prop where
  expense_iff : ∀ e ∈ expenses,
    e.matchStatus = .matched ↔ ∃! r, r ∈ rows ∧ r.matchedExpenseId = some e.id
  row_iff : ∀ r ∈ rows, r.matchStatus = .matched ↔ r.matchedExpenseId ≠ none
  unique : ∀ r ∈ rows, ∀ r' ∈ rows, r.matchedExpenseId = r'.matchedExpenseId →
    r.matchedExpenseId ≠ none → r = r'

/-- The foreign key of `matched_expense_id`. -/
def LinksExist (db : Db) : Prop :=
  ∀ r ∈ db.bankTransactions.rows, ∀ i, r.matchedExpenseId = some i → ∃ e ∈ db.expenses.rows, e.id = i

def Db.Matching (db : Db) : Prop := MatchingInvariant db.expenses.rows db.bankTransactions.rows

/-- With links unique, "exactly one" is "some". -/
theorem MatchingInvariant.of_exists {expenses : List Expense} {rows : List BankTransaction}
    (he : ∀ e ∈ expenses, e.matchStatus = .matched ↔ ∃ r ∈ rows, r.matchedExpenseId = some e.id)
    (hr : ∀ r ∈ rows, r.matchStatus = .matched ↔ r.matchedExpenseId ≠ none)
    (hu : ∀ r ∈ rows, ∀ r' ∈ rows, r.matchedExpenseId = r'.matchedExpenseId →
      r.matchedExpenseId ≠ none → r = r') : MatchingInvariant expenses rows where
  expense_iff := by
    intro e hmem
    rw [he e hmem]
    constructor
    · rintro ⟨r, hr, hlink⟩
      refine ⟨r, ⟨hr, hlink⟩, fun r' h' => ?_⟩
      exact hu r' h'.1 r hr (h'.2.trans hlink.symm) (by simp [h'.2])
    · rintro ⟨r, ⟨hr, hlink⟩, -⟩
      exact ⟨r, hr, hlink⟩
  row_iff := hr
  unique := hu

theorem MatchingInvariant.matched_iff {expenses : List Expense} {rows : List BankTransaction}
    (h : MatchingInvariant expenses rows) {e : Expense} (he : e ∈ expenses) :
    e.matchStatus = .matched ↔ ∃ r ∈ rows, r.matchedExpenseId = some e.id := by
  rw [h.expense_iff e he]
  constructor
  · rintro ⟨r, ⟨hr, hlink⟩, -⟩
    exact ⟨r, hr, hlink⟩
  · rintro ⟨r, hr, hlink⟩
    refine ⟨r, ⟨hr, hlink⟩, fun r' h' => ?_⟩
    exact h.unique r' h'.1 r hr (h'.2.trans hlink.symm) (by simp [h'.2])

/-- The invariant together with the foreign key. -/
structure Linked (db : Db) : Prop where
  matching : db.Matching
  exist : LinksExist db

theorem Linked.frame (h : Linked db) (he : db'.expenses = db.expenses)
    (hb : db'.bankTransactions = db.bankTransactions) : Linked db' := by
  constructor
  · unfold Db.Matching
    rw [he, hb]
    exact h.matching
  · unfold LinksExist
    rw [he, hb]
    exact h.exist

theorem Linked.empty : Linked Db.empty where
  matching := ⟨by simp [Db.empty], by simp [Db.empty], by simp [Db.empty]⟩
  exist := by simp [LinksExist, Db.empty]

/-- A new expense has a fresh id, so no bank row names it. -/
theorem Linked.insert_expense (h : Linked db) {mk : Id → Expense} {hmk : ∀ i, (mk i).id = i}
    (hstatus : ∀ i, (mk i).matchStatus = .unmatched) :
    Linked { db with expenses := db.expenses.insert mk hmk } where
  matching := by
    refine .of_exists (fun e (he : e ∈ (db.expenses.insert mk hmk).rows) => ?_)
      h.matching.row_iff h.matching.unique
    rcases Table.mem_insert.1 he with he | rfl
    · exact h.matching.matched_iff he
    · rw [hstatus, hmk]
      refine ⟨nofun, ?_⟩
      rintro ⟨r, hr, hlink⟩
      obtain ⟨e, he, hid⟩ := h.exist r hr _ hlink
      have hlt := db.expenses.fresh e he
      rw [hid] at hlt
      exact absurd hlt (lt_irrefl _)
  exist := by
    intro r hr i hi
    obtain ⟨e, he, hid⟩ := h.exist r hr i hi
    have hmem : e ∈ (db.expenses.insert mk hmk).rows := Table.mem_insert.2 (.inl he)
    exact ⟨e, hmem, hid⟩

theorem Linked.imports (h : Linked db) (hi : Imports db db') : Linked db' := by
  have hold : ∀ r ∈ db'.bankTransactions.rows, r.matchedExpenseId ≠ none →
      r ∈ db.bankTransactions.rows := by
    intro r hr hlink
    rcases hi.added r hr with hr | ⟨-, hnone⟩
    · exact hr
    · exact absurd hnone hlink
  have hexp : db'.expenses = db.expenses := by rw [hi.rest]
  constructor
  · refine .of_exists (fun e he => ?_) (fun r hr => ?_) fun r hr r' hr' heq hne => ?_
    · rw [hexp] at he
      rw [h.matching.matched_iff he]
      constructor
      · rintro ⟨r, hr, hlink⟩
        exact ⟨r, hi.kept r hr, hlink⟩
      · rintro ⟨r, hr, hlink⟩
        exact ⟨r, hold r hr (by simp [hlink]), hlink⟩
    · rcases hi.added r hr with hr | ⟨hs, hnone⟩
      · exact h.matching.row_iff r hr
      · simp [hs, hnone]
    · exact h.matching.unique r (hold r hr hne) r' (hold r' hr' (heq ▸ hne)) heq hne
  · intro r hr i hlink
    rw [hexp]
    exact h.exist r (hold r hr (by simp [hlink])) i hlink

theorem mem_setMatchStatus (db : Db) (i : Id) (status : MatchStatus) (x : Expense) :
    x ∈ (db.setMatchStatus i status).expenses.rows ↔
      ∃ a ∈ db.expenses.rows, (if a.id = i then a.setMatchStatus status else a) = x := by
  unfold Db.setMatchStatus
  rw [Table.mem_modify]

theorem setMatchStatus_kept (i : Id) (status : MatchStatus) {a : Expense}
    (ha : a ∈ db.expenses.rows) :
    ∃ x ∈ (db.setMatchStatus i status).expenses.rows, x.id = a.id := by
  refine ⟨_, (mem_setMatchStatus db i status _).2 ⟨a, ha, rfl⟩, ?_⟩
  split_ifs <;> rfl

/-- Parking an expense that is not matched. -/
theorem Linked.park (h : Linked db) {e : Id} {expense : Expense}
    (he : db.expenses.get e = some expense) (hs : expense.matchStatus ≠ .matched) :
    Linked (db.setMatchStatus e .pendingReview) := by
  obtain ⟨hmem, hid⟩ := Table.get_eq_some.1 he
  constructor
  · refine .of_exists (fun x hx => ?_) h.matching.row_iff h.matching.unique
    obtain ⟨a, ha, rfl⟩ := (mem_setMatchStatus ..).1 hx
    split_ifs with hae
    · obtain rfl : a = expense := Table.key_inj ha hmem (hae.trans hid.symm)
      have hnot := (not_congr (h.matching.matched_iff ha)).1 hs
      exact ⟨nofun, fun hex => absurd hex hnot⟩
    · exact h.matching.matched_iff ha
  · intro r hr i hi
    obtain ⟨a, ha, rfl⟩ := h.exist r hr i hi
    exact setMatchStatus_kept e _ ha

/-- No row is linked to an expense that is not matched. -/
theorem Db.Matching.free (h : db.Matching) {e : Id} {expense : Expense}
    (he : db.expenses.get e = some expense) (hs : expense.matchStatus ≠ .matched) :
    ∀ r ∈ db.bankTransactions.rows, r.matchedExpenseId ≠ some e := by
  intro r hr hlink
  obtain ⟨hmem, hid⟩ := Table.get_eq_some.1 he
  exact hs ((MatchingInvariant.matched_iff h hmem).2 ⟨r, hr, hid ▸ hlink⟩)

/-- The bank rows after a confirmation: the one linked, and the others as they were. -/
theorem mem_link {e b : Id} {row : BankTransaction} (hb : db.bankTransactions.get b = some row)
    {r : BankTransaction} : r ∈ (db.link e b).bankTransactions.rows ↔
      r = row.link e ∨ (r ∈ db.bankTransactions.rows ∧ r.id ≠ b) := by
  obtain ⟨hrow, hrowId⟩ := Table.get_eq_some.1 hb
  rw [show (db.link e b).bankTransactions = db.bankTransactions.modify b (·.link e)
    (BankTransaction.link_id e) from rfl, Table.mem_modify]
  constructor
  · rintro ⟨a, ha, rfl⟩
    split_ifs with hab
    · exact .inl (by rw [Table.key_inj ha hrow (hab.trans hrowId.symm)])
    · exact .inr ⟨ha, hab⟩
  · rintro (rfl | ⟨hr, hne⟩)
    · exact ⟨row, hrow, if_pos hrowId⟩
    · exact ⟨r, hr, if_neg hne⟩

/-- Confirming a match whose expense is not matched yet. -/
theorem Db.Matching.link (h : db.Matching) {e b : Id} {expense : Expense} {row : BankTransaction}
    (he : db.expenses.get e = some expense) (hb : db.bankTransactions.get b = some row)
    (hclaim : row.matchedExpenseId = none ∨ row.matchedExpenseId = some e)
    (hs : expense.matchStatus ≠ .matched) : (db.link e b).Matching := by
  obtain ⟨hrow, hrowId⟩ := Table.get_eq_some.1 hb
  have hnone := h.free he hs
  have hfree : row.matchedExpenseId = none := hclaim.resolve_right (hnone row hrow)
  have hlink : (row.link e).matchedExpenseId = some e := rfl
  refine .of_exists (fun x hx => ?_) (fun r hr => ?_) fun r hr r' hr' heq hne => ?_
  · obtain ⟨a, ha, rfl⟩ := (mem_setMatchStatus db e .matched x).1 hx
    split_ifs with hae
    · refine ⟨fun _ => ⟨_, (mem_link hb).2 (.inl rfl), ?_⟩, fun _ => rfl⟩
      rw [hlink, ← hae]
      rfl
    · rw [MatchingInvariant.matched_iff h ha]
      constructor
      · rintro ⟨r, hr, hl⟩
        refine ⟨r, (mem_link hb).2 (.inr ⟨hr, fun hrb => ?_⟩), hl⟩
        rw [Table.key_inj hr hrow (hrb.trans hrowId.symm), hfree] at hl
        cases hl
      · rintro ⟨r, hr, hl⟩
        rcases (mem_link hb).1 hr with rfl | ⟨hr, -⟩
        · exact absurd (Option.some.inj (hlink.symm.trans hl)).symm hae
        · exact ⟨r, hr, hl⟩
  · rcases (mem_link hb).1 hr with rfl | ⟨hr, -⟩
    · simp [BankTransaction.link]
    · exact h.row_iff r hr
  · rcases (mem_link hb).1 hr with rfl | ⟨hr, -⟩ <;> rcases (mem_link hb).1 hr' with rfl | ⟨hr', -⟩
    · rfl
    · exact absurd (heq.symm.trans hlink) (hnone r' hr')
    · exact absurd (heq.trans hlink) (hnone r hr)
    · exact h.unique r hr r' hr' heq hne

theorem Linked.link (h : Linked db) {e b : Id} {expense : Expense} {row : BankTransaction}
    (he : db.expenses.get e = some expense) (hb : db.bankTransactions.get b = some row)
    (hclaim : row.matchedExpenseId = none ∨ row.matchedExpenseId = some e)
    (hs : expense.matchStatus ≠ .matched) : Linked (db.link e b) where
  matching := h.matching.link he hb hclaim hs
  exist := by
    obtain ⟨hmem, hid⟩ := Table.get_eq_some.1 he
    intro r hr i hi
    rcases (mem_link hb).1 hr with rfl | ⟨hr, -⟩
    · obtain rfl := Option.some.inj (show some e = some i from hi)
      obtain ⟨x, hx, hxid⟩ := setMatchStatus_kept e .matched hmem
      exact ⟨x, hx, hxid.trans hid⟩
    · obtain ⟨a, ha, rfl⟩ := h.exist r hr i hi
      exact setMatchStatus_kept e .matched ha

/-! ## Whole runs -/

variable (env settings) in
/-- An auto-match that parks an expense which is already matched. -/
def ParksMatched (db : Db) (op : Op) : Prop :=
  ∃ scan e expense suggested, op = .autoReconcile scan e ∧ db.expenses.get e = some expense ∧
    expense.matchStatus = .matched ∧
    suggestMatches env settings scan db e 2 none none = .ok suggested ∧
    autoDecision suggested.2.1 = none

theorem Linked.run (h : Linked db) (hrun : op.run env settings db = .ok db')
    (hok : ¬ ParksMatched env settings db op) : Linked db' := by
  cases op with
  | createAccount code name currency =>
    obtain ⟨_, _, _, -, -, rfl⟩ := createAccount_ok hrun
    exact h.frame rfl rfl
  | createBalancedTransaction reference description lines =>
    obtain ⟨⟨_, txId⟩, hpost, rfl⟩ := Except.map_eq_ok.1 hrun
    have hrest := (createBalancedTransaction_ok hpost).rest
    exact h.frame (by rw [hrest]) (by rw [hrest])
  | createTravelRequest f =>
    obtain ⟨_, _, -, rfl⟩ := createTravelRequest_ok hrun
    exact h.frame rfl rfl
  | createExpense f =>
    obtain ⟨_, _, hstatus, rfl⟩ := insertExpense_ok (createExpense_ok hrun)
    exact h.insert_expense hstatus
  | transitionApproval approvalId target reviewer notes =>
    obtain ⟨approval, posted, -, -, hposted, hwrite⟩ := transitionApproval_ok hrun
    obtain ⟨_, _, rfl⟩ := writeDecision_ok hwrite
    split_ifs at hposted
    · obtain ⟨txId, hp⟩ := hposted
      obtain ⟨_, _, _, _, -, hpost⟩ := postPaymentLedger_ok hp
      have hrest := hpost.rest
      exact h.frame (by rw [hrest]) (by rw [hrest])
    · rw [hposted]
      exact h.frame rfl rfl
  | importCsv parsed =>
    obtain ⟨⟨_, n, m⟩, himport, rfl⟩ := Except.map_eq_ok.1 hrun
    exact h.imports (insertPostgres_imports himport)
  | suggestMatches scan e limit window tolerance =>
    obtain ⟨_, -, rfl⟩ := Except.map_eq_ok.1 hrun
    exact h
  | confirmMatch e b =>
    obtain ⟨⟨_, i⟩, hconfirm, rfl⟩ := Except.map_eq_ok.1 hrun
    obtain ⟨expense, row, he, hb, hclaim, hs, -, rfl, -⟩ := confirmMatch_ok hconfirm
    exact h.link he hb hclaim hs
  | autoReconcile scan e =>
    obtain ⟨⟨_, choice⟩, hauto, rfl⟩ := Except.map_eq_ok.1 hrun
    obtain ⟨suggested, hsuggest, hsettle⟩ := autoReconcile_ok hauto
    obtain ⟨-, hcase⟩ := settle_ok hsettle
    split at hcase
    · rename_i hnone
      obtain ⟨expense, he, rfl⟩ := flagForReview_ok hcase
      exact h.park he fun hm => hok ⟨scan, e, expense, suggested, rfl, he, hm, hsuggest, hnone⟩
    · obtain ⟨expense, row, he, hb, hclaim, hs, -, rfl, -⟩ := confirmMatch_ok hcase
      exact h.link he hb hclaim hs

theorem Linked.serve (h : Linked db) (hok : ¬ ParksMatched env settings db op) :
    Linked (serve env settings db op) := by
  rcases serve_cases env settings db op with heq | hrun
  · rw [heq]
    exact h
  · exact h.run hrun hok

/-- Parking a matched expense leaves its bank row linked to an expense that is not matched. -/
theorem Linked.not_parked (h : Linked db) (hparks : ParksMatched env settings db op) :
    ¬ (ReckonFlow.serve env settings db op).Matching := by
  obtain ⟨scan, e, expense, suggested, rfl, he, hm, hsuggest, hnone⟩ := hparks
  obtain ⟨hmem, hid⟩ := Table.get_eq_some.1 he
  have hsettle := settle_park he hnone
  have hrun : Op.run env settings db (.autoReconcile scan e) =
      .ok (db.setMatchStatus e .pendingReview) := by
    show (autoReconcile env settings scan db e).map _ = _
    unfold autoReconcile
    rw [hsuggest]
    show (settle db e suggested.2.1).map _ = _
    rw [hsettle]
    rfl
  rw [serve_of_run hrun rfl]
  intro hmatching
  obtain ⟨r, hr, hlink⟩ := (h.matching.matched_iff hmem).1 hm
  have hparked : expense.setMatchStatus .pendingReview ∈
      (db.setMatchStatus e .pendingReview).expenses.rows :=
    (mem_setMatchStatus ..).2 ⟨expense, hmem, if_pos hid⟩
  have hbad := (hmatching.matched_iff hparked).2 ⟨r, hr, hlink⟩
  cases hbad

/-- From an empty database the matching invariant holds in every state of a run exactly if
no auto-match parks an expense that is already matched. -/
theorem matching_always_iff {tr : List (Db × Op)}
    (hrun : Run (ServeStep env settings) Db.empty tr db) :
    Always Db.Matching tr db ↔ ∀ p ∈ tr, ¬ ParksMatched env settings p.1 p.2 := by
  have hkeep : ∀ db op db', Linked db → ¬ ParksMatched env settings db op →
      ServeStep env settings db op db' → Linked db' := by
    rintro db op _ h hok rfl
    exact h.serve hok
  refine hrun.always_iff Linked.empty (fun _ h => h.matching) hkeep ?_
  rintro db op _ h hbad rfl
  exact h.not_parked (not_not.1 hbad)

/-- One expense, one bank row for it. -/
def demoOps : List Op :=
  [.createExpense { vendor := "東京", description := "宿", amount := 100, expenseDate := demoDate },
    .importCsv [{ bookingDate := demoDate, amount := -100, description := "東京" }]]

/-- The tables after the two requests, and one more. -/
def demoAfter (op : Op) : Db :=
  serve demoEnv {} (demoOps.foldl (serve demoEnv {}) Db.empty) op

theorem matching_always_iff_linked :
    ∃ tr, Run (ServeStep demoEnv {}) Db.empty tr (demoAfter (.autoReconcile demoScan 1)) ∧
      (demoAfter (.autoReconcile demoScan 1)).bankTransactions.rows.map (·.matchedExpenseId) =
        [some 1] ∧
      Always Db.Matching tr (demoAfter (.autoReconcile demoScan 1)) := by
  have hrun : Run (ServeStep demoEnv {}) Db.empty _ (demoAfter (.autoReconcile demoScan 1)) :=
    ((Run.nil.snoc rfl).snoc rfl).snoc rfl
  refine ⟨_, hrun, by decide +kernel, (matching_always_iff hrun).2 ?_⟩
  simp only [List.nil_append, List.cons_append, List.mem_cons, List.not_mem_nil, or_false]
  rintro p (rfl | rfl | rfl) ⟨scan, e, expense, suggested, hop, he, hm, -⟩
  · cases hop
  · cases hop
  · obtain ⟨-, rfl⟩ := Op.autoReconcile.inj hop
    have hnot : ((demoOps.foldl (serve demoEnv {}) Db.empty).expenses.get 1).map (·.matchStatus) =
        some .unmatched := by decide +kernel
    rw [show (demoOps.foldl (serve demoEnv {}) Db.empty).expenses.get 1 = some expense from he,
      Option.map_some, hm] at hnot
    cases hnot

/-- A second auto-match finds no open row and parks the expense, whose row stays linked. -/
theorem matching_fails : ¬ ∀ (env : Env) (settings : Settings) (tr : List (Db × Op)) (db : Db),
    Run (ServeStep env settings) Db.empty tr db → db.Matching := by
  intro hall
  have hrun : Run (ServeStep demoEnv {}) Db.empty _
      (serve demoEnv {} (demoAfter (.confirmMatch 1 1)) (.autoReconcile demoScan 1)) :=
    (((Run.nil.snoc rfl).snoc rfl).snoc rfl).snoc rfl
  have hmatching := hall _ _ _ _ hrun
  have hparked : (serve demoEnv {} (demoAfter (.confirmMatch 1 1))
      (.autoReconcile demoScan 1)).expenses.rows.map (fun e => (e.id, e.matchStatus)) =
        [(1, .pendingReview)] := by decide +kernel
  have hlinked : (serve demoEnv {} (demoAfter (.confirmMatch 1 1))
      (.autoReconcile demoScan 1)).bankTransactions.rows.map (·.matchedExpenseId) = [some 1] := by
    decide +kernel
  obtain ⟨e, he, heq⟩ := List.mem_map.1 (by rw [hparked]; exact List.mem_singleton_self _ :
    ((1, .pendingReview) : Id × MatchStatus) ∈ _)
  obtain ⟨r, hr, hlink⟩ := List.mem_map.1 (by rw [hlinked]; exact List.mem_singleton_self _ :
    (some 1 : Option Id) ∈ _)
  obtain ⟨hid, hstatus⟩ := Prod.mk.inj heq
  have hbad := (hmatching.matched_iff he).2 ⟨r, hr, by rw [hlink, hid]⟩
  rw [hstatus] at hbad
  cases hbad

end ReckonFlow
