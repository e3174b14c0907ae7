import ReckonFlow.Lib.Growth
import ReckonFlow.Proofs.Payments
import ReckonFlow.Spec.Queries

/-! What the books say once they say ever after: rows are only added, approvals move along the
allowed transitions alone, and of expenses and statement rows nothing changes but the match. -/

namespace ReckonFlow

open Lts

variable {env : Env} {settings : Settings} {db db' db₁ db₂ db₃ : Db} {op : Op}

/-- An approval of status `current` can come to `target`. -/
def Leads : ApprovalStatus → ApprovalStatus → Prop :=
  Relation.ReflTransGen fun current target => target ∈ allowedTransitions current

/-- What an approval becomes: once no transition is allowed, nothing else. -/
structure Later (a a' : Approval) : Prop where
  id : a'.id = a.id
  leads : Leads a.status a'.status
  final : allowedTransitions a.status = [] → a' = a

/-- All of an expense but its match. -/
def Expense.claimed (e : Expense) : Expense := e.setMatchStatus .unmatched

/-- All of a statement row but its match. -/
def BankTransaction.booked (r : BankTransaction) : BankTransaction :=
  { r with matchStatus := .unmatched, matchedExpenseId := none }

theorem claimed_id (e e' : Expense) (h : e.claimed = e'.claimed) : e.id = e'.id := by
  have hid : e.claimed.id = e'.claimed.id := congrArg _ h
  exact hid

theorem booked_id (r r' : BankTransaction) (h : r.booked = r'.booked) : r.id = r'.id := by
  have hid : r.booked.id = r'.booked.id := congrArg _ h
  exact hid

def Approval.trip (a : Approval) : Id × Id := (a.id, a.travelRequestId)

structure Grown (db db' : Db) : Prop where
  accounts : db.accounts.Grows id db'.accounts
  ledgerTransactions : db.ledgerTransactions.Grows id db'.ledgerTransactions
  ledgerEntries : db.ledgerEntries.Grows id db'.ledgerEntries
  travelRequests : db.travelRequests.Grows id db'.travelRequests
  approvals : db.approvals.Grows Approval.trip db'.approvals
  expenses : db.expenses.Grows Expense.claimed db'.expenses
  bankTransactions : db.bankTransactions.Grows BankTransaction.booked db'.bankTransactions
  decided : ∀ a ∈ db.approvals.rows, ∃ a' ∈ db'.approvals.rows, Later a a'

theorem Later.refl (a : Approval) : Later a a := ⟨rfl, .refl, fun _ => rfl⟩

theorem Later.trans {a b c : Approval} (h : Later a b) (h' : Later b c) : Later a c where
  id := h'.id.trans h.id
  leads := h.leads.trans h'.leads
  final hnone := by
    obtain rfl := h.final hnone
    exact h'.final hnone

theorem Grown.refl (db : Db) : Grown db db where
  accounts := .refl ..
  ledgerTransactions := .refl ..
  ledgerEntries := .refl ..
  travelRequests := .refl ..
  approvals := .refl ..
  expenses := .refl ..
  bankTransactions := .refl ..
  decided a ha := ⟨a, ha, .refl a⟩

theorem Grown.trans (h : Grown db₁ db₂) (h' : Grown db₂ db₃) : Grown db₁ db₃ where
  accounts := h.accounts.trans h'.accounts
  ledgerTransactions := h.ledgerTransactions.trans h'.ledgerTransactions
  ledgerEntries := h.ledgerEntries.trans h'.ledgerEntries
  travelRequests := h.travelRequests.trans h'.travelRequests
  approvals := h.approvals.trans h'.approvals
  expenses := h.expenses.trans h'.expenses
  bankTransactions := h.bankTransactions.trans h'.bankTransactions
  decided a ha := by
    obtain ⟨b, hb, hab⟩ := h.decided a ha
    obtain ⟨c, hc, hbc⟩ := h'.decided b hb
    exact ⟨c, hc, hab.trans hbc⟩

/-! ## Operations -/

theorem Grown.account (db : Db) {mk : Id → Account} {hmk : ∀ i, (mk i).id = i} :
    Grown db { db with accounts := db.accounts.insert mk hmk } :=
  { Grown.refl db with accounts := Table.grows_insert _ _ mk hmk }

theorem Grown.expense (db : Db) {mk : Id → Expense} {hmk : ∀ i, (mk i).id = i} :
    Grown db { db with expenses := db.expenses.insert mk hmk } :=
  { Grown.refl db with expenses := Table.grows_insert _ _ mk hmk }

theorem Grown.trip (db : Db) {mk : Id → TravelRequest} {hmk : ∀ i, (mk i).id = i}
    {mk' : Id → Approval} {hmk' : ∀ i, (mk' i).id = i} :
    Grown db { db with
      travelRequests := db.travelRequests.insert mk hmk
      approvals := db.approvals.insert mk' hmk' } :=
  { Grown.refl db with
    travelRequests := Table.grows_insert _ _ mk hmk
    approvals := Table.grows_insert _ _ mk' hmk'
    decided := fun a ha => ⟨a, Table.mem_insert_of_mem mk' hmk' ha, .refl a⟩ }

theorem Grown.posted {txId : Id} {lines : List ParsedLine} (h : Posted env db db' txId lines) :
    Grown db db' := by
  obtain ⟨reference, description, -, htransactions⟩ := h.transactions
  obtain ⟨new, -, hentries⟩ := h.entries
  rw [h.rest]
  refine { Grown.refl db with ledgerTransactions := ?_, ledgerEntries := ?_ }
  · rw [htransactions]
    exact Table.grows_insert ..
  · show db.ledgerEntries.rows.map id <+: db'.ledgerEntries.rows.map id
    rw [hentries, List.map_append]
    exact List.prefix_append ..

/-- A decision moves an approval along an allowed edge. -/
theorem Grown.decision {approval : Approval} {target : ApprovalStatus} {reviewer notes : Option String}
    (hrow : db.approvals.get approval.id = some approval)
    (hallowed : target ∈ allowedTransitions approval.status) :
    Grown db { db with
      approvals := db.approvals.modify approval.id (·.decided target reviewer notes)
        (Approval.decided_id target reviewer notes) } := by
  refine { Grown.refl db with
    approvals := Table.grows_modify _ _ _ _ (Approval.decided_id target reviewer notes) fun _ => rfl
    decided := fun a ha => ?_ }
  refine ⟨if a.id = approval.id then a.decided target reviewer notes else a, ?_, ?_⟩
  · exact List.mem_map_of_mem ha
  split_ifs with hid
  · obtain rfl := Table.key_inj ha (Table.get_eq_some.1 hrow).1 hid
    refine ⟨rfl, .single hallowed, fun hnone => ?_⟩
    rw [hnone] at hallowed
    cases hallowed
  · exact .refl a

theorem Grown.matched (db : Db) (e : Id) (status : MatchStatus) :
    Grown db (db.setMatchStatus e status) :=
  { Grown.refl db with expenses := Table.grows_modify _ _ _ _ (Expense.setMatchStatus_id status) fun _ => rfl }

theorem Grown.linked (db : Db) (e b : Id) : Grown db (db.link e b) :=
  { Grown.matched db e .matched with
    bankTransactions := Table.grows_modify _ _ _ _ (BankTransaction.link_id e) fun _ => rfl }

theorem Grown.bankRow (db : Db) (v : BankValues) : Grown db (insertBankRow db v) :=
  { Grown.refl db with bankTransactions := Table.grows_insert .. }

theorem Grown.imported {parsed : List BankCsvRow} {n m : ℕ}
    (h : insertPostgres env db parsed = .ok (db', n, m)) : Grown db db' := by
  simp only [insertPostgres, Except.bind_eq_ok, Except.pure_eq_ok, Prod.mk.injEq] at h
  obtain ⟨st, hloop, _, hflush, rfl, -, -⟩ := h
  have hst : Grown db st.db := by
    refine Except.foldlM_invariant (P := fun st : ImportState => Grown db st.db) ?_ (.refl db) hloop
    intro st row st' hst hrow
    rcases importRow_db hrow with heq | ⟨v, heq⟩
    · rw [heq]
      exact hst
    · rw [heq]
      exact hst.trans (.bankRow ..)
  refine Except.foldlM_invariant (P := Grown db) ?_ hst hflush
  intro d row d' hd hrow
  simp only [flushRow, Except.bind_eq_ok, Except.pure_eq_ok] at hrow
  obtain ⟨v, -, _, -, rfl⟩ := hrow
  exact hd.trans (.bankRow ..)

theorem grown_of_run (hrun : op.run env settings db = .ok db') : Grown db db' := by
  cases op with
  | createAccount code name currency =>
    obtain ⟨_, _, _, -, -, rfl⟩ := createAccount_ok hrun
    exact .account db
  | createBalancedTransaction reference description lines =>
    obtain ⟨⟨posted, txId⟩, hpost, rfl⟩ := Except.map_eq_ok.1 hrun
    exact .posted (createBalancedTransaction_ok hpost)
  | createTravelRequest f =>
    obtain ⟨_, _, -, rfl⟩ := createTravelRequest_ok hrun
    exact .trip db
  | createExpense f =>
    obtain ⟨_, _, -, rfl⟩ := insertExpense_ok (createExpense_ok hrun)
    exact .expense db
  | transitionApproval approvalId target reviewer notes =>
    obtain ⟨approval, posted, hrow, hallowed, hposted, hwrite⟩ := transitionApproval_ok hrun
    obtain ⟨_, _, rfl⟩ := writeDecision_ok hwrite
    obtain rfl := (Table.get_eq_some.1 hrow).2
    have hgrown : Grown db posted ∧ posted.approvals = db.approvals := by
      split_ifs at hposted
      · obtain ⟨txId, hp⟩ := hposted
        obtain ⟨_, _, _, _, -, hpost⟩ := postPaymentLedger_ok hp
        refine ⟨.posted hpost, ?_⟩
        rw [hpost.rest]
      · rw [hposted]
        exact ⟨.refl db, rfl⟩
    obtain ⟨hgrown, happrovals⟩ := hgrown
    refine hgrown.trans (.decision ?_ hallowed)
    rw [happrovals]
    exact hrow
  | importCsv parsed =>
    obtain ⟨⟨_, n, m⟩, himport, rfl⟩ := Except.map_eq_ok.1 hrun
    exact .imported himport
  | suggestMatches scan e limit window tolerance =>
    obtain ⟨_, -, rfl⟩ := Except.map_eq_ok.1 hrun
    exact .refl db
  | confirmMatch e b =>
    obtain ⟨⟨_, i⟩, hconfirm, rfl⟩ := Except.map_eq_ok.1 hrun
    obtain ⟨_, _, -, -, -, -, -, rfl, -⟩ := confirmMatch_ok hconfirm
    exact .linked ..
  | autoReconcile scan e =>
    obtain ⟨⟨_, choice⟩, hauto, rfl⟩ := Except.map_eq_ok.1 hrun
    obtain ⟨suggested, -, hsettle⟩ := autoReconcile_ok hauto
    have hcase := (settle_ok hsettle).2
    split at hcase
    · obtain ⟨_, -, rfl⟩ := flagForReview_ok hcase
      exact .matched ..
    · obtain ⟨_, _, -, -, -, -, -, rfl, -⟩ := confirmMatch_ok hcase
      exact .linked ..

theorem grown_serve (env : Env) (settings : Settings) (db : Db) (op : Op) :
    Grown db (serve env settings db op) := by
  rcases serve_cases env settings db op with heq | hrun
  · rw [heq]
    exact .refl db
  · exact grown_of_run hrun

theorem Grown.of_run {tr : List (Db × Op)} (hrun : Run (ServeStep env settings) db tr db') :
    Grown db db' := by
  refine hrun.invariant (.refl db) ?_
  rintro db₁ op _ h rfl
  exact h.trans (grown_serve ..)

/-! ## Reads -/

theorem Grown.found_expense (h : Grown db db') {i : Id} {e : Expense} (he : getExpense db i = .ok e) :
    ∃ e', getExpense db' i = .ok e' ∧ e'.claimed = e.claimed := by
  obtain ⟨hmem, rfl⟩ := Table.get_eq_some.1 (required_eq_ok.1 he)
  obtain ⟨e', he', hclaimed⟩ := h.expenses.exists_row hmem
  refine ⟨e', required_eq_ok.2 ?_, hclaimed⟩
  rw [← claimed_id _ _ hclaimed]
  exact Table.get_of_mem he'

theorem Grown.found_approval (h : Grown db db') {i : Id} {a : Approval}
    (ha : getApproval db i = .ok a) :
    ∃ a', getApproval db' i = .ok a' ∧ a'.trip = a.trip ∧ Later a a' := by
  obtain ⟨hmem, rfl⟩ := Table.get_eq_some.1 (required_eq_ok.1 ha)
  obtain ⟨a', ha', hlater⟩ := h.decided a hmem
  have htrip : a'.trip = a.trip :=
    h.approvals.eq_of_key (fun _ _ heq => (Prod.mk.inj heq).1) hmem ha' hlater.id
  refine ⟨a', required_eq_ok.2 ?_, htrip, hlater⟩
  rw [← hlater.id]
  exact Table.get_of_mem ha'

theorem mem_of_mem_listApprovals {limit : ℕ} {status : Option ApprovalStatus} {a : Approval}
    (h : a ∈ listApprovals db limit status) :
    a ∈ db.approvals.rows ∧ (status = none ∨ status = some a.status) := by
  have hmem := List.mem_filter.1 (mem_sortedDesc.1 (Paging.mem_of_mem_page h))
  exact ⟨hmem.1, of_decide_eq_true hmem.2⟩

/-- A queue that does not fill its page is shown whole. -/
theorem mem_listApprovals_of_short {limit : ℕ} {status : Option ApprovalStatus}
    (hshort : (listApprovals db limit status).length < limit) {a : Approval}
    (ha : a ∈ db.approvals.rows) (hstatus : status = none ∨ status = some a.status) :
    a ∈ listApprovals db limit status := by
  have hall := Paging.length_of_short hshort
  unfold listApprovals Paging.page
  rw [List.drop_zero, List.take_of_length_le (by omega)]
  exact mem_sortedDesc.2 (List.mem_filter.2 ⟨ha, decide_eq_true hstatus⟩)

/-- Who is in the queue of a final status stays in it. -/
theorem Grown.listed_final (h : Grown db db') {limit limit' : ℕ} {status : ApprovalStatus}
    (hfinal : allowedTransitions status = []) {a : Approval}
    (ha : a ∈ listApprovals db limit (some status))
    (hshort : (listApprovals db' limit' (some status)).length < limit') :
    a ∈ listApprovals db' limit' (some status) := by
  obtain ⟨hmem, hstatus⟩ := mem_of_mem_listApprovals ha
  obtain rfl : status = a.status := by simpa using hstatus
  obtain ⟨a', ha', hlater⟩ := h.decided a hmem
  obtain rfl := hlater.final hfinal
  exact mem_listApprovals_of_short hshort ha' (.inr rfl)

/-! ## Runs -/

/-- Between any two states of a run of the services the tables only grow: accounts, ledger, trips,
expenses and statement rows stay as they were written but for the match, an approval keeps its trip
and moves along allowed transitions, and a ledger transaction once read reads the same. -/
theorem books_only_grow {tr : List (Db × Op)} (hrun : Run (ServeStep env settings) db tr db') :
    ∀ p ∈ tr, Grown p.1 db' ∧
      ∀ i shown, getTransaction p.1 i = .ok shown → getTransaction db' i = .ok shown := by
  have hgrown : ∀ p ∈ tr, Grown p.1 db' := by
    refine hrun.since (fun _ _ _ => Grown.trans) ?_
    rintro db op _ rfl
    exact grown_serve ..
  have hkeeps : ∀ p ∈ tr, Keeps p.1 db' := by
    refine hrun.since (fun _ _ _ => Keeps.trans) ?_
    rintro db op _ rfl
    exact keeps_serve env settings db op
  refine fun p hp => ⟨hgrown p hp, fun i shown hshown => ?_⟩
  simp only [getTransaction, Except.bind_eq_ok, Except.pure_eq_ok, required_eq_ok] at hshown ⊢
  obtain ⟨tx, htx, rfl⟩ := hshown
  refine ⟨tx, (hgrown p hp).ledgerTransactions.get htx, ?_⟩
  rw [(hkeeps p hp tx (Table.get_eq_some.1 htx).1).2]

def demoRejected : Db :=
  [.createTravelRequest demoTrip, .transitionApproval 1 .rejected none none].foldl
    (serve demoEnv {}) Db.empty

/-- A rejected trip cannot be approved after all. -/
theorem books_only_grow_rejected :
    Grown demoRejected (serve demoEnv {} demoRejected (.transitionApproval 1 .approved none none)) ∧
      demoRejected.approvals.rows.map (·.status) = [.rejected] := by
  have hrun : Run (ServeStep demoEnv {}) demoRejected _ _ :=
    Run.nil.snoc (e := Op.transitionApproval 1 .approved none none) rfl
  exact ⟨(books_only_grow hrun _ (List.mem_singleton_self _)).1, by decide +kernel⟩

end ReckonFlow
