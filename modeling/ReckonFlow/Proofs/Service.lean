import ReckonFlow.Proofs.Reconciliation
import ReckonFlow.Spec.Service

/-! What each service operation did when it succeeded, and when its session commits. -/

namespace ReckonFlow

open Books Decimal

variable {env : Env} {settings : Settings} {db db' : Db} {op : Op}

/-- A session commits when the transaction of every entry it added balances. -/
theorem commit_eq_ok {after : Db} : commit db after = .ok db' ↔
    after = db' ∧ ∀ e ∈ after.ledgerEntries.rows, db.ledgerEntries.next ≤ e.id →
      checkBalanced after e.transactionId = .ok () := by
  simp only [commit, Except.bind_eq_ok, Except.pure_eq_ok]
  constructor
  · rintro ⟨⟨⟩, hchecks, rfl⟩
    refine ⟨rfl, fun e he hnew => Except.forM_eq_ok.1 hchecks _ (List.mem_map.2 ⟨e, ?_, rfl⟩)⟩
    exact List.mem_filter.2 ⟨he, decide_eq_true hnew⟩
  · rintro ⟨rfl, hchecks⟩
    refine ⟨⟨⟩, Except.forM_eq_ok.2 fun i hi => ?_, rfl⟩
    obtain ⟨e, he, rfl⟩ := List.mem_map.1 hi
    obtain ⟨he, hnew⟩ := List.mem_filter.1 he
    exact hchecks e he (of_decide_eq_true hnew)

theorem commit_ok {after : Db} (h : commit db after = .ok db') : db' = after :=
  (commit_eq_ok.1 h).1.symm

theorem serve_cases (env : Env) (settings : Settings) (db : Db) (op : Op) :
    serve env settings db op = db ∨ op.run env settings db = .ok (serve env settings db op) := by
  unfold serve
  cases hrun : op.run env settings db with
  | error e => exact .inl rfl
  | ok after =>
    cases hcommit : commit db after with
    | error e => exact .inl (by simp only [bind, Except.bind, hcommit])
    | ok db' =>
      obtain rfl := commit_ok hcommit
      exact .inr (by simp only [bind, Except.bind, hcommit])

/-- A session without new ledger entries commits. -/
theorem serve_of_run (h : op.run env settings db = .ok db')
    (hentries : db'.ledgerEntries = db.ledgerEntries) : serve env settings db op = db' := by
  have hcommit : commit db db' = .ok db' := by
    refine commit_eq_ok.2 ⟨rfl, fun e he hnew => ?_⟩
    rw [hentries] at he
    exact absurd (db.ledgerEntries.fresh e he) (not_lt.2 hnew)
  unfold serve
  simp only [h, bind, Except.bind, hcommit]

/-! ## Trips, approvals, expenses -/

theorem createTravelRequest_ok {f : TripFields} (h : createTravelRequest env db f = .ok db') :
    ∃ (mk : Id → TravelRequest) (hmk : ∀ i, (mk i).id = i),
      (∀ i, varchar "currency" 3 (env.upper f.currency) = .ok (mk i).currency) ∧ db' = { db with
        travelRequests := db.travelRequests.insert mk hmk
        approvals := db.approvals.insert (⟨·, db.travelRequests.next, .pending, none, none⟩)
          fun _ => rfl } := by
  simp only [createTravelRequest, Except.bind_eq_ok] at h
  obtain ⟨_, -, _, -, _, -, _, -, _, hcurrency, h⟩ := h
  split_ifs at h
  exact ⟨_, _, fun _ => hcurrency, (Except.ok.inj h).symm⟩

theorem writeDecision_ok {approvalId : Id} {target : ApprovalStatus} {reviewer notes : Option String}
    (h : writeDecision db approvalId target reviewer notes = .ok db') :
    ∃ reviewer notes, db' = { db with
      approvals := db.approvals.modify approvalId (·.decided target reviewer notes)
        (Approval.decided_id target reviewer notes) } := by
  simp only [writeDecision, Except.bind_eq_ok, Except.pure_eq_ok] at h
  obtain ⟨_, -, _, -, rfl⟩ := h
  exact ⟨_, _, rfl⟩

theorem accountByCode_ok {code : String} {a : Account} (h : accountByCode db code = .ok a) :
    a ∈ db.accounts.rows ∧ a.code = code := by
  unfold accountByCode at h
  split at h
  · rename_i b hb
    obtain rfl := Except.ok.inj h
    exact ⟨List.mem_of_find?_eq_some hb, by simpa using List.find?_some hb⟩
  · cases h

theorem sum_hasScale {l : List ℚ} (h : ∀ x ∈ l, HasScale 4 x) : HasScale 4 l.sum := by
  induction l with
  | nil => exact HasScale.zero 4
  | cons x l ih =>
    rw [List.sum_cons]
    exact (h x (List.mem_cons_self ..)).add (ih fun y hy => h y (List.mem_cons_of_mem _ hy))

theorem checkBalanced_eq_ok {txId : Id} :
    checkBalanced db txId = .ok () ↔ total LedgerEntry.amount (fun _ => True) (entriesOf db txId) = 0 := by
  have htotal : total LedgerEntry.amount (fun _ => True) (entriesOf db txId) =
      ((entriesOf db txId).map (·.debit.value)).sum - ((entriesOf db txId).map (·.credit.value)).sum := by
    rw [show LedgerEntry.amount = fun e => e.debit.value - e.credit.value from rfl, total_sub]
    simp [total]
  have hscale : ∀ f : LedgerEntry → Money, HasScale 4 ((entriesOf db txId).map (f ·|>.value)).sum := by
    intro f
    refine sum_hasScale fun x hx => ?_
    obtain ⟨e, -, rfl⟩ := List.mem_map.1 hx
    exact (f e).value_hasScale
  rw [htotal]
  simp only [checkBalanced, Except.bind_eq_ok, numeric_eq_ok, ensure_eq_ok]
  constructor
  · rintro ⟨x, hx, hzero⟩
    rw [← Numeric.value_of_ofRat? ((hscale _).sub (hscale _)) hx, Numeric.value, hzero]
    simp
  · intro hzero
    rw [hzero]
    exact ⟨⟨0, by norm_num⟩, by decide +kernel, rfl⟩

theorem payable_hasScale (db : Db) (trip : TravelRequest) : HasScale 4 (payable db trip) := by
  simp only [payable]
  split_ifs
  · exact trip.estimatedAmount.value_hasScale
  · refine sum_hasScale fun x hx => ?_
    obtain ⟨e, -, rfl⟩ := List.mem_map.1 hx
    exact e.amount.value_hasScale

/-- The payment of a trip, priced from the tables `seen`. -/
structure Priced (db seen : Db) (approval : Approval) (trip : TravelRequest) (travel cash : Account)
    (posting : Posting) : Prop where
  trip_row : db.travelRequests.get approval.travelRequestId = some trip
  travel_row : travel ∈ db.accounts.rows
  travel_code : travel.code = travelCode
  cash_row : cash ∈ db.accounts.rows
  cash_code : cash.code = cashCode
  lines : posting.lines = paymentLines travel cash trip (payable seen trip)

theorem paymentPosting_ok {approval : Approval} {posting : Posting}
    (h : paymentPosting db approval = .ok posting) :
    ∃ trip travel cash, Priced db db approval trip travel cash posting := by
  simp only [paymentPosting, Except.bind_eq_ok, Except.pure_eq_ok] at h
  obtain ⟨trip, htrip, cash, hcash, travel, htravel, rfl⟩ := h
  obtain ⟨hcash, hcashCode⟩ := accountByCode_ok hcash
  obtain ⟨htravel, htravelCode⟩ := accountByCode_ok htravel
  exact ⟨trip, travel, cash, required_eq_ok.1 htrip, htravel, htravelCode, hcash, hcashCode, rfl⟩

theorem postPaymentLedger_ok {approval : Approval} {txId : Id}
    (h : postPaymentLedger env db approval = .ok (db', txId)) :
    ∃ trip travel cash posting, Priced db db approval trip travel cash posting ∧
      Posted env db db' txId (posting.lines.map (parsedOf env)) := by
  simp only [postPaymentLedger, Except.bind_eq_ok] at h
  obtain ⟨posting, hposting, h⟩ := h
  obtain ⟨trip, travel, cash, hpriced⟩ := paymentPosting_ok hposting
  exact ⟨trip, travel, cash, posting, hpriced, createBalancedTransaction_ok h⟩

theorem transitionApproval_ok {approvalId : Id} {target : ApprovalStatus}
    {reviewer notes : Option String}
    (h : transitionApproval env db approvalId target reviewer notes = .ok db') :
    ∃ approval posted, db.approvals.get approvalId = some approval ∧
      target ∈ allowedTransitions approval.status ∧
      (if target = .paid then ∃ txId, postPaymentLedger env db approval = .ok (posted, txId)
        else posted = db) ∧
      writeDecision posted approvalId target reviewer notes = .ok db' := by
  simp only [transitionApproval, checkTransition, Except.bind_eq_ok, ensure_eq_ok,
    required_eq_ok] at h
  obtain ⟨approval, happroval, -, hallowed, posted, hposted, hwrite⟩ := h
  refine ⟨approval, posted, happroval, hallowed, ?_, hwrite⟩
  split_ifs at hposted ⊢
  · obtain ⟨⟨_, txId⟩, hp, rfl⟩ := Except.map_eq_ok.1 hposted
    exact ⟨txId, hp⟩
  · exact (Except.ok.inj hposted).symm

theorem insertExpense_ok {f : ExpenseFields} (h : insertExpense env db f = .ok db') :
    ∃ (mk : Id → Expense) (hmk : ∀ i, (mk i).id = i), (∀ i, (mk i).matchStatus = .unmatched) ∧
      db' = { db with expenses := db.expenses.insert mk hmk } := by
  simp only [insertExpense, Except.bind_eq_ok] at h
  obtain ⟨_, -, _, -, _, -, _, -, h⟩ := h
  split_ifs at h
  exact ⟨_, _, fun _ => rfl, (Except.ok.inj h).symm⟩

theorem createExpense_ok {f : ExpenseFields} (h : createExpense env db f = .ok db') :
    insertExpense env db f = .ok db' := by
  unfold createExpense at h
  split at h
  · obtain ⟨_, -, h⟩ := Except.bind_eq_ok.1 h
    exact h
  · exact h

/-! ## Imports -/

/-- An import adds unmatched rows and nothing else. -/
structure Imports (db db' : Db) : Prop where
  rest : db' = { db with bankTransactions := db'.bankTransactions }
  kept : ∀ r ∈ db.bankTransactions.rows, r ∈ db'.bankTransactions.rows
  added : ∀ r ∈ db'.bankTransactions.rows,
    r ∈ db.bankTransactions.rows ∨ (r.matchStatus = .unmatched ∧ r.matchedExpenseId = none)

theorem Imports.insert {d : Db} (h : Imports db d) (v : BankValues) :
    Imports db (insertBankRow d v) where
  rest := by
    rw [h.rest]
    rfl
  kept := fun r hr => Table.mem_insert.2 (.inl (h.kept r hr))
  added := by
    intro r hr
    rcases Table.mem_insert.1 hr with hr | rfl
    · exact h.added r hr
    · exact .inr ⟨rfl, rfl⟩

theorem importRow_db {st st' : ImportState} {row : BankCsvRow} (h : importRow env st row = .ok st') :
    st'.db = st.db ∨ ∃ v, st'.db = insertBankRow st.db v := by
  unfold importRow at h
  split at h
  · obtain rfl := Except.ok.inj h
    exact .inl rfl
  · split_ifs at h
    · obtain rfl := Except.ok.inj h
      exact .inl rfl
    · obtain ⟨v, -, rfl⟩ := Except.map_eq_ok.1 h
      split_ifs
      · exact .inl rfl
      · exact .inr ⟨v, rfl⟩

theorem insertPostgres_imports {parsed : List BankCsvRow} {n m : ℕ}
    (h : insertPostgres env db parsed = .ok (db', n, m)) : Imports db db' := by
  simp only [insertPostgres, Except.bind_eq_ok, Except.pure_eq_ok, Prod.mk.injEq] at h
  obtain ⟨st, hloop, _, hflush, rfl, -, -⟩ := h
  have hst : Imports db st.db := by
    refine Except.foldlM_invariant (P := fun st : ImportState => Imports db st.db) ?_
      ⟨rfl, fun _ hr => hr, fun _ hr => .inl hr⟩ hloop
    intro st row st' hst hrow
    rcases importRow_db hrow with heq | ⟨v, heq⟩
    · rw [heq]; exact hst
    · rw [heq]; exact hst.insert v
  refine Except.foldlM_invariant (P := Imports db) ?_ hst hflush
  intro d row d' hd hrow
  simp only [flushRow, Except.bind_eq_ok, Except.pure_eq_ok] at hrow
  obtain ⟨v, -, _, -, rfl⟩ := hrow
  exact hd.insert v

/-! ## A setting for concrete runs -/

def demoDate : Date := ⟨739509, by decide⟩

/-- On text without ASCII letters or digits every embedding is the zero vector. -/
def demoEnv : Env where
  tokenSetRatio := fun _ _ => 100
  textEmbedding := fun _ => List.replicate 384 0
  cosineSimilarity := fun _ _ => 0
  upperChar := fun c => [c.toUpper]
  upper_fixed := by simp

def demoScan : Scan := ⟨id, .refl⟩

end ReckonFlow
