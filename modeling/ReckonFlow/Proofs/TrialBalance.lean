import ReckonFlow.Proofs.Service

/-! The books balance in every reachable state: accounts are in upper-case currencies,
entries are in their account's currency, and every transaction balances on its own. -/

namespace ReckonFlow

open Books Decimal Lts

variable {env : Env} {settings : Settings} {db db' : Db} {op : Op}

/-! ## The invariant -/

structure Balanced (env : Env) (db : Db) : Prop where
  account_upper : ∀ a ∈ db.accounts.rows,
    env.upper a.currency = a.currency ∧ varchar "currency" 3 a.currency = .ok a.currency
  entry_account : ∀ e ∈ db.ledgerEntries.rows,
    ∃ a ∈ db.accounts.rows, a.id = e.accountId ∧ e.currency = a.currency
  entry_transaction : EntriesPosted db
  transaction_balanced : ∀ t ∈ db.ledgerTransactions.rows, 2 ≤ (entriesOf db t.id).length ∧
    ∀ c, total LedgerEntry.amount (·.currency = c) (entriesOf db t.id) = 0

theorem Balanced.empty : Balanced env Db.empty := by
  constructor <;> simp [Db.empty, EntriesPosted]

theorem Balanced.frame (h : Balanced env db) (ha : db'.accounts = db.accounts)
    (ht : db'.ledgerTransactions = db.ledgerTransactions)
    (he : db'.ledgerEntries = db.ledgerEntries) : Balanced env db' := by
  constructor
  · rw [ha]; exact h.account_upper
  · rw [ha, he]; exact h.entry_account
  · unfold EntriesPosted
    rw [ht, he]
    exact h.entry_transaction
  · unfold entriesOf
    rw [ht, he]
    exact h.transaction_balanced

theorem Balanced.insert_account (h : Balanced env db) {code name currency : String}
    (hupper : env.upper currency = currency)
    (hstored : varchar "currency" 3 currency = .ok currency) :
    Balanced env { db with
      accounts := db.accounts.insert (⟨·, code, name, currency⟩) fun _ => rfl } where
  account_upper := by
    intro a ha
    rcases Table.mem_insert.1 ha with ha | rfl
    · exact h.account_upper a ha
    · exact ⟨hupper, hstored⟩
  entry_account := by
    intro e he
    obtain ⟨a, ha, hae⟩ := h.entry_account e he
    exact ⟨a, Table.mem_insert.2 (.inl ha), hae⟩
  entry_transaction := h.entry_transaction
  transaction_balanced := h.transaction_balanced

/-- A line's currency is the stored currency of its account. -/
theorem Posted.line_currency {txId : Id} {lines : List ParsedLine} (h : Posted env db db' txId lines)
    (hb : Balanced env db) {line : ParsedLine} (hl : line ∈ lines) :
    varchar "currency" 3 line.currency = .ok line.currency ∧
      ∃ a ∈ db.accounts.rows, a.id = line.accountId ∧ line.currency = a.currency := by
  obtain ⟨a, ha, hcur⟩ := h.accounts line hl
  obtain ⟨hmem, hid⟩ := Table.get_eq_some.1 ha
  obtain ⟨hupper, hstored⟩ := hb.account_upper a hmem
  rw [hcur, hupper]
  exact ⟨hstored, a, hmem, hid, rfl⟩

theorem Balanced.post {txId : Id} {lines : List ParsedLine} (h : Balanced env db)
    (hp : Posted env db db' txId lines) (hexact : ExactLines lines) : Balanced env db' := by
  have haccounts : db'.accounts = db.accounts := by rw [hp.rest]
  obtain ⟨new, hnew, hrows⟩ := hp.entries
  obtain ⟨reference, description, htx⟩ := hp.mem_transactions
  constructor
  · rw [haccounts]
    exact h.account_upper
  · rw [haccounts, hrows]
    intro e he
    rcases List.mem_append.1 he with he | he
    · exact h.entry_account e he
    · obtain ⟨line, hl, hline⟩ := exists_line hnew he
      obtain ⟨hstored, a, ha, hid, hcur⟩ := hp.line_currency h hl
      refine ⟨a, ha, hid.trans hline.account.symm, ?_⟩
      rw [← Except.ok.inj (hstored.symm.trans hline.currency), hcur]
  · exact hp.entriesPosted h.entry_transaction
  · intro t ht
    rcases (htx t).1 ht with ht | rfl
    · rw [hp.entriesOf_old (hp.ne_txId ht)]
      exact h.transaction_balanced t ht
    · have hstores := hp.entriesOf_new h.entry_transaction
      refine ⟨hstores.length_eq ▸ hp.two, fun c => ?_⟩
      rw [total_stored hstores hexact.debit_scale hexact.credit_scale
        fun l hl => (hp.line_currency h hl).1, hp.balanced hexact c, sub_self]

/-! ## Payments are exact -/

/-- An amount that fits the column is far from the 28 digits of the context. -/
theorem digits_of_stored {q : ℚ} {x : Money} (hq : HasScale 4 q) (h : Numeric.ofRat? q = some x) :
    |q| * 10 ^ 4 < 10 ^ 28 := by
  rw [← Numeric.value_of_ofRat? hq h]
  exact x.abs_value_lt.trans (by norm_num)

/-- A debit and a credit of one amount in one currency. -/
theorem exact_pair {x y : Id} {q : ℚ} {currency : String} {m m' : Option String}
    (hs : HasScale 4 q) (hd : |q| * 10 ^ 4 < 10 ^ 28) :
    ExactLines [⟨x, q, 0, currency, m⟩, ⟨y, 0, q, currency, m'⟩] := by
  have h0 : |(0 : ℚ)| * 10 ^ 4 < 10 ^ 28 := by norm_num
  have hif : ∀ c, |if currency = c then q else 0| * 10 ^ 4 < 10 ^ 28 := by
    intro c
    split_ifs
    · exact hd
    · exact h0
  constructor
  · simp [hs, HasScale.zero]
  · simp [hs, HasScale.zero]
  · rintro (_ | _ | n) c
    · exact h0
    · simpa [debitsIn, total_cons] using hif c
    · simpa [debitsIn, total_cons] using hif c
  · rintro (_ | _ | n) c
    · exact h0
    · simp [creditsIn, total_cons]
    · simpa [creditsIn, total_cons] using hif c

/-! ## Whole runs -/

variable (env) in
/-- Amounts as the callers in the repository give them. -/
def Op.Exact : Op → Prop
  | .createBalancedTransaction _ _ lines => ExactLines (lines.map (parsedOf env))
  | _ => True

/-- What an operation can do to accounts and ledger: nothing, open an account, or post. -/
theorem run_ledger (hrun : op.run env settings db = .ok db') :
    (db'.accounts = db.accounts ∧ db'.ledgerTransactions = db.ledgerTransactions ∧
      db'.ledgerEntries = db.ledgerEntries) ∨
    (∃ code name currency storedCode storedName storedCurrency,
      op = .createAccount code name currency ∧
      varchar "currency" 3 (env.upper currency) = .ok storedCurrency ∧
      (∀ a ∈ db.accounts.rows, a.code ≠ storedCode) ∧
      db' = { db with accounts :=
        db.accounts.insert (⟨·, storedCode, storedName, storedCurrency⟩) fun _ => rfl }) ∨
    ∃ posted txId lines, Posted env db posted txId lines ∧
      db' = { posted with approvals := db'.approvals } ∧ (op.Exact env → ExactLines lines) := by
  cases op with
  | createAccount code name currency =>
    obtain ⟨storedCode, storedName, storedCurrency, hstored, hfree, rfl⟩ := createAccount_ok hrun
    exact .inr (.inl ⟨_, _, _, storedCode, storedName, storedCurrency, rfl, hstored, hfree, rfl⟩)
  | createBalancedTransaction reference description lines =>
    obtain ⟨⟨posted, txId⟩, hpost, rfl⟩ := Except.map_eq_ok.1 hrun
    exact .inr (.inr ⟨posted, txId, _, createBalancedTransaction_ok hpost, rfl, id⟩)
  | createTravelRequest f =>
    obtain ⟨_, _, -, rfl⟩ := createTravelRequest_ok hrun
    exact .inl ⟨rfl, rfl, rfl⟩
  | createExpense f =>
    obtain ⟨_, _, -, rfl⟩ := insertExpense_ok (createExpense_ok hrun)
    exact .inl ⟨rfl, rfl, rfl⟩
  | transitionApproval approvalId target reviewer notes =>
    obtain ⟨approval, posted, -, -, hposted, hwrite⟩ := transitionApproval_ok hrun
    obtain ⟨_, _, rfl⟩ := writeDecision_ok hwrite
    split_ifs at hposted
    · obtain ⟨txId, hp⟩ := hposted
      obtain ⟨trip, travel, cash, posting, hpriced, hpost⟩ := postPaymentLedger_ok hp
      rw [hpriced.lines] at hpost
      refine .inr (.inr ⟨posted, txId, _, hpost, rfl, fun _ => ?_⟩)
      obtain ⟨new, hnew, -⟩ := hpost.entries
      have hs := payable_hasScale db trip
      cases hnew with
      | cons hline _ => exact exact_pair hs (digits_of_stored hs hline.debit)
    · rw [hposted]
      exact .inl ⟨rfl, rfl, rfl⟩
  | importCsv parsed =>
    obtain ⟨⟨_, n, m⟩, himport, rfl⟩ := Except.map_eq_ok.1 hrun
    rw [(insertPostgres_imports himport).rest]
    exact .inl ⟨rfl, rfl, rfl⟩
  | suggestMatches scan e limit window tolerance =>
    obtain ⟨_, -, rfl⟩ := Except.map_eq_ok.1 hrun
    exact .inl ⟨rfl, rfl, rfl⟩
  | confirmMatch e b =>
    obtain ⟨⟨_, i⟩, hconfirm, rfl⟩ := Except.map_eq_ok.1 hrun
    obtain ⟨_, _, -, -, -, -, -, rfl, -⟩ := confirmMatch_ok hconfirm
    exact .inl ⟨rfl, rfl, rfl⟩
  | autoReconcile scan e =>
    obtain ⟨⟨_, choice⟩, hauto, rfl⟩ := Except.map_eq_ok.1 hrun
    obtain ⟨suggested, -, hsettle⟩ := autoReconcile_ok hauto
    have hcase := (settle_ok hsettle).2
    split at hcase
    · obtain ⟨_, -, rfl⟩ := flagForReview_ok hcase
      exact .inl ⟨rfl, rfl, rfl⟩
    · obtain ⟨_, _, -, -, -, -, -, rfl, -⟩ := confirmMatch_ok hcase
      exact .inl ⟨rfl, rfl, rfl⟩

theorem Balanced.serve (h : Balanced env db) (hok : op.Exact env) :
    Balanced env (serve env settings db op) := by
  rcases serve_cases env settings db op with heq | hrun
  · rw [heq]
    exact h
  · rcases run_ledger hrun with ⟨ha, ht, he⟩ |
      ⟨_, _, _, _, _, _, rfl, hstored, -, heq⟩ | ⟨posted, txId, lines, hpost, heq, hexact⟩
    · exact h.frame ha ht he
    · rw [heq]
      exact h.insert_account (upper_stored hstored) (varchar_stored hstored)
    · rw [heq]
      exact (h.post hpost (hexact hok)).frame rfl rfl rfl

theorem keeps_serve (env : Env) (settings : Settings) (db : Db) (op : Op) :
    Keeps db (serve env settings db op) := by
  intro t ht
  rcases serve_cases env settings db op with heq | hrun
  · rw [heq]
    exact ⟨ht, rfl⟩
  · rcases run_ledger hrun with ⟨-, htx, he⟩ | ⟨_, _, _, _, _, _, -, -, -, heq⟩ |
      ⟨posted, txId, lines, hpost, heq, -⟩
    · unfold entriesOf
      rw [htx, he]
      exact ⟨ht, rfl⟩
    · rw [heq]
      exact ⟨ht, rfl⟩
    · rw [heq]
      exact hpost.keeps t ht

/-! ## Balances -/

/-- The exact balance of an account: debits less credits in its currency. -/
def ledgerTotal (db : Db) (a : Account) : ℚ :=
  total LedgerEntry.amount (fun e => e.accountId = a.id ∧ e.currency = a.currency)
    db.ledgerEntries.rows

theorem ledgerTotal_hasScale (a : Account) : HasScale 4 (ledgerTotal db a) := by
  refine sum_hasScale fun x hx => ?_
  obtain ⟨e, -, rfl⟩ := List.mem_map.1 hx
  exact e.debit.value_hasScale.sub e.credit.value_hasScale

/-- Within 28 digits `account_balance` returns the exact balance. -/
theorem accountBalance_exact {a : Account} (ha : a ∈ db.accounts.rows)
    (hd : |ledgerTotal db a| * 10 ^ 4 < 10 ^ 28) : accountBalance db a.id = .ok (ledgerTotal db a) := by
  have hget : getAccount db a.id = .ok a := required_eq_ok.2 (Table.get_of_mem ha)
  have hsum : (((db.ledgerEntries.rows.filter fun e => e.accountId = a.id ∧ e.currency = a.currency).map
      (·.debit.value)).sum + -((db.ledgerEntries.rows.filter fun e =>
        e.accountId = a.id ∧ e.currency = a.currency).map (·.credit.value)).sum) = ledgerTotal db a := by
    rw [← sub_eq_add_neg]
    exact total_sub.symm
  unfold accountBalance
  rw [hget]
  show (Except.ok (decimalAdd _ _) : Except Error ℚ) = _
  rw [decimalAdd, Decimal.add, hsum, roundDigits_exact (ledgerTotal_hasScale a) hd]

theorem Balanced.trial_balance (h : Balanced env db) (c : String) :
    ((db.accounts.rows.filter (·.currency = c)).map (ledgerTotal db)).sum = 0 := by
  -- accounts by id, each with the currency of its row
  set denominated : Id → String := fun i => ((db.accounts.get i).map (·.currency)).getD ""
  have hden : ∀ a ∈ db.accounts.rows, denominated a.id = a.currency := by
    intro a ha
    simp only [denominated, Table.get_of_mem ha, Option.map_some, Option.getD_some]
  have haccount : ∀ e ∈ db.ledgerEntries.rows, e.accountId ∈ db.accounts.rows.map (·.id) := by
    intro e he
    obtain ⟨a, ha, hid, -⟩ := h.entry_account e he
    exact List.mem_map.2 ⟨a, ha, hid⟩
  have hcurrency : ∀ e ∈ db.ledgerEntries.rows, e.currency = denominated e.accountId := by
    intro e he
    obtain ⟨a, ha, hid, hcur⟩ := h.entry_account e he
    rw [← hid, hden a ha, hcur]
  have htransaction : ∀ e ∈ db.ledgerEntries.rows,
      e.transactionId ∈ db.ledgerTransactions.rows.map (·.id) := by
    intro e he
    obtain ⟨t, ht, hid⟩ := h.entry_transaction e he
    exact List.mem_map.2 ⟨t, ht, hid⟩
  have hbalanced : ∀ i ∈ db.ledgerTransactions.rows.map (·.id), ∀ c,
      total LedgerEntry.amount (fun e => e.currency = c ∧ e.transactionId = i)
        db.ledgerEntries.rows = 0 := by
    intro i hi c
    obtain ⟨t, ht, rfl⟩ := List.mem_map.1 hi
    have hzero := (h.transaction_balanced t ht).2 c
    unfold entriesOf at hzero
    rw [total_filter] at hzero
    rw [← hzero]
    exact total_congr fun e _ => and_comm
  have hbooks := Books.trial_balance _ _ _ LedgerEntry.amount LedgerEntry.accountId
    LedgerEntry.transactionId LedgerEntry.currency denominated db.accounts.nodup
    db.ledgerTransactions.nodup haccount hcurrency htransaction hbalanced c
  rw [List.filter_map, List.map_map] at hbooks
  rw [← hbooks]
  have hfilter : db.accounts.rows.filter (·.currency = c) =
      db.accounts.rows.filter ((denominated · = c) ∘ Account.id) := by
    apply List.filter_congr
    intro a ha
    simp [hden a ha]
  rw [← hfilter]
  congr 1
  apply List.map_congr_left
  intro a ha
  simp only [Function.comp_apply, hden a (List.mem_of_mem_filter ha)]
  rfl

/-- The books balance in every state reached from an empty database. In each currency the
account balances add up to zero; every transaction has two entries or more, one-sided, in
the currency of their accounts, with equal debits and credits in each currency; and it has
the entries it had in every earlier state. -/
theorem books_balance {tr : List (Db × Op)} (hrun : Run (ServeStep env settings) Db.empty tr db)
    (hexact : ∀ p ∈ tr, p.2.Exact env)
    (hdigits : ∀ a ∈ db.accounts.rows, |ledgerTotal db a| * 10 ^ 4 < 10 ^ 28) :
    (∀ c, ∃ balances, (db.accounts.rows.filter (·.currency = c)).mapM
        (fun a => accountBalance db a.id) = .ok balances ∧ balances.sum = 0) ∧
      (∀ t ∈ db.ledgerTransactions.rows, 2 ≤ (entriesOf db t.id).length ∧
        (∀ e ∈ entriesOf db t.id,
          ((0 < e.debit.value ∧ e.credit.value = 0) ∨ (0 < e.credit.value ∧ e.debit.value = 0)) ∧
            ∃ a, db.accounts.get e.accountId = some a ∧ e.currency = a.currency) ∧
        ∀ c, total (·.debit.value) (·.currency = c) (entriesOf db t.id) =
          total (·.credit.value) (·.currency = c) (entriesOf db t.id)) ∧
      ∀ p ∈ tr, ∀ t ∈ p.1.ledgerTransactions.rows,
        t ∈ db.ledgerTransactions.rows ∧ entriesOf db t.id = entriesOf p.1 t.id := by
  have h : Balanced env db := hrun.invariant_of Balanced.empty
    (fun db op db' h (hok : op.Exact env) (hs : ServeStep env settings db op db') =>
      hs ▸ h.serve hok) hexact
  refine ⟨fun c => ⟨_, Except.mapM_of_forall fun a ha => ?_, h.trial_balance c⟩, fun t ht => ⟨?_, ?_, ?_⟩, ?_⟩
  · have ha := List.mem_of_mem_filter ha
    exact accountBalance_exact ha (hdigits a ha)
  · exact (h.transaction_balanced t ht).1
  · intro e he
    obtain ⟨a, ha, hid, hcur⟩ := h.entry_account e (List.mem_of_mem_filter he)
    exact ⟨e.oneSided.1, a, hid ▸ Table.get_of_mem ha, hcur⟩
  · intro c
    rw [← sub_eq_zero, ← total_sub]
    exact (h.transaction_balanced t ht).2 c
  · refine hrun.since (r := Keeps) (fun _ _ _ => Keeps.trans) ?_
    rintro db op _ rfl
    exact keeps_serve env settings db op

def demoTrip : TripFields where
  employeeName := "A"
  destination := "B"
  purpose := "C"
  startDate := demoDate
  endDate := demoDate
  estimatedAmount := 980

def demoRefund : List LedgerLine :=
  [{ accountId := 1, debit := some 10 }, { accountId := 2, credit := some 10 }]

/-- A trip approved and paid, a manual post, and a post refused for its reference. -/
def demoPayments : List Op :=
  [.createAccount "CASH" "Cash" "eur", .createAccount "TRAVEL" "Travel expenses" "EUR",
    .createTravelRequest demoTrip, .transitionApproval 1 .approved none none,
    .transitionApproval 1 .paid none none, .createBalancedTransaction "T-1" "Refund" demoRefund,
    .createBalancedTransaction "T-1" "Again" demoRefund]

def demoPaid : Db := demoPayments.foldl (serve demoEnv {}) Db.empty

theorem books_balance_paid : demoPaid.ledgerTransactions.rows.map (·.reference) = ["PAY-1", "T-1"] ∧
    ∃ balances, (demoPaid.accounts.rows.filter (·.currency = "EUR")).mapM
      (fun a => accountBalance demoPaid a.id) = .ok balances ∧ balances.sum = 0 := by
  have hrun : Run (ServeStep demoEnv {}) Db.empty _ demoPaid :=
    ((((((Run.nil.snoc rfl).snoc rfl).snoc rfl).snoc rfl).snoc rfl).snoc rfl).snoc rfl
  have hrefund : ExactLines (demoRefund.map (parsedOf demoEnv)) :=
    exact_pair ⟨100000, by norm_num⟩ (by norm_num)
  have hexact : ∀ op ∈ demoPayments, op.Exact demoEnv := by
    simp only [demoPayments, List.mem_cons, List.not_mem_nil, or_false]
    rintro op (rfl | rfl | rfl | rfl | rfl | rfl | rfl)
    · trivial
    · trivial
    · trivial
    · trivial
    · trivial
    · exact hrefund
    · exact hrefund
  refine ⟨by decide +kernel, (books_balance hrun ?_ (by decide +kernel)).1 "EUR"⟩
  intro p hp
  refine hexact p.2 ?_
  simp only [List.nil_append, List.cons_append, List.mem_cons, List.not_mem_nil, or_false] at hp
  rcases hp with rfl | rfl | rfl | rfl | rfl | rfl | rfl <;> simp [demoPayments]

end ReckonFlow
