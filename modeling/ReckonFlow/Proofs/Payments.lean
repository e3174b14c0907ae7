import ReckonFlow.Proofs.TrialBalance

/-! Paying an approved trip: what the posting needs, and what of it every reachable state
guarantees. -/

namespace ReckonFlow

open Books Decimal Lts

variable {env : Env} {settings : Settings} {db db' : Db} {op : Op}

/-! ## What every state guarantees -/

/-- Codes are unique, currencies stored as compared, and rows refer to rows. -/
structure Grounded (env : Env) (db : Db) : Prop where
  account_code : (db.accounts.rows.map (·.code)).Nodup
  account_upper : ∀ a ∈ db.accounts.rows,
    env.upper a.currency = a.currency ∧ varchar "currency" 3 a.currency = .ok a.currency
  entry_transaction : EntriesPosted db
  approval_trip : ∀ a ∈ db.approvals.rows, ∃ t ∈ db.travelRequests.rows, t.id = a.travelRequestId

theorem Grounded.empty : Grounded env Db.empty := by
  constructor <;> simp [Db.empty, EntriesPosted]

/-- What an operation can do to trips and approvals: nothing, submit a trip, or decide. -/
theorem run_travel (hrun : op.run env settings db = .ok db') :
    (db'.travelRequests = db.travelRequests ∧ db'.approvals = db.approvals) ∨
    (∃ mk hmk, db'.travelRequests = db.travelRequests.insert mk hmk ∧
      db'.approvals = db.approvals.insert (⟨·, db.travelRequests.next, .pending, none, none⟩)
        fun _ => rfl) ∨
    ∃ approvalId target reviewer notes, db'.travelRequests = db.travelRequests ∧
      db'.approvals = db.approvals.modify approvalId (·.decided target reviewer notes)
        (Approval.decided_id target reviewer notes) := by
  cases op with
  | createAccount code name currency =>
    obtain ⟨_, _, _, -, -, rfl⟩ := createAccount_ok hrun
    exact .inl ⟨rfl, rfl⟩
  | createBalancedTransaction reference description lines =>
    obtain ⟨⟨posted, txId⟩, hpost, rfl⟩ := Except.map_eq_ok.1 hrun
    rw [(createBalancedTransaction_ok hpost).rest]
    exact .inl ⟨rfl, rfl⟩
  | createTravelRequest f =>
    obtain ⟨mk, hmk, -, rfl⟩ := createTravelRequest_ok hrun
    exact .inr (.inl ⟨mk, hmk, rfl, rfl⟩)
  | createExpense f =>
    obtain ⟨_, _, -, rfl⟩ := insertExpense_ok (createExpense_ok hrun)
    exact .inl ⟨rfl, rfl⟩
  | transitionApproval approvalId target reviewer notes =>
    obtain ⟨approval, posted, -, -, hposted, hwrite⟩ := transitionApproval_ok hrun
    obtain ⟨reviewer, notes, rfl⟩ := writeDecision_ok hwrite
    refine .inr (.inr ⟨approvalId, target, reviewer, notes, ?_⟩)
    split_ifs at hposted
    · obtain ⟨txId, hp⟩ := hposted
      obtain ⟨_, _, _, _, -, hpost⟩ := postPaymentLedger_ok hp
      rw [hpost.rest]
      exact ⟨rfl, rfl⟩
    · rw [hposted]
      exact ⟨rfl, rfl⟩
  | importCsv parsed =>
    obtain ⟨⟨_, n, m⟩, himport, rfl⟩ := Except.map_eq_ok.1 hrun
    rw [(insertPostgres_imports himport).rest]
    exact .inl ⟨rfl, rfl⟩
  | suggestMatches scan e limit window tolerance =>
    obtain ⟨_, -, rfl⟩ := Except.map_eq_ok.1 hrun
    exact .inl ⟨rfl, rfl⟩
  | confirmMatch e b =>
    obtain ⟨⟨_, i⟩, hconfirm, rfl⟩ := Except.map_eq_ok.1 hrun
    obtain ⟨_, _, -, -, -, -, -, rfl, -⟩ := confirmMatch_ok hconfirm
    exact .inl ⟨rfl, rfl⟩
  | autoReconcile scan e =>
    obtain ⟨⟨_, choice⟩, hauto, rfl⟩ := Except.map_eq_ok.1 hrun
    obtain ⟨suggested, -, hsettle⟩ := autoReconcile_ok hauto
    have hcase := (settle_ok hsettle).2
    split at hcase
    · obtain ⟨_, -, rfl⟩ := flagForReview_ok hcase
      exact .inl ⟨rfl, rfl⟩
    · obtain ⟨_, _, -, -, -, -, -, rfl, -⟩ := confirmMatch_ok hcase
      exact .inl ⟨rfl, rfl⟩

theorem Grounded.trips_of_run (h : Grounded env db) (hrun : op.run env settings db = .ok db') :
    ∀ a ∈ db'.approvals.rows, ∃ t ∈ db'.travelRequests.rows, t.id = a.travelRequestId := by
  rcases run_travel hrun with ⟨ht, ha⟩ | ⟨mk, hmk, ht, ha⟩ | ⟨i, target, reviewer, notes, ht, ha⟩
  · rw [ht, ha]
    exact h.approval_trip
  · rw [ht, ha]
    intro a hmem
    rcases Table.mem_insert.1 hmem with hmem | rfl
    · obtain ⟨t, ht, hid⟩ := h.approval_trip a hmem
      exact ⟨t, Table.mem_insert.2 (.inl ht), hid⟩
    · exact ⟨_, Table.mem_insert.2 (.inr rfl), hmk _⟩
  · rw [ht, ha]
    intro a hmem
    obtain ⟨b, hb, rfl⟩ := Table.mem_modify.1 hmem
    obtain ⟨t, ht, hid⟩ := h.approval_trip b hb
    refine ⟨t, ht, hid.trans ?_⟩
    split_ifs <;> rfl

theorem Grounded.of_run (h : Grounded env db) (hrun : op.run env settings db = .ok db') :
    Grounded env db' := by
  have htrips := h.trips_of_run hrun
  rcases run_ledger hrun with ⟨ha, ht, he⟩ |
    ⟨_, _, _, code, _, _, rfl, hstored, hfree, rfl⟩ | ⟨posted, txId, lines, hpost, heq, -⟩
  · refine ⟨?_, ?_, ?_, htrips⟩
    · rw [ha]; exact h.account_code
    · rw [ha]; exact h.account_upper
    · unfold EntriesPosted
      rw [ht, he]
      exact h.entry_transaction
  · refine ⟨?_, ?_, h.entry_transaction, htrips⟩
    · simp only [Table.insert, List.map_append, List.map_cons, List.map_nil]
      refine h.account_code.append (List.nodup_singleton _) ?_
      rw [List.disjoint_singleton, List.mem_map]
      rintro ⟨a, ha, hcode⟩
      exact hfree a ha hcode
    · intro a ha
      rcases Table.mem_insert.1 ha with ha | rfl
      · exact h.account_upper a ha
      · exact ⟨upper_stored hstored, varchar_stored hstored⟩
  · have haccounts : db'.accounts = db.accounts := by rw [heq, hpost.rest]
    refine ⟨?_, ?_, ?_, htrips⟩
    · rw [haccounts]; exact h.account_code
    · rw [haccounts]; exact h.account_upper
    · rw [heq]
      exact hpost.entriesPosted h.entry_transaction

theorem Grounded.serve (h : Grounded env db) : Grounded env (ReckonFlow.serve env settings db op) := by
  rcases serve_cases env settings db op with heq | hrun
  · rw [heq]
    exact h
  · exact h.of_run hrun

theorem grounded_of_run {tr : List (Db × Op)} (hrun : Run (ServeStep env settings) Db.empty tr db) :
    Grounded env db :=
  hrun.invariant Grounded.empty fun _ _ _ h hs => hs ▸ h.serve

/-! ## The posting -/

theorem accountByCode_of_mem (h : Grounded env db) {a : Account} (ha : a ∈ db.accounts.rows) :
    accountByCode db a.code = .ok a := by
  have hfind : ∃ b, db.accounts.rows.find? (·.code = a.code) = some b :=
    Option.isSome_iff_exists.1 (List.find?_isSome.2 ⟨a, ha, by simp⟩)
  obtain ⟨b, hb⟩ := hfind
  have hcode : b.code = a.code := by simpa using List.find?_some hb
  obtain rfl : b = a := List.inj_on_of_nodup_map h.account_code (List.mem_of_find?_eq_some hb) ha hcode
  simp only [accountByCode, hb]

theorem payable_pos (db : Db) (trip : TravelRequest) : 0 < payable db trip := by
  have hspent : 0 ≤ spentOn db trip.id := by
    refine List.sum_nonneg fun x hx => ?_
    obtain ⟨e, -, rfl⟩ := List.mem_map.1 hx
    exact e.positive.le
  simp only [payable]
  split_ifs with hzero
  · exact trip.positive
  · exact lt_of_le_of_ne hspent (Ne.symm hzero)

/-- A line on one side, on an account of its currency. -/
theorem addLine_of (env : Env) (acc : List ParsedLine × Buckets) {a : Account} {currency : String}
    {debit credit : ℚ} (ha : db.accounts.get a.id = some a) (hcurrency : a.currency = currency)
    (hsided : ¬ ((0 < debit ∧ 0 < credit) ∨ (debit = 0 ∧ credit = 0))) :
    addLine env db acc { accountId := a.id, debit := some debit, credit := some credit, currency } =
      (addToBucket acc.2 (env.upper currency) debit credit).map fun buckets =>
        (acc.1 ++ [⟨a.id, debit, credit, env.upper currency, none⟩], buckets) := by
  subst hcurrency
  have hget : getAccount db a.id = .ok a := required_eq_ok.2 ha
  simp only [addLine, parseMoney, hget, bind, Except.bind, ensure, if_pos hsided, if_true]
  cases addToBucket acc.2 (env.upper a.currency) debit credit with
  | error e => rfl
  | ok buckets => rfl

/-- Adding nothing to an amount that fits the column is exact, on either side. -/
theorem decimalSum_zero {q : ℚ} (hs : HasScale 4 q) (hd : |q| * 10 ^ 4 < 10 ^ 28) :
    decimalSum 0 q = .ok q ∧ decimalSum q 0 = .ok q := by
  have hround := roundDigits_exact hs hd
  have hlog : Int.log 10 |q| ≤ 999999 := by
    by_cases h0 : q = 0
    · rw [h0, abs_zero, Int.log_zero_right]
      norm_num
    · have hlt := log_lt h0 hd
      omega
  rw [decimalSum_eq_ok, decimalSum_eq_ok, decimalAdd, decimalAdd, Decimal.add, Decimal.add, zero_add,
    add_zero, hround]
  exact ⟨⟨hlog, rfl⟩, hlog, rfl⟩

/-- The two lines of a payment pass the checks of the service. -/
theorem paymentLines_pass (env : Env) {travel cash : Account} {trip : TravelRequest} {q : ℚ} {x : Money}
    (htravel : db.accounts.get travel.id = some travel) (hcash : db.accounts.get cash.id = some cash)
    (htravelCurrency : travel.currency = trip.currency) (hcashCurrency : cash.currency = trip.currency)
    (hpos : 0 < q) (hs : HasScale 4 q) (hx : Numeric.ofRat? q = some x) :
    ∃ acc, (paymentLines travel cash trip q).foldlM (addLine env db) ([], []) = .ok acc ∧
      acc.1 = [⟨travel.id, q, 0, env.upper trip.currency, none⟩,
        ⟨cash.id, 0, q, env.upper trip.currency, none⟩] ∧ checkTotals acc.2 = .ok () := by
  obtain ⟨hleft, hright⟩ := decimalSum_zero hs (digits_of_stored hs hx)
  have hzero := (decimalSum_zero (HasScale.zero 4) (by norm_num)).1
  have hfirst := addLine_of env ([], []) htravel htravelCurrency
    (show ¬ ((0 < q ∧ (0 : ℚ) < 0) ∨ (q = 0 ∧ (0 : ℚ) = 0)) by simp [hpos.ne'])
  have hsecond := fun acc => addLine_of env acc hcash hcashCurrency
    (show ¬ (((0 : ℚ) < 0 ∧ 0 < q) ∨ ((0 : ℚ) = 0 ∧ q = 0)) by simp [hpos.ne'])
  have hadd : addToBucket [] (env.upper trip.currency) q 0 = .ok [(env.upper trip.currency, q, 0)] := by
    simp [addToBucket, Dict.get, Dict.set, hleft, hzero, bind, Except.bind, pure, Except.pure]
  have hadd' : addToBucket [(env.upper trip.currency, q, 0)] (env.upper trip.currency) 0 q =
      .ok [(env.upper trip.currency, q, q)] := by
    simp [addToBucket, Dict.get, Dict.set, hleft, hright, bind, Except.bind, pure, Except.pure]
  refine ⟨([⟨travel.id, q, 0, env.upper trip.currency, none⟩,
    ⟨cash.id, 0, q, env.upper trip.currency, none⟩], [(env.upper trip.currency, q, q)]), ?_, rfl, ?_⟩
  · rw [paymentLines, List.foldlM_cons, hfirst, hadd]
    show (List.foldlM _ _ _) = _
    rw [List.foldlM_cons, hsecond, hadd']
    rfl
  · simp [checkTotals]

theorem insertEntry_of (db : Db) (txId : Id) (line : ParsedLine) {debit credit : Money}
    {currency : String} (hdebit : Numeric.ofRat? line.debit = some debit)
    (hcredit : Numeric.ofRat? line.credit = some credit)
    (hcurrency : varchar "currency" 3 line.currency = .ok currency) (hmemo : line.memo = none)
    (hsided : OneSided debit credit) : ∃ db', insertEntry txId db line = .ok db' := by
  have hmemo : nullable (text "memo") line.memo = .ok none := by rw [hmemo]; rfl
  have hdebit : numeric "debit" line.debit = .ok debit := numeric_eq_ok.2 hdebit
  have hcredit : numeric "credit" line.credit = .ok credit := numeric_eq_ok.2 hcredit
  simp only [insertEntry, hdebit, hcredit, hcurrency, hmemo, bind, Except.bind, dif_pos hsided]
  exact ⟨_, rfl⟩

/-- The stored reference of the payment is not taken. -/
def ReferenceFree (db : Db) (approvalId : Id) : Prop :=
  ∃ r, varchar "reference" 64 (paymentReference approvalId) = .ok r ∧
    ∀ t ∈ db.ledgerTransactions.rows, t.reference ≠ r

def DescriptionFits (trip : TravelRequest) : Prop :=
  ∃ d, varchar "description" 255 (paymentDescription trip) = .ok d

def DecisionFits (reviewer notes : Option String) : Prop :=
  (∃ r, nullable (varchar "reviewer" 120) reviewer = .ok r) ∧ ∃ n, nullable (text "notes") notes = .ok n

theorem insertTransaction_iff {reference description : String} :
    (∃ r, insertTransaction db reference description = .ok r) ↔
      (∃ r, varchar "reference" 64 reference = .ok r ∧
        ∀ t ∈ db.ledgerTransactions.rows, t.reference ≠ r) ∧
      ∃ d, varchar "description" 255 description = .ok d := by
  simp only [insertTransaction, Except.bind_eq_ok, Except.pure_eq_ok, ensure_eq_ok]
  constructor
  · rintro ⟨_, r, hr, d, hd, _, hfree, -⟩
    exact ⟨⟨r, hr, hfree⟩, d, hd⟩
  · rintro ⟨⟨r, hr, hfree⟩, d, hd⟩
    exact ⟨_, r, hr, d, hd, ⟨⟩, hfree, rfl⟩

theorem writeDecision_iff {approvalId : Id} {target : ApprovalStatus} {reviewer notes : Option String} :
    (∃ db', writeDecision db approvalId target reviewer notes = .ok db') ↔
      DecisionFits reviewer notes := by
  simp only [writeDecision, Except.bind_eq_ok, Except.pure_eq_ok]
  constructor
  · rintro ⟨_, r, hr, n, hn, -⟩
    exact ⟨⟨r, hr⟩, n, hn⟩
  · rintro ⟨⟨r, hr⟩, n, hn⟩
    exact ⟨_, r, hr, n, hn, rfl⟩

/-- The rows of a payment that passed are inserted when the reference is free and the
description fits. -/
theorem createBalancedTransaction_payment {travel cash : Account} {trip : TravelRequest}
    {reference : String} {q : ℚ} {x : Money} (h : Grounded env db)
    (htravel : travel ∈ db.accounts.rows) (hcash : cash ∈ db.accounts.rows)
    (htravelCurrency : travel.currency = trip.currency) (hcashCurrency : cash.currency = trip.currency)
    (hpos : 0 < q) (hs : HasScale 4 q) (hx : Numeric.ofRat? q = some x) :
    (∃ r, createBalancedTransaction env db reference (paymentDescription trip)
        (paymentLines travel cash trip q) = .ok r) ↔
      ∃ r, insertTransaction db reference (paymentDescription trip) = .ok r := by
  obtain ⟨acc, hloop, hparsed, hcheck⟩ := paymentLines_pass env (Table.get_of_mem htravel)
    (Table.get_of_mem hcash) htravelCurrency hcashCurrency hpos hs hx
  have htwo : 2 ≤ (paymentLines travel cash trip q).length := le_rfl
  simp only [createBalancedTransaction, Except.bind_eq_ok, Except.pure_eq_ok, ensure_eq_ok, hloop,
    Except.ok.injEq, htwo, exists_const, true_and, exists_eq_left']
  constructor
  · rintro ⟨_, _, -, r, hr, -⟩
    exact ⟨r, hr⟩
  · rintro ⟨⟨db₁, txId⟩, hr⟩
    obtain ⟨hupper, hstored⟩ := h.account_upper travel htravel
    rw [htravelCurrency] at hupper hstored
    have hvalue := Numeric.value_of_ofRat? hs hx
    have hzero : Numeric.ofRat? 0 = some (⟨0, by norm_num⟩ : Money) := by decide +kernel
    have hzeroValue := Numeric.value_of_ofRat? (HasScale.zero 4) hzero
    obtain ⟨db₂, h₂⟩ := insertEntry_of db₁ txId ⟨travel.id, q, 0, env.upper trip.currency, none⟩
      hx hzero (hupper.symm ▸ hstored) rfl
      ⟨.inl ⟨hvalue.symm ▸ hpos, hzeroValue⟩, hvalue.symm ▸ hpos.le, hzeroValue.ge⟩
    obtain ⟨db₃, h₃⟩ := insertEntry_of db₂ txId ⟨cash.id, 0, q, env.upper trip.currency, none⟩
      hzero hx (hupper.symm ▸ hstored) rfl
      ⟨.inr ⟨hvalue.symm ▸ hpos, hzeroValue⟩, hzeroValue.ge, hvalue.symm ▸ hpos.le⟩
    refine ⟨_, ⟨⟩, hcheck, (db₁, txId), hr, db₃, ?_, rfl⟩
    rw [hparsed]
    simp only [List.foldlM_cons, List.foldlM_nil, h₂, h₃, bind, Except.bind, pure, Except.pure]

theorem createBalancedTransaction_reference {reference description : String} {lines : List LedgerLine}
    {txId : Id} (h : createBalancedTransaction env db reference description lines = .ok (db', txId)) :
    ∃ t ∈ db'.ledgerTransactions.rows, t ∉ db.ledgerTransactions.rows ∧
      varchar "reference" 64 reference = .ok t.reference := by
  simp only [createBalancedTransaction, Except.bind_eq_ok] at h
  obtain ⟨-, -, acc, -, -, -, ⟨withTx, id⟩, htx, withEntries, hentries, heq⟩ := h
  obtain ⟨rfl, rfl⟩ := Prod.mk.inj (Except.pure_eq_ok.1 heq)
  obtain ⟨-, -, -, hrest⟩ := foldlM_insertEntry hentries
  simp only [insertTransaction, Except.bind_eq_ok, Except.pure_eq_ok, Prod.mk.injEq] at htx
  obtain ⟨r, hr, d, -, -, -, rfl, rfl⟩ := htx
  refine ⟨⟨db.ledgerTransactions.next, r, d⟩, ?_, fun hmem => ?_, hr⟩
  · rw [hrest]
    exact Table.mem_insert.2 (.inr rfl)
  · exact lt_irrefl _ (db.ledgerTransactions.fresh _ hmem)

/-- A balanced post commits. -/
theorem Posted.commits {posted : Db} {txId : Id} {lines : List ParsedLine}
    (h : Posted env db posted txId lines) (hafter : db'.ledgerEntries = posted.ledgerEntries)
    (hzero : total LedgerEntry.amount (fun _ => True) (entriesOf posted txId) = 0) :
    commit db db' = .ok db' := by
  obtain ⟨new, hnew, hrows⟩ := h.entries
  refine commit_eq_ok.2 ⟨rfl, fun e he hnext => ?_⟩
  rw [hafter, hrows] at he
  rcases List.mem_append.1 he with he | he
  · exact absurd (db.ledgerEntries.fresh e he) (not_lt.2 hnext)
  · obtain ⟨line, -, hline⟩ := exists_line hnew he
    rw [hline.transaction, checkBalanced_eq_ok, entriesOf, hafter]
    exact hzero

/-- CASH and TRAVEL exist in the currency of the trip, and its payment fits the column. -/
structure Funded (db : Db) (approval : Approval) : Prop where
  cash : ∀ trip, db.travelRequests.get approval.travelRequestId = some trip →
    ∃ a ∈ db.accounts.rows, a.code = cashCode ∧ a.currency = trip.currency
  travel : ∀ trip, db.travelRequests.get approval.travelRequestId = some trip →
    ∃ a ∈ db.accounts.rows, a.code = travelCode ∧ a.currency = trip.currency
  fits : ∀ trip, db.travelRequests.get approval.travelRequestId = some trip →
    ∃ x : Money, Numeric.ofRat? (payable db trip) = some x

theorem postPaymentLedger_iff {approval : Approval} {trip : TravelRequest} (h : Grounded env db)
    (htrip : db.travelRequests.get approval.travelRequestId = some trip) (hf : Funded db approval) :
    (∃ r, postPaymentLedger env db approval = .ok r) ↔
      ReferenceFree db approval.id ∧ DescriptionFits trip := by
  obtain ⟨cash, hcash, hcashCode, hcashCurrency⟩ := hf.cash trip htrip
  obtain ⟨travel, htravel, htravelCode, htravelCurrency⟩ := hf.travel trip htrip
  obtain ⟨x, hx⟩ := hf.fits trip htrip
  have hposting : paymentPosting db approval = .ok ⟨paymentReference approval.id,
      paymentDescription trip, paymentLines travel cash trip (payable db trip)⟩ := by
    have hget : getTravelRequest db approval.travelRequestId = .ok trip := required_eq_ok.2 htrip
    have hcash := accountByCode_of_mem h hcash
    have htravel := accountByCode_of_mem h htravel
    rw [hcashCode] at hcash
    rw [htravelCode] at htravel
    simp only [paymentPosting, hget, hcash, htravel, bind, Except.bind, pure, Except.pure]
  have hpost : postPaymentLedger env db approval =
      createBalancedTransaction env db (paymentReference approval.id) (paymentDescription trip)
        (paymentLines travel cash trip (payable db trip)) := by
    rw [postPaymentLedger, hposting]
    rfl
  rw [hpost, createBalancedTransaction_payment h htravel hcash htravelCurrency hcashCurrency
    (payable_pos db trip) (payable_hasScale db trip) hx, insertTransaction_iff]
  rfl

/-- The two entries of a payment cancel. -/
theorem total_payment {txId : Id} {travel cash : Account} {trip : TravelRequest} {q : ℚ}
    {entries : List LedgerEntry} (hs : HasScale 4 q)
    (h : List.Forall₂ (Stores txId) ((paymentLines travel cash trip q).map (parsedOf env)) entries) :
    total LedgerEntry.amount (fun _ => True) entries = 0 := by
  cases h with
  | cons hdebit h =>
    cases h with
    | cons hcredit h =>
      cases h
      obtain ⟨hd, hd0⟩ := hdebit.values hs (HasScale.zero 4)
      obtain ⟨hc0, hc⟩ := hcredit.values (HasScale.zero 4) hs
      simp only [total_cons, total_nil, if_true, LedgerEntry.amount, hd, hd0, hc, hc0]
      simp [parsedOf]

/-! ## The request -/

/-- The request commits: the payment is posted and the approval PAID. -/
def MarksPaid (env : Env) (settings : Settings) (db : Db) (approvalId : Id)
    (reviewer notes : Option String) : Prop :=
  ∃ db', ((Op.transitionApproval approvalId .paid reviewer notes).run env settings db >>=
      commit db) = .ok db' ∧
    (db'.approvals.get approvalId).map (·.status) = some .paid ∧
    ∃ t ∈ db'.ledgerTransactions.rows, t ∉ db.ledgerTransactions.rows ∧
      varchar "reference" 64 (paymentReference approvalId) = .ok t.reference

/-- What the service flushes for a payment is committed as it is. -/
theorem marksPaid_of_run {approvalId : Id} {reviewer notes : Option String} (h : Grounded env db)
    (hrun : transitionApproval env db approvalId .paid reviewer notes = .ok db') :
    MarksPaid env settings db approvalId reviewer notes := by
  obtain ⟨approval, posted, happroval, -, hposted, hwrite⟩ := transitionApproval_ok hrun
  rw [if_pos rfl] at hposted
  obtain ⟨txId, hposted⟩ := hposted
  obtain ⟨trip, travel, cash, posting, hpriced, hpost⟩ := postPaymentLedger_ok hposted
  obtain ⟨r, n, rfl⟩ := writeDecision_ok hwrite
  have hzero : total LedgerEntry.amount (fun _ => True) (entriesOf posted txId) = 0 := by
    have hnew := hpost.entriesOf_new h.entry_transaction
    rw [hpriced.lines] at hnew
    exact total_payment (payable_hasScale db trip) hnew
  have hcommit : commit db { posted with
      approvals := posted.approvals.modify approvalId (·.decided .paid r n)
        (Approval.decided_id .paid r n) } = .ok _ := hpost.commits rfl hzero
  refine ⟨_, Except.bind_eq_ok.2 ⟨_, hrun, hcommit⟩, ?_, ?_⟩
  · have hrest : posted.approvals = db.approvals := by rw [hpost.rest]
    rw [Table.get_modify, hrest, happroval]
    simp [Approval.decided]
  · simp only [postPaymentLedger, paymentPosting, Except.bind_eq_ok, Except.pure_eq_ok] at hposted
    obtain ⟨_, ⟨_, -, _, -, _, -, rfl⟩, hp⟩ := hposted
    obtain ⟨-, hid⟩ := Table.get_eq_some.1 happroval
    rw [← hid]
    obtain ⟨t, ht, hold, href⟩ := createBalancedTransaction_reference hp
    exact ⟨t, ht, hold, href⟩

/-- In every reachable state the payment of an approved trip succeeds exactly when its reference
is free, its description fits the column and the decision can be stored. -/
theorem mark_paid_iff {tr : List (Db × Op)} {approvalId : Id} {approval : Approval}
    {reviewer notes : Option String} (hrun : Run (ServeStep env settings) Db.empty tr db)
    (happroval : db.approvals.get approvalId = some approval) (hstatus : approval.status = .approved)
    (hf : Funded db approval) :
    MarksPaid env settings db approvalId reviewer notes ↔
      ReferenceFree db approvalId ∧
        (∀ trip, db.travelRequests.get approval.travelRequestId = some trip → DescriptionFits trip) ∧
        DecisionFits reviewer notes := by
  have h := grounded_of_run hrun
  obtain ⟨hmem, rfl⟩ := Table.get_eq_some.1 happroval
  obtain ⟨trip, htrip, hid⟩ := h.approval_trip approval hmem
  have htrip : db.travelRequests.get approval.travelRequestId = some trip :=
    hid ▸ Table.get_of_mem htrip
  have hdescription : (∀ trip, db.travelRequests.get approval.travelRequestId = some trip →
      DescriptionFits trip) ↔ DescriptionFits trip := by
    simp only [htrip, Option.some.injEq, forall_eq']
  rw [hdescription, ← and_assoc, ← postPaymentLedger_iff h htrip hf]
  constructor
  · rintro ⟨db', hpaid, -⟩
    obtain ⟨after, hrun, -⟩ := Except.bind_eq_ok.1 hpaid
    obtain ⟨approval', posted, happroval', -, hposted, hwrite⟩ := transitionApproval_ok hrun
    obtain rfl : approval' = approval := Option.some.inj (happroval'.symm.trans happroval)
    rw [if_pos rfl] at hposted
    obtain ⟨txId, hposted⟩ := hposted
    exact ⟨⟨_, hposted⟩, writeDecision_iff.1 ⟨_, hwrite⟩⟩
  · rintro ⟨⟨⟨posted, txId⟩, hposted⟩, hfits⟩
    have hwrite : ∃ db', writeDecision posted approval.id .paid reviewer notes = .ok db' :=
      writeDecision_iff.2 hfits
    obtain ⟨db', hwrite⟩ := hwrite
    have hallowed : checkTransition approval .paid = .ok () := by
      simp only [checkTransition, hstatus]
      exact ensure_eq_ok.2 (by decide)
    have hrequired : required db.approvals "Approval" approval.id = .ok approval :=
      required_eq_ok.2 happroval
    have hrun : transitionApproval env db approval.id .paid reviewer notes = .ok db' := by
      simp only [transitionApproval, hrequired, hallowed, hposted, if_true, bind, Except.bind, Except.map]
      exact hwrite
    exact marksPaid_of_run h hrun

/-- `Funded`, for trip 1. -/
def demoFunded (db : Db) : Bool :=
  (db.travelRequests.get 1).all fun trip =>
    db.accounts.rows.any (fun a => a.code = cashCode ∧ a.currency = trip.currency) &&
      db.accounts.rows.any (fun a => a.code = travelCode ∧ a.currency = trip.currency) &&
      (Numeric.ofRat? (payable db trip) : Option Money).isSome

theorem funded_of_demo {approval : Approval} (htrip : approval.travelRequestId = 1)
    (h : demoFunded db = true) : Funded db approval := by
  have hall : ∀ trip, db.travelRequests.get approval.travelRequestId = some trip →
      (∃ a ∈ db.accounts.rows, a.code = cashCode ∧ a.currency = trip.currency) ∧
        (∃ a ∈ db.accounts.rows, a.code = travelCode ∧ a.currency = trip.currency) ∧
        ∃ x : Money, Numeric.ofRat? (payable db trip) = some x := by
    intro trip hget
    rw [htrip] at hget
    simp only [demoFunded, hget, Option.all_some, Bool.and_eq_true, List.any_eq_true,
      decide_eq_true_eq, Option.isSome_iff_exists] at h
    exact ⟨h.1.1, h.1.2, h.2⟩
  exact ⟨fun t ht => (hall t ht).1, fun t ht => (hall t ht).2.1, fun t ht => (hall t ht).2.2⟩

def demoApproval : Approval := ⟨1, 1, .approved, none, none⟩

/-- Both accounts and an approved trip. -/
def demoApproved : Db := (demoPayments.take 4).foldl (serve demoEnv {}) Db.empty

theorem mark_paid_iff_approved : MarksPaid demoEnv {} demoApproved 1 (some "finance.lead") none := by
  have hrun : Run (ServeStep demoEnv {}) Db.empty _ demoApproved :=
    (((Run.nil.snoc rfl).snoc rfl).snoc rfl).snoc rfl
  have happroval : demoApproved.approvals.get 1 = some demoApproval := by decide +kernel
  refine (mark_paid_iff hrun happroval rfl (funded_of_demo rfl (by decide +kernel))).2 ⟨?_, ?_, ?_⟩
  · exact ⟨"PAY-1", by decide +kernel, by decide +kernel⟩
  · intro trip hget
    have hdescription : (demoApproved.travelRequests.get 1).map (fun t =>
        varchar "description" 255 (paymentDescription t)) = some (.ok "Travel payment: A → B") := by
      decide +kernel
    rw [show demoApproved.travelRequests.get 1 = some trip from hget] at hdescription
    exact ⟨_, Option.some.inj hdescription⟩
  · exact ⟨⟨some "finance.lead", by decide +kernel⟩, none, rfl⟩

/-- A client has posted under the reference of the payment. -/
def demoClash : Db :=
  serve demoEnv {} demoApproved (.createBalancedTransaction "PAY-1" "Refund" demoRefund)

theorem mark_paid_fails : ¬ ∀ (env : Env) (settings : Settings) (tr : List (Db × Op)) (db : Db)
    (approvalId : Id) (approval : Approval) (reviewer notes : Option String),
    Run (ServeStep env settings) Db.empty tr db → db.approvals.get approvalId = some approval →
      approval.status = .approved → Funded db approval →
        MarksPaid env settings db approvalId reviewer notes := by
  intro hall
  have hrun : Run (ServeStep demoEnv {}) Db.empty _ demoClash :=
    ((((Run.nil.snoc rfl).snoc rfl).snoc rfl).snoc rfl).snoc rfl
  have happroval : demoClash.approvals.get 1 = some demoApproval := by decide +kernel
  obtain ⟨db', hpaid, -⟩ := hall demoEnv {} _ demoClash 1 demoApproval none none hrun happroval rfl
    (funded_of_demo rfl (by decide +kernel))
  have hfails : ((Op.transitionApproval 1 .paid none none).run demoEnv {} demoClash >>=
      commit demoClash).isOk = false := by decide +kernel
  rw [hpaid] at hfails
  cases hfails

end ReckonFlow
