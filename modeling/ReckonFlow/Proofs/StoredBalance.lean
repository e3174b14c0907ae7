import ReckonFlow.Proofs.Backstop

/-! The service adds up amounts as they are passed, the columns round each of them to four
decimals: when what is stored balances. -/

namespace ReckonFlow

open Books Decimal

variable {env : Env} {db db' : Db} {txId : Id} {lines : List ParsedLine}

/-! ## Lines as the columns hold them -/

/-- The code in the column: blanks past the third character are cut. -/
def ParsedLine.heldCurrency (line : ParsedLine) : String := String.ofList (line.currency.toList.take 3)

/-- Debit less credit, each rounded to four decimals. -/
def ParsedLine.heldAmount (line : ParsedLine) : ℚ :=
  Numeric.rounded 4 line.debit - Numeric.rounded 4 line.credit

theorem Stores.held {line : ParsedLine} {entry : LedgerEntry} (h : Stores txId line entry) :
    entry.currency = line.heldCurrency ∧ entry.amount = line.heldAmount := by
  constructor
  · exact (varchar_eq_ok.1 h.currency).2.2
  · rw [LedgerEntry.amount, ParsedLine.heldAmount, Numeric.value_ofRat h.debit,
      Numeric.value_ofRat h.credit]

theorem total_held {new : List LedgerEntry} (h : List.Forall₂ (Stores txId) lines new)
    (p : String → Prop) [DecidablePred p] :
    total LedgerEntry.amount (fun e => p e.currency) new =
      total ParsedLine.heldAmount (fun line => p line.heldCurrency) lines := by
  induction h with
  | nil => rfl
  | cons hline _ ih =>
    obtain ⟨hcurrency, hamount⟩ := hline.held
    rw [total_cons, total_cons, ih, hcurrency, hamount]

/-! ## What the trigger misses -/

/-- Debits equal credits in every currency. -/
def StoredBalance (entries : List LedgerEntry) : Prop :=
  ∀ c, total (·.debit.value) (·.currency = c) entries = total (·.credit.value) (·.currency = c) entries

/-- Rounding each amount leaves a difference in some currency, and the differences of all
currencies add up to zero. -/
def RoundingCancels (lines : List ParsedLine) : Prop :=
  (∃ c, total ParsedLine.heldAmount (·.heldCurrency = c) lines ≠ 0) ∧
    total ParsedLine.heldAmount (fun _ => True) lines = 0

theorem storedBalance_iff {entries : List LedgerEntry} :
    StoredBalance entries ↔ ∀ c, total LedgerEntry.amount (·.currency = c) entries = 0 := by
  have hsub : ∀ c, total LedgerEntry.amount (·.currency = c) entries =
      total (·.debit.value) (·.currency = c) entries - total (·.credit.value) (·.currency = c) entries :=
    fun c => total_sub
  constructor
  · intro h c
    rw [hsub, h c, sub_self]
  · intro h c
    rw [← sub_eq_zero, ← hsub, h c]

/-- A difference in the only currency there is, is a difference in all. -/
theorem not_roundingCancels_of_one_currency {c : String} (h : ∀ line ∈ lines, line.heldCurrency = c) :
    ¬ RoundingCancels lines := by
  rintro ⟨⟨d, hne⟩, hzero⟩
  by_cases hd : d = c
  · apply hne
    rw [← hzero]
    exact total_congr fun line hl => by simp [h line hl, hd]
  · apply hne
    apply total_eq_zero
    intro line hl heq
    exact hd (heq ▸ h line hl)

/-- The loop over `parsed` of a successful call. -/
theorem createBalancedTransaction_inserts {reference description : String} {lines : List LedgerLine}
    (h : createBalancedTransaction env db reference description lines = .ok (db', txId)) :
    ∃ withTx, withTx.ledgerEntries = db.ledgerEntries ∧
      (lines.map (parsedOf env)).foldlM (insertEntry txId) withTx = .ok db' := by
  simp only [createBalancedTransaction, Except.bind_eq_ok] at h
  obtain ⟨_, -, acc, hloop, _, -, ⟨withTx, id⟩, htx, withEntries, hentries, heq⟩ := h
  obtain ⟨rfl, rfl⟩ := Prod.mk.inj (Except.pure_eq_ok.1 heq)
  have hparsed : acc.1 = lines.map (parsedOf env) := foldlM_addLine_parsed hloop
  simp only [insertTransaction, Except.bind_eq_ok, Except.pure_eq_ok, Prod.mk.injEq] at htx
  obtain ⟨_, -, _, -, _, -, rfl, rfl⟩ := htx
  refine ⟨_, ?_, hparsed ▸ hentries⟩
  rfl

/-- The commit of a transaction just posted: the trigger's sum over its entries is zero. -/
theorem commit_posted_iff {reference description : String} {lines : List LedgerLine}
    (hfk : EntriesPosted db)
    (h : createBalancedTransaction env db reference description lines = .ok (db', txId)) :
    (∃ committed, commit db db' = .ok committed) ↔
      total LedgerEntry.amount (fun _ => True) (entriesOf db' txId) = 0 := by
  have hpost := createBalancedTransaction_ok h
  obtain ⟨withTx, hsame, hinsert⟩ := createBalancedTransaction_inserts h
  have hfresh : entriesOf withTx txId = [] := by
    unfold entriesOf
    rw [hsame]
    apply List.filter_eq_nil_iff.2
    intro e he
    obtain ⟨t, ht, hid⟩ := hfk e he
    have hlt := db.ledgerTransactions.fresh t ht
    rw [hid, ← hpost.txId_eq] at hlt
    simpa using hlt.ne
  rw [← commit_iff_total hfresh hinsert]
  unfold commit
  rw [hsame]

/-- A transaction that is created and committed balances as it is stored, unless the rounding
of its lines leaves differences that cancel across currencies. -/
theorem stored_balance_iff {reference description : String} {lines : List LedgerLine}
    (hfk : EntriesPosted db)
    (h : createBalancedTransaction env db reference description lines = .ok (db', txId)) :
    ((∃ committed, commit db db' = .ok committed) → StoredBalance (entriesOf db' txId)) ↔
      ¬ RoundingCancels (lines.map (parsedOf env)) := by
  have hstores := (createBalancedTransaction_ok h).entriesOf_new hfk
  have htotal := total_held hstores fun _ => True
  have hheld := fun c => total_held hstores (· = c)
  rw [commit_posted_iff hfk h, htotal, storedBalance_iff, RoundingCancels]
  constructor
  · rintro hall ⟨⟨c, hne⟩, hzero⟩
    exact hne (hheld c ▸ hall hzero c)
  · intro hnot hzero c
    by_contra hne
    exact hnot ⟨⟨c, hheld c ▸ hne⟩, hzero⟩

def demoDollars (id : Id) : Account := ⟨id, "CASH-USD", "Cash", "USD"⟩

/-- An account in euros and one in dollars. -/
def demoTwoCurrencies : Db :=
  { Db.empty with
    accounts := (Table.empty.insert demoAccount demoAccount_id).insert demoDollars fun _ => rfl }

/-- A line of the account in euros, or of the one in dollars. -/
def demoLine (currency : String) (debit credit : ℚ) : LedgerLine :=
  { accountId := if currency = "EUR" then 1 else 2
    debit := some debit
    credit := some credit
    currency := currency }

/-- Half a unit of the last place twice against one unit, the other way round in dollars. -/
def demoHalves : List LedgerLine :=
  [demoLine "EUR" (1 / 20000) 0, demoLine "EUR" (1 / 20000) 0, demoLine "EUR" 0 (1 / 10000),
    demoLine "USD" (1 / 10000) 0, demoLine "USD" 0 (1 / 20000), demoLine "USD" 0 (1 / 20000)]

/-- Created and committed, with the difference stored in euros. -/
def demoStored (lines : List LedgerLine) : Option (Bool × ℚ) :=
  (createBalancedTransaction demoEnv demoTwoCurrencies "T-1" "By hand" lines).toOption.map fun r =>
    ((commit demoTwoCurrencies r.1).isOk,
      total LedgerEntry.amount (·.currency = "EUR") (entriesOf r.1 r.2))

theorem demoStored_eq {lines : List LedgerLine} {difference : ℚ}
    (h : demoStored lines = some (true, difference)) :
    ∃ db' txId, createBalancedTransaction demoEnv demoTwoCurrencies "T-1" "By hand" lines =
        .ok (db', txId) ∧ (∃ committed, commit demoTwoCurrencies db' = .ok committed) ∧
      total LedgerEntry.amount (·.currency = "EUR") (entriesOf db' txId) = difference := by
  unfold demoStored at h
  cases hrun : createBalancedTransaction demoEnv demoTwoCurrencies "T-1" "By hand" lines with
  | error e => rw [hrun] at h; cases h
  | ok r =>
    rw [hrun] at h
    obtain ⟨hcommit, hdifference⟩ := Prod.mk.inj (Option.some.inj h)
    exact ⟨r.1, r.2, rfl, Except.isOk_iff.1 hcommit, hdifference⟩

theorem stored_balance_iff_euros : ∃ db' txId,
    createBalancedTransaction demoEnv demoTwoCurrencies "T-1" "By hand"
        [demoLine "EUR" (1 / 20000) 0, demoLine "EUR" 0 (1 / 20000)] = .ok (db', txId) ∧
      (∃ committed, commit demoTwoCurrencies db' = .ok committed) ∧
      StoredBalance (entriesOf db' txId) := by
  obtain ⟨db', txId, hrun, hcommit, -⟩ := demoStored_eq (show demoStored
    [demoLine "EUR" (1 / 20000) 0, demoLine "EUR" 0 (1 / 20000)] = some (true, 0) by decide +kernel)
  refine ⟨db', txId, hrun, hcommit, (stored_balance_iff ?_ hrun).2 ?_ hcommit⟩
  · intro e he
    cases he
  · exact not_roundingCancels_of_one_currency (c := "EUR") (by decide)

/-- Both currencies are stored off by a unit of the last place. -/
theorem stored_balance_fails : ¬ ∀ (env : Env) (db db' : Db) (txId : Id)
    (reference description : String) (lines : List LedgerLine), EntriesPosted db →
      createBalancedTransaction env db reference description lines = .ok (db', txId) →
        (∃ committed, commit db db' = .ok committed) → StoredBalance (entriesOf db' txId) := by
  intro hall
  obtain ⟨db', txId, hrun, hcommit, hdifference⟩ := demoStored_eq
    (show demoStored demoHalves = some (true, 1 / 10000) by decide +kernel)
  have hbalance := hall _ _ _ _ _ _ _ (fun e he => by cases he) hrun hcommit
  rw [storedBalance_iff.1 hbalance "EUR"] at hdifference
  norm_num at hdifference

end ReckonFlow
