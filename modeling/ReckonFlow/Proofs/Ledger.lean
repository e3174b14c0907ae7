import ReckonFlow.Lib.Books
import ReckonFlow.Spec.Ledger

/-! What a successful ledger operation did, and why the entries it stored balance. -/

namespace ReckonFlow

open Books Decimal

variable {env : Env} {db db' : Db}

theorem required_eq_ok {α : Type} {key : α → ℤ} {t : Table α key} {what : String} {i : Id} {r : α} :
    required t what i = .ok r ↔ t.get i = some r := by
  unfold required
  split <;> simp_all

theorem numeric_eq_ok {column : String} {q : ℚ} {x : Money} :
    numeric column q = .ok x ↔ Numeric.ofRat? q = some x := by
  unfold numeric
  split <;> simp_all

/-! ## Currency codes -/

theorem varchar_eq_ok {column s s' : String} {n : ℕ} :
    varchar column n s = .ok s' ↔ '\x00' ∉ s.toList ∧ (s.toList.drop n).all (· = ' ') = true ∧
      s' = String.ofList (s.toList.take n) := by
  unfold varchar
  split_ifs with h1 h2
  · simp [h1]
  · simp [h1, h2, eq_comm]
  · simp [h1, h2]

/-- A stored text is stored again unchanged. -/
theorem varchar_stored {column s s' : String} {n : ℕ} (h : varchar column n s = .ok s') :
    varchar column n s' = .ok s' := by
  obtain ⟨hnul, -, rfl⟩ := varchar_eq_ok.1 h
  refine varchar_eq_ok.2 ⟨?_, ?_, ?_⟩
  · rw [String.toList_ofList]
    exact fun hm => hnul (List.mem_of_mem_take hm)
  · simp
  · rw [String.toList_ofList, List.take_take, min_self]

/-- A stored code is a prefix of upper-case text, and so upper case. -/
theorem upper_stored {column c s : String} {n : ℕ} (h : varchar column n (env.upper c) = .ok s) :
    env.upper s = s := by
  obtain ⟨-, -, rfl⟩ := varchar_eq_ok.1 h
  refine Env.upper_of_fixed fun d hd => ?_
  rw [String.toList_ofList] at hd
  have hmem := List.mem_of_mem_take hd
  rw [Env.upper, String.toList_ofList] at hmem
  obtain ⟨x, -, hx⟩ := List.mem_flatMap.1 hmem
  exact env.upper_fixed x d hx

theorem createAccount_ok {code name currency : String}
    (h : createAccount env db code name currency = .ok db') :
    ∃ storedCode storedName storedCurrency,
      varchar "currency" 3 (env.upper currency) = .ok storedCurrency ∧
      (∀ a ∈ db.accounts.rows, a.code ≠ storedCode) ∧
      db' = { db with
        accounts := db.accounts.insert (⟨·, storedCode, storedName, storedCurrency⟩) fun _ => rfl } := by
  simp only [createAccount, Except.bind_eq_ok, Except.pure_eq_ok, ensure_eq_ok] at h
  obtain ⟨storedCode, -, storedName, -, storedCurrency, hc, -, hfree, rfl⟩ := h
  exact ⟨storedCode, storedName, storedCurrency, hc, hfree, rfl⟩

/-! ## The loop over the lines -/

/-- A line as `parsed` holds it. -/
def parsedOf (env : Env) (raw : LedgerLine) : ParsedLine :=
  ⟨raw.accountId, raw.debit.getD 0, raw.credit.getD 0, env.upper raw.currency, raw.memo⟩

def debitsIn (c : String) : List ParsedLine → ℚ := total (·.debit) (·.currency = c)
def creditsIn (c : String) : List ParsedLine → ℚ := total (·.credit) (·.currency = c)

/-- Amounts of at most four decimals, and partial sums within the 28 digits of a `Decimal`. -/
structure ExactLines (lines : List ParsedLine) : Prop where
  debit_scale : ∀ line ∈ lines, HasScale 4 line.debit
  credit_scale : ∀ line ∈ lines, HasScale 4 line.credit
  debit_digits : ∀ n c, |debitsIn c (lines.take n)| * 10 ^ 4 < 10 ^ 28
  credit_digits : ∀ n c, |creditsIn c (lines.take n)| * 10 ^ 4 < 10 ^ 28

theorem decimalSum_eq_ok {a b q : ℚ} :
    decimalSum a b = .ok q ↔ Int.log 10 |decimalAdd a b| ≤ 999999 ∧ q = decimalAdd a b := by
  unfold decimalSum
  split_ifs with h
  · simp [h]
  · simp [not_lt.1 h, eq_comm]

theorem addToBucket_eq_ok {buckets buckets' : Buckets} {currency : String} {debit credit : ℚ} :
    addToBucket buckets currency debit credit = .ok buckets' ↔
      (Int.log 10 |decimalAdd ((Dict.get buckets currency).getD (0, 0)).1 debit| ≤ 999999 ∧
        Int.log 10 |decimalAdd ((Dict.get buckets currency).getD (0, 0)).2 credit| ≤ 999999) ∧
      buckets' = Dict.set buckets currency
        (decimalAdd ((Dict.get buckets currency).getD (0, 0)).1 debit,
          decimalAdd ((Dict.get buckets currency).getD (0, 0)).2 credit) := by
  simp only [addToBucket, Except.bind_eq_ok, Except.pure_eq_ok, decimalSum_eq_ok]
  constructor
  · rintro ⟨_, ⟨hd, rfl⟩, _, ⟨hc, rfl⟩, rfl⟩
    exact ⟨⟨hd, hc⟩, rfl⟩
  · rintro ⟨⟨hd, hc⟩, rfl⟩
    exact ⟨_, ⟨hd, rfl⟩, _, ⟨hc, rfl⟩, rfl⟩

theorem addLine_ok {acc acc' : List ParsedLine × Buckets} {raw : LedgerLine}
    (h : addLine env db acc raw = .ok acc') :
    (∃ a, db.accounts.get raw.accountId = some a ∧ env.upper raw.currency = env.upper a.currency) ∧
      acc'.1 = acc.1 ++ [parsedOf env raw] ∧
      acc'.2 = Dict.set acc.2 (parsedOf env raw).currency
        (decimalAdd ((Dict.get acc.2 (parsedOf env raw).currency).getD (0, 0)).1 (parsedOf env raw).debit,
          decimalAdd ((Dict.get acc.2 (parsedOf env raw).currency).getD (0, 0)).2
            (parsedOf env raw).credit) := by
  simp only [addLine, Except.bind_eq_ok, Except.pure_eq_ok, ensure_eq_ok, addToBucket_eq_ok] at h
  obtain ⟨debit, hdebit, credit, hcredit, -, -, account, haccount, -, hcurrency, _, ⟨-, rfl⟩, rfl⟩ := h
  have hd : raw.debit = some debit := by
    cases hr : raw.debit <;> rw [hr] at hdebit <;> simp_all [parseMoney]
  have hc : raw.credit = some credit := by
    cases hr : raw.credit <;> rw [hr] at hcredit <;> simp_all [parseMoney]
  refine ⟨⟨account, required_eq_ok.1 haccount, hcurrency⟩, ?_, ?_⟩
  · simp only [parsedOf, hd, hc, Option.getD_some]
  · simp only [parsedOf, hd, hc, Option.getD_some]

theorem foldlM_addLine_parsed {lines : List LedgerLine} :
    ∀ {acc acc' : List ParsedLine × Buckets}, lines.foldlM (addLine env db) acc = .ok acc' →
      acc'.1 = acc.1 ++ lines.map (parsedOf env) := by
  induction lines with
  | nil =>
    intro acc acc' h
    rw [List.foldlM_nil, Except.pure_eq_ok] at h
    rw [← h, List.map_nil, List.append_nil]
  | cons raw lines ih =>
    intro acc acc' h
    rw [List.foldlM_cons, Except.bind_eq_ok] at h
    obtain ⟨acc₁, h₁, h₂⟩ := h
    rw [ih h₂, (addLine_ok h₁).2.1, List.append_assoc, List.singleton_append, List.map_cons]

/-- Every line is on an account of its currency. -/
theorem foldlM_addLine_accounts {lines : List LedgerLine} {acc : List ParsedLine × Buckets}
    (h : lines.foldlM (addLine env db) ([], []) = .ok acc) :
    ∀ line ∈ acc.1, ∃ a, db.accounts.get line.accountId = some a ∧
      line.currency = env.upper a.currency := by
  refine Except.foldlM_invariant (P := fun acc : List ParsedLine × Buckets => ∀ line ∈ acc.1,
    ∃ a, db.accounts.get line.accountId = some a ∧ line.currency = env.upper a.currency)
    ?_ (by simp) h
  intro acc raw acc' hacc hstep
  obtain ⟨haccount, hparsed, -⟩ := addLine_ok hstep
  intro line hline
  rw [hparsed, List.mem_append, List.mem_singleton] at hline
  rcases hline with hline | rfl
  · exact hacc line hline
  · exact haccount

theorem ExactLines.of_append {lines : List ParsedLine} {line : ParsedLine}
    (h : ExactLines (lines ++ [line])) : ExactLines lines where
  debit_scale := fun l hl => h.debit_scale l (List.mem_append_left _ hl)
  credit_scale := fun l hl => h.credit_scale l (List.mem_append_left _ hl)
  debit_digits := by
    intro n c
    have := h.debit_digits (min n lines.length) c
    rwa [List.take_append_of_le_length (min_le_right _ _), ← List.take_take, List.take_length] at this
  credit_digits := by
    intro n c
    have := h.credit_digits (min n lines.length) c
    rwa [List.take_append_of_le_length (min_le_right _ _), ← List.take_take, List.take_length] at this

theorem total_hasScale {f : ParsedLine → ℚ} {c : String} {lines : List ParsedLine}
    (h : ∀ line ∈ lines, HasScale 4 (f line)) : HasScale 4 (total f (·.currency = c) lines) := by
  induction lines with
  | nil => exact HasScale.zero 4
  | cons line lines ih =>
    rw [total_cons]
    refine HasScale.add ?_ (ih fun l hl => h l (List.mem_cons_of_mem _ hl))
    split_ifs
    · exact h line (List.mem_cons_self ..)
    · exact HasScale.zero 4

/-- Within 28 digits, a bucket holds the exact totals of its currency. -/
theorem buckets_exact {lines : List LedgerLine} {acc : List ParsedLine × Buckets}
    (h : lines.foldlM (addLine env db) ([], []) = .ok acc) :
    ExactLines acc.1 → ∀ c, (Dict.get acc.2 c).getD (0, 0) = (debitsIn c acc.1, creditsIn c acc.1) := by
  refine Except.foldlM_invariant (P := fun acc : List ParsedLine × Buckets => ExactLines acc.1 →
    ∀ c, (Dict.get acc.2 c).getD (0, 0) = (debitsIn c acc.1, creditsIn c acc.1)) ?_
    (fun _ _ => rfl) h
  intro acc raw acc' hacc hstep hexact c
  obtain ⟨-, hparsed, hbuckets⟩ := addLine_ok hstep
  rw [hparsed] at hexact ⊢
  have hbefore := hacc hexact.of_append
  have hdebits : debitsIn c (acc.1 ++ [parsedOf env raw]) = debitsIn c acc.1 +
      if (parsedOf env raw).currency = c then (parsedOf env raw).debit else 0 := by
    rw [debitsIn, total_append, total_cons, total_nil, add_zero]
  have hcredits : creditsIn c (acc.1 ++ [parsedOf env raw]) = creditsIn c acc.1 +
      if (parsedOf env raw).currency = c then (parsedOf env raw).credit else 0 := by
    rw [creditsIn, total_append, total_cons, total_nil, add_zero]
  rw [hbuckets, Dict.get_set, hbefore]
  by_cases hc : c = (parsedOf env raw).currency
  · -- the bucket of this line: the new totals are exact, so the context does not round them
    have hd := hexact.debit_digits (acc.1.length + 1) c
    have hcr := hexact.credit_digits (acc.1.length + 1) c
    rw [List.take_of_length_le (by simp)] at hd hcr
    have hds := total_hasScale (c := c) hexact.debit_scale
    have hcs := total_hasScale (c := c) hexact.credit_scale
    rw [if_pos hc, Option.getD_some, ← hc]
    rw [if_pos hc.symm] at hdebits hcredits
    rw [decimalAdd, decimalAdd, Decimal.add, Decimal.add, ← hdebits, ← hcredits]
    exact Prod.ext (roundDigits_exact hds hd) (roundDigits_exact hcs hcr)
  · have hne : ¬ (parsedOf env raw).currency = c := fun h => hc h.symm
    rw [if_neg hc, hbefore, hdebits, hcredits, if_neg hne, if_neg hne, add_zero, add_zero]

/-- What passes the check of the buckets balances in every currency. -/
theorem lines_balanced {lines : List LedgerLine} {acc : List ParsedLine × Buckets}
    (h : lines.foldlM (addLine env db) ([], []) = .ok acc) (hcheck : checkTotals acc.2 = .ok ())
    (hexact : ExactLines acc.1) (c : String) : debitsIn c acc.1 = creditsIn c acc.1 := by
  have hbucket := buckets_exact h hexact c
  cases hget : Dict.get acc.2 c with
  | none =>
    rw [hget, Option.getD_none] at hbucket
    rw [← (Prod.mk.inj hbucket).1, ← (Prod.mk.inj hbucket).2]
  | some b =>
    rw [hget, Option.getD_some] at hbucket
    unfold checkTotals at hcheck
    split at hcheck
    · cases hcheck
    · rename_i hnone
      have hb := List.find?_eq_none.1 hnone _ (Dict.mem_of_get hget)
      rw [hbucket] at hb
      simpa using hb

/-- `create_balanced_transaction` up to its first write. -/
def amountChecks (env : Env) (db : Db) (lines : List LedgerLine) : Except Error (List ParsedLine) := do
  ensure (2 ≤ lines.length) (.unbalancedLedger "Need at least two ledger lines")
  let parsed ← lines.foldlM (addLine env db) ([], [])
  checkTotals parsed.2
  return parsed.1

theorem createBalancedTransaction_eq (reference description : String) (lines : List LedgerLine) :
    createBalancedTransaction env db reference description lines =
      amountChecks env db lines >>= fun parsed => do
        let (withTx, txId) ← insertTransaction db reference description
        let withEntries ← parsed.foldlM (insertEntry txId) withTx
        return (withEntries, txId) := by
  simp only [createBalancedTransaction, amountChecks, bind_assoc, pure_bind]

/-- Lines that pass the checks are on accounts that exist. -/
theorem amountChecks_accounts {lines : List LedgerLine} {parsed : List ParsedLine}
    (h : amountChecks env db lines = .ok parsed) :
    ∀ line ∈ parsed, ∃ a ∈ db.accounts.rows, a.id = line.accountId := by
  simp only [amountChecks, Except.bind_eq_ok, Except.pure_eq_ok] at h
  obtain ⟨_, -, acc, hloop, _, -, rfl⟩ := h
  intro line hline
  obtain ⟨a, ha, -⟩ := foldlM_addLine_accounts hloop line hline
  exact ⟨a, Table.get_eq_some.1 ha⟩

/-! ## The entries stored -/

/-- The row a line is stored as. -/
structure Stores (txId : Id) (line : ParsedLine) (entry : LedgerEntry) : Prop where
  transaction : entry.transactionId = txId
  account : entry.accountId = line.accountId
  debit : Numeric.ofRat? line.debit = some entry.debit
  credit : Numeric.ofRat? line.credit = some entry.credit
  currency : varchar "currency" 3 line.currency = .ok entry.currency

theorem exists_line {txId : Id} {lines : List ParsedLine} {new : List LedgerEntry}
    (h : List.Forall₂ (Stores txId) lines new) {entry : LedgerEntry} (he : entry ∈ new) :
    ∃ line ∈ lines, Stores txId line entry := by
  induction h with
  | nil => cases he
  | cons hline _ ih =>
    rcases List.mem_cons.1 he with rfl | he
    · exact ⟨_, List.mem_cons_self .., hline⟩
    · obtain ⟨line, hmem, hs⟩ := ih he
      exact ⟨line, List.mem_cons_of_mem _ hmem, hs⟩

/-- `db'` is `db` with `new` appended to the ledger entries. -/
structure Appends (db db' : Db) (new : List LedgerEntry) : Prop where
  rows : db'.ledgerEntries.rows = db.ledgerEntries.rows ++ new
  rest : db' = { db with ledgerEntries := db'.ledgerEntries }

theorem insertEntry_ok {txId : Id} {line : ParsedLine} (h : insertEntry txId db line = .ok db') :
    ∃ entry, Stores txId line entry ∧ Appends db db' [entry] := by
  simp only [insertEntry, Except.bind_eq_ok, numeric_eq_ok] at h
  obtain ⟨debit, hdebit, credit, hcredit, currency, hcurrency, memo, -, h⟩ := h
  split_ifs at h with hsided
  obtain rfl := Except.ok.inj h
  exact ⟨_, ⟨rfl, rfl, hdebit, hcredit, hcurrency⟩, rfl, rfl⟩

theorem foldlM_insertEntry {txId : Id} {lines : List ParsedLine} :
    ∀ {db db' : Db}, lines.foldlM (insertEntry txId) db = .ok db' →
      ∃ new, List.Forall₂ (Stores txId) lines new ∧ Appends db db' new := by
  induction lines with
  | nil =>
    intro db db' h
    rw [List.foldlM_nil, Except.pure_eq_ok] at h
    subst h
    exact ⟨[], .nil, by simp, rfl⟩
  | cons line lines ih =>
    intro db db' h
    rw [List.foldlM_cons, Except.bind_eq_ok] at h
    obtain ⟨db₁, h₁, h₂⟩ := h
    obtain ⟨entry, hentry, hrows₁, hrest₁⟩ := insertEntry_ok h₁
    obtain ⟨new, hnew, hrows₂, hrest₂⟩ := ih h₂
    refine ⟨entry :: new, .cons hentry hnew, ?_, ?_⟩
    · rw [hrows₂, hrows₁, List.append_assoc, List.singleton_append]
    · rw [hrest₂, hrest₁]

/-- What a successful post leaves behind. -/
structure Posted (env : Env) (db db' : Db) (txId : Id) (lines : List ParsedLine) : Prop where
  txId_eq : txId = db.ledgerTransactions.next
  two : 2 ≤ lines.length
  accounts : ∀ line ∈ lines, ∃ a, db.accounts.get line.accountId = some a ∧
    line.currency = env.upper a.currency
  balanced : ExactLines lines → ∀ c, debitsIn c lines = creditsIn c lines
  transactions : ∃ reference description,
    (∀ t ∈ db.ledgerTransactions.rows, t.reference ≠ reference) ∧
    db'.ledgerTransactions = db.ledgerTransactions.insert (⟨·, reference, description⟩) fun _ => rfl
  entries : ∃ new, List.Forall₂ (Stores txId) lines new ∧
    db'.ledgerEntries.rows = db.ledgerEntries.rows ++ new
  rest : db' = { db with
    ledgerTransactions := db'.ledgerTransactions, ledgerEntries := db'.ledgerEntries }

theorem createBalancedTransaction_ok {reference description : String} {lines : List LedgerLine}
    {txId : Id} (h : createBalancedTransaction env db reference description lines = .ok (db', txId)) :
    Posted env db db' txId (lines.map (parsedOf env)) := by
  simp only [createBalancedTransaction, Except.bind_eq_ok, ensure_eq_ok] at h
  obtain ⟨_, htwo, acc, hloop, _, hcheck, ⟨withTx, id⟩, htx, withEntries, hentries, heq⟩ := h
  obtain ⟨rfl, rfl⟩ := Prod.mk.inj (Except.pure_eq_ok.1 heq)
  have hparsed : acc.1 = lines.map (parsedOf env) := foldlM_addLine_parsed hloop
  simp only [insertTransaction, Except.bind_eq_ok, Except.pure_eq_ok, ensure_eq_ok,
    Prod.mk.injEq] at htx
  obtain ⟨storedReference, -, storedDescription, -, -, hfree, rfl, rfl⟩ := htx
  obtain ⟨new, hnew, hrows, hrest⟩ := foldlM_insertEntry hentries
  rw [← hparsed]
  refine ⟨rfl, ?_, foldlM_addLine_accounts hloop, lines_balanced hloop hcheck,
    ⟨storedReference, storedDescription, hfree, ?_⟩, ⟨new, hnew, hrows⟩, ?_⟩
  · rw [hparsed, List.length_map]
    exact htwo
  · rw [hrest]
  · rw [hrest]

/-- The foreign key of `transaction_id`. -/
def EntriesPosted (db : Db) : Prop :=
  ∀ e ∈ db.ledgerEntries.rows, ∃ t ∈ db.ledgerTransactions.rows, t.id = e.transactionId

/-- Entries of the transactions there were before are those they had. -/
theorem Posted.entriesOf_old {txId : Id} {lines : List ParsedLine} (h : Posted env db db' txId lines)
    {i : Id} (hi : i ≠ txId) : entriesOf db' i = entriesOf db i := by
  obtain ⟨new, hnew, hrows⟩ := h.entries
  have hnone : new.filter (·.transactionId = i) = [] := by
    apply List.filter_eq_nil_iff.2
    intro e he
    obtain ⟨line, -, hline⟩ := exists_line hnew he
    simpa [hline.transaction] using Ne.symm hi
  unfold entriesOf
  rw [hrows, List.filter_append, hnone, List.append_nil]

/-- Entries of the transaction posted are the ones just stored. -/
theorem Posted.entriesOf_new {txId : Id} {lines : List ParsedLine} (h : Posted env db db' txId lines)
    (hb : EntriesPosted db) : List.Forall₂ (Stores txId) lines (entriesOf db' txId) := by
  obtain ⟨new, hnew, hrows⟩ := h.entries
  have hnone : db.ledgerEntries.rows.filter (·.transactionId = txId) = [] := by
    apply List.filter_eq_nil_iff.2
    intro e he
    obtain ⟨t, ht, hid⟩ := hb e he
    have hlt := db.ledgerTransactions.fresh t ht
    rw [hid, ← h.txId_eq] at hlt
    simpa using hlt.ne
  have hall : new.filter (·.transactionId = txId) = new := by
    apply List.filter_eq_self.2
    intro e he
    obtain ⟨line, -, hline⟩ := exists_line hnew he
    simpa using hline.transaction
  unfold entriesOf
  rw [hrows, List.filter_append, hnone, hall]
  exact hnew

theorem Posted.mem_transactions {txId : Id} {lines : List ParsedLine}
    (h : Posted env db db' txId lines) : ∃ reference description, ∀ t,
      t ∈ db'.ledgerTransactions.rows ↔
        t ∈ db.ledgerTransactions.rows ∨ t = ⟨txId, reference, description⟩ := by
  obtain ⟨reference, description, -, htransactions⟩ := h.transactions
  refine ⟨reference, description, fun t => ?_⟩
  rw [htransactions, Table.mem_insert, h.txId_eq]

theorem Posted.ne_txId {txId : Id} {lines : List ParsedLine} (h : Posted env db db' txId lines)
    {t : LedgerTransaction} (ht : t ∈ db.ledgerTransactions.rows) : t.id ≠ txId := by
  have hlt := db.ledgerTransactions.fresh t ht
  rw [← h.txId_eq] at hlt
  exact hlt.ne

theorem Posted.entriesPosted {txId : Id} {lines : List ParsedLine}
    (h : Posted env db db' txId lines) (hb : EntriesPosted db) : EntriesPosted db' := by
  obtain ⟨new, hnew, hrows⟩ := h.entries
  obtain ⟨reference, description, hmem⟩ := h.mem_transactions
  intro e he
  rw [hrows] at he
  rcases List.mem_append.1 he with he | he
  · obtain ⟨t, ht, hid⟩ := hb e he
    exact ⟨t, (hmem t).2 (.inl ht), hid⟩
  · obtain ⟨line, -, hline⟩ := exists_line hnew he
    exact ⟨_, (hmem _).2 (.inr rfl), hline.transaction.symm⟩

/-- The transactions of `db` are in `db'` with the same entries. -/
def Keeps (db db' : Db) : Prop :=
  ∀ t ∈ db.ledgerTransactions.rows,
    t ∈ db'.ledgerTransactions.rows ∧ entriesOf db' t.id = entriesOf db t.id

theorem Keeps.trans {db₁ db₂ db₃ : Db} (h : Keeps db₁ db₂) (h' : Keeps db₂ db₃) : Keeps db₁ db₃ :=
  fun t ht => ⟨(h' t (h t ht).1).1, (h' t (h t ht).1).2.trans (h t ht).2⟩

theorem Posted.keeps {txId : Id} {lines : List ParsedLine} (h : Posted env db db' txId lines) :
    Keeps db db' := by
  obtain ⟨reference, description, hmem⟩ := h.mem_transactions
  exact fun t ht => ⟨(hmem t).2 (.inl ht), h.entriesOf_old (h.ne_txId ht)⟩

/-- Amounts of four decimals are stored as they are. -/
theorem Stores.values {txId : Id} {line : ParsedLine} {entry : LedgerEntry}
    (h : Stores txId line entry) (hd : HasScale 4 line.debit) (hc : HasScale 4 line.credit) :
    entry.debit.value = line.debit ∧ entry.credit.value = line.credit :=
  ⟨Numeric.value_of_ofRat? hd h.debit, Numeric.value_of_ofRat? hc h.credit⟩

/-- The signed amount of an entry. -/
def LedgerEntry.amount (e : LedgerEntry) : ℚ := e.debit.value - e.credit.value

/-- Stored entries add up to what was submitted, currency by currency. -/
theorem total_stored {txId : Id} {lines : List ParsedLine} {new : List LedgerEntry}
    (h : List.Forall₂ (Stores txId) lines new) (hd : ∀ line ∈ lines, HasScale 4 line.debit)
    (hc : ∀ line ∈ lines, HasScale 4 line.credit)
    (hcurrency : ∀ line ∈ lines, varchar "currency" 3 line.currency = .ok line.currency) (c : String) :
    total LedgerEntry.amount (·.currency = c) new = debitsIn c lines - creditsIn c lines := by
  induction h with
  | nil => simp [debitsIn, creditsIn]
  | @cons line entry lines new hline _ ih =>
    have ih := ih (fun l hl => hd l (List.mem_cons_of_mem _ hl))
      (fun l hl => hc l (List.mem_cons_of_mem _ hl))
      fun l hl => hcurrency l (List.mem_cons_of_mem _ hl)
    obtain ⟨hdebit, hcredit⟩ := hline.values (hd line (List.mem_cons_self ..))
      (hc line (List.mem_cons_self ..))
    have hcur : entry.currency = line.currency :=
      Except.ok.inj (hline.currency.symm.trans (hcurrency line (List.mem_cons_self ..)))
    have hamount : entry.amount = line.debit - line.credit := by
      rw [LedgerEntry.amount, hdebit, hcredit]
    unfold debitsIn creditsIn at ih ⊢
    rw [total_cons, total_cons, total_cons, ih, hcur, hamount]
    split_ifs <;> ring

end ReckonFlow
