import ReckonFlow.Proofs.TrialBalance

/-! The deferred trigger adds up the entries of a transaction in all currencies at once, the
service in each currency: what the database lets through without the service. -/

namespace ReckonFlow

open Books Decimal

variable {env : Env} {db db' after : Db} {txId : Id} {lines : List ParsedLine}

/-! ## Rows inserted without the service -/

theorem foldlM_insertReferenced :
    ∀ {db : Db}, lines.foldlM (insertReferenced txId) db = .ok after →
      lines.foldlM (insertEntry txId) db = .ok after := by
  induction lines with
  | nil => exact id
  | cons line lines ih =>
    intro db h
    rw [List.foldlM_cons, Except.bind_eq_ok] at h ⊢
    obtain ⟨db₁, h₁, h₂⟩ := h
    simp only [insertReferenced, Except.bind_eq_ok] at h₁
    obtain ⟨_, -, _, -, h₁⟩ := h₁
    exact ⟨db₁, h₁, ih h₂⟩

/-- The rows added since `db` have the keys given out since. -/
def Since (db after : Db) : Prop :=
  db.ledgerEntries.next ≤ after.ledgerEntries.next ∧
    ∀ e ∈ after.ledgerEntries.rows, e ∈ db.ledgerEntries.rows ∨ db.ledgerEntries.next ≤ e.id

theorem Since.insertEntry {line : ParsedLine} (h : Since db after)
    (hinsert : insertEntry txId after line = .ok db') : Since db db' := by
  simp only [ReckonFlow.insertEntry, Except.bind_eq_ok] at hinsert
  obtain ⟨_, -, _, -, _, -, _, -, hinsert⟩ := hinsert
  split_ifs at hinsert
  obtain rfl := Except.ok.inj hinsert
  refine ⟨?_, fun e he => ?_⟩
  · have := h.1
    simp only [Table.insert]
    omega
  · rcases Table.mem_insert.1 he with he | rfl
    · exact h.2 e he
    · exact .inr h.1

theorem since_insert (h : lines.foldlM (insertEntry txId) db = .ok after) : Since db after :=
  Except.foldlM_invariant (fun _ _ _ hs => hs.insertEntry) ⟨le_rfl, fun _ he => .inl he⟩ h

/-! ## What the trigger lets through -/

/-- The commit of rows inserted under a transaction that had none: the trigger's sum is zero. -/
theorem commit_iff_total (hfresh : entriesOf db txId = [])
    (hinsert : lines.foldlM (insertEntry txId) db = .ok after) :
    (∃ db', commit db after = .ok db') ↔
      total LedgerEntry.amount (fun _ => True) (entriesOf after txId) = 0 := by
  obtain ⟨new, hnew, hrows, -⟩ := foldlM_insertEntry hinsert
  have hsince := since_insert hinsert
  simp only [commit_eq_ok, exists_eq_left', ← checkBalanced_eq_ok]
  have hold : ∀ e ∈ db.ledgerEntries.rows, e.transactionId ≠ txId := by
    intro e he htx
    have hmem : e ∈ entriesOf db txId := List.mem_filter.2 ⟨he, decide_eq_true htx⟩
    rw [hfresh] at hmem
    cases hmem
  constructor
  · intro hchecks
    cases hentries : entriesOf after txId with
    | nil => exact checkBalanced_eq_ok.2 (by rw [hentries, total_nil])
    | cons e es =>
      obtain ⟨he, htx⟩ := List.mem_filter.1 (hentries ▸ List.mem_cons_self .. : e ∈ entriesOf after txId)
      have htx : e.transactionId = txId := of_decide_eq_true htx
      rw [← htx]
      exact hchecks e he ((hsince.2 e he).resolve_left fun h => hold e h htx)
  · intro hcheck e he hnext
    rw [hrows] at he
    rcases List.mem_append.1 he with he | he
    · exact absurd (db.ledgerEntries.fresh e he) (not_lt.2 hnext)
    · obtain ⟨line, -, hline⟩ := exists_line hnew he
      rw [hline.transaction]
      exact hcheck

/-! ## The service's rule -/

/-- A currency as the service compares it. -/
def currencyOf (env : Env) (e : LedgerEntry) : String := env.upper e.currency

def currenciesOf (env : Env) (entries : List LedgerEntry) : List String :=
  (entries.map (currencyOf env)).dedup

def imbalanceIn (env : Env) (entries : List LedgerEntry) (c : String) : ℚ :=
  total LedgerEntry.amount (currencyOf env · = c) entries

/-- The rule of `create_balanced_transaction`, on stored entries. -/
def BalancedIn (env : Env) (entries : List LedgerEntry) : Prop :=
  ∀ c, total (·.debit.value) (currencyOf env · = c) entries =
    total (·.credit.value) (currencyOf env · = c) entries

/-- Differences in several currencies that add up to zero. -/
def CancelAcross (env : Env) (entries : List LedgerEntry) : Prop :=
  (∃ c ∈ currenciesOf env entries, imbalanceIn env entries c ≠ 0) ∧
    ((currenciesOf env entries).map (imbalanceIn env entries)).sum = 0

theorem mem_currenciesOf {entries : List LedgerEntry} {e : LedgerEntry} (he : e ∈ entries) :
    currencyOf env e ∈ currenciesOf env entries := List.mem_dedup.2 (List.mem_map_of_mem he)

theorem balancedIn_iff {entries : List LedgerEntry} :
    BalancedIn env entries ↔ ∀ c ∈ currenciesOf env entries, imbalanceIn env entries c = 0 := by
  have hsub : ∀ c, imbalanceIn env entries c = total (·.debit.value) (currencyOf env · = c) entries -
      total (·.credit.value) (currencyOf env · = c) entries := fun c => total_sub
  constructor
  · intro h c _
    rw [hsub, h c, sub_self]
  · intro h c
    rw [← sub_eq_zero, ← hsub]
    by_cases hc : c ∈ currenciesOf env entries
    · exact h c hc
    · exact total_eq_zero fun e he heq => hc (heq ▸ mem_currenciesOf he)

/-- The trigger's sum is the sum of the imbalances. -/
theorem sum_imbalances (env : Env) (entries : List LedgerEntry) :
    ((currenciesOf env entries).map (imbalanceIn env entries)).sum =
      total LedgerEntry.amount (fun _ => True) entries := by
  have hsum := sum_total LedgerEntry.amount (fun _ => True) (currencyOf env)
    (List.nodup_dedup (entries.map (currencyOf env))) entries
    fun e he _ => mem_currenciesOf he
  refine Eq.trans ?_ hsum
  simp only [true_and]
  rfl

/-- A set of entries that the database commits under a transaction id balances in every currency,
unless it is off in several and their differences cancel. -/
theorem backstop_iff (hfresh : entriesOf db txId = [])
    (hinsert : lines.foldlM (insertReferenced txId) db = .ok after) :
    ((∃ db', commit db after = .ok db') → BalancedIn env (entriesOf after txId)) ↔
      ¬ CancelAcross env (entriesOf after txId) := by
  rw [commit_iff_total hfresh (foldlM_insertReferenced hinsert), ← sum_imbalances env,
    balancedIn_iff, CancelAcross]
  constructor
  · rintro h ⟨⟨c, hc, hne⟩, hsum⟩
    exact hne (h hsum c hc)
  · intro h hsum c hc
    by_contra hne
    exact h ⟨⟨c, hc, hne⟩, hsum⟩

def demoAccount (id : Id) : Account := ⟨id, "CASH", "Cash", "EUR"⟩

def demoTransaction (id : Id) : LedgerTransaction := ⟨id, "SCRIPT", "By hand"⟩

theorem demoAccount_id (id : Id) : (demoAccount id).id = id := rfl

theorem demoTransaction_id (id : Id) : (demoTransaction id).id = id := rfl

/-- One account, and a transaction without entries. -/
def demoOpen : Db :=
  { Db.empty with
    accounts := Table.empty.insert demoAccount demoAccount_id
    ledgerTransactions := Table.empty.insert demoTransaction demoTransaction_id }

/-- A debit and a credit of ten, in the currencies given. -/
def demoLines (debited credited : String) : List ParsedLine :=
  [⟨1, 10, 0, debited, none⟩, ⟨1, 0, 10, credited, none⟩]

/-- Inserted and committed, with the imbalances. -/
def demoBackstop (credited : String) : Option (Bool × List (String × ℚ)) :=
  ((demoLines "EUR" credited).foldlM (insertReferenced 1) demoOpen).toOption.map fun after =>
    ((commit demoOpen after).isOk, (currenciesOf demoEnv (entriesOf after 1)).map fun c =>
      (c, imbalanceIn demoEnv (entriesOf after 1) c))

theorem demoBackstop_eq {credited : String} {imbalances : List (String × ℚ)}
    (h : demoBackstop credited = some (true, imbalances)) :
    ∃ after, (demoLines "EUR" credited).foldlM (insertReferenced 1) demoOpen = .ok after ∧
      (∃ db', commit demoOpen after = .ok db') ∧
      ((currenciesOf demoEnv (entriesOf after 1)).map fun c =>
        (c, imbalanceIn demoEnv (entriesOf after 1) c)) = imbalances := by
  obtain ⟨after, hinsert, heq⟩ := Option.map_eq_some_iff.1 h
  obtain ⟨hcommit, himbalances⟩ := Prod.mk.inj heq
  refine ⟨after, ?_, ?_, himbalances⟩
  · cases hrun : (demoLines "EUR" credited).foldlM (insertReferenced 1) demoOpen with
    | error e => rw [hrun] at hinsert; cases hinsert
    | ok db' => rw [hrun] at hinsert; cases hinsert; rfl
  · cases hrun : commit demoOpen after with
    | error e => rw [hrun] at hcommit; cases hcommit
    | ok db' => exact ⟨db', rfl⟩

/-- Lower case is no other currency. -/
theorem backstop_iff_one_currency : ∃ after, (demoLines "EUR" "eur").foldlM (insertReferenced 1) demoOpen =
    .ok after ∧ (∃ db', commit demoOpen after = .ok db') ∧ BalancedIn demoEnv (entriesOf after 1) := by
  obtain ⟨after, hinsert, hcommit, hzero⟩ :=
    demoBackstop_eq (show demoBackstop "eur" = some (true, [("EUR", 0)]) by decide +kernel)
  refine ⟨after, hinsert, hcommit, (backstop_iff rfl hinsert).2 ?_ hcommit⟩
  rintro ⟨⟨c, hc, hne⟩, -⟩
  have hmem := List.mem_map_of_mem (f := fun c =>
    (c, imbalanceIn demoEnv (entriesOf after 1) c)) hc
  rw [hzero, List.mem_singleton] at hmem
  exact hne (Prod.mk.inj hmem).2

/-- Ten euros against ten dollars. -/
theorem backstop_fails : ¬ ∀ (env : Env) (db after : Db) (txId : Id) (lines : List ParsedLine),
    entriesOf db txId = [] → lines.foldlM (insertReferenced txId) db = .ok after →
      (∃ db', commit db after = .ok db') → BalancedIn env (entriesOf after txId) := by
  intro hall
  obtain ⟨after, hinsert, hcommit, himbalances⟩ := demoBackstop_eq
    (show demoBackstop "USD" = some (true, [("EUR", 10), ("USD", -10)]) by decide +kernel)
  have hbalanced := hall demoEnv demoOpen after 1 (demoLines "EUR" "USD") rfl hinsert hcommit
  have hmem : ("EUR", (10 : ℚ)) ∈ (currenciesOf demoEnv (entriesOf after 1)).map fun c =>
      (c, imbalanceIn demoEnv (entriesOf after 1) c) := by
    rw [himbalances]
    exact List.mem_cons_self ..
  obtain ⟨c, hc, heq⟩ := List.mem_map.1 hmem
  have hzero := balancedIn_iff.1 hbalanced c hc
  rw [(Prod.mk.inj heq).2] at hzero
  norm_num at hzero

end ReckonFlow
