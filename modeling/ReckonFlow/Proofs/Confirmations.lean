import ReckonFlow.Proofs.Matching
import ReckonFlow.Proofs.MatchSessions

/-! Confirmations in sessions of their own, any number at once: the locks are taken in one order,
so no wait closes a circle, and what is committed is what the committed requests would have
done one after the other. -/

namespace ReckonFlow.MatchSession

open Lts

variable {env : Env} {settings : Settings} {req : ℕ → Request} {s s' : State} {ev : Event}
  {db : Db} {tr : List (State × Event)}

/-! ## Waiting -/

/-- Session `i` cannot go on before `j` ends: for a row lock, or for the unique index to tell
whether the link it is about to write exists. -/
inductive Waits (s : State) (i j : ℕ) : Prop
  | expense {e b : Id} {map : IdentityMap} (hphase : s.phase i = .confirming e b map)
      (hlock : s.expenseLock e = some j) (hne : j ≠ i)
  | bankRow {b : Id} {expense : Expense} {cached : Option BankTransaction}
      (hphase : s.phase i = .expenseLocked b expense cached) (hlock : s.bankLock b = some j)
      (hne : j ≠ i)
  | unique {expense expense' : Expense} {row row' : BankTransaction}
      (hphase : s.phase i = .bothLocked expense row)
      (hflushed : s.phase j = .flushed (.link expense' row')) (hsame : expense'.id = expense.id)
      (hne : j ≠ i)

/-- How many locks a session has. -/
def rank : Phase → ℕ
  | .expenseLocked .. => 1
  | .bothLocked .. | .flushed _ => 2
  | _ => 0

/-! ## The invariant -/

/-- Session `i` holds both locks of its request and has the committed values of the rows. -/
structure Owns (req : ℕ → Request) (s : State) (i : ℕ) (expense : Expense) (row : BankTransaction) :
    Prop where
  request : req i = .confirm expense.id row.id
  expenseLock : s.expenseLock expense.id = some i
  bankLock : s.bankLock row.id = some i
  expense : s.db.expenses.get expense.id = some expense
  row : s.db.bankTransactions.get row.id = some row

/-- The two errors of `confirm_match`. -/
def Refusal (err : Error) : Prop := (∃ d, err = .notFound d) ∨ ∃ d, err = .conflict d

def Stands (req : ℕ → Request) (s : State) (i : ℕ) : Phase → Prop
  | .idle | .committed | .aborted => True
  | .confirming e b map => req i = .confirm e b ∧ map = {}
  | .expenseLocked b expense cached => req i = .confirm expense.id b ∧ cached = none ∧
      s.expenseLock expense.id = some i ∧ s.db.expenses.get expense.id = some expense
  | .bothLocked expense row => Owns req s i expense row
  | .flushed (.link expense row) => Owns req s i expense row ∧
      (row.matchedExpenseId = none ∨ row.matchedExpenseId = some expense.id) ∧
      expense.matchStatus ≠ .matched
  | .failed err => Refusal err
  | .loaded _ | .parking _ | .flushed (.park _) => False

/-- A phase in which the session has locked the expense, or the bank row. -/
def KeepsExpense (e : Id) : Phase → Prop
  | .expenseLocked _ expense _ | .bothLocked expense _ | .flushed (.link expense _) => expense.id = e
  | _ => False

def KeepsBank (b : Id) : Phase → Prop
  | .bothLocked _ row | .flushed (.link _ row) => row.id = b
  | _ => False

/-- The link of a bank row to an expense. -/
def LinkedTo (db : Db) (e b : Id) : Prop :=
  ∃ r ∈ db.bankTransactions.rows, r.id = b ∧ r.matchedExpenseId = some e

/-- A request served alone. -/
def confirmOf (req : ℕ → Request) (db : Db) (i : ℕ) : Except Error Db :=
  match req i with
  | .confirm e b => (confirmMatch db e b).map (·.1)
  | .auto _ => .ok db

structure Serial (req : ℕ → Request) (db : Db) (s : State) : Prop where
  matching : s.db.Matching
  stands : ∀ i, Stands req s i (s.phase i)
  expenseHeld : ∀ e i, s.expenseLock e = some i → KeepsExpense e (s.phase i)
  bankHeld : ∀ b i, s.bankLock b = some i → KeepsBank b (s.phase i)
  links : ∀ e b, LinkedTo s.db e b ↔
    LinkedTo db e b ∨ ∃ i, s.phase i = .committed ∧ req i = .confirm e b
  order : ∃ order : List ℕ, order.Nodup ∧ (∀ i, i ∈ order ↔ s.phase i = .committed) ∧
    order.foldlM (confirmOf req) db = .ok s.db

theorem Serial.init (h : db.Matching) : Serial req db (State.init db) where
  matching := h
  stands _ := trivial
  expenseHeld := by rintro e i ⟨⟩
  bankHeld := by rintro b i ⟨⟩
  links e b := by
    refine ⟨.inl, ?_⟩
    rintro (hl | ⟨i, hi, -⟩)
    · exact hl
    · cases hi
  order := by
    refine ⟨[], List.nodup_nil, fun i => ⟨?_, ?_⟩, rfl⟩
    · rintro ⟨⟩
    · rintro ⟨⟩

/-! ## No circle -/

theorem Serial.stands_of (h : Serial req db s) {i : ℕ} {p : Phase} (hphase : s.phase i = p) :
    Stands req s i p := hphase ▸ h.stands i

theorem Serial.rank_lt (h : Serial req db s) {i j : ℕ} (hw : Waits s i j) :
    rank (s.phase i) < rank (s.phase j) := by
  cases hw with
  | expense hphase hlock hne =>
    have hkeeps := h.expenseHeld _ _ hlock
    rw [hphase]
    cases hj : s.phase j with
    | expenseLocked => exact one_pos
    | bothLocked => exact two_pos
    | flushed => exact two_pos
    | _ => rw [hj] at hkeeps; cases hkeeps
  | bankRow hphase hlock hne =>
    have hkeeps := h.bankHeld _ _ hlock
    rw [hphase]
    cases hj : s.phase j with
    | bothLocked => exact one_lt_two
    | flushed => exact one_lt_two
    | _ => rw [hj] at hkeeps; cases hkeeps
  | unique hphase hflushed hsame hne =>
    -- two sessions cannot both have locked the expense
    have hi := (h.stands_of hphase).expenseLock
    have hj := (h.stands_of hflushed).1.expenseLock
    rw [hsame, hi] at hj
    exact absurd (Option.some.inj hj).symm hne

theorem Serial.no_circle (h : Serial req db s) (i : ℕ) : ¬ Relation.TransGen (Waits s) i i := by
  have hrank : ∀ i j, Waits s i j → rank (s.phase i) < rank (s.phase j) := fun _ _ hw => h.rank_lt hw
  exact Locks.acyclic_of_rank hrank i

/-! ## Steps -/

/-- What a step of another session leaves to `j`: its locks and the rows under them. -/
structure Untouched (s s' : State) (j : ℕ) : Prop where
  expenseLock : ∀ e, s.expenseLock e = some j → s'.expenseLock e = some j
  bankLock : ∀ b, s.bankLock b = some j → s'.bankLock b = some j
  expense : ∀ e, s.expenseLock e = some j → s'.db.expenses.get e = s.db.expenses.get e
  row : ∀ b, s.bankLock b = some j → s'.db.bankTransactions.get b = s.db.bankTransactions.get b

theorem Owns.untouched {j : ℕ} {expense : Expense} {row : BankTransaction} (hu : Untouched s s' j)
    (h : Owns req s j expense row) : Owns req s' j expense row where
  request := h.request
  expenseLock := hu.expenseLock _ h.expenseLock
  bankLock := hu.bankLock _ h.bankLock
  expense := (hu.expense _ h.expenseLock).trans h.expense
  row := (hu.row _ h.bankLock).trans h.row

theorem Stands.untouched {j : ℕ} {p : Phase} (hu : Untouched s s' j) (h : Stands req s j p) :
    Stands req s' j p := by
  cases p with
  | expenseLocked b expense cached =>
    obtain ⟨hreq, hcached, hlock, hrow⟩ := h
    exact ⟨hreq, hcached, hu.expenseLock _ hlock, (hu.expense _ hlock).trans hrow⟩
  | bothLocked expense row => exact Owns.untouched hu h
  | flushed w =>
    cases w with
    | park expense => exact h
    | link expense row => exact ⟨Owns.untouched hu h.1, h.2⟩
  | _ => exact h

/-- A step of `i` that commits nothing: what it holds then, and what the others hold. -/
theorem Serial.move (h : Serial req db s) {s₁ : State} {i : ℕ} {p : Phase} (hdb : s₁.db = s.db)
    (hphase : s₁.phase = s.phase) (hbefore : s.phase i ≠ .committed) (hafter : p ≠ .committed)
    (hexpense : ∀ e, s₁.expenseLock e = some i → KeepsExpense e p)
    (hbank : ∀ b, s₁.bankLock b = some i → KeepsBank b p)
    (hexpenses : ∀ j ≠ i, ∀ e, s₁.expenseLock e = some j ↔ s.expenseLock e = some j)
    (hbanks : ∀ j ≠ i, ∀ b, s₁.bankLock b = some j ↔ s.bankLock b = some j)
    (hp : Stands req s₁ i p) : Serial req db (s₁.setPhase i p) := by
  have hphases : ∀ j ≠ i, (s₁.setPhase i p).phase j = s.phase j := by
    intro j hj
    rw [setPhase_of_ne _ _ hj, hphase]
  have hcommitted : ∀ j, (s₁.setPhase i p).phase j = .committed ↔ s.phase j = .committed := by
    intro j
    by_cases hj : j = i
    · subst hj
      rw [setPhase_self]
      exact ⟨fun he => absurd he hafter, fun he => absurd he hbefore⟩
    · rw [hphases j hj]
  refine ⟨?_, fun j => ?_, fun e j he => ?_, fun b j hb => ?_, fun e b => ?_, ?_⟩
  · rw [show (s₁.setPhase i p).db = s.db from hdb]
    exact h.matching
  · by_cases hj : j = i
    · subst hj
      rw [setPhase_self]
      have hu : Untouched s₁ (s₁.setPhase j p) j :=
        ⟨fun _ he => he, fun _ hb => hb, fun _ _ => rfl, fun _ _ => rfl⟩
      exact hp.untouched hu
    · rw [hphases j hj]
      refine (h.stands j).untouched ⟨fun e he => (hexpenses j hj e).2 he,
        fun b hb => (hbanks j hj b).2 hb, fun e _ => ?_, fun b _ => ?_⟩
      · exact congrArg (·.expenses.get e) hdb
      · exact congrArg (·.bankTransactions.get b) hdb
  · by_cases hj : j = i
    · subst hj
      rw [setPhase_self]
      exact hexpense e he
    · rw [hphases j hj]
      exact h.expenseHeld e j ((hexpenses j hj e).1 he)
  · by_cases hj : j = i
    · subst hj
      rw [setPhase_self]
      exact hbank b hb
    · rw [hphases j hj]
      exact h.bankHeld b j ((hbanks j hj b).1 hb)
  · rw [show (s₁.setPhase i p).db = s.db from hdb]
    simp only [hcommitted]
    exact h.links e b
  · rw [show (s₁.setPhase i p).db = s.db from hdb]
    simp only [hcommitted]
    exact h.order

theorem Serial.lockExpense (h : Serial req db s) {i : ℕ} {e b : Id} {map : IdentityMap}
    {current : Expense} (hphase : s.phase i = .confirming e b map)
    (hfree : s.expenseLock.Free i e) (hrow : s.db.expenses.get e = some current) :
    Serial req db ((s.lockExpense i e).setPhase i (.expenseLocked b current none)) := by
  obtain ⟨hreq, -⟩ := h.stands_of hphase
  obtain ⟨-, rfl⟩ := Table.get_eq_some.1 hrow
  refine h.move rfl rfl (by rw [hphase]; rintro ⟨⟩) (by rintro ⟨⟩) (fun e' he => ?_) (fun b' hb => ?_)
    (fun _ hj _ => Locks.take_iff hfree hj) (fun _ _ _ => Iff.rfl)
    ⟨hreq, rfl, Locks.take_self, hrow⟩
  · rcases Locks.of_take he with rfl | hold
    · rfl
    · have hkeeps := h.expenseHeld _ _ hold
      rw [hphase] at hkeeps
      cases hkeeps
  · have hkeeps := h.bankHeld b' i hb
    rw [hphase] at hkeeps
    cases hkeeps

theorem Serial.lockBank (h : Serial req db s) {i : ℕ} {b : Id} {expense : Expense}
    {cached : Option BankTransaction} {current : BankTransaction}
    (hphase : s.phase i = .expenseLocked b expense cached) (hfree : s.bankLock.Free i b)
    (hrow : s.db.bankTransactions.get b = some current) :
    Serial req db ((s.lockBank i b).setPhase i (.bothLocked expense current)) := by
  obtain ⟨hreq, -, hlock, hexpense⟩ := h.stands_of hphase
  obtain ⟨-, rfl⟩ := Table.get_eq_some.1 hrow
  refine h.move rfl rfl (by rw [hphase]; rintro ⟨⟩) (by rintro ⟨⟩) (fun e' he => ?_) (fun b' hb => ?_)
    (fun _ _ _ => Iff.rfl) (fun _ hj _ => Locks.take_iff hfree hj)
    ⟨hreq, hlock, Locks.take_self, hexpense, hrow⟩
  · have hkeeps := h.expenseHeld e' i he
    rw [hphase] at hkeeps
    exact hkeeps
  · rcases Locks.of_take hb with rfl | hold
    · rfl
    · have hkeeps := h.bankHeld _ _ hold
      rw [hphase] at hkeeps
      cases hkeeps

theorem Serial.fail (h : Serial req db s) {i : ℕ} {p : Phase} (hbefore : s.phase i ≠ .committed)
    (hafter : p ≠ .committed) (hp : Stands req (s.release i) i p) :
    Serial req db (s.fail i p) :=
  h.move rfl rfl hbefore hafter (fun _ he => absurd he Locks.release_self)
    (fun _ hb => absurd hb Locks.release_self) (fun _ hj _ => Locks.release_iff hj)
    (fun _ hj _ => Locks.release_iff hj) hp

/-- `confirm_match` flushes only what its checks let through under the locks. -/
theorem Serial.flush (h : Serial req db s) {i : ℕ} {expense : Expense} {row : BankTransaction}
    {u : Unit} (hphase : s.phase i = .bothLocked expense row)
    (hopen : checkOpen expense row expense.id row.id = .ok u) :
    Serial req db (s.setPhase i (.flushed (.link expense row))) := by
  have howns : Owns req s i expense row := h.stands_of hphase
  refine h.move rfl rfl (by rw [hphase]; rintro ⟨⟩) (by rintro ⟨⟩) (fun e he => ?_) (fun b hb => ?_)
    (fun _ _ _ => Iff.rfl) (fun _ _ _ => Iff.rfl) ⟨howns, checkOpen_ok.1 hopen⟩
  · have hkeeps := h.expenseHeld e i he
    rw [hphase] at hkeeps
    exact hkeeps
  · have hkeeps := h.bankHeld b i hb
    rw [hphase] at hkeeps
    exact hkeeps

/-- The unique index never refuses a link that passed the checks. -/
theorem Serial.unclaimed (h : Serial req db s) {i : ℕ} {expense : Expense} {row : BankTransaction}
    {u : Unit} (hphase : s.phase i = .bothLocked expense row)
    (hopen : checkOpen expense row expense.id row.id = .ok u) : Unclaimed s.db expense row := by
  have howns : Owns req s i expense row := h.stands_of hphase
  exact fun r hr hlink => absurd hlink (h.matching.free howns.expense (checkOpen_ok.1 hopen).2 r hr)

theorem checkOpen_refusal {expense : Expense} {row : BankTransaction} {e b : Id} {err : Error}
    (h : checkOpen expense row e b = .error err) : (∃ d, err = .conflict d) ∧
      ((∃ e', row.matchedExpenseId = some e' ∧ e' ≠ e) ∨ expense.matchStatus = .matched) := by
  by_cases hclaim : row.matchedExpenseId = none ∨ row.matchedExpenseId = some e
  · by_cases hstatus : expense.matchStatus = .matched
    · simp only [checkOpen, ensure, if_pos hclaim, hstatus, ne_eq, not_true_eq_false, if_false, bind,
        Except.bind] at h
      exact ⟨⟨_, (Except.error.inj h).symm⟩, .inr hstatus⟩
    · have hok : checkOpen expense row e b = .ok () := checkOpen_ok.2 ⟨hclaim, hstatus⟩
      rw [hok] at h
      cases h
  · simp only [checkOpen, ensure, if_neg hclaim, bind, Except.bind] at h
    refine ⟨⟨_, (Except.error.inj h).symm⟩, .inl ?_⟩
    cases hlink : row.matchedExpenseId with
    | none => exact absurd (.inl hlink) hclaim
    | some e' => exact ⟨e', rfl, fun he => hclaim (.inr (hlink.trans (congrArg some he)))⟩

/-! ## Commits -/

/-- Rows locked by their writer are written as one request alone would. -/
theorem Owns.link {i : ℕ} {expense : Expense} {row : BankTransaction} (h : Owns req s i expense row) :
    (Write.link expense row).apply s.db = s.db.link expense.id row.id := by
  have hexpenses : s.db.expenses.modify expense.id (writeStatus expense .matched) (fun _ => rfl) =
      s.db.expenses.modify expense.id (·.setMatchStatus .matched)
        (Expense.setMatchStatus_id .matched) := by
    refine Table.modify_congr fun r hr => ?_
    obtain rfl := Option.some.inj (h.expense.symm.trans hr)
    rw [writeStatus, written_self]
  have hrows : s.db.bankTransactions.modify row.id (writeLink row expense.id) (fun _ => rfl) =
      s.db.bankTransactions.modify row.id (·.link expense.id)
        (BankTransaction.link_id expense.id) := by
    refine Table.modify_congr fun r hr => ?_
    obtain rfl := Option.some.inj (h.row.symm.trans hr)
    rw [writeLink, written_self, written_self]
    rfl
  rw [Write.apply, writeExpense, hexpenses, hrows]
  rfl

theorem linkedTo_link {db : Db} {e b x y : Id} {row : BankTransaction}
    (hb : db.bankTransactions.get b = some row)
    (hclaim : row.matchedExpenseId = none ∨ row.matchedExpenseId = some e) :
    LinkedTo (db.link e b) x y ↔ LinkedTo db x y ∨ (x = e ∧ y = b) := by
  obtain ⟨hrow, hid⟩ := Table.get_eq_some.1 hb
  constructor
  · rintro ⟨r, hr, rfl, hlink⟩
    rcases (mem_link hb).1 hr with rfl | ⟨hr, -⟩
    · exact .inr ⟨(Option.some.inj hlink).symm, hid⟩
    · exact .inl ⟨r, hr, rfl, hlink⟩
  · rintro (⟨r, hr, rfl, hlink⟩ | ⟨rfl, rfl⟩)
    · by_cases hrb : r.id = b
      · -- the row itself: its old link is the new one
        obtain rfl := Table.key_inj hr hrow (hrb.trans hid.symm)
        have hsame : x = e := by
          rcases hclaim with hnone | hsome
          · rw [hnone] at hlink
            cases hlink
          · exact Option.some.inj (hlink.symm.trans hsome)
        exact ⟨_, (mem_link hb).2 (.inl rfl), rfl, congrArg some hsame.symm⟩
      · exact ⟨r, (mem_link hb).2 (.inr ⟨hr, hrb⟩), rfl, hlink⟩
    · exact ⟨_, (mem_link hb).2 (.inl rfl), hid, rfl⟩

/-- The commit is the request served alone. -/
theorem Serial.confirm (h : Serial req db s) {i : ℕ} {expense : Expense} {row : BankTransaction}
    (hphase : s.phase i = .flushed (.link expense row)) :
    confirmOf req s.db i = .ok ((Write.link expense row).apply s.db) := by
  obtain ⟨howns, hclaim, hstatus⟩ := h.stands_of hphase
  have hunique : ∀ r ∈ s.db.bankTransactions.rows, r.matchedExpenseId = some expense.id → r.id = row.id :=
    fun r hr hlink => absurd hlink (h.matching.free howns.expense hstatus r hr)
  have hexpense : required s.db.expenses "Expense" expense.id = .ok expense :=
    required_eq_ok.2 howns.expense
  have hrow : required s.db.bankTransactions "Bank transaction" row.id = .ok row :=
    required_eq_ok.2 howns.row
  have hopen : checkOpen expense row expense.id row.id = .ok () := checkOpen_ok.2 ⟨hclaim, hstatus⟩
  rw [howns.link]
  simp only [confirmOf, howns.request, confirmMatch, hexpense, hrow, hopen, ensure, if_pos hunique,
    bind, Except.bind, Except.map, pure, Except.pure]

theorem Serial.untouched_commit (h : Serial req db s) {i j : ℕ} {expense : Expense}
    {row : BankTransaction} (hphase : s.phase i = .flushed (.link expense row)) (hj : j ≠ i) :
    Untouched s (((s.write (.link expense row)).release i).setPhase i .committed) j := by
  obtain ⟨howns, -⟩ := h.stands_of hphase
  refine ⟨fun e he => Locks.release_held hj he, fun b hb => Locks.release_held hj hb,
    fun e he => ?_, fun b hb => ?_⟩
  · have hne : e ≠ expense.id := by
      rintro rfl
      exact hj (Option.some.inj (he.symm.trans howns.expenseLock))
    refine (get_writeExpense s.db expense .matched e).trans ?_
    simp only [if_neg hne, Option.map_id']
  · have hne : b ≠ row.id := by
      rintro rfl
      exact hj (Option.some.inj (hb.symm.trans howns.bankLock))
    refine (get_link s.db expense row b).trans ?_
    simp only [if_neg hne, Option.map_id']

theorem Serial.commit (h : Serial req db s) {i : ℕ} {expense : Expense} {row : BankTransaction}
    (hphase : s.phase i = .flushed (.link expense row)) :
    Serial req db (((s.write (.link expense row)).release i).setPhase i .committed) := by
  obtain ⟨howns, hclaim, hstatus⟩ := h.stands_of hphase
  have hdb : (((s.write (.link expense row)).release i).setPhase i .committed).db =
      s.db.link expense.id row.id := howns.link
  have hphases : ∀ j ≠ i, (((s.write (.link expense row)).release i).setPhase i .committed).phase j =
      s.phase j := fun j hj => setPhase_of_ne _ _ hj
  have hbefore : s.phase i ≠ .committed := by
    rw [hphase]
    rintro ⟨⟩
  have hcommitted : ∀ j, (((s.write (.link expense row)).release i).setPhase i .committed).phase j =
      .committed ↔ s.phase j = .committed ∨ j = i := by
    intro j
    by_cases hj : j = i
    · subst hj
      simp only [setPhase_self, or_true]
    · rw [hphases j hj, or_iff_left hj]
  refine ⟨?_, fun j => ?_, fun e j he => ?_, fun b j hb => ?_, fun e b => ?_, ?_⟩
  · rw [hdb]
    exact h.matching.link howns.expense howns.row hclaim hstatus
  · by_cases hj : j = i
    · subst hj
      rw [setPhase_self]
      trivial
    · rw [hphases j hj]
      exact (h.stands j).untouched (h.untouched_commit hphase hj)
  · by_cases hj : j = i
    · subst hj
      exact absurd he Locks.release_self
    · rw [hphases j hj]
      exact h.expenseHeld e j ((Locks.release_iff hj).1 he)
  · by_cases hj : j = i
    · subst hj
      exact absurd hb Locks.release_self
    · rw [hphases j hj]
      exact h.bankHeld b j ((Locks.release_iff hj).1 hb)
  · rw [hdb, linkedTo_link howns.row hclaim, h.links]
    simp only [hcommitted, or_and_right, exists_or, exists_eq_left, howns.request, Request.confirm.injEq,
      or_assoc]
    rw [eq_comm (a := e), eq_comm (a := b)]
  · obtain ⟨order, hnodup, hmem, hfold⟩ := h.order
    refine ⟨order ++ [i], ?_, fun j => ?_, ?_⟩
    · refine List.Nodup.append hnodup (List.nodup_singleton i) ?_
      rw [List.disjoint_singleton]
      exact fun hi => hbefore ((hmem i).1 hi)
    · rw [hcommitted, List.mem_append, List.mem_singleton, hmem]
    · rw [List.foldlM_append, hfold]
      show (confirmOf req s.db i >>= pure) = _
      rw [h.confirm hphase]
      rfl

theorem Serial.step (hconfirm : ∀ i, ∃ e b, req i = .confirm e b) (h : Serial req db s)
    (hs : step env settings req s ev = some s') : Serial req db s' := by
  cases moved_of_step hs with
  | confirming hphase hreq =>
    rename_i i e b
    refine h.move rfl rfl (by rw [hphase]; rintro ⟨⟩) (by rintro ⟨⟩) (fun e' he => ?_) (fun b' hb => ?_)
      (fun _ _ _ => Iff.rfl) (fun _ _ _ => Iff.rfl) ⟨hreq, rfl⟩
    · have hkeeps := h.expenseHeld e' i he
      rw [hphase] at hkeeps
      cases hkeeps
    · have hkeeps := h.bankHeld b' i hb
      rw [hphase] at hkeeps
      cases hkeeps
  | loaded hreq =>
    rename_i i _ _
    obtain ⟨e, b, hconfirm⟩ := hconfirm i
    rw [hreq] at hconfirm
    cases hconfirm
  | ranked hphase =>
    have hstands := h.stands_of hphase
    cases hstands
  | lockedExpense hphase hfree hrow =>
    obtain ⟨-, rfl⟩ := h.stands_of hphase
    exact h.lockExpense hphase hfree hrow
  | lockedBank hphase hfree hrow =>
    obtain ⟨-, rfl, -⟩ := h.stands_of hphase
    exact h.lockBank hphase hfree hrow
  | linked hphase hopen => exact h.flush hphase hopen
  | parked hphase =>
    have hstands := h.stands_of hphase
    cases hstands
  | lockedParked hphase =>
    have hstands := h.stands_of hphase
    cases hstands
  | committed hphase =>
    rename_i i w
    cases w with
    | park expense =>
      have hstands := h.stands_of hphase
      cases hstands
    | link expense row => exact h.commit hphase
  | dropped hlive hdrop =>
    cases hdrop with
    | aborted => exact h.fail hlive (by rintro ⟨⟩) trivial
    | missing => exact h.fail hlive (by rintro ⟨⟩) (.inl ⟨_, rfl⟩)
    | unranked hphase =>
      have hstands := h.stands_of hphase
      cases hstands
    | refused _ hcheck => exact h.fail hlive (by rintro ⟨⟩) (.inr (checkOpen_refusal hcheck).1)
    | claimed hphase hopen hclaimed => exact absurd (h.unclaimed hphase hopen) hclaimed

/-! ## Progress -/

/-- Nothing more happens to the request. -/
def Finished : Phase → Prop
  | .committed | .failed _ | .aborted => True
  | _ => False

variable (env settings req) in
/-- Some session can take its next statement. -/
def Moves (s : State) : Prop :=
  ∃ ev s', (¬ ∃ k, ev = .abort k) ∧ step env settings req s ev = some s'

theorem Moves.of (ev : Event) (hev : ¬ ∃ k, ev = .abort k)
    (h : (step env settings req s ev).isSome) : Moves env settings req s := by
  obtain ⟨s', hs⟩ := Option.isSome_iff_exists.1 h
  exact ⟨ev, s', hev, hs⟩

theorem moves_of_bothLocked {i : ℕ} {expense : Expense} {row : BankTransaction}
    (h : s.phase i = .bothLocked expense row) : Moves env settings req s := by
  refine .of (.flush i) (by rintro ⟨_, ⟨⟩⟩) ?_
  simp only [MatchSession.step, h, Option.isSome_some]

theorem moves_of_flushed {i : ℕ} {w : Write} (h : s.phase i = .flushed w) :
    Moves env settings req s := by
  refine .of (.commit i) (by rintro ⟨_, ⟨⟩⟩) ?_
  simp only [MatchSession.step, h, Option.isSome_some]

/-- Who has locked a bank row has all its locks. -/
theorem Serial.moves_of_bankLock (h : Serial req db s) {b : Id} {j : ℕ}
    (hlock : s.bankLock b = some j) : Moves env settings req s := by
  have hkeeps := h.bankHeld b j hlock
  cases hphase : s.phase j with
  | bothLocked => exact moves_of_bothLocked hphase
  | flushed => exact moves_of_flushed hphase
  | _ => rw [hphase] at hkeeps; cases hkeeps

theorem Serial.moves_of_expenseLocked (h : Serial req db s) {i : ℕ} {b : Id} {expense : Expense}
    {cached : Option BankTransaction} (hphase : s.phase i = .expenseLocked b expense cached) :
    Moves env settings req s := by
  by_cases hfree : s.bankLock.Free i b
  · refine .of (.lockBank i) (by rintro ⟨_, ⟨⟩⟩) ?_
    simp only [MatchSession.step, hphase, if_pos hfree, Option.isSome_some]
  · obtain ⟨j, hj⟩ := Locks.not_free hfree
    exact h.moves_of_bankLock hj

theorem Serial.moves_of_expenseLock (h : Serial req db s) {e : Id} {j : ℕ}
    (hlock : s.expenseLock e = some j) : Moves env settings req s := by
  have hkeeps := h.expenseHeld e j hlock
  cases hphase : s.phase j with
  | expenseLocked => exact h.moves_of_expenseLocked hphase
  | bothLocked => exact moves_of_bothLocked hphase
  | flushed => exact moves_of_flushed hphase
  | _ => rw [hphase] at hkeeps; cases hkeeps

/-- As long as a request is unfinished, some request goes on. -/
theorem Serial.progress (hconfirm : ∀ i, ∃ e b, req i = .confirm e b) (h : Serial req db s) {i : ℕ}
    (hlive : ¬ Finished (s.phase i)) : Moves env settings req s := by
  have hstands := h.stands i
  cases hphase : s.phase i with
  | idle =>
    obtain ⟨e, b, hreq⟩ := hconfirm i
    refine .of (.start i) (by rintro ⟨_, ⟨⟩⟩) ?_
    simp only [MatchSession.step, hphase, hreq, Option.isSome_some]
  | confirming e b map =>
    by_cases hfree : s.expenseLock.Free i e
    · refine .of (.lockExpense i) (by rintro ⟨_, ⟨⟩⟩) ?_
      simp only [MatchSession.step, hphase, if_pos hfree, Option.isSome_some]
    · obtain ⟨j, hj⟩ := Locks.not_free hfree
      exact h.moves_of_expenseLock hj
  | expenseLocked => exact h.moves_of_expenseLocked hphase
  | bothLocked => exact moves_of_bothLocked hphase
  | flushed => exact moves_of_flushed hphase
  | loaded => rw [hphase] at hstands; cases hstands
  | parking => rw [hphase] at hstands; cases hstands
  | _ => rw [hphase] at hlive; exact absurd trivial hlive

/-! ## Verdicts -/

theorem newly {s₁ : State} {i j : ℕ} {p q : Phase} (h : (s₁.setPhase i p).phase j = q)
    (hne : s₁.phase j ≠ q) : j = i ∧ p = q := by
  by_cases hj : j = i
  · subst hj
    rw [setPhase_self] at h
    exact ⟨rfl, h⟩
  · rw [setPhase_of_ne _ _ hj] at h
    exact absurd h hne

/-- A session that fails or is aborted does so for a reason. -/
theorem drops_of_newly (hs : step env settings req s ev = some s') {i : ℕ} {q : Phase}
    (hq : q = .aborted ∨ ∃ err, q = .failed err) (hafter : s'.phase i = q)
    (hbefore : s.phase i ≠ q) : Drops s ev i q := by
  cases moved_of_step hs with
  | dropped _ hdrop =>
    obtain ⟨rfl, rfl⟩ := newly hafter hbefore
    exact hdrop
  | ranked =>
    obtain ⟨-, rfl⟩ := newly hafter hbefore
    unfold decided at hq
    split at hq <;> obtain hq | ⟨err, hq⟩ := hq <;> cases hq
  | _ =>
    obtain ⟨-, rfl⟩ := newly hafter hbefore
    obtain hq | ⟨err, hq⟩ := hq <;> cases hq

/-- The bank row is linked to another expense, or the expense is matched. -/
def Contested (db : Db) : Request → Prop
  | .confirm e b =>
      (∃ r ∈ db.bankTransactions.rows, r.id = b ∧ ∃ e', r.matchedExpenseId = some e' ∧ e' ≠ e) ∨
        ∃ x ∈ db.expenses.rows, x.id = e ∧ x.matchStatus = .matched
  | .auto _ => False

theorem Serial.contested (h : Serial req db s) (hs : MatchSession.step env settings req s ev = some s') {i : ℕ}
    {d : String} (hafter : s'.phase i = .failed (.conflict d))
    (hbefore : s.phase i ≠ .failed (.conflict d)) : Contested s.db (req i) := by
  cases drops_of_newly hs (.inr ⟨_, rfl⟩) hafter hbefore with
  | unranked hphase =>
    have hstands := h.stands_of hphase
    cases hstands
  | refused hphase hcheck =>
    have howns : Owns req s i _ _ := h.stands_of hphase
    obtain ⟨hrow, -⟩ := Table.get_eq_some.1 howns.row
    obtain ⟨hexpense, -⟩ := Table.get_eq_some.1 howns.expense
    rw [howns.request]
    rcases (checkOpen_refusal hcheck).2 with hclaim | hstatus
    · exact .inl ⟨_, hrow, rfl, hclaim⟩
    · exact .inr ⟨_, hexpense, rfl, hstatus⟩
  | claimed hphase hopen hclaimed => exact absurd (h.unclaimed hphase hopen) hclaimed

/-! ## Whole runs -/

variable (env settings req) in
/-- What any number of confirmations started on `db` have done so far, `s` being the state after
the steps `tr`. -/
structure Serialised (db : Db) (tr : List (State × Event)) (s : State) : Prop where
  noCircle : ∀ i, ¬ Relation.TransGen (Waits s) i i
  progress : ∀ i, ¬ Finished (s.phase i) → Moves env settings req s
  /-- the links are a partial injective map -/
  expenseOnce : ∀ e b b', LinkedTo s.db e b → LinkedTo s.db e b' → b = b'
  rowOnce : ∀ e e' b, LinkedTo s.db e b → LinkedTo s.db e' b → e = e'
  links : ∀ e b, LinkedTo s.db e b ↔
    LinkedTo db e b ∨ ∃ i, s.phase i = .committed ∧ req i = .confirm e b
  /-- the tables are what the committed requests make of them one after the other -/
  order : ∃ order : List ℕ, order.Nodup ∧ (∀ i, i ∈ order ↔ s.phase i = .committed) ∧
    order.foldlM (confirmOf req) db = .ok s.db
  refused : ∀ i err, s.phase i = .failed err → Refusal err
  aborted : ∀ i, s.phase i = .aborted → ∃ p ∈ tr, p.2 = .abort i
  contested : ∀ ev s', step env settings req s ev = some s' → ∀ i d,
    s'.phase i = .failed (.conflict d) → s.phase i ≠ .failed (.conflict d) →
      Contested s.db (req i)

theorem aborted_by (hrun : Run (Fires (step env settings req)) (State.init db) tr s) {i : ℕ}
    (h : s.phase i = .aborted) : ∃ p ∈ tr, p.2 = .abort i := by
  refine hrun.origin (P := fun s => s.phase i = .aborted) (o := fun _ ev => ev = .abort i)
    (by rintro ⟨⟩) (fun s ev s' hs hafter => ?_) h
  by_cases hbefore : s.phase i = .aborted
  · exact .inl hbefore
  · cases drops_of_newly hs (.inl rfl) hafter hbefore with
    | aborted hev => exact .inr hev

/-- Confirmations are served as if one after the other, and none waits for ever: in every
interleaving, on any tables that keep the matching invariant. -/
theorem confirmations_serialised (hmatching : db.Matching)
    (hconfirm : ∀ i, ∃ e b, req i = .confirm e b)
    (hrun : Run (Fires (step env settings req)) (State.init db) tr s) :
    Serialised env settings req db tr s := by
  have h : Serial req db s := by
    refine hrun.invariant (.init hmatching) fun s ev s' h hs => ?_
    exact h.step hconfirm hs
  refine ⟨h.no_circle, fun i => h.progress hconfirm, ?_, ?_, h.links, h.order, fun i err hphase => ?_,
    fun i => aborted_by hrun, fun ev s' hs i d => h.contested hs⟩
  · rintro e b b' ⟨r, hr, rfl, hlink⟩ ⟨r', hr', rfl, hlink'⟩
    rw [h.matching.unique r hr r' hr' (hlink.trans hlink'.symm) (by simp [hlink])]
  · rintro e e' b ⟨r, hr, rfl, hlink⟩ ⟨r', hr', hid, hlink'⟩
    obtain rfl := Table.key_inj hr' hr hid
    exact Option.some.inj (hlink.symm.trans hlink')
  · exact h.stands_of hphase

/-- Two requests for one bank row. -/
def demoConfirms (i : ℕ) : Request := .confirm (if i = 0 then 1 else 2) 1

/-- What became of a request. -/
def verdict : Phase → Option (Except Error Unit)
  | .committed => some (.ok ())
  | .failed err => some (.error err)
  | _ => none

theorem demoTables_matching : demoTables.Matching :=
  .of_exists (by decide +kernel) (by decide +kernel) (by decide +kernel)

/-- The second one waits for the row and is told who has it. -/
theorem confirmations_serialised_two : ∃ tr s,
    Run (Fires (step demoEnv {} demoConfirms)) (State.init demoTables) tr s ∧
      verdict (s.phase 0) = some (.ok ()) ∧
      verdict (s.phase 1) =
        some (.error (.conflict "Bank transaction 1 is already matched to expense 1")) ∧
      Serialised demoEnv {} demoConfirms demoTables tr s := by
  have hdemo : (drive (step demoEnv {} demoConfirms) (State.init demoTables) [.start 0, .start 1,
      .lockExpense 1, .lockExpense 0, .lockBank 0, .flush 0, .commit 0, .lockBank 1, .flush 1]).map
        (fun r => (verdict (r.2.phase 0), verdict (r.2.phase 1))) =
      some (some (.ok ()),
        some (.error (.conflict "Bank transaction 1 is already matched to expense 1"))) := by
    decide +kernel
  obtain ⟨⟨tr, s⟩, hdrive, heq⟩ := Option.map_eq_some_iff.1 hdemo
  obtain ⟨hwinner, hloser⟩ := Prod.mk.inj heq
  exact ⟨tr, s, run_of_drive hdrive, hwinner, hloser,
    confirmations_serialised demoTables_matching (fun i => ⟨_, _, rfl⟩) (run_of_drive hdrive)⟩

end ReckonFlow.MatchSession
