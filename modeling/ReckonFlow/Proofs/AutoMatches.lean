import ReckonFlow.Proofs.History
import ReckonFlow.Proofs.MatchSessions

/-! Where a link comes from: a reviewer asked for it, or an auto-match found the two rows alike,
and alike they still are when it commits, whatever ran between its reading and its locks. -/

namespace ReckonFlow

open Lts Text

variable {env : Env} {settings : Settings} {db db' : Db}

/-- What the prefilter and the fuzzy gate ask of a pair. -/
structure Alike (env : Env) (settings : Settings) (expense : Expense) (row : BankTransaction) : Prop where
  currency : row.currency = expense.currency
  date : |row.bookingDate.ordinal - expense.expenseDate.ordinal| ≤ settings.reconciliationDateWindowDays
  amount : |(|row.amount.value| - expense.amount.value)| ≤
    max (1 / 100) (expense.amount.value * settings.reconciliationAmountTolerance)
  text : settings.reconciliationMinFuzzyScore ≤
    env.tokenSetRatio (strip (expense.vendor ++ " " ++ expense.description)) row.description

theorem Alike.congr {expense expense' : Expense} {row row' : BankTransaction}
    (h : Alike env settings expense row) (hclaimed : expense'.claimed = expense.claimed)
    (hbooked : row'.booked = row.booked) : Alike env settings expense' row' := by
  obtain ⟨hcurrency, hdate, hamount, htext⟩ := h
  simp only [Expense.claimed, Expense.setMatchStatus, Expense.mk.injEq] at hclaimed
  simp only [BankTransaction.booked, BankTransaction.mk.injEq] at hbooked
  obtain ⟨-, -, hvendor, hdescription, hamount', hcurrency', hdate', -⟩ := hclaimed
  obtain ⟨-, hbooking, hrowAmount, hrowCurrency, hrowText, -⟩ := hbooked
  refine ⟨?_, ?_, ?_, ?_⟩
  · rw [hrowCurrency, hcurrency', hcurrency]
  · rwa [hbooking, hdate']
  · rwa [hrowAmount, hamount']
  · rwa [hvendor, hdescription, hrowText]

/-- The rows of two ids are alike. -/
def PairAlike (env : Env) (settings : Settings) (db : Db) (e b : Id) : Prop :=
  ∃ expense row, db.expenses.get e = some expense ∧ db.bankTransactions.get b = some row ∧
    Alike env settings expense row

theorem PairAlike.grows {e b : Id} (h : PairAlike env settings db e b)
    (hexpenses : db.expenses.Grows Expense.claimed db'.expenses)
    (hrows : db.bankTransactions.Grows BankTransaction.booked db'.bankTransactions) :
    PairAlike env settings db' e b := by
  obtain ⟨expense, row, hexpense, hrow, halike⟩ := h
  obtain ⟨hmem, rfl⟩ := Table.get_eq_some.1 hexpense
  obtain ⟨hmem', rfl⟩ := Table.get_eq_some.1 hrow
  obtain ⟨expense', hexpense', hclaimed⟩ := hexpenses.exists_row hmem
  obtain ⟨row', hrow', hbooked⟩ := hrows.exists_row hmem'
  exact ⟨expense', row', claimed_id _ _ hclaimed ▸ Table.get_of_mem hexpense',
    booked_id _ _ hbooked ▸ Table.get_of_mem hrow', halike.congr hclaimed hbooked⟩

/-! ## The decision -/

theorem abs_between {v a slack : ℚ} (ha : 0 ≤ a)
    (h : (a - slack ≤ v ∧ v ≤ a + slack) ∨ (-(a + slack) ≤ v ∧ v ≤ -(a - slack))) :
    |(|v| - a)| ≤ slack := by
  have hnear : |v - a| ≤ slack ∨ |-v - a| ≤ slack := by
    rcases h with ⟨hlow, hhigh⟩ | ⟨hlow, hhigh⟩
    · exact .inl (abs_le.2 ⟨by linarith, by linarith⟩)
    · exact .inr (abs_le.2 ⟨by linarith, by linarith⟩)
  have habs : |a| = a := abs_of_nonneg ha
  rcases hnear with hnear | hnear
  · calc |(|v| - a)| = |(|v| - |a|)| := by rw [habs]
      _ ≤ |v - a| := abs_abs_sub_abs_le v a
      _ ≤ slack := hnear
  · calc |(|v| - a)| = |(|(-v)| - |a|)| := by rw [habs, abs_neg]
      _ ≤ |-v - a| := abs_abs_sub_abs_le (-v) a
      _ ≤ slack := hnear

/-- What is ranked was scored from a row that the WHERE clause let pass. -/
theorem rankCandidates_mem {scan : Scan} {expense : Expense} {limit : ℕ} {window : Option ℤ}
    {tolerance : Option ℚ} {suggested : List ScoredCandidate × ℕ}
    (h : rankCandidates env settings scan db expense limit window tolerance = .ok suggested)
    {c : ScoredCandidate} (hc : c ∈ suggested.1) :
    ∃ candidates row scored x, prefilter scan db expense
        (window.getD settings.reconciliationDateWindowDays)
        (tolerance.getD settings.reconciliationAmountTolerance) = .ok candidates ∧ row ∈ candidates ∧
      c = withScore settings scored
        (scoreRow env expense (window.getD settings.reconciliationDateWindowDays) row) x := by
  simp only [rankCandidates, Except.bind_eq_ok, Except.pure_eq_ok] at h
  obtain ⟨candidates, hpre, ranked, hranked, rfl⟩ := h
  split_ifs at hranked
  · obtain rfl := Except.ok.inj hranked
    cases hc
  · obtain ⟨all, hall, rfl⟩ := Except.map_eq_ok.1 hranked
    obtain rfl := fuseAll_eq_ok hall
    obtain ⟨item, hitem, x, rfl⟩ := mem_fuseResults (mem_sortedDesc.1 (List.mem_of_mem_take hc))
    obtain ⟨row, hrow, rfl⟩ := List.mem_map.1 hitem
    exact ⟨candidates, row, _, x, hpre, hrow, rfl⟩

theorem addDays_ordinal {d d' : Date} {days : ℤ} (h : d.addDays days = .ok d') :
    d'.ordinal = d.ordinal + days := by
  unfold Date.addDays at h
  split_ifs at h
  obtain rfl := Except.ok.inj h
  rfl

/-- The row an auto-match decides on is in the tables it read, and like its expense. -/
theorem decision_alike {scan : Scan} {expense : Expense} {suggested : List ScoredCandidate × ℕ} {b : Id}
    (h : rankCandidates env settings scan db expense 2 none none = .ok suggested)
    (hdecision : autoDecision suggested.1 = some b) :
    ∃ row, db.bankTransactions.get b = some row ∧ Alike env settings expense row := by
  obtain ⟨best, rest, heq, rfl, hgates, -⟩ := autoDecision_eq_some.1 hdecision
  obtain ⟨candidates, row, scored, x, hpre, hrow, rfl⟩ :=
    rankCandidates_mem h (heq ▸ List.mem_cons_self : best ∈ suggested.1)
  simp only [prefilter, Except.bind_eq_ok, Except.pure_eq_ok] at hpre
  obtain ⟨earliest, hearliest, latest, hlatest, rfl⟩ := hpre
  rw [List.mem_insertionSort, (scan.perm _).mem_iff, List.mem_filter, decide_eq_true_iff] at hrow
  obtain ⟨hmem, -, -, hcurrency, hdates, hamounts⟩ := hrow
  rw [addDays_ordinal hearliest, addDays_ordinal hlatest, Option.getD_none] at hdates
  rw [abs_of_pos expense.positive] at hamounts
  simp only [withScore, Bool.and_eq_true, decide_eq_true_eq] at hgates
  refine ⟨row, Table.get_of_mem hmem, hcurrency, abs_le.2 ?_, ?_, hgates.2⟩
  · exact ⟨by linarith, by linarith⟩
  · exact abs_between expense.positive.le hamounts

namespace MatchSession

variable {req : ℕ → Request} {s s' : State} {ev : Event} {tr : List (State × Event)}

/-! ## Sessions -/

/-- Why request `i` may link the two rows. -/
def Grounds (env : Env) (settings : Settings) (req : ℕ → Request) (db : Db) (i : ℕ) (e b : Id) : Prop :=
  req i = .confirm e b ∨ req i = .auto e ∧ PairAlike env settings db e b

/-- What a session knows of the rows it is about to link. -/
def Knows (env : Env) (settings : Settings) (req : ℕ → Request) (db : Db) (i : ℕ) : Phase → Prop
  | .loaded expense => req i = .auto expense.id ∧
      ∃ current, db.expenses.get expense.id = some current ∧ current.claimed = expense.claimed
  | .confirming e b map => Grounds env settings req db i e b ∧
      (∀ x, map.expense = some x → x.id = e) ∧ ∀ r, map.bankRow = some r → r.id = b
  | .expenseLocked b expense cached => Grounds env settings req db i expense.id b ∧
      ∀ r, cached = some r → r.id = b
  | .bothLocked expense row | .flushed (.link expense row) =>
      Grounds env settings req db i expense.id row.id
  | .idle | .parking _ | .flushed (.park _) | .committed | .failed _ | .aborted => True

/-- A link of `s` was in the tables `db₀`, or a request committed it. -/
def Traced (env : Env) (settings : Settings) (req : ℕ → Request) (db₀ : Db) (s : State) (e b : Id) : Prop :=
  (∃ r ∈ db₀.bankTransactions.rows, r.id = b ∧ r.matchedExpenseId = some e) ∨
    ∃ i, s.phase i = .committed ∧ Grounds env settings req s.db i e b

structure Sourced (env : Env) (settings : Settings) (req : ℕ → Request) (db₀ : Db) (s : State) : Prop where
  session : ∀ i, Knows env settings req s.db i (s.phase i)
  links : ∀ r ∈ s.db.bankTransactions.rows, ∀ e, r.matchedExpenseId = some e →
    Traced env settings req db₀ s e r.id

theorem Sourced.init (db : Db) : Sourced env settings req db (.init db) where
  session _ := trivial
  links r hr _ he := .inl ⟨r, hr, rfl, he⟩

/-- No write changes what the rows say of a purchase. -/
theorem grows_write (db : Db) (w : Write) :
    db.expenses.Grows Expense.claimed (w.apply db).expenses ∧
      db.bankTransactions.Grows BankTransaction.booked (w.apply db).bankTransactions := by
  cases w with
  | park expense =>
    exact ⟨Table.grows_modify _ _ _ (writeStatus expense .pendingReview) (fun _ => rfl) fun _ => rfl,
      .refl ..⟩
  | link expense row =>
    exact ⟨Table.grows_modify _ _ _ (writeStatus expense .matched) (fun _ => rfl) fun _ => rfl,
      Table.grows_modify _ _ _ (writeLink row expense.id) (fun _ => rfl) fun _ => rfl⟩

theorem Grounds.write {i : ℕ} {e b : Id} (h : Grounds env settings req db i e b) (w : Write) :
    Grounds env settings req (w.apply db) i e b := by
  obtain ⟨hexpenses, hrows⟩ := grows_write db w
  rcases h with hasked | ⟨hauto, hpair⟩
  · exact .inl hasked
  · exact .inr ⟨hauto, hpair.grows hexpenses hrows⟩

theorem Knows.write {i : ℕ} {p : Phase} (h : Knows env settings req db i p) (w : Write) :
    Knows env settings req (w.apply db) i p := by
  cases p with
  | loaded expense =>
    obtain ⟨hauto, current, hcurrent, hclaimed⟩ := h
    obtain ⟨hmem, hid⟩ := Table.get_eq_some.1 hcurrent
    obtain ⟨later, hlater, hsame⟩ := (grows_write db w).1.exists_row hmem
    have hlaterId : later.id = expense.id := (claimed_id _ _ hsame).trans hid
    exact ⟨hauto, later, hlaterId ▸ Table.get_of_mem hlater, hsame.trans hclaimed⟩
  | confirming e b map => exact ⟨h.1.write w, h.2⟩
  | expenseLocked b expense cached => exact ⟨h.1.write w, h.2⟩
  | bothLocked expense row => exact Grounds.write h w
  | flushed w' =>
    cases w' with
    | park expense => trivial
    | link expense row => exact Grounds.write h w
  | _ => trivial

/-- A step of `i` that writes nothing. -/
theorem Sourced.move {db₀ : Db} (h : Sourced env settings req db₀ s) {s₁ : State} {i : ℕ} {p : Phase}
    (hdb : s₁.db = s.db) (hphase : s₁.phase = s.phase) (hlive : s.phase i ≠ .committed)
    (hp : Knows env settings req s.db i p) : Sourced env settings req db₀ (s₁.setPhase i p) where
  session j := by
    have hsame : (s₁.setPhase i p).db = s.db := hdb
    rw [hsame]
    by_cases hj : j = i
    · subst hj
      rwa [setPhase_self]
    · rw [setPhase_of_ne _ _ hj, hphase]
      exact h.session j
  links r hr e he := by
    have hsame : (s₁.setPhase i p).db = s.db := hdb
    rw [hsame] at hr
    rcases h.links r hr e he with hold | ⟨j, hcommitted, hgrounds⟩
    · exact .inl hold
    · refine .inr ⟨j, ?_, hsame ▸ hgrounds⟩
      have hj : j ≠ i := fun hji => hlive (hji ▸ hcommitted)
      rw [setPhase_of_ne _ _ hj, hphase, hcommitted]

theorem Sourced.commit {db₀ : Db} (h : Sourced env settings req db₀ s) {i : ℕ} {w : Write}
    (hw : s.phase i = .flushed w) :
    Sourced env settings req db₀ (((s.write w).release i).setPhase i .committed) where
  session j := by
    by_cases hj : j = i
    · subst hj
      rw [setPhase_self]
      trivial
    · rw [setPhase_of_ne _ _ hj]
      exact (h.session j).write w
  links r hr e he := by
    have hkept : ∀ b, Traced env settings req db₀ s e b →
        Traced env settings req db₀ (((s.write w).release i).setPhase i .committed) e b := by
      rintro b (hold | ⟨j, hcommitted, hgrounds⟩)
      · exact .inl hold
      · have hj : j ≠ i := by
          rintro rfl
          rw [hw] at hcommitted
          cases hcommitted
        exact .inr ⟨j, by rw [setPhase_of_ne _ _ hj]; exact hcommitted, hgrounds.write w⟩
    have hi := h.session i
    rw [hw] at hi
    cases w with
    | park expense => exact hkept _ (h.links r hr e he)
    | link expense row =>
      have hmodified : r ∈ (s.db.bankTransactions.modify row.id (writeLink row expense.id) fun _ => rfl).rows := hr
      obtain ⟨old, hold, rfl⟩ := Table.mem_modify.1 hmodified
      split_ifs at he ⊢ with hrow
      · simp only [writeLink, written] at he
        split_ifs at he
        · exact hkept _ (h.links old hold e he)
        · obtain rfl := Option.some.inj he
          refine .inr ⟨i, setPhase_self .., ?_⟩
          have hgrounds := Grounds.write hi (.link expense row)
          rw [← hrow] at hgrounds
          exact hgrounds
      · exact hkept _ (h.links old hold e he)

theorem loaded_of_start {i : ℕ} {expense : Expense}
    (hs : step env settings req s (.start i) = some (s.setPhase i (.loaded expense))) :
    s.phase i = .idle ∧ ∃ e, req i = .auto e ∧ s.db.expenses.get e = some expense := by
  have hsame : ∀ p, s.setPhase i p = s.setPhase i (.loaded expense) → p = .loaded expense := by
    intro p h
    rw [← setPhase_self s i p, h, setPhase_self]
  simp only [MatchSession.step] at hs
  split at hs
  · cases hsame _ (Option.some.inj hs)
  · rename_i e hphase hreq
    refine ⟨hphase, e, hreq, ?_⟩
    split at hs
    · rename_i hget
      cases hsame _ (Option.some.inj hs)
      exact required_eq_ok.1 hget
    · have hfailed := congrArg (fun s' => s'.phase i) (Option.some.inj hs)
      rw [State.fail, setPhase_self, setPhase_self] at hfailed
      cases hfailed
  · cases hs

/-- The session of an auto-match after its ranking. -/
theorem knows_decided {i : ℕ} {scan : Scan} {expense current : Expense}
    {suggested : List ScoredCandidate × ℕ} (hauto : req i = .auto expense.id)
    (hcurrent : db.expenses.get expense.id = some current) (hclaimed : current.claimed = expense.claimed)
    (h : rankCandidates env settings scan db expense 2 none none = .ok suggested) :
    Knows env settings req db i (decided expense suggested.1) := by
  unfold decided
  split
  · trivial
  · rename_i best hdecision
    obtain ⟨row, hrow, halike⟩ := decision_alike h hdecision
    have hpair : PairAlike env settings db expense.id best :=
      ⟨current, row, hcurrent, hrow, halike.congr hclaimed rfl⟩
    refine ⟨.inr ⟨hauto, hpair⟩, fun x hx => (Option.some.inj hx) ▸ rfl, fun r hr => ?_⟩
    simpa using List.find?_some hr

theorem Sourced.step {db₀ : Db} (h : Sourced env settings req db₀ s)
    (hs : MatchSession.step env settings req s ev = some s') : Sourced env settings req db₀ s' := by
  have hknows : ∀ {i p}, s.phase i = p → Knows env settings req s.db i p := fun hphase => hphase ▸ h.session _
  cases moved_of_step hs with
  | confirming hphase hreq =>
    refine h.move rfl rfl (hphase ▸ nofun) ⟨.inl hreq, ?_, ?_⟩
    · rintro x ⟨⟩
    · rintro r ⟨⟩
  | loaded _ =>
    obtain ⟨hphase, e, hreq, hget⟩ := loaded_of_start hs
    obtain ⟨-, rfl⟩ := Table.get_eq_some.1 hget
    exact h.move rfl rfl (hphase ▸ nofun) ⟨hreq, _, hget, rfl⟩
  | ranked hphase hrank =>
    obtain ⟨hauto, current, hcurrent, hclaimed⟩ := hknows hphase
    exact h.move rfl rfl (hphase ▸ nofun) (knows_decided hauto hcurrent hclaimed hrank)
  | @lockedExpense i e b map current hphase _ hrow =>
    obtain ⟨hgrounds, hmap, hcached⟩ := hknows hphase
    have hid : (map.expense.getD current).id = e := by
      cases hx : map.expense with
      | none => exact (Table.get_eq_some.1 hrow).2
      | some x => exact hmap x hx
    refine h.move rfl rfl (hphase ▸ nofun) ⟨?_, hcached⟩
    rwa [hid]
  | @lockedBank i b expense cached current hphase _ hrow =>
    obtain ⟨hgrounds, hcached⟩ := hknows hphase
    have hid : (cached.getD current).id = b := by
      cases hr : cached with
      | none => exact (Table.get_eq_some.1 hrow).2
      | some r => exact hcached r hr
    refine h.move rfl rfl (hphase ▸ nofun) ?_
    show Grounds env settings req s.db i expense.id (cached.getD current).id
    rwa [hid]
  | linked hphase _ =>
    have hgrounds := hknows hphase
    exact h.move rfl rfl (hphase ▸ nofun) hgrounds
  | parked hphase => exact h.move rfl rfl (hphase ▸ nofun) trivial
  | lockedParked hphase => exact h.move rfl rfl (hphase ▸ nofun) trivial
  | committed hphase => exact h.commit hphase
  | dropped hlive hdrop =>
    refine h.move rfl rfl hlive ?_
    cases hdrop <;> trivial

/-- However the sessions interleave, a linked row was linked from the start, or a committed
request of a reviewer names the pair, or a committed auto-match does and the two are alike. -/
theorem links_have_grounds (hrun : Run (Fires (step env settings req)) (State.init db) tr s) :
    ∀ r ∈ s.db.bankTransactions.rows, ∀ e, r.matchedExpenseId = some e →
      (∃ r₀ ∈ db.bankTransactions.rows, r₀.id = r.id ∧ r₀.matchedExpenseId = some e) ∨
        ∃ i, s.phase i = .committed ∧ (req i = .confirm e r.id ∨
          req i = .auto e ∧ ∃ expense, s.db.expenses.get e = some expense ∧
            Alike env settings expense r) := by
  have h : Sourced env settings req db s := hrun.invariant (.init db) fun _ _ _ h hs => h.step hs
  intro r hr e he
  rcases h.links r hr e he with hold | ⟨i, hcommitted, hasked | ⟨hauto, expense, row, hexpense, hrow, halike⟩⟩
  · exact .inl hold
  · exact .inr ⟨i, hcommitted, .inl hasked⟩
  · obtain rfl := Option.some.inj (hrow.symm.trans (Table.get_of_mem hr))
    exact .inr ⟨i, hcommitted, .inr ⟨hauto, expense, hexpense, halike⟩⟩

/-- An auto-match takes the row it read before a reviewer linked it to another expense. -/
theorem links_have_grounds_taken : ∃ tr s,
    Run (Fires (step demoEnv {} (demoRequests 2 1))) (State.init demoTables) tr s ∧
      s.links = [(1, 1), (2, 1)] ∧ ∃ r ∈ s.db.bankTransactions.rows,
        ∃ expense, s.db.expenses.get 2 = some expense ∧ Alike demoEnv {} expense r := by
  have hdemo : (demoRun 2 1 [.start 0, .rank 0 demoScan, .start 1, .lockExpense 1, .lockBank 1,
      .flush 1, .commit 1, .lockExpense 0, .lockBank 0, .flush 0, .commit 0]).map
        (fun r => (r.2.links, r.2.db.bankTransactions.rows.map (·.matchedExpenseId))) =
      some ([(1, 1), (2, 1)], [some 2]) := by decide +kernel
  obtain ⟨⟨tr, s⟩, hdrive, heq⟩ := Option.map_eq_some_iff.1 hdemo
  obtain ⟨hlinks, hrows⟩ := Prod.mk.inj heq
  obtain ⟨r, hr, hlinked⟩ : ∃ r ∈ s.db.bankTransactions.rows, r.matchedExpenseId = some 2 := by
    refine List.mem_map.1 ?_
    rw [hrows]
    exact List.mem_singleton_self _
  refine ⟨tr, s, run_of_drive hdrive, hlinks, r, hr, ?_⟩
  rcases links_have_grounds (run_of_drive hdrive) r hr 2 hlinked with ⟨r₀, hr₀, -, hnone⟩ | ⟨i, -, hasked | hauto⟩
  · obtain rfl : r₀ = demoRow 1 := List.mem_singleton.1 hr₀
    cases hnone
  · unfold demoRequests at hasked
    split_ifs at hasked
    cases hasked
  · exact hauto.2

end MatchSession

end ReckonFlow
