import ReckonFlow.Spec.MatchingEvals
import ReckonFlow.Proofs.Fusion

/-! The prefilter of the eval script against the WHERE clause of the service: two signed intervals
here, one interval of magnitudes there. -/

namespace ReckonFlow

open MatchingEvals (Candidate Case passes)

variable {expense : Expense} {amount tolerance : ℚ} {window : ℤ} {row : BankTransaction}
  {rows : List BankTransaction}

/-- Both ends of the window are dates. -/
def WindowInRange (expense : Expense) (window : ℤ) : Prop :=
  (1 ≤ expense.expenseDate.ordinal - window ∧ expense.expenseDate.ordinal - window ≤ 3652059) ∧
    1 ≤ expense.expenseDate.ordinal + window ∧ expense.expenseDate.ordinal + window ≤ 3652059

instance (expense : Expense) (window : ℤ) : Decidable (WindowInRange expense window) :=
  inferInstanceAs (Decidable (_ ∧ _))

/-- The verdict of the script on a bank row. -/
def passesEval (expense : Expense) (amount : ℚ) (window : ℤ) (tolerance : ℚ) (row : BankTransaction) :
    Bool := passes (.ofExpense expense amount [row]) window tolerance (.ofRow row)

def BankTransaction.negate (row : BankTransaction) : BankTransaction := { row with amount := -row.amount }

/-- On every row open for the expense the two verdicts agree and do not depend on the sign of an
amount, and the exact magnitude inside the window passes. -/
structure SameVerdict (expense : Expense) (amount : Money) (window : ℤ) (tolerance : ℚ) : Prop where
  agree : ∀ row, OpenFor expense row →
    (passesWhere expense amount.value window tolerance row = .ok true ↔
      passesEval expense amount.value window tolerance row = true)
  expenseSign : ∀ row, OpenFor expense row →
    passesWhere expense (-amount).value window tolerance row =
        passesWhere expense amount.value window tolerance row ∧
      passesEval expense (-amount).value window tolerance row =
        passesEval expense amount.value window tolerance row
  rowSign : ∀ row, OpenFor expense row →
    passesWhere expense amount.value window tolerance row.negate =
        passesWhere expense amount.value window tolerance row ∧
      passesEval expense amount.value window tolerance row.negate =
        passesEval expense amount.value window tolerance row
  exactly : ∀ row, OpenFor expense row → |row.amount.value| = |amount.value| →
    |row.bookingDate.ordinal - expense.expenseDate.ordinal| ≤ window →
      passesWhere expense amount.value window tolerance row = .ok true ∧
        passesEval expense amount.value window tolerance row = true

/-! ## The two filters -/

/-- Two intervals of opposite signs whose middle is not negative are one interval of magnitudes,
also where they overlap. -/
theorem between_or_iff {low high x : ℚ} (hmiddle : 0 ≤ low + high) :
    (low ≤ x ∧ x ≤ high) ∨ (-high ≤ x ∧ x ≤ -low) ↔ low ≤ |x| ∧ |x| ≤ high := by
  rcases abs_cases x with ⟨hx, h0⟩ | ⟨hx, h0⟩
  · rw [hx]
    constructor
    · rintro (h | ⟨hlow, hhigh⟩)
      · exact h
      · exact ⟨by linarith, by linarith⟩
    · exact .inl
  · rw [hx]
    constructor
    · rintro (⟨hlow, hhigh⟩ | ⟨hlow, hhigh⟩)
      · exact ⟨by linarith, by linarith⟩
      · exact ⟨by linarith, by linarith⟩
    · rintro ⟨hlow, hhigh⟩
      exact .inr ⟨by linarith, by linarith⟩

theorem slack_pos (amount tolerance : ℚ) : 0 < max (1 / 100) (|amount| * tolerance) :=
  lt_max_of_lt_left (by norm_num)

theorem passes_iff {bill : Case} {candidate : Candidate} : passes bill window tolerance candidate = true ↔
    |candidate.bookingDate.ordinal - bill.expenseDate.ordinal| ≤ window ∧
      |bill.amount| - max (1 / 100) (|bill.amount| * tolerance) ≤ |candidate.amount| ∧
      |candidate.amount| ≤ |bill.amount| + max (1 / 100) (|bill.amount| * tolerance) := by
  unfold passes
  by_cases h : |candidate.bookingDate.ordinal - bill.expenseDate.ordinal| > window
  · rw [if_pos h]
    exact iff_of_false Bool.false_ne_true fun hand => absurd hand.1 (not_le.2 h)
  · rw [if_neg h, decide_eq_true_iff]
    exact (and_iff_right (not_lt.1 h)).symm

theorem passes_row_iff :
    passes (.ofExpense expense amount rows) window tolerance (.ofRow row) = true ↔
      |row.bookingDate.ordinal - expense.expenseDate.ordinal| ≤ window ∧
        |amount| - max (1 / 100) (|amount| * tolerance) ≤ |row.amount.value| ∧
        |row.amount.value| ≤ |amount| + max (1 / 100) (|amount| * tolerance) := passes_iff

theorem addDays_ok {d : Date} {days : ℤ} (h : 1 ≤ d.ordinal + days ∧ d.ordinal + days ≤ 3652059) :
    d.addDays days = .ok ⟨d.ordinal + days, h⟩ := dif_pos h

theorem addDays_overflow {d : Date} {days : ℤ}
    (h : ¬ (1 ≤ d.ordinal + days ∧ d.ordinal + days ≤ 3652059)) : d.addDays days = .error .overflow :=
  dif_neg h

theorem window_overflow {α : Type} (h : ¬ WindowInRange expense window) (f : Date → Date → Except Error α) :
    (do let earliest ← expense.expenseDate.addDays (-window)
        let latest ← expense.expenseDate.addDays window
        f earliest latest) = .error .overflow := by
  by_cases hearliest : 1 ≤ expense.expenseDate.ordinal + -window ∧
      expense.expenseDate.ordinal + -window ≤ 3652059
  · rw [addDays_ok hearliest, addDays_overflow fun hlatest => h ⟨hearliest, hlatest⟩]
    rfl
  · rw [addDays_overflow hearliest]
    rfl

/-- On an open row the WHERE clause is the filter of the script. -/
theorem survives_iff {earliest latest : Date} (hearliest : earliest.ordinal = expense.expenseDate.ordinal - window)
    (hlatest : latest.ordinal = expense.expenseDate.ordinal + window) :
    Survives expense earliest latest (|amount| - max (1 / 100) (|amount| * tolerance))
        (|amount| + max (1 / 100) (|amount| * tolerance)) row ↔
      OpenFor expense row ∧ passes (.ofExpense expense amount rows) window tolerance (.ofRow row) = true := by
  have hmiddle : 0 ≤ (|amount| - max (1 / 100) (|amount| * tolerance)) +
      (|amount| + max (1 / 100) (|amount| * tolerance)) := by
    linarith [abs_nonneg amount]
  have hdates : (earliest.ordinal ≤ row.bookingDate.ordinal ∧ row.bookingDate.ordinal ≤ latest.ordinal) ↔
      |row.bookingDate.ordinal - expense.expenseDate.ordinal| ≤ window := by
    rw [hearliest, hlatest, abs_le]
    omega
  unfold Survives
  rw [between_or_iff hmiddle, hdates, passes_row_iff]
  constructor
  · rintro ⟨hnone, hstatus, hcurrency, hpasses⟩
    exact ⟨⟨hnone, hstatus, hcurrency⟩, hpasses⟩
  · rintro ⟨hopen, hpasses⟩
    exact ⟨hopen.unmatched, hopen.status, hopen.currency, hpasses⟩

theorem passesWhere_ok (h : WindowInRange expense window) (rows : List BankTransaction) :
    passesWhere expense amount window tolerance row = .ok (decide (OpenFor expense row ∧
      passes (.ofExpense expense amount rows) window tolerance (.ofRow row) = true)) := by
  unfold passesWhere
  rw [addDays_ok h.1, addDays_ok h.2]
  show Except.ok _ = Except.ok _
  rw [Except.ok.injEq, decide_eq_decide]
  exact survives_iff rfl rfl

/-- Without its window the query is not built. -/
theorem passesWhere_overflow (h : ¬ WindowInRange expense window) :
    passesWhere expense amount window tolerance row = .error .overflow := window_overflow h _

/-- The rows the service compares are those the WHERE clause lets pass. -/
theorem mem_prefilter {scan : Scan} {db : Db} {survivors : List BankTransaction}
    (h : prefilter scan db expense window tolerance = .ok survivors) : row ∈ survivors ↔
      row ∈ db.bankTransactions.rows ∧
        passesWhere expense expense.amount.value window tolerance row = .ok true := by
  simp only [prefilter, Except.bind_eq_ok, Except.pure_eq_ok] at h
  obtain ⟨earliest, hearliest, latest, hlatest, rfl⟩ := h
  rw [List.mem_insertionSort, (scan.perm _).mem_iff, List.mem_filter]
  unfold passesWhere
  rw [hearliest, hlatest]
  show _ ↔ _ ∧ Except.ok _ = Except.ok _
  rw [Except.ok.injEq]

/-! ## The verdicts -/

theorem passesEval_neg : passesEval expense (-amount) window tolerance row =
    passesEval expense amount window tolerance row := by
  rw [Bool.eq_iff_iff, passesEval, passesEval, passes_row_iff, passes_row_iff, abs_neg]

theorem passesEval_negate : passesEval expense amount window tolerance row.negate =
    passesEval expense amount window tolerance row := by
  have habs : |row.negate.amount.value| = |row.amount.value| := by
    rw [BankTransaction.negate, Numeric.value_neg, abs_neg]
  rw [Bool.eq_iff_iff, passesEval, passesEval, passes_row_iff, passes_row_iff, habs]
  rfl

theorem passesEval_exact (hamount : |row.amount.value| = |amount|)
    (hdate : |row.bookingDate.ordinal - expense.expenseDate.ordinal| ≤ window) :
    passesEval expense amount window tolerance row = true := by
  have hslack := slack_pos amount tolerance
  rw [passesEval, passes_row_iff, hamount]
  exact ⟨hdate, by linarith, by linarith⟩

theorem OpenFor.negate (h : OpenFor expense row) : OpenFor expense row.negate :=
  ⟨h.unmatched, h.status, h.currency⟩

theorem passesWhere_open (h : WindowInRange expense window) (hopen : OpenFor expense row) :
    passesWhere expense amount window tolerance row =
      .ok (passesEval expense amount window tolerance row) := by
  rw [passesWhere_ok h [row], passesEval]
  simp [hopen]

theorem WindowInRange.sameVerdict (h : WindowInRange expense window) (amount : Money) (tolerance : ℚ) :
    SameVerdict expense amount window tolerance where
  agree row hopen := by rw [passesWhere_open h hopen, Except.ok.injEq]
  expenseSign row hopen := by
    rw [passesWhere_open h hopen, passesWhere_open h hopen, Numeric.value_neg, passesEval_neg]
    exact ⟨rfl, rfl⟩
  rowSign row hopen := by
    rw [passesWhere_open h hopen.negate, passesWhere_open h hopen, passesEval_negate]
    exact ⟨rfl, rfl⟩
  exactly row hopen hamount hdate := by
    have hpasses : passesEval expense amount.value window tolerance row = true := passesEval_exact hamount hdate
    exact ⟨by rw [passesWhere_open h hopen, hpasses], hpasses⟩

/-- An open row of the day and the amount of an expense. -/
def exactRow (expense : Expense) (amount : Money) : BankTransaction where
  id := 1
  bookingDate := expense.expenseDate
  amount := amount
  currency := expense.currency
  description := expense.description
  externalId := none
  matchStatus := .unmatched
  matchedExpenseId := none
  embedding := none

theorem exactRow_open (expense : Expense) (amount : Money) : OpenFor expense (exactRow expense amount) :=
  ⟨rfl, List.mem_cons_self .., rfl⟩

theorem exactRow_passes {amount : Money} (hwindow : 0 ≤ window) :
    passesEval expense amount.value window tolerance (exactRow expense amount) = true := by
  apply passesEval_exact
  · rfl
  · show |expense.expenseDate.ordinal - expense.expenseDate.ordinal| ≤ window
    rw [sub_self, abs_zero]
    exact hwindow

theorem SameVerdict.windowInRange {amount : Money} (h : SameVerdict expense amount window tolerance)
    (hwindow : 0 ≤ window) : WindowInRange expense window := by
  by_contra hrange
  have hwhere := (h.agree _ (exactRow_open expense amount)).2 (exactRow_passes hwindow)
  rw [passesWhere_overflow hrange] at hwhere
  cases hwhere

/-- The two prefilters give the same verdicts iff both ends of the window are dates. -/
theorem same_verdict_iff (expense : Expense) (amount : Money) (tolerance : ℚ) (window : ℤ) (hwindow : 0 ≤ window) :
    SameVerdict expense amount window tolerance ↔ WindowInRange expense window :=
  ⟨fun h => h.windowInRange hwindow, fun h => h.sameVerdict amount tolerance⟩

/-- Within five days of the expense. -/
theorem same_verdict_iff_five : SameVerdict (demoExpense 1) (-(demoExpense 1).amount) 5 (1 / 50) :=
  (same_verdict_iff (demoExpense 1) _ (1 / 50) 5 (by norm_num)).2 (by decide)

/-- The last day of the calendar. -/
def lastDate : Date := ⟨3652059, by decide⟩

/-- An expense of the last day: the script keeps the row of that day, the service does not get to
its query. -/
theorem same_verdict_fails : ¬ ∀ (expense : Expense) (amount : Money) (window : ℤ) (tolerance : ℚ),
    0 ≤ window → 0 ≤ tolerance → SameVerdict expense amount window tolerance := by
  intro hall
  have hlast := hall { demoExpense 1 with expenseDate := lastDate } (demoExpense 1).amount 5 (1 / 50)
    (by norm_num) (by norm_num)
  exact absurd (hlast.windowInRange (by norm_num)) (by decide)

end ReckonFlow
