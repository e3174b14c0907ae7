import ReckonFlow.Proofs.EvalPrefilter
import ReckonFlow.Proofs.MoneyText
import ReckonFlow.Proofs.RankFusion
import ReckonFlow.Proofs.Reconciliation
import ReckonFlow.Spec.Suggestions

/-! What a reviewer is offered: one ranking of the open rows that look like the expense, cut to
the length asked for, of which every row can be confirmed and auto-match claims the first. -/

namespace ReckonFlow

open MatchingEvals MoneyText Text

variable {U : Unicode} {env : Env} {settings : Settings} {scan : Scan} {db : Db} {expense : Expense}
  {window : ℤ} {candidates : List BankTransaction} {row : BankTransaction}

/-! ## The scores -/

theorem amountSimilarity_bounds (left right : ℚ) :
    0 ≤ amountSimilarity left right ∧ amountSimilarity left right ≤ 1 := by
  simp only [amountSimilarity]
  split_ifs with h
  · norm_num
  · have hlargest : 0 < max |left| |right| :=
      lt_of_le_of_ne (le_max_of_le_left (abs_nonneg left)) (Ne.symm h)
    have hnear : |(|left| - |right|)| ≤ max |left| |right| := by
      refine abs_le.2 ⟨?_, ?_⟩
      · linarith [le_max_right |left| |right|, abs_nonneg left]
      · linarith [le_max_left |left| |right|, abs_nonneg right]
    have hshare : |(|left| - |right|)| / max |left| |right| ≤ 1 := div_le_one_of_le₀ hnear hlargest.le
    exact ⟨by linarith, by linarith [div_nonneg (abs_nonneg (|left| - |right|)) hlargest.le]⟩

theorem dateSimilarity_bounds (left right : Date) (window : ℤ) :
    0 ≤ dateSimilarity left right window ∧ dateSimilarity left right window ≤ 1 := by
  unfold dateSimilarity
  split_ifs with hwindow heq
  · norm_num
  · norm_num
  · have hpos : (0 : ℚ) ≤ window := by exact_mod_cast (not_le.1 hwindow).le
    have hshare : 0 ≤ ((|left.ordinal - right.ordinal| : ℤ) : ℚ) / window :=
      div_nonneg (by exact_mod_cast abs_nonneg _) hpos
    exact ⟨le_max_left .., max_le zero_le_one (by push_cast at hshare ⊢; linarith)⟩

/-! ## The rows -/

/-- The rows a reviewer is to be offered. -/
structure Offered (settings : Settings) (expense : Expense) (window : ℤ) (row : BankTransaction) : Prop where
  isOpen : OpenFor expense row
  date : |row.bookingDate.ordinal - expense.expenseDate.ordinal| ≤ window
  amount : |(|row.amount.value| - expense.amount.value)| ≤
    max (1 / 100) (expense.amount.value * settings.reconciliationAmountTolerance)

theorem offered_iff (h : WindowInRange expense window) : Offered settings expense window row ↔
    passesWhere expense expense.amount.value window settings.reconciliationAmountTolerance row = .ok true := by
  rw [passesWhere_ok h [], Except.ok.injEq, decide_eq_true_iff, passes_row_iff,
    abs_of_pos expense.positive]
  constructor
  · rintro ⟨hopen, hdate, hamount⟩
    obtain ⟨hlow, hhigh⟩ := abs_le.1 hamount
    exact ⟨hopen, hdate, by linarith, by linarith⟩
  · rintro ⟨hopen, hdate, hlow, hhigh⟩
    exact ⟨hopen, hdate, abs_le.2 ⟨by linarith, by linarith⟩⟩

theorem prefilter_ok (scan : Scan) (db : Db) (h : WindowInRange expense window) (tolerance : ℚ) :
    ∃ candidates, prefilter scan db expense window tolerance = .ok candidates ∧
      (candidates.map (·.id)).Nodup := by
  unfold prefilter
  rw [addDays_ok h.1, addDays_ok h.2]
  refine ⟨_, rfl, (((List.perm_insertionSort _ _).trans (scan.perm _)).map _).nodup_iff.2 ?_⟩
  exact (List.filter_sublist.map _).nodup db.bankTransactions.nodup

/-! ## The ranking -/

/-- Every candidate with its fused score, best first. -/
def ranked (env : Env) (settings : Settings) (expense : Expense) (window : ℤ)
    (candidates : List BankTransaction) : List ScoredCandidate :=
  sortedDesc rankKey (fuseResults settings (score env expense candidates window))

theorem score_ids : (score env expense candidates window).map (·.id) = candidates.map (·.id) := by
  rw [score, List.map_map]
  rfl

theorem ranked_perm (hids : (candidates.map (·.id)).Nodup) :
    (ranked env settings expense window candidates).Perm
      (candidates.map fun row => enriched settings (score env expense candidates window)
        (scoreRow env expense window row)) := by
  have hscored : ((score env expense candidates window).map (·.id)).Nodup := by
    rw [score_ids]
    exact hids
  have hperm : (ranked env settings expense window candidates).Perm
      ((score env expense candidates window).map (enriched settings (score env expense candidates window))) :=
    (sortedDesc_perm rankKey _).trans (fuseResults_perm hscored)
  nth_rewrite 2 [score] at hperm
  rwa [List.map_map] at hperm

/-- What the service returns, whatever the limit. -/
theorem rankCandidates_eq (hk : 1 ≤ settings.reconciliationRrfK) {dateWindowDays : Option ℤ}
    (hw : dateWindowDays.getD settings.reconciliationDateWindowDays = window)
    (hcandidates : prefilter scan db expense window settings.reconciliationAmountTolerance = .ok candidates)
    (limit : ℕ) : rankCandidates env settings scan db expense limit dateWindowDays none =
      .ok ((ranked env settings expense window candidates).take limit, candidates.length) := by
  have hfuse : (if candidates.isEmpty then .ok [] else fuse settings (score env expense candidates window)
      limit) = (.ok ((ranked env settings expense window candidates).take limit) :
        Except Error (List ScoredCandidate)) := by
    split_ifs with hempty
    · obtain rfl := List.isEmpty_iff.1 hempty
      have hnone : ranked env settings expense window [] = [] := (ranked_perm (by simp)).eq_nil
      rw [hnone, List.take_nil]
    · unfold fuse
      rw [fuseAll_eq hk]
      rfl
  simp only [rankCandidates]
  rw [hw, Option.getD_none, hcandidates]
  show Except.bind (if candidates.isEmpty then .ok [] else _) _ = _
  rw [hfuse]
  rfl

/-! ## The response -/

theorem moneyField_ok (U : Unicode) (x : Money) : moneyField U x = .ok (moneyToStr (columnDecimal x)) := by
  have hplain : MoneyText.mustBeDecimal U (moneyToStr (columnDecimal x)) =
      .ok (moneyToStr (columnDecimal x)) :=
    mustBeDecimal_plain (d := ⟨x.units < 0, x.units.natAbs, -4⟩) le_rfl
  unfold moneyField
  rw [moneyStr_str.2 hplain]
  rfl

/-- The entry of a ranked candidate. -/
def shown (item : ScoredCandidate) : MatchSuggestion where
  bankTransactionId := item.bankTransaction.id
  bookingDate := item.bankTransaction.bookingDate
  amount := moneyToStr (columnDecimal item.bankTransaction.amount)
  currency := item.bankTransaction.currency
  description := item.bankTransaction.description
  rrfScore := item.rrfScore
  confidence := item.confidence
  autoMatchable := item.autoMatchable
  signals := ⟨item.fuzzyScore, item.amountScore, item.dateScore, item.embeddingScore⟩

theorem matchSuggestion_ok {item : ScoredCandidate} (h : 0 ≤ item.confidence ∧ item.confidence ≤ 1) :
    matchSuggestion U item = .ok (shown item) := by
  unfold matchSuggestion
  rw [moneyField_ok, ensure, if_pos h]
  rfl

/-- An entry shows its row, with scores in their ranges and the gates as they stand. -/
structure Shows (U : Unicode) (env : Env) (settings : Settings) (expense : Expense) (row : BankTransaction)
    (s : MatchSuggestion) : Prop where
  id : s.bankTransactionId = row.id
  bookingDate : s.bookingDate = row.bookingDate
  amount : Denotes U s.amount row.amount.value
  currency : s.currency = row.currency
  description : s.description = row.description
  fuzzyScore : s.signals.fuzzyScore =
    env.tokenSetRatio (strip (expense.vendor ++ " " ++ expense.description)) row.description
  amountScore : 0 ≤ s.signals.amountScore ∧ s.signals.amountScore ≤ 1
  dateScore : 0 ≤ s.signals.dateScore ∧ s.signals.dateScore ≤ 1
  confidence : 0 < s.confidence ∧ s.confidence ≤ 1
  autoMatchable : s.autoMatchable = true ↔ settings.reconciliationAutoMatchThreshold ≤ s.confidence ∧
    settings.reconciliationMinFuzzyScore ≤ s.signals.fuzzyScore

theorem mem_ranked (hk : 1 ≤ settings.reconciliationRrfK) (hids : (candidates.map (·.id)).Nodup)
    {item : ScoredCandidate} (h : item ∈ ranked env settings expense window candidates) :
    ∃ row ∈ candidates, Shows U env settings expense row (shown item) := by
  obtain ⟨row, hrow, rfl⟩ := List.mem_map.1 ((ranked_perm hids).mem_iff.1 h)
  have hscored : ((score env expense candidates window).map (·.id)).Nodup := by
    rw [score_ids]
    exact hids
  have hmem : scoreRow env expense window row ∈ score env expense candidates window :=
    List.mem_map_of_mem hrow
  obtain ⟨-, hconfidence⟩ := confidenceOf_eq hk hscored hmem
  exact ⟨row, hrow, rfl, rfl, columnDecimal_denotes U row.amount, rfl, rfl, rfl,
    amountSimilarity_bounds _ _, dateSimilarity_bounds _ _ _, hconfidence, enriched_autoMatchable _⟩

theorem confirmMatch_offered {row : BankTransaction} (hexpense : db.expenses.get expense.id = some expense)
    (hrow : row ∈ db.bankTransactions.rows) (hopen : row.matchedExpenseId = none) :
    (∃ r, confirmMatch db expense.id row.id = .ok r) ↔ expense.matchStatus ≠ .matched ∧
      ∀ r ∈ db.bankTransactions.rows, r.matchedExpenseId ≠ some expense.id := by
  constructor
  · rintro ⟨⟨db', i⟩, h⟩
    obtain ⟨expense', row', hexpense', hrow', -, hstatus, hunique, -⟩ := confirmMatch_ok h
    obtain rfl := Option.some.inj (hexpense.symm.trans hexpense')
    refine ⟨hstatus, fun r hr hlink => ?_⟩
    obtain rfl := Table.key_inj hr hrow (hunique r hr hlink)
    rw [hopen] at hlink
    cases hlink
  · rintro ⟨hstatus, hfree⟩
    refine ⟨(db.link expense.id row.id, row.id), ?_⟩
    simp only [confirmMatch, Except.bind_eq_ok, ensure_eq_ok, Except.pure_eq_ok, required_eq_ok,
      checkOpen_ok]
    exact ⟨expense, hexpense, row, Table.get_of_mem hrow, (), ⟨.inl hopen, hstatus⟩, (),
      fun r hr hlink => absurd hlink (hfree r hr), rfl⟩

/-! ## The route -/

/-- The key the entries are sorted by. -/
def MatchSuggestion.rank (s : MatchSuggestion) : ℚ ×ₗ ℚ := toLex (s.confidence, s.signals.fuzzyScore)

/-- A ranking of all rows to be offered. -/
structure OfferedAs (U : Unicode) (env : Env) (settings : Settings) (db : Db) (expense : Expense) (window : ℤ)
    (all : List MatchSuggestion) : Prop where
  distinct : (all.map (·.bankTransactionId)).Nodup
  complete : ∀ row ∈ db.bankTransactions.rows,
    row.id ∈ all.map (·.bankTransactionId) ↔ Offered settings expense window row
  shows : ∀ s ∈ all, ∃ row ∈ db.bankTransactions.rows, Shows U env settings expense row s
  sorted : all.Pairwise fun s t => t.rank ≤ s.rank
  confirms : ∀ s ∈ all, (∃ r, confirmMatch db expense.id s.bankTransactionId = .ok r) ↔
    expense.matchStatus ≠ .matched ∧ ∀ r ∈ db.bankTransactions.rows, r.matchedExpenseId ≠ some expense.id

theorem ranked_offered (hk : 1 ≤ settings.reconciliationRrfK) (h : WindowInRange expense window)
    (hexpense : db.expenses.get expense.id = some expense)
    (hcandidates : prefilter scan db expense window settings.reconciliationAmountTolerance = .ok candidates)
    (hids : (candidates.map (·.id)).Nodup) :
    OfferedAs U env settings db expense window
      ((ranked env settings expense window candidates).map shown) := by
  have hoffered : ∀ row, row ∈ candidates ↔
      row ∈ db.bankTransactions.rows ∧ Offered settings expense window row := fun row => by
    rw [mem_prefilter hcandidates, offered_iff h]
  have hperm : (((ranked env settings expense window candidates).map shown).map
      (·.bankTransactionId)).Perm (candidates.map (·.id)) := by
    rw [List.map_map]
    have hsame : ((ranked env settings expense window candidates).map
        fun c => (shown c).bankTransactionId).Perm _ := (ranked_perm hids).map _
    rwa [List.map_map] at hsame
  refine ⟨hperm.nodup_iff.2 hids, fun row hrow => ?_, fun s hs => ?_, ?_, fun s hs => ?_⟩
  · rw [hperm.mem_iff]
    constructor
    · intro hmem
      obtain ⟨row', hrow', hid⟩ := List.mem_map.1 hmem
      obtain ⟨hmem', hlike⟩ := (hoffered row').1 hrow'
      obtain rfl := Table.key_inj hmem' hrow hid
      exact hlike
    · exact fun hlike => List.mem_map_of_mem ((hoffered row).2 ⟨hrow, hlike⟩)
  · obtain ⟨item, hitem, rfl⟩ := List.mem_map.1 hs
    obtain ⟨row, hrow, hshows⟩ := mem_ranked hk hids hitem
    exact ⟨row, ((hoffered row).1 hrow).1, hshows⟩
  · rw [List.pairwise_map]
    exact sortedDesc_pairwise rankKey _
  · obtain ⟨item, hitem, rfl⟩ := List.mem_map.1 hs
    obtain ⟨row, hrow, hshows⟩ := mem_ranked (U := U) hk hids hitem
    obtain ⟨hmem, hlike⟩ := (hoffered row).1 hrow
    rw [hshows.id]
    exact confirmMatch_offered hexpense hmem hlike.isOpen.unmatched

/-- What the route answers. -/
theorem route_eq (hk : 1 ≤ settings.reconciliationRrfK) {dateWindowDays : Option ℤ}
    (hwindow : ∀ w ∈ dateWindowDays, 0 ≤ w ∧ w ≤ 90)
    (hw : dateWindowDays.getD settings.reconciliationDateWindowDays = window)
    (hexpense : db.expenses.get expense.id = some expense)
    (hcandidates : prefilter scan db expense window settings.reconciliationAmountTolerance = .ok candidates)
    (hids : (candidates.map (·.id)).Nodup) {limit : ℤ} (hlow : 1 ≤ limit) (hhigh : limit ≤ 25) :
    suggestMatchesRoute U env settings scan db expense.id limit dateWindowDays = .ok {
      expenseId := expense.id
      expenseAmount := moneyToStr (columnDecimal expense.amount)
      expenseDate := expense.expenseDate
      candidatesConsidered := candidates.length
      suggestions := ((ranked env settings expense window candidates).map shown).take limit.toNat } := by
  have hservice : suggestMatches env settings scan db expense.id limit.toNat dateWindowDays none =
      .ok (expense, (ranked env settings expense window candidates).take limit.toNat,
        candidates.length) := by
    unfold suggestMatches
    rw [required_eq_ok.2 hexpense]
    show Except.bind (rankCandidates env settings scan db expense limit.toNat dateWindowDays none) _ = _
    rw [rankCandidates_eq hk hw hcandidates]
    rfl
  have hentries : ((ranked env settings expense window candidates).take limit.toNat).mapM
      (matchSuggestion U) =
        .ok (((ranked env settings expense window candidates).take limit.toNat).map shown) := by
    refine Except.mapM_of_forall fun item hitem => matchSuggestion_ok ?_
    obtain ⟨row, -, hshows⟩ := mem_ranked (U := U) hk hids (List.mem_of_mem_take hitem)
    exact ⟨hshows.confidence.1.le, hshows.confidence.2⟩
  simp only [suggestMatchesRoute, Except.bind_eq_ok, ensure_eq_ok, Except.mapError_eq_ok]
  refine ⟨(), ⟨hlow, hhigh⟩, (), hwindow, _, hservice, _, hentries, _, moneyField_ok U _, ?_⟩
  rw [List.map_take]
  rfl

/-- Auto-match claims the first entry, if it is marked and the second is not. -/
theorem auto_claims_first (hk : 1 ≤ settings.reconciliationRrfK)
    (hw : settings.reconciliationDateWindowDays = window)
    (hexpense : db.expenses.get expense.id = some expense)
    (hcandidates : prefilter scan db expense window settings.reconciliationAmountTolerance = .ok candidates)
    {db' : Db} {b : Id} (h : autoReconcile env settings scan db expense.id = .ok (db', some b)) :
    ∃ best rest, (ranked env settings expense window candidates).map shown = best :: rest ∧
      best.bankTransactionId = b ∧ best.autoMatchable = true ∧
      ∀ s ∈ rest.head?, s.autoMatchable = false := by
  simp only [autoReconcile, suggestMatches, Except.bind_eq_ok, Except.pure_eq_ok, required_eq_ok] at h
  obtain ⟨suggested, ⟨expense', hexpense', answer, hanswer, rfl⟩, hsettle⟩ := h
  obtain rfl := Option.some.inj (hexpense.symm.trans hexpense')
  have hdefault : (none : Option ℤ).getD settings.reconciliationDateWindowDays = window := hw
  have hranking : rankCandidates env settings scan db expense 2 none none =
      .ok ((ranked env settings expense window candidates).take 2, candidates.length) :=
    rankCandidates_eq hk hdefault hcandidates 2
  obtain rfl := Except.ok.inj (hranking.symm.trans hanswer)
  unfold settle at hsettle
  rw [autoDecision_take] at hsettle
  cases hdecision : autoDecision (ranked env settings expense window candidates) with
  | none =>
    rw [hdecision] at hsettle
    obtain ⟨parked, -, hnone⟩ := Except.map_eq_ok.1 hsettle
    cases hnone
  | some best =>
    rw [hdecision] at hsettle
    obtain ⟨⟨linked, i⟩, hconfirm, heq⟩ := Except.map_eq_ok.1 hsettle
    obtain ⟨rfl, hi⟩ := Prod.mk.inj heq
    obtain ⟨-, -, -, -, -, -, -, -, rfl⟩ := confirmMatch_ok hconfirm
    obtain rfl := Option.some.inj hi
    obtain ⟨first, rest, hranked, hid, hgates, hsecond⟩ := autoDecision_eq_some.1 hdecision
    refine ⟨shown first, rest.map shown, ?_, hid, hgates, ?_⟩
    · rw [hranked, List.map_cons]
    · rw [List.head?_map]
      intro s hs
      obtain ⟨second, hsecond', rfl⟩ := Option.map_eq_some_iff.1 hs
      exact hsecond second hsecond'

/-- Unless the window leaves the calendar, there is one ranking of all open rows like the expense,
which every limit only cuts. Its entries are in range, can be confirmed unless the expense is
matched or linked, and auto-match claims the first or none. -/
theorem suggestions_complete (U : Unicode) (env : Env) (settings : Settings) (scan : Scan) (db : Db)
    (expense : Expense) (dateWindowDays : Option ℤ) (hk : 1 ≤ settings.reconciliationRrfK)
    (hwindow : ∀ w ∈ dateWindowDays, 0 ≤ w ∧ w ≤ 90)
    (hexpense : db.expenses.get expense.id = some expense) :
    let window := dateWindowDays.getD settings.reconciliationDateWindowDays
    (¬ WindowInRange expense window → ∀ limit : ℤ, 1 ≤ limit → limit ≤ 25 →
      suggestMatchesRoute U env settings scan db expense.id limit dateWindowDays =
        .error (.service .overflow)) ∧
    (WindowInRange expense window → ∃ amount all, Denotes U amount expense.amount.value ∧
      OfferedAs U env settings db expense window all ∧
      (∀ limit : ℤ, 1 ≤ limit → limit ≤ 25 →
        suggestMatchesRoute U env settings scan db expense.id limit dateWindowDays =
          .ok ⟨expense.id, amount, expense.expenseDate, all.length, all.take limit.toNat⟩) ∧
      (dateWindowDays = none → ∀ db' b,
        autoReconcile env settings scan db expense.id = .ok (db', some b) →
          ∃ best rest, all = best :: rest ∧ best.bankTransactionId = b ∧ best.autoMatchable = true ∧
            ∀ s ∈ rest.head?, s.autoMatchable = false)) := by
  intro window
  refine ⟨fun hrange limit hlow hhigh => ?_, fun hrange => ?_⟩
  · have hprefilter : prefilter scan db expense window settings.reconciliationAmountTolerance =
        .error .overflow := window_overflow hrange _
    have hservice : suggestMatches env settings scan db expense.id limit.toNat dateWindowDays none =
        .error .overflow := by
      unfold suggestMatches rankCandidates
      rw [required_eq_ok.2 hexpense]
      show Except.bind (Except.bind (prefilter scan db expense window
        settings.reconciliationAmountTolerance) _) _ = _
      rw [hprefilter]
      rfl
    unfold suggestMatchesRoute
    rw [ensure, if_pos ⟨hlow, hhigh⟩, ensure, if_pos hwindow, hservice]
    rfl
  · obtain ⟨candidates, hcandidates, hids⟩ :=
      prefilter_ok scan db hrange settings.reconciliationAmountTolerance
    have hlength : candidates.length =
        ((ranked env settings expense window candidates).map shown).length := by
      rw [List.length_map, (ranked_perm hids).length_eq, List.length_map]
    refine ⟨_, _, columnDecimal_denotes U expense.amount,
      ranked_offered hk hrange hexpense hcandidates hids, fun limit hlow hhigh => ?_, ?_⟩
    · rw [← hlength]
      exact route_eq hk hwindow rfl hexpense hcandidates hids hlow hhigh
    · rintro rfl db' b h
      exact auto_claims_first hk rfl hexpense hcandidates h

/-- Two of three rows. -/
theorem suggestions_complete_cut : ∃ amount all,
    OfferedAs demoUnicode demoEnv {} demoDb (demoExpense 1) 5 all ∧
      suggestMatchesRoute demoUnicode demoEnv {} demoScan demoDb 1 2 none =
        .ok ⟨1, amount, demoDate, all.length, all.take 2⟩ := by
  have hexpense : demoDb.expenses.get (demoExpense 1).id = some (demoExpense 1) := by decide +kernel
  have hrange : WindowInRange (demoExpense 1) 5 := by decide +kernel
  obtain ⟨amount, all, -, hoffered, hroute, -⟩ := (suggestions_complete demoUnicode demoEnv {} demoScan
    demoDb (demoExpense 1) none (by decide) nofun hexpense).2 hrange
  exact ⟨amount, all, hoffered, hroute 2 (by decide) (by decide)⟩

end ReckonFlow
