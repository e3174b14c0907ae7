import ReckonFlow.Proofs.Service

/-! `_fuse` ranks every scored candidate exactly once, and `auto_reconcile` compares the
best candidate with the runner-up only. -/

namespace ReckonFlow

variable {settings : Settings} {scored : List ScoredCandidate}

/-- The fused scores of `_fuse`, by bank row. -/
def fusedScores (settings : Settings) (scored : List ScoredCandidate) : List (Id × ℚ) :=
  (rankings scored).foldl (fun fused r => fuseRanking settings.reconciliationRrfK fused r.2) []

/-- A scored candidate as `_fuse` returns it. -/
def enriched (settings : Settings) (scored : List ScoredCandidate) (c : ScoredCandidate) :
    ScoredCandidate :=
  withScore settings scored c ((Dict.get (fusedScores settings scored) c.id).getD 0)

def confidenceOf (settings : Settings) (scored : List ScoredCandidate) (c : ScoredCandidate) : ℚ :=
  (enriched settings scored c).confidence

def ClearsGates (settings : Settings) (scored : List ScoredCandidate) (c : ScoredCandidate) : Prop :=
  settings.reconciliationAutoMatchThreshold ≤ confidenceOf settings scored c ∧
    settings.reconciliationMinFuzzyScore ≤ c.fuzzyScore

/-- Ranked at least as high: greater confidence, or the same and no lower fuzzy score. -/
def RankedBefore (settings : Settings) (scored : List ScoredCandidate) (c d : ScoredCandidate) :
    Prop :=
  rankKey (enriched settings scored d) ≤ rankKey (enriched settings scored c)

@[simp] theorem enriched_id (c : ScoredCandidate) : (enriched settings scored c).id = c.id := rfl

theorem enriched_autoMatchable (c : ScoredCandidate) :
    (enriched settings scored c).autoMatchable = true ↔ ClearsGates settings scored c := by
  simp [enriched, withScore, ClearsGates, confidenceOf]

theorem rankings_ids {r : String × List Id} (h : r ∈ rankings scored) :
    r.2.Perm (scored.map (·.id)) := by
  unfold rankings at h
  rcases List.mem_append.1 h with h | h
  · simp only [List.mem_cons, List.not_mem_nil, or_false] at h
    rcases h with rfl | rfl
    · exact (sortedDesc_perm _ _).map _
    · exact (sortedDesc_perm _ _).map _
  · split_ifs at h
    · obtain rfl := List.mem_singleton.1 h
      exact (sortedDesc_perm _ _).map _
    · simp at h

theorem mem_keys_fuseRanking {k : ℤ} {fused : List (Id × ℚ)} {ids : List Id} {i : Id} :
    i ∈ Dict.keys (fuseRanking k fused ids) ↔ i ∈ Dict.keys fused ∨ i ∈ ids := by
  unfold fuseRanking
  rw [Dict.mem_keys_foldl_set, List.zipIdx_map_fst]

theorem nodup_keys_fuseRanking {k : ℤ} {fused : List (Id × ℚ)} (ids : List Id)
    (h : (Dict.keys fused).Nodup) : (Dict.keys (fuseRanking k fused ids)).Nodup :=
  Dict.nodup_keys_foldl_set _ _ _ h

theorem nodup_keys_fusedScores : (Dict.keys (fusedScores settings scored)).Nodup := by
  unfold fusedScores
  suffices hs : ∀ (rs : List (String × List Id)) (d : List (Id × ℚ)), (Dict.keys d).Nodup →
      (Dict.keys (rs.foldl (fun fused r => fuseRanking settings.reconciliationRrfK fused r.2)
        d)).Nodup from hs _ _ List.nodup_nil
  intro rs
  induction rs with
  | nil => exact fun d h => h
  | cons r rs ih => exact fun d h => ih _ (nodup_keys_fuseRanking r.2 h)

theorem mem_keys_fusedScores {i : Id} :
    i ∈ Dict.keys (fusedScores settings scored) ↔ i ∈ scored.map (·.id) := by
  unfold fusedScores
  suffices hs : ∀ (rs : List (String × List Id)) (d : List (Id × ℚ)),
      i ∈ Dict.keys (rs.foldl (fun fused r => fuseRanking settings.reconciliationRrfK fused r.2) d) ↔
        i ∈ Dict.keys d ∨ ∃ r ∈ rs, i ∈ r.2 by
    rw [hs]
    constructor
    · rintro (h | ⟨r, hr, hi⟩)
      · simp [Dict.keys] at h
      · exact (rankings_ids hr).mem_iff.1 hi
    · intro h
      have hfuzzy : ("fuzzy", (sortedDesc (·.fuzzyScore) scored).map (·.id)) ∈ rankings scored :=
        List.mem_append_left _ (List.mem_cons_self ..)
      exact .inr ⟨_, hfuzzy, (rankings_ids hfuzzy).mem_iff.2 h⟩
  intro rs
  induction rs with
  | nil => simp
  | cons r rs ih =>
    intro d
    rw [List.foldl_cons, ih, mem_keys_fuseRanking, or_assoc]
    simp

theorem get_scored_iff (hids : (scored.map (·.id)).Nodup) {i : Id} {item : ScoredCandidate} :
    Dict.get (Dict.ofPairs (scored.map fun item => (item.id, item))) i = some item ↔
      item ∈ scored ∧ item.id = i := by
  have hkeys : (Dict.keys (scored.map fun item => (item.id, item))).Nodup := by
    simpa [Dict.keys, Function.comp_def] using hids
  rw [Dict.ofPairs_of_nodup hkeys]
  constructor
  · intro h
    obtain ⟨x, hx, heq⟩ := List.mem_map.1 (Dict.mem_of_get h)
    obtain ⟨rfl, rfl⟩ := Prod.mk.inj heq
    exact ⟨hx, rfl⟩
  · rintro ⟨h, rfl⟩
    exact Dict.get_of_mem hkeys (List.mem_map.2 ⟨item, h, rfl⟩)

theorem get_scored (hids : (scored.map (·.id)).Nodup) {item : ScoredCandidate} (hitem : item ∈ scored) :
    Dict.get (Dict.ofPairs (scored.map fun item => (item.id, item))) item.id = some item :=
  (get_scored_iff hids).2 ⟨hitem, rfl⟩

/-- The results before they are sorted: the fused scores in order, one candidate each. -/
def fuseResults (settings : Settings) (scored : List ScoredCandidate) : List ScoredCandidate :=
  (fusedScores settings scored).filterMap fun c =>
    (Dict.get (Dict.ofPairs (scored.map fun item => (item.id, item))) c.1).map fun item =>
      withScore settings scored item c.2

theorem fuseAll_eq (hk : 1 ≤ settings.reconciliationRrfK) :
    fuseAll settings scored = .ok (sortedDesc rankKey (fuseResults settings scored)) := by
  have hfusion : reciprocalRankFusion (rankings scored) settings.reconciliationRrfK =
      .ok (fusedScores settings scored) := if_neg (by omega)
  unfold fuseAll
  rw [hfusion]
  rfl

theorem fuseAll_eq_ok {all : List ScoredCandidate} (h : fuseAll settings scored = .ok all) :
    all = sortedDesc rankKey (fuseResults settings scored) := by
  by_cases hk : settings.reconciliationRrfK ≤ 0
  · have hfusion : reciprocalRankFusion (rankings scored) settings.reconciliationRrfK = .error _ := if_pos hk
    unfold fuseAll at h
    rw [hfusion] at h
    cases h
  · exact Except.ok.inj (h.symm.trans (fuseAll_eq (by omega)))

theorem mem_fuseResults {c : ScoredCandidate} (h : c ∈ fuseResults settings scored) :
    ∃ item ∈ scored, ∃ x, c = withScore settings scored item x := by
  obtain ⟨p, -, hp⟩ := List.mem_filterMap.1 h
  obtain ⟨item, hitem, rfl⟩ := Option.map_eq_some_iff.1 hp
  obtain ⟨item', hmem, heq⟩ := List.mem_map.1 (Dict.mem_ofPairs (Dict.mem_of_get hitem))
  obtain ⟨-, rfl⟩ := Prod.mk.inj heq
  exact ⟨item', hmem, p.2, rfl⟩

theorem fuseResults_perm (hids : (scored.map (·.id)).Nodup) :
    (fuseResults settings scored).Perm (scored.map (enriched settings scored)) := by
  unfold fuseResults
  generalize hbyId : Dict.ofPairs (scored.map fun item => (item.id, item)) = byId
  -- read the scores off the ids, then permute the ids
  have hscore : ∀ c ∈ fusedScores settings scored,
      ((Dict.get byId c.1).map fun item => withScore settings scored item c.2) =
        (Dict.get byId c.1).map fun item => withScore settings scored item
          ((Dict.get (fusedScores settings scored) c.1).getD 0) := by
    intro c hc
    rw [Dict.get_of_mem nodup_keys_fusedScores hc, Option.getD_some]
  have hperm : (Dict.keys (fusedScores settings scored)).Perm (scored.map (·.id)) :=
    (List.perm_ext_iff_of_nodup nodup_keys_fusedScores hids).2 fun i => mem_keys_fusedScores
  have hmap : ∀ g : Id → Option ScoredCandidate, ((fusedScores settings scored).filterMap
      fun c => g c.1) = (Dict.keys (fusedScores settings scored)).filterMap g :=
    fun g => List.filterMap_map.symm
  rw [List.filterMap_congr hscore, hmap fun i => (Dict.get byId i).map fun item =>
    withScore settings scored item ((Dict.get (fusedScores settings scored) i).getD 0)]
  refine (hperm.filterMap _).trans ?_
  rw [List.filterMap_map, ← List.filterMap_eq_map]
  refine .of_eq (List.filterMap_congr fun item hitem => ?_)
  simp only [Function.comp_apply, ← hbyId, get_scored hids hitem, Option.map_some]
  rfl

/-- `_fuse` returns every candidate once, best first. -/
theorem fuseAll_ok (settings : Settings) (hk : 0 < settings.reconciliationRrfK) (hids : (scored.map (·.id)).Nodup) :
    ∃ results, fuseAll settings scored = .ok results ∧
      results.Perm (scored.map (enriched settings scored)) ∧
      results.Pairwise fun c d => rankKey d ≤ rankKey c :=
  ⟨_, fuseAll_eq hk, (sortedDesc_perm _ _).trans (fuseResults_perm hids), sortedDesc_pairwise _ _⟩

theorem autoDecision_eq_some {l : List ScoredCandidate} {b : Id} :
    autoDecision l = some b ↔ ∃ best rest, l = best :: rest ∧ best.id = b ∧
      best.autoMatchable = true ∧ ∀ r ∈ rest.head?, r.autoMatchable = false := by
  constructor
  · intro h
    rcases l with _ | ⟨best, _ | ⟨r, rest⟩⟩
    · cases h
    · cases hb : best.autoMatchable <;> simp_all [autoDecision]
    · cases hb : best.autoMatchable <;> cases hr : r.autoMatchable <;> simp_all [autoDecision]
  · rintro ⟨best, rest, rfl, rfl, hb, hr⟩
    rcases rest with _ | ⟨r, rest⟩ <;> simp_all [autoDecision]

/-- The runner-up to `c` reaches the threshold but not the fuzzy floor. -/
def RunnerUpLacksText (settings : Settings) (scored : List ScoredCandidate) (c : ScoredCandidate) :
    Prop :=
  ∃ r ∈ scored, r ≠ c ∧ settings.reconciliationAutoMatchThreshold ≤ confidenceOf settings scored r ∧
    r.fuzzyScore < settings.reconciliationMinFuzzyScore ∧
    ∀ d ∈ scored, d ≠ c → RankedBefore settings scored r d

theorem autoDecision_take (l : List ScoredCandidate) : autoDecision (l.take 2) = autoDecision l := by
  rcases l with _ | ⟨best, _ | ⟨r, rest⟩⟩ <;> rfl

theorem enriched_inj (hids : (scored.map (·.id)).Nodup) {c d : ScoredCandidate} (hc : c ∈ scored)
    (hd : d ∈ scored) (h : enriched settings scored c = enriched settings scored d) : c = d :=
  List.inj_on_of_nodup_map hids hc hd (by rw [← enriched_id, h, enriched_id])

theorem RankedBefore.threshold {c d : ScoredCandidate} (h : RankedBefore settings scored c d)
    (hd : ClearsGates settings scored d) :
    settings.reconciliationAutoMatchThreshold ≤ confidenceOf settings scored c :=
  hd.1.trans (Prod.Lex.monotone_fst _ _ h)

/-- Candidates ranked before each other have the same confidence and fuzzy score. -/
theorem RankedBefore.clears {c d : ScoredCandidate} (h : RankedBefore settings scored c d)
    (h' : RankedBefore settings scored d c) (hd : ClearsGates settings scored d) :
    ClearsGates settings scored c := by
  have heq : rankKey (enriched settings scored c) = rankKey (enriched settings scored d) :=
    le_antisymm h' h
  obtain ⟨hconf, hfuzzy⟩ := Prod.mk.inj (toLex.injective heq)
  refine ⟨?_, hfuzzy ▸ hd.2⟩
  unfold confidenceOf
  rw [hconf]
  exact hd.1

/-- The candidate decided on ranks first and clears both gates; any other candidate that
clears them ranks behind a runner-up without text agreement. -/
theorem decision_link (hids : (scored.map (·.id)).Nodup) {results : List ScoredCandidate}
    (hperm : results.Perm (scored.map (enriched settings scored)))
    (hsorted : results.Pairwise fun c d => rankKey d ≤ rankKey c) {b : Id}
    (h : autoDecision results = some b) :
    ∃ c ∈ scored, c.id = b ∧ ClearsGates settings scored c ∧
      (∀ d ∈ scored, RankedBefore settings scored c d) ∧
      ((∀ d ∈ scored, ClearsGates settings scored d → d = c) ∨
        RunnerUpLacksText settings scored c) := by
  obtain ⟨best, rest, rfl, rfl, hbest, hrunner⟩ := autoDecision_eq_some.1 h
  have hmem : ∀ x, x ∈ best :: rest ↔ ∃ c ∈ scored, enriched settings scored c = x :=
    fun x => by rw [hperm.mem_iff, List.mem_map]
  obtain ⟨hfirst, hrest⟩ := List.pairwise_cons.1 hsorted
  obtain ⟨c, hc, rfl⟩ := (hmem best).1 (List.mem_cons_self ..)
  have hbehind : ∀ d ∈ scored, d ≠ c → enriched settings scored d ∈ rest := by
    intro d hd hdc
    rcases List.mem_cons.1 ((hmem _).2 ⟨d, hd, rfl⟩) with heq | hr
    · exact absurd (enriched_inj hids hd hc heq) hdc
    · exact hr
  have hclears := (enriched_autoMatchable c).1 hbest
  refine ⟨c, hc, rfl, hclears, fun d hd => ?_, ?_⟩
  · by_cases hdc : d = c
    · rw [hdc]
      exact le_rfl
    · exact hfirst _ (hbehind d hd hdc)
  · by_contra hnot
    rw [not_or] at hnot
    obtain ⟨hother, hnone⟩ := hnot
    push Not at hother
    obtain ⟨d, hd, hdclears, hdc⟩ := hother
    obtain ⟨r', rest', rfl⟩ : ∃ r' rest', rest = r' :: rest' :=
      List.exists_cons_of_ne_nil (List.ne_nil_of_mem (hbehind d hd hdc))
    obtain ⟨r, hr, rfl⟩ := (hmem r').1 (by simp)
    have hfails : ¬ ClearsGates settings scored r := by
      rw [← enriched_autoMatchable, hrunner _ rfl]
      exact Bool.false_ne_true
    have hafter : ∀ d ∈ scored, d ≠ c → RankedBefore settings scored r d := by
      intro d hd hdc
      rcases List.mem_cons.1 (hbehind d hd hdc) with heq | hmem'
      · exact (congrArg rankKey heq).le
      · exact (List.pairwise_cons.1 hrest).1 _ hmem'
    have hconf := (hafter d hd hdc).threshold hdclears
    refine hnone ⟨r, hr, fun hrc => hfails (hrc ▸ hclears), hconf, ?_, hafter⟩
    exact not_le.1 fun hfloor => hfails ⟨hconf, hfloor⟩

/-- Two candidates that clear both gates and rank before all others stop the auto-match. -/
theorem decision_park (hids : (scored.map (·.id)).Nodup) {results : List ScoredCandidate}
    (hperm : results.Perm (scored.map (enriched settings scored)))
    (hsorted : results.Pairwise fun c d => rankKey d ≤ rankKey c) {c d : ScoredCandidate}
    (hc : c ∈ scored) (hd : d ∈ scored) (hcd : c ≠ d) (hcc : ClearsGates settings scored c)
    (hdc : ClearsGates settings scored d)
    (hothers : ∀ x ∈ scored, x ≠ c → x ≠ d →
      RankedBefore settings scored c x ∧ RankedBefore settings scored d x) :
    autoDecision results = none := by
  cases hdec : autoDecision results with
  | none => rfl
  | some b =>
    exfalso
    obtain ⟨a, ha, -, -, hfirst, hone | ⟨r, hr, hra, hconf, hfloor, hafter⟩⟩ :=
      decision_link hids hperm hsorted hdec
    · exact hcd ((hone c hc hcc).trans (hone d hd hdc).symm)
    · have hfails : ¬ ClearsGates settings scored r := fun h => absurd h.2 (not_le.2 hfloor)
      obtain ⟨hcr, hdr⟩ := hothers r hr (fun h => hfails (h ▸ hcc)) fun h => hfails (h ▸ hdc)
      -- one of the two is not the candidate decided on, and ties with the runner-up
      by_cases hca : c = a
      · exact hfails ((hafter d hd fun h => hcd (hca.trans h.symm)).clears hdr hdc)
      · exact hfails ((hafter c hc hca).clears hcr hcc)

theorem setMatchStatus_get {db : Db} {e : Id} {expense : Expense} {status : MatchStatus}
    (h : db.expenses.get e = some expense) :
    (db.setMatchStatus e status).expenses.get e = some (expense.setMatchStatus status) := by
  unfold Db.setMatchStatus
  rw [Table.get_modify, h, Option.map_some, if_pos rfl]

theorem settle_park {db : Db} {e : Id} {expense : Expense} {ranked : List ScoredCandidate}
    (h : db.expenses.get e = some expense) (hd : autoDecision ranked = none) :
    settle db e ranked = .ok (db.setMatchStatus e .pendingReview, none) := by
  have hflag : flagForReview db e = .ok (db.setMatchStatus expense.id .pendingReview) := by
    unfold flagForReview
    rw [required_eq_ok.2 h]
    rfl
  unfold settle
  rw [hd]
  show (flagForReview db e).map _ = _
  rw [hflag, (Table.get_eq_some.1 h).2]
  rfl

/-- A row that `auto_reconcile` links clears both gates and ranks first. It is the only
candidate that clears them unless the runner-up lacks text agreement; two candidates that
clear them and rank before all others park the expense. -/
theorem auto_links_top_two (db : Db) (expenseId : Id) (scored : List ScoredCandidate)
    (hids : (scored.map (·.id)).Nodup) :
    ∃ ranked, fuse {} scored 2 = .ok ranked ∧
      (∀ db' b, settle db expenseId ranked = .ok (db', some b) →
        ∃ c ∈ scored, c.id = b ∧ ClearsGates {} scored c ∧ (∀ d ∈ scored, RankedBefore {} scored c d) ∧
          ((∀ d ∈ scored, ClearsGates {} scored d → d = c) ∨ RunnerUpLacksText {} scored c)) ∧
      ∀ c ∈ scored, ∀ d ∈ scored, c ≠ d → ClearsGates {} scored c → ClearsGates {} scored d →
        (∀ x ∈ scored, x ≠ c → x ≠ d → RankedBefore {} scored c x ∧ RankedBefore {} scored d x) →
        ∀ expense, db.expenses.get expenseId = some expense →
          ∃ db', settle db expenseId ranked = .ok (db', none) ∧
            db'.expenses.get expenseId = some (expense.setMatchStatus .pendingReview) := by
  obtain ⟨results, hrun, hperm, hsorted⟩ := fuseAll_ok {} (by decide) hids
  refine ⟨results.take 2, by rw [fuse, hrun]; rfl, fun db' b h => ?_,
    fun c hc d hd hcd hcc hdc hothers expense he => ?_⟩
  · have hdec := (settle_ok h).1.symm
    rw [autoDecision_take] at hdec
    exact decision_link hids hperm hsorted hdec
  · have hdec := decision_park hids hperm hsorted hc hd hcd hcc hdc hothers
    exact ⟨_, settle_park he (by rw [autoDecision_take, hdec]), setMatchStatus_get he⟩

/-- An expense of 100.00 outside any trip. -/
def demoExpense (id : Id) : Expense where
  id := id
  travelRequestId := none
  vendor := "Hotel Adlon"
  description := "3 nights"
  amount := ⟨1000000, by decide⟩
  currency := "EUR"
  expenseDate := demoDate
  matchStatus := .unmatched
  embedding := none
  positive := by decide +kernel

def demoRow (id : Id) : BankTransaction where
  id := id
  bookingDate := demoDate
  amount := ⟨1000000, by decide⟩
  currency := "EUR"
  description := "HOTEL ADLON"
  externalId := none
  matchStatus := .unmatched
  matchedExpenseId := none
  embedding := none

theorem demoExpense_id (id : Id) : (demoExpense id).id = id := rfl

theorem demoRow_id (id : Id) : (demoRow id).id = id := rfl

def demoDb : Db :=
  { Db.empty with
    expenses := Table.empty.insert demoExpense demoExpense_id
    bankTransactions := ((Table.empty.insert demoRow demoRow_id).insert demoRow demoRow_id).insert
      demoRow demoRow_id }

/-- Rows 1 and 2 tie on confidence; row 3 agrees in text but ranks behind both. -/
def demoScored : List ScoredCandidate :=
  [{ bankTransaction := demoRow 1, fuzzyScore := 90, amountScore := 49 / 50, dateScore := 1 },
    { bankTransaction := demoRow 2, fuzzyScore := 50, amountScore := 1, dateScore := 1 },
    { bankTransaction := demoRow 3, fuzzyScore := 70, amountScore := 99 / 100, dateScore := 1 }]

instance (c : ScoredCandidate) : Decidable (ClearsGates settings scored c) :=
  inferInstanceAs (Decidable (_ ∧ _))

theorem auto_links_top_two_tie : ∃ ranked, fuse {} demoScored 2 = .ok ranked ∧
    ∃ db', settle demoDb 1 ranked = .ok (db', some 1) ∧
      RunnerUpLacksText {} demoScored (demoScored.head (by simp [demoScored])) := by
  obtain ⟨ranked, hrun, hlink, -⟩ := auto_links_top_two demoDb 1 demoScored (by decide)
  have hdec : (fuse {} demoScored 2).toOption.map autoDecision = some (some 1) := by decide +kernel
  rw [hrun] at hdec
  have hsettle : settle demoDb 1 ranked = .ok (demoDb.link 1 1, some 1) := by
    unfold settle
    rw [show autoDecision ranked = some 1 from Option.some.inj hdec]
    rfl
  refine ⟨ranked, hrun, _, hsettle, ?_⟩
  obtain ⟨c, hc, hid, -, -, hone⟩ := hlink _ _ hsettle
  obtain rfl : c = demoScored.head (by simp [demoScored]) := by
    simp only [demoScored, List.mem_cons, List.not_mem_nil, or_false] at hc
    rcases hc with rfl | rfl | rfl
    · rfl
    · exact absurd hid (by decide)
    · exact absurd hid (by decide)
  refine hone.resolve_left fun hall => ?_
  have h3 := hall (demoScored.getLast (by simp [demoScored])) (List.getLast_mem _) (by decide +kernel)
  exact absurd (congrArg ScoredCandidate.id h3) (by decide)

/-- A third candidate clears both gates behind a runner-up that does not. -/
theorem auto_links_only_safe_fails : ¬ ∀ (db db' : Db) (e b : Id) (scored ranked : List ScoredCandidate),
    (scored.map (·.id)).Nodup → fuse {} scored 2 = .ok ranked →
      settle db e ranked = .ok (db', some b) → ∀ c ∈ scored, ClearsGates {} scored c → c.id = b := by
  intro hall
  have hdec : (fuse {} demoScored 2).toOption.map autoDecision = some (some 1) := by decide +kernel
  cases hrun : fuse {} demoScored 2 with
  | error e => rw [hrun] at hdec; cases hdec
  | ok ranked =>
    rw [hrun] at hdec
    have hsettle : settle demoDb 1 ranked = .ok (demoDb.link 1 1, some 1) := by
      unfold settle
      rw [show autoDecision ranked = some 1 from Option.some.inj hdec]
      rfl
    have h3 := hall _ _ _ _ _ ranked (by decide) hrun hsettle
      (demoScored.getLast (by simp [demoScored])) (List.getLast_mem _) (by decide +kernel)
    exact absurd h3 (by decide)

end ReckonFlow
