import ReckonFlow.Proofs.EvalPrefilter
import ReckonFlow.Proofs.RowOrder

/-! The hybrid baseline of the eval script against the ranking of the service: the two fuse the same
rankings but for the embedding one, where the service sorts a cosine of zero as -1. -/

namespace ReckonFlow

open MatchingEvals (Candidate Case passes)

variable {settings : Settings} {scored : List ScoredCandidate} {k : ℤ}

/-! ## What the fusion returns -/

/-- The ids by their fused scores; ties stay in the order of insertion. -/
def fusedIds (k : ℤ) (rankings : List (String × List Id)) : List Id :=
  (sortedDesc (·.2) (rankings.foldl (fun fused r => fuseRanking k fused r.2) [])).map (·.1)

/-- The dictionary keeps the order of the first ranking. -/
theorem keys_fused {name : String} {ids : List Id} {rs : List (String × List Id)} (hids : ids.Nodup)
    (hrs : ∀ r ∈ rs, r.2.Perm ids) :
    Dict.keys (((name, ids) :: rs).foldl (fun fused r => fuseRanking k fused r.2) []) = ids := by
  have hfirst : Dict.keys (fuseRanking k [] ids) = ids := by
    unfold fuseRanking
    rw [Dict.keys_foldl_set_new, List.zipIdx_map_fst]
    · rfl
    · rw [List.zipIdx_map_fst]
      exact hids
  suffices hs : ∀ fused : List (Id × ℚ), Dict.keys fused = ids →
      Dict.keys (rs.foldl (fun fused r => fuseRanking k fused r.2) fused) = ids from hs _ hfirst
  induction rs with
  | nil => exact fun _ h => h
  | cons r rs ih =>
    obtain ⟨hr, hrs⟩ := List.forall_mem_cons.1 hrs
    intro fused hfused
    refine ih hrs _ ?_
    unfold fuseRanking
    rw [Dict.keys_foldl_set_old, hfused]
    intro c hc
    rw [hfused]
    apply hr.mem_iff.1
    rw [← List.zipIdx_map_fst 1 r.2]
    exact List.mem_map_of_mem hc

/-- Of two ids the one with the higher score comes first. -/
theorem fusedIds_precedes (hk : 1 ≤ k) {rankings : List (String × List Id)} {i j : Id}
    (hnodup : ∀ r ∈ rankings, r.2.Nodup) (hi : ∃ r ∈ rankings, i ∈ r.2) (hj : ∃ r ∈ rankings, j ∈ r.2)
    (h : ReciprocalRank.score k (rankings.map (·.2)) j < ReciprocalRank.score k (rankings.map (·.2)) i) :
    [i, j].Sublist (fusedIds k rankings) := by
  obtain ⟨fused, hrun, hfused⟩ := reciprocalRankFusion_ok hk hnodup
  have hfold : rankings.foldl (fun fused r => fuseRanking k fused r.2) [] = fused := by
    have hok : reciprocalRankFusion rankings k = .ok _ := if_neg (by omega)
    exact Except.ok.inj (hok.symm.trans hrun)
  have hsub : [_, _].Sublist (sortedDesc Prod.snd fused) :=
    sublist_sortedDesc_of_lt (Dict.mem_of_get (hfused.get_of_ranked hi))
      (Dict.mem_of_get (hfused.get_of_ranked hj)) h
  unfold fusedIds
  rw [hfold]
  exact hsub.map Prod.fst

theorem fusedIds_nodup {name : String} {ids : List Id} {rs : List (String × List Id)} (hids : ids.Nodup)
    (hrs : ∀ r ∈ rs, r.2.Perm ids) : (fusedIds k ((name, ids) :: rs)).Nodup := by
  have hkeys : Dict.keys (((name, ids) :: rs).foldl (fun fused r => fuseRanking k fused r.2) []) = ids :=
    keys_fused hids hrs
  refine ((sortedDesc_perm _ _).map Prod.fst).nodup_iff.2 ?_
  rw [Dict.keys] at hkeys
  rw [hkeys]
  exact hids

/-! ## What `_fuse` returns -/

theorem keys_fusedScores (hids : (scored.map (·.id)).Nodup) :
    Dict.keys (fusedScores settings scored) = (sortedDesc (·.fuzzyScore) scored).map (·.id) := by
  have hperm : ((sortedDesc (·.fuzzyScore) scored).map (·.id)).Perm (scored.map (·.id)) :=
    (sortedDesc_perm _ _).map _
  unfold fusedScores
  rw [show rankings scored = ("fuzzy", (sortedDesc (·.fuzzyScore) scored).map (·.id)) ::
    (rankings scored).tail from rfl]
  refine keys_fused (hperm.nodup_iff.2 hids) fun r hr => ?_
  exact (rankings_ids (List.mem_of_mem_tail hr)).trans hperm.symm

/-- The results carry the fused scores, in order. -/
theorem fuseResults_scores (hids : (scored.map (·.id)).Nodup) :
    (fuseResults settings scored).map (fun r => (r.id, r.rrfScore)) = fusedScores settings scored := by
  unfold fuseResults
  rw [List.map_filterMap]
  refine (List.filterMap_congr fun c hc => ?_).trans List.filterMap_some
  have hmem : c.1 ∈ scored.map (·.id) := mem_keys_fusedScores.1 (List.mem_map_of_mem hc)
  obtain ⟨item, hitem, hid⟩ := List.mem_map.1 hmem
  rw [← hid, get_scored hids hitem]
  show some (item.id, c.2) = some c
  rw [hid]

/-- Among the results the fuzzy scores do not increase. -/
theorem fuseResults_fuzzy (hids : (scored.map (·.id)).Nodup) :
    (fuseResults settings scored).Pairwise fun a b => b.fuzzyScore ≤ a.fuzzyScore := by
  have hitems : ∀ r ∈ fuseResults settings scored, ∃ item ∈ scored, r.id = item.id ∧
      r.fuzzyScore = item.fuzzyScore := by
    intro r hr
    obtain ⟨item, hitem, x, rfl⟩ := mem_fuseResults hr
    exact ⟨item, hitem, rfl, rfl⟩
  -- the fuzzy score as a function of the id
  let fuzzy : Id → ℚ := fun i =>
    ((Dict.get (Dict.ofPairs (scored.map fun item => (item.id, item))) i).map (·.fuzzyScore)).getD 0
  have hfuzzy : ∀ item ∈ scored, fuzzy item.id = item.fuzzyScore := by
    intro item hitem
    show ((Dict.get _ item.id).map _).getD 0 = _
    rw [get_scored hids hitem]
    rfl
  have hids' : (fuseResults settings scored).map (·.id) = (sortedDesc (·.fuzzyScore) scored).map (·.id) := by
    have hkeys : Dict.keys (fusedScores settings scored) = _ := keys_fusedScores hids
    rw [← hkeys, ← fuseResults_scores hids, Dict.keys, List.map_map]
    rfl
  have hsorted : ((sortedDesc (·.fuzzyScore) scored).map (·.id)).Pairwise fun i j => fuzzy j ≤ fuzzy i := by
    rw [List.pairwise_map]
    refine (sortedDesc_pairwise (fun i : ScoredCandidate => i.fuzzyScore) scored).imp_of_mem
      fun {a b} ha hb hle => ?_
    rw [hfuzzy a (mem_sortedDesc.1 ha), hfuzzy b (mem_sortedDesc.1 hb)]
    exact hle
  rw [← hids', List.pairwise_map] at hsorted
  refine hsorted.imp_of_mem fun {a b} ha hb hle => ?_
  obtain ⟨x, hx, hax, hfx⟩ := hitems a ha
  obtain ⟨y, hy, hby, hfy⟩ := hitems b hb
  rw [hfx, hfy, ← hfuzzy x hx, ← hfuzzy y hy, ← hax, ← hby]
  exact hle

/-- The ids `_fuse` returns, before the cut. -/
theorem fuseAll_ids (hk : 1 ≤ settings.reconciliationRrfK) (hids : (scored.map (·.id)).Nodup) :
    (fuseAll settings scored).map (·.map (·.id)) =
      .ok (fusedIds settings.reconciliationRrfK (rankings scored)) := by
  obtain ⟨results, hrun, hconfidence⟩ := fuseAll_confidence hk hids
  obtain rfl := Except.ok.inj ((fuseAll_eq hk).symm.trans hrun)
  have hbest : 0 < bestPossible settings scored := (bestPossible_eq hk).2
  -- the confidence compares as the raw score, and the fuzzy score breaks no tie the other way
  have hsort : sortedDesc rankKey (fuseResults settings scored) =
      sortedDesc (·.rrfScore) (fuseResults settings scored) := by
    refine sortedDesc_congr_key ((fuseResults_fuzzy hids).imp_of_mem fun {a b} ha hb hle => ?_)
    have hlt : a.confidence < b.confidence ↔ a.rrfScore < b.rrfScore := by
      rw [(hconfidence a (mem_sortedDesc.2 ha)).2.2, (hconfidence b (mem_sortedDesc.2 hb)).2.2]
      exact div_lt_div_iff_of_pos_right hbest
    rw [rankKey, rankKey, Prod.Lex.toLex_lt_toLex, hlt]
    exact or_iff_left fun h => absurd h.2 (not_lt.2 hle)
  rw [fuseAll_eq hk, hsort]
  show Except.ok _ = Except.ok _
  unfold fusedIds
  rw [show (rankings scored).foldl (fun fused r => fuseRanking settings.reconciliationRrfK fused r.2) [] =
    fusedScores settings scored from rfl, ← fuseResults_scores hids, sortedDesc_map, List.map_map]
  rfl

/-! ## The two sides on one list of candidates -/

/-- An expense and its candidates as both sides receive them: open rows of its currency, embedded
from their descriptions, and the service returns those it keeps in the order of the list. -/
structure Comparison where
  env : Env
  settings : Settings
  scan : Scan
  db : Db
  expense : Expense
  rows : List BankTransaction
  limit : ℕ
  /-- `text_embedding` returns a vector of 384 entries. -/
  dimensions : ∀ s, env.textEmbedding s ≠ []
  loaded : db.expenses.get expense.id = some expense
  expenseEmbedded : expense.embedding =
    some (env.textEmbedding (Text.strip (expense.vendor ++ " " ++ expense.description)))
  candidates : rows.Perm (db.bankTransactions.rows.filter (OpenFor expense ·))
  embedded : ∀ row ∈ rows, row.embedding = some (env.textEmbedding row.description)
  sameOrder : ∀ survivors, prefilter scan db expense settings.reconciliationDateWindowDays
    settings.reconciliationAmountTolerance = .ok survivors → survivors.Sublist rows
  limit_ge : rows.length ≤ limit

namespace Comparison

variable (c : Comparison)

def bill : Case := .ofExpense c.expense c.expense.amount.value c.rows

def window : ℤ := c.settings.reconciliationDateWindowDays

def tolerance : ℚ := c.settings.reconciliationAmountTolerance

/-- `suggest_matches` returns the ids `rank` returns, or both raise the same error. -/
def SameIds : Prop :=
  (suggestMatches c.env c.settings c.scan c.db c.expense.id c.limit none none).map
      (fun r => r.2.1.map (·.id)) = MatchingEvals.rank c.env c.settings c.bill .hybrid

/-- The candidates the script keeps. -/
def survivors : List BankTransaction :=
  c.rows.filter fun row => passes c.bill c.window c.tolerance (.ofRow row)

def fuzzy (row : BankTransaction) : ℚ := c.env.tokenSetRatio c.bill.expenseText row.description

def amountDate (row : BankTransaction) : ℚ :=
  (amountSimilarity c.expense.amount.value row.amount.value +
    dateSimilarity c.expense.expenseDate row.bookingDate c.window) / 2

def cosine (row : BankTransaction) : ℚ :=
  c.env.cosineSimilarity (c.env.textEmbedding c.bill.expenseText) (c.env.textEmbedding row.description)

/-- What the service sorts the embedding ranking by. -/
def servedKey (x : ℚ) : ℚ := if x = 0 then -1 else x

/-- The three rankings, the embedding one by `key`. -/
def rankingsBy (key : BankTransaction → ℚ) : List (String × List Id) :=
  [("fuzzy", (sortedDesc c.fuzzy c.survivors).map (·.id)),
    ("amount_date", (sortedDesc c.amountDate c.survivors).map (·.id)),
    ("embedding", (sortedDesc key c.survivors).map (·.id))]

variable {c}

theorem rows_nodup : (c.rows.map (·.id)).Nodup := by
  have hsub : (c.db.bankTransactions.rows.filter (OpenFor c.expense ·)).Sublist c.db.bankTransactions.rows :=
    List.filter_sublist
  exact (c.candidates.map _).nodup_iff.2 ((hsub.map _).nodup c.db.bankTransactions.nodup)

theorem survivors_nodup : (c.survivors.map (·.id)).Nodup :=
  ((List.filter_sublist (l := c.rows)).map _).nodup rows_nodup

theorem rankingsBy_nodup {key : BankTransaction → ℚ} : ∀ r ∈ c.rankingsBy key, r.2.Nodup := by
  have h : ∀ key : BankTransaction → ℚ, ((sortedDesc key c.survivors).map (·.id)).Nodup :=
    fun key => ((sortedDesc_perm key _).map _).nodup_iff.2 survivors_nodup
  simp only [rankingsBy, List.forall_mem_cons, List.not_mem_nil, false_imp_iff, implies_true, and_true]
  exact ⟨h _, h _, h _⟩

theorem rankingsBy_fused_nodup {key : BankTransaction → ℚ} : (fusedIds k (c.rankingsBy key)).Nodup := by
  have hperm : ∀ key : BankTransaction → ℚ,
      ((sortedDesc key c.survivors).map (·.id)).Perm ((sortedDesc c.fuzzy c.survivors).map (·.id)) :=
    fun key => ((sortedDesc_perm key _).trans (sortedDesc_perm _ _).symm).map _
  have hnodup : ∀ r ∈ c.rankingsBy key, r.2.Nodup := rankingsBy_nodup
  refine fusedIds_nodup (hnodup _ (List.mem_cons_self ..)) ?_
  simp only [List.forall_mem_cons, List.not_mem_nil, false_imp_iff, implies_true, and_true]
  exact ⟨hperm _, hperm _⟩

/-- The filter of the script keeps the survivors. -/
theorem prefilter_bill : MatchingEvals.prefilter c.bill c.window c.tolerance = c.survivors.map .ofRow :=
  List.filter_map ..

/-- So does the service, where its window lies in the calendar. -/
theorem prefilter_service (h : WindowInRange c.expense c.window) :
    prefilter c.scan c.db c.expense c.window c.tolerance = .ok c.survivors := by
  obtain ⟨kept, hkept⟩ : ∃ kept, prefilter c.scan c.db c.expense c.window c.tolerance = .ok kept := by
    unfold prefilter
    rw [addDays_ok h.1, addDays_ok h.2]
    exact ⟨_, rfl⟩
  have hsub : kept.Sublist c.rows := c.sameOrder kept hkept
  have hmem : ∀ row, row ∈ kept ↔ row ∈ c.survivors := by
    intro row
    rw [mem_prefilter hkept, passesWhere_ok h c.rows, survivors, List.mem_filter, c.candidates.mem_iff,
      List.mem_filter, Except.ok.injEq, decide_eq_true_iff, decide_eq_true_iff, and_assoc]
    rfl
  have hrows : c.rows.Nodup := List.Nodup.of_map _ rows_nodup
  have hperm : kept.Perm c.survivors :=
    (List.perm_ext_iff_of_nodup (hsub.nodup hrows) (List.filter_sublist.nodup hrows)).2 hmem
  have hpasses : kept.Sublist c.survivors := by
    have hfilter := hsub.filter fun row => passes c.bill c.window c.tolerance (.ofRow row)
    rw [List.filter_eq_self.2 fun row hrow => (List.mem_filter.1 ((hmem row).1 hrow)).2] at hfilter
    exact hfilter
  rw [hkept, hpasses.eq_of_length hperm.length_eq]

/-- Outside the calendar it raises. -/
theorem prefilter_overflow (h : ¬ WindowInRange c.expense c.window) :
    prefilter c.scan c.db c.expense c.window c.tolerance = .error .overflow := window_overflow h _

theorem scoreRow_embedding {row : BankTransaction} (h : row ∈ c.survivors) :
    (scoreRow c.env c.expense c.window row).embeddingScore = some (c.cosine row) := by
  obtain ⟨x, xs, hx⟩ := List.exists_cons_of_ne_nil (c.dimensions c.bill.expenseText)
  obtain ⟨y, ys, hy⟩ := List.exists_cons_of_ne_nil (c.dimensions row.description)
  have hexpense : c.expense.embedding = some (x :: xs) := c.expenseEmbedded.trans (congrArg some hx)
  have hrow : row.embedding = some (y :: ys) :=
    (c.embedded row (List.mem_of_mem_filter h)).trans (congrArg some hy)
  unfold scoreRow cosine
  simp only [hexpense, hrow, hx, hy]

/-- The rankings of the service. -/
theorem rankings_service (hne : c.survivors ≠ []) :
    rankings (score c.env c.expense c.survivors c.window) = c.rankingsBy fun row => servedKey (c.cosine row) := by
  obtain ⟨row, hrow⟩ := List.exists_mem_of_ne_nil _ hne
  have hany : (score c.env c.expense c.survivors c.window).any (·.embeddingScore.isSome) = true := by
    rw [List.any_eq_true]
    exact ⟨_, List.mem_map_of_mem hrow, by rw [scoreRow_embedding hrow]; rfl⟩
  have hkey : sortedDesc (embeddingKey ∘ scoreRow c.env c.expense c.window) c.survivors =
      sortedDesc (fun row => servedKey (c.cosine row)) c.survivors := by
    have heq : ∀ row ∈ c.survivors,
        embeddingKey (scoreRow c.env c.expense c.window row) = servedKey (c.cosine row) := by
      intro row hrow
      rw [embeddingKey, scoreRow_embedding hrow, servedKey]
    refine sortedDesc_congr_key (List.pairwise_of_forall_mem_list fun a ha b hb => ?_)
    rw [Function.comp_apply, Function.comp_apply, heq a ha, heq b hb]
  unfold rankings
  rw [if_pos hany]
  unfold score
  rw [sortedDesc_map, sortedDesc_map, sortedDesc_map, hkey, List.map_map, List.map_map, List.map_map]
  rfl

/-- The rankings of the script. -/
theorem rankings_bill : MatchingEvals.hybridRankings ((c.survivors.map Candidate.ofRow).map
    (MatchingEvals.score c.env c.bill c.window)) = c.rankingsBy c.cosine := by
  unfold MatchingEvals.hybridRankings
  rw [List.map_map, sortedDesc_map, sortedDesc_map, sortedDesc_map, List.map_map, List.map_map, List.map_map]
  rfl

theorem suggest_prefilter (c : Comparison) :
    (suggestMatches c.env c.settings c.scan c.db c.expense.id c.limit none none).map
        (fun r => r.2.1.map (·.id)) =
      (prefilter c.scan c.db c.expense c.window c.tolerance).bind fun candidates =>
        (if candidates.isEmpty then .ok []
          else fuse c.settings (score c.env c.expense candidates c.window) c.limit).map (·.map (·.id)) := by
  have hexpense : required c.db.expenses "Expense" c.expense.id = .ok c.expense := required_eq_ok.2 c.loaded
  unfold suggestMatches rankCandidates
  rw [hexpense]
  show Except.map _ (Except.bind (Except.bind (prefilter c.scan c.db c.expense c.window c.tolerance) _) _) = _
  cases prefilter c.scan c.db c.expense c.window c.tolerance with
  | error e => rfl
  | ok candidates =>
    show Except.map _ (Except.bind (Except.bind (if candidates.isEmpty then .ok []
      else fuse c.settings (score c.env c.expense candidates c.window) c.limit) _) _) =
      Except.map _ (if candidates.isEmpty then .ok []
        else fuse c.settings (score c.env c.expense candidates c.window) c.limit)
    cases if candidates.isEmpty then .ok []
      else fuse c.settings (score c.env c.expense candidates c.window) c.limit with
    | error e => rfl
    | ok ranked => rfl

theorem suggest_eq (h : WindowInRange c.expense c.window) :
    (suggestMatches c.env c.settings c.scan c.db c.expense.id c.limit none none).map
        (fun r => r.2.1.map (·.id)) =
      (if c.survivors.isEmpty then .ok []
        else fuse c.settings (score c.env c.expense c.survivors c.window) c.limit).map (·.map (·.id)) := by
  rw [suggest_prefilter, prefilter_service h]
  rfl

theorem rank_eq : MatchingEvals.rank c.env c.settings c.bill .hybrid =
    if c.survivors.isEmpty then .ok []
    else if c.settings.reconciliationRrfK ≤ 0 then .error (.value "RRF k must be positive")
    else .ok (fusedIds c.settings.reconciliationRrfK (c.rankingsBy c.cosine)) := by
  have hrank : MatchingEvals.rank c.env c.settings c.bill .hybrid =
      if (MatchingEvals.prefilter c.bill c.window c.tolerance).isEmpty then .ok []
      else do
        let fused ← reciprocalRankFusion (MatchingEvals.hybridRankings
          ((MatchingEvals.prefilter c.bill c.window c.tolerance).map
            (MatchingEvals.score c.env c.bill c.window))) c.settings.reconciliationRrfK
        return (sortedDesc (·.2) fused).map (·.1) := rfl
  rw [hrank, prefilter_bill, rankings_bill, List.isEmpty_map]
  by_cases hk : c.settings.reconciliationRrfK ≤ 0
  · rw [if_pos hk, reciprocalRankFusion, if_pos hk]
    rfl
  · rw [if_neg hk, reciprocalRankFusion, if_neg hk]
    rfl

/-- Ids by rank of no candidates. -/
theorem fusedIds_empty {key : BankTransaction → ℚ} (h : c.survivors = []) :
    fusedIds k (c.rankingsBy key) = [] := by
  unfold rankingsBy
  rw [h]
  rfl

theorem fuse_ids (hk : 1 ≤ c.settings.reconciliationRrfK) (hne : c.survivors ≠ []) :
    (fuse c.settings (score c.env c.expense c.survivors c.window) c.limit).map (·.map (·.id)) =
      .ok (fusedIds c.settings.reconciliationRrfK (c.rankingsBy fun row => servedKey (c.cosine row))) := by
  have hids : ((score c.env c.expense c.survivors c.window).map (·.id)).Nodup := by
    rw [score, List.map_map]
    exact survivors_nodup
  obtain ⟨results, hrun, hperm, -⟩ := fuseAll_ok c.settings (by omega) hids
  have hlimit : results.length ≤ c.limit := by
    rw [hperm.length_eq, List.length_map, score, List.length_map]
    exact (List.length_filter_le ..).trans c.limit_ge
  have hresults := fuseAll_ids hk hids
  rw [rankings_service hne, hrun] at hresults
  unfold fuse
  rw [hrun]
  show Except.ok ((results.take c.limit).map (·.id)) = _
  rw [List.take_of_length_le hlimit]
  exact hresults

/-- With a positive `k` and the window in the calendar the two sides fuse two lists of rankings. -/
theorem sameIds_iff (h : WindowInRange c.expense c.window) (hk : 1 ≤ c.settings.reconciliationRrfK) :
    c.SameIds ↔
      fusedIds c.settings.reconciliationRrfK (c.rankingsBy fun row => servedKey (c.cosine row)) =
        fusedIds c.settings.reconciliationRrfK (c.rankingsBy c.cosine) := by
  unfold SameIds
  rw [suggest_eq h, rank_eq]
  by_cases hempty : c.survivors = []
  · rw [fusedIds_empty hempty, fusedIds_empty hempty, hempty]
    exact iff_of_true rfl rfl
  · have hne : c.survivors.isEmpty = false := List.isEmpty_eq_false_iff.2 hempty
    rw [hne, if_neg Bool.false_ne_true, if_neg Bool.false_ne_true, if_neg (by omega), fuse_ids hk hempty,
      Except.ok.injEq]

/-- With no positive `k` both raise `ValueError`, unless there is nothing to rank. -/
theorem sameIds_of_k (h : WindowInRange c.expense c.window) (hk : c.settings.reconciliationRrfK ≤ 0) :
    c.SameIds := by
  have hfuse : ∀ scored, fuse c.settings scored c.limit = .error (.value "RRF k must be positive") := by
    intro scored
    unfold fuse fuseAll reciprocalRankFusion
    rw [if_pos hk]
    rfl
  unfold SameIds
  rw [suggest_eq h, rank_eq, hfuse, if_pos hk]
  split_ifs
  · rfl
  · rfl

/-- Without the window the service raises and the script does not. -/
theorem SameIds.windowInRange (h : c.SameIds) : WindowInRange c.expense c.window := by
  by_contra hrange
  unfold SameIds at h
  rw [suggest_prefilter, prefilter_overflow hrange, rank_eq] at h
  split_ifs at h
  · cases h
  · cases h
  · cases h

/-! ## Zero cosines -/

/-- A zero cosine has no negative one before it, and behind it none above -1. -/
def ZerosInPlace (cosines : List ℚ) : Prop :=
  cosines.Pairwise fun x y => (x = 0 → y < 0 → y ≤ -1) ∧ (y = 0 → x < 0 → x < -1)

/-- The cosines of the candidates the script keeps, in order. -/
def cosines (c : Comparison) : List ℚ := c.survivors.map c.cosine

theorem servedKey_lt_iff {x y : ℚ} : (x < y ↔ servedKey x < servedKey y) ↔
    (x = 0 → y < 0 → y ≤ -1) ∧ (y = 0 → x < 0 → x < -1) := by
  unfold servedKey
  by_cases hx : x = 0
  · by_cases hy : y = 0
    · simp [hx, hy]
    · rw [if_pos hx, if_neg hy, hx]
      simp only [true_imp_iff, hy, false_imp_iff, and_true]
      constructor
      · exact fun h hneg => not_lt.1 fun hlt => absurd (h.2 hlt) hneg.le.not_gt
      · exact fun h => ⟨fun hpos => by linarith, fun hlt => by
          by_contra hneg
          have := h (lt_of_le_of_ne (not_lt.1 hneg) hy)
          linarith⟩
  · by_cases hy : y = 0
    · rw [if_neg hx, if_pos hy, hy]
      simp only [true_imp_iff, hx, false_imp_iff, true_and]
      constructor
      · exact fun h hneg => h.1 hneg
      · exact fun h => ⟨h, fun hlt => by linarith⟩
    · simp [hx, hy]

/-- In place, the zeros do not change the embedding ranking. -/
theorem rankingsBy_servedKey (h : ZerosInPlace c.cosines) :
    c.rankingsBy (fun row => servedKey (c.cosine row)) = c.rankingsBy c.cosine := by
  have hsorted : sortedDesc (fun row => servedKey (c.cosine row)) c.survivors =
      sortedDesc c.cosine c.survivors := by
    unfold ZerosInPlace cosines at h
    rw [List.pairwise_map] at h
    exact (sortedDesc_congr_key (h.imp fun hxy => servedKey_lt_iff.2 hxy)).symm
  rw [rankingsBy, hsorted, rankingsBy]

theorem sameIds_of_zerosInPlace (h : WindowInRange c.expense c.window)
    (hzeros : c.settings.reconciliationRrfK ≤ 0 ∨ ZerosInPlace c.cosines) : c.SameIds := by
  by_cases hk : c.settings.reconciliationRrfK ≤ 0
  · exact sameIds_of_k h hk
  · rw [sameIds_iff h (by omega), rankingsBy_servedKey (hzeros.resolve_left hk)]

/-! ## Other signals -/

/-- The same settings and embeddings, the same text and date of the expense, and candidates of the
same ids and descriptions pass the filter in the same order. What RapidFuzz returns, the amounts and
the booking dates may differ. -/
structure Alike (c d : Comparison) : Prop where
  settings : d.settings = c.settings
  textEmbedding : d.env.textEmbedding = c.env.textEmbedding
  cosineSimilarity : d.env.cosineSimilarity = c.env.cosineSimilarity
  vendor : d.expense.vendor = c.expense.vendor
  description : d.expense.description = c.expense.description
  expenseDate : d.expense.expenseDate = c.expense.expenseDate
  survivors : d.survivors.map (fun row => (row.id, row.description)) =
    c.survivors.map fun row => (row.id, row.description)

variable {d : Comparison}

theorem Alike.refl (c : Comparison) : Alike c c := ⟨rfl, rfl, rfl, rfl, rfl, rfl, rfl⟩

theorem Alike.expenseText (h : Alike c d) : d.bill.expenseText = c.bill.expenseText := by
  show Text.strip (d.expense.vendor ++ " " ++ d.expense.description) = _
  rw [h.vendor, h.description]
  rfl

theorem Alike.cosines (h : Alike c d) : d.cosines = c.cosines := by
  have hmap : ∀ c : Comparison, c.cosines = (c.survivors.map fun row => (row.id, row.description)).map
      fun x => c.env.cosineSimilarity (c.env.textEmbedding c.bill.expenseText) (c.env.textEmbedding x.2) := by
    intro c
    rw [List.map_map]
    rfl
  rw [hmap d, hmap c, h.survivors, h.textEmbedding, h.cosineSimilarity, h.expenseText]

theorem Alike.windowInRange (h : Alike c d) (hrange : WindowInRange c.expense c.window) :
    WindowInRange d.expense d.window := by
  unfold WindowInRange window
  rw [h.settings, h.expenseDate]
  exact hrange

/-- Amounts just below 1. -/
def amountStep (i : Fin 5) : Money :=
  ⟨10000 - i.val, by rw [abs_of_nonneg (by omega)]; omega⟩

theorem amountStep_value (i : Fin 5) : (amountStep i).value = 1 - i.val / 10000 := by
  unfold amountStep Numeric.value
  push_cast
  ring

theorem amountStep_le (i : Fin 5) : (i.val : ℚ) ≤ 4 := by
  have : i.val ≤ 4 := by omega
  exact_mod_cast this

/-- The row on the day of the expense, with one of the amounts. -/
def onDay (c : Comparison) (f : BankTransaction → Fin 5) (row : BankTransaction) : BankTransaction :=
  { row with bookingDate := c.expense.expenseDate, amount := amountStep (f row) }

/-- The expense at an amount of 1. -/
def atOne (expense : Expense) : Expense :=
  { expense with amount := amountStep 0, positive := by decide +kernel }

theorem atOne_id (expense : Expense) : (atOne expense).id = expense.id := rfl

theorem survivors_open {row : BankTransaction} (h : row ∈ c.survivors) :
    row ∈ c.db.bankTransactions.rows ∧ OpenFor c.expense row := by
  have hrow := List.mem_filter.1 (c.candidates.mem_iff.1 (List.mem_of_mem_filter h))
  exact ⟨hrow.1, of_decide_eq_true hrow.2⟩

theorem onDay_ids (c : Comparison) (f : BankTransaction → Fin 5) (rows : List BankTransaction) :
    (rows.map (c.onDay f)).map (·.id) = rows.map (·.id) := by
  rw [List.map_map]
  rfl

theorem get_atOne (c : Comparison) :
    (c.db.expenses.modify c.expense.id atOne atOne_id).get c.expense.id = some (atOne c.expense) := by
  rw [Table.get_modify, c.loaded, Option.map_some, if_pos rfl]

/-- The survivors with amounts chosen by `f`, all on the day of the expense, and RapidFuzz finding
nothing in common. -/
def varied (c : Comparison) (f : BankTransaction → Fin 5) : Comparison where
  env := { c.env with tokenSetRatio := fun _ _ => 0 }
  settings := c.settings
  scan := ⟨id, .refl⟩
  db :=
    { c.db with
      expenses := c.db.expenses.modify c.expense.id atOne atOne_id
      bankTransactions :=
        { rows := c.survivors.map (c.onDay f)
          next := c.db.bankTransactions.next
          nodup := by
            rw [onDay_ids]
            exact survivors_nodup
          fresh := by
            intro r hr
            obtain ⟨row, hrow, rfl⟩ := List.mem_map.1 hr
            exact c.db.bankTransactions.fresh row (survivors_open hrow).1 } }
  expense := atOne c.expense
  rows := c.survivors.map (c.onDay f)
  limit := (c.survivors.map (c.onDay f)).length
  dimensions := c.dimensions
  loaded := get_atOne c
  expenseEmbedded := c.expenseEmbedded
  candidates := by
    rw [List.filter_eq_self.2]
    intro r hr
    obtain ⟨row, hrow, rfl⟩ := List.mem_map.1 hr
    obtain ⟨hunmatched, hstatus, hcurrency⟩ := (survivors_open hrow).2
    exact decide_eq_true ⟨hunmatched, hstatus, hcurrency⟩
  embedded := by
    intro r hr
    obtain ⟨row, hrow, rfl⟩ := List.mem_map.1 hr
    exact c.embedded row (List.mem_of_mem_filter hrow)
  sameOrder := by
    intro kept hkept
    simp only [ReckonFlow.prefilter, Except.bind_eq_ok, Except.pure_eq_ok] at hkept
    obtain ⟨earliest, -, latest, -, rfl⟩ := hkept
    rw [List.Pairwise.insertionSort_eq]
    · exact List.filter_sublist
    · refine List.pairwise_of_forall_mem_list fun a ha b hb => ?_
      obtain ⟨x, -, rfl⟩ := List.mem_map.1 (List.mem_of_mem_filter ha)
      obtain ⟨y, -, rfl⟩ := List.mem_map.1 (List.mem_of_mem_filter hb)
      exact le_rfl
  limit_ge := le_rfl

variable {f : BankTransaction → Fin 5}

theorem varied_passes {row : BankTransaction} (h : row ∈ c.survivors) :
    passes (c.varied f).bill c.window c.tolerance (.ofRow (c.onDay f row)) = true := by
  have hwindow : 0 ≤ c.window :=
    (abs_nonneg _).trans (passes_row_iff.1 (List.mem_filter.1 h).2).1
  refine passes_row_iff.2 ?_
  have hone : (amountStep 0).value = 1 := by rw [amountStep_value]; norm_num
  have hamount : |(amountStep (f row)).value| = 1 - (f row).val / 10000 := by
    rw [amountStep_value, abs_of_nonneg]
    linarith [amountStep_le (f row)]
  have hslack : (1 / 100 : ℚ) ≤ max (1 / 100) (|1| * c.tolerance) := le_max_left ..
  have hstep := amountStep_le (f row)
  have hpos : (0 : ℚ) ≤ (f row).val := Nat.cast_nonneg _
  show |c.expense.expenseDate.ordinal - c.expense.expenseDate.ordinal| ≤ c.window ∧
    |(amountStep 0).value| - max (1 / 100) (|(amountStep 0).value| * c.tolerance) ≤
      |(amountStep (f row)).value| ∧
    |(amountStep (f row)).value| ≤
      |(amountStep 0).value| + max (1 / 100) (|(amountStep 0).value| * c.tolerance)
  rw [hone, hamount, abs_one, sub_self, abs_zero]
  rw [abs_one] at hslack
  exact ⟨hwindow, by linarith, by linarith⟩

theorem varied_survivors : (c.varied f).survivors = c.survivors.map (c.onDay f) := by
  refine List.filter_eq_self.2 fun r hr => ?_
  obtain ⟨row, hrow, rfl⟩ := List.mem_map.1 hr
  exact varied_passes hrow

theorem alike_varied (c : Comparison) (f : BankTransaction → Fin 5) : Alike c (c.varied f) where
  settings := rfl
  textEmbedding := rfl
  cosineSimilarity := rfl
  vendor := rfl
  description := rfl
  expenseDate := rfl
  survivors := by
    rw [varied_survivors, List.map_map]
    rfl

theorem varied_amountDate (row : BankTransaction) :
    (c.varied f).amountDate (c.onDay f row) = 1 - (f row).val / 20000 := by
  have hdate : dateSimilarity c.expense.expenseDate c.expense.expenseDate c.window = 1 := by
    unfold dateSimilarity
    rw [if_pos rfl, sub_self, abs_zero, Int.cast_zero, zero_div, sub_zero, max_eq_right zero_le_one, ite_self]
  have hone : (amountStep 0).value = 1 := by rw [amountStep_value]; norm_num
  have hstep := amountStep_le (f row)
  have hpos : (0 : ℚ) ≤ (f row).val := Nat.cast_nonneg _
  have hamount : |(amountStep (f row)).value| = 1 - (f row).val / 10000 := by
    rw [amountStep_value, abs_of_nonneg]
    linarith
  have hlargest : max 1 (1 - ((f row).val : ℚ) / 10000) = 1 := max_eq_left (by linarith)
  have hdiff : |1 - (1 - ((f row).val : ℚ) / 10000)| = (f row).val / 10000 := by
    rw [sub_sub_cancel, abs_of_nonneg (by positivity)]
  show (amountSimilarity (amountStep 0).value (amountStep (f row)).value +
    dateSimilarity c.expense.expenseDate c.expense.expenseDate c.window) / 2 = _
  unfold amountSimilarity
  rw [hdate, hone, abs_one, hamount]
  simp only [hlargest, hdiff]
  rw [if_neg one_ne_zero]
  ring

/-! ## A zero cosine out of place -/

/-- The levels that make the ranking by amount the list with `a` and `b` exchanged. -/
def exchangeLevels (p m : List BankTransaction) (a b row : BankTransaction) : Fin 5 :=
  if row ∈ p then 0 else if row = b then 1 else if row ∈ m then 2 else if row = a then 3 else 4

/-- Where the two places of `a` and `b` in the other rankings add up to the same, the embedding ranking
decides. -/
theorem fusedIds_of_embedding (hk : 1 ≤ k) {key : BankTransaction → ℚ} {p m s : List Id} {i j : Id}
    (hfuzzy : (sortedDesc c.fuzzy c.survivors).map (·.id) = p ++ i :: (m ++ j :: s))
    (hamount : (sortedDesc c.amountDate c.survivors).map (·.id) = p ++ j :: (m ++ i :: s)) {x y : Id}
    (hxy : (x = i ∧ y = j) ∨ (x = j ∧ y = i))
    (hsub : [x, y].Sublist ((sortedDesc key c.survivors).map (·.id))) :
    [x, y].Sublist (fusedIds k (c.rankingsBy key)) := by
  have hk' : (1 : ℚ) ≤ k := by exact_mod_cast hk
  have hnodup : ∀ r ∈ c.rankingsBy key, r.2.Nodup := rankingsBy_nodup
  have hmem : ("embedding", (sortedDesc key c.survivors).map (·.id)) ∈ c.rankingsBy key := by
    simp [rankingsBy]
  have hfirst : (p ++ i :: (m ++ j :: s)).Nodup := by
    rw [← hfuzzy]
    exact hnodup ("fuzzy", _) (by simp [rankingsBy])
  obtain ⟨hfst, hsnd⟩ := ReciprocalRank.share_exchange (k := k) hfirst
  have hlt := ReciprocalRank.share_lt hk' (hnodup _ hmem) hsub
  have hscore : ∀ z, ReciprocalRank.score (k : ℚ) ((c.rankingsBy key).map (·.2)) z =
      ReciprocalRank.share k (p ++ i :: (m ++ j :: s)) z + (ReciprocalRank.share k (p ++ j :: (m ++ i :: s)) z +
        (ReciprocalRank.share k ((sortedDesc key c.survivors).map (·.id)) z + 0)) := by
    intro z
    rw [← hfuzzy, ← hamount]
    rfl
  refine fusedIds_precedes hk hnodup ⟨_, hmem, hsub.subset (List.mem_cons_self ..)⟩
    ⟨_, hmem, hsub.subset (List.mem_cons_of_mem _ (List.mem_singleton_self _))⟩ ?_
  rw [hscore, hscore]
  rcases hxy with ⟨rfl, rfl⟩ | ⟨rfl, rfl⟩
  · rw [hfst, hsnd]
    linarith
  · rw [hfst, hsnd]
    linarith

/-- The rankings by text and by amount of the varied list. -/
theorem varied_rankings {p m s : List BankTransaction} {a b : BankTransaction}
    (hsplit : c.survivors = p ++ a :: (m ++ b :: s)) :
    sortedDesc (c.varied (exchangeLevels p m a b)).fuzzy (c.varied (exchangeLevels p m a b)).survivors =
        (p ++ a :: (m ++ b :: s)).map (c.onDay (exchangeLevels p m a b)) ∧
      sortedDesc (c.varied (exchangeLevels p m a b)).amountDate (c.varied (exchangeLevels p m a b)).survivors =
        (p ++ b :: (m ++ a :: s)).map (c.onDay (exchangeLevels p m a b)) := by
  have hnodup : (p ++ a :: (m ++ b :: s)).Nodup := by
    rw [← hsplit]
    exact List.Nodup.of_map _ survivors_nodup
  rw [varied_survivors, hsplit]
  generalize hf : exchangeLevels p m a b = f
  have hlevels : (∀ x ∈ p, f x = 0) ∧ f b = 1 ∧ (∀ x ∈ m, f x = 2) ∧ f a = 3 ∧ ∀ x ∈ s, f x = 4 := by
    simp only [List.nodup_append, List.nodup_cons, List.mem_append, List.mem_cons] at hnodup
    subst hf
    unfold exchangeLevels
    grind
  obtain ⟨hp, hb, hm, ha, hs⟩ := hlevels
  constructor
  · exact sortedDesc_of_pairwise (List.pairwise_of_forall_mem_list fun _ _ _ _ => le_rfl)
  · rw [sortedDesc_map]
    have hkey : ∀ row, ((c.varied f).amountDate ∘ c.onDay f) row = 1 - (f row).val / 20000 :=
      varied_amountDate
    congr 1
    refine sortedDesc_exchange ?_ ?_ fun x hx => ⟨?_, ?_⟩
    · have hle : ∀ x y, (f x).val ≤ (f y).val → ((c.varied f).amountDate ∘ c.onDay f) y ≤
          ((c.varied f).amountDate ∘ c.onDay f) x := by
        intro x y hxy
        have hxy : ((f x).val : ℚ) ≤ (f y).val := by exact_mod_cast hxy
        rw [hkey, hkey]
        linarith
      have hconst : ∀ (l : List BankTransaction) (n : Fin 5), (∀ x ∈ l, f x = n) →
          l.Pairwise fun x y => (f x).val ≤ (f y).val := fun l n hl =>
        List.pairwise_of_forall_mem_list fun x hx y hy => by rw [hl x hx, hl y hy]
      refine List.Pairwise.imp (fun h => hle _ _ h) ?_
      simp only [List.pairwise_append, List.pairwise_cons, List.mem_append, List.mem_cons]
      refine ⟨hconst p 0 hp, ⟨?_, hconst m 2 hm, ⟨?_, hconst s 4 hs⟩, ?_⟩, ?_⟩
      · grind
      · grind
      · grind
      · grind
    · rw [hkey, hkey, ha, hb]
      norm_num
    · rw [hkey, hkey, ha, hm x hx]
      norm_num
    · rw [hkey, hkey, hb, hm x hx]
      norm_num

/-- Two keys that compare two candidates differently give two different lists of ids. -/
theorem varied_differs (hk : 1 ≤ k) {p m s : List BankTransaction} {a b : BankTransaction}
    (hsplit : c.survivors = p ++ a :: (m ++ b :: s)) {key key' : BankTransaction → ℚ}
    (hkey : ∀ f row, key (c.onDay f row) = key row) (hkey' : ∀ f row, key' (c.onDay f row) = key' row)
    (hlt : key a < key b) (hle : key' b ≤ key' a) :
    fusedIds k ((c.varied (exchangeLevels p m a b)).rankingsBy key) ≠
      fusedIds k ((c.varied (exchangeLevels p m a b)).rankingsBy key') := by
  obtain ⟨hfuzzy, hamount⟩ := varied_rankings hsplit
  generalize exchangeLevels p m a b = f at hfuzzy hamount ⊢
  have hsurvivors := varied_survivors (c := c) (f := f)
  have hpair : [c.onDay f a, c.onDay f b].Sublist (c.varied f).survivors := by
    rw [hsurvivors, hsplit]
    exact ((List.cons_sublist_cons.2 (List.singleton_sublist.2 (by simp))).trans
      (List.sublist_append_right p _)).map (c.onDay f)
  have hids : ∀ l : List BankTransaction, (l.map (c.onDay f)).map (·.id) = l.map (·.id) := onDay_ids c f
  have hfuzzy := congrArg (List.map (·.id)) hfuzzy
  have hamount := congrArg (List.map (·.id)) hamount
  rw [hids, List.map_append, List.map_cons, List.map_append, List.map_cons] at hfuzzy hamount
  have hfirst : c.onDay f a ∈ (c.varied f).survivors := hpair.subset (List.mem_cons_self ..)
  have hsecond : c.onDay f b ∈ (c.varied f).survivors :=
    hpair.subset (List.mem_cons_of_mem _ (List.mem_singleton_self _))
  -- by the first key `b` comes before `a`, by the second it stays behind
  have hover : [c.onDay f b, c.onDay f a].Sublist (sortedDesc key (c.varied f).survivors) :=
    sublist_sortedDesc_of_lt hsecond hfirst (by rwa [hkey, hkey])
  have hstays : [c.onDay f a, c.onDay f b].Sublist (sortedDesc key' (c.varied f).survivors) :=
    sublist_sortedDesc_of_le hpair (by rwa [hkey', hkey'])
  have hba : [b.id, a.id].Sublist (fusedIds k ((c.varied f).rankingsBy key)) :=
    fusedIds_of_embedding hk hfuzzy hamount (.inr ⟨rfl, rfl⟩) (hover.map BankTransaction.id)
  have hab : [a.id, b.id].Sublist (fusedIds k ((c.varied f).rankingsBy key')) :=
    fusedIds_of_embedding hk hfuzzy hamount (.inl ⟨rfl, rfl⟩) (hstays.map BankTransaction.id)
  intro heq
  rw [heq] at hba
  exact absurd (idxOf_lt rankingsBy_fused_nodup hba) (idxOf_lt rankingsBy_fused_nodup hab).not_gt

/-- Ranking alike whatever the other signals puts the zeros in place. -/
theorem zerosInPlace_of_sameIds (h : ∀ d, Alike c d → d.SameIds)
    (hk : 1 ≤ c.settings.reconciliationRrfK) : ZerosInPlace c.cosines := by
  have hrange : WindowInRange c.expense c.window := (h c (.refl c)).windowInRange
  unfold ZerosInPlace cosines
  rw [List.pairwise_map, List.pairwise_iff_forall_sublist]
  intro a b hab
  rw [← servedKey_lt_iff]
  obtain ⟨p, m, s, hsplit⟩ := exists_split_of_pair hab
  have hsame := (sameIds_iff ((alike_varied c (exchangeLevels p m a b)).windowInRange hrange) hk).1
    (h _ (alike_varied c _))
  have hcosine : (c.varied (exchangeLevels p m a b)).cosine = c.cosine := rfl
  rw [hcosine] at hsame
  by_contra hdiffer
  by_cases hlt : c.cosine a < c.cosine b
  · have hle : servedKey (c.cosine b) ≤ servedKey (c.cosine a) :=
      not_lt.1 fun hserved => hdiffer (iff_of_true hlt hserved)
    exact varied_differs hk hsplit (fun _ _ => rfl) (fun _ _ => rfl) hlt hle hsame.symm
  · let served : BankTransaction → ℚ := fun row => servedKey (c.cosine row)
    have hserved : served a < served b := by
      by_contra hnot
      exact hdiffer (iff_of_false hlt hnot)
    exact varied_differs hk hsplit (fun _ _ => rfl) (fun _ _ => rfl) hserved (not_lt.1 hlt) hsame

end Comparison

/-- Whatever the other signals are, the service and the hybrid baseline rank alike, iff the window lies
in the calendar and the zero cosines are in place (or there is no positive `k`). -/
theorem hybrid_ranks_iff (c : Comparison) : (∀ d, Comparison.Alike c d → d.SameIds) ↔
    WindowInRange c.expense c.window ∧
      (c.settings.reconciliationRrfK ≤ 0 ∨ Comparison.ZerosInPlace c.cosines) := by
  constructor
  · intro h
    refine ⟨(h c (.refl c)).windowInRange, ?_⟩
    by_cases hk : c.settings.reconciliationRrfK ≤ 0
    · exact .inl hk
    · exact .inr (Comparison.zerosInPlace_of_sameIds h (by omega))
  · rintro ⟨hrange, hzeros⟩ d hd
    refine Comparison.sameIds_of_zerosInPlace (hd.windowInRange hrange) ?_
    rw [hd.settings, hd.cosines]
    exact hzeros

/-- The vector of a text with one token: its hash fixes the place and the sign. -/
def hashedToken (place : ℕ) (sign : ℚ) : List ℚ := (List.replicate 384 0).set place sign

theorem hashedToken_ne (place : ℕ) (sign : ℚ) : hashedToken place sign ≠ [] := by
  refine List.ne_nil_of_length_pos ?_
  rw [hashedToken, List.length_set, List.length_replicate]
  norm_num

/-- `flight` and `news` hash to the same place with opposite signs, `copy` to another one; the vectors
have norm 1, and RapidFuzz finds no common letters. -/
def flightEnv : Env where
  tokenSetRatio := fun _ _ => 0
  textEmbedding := fun s =>
    if s = "NEWS" then hashedToken 105 (-1) else if s = "COPY" then hashedToken 52 (-1) else hashedToken 105 1
  cosineSimilarity := fun left right => (List.zipWith (· * ·) left right).sum
  upperChar := demoEnv.upperChar
  upper_fixed := demoEnv.upper_fixed

def flightExpense (id : Id) : Expense :=
  { demoExpense id with
    vendor := "Flight"
    description := "flight"
    embedding := some (flightEnv.textEmbedding "Flight flight") }

def embeddedRow (description : String) (amount : Money) (id : Id) : BankTransaction :=
  { demoRow id with
    amount := amount
    description := description
    embedding := some (flightEnv.textEmbedding description) }

def newsRow : Id → BankTransaction := embeddedRow "NEWS" ⟨-990000, by decide⟩

def copyRow : Id → BankTransaction := embeddedRow "COPY" ⟨-1000000, by decide⟩

def flightDb : Db :=
  { Db.empty with
    expenses := Table.empty.insert flightExpense fun _ => rfl
    bankTransactions := (Table.empty.insert newsRow fun _ => rfl).insert copyRow fun _ => rfl }

def flightComparison : Comparison where
  env := flightEnv
  settings := {}
  scan := demoScan
  db := flightDb
  expense := flightExpense 1
  rows := [newsRow 1, copyRow 2]
  limit := 5
  dimensions := by
    intro s
    show (if s = "NEWS" then _ else if s = "COPY" then _ else _) ≠ []
    split_ifs
    · exact hashedToken_ne _ _
    · exact hashedToken_ne _ _
    · exact hashedToken_ne _ _
  loaded := rfl
  expenseEmbedded := by decide +kernel
  candidates := by
    rw [show flightDb.bankTransactions.rows.filter (OpenFor (flightExpense 1) ·) = [newsRow 1, copyRow 2] by
      decide +kernel]
  embedded := by decide +kernel
  sameOrder := by
    intro survivors h
    have hkept : prefilter demoScan flightDb (flightExpense 1) 5 (1 / 50) = .ok [newsRow 1, copyRow 2] := by
      decide +kernel
    obtain rfl := Except.ok.inj (hkept.symm.trans h)
    exact .refl _
  limit_ge := by decide

/-- A cosine of -1 before one of 0: the service leaves them as they stand, the script exchanges them. -/
theorem hybrid_ranks_fail : ¬ ∀ c : Comparison, c.SameIds := by
  intro hall
  have hsame := hall flightComparison
  unfold Comparison.SameIds at hsame
  revert hsame
  decide +kernel

end ReckonFlow
