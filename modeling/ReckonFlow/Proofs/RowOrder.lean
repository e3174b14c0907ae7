import ReckonFlow.Proofs.RankFusion

/-! The order in which the database returns the candidates matters to `_fuse` where two of them
tie in a ranking, and only there: their places in it are those of the list. -/

namespace ReckonFlow

variable {settings : Settings} {scored scored' : List ScoredCandidate} {c d : ScoredCandidate}

/-- `_fuse` followed by the decision of `auto_reconcile`. -/
def outcome (settings : Settings) (scored : List ScoredCandidate) : Except Error (Option Id) :=
  (fuse settings scored 2).map autoDecision

/-- Equal keys in one of the rankings of `_fuse`. -/
def TieInRanking (scored : List ScoredCandidate) (c d : ScoredCandidate) : Prop :=
  c.fuzzyScore = d.fuzzyScore ∨ (c.amountScore + c.dateScore) / 2 = (d.amountScore + d.dateScore) / 2 ∨
    (scored.any (·.embeddingScore.isSome) = true ∧ embeddingKey c = embeddingKey d)

/-- Candidates that tie in a ranking stand in the same order in both lists. -/
def KeepsTies (scored scored' : List ScoredCandidate) : Prop :=
  ∀ c d, TieInRanking scored c d → [c, d].Sublist scored → [c, d].Sublist scored'

/-- Identical scores in every signal. -/
structure SameSignals (c d : ScoredCandidate) : Prop where
  fuzzy : c.fuzzyScore = d.fuzzyScore
  amount : c.amountScore = d.amountScore
  date : c.dateScore = d.dateScore
  embedding : c.embeddingScore = d.embeddingScore

/-! ## Rankings -/

/-- A ranking is the same when the candidates of each key stand in the same order. -/
theorem sortedDesc_of_ties (key : ScoredCandidate → ℚ) (hids : (scored.map (·.id)).Nodup)
    (hperm : scored'.Perm scored)
    (h : ∀ c d, key c = key d → [c, d].Sublist scored → [c, d].Sublist scored') :
    sortedDesc key scored' = sortedDesc key scored := by
  refine (sortedDesc_congr fun v => ?_).symm
  have hnodup : scored.Nodup := List.Nodup.of_map _ hids
  refine eq_of_pairs (hnodup.filter _) (hperm.symm.filter _) fun c d hsub => ?_
  have hkey : ∀ x ∈ [c, d], decide (key x = v) = true := fun x hx =>
    (List.mem_filter.1 (hsub.subset hx)).2
  have hc := of_decide_eq_true (hkey c (List.mem_cons_self ..))
  have hd := of_decide_eq_true (hkey d (List.mem_cons_of_mem _ (List.mem_singleton_self _)))
  have hlist := (h c d (hc.trans hd.symm) (hsub.trans List.filter_sublist)).filter (key · = v)
  rwa [List.filter_eq_self.2 hkey] at hlist

theorem KeepsTies.rankings (h : KeepsTies scored scored') (hids : (scored.map (·.id)).Nodup)
    (hperm : scored'.Perm scored) : rankings scored' = rankings scored := by
  have hany : scored'.any (·.embeddingScore.isSome) = scored.any (·.embeddingScore.isSome) :=
    hperm.any_eq
  have hfuzzy := sortedDesc_of_ties (·.fuzzyScore) hids hperm
    fun c d heq => h c d (.inl heq)
  have hamount := sortedDesc_of_ties (fun i => (i.amountScore + i.dateScore) / 2) hids hperm
    fun c d heq => h c d (.inr (.inl heq))
  unfold ReckonFlow.rankings
  rw [hany, hfuzzy, hamount]
  by_cases hused : scored.any (·.embeddingScore.isSome) = true
  · have hembedding := sortedDesc_of_ties embeddingKey hids hperm
      fun c d heq => h c d (.inr (.inr ⟨hused, heq⟩))
    rw [if_pos hused, if_pos hused, hembedding]
  · rw [if_neg hused, if_neg hused]

theorem get_byId (hids : (scored.map (·.id)).Nodup) (hperm : scored'.Perm scored) (i : Id) :
    Dict.get (Dict.ofPairs (scored'.map fun item => (item.id, item))) i =
      Dict.get (Dict.ofPairs (scored.map fun item => (item.id, item))) i := by
  have hids' : (scored'.map (·.id)).Nodup := (hperm.map _).nodup_iff.2 hids
  ext item
  rw [get_scored_iff hids', get_scored_iff hids, hperm.mem_iff]

/-- `_fuse` returns the same candidates in the same order. -/
theorem KeepsTies.fuseAll (h : KeepsTies scored scored') (hids : (scored.map (·.id)).Nodup)
    (hperm : scored'.Perm scored) : fuseAll settings scored' = fuseAll settings scored := by
  have hrankings := h.rankings hids hperm
  have hbest : bestPossible settings scored' = bestPossible settings scored := by
    rw [bestPossible, bestPossible, hrankings]
  have hscore : ∀ item x, withScore settings scored' item x = withScore settings scored item x := by
    intro item x
    rw [withScore, withScore, hrankings, hbest]
  unfold ReckonFlow.fuseAll
  simp only [hrankings, get_byId hids hperm, hscore]

/-- Of two candidates with the same scores the one listed first comes first in every ranking. -/
theorem SameSignals.precedes (h : SameSignals c d) (hsub : [c, d].Sublist scored)
    {r : String × List Id} (hr : r ∈ ReckonFlow.rankings scored) : [c.id, d.id].Sublist r.2 := by
  have hsorted : ∀ key : ScoredCandidate → ℚ, key c = key d →
      [c.id, d.id].Sublist ((sortedDesc key scored).map (·.id)) := by
    intro key heq
    have h := ((sublist_sortedDesc_iff heq).2 hsub).map ScoredCandidate.id
    exact h
  unfold ReckonFlow.rankings at hr
  rcases List.mem_append.1 hr with hr | hr
  · simp only [List.mem_cons, List.not_mem_nil, or_false] at hr
    rcases hr with rfl | rfl
    · exact hsorted _ h.fuzzy
    · exact hsorted _ (by rw [h.amount, h.date])
  · split_ifs at hr
    · obtain rfl := List.mem_singleton.1 hr
      exact hsorted _ (by rw [embeddingKey, embeddingKey, h.embedding])
    · cases hr

/-- The one listed first has the greater confidence. -/
theorem SameSignals.confidence (h : SameSignals c d) (hk : 1 ≤ settings.reconciliationRrfK)
    (hids : (scored.map (·.id)).Nodup) (hsub : [c, d].Sublist scored) :
    confidenceOf settings scored d < confidenceOf settings scored c := by
  have hk' : (1 : ℚ) ≤ settings.reconciliationRrfK := by exact_mod_cast hk
  have hc : c ∈ scored := hsub.subset (List.mem_cons_self ..)
  have hd : d ∈ scored := hsub.subset (List.mem_cons_of_mem _ (List.mem_singleton_self _))
  have hne : (ReckonFlow.rankings scored).map (·.2) ≠ [] := by
    intro hnil
    exact length_rankings_ne scored (List.length_eq_zero_iff.2 (List.map_eq_nil_iff.1 hnil))
  have hlt : ReciprocalRank.score settings.reconciliationRrfK
      ((ReckonFlow.rankings scored).map (·.2)) d.id < ReciprocalRank.score
        settings.reconciliationRrfK ((ReckonFlow.rankings scored).map (·.2)) c.id := by
    refine ReciprocalRank.score_lt hk' hne ?_ ?_
    · exact List.forall_mem_map.2 fun r hr => rankings_nodup hids hr
    · exact List.forall_mem_map.2 fun r hr => h.precedes hsub hr
  have hscore : ∀ x ∈ scored, (enriched settings scored x).rrfScore =
      ReciprocalRank.score settings.reconciliationRrfK ((ReckonFlow.rankings scored).map (·.2)) x.id :=
    fun x hx => fusedScores_eq hids hx
  rw [(confidenceOf_eq hk hids hc).1, (confidenceOf_eq hk hids hd).1, hscore c hc, hscore d hd]
  exact div_lt_div_of_pos_right hlt (bestPossible_eq hk).2

/-- An order of the candidates that keeps those tied in a ranking as they were leaves everything
as it was, the outcome included; and of two candidates with identical scores in every signal the one
listed first has the greater confidence. -/
theorem row_order (settings : Settings) (scored : List ScoredCandidate)
    (hids : (scored.map (·.id)).Nodup) :
    (∀ scored', scored'.Perm scored → KeepsTies scored scored' →
      ReckonFlow.fuseAll settings scored' = ReckonFlow.fuseAll settings scored ∧
        outcome settings scored' = outcome settings scored) ∧
      (1 ≤ settings.reconciliationRrfK → ∀ c d, [c, d].Sublist scored → SameSignals c d →
        confidenceOf settings scored d < confidenceOf settings scored c) := by
  constructor
  · intro scored' hperm hties
    have hall : ReckonFlow.fuseAll settings scored' = ReckonFlow.fuseAll settings scored :=
      hties.fuseAll hids hperm
    refine ⟨hall, ?_⟩
    rw [outcome, outcome, fuse, fuse, hall]
  · intro hk c d hsub hsame
    exact hsame.confidence hk hids hsub

def demoSignals (id : Id) (fuzzyScore amountScore : ℚ) : ScoredCandidate where
  bankTransaction := demoRow id
  fuzzyScore := fuzzyScore
  amountScore := amountScore
  dateScore := 1

/-- Without ties the rows may come in any order. -/
theorem row_order_reversed : outcome {} [demoSignals 2 80 (49 / 50), demoSignals 1 90 1] =
    outcome {} [demoSignals 1 90 1, demoSignals 2 80 (49 / 50)] := by
  refine ((row_order {} _ (by decide)).1 _ (List.Perm.swap ..) ?_).2
  have hnoTie : ∀ c ∈ [demoSignals 1 90 1, demoSignals 2 80 (49 / 50)],
      ∀ d ∈ [demoSignals 1 90 1, demoSignals 2 80 (49 / 50)], c.id ≠ d.id →
        ¬ TieInRanking [demoSignals 1 90 1, demoSignals 2 80 (49 / 50)] c d := by
    simp only [List.forall_mem_cons, TieInRanking]
    norm_num [demoSignals, ScoredCandidate.id, demoRow]
  intro c d htie hsub
  have hne : c.id ≠ d.id := by
    have h := (hsub.map ScoredCandidate.id).nodup (by decide)
    simpa using h
  exact absurd htie (hnoTie c (hsub.subset (List.mem_cons_self ..)) d
    (hsub.subset (List.mem_cons_of_mem _ (List.mem_singleton_self _))) hne)

/-- Two rows of equal fuzzy score and a third: the better amount comes first in one ranking, the
order of the rows decides the other. -/
theorem row_order_fails : ¬ ∀ scored scored' : List ScoredCandidate, (scored.map (·.id)).Nodup →
    scored'.Perm scored → outcome {} scored' = outcome {} scored := by
  intro hall
  have h := hall [demoSignals 1 90 (99 / 100), demoSignals 2 90 (49 / 50), demoSignals 3 50 1]
    [demoSignals 2 90 (49 / 50), demoSignals 1 90 (99 / 100), demoSignals 3 50 1] (by decide)
    (List.Perm.swap ..)
  revert h
  decide +kernel

end ReckonFlow
