import ReckonFlow.Lib.ReciprocalRank
import ReckonFlow.Proofs.Fusion

/-! The scores `reciprocal_rank_fusion` accumulates are the sums of the shares each ranking
gives: bounded, monotone, and independent of the order in which the rankings are visited. -/

namespace ReckonFlow

open ReciprocalRank (share)

variable {settings : Settings} {scored : List ScoredCandidate} {k : ℤ} {i : Id}

/-! ## The two loops -/

/-- The inner loop, from any position. -/
theorem get_foldl_zipIdx {ids : List Id} (hnodup : ids.Nodup) (i : Id) :
    ∀ (n : ℕ) (fused : List (Id × ℚ)),
      Dict.get ((ids.zipIdx n).foldl (fun fused c =>
        Dict.set fused c.1 ((Dict.get fused c.1).getD 0 + 1 / ((k : ℚ) + c.2))) fused) i =
      if i ∈ ids then some ((Dict.get fused i).getD 0 + 1 / (k + (ids.idxOf i + n : ℕ)))
      else Dict.get fused i := by
  induction ids with
  | nil => exact fun _ _ => rfl
  | cons x ids ih =>
    intro n fused
    obtain ⟨hx, hnodup⟩ := List.nodup_cons.1 hnodup
    rw [List.zipIdx_cons, List.foldl_cons, ih hnodup, Dict.get_set]
    by_cases hi : i = x
    · subst hi
      rw [if_neg hx, if_pos rfl, if_pos (List.mem_cons_self ..), List.idxOf_cons_self, Nat.zero_add]
    · rw [if_neg hi, List.idxOf_cons_ne _ (Ne.symm hi)]
      have hmem : i ∈ x :: ids ↔ i ∈ ids := by simp [hi]
      simp only [hmem]
      split_ifs
      · rw [Nat.succ_add_eq_add_succ]
      · rfl

theorem get_fuseRanking {ids : List Id} (hnodup : ids.Nodup) (fused : List (Id × ℚ)) (i : Id) :
    Dict.get (fuseRanking k fused ids) i =
      if i ∈ ids then some ((Dict.get fused i).getD 0 + share k ids i) else Dict.get fused i := by
  rw [fuseRanking, get_foldl_zipIdx hnodup i 1 fused]
  split_ifs with hi
  · rw [share, if_pos hi]
  · rfl

/-- The outer loop: the shares of all rankings, for what occurs in one. -/
theorem get_fuseRankings (i : Id) : ∀ (rs : List (String × List Id)) (fused : List (Id × ℚ)),
    (∀ r ∈ rs, r.2.Nodup) →
      Dict.get (rs.foldl (fun fused r => fuseRanking k fused r.2) fused) i =
        if ∃ r ∈ rs, i ∈ r.2 then some ((Dict.get fused i).getD 0 + ReciprocalRank.score k (rs.map (·.2)) i)
        else Dict.get fused i := by
  intro rs
  induction rs with
  | nil =>
    intro fused _
    simp
  | cons r rs ih =>
    intro fused hnodup
    rw [List.foldl_cons, ih _ fun r hr => hnodup r (List.mem_cons_of_mem _ hr),
      get_fuseRanking (hnodup r (List.mem_cons_self ..)), List.map_cons, ReciprocalRank.score_cons]
    have hmem : (∃ q ∈ r :: rs, i ∈ q.2) ↔ i ∈ r.2 ∨ ∃ q ∈ rs, i ∈ q.2 := by simp
    simp only [hmem]
    by_cases hr : i ∈ r.2
    · have hsome : i ∈ r.2 ∨ ∃ q ∈ rs, i ∈ q.2 := .inl hr
      rw [if_pos hr, if_pos hsome, Option.getD_some]
      by_cases hrs : ∃ q ∈ rs, i ∈ q.2
      · rw [if_pos hrs, add_assoc]
      · have hzero : ReciprocalRank.score (k : ℚ) (rs.map (·.2)) i = 0 := by
          apply ReciprocalRank.score_eq_zero
          intro ids hids hi
          obtain ⟨q, hq, rfl⟩ := List.mem_map.1 hids
          exact hrs ⟨q, hq, hi⟩
        rw [if_neg hrs, hzero, add_zero]
    · have hshare : share (k : ℚ) r.2 i = 0 := if_neg hr
      rw [if_neg hr, hshare, zero_add]
      simp only [hr, false_or]

/-- A score for each id that is ranked, the sum of its shares. -/
def FusedBy (k : ℤ) (rankings : List (String × List Id)) (fused : List (Id × ℚ)) : Prop :=
  ∀ i, Dict.get fused i = if ∃ r ∈ rankings, i ∈ r.2 then
    some (ReciprocalRank.score k (rankings.map (·.2)) i) else none

/-- What `reciprocal_rank_fusion` returns. -/
theorem reciprocalRankFusion_ok (hk : 1 ≤ k) {rankings : List (String × List Id)}
    (hnodup : ∀ r ∈ rankings, r.2.Nodup) :
    ∃ fused, reciprocalRankFusion rankings k = .ok fused ∧ FusedBy k rankings fused := by
  refine ⟨_, if_neg (by omega), fun i => ?_⟩
  rw [get_fuseRankings i rankings [] hnodup]
  have hempty : Dict.get ([] : List (Id × ℚ)) i = none := rfl
  rw [hempty, Option.getD_none, zero_add]

theorem maxRrfScore_eq {n : ℕ} (hn : n ≠ 0) : maxRrfScore n k = n / ((k : ℚ) + 1) :=
  if_neg fun h => hn (Nat.le_zero.1 h)

namespace FusedBy

variable {rankings rankings' : List (String × List Id)} {fused fused' : List (Id × ℚ)} {x : ℚ}

theorem get_of_ranked (h : FusedBy k rankings fused) (hi : ∃ r ∈ rankings, i ∈ r.2) :
    Dict.get fused i = some (ReciprocalRank.score k (rankings.map (·.2)) i) := (h i).trans (if_pos hi)

theorem ranked (h : FusedBy k rankings fused) (hx : Dict.get fused i = some x) :
    (∃ r ∈ rankings, i ∈ r.2) ∧ x = ReciprocalRank.score k (rankings.map (·.2)) i := by
  rw [h i] at hx
  split_ifs at hx with hi
  exact ⟨hi, (Option.some.inj hx).symm⟩

theorem bounds (h : FusedBy k rankings fused) (hk : (1 : ℚ) ≤ k) (hne : rankings ≠ [])
    (hx : Dict.get fused i = some x) : 0 < x ∧ x ≤ maxRrfScore rankings.length k ∧
      (x = maxRrfScore rankings.length k ↔ ∀ r ∈ rankings, r.2.head? = some i) := by
  obtain ⟨⟨r, hr, hi⟩, rfl⟩ := h.ranked hx
  have hlength : rankings.length ≠ 0 := fun h => hne (List.length_eq_zero_iff.1 h)
  obtain ⟨hle, hiff⟩ := ReciprocalRank.score_le hk (rankings.map (·.2)) i
  rw [List.length_map] at hle hiff
  rw [maxRrfScore_eq hlength]
  refine ⟨ReciprocalRank.score_pos hk ⟨r.2, List.mem_map_of_mem hr, hi⟩, hle, hiff.trans ?_⟩
  exact List.forall_mem_map

/-- What comes first everywhere scores more. -/
theorem lt (h : FusedBy k rankings fused) (hk : (1 : ℚ) ≤ k) (hne : rankings ≠ [])
    (hnodup : ∀ r ∈ rankings, r.2.Nodup) {a b : Id} (hab : ∀ r ∈ rankings, [a, b].Sublist r.2) :
    ∃ x y, Dict.get fused a = some x ∧ Dict.get fused b = some y ∧ y < x := by
  obtain ⟨r, hr⟩ := List.exists_mem_of_ne_nil rankings hne
  have ha : ∃ r ∈ rankings, a ∈ r.2 := ⟨r, hr, (hab r hr).subset (List.mem_cons_self ..)⟩
  have hb : ∃ r ∈ rankings, b ∈ r.2 :=
    ⟨r, hr, (hab r hr).subset (List.mem_cons_of_mem _ (List.mem_singleton_self _))⟩
  refine ⟨_, _, h.get_of_ranked ha, h.get_of_ranked hb, ?_⟩
  refine ReciprocalRank.score_lt hk (by simpa using hne) ?_ ?_
  · exact List.forall_mem_map.2 hnodup
  · exact List.forall_mem_map.2 hab

theorem append_le {name : String} {ids : List Id} (h : FusedBy k rankings fused) (hk : (1 : ℚ) ≤ k)
    (h' : FusedBy k (rankings ++ [(name, ids)]) fused') (hx : Dict.get fused i = some x) :
    ∃ x', Dict.get fused' i = some x' ∧ x ≤ x' := by
  obtain ⟨⟨r, hr, hi⟩, rfl⟩ := h.ranked hx
  refine ⟨_, h'.get_of_ranked ⟨r, List.mem_append_left _ hr, hi⟩, ?_⟩
  rw [List.map_append, List.map_cons, List.map_nil]
  exact ReciprocalRank.score_append_le hk _ ids i

theorem perm (h : FusedBy k rankings fused) (h' : FusedBy k rankings' fused') (hperm : rankings'.Perm rankings) :
    Dict.get fused' i = Dict.get fused i := by
  have hmem : (∃ r ∈ rankings', i ∈ r.2) ↔ ∃ r ∈ rankings, i ∈ r.2 :=
    exists_congr fun r => and_congr_left' hperm.mem_iff
  rw [h' i, h i, ReciprocalRank.score_perm (hperm.map _)]
  simp only [hmem]

end FusedBy

/-! ## The confidence -/

theorem rankings_nodup (hids : (scored.map (·.id)).Nodup) {r : String × List Id}
    (hr : r ∈ rankings scored) : r.2.Nodup := (rankings_ids hr).nodup_iff.2 hids

/-- Every candidate is ranked. -/
theorem exists_ranking {c : ScoredCandidate} (hc : c ∈ scored) : ∃ r ∈ rankings scored, c.id ∈ r.2 := by
  have hfuzzy : ("fuzzy", (sortedDesc (·.fuzzyScore) scored).map (·.id)) ∈ rankings scored :=
    List.mem_append_left _ (List.mem_cons_self ..)
  exact ⟨_, hfuzzy, (rankings_ids hfuzzy).mem_iff.2 (List.mem_map_of_mem hc)⟩

theorem length_rankings_ne (scored : List ScoredCandidate) : (rankings scored).length ≠ 0 := by
  simp [rankings]

theorem bestPossible_eq (hk : 1 ≤ settings.reconciliationRrfK) : bestPossible settings scored =
    (rankings scored).length / ((settings.reconciliationRrfK : ℚ) + 1) ∧
      0 < bestPossible settings scored := by
  have hk' : (1 : ℚ) ≤ settings.reconciliationRrfK := by exact_mod_cast hk
  have hlength := length_rankings_ne scored
  have hpos : 0 < maxRrfScore (rankings scored).length settings.reconciliationRrfK := by
    rw [maxRrfScore_eq hlength]
    positivity
  simp only [bestPossible]
  rw [if_neg hpos.ne']
  exact ⟨maxRrfScore_eq hlength, hpos⟩

/-- The raw score of a candidate is the sum of its shares in the rankings of `_fuse`. -/
theorem fusedScores_eq (hids : (scored.map (·.id)).Nodup) {c : ScoredCandidate} (hc : c ∈ scored) :
    (Dict.get (fusedScores settings scored) c.id).getD 0 =
      ReciprocalRank.score settings.reconciliationRrfK ((rankings scored).map (·.2)) c.id := by
  rw [fusedScores, get_fuseRankings _ _ _ fun r hr => rankings_nodup hids hr,
    if_pos (exists_ranking hc)]
  have hempty : Dict.get ([] : List (Id × ℚ)) c.id = none := rfl
  rw [hempty, Option.getD_none, zero_add, Option.getD_some]

/-- The confidence is the raw score over the best possible one: the clamp changes nothing. -/
theorem confidenceOf_eq (hk : 1 ≤ settings.reconciliationRrfK) (hids : (scored.map (·.id)).Nodup)
    {c : ScoredCandidate} (hc : c ∈ scored) :
    confidenceOf settings scored c = (enriched settings scored c).rrfScore / bestPossible settings scored ∧
      0 < confidenceOf settings scored c ∧ confidenceOf settings scored c ≤ 1 := by
  have hk' : (1 : ℚ) ≤ settings.reconciliationRrfK := by exact_mod_cast hk
  obtain ⟨hbest, hbestPos⟩ : bestPossible settings scored = _ ∧ _ := bestPossible_eq hk
  have hraw : (enriched settings scored c).rrfScore =
      ReciprocalRank.score settings.reconciliationRrfK ((rankings scored).map (·.2)) c.id :=
    fusedScores_eq hids hc
  have hpos : 0 < (enriched settings scored c).rrfScore := by
    rw [hraw]
    apply ReciprocalRank.score_pos hk'
    obtain ⟨r, hr, hi⟩ := exists_ranking hc
    exact ⟨r.2, List.mem_map_of_mem hr, hi⟩
  have hle : (enriched settings scored c).rrfScore ≤ bestPossible settings scored := by
    rw [hraw, hbest]
    have h := (ReciprocalRank.score_le hk' ((rankings scored).map (·.2)) c.id).1
    rwa [List.length_map] at h
  have hconf : confidenceOf settings scored c =
      (enriched settings scored c).rrfScore / bestPossible settings scored :=
    min_eq_right (div_le_one_of_le₀ hle hbestPos.le)
  rw [hconf]
  exact ⟨rfl, div_pos hpos hbestPos, div_le_one_of_le₀ hle hbestPos.le⟩

/-- The confidences `_fuse` returns. -/
theorem fuseAll_confidence (hk : 1 ≤ settings.reconciliationRrfK) (hids : (scored.map (·.id)).Nodup) :
    ∃ results, fuseAll settings scored = .ok results ∧ ∀ c ∈ results, 0 < c.confidence ∧
      c.confidence ≤ 1 ∧ c.confidence = c.rrfScore / bestPossible settings scored := by
  obtain ⟨results, hfuse, hall, -⟩ := fuseAll_ok settings hk hids
  refine ⟨results, hfuse, fun c hc => ?_⟩
  obtain ⟨item, hitem, hitem'⟩ := List.mem_map.1 (hall.mem_iff.1 hc)
  obtain ⟨heq, hpos, hle⟩ := confidenceOf_eq hk hids hitem
  rw [confidenceOf, hitem'] at heq hpos hle
  exact ⟨hpos, hle, heq⟩

/-- Every score lies between zero and first place everywhere, which only first place everywhere
reaches; what comes first in each ranking scores more; another ranking never lowers a score; the
order of the rankings does not matter. So the confidence of `_fuse` is in `(0, 1]` as it is. -/
theorem rank_fusion (k : ℤ) (hk : 1 ≤ k) (rankings : List (String × List Id)) (hne : rankings ≠ [])
    (hnodup : ∀ r ∈ rankings, r.2.Nodup) :
    ∃ fused, reciprocalRankFusion rankings k = .ok fused ∧
      (∀ i, (∃ x, Dict.get fused i = some x) ↔ ∃ r ∈ rankings, i ∈ r.2) ∧
      (∀ i x, Dict.get fused i = some x → 0 < x ∧ x ≤ maxRrfScore rankings.length k ∧
        (x = maxRrfScore rankings.length k ↔ ∀ r ∈ rankings, r.2.head? = some i)) ∧
      (∀ a b, (∀ r ∈ rankings, [a, b].Sublist r.2) →
        ∃ x y, Dict.get fused a = some x ∧ Dict.get fused b = some y ∧ y < x) ∧
      (∀ name ids, ids.Nodup → ∃ fused', reciprocalRankFusion (rankings ++ [(name, ids)]) k = .ok fused' ∧
        ∀ i x, Dict.get fused i = some x → ∃ x', Dict.get fused' i = some x' ∧ x ≤ x') ∧
      (∀ rankings', rankings'.Perm rankings → ∃ fused', reciprocalRankFusion rankings' k = .ok fused' ∧
        ∀ i, Dict.get fused' i = Dict.get fused i) ∧
      ∀ (settings : Settings) (scored : List ScoredCandidate), settings.reconciliationRrfK = k →
        (scored.map (·.id)).Nodup → ∃ results, fuseAll settings scored = .ok results ∧
          ∀ c ∈ results, 0 < c.confidence ∧ c.confidence ≤ 1 ∧
            c.confidence = c.rrfScore / bestPossible settings scored := by
  have hk' : (1 : ℚ) ≤ k := by exact_mod_cast hk
  obtain ⟨fused, hrun, hfused⟩ := reciprocalRankFusion_ok hk hnodup
  refine ⟨fused, hrun, fun i => ⟨?_, ?_⟩, fun i x hx => hfused.bounds hk' hne hx,
    fun a b hab => hfused.lt hk' hne hnodup hab, fun name ids hids => ?_,
    fun rankings' hperm => ?_, fun settings scored hset hids => ?_⟩
  · rintro ⟨x, hx⟩
    exact (hfused.ranked hx).1
  · intro hi
    exact ⟨_, hfused.get_of_ranked hi⟩
  · have hall : ∀ r ∈ rankings ++ [(name, ids)], r.2.Nodup := by
      intro r hr
      rcases List.mem_append.1 hr with hr | hr
      · exact hnodup r hr
      · obtain rfl := List.mem_singleton.1 hr
        exact hids
    obtain ⟨fused', hrun', hfused'⟩ := reciprocalRankFusion_ok hk hall
    exact ⟨fused', hrun', fun i x hx => hfused.append_le hk' hfused' hx⟩
  · obtain ⟨fused', hrun', hfused'⟩ := reciprocalRankFusion_ok hk fun r hr => hnodup r (hperm.mem_iff.1 hr)
    exact ⟨fused', hrun', fun i => hfused.perm hfused' hperm⟩
  · exact fuseAll_confidence (hset ▸ hk) hids

/-- Two rankings that agree on the first place. -/
theorem rank_fusion_two : ∃ fused, reciprocalRankFusion [("fuzzy", [1, 2, 3]), ("amount", [1, 3, 2])] 60 =
    .ok fused ∧ ∃ x y, Dict.get fused 1 = some x ∧ Dict.get fused 2 = some y ∧ y < x := by
  obtain ⟨fused, hrun, -, -, hless, -⟩ := rank_fusion 60 (by decide)
    [("fuzzy", [1, 2, 3]), ("amount", [1, 3, 2])] (by decide) (by decide)
  exact ⟨fused, hrun, hless 1 2 (by decide)⟩

end ReckonFlow
