import ReckonFlow.Proofs.Fusion

/-! The embedding ranking sorts by `embedding_score or -1.0`, which treats a cosine of exactly
zero like a missing one. -/

namespace ReckonFlow

variable {scored : List ScoredCandidate} {c d : ScoredCandidate}

/-- The candidates in the order of the `embedding` ranking. -/
def embeddingOrder (scored : List ScoredCandidate) : List ScoredCandidate :=
  sortedDesc embeddingKey scored

/-- `c` may stand before `d`: its cosine is not the smaller one, and it is not missing where `d`
has one above `-1`. -/
def MayPrecede (c d : ScoredCandidate) : Prop :=
  (∀ x y, c.embeddingScore = some x → d.embeddingScore = some y → y ≤ x) ∧
    (c.embeddingScore = none → ∀ y, d.embeddingScore = some y → y ≤ -1)

/-- The ranking lists every candidate, in the order of the cosine. -/
def FollowsCosine (scored : List ScoredCandidate) : Prop :=
  ("embedding", (embeddingOrder scored).map (·.id)) ∈ rankings scored ∧
    (embeddingOrder scored).Perm scored ∧ (embeddingOrder scored).Pairwise MayPrecede

/-- No cosine lies strictly between `-1` and a zero one, and nothing without a cosine, or with
one of `-1`, is listed before a zero one. -/
def ZeroHarmless (scored : List ScoredCandidate) : Prop :=
  (∀ c ∈ scored, ∀ d ∈ scored, c.embeddingScore = some 0 → ∀ x, d.embeddingScore = some x →
      x < 0 → x = -1) ∧
    scored.Pairwise fun c d => d.embeddingScore = some 0 →
      c.embeddingScore ≠ none ∧ c.embeddingScore ≠ some (-1)

theorem embeddingKey_none (h : c.embeddingScore = none) : embeddingKey c = -1 := by
  rw [embeddingKey, h]

theorem embeddingKey_zero (h : c.embeddingScore = some 0) : embeddingKey c = -1 := by
  rw [embeddingKey, h]
  rfl

theorem embeddingKey_some {x : ℚ} (h : c.embeddingScore = some x) (h0 : x ≠ 0) :
    embeddingKey c = x := by
  rw [embeddingKey, h]
  exact if_neg h0

/-- Where the order of the keys lets the smaller cosine stand first, the greater one is zero. -/
theorem zero_of_key_le {x y : ℚ} (hx : -1 ≤ x) (hc : c.embeddingScore = some x)
    (hd : d.embeddingScore = some y) (hlt : x < y) (hkey : embeddingKey d ≤ embeddingKey c) :
    y = 0 ∧ x < 0 := by
  by_cases hy : y = 0
  · exact ⟨hy, hy ▸ hlt⟩
  · rw [embeddingKey_some hd hy] at hkey
    by_cases h0 : x = 0
    · rw [embeddingKey_zero (h0 ▸ hc)] at hkey
      linarith
    · rw [embeddingKey_some hc h0] at hkey
      linarith

/-- The same for a missing cosine. -/
theorem zero_of_key_le_missing {y : ℚ} (hc : c.embeddingScore = none)
    (hd : d.embeddingScore = some y) (hlt : -1 < y) (hkey : embeddingKey d ≤ embeddingKey c) : y = 0 := by
  by_contra hy
  rw [embeddingKey_some hd hy, embeddingKey_none hc] at hkey
  linarith

theorem ZeroHarmless.mayPrecede (h : ZeroHarmless scored)
    (hscores : ∀ c ∈ scored, ∀ x, c.embeddingScore = some x → -1 ≤ x ∧ x ≤ 1)
    (hsub : [c, d].Sublist (embeddingOrder scored)) : MayPrecede c d := by
  have hkey := List.pairwise_iff_forall_sublist.1 (sortedDesc_pairwise embeddingKey scored) hsub
  have hc : c ∈ scored := mem_sortedDesc.1 (hsub.subset (List.mem_cons_self ..))
  have hd : d ∈ scored :=
    mem_sortedDesc.1 (hsub.subset (List.mem_cons_of_mem _ (List.mem_singleton_self _)))
  -- with equal keys the two stand as in the list
  have hstays : embeddingKey c = embeddingKey d → [c, d].Sublist scored :=
    fun heq => (sublist_sortedDesc_iff heq).1 hsub
  constructor
  · intro x y hx hy
    by_contra hlt
    obtain ⟨rfl, hneg⟩ := zero_of_key_le (hscores c hc x hx).1 hx hy (not_le.1 hlt) hkey
    obtain rfl := h.1 d hd c hc hy x hx hneg
    have hsame : embeddingKey c = embeddingKey d := by
      rw [embeddingKey_zero hy, embeddingKey_some hx (by norm_num)]
    exact (List.pairwise_iff_forall_sublist.1 h.2 (hstays hsame) hy).2 hx
  · intro hnone y hy
    by_contra hlt
    obtain rfl := zero_of_key_le_missing hnone hy (not_le.1 hlt) hkey
    have hsame : embeddingKey c = embeddingKey d := by
      rw [embeddingKey_zero hy, embeddingKey_none hnone]
    exact (List.pairwise_iff_forall_sublist.1 h.2 (hstays hsame) hy).1 hnone

theorem FollowsCosine.zeroHarmless (h : (embeddingOrder scored).Pairwise MayPrecede)
    (hscores : ∀ c ∈ scored, ∀ x, c.embeddingScore = some x → -1 ≤ x ∧ x ≤ 1) : ZeroHarmless scored := by
  have hpair : ∀ {c d}, [c, d].Sublist (embeddingOrder scored) → MayPrecede c d :=
    List.pairwise_iff_forall_sublist.1 h
  constructor
  · intro c hc d hd hzero x hx hneg
    by_contra hne
    have hlt : embeddingKey c < embeddingKey d := by
      rw [embeddingKey_zero hzero, embeddingKey_some hx hneg.ne]
      exact lt_of_le_of_ne (hscores d hd x hx).1 (Ne.symm hne)
    exact absurd ((hpair (sublist_sortedDesc_of_lt hd hc hlt)).1 x 0 hx hzero) (not_le.2 hneg)
  · rw [List.pairwise_iff_forall_sublist]
    intro c d hsub hzero
    constructor
    · intro hnone
      have hsame : embeddingKey c = embeddingKey d := by
        rw [embeddingKey_zero hzero, embeddingKey_none hnone]
      have hle := (hpair ((sublist_sortedDesc_iff hsame).2 hsub)).2 hnone 0 hzero
      norm_num at hle
    · intro hminus
      have hsame : embeddingKey c = embeddingKey d := by
        rw [embeddingKey_zero hzero, embeddingKey_some hminus (by norm_num)]
      have hle := (hpair ((sublist_sortedDesc_iff hsame).2 hsub)).1 (-1) 0 hminus hzero
      norm_num at hle

theorem mem_rankings_embedding (hsome : ∃ c ∈ scored, c.embeddingScore.isSome) :
    ("embedding", (embeddingOrder scored).map (·.id)) ∈ rankings scored := by
  unfold rankings
  rw [if_pos (List.any_eq_true.2 hsome)]
  exact List.mem_append_right _ (List.mem_singleton_self _)

/-- With cosines in `[-1, 1]`, one at least, the ranking follows the cosine iff the zero cosines
are harmless. -/
theorem embedding_ranking_iff (scored : List ScoredCandidate)
    (hscores : ∀ c ∈ scored, ∀ x, c.embeddingScore = some x → -1 ≤ x ∧ x ≤ 1)
    (hsome : ∃ c ∈ scored, c.embeddingScore.isSome) : FollowsCosine scored ↔ ZeroHarmless scored := by
  constructor
  · intro h
    exact FollowsCosine.zeroHarmless h.2.2 hscores
  · intro h
    refine ⟨mem_rankings_embedding hsome, sortedDesc_perm _ _, ?_⟩
    rw [List.pairwise_iff_forall_sublist]
    exact fun hsub => h.mayPrecede hscores hsub

def demoCosine (id : Id) (cosine : Option ℚ) : ScoredCandidate where
  bankTransaction := demoRow id
  fuzzyScore := 90
  amountScore := 1
  dateScore := 1
  embeddingScore := cosine

/-- A positive cosine, none, and a negative one. -/
theorem embedding_ranking_iff_mixed : FollowsCosine
    [demoCosine 1 (some (-1 / 2)), demoCosine 2 none, demoCosine 3 (some (1 / 2))] := by
  refine (embedding_ranking_iff _ ?_ ?_).2 ⟨?_, ?_⟩
  · norm_num [demoCosine]
    simp
  · exact ⟨demoCosine 1 (some (-1 / 2)), List.mem_cons_self .., rfl⟩
  · norm_num [demoCosine]
    simp
  · norm_num [demoCosine]
    simp

/-- A cosine of zero behind one of `-1/2`. -/
theorem embedding_ranking_fails : ¬ ∀ scored : List ScoredCandidate,
    (∀ c ∈ scored, ∀ x, c.embeddingScore = some x → -1 ≤ x ∧ x ≤ 1) →
      (∃ c ∈ scored, c.embeddingScore.isSome) → FollowsCosine scored := by
  intro hall
  have hscores : ∀ c ∈ [demoCosine 1 (some 0), demoCosine 2 (some (-1 / 2))],
      ∀ x, c.embeddingScore = some x → -1 ≤ x ∧ x ≤ 1 := by
    simp only [List.forall_mem_cons, demoCosine]
    norm_num
  have hfollows := hall _ hscores ⟨demoCosine 1 (some 0), List.mem_cons_self .., rfl⟩
  have hone := (FollowsCosine.zeroHarmless hfollows.2.2 hscores).1 (demoCosine 1 (some 0)) (by simp)
    (demoCosine 2 (some (-1 / 2))) (by simp) rfl (-1 / 2) rfl (by norm_num)
  norm_num at hone

end ReckonFlow
