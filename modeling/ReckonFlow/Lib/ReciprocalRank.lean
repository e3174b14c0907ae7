import ReckonFlow.Lib.Ranking

/-! Reciprocal rank fusion in general: several rankings of things of any kind, each of which
gives the thing at position `p` the share `1 / (k + p)`, positions starting at 1. -/

namespace ReciprocalRank

variable {ι : Type*} [DecidableEq ι] {k : ℚ} {ranking : List ι} {rankings : List (List ι)} {i j : ι}

/-- What one ranking gives. -/
def share (k : ℚ) (ranking : List ι) (i : ι) : ℚ :=
  if i ∈ ranking then 1 / (k + (ranking.idxOf i + 1 : ℕ)) else 0

/-- What all of them give together. -/
def score (k : ℚ) (rankings : List (List ι)) (i : ι) : ℚ := (rankings.map (share k · i)).sum

theorem share_nonneg (hk : 1 ≤ k) (ranking : List ι) (i : ι) : 0 ≤ share k ranking i := by
  unfold share
  split_ifs
  · positivity
  · exact le_rfl

theorem share_pos (hk : 1 ≤ k) (hi : i ∈ ranking) : 0 < share k ranking i := by
  rw [share, if_pos hi]
  positivity

/-- The first place is worth most, and nothing else is worth as much. -/
theorem share_le (hk : 1 ≤ k) (ranking : List ι) (i : ι) : share k ranking i ≤ 1 / (k + 1) := by
  unfold share
  split_ifs
  · apply one_div_le_one_div_of_le (by linarith)
    push_cast
    linarith [Nat.cast_nonneg (α := ℚ) (ranking.idxOf i)]
  · positivity

theorem share_eq_iff (hk : 1 ≤ k) : share k ranking i = 1 / (k + 1) ↔ ranking.head? = some i := by
  have hpos : (0 : ℚ) < 1 / (k + 1) := by positivity
  cases ranking with
  | nil =>
    rw [share, if_neg List.not_mem_nil]
    exact iff_of_false hpos.ne (by simp)
  | cons x ranking =>
    rw [List.head?_cons, Option.some.injEq]
    by_cases hx : x = i
    · subst hx
      simp [share]
    · have hsucc : (x :: ranking).idxOf i = ranking.idxOf i + 1 := List.idxOf_cons_ne _ hx
      refine iff_of_false ?_ hx
      unfold share
      split_ifs
      · rw [hsucc]
        apply ne_of_lt
        apply one_div_lt_one_div_of_lt (by linarith)
        push_cast
        linarith [Nat.cast_nonneg (α := ℚ) (ranking.idxOf i)]
      · exact hpos.ne

/-- The one that comes first gets more. -/
theorem share_lt (hk : 1 ≤ k) (hnodup : ranking.Nodup) (h : [i, j].Sublist ranking) :
    share k ranking j < share k ranking i := by
  have hi : i ∈ ranking := h.subset (List.mem_cons_self ..)
  have hj : j ∈ ranking := h.subset (List.mem_cons_of_mem _ (List.mem_singleton_self _))
  have hlt := idxOf_lt hnodup h
  rw [share, share, if_pos hi, if_pos hj]
  apply one_div_lt_one_div_of_lt
  · positivity
  · push_cast
    have : (ranking.idxOf i : ℚ) < ranking.idxOf j := by exact_mod_cast hlt
    linarith

theorem share_append {p s : List ι} {i : ι} (hi : i ∉ p) :
    share k (p ++ i :: s) i = 1 / (k + (p.length + 1 : ℕ)) := by
  rw [share, if_pos (List.mem_append_right _ (List.mem_cons_self ..)), List.idxOf_append_of_notMem hi,
    List.idxOf_cons_self, Nat.add_zero]

/-- Exchanging two in a ranking exchanges their shares. -/
theorem share_exchange {p m s : List ι} {i j : ι} (h : (p ++ i :: (m ++ j :: s)).Nodup) :
    share k (p ++ j :: (m ++ i :: s)) j = share k (p ++ i :: (m ++ j :: s)) i ∧
      share k (p ++ j :: (m ++ i :: s)) i = share k (p ++ i :: (m ++ j :: s)) j := by
  have hparts : i ∉ p ∧ j ∉ p ∧ i ∉ m ∧ j ∉ m ∧ i ≠ j := by
    simp only [List.nodup_append, List.nodup_cons, List.mem_append, List.mem_cons] at h
    grind
  obtain ⟨hip, hjp, him, hjm, hij⟩ := hparts
  have hfar : ∀ x y : ι, x ∉ p → y ∉ p → y ∉ m → x ≠ y →
      share k (p ++ x :: (m ++ y :: s)) y = 1 / (k + (p.length + (m.length + 1) + 1 : ℕ)) := by
    intro x y _ hyp hym hxy
    have hy : y ∉ p ++ x :: m := by simp [hyp, hym, Ne.symm hxy]
    have hsplit : p ++ x :: (m ++ y :: s) = (p ++ x :: m) ++ y :: s := by simp
    rw [hsplit, share_append hy, List.length_append, List.length_cons]
  refine ⟨?_, ?_⟩
  · rw [share_append hjp, share_append hip]
  · rw [hfar j i hjp hip him (Ne.symm hij), hfar i j hip hjp hjm hij]
theorem score_cons (k : ℚ) (ranking : List ι) (rankings : List (List ι)) (i : ι) :
    score k (ranking :: rankings) i = share k ranking i + score k rankings i := rfl

theorem score_eq_zero (h : ∀ r ∈ rankings, i ∉ r) : score k rankings i = 0 := by
  apply List.sum_eq_zero
  intro x hx
  obtain ⟨ranking, hr, rfl⟩ := List.mem_map.1 hx
  exact if_neg (h ranking hr)

theorem score_nonneg (hk : 1 ≤ k) (rankings : List (List ι)) (i : ι) : 0 ≤ score k rankings i := by
  apply List.sum_nonneg
  intro x hx
  obtain ⟨ranking, -, rfl⟩ := List.mem_map.1 hx
  exact share_nonneg hk ranking i

theorem score_pos (hk : 1 ≤ k) (hi : ∃ ranking ∈ rankings, i ∈ ranking) : 0 < score k rankings i := by
  induction rankings with
  | nil => simp at hi
  | cons ranking rankings ih =>
    rw [score_cons]
    by_cases hmem : i ∈ ranking
    · exact add_pos_of_pos_of_nonneg (share_pos hk hmem) (score_nonneg hk rankings i)
    · obtain ⟨r, hr, hir⟩ := hi
      have hrest : r ∈ rankings := (List.mem_cons.1 hr).resolve_left fun h => hmem (h ▸ hir)
      exact add_pos_of_nonneg_of_pos (share_nonneg hk ranking i) (ih ⟨r, hrest, hir⟩)

/-- No score exceeds first place everywhere, and only first place everywhere reaches it. -/
theorem score_le (hk : 1 ≤ k) (rankings : List (List ι)) (i : ι) :
    score k rankings i ≤ rankings.length / (k + 1) ∧
      (score k rankings i = rankings.length / (k + 1) ↔ ∀ r ∈ rankings, r.head? = some i) := by
  induction rankings with
  | nil => simp [score]
  | cons ranking rankings ih =>
    obtain ⟨hle, hiff⟩ := ih
    have hshare := share_le hk ranking i
    have hlength : ((ranking :: rankings).length : ℚ) / (k + 1) =
        1 / (k + 1) + rankings.length / (k + 1) := by
      rw [List.length_cons]
      push_cast
      ring
    rw [score_cons, hlength]
    refine ⟨add_le_add hshare hle, ?_⟩
    rw [List.forall_mem_cons, ← share_eq_iff hk, ← hiff]
    constructor
    · intro heq
      constructor
      · linarith
      · linarith
    · rintro ⟨h, h'⟩
      rw [h, h']

/-- What comes first in every ranking has the higher score. -/
theorem score_lt (hk : 1 ≤ k) (hne : rankings ≠ []) (hnodup : ∀ r ∈ rankings, r.Nodup)
    (h : ∀ r ∈ rankings, [i, j].Sublist r) : score k rankings j < score k rankings i := by
  induction rankings with
  | nil => exact absurd rfl hne
  | cons ranking rankings ih =>
    have hfirst := share_lt hk (hnodup _ (List.mem_cons_self ..)) (h _ (List.mem_cons_self ..))
    rw [score_cons, score_cons]
    by_cases hrest : rankings = []
    · subst hrest
      simpa [score] using hfirst
    · exact add_lt_add hfirst (ih hrest (fun r hr => hnodup r (List.mem_cons_of_mem _ hr))
        fun r hr => h r (List.mem_cons_of_mem _ hr))

theorem score_append_le (hk : 1 ≤ k) (rankings : List (List ι)) (ranking : List ι) (i : ι) :
    score k rankings i ≤ score k (rankings ++ [ranking]) i := by
  rw [score, score, List.map_append, List.sum_append]
  simpa using share_nonneg hk ranking i

theorem score_perm {rankings' : List (List ι)} (h : rankings.Perm rankings') (k : ℚ) (i : ι) :
    score k rankings i = score k rankings' i := (h.map _).sum_eq

end ReciprocalRank
