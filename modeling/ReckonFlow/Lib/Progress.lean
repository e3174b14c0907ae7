import ReckonFlow.Lib.Lts

/-! Sessions that take their steps one at a time, and when all of them can be brought to an
end: where every wait leads to a session of higher rank, the one of highest rank waits for
none, and each step leaves less to do. -/

namespace Lts

variable {σ ε π : Type*} {step : σ → ε → σ → Prop} {f : σ → ε → Option σ} {phase : σ → ℕ → π}
  {s₀ s : σ} {tr : List (σ × ε)}

/-- A step that leaves all sessions but one where they are. -/
def OneMoves (phase : σ → ℕ → π) (s s' : σ) : Prop := ∃ i, ∀ j, j ≠ i → phase s' j = phase s j

variable (phase) in
/-- A run moves finitely many sessions. -/
theorem Run.touched (h : Run step s₀ tr s)
    (hone : ∀ s e s', step s e s' → OneMoves phase s s') :
    ∃ touched : Finset ℕ, ∀ j, j ∉ touched → phase s j = phase s₀ j := by
  induction h with
  | nil => exact ⟨∅, fun _ _ => rfl⟩
  | snoc _ hs ih =>
    obtain ⟨touched, ih⟩ := ih
    obtain ⟨i, hi⟩ := hone _ _ _ hs
    refine ⟨insert i touched, fun j hj => ?_⟩
    obtain ⟨hne, hold⟩ := not_or.1 (Finset.mem_insert.not.1 hj)
    exact (hi j hne).trans (ih j hold)

/-- A session with something `left` to do waits only for such sessions, of higher rank; one
that waits for none can take a step of kind `ok`, which leaves it with less to do or ends it. -/
structure Progresses (f : σ → ε → Option σ) (phase : σ → ℕ → π) (I : σ → Prop) (ok : ε → Prop)
    (left rank : π → ℕ) (ended : π → Prop) (waits : σ → ℕ → ℕ → Prop) : Prop where
  wait : ∀ s i j, I s → waits s i j → left (phase s j) ≠ 0 ∧ rank (phase s i) < rank (phase s j)
  move : ∀ s i, I s → left (phase s i) ≠ 0 → (∀ j, ¬ waits s i j) → ∃ e s', ok e ∧ f s e = some s' ∧
    I s' ∧ (∀ j, j ≠ i → phase s' j = phase s j) ∧ left (phase s' i) < left (phase s i) ∧
      (left (phase s' i) = 0 → ended (phase s' i))

variable {I : σ → Prop} {ok : ε → Prop} {left rank : π → ℕ} {ended : π → Prop}
  {waits : σ → ℕ → ℕ → Prop}

/-- Of finitely many open sessions one waits for none. -/
theorem Progresses.exists_free (h : Progresses f phase I ok left rank ended waits) (hI : I s)
    {live : Finset ℕ} (hlive : ∀ i, left (phase s i) ≠ 0 → i ∈ live)
    (hsome : ∃ i, left (phase s i) ≠ 0) :
    ∃ i ∈ live, left (phase s i) ≠ 0 ∧ ∀ j, ¬ waits s i j := by
  have hne : (live.filter fun i => left (phase s i) ≠ 0).Nonempty := by
    obtain ⟨i, hi⟩ := hsome
    exact ⟨i, Finset.mem_filter.2 ⟨hlive i hi, hi⟩⟩
  obtain ⟨i, hi, hmax⟩ := Finset.exists_max_image _ (fun i => rank (phase s i)) hne
  obtain ⟨hmem, hleft⟩ := Finset.mem_filter.1 hi
  refine ⟨i, hmem, hleft, fun j hw => ?_⟩
  obtain ⟨hj, hlt⟩ := h.wait s i j hI hw
  exact absurd (hmax j (Finset.mem_filter.2 ⟨hlive j hj, hj⟩)) (not_le.2 hlt)

/-- All open sessions can be brought to an end, in no more steps than they have left, while the
others stay where they are. -/
theorem Progresses.finish (h : Progresses f phase I ok left rank ended waits) {live : Finset ℕ}
    (hI : I s) (hlive : ∀ i, left (phase s i) ≠ 0 → i ∈ live) :
    ∃ tr s', Run (Fires f) s tr s' ∧ (∀ p ∈ tr, ok p.2) ∧
      tr.length ≤ ∑ i ∈ live, left (phase s i) ∧
      ∀ i, left (phase s i) = 0 ∧ phase s' i = phase s i ∨
        left (phase s i) ≠ 0 ∧ ended (phase s' i) := by
  induction htodo : ∑ i ∈ live, left (phase s i) using Nat.strong_induction_on generalizing s with
  | _ n ih =>
    by_cases hsome : ∃ i, left (phase s i) ≠ 0
    · obtain ⟨i, hmem, hleft, hfree⟩ := h.exists_free hI hlive hsome
      obtain ⟨e, s₁, hok, hs, hI₁, hothers, hless, hended⟩ := h.move s i hI hleft hfree
      have hlive₁ : ∀ j, left (phase s₁ j) ≠ 0 → j ∈ live := by
        intro j hj
        by_cases hji : j = i
        · exact hji ▸ hmem
        · exact hlive j (hothers j hji ▸ hj)
      have hlt : ∑ j ∈ live, left (phase s₁ j) < n := by
        rw [← htodo]
        refine Finset.sum_lt_sum (fun j _ => ?_) ⟨i, hmem, hless⟩
        by_cases hji : j = i
        · exact hji ▸ hless.le
        · exact (congrArg left (hothers j hji)).le
      obtain ⟨tr, s', hrun, hall, hlength, hend⟩ := ih _ hlt hI₁ hlive₁ rfl
      refine ⟨(s, e) :: tr, s', hrun.cons hs, ?_, ?_, fun j => ?_⟩
      · rintro p (_ | ⟨_, hp⟩)
        · exact hok
        · exact hall p hp
      · rw [List.length_cons]
        exact (Nat.succ_le_succ hlength).trans hlt
      · by_cases hji : j = i
        · subst hji
          rcases hend j with ⟨hzero, heq⟩ | ⟨-, hdone⟩
          · exact .inr ⟨hleft, heq ▸ hended hzero⟩
          · exact .inr ⟨hleft, hdone⟩
        · rw [← hothers j hji]
          exact hend j
    · simp only [not_exists, not_not] at hsome
      exact ⟨[], s, .nil, by simp, by simp, fun i => .inl ⟨hsome i, rfl⟩⟩

end Lts
