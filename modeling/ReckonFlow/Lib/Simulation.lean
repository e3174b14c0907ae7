import Mathlib

/-! A computation that changes its state in place, against one that hands the next state on:
what it takes for the first to simulate the second, and what is built from such pairs. -/

namespace Simulation

variable {ε δ σ τ α β : Type}

/-- From related states both end alike, with one result and related states or in one failure. -/
structure Simulates (R : σ → τ → Prop) (lift : δ → ε) (x : EStateM ε σ α)
    (f : StateT τ (Except δ) α) : Prop where
  ok : ∀ s t a t', R s t → f t = .ok (a, t') → ∃ s', x s = .ok a s' ∧ R s' t'
  error : ∀ s t d, R s t → f t = .error d → ∃ s', x s = .error (lift d) s'

variable {R : σ → τ → Prop} {lift : δ → ε}

theorem Simulates.pure (a : α) :
    Simulates R lift (pure a : EStateM ε σ α) (pure a : StateT τ (Except δ) α) where
  ok := by
    rintro s t b t' hR ⟨⟩
    exact ⟨s, rfl, hR⟩
  error := by rintro s t d hR ⟨⟩

theorem Simulates.bind {x : EStateM ε σ α} {f : StateT τ (Except δ) α} {y : α → EStateM ε σ β}
    {g : α → StateT τ (Except δ) β} (hx : Simulates R lift x f) (hy : ∀ a, Simulates R lift (y a) (g a)) :
    Simulates R lift (x >>= y) (f >>= g) where
  ok := by
    intro s t b t' hR h
    cases hrun : f t with
    | error d =>
      simp only [Bind.bind, StateT.bind, hrun, Except.bind, reduceCtorEq] at h
    | ok p =>
      simp only [Bind.bind, StateT.bind, hrun, Except.bind] at h
      obtain ⟨s₁, hs, hR₁⟩ := hx.ok s t p.1 p.2 hR hrun
      obtain ⟨s₂, hs₂, hR₂⟩ := (hy p.1).ok s₁ p.2 b t' hR₁ h
      exact ⟨s₂, by simp only [Bind.bind, EStateM.bind, hs, hs₂], hR₂⟩
  error := by
    intro s t d hR h
    cases hrun : f t with
    | error d' =>
      simp only [Bind.bind, StateT.bind, hrun, Except.bind, Except.error.injEq] at h
      obtain ⟨s₁, hs⟩ := hx.error s t d' hR hrun
      exact ⟨s₁, by simp only [Bind.bind, EStateM.bind, hs, h]⟩
    | ok p =>
      simp only [Bind.bind, StateT.bind, hrun, Except.bind] at h
      obtain ⟨s₁, hs, hR₁⟩ := hx.ok s t p.1 p.2 hR hrun
      obtain ⟨s₂, hs₂⟩ := (hy p.1).error s₁ p.2 d hR₁ h
      exact ⟨s₂, by simp only [Bind.bind, EStateM.bind, hs, hs₂]⟩

/-- One after the other, with the results of all. -/
theorem Simulates.mapM {γ : Type} {x : γ → EStateM ε σ α} {f : γ → StateT τ (Except δ) α}
    (h : ∀ c, Simulates R lift (x c) (f c)) (l : List γ) :
    Simulates R lift (l.mapM x) (l.mapM f) := by
  induction l with
  | nil => exact .pure []
  | cons c l ih =>
    rw [List.mapM_cons, List.mapM_cons]
    exact (h c).bind fun a => ih.bind fun as => .pure (a :: as)

end Simulation
