import Mathlib

/-! Computations over a state that a failure does not undo. Rules for what a failure of some kind
leaves behind: reads come first, and what changes the state fails in other ways. -/

namespace Effects

variable {ε σ α β : Type}

/-! ## Outcomes of a sequence -/

theorem bind_ok {x : EStateM ε σ α} {f : α → EStateM ε σ β} {s s' : σ} {b : β} :
    (x >>= f) s = .ok b s' ↔ ∃ a s₁, x s = .ok a s₁ ∧ f a s₁ = .ok b s' := by
  simp only [bind, EStateM.bind]
  cases x s with
  | ok a s₁ => simp
  | error e s₁ => simp

theorem bind_error {x : EStateM ε σ α} {f : α → EStateM ε σ β} {s s' : σ} {e : ε} :
    (x >>= f) s = .error e s' ↔
      x s = .error e s' ∨ ∃ a s₁, x s = .ok a s₁ ∧ f a s₁ = .error e s' := by
  simp only [bind, EStateM.bind]
  cases x s with
  | ok a s₁ => simp
  | error e s₁ => simp

theorem bind_of_ok {x : EStateM ε σ α} {f : α → EStateM ε σ β} {s s₁ : σ} {a : α}
    (h : x s = .ok a s₁) : (x >>= f) s = f a s₁ := by
  simp only [bind, EStateM.bind, h]

theorem bind_of_error {x : EStateM ε σ α} {f : α → EStateM ε σ β} {s s₁ : σ} {e : ε}
    (h : x s = .error e s₁) : (x >>= f) s = .error e s₁ := by
  simp only [bind, EStateM.bind, h]

theorem pure_ok {a b : α} {s s' : σ} : (pure a : EStateM ε σ α) s = .ok b s' ↔ a = b ∧ s = s' := by
  simp [pure, EStateM.pure]

theorem map_ok {x : EStateM ε σ α} {g : α → β} {s s' : σ} {b : β} :
    (g <$> x) s = .ok b s' ↔ ∃ a, x s = .ok a s' ∧ g a = b := by
  simp only [Functor.map, EStateM.map]
  cases x s with
  | ok a s₁ => simp [and_comm]
  | error e s₁ => simp

theorem map_error {x : EStateM ε σ α} {g : α → β} {s s' : σ} {e : ε} :
    (g <$> x) s = .error e s' ↔ x s = .error e s' := by
  simp only [Functor.map, EStateM.map]
  cases x s with
  | ok a s₁ => simp
  | error e s₁ => simp

theorem catch_of_ok {x : EStateM ε σ α} {f : ε → EStateM ε σ α} {s s₁ : σ} {a : α}
    (h : x s = .ok a s₁) : (tryCatch x f) s = .ok a s₁ := by
  simp only [tryCatch, tryCatchThe, MonadExceptOf.tryCatch, EStateM.tryCatch, h]

/-- The state of the failure is kept. -/
theorem catch_of_error {x : EStateM ε σ α} {f : ε → EStateM ε σ α} {s s₁ : σ} {e : ε}
    (h : x s = .error e s₁) : (tryCatch x f) s = f e s₁ := by
  simp only [tryCatch, tryCatchThe, MonadExceptOf.tryCatch, EStateM.tryCatch, h]
  rfl

/-! ## What is left behind -/

variable {R : σ → σ → Prop} {D : ε → Prop} {x : EStateM ε σ α} {f : α → EStateM ε σ β}

/-- Every outcome leaves a state related to the one before. -/
structure Leaves (R : σ → σ → Prop) (x : EStateM ε σ α) : Prop where
  ok : ∀ s a s', x s = .ok a s' → R s s'
  error : ∀ s e s', x s = .error e s' → R s s'

/-- A failure of kind `D` leaves a state related to the one before. -/
def OnError (D : ε → Prop) (R : σ → σ → Prop) (x : EStateM ε σ α) : Prop :=
  ∀ s e s', x s = .error e s' → D e → R s s'

/-- No failure is of kind `D`. -/
def Never (D : ε → Prop) (x : EStateM ε σ α) : Prop := ∀ s e s', x s = .error e s' → ¬ D e

theorem Leaves.pure (hrefl : ∀ s, R s s) (a : α) : Leaves R (pure a : EStateM ε σ α) where
  ok := by
    intro s b s' h
    obtain ⟨-, rfl⟩ := pure_ok.1 h
    exact hrefl s
  error := by
    intro s e s' h
    cases h

theorem Leaves.bind (htrans : ∀ a b c, R a b → R b c → R a c) (hx : Leaves R x)
    (hf : ∀ a, Leaves R (f a)) : Leaves R (x >>= f) where
  ok := by
    intro s b s' h
    obtain ⟨a, s₁, h₁, h₂⟩ := bind_ok.1 h
    exact htrans _ _ _ (hx.ok _ _ _ h₁) ((hf a).ok _ _ _ h₂)
  error := by
    intro s e s' h
    rcases bind_error.1 h with h | ⟨a, s₁, h₁, h₂⟩
    · exact hx.error _ _ _ h
    · exact htrans _ _ _ (hx.ok _ _ _ h₁) ((hf a).error _ _ _ h₂)

theorem Leaves.foldlM (hrefl : ∀ s, R s s) (htrans : ∀ a b c, R a b → R b c → R a c)
    {g : β → α → EStateM ε σ β} (hg : ∀ b a, Leaves R (g b a)) (l : List α) :
    ∀ b, Leaves R (l.foldlM g b) := by
  induction l with
  | nil => exact fun b => Leaves.pure hrefl b
  | cons a l ih =>
    intro b
    rw [List.foldlM_cons]
    exact Leaves.bind htrans (hg b a) ih

theorem Leaves.map (hx : Leaves R x) (g : α → β) : Leaves R (g <$> x) where
  ok := by
    intro s b s' h
    obtain ⟨a, hrun, -⟩ := map_ok.1 h
    exact hx.ok _ _ _ hrun
  error := by
    intro s e s' h
    exact hx.error _ _ _ (map_error.1 h)

theorem Leaves.mapM (hrefl : ∀ s, R s s) (htrans : ∀ a b c, R a b → R b c → R a c)
    {g : β → EStateM ε σ α} (hg : ∀ b, Leaves R (g b)) (l : List β) : Leaves R (l.mapM g) := by
  induction l with
  | nil => exact Leaves.pure hrefl []
  | cons b l ih =>
    rw [List.mapM_cons]
    exact Leaves.bind htrans (hg b) fun a => Leaves.bind htrans ih fun as => Leaves.pure hrefl (a :: as)

theorem Leaves.onError (h : Leaves R x) : OnError D R x := fun s e s' hx _ => h.error s e s' hx

/-- Reads before, and the rest leaves nothing behind. -/
theorem OnError.bind (htrans : ∀ a b c, R a b → R b c → R a c) (hx : Leaves R x)
    (hf : ∀ a, OnError D R (f a)) : OnError D R (x >>= f) := by
  intro s e s' h hD
  rcases bind_error.1 h with h | ⟨a, s₁, h₁, h₂⟩
  · exact hx.error _ _ _ h
  · exact htrans _ _ _ (hx.ok _ _ _ h₁) (hf a _ _ _ h₂ hD)

/-- What changes the state comes after all that may fail so. -/
theorem OnError.then_never (hx : OnError D R x) (hf : ∀ a, Never D (f a)) : OnError D R (x >>= f) := by
  intro s e s' h hD
  rcases bind_error.1 h with h | ⟨a, s₁, -, h₂⟩
  · exact hx s e s' h hD
  · exact absurd hD (hf a _ _ _ h₂)

theorem Never.onError (h : Never D x) : OnError D R x := fun s e s' hx hD => absurd hD (h s e s' hx)

theorem Never.pure (a : α) : Never D (pure a : EStateM ε σ α) := by
  intro s e s' h
  cases h

theorem Never.bind (hx : Never D x) (hf : ∀ a, Never D (f a)) : Never D (x >>= f) := by
  intro s e s' h
  rcases bind_error.1 h with h | ⟨a, s₁, -, h₂⟩
  · exact hx s e s' h
  · exact hf a _ _ _ h₂

end Effects
