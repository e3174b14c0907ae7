import Mathlib

/-! Computations that may fail: what a successful result says about its parts. -/

universe u

variable {ε : Type*} {α β : Type u}

/-- Stop with `e` unless `p` holds. -/
def ensure (p : Prop) [Decidable p] (e : ε) : Except ε Unit := if p then .ok () else .error e

theorem ensure_eq_ok {p : Prop} [Decidable p] {e : ε} {u : Unit} : ensure p e = .ok u ↔ p := by
  unfold ensure
  split_ifs with h <;> simp [h]

theorem ensure_eq_error {p : Prop} [Decidable p] {e e' : ε} : ensure p e = .error e' ↔ ¬ p ∧ e = e' := by
  unfold ensure
  split_ifs with h <;> simp [h]

namespace Except

theorem bind_eq_ok {x : Except ε α} {f : α → Except ε β} {b : β} :
    (x >>= f) = .ok b ↔ ∃ a, x = .ok a ∧ f a = .ok b := by
  cases x <;> simp [bind, Except.bind]

theorem bind_eq_error {x : Except ε α} {f : α → Except ε β} {e : ε} :
    (x >>= f) = .error e ↔ x = .error e ∨ ∃ a, x = .ok a ∧ f a = .error e := by
  cases x <;> simp [bind, Except.bind]

theorem map_eq_ok {x : Except ε α} {f : α → β} {b : β} :
    x.map f = .ok b ↔ ∃ a, x = .ok a ∧ f a = b := by
  cases x <;> simp [Except.map]

theorem mapError_eq_ok {ε' : Type*} {x : Except ε α} {f : ε → ε'} {a : α} :
    x.mapError f = .ok a ↔ x = .ok a := by
  cases x <;> simp [Except.mapError]

theorem isOk_iff {x : Except ε α} : x.isOk = true ↔ ∃ a, x = .ok a := by
  cases x with
  | ok a => exact iff_of_true rfl ⟨a, rfl⟩
  | error e => exact iff_of_false Bool.false_ne_true (by rintro ⟨a, ⟨⟩⟩)

@[simp]
theorem isOk_map {x : Except ε α} {f : α → β} : (x.map f).isOk = x.isOk := by
  cases x <;> rfl

@[simp]
theorem isOk_mapError {ε' : Type*} {x : Except ε α} {f : ε → ε'} : (x.mapError f).isOk = x.isOk := by
  cases x <;> rfl

theorem pure_eq_ok {a b : α} : (pure a : Except ε α) = .ok b ↔ a = b := by
  simp [pure, Except.pure]

theorem forM_eq_ok {f : α → Except ε PUnit} {l : List α} :
    l.forM f = .ok ⟨⟩ ↔ ∀ a ∈ l, f a = .ok ⟨⟩ := by
  induction l with
  | nil => simp [pure_eq_ok]
  | cons a l ih =>
    have hunit : (∃ u, f a = .ok u) ↔ f a = .ok ⟨⟩ := ⟨fun ⟨_, h⟩ => h, fun h => ⟨_, h⟩⟩
    simp only [List.forM_eq_forM] at ih ⊢
    simp only [List.forM_cons, bind_eq_ok, ih, exists_and_right, hunit, List.forall_mem_cons]

theorem mapM_eq_ok {f : α → Except ε β} {l : List α} {bs : List β} :
    l.mapM f = .ok bs ↔ List.Forall₂ (fun a b => f a = .ok b) l bs := by
  induction l generalizing bs with
  | nil =>
    rw [List.mapM_nil, pure_eq_ok, List.forall₂_nil_left_iff]
    exact eq_comm
  | cons a l ih =>
    simp only [List.mapM_cons, bind_eq_ok, pure_eq_ok, ih, List.forall₂_cons_left_iff]
    constructor
    · rintro ⟨b, hb, bs, hbs, rfl⟩
      exact ⟨b, bs, hb, hbs, rfl⟩
    · rintro ⟨b, bs, hb, hbs, rfl⟩
      exact ⟨b, hb, bs, hbs, rfl⟩

theorem mapM_of_forall {f : α → Except ε β} {g : α → β} {l : List α} (h : ∀ a ∈ l, f a = .ok (g a)) :
    l.mapM f = .ok (l.map g) := by
  rw [mapM_eq_ok, List.forall₂_map_right_iff, List.forall₂_same]
  exact h

theorem isOk_mapM {f : α → Except ε β} {l : List α} :
    (l.mapM f).isOk = true ↔ ∀ a ∈ l, (f a).isOk = true := by
  induction l with
  | nil => exact iff_of_true rfl (by simp)
  | cons a l ih =>
    rw [List.mapM_cons, List.forall_mem_cons, ← ih]
    cases f a with
    | error e => exact iff_of_false Bool.false_ne_true fun h => Bool.false_ne_true h.1
    | ok b =>
      cases l.mapM f with
      | error e => exact iff_of_false Bool.false_ne_true fun h => Bool.false_ne_true h.2
      | ok bs => exact iff_of_true rfl ⟨rfl, rfl⟩

theorem length_of_mapM {f : α → Except ε β} {l : List α} {bs : List β} (h : l.mapM f = .ok bs) :
    bs.length = l.length := (mapM_eq_ok.1 h).length_eq.symm

theorem mem_of_mapM {f : α → Except ε β} {l : List α} {bs : List β} (h : l.mapM f = .ok bs) {b : β}
    (hb : b ∈ bs) : ∃ a ∈ l, f a = .ok b := by
  have hall := mapM_eq_ok.1 h
  clear h
  induction hall with
  | nil => cases hb
  | @cons a b' l bs hab _ ih =>
    rcases List.mem_cons.1 hb with rfl | hb
    · exact ⟨a, List.mem_cons_self .., hab⟩
    · obtain ⟨a', ha', hab'⟩ := ih hb
      exact ⟨a', List.mem_cons_of_mem _ ha', hab'⟩

/-- An invariant of the loop body is an invariant of the loop. -/
theorem foldlM_invariant {f : β → α → Except ε β} {P : β → Prop}
    (hstep : ∀ b a b', P b → f b a = .ok b' → P b') :
    ∀ {l : List α} {b b' : β}, P b → l.foldlM f b = .ok b' → P b' := by
  intro l
  induction l with
  | nil =>
    intro b b' hb h
    rw [List.foldlM_nil, pure_eq_ok] at h
    exact h ▸ hb
  | cons a l ih =>
    intro b b' hb h
    rw [List.foldlM_cons, bind_eq_ok] at h
    obtain ⟨b₁, h₁, h₂⟩ := h
    exact ih (hstep _ _ _ hb h₁) h₂

/-- The loop fails only as its body does. -/
theorem foldlM_error {f : β → α → Except ε β} {Q : ε → Prop} (hf : ∀ b a e, f b a = .error e → Q e) :
    ∀ {l : List α} {b : β} {e : ε}, l.foldlM f b = .error e → Q e := by
  intro l
  induction l with
  | nil =>
    intro b e h
    cases h
  | cons a l ih =>
    intro b e h
    rw [List.foldlM_cons, bind_eq_error] at h
    rcases h with h | ⟨b₁, -, h⟩
    · exact hf _ _ _ h
    · exact ih h

/-! Checks of which every failure is reported. -/

/-- Both results, or the failures of both. -/
def both {α β : Type*} (x : Except (List ε) α) (y : Except (List ε) β) : Except (List ε) (α × β) :=
  match x, y with
  | .ok a, .ok b => .ok (a, b)
  | .error e, .ok _ => .error e
  | .ok _, .error e => .error e
  | .error e, .error e' => .error (e ++ e')

theorem both_eq_ok {α β : Type*} {x : Except (List ε) α} {y : Except (List ε) β} {p : α × β} :
    both x y = .ok p ↔ x = .ok p.1 ∧ y = .ok p.2 := by
  cases x <;> cases y <;> simp [both, Prod.ext_iff]

@[simp]
theorem isOk_both {α β : Type*} {x : Except (List ε) α} {y : Except (List ε) β} :
    (both x y).isOk = (x.isOk && y.isOk) := by
  cases x <;> cases y <;> rfl

/-- All results, or the failures of all. -/
def collect {α : Type*} : List (Except (List ε) α) → Except (List ε) (List α)
  | [] => .ok []
  | x :: xs => (both x (collect xs)).map fun p => p.1 :: p.2

theorem collect_eq_ok {α : Type*} {xs : List (Except (List ε) α)} {as : List α} :
    collect xs = .ok as ↔ xs = as.map .ok := by
  induction xs generalizing as with
  | nil => simp [collect, eq_comm]
  | cons x xs ih =>
    rw [collect, map_eq_ok]
    constructor
    · rintro ⟨p, hp, rfl⟩
      obtain ⟨hx, hxs⟩ := both_eq_ok.1 hp
      rw [List.map_cons, hx, ih.1 hxs]
    · intro h
      obtain ⟨a, as', rfl⟩ : ∃ a as', as = a :: as' := by
        cases as with
        | nil => simp at h
        | cons a as' => exact ⟨a, as', rfl⟩
      obtain ⟨hx, hxs⟩ := List.cons.inj h
      exact ⟨(a, as'), both_eq_ok.2 ⟨hx, ih.2 hxs⟩, rfl⟩

end Except
