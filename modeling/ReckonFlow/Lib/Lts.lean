import Mathlib

/-! Labelled transition systems. A run records every step with the state it was
taken in, so that "every state reached" and "every step taken" are both
statements about one list. The rules below turn one-step lemmas into statements
about runs. -/

namespace Lts

variable {σ ε : Type*}

/-- A run of `step` from `s₀`: the steps taken, each with the state before it, and the
state reached. -/
inductive Run (step : σ → ε → σ → Prop) (s₀ : σ) : List (σ × ε) → σ → Prop
  | nil : Run step s₀ [] s₀
  | snoc {tr : List (σ × ε)} {s s' : σ} {e : ε} :
      Run step s₀ tr s → step s e s' → Run step s₀ (tr ++ [(s, e)]) s'

variable {step : σ → ε → σ → Prop} {s₀ s : σ} {tr : List (σ × ε)}

/-- An invariant of every step is an invariant of every run. -/
theorem Run.invariant {I : σ → Prop} (h : Run step s₀ tr s) (h0 : I s₀)
    (hstep : ∀ s e s', I s → step s e s' → I s') : I s := by
  induction h with
  | nil => exact h0
  | snoc _ hs ih => exact hstep _ _ _ ih hs

/-- The same for runs all of whose steps meet `ok`. -/
theorem Run.invariant_of {I : σ → Prop} {ok : σ → ε → Prop} (h : Run step s₀ tr s) (h0 : I s₀)
    (hstep : ∀ s e s', I s → ok s e → step s e s' → I s')
    (hok : ∀ p ∈ tr, ok p.1 p.2) : I s := by
  induction h with
  | nil => exact h0
  | snoc _ hs ih =>
    have hlast := hok _ (List.mem_append_right _ (List.mem_singleton_self _))
    exact hstep _ _ _ (ih fun p hp => hok p (List.mem_append_left _ hp)) hlast hs

/-- Where a fact about states comes from: when only steps of kind `o` make it true, a run
that ends with it has taken one. -/
theorem Run.origin {P : σ → Prop} {o : σ → ε → Prop} (h : Run step s₀ tr s) (h0 : ¬ P s₀)
    (hstep : ∀ s e s', step s e s' → P s' → P s ∨ o s e) (hP : P s) : ∃ p ∈ tr, o p.1 p.2 := by
  induction h with
  | nil => exact absurd hP h0
  | snoc _ hs ih =>
    rcases hstep _ _ _ hs hP with hP | ho
    · obtain ⟨p, hp, ho⟩ := ih hP
      exact ⟨p, List.mem_append_left _ hp, ho⟩
    · exact ⟨_, List.mem_append_right _ (List.mem_singleton_self _), ho⟩

/-- `Good` in every state of the run, the last included. -/
def Always (Good : σ → Prop) (tr : List (σ × ε)) (s : σ) : Prop :=
  (∀ p ∈ tr, Good p.1) ∧ Good s

theorem always_snoc {Good : σ → Prop} {s' : σ} {e : ε} :
    Always Good (tr ++ [(s, e)]) s' ↔ Always Good tr s ∧ Good s' := by
  simp only [Always, List.mem_append, List.mem_singleton, or_imp, forall_and, forall_eq]

theorem Always.imp {Good Good' : σ → Prop} (hi : ∀ s, Good s → Good' s)
    (h : Always Good tr s) : Always Good' tr s :=
  ⟨fun p hp => hi _ (h.1 p hp), hi _ h.2⟩

theorem Run.always_of {I : σ → Prop} {ok : σ → ε → Prop} (h : Run step s₀ tr s) (h0 : I s₀)
    (hstep : ∀ s e s', I s → ok s e → step s e s' → I s')
    (hok : ∀ p ∈ tr, ok p.1 p.2) : Always I tr s := by
  induction h with
  | nil => exact ⟨by simp, h0⟩
  | snoc hr hs ih =>
    have ih := ih fun p hp => hok p (List.mem_append_left _ hp)
    have hlast := hok _ (List.mem_append_right _ (List.mem_singleton_self _))
    exact always_snoc.2 ⟨ih, hstep _ _ _ ih.2 hlast hs⟩

/-- Exactness over runs: when `ok` steps keep the invariant `I`, `I` gives `Good`, and a
step that is not `ok` leaves `Good`, then `Good` holds in every state of a run iff every
step of it is `ok`. -/
theorem Run.always_iff {I Good : σ → Prop} {ok : σ → ε → Prop} (h : Run step s₀ tr s)
    (h0 : I s₀) (hgood : ∀ s, I s → Good s)
    (hkeep : ∀ s e s', I s → ok s e → step s e s' → I s')
    (hbreak : ∀ s e s', I s → ¬ ok s e → step s e s' → ¬ Good s') :
    Always Good tr s ↔ ∀ p ∈ tr, ok p.1 p.2 := by
  refine ⟨fun hall => ?_, fun hok => (h.always_of h0 hkeep hok).imp hgood⟩
  -- along the run, the steps so far are all `ok`, so `I` still holds where the next one starts
  induction h with
  | nil => simp
  | @snoc tr s s' e hr hs ih =>
    obtain ⟨hpre, hlast⟩ := always_snoc.1 hall
    have hok := ih hpre
    have hI : I s := hr.invariant_of h0 hkeep hok
    intro p hp
    rcases List.mem_append.1 hp with hp | hp
    · exact hok p hp
    · obtain rfl := List.mem_singleton.1 hp
      by_contra hbad
      exact hbreak _ _ _ hI hbad hs hlast

/-- Exactness at the end: when a step leaves `Good` exactly if `Good` held and the step is `ok`,
`Good` holds at the end of a run iff every step of it is `ok`. -/
theorem Run.holds_iff {I Good : σ → Prop} {ok : σ → ε → Prop} (h : Run step s₀ tr s)
    (h0 : I s₀) (hgood : Good s₀) (hkeep : ∀ s e s', I s → step s e s' → I s')
    (hstep : ∀ s e s', I s → step s e s' → (Good s' ↔ Good s ∧ ok s e)) :
    Good s ↔ ∀ p ∈ tr, ok p.1 p.2 := by
  induction h with
  | nil => simp [hgood]
  | snoc hr hs ih =>
    rw [hstep _ _ _ (hr.invariant h0 hkeep) hs, ih]
    simp only [List.mem_append, List.mem_singleton, or_imp, forall_and, forall_eq]

/-- A transitive relation that holds along every step relates every state of a run to the
last one. -/
theorem Run.since {r : σ → σ → Prop} (h : Run step s₀ tr s)
    (htrans : ∀ a b c, r a b → r b c → r a c) (hstep : ∀ s e s', step s e s' → r s s') :
    ∀ p ∈ tr, r p.1 s := by
  induction h with
  | nil => simp
  | snoc _ hs ih =>
    intro p hp
    rcases List.mem_append.1 hp with hp | hp
    · exact htrans _ _ _ (ih p hp) (hstep _ _ _ hs)
    · obtain rfl := List.mem_singleton.1 hp
      exact hstep _ _ _ hs

/-- `r` between every two states of the run, the earlier one first. -/
def Along (r : σ → σ → Prop) (tr : List (σ × ε)) (s : σ) : Prop :=
  (tr.map Prod.fst ++ [s]).Pairwise r

theorem along_snoc {r : σ → σ → Prop} {s' : σ} {e : ε} :
    Along r (tr ++ [(s, e)]) s' ↔ Along r tr s ∧ (∀ p ∈ tr, r p.1 s') ∧ r s s' := by
  simp only [Along, List.map_append, List.map_cons, List.map_nil, List.pairwise_append, List.mem_append,
    List.mem_map, List.mem_singleton, List.pairwise_singleton, or_imp, forall_and, forall_eq,
    forall_exists_index, and_imp, forall_apply_eq_imp_iff₂, true_and]

/-- Exactness over pairs of states: when an `o` step keeps the invariant and `r` to the next
state, and no other step keeps `r`, the transitive `r` relates every two states of a run iff
every step of it is `o`. -/
theorem Run.along_iff {I : σ → Prop} {r : σ → σ → Prop} {o : σ → ε → Prop} (h : Run step s₀ tr s)
    (h0 : I s₀) (htrans : ∀ a b c, r a b → r b c → r a c)
    (hkeep : ∀ s e s', I s → o s e → step s e s' → I s' ∧ r s s')
    (hbreak : ∀ s e s', I s → ¬ o s e → step s e s' → ¬ r s s') :
    Along r tr s ↔ ∀ p ∈ tr, o p.1 p.2 := by
  induction h with
  | nil => simp [Along]
  | @snoc tr s s' e hr hs ih =>
    rw [along_snoc, ih]
    simp only [List.mem_append, List.mem_singleton, or_imp, forall_and, forall_eq]
    refine ⟨fun hall => ⟨hall.1, ?_⟩, fun hok => ⟨hok.1, ?_⟩⟩
    · have hI : I s := hr.invariant_of h0 (fun s e s' hI ho hs => (hkeep s e s' hI ho hs).1) hall.1
      by_contra hbad
      exact hbreak _ _ _ hI hbad hs hall.2.2
    · have hI : I s := hr.invariant_of h0 (fun s e s' hI ho hs => (hkeep s e s' hI ho hs).1) hok.1
      have hlast := (hkeep _ _ _ hI hok.2 hs).2
      -- every earlier state is related to `s`, and `s` to the new one
      refine ⟨fun p hp => htrans _ _ _ ?_ hlast, hlast⟩
      exact (List.pairwise_append.1 (ih.2 hok.1)).2.2 _ (List.mem_map_of_mem hp) _
        (List.mem_singleton_self s)

theorem Run.snoc_inv {s₁ : σ} {e : ε} (h : Run step s₀ (tr ++ [(s₁, e)]) s) :
    Run step s₀ tr s₁ ∧ step s₁ e s := by
  generalize hl : tr ++ [(s₁, e)] = l at h
  cases h with
  | nil => simp at hl
  | snoc hr hs =>
    obtain ⟨rfl, hlast⟩ := List.append_inj' hl rfl
    obtain ⟨rfl, rfl⟩ := Prod.mk.inj (List.singleton_injective hlast)
    exact ⟨hr, hs⟩

/-- A run cut at one of its steps. -/
theorem Run.split {s₁ : σ} {e : ε} {tr' : List (σ × ε)}
    (h : Run step s₀ (tr ++ (s₁, e) :: tr') s) :
    ∃ s', Run step s₀ tr s₁ ∧ step s₁ e s' ∧ Run step s' tr' s := by
  induction tr' using List.reverseRecOn generalizing s with
  | nil =>
    obtain ⟨hr, hs⟩ := h.snoc_inv
    exact ⟨s, hr, hs, .nil⟩
  | append_singleton tr' p ih =>
    rw [← List.cons_append, ← List.append_assoc] at h
    obtain ⟨hr, hs⟩ := h.snoc_inv
    obtain ⟨s', hr, hstep, hr'⟩ := ih hr
    exact ⟨s', hr, hstep, hr'.snoc hs⟩

/-! Systems given by a partial function: the events determine the run. -/

variable {f : σ → ε → Option σ}

/-- The relation of a partial step function. -/
def Fires (f : σ → ε → Option σ) (s : σ) (e : ε) (s' : σ) : Prop := f s e = some s'

theorem Run.fire (h : Run (Fires f) s₀ tr s) (e : ε) (s' : σ) (hs : f s e = some s') :
    Run (Fires f) s₀ (tr ++ [(s, e)]) s' := h.snoc hs

/-- The states passed through while taking `es`, and the state reached, if every step fires. -/
def drive (f : σ → ε → Option σ) : σ → List ε → Option (List (σ × ε) × σ)
  | s, [] => some ([], s)
  | s, e :: es => (f s e).bind fun s' => (drive f s' es).map fun r => ((s, e) :: r.1, r.2)

theorem Run.cons {s₁ : σ} {e : ε} (h : step s₀ e s₁) (hr : Run step s₁ tr s) :
    Run step s₀ ((s₀, e) :: tr) s := by
  induction hr with
  | nil => exact Run.snoc .nil h
  | snoc _ hs ih => exact ih.snoc hs

theorem Run.append {s₁ : σ} {tr' : List (σ × ε)} (h : Run step s₀ tr' s₁)
    (hr : Run step s₁ tr s) : Run step s₀ (tr' ++ tr) s := by
  induction hr with
  | nil => rwa [List.append_nil]
  | snoc _ hs ih =>
    rw [← List.append_assoc]
    exact ih.snoc hs

theorem run_of_drive {es : List ε} (h : drive f s₀ es = some (tr, s)) :
    Run (Fires f) s₀ tr s := by
  induction es generalizing s₀ tr with
  | nil =>
    obtain ⟨rfl, rfl⟩ : [] = tr ∧ s₀ = s := by simpa [drive] using h
    exact .nil
  | cons e es ih =>
    simp only [drive, Option.bind_eq_some_iff, Option.map_eq_some_iff, Prod.mk.injEq] at h
    obtain ⟨s₁, h₁, ⟨tr', t⟩, hd, rfl, rfl⟩ := h
    exact (ih hd).cons h₁

theorem drive_mem {es : List ε} (h : drive f s₀ es = some (tr, s)) : ∀ p ∈ tr, p.2 ∈ es := by
  induction es generalizing s₀ tr with
  | nil =>
    obtain ⟨rfl, -⟩ : [] = tr ∧ s₀ = s := by simpa [drive] using h
    simp
  | cons e es ih =>
    simp only [drive, Option.bind_eq_some_iff, Option.map_eq_some_iff, Prod.mk.injEq] at h
    obtain ⟨s₁, -, ⟨tr', t⟩, hd, rfl, rfl⟩ := h
    intro p hp
    rcases List.mem_cons.1 hp with rfl | hp
    · exact List.mem_cons_self ..
    · exact List.mem_cons_of_mem _ (ih hd p hp)

end Lts
