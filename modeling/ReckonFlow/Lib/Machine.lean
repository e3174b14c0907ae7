import Mathlib

/-! Deterministic machines fed a list of inputs, and the unwinding rule for runs that leave
some inputs out: when a relation between two states survives a dropped input on one side
and a kept input on both, the kept inputs are answered alike. -/

namespace Machine

variable {σ ι ω ν : Type*}

/-- Every input with its answer, and the state reached. -/
def serve (f : σ → ι → ω × σ) : σ → List ι → List (ι × ω) × σ
  | s, [] => ([], s)
  | s, i :: is =>
      let rest := serve f (f s i).2 is
      ((i, (f s i).1) :: rest.1, rest.2)

variable {f : σ → ι → ω × σ} {keep : ι → Bool} {view : ω → ν} {R : List ι → σ → σ → Prop}
  {ok : List ι → ι → Prop}

/-- `R` relates the states after the inputs so far to those of the run without the dropped
ones; `ok` is what a kept input may be told about the inputs before it. -/
theorem unwinding
    (hdrop : ∀ past s t i, keep i = false → R past s t → R (past ++ [i]) (f s i).2 t)
    (hkeep : ∀ past s t i, keep i = true → ok past i → R past s t →
      view (f s i).1 = view (f t i).1 ∧ R (past ++ [i]) (f s i).2 (f t i).2) :
    ∀ {is past : List ι} {s t : σ}, R past s t →
      (∀ before i after, is = before ++ i :: after → keep i = true → ok (past ++ before) i) →
      ((serve f s is).1.filter fun p => keep p.1).map (fun p => (p.1, view p.2)) =
          (serve f t (is.filter keep)).1.map (fun p => (p.1, view p.2)) ∧
        R (past ++ is) (serve f s is).2 (serve f t (is.filter keep)).2 := by
  intro is
  induction is with
  | nil =>
    intro past s t hR _
    rw [List.append_nil]
    exact ⟨rfl, hR⟩
  | cons i is ih =>
    intro past s t hR hok
    have hrest : ∀ before j after, is = before ++ j :: after → keep j = true →
        ok ((past ++ [i]) ++ before) j := by
      intro before j after his hj
      rw [List.append_assoc]
      exact hok (i :: before) j after (by rw [his]; rfl) hj
    rw [List.append_cons past i is]
    cases hi : keep i with
    | false =>
      obtain ⟨hanswers, hfinal⟩ := ih (hdrop past s t i hi hR) hrest
      rw [List.filter_cons_of_neg (by simp [hi])]
      refine ⟨?_, hfinal⟩
      simp only [serve]
      rw [List.filter_cons_of_neg (by simp [hi])]
      exact hanswers
    | true =>
      have hnow : ok past i := by
        have := hok [] i is rfl hi
        rwa [List.append_nil] at this
      obtain ⟨hview, hnext⟩ := hkeep past s t i hi hnow hR
      obtain ⟨hanswers, hfinal⟩ := ih hnext hrest
      rw [List.filter_cons_of_pos hi]
      refine ⟨?_, hfinal⟩
      simp only [serve]
      rw [List.filter_cons_of_pos (by simp [hi]), List.map_cons, List.map_cons, hview, hanswers]

end Machine
