import ReckonFlow.Lib.Machine

/-! Tasks tried again until one try succeeds, and served without effect from then on. -/

namespace Machine

variable {σ ι ω : Type*} {f : σ → ι → ω × σ} {s : σ} {i : ι} {is : List ι}

/-- A list up to its first element that `p` accepts, with that one. -/
def throughFirst (p : ι → Bool) : List ι → List ι
  | [] => []
  | i :: is => if p i then [i] else i :: throughFirst p is

variable {p : ι → Bool}

theorem throughFirst_of_pos (h : p i = true) : throughFirst p (i :: is) = [i] := by
  rw [throughFirst, if_pos h]

theorem throughFirst_of_neg (h : p i = false) :
    throughFirst p (i :: is) = i :: throughFirst p is := by
  rw [throughFirst, if_neg (by simp [h])]

theorem throughFirst_of_forall (h : ∀ i ∈ is, p i = false) : throughFirst p is = is := by
  induction is with
  | nil => rfl
  | cons i is ih =>
    obtain ⟨hi, his⟩ := List.forall_mem_cons.1 h
    rw [throughFirst_of_neg hi, ih his]

/-- One success at most. -/
theorem countP_throughFirst (p : ι → Bool) (is : List ι) : (throughFirst p is).countP p ≤ 1 := by
  induction is with
  | nil => exact Nat.zero_le 1
  | cons i is ih =>
    cases h : p i with
    | true =>
      rw [throughFirst_of_pos h, List.countP_cons_of_pos h]
      exact le_rfl
    | false =>
      rw [throughFirst_of_neg h, List.countP_cons_of_neg (by simp [h])]
      exact ih

/-- What is served once the work is done. -/
theorem serve_of_done {skip : ι → ω} (h : ∀ i ∈ is, f s i = (skip i, s)) :
    serve f s is = (is.map fun i => (i, skip i), s) := by
  induction is with
  | nil => rfl
  | cons i is ih =>
    obtain ⟨hi, his⟩ := List.forall_mem_cons.1 h
    rw [serve, hi, ih his, List.map_cons]

end Machine
