import Mathlib

/-! Fixed windows: a counter that allows `n` admissions in each of its windows, no window shorter
than `width`. An interval of that length meets two of them at most. -/

namespace FixedWindow

variable {α : Type*} [LinearOrder α] [AddCommGroup α] {width start now : α} {n current : ℕ} {times : List α}

/-- Of the admitted `times` the last `current` belong to the window that began at `start`. -/
structure Holds (width : α) (n : ℕ) (times : List α) (start : α) (current : ℕ) : Prop where
  cut : ∃ older previous recent, times = older ++ previous ++ recent ∧ recent.length = current ∧
    previous.length ≤ n ∧ (∀ t ∈ older, t + width < start) ∧ ∀ t ∈ previous, t < start
  interval : ∀ a, (times.filter fun t => a ≤ t ∧ t ≤ a + width).length ≤ 2 * n

theorem Holds.nil : Holds width n [] start 0 :=
  ⟨⟨[], [], [], rfl, rfl, Nat.zero_le n, by simp, by simp⟩, fun _ => Nat.zero_le _⟩

variable [IsOrderedAddMonoid α]

/-- One more admission in the current window. -/
theorem Holds.push (h : Holds width n times start current) (hcurrent : current < n) (hstart : start ≤ now) :
    Holds width n (times ++ [now]) start (current + 1) := by
  obtain ⟨older, previous, recent, rfl, rfl, hprevious, hold, hbefore⟩ := h.cut
  refine ⟨⟨older, previous, recent ++ [now], by simp, by simp, hprevious, hold, hbefore⟩, fun a => ?_⟩
  by_cases hnow : a ≤ now ∧ now ≤ a + width
  · -- the interval reaches up to `now`, and so not back to the older windows
    have hnone : older.filter (fun t => a ≤ t ∧ t ≤ a + width) = [] := by
      refine List.filter_eq_nil_iff.2 fun t ht hin => ?_
      have hin := of_decide_eq_true hin
      have hlt : t + width < a + width := ((hold t ht).trans_le hstart).trans_le hnow.2
      exact absurd hin.1 (not_le.2 (lt_of_add_lt_add_right hlt))
    rw [List.filter_append, List.filter_append, List.filter_append, hnone]
    have hprev := List.length_filter_le (fun t => decide (a ≤ t ∧ t ≤ a + width)) previous
    have hrec := List.length_filter_le (fun t => decide (a ≤ t ∧ t ≤ a + width)) recent
    have hone := List.length_filter_le (fun t => decide (a ≤ t ∧ t ≤ a + width)) [now]
    simp only [List.length_append, List.length_nil, List.length_singleton] at hone ⊢
    omega
  · rw [List.filter_append, List.filter_cons_of_neg (by simpa using hnow), List.filter_nil, List.append_nil]
    exact h.interval a

/-- A new window, once the current one has lasted long enough. -/
theorem Holds.roll (h : Holds width n times start current) (hwidth : 0 ≤ width) (hcurrent : current ≤ n)
    (hlong : start + width ≤ now) (hpast : ∀ t ∈ times, t < now) : Holds width n times now 0 := by
  obtain ⟨older, previous, recent, rfl, rfl, hprevious, hold, hbefore⟩ := h.cut
  refine ⟨⟨older ++ previous, recent, [], by simp, rfl, hcurrent, fun t ht => ?_, fun t ht => ?_⟩,
    h.interval⟩
  · rcases List.mem_append.1 ht with ht | ht
    · calc t + width < start := hold t ht
        _ ≤ start + width := le_add_of_nonneg_right hwidth
        _ ≤ now := hlong
    · calc t + width < start + width := add_lt_add_left (hbefore t ht) width
        _ ≤ now := hlong
  · exact hpast t (List.mem_append_right _ ht)

end FixedWindow
