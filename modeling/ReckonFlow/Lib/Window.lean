import Mathlib

/-! Sliding windows: a limiter that keeps the times it admitted and forgets those that are too
old. What it keeps, and how many times an interval can hold. -/

namespace Window

variable {α : Type*} [LinearOrder α]

/-- On sorted times the old ones stand in front. -/
theorem dropWhile_lt {l : List α} (h : l.Pairwise (· ≤ ·)) (c : α) :
    l.dropWhile (· < c) = l.filter (c ≤ ·) := by
  induction l with
  | nil => rfl
  | cons t l ih =>
    rw [List.pairwise_cons] at h
    by_cases ht : t < c
    · rw [List.dropWhile_cons_of_pos (by simpa using ht), ih h.2,
        List.filter_cons_of_neg (by simpa using ht)]
    · have hall : ∀ x ∈ t :: l, c ≤ x := by
        intro x hx
        rcases List.mem_cons.1 hx with rfl | hx
        · exact not_lt.1 ht
        · exact (not_lt.1 ht).trans (h.1 x hx)
      rw [List.dropWhile_cons_of_neg (by simpa using ht)]
      exact (List.filter_eq_self.2 fun x hx => decide_eq_true (hall x hx)).symm

variable [AddCommGroup α]

/-- The times in `[now - width, now]`. -/
def recent (width : α) (times : List α) (now : α) : List α :=
  times.filter fun t => now - width ≤ t ∧ t ≤ now

/-- `window` is what a limiter keeps of the admitted `times` until `now`: all but those older than
some cutoff that is not later than `now - width`. -/
structure Holds (width : α) (times window : List α) (now : α) : Prop where
  sorted : times.Pairwise (· ≤ ·)
  past : ∀ t ∈ times, t ≤ now
  cut : ∃ c, c ≤ now - width ∧ window = times.filter (c ≤ ·)

variable {width now now' : α} {times window : List α}

theorem Holds.nil : Holds width [] [] now := ⟨.nil, by simp, now - width, le_rfl, rfl⟩

theorem Holds.mono [IsOrderedAddMonoid α] (h : Holds width times window now) (hle : now ≤ now') :
    Holds width times window now' := by
  obtain ⟨c, hc, hwindow⟩ := h.cut
  exact ⟨h.sorted, fun t ht => (h.past t ht).trans hle, c, hc.trans (sub_le_sub_right hle width), hwindow⟩

/-- Eviction leaves the admitted times of the last `width`. -/
theorem Holds.evict (h : Holds width times window now) :
    window.dropWhile (· < now - width) = recent width times now := by
  obtain ⟨c, hc, rfl⟩ := h.cut
  rw [dropWhile_lt (h.sorted.filter _), List.filter_filter, recent]
  apply List.filter_congr
  intro t ht
  have hpast := h.past t ht
  by_cases hcut : now - width ≤ t
  · simp [hcut, hpast, hc.trans hcut]
  · simp [hcut]

theorem Holds.keep (h : Holds width times window now) :
    Holds width times (recent width times now) now := by
  refine ⟨h.sorted, h.past, now - width, le_rfl, ?_⟩
  apply List.filter_congr
  intro t ht
  simp [h.past t ht]

variable [IsOrderedAddMonoid α]

theorem Holds.push (h : Holds width times window now) (hwidth : 0 ≤ width) :
    Holds width (times ++ [now]) (recent width times now ++ [now]) now := by
  obtain ⟨hsorted, hpast, c, hc, hwindow⟩ := h.keep
  have hlast : c ≤ now := hc.trans (sub_le_self now hwidth)
  refine ⟨?_, ?_, c, hc, ?_⟩
  · rw [List.pairwise_append]
    refine ⟨hsorted, List.pairwise_singleton _ _, fun t ht x hx => ?_⟩
    rw [List.mem_singleton.1 hx]
    exact hpast t ht
  · intro t ht
    rcases List.mem_append.1 ht with ht | ht
    · exact hpast t ht
    · exact (List.mem_singleton.1 ht).le
  · rw [List.filter_append, ← hwindow, List.filter_cons_of_pos (by simpa using hlast), List.filter_nil]

/-- When each time has fewer than `n` admitted ones in the `width` before it, no closed interval
of that length holds more than `n`. -/
theorem length_interval_le {n : ℕ} (hsorted : times.Pairwise (· ≤ ·))
    (hspaced : ∀ before t after, times = before ++ t :: after →
      (recent width before t).length < n) (a : α) :
    (times.filter fun t => a ≤ t ∧ t ≤ a + width).length ≤ n := by
  induction times using List.reverseRecOn with
  | nil => exact Nat.zero_le n
  | append_singleton times t ih =>
    rw [List.pairwise_append] at hsorted
    have hrest := ih hsorted.1 fun before x after heq => hspaced before x (after ++ [t]) (by
      rw [heq, List.append_assoc, List.cons_append])
    rw [List.filter_append, List.length_append]
    by_cases ht : a ≤ t ∧ t ≤ a + width
    · -- what the interval holds before `t` is at most `width` older than `t`
      have hsub : (times.filter fun x => a ≤ x ∧ x ≤ a + width).length ≤
          (recent width times t).length := by
        rw [recent, ← List.countP_eq_length_filter, ← List.countP_eq_length_filter]
        apply List.countP_mono_left
        intro x hx hin
        have hxt : x ≤ t := hsorted.2.2 x hx t (List.mem_singleton_self t)
        have hxa := of_decide_eq_true hin
        exact decide_eq_true ⟨(sub_le_iff_le_add.2 ht.2).trans hxa.1, hxt⟩
      have hlt := hspaced times t [] rfl
      rw [List.filter_cons_of_pos (by simpa using ht), List.filter_nil, List.length_singleton]
      omega
    · rw [List.filter_cons_of_neg (by simpa using ht), List.filter_nil]
      exact hrest

end Window
