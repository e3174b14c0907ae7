import Mathlib

/-! Digits written in groups of three from the right, with a separator between them. -/

namespace Groups

variable {α : Type*}

def threes : List α → List (List α)
  | a :: b :: c :: l => [a, b, c] :: threes l
  | _ => []

/-- The length of the first group. -/
def firstLength (n : ℕ) : ℕ := (n - 1) % 3 + 1

/-- `1234567` as `1,234,567` -/
def grouped (sep : α) (digits : List α) : List α :=
  digits.take (firstLength digits.length) ++
    (threes (digits.drop (firstLength digits.length))).flatMap (sep :: ·)

theorem threes_spec (k : ℕ) : ∀ l : List α, l.length = 3 * k →
    (threes l).flatten = l ∧ (∀ g ∈ threes l, g.length = 3) ∧ (threes l).length = k := by
  induction k with
  | zero =>
    intro l hl
    obtain rfl := List.length_eq_zero_iff.1 hl
    simp [threes]
  | succ k ih =>
    intro l hl
    match l, hl with
    | a :: b :: c :: l, hl =>
      have hlength : l.length = 3 * k := by
        simp only [List.length_cons] at hl
        omega
      obtain ⟨hflatten, hthree, hcount⟩ := ih l hlength
      refine ⟨?_, ?_, ?_⟩
      · rw [threes, List.flatten_cons, hflatten]
        rfl
      · rw [threes]
        exact List.forall_mem_cons.2 ⟨rfl, hthree⟩
      · rw [threes, List.length_cons, hcount]

/-- A first group of one to three digits, and groups of three. -/
structure Split (digits head : List α) (groups : List (List α)) : Prop where
  digits : digits = head ++ groups.flatten
  ne : head ≠ []
  head : head.length ≤ 3
  three : ∀ g ∈ groups, g.length = 3

theorem Split.length {digits head : List α} {groups : List (List α)} (h : Split digits head groups) :
    digits.length = head.length + 3 * groups.length := by
  have hsum : groups.flatten.length = 3 * groups.length := by
    have hthree := h.three
    clear h
    induction groups with
    | nil => rfl
    | cons g groups ih =>
      obtain ⟨hg, hrest⟩ := List.forall_mem_cons.1 hthree
      rw [List.flatten_cons, List.length_append, hg, ih hrest, List.length_cons]
      omega
  rw [h.digits, List.length_append, hsum]

theorem exists_split (sep : α) {digits : List α} (hne : digits ≠ []) : ∃ head groups,
    Split digits head groups ∧ grouped sep digits = head ++ groups.flatMap (sep :: ·) := by
  have hpos : 0 < digits.length := List.length_pos_iff.2 hne
  have hfirst : 1 ≤ firstLength digits.length ∧ firstLength digits.length ≤ 3 ∧
      firstLength digits.length ≤ digits.length ∧
      ∃ k, digits.length = firstLength digits.length + 3 * k := by
    unfold firstLength
    exact ⟨by omega, by omega, by omega, (digits.length - 1) / 3, by omega⟩
  obtain ⟨hone, hthree, hle, k, hk⟩ := hfirst
  have hdrop : (digits.drop (firstLength digits.length)).length = 3 * k := by
    rw [List.length_drop]
    omega
  obtain ⟨hflatten, hgroups, -⟩ := threes_spec k _ hdrop
  refine ⟨_, _, ⟨?_, ?_, ?_, hgroups⟩, rfl⟩
  · rw [hflatten, List.take_append_drop]
  · rw [← List.length_pos_iff, List.length_take]
    omega
  · rw [List.length_take]
    omega

/-- Without its separators the number is its digits again. -/
theorem filter_flatMap [DecidableEq α] {sep : α} {groups : List (List α)}
    (h : ∀ c ∈ groups.flatten, c ≠ sep) :
    (groups.flatMap (sep :: ·)).filter (· ≠ sep) = groups.flatten := by
  induction groups with
  | nil => rfl
  | cons g groups ih =>
    rw [List.flatten_cons] at h ⊢
    have hg : g.filter (· ≠ sep) = g := by
      rw [List.filter_eq_self]
      intro c hc
      exact decide_eq_true (h c (List.mem_append_left _ hc))
    rw [List.flatMap_cons, List.cons_append, List.filter_cons_of_neg (by simp), List.filter_append, hg,
      ih fun c hc => h c (List.mem_append_right _ hc)]

theorem filter_grouped [DecidableEq α] {sep : α} {digits : List α} (h : ∀ c ∈ digits, c ≠ sep) :
    (grouped sep digits).filter (· ≠ sep) = digits := by
  rcases eq_or_ne digits [] with rfl | hne
  · rfl
  obtain ⟨head, groups, hsplit, hgrouped⟩ := exists_split sep hne
  have hdigits := hsplit.digits
  rw [hdigits] at h
  have hhead : head.filter (· ≠ sep) = head := by
    rw [List.filter_eq_self]
    intro c hc
    exact decide_eq_true (h c (List.mem_append_left _ hc))
  rw [hgrouped, List.filter_append, hhead, filter_flatMap fun c hc => h c (List.mem_append_right _ hc),
    ← hdigits]

theorem mem_grouped {sep c : α} {digits : List α} (h : c ∈ grouped sep digits) : c = sep ∨ c ∈ digits := by
  rcases eq_or_ne digits [] with rfl | hne
  · cases h
  obtain ⟨head, groups, hsplit, hgrouped⟩ := exists_split sep hne
  rw [hgrouped, List.mem_append] at h
  rw [hsplit.digits, List.mem_append]
  rcases h with h | h
  · exact .inr (.inl h)
  · obtain ⟨g, hg, hc⟩ := List.mem_flatMap.1 h
    rcases List.mem_cons.1 hc with rfl | hc
    · exact .inl rfl
    · exact .inr (.inr (List.mem_flatten.2 ⟨g, hg, hc⟩))

end Groups

example : Groups.grouped ',' "1234567".toList = "1,234,567".toList ∧
    Groups.grouped ',' "123".toList = "123".toList := by
  decide
