import Mathlib

/-! Numbering what is found in a list: by all its elements, or by those that are kept. -/

variable {α β : Type*} {keep : α → Bool} {g : α → Option β} {l : List α} {a : α} {n m : ℕ}

/-- What `g` finds, with the number of its element; the first element has the number `n`. -/
def numbered (g : α → Option β) (n : ℕ) (l : List α) : List (ℕ × β) :=
  (l.zipIdx n).filterMap fun x => (g x.1).map fun b => (x.2, b)

theorem numbered_cons_none (h : g a = none) : numbered g n (a :: l) = numbered g (n + 1) l := by
  unfold numbered
  rw [List.zipIdx_cons, List.filterMap_cons_none (by rw [h]; rfl)]

theorem numbered_cons_some {b : β} (h : g a = some b) :
    numbered g n (a :: l) = (n, b) :: numbered g (n + 1) l := by
  unfold numbered
  rw [List.zipIdx_cons, List.filterMap_cons_some (by rw [h]; rfl)]

theorem numbered_congr {g' : α → Option β} (h : ∀ a ∈ l, g a = g' a) : numbered g n l = numbered g' n l := by
  unfold numbered
  refine List.filterMap_congr fun x hx => ?_
  rw [h x.1 (List.fst_mem_of_mem_zipIdx hx)]

theorem numbered_append (g : α → Option β) (n : ℕ) (l l' : List α) :
    numbered g n (l ++ l') = numbered g n l ++ numbered g (n + l.length) l' := by
  unfold numbered
  rw [List.zipIdx_append, List.filterMap_append]

/-- A number that starts too low is found out by whatever is found. -/
theorem numbered_filter_of_lt (hkeep : ∀ a, keep a = false → g a = none) (h : n < m) :
    numbered g n (l.filter keep) = numbered g m l ↔ ∀ a ∈ l, g a = none := by
  induction l generalizing n m with
  | nil => exact iff_of_true rfl (by simp)
  | cons a l ih =>
    rw [List.forall_mem_cons]
    cases hk : keep a with
    | false =>
      rw [List.filter_cons_of_neg (by simp [hk]), numbered_cons_none (hkeep a hk), ih (by omega)]
      exact (and_iff_right (hkeep a hk)).symm
    | true =>
      rw [List.filter_cons_of_pos hk]
      cases hg : g a with
      | none =>
        rw [numbered_cons_none hg, numbered_cons_none hg, ih (by omega)]
        exact (and_iff_right rfl).symm
      | some b =>
        rw [numbered_cons_some hg, numbered_cons_some hg]
        refine iff_of_false (fun heq => ?_) fun hnone => by cases hnone.1
        have hhead := congrArg Prod.fst (List.cons.inj heq).1
        exact absurd hhead h.ne

/-- The two numberings agree iff nothing is found behind an element that is not kept. -/
theorem numbered_filter_iff (hkeep : ∀ a, keep a = false → g a = none) :
    numbered g n (l.filter keep) = numbered g n l ↔ l.Pairwise fun x a => keep x = false → g a = none := by
  induction l generalizing n with
  | nil => exact iff_of_true rfl .nil
  | cons a l ih =>
    rw [List.pairwise_cons]
    cases hk : keep a with
    | false =>
      rw [List.filter_cons_of_neg (by simp [hk]), numbered_cons_none (hkeep a hk),
        numbered_filter_of_lt hkeep (Nat.lt_succ_self n)]
      constructor
      · intro hnone
        exact ⟨fun x hx _ => hnone x hx, List.pairwise_of_forall_mem_list fun _ _ y hy _ => hnone y hy⟩
      · exact fun h x hx => h.1 x hx rfl
    | true =>
      have hfirst : ∀ x ∈ l, true = false → g x = none := fun _ _ h => by cases h
      rw [List.filter_cons_of_pos hk]
      cases hg : g a with
      | none =>
        rw [numbered_cons_none hg, numbered_cons_none hg, ih]
        exact (and_iff_right hfirst).symm
      | some b =>
        rw [numbered_cons_some hg, numbered_cons_some hg, List.cons.injEq, ih, and_iff_right rfl]
        exact (and_iff_right hfirst).symm
