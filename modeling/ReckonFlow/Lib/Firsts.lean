import Mathlib

/-! The first element of each key in a list, past the keys already seen. Elements without a key
are left out. -/

variable {α κ : Type*} [DecidableEq κ] {key : α → Option κ} {seen seen' : List κ} {l : List α}
  {a : α} {k : κ}

def firsts (key : α → Option κ) : List κ → List α → List α
  | _, [] => []
  | seen, a :: l => match key a with
      | none => firsts key seen l
      | some k => if k ∈ seen then firsts key seen l else a :: firsts key (k :: seen) l

theorem firsts_none (h : key a = none) : firsts key seen (a :: l) = firsts key seen l := by
  rw [firsts, h]

theorem firsts_seen (h : key a = some k) (hk : k ∈ seen) :
    firsts key seen (a :: l) = firsts key seen l := by
  rw [firsts, h]
  exact if_pos hk

theorem firsts_new (h : key a = some k) (hk : k ∉ seen) :
    firsts key seen (a :: l) = a :: firsts key (k :: seen) l := by
  rw [firsts, h]
  exact if_neg hk

/-- The three ways a list goes on. -/
theorem firsts_cons (key : α → Option κ) (seen : List κ) (a : α) (l : List α) :
    (key a = none ∧ firsts key seen (a :: l) = firsts key seen l) ∨
      (∃ k, key a = some k ∧ k ∈ seen ∧ firsts key seen (a :: l) = firsts key seen l) ∨
      ∃ k, key a = some k ∧ k ∉ seen ∧
        firsts key seen (a :: l) = a :: firsts key (k :: seen) l := by
  cases h : key a with
  | none => exact .inl ⟨rfl, firsts_none h⟩
  | some k =>
    by_cases hk : k ∈ seen
    · exact .inr (.inl ⟨k, rfl, hk, firsts_seen h hk⟩)
    · exact .inr (.inr ⟨k, rfl, hk, firsts_new h hk⟩)

/-- The order in which keys were seen does not matter. -/
theorem firsts_congr (h : ∀ k, k ∈ seen ↔ k ∈ seen') : firsts key seen l = firsts key seen' l := by
  induction l generalizing seen seen' with
  | nil => rfl
  | cons a l ih =>
    rcases firsts_cons key seen a l with ⟨hk, he⟩ | ⟨k, hk, hmem, he⟩ | ⟨k, hk, hmem, he⟩
    · rw [he, firsts_none hk, ih h]
    · rw [he, firsts_seen hk ((h k).1 hmem), ih h]
    · rw [he, firsts_new hk (fun hm => hmem ((h k).2 hm))]
      congr 1
      refine ih fun k' => ?_
      rw [List.mem_cons, List.mem_cons, h]

theorem mem_of_mem_firsts (h : a ∈ firsts key seen l) : a ∈ l ∧ ∃ k, key a = some k ∧ k ∉ seen := by
  induction l generalizing seen with
  | nil => cases h
  | cons b l ih =>
    have hrest : ∀ seen', (∀ k, k ∈ seen → k ∈ seen') → a ∈ firsts key seen' l →
        a ∈ b :: l ∧ ∃ k, key a = some k ∧ k ∉ seen := by
      intro seen' hsub ha
      obtain ⟨hmem, k, hk, hnot⟩ := ih ha
      exact ⟨List.mem_cons_of_mem _ hmem, k, hk, fun hm => hnot (hsub k hm)⟩
    rcases firsts_cons key seen b l with ⟨-, he⟩ | ⟨k, -, -, he⟩ | ⟨k, hk, hnew, he⟩
    · exact hrest seen (fun _ hm => hm) (he ▸ h)
    · exact hrest seen (fun _ hm => hm) (he ▸ h)
    · rw [he] at h
      rcases List.mem_cons.1 h with rfl | h
      · exact ⟨List.mem_cons_self .., k, hk, hnew⟩
      · exact hrest (k :: seen) (fun _ hm => List.mem_cons_of_mem _ hm) h

/-- The first elements of a list cut in two, with the keys seen at the cut. -/
theorem firsts_append {l' : List α} (h : ∀ k, k ∈ seen' ↔ k ∈ seen ∨ ∃ a ∈ l, key a = some k) :
    firsts key seen (l ++ l') = firsts key seen l ++ firsts key seen' l' := by
  induction l generalizing seen with
  | nil =>
    refine firsts_congr fun k => ?_
    rw [h]
    simp
  | cons a l ih =>
    simp only [List.mem_cons, exists_eq_or_imp] at h
    rw [List.cons_append]
    rcases firsts_cons key seen a (l ++ l') with ⟨hk, he⟩ | ⟨k, hk, hmem, he⟩ | ⟨k, hk, hmem, he⟩
    · rw [he, firsts_none hk]
      exact ih fun k' => by simp [h, hk]
    · rw [he, firsts_seen hk hmem]
      refine ih fun k' => ?_
      rw [h, hk]
      constructor
      · rintro (hs | hs | hs)
        · exact .inl hs
        · exact .inl (Option.some.inj hs ▸ hmem)
        · exact .inr hs
      · exact Or.imp id .inr
    · rw [he, firsts_new hk hmem, List.cons_append]
      congr 1
      refine ih fun k' => ?_
      rw [h, hk, List.mem_cons, Option.some.injEq]
      tauto

theorem firsts_cut (key : α → Option κ) (seen : List κ) (l l' : List α) :
    firsts key seen (l ++ l') =
      firsts key seen l ++ firsts key (seen ++ l.filterMap key) l' := by
  refine firsts_append fun k => ?_
  rw [List.mem_append, List.mem_filterMap]

theorem mem_firsts_snoc (hk : key a = some k) (hnew : k ∉ seen) (h : ∀ b ∈ l, key b ≠ some k) :
    a ∈ firsts key seen (l ++ [a]) := by
  have hseen : k ∉ seen ++ l.filterMap key := by
    rw [List.mem_append, List.mem_filterMap]
    rintro (hs | ⟨b, hb, hkb⟩)
    · exact hnew hs
    · exact h b hb hkb
  rw [firsts_cut, firsts_new hk hseen]
  exact List.mem_append_right _ (List.mem_cons_self ..)

/-- A key no element has makes no difference when seen. -/
theorem firsts_unseen (h : ∀ a ∈ l, key a ≠ some k) :
    firsts key (k :: seen) l = firsts key seen l := by
  induction l generalizing seen with
  | nil => rfl
  | cons a l ih =>
    have ha : key a ≠ some k := h a (List.mem_cons_self ..)
    have hl : ∀ b ∈ l, key b ≠ some k := fun b hb => h b (List.mem_cons_of_mem _ hb)
    rcases firsts_cons key seen a l with ⟨hk, he⟩ | ⟨k', hk, hmem, he⟩ | ⟨k', hk, hmem, he⟩
    · rw [he, firsts_none hk, ih hl]
    · rw [he, firsts_seen hk (List.mem_cons_of_mem _ hmem), ih hl]
    · have hne : k' ∉ k :: seen := by
        rw [List.mem_cons]
        rintro (rfl | hm)
        · exact ha hk
        · exact hmem hm
      have hswap : firsts key (k' :: k :: seen) l = firsts key (k :: k' :: seen) l := by
        refine firsts_congr fun k'' => ?_
        simp only [List.mem_cons]
        tauto
      rw [he, firsts_new hk hne, hswap, ih hl]

/-- An element with a key of its own is one more first element, wherever it stands. -/
theorem firsts_insert {pre post : List α} (hk : key a = some k) (hnew : k ∉ seen)
    (h : ∀ b ∈ pre ++ post, key b ≠ some k) :
    (firsts key seen (pre ++ a :: post)).Perm (a :: firsts key seen (pre ++ post)) := by
  induction pre generalizing seen with
  | nil =>
    have hpost : firsts key (k :: seen) post = firsts key seen post := firsts_unseen h
    rw [List.nil_append, List.nil_append, firsts_new hk hnew, hpost]
  | cons b pre ih =>
    have hb : key b ≠ some k := h b (List.mem_cons_self ..)
    have hrest : ∀ c ∈ pre ++ post, key c ≠ some k := fun c hc => h c (List.mem_cons_of_mem _ hc)
    rw [List.cons_append, List.cons_append]
    rcases firsts_cons key seen b (pre ++ post) with ⟨hkb, he⟩ | ⟨k', hkb, hmem, he⟩ | ⟨k', hkb, hmem, he⟩
    · rw [he, firsts_none hkb]
      exact ih hnew hrest
    · rw [he, firsts_seen hkb hmem]
      exact ih hnew hrest
    · have hnew' : k ∉ k' :: seen := by
        rw [List.mem_cons]
        rintro (rfl | hm)
        · exact hb hkb
        · exact hnew hm
      rw [he, firsts_new hkb hmem]
      exact ((ih hnew' hrest).cons b).trans (.swap a b _)

/-- An element without a key is no first element. -/
theorem firsts_insert_none {pre post : List α} (hk : key a = none) :
    firsts key seen (pre ++ a :: post) = firsts key seen (pre ++ post) := by
  induction pre generalizing seen with
  | nil => exact firsts_none hk
  | cons b pre ih =>
    rw [List.cons_append, List.cons_append, firsts, firsts]
    cases key b with
    | none => exact ih
    | some k =>
      simp only [ih]
