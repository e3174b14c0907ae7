import Mathlib

/-! Stable sorting by a key, greatest first. -/

variable {α β : Type*} [LinearOrder β] {key : α → β}

/-- `sorted(items, key=key, reverse=True)`: equal keys keep their order. -/
def sortedDesc (key : α → β) (l : List α) : List α := l.insertionSort fun a b => key b ≤ key a

theorem sortedDesc_perm (key : α → β) (l : List α) : (sortedDesc key l).Perm l :=
  List.perm_insertionSort _ l

theorem mem_sortedDesc {l : List α} {a : α} : a ∈ sortedDesc key l ↔ a ∈ l :=
  (sortedDesc_perm key l).mem_iff

theorem sortedDesc_pairwise (key : α → β) (l : List α) :
    (sortedDesc key l).Pairwise fun a b => key b ≤ key a := by
  have : Std.Total fun a b : α => key b ≤ key a := ⟨fun a b => le_total _ _⟩
  have : IsTrans α fun a b : α => key b ≤ key a := ⟨fun _ _ _ hab hbc => hbc.trans hab⟩
  exact List.pairwise_insertionSort _ l

theorem pair_sublist_or {l : List α} {a b : α} (ha : a ∈ l) (hb : b ∈ l) (hne : a ≠ b) :
    [a, b].Sublist l ∨ [b, a].Sublist l := by
  induction l with
  | nil => cases ha
  | cons x l ih =>
    rcases List.mem_cons.1 ha with rfl | ha'
    · have hb' := (List.mem_cons.1 hb).resolve_left (Ne.symm hne)
      exact .inl ((List.singleton_sublist.2 hb').cons_cons a)
    · rcases List.mem_cons.1 hb with rfl | hb'
      · exact .inr ((List.singleton_sublist.2 ha').cons_cons b)
      · exact (ih ha' hb').imp (·.cons x) (·.cons x)

/-- A greater key comes first. -/
theorem sublist_sortedDesc_of_lt {l : List α} {a b : α} (ha : a ∈ l) (hb : b ∈ l)
    (hlt : key b < key a) : [a, b].Sublist (sortedDesc key l) := by
  have hne : a ≠ b := fun h => hlt.ne (h ▸ rfl)
  have ha' : a ∈ sortedDesc key l := mem_sortedDesc.2 ha
  rcases pair_sublist_or ha' (mem_sortedDesc.2 hb) hne with h | h
  · exact h
  · have hle := List.pairwise_iff_forall_sublist.1 (sortedDesc_pairwise key l) h
    exact absurd hle (not_le.2 hlt)

/-- Nothing that is no greater overtakes. -/
theorem sublist_sortedDesc_of_le {l : List α} {a b : α} (h : [a, b].Sublist l) (hle : key b ≤ key a) :
    [a, b].Sublist (sortedDesc key l) := by
  have : Std.Total fun a b : α => key b ≤ key a := ⟨fun a b => le_total _ _⟩
  have : IsTrans α fun a b : α => key b ≤ key a := ⟨fun _ _ _ hab hbc => hbc.trans hab⟩
  exact List.pair_sublist_insertionSort hle h

/-- Sorting is stable: the elements of one key stay as they are. -/
theorem filter_sortedDesc (l : List α) (v : β) :
    (sortedDesc key l).filter (key · = v) = l.filter (key · = v) := by
  have hinsert : ∀ (a : α) (l : List α), l.Pairwise (fun a b => key b ≤ key a) →
      (l.orderedInsert (fun a b => key b ≤ key a) a).filter (key · = v) =
        (a :: l).filter (key · = v) := by
    intro a l hl
    induction l with
    | nil => rfl
    | cons b l ih =>
      rw [List.pairwise_cons] at hl
      rw [List.orderedInsert_cons]
      split_ifs with hab
      · rfl
      · -- `a` goes further back, so it is not of the key of `b`
        have hlt : key a < key b := not_le.1 hab
        have ih := ih hl.2
        by_cases ha : key a = v
        · have hb : key b ≠ v := fun h => hlt.ne (ha.trans h.symm)
          simp only [List.filter_cons, hb, ha, decide_true, decide_false, if_true, Bool.false_eq_true,
            if_false] at ih ⊢
          exact ih
        · simp only [List.filter_cons, ha, decide_false, Bool.false_eq_true, if_false] at ih ⊢
          rw [ih]
  induction l with
  | nil => rfl
  | cons a l ih =>
    show ((sortedDesc key l).orderedInsert (fun a b => key b ≤ key a) a).filter (key · = v) = _
    rw [hinsert a _ (sortedDesc_pairwise key l), List.filter_cons, List.filter_cons, ih]

/-- Of two elements with the same key the one that comes first stays first. -/
theorem sublist_sortedDesc_iff {l : List α} {a b : α} (hkey : key a = key b) :
    [a, b].Sublist (sortedDesc key l) ↔ [a, b].Sublist l := by
  have hfilter : [a, b].filter (key · = key a) = [a, b] := by simp [hkey]
  constructor
  · intro h
    have h := h.filter (key · = key a)
    rw [hfilter, filter_sortedDesc] at h
    exact h.trans List.filter_sublist
  · intro h
    have h := h.filter (key · = key a)
    rw [hfilter, ← filter_sortedDesc] at h
    exact h.trans List.filter_sublist

/-- A sorted list is given by its elements of each key. -/
theorem eq_of_filter_key {l l' : List α} (hl : l.Pairwise fun a b => key b ≤ key a)
    (hl' : l'.Pairwise fun a b => key b ≤ key a)
    (h : ∀ v, l.filter (key · = v) = l'.filter (key · = v)) : l = l' := by
  have hmem : ∀ {l l' : List α}, (∀ v, l.filter (key · = v) = l'.filter (key · = v)) →
      ∀ a ∈ l, a ∈ l' := by
    intro l l' h a ha
    have ha : a ∈ l.filter (key · = key a) := List.mem_filter.2 ⟨ha, decide_eq_true rfl⟩
    rw [h] at ha
    exact List.mem_of_mem_filter ha
  induction l generalizing l' with
  | nil =>
    cases l' with
    | nil => rfl
    | cons b l' => exact absurd (hmem (fun v => (h v).symm) b (List.mem_cons_self ..)) List.not_mem_nil
  | cons a l ih =>
    cases l' with
    | nil => exact absurd (hmem h a (List.mem_cons_self ..)) List.not_mem_nil
    | cons b l' =>
      rw [List.pairwise_cons] at hl hl'
      have hkey : key a = key b := by
        apply le_antisymm
        · rcases List.mem_cons.1 (hmem h a (List.mem_cons_self ..)) with rfl | ha
          · exact le_rfl
          · exact hl'.1 a ha
        · rcases List.mem_cons.1 (hmem (fun v => (h v).symm) b (List.mem_cons_self ..)) with rfl | hb
          · exact le_rfl
          · exact hl.1 b hb
      have hhead := h (key a)
      simp only [List.filter_cons, hkey, decide_true, if_true] at hhead
      obtain ⟨rfl, -⟩ := List.cons.inj hhead
      congr 1
      refine ih hl.2 hl'.2 fun v => ?_
      have hv := h v
      rw [List.filter_cons, List.filter_cons] at hv
      split_ifs at hv
      · exact (List.cons.inj hv).2
      · exact hv

/-- The order of a list matters to its sorted version only among equal keys. -/
theorem sortedDesc_congr {l l' : List α} (h : ∀ v, l.filter (key · = v) = l'.filter (key · = v)) :
    sortedDesc key l = sortedDesc key l' := by
  refine eq_of_filter_key (sortedDesc_pairwise key l) (sortedDesc_pairwise key l') fun v => ?_
  rw [filter_sortedDesc, filter_sortedDesc, h]

theorem idxOf_lt [DecidableEq α] {ranking : List α} {i j : α} (hnodup : ranking.Nodup)
    (h : [i, j].Sublist ranking) :
    ranking.idxOf i < ranking.idxOf j := by
  induction ranking with
  | nil => cases h
  | cons x ranking ih =>
    obtain ⟨hx, hnodup⟩ := List.nodup_cons.1 hnodup
    cases h with
    | cons _ h =>
      have hi : x ≠ i := fun heq => hx (heq ▸ h.subset (List.mem_cons_self ..))
      have hj : x ≠ j := fun heq => hx (heq ▸ h.subset (List.mem_cons_of_mem _ (List.mem_singleton_self _)))
      rw [List.idxOf_cons_ne _ hi, List.idxOf_cons_ne _ hj]
      exact Nat.succ_lt_succ (ih hnodup h)
    | cons_cons _ h =>
      have hj : i ≠ j := fun heq => hx (heq ▸ List.singleton_sublist.1 h)
      rw [List.idxOf_cons_self, List.idxOf_cons_ne _ hj]
      exact Nat.succ_pos _

/-- Without repetitions a list is given by the order of its elements, two by two. -/
theorem eq_of_pairs {l l' : List α} (hnodup : l.Nodup) (hperm : l.Perm l')
    (h : ∀ a b, [a, b].Sublist l → [a, b].Sublist l') : l = l' := by
  classical
  have hnodup' : l'.Nodup := hperm.nodup_iff.1 hnodup
  have hpairs : l.Pairwise fun a b => [a, b].Sublist l' :=
    List.pairwise_iff_forall_sublist.2 fun hab => h _ _ hab
  have hpairs' : l'.Pairwise fun a b => [a, b].Sublist l' := List.pairwise_iff_forall_sublist.2 id
  refine List.Perm.eq_of_pairwise ?_ hpairs hpairs' hperm
  intro a b _ _ hab hba
  exact absurd (idxOf_lt hnodup' hab) (idxOf_lt hnodup' hba).not_gt

/-- Two keys that compare every element alike with the later ones sort a list alike. -/
theorem sortedDesc_congr_key {γ : Type*} [LinearOrder γ] {key' : α → γ} {l : List α}
    (h : l.Pairwise fun a b => key a < key b ↔ key' a < key' b) :
    sortedDesc key l = sortedDesc key' l := by
  induction l with
  | nil => rfl
  | cons a l ih =>
    obtain ⟨hhead, htail⟩ := List.pairwise_cons.1 h
    have hinsert : ∀ m : List α, (∀ b ∈ m, key a < key b ↔ key' a < key' b) →
        m.orderedInsert (fun a b => key b ≤ key a) a = m.orderedInsert (fun a b => key' b ≤ key' a) a := by
      intro m hm
      induction m with
      | nil => rfl
      | cons b m ihm =>
        obtain ⟨hb, hm⟩ := List.forall_mem_cons.1 hm
        have hle : key b ≤ key a ↔ key' b ≤ key' a := by rw [← not_lt, ← not_lt, hb]
        rw [List.orderedInsert_cons, List.orderedInsert_cons, ihm hm]
        simp only [hle]
    show (sortedDesc key l).orderedInsert _ a = (sortedDesc key' l).orderedInsert _ a
    rw [← ih htail]
    exact hinsert _ fun b hb => hhead b (mem_sortedDesc.1 hb)

theorem sortedDesc_map {γ : Type*} (f : α → γ) (g : γ → β) (l : List α) :
    sortedDesc g (l.map f) = (sortedDesc (g ∘ f) l).map f :=
  (List.map_insertionSort (r := fun a b => g (f b) ≤ g (f a)) (s := fun a b => g b ≤ g a) f l
    fun _ _ _ _ => Iff.rfl).symm

theorem sortedDesc_of_pairwise {l : List α} (h : l.Pairwise fun a b => key b ≤ key a) :
    sortedDesc key l = l := h.insertionSort_eq

/-- Sorting that does nothing but exchange `a` and `b`. -/
theorem sortedDesc_exchange {p m s : List α} {a b : α}
    (hsorted : (p ++ b :: (m ++ a :: s)).Pairwise fun x y => key y ≤ key x) (hab : key a ≠ key b)
    (hm : ∀ x ∈ m, key x ≠ key a ∧ key x ≠ key b) :
    sortedDesc key (p ++ a :: (m ++ b :: s)) = p ++ b :: (m ++ a :: s) := by
  refine eq_of_filter_key (sortedDesc_pairwise key _) hsorted fun v => ?_
  rw [filter_sortedDesc]
  simp only [List.filter_append, List.filter_cons]
  by_cases ha : key a = v
  · have hb : key b ≠ v := fun h => hab (ha.trans h.symm)
    have hnone : m.filter (key · = v) = [] := by
      rw [List.filter_eq_nil_iff]
      exact fun x hx => by simpa [ha] using (hm x hx).1
    simp [ha, hb, hnone]
  · by_cases hb : key b = v
    · have hnone : m.filter (key · = v) = [] := by
        rw [List.filter_eq_nil_iff]
        exact fun x hx => by simpa [hb] using (hm x hx).2
      simp [ha, hb, hnone]
    · simp [ha, hb]

/-- A pair of a list as a decomposition of it. -/
theorem exists_split_of_pair {l : List α} {a b : α} (h : [a, b].Sublist l) :
    ∃ p m s, l = p ++ a :: (m ++ b :: s) := by
  obtain ⟨p, r, rfl, hp, hr⟩ := List.cons_sublist_iff.1 h
  obtain ⟨p, m, rfl⟩ := List.append_of_mem hp
  obtain ⟨m', s, rfl⟩ := List.append_of_mem (List.singleton_sublist.1 hr)
  exact ⟨p, m ++ m', s, by simp⟩
