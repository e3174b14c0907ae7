import ReckonFlow.Lib.Ranking

/-! A listing read page by page while it grows: an element moves only towards the end, so that
a reader who goes on to the last page meets everything that was there at the first. -/

namespace Paging

variable {α β γ : Type*}

/-- `LIMIT limit OFFSET offset`. -/
def page (limit offset : ℕ) (l : List α) : List α := (l.drop offset).take limit

theorem page_map (f : α → β) (limit offset : ℕ) (l : List α) :
    (page limit offset l).map f = page limit offset (l.map f) := by
  unfold page
  rw [List.map_take, List.map_drop]

theorem mem_of_mem_page {limit offset : ℕ} {l : List α} {a : α} (h : a ∈ page limit offset l) : a ∈ l :=
  List.mem_of_mem_drop (List.mem_of_mem_take h)

theorem mem_page {limit offset i : ℕ} {l : List α} (hi : i < l.length) (hlow : offset ≤ i)
    (hhigh : i < offset + limit) : l[i] ∈ page limit offset l := by
  unfold page
  refine List.mem_iff_getElem.2 ⟨i - offset, ?_, ?_⟩
  · rw [List.length_take, List.length_drop]
    omega
  · rw [List.getElem_take, List.getElem_drop]
    congr 1
    omega

theorem length_of_short {limit offset : ℕ} {l : List α} (h : (page limit offset l).length < limit) :
    l.length < offset + limit := by
  unfold page at h
  rw [List.length_take, List.length_drop] at h
  omega

section Walk

variable [DecidableEq α]

/-- Where elements are only added, none comes earlier. -/
theorem idxOf_le_of_sublist {l l' : List α} (h : l.Sublist l') (hnodup : l'.Nodup) {x : α}
    (hx : x ∈ l) : l.idxOf x ≤ l'.idxOf x := by
  induction h with
  | slnil => cases hx
  | @cons l l' a hsub ih =>
    have hne : a ≠ x := by
      rintro rfl
      exact (List.nodup_cons.1 hnodup).1 (hsub.subset hx)
    rw [List.idxOf_cons_ne _ hne]
    exact (ih (List.nodup_cons.1 hnodup).2 hx).trans (Nat.le_succ _)
  | @cons_cons l l' a hsub ih =>
    by_cases hne : a = x
    · subst hne
      rw [List.idxOf_cons_self]
      exact Nat.zero_le _
    · rw [List.idxOf_cons_ne _ hne, List.idxOf_cons_ne _ hne]
      have hmem := (List.mem_cons.1 hx).resolve_left (Ne.symm hne)
      exact Nat.succ_le_succ (ih (List.nodup_cons.1 hnodup).2 hmem)

/-- A reader takes page `k` from the listing as it is then; page `m` is not full. -/
theorem seen_by_walk {l : ℕ → List α} {limit m : ℕ} (hnodup : ∀ k ≤ m, (l k).Nodup)
    (hgrow : ∀ k < m, (l k).Sublist (l (k + 1)))
    (hlast : (page limit (m * limit) (l m)).length < limit) {x : α} (hx : x ∈ l 0) :
    ∃ k ≤ m, x ∈ page limit (k * limit) (l k) := by
  have hmem : ∀ k ≤ m, x ∈ l k := by
    intro k
    induction k with
    | zero => exact fun _ => hx
    | succ k ih => exact fun hk => (hgrow k hk).subset (ih (by omega))
  have hend : (l m).idxOf x < (m + 1) * limit := by
    have hlength := length_of_short hlast
    have hidx := List.idxOf_lt_length_of_mem (hmem m le_rfl)
    rw [Nat.succ_mul]
    omega
  -- the first page whose end the element has not passed
  have hexists : ∃ k, k ≤ m ∧ (l k).idxOf x < (k + 1) * limit := ⟨m, le_rfl, hend⟩
  classical
  obtain ⟨hk, hbefore⟩ := Nat.find_spec hexists
  have hmin : ∀ j < Nat.find hexists, ¬ (j ≤ m ∧ (l j).idxOf x < (j + 1) * limit) :=
    fun j hj => Nat.find_min hexists hj
  generalize Nat.find hexists = k at hk hbefore hmin
  have hlow : k * limit ≤ (l k).idxOf x := by
    cases k with
    | zero => simp
    | succ j =>
      have hpassed : (j + 1) * limit ≤ (l j).idxOf x := by
        by_contra hlt
        exact hmin j (Nat.lt_succ_self j) ⟨by omega, not_le.1 hlt⟩
      exact hpassed.trans (idxOf_le_of_sublist (hgrow j hk) (hnodup _ hk) (hmem j (by omega)))
  refine ⟨k, hk, ?_⟩
  have hidx := List.idxOf_lt_length_of_mem (hmem k hk)
  have hhigh : (l k).idxOf x < k * limit + limit := by
    rw [Nat.succ_mul] at hbefore
    exact hbefore
  have hpage := mem_page hidx hlow hhigh
  rwa [List.getElem_idxOf hidx] at hpage

end Walk

/-! Listings sorted by a key no two elements share. -/

variable [LinearOrder γ] {key : β → γ}

/-- More elements, sorted, are the old ones with others between. -/
theorem sublist_sortedDesc (hkey : Function.Injective key) {l l' : List β} (h : l.Sublist l') :
    (sortedDesc key l).Sublist (sortedDesc key l') := by
  have hanti : Std.Antisymm fun a b : β => key b ≤ key a :=
    ⟨fun _ _ hab hba => hkey (le_antisymm hba hab)⟩
  refine List.sublist_of_subperm_of_pairwise ?_ (sortedDesc_pairwise key l) (sortedDesc_pairwise key l')
  exact (sortedDesc_perm key l).subperm.trans (h.subperm.trans (sortedDesc_perm key l').symm.subperm)

/-- Sorted by what a view shows, a listing and its view are sorted alike. -/
theorem map_sortedDesc (view : α → β) (key : β → γ) (l : List α) :
    (sortedDesc (key ∘ view) l).map view = sortedDesc key (l.map view) :=
  List.map_insertionSort _ _ view l fun _ _ _ _ => Iff.rfl

/-- The walk over a sorted listing whose rows may change in what the view does not show. -/
theorem seen_by_sorted_walk [DecidableEq β] (rows : ℕ → List α) (view : α → β)
    (hkey : Function.Injective key) {limit m : ℕ} (hnodup : ∀ k ≤ m, ((rows k).map view).Nodup)
    (hgrow : ∀ k < m, ((rows k).map view).Sublist ((rows (k + 1)).map view))
    (hlast : (page limit (m * limit) (sortedDesc (key ∘ view) (rows m))).length < limit) {a : α}
    (ha : a ∈ rows 0) :
    ∃ k ≤ m, ∃ a' ∈ page limit (k * limit) (sortedDesc (key ∘ view) (rows k)), view a' = view a := by
  have hsorted : ∀ k ≤ m, (sortedDesc key ((rows k).map view)).Nodup :=
    fun k hk => (sortedDesc_perm key _).nodup_iff.2 (hnodup k hk)
  have hlast' : (page limit (m * limit) (sortedDesc key ((rows m).map view))).length < limit := by
    rw [← map_sortedDesc, ← page_map, List.length_map]
    exact hlast
  have hmem : view a ∈ sortedDesc key ((rows 0).map view) :=
    mem_sortedDesc.2 (List.mem_map_of_mem ha)
  obtain ⟨k, hk, hpage⟩ :=
    seen_by_walk hsorted (fun k hk => sublist_sortedDesc hkey (hgrow k hk)) hlast' hmem
  rw [← map_sortedDesc, ← page_map] at hpage
  obtain ⟨a', ha', heq⟩ := List.mem_map.1 hpage
  exact ⟨k, hk, a', ha', heq⟩

end Paging
