import ReckonFlow.Lib.Table

/-! Tables that only grow, as far as a view of their rows shows: rows are added at the end, and
the others change in nothing the view shows. -/

namespace Table

variable {α β γ : Type*} {key : α → ℤ} {t t' t'' : Table α key} {f : α → β}

def Grows (f : α → β) (t t' : Table α key) : Prop := t.rows.map f <+: t'.rows.map f

theorem Grows.refl (f : α → β) (t : Table α key) : Grows f t t := List.prefix_rfl

theorem Grows.of_eq (f : α → β) (h : t' = t) : Grows f t t' := h ▸ .refl f t

theorem Grows.trans (h : Grows f t t') (h' : Grows f t' t'') : Grows f t t'' := List.IsPrefix.trans h h'

theorem grows_insert (f : α → β) (t : Table α key) (mk : ℤ → α) (hmk : ∀ i, key (mk i) = i) :
    Grows f t (t.insert mk hmk) := by
  unfold Grows insert
  rw [List.map_append]
  exact List.prefix_append ..

theorem grows_modify (f : α → β) (t : Table α key) (i : ℤ) (g : α → α) (hg : ∀ a, key (g a) = key a)
    (hview : ∀ a, f (g a) = f a) : Grows f t (t.modify i g hg) := by
  have hmap : (t.modify i g hg).rows.map f = t.rows.map f := by
    unfold modify
    rw [List.map_map]
    refine List.map_congr_left fun a _ => ?_
    simp only [Function.comp_apply]
    split_ifs
    · exact hview a
    · rfl
  unfold Grows
  rw [hmap]

/-- What a view shows of a row stays to be seen. -/
theorem Grows.exists_row (h : Grows f t t') {a : α} (ha : a ∈ t.rows) :
    ∃ a' ∈ t'.rows, f a' = f a := by
  have hmem := List.IsPrefix.subset h (List.mem_map_of_mem (f := f) ha)
  obtain ⟨a', ha', heq⟩ := List.mem_map.1 hmem
  exact ⟨a', ha', heq⟩

/-- The row of the same key shows the same. -/
theorem Grows.eq_of_key (h : Grows f t t') (hf : ∀ a b, f a = f b → key a = key b) {a a' : α}
    (ha : a ∈ t.rows) (ha' : a' ∈ t'.rows) (hkey : key a' = key a) : f a' = f a := by
  obtain ⟨b, hb, heq⟩ := h.exists_row ha
  rw [← heq, key_inj ha' hb (hkey.trans (hf _ _ heq).symm)]

/-- A view through a view. -/
theorem Grows.comp (h : Grows f t t') (g : β → γ) : Grows (g ∘ f) t t' := by
  have hmap := List.IsPrefix.map g h
  simp only [List.map_map] at hmap
  exact hmap

theorem Grows.get (h : Grows id t t') {i : ℤ} {a : α} (ha : t.get i = some a) : t'.get i = some a := by
  obtain ⟨hmem, rfl⟩ := get_eq_some.1 ha
  obtain ⟨a', ha', rfl⟩ := h.exists_row hmem
  exact get_of_mem ha'

end Table
