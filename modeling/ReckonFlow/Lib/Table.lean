import Mathlib

/-! Tables of rows under an integer primary key. Keys are given out in order and
never reused, so that a key names at most one row in every state. -/

structure Table (α : Type*) (key : α → ℤ) where
  rows : List α
  next : ℤ
  nodup : (rows.map key).Nodup
  fresh : ∀ r ∈ rows, key r < next

namespace Table

variable {α : Type*} {key : α → ℤ}

def empty : Table α key := ⟨[], 1, List.nodup_nil, by simp⟩

@[simp] theorem empty_rows : (empty : Table α key).rows = [] := rfl

def get (t : Table α key) (i : ℤ) : Option α := t.rows.find? (key · = i)

/-- The row built for the next key. -/
def insert (t : Table α key) (mk : ℤ → α) (hmk : ∀ i, key (mk i) = i) : Table α key where
  rows := t.rows ++ [mk t.next]
  next := t.next + 1
  nodup := by
    simp only [List.map_append, List.map_cons, List.map_nil, hmk]
    refine List.Nodup.append t.nodup (List.nodup_singleton _) ?_
    simp only [List.disjoint_singleton, List.mem_map, not_exists, not_and]
    intro r hr he
    exact absurd (t.fresh r hr) (by omega)
  fresh := by
    intro r hr
    rcases List.mem_append.1 hr with hr | hr
    · have := t.fresh r hr
      omega
    · rw [List.mem_singleton.1 hr, hmk]
      omega

/-- The row of `i`, if there is one, changed by `f`. -/
def modify (t : Table α key) (i : ℤ) (f : α → α) (hf : ∀ a, key (f a) = key a) : Table α key where
  rows := t.rows.map fun r => if key r = i then f r else r
  next := t.next
  nodup := by
    rw [List.map_map]
    have : (key ∘ fun r => if key r = i then f r else r) = key := by
      funext r
      simp only [Function.comp_apply]
      split_ifs
      · exact hf r
      · rfl
    rw [this]
    exact t.nodup
  fresh := by
    intro r hr
    obtain ⟨a, ha, rfl⟩ := List.mem_map.1 hr
    split_ifs
    · rw [hf]; exact t.fresh a ha
    · exact t.fresh a ha

theorem key_inj {t : Table α key} {r r' : α} (hr : r ∈ t.rows) (hr' : r' ∈ t.rows)
    (h : key r = key r') : r = r' := List.inj_on_of_nodup_map t.nodup hr hr' h

theorem get_eq_some {t : Table α key} {i : ℤ} {r : α} :
    t.get i = some r ↔ r ∈ t.rows ∧ key r = i := by
  unfold get
  constructor
  · intro h
    exact ⟨List.mem_of_find?_eq_some h, by simpa using List.find?_some h⟩
  · rintro ⟨hr, rfl⟩
    obtain ⟨r', hr'⟩ : ∃ r', t.rows.find? (key · = key r) = some r' := by
      apply Option.isSome_iff_exists.1
      rw [List.find?_isSome]
      exact ⟨r, hr, by simp⟩
    have hkey : key r' = key r := by simpa using List.find?_some hr'
    rw [hr', key_inj (List.mem_of_find?_eq_some hr') hr hkey]

theorem get_of_mem {t : Table α key} {r : α} (h : r ∈ t.rows) : t.get (key r) = some r :=
  get_eq_some.2 ⟨h, rfl⟩

theorem get_next (t : Table α key) : t.get t.next = none := by
  apply Option.eq_none_iff_forall_not_mem.2
  intro r hr
  obtain ⟨hmem, hkey⟩ := get_eq_some.1 hr
  have := t.fresh r hmem
  omega

theorem mem_insert {t : Table α key} {mk : ℤ → α} {hmk : ∀ i, key (mk i) = i} {r : α} :
    r ∈ (t.insert mk hmk).rows ↔ r ∈ t.rows ∨ r = mk t.next := by
  unfold insert
  rw [List.mem_append, List.mem_singleton]

theorem mem_insert_of_mem {t : Table α key} {r : α} (mk : ℤ → α) (hmk : ∀ i, key (mk i) = i)
    (h : r ∈ t.rows) : r ∈ (t.insert mk hmk).rows := mem_insert.2 (.inl h)

theorem mem_insert_self (t : Table α key) (mk : ℤ → α) (hmk : ∀ i, key (mk i) = i) :
    mk t.next ∈ (t.insert mk hmk).rows := mem_insert.2 (.inr rfl)

theorem mem_modify {t : Table α key} {i : ℤ} {f : α → α} {hf : ∀ a, key (f a) = key a} {r : α} :
    r ∈ (t.modify i f hf).rows ↔ ∃ a ∈ t.rows, (if key a = i then f a else a) = r := by
  unfold modify
  rw [List.mem_map]

/-- Only the row of `i` matters. -/
theorem modify_congr {t : Table α key} {i : ℤ} {f g : α → α} {hf : ∀ a, key (f a) = key a}
    {hg : ∀ a, key (g a) = key a} (h : ∀ r, t.get i = some r → f r = g r) :
    t.modify i f hf = t.modify i g hg := by
  unfold modify
  congr 1
  refine List.map_congr_left fun r hr => ?_
  split_ifs with hk
  · exact h r (hk ▸ get_of_mem hr)
  · rfl

theorem get_modify (t : Table α key) (i : ℤ) (f : α → α) (hf : ∀ a, key (f a) = key a) (j : ℤ) :
    (t.modify i f hf).get j = (t.get j).map fun r => if j = i then f r else r := by
  apply Option.ext
  intro r
  rw [get_eq_some, mem_modify, Option.map_eq_some_iff]
  constructor
  · rintro ⟨⟨a, ha, rfl⟩, rfl⟩
    refine ⟨a, ?_, ?_⟩
    · rw [show key (if key a = i then f a else a) = key a by split_ifs; exacts [hf a, rfl]]
      exact get_of_mem ha
    · split_ifs <;> simp_all
  · rintro ⟨a, ha, rfl⟩
    obtain ⟨hmem, rfl⟩ := get_eq_some.1 ha
    refine ⟨⟨a, hmem, rfl⟩, ?_⟩
    split_ifs
    · exact hf a
    · rfl

end Table
