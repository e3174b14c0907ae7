import Mathlib

/-! Exclusive locks, each held by at most one session until the session ends, and waiting
that cannot go round in a circle. -/

/-- For each key the session that holds its lock. -/
abbrev Locks (κ : Type*) := κ → Option ℕ

namespace Locks

variable {κ : Type*}

/-- A lock that session `i` need not wait for. -/
def Free (l : Locks κ) (i : ℕ) (k : κ) : Prop := l k = none ∨ l k = some i

instance (l : Locks κ) (i : ℕ) (k : κ) : Decidable (l.Free i k) :=
  inferInstanceAs (Decidable (_ ∨ _))

def take [DecidableEq κ] (l : Locks κ) (i : ℕ) (k : κ) : Locks κ := Function.update l k (some i)

/-- Everything session `i` holds is free again. -/
def release (l : Locks κ) (i : ℕ) : Locks κ := fun k => if l k = some i then none else l k

variable {l : Locks κ} {i j : ℕ} {k k' : κ}

theorem not_free (h : ¬ l.Free i k) : ∃ j, l k = some j := by
  cases hk : l k with
  | none => exact absurd (.inl hk) h
  | some j => exact ⟨j, rfl⟩

@[simp] theorem take_self [DecidableEq κ] : l.take i k k = some i := Function.update_self ..

/-- Taking a free lock costs no other session one. -/
theorem take_held [DecidableEq κ] (hfree : l.Free i k) (hj : j ≠ i) (h : l k' = some j) :
    l.take i k k' = some j := by
  have hne : k' ≠ k := by
    rintro rfl
    rcases hfree with hn | hn
    · rw [hn] at h
      cases h
    · rw [hn] at h
      exact hj (Option.some.inj h).symm
  exact (Function.update_of_ne hne ..).trans h

/-- Taking a lock costs nothing already held. -/
theorem take_own [DecidableEq κ] (h : l k' = some i) : l.take i k k' = some i := by
  by_cases hk : k' = k
  · rw [hk, take_self]
  · exact (Function.update_of_ne hk ..).trans h

theorem Free.take [DecidableEq κ] (h : l.Free i k') : (l.take i k).Free i k' := by
  by_cases hk : k' = k
  · exact .inr (hk ▸ take_self)
  · unfold Free Locks.take
    rwa [Function.update_of_ne hk]

theorem release_held (hj : j ≠ i) (h : l k = some j) : l.release i k = some j := by
  unfold release
  rw [h, if_neg]
  exact fun he => hj (Option.some.inj he)

theorem take_iff [DecidableEq κ] (hfree : l.Free i k) (hj : j ≠ i) :
    l.take i k k' = some j ↔ l k' = some j := by
  refine ⟨fun h => ?_, take_held hfree hj⟩
  by_cases hk : k' = k
  · subst hk
    rw [take_self] at h
    exact absurd (Option.some.inj h).symm hj
  · exact (Function.update_of_ne hk ..).symm.trans h

theorem of_take [DecidableEq κ] (h : l.take i k k' = some i) : k' = k ∨ l k' = some i := by
  by_cases hk : k' = k
  · exact .inl hk
  · exact .inr ((Function.update_of_ne hk ..).symm.trans h)

theorem of_release (h : l.release i k = some j) : l k = some j := by
  unfold release at h
  split_ifs at h
  exact h

theorem release_iff (hj : j ≠ i) : l.release i k = some j ↔ l k = some j :=
  ⟨of_release, release_held hj⟩

theorem release_self : l.release i k ≠ some i := by
  unfold release
  split_ifs with h
  · rintro ⟨⟩
  · exact h

/-! Two sessions that take their locks in the order of a list each, and hold them. -/

section Order

variable [DecidableEq κ] {a b : List κ}

/-- The first of `a` that `b` takes as well. -/
def firstShared (a b : List κ) : Option κ := a.find? (· ∈ b)

theorem firstShared_of_mem {c d : List κ} (hc : k ∈ c) (hb : k ∈ b) :
    ∃ p ∈ c, firstShared (c ++ d) b = some p := by
  have hsome : (c.find? (· ∈ b)).isSome = true := List.find?_isSome.2 ⟨k, hc, by simpa using hb⟩
  obtain ⟨p, hp⟩ := Option.isSome_iff_exists.1 hsome
  refine ⟨p, List.mem_of_find?_eq_some hp, ?_⟩
  unfold firstShared
  rw [List.find?_append, hp, Option.some_or]

/-- Two sessions that wait for each other do not meet at the same lock first. -/
theorem firstShared_ne {c c' d d' : List κ} {x y : κ} (hx : x ∈ c) (hy : y ∈ d)
    (hdisjoint : ∀ k ∈ c, k ∉ d) :
    firstShared (c ++ y :: c') (d ++ x :: d') ≠ firstShared (d ++ x :: d') (c ++ y :: c') := by
  obtain ⟨p, hp, hfirst⟩ := firstShared_of_mem (d := y :: c') hx (show x ∈ d ++ x :: d' by simp)
  obtain ⟨q, hq, hfirst'⟩ := firstShared_of_mem (d := x :: d') hy (show y ∈ c ++ y :: c' by simp)
  rw [hfirst, hfirst']
  intro he
  obtain rfl := Option.some.inj he
  exact hdisjoint p hp hq

/-- Otherwise they can: `a` goes up to the first lock `q` of `b` that both take, `b` past it and
on to a lock that `a` has by then. -/
theorem exists_circle (h : firstShared a b ≠ firstShared b a) : ∃ c q c' d d' k d'',
    a = c ++ q :: c' ∧ b = (d ++ [q]) ++ (d' ++ k :: d'') ∧
      (∀ e ∈ c, e ∉ d ++ [q]) ∧ (∀ e ∈ d', e ∉ c) ∧ k ∈ c := by
  cases hb : firstShared b a with
  | none =>
    -- nothing is shared
    refine absurd ?_ h
    rw [hb]
    refine List.find?_eq_none.2 fun e he hmem => ?_
    exact List.find?_eq_none.1 hb e (by simpa using hmem) (by simpa using he)
  | some q =>
    obtain ⟨hqa, d, rest, rfl, hd⟩ := List.find?_eq_some_iff_append.1 hb
    have hqa : q ∈ a := by simpa using hqa
    have hd : ∀ e ∈ d, e ∉ a := by simpa using hd
    obtain ⟨c, c', rfl, hqc⟩ := List.eq_append_cons_of_mem hqa
    obtain ⟨p, hpc, hpb⟩ : ∃ p ∈ c, p ∈ d ++ q :: rest := by
      by_contra hnone
      have hc : c.find? (· ∈ d ++ q :: rest) = none :=
        List.find?_eq_none.2 fun e he hmem => hnone ⟨e, he, by simpa using hmem⟩
      refine h ?_
      unfold firstShared
      rw [List.find?_append, hc, Option.none_or, List.find?_cons_of_pos (by simp)]
      exact hb.symm
    have hprest : p ∈ rest := by
      rcases List.mem_append.1 hpb with hpd | hpq
      · exact absurd (List.mem_append_left _ hpc) (hd p hpd)
      · exact (List.mem_cons.1 hpq).resolve_left fun he => hqc (he ▸ hpc)
    have hsome : (rest.find? (· ∈ c)).isSome = true := List.find?_isSome.2 ⟨p, hprest, by simpa using hpc⟩
    obtain ⟨k, hk⟩ := Option.isSome_iff_exists.1 hsome
    obtain ⟨hkc, d', d'', rfl, hd'⟩ := List.find?_eq_some_iff_append.1 hk
    refine ⟨c, q, c', d, d', k, d'', rfl, by simp, fun e he hmem => ?_, by simpa using hd', by simpa using hkc⟩
    rcases List.mem_append.1 hmem with hed | heq
    · exact hd e hed (List.mem_append_left _ he)
    · exact hqc (List.mem_singleton.1 heq ▸ he)

end Order

/-- Where every wait goes to a session of higher rank, no chain of waits comes back. -/
theorem acyclic_of_rank {α : Type*} {waits : α → α → Prop} {rank : α → ℕ}
    (h : ∀ a b, waits a b → rank a < rank b) (a : α) : ¬ Relation.TransGen waits a a := by
  have hlt : ∀ b, Relation.TransGen waits a b → rank a < rank b := by
    intro b hb
    induction hb with
    | single hw => exact h _ _ hw
    | tail _ hw ih => exact ih.trans (h _ _ hw)
  exact fun hcycle => lt_irrefl _ (hlt a hcycle)

end Locks
