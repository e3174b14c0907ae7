import Mathlib

/-! Two parts joined by a separator that both may contain. The joined text does not
tell where the separator stood: it reads as two different pairs exactly when one
pair is the other with its separator shifted. -/

namespace Joined

variable {α : Type*} {c : α} {a b a' b' : List α}

/-- `(a', b')` is `(a, b)` with the separator moved right: the stretch `x` it jumps over
changes sides. -/
def Shifted (c : α) (a b a' b' : List α) : Prop := ∃ x, a' = a ++ c :: x ∧ b = x ++ c :: b'

theorem Shifted.join_eq (h : Shifted c a b a' b') : a ++ c :: b = a' ++ c :: b' := by
  obtain ⟨x, rfl, rfl⟩ := h
  simp

theorem Shifted.ne (h : Shifted c a b a' b') : a ≠ a' := by
  obtain ⟨x, rfl, -⟩ := h
  intro he
  simpa using congrArg List.length he

theorem join_eq_iff :
    a ++ c :: b = a' ++ c :: b' ↔
      (a = a' ∧ b = b') ∨ Shifted c a b a' b' ∨ Shifted c a' b' a b := by
  constructor
  · intro h
    rcases List.append_eq_append_iff.1 h with ⟨x, rfl, hx⟩ | ⟨x, rfl, hx⟩
    · cases x with
      | nil => exact .inl ⟨(List.append_nil a).symm, (List.cons.inj hx).2⟩
      | cons d x =>
        obtain ⟨rfl, rfl⟩ := List.cons.inj hx
        exact .inr (.inl ⟨x, rfl, rfl⟩)
    · cases x with
      | nil => exact .inl ⟨List.append_nil a', ((List.cons.inj hx).2).symm⟩
      | cons d x =>
        obtain ⟨rfl, rfl⟩ := List.cons.inj hx
        exact .inr (.inr ⟨x, rfl, rfl⟩)
  · rintro (⟨rfl, rfl⟩ | h | h)
    · rfl
    · exact h.join_eq
    · exact h.join_eq.symm

/-- First parts without the separator are read back. -/
theorem join_inj (ha : c ∉ a) (ha' : c ∉ a') (h : a ++ c :: b = a' ++ c :: b') : a = a' ∧ b = b' := by
  rcases join_eq_iff.1 h with h | ⟨x, rfl, -⟩ | ⟨x, rfl, -⟩
  · exact h
  · simp at ha'
  · simp at ha

end Joined
