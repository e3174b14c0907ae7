import Mathlib

/-! Double-entry bookkeeping in general: entries of any kind, each with a transaction,
an account, a currency and a signed amount in any commutative group. If every entry is
in its account's currency and every transaction balances in every currency, then so do
the accounts together. -/

namespace Books

variable {ε α τ κ M : Type*} [DecidableEq α] [DecidableEq τ] [DecidableEq κ] [AddCommMonoid M]

/-- The sum of `f` over the elements that satisfy `p`. -/
def total (f : ε → M) (p : ε → Prop) [DecidablePred p] (l : List ε) : M :=
  ((l.filter (p ·)).map f).sum

section

variable {f : ε → M} {p q : ε → Prop} [DecidablePred p] [DecidablePred q] {l l' : List ε}

@[simp] theorem total_nil : total f p [] = 0 := rfl

theorem total_cons (x : ε) : total f p (x :: l) = (if p x then f x else 0) + total f p l := by
  unfold total
  by_cases h : p x <;> simp [h]

theorem total_append : total f p (l ++ l') = total f p l + total f p l' := by
  simp [total]

theorem total_congr (h : ∀ x ∈ l, p x ↔ q x) : total f p l = total f q l := by
  unfold total
  congr 2
  exact List.filter_congr fun x hx => by simpa using h x hx

theorem total_filter : total f p (l.filter (q ·)) = total f (fun x => q x ∧ p x) l := by
  unfold total
  rw [List.filter_filter]
  simp [and_comm]

theorem total_eq_zero (h : ∀ x ∈ l, ¬ p x) : total f p l = 0 := by
  unfold total
  rw [List.filter_eq_nil_iff.2 (by simpa using h)]
  rfl

end

theorem sum_ite_eq_of_nodup {keys : List κ} (hnodup : keys.Nodup) {k : κ} (hk : k ∈ keys) (m : M) :
    (keys.map fun j => if k = j then m else 0).sum = m := by
  induction keys with
  | nil => cases hk
  | cons j keys ih =>
    rw [List.nodup_cons] at hnodup
    rw [List.map_cons, List.sum_cons]
    by_cases h : k = j
    · subst h
      have hrest : ∀ i ∈ keys, (if k = i then m else 0) = 0 := by
        intro i hi
        rw [if_neg]
        intro h
        exact hnodup.1 (h ▸ hi)
      rw [if_pos rfl, List.sum_eq_zero (by simpa using hrest), add_zero]
    · rw [if_neg h, zero_add, ih hnodup.2 ((List.mem_cons.1 hk).resolve_left h)]

/-- Summing group by group is summing once. -/
theorem sum_total (f : ε → M) (p : ε → Prop) [DecidablePred p] (key : ε → κ) {keys : List κ}
    (hnodup : keys.Nodup) (l : List ε) (hkey : ∀ x ∈ l, p x → key x ∈ keys) :
    (keys.map fun k => total f (fun x => p x ∧ key x = k) l).sum = total f p l := by
  induction l with
  | nil =>
    simp only [total_nil]
    exact List.sum_eq_zero (by simp)
  | cons x l ih =>
    simp only [total_cons]
    rw [List.sum_map_add, ih fun y hy => hkey y (List.mem_cons_of_mem _ hy)]
    congr 1
    by_cases h : p x
    · simp only [h, true_and, if_true]
      exact sum_ite_eq_of_nodup hnodup (hkey x (List.mem_cons_self ..) h) _
    · simp only [h, false_and, if_false]
      exact List.sum_eq_zero (by simp)

theorem total_sub {G : Type*} [AddCommGroup G] {f g : ε → G} {p : ε → Prop} [DecidablePred p]
    {l : List ε} : total (fun x => f x - g x) p l = total f p l - total g p l := by
  induction l with
  | nil => simp
  | cons x l ih =>
    rw [total_cons, total_cons, total_cons, ih]
    split_ifs <;> abel

/-- The trial balance. -/
theorem trial_balance (entries : List ε) (accounts : List α) (transactions : List τ)
    (amount : ε → M) (account : ε → α) (transaction : ε → τ) (currency : ε → κ)
    (denominated : α → κ) (haccounts : accounts.Nodup) (htransactions : transactions.Nodup)
    (haccount : ∀ e ∈ entries, account e ∈ accounts)
    (hcurrency : ∀ e ∈ entries, currency e = denominated (account e))
    (htransaction : ∀ e ∈ entries, transaction e ∈ transactions)
    (hbalanced : ∀ t ∈ transactions, ∀ c,
      total amount (fun e => currency e = c ∧ transaction e = t) entries = 0) (c : κ) :
    ((accounts.filter (denominated · = c)).map fun a =>
      total amount (fun e => account e = a ∧ currency e = denominated a) entries).sum = 0 := by
  have hbyAccount : ((accounts.filter (denominated · = c)).map fun a =>
      total amount (fun e => account e = a ∧ currency e = denominated a) entries).sum =
        total amount (fun e => currency e = c) entries := by
    rw [← sum_total amount (fun e => currency e = c) account (haccounts.filter _)]
    · congr 1
      apply List.map_congr_left
      intro a ha
      obtain rfl : denominated a = c := by simpa using (List.mem_filter.1 ha).2
      exact total_congr fun e _ => and_comm
    · intro e he hc
      rw [List.mem_filter]
      exact ⟨haccount e he, by simp [← hcurrency e he, hc]⟩
  rw [hbyAccount, ← sum_total amount (fun e => currency e = c) transaction htransactions]
  · exact List.sum_eq_zero (by simpa using fun t ht => hbalanced t ht c)
  · exact fun e he _ => htransaction e he

end Books
