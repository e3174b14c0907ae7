import ReckonFlow.Proofs.Ledger
import ReckonFlow.Spec.Reconciliation

/-! What each reconciliation operation did when it succeeded. -/

namespace ReckonFlow

variable {env : Env} {settings : Settings} {scan : Scan} {db db' : Db} {e b : Id}

theorem checkOpen_ok {expense : Expense} {bankRow : BankTransaction} {u : Unit} :
    checkOpen expense bankRow e b = .ok u ↔
      (bankRow.matchedExpenseId = none ∨ bankRow.matchedExpenseId = some e) ∧
        expense.matchStatus ≠ .matched := by
  simp only [checkOpen, Except.bind_eq_ok, ensure_eq_ok, exists_const]

theorem confirmMatch_ok {i : Id} (h : confirmMatch db e b = .ok (db', i)) :
    ∃ expense bankRow, db.expenses.get e = some expense ∧ db.bankTransactions.get b = some bankRow ∧
      (bankRow.matchedExpenseId = none ∨ bankRow.matchedExpenseId = some e) ∧
      expense.matchStatus ≠ .matched ∧
      (∀ r ∈ db.bankTransactions.rows, r.matchedExpenseId = some e → r.id = b) ∧
      db' = db.link e b ∧ i = b := by
  simp only [confirmMatch, Except.bind_eq_ok, ensure_eq_ok, Except.pure_eq_ok, required_eq_ok,
    checkOpen_ok, Prod.mk.injEq] at h
  obtain ⟨expense, he, bankRow, hb, -, ⟨hclaim, hstatus⟩, -, hunique, rfl, rfl⟩ := h
  exact ⟨expense, bankRow, he, hb, hclaim, hstatus, hunique, rfl, (Table.get_eq_some.1 hb).2⟩

theorem flagForReview_ok (h : flagForReview db e = .ok db') :
    ∃ expense, db.expenses.get e = some expense ∧ db' = db.setMatchStatus e .pendingReview := by
  simp only [flagForReview, Except.bind_eq_ok, Except.pure_eq_ok, required_eq_ok] at h
  obtain ⟨expense, he, rfl⟩ := h
  exact ⟨expense, he, by rw [(Table.get_eq_some.1 he).2]⟩

/-- The expense is parked, or the row decided on is confirmed. -/
theorem settle_ok {ranked : List ScoredCandidate} {choice : Option Id}
    (h : settle db e ranked = .ok (db', choice)) :
    choice = autoDecision ranked ∧
      match autoDecision ranked with
      | none => flagForReview db e = .ok db'
      | some best => confirmMatch db e best = .ok (db', best) := by
  unfold settle at h
  split at h
  · rename_i hd
    obtain ⟨_, hf, heq⟩ := Except.map_eq_ok.1 h
    obtain ⟨rfl, rfl⟩ := Prod.mk.inj heq
    rw [hd]
    exact ⟨rfl, hf⟩
  · rename_i best hd
    obtain ⟨⟨_, i⟩, hc, heq⟩ := Except.map_eq_ok.1 h
    obtain ⟨rfl, rfl⟩ := Prod.mk.inj heq
    obtain ⟨_, _, -, -, -, -, -, -, rfl⟩ := confirmMatch_ok hc
    rw [hd]
    exact ⟨rfl, hc⟩

theorem autoReconcile_ok {choice : Option Id}
    (h : autoReconcile env settings scan db e = .ok (db', choice)) :
    ∃ suggested, suggestMatches env settings scan db e 2 none none = .ok suggested ∧
      settle db e suggested.2.1 = .ok (db', choice) :=
  Except.bind_eq_ok.1 h

end ReckonFlow
