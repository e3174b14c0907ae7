import ReckonFlow.Proofs.History

/-! A client reads a listing page by page while other requests are served: whatever was there
when it began is on one of the pages. -/

namespace ReckonFlow

open Lts Paging

variable {env : Env} {settings : Settings} {db db' : Db}

theorem grows_expense_ids (h : Grown db db') (t : Option Id) :
    ((db.expenses.rows.filter fun e => t = none ∨ e.travelRequestId = t).map Expense.id).Sublist
      ((db'.expenses.rows.filter fun e => t = none ∨ e.travelRequestId = t).map Expense.id) := by
  -- neither the id nor the trip is part of the match
  have hview : ∀ l : List Expense, (l.filter fun e => t = none ∨ e.travelRequestId = t).map Expense.id =
      ((l.map Expense.claimed).filter fun e => t = none ∨ e.travelRequestId = t).map Expense.id := by
    intro l
    rw [List.filter_map, List.map_map]
    rfl
  rw [hview db.expenses.rows, hview db'.expenses.rows]
  exact ((List.IsPrefix.sublist h.expenses).filter _).map _

theorem listTransactions_none (db : Db) (limit offset : ℕ) : listTransactions db limit offset none =
    page limit offset (sortedDesc (toLex ∘ BankTransaction.position) db.bankTransactions.rows) := by
  unfold listTransactions
  rw [List.filter_eq_self.2 fun _ _ => by simp]

theorem grown_between {d : ℕ → Db} {m : ℕ}
    (hwalk : ∀ k < m, ∃ tr, Run (ServeStep env settings) (d k) tr (d (k + 1))) :
    ∀ k ≤ m, Grown (d 0) (d k) := by
  intro k
  induction k with
  | zero => exact fun _ => .refl _
  | succ k ih =>
    intro hk
    obtain ⟨tr, hrun⟩ := hwalk k hk
    exact (ih (by omega)).trans (.of_run hrun)

theorem grounded_between {d : ℕ → Db} {m : ℕ} (h : Grounded env (d 0))
    (hwalk : ∀ k < m, ∃ tr, Run (ServeStep env settings) (d k) tr (d (k + 1))) :
    ∀ k ≤ m, Grounded env (d k) := by
  intro k
  induction k with
  | zero => exact fun _ => h
  | succ k ih =>
    intro hk
    obtain ⟨tr, hrun⟩ := hwalk k hk
    refine hrun.invariant (ih (by omega)) ?_
    rintro db op _ hdb rfl
    exact hdb.serve

/-- Page `k` of `m` is read in the state `d k`; between two pages any requests are served. -/
theorem pages_miss_nothing {κ : Type} [LinearOrder κ] (collation : String ↪ κ) {d : ℕ → Db} {m : ℕ}
    {tr : List (Db × Op)} (hstart : Run (ServeStep env settings) Db.empty tr (d 0))
    (hwalk : ∀ k < m, ∃ tr, Run (ServeStep env settings) (d k) tr (d (k + 1))) (limit : ℕ) :
    ((listAccounts (d m) limit (m * limit) collation).length < limit →
      ∀ a ∈ (d 0).accounts.rows, ∃ k ≤ m, a ∈ listAccounts (d k) limit (k * limit) collation) ∧
    ((listTravelRequests (d m) limit (m * limit)).length < limit →
      ∀ t ∈ (d 0).travelRequests.rows, ∃ k ≤ m, t ∈ listTravelRequests (d k) limit (k * limit)) ∧
    (∀ t, (listExpenses (d m) limit (m * limit) t).length < limit →
      ∀ e ∈ (d 0).expenses.rows, t = none ∨ e.travelRequestId = t →
        ∃ k ≤ m, ∃ e' ∈ listExpenses (d k) limit (k * limit) t, e'.claimed = e.claimed) ∧
    ((listTransactions (d m) limit (m * limit) none).length < limit →
      ∀ r ∈ (d 0).bankTransactions.rows,
        ∃ k ≤ m, ∃ r' ∈ listTransactions (d k) limit (k * limit) none, r'.booked = r.booked) := by
  have hgrown := grown_between hwalk
  have hstep : ∀ k < m, Grown (d k) (d (k + 1)) := fun k hk => (hwalk k hk).elim fun _ => .of_run
  refine ⟨fun hlast a ha => ?_, fun hlast t ht => ?_, fun t hlast e he hfilter => ?_, fun hlast r hr => ?_⟩
  · have hgrounded := grounded_between (grounded_of_run hstart) hwalk
    have hkey : Function.Injective (OrderDual.toDual ∘ collation) :=
      OrderDual.toDual.injective.comp collation.injective
    obtain ⟨k, hk, a', hmem, hcode⟩ := seen_by_sorted_walk (fun k => (d k).accounts.rows) Account.code hkey
      (fun k hk => (hgrounded k hk).account_code)
      (fun k hk => ((hstep k hk).accounts.comp Account.code).sublist) hlast ha
    obtain ⟨a'', ha'', rfl⟩ := (hgrown k hk).accounts.exists_row ha
    have ha' := mem_sortedDesc.1 (mem_of_mem_page hmem)
    have heq := List.inj_on_of_nodup_map (hgrounded k hk).account_code ha' ha'' hcode
    exact ⟨k, hk, heq ▸ hmem⟩
  · obtain ⟨k, hk, t', hmem, hid⟩ := seen_by_sorted_walk (fun k => (d k).travelRequests.rows)
      TravelRequest.id Function.injective_id (fun k _ => (d k).travelRequests.nodup)
      (fun k hk => ((hstep k hk).travelRequests.comp TravelRequest.id).sublist) hlast ht
    have heq : t' = t := (hgrown k hk).travelRequests.eq_of_key (fun _ _ h => congrArg _ h) ht
      (mem_sortedDesc.1 (mem_of_mem_page hmem)) hid
    exact ⟨k, hk, heq ▸ hmem⟩
  · obtain ⟨k, hk, e', hmem, hid⟩ := seen_by_sorted_walk
      (fun k => (d k).expenses.rows.filter fun e => t = none ∨ e.travelRequestId = t) Expense.id
      Function.injective_id (fun k _ => (d k).expenses.nodup.sublist (List.filter_sublist.map _))
      (fun k hk => grows_expense_ids (hstep k hk) t) hlast
      (List.mem_filter.2 ⟨he, decide_eq_true hfilter⟩)
    have he' := List.mem_of_mem_filter (mem_sortedDesc.1 (mem_of_mem_page hmem))
    exact ⟨k, hk, e', hmem, (hgrown k hk).expenses.eq_of_key claimed_id he he' hid⟩
  · simp only [listTransactions_none] at hlast ⊢
    obtain ⟨k, hk, r', hmem, hposition⟩ := seen_by_sorted_walk (fun k => (d k).bankTransactions.rows)
      BankTransaction.position toLex.injective
      (fun k _ => .of_map Prod.snd (by rw [List.map_map]; exact (d k).bankTransactions.nodup))
      (fun k hk => ((hstep k hk).bankTransactions.comp BankTransaction.position).sublist) hlast hr
    have hid : r'.id = r.id := congrArg Prod.snd hposition
    have hr' := mem_sortedDesc.1 (mem_of_mem_page hmem)
    exact ⟨k, hk, r', hmem, (hgrown k hk).bankTransactions.eq_of_key booked_id hr hr' hid⟩

def demoSubmit (db : Db) : Db := serve demoEnv {} db (.createTravelRequest demoTrip)

/-- A second trip is submitted after the first page. -/
def demoWalk : ℕ → Db
  | 0 => demoSubmit Db.empty
  | _ + 1 => demoSubmit (demoSubmit Db.empty)

theorem run_demoSubmit (db : Db) :
    Run (ServeStep demoEnv {}) db [(db, .createTravelRequest demoTrip)] (demoSubmit db) :=
  Run.nil.snoc rfl

/-- Pages of one trip: the new one moves the old one to the second page. -/
theorem pages_miss_nothing_shifted : (listTravelRequests (demoWalk 2) 1 (1 * 1)).map (·.id) = [1] ∧
    ∀ t ∈ (demoWalk 0).travelRequests.rows, ∃ k ≤ 2, t ∈ listTravelRequests (demoWalk k) 1 (k * 1) := by
  have hwalk : ∀ k < 2, ∃ tr, Run (ServeStep demoEnv {}) (demoWalk k) tr (demoWalk (k + 1)) := by
    intro k hk
    cases k with
    | zero => exact ⟨_, run_demoSubmit _⟩
    | succ k => exact ⟨_, .nil⟩
  refine ⟨by decide +kernel, ?_⟩
  exact (pages_miss_nothing (Function.Embedding.refl String) (run_demoSubmit _) hwalk 1).2.1 (by decide +kernel)

end ReckonFlow
