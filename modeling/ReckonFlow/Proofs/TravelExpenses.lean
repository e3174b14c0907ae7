import ReckonFlow.Proofs.TravelSessions

/-! Spend hangs off approved trips only, in every interleaving: a request checks its trip without
a lock, but no transition leads back out of APPROVED and PAID. -/

namespace ReckonFlow.TravelSession

open Lts

variable {env : Env} {req : ℕ → Request} {s s' : State} {ev : Event} {db db' : Db}

/-! ## What a commit writes -/

theorem commit_apply {w : Write} {r : Db × List Payment} (h : w.commit env db = .ok r) :
    w.apply env db = .ok r := by
  simp only [Write.commit, Except.bind_eq_ok, Except.pure_eq_ok] at h
  obtain ⟨⟨after, payments⟩, happly, _, hdone, rfl⟩ := h
  obtain rfl := commit_ok hdone
  exact happly

/-- A decision writes one approval, with or without a payment. -/
theorem apply_decision {approval : Approval} {target : ApprovalStatus}
    {reviewer notes : Option String} {payment : Option (Posting × Db)} {r : Db × List Payment}
    (h : (Write.decision approval target reviewer notes payment).apply env db = .ok r) :
    ∃ reviewer notes, r.1.approvals = db.approvals.modify approval.id
        (·.decided target reviewer notes) (Approval.decided_id target reviewer notes) ∧
      r.1.travelRequests = db.travelRequests ∧ r.1.expenses = db.expenses := by
  cases payment with
  | none =>
    obtain ⟨_, hwrite, rfl⟩ := Except.map_eq_ok.1 h
    obtain ⟨reviewer, notes, rfl⟩ := writeDecision_ok hwrite
    exact ⟨reviewer, notes, rfl, rfl, rfl⟩
  | some payment =>
    simp only [Write.apply, Except.bind_eq_ok, Except.pure_eq_ok] at h
    obtain ⟨⟨posted, txId⟩, hpost, _, hwrite, rfl⟩ := h
    obtain ⟨reviewer, notes, rfl⟩ := writeDecision_ok hwrite
    have hpost := createBalancedTransaction_ok hpost
    refine ⟨reviewer, notes, ?_, ?_, ?_⟩ <;> rw [hpost.rest]

theorem apply_post {p : Posting} {r : Db × List Payment}
    (h : (Write.post p).apply env db = .ok r) : r.1.approvals = db.approvals ∧
      r.1.travelRequests = db.travelRequests ∧ r.1.expenses = db.expenses := by
  obtain ⟨⟨posted, txId⟩, hpost, rfl⟩ := Except.map_eq_ok.1 h
  have hpost := createBalancedTransaction_ok hpost
  refine ⟨?_, ?_, ?_⟩ <;> rw [hpost.rest]

/-- A new expense has the trip and the currency of its request. -/
theorem apply_expense {f : ExpenseFields} {r : Db × List Payment}
    (h : (Write.expense f).apply env db = .ok r) :
    ∃ (mk : Id → Expense) (hmk : ∀ i, (mk i).id = i), (∀ i, (mk i).travelRequestId = f.travelRequestId) ∧
      (∀ i, varchar "currency" 3 (env.upper f.currency) = .ok (mk i).currency) ∧
      r.1 = { db with expenses := db.expenses.insert mk hmk } := by
  obtain ⟨_, hinsert, rfl⟩ := Except.map_eq_ok.1 h
  simp only [insertExpense, Except.bind_eq_ok] at hinsert
  obtain ⟨_, -, _, -, _, -, _, hcurrency, hinsert⟩ := hinsert
  split_ifs at hinsert
  exact ⟨_, _, fun _ => rfl, fun _ => hcurrency, (Except.ok.inj hinsert).symm⟩

/-! ## The invariant -/

/-- Trip `t` takes expenses in currency `c`. -/
def Admits (db : Db) (t : Id) (c : String) : Prop :=
  ∃ trip ∈ db.travelRequests.rows, trip.id = t ∧ trip.currency = c ∧
    ∃ a ∈ db.approvals.rows, a.travelRequestId = t ∧ a.status ∈ spendable

structure Attached (db : Db) : Prop where
  approval : ∀ t ∈ db.travelRequests.rows,
    ∃! a, a ∈ db.approvals.rows ∧ a.travelRequestId = t.id
  trip : ∀ a ∈ db.approvals.rows, ∃ t ∈ db.travelRequests.rows, t.id = a.travelRequestId
  expense : ∀ e ∈ db.expenses.rows, ∀ t, e.travelRequestId = some t → Admits db t e.currency

/-- What a session has checked stays true until it commits. -/
structure Checked (env : Env) (req : ℕ → Request) (s : State) : Prop where
  inv : Inv env req s
  attached : Attached s.db
  session : ∀ i f, s.phase i = .flushed (.expense f) → ∀ t, f.travelRequestId = some t →
    Admits s.db t (env.upper f.currency)

/-- No edge leaves the spendable statuses. -/
theorem allowed_spendable {current target : ApprovalStatus}
    (h : target ∈ allowedTransitions current) (hs : current ∈ spendable) : target ∈ spendable := by
  cases current <;> cases target <;> simp_all [allowedTransitions, spendable]

/-- An approval stays as it is or moves along an edge. -/
theorem Commits.status {payments : List Payment} {a : Approval} (hc : Commits env db db' payments)
    (ha : a ∈ db.approvals.rows) : ∃ a' ∈ db'.approvals.rows,
      a'.travelRequestId = a.travelRequestId ∧
        (a'.status = a.status ∨ a'.status ∈ allowedTransitions a.status) := by
  obtain ⟨a', ha', hid, htrip⟩ := hc.grows.approval a ha
  refine ⟨a', ha', htrip, ?_⟩
  rcases hc.rows a' ha' with ⟨hmem, -⟩ | ⟨hnone, -, -⟩ | ⟨b, hb, hbid, hallowed, -⟩
  · rw [Table.key_inj hmem ha hid]
    exact .inl rfl
  · rw [hid, Table.get_of_mem ha] at hnone
    cases hnone
  · obtain rfl := Table.key_inj hb ha (hbid.trans hid)
    exact .inr hallowed

theorem Admits.commits {payments : List Payment} {t : Id} {c : String} (h : Admits db t c)
    (hc : Commits env db db' payments) : Admits db' t c := by
  obtain ⟨trip, htrip, hid, hcurrency, a, ha, hat, hstatus⟩ := h
  obtain ⟨a', ha', htrip', hmoved⟩ := hc.status ha
  refine ⟨trip, hc.grows.trip _ htrip, hid, hcurrency, a', ha', htrip'.trans hat, ?_⟩
  rcases hmoved with hsame | hallowed
  · rw [hsame]
    exact hstatus
  · exact allowed_spendable hallowed hstatus

theorem checkTrip_ok {currency : String} {t : Id} {u : Unit} (h : checkTrip env db currency t = .ok u) :
    ∃ trip, db.travelRequests.get t = some trip ∧ ∃ a, approvalOf db t = some a ∧
      a.status ∈ spendable ∧ env.upper currency = env.upper trip.currency := by
  simp only [checkTrip, Except.bind_eq_ok] at h
  obtain ⟨trip, htrip, hcheck⟩ := h
  have htrip := required_eq_ok.1 htrip
  obtain ⟨-, rfl⟩ := Table.get_eq_some.1 htrip
  cases happroval : approvalOf db trip.id with
  | none => simp [happroval] at hcheck
  | some a =>
    simp only [happroval, Except.bind_eq_ok, ensure_eq_ok] at hcheck
    obtain ⟨_, hstatus, hcurrency⟩ := hcheck
    exact ⟨trip, htrip, a, rfl, hstatus, hcurrency⟩

/-- The check of a linked expense. -/
theorem admits_of_check (h : Inv env req s) {f : ExpenseFields} {t : Id}
    (hrun : createExpense env s.db f = .ok db') (ht : f.travelRequestId = some t) :
    Admits s.db t (env.upper f.currency) := by
  simp only [createExpense, ht, Except.bind_eq_ok] at hrun
  obtain ⟨_, hcheck, -⟩ := hrun
  obtain ⟨trip, htrip, a, happroval, hstatus, hcurrency⟩ := checkTrip_ok hcheck
  obtain ⟨hmem, hid⟩ := Table.get_eq_some.1 htrip
  refine ⟨trip, hmem, hid, ?_, a, List.mem_of_find?_eq_some happroval, ?_, hstatus⟩
  · rw [hcurrency, (h.consistent.trips trip hmem).1]
  · simpa using List.find?_some happroval

/-! ## Preservation -/

theorem Attached.empty : Attached Db.empty := by
  constructor <;> simp [Db.empty]

theorem Attached.frame (h : Attached db) (ha : db'.approvals = db.approvals)
    (ht : db'.travelRequests = db.travelRequests) (he : db'.expenses = db.expenses) :
    Attached db' where
  approval := by rw [ha, ht]; exact h.approval
  trip := by rw [ha, ht]; exact h.trip
  expense := by
    unfold Admits
    rw [ha, ht, he]
    exact h.expense

/-- A new trip comes with its only approval. -/
theorem Attached.insert_trip (h : Attached db) {f : TripFields} (hc : Commits env db db' [])
    (hrun : createTravelRequest env db f = .ok db') : Attached db' := by
  obtain ⟨mk, hmk, -, rfl⟩ := createTravelRequest_ok hrun
  refine ⟨fun t (ht : t ∈ (db.travelRequests.insert mk hmk).rows) => ?_, fun a ha => ?_,
    fun e he t het => (h.expense e he t het).commits hc⟩
  · rcases Table.mem_insert.1 ht with ht | rfl
    · obtain ⟨a, ⟨ha, hat⟩, honly⟩ := h.approval t ht
      refine ⟨a, ⟨Table.mem_insert.2 (.inl ha), hat⟩, ?_⟩
      rintro b ⟨hb, hbt⟩
      rcases Table.mem_insert.1 hb with hb | rfl
      · exact honly b ⟨hb, hbt⟩
      · have hlt := db.travelRequests.fresh t ht
        exact absurd hbt hlt.ne'
    · refine ⟨_, ⟨Table.mem_insert.2 (.inr rfl), (hmk _).symm⟩, ?_⟩
      rintro b ⟨hb, hbt⟩
      rcases Table.mem_insert.1 hb with hb | rfl
      · obtain ⟨t, ht, hid⟩ := h.trip b hb
        have hlt := db.travelRequests.fresh t ht
        rw [hid, hbt, hmk] at hlt
        exact absurd hlt (lt_irrefl _)
      · rfl
  · rcases Table.mem_insert.1 ha with ha | rfl
    · obtain ⟨t, ht, hid⟩ := h.trip a ha
      exact ⟨t, Table.mem_insert_of_mem mk hmk ht, hid⟩
    · exact ⟨_, Table.mem_insert_self _ mk hmk, hmk _⟩

theorem Attached.decide (h : Attached db) {id : Id} {target : ApprovalStatus}
    {reviewer notes : Option String} {payments : List Payment} (hc : Commits env db db' payments)
    (ha : db'.approvals = db.approvals.modify id (·.decided target reviewer notes)
      (Approval.decided_id target reviewer notes))
    (ht : db'.travelRequests = db.travelRequests) (he : db'.expenses = db.expenses) :
    Attached db' := by
  have htrip : ∀ b : Approval, (if b.id = id then b.decided target reviewer notes else b).travelRequestId =
      b.travelRequestId := by
    intro b
    split_ifs <;> rfl
  refine ⟨fun t htr => ?_, fun a hmem => ?_, fun e hmem t het => ?_⟩
  · rw [ht] at htr
    obtain ⟨a, ⟨hmem, hat⟩, honly⟩ := h.approval t htr
    rw [ha]
    refine ⟨_, ⟨mem_decided.2 ⟨a, hmem, rfl⟩, (htrip a).trans hat⟩, ?_⟩
    rintro b ⟨hb, hbt⟩
    obtain ⟨c, hcmem, rfl⟩ := mem_decided.1 hb
    rw [honly c ⟨hcmem, (htrip c).symm.trans hbt⟩]
  · rw [ha] at hmem
    obtain ⟨b, hb, rfl⟩ := mem_decided.1 hmem
    rw [ht, htrip]
    exact h.trip b hb
  · rw [he] at hmem
    exact (h.expense e hmem t het).commits hc

theorem Attached.insert_expense (h : Attached db) {mk : Id → Expense} {hmk : ∀ i, (mk i).id = i}
    (hnew : ∀ t, (mk db.expenses.next).travelRequestId = some t →
      Admits db t (mk db.expenses.next).currency) :
    Attached { db with expenses := db.expenses.insert mk hmk } where
  approval := h.approval
  trip := h.trip
  expense := by
    intro e (he : e ∈ (db.expenses.insert mk hmk).rows)
    rcases Table.mem_insert.1 he with he | rfl
    · exact h.expense e he
    · exact hnew

/-- The rows of a flushed session, on the tables of the moment. -/
theorem Checked.apply (h : Checked env req s) {i : ℕ} {w : Write} {r : Db × List Payment}
    (hphase : s.phase i = .flushed w) (happly : w.apply env s.db = .ok r) : Attached r.1 := by
  obtain ⟨hc, -⟩ := h.inv.apply hphase happly
  cases w with
  | decision approval target reviewer notes payment =>
    obtain ⟨reviewer, notes, ha, ht, he⟩ := apply_decision happly
    exact h.attached.decide hc ha ht he
  | post p =>
    obtain ⟨ha, ht, he⟩ := apply_post happly
    exact h.attached.frame ha ht he
  | expense f =>
    obtain ⟨mk, hmk, htrip, hcurrency, hdb⟩ := apply_expense happly
    rw [hdb]
    refine h.attached.insert_expense fun t ht => ?_
    have hadmits := h.session i f hphase t ((htrip _).symm.trans ht)
    obtain ⟨trip, hmem, hid, htripCurrency, hrest⟩ := hadmits
    refine ⟨trip, hmem, hid, ?_, hrest⟩
    -- the trip's currency is stored as it is, and so is the expense's
    have hstored := (h.inv.consistent.trips trip hmem).2
    rw [htripCurrency] at hstored ⊢
    exact Except.ok.inj (hstored.symm.trans (hcurrency _))

/-- A step that leaves the tables as they are. -/
theorem Checked.move (h : Checked env req s) {s₁ : State} {i : ℕ} {p : Phase}
    (hinv : Inv env req (s₁.setPhase i p)) (hdb : s₁.db = s.db) (hphase : s₁.phase = s.phase)
    (hp : ∀ f, p = .flushed (.expense f) → ∀ t, f.travelRequestId = some t →
      Admits s.db t (env.upper f.currency)) : Checked env req (s₁.setPhase i p) where
  inv := hinv
  attached := by
    rw [show (s₁.setPhase i p).db = s.db from hdb]
    exact h.attached
  session := by
    rw [show (s₁.setPhase i p).db = s.db from hdb]
    intro j f hj
    by_cases hji : j = i
    · subst hji
      rw [setPhase_self] at hj
      exact hp f hj
    · rw [setPhase_of_ne _ _ hji, hphase] at hj
      exact h.session j f hj

theorem Checked.publish (h : Checked env req s) (hinv : Inv env req (s.publish db' []))
    (hc : Commits env s.db db' []) (ha : Attached db') : Checked env req (s.publish db' []) where
  inv := hinv
  attached := ha
  session := fun i f hi t ht => (h.session i f hi t ht).commits hc

theorem Checked.step (h : Checked env req s) (hs : step env req s ev = some s') :
    Checked env req s' := by
  have hinv := h.inv.step hs
  cases moved_of_step hs with
  | refused => exact h
  | account hrun =>
    refine h.publish hinv (.account h.inv.consistent.entries hrun) ?_
    obtain ⟨_, _, _, -, -, rfl⟩ := createAccount_ok hrun
    exact h.attached.frame rfl rfl rfl
  | trip hrun =>
    have hc := Commits.trip h.inv.consistent.entries hrun
    exact h.publish hinv hc (h.attached.insert_trip hc hrun)
  | locked => exact h.move hinv rfl rfl (by rintro f ⟨⟩)
  | priced => exact h.move hinv rfl rfl (by rintro f ⟨⟩)
  | paying => exact h.move hinv rfl rfl (by rintro f ⟨⟩)
  | posted => exact h.move hinv rfl rfl (by rintro f ⟨⟩)
  | unpaid => exact h.move hinv rfl rfl (by rintro f ⟨⟩)
  | paid => exact h.move hinv rfl rfl (by rintro f ⟨⟩)
  | attached hphase hreq hrun =>
    refine h.move hinv rfl rfl fun f hf t ht => ?_
    obtain rfl := Write.expense.inj (Phase.flushed.inj hf)
    exact admits_of_check h.inv hrun ht
  | @committed i _ _ hphase hcommit =>
    have happly := commit_apply hcommit
    obtain ⟨hc, -⟩ := h.inv.apply hphase happly
    refine ⟨hinv, h.apply hphase happly, fun j f hj t ht => ?_⟩
    refine (h.session j f ?_ t ht).commits hc
    by_cases hji : j = i
    · subst hji
      rw [setPhase_self] at hj
      cases hj
    · rw [setPhase_of_ne _ _ hji] at hj
      exact hj
  | dropped hp =>
    refine h.move hinv rfl rfl ?_
    rcases hp with rfl | ⟨err, rfl⟩ <;> rintro f ⟨⟩

theorem Checked.init : Checked env req State.init :=
  ⟨Inv.init, Attached.empty, fun i f hi => by cases hi⟩

/-- In every reachable state each trip has exactly one approval, an expense of a trip is in its
currency and the approval APPROVED or PAID; so no pending or rejected trip has an expense. -/
theorem spend_on_approved {tr : List (State × Event)}
    (hrun : Run (Fires (TravelSession.step env req)) State.init tr s) :
    (∀ t ∈ s.db.travelRequests.rows, ∃! a, a ∈ s.db.approvals.rows ∧ a.travelRequestId = t.id) ∧
      (∀ e ∈ s.db.expenses.rows, ∀ t, e.travelRequestId = some t →
        ∃ trip ∈ s.db.travelRequests.rows, trip.id = t ∧ trip.currency = e.currency ∧
          ∃ a ∈ s.db.approvals.rows, a.travelRequestId = t ∧
            (a.status = .approved ∨ a.status = .paid)) ∧
      ∀ a ∈ s.db.approvals.rows, a.status = .pending ∨ a.status = .rejected →
        ∀ e ∈ s.db.expenses.rows, e.travelRequestId ≠ some a.travelRequestId := by
  have h : Attached s.db :=
    (hrun.invariant Checked.init fun _ _ _ hi hs => Checked.step hi hs).attached
  have hspendable : ∀ status : ApprovalStatus, status ∈ spendable ↔ status = .approved ∨ status = .paid := by
    intro status
    cases status <;> simp [spendable]
  simp only [← hspendable]
  refine ⟨h.approval, h.expense, fun a ha hstatus e he htrip => ?_⟩
  obtain ⟨trip, hmem, hid, -, b, hb, hbt, hspent⟩ := h.expense e he _ htrip
  obtain ⟨c, -, honly⟩ := h.approval trip hmem
  obtain rfl : a = b := (honly a ⟨ha, hid.symm⟩).trans (honly b ⟨hb, hbt.trans hid.symm⟩).symm
  rcases hstatus with hstatus | hstatus <;> simp [hstatus, spendable] at hspent

/-- The expense of the race, checked before the trip was paid. -/
theorem spend_on_approved_race : ∃ tr s,
    Run (Fires (step demoEnv demoRequests)) State.init tr s ∧
      s.db.expenses.rows.map (·.travelRequestId) = [some 1] ∧
      ∀ a ∈ s.db.approvals.rows, a.status = .pending ∨ a.status = .rejected →
        ∀ e ∈ s.db.expenses.rows, e.travelRequestId ≠ some a.travelRequestId := by
  have hdemo : (drive (step demoEnv demoRequests) State.init demoEvents).map
      (·.2.db.expenses.rows.map (·.travelRequestId)) = some [some 1] := by decide +kernel
  obtain ⟨⟨tr, s⟩, hdrive, hexpenses⟩ := Option.map_eq_some_iff.1 hdemo
  have hrun := run_of_drive hdrive
  exact ⟨tr, s, hrun, hexpenses, (spend_on_approved hrun).2.2⟩

end ReckonFlow.TravelSession
