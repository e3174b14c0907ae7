import ReckonFlow.Proofs.TravelExpenses

/-! What a payment sums up: an expense that commits after the sum was read and before the payment
commits is left out of it, and no other. -/

namespace ReckonFlow.TravelSession

open Lts

variable {env : Env} {req : ℕ → Request} {s s' : State} {ev : Event} {db db' : Db}

/-! ## Single steps -/

theorem step_tables (h : Inv env req s) (hs : step env req s ev = some s') :
    s'.db = s.db ∨ ∃ payments, Commits env s.db s'.db payments := by
  cases moved_of_step hs with
  | account hrun => exact .inr ⟨_, .account h.consistent.entries hrun⟩
  | trip hrun => exact .inr ⟨_, .trip h.consistent.entries hrun⟩
  | committed hphase hcommit => exact .inr ⟨_, (h.apply hphase (commit_apply hcommit)).1⟩
  | _ => exact .inl rfl

/-- Expenses are only added. -/
theorem step_expenses (hs : step env req s ev = some s') :
    s.db.expenses.next ≤ s'.db.expenses.next ∧
      ∀ e ∈ s.db.expenses.rows, e ∈ s'.db.expenses.rows := by
  have hsame : s'.db.expenses = s.db.expenses → s.db.expenses.next ≤ s'.db.expenses.next ∧
      ∀ e ∈ s.db.expenses.rows, e ∈ s'.db.expenses.rows := by
    intro h
    rw [h]
    exact ⟨le_rfl, fun _ he => he⟩
  cases moved_of_step hs with
  | account hrun =>
    obtain ⟨_, _, _, -, -, rfl⟩ := createAccount_ok hrun
    exact hsame rfl
  | trip hrun =>
    obtain ⟨_, _, -, rfl⟩ := createTravelRequest_ok hrun
    exact hsame rfl
  | @committed _ w r hphase hcommit =>
    have happly := commit_apply hcommit
    cases w with
    | decision approval target reviewer notes payment =>
      obtain ⟨_, _, -, -, he⟩ := apply_decision happly
      exact hsame he
    | post p => exact hsame (apply_post happly).2.2
    | expense f =>
      obtain ⟨mk, hmk, -, -, hdb⟩ := apply_expense happly
      have hexpenses : r.1.expenses = s.db.expenses.insert mk hmk := by rw [hdb]
      show s.db.expenses.next ≤ r.1.expenses.next ∧ ∀ e ∈ s.db.expenses.rows, e ∈ r.1.expenses.rows
      rw [hexpenses]
      refine ⟨?_, fun e he => Table.mem_insert_of_mem mk hmk he⟩
      simp only [Table.insert]
      omega
  | _ => exact hsame rfl

/-- What a step does to session `j`. -/
inductive Shift (env : Env) (s : State) (ev : Event) (j : ℕ) : Phase → Phase → Prop
  | stay {p : Phase} : Shift env s ev j p p
  | locked {approval : Approval} : Shift env s ev j .idle (.decided approval)
  | priced {approval : Approval} {posting : Posting} (hev : ev = .price j) :
      Shift env s ev j (.decided approval) (.priced approval posting s.db)
  | paying {approval : Approval} {posting : Posting} {seen : Db} :
      Shift env s ev j (.priced approval posting seen) (.paying approval posting seen)
  | posted {p : Posting} : Shift env s ev j .idle (.flushed (.post p))
  | unpaid {approval : Approval} {target : ApprovalStatus} {reviewer notes : Option String} :
      Shift env s ev j (.decided approval) (.flushed (.decision approval target reviewer notes none))
  | paid {approval : Approval} {target : ApprovalStatus} {reviewer notes : Option String}
      {posting : Posting} {seen : Db} : Shift env s ev j (.paying approval posting seen)
        (.flushed (.decision approval target reviewer notes (some (posting, seen))))
  | attached {f : ExpenseFields} {db' : Db} (hev : ev = .expense j)
      (h : createExpense env s.db f = .ok db') : Shift env s ev j .idle (.flushed (.expense f))
  | committed {w : Write} : Shift env s ev j (.flushed w) .committed
  | dropped {p q : Phase} (h : Dropped p) : Shift env s ev j q p

/-- Only the session of the step moves. -/
theorem shift_setPhase {s₁ : State} {i j : ℕ} {p q : Phase} (hphase : s₁.phase = s.phase)
    (hi : s.phase i = q) (h : i = j → Shift env s ev j q p) :
    Shift env s ev j (s.phase j) ((s₁.setPhase i p).phase j) := by
  by_cases hj : j = i
  · subst hj
    rw [setPhase_self, hi]
    exact h rfl
  · rw [setPhase_of_ne _ _ hj, hphase]
    exact .stay

theorem shift_of_step (hs : step env req s ev = some s') (j : ℕ) :
    Shift env s ev j (s.phase j) (s'.phase j) := by
  cases moved_of_step hs with
  | refused => exact .stay
  | account => exact .stay
  | trip => exact .stay
  | locked hphase => exact shift_setPhase rfl hphase fun _ => .locked
  | priced hphase => exact shift_setPhase rfl hphase fun hj => .priced (by rw [hj])
  | paying hphase => exact shift_setPhase rfl hphase fun _ => .paying
  | posted hphase => exact shift_setPhase rfl hphase fun _ => .posted
  | unpaid hphase => exact shift_setPhase rfl hphase fun _ => .unpaid
  | paid hphase => exact shift_setPhase rfl hphase fun _ => .paid
  | attached hphase hreq hrun =>
    exact shift_setPhase rfl hphase fun hj => .attached (by rw [hj]) hrun
  | committed hphase => exact shift_setPhase rfl hphase fun _ => .committed
  | dropped hp => exact shift_setPhase rfl rfl fun _ => .dropped hp

/-! ## The sum a session carries -/

theorem seenOf_dropped {p : Phase} (h : Dropped p) : seenOf p = none := by
  rcases h with rfl | ⟨err, rfl⟩ <;> rfl

/-- Only pricing makes a session carry a sum. -/
theorem seenOf_step {i : ℕ} (hs : step env req s ev = some s')
    (h : seenOf (s'.phase i) = some db) :
    seenOf (s.phase i) = some db ∨ ev = .price i ∧ s.db = db := by
  have hshift := shift_of_step hs i
  generalize s.phase i = p at hshift
  generalize s'.phase i = p' at hshift h
  cases hshift with
  | priced hev => exact .inr ⟨hev, Option.some.inj h⟩
  | dropped hp => rw [seenOf_dropped hp] at h; cases h
  | locked => cases h
  | posted => cases h
  | unpaid => cases h
  | attached => cases h
  | committed => cases h
  | _ => exact .inl h

/-- The session still carries the sum of `seen`, or has ended. -/
def Carries (seen : Db) (p : Phase) : Prop :=
  seenOf p = some seen ∨ p = .committed ∨ Dropped p

theorem Carries.step {i : ℕ} {seen : Db} (h : Carries seen (s.phase i))
    (hs : step env req s ev = some s') : Carries seen (s'.phase i) := by
  have hshift := shift_of_step hs i
  generalize s.phase i = p at hshift h
  generalize s'.phase i = p' at hshift
  cases hshift with
  | stay => exact h
  | committed => exact .inr (.inl rfl)
  | dropped hp => exact .inr (.inr hp)
  | paying => simpa [Carries, Dropped, seenOf] using h
  | paid => simpa [Carries, Dropped, seenOf] using h
  | _ => simp [Carries, Dropped, seenOf] at h

/-- What follows a pricing carries the tables it read. -/
theorem carries_of_price {i : ℕ} {tr : List (State × Event)} {s₁ s₂ : State}
    (hs : step env req s (.price i) = some s₁)
    (hrun : Run (Fires (TravelSession.step env req)) s₁ tr s₂) : Carries s.db (s₂.phase i) := by
  refine hrun.invariant ?_ fun _ _ _ h hs => Carries.step h hs
  simp only [TravelSession.step] at hs
  split at hs
  · obtain rfl := Option.some.inj hs
    split
    · rw [setPhase_self]
      exact .inl rfl
    · rw [State.fail, setPhase_self]
      exact .inr (.inr (.inr ⟨_, rfl⟩))
  · cases hs

/-! ## The property and its condition -/

/-- The step commits a payment of trip `t`, with the sum read from `seen`. -/
def Pays (env : Env) (p : State × Event) (i : ℕ) (t : Id) (posting : Posting) (seen : Db) : Prop :=
  p.2 = .commit i ∧ ∃ approval target reviewer notes r,
    p.1.phase i = .flushed (.decision approval target reviewer notes (some (posting, seen))) ∧
      approval.travelRequestId = t ∧
      (Write.decision approval target reviewer notes (some (posting, seen))).commit env p.1.db = .ok r

/-- The step commits an expense of trip `t`; its row gets the next id. -/
def Attaches (env : Env) (q : State × Event) (j : ℕ) (t : Id) : Prop :=
  q.2 = .commit j ∧ ∃ f r, q.1.phase j = .flushed (.expense f) ∧ f.travelRequestId = some t ∧
    (Write.expense f).commit env q.1.db = .ok r

/-- Session `j` read the approval of `t` as APPROVED. -/
def ReadApproved (tr : List (State × Event)) (j : ℕ) (t : Id) : Prop :=
  ∃ q ∈ tr, q.2 = .expense j ∧ ∃ a, approvalOf q.1.db t = some a ∧ a.status = .approved

/-- Every expense committed before a payment of its trip is among the rows summed up. -/
def EveryExpenseCounts (env : Env) (tr : List (State × Event)) : Prop :=
  ∀ tr₁ p tr₂, tr = tr₁ ++ p :: tr₂ → ∀ i t posting seen, Pays env p i t posting seen →
    ∀ q ∈ tr₁, ∀ j, Attaches env q j t → ReadApproved tr₁ j t →
      ∃ e ∈ seen.expenses.rows, e.id = q.1.db.expenses.next ∧ e.travelRequestId = some t

/-- No expense of the trip commits between the reading of the sum and the payment's commit. -/
def NoneBetween (env : Env) (tr : List (State × Event)) : Prop :=
  ∀ tr₁ s₁ i tr₂ p tr₃, tr = tr₁ ++ (s₁, .price i) :: (tr₂ ++ p :: tr₃) →
    ∀ t posting seen, Pays env p i t posting seen → ∀ q ∈ tr₂, ∀ j, ¬ Attaches env q j t

/-- The row of an expense stays. -/
theorem Attaches.row {q : State × Event} {j : ℕ} {t : Id} {tr : List (State × Event)}
    (h : Attaches env q j t) (hs : step env req q.1 q.2 = some s')
    (hrun : Run (Fires (TravelSession.step env req)) s' tr s) :
    ∃ e ∈ s.db.expenses.rows, e.id = q.1.db.expenses.next ∧ e.travelRequestId = some t := by
  obtain ⟨hev, f, r, hphase, htrip, hcommit⟩ := h
  obtain ⟨mk, hmk, hmktrip, -, hdb⟩ := apply_expense (commit_apply hcommit)
  have hs' : s'.db = r.1 := by
    rw [hev] at hs
    simp only [TravelSession.step, hphase, hcommit] at hs
    rw [← Option.some.inj hs]
    rfl
  have hrow : mk q.1.db.expenses.next ∈ s.db.expenses.rows := by
    refine hrun.invariant (I := fun s => mk q.1.db.expenses.next ∈ s.db.expenses.rows) ?_
      fun _ _ _ he hs => (step_expenses hs).2 _ he
    rw [hs', hdb]
    exact Table.mem_insert_self _ mk hmk
  exact ⟨_, hrow, hmk _, (hmktrip _).trans htrip⟩

/-- An approval of trip `t` is PAID. -/
def PaidTrip (db : Db) (t : Id) : Prop :=
  ∃ a ∈ db.approvals.rows, a.travelRequestId = t ∧ a.status = .paid

theorem PaidTrip.step {t : Id} (h : PaidTrip s.db t) (hi : Inv env req s)
    (hs : step env req s ev = some s') : PaidTrip s'.db t := by
  rcases step_tables hi hs with heq | ⟨payments, hc⟩
  · rw [heq]
    exact h
  · obtain ⟨a, ha, hat, hpaid⟩ := h
    obtain ⟨a', ha', hat', hsame | hallowed⟩ := hc.status ha
    · exact ⟨a', ha', hat'.trans hat, hsame.trans hpaid⟩
    · rw [hpaid] at hallowed
      cases hallowed

/-- The trip of a payment under way is not PAID. -/
theorem Pays.not_paid {p : State × Event} {i : ℕ} {t : Id} {posting : Posting} {seen : Db}
    (h : Pays env p i t posting seen) (hc : Checked env req p.1) : ¬ PaidTrip p.1.db t := by
  obtain ⟨-, approval, target, reviewer, notes, r, hphase, htrip, -⟩ := h
  obtain ⟨rfl, howns, -⟩ := hc.inv.phase_of hphase
  rintro ⟨a, ha, hat, hpaid⟩
  obtain ⟨hmem, -⟩ := Table.get_eq_some.1 howns.row
  obtain ⟨trip, htripRow, hid⟩ := hc.attached.trip approval hmem
  obtain ⟨b, -, honly⟩ := hc.attached.approval trip htripRow
  have heq : a = approval := (honly a ⟨ha, by rw [hat, hid, htrip]⟩).trans (honly approval ⟨hmem, hid.symm⟩).symm
  have hallowed := howns.allowed
  rw [← heq, hpaid] at hallowed
  cases hallowed

/-- Whoever linked an expense to the trip before its payment read APPROVED. -/
theorem Pays.approved_before {i : ℕ} {t : Id} {p q : State × Event} {posting : Posting} {seen : Db}
    {tr : List (State × Event)} {f : ExpenseFields} (hpays : Pays env p i t posting seen)
    (hq : Checked env req q.1) (hrun : Run (Fires (TravelSession.step env req)) q.1 tr p.1)
    (hcheck : createExpense env q.1.db f = .ok db) (htrip : f.travelRequestId = some t) :
    ∃ a, approvalOf q.1.db t = some a ∧ a.status = .approved := by
  simp only [createExpense, htrip, Except.bind_eq_ok] at hcheck
  obtain ⟨_, hcheck, -⟩ := hcheck
  obtain ⟨-, -, a, happroval, hstatus, -⟩ := checkTrip_ok hcheck
  refine ⟨a, happroval, ?_⟩
  by_contra hne
  have hpaid : a.status = .paid := by
    revert hstatus hne
    cases a.status <;> simp [spendable]
  have hinv : Checked env req p.1 ∧ PaidTrip p.1.db t := by
    refine hrun.invariant (I := fun s => Checked env req s ∧ PaidTrip s.db t) ?_
      fun _ _ _ h hs => ⟨h.1.step hs, h.2.step h.1.inv hs⟩
    exact ⟨hq, a, List.mem_of_find?_eq_some happroval, by simpa using List.find?_some happroval, hpaid⟩
  exact hpays.not_paid hinv.1 hinv.2

/-! ## Runs -/

theorem checked_of_run {tr : List (State × Event)}
    (hrun : Run (Fires (TravelSession.step env req)) State.init tr s) : Checked env req s :=
  hrun.invariant Checked.init fun _ _ _ h hs => h.step hs

/-- A flushed expense was checked in the run. -/
theorem checked_before {tr : List (State × Event)} {j : ℕ} {f : ExpenseFields}
    (hrun : Run (Fires (TravelSession.step env req)) State.init tr s)
    (hphase : s.phase j = .flushed (.expense f)) :
    ∃ q ∈ tr, q.2 = .expense j ∧ ∃ db', createExpense env q.1.db f = .ok db' := by
  refine hrun.origin (P := fun s => s.phase j = .flushed (.expense f))
    (o := fun s ev => ev = .expense j ∧ ∃ db', createExpense env s.db f = .ok db') (by rintro ⟨⟩)
    (fun s ev s' hs h => ?_) hphase
  have hshift := shift_of_step hs j
  rw [h] at hshift
  generalize s.phase j = p at hshift
  cases hshift with
  | stay => exact .inl rfl
  | attached hev hcheck => exact .inr ⟨hev, _, hcheck⟩
  | dropped hp => rcases hp with hp | ⟨err, hp⟩ <;> cases hp

/-- An expense committed before the sum is read is in it. -/
theorem counts_of_none {tr : List (State × Event)}
    (hrun : Run (Fires (TravelSession.step env req)) State.init tr s) (h : NoneBetween env tr) :
    EveryExpenseCounts env tr := by
  rintro tr₁ p tr₂ rfl i t posting seen hpays q hq j hattaches -
  obtain ⟨_, hbefore, -⟩ := hrun.split
  have hpays' := hpays
  obtain ⟨-, approval, target, reviewer, notes, r, hphase, -⟩ := hpays'
  obtain ⟨⟨s₁, ev⟩, hx, rfl, rfl⟩ := hbefore.origin
    (P := fun s => seenOf (s.phase i) = some seen) (o := fun s ev => ev = .price i ∧ s.db = seen)
    (by rintro ⟨⟩) (fun s ev s' hs h => seenOf_step hs h) (by rw [hphase]; rfl)
  obtain ⟨a, b, rfl⟩ := List.append_of_mem hx
  rcases List.mem_append.1 hq with hqa | hqb
  · obtain ⟨a₁, a₂, rfl⟩ := List.append_of_mem hqa
    obtain ⟨_, hprice, -⟩ := hbefore.split
    obtain ⟨s', -, hstep, hafter⟩ := hprice.split
    exact hattaches.row hstep hafter
  · rcases List.mem_cons.1 hqb with rfl | hqb
    · cases hattaches.1
    · have heq : a ++ (s₁, Event.price i) :: b ++ p :: tr₂ =
          a ++ (s₁, .price i) :: (b ++ p :: tr₂) := by simp
      exact absurd hattaches (h a s₁ i b p tr₂ heq t posting s₁.db hpays q hqb j)

/-- An expense committed after the sum is read is not in it. -/
theorem none_of_counts {tr : List (State × Event)}
    (hrun : Run (Fires (TravelSession.step env req)) State.init tr s)
    (h : EveryExpenseCounts env tr) : NoneBetween env tr := by
  rintro a s₁ i tr₂ p c rfl t posting seen hpays q hq j hattaches
  obtain ⟨b, d, rfl⟩ := List.append_of_mem hq
  have hpays' := hpays
  have hattaches' := hattaches
  obtain ⟨-, approval, target, reviewer, notes, r, hphase, -⟩ := hpays'
  obtain ⟨-, f, -, hflushed, htrip, -⟩ := hattaches'
  -- the run, cut at the reading of the sum, the expense and the payment
  obtain ⟨s₁', hprice, hpriced, hrest⟩ := hrun.split
  obtain ⟨_, hpay, -⟩ := hrest.split
  obtain ⟨s', hattach, hattached, hlast⟩ := hpay.split
  have hq' : Run (Fires (TravelSession.step env req)) State.init (a ++ (s₁, .price i) :: b) q.1 :=
    hprice.append (hattach.cons hpriced)
  have hp : Run (Fires (TravelSession.step env req)) q.1 (q :: d) p.1 := hlast.cons hattached
  obtain ⟨x, hx, hread, db', hcheck⟩ := checked_before hq' hflushed
  have happroved : ∃ a, approvalOf x.1.db t = some a ∧ a.status = .approved := by
    obtain ⟨x₁, x₂, hsplit⟩ := List.append_of_mem hx
    rw [hsplit] at hq'
    obtain ⟨x', hx₁, hxstep, hx₂⟩ := hq'.split
    exact hpays.approved_before (checked_of_run hx₁) ((hx₂.cons hxstep).append hp) hcheck htrip
  have hreads : ReadApproved (a ++ (s₁, .price i) :: (b ++ q :: d)) j t :=
    ⟨x, by simp only [List.mem_append, List.mem_cons] at hx ⊢; tauto, hread, happroved⟩
  obtain ⟨e, he, hid, -⟩ := h (a ++ (s₁, .price i) :: (b ++ q :: d)) p c (by simp) i t posting seen
    hpays q (by simp) j hattaches hreads
  have hseen : seen = s₁.db := by
    have hcarries := carries_of_price hpriced (hattach.append hp)
    rw [hphase] at hcarries
    simpa [Carries, Dropped, seenOf] using hcarries
  have hle : s₁.db.expenses.next ≤ q.1.db.expenses.next :=
    (hattach.cons hpriced).invariant (I := fun s => s₁.db.expenses.next ≤ s.db.expenses.next) le_rfl
      fun _ _ _ h hs => h.trans (step_expenses hs).1
  have hlt := s₁.db.expenses.fresh e (hseen ▸ he)
  rw [hid] at hlt
  exact absurd hle (not_le.2 hlt)

/-- In every interleaving the payments of a run count every expense that was checked against an
approved trip and committed before them, exactly when no expense commits between the reading of
its trip's sum and the payment. What is posted is the sum read. -/
theorem every_expense_counts_iff {tr : List (State × Event)}
    (hrun : Run (Fires (TravelSession.step env req)) State.init tr s) :
    (EveryExpenseCounts env tr ↔ NoneBetween env tr) ∧
      ∀ p ∈ tr, ∀ i t posting seen, Pays env p i t posting seen →
        ∃ trip travel cash, p.1.db.travelRequests.get t = some trip ∧
          posting.lines = paymentLines travel cash trip (paidAmount seen trip) := by
  refine ⟨⟨none_of_counts hrun, counts_of_none hrun⟩, fun p hp i t posting seen hpays => ?_⟩
  obtain ⟨tr₁, tr₂, rfl⟩ := List.append_of_mem hp
  obtain ⟨_, hbefore, -⟩ := hrun.split
  obtain ⟨-, approval, target, reviewer, notes, r, hphase, rfl, -⟩ := hpays
  obtain ⟨-, -, trip, travel, cash, hpriced⟩ := (checked_of_run hbefore).inv.phase_of hphase
  exact ⟨trip, travel, cash, hpriced.trip_row, by rw [hpriced.lines, payable_eq]⟩

/-! ## Two races -/

/-- The step reads a sum. -/
def pricing (p : State × Event) : Bool :=
  match p.2 with
  | .price _ => true
  | _ => false

/-- The step commits no expense. -/
def sparing (p : State × Event) : Bool :=
  match p.2 with
  | .commit j => match p.1.phase j with
      | .flushed (.expense _) => false
      | _ => true
  | _ => true

theorem mem_dropWhile_of_after {α : Type} {f : α → Bool} {l l' : List α} {a x : α}
    (ha : f a = false) (hx : x ∈ l') : x ∈ (l ++ a :: l').dropWhile f := by
  induction l with
  | nil => simp [ha, hx]
  | cons b l ih =>
    rw [List.cons_append, List.dropWhile_cons]
    split_ifs
    · exact ih
    · simp [hx]

/-- When no expense commits after the first reading of a sum, none does in between. -/
theorem noneBetween_of_sparing {tr : List (State × Event)}
    (h : (tr.dropWhile fun p => !pricing p).all sparing = true) : NoneBetween env tr := by
  rintro tr₁ s₁ i tr₂ p tr₃ rfl t posting seen - q hq j ⟨hev, f, r, hphase, -⟩
  have hmem := mem_dropWhile_of_after (f := fun p => !pricing p) (l := tr₁)
    (show (!pricing (s₁, Event.price i)) = false from rfl) (List.mem_append_left (p :: tr₃) hq)
  have hsparing := List.all_eq_true.1 h q hmem
  simp [sparing, hev, hphase] at hsparing

theorem every_expense_counts_iff_before : ∃ tr s,
    Run (Fires (step demoEnv demoRequests)) State.init tr s ∧ s.payments.length = 1 ∧
      EveryExpenseCounts demoEnv tr := by
  have hdemo : (drive (step demoEnv demoRequests) State.init demoEvents).map (fun r =>
      (r.2.payments.length, (r.1.dropWhile fun p => !pricing p).all sparing)) = some (1, true) := by
    decide +kernel
  obtain ⟨⟨tr, s⟩, hdrive, heq⟩ := Option.map_eq_some_iff.1 hdemo
  obtain ⟨hpayments, hsparing⟩ := Prod.mk.inj heq
  have hrun := run_of_drive hdrive
  exact ⟨tr, s, hrun, hpayments, (every_expense_counts_iff hrun).1.2 (noneBetween_of_sparing hsparing)⟩

/-- The expense commits after the sum is read. -/
def demoLate : List Event :=
  [.account "CASH" "Cash" "eur", .account "TRAVEL" "Travel expenses" "EUR", .trip demoTrip,
    .lock 0, .decide 0, .commit 0, .expense 3, .lock 1, .price 1, .commit 3, .post 1, .decide 1,
    .commit 1]

/-- Session 1 commits a payment of trip 1 from tables without expenses. -/
def demoPays (p : State × Event) : Bool :=
  match p.2, p.1.phase 1 with
  | .commit 1, .flushed (.decision approval target reviewer notes (some (posting, seen))) =>
      ((Write.decision approval target reviewer notes (some (posting, seen))).commit demoEnv
        p.1.db).isOk && approval.travelRequestId = 1 && seen.expenses.rows.isEmpty
  | _, _ => false

def demoAttaches (q : State × Event) : Bool :=
  match q.2, q.1.phase 3 with
  | .commit 3, .flushed (.expense f) =>
      ((Write.expense f).commit demoEnv q.1.db).isOk && f.travelRequestId = some 1
  | _, _ => false

def demoReads (q : State × Event) : Bool :=
  match q.2, approvalOf q.1.db 1 with
  | .expense 3, some a => a.status = .approved
  | _, _ => false

theorem pays_of_demo {p : State × Event} (h : demoPays p = true) :
    ∃ posting seen, Pays demoEnv p 1 1 posting seen ∧ seen.expenses.rows = [] := by
  unfold demoPays at h
  split at h
  · rename_i hev hphase
    simp only [Bool.and_eq_true, decide_eq_true_eq, List.isEmpty_iff] at h
    obtain ⟨⟨hok, htrip⟩, hempty⟩ := h
    obtain ⟨r, hr⟩ := Except.isOk_iff.1 hok
    exact ⟨_, _, ⟨hev, _, _, _, _, r, hphase, htrip, hr⟩, hempty⟩
  · cases h

theorem attaches_of_demo {q : State × Event} (h : demoAttaches q = true) : Attaches demoEnv q 3 1 := by
  unfold demoAttaches at h
  split at h
  · rename_i hev hphase
    simp only [Bool.and_eq_true, decide_eq_true_eq] at h
    obtain ⟨r, hr⟩ := Except.isOk_iff.1 h.1
    exact ⟨hev, _, r, hphase, h.2, hr⟩
  · cases h

theorem reads_of_demo {q : State × Event} (h : demoReads q = true) :
    q.2 = .expense 3 ∧ ∃ a, approvalOf q.1.db 1 = some a ∧ a.status = .approved := by
  unfold demoReads at h
  split at h
  · rename_i hev happroval
    exact ⟨hev, _, happroval, of_decide_eq_true h⟩
  · cases h

/-- The payment sums up the tables of before the expense and commits after it. -/
theorem every_expense_counts_fails : ¬ ∀ (env : Env) (req : ℕ → Request) (tr : List (State × Event))
    (s : State), Run (Fires (step env req)) State.init tr s → EveryExpenseCounts env tr := by
  intro hall
  have hdemo : (drive (step demoEnv demoRequests) State.init demoLate).map (fun r =>
      r.1.getLast?.any demoPays && (r.1.dropLast.any demoAttaches && r.1.dropLast.any demoReads)) =
        some true := by decide +kernel
  obtain ⟨⟨tr, s⟩, hdrive, heq⟩ := Option.map_eq_some_iff.1 hdemo
  simp only [Bool.and_eq_true, Option.any_eq_true, List.any_eq_true] at heq
  obtain ⟨⟨p, hp, hpays⟩, ⟨q, hq, hattaches⟩, x, hx, hreads⟩ := heq
  obtain ⟨posting, seen, hpays, hempty⟩ := pays_of_demo hpays
  have hsplit : tr = tr.dropLast ++ p :: [] := (List.dropLast_append_getLast? p hp).symm
  obtain ⟨e, he, -⟩ := hall demoEnv demoRequests tr s (run_of_drive hdrive) _ p [] hsplit 1 1 posting
    seen hpays q hq 3 (attaches_of_demo hattaches) ⟨x, hx, reads_of_demo hreads⟩
  rw [hempty] at he
  cases he

end ReckonFlow.TravelSession
