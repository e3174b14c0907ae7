import ReckonFlow.Proofs.TrialBalance
import ReckonFlow.Spec.TravelSessions

/-! A trip is paid at most once and only after approval, in every interleaving of
transitions, manual posts and new expenses. The lock of the approval carries the status a
session read to its commit, where status and payment become visible together. -/

namespace ReckonFlow.TravelSession

open Lts Decimal

variable {env : Env} {req : ℕ → Request} {s s' : State} {ev : Event} {db db' : Db}

/-! ## What a step does -/

/-- Sessions that have ended without a commit. -/
def Dropped (p : Phase) : Prop := p = .aborted ∨ ∃ err, p = .failed err

/-- The steps that take effect, with what they need. -/
inductive Moved (env : Env) (req : ℕ → Request) (s : State) : Event → State → Prop
  | refused {ev : Event} : Moved env req s ev s
  | account {code name currency : String} {db' : Db}
      (h : createAccount env s.db code name currency = .ok db') :
      Moved env req s (.account code name currency) (s.publish db' [])
  | trip {f : TripFields} {db' : Db} (h : createTravelRequest env s.db f = .ok db') :
      Moved env req s (.trip f) (s.publish db' [])
  | locked {i : ℕ} {a : Id} {target : ApprovalStatus} {reviewer notes : Option String}
      {approval : Approval} (hphase : s.phase i = .idle)
      (hreq : req i = .transition a target reviewer notes) (hfree : s.approvalLock.Free i a)
      (hrow : s.db.approvals.get a = some approval)
      (hallowed : target ∈ allowedTransitions approval.status) :
      Moved env req s (.lock i) ((s.lockApproval i a).setPhase i (.decided approval))
  | priced {i : ℕ} {a : Id} {reviewer notes : Option String} {approval : Approval}
      {posting : Posting} (hphase : s.phase i = .decided approval)
      (hreq : req i = .transition a .paid reviewer notes)
      (hposting : paymentPosting s.db approval = .ok posting) :
      Moved env req s (.price i) (s.setPhase i (.priced approval posting s.db))
  | paying {i : ℕ} {approval : Approval} {posting : Posting} {seen : Db}
      (hphase : s.phase i = .priced approval posting seen) :
      Moved env req s (.post i)
        ((s.lockReference i posting).setPhase i (.paying approval posting seen))
  | posted {i : ℕ} {p : Posting} (hphase : s.phase i = .idle) (hreq : req i = .post p) :
      Moved env req s (.post i) ((s.lockReference i p).setPhase i (.flushed (.post p)))
  | unpaid {i : ℕ} {a : Id} {target : ApprovalStatus} {reviewer notes : Option String}
      {approval : Approval} (hphase : s.phase i = .decided approval)
      (hreq : req i = .transition a target reviewer notes) (hne : target ≠ .paid) :
      Moved env req s (.decide i)
        (s.setPhase i (.flushed (.decision approval target reviewer notes none)))
  | paid {i : ℕ} {a : Id} {target : ApprovalStatus} {reviewer notes : Option String}
      {approval : Approval} {posting : Posting} {seen : Db}
      (hphase : s.phase i = .paying approval posting seen)
      (hreq : req i = .transition a target reviewer notes) :
      Moved env req s (.decide i)
        (s.setPhase i (.flushed (.decision approval target reviewer notes (some (posting, seen)))))
  | attached {i : ℕ} {f : ExpenseFields} {db' : Db} (hphase : s.phase i = .idle)
      (hreq : req i = .expense f) (h : createExpense env s.db f = .ok db') :
      Moved env req s (.expense i) (s.setPhase i (.flushed (.expense f)))
  | committed {i : ℕ} {w : Write} {r : Db × List Payment} (hphase : s.phase i = .flushed w)
      (h : w.commit env s.db = .ok r) :
      Moved env req s (.commit i) (((s.publish r.1 r.2).release i).setPhase i .committed)
  | dropped {ev : Event} {i : ℕ} {p : Phase} (h : Dropped p) : Moved env req s ev (s.fail i p)

theorem moved_failed {i : ℕ} {err : Error} : Moved env req s ev (s.fail i (.failed err)) :=
  .dropped (.inr ⟨err, rfl⟩)

theorem moved_of_post {i : ℕ} {p : Posting} {next : Phase} (hs : s.post env i p next = some s')
    (h : Moved env req s ev ((s.lockReference i p).setPhase i next)) : Moved env req s ev s' := by
  unfold State.post at hs
  split_ifs at hs
  obtain rfl := Option.some.inj hs
  split
  · exact h
  · exact moved_failed

theorem moved_of_decide {i : ℕ} {approval : Approval} {target : ApprovalStatus}
    {reviewer notes : Option String} {payment : Option (Posting × Db)}
    (h : Moved env req s ev
      (s.setPhase i (.flushed (.decision approval target reviewer notes payment)))) :
    Moved env req s ev (s.decide i approval target reviewer notes payment) := by
  unfold State.decide
  split
  · exact h
  · exact moved_failed

theorem moved_of_step (hs : step env req s ev = some s') : Moved env req s ev s' := by
  cases ev with
  | account code name currency =>
    obtain rfl := Option.some.inj hs
    cases hrun : createAccount env s.db code name currency with
    | ok db' => exact .account hrun
    | error err => exact .refused
  | trip f =>
    obtain rfl := Option.some.inj hs
    cases hrun : createTravelRequest env s.db f with
    | ok db' => exact .trip hrun
    | error err => exact .refused
  | lock i =>
    simp only [TravelSession.step] at hs
    split at hs
    · rename_i hphase hreq
      split_ifs at hs with hfree
      obtain rfl := Option.some.inj hs
      split
      · rename_i hrow
        split
        · rename_i hallowed
          exact .locked hphase hreq hfree (required_eq_ok.1 hrow) (ensure_eq_ok.1 hallowed)
        · exact moved_failed
      · exact moved_failed
    · cases hs
  | price i =>
    simp only [TravelSession.step] at hs
    split at hs
    · rename_i hphase hreq
      obtain rfl := Option.some.inj hs
      split
      · exact .priced hphase hreq ‹_›
      · exact moved_failed
    · cases hs
  | post i =>
    simp only [TravelSession.step] at hs
    split at hs
    · exact moved_of_post hs (.paying ‹_›)
    · exact moved_of_post hs (.posted ‹_› ‹_›)
    · cases hs
  | decide i =>
    simp only [TravelSession.step] at hs
    split at hs
    · split_ifs at hs with hne
      obtain rfl := Option.some.inj hs
      exact moved_of_decide (.unpaid ‹_› ‹_› hne)
    · obtain rfl := Option.some.inj hs
      exact moved_of_decide (.paid ‹_› ‹_›)
    · cases hs
  | expense i =>
    simp only [TravelSession.step] at hs
    split at hs
    · obtain rfl := Option.some.inj hs
      split
      · exact .attached ‹_› ‹_› ‹_›
      · exact moved_failed
    · cases hs
  | commit i =>
    simp only [TravelSession.step] at hs
    split at hs
    · obtain rfl := Option.some.inj hs
      split
      · exact .committed ‹_› ‹_›
      · exact moved_failed
    · cases hs
  | abort i =>
    simp only [TravelSession.step] at hs
    split at hs
    iterate 3 cases hs
    obtain rfl := Option.some.inj hs
    exact .dropped (.inl rfl)

/-! ## What the tables keep -/

/-- Approvals keep their trip; trips, accounts and ledger transactions stay as they are. -/
structure Grows (db db' : Db) : Prop where
  approval : ∀ a ∈ db.approvals.rows, ∃ a' ∈ db'.approvals.rows,
    a'.id = a.id ∧ a'.travelRequestId = a.travelRequestId
  trip : ∀ t ∈ db.travelRequests.rows, t ∈ db'.travelRequests.rows
  account : ∀ a ∈ db.accounts.rows, a ∈ db'.accounts.rows
  ledger : Keeps db db'

/-- The expenses of a trip that `db` shows. -/
def visible (db : Db) (trip : TravelRequest) : List Expense :=
  db.expenses.rows.filter (·.travelRequestId = some trip.id)

/-- What a trip is paid: the sum of its visible expenses if there are any, or its estimate. -/
def paidAmount (db : Db) (trip : TravelRequest) : ℚ :=
  if visible db trip = [] then trip.estimatedAmount.value
  else ((visible db trip).map (·.amount.value)).sum

/-- Amounts are positive, so the sum is zero only when there is no expense. -/
theorem payable_eq (db : Db) (trip : TravelRequest) : payable db trip = paidAmount db trip := by
  have hpos : ∀ l : List Expense, l ≠ [] → 0 < (l.map (·.amount.value)).sum := by
    intro l
    induction l with
    | nil => exact fun h => absurd rfl h
    | cons e l ih =>
      intro _
      rw [List.map_cons, List.sum_cons]
      cases l with
      | nil => simpa using e.positive
      | cons e' l => exact add_pos e.positive (ih (by simp))
  have hspent : spentOn db trip.id = ((visible db trip).map (·.amount.value)).sum := rfl
  simp only [payable, paidAmount, hspent]
  by_cases h : visible db trip = []
  · rw [if_pos h, h, List.map_nil, List.sum_nil, if_pos rfl]
  · rw [if_neg h, if_neg (hpos _ h).ne']

/-- One side of a payment. -/
structure Leg (e : LedgerEntry) (account : Account) (debit credit : ℚ) (currency : String) :
    Prop where
  account : e.accountId = account.id
  debit : e.debit.value = debit
  credit : e.credit.value = credit
  currency : e.currency = currency

/-- The payment is in the ledger: TRAVEL is debited and CASH credited by the amount of the
approval's trip, in the trip's currency. -/
def Recorded (db : Db) (p : Payment) : Prop :=
  ∃ approval ∈ db.approvals.rows, approval.id = p.approvalId ∧
    ∃ trip ∈ db.travelRequests.rows, trip.id = approval.travelRequestId ∧
    ∃ travel ∈ db.accounts.rows, travel.code = travelCode ∧
    ∃ cash ∈ db.accounts.rows, cash.code = cashCode ∧
    ∃ t ∈ db.ledgerTransactions.rows, t.id = p.txId ∧
    ∃ e₁ e₂, entriesOf db p.txId = [e₁, e₂] ∧
      Leg e₁ travel (paidAmount p.seen trip) 0 trip.currency ∧
      Leg e₂ cash 0 (paidAmount p.seen trip) trip.currency

theorem Recorded.grows {p : Payment} (h : Recorded db p) (hg : Grows db db') : Recorded db' p := by
  obtain ⟨approval, ha, hid, trip, htrip, htid, travel, htravel, htc, cash, hcash, hcc, t, ht, hti,
    e₁, e₂, hentries, hlegs⟩ := h
  obtain ⟨approval', ha', hid', htrip'⟩ := hg.approval approval ha
  obtain ⟨ht', heq⟩ := hg.ledger t ht
  rw [hti] at heq
  exact ⟨approval', ha', hid'.trans hid, trip, hg.trip _ htrip, htid.trans htrip'.symm, travel,
    hg.account _ htravel, htc, cash, hg.account _ hcash, hcc, t, ht', hti, e₁, e₂,
    heq.trans hentries, hlegs⟩

/-- A posted payment has the amount that was read when it was priced. -/
theorem recorded_of_posted {seen posted : Db} {approval : Approval} {trip : TravelRequest}
    {travel cash : Account} {posting : Posting} {txId : Id}
    (hp : Priced db seen approval trip travel cash posting)
    (hpost : Posted env db posted txId (posting.lines.map (parsedOf env)))
    (hentries : EntriesPosted db)
    (htrips : ∀ t ∈ db.travelRequests.rows, env.upper t.currency = t.currency ∧
      varchar "currency" 3 t.currency = .ok t.currency)
    (happroval : ∃ a ∈ posted.approvals.rows, a.id = approval.id ∧
      a.travelRequestId = approval.travelRequestId) :
    Recorded posted ⟨approval.id, txId, seen⟩ := by
  have hstores := hpost.entriesOf_new hentries
  obtain ⟨reference, description, hmem⟩ := hpost.mem_transactions
  obtain ⟨htrip, htid⟩ := Table.get_eq_some.1 hp.trip_row
  obtain ⟨hupper, hstored⟩ := htrips trip htrip
  have hscale : HasScale 4 (paidAmount seen trip) := payable_eq seen trip ▸ payable_hasScale seen trip
  rw [hp.lines, payable_eq] at hstores
  obtain ⟨a, ha, hid, htr⟩ := happroval
  have haccounts : posted.accounts = db.accounts := by rw [hpost.rest]
  have htripRows : posted.travelRequests = db.travelRequests := by rw [hpost.rest]
  obtain ⟨e₁, e₂, hlist, h₁, h₂⟩ : ∃ e₁ e₂, entriesOf posted txId = [e₁, e₂] ∧
      Stores txId ⟨travel.id, paidAmount seen trip, 0, env.upper trip.currency, none⟩ e₁ ∧
      Stores txId ⟨cash.id, 0, paidAmount seen trip, env.upper trip.currency, none⟩ e₂ := by
    revert hstores
    generalize entriesOf posted txId = entries
    rintro (_ | ⟨h₁, _ | ⟨h₂, ⟨⟩⟩⟩)
    exact ⟨_, _, rfl, h₁, h₂⟩
  rw [hupper] at h₁ h₂
  obtain ⟨hd₁, hc₁⟩ := h₁.values hscale (HasScale.zero 4)
  obtain ⟨hd₂, hc₂⟩ := h₂.values (HasScale.zero 4) hscale
  refine ⟨a, ha, hid, trip, htripRows ▸ htrip, htid.trans htr.symm, travel,
    haccounts ▸ hp.travel_row, hp.travel_code, cash, haccounts ▸ hp.cash_row, hp.cash_code, _,
    (hmem _).2 (.inr rfl), rfl, e₁, e₂, hlist, ⟨h₁.account, hd₁, hc₁, ?_⟩,
    ⟨h₂.account, hd₂, hc₂, ?_⟩⟩
  · exact Except.ok.inj (h₁.currency.symm.trans hstored)
  · exact Except.ok.inj (h₂.currency.symm.trans hstored)

theorem Grows.trans {db₁ db₂ db₃ : Db} (h : Grows db₁ db₂) (h' : Grows db₂ db₃) :
    Grows db₁ db₃ where
  approval a ha := by
    obtain ⟨a', ha', hid, htrip⟩ := h.approval a ha
    obtain ⟨a'', ha'', hid', htrip'⟩ := h'.approval a' ha'
    exact ⟨a'', ha'', hid'.trans hid, htrip'.trans htrip⟩
  trip t ht := h'.trip t (h.trip t ht)
  account a ha := h'.account a (h.account a ha)
  ledger := h.ledger.trans h'.ledger

theorem Grows.posted {txId : Id} {lines : List ParsedLine} (h : Posted env db db' txId lines) :
    Grows db db' := by
  have hrest := h.rest
  refine ⟨fun a ha => ⟨a, ?_, rfl, rfl⟩, fun t ht => ?_, fun a ha => ?_, h.keeps⟩
  · rw [hrest]; exact ha
  · rw [hrest]; exact ht
  · rw [hrest]; exact ha

theorem mem_decided {id : Id} {target : ApprovalStatus} {reviewer notes : Option String}
    {a' : Approval} :
    a' ∈ (db.approvals.modify id (·.decided target reviewer notes)
        (Approval.decided_id target reviewer notes)).rows ↔
      ∃ a ∈ db.approvals.rows, (if a.id = id then a.decided target reviewer notes else a) = a' :=
  Table.mem_modify

theorem Grows.decided (db : Db) (id : Id) (target : ApprovalStatus)
    (reviewer notes : Option String) :
    Grows db { db with
      approvals := db.approvals.modify id (·.decided target reviewer notes)
        (Approval.decided_id target reviewer notes) } where
  approval a ha := by
    refine ⟨_, mem_decided.2 ⟨a, ha, rfl⟩, ?_, ?_⟩ <;> split_ifs <;> rfl
  trip t ht := ht
  account a ha := ha
  ledger t ht := ⟨ht, rfl⟩

/-! ## The invariant -/

/-- A path of `ALLOWED_TRANSITIONS` from PENDING. -/
def LegalPath (l : List ApprovalStatus) : Prop :=
  l.head? = some .pending ∧ l.IsChain fun current target => target ∈ allowedTransitions current

theorem LegalPath.snoc {l : List ApprovalStatus} {current target : ApprovalStatus}
    (h : LegalPath l) (hlast : l.getLast? = some current)
    (hallowed : target ∈ allowedTransitions current) : LegalPath (l ++ [target]) := by
  refine ⟨?_, h.2.append (List.isChain_singleton _) ?_⟩
  · rw [List.head?_append, h.1, Option.some_or]
  · intro x hx y hy
    obtain rfl := Option.some.inj (hlast.symm.trans hx)
    obtain rfl := Option.some.inj hy
    exact hallowed

def paymentsOf (payments : List Payment) (approvalId : Id) : List Payment :=
  payments.filter (·.approvalId = approvalId)

/-- What holds of the tables together with what was committed to them. -/
structure Consistent (env : Env) (s : State) : Prop where
  path : ∀ a ∈ s.db.approvals.rows,
    LegalPath (s.history a.id) ∧ (s.history a.id).getLast? = some a.status
  fresh : ∀ i, s.db.approvals.get i = none → s.history i = []
  count : ∀ a ∈ s.db.approvals.rows,
    (paymentsOf s.payments a.id).length = if a.status = .paid then 1 else 0
  recorded : ∀ p ∈ s.payments, Recorded s.db p
  trips : ∀ t ∈ s.db.travelRequests.rows, env.upper t.currency = t.currency ∧
    varchar "currency" 3 t.currency = .ok t.currency
  entries : EntriesPosted s.db

/-- What a commit may do to an approval, and the payments committed with it: leave it, open
it, or move it along an allowed edge, with one payment exactly when it moves to PAID. -/
def Evolved (db : Db) (payments : List Payment) (a' : Approval) : Prop :=
  (a' ∈ db.approvals.rows ∧ paymentsOf payments a'.id = []) ∨
  (db.approvals.get a'.id = none ∧ a'.status = .pending ∧ paymentsOf payments a'.id = []) ∨
  ∃ a ∈ db.approvals.rows, a.id = a'.id ∧ a'.status ∈ allowedTransitions a.status ∧
    (paymentsOf payments a'.id).length = if a'.status = .paid then 1 else 0

theorem allowed_ne {current target : ApprovalStatus} (h : target ∈ allowedTransitions current) :
    current ≠ target ∧ current ≠ .paid := by
  cases current <;> cases target <;> simp_all [allowedTransitions]

theorem observed_some (history : List ApprovalStatus) (a : Approval) :
    observed history (some a) =
      if history.getLast? = some a.status then history else history ++ [a.status] := rfl

theorem Consistent.publish (h : Consistent env s) {payments : List Payment}
    (hg : Grows s.db db') (hrows : ∀ a' ∈ db'.approvals.rows, Evolved s.db payments a')
    (hnew : ∀ p ∈ payments, Recorded db' p)
    (htrips : ∀ t ∈ db'.travelRequests.rows, env.upper t.currency = t.currency ∧
      varchar "currency" 3 t.currency = .ok t.currency)
    (hentries : EntriesPosted db') : Consistent env (s.publish db' payments) where
  path := by
    intro a' ha'
    have hget : db'.approvals.get a'.id = some a' := Table.get_of_mem ha'
    show LegalPath (observed (s.history a'.id) (db'.approvals.get a'.id)) ∧
      (observed (s.history a'.id) (db'.approvals.get a'.id)).getLast? = some a'.status
    rw [hget, observed_some]
    rcases hrows a' ha' with ⟨hmem, -⟩ | ⟨hnone, hpending, -⟩ | ⟨a, ha, hid, hallowed, -⟩
    · obtain ⟨hpath, hlast⟩ := h.path a' hmem
      rw [if_pos hlast]
      exact ⟨hpath, hlast⟩
    · rw [h.fresh _ hnone, hpending, List.getLast?_nil, if_neg nofun]
      exact ⟨⟨rfl, List.isChain_singleton _⟩, rfl⟩
    · obtain ⟨hpath, hlast⟩ := h.path a ha
      rw [hid] at hpath hlast
      have hne : some a.status ≠ some a'.status := fun he =>
        (allowed_ne hallowed).1 (Option.some.inj he)
      rw [hlast, if_neg hne]
      exact ⟨hpath.snoc hlast hallowed, List.getLast?_concat⟩
  fresh := by
    intro i (hi : db'.approvals.get i = none)
    have hnone : s.db.approvals.get i = none := by
      apply Option.eq_none_iff_forall_not_mem.2
      intro a ha
      obtain ⟨hmem, rfl⟩ := Table.get_eq_some.1 ha
      obtain ⟨a', ha', hid, -⟩ := hg.approval a hmem
      rw [← hid, Table.get_of_mem ha'] at hi
      cases hi
    show observed (s.history i) (db'.approvals.get i) = []
    rw [hi]
    exact h.fresh i hnone
  count := by
    intro a' ha'
    show (paymentsOf (s.payments ++ payments) a'.id).length = _
    rw [paymentsOf, List.filter_append, List.length_append]
    show (paymentsOf s.payments a'.id).length + (paymentsOf payments a'.id).length = _
    rcases hrows a' ha' with ⟨hmem, hnil⟩ | ⟨hnone, hpending, hnil⟩ | ⟨a, ha, hid, hallowed, hlen⟩
    · rw [h.count a' hmem, hnil, List.length_nil, Nat.add_zero]
    · have hold : paymentsOf s.payments a'.id = [] := by
        apply List.filter_eq_nil_iff.2
        intro p hp
        obtain ⟨a, ha, hid, -⟩ := h.recorded p hp
        simp only [decide_eq_true_eq]
        intro heq
        rw [← heq, ← hid, Table.get_of_mem ha] at hnone
        cases hnone
      rw [hold, hnil, hpending]
      rfl
    · rw [← hid, h.count a ha, if_neg (allowed_ne hallowed).2, hid, hlen, Nat.zero_add]
  recorded := by
    intro p hp
    rcases List.mem_append.1 hp with hp | hp
    · exact (h.recorded p hp).grows hg
    · exact hnew p hp
  trips := htrips
  entries := hentries

/-- Session `i` holds the lock of an approval whose row is the one it read. -/
structure Owns (s : State) (i : ℕ) (approval : Approval) (target : ApprovalStatus) : Prop where
  lock : s.approvalLock approval.id = some i
  row : s.db.approvals.get approval.id = some approval
  allowed : target ∈ allowedTransitions approval.status

def SessionInv (req : ℕ → Request) (s : State) (i : ℕ) : Phase → Prop
  | .decided approval => ∃ a target reviewer notes,
      req i = .transition a target reviewer notes ∧ Owns s i approval target
  | .priced approval posting seen | .paying approval posting seen =>
      (∃ a reviewer notes, req i = .transition a .paid reviewer notes) ∧ Owns s i approval .paid ∧
        ∃ trip travel cash, Priced s.db seen approval trip travel cash posting
  | .flushed (.decision approval target _ _ none) => Owns s i approval target ∧ target ≠ .paid
  | .flushed (.decision approval target _ _ (some (posting, seen))) =>
      target = .paid ∧ Owns s i approval target ∧
        ∃ trip travel cash, Priced s.db seen approval trip travel cash posting
  | .flushed (.post _) | .flushed (.expense _) => True
  | .idle | .committed | .failed _ | .aborted => True

structure Inv (env : Env) (req : ℕ → Request) (s : State) : Prop where
  consistent : Consistent env s
  session : ∀ i, SessionInv req s i (s.phase i)

/-- What a step of another session leaves to `j`: its locks and the rows under them. -/
structure Frame (s s' : State) (j : ℕ) : Prop where
  lock : ∀ a, s.approvalLock a = some j → s'.approvalLock a = some j
  row : ∀ a r, s.approvalLock a = some j → s.db.approvals.get a = some r →
    s'.db.approvals.get a = some r
  grows : Grows s.db s'.db

theorem Owns.frame {j : ℕ} {approval : Approval} {target : ApprovalStatus} (hf : Frame s s' j)
    (h : Owns s j approval target) : Owns s' j approval target where
  lock := hf.lock _ h.lock
  row := hf.row _ _ h.lock h.row
  allowed := h.allowed

theorem priced_grows {seen : Db} {approval : Approval} {posting : Posting} (hg : Grows db db')
    (h : ∃ trip travel cash, Priced db seen approval trip travel cash posting) :
    ∃ trip travel cash, Priced db' seen approval trip travel cash posting := by
  obtain ⟨trip, travel, cash, h⟩ := h
  obtain ⟨hmem, hid⟩ := Table.get_eq_some.1 h.trip_row
  exact ⟨trip, travel, cash, hid ▸ Table.get_of_mem (hg.trip _ hmem), hg.account _ h.travel_row,
    h.travel_code, hg.account _ h.cash_row, h.cash_code, h.lines⟩

theorem SessionInv.frame {j : ℕ} {p : Phase} (hf : Frame s s' j) (h : SessionInv req s j p) :
    SessionInv req s' j p := by
  cases p with
  | decided approval =>
    obtain ⟨a, target, reviewer, notes, hreq, howns⟩ := h
    exact ⟨a, target, reviewer, notes, hreq, Owns.frame hf howns⟩
  | priced approval posting seen =>
    exact ⟨h.1, Owns.frame hf h.2.1, priced_grows hf.grows h.2.2⟩
  | paying approval posting seen =>
    exact ⟨h.1, Owns.frame hf h.2.1, priced_grows hf.grows h.2.2⟩
  | flushed w =>
    cases w with
    | decision approval target reviewer notes payment =>
      cases payment with
      | none => exact ⟨Owns.frame hf h.1, h.2⟩
      | some payment => exact ⟨h.1, Owns.frame hf h.2.1, priced_grows hf.grows h.2.2⟩
    | post p => trivial
    | expense f => trivial
  | _ => trivial

/-! ## Steps that commit nothing -/

theorem Grows.refl (db : Db) : Grows db db :=
  ⟨fun a ha => ⟨a, ha, rfl, rfl⟩, fun _ ht => ht, fun _ ha => ha, fun _ ht => ⟨ht, rfl⟩⟩

theorem Consistent.of_eq (h : Consistent env s) (hdb : s'.db = s.db)
    (hhistory : s'.history = s.history) (hpayments : s'.payments = s.payments) :
    Consistent env s' where
  path := by rw [hdb, hhistory]; exact h.path
  fresh := by rw [hdb, hhistory]; exact h.fresh
  count := by rw [hdb, hpayments]; exact h.count
  recorded := by rw [hdb, hpayments]; exact h.recorded
  trips := by rw [hdb]; exact h.trips
  entries := by rw [hdb]; exact h.entries

/-- A step of `i` that leaves the tables as they are. -/
theorem Inv.move (h : Inv env req s) {s₁ : State} {i : ℕ} {p : Phase} (hdb : s₁.db = s.db)
    (hhistory : s₁.history = s.history) (hpayments : s₁.payments = s.payments)
    (hphase : s₁.phase = s.phase)
    (hlock : ∀ j ≠ i, ∀ a, s.approvalLock a = some j → s₁.approvalLock a = some j)
    (hp : SessionInv req s₁ i p) : Inv env req (s₁.setPhase i p) where
  consistent := h.consistent.of_eq hdb hhistory hpayments
  session := by
    intro j
    by_cases hj : j = i
    · subst hj
      have hf : Frame s₁ (s₁.setPhase j p) j := ⟨fun _ ha => ha, fun _ _ _ hr => hr, .refl _⟩
      rw [setPhase_self]
      exact hp.frame hf
    · have hf : Frame s (s₁.setPhase i p) j := by
        refine ⟨hlock j hj, fun a r _ hr => ?_, ?_⟩
        · rw [← hdb] at hr
          exact hr
        · rw [show (s₁.setPhase i p).db = s.db from hdb]
          exact .refl _
      rw [setPhase_of_ne _ _ hj, hphase]
      exact (h.session j).frame hf

theorem Inv.setPhase (h : Inv env req s) {i : ℕ} {p : Phase} (hp : SessionInv req s i p) :
    Inv env req (s.setPhase i p) := h.move rfl rfl rfl rfl (fun _ _ _ ha => ha) hp

theorem Inv.fail (h : Inv env req s) {i : ℕ} {p : Phase} (hp : SessionInv req (s.release i) i p) :
    Inv env req (s.fail i p) :=
  h.move rfl rfl rfl rfl (fun _ hj _ ha => Locks.release_held hj ha) hp

theorem Inv.lock (h : Inv env req s) {i : ℕ} {a : Id} {approval : Approval}
    {target : ApprovalStatus} {reviewer notes : Option String}
    (hreq : req i = .transition a target reviewer notes) (hfree : s.approvalLock.Free i a)
    (hrow : s.db.approvals.get a = some approval)
    (hallowed : target ∈ allowedTransitions approval.status) :
    Inv env req ((s.lockApproval i a).setPhase i (.decided approval)) := by
  obtain rfl := (Table.get_eq_some.1 hrow).2
  exact h.move rfl rfl rfl rfl (fun _ hj _ ha => Locks.take_held hfree hj ha)
    ⟨_, target, reviewer, notes, hreq, Locks.take_self, hrow, hallowed⟩

theorem Inv.lockReference (h : Inv env req s) {i : ℕ} {posting : Posting} {next : Phase}
    (hnext : SessionInv req s i next) :
    Inv env req ((s.lockReference i posting).setPhase i next) := by
  have hf : Frame s (s.lockReference i posting) i := ⟨fun _ ha => ha, fun _ _ _ hr => hr, .refl _⟩
  exact h.move rfl rfl rfl rfl (fun _ _ _ ha => ha) (hnext.frame hf)

theorem Inv.phase_of (h : Inv env req s) {i : ℕ} {p : Phase} (hphase : s.phase i = p) :
    SessionInv req s i p := hphase ▸ h.session i

/-! ## Commits -/

/-- What a commit adds, said of the tables alone. -/
structure Commits (env : Env) (db db' : Db) (payments : List Payment) : Prop where
  grows : Grows db db'
  rows : ∀ a' ∈ db'.approvals.rows, Evolved db payments a'
  recorded : ∀ p ∈ payments, Recorded db' p
  trips : ∀ t ∈ db'.travelRequests.rows, t ∈ db.travelRequests.rows ∨
    env.upper t.currency = t.currency ∧ varchar "currency" 3 t.currency = .ok t.currency
  entries : EntriesPosted db'

theorem Consistent.commits (h : Consistent env s) {payments : List Payment}
    (hc : Commits env s.db db' payments) : Consistent env (s.publish db' payments) :=
  h.publish hc.grows hc.rows hc.recorded
    (fun t ht => (hc.trips t ht).elim (h.trips t) id) hc.entries

/-- Tables in which no approval is touched. -/
theorem Commits.frame (hg : Grows db db') (ha : db'.approvals = db.approvals)
    (ht : db'.travelRequests = db.travelRequests) (he : EntriesPosted db') :
    Commits env db db' [] where
  grows := hg
  rows := by
    rw [ha]
    exact fun a' ha' => .inl ⟨ha', rfl⟩
  recorded := by simp
  trips := by
    rw [ht]
    exact fun t ht => .inl ht
  entries := he

theorem Commits.account {code name currency : String} (he : EntriesPosted db)
    (h : createAccount env db code name currency = .ok db') : Commits env db db' [] := by
  obtain ⟨_, _, _, -, -, rfl⟩ := createAccount_ok h
  refine .frame ⟨fun a ha => ⟨a, ha, rfl, rfl⟩, fun _ ht => ht, fun a ha => ?_,
    fun _ ht => ⟨ht, rfl⟩⟩ rfl rfl he
  exact Table.mem_insert.2 (.inl ha)

theorem Commits.expense {f : ExpenseFields} (he : EntriesPosted db)
    (h : insertExpense env db f = .ok db') : Commits env db db' [] := by
  obtain ⟨_, _, -, rfl⟩ := insertExpense_ok h
  exact .frame ⟨fun a ha => ⟨a, ha, rfl, rfl⟩, fun _ ht => ht, fun _ ha => ha,
    fun _ ht => ⟨ht, rfl⟩⟩ rfl rfl he

theorem Commits.post {p : Posting} {txId : Id} (he : EntriesPosted db)
    (h : p.post env db = .ok (db', txId)) : Commits env db db' [] := by
  have hpost := createBalancedTransaction_ok h
  exact .frame (.posted hpost) (by rw [hpost.rest]) (by rw [hpost.rest]) (hpost.entriesPosted he)

theorem Commits.trip {f : TripFields} (he : EntriesPosted db)
    (h : createTravelRequest env db f = .ok db') : Commits env db db' [] := by
  obtain ⟨mk, hmk, hcurrency, rfl⟩ := createTravelRequest_ok h
  refine ⟨⟨fun a ha => ⟨a, Table.mem_insert.2 (.inl ha), rfl, rfl⟩, fun t ht => ?_,
    fun _ ha => ha, fun _ ht => ⟨ht, rfl⟩⟩, fun a' ha' => ?_, by simp,
    fun t (ht : t ∈ (db.travelRequests.insert mk hmk).rows) => ?_, he⟩
  · exact Table.mem_insert_of_mem mk hmk ht
  · rcases Table.mem_insert.1 ha' with ha' | rfl
    · exact .inl ⟨ha', rfl⟩
    · exact .inr (.inl ⟨Table.get_next _, rfl, rfl⟩)
  · rcases Table.mem_insert.1 ht with ht | rfl
    · exact .inl ht
    · exact .inr ⟨upper_stored (hcurrency _), varchar_stored (hcurrency _)⟩

/-- The rows of the approvals after a decision. -/
theorem evolved_decided {approval : Approval} {target : ApprovalStatus}
    {reviewer notes : Option String} {payments : List Payment}
    (hrow : db.approvals.get approval.id = some approval)
    (hallowed : target ∈ allowedTransitions approval.status)
    (honly : ∀ p ∈ payments, p.approvalId = approval.id)
    (hlen : payments.length = if target = .paid then 1 else 0) {a' : Approval}
    (ha' : ∃ a ∈ db.approvals.rows,
      (if a.id = approval.id then a.decided target reviewer notes else a) = a') :
    Evolved db payments a' := by
  obtain ⟨a, ha, rfl⟩ := ha'
  split_ifs with hid
  · obtain rfl := Table.key_inj ha (Table.get_eq_some.1 hrow).1 hid
    have hall : paymentsOf payments a.id = payments :=
      List.filter_eq_self.2 fun p hp => by simpa using honly p hp
    refine .inr (.inr ⟨a, ha, rfl, hallowed, ?_⟩)
    rw [show (a.decided target reviewer notes).id = a.id from rfl, hall]
    exact hlen
  · refine .inl ⟨ha, List.filter_eq_nil_iff.2 fun p hp => ?_⟩
    simpa [honly p hp] using Ne.symm hid

theorem get_decided_of_ne {id a : Id} {target : ApprovalStatus} {reviewer notes : Option String}
    (h : a ≠ id) :
    (db.approvals.modify id (·.decided target reviewer notes)
      (Approval.decided_id target reviewer notes)).get a = db.approvals.get a := by
  rw [Table.get_modify]
  simp only [if_neg h, Option.map_id']

theorem Owns.ne_of_lock {i j : ℕ} {a : Id} {approval : Approval} {target : ApprovalStatus}
    (h : Owns s i approval target) (hj : j ≠ i) (hlock : s.approvalLock a = some j) :
    a ≠ approval.id := by
  rintro rfl
  exact hj (Option.some.inj (hlock.symm.trans h.lock))

/-- The flushed rows of session `i` on the tables of the moment. -/
theorem Inv.apply (h : Inv env req s) {i : ℕ} {w : Write} {payments : List Payment}
    (hw : s.phase i = .flushed w) (ha : w.apply env s.db = .ok (db', payments)) :
    Commits env s.db db' payments ∧ ∀ j ≠ i, ∀ a r, s.approvalLock a = some j →
      s.db.approvals.get a = some r → db'.approvals.get a = some r := by
  cases w with
  | post p =>
    obtain ⟨⟨_, txId⟩, hpost, heq⟩ := Except.map_eq_ok.1 ha
    obtain ⟨rfl, rfl⟩ := Prod.mk.inj heq
    refine ⟨.post h.consistent.entries hpost, fun _ _ _ _ _ hr => ?_⟩
    rw [(createBalancedTransaction_ok hpost).rest]
    exact hr
  | expense f =>
    obtain ⟨_, hexpense, heq⟩ := Except.map_eq_ok.1 ha
    obtain ⟨rfl, rfl⟩ := Prod.mk.inj heq
    obtain ⟨_, _, -, hdb⟩ := insertExpense_ok hexpense
    refine ⟨.expense h.consistent.entries hexpense, fun _ _ _ _ _ hr => ?_⟩
    rw [hdb]
    exact hr
  | decision approval target reviewer notes payment =>
    have hi := h.session i
    rw [hw] at hi
    cases payment with
    | none =>
      obtain ⟨howns, hne⟩ := hi
      obtain ⟨_, hwrite, heq⟩ := Except.map_eq_ok.1 ha
      obtain ⟨rfl, rfl⟩ := Prod.mk.inj heq
      obtain ⟨reviewer, notes, rfl⟩ := writeDecision_ok hwrite
      refine ⟨⟨.decided .., fun a' ha' => ?_, by simp, fun t ht => .inl ht, h.consistent.entries⟩,
        fun j hj a r hlock hr => (get_decided_of_ne (howns.ne_of_lock hj hlock)).trans hr⟩
      exact evolved_decided howns.row howns.allowed (by simp) (if_neg hne).symm (mem_decided.1 ha')
    | some payment =>
      obtain ⟨posting, seen⟩ := payment
      obtain ⟨rfl, howns, trip, travel, cash, hpriced⟩ := hi
      simp only [Write.apply, Except.bind_eq_ok, Except.pure_eq_ok, Prod.mk.injEq] at ha
      obtain ⟨⟨posted, txId⟩, hpost, _, hwrite, rfl, rfl⟩ := ha
      have hpost := createBalancedTransaction_ok hpost
      have happrovals : posted.approvals = s.db.approvals := by rw [hpost.rest]
      obtain ⟨reviewer, notes, rfl⟩ := writeDecision_ok hwrite
      have hrecorded : Recorded posted ⟨approval.id, txId, seen⟩ := by
        refine recorded_of_posted hpriced hpost h.consistent.entries h.consistent.trips ?_
        rw [happrovals]
        exact ⟨approval, (Table.get_eq_some.1 howns.row).1, rfl, rfl⟩
      refine ⟨⟨(Grows.posted hpost).trans (.decided ..), fun a' ha' => ?_, fun p hp => ?_,
        fun t ht => .inl ?_, hpost.entriesPosted h.consistent.entries⟩, fun j hj a r hlock hr => ?_⟩
      · refine evolved_decided howns.row howns.allowed (fun p hp => ?_) rfl
          (happrovals ▸ mem_decided.1 ha')
        rw [List.mem_singleton.1 hp]
      · rw [List.mem_singleton.1 hp]
        exact hrecorded.grows (.decided ..)
      · rw [hpost.rest] at ht
        exact ht
      · refine (get_decided_of_ne (howns.ne_of_lock hj hlock)).trans ?_
        rw [happrovals]
        exact hr

theorem Inv.commit (h : Inv env req s) {i : ℕ} {w : Write} {r : Db × List Payment}
    (hw : s.phase i = .flushed w) (hcommit : w.commit env s.db = .ok r) :
    Inv env req (((s.publish r.1 r.2).release i).setPhase i .committed) := by
  simp only [Write.commit, Except.bind_eq_ok, Except.pure_eq_ok] at hcommit
  obtain ⟨⟨after, payments⟩, happly, _, hdone, rfl⟩ := hcommit
  obtain rfl := commit_ok hdone
  obtain ⟨hc, hframe⟩ := h.apply hw happly
  refine ⟨(h.consistent.commits hc).of_eq rfl rfl rfl, fun j => ?_⟩
  by_cases hj : j = i
  · subst hj
    rw [setPhase_self]
    trivial
  · rw [setPhase_of_ne _ _ hj]
    refine (h.session j).frame ⟨fun a ha => ?_, hframe j hj, hc.grows⟩
    exact Locks.release_held hj ha

/-- A request served whole takes no lock and leaves every approval there is. -/
theorem Inv.publish (h : Inv env req s) (hc : Commits env s.db db' [])
    (hkeep : ∀ a approval, s.db.approvals.get a = some approval →
      db'.approvals.get a = some approval) : Inv env req (s.publish db' []) := by
  have hf : ∀ j, Frame s (s.publish db' []) j := fun j =>
    ⟨fun _ ha => ha, fun a r _ hr => hkeep a r hr, hc.grows⟩
  exact ⟨h.consistent.commits hc, fun j => (h.session j).frame (hf j)⟩

/-! ## Runs -/

theorem Inv.step (h : Inv env req s) (hs : step env req s ev = some s') : Inv env req s' := by
  cases moved_of_step hs with
  | refused => exact h
  | account hr =>
    refine h.publish (.account h.consistent.entries hr) fun a approval ha => ?_
    obtain ⟨_, _, _, -, -, rfl⟩ := createAccount_ok hr
    exact ha
  | trip hr =>
    refine h.publish (.trip h.consistent.entries hr) fun a approval ha => ?_
    obtain ⟨_, _, -, rfl⟩ := createTravelRequest_ok hr
    obtain ⟨hmem, rfl⟩ := Table.get_eq_some.1 ha
    exact Table.get_of_mem (Table.mem_insert_of_mem _ _ hmem)
  | locked hphase hreq hfree hrow hallowed => exact h.lock hreq hfree hrow hallowed
  | priced hphase hreq hposting =>
    obtain ⟨_, _, _, _, hreq', howns⟩ := h.phase_of hphase
    obtain ⟨-, rfl, -, -⟩ := Request.transition.inj (hreq.symm.trans hreq')
    exact h.setPhase ⟨⟨_, _, _, hreq⟩, howns, paymentPosting_ok hposting⟩
  | paying hphase =>
    have hi := h.phase_of hphase
    exact h.lockReference hi
  | posted hphase hreq => exact h.lockReference trivial
  | unpaid hphase hreq hne =>
    obtain ⟨_, _, _, _, hreq', howns⟩ := h.phase_of hphase
    obtain ⟨-, rfl, -, -⟩ := Request.transition.inj (hreq.symm.trans hreq')
    exact h.setPhase ⟨howns, hne⟩
  | paid hphase hreq =>
    obtain ⟨⟨_, _, _, hreq'⟩, howns, hpriced⟩ := h.phase_of hphase
    obtain ⟨-, rfl, -, -⟩ := Request.transition.inj (hreq.symm.trans hreq')
    exact h.setPhase ⟨rfl, howns, hpriced⟩
  | attached hphase hreq hr => exact h.setPhase trivial
  | committed hphase hcommit => exact h.commit hphase hcommit
  | dropped hp =>
    refine h.fail ?_
    rcases hp with rfl | ⟨err, rfl⟩ <;> trivial

theorem Inv.init : Inv env req State.init where
  consistent := by constructor <;> simp [State.init, Db.empty, EntriesPosted]
  session _ := trivial

/-! ## Where an amount was read -/

/-- The tables a session has priced its payment from. -/
def seenOf : Phase → Option Db
  | .priced _ _ seen | .paying _ _ seen => some seen
  | .flushed (.decision _ _ _ _ (some (_, seen))) => some seen
  | _ => none

/-- A payment, committed or under way, was priced from `db`. -/
def PricedFrom (db : Db) (s : State) : Prop :=
  (∃ i, seenOf (s.phase i) = some db) ∨ ∃ p ∈ s.payments, p.seen = db

theorem PricedFrom.of_setPhase {s₁ : State} {i : ℕ} {p : Phase} (hphase : s₁.phase = s.phase)
    (hpayments : s₁.payments = s.payments)
    (hseen : seenOf p = none ∨ seenOf p = seenOf (s.phase i))
    (h : PricedFrom db (s₁.setPhase i p)) : PricedFrom db s := by
  rcases h with ⟨j, hj⟩ | ⟨q, hq, hdb⟩
  · by_cases hji : j = i
    · subst hji
      rw [setPhase_self] at hj
      rcases hseen with hnone | hsame
      · rw [hnone] at hj
        cases hj
      · exact .inl ⟨j, hsame ▸ hj⟩
    · rw [setPhase_of_ne _ _ hji, hphase] at hj
      exact .inl ⟨j, hj⟩
  · refine .inr ⟨q, ?_, hdb⟩
    rw [← hpayments]
    exact hq

theorem PricedFrom.of_commit {i : ℕ} {w : Write} {r : Db × List Payment}
    (hw : s.phase i = .flushed w) (hcommit : w.commit env s.db = .ok r)
    (h : PricedFrom db (((s.publish r.1 r.2).release i).setPhase i .committed)) :
    PricedFrom db s := by
  simp only [Write.commit, Except.bind_eq_ok, Except.pure_eq_ok] at hcommit
  obtain ⟨⟨after, payments⟩, happly, _, -, rfl⟩ := hcommit
  rcases h with ⟨j, hj⟩ | ⟨p, hp, hdb⟩
  · by_cases hji : j = i
    · subst hji
      rw [setPhase_self] at hj
      cases hj
    · rw [setPhase_of_ne _ _ hji] at hj
      exact .inl ⟨j, hj⟩
  · rcases List.mem_append.1 hp with hp | hp
    · exact .inr ⟨p, hp, hdb⟩
    · -- the payment comes with the tables its session kept
      refine .inl ⟨i, ?_⟩
      rw [hw, ← hdb]
      cases w with
      | post q =>
        obtain ⟨_, -, heq⟩ := Except.map_eq_ok.1 happly
        obtain ⟨-, rfl⟩ := Prod.mk.inj heq
        cases hp
      | expense f =>
        obtain ⟨_, -, heq⟩ := Except.map_eq_ok.1 happly
        obtain ⟨-, rfl⟩ := Prod.mk.inj heq
        cases hp
      | decision approval target reviewer notes payment =>
        cases payment with
        | none =>
          obtain ⟨_, -, heq⟩ := Except.map_eq_ok.1 happly
          obtain ⟨-, rfl⟩ := Prod.mk.inj heq
          cases hp
        | some payment =>
          simp only [Write.apply, Except.bind_eq_ok, Except.pure_eq_ok, Prod.mk.injEq] at happly
          obtain ⟨_, -, _, -, -, rfl⟩ := happly
          rw [List.mem_singleton.1 hp]
          rfl

theorem PricedFrom.of_publish (h : PricedFrom db (s.publish db' [])) : PricedFrom db s := by
  refine h.imp id ?_
  rintro ⟨p, hp, hdb⟩
  exact ⟨p, (List.append_nil s.payments) ▸ hp, hdb⟩

/-- Only pricing reads the tables an amount comes from. -/
theorem PricedFrom.of_step (hs : step env req s ev = some s') (h : PricedFrom db s') :
    PricedFrom db s ∨ (∃ i, ev = .price i) ∧ s.db = db := by
  cases moved_of_step hs with
  | refused => exact .inl h
  | account => exact .inl h.of_publish
  | trip => exact .inl h.of_publish
  | locked => exact .inl (h.of_setPhase rfl rfl (.inl rfl))
  | @priced i _ _ _ _ _ hphase =>
    by_cases hdb : s.db = db
    · exact .inr ⟨⟨i, rfl⟩, hdb⟩
    · rcases h with ⟨j, hj⟩ | hpayment
      · by_cases hji : j = i
        · subst hji
          rw [setPhase_self] at hj
          exact absurd (Option.some.inj hj) hdb
        · rw [setPhase_of_ne _ _ hji] at hj
          exact .inl (.inl ⟨j, hj⟩)
      · exact .inl (.inr hpayment)
  | paying hphase => exact .inl (h.of_setPhase rfl rfl (.inr (by rw [hphase]; rfl)))
  | posted => exact .inl (h.of_setPhase rfl rfl (.inl rfl))
  | unpaid => exact .inl (h.of_setPhase rfl rfl (.inl rfl))
  | paid hphase => exact .inl (h.of_setPhase rfl rfl (.inr (by rw [hphase]; rfl)))
  | attached => exact .inl (h.of_setPhase rfl rfl (.inl rfl))
  | committed hphase hcommit => exact .inl (h.of_commit hphase hcommit)
  | dropped hp =>
    refine .inl (h.of_setPhase rfl rfl (.inl ?_))
    rcases hp with rfl | ⟨err, rfl⟩ <;> rfl

/-- In every interleaving, the statuses committed for an approval are a path from PENDING
to its status, it has one payment exactly if it is PAID, and every payment is in the ledger
with the amount its trip's expenses came to in the state of the run where it was priced. -/
theorem paid_at_most_once {tr : List (State × Event)}
    (hrun : Run (Fires (TravelSession.step env req)) State.init tr s) :
    (∀ a ∈ s.db.approvals.rows,
      LegalPath (s.history a.id) ∧ (s.history a.id).getLast? = some a.status ∧
        (paymentsOf s.payments a.id).length = if a.status = .paid then 1 else 0) ∧
      ∀ p ∈ s.payments, Recorded s.db p ∧ ∃ q ∈ tr, (∃ i, q.2 = .price i) ∧ q.1.db = p.seen := by
  have h : Inv env req s := hrun.invariant Inv.init fun _ _ _ hi hs => hi.step hs
  refine ⟨fun a ha => ?_, fun p hp => ⟨h.consistent.recorded p hp, ?_⟩⟩
  · obtain ⟨hpath, hlast⟩ := h.consistent.path a ha
    exact ⟨hpath, hlast, h.consistent.count a ha⟩
  · have hinit : ¬ PricedFrom p.seen State.init := by
      rintro (⟨i, hi⟩ | ⟨q, hq, -⟩)
      · cases hi
      · cases hq
    exact hrun.origin hinit (fun _ _ _ hs hP => PricedFrom.of_step hs hP) (.inr ⟨p, hp, rfl⟩)

/-- Two payers race for one approval, after an expense and before a manual post. -/
def demoRequests : ℕ → Request
  | 0 => .transition 1 .approved none none
  | 1 => .transition 1 .paid none none
  | 2 => .transition 1 .paid none none
  | 3 => .expense ⟨"東京", "宿", 100, demoDate, "EUR", some 1⟩
  | _ => .post ⟨"T-1", "Refund", demoRefund⟩

def demoEvents : List Event :=
  [.account "CASH" "Cash" "eur", .account "TRAVEL" "Travel expenses" "EUR", .trip demoTrip,
    .lock 0, .decide 0, .commit 0, .expense 3, .lock 1, .commit 3, .price 1, .post 1, .decide 1,
    .post 4, .commit 1, .lock 2, .commit 4]

theorem paid_at_most_once_race : ∃ tr s,
    Run (Fires (step demoEnv demoRequests)) State.init tr s ∧
      s.history 1 = [.pending, .approved, .paid] ∧
      (∀ a ∈ s.db.approvals.rows, LegalPath (s.history a.id) ∧
        (s.history a.id).getLast? = some a.status ∧
          (paymentsOf s.payments a.id).length = if a.status = .paid then 1 else 0) ∧
      ∀ p ∈ s.payments, Recorded s.db p ∧
        ∃ q ∈ tr, (∃ i, q.2 = .price i) ∧ q.1.db = p.seen := by
  have hdemo : (drive (step demoEnv demoRequests) State.init demoEvents).map (·.2.history 1) =
      some [.pending, .approved, .paid] := by decide +kernel
  obtain ⟨⟨tr, s⟩, hdrive, hhistory⟩ := Option.map_eq_some_iff.1 hdemo
  have hrun := run_of_drive hdrive
  exact ⟨tr, s, hrun, hhistory, paid_at_most_once hrun⟩

end ReckonFlow.TravelSession
