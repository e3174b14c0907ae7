import ReckonFlow.Proofs.Fusion
import ReckonFlow.Spec.MatchSessions

/-! Committed matches under concurrent sessions: they survive a run exactly as long as no
auto-match commits over one. What `confirm_match` reads under its locks is never stale
in a session of its own. -/

namespace ReckonFlow.MatchSession

open Lts

variable {env : Env} {settings : Settings} {req : ℕ → Request} {s s' : State} {ev : Event}

/-! ## What a step does -/

/-- Why a session ends without a commit. -/
inductive Drops (s : State) (ev : Event) (i : ℕ) : Phase → Prop
  | aborted (hev : ev = .abort i) : Drops s ev i .aborted
  | missing {detail : String} : Drops s ev i (.failed (.notFound detail))
  | unranked {expense : Expense} {err : Error} (hphase : s.phase i = .loaded expense) :
      Drops s ev i (.failed err)
  | refused {expense : Expense} {row : BankTransaction} {err : Error}
      (hphase : s.phase i = .bothLocked expense row)
      (hcheck : checkOpen expense row expense.id row.id = .error err) : Drops s ev i (.failed err)
  | claimed {expense : Expense} {row : BankTransaction} {u : Unit} {err : Error}
      (hphase : s.phase i = .bothLocked expense row)
      (hopen : checkOpen expense row expense.id row.id = .ok u)
      (hclaimed : ¬ Unclaimed s.db expense row) : Drops s ev i (.failed err)

/-- The steps that take effect, with what they need. -/
inductive Moved (env : Env) (settings : Settings) (req : ℕ → Request) (s : State) :
    Event → State → Prop
  | confirming {i : ℕ} {e b : Id} (hphase : s.phase i = .idle) (hreq : req i = .confirm e b) :
      Moved env settings req s (.start i) (s.setPhase i (.confirming e b {}))
  | loaded {i : ℕ} {e : Id} {expense : Expense} (hreq : req i = .auto e) :
      Moved env settings req s (.start i) (s.setPhase i (.loaded expense))
  | ranked {i : ℕ} {scan : Scan} {expense : Expense} {suggested : List ScoredCandidate × ℕ}
      (hphase : s.phase i = .loaded expense)
      (hrank : rankCandidates env settings scan s.db expense 2 none none = .ok suggested) :
      Moved env settings req s (.rank i scan) (s.setPhase i (decided expense suggested.1))
  | lockedExpense {i : ℕ} {e b : Id} {map : IdentityMap} {current : Expense}
      (hphase : s.phase i = .confirming e b map) (hfree : s.expenseLock.Free i e)
      (hrow : s.db.expenses.get e = some current) :
      Moved env settings req s (.lockExpense i) ((s.lockExpense i e).setPhase i
        (.expenseLocked b (map.expense.getD current) map.bankRow))
  | lockedBank {i : ℕ} {b : Id} {expense : Expense} {cached : Option BankTransaction}
      {current : BankTransaction} (hphase : s.phase i = .expenseLocked b expense cached)
      (hfree : s.bankLock.Free i b) (hrow : s.db.bankTransactions.get b = some current) :
      Moved env settings req s (.lockBank i)
        ((s.lockBank i b).setPhase i (.bothLocked expense (cached.getD current)))
  | linked {i : ℕ} {expense : Expense} {row : BankTransaction} {u : Unit}
      (hphase : s.phase i = .bothLocked expense row)
      (hopen : checkOpen expense row expense.id row.id = .ok u) :
      Moved env settings req s (.flush i) (s.setPhase i (.flushed (.link expense row)))
  | parked {i : ℕ} {expense : Expense} (hphase : s.phase i = .parking expense) :
      Moved env settings req s (.flush i) (s.setPhase i (.flushed (.park expense)))
  | lockedParked {i : ℕ} {expense : Expense} (hphase : s.phase i = .parking expense) :
      Moved env settings req s (.flush i)
        ((s.lockExpense i expense.id).setPhase i (.flushed (.park expense)))
  | committed {i : ℕ} {w : Write} (hphase : s.phase i = .flushed w) :
      Moved env settings req s (.commit i) (((s.write w).release i).setPhase i .committed)
  | dropped {ev : Event} {i : ℕ} {p : Phase} (hlive : s.phase i ≠ .committed)
      (hdrop : Drops s ev i p) : Moved env settings req s ev (s.fail i p)

theorem drops_of_required {α : Type} {key : α → ℤ} {t : Table α key} {what : String} {x : Id}
    {err : Error} {i : ℕ} (h : required t what x = .error err) : Drops s ev i (.failed err) := by
  unfold required at h
  split at h
  · cases h
  · cases h
    exact .missing

theorem moved_of_step (hs : step env settings req s ev = some s') :
    Moved env settings req s ev s' := by
  cases ev with
  | start i =>
    simp only [MatchSession.step] at hs
    split at hs
    · obtain rfl := Option.some.inj hs
      exact .confirming ‹_› ‹_›
    · rename_i hphase hreq
      obtain rfl := Option.some.inj hs
      split
      · exact .loaded hreq
      · exact .dropped (hphase ▸ nofun) (drops_of_required ‹_›)
    · cases hs
  | rank i scan =>
    simp only [MatchSession.step] at hs
    split at hs
    · rename_i hphase
      obtain rfl := Option.some.inj hs
      split
      · exact .ranked hphase ‹_›
      · exact .dropped (hphase ▸ nofun) (.unranked hphase)
    · cases hs
  | lockExpense i =>
    simp only [MatchSession.step] at hs
    split at hs
    · rename_i hphase
      split_ifs at hs with hfree
      obtain rfl := Option.some.inj hs
      split
      · rename_i hrow
        exact .lockedExpense hphase hfree (required_eq_ok.1 hrow)
      · exact .dropped (hphase ▸ nofun) (drops_of_required ‹_›)
    · cases hs
  | lockBank i =>
    simp only [MatchSession.step] at hs
    split at hs
    · rename_i hphase
      split_ifs at hs with hfree
      obtain rfl := Option.some.inj hs
      split
      · rename_i hrow
        exact .lockedBank hphase hfree (required_eq_ok.1 hrow)
      · exact .dropped (hphase ▸ nofun) (drops_of_required ‹_›)
    · cases hs
  | flush i =>
    simp only [MatchSession.step] at hs
    split at hs
    · rename_i hphase
      obtain rfl := Option.some.inj hs
      split
      · rename_i hopen
        split_ifs with hclaimed
        · exact .linked hphase hopen
        · exact .dropped (hphase ▸ nofun) (.claimed hphase hopen hclaimed)
      · exact .dropped (hphase ▸ nofun) (.refused hphase ‹_›)
    · split_ifs at hs
      · obtain rfl := Option.some.inj hs
        exact .parked ‹_›
      · obtain rfl := Option.some.inj hs
        exact .lockedParked ‹_›
    · cases hs
  | commit i =>
    simp only [MatchSession.step] at hs
    split at hs
    · obtain rfl := Option.some.inj hs
      exact .committed ‹_›
    · cases hs
  | abort i =>
    simp only [MatchSession.step] at hs
    split at hs
    iterate 3 cases hs
    rename_i hlive _ _
    obtain rfl := Option.some.inj hs
    exact .dropped hlive (.aborted rfl)

/-! ## Candidates -/

theorem fuse_row {scored ranked : List ScoredCandidate} {limit : ℕ}
    (h : fuse settings scored limit = .ok ranked) {c : ScoredCandidate} (hc : c ∈ ranked) :
    ∃ item ∈ scored, c.bankTransaction = item.bankTransaction := by
  obtain ⟨all, hall, rfl⟩ := Except.map_eq_ok.1 h
  obtain rfl := fuseAll_eq_ok hall
  obtain ⟨item, hitem, x, rfl⟩ := mem_fuseResults (mem_sortedDesc.1 (List.mem_of_mem_take hc))
  exact ⟨item, hitem, rfl⟩

/-- Every ranked row was open when it was read. -/
theorem rankCandidates_open {scan : Scan} {db : Db} {expense : Expense} {limit : ℕ}
    {window : Option ℤ} {tolerance : Option ℚ} {suggested : List ScoredCandidate × ℕ}
    (h : rankCandidates env settings scan db expense limit window tolerance = .ok suggested)
    {c : ScoredCandidate} (hc : c ∈ suggested.1) :
    c.bankTransaction.matchedExpenseId = none ∧ c.bankTransaction.matchStatus ≠ .matched := by
  simp only [rankCandidates, Except.bind_eq_ok, Except.pure_eq_ok] at h
  obtain ⟨candidates, hpre, ranked, hranked, rfl⟩ := h
  have hfuse : c.bankTransaction ∈ candidates := by
    split_ifs at hranked
    · obtain rfl := Except.ok.inj hranked
      cases hc
    · obtain ⟨item, hitem, heq⟩ := fuse_row hranked hc
      obtain ⟨row, hrow, rfl⟩ := List.mem_map.1 hitem
      rw [heq]
      exact hrow
  simp only [prefilter, Except.bind_eq_ok, Except.pure_eq_ok] at hpre
  obtain ⟨_, -, _, -, rfl⟩ := hpre
  have hmem := (scan.perm _).mem_iff.1 ((List.mem_insertionSort _).1 hfuse)
  obtain ⟨hnone, hstatus, -⟩ := of_decide_eq_true (List.mem_filter.1 hmem).2
  refine ⟨hnone, fun hm => ?_⟩
  rw [hm] at hstatus
  exact absurd hstatus (by decide)

/-! ## Writes -/

theorem get_writeExpense (db : Db) (loaded : Expense) (status : MatchStatus) (e : Id) :
    (writeExpense db loaded status).expenses.get e =
      (db.expenses.get e).map fun x => if e = loaded.id then writeStatus loaded status x else x :=
  Table.get_modify _ _ (writeStatus loaded status) (fun _ => rfl) _

theorem get_link (db : Db) (expense : Expense) (bankRow : BankTransaction) (b : Id) :
    ((Write.link expense bankRow).apply db).bankTransactions.get b =
      (db.bankTransactions.get b).map fun r =>
        if b = bankRow.id then writeLink bankRow expense.id r else r :=
  Table.get_modify _ _ (writeLink bankRow expense.id) (fun _ => rfl) _

/-- No write removes an expense. -/
theorem expense_kept (w : Write) {db : Db} {e : Id} (h : ∃ x, db.expenses.get e = some x) :
    ∃ x, (w.apply db).expenses.get e = some x := by
  obtain ⟨x, hx⟩ := h
  cases w with
  | park expense => exact ⟨_, (get_writeExpense db ..).trans (by rw [hx, Option.map_some])⟩
  | link expense bankRow => exact ⟨_, (get_writeExpense db ..).trans (by rw [hx, Option.map_some])⟩

/-! ## The invariant -/

/-- The link is in the tables and both its rows are matched. -/
def Intact (db : Db) (e b : Id) : Prop :=
  (∃ x, db.expenses.get e = some x ∧ x.matchStatus = .matched) ∧
    ∃ r, db.bankTransactions.get b = some r ∧ r.matchedExpenseId = some e ∧ r.matchStatus = .matched

/-- Every committed link is still there. -/
def LinksIntact (s : State) : Prop := ∀ p ∈ s.links, Intact s.db p.1 p.2

/-- A row an auto-match found open before it held any lock. -/
def ReadOpen (req : ℕ → Request) (i : ℕ) (row : BankTransaction) : Prop :=
  (∃ e, req i = .auto e) ∧ row.matchedExpenseId = none ∧ row.matchStatus ≠ .matched

/-- Session `i` holds the lock of a bank row, and has its current values unless it read the
row before. -/
structure Holds (req : ℕ → Request) (s : State) (i : ℕ) (expense : Expense)
    (row : BankTransaction) : Prop where
  lock : s.bankLock row.id = some i
  expense : ∃ x, s.db.expenses.get expense.id = some x
  row : ∃ r, s.db.bankTransactions.get row.id = some r ∧ (r = row ∨ ReadOpen req i row)

def SessionInv (req : ℕ → Request) (s : State) (i : ℕ) : Phase → Prop
  | .loaded _ | .parking _ | .flushed (.park _) => ∃ e, req i = .auto e
  | .confirming e b map => (∀ x, map.expense = some x → x.id = e) ∧
      ∀ r, map.bankRow = some r → r.id = b ∧ ReadOpen req i r
  | .expenseLocked b expense cached => (∃ x, s.db.expenses.get expense.id = some x) ∧
      ∀ r, cached = some r → r.id = b ∧ ReadOpen req i r
  | .bothLocked expense row => Holds req s i expense row
  | .flushed (.link expense row) => Holds req s i expense row ∧ expense.matchStatus ≠ .matched ∧
      (row.matchedExpenseId = none ∨ row.matchedExpenseId = some expense.id)
  | .idle | .committed | .failed _ | .aborted => True

structure Inv (req : ℕ → Request) (s : State) : Prop where
  intact : LinksIntact s
  session : ∀ i, SessionInv req s i (s.phase i)

/-- What a step of another session leaves to `j`: its locks, the rows under them, and
every expense. -/
structure Frame (s s' : State) (j : ℕ) : Prop where
  lock : ∀ b, s.bankLock b = some j → s'.bankLock b = some j
  row : ∀ b, s.bankLock b = some j → s'.db.bankTransactions.get b = s.db.bankTransactions.get b
  expense : ∀ e, (∃ x, s.db.expenses.get e = some x) → ∃ x, s'.db.expenses.get e = some x

theorem Holds.frame {j : ℕ} {expense : Expense} {row : BankTransaction} (hf : Frame s s' j)
    (h : Holds req s j expense row) : Holds req s' j expense row where
  lock := hf.lock _ h.lock
  expense := hf.expense _ h.expense
  row := by
    rw [hf.row _ h.lock]
    exact h.row

theorem SessionInv.frame {j : ℕ} {p : Phase} (hf : Frame s s' j) (h : SessionInv req s j p) :
    SessionInv req s' j p := by
  cases p with
  | expenseLocked b expense cached => exact ⟨hf.expense _ h.1, h.2⟩
  | bothLocked expense row => exact Holds.frame hf h
  | flushed w =>
    cases w with
    | park expense => exact h
    | link expense row => exact ⟨Holds.frame hf h.1, h.2⟩
  | _ => exact h

/-- A step of `i` that writes nothing. -/
theorem Inv.move (h : Inv req s) {s₁ : State} {i : ℕ} {p : Phase} (hdb : s₁.db = s.db)
    (hlinks : s₁.links = s.links) (hphase : s₁.phase = s.phase)
    (hlock : ∀ j ≠ i, ∀ b, s.bankLock b = some j → s₁.bankLock b = some j)
    (hp : SessionInv req s₁ i p) : Inv req (s₁.setPhase i p) where
  intact := by
    intro q hq
    have hi := h.intact q (hlinks ▸ hq)
    rw [← hdb] at hi
    exact hi
  session := by
    intro j
    by_cases hj : j = i
    · subst hj
      rw [setPhase_self]
      have hf : Frame s₁ (s₁.setPhase j p) j := ⟨fun _ hb => hb, fun _ _ => rfl, fun _ he => he⟩
      exact hp.frame hf
    · rw [setPhase_of_ne _ _ hj, hphase]
      refine (h.session j).frame ⟨hlock j hj, fun b _ => ?_, fun e he => ?_⟩
      · exact congrArg (·.bankTransactions.get b) hdb
      · rw [← hdb] at he
        exact he

theorem Inv.setPhase (h : Inv req s) {i : ℕ} {p : Phase} (hp : SessionInv req s i p) :
    Inv req (s.setPhase i p) := h.move rfl rfl rfl (fun _ _ _ hb => hb) hp

theorem Inv.fail (h : Inv req s) {i : ℕ} {p : Phase} (hp : SessionInv req (s.release i) i p) :
    Inv req (s.fail i p) := h.move rfl rfl rfl (fun _ hj _ hb => Locks.release_held hj hb) hp

/-! ## Commits -/

/-- The write of a link lands whole: a column left out already has its value. -/
theorem Intact.linked {i : ℕ} {expense : Expense} {row : BankTransaction}
    (h : Holds req s i expense row) (hs : expense.matchStatus ≠ .matched) :
    Intact ((Write.link expense row).apply s.db) expense.id row.id := by
  obtain ⟨x, hx⟩ := h.expense
  obtain ⟨r, hr, hcase⟩ := h.row
  constructor
  · refine ⟨writeStatus expense .matched x, (get_writeExpense s.db ..).trans ?_, ?_⟩
    · rw [hx, Option.map_some, if_pos rfl]
    · exact written_ne _ hs.symm
  · refine ⟨writeLink row expense.id r, (get_link ..).trans ?_, ?_⟩
    · rw [hr, Option.map_some, if_pos rfl]
    · rcases hcase with rfl | ⟨-, hnone, hopen⟩
      · exact ⟨written_self .., written_self ..⟩
      · exact ⟨written_ne _ (by rw [hnone]; nofun), written_ne _ hopen.symm⟩

/-- A link of another bank row is not touched. -/
theorem Intact.link {db : Db} {e b : Id} {expense : Expense} {row : BankTransaction}
    (h : Intact db e b) (hb : b ≠ row.id) : Intact ((Write.link expense row).apply db) e b := by
  obtain ⟨⟨x, hx, hmatched⟩, r, hr, hlink⟩ := h
  constructor
  · refine ⟨_, (get_writeExpense db ..).trans (by rw [hx, Option.map_some]), ?_⟩
    split_ifs
    · unfold writeStatus written Expense.setMatchStatus
      split_ifs
      · exact hmatched
      · rfl
    · exact hmatched
  · refine ⟨r, (get_link ..).trans ?_, hlink⟩
    rw [hr, Option.map_some, if_neg hb]

theorem Intact.park {db : Db} {e b : Id} {expense : Expense} (h : Intact db e b)
    (hne : expense.matchStatus ≠ .pendingReview → e ≠ expense.id) :
    Intact ((Write.park expense).apply db) e b := by
  obtain ⟨⟨x, hx, hmatched⟩, hrow⟩ := h
  refine ⟨⟨_, (get_writeExpense db ..).trans (by rw [hx, Option.map_some]), ?_⟩, hrow⟩
  split_ifs with he
  · have hs : expense.matchStatus = .pendingReview := by
      by_contra hs
      exact hne hs he
    unfold writeStatus written
    rw [if_pos hs.symm]
    exact hmatched
  · exact hmatched

/-- What the commit of an auto-match must not write over: parking changes no expense with a
committed link, linking takes no row another expense has a committed link to. -/
def Spares (links : List (Id × Id)) : Write → Prop
  | .park expense => expense.matchStatus ≠ .pendingReview → ∀ b, (expense.id, b) ∉ links
  | .link expense row => ∀ e, (e, row.id) ∈ links → e = expense.id

def AutoSpares (req : ℕ → Request) (s : State) (ev : Event) : Prop :=
  ∀ i e w, ev = .commit i → req i = .auto e → s.phase i = .flushed w → Spares s.links w

/-- A session of its own needs no such care: it read the row under the lock. -/
theorem Inv.spares (h : Inv req s) {i : ℕ} {w : Write} (hw : s.phase i = .flushed w)
    (hauto : ∀ e, req i = .auto e → Spares s.links w) : Spares s.links w := by
  have hi := h.session i
  rw [hw] at hi
  cases w with
  | park expense =>
    obtain ⟨e, he⟩ := hi
    exact hauto e he
  | link expense row =>
    obtain ⟨hholds, -, hclaim⟩ := hi
    obtain ⟨r, hr, rfl | ⟨⟨e, he⟩, -⟩⟩ := hholds.row
    · intro e hmem
      obtain ⟨-, r', hr', hlink, -⟩ := h.intact _ hmem
      obtain rfl := Option.some.inj (hr.symm.trans hr')
      rw [hlink] at hclaim
      simpa using hclaim
    · exact hauto e he

theorem LinksIntact.write (h : Inv req s) {i : ℕ} {w : Write} (hw : s.phase i = .flushed w)
    (hspares : Spares s.links w) : LinksIntact (s.write w) := by
  have hi := h.session i
  rw [hw] at hi
  rintro ⟨e, b⟩ hmem
  cases w with
  | park expense =>
    have hold : (e, b) ∈ s.links := (List.append_nil s.links) ▸ hmem
    refine (h.intact _ hold).park fun hs he => ?_
    exact hspares hs b (he ▸ hold)
  | link expense row =>
    have hlinked := Intact.linked hi.1 hi.2.1
    rcases List.mem_append.1 hmem with hold | hnew
    · by_cases hb : b = row.id
      · subst hb
        rw [hspares e hold]
        exact hlinked
      · exact (h.intact _ hold).link hb
    · obtain ⟨rfl, rfl⟩ := Prod.mk.inj (List.mem_singleton.1 hnew)
      exact hlinked

theorem LinksIntact.not_write (h : Inv req s) {i : ℕ} {w : Write} (hw : s.phase i = .flushed w)
    (hbad : ¬ Spares s.links w) : ¬ LinksIntact (s.write w) := by
  have hi := h.session i
  rw [hw] at hi
  intro hall
  cases w with
  | park expense =>
    simp only [Spares, not_forall, not_not] at hbad
    obtain ⟨hs, b, hmem⟩ := hbad
    obtain ⟨⟨x, hx, -⟩, -⟩ := h.intact _ hmem
    obtain ⟨⟨x', hx', hmatched⟩, -⟩ := hall _ (List.mem_append_left _ hmem)
    have hparked : (writeExpense s.db expense .pendingReview).expenses.get expense.id =
        some (writeStatus expense .pendingReview x) := by
      rw [get_writeExpense, hx, Option.map_some, if_pos rfl]
    obtain rfl := Option.some.inj (hparked.symm.trans hx')
    rw [show (writeStatus expense .pendingReview x).matchStatus = .pendingReview from
      written_ne _ (Ne.symm hs)] at hmatched
    cases hmatched
  | link expense row =>
    simp only [Spares, not_forall] at hbad
    obtain ⟨e, hmem, hne⟩ := hbad
    obtain ⟨-, r, hr, hlink, -⟩ := Intact.linked hi.1 hi.2.1
    obtain ⟨-, r', hr', hlink', -⟩ := hall _ (List.mem_append_left _ hmem)
    obtain rfl := Option.some.inj (hr.symm.trans hr')
    exact hne (Option.some.inj (hlink'.symm.trans hlink))

/-! ## Steps -/

/-- A commit by its writer, seen by the others: the rows they hold are not the one written. -/
theorem Inv.frame_commit (h : Inv req s) {i j : ℕ} {w : Write} (hw : s.phase i = .flushed w)
    (hj : j ≠ i) : Frame s ((s.write w).release i) j where
  lock b hb := Locks.release_held hj hb
  row b hb := by
    have hi := h.session i
    rw [hw] at hi
    cases w with
    | park expense => rfl
    | link expense row =>
      have hne : b ≠ row.id := by
        rintro rfl
        exact hj (Option.some.inj (hb.symm.trans hi.1.lock))
      refine (get_link ..).trans ?_
      simp only [if_neg hne, Option.map_id']
  expense e he := expense_kept w he

theorem Inv.commit (h : Inv req s) {i : ℕ} {w : Write} (hw : s.phase i = .flushed w)
    (hspares : Spares s.links w) : Inv req (((s.write w).release i).setPhase i .committed) where
  intact := LinksIntact.write h hw hspares
  session := by
    intro j
    by_cases hj : j = i
    · subst hj
      rw [setPhase_self]
      trivial
    · rw [setPhase_of_ne _ _ hj]
      have hf := h.frame_commit hw hj
      exact (h.session j).frame ⟨hf.lock, hf.row, hf.expense⟩

/-- After the ranking the session still knows its rows as it read them. -/
theorem decided_inv {i : ℕ} {scan : Scan} {expense : Expense} {suggested : List ScoredCandidate × ℕ}
    (hauto : ∃ e, req i = .auto e)
    (h : rankCandidates env settings scan s.db expense 2 none none = .ok suggested) :
    SessionInv req s i (decided expense suggested.1) := by
  unfold decided
  split
  · exact hauto
  · refine ⟨fun x hx => (Option.some.inj hx) ▸ rfl, fun r hr => ?_⟩
    obtain ⟨c, hc, rfl⟩ := List.mem_map.1 (List.mem_of_find?_eq_some hr)
    exact ⟨by simpa using List.find?_some hr, hauto, rankCandidates_open h hc⟩

theorem Inv.lockBank (h : Inv req s) {i : ℕ} {b : Id} {expense : Expense}
    {cached : Option BankTransaction} {current : BankTransaction}
    (hp : s.phase i = .expenseLocked b expense cached) (hfree : s.bankLock.Free i b)
    (hrow : s.db.bankTransactions.get b = some current) :
    Inv req ((s.lockBank i b).setPhase i (.bothLocked expense (cached.getD current))) := by
  have hi := h.session i
  rw [hp] at hi
  refine h.move rfl rfl rfl (fun j hj b' hb => Locks.take_held hfree hj hb) ?_
  obtain ⟨hexpense, hcached⟩ := hi
  -- either way the row is `b`: what the map holds, or what the locked SELECT returned
  cases cached with
  | none =>
    obtain rfl := (Table.get_eq_some.1 hrow).2
    exact ⟨Locks.take_self, hexpense, current, hrow, .inl rfl⟩
  | some row =>
    obtain ⟨rfl, hopen⟩ := hcached row rfl
    exact ⟨Locks.take_self, hexpense, current, hrow, .inr hopen⟩

theorem Inv.lockExpense (h : Inv req s) {i : ℕ} {e b : Id} {map : IdentityMap} {current : Expense}
    (hp : s.phase i = .confirming e b map) (hrow : s.db.expenses.get e = some current) :
    Inv req ((s.lockExpense i e).setPhase i
      (.expenseLocked b (map.expense.getD current) map.bankRow)) := by
  have hi := h.session i
  rw [hp] at hi
  refine h.move rfl rfl rfl (fun _ _ _ hb => hb) ⟨⟨current, ?_⟩, hi.2⟩
  obtain ⟨_ | x, cached⟩ := map
  · rw [← hrow]
    exact congrArg s.db.expenses.get (Table.get_eq_some.1 hrow).2
  · rw [← hrow]
    exact congrArg s.db.expenses.get (hi.1 x rfl)

theorem Inv.flush (h : Inv req s) {i : ℕ} {expense : Expense} {row : BankTransaction} {u : Unit}
    (hp : s.phase i = .bothLocked expense row)
    (hopen : checkOpen expense row expense.id row.id = .ok u) :
    Inv req (s.setPhase i (.flushed (.link expense row))) := by
  have hi := h.session i
  rw [hp] at hi
  obtain ⟨hclaim, hstatus⟩ := checkOpen_ok.1 hopen
  exact h.setPhase ⟨hi, hstatus, hclaim⟩

theorem Inv.phase_of (h : Inv req s) {i : ℕ} {p : Phase} (hphase : s.phase i = p) :
    SessionInv req s i p := hphase ▸ h.session i

theorem Inv.step (h : Inv req s) (hok : AutoSpares req s ev)
    (hs : step env settings req s ev = some s') : Inv req s' := by
  cases moved_of_step hs with
  | confirming =>
    refine h.setPhase ⟨fun _ hx => ?_, fun _ hr => ?_⟩
    · cases hx
    · cases hr
  | loaded hreq => exact h.setPhase ⟨_, hreq⟩
  | ranked hphase hrank => exact h.setPhase (decided_inv (h.phase_of hphase) hrank)
  | lockedExpense hphase _ hrow => exact h.lockExpense hphase hrow
  | lockedBank hphase hfree hrow => exact h.lockBank hphase hfree hrow
  | linked hphase hopen => exact h.flush hphase hopen
  | parked hphase =>
    have hi := h.phase_of hphase
    exact h.setPhase hi
  | lockedParked hphase =>
    have hi := h.phase_of hphase
    exact h.move rfl rfl rfl (fun _ _ _ hb => hb) hi
  | committed hphase => exact h.commit hphase (h.spares hphase fun e he => hok _ e _ rfl he hphase)
  | dropped _ hdrop =>
    refine h.fail ?_
    cases hdrop <;> trivial

/-- A commit over a link loses it. -/
theorem Inv.breaks (h : Inv req s) (hbad : ¬ AutoSpares req s ev)
    (hs : MatchSession.step env settings req s ev = some s') : ¬ LinksIntact s' := by
  simp only [AutoSpares, not_forall] at hbad
  obtain ⟨i, e, w, rfl, -, hw, hbad⟩ := hbad
  simp only [MatchSession.step, hw, Option.some.injEq] at hs
  subst hs
  exact LinksIntact.not_write h hw hbad

/-- In a run of any requests on any tables, every committed link stays exactly if no
auto-match commits over one. -/
theorem links_survive_iff {db : Db} {tr : List (State × Event)}
    (hrun : Run (Fires (MatchSession.step env settings req)) (State.init db) tr s) :
    Always LinksIntact tr s ↔ ∀ p ∈ tr, AutoSpares req p.1 p.2 :=
  hrun.always_iff (I := Inv req) ⟨nofun, fun _ => trivial⟩ (fun _ h => h.intact)
    (fun _ _ _ h hok hs => h.step hok hs) fun _ _ _ h hbad hs => h.breaks hbad hs

/-- Two expenses that fit one bank row. -/
def demoTables : Db :=
  { Db.empty with
    expenses := (Table.empty.insert demoExpense demoExpense_id).insert demoExpense demoExpense_id
    bankTransactions := Table.empty.insert demoRow demoRow_id }

/-- Request 0 is an auto-match of `e`, every other one a confirmation for `e'`. -/
def demoRequests (e e' : Id) (i : ℕ) : Request := if i = 0 then .auto e else .confirm e' 1

def demoRun (e e' : Id) (events : List Event) : Option (List (State × Event) × State) :=
  drive (step demoEnv {} (demoRequests e e')) (State.init demoTables) events

/-- No commit, or the first one. -/
def demoFirst (p : State × Event) : Bool :=
  match p.2 with
  | .commit _ => p.1.links.isEmpty
  | _ => true

/-- The auto-match links the row while a confirmation waits for its lock and then fails. -/
theorem links_survive_iff_waiting : ∃ tr s,
    Run (Fires (step demoEnv {} (demoRequests 1 2))) (State.init demoTables) tr s ∧
      s.links = [(1, 1)] ∧ Always LinksIntact tr s := by
  have hdemo : (demoRun 1 2 [.start 0, .rank 0 demoScan, .lockExpense 0, .lockBank 0, .start 1,
      .lockExpense 1, .flush 0, .commit 0, .lockBank 1, .flush 1]).map
        (fun r => (r.2.links, r.1.all demoFirst)) = some ([(1, 1)], true) := by decide +kernel
  obtain ⟨⟨tr, s⟩, hdrive, heq⟩ := Option.map_eq_some_iff.1 hdemo
  obtain ⟨hlinks, hfirst⟩ := Prod.mk.inj heq
  refine ⟨tr, s, run_of_drive hdrive, hlinks, (links_survive_iff (run_of_drive hdrive)).2 ?_⟩
  rintro p hp i e w hev - -
  have hempty := List.all_eq_true.1 hfirst p hp
  simp only [demoFirst, hev, List.isEmpty_iff] at hempty
  rw [hempty]
  cases w <;> simp [Spares]

/-- The auto-match reads the row before the confirmation commits and locks it after: its
session still holds the values of the first read. -/
theorem links_survive_fails : ¬ ∀ (env : Env) (settings : Settings) (req : ℕ → Request) (db : Db)
    (tr : List (State × Event)) (s : State),
    Run (Fires (step env settings req)) (State.init db) tr s → LinksIntact s := by
  intro hall
  have hdemo : (demoRun 2 1 [.start 0, .rank 0 demoScan, .start 1, .lockExpense 1, .lockBank 1,
      .flush 1, .commit 1, .lockExpense 0, .lockBank 0, .flush 0, .commit 0]).map
        (fun r => (r.2.links, r.2.db.bankTransactions.rows.map (·.matchedExpenseId))) =
      some ([(1, 1), (2, 1)], [some 2]) := by decide +kernel
  obtain ⟨⟨tr, s⟩, hdrive, heq⟩ := Option.map_eq_some_iff.1 hdemo
  obtain ⟨hlinks, hrows⟩ := Prod.mk.inj heq
  have hintact := hall demoEnv {} _ _ tr s (run_of_drive hdrive) (1, 1) (by rw [hlinks]; simp)
  obtain ⟨-, r, hr, hlink, -⟩ := hintact
  have hmem := List.mem_map_of_mem (f := (·.matchedExpenseId)) (Table.get_eq_some.1 hr).1
  rw [hrows, hlink] at hmem
  exact absurd hmem (by decide)

end ReckonFlow.MatchSession
