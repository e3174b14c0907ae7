import ReckonFlow.Proofs.Service
import ReckonFlow.Spec.LedgerSessions

/-! The ledger tables whatever SQL is run on them: in every interleaving of any sessions the
committed rows stay, their references lead to rows, and every transaction balances. -/

namespace ReckonFlow.LedgerSession

open Lts Decimal

variable {n : ℕ} {s s' : State n} {ev : Event n} {tr : List (State n × Event n)} {a b c : Rows}

/-! ## Rows -/

theorem append_accounts (a b : Rows) : (a ++ b).accounts = a.accounts ++ b.accounts := rfl

theorem append_transactions (a b : Rows) : (a ++ b).transactions = a.transactions ++ b.transactions := rfl

theorem append_entries (a b : Rows) : (a ++ b).entries = a.entries ++ b.entries := rfl

theorem append_assoc (a b c : Rows) : a ++ (b ++ c) = a ++ b ++ c := by
  show Rows.mk .. = Rows.mk ..
  simp only [append_accounts, append_transactions, append_entries, List.append_assoc]

theorem append_empty (a : Rows) : a ++ Rows.empty = a := by
  show Rows.mk .. = _
  simp only [Rows.empty, List.append_nil]

/-- Two lists of rows have the keys of both. -/
theorem keys_append (a b : Rows) : (a ++ b).keys.Perm (a.keys ++ b.keys) := by
  refine List.perm_iff_count.2 fun k => ?_
  simp only [Rows.keys, append_accounts, append_transactions, append_entries, List.map_append,
    List.count_append]
  omega

theorem mem_keys_append {k : Key} : k ∈ (a ++ b).keys ↔ k ∈ a.keys ∨ k ∈ b.keys := by
  rw [(keys_append a b).mem_iff, List.mem_append]

theorem nodup_keys_append : (a ++ b).keys.Nodup ↔
    a.keys.Nodup ∧ b.keys.Nodup ∧ ∀ k ∈ b.keys, k ∉ a.keys := by
  rw [(keys_append a b).nodup_iff, List.nodup_append']
  refine and_congr_right fun _ => and_congr_right fun _ => ?_
  exact ⟨fun h k hb ha => h ha hb, fun h k ha hb => h k hb ha⟩

theorem imbalance_append (l l' : List LedgerEntry) (t : Id) :
    imbalance (l ++ l') t = imbalance l t + imbalance l' t := by
  simp only [imbalance, List.filter_append, List.map_append, List.sum_append]
  ring

theorem imbalance_eq_zero {l : List LedgerEntry} {t : Id} (h : ∀ e ∈ l, e.transactionId ≠ t) :
    imbalance l t = 0 := by
  have hnone : l.filter (·.transactionId = t) = [] :=
    List.filter_eq_nil_iff.2 fun e he => by simpa using h e he
  simp only [imbalance, hnone, List.map_nil, List.sum_nil, sub_zero]

theorem imbalance_hasScale (l : List LedgerEntry) (t : Id) : HasScale 4 (imbalance l t) := by
  refine HasScale.sub (sum_hasScale ?_) (sum_hasScale ?_)
  · rintro x hx
    obtain ⟨e, -, rfl⟩ := List.mem_map.1 hx
    exact e.debit.value_hasScale
  · rintro x hx
    obtain ⟨e, -, rfl⟩ := List.mem_map.1 hx
    exact e.credit.value_hasScale

theorem balanced_of_check {l : List LedgerEntry} {t : Id} {u : Unit}
    (h : checkBalanced l t = .ok u) : imbalance l t = 0 := by
  simp only [checkBalanced, Except.bind_eq_ok, numeric_eq_ok, ensure_eq_ok] at h
  obtain ⟨x, hx, hzero⟩ := h
  rw [← Numeric.value_of_ofRat? (imbalance_hasScale l t) hx, Numeric.value, hzero]
  simp

/-! ## The invariant -/

/-- Every entry names a transaction and an account among the rows. -/
def Referenced (rows : Rows) (entries : List LedgerEntry) : Prop :=
  ∀ e ∈ entries, (∃ t ∈ rows.transactions, t.id = e.transactionId) ∧
    ∃ a ∈ rows.accounts, a.id = e.accountId

theorem Referenced.mono {entries : List LedgerEntry} (h : Referenced a entries)
    (ht : ∀ t ∈ a.transactions, t ∈ b.transactions) (ha : ∀ x ∈ a.accounts, x ∈ b.accounts) :
    Referenced b entries := by
  intro e he
  obtain ⟨⟨t, hmem, hid⟩, x, hx, hidx⟩ := h e he
  exact ⟨⟨t, ht t hmem, hid⟩, x, ha x hx, hidx⟩

theorem Referenced.append_left {entries : List LedgerEntry} (h : Referenced a entries) :
    Referenced (a ++ b) entries :=
  h.mono (fun _ => List.mem_append_left _) fun _ => List.mem_append_left _

/-- Tables with one row a key, no reference into the void, and balanced transactions. -/
structure Sound (rows : Rows) : Prop where
  keys : rows.keys.Nodup
  referenced : Referenced rows rows.entries
  balanced : ∀ t, imbalance rows.entries t = 0

/-- Work that may still be committed: where no check is due, its own entries balance. -/
structure Fits (committed : Rows) (w : Work) : Prop where
  keys : (committed ++ w.own).keys.Nodup
  referenced : Referenced (committed ++ w.own) w.own.entries
  due : ∀ t, t ∉ w.pending → imbalance w.own.entries t = 0

def snapshotOf : Phase → Option Rows
  | .active snapshot _ _ | .broken snapshot _ => snapshot
  | .idle | .ended => none

/-- No row of `w` has a key of a row of `w'`. -/
def Apart (w w' : Work) : Prop := ∀ k ∈ w.own.keys, k ∉ w'.own.keys

structure Inv (s : State n) : Prop where
  sound : Sound s.committed
  snapshot : ∀ i r, snapshotOf (s.phase i) = some r → ∀ t, imbalance r.entries t = 0
  fits : ∀ i, ∀ w ∈ works (s.phase i), Fits s.committed w
  apart : ∀ i j, i ≠ j → ∀ w ∈ works (s.phase i), ∀ w' ∈ works (s.phase j), Apart w w'

theorem Apart.symm {w w' : Work} (h : Apart w w') : Apart w' w := fun k hk hk' => h k hk' hk

theorem Fits.nothing (h : Sound a) : Fits a {} where
  keys := by rw [show a ++ ({} : Work).own = a from append_empty a]; exact h.keys
  referenced := by rintro e ⟨⟩
  due _ _ := imbalance_eq_zero (by rintro e ⟨⟩)

theorem Inv.init : Inv (State.init n) where
  sound := ⟨List.nodup_nil, by rintro e ⟨⟩, fun _ => imbalance_eq_zero (by rintro e ⟨⟩)⟩
  snapshot := by rintro i r ⟨⟩
  fits := by rintro i w ⟨⟩
  apart := by rintro i j - w ⟨⟩

/-! ## Steps that commit nothing -/

@[simp] theorem setPhase_self (s : State n) (i : Fin n) (p : Phase) : (s.setPhase i p).phase i = p :=
  Function.update_self ..

theorem setPhase_of_ne (s : State n) {i j : Fin n} (p : Phase) (h : j ≠ i) :
    (s.setPhase i p).phase j = s.phase j := Function.update_of_ne h ..

theorem Inv.move (h : Inv s) {i : Fin n} {p : Phase}
    (hsnapshot : ∀ r, snapshotOf p = some r → ∀ t, imbalance r.entries t = 0)
    (hfits : ∀ w ∈ works p, Fits s.committed w)
    (hapart : ∀ j ≠ i, ∀ w ∈ works p, ∀ w' ∈ works (s.phase j), Apart w w') :
    Inv (s.setPhase i p) where
  sound := h.sound
  snapshot := by
    intro j r hr
    by_cases hj : j = i
    · subst hj
      rw [setPhase_self] at hr
      exact hsnapshot r hr
    · rw [setPhase_of_ne _ _ hj] at hr
      exact h.snapshot j r hr
  fits := by
    intro j w hw
    by_cases hj : j = i
    · subst hj
      rw [setPhase_self] at hw
      exact hfits w hw
    · rw [setPhase_of_ne _ _ hj] at hw
      exact h.fits j w hw
  apart := by
    intro j k hjk w hw w' hw'
    by_cases hj : j = i
    · subst hj
      rw [setPhase_self] at hw
      rw [setPhase_of_ne _ _ (Ne.symm hjk)] at hw'
      exact hapart k (Ne.symm hjk) w hw w' hw'
    · rw [setPhase_of_ne _ _ hj] at hw
      by_cases hk : k = i
      · subst hk
        rw [setPhase_self] at hw'
        exact (hapart j hj w' hw' w hw).symm
      · rw [setPhase_of_ne _ _ hk] at hw'
        exact h.apart j k hjk w hw w' hw'

/-- A step after which the session may commit nothing it could not commit before. -/
theorem Inv.shrink (h : Inv s) {i : Fin n} {p : Phase}
    (hsnapshot : ∀ r, snapshotOf p = some r → snapshotOf (s.phase i) = some r)
    (hworks : ∀ w ∈ works p, w ∈ works (s.phase i)) : Inv (s.setPhase i p) :=
  h.move (fun r hr => h.snapshot i r (hsnapshot r hr)) (fun w hw => h.fits i w (hworks w hw))
    fun j hj w hw w' hw' => h.apart i j (Ne.symm hj) w (hworks w hw) w' hw'

/-- A statement that succeeds with `work'`, or breaks the transaction. -/
theorem Inv.attempt (h : Inv s) {i : Fin n} {snapshot : Option Rows} {work : Work}
    {saved : List Work} {result : Except Error Work} (hphase : s.phase i = .active snapshot work saved)
    (hresult : ∀ work', result = .ok work' → Fits s.committed work' ∧
      ∀ j ≠ i, ∀ w' ∈ works (s.phase j), Apart work' w') :
    Inv (s.attempt i snapshot saved result) := by
  have hsnapshot : ∀ r, snapshot = some r → snapshotOf (s.phase i) = some r := by
    rw [hphase]
    exact fun r hr => hr
  have hsaved : ∀ w ∈ saved, w ∈ works (s.phase i) := by
    rw [hphase]
    exact fun w hw => List.mem_cons_of_mem _ hw
  cases result with
  | error err => exact h.shrink hsnapshot hsaved
  | ok work' =>
    obtain ⟨hfits, hapart⟩ := hresult work' rfl
    refine h.move (fun r hr => h.snapshot i r (hsnapshot r hr)) ?_ fun j hj w hw w' hw' => ?_
    · rintro w (_ | ⟨_, hw⟩)
      · exact hfits
      · exact h.fits i w (hsaved w hw)
    · rcases List.mem_cons.1 hw with rfl | hw
      · exact hapart j hj w' hw'
      · exact h.apart i j (Ne.symm hj) w (hsaved w hw) w' hw'

theorem mem_work {i : Fin n} {snapshot : Option Rows} {work : Work} {saved : List Work}
    (hphase : s.phase i = .active snapshot work saved) : work ∈ works (s.phase i) :=
  hphase ▸ List.mem_cons_self ..

/-- An INSERT: its entries are due to be checked. -/
theorem Fits.insert {committed new : Rows} {work work' : Work} (h : Fits committed work)
    (hinsert : insertRows committed work new = .ok work') : Fits committed work' := by
  simp only [insertRows, Except.bind_eq_ok, ensure_eq_ok, Except.pure_eq_ok] at hinsert
  obtain ⟨_, hfresh, _, hnodup, _, htransaction, _, haccount, rfl⟩ := hinsert
  refine ⟨?_, ?_, fun t ht => ?_⟩
  · rw [append_assoc]
    exact nodup_keys_append.2 ⟨h.keys, hnodup, hfresh⟩
  · intro e he
    rcases List.mem_append.1 he with hold | hnew
    · rw [append_assoc]
      exact h.referenced.append_left e hold
    · exact ⟨htransaction e hnew, haccount e hnew⟩
  · obtain ⟨hpending, hnew⟩ := not_or.1 (List.mem_append.not.1 ht)
    have hnone : ∀ e ∈ new.entries, e.transactionId ≠ t :=
      fun e he heq => hnew (List.mem_map.2 ⟨e, he, heq⟩)
    show imbalance (work.own.entries ++ new.entries) t = 0
    rw [imbalance_append, h.due t hpending, imbalance_eq_zero hnone, add_zero]

theorem insertRows_own {committed new : Rows} {work work' : Work}
    (h : insertRows committed work new = .ok work') : work'.own = work.own ++ new := by
  simp only [insertRows, Except.bind_eq_ok, ensure_eq_ok, Except.pure_eq_ok] at h
  obtain ⟨_, -, _, -, _, -, _, -, rfl⟩ := h
  rfl

theorem Inv.insert (h : Inv s) {i : Fin n} {new : Rows} {snapshot : Option Rows} {work : Work}
    {saved : List Work} (hphase : s.phase i = .active snapshot work saved)
    (hfree : ¬ Contended s i new) :
    Inv (s.attempt i snapshot saved (insertRows s.committed work new)) := by
  refine h.attempt hphase fun work' hinsert => ⟨(h.fits i work (mem_work hphase)).insert hinsert, ?_⟩
  intro j hj w' hw' k hk hk'
  rw [insertRows_own hinsert] at hk
  rcases mem_keys_append.1 hk with hold | hnew
  · exact h.apart i j (Ne.symm hj) work (mem_work hphase) w' hw' k hold hk'
  · exact hfree ⟨j, hj, w', hw', k, hnew, hk'⟩

/-- Whatever snapshot the session reads, what is not its own balances. -/
theorem Inv.base (h : Inv s) {i : Fin n} {snapshot : Option Rows} {work : Work} {saved : List Work}
    (hphase : s.phase i = .active snapshot work saved) (t : Id) :
    imbalance (snapshot.getD s.committed).entries t = 0 := by
  cases hsnapshot : snapshot with
  | none => exact h.sound.balanced t
  | some r => exact h.snapshot i r (by rw [hphase]; exact hsnapshot) t

theorem Inv.check (h : Inv s) {i : Fin n} {snapshot : Option Rows} {own : Rows} {t : Id}
    {pending : List Id} {saved : List Work}
    (hphase : s.phase i = .active snapshot ⟨own, t :: pending⟩ saved) :
    Inv (s.attempt i snapshot saved
      ((checkBalanced (s.seen snapshot ⟨own, t :: pending⟩).entries t).map fun _ => ⟨own, pending⟩)) := by
  refine h.attempt hphase fun work' hcheck => ?_
  obtain ⟨_, hok, rfl⟩ := Except.map_eq_ok.1 hcheck
  have hfits := h.fits i _ (mem_work hphase)
  refine ⟨⟨hfits.keys, hfits.referenced, fun t' ht' => ?_⟩, ?_⟩
  · by_cases heq : t' = t
    · subst heq
      have hzero := balanced_of_check hok
      rw [State.seen, append_entries, imbalance_append, h.base hphase, zero_add] at hzero
      exact hzero
    · exact hfits.due t' (by simp [heq, ht'])
  · intro j hj w' hw' k hk
    exact h.apart i j (Ne.symm hj) _ (mem_work hphase) w' hw' k hk

/-! ## Commits -/

theorem Sound.commit (h : Sound a) {own : Rows} (hfits : Fits a ⟨own, []⟩) : Sound (a ++ own) where
  keys := hfits.keys
  referenced := by
    intro e he
    rcases List.mem_append.1 he with hold | hnew
    · exact h.referenced.append_left e hold
    · exact hfits.referenced e hnew
  balanced t := by
    have hown : imbalance own.entries t = 0 := hfits.due t (by simp)
    rw [append_entries, imbalance_append, h.balanced, hown, add_zero]

/-- The work of the others still fits. -/
theorem Fits.committed {own : Rows} {w : Work} (h : Fits a w) (hown : Fits a ⟨own, []⟩)
    (hapart : Apart w ⟨own, []⟩) : Fits (a ++ own) w where
  keys := by
    refine nodup_keys_append.2 ⟨hown.keys, (nodup_keys_append.1 h.keys).2.1, fun k hk hmem => ?_⟩
    rcases mem_keys_append.1 hmem with hold | hnew
    · exact (nodup_keys_append.1 h.keys).2.2 k hk hold
    · exact hapart k hk hnew
  referenced := by
    refine h.referenced.mono (fun t ht => ?_) fun x hx => ?_
    · simp only [append_transactions, List.mem_append] at ht ⊢
      exact ht.imp_left .inl
    · simp only [append_accounts, List.mem_append] at hx ⊢
      exact hx.imp_left .inl
  due := h.due

theorem Inv.commit (h : Inv s) {i : Fin n} {snapshot : Option Rows} {own : Rows} {saved : List Work}
    (hphase : s.phase i = .active snapshot ⟨own, []⟩ saved) :
    Inv { s.setPhase i .ended with committed := s.committed ++ own } := by
  have hended : Inv (s.setPhase i .ended) := h.shrink nofun nofun
  have hown := h.fits i _ (mem_work hphase)
  refine ⟨h.sound.commit hown, hended.snapshot, fun j w hw => ?_, hended.apart⟩
  by_cases hj : j = i
  · subst hj
    rw [show ({ s.setPhase j .ended with committed := s.committed ++ own } : State n).phase j = .ended
      from setPhase_self ..] at hw
    cases hw
  · rw [show ({ s.setPhase i .ended with committed := s.committed ++ own } : State n).phase j = s.phase j
      from setPhase_of_ne _ _ hj] at hw
    exact (h.fits j w hw).committed hown (h.apart j i hj w hw _ (mem_work hphase))

/-! ## Whole runs -/

theorem Inv.mutate (h : Inv s) {i : Fin n} {snapshot : Option Rows} {work : Work} {saved : List Work}
    (hphase : s.phase i = .active snapshot work saved) (refused : Except Error Unit) :
    Inv (s.attempt i snapshot saved (refused.map fun _ => work)) := by
  refine h.attempt hphase fun work' hok => ?_
  obtain ⟨_, -, rfl⟩ := Except.map_eq_ok.1 hok
  exact ⟨h.fits i _ (mem_work hphase),
    fun j hj w' hw' => h.apart i j (Ne.symm hj) _ (mem_work hphase) w' hw'⟩

/-- The rows committed so far are still committed. -/
structure Extends (a b : Rows) : Prop where
  accounts : a.accounts <+: b.accounts
  transactions : a.transactions <+: b.transactions
  entries : a.entries <+: b.entries

theorem Extends.refl (a : Rows) : Extends a a :=
  ⟨List.prefix_rfl, List.prefix_rfl, List.prefix_rfl⟩

theorem Extends.trans (h : Extends a b) (h' : Extends b c) : Extends a c :=
  ⟨h.accounts.trans h'.accounts, h.transactions.trans h'.transactions, h.entries.trans h'.entries⟩

theorem extends_append (a b : Rows) : Extends a (a ++ b) :=
  ⟨List.prefix_append .., List.prefix_append .., List.prefix_append ..⟩

theorem attempt_extends (i : Fin n) (snapshot : Option Rows) (saved : List Work)
    (result : Except Error Work) : Extends s.committed (s.attempt i snapshot saved result).committed := by
  cases result <;> exact .refl _

theorem Inv.step (h : Inv s) (hs : step s ev = some s') :
    Inv s' ∧ Extends s.committed s'.committed := by
  cases ev with
  | start i repeatable =>
    simp only [LedgerSession.step] at hs
    split at hs
    · obtain rfl := Option.some.inj hs
      refine ⟨h.move (fun r hr => ?_) ?_ ?_, .refl _⟩
      · cases repeatable with
        | true =>
          obtain rfl := Option.some.inj hr
          exact h.sound.balanced
        | false => cases hr
      · rintro w hw
        obtain rfl := List.mem_singleton.1 hw
        exact .nothing h.sound
      · rintro j - w hw
        obtain rfl := List.mem_singleton.1 hw
        rintro w' - k ⟨⟩
    · cases hs
  | insert i new =>
    simp only [LedgerSession.step] at hs
    split at hs
    · split_ifs at hs with hfree
      obtain rfl := Option.some.inj hs
      exact ⟨h.insert ‹_› hfree, attempt_extends ..⟩
    · cases hs
  | mutateTransactions i op found =>
    simp only [LedgerSession.step] at hs
    split at hs
    · obtain rfl := Option.some.inj hs
      exact ⟨h.mutate ‹_› _, attempt_extends ..⟩
    · cases hs
  | mutateEntries i op found =>
    simp only [LedgerSession.step] at hs
    split at hs
    · obtain rfl := Option.some.inj hs
      exact ⟨h.mutate ‹_› _, attempt_extends ..⟩
    · cases hs
  | check i =>
    simp only [LedgerSession.step] at hs
    split at hs
    · obtain rfl := Option.some.inj hs
      exact ⟨h.check ‹_›, attempt_extends ..⟩
    · cases hs
  | error i =>
    simp only [LedgerSession.step] at hs
    split at hs
    · rename_i hphase
      obtain rfl := Option.some.inj hs
      refine ⟨h.shrink (fun r hr => ?_) fun w hw => ?_, .refl _⟩
      · rw [hphase]
        exact hr
      · rw [hphase]
        exact List.mem_cons_of_mem _ hw
    · cases hs
  | savepoint i =>
    simp only [LedgerSession.step] at hs
    split at hs
    · rename_i hphase
      obtain rfl := Option.some.inj hs
      refine ⟨h.shrink (fun r hr => ?_) fun w hw => ?_, .refl _⟩
      · rw [hphase]
        exact hr
      · rw [hphase]
        rcases List.mem_cons.1 hw with rfl | hw
        · exact List.mem_cons_self ..
        · exact hw
    · cases hs
  | rollbackTo i =>
    simp only [LedgerSession.step] at hs
    split at hs
    · rename_i hphase
      obtain rfl := Option.some.inj hs
      refine ⟨h.shrink (fun r hr => ?_) fun w hw => ?_, .refl _⟩
      · rw [hphase]
        exact hr
      · rw [hphase]
        rcases List.mem_cons.1 hw with rfl | hw
        · exact List.mem_cons_of_mem _ (List.mem_cons_self ..)
        · exact List.mem_cons_of_mem _ hw
    · rename_i hphase
      obtain rfl := Option.some.inj hs
      refine ⟨h.shrink (fun r hr => ?_) fun w hw => ?_, .refl _⟩
      · rw [hphase]
        exact hr
      · rw [hphase]
        rcases List.mem_cons.1 hw with rfl | hw
        · exact List.mem_cons_self ..
        · exact hw
    · cases hs
  | releaseSavepoint i =>
    simp only [LedgerSession.step] at hs
    split at hs
    · rename_i hphase
      obtain rfl := Option.some.inj hs
      refine ⟨h.shrink (fun r hr => ?_) fun w hw => ?_, .refl _⟩
      · rw [hphase]
        exact hr
      · rw [hphase]
        rcases List.mem_cons.1 hw with rfl | hw
        · exact List.mem_cons_self ..
        · exact List.mem_cons_of_mem _ (List.mem_cons_of_mem _ hw)
    · cases hs
  | commit i =>
    simp only [LedgerSession.step] at hs
    split at hs
    · obtain rfl := Option.some.inj hs
      exact ⟨h.commit ‹_›, extends_append ..⟩
    · obtain rfl := Option.some.inj hs
      exact ⟨h.shrink nofun nofun, .refl _⟩
    · cases hs
  | rollback i =>
    simp only [LedgerSession.step] at hs
    split at hs
    · obtain rfl := Option.some.inj hs
      exact ⟨h.shrink nofun nofun, .refl _⟩
    · obtain rfl := Option.some.inj hs
      exact ⟨h.shrink nofun nofun, .refl _⟩
    · cases hs

/-- Any SQL of any sessions, interleaved: what is committed has one row a key, no reference into
the void and, over all currencies, balanced transactions; and no committed row changes or goes. -/
theorem ledger_protected (hrun : Run (Fires step) (State.init n) tr s) :
    Sound s.committed ∧ ∀ p ∈ tr, Extends p.1.committed s.committed := by
  have h : Inv s := hrun.invariant .init fun _ _ _ h hs => (h.step hs).1
  refine ⟨h.sound, ?_⟩
  clear h
  induction hrun with
  | nil => rintro p ⟨⟩
  | snoc hr hs ih =>
    have hinv := hr.invariant Inv.init fun _ _ _ h hs => (h.step hs).1
    intro p hp
    rcases List.mem_append.1 hp with hp | hp
    · exact (ih p hp).trans (hinv.step hs).2
    · obtain rfl := List.mem_singleton.1 hp
      exact (hinv.step hs).2

/-! Two sessions add to one transaction: half an entry each is refused, and so is an UPDATE. -/

def demoMoney (units : ℤ) (h : |units| < 10 ^ 15 := by decide) : Money := ⟨units, h⟩

def demoBooks : Rows where
  accounts := [⟨1, "CASH", "Cash", "EUR"⟩, ⟨2, "TRAVEL", "Travel", "EUR"⟩]
  transactions := [⟨1, "T-1", "Hotel"⟩]
  entries := [⟨1, 1, 2, demoMoney 50000, demoMoney 0, "EUR", none, by decide +kernel⟩,
    ⟨2, 1, 1, demoMoney 0, demoMoney 50000, "EUR", none, by decide +kernel⟩]

def demoHalf (id accountId : Id) (debit : Bool) : Rows where
  accounts := []
  transactions := []
  entries := [if debit then ⟨id, 1, accountId, demoMoney 10000, demoMoney 0, "EUR", none, by decide +kernel⟩
    else ⟨id, 1, accountId, demoMoney 0, demoMoney 10000, "EUR", none, by decide +kernel⟩]

def demoEvents : List (Event 4) :=
  [.start 0 false, .insert 0 demoBooks, .check 0, .check 0, .commit 0, .start 1 true, .start 2 false,
    .insert 1 (demoHalf 3 2 true), .insert 2 (demoHalf 4 1 false), .check 2, .commit 2, .savepoint 1,
    .insert 1 (demoHalf 5 1 false), .check 1, .check 1, .start 3 false,
    .mutateEntries 3 "DELETE" (fun _ => true), .commit 3, .commit 1]

theorem ledger_protected_halves : ∃ tr s, Run (Fires step) (State.init 4) tr s ∧
    s.committed.entries.map (·.id) = [1, 2, 3, 5] ∧ Sound s.committed := by
  have hdemo : (drive step (State.init 4) demoEvents).map (·.2.committed.entries.map (·.id)) =
      some [1, 2, 3, 5] := by decide +kernel
  obtain ⟨⟨tr, s⟩, hdrive, hentries⟩ := Option.map_eq_some_iff.1 hdemo
  exact ⟨tr, s, run_of_drive hdrive, hentries, (ledger_protected (run_of_drive hdrive)).1⟩

end ReckonFlow.LedgerSession
