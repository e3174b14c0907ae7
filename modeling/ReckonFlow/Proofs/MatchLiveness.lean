import ReckonFlow.Lib.Progress
import ReckonFlow.Proofs.Confirmations

/-! Confirmations and auto-matches in any mixture: no wait closes a circle, and all requests
that are open can be answered without one of them being aborted. -/

namespace ReckonFlow.MatchSession

open Lts

variable {env : Env} {settings : Settings} {req : ℕ → Request} {s s' : State} {ev : Event}
  {db : Db} {tr : List (State × Event)}

/-! ## Locks and the phases that keep them -/

/-- Session `i` cannot go on before `j` ends: `flag_for_review` updates the expense without
having locked it. -/
inductive Blocked (s : State) (i j : ℕ) : Prop
  | waits (h : Waits s i j)
  | parking {expense : Expense} (hphase : s.phase i = .parking expense)
      (hchanged : expense.matchStatus ≠ .pendingReview)
      (hlock : s.expenseLock expense.id = some j) (hne : j ≠ i)

def LocksExpense : Phase → Prop
  | .expenseLocked .. | .bothLocked .. | .flushed _ => True
  | _ => False

def LocksBank : Phase → Prop
  | .bothLocked .. | .flushed (.link ..) => True
  | _ => False

/-- A session in `confirm_match` has locked the expense it works on. -/
def Owned (s : State) (i : ℕ) : Phase → Prop
  | .confirming e _ map => ∀ x, map.expense = some x → x.id = e
  | .expenseLocked _ expense _ | .bothLocked expense _ | .flushed (.link expense _) =>
      s.expenseLock expense.id = some i
  | _ => True

structure Held (s : State) : Prop where
  owned : ∀ i, Owned s i (s.phase i)
  expense : ∀ e i, s.expenseLock e = some i → LocksExpense (s.phase i)
  bank : ∀ b i, s.bankLock b = some i → LocksBank (s.phase i)

theorem Held.init : Held (State.init db) where
  owned _ := trivial
  expense := by rintro e i ⟨⟩
  bank := by rintro b i ⟨⟩

theorem Held.of_phase (h : Held s) {i : ℕ} {p : Phase} (hphase : s.phase i = p) : Owned s i p :=
  hphase ▸ h.owned i

theorem Owned.frame {i : ℕ} {p : Phase}
    (hlock : ∀ e, s.expenseLock e = some i → s'.expenseLock e = some i) (h : Owned s i p) :
    Owned s' i p := by
  cases p with
  | confirming e b map => exact h
  | expenseLocked b expense cached => exact hlock _ h
  | bothLocked expense row => exact hlock _ h
  | flushed w =>
    cases w with
    | park expense => exact h
    | link expense row => exact hlock _ h
  | _ => exact h

/-- A step of `i`, which leaves the others their locks. -/
theorem Held.move (h : Held s) {s₁ : State} {i : ℕ} {p : Phase} (hphase : s₁.phase = s.phase)
    (hexpenses : ∀ j ≠ i, ∀ e, s₁.expenseLock e = some j ↔ s.expenseLock e = some j)
    (hbanks : ∀ j ≠ i, ∀ b, s₁.bankLock b = some j ↔ s.bankLock b = some j)
    (howned : Owned s₁ i p) (hexpense : ∀ e, s₁.expenseLock e = some i → LocksExpense p)
    (hbank : ∀ b, s₁.bankLock b = some i → LocksBank p) : Held (s₁.setPhase i p) := by
  have hold : ∀ j ≠ i, (s₁.setPhase i p).phase j = s.phase j := by
    intro j hj
    rw [setPhase_of_ne _ _ hj, hphase]
  refine ⟨fun j => ?_, fun e j he => ?_, fun b j hb => ?_⟩
  · by_cases hj : j = i
    · subst hj
      rw [setPhase_self]
      have hsame : ∀ e, s₁.expenseLock e = some j → (s₁.setPhase j p).expenseLock e = some j :=
        fun _ he => he
      exact howned.frame hsame
    · rw [hold j hj]
      exact (h.owned j).frame fun e he => (hexpenses j hj e).2 he
  · by_cases hj : j = i
    · subst hj
      rw [setPhase_self]
      exact hexpense e he
    · rw [hold j hj]
      exact h.expense e j ((hexpenses j hj e).1 he)
  · by_cases hj : j = i
    · subst hj
      rw [setPhase_self]
      exact hbank b hb
    · rw [hold j hj]
      exact h.bank b j ((hbanks j hj b).1 hb)

theorem Held.setPhase (h : Held s) {i : ℕ} {p : Phase} (howned : Owned s i p)
    (hexpense : LocksExpense (s.phase i) → LocksExpense p)
    (hbank : LocksBank (s.phase i) → LocksBank p) : Held (s.setPhase i p) :=
  h.move rfl (fun _ _ _ => Iff.rfl) (fun _ _ _ => Iff.rfl) howned
    (fun e he => hexpense (h.expense e i he)) fun b hb => hbank (h.bank b i hb)

/-- The end of a transaction. -/
theorem Held.close (h : Held s) {i : ℕ} {p : Phase} (howned : Owned (s.release i) i p) :
    Held ((s.release i).setPhase i p) :=
  h.move rfl (fun _ hj _ => Locks.release_iff hj) (fun _ hj _ => Locks.release_iff hj) howned
    (fun _ he => absurd he Locks.release_self) fun _ hb => absurd hb Locks.release_self

theorem Held.lockExpense (h : Held s) {i : ℕ} {e : Id} {p : Phase} (hfree : s.expenseLock.Free i e)
    (howned : Owned (s.lockExpense i e) i p) (hexpense : LocksExpense p)
    (hbank : LocksBank (s.phase i) → LocksBank p) : Held ((s.lockExpense i e).setPhase i p) :=
  h.move rfl (fun _ hj _ => Locks.take_iff hfree hj) (fun _ _ _ => Iff.rfl) howned
    (fun _ _ => hexpense) fun b hb => hbank (h.bank b i hb)

theorem Held.lockBank (h : Held s) {i : ℕ} {b : Id} {p : Phase} (hfree : s.bankLock.Free i b)
    (howned : Owned (s.lockBank i b) i p) (hexpense : LocksExpense p) (hbank : LocksBank p) :
    Held ((s.lockBank i b).setPhase i p) :=
  h.move rfl (fun _ _ _ => Iff.rfl) (fun _ hj _ => Locks.take_iff hfree hj) howned
    (fun _ _ => hexpense) fun _ _ => hbank

theorem Held.write (h : Held s) (w : Write) : Held (s.write w) := ⟨h.owned, h.expense, h.bank⟩

/-! ## Steps -/

/-- How many statements a session that has started has before it, at most. -/
def remaining : Phase → ℕ
  | .loaded _ => 5
  | .confirming .. => 4
  | .expenseLocked .. => 3
  | .bothLocked .. | .parking _ => 2
  | .flushed _ => 1
  | .idle | .committed | .failed _ | .aborted => 0

/-- What a statement of session `i` leaves behind. -/
structure Advanced (s s' : State) (i : ℕ) : Prop where
  held : Held s'
  others : ∀ j, j ≠ i → s'.phase j = s.phase j
  less : s.phase i ≠ .idle → remaining (s'.phase i) < remaining (s.phase i)
  ended : s.phase i ≠ .idle → remaining (s'.phase i) = 0 → Finished (s'.phase i)

theorem Advanced.of {s₁ : State} {i : ℕ} {p : Phase} (hheld : Held (s₁.setPhase i p))
    (hphase : s₁.phase = s.phase) (hless : s.phase i ≠ .idle → remaining p < remaining (s.phase i))
    (hended : s.phase i ≠ .idle → remaining p = 0 → Finished p) :
    Advanced s (s₁.setPhase i p) i := by
  refine ⟨hheld, fun j hj => ?_, ?_, ?_⟩
  · rw [setPhase_of_ne _ _ hj, hphase]
  · rwa [setPhase_self]
  · rwa [setPhase_self]

theorem remaining_decided (expense : Expense) (ranked : List ScoredCandidate) :
    0 < remaining (decided expense ranked) ∧ remaining (decided expense ranked) < 5 := by
  unfold decided
  split <;> simp [remaining]

theorem Held.fail (h : Held s) {i : ℕ} (err : Error)
    (hlive : s.phase i ≠ .idle → 0 < remaining (s.phase i)) :
    Advanced s (s.fail i (.failed err)) i :=
  .of (h.close trivial) rfl hlive fun _ _ => trivial

def Event.session : Event → ℕ
  | .start i | .rank i _ | .lockExpense i | .lockBank i | .flush i | .commit i | .abort i => i

/-- One statement, as the session that takes it and the others see it. -/
theorem Held.step (h : Held s) (hs : step env settings req s ev = some s') :
    Advanced s s' ev.session := by
  cases ev with
  | start i =>
    simp only [MatchSession.step] at hs
    split at hs
    · rename_i hphase hreq
      obtain rfl := Option.some.inj hs
      refine .of (h.setPhase ?_ ?_ ?_) rfl (absurd hphase) (absurd hphase)
      · rintro x ⟨⟩
      · rw [hphase]; exact id
      · rw [hphase]; exact id
    · rename_i hphase hreq
      obtain rfl := Option.some.inj hs
      split
      · refine .of (h.setPhase trivial ?_ ?_) rfl (absurd hphase) (absurd hphase)
        · rw [hphase]; exact id
        · rw [hphase]; exact id
      · exact h.fail _ (absurd hphase)
    · cases hs
  | rank i scan =>
    simp only [MatchSession.step] at hs
    split at hs
    · rename_i expense hphase
      obtain rfl := Option.some.inj hs
      split
      · rename_i suggested hrank
        obtain ⟨hpos, hlt⟩ := remaining_decided expense suggested.1
        refine .of (h.setPhase ?_ ?_ ?_) rfl (fun _ => by rw [hphase]; exact hlt)
          fun _ hzero => absurd hzero hpos.ne'
        · unfold decided
          split
          · trivial
          · rintro x ⟨⟩
            rfl
        · rw [hphase]; exact False.elim
        · rw [hphase]; exact False.elim
      · exact h.fail _ fun _ => by simp [hphase, remaining]
    · cases hs
  | lockExpense i =>
    simp only [MatchSession.step] at hs
    split at hs
    · rename_i e b map hphase
      split_ifs at hs with hfree
      obtain rfl := Option.some.inj hs
      split
      · rename_i current hrow
        have howned : (map.expense.getD current).id = e := by
          cases hmap : map.expense with
          | none => exact (Table.get_eq_some.1 (required_eq_ok.1 hrow)).2
          | some x => exact h.of_phase hphase x hmap
        refine .of (h.lockExpense hfree ?_ trivial ?_) rfl (fun _ => by simp [hphase, remaining])
          fun _ hzero => absurd hzero (by simp [remaining])
        · exact howned.symm ▸ Locks.take_self
        · rw [hphase]; exact False.elim
      · exact h.fail _ fun _ => by simp [hphase, remaining]
    · cases hs
  | lockBank i =>
    simp only [MatchSession.step] at hs
    split at hs
    · rename_i b expense cached hphase
      split_ifs at hs with hfree
      obtain rfl := Option.some.inj hs
      have howned : Owned s i (.expenseLocked b expense cached) := h.of_phase hphase
      split
      · exact .of (h.lockBank hfree howned trivial trivial) rfl
          (fun _ => by simp [hphase, remaining]) fun _ hzero => absurd hzero (by simp [remaining])
      · exact h.fail _ fun _ => by simp [hphase, remaining]
    · cases hs
  | flush i =>
    simp only [MatchSession.step] at hs
    split at hs
    · rename_i expense row hphase
      obtain rfl := Option.some.inj hs
      have howned : Owned s i (.bothLocked expense row) := h.of_phase hphase
      split
      · split_ifs
        · exact .of (h.setPhase howned (fun _ => trivial) fun _ => trivial) rfl
            (fun _ => by simp [hphase, remaining]) fun _ hzero => absurd hzero one_ne_zero
        · exact h.fail _ fun _ => by simp [hphase, remaining]
      · exact h.fail _ fun _ => by simp [hphase, remaining]
    · rename_i expense hphase
      have hbank : LocksBank (s.phase i) → LocksBank (.flushed (.park expense)) := by
        rw [hphase]
        exact False.elim
      split_ifs at hs with hsame hfree
      · obtain rfl := Option.some.inj hs
        exact .of (h.setPhase trivial (fun _ => trivial) hbank) rfl
          (fun _ => by simp [hphase, remaining]) fun _ hzero => absurd hzero one_ne_zero
      · obtain rfl := Option.some.inj hs
        exact .of (h.lockExpense hfree trivial trivial hbank) rfl
          (fun _ => by simp [hphase, remaining]) fun _ hzero => absurd hzero one_ne_zero
    · cases hs
  | commit i =>
    simp only [MatchSession.step] at hs
    split at hs
    · rename_i w hphase
      obtain rfl := Option.some.inj hs
      exact .of ((h.write w).close trivial) rfl (fun _ => by simp [hphase, remaining]) fun _ _ => trivial
    · cases hs
  | abort i =>
    simp only [MatchSession.step] at hs
    split at hs
    iterate 3 cases hs
    rename_i hcommitted hfailed haborted
    obtain rfl := Option.some.inj hs
    refine .of (h.close trivial) rfl (fun hidle => ?_) fun _ _ => trivial
    cases hphase : s.phase i with
    | idle => exact absurd hphase hidle
    | committed => exact absurd hphase hcommitted
    | failed err => exact absurd hphase (hfailed err)
    | aborted => exact absurd hphase haborted
    | _ => simp [remaining]

/-! ## All requests end -/

theorem Held.expense_busy (h : Held s) {e : Id} {j : ℕ} (hlock : s.expenseLock e = some j) :
    remaining (s.phase j) ≠ 0 ∧ 0 < rank (s.phase j) := by
  have hlocks := h.expense e j hlock
  cases hphase : s.phase j with
  | expenseLocked => simp [remaining, rank]
  | bothLocked => simp [remaining, rank]
  | flushed => simp [remaining, rank]
  | _ => rw [hphase] at hlocks; cases hlocks

theorem Held.bank_busy (h : Held s) {b : Id} {j : ℕ} (hlock : s.bankLock b = some j) :
    remaining (s.phase j) ≠ 0 ∧ 1 < rank (s.phase j) := by
  have hlocks := h.bank b j hlock
  cases hphase : s.phase j with
  | bothLocked => simp [remaining, rank]
  | flushed => simp [remaining, rank]
  | _ => rw [hphase] at hlocks; cases hlocks

/-- Locks are taken in one order, whatever the request. -/
theorem Held.blocked (h : Held s) {i j : ℕ} (hb : Blocked s i j) :
    remaining (s.phase j) ≠ 0 ∧ rank (s.phase i) < rank (s.phase j) := by
  cases hb with
  | parking hphase hchanged hlock hne =>
    rw [hphase]
    exact h.expense_busy hlock
  | waits hw =>
    cases hw with
    | expense hphase hlock hne =>
      rw [hphase]
      exact h.expense_busy hlock
    | bankRow hphase hlock hne =>
      rw [hphase]
      exact h.bank_busy hlock
    | unique hphase hflushed hsame hne =>
      -- two sessions cannot both have locked the expense
      have hi : Owned s i (.bothLocked _ _) := h.of_phase hphase
      have hj : Owned s j (.flushed (.link _ _)) := h.of_phase hflushed
      simp only [Owned, hsame] at hi hj
      exact absurd (Option.some.inj (hi.symm.trans hj)).symm hne

theorem Held.no_circle (h : Held s) (i : ℕ) : ¬ Relation.TransGen (Blocked s) i i := by
  have hrank : ∀ i j, Blocked s i j → rank (s.phase i) < rank (s.phase j) :=
    fun _ _ hb => (h.blocked hb).2
  exact Locks.acyclic_of_rank hrank i

theorem holder_of_not_free {κ : Type} {l : Locks κ} {i : ℕ} {k : κ} (h : ¬ l.Free i k) :
    ∃ j, l k = some j ∧ j ≠ i := by
  obtain ⟨j, hj⟩ := Locks.not_free h
  refine ⟨j, hj, ?_⟩
  rintro rfl
  exact h (.inr hj)

variable (env settings req) in
/-- A session that has started and waits for no other has a statement to take. -/
theorem can_move {i : ℕ} (hopen : remaining (s.phase i) ≠ 0) (hfree : ∀ j, ¬ Blocked s i j) :
    ∃ ev s', ev.session = i ∧ (¬ ∃ k, ev = .abort k) ∧ step env settings req s ev = some s' := by
  have hmove : ∀ ev : Event, ev.session = i → (¬ ∃ k, ev = .abort k) →
      (step env settings req s ev).isSome → ∃ ev s', ev.session = i ∧ (¬ ∃ k, ev = .abort k) ∧
        step env settings req s ev = some s' := by
    intro ev hsession hev hs
    obtain ⟨s', hs⟩ := Option.isSome_iff_exists.1 hs
    exact ⟨ev, s', hsession, hev, hs⟩
  cases hphase : s.phase i with
  | loaded expense =>
    refine hmove (.rank i ⟨id, .refl⟩) rfl (by rintro ⟨_, ⟨⟩⟩) ?_
    simp only [MatchSession.step, hphase, Option.isSome_some]
  | confirming e b map =>
    refine hmove (.lockExpense i) rfl (by rintro ⟨_, ⟨⟩⟩) ?_
    have hlock : s.expenseLock.Free i e := by
      by_contra hlock
      obtain ⟨j, hj, hne⟩ := holder_of_not_free hlock
      exact hfree j (.waits (.expense hphase hj hne))
    simp only [MatchSession.step, hphase, if_pos hlock, Option.isSome_some]
  | expenseLocked b expense cached =>
    refine hmove (.lockBank i) rfl (by rintro ⟨_, ⟨⟩⟩) ?_
    have hlock : s.bankLock.Free i b := by
      by_contra hlock
      obtain ⟨j, hj, hne⟩ := holder_of_not_free hlock
      exact hfree j (.waits (.bankRow hphase hj hne))
    simp only [MatchSession.step, hphase, if_pos hlock, Option.isSome_some]
  | bothLocked expense row =>
    refine hmove (.flush i) rfl (by rintro ⟨_, ⟨⟩⟩) ?_
    simp only [MatchSession.step, hphase, Option.isSome_some]
  | parking expense =>
    refine hmove (.flush i) rfl (by rintro ⟨_, ⟨⟩⟩) ?_
    by_cases hsame : expense.matchStatus = .pendingReview
    · simp only [MatchSession.step, hphase, if_pos hsame, Option.isSome_some]
    · have hlock : s.expenseLock.Free i expense.id := by
        by_contra hlock
        obtain ⟨j, hj, hne⟩ := holder_of_not_free hlock
        exact hfree j (.parking hphase hsame hj hne)
      simp only [MatchSession.step, hphase, if_neg hsame, if_pos hlock, Option.isSome_some]
  | flushed w =>
    refine hmove (.commit i) rfl (by rintro ⟨_, ⟨⟩⟩) ?_
    simp only [MatchSession.step, hphase, Option.isSome_some]
  | _ => simp [hphase, remaining] at hopen

theorem not_idle {p : Phase} (h : remaining p ≠ 0) : p ≠ .idle := by
  rintro rfl
  exact h rfl

theorem idle_or_finished {p : Phase} (h : remaining p = 0) : p = .idle ∨ Finished p := by
  cases p with
  | idle => exact .inl rfl
  | committed => exact .inr trivial
  | failed err => exact .inr trivial
  | aborted => exact .inr trivial
  | _ => simp [remaining] at h

theorem one_moves (s : State) (ev : Event) (s' : State) (hs : Fires (step env settings req) s ev s') :
    OneMoves State.phase s s' := by
  cases moved_of_step hs with
  | _ => exact ⟨_, fun j hj => setPhase_of_ne _ _ hj⟩

theorem progresses : Progresses (step env settings req) State.phase Held (fun ev => ¬ ∃ k, ev = .abort k)
    remaining rank Finished Blocked where
  wait _ _ _ h hb := h.blocked hb
  move s i h hopen hfree := by
    obtain ⟨ev, s', rfl, hev, hs⟩ := can_move env settings req hopen hfree
    have hadvanced := h.step hs
    exact ⟨ev, s', hev, hs, hadvanced.held, hadvanced.others, hadvanced.less (not_idle hopen),
      hadvanced.ended (not_idle hopen)⟩

/-- In every interleaving of confirmations and auto-matches no wait closes a circle, and from
the state reached all requests that have started can be answered, none of them aborted and no
other one started. -/
theorem all_can_finish (hrun : Run (Fires (step env settings req)) (State.init db) tr s) :
    (∀ i, ¬ Relation.TransGen (Blocked s) i i) ∧
    ∃ tr' s', Run (Fires (step env settings req)) s tr' s' ∧
      (∀ p ∈ tr', ¬ ∃ k, p.2 = .abort k) ∧
      ∀ i, s.phase i = .idle ∧ s'.phase i = .idle ∨ s.phase i ≠ .idle ∧ Finished (s'.phase i) := by
  have h : Held s := hrun.invariant .init fun _ _ _ h hs => (h.step hs).held
  refine ⟨h.no_circle, ?_⟩
  obtain ⟨touched, htouched⟩ := hrun.touched State.phase one_moves
  have hlive : ∀ i, remaining (s.phase i) ≠ 0 → i ∈ touched := by
    intro i hi
    by_contra hmem
    exact not_idle hi (htouched i hmem)
  obtain ⟨tr', s', hrun', hok, -, hend⟩ := progresses.finish h hlive
  refine ⟨tr', s', hrun', hok, fun i => ?_⟩
  rcases hend i with ⟨hzero, heq⟩ | ⟨hopen, hfinished⟩
  · rw [heq]
    rcases idle_or_finished hzero with hidle | hfinished
    · exact .inl ⟨hidle, hidle⟩
    · refine .inr ⟨?_, hfinished⟩
      intro hidle
      rw [hidle] at hfinished
      cases hfinished
  · exact .inr ⟨not_idle hopen, hfinished⟩

/-- A confirmation of expense 1 that has no lock yet. -/
def demoWaits : Phase → Bool
  | .confirming 1 _ _ => true
  | _ => false

theorem demoWaits_iff {p : Phase} : demoWaits p = true ↔ ∃ b map, p = .confirming 1 b map := by
  constructor
  · intro h
    unfold demoWaits at h
    split at h
    · exact ⟨_, _, rfl⟩
    · cases h
  · rintro ⟨b, map, rfl⟩
    rfl

/-- A confirmation waits for the expense an auto-match has locked; both can be answered. -/
theorem all_can_finish_waiting : ∃ tr s,
    Run (Fires (step demoEnv {} (demoRequests 1 1))) (State.init demoTables) tr s ∧ Blocked s 1 0 ∧
    ∃ tr' s', Run (Fires (step demoEnv {} (demoRequests 1 1))) s tr' s' ∧
      Finished (s'.phase 0) ∧ Finished (s'.phase 1) := by
  have hdemo : (demoRun 1 1 [.start 0, .rank 0 demoScan, .lockExpense 0, .start 1]).map
      (fun r => (demoWaits (r.2.phase 1), decide (remaining (r.2.phase 0) = 3), r.2.expenseLock 1)) =
        some (true, true, some 0) := by decide +kernel
  obtain ⟨⟨tr, s⟩, hdrive, heq⟩ := Option.map_eq_some_iff.1 hdemo
  simp only [Prod.mk.injEq, decide_eq_true_eq] at heq
  obtain ⟨hwaits, hleft, hlock⟩ := heq
  obtain ⟨-, tr', s', hrun', -, hend⟩ := all_can_finish (run_of_drive hdrive)
  obtain ⟨b, map, hphase⟩ := demoWaits_iff.1 hwaits
  refine ⟨tr, s, run_of_drive hdrive, .waits (.expense hphase hlock (by decide)), tr', s', hrun', ?_, ?_⟩
  · rcases hend 0 with ⟨hidle, -⟩ | ⟨-, hfinished⟩
    · simp [hidle, remaining] at hleft
    · exact hfinished
  · rcases hend 1 with ⟨hidle, -⟩ | ⟨-, hfinished⟩
    · rw [hphase] at hidle
      cases hidle
    · exact hfinished

end ReckonFlow.MatchSession
