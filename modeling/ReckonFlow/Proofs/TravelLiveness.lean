import ReckonFlow.Lib.Progress
import ReckonFlow.Proofs.TravelSessions

/-! Transitions, payments and manual posts wait for approvals and for references, never in a
circle: whatever has happened, every finite number of requests can be served to the end. -/

namespace ReckonFlow.TravelSession

open Lts

variable {env : Env} {req : ℕ → Request} {s s' : State} {ev : Event} {tr : List (State × Event)}

/-! ## Locks and the phases that keep them -/

/-- Session `i` cannot go on before `j` ends: for the row lock of its approval, or for the
unique index to tell whether the reference it is about to write exists. -/
inductive Waits (req : ℕ → Request) (s : State) (i j : ℕ) : Prop
  | approval {a : Id} {target : ApprovalStatus} {reviewer notes : Option String}
      (hphase : s.phase i = .idle) (hreq : req i = .transition a target reviewer notes)
      (hlock : s.approvalLock a = some j) (hne : j ≠ i)
  | payment {approval : Approval} {posting : Posting} {seen : Db}
      (hphase : s.phase i = .priced approval posting seen)
      (hlock : s.referenceLock (indexKey posting) = some j) (hne : j ≠ i)
  | manual {p : Posting} (hphase : s.phase i = .idle) (hreq : req i = .post p)
      (hlock : s.referenceLock (indexKey p) = some j) (hne : j ≠ i)

def LocksApproval : Phase → Prop
  | .decided _ | .priced .. | .paying .. | .flushed _ => True
  | _ => False

def LocksReference : Phase → Prop
  | .paying .. | .flushed _ => True
  | _ => False

/-- Only a transition decides on an approval. -/
def Asked : Request → Phase → Prop
  | .transition .., _ => True
  | _, .decided _ | _, .priced .. | _, .paying .. => False
  | _, _ => True

structure Held (req : ℕ → Request) (s : State) : Prop where
  asked : ∀ i, Asked (req i) (s.phase i)
  approval : ∀ a i, s.approvalLock a = some i → LocksApproval (s.phase i)
  reference : ∀ k i, s.referenceLock k = some i → LocksReference (s.phase i)

theorem asked_idle (r : Request) : Asked r .idle := by cases r <;> trivial

theorem asked_flushed (r : Request) (w : Write) : Asked r (.flushed w) := by cases r <;> trivial

theorem asked_committed (r : Request) : Asked r .committed := by cases r <;> trivial

theorem asked_failed (r : Request) (err : Error) : Asked r (.failed err) := by cases r <;> trivial

theorem asked_aborted (r : Request) : Asked r .aborted := by cases r <;> trivial

theorem asked_transition {r : Request} {a : Id} {target : ApprovalStatus}
    {reviewer notes : Option String} (h : r = .transition a target reviewer notes) (p : Phase) :
    Asked r p := by
  subst h
  trivial

theorem Held.init : Held req State.init where
  asked i := asked_idle (req i)
  approval := by rintro a i ⟨⟩
  reference := by rintro k i ⟨⟩

/-- A step of `i`, which leaves the others their locks. -/
theorem Held.move (h : Held req s) {s₁ : State} {i : ℕ} {p : Phase} (hphase : s₁.phase = s.phase)
    (happrovals : ∀ j ≠ i, ∀ a, s₁.approvalLock a = some j ↔ s.approvalLock a = some j)
    (hreferences : ∀ j ≠ i, ∀ k, s₁.referenceLock k = some j ↔ s.referenceLock k = some j)
    (hasked : Asked (req i) p) (happroval : ∀ a, s₁.approvalLock a = some i → LocksApproval p)
    (hreference : ∀ k, s₁.referenceLock k = some i → LocksReference p) :
    Held req (s₁.setPhase i p) := by
  have hold : ∀ j ≠ i, (s₁.setPhase i p).phase j = s.phase j := by
    intro j hj
    rw [setPhase_of_ne _ _ hj, hphase]
  refine ⟨fun j => ?_, fun a j ha => ?_, fun k j hk => ?_⟩
  · by_cases hj : j = i
    · subst hj
      rw [setPhase_self]
      exact hasked
    · rw [hold j hj]
      exact h.asked j
  · by_cases hj : j = i
    · subst hj
      rw [setPhase_self]
      exact happroval a ha
    · rw [hold j hj]
      exact h.approval a j ((happrovals j hj a).1 ha)
  · by_cases hj : j = i
    · subst hj
      rw [setPhase_self]
      exact hreference k hk
    · rw [hold j hj]
      exact h.reference k j ((hreferences j hj k).1 hk)

theorem Held.setPhase (h : Held req s) {i : ℕ} {p : Phase} (hasked : Asked (req i) p)
    (happroval : LocksApproval (s.phase i) → LocksApproval p)
    (hreference : LocksReference (s.phase i) → LocksReference p) : Held req (s.setPhase i p) :=
  h.move rfl (fun _ _ _ => Iff.rfl) (fun _ _ _ => Iff.rfl) hasked
    (fun a ha => happroval (h.approval a i ha)) fun k hk => hreference (h.reference k i hk)

/-- The end of a transaction. -/
theorem Held.close (h : Held req s) {i : ℕ} {p : Phase} (hasked : Asked (req i) p) :
    Held req ((s.release i).setPhase i p) :=
  h.move rfl (fun _ hj _ => Locks.release_iff hj) (fun _ hj _ => Locks.release_iff hj) hasked
    (fun _ ha => absurd ha Locks.release_self) fun _ hk => absurd hk Locks.release_self

theorem Held.lockApproval (h : Held req s) {i : ℕ} {a : Id} {p : Phase}
    (hfree : s.approvalLock.Free i a) (hasked : Asked (req i) p) (happroval : LocksApproval p)
    (hreference : LocksReference (s.phase i) → LocksReference p) :
    Held req ((s.lockApproval i a).setPhase i p) :=
  h.move rfl (fun _ hj _ => Locks.take_iff hfree hj) (fun _ _ _ => Iff.rfl) hasked
    (fun _ _ => happroval) fun k hk => hreference (h.reference k i hk)

theorem Held.lockReference (h : Held req s) {i : ℕ} {posting : Posting} {p : Phase}
    (hfree : s.referenceLock.Free i (indexKey posting)) (hasked : Asked (req i) p)
    (happroval : LocksApproval p) (hreference : LocksReference p) :
    Held req ((s.lockReference i posting).setPhase i p) :=
  h.move rfl (fun _ _ _ => Iff.rfl) (fun _ hj _ => Locks.take_iff hfree hj) hasked
    (fun _ _ => happroval) fun _ _ => hreference

theorem Held.publish (h : Held req s) (db : Db) (payments : List Payment) :
    Held req (s.publish db payments) := ⟨h.asked, h.approval, h.reference⟩

/-! ## Steps -/

/-- Nothing more happens to the request. -/
def Ended : Phase → Prop
  | .committed | .failed _ | .aborted => True
  | _ => False

/-- How many statements a session has before it, at most. -/
def remaining : Phase → ℕ
  | .idle => 5
  | .decided _ => 4
  | .priced .. => 3
  | .paying .. => 2
  | .flushed _ => 1
  | .committed | .failed _ | .aborted => 0

theorem remaining_eq_zero {p : Phase} : remaining p = 0 ↔ Ended p := by
  cases p <;> simp [remaining, Ended]

theorem idle_of_remaining {p : Phase} (h : remaining p = 5) : p = .idle := by
  cases p <;> simp [remaining] at h ⊢

/-- The session that takes the statement. -/
def Event.session : Event → Option ℕ
  | .account .. | .trip _ => none
  | .lock i | .price i | .post i | .decide i | .expense i | .commit i | .abort i => some i

/-- What a statement of session `i` leaves behind. -/
structure Advanced (req : ℕ → Request) (s s' : State) (i : ℕ) : Prop where
  held : Held req s'
  others : ∀ j, j ≠ i → s'.phase j = s.phase j
  less : remaining (s'.phase i) < remaining (s.phase i)

theorem Advanced.of {s₁ : State} {i : ℕ} {p : Phase} (hheld : Held req (s₁.setPhase i p))
    (hphase : s₁.phase = s.phase) (hless : remaining p < remaining (s.phase i)) :
    Advanced req s (s₁.setPhase i p) i := by
  refine ⟨hheld, fun j hj => ?_, ?_⟩
  · rw [setPhase_of_ne _ _ hj, hphase]
  · rwa [setPhase_self]

theorem Held.fail (h : Held req s) {i : ℕ} (err : Error) (hlive : 0 < remaining (s.phase i)) :
    Advanced req s (s.fail i (.failed err)) i :=
  .of (h.close (asked_failed ..)) rfl hlive

/-- The INSERTs of a ledger transaction, or the wait for its reference. -/
theorem Held.post (h : Held req s) {i : ℕ} {p : Posting} {next : Phase}
    (hs : s.post env i p next = some s') (hasked : Asked (req i) next) (happroval : LocksApproval next)
    (hreference : LocksReference next) (hlive : 0 < remaining (s.phase i))
    (hless : remaining next < remaining (s.phase i)) : Advanced req s s' i := by
  unfold State.post at hs
  split_ifs at hs with hfree
  obtain rfl := Option.some.inj hs
  split
  · exact .of (h.lockReference hfree hasked happroval hreference) rfl hless
  · exact h.fail _ hlive

theorem Held.decide (h : Held req s) {i : ℕ} {approval : Approval} {target : ApprovalStatus}
    {reviewer notes : Option String} {payment : Option (Posting × Db)}
    (hless : 1 < remaining (s.phase i)) :
    Advanced req s (s.decide i approval target reviewer notes payment) i := by
  unfold State.decide
  split
  · exact .of (h.setPhase (asked_flushed ..) (fun _ => trivial) fun _ => trivial) rfl hless
  · exact h.fail _ (Nat.zero_lt_of_lt hless)

/-- A step as its session and the others see it; accounts and trips have no session. -/
def Stepped (req : ℕ → Request) (s s' : State) : Option ℕ → Prop
  | some i => Advanced req s s' i
  | none => Held req s' ∧ s'.phase = s.phase

theorem Held.serve (h : Held req s) (served : Except Error Db) :
    Stepped req s (s.serve served) none := by
  cases served with
  | ok db => exact ⟨h.publish .., rfl⟩
  | error err => exact ⟨h, rfl⟩

theorem Held.step (h : Held req s) (hs : step env req s ev = some s') :
    Stepped req s s' ev.session := by
  cases ev with
  | account code name currency =>
    obtain rfl := Option.some.inj hs
    exact h.serve _
  | trip f =>
    obtain rfl := Option.some.inj hs
    exact h.serve _
  | lock i =>
    simp only [TravelSession.step] at hs
    split at hs
    · rename_i a target reviewer notes hphase hreq
      have hlive : 0 < remaining (s.phase i) := by simp [hphase, remaining]
      split_ifs at hs with hfree
      obtain rfl := Option.some.inj hs
      split
      · split
        · refine .of (h.lockApproval hfree (asked_transition hreq _) trivial ?_) rfl
            (by simp [hphase, remaining])
          rw [hphase]
          exact False.elim
        · exact h.fail _ hlive
      · exact h.fail _ hlive
    · cases hs
  | price i =>
    simp only [TravelSession.step] at hs
    split at hs
    · rename_i approval _ reviewer notes hphase hreq
      obtain rfl := Option.some.inj hs
      split
      · refine .of (h.setPhase (asked_transition hreq _) (fun _ => trivial) ?_) rfl
          (by simp [hphase, remaining])
        rw [hphase]
        exact False.elim
      · exact h.fail _ (by simp [hphase, remaining])
    · cases hs
  | post i =>
    simp only [TravelSession.step] at hs
    split at hs
    · rename_i approval posting seen hphase
      have hasked : Asked (req i) (.paying approval posting seen) := by
        have hpriced := h.asked i
        rw [hphase] at hpriced
        cases hreq : req i with
        | transition => exact asked_transition rfl _
        | _ => rw [hreq] at hpriced; cases hpriced
      exact h.post hs hasked trivial trivial (by simp [hphase, remaining]) (by simp [hphase, remaining])
    · rename_i p hphase hreq
      exact h.post hs (asked_flushed ..) trivial trivial (by simp [hphase, remaining])
        (by simp [hphase, remaining])
    · cases hs
  | decide i =>
    simp only [TravelSession.step] at hs
    split at hs
    · rename_i hphase hreq
      split_ifs at hs
      obtain rfl := Option.some.inj hs
      exact h.decide (by simp [hphase, remaining])
    · rename_i hphase hreq
      obtain rfl := Option.some.inj hs
      exact h.decide (by simp [hphase, remaining])
    · cases hs
  | expense i =>
    simp only [TravelSession.step] at hs
    split at hs
    · rename_i f hphase hreq
      obtain rfl := Option.some.inj hs
      split
      · exact .of (h.setPhase (asked_flushed ..) (fun _ => trivial) fun _ => trivial) rfl
          (by simp [hphase, remaining])
      · exact h.fail _ (by simp [hphase, remaining])
    · cases hs
  | commit i =>
    simp only [TravelSession.step] at hs
    split at hs
    · rename_i w hphase
      obtain rfl := Option.some.inj hs
      split
      · exact .of ((h.publish ..).close (asked_committed _)) rfl (by simp [hphase, remaining])
      · exact h.fail _ (by simp [hphase, remaining])
    · cases hs
  | abort i =>
    simp only [TravelSession.step] at hs
    split at hs
    iterate 3 cases hs
    rename_i hcommitted hfailed haborted
    obtain rfl := Option.some.inj hs
    refine .of (h.close (asked_aborted _)) rfl ?_
    cases hphase : s.phase i with
    | committed => exact absurd hphase hcommitted
    | failed err => exact absurd hphase (hfailed err)
    | aborted => exact absurd hphase haborted
    | _ => simp [remaining]

/-! ## All requests end -/

/-- How many locks a session has. -/
def rank : Phase → ℕ
  | .decided _ | .priced .. => 1
  | .paying .. | .flushed _ => 2
  | _ => 0

theorem Held.approval_busy (h : Held req s) {a : Id} {j : ℕ} (hlock : s.approvalLock a = some j) :
    s.phase j ≠ .idle ∧ remaining (s.phase j) ≠ 0 ∧ 0 < rank (s.phase j) := by
  have hlocks := h.approval a j hlock
  cases hphase : s.phase j with
  | decided => simp [remaining, rank]
  | priced => simp [remaining, rank]
  | paying => simp [remaining, rank]
  | flushed => simp [remaining, rank]
  | _ => rw [hphase] at hlocks; cases hlocks

theorem Held.reference_busy (h : Held req s) {k : String} {j : ℕ}
    (hlock : s.referenceLock k = some j) :
    s.phase j ≠ .idle ∧ remaining (s.phase j) ≠ 0 ∧ 1 < rank (s.phase j) := by
  have hlocks := h.reference k j hlock
  cases hphase : s.phase j with
  | paying => simp [remaining, rank]
  | flushed => simp [remaining, rank]
  | _ => rw [hphase] at hlocks; cases hlocks

/-- A session takes the lock of an approval before that of a reference. -/
theorem Held.waits (h : Held req s) {i j : ℕ} (hw : Waits req s i j) :
    (s.phase j ≠ .idle ∧ remaining (s.phase j) ≠ 0) ∧ rank (s.phase i) < rank (s.phase j) := by
  cases hw with
  | approval hphase hreq hlock hne =>
    obtain ⟨hidle, hopen, hrank⟩ := h.approval_busy hlock
    rw [hphase]
    exact ⟨⟨hidle, hopen⟩, hrank⟩
  | payment hphase hlock hne =>
    obtain ⟨hidle, hopen, hrank⟩ := h.reference_busy hlock
    rw [hphase]
    exact ⟨⟨hidle, hopen⟩, hrank⟩
  | manual hphase hreq hlock hne =>
    obtain ⟨hidle, hopen, hrank⟩ := h.reference_busy hlock
    rw [hphase]
    exact ⟨⟨hidle, hopen⟩, Nat.zero_lt_of_lt hrank⟩

theorem Held.no_circle (h : Held req s) (i : ℕ) : ¬ Relation.TransGen (Waits req s) i i := by
  have hrank : ∀ i j, Waits req s i j → rank (s.phase i) < rank (s.phase j) :=
    fun _ _ hw => (h.waits hw).2
  exact Locks.acyclic_of_rank hrank i

/-- A statement of one of the requests; an abort is none. -/
def Statement : Event → Prop
  | .lock _ | .price _ | .post _ | .decide _ | .expense _ | .commit _ => True
  | .account .. | .trip _ | .abort _ => False

theorem post_isSome {i : ℕ} {p : Posting} {next : Phase} (h : s.referenceLock.Free i (indexKey p)) :
    (s.post env i p next).isSome := by
  unfold State.post
  rw [if_pos h, Option.isSome_some]

theorem free_of_not_waits {κ : Type} {l : Locks κ} {i : ℕ} {k : κ}
    (h : ∀ j, l k = some j → j ≠ i → False) : l.Free i k := by
  by_contra hbusy
  obtain ⟨j, hj⟩ := Locks.not_free hbusy
  by_cases hji : j = i
  · exact hbusy (.inr (hji ▸ hj))
  · exact h j hj hji

variable (env) in
/-- A session that is not at its end and waits for no other has a statement to take. -/
theorem Held.can_move (h : Held req s) {i : ℕ} (hopen : remaining (s.phase i) ≠ 0)
    (hfree : ∀ j, ¬ Waits req s i j) :
    ∃ ev s', ev.session = some i ∧ Statement ev ∧ TravelSession.step env req s ev = some s' := by
  have hmove : ∀ ev : Event, ev.session = some i → Statement ev → (TravelSession.step env req s ev).isSome →
      ∃ ev s', ev.session = some i ∧ Statement ev ∧ TravelSession.step env req s ev = some s' := by
    intro ev hsession hev hs
    obtain ⟨s', hs⟩ := Option.isSome_iff_exists.1 hs
    exact ⟨ev, s', hsession, hev, hs⟩
  have hasked := h.asked i
  cases hphase : s.phase i with
  | idle =>
    cases hreq : req i with
    | transition a target reviewer notes =>
      have hlock : s.approvalLock.Free i a :=
        free_of_not_waits fun j hj hne => hfree j (.approval hphase hreq hj hne)
      refine hmove (.lock i) rfl trivial ?_
      simp only [TravelSession.step, hphase, hreq, if_pos hlock, Option.isSome_some]
    | post p =>
      have hlock : s.referenceLock.Free i (indexKey p) :=
        free_of_not_waits fun j hj hne => hfree j (.manual hphase hreq hj hne)
      refine hmove (.post i) rfl trivial ?_
      simp only [TravelSession.step, hphase, hreq]
      exact post_isSome hlock
    | expense f =>
      refine hmove (.expense i) rfl trivial ?_
      simp only [TravelSession.step, hphase, hreq, Option.isSome_some]
  | decided approval =>
    cases hreq : req i with
    | transition a target reviewer notes =>
      by_cases hpaid : target = .paid
      · subst hpaid
        refine hmove (.price i) rfl trivial ?_
        simp only [TravelSession.step, hphase, hreq, Option.isSome_some]
      · refine hmove (.decide i) rfl trivial ?_
        simp only [TravelSession.step, hphase, hreq, if_neg hpaid, Option.isSome_some]
    | _ => rw [hphase, hreq] at hasked; cases hasked
  | priced approval posting seen =>
    have hlock : s.referenceLock.Free i (indexKey posting) :=
      free_of_not_waits fun j hj hne => hfree j (.payment hphase hj hne)
    refine hmove (.post i) rfl trivial ?_
    simp only [TravelSession.step, hphase]
    exact post_isSome hlock
  | paying approval posting seen =>
    cases hreq : req i with
    | transition a target reviewer notes =>
      refine hmove (.decide i) rfl trivial ?_
      simp only [TravelSession.step, hphase, hreq, Option.isSome_some]
    | _ => rw [hphase, hreq] at hasked; cases hasked
  | flushed w =>
    refine hmove (.commit i) rfl trivial ?_
    simp only [TravelSession.step, hphase, Option.isSome_some]
  | _ => simp [hphase, remaining] at hopen

/-- What is to be done: the sessions that have started, and those that are `wanted`. -/
def toDo (wanted : Finset ℕ) : ℕ × Phase → ℕ
  | (i, .idle) => if i ∈ wanted then remaining .idle else 0
  | (_, p) => remaining p

theorem toDo_of_ne (wanted : Finset ℕ) (i : ℕ) {p : Phase} (h : p ≠ .idle) :
    toDo wanted (i, p) = remaining p := by
  cases p with
  | idle => exact absurd rfl h
  | _ => rfl

theorem toDo_eq {wanted : Finset ℕ} {i : ℕ} {p : Phase} (h : toDo wanted (i, p) ≠ 0) :
    toDo wanted (i, p) = remaining p := by
  cases p with
  | idle =>
    have hwanted : i ∈ wanted := by
      by_contra hwanted
      exact h (if_neg hwanted)
    exact if_pos hwanted
  | _ => rfl

variable (env) in
theorem progresses (wanted : Finset ℕ) : Progresses (step env req) (fun s i => (i, s.phase i))
    (Held req) Statement (toDo wanted) (rank ·.2) (Ended ·.2) (Waits req) where
  wait s i j h hw := by
    obtain ⟨⟨hidle, hopen⟩, hrank⟩ := h.waits hw
    exact ⟨by rwa [toDo_of_ne wanted j hidle], hrank⟩
  move s i h hopen hfree := by
    have htodo := toDo_eq hopen
    rw [htodo] at hopen ⊢
    obtain ⟨ev, s', hsession, hev, hs⟩ := h.can_move env hopen hfree
    have hstepped := h.step hs
    rw [hsession] at hstepped
    obtain ⟨hheld, hothers, hless⟩ : Advanced req s s' i := hstepped
    have hidle : s'.phase i ≠ .idle := by
      intro hidle
      rw [hidle] at hless
      revert hless
      cases s.phase i <;> simp [remaining]
    have htodo' := toDo_of_ne wanted i hidle
    exact ⟨ev, s', hev, hs, hheld, fun j hj => by rw [hothers j hj], htodo'.trans_lt hless,
      fun hzero => remaining_eq_zero.1 (htodo'.symm.trans hzero)⟩

theorem one_moves (s : State) (ev : Event) (s' : State) (hs : Fires (step env req) s ev s') :
    OneMoves State.phase s s' := by
  cases moved_of_step hs with
  | refused => exact ⟨0, fun _ _ => rfl⟩
  | account => exact ⟨0, fun _ _ => rfl⟩
  | trip => exact ⟨0, fun _ _ => rfl⟩
  | _ => exact ⟨_, fun j hj => setPhase_of_ne _ _ hj⟩

/-- In every interleaving no wait closes a circle, and from the state reached any finite number
of requests, with those that have started, can be answered: by statements of theirs alone, none
of them aborted. -/
theorem requests_can_end (hrun : Run (Fires (step env req)) State.init tr s) (wanted : Finset ℕ) :
    (∀ i, ¬ Relation.TransGen (Waits req s) i i) ∧
    ∃ tr' s', Run (Fires (step env req)) s tr' s' ∧ (∀ p ∈ tr', Statement p.2) ∧
      (∀ i, i ∈ wanted ∨ s.phase i ≠ .idle → Ended (s'.phase i)) ∧
      ∀ i, i ∉ wanted → s.phase i = .idle → s'.phase i = .idle := by
  have h : Held req s := by
    refine hrun.invariant .init fun s ev s' h hs => ?_
    have hstepped := h.step hs
    cases hsession : ev.session with
    | none =>
      rw [hsession] at hstepped
      exact hstepped.1
    | some i =>
      rw [hsession] at hstepped
      exact hstepped.held
  refine ⟨h.no_circle, ?_⟩
  obtain ⟨touched, htouched⟩ := hrun.touched State.phase one_moves
  have hlive : ∀ i, toDo wanted (i, s.phase i) ≠ 0 → i ∈ wanted ∪ touched := by
    intro i hi
    by_contra hmem
    obtain ⟨hwanted, htouch⟩ := not_or.1 (Finset.mem_union.not.1 hmem)
    rw [htouched i htouch] at hi
    exact hi (if_neg hwanted)
  obtain ⟨tr', s', hrun', hok, -, hend⟩ := (progresses env wanted).finish h hlive
  refine ⟨tr', s', hrun', hok, fun i hi => ?_, fun i hwanted hidle => ?_⟩
  · rcases hend i with ⟨hzero, heq⟩ | ⟨-, hended⟩
    · have hphase : s'.phase i = s.phase i := congrArg Prod.snd heq
      have hidle : s.phase i ≠ .idle := by
        rcases hi with hi | hi
        · intro hidle
          rw [hidle] at hzero
          simp [toDo, hi, remaining] at hzero
        · exact hi
      rw [toDo_of_ne wanted i hidle] at hzero
      rw [hphase]
      exact remaining_eq_zero.1 hzero
    · exact hended
  · rcases hend i with ⟨-, heq⟩ | ⟨hopen, -⟩
    · exact (congrArg Prod.snd heq).trans hidle
    · rw [hidle] at hopen
      exact absurd (if_neg hwanted) hopen

/-- Two payers of one approval, and a manual post under the payment's reference. -/
def demoRivals : ℕ → Request
  | 0 => .transition 1 .approved none none
  | 1 | 2 => .transition 1 .paid none none
  | _ => .post ⟨"PAY-1", "Refund", demoRefund⟩

/-- While one payer posts, another waits for the approval, and a manual post of the payment's
reference for the index; all three can be answered. -/
theorem requests_can_end_race : ∃ tr s, Run (Fires (step demoEnv demoRivals)) State.init tr s ∧
    Waits demoRivals s 2 1 ∧ Waits demoRivals s 3 1 ∧
    ∃ tr' s', Run (Fires (step demoEnv demoRivals)) s tr' s' ∧
      ∀ i ∈ ({1, 2, 3} : Finset ℕ), Ended (s'.phase i) := by
  have hdemo : (drive (step demoEnv demoRivals) State.init
      [.account "CASH" "Cash" "eur", .account "TRAVEL" "Travel expenses" "EUR", .trip demoTrip,
        .lock 0, .decide 0, .commit 0, .lock 1, .price 1, .post 1]).map (fun r =>
          (r.2.approvalLock 1, r.2.referenceLock "PAY-1", remaining (r.2.phase 2),
            remaining (r.2.phase 3))) = some (some 1, some 1, 5, 5) := by
    decide +kernel
  obtain ⟨⟨tr, s⟩, hdrive, heq⟩ := Option.map_eq_some_iff.1 hdemo
  simp only [Prod.mk.injEq] at heq
  obtain ⟨happroval, hreference, hsecond, hthird⟩ := heq
  have hrun := run_of_drive hdrive
  obtain ⟨-, tr', s', hrun', -, hended, -⟩ := requests_can_end hrun {1, 2, 3}
  exact ⟨tr, s, hrun, .approval (idle_of_remaining hsecond) rfl happroval (by decide),
    .manual (idle_of_remaining hthird) rfl hreference (by decide), tr', s', hrun',
    fun i hi => hended i (.inl hi)⟩

end ReckonFlow.TravelSession
