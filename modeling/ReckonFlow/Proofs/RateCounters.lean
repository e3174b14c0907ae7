import ReckonFlow.Lib.Lts
import ReckonFlow.Spec.RateLimit

/-! Redis counters expire as long as each `EXPIRE` follows its `INCR`: the counter of a client
has a deadline, or the call that created it has still to set one. -/

namespace ReckonFlow

open Lts

variable {R : RateLimit} {client : ℕ → String} {s s' : LimiterState} {e : LimiterEvent}

theorem bucketOf_inj {a b : String} (h : bucketOf R a = bucketOf R b) : a = b := by
  have hlist := congrArg String.toList h
  simp only [bucketOf, String.toList_append] at hlist
  exact String.toList_inj.1 (List.append_cancel_left hlist)

variable (R client) in
/-- What a step can do, event by event. -/
theorem limiterStep_cases (h : limiterStep R client s e = some s') :
    match e with
    | .tick seconds => 0 ≤ seconds ∧ s' = { s with
        now := s.now + seconds
        counters := fun key => (s.counters key).filter (alive (s.now + seconds)) }
    | .incr i a => s.phase i = .idle ∧
        ((a = .failed ∧ s' = s.setPhase i (.ended none)) ∨
          (a = .lost ∧ s' = (s.put (bucketOf R (client i))
            (increased (s.counters (bucketOf R (client i))))).setPhase i (.ended none)) ∨
          (a = .ok ∧ s' = (s.put (bucketOf R (client i))
            (increased (s.counters (bucketOf R (client i))))).setPhase i
              (if (increased (s.counters (bucketOf R (client i)))).count = 1 then .expiring
              else .ended (some ((increased (s.counters (bucketOf R (client i)))).count ≤
                R.requestsPerMinute)))))
    | .expire i a => s.phase i = .expiring ∧
        ((a = .failed ∧ s' = s.setPhase i (.ended none)) ∨
          (a ≠ .failed ∧ ∃ o, s' = (s.setExpiry (bucketOf R (client i))).setPhase i (.ended o))) := by
  cases e with
  | tick seconds =>
    simp only [limiterStep] at h
    split at h
    · exact ⟨‹_›, (Option.some.inj h).symm⟩
    · cases h
  | incr i a =>
    simp only [limiterStep] at h
    split at h
    · refine ⟨‹_›, ?_⟩
      cases a with
      | ok => exact .inr (.inr ⟨rfl, (Option.some.inj h).symm⟩)
      | failed => exact .inl ⟨rfl, (Option.some.inj h).symm⟩
      | lost => exact .inr (.inl ⟨rfl, (Option.some.inj h).symm⟩)
    · cases h
  | expire i a =>
    simp only [limiterStep] at h
    split at h
    · refine ⟨‹_›, ?_⟩
      cases a with
      | ok => exact .inr ⟨by decide, _, (Option.some.inj h).symm⟩
      | failed => exact .inl ⟨rfl, (Option.some.inj h).symm⟩
      | lost => exact .inr ⟨by decide, _, (Option.some.inj h).symm⟩
    · cases h

/-! ## The invariant -/

variable (R client) in
/-- The counters without a deadline are those of the calls before their `EXPIRE`, one each. -/
structure Timed (s : LimiterState) : Prop where
  deadlines : ∀ key c t, s.counters key = some c → c.deadline = some t →
    s.now < t ∧ t ≤ s.now + 60
  counts : ∀ key c, s.counters key = some c → 1 ≤ c.count
  pending : ∀ i, s.phase i = .expiring →
    ∃ c, s.counters (bucketOf R (client i)) = some c ∧ c.deadline = none
  unique : ∀ i j, s.phase i = .expiring → s.phase j = .expiring → client i = client j → i = j
  covered : ∀ key c, s.counters key = some c → c.deadline = none →
    ∃ i, s.phase i = .expiring ∧ bucketOf R (client i) = key

theorem Timed.init (now : ℚ) : Timed R client (LimiterState.init now) := by
  constructor <;> simp [LimiterState.init]

theorem Timed.tick {seconds : ℚ} (h : Timed R client s) (hpos : 0 ≤ seconds) :
    Timed R client { s with
      now := s.now + seconds
      counters := fun key => (s.counters key).filter (alive (s.now + seconds)) } where
  deadlines := by
    intro key c t hc ht
    obtain ⟨hc, halive⟩ := Option.filter_eq_some_iff.1 hc
    simp only [alive, ht, decide_eq_true_eq] at halive
    have hle := (h.deadlines key c t hc ht).2
    refine ⟨halive, ?_⟩
    dsimp only
    linarith
  counts := fun key c hc => h.counts key c (Option.eq_some_of_filter_eq_some hc)
  pending := by
    intro i hi
    obtain ⟨c, hc, hnone⟩ := h.pending i hi
    refine ⟨c, ?_, hnone⟩
    simp only [hc, Option.filter_some, alive, hnone, if_true]
  unique := h.unique
  covered := fun key c hc => h.covered key c (Option.eq_some_of_filter_eq_some hc)

theorem phase_setPhase {i j : ℕ} {p q : CheckPhase} : (s.setPhase i p).phase j = q ↔
    (j = i ∧ p = q) ∨ (j ≠ i ∧ s.phase j = q) := by
  by_cases hj : j = i <;> simp [LimiterState.setPhase, hj]

theorem put_eq_some {key k : String} {c : Counter} {d : Counter} :
    (s.put key c).counters k = some d ↔ (k = key ∧ c = d) ∨ (k ≠ key ∧ s.counters k = some d) := by
  by_cases hk : k = key <;> simp [LimiterState.put, hk]

theorem setExpiry_of_some {key : String} {c : Counter} (hc : s.counters key = some c) :
    s.setExpiry key = s.put key (some ⟨c.count, some (s.now + 60)⟩) := by
  rw [LimiterState.setExpiry, hc, Option.map_some]

/-- A call that is not before its `EXPIRE` ends. -/
theorem Timed.finish {i : ℕ} {o : Option Bool} (h : Timed R client s) (hi : s.phase i ≠ .expiring) :
    Timed R client (s.setPhase i (.ended o)) := by
  have hphase : ∀ j, (s.setPhase i (.ended o)).phase j = .expiring ↔ s.phase j = .expiring := by
    intro j
    rw [phase_setPhase]
    constructor
    · rintro (⟨-, ⟨⟩⟩ | ⟨-, hj⟩)
      exact hj
    · exact fun hj => .inr ⟨fun heq => hi (heq ▸ hj), hj⟩
  refine ⟨h.deadlines, h.counts, ?_, ?_, ?_⟩
  · intro j hj
    exact h.pending j ((hphase j).1 hj)
  · intro j k hj hk
    exact h.unique j k ((hphase j).1 hj) ((hphase k).1 hk)
  · intro key c hc hnone
    obtain ⟨j, hj, hkey⟩ := h.covered key c hc hnone
    exact ⟨j, (hphase j).2 hj, hkey⟩

/-- An `INCR` on a counter that is there. -/
theorem Timed.bump {key : String} {c : Counter} (h : Timed R client s) (hc : s.counters key = some c) :
    Timed R client (s.put key (increased (some c))) := by
  have hput : ∀ k d, (s.put key (increased (some c))).counters k = some d →
      ∃ d', s.counters k = some d' ∧ d.deadline = d'.deadline ∧ d'.count ≤ d.count := by
    intro k d hd
    rcases put_eq_some.1 hd with ⟨rfl, rfl⟩ | ⟨-, hd⟩
    · exact ⟨c, hc, rfl, by simp [increased]⟩
    · exact ⟨d, hd, rfl, le_rfl⟩
  constructor
  · intro k d t hd ht
    obtain ⟨d', hd', hsame, -⟩ := hput k d hd
    exact h.deadlines k d' t hd' (hsame ▸ ht)
  · intro k d hd
    obtain ⟨d', hd', -, hle⟩ := hput k d hd
    exact (h.counts k d' hd').trans hle
  · intro i hi
    obtain ⟨d, hd, hnone⟩ := h.pending i hi
    by_cases hk : bucketOf R (client i) = key
    · obtain rfl : c = d := Option.some.inj (hc.symm.trans (hk ▸ hd))
      exact ⟨increased (some c), put_eq_some.2 (.inl ⟨hk, rfl⟩), hnone⟩
    · exact ⟨d, put_eq_some.2 (.inr ⟨hk, hd⟩), hnone⟩
  · exact h.unique
  · intro k d hd hnone
    obtain ⟨d', hd', hsame, -⟩ := hput k d hd
    exact h.covered k d' hd' (hsame ▸ hnone)

/-- An `INCR` that creates the counter, answered: the call goes on to its `EXPIRE`. -/
theorem Timed.create {i : ℕ} (h : Timed R client s) (hnone : s.counters (bucketOf R (client i)) = none) :
    Timed R client ((s.put (bucketOf R (client i)) (increased none)).setPhase i .expiring) := by
  have hother : ∀ j, s.phase j = .expiring → client j ≠ client i := by
    intro j hj heq
    obtain ⟨c, hc, -⟩ := h.pending j hj
    rw [heq, hnone] at hc
    cases hc
  constructor
  · intro k d t hd ht
    rcases put_eq_some.1 hd with ⟨-, rfl⟩ | ⟨-, hd⟩
    · cases ht
    · exact h.deadlines k d t hd ht
  · intro k d hd
    rcases put_eq_some.1 hd with ⟨-, rfl⟩ | ⟨-, hd⟩
    · exact le_rfl
    · exact h.counts k d hd
  · intro j hj
    rcases phase_setPhase.1 hj with ⟨rfl, -⟩ | ⟨-, hj⟩
    · exact ⟨increased none, put_eq_some.2 (.inl ⟨rfl, rfl⟩), rfl⟩
    · obtain ⟨c, hc, hdeadline⟩ := h.pending j hj
      have hk : bucketOf R (client j) ≠ bucketOf R (client i) := fun heq => hother j hj (bucketOf_inj heq)
      exact ⟨c, put_eq_some.2 (.inr ⟨hk, hc⟩), hdeadline⟩
  · intro j k hj hk heq
    rcases phase_setPhase.1 hj with ⟨rfl, -⟩ | ⟨-, hj⟩
    · rcases phase_setPhase.1 hk with ⟨rfl, -⟩ | ⟨-, hk⟩
      · rfl
      · exact absurd heq.symm (hother k hk)
    · rcases phase_setPhase.1 hk with ⟨rfl, -⟩ | ⟨-, hk⟩
      · exact absurd heq (hother j hj)
      · exact h.unique j k hj hk heq
  · intro k d hd hdeadline
    rcases put_eq_some.1 hd with ⟨rfl, -⟩ | ⟨-, hd⟩
    · exact ⟨i, phase_setPhase.2 (.inl ⟨rfl, rfl⟩), rfl⟩
    · obtain ⟨j, hj, hkey⟩ := h.covered k d hd hdeadline
      have hji : j ≠ i := by
        rintro rfl
        exact hother j hj rfl
      exact ⟨j, phase_setPhase.2 (.inr ⟨hji, hj⟩), hkey⟩

/-- An `EXPIRE` that takes effect. -/
theorem Timed.expire {i : ℕ} {o : Option Bool} (h : Timed R client s) (hi : s.phase i = .expiring) :
    Timed R client ((s.setExpiry (bucketOf R (client i))).setPhase i (.ended o)) := by
  obtain ⟨c, hc, -⟩ := h.pending i hi
  rw [setExpiry_of_some hc]
  have hphase : ∀ j, ((s.put (bucketOf R (client i)) (some ⟨c.count, some (s.now + 60)⟩)).setPhase i
      (.ended o)).phase j = .expiring → j ≠ i ∧ s.phase j = .expiring := by
    intro j hj
    exact (phase_setPhase.1 hj).resolve_left (by rintro ⟨-, ⟨⟩⟩)
  constructor
  · intro k d t hd ht
    rcases put_eq_some.1 hd with ⟨-, rfl⟩ | ⟨-, hd⟩
    · obtain rfl := Option.some.inj ht
      exact ⟨lt_add_of_pos_right s.now (by norm_num), le_rfl⟩
    · exact h.deadlines k d t hd ht
  · intro k d hd
    rcases put_eq_some.1 hd with ⟨-, rfl⟩ | ⟨-, hd⟩
    · exact h.counts _ c hc
    · exact h.counts k d hd
  · intro j hj
    obtain ⟨hne, hj⟩ := hphase j hj
    obtain ⟨d, hd, hnone⟩ := h.pending j hj
    have hk : bucketOf R (client j) ≠ bucketOf R (client i) :=
      fun heq => hne (h.unique j i hj hi (bucketOf_inj heq))
    exact ⟨d, put_eq_some.2 (.inr ⟨hk, hd⟩), hnone⟩
  · intro j k hj hk
    exact h.unique j k (hphase j hj).2 (hphase k hk).2
  · intro k d hd hnone
    rcases put_eq_some.1 hd with ⟨-, rfl⟩ | ⟨hne, hd⟩
    · cases hnone
    · obtain ⟨j, hj, hkey⟩ := h.covered k d hd hnone
      refine ⟨j, phase_setPhase.2 (.inr ⟨?_, hj⟩), hkey⟩
      rintro rfl
      exact hne hkey.symm

/-! ## Runs -/

variable (R client) in
/-- Every counter disappears within sixty seconds, but for one whose call is still to send its
`EXPIRE`. -/
def CountersExpire (s : LimiterState) : Prop :=
  ∀ key c, s.counters key = some c → (∃ t, c.deadline = some t ∧ t ≤ s.now + 60) ∨
    ∃ i, s.phase i = .expiring ∧ bucketOf R (client i) = key

variable (client) in
/-- A step of a call by `name`. -/
def LimiterEvent.By (name : String) : LimiterEvent → Prop
  | .tick _ => False
  | .incr i _ | .expire i _ => client i = name

variable (R client) in
/-- A client none of whose calls is under way and who sends nothing for sixty seconds is admitted
by its next call, if Redis answers. -/
def Readmits (s : LimiterState) : Prop :=
  ∀ i tr s', s.phase i = .idle → (∀ j, s.phase j = .expiring → client j ≠ client i) →
    Run (Fires (limiterStep R client)) s tr s' → (∀ p ∈ tr, ¬ p.2.By client (client i)) →
      s.now + 60 ≤ s'.now → 1 ≤ R.requestsPerMinute →
        ∃ s₁ s₂, limiterStep R client s' (.incr i .ok) = some s₁ ∧
          limiterStep R client s₁ (.expire i .ok) = some s₂ ∧ s₂.phase i = .ended (some true)

variable (R client) in
/-- An `INCR` that creates a counter is answered, and its `EXPIRE` takes effect. -/
def KeepsExpiry (s : LimiterState) : LimiterEvent → Prop
  | .incr i a => a = .lost → s.counters (bucketOf R (client i)) ≠ none
  | .expire _ a => a ≠ .failed
  | .tick _ => True

theorem Timed.countersExpire (h : Timed R client s) : CountersExpire R client s := by
  intro key c hc
  cases ht : c.deadline with
  | none => exact .inr (h.covered key c hc ht)
  | some t => exact .inl ⟨t, rfl, (h.deadlines key c t hc ht).2⟩

theorem Timed.step (h : Timed R client s) (hok : KeepsExpiry R client s e)
    (hs : limiterStep R client s e = some s') : Timed R client s' := by
  have hc := limiterStep_cases R client hs
  cases e with
  | tick seconds =>
    obtain ⟨hpos, rfl⟩ := hc
    exact h.tick hpos
  | incr i a =>
    obtain ⟨hi, hcase⟩ := hc
    have hidle : s.phase i ≠ .expiring := by rw [hi]; decide
    cases hcounter : s.counters (bucketOf R (client i)) with
    | none =>
      rw [hcounter] at hcase
      obtain ⟨-, rfl⟩ | ⟨ha, -⟩ | ⟨-, rfl⟩ := hcase
      · exact h.finish hidle
      · exact absurd hcounter (hok ha)
      · rw [if_pos (by decide)]
        exact h.create hcounter
    | some c =>
      have hpos := h.counts _ c hcounter
      have hbump := h.bump hcounter
      rw [hcounter] at hcase
      obtain ⟨-, rfl⟩ | ⟨-, rfl⟩ | ⟨-, rfl⟩ := hcase
      · exact h.finish hidle
      · exact hbump.finish hidle
      · have hmore : (increased (some c)).count ≠ 1 := by
          simp only [increased, Option.map_some, Option.getD_some]
          omega
        rw [if_neg hmore]
        exact hbump.finish hidle
  | expire i a =>
    obtain ⟨hi, ⟨ha, -⟩ | ⟨-, o, rfl⟩⟩ := hc
    · exact absurd ha hok
    · exact h.expire hi

/-- A step that fails to set the deadline leaves a counter nobody will set one on. -/
theorem Timed.breaks (h : Timed R client s) (hbad : ¬ KeepsExpiry R client s e)
    (hs : limiterStep R client s e = some s') : ¬ CountersExpire R client s' := by
  have hc := limiterStep_cases R client hs
  cases e with
  | tick seconds => exact absurd trivial hbad
  | incr i a =>
    simp only [KeepsExpiry, Classical.not_imp, not_not] at hbad
    obtain ⟨rfl, hnone⟩ := hbad
    obtain ⟨-, ⟨ha, -⟩ | ⟨-, rfl⟩ | ⟨ha, -⟩⟩ := hc
    · cases ha
    · intro hall
      rw [hnone] at hall
      rcases hall (bucketOf R (client i)) (increased none) (put_eq_some.2 (.inl ⟨rfl, rfl⟩)) with
        ⟨t, ht, -⟩ | ⟨j, hj, hkey⟩
      · cases ht
      · rcases phase_setPhase.1 hj with ⟨-, ⟨⟩⟩ | ⟨-, hj⟩
        obtain ⟨c, hcounter, -⟩ := h.pending j hj
        rw [hkey, hnone] at hcounter
        cases hcounter
    · cases ha
  | expire i a =>
    simp only [KeepsExpiry, ne_eq, not_not] at hbad
    obtain ⟨hi, ⟨-, rfl⟩ | ⟨ha, -⟩⟩ := hc
    · intro hall
      obtain ⟨c, hcounter, hnone⟩ := h.pending i hi
      rcases hall _ c hcounter with ⟨t, ht, -⟩ | ⟨j, hj, hkey⟩
      · rw [hnone] at ht
        cases ht
      · rcases phase_setPhase.1 hj with ⟨-, ⟨⟩⟩ | ⟨hji, hj⟩
        exact hji (h.unique j i hj hi (bucketOf_inj hkey))
    · exact absurd hbad ha

/-! ## Sixty seconds of silence -/

/-- Call `i` is not sent yet, and the counter of its client disappears by `t`. -/
structure Silent (R : RateLimit) (client : ℕ → String) (i : ℕ) (t : ℚ) (s : LimiterState) : Prop where
  idle : s.phase i = .idle
  gone : ∀ c, s.counters (bucketOf R (client i)) = some c →
    ∃ d, c.deadline = some d ∧ s.now < d ∧ d ≤ t

theorem Timed.silent {i : ℕ} (h : Timed R client s) (hi : s.phase i = .idle)
    (hnone : ∀ j, s.phase j = .expiring → client j ≠ client i) :
    Silent R client i (s.now + 60) s := by
  refine ⟨hi, fun c hc => ?_⟩
  cases hd : c.deadline with
  | none =>
    obtain ⟨j, hj, hkey⟩ := h.covered _ c hc hd
    exact absurd (bucketOf_inj hkey) (hnone j hj)
  | some d => exact ⟨d, rfl, h.deadlines _ c d hc hd⟩

/-- Steps of other clients leave the counter and the call alone. -/
theorem Silent.frame {i j : ℕ} {t : ℚ} {c : Option Counter} {p : CheckPhase}
    (h : Silent R client i t s) (hj : client j ≠ client i) :
    Silent R client i t ((s.put (bucketOf R (client j)) c).setPhase j p) := by
  have hk : bucketOf R (client i) ≠ bucketOf R (client j) := fun heq => hj (bucketOf_inj heq).symm
  have hi : i ≠ j := fun heq => hj (heq ▸ rfl)
  refine ⟨?_, fun d hd => h.gone d ?_⟩
  · simpa [LimiterState.setPhase, LimiterState.put, hi] using h.idle
  · simpa [LimiterState.setPhase, LimiterState.put, hk] using hd

theorem Silent.phase {i j : ℕ} {t : ℚ} {p : CheckPhase} (h : Silent R client i t s)
    (hj : client j ≠ client i) : Silent R client i t (s.setPhase j p) := by
  have hi : i ≠ j := fun heq => hj (heq ▸ rfl)
  exact ⟨by simpa [LimiterState.setPhase, hi] using h.idle, h.gone⟩

theorem Silent.step {i : ℕ} {t : ℚ} (h : Silent R client i t s) (hother : ¬ e.By client (client i))
    (hs : limiterStep R client s e = some s') : Silent R client i t s' := by
  have hc := limiterStep_cases R client hs
  cases e with
  | tick seconds =>
    obtain ⟨hpos, rfl⟩ := hc
    refine ⟨h.idle, fun c hc => ?_⟩
    obtain ⟨hc, halive⟩ := Option.filter_eq_some_iff.1 hc
    obtain ⟨d, hd, -, hle⟩ := h.gone c hc
    simp only [alive, hd, decide_eq_true_eq] at halive
    exact ⟨d, hd, halive, hle⟩
  | incr j a =>
    obtain ⟨-, ⟨-, rfl⟩ | ⟨-, rfl⟩ | ⟨-, rfl⟩⟩ := hc
    · exact h.phase hother
    · exact h.frame hother
    · exact h.frame hother
  | expire j a =>
    obtain ⟨-, ⟨-, rfl⟩ | ⟨-, o, rfl⟩⟩ := hc
    · exact h.phase hother
    · exact h.frame hother

theorem Timed.readmits (h : Timed R client s) : Readmits R client s := by
  intro i tr s' hi hnone hrun hother hlate hlimit
  have hsilent : Silent R client i (s.now + 60) s' :=
    hrun.invariant_of (h.silent hi hnone)
      (fun _ e _ hI (hok : ¬ e.By client (client i)) hs => Silent.step hI hok hs) hother
  have hgone : s'.counters (bucketOf R (client i)) = none := by
    cases hc : s'.counters (bucketOf R (client i)) with
    | none => rfl
    | some c =>
      obtain ⟨d, -, hlt, hle⟩ := hsilent.gone c hc
      linarith
  set created := (s'.put (bucketOf R (client i)) (increased none)).setPhase i .expiring with hcreated
  have hexpiring : created.phase i = .expiring := by simp [hcreated, LimiterState.setPhase]
  refine ⟨created, (created.setExpiry (bucketOf R (client i))).setPhase i
    (.ended (some (1 ≤ R.requestsPerMinute))), ?_, ?_, ?_⟩
  · simp only [limiterStep, hsilent.idle, hgone]
    rfl
  · simp only [limiterStep, hexpiring]
  · simp [LimiterState.setPhase, hlimit]

/-- In every state of a run each counter disappears within sixty seconds, and a client is admitted
again after sixty seconds of silence, iff every `INCR` that creates a counter is answered and every
`EXPIRE` takes effect. -/
theorem counters_expire_iff {now : ℚ} {tr : List (LimiterState × LimiterEvent)}
    (hrun : Run (Fires (limiterStep R client)) (LimiterState.init now) tr s) :
    Always (fun s => CountersExpire R client s ∧ Readmits R client s) tr s ↔
      ∀ p ∈ tr, KeepsExpiry R client p.1 p.2 :=
  hrun.always_iff (I := Timed R client) (Timed.init now)
    (fun _ h => ⟨h.countersExpire, h.readmits⟩) (fun _ _ _ hI hok hs => hI.step hok hs)
    fun _ _ _ hI hbad hs hgood => hI.breaks hbad hs hgood.1

/-- Two calls of one client and sixty seconds. -/
theorem counters_expire_iff_two : ∃ tr s,
    Run (Fires (limiterStep ⟨1, "reckonflow:"⟩ fun _ => "a")) (LimiterState.init 0) tr s ∧
      Always (fun s => CountersExpire ⟨1, "reckonflow:"⟩ (fun _ => "a") s ∧
        Readmits ⟨1, "reckonflow:"⟩ (fun _ => "a") s) tr s ∧
      s.counters "reckonflow:ratelimit:a" = none ∧ s.phase 1 = .ended (some false) := by
  obtain ⟨⟨tr, s⟩, h⟩ : ∃ p, drive (limiterStep ⟨1, "reckonflow:"⟩ fun _ => "a") (LimiterState.init 0)
      [.incr 0 .ok, .expire 0 .lost, .incr 1 .ok, .tick 60] = some p := ⟨_, rfl⟩
  have hok : ∀ p ∈ tr, KeepsExpiry ⟨1, "reckonflow:"⟩ (fun _ => "a") p.1 p.2 := by
    intro p hp
    have := drive_mem h p hp
    simp only [List.mem_cons, List.not_mem_nil, or_false] at this
    rcases this with h | h | h | h <;> simp [h, KeepsExpiry]
  refine ⟨tr, s, run_of_drive h, (counters_expire_iff (run_of_drive h)).2 hok, ?_⟩
  obtain ⟨-, rfl⟩ := Prod.mk.inj (Option.some.inj h)
  exact ⟨by decide +kernel, by decide +kernel⟩

/-- One `EXPIRE` fails: an hour later the client is still refused. -/
theorem counters_expire_fails : ¬ ∀ (R : RateLimit) (client : ℕ → String) (now : ℚ)
    (tr : List (LimiterState × LimiterEvent)) (s : LimiterState),
    Run (Fires (limiterStep R client)) (LimiterState.init now) tr s →
      CountersExpire R client s ∧ Readmits R client s := by
  intro hall
  obtain ⟨⟨tr, s⟩, h⟩ : ∃ p, drive (limiterStep ⟨1, "reckonflow:"⟩ fun _ => "a") (LimiterState.init 0)
      [.incr 0 .ok, .expire 0 .failed, .tick 3600] = some p := ⟨_, rfl⟩
  have hexpire := (hall _ _ _ _ _ (run_of_drive h)).1
  obtain ⟨-, rfl⟩ := Prod.mk.inj (Option.some.inj h)
  rcases hexpire "reckonflow:ratelimit:a" ⟨1, none⟩ (by decide +kernel) with ⟨t, ht, -⟩ | ⟨i, hi, -⟩
  · cases ht
  · by_cases h0 : i = 0
    · subst h0
      exact absurd hi (by decide +kernel)
    · simp [LimiterState.setPhase, LimiterState.put, LimiterState.init, h0] at hi

end ReckonFlow
