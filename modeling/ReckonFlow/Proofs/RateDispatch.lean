import ReckonFlow.Lib.FixedWindow
import ReckonFlow.Proofs.RateCounters
import ReckonFlow.Proofs.RateLimit
import ReckonFlow.Spec.RateDispatch

/-! What the two checks of the limiter let pass together: two windows of the Redis counter, and
one window of each process that had to fall back on its memory. -/

namespace ReckonFlow.RateDispatch

open Lts

/-! ## The counter -/

section Counter

variable {R : RateLimit} {client : ℕ → String} {s s' : LimiterState} {e : LimiterEvent} {c : String}
  {times : List ℚ} {start : ℚ} {current : ℕ}

/-- The times at which Redis let a client pass, the last `current` of them with the counter that
is there or was the last to be there. -/
structure Counted (R : RateLimit) (client : ℕ → String) (s : LimiterState) (c : String)
    (times : List ℚ) (start : ℚ) (current : ℕ) : Prop where
  holds : FixedWindow.Holds 60 R.requestsPerMinute.toNat times start current
  within : current ≤ R.requestsPerMinute.toNat
  begun : start ≤ s.now
  past : ∀ t ∈ times, t ≤ s.now
  gone : s.counters (bucketOf R c) = none → start + 60 ≤ s.now ∧ ∀ t ∈ times, t < s.now
  count : ∀ k, s.counters (bucketOf R c) = some k → (current : ℤ) ≤ k.count
  positive : ∀ k, s.counters (bucketOf R c) = some k → 0 < k.count
  deadline : ∀ k d, s.counters (bucketOf R c) = some k → k.deadline = some d → s.now < d ∧ start + 60 ≤ d
  /-- the call that created the counter still has its turn -/
  pending : ∀ i, s.phase i = .expiring → client i = c → ∃ k, s.counters (bucketOf R c) = some k ∧
    k.deadline = none ∧ (current : ℤ) < k.count ∧
      (1 ≤ R.requestsPerMinute → (current : ℤ) < R.requestsPerMinute)
  unique : ∀ i j, s.phase i = .expiring → s.phase j = .expiring → client i = c → client j = c → i = j

theorem Counted.init (now : ℚ) : Counted R client (.init now) c [] (now - 60) 0 where
  holds := .nil
  within := Nat.zero_le _
  begun := by
    show now - 60 ≤ now
    linarith
  past := by simp
  gone _ := ⟨(sub_add_cancel now 60).le, by simp⟩
  count := by rintro k ⟨⟩
  positive := by rintro k ⟨⟩
  deadline := by rintro k d ⟨⟩
  pending := by rintro i ⟨⟩
  unique := by rintro i j ⟨⟩

/-- Nothing of the client has changed but that a call may be over. -/
theorem Counted.frame (h : Counted R client s c times start current) (hnow : s'.now = s.now)
    (hcounter : s'.counters (bucketOf R c) = s.counters (bucketOf R c))
    (hphase : ∀ i, s'.phase i = .expiring → client i = c → s.phase i = .expiring) :
    Counted R client s' c times start current where
  holds := h.holds
  within := h.within
  begun := hnow ▸ h.begun
  past := hnow ▸ h.past
  gone := by
    rw [hcounter, hnow]
    exact h.gone
  count := hcounter ▸ h.count
  positive := hcounter ▸ h.positive
  deadline := by
    rw [hcounter, hnow]
    exact h.deadline
  pending i hi hc := by
    rw [hcounter]
    exact h.pending i (hphase i hi hc) hc
  unique i j hi hj hci hcj := h.unique i j (hphase i hi hci) (hphase j hj hcj) hci hcj

theorem Counted.tick {seconds : ℚ} (h : Counted R client s c times start current) (hpos : 0 ≤ seconds) :
    Counted R client { s with
      now := s.now + seconds
      counters := fun key => (s.counters key).filter (alive (s.now + seconds)) } c times start current where
  holds := h.holds
  within := h.within
  begun := by
    have := h.begun
    dsimp only
    linarith
  past t ht := by
    have := h.past t ht
    dsimp only
    linarith
  gone hgone := by
    dsimp only at hgone ⊢
    cases hk : s.counters (bucketOf R c) with
    | none =>
      obtain ⟨hlong, hpast⟩ := h.gone hk
      exact ⟨by linarith, fun t ht => by linarith [hpast t ht]⟩
    | some k =>
      -- the counter goes with this tick
      rw [hk, Option.filter_some] at hgone
      split_ifs at hgone with halive
      unfold alive at halive
      split at halive
      · exact absurd rfl halive
      · rename_i d hd
        obtain ⟨hlive, hlong⟩ := h.deadline k d hk hd
        have hover : d ≤ s.now + seconds := not_lt.1 (by simpa using halive)
        exact ⟨hlong.trans hover, fun t ht => (h.past t ht).trans_lt (hlive.trans_le hover)⟩
  count k hk := h.count k (Option.eq_some_of_filter_eq_some hk)
  positive k hk := h.positive k (Option.eq_some_of_filter_eq_some hk)
  deadline k d hk hd := by
    obtain ⟨hk, halive⟩ := Option.filter_eq_some_iff.1 hk
    simp only [alive, hd, decide_eq_true_eq] at halive
    exact ⟨halive, (h.deadline k d hk hd).2⟩
  pending i hi hc := by
    obtain ⟨k, hk, hnone, hlt⟩ := h.pending i hi hc
    refine ⟨k, ?_, hnone, hlt⟩
    simp only [hk, Option.filter_some, alive, hnone, if_true]
  unique := h.unique

/-- The `INCR` that creates the counter: a new window. -/
theorem Counted.create (i : ℕ) (h : Counted R client s c times start current)
    (hnone : s.counters (bucketOf R c) = none) (hnow : s'.now = s.now)
    (hcounter : s'.counters (bucketOf R c) = some (increased none))
    (hphase : ∀ j, s'.phase j = .expiring → client j = c → j = i ∨ s.phase j = .expiring) :
    Counted R client s' c times s.now 0 := by
  obtain ⟨hlong, hpast⟩ := h.gone hnone
  have honly : ∀ j, s'.phase j = .expiring → client j = c → j = i := by
    intro j hj hc
    refine (hphase j hj hc).resolve_right fun hold => ?_
    obtain ⟨k, hk, -⟩ := h.pending j hold hc
    rw [hnone] at hk
    cases hk
  have hk : ∀ k, s'.counters (bucketOf R c) = some k → k = ⟨1, none⟩ := by
    intro k hk
    rw [hcounter] at hk
    exact (Option.some.inj hk).symm
  refine ⟨h.holds.roll (by norm_num) h.within hlong hpast, Nat.zero_le _, hnow.ge, hnow ▸ h.past, ?_,
    ?_, ?_, ?_, ?_, ?_⟩
  · rw [hcounter]
    rintro ⟨⟩
  · intro k hget
    rw [hk k hget]
    exact zero_le_one
  · intro k hget
    rw [hk k hget]
    exact zero_lt_one
  · intro k d hget hd
    rw [hk k hget] at hd
    cases hd
  · intro j _ _
    exact ⟨_, hcounter, rfl, zero_lt_one, fun hlimit => hlimit⟩
  · intro j l hj hl hcj hcl
    rw [honly j hj hcj, honly l hl hcl]

/-- An `INCR` on a counter that is there, or an `EXPIRE`. -/
theorem Counted.update {k k' : Counter} (h : Counted R client s c times start current)
    (hk : s.counters (bucketOf R c) = some k) (hnow : s'.now = s.now)
    (hcounter : s'.counters (bucketOf R c) = some k') (hle : k.count ≤ k'.count)
    (hdeadline : k'.deadline = k.deadline ∨ k'.deadline = some (s.now + 60) ∧
      ∀ j, s'.phase j = .expiring → client j ≠ c)
    (hphase : ∀ j, s'.phase j = .expiring → client j = c → s.phase j = .expiring) :
    Counted R client s' c times start current := by
  have hget : ∀ k'', s'.counters (bucketOf R c) = some k'' → k'' = k' := by
    intro k'' hk''
    exact Option.some.inj (hk''.symm.trans hcounter)
  refine ⟨h.holds, h.within, hnow ▸ h.begun, hnow ▸ h.past, ?_, ?_, ?_, ?_, ?_, ?_⟩
  · rw [hcounter]
    rintro ⟨⟩
  · intro k'' hk''
    rw [hget k'' hk'']
    exact (h.count k hk).trans hle
  · intro k'' hk''
    rw [hget k'' hk'']
    exact (h.positive k hk).trans_le hle
  · intro k'' d hk'' hd
    rw [hget k'' hk''] at hd
    rw [hnow]
    rcases hdeadline with hsame | ⟨hnew, -⟩
    · exact h.deadline k d hk (hsame ▸ hd)
    · obtain rfl := Option.some.inj (hnew.symm.trans hd)
      have := h.begun
      exact ⟨by linarith, by linarith⟩
  · intro j hj hc
    obtain ⟨k₀, hk₀, hnone, hlt, hlimit⟩ := h.pending j (hphase j hj hc) hc
    obtain rfl := Option.some.inj (hk₀.symm.trans hk)
    refine ⟨k', hcounter, ?_, hlt.trans_le hle, hlimit⟩
    rcases hdeadline with hsame | ⟨-, hover⟩
    · rw [hsame, hnone]
    · exact absurd hc (hover j hj)
  · intro j l hj hl hcj hcl
    exact h.unique j l (hphase j hj hcj) (hphase l hl hcl) hcj hcl

/-- A call of the client is let pass. -/
theorem Counted.admit {k : Counter} (h : Counted R client s c times start current)
    (hk : s.counters (bucketOf R c) = some k) (hlimit : (current : ℤ) < R.requestsPerMinute)
    (hcount : (current : ℤ) < k.count)
    (hpending : ∀ i, s.phase i = .expiring → client i = c →
      (current + 1 : ℤ) < k.count ∧ (current + 1 : ℤ) < R.requestsPerMinute) :
    Counted R client s c (times ++ [s.now]) start (current + 1) := by
  have hget : ∀ k', s.counters (bucketOf R c) = some k' → k' = k := by
    intro k' hk'
    exact Option.some.inj (hk'.symm.trans hk)
  refine ⟨h.holds.push (by omega) h.begun, by omega, h.begun, ?_, ?_, ?_, h.positive, h.deadline, ?_,
    h.unique⟩
  · intro t ht
    rcases List.mem_append.1 ht with ht | ht
    · exact h.past t ht
    · exact (List.mem_singleton.1 ht).le
  · rw [hk]
    rintro ⟨⟩
  · intro k' hk'
    rw [hget k' hk']
    push_cast
    omega
  · intro i hi hc
    obtain ⟨k', hk', hnone, -⟩ := h.pending i hi hc
    rw [hget k' hk'] at hnone
    obtain ⟨hbelow, hroom⟩ := hpending i hi hc
    exact ⟨k, hk, hnone, by push_cast; exact hbelow, fun _ => by push_cast; exact hroom⟩

/-- The times of the admissions of a client by Redis, or by the memory of a process. -/
def timesOf (client : ℕ → String) (memory : Option ℕ) (c : String) (log : List Admission) : List ℚ :=
  (log.filter fun x => x.memory = memory ∧ client x.call = c).map (·.time)

theorem timesOf_append (client : ℕ → String) (memory : Option ℕ) (c : String) (log log' : List Admission) :
    timesOf client memory c (log ++ log') = timesOf client memory c log ++ timesOf client memory c log' := by
  rw [timesOf, List.filter_append, List.map_append]
  rfl

theorem timesOf_letPass {i : ℕ} (h : commandOf e = some i) : timesOf client none c (letPass s e) =
    if s.phase i = .ended (some true) ∧ client i = c then [s.now] else [] := by
  simp only [letPass, h, timesOf]
  by_cases hphase : s.phase i = .ended (some true) <;> by_cases hc : client i = c <;> simp [hphase, hc]

theorem timesOf_not_passed {i : ℕ} (h : commandOf e = some i) (hnot : client i = c → s.phase i ≠ .ended (some true)) :
    timesOf client none c (letPass s e) = [] := by
  rw [timesOf_letPass h, if_neg fun hboth => hnot hboth.2 hboth.1]

theorem timesOf_passed {i : ℕ} (h : commandOf e = some i) (hc : client i = c)
    (hphase : s.phase i = .ended (some true)) : timesOf client none c (letPass s e) = [s.now] := by
  rw [timesOf_letPass h, if_pos ⟨hphase, hc⟩]

theorem put_self (s : LimiterState) (key : String) (k : Option Counter) : (s.put key k).counters key = k :=
  Function.update_self ..

theorem put_of_ne (s : LimiterState) {key key' : String} (k : Option Counter) (h : key' ≠ key) :
    (s.put key k).counters key' = s.counters key' := Function.update_of_ne h ..

theorem phase_self (s : LimiterState) (i : ℕ) (p : CheckPhase) : (s.setPhase i p).phase i = p :=
  Function.update_self ..

theorem expiring_of_setPhase {i j : ℕ} {p : CheckPhase} (h : (s.setPhase i p).phase j = .expiring)
    (hp : p ≠ .expiring) : j ≠ i ∧ s.phase j = .expiring :=
  (phase_setPhase.1 h).resolve_left fun heq => hp heq.2

/-- A command of another client, or one that does not reach Redis. -/
theorem Counted.aside {i : ℕ} {p : CheckPhase} (h : Counted R client s c times start current)
    (hcommand : commandOf e = some i) (hnow : s'.now = s.now)
    (hcounter : s'.counters (bucketOf R c) = s.counters (bucketOf R c)) (hphase : s'.phase = s.phase)
    (hother : client i = c → p ≠ .expiring ∧ p ≠ .ended (some true)) :
    Counted R client (s'.setPhase i p) c (times ++ timesOf client none c (letPass (s'.setPhase i p) e))
      start current := by
  rw [timesOf_not_passed hcommand fun hc => ?_, List.append_nil]
  · refine h.frame hnow hcounter fun j hj hc => ?_
    rcases phase_setPhase.1 hj with ⟨rfl, hp⟩ | ⟨-, hj⟩
    · exact absurd hp (hother hc).1
    · rwa [hphase] at hj
  · rw [phase_self]
    exact (hother hc).2

theorem Counted.incr {i : ℕ} {a : Answer} (h : Counted R client s c times start current)
    (hs : limiterStep R client s (.incr i a) = some s') :
    ∃ start current, Counted R client s' c (times ++ timesOf client none c (letPass s' (.incr i a)))
      start current := by
  obtain ⟨-, ⟨-, rfl⟩ | ⟨-, rfl⟩ | ⟨-, rfl⟩⟩ := limiterStep_cases R client hs
  · exact ⟨start, current, h.aside rfl rfl rfl rfl fun _ => ⟨nofun, nofun⟩⟩
  · by_cases hc : client i = c
    · subst hc
      rw [timesOf_not_passed rfl fun _ => by rw [phase_self]; nofun, List.append_nil]
      cases hk : s.counters (bucketOf R (client i)) with
      | none =>
        refine ⟨s.now, 0, h.create i hk rfl (put_self ..) fun j hj _ => .inr ?_⟩
        exact (expiring_of_setPhase hj nofun).2
      | some k =>
        refine ⟨start, current, h.update hk rfl (put_self ..) ?_ (.inl rfl) fun j hj _ => ?_⟩
        · exact (lt_add_one k.count).le
        · exact (expiring_of_setPhase hj nofun).2
    · have hbucket : bucketOf R c ≠ bucketOf R (client i) := fun heq => hc (bucketOf_inj heq).symm
      exact ⟨start, current, h.aside rfl rfl (put_of_ne _ _ hbucket) rfl fun heq => absurd heq hc⟩
  · by_cases hc : client i = c
    · subst hc
      cases hk : s.counters (bucketOf R (client i)) with
      | none =>
        have hone : (increased none).count = 1 := rfl
        rw [if_pos hone, timesOf_not_passed rfl fun _ => by rw [phase_self]; nofun, List.append_nil]
        refine ⟨s.now, 0, h.create i hk rfl (put_self ..) fun j hj _ => ?_⟩
        rcases phase_setPhase.1 hj with ⟨rfl, -⟩ | ⟨-, hj⟩
        · exact .inl rfl
        · exact .inr hj
      | some k =>
        have hpositive := h.positive k hk
        have hcount : (increased (some k)).count = k.count + 1 := rfl
        rw [if_neg (by omega)]
        have hended : ∀ j, ((s.put (bucketOf R (client i)) (increased (some k))).setPhase i
            (.ended (some ((increased (some k)).count ≤ R.requestsPerMinute)))).phase j = .expiring →
              s.phase j = .expiring := fun j hj => (expiring_of_setPhase hj nofun).2
        have hupdated : Counted R client ((s.put (bucketOf R (client i)) (increased (some k))).setPhase i
            (.ended (some ((increased (some k)).count ≤ R.requestsPerMinute)))) (client i) times start
              current :=
          h.update hk rfl (put_self ..) (by omega) (.inl rfl) fun j hj _ => hended j hj
        by_cases hroom : k.count + 1 ≤ R.requestsPerMinute
        · have hbelow := h.count k hk
          rw [timesOf_passed rfl rfl (by rw [phase_self, hcount, decide_eq_true hroom])]
          refine ⟨start, current + 1, hupdated.admit (put_self ..) (by omega) (by omega) fun j hj hcj => ?_⟩
          obtain ⟨k₀, hk₀, -, hlt, -⟩ := h.pending j (hended j hj) hcj
          obtain rfl := Option.some.inj (hk₀.symm.trans hk)
          exact ⟨by omega, by omega⟩
        · rw [timesOf_not_passed rfl fun _ => ?_, List.append_nil]
          · exact ⟨start, current, hupdated⟩
          · rw [phase_self, hcount, decide_eq_false hroom]
            nofun
    · have hbucket : bucketOf R c ≠ bucketOf R (client i) := fun heq => hc (bucketOf_inj heq).symm
      exact ⟨start, current, h.aside rfl rfl (put_of_ne _ _ hbucket) rfl fun heq => absurd heq hc⟩

theorem limiterStep_expire {i : ℕ} {a : Answer} (h : limiterStep R client s (.expire i a) = some s') :
    s.phase i = .expiring ∧ (s' = s.setPhase i (.ended none) ∨
      ∃ o, (o = some true → 1 ≤ R.requestsPerMinute) ∧
        s' = (s.setExpiry (bucketOf R (client i))).setPhase i (.ended o)) := by
  simp only [limiterStep] at h
  split at h
  · refine ⟨‹_›, ?_⟩
    cases a with
    | ok => exact .inr ⟨_, fun ho => by simpa using ho, (Option.some.inj h).symm⟩
    | failed => exact .inl (Option.some.inj h).symm
    | lost => exact .inr ⟨none, (fun heq => by cases heq), (Option.some.inj h).symm⟩
  · cases h

theorem Counted.expire {i : ℕ} {a : Answer} (h : Counted R client s c times start current)
    (hs : limiterStep R client s (.expire i a) = some s') :
    ∃ start current, Counted R client s' c (times ++ timesOf client none c (letPass s' (.expire i a)))
      start current := by
  obtain ⟨hphase, rfl | ⟨o, ho, rfl⟩⟩ := limiterStep_expire hs
  · exact ⟨start, current, h.aside rfl rfl rfl rfl fun _ => ⟨nofun, nofun⟩⟩
  by_cases hc : client i = c
  · subst hc
    obtain ⟨k, hk, -, hlt, hlimit⟩ := h.pending i hphase rfl
    rw [setExpiry_of_some hk]
    have hover : ∀ j, ((s.put (bucketOf R (client i)) (some ⟨k.count, some (s.now + 60)⟩)).setPhase i
        (.ended o)).phase j = .expiring → client j ≠ client i := by
      intro j hj hcj
      obtain ⟨hne, hj⟩ := expiring_of_setPhase hj nofun
      exact hne (h.unique j i hj hphase hcj rfl)
    have hupdated : Counted R client ((s.put (bucketOf R (client i))
        (some ⟨k.count, some (s.now + 60)⟩)).setPhase i (.ended o)) (client i) times start current :=
      h.update hk rfl (put_self ..) le_rfl (.inr ⟨rfl, hover⟩) fun j hj hcj => absurd hcj (hover j hj)
    by_cases hyes : o = some true
    · subst hyes
      rw [timesOf_passed rfl rfl (phase_self ..)]
      exact ⟨start, current + 1, hupdated.admit (put_self ..) (hlimit (ho rfl)) hlt
        fun j hj hcj => absurd hcj (hover j hj)⟩
    · rw [timesOf_not_passed rfl fun _ => ?_, List.append_nil]
      · exact ⟨start, current, hupdated⟩
      · rw [phase_self]
        exact fun heq => hyes (CheckPhase.ended.inj heq)
  · have hbucket : bucketOf R c ≠ bucketOf R (client i) := fun heq => hc (bucketOf_inj heq).symm
    have hcounter : (s.setExpiry (bucketOf R (client i))).counters (bucketOf R c) =
        s.counters (bucketOf R c) := put_of_ne _ _ hbucket
    exact ⟨start, current, h.aside rfl rfl hcounter rfl fun heq => absurd heq hc⟩

theorem Counted.step (h : ∃ start current, Counted R client s c times start current)
    (hs : limiterStep R client s e = some s') :
    ∃ start current, Counted R client s' c (times ++ timesOf client none c (letPass s' e)) start current := by
  obtain ⟨start, current, h⟩ := h
  cases e with
  | tick seconds =>
    obtain ⟨hpos, rfl⟩ := limiterStep_cases R client hs
    refine ⟨start, current, ?_⟩
    rw [show timesOf client none c (letPass _ (.tick seconds)) = [] from rfl, List.append_nil]
    exact h.tick hpos
  | incr i a => exact h.incr hs
  | expire i a => exact h.expire hs

/-- A command moves its call alone, and only one that is not over. -/
theorem limiterStep_phase (h : limiterStep R client s e = some s') :
    s.now ≤ s'.now ∧ (∀ j, commandOf e ≠ some j → s'.phase j = s.phase j) ∧
      ∀ i, commandOf e = some i → (∀ o, s.phase i ≠ .ended o) ∧ s'.phase i ≠ .idle := by
  have hmoved : ∀ {s₁ : LimiterState} {i : ℕ} {p : CheckPhase}, s' = s₁.setPhase i p →
      s₁.phase = s.phase → s₁.now = s.now → p ≠ .idle → (∀ o, s.phase i ≠ .ended o) →
      s.now ≤ s'.now ∧ (∀ j, some i ≠ some j → s'.phase j = s.phase j) ∧
        ∀ j, some i = some j → (∀ o, s.phase j ≠ .ended o) ∧ s'.phase j ≠ .idle := by
    rintro s₁ i p rfl hphase hnow hp hopen
    refine ⟨hnow.ge, fun j hj => ?_, ?_⟩
    · rw [← hphase]
      exact Function.update_of_ne (fun heq => hj (congrArg some heq.symm)) ..
    · rintro j ⟨⟩
      exact ⟨hopen, by rwa [phase_self]⟩
  cases e with
  | tick seconds =>
    obtain ⟨hpos, rfl⟩ := limiterStep_cases R client h
    exact ⟨le_add_of_nonneg_right hpos, fun _ _ => rfl, nofun⟩
  | incr i a =>
    obtain ⟨hidle, ⟨-, hs⟩ | ⟨-, hs⟩ | ⟨-, hs⟩⟩ := limiterStep_cases R client h
    · exact hmoved hs rfl rfl nofun fun o => hidle ▸ nofun
    · exact hmoved hs rfl rfl nofun fun o => hidle ▸ nofun
    · refine hmoved hs rfl rfl ?_ fun o => hidle ▸ nofun
      split_ifs <;> nofun
  | expire i a =>
    obtain ⟨hphase, hs | ⟨o, -, hs⟩⟩ := limiterStep_expire h
    · exact hmoved hs rfl rfl nofun fun o => hphase ▸ nofun
    · exact hmoved hs rfl rfl nofun fun o => hphase ▸ nofun

end Counter

variable {limit : Gateway.RateLimit} {keyPrefix : String} {clock : ℕ → ℚ} {call : ℕ → Call} {s s' : State}
  {ev : Event} {tr : List (State × Event)} {now : ℚ}

/-! ## The memory of a process -/

/-- The window of a process is that of a limiter which saw `calls`, by the clock of the process. -/
structure Remembers (R : RateLimit) (client : ℕ → String) (s : State) (p : ℕ) (offset : ℚ)
    (calls : List (String × ℚ)) : Prop where
  sorted : (calls.map (·.2)).Pairwise (· ≤ ·)
  past : ∀ x ∈ calls, x.2 ≤ s.redis.now + offset
  hits : s.hits p = (recordAll R calls).1
  times : ∀ c, (timesOf client (some p) c s.admitted).map (· + offset) = admittedTimes c (history R calls)

theorem timesOf_letPass_memory (client : ℕ → String) (p : ℕ) (c : String) (redis : LimiterState)
    (e : LimiterEvent) : timesOf client (some p) c (letPass redis e) = [] := by
  unfold letPass
  split
  · rfl
  · split_ifs
    · simp [timesOf]
    · rfl

theorem Remembers.redis {R : RateLimit} {client : ℕ → String} {p : ℕ} {offset : ℚ}
    {calls : List (String × ℚ)} (h : Remembers R client s p offset calls) {redis : LimiterState}
    (e : LimiterEvent) (hnow : s.redis.now ≤ redis.now) : Remembers R client
      { s with redis := redis, admitted := s.admitted ++ letPass redis e } p offset calls where
  sorted := h.sorted
  past x hx := by
    have := h.past x hx
    dsimp only
    linarith
  hits := h.hits
  times c := by
    rw [timesOf_append, timesOf_letPass_memory, List.append_nil]
    exact h.times c

/-- One more call of `_check_memory` in the process. -/
theorem Remembers.check {R : RateLimit} {client : ℕ → String} {p i : ℕ} {offset : ℚ}
    {calls : List (String × ℚ)} (h : Remembers R client s p offset calls)
    {fallback : ℕ → Option Bool} : Remembers R client { s with
      hits := Function.update s.hits p (checkMemory R (s.hits p) (client i) (s.redis.now + offset)).1
      fallback := fallback
      admitted := s.admitted ++ if (checkMemory R (s.hits p) (client i) (s.redis.now + offset)).2 then
        [⟨i, s.redis.now, some p⟩] else [] } p offset (calls ++ [(client i, s.redis.now + offset)]) where
  sorted := by
    rw [List.map_append, List.pairwise_append]
    refine ⟨h.sorted, List.pairwise_singleton _ _, fun t ht u hu => ?_⟩
    obtain ⟨x, hx, rfl⟩ := List.mem_map.1 ht
    obtain rfl := List.mem_singleton.1 hu
    exact h.past x hx
  past x hx := by
    rcases List.mem_append.1 hx with hx | hx
    · exact h.past x hx
    · rw [List.mem_singleton.1 hx]
  hits := by
    rw [recordAll_snoc, record, ← h.hits]
    exact Function.update_self ..
  times c := by
    rw [history_snoc, admittedTimes_snoc, ← h.times c, timesOf_append, List.map_append, nextCall, ← h.hits]
    congr 1
    dsimp only
    generalize (checkMemory R (s.hits p) (client i) (s.redis.now + offset)).2 = allowed
    cases allowed <;> by_cases hc : client i = c <;> simp [hc, timesOf]

/-- The memory of another process. -/
theorem Remembers.other {R : RateLimit} {client : ℕ → String} {p q i : ℕ} {offset : ℚ} {allowed : Bool}
    {calls : List (String × ℚ)} (h : Remembers R client s q offset calls) (hne : q ≠ p) {hits : Hits}
    {fallback : ℕ → Option Bool} : Remembers R client { s with
      hits := Function.update s.hits p hits
      fallback := fallback
      admitted := s.admitted ++ if allowed then [⟨i, s.redis.now, some p⟩] else [] } q offset calls where
  sorted := h.sorted
  past := h.past
  hits := (Function.update_of_ne hne ..).trans h.hits
  times c := by
    have hnone : timesOf client (some q) c (if allowed then [⟨i, s.redis.now, some p⟩] else []) = [] := by
      cases allowed <;> simp [timesOf, Ne.symm hne]
    rw [timesOf_append, hnone, List.append_nil]
    exact h.times c

/-! ## The middleware -/

structure Inv (limit : Gateway.RateLimit) (keyPrefix : String) (clock : ℕ → ℚ) (call : ℕ → Call)
    (s : State) : Prop where
  redis : ∀ c, ∃ start current, Counted (checks limit keyPrefix) (clientOf call) s.redis c
    (timesOf (clientOf call) none c s.admitted) start current
  memory : ∀ p, ∃ calls, Remembers (checks limit keyPrefix) (clientOf call) s p (clock p) calls
  asked : ∀ i, s.redis.phase i ≠ .idle → limit.counts (call i).request = true
  fallen : ∀ i, s.fallback i ≠ none → s.redis.phase i = .ended none
  listed : ∀ i, i ∈ s.admitted.map (·.call) ↔ s.redis.phase i = .ended (some true) ∨ s.fallback i = some true
  once : (s.admitted.map (·.call)).Nodup
  process : ∀ x ∈ s.admitted, ∀ p, x.memory = some p → (call x.call).process = p

theorem Inv.init (now : ℚ) : Inv limit keyPrefix clock call (.init now) where
  redis _ := ⟨now - 60, 0, .init now⟩
  memory _ := ⟨[], .nil, by simp, rfl, fun _ => rfl⟩
  asked _ h := absurd rfl h
  fallen _ h := absurd rfl h
  listed _ := by simp [State.init, LimiterState.init]
  once := List.nodup_nil
  process := by rintro x ⟨⟩

theorem letPass_call {redis : LimiterState} {e : LimiterEvent} {x : Admission} (hx : x ∈ letPass redis e) :
    commandOf e = some x.call ∧ redis.phase x.call = .ended (some true) ∧ x.memory = none := by
  unfold letPass at hx
  split at hx
  · cases hx
  · split_ifs at hx with hphase
    · obtain rfl := List.mem_singleton.1 hx
      exact ⟨‹_›, hphase, rfl⟩
    · cases hx

theorem Inv.redisStep (h : Inv limit keyPrefix clock call s) {e : LimiterEvent} {redis : LimiterState}
    (hcounts : ∀ i ∈ commandOf e, limit.counts (call i).request)
    (hs : limiterStep (checks limit keyPrefix) (clientOf call) s.redis e = some redis) :
    Inv limit keyPrefix clock call { s with redis := redis, admitted := s.admitted ++ letPass redis e } := by
  obtain ⟨hnow, hothers, hown⟩ := limiterStep_phase hs
  have hopen : ∀ i, commandOf e = some i → i ∉ s.admitted.map (·.call) := by
    intro i hi hmem
    rcases (h.listed i).1 hmem with hphase | hfallback
    · exact (hown i hi).1 _ hphase
    · exact (hown i hi).1 _ (h.fallen i (by rw [hfallback]; nofun))
  refine ⟨fun c => ?_, fun p => ?_, fun i hi => ?_, fun i hi => ?_, fun i => ?_, ?_, fun x hx p hp => ?_⟩
  · rw [timesOf_append]
    exact Counted.step (h.redis c) hs
  · obtain ⟨calls, hcalls⟩ := h.memory p
    exact ⟨calls, hcalls.redis e hnow⟩
  · by_cases hcommand : commandOf e = some i
    · exact hcounts i hcommand
    · exact h.asked i (hothers i hcommand ▸ hi)
  · have hfallen := h.fallen i hi
    by_cases hcommand : commandOf e = some i
    · exact absurd hfallen ((hown i hcommand).1 _)
    · exact (hothers i hcommand).trans hfallen
  · rw [List.map_append, List.mem_append, h.listed]
    by_cases hcommand : commandOf e = some i
    · have hnew : i ∈ (letPass redis e).map (·.call) ↔ redis.phase i = .ended (some true) := by
        simp only [letPass, hcommand]
        split_ifs with hphase <;> simp [hphase]
      rw [hnew, ← h.listed, or_iff_right (hopen i hcommand), or_iff_left]
      intro hfallback
      exact (hown i hcommand).1 _ (h.fallen i (by rw [hfallback]; nofun))
    · have hnew : i ∉ (letPass redis e).map (·.call) := by
        rintro hmem
        obtain ⟨x, hx, rfl⟩ := List.mem_map.1 hmem
        exact hcommand (letPass_call hx).1
      rw [or_iff_left hnew, hothers i hcommand]
  · rw [List.map_append, List.nodup_append]
    refine ⟨h.once, ?_, ?_⟩
    · unfold letPass
      split
      · exact List.nodup_nil
      · split_ifs <;> simp
    · rintro i hi j hj rfl
      obtain ⟨x, hx, rfl⟩ := List.mem_map.1 hj
      exact hopen _ (letPass_call hx).1 hi
  · rcases List.mem_append.1 hx with hx | hx
    · exact h.process x hx p hp
    · rw [(letPass_call hx).2.2] at hp
      cases hp

theorem Inv.memoryStep (h : Inv limit keyPrefix clock call s) {i : ℕ} (hphase : s.redis.phase i = .ended none)
    (hfirst : s.fallback i = none) (hs : step limit keyPrefix clock call s (.memory i) = some s') :
    Inv limit keyPrefix clock call s' := by
  simp only [step, if_pos (And.intro hphase hfirst)] at hs
  obtain rfl := Option.some.inj hs
  have hopen : i ∉ s.admitted.map (·.call) := by
    rw [h.listed, hphase, hfirst]
    simp
  have hother : ∀ {allowed : Bool} {c : String}, timesOf (clientOf call) none c
      (if allowed then [⟨i, s.redis.now, some (call i).process⟩] else []) = [] := by
    intro allowed c
    cases allowed <;> simp [timesOf]
  refine ⟨fun c => ?_, fun p => ?_, h.asked, fun j hj => ?_, fun j => ?_, ?_, fun x hx p hp => ?_⟩
  · obtain ⟨start, current, hcounted⟩ := h.redis c
    refine ⟨start, current, ?_⟩
    rw [timesOf_append, hother, List.append_nil]
    exact hcounted
  · obtain ⟨calls, hcalls⟩ := h.memory p
    by_cases hp : p = (call i).process
    · subst hp
      exact ⟨_, hcalls.check⟩
    · exact ⟨calls, hcalls.other hp⟩
  · dsimp only at hj
    by_cases hji : j = i
    · rw [hji]
      exact hphase
    · rw [Function.update_of_ne hji] at hj
      exact h.fallen j hj
  · rw [List.map_append, List.mem_append, h.listed]
    dsimp only
    generalize (checkMemory (checks limit keyPrefix) (s.hits (call i).process) (clientOf call i)
      (s.redis.now + clock (call i).process)).2 = allowed
    by_cases hji : j = i
    · subst hji
      cases allowed <;> simp [hphase, hfirst]
    · rw [Function.update_of_ne hji]
      cases allowed <;> simp [hji]
  · rw [List.map_append, List.nodup_append]
    refine ⟨h.once, ?_, ?_⟩
    · split_ifs <;> simp
    · rintro j hj l hl rfl
      split_ifs at hl
      · obtain rfl := List.mem_singleton.1 hl
        exact hopen hj
      · cases hl
  · rcases List.mem_append.1 hx with hx | hx
    · exact h.process x hx p hp
    · split_ifs at hx
      · obtain rfl := List.mem_singleton.1 hx
        exact Option.some.inj hp
      · cases hx

theorem Inv.step (h : Inv limit keyPrefix clock call s)
    (hs : RateDispatch.step limit keyPrefix clock call s ev = some s') : Inv limit keyPrefix clock call s' := by
  cases ev with
  | redis e =>
    simp only [RateDispatch.step] at hs
    split_ifs at hs with hcounts
    obtain ⟨redis, hredis, rfl⟩ := Option.map_eq_some_iff.1 hs
    exact h.redisStep hcounts hredis
  | memory i =>
    have hready : s.redis.phase i = .ended none ∧ s.fallback i = none := by
      by_contra hnot
      simp only [RateDispatch.step, if_neg hnot] at hs
      cases hs
    exact h.memoryStep hready.1 hready.2 hs

/-! ## What is let pass -/

/-- The admissions of a client in the sixty seconds from `a` on. -/
def inMinute (call : ℕ → Call) (c : String) (a : ℚ) (log : List Admission) : List Admission :=
  log.filter fun x => clientOf call x.call = c ∧ a ≤ x.time ∧ x.time ≤ a + 60

theorem length_inMinute (memory : Option ℕ) (c : String) (a : ℚ) (log : List Admission) :
    ((inMinute call c a log).filter (·.memory = memory)).length =
      ((timesOf (clientOf call) memory c log).filter fun t => a ≤ t ∧ t ≤ a + 60).length := by
  rw [inMinute, timesOf, List.filter_filter, List.filter_map, List.length_map, List.filter_filter]
  congr 1
  apply List.filter_congr
  intro x _
  simp only [Function.comp_apply, Bool.decide_and]
  grind

theorem Remembers.interval {R : RateLimit} {client : ℕ → String} {p : ℕ} {offset : ℚ}
    {calls : List (String × ℚ)} (h : Remembers R client s p offset calls) (c : String) (a : ℚ) :
    ((timesOf client (some p) c s.admitted).filter fun t => a ≤ t ∧ t ≤ a + 60).length ≤
      R.requestsPerMinute.toNat := by
  have hspaced := Window.length_interval_le (sorted_admittedTimes (R := R) h.sorted c)
    (fun _ _ _ heq => admittedTimes_spaced h.sorted c heq) (a + offset)
  rw [← h.times c, List.filter_map, List.length_map] at hspaced
  refine le_of_eq_of_le (congrArg List.length (List.filter_congr fun t _ => ?_)) hspaced
  simp only [Function.comp_apply, decide_eq_decide]
  constructor
  · rintro ⟨hfrom, hto⟩
    exact ⟨by linarith, by linarith⟩
  · rintro ⟨hfrom, hto⟩
    exact ⟨by linarith, by linarith⟩

theorem length_by_memory {n : ℕ} {log : List Admission} (h : ∀ x ∈ log, ∀ p, x.memory = some p → p < n) :
    log.length = (log.filter (·.memory = none)).length +
      ∑ p ∈ Finset.range n, (log.filter (·.memory = some p)).length := by
  induction log with
  | nil => simp
  | cons x log ih =>
    have hrest := ih fun y hy => h y (List.mem_cons_of_mem x hy)
    have hsum : ∑ p ∈ Finset.range n, ((x :: log).filter (·.memory = some p)).length =
        (∑ p ∈ Finset.range n, if x.memory = some p then 1 else 0) +
          ∑ p ∈ Finset.range n, (log.filter (·.memory = some p)).length := by
      rw [← Finset.sum_add_distrib]
      refine Finset.sum_congr rfl fun p _ => ?_
      by_cases hp : x.memory = some p <;> simp [hp, add_comm]
    rw [hsum, List.length_cons, hrest]
    cases hx : x.memory with
    | none => simp [hx]; ring
    | some p =>
      have hp : p ∈ Finset.range n := Finset.mem_range.2 (h x List.mem_cons_self p hx)
      simp [hx, hp]
      ring

/-- The calls let pass are listed once each. Of one client there are, in any sixty seconds, at most
twice the limit by the counter in Redis and the limit by the memory of each process. -/
theorem admissions_bounded (hrun : Run (Fires (step limit keyPrefix clock call)) (.init now) tr s) :
    (s.admitted.map (·.call)).Nodup ∧
      (∀ i, i ∈ s.admitted.map (·.call) ↔
        limit.counts (call i).request ∧ s.verdict limit call i = some true) ∧
      ∀ n, (∀ i, (call i).process < n) → ∀ c a,
        ((inMinute call c a s.admitted).filter (·.memory = none)).length ≤
          2 * limit.requestsPerMinute.toNat ∧
        (∀ p, ((inMinute call c a s.admitted).filter (·.memory = some p)).length ≤
          limit.requestsPerMinute.toNat) ∧
        (inMinute call c a s.admitted).length ≤ (n + 2) * limit.requestsPerMinute.toNat := by
  have h : Inv limit keyPrefix clock call s := hrun.invariant (.init now) fun _ _ _ h hs => h.step hs
  refine ⟨h.once, fun i => ?_, fun n hn c a => ?_⟩
  · rw [h.listed]
    constructor
    · intro hpassed
      have hphase : s.redis.phase i ≠ .idle := by
        rcases hpassed with hredis | hfallback
        · rw [hredis]
          nofun
        · rw [h.fallen i (by rw [hfallback]; nofun)]
          nofun
      refine ⟨h.asked i hphase, ?_⟩
      rw [State.verdict, if_pos (h.asked i hphase)]
      rcases hpassed with hredis | hfallback
      · rw [hredis]
      · rw [h.fallen i (by rw [hfallback]; nofun)]
        exact hfallback
    · rintro ⟨hcounts, hverdict⟩
      rw [State.verdict, if_pos hcounts] at hverdict
      split at hverdict
      · obtain rfl := Option.some.inj hverdict
        exact .inl ‹_›
      · exact .inr hverdict
      · cases hverdict
  have hredis : ((inMinute call c a s.admitted).filter (·.memory = none)).length ≤
      2 * limit.requestsPerMinute.toNat := by
    obtain ⟨start, current, hcounted⟩ := h.redis c
    rw [length_inMinute]
    exact hcounted.holds.interval a
  have hmemory : ∀ p, ((inMinute call c a s.admitted).filter (·.memory = some p)).length ≤
      limit.requestsPerMinute.toNat := by
    intro p
    obtain ⟨calls, hcalls⟩ := h.memory p
    rw [length_inMinute]
    exact hcalls.interval c a
  refine ⟨hredis, hmemory, ?_⟩
  have hprocess : ∀ x ∈ inMinute call c a s.admitted, ∀ p, x.memory = some p → p < n := by
    intro x hx p hp
    rw [← h.process x (List.mem_of_mem_filter hx) p hp]
    exact hn x.call
  calc (inMinute call c a s.admitted).length
      = ((inMinute call c a s.admitted).filter (·.memory = none)).length +
          ∑ p ∈ Finset.range n, ((inMinute call c a s.admitted).filter (·.memory = some p)).length :=
        length_by_memory hprocess
    _ ≤ 2 * limit.requestsPerMinute.toNat + ∑ _ ∈ Finset.range n, limit.requestsPerMinute.toNat :=
        add_le_add hredis (Finset.sum_le_sum fun p _ => hmemory p)
    _ = (n + 2) * limit.requestsPerMinute.toNat := by
        rw [Finset.sum_const, Finset.card_range, smul_eq_mul]
        ring

def demoCall (_ : ℕ) : Call where
  request := { method := "GET", path := "/api/v1/accounts", client := some "10.0.0.1" }
  process := 0

/-- With a limit of one, a counter, the next counter and one lost connection let three requests
pass within a minute. -/
theorem admissions_bounded_reached : ∃ tr s,
    Run (Fires (step { requestsPerMinute := 1 } "reckonflow:" (fun _ => 0) demoCall)) (.init 0) tr s ∧
      (inMinute demoCall "10.0.0.1" 0 s.admitted).length = 3 ∧
      (inMinute demoCall "10.0.0.1" 0 s.admitted).length ≤ (1 + 2) * 1 := by
  have hdemo : (drive (step { requestsPerMinute := 1 } "reckonflow:" (fun _ => 0) demoCall) (.init 0)
      [.redis (.incr 0 .ok), .redis (.expire 0 .ok), .redis (.tick 60), .redis (.incr 1 .ok),
        .redis (.expire 1 .ok), .redis (.incr 2 .failed), .memory 2]).map
          (fun r => (inMinute demoCall "10.0.0.1" 0 r.2.admitted).length) = some 3 := by decide +kernel
  obtain ⟨⟨tr, s⟩, hdrive, hthree⟩ := Option.map_eq_some_iff.1 hdemo
  have hrun := run_of_drive hdrive
  exact ⟨tr, s, hrun, hthree, ((admissions_bounded hrun).2.2 1 (fun _ => Nat.zero_lt_one) "10.0.0.1" 0).2.2⟩

end ReckonFlow.RateDispatch
