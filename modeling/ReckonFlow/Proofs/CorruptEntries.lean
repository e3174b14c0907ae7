import ReckonFlow.Proofs.Idempotency

/-! Cleaning up an entry that cannot be replayed: `_handle_existing` deletes the key it read,
whatever the key holds by then. -/

namespace ReckonFlow

open Lts

variable {M : Middleware} {req : ℕ → Request} {s s' : State} {e : Event} {key : String}

/-- An answered step of a request: its `GET`, `DEL`, `SET` and handler. -/
def Event.Healthy : Event → Prop
  | .claim _ a | .delete _ a | .reclaim _ a | .store _ a => a = .ok
  | .read _ answered => answered = true
  | .pass _ | .finish _ _ | .raise _ => True
  | .expire _ => False

/-- A delete leaves what other requests wrote. -/
def SparesOthers (key : String) (s : State) : Event → Prop
  | .delete i _ => ∀ en, s.redis key = some en → ∀ j, en.writer = some j → j = i
  | _ => True

/-- A `SET NX` takes the key only while no request stands between its read and its delete. -/
def ClaimsAlone (key : String) (s : State) : Event → Prop
  | .claim _ _ | .reclaim _ _ => s.redis key = none → ∀ i second, s.phase i ≠ .deleting second
  | _ => True

/-- Nothing is claimed: the key holds what was there before, if anything. -/
structure Unclaimed (key : String) (s : State) : Prop where
  old : ∀ en, s.redis key = some en → en.writer = none
  inactive : ∀ i, ¬ (s.phase i).Active
  started : s.started = []

/-- Request `j` has the key: what it wrote is there, and no request is about to delete it. -/
structure ClaimedBy (key : String) (j : ℕ) (s : State) : Prop where
  entry : ∃ en, s.redis key = some en ∧ en.value.Written
  alone : ∀ i second, s.phase i ≠ .deleting second
  active : ∀ i, (s.phase i).Active → i = j
  started : s.started = [j]

/-! ## What the steps keep -/

theorem Unclaimed.move (h : Unclaimed key s) {i : ℕ} {p : Phase} (hp : ¬ p.Active) :
    Unclaimed key (s.setPhase i p) where
  old := h.old
  started := h.started
  inactive := by
    intro k
    by_cases hk : k = i
    · rw [hk, setPhase_self]
      exact hp
    · rw [setPhase_other p hk]
      exact h.inactive k

theorem Unclaimed.delete (h : Unclaimed key s) : Unclaimed key (s.put key none) where
  old := by
    intro en hen
    rw [put_self] at hen
    cases hen
  started := h.started
  inactive := h.inactive

/-- The claim of `i`, taken while no request is about to delete. -/
theorem Unclaimed.claim (h : Unclaimed key s) {i : ℕ} (hfree : ∀ k second, s.phase k ≠ .deleting second) :
    ClaimedBy key i ((s.put key (claimOf M (req i) i)).start i true) where
  entry := ⟨_, by rw [start_redis, put_self], .claim _⟩
  alone := by
    intro k second
    by_cases hk : k = i
    · rw [hk, start_self]
      intro hrun
      cases hrun
    · rw [start_other true hk]
      exact hfree k second
  active := by
    intro k hk
    by_contra hne
    rw [start_other true hne] at hk
    exact h.inactive k hk
  started := by
    rw [start_started, put_started, h.started, List.nil_append]

theorem ClaimedBy.move {j : ℕ} (h : ClaimedBy key j s) {i : ℕ} {p : Phase}
    (hp : ∀ second, p ≠ .deleting second) (ha : p.Active → i = j) : ClaimedBy key j (s.setPhase i p) where
  entry := h.entry
  started := h.started
  alone := by
    intro k second
    by_cases hk : k = i
    · rw [hk, setPhase_self]
      exact hp second
    · rw [setPhase_other p hk]
      exact h.alone k second
  active := by
    intro k hk
    by_cases hne : k = i
    · rw [hne, setPhase_self] at hk
      exact hne.trans (ha hk)
    · rw [setPhase_other p hne] at hk
      exact h.active k hk

theorem ClaimedBy.put {j : ℕ} (h : ClaimedBy key j s) {en : Entry} (hw : en.value.Written) :
    ClaimedBy key j (s.put key en) :=
  ⟨⟨en, put_self .., hw⟩, h.alone, h.active, h.started⟩

/-- What the middleware wrote is answered by a 409 or a replay, never deleted. -/
theorem afterRead_written {v : Stored} (hv : v.Written) (fp : String) (second : Bool) :
    ∃ o, afterRead second (handleExisting fp (some v)) = .ended o := by
  cases hv with
  | claim fp' =>
    rw [handleExisting_claim]
    exact ⟨_, rfl⟩
  | response c =>
    rw [handleExisting_stored]
    split_ifs
    · exact ⟨_, rfl⟩
    · exact ⟨_, rfl⟩

theorem not_active_afterRead (second : Bool) (x : Existing) : ¬ (afterRead second x).Active := by
  intro h
  cases x <;> cases second <;> exact h

theorem not_active_afterNone (second : Bool) : ¬ (afterNone second).Active := by
  intro h
  cases second <;> exact h

/-! ## One step -/

section

variable (hreq : ∀ i, keyOf M (req i) = some key)

include hreq

theorem Unclaimed.step (h : Unclaimed key s) (hok : e.Healthy) (halone : ClaimsAlone key s e)
    (hs : dispatchStep M req s e = some s') : Unclaimed key s' ∨ ∃ j, ClaimedBy key j s' := by
  have hc := dispatchStep_cases hs
  cases e with
  | pass i =>
    obtain ⟨-, hnone, -⟩ := hc
    rw [hreq i] at hnone
    cases hnone
  | claim i a =>
    obtain ⟨-, k, hk, hcase⟩ := hc
    obtain rfl : key = k := Option.some.inj ((hreq i).symm.trans hk)
    subst hok
    obtain ⟨-, hfree, rfl⟩ | ⟨-, -, rfl⟩ | ⟨ha, -, -⟩ | ⟨ha, -, -⟩ := hcase
    · exact .inr ⟨i, h.claim (halone hfree)⟩
    · exact .inl (h.move id)
    · cases ha
    · exact absurd rfl ha
  | read i answered =>
    obtain ⟨second, k, -, -, rfl⟩ := hc
    have hanswered : answered = true := hok
    rw [if_pos hanswered]
    exact .inl (h.move (not_active_afterRead second _))
  | delete i a =>
    obtain ⟨second, k, -, hk, rfl⟩ := hc
    obtain rfl : key = k := Option.some.inj ((hreq i).symm.trans hk)
    subst hok
    exact .inl (h.delete.move (not_active_afterNone second))
  | reclaim i a =>
    obtain ⟨-, k, hk, hcase⟩ := hc
    obtain rfl : key = k := Option.some.inj ((hreq i).symm.trans hk)
    subst hok
    obtain ⟨-, hfree, rfl⟩ | ⟨-, -, rfl⟩ | ⟨ha, -, -⟩ | ⟨ha, -, -⟩ := hcase
    · exact .inr ⟨i, h.claim (halone hfree)⟩
    · exact .inl (h.move id)
    · cases ha
    · exact absurd rfl ha
  | finish i r =>
    rcases hc with ⟨hp, -⟩ | ⟨hp, -⟩
    · exact absurd (hp ▸ trivial) (h.inactive i)
    · exact absurd (hp ▸ trivial) (h.inactive i)
  | raise i =>
    obtain ⟨⟨claimed, hp⟩, -⟩ := hc
    exact absurd (hp ▸ trivial) (h.inactive i)
  | store i a =>
    obtain ⟨c, k, hp, -, -⟩ := hc
    exact absurd (hp ▸ trivial) (h.inactive i)
  | expire k => cases hok

theorem ClaimedBy.step {j : ℕ} (h : ClaimedBy key j s) (hok : e.Healthy)
    (hs : dispatchStep M req s e = some s') : ClaimedBy key j s' := by
  have hc := dispatchStep_cases hs
  obtain ⟨en, hen, hwritten⟩ := h.entry
  have htaken : s.redis key ≠ none := by rw [hen]; exact Option.some_ne_none en
  cases e with
  | pass i =>
    obtain ⟨-, hnone, -⟩ := hc
    rw [hreq i] at hnone
    cases hnone
  | claim i a =>
    obtain ⟨-, k, hk, hcase⟩ := hc
    obtain rfl : key = k := Option.some.inj ((hreq i).symm.trans hk)
    subst hok
    obtain ⟨-, hfree, -⟩ | ⟨-, -, rfl⟩ | ⟨ha, -, -⟩ | ⟨ha, -, -⟩ := hcase
    · exact absurd hfree htaken
    · exact h.move (fun _ hd => by cases hd) False.elim
    · cases ha
    · exact absurd rfl ha
  | read i answered =>
    obtain ⟨second, k, -, hk, rfl⟩ := hc
    obtain rfl : key = k := Option.some.inj ((hreq i).symm.trans hk)
    obtain ⟨o, ho⟩ := afterRead_written hwritten (bodyFingerprint M (req i).body) second
    have hanswered : answered = true := hok
    rw [if_pos hanswered, hen, Option.map_some, ho]
    exact h.move (fun _ hd => by cases hd) False.elim
  | delete i a =>
    obtain ⟨second, k, hp, -, -⟩ := hc
    exact absurd hp (h.alone i second)
  | reclaim i a =>
    obtain ⟨-, k, hk, hcase⟩ := hc
    obtain rfl : key = k := Option.some.inj ((hreq i).symm.trans hk)
    subst hok
    obtain ⟨-, hfree, -⟩ | ⟨-, -, rfl⟩ | ⟨ha, -, -⟩ | ⟨ha, -, -⟩ := hcase
    · exact absurd hfree htaken
    · exact h.move (fun _ hd => by cases hd) False.elim
    · cases ha
    · exact absurd rfl ha
  | finish i r =>
    obtain ⟨hp, rfl⟩ | ⟨hp, rfl⟩ := hc
    · exact h.move (fun _ hd => by cases hd) fun _ => h.active i (hp ▸ trivial)
    · exact h.move (fun _ hd => by cases hd) False.elim
  | raise i =>
    obtain ⟨-, rfl⟩ := hc
    exact h.move (fun _ hd => by cases hd) False.elim
  | store i a =>
    obtain ⟨c, k, hp, hk, rfl⟩ := hc
    obtain rfl : key = k := Option.some.inj ((hreq i).symm.trans hk)
    subst hok
    exact (h.put (.response c)).move (fun _ hd => by cases hd) False.elim
  | expire k => cases hok

end

/-- A delete that is taken finds nothing claimed. -/
theorem spares_of (hI : Unclaimed key s ∨ ∃ j, ClaimedBy key j s)
    (hs : dispatchStep M req s e = some s') : SparesOthers key s e := by
  cases e with
  | delete i a =>
    intro en hen j hj
    rcases hI with h | ⟨k, h⟩
    · rw [h.old en hen] at hj
      cases hj
    · obtain ⟨second, _, hp, -, -⟩ := dispatchStep_cases hs
      exact absurd hp (h.alone i second)
  | _ => trivial

/-- A claim taken while a request stands before its delete can be removed by its next step. -/
theorem claim_exposed {i j : ℕ} {second : Bool} (hij : i ≠ j) (hreq : ∀ i, keyOf M (req i) = some key)
    (hp : s.phase i = .deleting second) :
    ∃ s', dispatchStep M req ((s.put key (claimOf M (req j) j)).start j true) (.delete i .ok) = some s' ∧
      ¬ SparesOthers key ((s.put key (claimOf M (req j) j)).start j true) (.delete i .ok) ∧
      s'.redis key = none := by
  have hphase : ((s.put key (claimOf M (req j) j)).start j true).phase i = .deleting second := by
    rw [start_other true hij]
    exact hp
  refine ⟨(((s.put key (claimOf M (req j) j)).start j true).put key none).setPhase i
    (afterNone second), ?_, ?_, ?_⟩
  · simp only [dispatchStep, hphase, hreq i]
    rfl
  · intro hspares
    exact hij (hspares (claimOf M (req j) j) (by rw [start_redis, put_self]) j rfl).symm
  · rw [setPhase_redis, put_self]

/-- With Redis healthy, requests of one key on a key that holds anything written before them: in
every run in which no `SET NX` takes the key while a request stands between its read and its
delete, no delete removes what another request wrote, and the handler is started at most once. -/
theorem cleanup_safe {redis : String → Option Entry} {tr : List (State × Event)}
    (hreq : ∀ i, keyOf M (req i) = some key) (hold : ∀ en, redis key = some en → en.writer = none)
    (hrun : Run (Fires (dispatchStep M req)) (State.init redis) tr s)
    (hhealthy : ∀ p ∈ tr, p.2.Healthy) (halone : ∀ p ∈ tr, ClaimsAlone key p.1 p.2) :
    (∀ p ∈ tr, SparesOthers key p.1 p.2) ∧ Always (fun s => s.started.length ≤ 1) tr s := by
  have hinit : Unclaimed key (State.init redis) := ⟨hold, fun _ h => h, rfl⟩
  have hkeep : ∀ s e s', (Unclaimed key s ∨ ∃ j, ClaimedBy key j s) →
      (e.Healthy ∧ ClaimsAlone key s e) → Fires (dispatchStep M req) s e s' →
        Unclaimed key s' ∨ ∃ j, ClaimedBy key j s' := by
    rintro s e s' (h | ⟨j, h⟩) hok hs
    · exact h.step hreq hok.1 hok.2 hs
    · exact .inr ⟨j, h.step hreq hok.1 hs⟩
  have hall := hrun.always_of (.inl hinit) hkeep fun p hp => ⟨hhealthy p hp, halone p hp⟩
  constructor
  · rintro ⟨s₁, e⟩ hp
    obtain ⟨tr₁, tr₂, rfl⟩ := List.append_of_mem hp
    obtain ⟨s', -, hs, -⟩ := hrun.split
    exact spares_of (hall.1 _ hp) hs
  · refine hall.imp fun s hI => ?_
    rcases hI with h | ⟨j, h⟩
    · rw [h.started]
      exact Nat.zero_le 1
    · rw [h.started]
      exact le_rfl

/-- A key that holds text which is not JSON. -/
def demoCorrupt (key : String) : Option Entry := if key = demoKey then some ⟨.malformed, none⟩ else none

/-- One request cleans up, claims and runs; another one is told to wait. -/
theorem cleanup_safe_two : ∃ tr s,
    drive (dispatchStep demo fun _ => demoRequest []) (State.init demoCorrupt)
      [.claim 0 .ok, .read 0 true, .delete 0 .ok, .reclaim 0 .ok, .claim 1 .ok, .read 1 true,
        .finish 0 created, .store 0 .ok] = some (tr, s) ∧
      s.started = [0] ∧ Always (fun s => s.started.length ≤ 1) tr s := by
  obtain ⟨⟨tr, s⟩, h⟩ : ∃ p, drive (dispatchStep demo fun _ => demoRequest []) (State.init demoCorrupt)
      [.claim 0 .ok, .read 0 true, .delete 0 .ok, .reclaim 0 .ok, .claim 1 .ok, .read 1 true,
        .finish 0 created, .store 0 .ok] = some p := ⟨_, rfl⟩
  have hold : ∀ en, demoCorrupt demoKey = some en → en.writer = none := by
    intro en hen
    obtain rfl := Option.some.inj hen
    rfl
  have hhealthy : ∀ p ∈ tr, p.2.Healthy := by
    intro p hp
    have := drive_mem h p hp
    simp only [List.mem_cons, List.not_mem_nil, or_false] at this
    rcases this with h | h | h | h | h | h | h | h <;> rw [h] <;> trivial
  refine ⟨tr, s, h, ?_, (cleanup_safe (fun _ => rfl) hold (run_of_drive h) hhealthy ?_).2⟩
  · obtain ⟨-, rfl⟩ := Prod.mk.inj (Option.some.inj h)
    rfl
  · obtain ⟨rfl, -⟩ := Prod.mk.inj (Option.some.inj h)
    intro p hp
    simp only [List.mem_cons, List.not_mem_nil, or_false] at hp
    rcases hp with rfl | rfl | rfl | rfl | rfl | rfl | rfl | rfl
    · exact fun hfree => absurd hfree (Option.some_ne_none _)
    · trivial
    · trivial
    · -- the claim of the first request, after its own delete
      intro _ i second
      by_cases hi : i = 0
      · subst hi
        intro hd
        cases hd
      · simp [State.setPhase, State.put, State.init, hi]
    · exact fun hfree => absurd hfree (Option.some_ne_none _)
    · trivial
    · trivial
    · trivial

/-- Two requests read the corrupt entry before either deletes it: the second delete removes the
claim of the first, and the handler is started twice. -/
theorem cleanup_fails : ¬ ∀ (M : Middleware) (req : ℕ → Request) (key : String)
    (redis : String → Option Entry) (tr : List (State × Event)) (s : State),
    (∀ i, keyOf M (req i) = some key) → redis key = some ⟨.malformed, none⟩ →
      Run (Fires (dispatchStep M req)) (State.init redis) tr s → (∀ p ∈ tr, p.2.Healthy) →
        (∀ p ∈ tr, SparesOthers key p.1 p.2) ∧ s.started.length ≤ 1 := by
  intro hall
  obtain ⟨⟨tr, s⟩, h⟩ : ∃ p, drive (dispatchStep demo fun _ => demoRequest []) (State.init demoCorrupt)
      [.claim 0 .ok, .claim 1 .ok, .read 0 true, .read 1 true, .delete 0 .ok, .reclaim 0 .ok,
        .delete 1 .ok, .reclaim 1 .ok] = some p := ⟨_, rfl⟩
  have hhealthy : ∀ p ∈ tr, p.2.Healthy := by
    intro p hp
    have := drive_mem h p hp
    simp only [List.mem_cons, List.not_mem_nil, or_false] at this
    rcases this with h | h | h | h | h | h | h | h <;> rw [h] <;> trivial
  have hone := (hall demo _ demoKey demoCorrupt tr s (fun _ => rfl) rfl (run_of_drive h) hhealthy).2
  obtain ⟨-, rfl⟩ := Prod.mk.inj (Option.some.inj h)
  exact absurd hone (by decide)

end ReckonFlow
