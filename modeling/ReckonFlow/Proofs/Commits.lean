import ReckonFlow.Proofs.Idempotency
import ReckonFlow.Spec.Commits

/-! Announcing before committing: a success is announced for committed work only, replays
included, exactly as long as no response is stored or sent before its commit. -/

namespace ReckonFlow.Commits

open Lts

variable {M : Middleware} {req : ℕ → Request} {s s' : State} {e : Event} {i j : ℕ}

/-- Every success that Redis can replay, and every one a client has got, was committed. -/
structure Announced (req : ℕ → Request) (s : State) : Prop where
  stored : ∀ key en (c : CapturedResponse) i, s.middleware.redis key = some en →
    en.value = .json (.obj c.fields) → en.writer = some i → Success c.statusCode →
      s.session i = .committed
  delivered : ∀ p ∈ s.delivered, (req p.1).method ∈ mutatingMethods → Success p.2.status →
    s.session p.1 = .committed

/-- The final `SET` of a success takes effect, and a success is handed over fresh from the
application, only after the commit. -/
def CommitFirst (req : ℕ → Request) (s : State) : Event → Prop
  | .dispatch (.store i a) => a ≠ .failed → ∀ c, s.middleware.phase i = .storing c →
      Success c.statusCode → s.session i = .committed
  | .deliver i => ∀ r, s.middleware.phase i = .ended (.answered r) ∨
      s.middleware.phase i = .ended (.passed r) → (req i).method ∈ mutatingMethods →
        Success r.status → s.session i = .committed
  | _ => True

/-! ## The middleware -/

theorem afterNone_ne_replay (second : Bool) (r : Response) : afterNone second ≠ .ended (.replay r) := by
  cases second <;> simp [afterNone]

/-- Of all verdicts only a replay ends in one. -/
theorem replay_of_afterRead {second : Bool} {v : Existing} {r : Response}
    (h : afterRead second v = .ended (.replay r)) : v = .replay r := by
  cases v with
  | replay r' => exact congrArg Existing.replay (Outcome.replay.inj (Phase.ended.inj h))
  | reclaim => exact absurd h (afterNone_ne_replay second r)
  | discard => simp [afterRead] at h
  | conflict d => simp [afterRead] at h
  | crash => simp [afterRead] at h

/-- Where a replay comes from. -/
theorem replay_of_dispatch {m m' : ReckonFlow.State} {e : ReckonFlow.Event}
    (h : dispatchStep M req m e = some m') {r : Response} (hr : m'.phase j = .ended (.replay r)) :
    m.phase j = .ended (.replay r) ∨ e = .read j true ∧ ∃ key, keyOf M (req j) = some key ∧
      handleExisting (bodyFingerprint M (req j).body) ((m.redis key).map (·.value)) = .replay r := by
  have hc := dispatchStep_cases h
  have hset : ∀ (m₁ : ReckonFlow.State) i p, m₁.phase = m.phase → p ≠ .ended (.replay r) →
      (m₁.setPhase i p).phase j = .ended (.replay r) → m.phase j = .ended (.replay r) := by
    intro m₁ i p hm hp hj
    by_cases hji : j = i
    · subst hji
      rw [ReckonFlow.setPhase_self] at hj
      exact absurd hj hp
    · rw [setPhase_other _ hji, hm] at hj
      exact hj
  cases e with
  | pass i =>
    obtain ⟨-, -, rfl⟩ := hc
    exact .inl (hset m i (.running false) rfl (by simp) hr)
  | claim i a =>
    obtain ⟨-, k, -, ⟨-, -, rfl⟩ | ⟨-, -, rfl⟩ | ⟨-, -, rfl⟩ | ⟨-, -, rfl⟩⟩ := hc
    · exact .inl (hset (m.put k _) i (.running true) rfl (by simp) hr)
    · exact .inl (hset m i _ rfl (by simp) hr)
    · exact .inl (hset (m.put k _) i (.running false) rfl (by simp) hr)
    · exact .inl (hset m i (.running false) rfl (by simp) hr)
  | read i answered =>
    obtain ⟨second, k, -, hk, rfl⟩ := hc
    by_cases hji : j = i
    · subst hji
      rw [ReckonFlow.setPhase_self] at hr
      cases answered with
      | false => exact absurd hr (afterNone_ne_replay second r)
      | true => exact .inr ⟨rfl, k, hk, replay_of_afterRead hr⟩
    · rw [setPhase_other _ hji] at hr
      exact .inl hr
  | delete i a =>
    obtain ⟨second, k, -, -, rfl⟩ := hc
    refine .inl (hset _ i (afterNone second) ?_ (afterNone_ne_replay second r) hr)
    split_ifs <;> rfl
  | reclaim i a =>
    obtain ⟨-, k, -, ⟨-, -, rfl⟩ | ⟨-, -, rfl⟩ | ⟨-, -, rfl⟩ | ⟨-, -, rfl⟩⟩ := hc
    · exact .inl (hset (m.put k _) i (.running true) rfl (by simp) hr)
    · exact .inl (hset m i _ rfl (by simp) hr)
    · exact .inl (hset (m.put k _) i _ rfl (by simp) hr)
    · exact .inl (hset m i _ rfl (by simp) hr)
  | finish i r' =>
    obtain ⟨-, rfl⟩ | ⟨-, rfl⟩ := hc
    · exact .inl (hset m i _ rfl (by simp) hr)
    · exact .inl (hset m i _ rfl (by simp) hr)
  | raise i =>
    obtain ⟨-, rfl⟩ := hc
    exact .inl (hset m i _ rfl (by simp) hr)
  | store i a =>
    obtain ⟨c, k, -, -, rfl⟩ := hc
    refine .inl (hset _ i (.ended (.answered c.response)) ?_ (by simp) hr)
    split_ifs <;> rfl
  | expire k =>
    rw [show m' = m.put k none from hc] at hr
    exact .inl hr

/-- A replay is of a captured response. -/
theorem captured_of_replay {fp : String} {v : Stored} {r : Response} (hv : v.Written)
    (h : handleExisting fp (some v) = .replay r) :
    ∃ c : CapturedResponse, v = .json (.obj c.fields) ∧ r.status = c.statusCode := by
  cases hv with
  | claim fp' =>
    rw [handleExisting_claim] at h
    cases h
  | response c =>
    rw [handleExisting_stored] at h
    split_ifs at h
    obtain rfl := Existing.replay.inj h
    exact ⟨c, rfl, rfl⟩

theorem fields_status {c c' : CapturedResponse} (h : c.fields = c'.fields) :
    c.statusCode = c'.statusCode := by
  simp only [CapturedResponse.fields, List.cons.injEq, Prod.mk.injEq, Json.int.injEq] at h
  exact h.2.1.2

/-! ## Steps -/

/-- What a step can do. -/
theorem step_cases (h : step M req s e = some s') :
    match e with
    | .dispatch e => ∃ m, dispatchStep M req s.middleware e = some m ∧
        s' = ⟨m, sessionAfter s.session e, sourceAfter M req s e, s.delivered⟩
    | .commit i effective => s.session i = .opened ∧
        s' = { s with
          session := Function.update s.session i (if effective then .committed else .rolledBack) }
    | .deliver i => s' = { s with delivered := s.delivered ++ (announcement s i).toList } := by
  cases e with
  | dispatch e =>
    obtain ⟨m, hm, rfl⟩ := Option.map_eq_some_iff.1 h
    exact ⟨m, hm, rfl⟩
  | commit i effective =>
    obtain ⟨hguard, he⟩ := Option.ite_none_right_eq_some.1 h
    exact ⟨hguard.2, (Option.some.inj he).symm⟩
  | deliver i =>
    simp only [step] at h
    split at h
    · exact (Option.some.inj h).symm
    · cases h

theorem Session.rollback_committed : Session.rollback .committed = .committed := rfl

theorem committed_rollback {session : ℕ → Session} (h : session j = .committed) :
    Function.update session i (session i).rollback j = .committed := by
  by_cases hji : j = i
  · subst hji
    rw [Function.update_self, h, Session.rollback_committed]
  · rw [Function.update_of_ne hji, h]

/-- What is committed stays committed. -/
theorem committed_dispatch {session : ℕ → Session} (e : ReckonFlow.Event)
    (h : session j = .committed) : sessionAfter session e j = .committed := by
  unfold sessionAfter
  split
  · exact committed_rollback h
  · split_ifs
    · exact h
    · exact committed_rollback h
  · exact h

theorem committed_step (h : step M req s e = some s') (hj : s.session j = .committed) :
    s'.session j = .committed := by
  have hc := step_cases h
  cases e with
  | dispatch e =>
    obtain ⟨m, -, rfl⟩ := hc
    exact committed_dispatch e hj
  | commit i effective =>
    obtain ⟨hopened, rfl⟩ := hc
    have hne : j ≠ i := by
      intro he
      rw [he, hopened] at hj
      cases hj
    exact (Function.update_of_ne hne ..).trans hj
  | deliver i =>
    have he : s' = { s with delivered := s.delivered ++ (announcement s i).toList } := hc
    rw [he]
    exact hj

structure Inv (req : ℕ → Request) (s : State) : Prop where
  announced : Announced req s
  written : ∀ key en i, s.middleware.redis key = some en → en.writer = some i → en.value.Written
  /-- what is about to be replayed -/
  replays : ∀ j r i, s.middleware.phase j = .ended (.replay r) → s.source j = some i →
    Success r.status → s.session i = .committed

theorem Inv.init (redis : String → Option Stored) : Inv req (State.init redis) := by
  have hwriter : ∀ key en i, (State.init redis).middleware.redis key = some en →
      en.writer ≠ some i := by
    intro key en i hen
    obtain ⟨value, -, rfl⟩ := Option.map_eq_some_iff.1 hen
    simp
  refine ⟨⟨fun key en c i hen _ hw => absurd hw (hwriter key en i hen), fun p hp => ?_⟩,
    fun key en i hen hw => absurd hw (hwriter key en i hen), fun j r i hj => ?_⟩
  · cases hp
  · cases hj

theorem claimOf_not_captured (r : Request) (c : CapturedResponse) :
    (claimOf M r i).value ≠ .json (.obj c.fields) := by
  simp [claimOf, claimPayload, CapturedResponse.fields]

theorem Inv.dispatch {e : ReckonFlow.Event} (h : Inv req s)
    (hok : CommitFirst req s (.dispatch e))
    (hs : ReckonFlow.Commits.step M req s (.dispatch e) = some s') : Inv req s' := by
  have hstays : ∀ i, s.session i = .committed → s'.session i = .committed :=
    fun i hi => committed_step hs hi
  obtain ⟨m, hm, rfl⟩ := step_cases hs
  refine ⟨⟨fun key en c i hen hv hw hc => ?_, fun p hp hmut hc => ?_⟩, fun key en i hen hw => ?_,
    fun j r i hj hsource hc => ?_⟩
  · rcases entry_of_dispatch hm hen with hold | ⟨i', -, rfl | ⟨a, c', rfl, ha, hp, rfl⟩⟩
    · exact hstays i (h.announced.stored key en c i hold hv hw hc)
    · exact absurd hv (claimOf_not_captured _ c)
    · obtain rfl := Option.some.inj hw
      have hstatus : c'.statusCode = c.statusCode := fields_status (Json.obj.inj (Stored.json.inj hv))
      exact hstays _ (hok ha c' hp (hstatus ▸ hc))
  · exact hstays _ (h.announced.delivered p hp hmut hc)
  · rcases entry_of_dispatch hm hen with hold | ⟨i', -, rfl | ⟨a, c', -, -, -, rfl⟩⟩
    · exact h.written key en i hold hw
    · exact .claim _
    · exact .response c'
  · rcases replay_of_dispatch hm hj with hold | ⟨rfl, key, hkey, hreplay⟩
    · -- a request that has ended reads no more
      have hsame : sourceAfter M req s e j = s.source j := by
        unfold sourceAfter
        split
        · rename_i i'
          refine Function.update_of_ne ?_ ..
          rintro rfl
          obtain ⟨_, _, hreading, -⟩ := dispatchStep_cases hm
          rw [hold] at hreading
          cases hreading
        · rfl
      exact hstays i (h.replays j r i hold (hsame.symm.trans hsource) hc)
    · have hread : sourceAfter M req s (.read j true) j = (keyOf M (req j)).bind fun key =>
        (s.middleware.redis key).bind (·.writer) := Function.update_self ..
      rw [hkey, Option.bind_some] at hread
      replace hsource := hread.symm.trans hsource
      obtain ⟨en, hen, hw⟩ := Option.bind_eq_some_iff.1 hsource
      rw [hen, Option.map_some] at hreplay
      obtain ⟨c, hv, hstatus⟩ := captured_of_replay (h.written key en i hen hw) hreplay
      exact hstays i (h.announced.stored key en c i hen hv hw (hstatus ▸ hc))

theorem Inv.commit {effective : Bool} (h : Inv req s)
    (hs : ReckonFlow.Commits.step M req s (.commit i effective) = some s') : Inv req s' := by
  have hstays : ∀ i, s.session i = .committed → s'.session i = .committed :=
    fun i hi => committed_step hs hi
  obtain ⟨-, rfl⟩ := step_cases hs
  exact ⟨⟨fun key en c i hen hv hw hc => hstays i (h.announced.stored key en c i hen hv hw hc),
    fun p hp hmut hc => hstays _ (h.announced.delivered p hp hmut hc)⟩, h.written,
    fun j r i hj hsource hc => hstays i (h.replays j r i hj hsource hc)⟩

theorem Inv.deliver (h : Inv req s) (hok : CommitFirst req s (.deliver i))
    (hs : ReckonFlow.Commits.step M req s (.deliver i) = some s') : Inv req s' := by
  have he : s' = { s with delivered := s.delivered ++ (announcement s i).toList } := step_cases hs
  subst he
  refine ⟨⟨h.announced.stored, fun p hp hmut hc => ?_⟩, h.written, h.replays⟩
  rcases List.mem_append.1 hp with hp | hp
  · exact h.announced.delivered p hp hmut hc
  · have hann : announcement s i = some p := Option.mem_toList.1 hp
    unfold announcement at hann
    split at hann
    · obtain rfl := Option.some.inj hann
      exact hok _ (.inl ‹_›) hmut hc
    · obtain rfl := Option.some.inj hann
      exact hok _ (.inr ‹_›) hmut hc
    · obtain ⟨j, hsource, rfl⟩ := Option.map_eq_some_iff.1 hann
      exact h.replays i _ j ‹_› hsource hc
    · cases hann

theorem Inv.step (h : Inv req s) (hok : CommitFirst req s e)
    (hs : ReckonFlow.Commits.step M req s e = some s') : Inv req s' := by
  cases e with
  | dispatch e => exact h.dispatch hok hs
  | commit i effective => exact h.commit hs
  | deliver i => exact h.deliver hok hs

theorem announcement_own {r : Response} (h : s.middleware.phase i = .ended (.answered r) ∨
    s.middleware.phase i = .ended (.passed r)) : announcement s i = some (i, r) := by
  unfold announcement
  rcases h with h | h
  · rw [h]
  · rw [h]

/-- A success stored or handed over before its commit is announced too early. -/
theorem not_announced_step (hbad : ¬ CommitFirst req s e) (hs : step M req s e = some s') :
    ¬ Announced req s' := by
  intro hann
  have hc := step_cases hs
  cases e with
  | dispatch e =>
    obtain ⟨m, hm, rfl⟩ := hc
    cases e with
    | store i a =>
      simp only [CommitFirst, Classical.not_imp, not_forall] at hbad
      obtain ⟨ha, c, hp, hsuccess, hopen⟩ := hbad
      obtain ⟨c', key, hp', hkey, rfl⟩ := dispatchStep_cases hm
      obtain rfl := Phase.storing.inj (hp.symm.trans hp')
      rw [if_neg ha] at hann
      exact hopen (hann.stored key _ c i (put_self ..) rfl rfl hsuccess)
    | _ => exact hbad trivial
  | commit i effective => exact hbad trivial
  | deliver i =>
    simp only [CommitFirst, Classical.not_imp, not_forall] at hbad
    obtain ⟨r, hp, hmut, hsuccess, hopen⟩ := hbad
    have he : s' = { s with delivered := s.delivered ++ (announcement s i).toList } := hc
    rw [he] at hann
    refine hopen (hann.delivered (i, r) ?_ hmut hsuccess)
    rw [announcement_own hp]
    exact List.mem_append_right _ (List.mem_singleton_self _)

/-- In every state of a run each success that is stored or was delivered has been committed,
iff the run stores no success and hands none over before its commit. -/
theorem announced_after_commit_iff {redis : String → Option Stored} {tr : List (State × Event)}
    (hrun : Run (Fires (step M req)) (State.init redis) tr s) :
    Always (Announced req) tr s ↔ ∀ p ∈ tr, CommitFirst req p.1 p.2 :=
  hrun.always_iff (I := Inv req) (.init redis) (fun _ h => h.announced)
    (fun _ _ _ h hok hs => h.step hok hs) fun _ _ _ _ hbad hs => not_announced_step hbad hs

/-- Every request carries the same key and an empty body. -/
def demoRun (events : List Event) : Option (List (State × Event) × State) :=
  drive (step demo fun _ => demoRequest []) (State.init fun _ => none) events

/-- The commit comes first, and the retry gets the stored response. -/
def demoCommitted : List Event :=
  [.dispatch (.claim 0 .ok), .dispatch (.finish 0 created), .commit 0 true, .dispatch (.store 0 .ok),
    .deliver 0, .dispatch (.claim 1 .ok), .dispatch (.read 1 true), .deliver 1]

/-- The commit fails after the response has been stored. -/
def demoRolledBack : List Event :=
  [.dispatch (.claim 0 .ok), .dispatch (.finish 0 created), .dispatch (.store 0 .ok), .commit 0 false,
    .dispatch (.claim 1 .ok), .dispatch (.read 1 true), .deliver 1]

/-- `CommitFirst`, computed. -/
def demoFirst (p : State × Event) : Bool :=
  match p.2 with
  | .dispatch (.store i _) => p.1.session i = .committed
  | .deliver i => p.1.session i = .committed ∨ (announcement p.1 i).map (·.1) ≠ some i
  | _ => true

theorem commitFirst_of_demoFirst {p : State × Event} (h : demoFirst p = true) :
    CommitFirst req p.1 p.2 := by
  obtain ⟨s, e⟩ := p
  cases e with
  | dispatch e =>
    cases e with
    | store i a => exact fun _ _ _ _ => of_decide_eq_true h
    | _ => trivial
  | commit i effective => trivial
  | deliver i =>
    intro r hp _ _
    refine (of_decide_eq_true h).resolve_right fun hne => hne ?_
    rw [announcement_own hp]
    rfl

theorem announced_after_commit_iff_retry : ∃ tr s,
    Run (Fires (step demo fun _ => demoRequest [])) (State.init fun _ => none) tr s ∧
      s.delivered.map (fun p => (p.1, p.2.status)) = [(0, 201), (0, 201)] ∧
      Always (Announced fun _ => demoRequest []) tr s := by
  have hdemo : (demoRun demoCommitted).map (fun r =>
      (r.2.delivered.map fun p => (p.1, p.2.status), r.1.all demoFirst)) =
        some ([(0, 201), (0, 201)], true) := by decide +kernel
  obtain ⟨⟨tr, s⟩, hdrive, heq⟩ := Option.map_eq_some_iff.1 hdemo
  obtain ⟨hdelivered, hfirst⟩ := Prod.mk.inj heq
  refine ⟨tr, s, run_of_drive hdrive, hdelivered,
    (announced_after_commit_iff (run_of_drive hdrive)).2 fun p hp => ?_⟩
  exact commitFirst_of_demoFirst (List.all_eq_true.1 hfirst p hp)

theorem announced_after_commit_fails : ¬ ∀ (M : Middleware) (req : ℕ → Request)
    (redis : String → Option Stored) (tr : List (State × Event)) (s : State),
    Run (Fires (step M req)) (State.init redis) tr s → Announced req s := by
  intro hall
  have hdemo : (demoRun demoRolledBack).map (fun r =>
      (r.2.session 0, r.2.delivered.map fun p => (p.1, p.2.status))) =
        some (.rolledBack, [(0, 201)]) := by decide +kernel
  obtain ⟨⟨tr, s⟩, hdrive, heq⟩ := Option.map_eq_some_iff.1 hdemo
  obtain ⟨hsession, hdelivered⟩ := Prod.mk.inj heq
  have hannounced := hall _ _ _ tr s (run_of_drive hdrive)
  have hmem : ((0, 201) : ℕ × ℤ) ∈ s.delivered.map fun p => (p.1, p.2.status) := by
    rw [show s.delivered.map (fun p => (p.1, p.2.status)) = [(0, 201)] from hdelivered]
    exact List.mem_singleton_self _
  obtain ⟨p, hp, hpair⟩ := List.mem_map.1 hmem
  obtain ⟨hi, hstatus⟩ := Prod.mk.inj hpair
  have hcommitted := hannounced.delivered p hp (by decide) (by rw [hstatus]; decide)
  rw [hi, show s.session 0 = .rolledBack from hsession] at hcommitted
  cases hcommitted

end ReckonFlow.Commits
