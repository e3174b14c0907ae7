import ReckonFlow.Lib.Lts
import ReckonFlow.Spec.Idempotency

/-! Runs of the idempotency middleware: a key whose first `SET NX` calls are
answered runs the application at most once, and an in-progress entry stands for
a running request exactly as long as no step loses its release. -/

namespace ReckonFlow

open Lts Text

variable {M : Middleware} {req : ℕ → Request} {s s' : State} {e : Event} {key : String}

theorem fingerprint_ne_empty (body : List UInt8) : bodyFingerprint M body ≠ "" := by
  intro h
  have hlen := (M.sha256 body).length_eq
  rw [show (M.sha256 body).text = "" from h] at hlen
  exact absurd hlen (by decide)

/-- What `_rebuild` makes of a captured response. -/
def CapturedResponse.response (c : CapturedResponse) : Response :=
  ReckonFlow.response c.statusCode c.headers (encodeUtf8 c.body) false c.latin1

/-- All the middleware ever stores: a claim, or a captured response. -/
inductive Stored.Written : Stored → Prop
  | claim (fp : String) : Written (claimPayload fp)
  | response (c : CapturedResponse) : Written (.json (.obj c.fields))

theorem mapM_headerOf (hs : List (String × String)) :
    (hs.map fun h => (h.1, Json.str h.2)).mapM headerOf = some hs := by
  induction hs with
  | nil => rfl
  | cons h hs ih => simp [headerOf, ih]

@[simp] theorem rebuild_fields (c : CapturedResponse) : rebuild c.fields = some c.response := by
  have hd : Dict.get c.fields "body" = some (.str c.body) ∧
      Dict.get c.fields "status_code" = some (.int c.statusCode) ∧
      Dict.get c.fields "headers" = some (.obj (c.headers.map fun h => (h.1, .str h.2))) :=
    ⟨rfl, rfl, rfl⟩
  simp only [rebuild, hd, Json.toDict, Option.bind_some, mapM_headerOf]
  exact dif_pos c.latin1

/-- A claim is answered by a 409, whatever the body. -/
theorem handleExisting_claim (fp fp' : String) :
    handleExisting fp (some (claimPayload fp')) =
      .conflict (if fp' ≠ "" ∧ fp' ≠ fp then differentBody else stillProcessing) := by
  have hs : inProgress [("state", .str stateInProgress), ("fingerprint", .str fp')] = true := rfl
  have hf : ((Dict.get [("state", Json.str stateInProgress), ("fingerprint", .str fp')]
      "fingerprint").getD (.str "")).toStr = fp' := rfl
  simp only [handleExisting, claimPayload, hs, hf]
  split_ifs <;> rfl

/-- A stored response is replayed to the same body only. -/
theorem handleExisting_stored (fp : String) (c : CapturedResponse) :
    handleExisting fp (some (.json (.obj c.fields))) =
      if c.fingerprint ≠ "" ∧ c.fingerprint ≠ fp then .conflict differentBody
      else .replay (replayed c.response) := by
  have hs : inProgress c.fields = false := rfl
  have hf : ((Dict.get c.fields "fingerprint").getD (.str "")).toStr = c.fingerprint := rfl
  have hc : (Dict.get c.fields "status_code").isNone = false := rfl
  simp only [handleExisting, hs, hf, hc, rebuild_fields, Bool.false_eq_true, if_false]

/-! Each request moves only itself, its own key and the log of starts. -/

@[simp] theorem setPhase_redis (i : ℕ) (p : Phase) : (s.setPhase i p).redis = s.redis := rfl
@[simp] theorem setPhase_started (i : ℕ) (p : Phase) : (s.setPhase i p).started = s.started := rfl
@[simp] theorem setPhase_self (i : ℕ) (p : Phase) : (s.setPhase i p).phase i = p := by
  simp [State.setPhase]
theorem setPhase_other {i j : ℕ} (p : Phase) (h : j ≠ i) : (s.setPhase i p).phase j = s.phase j := by
  simp [State.setPhase, h]
@[simp] theorem put_phase (k : String) (en : Option Entry) : (s.put k en).phase = s.phase := rfl
@[simp] theorem put_started (k : String) (en : Option Entry) : (s.put k en).started = s.started := rfl
@[simp] theorem put_self (k : String) (en : Option Entry) : (s.put k en).redis k = en := by
  simp [State.put]
theorem put_other {k k' : String} (en : Option Entry) (h : k' ≠ k) :
    (s.put k en).redis k' = s.redis k' := by
  simp [State.put, h]
theorem of_put {k key : String} {o : Option Entry} {en : Entry} (h : (s.put k o).redis key = some en) :
    (key = k ∧ o = some en) ∨ (key ≠ k ∧ s.redis key = some en) := by
  by_cases hk : key = k
  · subst hk
    exact .inl ⟨rfl, (put_self ..).symm.trans h⟩
  · exact .inr ⟨hk, (put_other o hk).symm.trans h⟩
@[simp] theorem start_redis (i : ℕ) (b : Bool) : (s.start i b).redis = s.redis := rfl
@[simp] theorem start_started (i : ℕ) (b : Bool) : (s.start i b).started = s.started ++ [i] := rfl
@[simp] theorem start_self (i : ℕ) (b : Bool) : (s.start i b).phase i = .running b := by
  simp [State.start]
theorem start_other {i j : ℕ} (b : Bool) (h : j ≠ i) : (s.start i b).phase j = s.phase j := by
  simp [State.start, State.setPhase, h]

/-- What a step can do, event by event. -/
theorem dispatchStep_cases (h : dispatchStep M req s e = some s') :
    match e with
    | .pass i => s.phase i = .idle ∧ keyOf M (req i) = none ∧ s' = s.start i false
    | .claim i a => s.phase i = .idle ∧ ∃ key, keyOf M (req i) = some key ∧
        ((a = .ok ∧ s.redis key = none ∧ s' = (s.put key (claimOf M (req i) i)).start i true) ∨
          (a = .ok ∧ s.redis key ≠ none ∧ s' = s.setPhase i (.reading false)) ∨
          (a = .lost ∧ s.redis key = none ∧ s' = (s.put key (claimOf M (req i) i)).start i false) ∨
          (a ≠ .ok ∧ (a = .lost → s.redis key ≠ none) ∧ s' = s.start i false))
    | .read i answered => ∃ second key, s.phase i = .reading second ∧ keyOf M (req i) = some key ∧
        s' = s.setPhase i (if answered then afterRead second
          (handleExisting (bodyFingerprint M (req i).body) ((s.redis key).map (·.value)))
          else afterNone second)
    | .delete i a => ∃ second key, s.phase i = .deleting second ∧ keyOf M (req i) = some key ∧
        s' = (if a = .failed then s else s.put key none).setPhase i (afterNone second)
    | .reclaim i a => s.phase i = .reclaiming ∧ ∃ key, keyOf M (req i) = some key ∧
        ((a = .ok ∧ s.redis key = none ∧ s' = (s.put key (claimOf M (req i) i)).start i true) ∨
          (a = .ok ∧ s.redis key ≠ none ∧ s' = s.setPhase i (.reading true)) ∨
          (a = .lost ∧ s.redis key = none ∧
            s' = (s.put key (claimOf M (req i) i)).setPhase i (.ended (.conflict couldNotClaim))) ∨
          (a ≠ .ok ∧ (a = .lost → s.redis key ≠ none) ∧
            s' = s.setPhase i (.ended (.conflict couldNotClaim))))
    | .finish i r => (s.phase i = .running true ∧
        s' = s.setPhase i (.storing (capture r (bodyFingerprint M (req i).body)))) ∨
        (s.phase i = .running false ∧ s' = s.setPhase i (.ended (.passed r)))
    | .raise i => (∃ claimed, s.phase i = .running claimed) ∧ s' = s.setPhase i (.ended .raised)
    | .store i a => ∃ c key, s.phase i = .storing c ∧ keyOf M (req i) = some key ∧
        s' = (if a = .failed then s else s.put key (storedOf c i)).setPhase i
          (.ended (.answered c.response))
    | .expire key => s' = s.put key none := by
  cases e with
  | pass i =>
    simp only [dispatchStep] at h
    split at h
    · exact ⟨‹_›, ‹_›, by simpa using h.symm⟩
    · cases h
  | claim i a =>
    simp only [dispatchStep] at h
    split at h
    · rename_i key hp hk
      refine ⟨hp, key, hk, ?_⟩
      split at h <;> rename_i hr <;> simp_all
    · cases h
  | read i answered =>
    simp only [dispatchStep] at h
    split at h
    · exact ⟨_, _, ‹_›, ‹_›, by simpa using h.symm⟩
    · cases h
  | delete i a =>
    simp only [dispatchStep] at h
    split at h
    · exact ⟨_, _, ‹_›, ‹_›, by simpa using h.symm⟩
    · cases h
  | reclaim i a =>
    simp only [dispatchStep] at h
    split at h
    · rename_i key hp hk
      refine ⟨hp, key, hk, ?_⟩
      split at h <;> rename_i hr <;> simp_all
    · cases h
  | finish i r =>
    simp only [dispatchStep] at h
    split at h
    · exact .inl ⟨‹_›, by simpa using h.symm⟩
    · exact .inr ⟨‹_›, by simpa using h.symm⟩
    · cases h
  | raise i =>
    simp only [dispatchStep] at h
    split at h
    · exact ⟨⟨_, ‹_›⟩, by simpa using h.symm⟩
    · cases h
  | store i a =>
    simp only [dispatchStep, rebuild_fields] at h
    split at h
    · exact ⟨_, _, ‹_›, ‹_›, by simpa using h.symm⟩
    · cases h
  | expire key => simpa [dispatchStep] using h.symm

/-- Where an entry comes from: it was there, or a request with this key claimed it or stored its response. -/
theorem entry_of_dispatch (h : dispatchStep M req s e = some s') {key : String} {en : Entry}
    (hen : s'.redis key = some en) :
    s.redis key = some en ∨ ∃ i, keyOf M (req i) = some key ∧ (en = claimOf M (req i) i ∨
      ∃ a c, e = .store i a ∧ a ≠ .failed ∧ s.phase i = .storing c ∧ en = storedOf c i) := by
  have hc := dispatchStep_cases h
  -- a key is either the one written or as before
  have hput : ∀ k en', (s.put k (some en')).redis key = some en →
      s.redis key = some en ∨ key = k ∧ en = en' := by
    intro k en' hk
    rcases of_put hk with ⟨rfl, he⟩ | ⟨-, hk⟩
    · exact .inr ⟨rfl, (Option.some.inj he).symm⟩
    · exact .inl hk
  have hdrop : ∀ k, (s.put k none).redis key = some en → s.redis key = some en := by
    intro k hk
    rcases of_put hk with ⟨-, ⟨⟩⟩ | ⟨-, hk⟩
    exact hk
  have hclaim : ∀ i k, keyOf M (req i) = some k → (s.put k (claimOf M (req i) i)).redis key = some en →
      s.redis key = some en ∨ ∃ i, keyOf M (req i) = some key ∧ (en = claimOf M (req i) i ∨
        ∃ a c, e = .store i a ∧ a ≠ .failed ∧ s.phase i = .storing c ∧ en = storedOf c i) := by
    intro i k hk hen
    rcases hput k _ hen with hold | ⟨rfl, he⟩
    · exact .inl hold
    · exact .inr ⟨i, hk, .inl he⟩
  cases e with
  | pass i =>
    obtain ⟨-, -, rfl⟩ := hc
    exact .inl hen
  | claim i a =>
    obtain ⟨-, k, hk, ⟨-, -, rfl⟩ | ⟨-, -, rfl⟩ | ⟨-, -, rfl⟩ | ⟨-, -, rfl⟩⟩ := hc
    · exact hclaim i k hk hen
    · exact .inl hen
    · exact hclaim i k hk hen
    · exact .inl hen
  | read i answered =>
    obtain ⟨_, _, -, -, rfl⟩ := hc
    exact .inl hen
  | delete i a =>
    obtain ⟨_, k, -, -, rfl⟩ := hc
    split_ifs at hen
    · exact .inl hen
    · exact .inl (hdrop k hen)
  | reclaim i a =>
    obtain ⟨-, k, hk, ⟨-, -, rfl⟩ | ⟨-, -, rfl⟩ | ⟨-, -, rfl⟩ | ⟨-, -, rfl⟩⟩ := hc
    · exact hclaim i k hk hen
    · exact .inl hen
    · exact hclaim i k hk hen
    · exact .inl hen
  | finish i r =>
    obtain ⟨-, rfl⟩ | ⟨-, rfl⟩ := hc
    · exact .inl hen
    · exact .inl hen
  | raise i =>
    obtain ⟨-, rfl⟩ := hc
    exact .inl hen
  | store i a =>
    obtain ⟨c, k, hp, hk, rfl⟩ := hc
    split_ifs at hen with ha
    · exact .inl hen
    · rcases hput k _ hen with hold | ⟨rfl, he⟩
      · exact .inl hold
      · exact .inr ⟨i, hk, .inr ⟨a, c, rfl, ha, hp, he⟩⟩
  | expire k =>
    rw [show s' = s.put k none from hc] at hen
    exact .inl (hdrop k hen)

/-! ## In-progress entries -/

/-- Values answered with "still being processed". -/
def Stored.InProgress : Stored → Prop
  | .sentinel => True
  | .json (.obj payload) => inProgress payload = true
  | _ => False

/-- Between the start of the application and the end of `dispatch`. -/
def Phase.Active : Phase → Prop
  | .running _ => True
  | .storing _ => True
  | _ => False

/-- Not sent yet, or answered. -/
def Phase.Resting : Phase → Prop
  | .idle => True
  | .ended _ => True
  | _ => False

theorem Phase.Resting.not_active {p : Phase} (h : p.Resting) : ¬ p.Active := by
  cases p <;> simp_all [Resting, Active]

variable (M req) in
/-- Every in-progress entry was written by a request of that key still in `dispatch`. -/
def ClaimsLive (s : State) : Prop :=
  ∀ key en, s.redis key = some en → en.value.InProgress →
    ∃ i, en.writer = some i ∧ keyOf M (req i) = some key ∧ (s.phase i).Active

variable (M req) in
/-- A request that reads its entry while every other request of its key is at rest is not
answered "still being processed". -/
def RetryHeard (s : State) : Prop :=
  ∀ i s', (∀ j ≠ i, keyOf M (req j) = keyOf M (req i) → (s.phase j).Resting) →
    dispatchStep M req s (.read i true) = some s' →
    s'.phase i ≠ .ended (.conflict stillProcessing)

/-- The entry of its key is a claim of request `i`. -/
def ClaimStored (s : State) (i : ℕ) : Prop :=
  ∃ key en, s.redis key = some en ∧ en.value.InProgress ∧ en.writer = some i

variable (M req) in
/-- The steps that do not lose a release: while the stored claim is its own, a request's
application does not raise and its final `SET` takes effect; a request that failed open
leaves no claim behind; no second `SET NX` takes effect unanswered. -/
def Releases (s : State) : Event → Prop
  | .raise i => ¬ ClaimStored s i
  | .finish i _ => s.phase i = .running false → ¬ ClaimStored s i
  | .store i a => a = .failed → ¬ ClaimStored s i
  | .reclaim i a => a = .lost → ∀ key, keyOf M (req i) = some key → s.redis key ≠ none
  | _ => True

theorem claimOf_inProgress (r : Request) (i : ℕ) : (claimOf M r i).value.InProgress := rfl

theorem storedOf_not_inProgress (c : CapturedResponse) (i : ℕ) :
    ¬ (storedOf c i).value.InProgress := by
  intro h
  cases h

/-- A request that is not active wrote no stored claim. -/
theorem ClaimsLive.not_stored (h : ClaimsLive M req s) {i : ℕ} (hp : ¬ (s.phase i).Active) :
    ¬ ClaimStored s i := by
  rintro ⟨key, en, hr, hv, hw⟩
  obtain ⟨j, hj, -, ha⟩ := h key en hr hv
  obtain rfl : i = j := by simpa [hw] using hj
  exact hp ha

/-- Moving the phase of one request keeps the invariant unless its claim is stored. -/
theorem ClaimsLive.setPhase (h : ClaimsLive M req s) {i : ℕ} {p : Phase}
    (hp : p.Active ∨ ¬ ClaimStored s i) : ClaimsLive M req (s.setPhase i p) := by
  intro key en hr hv
  obtain ⟨j, hw, hk, ha⟩ := h key en hr hv
  refine ⟨j, hw, hk, ?_⟩
  by_cases hj : j = i
  · subst hj
    rcases hp with hp | hp
    · rwa [setPhase_self]
    · exact absurd ⟨key, en, hr, hv, hw⟩ hp
  · rwa [setPhase_other _ hj]

theorem ClaimsLive.start (h : ClaimsLive M req s) (i : ℕ) (b : Bool) :
    ClaimsLive M req (s.start i b) :=
  h.setPhase (i := i) (p := .running b) (.inl trivial)

theorem ClaimsLive.put_none (h : ClaimsLive M req s) (k : String) :
    ClaimsLive M req (s.put k none) := by
  intro key en hr hv
  rcases of_put hr with ⟨-, ⟨⟩⟩ | ⟨-, hr⟩
  exact h key en hr hv

/-- A claim put in the store by a request that starts its application. -/
theorem ClaimsLive.claim (h : ClaimsLive M req s) {i : ℕ} {k : String} (b : Bool)
    (hk : keyOf M (req i) = some k) :
    ClaimsLive M req ((s.put k (claimOf M (req i) i)).start i b) := by
  intro key en hr hv
  rcases of_put hr with ⟨rfl, he⟩ | ⟨-, hr⟩
  · obtain rfl := Option.some.inj he
    exact ⟨i, rfl, hk, by rw [start_self]; trivial⟩
  · obtain ⟨j, hw, hkj, ha⟩ := h key en hr hv
    refine ⟨j, hw, hkj, ?_⟩
    by_cases hj : j = i
    · subst hj; rw [start_self]; trivial
    · rwa [start_other _ hj]

theorem ClaimsLive.store (h : ClaimsLive M req s) {i : ℕ} {k : String} {c : CapturedResponse}
    {p : Phase} (hk : keyOf M (req i) = some k) :
    ClaimsLive M req ((s.put k (storedOf c i)).setPhase i p) := by
  intro key en hr hv
  rcases of_put hr with ⟨-, he⟩ | ⟨hkey, hr⟩
  · obtain rfl := Option.some.inj he
    exact absurd hv (storedOf_not_inProgress c i)
  · obtain ⟨j, hw, hkj, ha⟩ := h key en hr hv
    have hj : j ≠ i := by
      rintro rfl
      exact hkey (Option.some.inj (hkj.symm.trans hk))
    exact ⟨j, hw, hkj, by rwa [setPhase_other _ hj]⟩

/-- One step: the invariant survives every step that releases what it claimed. -/
theorem claimsLive_step (hI : ClaimsLive M req s) (hok : Releases M req s e)
    (h : dispatchStep M req s e = some s') : ClaimsLive M req s' := by
  have hc := dispatchStep_cases h
  cases e with
  | pass i => obtain ⟨-, -, rfl⟩ := hc; exact hI.start i false
  | claim i a =>
    obtain ⟨hp, k, hk, ⟨-, -, rfl⟩ | ⟨-, -, rfl⟩ | ⟨-, -, rfl⟩ | ⟨-, -, rfl⟩⟩ := hc
    · exact hI.claim true hk
    · exact hI.setPhase (.inr (hI.not_stored (by simp [hp, Phase.Active])))
    · exact hI.claim false hk
    · exact hI.start i false
  | read i answered =>
    obtain ⟨second, k, hp, hk, rfl⟩ := hc
    exact hI.setPhase (.inr (hI.not_stored (by simp [hp, Phase.Active])))
  | delete i a =>
    obtain ⟨second, k, hp, hk, rfl⟩ := hc
    have hn : ¬ (s.phase i).Active := by simp [hp, Phase.Active]
    split_ifs
    · exact hI.setPhase (.inr (hI.not_stored hn))
    · exact (hI.put_none k).setPhase (.inr ((hI.put_none k).not_stored hn))
  | reclaim i a =>
    obtain ⟨hp, k, hk, ⟨-, -, rfl⟩ | ⟨-, -, rfl⟩ | ⟨ha, hr, rfl⟩ | ⟨-, -, rfl⟩⟩ := hc
    · exact hI.claim true hk
    · exact hI.setPhase (.inr (hI.not_stored (by simp [hp, Phase.Active])))
    · exact absurd hr (hok ha k hk)
    · exact hI.setPhase (.inr (hI.not_stored (by simp [hp, Phase.Active])))
  | finish i r =>
    obtain ⟨-, rfl⟩ | ⟨hp, rfl⟩ := hc
    · exact hI.setPhase (.inl trivial)
    · exact hI.setPhase (.inr (hok hp))
  | raise i =>
    obtain ⟨-, rfl⟩ := hc
    exact hI.setPhase (.inr hok)
  | store i a =>
    obtain ⟨c, k, hp, hk, rfl⟩ := hc
    split_ifs with ha
    · exact hI.setPhase (.inr (hok ha))
    · exact hI.store hk
  | expire k =>
    rw [show s' = s.put k none from hc]
    exact hI.put_none k

/-- A step that loses its release leaves an in-progress entry nobody is working on. -/
theorem not_claimsLive_step (hbad : ¬ Releases M req s e)
    (h : dispatchStep M req s e = some s') : ¬ ClaimsLive M req s' := by
  have hc := dispatchStep_cases h
  have hended : ∀ i o, ClaimStored s i → ¬ ClaimsLive M req (s.setPhase i (.ended o)) := by
    intro i o hs hl
    exact hl.not_stored (i := i) (by rw [setPhase_self]; simp [Phase.Active]) hs
  cases e with
  | raise i =>
    obtain ⟨-, rfl⟩ := hc
    exact hended i _ (not_not.1 hbad)
  | finish i r =>
    simp only [Releases, Classical.not_imp, not_not] at hbad
    obtain ⟨hp, -⟩ | ⟨-, rfl⟩ := hc
    · simp [hp] at hbad
    · exact hended i _ hbad.2
  | store i a =>
    simp only [Releases, Classical.not_imp, not_not] at hbad
    obtain ⟨c, k, hp, hk, rfl⟩ := hc
    rw [if_pos hbad.1]
    exact hended i _ hbad.2
  | reclaim i a =>
    simp only [Releases, Classical.not_imp, not_forall, not_not] at hbad
    obtain ⟨rfl, k', hk', hr'⟩ := hbad
    obtain ⟨hp, k, hk, ⟨ha, -, -⟩ | ⟨ha, -, -⟩ | ⟨-, hr, rfl⟩ | ⟨-, hr, -⟩⟩ := hc
    · cases ha
    · cases ha
    · intro hl
      refine hl.not_stored (i := i) (by rw [setPhase_self]; simp [Phase.Active]) ?_
      exact ⟨k, claimOf M (req i) i, by simp, claimOf_inProgress _ _, rfl⟩
    · obtain rfl : k' = k := Option.some.inj (hk'.symm.trans hk)
      exact absurd hr' (hr rfl)
  | _ => exact absurd trivial hbad

/-- Only an in-progress value is answered "still being processed". -/
theorem inProgress_of_conflict {fp : String} {v : Option Stored}
    (h : handleExisting fp v = .conflict stillProcessing) : ∃ w, v = some w ∧ w.InProgress := by
  unfold handleExisting at h
  split at h <;> try contradiction
  · exact ⟨_, rfl, trivial⟩
  · refine ⟨_, rfl, ?_⟩
    dsimp only at h
    split at h
    · exact absurd (Existing.conflict.inj h) (by decide)
    · split at h
      · assumption
      · split at h
        · contradiction
        · split at h <;> contradiction

theorem ClaimsLive.heard (h : ClaimsLive M req s) : RetryHeard M req s := by
  intro i s' hrest hstep hend
  obtain ⟨second, k, hp, hk, rfl⟩ := dispatchStep_cases hstep
  rw [setPhase_self, if_pos rfl] at hend
  -- of all verdicts only the conflict itself ends with this text
  have hconf : handleExisting (bodyFingerprint M (req i).body) ((s.redis k).map (·.value)) =
      .conflict stillProcessing := by
    revert hend
    generalize handleExisting _ _ = v
    cases v <;> cases second <;> simp [afterRead, afterNone, couldNotClaimOrReplay, stillProcessing]
  obtain ⟨w, hw, hv⟩ := inProgress_of_conflict hconf
  obtain ⟨en, hr, rfl⟩ := Option.map_eq_some_iff.1 hw
  obtain ⟨j, -, hkj, ha⟩ := h k en hr hv
  have hj : j ≠ i := by
    rintro rfl
    simp [hp, Phase.Active] at ha
  exact (hrest j hj (hkj.trans hk.symm)).not_active ha

/-- In every state of a run each in-progress entry belongs to a request still in `dispatch`
(and so no retry after the others is told to wait), iff no step of the run loses a release. -/
theorem claims_live_iff {redis : String → Option Entry} {tr : List (State × Event)}
    (hfree : ∀ key en, redis key = some en → ¬ en.value.InProgress)
    (hrun : Run (Fires (dispatchStep M req)) (State.init redis) tr s) :
    Always (fun s => ClaimsLive M req s ∧ RetryHeard M req s) tr s ↔
      ∀ p ∈ tr, Releases M req p.1 p.2 :=
  hrun.always_iff (I := ClaimsLive M req) (fun key en hr hv => absurd hv (hfree key en hr))
    (fun _ h => ⟨h, h.heard⟩) (fun _ _ _ hI hok hs => claimsLive_step hI hok hs)
    fun _ _ _ _ hbad hs hgood => not_claimsLive_step hbad hs hgood.1

/-- The digests of the empty body and of `a`. -/
def demoSha (body : List UInt8) : HexDigest :=
  if body = [] then ⟨"e3b0c44298fc1c149afbf4c8996fb92427ae41e4649b934ca495991b7852b855", by decide⟩
  else ⟨"ca978112ca1bbdcafac231b39a23dc4da786eff8147c4f72b9807785afee48bb", by decide⟩

def demo : Middleware where
  sha256 := demoSha

def demoRequest (body : List UInt8) : Request where
  method := "POST"
  path := "/api/v1/expenses"
  headers := [("idempotency-key", "k1")]
  body := body

def demoKey : String := "reckonflow:idempotency:POST:/api/v1/expenses:k1"

def created : Response := jsonResponse 201 [("id", "7")]

/-- A claim answered, the application run, the response stored. -/
theorem claims_live_iff_served : ∃ tr s,
    Run (Fires (dispatchStep demo fun _ => demoRequest [])) (State.init fun _ => none) tr s ∧
      Always (fun s => ClaimsLive demo (fun _ => demoRequest []) s ∧
        RetryHeard demo (fun _ => demoRequest []) s) tr s := by
  set s₁ := ((State.init fun _ => none).put demoKey
    (some (claimOf demo (demoRequest []) 0))).start 0 true with h₁
  set s₂ := s₁.setPhase 0 (.storing (capture created (bodyFingerprint demo [])))
  have h0 : Run (Fires (dispatchStep demo fun _ => demoRequest [])) (State.init fun _ => none) [] _ :=
    .nil
  have hrun := ((h0.fire (.claim 0 .ok) s₁ rfl).fire (.finish 0 created) s₂ rfl).fire
    (.store 0 .ok) _ rfl
  refine ⟨_, _, hrun, (claims_live_iff (by simp) hrun).2 ?_⟩
  simp [Releases, h₁]

/-- A handler that raises leaves its claim behind: the retry is told to wait for nobody. -/
theorem claims_live_fails : ¬ ∀ (M : Middleware) (req : ℕ → Request) (tr : List (State × Event))
    (s : State), Run (Fires (dispatchStep M req)) (State.init fun _ => none) tr s →
      ClaimsLive M req s ∧ RetryHeard M req s := by
  intro hall
  set s₁ := ((State.init fun _ => none).put demoKey
    (some (claimOf demo (demoRequest []) 0))).start 0 true
  set s₂ := s₁.setPhase 0 (.ended .raised)
  have h0 : Run (Fires (dispatchStep demo fun _ => demoRequest [])) (State.init fun _ => none) [] _ :=
    .nil
  have hrun := ((h0.fire (.claim 0 .ok) s₁ rfl).fire (.raise 0) s₂ rfl).fire (.claim 1 .ok) _ rfl
  refine (hall demo _ _ _ hrun).2 1 _ (fun j hj _ => ?_) rfl rfl
  by_cases h0 : j = 0
  · subst h0; trivial
  · simp [s₂, s₁, State.setPhase, State.start, State.put, State.init, h0, hj, Phase.Resting]

/-! ## One execution -/

variable (M req key) in
/-- The requests of one key. -/
def Carries (i : ℕ) : Prop := keyOf M (req i) = some key

instance (i : ℕ) : Decidable (Carries M req key i) := inferInstanceAs (Decidable (_ = _))

variable (M req key) in
/-- The entry of the key does not expire, and each first `SET NX` for it is answered. -/
def FirstAnswered : Event → Prop
  | .expire k => k ≠ key
  | .claim i a => Carries M req key i → a = .ok
  | _ => True

/-- No request of the key has been sent. -/
structure Untouched (M : Middleware) (req : ℕ → Request) (key : String) (s : State) : Prop where
  absent : s.redis key = none
  idle : ∀ i, Carries M req key i → s.phase i = .idle ∧ i ∉ s.started

/-- The phases of the one request `j` that runs the application. -/
def Runner (M : Middleware) (req : ℕ → Request) (j : ℕ) : Phase → Prop
  | .running claimed => claimed = true
  | .storing c => c.fingerprint = bodyFingerprint M (req j).body
  | .ended .raised => True
  | .ended (.answered _) => True
  | _ => False

/-- The phases of the requests that find the key taken, once `j` may have been answered. -/
def Waiter (M : Middleware) (req : ℕ → Request) (i : ℕ) (runner : Phase) (j : ℕ) : Phase → Prop
  | .idle | .reading _ | .reclaiming | .ended (.conflict _) => True
  | .ended (.replay r) => bodyFingerprint M (req i).body = bodyFingerprint M (req j).body ∧
      ∃ r', runner = .ended (.answered r') ∧ r = replayed r'
  | _ => False

/-- Request `j` took the key: the entry is its claim, or its response once it was answered. -/
structure TakenBy (M : Middleware) (req : ℕ → Request) (key : String) (j : ℕ) (s : State) :
    Prop where
  carries : Carries M req key j
  started : s.started.filter (Carries M req key ·) = [j]
  runner : Runner M req j (s.phase j)
  entry : ∃ en, s.redis key = some en ∧
    (en.value = claimPayload (bodyFingerprint M (req j).body) ∨
      ∃ c : CapturedResponse, en.value = .json (.obj c.fields) ∧ c.fingerprint = bodyFingerprint M (req j).body ∧
        s.phase j = .ended (.answered c.response))
  waiters : ∀ i, Carries M req key i → i ≠ j → Waiter M req i (s.phase j) j (s.phase i)

/-- A step leaves alone the other requests and the entries of other keys. -/
theorem dispatchStep_frame {i : ℕ} (ha : e.actor = some i)
    (h : dispatchStep M req s e = some s') :
    (∀ j ≠ i, s'.phase j = s.phase j) ∧
      (∀ k, keyOf M (req i) ≠ some k → s'.redis k = s.redis k) ∧
      (s'.started = s.started ∨ s'.started = s.started ++ [i]) := by
  have hc := dispatchStep_cases h
  -- every new state is a phase of `i` set over an optional write to its own key
  have set : ∀ p, (∀ j ≠ i, (s.setPhase i p).phase j = s.phase j) :=
    fun p j hj => setPhase_other p hj
  have own : ∀ k en k', keyOf M (req i) = some k → keyOf M (req i) ≠ some k' →
      (s.put k en).redis k' = s.redis k' := by
    rintro k en k' hk hk'
    exact put_other en (by rintro rfl; exact hk' hk)
  cases e with
  | expire k => cases ha
  | pass i =>
    cases ha
    obtain ⟨-, -, rfl⟩ := hc
    exact ⟨fun j hj => start_other _ hj, fun _ _ => rfl, .inr rfl⟩
  | claim i a =>
    cases ha
    obtain ⟨-, k, hk, ⟨-, -, rfl⟩ | ⟨-, -, rfl⟩ | ⟨-, -, rfl⟩ | ⟨-, -, rfl⟩⟩ := hc
    · exact ⟨fun j hj => start_other _ hj, fun k' hk' => own k _ k' hk hk', .inr rfl⟩
    · exact ⟨set _, fun _ _ => rfl, .inl rfl⟩
    · exact ⟨fun j hj => start_other _ hj, fun k' hk' => own k _ k' hk hk', .inr rfl⟩
    · exact ⟨fun j hj => start_other _ hj, fun _ _ => rfl, .inr rfl⟩
  | read i answered =>
    cases ha
    obtain ⟨_, k, -, hk, rfl⟩ := hc
    exact ⟨set _, fun _ _ => rfl, .inl rfl⟩
  | delete i a =>
    cases ha
    obtain ⟨_, k, -, hk, rfl⟩ := hc
    split_ifs
    · exact ⟨set _, fun _ _ => rfl, .inl rfl⟩
    · exact ⟨set _, fun k' hk' => own k _ k' hk hk', .inl rfl⟩
  | reclaim i a =>
    cases ha
    obtain ⟨-, k, hk, ⟨-, -, rfl⟩ | ⟨-, -, rfl⟩ | ⟨-, -, rfl⟩ | ⟨-, -, rfl⟩⟩ := hc
    · exact ⟨fun j hj => start_other _ hj, fun k' hk' => own k _ k' hk hk', .inr rfl⟩
    · exact ⟨set _, fun _ _ => rfl, .inl rfl⟩
    · exact ⟨set _, fun k' hk' => own k _ k' hk hk', .inl rfl⟩
    · exact ⟨set _, fun _ _ => rfl, .inl rfl⟩
  | finish i r =>
    cases ha
    obtain ⟨-, rfl⟩ | ⟨-, rfl⟩ := hc
    · exact ⟨set _, fun _ _ => rfl, .inl rfl⟩
    · exact ⟨set _, fun _ _ => rfl, .inl rfl⟩
  | raise i =>
    cases ha
    obtain ⟨-, rfl⟩ := hc
    exact ⟨set _, fun _ _ => rfl, .inl rfl⟩
  | store i a =>
    cases ha
    obtain ⟨_, k, -, hk, rfl⟩ := hc
    split_ifs
    · exact ⟨set _, fun _ _ => rfl, .inl rfl⟩
    · exact ⟨set _, fun k' hk' => own k _ k' hk hk', .inl rfl⟩

theorem filter_started {i : ℕ} (hi : ¬ Carries M req key i) {l l' : List ℕ}
    (h : l' = l ∨ l' = l ++ [i]) :
    l'.filter (Carries M req key ·) = l.filter (Carries M req key ·) := by
  rcases h with rfl | rfl
  · rfl
  · simp [List.filter_append, hi]

/-- Requests of other keys do not matter. -/
theorem Untouched.frame (hU : Untouched M req key s) {i : ℕ} (ha : e.actor = some i)
    (hi : ¬ Carries M req key i) (h : dispatchStep M req s e = some s') :
    Untouched M req key s' := by
  obtain ⟨hp, hr, hs⟩ := dispatchStep_frame ha h
  refine ⟨by rw [hr _ hi, hU.absent], fun j hj => ?_⟩
  have hji : j ≠ i := by rintro rfl; exact hi hj
  refine ⟨by rw [hp j hji]; exact (hU.idle j hj).1, fun hm => (hU.idle j hj).2 ?_⟩
  rcases hs with hs | hs <;> rw [hs] at hm
  · exact hm
  · simpa [hji] using hm

theorem TakenBy.frame {j : ℕ} (hT : TakenBy M req key j s) {i : ℕ} (ha : e.actor = some i)
    (hi : ¬ Carries M req key i) (h : dispatchStep M req s e = some s') :
    TakenBy M req key j s' := by
  obtain ⟨hp, hr, hs⟩ := dispatchStep_frame ha h
  have hji : ∀ k, Carries M req key k → k ≠ i := by rintro k hk rfl; exact hi hk
  have hj := hp j (hji j hT.carries)
  refine ⟨hT.carries, ?_, hj ▸ hT.runner, ?_, fun k hk hkj => ?_⟩
  · rw [filter_started hi hs, hT.started]
  · obtain ⟨en, he, hv⟩ := hT.entry
    exact ⟨en, by rw [hr _ hi, he], by rwa [hj]⟩
  · rw [hj, hp k (hji k hk)]
    exact hT.waiters k hk hkj

/-- A waiting request moves on. -/
theorem TakenBy.wait {i j : ℕ} (hT : TakenBy M req key j s) (hij : i ≠ j) {p : Phase}
    (hp : Waiter M req i (s.phase j) j p) : TakenBy M req key j (s.setPhase i p) := by
  have hj : (s.setPhase i p).phase j = s.phase j := setPhase_other p hij.symm
  refine ⟨hT.carries, hT.started, by rw [hj]; exact hT.runner, ?_, fun k hk hkj => ?_⟩
  · rw [hj]; exact hT.entry
  · rw [hj]
    by_cases hki : k = i
    · subst hki; rwa [setPhase_self]
    · rw [setPhase_other _ hki]; exact hT.waiters k hk hkj

/-- Before the runner is answered nobody has a replay, so it may move freely. -/
theorem TakenBy.waiters_move {j : ℕ} (hT : TakenBy M req key j s)
    (hn : ∀ r, s.phase j ≠ .ended (.answered r)) (p : Phase) :
    ∀ i, Carries M req key i → i ≠ j → Waiter M req i p j (s.phase i) := by
  intro i hi hij
  have hw := hT.waiters i hi hij
  revert hw
  generalize s.phase i = q
  intro hw
  unfold Waiter at hw ⊢
  split at hw
  · trivial
  · trivial
  · trivial
  · trivial
  · obtain ⟨-, r', hr', -⟩ := hw
    exact absurd hr' (hn r')
  · exact hw.elim

/-- The runner moves on, leaving its claim in place. -/
theorem TakenBy.run {j : ℕ} (hT : TakenBy M req key j s)
    (hn : ∀ r, s.phase j ≠ .ended (.answered r)) {p : Phase} (hp : Runner M req j p) :
    TakenBy M req key j (s.setPhase j p) := by
  refine ⟨hT.carries, hT.started, by rwa [setPhase_self], ?_, fun i hi hij => ?_⟩
  · obtain ⟨en, he, hv | ⟨c, -, -, hc⟩⟩ := hT.entry
    · exact ⟨en, he, .inl hv⟩
    · exact absurd hc (hn _)
  · rw [setPhase_self, setPhase_other _ hij]
    exact hT.waiters_move hn p i hi hij

/-- The runner stores its response and is answered. -/
theorem TakenBy.store {j : ℕ} (hT : TakenBy M req key j s) {c : CapturedResponse}
    (hc : s.phase j = .storing c) :
    TakenBy M req key j ((s.put key (storedOf c j)).setPhase j (.ended (.answered c.response))) := by
  have hfp : c.fingerprint = bodyFingerprint M (req j).body := by
    have := hT.runner
    rwa [hc] at this
  refine ⟨hT.carries, hT.started, by rw [setPhase_self]; trivial, ?_, fun i hi hij => ?_⟩
  · exact ⟨storedOf c j, by simp, .inr ⟨c, rfl, hfp, by simp⟩⟩
  · rw [setPhase_self, setPhase_other _ hij]
    exact hT.waiters_move (by simp [hc]) _ i hi hij

/-- What a request of the key reads: never a value to discard, and a replay only of the
runner's response to the runner's body. -/
theorem TakenBy.read {i j : ℕ} (hT : TakenBy M req key j s) (second : Bool) :
    Waiter M req i (s.phase j) j (afterRead second
      (handleExisting (bodyFingerprint M (req i).body) ((s.redis key).map (·.value)))) := by
  obtain ⟨en, he, hv | ⟨c, hv, hfp, hp⟩⟩ := hT.entry
  · rw [he, Option.map_some, hv, handleExisting_claim]
    trivial
  · rw [he, Option.map_some, hv, handleExisting_stored]
    split_ifs with hne
    · trivial
    · have heq : c.fingerprint = bodyFingerprint M (req i).body := by
        by_contra h
        exact hne ⟨hfp ▸ fingerprint_ne_empty _, h⟩
      exact ⟨heq.symm.trans hfp, _, hp, rfl⟩

/-- The first request of the key takes it. -/
theorem Untouched.step {i : ℕ} (hU : Untouched M req key s) (hi : Carries M req key i)
    (ha : e.actor = some i) (hok : FirstAnswered M req key e)
    (h : dispatchStep M req s e = some s') : TakenBy M req key i s' := by
  have hc := dispatchStep_cases h
  have hidle := (hU.idle i hi).1
  cases e with
  | claim i' a =>
    cases ha
    obtain ⟨-, k, hk, hcase⟩ := hc
    obtain rfl : key = k := Option.some.inj (hi.symm.trans hk)
    obtain rfl := hok hi
    obtain ⟨-, -, rfl⟩ | ⟨-, hr, -⟩ | ⟨ha, -⟩ | ⟨ha, -⟩ := hcase
    · have hstart : s.started.filter (Carries M req key ·) = [] :=
        List.filter_eq_nil_iff.2 fun j hj hcj => (hU.idle j (by simpa using hcj)).2 hj
      refine ⟨hi, ?_, by rw [start_self]; rfl, ⟨_, put_self .., .inl rfl⟩, fun j hj hji => ?_⟩
      · simp [List.filter_append, hstart, hi]
      · rw [start_other _ hji, put_phase, (hU.idle j hj).1]
        trivial
    · exact absurd hU.absent hr
    · cases ha
    · exact absurd rfl ha
  | pass i' => cases ha; exact absurd (hc.2.1.symm.trans hi) (by simp)
  | read i' _ => cases ha; obtain ⟨_, _, hp, -⟩ := hc; simp [hidle] at hp
  | delete i' _ => cases ha; obtain ⟨_, _, hp, -⟩ := hc; simp [hidle] at hp
  | reclaim i' _ => cases ha; obtain ⟨hp, -⟩ := hc; simp [hidle] at hp
  | finish i' _ => cases ha; obtain ⟨hp, -⟩ | ⟨hp, -⟩ := hc <;> simp [hidle] at hp
  | raise i' => cases ha; obtain ⟨⟨_, hp⟩, -⟩ := hc; simp [hidle] at hp
  | store i' _ => cases ha; obtain ⟨_, _, hp, -⟩ := hc; simp [hidle] at hp
  | expire k => cases ha

/-- A step of the request that runs the application. -/
theorem TakenBy.step_runner {j : ℕ} (hT : TakenBy M req key j s) (ha : e.actor = some j)
    (h : dispatchStep M req s e = some s') : TakenBy M req key j s' := by
  have hc := dispatchStep_cases h
  have hrun := hT.runner
  cases e with
  | finish j' r =>
    cases ha
    obtain ⟨hp, rfl⟩ | ⟨hp, -⟩ := hc
    · exact hT.run (by simp [hp]) rfl
    · simp [hp, Runner] at hrun
  | raise j' =>
    cases ha
    obtain ⟨⟨claimed, hp⟩, rfl⟩ := hc
    exact hT.run (by simp [hp]) trivial
  | store j' a =>
    cases ha
    obtain ⟨c, k, hp, hk, rfl⟩ := hc
    obtain rfl : key = k := Option.some.inj (hT.carries.symm.trans hk)
    split_ifs
    · exact hT.run (by simp [hp]) trivial
    · exact hT.store hp
  | pass j' => cases ha; simp [hc.1, Runner] at hrun
  | claim j' _ => cases ha; simp [hc.1, Runner] at hrun
  | reclaim j' _ => cases ha; simp [hc.1, Runner] at hrun
  | read j' _ => cases ha; obtain ⟨_, _, hp, -⟩ := hc; simp [hp, Runner] at hrun
  | delete j' _ => cases ha; obtain ⟨_, _, hp, -⟩ := hc; simp [hp, Runner] at hrun
  | expire k => cases ha

/-- A step of another request of the key. -/
theorem TakenBy.step_waiter {i j : ℕ} (hT : TakenBy M req key j s) (hi : Carries M req key i)
    (hij : i ≠ j) (ha : e.actor = some i) (hok : FirstAnswered M req key e)
    (h : dispatchStep M req s e = some s') : TakenBy M req key j s' := by
  have hc := dispatchStep_cases h
  have hw := hT.waiters i hi hij
  obtain ⟨en, he, -⟩ := hT.entry
  cases e with
  | claim i' a =>
    cases ha
    obtain ⟨-, k, hk, hcase⟩ := hc
    obtain rfl : key = k := Option.some.inj (hi.symm.trans hk)
    obtain rfl := hok hi
    obtain ⟨-, hr, -⟩ | ⟨-, -, rfl⟩ | ⟨ha, -⟩ | ⟨ha, -⟩ := hcase
    · simp [he] at hr
    · exact hT.wait hij trivial
    · cases ha
    · exact absurd rfl ha
  | read i' answered =>
    cases ha
    obtain ⟨second, k, -, hk, rfl⟩ := hc
    obtain rfl : key = k := Option.some.inj (hi.symm.trans hk)
    cases answered
    · exact hT.wait hij (by cases second <;> trivial)
    · exact hT.wait hij (hT.read second)
  | reclaim i' a =>
    cases ha
    obtain ⟨-, k, hk, hcase⟩ := hc
    obtain rfl : key = k := Option.some.inj (hi.symm.trans hk)
    obtain ⟨-, hr, -⟩ | ⟨-, -, rfl⟩ | ⟨-, hr, -⟩ | ⟨-, -, rfl⟩ := hcase
    · simp [he] at hr
    · exact hT.wait hij trivial
    · simp [he] at hr
    · exact hT.wait hij trivial
  | pass i' => cases ha; exact absurd (hc.2.1.symm.trans hi) (by simp)
  | delete i' _ => cases ha; obtain ⟨_, _, hp, -⟩ := hc; simp [hp, Waiter] at hw
  | finish i' _ => cases ha; obtain ⟨hp, -⟩ | ⟨hp, -⟩ := hc <;> simp [hp, Waiter] at hw
  | raise i' => cases ha; obtain ⟨⟨_, hp⟩, -⟩ := hc; simp [hp, Waiter] at hw
  | store i' _ => cases ha; obtain ⟨_, _, hp, -⟩ := hc; simp [hp, Waiter] at hw
  | expire k => cases ha

/-- The key is untouched until one request takes it, for good. -/
theorem taken_step (hI : Untouched M req key s ∨ ∃ j, TakenBy M req key j s)
    (hok : FirstAnswered M req key e) (h : dispatchStep M req s e = some s') :
    Untouched M req key s' ∨ ∃ j, TakenBy M req key j s' := by
  cases ha : e.actor with
  | none =>
    obtain ⟨k, rfl⟩ : ∃ k, e = .expire k := by cases e <;> simp_all [Event.actor]
    obtain rfl : s' = s.put k none := dispatchStep_cases h
    have hr : (s.put k none).redis key = s.redis key := put_other none (Ne.symm hok)
    rcases hI with hU | ⟨j, hT⟩
    · exact .inl ⟨hr.trans hU.absent, hU.idle⟩
    · exact .inr ⟨j, hT.carries, hT.started, hT.runner, by rw [hr]; exact hT.entry, hT.waiters⟩
  | some i =>
    by_cases hi : Carries M req key i
    · rcases hI with hU | ⟨j, hT⟩
      · exact .inr ⟨i, hU.step hi ha hok h⟩
      · by_cases hij : i = j
        · subst hij
          exact .inr ⟨i, hT.step_runner ha h⟩
        · exact .inr ⟨j, hT.step_waiter hi hij ha hok h⟩
    · rcases hI with hU | ⟨j, hT⟩
      · exact .inl (hU.frame ha hi h)
      · exact .inr ⟨j, hT.frame ha hi h⟩

/-- At most one execution per key: the application is started at most once, the other
requests end with a 409 or a replay, and a replay is the response the running request was
answered with, marked as such, for a body of the same fingerprint. -/
theorem at_most_one_execution {redis : String → Option Entry} {tr : List (State × Event)}
    (habsent : redis key = none)
    (hrun : Run (Fires (dispatchStep M req)) (State.init redis) tr s)
    (hfirst : ∀ p ∈ tr, FirstAnswered M req key p.2) :
    (s.started.filter (Carries M req key ·)).length ≤ 1 ∧
      (∀ i o, Carries M req key i → s.phase i = .ended o → i ∉ s.started →
        (∃ d, o = .conflict d ∧ (conflict d).status = 409) ∨ ∃ r, o = .replay r) ∧
      ∀ i r, Carries M req key i → s.phase i = .ended (.replay r) →
        ∃ j r', Carries M req key j ∧ j ∈ s.started ∧ s.phase j = .ended (.answered r') ∧
          r.status = r'.status ∧ r.body = r'.body ∧
          r.headers = setRaw replayHeader "true" r'.headers ∧
          bodyFingerprint M (req i).body = bodyFingerprint M (req j).body := by
  have hinit : Untouched M req key (State.init redis) := ⟨habsent, fun _ _ => ⟨rfl, by simp [State.init]⟩⟩
  have hI : Untouched M req key s ∨ ∃ j, TakenBy M req key j s :=
    hrun.invariant_of (I := fun s => Untouched M req key s ∨ ∃ j, TakenBy M req key j s)
      (.inl hinit) (fun _ _ _ hI (hok : FirstAnswered M req key _) hs => taken_step hI hok hs) hfirst
  rcases hI with hU | ⟨j, hT⟩
  · refine ⟨?_, fun i o hi hp => ?_, fun i r hi hp => ?_⟩
    · rw [List.filter_eq_nil_iff.2 fun i hi hci => (hU.idle i (by simpa using hci)).2 hi]
      exact Nat.zero_le 1
    · simp [(hU.idle i hi).1] at hp
    · simp [(hU.idle i hi).1] at hp
  · have hmem : j ∈ s.started := by
      have : j ∈ s.started.filter (Carries M req key ·) := by rw [hT.started]; exact List.mem_singleton_self j
      exact List.mem_of_mem_filter this
    refine ⟨by rw [hT.started]; exact le_rfl, fun i o hi hp hns => ?_, fun i r hi hp => ?_⟩
    · have hij : i ≠ j := by rintro rfl; exact hns hmem
      have hw := hT.waiters i hi hij
      rw [hp] at hw
      cases o with
      | conflict d => exact .inl ⟨d, rfl, rfl⟩
      | replay r => exact .inr ⟨r, rfl⟩
      | _ => exact hw.elim
    · have hij : i ≠ j := by
        rintro rfl
        have hr := hT.runner
        rw [hp] at hr
        exact hr
      have hw := hT.waiters i hi hij
      rw [hp] at hw
      obtain ⟨hfp, r', hr', rfl⟩ := hw
      exact ⟨j, r', hT.carries, hmem, hr', rfl, rfl, rfl, hfp⟩

/-- Three requests: one runs, one gives up after a failed read and a failed claim, one gets
the replay although the answer to the store was lost. -/
theorem at_most_one_execution_three : ∃ tr s r,
    drive (dispatchStep demo fun _ => demoRequest []) (State.init fun _ => none)
      [.claim 0 .ok, .claim 1 .ok, .read 1 false, .finish 0 created, .store 0 .lost,
        .reclaim 1 .failed, .claim 2 .ok, .read 2 true] = some (tr, s) ∧
      (s.started.filter (Carries demo (fun _ => demoRequest []) demoKey ·)).length ≤ 1 ∧
      s.phase 2 = .ended (.replay r) ∧ ∃ j r', j ∈ s.started ∧ s.phase j = .ended (.answered r') ∧
        r.status = r'.status ∧ r.body = r'.body := by
  obtain ⟨⟨tr, s⟩, h⟩ : ∃ p, drive (dispatchStep demo fun _ => demoRequest [])
      (State.init fun _ => none) [.claim 0 .ok, .claim 1 .ok, .read 1 false, .finish 0 created,
        .store 0 .lost, .reclaim 1 .failed, .claim 2 .ok, .read 2 true] = some p := ⟨_, rfl⟩
  have h2 : s.phase 2 =
      .ended (.replay (replayed (capture created (bodyFingerprint demo [])).response)) := by
    obtain ⟨-, rfl⟩ := Prod.mk.inj (Option.some.inj h)
    rfl
  have hfirst : ∀ p ∈ tr, FirstAnswered demo (fun _ => demoRequest []) demoKey p.2 := by
    intro p hp
    have := drive_mem h p hp
    simp only [List.mem_cons, List.not_mem_nil, or_false] at this
    rcases this with h | h | h | h | h | h | h | h <;> simp [h, FirstAnswered]
  obtain ⟨hone, -, hreplay⟩ := at_most_one_execution rfl (run_of_drive h) hfirst
  obtain ⟨j, r', -, hj, hp, hs, hb, -⟩ := hreplay 2 _ rfl h2
  exact ⟨tr, s, _, h, hone, h2, j, r', hj, hp, hs, hb⟩

end ReckonFlow
