import ReckonFlow.Proofs.Idempotency
import ReckonFlow.Spec.Gateway

/-! What a caller without the key can receive. Behind the gate nothing leaks; in front of it
the idempotency middleware replays what it stored for anyone who knows method, path,
`Idempotency-Key` and body. -/

namespace ReckonFlow.Gateway

open Lts Text

variable {M : Middleware} {app : App} {limit : RateLimit} {req : ℕ → Request}
  {minted : ℕ → String} {s s' : State} {e : Event}

/-! ## A request's own answers -/

/-- What the application answers without running a handler. -/
def ownRefusal (app : App) (r : Request) : Response := (app.refuse r).getD unauthorized

def captured (M : Middleware) (app : App) (r : Request) : CapturedResponse :=
  capture (ownRefusal app r) (bodyFingerprint M r.body)

/-- Answers made for this request: the 429, the 409s, its own refusal, also stored and rebuilt
or replayed. -/
def OwnAnswer (M : Middleware) (app : App) (r : Request) : Answer → Prop
  | .limited => True
  | .inner (.conflict _) => True
  | .inner (.passed resp) => resp = ownRefusal app r
  | .inner (.answered resp) => resp = (captured M app r).response
  | .inner (.replay resp) => resp = replayed (captured M app r).response
  | .inner .raised | .inner .crashed => False

def refusalStatuses : List ℤ := [401, 404, 405, 422]

/-- The framework refuses the request, if at all, with 404, 405 or 422. -/
def StandardRefusal (app : App) (r : Request) : Prop :=
  (ownRefusal app r).status ∈ refusalStatuses

/-- A request to a finance route without the right key. -/
def Stranger (app : App) (r : Request) : Prop :=
  isFinance r = true ∧ app.authenticated r = false

/-- The statuses a stranger may receive. -/
def allowedStatuses : Answer → List ℤ
  | .limited => [429]
  | .inner (.conflict _) => [409]
  | .inner _ => refusalStatuses

/-- Strangers receive answers of their own only. -/
def Closed (M : Middleware) (app : App) (limit : RateLimit) (req : ℕ → Request)
    (minted : ℕ → String) (s : State) : Prop :=
  ∀ i, Stranger app (req i) → ∀ a, s.answer i = some a → OwnAnswer M app (req i) a ∧
    (received limit (minted i) (req i) a).status ∈ allowedStatuses a

theorem withRequestId_status (r : Request) (minted : String) (resp : Response) :
    (withRequestId r minted resp).status = resp.status := by
  unfold withRequestId
  split_ifs <;> rfl

/-- The status of an own answer is that of the refusal, unless it is a 409 or 429. -/
theorem OwnAnswer.status_iff {r : Request} {o : Outcome} (h : OwnAnswer M app r (.inner o))
    (hconflict : ∀ d, o ≠ .conflict d) (minted : String) :
    (received limit minted r (.inner o)).status ∈ allowedStatuses (.inner o) ↔
      StandardRefusal app r := by
  cases o with
  | conflict d => exact absurd rfl (hconflict d)
  | raised => cases h
  | crashed => cases h
  | _ =>
    obtain rfl := h
    simp only [received, withRequestId_status]
    rfl

/-! ## What Redis holds -/

/-- Every entry was written by the middleware. -/
def Entries (s : ReckonFlow.State) : Prop :=
  ∀ key en, s.redis key = some en → en.value.Written

theorem Entries.step {s s' : ReckonFlow.State} {e : ReckonFlow.Event} (h : Entries s)
    (hs : dispatchStep M req s e = some s') : Entries s' := by
  intro key en hen
  rcases entry_of_dispatch hs hen with hold | ⟨i, -, rfl | ⟨a, c, -, -, -, rfl⟩⟩
  · exact h key en hold
  · exact .claim _
  · exact .response c

/-! ## The condition -/

/-- A stranger's steps at which something foreign could come out: it reads a finished
response, its refusal is delivered, or the check of its key raises. -/
def Discreet (M : Middleware) (app : App) (req : ℕ → Request) (s : State) : Event → Prop
  | .inner (.read i true) => Stranger app (req i) → ∀ key, keyOf M (req i) = some key → ∀ resp,
      handleExisting (bodyFingerprint M (req i).body) ((s.inner.redis key).map (·.value)) =
        .replay resp →
      resp = replayed (captured M app (req i)).response ∧ StandardRefusal app (req i)
  | .inner (.finish i _) => Stranger app (req i) → s.inner.phase i = .running false →
      StandardRefusal app (req i)
  | .inner (.store i _) => Stranger app (req i) → StandardRefusal app (req i)
  | .inner (.raise i) => Stranger app (req i) → app.checkKey (req i) ≠ .raise
  | _ => True

/-! ## The invariant -/

/-- Where a stranger's request may stand. -/
def OwnPhase (M : Middleware) (app : App) (r : Request) : Phase → Prop
  | .storing c => c = captured M app r
  | .ended o => OwnAnswer M app r (.inner o) ∧ ((∃ d, o = .conflict d) ∨ StandardRefusal app r)
  | _ => True

structure Inv (M : Middleware) (app : App) (req : ℕ → Request) (s : State) : Prop where
  entries : Entries s.inner
  own : ∀ i, Stranger app (req i) → OwnPhase M app (req i) (s.inner.phase i)

theorem Inv.closed (h : Inv M app req s) : Closed M app limit req minted s := by
  intro i hi a ha
  unfold State.answer at ha
  split_ifs at ha
  · obtain rfl := Option.some.inj ha
    exact ⟨trivial, by simp [received, withRequestId_status, RateLimit.tooMany, response,
      allowedStatuses]⟩
  · split at ha
    · rename_i o ho
      obtain rfl := Option.some.inj ha
      have hown := h.own i hi
      rw [ho] at hown
      obtain ⟨hown, ⟨d, rfl⟩ | hstandard⟩ := hown
      · exact ⟨hown, by simp [received, withRequestId_status, conflict, jsonResponse, response,
          allowedStatuses]⟩
      · refine ⟨hown, ?_⟩
        by_cases hconflict : ∃ d, o = .conflict d
        · obtain ⟨d, rfl⟩ := hconflict
          simp [received, withRequestId_status, conflict, jsonResponse, response, allowedStatuses]
        · exact (hown.status_iff (fun d hd => hconflict ⟨d, hd⟩) _).2 hstandard
    · cases ha

/-- What a stranger's application call answers. -/
theorem canAnswer_stranger {r : Request} {resp : Response} (h : app.canAnswer r resp = true)
    (hr : Stranger app r) : resp = ownRefusal app r := by
  obtain ⟨hfinance, hkey⟩ := hr
  unfold App.canAnswer at h
  unfold ownRefusal
  split at h
  · rename_i hrefuse
    rw [hrefuse]
    exact of_decide_eq_true h
  · rename_i hrefuse
    rw [hrefuse]
    rw [if_pos hfinance] at h
    split at h
    · rename_i hpass
      simp [App.authenticated, hpass] at hkey
    · exact of_decide_eq_true h
    · cases h

theorem canRaise_stranger {r : Request} (h : app.canRaise r = true) (hr : Stranger app r) :
    app.checkKey r = .raise := by
  obtain ⟨hfinance, hkey⟩ := hr
  simp only [App.canRaise, hfinance, Bool.true_and, Bool.and_eq_true, Bool.not_eq_true',
    decide_eq_false_iff_not] at h
  have hpass : app.checkKey r ≠ .pass := by simpa [App.authenticated] using hkey
  cases hgate : app.checkKey r with
  | pass => exact absurd hgate hpass
  | reject => exact absurd hgate h.2
  | raise => rfl

theorem afterNone_own (r : Request) (second : Bool) : OwnPhase M app r (afterNone second) := by
  cases second
  · trivial
  · exact ⟨trivial, .inl ⟨_, rfl⟩⟩

/-- A read that replays nothing foreign. -/
theorem afterRead_own {r : Request} {second : Bool} {s : ReckonFlow.State} {key : String}
    (h : Entries s)
    (hok : ∀ resp, handleExisting (bodyFingerprint M r.body) ((s.redis key).map (·.value)) =
      .replay resp → resp = replayed (captured M app r).response ∧ StandardRefusal app r) :
    OwnPhase M app r (afterRead second
      (handleExisting (bodyFingerprint M r.body) ((s.redis key).map (·.value)))) := by
  cases hr : s.redis key with
  | none => exact afterNone_own r second
  | some en =>
    rw [hr] at hok
    rw [Option.map_some] at hok ⊢
    have hwritten := h key en hr
    generalize en.value = v at hwritten hok ⊢
    cases hwritten with
    | claim fp =>
      rw [handleExisting_claim]
      exact ⟨trivial, .inl ⟨_, rfl⟩⟩
    | response c =>
      rw [handleExisting_stored] at hok ⊢
      split_ifs at hok ⊢
      · exact ⟨trivial, .inl ⟨_, rfl⟩⟩
      · obtain ⟨heq, hstandard⟩ := hok _ rfl
        exact ⟨heq, .inr hstandard⟩

theorem setPhase_own {s : ReckonFlow.State} {i : ℕ} {p : Phase}
    (hp : OwnPhase M app (req i) p) : OwnPhase M app (req i) ((s.setPhase i p).phase i) := by
  rw [setPhase_self]
  exact hp

/-- A stranger's own step. -/
theorem Inv.own_step (h : Inv M app req s) {i : ℕ} {e : ReckonFlow.Event} {inner : ReckonFlow.State}
    (ha : e.actor = some i) (hi : Stranger app (req i)) (hok : Discreet M app req s (.inner e))
    (hfaithful : faithful app req e = true) (hs : dispatchStep M req s.inner e = some inner) :
    OwnPhase M app (req i) (inner.phase i) := by
  have hrun : ∀ (t : ReckonFlow.State) b, OwnPhase M app (req i) ((t.start i b).phase i) := by
    intro t b
    rw [start_self]
    trivial
  have hc := dispatchStep_cases hs
  have hown := h.own i hi
  cases e with
  | expire key => cases ha
  | pass j =>
    obtain rfl := Option.some.inj ha
    obtain ⟨-, -, rfl⟩ := hc
    exact hrun _ _
  | claim j a =>
    obtain rfl := Option.some.inj ha
    obtain ⟨-, key, -, ⟨-, -, rfl⟩ | ⟨-, -, rfl⟩ | ⟨-, -, rfl⟩ | ⟨-, -, rfl⟩⟩ := hc
    · exact hrun _ _
    · exact setPhase_own trivial
    · exact hrun _ _
    · exact hrun _ _
  | read j answered =>
    obtain rfl := Option.some.inj ha
    obtain ⟨second, key, -, hkey, rfl⟩ := hc
    cases answered with
    | false => exact setPhase_own (afterNone_own _ second)
    | true => exact setPhase_own (afterRead_own h.entries (hok hi key hkey))
  | delete j a =>
    obtain rfl := Option.some.inj ha
    obtain ⟨second, key, -, -, rfl⟩ := hc
    exact setPhase_own (afterNone_own _ second)
  | reclaim j a =>
    obtain rfl := Option.some.inj ha
    obtain ⟨-, key, -, ⟨-, -, rfl⟩ | ⟨-, -, rfl⟩ | ⟨-, -, rfl⟩ | ⟨-, -, rfl⟩⟩ := hc
    · exact hrun _ _
    · exact setPhase_own trivial
    · exact setPhase_own ⟨trivial, .inl ⟨_, rfl⟩⟩
    · exact setPhase_own ⟨trivial, .inl ⟨_, rfl⟩⟩
  | finish j resp =>
    obtain rfl := Option.some.inj ha
    obtain rfl := canAnswer_stranger hfaithful hi
    obtain ⟨-, rfl⟩ | ⟨hp, rfl⟩ := hc
    · exact setPhase_own rfl
    · exact setPhase_own ⟨rfl, .inr (hok hi hp)⟩
  | raise j =>
    obtain rfl := Option.some.inj ha
    exact absurd (canRaise_stranger hfaithful hi) (hok hi)
  | store j a =>
    obtain rfl := Option.some.inj ha
    obtain ⟨c, key, hp, -, rfl⟩ := hc
    rw [hp] at hown
    obtain rfl := hown
    exact setPhase_own ⟨rfl, .inr (hok hi)⟩

theorem step_inner {e : ReckonFlow.Event} (hs : step M app limit req s (.inner e) = some s') :
    (∀ i ∈ e.actor, s.admitted i = some true) ∧ faithful app req e = true ∧
      ∃ inner, dispatchStep M req s.inner e = some inner ∧ s' = { s with inner := inner } := by
  simp only [step] at hs
  split_ifs at hs with hcond
  obtain ⟨inner, hinner, rfl⟩ := Option.map_eq_some_iff.1 hs
  exact ⟨hcond.1, hcond.2, inner, hinner, rfl⟩

theorem Inv.step (h : Inv M app req s) {e : Event} (hok : Discreet M app req s e)
    (hs : step M app limit req s e = some s') : Inv M app req s' := by
  cases e with
  | arrive i allowed =>
    simp only [Gateway.step] at hs
    split_ifs at hs
    obtain rfl := Option.some.inj hs
    exact ⟨h.entries, h.own⟩
  | inner e =>
    obtain ⟨-, hfaithful, inner, hinner, rfl⟩ := step_inner hs
    refine ⟨h.entries.step hinner, fun i hi => ?_⟩
    by_cases ha : e.actor = some i
    · exact h.own_step ha hi hok hfaithful hinner
    · have hsame : inner.phase i = s.inner.phase i := by
        cases hactor : e.actor with
        | none =>
          cases e with
          | expire key =>
            rw [show inner = s.inner.put key none from dispatchStep_cases hinner]
            rfl
          | _ => cases hactor
        | some j =>
          refine (dispatchStep_frame hactor hinner).1 i ?_
          rintro rfl
          exact ha hactor
      rw [show ({ s with inner := inner } : State).inner.phase i = s.inner.phase i from hsame]
      exact h.own i hi

/-- The answer of an admitted request that has ended. -/
theorem answer_of_ended {s : State} {i : ℕ} {o : Outcome} (hadmitted : s.admitted i = some true)
    (ho : s.inner.phase i = .ended o) : s.answer i = some (.inner o) := by
  unfold State.answer
  rw [hadmitted, ho, if_neg (by simp)]

theorem Inv.breaks (_ : Inv M app req s) {e : Event} (hbad : ¬ Discreet M app req s e)
    (hs : Gateway.step M app limit req s e = some s') : ¬ Closed M app limit req minted s' := by
  cases e with
  | arrive i allowed => exact absurd trivial hbad
  | inner e =>
    obtain ⟨hadmitted, hfaithful, inner, hinner, rfl⟩ := step_inner hs
    have hc := dispatchStep_cases hinner
    intro hclosed
    -- what a stranger whose request has just ended receives
    have hleak : ∀ i o, e.actor = some i → Stranger app (req i) → inner.phase i = .ended o →
        (∀ d, o ≠ .conflict d) →
        OwnAnswer M app (req i) (.inner o) ∧ StandardRefusal app (req i) := by
      intro i o ha hi ho hconflict
      obtain ⟨hown, hstatus⟩ := hclosed i hi _ (answer_of_ended (hadmitted i ha) ho)
      exact ⟨hown, (hown.status_iff hconflict _).1 hstatus⟩
    cases e with
    | read i answered =>
      cases answered with
      | false => exact hbad trivial
      | true =>
        obtain ⟨second, key, -, hkey, rfl⟩ := hc
        simp only [Discreet, not_forall] at hbad
        obtain ⟨hi, key', hkey', resp, hreplay, hforeign⟩ := hbad
        obtain rfl := Option.some.inj (hkey.symm.trans hkey')
        refine hforeign (hleak i (.replay resp) rfl hi ?_ nofun)
        rw [setPhase_self, if_pos rfl, hreplay]
        rfl
    | finish i resp =>
      simp only [Discreet, not_forall] at hbad
      obtain ⟨hi, hp, hforeign⟩ := hbad
      rcases hc with ⟨hp', -⟩ | ⟨-, rfl⟩
      · rw [hp] at hp'
        cases hp'
      · exact hforeign (hleak i (.passed resp) rfl hi (by rw [setPhase_self]) nofun).2
    | store i a =>
      simp only [Discreet, not_forall] at hbad
      obtain ⟨hi, hforeign⟩ := hbad
      obtain ⟨c, key, hp, -, rfl⟩ := hc
      exact hforeign (hleak i (.answered c.response) rfl hi (by rw [setPhase_self]) nofun).2
    | raise i =>
      simp only [Discreet, not_forall] at hbad
      obtain ⟨hi, -⟩ := hbad
      obtain ⟨-, rfl⟩ := hc
      exact (hleak i .raised rfl hi (by rw [setPhase_self]) nofun).1
    | _ => exact hbad trivial

/-- In every run of the stack from an empty Redis, strangers receive only a refusal of their
own (401, 404, 405 or 422), a 429 or an idempotency 409, exactly if every step is discreet. -/
theorem no_disclosure_iff {tr : List (State × Event)}
    (hrun : Run (Fires (Gateway.step M app limit req)) State.init tr s) :
    Always (Closed M app limit req minted) tr s ↔ ∀ p ∈ tr, Discreet M app req p.1 p.2 :=
  hrun.always_iff (I := Inv M app req) ⟨nofun, fun _ _ => trivial⟩ (fun _ h => h.closed)
    (fun _ _ _ h hok hs => h.step hok hs) fun _ _ _ h hbad hs => h.breaks hbad hs

def demoApp : App where
  apiKey := "secret"
  configured := by decide
  refuse := fun _ => none

/-- Request 0 has the key, the others do not. -/
def demoCalls (i : ℕ) : Request :=
  { demoRequest [] with
    headers := if i = 0 then [("x-api-key", "secret"), ("idempotency-key", "k1")]
      else [("idempotency-key", "k1")] }

theorem demo_standard (i : ℕ) : StandardRefusal demoApp (demoCalls i) := by
  show unauthorized.status ∈ refusalStatuses
  decide

/-- One stranger is turned away with a 401, one by the limiter. -/
theorem no_disclosure_iff_refused : ∃ tr s,
    drive (step demo demoApp {} demoCalls) State.init
      [.arrive 1 true, .inner (.claim 1 .ok), .inner (.finish 1 unauthorized), .arrive 2 false,
        .inner (.store 1 .ok)] = some (tr, s) ∧
      ∀ minted, Always (Closed demo demoApp {} demoCalls minted) tr s := by
  obtain ⟨⟨tr, s⟩, h⟩ : ∃ p, drive (step demo demoApp {} demoCalls) State.init
      [.arrive 1 true, .inner (.claim 1 .ok), .inner (.finish 1 unauthorized), .arrive 2 false,
        .inner (.store 1 .ok)] = some p := ⟨_, rfl⟩
  refine ⟨tr, s, h, fun minted => (no_disclosure_iff (run_of_drive h)).2 fun p hp => ?_⟩
  have hevent := drive_mem h p hp
  simp only [List.mem_cons, List.not_mem_nil, or_false] at hevent
  rcases hevent with he | he | he | he | he <;> rw [he]
  · trivial
  · trivial
  · exact fun _ _ => demo_standard 1
  · trivial
  · exact fun _ => demo_standard 1

/-- A caller without the key repeats an authenticated request and gets its response. -/
theorem no_disclosure_fails : ¬ ∀ (M : Middleware) (app : App) (limit : RateLimit)
    (req : ℕ → Request) (minted : ℕ → String) (tr : List (State × Event)) (s : State),
    Run (Fires (step M app limit req)) State.init tr s → Closed M app limit req minted s := by
  intro hall
  obtain ⟨⟨tr, s⟩, h⟩ : ∃ p, drive (step demo demoApp {} demoCalls) State.init
      [.arrive 0 true, .inner (.claim 0 .ok), .inner (.finish 0 created), .inner (.store 0 .ok),
        .arrive 1 true, .inner (.claim 1 .ok), .inner (.read 1 true)] = some p := ⟨_, rfl⟩
  have hclosed := hall demo demoApp {} demoCalls (fun _ => "") tr s (run_of_drive h)
  have hstranger : Stranger demoApp (demoCalls 1) := ⟨by decide +kernel, by decide +kernel⟩
  have hanswer : s.answer 1 = some (.inner (.replay (replayed
      (capture created (bodyFingerprint demo [])).response))) := by
    obtain ⟨-, rfl⟩ := Prod.mk.inj (Option.some.inj h)
    rfl
  obtain ⟨-, hstatus⟩ := hclosed 1 hstranger _ hanswer
  rw [received, withRequestId_status] at hstatus
  exact absurd hstatus (by decide)

end ReckonFlow.Gateway
