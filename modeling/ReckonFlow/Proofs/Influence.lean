import ReckonFlow.Proofs.Disclosure
import ReckonFlow.Spec.Sequential

/-! The run of all requests against the run of the authenticated ones. The two differ in the
entries strangers wrote; as long as no authenticated request meets such an entry first, it is
answered alike in both and the database stays the same. -/

namespace ReckonFlow.Gateway

open Lts Machine Text

variable {σ : Type} {M : Middleware} {backend : Backend σ} {w a b : World σ} {r : Request}
  {key k : String} {past : List Request}

/-! ## One request -/

/-- What the application leaves under its key. -/
def kept (fp : String) : Option Response → Stored
  | some resp => .json (.obj (capture resp fp).fields)
  | none => claimPayload fp

/-- What the caller of the application gets. -/
def given (fp : String) : Option Response → Outcome
  | some resp => .answered (capture resp fp).response
  | none => .raised

theorem kept_written (fp : String) (answer : Option Response) : (kept fp answer).Written := by
  cases answer
  · exact .claim fp
  · exact .response _

theorem execute_eq (w : World σ) (r : Request) (key : String) :
    execute M backend w r key = (given (bodyFingerprint M r.body) (backend.call w.db r).1,
      World.put { w with db := (backend.call w.db r).2 } key
        (kept (bodyFingerprint M r.body) (backend.call w.db r).1)) := by
  unfold execute
  split
  · rename_i resp db hcall
    rw [hcall]
    simp only [rebuild_fields, given, kept]
  · rename_i db hcall
    rw [hcall]
    rfl

theorem dispatch_unkeyed (hk : keyOf M r = none) :
    (dispatch M backend w r).2 = { w with db := (backend.call w.db r).2 } := by
  unfold dispatch
  rw [hk]
  dsimp only
  split
  · rename_i hcall
    rw [hcall]
  · rename_i hcall
    rw [hcall]

theorem dispatch_unkeyed_answer (hk : keyOf M r = none) (hdb : a.db = b.db) :
    (dispatch M backend a r).1 = (dispatch M backend b r).1 := by
  unfold dispatch
  rw [hk, hdb]
  dsimp only
  split <;> rfl

theorem dispatch_fresh (hk : keyOf M r = some key) (hfree : w.redis key = none) :
    dispatch M backend w r = execute M backend w r key := by
  unfold dispatch
  rw [hk]
  dsimp only
  rw [hfree]

/-- A claim turns every request away. -/
theorem dispatch_claim (hk : keyOf M r = some key) {fp : String}
    (hv : w.redis key = some (claimPayload fp)) :
    dispatch M backend w r = (.conflict (if fp ≠ "" ∧ fp ≠ bodyFingerprint M r.body then
      differentBody else stillProcessing), w) := by
  unfold dispatch
  rw [hk]
  dsimp only
  rw [hv]
  dsimp only
  rw [handleExisting_claim]

/-- A stored response answers requests with its body. -/
theorem dispatch_stored (hk : keyOf M r = some key) {c : CapturedResponse}
    (hv : w.redis key = some (.json (.obj c.fields))) :
    dispatch M backend w r = (if c.fingerprint ≠ "" ∧ c.fingerprint ≠ bodyFingerprint M r.body
      then .conflict differentBody else .replay (replayed c.response), w) := by
  unfold dispatch
  rw [hk]
  dsimp only
  rw [hv]
  dsimp only
  rw [handleExisting_stored]
  split_ifs <;> rfl

/-- An entry stays, and the database with it. -/
theorem dispatch_held (hk : keyOf M r = some key) {v : Stored} (hv : w.redis key = some v)
    (hw : v.Written) : (dispatch M backend w r).2 = w := by
  cases hw with
  | claim fp => rw [dispatch_claim hk hv]
  | response c => rw [dispatch_stored hk hv]

/-- The same entry answers alike, whatever the database. -/
theorem dispatch_same (hk : keyOf M r = some key) {v : Stored} (ha : a.redis key = some v)
    (hb : b.redis key = some v) (hw : v.Written) :
    (dispatch M backend a r).1 = (dispatch M backend b r).1 := by
  cases hw with
  | claim fp => rw [dispatch_claim hk ha, dispatch_claim hk hb]
  | response c => rw [dispatch_stored hk ha, dispatch_stored hk hb]

/-- No handler runs for a stranger. -/
theorem call_stranger (h : backend.authenticated r = false) (db : σ) :
    (backend.call db r).2 = db := by
  have hpass : backend.checkKey r ≠ .pass := by simpa [App.authenticated] using h
  unfold Backend.call
  split
  · rfl
  · split_ifs
    · split
      · rename_i hgate
        exact absurd hgate hpass
      · rfl
      · rfl
    · rfl

/-! ## Requests one after another as a run -/

section Run

variable {req : ℕ → Request} {s s' : ReckonFlow.State} {i : ℕ} {o : Outcome}
  {redis : String → Option Stored}

/-- What the keys hold, without the ghost writers. -/
def Holds (s : ReckonFlow.State) (redis : String → Option Stored) : Prop :=
  ∀ k, (s.redis k).map (·.value) = redis k

theorem Holds.put (h : ∀ k, k ≠ key → (s.redis k).map (·.value) = redis k) (en : Option Entry) :
    Holds (s.put key en) (Function.update redis key (en.map (·.value))) := by
  intro k
  by_cases hk : k = key
  · subst hk
    rw [put_self, Function.update_self]
  · rw [put_other en hk, Function.update_of_ne hk, h k hk]

/-- Request `i` alone can be taken from `s` to its end `o`, leaving `redis`. -/
def Ends (M : Middleware) (req : ℕ → Request) (s : ReckonFlow.State) (i : ℕ) (o : Outcome)
    (redis : String → Option Stored) : Prop :=
  ∃ tr s', Run (Fires (dispatchStep M req)) s tr s' ∧ s'.phase i = .ended o ∧
    (∀ j, j ≠ i → s'.phase j = s.phase j) ∧ Holds s' redis

theorem Ends.of_step {e : ReckonFlow.Event} (h : Ends M req s' i o redis)
    (hs : dispatchStep M req s e = some s') (ha : e.actor = some i) : Ends M req s i o redis := by
  obtain ⟨tr, t, hrun, ho, hothers, hredis⟩ := h
  refine ⟨(s, e) :: tr, t, hrun.cons hs, ho, fun j hj => ?_, hredis⟩
  rw [hothers j hj, (dispatchStep_frame ha hs).1 j hj]

theorem ends_now (hp : s.phase i = .ended o) (hv : Holds s redis) : Ends M req s i o redis :=
  ⟨[], s, .nil, hp, fun _ _ => rfl, hv⟩

/-- The application under a claim. -/
theorem ends_execute (hk : keyOf M (req i) = some key) (hp : s.phase i = .running true)
    (hclaim : (s.redis key).map (·.value) = some (claimPayload (bodyFingerprint M (req i).body)))
    (hv : ∀ k, k ≠ key → (s.redis k).map (·.value) = w.redis k) :
    Ends M req s i (execute M backend w (req i) key).1
      (execute M backend w (req i) key).2.redis := by
  rw [execute_eq]
  cases (backend.call w.db (req i)).1 with
  | none =>
    have hs : dispatchStep M req s (.raise i) = some (s.setPhase i (.ended .raised)) := by
      simp only [dispatchStep, hp]
    refine (ends_now (setPhase_self ..) fun k => ?_).of_step hs rfl
    show (s.redis k).map (·.value) =
      Function.update w.redis key (some (claimPayload (bodyFingerprint M (req i).body))) k
    by_cases hkey : k = key
    · subst hkey
      rw [hclaim, Function.update_self]
    · rw [hv k hkey, Function.update_of_ne hkey]
  | some resp =>
    have hfinish : dispatchStep M req s (.finish i resp) =
        some (s.setPhase i (.storing (capture resp (bodyFingerprint M (req i).body)))) := by
      simp only [dispatchStep, hp]
    have hstore : dispatchStep M req
        (s.setPhase i (.storing (capture resp (bodyFingerprint M (req i).body)))) (.store i .ok) =
        some (((s.setPhase i (.storing (capture resp (bodyFingerprint M (req i).body)))).put key
          (storedOf (capture resp (bodyFingerprint M (req i).body)) i)).setPhase i
            (.ended (.answered (capture resp (bodyFingerprint M (req i).body)).response))) := by
      simp only [dispatchStep, setPhase_self, hk, rebuild_fields]
      rfl
    refine ((ends_now (setPhase_self ..) ?_).of_step hstore rfl).of_step hfinish rfl
    exact Holds.put hv _

/-- The application without a claim. -/
theorem ends_unkeyed (hk : keyOf M (req i) = none) (hp : s.phase i = .idle)
    (hv : Holds s w.redis) : Ends M req s i (dispatch M backend w (req i)).1
      (dispatch M backend w (req i)).2.redis := by
  have hpass : dispatchStep M req s (.pass i) = some (s.start i false) := by
    simp only [dispatchStep, hp, hk]
  refine Ends.of_step ?_ hpass rfl
  unfold dispatch
  rw [hk]
  dsimp only
  split
  · rename_i resp db hcall
    have hs : dispatchStep M req (s.start i false) (.finish i resp) =
        some ((s.start i false).setPhase i (.ended (.passed resp))) := by
      simp only [dispatchStep, start_self]
    have hend : Ends M req ((s.start i false).setPhase i (.ended (.passed resp))) i (.passed resp)
        w.redis := ends_now (setPhase_self ..) hv
    exact hend.of_step hs rfl
  · have hs : dispatchStep M req (s.start i false) (.raise i) =
        some ((s.start i false).setPhase i (.ended .raised)) := by
      simp only [dispatchStep, start_self]
    have hend : Ends M req ((s.start i false).setPhase i (.ended .raised)) i .raised w.redis :=
      ends_now (setPhase_self ..) hv
    exact hend.of_step hs rfl

theorem handleExisting_ne_reclaim (fp : String) (v : Stored) :
    handleExisting fp (some v) ≠ .reclaim := by
  intro h
  cases v with
  | sentinel => cases h
  | malformed => cases h
  | unloadable => cases h
  | json j =>
    cases j with
    | obj payload =>
      simp only [handleExisting] at h
      split_ifs at h
      cases hrebuild : rebuild payload with
      | none => simp only [hrebuild, reduceCtorEq] at h
      | some r => simp only [hrebuild, reduceCtorEq] at h
    | _ => cases h

/-- `dispatch` served alone is a run of the interleaved middleware in which every Redis call
is answered. -/
theorem dispatch_ends (hp : s.phase i = .idle) (hv : Holds s w.redis) :
    Ends M req s i (dispatch M backend w (req i)).1 (dispatch M backend w (req i)).2.redis := by
  cases hk : keyOf M (req i) with
  | none => exact ends_unkeyed hk hp hv
  | some key =>
    have hown : ∀ t : ReckonFlow.State, (∀ k, k ≠ key → t.redis k = s.redis k) →
        Ends M req ((t.put key (claimOf M (req i) i)).start i true) i
          (execute M backend w (req i) key).1 (execute M backend w (req i) key).2.redis := by
      intro t ht
      refine ends_execute hk (start_self ..) ?_ fun k hkey => ?_
      · rw [start_redis, put_self]
        rfl
      · rw [start_redis, put_other _ hkey, ht k hkey]
        exact hv k
    have hvalue := hv key
    unfold dispatch
    rw [hk]
    dsimp only
    cases hr : s.redis key with
    | none =>
      rw [hr] at hvalue
      rw [← hvalue]
      have hclaim : dispatchStep M req s (.claim i .ok) =
          some ((s.put key (claimOf M (req i) i)).start i true) := by
        simp only [dispatchStep, hp, hk, hr]
      exact (hown s fun _ _ => rfl).of_step hclaim rfl
    | some en =>
      rw [hr] at hvalue
      rw [← hvalue]
      dsimp only [Option.map_some]
      have hclaim : dispatchStep M req s (.claim i .ok) = some (s.setPhase i (.reading false)) := by
        simp only [dispatchStep, hp, hk, hr]
      have hread : dispatchStep M req (s.setPhase i (.reading false)) (.read i true) =
          some ((s.setPhase i (.reading false)).setPhase i (afterRead false
            (handleExisting (bodyFingerprint M (req i).body) (some en.value)))) := by
        simp only [dispatchStep, setPhase_self, hk, setPhase_redis, hr, Option.map_some, if_true]
      refine Ends.of_step (Ends.of_step ?_ hread rfl) hclaim rfl
      cases hexisting : handleExisting (bodyFingerprint M (req i).body) (some en.value) with
      | reclaim => exact absurd hexisting (handleExisting_ne_reclaim _ _)
      | discard =>
        have hdelete : dispatchStep M req ((s.setPhase i (.reading false)).setPhase i
            (.deleting false)) (.delete i .ok) = some ((((s.setPhase i (.reading false)).setPhase i
              (.deleting false)).put key none).setPhase i .reclaiming) := by
          simp only [dispatchStep, setPhase_self, hk]
          rfl
        have hreclaim : dispatchStep M req ((((s.setPhase i (.reading false)).setPhase i
            (.deleting false)).put key none).setPhase i .reclaiming) (.reclaim i .ok) =
            some ((((((s.setPhase i (.reading false)).setPhase i (.deleting false)).put key
              none).setPhase i .reclaiming).put key (claimOf M (req i) i)).start i true) := by
          simp only [dispatchStep, setPhase_self, hk, setPhase_redis, put_self]
        refine Ends.of_step (Ends.of_step (hown _ fun k hkey => ?_) hreclaim rfl) hdelete rfl
        rw [setPhase_redis, put_other _ hkey]
        rfl
      | conflict detail => exact ends_now (setPhase_self ..) hv
      | replay resp => exact ends_now (setPhase_self ..) hv
      | crash => exact ends_now (setPhase_self ..) hv

/-- So is a list of requests. -/
theorem serve_run {rs : List Request} {n : ℕ} (hreq : ∀ j (hj : j < rs.length), req (n + j) = rs[j])
    (hidle : ∀ j, n ≤ j → s.phase j = .idle) (hv : Holds s w.redis) :
    ∃ tr s', Run (Fires (dispatchStep M req)) s tr s' ∧
      (∀ j p, (serve (dispatch M backend) w rs).1[j]? = some p → s'.phase (n + j) = .ended p.2) ∧
      (∀ j, j < n → s'.phase j = s.phase j) ∧ Holds s' (serve (dispatch M backend) w rs).2.redis := by
  induction rs generalizing n s w with
  | nil => exact ⟨[], s, .nil, nofun, fun _ _ => rfl, hv⟩
  | cons r rs ih =>
    obtain rfl : req n = r := hreq 0 (Nat.zero_lt_succ _)
    obtain ⟨tr, t, hrun, ho, hothers, ht⟩ := dispatch_ends (hidle n le_rfl) hv
    have hnext : ∀ j (hj : j < rs.length), req (n + 1 + j) = rs[j] := by
      intro j hj
      rw [Nat.add_assoc, Nat.add_comm 1 j]
      exact hreq (j + 1) (Nat.succ_lt_succ hj)
    have hidle' : ∀ j, n + 1 ≤ j → t.phase j = .idle := by
      intro j hj
      rw [hothers j (by omega)]
      exact hidle j (by omega)
    obtain ⟨tr', s', hrun', hended, hbefore, hs'⟩ := ih hnext hidle' ht
    refine ⟨tr ++ tr', s', hrun.append hrun', fun j p hp => ?_, fun j hj => ?_, hs'⟩
    · cases j with
      | zero =>
        obtain rfl := Option.some.inj hp
        rw [Nat.add_zero, hbefore n (Nat.lt_succ_self n)]
        exact ho
      | succ j =>
        rw [Nat.add_comm j 1, ← Nat.add_assoc]
        exact hended j p hp
    · rw [hbefore j (by omega), hothers j (by omega)]

end Run

/-! ## The condition -/

/-- The first request of `past` under a key. -/
def firstOf (M : Middleware) (past : List Request) (key : String) : Option Request :=
  past.find? fun r => keyOf M r = some key

/-- No request of `past` under the key is authenticated. -/
def StrangersOnly (M : Middleware) (backend : Backend σ) (past : List Request) (key : String) :
    Prop :=
  ∀ r ∈ past, keyOf M r = some key → backend.authenticated r = false

/-- Where strangers alone have used the key of `q` so far, the framework itself refuses `q`, and
refused the first of them, with the same body, in the same way. -/
def Harmless (M : Middleware) (backend : Backend σ) (w : World σ) (past : List Request)
    (q : Request) : Prop :=
  ∀ key u, keyOf M q = some key → w.redis key = none → firstOf M past key = some u →
    StrangersOnly M backend past key →
    bodyFingerprint M u.body = bodyFingerprint M q.body ∧
      ∃ x y, backend.refuse u = some x ∧ backend.refuse q = some y ∧ x.status = y.status ∧
        x.body = y.body

/-- Authenticated requests receive the same status and body whether or not the others are
sent, and leave the same database. -/
def Uninfluenced (M : Middleware) (backend : Backend σ) (w : World σ) (rs : List Request) :
    Prop :=
  let full := serve (dispatch M backend) w rs
  let alone := serve (dispatch M backend) w (rs.filter backend.authenticated)
  (full.1.filter fun p => backend.authenticated p.1).map (fun p => (p.1, statusAndBody p.2)) =
      alone.1.map (fun p => (p.1, statusAndBody p.2)) ∧
    full.2.db = alone.2.db

/-! ## The relation -/

/-- What the two runs hold under one key. -/
inductive Alike (M : Middleware) (backend : Backend σ) (w : World σ) (past : List Request)
    (key : String) : Option Stored → Option Stored → Prop
  | unused : w.redis key = none → (∀ r ∈ past, keyOf M r ≠ some key) →
      Alike M backend w past key none none
  | same (v : Stored) : Alike M backend w past key (some v) (some v)
  /-- the first stranger's entry, missing in the other run -/
  | stranger (u : Request) (v : Stored) : w.redis key = none → firstOf M past key = some u →
      StrangersOnly M backend past key →
      (∀ x, backend.refuse u = some x →
        v = .json (.obj (capture x (bodyFingerprint M u.body)).fields)) →
      Alike M backend w past key (some v) none
  | twins (c d : CapturedResponse) : c.fingerprint = d.fingerprint →
      c.statusCode = d.statusCode → c.body = d.body →
      Alike M backend w past key (some (.json (.obj c.fields))) (some (.json (.obj d.fields)))

/-- The full run after `past` and the run of its authenticated requests, both from `w`. -/
structure Similar (M : Middleware) (backend : Backend σ) (w : World σ) (past : List Request)
    (a b : World σ) : Prop where
  db : a.db = b.db
  written : ∀ key v, a.redis key = some v → v.Written
  alike : ∀ key, Alike M backend w past key (a.redis key) (b.redis key)

theorem firstOf_append_of_ne (hr : keyOf M r ≠ some key) :
    firstOf M (past ++ [r]) key = firstOf M past key := by
  simp [firstOf, List.find?_append, hr]

theorem firstOf_append_of_some {u : Request} (h : firstOf M past key = some u) (r : Request) :
    firstOf M (past ++ [r]) key = some u := by
  unfold firstOf at h ⊢
  rw [List.find?_append, h, Option.some_or]

theorem firstOf_append_of_unused (h : ∀ r ∈ past, keyOf M r ≠ some key)
    (hr : keyOf M r = some key) : firstOf M (past ++ [r]) key = some r := by
  have hnone : past.find? (fun r => keyOf M r = some key) = none :=
    List.find?_eq_none.2 fun r hm => by simpa using h r hm
  unfold firstOf
  rw [List.find?_append, hnone]
  simp [hr]

theorem StrangersOnly.append (h : StrangersOnly M backend past key)
    (hr : keyOf M r = some key → backend.authenticated r = false) :
    StrangersOnly M backend (past ++ [r]) key := by
  intro q hq hkey
  rcases List.mem_append.1 hq with hq | hq
  · exact h q hq hkey
  · obtain rfl := List.mem_singleton.1 hq
    exact hr hkey

/-- A request of another key changes nothing. -/
theorem Alike.append_of_ne {v v' : Option Stored} (h : Alike M backend w past key v v')
    (hr : keyOf M r ≠ some key) : Alike M backend w (past ++ [r]) key v v' := by
  cases h with
  | unused h0 hpast =>
    refine .unused h0 fun q hq => ?_
    rcases List.mem_append.1 hq with hq | hq
    · exact hpast q hq
    · exact List.mem_singleton.1 hq ▸ hr
  | same v => exact .same v
  | stranger u v h0 hu honly hv =>
    exact .stranger u v h0 (by rwa [firstOf_append_of_ne hr])
      (honly.append fun hkey => absurd hkey hr) hv
  | twins c d hfp hstatus hbody => exact .twins c d hfp hstatus hbody

/-- A stranger finds the entry taken. -/
theorem Alike.append_stranger {v : Stored} {v' : Option Stored}
    (h : Alike M backend w past key (some v) v') (hr : backend.authenticated r = false) :
    Alike M backend w (past ++ [r]) key (some v) v' := by
  cases h with
  | same v => exact .same v
  | stranger u v h0 hu honly hv =>
    exact .stranger u v h0 (firstOf_append_of_some hu r) (honly.append fun _ => hr) hv
  | twins c d hfp hstatus hbody => exact .twins c d hfp hstatus hbody

/-! ## The steps -/

/-- Only the key of the request changes. -/
theorem dispatch_other (w : World σ) (hk : keyOf M r = some key) (hne : k ≠ key)
    (hw : ∀ v, w.redis key = some v → v.Written) :
    (dispatch M backend w r).2.redis k = w.redis k := by
  cases hv : w.redis key with
  | none =>
    rw [dispatch_fresh hk hv, execute_eq]
    exact Function.update_of_ne hne _ _
  | some v => rw [dispatch_held hk hv (hw v hv)]

theorem dispatch_fresh_self (hk : keyOf M r = some key) (hfree : w.redis key = none) :
    (dispatch M backend w r).2.redis key =
      some (kept (bodyFingerprint M r.body) (backend.call w.db r).1) := by
  rw [dispatch_fresh hk hfree, execute_eq]
  exact Function.update_self _ _ _

theorem dispatch_fresh_db (hk : keyOf M r = some key) (hfree : w.redis key = none) :
    (dispatch M backend w r).2.db = (backend.call w.db r).2 := by
  rw [dispatch_fresh hk hfree, execute_eq]
  rfl

/-- Entries stay of the middleware's own making. -/
theorem dispatch_written (w : World σ) (hw : ∀ key v, w.redis key = some v → v.Written)
    (r : Request) : ∀ key v, (dispatch M backend w r).2.redis key = some v → v.Written := by
  intro k v hv
  cases hk : keyOf M r with
  | none =>
    rw [dispatch_unkeyed hk] at hv
    exact hw k v hv
  | some key =>
    by_cases hne : k = key
    · subst hne
      cases hold : w.redis k with
      | none =>
        rw [dispatch_fresh_self hk hold] at hv
        exact Option.some.inj hv ▸ kept_written _ _
      | some old =>
        rw [dispatch_held hk hold (hw k old hold)] at hv
        exact hw k v hv
    · rw [dispatch_other w hk hne (hw key)] at hv
      exact hw k v hv

/-- No database is written for a stranger. -/
theorem dispatch_stranger_db (w : World σ) (hw : ∀ key v, w.redis key = some v → v.Written)
    (hr : backend.authenticated r = false) : (dispatch M backend w r).2.db = w.db := by
  cases hk : keyOf M r with
  | none =>
    rw [dispatch_unkeyed hk]
    exact call_stranger hr w.db
  | some key =>
    cases hv : w.redis key with
    | none =>
      rw [dispatch_fresh_db hk hv]
      exact call_stranger hr w.db
    | some v => rw [dispatch_held hk hv (hw key v hv)]

/-- A stranger's request, sent in the full run only. -/
theorem Similar.drop (h : Similar M backend w past a b) (hr : backend.authenticated r = false) :
    Similar M backend w (past ++ [r]) (dispatch M backend a r).2 b := by
  refine ⟨by rw [dispatch_stranger_db a h.written hr, h.db], dispatch_written a h.written r,
    fun k => ?_⟩
  cases hk : keyOf M r with
  | none =>
    rw [dispatch_unkeyed hk]
    exact (h.alike k).append_of_ne (by simp [hk])
  | some key =>
    by_cases hne : k = key
    · subst hne
      have halike := h.alike k
      cases hv : a.redis k with
      | some v =>
        rw [dispatch_held hk hv (h.written k v hv), hv]
        exact (hv ▸ halike).append_stranger hr
      | none =>
        rw [hv] at halike
        rw [dispatch_fresh_self hk hv]
        -- the first stranger under this key leaves its own answer there
        generalize b.redis k = v' at halike ⊢
        cases halike with
        | unused h0 hpast =>
          refine .stranger r _ h0 (firstOf_append_of_unused hpast hk) ?_ fun x hx => ?_
          · intro q hq hkey
            rcases List.mem_append.1 hq with hq | hq
            · exact absurd hkey (hpast q hq)
            · exact List.mem_singleton.1 hq ▸ hr
          · rw [show backend.call a.db r = (some x, a.db) by simp only [Backend.call, hx]]
            rfl
    · rw [dispatch_other a hk hne (h.written key)]
      exact (h.alike k).append_of_ne (by simpa [hk] using Ne.symm hne)

/-- Twins answer alike and stay. -/
theorem dispatch_twins (hk : keyOf M r = some key) {c d : CapturedResponse}
    (ha : a.redis key = some (.json (.obj c.fields)))
    (hb : b.redis key = some (.json (.obj d.fields))) (hfp : c.fingerprint = d.fingerprint)
    (hstatus : c.statusCode = d.statusCode) (hbody : c.body = d.body) :
    statusAndBody (dispatch M backend a r).1 = statusAndBody (dispatch M backend b r).1 := by
  have hreplay : statusAndBody (.replay (replayed c.response)) =
      statusAndBody (.replay (replayed d.response)) := by
    show (c.statusCode, encodeUtf8 c.body) = (d.statusCode, encodeUtf8 d.body)
    rw [hstatus, hbody]
  rw [dispatch_stored hk ha, dispatch_stored hk hb, hfp]
  split_ifs
  · rfl
  · exact hreplay

/-- A refusal that repeats the stranger's own is replayed in one run and made in the other. -/
theorem Similar.refused (h : Similar M backend w past a b) (hk : keyOf M r = some key)
    {u : Request} {x y : Response} (hb : b.redis key = none)
    (ha : a.redis key =
      some (.json (.obj (capture x (bodyFingerprint M u.body)).fields)))
    (hfp : bodyFingerprint M u.body = bodyFingerprint M r.body) (hy : backend.refuse r = some y)
    (hstatus : x.status = y.status) (hbody : x.body = y.body) :
    statusAndBody (dispatch M backend a r).1 = statusAndBody (dispatch M backend b r).1 ∧
      (dispatch M backend a r).2 = a ∧ (dispatch M backend b r).2.db = b.db ∧
      (dispatch M backend b r).2.redis key =
        some (.json (.obj (capture y (bodyFingerprint M r.body)).fields)) := by
  have hcall : backend.call b.db r = (some y, b.db) := by simp only [Backend.call, hy]
  refine ⟨?_, dispatch_held hk ha (h.written key _ ha), ?_, ?_⟩
  · have hsame : ¬ ((capture x (bodyFingerprint M u.body)).fingerprint ≠ "" ∧
        (capture x (bodyFingerprint M u.body)).fingerprint ≠ bodyFingerprint M r.body) :=
      fun hne => hne.2 hfp
    rw [dispatch_stored hk ha, if_neg hsame, dispatch_fresh hk hb, execute_eq, hcall]
    show (x.status, encodeUtf8 (decodeUtf8 x.body)) = (y.status, encodeUtf8 (decodeUtf8 y.body))
    rw [hstatus, hbody]
  · rw [dispatch_fresh_db hk hb, hcall]
  · rw [dispatch_fresh_self hk hb, hcall]
    rfl

/-- An authenticated request under a key, sent in both runs. -/
theorem Similar.keep_keyed (h : Similar M backend w past a b) (hk : keyOf M r = some key)
    (hok : Harmless M backend w past r) :
    statusAndBody (dispatch M backend a r).1 = statusAndBody (dispatch M backend b r).1 ∧
      (dispatch M backend a r).2.db = (dispatch M backend b r).2.db ∧
      Alike M backend w (past ++ [r]) key ((dispatch M backend a r).2.redis key)
        ((dispatch M backend b r).2.redis key) := by
  have halike := h.alike key
  have hwritten := h.written key
  generalize ha : a.redis key = v at halike hwritten
  generalize hb : b.redis key = v' at halike
  cases halike with
  | unused h0 hpast =>
    rw [dispatch_fresh hk ha, dispatch_fresh hk hb, execute_eq, execute_eq, h.db]
    refine ⟨rfl, rfl, ?_⟩
    simp only [World.put, Function.update_self]
    exact .same _
  | same v =>
    have hv := hwritten v rfl
    rw [dispatch_same hk ha hb hv, dispatch_held hk ha hv, dispatch_held hk hb hv, ha, hb]
    exact ⟨rfl, h.db, .same v⟩
  | stranger u v h0 hu honly hrefused =>
    obtain ⟨hfp, x, y, hx, hy, hstatus, hbody⟩ := hok key u hk h0 hu honly
    obtain rfl := hrefused x hx
    obtain ⟨hanswer, hsame, hdb, hentry⟩ := h.refused hk hb ha hfp hy hstatus hbody
    refine ⟨hanswer, by rw [hsame, hdb, h.db], ?_⟩
    rw [hsame, ha, hentry]
    exact .twins _ _ hfp hstatus (congrArg decodeUtf8 hbody)
  | twins c d hfp hstatus hbody =>
    have hd : (dispatch M backend b r).2 = b := dispatch_held hk hb (.response d)
    rw [dispatch_held hk ha (.response c), hd, ha, hb]
    exact ⟨dispatch_twins hk ha hb hfp hstatus hbody, h.db, .twins c d hfp hstatus hbody⟩

/-- An authenticated request, sent in both runs. -/
theorem Similar.keep (h : Similar M backend w past a b) (hok : Harmless M backend w past r) :
    statusAndBody (dispatch M backend a r).1 = statusAndBody (dispatch M backend b r).1 ∧
      Similar M backend w (past ++ [r]) (dispatch M backend a r).2 (dispatch M backend b r).2 := by
  have hwritten : ∀ key v, (dispatch M backend a r).2.redis key = some v → v.Written :=
    dispatch_written a h.written r
  cases hk : keyOf M r with
  | none =>
    refine ⟨congrArg statusAndBody (dispatch_unkeyed_answer hk h.db), ?_, hwritten, fun k => ?_⟩
    · rw [dispatch_unkeyed hk, dispatch_unkeyed hk, h.db]
    · rw [dispatch_unkeyed hk, dispatch_unkeyed hk]
      exact (h.alike k).append_of_ne (by simp [hk])
  | some key =>
    obtain ⟨hanswer, hdb, hkey⟩ := h.keep_keyed hk hok
    refine ⟨hanswer, hdb, hwritten, fun k => ?_⟩
    by_cases hne : k = key
    · exact hne ▸ hkey
    · have hb : ∀ v, b.redis key = some v → v.Written := by
        intro v hv
        have halike := h.alike key
        have ha := h.written key
        rw [hv] at halike
        generalize a.redis key = v' at halike ha
        cases halike with
        | same v => exact ha v rfl
        | twins c d => exact .response d
      rw [dispatch_other a hk hne (h.written key), dispatch_other b hk hne hb]
      exact (h.alike k).append_of_ne (by simpa [hk] using Ne.symm hne)

/-- Strangers do not influence authenticated requests, as long as none of these meets first
what a stranger left under its key. -/
theorem uninfluenced {rs : List Request} (hw : ∀ key v, w.redis key = some v → v.Written)
    (hok : ∀ before q after, rs = before ++ q :: after → backend.authenticated q = true →
      Harmless M backend w before q) : Uninfluenced M backend w rs := by
  have hstart : Similar M backend w [] w w := by
    refine ⟨rfl, hw, fun key => ?_⟩
    cases hv : w.redis key with
    | none => exact .unused hv nofun
    | some v => exact .same v
  have hdrop : ∀ past a b r, backend.authenticated r = false → Similar M backend w past a b →
      Similar M backend w (past ++ [r]) (dispatch M backend a r).2 b :=
    fun _ _ _ _ hr h => h.drop hr
  have hkeep : ∀ past a b r, backend.authenticated r = true → Harmless M backend w past r →
      Similar M backend w past a b →
      statusAndBody (dispatch M backend a r).1 = statusAndBody (dispatch M backend b r).1 ∧
        Similar M backend w (past ++ [r]) (dispatch M backend a r).2 (dispatch M backend b r).2 :=
    fun _ _ _ _ _ hok h => h.keep hok
  obtain ⟨hanswers, hfinal⟩ := unwinding hdrop hkeep hstart hok
  exact ⟨hanswers, hfinal.db⟩

/-- Handlers that answer 201 and count themselves. -/
def demoBackend : Backend ℕ where
  toApp := demoApp
  handle := fun _ n => (some created, n + 1)
  probe := fun _ _ => none

def demoWorld : World ℕ := ⟨fun _ => none, 0⟩

/-- The key is right, the idempotency key another one. -/
def otherCall : Request :=
  { demoCalls 0 with headers := [("x-api-key", "secret"), ("idempotency-key", "k2")] }

/-- A stranger under one key, an authenticated caller twice under another. -/
theorem uninfluenced_apart :
    Uninfluenced demo demoBackend demoWorld [demoCalls 1, otherCall, otherCall] := by
  have hown : ∀ u ∈ [demoCalls 1, otherCall, otherCall], ∀ q ∈ [demoCalls 1, otherCall, otherCall],
      demoBackend.authenticated q = true → keyOf demo u = keyOf demo q →
      demoBackend.authenticated u = true := by decide +kernel
  refine uninfluenced nofun fun before q after hsplit hq key u hk _ hu honly => ?_
  have hu' : u ∈ before := List.mem_of_find?_eq_some hu
  have hkey : keyOf demo u = some key := by simpa using List.find?_some hu
  have hstranger := honly u hu' hkey
  rw [hown u (hsplit ▸ List.mem_append_left _ hu') q (hsplit ▸ by simp) hq
    (hkey.trans hk.symm)] at hstranger
  cases hstranger

/-- A stranger's 401 answers the authenticated request, whose handler never runs. -/
theorem uninfluenced_fails : ¬ ∀ (σ : Type) (M : Middleware) (backend : Backend σ) (w : World σ)
    (rs : List Request), (∀ key v, w.redis key = some v → v.Written) →
    Uninfluenced M backend w rs := by
  intro hall
  obtain ⟨-, hdb⟩ := hall ℕ demo demoBackend demoWorld [demoCalls 1, demoCalls 0] nofun
  exact absurd hdb (by decide +kernel)

end ReckonFlow.Gateway
