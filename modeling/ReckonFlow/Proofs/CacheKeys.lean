import ReckonFlow.Lib.Joined
import ReckonFlow.Proofs.Idempotency

/-! The Redis key of a request: method, URL path and client key between colons, of which URL path
and client key may contain colons themselves. The URL path is the routed path less what `urlsplit`
drops, so two routes may share it. -/

namespace ReckonFlow

open Joined Lts

variable {M : Middleware} {req : ℕ → Request} {s s' : State} {e : Event} {key : String}

/-- Nothing to drop and nothing to cut. -/
structure PlainPath (path : String) : Prop where
  slash : path.toList.head? = some '/'
  chars : ∀ c ∈ path.toList, c ∉ ['\t', '\r', '\n'] ∧ c ∉ ['?', '#']

theorem urlPath_of_plain {path : String} (h : PlainPath path) : urlPath path = path := by
  obtain ⟨cs, hcs⟩ := List.head?_eq_some_iff.1 h.slash
  have hfilter : (path.toList.filter fun c => c ∉ ['\t', '\r', '\n']) = path.toList :=
    List.filter_eq_self.2 fun c hc => decide_eq_true (h.chars c hc).1
  have hdrop : (path.toList.dropWhile fun c => c ∉ ['/', '?', '#']) = path.toList := by
    rw [hcs, List.dropWhile_cons_of_neg (by decide)]
  have htake : (path.toList.takeWhile fun c => c ∉ ['?', '#']) = path.toList :=
    List.takeWhile_eq_self_iff.2 fun c hc => decide_eq_true (h.chars c hc).2
  rw [urlPath, hfilter, hdrop, htake, String.ofList_toList]

example : urlPath "/api/v1/accounts?x" = "/api/v1/accounts" ∧ urlPath "/a\tb#c" = "/ab" := by decide

/-- The path `q` goes on after `p`, and the client key `k` begins with the rest of it. -/
def Overlaps (p k q k' : String) : Prop := ∃ x, q = p ++ ":" ++ x ∧ k = x ++ ":" ++ k'

theorem overlaps_iff {p k q k' : String} :
    Overlaps p k q k' ↔ Shifted ':' p.toList k.toList q.toList k'.toList := by
  constructor
  · rintro ⟨x, rfl, rfl⟩
    exact ⟨x.toList, by simp, by simp⟩
  · rintro ⟨x, hq, hk⟩
    refine ⟨String.ofList x, ?_, ?_⟩
    · rw [← String.toList_inj, hq]
      simp
    · rw [← String.toList_inj, hk]
      simp

theorem colon_notMem {m : String} (h : m ∈ mutatingMethods) : ':' ∉ m.toList := by
  simp only [mutatingMethods, List.mem_cons, List.not_mem_nil, or_false] at h
  rcases h with rfl | rfl | rfl | rfl <;> decide

theorem buildCacheKey_toList (r : Request) (k : String) :
    (buildCacheKey M r k).toList = (M.keyPrefix ++ "idempotency:").toList ++
      (r.method.toList ++ ':' :: ((urlPath r.path).toList ++ ':' :: k.toList)) := by
  simp [buildCacheKey]

/-- Two mutating requests have one cache key iff they are the same request to it, or a colon
of one URL path is the separator of the other key. -/
theorem buildCacheKey_eq_iff {r r' : Request} {k k' : String} (hr : r.method ∈ mutatingMethods)
    (hr' : r'.method ∈ mutatingMethods) :
    buildCacheKey M r k = buildCacheKey M r' k' ↔ r.method = r'.method ∧
      ((urlPath r.path = urlPath r'.path ∧ k = k') ∨
        Overlaps (urlPath r.path) k (urlPath r'.path) k' ∨
        Overlaps (urlPath r'.path) k' (urlPath r.path) k) := by
  rw [← String.toList_inj, buildCacheKey_toList, buildCacheKey_toList, List.append_cancel_left_eq,
    overlaps_iff, overlaps_iff, ← String.toList_inj, ← String.toList_inj, ← String.toList_inj,
    ← join_eq_iff]
  constructor
  · exact join_inj (colon_notMem hr) (colon_notMem hr')
  · rintro ⟨hm, hp⟩
    rw [hm, hp]

theorem not_overlaps_of_colon {p k q k' : String} (h : ':' ∉ q.toList) : ¬ Overlaps p k q k' := by
  rintro ⟨x, rfl, -⟩
  simp at h

/-- Plain paths without a colon have keys of their own, whatever the client keys. -/
theorem buildCacheKey_inj {r r' : Request} {k k' : String} (hr : r.method ∈ mutatingMethods)
    (hr' : r'.method ∈ mutatingMethods) (hp : PlainPath r.path) (hp' : PlainPath r'.path)
    (hcolon : ':' ∉ r.path.toList) (hcolon' : ':' ∉ r'.path.toList)
    (h : buildCacheKey M r k = buildCacheKey M r' k') :
    r.method = r'.method ∧ r.path = r'.path ∧ k = k' := by
  rw [buildCacheKey_eq_iff hr hr', urlPath_of_plain hp, urlPath_of_plain hp'] at h
  obtain ⟨hm, hsame | ho | ho⟩ := h
  · exact ⟨hm, hsame⟩
  · exact absurd ho (not_overlaps_of_colon hcolon')
  · exact absurd ho (not_overlaps_of_colon hcolon)

/-! ## What is replayed -/

variable (M req) in
/-- Every entry a request wrote stands under the key of that request. -/
def OwnKeys (s : State) : Prop :=
  ∀ key en j, s.redis key = some en → en.writer = some j → keyOf M (req j) = some key

theorem OwnKeys.step (h : OwnKeys M req s) (hs : dispatchStep M req s e = some s') :
    OwnKeys M req s' := by
  intro key en j hen hj
  rcases entry_of_dispatch hs hen with hold | ⟨i, hk, rfl | ⟨a, c, -, -, -, rfl⟩⟩
  · exact h key en j hold hj
  · obtain rfl : i = j := Option.some.inj hj
    exact hk
  · obtain rfl : i = j := Option.some.inj hj
    exact hk

variable (M req) in
/-- The next read of request `i` is answered with what request `j` stored. -/
def Replays (s : State) (i j : ℕ) : Prop :=
  ∃ s' r key en, dispatchStep M req s (.read i true) = some s' ∧ s'.phase i = .ended (.replay r) ∧
    keyOf M (req i) = some key ∧ s.redis key = some en ∧ en.writer = some j

theorem Replays.keyOf_eq {i j : ℕ} (h : Replays M req s i j) (hI : OwnKeys M req s) :
    keyOf M (req i) = keyOf M (req j) := by
  obtain ⟨-, -, key, en, -, -, hi, hen, hj⟩ := h
  rw [hi, hI key en j hen hj]

theorem buildCacheKey_of_keyOf {i j : ℕ} {k k' : String}
    (hk : (req i).header idempotencyHeader = some k)
    (hk' : (req j).header idempotencyHeader = some k') (hkey : keyOf M (req i) = some key)
    (he : keyOf M (req i) = keyOf M (req j)) :
    buildCacheKey M (req i) k = buildCacheKey M (req j) k' := by
  rw [he] at hkey
  have hj := hkey
  rw [← he] at hkey
  simp only [keyOf, hk, hk'] at hkey hj
  split_ifs at hkey hj
  exact (Option.some.inj hkey).trans (Option.some.inj hj).symm

variable (M req) in
/-- Requests `i` and `j`, with the client keys `k` and `k'`, have one cache key only if they
agree on method, path and client key, and no run replays to `i` what `j` stored otherwise. -/
structure KeptApart (i j : ℕ) (k k' : String) : Prop where
  key : buildCacheKey M (req i) k = buildCacheKey M (req j) k' →
    (req i).method = (req j).method ∧ (req i).path = (req j).path ∧ k = k'
  replay : ∀ (redis : String → Option Entry) (tr : List (State × Event)) (s : State),
    (∀ key en, redis key = some en → en.writer = none) →
      Run (Fires (dispatchStep M req)) (State.init redis) tr s → Replays M req s i j →
        (req i).method = (req j).method ∧ (req i).path = (req j).path ∧ k = k'

/-- Two mutating requests are kept apart iff they have different methods, or neither URL path is
the other one followed by a colon and the first stretch, up to a colon, of its client key, and
under one URL path and one client key they have one path. -/
theorem kept_apart_iff {i j : ℕ} {k k' : String} (hi : (req i).method ∈ mutatingMethods)
    (hj : (req j).method ∈ mutatingMethods) (hk : (req i).header idempotencyHeader = some k)
    (hk' : (req j).header idempotencyHeader = some k') :
    KeptApart M req i j k k' ↔ ((req i).method = (req j).method →
      (urlPath (req i).path = urlPath (req j).path → k = k' → (req i).path = (req j).path) ∧
      ¬ Overlaps (urlPath (req i).path) k (urlPath (req j).path) k' ∧
      ¬ Overlaps (urlPath (req j).path) k' (urlPath (req i).path) k) := by
  constructor
  · intro h hm
    refine ⟨fun hurl hkeys => ?_, fun ho => ?_, fun ho => ?_⟩
    · exact (h.key ((buildCacheKey_eq_iff hi hj).2 ⟨hm, .inl ⟨hurl, hkeys⟩⟩)).2.1
    · have heq := (h.key ((buildCacheKey_eq_iff hi hj).2 ⟨hm, .inr (.inl ho)⟩)).2.1
      exact (overlaps_iff.1 ho).ne (congrArg (fun path => (urlPath path).toList) heq)
    · have heq := (h.key ((buildCacheKey_eq_iff hi hj).2 ⟨hm, .inr (.inr ho)⟩)).2.1
      exact (overlaps_iff.1 ho).ne (congrArg (fun path => (urlPath path).toList) heq.symm)
  · intro h
    have hkey : buildCacheKey M (req i) k = buildCacheKey M (req j) k' →
        (req i).method = (req j).method ∧ (req i).path = (req j).path ∧ k = k' := by
      intro heq
      obtain ⟨hm, ⟨hurl, hkeys⟩ | ho | ho⟩ := (buildCacheKey_eq_iff hi hj).1 heq
      · exact ⟨hm, (h hm).1 hurl hkeys, hkeys⟩
      · exact absurd ho (h hm).2.1
      · exact absurd ho (h hm).2.2
    refine ⟨hkey, fun redis tr s hforeign hrun hr => hkey ?_⟩
    have hinit : OwnKeys M req (State.init redis) := by
      intro key en j hen hw
      rw [hforeign key en hen] at hw
      cases hw
    have hI := hrun.invariant hinit fun _ _ _ hI hs => hI.step hs
    have he := hr.keyOf_eq hI
    obtain ⟨-, -, key, -, -, -, hkeyi, -⟩ := hr
    exact buildCacheKey_of_keyOf hk hk' hkeyi he

/-- The same route with two client keys. -/
def demoRetries (i : ℕ) : Request :=
  { demoRequest [] with headers := [("idempotency-key", if i = 0 then "k:1" else "k:2")] }

theorem kept_apart_iff_retries : KeptApart demo demoRetries 0 1 "k:1" "k:2" := by
  refine (kept_apart_iff (by decide) (by decide) rfl rfl).2 fun _ => ⟨?_, ?_, ?_⟩
  · intro _ _
    rfl
  · intro ho
    exact (overlaps_iff.1 ho).ne rfl
  · intro ho
    exact (overlaps_iff.1 ho).ne rfl

/-- `POST /api/v1/expenses` with the key `x:k1`, and `POST /api/v1/expenses:x` with `k1`. -/
def demoRoutes (i : ℕ) : Request :=
  if i = 0 then { demoRequest [] with headers := [("idempotency-key", "x:k1")] }
  else { demoRequest [] with path := "/api/v1/expenses:x" }

/-- The expense created under the first key is replayed to the second route. -/
theorem kept_apart_fails : ¬ KeptApart demo demoRoutes 1 0 "k1" "x:k1" := by
  intro h
  obtain ⟨⟨tr, s⟩, hd⟩ : ∃ p, drive (dispatchStep demo demoRoutes) (State.init fun _ => none)
      [.claim 0 .ok, .finish 0 created, .store 0 .ok, .claim 1 .ok] = some p := ⟨_, rfl⟩
  have hr : Replays demo demoRoutes s 1 0 := by
    obtain ⟨-, rfl⟩ := Prod.mk.inj (Option.some.inj hd)
    exact ⟨_, _, _, _, rfl, rfl, rfl, rfl, rfl⟩
  have hpath := (h.replay _ tr s (by simp) (run_of_drive hd) hr).2.1
  exact absurd hpath (by decide)

end ReckonFlow
