import ReckonFlow.Proofs.Idempotency
import ReckonFlow.Spec.StoredValues

/-! What a stored value does to the next request of its key: an answer, a fresh start, or an
exception from the middleware itself. -/

namespace ReckonFlow.StoredValues

open Effects PyText

variable {φ ρ : Type} {R : Runtime φ ρ} {fingerprint text : String} {s : Key}
  {payload : List (PyStr × Value φ)}

/-! ## The rebuilt response -/

variable (R) in
/-- The dictionary has what `_rebuild` reads, in types it can use: a body that is text without
lone surrogates, headers that `dict` takes, and a status and headers the response takes. -/
def RebuildsTo (payload : List (PyStr × Value φ)) (r : ρ) : Prop :=
  ∃ body content status headers pairs, Dict.get payload (py "body") = some (.str body) ∧
    encode body = some content ∧ Dict.get payload (py "status_code") = some status ∧
    Dict.get payload (py "headers") = some headers ∧ toDict headers = some pairs ∧
    R.response content status pairs = some r

theorem item_ok {name : String} {v : Value φ} {s' : Key} :
    item payload name s = .ok v s' ↔ Dict.get payload (py name) = some v ∧ s = s' := by
  unfold item
  cases Dict.get payload (py name) with
  | none =>
    constructor
    · intro h
      cases h
    · rintro ⟨h, -⟩
      cases h
  | some w => rw [pure_ok, Option.some.injEq]

theorem bodyBytes_ok {v : Value φ} {content : List UInt8} {s' : Key} :
    bodyBytes v s = .ok content s' ↔ (∃ b, v = .str b ∧ encode b = some content) ∧ s = s' := by
  cases v with
  | str b =>
    have hstr : (∃ b', Value.str (φ := φ) b = .str b' ∧ encode b' = some content) ↔
        encode b = some content := by
      constructor
      · rintro ⟨b', hb, he⟩
        rw [Value.str.inj hb]
        exact he
      · exact fun he => ⟨b, rfl, he⟩
    rw [hstr]
    simp only [bodyBytes]
    cases encode b with
    | none =>
      constructor
      · intro h
        cases h
      · rintro ⟨h, -⟩
        cases h
    | some bytes => rw [pure_ok, Option.some.injEq]
  | _ =>
    constructor
    · intro h
      cases h
    · rintro ⟨⟨b, hb, -⟩, -⟩
      cases hb

theorem rebuild_ok {r : ρ} {s' : Key} :
    rebuild R payload s = .ok r s' ↔ RebuildsTo R payload r ∧ s = s' := by
  unfold rebuild
  constructor
  · intro h
    obtain ⟨v, _, hv, h⟩ := bind_ok.1 h
    obtain ⟨hbody, rfl⟩ := item_ok.1 hv
    obtain ⟨content, _, hc, h⟩ := bind_ok.1 h
    obtain ⟨⟨b, rfl, hencode⟩, rfl⟩ := bodyBytes_ok.1 hc
    obtain ⟨status, _, hs, h⟩ := bind_ok.1 h
    obtain ⟨hstatus, rfl⟩ := item_ok.1 hs
    obtain ⟨headers, _, hh, h⟩ := bind_ok.1 h
    obtain ⟨hheaders, rfl⟩ := item_ok.1 hh
    cases hdict : toDict headers with
    | none =>
      rw [hdict] at h
      cases h
    | some pairs =>
      rw [hdict] at h
      dsimp only at h
      cases hresponse : R.response content status pairs with
      | none =>
        rw [hresponse] at h
        cases h
      | some r' =>
        rw [hresponse] at h
        obtain ⟨rfl, rfl⟩ := pure_ok.1 h
        exact ⟨⟨b, content, status, headers, pairs, hbody, hencode, hstatus, hheaders, hdict,
          hresponse⟩, rfl⟩
  · rintro ⟨⟨b, content, status, headers, pairs, hbody, hencode, hstatus, hheaders, hdict,
      hresponse⟩, rfl⟩
    rw [bind_of_ok (item_ok.2 ⟨hbody, rfl⟩), bind_of_ok (bodyBytes_ok.2 ⟨⟨b, rfl, hencode⟩, rfl⟩),
      bind_of_ok (item_ok.2 ⟨hstatus, rfl⟩), bind_of_ok (item_ok.2 ⟨hheaders, rfl⟩), hdict]
    dsimp only
    rw [hresponse]
    rfl

/-! ## The reading of the value -/

/-- The key is left as it is and the request answered, or the entry is deleted. -/
def Settles (x : EStateM.Result Raised Key (Option (Answer ρ))) (s : Key) : Prop :=
  (∃ d, x = .ok (some (.conflict d)) s) ∨ (∃ r, x = .ok (some (.replay r)) s) ∨
    x = .ok none ⟨none, s.sent ++ [.delete]⟩

def Raises {α : Type} (x : EStateM.Result Raised Key α) : Prop := ∃ e s', x = .error e s'

variable (R fingerprint) in
/-- A dictionary that `_handle_existing` comes to terms with: of another body, in progress,
without a status, or one a response can be rebuilt from. -/
def Readable (payload : List (PyStr × Value φ)) : Prop :=
  (storedFp R payload ≠ [] ∧ storedFp R payload ≠ py fingerprint) ∨ inProgress payload = true ∨
    Dict.get payload (py "status_code") = none ∨ ∃ r, RebuildsTo R payload r

variable (R fingerprint) in
/-- Text that is no JSON, or a dictionary to come to terms with. -/
def Manageable : Loaded φ → Prop
  | .corrupt => True
  | .value (.dict members) => Readable R fingerprint (Dict.ofPairs members)
  | _ => False

theorem handlePayload_settles (h : Readable R fingerprint payload) :
    Settles (handlePayload R fingerprint payload s) s := by
  unfold handlePayload
  split_ifs with hfp hstate hstatus
  · exact .inl ⟨_, rfl⟩
  · exact .inl ⟨_, rfl⟩
  · exact .inr (.inr rfl)
  · rcases h with h | h | h | ⟨r, h⟩
    · exact absurd h hfp
    · exact absurd h hstate
    · exact absurd (Option.isNone_iff_eq_none.2 h) hstatus
    · refine .inr (.inl ⟨R.mark r, ?_⟩)
      rw [bind_of_ok (rebuild_ok.2 ⟨h, rfl⟩)]
      rfl

theorem handlePayload_raises (h : ¬ Readable R fingerprint payload) :
    Raises (handlePayload R fingerprint payload s) := by
  simp only [Readable, not_or] at h
  obtain ⟨hfp, hstate, hstatus, hr⟩ := h
  unfold handlePayload
  rw [if_neg hfp, if_neg hstate, if_neg (by rwa [Option.isNone_iff_eq_none])]
  cases hx : rebuild R payload s with
  | ok r s' => exact absurd ⟨r, (rebuild_ok.1 hx).1⟩ hr
  | error e s' => exact ⟨e, s', bind_of_error hx⟩

theorem handleExisting_some (hs : s.value = some text) :
    handleExisting R fingerprint s = (if text = legacySentinel then
        pure (some (.conflict stillProcessing))
      else handleStored R fingerprint text : Redis (Option (Answer ρ)))
        { s with sent := s.sent ++ [.get] } := by
  unfold handleExisting
  rw [bind_of_ok (show get s = .ok (some text) { s with sent := s.sent ++ [.get] } by rw [← hs]; rfl)]

theorem handleExisting_settles (hs : s.value = some text)
    (h : text = legacySentinel ∨ Manageable R fingerprint (R.loads text)) :
    Settles (handleExisting R fingerprint s) { s with sent := s.sent ++ [.get] } := by
  rw [handleExisting_some hs]
  split_ifs with hsentinel
  · exact .inl ⟨_, rfl⟩
  · have hm := h.resolve_left hsentinel
    unfold handleStored
    cases hl : R.loads text with
    | corrupt => exact .inr (.inr rfl)
    | failed => rw [hl] at hm; exact hm.elim
    | value v =>
      rw [hl] at hm
      cases v with
      | dict members => exact handlePayload_settles hm
      | _ => exact hm.elim

theorem handleExisting_raises (hs : s.value = some text)
    (h : ¬ (text = legacySentinel ∨ Manageable R fingerprint (R.loads text))) :
    Raises (handleExisting R fingerprint s) := by
  obtain ⟨hsentinel, hm⟩ := not_or.1 h
  rw [handleExisting_some hs, if_neg hsentinel]
  unfold handleStored
  cases hl : R.loads text with
  | corrupt => rw [hl] at hm; exact absurd trivial hm
  | failed => exact ⟨_, _, rfl⟩
  | value v =>
    rw [hl] at hm
    cases v with
    | dict members => exact handlePayload_raises hm
    | _ => exact ⟨_, _, rfl⟩

/-! ## The request -/

variable (R fingerprint text) in
/-- A request that finds `text` at its key replays it or answers 409, leaving it there, or
deletes it, claims the key and calls the handler. -/
inductive Handled : Prop
  | replay (r : ρ) : dispatch R fingerprint ⟨some text, []⟩ =
      .ok (.replay r) ⟨some text, [.setNx, .get]⟩ → Handled
  | conflict (d : String) : dispatch R fingerprint ⟨some text, []⟩ =
      .ok (.conflict d) ⟨some text, [.setNx, .get]⟩ → Handled
  | handler : dispatch R fingerprint ⟨some text, []⟩ =
      .ok .handler ⟨some (claimText fingerprint), [.setNx, .get, .delete, .setNx]⟩ → Handled

/-! The first `SET NX` finds the key taken. -/

theorem setNx_taken (new : String) : setNx new ⟨some text, []⟩ = .ok false ⟨some text, [.setNx]⟩ := rfl

theorem dispatch_error {e : Raised} {s' : Key}
    (h : handleExisting R fingerprint ⟨some text, [.setNx]⟩ = .error e s') :
    dispatch R fingerprint ⟨some text, []⟩ = .error e s' := by
  unfold dispatch
  rw [bind_of_ok (setNx_taken _)]
  exact bind_of_error h

theorem dispatch_answer {answer : Answer ρ} {s' : Key}
    (h : handleExisting R fingerprint ⟨some text, [.setNx]⟩ = .ok (some answer) s') :
    dispatch R fingerprint ⟨some text, []⟩ = .ok answer s' := by
  unfold dispatch
  rw [bind_of_ok (setNx_taken _)]
  exact bind_of_ok h

/-- A key that is gone by then is claimed the second time. -/
theorem dispatch_free {sent : List Command}
    (h : handleExisting R fingerprint ⟨some text, [.setNx]⟩ = .ok none ⟨none, sent⟩) :
    dispatch R fingerprint ⟨some text, []⟩ =
      .ok .handler ⟨some (claimText fingerprint), sent ++ [.setNx]⟩ := by
  unfold dispatch
  rw [bind_of_ok (setNx_taken _)]
  exact bind_of_ok h

/-- What cannot be managed is raised out of the middleware. -/
theorem not_handled (h : ¬ (text = legacySentinel ∨ Manageable R fingerprint (R.loads text))) :
    ¬ Handled R fingerprint text := by
  intro hh
  obtain ⟨e, s', he⟩ := handleExisting_raises (s := ⟨some text, [.setNx]⟩) rfl h
  have hraise := dispatch_error he
  rcases hh with ⟨_, hh⟩ | ⟨_, hh⟩ | ⟨hh⟩
  all_goals
    rw [hraise] at hh
    cases hh

/-- Every stored value is handled, except text on which `json.loads` fails otherwise, JSON that
is no object, and an object of this body (or of none), not in progress and with a status,
whose body, headers and status cannot be made into a response. -/
theorem stored_value_handled_iff :
    Handled R fingerprint text ↔
      text = legacySentinel ∨ Manageable R fingerprint (R.loads text) := by
  constructor
  · intro h
    by_contra hbad
    exact not_handled hbad h
  · intro h
    have hs := handleExisting_settles (s := ⟨some text, [.setNx]⟩) rfl h
    rcases hs with ⟨d, hd⟩ | ⟨r, hr⟩ | hnone
    · exact .conflict d (dispatch_answer hd)
    · exact .replay r (dispatch_answer hr)
    · exact .handler (dispatch_free hnone)

/-- A parser that knows two texts, and a response class for integer statuses. -/
def demoRuntime : Runtime Unit Unit where
  loads text :=
    if text = "[]" then .value (.list [])
    else if text = "\x7b\x7d" then .value (.dict [])
    else .corrupt
  isprintable c := 32 ≤ c.val ∧ c.val < 127
  reprFloat _ := "0.0"
  response _ status _ := match status with
    | .int _ => some ()
    | _ => none
  mark := id

/-- A list is JSON and has no `get`. -/
theorem stored_list_fails : ¬ Handled demoRuntime (demoSha []).text "[]" := by
  refine not_handled ?_
  rintro (h | h)
  · exact absurd h (by decide)
  · exact h

/-! ## The entries of the middleware itself -/

/-- A captured response as `json.loads` returns it. -/
def capturedMembers (c : CapturedResponse) : List (PyStr × Value φ) :=
  [(py "fingerprint", .str (py c.fingerprint)), (py "status_code", .int c.statusCode),
    (py "headers", .dict (c.headers.map fun h => (py h.1, .str (py h.2)))),
    (py "body", .str (py c.body))]

def claimMembers (fingerprint : String) : List (PyStr × Value φ) :=
  [(py "state", .str (py stateInProgress)), (py "fingerprint", .str (py fingerprint))]

variable (R) in
/-- The response class takes every integer status with headers of Latin-1 text. -/
def TakesLatin1 : Prop :=
  ∀ content (n : ℤ) pairs,
    (∀ p ∈ pairs, ∃ k v, p = (Value.str k, Value.str v) ∧ (∀ c ∈ k ++ v, c.val < 256)) →
      ∃ r, R.response content (.int n) pairs = some r

/-- All the middleware stores is handled by the next request of the key. -/
theorem own_entries_readable (hR : TakesLatin1 R) :
    (∀ fp, Readable R fingerprint (Dict.ofPairs (claimMembers fp))) ∧
      ∀ c, Readable R fingerprint (Dict.ofPairs (capturedMembers c)) := by
  constructor
  · intro fp
    exact .inr (.inl rfl)
  · intro c
    let members : List (PyStr × Value φ) := c.headers.map fun h => (py h.1, .str (py h.2))
    let pairs : List (Value φ × Value φ) := (Dict.ofPairs members).map fun m => (.str m.1, m.2)
    have hlatin : ∀ p ∈ pairs, ∃ k v, p = (.str k, .str v) ∧ (∀ d ∈ k ++ v, d.val < 256) := by
      intro p hp
      obtain ⟨m, hm, rfl⟩ := List.mem_map.1 hp
      obtain ⟨h, hh, rfl⟩ := List.mem_map.1 (Dict.mem_ofPairs hm)
      refine ⟨py h.1, py h.2, rfl, fun d hd => ?_⟩
      obtain ⟨h1, h2⟩ := c.latin1 h hh
      rcases List.mem_append.1 hd with hd | hd
      · obtain ⟨x, hx, rfl⟩ := List.mem_map.1 hd
        exact h1 x hx
      · obtain ⟨x, hx, rfl⟩ := List.mem_map.1 hd
        exact h2 x hx
    obtain ⟨r, hr⟩ := hR (Text.encodeUtf8 c.body) c.statusCode pairs hlatin
    exact .inr (.inr (.inr ⟨r, py c.body, _, .int c.statusCode, .dict members, pairs, rfl,
      encode_py c.body, rfl, rfl, rfl, hr⟩))

end ReckonFlow.StoredValues
