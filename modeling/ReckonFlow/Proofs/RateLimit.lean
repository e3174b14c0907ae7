import ReckonFlow.Lib.Window
import ReckonFlow.Spec.RateLimit

/-! The in-memory limiter is an exact sliding window over the calls it admitted. -/

namespace ReckonFlow

variable {R : RateLimit} {calls : List (String × ℚ)}

/-- The times at which a client was admitted. -/
def admittedTimes (client : String) (log : List MemoryCall) : List ℚ :=
  (log.filter fun c => c.admitted ∧ c.client = client).map (·.time)

/-- The admitted calls of the same client in the sixty seconds up to a call. -/
def recentCalls (log : List MemoryCall) (c : MemoryCall) : List MemoryCall :=
  log.filter fun d => d.admitted ∧ d.client = c.client ∧ c.time - 60 ≤ d.time ∧ d.time ≤ c.time

/-! ## One call -/

theorem checkMemory_snd (hits : Hits) (client : String) (now : ℚ) : (checkMemory R hits client now).2 =
    decide ((((hits client).dropWhile (· < now - 60)).length : ℤ) < R.requestsPerMinute) := by
  simp only [checkMemory]
  split_ifs with h
  · exact (decide_eq_false (not_lt.2 h)).symm
  · exact (decide_eq_true (not_le.1 h)).symm

theorem checkMemory_fst (hits : Hits) (client : String) (now : ℚ) : (checkMemory R hits client now).1 =
    Function.update hits client ((hits client).dropWhile (· < now - 60) ++
      if (checkMemory R hits client now).2 then [now] else []) := by
  rw [checkMemory_snd]
  simp only [checkMemory]
  split_ifs with h hlt hlt
  · rw [decide_eq_true_eq] at hlt
    omega
  · rw [List.append_nil]
  · rfl
  · rw [decide_eq_true_eq] at hlt
    omega

theorem recordAll_snoc (call : String × ℚ) :
    recordAll R (calls ++ [call]) = record R (recordAll R calls) call := by
  rw [recordAll, List.foldl_append]
  rfl

/-- The call after `calls`, as it goes. -/
def nextCall (R : RateLimit) (calls : List (String × ℚ)) (call : String × ℚ) : MemoryCall :=
  ⟨call.1, call.2, (checkMemory R (recordAll R calls).1 call.1 call.2).2⟩

theorem history_snoc (call : String × ℚ) :
    history R (calls ++ [call]) = history R calls ++ [nextCall R calls call] := by
  rw [history, recordAll_snoc]
  rfl

theorem admittedTimes_snoc (client : String) (log : List MemoryCall) (c : MemoryCall) :
    admittedTimes client (log ++ [c]) =
      admittedTimes client log ++ if c.admitted ∧ c.client = client then [c.time] else [] := by
  rw [admittedTimes, List.filter_append, List.map_append]
  congr 1
  split_ifs with h
  · simp [h]
  · simp [h]

theorem length_recentCalls (log : List MemoryCall) (c : MemoryCall) :
    (recentCalls log c).length = (Window.recent 60 (admittedTimes c.client log) c.time).length := by
  rw [Window.recent, admittedTimes, List.filter_map, List.length_map, List.filter_filter, recentCalls]
  congr 1
  apply List.filter_congr
  intro d _
  simp only [Function.comp_apply, Bool.decide_and]
  grind

/-! ## What the windows hold -/

theorem sorted_snoc {call : String × ℚ} (h : ((calls ++ [call]).map (·.2)).Pairwise (· ≤ ·)) :
    (calls.map (·.2)).Pairwise (· ≤ ·) ∧ ∀ c ∈ calls, c.2 ≤ call.2 := by
  rw [List.map_append, List.pairwise_append] at h
  exact ⟨h.1, fun c hc => h.2.2 _ (List.mem_map_of_mem hc) _ (List.mem_singleton_self _)⟩

/-- The windows hold the admitted times of their clients, as of the last reading. -/
theorem holds_recordAll (client : String) :
    ∀ {now : ℚ}, (calls.map (·.2)).Pairwise (· ≤ ·) → (∀ c ∈ calls, c.2 ≤ now) →
      Window.Holds 60 (admittedTimes client (history R calls)) ((recordAll R calls).1 client) now := by
  induction calls using List.reverseRecOn with
  | nil => exact fun _ _ => Window.Holds.nil
  | append_singleton calls call ih =>
    intro now hsorted hnow
    obtain ⟨hbefore, hle⟩ := sorted_snoc hsorted
    have hheld := ih hbefore hle
    refine Window.Holds.mono ?_ (hnow call (List.mem_append_right _ (List.mem_singleton_self _)))
    rw [history_snoc, admittedTimes_snoc, recordAll_snoc, record, checkMemory_fst, nextCall]
    by_cases hclient : call.1 = client
    · subst hclient
      rw [Function.update_self, hheld.evict]
      by_cases hadmitted : (checkMemory R (recordAll R calls).1 call.1 call.2).2 = true
      · rw [if_pos hadmitted, if_pos ⟨hadmitted, rfl⟩]
        exact hheld.push (by norm_num)
      · rw [if_neg hadmitted, if_neg fun h => hadmitted h.1, List.append_nil, List.append_nil]
        exact hheld.keep
    · rw [Function.update_of_ne (Ne.symm hclient), if_neg fun h => hclient h.2, List.append_nil]
      exact hheld

/-- A call is admitted iff the recent admitted times of its client are fewer than the limit. -/
theorem nextCall_admitted {call : String × ℚ} (hsorted : ((calls ++ [call]).map (·.2)).Pairwise (· ≤ ·)) :
    (nextCall R calls call).admitted =
      decide (((Window.recent 60 (admittedTimes call.1 (history R calls)) call.2).length : ℤ) <
        R.requestsPerMinute) := by
  obtain ⟨hbefore, hle⟩ := sorted_snoc hsorted
  rw [nextCall, checkMemory_snd, (holds_recordAll call.1 hbefore hle).evict]

/-! ## The whole history -/

/-- The history lists the calls in order. -/
theorem history_calls (R : RateLimit) (calls : List (String × ℚ)) :
    (history R calls).map (fun c => (c.client, c.time)) = calls := by
  induction calls using List.reverseRecOn with
  | nil => rfl
  | append_singleton calls call ih =>
    rw [history_snoc, List.map_append, ih]
    rfl

theorem history_sublist (R : RateLimit) (calls : List (String × ℚ)) (p : MemoryCall → Bool) :
    (((history R calls).filter p).map fun c => (c.client, c.time)).Sublist calls := by
  have h : (((history R calls).filter p).map fun c => (c.client, c.time)).Sublist
      ((history R calls).map fun c => (c.client, c.time)) := List.filter_sublist.map _
  rwa [history_calls] at h

theorem history_admitted (hsorted : (calls.map (·.2)).Pairwise (· ≤ ·)) {before after : List MemoryCall}
    {c : MemoryCall} (h : history R calls = before ++ c :: after) :
    c.admitted = true ↔ ((recentCalls before c).length : ℤ) < R.requestsPerMinute := by
  induction calls using List.reverseRecOn generalizing after with
  | nil => exact absurd h.symm (List.append_ne_nil_of_right_ne_nil _ (List.cons_ne_nil _ _))
  | append_singleton calls call ih =>
    rw [history_snoc] at h
    rcases List.eq_nil_or_concat after with rfl | ⟨after, last, rfl⟩
    · obtain ⟨rfl, hc⟩ := List.append_inj' h rfl
      obtain rfl := List.singleton_injective hc
      rw [nextCall_admitted hsorted, decide_eq_true_eq, length_recentCalls]
      rfl
    · rw [List.concat_eq_append, ← List.cons_append, ← List.append_assoc] at h
      exact ih (sorted_snoc hsorted).1 (List.append_inj' h rfl).1

theorem sorted_admittedTimes (hsorted : (calls.map (·.2)).Pairwise (· ≤ ·)) (client : String) :
    (admittedTimes client (history R calls)).Pairwise (· ≤ ·) := by
  have hsub := (history_sublist R calls fun c => c.admitted ∧ c.client = client).map (·.2)
  rw [List.map_map] at hsub
  exact hsorted.sublist hsub

/-- An admitted time has fewer than `limit` others in the sixty seconds before it. -/
theorem admittedTimes_spaced (hsorted : (calls.map (·.2)).Pairwise (· ≤ ·)) (client : String)
    {before after : List ℚ} {t : ℚ}
    (h : admittedTimes client (history R calls) = before ++ t :: after) :
    (Window.recent 60 before t).length < R.requestsPerMinute.toNat := by
  induction calls using List.reverseRecOn generalizing after with
  | nil => exact absurd h.symm (List.append_ne_nil_of_right_ne_nil _ (List.cons_ne_nil _ _))
  | append_singleton calls call ih =>
    rw [history_snoc, admittedTimes_snoc] at h
    split_ifs at h with hadmitted
    · rcases List.eq_nil_or_concat after with rfl | ⟨after, last, rfl⟩
      · obtain ⟨rfl, ht⟩ := List.append_inj' h rfl
        obtain rfl := List.singleton_injective ht
        obtain ⟨hyes, rfl⟩ := hadmitted
        rw [nextCall_admitted hsorted, decide_eq_true_eq] at hyes
        show (Window.recent 60 (admittedTimes call.1 (history R calls)) call.2).length < _
        omega
      · rw [List.concat_eq_append, ← List.cons_append, ← List.append_assoc] at h
        exact ih (sorted_snoc hsorted).1 (List.append_inj' h rfl).1
    · rw [List.append_nil] at h
      exact ih (sorted_snoc hsorted).1 h

theorem length_between (log : List MemoryCall) (client : String) (a : ℚ) :
    (log.filter fun c => c.admitted ∧ c.client = client ∧ a ≤ c.time ∧ c.time ≤ a + 60).length =
      ((admittedTimes client log).filter fun t => a ≤ t ∧ t ≤ a + 60).length := by
  rw [admittedTimes, List.filter_map, List.length_map, List.filter_filter]
  congr 1
  apply List.filter_congr
  intro d _
  simp only [Function.comp_apply, Bool.decide_and]
  grind

theorem admittedTimes_admitted (client : String) (log : List MemoryCall) :
    admittedTimes client (log.filter (·.admitted)) = admittedTimes client log := by
  rw [admittedTimes, List.filter_filter, admittedTimes]
  congr 1
  apply List.filter_congr
  intro d _
  grind

/-- Without the refused calls the others go as before. -/
theorem history_of_admitted (hsorted : (calls.map (·.2)).Pairwise (· ≤ ·)) :
    history R (((history R calls).filter (·.admitted)).map fun c => (c.client, c.time)) =
      (history R calls).filter (·.admitted) := by
  induction calls using List.reverseRecOn with
  | nil => rfl
  | append_singleton calls call ih =>
    obtain ⟨hbefore, -⟩ := sorted_snoc hsorted
    have ih := ih hbefore
    have hsub := history_sublist R calls (·.admitted)
    set kept := ((history R calls).filter (·.admitted)).map fun c => (c.client, c.time)
    have hkept : ((kept ++ [call]).map (·.2)).Pairwise (· ≤ ·) :=
      hsorted.sublist ((hsub.append_right [call]).map _)
    have hsame : nextCall R kept call = nextCall R calls call := by
      have hadmitted : (nextCall R kept call).admitted = (nextCall R calls call).admitted := by
        rw [nextCall_admitted hkept, nextCall_admitted hsorted, ih, admittedTimes_admitted]
      exact MemoryCall.mk.injEq .. ▸ ⟨rfl, rfl, hadmitted⟩
    rw [history_snoc, List.filter_append]
    by_cases hyes : (nextCall R calls call).admitted = true
    · rw [List.filter_cons_of_pos hyes, List.filter_nil, List.map_append]
      show history R (kept ++ [call]) = _
      rw [history_snoc, ih, hsame]
    · rw [List.filter_cons_of_neg hyes, List.filter_nil, List.append_nil]
      exact ih

/-- A client's window and calls are those it would have alone. -/
theorem recordAll_client (R : RateLimit) (calls : List (String × ℚ)) (client : String) :
    (recordAll R (calls.filter (·.1 = client))).1 client = (recordAll R calls).1 client ∧
      history R (calls.filter (·.1 = client)) = (history R calls).filter (·.client = client) := by
  induction calls using List.reverseRecOn with
  | nil => exact ⟨rfl, rfl⟩
  | append_singleton calls call ih =>
    obtain ⟨hhits, hlog⟩ := ih
    rw [List.filter_append]
    by_cases hclient : call.1 = client
    · have hsame : nextCall R (calls.filter (·.1 = client)) call = nextCall R calls call := by
        rw [nextCall, nextCall, checkMemory_snd, checkMemory_snd, hclient, hhits]
      have hnext : [nextCall R calls call].filter (·.client = client) = [nextCall R calls call] := by
        simp [nextCall, hclient]
      rw [List.filter_cons_of_pos (by simpa using hclient), List.filter_nil]
      constructor
      · rw [recordAll_snoc, recordAll_snoc, record, record, checkMemory_fst, checkMemory_fst,
          checkMemory_snd, checkMemory_snd, hclient, Function.update_self, Function.update_self, hhits]
      · rw [history_snoc, history_snoc, List.filter_append, hlog, hsame, hnext]
    · have hnext : [nextCall R calls call].filter (·.client = client) = [] := by
        simp [nextCall, hclient]
      rw [List.filter_cons_of_neg (by simpa using hclient), List.filter_nil, List.append_nil]
      constructor
      · rw [hhits, recordAll_snoc, record, checkMemory_fst, Function.update_of_ne (Ne.symm hclient)]
      · rw [hlog, history_snoc, List.filter_append, hnext, List.append_nil]

/-- The in-memory limiter is an exact sliding window: a call is admitted iff fewer than `limit`
earlier calls of its client were admitted in the sixty seconds up to it; so no closed interval of
sixty seconds holds more than `limit` admitted calls of a client, the refused calls change
nothing, and each client's calls go as they would alone. -/
theorem memory_window (R : RateLimit) (calls : List (String × ℚ))
    (hsorted : (calls.map (·.2)).Pairwise (· ≤ ·)) :
    (history R calls).map (fun c => (c.client, c.time)) = calls ∧
      (∀ before c after, history R calls = before ++ c :: after →
        (c.admitted = true ↔ ((recentCalls before c).length : ℤ) < R.requestsPerMinute)) ∧
      (∀ client a, (((history R calls).filter fun c =>
        c.admitted ∧ c.client = client ∧ a ≤ c.time ∧ c.time ≤ a + 60).length : ℤ) ≤
          max R.requestsPerMinute 0) ∧
      history R (((history R calls).filter (·.admitted)).map fun c => (c.client, c.time)) =
        (history R calls).filter (·.admitted) ∧
      ∀ client, history R (calls.filter (·.1 = client)) =
        (history R calls).filter (·.client = client) := by
  refine ⟨history_calls R calls, fun _ _ _ h => history_admitted hsorted h, fun client a => ?_,
    history_of_admitted hsorted, fun client => (recordAll_client R calls client).2⟩
  have hle := Window.length_interval_le (sorted_admittedTimes (R := R) hsorted client)
    (fun _ _ _ h => admittedTimes_spaced hsorted client h) a
  rw [length_between]
  omega

/-- Limit two: the third call is refused until the first is more than sixty seconds old. -/
theorem memory_window_two : (history ⟨2, "reckonflow:"⟩ [("a", 0), ("a", 10), ("b", 20), ("a", 60),
    ("a", 61)]).map (·.admitted) = [true, true, true, false, true] ∧
      (history ⟨2, "reckonflow:"⟩ ([("a", 0), ("a", 10), ("b", 20), ("a", 60), ("a", 61)].filter
        (·.1 = "b"))).length = 1 := by
  refine ⟨by decide +kernel, ?_⟩
  rw [(memory_window ⟨2, "reckonflow:"⟩ [("a", 0), ("a", 10), ("b", 20), ("a", 60), ("a", 61)]
    (by norm_num)).2.2.2.2 "b"]
  decide +kernel

end ReckonFlow
