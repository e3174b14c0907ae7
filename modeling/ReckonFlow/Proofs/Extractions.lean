import ReckonFlow.Proofs.ReceiptUploads
import ReckonFlow.Spec.Extractions

/-! What one execution has extracted and the others may undo: a receipt stays EXTRACTED exactly
as long as no commit is made over it from a status read earlier. -/

namespace ReckonFlow.Extraction

open Lts ReceiptUpload

variable {origin : ℕ → Origin} {s s' : State} {e : ℕ × Act} {i : ℕ} {row row' : Receipt}
  {stage stage' : Stage} {act : Act} {o : Origin}

/-- JSON is stored with the status EXTRACTED and not without it. -/
def Consistent (row : Receipt) : Prop := row.extractedJson ≠ none ↔ row.status = .extracted

/-- EXTRACTED stays, with its JSON. -/
def Keeps (row row' : Receipt) : Prop :=
  row.status = .extracted → row'.status = .extracted ∧ row'.extractedJson = row.extractedJson

/-- A commit over a row that is EXTRACTED meets a row that was PROCESSING already, stores the
same JSON, or follows a FAILED read. -/
def Careful (row : Receipt) : Stage → Act → Prop
  | .loaded seen, .mark reply =>
      row.status = .extracted → reply ≠ .failed → seen.status = .processing
  | .saving _ json, .save reply _ =>
      row.status = .extracted → reply ≠ .failed → row.extractedJson = some json
  | .failing (some seen) _, .fail reply =>
      row.status = .extracted → reply ≠ .failed → seen.status = .failed
  | _, _ => True

/-- What an execution that goes on has read: a row without JSON. -/
def Ready : Stage → Prop
  | .loaded seen => seen.status ≠ .extracted ∧ seen.extractedJson = none
  | .processing seen | .saving seen _ => seen.status = .processing ∧ seen.extractedJson = none
  | _ => True

/-! ## One execution -/

theorem Keeps.rfl (row : Receipt) : Keeps row row := fun h => ⟨h, Eq.refl _⟩

theorem Keeps.trans {row'' : Receipt} (h : Keeps row row') (h' : Keeps row' row'') :
    Keeps row row'' := by
  intro hrow
  obtain ⟨hstatus, hjson⟩ := h hrow
  obtain ⟨hstatus', hjson'⟩ := h' hstatus
  exact ⟨hstatus', hjson'.trans hjson⟩

/-- Setting a status other than EXTRACTED is harmless exactly if over EXTRACTED nothing is
written, because the session had loaded the same status. -/
theorem write_status {seen new : Receipt} (hjson : new.extractedJson = seen.extractedJson)
    (hnew : new.status ≠ .extracted) (hc : Consistent row) :
    ((row.status = .extracted → new.status = seen.status) →
      Consistent (seen.write new row) ∧ Keeps row (seen.write new row)) ∧
    (Keeps row (seen.write new row) → row.status = .extracted → new.status = seen.status) := by
  have hsame : (seen.write new row).extractedJson = row.extractedJson := if_pos hjson
  by_cases hstatus : new.status = seen.status
  · have hkept : (seen.write new row).status = row.status := if_pos hstatus
    refine ⟨fun _ => ⟨?_, fun he => ⟨hkept.trans he, hsame⟩⟩, fun _ _ => hstatus⟩
    unfold Consistent
    rw [hsame, hkept]
    exact hc
  · have hset : (seen.write new row).status = new.status := written_ne _ hstatus
    refine ⟨fun hok => ?_, fun hk he => absurd (hset.symm.trans (hk he).1) hnew⟩
    have hopen : row.status ≠ .extracted := fun he => hstatus (hok he)
    have hnone : row.extractedJson = none := not_not.1 fun hj => hopen (hc.1 hj)
    refine ⟨?_, fun he => absurd he hopen⟩
    unfold Consistent
    rw [hsame, hset, hnone]
    exact iff_of_false (not_not.2 (Eq.refl _)) hnew

/-- `save_extraction` writes status and JSON whatever is committed. -/
theorem write_save (row : Receipt) (json : String) {seen : Receipt} (hseen : seen.status = .processing)
    (hnone : seen.extractedJson = none) :
    Consistent (seen.write (saveExtraction json) row) ∧
      (Keeps row (seen.write (saveExtraction json) row) ↔
        (row.status = .extracted → row.extractedJson = some json)) := by
  have hstatus : (seen.write (saveExtraction json) row).status = .extracted :=
    written_ne _ (by rw [hseen]; simp [saveExtraction])
  have hjson : (seen.write (saveExtraction json) row).extractedJson = some json :=
    written_ne _ (by rw [hnone]; simp [saveExtraction])
  refine ⟨?_, fun hk he => ?_, fun h he => ⟨hstatus, hjson.trans (h he).symm⟩⟩
  · unfold Consistent
    rw [hjson, hstatus]
    exact iff_of_true (by simp) (Eq.refl _)
  · exact (hk he).2.symm.trans hjson

/-- A step of an execution keeps the law exactly if it is careful. -/
theorem runExtraction_keeps (h : runExtraction o (some row) stage act = some (some row', stage'))
    (hready : Ready stage) (hc : Consistent row) :
    (Careful row stage act → Consistent row' ∧ Keeps row row') ∧
      (Keeps row row' → Careful row stage act) := by
  have hcases := runExtraction_cases h
  -- the steps that write nothing are careful
  have hsame : row' = row → Careful row stage act →
      (Careful row stage act → Consistent row' ∧ Keeps row row') ∧
        (Keeps row row' → Careful row stage act) := by
    rintro rfl hcareful
    exact ⟨fun _ => ⟨hc, .rfl _⟩, fun _ => hcareful⟩
  cases act with
  | load answered =>
    obtain ⟨rfl, he, -⟩ := hcases
    exact hsame (Option.some.inj he) trivial
  | mark reply =>
    obtain ⟨seen, rfl, he, -⟩ := hcases
    split_ifs at he with hreply
    · exact hsame (Option.some.inj he) fun _ hne => absurd hreply hne
    · obtain rfl := Option.some.inj he
      have hnew : seen.markProcessing.status ≠ .extracted := by simp [Receipt.markProcessing]
      have hjson : seen.markProcessing.extractedJson = seen.extractedJson := rfl
      obtain ⟨hkeep, hbreak⟩ := write_status hjson hnew hc
      refine ⟨fun hok => hkeep fun hrow => (hok hrow hreply).symm, fun hk hrow _ => ?_⟩
      exact (hbreak hk hrow).symm
  | extract result =>
    obtain ⟨seen, rfl, he, -⟩ := hcases
    exact hsame (Option.some.inj he) trivial
  | save reply error =>
    obtain ⟨seen, json, rfl, he, -⟩ := hcases
    split_ifs at he with hreply
    · exact hsame (Option.some.inj he) fun _ hne => absurd hreply hne
    · obtain rfl := Option.some.inj he
      obtain ⟨hconsistent, hkeeps⟩ := write_save row json hready.1 hready.2
      refine ⟨fun hok => ⟨hconsistent, hkeeps.2 fun hrow => hok hrow hreply⟩, fun hk hrow _ => ?_⟩
      exact hkeeps.1 hk hrow
  | reload answered =>
    obtain ⟨error, rfl, he, -⟩ := hcases
    exact hsame (Option.some.inj he) trivial
  | fail reply =>
    obtain ⟨seen, error, rfl, he, -⟩ := hcases
    split_ifs at he with hreply
    · exact hsame (Option.some.inj he) fun _ hne => absurd hreply hne
    · obtain rfl := Option.some.inj he
      have hnew : (seen.markFailed error).status ≠ .extracted := by simp [Receipt.markFailed]
      have hjson : (seen.markFailed error).extractedJson = seen.extractedJson := rfl
      obtain ⟨hkeep, hbreak⟩ := write_status hjson hnew hc
      refine ⟨fun hok => hkeep fun hrow => (hok hrow hreply).symm, fun hk hrow _ => ?_⟩
      exact (hbreak hk hrow).symm
  | record answered =>
    obtain ⟨failed, rfl, he, -⟩ := hcases
    exact hsame (Option.some.inj he) trivial

theorem runExtraction_ready (h : runExtraction o (some row) stage act = some (some row', stage'))
    (hready : Ready stage) (hc : Consistent row) : Ready stage' := by
  have hcases := runExtraction_cases h
  cases act with
  | load answered =>
    obtain ⟨-, -, rfl⟩ := hcases
    cases answered with
    | false => trivial
    | true =>
      simp only [if_true, afterLoad]
      split_ifs with hrow
      · trivial
      · exact ⟨hrow, not_not.1 fun hj => hrow (hc.1 hj)⟩
  | mark reply =>
    obtain ⟨seen, rfl, -, rfl⟩ := hcases
    split_ifs
    · exact ⟨rfl, hready.2⟩
    · trivial
  | extract result =>
    obtain ⟨seen, rfl, -, ⟨json, rfl⟩ | ⟨error, rfl⟩⟩ := hcases
    · exact hready
    · trivial
  | save reply error =>
    obtain ⟨seen, json, -, -, rfl⟩ := hcases
    split_ifs
    · trivial
    · trivial
  | reload answered =>
    obtain ⟨error, -, -, rfl⟩ := hcases
    cases answered
    · trivial
    · trivial
  | fail reply =>
    obtain ⟨seen, error, -, -, rfl⟩ := hcases
    split_ifs
    · trivial
    · trivial
  | record answered =>
    obtain ⟨failed, -, -, raised, rfl⟩ := hcases
    trivial

/-! ## All of them -/

theorem step_eq_some (h : step origin s e = some s') : ∃ row stage,
    runExtraction (origin e.1) (some s.row) (s.stage e.1) e.2 = some (some row, stage) ∧
      s' = { s with row := row }.setStage e.1 stage := by
  unfold step at h
  split at h
  · exact ⟨_, _, ‹_›, (Option.some.inj h).symm⟩
  · cases h

structure Inv (s : State) : Prop where
  consistent : Consistent s.row
  ready : ∀ i, Ready (s.stage i)

theorem Inv.init : Inv State.init := ⟨by simp [Consistent, State.init], fun _ => trivial⟩

theorem Inv.step (h : Inv s) (hok : Careful s.row (s.stage e.1) e.2)
    (hs : step origin s e = some s') : Inv s' ∧ Keeps s.row s'.row := by
  obtain ⟨row, stage, hr, rfl⟩ := step_eq_some hs
  obtain ⟨hconsistent, hkeeps⟩ := (runExtraction_keeps hr (h.ready e.1) h.consistent).1 hok
  refine ⟨⟨hconsistent, fun j => ?_⟩, hkeeps⟩
  by_cases hj : j = e.1
  · subst hj
    rw [setStage_self]
    exact runExtraction_ready hr (h.ready e.1) h.consistent
  · rw [setStage_of_ne _ _ hj]
    exact h.ready j

theorem Inv.breaks (h : Inv s) (hbad : ¬ Careful s.row (s.stage e.1) e.2)
    (hs : ReckonFlow.Extraction.step origin s e = some s') : ¬ Keeps s.row s'.row := by
  obtain ⟨row, stage, hr, rfl⟩ := step_eq_some hs
  exact fun hk => hbad ((runExtraction_keeps hr (h.ready e.1) h.consistent).2 hk)

/-- For any number of executions of one receipt: what was committed as EXTRACTED stays so with
its JSON, and there is JSON exactly under that status, in a run whose every commit over an
EXTRACTED row is careful, and in no other. -/
theorem extracted_stays_iff {tr : List (State × (ℕ × Act))}
    (hrun : Run (Fires (step origin)) State.init tr s) :
    (Along (fun s s' => Keeps s.row s'.row) tr s ∧ Always (fun s => Consistent s.row) tr s) ↔
      ∀ p ∈ tr, Careful p.1.row (p.1.stage p.2.1) p.2.2 := by
  have halong := hrun.along_iff (I := Inv) (r := fun s s' => Keeps s.row s'.row)
    (o := fun s e => Careful s.row (s.stage e.1) e.2) .init (fun _ _ _ h h' => h.trans h')
    (fun s e s' h hok hs => h.step hok hs) (fun s e s' h hbad hs => h.breaks hbad hs)
  refine ⟨fun h => halong.1 h.1, fun hok => ⟨halong.2 hok, ?_⟩⟩
  have hinv : Always Inv tr s :=
    hrun.always_of .init (fun s e s' h hok hs => (h.step hok hs).1) hok
  exact hinv.imp fun _ h => h.consistent

theorem careful_of_open (h : row.status ≠ .extracted) : Careful row stage act := by
  unfold Careful
  split
  · exact fun he => absurd he h
  · exact fun he => absurd he h
  · exact fun he => absurd he h
  · trivial

/-- The extractor fails in execution 0 and the job runs again. -/
def demoRetry : List (ℕ × Act) :=
  [(0, .load true), (0, .mark .ok), (0, .extract (.error "no total")), (0, .fail .ok),
    (1, .load true), (1, .mark .ok), (1, .extract (.ok "\x7b\x7d")), (1, .save .ok "")]

/-- Execution 0 fails after execution 1, started beside it, has saved. -/
def demoRace : List (ℕ × Act) :=
  [(0, .load true), (1, .load true), (0, .mark .ok), (1, .mark .ok), (1, .extract (.ok "\x7b\x7d")),
    (1, .save .ok ""), (0, .extract (.error "no total")), (0, .fail .ok)]

theorem extracted_stays_iff_retry : ∃ tr s,
    Run (Fires (step fun _ => .job)) State.init tr s ∧ s.row.status = .extracted ∧
      Along (fun s s' => Keeps s.row s'.row) tr s ∧ Always (fun s => Consistent s.row) tr s := by
  have hdemo : (drive (step fun _ => .job) State.init demoRetry).map
      (fun r => (r.2.row.status, r.1.all (·.1.row.status ≠ .extracted))) =
        some (.extracted, true) := by decide
  obtain ⟨⟨tr, s⟩, hdrive, heq⟩ := Option.map_eq_some_iff.1 hdemo
  obtain ⟨hstatus, hopen⟩ := Prod.mk.inj heq
  have hcareful : ∀ p ∈ tr, Careful p.1.row (p.1.stage p.2.1) p.2.2 := fun p hp =>
    careful_of_open (of_decide_eq_true (List.all_eq_true.1 hopen p hp))
  exact ⟨tr, s, run_of_drive hdrive, hstatus, (extracted_stays_iff (run_of_drive hdrive)).2 hcareful⟩

theorem extracted_stays_fails : ¬ ∀ (origin : ℕ → Origin) (tr : List (State × (ℕ × Act))) (s : State),
    Run (Fires (step origin)) State.init tr s →
      Along (fun s s' => Keeps s.row s'.row) tr s ∧ Always (fun s => Consistent s.row) tr s := by
  intro hall
  have hdemo : (drive (step fun _ => .job) State.init demoRace).map
      (fun r => (r.2.row.status, r.2.row.extractedJson)) = some (.failed, some "\x7b\x7d") := by decide
  obtain ⟨⟨tr, s⟩, hdrive, heq⟩ := Option.map_eq_some_iff.1 hdemo
  obtain ⟨hstatus, hjson⟩ := Prod.mk.inj heq
  have hconsistent : Consistent s.row := (hall _ tr s (run_of_drive hdrive)).2.2
  have hextracted := hconsistent.1 (by rw [show s.row.extractedJson = some "\x7b\x7d" from hjson]; simp)
  rw [show s.row.status = .failed from hstatus] at hextracted
  cases hextracted

end ReckonFlow.Extraction
