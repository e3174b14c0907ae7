import ReckonFlow.Spec.ReceiptUploads

/-! Accepted uploads under every interleaving of requests, commits, tasks and workers. A row
is left behind exactly if it is committed when no execution is waiting for it, or if its last
execution is cut short. -/

namespace ReckonFlow.ReceiptUpload

open Lts

variable {queue : String} {s s' : State} {e : Event} {i id : ℕ} {x y : Execution}
  {row row' : Option Receipt} {stage stage' : Stage} {act : Act} {origin : Origin}

/-! ## One execution -/

def Receipt.Settled (r : Receipt) : Prop := r.status = .extracted ∨ r.status = .failed

/-- A committed row that is neither EXTRACTED nor FAILED. -/
def Unsettled (row : Option Receipt) : Prop := ∃ r, row = some r ∧ ¬ r.Settled

/-- The execution has still to settle its row. -/
def Stage.Writer : Stage → Prop
  | .waiting | .loaded _ | .processing _ | .saving _ _ | .failing _ _ => True
  | .absent | .recording _ | .ended _ => False

/-- The execution has seen its row. -/
def Stage.Seen : Stage → Prop
  | .loaded _ | .processing _ | .saving _ _ | .failing _ _ | .recording _ => True
  | .absent | .waiting | .ended _ => False

/-- In the sessions that will save, the row was set to PROCESSING before. -/
def Stage.Marked : Stage → Prop
  | .processing row | .saving row _ => row.status = .processing
  | _ => True

/-- An exception ends the execution, and it leaves its row unsettled. -/
def CutShort (row : Option Receipt) : Stage → Act → Prop
  | .waiting, .load false | .loaded _, .mark .failed | .failing _ _, .reload false
  | .failing _ _, .fail .failed => Unsettled row
  -- PROCESSING has been committed unless it was the status loaded
  | .loaded seen, .mark .lost => seen.status ≠ .processing ∨ Unsettled row
  | _, _ => False

/-- What a step of an execution can do. -/
theorem runExtraction_cases (h : runExtraction origin row stage act = some (row', stage')) :
    match act with
    | .load answered => stage = .waiting ∧ row' = row ∧
        stage' = if answered then afterLoad origin row else .ended origin.reraise
    | .mark reply => ∃ seen, stage = .loaded seen ∧
        row' = (if reply = .failed then row else row.map (seen.write seen.markProcessing)) ∧
        stage' = if reply = .ok then .processing seen.markProcessing else .ended origin.reraise
    | .extract _ => ∃ seen, stage = .processing seen ∧ row' = row ∧
        ((∃ json, stage' = .saving seen json) ∨ ∃ error, stage' = .failing (some seen) error)
    | .save reply error => ∃ seen json, stage = .saving seen json ∧
        row' = (if reply = .failed then row else row.map (seen.write (saveExtraction json))) ∧
        stage' = if reply = .ok then .recording false else .failing none error
    | .reload answered => ∃ error, stage = .failing none error ∧ row' = row ∧
        stage' = if answered then afterReload error row else .ended true
    | .fail reply => ∃ seen error, stage = .failing (some seen) error ∧
        row' = (if reply = .failed then row else row.map (seen.write (seen.markFailed error))) ∧
        stage' = if reply = .ok then .recording true else .ended true
    | .record _ => ∃ failed, stage = .recording failed ∧ row' = row ∧
        ∃ raised, stage' = .ended raised := by
  unfold runExtraction at h
  split at h
  · cases h
    exact ⟨rfl, rfl, rfl⟩
  · cases h
    exact ⟨rfl, rfl, rfl⟩
  · rename_i seen reply
    cases reply <;> cases h <;> exact ⟨seen, rfl, rfl, rfl⟩
  · rename_i seen json
    cases h
    exact ⟨seen, rfl, rfl, .inl ⟨json, rfl⟩⟩
  · rename_i seen error
    cases h
    exact ⟨seen, rfl, rfl, .inr ⟨error, rfl⟩⟩
  · rename_i seen json reply error
    cases reply <;> cases h <;> exact ⟨seen, json, rfl, rfl, rfl⟩
  · rename_i error
    cases h
    exact ⟨error, rfl, rfl, rfl⟩
  · rename_i error
    cases h
    exact ⟨error, rfl, rfl, rfl⟩
  · rename_i seen error reply
    cases reply <;> cases h <;> exact ⟨seen, error, rfl, rfl, rfl⟩
  · rename_i failed
    cases h
    exact ⟨failed, rfl, rfl, _, rfl⟩
  · rename_i failed
    cases h
    exact ⟨failed, rfl, rfl, _, rfl⟩
  · cases h

/-- A row stays, and stays away. -/
theorem runExtraction_row (h : runExtraction origin row stage act = some (row', stage')) :
    row' = none ↔ row = none := by
  have hc := runExtraction_cases h
  cases act with
  | load answered => rw [hc.2.1]
  | mark reply =>
    obtain ⟨seen, -, rfl, -⟩ := hc
    split_ifs <;> simp
  | extract result =>
    obtain ⟨seen, -, rfl, -⟩ := hc
    rfl
  | save reply error =>
    obtain ⟨seen, json, -, rfl, -⟩ := hc
    split_ifs <;> simp
  | reload answered =>
    obtain ⟨error, -, rfl, -⟩ := hc
    rfl
  | fail reply =>
    obtain ⟨seen, error, -, rfl, -⟩ := hc
    split_ifs <;> simp
  | record answered =>
    obtain ⟨failed, -, rfl, -⟩ := hc
    rfl

theorem unsettled_none : ¬ Unsettled none := fun ⟨_, h, _⟩ => nomatch h

theorem unsettled_some {r : Receipt} : Unsettled (some r) ↔ ¬ r.Settled :=
  ⟨fun ⟨_, h, hr⟩ => Option.some.inj h ▸ hr, fun hr => ⟨r, rfl, hr⟩⟩

/-- PROCESSING is written unless it was loaded. -/
theorem write_markProcessing (seen r : Receipt) :
    (seen.write seen.markProcessing r).Settled ↔ seen.status = .processing ∧ r.Settled := by
  by_cases hp : seen.status = .processing
  · have hw : (seen.write seen.markProcessing r).status = r.status :=
      if_pos (show ReceiptStatus.processing = seen.status from hp.symm)
    simp only [Receipt.Settled, hw, hp, true_and]
  · have hw : (seen.write seen.markProcessing r).status = .processing :=
      written_ne _ (Ne.symm hp)
    simp [Receipt.Settled, hw, hp]

/-- EXTRACTED is always written: the row was loaded, or marked, as something else. -/
theorem write_saveExtraction {seen : Receipt} (json : String) (r : Receipt)
    (h : seen.status = .processing) : (seen.write (saveExtraction json) r).Settled :=
  .inl (written_ne _ (by rw [h]; exact nofun))

/-- FAILED is written unless it was read. -/
theorem write_markFailed {seen r : Receipt} (reason : String)
    (h : seen.status = .failed → r.Settled) : (seen.write (seen.markFailed reason) r).Settled := by
  by_cases hf : seen.status = .failed
  · have hw : (seen.write (seen.markFailed reason) r).status = r.status :=
      if_pos (show ReceiptStatus.failed = seen.status from hf.symm)
    unfold Receipt.Settled
    rw [hw]
    exact h hf
  · exact .inr (written_ne _ (Ne.symm hf))

/-- An execution leaves its row behind exactly if it is cut short. -/
theorem runExtraction_leaves (h : runExtraction origin row stage act = some (row', stage'))
    (hmarked : stage.Marked) (hseen : stage.Seen → row ≠ none)
    (hreread : ∀ seen error, stage = .failing (some seen) error → seen.status = .failed →
      ¬ Unsettled row) :
    Unsettled row' ∧ ¬ stage'.Writer ↔
      (Unsettled row ∧ ¬ stage.Writer) ∨ CutShort row stage act := by
  have hc := runExtraction_cases h
  -- a stage that has still to write makes both sides false
  have hwriter : stage'.Writer → stage.Writer → ¬ CutShort row stage act →
      (Unsettled row' ∧ ¬ stage'.Writer ↔ (Unsettled row ∧ ¬ stage.Writer) ∨ CutShort row stage act) :=
    fun hw' hw hcut => ⟨fun hl => absurd hw' hl.2, fun hr => (hr.resolve_right hcut).2.elim hw⟩
  cases act with
  | load answered =>
    obtain ⟨rfl, rfl, rfl⟩ := hc
    cases answered with
    | false => simp [Stage.Writer, CutShort]
    | true =>
      cases row' with
      | none => simp [unsettled_none, CutShort]
      | some r =>
        by_cases hr : r.status = .extracted
        · have hsettled : r.Settled := .inl hr
          simp [unsettled_some, hsettled, CutShort]
        · simp [afterLoad, hr, Stage.Writer, CutShort]
  | mark reply =>
    obtain ⟨seen, rfl, rfl, rfl⟩ := hc
    obtain ⟨r, rfl⟩ := Option.ne_none_iff_exists'.1 (hseen trivial)
    cases reply with
    | ok => exact hwriter trivial trivial id
    | failed => simp [Stage.Writer, CutShort]
    | lost =>
      simp [Stage.Writer, CutShort, unsettled_some, write_markProcessing, imp_iff_not_or]
  | extract result =>
    obtain ⟨seen, rfl, rfl, ⟨json, rfl⟩ | ⟨error, rfl⟩⟩ := hc
    · exact hwriter trivial trivial id
    · exact hwriter trivial trivial id
  | save reply error =>
    obtain ⟨seen, json, rfl, rfl, rfl⟩ := hc
    obtain ⟨r, rfl⟩ := Option.ne_none_iff_exists'.1 (hseen trivial)
    cases reply with
    | ok =>
      have hsettled := write_saveExtraction json r hmarked
      simp [unsettled_some, hsettled, Stage.Writer, CutShort]
    | failed => exact hwriter trivial trivial id
    | lost => exact hwriter trivial trivial id
  | reload answered =>
    obtain ⟨error, rfl, rfl, rfl⟩ := hc
    obtain ⟨r, rfl⟩ := Option.ne_none_iff_exists'.1 (hseen trivial)
    cases answered with
    | false => simp [Stage.Writer, CutShort]
    | true => exact hwriter trivial trivial id
  | fail reply =>
    obtain ⟨seen, error, rfl, rfl, rfl⟩ := hc
    obtain ⟨r, rfl⟩ := Option.ne_none_iff_exists'.1 (hseen trivial)
    have hsettled : (seen.write (seen.markFailed error) r).Settled := write_markFailed error
      fun hf => not_not.1 fun hr => hreread seen error rfl hf (unsettled_some.2 hr)
    cases reply with
    | ok => simp [unsettled_some, hsettled, Stage.Writer, CutShort]
    | failed => simp [Stage.Writer, CutShort]
    | lost => simp [unsettled_some, hsettled, Stage.Writer, CutShort]
  | record answered =>
    obtain ⟨failed, rfl, rfl, raised, rfl⟩ := hc
    simp [Stage.Writer, CutShort]

/-- An execution that is past its first read has found a row. -/
theorem runExtraction_seen (h : runExtraction origin row stage act = some (row', stage'))
    (hseen : stage.Seen → row ≠ none) : stage'.Seen → row' ≠ none := by
  have hc := runExtraction_cases h
  rw [Ne, runExtraction_row h]
  intro hs'
  cases act with
  | load answered =>
    obtain ⟨rfl, rfl, rfl⟩ := hc
    rintro rfl
    cases answered
    · exact hs'
    · exact hs'
  | mark reply =>
    obtain ⟨seen, rfl, -⟩ := hc
    exact hseen trivial
  | extract result =>
    obtain ⟨seen, rfl, -⟩ := hc
    exact hseen trivial
  | save reply error =>
    obtain ⟨seen, json, rfl, -⟩ := hc
    exact hseen trivial
  | reload answered =>
    obtain ⟨error, rfl, -⟩ := hc
    exact hseen trivial
  | fail reply =>
    obtain ⟨seen, error, rfl, -⟩ := hc
    exact hseen trivial
  | record answered =>
    obtain ⟨failed, rfl, -⟩ := hc
    exact hseen trivial

theorem runExtraction_marked (h : runExtraction origin row stage act = some (row', stage'))
    (hmarked : stage.Marked) : stage'.Marked := by
  have hc := runExtraction_cases h
  cases act with
  | load answered =>
    obtain ⟨-, -, rfl⟩ := hc
    cases answered with
    | false => trivial
    | true =>
      cases row with
      | none => trivial
      | some r =>
        simp only [if_true, afterLoad]
        split_ifs
        · trivial
        · trivial
  | mark reply =>
    obtain ⟨seen, -, -, rfl⟩ := hc
    split_ifs
    · exact rfl
    · trivial
  | extract result =>
    obtain ⟨seen, rfl, -, ⟨json, rfl⟩ | ⟨error, rfl⟩⟩ := hc
    · exact hmarked
    · trivial
  | save reply error =>
    obtain ⟨seen, json, -, -, rfl⟩ := hc
    split_ifs
    · trivial
    · trivial
  | reload answered =>
    obtain ⟨error, -, -, rfl⟩ := hc
    cases answered with
    | false => trivial
    | true => cases row <;> trivial
  | fail reply =>
    obtain ⟨seen, error, -, -, rfl⟩ := hc
    split_ifs
    · trivial
    · trivial
  | record answered =>
    obtain ⟨failed, -, -, raised, rfl⟩ := hc
    trivial

/-! ## All of them -/

/-- The receipt of a request that is not over. -/
def Phase.receiptId : Phase → Option ℕ
  | .flushed id | .stored id | .queued id _ | .responded id _ => some id
  | .idle | .ended => none

/-- A step of request `i` other than its commit: it keeps its receipt, drops it or takes the
next id, and hands it to executions only. -/
structure Moved (s s' : State) (i : ℕ) : Prop where
  receipts : s'.receipts = s.receipts
  nextId : s.nextId ≤ s'.nextId
  others : ∀ j, j ≠ i → s'.phase j = s.phase j
  held : ∀ id, (s'.phase i).receiptId = some id →
    (s.phase i).receiptId = some id ∨ id = s.nextId ∧ id < s'.nextId
  stages : ∀ x, s'.stage x = s.stage x ∨
    s'.stage x = .waiting ∧ (s.phase i).receiptId = some x.receiptId

theorem moved_setPhase {p : Phase} (h : ∀ id, p.receiptId = some id → (s.phase i).receiptId = some id) :
    Moved s (s.setPhase i p) i where
  receipts := rfl
  nextId := le_rfl
  others := fun _ hj => Function.update_of_ne hj ..
  held := fun id hid => .inl (h id (by rwa [setPhase_self] at hid))
  stages := fun _ => .inl rfl

theorem moved_handed {p : Phase} (hp : (s.phase i).receiptId = some id) (hid : p.receiptId = some id)
    (x : Execution) (hx : x.receiptId = id) : Moved s ((s.setStage x .waiting).setPhase i p) i where
  receipts := rfl
  nextId := le_rfl
  others := fun _ hj => Function.update_of_ne hj ..
  held := fun id' hid' => by
    rw [setPhase_self, hid] at hid'
    exact .inl (hp.trans hid')
  stages := fun y => by
    by_cases hy : y = x
    · subst hy
      exact .inr ⟨Function.update_self .., hx ▸ hp⟩
    · exact .inl (Function.update_of_ne hy ..)

/-- What a step can do. -/
theorem step_cases (h : step queue s e = some s') :
    match e with
    | .refuse i => s.phase i = .idle ∧ s' = s.setPhase i .ended
    | .flush i => s.phase i = .idle ∧
        s' = { s with nextId := s.nextId + 1 }.setPhase i (.flushed s.nextId)
    | .writeFile i => ∃ id, s.phase i = .flushed id ∧ s' = s.setPhase i (.stored id)
    | .enqueue i reply => ∃ id, s.phase i = .stored id ∧
        s' = (enqueueExtract queue s id reply).1.setPhase i
          (.queued id (enqueueExtract queue s id reply).2)
    | .respond i => ∃ id inline, s.phase i = .queued id inline ∧
        s' = (s.startTask id inline).setPhase i (.responded id inline)
    | .commit i => ∃ id inline, s.phase i = .responded id inline ∧ s.TaskEnded id inline false ∧
        s' = (s.setReceipt id (some {})).setPhase i .ended
    | .rollback i => (∃ id, (s.phase i).receiptId = some id) ∧ s' = s.setPhase i .ended
    | .run x act => ∃ row stage,
        runExtraction x.origin (s.receipts x.receiptId) (s.stage x) act = some (row, stage) ∧
        s' = (s.setReceipt x.receiptId row).setStage x stage := by
  cases e with
  | refuse i =>
    simp only [step] at h
    split at h
    · exact ⟨‹_›, by simpa using h.symm⟩
    · cases h
  | flush i =>
    simp only [step] at h
    split at h
    · exact ⟨‹_›, by simpa using h.symm⟩
    · cases h
  | writeFile i =>
    simp only [step] at h
    split at h
    · exact ⟨_, ‹_›, by simpa using h.symm⟩
    · cases h
  | enqueue i reply =>
    simp only [step] at h
    split at h
    · exact ⟨_, ‹_›, by simpa using h.symm⟩
    · cases h
  | respond i =>
    simp only [step] at h
    split at h
    · exact ⟨_, _, ‹_›, by simpa using h.symm⟩
    · cases h
  | commit i =>
    simp only [step] at h
    split at h
    · split_ifs at h with hended
      exact ⟨_, _, ‹_›, hended, by simpa using h.symm⟩
    · cases h
  | rollback i =>
    simp only [step] at h
    split at h
    · rename_i id hp
      exact ⟨⟨id, by rw [hp]; rfl⟩, by simpa using h.symm⟩
    · rename_i id hp
      exact ⟨⟨id, by rw [hp]; rfl⟩, by simpa using h.symm⟩
    · rename_i id inline hp
      exact ⟨⟨id, by rw [hp]; rfl⟩, by simpa using h.symm⟩
    · rename_i id inline hp
      split_ifs at h
      exact ⟨⟨id, by rw [hp]; rfl⟩, by simpa using h.symm⟩
    · cases h
  | run x act =>
    obtain ⟨p, hp, rfl⟩ := Option.map_eq_some_iff.1 h
    exact ⟨p.1, p.2, hp, rfl⟩

/-- The request a step belongs to, commits apart. -/
def Event.mover : Event → Option ℕ
  | .refuse i | .flush i | .writeFile i | .enqueue i _ | .respond i | .rollback i => some i
  | .commit _ | .run _ _ => none

theorem moved_of_step (h : step queue s e = some s') (hi : e.mover = some i) : Moved s s' i := by
  have hc := step_cases h
  cases e with
  | refuse j =>
    cases hi
    obtain ⟨-, rfl⟩ := hc
    exact moved_setPhase nofun
  | flush j =>
    cases hi
    obtain ⟨-, rfl⟩ := hc
    refine ⟨rfl, Nat.le_succ _, fun j hj => setPhase_of_ne _ _ hj, fun id hid => ?_,
      fun _ => .inl rfl⟩
    rw [setPhase_self] at hid
    obtain rfl := Option.some.inj hid
    exact .inr ⟨rfl, Nat.lt_succ_self _⟩
  | writeFile j =>
    cases hi
    obtain ⟨id, hp, rfl⟩ := hc
    exact moved_setPhase fun id' hid => by rw [hp]; exact hid
  | enqueue j reply =>
    cases hi
    obtain ⟨id, hp, rfl⟩ := hc
    have hheld : (s.phase i).receiptId = some id := by rw [hp]; rfl
    have hkeep : ∀ b, Moved s (s.setPhase i (.queued id b)) i :=
      fun b => moved_setPhase fun id' hid => hheld.trans hid
    have hjob : ∀ b, Moved s ((s.enqueueJob id).setPhase i (.queued id b)) i := by
      intro b
      unfold State.enqueueJob
      split_ifs
      · exact moved_handed hheld rfl _ rfl
      · exact hkeep b
    unfold enqueueExtract
    split_ifs
    · exact hkeep true
    · cases reply with
      | ok => exact hjob false
      | failed => exact hkeep true
      | lost => exact hjob true
  | respond j =>
    cases hi
    obtain ⟨id, inline, hp, rfl⟩ := hc
    have hheld : (s.phase i).receiptId = some id := by rw [hp]; rfl
    cases inline with
    | false => exact moved_setPhase fun id' hid => hheld.trans hid
    | true => exact moved_handed hheld rfl _ rfl
  | rollback j =>
    cases hi
    obtain ⟨-, rfl⟩ := hc
    exact moved_setPhase nofun
  | commit j => cases hi
  | run x act => cases hi

/-! ## The invariant -/

/-- Ids are handed out once, rows of requests under way are not committed, and executions past
their first read have found a committed row. -/
structure Sound (s : State) : Prop where
  issued : ∀ id, s.nextId ≤ id → s.receipts id = none
  held_lt : ∀ i id, (s.phase i).receiptId = some id → id < s.nextId
  own : ∀ i j id, (s.phase i).receiptId = some id → (s.phase j).receiptId = some id → i = j
  uncommitted : ∀ i id, (s.phase i).receiptId = some id → s.receipts id = none
  seen : ∀ x, (s.stage x).Seen → s.receipts x.receiptId ≠ none
  marked : ∀ x, (s.stage x).Marked

theorem sound_init : Sound State.init :=
  ⟨fun _ _ => rfl, nofun, nofun, fun _ _ _ => rfl, nofun, fun _ => trivial⟩

theorem Sound.moved (h : Sound s) (hm : Moved s s' i) : Sound s' := by
  -- what a request holds afterwards is its own id, or the next one
  have hheld : ∀ j id, (s'.phase j).receiptId = some id →
      (s.phase j).receiptId = some id ∨ j = i ∧ id = s.nextId ∧ id < s'.nextId := by
    intro j id hid
    by_cases hj : j = i
    · subst hj
      exact (hm.held id hid).imp_right fun hnew => ⟨rfl, hnew⟩
    · rw [hm.others j hj] at hid
      exact .inl hid
  refine ⟨fun id hid => ?_, fun j id hid => ?_, fun j k id hj hk => ?_, fun j id hid => ?_,
    fun x hx => ?_, fun x => ?_⟩
  · rw [hm.receipts]
    exact h.issued id (hm.nextId.trans hid)
  · rcases hheld j id hid with hold | ⟨-, -, hlt⟩
    · exact (h.held_lt j id hold).trans_le hm.nextId
    · exact hlt
  · rcases hheld j id hj with hj | ⟨rfl, rfl, -⟩
    · rcases hheld k id hk with hk | ⟨-, rfl, -⟩
      · exact h.own j k id hj hk
      · exact absurd (h.held_lt j _ hj) (lt_irrefl _)
    · rcases hheld k _ hk with hk | ⟨rfl, -, -⟩
      · exact absurd (h.held_lt k _ hk) (lt_irrefl _)
      · rfl
  · rw [hm.receipts]
    rcases hheld j id hid with hold | ⟨-, rfl, -⟩
    · exact h.uncommitted j id hold
    · exact h.issued _ le_rfl
  · rw [hm.receipts]
    rcases hm.stages x with hsame | ⟨hwaiting, -⟩
    · exact h.seen x (hsame ▸ hx)
    · rw [hwaiting] at hx
      exact hx.elim
  · rcases hm.stages x with hsame | ⟨hwaiting, -⟩
    · exact hsame ▸ h.marked x
    · rw [hwaiting]
      trivial

theorem Sound.commit (h : Sound s) {inline : Bool} (hp : s.phase i = .responded id inline) :
    Sound ((s.setReceipt id (some {})).setPhase i .ended) := by
  have hid : (s.phase i).receiptId = some id := by rw [hp]; rfl
  have hphase : ∀ j id', (((s.setReceipt id (some {})).setPhase i .ended).phase j).receiptId =
      some id' → j ≠ i ∧ (s.phase j).receiptId = some id' := by
    intro j id' hj
    by_cases hji : j = i
    · subst hji
      rw [setPhase_self] at hj
      cases hj
    · rw [setPhase_of_ne _ _ hji] at hj
      exact ⟨hji, hj⟩
  refine ⟨fun id' hle => ?_, fun j id' hj => ?_, fun j k id' hj hk => ?_, fun j id' hj => ?_,
    fun x hx => ?_, h.marked⟩
  · have hne : id' ≠ id := fun he => absurd (he ▸ hle) (Nat.not_le.2 (h.held_lt i id hid))
    exact (setReceipt_of_ne s _ hne).trans (h.issued id' hle)
  · exact h.held_lt j id' (hphase j id' hj).2
  · exact h.own j k id' (hphase j id' hj).2 (hphase k id' hk).2
  · obtain ⟨hji, hheld⟩ := hphase j id' hj
    have hne : id' ≠ id := fun he => hji (h.own j i id (he ▸ hheld) hid)
    exact (setReceipt_of_ne s _ hne).trans (h.uncommitted j id' hheld)
  · by_cases hx' : x.receiptId = id
    · rw [hx']
      exact (setReceipt_self s id (some {})).trans_ne nofun
    · exact (setReceipt_of_ne s _ hx').trans_ne (h.seen x hx)

theorem Sound.run (h : Sound s)
    (hr : runExtraction x.origin (s.receipts x.receiptId) (s.stage x) act = some (row, stage)) :
    Sound ((s.setReceipt x.receiptId row).setStage x stage) := by
  have hrow := runExtraction_row hr
  have hnone : ∀ id, s.receipts id = none →
      ((s.setReceipt x.receiptId row).setStage x stage).receipts id = none := by
    intro id hid
    by_cases hx : id = x.receiptId
    · subst hx
      exact (setReceipt_self ..).trans (hrow.2 hid)
    · exact (setReceipt_of_ne s _ hx).trans hid
  refine ⟨fun id hid => hnone id (h.issued id hid), h.held_lt, h.own,
    fun j id hj => hnone id (h.uncommitted j id hj), fun y hy => ?_, fun y => ?_⟩
  · by_cases hyx : y = x
    · subst hyx
      rw [setStage_self] at hy
      exact (setReceipt_self ..).trans_ne (runExtraction_seen hr (h.seen y) hy)
    · rw [setStage_of_ne _ _ hyx] at hy
      have hseen := h.seen y hy
      by_cases hid : y.receiptId = x.receiptId
      · rw [hid] at hseen ⊢
        exact (setReceipt_self ..).trans_ne fun hn => hseen (hrow.1 hn)
      · exact (setReceipt_of_ne s _ hid).trans_ne hseen
  · by_cases hyx : y = x
    · subst hyx
      rw [setStage_self]
      exact runExtraction_marked hr (h.marked y)
    · rw [setStage_of_ne _ _ hyx]
      exact h.marked y

theorem Sound.step (h : Sound s) (hs : step queue s e = some s') : Sound s' := by
  have hc := step_cases hs
  cases e with
  | commit i =>
    obtain ⟨id, inline, hp, -, rfl⟩ := hc
    exact h.commit hp
  | run x act =>
    obtain ⟨row, stage, hr, rfl⟩ := hc
    exact h.run hr
  | _ => exact h.moved (moved_of_step hs rfl)

/-! ## FAILED, read again -/

/-- What the execution does to its row is done. -/
def Stage.Past : Stage → Prop
  | .recording _ | .ended _ => True
  | _ => False

theorem runExtraction_past (h : runExtraction origin row stage act = some (row', stage'))
    (hpast : stage.Past) : row' = row ∧ stage'.Past := by
  have hc := runExtraction_cases h
  cases act with
  | load answered =>
    obtain ⟨rfl, -⟩ := hc
    exact hpast.elim
  | mark reply =>
    obtain ⟨seen, rfl, -⟩ := hc
    exact hpast.elim
  | extract result =>
    obtain ⟨seen, rfl, -⟩ := hc
    exact hpast.elim
  | save reply error =>
    obtain ⟨seen, json, rfl, -⟩ := hc
    exact hpast.elim
  | reload answered =>
    obtain ⟨error, rfl, -⟩ := hc
    exact hpast.elim
  | fail reply =>
    obtain ⟨seen, error, rfl, -⟩ := hc
    exact hpast.elim
  | record answered =>
    obtain ⟨failed, rfl, rfl, raised, rfl⟩ := hc
    exact ⟨rfl, trivial⟩

/-- FAILED comes from `mark_failed`, which is the last thing an execution writes. -/
theorem runExtraction_failed (h : runExtraction origin row stage act = some (row', stage'))
    {r' : Receipt} (hr' : row' = some r') (hf : r'.status = .failed) :
    stage'.Past ∨ ∃ r, row = some r ∧ r.status = .failed := by
  have hc := runExtraction_cases h
  have hold : row' = row → stage'.Past ∨ ∃ r, row = some r ∧ r.status = .failed :=
    fun he => .inr ⟨r', he ▸ hr', hf⟩
  -- an UPDATE to another status leaves FAILED only where it does not write it
  have hwrite : ∀ seen new : Receipt, new.status ≠ .failed →
      row' = row.map (seen.write new) → stage'.Past ∨ ∃ r, row = some r ∧ r.status = .failed := by
    intro seen new hnew he
    obtain ⟨r, hr, rfl⟩ := Option.map_eq_some_iff.1 (he.symm.trans hr')
    refine .inr ⟨r, hr, ?_⟩
    have hf : written seen.status new.status r.status = .failed := hf
    unfold written at hf
    split_ifs at hf
    · exact hf
    · exact absurd hf hnew
  cases act with
  | load answered => exact hold hc.2.1
  | mark reply =>
    obtain ⟨seen, -, he, -⟩ := hc
    split_ifs at he
    · exact hold he
    · exact hwrite _ _ (by simp [Receipt.markProcessing]) he
  | extract result =>
    obtain ⟨seen, -, he, -⟩ := hc
    exact hold he
  | save reply error =>
    obtain ⟨seen, json, -, he, -⟩ := hc
    split_ifs at he
    · exact hold he
    · exact hwrite _ _ (by simp [saveExtraction]) he
  | reload answered =>
    obtain ⟨error, -, he, -⟩ := hc
    exact hold he
  | fail reply =>
    obtain ⟨seen, error, -, -, rfl⟩ := hc
    left
    split_ifs
    · trivial
    · trivial
  | record answered =>
    obtain ⟨failed, -, he, -⟩ := hc
    exact hold he

theorem runExtraction_reread (h : runExtraction origin row stage act = some (row', stage'))
    (hmarked : stage.Marked) {seen : Receipt} {error : String}
    (hstage : stage' = .failing (some seen) error) (hf : seen.status = .failed) :
    row' = row ∧ row = some seen := by
  have hc := runExtraction_cases h
  cases act with
  | load answered =>
    obtain ⟨-, -, he⟩ := hc
    rw [hstage] at he
    cases answered with
    | false => cases he
    | true =>
      cases row with
      | none => cases he
      | some r =>
        simp only [if_true, afterLoad] at he
        split_ifs at he
  | mark reply =>
    obtain ⟨seen', -, -, he⟩ := hc
    rw [hstage] at he
    split_ifs at he
  | extract result =>
    obtain ⟨seen', rfl, -, ⟨json, he⟩ | ⟨error', he⟩⟩ := hc
    · rw [hstage] at he
      cases he
    · rw [hstage] at he
      obtain ⟨rfl, -⟩ := Stage.failing.inj he |>.imp_left Option.some.inj
      rw [show seen.status = .processing from hmarked] at hf
      cases hf
  | save reply error =>
    obtain ⟨seen', json, -, -, he⟩ := hc
    rw [hstage] at he
    split_ifs at he
    cases (Stage.failing.inj he).1
  | reload answered =>
    obtain ⟨error', -, rfl, he⟩ := hc
    rw [hstage] at he
    refine ⟨rfl, ?_⟩
    cases answered with
    | false => cases he
    | true =>
      cases row' with
      | none => cases he
      | some r => exact (Stage.failing.inj he).1.symm
  | fail reply =>
    obtain ⟨seen', error', -, -, he⟩ := hc
    rw [hstage] at he
    split_ifs at he
  | record answered =>
    obtain ⟨failed, -, -, raised, he⟩ := hc
    rw [hstage] at he
    cases he

/-- A receipt has two executions, a job and a task. -/
theorem Execution.other {z : Execution} (hx : x ≠ y) (hz : z ≠ y) (hxy : x.receiptId = y.receiptId)
    (hzy : z.receiptId = y.receiptId) : x = z := by
  obtain ⟨ox, ix⟩ := x
  obtain ⟨oy, iy⟩ := y
  obtain ⟨oz, iz⟩ := z
  obtain rfl : ix = iy := hxy
  obtain rfl : iz = ix := hzy
  cases ox <;> cases oy <;> cases oz <;> simp_all

/-- Whoever reads FAILED again reads what the other execution has left, for good. -/
structure FailedOnce (s : State) : Prop where
  failed : ∀ id r, s.receipts id = some r → r.status = .failed →
    ∃ z, z.receiptId = id ∧ (s.stage z).Past
  reread : ∀ x seen error, s.stage x = .failing (some seen) error → seen.status = .failed →
    ¬ Unsettled (s.receipts x.receiptId) ∧ ∃ z, z.receiptId = x.receiptId ∧ (s.stage z).Past

theorem failedOnce_init : FailedOnce State.init := ⟨nofun, nofun⟩

theorem FailedOnce.moved (h : FailedOnce s) (hsound : Sound s) (hm : Moved s s' i) :
    FailedOnce s' := by
  have hpast : ∀ id, s.receipts id ≠ none → (∃ z, z.receiptId = id ∧ (s.stage z).Past) →
      ∃ z, z.receiptId = id ∧ (s'.stage z).Past := by
    intro id hne hz
    obtain ⟨z, rfl, hpast⟩ := hz
    rcases hm.stages z with hsame | ⟨-, hheld⟩
    · exact ⟨z, rfl, hsame ▸ hpast⟩
    · exact absurd (hsound.uncommitted i _ hheld) hne
  refine ⟨fun id r hr hf => ?_, fun x seen error hx hf => ?_⟩
  · rw [hm.receipts] at hr
    exact hpast id (by rw [hr]; simp) (h.failed id r hr hf)
  · rw [hm.receipts]
    rcases hm.stages x with hsame | ⟨hwaiting, -⟩
    · rw [hsame] at hx
      obtain ⟨hsettled, hz⟩ := h.reread x seen error hx hf
      exact ⟨hsettled, hpast _ (hsound.seen x (by rw [hx]; trivial)) hz⟩
    · rw [hwaiting] at hx
      cases hx

theorem FailedOnce.commit (h : FailedOnce s) (hsound : Sound s) {inline : Bool}
    (hp : s.phase i = .responded id inline) :
    FailedOnce ((s.setReceipt id (some {})).setPhase i .ended) := by
  have hnone : s.receipts id = none := hsound.uncommitted i id (by rw [hp]; rfl)
  refine ⟨fun id' r hr hf => ?_, fun x seen error hx hf => ?_⟩
  · by_cases hid : id' = id
    · subst hid
      obtain rfl := Option.some.inj ((setReceipt_self s id' (some {})).symm.trans hr)
      cases hf
    · exact h.failed id' r ((setReceipt_of_ne s _ hid).symm.trans hr) hf
  · have hne : x.receiptId ≠ id := by
      rintro rfl
      have hx : s.stage x = .failing (some seen) error := hx
      exact hsound.seen x (by rw [hx]; trivial) hnone
    have hsame : ((s.setReceipt id (some {})).setPhase i .ended).receipts x.receiptId =
        s.receipts x.receiptId := setReceipt_of_ne s _ hne
    rw [hsame]
    exact h.reread x seen error hx hf

theorem FailedOnce.run (h : FailedOnce s) (hsound : Sound s)
    (hr : runExtraction x.origin (s.receipts x.receiptId) (s.stage x) act = some (row, stage)) :
    FailedOnce ((s.setReceipt x.receiptId row).setStage x stage) := by
  have hother : ∀ y, y ≠ x → ((s.setReceipt x.receiptId row).setStage x stage).stage y = s.stage y :=
    fun y hy => setStage_of_ne _ _ hy
  have hself : ((s.setReceipt x.receiptId row).setStage x stage).stage x = stage := setStage_self ..
  have hpast : ∀ id, (∃ z, z.receiptId = id ∧ (s.stage z).Past) →
      ∃ z, z.receiptId = id ∧ (((s.setReceipt x.receiptId row).setStage x stage).stage z).Past := by
    intro id hz
    obtain ⟨z, rfl, hpast⟩ := hz
    refine ⟨z, rfl, ?_⟩
    by_cases hzx : z = x
    · subst hzx
      rw [hself]
      exact (runExtraction_past hr hpast).2
    · rw [hother z hzx]
      exact hpast
  have hrow : ∀ id, ((s.setReceipt x.receiptId row).setStage x stage).receipts id =
      if id = x.receiptId then row else s.receipts id := by
    intro id
    exact Function.update_apply ..
  refine ⟨fun id r hid hf => ?_, fun y seen error hy hf => ?_⟩
  · rw [hrow] at hid
    split_ifs at hid with hx
    · subst hx
      rcases runExtraction_failed hr hid hf with hp | ⟨r₀, hr₀, hf₀⟩
      · exact ⟨x, rfl, by rwa [hself]⟩
      · exact hpast _ (h.failed _ r₀ hr₀ hf₀)
    · exact hpast id (h.failed id r hid hf)
  · rw [hrow]
    by_cases hyx : y = x
    · subst hyx
      rw [hself] at hy
      obtain ⟨rfl, hseen⟩ := runExtraction_reread hr (hsound.marked y) hy hf
      rw [if_pos rfl, hseen]
      exact ⟨fun hu => unsettled_some.1 hu (.inr hf), hpast _ (h.failed _ seen hseen hf)⟩
    · rw [hother y hyx] at hy
      obtain ⟨hsettled, z, hz, hzpast⟩ := h.reread y seen error hy hf
      refine ⟨?_, hpast _ ⟨z, hz, hzpast⟩⟩
      split_ifs with hid
      · -- of the two, `y` is failing and the other one past it
        have hzy : z ≠ y := by
          rintro rfl
          rw [hy] at hzpast
          exact hzpast
        obtain rfl := Execution.other (Ne.symm hyx) hzy hid.symm hz
        rw [(runExtraction_past hr hzpast).1, ← hid]
        exact hsettled
      · exact hsettled

theorem FailedOnce.step (h : FailedOnce s) (hsound : Sound s) (hs : step queue s e = some s') :
    FailedOnce s' := by
  have hc := step_cases hs
  cases e with
  | commit i =>
    obtain ⟨id, inline, hp, -, rfl⟩ := hc
    exact h.commit hsound hp
  | run x act =>
    obtain ⟨row, stage, hr, rfl⟩ := hc
    exact h.run hsound hr
  | _ => exact h.moved hsound (moved_of_step hs rfl)

/-! ## Rows left behind -/

/-- A committed row is unsettled and no execution will settle it. -/
def Forsaken (s : State) (id : ℕ) : Prop :=
  Unsettled (s.receipts id) ∧ ∀ x, x.receiptId = id → ¬ (s.stage x).Writer

/-- A commit finds an execution of its receipt still waiting, and an execution is cut short only
while another one has still to settle the row. -/
def Kept (s : State) : Event → Prop
  | .commit i => ∀ id inline, s.phase i = .responded id inline →
      ∃ x, x.receiptId = id ∧ s.stage x = .waiting
  | .run x act => CutShort (s.receipts x.receiptId) (s.stage x) act →
      ∃ y, y ≠ x ∧ y.receiptId = x.receiptId ∧ (s.stage y).Writer
  | _ => True

/-- No request, task or job is pending. -/
def Quiescent (s : State) : Prop :=
  (∀ i, s.phase i = .idle ∨ s.phase i = .ended) ∧
    ∀ x, s.stage x = .absent ∨ ∃ raised, s.stage x = .ended raised

def AllSettled (s : State) : Prop := ∀ id r, s.receipts id = some r → r.Settled

theorem Quiescent.allSettled_iff (h : Quiescent s) : AllSettled s ↔ ∀ id, ¬ Forsaken s id := by
  have hidle : ∀ x, ¬ (s.stage x).Writer := by
    intro x hx
    rcases h.2 x with hs | ⟨raised, hs⟩
    · rw [hs] at hx
      exact hx
    · rw [hs] at hx
      exact hx
  refine ⟨fun hall id hf => ?_, fun hall id r hr => ?_⟩
  · obtain ⟨⟨r, hr, hunsettled⟩, -⟩ := hf
    exact hunsettled (hall id r hr)
  · by_contra hunsettled
    exact hall id ⟨⟨r, hr, hunsettled⟩, fun x _ => hidle x⟩

/-- A request that moves leaves no row behind and saves none. -/
theorem Sound.forsaken_moved (h : Sound s) (hm : Moved s s' i) (id : ℕ) :
    Forsaken s' id ↔ Forsaken s id := by
  unfold Forsaken
  rw [hm.receipts]
  refine and_congr_right fun hu => forall_congr' fun x => imp_congr_right fun hx => ?_
  rcases hm.stages x with hsame | ⟨-, hheld⟩
  · rw [hsame]
  · rw [← hx, h.uncommitted i _ hheld] at hu
    exact absurd hu unsettled_none

/-- A commit leaves its row behind exactly if nothing waits for it. -/
theorem Sound.forsaken_commit (h : Sound s) {inline : Bool} (hp : s.phase i = .responded id inline)
    (id' : ℕ) : Forsaken ((s.setReceipt id (some {})).setPhase i .ended) id' ↔
      Forsaken s id' ∨ id' = id ∧ ¬ Kept s (.commit i) := by
  have hnone : s.receipts id = none := h.uncommitted i id (by rw [hp]; rfl)
  by_cases hid : id' = id
  · subst hid
    have hold : ¬ Forsaken s id' := fun hf => unsettled_none (hnone ▸ hf.1)
    have hnew : Unsettled (((s.setReceipt id' (some {})).setPhase i .ended).receipts id') := by
      rw [show ((s.setReceipt id' (some {})).setPhase i .ended).receipts id' = some {} from
        setReceipt_self ..]
      exact unsettled_some.2 (by simp [Receipt.Settled])
    -- before the commit nobody has seen the row: the executions of it wait or have ended
    have hwaiting : ∀ x, x.receiptId = id' → ((s.stage x).Writer ↔ s.stage x = .waiting) := by
      intro x hx
      have hseen := h.seen x
      rw [hx] at hseen
      generalize s.stage x = p at hseen ⊢
      cases p with
      | absent => simp [Stage.Writer]
      | waiting => simp [Stage.Writer]
      | ended raised => simp [Stage.Writer]
      | _ => exact absurd hnone (hseen trivial)
    have hkept : Kept s (.commit i) ↔ ∃ x, x.receiptId = id' ∧ s.stage x = .waiting := by
      refine ⟨fun hk => hk id' inline hp, fun hk id inline' hp' => ?_⟩
      obtain ⟨rfl, -⟩ := Phase.responded.inj (hp.symm.trans hp')
      exact hk
    simp only [hold, false_or, true_and, hkept, not_exists, not_and]
    refine ⟨fun hf x hx hw => hf.2 x hx ((hwaiting x hx).2 hw), fun hw => ⟨hnew, fun x hx hwr => ?_⟩⟩
    exact hw x hx ((hwaiting x hx).1 hwr)
  · have hsame : ((s.setReceipt id (some {})).setPhase i .ended).receipts id' = s.receipts id' :=
      setReceipt_of_ne s _ hid
    unfold Forsaken
    rw [hsame]
    simp only [hid, false_and, or_false]
    rfl

/-- An execution leaves its row behind exactly if it is cut short as the last one. -/
theorem Sound.forsaken_run (h : Sound s) (hfailed : FailedOnce s)
    (hr : runExtraction x.origin (s.receipts x.receiptId) (s.stage x) act = some (row, stage))
    (id : ℕ) : Forsaken ((s.setReceipt x.receiptId row).setStage x stage) id ↔
      Forsaken s id ∨ id = x.receiptId ∧ ¬ Kept s (.run x act) := by
  have hleaves := runExtraction_leaves hr (h.marked x) (h.seen x)
    fun seen error hx hf => (hfailed.reread x seen error hx hf).1
  by_cases hid : id = x.receiptId
  · subst hid
    -- the other executions of the receipt do not move
    have hsplit : ∀ (t : State) p, (∀ y, y ≠ x → t.stage y = s.stage y) → t.stage x = p →
        ((∀ y, y.receiptId = x.receiptId → ¬ (t.stage y).Writer) ↔
          ¬ p.Writer ∧ ∀ y, y ≠ x → y.receiptId = x.receiptId → ¬ (s.stage y).Writer) := by
      intro t p hothers hx
      refine ⟨fun hall => ⟨hx ▸ hall x rfl, fun y hy hid => hothers y hy ▸ hall y hid⟩, ?_⟩
      rintro ⟨hp, hall⟩ y hid
      by_cases hy : y = x
      · subst hy
        rwa [hx]
      · rw [hothers y hy]
        exact hall y hy hid
    have hnew := hsplit ((s.setReceipt x.receiptId row).setStage x stage) stage
      (fun y hy => setStage_of_ne _ _ hy) (setStage_self ..)
    have hold := hsplit s (s.stage x) (fun _ _ => rfl) rfl
    have hrow : ((s.setReceipt x.receiptId row).setStage x stage).receipts x.receiptId = row :=
      setReceipt_self ..
    have hkept : ¬ Kept s (.run x act) ↔ CutShort (s.receipts x.receiptId) (s.stage x) act ∧
        ∀ y, y ≠ x → y.receiptId = x.receiptId → ¬ (s.stage y).Writer := by
      simp only [Kept, Classical.not_imp, not_exists, not_and]
    unfold Forsaken
    rw [hnew, hold, hrow, hkept, ← and_assoc, ← and_assoc, hleaves]
    simp only [true_and]
    exact or_and_right
  · have hrow : ((s.setReceipt x.receiptId row).setStage x stage).receipts id = s.receipts id :=
      setReceipt_of_ne s _ hid
    have hstage : ∀ y, y.receiptId = id →
        ((s.setReceipt x.receiptId row).setStage x stage).stage y = s.stage y :=
      fun y hy => setStage_of_ne _ _ fun he => hid (by rw [← hy, he])
    unfold Forsaken
    rw [hrow]
    simp only [hid, false_and, or_false]
    exact and_congr_right fun _ => forall_congr' fun y => imp_congr_right fun hy => by rw [hstage y hy]

/-- A step leaves no row behind exactly if none was and the step is kept. -/
theorem Sound.attended_step (h : Sound s) (hfailed : FailedOnce s) (hs : ReceiptUpload.step queue s e = some s') :
    (∀ id, ¬ Forsaken s' id) ↔ (∀ id, ¬ Forsaken s id) ∧ Kept s e := by
  -- the row a step can leave behind
  have hone : ∀ id₀, (∀ id, Forsaken s' id ↔ Forsaken s id ∨ id = id₀ ∧ ¬ Kept s e) →
      ((∀ id, ¬ Forsaken s' id) ↔ (∀ id, ¬ Forsaken s id) ∧ Kept s e) := by
    intro id₀ hiff
    simp only [hiff, not_or, not_and, not_not, forall_and, forall_eq]
  have hc := step_cases hs
  cases e with
  | commit i =>
    obtain ⟨id, inline, hp, -, rfl⟩ := hc
    exact hone id (h.forsaken_commit hp)
  | run x act =>
    obtain ⟨row, stage, hr, rfl⟩ := hc
    exact hone x.receiptId (h.forsaken_run hfailed hr)
  | _ =>
    simp only [h.forsaken_moved (moved_of_step hs rfl), Kept, and_true]

/-- Where nothing is pending any more, every committed receipt is EXTRACTED or FAILED exactly
if every commit of the run found an execution waiting and none was cut short as the last one. -/
theorem uploads_settle_iff {tr : List (State × Event)}
    (hrun : Run (Fires (step queue)) State.init tr s) (hq : Quiescent s) :
    AllSettled s ↔ ∀ p ∈ tr, Kept p.1 p.2 := by
  have hinit : ∀ id, ¬ Forsaken State.init id := fun id hf => unsettled_none hf.1
  rw [hq.allSettled_iff]
  refine hrun.holds_iff (I := fun s => Sound s ∧ FailedOnce s) ⟨sound_init, failedOnce_init⟩ hinit
    (fun _ _ _ h hs => ⟨h.1.step hs, h.2.step h.1 hs⟩) fun _ _ _ h hs => h.1.attended_step h.2 hs

/-- One upload handed to the worker, which picks it up once it is committed. -/
def demoJob : List Event :=
  [.flush 0, .writeFile 0, .enqueue 0 .ok, .respond 0, .commit 0, .run ⟨.job, 1⟩ (.load true),
    .run ⟨.job, 1⟩ (.mark .ok), .run ⟨.job, 1⟩ (.extract (.ok "\x7b\x7d")),
    .run ⟨.job, 1⟩ (.save .ok ""), .run ⟨.job, 1⟩ (.record true)]

/-- One upload with a background task, which ends before the commit. -/
def demoTask : List Event :=
  [.flush 0, .writeFile 0, .enqueue 0 .ok, .respond 0, .run ⟨.task, 1⟩ (.load true), .commit 0]

theorem uploads_settle_iff_job : ∃ tr s, drive (step "arq") State.init demoJob = some (tr, s) ∧
    s.receipts 1 = some (saveExtraction "\x7b\x7d") ∧ ∀ p ∈ tr, Kept p.1 p.2 := by
  obtain ⟨⟨tr, s⟩, h⟩ : ∃ p, drive (step "arq") State.init demoJob = some p := ⟨_, rfl⟩
  have hrun := run_of_drive h
  obtain ⟨-, rfl⟩ := Prod.mk.inj (Option.some.inj h)
  refine ⟨tr, _, h, rfl, (uploads_settle_iff hrun ⟨fun i => ?_, fun x => ?_⟩).1 fun id r hr => ?_⟩
  · rcases i with _ | i
    · exact .inr rfl
    · exact .inl rfl
  · rcases x with ⟨_ | _, _ | _ | id⟩
    · exact .inl rfl
    · exact .inr ⟨false, rfl⟩
    · exact .inl rfl
    · exact .inl rfl
    · exact .inl rfl
    · exact .inl rfl
  · rcases id with _ | _ | id
    · cases hr
    · obtain rfl := Option.some.inj hr
      exact .inl rfl
    · cases hr

/-- A single upload in the default mode: its task looks for the row before `get_db` commits it,
gives up, and the row stays UPLOADED. -/
theorem uploads_settle_fails : ¬ ∀ (queue : String) (tr : List (State × Event)) (s : State),
    Run (Fires (step queue)) State.init tr s → Quiescent s → AllSettled s := by
  intro hall
  obtain ⟨⟨tr, s⟩, h⟩ : ∃ p, drive (step "inline") State.init demoTask = some p := ⟨_, rfl⟩
  have hrun := run_of_drive h
  obtain ⟨-, rfl⟩ := Prod.mk.inj (Option.some.inj h)
  have hsettled := hall "inline" tr _ hrun ⟨fun i => ?_, fun x => ?_⟩ 1 {} rfl
  · exact absurd hsettled (by simp [Receipt.Settled])
  · rcases i with _ | i
    · exact .inr rfl
    · exact .inl rfl
  · rcases x with ⟨_ | _, _ | _ | id⟩
    · exact .inl rfl
    · exact .inl rfl
    · exact .inl rfl
    · exact .inl rfl
    · exact .inr ⟨false, rfl⟩
    · exact .inl rfl

/-! ## Inline mode -/

/-- No jobs; the task of a committed row has returned before, without having seen it. -/
structure InlineOnly (s : State) : Prop where
  job : ∀ id, s.stage ⟨.job, id⟩ = .absent
  inline : ∀ i id b, s.phase i = .queued id b ∨ s.phase i = .responded id b → b = true
  committed : ∀ id r, s.receipts id = some r → r = {} ∧ s.stage ⟨.task, id⟩ = .ended false

/-- A request moves to a phase that carries a task, or none. -/
theorem InlineOnly.setPhase (h : InlineOnly s) (i : ℕ) {p : Phase}
    (hp : ∀ id b, p = .queued id b ∨ p = .responded id b → b = true) :
    InlineOnly (s.setPhase i p) := by
  refine ⟨h.job, fun j id b hj => ?_, h.committed⟩
  by_cases hji : j = i
  · subst hji
    rw [setPhase_self] at hj
    exact hp id b hj
  · rw [setPhase_of_ne _ _ hji] at hj
    exact h.inline j id b hj

/-- The task of a row that is not committed may be anywhere. -/
theorem InlineOnly.setTask (h : InlineOnly s) (hnone : s.receipts id = none) (p : Stage) :
    InlineOnly (s.setStage ⟨.task, id⟩ p) := by
  refine ⟨fun id' => (setStage_of_ne _ _ (by simp)).trans (h.job id'), h.inline, fun id' r hr => ?_⟩
  have hne : id' ≠ id := by
    rintro rfl
    exact absurd (hnone.symm.trans hr) nofun
  exact ⟨(h.committed id' r hr).1, (setStage_of_ne _ _ (by simpa using hne)).trans
    (h.committed id' r hr).2⟩

theorem InlineOnly.commit (h : InlineOnly s) (hended : s.stage ⟨.task, id⟩ = .ended false) :
    InlineOnly (s.setReceipt id (some {})) := by
  refine ⟨h.job, h.inline, fun id' r hr => ?_⟩
  by_cases hid : id' = id
  · subst hid
    rw [setReceipt_self] at hr
    exact ⟨(Option.some.inj hr).symm, hended⟩
  · rw [setReceipt_of_ne _ _ hid] at hr
    exact h.committed id' r hr

theorem InlineOnly.step (hqueue : queue ≠ "arq") (hsound : Sound s) (h : InlineOnly s)
    (hs : ReceiptUpload.step queue s e = some s') : InlineOnly s' := by
  have hc := step_cases hs
  cases e with
  | refuse i =>
    obtain ⟨-, rfl⟩ := hc
    exact h.setPhase i (by simp)
  | flush i =>
    obtain ⟨-, rfl⟩ := hc
    have hnext : InlineOnly { s with nextId := s.nextId + 1 } := ⟨h.job, h.inline, h.committed⟩
    exact hnext.setPhase i (by simp)
  | writeFile i =>
    obtain ⟨id, -, rfl⟩ := hc
    exact h.setPhase i (by simp)
  | enqueue i reply =>
    obtain ⟨id, -, rfl⟩ := hc
    rw [show enqueueExtract queue s id reply = (s, true) from if_pos hqueue]
    refine h.setPhase i fun id' b hb => ?_
    rcases hb with hb | hb
    · exact (Phase.queued.inj hb).2.symm
    · cases hb
  | respond i =>
    obtain ⟨id, inline, hp, rfl⟩ := hc
    obtain rfl := h.inline i id inline (.inl hp)
    have hnone : s.receipts id = none := hsound.uncommitted i id (by rw [hp]; rfl)
    refine (h.setTask hnone .waiting).setPhase i fun id' b hb => ?_
    rcases hb with hb | hb
    · cases hb
    · exact (Phase.responded.inj hb).2.symm
  | commit i =>
    obtain ⟨id, inline, hp, hended, rfl⟩ := hc
    obtain rfl := h.inline i id inline (.inr hp)
    exact (h.commit (hended rfl)).setPhase i (by simp)
  | rollback i =>
    obtain ⟨-, rfl⟩ := hc
    exact h.setPhase i (by simp)
  | run x act =>
    obtain ⟨row, stage, hr, rfl⟩ := hc
    obtain ⟨origin, id⟩ := x
    cases origin with
    | job =>
      rw [h.job id] at hr
      cases hr
    | task =>
      cases hrow : s.receipts id with
      | none =>
        obtain rfl := (runExtraction_row hr).2 hrow
        have hsame : s.setReceipt id none = s := by
          simp only [State.setReceipt, ← hrow, Function.update_eq_self]
        rw [hsame]
        exact h.setTask hrow stage
      | some r =>
        rw [(h.committed id r hrow).2] at hr
        cases hr

/-- Outside arq mode every committed upload stays UPLOADED: its task has come and gone. -/
theorem inline_uploads_lost {tr : List (State × Event)} (hqueue : queue ≠ "arq")
    (hrun : Run (Fires (step queue)) State.init tr s) :
    ∀ id r, s.receipts id = some r → r.status = .uploaded := by
  have hinv : Sound s ∧ InlineOnly s :=
    hrun.invariant (I := fun s => Sound s ∧ InlineOnly s)
      ⟨sound_init, fun _ => rfl, nofun, nofun⟩
      fun _ _ _ h hs => ⟨h.1.step hs, h.2.step hqueue h.1 hs⟩
  intro id r hr
  rw [(hinv.2.committed id r hr).1]

end ReckonFlow.ReceiptUpload
