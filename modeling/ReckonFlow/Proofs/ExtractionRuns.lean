import ReckonFlow.Lib.Fallible
import ReckonFlow.Spec.ExtractionRuns

/-! One attempt, one recorded outcome: the receipt, the row of `extraction_runs` and what is
raised tell the same, unless a text is refused by its column. -/

namespace ReckonFlow.ExtractionRuns

open Effects PyText ReceiptUpload

variable {ε : Type} {x : Call ε} {db : Db} {row : Row} {outcome : Outcome}
  {errorText : Option PyStr}

/-! ## The columns -/

/-- Text without NUL, which `TEXT` columns take. -/
def Storable (s : PyStr) : Prop := ∃ t, s = py t ∧ '\x00' ∉ t.toList

/-- Storable text that `VARCHAR(n)` takes. -/
def Fits (n : ℕ) (s : PyStr) : Prop :=
  ∃ t, s = py t ∧ '\x00' ∉ t.toList ∧ (t.toList.drop n).all (· = ' ') = true

def Int4 (n : ℤ) : Prop := -2 ^ 31 ≤ n ∧ n < 2 ^ 31

variable (x) in
/-- What the caller gives for the row of `extraction_runs` fits its columns. -/
structure FitsColumns : Prop where
  provider : Fits 64 x.extractor.name
  durationMs : Int4 x.durationMs
  attempt : Int4 x.attempt
  jobId : ∀ id, x.jobId = some id → Fits 128 id

theorem column_eq_ok {name : String} {store : String → Except Error String} {s : PyStr} {t : String} :
    column name store s = .ok t ↔ ∃ u, s = py u ∧ store u = .ok t := by
  unfold column
  cases hs : text? s with
  | none =>
    constructor
    · intro h
      cases h
    · rintro ⟨u, rfl, -⟩
      rw [text?_py] at hs
      cases hs
  | some u =>
    have hu := text?_eq_some.1 hs
    dsimp only
    rw [Except.mapError_eq_ok]
    constructor
    · exact fun h => ⟨u, hu, h⟩
    · rintro ⟨v, rfl, hv⟩
      rw [text?_py] at hs
      rwa [Option.some.inj hs] at hv

theorem text_eq_ok {name t u : String} :
    ReckonFlow.text name t = .ok u ↔ '\x00' ∉ t.toList ∧ t = u := by
  unfold ReckonFlow.text
  split_ifs with h
  · simp [h]
  · simp [h]

theorem column_text_eq_ok {name : String} {s : PyStr} {t : String} :
    column name (ReckonFlow.text name) s = .ok t ↔ s = py t ∧ '\x00' ∉ t.toList := by
  rw [column_eq_ok]
  constructor
  · rintro ⟨u, rfl, hu⟩
    obtain ⟨hnul, rfl⟩ := text_eq_ok.1 hu
    exact ⟨rfl, hnul⟩
  · rintro ⟨rfl, hnul⟩
    exact ⟨t, rfl, text_eq_ok.2 ⟨hnul, rfl⟩⟩

theorem column_varchar_ok {name : String} {n : ℕ} {s : PyStr} :
    (∃ t, column name (varchar name n) s = .ok t) ↔ Fits n s := by
  simp only [column_eq_ok]
  constructor
  · rintro ⟨t, u, rfl, hu⟩
    unfold varchar at hu
    split_ifs at hu with hnul hlong
    exact ⟨u, rfl, hnul, hlong⟩
  · rintro ⟨u, rfl, hnul, hlong⟩
    refine ⟨String.ofList (u.toList.take n), u, rfl, ?_⟩
    unfold varchar
    rw [if_neg hnul, if_pos hlong]

theorem integer_eq_ok {name : String} {n m : ℤ} : integer name n = .ok m ↔ Int4 n ∧ n = m := by
  unfold integer
  split_ifs with h
  · exact ⟨fun he => ⟨h, Except.ok.inj he⟩, fun he => he.2 ▸ rfl⟩
  · exact ⟨fun he => (by cases he), fun he => absurd he.1 h⟩

theorem optional_ok {α β : Type} {store : α → Except Raised β} {o : Option α} :
    (∃ r, optional store o = .ok r) ↔ ∀ a, o = some a → ∃ b, store a = .ok b := by
  cases o with
  | none => simp [optional]
  | some a => simp [optional, Except.map_eq_ok]

/-! ## The row of `extraction_runs` -/

/-- The row says what it was made of. -/
theorem extractionRun_eq_ok {run : ExtractionRun} (h : extractionRun x outcome errorText = .ok run) :
    run.receiptId = x.receiptId ∧ run.outcome = outcome ∧ run.error.map py = runError errorText := by
  unfold extractionRun at h
  obtain ⟨provider, -, h⟩ := Except.bind_eq_ok.1 h
  obtain ⟨duration, -, h⟩ := Except.bind_eq_ok.1 h
  obtain ⟨attempt, -, h⟩ := Except.bind_eq_ok.1 h
  obtain ⟨jobId, -, h⟩ := Except.bind_eq_ok.1 h
  obtain ⟨error, herror, h⟩ := Except.bind_eq_ok.1 h
  obtain rfl := Except.pure_eq_ok.1 h
  refine ⟨rfl, rfl, ?_⟩
  cases hr : runError errorText with
  | none =>
    rw [hr] at herror
    cases herror
    rfl
  | some s =>
    rw [hr] at herror
    obtain ⟨t, ht, rfl⟩ := Except.map_eq_ok.1 herror
    rw [(column_text_eq_ok.1 ht).1]
    rfl

theorem extractionRun_ok :
    (∃ run, extractionRun x outcome errorText = .ok run) ↔
      FitsColumns x ∧ ∀ s, runError errorText = some s → Storable s := by
  unfold extractionRun
  simp only [Except.bind_eq_ok, Except.pure_eq_ok]
  constructor
  · rintro ⟨run, provider, hprovider, duration, hduration, attempt, hattempt, jobId, hjob, error, herror, -⟩
    refine ⟨⟨column_varchar_ok.1 ⟨_, hprovider⟩, (integer_eq_ok.1 hduration).1,
      (integer_eq_ok.1 hattempt).1, fun id hid => ?_⟩, fun s hs => ?_⟩
    · exact column_varchar_ok.1 (optional_ok.1 ⟨_, hjob⟩ id hid)
    · obtain ⟨t, ht⟩ := optional_ok.1 ⟨_, herror⟩ s hs
      exact ⟨t, column_text_eq_ok.1 ht⟩
  · rintro ⟨hfits, herror⟩
    obtain ⟨provider, hprovider⟩ := column_varchar_ok.2 hfits.provider
    obtain ⟨jobId, hjob⟩ := optional_ok.2 fun id hid => column_varchar_ok.2 (hfits.jobId id hid)
    obtain ⟨error, herror⟩ := optional_ok.2 fun s hs =>
      (herror s hs).imp fun t ht => column_text_eq_ok.2 ht
    exact ⟨_, provider, hprovider, _, integer_eq_ok.2 ⟨hfits.durationMs, rfl⟩, _,
      integer_eq_ok.2 ⟨hfits.attempt, rfl⟩, jobId, hjob, error, herror, rfl⟩

/-! ## The blocks -/

variable (x) in
/-- What reading the file, the extractor and the dump of its result come to. -/
def attempted (row : Row) : Except Raised JsonText := do
  let rawText ← readText x.receiptId x.storage row
  let extraction ← (x.extractor.extract rawText row.filename).mapError .other
  (x.extractor.dumpJson extraction).mapError .other

def Db.put (db : Db) (row : Row) : Db := { db with receipt := some row }

/-- A transaction that has nothing to commit. -/
def Db.session (db : Db) : Session := ⟨db, db⟩

def Row.marked (row : Row) : Row := { row with status := .processing }

def Row.extracted (row : Row) (json : JsonText) : Row :=
  { row with toReceipt := ReceiptUpload.saveExtraction json.text }

def Row.failed (row : Row) (message : String) : Row :=
  { row with status := .failed, errorMessage := some message }

theorem getReceipt_eq {s : Session} (h : s.current.receipt = some row) :
    getReceipt x.receiptId s = .ok row s := by
  unfold getReceipt
  rw [h]

theorem start_missing (h : db.receipt = none) :
    start x db.session = if x.reraise = true
      then .error (.notFound (notFoundText x.receiptId)) db.session else .ok none db.session := by
  have hget : getReceipt x.receiptId db.session =
      .error (.notFound (notFoundText x.receiptId)) db.session := by
    unfold getReceipt
    rw [show db.session.current.receipt = none from h]
  unfold start
  rw [catch_of_error (bind_of_error hget), bind_of_ok (show rollback db.session = .ok () db.session from rfl)]
  split_ifs
  · rfl
  · rfl

theorem start_extracted (h : db.receipt = some row) (hs : row.status = .extracted) :
    start x db.session = .ok none db.session := by
  unfold start
  refine catch_of_ok ?_
  rw [bind_of_ok (getReceipt_eq h), if_pos hs]
  rfl

theorem receipt_marked (db : Db) (row : Row) : (db.put row.marked).receipt = some row.marked := rfl

theorem start_open (h : db.receipt = some row) (hs : row.status ≠ .extracted) :
    start x db.session = .ok (some row.marked) (db.put row.marked).session := by
  have hmark : markProcessing x.receiptId db.session = .ok () ⟨db, db.put row.marked⟩ := by
    unfold markProcessing
    rw [bind_of_ok (getReceipt_eq h)]
    rfl
  have hread : getReceipt x.receiptId (db.put row.marked).session =
      .ok row.marked (db.put row.marked).session := getReceipt_eq rfl
  unfold start
  refine catch_of_ok ?_
  rw [bind_of_ok (getReceipt_eq h), if_neg hs, bind_of_ok hmark,
    bind_of_ok (show commit ⟨db, db.put row.marked⟩ = .ok () (db.put row.marked).session from rfl),
    bind_of_ok hread]
  rfl

theorem lift_bind_ok {α β : Type} {y : Except Raised α} {f : α → Work β} {s : Session} {a : α}
    (h : y = .ok a) : (lift y >>= f) s = f a s := by
  rw [h]
  rfl

theorem lift_bind_error {α β : Type} {y : Except Raised α} {f : α → Work β} {s : Session} {e : Raised}
    (h : y = .error e) : (lift y >>= f) s = .error e s := by
  rw [h]
  rfl

theorem attempt_ok (h : db.receipt = some row) {json : JsonText} (hj : attempted x row = .ok json) :
    attempt x row db.session = .ok (.success, none) (db.put (row.extracted json)).session := by
  obtain ⟨raw, hraw, hj⟩ := Except.bind_eq_ok.1 hj
  obtain ⟨extraction, hextract, hj⟩ := Except.bind_eq_ok.1 hj
  have hsave : saveExtraction x.receiptId x.extractor.dumpJson extraction db.session =
      .ok () ⟨db, db.put (row.extracted json)⟩ := by
    unfold saveExtraction
    rw [bind_of_ok (getReceipt_eq h), lift_bind_ok hj]
    rfl
  unfold attempt
  refine catch_of_ok ?_
  rw [lift_bind_ok hraw, lift_bind_ok hextract, bind_of_ok hsave]
  rfl

/-- An exception is caught with nothing written. -/
theorem attempt_error (h : db.receipt = some row) {e : Raised} (he : attempted x row = .error e) :
    attempt x row db.session = (do
      rollback
      markFailed x.receiptId e.text
      commit
      pure (.failed, some e.text) : Work (Outcome × Option PyStr)) db.session := by
  unfold attempt
  refine catch_of_error ?_
  rcases Except.bind_eq_error.1 he with he | ⟨raw, hraw, he⟩
  · exact lift_bind_error he
  rw [lift_bind_ok hraw]
  rcases Except.bind_eq_error.1 he with he | ⟨extraction, hextract, he⟩
  · exact lift_bind_error he
  rw [lift_bind_ok hextract]
  refine bind_of_error ?_
  unfold saveExtraction
  rw [bind_of_ok (getReceipt_eq h)]
  exact lift_bind_error he

theorem attempt_failed (h : db.receipt = some row) {e : Raised} (he : attempted x row = .error e)
    {t : String} (ht : e.text.take 2000 = py t) (hnul : '\x00' ∉ t.toList) :
    attempt x row db.session = .ok (.failed, some e.text) (db.put (row.failed t)).session := by
  have hmark : markFailed x.receiptId e.text db.session = .ok () ⟨db, db.put (row.failed t)⟩ := by
    unfold markFailed
    rw [bind_of_ok (getReceipt_eq h), lift_bind_ok (column_text_eq_ok.2 ⟨ht, hnul⟩)]
    rfl
  rw [attempt_error h he, bind_of_ok (show rollback db.session = .ok () db.session from rfl),
    bind_of_ok hmark]
  rfl

/-- Text that the column refuses is raised out of the `except` block. -/
theorem attempt_refused (h : db.receipt = some row) {e : Raised} (he : attempted x row = .error e)
    (hbad : ¬ Storable (e.text.take 2000)) :
    ∃ e', attempt x row db.session = .error e' db.session := by
  rw [attempt_error h he, bind_of_ok (show rollback db.session = .ok () db.session from rfl)]
  cases hc : column "error_message" (ReckonFlow.text "error_message") (e.text.take 2000) with
  | ok t => exact absurd ⟨t, column_text_eq_ok.1 hc⟩ hbad
  | error e' =>
    refine ⟨e', bind_of_error ?_⟩
    unfold markFailed
    rw [bind_of_ok (getReceipt_eq h)]
    exact lift_bind_error hc

/-! ## The whole call -/

variable (x db) in
def Raises : Prop := ∃ e, (extractReceiptTask x db).1 = .error e

variable (x db) in
def after : Db := (extractReceiptTask x db).2

theorem task_missing (h : db.receipt = none) : after x db = db ∧ (Raises x db ↔ x.reraise = true) := by
  unfold Raises after extractReceiptTask runExtraction
  rw [show (⟨db, db⟩ : Session) = db.session from rfl]
  by_cases hr : x.reraise = true
  · rw [bind_of_error (by rw [start_missing h, if_pos hr])]
    exact ⟨rfl, iff_of_true ⟨_, rfl⟩ hr⟩
  · rw [bind_of_ok (by rw [start_missing h, if_neg hr])]
    refine ⟨rfl, iff_of_false ?_ hr⟩
    rintro ⟨e, he⟩
    cases he

theorem task_extracted (h : db.receipt = some row) (hs : row.status = .extracted) :
    after x db = db ∧ ¬ Raises x db := by
  unfold Raises after extractReceiptTask runExtraction
  rw [show (⟨db, db⟩ : Session) = db.session from rfl, bind_of_ok (start_extracted h hs)]
  refine ⟨rfl, ?_⟩
  rintro ⟨e, he⟩
  cases he

section

variable {marked later : Db} (hstart : start x db.session = .ok (some row) marked.session)

include hstart

theorem task_refused {e : Raised} (hattempt : attempt x row marked.session = .error e marked.session) :
    after x db = marked ∧ Raises x db := by
  unfold Raises after extractReceiptTask runExtraction
  rw [show (⟨db, db⟩ : Session) = db.session from rfl, bind_of_ok hstart]
  dsimp only
  rw [bind_of_error hattempt]
  exact ⟨rfl, _, rfl⟩

variable (hattempt : attempt x row marked.session = .ok (outcome, errorText) later.session)

include hattempt

theorem task_unrecorded {e : Raised} (hrun : extractionRun x outcome errorText = .error e) :
    after x db = later ∧ Raises x db := by
  unfold Raises after extractReceiptTask runExtraction
  rw [show (⟨db, db⟩ : Session) = db.session from rfl, bind_of_ok hstart]
  dsimp only
  rw [bind_of_ok hattempt]
  dsimp only
  rw [lift_bind_error hrun]
  exact ⟨rfl, _, rfl⟩

theorem task_recorded {run : ExtractionRun} (hrun : extractionRun x outcome errorText = .ok run) :
    after x db = { later with runs := later.runs ++ [run] } ∧
      (Raises x db ↔ x.reraise = true ∧ outcome = .failed) := by
  unfold Raises after extractReceiptTask runExtraction
  rw [show (⟨db, db⟩ : Session) = db.session from rfl, bind_of_ok hstart]
  dsimp only
  rw [bind_of_ok hattempt]
  dsimp only
  rw [lift_bind_ok hrun,
    bind_of_ok (show insertRun run later.session =
      .ok () ⟨later, { later with runs := later.runs ++ [run] }⟩ from rfl),
    bind_of_ok (show commit ⟨later, { later with runs := later.runs ++ [run] }⟩ =
      .ok () (Db.session { later with runs := later.runs ++ [run] }) from rfl)]
  by_cases h : x.reraise = true ∧ outcome = .failed
  · rw [if_pos h]
    exact ⟨rfl, iff_of_true ⟨_, rfl⟩ h⟩
  · rw [if_neg h]
    refine ⟨rfl, iff_of_false ?_ h⟩
    rintro ⟨e, he⟩
    cases he

end

variable (x db row) in
/-- The attempt succeeded: the receipt has the new JSON, and the row says so. -/
def Succeeded : Prop :=
  ∃ json run, attempted x row = .ok json ∧ after x db = ⟨some (row.extracted json), db.runs ++ [run]⟩ ∧
    run.receiptId = x.receiptId ∧ run.outcome = .success ∧ run.error = none ∧ ¬ Raises x db

variable (x db row) in
/-- The attempt raised: the receipt keeps its JSON, and the row has the text, unless it is empty. -/
def Failed : Prop :=
  ∃ e row' run, attempted x row = .error e ∧ after x db = ⟨some row', db.runs ++ [run]⟩ ∧
    row'.status = .failed ∧ row'.extractedJson = row.extractedJson ∧
    run.receiptId = x.receiptId ∧ run.outcome = .failed ∧ (e.text ≠ [] → run.error ≠ none) ∧
    (Raises x db ↔ x.reraise = true)

variable (x db) in
/-- A receipt that is missing or extracted is left alone; any other one gets one row, which
agrees with it and with what is raised. -/
def OneOutcome : Prop :=
  (db.receipt = none → after x db = db ∧ (Raises x db ↔ x.reraise = true)) ∧
    ∀ row, db.receipt = some row →
      if row.status = .extracted then after x db = db ∧ ¬ Raises x db
      else Succeeded x db row ∨ Failed x db row

variable (x db) in
/-- The attempt is not made, or the row can be stored: its provider, numbers and job id, and the
first 2000 characters of what the attempt raises. -/
def Recordable : Prop :=
  ∀ row, db.receipt = some row → row.status ≠ .extracted →
    FitsColumns x ∧ ∀ e, attempted x row = .error e → Storable (e.text.take 2000)

theorem succeeds (h : db.receipt = some row) (hs : row.status ≠ .extracted) (hfits : FitsColumns x)
    {json : JsonText} (hj : attempted x row = .ok json) : Succeeded x db row := by
  have hrecorded : ∃ run, extractionRun x .success none = .ok run :=
    extractionRun_ok.2 ⟨hfits, fun s hs => by cases hs⟩
  obtain ⟨run, hrun⟩ := hrecorded
  obtain ⟨hid, houtcome, herror⟩ := extractionRun_eq_ok hrun
  have hattempt := attempt_ok (receipt_marked db row) hj
  obtain ⟨hafter, hraises⟩ := task_recorded (start_open h hs) hattempt hrun
  refine ⟨json, run, hj, hafter, hid, houtcome, Option.map_eq_none_iff.1 herror, ?_⟩
  rw [hraises]
  rintro ⟨-, hfailed⟩
  cases hfailed

theorem after_failed (h : db.receipt = some row) (hs : row.status ≠ .extracted)
    (hfits : FitsColumns x) {e : Raised} (he : attempted x row = .error e) {t : String}
    (ht : e.text.take 2000 = py t) (hnul : '\x00' ∉ t.toList) :
    ∃ run, after x db = ⟨some (row.failed t), db.runs ++ [run]⟩ ∧ run.receiptId = x.receiptId ∧
      run.outcome = .failed ∧ run.error.map py = runError (some e.text) ∧
      (Raises x db ↔ x.reraise = true) := by
  have herr : ∀ s, runError (some e.text) = some s → Storable s := by
    intro s hs
    simp only [runError] at hs
    split_ifs at hs with hempty
    obtain rfl := Option.some.inj hs
    exact ⟨t, ht, hnul⟩
  have hrecorded : ∃ run, extractionRun x .failed (some e.text) = .ok run :=
    extractionRun_ok.2 ⟨hfits, herr⟩
  obtain ⟨run, hrun⟩ := hrecorded
  obtain ⟨hid, houtcome, herror⟩ := extractionRun_eq_ok hrun
  have hattempt := attempt_failed (receipt_marked db row) he ht hnul
  obtain ⟨hafter, hraises⟩ := task_recorded (start_open h hs) hattempt hrun
  refine ⟨run, hafter, hid, houtcome, herror, ?_⟩
  rw [hraises]
  exact and_iff_left rfl

theorem fails (h : db.receipt = some row) (hs : row.status ≠ .extracted) (hfits : FitsColumns x)
    {e : Raised} (he : attempted x row = .error e) (hstore : Storable (e.text.take 2000)) :
    Failed x db row := by
  obtain ⟨t, ht, hnul⟩ := hstore
  obtain ⟨run, hafter, hid, houtcome, herror, hraises⟩ := after_failed h hs hfits he ht hnul
  refine ⟨e, row.failed t, run, he, hafter, rfl, rfl, hid, houtcome, fun hne hnone => ?_, hraises⟩
  rw [hnone, runError, if_neg hne] at herror
  cases herror

/-- Whatever is refused, the row of the attempt is missing. -/
theorem runs_of_not_recordable (h : db.receipt = some row) (hs : row.status ≠ .extracted)
    (hbad : ¬ (FitsColumns x ∧ ∀ e, attempted x row = .error e → Storable (e.text.take 2000))) :
    (after x db).runs = db.runs := by
  have hstart := start_open (x := x) h hs
  have hunrecorded : ∀ {outcome errorText} {row' : Row},
      attempt x row.marked (db.put row.marked).session =
        .ok (outcome, errorText) ((db.put row.marked).put row').session →
      ¬ FitsColumns x → (after x db).runs = db.runs := by
    intro outcome errorText row' hattempt hfits
    cases hrun : extractionRun x outcome errorText with
    | ok run => exact absurd (extractionRun_ok.1 ⟨run, hrun⟩).1 hfits
    | error e =>
      rw [(task_unrecorded hstart hattempt hrun).1]
      rfl
  cases hx : attempted x row with
  | ok json =>
    have hfits : ¬ FitsColumns x := by
      refine fun hf => hbad ⟨hf, fun e he => ?_⟩
      rw [hx] at he
      cases he
    exact hunrecorded (attempt_ok (receipt_marked db row) hx) hfits
  | error e =>
    by_cases hstore : Storable (e.text.take 2000)
    · have hfits : ¬ FitsColumns x := by
        refine fun hf => hbad ⟨hf, fun e' he => ?_⟩
        rw [hx] at he
        rwa [← Except.error.inj he]
      obtain ⟨t, ht, hnul⟩ := hstore
      exact hunrecorded (attempt_failed (receipt_marked db row) hx ht hnul) hfits
    · obtain ⟨e', he'⟩ := attempt_refused (receipt_marked db row) hx hstore
      rw [(task_refused hstart he').1]
      rfl

/-- One attempt has one recorded outcome, iff its row can be stored. -/
theorem one_outcome_iff : OneOutcome x db ↔ Recordable x db := by
  constructor
  · intro hone row h hs
    by_contra hbad
    have hruns := runs_of_not_recordable h hs hbad
    have hcase := hone.2 row h
    rw [if_neg hs] at hcase
    rcases hcase with ⟨json, run, -, hafter, -⟩ | ⟨e, row', run, -, hafter, -⟩
    · rw [hafter] at hruns
      simp at hruns
    · rw [hafter] at hruns
      simp at hruns
  · intro hrec
    refine ⟨task_missing, fun row h => ?_⟩
    split_ifs with hs
    · exact task_extracted h hs
    · obtain ⟨hfits, herror⟩ := hrec row h hs
      cases hx : attempted x row with
      | ok json => exact .inl (succeeds h hs hfits hx)
      | error e => exact .inr (fails h hs hfits hx (herror e hx))

def demoRow : Row where
  filename := "taxi.txt"
  storagePath := "receipts/taxi.txt"

/-- An extractor that raises `error`. -/
def demoCall (error : String) : Call Unit where
  receiptId := 1
  extractor := ⟨py "stub", fun _ _ => .error (py error), fun _ => .ok ⟨"null", by decide⟩⟩
  storage _ := .file []
  durationMs := 3

example : (after (demoCall "No total found in taxi.txt") ⟨some demoRow, []⟩).receipt.map (·.status) =
    some .failed := by decide +kernel

/-- An exception that quotes a NUL of the receipt: the receipt stays PROCESSING, without a row. -/
theorem one_outcome_fails : ¬ OneOutcome (demoCall "no total in \x00") ⟨some demoRow, []⟩ := by
  intro hone
  have hopen : demoRow.status ≠ .extracted := by decide
  have hbad : ¬ Storable ((py "no total in \x00").take 2000) := by
    rintro ⟨t, ht, hnul⟩
    rw [take_py] at ht
    rw [← py_injective ht] at hnul
    exact hnul (by decide)
  have hruns : (after (demoCall "no total in \x00") ⟨some demoRow, []⟩).runs = [] :=
    runs_of_not_recordable rfl hopen fun h => hbad (h.2 _ rfl)
  have hcase := hone.2 demoRow rfl
  rw [if_neg hopen] at hcase
  rcases hcase with ⟨json, run, -, hafter, -⟩ | ⟨e, row', run, -, hafter, -⟩
  all_goals
    rw [hafter] at hruns
    cases hruns

/-! ## The same attempt, await by await -/

/-- Awaits of one execution, with nothing between them. -/
def stages (origin : Origin) : Option Receipt × Stage → List Act → Option (Option Receipt × Stage) :=
  List.foldlM fun p act => ReceiptUpload.runExtraction origin p.1 p.2 act

theorem write_self (row new : Receipt) : row.write new row = new := by
  simp only [Receipt.write, written_self]

variable (origin : Origin)

/-- With every await answered, the stages leave the receipt of the call. -/
theorem stages_success (h : db.receipt = some row) (hs : row.status ≠ .extracted)
    (hfits : FitsColumns x) {json : JsonText} (hj : attempted x row = .ok json) :
    stages origin (some row.toReceipt, .waiting)
        [.load true, .mark .ok, .extract (.ok json.text), .save .ok "", .record true] =
      some ((after x db).receipt.map (·.toReceipt), .ended false) := by
  obtain ⟨json', run, hj', hafter, -⟩ := succeeds h hs hfits hj
  obtain rfl : json = json' := Except.ok.inj (hj.symm.trans hj')
  rw [hafter]
  simp [stages, ReceiptUpload.runExtraction, afterLoad, hs, write_self, Row.extracted]

theorem stages_failure (h : db.receipt = some row) (hs : row.status ≠ .extracted)
    (hfits : FitsColumns x) {e : Raised} (he : attempted x row = .error e) {reason : String}
    (hr : e.text = py reason) (hnul : '\x00' ∉ reason.toList) :
    stages origin (some row.toReceipt, .waiting)
        [.load true, .mark .ok, .extract (.error reason), .fail .ok, .record true] =
      some ((after x db).receipt.map (·.toReceipt), .ended origin.reraise) := by
  have ht : e.text.take 2000 = py (String.ofList (reason.toList.take 2000)) := by
    rw [hr, take_py]
  have hcut : '\x00' ∉ (String.ofList (reason.toList.take 2000)).toList := by
    rw [String.toList_ofList]
    exact fun hmem => hnul (List.mem_of_mem_take hmem)
  obtain ⟨run, hafter, -⟩ := after_failed h hs hfits he ht hcut
  rw [hafter]
  simp [stages, ReceiptUpload.runExtraction, afterLoad, hs, write_self, Row.failed,
    Receipt.markProcessing, Receipt.markFailed]

end ReckonFlow.ExtractionRuns
