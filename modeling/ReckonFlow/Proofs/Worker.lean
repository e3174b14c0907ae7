import ReckonFlow.Lib.Retries
import ReckonFlow.Proofs.ExtractionRuns
import ReckonFlow.Spec.Worker

/-! However often the extraction of a receipt is executed, it is tried until one try succeeds,
and every try leaves one row of `extraction_runs`. -/

namespace ReckonFlow.ExtractionRuns

open Effects PyText ReceiptUpload Machine

variable {ε : Type} {receiptId : Id} {x : Call ε} {db : Db} {row : Row} {t : Trigger × World ε}
  {ts : List (Trigger × World ε)}

/-! ## One execution -/

theorem length_repr_le {n k : ℕ} (hk : 0 < k) (h : n < 10 ^ k) : n.repr.toList.length ≤ k := by
  rw [Nat.toList_repr]
  exact (Nat.length_toDigits_le_iff (by norm_num) hk).2 h

theorem length_toString_le {n : ℤ} (h : Int4 n) : (toString n).toList.length ≤ 11 := by
  obtain ⟨hlow, hhigh⟩ := h
  cases n with
  | ofNat n =>
    have hdigits := length_repr_le (n := n) (k := 10) (by norm_num) (by simp at hhigh; omega)
    exact hdigits.trans (by norm_num)
  | negSucc n =>
    have hdigits := length_repr_le (n := n + 1) (k := 10) (by norm_num) (by omega)
    have hrepr : toString (Int.negSucc n) = "-" ++ (n + 1).repr := rfl
    rw [hrepr, String.toList_append, List.length_append]
    exact Nat.add_le_add_left hdigits 1

theorem nul_notMem_repr {n : ℕ} : '\x00' ∉ n.repr.toList := by
  rw [Nat.toList_repr]
  intro hmem
  have hdigit := Nat.isDigit_of_mem_toDigits (by norm_num) (by norm_num) hmem
  revert hdigit
  decide

theorem nul_notMem_toString {n : ℤ} : '\x00' ∉ (toString n).toList := by
  cases n with
  | ofNat n => exact nul_notMem_repr
  | negSucc n =>
    have hrepr : toString (Int.negSucc n) = "-" ++ (n + 1).repr := rfl
    rw [hrepr, String.toList_append, List.mem_append]
    rintro (hmem | hmem)
    · revert hmem
      decide
    · exact nul_notMem_repr hmem

/-- The text of a job id fits `VARCHAR(128)`, whole. -/
theorem receiptJobId_fits (hid : Int4 receiptId) :
    '\x00' ∉ (receiptJobId receiptId).toList ∧ (receiptJobId receiptId).toList.length ≤ 128 := by
  have hlength := length_toString_le hid
  unfold receiptJobId
  rw [String.toList_append]
  constructor
  · rw [List.mem_append]
    rintro (hmem | hmem)
    · revert hmem
      decide
    · exact nul_notMem_toString hmem
  · rw [List.length_append]
    exact (Nat.add_le_add_left hlength _).trans (by decide)

/-- A job as `enqueue_extract` queued it, and nothing a column refuses. -/
structure Orderly (receiptId : Id) (row : Row) (t : Trigger × World ε) : Prop where
  provider : Fits 64 t.2.extractor.name
  durationMs : Int4 t.2.durationMs
  job : ∀ ctx, t.1 = .job ctx → Int4 ctx.attempt ∧ ctx.jobId = some (py (receiptJobId receiptId))
  error : ∀ e, attempted (call receiptId t.2 t.1) row = .error e → Storable (e.text.take 2000)

theorem jobIdOrNone_eq {ctx : Ctx} {id : String} (h : ctx.jobId = some (py id)) (hne : py id ≠ []) :
    ctx.jobIdOrNone = some (py id) := by
  unfold Ctx.jobIdOrNone
  rw [h]
  exact if_neg hne

theorem receiptJobId_ne_nil : py (receiptJobId receiptId) ≠ [] := by
  unfold receiptJobId py
  rw [String.toList_append, List.map_append]
  exact List.append_ne_nil_of_left_ne_nil (by decide) _

/-- The job id of a delivery is the one it was queued under. -/
theorem Orderly.jobId (h : Orderly receiptId row t) {id : PyStr}
    (hid : (call receiptId t.2 t.1).jobId = some id) : id = py (receiptJobId receiptId) := by
  obtain ⟨trigger, world⟩ := t
  cases trigger with
  | task => cases hid
  | job ctx =>
    have hcut : ctx.jobIdOrNone = some id := hid
    rw [jobIdOrNone_eq (h.job ctx rfl).2 receiptJobId_ne_nil] at hcut
    exact (Option.some.inj hcut).symm

theorem Orderly.fitsColumns (h : Orderly receiptId row t) (hid : Int4 receiptId) :
    FitsColumns (call receiptId t.2 t.1) := by
  obtain ⟨hnul, hlength⟩ := receiptJobId_fits hid
  have hjob : ∀ id, (call receiptId t.2 t.1).jobId = some id → Fits 128 id := by
    intro id hjobId
    refine ⟨_, h.jobId hjobId, hnul, ?_⟩
    rw [List.drop_eq_nil_of_le hlength]
    rfl
  obtain ⟨trigger, world⟩ := t
  cases trigger with
  | task => exact ⟨h.provider, h.durationMs, ⟨by norm_num [call], by norm_num [call]⟩, hjob⟩
  | job ctx => exact ⟨h.provider, h.durationMs, (h.job ctx rfl).1, hjob⟩

/-! ## One try -/

/-- The receipt after tries that failed. -/
structure Row.Open (row current : Row) : Prop where
  filename : current.filename = row.filename
  storagePath : current.storagePath = row.storagePath
  extractedJson : current.extractedJson = row.extractedJson
  status : current.status ≠ .extracted

theorem attempted_congr {current : Row} (h : row.Open current) : attempted x current = attempted x row := by
  simp only [attempted, readText, h.filename, h.storagePath]

theorem extracted_congr {current : Row} (h : row.Open current) (json : JsonText) :
    current.extracted json = row.extracted json := by
  simp only [Row.extracted, h.filename, h.storagePath]

theorem failed_congr {current : Row} (h : row.Open current) (message : String) :
    current.failed message = row.failed message := by
  obtain ⟨⟨_, _, _⟩, _, _⟩ := current
  obtain ⟨⟨_, _, _⟩, _, _⟩ := row
  obtain ⟨rfl, rfl, hjson, -⟩ := h
  obtain rfl : _ = _ := hjson
  rfl

variable (x row) in
/-- What the row of a try says of it. -/
structure Records (run : ExtractionRun) : Prop where
  receiptId : run.receiptId = x.receiptId
  outcome : run.outcome = .success ↔ (attempted x row).isOk = true
  attempt : run.attempt = x.attempt
  durationMs : run.durationMs = x.durationMs
  jobId : run.jobId.map py = x.jobId
  error : run.error.map py = (match attempted x row with
    | .ok _ => none
    | .error e => runError (some e.text))

variable (x row) in
/-- What a try leaves of the receipt. -/
def Leaves (receipt : Option Row) : Prop :=
  (∃ json, attempted x row = .ok json ∧ receipt = some (row.extracted json)) ∨
    ∃ e message, attempted x row = .error e ∧ e.text.take 2000 = py message ∧
      receipt = some (row.failed message)

theorem extractionRun_call {outcome : Outcome} {errorText : Option PyStr} {run : ExtractionRun}
    (hjob : ∀ id, x.jobId = some id → id.length ≤ 128) (h : extractionRun x outcome errorText = .ok run) :
    run.attempt = x.attempt ∧ run.durationMs = x.durationMs ∧ run.jobId.map py = x.jobId := by
  unfold extractionRun at h
  obtain ⟨provider, -, h⟩ := Except.bind_eq_ok.1 h
  obtain ⟨duration, hduration, h⟩ := Except.bind_eq_ok.1 h
  obtain ⟨attempt, hattempt, h⟩ := Except.bind_eq_ok.1 h
  obtain ⟨jobId, hjobId, h⟩ := Except.bind_eq_ok.1 h
  obtain ⟨error, -, h⟩ := Except.bind_eq_ok.1 h
  obtain rfl := Except.pure_eq_ok.1 h
  refine ⟨(integer_eq_ok.1 hattempt).2.symm, (integer_eq_ok.1 hduration).2.symm, ?_⟩
  cases hx : x.jobId with
  | none =>
    rw [hx] at hjobId
    cases hjobId
    rfl
  | some id =>
    rw [hx] at hjobId
    obtain ⟨stored, hstored, rfl⟩ := Except.map_eq_ok.1 hjobId
    obtain ⟨text, rfl, htext⟩ := column_eq_ok.1 hstored
    have hlength : text.toList.length ≤ 128 := by
      rw [← List.length_map (f := codePoint)]
      exact hjob _ hx
    unfold varchar at htext
    split_ifs at htext
    obtain rfl := Except.ok.inj htext
    rw [List.take_of_length_le hlength, String.ofList_toList]
    rfl

theorem records_of_ok {run : ExtractionRun} {json : JsonText}
    (hjob : ∀ id, x.jobId = some id → id.length ≤ 128) (hj : attempted x row = .ok json)
    (h : extractionRun x .success none = .ok run) : Records x row run := by
  obtain ⟨hid, houtcome, herror⟩ := extractionRun_eq_ok h
  obtain ⟨hattempt, hduration, hjobId⟩ := extractionRun_call hjob h
  refine ⟨hid, ?_, hattempt, hduration, hjobId, ?_⟩
  · rw [hj]
    exact iff_of_true houtcome rfl
  · rw [hj]
    exact herror

theorem records_of_error {run : ExtractionRun} {e : Raised}
    (hjob : ∀ id, x.jobId = some id → id.length ≤ 128) (he : attempted x row = .error e)
    (h : extractionRun x .failed (some e.text) = .ok run) : Records x row run := by
  obtain ⟨hid, houtcome, herror⟩ := extractionRun_eq_ok h
  obtain ⟨hattempt, hduration, hjobId⟩ := extractionRun_call hjob h
  refine ⟨hid, ?_, hattempt, hduration, hjobId, ?_⟩
  · rw [he, houtcome]
    exact iff_of_false nofun nofun
  · rw [he]
    exact herror

/-- A try with a row its columns take. -/
theorem tries {current : Row} (hrow : db.receipt = some current) (hopen : row.Open current)
    (hfits : FitsColumns x) (hjob : ∀ id, x.jobId = some id → id.length ≤ 128)
    (herror : ∀ e, attempted x row = .error e → Storable (e.text.take 2000)) :
    ∃ run, Records x row run ∧ (after x db).runs = db.runs ++ [run] ∧ Leaves x row (after x db).receipt ∧
      (Raises x db ↔ x.reraise = true ∧ (attempted x row).isOk = false) := by
  have hstart := start_open (x := x) hrow hopen.status
  have hmarked := receipt_marked db current
  cases hx : attempted x row with
  | ok json =>
    obtain ⟨run, hrun⟩ : ∃ run, extractionRun x .success none = .ok run :=
      extractionRun_ok.2 ⟨hfits, nofun⟩
    have hattempt := attempt_ok hmarked ((attempted_congr hopen).trans hx)
    obtain ⟨hafter, hraises⟩ := task_recorded hstart hattempt hrun
    refine ⟨run, records_of_ok hjob hx hrun, ?_, .inl ⟨json, hx, ?_⟩, ?_⟩
    · rw [hafter]
      rfl
    · rw [hafter, ← extracted_congr hopen]
      rfl
    · rw [hraises]
      exact and_congr_right fun _ => iff_of_false nofun nofun
  | error e =>
    obtain ⟨message, htext, hnul⟩ := herror e hx
    obtain ⟨run, hrun⟩ : ∃ run, extractionRun x .failed (some e.text) = .ok run := by
      refine extractionRun_ok.2 ⟨hfits, fun s hs => ?_⟩
      simp only [runError] at hs
      split_ifs at hs
      exact ⟨message, Option.some.inj hs ▸ htext, hnul⟩
    have hattempt := attempt_failed hmarked ((attempted_congr hopen).trans hx) htext hnul
    obtain ⟨hafter, hraises⟩ := task_recorded hstart hattempt hrun
    refine ⟨run, records_of_error hjob hx hrun, ?_, .inr ⟨e, message, hx, htext, ?_⟩, ?_⟩
    · rw [hafter]
      rfl
    · rw [hafter, ← failed_congr hopen]
      rfl
    · rw [hraises]
      exact and_congr_right fun _ => iff_of_true rfl rfl

/-! ## All executions -/

/-- What a trigger gets when nothing is raised. -/
def Trigger.returned : Trigger → Option String
  | .job _ => some "ok"
  | .task => none

theorem execute_after : (execute receiptId db t).2 = after (call receiptId t.2 t.1) db := by
  obtain ⟨trigger, world⟩ := t
  cases trigger with
  | job ctx => rfl
  | task => rfl

theorem execute_eq : (execute receiptId db t).1 =
    (extractReceiptTask (call receiptId t.2 t.1) db).1.map fun _ => t.1.returned := by
  obtain ⟨trigger, world⟩ := t
  cases trigger with
  | task => rfl
  | job ctx =>
    simp only [execute, extractReceipt]
    cases (extractReceiptTask (call receiptId world (.job ctx)) db).1 with
    | ok u => rfl
    | error e => rfl

theorem execute_isOk : (execute receiptId db t).1.isOk = true ↔ ¬ Raises (call receiptId t.2 t.1) db := by
  rw [execute_eq, Except.isOk_map, Except.isOk_iff]
  unfold Raises
  cases (extractReceiptTask (call receiptId t.2 t.1) db).1 with
  | ok u => exact iff_of_true ⟨u, rfl⟩ nofun
  | error e => exact iff_of_false nofun fun h => h ⟨e, rfl⟩

/-- An EXTRACTED receipt is left alone, and nothing is raised. -/
theorem execute_extracted {current : Row} (hrow : db.receipt = some current)
    (h : current.status = .extracted) : execute receiptId db t = (.ok t.1.returned, db) := by
  obtain ⟨hafter, hraises⟩ := task_extracted (x := call receiptId t.2 t.1) hrow h
  refine Prod.ext ?_ (execute_after.trans hafter)
  rw [execute_eq]
  cases hresult : (extractReceiptTask (call receiptId t.2 t.1) db).1 with
  | ok u => rfl
  | error e => exact absurd ⟨e, hresult⟩ hraises

variable (receiptId row) in
/-- Whether the file is read and extracted. -/
def succeeds? (t : Trigger × World ε) : Bool := (attempted (call receiptId t.2 t.1) row).isOk

/-- An execution by a background task raises nothing. -/
def Trigger.silent : Trigger → Bool
  | .job _ => false
  | .task => true

theorem reraise_call (world : World ε) (trigger : Trigger) :
    (call receiptId world trigger).reraise = !trigger.silent := by
  cases trigger with
  | job ctx => rfl
  | task => rfl

theorem Orderly.tries {current : Row} (h : Orderly receiptId row t) (hid : Int4 receiptId)
    (hrow : db.receipt = some current) (hopen : row.Open current) :
    ∃ run, Records (call receiptId t.2 t.1) row run ∧ (execute receiptId db t).2.runs = db.runs ++ [run] ∧
      Leaves (call receiptId t.2 t.1) row (execute receiptId db t).2.receipt ∧
      (execute receiptId db t).1.isOk = (t.1.silent || succeeds? receiptId row t) := by
  have hjob : ∀ id, (call receiptId t.2 t.1).jobId = some id → id.length ≤ 128 := by
    intro id hjobId
    rw [h.jobId hjobId, py, List.length_map]
    exact (receiptJobId_fits hid).2
  obtain ⟨run, hrecords, hruns, hleaves, hraises⟩ :=
    ExtractionRuns.tries hrow hopen (h.fitsColumns hid) hjob h.error
  rw [execute_after]
  refine ⟨run, hrecords, hruns, hleaves, ?_⟩
  rw [Bool.eq_iff_iff, execute_isOk, hraises, reraise_call, succeeds?]
  cases t.1.silent with
  | true => simp
  | false => simp

theorem Leaves.open (h : Leaves x row db.receipt) (hx : (attempted x row).isOk = false) :
    ∃ current, db.receipt = some current ∧ row.Open current := by
  rcases h with ⟨json, hj, -⟩ | ⟨e, message, -, -, hreceipt⟩
  · rw [hj] at hx
    cases hx
  · exact ⟨_, hreceipt, rfl, rfl, rfl, nofun⟩

theorem Leaves.extracted (h : Leaves x row db.receipt) (hx : (attempted x row).isOk = true) :
    ∃ current, db.receipt = some current ∧ current.status = .extracted := by
  rcases h with ⟨json, -, hreceipt⟩ | ⟨e, message, he, -, -⟩
  · exact ⟨_, hreceipt, rfl⟩
  · rw [he] at hx
    cases hx

variable (receiptId row) in
/-- What executions, `tried` up to the first success, leave and answer. -/
structure Story (db db' : Db) (tried ts : List (Trigger × World ε))
    (answers : List ((Trigger × World ε) × Except Raised (Option String))) : Prop where
  runs : ∃ runs, db'.runs = db.runs ++ runs ∧
    List.Forall₂ (fun t run => Records (call receiptId t.2 t.1) row run) tried runs
  untried : tried = [] → db' = db
  receipt : ∀ t, tried.getLast? = some t → Leaves (call receiptId t.2 t.1) row db'.receipt
  answers : answers.map (fun p => (p.1, p.2.isOk)) =
    tried.map (fun t => (t, t.1.silent || succeeds? receiptId row t)) ++
      (ts.drop tried.length).map fun t => (t, true)

theorem story {current : Row} (hid : Int4 receiptId) (hrow : db.receipt = some current)
    (hopen : row.Open current) (h : ∀ t ∈ ts, Orderly receiptId row t) :
    Story receiptId row db (executions receiptId db ts).2 (throughFirst (succeeds? receiptId row) ts) ts
      (executions receiptId db ts).1 := by
  unfold executions
  induction ts generalizing db current with
  | nil => exact ⟨⟨[], (List.append_nil _).symm, .nil⟩, fun _ => rfl, (fun t ht => by cases ht), rfl⟩
  | cons t ts ih =>
    obtain ⟨ht, hts⟩ := List.forall_mem_cons.1 h
    obtain ⟨run, hrecords, hruns, hleaves, hanswer⟩ := ht.tries hid hrow hopen
    cases hsucceeds : succeeds? receiptId row t with
    | true =>
      obtain ⟨final, hfinal, hextracted⟩ := hleaves.extracted hsucceeds
      have hrest : Machine.serve (execute receiptId) (execute receiptId db t).2 ts = _ :=
        serve_of_done fun t _ => execute_extracted hfinal hextracted
      rw [throughFirst_of_pos hsucceeds]
      simp only [Machine.serve, hrest]
      refine ⟨⟨[run], hruns, .cons hrecords .nil⟩, fun hnil => absurd hnil (List.cons_ne_nil _ _),
        fun t' ht' => ?_, ?_⟩
      · obtain rfl : t = t' := by simpa using ht'
        exact hleaves
      · have hskipped : ((ts.map fun t => (t, Except.ok t.1.returned) :
            List ((Trigger × World ε) × Except Raised (Option String))).map fun p => (p.1, p.2.isOk)) =
              ts.map fun t => (t, true) := by
          rw [List.map_map]
          rfl
        rw [List.map_cons, hskipped, hanswer]
        rfl
    | false =>
      obtain ⟨next, hnext, hopen'⟩ := hleaves.open hsucceeds
      obtain ⟨⟨runs, hmore, hall⟩, huntried, hreceipt, hanswers⟩ := ih hnext hopen' hts
      rw [throughFirst_of_neg hsucceeds]
      simp only [Machine.serve]
      refine ⟨⟨run :: runs, ?_, .cons hrecords hall⟩, fun hnil => absurd hnil (List.cons_ne_nil _ _),
        fun t' ht' => ?_, ?_⟩
      · rw [hmore, hruns, List.append_assoc]
        rfl
      · cases htail : (throughFirst (succeeds? receiptId row) ts).getLast? with
        | none =>
          rw [List.getLast?_cons, htail] at ht'
          obtain rfl : t = t' := by simpa using ht'
          rw [huntried (List.getLast?_eq_none_iff.1 htail)]
          exact hleaves
        | some last =>
          rw [List.getLast?_cons, htail] at ht'
          obtain rfl : last = t' := by simpa using ht'
          exact hreceipt last htail
      · rw [List.map_cons, List.map_cons, hanswers, hanswer, List.cons_append]
        rfl

theorem countP_records {runs : List ExtractionRun}
    (h : List.Forall₂ (fun t run => Records (call receiptId t.2 t.1) row run) ts runs) :
    runs.countP (·.outcome = .success) = ts.countP (succeeds? receiptId row) := by
  induction h with
  | nil => rfl
  | @cons t run ts runs hrecords _ ih =>
    have hsame : decide (run.outcome = .success) = succeeds? receiptId row t := by
      rw [Bool.eq_iff_iff, decide_eq_true_iff]
      exact hrecords.outcome
    rw [List.countP_cons, List.countP_cons, ih, hsame]

/-- A receipt is tried until the first success: every try is recorded once, as it went, a job
raises for each failure and for nothing else, and later executions leave no trace. -/
theorem one_record_per_try (hid : Int4 receiptId) (hrow : db.receipt = some row)
    (hopen : row.status ≠ .extracted) (h : ∀ t ∈ ts, Orderly receiptId row t) :
    Story receiptId row db (executions receiptId db ts).2 (throughFirst (succeeds? receiptId row) ts) ts
        (executions receiptId db ts).1 ∧
      (executions receiptId db ts).2.runs.countP (·.outcome = .success) ≤
        db.runs.countP (·.outcome = .success) + 1 := by
  have hstory := story hid hrow ⟨rfl, rfl, rfl, hopen⟩ h
  obtain ⟨runs, hruns, hall⟩ := hstory.runs
  refine ⟨hstory, ?_⟩
  rw [hruns, List.countP_append, countP_records hall]
  exact Nat.add_le_add_left (countP_throughFirst ..) _

def demoWorld (result : Except PyStr Unit) : World Unit where
  extractor := { (demoCall "").extractor with extract := fun _ _ => result }
  storage _ := .file []
  durationMs := 3

def demoJob (jobTry : ℤ) : Trigger := .job ⟨some jobTry, some (py (receiptJobId 1))⟩

/-- A job that fails once, with a background task after its second delivery. -/
def demoExecutions : List (Trigger × World Unit) :=
  [(demoJob 1, demoWorld (.error (py "No total found"))), (demoJob 2, demoWorld (.ok ())),
    (.task, demoWorld (.error (py "No total found")))]

theorem demo_orderly : ∀ t ∈ demoExecutions, Orderly 1 demoRow t := by
  have hlost : ∀ trigger e, attempted (call 1 (demoWorld (.error (py "No total found"))) trigger) demoRow =
      .error e → Storable (e.text.take 2000) := by
    intro trigger e he
    cases trigger
    all_goals
      cases he
      exact ⟨"No total found", take_py _ _, by decide⟩
  have hwon : ∀ trigger e, attempted (call 1 (demoWorld (.ok ())) trigger) demoRow = .error e →
      Storable (e.text.take 2000) := by
    intro trigger e he
    cases trigger
    all_goals cases he
  have hnumbers : Int4 1 ∧ Int4 2 ∧ Int4 3 := by norm_num [Int4]
  have hprovider : Fits 64 (py "stub") := ⟨"stub", rfl, by decide, by decide⟩
  simp only [demoExecutions, List.forall_mem_cons]
  refine ⟨⟨hprovider, hnumbers.2.2, fun ctx hctx => ?_, hlost _⟩,
    ⟨hprovider, hnumbers.2.2, fun ctx hctx => ?_, hwon _⟩,
    ⟨hprovider, hnumbers.2.2, nofun, hlost _⟩, nofun⟩
  · cases hctx
    exact ⟨hnumbers.1, rfl⟩
  · cases hctx
    exact ⟨hnumbers.2.1, rfl⟩

theorem one_record_per_try_redelivered :
    ((executions 1 ⟨some demoRow, []⟩ demoExecutions).1.map fun p => p.2.isOk) = [false, true, true] ∧
      (executions 1 ⟨some demoRow, []⟩ demoExecutions).2.runs.length = 2 := by
  have hid : Int4 1 := by norm_num [Int4]
  have hopen : demoRow.status ≠ .extracted := by decide
  have hstory : Story 1 demoRow ⟨some demoRow, []⟩ _ _ demoExecutions _ :=
    (one_record_per_try hid rfl hopen demo_orderly).1
  have htried : throughFirst (succeeds? 1 demoRow) demoExecutions = demoExecutions.take 2 := rfl
  have hanswers := congrArg (List.map Prod.snd) hstory.answers
  obtain ⟨runs, hruns, hall⟩ := hstory.runs
  rw [htried] at hanswers hall
  rw [List.map_map] at hanswers
  refine ⟨hanswers, ?_⟩
  rw [hruns, List.nil_append, ← hall.length_eq]
  rfl

end ReckonFlow.ExtractionRuns
