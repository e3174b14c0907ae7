import ReckonFlow.Lib.Numbering
import ReckonFlow.Proofs.BankImport
import ReckonFlow.Proofs.ImportPaths

/-! The report of an import: which rows of the body it counts, and which numbers it gives the
rejected ones. -/

namespace ReckonFlow

open Text Csv

variable {U : Unicode} {env : Env} {S : Sqlite} {names row : List String} {body : List (List String)}
  {content : List UInt8}

/-! ## Lines -/

/-- The record of a line does not go on in the next one. -/
def Closes (line : List Char) : Prop := ∀ p ∈ (({} : Parser).processLine line).toOption, p.mode = .startRecord

instance (line : List Char) : Decidable (Closes line) := inferInstanceAs (Decidable (∀ p ∈ _, _))

/-- The cells of a line; an open quote is closed by the end of the text. -/
def lineRow (line : List Char) : List String :=
  match ({} : Parser).processLine line with
  | .ok p => if p.mode = .startRecord then p.fields else (p.saveField .startRecord).fields
  | .error _ => []

theorem processLine_mode {q p : Parser} {line : List Char} (h : q.processLine line = .ok p) :
    p.mode = .startRecord ∨ p.mode = .inQuotedField := by
  obtain ⟨r, -, rfl⟩ := Except.map_eq_ok.1 h
  unfold Parser.endLine
  cases hr : r.mode with
  | startRecord => exact .inl hr
  | startField => exact .inl rfl
  | inField => exact .inl rfl
  | inQuotedField => exact .inr hr
  | quoteInQuotedField => exact .inl rfl
  | eatCrnl => exact .inl rfl

/-- A row for every line, when only the last one may leave a quote open. -/
theorem readRows_lines {lines : List (List Char)} (hclosed : ∀ line ∈ lines.dropLast, Closes line)
    (hok : (readRows {} lines).2 = none) : (readRows {} lines).1 = lines.map lineRow := by
  induction lines with
  | nil => rfl
  | cons line lines ih =>
    unfold readRows at hok ⊢
    cases hline : ({} : Parser).processLine line with
    | error e =>
      rw [hline] at hok
      cases hok
    | ok p =>
      rw [hline] at hok
      simp only at hok ⊢
      by_cases hmode : p.mode = .startRecord
      · rw [if_pos hmode] at hok ⊢
        have hrest : ∀ l ∈ lines.dropLast, Closes l := by
          intro l hl
          refine hclosed l ?_
          have hne : lines ≠ [] := by
            rintro rfl
            cases hl
          rw [List.dropLast_cons_of_ne_nil hne]
          exact List.mem_cons_of_mem _ hl
        rw [List.map_cons, ← ih hrest hok, lineRow, hline]
        simp only [if_pos hmode]
      · -- the quote is open, so this was the last line
        have hlast : lines = [] := by
          by_contra hne
          refine hmode (hclosed line ?_ p (by rw [hline]; rfl))
          rw [List.dropLast_cons_of_ne_nil hne]
          exact List.mem_cons_self ..
        subst hlast
        have hquoted := (processLine_mode hline).resolve_left hmode
        rw [if_neg hmode, readRows, if_pos (.inr hquoted), List.map_singleton, lineRow, hline]
        simp only [if_neg hmode]

/-- Every line but the last ends in a line feed. -/
theorem splitLines_dropLast (cs : List Char) : ∀ line ∈ (splitLines cs).dropLast, '\n' ∈ line := by
  induction cs with
  | nil => simp [splitLines]
  | cons c cs ih =>
    unfold splitLines
    split_ifs with hc
    · cases hrest : splitLines cs with
      | nil => simp
      | cons line lines =>
        rw [hrest] at ih
        rw [List.dropLast_cons_of_ne_nil (by simp), List.forall_mem_cons]
        exact ⟨by simp [hc], ih⟩
    · cases hrest : splitLines cs with
      | nil => simp
      | cons line lines =>
        rw [hrest] at ih
        cases lines with
        | nil => simp
        | cons line' lines =>
          simp only [List.dropLast_cons_cons, List.forall_mem_cons] at ih ⊢
          exact ⟨List.mem_cons_of_mem _ ih.1, ih.2⟩

/-- The lines of the upload. -/
def csvLines (content : List UInt8) : List (List Char) := splitLines (decodeSig content).toList

/-- No line feed stands inside quotes. -/
def QuotesClosed (content : List UInt8) : Prop := ∀ line ∈ csvLines content, '\n' ∈ line → Closes line

instance (content : List UInt8) : Decidable (QuotesClosed content) := inferInstanceAs (Decidable (∀ _ ∈ _, _))

/-- The canonical names in the first line. -/
def headerNames (U : Unicode) (content : List UInt8) : List String :=
  ((csvLines content).head?.toList.flatMap lineRow).map (normalizeHeader U)

/-- The cells of each line below it. -/
def bodyRows (content : List UInt8) : List (List String) := (csvLines content).tail.map lineRow

theorem reader_lines (hquotes : QuotesClosed content) (hok : (reader (decodeSig content)).2 = none) :
    (reader (decodeSig content)).1 = (csvLines content).map lineRow :=
  readRows_lines (fun line hline => hquotes line (List.dropLast_subset _ hline) (splitLines_dropLast _ line hline)) hok

/-! ## Cells with text -/

def HasText (row : List String) : Prop := ∃ cell ∈ row, strip cell ≠ ""

instance : DecidablePred HasText := fun _ => inferInstanceAs (Decidable (∃ _ ∈ _, _))

/-- Some cell with text stands in a column whose name no later column of the header has. -/
def ShowsText : List String → List String → Prop
  | name :: names, cell :: row => (strip cell ≠ "" ∧ name ∉ names) ∨ ShowsText names row
  | _, _ => False

instance instDecidableShowsText : ∀ names row, Decidable (ShowsText names row)
  | _ :: names, _ :: row =>
      have := instDecidableShowsText names row
      inferInstanceAs (Decidable (_ ∨ _))
  | [], _ => .isFalse id
  | _ :: _, [] => .isFalse id

/-- The columns of a row before they become a dictionary. -/
def columns : List String → List String → List (Option String × Value)
  | name :: names, cell :: row => (some name, .cell cell) :: columns names row
  | name :: names, [] => (some name, .absent) :: columns names []
  | [], [] => []
  | [], cell :: row => [(none, .surplus (cell :: row))]

theorem dictRow_eq (names row : List String) : dictRow names row = Dict.ofPairs (columns names row) := by
  have hcolumns : ∀ names row : List String, columns names row =
      ((names.zip row).map fun p => (some p.1, Value.cell p.2)) ++
        if names.length < row.length then [(none, .surplus (row.drop names.length))]
        else (names.drop row.length).map fun name => (some name, Value.absent) := by
    intro names
    induction names with
    | nil =>
      intro row
      cases row <;> simp [columns]
    | cons name names ih =>
      intro row
      cases row with
      | nil => simp [columns, ih]
      | cons cell row => simp [columns, ih]
  unfold dictRow Dict.ofPairs
  rw [hcolumns, List.foldl_append]
  by_cases h : names.length < row.length
  · simp only [if_pos h]
    rfl
  · simp only [if_neg h, List.foldl_map]

theorem mem_keys_columns {name : String} : some name ∈ Dict.keys (columns names row) ↔ name ∈ names := by
  unfold Dict.keys
  induction names generalizing row with
  | nil => cases row <;> simp [columns]
  | cons n names ih => cases row <;> simp [columns, ih]

/-- A value with text among those of a row. -/
def TextIn (raw : List (Option String × Value)) : Prop := ∃ p ∈ raw, ∃ s, p.2 = .cell s ∧ strip s ≠ ""

theorem textIn_cons {p : Option String × Value} {pairs : List (Option String × Value)} :
    TextIn (Dict.ofPairs (p :: pairs)) ↔
      ((∃ s, p.2 = .cell s ∧ strip s ≠ "") ∧ p.1 ∉ Dict.keys pairs) ∨ TextIn (Dict.ofPairs pairs) := by
  constructor
  · rintro ⟨q, hq, htext⟩
    rcases Dict.mem_ofPairs_cons.1 hq with ⟨rfl, hnew⟩ | hq
    · exact .inl ⟨htext, hnew⟩
    · exact .inr ⟨q, hq, htext⟩
  · rintro (⟨htext, hnew⟩ | ⟨q, hq, htext⟩)
    · exact ⟨p, Dict.mem_ofPairs_cons.2 (.inl ⟨rfl, hnew⟩), htext⟩
    · exact ⟨q, Dict.mem_ofPairs_cons.2 (.inr hq), htext⟩

theorem textIn_dictRow : TextIn (dictRow names row) ↔ ShowsText names row := by
  rw [dictRow_eq]
  induction names generalizing row with
  | nil => cases row <;> simp [columns, ShowsText, TextIn, Dict.ofPairs, Dict.set]
  | cons name names ih =>
    cases row with
    | nil =>
      rw [columns, textIn_cons, ih]
      cases names <;> simp [ShowsText]
    | cons cell row =>
      rw [columns, textIn_cons, ih, ShowsText, mem_keys_columns]
      simp

/-- What shows has text. -/
theorem ShowsText.hasText (h : ShowsText names row) : HasText row := by
  induction names generalizing row with
  | nil => cases row <;> cases h
  | cons name names ih =>
    cases row with
    | nil => cases h
    | cons cell row =>
      rcases h with ⟨htext, -⟩ | h
      · exact ⟨cell, List.mem_cons_self .., htext⟩
      · obtain ⟨s, hs, htext⟩ := ih h
        exact ⟨s, List.mem_cons_of_mem _ hs, htext⟩

theorem anyText_true {vs : List Value} (h : anyText vs = .ok true) :
    ∃ s, Value.cell s ∈ vs ∧ strip s ≠ "" := by
  induction vs with
  | nil => cases h
  | cons v vs ih =>
    have hlater : anyText vs = .ok true → ∃ s, Value.cell s ∈ v :: vs ∧ strip s ≠ "" := by
      intro h
      obtain ⟨s, hs, htext⟩ := ih h
      exact ⟨s, List.mem_cons_of_mem _ hs, htext⟩
    cases v with
    | cell s =>
      rw [anyText] at h
      split_ifs at h with hblank
      · exact hlater h
      · exact ⟨s, List.mem_cons_self .., hblank⟩
    | absent => exact hlater h
    | surplus cs => cases h

/-- The test of `import_csv` on a row it does not fail on. -/
theorem anyText_dictRow (h : ¬ BlankWithSurplus names row) :
    anyText ((dictRow names row).map (·.2)) = .ok (decide (ShowsText names row)) := by
  obtain ⟨b, hb⟩ := anyText_iff.2 h
  rw [hb, Except.ok.injEq, Bool.eq_iff_iff, decide_eq_true_iff, ← textIn_dictRow]
  cases b with
  | false =>
    refine iff_of_false Bool.false_ne_true ?_
    rintro ⟨p, hp, s, hs, htext⟩
    exact htext (anyText_false hb (List.mem_map.2 ⟨p, hp, hs⟩))
  | true =>
    refine iff_of_true rfl ?_
    obtain ⟨s, hs, htext⟩ := anyText_true hb
    obtain ⟨p, hp, hps⟩ := List.mem_map.1 hs
    exact ⟨p, hp, s, hps, htext⟩

/-! ## The loop -/

/-- What the validation of a row reports. -/
def rejection (U : Unicode) (env : Env) (names row : List String) : Option (List (String × FieldError)) :=
  match validateRow U env (dictRow names row) with
  | .ok _ => none
  | .error errors => some errors

/-- What the loop reports of a row. -/
def reported (U : Unicode) (env : Env) (names row : List String) : Option (List (String × FieldError)) :=
  if ShowsText names row then rejection U env names row else none

def importError (x : ℕ × List (String × FieldError)) : BankImportError := ⟨x.1, .invalid x.2⟩

theorem importError_injective : Function.Injective importError := by
  intro x y h
  obtain ⟨hline, hreason⟩ := BankImportError.mk.inj h
  exact Prod.ext hline (RejectReason.invalid.inj hreason)

theorem not_showsText_nil (names : List String) : ¬ ShowsText names [] := by
  cases names <;> exact id

/-- What one row adds to the counters. -/
structure Counted (U : Unicode) (env : Env) (names : List String) (rows : List (List String))
    (st st' : Parsed) : Prop where
  received : st'.received = st.received + rows.countP (ShowsText names ·)
  line : st'.line = st.line + (rows.filter (· ≠ [])).length
  errors : st'.errors = st.errors ++
    (numbered (reported U env names) (st.line + 1) (rows.filter (· ≠ []))).map importError
  total : st'.rows.length + st'.errors.length + st.received =
    st.rows.length + st.errors.length + st'.received

theorem parseRow_counted {st st' : Parsed} (h : parseRow U env names st row = .ok st') :
    Counted U env names [row] st st' := by
  have htext := anyText_dictRow (parseRow_surplus h)
  unfold parseRow at h
  by_cases hrow : row = []
  · rw [if_pos hrow] at h
    obtain rfl := Except.ok.inj h
    subst hrow
    refine ⟨?_, rfl, (List.append_nil _).symm, rfl⟩
    rw [List.countP_singleton, if_neg (by simpa using not_showsText_nil names), Nat.add_zero]
  · have hkept : [row].filter (· ≠ []) = [row] := by simp [hrow]
    rw [if_neg hrow] at h
    simp only [htext] at h
    by_cases hshows : ShowsText names row
    · simp only [hshows, decide_true] at h
      cases hvalid : validateRow U env (dictRow names row) with
      | ok valid =>
        have hnone : reported U env names row = none := by
          rw [reported, if_pos hshows, rejection, hvalid]
        rw [hvalid] at h
        obtain rfl := Except.ok.inj h
        refine ⟨?_, ?_, ?_, ?_⟩
        · simp [hshows]
        · rw [hkept, List.length_singleton]
        · rw [hkept, numbered_cons_none hnone]
          exact (List.append_nil _).symm
        · simp only [List.length_append, List.length_singleton]
          omega
      | error errors =>
        have hsome : reported U env names row = some errors := by
          rw [reported, if_pos hshows, rejection, hvalid]
        rw [hvalid] at h
        obtain rfl := Except.ok.inj h
        refine ⟨?_, ?_, ?_, ?_⟩
        · simp [hshows]
        · rw [hkept, List.length_singleton]
        · rw [hkept, numbered_cons_some hsome]
          rfl
        · simp only [List.length_append, List.length_singleton]
          omega
    · simp only [hshows, decide_false] at h
      have hnone : reported U env names row = none := if_neg hshows
      obtain rfl := Except.ok.inj h
      refine ⟨?_, ?_, ?_, rfl⟩
      · simp [hshows]
      · rw [hkept, List.length_singleton]
      · rw [hkept, numbered_cons_none hnone]
        exact (List.append_nil _).symm

theorem Counted.nil (st : Parsed) : Counted U env names [] st st :=
  ⟨rfl, rfl, (List.append_nil _).symm, rfl⟩

theorem Counted.append {rows rows' : List (List String)} {st st₁ st₂ : Parsed}
    (h : Counted U env names rows st st₁) (h' : Counted U env names rows' st₁ st₂) :
    Counted U env names (rows ++ rows') st st₂ where
  received := by rw [h'.received, h.received, List.countP_append, Nat.add_assoc]
  line := by rw [h'.line, h.line, List.filter_append, List.length_append, Nat.add_assoc]
  errors := by
    rw [h'.errors, h.errors, h.line, List.filter_append, numbered_append, List.map_append, List.append_assoc,
      Nat.add_right_comm]
  total := by
    have h₁ := h.total
    have h₂ := h'.total
    omega

theorem parse_counted {st st' : Parsed} (h : body.foldlM (parseRow U env names) st = .ok st') :
    Counted U env names body st st' := by
  induction body generalizing st with
  | nil =>
    obtain rfl := Except.ok.inj h
    exact .nil st
  | cons row body ih =>
    rw [List.foldlM_cons, Except.bind_eq_ok] at h
    obtain ⟨st₁, hrow, hbody⟩ := h
    exact (parseRow_counted hrow).append (ih hbody)

/-! ## The insertion -/

theorem importRow_total {st st' : ImportState} {r : BankCsvRow} (h : importRow env st r = .ok st') :
    st'.inserted + st'.skipped = st.inserted + st.skipped + 1 := by
  rcases importRow_cases env st r with ⟨-, he⟩ | ⟨k, -, -, he⟩ | ⟨k, -, -, he⟩
  · obtain rfl := Except.ok.inj (he.symm.trans h)
    exact Nat.add_right_comm ..
  · obtain rfl := Except.ok.inj (he.symm.trans h)
    rfl
  · obtain ⟨v, -, rfl⟩ := Except.map_eq_ok.1 (he.symm.trans h)
    split_ifs
    · rfl
    · exact Nat.add_right_comm ..

theorem insertPostgres_total {db db' : Db} {rows : List BankCsvRow} {inserted skipped : ℕ}
    (h : insertPostgres env db rows = .ok (db', inserted, skipped)) : inserted + skipped = rows.length := by
  have hloop : ∀ (rows : List BankCsvRow) (st st' : ImportState), rows.foldlM (importRow env) st = .ok st' →
      st'.inserted + st'.skipped = st.inserted + st.skipped + rows.length := by
    intro rows
    induction rows with
    | nil =>
      intro st st' h
      obtain rfl := Except.ok.inj h
      rfl
    | cons r rows ih =>
      intro st st' h
      rw [List.foldlM_cons, Except.bind_eq_ok] at h
      obtain ⟨st₁, hrow, hrows⟩ := h
      rw [ih st₁ st' hrows, importRow_total hrow, List.length_cons]
      omega
  simp only [insertPostgres, Except.bind_eq_ok, Except.pure_eq_ok] at h
  obtain ⟨st, hst, db₁, -, heq⟩ := h
  obtain ⟨-, rfl, rfl⟩ := Prod.mk.inj heq |>.imp id Prod.mk.inj
  simpa using hloop rows { db := db } st hst

theorem insertSqliteSafe_total {t t' : SqliteTable} {rows : List BankCsvRow} {inserted skipped : ℕ}
    (h : insertSqliteSafe env S t rows = .ok (t', inserted, skipped)) : inserted + skipped = rows.length := by
  simp only [insertSqliteSafe, Except.bind_eq_ok, Except.pure_eq_ok] at h
  obtain ⟨t₁, -, heq⟩ := h
  obtain ⟨-, rfl, rfl⟩ := Prod.mk.inj heq |>.imp id Prod.mk.inj
  obtain ⟨seen, skipped, hloop, hsum⟩ := safe_loop (existingExternalIds t (rows.filterMap BankCsvRow.key)) rows {}
  rw [hloop]
  simpa using hsum

/-! ## The report -/

/-- `import_csv` returned the report, on either database. -/
def Reports (U : Unicode) (env : Env) (S : Sqlite) (content : List UInt8) (report : BankImportResult) : Prop :=
  (∃ db db', importCsv U env db content = .ok (db', report)) ∨
    ∃ t t', importCsvSqlite env S U t content = .ok (t', report)

/-- What should be reported of a row. -/
def toReport (U : Unicode) (env : Env) (names row : List String) : Option (List (String × FieldError)) :=
  if HasText row then rejection U env names row else none

/-- The report counts every row with text, each of them once, and names the rejected ones by their
place among the lines of the body. -/
structure ReportAddsUp (U : Unicode) (env : Env) (content : List UInt8) (report : BankImportResult) :
    Prop where
  received : report.receivedRows = (bodyRows content).countP (HasText ·)
  total : report.receivedRows = report.inserted + report.skippedDuplicates + report.errors.length
  errors : report.errors = (numbered (toReport U env (headerNames U content)) 1 (bodyRows content)).map importError

/-- The lines of a file with a header, as the loop goes over them. -/
theorem parseCsv_lines {o : Option Parsed} (h : parseCsv U env content = .ok o)
    (hheader : csvLines content ≠ []) (hquotes : QuotesClosed content) :
    ∃ st, o = some st ∧ Counted U env (headerNames U content) (bodyRows content) {} st := by
  obtain ⟨line, lines, hlines⟩ := List.exists_cons_of_ne_nil hheader
  have hnames : headerNames U content = (lineRow line).map (normalizeHeader U) := by
    simp [headerNames, hlines]
  have hbody : bodyRows content = lines.map lineRow := by rw [bodyRows, hlines, List.tail_cons]
  unfold parseCsv at h
  cases hread : reader (decodeSig content) with
  | mk rows stop =>
    have hrows : stop = none → rows = lineRow line :: lines.map lineRow := by
      rintro rfl
      have hreader := reader_lines hquotes (by rw [hread])
      rw [hread, hlines, List.map_cons] at hreader
      exact hreader
    rw [hread] at h
    cases rows with
    | nil =>
      cases stop with
      | none => cases hrows rfl
      | some e => cases h
    | cons header body =>
      obtain ⟨st, hst, hrest⟩ := Except.bind_eq_ok.1 h
      cases stop with
      | some e => cases hrest
      | none =>
        obtain ⟨rfl, rfl⟩ := List.cons.inj (hrows rfl)
        refine ⟨st, (Except.ok.inj hrest).symm, ?_⟩
        rw [hnames, hbody]
        exact parse_counted hst

theorem Reports.parsed {report : BankImportResult} (h : Reports U env S content report)
    (hheader : csvLines content ≠ []) (hquotes : QuotesClosed content) : ∃ st : Parsed,
    Counted U env (headerNames U content) (bodyRows content) {} st ∧ st.received = report.receivedRows ∧
      st.errors = report.errors ∧ st.rows.length = report.inserted + report.skippedDuplicates := by
  rcases h with ⟨db, db', h⟩ | ⟨t, t', h⟩
  · obtain ⟨o, ho, hrest⟩ := Except.bind_eq_ok.1 h
    obtain ⟨st, rfl, hst⟩ := parseCsv_lines ho hheader hquotes
    obtain ⟨⟨db₁, inserted, skipped⟩, hinsert, heq⟩ := Except.bind_eq_ok.1 hrest
    obtain ⟨-, rfl⟩ := Prod.mk.inj (Except.ok.inj heq)
    exact ⟨st, hst, rfl, rfl, (insertPostgres_total (Except.mapError_eq_ok.1 hinsert)).symm⟩
  · obtain ⟨o, ho, hrest⟩ := Except.bind_eq_ok.1 h
    obtain ⟨st, rfl, hst⟩ := parseCsv_lines ho hheader hquotes
    obtain ⟨⟨t₁, inserted, skipped⟩, hinsert, heq⟩ := Except.bind_eq_ok.1 hrest
    obtain ⟨-, rfl⟩ := Prod.mk.inj (Except.ok.inj heq)
    exact ⟨st, hst, rfl, rfl, (insertSqliteSafe_total (Except.mapError_eq_ok.1 hinsert)).symm⟩

/-- On rows that show their text the loop reports what should be. -/
theorem reported_eq (h : HasText row → ShowsText names row) :
    reported U env names row = toReport U env names row := by
  unfold reported toReport
  by_cases htext : HasText row
  · rw [if_pos htext, if_pos (h htext)]
  · rw [if_neg htext, if_neg fun hshows => htext hshows.hasText]

theorem toReport_eq_none : toReport U env names row = none ↔ (HasText row → rejection U env names row = none) := by
  unfold toReport
  by_cases h : HasText row
  · rw [if_pos h]
    exact ⟨fun hnone _ => hnone, fun hnone => hnone h⟩
  · rw [if_neg h]
    exact iff_of_true rfl fun htext => absurd htext h

theorem toReport_nil (row : List String) (h : decide (row ≠ []) = false) : toReport U env names row = none := by
  obtain rfl := not_not.1 (of_decide_eq_false h)
  exact toReport_eq_none.2 fun ⟨_, hcell, _⟩ => absurd hcell List.not_mem_nil

/-- As many rows show text as have text only if they are the same ones. -/
theorem countP_shows_iff : body.countP (ShowsText names ·) = body.countP (HasText ·) ↔
    ∀ row ∈ body, HasText row → ShowsText names row := by
  constructor
  · intro h
    rw [List.countP_eq_length_filter, List.countP_eq_length_filter] at h
    have hfilter : (body.filter (HasText ·)).filter (ShowsText names ·) = body.filter (ShowsText names ·) := by
      rw [List.filter_filter]
      refine List.filter_congr fun row _ => ?_
      by_cases hshows : ShowsText names row
      · simp [hshows, hshows.hasText]
      · simp [hshows]
    rw [← hfilter] at h
    have hall := List.filter_sublist.eq_of_length h
    rw [List.filter_eq_self] at hall
    intro row hrow htext
    exact of_decide_eq_true (hall row (List.mem_filter.2 ⟨hrow, decide_eq_true htext⟩))
  · intro h
    refine List.countP_congr fun row hrow => ?_
    rw [decide_eq_true_iff, decide_eq_true_iff]
    exact ⟨ShowsText.hasText, h row hrow⟩

/-- Then the numbers are right iff no empty line stands before a rejected row. -/
theorem numbered_reported_iff (hshows : ∀ row ∈ body, HasText row → ShowsText names row) :
    (numbered (reported U env names) 1 (body.filter (· ≠ []))).map importError =
        (numbered (toReport U env names) 1 body).map importError ↔
      body.Pairwise fun empty row => empty = [] → HasText row → rejection U env names row = none := by
  have hsame : numbered (reported U env names) 1 (body.filter (· ≠ [])) =
      numbered (toReport U env names) 1 (body.filter (· ≠ [])) :=
    numbered_congr fun row hrow => reported_eq (hshows row (List.mem_of_mem_filter hrow))
  rw [hsame, (List.map_injective_iff.2 importError_injective).eq_iff, numbered_filter_iff toReport_nil]
  refine List.Pairwise.iff fun {empty row} => ?_
  rw [toReport_eq_none, decide_eq_false_iff_not, not_not]

/-- The report adds up iff every row with text shows it in a column whose name is not repeated, and no
empty line stands before a rejected row. -/
theorem report_adds_up_iff {report : BankImportResult} (h : Reports U env S content report)
    (hheader : csvLines content ≠ []) (hquotes : QuotesClosed content) :
    ReportAddsUp U env content report ↔
      (∀ row ∈ bodyRows content, HasText row → ShowsText (headerNames U content) row) ∧
        (bodyRows content).Pairwise fun empty row => empty = [] → HasText row →
          rejection U env (headerNames U content) row = none := by
  obtain ⟨st, hst, hreceived, herrors, hrows⟩ := h.parsed hheader hquotes
  have hcount : report.receivedRows = (bodyRows content).countP (ShowsText (headerNames U content) ·) := by
    rw [← hreceived, hst.received]
    exact Nat.zero_add _
  have hnumbered : report.errors = (numbered (reported U env (headerNames U content)) 1
      ((bodyRows content).filter (· ≠ []))).map importError := by
    rw [← herrors, hst.errors]
    exact List.nil_append _
  have htotal : report.receivedRows = report.inserted + report.skippedDuplicates + report.errors.length := by
    have hsum := hst.total
    rw [hreceived, hrows, herrors] at hsum
    simpa using hsum.symm
  constructor
  · intro hreport
    have hshows := countP_shows_iff.1 (hcount.symm.trans hreport.received)
    exact ⟨hshows, (numbered_reported_iff hshows).1 (hnumbered.symm.trans hreport.errors)⟩
  · rintro ⟨hshows, hempty⟩
    exact ⟨hcount.trans (countP_shows_iff.2 hshows), htotal,
      hnumbered.trans ((numbered_reported_iff hshows).2 hempty)⟩

/-- A bad row behind a good one. -/
theorem report_adds_up_iff_soon : ∃ report, Reports demoUnicode demoEnv demoSqlite (demoFile "soon\n") report ∧
    ReportAddsUp demoUnicode demoEnv (demoFile "soon\n") report := by
  obtain ⟨⟨db, report⟩, hrun⟩ : ∃ r, importCsv demoUnicode demoEnv Db.empty (demoFile "soon\n") = .ok r :=
    Except.isOk_iff.1 (by decide +kernel)
  have hreports : Reports demoUnicode demoEnv demoSqlite (demoFile "soon\n") report := .inl ⟨_, _, hrun⟩
  have hclosed : QuotesClosed (demoFile "soon\n") := by decide +kernel
  refine ⟨report, hreports, (report_adds_up_iff hreports (by decide +kernel) hclosed).2 ⟨?_, ?_⟩⟩
  · decide +kernel
  · decide +kernel

/-- An empty line before the bad row. -/
theorem report_adds_up_fails : ¬ ∀ (U : Unicode) (env : Env) (S : Sqlite) (content : List UInt8)
    (report : BankImportResult), Reports U env S content report → csvLines content ≠ [] →
      QuotesClosed content → ReportAddsUp U env content report := by
  intro hall
  have hnumbers : (importCsv demoUnicode demoEnv Db.empty (demoFile "\nsoon\n")).map
      (fun r => r.2.errors.map (·.lineNumber)) = .ok [2] := by decide +kernel
  obtain ⟨⟨db, report⟩, hrun, hline⟩ := Except.map_eq_ok.1 hnumbers
  have hreport := hall demoUnicode demoEnv demoSqlite (demoFile "\nsoon\n") report (.inl ⟨_, _, hrun⟩)
    (by decide +kernel) (by decide +kernel)
  have hplace : ((numbered (toReport demoUnicode demoEnv (headerNames demoUnicode (demoFile "\nsoon\n"))) 1
      (bodyRows (demoFile "\nsoon\n"))).map importError).map (·.lineNumber) = [3] := by decide +kernel
  rw [← hreport.errors, hline] at hplace
  exact absurd hplace (by decide)

end ReckonFlow
