import ReckonFlow.Proofs.BankRows

/-! What one bad row of a statement does to the import of the others. -/

namespace ReckonFlow

open Text Csv

variable {U : Unicode} {env : Env} {db : Db} {names row : List String} {body : List (List String)}

/-! ## Rows of cells -/

/-- The cells under the names of the header; of two under one name the last. -/
def named (names row : List String) : List (Option String × Value) :=
  Dict.ofPairs ((names.zip row).map fun p => (some p.1, .cell p.2))

/-- A blank row with more cells than the header. -/
structure BlankWithSurplus (names row : List String) : Prop where
  surplus : names.length < row.length
  blank : ∀ s, Value.cell s ∈ (named names row).map (·.2) → strip s = ""

theorem named_cell {p : Option String × Value} (h : p ∈ named names row) :
    p.1 ≠ none ∧ ∃ s ∈ row, p.2 = .cell s := by
  obtain ⟨q, hq, rfl⟩ := List.mem_map.1 (Dict.mem_ofPairs h)
  exact ⟨Option.some_ne_none _, q.2, (List.of_mem_zip hq).2, rfl⟩

theorem dictRow_surplus (h : names.length < row.length) :
    dictRow names row = named names row ++ [(none, .surplus (row.drop names.length))] := by
  have hnone : none ∉ Dict.keys (named names row) := by
    intro hmem
    obtain ⟨p, hp, he⟩ := List.mem_map.1 hmem
    exact (named_cell hp).1 he
  unfold dictRow
  rw [if_pos h]
  exact Dict.set_of_new _ hnone

/-- A row that is not too long has no list among its values. -/
theorem dictRow_short (h : ¬ names.length < row.length) {p : Option String × Value}
    (hp : p ∈ dictRow names row) : p.2 = .absent ∨ ∃ s ∈ row, p.2 = .cell s := by
  unfold dictRow at hp
  rw [if_neg h] at hp
  suffices hs : ∀ (l : List String) (d : List (Option String × Value)),
      (∀ q ∈ d, q.2 = .absent ∨ ∃ s ∈ row, q.2 = .cell s) →
      p ∈ l.foldl (fun d name => Dict.set d (some name) .absent) d →
        p.2 = .absent ∨ ∃ s ∈ row, p.2 = .cell s from
    hs _ _ (fun q hq => .inr (named_cell hq).2) hp
  intro l
  induction l with
  | nil => exact fun d hd hp => hd p hp
  | cons name l ih =>
    intro d hd hp
    refine ih _ (fun q hq => ?_) hp
    rcases Dict.mem_set hq with rfl | hq
    · exact .inl rfl
    · exact hd q hq

/-- What the test for blank rows reads before a list. -/
theorem anyText_append {vs rest : List Value} (h : ∀ v ∈ vs, v = .absent ∨ ∃ s, v = .cell s) :
    ((∃ s, Value.cell s ∈ vs ∧ strip s ≠ "") ∧ anyText (vs ++ rest) = .ok true) ∨
      ((∀ s, Value.cell s ∈ vs → strip s = "") ∧ anyText (vs ++ rest) = anyText rest) := by
  induction vs with
  | nil => exact .inr ⟨by simp, rfl⟩
  | cons v vs ih =>
    have hvs := ih fun w hw => h w (List.mem_cons_of_mem _ hw)
    have hskip : anyText (v :: (vs ++ rest)) = anyText (vs ++ rest) →
        (∀ s, v = Value.cell s → strip s = "") →
        ((∃ s, Value.cell s ∈ v :: vs ∧ strip s ≠ "") ∧ anyText (v :: vs ++ rest) = .ok true) ∨
        ((∀ s, Value.cell s ∈ v :: vs → strip s = "") ∧ anyText (v :: vs ++ rest) = anyText rest) := by
      intro he hblank
      rw [List.cons_append, he]
      rcases hvs with ⟨⟨s, hs, hne⟩, hok⟩ | ⟨hall, hrest⟩
      · exact .inl ⟨⟨s, List.mem_cons_of_mem _ hs, hne⟩, hok⟩
      · refine .inr ⟨fun s hs => ?_, hrest⟩
        rcases List.mem_cons.1 hs with heq | hs
        · exact hblank s heq.symm
        · exact hall s hs
    rcases h v (List.mem_cons_self ..) with rfl | ⟨s, rfl⟩
    · exact hskip rfl fun s hs => by cases hs
    · by_cases hs : strip s = ""
      · refine hskip ?_ fun s' hs' => by cases hs'; exact hs
        rw [anyText, if_pos hs]
      · refine .inl ⟨⟨s, List.mem_cons_self .., hs⟩, ?_⟩
        rw [List.cons_append, anyText, if_neg hs]

theorem anyText_false {vs : List Value} {s : String} (h : anyText vs = .ok false)
    (hs : Value.cell s ∈ vs) : strip s = "" := by
  induction vs with
  | nil => cases hs
  | cons v vs ih =>
    cases v with
    | cell s' =>
      rw [anyText] at h
      split_ifs at h with hblank
      · rcases List.mem_cons.1 hs with heq | hs
        · exact Value.cell.inj heq ▸ hblank
        · exact ih h hs
      · cases h
    | absent =>
      rcases List.mem_cons.1 hs with heq | hs
      · cases heq
      · exact ih h hs
    | surplus cs => cases h

theorem anyText_iff : (∃ b, anyText ((dictRow names row).map (·.2)) = .ok b) ↔
    ¬ BlankWithSurplus names row := by
  by_cases h : names.length < row.length
  · have hcells : ∀ v ∈ (named names row).map (·.2), v = .absent ∨ ∃ s, v = .cell s := by
      intro v hv
      obtain ⟨p, hp, rfl⟩ := List.mem_map.1 hv
      obtain ⟨-, s, -, hs⟩ := named_cell hp
      exact .inr ⟨s, hs⟩
    rw [dictRow_surplus h, List.map_append]
    rcases anyText_append hcells with ⟨⟨s, hs, hne⟩, hok⟩ | ⟨hall, hrest⟩
    · rw [hok]
      exact iff_of_true ⟨true, rfl⟩ fun hb => hne (hb.blank s hs)
    · rw [hrest]
      exact iff_of_false (by rintro ⟨b, hb⟩; cases hb) fun hb => hb ⟨h, hall⟩
  · have hcells : ∀ v ∈ (dictRow names row).map (·.2), v = .absent ∨ ∃ s, v = .cell s := by
      intro v hv
      obtain ⟨p, hp, rfl⟩ := List.mem_map.1 hv
      exact (dictRow_short h hp).imp id fun ⟨s, _, hs⟩ => ⟨s, hs⟩
    refine iff_of_true ?_ fun hb => h hb.surplus
    rw [← List.append_nil ((dictRow names row).map (·.2))]
    rcases anyText_append hcells with ⟨-, hok⟩ | ⟨-, hrest⟩
    · exact ⟨true, hok⟩
    · exact ⟨false, hrest⟩

/-! ## Validation -/

/-- The statement row of a row of cells, when it is valid. -/
def validRow (U : Unicode) (env : Env) (names row : List String) : Option BankCsvRow :=
  (validateRow U env (dictRow names row)).toOption

theorem validRow_eq_some {r : BankCsvRow} :
    validRow U env names row = some r ↔ validateRow U env (dictRow names row) = .ok r := by
  unfold validRow
  cases validateRow U env (dictRow names row) with
  | ok r' => exact ⟨fun h => congrArg _ (Option.some.inj h), fun h => congrArg _ (Except.ok.inj h)⟩
  | error es => exact iff_of_false (by rintro ⟨⟩) (by rintro ⟨⟩)

theorem validRow_of_error {es : List (String × FieldError)}
    (h : validateRow U env (dictRow names row) = .error es) : validRow U env names row = none := by
  unfold validRow
  rw [h]
  rfl

/-- A valid row is valid field by field. -/
theorem validateRow_ok {raw : List (Option String × Value)} {r : BankCsvRow}
    (h : validateRow U env raw = .ok r) :
    validateAmount U (Dict.get raw (some "amount")) = .ok r.amount ∧
      validateExternalId (Dict.get raw (some "external_id")) = .ok r.externalId := by
  unfold validateRow at h
  cases hd : validateDate U (Dict.get raw (some "booking_date")) with
  | error e => simp only [hd, reduceCtorEq] at h
  | ok date =>
  cases ha : validateAmount U (Dict.get raw (some "amount")) with
  | error e => simp only [hd, ha, reduceCtorEq] at h
  | ok amount =>
  cases hc : validateCurrency env (Dict.get raw (some "currency")) with
  | error e => simp only [hd, ha, hc, reduceCtorEq] at h
  | ok currency =>
  cases ht : validateDescription (Dict.get raw (some "description")) with
  | error e => simp only [hd, ha, hc, ht, reduceCtorEq] at h
  | ok description =>
  cases hx : validateExternalId (Dict.get raw (some "external_id")) with
  | error e => simp only [hd, ha, hc, ht, hx, reduceCtorEq] at h
  | ok externalId =>
  simp only [hd, ha, hc, ht, hx, Except.ok.injEq] at h
  subst h
  exact ⟨rfl, rfl⟩

theorem validated_of_row {r : BankCsvRow} {raw : List (Option String × Value)}
    (h : validateRow U env raw = .ok r) : Validated r := by
  intro x hx
  have hext := (validateRow_ok h).2
  rw [hx] at hext
  generalize Dict.get raw (some "external_id") = v at hext
  unfold validateExternalId at hext
  split at hext
  · cases hext
  · cases hext
  · split_ifs at hext with hblank hlong
    · cases hext
    · obtain rfl := Option.some.inj (Except.ok.inj hext)
      refine ⟨?_, by omega⟩
      rintro rfl
      exact hblank rfl
  · cases hext

theorem validRow_validated {r : BankCsvRow} (h : validRow U env names row = some r) :
    Validated r := validated_of_row (validRow_eq_some.1 h)

/-- A blank cell is no amount. -/
theorem validateAmount_blank {s : String} (h : strip s = "") :
    validateAmount U (some (.cell s)) = .error (.notDecimal "") := by
  have htext : normalizeAmount s = "" := by simp [normalizeAmount, h]
  have hstrip : strip "" = "" := by decide
  have hascii : numericAsAscii U "" = [] := by simp [numericAsAscii, hstrip]
  have hnumber : decimalOf U "" = none := by
    simp [decimalOf, hascii, splitSign, parseNumber]
  unfold validateAmount mustBeDecimal
  simp only [htext, hnumber]

/-- A row without text is not valid. -/
theorem validRow_blank (h : ∀ s, Value.cell s ∈ (dictRow names row).map (·.2) → strip s = "") :
    validRow U env names row = none := by
  cases hv : validateRow U env (dictRow names row) with
  | error es => exact validRow_of_error hv
  | ok r =>
    have hamount := (validateRow_ok hv).1
    cases hget : Dict.get (dictRow names row) (some "amount") with
    | none =>
      rw [hget] at hamount
      cases hamount
    | some v =>
      rw [hget] at hamount
      have hmem : v ∈ (dictRow names row).map (·.2) := List.mem_map.2 ⟨_, Dict.mem_of_get hget, rfl⟩
      cases v with
      | cell s =>
        rw [validateAmount_blank (h s hmem)] at hamount
        cases hamount
      | absent => cases hamount
      | surplus cs => cases hamount

/-! ## The loop over the body -/

theorem not_blankWithSurplus_nil : ¬ BlankWithSurplus names [] := fun h => absurd h.surplus (by simp)

theorem parseRow_ok (U : Unicode) (env : Env) (h : ¬ BlankWithSurplus names row) (st : Parsed) :
    ∃ st', parseRow U env names st row = .ok st' ∧
      st'.rows = st.rows ++ (validRow U env names row).toList := by
  unfold parseRow
  by_cases hrow : row = []
  · have hnone : validRow U env names row = none := by
      refine validRow_blank fun s hs => ?_
      obtain ⟨p, hp, he⟩ := List.mem_map.1 hs
      subst hrow
      rcases dictRow_short (by simp) hp with habsent | ⟨s', hs', -⟩
      · cases habsent.symm.trans he
      · cases hs'
    rw [if_pos hrow, hnone]
    exact ⟨st, rfl, (List.append_nil _).symm⟩
  · rw [if_neg hrow]
    obtain ⟨b, hb⟩ := anyText_iff.2 h
    simp only [hb]
    cases b with
    | false =>
      rw [validRow_blank fun s hs => anyText_false hb hs]
      exact ⟨_, rfl, (List.append_nil _).symm⟩
    | true =>
      cases hv : validateRow U env (dictRow names row) with
      | ok r =>
        rw [validRow_eq_some.2 hv]
        exact ⟨_, rfl, rfl⟩
      | error es =>
        rw [validRow_of_error hv]
        exact ⟨_, rfl, (List.append_nil _).symm⟩

theorem parseRow_surplus {st st' : Parsed} (h : parseRow U env names st row = .ok st') :
    ¬ BlankWithSurplus names row := by
  unfold parseRow at h
  split_ifs at h with hrow
  · subst hrow
    exact not_blankWithSurplus_nil
  · obtain ⟨b, hb, -⟩ := Except.bind_eq_ok.1 h
    exact anyText_iff.1 ⟨b, hb⟩

theorem parse_body (U : Unicode) (env : Env) (h : ∀ row ∈ body, ¬ BlankWithSurplus names row)
    (st : Parsed) : ∃ st', body.foldlM (parseRow U env names) st = .ok st' ∧
      st'.rows = st.rows ++ body.filterMap (validRow U env names) := by
  induction body generalizing st with
  | nil => exact ⟨st, rfl, (List.append_nil _).symm⟩
  | cons row body ih =>
    obtain ⟨st₁, hrow, hrows₁⟩ := parseRow_ok U env (h row (List.mem_cons_self ..)) st
    obtain ⟨st₂, hbody, hrows₂⟩ := ih (fun r hr => h r (List.mem_cons_of_mem _ hr)) st₁
    refine ⟨st₂, ?_, ?_⟩
    · rw [List.foldlM_cons, hrow]
      exact hbody
    · rw [hrows₂, hrows₁, List.append_assoc]
      cases hv : validRow U env names row with
      | none => rw [List.filterMap_cons_none hv, Option.toList_none, List.nil_append]
      | some r => rw [List.filterMap_cons_some hv, Option.toList_some, List.singleton_append]

theorem parse_body_surplus {st st' : Parsed} (h : body.foldlM (parseRow U env names) st = .ok st') :
    ∀ row ∈ body, ¬ BlankWithSurplus names row := by
  induction body generalizing st with
  | nil => simp
  | cons row body ih =>
    rw [List.foldlM_cons, Except.bind_eq_ok] at h
    obtain ⟨st₁, hrow, hbody⟩ := h
    exact List.forall_mem_cons.2 ⟨parseRow_surplus hrow, ih hbody⟩

/-! ## The import -/

/-- The rows of the body that are valid. -/
def validRows (U : Unicode) (env : Env) (names : List String) (body : List (List String)) :
    List BankCsvRow := body.filterMap (validRow U env names)

theorem validRows_validated : ∀ r ∈ validRows U env names body, Validated r := by
  intro r hr
  obtain ⟨row, -, hrow⟩ := List.mem_filterMap.1 hr
  exact validRow_validated hrow

/-- No row is blank with more cells than the header, and every valid row that reaches the
database fits its columns. -/
structure Harmless (U : Unicode) (env : Env) (names : List String) (body : List (List String)) :
    Prop where
  surplus : ∀ row ∈ body, ¬ BlankWithSurplus names row
  storable : ∀ r ∈ reaching (validRows U env names body), Storable r

variable {content : List UInt8} {header : List String}

theorem importCsv_ok (db : Db) (hread : reader (decodeSig content) = (header :: body, none))
    (h : Harmless U env (header.map (normalizeHeader U)) body) : ∃ r,
    importCsv U env db content = .ok (insertAll db
      (newRows env db (validRows U env (header.map (normalizeHeader U)) body)), r) := by
  obtain ⟨st, hbody, hrows⟩ := parse_body U env h.surplus {}
  have hparsed : st.rows = validRows U env (header.map (normalizeHeader U)) body := hrows
  obtain ⟨skipped, hinsert, -⟩ := insertPostgres_ok env db validRows_validated h.storable
  have hparse : parseCsv U env content = .ok (some st) := by
    unfold parseCsv
    rw [hread]
    simp only [hbody]
    rfl
  unfold importCsv
  simp only [hparse]
  change ∃ r, ((insertPostgres env db st.rows).mapError ImportFailure.database >>= _) = _
  rw [hparsed, hinsert]
  exact ⟨_, rfl⟩

theorem importCsv_iff (db : Db) (hread : reader (decodeSig content) = (header :: body, none)) :
    (∃ r, importCsv U env db content = .ok r) ↔
      Harmless U env (header.map (normalizeHeader U)) body := by
  constructor
  · rintro ⟨r, h⟩
    obtain ⟨parsed, hparse, hrest⟩ := Except.bind_eq_ok.1 h
    unfold parseCsv at hparse
    rw [hread] at hparse
    obtain ⟨st, hbody, hst⟩ := Except.bind_eq_ok.1 hparse
    obtain rfl := Except.ok.inj hst
    have hsurplus := parse_body_surplus hbody
    obtain ⟨st', hbody', hrows⟩ := parse_body U env hsurplus {}
    obtain rfl := Except.ok.inj (hbody.symm.trans hbody')
    refine ⟨hsurplus, (insertPostgres_iff env db validRows_validated).1 ?_⟩
    obtain ⟨inserted, hinsert, -⟩ := Except.bind_eq_ok.1 hrest
    have hparsed : st.rows = validRows U env (header.map (normalizeHeader U)) body := hrows
    exact ⟨inserted, hparsed ▸ Except.mapError_eq_ok.1 hinsert⟩
  · intro hharmless
    obtain ⟨r, h⟩ := importCsv_ok db hread hharmless
    exact ⟨_, h⟩

/-! ## One row more -/

variable {pre post : List (List String)} {base ext : List UInt8}

/-- No other row has the external id of `row`. -/
def OwnId (U : Unicode) (env : Env) (names row : List String) (others : List (List String)) : Prop :=
  ∀ r k, validRow U env names row = some r → r.key = some k →
    ∀ r' ∈ validRows U env names others, r'.key ≠ some k

/-- The second import adds the rows the first one adds, and of `row` at most its own. -/
def OthersKept (U : Unicode) (env : Env) (names row : List String) (db db₁ db₂ : Db) : Prop :=
  ∃ own : Option BankValues,
    (∀ v, own = some v → ∃ r, validRow U env names row = some r ∧ bankValues env r = .ok v) ∧
    (added db db₂).Perm (own.toList.map (BankValues.transaction · 0) ++ added db db₁)

theorem Harmless.of_insert (hown : OwnId U env names row (pre ++ post))
    (h : Harmless U env names (pre ++ row :: post)) : Harmless U env names (pre ++ post) := by
  have hmem : ∀ r, r ∈ pre ++ post → r ∈ pre ++ row :: post := by
    intro r hr
    exact (List.perm_middle.mem_iff).2 (List.mem_cons_of_mem _ hr)
  refine ⟨fun r hr => h.surplus r (hmem r hr), fun r hr => h.storable r ?_⟩
  unfold validRows at hr ⊢
  cases hv : validRow U env names row with
  | none => rwa [List.filterMap_append, List.filterMap_cons_none hv, ← List.filterMap_append]
  | some r' =>
    have hothers := hown r'
    unfold validRows at hothers
    rw [List.filterMap_append] at hr hothers
    rw [List.filterMap_append, List.filterMap_cons_some hv]
    exact (reaching_insert fun k hk => hothers k hv hk).mem_iff.2 (List.mem_cons_of_mem _ hr)

theorem newRows_ext (db : Db) (hown : OwnId U env names row (pre ++ post)) :
    ∃ own : Option BankValues,
      (∀ v, own = some v → ∃ r, validRow U env names row = some r ∧ bankValues env r = .ok v) ∧
      (newRows env db (validRows U env names (pre ++ row :: post))).Perm
        (own.toList ++ newRows env db (validRows U env names (pre ++ post))) := by
  cases hv : validRow U env names row with
  | none =>
    refine ⟨none, by simp, ?_⟩
    unfold validRows
    rw [List.filterMap_append, List.filterMap_cons_none hv, ← List.filterMap_append]
    exact .refl _
  | some r =>
    have hothers := hown r
    unfold validRows at hothers ⊢
    rw [List.filterMap_append] at hothers
    refine ⟨ownRow env db r, fun v hown => ⟨r, rfl, ownRow_ok hown⟩, ?_⟩
    · rw [List.filterMap_append, List.filterMap_append, List.filterMap_cons_some hv]
      exact newRows_insert env db (validRow_validated hv) fun k hk => hothers k hv hk

/-- "One bad line in a 900-row file should not void the entire import": the import of a file and
the one with a row put in succeed, and the other rows are imported alike, exactly if no row
is blank with surplus cells or valid without fitting the columns. -/
theorem one_bad_row_iff (db : Db) (hbase : reader (decodeSig base) = (header :: (pre ++ post), none))
    (hext : reader (decodeSig ext) = (header :: (pre ++ row :: post), none))
    (hown : OwnId U env (header.map (normalizeHeader U)) row (pre ++ post)) :
    (∃ db₁ r₁ db₂ r₂, importCsv U env db base = .ok (db₁, r₁) ∧
      importCsv U env db ext = .ok (db₂, r₂) ∧
      OthersKept U env (header.map (normalizeHeader U)) row db db₁ db₂) ↔
    Harmless U env (header.map (normalizeHeader U)) (pre ++ row :: post) := by
  constructor
  · rintro ⟨-, -, db₂, r₂, -, h, -⟩
    exact (importCsv_iff db hext).1 ⟨_, h⟩
  · intro h
    obtain ⟨r₁, h₁⟩ := importCsv_ok db hbase (h.of_insert hown)
    obtain ⟨r₂, h₂⟩ := importCsv_ok db hext h
    obtain ⟨own, hvalues, hperm⟩ := newRows_ext db hown
    refine ⟨_, r₁, _, r₂, h₁, h₂, own, hvalues, ?_⟩
    rw [added_insertAll, added_insertAll, ← List.map_append]
    exact hperm.map _

/-- The tables of an interpreter that knows ASCII only. -/
def demoUnicode : Unicode where
  lower := lowerAscii
  digit := fun c => if c.isDigit then some (c.toNat - 48) else none
  digit_lt := by
    intro c d h
    split_ifs at h with hc
    obtain rfl := Option.some.inj h
    simp only [Char.isDigit, Bool.and_eq_true, decide_eq_true_eq] at hc
    have hle : c.toNat ≤ 57 := UInt32.le_iff_toNat_le.1 hc.2
    omega
  digit_ascii := fun _ _ => rfl

def demoHeader : List String := ["Date", "Amount", "Details"]

/-- A statement of one row, followed by `line`. -/
def demoFile (line : String) : List UInt8 :=
  encodeUtf8 ("Date,Amount,Details\n2026-01-02,5,?\n" ++ line)

theorem one_bad_row_reported : ∃ db₁ r₁ db₂ r₂,
    importCsv demoUnicode demoEnv Db.empty (demoFile "") = .ok (db₁, r₁) ∧
    importCsv demoUnicode demoEnv Db.empty (demoFile "soon\n") = .ok (db₂, r₂) ∧
    OthersKept demoUnicode demoEnv (demoHeader.map (normalizeHeader demoUnicode)) ["soon"]
      Db.empty db₁ db₂ := by
  have hread : reader (decodeSig (demoFile "soon\n")) =
      (demoHeader :: ([["2026-01-02", "5", "?"]] ++ ["soon"] :: []), none) := by decide +kernel
  have hinvalid : (validRow demoUnicode demoEnv (demoHeader.map (normalizeHeader demoUnicode))
      ["soon"]).isNone = true := by decide +kernel
  refine (one_bad_row_iff Db.empty (by decide +kernel) hread fun r k hr => ?_).2
    ((importCsv_iff Db.empty hread).1 ?_)
  · rw [hr] at hinvalid
    cases hinvalid
  · exact Except.isOk_iff.1 (by decide +kernel)

/-- A row of commas, one too many, or an amount the column cannot hold. -/
theorem one_bad_row_voids :
    reader (decodeSig (demoFile ",,,\n")) =
      ([demoHeader, ["2026-01-02", "5", "?"], ["", "", "", ""]], none) ∧
    (¬ ∃ r, importCsv demoUnicode demoEnv Db.empty (demoFile ",,,\n") = .ok r) ∧
    reader (decodeSig (demoFile "2026-01-02,1e12,?\n")) =
      ([demoHeader, ["2026-01-02", "5", "?"], ["2026-01-02", "1e12", "?"]], none) ∧
    ¬ ∃ r, importCsv demoUnicode demoEnv Db.empty (demoFile "2026-01-02,1e12,?\n") = .ok r := by
  simp only [← Except.isOk_iff]
  decide +kernel

end ReckonFlow
