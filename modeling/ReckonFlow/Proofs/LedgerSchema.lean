import ReckonFlow.Lib.RunningTotal
import ReckonFlow.Proofs.Backstop
import ReckonFlow.Spec.LedgerSchema

/-! The accounting rule is written twice, in the schema and in the service, over the same
arithmetic: where the two agree, and where the totals of that arithmetic are the exact ones. -/

namespace ReckonFlow.Schemas

open Decimal

variable {env : Env} {db : Db} {lines : List LedgerLineCreate} {c : String}

/-- The debits of a currency, in the order of the lines. -/
def debitsOf (env : Env) (c : String) (lines : List LedgerLineCreate) : List ℚ :=
  (lines.filter (env.upper ·.currency = c)).map (·.debit.value)

def creditsOf (env : Env) (c : String) (lines : List LedgerLineCreate) : List ℚ :=
  (lines.filter (env.upper ·.currency = c)).map (·.credit.value)

/-- The totals agree in every currency, taken line by line at 28 digits. -/
def RoundedBalance (env : Env) (lines : List LedgerLineCreate) : Prop :=
  ∀ c, runningTotal 28 (debitsOf env c lines) = runningTotal 28 (creditsOf env c lines)

/-- No total exceeds the exponents of the context. -/
def WithinExponents (env : Env) (lines : List LedgerLineCreate) : Prop :=
  ∀ c, ¬ Overflows 28 999999 (debitsOf env c lines) ∧ ¬ Overflows 28 999999 (creditsOf env c lines)

/-! ## The buckets -/

theorem amounts_concat (f : LedgerLineCreate → ℚ) (env : Env) (c : String)
    (lines : List LedgerLineCreate) (line : LedgerLineCreate) :
    ((lines ++ [line]).filter (env.upper ·.currency = c)).map f =
      (lines.filter (env.upper ·.currency = c)).map f ++
        if env.upper line.currency = c then [f line] else [] := by
  rw [List.filter_append, List.map_append]
  by_cases h : env.upper line.currency = c <;> simp [h]

theorem debitsOf_concat (env : Env) (c : String) (lines : List LedgerLineCreate)
    (line : LedgerLineCreate) : debitsOf env c (lines ++ [line]) =
      debitsOf env c lines ++ if env.upper line.currency = c then [line.debit.value] else [] :=
  amounts_concat _ env c lines line

theorem creditsOf_concat (env : Env) (c : String) (lines : List LedgerLineCreate)
    (line : LedgerLineCreate) : creditsOf env c (lines ++ [line]) =
      creditsOf env c lines ++ if env.upper line.currency = c then [line.credit.value] else [] :=
  amounts_concat _ env c lines line

theorem withinExponents_nil : WithinExponents env [] :=
  fun _ => ⟨not_overflows_nil (by norm_num), not_overflows_nil (by norm_num)⟩

/-- One more line: its own two totals must stay within the exponents. -/
theorem withinExponents_concat {line : LedgerLineCreate} (hc : env.upper line.currency = c) :
    WithinExponents env (lines ++ [line]) ↔ WithinExponents env lines ∧
      Int.log 10 |decimalAdd (runningTotal 28 (debitsOf env c lines)) line.debit.value| ≤ 999999 ∧
        Int.log 10 |decimalAdd (runningTotal 28 (creditsOf env c lines)) line.credit.value| ≤ 999999 := by
  unfold WithinExponents
  simp only [debitsOf_concat, creditsOf_concat]
  constructor
  · intro h
    have hline := h c
    simp only [hc, if_true, overflows_concat, not_or, not_lt, runningTotal_concat] at hline
    refine ⟨fun d => ?_, hline.1.2, hline.2.2⟩
    by_cases hd : env.upper line.currency = d
    · have hd' := h d
      simp only [hd, if_true, overflows_concat, not_or] at hd'
      exact ⟨hd'.1.1, hd'.2.1⟩
    · have hd' := h d
      simpa only [hd, if_false, List.append_nil] using hd'
  · rintro ⟨h, hdebit, hcredit⟩ d
    by_cases hd : env.upper line.currency = d
    · obtain rfl : c = d := hc.symm.trans hd
      simp only [hc, if_true, overflows_concat, not_or, not_lt, runningTotal_concat]
      exact ⟨⟨(h c).1, hdebit⟩, (h c).2, hcredit⟩
    · simpa only [hd, if_false, List.append_nil] using h d

/-- What the buckets hold after the loop. -/
structure Totals (env : Env) (lines : List LedgerLineCreate) (buckets : Buckets) : Prop where
  nodup : (Dict.keys buckets).Nodup
  get : ∀ c, (Dict.get buckets c).getD (0, 0) =
    (runningTotal 28 (debitsOf env c lines), runningTotal 28 (creditsOf env c lines))

theorem addToBucket_error {buckets : Buckets} {currency : String} {debit credit : ℚ} {e : Error}
    (h : addToBucket buckets currency debit credit = .error e) : e = .overflow := by
  simp only [addToBucket, decimalSum] at h
  split_ifs at h
  · exact (Except.error.inj h).symm
  · exact (Except.error.inj h).symm
  · exact (Except.error.inj h).symm
  · cases h

theorem Totals.concat {buckets : Buckets} {line : LedgerLineCreate} (h : Totals env lines buckets) :
    Totals env (lines ++ [line]) (Dict.set buckets (env.upper line.currency)
      (decimalAdd ((Dict.get buckets (env.upper line.currency)).getD (0, 0)).1 line.debit.value,
        decimalAdd ((Dict.get buckets (env.upper line.currency)).getD (0, 0)).2 line.credit.value)) where
  nodup := Dict.nodup_keys_set _ _ h.nodup
  get := by
    intro c
    rw [Dict.get_set, h.get, debitsOf_concat, creditsOf_concat]
    by_cases hc : c = env.upper line.currency
    · rw [if_pos hc, Option.getD_some, if_pos hc.symm, if_pos hc.symm, runningTotal_concat,
        runningTotal_concat, ← hc]
      rfl
    · rw [if_neg hc, if_neg (Ne.symm hc), if_neg (Ne.symm hc), List.append_nil, List.append_nil, h.get]

/-- The loop ends with the running totals of every currency, unless one of them overflows. -/
theorem byCurrency_spec (env : Env) (lines : List LedgerLineCreate) :
    (WithinExponents env lines ∧ ∃ buckets, byCurrency env lines = .ok buckets ∧
      Totals env lines buckets) ∨
    ¬ WithinExponents env lines ∧ byCurrency env lines = .error .overflow := by
  induction lines using List.reverseRecOn with
  | nil => exact .inl ⟨withinExponents_nil, [], rfl, List.nodup_nil, fun _ => rfl⟩
  | append_singleton lines line ih =>
    have hloop : byCurrency env (lines ++ [line]) =
        byCurrency env lines >>= fun buckets => addAmounts env buckets line := by
      simp only [byCurrency, List.foldlM_append, List.foldlM_cons, List.foldlM_nil, bind_pure]
    rw [hloop, withinExponents_concat rfl]
    rcases ih with ⟨hwithin, buckets, hrun, htotals⟩ | ⟨hover, hrun⟩
    · have hget := htotals.get (env.upper line.currency)
      rw [hrun]
      by_cases hfits : Int.log 10 |decimalAdd (runningTotal 28
          (debitsOf env (env.upper line.currency) lines)) line.debit.value| ≤ 999999 ∧
        Int.log 10 |decimalAdd (runningTotal 28
          (creditsOf env (env.upper line.currency) lines)) line.credit.value| ≤ 999999
      · refine .inl ⟨⟨hwithin, hfits⟩, _, addToBucket_eq_ok.2 ⟨?_, rfl⟩, htotals.concat⟩
        rw [hget]
        exact hfits
      · refine .inr ⟨fun h => hfits h.2, ?_⟩
        cases hadd : addToBucket buckets (env.upper line.currency) line.debit.value line.credit.value with
        | ok after =>
          have hok := (addToBucket_eq_ok.1 hadd).1
          rw [hget] at hok
          exact absurd hok hfits
        | error e =>
          obtain rfl := addToBucket_error hadd
          exact hadd
    · refine .inr ⟨fun h => hover h.1, ?_⟩
      rw [hrun]
      rfl

/-- The check of the buckets passes iff the totals agree. -/
theorem Totals.find_eq_none {buckets : Buckets} (h : Totals env lines buckets) :
    (buckets.find? fun b => b.2.1 ≠ b.2.2) = none ↔ RoundedBalance env lines := by
  rw [List.find?_eq_none]
  constructor
  · intro hall c
    have hget := h.get c
    cases hc : Dict.get buckets c with
    | none =>
      rw [hc, Option.getD_none] at hget
      rw [← (Prod.mk.inj hget).1, ← (Prod.mk.inj hget).2]
    | some b =>
      rw [hc, Option.getD_some] at hget
      have hb := hall _ (Dict.mem_of_get hc)
      rw [hget] at hb
      simpa using hb
  · rintro hall ⟨c, b⟩ hb
    have hget := h.get c
    rw [Dict.get_of_mem h.nodup hb, Option.getD_some] at hget
    rw [hget]
    simpa using hall c

theorem checkTotals_eq_ok {buckets : Buckets} (h : Totals env lines buckets) :
    checkTotals buckets = .ok () ↔ RoundedBalance env lines := by
  rw [← h.find_eq_none, checkTotals]
  cases hfind : buckets.find? fun b => b.2.1 ≠ b.2.2 with
  | none => exact iff_of_true rfl rfl
  | some b => exact iff_of_false (by rintro ⟨⟩) (by rintro ⟨⟩)

theorem checkBalanced_eq_ok : checkBalanced env lines = .ok () ↔
    WithinExponents env lines ∧ RoundedBalance env lines := by
  unfold checkBalanced
  rcases byCurrency_spec env lines with ⟨hwithin, buckets, hrun, htotals⟩ | ⟨hover, hrun⟩
  · rw [hrun, ← htotals.find_eq_none]
    simp only [hwithin, true_and]
    cases hfind : buckets.find? fun b => b.2.1 ≠ b.2.2 with
    | none => exact iff_of_true rfl rfl
    | some b => exact iff_of_false (by rintro ⟨⟩) (by rintro ⟨⟩)
  · rw [hrun]
    exact iff_of_false (by rintro ⟨⟩) fun h => hover h.1

/-! ## The validators -/

theorem checkSingleSided_eq_ok {line : LedgerLineCreate} : checkSingleSided line = .ok () ↔
    ¬ (line.debit.value < 0 ∨ line.credit.value < 0) ∧
      ¬ (0 < line.debit.value ∧ 0 < line.credit.value) ∧
        ¬ (line.debit.value = 0 ∧ line.credit.value = 0) := by
  simp only [checkSingleSided, Except.bind_eq_ok, ensure_eq_ok, exists_const]

theorem lineErrors_eq_nil : lineErrors lines = [] ↔ ∀ line ∈ lines, checkSingleSided line = .ok () := by
  have hline : ∀ c, lineError c = none ↔ checkSingleSided c.1 = .ok () := by
    intro c
    unfold lineError
    cases checkSingleSided c.1 with
    | ok u => exact iff_of_true rfl rfl
    | error e => exact iff_of_false (by rintro ⟨⟩) (by rintro ⟨⟩)
  have hfrom : ∀ (lines : List LedgerLineCreate) (n : ℕ), (lines.zipIdx n).filterMap lineError = [] ↔
      ∀ line ∈ lines, checkSingleSided line = .ok () := by
    intro lines
    induction lines with
    | nil => simp
    | cons line lines ih =>
      intro n
      rw [List.zipIdx_cons, List.forall_mem_cons, List.filterMap_cons, ← ih (n + 1), ← hline (line, n)]
      cases lineError (line, n) <;> simp
  exact hfrom lines 0

theorem validateLines_eq_ok : validateLines env lines = .ok () ↔
    (∀ line ∈ lines, checkSingleSided line = .ok ()) ∧ 2 ≤ lines.length ∧
      checkBalanced env lines = .ok () := by
  unfold validateLines
  rw [← lineErrors_eq_nil]
  split_ifs with herrors hshort
  · exact iff_of_false (by rintro ⟨⟩) fun h => herrors h.1
  · exact iff_of_false (by rintro ⟨⟩) fun h => absurd h.2.1 (by omega)
  · have hnil := not_not.1 herrors
    exact ⟨fun h => ⟨hnil, by omega, h⟩, fun h => h.2.2⟩

/-! ## The checks of the service -/

/-- Not both sides positive and not both zero, which is all the service asks of a line. -/
def PassesService (line : LedgerLineCreate) : Prop :=
  ¬ ((0 < line.debit.value ∧ 0 < line.credit.value) ∨ (line.debit.value = 0 ∧ line.credit.value = 0))

instance : DecidablePred PassesService := fun _ => inferInstanceAs (Decidable (¬ _))

/-- Every account exists, in the currency of the line. -/
def AccountsMatch (env : Env) (db : Db) (lines : List LedgerLineCreate) : Prop :=
  ∀ line ∈ lines, ∃ a, db.accounts.get line.accountId = some a ∧
    env.upper line.currency = env.upper a.currency

/-- On a line with its account the service does what the schema does once its own test passes. -/
theorem addLine_dump {line : LedgerLineCreate} (acc : List ParsedLine × Buckets)
    (h : ∃ a, db.accounts.get line.accountId = some a ∧ env.upper line.currency = env.upper a.currency) :
    addLine env db acc line.dump = if PassesService line then
      (addAmounts env acc.2 line).map fun buckets => (acc.1 ++ [parsedOf env line.dump], buckets)
    else .error (.unbalancedLedger "Each line must be either a debit or a credit, not both or neither") := by
  obtain ⟨a, ha, hcurrency⟩ := h
  have haccount : getAccount db line.accountId = .ok a := required_eq_ok.2 ha
  unfold addLine LedgerLineCreate.dump
  simp only [parseMoney, haccount, bind, Except.bind]
  by_cases hpass : PassesService line
  · have hside : ensure (¬ ((0 < line.debit.value ∧ 0 < line.credit.value) ∨
        (line.debit.value = 0 ∧ line.credit.value = 0))) (Error.unbalancedLedger
          "Each line must be either a debit or a credit, not both or neither") = .ok () := if_pos hpass
    rw [hside, if_pos hpass, ensure, if_pos hcurrency, addAmounts]
    cases addToBucket acc.2 (env.upper line.currency) line.debit.value line.credit.value <;> rfl
  · have hside : ensure (¬ ((0 < line.debit.value ∧ 0 < line.credit.value) ∨
        (line.debit.value = 0 ∧ line.credit.value = 0))) (Error.unbalancedLedger
          "Each line must be either a debit or a credit, not both or neither") = .error _ := if_neg hpass
    rw [hside, if_neg hpass]

theorem foldlM_addLine_passes (hpass : ∀ line ∈ lines, PassesService line) :
    ∀ acc, AccountsMatch env db lines →
      (lines.map LedgerLineCreate.dump).foldlM (addLine env db) acc =
        (lines.foldlM (addAmounts env) acc.2).map fun buckets =>
          (acc.1 ++ lines.map (parsedOf env ·.dump), buckets) := by
  induction lines with
  | nil =>
    intro acc _
    simp [Except.map, pure, Except.pure]
  | cons line lines ih =>
    intro acc haccounts
    obtain ⟨hline, hlines⟩ := List.forall_mem_cons.1 hpass
    obtain ⟨haccount, hrest⟩ := List.forall_mem_cons.1 haccounts
    rw [List.map_cons, List.foldlM_cons, List.foldlM_cons, addLine_dump acc haccount, if_pos hline]
    cases addAmounts env acc.2 line with
    | error e => rfl
    | ok buckets =>
      have hih := ih hlines (acc.1 ++ [parsedOf env line.dump], buckets) hrest
      simp only [Except.map, bind, Except.bind] at hih ⊢
      rw [hih]
      simp

/-- The first line that fails the test ends the loop, unless a total overflows before. -/
theorem foldlM_addLine_fails (hfail : ∃ line ∈ lines, ¬ PassesService line) :
    ∀ acc buckets, AccountsMatch env db lines → lines.foldlM (addAmounts env) acc.2 = .ok buckets →
      ∃ detail, (lines.map LedgerLineCreate.dump).foldlM (addLine env db) acc =
        .error (.unbalancedLedger detail) := by
  induction lines with
  | nil =>
    obtain ⟨line, hline, -⟩ := hfail
    cases hline
  | cons line lines ih =>
    intro acc buckets haccounts hrun
    obtain ⟨haccount, hrest⟩ := List.forall_mem_cons.1 haccounts
    rw [List.foldlM_cons, Except.bind_eq_ok] at hrun
    obtain ⟨first, hfirst, hrun'⟩ := hrun
    rw [List.map_cons, List.foldlM_cons, addLine_dump acc haccount]
    by_cases hline : PassesService line
    · have hlater : ∃ line ∈ lines, ¬ PassesService line := by
        obtain ⟨bad, hmem, hbad⟩ := hfail
        rcases List.mem_cons.1 hmem with rfl | hmem
        · exact absurd hline hbad
        · exact ⟨bad, hmem, hbad⟩
      obtain ⟨detail, herror⟩ := ih hlater (acc.1 ++ [parsedOf env line.dump], first) buckets hrest hrun'
      refine ⟨detail, ?_⟩
      rw [if_pos hline, hfirst]
      exact herror
    · rw [if_neg hline]
      exact ⟨_, rfl⟩

/-- `UnbalancedLedgerError`. -/
def IsUnbalanced : Error → Prop
  | .unbalancedLedger _ | .unbalancedTotals _ _ _ => True
  | _ => False

/-- The loop of the service on lines that pass its own test. -/
theorem serviceLoop_passes (haccounts : AccountsMatch env db lines)
    (hpass : ∀ line ∈ lines, PassesService line) :
    (WithinExponents env lines ∧ ∃ parsed,
      (lines.map LedgerLineCreate.dump).foldlM (addLine env db) ([], []) = .ok parsed ∧
        Totals env lines parsed.2) ∨
    ¬ WithinExponents env lines ∧
      (lines.map LedgerLineCreate.dump).foldlM (addLine env db) ([], []) = .error .overflow := by
  rw [foldlM_addLine_passes hpass _ haccounts]
  rcases byCurrency_spec env lines with ⟨hwithin, buckets, hrun, htotals⟩ | ⟨hover, hrun⟩
  · refine .inl ⟨hwithin, ([] ++ lines.map (parsedOf env ·.dump), buckets), ?_, htotals⟩
    rw [byCurrency] at hrun
    rw [hrun]
    rfl
  · refine .inr ⟨hover, ?_⟩
    rw [byCurrency] at hrun
    rw [hrun]
    rfl

/-- The checks of the service as a whole, where no total overflows. -/
theorem amountChecks_spec (haccounts : AccountsMatch env db lines) (hwithin : WithinExponents env lines) :
    ((∃ parsed, amountChecks env db (lines.map LedgerLineCreate.dump) = .ok parsed) ↔
      2 ≤ lines.length ∧ (∀ line ∈ lines, PassesService line) ∧ RoundedBalance env lines) ∧
    ∀ e, amountChecks env db (lines.map LedgerLineCreate.dump) = .error e → IsUnbalanced e := by
  unfold amountChecks
  by_cases hcount : 2 ≤ lines.length
  · have hcount' : ensure (2 ≤ (lines.map LedgerLineCreate.dump).length)
        (Error.unbalancedLedger "Need at least two ledger lines") = .ok () :=
      if_pos (by rwa [List.length_map])
    rw [hcount']
    by_cases hpass : ∀ line ∈ lines, PassesService line
    · rcases serviceLoop_passes haccounts hpass with ⟨-, parsed, hrun, htotals⟩ | ⟨hover, -⟩
      · simp only [hrun, bind, Except.bind]
        cases hcheck : checkTotals parsed.2 with
        | ok u =>
          have hbalance := (checkTotals_eq_ok htotals).1 hcheck
          exact ⟨iff_of_true ⟨_, rfl⟩ ⟨hcount, hpass, hbalance⟩, by rintro e ⟨⟩⟩
        | error e =>
          constructor
          · refine iff_of_false (by rintro ⟨_, ⟨⟩⟩) fun h => ?_
            rw [(checkTotals_eq_ok htotals).2 h.2.2] at hcheck
            cases hcheck
          · intro e' he'
            obtain rfl := Except.error.inj he'
            rw [checkTotals] at hcheck
            split at hcheck
            · obtain rfl := Except.error.inj hcheck
              trivial
            · cases hcheck
      · exact absurd hwithin hover
    · have hfail : ∃ line ∈ lines, ¬ PassesService line := by
        simpa only [not_forall, exists_prop] using hpass
      rcases byCurrency_spec env lines with ⟨-, buckets, hrun, -⟩ | ⟨hover, -⟩
      · obtain ⟨detail, herror⟩ := foldlM_addLine_fails hfail ([], []) buckets haccounts hrun
        simp only [herror, bind, Except.bind]
        refine ⟨iff_of_false (by rintro ⟨_, ⟨⟩⟩) fun h => hpass h.2.1, ?_⟩
        intro e he
        obtain rfl := Except.error.inj he
        trivial
      · exact absurd hwithin hover
  · have hcount' : ensure (2 ≤ (lines.map LedgerLineCreate.dump).length)
        (Error.unbalancedLedger "Need at least two ledger lines") = .error _ :=
      if_neg (by rwa [List.length_map])
    rw [hcount']
    refine ⟨iff_of_false (by rintro ⟨_, ⟨⟩⟩) fun h => hcount h.1, ?_⟩
    intro e he
    obtain rfl := Except.error.inj he
    trivial

/-! ## One rule -/

/-- What `NUMERIC(15, 4)` can hold. -/
def InRange (line : LedgerLineCreate) : Prop := |line.debit.value| < 10 ^ 11 ∧ |line.credit.value| < 10 ^ 11

/-- Amounts well below `10 ^ m` never take a total past it. -/
theorem withinExponents_of_lt {m : ℤ} (hm : m ≤ 999999)
    (h : ∀ line ∈ lines, |line.debit.value| < 10 ^ (m - 27) / 2 ∧ |line.credit.value| < 10 ^ (m - 27) / 2) :
    WithinExponents env lines := by
  intro c
  constructor
  · refine not_overflows_of_lt (by norm_num) hm (by norm_num) fun x hx => ?_
    obtain ⟨line, hline, rfl⟩ := List.mem_map.1 hx
    exact (h line (List.mem_filter.1 hline).1).1.trans_eq (by norm_num)
  · refine not_overflows_of_lt (by norm_num) hm (by norm_num) fun x hx => ?_
    obtain ⟨line, hline, rfl⟩ := List.mem_map.1 hx
    exact (h line (List.mem_filter.1 hline).1).2.trans_eq (by norm_num)

theorem withinExponents_of_inRange (h : ∀ line ∈ lines, InRange line) : WithinExponents env lines := by
  apply withinExponents_of_lt (m := 40) (by norm_num)
  intro line hline
  obtain ⟨hdebit, hcredit⟩ := h line hline
  exact ⟨hdebit.trans (by norm_num), hcredit.trans (by norm_num)⟩

/-- The checks of the service pass iff the schema accepts the lines, and what the schema refuses the
service refuses as unbalanced. -/
def SameRule (env : Env) (db : Db) (lines : List LedgerLineCreate) : Prop :=
  ((∃ parsed, amountChecks env db (lines.map LedgerLineCreate.dump) = .ok parsed) ↔
    validateLines env lines = .ok ()) ∧
  ∀ refusal, validateLines env lines = .error refusal → ∀ reference description, ∃ e,
    createBalancedTransaction env db reference description (lines.map LedgerLineCreate.dump) = .error e ∧
      IsUnbalanced e

/-- A negative amount in lines that meet every check of the service. -/
def NegativePasses (env : Env) (lines : List LedgerLineCreate) : Prop :=
  (∃ line ∈ lines, line.debit.value < 0 ∨ line.credit.value < 0) ∧
    2 ≤ lines.length ∧ (∀ line ∈ lines, PassesService line) ∧ RoundedBalance env lines

theorem singleSided_iff : (∀ line ∈ lines, checkSingleSided line = .ok ()) ↔
    (∀ line ∈ lines, PassesService line) ∧
      ¬ ∃ line ∈ lines, line.debit.value < 0 ∨ line.credit.value < 0 := by
  simp only [checkSingleSided_eq_ok, PassesService, not_exists, not_and, not_or]
  constructor
  · intro h
    exact ⟨fun line hline => (h line hline).2, fun line hline => (h line hline).1⟩
  · rintro ⟨hpass, hsign⟩ line hline
    exact ⟨hsign line hline, hpass line hline⟩

/-- In the range of the columns, on accounts that exist, schema and service enforce one rule
unless a negative amount meets every check of the service. -/
theorem same_rule_iff (env : Env) (db : Db) (lines : List LedgerLineCreate)
    (hrange : ∀ line ∈ lines, InRange line) (haccounts : AccountsMatch env db lines) :
    SameRule env db lines ↔ ¬ NegativePasses env lines := by
  have hwithin : WithinExponents env lines := withinExponents_of_inRange hrange
  obtain ⟨hservice, herrors⟩ := amountChecks_spec haccounts hwithin
  have hschema : validateLines env lines = .ok () ↔ ((∀ line ∈ lines, PassesService line) ∧
      ¬ ∃ line ∈ lines, line.debit.value < 0 ∨ line.credit.value < 0) ∧
        2 ≤ lines.length ∧ RoundedBalance env lines := by
    rw [validateLines_eq_ok, singleSided_iff, checkBalanced_eq_ok]
    exact and_congr_right fun _ => and_congr_right fun _ => and_iff_right hwithin
  constructor
  · rintro hsame ⟨hnegative, hcount, hpass, hbalance⟩
    have haccepts := hsame.1.1 (hservice.2 ⟨hcount, hpass, hbalance⟩)
    exact (hschema.1 haccepts).1.2 hnegative
  · intro hnot
    have hiff : (∃ parsed, amountChecks env db (lines.map LedgerLineCreate.dump) = .ok parsed) ↔
        validateLines env lines = .ok () := by
      rw [hservice, hschema]
      constructor
      · rintro ⟨hcount, hpass, hbalance⟩
        exact ⟨⟨hpass, fun hneg => hnot ⟨hneg, hcount, hpass, hbalance⟩⟩, hcount, hbalance⟩
      · rintro ⟨⟨hpass, -⟩, hcount, hbalance⟩
        exact ⟨hcount, hpass, hbalance⟩
    refine ⟨hiff, fun refusal hrefused reference description => ?_⟩
    cases hchecks : amountChecks env db (lines.map LedgerLineCreate.dump) with
    | ok parsed =>
      rw [hiff.1 ⟨parsed, hchecks⟩] at hrefused
      cases hrefused
    | error e =>
      refine ⟨e, ?_, herrors e hchecks⟩
      rw [createBalancedTransaction_eq, hchecks]
      rfl

def wholeAmount (n : ℤ) : MoneyStr := ⟨n, n * 10 ^ 4, by push_cast; rfl⟩

/-- Lines in euros of whole amounts, each a debit and a credit. -/
def demoEuros (amounts : List (ℤ × ℤ)) : List LedgerLineCreate :=
  amounts.map fun a => { accountId := 1, debit := wholeAmount a.1, credit := wholeAmount a.2 }

theorem demoEuros_match (amounts : List (ℤ × ℤ)) : AccountsMatch demoEnv demoOpen (demoEuros amounts) := by
  intro line hline
  obtain ⟨a, -, rfl⟩ := List.mem_map.1 hline
  have haccount : demoOpen.accounts.get 1 = some (demoAccount 1) := by decide +kernel
  exact ⟨demoAccount 1, haccount, rfl⟩

theorem demoEuros_inRange {amounts : List (ℤ × ℤ)}
    (h : ∀ a ∈ amounts, |a.1| < 10 ^ 11 ∧ |a.2| < 10 ^ 11) : ∀ line ∈ demoEuros amounts, InRange line := by
  intro line hline
  obtain ⟨a, ha, rfl⟩ := List.mem_map.1 hline
  obtain ⟨hdebit, hcredit⟩ := h a ha
  have hdebit' : |(a.1 : ℚ)| < 10 ^ 11 := by exact_mod_cast hdebit
  have hcredit' : |(a.2 : ℚ)| < 10 ^ 11 := by exact_mod_cast hcredit
  exact ⟨hdebit', hcredit'⟩

theorem amountsOf_demoEuros (c : String) (amounts : List (ℤ × ℤ)) :
    debitsOf demoEnv c (demoEuros amounts) =
      (if demoEnv.upper "EUR" = c then amounts.map fun a => (a.1 : ℚ) else []) ∧
    creditsOf demoEnv c (demoEuros amounts) =
      if demoEnv.upper "EUR" = c then amounts.map fun a => (a.2 : ℚ) else [] := by
  unfold debitsOf creditsOf demoEuros
  rw [List.filter_map]
  by_cases hc : demoEnv.upper "EUR" = c
  · simp [hc, wholeAmount, Function.comp_def]
  · simp [hc, Function.comp_def]

theorem roundedBalance_demoEuros {amounts : List (ℤ × ℤ)}
    (h : runningTotal 28 (amounts.map fun a => (a.1 : ℚ)) = runningTotal 28 (amounts.map fun a => (a.2 : ℚ))) :
    RoundedBalance demoEnv (demoEuros amounts) := by
  intro c
  rw [(amountsOf_demoEuros c amounts).1, (amountsOf_demoEuros c amounts).2]
  split_ifs
  · exact h
  · rfl

theorem same_rule_balanced : SameRule demoEnv demoOpen (demoEuros [(5, 0), (0, 5)]) := by
  refine (same_rule_iff demoEnv demoOpen _ (demoEuros_inRange (by decide)) (demoEuros_match _)).2 ?_
  rintro ⟨⟨line, hline, hnegative⟩, -⟩
  have hnone : ∀ line ∈ demoEuros [(5, 0), (0, 5)], ¬ (line.debit.value < 0 ∨ line.credit.value < 0) := by
    simp [demoEuros, wholeAmount]
  exact hnone line hline hnegative

/-- Two debits that cancel. -/
theorem same_rule_fails : ¬ ∀ (env : Env) (db : Db) (lines : List LedgerLineCreate),
    (∀ line ∈ lines, InRange line) → AccountsMatch env db lines → SameRule env db lines := by
  intro hall
  have hsame := hall demoEnv demoOpen (demoEuros [(5, 0), (-5, 0)]) (demoEuros_inRange (by decide))
    (demoEuros_match _)
  have hpass : ∀ line ∈ demoEuros [(5, 0), (-5, 0)], PassesService line := by
    simp [demoEuros, wholeAmount, PassesService]
  have hwithin : WithinExponents demoEnv (demoEuros [(5, 0), (-5, 0)]) :=
    withinExponents_of_inRange (demoEuros_inRange (by decide))
  have hservice := (amountChecks_spec (demoEuros_match _) hwithin).1.2
    ⟨by decide, hpass, roundedBalance_demoEuros (by decide +kernel)⟩
  have haccepts := (singleSided_iff.1 (validateLines_eq_ok.1 (hsame.1.1 hservice)).1).2
  refine haccepts ⟨_, List.mem_cons_of_mem _ (List.mem_singleton_self _), .inl ?_⟩
  simp [wholeAmount]

/-! ## Exact totals -/

/-- Debits equal credits in every currency, in exact arithmetic. -/
def Balanced (env : Env) (lines : List LedgerLineCreate) : Prop :=
  ∀ c, (debitsOf env c lines).sum = (creditsOf env c lines).sum

/-- The loop of the service takes the lines, and its check of the totals passes. -/
def ServiceAccepts (env : Env) (db : Db) (lines : List LedgerLineCreate) : Prop :=
  ∃ parsed, (lines.map LedgerLineCreate.dump).foldlM (addLine env db) ([], []) = .ok parsed ∧
    checkTotals parsed.2 = .ok ()

/-- The lines pass exactly when they balance, in the schema and, where they pass its other checks,
in the loop of the service; and in every other order they get the same verdict. -/
structure ExactVerdict (env : Env) (lines : List LedgerLineCreate) : Prop where
  schema : checkBalanced env lines = .ok () ↔ Balanced env lines
  service : ∀ db, AccountsMatch env db lines → (∀ line ∈ lines, PassesService line) →
    (ServiceAccepts env db lines ↔ Balanced env lines)
  schemaOrder : ∀ lines', lines'.Perm lines →
    (checkBalanced env lines' = .ok () ↔ checkBalanced env lines = .ok ())
  serviceOrder : ∀ db lines', lines'.Perm lines → AccountsMatch env db lines →
    (∀ line ∈ lines, PassesService line) → (ServiceAccepts env db lines' ↔ ServiceAccepts env db lines)

/-- In every currency any of the debits, and any of the credits, have a sum of at most 28 significant
digits that does not exceed the exponents. -/
def FewDigits (env : Env) (lines : List LedgerLineCreate) : Prop :=
  ∀ c, (∀ part, List.Sublist part (debitsOf env c lines) → Representable 28 999999 part.sum) ∧
    ∀ part, List.Sublist part (creditsOf env c lines) → Representable 28 999999 part.sum

/-- Adding up the lines, one after the other, rounds nothing and overflows nowhere. -/
def Unrounded (env : Env) (lines : List LedgerLineCreate) : Prop :=
  ∀ c, Exact 28 999999 (debitsOf env c lines) ∧ Exact 28 999999 (creditsOf env c lines)

/-- The absolute values of each side come to less than `10 ^ 24` in every currency. -/
def SmallTotals (env : Env) (lines : List LedgerLineCreate) : Prop :=
  ∀ c, ((debitsOf env c lines).map abs).sum < 10 ^ 24 ∧ ((creditsOf env c lines).map abs).sum < 10 ^ 24

theorem amounts_hasScale (env : Env) (c : String) (lines : List LedgerLineCreate) :
    (∀ x ∈ debitsOf env c lines, HasScale 4 x) ∧ ∀ x ∈ creditsOf env c lines, HasScale 4 x := by
  constructor
  · exact List.forall_mem_map.2 fun line _ => line.debit.scale
  · exact List.forall_mem_map.2 fun line _ => line.credit.scale

/-- Less than 28 digits in all are few enough. -/
theorem SmallTotals.fewDigits (h : SmallTotals env lines) : FewDigits env lines := by
  intro c
  obtain ⟨hdebits, hcredits⟩ := amounts_hasScale env c lines
  refine ⟨?_, ?_⟩
  · exact representable_of_sum_abs hdebits (by linarith [(h c).1]) (by norm_num) (by norm_num)
  · exact representable_of_sum_abs hcredits (by linarith [(h c).2]) (by norm_num) (by norm_num)

theorem amountsOf_perm {lines' : List LedgerLineCreate} (h : lines'.Perm lines) (env : Env) (c : String) :
    (debitsOf env c lines').Perm (debitsOf env c lines) ∧
      (creditsOf env c lines').Perm (creditsOf env c lines) :=
  ⟨(h.filter _).map _, (h.filter _).map _⟩

theorem balanced_perm {lines' : List LedgerLineCreate} (h : lines'.Perm lines) :
    Balanced env lines' ↔ Balanced env lines := by
  refine forall_congr' fun c => ?_
  obtain ⟨hdebits, hcredits⟩ := amountsOf_perm h env c
  rw [hdebits.sum_eq, hcredits.sum_eq]

/-- Any of the amounts come first in some order of the lines. -/
theorem representable_of_exact (f : LedgerLineCreate → ℚ) (h : ∀ lines', List.Perm lines' lines →
      Exact 28 999999 ((lines'.filter (env.upper ·.currency = c)).map f)) :
    ∀ part, List.Sublist part ((lines.filter (env.upper ·.currency = c)).map f) →
      Representable 28 999999 part.sum := by
  intro part hpart
  obtain ⟨first, hfirst, rfl⟩ := List.sublist_map_iff.1 hpart
  obtain ⟨rest, hperm⟩ := (hfirst.trans List.filter_sublist).exists_perm_append
  have hkept : first.filter (env.upper ·.currency = c) = first :=
    List.filter_eq_self.2 fun line hline => (List.mem_filter.1 (hfirst.subset hline)).2
  have hexact := h _ hperm.symm
  rw [List.filter_append, hkept, List.map_append] at hexact
  exact exact_iff.1 hexact _ (List.prefix_append _ _)

/-- With more digits than that, some order of the lines has a total that is rounded or overflows. -/
theorem fewDigits_iff : FewDigits env lines ↔ ∀ lines', lines'.Perm lines → Unrounded env lines' := by
  refine ⟨fun h lines' hperm c => ?_, fun h c => ⟨?_, ?_⟩⟩
  · obtain ⟨hdebits, hcredits⟩ := amountsOf_perm hperm env c
    exact ⟨exact_perm_iff.2 (h c).1 _ hdebits, exact_perm_iff.2 (h c).2 _ hcredits⟩
  · exact representable_of_exact _ fun lines' hperm => (h lines' hperm c).1
  · exact representable_of_exact _ fun lines' hperm => (h lines' hperm c).2

/-- Where nothing is rounded the arithmetic of the loop decides exactly. -/
theorem Unrounded.accepts_iff (h : Unrounded env lines) :
    WithinExponents env lines ∧ RoundedBalance env lines ↔ Balanced env lines := by
  have hwithin : WithinExponents env lines := fun c => ⟨(h c).1.2, (h c).2.2⟩
  rw [and_iff_right hwithin]
  refine forall_congr' fun c => ?_
  rw [(h c).1.1 _ (List.prefix_refl _), (h c).2.1 _ (List.prefix_refl _)]

theorem serviceAccepts_iff (haccounts : AccountsMatch env db lines)
    (hpass : ∀ line ∈ lines, PassesService line) :
    ServiceAccepts env db lines ↔ WithinExponents env lines ∧ RoundedBalance env lines := by
  unfold ServiceAccepts
  rcases serviceLoop_passes haccounts hpass with ⟨hwithin, parsed, hrun, htotals⟩ | ⟨hover, hrun⟩
  · rw [and_iff_right hwithin, ← checkTotals_eq_ok htotals, hrun]
    constructor
    · rintro ⟨_, heq, hcheck⟩
      exact Except.ok.inj heq ▸ hcheck
    · exact fun hcheck => ⟨parsed, rfl, hcheck⟩
  · rw [hrun]
    exact iff_of_false (by rintro ⟨_, ⟨⟩, -⟩) fun h => hover h.1

/-- The verdict is exact, in every order of the lines, where any debits and any credits of a currency
come to at most 28 digits, as they do below `10 ^ 24`; otherwise some order of the lines has a total
that is rounded or overflows. -/
theorem exact_verdict_few_digits (env : Env) (lines : List LedgerLineCreate) :
    (FewDigits env lines → ExactVerdict env lines) ∧
      (SmallTotals env lines → FewDigits env lines) ∧
      (FewDigits env lines ↔ ∀ lines', lines'.Perm lines → Unrounded env lines') := by
  refine ⟨fun hfew => ?_, SmallTotals.fewDigits, fewDigits_iff⟩
  have hexact := fewDigits_iff.1 hfew
  have hlines := (hexact lines (List.Perm.refl _)).accepts_iff
  refine ⟨?_, fun db haccounts hpass => ?_, fun lines' hperm => ?_, fun db lines' hperm haccounts hpass => ?_⟩
  · rw [checkBalanced_eq_ok, hlines]
  · rw [serviceAccepts_iff haccounts hpass, hlines]
  · rw [checkBalanced_eq_ok, checkBalanced_eq_ok, hlines, (hexact lines' hperm).accepts_iff]
    exact balanced_perm hperm
  · have haccounts' : AccountsMatch env db lines' := fun line hline => haccounts line (hperm.subset hline)
    have hpass' : ∀ line ∈ lines', PassesService line := fun line hline => hpass line (hperm.subset hline)
    rw [serviceAccepts_iff haccounts hpass, serviceAccepts_iff haccounts' hpass', hlines,
      (hexact lines' hperm).accepts_iff]
    exact balanced_perm hperm

/-- Five euros on either side are few enough. -/
theorem exact_verdict_five : ExactVerdict demoEnv (demoEuros [(5, 0), (0, 5)]) := by
  have hsmall : SmallTotals demoEnv (demoEuros [(5, 0), (0, 5)]) := by
    intro c
    rw [(amountsOf_demoEuros c _).1, (amountsOf_demoEuros c _).2]
    split_ifs <;> norm_num
  obtain ⟨hexact, hfew, -⟩ := exact_verdict_few_digits demoEnv (demoEuros [(5, 0), (0, 5)])
  exact hexact (hfew hsmall)

/-- A one lost beside `10 ^ 28`. -/
theorem exact_verdict_fails : ¬ ∀ (env : Env) (lines : List LedgerLineCreate), ExactVerdict env lines := by
  intro hall
  have hbalance : RoundedBalance demoEnv (demoEuros [(10 ^ 28, 0), (1, 0), (0, 10 ^ 28)]) :=
    roundedBalance_demoEuros (by decide +kernel)
  have hwithin : WithinExponents demoEnv (demoEuros [(10 ^ 28, 0), (1, 0), (0, 10 ^ 28)]) := by
    apply withinExponents_of_lt (m := 60) (by norm_num)
    simp [demoEuros, wholeAmount]
    norm_num
  have hexact := (hall demoEnv _).schema.1 (checkBalanced_eq_ok.2 ⟨hwithin, hbalance⟩) "EUR"
  have heuros : demoEnv.upper "EUR" = "EUR" := by decide +kernel
  rw [(amountsOf_demoEuros _ _).1, (amountsOf_demoEuros _ _).2, if_pos heuros, if_pos heuros] at hexact
  norm_num at hexact

end ReckonFlow.Schemas
