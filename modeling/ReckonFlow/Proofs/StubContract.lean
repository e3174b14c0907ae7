import ReckonFlow.Proofs.StoredExtractions
import ReckonFlow.Proofs.StubAmounts
import ReckonFlow.Proofs.StubDecimals

/-! Which texts the stub extractor answers with an extraction or an `ExtractionError`: all that it
takes from a receipt is accepted, save for amounts with more than four decimals. -/

namespace ReckonFlow.StubExtractor

open Text Regex Regex.Pattern ReceiptSchema

variable {T : Tables} {t : List Char}

/-! ## The amount on a line -/

theorem isOk_moneyStr {s : String} : (moneyStr (.str s : Input T.toUnicode)).isOk = true ↔
    ∃ d, MoneyText.decimal T.toUnicode s = some (.finite d) ∧ -4 ≤ d.exponent := by
  rw [Except.isOk_iff]
  constructor
  · rintro ⟨m, hm⟩
    rw [moneyStr_eq_ok] at hm
    obtain ⟨d, hd, hexponent, -⟩ := mustBeDecimal_eq_ok.1 (moneyStr_str.1 hm)
    exact ⟨d, hd, hexponent⟩
  · rintro ⟨d, hd, hexponent⟩
    have h : MoneyText.moneyStr T.toUnicode (.str s) = .ok d.plain :=
      moneyStr_str.2 (mustBeDecimal_eq_ok.2 ⟨d, hd, hexponent, rfl⟩)
    exact ⟨⟨d.plain, _, h⟩, moneyStr_eq_ok.2 h⟩

/-- `Decimal` reads the normalised token. -/
def Readable (T : Tables) (token : List Char) : Prop :=
  (MoneyText.decimal T.toUnicode (normalizeAmount (String.ofList token))).isSome = true

theorem Token.isOk_iff (ht : Token T t) (hread : Readable T t) :
    (moneyStr (.str (StubExtractor.normalizeAmount (String.ofList t)) : Input T.toUnicode)).isOk = true ↔
      ¬ Overlong t := by
  rw [isOk_moneyStr]
  rcases ht.normal with ⟨hnone, -⟩ | ⟨d, hd, hiff⟩
  · unfold Readable at hread
    rw [hnone] at hread
    cases hread
  · rw [← hiff]
    constructor
    · rintro ⟨d', hd', hexponent⟩
      obtain rfl := Number.finite.inj (Option.some.inj (hd.symm.trans hd'))
      exact hexponent
    · exact fun hexponent => ⟨d, hd, hexponent⟩

theorem mem_separate {c : Char} {l : List Char} (hc : T.isDecimal c = true) (hmem : c ∈ l) :
    c ∈ separate l := by
  have hkeep : ∀ sep, IsSep sep → c ∈ l.filter (· ≠ sep) := by
    intro sep hsep
    refine List.mem_filter.2 ⟨hmem, decide_eq_true ?_⟩
    rintro rfl
    rw [hsep.not_isDecimal] at hc
    cases hc
  have hpoint : toPoint c = c := if_neg (ne_of_isDecimal hc (by decide))
  unfold separate
  split_ifs
  · exact List.mem_map.2 ⟨c, hkeep '.' (.inl rfl), hpoint⟩
  · exact hkeep ',' (.inr rfl)
  · exact List.mem_map.2 ⟨c, hmem, hpoint⟩
  · exact hkeep ',' (.inr rfl)
  · exact hmem

/-- A token has a digit once it is normalised. -/
theorem Token.any_isdigit (ht : Token T t) :
    (StubExtractor.normalizeAmount (String.ofList t)).toList.any T.isdigit = true := by
  obtain ⟨sign, d, cs, heq, -, hd⟩ := ht.starts
  have hbare : d ∈ bare t := mem_bare.2 ⟨by simp [heq], ne_blank (T.digit_not_space d hd)⟩
  rw [ht.normalizeAmount, String.toList_ofList]
  exact List.any_eq_true.2 ⟨d, mem_separate hd hbare, T.digit_isdigit d hd⟩

/-- The last element for which there is a result. -/
theorem findSome?_reverse {α β : Type*} {f : α → Option β} {l : List α} {b : β} :
    l.reverse.findSome? f = some b ↔
      ∃ before a after, l = before ++ a :: after ∧ f a = some b ∧ ∀ x ∈ after, f x = none := by
  rw [List.findSome?_eq_some_iff]
  constructor
  · rintro ⟨after, a, before, heq, ha, hnone⟩
    refine ⟨before.reverse, a, after.reverse, ?_, ha, fun x hx => hnone x (List.mem_reverse.1 hx)⟩
    rw [← List.reverse_reverse l, heq]
    simp
  · rintro ⟨before, a, after, rfl, ha, hnone⟩
    exact ⟨after.reverse, a, before.reverse, by simp, ha, fun x hx => hnone x (List.mem_reverse.1 hx)⟩

/-- The last token of a line that reads as a number. -/
def LastReadable (T : Tables) (line : String) (token : List Char) : Prop :=
  ∃ before after, findall (amountRe T) line.toList = before ++ token :: after ∧ Readable T token ∧
    ∀ u ∈ after, ¬ Readable T u

variable {line : String} {a : String}

theorem LastReadable.token {token : List Char} (h : LastReadable T line token) : Token T token := by
  obtain ⟨before, after, hfind, -⟩ := h
  exact token_of_matches (matches_of_findall (by rw [hfind]; simp))

theorem Token.readToken (ht : Token T t) :
    readToken T t = some a ↔ Readable T t ∧ StubExtractor.normalizeAmount (String.ofList t) = a := by
  unfold StubExtractor.readToken Readable
  dsimp only
  cases MoneyText.decimal T.toUnicode (StubExtractor.normalizeAmount (String.ofList t)) with
  | none => simp
  | some n => simp [ht.any_isdigit]

theorem Token.readToken_eq_none (ht : Token T t) : StubExtractor.readToken T t = none ↔ ¬ Readable T t := by
  rw [Option.eq_none_iff_forall_ne_some]
  constructor
  · exact fun h hread => h _ (ht.readToken.2 ⟨hread, rfl⟩)
  · exact fun h a ha => h (ht.readToken.1 ha).1

theorem amountOnLine_eq_some : amountOnLine T line = some a ↔
    ∃ token, LastReadable T line token ∧ normalizeAmount (String.ofList token) = a := by
  have htoken : ∀ {token}, token ∈ findall (amountRe T) line.toList → Token T token := fun h =>
    token_of_matches (matches_of_findall h)
  unfold amountOnLine LastReadable
  rw [findSome?_reverse]
  constructor
  · rintro ⟨before, token, after, hfind, hread, hnone⟩
    obtain ⟨hreadable, ha⟩ := (htoken (by rw [hfind]; simp)).readToken.1 hread
    refine ⟨token, ⟨before, after, hfind, hreadable, fun u hu => ?_⟩, ha⟩
    exact (htoken (by rw [hfind]; simp [hu])).readToken_eq_none.1 (hnone u hu)
  · rintro ⟨token, ⟨before, after, hfind, hreadable, hnone⟩, ha⟩
    refine ⟨before, token, after, hfind, ?_, fun u hu => ?_⟩
    · exact (htoken (by rw [hfind]; simp)).readToken.2 ⟨hreadable, ha⟩
    · exact (htoken (by rw [hfind]; simp [hu])).readToken_eq_none.2 (hnone u hu)

/-- The amount of a line has at most four decimals. -/
def Fits (T : Tables) (line : String) : Prop := ∀ token, LastReadable T line token → ¬ Overlong token

theorem isOk_amount (h : amountOnLine T line = some a) :
    (moneyStr (.str a : Input T.toUnicode)).isOk = true ↔ Fits T line := by
  obtain ⟨token, hlast, rfl⟩ := amountOnLine_eq_some.1 h
  have hreadable : ∀ {token}, LastReadable T line token → Readable T token := fun h => by
    obtain ⟨_, _, _, hreadable, _⟩ := h
    exact hreadable
  constructor
  · intro hok token' hlast'
    have hsame := h.symm.trans (amountOnLine_eq_some.2 ⟨token', hlast', rfl⟩)
    rw [Option.some.inj hsame] at hok
    exact (hlast'.token.isOk_iff (hreadable hlast')).1 hok
  · exact fun hfits => (hlast.token.isOk_iff (hreadable hlast)).2 (hfits token hlast)

/-! ## Labelled amounts -/

def Labelled (T : Tables) (words exclude : List String) (line : String) : Prop :=
  (∀ word ∈ exclude, contains (T.lower line) word = false) ∧
    ∃ word ∈ words, contains (T.lower line) word = true

/-- The line a labelled amount is taken from: the last that has a label and an amount. -/
def TakenFrom (T : Tables) (lines words exclude : List String) (line : String) : Prop :=
  ∃ before after, lines = before ++ line :: after ∧ Labelled T words exclude line ∧
    (∃ token, LastReadable T line token) ∧
    ∀ l ∈ after, Labelled T words exclude l → ∀ token, ¬ LastReadable T l token

theorem amountOnLine_eq_none : amountOnLine T line = none ↔ ∀ token, ¬ LastReadable T line token := by
  rw [Option.eq_none_iff_forall_ne_some]
  constructor
  · exact fun h token hlast => h _ (amountOnLine_eq_some.2 ⟨token, hlast, rfl⟩)
  · intro h a ha
    obtain ⟨token, hlast, -⟩ := amountOnLine_eq_some.1 ha
    exact h token hlast

variable {lines words exclude : List String}

theorem labelled_iff : Labelled T words exclude line ↔
    exclude.any (contains (T.lower line)) = false ∧ words.any (contains (T.lower line)) = true := by
  unfold Labelled
  rw [List.any_eq_false, List.any_eq_true]
  simp only [Bool.not_eq_true]

/-- The body of the loop in `_find_labelled`. -/
theorem labelled_amount : (if exclude.any (contains (T.lower line)) then none
      else if words.any (contains (T.lower line)) then amountOnLine T line else none) = some a ↔
    Labelled T words exclude line ∧ amountOnLine T line = some a := by
  rw [labelled_iff]
  split_ifs with hexclude hwords
  · simp [hexclude]
  · simp [hexclude, hwords]
  · simp [hwords]

theorem findLabelled_eq_some : findLabelled T lines words exclude = some a ↔
    ∃ line, TakenFrom T lines words exclude line ∧ amountOnLine T line = some a := by
  unfold findLabelled TakenFrom
  rw [findSome?_reverse]
  simp only [Option.eq_none_iff_forall_ne_some, ne_eq, labelled_amount, not_and]
  constructor
  · rintro ⟨before, line, after, heq, ⟨hlabel, ha⟩, hnone⟩
    obtain ⟨token, hlast, -⟩ := amountOnLine_eq_some.1 ha
    refine ⟨line, ⟨before, after, heq, hlabel, ⟨token, hlast⟩, fun l hl hl' => ?_⟩, ha⟩
    exact amountOnLine_eq_none.1 (Option.eq_none_iff_forall_ne_some.2 fun b => hnone l hl b hl')
  · rintro ⟨line, ⟨before, after, heq, hlabel, -, hnone⟩, ha⟩
    refine ⟨before, line, after, heq, ⟨hlabel, ha⟩, fun l hl b hl' hb => ?_⟩
    rw [amountOnLine_eq_none.2 (hnone l hl hl')] at hb
    cases hb

theorem findLabelled_eq_none : findLabelled T lines words exclude = none ↔
    ∀ line ∈ lines, Labelled T words exclude line → ∀ token, ¬ LastReadable T line token := by
  unfold findLabelled
  rw [List.findSome?_eq_none_iff]
  simp only [List.mem_reverse, Option.eq_none_iff_forall_ne_some, ne_eq, labelled_amount, not_and]
  refine forall₂_congr fun line _ => ?_
  rw [forall_comm]
  refine forall_congr' fun _ => ?_
  rw [← amountOnLine_eq_none, Option.eq_none_iff_forall_ne_some]

theorem isOk_orNone {s : String} : (orNone moneyStr (.str s : Input T.toUnicode)).isOk =
    (moneyStr (.str s : Input T.toUnicode)).isOk := by
  unfold orNone
  dsimp only
  rw [Except.isOk_map]

theorem isOk_labelled : (orNone moneyStr (givenText T (findLabelled T lines words exclude))).isOk = true ↔
    ∀ line, TakenFrom T lines words exclude line → Fits T line := by
  have hamount : ∀ {line a}, amountOnLine T line = some a →
      ((orNone moneyStr (givenText T (some a))).isOk = true ↔ Fits T line) := by
    intro line a ha
    rw [← isOk_amount ha, ← isOk_orNone]
    rfl
  cases hfind : findLabelled T lines words exclude with
  | none =>
    refine iff_of_true rfl fun line hline => ?_
    obtain ⟨before, after, heq, hlabel, ⟨token, hlast⟩, -⟩ := hline
    exact absurd hlast (findLabelled_eq_none.1 hfind line (by simp [heq]) hlabel token)
  | some a =>
    obtain ⟨line, hline, ha⟩ := findLabelled_eq_some.1 hfind
    rw [hamount ha]
    constructor
    · intro hfits line' hline'
      obtain ⟨before, after, heq, hlabel, ⟨token, hlast⟩, hnone⟩ := id hline'
      have hread : amountOnLine T line' = some (normalizeAmount (String.ofList token)) :=
        amountOnLine_eq_some.2 ⟨token, hlast, rfl⟩
      have hsame := hfind.symm.trans (findLabelled_eq_some.2 ⟨line', hline', hread⟩)
      rw [← Option.some.inj hsame] at hread
      exact (hamount hread).1 ((hamount ha).2 hfits)
    · exact fun h => h line hline

/-- One or two digits and at most one decimal are always accepted. -/
theorem isOk_rate (h : Matches (seq (between 1 2 (decimalDigit T))
      (opt (seq (oneOf ['.', ',']) (decimalDigit T)))) t) :
    (moneyStr (.str (normalizeAmount (String.ofList t)) : Input T.toUnicode)).isOk = true := by
  obtain ⟨digits, rest, rfl, hdigits, hrest⟩ := h
  obtain ⟨hpos, -, hall⟩ := matches_between (by norm_num) hdigits
  have hsplit : Tail T rest ∧ ' ' ∉ rest ∧ ∀ sep, IsSep sep → rest.count sep ≤ 1 := by
    rcases hrest with ⟨u, v, rfl, ⟨c, rfl, hc⟩, d, rfl, hd⟩ | rfl
    · have hc' : c = '.' ∨ c = ',' := by simpa using of_decide_eq_true hc
      have hcount : ∀ sep, IsSep sep → [c, d].count sep ≤ 1 := by
        intro sep hsep
        have hne : d ≠ sep := by
          rintro rfl
          rw [hsep.not_isDecimal] at hd
          cases hd
        rw [List.count_cons, List.count_cons_of_ne hne, List.count_nil]
        split_ifs <;> omega
      refine ⟨.fraction hc' (by simp) (by simp) (by simpa using hd), ?_, hcount⟩
      have hblank := (ne_of_isDecimal (d := ' ') hd (by decide)).symm
      rcases hc' with rfl | rfl
      · simpa using hblank
      · simpa using hblank
    · exact ⟨.done, by simp, by simp⟩
  obtain ⟨htail, hblank, hcount⟩ := hsplit
  have htoken : Token T (digits ++ rest) := .intro (.inl rfl) (List.ne_nil_of_length_pos hpos) hall htail
  rw [isOk_moneyStr]
  rcases htoken.normal with ⟨-, before, sep, after, heq, hsep, hmem⟩ | ⟨d, hd, hiff⟩
  · have hnone : digits.count sep = 0 := List.count_eq_zero.2 (not_mem_digits hall hsep.not_isDecimal)
    have htwice := congrArg (List.count sep) heq
    rw [List.count_append, List.count_append, List.count_cons_self, hnone] at htwice
    have hfirst := List.count_pos_iff.2 hmem
    have hone := hcount sep hsep
    omega
  · refine ⟨d, hd, hiff.2 ?_⟩
    rintro ⟨before, sep, after, heq, -, -, hmem⟩
    have hmem' : ' ' ∈ digits ++ rest := by
      rw [heq]
      simp [hmem]
    rcases List.mem_append.1 hmem' with h | h
    · exact not_mem_digits hall (StubExtractor.not_isDecimal (by decide)) h
    · exact hblank h

theorem isOk_vatRate : (orNone moneyStr (givenText T (findVatRate T lines))).isOk = true := by
  cases hfind : findVatRate T lines with
  | none => rfl
  | some a =>
    obtain ⟨line, -, hline⟩ := List.exists_of_findSome?_eq_some hfind
    split_ifs at hline
    obtain ⟨group, hgroup, rfl⟩ := Option.map_eq_some_iff.1 hline
    show (orNone moneyStr (.str (normalizeAmount (String.ofList group)) : Input T.toUnicode)).isOk = true
    rw [isOk_orNone]
    exact isOk_rate (matches_of_search hgroup)

/-! ## Line items -/

/-- A token starts at every digit, so none is left over. -/
theorem not_isDecimal_of_strike {c : Char} {l : List Char} (h : c ∈ strike (amountRe T) l) :
    T.isDecimal c = false := by
  obtain ⟨b, cs, hfails⟩ := fails_of_strike h
  by_contra hc
  rw [Bool.not_eq_false] at hc
  have hdigit : ⟨c :: b, cs⟩ ∈ run (between 1 3 (decimalDigit T)) ⟨b, c :: cs⟩ :=
    mem_run_seq (mem_run_seq (mem_run_one hc b cs) (List.mem_singleton_self _)) (mem_run_upTo 2 _)
  have hrest : ⟨c :: b, cs⟩ ∈ run (seq (thousands T) (decimals T)) ⟨c :: b, cs⟩ :=
    mem_run_seq (mem_run_star _) (mem_run_opt _)
  have hmem : ⟨c :: b, cs⟩ ∈ run (amountRe T) ⟨b, c :: cs⟩ :=
    List.mem_append_left _ (mem_run_seq (mem_run_opt _) (mem_run_seq hdigit hrest))
  exact not_fails_of_mem hmem hfails

theorem mem_stripOf {c : Char} {chars s : String} (h : c ∈ (stripOf chars s).toList) : c ∈ s.toList := by
  unfold stripOf at h
  simp only [String.toList_ofList, List.mem_reverse] at h
  exact (List.dropWhile_sublist _).mem (List.mem_reverse.1 ((List.dropWhile_sublist _).mem h))

theorem not_isDecimal_of_description {c : Char} (h : c ∈ (description T line).toList) :
    T.isDecimal c = false := by
  have hmem := mem_stripOf h
  rw [String.toList_ofList] at hmem
  exact not_isDecimal_of_strike hmem

/-- The quantity in front of a description is never found: its digits are gone. -/
theorem quantityMatch_description (line : String) : quantityMatch T (description T line) = none := by
  have hfails : Fails (between 1 3 (decimalDigit T)) [] (description T line).toList :=
    (Fails.one fun c hc => not_isDecimal_of_description (List.mem_of_mem_head? hc)).seq_left.seq_left
  unfold Fails at hfails
  unfold quantityMatch
  dsimp only
  rw [hfails]
  rfl

theorem isOk_field {α : Type} {members : List (String × Input T.toUnicode)} {name : String}
    {value : Input T.toUnicode} {check : Input T.toUnicode → Check α} {default : Option α}
    (hget : Dict.get members name = some value) :
    (field members name check default).isOk = (check value).isOk := by
  unfold field
  rw [hget]
  exact Except.isOk_mapError

theorem isOk_shortText {n : ℕ} {s : String} (h : s.length ≤ n) :
    (shortText n (.str s : Input T.toUnicode)).isOk = true := by
  unfold shortText
  dsimp only
  rw [dif_pos h]
  rfl

theorem length_slice (n : ℕ) (s : String) : (slice n s).length ≤ n := by
  unfold slice
  rw [String.length_ofList, List.length_take]
  exact Nat.min_le_left _ _

theorem isOk_lineItem (text : String) {quantity total : String} :
    (lineItem (.dict [("description", .str (slice 300 text)), ("quantity", .str quantity),
      ("total", .str total)] : Input T.toUnicode)).isOk =
        ((moneyStr (.str quantity : Input T.toUnicode)).isOk &&
          (moneyStr (.str total : Input T.toUnicode)).isOk) := by
  unfold lineItem
  dsimp only
  generalize hmembers : ([("description", .str (slice 300 text)), ("quantity", .str quantity),
    ("total", .str total)] : List (String × Input T.toUnicode)) = members
  have hprice : (field members "unit_price" (orNone moneyStr) (some none)).isOk = true := by
    rw [← hmembers]
    rfl
  have hextras : (noExtras ["description", "quantity", "unit_price", "total"] members).isOk = true := by
    rw [← hmembers]
    rfl
  simp only [Except.isOk_map, Except.isOk_both]
  rw [hprice, hextras, isOk_field (by rw [← hmembers]; rfl), isOk_shortText (length_slice 300 text),
    isOk_field (by rw [← hmembers]; rfl), isOk_field (by rw [← hmembers]; rfl)]
  simp

theorem isOk_one : (moneyStr (.str "1" : Input T.toUnicode)).isOk = true :=
  Except.isOk_iff.2 ⟨one, moneyStr_text one⟩

theorem isOk_lineItemOn : (lineItemOn T line).isOk = true ↔
    (looksLikeLineItem T line = true → description T line ≠ "" → Fits T line) := by
  unfold lineItemOn
  split_ifs with hlooks
  · cases hamount : amountOnLine T line with
    | none =>
      exact iff_of_true rfl fun _ _ token hlast => absurd hlast (amountOnLine_eq_none.1 hamount token)
    | some a =>
      dsimp only
      split_ifs with hdescription
      · exact iff_of_true rfl fun _ hne => absurd hdescription hne
      · rw [quantityMatch_description]
        dsimp only
        rw [Except.isOk_map, isOk_lineItem, isOk_one, Bool.true_and, isOk_amount hamount]
        exact ⟨fun h _ _ => h, fun h => h hlooks hdescription⟩
  · exact iff_of_true rfl fun h => absurd h hlooks

/-- A line below the first that looks like an item and has a description. -/
def ItemLine (T : Tables) (lines : List String) (line : String) : Prop :=
  line ∈ lines.drop 1 ∧ looksLikeLineItem T line = true ∧ description T line ≠ ""

theorem isOk_findLineItems : (findLineItems T lines).isOk = true ↔
    ∀ line, ItemLine T lines line → Fits T line := by
  unfold findLineItems ItemLine
  rw [Except.isOk_map, Except.isOk_mapM]
  simp only [isOk_lineItemOn, and_imp]

/-! ## The contract -/

variable {env : Env} {L : Library T.toUnicode env}

theorem length_findVendor (lines : List String) : (findVendor T lines).length ≤ 160 := by
  unfold findVendor
  split
  · exact length_slice ..
  · split
    · exact length_slice ..
    · exact length_slice ..

theorem length_findCurrency (text : String) : (findCurrency T env text).length = 3 := by
  have hsymbols : ∀ p ∈ currencySymbols, p.2.length = 3 := by decide
  have hcodes : ∀ code ∈ currencyCodes, code.length = 3 := by decide
  unfold findCurrency
  split
  · rename_i p hp
    exact hsymbols _ (List.mem_of_find?_eq_some hp)
  · dsimp only
    cases hfind : currencyCodes.find? _ with
    | none => rfl
    | some code => exact hcodes code (List.mem_of_find?_eq_some hfind)

theorem isOk_date (d : Option Date) : (orNone (date L) (givenDate T d)).isOk = true := by
  cases d with
  | none => rfl
  | some d => rfl

theorem isOk_currencyCode {code : String} (h : code.length = 3) :
    (currencyCode env (.str code : Input T.toUnicode)).isOk = true := by
  unfold currencyCode
  dsimp only
  rw [dif_pos h]
  rfl

/-- Of what `extract` passes on only the amounts may be refused. -/
theorem isOk_modelValidate {vendor currency total : String} {receiptDate : Option Date}
    {subtotal vatAmount vatRate : Option String} {items : List (ReceiptLineItem T.toUnicode)}
    (hvendor : vendor.length ≤ 160) (hcurrency : currency.length = 3) :
    (modelValidate L (.dict [("vendor", .str vendor), ("receipt_date", givenDate T receiptDate),
      ("currency", .str currency), ("subtotal", givenText T subtotal),
      ("vat_amount", givenText T vatAmount), ("vat_rate", givenText T vatRate), ("total", .str total),
      ("line_items", .list (items.map .item))])).isOk =
    ((orNone moneyStr (givenText T subtotal)).isOk && ((orNone moneyStr (givenText T vatAmount)).isOk &&
      ((orNone moneyStr (givenText T vatRate)).isOk &&
        (moneyStr (.str total : Input T.toUnicode)).isOk))) := by
  unfold modelValidate
  dsimp only
  generalize hmembers : ([("vendor", .str vendor), ("receipt_date", givenDate T receiptDate),
      ("currency", .str currency), ("subtotal", givenText T subtotal),
      ("vat_amount", givenText T vatAmount), ("vat_rate", givenText T vatRate), ("total", .str total),
      ("line_items", .list (items.map .item))] : List (String × Input T.toUnicode)) = members
  have hextras : (noExtras extractionFields members).isOk = true := by
    rw [← hmembers]
    rfl
  have hitems : (lineItems (.list (items.map .item) : Input T.toUnicode)).isOk = true := by
    rw [lineItems_map fun _ => rfl]
    rfl
  simp only [Except.isOk_map, Except.isOk_both]
  rw [hextras, isOk_field (by rw [← hmembers]; rfl), isOk_shortText hvendor,
    isOk_field (by rw [← hmembers]; rfl), isOk_date,
    isOk_field (by rw [← hmembers]; rfl), isOk_currencyCode hcurrency,
    isOk_field (by rw [← hmembers]; rfl), isOk_field (by rw [← hmembers]; rfl),
    isOk_field (by rw [← hmembers]; rfl), isOk_field (by rw [← hmembers]; rfl),
    isOk_field (by rw [← hmembers]; rfl), hitems]
  simp

/-- An extraction is returned, or an `ExtractionError` raised. -/
def Keeps {α : Type} (result : Except Raised α) : Prop :=
  (∃ e, result = .ok e) ∨ ∃ message, result = .error (.extraction message)

theorem keeps_mapError {α : Type} {check : Check α} :
    Keeps (check.mapError .validation) ↔ check.isOk = true := by
  cases check with
  | ok e => exact iff_of_true (.inl ⟨e, rfl⟩) rfl
  | error e =>
    refine iff_of_false ?_ Bool.false_ne_true
    rintro (⟨e, ⟨⟩⟩ | ⟨message, ⟨⟩⟩)

/-- The contract is kept iff there is no total, or each amount that is taken has at most four
decimals. -/
theorem contract_iff (L : Library T.toUnicode env) (rawText filename : String) :
    Keeps (extract L rawText filename) ↔
      (∀ line ∈ receiptLines rawText, Labelled T totalWords subtotalWords line →
        ∀ token, ¬ LastReadable T line token) ∨
      ∀ line, TakenFrom T (receiptLines rawText) totalWords subtotalWords line ∨
          TakenFrom T (receiptLines rawText) subtotalWords [] line ∨
          TakenFrom T (receiptLines rawText) vatWords [] line ∨ ItemLine T (receiptLines rawText) line →
        Fits T line := by
  unfold extract
  dsimp only
  generalize receiptLines rawText = lines
  split_ifs with hempty
  · exact iff_of_true (.inr ⟨_, rfl⟩) (.inl (by simp [hempty]))
  cases htotal : findLabelled T lines totalWords subtotalWords with
  | none => exact iff_of_true (.inr ⟨_, rfl⟩) (.inl (findLabelled_eq_none.1 htotal))
  | some total =>
    have hnot : ¬ ∀ line ∈ lines, Labelled T totalWords subtotalWords line →
        ∀ token, ¬ LastReadable T line token := by
      rw [← findLabelled_eq_none, htotal]
      rintro ⟨⟩
    have hamount : (moneyStr (.str total : Input T.toUnicode)).isOk = true ↔
        ∀ line, TakenFrom T lines totalWords subtotalWords line → Fits T line := by
      rw [← isOk_labelled, htotal, ← isOk_orNone]
      rfl
    rw [or_iff_right hnot, keeps_mapError]
    simp only [or_imp, forall_and]
    rw [← hamount, ← isOk_labelled, ← isOk_labelled, ← isOk_findLineItems]
    cases findLineItems T lines with
    | error e => exact iff_of_false Bool.false_ne_true fun h => Bool.false_ne_true h.2.2.2
    | ok items =>
      dsimp only [bind, Except.bind]
      rw [isOk_modelValidate (length_findVendor lines) (length_findCurrency rawText), isOk_vatRate]
      simp only [Bool.and_eq_true, true_and]
      constructor
      · rintro ⟨hsubtotal, hvat, htotal⟩
        exact ⟨htotal, hsubtotal, hvat, rfl⟩
      · rintro ⟨htotal, hsubtotal, hvat, -⟩
        exact ⟨hsubtotal, hvat, htotal⟩

/-- `1.234 567` is normalised to six decimals, which `MoneyStr` refuses. -/
theorem contract_fails : ¬ ∀ (T : Tables) (env : Env) (L : Library T.toUnicode env)
    (rawText filename : String), Keeps (extract L rawText filename) := by
  intro hall
  have hkeeps := hall demoTables demoUpper (demoLibrary "EUR") "Total 1.234 567" "receipt.txt"
  have hraised : extract (T := demoTables) (demoLibrary "EUR") "Total 1.234 567" "receipt.txt" =
      .error (.validation [["total"]]) := by decide +kernel
  rw [hraised] at hkeeps
  rcases hkeeps with ⟨e, ⟨⟩⟩ | ⟨message, ⟨⟩⟩

end ReckonFlow.StubExtractor
