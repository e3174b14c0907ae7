import ReckonFlow.Proofs.MoneyText
import ReckonFlow.Spec.Printed

/-! The amounts of a bank statement: which printed numbers `normalize_amount` and `MoneyStr` read as
they are meant. -/

namespace ReckonFlow

open Decimal Text

variable {U : Unicode}

/-! ## Texts of digits and separators -/

theorem strip_of_ends {l : List Char} (hhead : ∀ c ∈ l.head?, isSpace c = false)
    (hlast : ∀ c ∈ l.getLast?, isSpace c = false) : strip (String.ofList l) = String.ofList l := by
  have hdrop : ∀ l : List Char, (∀ c ∈ l.head?, isSpace c = false) → l.dropWhile isSpace = l := by
    intro l hl
    cases l with
    | nil => rfl
    | cons c cs => rw [List.dropWhile_cons_of_neg (by simp [hl c rfl])]
  rw [strip, String.toList_ofList, hdrop l hhead, hdrop l.reverse, List.reverse_reverse]
  intro c hc
  rw [List.head?_reverse] at hc
  exact hlast c hc

/-- A number with a point is accepted up to four decimals, as it stands. -/
theorem mustBeDecimal_of_plain {text : String} {sign whole fraction : List Char}
    (htext : text.toList = sign ++ whole ++ Triple.pointed fraction) (hsign : sign = [] ∨ sign = ['-'])
    (hne : whole ≠ []) (hdigits : ∀ c ∈ whole ++ fraction, c.isDigit = true) :
    mustBeDecimal U text = if 4 < fraction.length then .error (.tooManyDecimals text)
      else .ok ((if sign = ['-'] then -1 else 1) * numberOf (whole ++ fraction) / 10 ^ fraction.length) := by
  have hplain : Triple.Plain fraction.length text.toList := ⟨sign, whole, fraction, htext, hsign, hne, hdigits, rfl⟩
  have hascii : numericAsAscii U text = sign ++ whole ++ Triple.pointed fraction := by
    rw [numericAsAscii_of_plain (plainChar_of_plain hplain), htext]
  unfold mustBeDecimal
  rw [decimalOf_eq, decimal_of_plain hascii hsign hne hdigits]
  simp only [Option.map_some, Number.forget, Triple.sign, decide_eq_true_eq]
  have hlength : (-(fraction.length : ℤ) < -(maxMoneyDecimals : ℤ)) ↔ 4 < fraction.length := by
    unfold maxMoneyDecimals
    omega
  by_cases hfour : 4 < fraction.length
  · rw [if_pos (hlength.2 hfour), if_pos hfour]
  · rw [if_neg fun h => hfour (hlength.1 h), if_neg hfour, zpow_neg, zpow_natCast, div_eq_mul_inv]
    push_cast
    rfl

theorem mustBeDecimal_of_points {text : String} {sign whole fraction rest : List Char}
    (htext : text.toList = sign ++ whole ++ '.' :: (fraction ++ '.' :: rest))
    (hsign : sign = [] ∨ sign = ['-']) (hne : whole ≠ [])
    (hdigits : ∀ c ∈ whole ++ fraction, c.isDigit = true) (hrest : ∀ c ∈ rest, IsPlainChar c) :
    mustBeDecimal U text = .error (.notDecimal text) := by
  have hplain : ∀ c ∈ text.toList, IsPlainChar c := by
    intro c hc
    rw [htext] at hc
    simp only [List.mem_append, List.mem_cons] at hc
    rcases hc with (hc | hc) | rfl | hc | rfl | hc
    · rcases hsign with rfl | rfl
      · cases hc
      · exact .inr (.inl (List.mem_singleton.1 hc))
    · exact .inl (hdigits c (List.mem_append_left _ hc))
    · exact .inr (.inr rfl)
    · exact .inl (hdigits c (List.mem_append_right _ hc))
    · exact .inr (.inr rfl)
    · exact hrest c hc
  have hascii : numericAsAscii U text = sign ++ whole ++ '.' :: (fraction ++ '.' :: rest) := by
    rw [numericAsAscii_of_plain hplain, htext]
  unfold mustBeDecimal
  rw [decimalOf_eq, decimal_of_points hascii hsign hne hdigits]
  rfl

/-! ## `normalize_amount` -/

/-- A separator of a printed amount is no digit. -/
theorem ne_of_isDigit {c d : Char} (hc : c.isDigit = true) (hd : d.isDigit = false) : c ≠ d := by
  rintro rfl
  rw [hc] at hd
  cases hd

namespace Printed

variable (p : Printed)

theorem sign_cases : p.sign = [] ∨ p.sign = ['-'] := by
  unfold sign
  split_ifs
  · exact .inr rfl
  · exact .inl rfl

theorem wholeDigits_ne_nil : p.wholeDigits ≠ [] := Nat.toDigits_ne_nil

theorem isDigit_wholeDigits : ∀ c ∈ p.wholeDigits, c.isDigit = true := fun _ hc => Triple.isDigit_toDigits hc

theorem isDigit_all : ∀ c ∈ p.wholeDigits ++ p.fraction, c.isDigit = true := by
  intro c hc
  rcases List.mem_append.1 hc with hc | hc
  · exact p.isDigit_wholeDigits c hc
  · exact p.digits c hc

/-- The text without the blanks between groups. -/
def bare : List Char :=
  p.sign ++ (if p.style = .spaceComma then p.wholeDigits else p.style.whole p.wholeDigits) ++
    p.style.point :: p.fraction

end Printed

/-- With the comma for a point, and the points between the groups dropped. -/
def readPoint (text : List Char) : List Char :=
  (if ',' ∈ text then text.filter (· ≠ '.') else text).map fun c => if c = ',' then '.' else c

theorem normalizeAmount_eq (value : String) : normalizeAmount value =
    String.ofList (readPoint ((strip value).toList.filter fun c => c ≠ ' ' ∧ c ≠ '\u00a0')) := by
  unfold normalizeAmount readPoint
  generalize (strip value).toList.filter (fun c => c ≠ ' ' ∧ c ≠ '\u00a0') = text
  by_cases hcomma : ',' ∈ text
  · by_cases hpoint : '.' ∈ text
    · simp only [hcomma, hpoint, and_self, if_true]
    · have hfilter : text.filter (· ≠ '.') = text := by
        rw [List.filter_eq_self]
        rintro c hc
        exact decide_eq_true fun h => hpoint (h ▸ hc)
      simp only [hcomma, hpoint, and_false, if_false, if_true, hfilter]
  · simp only [hcomma, false_and, if_false]

theorem head?_grouped {α : Type*} (sep : α) {digits : List α} (hne : digits ≠ []) :
    (Groups.grouped sep digits).head? = digits.head? := by
  obtain ⟨head, groups, hsplit, hgrouped⟩ := Groups.exists_split sep hne
  have hhead := hsplit.ne
  rw [hgrouped, hsplit.digits, List.head?_append_of_ne_nil _ hhead, List.head?_append_of_ne_nil _ hhead]

theorem head?_whole (style : Style) {digits : List Char} (hne : digits ≠ []) :
    (style.whole digits).head? = digits.head? := by
  cases style with
  | plain => rfl
  | comma => rfl
  | dotComma => exact head?_grouped _ hne
  | spaceComma => exact head?_grouped _ hne
  | commaDot => exact head?_grouped _ hne

theorem isSpace_of_isDigit {c : Char} (h : c.isDigit = true) : isSpace c = false :=
  not_isSpace_of_plainChar (.inl h)

/-- A printed amount begins and ends without blanks. -/
theorem strip_text {p : Printed} (hne : p.fraction ≠ []) : strip p.text = p.text := by
  have hwhole : ∃ c cs, p.style.whole p.wholeDigits = c :: cs ∧ c.isDigit = true := by
    obtain ⟨c, cs, hdigits⟩ := List.exists_cons_of_ne_nil p.wholeDigits_ne_nil
    have hhead := head?_whole p.style p.wholeDigits_ne_nil
    rw [hdigits, List.head?_cons] at hhead
    obtain ⟨cs', hcs'⟩ := List.head?_eq_some_iff.1 hhead
    exact ⟨c, cs', hdigits ▸ hcs', p.isDigit_wholeDigits c (by simp [hdigits])⟩
  obtain ⟨c, cs, hcs, hc⟩ := hwhole
  apply strip_of_ends
  · intro d hd
    rcases p.sign_cases with hsign | hsign
    · rw [Printed.chars, hsign, hcs, List.nil_append, List.cons_append, List.head?_cons] at hd
      exact Option.mem_some_iff.1 hd ▸ isSpace_of_isDigit hc
    · rw [Printed.chars, hsign, List.cons_append, List.cons_append, List.head?_cons] at hd
      exact Option.mem_some_iff.1 hd ▸ rfl
  · intro d hd
    obtain ⟨init, last, hlast⟩ : ∃ init last, p.fraction = init ++ [last] :=
      ⟨_, _, (List.dropLast_concat_getLast hne).symm⟩
    rw [Printed.chars, if_neg hne, hlast, ← List.cons_append, ← List.append_assoc,
      List.getLast?_concat] at hd
    exact Option.mem_some_iff.1 hd ▸ isSpace_of_isDigit (p.digits last (by simp [hlast]))

theorem filter_bare {p : Printed} (hne : p.fraction ≠ []) :
    p.chars.filter (fun c => c ≠ ' ' ∧ c ≠ '\u00a0') = p.bare := by
  have hdigit : ∀ {l : List Char}, (∀ c ∈ l, c.isDigit = true) →
      l.filter (fun c => c ≠ ' ' ∧ c ≠ '\u00a0') = l := by
    intro l hl
    rw [List.filter_eq_self]
    intro c hc
    exact decide_eq_true ⟨ne_of_isDigit (hl c hc) rfl, ne_of_isDigit (hl c hc) rfl⟩
  have hsep : ∀ sep : Char, sep ≠ ' ' → sep ≠ '\u00a0' →
      (Groups.grouped sep p.wholeDigits).filter (fun c => c ≠ ' ' ∧ c ≠ '\u00a0') =
        Groups.grouped sep p.wholeDigits := by
    intro sep hspace hnbsp
    rw [List.filter_eq_self]
    intro c hc
    rcases Groups.mem_grouped hc with rfl | hc
    · exact decide_eq_true ⟨hspace, hnbsp⟩
    · have hc' := p.isDigit_wholeDigits c hc
      exact decide_eq_true ⟨ne_of_isDigit hc' rfl, ne_of_isDigit hc' rfl⟩
  have hblank : (Groups.grouped ' ' p.wholeDigits).filter (fun c => c ≠ ' ' ∧ c ≠ '\u00a0') =
      p.wholeDigits := by
    have hspace := Groups.filter_grouped fun c hc => ne_of_isDigit (d := ' ') (p.isDigit_wholeDigits c hc) rfl
    refine Eq.trans (List.filter_congr fun c hc => ?_) hspace
    rcases Groups.mem_grouped hc with rfl | hc
    · rfl
    · have hnbsp : c ≠ '\u00a0' := ne_of_isDigit (p.isDigit_wholeDigits c hc) rfl
      simp [hnbsp]
  have hsign : p.sign.filter (fun c => c ≠ ' ' ∧ c ≠ '\u00a0') = p.sign := by
    rcases p.sign_cases with h | h
    · rw [h]
      rfl
    · rw [h]
      rfl
  have htail : (p.style.point :: p.fraction).filter (fun c => c ≠ ' ' ∧ c ≠ '\u00a0') =
      p.style.point :: p.fraction := by
    have hpoint : p.style.point ≠ ' ' ∧ p.style.point ≠ '\u00a0' := by
      cases p.style <;> decide
    rw [List.filter_eq_self]
    intro c hc
    rcases List.mem_cons.1 hc with rfl | hc
    · exact decide_eq_true hpoint
    · exact decide_eq_true ⟨ne_of_isDigit (p.digits c hc) rfl, ne_of_isDigit (p.digits c hc) rfl⟩
  have hwhole : (p.style.whole p.wholeDigits).filter (fun c => c ≠ ' ' ∧ c ≠ '\u00a0') =
      if p.style = .spaceComma then p.wholeDigits else p.style.whole p.wholeDigits := by
    cases p.style with
    | plain => exact hdigit p.isDigit_wholeDigits
    | comma => exact hdigit p.isDigit_wholeDigits
    | dotComma => exact hsep '.' (by decide) (by decide)
    | spaceComma => exact hblank
    | commaDot => exact hsep ',' (by decide) (by decide)
  rw [Printed.chars, if_neg hne, List.filter_append, List.filter_append, hsign, hwhole, htail, Printed.bare]

theorem normalizeAmount_text {p : Printed} (hne : p.fraction ≠ []) :
    normalizeAmount p.text = String.ofList (readPoint p.bare) := by
  rw [normalizeAmount_eq, strip_text hne, Printed.text, String.toList_ofList, filter_bare hne]

/-! ## The styles -/

theorem map_digits {l : List Char} (h : ∀ c ∈ l, c.isDigit = true) :
    l.map (fun c => if c = ',' then '.' else c) = l := by
  refine (List.map_congr_left fun c hc => ?_).trans (List.map_id l)
  exact if_neg (ne_of_isDigit (h c hc) rfl)

theorem filter_digits {l : List Char} (h : ∀ c ∈ l, c.isDigit = true) : l.filter (· ≠ '.') = l := by
  rw [List.filter_eq_self]
  exact fun c hc => decide_eq_true (ne_of_isDigit (h c hc) rfl)

theorem map_sign (p : Printed) : p.sign.map (fun c => if c = ',' then '.' else c) = p.sign := by
  rcases p.sign_cases with h | h
  · rw [h]
    rfl
  · rw [h]
    rfl

theorem filter_sign (p : Printed) : p.sign.filter (· ≠ '.') = p.sign := by
  rcases p.sign_cases with h | h
  · rw [h]
    rfl
  · rw [h]
    rfl

theorem comma_not_mem {p : Printed} : ',' ∉ p.sign ++ p.wholeDigits ++ '.' :: p.fraction := by
  have hdigit : ∀ {l : List Char}, (∀ c ∈ l, c.isDigit = true) → ',' ∉ l := by
    intro l hl hmem
    cases hl _ hmem
  have hsign : ',' ∉ p.sign := by
    rcases p.sign_cases with h | h
    · rw [h]
      exact List.not_mem_nil
    · rw [h]
      decide
  simp only [List.mem_append, List.mem_cons, not_or]
  exact ⟨⟨hsign, hdigit p.isDigit_wholeDigits⟩, by decide, hdigit p.digits⟩

/-- The decimals behind a comma, and nothing between the digits once the points are dropped. -/
theorem readPoint_comma {p : Printed} {middle : List Char} (h : middle.filter (· ≠ '.') = p.wholeDigits) :
    readPoint (p.sign ++ middle ++ ',' :: p.fraction) = p.sign ++ p.wholeDigits ++ '.' :: p.fraction := by
  have hcomma : ',' ∈ p.sign ++ middle ++ ',' :: p.fraction := by simp
  rw [readPoint, if_pos hcomma, List.filter_append, List.filter_append, filter_sign, h,
    List.filter_cons_of_pos (by decide), filter_digits p.digits, List.map_append, List.map_append,
    map_sign, map_digits p.isDigit_wholeDigits, List.map_cons, map_digits p.digits]
  rfl

theorem readPoint_point {p : Printed} :
    readPoint (p.sign ++ p.wholeDigits ++ '.' :: p.fraction) = p.sign ++ p.wholeDigits ++ '.' :: p.fraction := by
  rw [readPoint, if_neg comma_not_mem, List.map_append, List.map_append, map_sign,
    map_digits p.isDigit_wholeDigits, List.map_cons, map_digits p.digits]
  rfl

/-- The digits of a whole part below one thousand are not grouped. -/
theorem split_of_lt {p : Printed} {head : List Char} {groups : List (List Char)}
    (hsplit : Groups.Split p.wholeDigits head groups) (k : ℕ) :
    p.whole < 10 ^ (3 * (k + 1)) ↔ groups.length ≤ k := by
  have hlength := hsplit.length
  have hhead : 0 < head.length := List.length_pos_iff.2 hsplit.ne
  have hthree := hsplit.head
  have hdigits : p.wholeDigits.length ≤ 3 * (k + 1) ↔ p.whole < 10 ^ (3 * (k + 1)) :=
    Nat.length_toDigits_le_iff (by norm_num) (by omega)
  rw [← hdigits]
  omega

/-- In every style but one the number is read with its decimals behind a point. -/
theorem readPoint_bare {p : Printed} (h : p.style ≠ .commaDot ∨ p.whole < 1000) :
    readPoint p.bare = p.sign ++ p.wholeDigits ++ '.' :: p.fraction := by
  unfold Printed.bare
  cases hstyle : p.style with
  | plain => exact readPoint_point
  | comma => exact readPoint_comma (filter_digits p.isDigit_wholeDigits)
  | spaceComma => exact readPoint_comma (filter_digits p.isDigit_wholeDigits)
  | dotComma =>
    exact readPoint_comma (Groups.filter_grouped fun c hc => ne_of_isDigit (p.isDigit_wholeDigits c hc) rfl)
  | commaDot =>
    have hsmall : p.whole < 10 ^ (3 * (0 + 1)) := h.resolve_left fun h => h hstyle
    obtain ⟨head, groups, hsplit, hgrouped⟩ := Groups.exists_split ',' p.wholeDigits_ne_nil
    obtain rfl := List.length_eq_zero_iff.1 (Nat.le_zero.1 ((split_of_lt hsplit 0).1 hsmall))
    have hdigits : Groups.grouped ',' p.wholeDigits = p.wholeDigits := by
      rw [hgrouped, hsplit.digits]
      simp
    simp only [Style.whole, Style.point, hdigits]
    exact readPoint_point

/-- A grouping comma is taken for the decimal point, and the point dropped. -/
theorem readPoint_commaDot {p : Printed} (h : p.style = .commaDot) {head : List Char}
    {groups : List (List Char)} (hsplit : Groups.Split p.wholeDigits head groups)
    (hgrouped : Groups.grouped ',' p.wholeDigits = head ++ groups.flatMap (',' :: ·))
    (hne : groups ≠ []) :
    readPoint p.bare = p.sign ++ head ++ groups.flatMap ('.' :: ·) ++ p.fraction := by
  have hall := p.isDigit_wholeDigits
  rw [hsplit.digits] at hall
  have hhead : ∀ c ∈ head, c.isDigit = true := fun c hc => hall c (List.mem_append_left _ hc)
  have hgroup : ∀ g ∈ groups, ∀ c ∈ g, c.isDigit = true := fun g hg c hc =>
    hall c (List.mem_append_right _ (List.mem_flatten.2 ⟨g, hg, hc⟩))
  have hcomma : ',' ∈ p.bare := by
    obtain ⟨g, rest, rfl⟩ := List.exists_cons_of_ne_nil hne
    simp [Printed.bare, h, Style.whole, hgrouped]
  have hfilter : p.bare.filter (· ≠ '.') = p.sign ++ head ++ groups.flatMap (',' :: ·) ++ p.fraction := by
    have hcommas : (groups.flatMap (',' :: ·)).filter (· ≠ '.') = groups.flatMap (',' :: ·) := by
      rw [List.filter_eq_self]
      intro c hc
      obtain ⟨g, hg, hc⟩ := List.mem_flatMap.1 hc
      rcases List.mem_cons.1 hc with rfl | hc
      · rfl
      · exact decide_eq_true (ne_of_isDigit (hgroup g hg c hc) rfl)
    simp only [Printed.bare, h, Style.whole, Style.point, hgrouped, reduceCtorEq, if_false]
    rw [List.filter_append, List.filter_append, List.filter_append, filter_sign, filter_digits hhead, hcommas,
      List.filter_cons_of_neg (by decide), filter_digits p.digits, ← List.append_assoc]
  have hmap : (groups.flatMap (',' :: ·)).map (fun c => if c = ',' then '.' else c) =
      groups.flatMap ('.' :: ·) := by
    rw [List.map_flatMap]
    refine List.flatMap_congr fun g hg => ?_
    rw [List.map_cons, map_digits (hgroup g hg)]
    rfl
  rw [readPoint, if_pos hcomma, hfilter, List.map_append, List.map_append, List.map_append, map_sign,
    map_digits hhead, hmap, map_digits p.digits]

/-! ## Read as printed -/

/-- The text is refused, or read as the amount that is meant. -/
def ReadAsPrinted (U : Unicode) (p : Printed) : Prop :=
  ∀ q, validateAmount U (some (.cell p.text)) = .ok q → q = p.value

theorem validateAmount_text (U : Unicode) {p : Printed} (hne : p.fraction ≠ []) :
    validateAmount U (some (.cell p.text)) = mustBeDecimal U (String.ofList (readPoint p.bare)) := by
  unfold validateAmount
  simp only [normalizeAmount_text hne]

theorem sign_eq_minus {p : Printed} : p.sign = ['-'] ↔ p.negative = true := by
  unfold Printed.sign
  split_ifs with hneg <;> simp [hneg]

theorem readAsPrinted_of_point (U : Unicode) {p : Printed} (hne : p.fraction ≠ [])
    (hshort : p.fraction.length ≤ 4)
    (h : readPoint p.bare = p.sign ++ p.wholeDigits ++ '.' :: p.fraction) : ReadAsPrinted U p := by
  intro q hq
  have htext : (String.ofList (readPoint p.bare)).toList =
      p.sign ++ p.wholeDigits ++ Triple.pointed p.fraction := by
    rw [String.toList_ofList, h, Triple.pointed, if_neg hne]
  rw [validateAmount_text U hne, mustBeDecimal_of_plain htext p.sign_cases p.wholeDigits_ne_nil p.isDigit_all,
    if_neg (by omega)] at hq
  obtain rfl := Except.ok.inj hq
  unfold Printed.value
  simp only [sign_eq_minus]

/-- The digits as one number. -/
theorem numberOf_pos {p : Printed} (h : 0 < p.whole) : 0 < numberOf (p.wholeDigits ++ p.fraction) := by
  rw [numberOf_eq, Nat.ofDigitChars_append, Printed.wholeDigits, Nat.ofDigitChars_ten_toDigits,
    Nat.ofDigitChars_eq_ofDigitChars_zero]
  positivity

/-- One grouping comma: with the point dropped, the group and the decimals are read as decimals. -/
theorem readAsPrinted_of_one_group (U : Unicode) {p : Printed} {head g : List Char}
    (hsplit : Groups.Split p.wholeDigits head [g]) (hlarge : 1000 ≤ p.whole)
    (hdecimals : p.fraction.length = 1 ∨ p.fraction.length = 2)
    (hread : readPoint p.bare = p.sign ++ head ++ [g].flatMap ('.' :: ·) ++ p.fraction) :
    ReadAsPrinted U p ↔ p.fraction.length ≠ 1 := by
  have hne : p.fraction ≠ [] := List.ne_nil_of_length_pos (by omega)
  have hg : g.length = 3 := hsplit.three g (List.mem_cons_self ..)
  have hdigits : head ++ (g ++ p.fraction) = p.wholeDigits ++ p.fraction := by
    rw [hsplit.digits]
    simp
  have htext : (String.ofList (readPoint p.bare)).toList =
      p.sign ++ head ++ Triple.pointed (g ++ p.fraction) := by
    rw [String.toList_ofList, hread, Triple.pointed, if_neg (List.append_ne_nil_of_right_ne_nil g hne)]
    simp
  unfold ReadAsPrinted
  rw [validateAmount_text U hne, mustBeDecimal_of_plain htext p.sign_cases hsplit.ne
    (by rw [hdigits]; exact p.isDigit_all), hdigits, List.length_append, hg]
  rcases hdecimals with hlength | hlength
  · have hpos : (0 : ℚ) < numberOf (p.wholeDigits ++ p.fraction) := by
      exact_mod_cast numberOf_pos (by omega)
    simp only [hlength, ne_eq, not_true, iff_false]
    intro hread
    have heq := hread _ (if_neg (by norm_num))
    have hsign : p.sign = ['-'] ↔ p.negative = true := sign_eq_minus
    unfold Printed.value at heq
    simp only [hlength, hsign] at heq
    split_ifs at heq
    · linarith
    · linarith
  · have hrefused : 4 < 3 + p.fraction.length := by omega
    rw [if_pos hrefused]
    exact iff_of_true (by rintro q ⟨⟩) (by omega)

/-- Several grouping commas are several points: the text is refused. -/
theorem readAsPrinted_of_more_groups (U : Unicode) {p : Printed} {head g g' : List Char}
    {groups : List (List Char)} (hsplit : Groups.Split p.wholeDigits head (g :: g' :: groups))
    (hne : p.fraction ≠ [])
    (hread : readPoint p.bare = p.sign ++ head ++ (g :: g' :: groups).flatMap ('.' :: ·) ++ p.fraction) :
    ReadAsPrinted U p := by
  have hwhole := p.isDigit_wholeDigits
  rw [hsplit.digits] at hwhole
  have hplain : ∀ c ∈ g' ++ (groups.flatMap ('.' :: ·) ++ p.fraction), IsPlainChar c := by
    intro c hc
    simp only [List.mem_append, List.mem_flatMap, List.mem_cons] at hc
    rcases hc with hc | ⟨g, hg, rfl | hc⟩ | hc
    · exact .inl (hwhole c (by simp [hc]))
    · exact .inr (.inr rfl)
    · exact .inl (hwhole c (by
        simp only [List.mem_append, List.mem_flatten, List.mem_cons]
        exact .inr ⟨g, .inr (.inr hg), hc⟩))
    · exact .inl (p.digits c hc)
  have hdigits : ∀ c ∈ head ++ g, c.isDigit = true := by
    intro c hc
    apply hwhole
    rw [List.flatten_cons, ← List.append_assoc]
    exact List.mem_append_left _ hc
  have htext : (String.ofList (readPoint p.bare)).toList =
      p.sign ++ head ++ '.' :: (g ++ '.' :: (g' ++ (groups.flatMap ('.' :: ·) ++ p.fraction))) := by
    rw [String.toList_ofList, hread]
    simp
  intro q hq
  rw [validateAmount_text U hne, mustBeDecimal_of_points htext p.sign_cases hsplit.ne hdigits hplain] at hq
  cases hq

/-- Grouped by commas, behind which the decimals follow without their point: with one group and one
decimal the text is read as a thousandth of the amount, and otherwise refused. -/
theorem readAsPrinted_commaDot (U : Unicode) {p : Printed} (hstyle : p.style = .commaDot)
    (hdecimals : p.fraction.length = 1 ∨ p.fraction.length = 2) (hlarge : 1000 ≤ p.whole) :
    ReadAsPrinted U p ↔ ¬ (p.whole < 10 ^ 6 ∧ p.fraction.length = 1) := by
  obtain ⟨head, groups, hsplit, hgrouped⟩ := Groups.exists_split ',' p.wholeDigits_ne_nil
  have hsmall := split_of_lt hsplit 0
  have hone := split_of_lt hsplit 1
  have hgroups : groups ≠ [] := by
    rintro rfl
    have hlt := hsmall.2 (Nat.le_refl _)
    omega
  have hread := readPoint_commaDot hstyle hsplit hgrouped hgroups
  obtain ⟨g, rest, rfl⟩ := List.exists_cons_of_ne_nil hgroups
  cases rest with
  | nil =>
    have hlt : p.whole < 10 ^ 6 := hone.2 (Nat.le_refl _)
    rw [readAsPrinted_of_one_group U hsplit hlarge hdecimals hread]
    simp only [hlt, true_and, ne_eq]
  | cons g' rest =>
    have hlt : ¬ p.whole < 10 ^ 6 := fun h => by
      have hle := hone.1 h
      simp at hle
    have hne : p.fraction ≠ [] := List.ne_nil_of_length_pos (by omega)
    exact iff_of_true (readAsPrinted_of_more_groups U hsplit hne hread) fun h => hlt h.1

/-- A printed amount is refused or read as it is meant, unless its thousands are set off by one comma
and it has a single decimal. -/
theorem bank_amount_iff (U : Unicode) (p : Printed)
    (hdecimals : p.fraction.length = 1 ∨ p.fraction.length = 2) : ReadAsPrinted U p ↔
      ¬ (p.style = .commaDot ∧ 1000 ≤ p.whole ∧ p.whole < 10 ^ 6 ∧ p.fraction.length = 1) := by
  have hne : p.fraction ≠ [] := by
    intro h
    simp [h] at hdecimals
  by_cases hgrouped : p.style = .commaDot ∧ 1000 ≤ p.whole
  · rw [readAsPrinted_commaDot U hgrouped.1 hdecimals hgrouped.2]
    simp only [hgrouped, true_and]
  · have hpoint : p.style ≠ .commaDot ∨ p.whole < 1000 := by
      rcases not_and_or.1 hgrouped with h | h
      · exact .inl h
      · exact .inr (by omega)
    exact iff_of_true (readAsPrinted_of_point U hne (by omega) (readPoint_bare hpoint))
      fun h => hgrouped ⟨h.1, h.2.1⟩

theorem bank_amount_iff_european :
    ReadAsPrinted demoUnicode ⟨.dotComma, true, 1234567, ['5', '6'], by simp⟩ :=
  (bank_amount_iff demoUnicode _ (.inr rfl)).2 (by simp)

/-- `1,234.5` -/
theorem bank_amount_fails : ¬ ∀ (U : Unicode) (p : Printed),
    p.fraction.length = 1 ∨ p.fraction.length = 2 → ReadAsPrinted U p := by
  intro hall
  have hread := hall demoUnicode ⟨.commaDot, false, 1234, ['5'], by simp⟩ (.inl rfl) (12345 / 10 ^ 4)
    (by decide +kernel)
  exact absurd hread (by decide +kernel)

end ReckonFlow
