import ReckonFlow.Proofs.BankImport
import ReckonFlow.Spec.LedgerSchema
import ReckonFlow.Spec.MoneyText

/-! Amounts as texts: what `_must_be_decimal` returns is a normal form, and what a column of four
decimals does with it. -/

namespace ReckonFlow

open Decimal Text

variable {U : Unicode}

/-! ## Reading plain notation -/

theorem numberOf_eq (digits : List Char) : numberOf digits = Nat.ofDigitChars 10 digits 0 := by
  rw [numberOf, Nat.ofDigitChars_eq_foldl]
  congr 1
  funext n c
  rw [mul_comm]
  rfl

theorem takeWhile_digits {digits rest : List Char} (hdigits : ∀ c ∈ digits, c.isDigit = true)
    (hrest : ∀ c ∈ rest.head?, c.isDigit = false) :
    (digits ++ rest).takeWhile Char.isDigit = digits ∧ (digits ++ rest).dropWhile Char.isDigit = rest := by
  rw [List.takeWhile_append_of_pos hdigits, List.dropWhile_append_of_pos hdigits]
  cases rest with
  | nil => simp
  | cons c cs =>
    have hc : c.isDigit = false := hrest c rfl
    simp [hc]

/-- Digits, a point, digits, and what stands behind them. -/
theorem parseNumber_point {whole fraction rest : List Char} (hwhole : ∀ c ∈ whole, c.isDigit = true)
    (hfraction : ∀ c ∈ fraction, c.isDigit = true) (hrest : ∀ c ∈ rest.head?, c.isDigit = false) :
    parseNumber (whole ++ '.' :: (fraction ++ rest)) = if whole ++ fraction = [] then none
      else (parseExponent rest).map fun e => ((numberOf (whole ++ fraction), e - fraction.length) : ℕ × ℤ) := by
  have hpoint : ∀ c ∈ ('.' :: (fraction ++ rest)).head?, c.isDigit = false := by
    rintro c ⟨⟩
    rfl
  obtain ⟨htake, hdrop⟩ := takeWhile_digits hwhole hpoint
  obtain ⟨htake', hdrop'⟩ := takeWhile_digits hfraction hrest
  simp only [parseNumber, htake, hdrop, htake', hdrop']

/-- Digits alone. -/
theorem parseNumber_digits {whole rest : List Char} (hwhole : ∀ c ∈ whole, c.isDigit = true)
    (hrest : ∀ c ∈ rest.head?, c.isDigit = false) (hpoint : rest.head? ≠ some '.') :
    parseNumber (whole ++ rest) = if whole = [] then none
      else (parseExponent rest).map fun e => (numberOf whole, e) := by
  obtain ⟨htake, hdrop⟩ := takeWhile_digits hwhole hrest
  have hnopoint : ∀ tail, rest ≠ '.' :: tail := by
    rintro tail rfl
    exact hpoint rfl
  simp only [parseNumber, htake, hdrop]
  simp

theorem parseNumber_pointed {whole fraction : List Char} (hne : whole ≠ [])
    (hdigits : ∀ c ∈ whole ++ fraction, c.isDigit = true) :
    parseNumber (whole ++ Triple.pointed fraction) =
      some (numberOf (whole ++ fraction), -(fraction.length : ℤ)) := by
  have hwhole : ∀ c ∈ whole, c.isDigit = true := fun c hc => hdigits c (List.mem_append_left _ hc)
  have hfraction : ∀ c ∈ fraction, c.isDigit = true := fun c hc => hdigits c (List.mem_append_right _ hc)
  have hnone : ∀ c ∈ ([] : List Char).head?, c.isDigit = false := by
    rintro c ⟨⟩
  unfold Triple.pointed
  split_ifs with h
  · have hparse := parseNumber_digits hwhole hnone (by simp)
    rw [hparse, if_neg hne, h]
    simp [parseExponent]
  · have hparse := parseNumber_point hwhole hfraction hnone
    rw [List.append_nil] at hparse
    rw [hparse, if_neg (by simp [hne])]
    simp [parseExponent]

/-! ## `Decimal(text)` -/

theorem toLower_of_isDigit {c : Char} (h : c.isDigit = true) : c.toLower = c := by
  unfold Char.toLower
  simp only [Char.isDigit, Bool.and_eq_true, decide_eq_true_eq, ge_iff_le, UInt32.le_iff_toNat_le] at h
  rw [dif_neg]
  rintro ⟨hc, -⟩
  simp only [ge_iff_le, UInt32.le_iff_toNat_le] at hc
  have h9 : '9'.val.toNat = 57 := rfl
  have hA : 'A'.val.toNat = 65 := rfl
  omega

/-- A text that starts with a digit, behind its sign, is none of the special values. -/
theorem decimal_of_digit {text : String} {sign cs : List Char} {c : Char}
    (htext : numericAsAscii U text = sign ++ c :: cs) (hsign : sign = [] ∨ sign = ['-'])
    (hc : c.isDigit = true) : MoneyText.decimal U text =
      (parseNumber (c :: cs)).map fun p => .finite ⟨sign = ['-'], p.1, p.2⟩ := by
  have hsplit : splitSign (numericAsAscii U text) = (if sign = ['-'] then -1 else 1, c :: cs) := by
    rw [htext]
    rcases hsign with rfl | rfl
    · simp only [List.nil_append, splitSign]
      split
      · rename_i hcs
        rw [(List.cons.inj hcs).1] at hc
        cases hc
      · rename_i hcs
        rw [(List.cons.inj hcs).1] at hc
        cases hc
      · rfl
    · rfl
  have hletter : ∀ letter : Char, letter.isDigit = false → c.toLower ≠ letter := by
    rintro letter hletter rfl
    rw [toLower_of_isDigit hc, hc] at hletter
    cases hletter
  have hi : c.toLower ≠ 'i' := hletter 'i' rfl
  have hn : c.toLower ≠ 'n' := hletter 'n' rfl
  have hs : c.toLower ≠ 's' := hletter 's' rfl
  unfold MoneyText.decimal
  rw [hsplit]
  simp [hi, hn, hs]

theorem decimal_of_plain {text : String} {sign whole fraction : List Char}
    (htext : numericAsAscii U text = sign ++ whole ++ Triple.pointed fraction)
    (hsign : sign = [] ∨ sign = ['-']) (hne : whole ≠ [])
    (hdigits : ∀ c ∈ whole ++ fraction, c.isDigit = true) :
    MoneyText.decimal U text =
      some (.finite ⟨sign = ['-'], numberOf (whole ++ fraction), -(fraction.length : ℤ)⟩) := by
  have hparse := parseNumber_pointed hne hdigits
  obtain ⟨c, cs, rfl⟩ := List.exists_cons_of_ne_nil hne
  rw [List.append_assoc, List.cons_append] at htext
  rw [List.cons_append] at hparse
  rw [decimal_of_digit htext hsign (hdigits c (by simp)), hparse]
  rfl

/-- A second point makes it no number. -/
theorem decimal_of_points {text : String} {sign whole fraction rest : List Char}
    (htext : numericAsAscii U text = sign ++ whole ++ '.' :: (fraction ++ '.' :: rest))
    (hsign : sign = [] ∨ sign = ['-']) (hne : whole ≠ [])
    (hdigits : ∀ c ∈ whole ++ fraction, c.isDigit = true) : MoneyText.decimal U text = none := by
  have hpoint : ∀ c ∈ ('.' :: rest).head?, c.isDigit = false := by
    rintro c ⟨⟩
    rfl
  have hnone : parseNumber (whole ++ '.' :: (fraction ++ '.' :: rest)) = none := by
    rw [parseNumber_point (fun c hc => hdigits c (List.mem_append_left _ hc))
      (fun c hc => hdigits c (List.mem_append_right _ hc)) hpoint]
    split_ifs
    · rfl
    · rfl
  obtain ⟨c, cs, rfl⟩ := List.exists_cons_of_ne_nil hne
  rw [List.append_assoc, List.cons_append] at htext
  rw [List.cons_append] at hnone
  rw [decimal_of_digit htext hsign (hdigits c (by simp)), hnone]
  rfl

/-! ## ASCII texts -/

/-- The characters of plain notation. -/
def IsPlainChar (c : Char) : Prop := c.isDigit = true ∨ c = '-' ∨ c = '.'

theorem not_isSpace_of_plainChar {c : Char} (h : IsPlainChar c) : isSpace c = false := by
  rcases h with h | rfl | rfl
  · simp only [Char.isDigit, Bool.and_eq_true, decide_eq_true_eq, ge_iff_le, UInt32.le_iff_toNat_le] at h
    have h0 : '0'.val.toNat = 48 := rfl
    have h9 : '9'.val.toNat = 57 := rfl
    simp only [isSpace, Char.toNat, Bool.or_eq_false_iff, Bool.and_eq_false_iff, decide_eq_false_iff_not]
    omega
  · rfl
  · rfl

theorem strip_of_forall {s : String} (h : ∀ c ∈ s.toList, isSpace c = false) : strip s = s := by
  have hdrop : ∀ l : List Char, (∀ c ∈ l, isSpace c = false) → l.dropWhile isSpace = l := by
    intro l hl
    cases l with
    | nil => rfl
    | cons c cs => rw [List.dropWhile_cons_of_neg (by simp [hl c (List.mem_cons_self ..)])]
  have hreverse : ∀ c ∈ s.toList.reverse, isSpace c = false := fun c hc => h c (List.mem_reverse.1 hc)
  rw [strip, hdrop _ h, hdrop _ hreverse, List.reverse_reverse, String.ofList_toList]

/-- The interpreter's table maps ASCII digits to themselves. -/
theorem digit_of_plainChar {c : Char} (h : IsPlainChar c) :
    (match U.digit c with | some d => Char.ofNat (48 + d) | none => c) = c := by
  have hascii : c.toNat < 128 := by
    rcases h with h | rfl | rfl
    · simp only [Char.isDigit, Bool.and_eq_true, decide_eq_true_eq, UInt32.le_iff_toNat_le] at h
      have h9 : '9'.val.toNat = 57 := rfl
      show c.val.toNat < 128
      omega
    · decide
    · decide
  rw [U.digit_ascii c hascii]
  split_ifs with hdigit
  · have h48 : 48 ≤ c.toNat := by
      simp only [Char.isDigit, Bool.and_eq_true, decide_eq_true_eq, ge_iff_le, UInt32.le_iff_toNat_le]
        at hdigit
      exact hdigit.1
    show Char.ofNat (48 + (c.toNat - 48)) = c
    rw [Nat.add_sub_cancel' h48, Char.ofNat_toNat]
  · rfl

theorem numericAsAscii_of_plain {s : String} (h : ∀ c ∈ s.toList, IsPlainChar c) :
    numericAsAscii U s = s.toList := by
  have hunderscore : s.toList.filter (· ≠ '_') = s.toList := by
    rw [List.filter_eq_self]
    intro c hc
    rcases h c hc with hdigit | rfl | rfl
    · rw [decide_eq_true_eq]
      rintro rfl
      cases hdigit
    · rfl
    · rfl
  rw [numericAsAscii, strip_of_forall fun c hc => not_isSpace_of_plainChar (h c hc), hunderscore]
  exact (List.map_congr_left fun c hc => digit_of_plainChar (h c hc)).trans (List.map_id _)

theorem plainChar_of_plain {text : List Char} {decimals : ℕ} (h : Triple.Plain decimals text) :
    ∀ c ∈ text, IsPlainChar c := by
  obtain ⟨sign, whole, fraction, rfl, hsign, -, hdigits, -⟩ := h
  intro c hc
  simp only [List.mem_append] at hc
  rcases hc with (hc | hc) | hc
  · rcases hsign with rfl | rfl
    · cases hc
    · exact .inr (.inl (List.mem_singleton.1 hc))
  · exact .inl (hdigits c (List.mem_append_left _ hc))
  · unfold Triple.pointed at hc
    split_ifs at hc
    · cases hc
    · rcases List.mem_cons.1 hc with rfl | hc
      · exact .inr (.inr rfl)
      · exact .inl (hdigits c (List.mem_append_right _ hc))

/-! ## `money_to_str` -/

/-- What is printed reads as the same number, without an exponent above zero. -/
theorem decimal_plain (d : Triple) : MoneyText.decimal U d.plain = some (.finite d.normal) := by
  obtain ⟨hne, hdigits, hlength, hnumber⟩ := d.places_spec
  have hchars : d.plain.toList = d.plainChars := String.toList_ofList
  have hascii : numericAsAscii U d.plain = d.plainChars := by
    rw [numericAsAscii_of_plain, hchars]
    rw [hchars]
    exact plainChar_of_plain d.plain_plain
  have hsign : (if d.negative then ['-'] else []) = [] ∨ (if d.negative then ['-'] else []) = ['-'] := by
    split_ifs
    · exact .inr rfl
    · exact .inl rfl
  rw [decimal_of_plain hascii hsign hne hdigits, numberOf_eq, hnumber, hlength, Triple.normal]
  have hexponent : -((-d.exponent).toNat : ℤ) = min d.exponent 0 := by omega
  rw [hexponent]
  cases d.negative <;> rfl

/-- The number a text denotes. -/
def Denotes (U : Unicode) (text : String) (q : ℚ) : Prop :=
  ∃ d, MoneyText.decimal U text = some (.finite d) ∧ d.value = q

theorem Denotes.unique {text : String} {q r : ℚ} (h : Denotes U text q) (h' : Denotes U text r) : q = r := by
  obtain ⟨d, hd, rfl⟩ := h
  obtain ⟨d', hd', rfl⟩ := h'
  obtain rfl := Number.finite.inj (Option.some.inj (hd.symm.trans hd'))
  rfl

theorem denotes_plain (U : Unicode) (d : Triple) : Denotes U d.plain d.value :=
  ⟨d.normal, decimal_plain d, d.value_normal⟩

/-- `_must_be_decimal` accepts the finite numbers of at most four decimals, and prints them. -/
theorem mustBeDecimal_eq_ok {s t : String} : MoneyText.mustBeDecimal U s = .ok t ↔
    ∃ d, MoneyText.decimal U s = some (.finite d) ∧ -4 ≤ d.exponent ∧ d.plain = t := by
  unfold MoneyText.mustBeDecimal
  cases hs : MoneyText.decimal U s with
  | none => exact iff_of_false (by rintro ⟨⟩) (by rintro ⟨d, ⟨⟩, -⟩)
  | some n =>
    cases n with
    | infinite negative => exact iff_of_false (by rintro ⟨⟩) (by rintro ⟨d, ⟨⟩, -⟩)
    | nan => exact iff_of_false (by rintro ⟨⟩) (by rintro ⟨d, ⟨⟩, -⟩)
    | finite d =>
      have hfour : (-maxMoneyDecimals : ℤ) = -4 := rfl
      simp only [hfour, Option.some.injEq, Number.finite.injEq, exists_eq_left']
      split_ifs with h
      · exact iff_of_false (by rintro ⟨⟩) fun h' => absurd h'.1 (by omega)
      · constructor
        · intro heq
          exact ⟨by omega, Except.ok.inj heq⟩
        · rintro ⟨-, rfl⟩
          rfl

theorem mustBeDecimal_plain {d : Triple} (h : -4 ≤ d.exponent) :
    MoneyText.mustBeDecimal U d.plain = .ok d.plain :=
  mustBeDecimal_eq_ok.2 ⟨d.normal, decimal_plain d, le_min h (by norm_num), d.plain_normal⟩

/-! ## The models by number -/

theorem splitSign_fst (cs : List Char) : (splitSign cs).1 = 1 ∨ (splitSign cs).1 = -1 := by
  unfold splitSign
  split
  · exact .inr rfl
  · exact .inl rfl
  · exact .inl rfl

theorem decimalOf_eq (s : String) : decimalOf U s = (MoneyText.decimal U s).map Number.forget := by
  unfold decimalOf MoneyText.decimal
  rcases hsign : splitSign (numericAsAscii U s) with ⟨sign, cs⟩
  have hone : sign = 1 ∨ sign = -1 := by
    have h := splitSign_fst (numericAsAscii U s)
    rwa [hsign] at h
  simp only
  split_ifs
  · rfl
  · rfl
  · rfl
  · rw [Option.map_map]
    congr 1
    funext p
    rcases hone with rfl | rfl
    · simp [Number.forget, Triple.sign]
    · simp [Number.forget, Triple.sign]

/-- The validator that returns the number accepts the same texts, and refuses the others alike. -/
theorem mustBeDecimal_agrees (s : String) :
    (∀ q, mustBeDecimal U s = .ok q ↔ (∃ t, MoneyText.mustBeDecimal U s = .ok t) ∧ Denotes U s q) ∧
      ∀ e, mustBeDecimal U s = .error e ↔ MoneyText.mustBeDecimal U s = .error e := by
  unfold mustBeDecimal MoneyText.mustBeDecimal Denotes
  rw [decimalOf_eq]
  cases MoneyText.decimal U s with
  | none => simp
  | some n =>
    cases n with
    | infinite negative => simp [Number.forget]
    | nan => simp [Number.forget]
    | finite d =>
      simp only [Option.map_some, Number.forget]
      split_ifs with h
      · simp
      · simp [Triple.value]

theorem value_of_units (n : ℤ) : Triple.value ⟨n < 0, n.natAbs, -4⟩ = n / 10 ^ 4 := by
  have hfour : (10 : ℚ) ^ (-4 : ℤ) = (10 ^ 4)⁻¹ := by norm_num
  unfold Triple.value Triple.sign
  rw [Nat.cast_natAbs, Int.cast_abs, hfour, div_eq_mul_inv]
  congr 1
  rcases lt_or_ge n 0 with hneg | hpos
  · have hneg' : (n : ℚ) < 0 := by exact_mod_cast hneg
    rw [abs_of_neg hneg']
    simp [hneg]
  · have hpos' : (0 : ℚ) ≤ n := by exact_mod_cast hpos
    rw [abs_of_nonneg hpos']
    simp [hpos.not_gt]

theorem MoneyStr.ofText_eq {text : String} {q : ℚ} (h : mustBeDecimal U text = .ok q) :
    MoneyStr.ofText U text = .ok ⟨q, mustBeDecimal_hasScale h⟩ := by
  unfold MoneyStr.ofText
  split
  next r hr =>
    obtain rfl : q = r := Except.ok.inj (h.symm.trans hr)
    rfl
  next e he => cases h.symm.trans he

/-- Every number of at most four decimals is what the field makes of some text. -/
theorem MoneyStr.exists_text (U : Unicode) (m : MoneyStr) : ∃ text, MoneyStr.ofText U text = .ok m := by
  obtain ⟨n, hn⟩ := m.scale
  have hvalue : Triple.value ⟨n < 0, n.natAbs, -4⟩ = m.value := by
    rw [value_of_units, ← hn, mul_div_cancel_right₀ _ (by positivity)]
  have hdenotes : Denotes U (Triple.plain ⟨n < 0, n.natAbs, -4⟩) m.value := hvalue ▸ denotes_plain U _
  exact ⟨_, MoneyStr.ofText_eq (((mustBeDecimal_agrees _).1 _).2 ⟨⟨_, mustBeDecimal_plain le_rfl⟩, hdenotes⟩)⟩

/-! ## Normal form -/

theorem moneyStr_str {s t : String} :
    MoneyText.moneyStr U (.str s) = .ok t ↔ MoneyText.mustBeDecimal U s = .ok t := by
  unfold MoneyText.moneyStr MoneyText.coerceMoney
  simp only [bind, Except.bind]
  cases MoneyText.mustBeDecimal U s with
  | ok t' => exact ⟨fun h => congrArg _ (Except.ok.inj h), fun h => congrArg _ (Except.ok.inj h)⟩
  | error e => exact iff_of_false (by rintro ⟨⟩) (by rintro ⟨⟩)

/-- `MoneyStr` returns plain notation of the same number, of at most four decimals, which it leaves
as it is; and what `money_to_str` prints of any finite number is plain and parses to it. -/
theorem money_normal_form (U : Unicode) :
    (∀ s t, MoneyText.moneyStr U (.str s) = .ok t → (∃ n ≤ 4, Triple.Plain n t.toList) ∧
      (∃ q, Denotes U s q ∧ Denotes U t q) ∧ MoneyText.moneyStr U (.str t) = .ok t) ∧
    ∀ d : Triple, (∃ n, Triple.Plain n (MoneyText.moneyToStr (.finite d)).toList) ∧
      ∃ d', MoneyText.parseMoney U (.str (MoneyText.moneyToStr (.finite d))) = .ok (.finite d') ∧
        d'.value = d.value := by
  have hchars : ∀ d : Triple, d.plain.toList = d.plainChars := fun _ => String.toList_ofList
  constructor
  · intro s t h
    obtain ⟨d, hs, hexponent, rfl⟩ := mustBeDecimal_eq_ok.1 (moneyStr_str.1 h)
    refine ⟨⟨_, by omega, (hchars d).symm ▸ d.plain_plain⟩, ⟨d.value, ⟨d, hs, rfl⟩, denotes_plain U d⟩, ?_⟩
    exact moneyStr_str.2 (mustBeDecimal_plain hexponent)
  · intro d
    refine ⟨⟨_, (hchars d).symm ▸ d.plain_plain⟩, d.normal, ?_, d.value_normal⟩
    unfold MoneyText.parseMoney MoneyText.moneyToStr
    simp only [decimal_plain]

/-- An exponent, a sign and leading zeros. -/
theorem money_normal_form_hundred : ∃ t, MoneyText.moneyStr demoUnicode (.str " -01.0e+2 ") = .ok t ∧
    t = "-100" ∧ MoneyText.moneyStr demoUnicode (.str t) = .ok t := by
  have h : MoneyText.moneyStr demoUnicode (.str " -01.0e+2 ") = .ok "-100" := by decide +kernel
  exact ⟨_, h, rfl, ((money_normal_form demoUnicode).1 _ _ h).2.2⟩

/-! ## Columns -/

/-- The column takes the amount as it is and gives the same number back, above zero if the field
asks for that. -/
structure StoredAsIs (U : Unicode) (field : MoneyText.AmountField) (t : String) (q : ℚ) (x : Money) : Prop where
  denotes : Denotes U t q
  stored : Numeric.ofRat? q = some x
  value : x.value = q
  positive : field.Positive → 0 < x.value
  back : Denotes U (MoneyText.moneyToStr (MoneyText.columnDecimal x)) q

theorem ofRat?_of_hasScale {q : ℚ} (hq : HasScale 4 q) :
    (∃ x : Money, Numeric.ofRat? q = some x) ↔ |q| < 10 ^ 11 := by
  obtain ⟨n, hn⟩ := hq
  have hbound : |n| < 10 ^ 15 ↔ |q| < 10 ^ 11 := by
    rw [← Int.cast_lt (R := ℚ)]
    push_cast
    rw [← hn, abs_mul, abs_of_pos (by norm_num : (0 : ℚ) < 10 ^ 4)]
    constructor
    · intro h
      linarith
    · intro h
      linarith
  rw [← hbound, Numeric.ofRat?, hn, roundHalfAway_int]
  split_ifs with h
  · exact iff_of_true ⟨_, rfl⟩ h
  · exact iff_of_false (by rintro ⟨x, ⟨⟩⟩) h

theorem columnDecimal_denotes (U : Unicode) (x : Money) :
    Denotes U (MoneyText.moneyToStr (MoneyText.columnDecimal x)) x.value := by
  have h := denotes_plain U ⟨x.units < 0, x.units.natAbs, -4⟩
  rwa [value_of_units] at h

theorem moneyStr_ok {input : MoneyInput} {t : String} (h : MoneyText.moneyStr U input = .ok t) :
    MoneyText.mustBeDecimal U t = .ok t := by
  unfold MoneyText.moneyStr at h
  obtain ⟨text, -, hmoney⟩ := Except.bind_eq_ok.1 h
  cases hmust : MoneyText.mustBeDecimal U text with
  | error e =>
    rw [hmust] at hmoney
    cases hmoney
  | ok t' =>
    rw [hmust] at hmoney
    obtain rfl := Except.ok.inj hmoney
    obtain ⟨d, -, hexponent, rfl⟩ := mustBeDecimal_eq_ok.1 hmust
    exact mustBeDecimal_plain hexponent

theorem positiveMoneyStr_ok {input : MoneyInput} {t : String}
    (h : MoneyText.positiveMoneyStr U input = .ok t) :
    MoneyText.mustBeDecimal U t = .ok t ∧ ∀ q, Denotes U t q → 0 < q := by
  unfold MoneyText.positiveMoneyStr at h
  obtain ⟨text, hmoney, hpositive⟩ := Except.bind_eq_ok.1 h
  have hmust := moneyStr_ok hmoney
  unfold MoneyText.mustBePositive at hpositive
  obtain ⟨d, hd, hexponent, hplain⟩ := mustBeDecimal_eq_ok.1 hmust
  simp only [hd] at hpositive
  split_ifs at hpositive with hle
  obtain rfl := Except.ok.inj hpositive
  refine ⟨hmust, fun q hq => ?_⟩
  obtain rfl := Denotes.unique ⟨d, hd, rfl⟩ hq
  exact not_le.1 hle

/-- What a field accepts is in normal form, and above zero where the field asks for that. -/
theorem validate_ok {field : MoneyText.AmountField} {input : MoneyInput} {t : String}
    (h : field.validate U input = .ok t) :
    MoneyText.mustBeDecimal U t = .ok t ∧ (field.Positive → ∀ q, Denotes U t q → 0 < q) := by
  cases field with
  | ledgerLine => exact ⟨moneyStr_ok h, False.elim⟩
  | bankRow => exact ⟨moneyStr_ok h, False.elim⟩
  | tripEstimate => exact ⟨(positiveMoneyStr_ok h).1, fun _ => (positiveMoneyStr_ok h).2⟩
  | expenseAmount => exact ⟨(positiveMoneyStr_ok h).1, fun _ => (positiveMoneyStr_ok h).2⟩

/-- An accepted amount is stored as it is iff its magnitude is below `10 ^ 11`. -/
theorem stored_as_is_iff (U : Unicode) (field : MoneyText.AmountField) (input : MoneyInput) (t : String)
    (h : field.validate U input = .ok t) :
    (∃ q x, StoredAsIs U field t q x) ↔ ∃ q, Denotes U t q ∧ |q| < 10 ^ 11 := by
  obtain ⟨hmust, hpositive⟩ := validate_ok h
  have hscale : ∀ q, Denotes U t q → HasScale 4 q := fun q hq =>
    mustBeDecimal_hasScale (((mustBeDecimal_agrees t).1 q).2 ⟨⟨t, hmust⟩, hq⟩)
  constructor
  · rintro ⟨q, x, hx⟩
    exact ⟨q, hx.denotes, (ofRat?_of_hasScale (hscale q hx.denotes)).1 ⟨x, hx.stored⟩⟩
  · rintro ⟨q, hq, hsmall⟩
    obtain ⟨x, hx⟩ := (ofRat?_of_hasScale (hscale q hq)).2 hsmall
    have hvalue := Numeric.value_of_ofRat? (hscale q hq) hx
    refine ⟨q, x, hq, hx, hvalue, fun hp => hvalue ▸ hpositive hp q hq, ?_⟩
    exact hvalue ▸ columnDecimal_denotes U x

/-- The largest amount of the columns. -/
theorem stored_as_is_iff_largest : ∃ q x, StoredAsIs demoUnicode .expenseAmount "99999999999.9999" q x := by
  have h : MoneyText.AmountField.expenseAmount.validate demoUnicode (.str "99999999999.9999") =
      .ok "99999999999.9999" := by decide +kernel
  refine (stored_as_is_iff demoUnicode .expenseAmount _ _ h).2 ⟨999999999999999 * 10 ^ (-4 : ℤ), ?_, ?_⟩
  · exact ⟨⟨false, 999999999999999, -4⟩, by decide +kernel, by norm_num [Triple.value, Triple.sign]⟩
  · norm_num [abs_of_pos]

/-- One more is refused by the column only. -/
theorem stored_as_is_fails : ¬ ∀ (U : Unicode) (field : MoneyText.AmountField) (input : MoneyInput) (t : String),
    field.validate U input = .ok t → ∃ q x, StoredAsIs U field t q x := by
  intro hall
  have h : MoneyText.AmountField.ledgerLine.validate demoUnicode (.str "100000000000") =
      .ok "100000000000" := by decide +kernel
  have hdenotes : Denotes demoUnicode "100000000000" (10 ^ 11) :=
    ⟨⟨false, 100000000000, 0⟩, by decide +kernel, by norm_num [Triple.value, Triple.sign]⟩
  obtain ⟨q, x, hx⟩ := hall _ _ _ _ h
  obtain rfl := hdenotes.unique hx.denotes
  have hnone : (Numeric.ofRat? (10 ^ 11) : Option Money) = none := by decide +kernel
  cases hnone.symm.trans hx.stored

end ReckonFlow
