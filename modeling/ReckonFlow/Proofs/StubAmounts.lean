import ReckonFlow.Proofs.StubTokens

/-! The amounts of the stub extractor: which printed amounts it reads as they are meant. -/

namespace ReckonFlow.StubExtractor

open Decimal Text Regex Regex.Pattern

variable {T : Tables}

/-! ## Scanning a line -/

/-- A token begins with a digit, or with a minus and a digit. -/
theorem fails_amount {b cs : List Char} {c : Char} (hc : T.isDecimal c = false)
    (hnext : c = '-' → ∀ d ∈ cs.head?, T.isDecimal d = false) : Fails (amountRe T) b (c :: cs) := by
  refine fails_of_not_matches fun t u htu ht => ?_
  obtain ⟨sign, d, ds, rfl, hsign, hd⟩ := (token_of_matches ht).starts
  rcases hsign with rfl | rfl
  · obtain rfl : c = d := (List.cons.inj htu).1
    rw [hc] at hd
    cases hd
  · obtain ⟨rfl, rfl⟩ := List.cons.inj htu
    rw [hnext rfl d rfl] at hd
    cases hd

theorem scans_skip {b l rest : List Char} {ps : List (Piece Char)} (hl : ∀ c ∈ l, T.isDecimal c = false)
    (hlast : ∀ c ∈ l.getLast?, c = '-' → ∀ d ∈ rest.head?, T.isDecimal d = false)
    (h : Scans (amountRe T) (l.reverse ++ b) rest ps) :
    Scans (amountRe T) b (l ++ rest) (l.map .skip ++ ps) := by
  refine Scans.skips ?_ h
  rintro u c v rfl
  refine fails_amount (hl c (by simp)) fun hminus => ?_
  cases v with
  | nil => exact hlast c (by simp) hminus
  | cons d v =>
    intro d' hd'
    obtain rfl : d = d' := Option.some.inj hd'
    exact hl d (by simp)

theorem scans_rest {b rest : List Char} (hrest : ∀ c ∈ rest, T.isDecimal c = false) :
    Scans (amountRe T) b rest (rest.map .skip) := by
  have hdone : Scans (amountRe T) (rest.reverse ++ b) [] [] := by
    refine .done (fails_of_not_matches fun t u htu ht => ?_)
    obtain rfl := (List.append_eq_nil_iff.1 htu.symm).1
    exact not_matches_nil ht
  have h := scans_skip hrest (by rintro c - - d ⟨⟩) hdone
  rwa [List.append_nil, List.append_nil] at h

theorem first_sign {b rest : List Char} (h : rest.head? ≠ some '-') : First (opt (char '-')) b [] rest := by
  refine .opt_none (Fails.one fun c hc => decide_eq_false ?_)
  rintro rfl
  exact h hc

/-- A group or the decimals begin with a separator and a digit. -/
theorem fails_separated {b rest : List Char} {seps : List Char} {r : Pattern Char}
    (hr : ∀ t, Matches r t → ∃ d ds, t = d :: ds ∧ T.isDecimal d = true)
    (hrest : ∀ c d ds, rest = c :: d :: ds → c ∈ seps → T.isDecimal d = false) :
    Fails (seq (oneOf seps) r) b rest := by
  refine fails_of_not_matches fun t u htu ht => ?_
  obtain ⟨v, w, rfl, ⟨c, rfl, hc⟩, hw⟩ := ht
  obtain ⟨d, ds, rfl, hd⟩ := hr w hw
  rw [hrest c d (ds ++ u) (by rw [htu]; simp) (of_decide_eq_true hc)] at hd
  cases hd

theorem starts_of_times {t : List Char} (h : Matches (times 3 (decimalDigit T)) t) :
    ∃ d ds, t = d :: ds ∧ T.isDecimal d = true := by
  obtain ⟨hlen, hall⟩ := matches_times.1 h
  obtain ⟨d, ds, rfl⟩ := List.exists_cons_of_length_eq_add_one hlen
  exact ⟨d, ds, rfl, hall d (List.mem_cons_self ..)⟩

theorem starts_of_between {t : List Char} (h : Matches (between 1 2 (decimalDigit T)) t) :
    ∃ d ds, t = d :: ds ∧ T.isDecimal d = true := by
  obtain ⟨hlo, -, hall⟩ := matches_between (by norm_num) h
  obtain ⟨d, ds, rfl⟩ := List.exists_cons_of_length_pos hlo
  exact ⟨d, ds, rfl, hall d (List.mem_cons_self ..)⟩

theorem first_thousands {b rest : List Char} {groups : List (List Char)} {sep : Char}
    (hsep : sep ∈ [' ', '.', ',']) (hgroups : ∀ g ∈ groups, g.length = 3 ∧ ∀ c ∈ g, T.isDecimal c = true)
    (hstop : ∀ b, Fails (seq (oneOf [' ', '.', ',']) (times 3 (decimalDigit T))) b rest) :
    First (thousands T) b (groups.flatMap (sep :: ·)) rest := by
  have hne : ¬ Matches (seq (oneOf [' ', '.', ',']) (times 3 (decimalDigit T))) [] := by
    rintro ⟨u, v, hnil, ⟨c, rfl, -⟩, -⟩
    simp at hnil
  induction groups generalizing b with
  | nil => exact .star_none (hstop b)
  | cons g groups ih =>
    obtain ⟨⟨hlen, hg⟩, hgroups⟩ := List.forall_mem_cons.1 hgroups
    have hfirst : First (oneOf [' ', '.', ',']) b [sep] (g ++ (groups.flatMap (sep :: ·) ++ rest)) :=
      .one (decide_eq_true hsep)
    have hdigits : First (times 3 (decimalDigit T)) ([sep].reverse ++ b) g
        (groups.flatMap (sep :: ·) ++ rest) := hlen ▸ First.times hg
    exact First.star_some hne (hfirst.seq hdigits) (ih hgroups)

/-- The first alternative takes one to three digits, the groups behind them and the decimals. -/
theorem first_amount (sep : Char) (groups : List (List Char)) {b head frac rest : List Char}
    (hone : 1 ≤ head.length) (hthree : head.length ≤ 3) (hhead : ∀ c ∈ head, T.isDecimal c = true)
    (hend : head.length = 3 ∨
      ∀ c ∈ (groups.flatMap (sep :: ·) ++ (frac ++ rest)).head?, T.isDecimal c = false)
    (hsep : sep ∈ [' ', '.', ',']) (hgroups : ∀ g ∈ groups, g.length = 3 ∧ ∀ c ∈ g, T.isDecimal c = true)
    (hstop : ∀ b, Fails (seq (oneOf [' ', '.', ',']) (times 3 (decimalDigit T))) b (frac ++ rest))
    (hfrac : ∀ b, First (decimals T) b frac rest) :
    First (amountRe T) b (head ++ (groups.flatMap (sep :: ·) ++ frac)) rest := by
  have hminus : (head ++ (groups.flatMap (sep :: ·) ++ frac) ++ rest).head? ≠ some '-' := by
    obtain ⟨d, ds, rfl⟩ := List.exists_cons_of_length_pos hone
    rintro ⟨⟩
    exact ne_of_isDecimal (hhead '-' (List.mem_cons_self ..)) (by decide) rfl
  have hwhole : First (between 1 3 (decimalDigit T)) b head (groups.flatMap (sep :: ·) ++ frac ++ rest) :=
    .between hone hthree hhead (by rwa [List.append_assoc])
  have htail : First (seq (thousands T) (decimals T)) (head.reverse ++ b)
      (groups.flatMap (sep :: ·) ++ frac) rest := (first_thousands hsep hgroups hstop).seq (hfrac _)
  exact .alt_left ((first_sign hminus).seq (hwhole.seq htail))

/-! ## One printed amount -/

/-- A label, blanks, an amount without sign, and a rest; the amount has the only digits. -/
structure Entry (T : Tables) where
  label : List Char
  blanks : ℕ
  amount : Printed
  rest : List Char
  label_digits : ∀ c ∈ label, T.isDecimal c = false
  two : 2 ≤ blanks
  unsigned : amount.negative = false
  printed : amount.style = .plain ∧ (amount.fraction.length = 0 ∨ amount.fraction.length = 2) ∨
    (amount.style = .commaDot ∨ amount.style = .dotComma) ∧ amount.fraction.length = 2
  rest_digits : ∀ c ∈ rest, T.isDecimal c = false

namespace Entry

variable (e : Entry T)

def lead : List Char := e.label ++ List.replicate e.blanks ' '

def line : String := String.ofList (e.lead ++ (e.amount.chars ++ e.rest))

/-- The decimals behind their point. -/
def decimals : List Char :=
  if e.amount.fraction = [] then [] else e.amount.style.point :: e.amount.fraction

theorem chars_eq : e.amount.chars = e.amount.style.whole e.amount.wholeDigits ++ e.decimals := by
  unfold Printed.chars Printed.sign decimals
  rw [e.unsigned]
  rfl

theorem lead_digits : ∀ c ∈ e.lead, T.isDecimal c = false := by
  intro c hc
  rcases List.mem_append.1 hc with hc | hc
  · exact e.label_digits c hc
  · rw [List.eq_of_mem_replicate hc]
    exact not_isDecimal (by decide)

theorem length_fraction : e.amount.fraction.length = 0 ∨ e.amount.fraction.length = 2 :=
  e.printed.elim (·.2) fun h => .inr h.2

theorem isDecimal_fraction : ∀ c ∈ e.amount.fraction, T.isDecimal c = true := isDecimal_all e.amount.digits

theorem rest_head : ∀ c ∈ e.rest.head?, T.isDecimal c = false := fun c hc =>
  e.rest_digits c (List.mem_of_mem_head? hc)

/-- Behind the whole part nothing is taken for a group. -/
theorem stop (b : List Char) :
    Fails (seq (oneOf [' ', '.', ',']) (times 3 (decimalDigit T))) b (e.decimals ++ e.rest) := by
  unfold decimals
  split_ifs with hnil
  · refine fails_separated (fun t => starts_of_times) fun c d ds hrest _ => ?_
    exact e.rest_digits d (by rw [List.nil_append] at hrest; simp [hrest])
  · obtain ⟨f, g, hf⟩ := List.length_eq_two.1 (e.length_fraction.resolve_left (by simpa using hnil))
    refine fails_of_not_matches fun t u htu ht => ?_
    obtain ⟨v, w, rfl, ⟨c, rfl, -⟩, hw⟩ := ht
    obtain ⟨hlen, hall⟩ := matches_times.1 hw
    obtain ⟨x, y, z, rfl⟩ := List.length_eq_three.1 hlen
    rw [hf] at htu
    obtain ⟨-, rfl, rfl, hrest⟩ : e.amount.style.point = c ∧ f = x ∧ g = y ∧ e.rest = z :: u := by
      simpa using htu
    have hz := e.rest_digits z (by simp [hrest])
    rw [hall z (by simp)] at hz
    cases hz

theorem first_decimals (b : List Char) : First (StubExtractor.decimals T) b e.decimals e.rest := by
  unfold decimals
  split_ifs with hnil
  · refine .opt_none (fails_separated (fun t => starts_of_between) fun c d ds hrest _ => ?_)
    exact e.rest_digits d (by simp [hrest])
  · have hlen := e.length_fraction.resolve_left (by simpa using hnil)
    have hpoint : e.amount.style.point ∈ ['.', ','] := by
      cases e.amount.style <;> decide
    have hsep : First (oneOf ['.', ',']) b [e.amount.style.point] (e.amount.fraction ++ e.rest) :=
      .one (decide_eq_true hpoint)
    exact .opt_some (hsep.seq (.between (by omega) (by omega) e.isDecimal_fraction (.inl hlen)))

theorem decimals_head : ∀ c ∈ (e.decimals ++ e.rest).head?, T.isDecimal c = false := by
  unfold decimals
  split_ifs with hnil
  · exact e.rest_head
  · rintro c ⟨⟩
    have hpoint : e.amount.style.point.toNat < 128 ∧ e.amount.style.point.isDigit = false := by
      cases e.amount.style <;> decide
    exact not_isDecimal hpoint

/-- Digits without separators are cut from the left into tokens of three; the last has the decimals. -/
theorem scans_plain {digits : List Char} (hne : digits ≠ []) (hdigits : ∀ c ∈ digits, T.isDecimal c = true)
    (b : List Char) : ∃ (tokens : List (List Char)) (last : List Char), digits = tokens.flatten ++ last ∧
      last ≠ [] ∧ last.length ≤ 3 ∧ (digits.length ≤ 3 → last = digits) ∧
      Scans (amountRe T) b (digits ++ (e.decimals ++ e.rest))
        (tokens.map .token ++ .token (last ++ e.decimals) :: e.rest.map .skip) := by
  induction hn : digits.length using Nat.strong_induction_on generalizing digits b with
  | _ n ih =>
    subst hn
    have hpos : 1 ≤ digits.length := List.length_pos_iff.2 hne
    rcases le_or_gt digits.length 3 with hle | hlong
    · have hfirst : First (amountRe T) b (digits ++ e.decimals) e.rest :=
        first_amount ' ' [] hpos hle hdigits (.inr e.decimals_head) (by decide) (by simp)
          e.stop e.first_decimals
      refine ⟨[], digits, rfl, hne, hle, fun _ => rfl, ?_⟩
      rw [← List.append_assoc]
      exact .token hfirst (scans_rest e.rest_digits)
    · have htake : (digits.take 3).length = 3 := by
        rw [List.length_take]
        omega
      have hdrop : digits.drop 3 ≠ [] := by
        rw [ne_eq, List.drop_eq_nil_iff]
        omega
      have hmore : ∀ c ∈ digits.drop 3, T.isDecimal c = true := fun c hc =>
        hdigits c (List.mem_of_mem_drop hc)
      obtain ⟨d, ds, hds⟩ := List.exists_cons_of_ne_nil hdrop
      have hd : T.isDecimal d = true := hmore d (by simp [hds])
      have hnext : ∀ seps : List Char, seps ⊆ [' ', '.', ','] → ∀ {r : Pattern Char} {b},
          Fails (seq (oneOf seps) r) b (digits.drop 3 ++ (e.decimals ++ e.rest)) := by
        intro seps hseps r b
        refine .seq_left (Fails.one fun c hc => decide_eq_false fun hmem => ?_)
        rw [hds] at hc
        obtain rfl : d = c := Option.some.inj hc
        have hsep := hseps hmem
        simp only [List.mem_cons, List.not_mem_nil, or_false] at hsep
        rcases hsep with rfl | rfl | rfl
        · exact ne_of_isDecimal hd (by decide) rfl
        · exact ne_of_isDecimal hd (by decide) rfl
        · exact ne_of_isDecimal hd (by decide) rfl
      have hfirst : First (amountRe T) b (digits.take 3 ++ ([] ++ []))
          (digits.drop 3 ++ (e.decimals ++ e.rest)) :=
        first_amount ' ' [] (by omega) htake.le
          (fun c hc => hdigits c (List.mem_of_mem_take hc)) (.inl htake) (by decide) (by simp)
          (fun b => hnext _ (by simp)) (fun b => .opt_none (hnext _ (by simp)))
      obtain ⟨tokens, last, hsplit, hlast, hthree, -, hscans⟩ :=
        ih (digits.drop 3).length (by rw [List.length_drop]; omega) hdrop hmore
          ((digits.take 3).reverse ++ b) rfl
      refine ⟨digits.take 3 :: tokens, last, ?_, hlast, hthree, fun h => by omega, ?_⟩
      · rw [List.flatten_cons, List.append_assoc, ← hsplit, List.take_append_drop]
      · rw [List.append_nil, List.append_nil] at hfirst
        have h := Scans.token hfirst hscans
        rwa [← List.append_assoc, List.take_append_drop] at h

/-- Grouped digits are one token. -/
theorem scans_grouped {sep : Char} (hsep : sep = '.' ∨ sep = ',') {digits : List Char} (hne : digits ≠ [])
    (hdigits : ∀ c ∈ digits, T.isDecimal c = true) (b : List Char) :
    Scans (amountRe T) b (Groups.grouped sep digits ++ (e.decimals ++ e.rest))
      (.token (Groups.grouped sep digits ++ e.decimals) :: e.rest.map .skip) := by
  obtain ⟨head, groups, hsplit, hgrouped⟩ := Groups.exists_split sep hne
  rw [hsplit.digits] at hdigits
  have hgroups : ∀ g ∈ groups, g.length = 3 ∧ ∀ c ∈ g, T.isDecimal c = true := fun g hg =>
    ⟨hsplit.three g hg, fun c hc => hdigits c (List.mem_append_right _ (List.mem_flatten.2 ⟨g, hg, hc⟩))⟩
  have hend : ∀ c ∈ (groups.flatMap (sep :: ·) ++ (e.decimals ++ e.rest)).head?, T.isDecimal c = false := by
    cases groups with
    | nil => exact e.decimals_head
    | cons g groups =>
      rintro c ⟨⟩
      rcases hsep with rfl | rfl
      · exact not_isDecimal (by decide)
      · exact not_isDecimal (by decide)
  have hmem : sep ∈ [' ', '.', ','] := by
    rcases hsep with rfl | rfl
    · decide
    · decide
  have hfirst : First (amountRe T) b (head ++ (groups.flatMap (sep :: ·) ++ e.decimals)) e.rest :=
    first_amount sep groups (List.length_pos_iff.2 hsplit.ne) hsplit.head
      (fun c hc => hdigits c (List.mem_append_left _ hc)) (.inr hend) hmem hgroups e.stop e.first_decimals
  have h := Scans.token hfirst (scans_rest e.rest_digits)
  rw [hgrouped]
  simpa only [List.append_assoc] using h

/-- The label and the blanks are passed over. -/
theorem findall_line {tokens : List (List Char)} {last : List Char}
    (h : Scans (amountRe T) (e.lead.reverse ++ []) (e.amount.chars ++ e.rest)
      (tokens.map .token ++ .token last :: e.rest.map .skip)) :
    findall (amountRe T) e.line.toList = tokens ++ [last] := by
  have hlast : e.lead.getLast? = some ' ' := by
    obtain ⟨n, hn⟩ : ∃ n, e.blanks = n + 1 := ⟨e.blanks - 1, by have := e.two; omega⟩
    rw [lead, hn, List.replicate_succ', ← List.append_assoc, List.getLast?_concat]
  have hscans := scans_skip e.lead_digits (by rw [hlast]; rintro c ⟨⟩ ⟨⟩) h
  rw [findall, line, String.toList_ofList, hscans.pieces_eq not_matches_nil, List.filterMap_append,
    List.filterMap_append, token?_map_skip, token?_map_token, List.filterMap_cons, token?_map_skip]
  rfl

end Entry

/-! ## The amount on a line -/

/-- Without blanks only the separators are normalised. -/
theorem normalizeAmount_of {l : List Char} (h : ∀ c ∈ l, IsAmountChar T c ∨ c = ',') :
    normalizeAmount (String.ofList l) = String.ofList (separate l) := by
  have hspace : ∀ c ∈ l, isSpace c = false := by
    intro c hc
    rcases h c hc with hamount | rfl
    · exact not_isSpace_of_amountChar hamount
    · rfl
  rw [normalizeAmount_eq, strip_of_forall (by rwa [String.toList_ofList]), String.toList_ofList,
    bare_of_forall hspace]

/-- The last token counts if it reads as a number. -/
theorem amountOnLine_of_findall {line : String} {tokens : List (List Char)} {last : List Char} {n : Number}
    (hfind : findall (amountRe T) line.toList = tokens ++ [last])
    (hn : MoneyText.decimal T.toUnicode (normalizeAmount (String.ofList last)) = some n)
    (hdigit : ∃ c ∈ (normalizeAmount (String.ofList last)).toList, T.isDecimal c = true) :
    amountOnLine T line = some (normalizeAmount (String.ofList last)) := by
  obtain ⟨c, hc, hdecimal⟩ := hdigit
  have hany : (normalizeAmount (String.ofList last)).toList.any T.isdigit = true :=
    List.any_eq_true.2 ⟨c, hc, T.digit_isdigit c hdecimal⟩
  have hread : readToken T last = some (normalizeAmount (String.ofList last)) := by
    unfold readToken
    simp only [hn, hany, if_true]
  unfold amountOnLine
  rw [hfind, List.reverse_append, List.reverse_singleton, List.singleton_append, List.findSome?_cons, hread]

theorem decimal_digits {whole fraction : List Char} (hne : whole ≠ [])
    (hdigits : ∀ c ∈ whole ++ fraction, c.isDigit = true) :
    MoneyText.decimal T.toUnicode (String.ofList (whole ++ Triple.pointed fraction)) =
      some (.finite ⟨false, numberOf (whole ++ fraction), -(fraction.length : ℤ)⟩) := by
  have hplain : Triple.Plain fraction.length (String.ofList (whole ++ Triple.pointed fraction)).toList :=
    ⟨[], whole, fraction, String.toList_ofList, .inl rfl, hne, hdigits, rfl⟩
  have hascii : numericAsAscii T.toUnicode (String.ofList (whole ++ Triple.pointed fraction)) =
      [] ++ whole ++ Triple.pointed fraction := by
    rw [numericAsAscii_of_plain (plainChar_of_plain hplain), String.toList_ofList, List.nil_append]
  exact decimal_of_plain hascii (.inl rfl) hne hdigits

theorem numberOf_append_lt {digits : List Char} (hdigits : ∀ c ∈ digits, c.isDigit = true) (n : ℕ) :
    Nat.ofDigitChars 10 digits n < 10 ^ digits.length * (n + 1) := by
  induction digits generalizing n with
  | nil => simp
  | cons c digits ih =>
    obtain ⟨hc, hdigits⟩ := List.forall_mem_cons.1 hdigits
    have hd : c.toNat - '0'.toNat ≤ 9 := by
      simp only [Char.isDigit, Bool.and_eq_true, decide_eq_true_eq, UInt32.le_iff_toNat_le] at hc
      have h9 : '9'.val.toNat = 57 := rfl
      have h0 : '0'.toNat = 48 := rfl
      have hval : c.toNat = c.val.toNat := rfl
      omega
    rw [Nat.ofDigitChars_cons, List.length_cons, pow_succ, mul_assoc]
    refine (ih hdigits _).trans_le (Nat.mul_le_mul_left _ ?_)
    omega

namespace Entry

variable (e : Entry T)

theorem value_eq : e.amount.value =
    numberOf (e.amount.wholeDigits ++ e.amount.fraction) / 10 ^ e.amount.fraction.length := by
  unfold Printed.value
  rw [e.unsigned]
  simp

theorem number_eq : numberOf (e.amount.wholeDigits ++ e.amount.fraction) =
    10 ^ e.amount.fraction.length * e.amount.whole + numberOf e.amount.fraction := by
  rw [numberOf_eq, numberOf_eq, Nat.ofDigitChars_append, Printed.wholeDigits, Nat.ofDigitChars_ten_toDigits,
    Nat.ofDigitChars_eq_ofDigitChars_zero]

/-- The last token decides, by the digits it has. -/
theorem read_iff (tokens : List (List Char)) {last digits : List Char}
    (hscans : Scans (amountRe T) (e.lead.reverse ++ []) (e.amount.chars ++ e.rest)
      (tokens.map .token ++ .token last :: e.rest.map .skip))
    (hnormal : normalizeAmount (String.ofList last) =
      String.ofList (digits ++ Triple.pointed e.amount.fraction))
    (hne : digits ≠ []) (hdigits : ∀ c ∈ digits, c.isDigit = true) :
    (∃ t, amountOnLine T e.line = some t ∧ Denotes T.toUnicode t e.amount.value) ↔
      numberOf (digits ++ e.amount.fraction) = numberOf (e.amount.wholeDigits ++ e.amount.fraction) := by
  have hall : ∀ c ∈ digits ++ e.amount.fraction, c.isDigit = true := by
    intro c hc
    rcases List.mem_append.1 hc with hc | hc
    · exact hdigits c hc
    · exact e.amount.digits c hc
  have hdecimal := decimal_digits (T := T) hne hall
  rw [← hnormal] at hdecimal
  have hread : amountOnLine T e.line = some (normalizeAmount (String.ofList last)) := by
    refine amountOnLine_of_findall (e.findall_line hscans) hdecimal ?_
    obtain ⟨d, ds, rfl⟩ := List.exists_cons_of_ne_nil hne
    rw [hnormal, String.toList_ofList]
    exact ⟨d, by simp, isDecimal_of_isDigit (hdigits d (List.mem_cons_self ..))⟩
  have hdenotes : Denotes T.toUnicode (normalizeAmount (String.ofList last))
      (numberOf (digits ++ e.amount.fraction) / 10 ^ e.amount.fraction.length) := by
    refine ⟨_, hdecimal, ?_⟩
    unfold Triple.value Triple.sign
    rw [zpow_neg, zpow_natCast, div_eq_mul_inv]
    simp
  have hpow : (10 : ℚ) ^ e.amount.fraction.length ≠ 0 := by positivity
  rw [e.value_eq]
  constructor
  · rintro ⟨t, ht, hvalue⟩
    rw [hread] at ht
    obtain rfl := Option.some.inj ht
    exact_mod_cast (div_left_inj' hpow).1 (hdenotes.unique hvalue)
  · intro heq
    exact ⟨_, hread, heq ▸ hdenotes⟩

/-- Digits and a decimal point are normal already. -/
theorem normalizeAmount_pointed {last : List Char} (hdigits : ∀ c ∈ last, c.isDigit = true) :
    normalizeAmount (String.ofList (last ++ Triple.pointed e.amount.fraction)) =
      String.ofList (last ++ Triple.pointed e.amount.fraction) := by
  have hpointed : ∀ c ∈ last ++ Triple.pointed e.amount.fraction, IsAmountChar T c := by
    intro c hc
    unfold Triple.pointed at hc
    rcases List.mem_append.1 hc with hc | hc
    · exact .inl (isDecimal_of_isDigit (hdigits c hc))
    · split_ifs at hc
      · cases hc
      · rcases List.mem_cons.1 hc with rfl | hc
        · exact .inr (.inr rfl)
        · exact .inl (e.isDecimal_fraction c hc)
  have hcomma : ',' ∉ last ++ Triple.pointed e.amount.fraction := by
    intro hmem
    rcases hpointed _ hmem with h | h | h
    · exact ne_of_isDecimal h (by decide) rfl
    · cases h
    · cases h
  rw [normalizeAmount_of fun c hc => .inl (hpointed c hc), separate_none hcomma]

/-- At most three digits before the point make less than a thousand. -/
theorem number_lt {last : List Char} (hdigits : ∀ c ∈ last, c.isDigit = true) (hthree : last.length ≤ 3) :
    numberOf (last ++ e.amount.fraction) < 10 ^ e.amount.fraction.length * 1000 := by
  have hfraction := numberOf_append_lt e.amount.digits (Nat.ofDigitChars 10 last 0)
  have hhead := numberOf_append_lt hdigits 0
  have hpow : 10 ^ last.length ≤ 1000 := Nat.pow_le_pow_right (by norm_num) hthree
  rw [numberOf_eq, Nat.ofDigitChars_append]
  exact hfraction.trans_le (Nat.mul_le_mul_left _ (by omega))

theorem read_plain_iff (hstyle : e.amount.style = .plain) :
    (∃ t, amountOnLine T e.line = some t ∧ Denotes T.toUnicode t e.amount.value) ↔ e.amount.whole < 1000 := by
  have hwhole := e.amount.isDigit_wholeDigits
  have hdecimals : e.decimals = Triple.pointed e.amount.fraction := by
    unfold decimals
    rw [hstyle]
    rfl
  obtain ⟨tokens, last, hsplit, hlast, hthree, hshort, hscans⟩ :=
    e.scans_plain e.amount.wholeDigits_ne_nil (isDecimal_all hwhole) (e.lead.reverse ++ [])
  rw [← List.append_assoc] at hscans
  have hchars : e.amount.chars = e.amount.wholeDigits ++ e.decimals := by
    rw [e.chars_eq, hstyle]
    rfl
  rw [← hchars] at hscans
  have hdigits : ∀ c ∈ last, c.isDigit = true := fun c hc =>
    hwhole c (by rw [hsplit]; exact List.mem_append_right _ hc)
  have hnormal : normalizeAmount (String.ofList (last ++ e.decimals)) =
      String.ofList (last ++ Triple.pointed e.amount.fraction) := by
    rw [hdecimals, e.normalizeAmount_pointed hdigits]
  rw [e.read_iff tokens hscans hnormal hlast hdigits, e.number_eq]
  have hlength : e.amount.wholeDigits.length ≤ 3 ↔ e.amount.whole < 1000 :=
    Nat.length_toDigits_le_iff (by norm_num) (by norm_num)
  constructor
  · intro heq
    by_contra hlarge
    have hlt := e.number_lt hdigits hthree
    have hge : 10 ^ e.amount.fraction.length * 1000 ≤ 10 ^ e.amount.fraction.length * e.amount.whole :=
      Nat.mul_le_mul_left _ (by omega)
    omega
  · intro hsmall
    rw [hshort (hlength.2 hsmall), ← e.number_eq]

/-- In a grouped style the whole amount is one token, and read. -/
theorem read_grouped (hstyle : e.amount.style = .commaDot ∨ e.amount.style = .dotComma) :
    ∃ t, amountOnLine T e.line = some t ∧ Denotes T.toUnicode t e.amount.value := by
  have hwhole := e.amount.isDigit_wholeDigits
  have hlen : e.amount.fraction.length = 2 := by
    rcases e.printed with h | h
    · rcases hstyle with hstyle | hstyle
      · cases h.1.symm.trans hstyle
      · cases h.1.symm.trans hstyle
    · exact h.2
  have hnil : e.amount.fraction ≠ [] := by
    rintro h
    simp [h] at hlen
  have hfraction : ∀ c : Char, c.isDigit = false → c ∉ e.amount.fraction := fun c hc hmem => by
    rw [e.amount.digits c hmem] at hc
    cases hc
  have hsep : ∀ sep : Char, sep = '.' ∨ sep = ',' → ∀ c ∈ Groups.grouped sep e.amount.wholeDigits ++
      e.amount.style.point :: e.amount.fraction, IsAmountChar T c ∨ c = ',' := by
    have hpoint : e.amount.style.point = '.' ∨ e.amount.style.point = ',' := by
      cases e.amount.style <;> decide
    intro sep hsep c hc
    rcases List.mem_append.1 hc with hc | hc
    · rcases Groups.mem_grouped hc with rfl | hc
      · exact hsep.imp (fun h => .inr (.inr h)) id
      · exact .inl (.inl (isDecimal_of_isDigit (hwhole c hc)))
    · rcases List.mem_cons.1 hc with rfl | hc
      · exact hpoint.imp (fun h => .inr (.inr h)) id
      · exact .inl (.inl (e.isDecimal_fraction c hc))
  have hbare : ∀ sep : Char, sep.isDigit = false →
      (Groups.grouped sep e.amount.wholeDigits).filter (· ≠ sep) = e.amount.wholeDigits := fun sep hsep =>
    Groups.filter_grouped fun c hc => ne_of_isDigit (hwhole c hc) hsep
  have hdecimals : e.decimals = e.amount.style.point :: e.amount.fraction := if_neg hnil
  have hpointed : Triple.pointed e.amount.fraction = '.' :: e.amount.fraction := if_neg hnil
  have hall := isDecimal_all (T := T) hwhole
  rcases hstyle with hstyle | hstyle
  · have hscans := e.scans_grouped (.inr rfl) e.amount.wholeDigits_ne_nil hall (e.lead.reverse ++ [])
    have hchars : e.amount.chars = Groups.grouped ',' e.amount.wholeDigits ++ e.decimals := by
      rw [e.chars_eq, hstyle]
      rfl
    rw [← List.append_assoc, ← hchars] at hscans
    refine (e.read_iff [] hscans ?_ e.amount.wholeDigits_ne_nil hwhole).2 rfl
    rw [hchars, hdecimals, normalizeAmount_of (hsep ',' (.inr rfl)), hstyle, hpointed]
    exact congrArg _ ((separate_point (hfraction _ rfl) (hfraction _ rfl)).trans (by rw [hbare ',' rfl]))
  · have hscans := e.scans_grouped (.inl rfl) e.amount.wholeDigits_ne_nil hall (e.lead.reverse ++ [])
    have hchars : e.amount.chars = Groups.grouped '.' e.amount.wholeDigits ++ e.decimals := by
      rw [e.chars_eq, hstyle]
      rfl
    have hnone : ',' ∉ e.amount.wholeDigits := fun hmem => by cases hwhole _ hmem
    rw [← List.append_assoc, ← hchars] at hscans
    refine (e.read_iff [] hscans ?_ e.amount.wholeDigits_ne_nil hwhole).2 rfl
    rw [hchars, hdecimals, normalizeAmount_of (hsep '.' (.inl rfl)), hstyle, hpointed]
    exact congrArg _ ((separate_comma (hfraction _ rfl) (hfraction _ rfl) (.inr hlen.le)).trans
      (by rw [hbare '.' rfl, map_toPoint hnone]))

end Entry

/-- A printed amount is read as it is meant, unless it has more than three digits before the point
and no separators between them. -/
theorem printed_amount_iff (T : Tables) (e : Entry T) :
    (∃ t, amountOnLine T e.line = some t ∧ Denotes T.toUnicode t e.amount.value) ↔
      (e.amount.style = .plain → e.amount.whole < 1000) := by
  rcases e.printed with ⟨hstyle, -⟩ | ⟨hstyle, -⟩
  · rw [e.read_plain_iff hstyle]
    exact ⟨fun h _ => h, fun h => h hstyle⟩
  · refine iff_of_true (e.read_grouped hstyle) fun hplain => ?_
    rw [hplain] at hstyle
    rcases hstyle with h | h
    · cases h
    · cases h

def demoTables : Tables where
  toUnicode := demoUnicode
  isWord c := c.isAlphanum || c = '_'
  isdigit := Char.isDigit
  digit_isdigit := by
    intro c hc
    have h : (if c.isDigit then some (c.toNat - 48) else none).isSome = true := hc
    split_ifs at h with hd
    · exact hd
    · cases h
  digit_not_space := by
    intro c hc
    have h : (if c.isDigit then some (c.toNat - 48) else none).isSome = true := hc
    split_ifs at h with hd
    · exact isSpace_of_isDigit hd
    · cases h

/-- `Total  1234.56` -/
def demoEntry : Entry demoTables where
  label := "Total".toList
  blanks := 2
  amount := ⟨.plain, false, 1234, ['5', '6'], by simp⟩
  rest := []
  label_digits c hc := by
    have hall : ("Total".toList.all fun c => !demoTables.isDecimal c) = true := by decide +kernel
    simpa using List.all_eq_true.1 hall c hc
  two := le_rfl
  unsigned := rfl
  printed := .inl ⟨rfl, .inr rfl⟩
  rest_digits := by simp

/-- The last token is `4.56`. -/
theorem printed_amount_fails : ¬ ∀ (T : Tables) (e : Entry T),
    ∃ t, amountOnLine T e.line = some t ∧ Denotes T.toUnicode t e.amount.value := by
  intro hall
  obtain ⟨t, ht, hvalue⟩ := hall demoTables demoEntry
  have hread : amountOnLine demoTables demoEntry.line = some "4.56" := by decide +kernel
  rw [hread] at ht
  obtain rfl := Option.some.inj ht
  have hdenotes : Denotes demoUnicode "4.56" (Triple.value ⟨false, 456, -2⟩) := ⟨_, by decide +kernel, rfl⟩
  have heq : Triple.value ⟨false, 456, -2⟩ = demoEntry.amount.value := hdenotes.unique hvalue
  norm_num [Triple.value, Triple.sign, Printed.value, Printed.wholeDigits, demoEntry] at heq
  exact absurd heq (by decide +kernel)

end ReckonFlow.StubExtractor
