import ReckonFlow.Proofs.MoneyText

/-! The date layouts of a bank CSV: which dates `parse_date` reads back as they were written. -/

namespace ReckonFlow

open Text

variable {U : Unicode} {year month day : ℕ}

/-! ## Ordinals -/

/-- Days before the first of January. -/
def daysBeforeYear (year : ℕ) : ℤ :=
  (year - 1 : ℤ) * 365 + (year - 1 : ℤ) / 4 - (year - 1 : ℤ) / 100 + (year - 1 : ℤ) / 400

def daysBeforeMonth (year month : ℕ) : ℕ := ((List.range' 1 (month - 1)).map (daysInMonth year)).sum

theorem toOrdinal_eq (year month day : ℕ) :
    toOrdinal year month day = daysBeforeYear year + daysBeforeMonth year month + day := rfl

theorem daysInMonth_ge (year month : ℕ) : 28 ≤ daysInMonth year month := by
  unfold daysInMonth
  split_ifs <;> omega

theorem daysBeforeMonth_succ (year : ℕ) (h : 1 ≤ month) :
    daysBeforeMonth year (month + 1) = daysBeforeMonth year month + daysInMonth year month := by
  obtain ⟨m, rfl⟩ := Nat.exists_eq_add_of_le h
  have hrange : List.range' 1 (1 + m) = List.range' 1 m ++ [1 + m] := by
    rw [Nat.add_comm 1 m, List.range'_concat, Nat.one_mul, Nat.add_comm m 1]
  unfold daysBeforeMonth
  rw [Nat.add_sub_cancel, Nat.add_sub_cancel_left, hrange, List.map_append, List.sum_append]
  simp

/-- A later month begins after the days of an earlier one. -/
theorem daysBeforeMonth_le {month' : ℕ} (year : ℕ) (h : 1 ≤ month) (hlt : month < month') :
    daysBeforeMonth year month + daysInMonth year month ≤ daysBeforeMonth year month' := by
  induction month', hlt using Nat.le_induction with
  | base => exact (daysBeforeMonth_succ year h).ge
  | succ m hm ih =>
    rw [daysBeforeMonth_succ year (by omega)]
    omega

theorem daysBeforeYear_succ (year : ℕ) :
    daysBeforeYear (year + 1) = daysBeforeYear year + 365 + if isLeap year then 1 else 0 := by
  have hleap : isLeap year = true ↔ year % 4 = 0 ∧ (year % 100 ≠ 0 ∨ year % 400 = 0) := by
    simp [isLeap]
  unfold daysBeforeYear
  push_cast
  split_ifs with h
  · rw [hleap] at h
    omega
  · rw [hleap] at h
    omega

theorem daysBeforeMonth_year (year : ℕ) :
    daysBeforeMonth year 13 = 365 + if isLeap year then 1 else 0 := by
  have hrange : List.range' 1 12 = [1, 2, 3, 4, 5, 6, 7, 8, 9, 10, 11, 12] := rfl
  unfold daysBeforeMonth
  rw [hrange]
  cases h : isLeap year <;> simp [daysInMonth, h]

theorem daysBeforeYear_le (h : year ≤ 9999) : daysBeforeYear (year + 1) ≤ 3652059 := by
  unfold daysBeforeYear
  push_cast
  omega

theorem daysBeforeYear_nonneg (h : 1 ≤ year) : 0 ≤ daysBeforeYear year := by
  unfold daysBeforeYear
  omega

/-! ## Dates -/

/-- A day of the calendar. -/
structure CalendarDate where
  year : ℕ
  month : ℕ
  day : ℕ
  validYear : 1 ≤ year ∧ year ≤ 9999
  validMonth : 1 ≤ month ∧ month ≤ 12
  validDay : 1 ≤ day ∧ day ≤ daysInMonth year month

namespace CalendarDate

variable (c : CalendarDate)

theorem ordinal_valid : 1 ≤ toOrdinal c.year c.month c.day ∧ toOrdinal c.year c.month c.day ≤ 3652059 := by
  have hday := c.validDay
  have hyear := daysBeforeYear_nonneg c.validYear.1
  have hlast := daysBeforeYear_le c.validYear.2
  have hmonth := daysBeforeMonth_le c.year c.validMonth.1 (Nat.lt_succ_of_le c.validMonth.2)
  rw [daysBeforeMonth_year] at hmonth
  rw [daysBeforeYear_succ] at hlast
  rw [toOrdinal_eq]
  split_ifs at hlast hmonth
  · omega
  · omega

def date : Date := ⟨toOrdinal c.year c.month c.day, c.ordinal_valid⟩

theorem ofYmd : Date.ofYmd c.year c.month c.day = some c.date := by
  unfold Date.ofYmd
  rw [if_pos ⟨c.validYear.1, c.validYear.2, c.validMonth.1, c.validMonth.2, c.validDay.1, c.validDay.2⟩,
    dif_pos c.ordinal_valid]
  rfl

theorem day_le : c.day ≤ 31 := by
  refine c.validDay.2.trans ?_
  unfold daysInMonth
  split_ifs <;> omega

/-- The day and the month exchanged. -/
def exchanged (h : c.day ≤ 12) : CalendarDate where
  year := c.year
  month := c.day
  day := c.month
  validYear := c.validYear
  validMonth := ⟨c.validDay.1, h⟩
  validDay := ⟨c.validMonth.1, by
    have hmonth := c.validMonth.2
    have hdays := daysInMonth_ge c.year c.day
    omega⟩

theorem ordinal_lt {c c' : CalendarDate} (hyear : c.year = c'.year) (hmonth : c.month < c'.month) :
    c.date.ordinal < c'.date.ordinal := by
  have hdays := daysBeforeMonth_le c.year c.validMonth.1 hmonth
  have hday := c.validDay.2
  have hday' := c'.validDay.1
  show toOrdinal c.year c.month c.day < toOrdinal c'.year c'.month c'.day
  rw [toOrdinal_eq, toOrdinal_eq, ← hyear]
  omega

theorem exchanged_date (h : c.day ≤ 12) : (c.exchanged h).date = c.date ↔ c.day = c.month := by
  constructor
  · intro he
    by_contra hne
    rcases lt_or_gt_of_ne hne with hlt | hlt
    · have hless : (c.exchanged h).date.ordinal < c.date.ordinal := ordinal_lt rfl hlt
      exact hless.ne (congrArg Date.ordinal he)
    · have hless : c.date.ordinal < (c.exchanged h).date.ordinal := ordinal_lt rfl hlt
      exact hless.ne' (congrArg Date.ordinal he)
  · intro he
    simp only [date, exchanged, he]

end CalendarDate

/-! ## Writing -/

/-- The last `width` digits of a number. -/
def padded : ℕ → ℕ → List Char
  | 0, _ => []
  | width + 1, n => padded width (n / 10) ++ [Nat.digitChar (n % 10)]

def CalendarDate.write (c : CalendarDate) : Directive → List Char
  | .year => padded 4 c.year
  | .month => padded 2 c.month
  | .day => padded 2 c.day
  | .lit ch => [ch]

/-- A date in a layout, with four digits for the year and two for the month and the day. -/
def CalendarDate.written (c : CalendarDate) (layout : List Directive) : String :=
  String.ofList (layout.flatMap c.write)

/-- `%m/%d/%Y` -/
def monthFirst : List Directive := [.month, .lit '/', .day, .lit '/', .year]

/-! ## Matching -/

theorem digit_digitChar (U : Unicode) {n : ℕ} (h : n < 10) : U.digit (Nat.digitChar n) = some n := by
  interval_cases n <;> exact U.digit_ascii _ (by decide)

/-- What stands between the numbers of a layout. -/
def IsSeparator (s : Char) : Prop := s = '-' ∨ s = '/' ∨ s = '.'

theorem digit_separator (U : Unicode) {s : Char} (hs : IsSeparator s) : U.digit s = none := by
  rcases hs with rfl | rfl | rfl <;> exact U.digit_ascii _ (by decide)

theorem digitChar_ne {n : ℕ} (h : n < 10) {s : Char} (hs : IsSeparator s) : Nat.digitChar n ≠ s := by
  rcases hs with rfl | rfl | rfl <;> interval_cases n <;> decide

theorem month_matches (U : Unicode) {n : ℕ} (h : n ≤ 31) (cs : List Char) :
    (Directive.month.alternatives U).filterMap (matchClasses · 0 (padded 2 n ++ cs)) =
      (if 1 ≤ n ∧ n ≤ 12 then [(n, cs)] else []) ++
        if 10 ≤ n then [(n / 10, Nat.digitChar (n % 10) :: cs)] else [] := by
  interval_cases n <;> rfl

theorem day_matches (U : Unicode) {n : ℕ} (h : n ≤ 31) (cs : List Char) :
    (Directive.day.alternatives U).filterMap (matchClasses · 0 (padded 2 n ++ cs)) =
      (if 1 ≤ n then [(n, cs)] else []) ++
        if 10 ≤ n then [(n / 10, Nat.digitChar (n % 10) :: cs)] else [] := by
  -- on what is written any digit is one of the ASCII digits
  have hdigit : ∀ {d : ℕ}, d < 10 → U.digit (Nat.digitChar d) = digitRange '0' '9' (Nat.digitChar d) := by
    intro d hd
    rw [digit_digitChar U hd]
    interval_cases d <;> rfl
  have hten : matchClasses [digitRange '1' '2', U.digit] 0 (padded 2 n ++ cs) =
      matchClasses [digitRange '1' '2', digitRange '0' '9'] 0 (padded 2 n ++ cs) := by
    simp only [padded, List.nil_append, List.cons_append, matchClasses, hdigit (Nat.mod_lt n (by decide))]
  simp only [Directive.alternatives, List.filterMap_cons, hten]
  interval_cases n <;> rfl

theorem year_matches (U : Unicode) {n : ℕ} (h : n ≤ 9999) (cs : List Char) :
    (Directive.year.alternatives U).filterMap (matchClasses · 0 (padded 4 n ++ cs)) = [(n, cs)] := by
  have hdigit : ∀ k, U.digit (Nat.digitChar (k % 10)) = some (k % 10) := fun k =>
    digit_digitChar U (Nat.mod_lt k (by decide))
  have hvalue : (((0 * 10 + n / 10 / 10 / 10 % 10) * 10 + n / 10 / 10 % 10) * 10 + n / 10 % 10) * 10 +
      n % 10 = n := by
    omega
  simp only [Directive.alternatives, padded, List.nil_append, List.cons_append, List.filterMap_cons,
    List.filterMap_nil, matchClasses, hdigit, Option.bind_some, hvalue]

section Formats

variable {a b n : ℕ} {f : DateFields} {s x : Char} {ds : List Directive} {cs : List Char}

theorem matchFormat_cons (U : Unicode) (d : Directive) (cs : List Char) : matchFormat U (d :: ds) f cs =
    ((d.alternatives U).filterMap (matchClasses · 0 cs)).flatMap fun m => matchFormat U ds (f.store m.1 d) m.2 :=
  rfl

theorem matchFormat_lit (U : Unicode) :
    matchFormat U (.lit s :: ds) f (x :: cs) = if x = s then matchFormat U ds f cs else [] := by
  rw [matchFormat_cons]
  simp only [Directive.alternatives, List.filterMap_cons, List.filterMap_nil, matchClasses, exactly]
  split_ifs
  · exact List.append_nil _
  · rfl

/-- One digit of two is no match: a digit follows in place of the separator. -/
theorem matchFormat_cut (U : Unicode) (d : Directive) (n m : ℕ) (hs : IsSeparator s) :
    (if 10 ≤ n then [(m, Nat.digitChar (n % 10) :: cs)] else []).flatMap
      (fun p => matchFormat U (.lit s :: ds) (f.store p.1 d) p.2) = [] := by
  split_ifs
  · rw [List.flatMap_singleton, matchFormat_lit, if_neg (digitChar_ne (Nat.mod_lt n (by decide)) hs)]
  · rfl

theorem matchFormat_day (U : Unicode) (h : 1 ≤ n ∧ n ≤ 31) (hs : IsSeparator s) :
    matchFormat U (.day :: .lit s :: ds) f (padded 2 n ++ x :: cs) =
      if x = s then matchFormat U ds (f.store n .day) cs else [] := by
  rw [matchFormat_cons, day_matches U h.2, if_pos h.1, List.flatMap_append, matchFormat_cut U _ _ _ hs,
    List.append_nil, List.flatMap_singleton, matchFormat_lit]

theorem matchFormat_month (U : Unicode) (h : n ≤ 31) (hs : IsSeparator s) :
    matchFormat U (.month :: .lit s :: ds) f (padded 2 n ++ x :: cs) =
      if (1 ≤ n ∧ n ≤ 12) ∧ x = s then matchFormat U ds (f.store n .month) cs else [] := by
  rw [matchFormat_cons, month_matches U h, List.flatMap_append, matchFormat_cut U _ _ _ hs, List.append_nil]
  by_cases hn : 1 ≤ n ∧ n ≤ 12
  · rw [if_pos hn, List.flatMap_singleton, matchFormat_lit]
    simp only [hn, and_self, true_and]
  · rw [if_neg hn, if_neg fun h => hn h.1]
    rfl

theorem matchFormat_year (U : Unicode) (h : n ≤ 9999) :
    matchFormat U (.year :: ds) f (padded 4 n ++ cs) = matchFormat U ds (f.store n .year) cs := by
  rw [matchFormat_cons, year_matches U h, List.flatMap_singleton]

/-- A year has four digits. -/
theorem matchFormat_year_short (U : Unicode) (hx : IsSeparator x) :
    matchFormat U (.year :: ds) f (padded 2 n ++ x :: cs) = [] := by
  have hmatches : (Directive.year.alternatives U).filterMap (matchClasses · 0 (padded 2 n ++ x :: cs)) = [] := by
    have hdigit : ∀ k, U.digit (Nat.digitChar (k % 10)) = some (k % 10) := fun k =>
      digit_digitChar U (Nat.mod_lt k (by decide))
    simp only [Directive.alternatives, padded, List.nil_append, List.cons_append, List.filterMap_cons,
      List.filterMap_nil, matchClasses, hdigit, digit_separator U hx, Option.bind_some, Option.bind_none]
  rw [matchFormat_cons, hmatches]
  rfl

end Formats

/-! ## Reading back -/

namespace CalendarDate

variable (c : CalendarDate)

theorem day_first (U : Unicode) {s x : Char} (hs : IsSeparator s) :
    strptime U [.day, .lit s, .month, .lit s, .year]
      (String.ofList (padded 2 c.day ++ x :: (padded 2 c.month ++ x :: padded 4 c.year))) =
      if x = s then some c.date else none := by
  have hyear : matchFormat U [.year] ⟨1900, c.month, c.day⟩ (padded 4 c.year) =
      [(⟨c.year, c.month, c.day⟩, [])] := by
    rw [← List.append_nil (padded 4 c.year), matchFormat_year U c.validYear.2]
    rfl
  have hmonth : c.month ≤ 31 := c.validMonth.2.trans (by norm_num)
  unfold strptime
  rw [String.toList_ofList, matchFormat_day U ⟨c.validDay.1, c.day_le⟩ hs, matchFormat_month U hmonth hs]
  by_cases hx : x = s
  · simp only [hx, c.validMonth, and_self, if_true, DateFields.store, hyear, List.head?_cons]
    exact c.ofYmd
  · simp only [hx, if_false]
    rfl

theorem month_first (U : Unicode) :
    strptime U monthFirst (String.ofList
      (padded 2 c.month ++ '/' :: (padded 2 c.day ++ '/' :: padded 4 c.year))) = some c.date := by
  have hyear : matchFormat U [.year] ⟨1900, c.month, c.day⟩ (padded 4 c.year) =
      [(⟨c.year, c.month, c.day⟩, [])] := by
    rw [← List.append_nil (padded 4 c.year), matchFormat_year U c.validYear.2]
    rfl
  have hmonth : c.month ≤ 31 := c.validMonth.2.trans (by norm_num)
  have hslash : IsSeparator '/' := .inr (.inl rfl)
  unfold strptime monthFirst
  rw [String.toList_ofList, matchFormat_month U hmonth hslash, if_pos ⟨c.validMonth, rfl⟩,
    matchFormat_day U ⟨c.validDay.1, c.day_le⟩ hslash, if_pos rfl]
  simp only [DateFields.store, hyear, List.head?_cons]
  exact c.ofYmd

/-- Day and month go both ways up to twelve. -/
theorem day_first_of_month_first (U : Unicode) :
    strptime U [.day, .lit '/', .month, .lit '/', .year] (String.ofList
      (padded 2 c.month ++ '/' :: (padded 2 c.day ++ '/' :: padded 4 c.year))) =
      if h : c.day ≤ 12 then some (c.exchanged h).date else none := by
  have hslash : IsSeparator '/' := .inr (.inl rfl)
  split_ifs with h
  · exact ((c.exchanged h).day_first U hslash).trans (if_pos rfl)
  · have hmonth : c.month ≤ 31 := c.validMonth.2.trans (by norm_num)
    unfold strptime
    rw [String.toList_ofList, matchFormat_day U ⟨c.validMonth.1, hmonth⟩ hslash, if_pos rfl,
      matchFormat_month U c.day_le hslash, if_neg fun hn => h hn.1.2]
    rfl

theorem iso (U : Unicode) :
    strptime U [.year, .lit '-', .month, .lit '-', .day] (String.ofList
      (padded 4 c.year ++ '-' :: (padded 2 c.month ++ '-' :: padded 2 c.day))) = some c.date := by
  have hmonth : c.month ≤ 31 := c.validMonth.2.trans (by norm_num)
  have hday : (matchFormat U [.day] ⟨c.year, c.month, 1⟩ (padded 2 c.day)).head? =
      some (⟨c.year, c.month, c.day⟩, []) := by
    rw [← List.append_nil (padded 2 c.day), matchFormat_cons, day_matches U c.day_le, if_pos c.validDay.1]
    rfl
  unfold strptime
  rw [String.toList_ofList, matchFormat_year U c.validYear.2, matchFormat_lit, if_pos rfl,
    matchFormat_month U hmonth (.inl rfl), if_pos ⟨c.validMonth, rfl⟩]
  simp only [DateFields.store, hday]
  exact c.ofYmd

theorem iso_short (U : Unicode) {n : ℕ} {x : Char} (hx : IsSeparator x) (cs : List Char) :
    strptime U [.year, .lit '-', .month, .lit '-', .day] (String.ofList (padded 2 n ++ x :: cs)) = none := by
  unfold strptime
  rw [String.toList_ofList, matchFormat_year_short U hx]
  rfl

end CalendarDate

theorem not_isSpace_padded (width : ℕ) : ∀ n, ∀ x ∈ padded width n, isSpace x = false := by
  induction width with
  | zero => exact fun n x hx => absurd hx List.not_mem_nil
  | succ width ih =>
    intro n x hx
    rcases List.mem_append.1 hx with hx | hx
    · exact ih _ x hx
    · obtain rfl := List.mem_singleton.1 hx
      have hlt : n % 10 < 10 := Nat.mod_lt n (by decide)
      interval_cases n % 10 <;> rfl

/-- Nothing is stripped off a written date. -/
theorem CalendarDate.strip_written (c : CalendarDate) {layout : List Directive}
    (h : ∀ s, .lit s ∈ layout → isSpace s = false) : strip (c.written layout) = c.written layout := by
  refine strip_of_forall fun x hx => ?_
  rw [CalendarDate.written, String.toList_ofList] at hx
  obtain ⟨d, hd, hx⟩ := List.mem_flatMap.1 hx
  cases d with
  | year => exact not_isSpace_padded 4 _ x hx
  | month => exact not_isSpace_padded 2 _ x hx
  | day => exact not_isSpace_padded 2 _ x hx
  | lit s =>
    obtain rfl := List.mem_singleton.1 hx
    exact h x hd

namespace CalendarDate

variable (c : CalendarDate)

theorem parse_iso (U : Unicode) :
    parseDate U (c.written [.year, .lit '-', .month, .lit '-', .day]) = some c.date := by
  have hwritten : c.written [.year, .lit '-', .month, .lit '-', .day] = String.ofList
      (padded 4 c.year ++ '-' :: (padded 2 c.month ++ '-' :: padded 2 c.day)) := by
    simp [written, write]
  unfold parseDate dateFormats
  rw [c.strip_written (by simp [isSpace]), hwritten, List.findSome?_cons, c.iso U]

theorem parse_day_first (U : Unicode) {s : Char} (hs : s = '/' ∨ s = '.') :
    parseDate U (c.written [.day, .lit s, .month, .lit s, .year]) = some c.date := by
  have hsep : IsSeparator s := .inr hs
  have hspace : ∀ x, Directive.lit x ∈ [.day, .lit s, .month, .lit s, .year] → isSpace x = false := by
    rcases hs with rfl | rfl <;> simp [isSpace]
  have hwritten : c.written [.day, .lit s, .month, .lit s, .year] = String.ofList
      (padded 2 c.day ++ s :: (padded 2 c.month ++ s :: padded 4 c.year)) := by
    simp [written, write]
  unfold parseDate dateFormats
  rw [c.strip_written hspace, hwritten, List.findSome?_cons, iso_short U hsep, List.findSome?_cons,
    c.day_first U (.inr (.inl rfl))]
  rcases hs with rfl | rfl
  · rfl
  · rw [if_neg (by decide), List.findSome?_cons, c.day_first U hsep, if_pos rfl]

theorem parse_month_first (U : Unicode) :
    parseDate U (c.written monthFirst) = some (if h : c.day ≤ 12 then (c.exchanged h).date else c.date) := by
  have hslash : IsSeparator '/' := .inr (.inl rfl)
  have hwritten : c.written monthFirst = String.ofList
      (padded 2 c.month ++ '/' :: (padded 2 c.day ++ '/' :: padded 4 c.year)) := by
    simp [written, write, monthFirst]
  have hpoint : strptime U [.day, .lit '.', .month, .lit '.', .year] (String.ofList
      (padded 2 c.month ++ '/' :: (padded 2 c.day ++ '/' :: padded 4 c.year))) = none := by
    have hmonth : c.month ≤ 31 := c.validMonth.2.trans (by norm_num)
    unfold strptime
    rw [String.toList_ofList, matchFormat_day U ⟨c.validMonth.1, hmonth⟩ (.inr (.inr rfl)), if_neg (by decide)]
    rfl
  unfold parseDate dateFormats
  rw [c.strip_written (by simp [isSpace, monthFirst]), hwritten, List.findSome?_cons, iso_short U hslash,
    List.findSome?_cons, c.day_first_of_month_first U]
  split_ifs with h
  · rfl
  · have hlast := c.month_first U
    unfold monthFirst at hlast
    rw [List.findSome?_cons, hpoint, List.findSome?_cons, hlast]

end CalendarDate

/-- A date is read back from every layout but `%m/%d/%Y`, where the day and the month are exchanged up
to the twelfth. -/
theorem date_layouts (U : Unicode) (c : CalendarDate) :
    (∀ layout ∈ dateFormats, layout ≠ monthFirst → parseDate U (c.written layout) = some c.date) ∧
    parseDate U (c.written monthFirst) = some (if h : c.day ≤ 12 then (c.exchanged h).date else c.date) ∧
    (parseDate U (c.written monthFirst) = some c.date ↔ 12 < c.day ∨ c.day = c.month) := by
  refine ⟨?_, c.parse_month_first U, ?_⟩
  · intro layout hlayout hne
    simp only [dateFormats, List.mem_cons, List.not_mem_nil, or_false] at hlayout
    rcases hlayout with rfl | rfl | rfl | rfl
    · exact c.parse_iso U
    · exact c.parse_day_first U (.inl rfl)
    · exact c.parse_day_first U (.inr rfl)
    · exact absurd rfl hne
  · rw [c.parse_month_first U, Option.some_inj]
    split_ifs with h
    · rw [c.exchanged_date h]
      exact ⟨.inr, fun hday => hday.resolve_left (by omega)⟩
    · exact iff_of_true rfl (.inl (by omega))

/-- The fourth of March as `03/04/2026`. -/
theorem date_layouts_fail : ¬ ∀ (U : Unicode) (c : CalendarDate), ∀ layout ∈ dateFormats,
    parseDate U (c.written layout) = some c.date := by
  intro hall
  let march : CalendarDate := ⟨2026, 3, 4, by norm_num, by norm_num, by decide⟩
  have hread := (march.parse_month_first demoUnicode).symm.trans
    (hall demoUnicode march monthFirst (by simp [dateFormats, monthFirst]))
  have heq := (march.exchanged_date (by decide)).1 (Option.some.inj hread)
  exact absurd heq (by decide)

end ReckonFlow
