import ReckonFlow.Proofs.StubTokens

/-! The number a token of the stub extractor is read as, by its last separator: how many decimals it
has. -/

namespace ReckonFlow.StubExtractor

open Decimal Text

variable {T : Tables} {t before after : List Char} {sep : Char}

/-! ## Tokens by their last separator -/

def IsSep (c : Char) : Prop := c = '.' ∨ c = ','

theorem IsSep.not_isDecimal (h : IsSep sep) : T.isDecimal sep = false := by
  rcases h with rfl | rfl
  · exact StubExtractor.not_isDecimal (by decide)
  · exact StubExtractor.not_isDecimal (by decide)

/-- There are two separators. -/
theorem IsSep.eq_or {own other : Char} (hown : IsSep own) (hother : IsSep other) (hne : own ≠ other)
    (hsep : IsSep sep) : sep = own ∨ sep = other := by
  unfold IsSep at *
  rcases hown with rfl | rfl
  · rcases hother with rfl | rfl
    · exact absurd rfl hne
    · exact hsep
  · rcases hother with rfl | rfl
    · exact hsep.symm
    · exact absurd rfl hne

/-- An element that a list does not have lies behind it. -/
theorem append_cons_of_not_mem {l rest : List Char} (h : l ++ rest = before ++ sep :: after)
    (hsep : sep ∉ l) : ∃ between, before = l ++ between ∧ rest = between ++ sep :: after := by
  rcases List.append_eq_append_iff.1 h with ⟨between, rfl, hrest⟩ | ⟨l', rfl, hrest⟩
  · exact ⟨between, rfl, hrest⟩
  · cases l' with
    | nil => exact ⟨[], by simp, by simpa using hrest.symm⟩
    | cons c l' =>
      obtain rfl : sep = c := (List.cons.inj hrest).1
      exact absurd (by simp) hsep

theorem not_mem_digits {l : List Char} (hl : ∀ c ∈ l, T.isDecimal c = true) (hsep : T.isDecimal sep = false) :
    sep ∉ l := by
  intro hmem
  rw [hl sep hmem] at hsep
  cases hsep

theorem bare_append (l rest : List Char) : bare (l ++ rest) = bare l ++ bare rest := List.filter_append ..

theorem mem_bare {c : Char} {l : List Char} : c ∈ bare l ↔ c ∈ l ∧ c ≠ ' ' ∧ c ≠ '\u00a0' := by
  unfold bare
  rw [List.mem_filter, decide_eq_true_eq]

theorem bare_digits {l : List Char} (hl : ∀ c ∈ l, T.isDecimal c = true) : bare l = l :=
  bare_of_forall fun c hc => T.digit_not_space c (hl c hc)

theorem bare_blank (l : List Char) : bare (' ' :: l) = bare l := rfl

/-- Groups that are set off by blanks only. -/
theorem Tail.blanks {tail : List Char} (h : Tail T tail) (hnone : ∀ c ∈ tail, ¬ IsSep c) :
    (∀ c ∈ bare tail, T.isDecimal c = true) ∧ (tail ≠ [] → ' ' ∈ tail ∧ 3 ≤ (bare tail).length) := by
  induction h with
  | done => simp [bare]
  | fraction hc => exact absurd hc (hnone _ (List.mem_cons_self ..))
  | @group c g tail hc hlen hg htail ih =>
    obtain ⟨hdigits, -⟩ := ih fun d hd => hnone d (by simp [hd])
    have hblank : c = ' ' := hc.resolve_right (hnone c (List.mem_cons_self ..))
    have hbare : bare (c :: (g ++ tail)) = g ++ bare tail := by
      rw [hblank, bare_blank, bare_append, bare_digits hg]
    rw [hbare, List.length_append, hlen]
    refine ⟨fun d hd => ?_, fun _ => ⟨by simp [hblank], by omega⟩⟩
    exact (List.mem_append.1 hd).elim (hg d) (hdigits d)

/-- Behind the last separator stand up to three digits, or six and more with blanks between. -/
theorem Tail.behind {tail : List Char} (h : Tail T tail) (heq : tail = before ++ sep :: after)
    (hsep : IsSep sep) (hlast : ∀ c ∈ after, ¬ IsSep c) :
    (∀ c ∈ bare after, T.isDecimal c = true) ∧ bare after ≠ [] ∧
      (4 < (bare after).length ↔ ' ' ∈ after) := by
  induction h generalizing before with
  | done => simp at heq
  | @fraction c f hc hne hlen hf =>
    cases before with
    | nil =>
      obtain ⟨-, rfl⟩ := List.cons.inj heq
      have hblank : ' ' ∉ f := not_mem_digits hf (StubExtractor.not_isDecimal (by decide))
      rw [bare_digits hf]
      exact ⟨hf, hne, iff_of_false (by omega) hblank⟩
    | cons d before =>
      have hmem : sep ∈ f := by
        rw [(List.cons.inj heq).2]
        simp
      exact absurd hmem (not_mem_digits hf hsep.not_isDecimal)
  | @group c g tail hc hlen hg htail ih =>
    cases before with
    | nil =>
      obtain ⟨-, rfl⟩ := List.cons.inj heq
      have hblank : ' ' ∉ g := not_mem_digits hg (StubExtractor.not_isDecimal (by decide))
      obtain ⟨hdigits, hblanks⟩ := htail.blanks fun d hd => hlast d (by simp [hd])
      have hne : g ++ bare tail ≠ [] := by
        intro hnil
        rw [(List.append_eq_nil_iff.1 hnil).1] at hlen
        cases hlen
      rw [bare_append, bare_digits hg, List.length_append, hlen, List.mem_append]
      refine ⟨fun d hd => (List.mem_append.1 hd).elim (hg d) (hdigits d), hne, fun hlong => .inr ?_,
        fun hmem => ?_⟩
      · refine (hblanks ?_).1
        rintro rfl
        simp [bare] at hlong
      · have hthree := (hblanks (List.ne_nil_of_mem (hmem.resolve_left hblank))).2
        omega
    | cons d before =>
      obtain ⟨between, -, hbetween⟩ :=
        append_cons_of_not_mem (List.cons.inj heq).2 (not_mem_digits hg hsep.not_isDecimal)
      exact ih hbetween

theorem Tail.mem {tail : List Char} (h : Tail T tail) :
    ∀ c ∈ tail, T.isDecimal c = true ∨ c = ' ' ∨ IsSep c := by
  induction h with
  | done => simp
  | fraction hc _ _ hf => exact List.forall_mem_cons.2 ⟨.inr (.inr hc), fun d hd => .inl (hf d hd)⟩
  | group hc _ hg _ ih =>
    refine List.forall_mem_cons.2 ⟨.inr hc, fun d hd => ?_⟩
    exact (List.mem_append.1 hd).elim (fun hd => .inl (hg d hd)) (ih d)

theorem Tail.getLast {tail : List Char} (h : Tail T tail) : ∀ c ∈ tail.getLast?, T.isDecimal c = true := by
  induction h with
  | done => simp
  | @fraction c f _ hne _ hf =>
    intro d hd
    rw [List.getLast?_cons_of_ne_nil hne] at hd
    exact hf d (List.mem_of_getLast? hd)
  | @group c g tail _ hlen hg _ ih =>
    intro d hd
    have hne : g ≠ [] := by
      rintro rfl
      cases hlen
    rw [List.getLast?_cons_of_ne_nil (by simp [hne])] at hd
    rcases eq_or_ne tail [] with rfl | htail
    · rw [List.append_nil] at hd
      exact hg d (List.mem_of_getLast? hd)
    · rw [List.getLast?_append_of_ne_nil _ htail] at hd
      exact ih d hd

/-- A token at its last separator, without blanks. -/
structure Cut (T : Tables) (before after sign whole : List Char) : Prop where
  front : bare before = sign ++ whole
  sign : sign = [] ∨ sign = ['-']
  starts : ∃ d ds, whole = d :: ds ∧ T.isDecimal d = true
  chars : ∀ c ∈ whole, T.isDecimal c = true ∨ IsSep c
  digits : ∀ c ∈ bare after, T.isDecimal c = true
  ne : bare after ≠ []
  long : 4 < (bare after).length ↔ ' ' ∈ after

theorem bare_sign {sign : List Char} (h : sign = [] ∨ sign = ['-']) : bare sign = sign := by
  rcases h with rfl | rfl
  · rfl
  · rfl

theorem Token.cut (ht : Token T t) (heq : t = before ++ sep :: after) (hsep : IsSep sep)
    (hlast : ∀ c ∈ after, ¬ IsSep c) : ∃ sign whole, Cut T before after sign whole := by
  obtain ⟨hsign, hne, hhead, htail⟩ := ht
  rename_i sign head tail
  have hfront : sep ∉ sign ++ head := by
    rw [List.mem_append, not_or]
    refine ⟨?_, not_mem_digits hhead hsep.not_isDecimal⟩
    rcases hsign with rfl | rfl
    · simp
    · rcases hsep with rfl | rfl <;> decide
  obtain ⟨between, rfl, hbetween⟩ := append_cons_of_not_mem heq hfront
  obtain ⟨hafter, hne', hlong⟩ := htail.behind hbetween hsep hlast
  obtain ⟨d, ds, rfl⟩ := List.exists_cons_of_ne_nil hne
  refine ⟨sign, d :: ds ++ bare between, ?_, hsign, ?_, fun c hc => ?_, hafter, hne', hlong⟩
  · rw [bare_append, bare_append, bare_sign hsign, bare_digits hhead, List.append_assoc]
  · exact ⟨d, ds ++ bare between, rfl, hhead d (List.mem_cons_self ..)⟩
  · rcases List.mem_append.1 hc with hc | hc
    · exact .inl (hhead c hc)
    · obtain ⟨hmem, hblank, -⟩ := mem_bare.1 hc
      exact (htail.mem c (by simp [hbetween, hmem])).imp id fun h => h.resolve_left hblank

/-- A separator is no blank, and stays. -/
theorem Cut.mem_iff {sign whole : List Char} (h : Cut T before after sign whole) (hsep : IsSep sep) :
    sep ∈ whole ↔ sep ∈ before := by
  have hbare : sep ∈ bare before ↔ sep ∈ before := by
    rw [mem_bare, and_iff_left]
    rcases hsep with rfl | rfl <;> decide
  have hsign : sep ∉ sign := by
    rcases h.sign with rfl | rfl
    · simp
    · rcases hsep with rfl | rfl <;> decide
  rw [← hbare, h.front, List.mem_append, or_iff_right hsign]

/-! ## Numbers -/

theorem map_toAscii_sign {sign : List Char} (h : sign = [] ∨ sign = ['-']) : sign.map (toAscii T) = sign := by
  rcases h with rfl | rfl
  · rfl
  · rw [List.map_singleton, toAscii_of_not (StubExtractor.not_isDecimal (by decide))]

theorem isDigit_map {l : List Char} (hl : ∀ c ∈ l, T.isDecimal c = true) :
    ∀ c ∈ l.map (toAscii T), c.isDigit = true := by
  intro c hc
  obtain ⟨d, hd, rfl⟩ := List.mem_map.1 hc
  exact isDigit_toAscii (hl d hd)

theorem amountChar_sign {sign : List Char} (h : sign = [] ∨ sign = ['-']) : ∀ c ∈ sign, IsAmountChar T c := by
  rcases h with rfl | rfl
  · simp
  · intro c hc
    exact .inr (.inl (List.mem_singleton.1 hc))

theorem decimal_whole {sign whole : List Char} (hsign : sign = [] ∨ sign = ['-']) (hne : whole ≠ [])
    (hwhole : ∀ c ∈ whole, T.isDecimal c = true) :
    ∃ d, MoneyText.decimal T.toUnicode (String.ofList (sign ++ whole)) = some (.finite d) ∧
      d.exponent = 0 := by
  have hchars : ∀ c ∈ sign ++ whole, IsAmountChar T c := fun c hc =>
    (List.mem_append.1 hc).elim (amountChar_sign hsign c) fun hc => .inl (hwhole c hc)
  have hascii : numericAsAscii T.toUnicode (String.ofList (sign ++ whole)) =
      sign ++ whole.map (toAscii T) ++ Triple.pointed [] := by
    rw [numericAsAscii_of_amount hchars, List.map_append, map_toAscii_sign hsign]
    simp [Triple.pointed]
  exact ⟨_, decimal_of_plain hascii hsign (by simpa using hne) (by simpa using isDigit_map hwhole), rfl⟩

theorem digits_of_not_mem {l : List Char} (hl : ∀ c ∈ l, T.isDecimal c = true ∨ c = '.') (h : '.' ∉ l) :
    ∀ c ∈ l, T.isDecimal c = true := by
  intro c hc
  refine (hl c hc).resolve_right ?_
  rintro rfl
  exact h hc

theorem ascii_point {sign whole rest : List Char} (hsign : sign = [] ∨ sign = ['-'])
    (hwhole : ∀ c ∈ whole, T.isDecimal c = true ∨ c = '.')
    (hrest : ∀ c ∈ rest, T.isDecimal c = true ∨ c = '.') :
    numericAsAscii T.toUnicode (String.ofList (sign ++ whole ++ '.' :: rest)) =
      sign ++ whole.map (toAscii T) ++ '.' :: rest.map (toAscii T) := by
  have hchars : ∀ c ∈ sign ++ whole ++ '.' :: rest, IsAmountChar T c := by
    intro c hc
    simp only [List.mem_append, List.mem_cons] at hc
    rcases hc with (hc | hc) | rfl | hc
    · exact amountChar_sign hsign c hc
    · exact (hwhole c hc).imp id .inr
    · exact .inr (.inr rfl)
    · exact (hrest c hc).imp id .inr
  rw [numericAsAscii_of_amount hchars, List.map_append, List.map_append, map_toAscii_sign hsign,
    List.map_cons, toAscii_of_not (StubExtractor.not_isDecimal (by decide))]

/-- One point, and as many decimals as there are digits behind it. -/
theorem decimal_of_one_point {sign whole fraction : List Char} (hsign : sign = [] ∨ sign = ['-'])
    (hne : whole ≠ []) (hwhole : ∀ c ∈ whole, T.isDecimal c = true) (hne' : fraction ≠ [])
    (hfraction : ∀ c ∈ fraction, T.isDecimal c = true) :
    ∃ d, MoneyText.decimal T.toUnicode (String.ofList (sign ++ whole ++ '.' :: fraction)) = some (.finite d) ∧
      d.exponent = -(fraction.length : ℤ) := by
  have hascii := ascii_point hsign (fun c hc => .inl (hwhole c hc)) fun c hc => .inl (hfraction c hc)
  have hpointed : Triple.pointed (fraction.map (toAscii T)) = '.' :: fraction.map (toAscii T) :=
    if_neg (by simpa using hne')
  have hdigits : ∀ c ∈ whole ++ fraction, T.isDecimal c = true := fun c hc =>
    (List.mem_append.1 hc).elim (hwhole c) (hfraction c)
  rw [← hpointed] at hascii
  refine ⟨_, decimal_of_plain hascii hsign (by simpa using hne) ?_, ?_⟩
  · rw [← List.map_append]
    exact isDigit_map hdigits
  · rw [List.length_map]

/-- A point before the last one. -/
theorem decimal_of_more_points {sign whole fraction : List Char} (hsign : sign = [] ∨ sign = ['-'])
    (hstarts : ∃ d ds, whole = d :: ds ∧ T.isDecimal d = true)
    (hwhole : ∀ c ∈ whole, T.isDecimal c = true ∨ c = '.')
    (hfraction : ∀ c ∈ fraction, T.isDecimal c = true) (hmem : '.' ∈ whole) :
    MoneyText.decimal T.toUnicode (String.ofList (sign ++ whole ++ '.' :: fraction)) = none := by
  obtain ⟨first, rest, rfl, hfirst⟩ := List.eq_append_cons_of_mem hmem
  have hrest : ∀ c ∈ rest ++ '.' :: fraction, T.isDecimal c = true ∨ c = '.' := by
    intro c hc
    rcases List.mem_append.1 hc with hc | hc
    · exact hwhole c (by simp [hc])
    · exact (List.mem_cons.1 hc).elim .inr fun hc => .inl (hfraction c hc)
  have hfirst' : ∀ c ∈ first, T.isDecimal c = true :=
    digits_of_not_mem (fun c hc => hwhole c (List.mem_append_left _ hc)) hfirst
  have hne : first ≠ [] := by
    rintro rfl
    obtain ⟨d, ds, hd, hdecimal⟩ := hstarts
    obtain rfl : '.' = d := (List.cons.inj hd).1
    exact ne_of_isDecimal hdecimal (by decide) rfl
  have hascii := ascii_point hsign (fun c hc => .inl (hfirst' c hc)) hrest
  have hmem' : '.' ∈ rest ++ '.' :: fraction := by simp
  obtain ⟨second, rest', hsecond, hnone⟩ := List.eq_append_cons_of_mem hmem'
  have hsecond' : ∀ c ∈ second, T.isDecimal c = true :=
    digits_of_not_mem (fun c hc => hrest c (by simp [hsecond, hc])) hnone
  have hdigits : ∀ c ∈ first ++ second, T.isDecimal c = true := fun c hc =>
    (List.mem_append.1 hc).elim (hfirst' c) (hsecond' c)
  rw [hsecond, List.map_append, List.map_cons,
    toAscii_of_not (StubExtractor.not_isDecimal (by decide))] at hascii
  have hsplit : sign ++ (first ++ '.' :: rest) ++ '.' :: fraction =
      sign ++ first ++ '.' :: (second ++ '.' :: rest') := by
    rw [← hsecond]
    simp
  rw [hsplit]
  refine decimal_of_points hascii hsign (by simpa using hne) ?_
  rw [← List.map_append]
  exact isDigit_map hdigits

/-! ## More than four decimals -/

/-- Behind the decimal point stand groups that are set off by blanks. -/
def Overlong (token : List Char) : Prop := ∃ before sep after, token = before ++ sep :: after ∧
  (sep = '.' ∧ '.' ∉ before ∨ sep = ',' ∧ ',' ∉ before ∧ '.' ∈ before) ∧
    (∀ c ∈ after, ¬ IsSep c) ∧ ' ' ∈ after

/-- There is one last separator. -/
theorem overlong_iff (heq : t = before ++ sep :: after) (hsep : IsSep sep) (hlast : ∀ c ∈ after, ¬ IsSep c) :
    Overlong t ↔ (sep = '.' ∧ '.' ∉ before ∨ sep = ',' ∧ ',' ∉ before ∧ '.' ∈ before) ∧ ' ' ∈ after := by
  constructor
  · rintro ⟨before', sep', after', heq', hkind, hlast', hblank⟩
    have hsep' : IsSep sep' := hkind.imp (·.1) (·.1)
    have hcut : before' ++ sep' :: after' = before ++ sep :: after := heq'.symm.trans heq
    have hsame : before' = before ∧ sep' :: after' = sep :: after := by
      rcases List.append_eq_append_iff.1 hcut with ⟨l, rfl, hl⟩ | ⟨l, rfl, hl⟩
      · cases l with
        | nil => exact ⟨by simp, hl⟩
        | cons c l => exact absurd hsep (hlast' sep (by rw [(List.cons.inj hl).2]; simp))
      · cases l with
        | nil => exact ⟨by simp, hl.symm⟩
        | cons c l => exact absurd hsep' (hlast sep' (by rw [(List.cons.inj hl).2]; simp))
    obtain ⟨rfl, hcons⟩ := hsame
    obtain ⟨rfl, rfl⟩ := List.cons.inj hcons
    exact ⟨hkind, hblank⟩
  · rintro ⟨hkind, hblank⟩
    exact ⟨before, sep, after, heq, hkind, hlast, hblank⟩

theorem last_separator (t : List Char) : (∀ c ∈ t, ¬ IsSep c) ∨
    ∃ before sep after, t = before ++ sep :: after ∧ IsSep sep ∧ ∀ c ∈ after, ¬ IsSep c := by
  induction t with
  | nil => exact .inl (by simp)
  | cons c t ih =>
    rcases ih with hnone | ⟨before, sep, after, rfl, hsep, hlast⟩
    · by_cases hc : IsSep c
      · exact .inr ⟨[], c, t, rfl, hc, hnone⟩
      · exact .inl (List.forall_mem_cons.2 ⟨hc, hnone⟩)
    · exact .inr ⟨c :: before, sep, after, rfl, hsep, hlast⟩

theorem Token.ends (ht : Token T t) : ∀ c ∈ t.getLast?, T.isDecimal c = true := by
  obtain ⟨-, hne, hhead, htail⟩ := ht
  rename_i sign head tail
  intro c hc
  rcases eq_or_ne tail [] with rfl | htail'
  · rw [List.append_nil, List.getLast?_append_of_ne_nil _ hne] at hc
    exact hhead c (List.mem_of_getLast? hc)
  · rw [List.getLast?_append_of_ne_nil _ htail'] at hc
    exact htail.getLast c hc

/-- A token has no blanks at its ends. -/
theorem Token.normalizeAmount (ht : Token T t) :
    normalizeAmount (String.ofList t) = String.ofList (separate (bare t)) := by
  have hhead : ∀ c ∈ t.head?, isSpace c = false := by
    obtain ⟨sign, d, cs, rfl, hsign, hd⟩ := ht.starts
    rcases hsign with rfl | rfl
    · rintro c ⟨⟩
      exact T.digit_not_space d hd
    · rintro c ⟨⟩
      rfl
  rw [normalizeAmount_eq, strip_of_ends hhead fun c hc => T.digit_not_space c (ht.ends c hc),
    String.toList_ofList]

theorem Cut.not_mem_digits {sign whole : List Char} (h : Cut T before after sign whole) (hsep : IsSep sep) :
    sep ∉ bare after := StubExtractor.not_mem_digits h.digits hsep.not_isDecimal

theorem filter_sign {sign : List Char} (h : sign = [] ∨ sign = ['-']) (hsep : IsSep sep) :
    sign.filter (· ≠ sep) = sign := by
  refine filter_ne ?_
  rcases h with rfl | rfl
  · simp
  · rcases hsep with rfl | rfl <;> decide

/-- The whole part, once the other separator is dropped and its own are points. -/
theorem Cut.pointed {sign whole : List Char} (h : Cut T before after sign whole) {own other : Char}
    (hown : IsSep own) (hother : IsSep other) (hne : own ≠ other) {f : Char → Char}
    (hf : ∀ c, T.isDecimal c = true → f c = c) (hpoint : f own = '.') :
    (own ∈ before → MoneyText.decimal T.toUnicode
      (String.ofList (sign ++ (whole.filter (· ≠ other)).map f ++ '.' :: bare after)) = none) ∧
    (own ∉ before → ∃ d, MoneyText.decimal T.toUnicode
      (String.ofList (sign ++ (whole.filter (· ≠ other)).map f ++ '.' :: bare after)) = some (.finite d) ∧
        d.exponent = -((bare after).length : ℤ)) := by
  have hkept : ∀ d, d ∈ whole.filter (· ≠ other) ↔ d ∈ whole ∧ (T.isDecimal d = true ∨ d = own) := by
    intro d
    rw [List.mem_filter, decide_eq_true_eq]
    refine and_congr_right fun hmem => ⟨fun hd => (h.chars d hmem).imp id fun hsep => ?_, ?_⟩
    · exact (hown.eq_or hother hne hsep).resolve_right hd
    · rintro (hd | rfl)
      · rintro rfl
        rw [hother.not_isDecimal] at hd
        cases hd
      · exact hne
  have hstarts : ∃ d ds, (whole.filter (· ≠ other)).map f = d :: ds ∧ T.isDecimal d = true := by
    obtain ⟨d, ds, rfl, hd⟩ := h.starts
    have hd' : d ≠ other := by
      rintro rfl
      rw [hother.not_isDecimal] at hd
      cases hd
    refine ⟨d, (ds.filter (· ≠ other)).map f, ?_, hd⟩
    rw [List.filter_cons_of_pos (by simpa using hd'), List.map_cons, hf d hd]
  have hchars : ∀ c ∈ (whole.filter (· ≠ other)).map f, T.isDecimal c = true ∨ c = '.' := by
    intro c hc
    obtain ⟨d, hd, rfl⟩ := List.mem_map.1 hc
    rcases ((hkept d).1 hd).2 with hdecimal | rfl
    · exact .inl (by rwa [hf d hdecimal])
    · exact .inr hpoint
  have hmem : '.' ∈ (whole.filter (· ≠ other)).map f ↔ own ∈ before := by
    rw [← h.mem_iff hown, List.mem_map]
    constructor
    · rintro ⟨d, hd, hd'⟩
      obtain ⟨hmem, hdecimal | rfl⟩ := (hkept d).1 hd
      · rw [hf d hdecimal] at hd'
        exact absurd hd' (ne_of_isDecimal hdecimal (by decide))
      · exact hmem
    · intro hmem
      exact ⟨own, (hkept own).2 ⟨hmem, .inr rfl⟩, hpoint⟩
  rw [← hmem]
  refine ⟨decimal_of_more_points h.sign hstarts hchars h.digits, fun hnone => ?_⟩
  obtain ⟨d, ds, hd, -⟩ := hstarts
  have hne : (whole.filter (· ≠ other)).map f ≠ [] := by
    rw [hd]
    exact List.cons_ne_nil d ds
  exact decimal_of_one_point h.sign hne (digits_of_not_mem hchars hnone) h.ne h.digits

theorem bare_cut (hsep : IsSep sep) : bare (before ++ sep :: after) = bare before ++ sep :: bare after := by
  rw [bare_append]
  rcases hsep with rfl | rfl
  · rfl
  · rfl

/-- A token is no number, with the same separator twice, or it has more than four decimals iff it is
overlong. -/
def Normal (T : Tables) (t : List Char) : Prop :=
  (MoneyText.decimal T.toUnicode (normalizeAmount (String.ofList t)) = none ∧
    ∃ before sep after, t = before ++ sep :: after ∧ IsSep sep ∧ sep ∈ before) ∨
  ∃ d, MoneyText.decimal T.toUnicode (normalizeAmount (String.ofList t)) = some (.finite d) ∧
    (-4 ≤ d.exponent ↔ ¬ Overlong t)

theorem Token.normal_of_none (ht : Token T t) (hnone : ∀ c ∈ t, ¬ IsSep c) : Normal T t := by
  have hlong : ¬ Overlong t := by
    rintro ⟨before, sep, after, rfl, hkind, -⟩
    exact hnone sep (by simp) (hkind.imp (·.1) (·.1))
  have hnormal := ht.normalizeAmount
  obtain ⟨hsign, hne, hhead, htail⟩ := ht
  rename_i sign head tail
  obtain ⟨hdigits, -⟩ := htail.blanks fun c hc => hnone c (List.mem_append_right _ hc)
  have hall : ∀ c ∈ head ++ bare tail, T.isDecimal c = true := fun c hc =>
    (List.mem_append.1 hc).elim (hhead c) (hdigits c)
  have hcomma : ',' ∉ bare (sign ++ head ++ tail) := fun hmem => hnone ',' (mem_bare.1 hmem).1 (.inr rfl)
  obtain ⟨d, hd, hexponent⟩ := decimal_whole hsign (by simp [hne]) hall
  rw [separate_none hcomma, bare_append, bare_append, bare_sign hsign, bare_digits hhead,
    List.append_assoc sign head (bare tail)] at hnormal
  exact .inr ⟨d, by rw [hnormal, hd], iff_of_true (by rw [hexponent]; norm_num) hlong⟩

theorem Token.normal_of_point (ht : Token T t) (heq : t = before ++ '.' :: after)
    (hlast : ∀ c ∈ after, ¬ IsSep c) : Normal T t := by
  obtain ⟨sign, whole, hcut⟩ := ht.cut heq (.inl rfl) hlast
  have hnormal := ht.normalizeAmount
  have hcomma := hcut.not_mem_digits (.inr rfl)
  have hpoint := hcut.not_mem_digits (.inl rfl)
  rw [heq, bare_cut (.inl rfl), separate_point hcomma hpoint, hcut.front, List.filter_append,
    filter_sign hcut.sign (.inr rfl), ← heq] at hnormal
  have hpointed := hcut.pointed (.inl rfl) (.inr rfl) (by decide) (f := id) (fun _ _ => rfl) rfl
  rw [List.map_id, ← hnormal] at hpointed
  have hover := overlong_iff heq (.inl rfl) hlast
  by_cases hbefore : '.' ∈ before
  · exact .inl ⟨hpointed.1 hbefore, before, '.', after, heq, .inl rfl, hbefore⟩
  · obtain ⟨d, hd, hexponent⟩ := hpointed.2 hbefore
    refine .inr ⟨d, hd, ?_⟩
    rw [hover, and_iff_right (.inl ⟨rfl, hbefore⟩), ← hcut.long, hexponent]
    omega

theorem toPoint_of_isDecimal {c : Char} (h : T.isDecimal c = true) : toPoint c = c :=
  if_neg (ne_of_isDecimal h (by decide))

theorem mem_point : '.' ∈ bare before ↔ '.' ∈ before := by
  rw [mem_bare, and_iff_left (by decide)]

/-- The last comma is a decimal comma. -/
theorem Token.normal_of_decimal_comma (ht : Token T t) (heq : t = before ++ ',' :: after)
    (hlast : ∀ c ∈ after, ¬ IsSep c) (hkind : '.' ∈ before ∨ (bare after).length ≤ 2) : Normal T t := by
  obtain ⟨sign, whole, hcut⟩ := ht.cut heq (.inr rfl) hlast
  have hnormal := ht.normalizeAmount
  have hcomma := hcut.not_mem_digits (.inr rfl)
  have hpoint := hcut.not_mem_digits (.inl rfl)
  have hsign : sign.map toPoint = sign := by
    rcases hcut.sign with rfl | rfl
    · rfl
    · rfl
  rw [heq, bare_cut (.inr rfl), separate_comma hcomma hpoint (hkind.imp mem_point.2 id), hcut.front,
    List.filter_append, filter_sign hcut.sign (.inl rfl), List.map_append, hsign, ← heq] at hnormal
  have hpointed := hcut.pointed (.inr rfl) (.inl rfl) (by decide) (fun _ => toPoint_of_isDecimal) rfl
  rw [← hnormal] at hpointed
  by_cases hbefore : ',' ∈ before
  · exact .inl ⟨hpointed.1 hbefore, before, ',', after, heq, .inr rfl, hbefore⟩
  · obtain ⟨d, hd, hexponent⟩ := hpointed.2 hbefore
    refine .inr ⟨d, hd, ?_⟩
    have hiff : Overlong t ↔ 4 < (bare after).length := by
      rw [overlong_iff heq (.inr rfl) hlast, ← hcut.long]
      constructor
      · exact fun h => h.2
      · intro hlong
        exact ⟨.inr ⟨rfl, hbefore, hkind.resolve_right (by omega)⟩, hlong⟩
    rw [hiff, hexponent]
    omega

/-- The commas group digits, and the number is whole. -/
theorem Token.normal_of_grouping_comma (ht : Token T t) (heq : t = before ++ ',' :: after)
    (hlast : ∀ c ∈ after, ¬ IsSep c) (hbefore : '.' ∉ before) (hlong : ¬ (bare after).length ≤ 2) :
    Normal T t := by
  obtain ⟨sign, whole, hcut⟩ := ht.cut heq (.inr rfl) hlast
  have hnormal := ht.normalizeAmount
  have hcomma := hcut.not_mem_digits (.inr rfl)
  have hnone : '.' ∉ bare before ++ bare after := by
    rw [List.mem_append, not_or, mem_point]
    exact ⟨hbefore, hcut.not_mem_digits (.inl rfl)⟩
  have hdigits : ∀ c ∈ whole.filter (· ≠ ',') ++ bare after, T.isDecimal c = true := by
    intro c hc
    rcases List.mem_append.1 hc with hc | hc
    · obtain ⟨hwhole, hne⟩ := List.mem_filter.1 hc
      refine (hcut.chars c hwhole).resolve_right ?_
      rintro (rfl | rfl)
      · exact hbefore ((hcut.mem_iff (.inl rfl)).1 hwhole)
      · simp at hne
    · exact hcut.digits c hc
  obtain ⟨d, hd, hexponent⟩ := decimal_whole hcut.sign (by simp [hcut.ne]) hdigits
  rw [heq, bare_cut (.inr rfl), separate_groups hcomma hnone (by omega), hcut.front, List.filter_append,
    filter_sign hcut.sign (.inr rfl), List.append_assoc, ← heq] at hnormal
  refine .inr ⟨d, by rw [hnormal, hd], iff_of_true (by rw [hexponent]; norm_num) ?_⟩
  rw [overlong_iff heq (.inr rfl) hlast]
  rintro ⟨⟨hpoint, -⟩ | ⟨-, -, hmem⟩, -⟩
  · cases hpoint
  · exact hbefore hmem

theorem Token.normal_of_comma (ht : Token T t) (heq : t = before ++ ',' :: after)
    (hlast : ∀ c ∈ after, ¬ IsSep c) : Normal T t := by
  by_cases hkind : '.' ∈ before ∨ (bare after).length ≤ 2
  · exact ht.normal_of_decimal_comma heq hlast hkind
  · obtain ⟨hbefore, hlong⟩ := not_or.1 hkind
    exact ht.normal_of_grouping_comma heq hlast hbefore hlong

theorem Token.normal (ht : Token T t) : Normal T t := by
  rcases last_separator t with hnone | ⟨before, sep, after, heq, rfl | rfl, hlast⟩
  · exact ht.normal_of_none hnone
  · exact ht.normal_of_point heq hlast
  · exact ht.normal_of_comma heq hlast

end ReckonFlow.StubExtractor
