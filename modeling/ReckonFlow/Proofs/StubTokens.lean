import ReckonFlow.Proofs.BankAmounts
import ReckonFlow.Spec.StubExtractor

/-! The tokens that the stub extractor finds, and what `_normalize_amount` makes of their separators. -/

namespace ReckonFlow.StubExtractor

open Decimal Text Regex Regex.Pattern

variable {T : Tables}

/-! ## Decimal digits -/

theorem isDecimal_of_isDigit {c : Char} (h : c.isDigit = true) : T.isDecimal c = true := by
  have hascii : c.toNat < 128 := by
    simp only [Char.isDigit, Bool.and_eq_true, decide_eq_true_eq, UInt32.le_iff_toNat_le] at h
    have h9 : '9'.val.toNat = 57 := rfl
    show c.val.toNat < 128
    omega
  unfold Tables.isDecimal
  rw [T.digit_ascii c hascii, if_pos h]
  rfl

theorem not_isDecimal {c : Char} (h : c.toNat < 128 ∧ c.isDigit = false) : T.isDecimal c = false := by
  unfold Tables.isDecimal
  rw [T.digit_ascii c h.1, h.2]
  rfl

theorem ne_of_isDecimal {c d : Char} (hc : T.isDecimal c = true) (hd : d.toNat < 128 ∧ d.isDigit = false) :
    c ≠ d := by
  rintro rfl
  rw [not_isDecimal hd] at hc
  cases hc

theorem isDecimal_all {l : List Char} (h : ∀ c ∈ l, c.isDigit = true) : ∀ c ∈ l, T.isDecimal c = true :=
  fun c hc => isDecimal_of_isDigit (h c hc)

/-- What `Decimal` reads a character as. -/
def toAscii (T : Tables) (c : Char) : Char :=
  match T.digit c with
  | some d => Char.ofNat (48 + d)
  | none => c

theorem isDigit_toAscii {c : Char} (h : T.isDecimal c = true) : (toAscii T c).isDigit = true := by
  obtain ⟨d, hd⟩ := Option.isSome_iff_exists.1 h
  have hlt := T.digit_lt c d hd
  unfold toAscii
  rw [hd]
  interval_cases d <;> rfl

theorem toAscii_of_not {c : Char} (h : T.isDecimal c = false) : toAscii T c = c := by
  have hnone : T.digit c = none := by
    unfold Tables.isDecimal at h
    simpa using h
  unfold toAscii
  rw [hnone]

/-- The characters of a normalised amount. -/
def IsAmountChar (T : Tables) (c : Char) : Prop := T.isDecimal c = true ∨ c = '-' ∨ c = '.'

theorem not_isSpace_of_amountChar {c : Char} (h : IsAmountChar T c) : isSpace c = false := by
  rcases h with h | rfl | rfl
  · exact T.digit_not_space c h
  · rfl
  · rfl

theorem numericAsAscii_of_amount {l : List Char} (h : ∀ c ∈ l, IsAmountChar T c) :
    numericAsAscii T.toUnicode (String.ofList l) = l.map (toAscii T) := by
  have hstrip : strip (String.ofList l) = String.ofList l :=
    strip_of_forall fun c hc => not_isSpace_of_amountChar (h c (by rwa [String.toList_ofList] at hc))
  have hunderscore : l.filter (· ≠ '_') = l := by
    rw [List.filter_eq_self]
    intro c hc
    rw [decide_eq_true_eq]
    rcases h c hc with hdigit | rfl | rfl
    · exact ne_of_isDecimal hdigit (by decide)
    · decide
    · decide
  rw [numericAsAscii, hstrip, String.toList_ofList, hunderscore]
  rfl

/-! ## Tokens -/

/-- What may follow the first digits of an amount: groups of three, and one or two decimals. -/
inductive Tail (T : Tables) : List Char → Prop
  | done : Tail T []
  | fraction {c : Char} {f : List Char} (hc : c = '.' ∨ c = ',') (hne : f ≠ []) (hlen : f.length ≤ 2)
      (hf : ∀ d ∈ f, T.isDecimal d = true) : Tail T (c :: f)
  | group {c : Char} {g tail : List Char} (hc : c = ' ' ∨ c = '.' ∨ c = ',') (hlen : g.length = 3)
      (hg : ∀ d ∈ g, T.isDecimal d = true) (htail : Tail T tail) : Tail T (c :: (g ++ tail))

inductive Token (T : Tables) : List Char → Prop
  | intro {sign head tail : List Char} (hsign : sign = [] ∨ sign = ['-']) (hne : head ≠ [])
      (hhead : ∀ c ∈ head, T.isDecimal c = true) (htail : Tail T tail) : Token T (sign ++ head ++ tail)

theorem matches_sign {t : List Char} (h : Matches (opt (char '-')) t) : t = [] ∨ t = ['-'] := by
  rcases h with ⟨c, rfl, hc⟩ | rfl
  · exact .inr (by rw [of_decide_eq_true hc])
  · exact .inl rfl

theorem tail_of_decimals {t : List Char} (h : Matches (decimals T) t) : Tail T t := by
  rcases h with ⟨u, v, rfl, ⟨c, rfl, hc⟩, hv⟩ | rfl
  · obtain ⟨hlo, hhi, hall⟩ := matches_between (by norm_num) hv
    have hc' : c ∈ ['.', ','] := of_decide_eq_true hc
    refine .fraction (by simpa using hc') ?_ hhi hall
    rintro rfl
    cases hlo
  · exact .done

theorem tail_of_thousands {t u : List Char} (h : Matches (thousands T) t) (hu : Tail T u) :
    Tail T (t ++ u) := by
  obtain ⟨ts, rfl, hts⟩ := h
  induction ts with
  | nil => exact hu
  | cons t ts ih =>
    obtain ⟨⟨v, w, rfl, ⟨c, rfl, hc⟩, hw⟩, hall'⟩ := List.forall_mem_cons.1 hts
    obtain ⟨hlen, hall⟩ := matches_times.1 hw
    have hc' : c ∈ [' ', '.', ','] := of_decide_eq_true hc
    rw [List.flatten_cons, List.append_assoc]
    exact List.append_assoc [c] w _ ▸ .group (by simpa using hc') hlen hall (ih hall')

/-- What the pattern matches is a number with its separators. -/
theorem token_of_matches {t : List Char} (h : Matches (amountRe T) t) : Token T t := by
  rcases h with ⟨sign, v, rfl, hsign, head, w, rfl, hhead, groups, rest, rfl, hgroups, hrest⟩ |
    ⟨sign, v, rfl, hsign, head, rest, rfl, hhead, hrest⟩
  · obtain ⟨hlo, -, hall⟩ := matches_between (by norm_num) hhead
    rw [← List.append_assoc]
    refine .intro (matches_sign hsign) ?_ hall (tail_of_thousands hgroups (tail_of_decimals hrest))
    rintro rfl
    cases hlo
  · obtain ⟨hne, hall⟩ := matches_plus hhead
    rw [← List.append_assoc]
    exact .intro (matches_sign hsign) hne hall (tail_of_decimals hrest)

theorem Token.starts {t : List Char} (h : Token T t) : ∃ sign d cs, t = sign ++ d :: cs ∧
    (sign = [] ∨ sign = ['-']) ∧ T.isDecimal d = true := by
  obtain ⟨hsign, hne, hhead, -⟩ := h
  rename_i sign head tail
  obtain ⟨d, cs, rfl⟩ := List.exists_cons_of_ne_nil hne
  exact ⟨sign, d, cs ++ tail, by simp, hsign, hhead d (List.mem_cons_self ..)⟩

theorem not_matches_nil : ¬ Matches (amountRe T) [] := by
  intro h
  obtain ⟨sign, d, cs, heq, -⟩ := (token_of_matches h).starts
  simp at heq

/-! ## Separators -/

/-- The text without its blanks. -/
def bare (text : List Char) : List Char := text.filter fun c => c ≠ ' ' ∧ c ≠ '\u00a0'

def toPoint (c : Char) : Char := if c = ',' then '.' else c

/-- `_normalize_amount` behind the blanks. -/
def separate (text : List Char) : List Char :=
  if ',' ∈ text ∧ '.' ∈ text then
    if rfind '.' text < rfind ',' text then (text.filter (· ≠ '.')).map toPoint
    else text.filter (· ≠ ',')
  else if ',' ∈ text then
    if (lastPart ',' text).length ≤ 2 then text.map toPoint else text.filter (· ≠ ',')
  else text

theorem normalizeAmount_eq (token : String) :
    normalizeAmount token = String.ofList (separate (bare (strip token).toList)) := rfl

theorem ne_blank {c : Char} (h : isSpace c = false) : c ≠ ' ' ∧ c ≠ '\u00a0' := by
  constructor
  · rintro rfl
    cases h
  · rintro rfl
    cases h

theorem bare_of_forall {l : List Char} (h : ∀ c ∈ l, isSpace c = false) : bare l = l := by
  unfold bare
  rw [List.filter_eq_self]
  exact fun c hc => decide_eq_true (ne_blank (h c hc))

theorem filter_ne {c : Char} {l : List Char} (h : c ∉ l) : l.filter (· ≠ c) = l := by
  rw [List.filter_eq_self]
  intro d hd
  rw [decide_eq_true_eq]
  rintro rfl
  exact h hd

theorem map_toPoint {l : List Char} (h : ',' ∉ l) : l.map toPoint = l := by
  refine (List.map_congr_left fun c hc => ?_).trans (List.map_id l)
  refine if_neg ?_
  rintro rfl
  exact h hc

variable {before after : List Char} {c : Char}

theorem rfind_lt (c : Char) (l : List Char) : rfind c l < l.length := by
  unfold rfind
  omega

theorem rfind_append (h : c ∉ after) : rfind c (before ++ after) = rfind c before := by
  have hnone : after.reverse.findIdx (· = c) = after.length := by
    rw [List.findIdx_eq_length_of_false, List.length_reverse]
    intro d hd
    rw [decide_eq_false_iff_not]
    rintro rfl
    exact h (List.mem_reverse.1 hd)
  unfold rfind
  rw [List.reverse_append, List.findIdx_append, hnone, List.length_reverse, if_neg (lt_irrefl _),
    List.length_append]
  omega

theorem rfind_last (h : c ∉ after) : rfind c (before ++ c :: after) = before.length := by
  have hsplit : before ++ c :: after = (before ++ [c]) ++ after := by simp
  rw [hsplit, rfind_append h]
  unfold rfind
  simp [List.findIdx_cons]

theorem lastPart_append (h : c ∉ after) : lastPart c (before ++ c :: after) = after := by
  have htake : ∀ d ∈ after.reverse, decide (d ≠ c) = true := by
    intro d hd
    rw [decide_eq_true_eq]
    rintro rfl
    exact h (List.mem_reverse.1 hd)
  unfold lastPart
  rw [List.reverse_append, List.reverse_cons, List.append_assoc, List.takeWhile_append_of_pos htake]
  simp

/-- The last separator is a point. -/
theorem separate_point (hcomma : ',' ∉ after) (hpoint : '.' ∉ after) :
    separate (before ++ '.' :: after) = before.filter (· ≠ ',') ++ '.' :: after := by
  have hmem : '.' ∈ before ++ '.' :: after := by simp
  have htail : ',' ∉ '.' :: after := by simp [hcomma]
  unfold separate
  by_cases hbefore : ',' ∈ before
  · have hlt : ¬ rfind '.' (before ++ '.' :: after) < rfind ',' (before ++ '.' :: after) := by
      rw [rfind_last hpoint, rfind_append htail]
      have := rfind_lt ',' before
      omega
    rw [if_pos ⟨List.mem_append_left _ hbefore, hmem⟩, if_neg hlt, List.filter_append, filter_ne htail]
  · have hnone : ',' ∉ before ++ '.' :: after := by simp [hbefore, hcomma]
    rw [if_neg fun h => hnone h.1, if_neg hnone, filter_ne hbefore]

/-- The last separator is a comma, and the decimal one. -/
theorem separate_comma (hcomma : ',' ∉ after) (hpoint : '.' ∉ after)
    (h : '.' ∈ before ∨ after.length ≤ 2) :
    separate (before ++ ',' :: after) = (before.filter (· ≠ '.')).map toPoint ++ '.' :: after := by
  have hmem : ',' ∈ before ++ ',' :: after := by simp
  have htail : '.' ∉ ',' :: after := by simp [hpoint]
  have hmap : (',' :: after).map toPoint = '.' :: after := by
    rw [List.map_cons, map_toPoint hcomma]
    rfl
  unfold separate
  by_cases hbefore : '.' ∈ before
  · have hlt : rfind '.' (before ++ ',' :: after) < rfind ',' (before ++ ',' :: after) := by
      rw [rfind_last hcomma, rfind_append htail]
      exact rfind_lt '.' before
    rw [if_pos ⟨hmem, List.mem_append_left _ hbefore⟩, if_pos hlt, List.filter_append, filter_ne htail,
      List.map_append, hmap]
  · have hnone : '.' ∉ before ++ ',' :: after := by simp [hbefore, hpoint]
    have hshort : (lastPart ',' (before ++ ',' :: after)).length ≤ 2 := by
      rw [lastPart_append hcomma]
      exact h.resolve_left hbefore
    rw [if_neg fun h => hnone h.2, if_pos hmem, if_pos hshort, filter_ne hbefore, List.map_append, hmap]

/-- Commas alone, with more than two digits behind the last. -/
theorem separate_groups (hcomma : ',' ∉ after) (hpoint : '.' ∉ before ++ after) (hlong : 2 < after.length) :
    separate (before ++ ',' :: after) = before.filter (· ≠ ',') ++ after := by
  have hmem : ',' ∈ before ++ ',' :: after := by simp
  have hnone : '.' ∉ before ++ ',' :: after := by
    simp only [List.mem_append, not_or, List.mem_cons] at hpoint ⊢
    exact ⟨hpoint.1, by decide, hpoint.2⟩
  unfold separate
  rw [if_neg fun h => hnone h.2, if_pos hmem, lastPart_append hcomma, if_neg (by omega),
    List.filter_append, List.filter_cons_of_neg (by simp), filter_ne hcomma]

theorem separate_none {text : List Char} (hcomma : ',' ∉ text) : separate text = text := by
  unfold separate
  rw [if_neg fun h => hcomma h.1, if_neg hcomma]

end ReckonFlow.StubExtractor
