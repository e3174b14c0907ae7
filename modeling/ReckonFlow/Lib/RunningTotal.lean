import ReckonFlow.Lib.Decimal

/-! Adding up a list in a decimal context, which rounds every running total: in whatever order the
totals are exact when the context can represent the sum of every part of the list, and only then;
and the totals of small terms never leave a power of ten. -/

namespace Decimal

variable {p : ℕ} {l : List ℚ}

/-- The sum from the left, every running total rounded to `p` digits. -/
def runningTotal (p : ℕ) (l : List ℚ) : ℚ := l.foldl (add p) 0

/-- Some running total has its leading digit past place `emax`. -/
def Overflows (p : ℕ) (emax : ℤ) (l : List ℚ) : Prop :=
  ∃ l', l' <+: l ∧ emax < Int.log 10 |runningTotal p l'|

theorem runningTotal_concat (p : ℕ) (l : List ℚ) (x : ℚ) :
    runningTotal p (l ++ [x]) = add p (runningTotal p l) x := by
  rw [runningTotal, List.foldl_append]
  rfl

theorem overflows_concat {emax : ℤ} {x : ℚ} : Overflows p emax (l ++ [x]) ↔
    Overflows p emax l ∨ emax < Int.log 10 |runningTotal p (l ++ [x])| := by
  unfold Overflows
  simp only [List.prefix_concat_iff, or_and_right, exists_or, exists_eq_left]
  exact or_comm

theorem not_overflows_nil {emax : ℤ} (h : 0 ≤ emax) : ¬ Overflows p emax [] := by
  rintro ⟨l', hpre, hlog⟩
  obtain rfl := List.prefix_nil.1 hpre
  rw [runningTotal, List.foldl_nil, abs_zero, Int.log_zero_right] at hlog
  omega

/-! ## Exact totals -/

/-- Where no sum of a first part has too many digits, nothing is rounded. -/
theorem runningTotal_exact (h : ∀ first, first <+: l → HasDigits p first.sum) :
    runningTotal p l = l.sum := by
  induction l using List.reverseRecOn with
  | nil => rfl
  | append_singleton l x ih =>
    have hl := ih fun first hpre => h first (hpre.trans (List.prefix_append l [x]))
    have hall := h _ (List.prefix_refl (l ++ [x]))
    rw [List.sum_append, List.sum_singleton] at hall ⊢
    rw [runningTotal_concat, hl, add, hall.roundDigits_eq]

theorem hasDigits_of_exact (h : ∀ first, first <+: l → runningTotal p first = first.sum) :
    HasDigits p l.sum := by
  rcases List.eq_nil_or_concat' l with rfl | ⟨l', x, rfl⟩
  · exact roundDigits_eq_iff.1 (if_pos rfl)
  · have hl := h l' (List.prefix_append l' [x])
    have hall := h _ (List.prefix_refl (l' ++ [x]))
    rw [runningTotal_concat, hl, add, List.sum_append, List.sum_singleton] at hall
    rw [List.sum_append, List.sum_singleton]
    exact roundDigits_eq_iff.1 hall

/-- A number the context holds: `p` digits, the leading one at place `emax` or below. -/
def Representable (p : ℕ) (emax : ℤ) (q : ℚ) : Prop := HasDigits p q ∧ Int.log 10 |q| ≤ emax

/-- The list is added up without rounding and without overflow. -/
def Exact (p : ℕ) (emax : ℤ) (l : List ℚ) : Prop :=
  (∀ first, first <+: l → runningTotal p first = first.sum) ∧ ¬ Overflows p emax l

theorem exact_iff {emax : ℤ} :
    Exact p emax l ↔ ∀ first, first <+: l → Representable p emax first.sum := by
  refine ⟨fun h first hpre => ⟨?_, ?_⟩, fun h => ?_⟩
  · exact hasDigits_of_exact fun start hs => h.1 start (hs.trans hpre)
  · refine not_lt.1 fun hlog => h.2 ⟨first, hpre, ?_⟩
    rw [h.1 first hpre]
    exact hlog
  · have hsum : ∀ first, first <+: l → runningTotal p first = first.sum :=
      fun first hpre => runningTotal_exact fun start hs => (h start (hs.trans hpre)).1
    refine ⟨hsum, ?_⟩
    rintro ⟨first, hpre, hlog⟩
    rw [hsum first hpre] at hlog
    exact absurd (h first hpre).2 (not_le.2 hlog)

/-- Every order is exact iff the sum of every part, whatever its terms, is representable. -/
theorem exact_perm_iff {emax : ℤ} : (∀ l', l'.Perm l → Exact p emax l') ↔
    ∀ part, List.Sublist part l → Representable p emax part.sum := by
  refine ⟨fun h part hpart => ?_, fun h l' hperm => exact_iff.2 fun first hpre => ?_⟩
  · -- the part can be put first
    obtain ⟨rest, hperm⟩ := hpart.exists_perm_append
    exact exact_iff.1 (h _ hperm.symm) part (List.prefix_append part rest)
  · obtain ⟨part, hsame, hpart⟩ := List.exists_perm_sublist hpre.sublist hperm
    rw [← hsame.sum_eq]
    exact h part hpart

/-- Terms of `s` decimals whose absolute values come to no more than `p` digits in all. -/
theorem representable_of_sum_abs {s : ℕ} {emax : ℤ} (hs : ∀ x ∈ l, HasScale s x)
    (hl : (l.map abs).sum * 10 ^ s < 10 ^ p) (hmax : (p : ℤ) - s ≤ emax) (hpos : 0 ≤ emax) :
    ∀ part, List.Sublist part l → Representable p emax part.sum := by
  intro part hpart
  have hlt : |part.sum| * 10 ^ s < 10 ^ p := by
    refine lt_of_le_of_lt ?_ hl
    apply mul_le_mul_of_nonneg_right _ (by positivity)
    have hle : (part.map abs).sum ≤ (l.map abs).sum := by
      apply (hpart.map abs).sum_le_sum
      rw [List.forall_mem_map]
      exact fun x _ => abs_nonneg x
    have habs : |part.sum| ≤ (part.map abs).sum := by
      simpa only [Multiset.sum_coe, Multiset.map_coe] using
        Multiset.abs_sum_le_sum_abs (s := (part : Multiset ℚ))
    exact habs.trans hle
  have hscale : HasScale s part.sum := by
    refine List.sum_induction (HasScale s) (fun _ _ => HasScale.add) (HasScale.zero s) ?_
    exact fun x hx => hs x (hpart.subset hx)
  refine ⟨hscale.hasDigits hlt, ?_⟩
  rcases eq_or_ne part.sum 0 with h0 | h0
  · rw [h0, abs_zero, Int.log_zero_right]
    exact hpos
  · have hlog := log_lt h0 hlt
    omega

/-! ## Bounded totals -/

theorem roundHalfEven_le {q : ℚ} {n : ℤ} (h : q < n + 1 / 2) : roundHalfEven q ≤ n := by
  have hlt : ⌊q⌋ < n + 1 := by
    rw [Int.floor_lt]
    push_cast
    linarith
  unfold roundHalfEven
  simp only
  split_ifs with hd
  · omega
  · -- rounded up, so the fraction is at least a half
    have hfrac : 1 / 2 ≤ q - ⌊q⌋ := not_lt.1 fun hlt => hd (.inl hlt)
    have hfloor : (⌊q⌋ : ℚ) < n := by linarith
    have hfloor' : ⌊q⌋ < n := by exact_mod_cast hfloor
    omega

theorem le_roundHalfEven {q : ℚ} {n : ℤ} (h : n - 1 / 2 < q) : n ≤ roundHalfEven q := by
  have hlt : n - 1 ≤ ⌊q⌋ := by
    rw [Int.le_floor]
    push_cast
    linarith
  unfold roundHalfEven
  simp only
  split_ifs with hd
  · -- rounded down, so the fraction is at most a half
    have hfrac : q - ⌊q⌋ ≤ 1 / 2 := by
      rcases hd with hd | hd
      · exact hd.le
      · exact hd.1.le
    have hfloor : (n : ℚ) - 1 < ⌊q⌋ := by linarith
    have hfloor' : n - 1 < ⌊q⌋ := by exact_mod_cast hfloor
    omega
  · omega

theorem abs_roundHalfEven_le {q : ℚ} {n : ℤ} (h : |q| < n + 1 / 2) : |roundHalfEven q| ≤ n := by
  obtain ⟨hneg, hpos⟩ := abs_lt.1 h
  refine abs_le.2 ⟨?_, roundHalfEven_le hpos⟩
  apply le_roundHalfEven
  push_cast
  linarith

/-- What exceeds `10 ^ m` by less than half a unit of the last place is rounded to it at most. -/
theorem abs_roundDigits_le {m : ℤ} {q : ℚ} (hp : 1 ≤ p) (hq : |q| < 10 ^ m + 10 ^ (m - (p - 1)) / 2) :
    |roundDigits p q| ≤ 10 ^ m := by
  unfold roundDigits
  split_ifs with h0
  · rw [abs_zero]
    positivity
  have hpos : 0 < |q| := abs_pos.2 h0
  have hulp : 0 < ulp p q := by
    unfold ulp
    positivity
  -- a whole number of units of the last place on either side
  have hbound : ∀ e : ℤ, Int.log 10 |q| ≤ e → |q| < 10 ^ e + ulp p q / 2 →
      |roundHalfEven (q / ulp p q) * ulp p q| ≤ 10 ^ e := by
    intro e he hlt
    obtain ⟨d, hd⟩ : ∃ d : ℕ, e - (Int.log 10 |q| - ((p : ℤ) - 1)) = d :=
      ⟨(e - (Int.log 10 |q| - ((p : ℤ) - 1))).toNat, by omega⟩
    have hten : (10 : ℚ) ^ e = ((10 ^ d : ℤ) : ℚ) * ulp p q := by
      unfold ulp
      push_cast
      rw [← zpow_natCast, ← hd, ← zpow_add₀ (by norm_num)]
      congr 1
      omega
    have hint : |roundHalfEven (q / ulp p q)| ≤ (10 ^ d : ℤ) := by
      apply abs_roundHalfEven_le
      rw [abs_div, abs_of_pos hulp, div_lt_iff₀ hulp]
      rw [hten] at hlt
      linarith
    rw [abs_mul, abs_of_pos hulp, hten]
    refine mul_le_mul_of_nonneg_right ?_ hulp.le
    exact_mod_cast hint
  have hlog : (10 : ℚ) ^ Int.log 10 |q| ≤ |q| := by exact_mod_cast Int.zpow_log_le_self (by norm_num) hpos
  have hlog' : |q| < (10 : ℚ) ^ (Int.log 10 |q| + 1) := by
    exact_mod_cast Int.lt_zpow_succ_log_self (b := 10) (by norm_num) |q|
  rcases lt_or_ge (Int.log 10 |q|) m with hlt | hge
  · have hle := hbound (Int.log 10 |q| + 1) (by omega) (by linarith)
    exact hle.trans (zpow_le_zpow_right₀ (by norm_num) (by omega))
  · -- the excess is less than half a unit, so the leading digit stands at place `m`
    have hplace : Int.log 10 |q| = m := by
      have hten : (10 : ℚ) ^ (m - ((p : ℤ) - 1)) ≤ 10 ^ m := zpow_le_zpow_right₀ (by norm_num) (by omega)
      have hlt : (10 : ℚ) ^ Int.log 10 |q| < 10 ^ (m + 1) := by
        rw [zpow_add_one₀ (by norm_num)]
        have hm : (0 : ℚ) < 10 ^ m := by positivity
        linarith
      have hlt' := (zpow_lt_zpow_iff_right₀ (by norm_num : (1 : ℚ) < 10)).1 hlt
      omega
    apply hbound m hplace.le
    rw [ulp, hplace]
    exact hq

/-- Totals of terms below half a unit of the last place of `10 ^ m` stay within `10 ^ m`. -/
theorem abs_runningTotal_le {m : ℤ} (hp : 1 ≤ p) (h : ∀ x ∈ l, |x| < 10 ^ (m - (p - 1)) / 2) :
    |runningTotal p l| ≤ 10 ^ m := by
  induction l using List.reverseRecOn with
  | nil =>
    rw [runningTotal, List.foldl_nil, abs_zero]
    positivity
  | append_singleton l x ih =>
    have hl := ih fun y hy => h y (List.mem_append_left _ hy)
    have hx := h x (List.mem_append_right _ (List.mem_singleton_self x))
    rw [runningTotal_concat, add]
    apply abs_roundDigits_le hp
    calc |runningTotal p l + x| ≤ |runningTotal p l| + |x| := abs_add_le _ _
      _ < 10 ^ m + 10 ^ (m - (p - 1)) / 2 := add_lt_add_of_le_of_lt hl hx

theorem not_overflows_of_lt {m emax : ℤ} (hp : 1 ≤ p) (hm : m ≤ emax) (hmax : 0 ≤ emax)
    (h : ∀ x ∈ l, |x| < 10 ^ (m - (p - 1)) / 2) : ¬ Overflows p emax l := by
  rintro ⟨l', hpre, hlog⟩
  have hle := abs_runningTotal_le hp fun x hx => h x (hpre.subset hx)
  rcases (abs_nonneg (runningTotal p l')).eq_or_lt with h0 | hpos
  · rw [← h0, Int.log_zero_right] at hlog
    omega
  · have hten : (10 : ℚ) ^ Int.log 10 |runningTotal p l'| ≤ 10 ^ m := by
      refine le_trans ?_ hle
      exact_mod_cast Int.zpow_log_le_self (by norm_num) hpos
    have hlog' := (zpow_le_zpow_iff_right₀ (by norm_num : (1 : ℚ) < 10)).1 hten
    omega

end Decimal

example : Decimal.runningTotal 2 [100, 1, 1] = 100 ∧ Decimal.runningTotal 2 [1, 1, 100] = 100 ∧
    Decimal.runningTotal 2 [3, 3, 100] = 110 ∧ Decimal.runningTotal 2 [100, 3, 3] = 100 := by
  decide +kernel
