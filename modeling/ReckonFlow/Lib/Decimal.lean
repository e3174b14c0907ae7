import Mathlib

/-! Decimal arithmetic on exact rationals: rounding to a number of significant
digits, as a decimal context does after every operation, and fixed-point storage
with a bounded number of digits. -/

namespace Decimal

/-- Round to the nearest integer, ties to the even one. -/
def roundHalfEven (q : ℚ) : ℤ :=
  let d := q - ⌊q⌋
  if d < 1 / 2 ∨ (d = 1 / 2 ∧ ⌊q⌋ % 2 = 0) then ⌊q⌋ else ⌊q⌋ + 1

/-- Round to the nearest integer, ties away from zero. -/
def roundHalfAway (q : ℚ) : ℤ := if 0 ≤ q then ⌊q + 1 / 2⌋ else -⌊-q + 1 / 2⌋

@[simp] theorem roundHalfEven_int (n : ℤ) : roundHalfEven n = n := by
  simp [roundHalfEven]

@[simp] theorem roundHalfAway_int (n : ℤ) : roundHalfAway n = n := by
  have hhalf : ⌊(1 / 2 : ℚ)⌋ = 0 := by norm_num
  have hneg : ⌊-(n : ℚ) + 1 / 2⌋ = -n := by
    rw [← Int.cast_neg, Int.floor_intCast_add, hhalf, add_zero]
  unfold roundHalfAway
  split_ifs
  · rw [Int.floor_intCast_add, hhalf, add_zero]
  · rw [hneg, neg_neg]

/-- The value of the last of the `p` leading digits of `q`. -/
def ulp (p : ℕ) (q : ℚ) : ℚ := 10 ^ (Int.log 10 |q| - (p - 1))

/-- Round to `p` significant digits, ties to even. -/
def roundDigits (p : ℕ) (q : ℚ) : ℚ := if q = 0 then 0 else roundHalfEven (q / ulp p q) * ulp p q

/-- Addition in a context of `p` digits. -/
def add (p : ℕ) (a b : ℚ) : ℚ := roundDigits p (a + b)

/-- At most `s` decimal places. -/
def HasScale (s : ℕ) (q : ℚ) : Prop := ∃ n : ℤ, q * 10 ^ s = n

instance (s : ℕ) (q : ℚ) : Decidable (HasScale s q) :=
  decidable_of_iff ((q * 10 ^ s).den = 1)
    ⟨fun h => ⟨(q * 10 ^ s).num, ((Rat.den_eq_one_iff _).1 h).symm⟩,
      fun ⟨n, hn⟩ => by rw [hn]; exact Rat.den_intCast n⟩

theorem HasScale.zero (s : ℕ) : HasScale s 0 := ⟨0, by simp⟩

theorem HasScale.add {s : ℕ} {a b : ℚ} (ha : HasScale s a) (hb : HasScale s b) :
    HasScale s (a + b) := by
  obtain ⟨m, hm⟩ := ha
  obtain ⟨n, hn⟩ := hb
  exact ⟨m + n, by rw [add_mul, hm, hn]; push_cast; rfl⟩

theorem HasScale.sub {s : ℕ} {a b : ℚ} (ha : HasScale s a) (hb : HasScale s b) :
    HasScale s (a - b) := by
  obtain ⟨m, hm⟩ := ha
  obtain ⟨n, hn⟩ := hb
  exact ⟨m - n, by rw [sub_mul, hm, hn]; push_cast; rfl⟩

/-- With `p` digits in all, `s` of them decimals, the leading digit stands below place `p - s`. -/
theorem log_lt {p s : ℕ} {q : ℚ} (h0 : q ≠ 0) (hq : |q| * 10 ^ s < 10 ^ p) :
    Int.log 10 |q| < (p : ℤ) - s := by
  rw [← Int.lt_zpow_iff_log_lt (by norm_num) (abs_pos.2 h0)]
  rw [Nat.cast_ofNat, zpow_sub₀ (by norm_num), zpow_natCast, zpow_natCast,
    lt_div_iff₀ (by positivity)]
  exact hq

/-- At most `p` significant digits. -/
def HasDigits (p : ℕ) (q : ℚ) : Prop := ∃ n e : ℤ, |n| < 10 ^ p ∧ q = n * 10 ^ e

theorem HasScale.hasDigits {p s : ℕ} {q : ℚ} (hs : HasScale s q) (hq : |q| * 10 ^ s < 10 ^ p) :
    HasDigits p q := by
  obtain ⟨n, hn⟩ := hs
  refine ⟨n, -s, ?_, ?_⟩
  · have hlt : |(n : ℚ)| < 10 ^ p := by
      rw [← hn, abs_mul, abs_of_pos (by positivity : (0 : ℚ) < 10 ^ s)]
      exact hq
    exact_mod_cast hlt
  · rw [← hn, zpow_neg, zpow_natCast, mul_inv_cancel_right₀ (by positivity)]

theorem HasDigits.roundDigits_eq {p : ℕ} {q : ℚ} (h : HasDigits p q) : roundDigits p q = q := by
  obtain ⟨n, e, hn, hq⟩ := h
  unfold roundDigits
  split_ifs with h0
  · exact h0.symm
  have hlog : Int.log 10 |q| < p + e := by
    rw [← Int.lt_zpow_iff_log_lt (by norm_num) (abs_pos.2 h0), Nat.cast_ofNat, zpow_add₀ (by norm_num),
      zpow_natCast, hq, abs_mul, abs_of_pos (by positivity : (0 : ℚ) < 10 ^ e)]
    apply mul_lt_mul_of_pos_right _ (by positivity)
    exact_mod_cast hn
  -- hence `q` is a whole number of ulps
  obtain ⟨d, hd⟩ : ∃ d : ℕ, e - (Int.log 10 |q| - ((p : ℤ) - 1)) = d :=
    ⟨(e - (Int.log 10 |q| - ((p : ℤ) - 1))).toNat, by omega⟩
  have hulp : ulp p q ≠ 0 := zpow_ne_zero _ (by norm_num)
  have hint : q / ulp p q = (n * 10 ^ d : ℤ) := by
    rw [div_eq_iff hulp, ulp]
    push_cast
    rw [mul_assoc, ← zpow_natCast, ← hd, ← zpow_add₀ (by norm_num), sub_add_cancel]
    exact hq
  rw [hint, roundHalfEven_int, ← hint, div_mul_cancel₀ _ hulp]

/-- A number is left as it is by rounding to `p` digits iff it has no more of them. -/
theorem roundDigits_eq_iff {p : ℕ} {q : ℚ} : roundDigits p q = q ↔ HasDigits p q := by
  refine ⟨fun h => ?_, HasDigits.roundDigits_eq⟩
  unfold roundDigits at h
  split_ifs at h with h0
  · exact ⟨0, 0, by rw [abs_zero]; positivity, by rw [h0, Int.cast_zero, zero_mul]⟩
  refine ⟨roundHalfEven (q / ulp p q), Int.log 10 |q| - (p - 1), ?_, h.symm⟩
  have hulp : 0 < ulp p q := by
    unfold ulp
    positivity
  have hlt : |q| < 10 ^ p * ulp p q := by
    have hlog := Int.lt_zpow_succ_log_self (b := 10) (by norm_num) |q|
    rw [Nat.cast_ofNat] at hlog
    rw [ulp, ← zpow_natCast, ← zpow_add₀ (by norm_num)]
    refine hlog.trans_le (zpow_le_zpow_right₀ (by norm_num) ?_)
    omega
  have hcast : |(roundHalfEven (q / ulp p q) : ℚ)| * ulp p q < 10 ^ p * ulp p q := by
    rw [← abs_of_pos hulp, ← abs_mul, abs_of_pos hulp, h]
    exact hlt
  have hint := lt_of_mul_lt_mul_right hcast hulp.le
  exact_mod_cast hint

/-- A number of `p` digits in all, `s` of them decimals, is not rounded. -/
theorem roundDigits_exact {p s : ℕ} {q : ℚ} (hs : HasScale s q) (hq : |q| * 10 ^ s < 10 ^ p) :
    roundDigits p q = q := (hs.hasDigits hq).roundDigits_eq

end Decimal

/-- `NUMERIC(precision, scale)`. -/
structure Numeric (precision scale : ℕ) where
  units : ℤ
  bound : |units| < 10 ^ precision
  deriving DecidableEq

namespace Numeric

open Decimal

variable {p s : ℕ}

def value (x : Numeric p s) : ℚ := x.units / 10 ^ s

/-- Storing a number: rounded to the scale, refused when it has too many digits. -/
def ofRat? (q : ℚ) : Option (Numeric p s) :=
  let u := roundHalfAway (q * 10 ^ s)
  if h : |u| < 10 ^ p then some ⟨u, h⟩ else none

/-- The value a column of `s` decimals gives back. -/
def rounded (s : ℕ) (q : ℚ) : ℚ := roundHalfAway (q * 10 ^ s) / 10 ^ s

theorem value_ofRat {q : ℚ} {x : Numeric p s} (h : ofRat? q = some x) : x.value = rounded s q := by
  simp only [ofRat?] at h
  split_ifs at h
  obtain rfl := Option.some.inj h
  rfl

instance : Neg (Numeric p s) := ⟨fun x => ⟨-x.units, by rw [abs_neg]; exact x.bound⟩⟩

@[simp] theorem value_neg (x : Numeric p s) : (-x).value = -x.value := by
  show ((-x.units : ℤ) : ℚ) / 10 ^ s = -(x.units / 10 ^ s)
  rw [Int.cast_neg, neg_div]

theorem value_mul (x : Numeric p s) : x.value * 10 ^ s = x.units := by
  unfold value
  rw [div_mul_cancel₀ _ (by positivity)]

theorem value_hasScale (x : Numeric p s) : HasScale s x.value := ⟨x.units, x.value_mul⟩

/-- What has no more decimals than the column is stored as it is. -/
theorem value_of_ofRat? {q : ℚ} {x : Numeric p s} (hs : HasScale s q) (h : ofRat? q = some x) :
    x.value = q := by
  obtain ⟨n, hn⟩ := hs
  simp only [ofRat?, hn, roundHalfAway_int] at h
  split_ifs at h
  obtain rfl := Option.some.inj h
  rw [value, ← hn, mul_div_assoc, div_self (by positivity), mul_one]

theorem abs_value_lt (x : Numeric p s) : |x.value| * 10 ^ s < 10 ^ p := by
  have h10 : (0 : ℚ) < 10 ^ s := by positivity
  rw [← abs_of_pos h10, ← abs_mul, value_mul]
  have := x.bound
  exact_mod_cast this

end Numeric

example : Decimal.add 3 999 (1 / 2) = 1000 ∧ Decimal.add 3 998 (1 / 2) = 998 := by decide +kernel
example : ((Numeric.ofRat? (-(1 / 800)) : Option (Numeric 15 2)).map (·.units)) = some 0 := by
  decide +kernel
