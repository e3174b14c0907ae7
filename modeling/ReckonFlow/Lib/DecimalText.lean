import ReckonFlow.Lib.Decimal

/-! Decimal numbers as sign, coefficient and exponent, and their plain notation: digits, and a
point with digits after it. -/

namespace Decimal

structure Triple where
  negative : Bool
  coefficient : ℕ
  exponent : ℤ
  deriving DecidableEq

namespace Triple

def sign (d : Triple) : ℤ := if d.negative then -1 else 1

def value (d : Triple) : ℚ := d.sign * d.coefficient * 10 ^ d.exponent

/-- The digits before and after the point. -/
def places (d : Triple) : List Char × List Char :=
  let digits := Nat.toDigits 10 d.coefficient
  -- a zero is written without trailing zeros
  let exponent := if d.coefficient = 0 ∧ 0 < d.exponent then 0 else d.exponent
  let dotplace := exponent + digits.length
  if dotplace < 0 then (['0'], List.replicate (-dotplace).toNat '0' ++ digits)
  else if digits.length < dotplace then
    (digits ++ List.replicate (dotplace - digits.length).toNat '0', [])
  else
    let whole := digits.take dotplace.toNat
    (if whole = [] then ['0'] else whole, digits.drop dotplace.toNat)

/-- A point and digits, or nothing. -/
def pointed (fraction : List Char) : List Char := if fraction = [] then [] else '.' :: fraction

def plainChars (d : Triple) : List Char :=
  (if d.negative then ['-'] else []) ++ d.places.1 ++ pointed d.places.2

/-- Plain notation. -/
def plain (d : Triple) : String := String.ofList d.plainChars

/-- The same number, with no exponent above zero. -/
def normal (d : Triple) : Triple :=
  ⟨d.negative, d.coefficient * 10 ^ d.exponent.toNat, min d.exponent 0⟩

/-! ## The digits -/

theorem isDigit_toDigits {n : ℕ} {c : Char} (h : c ∈ Nat.toDigits 10 n) : c.isDigit = true :=
  Nat.isDigit_of_mem_toDigits (by norm_num) (by norm_num) h

theorem isDigit_replicate {n : ℕ} {c : Char} (h : c ∈ List.replicate n '0') : c.isDigit = true := by
  rw [List.eq_of_mem_replicate h]
  rfl

/-- What is written: at least one digit before the point, as many after it as the exponent says. -/
theorem places_spec (d : Triple) :
    d.places.1 ≠ [] ∧ (∀ c ∈ d.places.1 ++ d.places.2, c.isDigit = true) ∧
      d.places.2.length = (-d.exponent).toNat ∧
      Nat.ofDigitChars 10 (d.places.1 ++ d.places.2) 0 = d.coefficient * 10 ^ d.exponent.toNat := by
  have hne : Nat.toDigits 10 d.coefficient ≠ [] := Nat.toDigits_ne_nil
  have hlen : 0 < (Nat.toDigits 10 d.coefficient).length := Nat.length_toDigits_pos
  have hnumber : Nat.ofDigitChars 10 (Nat.toDigits 10 d.coefficient) 0 = d.coefficient :=
    Nat.ofDigitChars_ten_toDigits
  have hdigits : ∀ c ∈ Nat.toDigits 10 d.coefficient, c.isDigit = true := fun c hc => isDigit_toDigits hc
  unfold places
  generalize Nat.toDigits 10 d.coefficient = digits at *
  obtain ⟨e, he⟩ : ∃ e, e = if d.coefficient = 0 ∧ 0 < d.exponent then 0 else d.exponent := ⟨_, rfl⟩
  have hfraction : (-e).toNat = (-d.exponent).toNat := by
    split_ifs at he <;> omega
  have hpower : d.coefficient * 10 ^ e.toNat = d.coefficient * 10 ^ d.exponent.toNat := by
    split_ifs at he with hzero
    · rw [hzero.1, zero_mul, zero_mul]
    · rw [he]
  rw [← he, ← hfraction, ← hpower]
  simp only
  split_ifs with hsmall hlarge hwhole
  · -- zeros after the point
    refine ⟨by simp, ?_, ?_, ?_⟩
    · intro c hc
      simp only [List.mem_append, List.mem_singleton] at hc
      rcases hc with rfl | hc | hc
      · rfl
      · exact isDigit_replicate hc
      · exact hdigits c hc
    · rw [List.length_append, List.length_replicate]
      omega
    · have hzero : e.toNat = 0 := by omega
      rw [← List.append_assoc, Nat.ofDigitChars_append, Nat.ofDigitChars_append,
        Nat.ofDigitChars_replicate_zero, hzero, pow_zero, mul_one]
      exact hnumber
  · -- zeros before it
    refine ⟨by simp [hne], ?_, ?_, ?_⟩
    · intro c hc
      simp only [List.append_nil, List.mem_append] at hc
      exact hc.elim (hdigits c) isDigit_replicate
    · rw [List.length_nil]
      omega
    · have hzeros : (e + digits.length - digits.length).toNat = e.toNat := by omega
      rw [List.append_nil, Nat.ofDigitChars_append, hnumber, Nat.ofDigitChars_replicate_zero, hzeros,
        mul_comm]
  · -- the point stands before the first digit
    have hzero : e.toNat = 0 := by omega
    refine ⟨by simp, ?_, ?_, ?_⟩
    · intro c hc
      rcases List.mem_append.1 hc with hc | hc
      · rw [List.mem_singleton.1 hc]
        rfl
      · exact hdigits c (List.mem_of_mem_drop hc)
    · rw [List.length_drop]
      omega
    · have hall : digits.drop (e + digits.length).toNat = digits := by
        have htake := List.take_append_drop (e + digits.length).toNat digits
        rwa [hwhole, List.nil_append] at htake
      rw [hall, Nat.ofDigitChars_append, hzero, pow_zero, mul_one]
      exact hnumber
  · -- or after it
    have hzero : e.toNat = 0 := by omega
    refine ⟨hwhole, ?_, ?_, ?_⟩
    · rw [List.take_append_drop]
      exact hdigits
    · rw [List.length_drop]
      omega
    · rw [List.take_append_drop, hnumber, hzero, pow_zero, mul_one]

/-- The notation is plain. -/
def Plain (decimals : ℕ) (text : List Char) : Prop := ∃ sign whole fraction,
  text = sign ++ whole ++ pointed fraction ∧ (sign = [] ∨ sign = ['-']) ∧ whole ≠ [] ∧
    (∀ c ∈ whole ++ fraction, c.isDigit = true) ∧ fraction.length = decimals

theorem plain_plain (d : Triple) : Plain (-d.exponent).toNat d.plainChars := by
  obtain ⟨hne, hdigits, hlength, -⟩ := d.places_spec
  refine ⟨if d.negative then ['-'] else [], d.places.1, d.places.2, rfl, ?_, hne, hdigits, hlength⟩
  split_ifs
  · exact .inr rfl
  · exact .inl rfl

/-! ## Exponents above zero -/

theorem value_normal (d : Triple) : d.normal.value = d.value := by
  unfold value normal sign
  push_cast
  rw [mul_assoc, mul_assoc, mul_assoc]
  congr 2
  rw [← zpow_natCast, ← zpow_add₀ (by norm_num)]
  congr 1
  omega

theorem toDigits_mul_pow {n : ℕ} (h : 0 < n) (k : ℕ) :
    Nat.toDigits 10 (n * 10 ^ k) = Nat.toDigits 10 n ++ List.replicate k '0' := by
  induction k with
  | zero => simp
  | succ k ih =>
    have hpos : 0 < n * 10 ^ k := by positivity
    have happend := Nat.toDigits_append_toDigits (b := 10) (d := 0) (by norm_num) hpos (by norm_num)
    rw [pow_succ, ← mul_assoc, mul_comm _ 10, ← Nat.add_zero (10 * (n * 10 ^ k)), ← happend, ih,
      Nat.toDigits_zero, List.append_assoc, List.replicate_succ']

theorem places_of_zero {d : Triple} (h : d.exponent = 0) :
    d.places = (Nat.toDigits 10 d.coefficient, []) := by
  have hne : Nat.toDigits 10 d.coefficient ≠ [] := Nat.toDigits_ne_nil
  unfold places
  simp only [h, lt_self_iff_false, and_false, if_false, zero_add, Int.toNat_natCast, List.take_length,
    List.drop_length, if_neg hne]
  rw [if_neg (by omega)]

theorem places_normal (d : Triple) : d.normal.places = d.places := by
  rcases le_or_gt d.exponent 0 with he | he
  · have hnormal : d.normal = d := by
      have hzero : d.exponent.toNat = 0 := by omega
      unfold normal
      rw [hzero, pow_zero, mul_one, min_eq_left he]
    rw [hnormal]
  rw [places_of_zero (d := d.normal) (min_eq_right he.le), normal]
  rcases Nat.eq_zero_or_pos d.coefficient with hc | hc
  · simp [places, hc, he]
  · have hlen : 0 < (Nat.toDigits 10 d.coefficient).length := Nat.length_toDigits_pos
    have hne : ¬ (d.coefficient = 0 ∧ 0 < d.exponent) := fun h => hc.ne' h.1
    have hneg : ¬ d.exponent + ((Nat.toDigits 10 d.coefficient).length : ℤ) < 0 := by omega
    have hmore : ((Nat.toDigits 10 d.coefficient).length : ℤ) <
        d.exponent + (Nat.toDigits 10 d.coefficient).length := by omega
    have hzeros : (d.exponent + (Nat.toDigits 10 d.coefficient).length -
        (Nat.toDigits 10 d.coefficient).length).toNat = d.exponent.toNat := by omega
    unfold places
    rw [if_neg hne, if_neg hneg, if_pos hmore, hzeros, toDigits_mul_pow hc]

theorem plain_normal (d : Triple) : d.normal.plain = d.plain := by
  unfold plain plainChars
  rw [places_normal]
  rfl

end Triple

end Decimal

example : (⟨true, 5, 2⟩ : Decimal.Triple).plain = "-500" ∧ (⟨false, 5, -3⟩ : Decimal.Triple).plain = "0.005" ∧
    (⟨false, 0, 3⟩ : Decimal.Triple).plain = "0" := by
  decide +kernel
