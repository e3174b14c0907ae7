import ReckonFlow.Spec.BankCsv
import ReckonFlow.Spec.Ledger

/-! `schemas/ledger.py`: the validators of a proposed transaction. -/

namespace ReckonFlow

open Decimal

/-- A `MoneyStr`, by the number it stands for. -/
structure MoneyStr where
  value : ℚ
  scale : HasScale 4 value

theorem mustBeDecimal_hasScale {U : Unicode} {text : String} {q : ℚ}
    (h : mustBeDecimal U text = .ok q) : HasScale 4 q := by
  unfold mustBeDecimal at h
  split at h
  · cases h
  · cases h
  · cases h
  · rename_i coefficient exponent _
    split_ifs at h with hexp
    obtain rfl := Except.ok.inj h
    obtain ⟨n, hn⟩ : ∃ n : ℕ, exponent + 4 = n := by
      refine ⟨(exponent + 4).toNat, ?_⟩
      unfold maxMoneyDecimals at hexp
      omega
    refine ⟨coefficient * 10 ^ n, ?_⟩
    rw [mul_assoc, ← zpow_natCast, ← zpow_add₀ (by norm_num)]
    push_cast
    rw [hn, zpow_natCast]

/-- The validated field. -/
def MoneyStr.ofText (U : Unicode) (text : String) : Except FieldError MoneyStr :=
  match h : mustBeDecimal U text with
  | .ok q => .ok ⟨q, mustBeDecimal_hasScale h⟩
  | .error e => .error e

namespace Schemas

/-- The default `"0"`. -/
def zero : MoneyStr := ⟨0, HasScale.zero 4⟩

/-- A line whose fields have passed their own checks. -/
structure LedgerLineCreate where
  accountId : Id
  debit : MoneyStr := zero
  credit : MoneyStr := zero
  currency : String := "EUR"
  memo : Option String := none

/-- `model_dump()`, as the service reads it. -/
def LedgerLineCreate.dump (line : LedgerLineCreate) : LedgerLine :=
  ⟨line.accountId, some line.debit.value, some line.credit.value, line.currency, line.memo⟩

def checkSingleSided (line : LedgerLineCreate) : Except Error Unit := do
  ensure (¬ (line.debit.value < 0 ∨ line.credit.value < 0))
    (.value "I refuse negative amounts; flip the side instead")
  ensure (¬ (0 < line.debit.value ∧ 0 < line.credit.value))
    (.value "A line is either a debit or a credit, not both")
  ensure (¬ (line.debit.value = 0 ∧ line.credit.value = 0))
    (.value "A line must carry a non-zero debit or credit")

/-- What a `ValidationError` reports of the lines, and the one exception that is no `ValueError`
and leaves the validator as it is. -/
inductive Refusal where
  /-- each line that is refused, by its index -/
  | lines (errors : List (ℕ × Error))
  /-- `min_length=2` -/
  | tooShort (length : ℕ)
  /-- "Unbalanced …: debit=… credit=…" -/
  | unbalanced (currency : String) (debit credit : ℚ)
  /-- `decimal.Overflow` -/
  | raised (e : Error)

variable (env : Env)

/-- One turn of the loop of `check_balanced`. -/
def addAmounts (buckets : Buckets) (line : LedgerLineCreate) : Except Error Buckets :=
  addToBucket buckets (env.upper line.currency) line.debit.value line.credit.value

def byCurrency (lines : List LedgerLineCreate) : Except Error Buckets :=
  lines.foldlM (addAmounts env) []

def checkBalanced (lines : List LedgerLineCreate) : Except Refusal Unit :=
  match byCurrency env lines with
  | .error e => .error (.raised e)
  | .ok buckets => match buckets.find? fun b => b.2.1 ≠ b.2.2 with
      | some (currency, debit, credit) => .error (.unbalanced currency debit credit)
      | none => .ok ()

/-- What is wrong with a line, with its index. -/
def lineError (c : LedgerLineCreate × ℕ) : Option (ℕ × Error) :=
  match checkSingleSided c.1 with
  | .ok _ => none
  | .error e => some (c.2, e)

def lineErrors (lines : List LedgerLineCreate) : List (ℕ × Error) := lines.zipIdx.filterMap lineError

/-- The lines of a `LedgerTransactionCreate`: each by itself, their number, the balance. -/
def validateLines (lines : List LedgerLineCreate) : Except Refusal Unit :=
  if lineErrors lines ≠ [] then .error (.lines (lineErrors lines))
  else if lines.length < 2 then .error (.tooShort lines.length)
  else checkBalanced env lines

end Schemas

end ReckonFlow
