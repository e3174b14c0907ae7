import ReckonFlow.Lib.DecimalText
import ReckonFlow.Spec.BankCsv

/-! `core/money.py` and the money types of `schemas/common.py`, on the texts themselves: a
`Decimal` keeps its sign and its exponent. The limits of the C implementation are left out:
it refuses exponents from `10 ^ 18` on. -/

namespace ReckonFlow

open Decimal

/-- A `Decimal`. -/
inductive Number where
  | finite (d : Triple)
  | infinite (negative : Bool)
  | nan
  deriving DecidableEq

/-- The number alone, without the sign of a zero. -/
def Number.forget : Number → PyDecimal
  | .finite d => .finite (d.sign * d.coefficient) d.exponent
  | .infinite _ => .infinite
  | .nan => .nan

/-- What reaches a money field: from JSON a string, an integer, a boolean or a float, from a
service a `Decimal` as well. -/
inductive MoneyInput where
  | str (s : String)
  | int (n : ℤ)
  | bool (b : Bool)
  | float
  | decimal (d : Number)
  /-- null, a list or an object -/
  | other

inductive MoneyError where
  /-- "Refuse booleans as money values" -/
  | boolean
  /-- "Refuse float money values; send a JSON string instead" -/
  | float
  /-- `str()` of an integer stops at 4300 digits -/
  | tooManyDigits
  | field (e : FieldError)
  /-- "Amount must be greater than zero" -/
  | notPositive
  /-- "Cannot parse money from …" -/
  | cannotParse (value : String)
  /-- the exceptions that are no `ValueError` -/
  | raised
  deriving DecidableEq

namespace MoneyText

variable (U : Unicode)

/-- `Decimal(text)`; `none` where it raises. -/
def decimal (text : String) : Option Number :=
  let (sign, cs) := splitSign (numericAsAscii U text)
  let lower := cs.map Char.toLower
  if lower = "inf".toList ∨ lower = "infinity".toList then some (.infinite (sign = -1))
  else if lower.take 3 = "nan".toList ∧ (lower.drop 3).all Char.isDigit then some .nan
  else if lower.take 4 = "snan".toList ∧ (lower.drop 4).all Char.isDigit then some .nan
  else (parseNumber cs).map fun p => .finite ⟨sign = -1, p.1, p.2⟩

/-- `money_to_str`: `format(value, "f")` -/
def moneyToStr : Number → String
  | .finite d => d.plain
  | .infinite negative => if negative then "-Infinity" else "Infinity"
  | .nan => "NaN"

/-- `str(value)` of an integer. -/
def strInt (n : ℤ) : Except MoneyError String :=
  if n.natAbs < 10 ^ 4300 then .ok (toString n) else .error .tooManyDigits

/-- `parse_money` -/
def parseMoney : MoneyInput → Except MoneyError Number
  | .float => .error .raised
  | .decimal d => .ok d
  | .str s => match decimal U s with
      | some d => .ok d
      | none => .error (.cannotParse s)
  | .int n => match strInt n with
      | .error e => .error e
      | .ok s => match decimal U s with
          | some d => .ok d
          | none => .error (.cannotParse s)
  -- "True", "None" and the like
  | .bool _ | .other => .error (.cannotParse "")

/-- `_coerce_money`, with the check for a string behind it. -/
def coerceMoney : MoneyInput → Except MoneyError String
  | .bool _ => .error .boolean
  | .float => .error .float
  | .decimal d => .ok (moneyToStr d)
  | .int n => strInt n
  | .str s => .ok s
  | .other => .error (.field .stringType)

/-- `_must_be_decimal` -/
def mustBeDecimal (value : String) : Except FieldError String :=
  match decimal U value with
  | none => .error (.notDecimal value)
  | some (.infinite _) | some .nan => .error (.notFinite value)
  | some (.finite d) =>
      if d.exponent < -maxMoneyDecimals then .error (.tooManyDecimals value)
      else .ok (moneyToStr (.finite d))

/-- `_must_be_positive` -/
def mustBePositive (value : String) : Except MoneyError String :=
  match decimal U value with
  | some (.finite d) => if d.value ≤ 0 then .error .notPositive else .ok value
  | some (.infinite negative) => if negative then .error .notPositive else .ok value
  -- an invalid text, or a NaN compared
  | some .nan | none => .error .raised

/-- `MoneyStr` -/
def moneyStr (value : MoneyInput) : Except MoneyError String := do
  let text ← coerceMoney value
  (mustBeDecimal U text).mapError .field

/-- `PositiveMoneyStr` -/
def positiveMoneyStr (value : MoneyInput) : Except MoneyError String := do
  let text ← moneyStr U value
  mustBePositive U text

/-- The fields of the API that are written to a column. -/
inductive AmountField where
  /-- `LedgerLineCreate.debit` and `credit` -/
  | ledgerLine
  /-- `TravelRequestCreate.estimated_amount` -/
  | tripEstimate
  /-- `ExpenseCreate.amount` -/
  | expenseAmount
  /-- `BankCsvRow.amount` -/
  | bankRow
  deriving DecidableEq

/-- The fields of type `PositiveMoneyStr`. -/
def AmountField.Positive : AmountField → Prop
  | .tripEstimate | .expenseAmount => True
  | .ledgerLine | .bankRow => False

/-- `normalize_amount` of any value. -/
def normalizeInput : MoneyInput → MoneyInput
  | .str s => .str (normalizeAmount s)
  | value => value

def AmountField.validate : AmountField → MoneyInput → Except MoneyError String
  | .ledgerLine, value => moneyStr U value
  | .tripEstimate, value | .expenseAmount, value => positiveMoneyStr U value
  | .bankRow, value => moneyStr U (normalizeInput value)

/-- What the driver returns for a column of four decimals. -/
def columnDecimal (x : Money) : Number := .finite ⟨x.units < 0, x.units.natAbs, -4⟩

end MoneyText

end ReckonFlow
