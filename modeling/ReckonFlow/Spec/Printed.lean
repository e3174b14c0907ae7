import ReckonFlow.Lib.Groups
import ReckonFlow.Spec.BankCsv

/-! Amounts as statements and receipts print them. -/

namespace ReckonFlow

inductive Style where
  /-- `1234.56` -/
  | plain
  /-- `1.234,56` -/
  | dotComma
  /-- `1 234,56` -/
  | spaceComma
  /-- `1234,56` -/
  | comma
  /-- `1,234.56` -/
  | commaDot
  deriving DecidableEq

/-- The digits before the point, grouped or not. -/
def Style.whole (style : Style) (digits : List Char) : List Char :=
  match style with
  | .plain | .comma => digits
  | .dotComma => Groups.grouped '.' digits
  | .spaceComma => Groups.grouped ' ' digits
  | .commaDot => Groups.grouped ',' digits

def Style.point : Style → Char
  | .plain | .commaDot => '.'
  | .dotComma | .spaceComma | .comma => ','

structure Printed where
  style : Style
  negative : Bool
  whole : ℕ
  /-- the decimals, none included -/
  fraction : List Char
  digits : ∀ c ∈ fraction, c.isDigit = true

namespace Printed

variable (p : Printed)

def wholeDigits : List Char := Nat.toDigits 10 p.whole

def sign : List Char := if p.negative then ['-'] else []

def chars : List Char :=
  p.sign ++ p.style.whole p.wholeDigits ++ if p.fraction = [] then [] else p.style.point :: p.fraction

def text : String := String.ofList p.chars

/-- The amount that is meant. -/
def value : ℚ :=
  (if p.negative then -1 else 1) * numberOf (p.wholeDigits ++ p.fraction) / 10 ^ p.fraction.length

end Printed

example : (⟨.dotComma, true, 1234, ['5'], by simp⟩ : Printed).text = "-1.234,5" ∧
    (⟨.dotComma, true, 1234, ['5'], by simp⟩ : Printed).value = -12345 / 10 := by
  decide +kernel

end ReckonFlow
