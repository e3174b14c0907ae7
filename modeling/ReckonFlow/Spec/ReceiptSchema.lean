import ReckonFlow.Proofs.MoneyText
import ReckonFlow.Spec.ReceiptUploads

/-! `schemas/receipt.py`: what an extraction may hold, its dump to the column of the receipt and
the validation on the way back. A value of a field type carries the fact that its validators
have returned it. -/

namespace ReckonFlow.ReceiptSchema

open ReceiptUpload

variable (U : Unicode) (env : Env)

structure MoneyStr where
  text : String
  accepted : ∃ value, MoneyText.moneyStr U value = .ok text
  deriving DecidableEq

structure CurrencyCode where
  text : String
  accepted : ∃ code : String, code.length = 3 ∧ env.upper code = text
  deriving DecidableEq

/-- A `str` of limited length. -/
structure ShortText (n : ℕ) where
  text : String
  short : text.length ≤ n
  deriving DecidableEq

structure ReceiptLineItem where
  description : ShortText 300
  quantity : MoneyStr U
  unitPrice : Option (MoneyStr U)
  total : MoneyStr U
  deriving DecidableEq

structure ReceiptExtraction where
  vendor : ShortText 160
  receiptDate : Option Date
  currency : CurrencyCode env
  subtotal : Option (MoneyStr U)
  vatAmount : Option (MoneyStr U)
  vatRate : Option (MoneyStr U)
  total : MoneyStr U
  lineItems : List (ReceiptLineItem U)
  deriving DecidableEq

/-- What a model is built from: the values `json.loads` returns, and those the extractors pass. -/
inductive Input where
  | none
  | bool (b : Bool)
  | int (n : ℤ)
  | float
  | str (s : String)
  | decimal (d : Number)
  | date (d : Date)
  | list (items : List Input)
  | dict (members : List (String × Input))
  | item (i : ReceiptLineItem U)

/-- `json.loads`, the serialiser of pydantic, its reading of what is no date yet, and what upper
case makes of the default code. -/
structure Library where
  dumps : Input U → String
  loads : String → Option (Input U)
  isoformat : Date → String
  dateOf : Input U → Option Date
  upper_eur : env.upper "EUR" = "EUR"

/-! ## Validation -/

/-- Where an error lies. -/
abbrev Loc := List String

abbrev Check (α : Type) := Except (List Loc) α

variable {U}

def Input.money : Input U → MoneyInput
  | .str s => .str s
  | .int n => .int n
  | .bool b => .bool b
  | .float => .float
  | .decimal d => .decimal d
  | _ => .other

def moneyStr (value : Input U) : Check (MoneyStr U) :=
  match h : MoneyText.moneyStr U value.money with
  | .ok text => .ok ⟨text, _, h⟩
  | .error _ => .error [[]]

def currencyCode : Input U → Check (CurrencyCode env)
  | .str code => if h : code.length = 3 then .ok ⟨env.upper code, code, h, rfl⟩ else .error [[]]
  | _ => .error [[]]

def shortText (n : ℕ) : Input U → Check (ShortText n)
  | .str s => if h : s.length ≤ n then .ok ⟨s, h⟩ else .error [[]]
  | _ => .error [[]]

/-- `… | None` -/
def orNone {α : Type} (check : Input U → Check α) : Input U → Check (Option α)
  | .none => .ok none
  | value => (check value).map some

/-- One field; a default is not validated. -/
def field {α : Type} (members : List (String × Input U)) (name : String) (check : Input U → Check α)
    (default : Option α) : Check α :=
  match Dict.get members name with
  | some value => (check value).mapError (List.map (name :: ·))
  | none => match default with
      | some a => .ok a
      | none => .error [[name]]

/-- `extra="forbid"` -/
def noExtras (names : List String) (members : List (String × Input U)) : Check Unit :=
  match (Dict.keys members).filter (· ∉ names) with
  | [] => .ok ()
  | extras => .error (extras.map fun name => [name])

/-- The default `"1"`. -/
def one : MoneyStr U := ⟨"1", .str "1", moneyStr_str.2 (mustBeDecimal_plain (d := ⟨false, 1, 0⟩) (by decide))⟩

def lineItem : Input U → Check (ReceiptLineItem U)
  | .item i => .ok i
  | .dict members =>
      (Except.both (field members "description" (shortText 300) none)
        (Except.both (field members "quantity" moneyStr (some one))
        (Except.both (field members "unit_price" (orNone moneyStr) (some none))
        (Except.both (field members "total" moneyStr none)
          (noExtras ["description", "quantity", "unit_price", "total"] members))))).map
        fun (description, quantity, unitPrice, total, _) => ⟨description, quantity, unitPrice, total⟩
  | _ => .error [[]]

def lineItems : Input U → Check (List (ReceiptLineItem U))
  | .list items => Except.collect (items.zipIdx.map fun (value, i) =>
      (lineItem value).mapError (List.map (toString i :: ·)))
  | _ => .error [[]]

variable {env} (L : Library U env)

def date : Input U → Check Date
  | .date d => .ok d
  | value => match L.dateOf value with
      | some d => .ok d
      | none => .error [[]]

/-- The default `"EUR"`. -/
def eur : CurrencyCode env := ⟨"EUR", "EUR", rfl, L.upper_eur⟩

def extractionFields : List String :=
  ["vendor", "receipt_date", "currency", "subtotal", "vat_amount", "vat_rate", "total", "line_items"]

/-- `ReceiptExtraction.model_validate(value)` -/
def modelValidate : Input U → Check (ReceiptExtraction U env)
  | .dict members =>
      (Except.both (field members "vendor" (shortText 160) none)
        (Except.both (field members "receipt_date" (orNone (date L)) (some none))
        (Except.both (field members "currency" (currencyCode env) (some (eur L)))
        (Except.both (field members "subtotal" (orNone moneyStr) (some none))
        (Except.both (field members "vat_amount" (orNone moneyStr) (some none))
        (Except.both (field members "vat_rate" (orNone moneyStr) (some none))
        (Except.both (field members "total" moneyStr none)
        (Except.both (field members "line_items" lineItems (some []))
          (noExtras extractionFields members))))))))).map
        fun (vendor, receiptDate, currency, subtotal, vatAmount, vatRate, total, lineItems, _) =>
          ⟨vendor, receiptDate, currency, subtotal, vatAmount, vatRate, total, lineItems⟩
  | _ => .error [[]]

/-! ## The column of the receipt -/

def dumpAmount : Option (MoneyStr U) → Input U
  | some amount => .str amount.text
  | none => .none

def ReceiptLineItem.dump (i : ReceiptLineItem U) : Input U :=
  .dict [("description", .str i.description.text), ("quantity", .str i.quantity.text),
    ("unit_price", dumpAmount i.unitPrice), ("total", .str i.total.text)]

def dumpDate : Option Date → Input U
  | some d => .str (L.isoformat d)
  | none => .none

/-- What `model_dump_json` writes. -/
def ReceiptExtraction.dump (e : ReceiptExtraction U env) : Input U :=
  .dict [("vendor", .str e.vendor.text), ("receipt_date", dumpDate L e.receiptDate),
    ("currency", .str e.currency.text), ("subtotal", dumpAmount e.subtotal),
    ("vat_amount", dumpAmount e.vatAmount), ("vat_rate", dumpAmount e.vatRate),
    ("total", .str e.total.text), ("line_items", .list (e.lineItems.map (·.dump)))]

/-- `ReceiptService.save_extraction`: the row it leaves. -/
def saveExtraction (extraction : ReceiptExtraction U env) : Receipt :=
  ReceiptUpload.saveExtraction (L.dumps (extraction.dump L))

/-- `ReceiptService.read_extraction` -/
def readExtraction (receipt : Receipt) : Option (ReceiptExtraction U env) :=
  match receipt.extractedJson with
  | none => none
  | some json =>
      if json = "" then none
      else match L.loads json with
        | none => none
        | some value => (modelValidate L value).toOption

end ReckonFlow.ReceiptSchema
