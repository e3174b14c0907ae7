import ReckonFlow.Spec.Bank
import ReckonFlow.Spec.CsvReader

/-! `import_csv` on PostgreSQL: the CSV of an upload, `BankCsvRow` validation row by row, and
the insertion of what is valid. Exponents from `10 ^ 18` on, which the C implementation of `Decimal`
refuses, are read like any other. -/

namespace ReckonFlow

open Text Csv

/-- The Unicode tables of the interpreter: `str.lower()` and the decimal digits. -/
structure Unicode where
  lower : String → String
  digit : Char → Option ℕ
  digit_lt : ∀ c d, digit c = some d → d < 10
  digit_ascii : ∀ c, c.toNat < 128 → digit c = if c.isDigit then some (c.toNat - 48) else none

variable (U : Unicode)

/-! ## Dates -/

def isLeap (year : ℕ) : Bool := year % 4 = 0 ∧ (year % 100 ≠ 0 ∨ year % 400 = 0)

def daysInMonth (year month : ℕ) : ℕ :=
  if month = 2 then if isLeap year then 29 else 28
  else if month ∈ [4, 6, 9, 11] then 30
  else 31

/-- `date(year, month, day).toordinal()` -/
def toOrdinal (year month day : ℕ) : ℤ :=
  let y : ℤ := year - 1
  y * 365 + y / 4 - y / 100 + y / 400 + ((List.range' 1 (month - 1)).map (daysInMonth year)).sum + day

/-- `date(year, month, day)`; `none` where it raises. -/
def Date.ofYmd (year month day : ℕ) : Option Date :=
  if 1 ≤ year ∧ year ≤ 9999 ∧ 1 ≤ month ∧ month ≤ 12 ∧ 1 ≤ day ∧ day ≤ daysInMonth year month then
    if h : 1 ≤ toOrdinal year month day ∧ toOrdinal year month day ≤ 3652059 then
      some ⟨toOrdinal year month day, h⟩
    else none
  else none

/-- The directives of the formats below, and literal characters. -/
inductive Directive where
  | year
  | month
  | day
  | lit (c : Char)
  deriving DecidableEq

/-- A character class of a regular expression, with the digit each character stands for. -/
abbrev CharClass := Char → Option ℕ

def digitRange (lo hi : Char) : CharClass := fun c =>
  if lo ≤ c ∧ c ≤ hi then some (c.toNat - '0'.toNat) else none

def exactly (d : Char) : CharClass := fun c => if c = d then some 0 else none

/-- The regular expressions of `_strptime`: alternatives in order. -/
def Directive.alternatives : Directive → List (List CharClass)
  | .year => [[U.digit, U.digit, U.digit, U.digit]]
  | .month => [[digitRange '1' '1', digitRange '0' '2'], [digitRange '0' '0', digitRange '1' '9'],
      [digitRange '1' '9']]
  | .day => [[digitRange '3' '3', digitRange '0' '1'], [digitRange '1' '2', U.digit],
      [digitRange '0' '0', digitRange '1' '9'], [digitRange '1' '9'],
      [exactly ' ', digitRange '1' '9']]
  | .lit c => [[exactly c]]

/-- One alternative at the start of a text: its number and the rest. -/
def matchClasses : List CharClass → ℕ → List Char → Option (ℕ × List Char)
  | [], number, cs => some (number, cs)
  | k :: ks, number, c :: cs => (k c).bind fun d => matchClasses ks (number * 10 + d) cs
  | _ :: _, _, [] => none

structure DateFields where
  year : ℕ := 1900
  month : ℕ := 1
  day : ℕ := 1
  deriving DecidableEq

def DateFields.store (f : DateFields) (number : ℕ) : Directive → DateFields
  | .year => { f with year := number }
  | .month => { f with month := number }
  | .day => { f with day := number }
  | .lit _ => f

/-- Every way a format matches the start of a text, in the order of backtracking. -/
def matchFormat : List Directive → DateFields → List Char → List (DateFields × List Char)
  | [], f, cs => [(f, cs)]
  | d :: ds, f, cs => ((d.alternatives U).filterMap (matchClasses · 0 cs)).flatMap fun m =>
      matchFormat ds (f.store m.1 d) m.2

/-- `datetime.strptime(text, format).date()`: the first match must reach the end. -/
def strptime (format : List Directive) (text : String) : Option Date :=
  match (matchFormat U format {} text.toList).head? with
  | some (f, []) => Date.ofYmd f.year f.month f.day
  | _ => none

/-- `_DATE_FORMATS` -/
def dateFormats : List (List Directive) :=
  [[.year, .lit '-', .month, .lit '-', .day], [.day, .lit '/', .month, .lit '/', .year],
    [.day, .lit '.', .month, .lit '.', .year], [.month, .lit '/', .day, .lit '/', .year]]

/-- `parse_date`; `none` where no format fits. -/
def parseDate (value : String) : Option Date :=
  dateFormats.findSome? fun format => strptime U format (strip value)

/-! ## Amounts -/

/-- `normalize_amount` -/
def normalizeAmount (value : String) : String :=
  let text := (strip value).toList.filter fun c => c ≠ ' ' ∧ c ≠ '\u00a0'
  let decimalComma := text.map fun c => if c = ',' then '.' else c
  String.ofList (if ',' ∈ text ∧ '.' ∈ text then
    (text.filter (· ≠ '.')).map fun c => if c = ',' then '.' else c
  else decimalComma)

/-- A `Decimal`. -/
inductive PyDecimal where
  | finite (coefficient exponent : ℤ)
  | infinite
  | nan
  deriving DecidableEq

/-- Digits to ASCII, blanks at the ends and underscores removed. -/
def numericAsAscii (s : String) : List Char :=
  ((strip s).toList.filter (· ≠ '_')).map fun c => match U.digit c with
    | some d => Char.ofNat (48 + d)
    | none => c

def numberOf (digits : List Char) : ℕ := digits.foldl (fun n c => n * 10 + (c.toNat - 48)) 0

/-- A sign, and the rest. -/
def splitSign : List Char → ℤ × List Char
  | '-' :: cs => (-1, cs)
  | '+' :: cs => (1, cs)
  | cs => (1, cs)

/-- What may follow the digits. -/
def parseExponent : List Char → Option ℤ
  | [] => some 0
  | e :: cs =>
      if e = 'e' ∨ e = 'E' then
        let (sign, digits) := splitSign cs
        if digits ≠ [] ∧ digits.all Char.isDigit then some (sign * numberOf digits) else none
      else none

/-- A number without its sign: coefficient and exponent. -/
def parseNumber (cs : List Char) : Option (ℕ × ℤ) :=
  let whole := cs.takeWhile Char.isDigit
  let rest := cs.dropWhile Char.isDigit
  let (fraction, rest) := match rest with
    | '.' :: rest => (rest.takeWhile Char.isDigit, rest.dropWhile Char.isDigit)
    | rest => ([], rest)
  if whole ++ fraction = [] then none
  else (parseExponent rest).map fun e => (numberOf (whole ++ fraction), e - fraction.length)

/-- `Decimal(text)`; `none` where it raises. -/
def decimalOf (text : String) : Option PyDecimal :=
  let (sign, cs) := splitSign (numericAsAscii U text)
  let lower := cs.map Char.toLower
  if lower = "inf".toList ∨ lower = "infinity".toList then some .infinite
  else if lower.take 3 = "nan".toList ∧ (lower.drop 3).all Char.isDigit then some .nan
  else if lower.take 4 = "snan".toList ∧ (lower.drop 4).all Char.isDigit then some .nan
  else (parseNumber cs).map fun p => .finite (sign * p.1) p.2

/-! ## Validation -/

/-- What a field of `BankCsvRow` may be rejected for. -/
inductive FieldError where
  | missing
  | stringType
  | dateType
  | tooShort (min : ℕ)
  | tooLong (max : ℕ)
  /-- "Cannot read … as a date" -/
  | unreadableDate (value : String)
  | notDecimal (value : String)
  | notFinite (value : String)
  | tooManyDecimals (value : String)
  deriving DecidableEq

def maxMoneyDecimals : ℕ := 4

/-- `_must_be_decimal`, with the number for the text it returns. -/
def mustBeDecimal (value : String) : Except FieldError ℚ :=
  match decimalOf U value with
  | none => .error (.notDecimal value)
  | some .infinite | some .nan => .error (.notFinite value)
  | some (.finite coefficient exponent) =>
      if exponent < -maxMoneyDecimals then .error (.tooManyDecimals value)
      else .ok (coefficient * 10 ^ exponent)

def validateDate : Option Value → Except FieldError Date
  | none => .error .missing
  | some (.cell s) => match parseDate U s with
      | some date => .ok date
      | none => .error (.unreadableDate s)
  | some _ => .error .dateType

def validateAmount : Option Value → Except FieldError ℚ
  | none => .error .missing
  | some (.cell s) => mustBeDecimal U (normalizeAmount s)
  | some _ => .error .stringType

variable (env : Env)

/-- `CurrencyCode`, three characters before they are put in upper case. -/
def validateCurrency : Option Value → Except FieldError String
  | none => .ok "EUR"
  | some (.cell s) =>
      if s.toList.length < 3 then .error (.tooShort 3)
      else if 3 < s.toList.length then .error (.tooLong 3)
      else .ok (env.upper s)
  | some _ => .error .stringType

def validateDescription : Option Value → Except FieldError String
  | none => .error .missing
  | some (.cell s) => if s.toList.length < 1 then .error (.tooShort 1) else .ok s
  | some _ => .error .stringType

/-- A blank cell is no id. -/
def validateExternalId : Option Value → Except FieldError (Option String)
  | none | some .absent => .ok none
  | some (.cell s) =>
      if strip s = "" then .ok none
      else if 64 < s.toList.length then .error (.tooLong 64)
      else .ok (some s)
  | some (.surplus _) => .error .stringType

def fieldErrors {α : Type} (field : String) : Except FieldError α → List (String × FieldError)
  | .ok _ => []
  | .error e => [(field, e)]

/-- `BankCsvRow.model_validate(raw)` -/
def validateRow (raw : List (Option String × Value)) :
    Except (List (String × FieldError)) BankCsvRow :=
  let date := validateDate U (Dict.get raw (some "booking_date"))
  let amount := validateAmount U (Dict.get raw (some "amount"))
  let currency := validateCurrency env (Dict.get raw (some "currency"))
  let description := validateDescription (Dict.get raw (some "description"))
  let externalId := validateExternalId (Dict.get raw (some "external_id"))
  match date, amount, currency, description, externalId with
  | .ok date, .ok amount, .ok currency, .ok description, .ok externalId =>
      .ok ⟨date, amount, currency, description, externalId⟩
  | _, _, _, _, _ => .error (fieldErrors "booking_date" date ++ fieldErrors "amount" amount ++
      fieldErrors "currency" currency ++ fieldErrors "description" description ++
      fieldErrors "external_id" externalId)

/-! ## The import -/

/-- `_HEADER_ALIASES` -/
def headerAliases : List (String × String) :=
  [("date", "booking_date"), ("booking date", "booking_date"), ("booking_date", "booking_date"),
    ("value date", "booking_date"), ("amount", "amount"), ("value", "amount"),
    ("currency", "currency"), ("ccy", "currency"), ("description", "description"),
    ("details", "description"), ("reference", "description"), ("external_id", "external_id"),
    ("external id", "external_id"), ("transaction id", "external_id"), ("id", "external_id")]

def normalizeHeader (name : String) : String :=
  let key := (U.lower (strip name)).toList.dropWhile (· = '\uFEFF')
  (Dict.get headerAliases (String.ofList key)).getD
    (String.ofList (key.map fun c => if c = ' ' then '_' else c))

inductive RejectReason where
  /-- "The file has no header" -/
  | noHeader
  | invalid (errors : List (String × FieldError))
  deriving DecidableEq

structure BankImportError where
  lineNumber : ℕ
  reason : RejectReason
  deriving DecidableEq

structure BankImportResult where
  receivedRows : ℕ
  inserted : ℕ
  skippedDuplicates : ℕ
  errors : List BankImportError
  deriving DecidableEq

/-- What `import_csv` raises. -/
inductive ImportFailure where
  | csv (e : ReadError)
  /-- a list has no `strip` -/
  | attribute
  | database (e : Error)
  deriving DecidableEq

/-- `any((value or "").strip() for value in raw.values())` -/
def anyText : List Value → Except ImportFailure Bool
  | [] => .ok false
  | .cell s :: vs => if strip s = "" then anyText vs else .ok true
  | .absent :: vs => anyText vs
  | .surplus _ :: _ => .error .attribute

/-- What the loop over the body carries; `line` is the number of the last row. -/
structure Parsed where
  rows : List BankCsvRow := []
  errors : List BankImportError := []
  received : ℕ := 0
  line : ℕ := 0

def parseRow (fieldnames : List String) (st : Parsed) (row : List String) :
    Except ImportFailure Parsed :=
  -- `DictReader` drops empty rows
  if row = [] then .ok st
  else do
    let raw := dictRow fieldnames row
    let st := { st with line := st.line + 1 }
    if ← anyText (raw.map (·.2)) then
      match validateRow U env raw with
      | .ok valid => return { st with rows := st.rows ++ [valid], received := st.received + 1 }
      | .error errors => return { st with
          errors := st.errors ++ [⟨st.line, .invalid errors⟩]
          received := st.received + 1 }
    else return st

/-- `content.decode("utf-8-sig", errors="replace")` -/
def decodeSig (content : List UInt8) : String :=
  decodeUtf8 (if content.take 3 = [0xEF, 0xBB, 0xBF] then content.drop 3 else content)

/-- `import_csv` up to the insertion; `none` where the file has no header. -/
def parseCsv (content : List UInt8) : Except ImportFailure (Option Parsed) :=
  match reader (decodeSig content) with
  | ([], none) => .ok none
  | ([], some e) => .error (.csv e)
  | (header :: body, stop) => do
      let st ← body.foldlM (parseRow U env (header.map (normalizeHeader U))) {}
      match stop with
      | some e => .error (.csv e)
      | none => return some st

/-- `import_csv` on PostgreSQL. -/
def importCsv (db : Db) (content : List UInt8) : Except ImportFailure (Db × BankImportResult) := do
  match ← parseCsv U env content with
  | none => return (db, ⟨0, 0, 0, [⟨0, .noHeader⟩]⟩)
  | some parsed =>
      let (db', inserted, skipped) ← (insertPostgres env db parsed.rows).mapError .database
      return (db', ⟨parsed.received, inserted, skipped, parsed.errors⟩)

end ReckonFlow
