import ReckonFlow.Lib.Regex
import ReckonFlow.Spec.ReceiptSchema

/-! `ai/stub.py`: a receipt read by regular expressions. -/

namespace ReckonFlow.StubExtractor

open Text Regex Regex.Pattern MoneyText ReceiptSchema

/-- The tables of the interpreter once more: what `\b` counts as a word, and `str.isdigit()`,
which holds of superscripts too. -/
structure Tables extends Unicode where
  isWord : Char → Bool
  isdigit : Char → Bool
  digit_isdigit : ∀ c, (digit c).isSome = true → isdigit c = true
  digit_not_space : ∀ c, (digit c).isSome = true → isSpace c = false

variable (T : Tables) (env : Env)

/-- `\d` -/
def Tables.isDecimal (c : Char) : Bool := (T.digit c).isSome

/-! ## Strings -/

/-- `word in text` -/
def contains (text word : String) : Bool := word.toList <:+: text.toList

/-- `s[:n]` -/
def slice (n : ℕ) (s : String) : String := String.ofList (s.toList.take n)

/-- `s.strip(chars)` -/
def stripOf (chars s : String) : String :=
  let strips : Char → Bool := fun c => c ∈ chars.toList
  String.ofList (((s.toList.dropWhile strips).reverse.dropWhile strips).reverse)

def isLineBreak (c : Char) : Bool :=
  c ∈ ['\n', '\r', '\x0b', '\x0c', '\x1c', '\x1d', '\x1e', '\u0085', '\u2028', '\u2029']

/-- The lines of a text, the last of which has begun with `line`, read backwards. -/
def splitLines (line : List Char) : List Char → List (List Char)
  | [] => if line = [] then [] else [line.reverse]
  | '\r' :: '\n' :: cs => line.reverse :: splitLines [] cs
  | c :: cs => if isLineBreak c then line.reverse :: splitLines [] cs else splitLines (c :: line) cs

/-- `s.splitlines()` -/
def splitlines (s : String) : List String := (splitLines [] s.toList).map String.ofList

/-- `s.rfind(c)` -/
def rfind (c : Char) (s : List Char) : ℤ := s.length - 1 - s.reverse.findIdx (· = c)

/-- `s.split(c)[-1]` -/
def lastPart (c : Char) (s : List Char) : List Char := (s.reverse.takeWhile (· ≠ c)).reverse

/-! ## Words and patterns -/

def char (c : Char) : Pattern Char := .one (· = c)

def oneOf (cs : List Char) : Pattern Char := .one (· ∈ cs)

abbrev decimalDigit : Pattern Char := .one T.isDecimal

/-- `\s*` -/
def blanks : Pattern Char := star (.one isSpace)

def literal (s : String) : Pattern Char := s.toList.foldr (fun c r => seq (char c) r) empty

/-- `_CURRENCY_SYMBOLS` -/
def currencySymbols : List (Char × String) := [('€', "EUR"), ('$', "USD"), ('£', "GBP")]

/-- `_CURRENCY_CODES` -/
def currencyCodes : List String := ["EUR", "USD", "GBP", "CHF", "MAD", "SEK"]

/-- Three groups of digits. -/
def dateDigits (n m k : ℕ) (sep : Char) : Pattern Char :=
  seq (times n (decimalDigit T)) (seq (char sep) (seq (times m (decimalDigit T))
    (seq (char sep) (times k (decimalDigit T)))))

/-- `_DATE_PATTERNS`, the boundaries apart -/
def datePatterns : List (Pattern Char × List Directive) :=
  [(dateDigits T 4 2 2 '-', [.year, .lit '-', .month, .lit '-', .day]),
    (dateDigits T 2 2 4 '/', [.day, .lit '/', .month, .lit '/', .year]),
    (dateDigits T 2 2 4 '.', [.day, .lit '.', .month, .lit '.', .year])]

/-- `(?:[ .,]\d{3})*` -/
def thousands : Pattern Char := star (seq (oneOf [' ', '.', ',']) (times 3 (decimalDigit T)))

/-- `(?:[.,]\d{1,2})?` -/
def decimals : Pattern Char := opt (seq (oneOf ['.', ',']) (between 1 2 (decimalDigit T)))

/-- `_AMOUNT_RE` -/
def amountRe : Pattern Char :=
  alt (seq (opt (char '-')) (seq (between 1 3 (decimalDigit T)) (seq (thousands T) (decimals T))))
    (seq (opt (char '-')) (seq (plus (decimalDigit T)) (decimals T)))

/-- `_TOTAL_WORDS` -/
def totalWords : List String := ["total", "amount due", "grand total", "zu zahlen", "montant"]

/-- `_SUBTOTAL_WORDS` -/
def subtotalWords : List String := ["subtotal", "sub-total", "net", "netto", "sous-total"]

/-- `_VAT_WORDS` -/
def vatWords : List String := ["vat", "tax", "mwst", "tva", "btw", "iva"]

/-- `_NOISE_WORDS` -/
def noiseWords : List String :=
  ["thank you", "invoice", "receipt", "customer", "card", "terminal", "change", "cash", "payment",
    "tel", "vat id", "reg no"]

/-! ## The parts of a line -/

/-- `_normalize_amount` -/
def normalizeAmount (token : String) : String :=
  let text := (strip token).toList.filter fun c => c ≠ ' ' ∧ c ≠ '\u00a0'
  let decimalComma := fun c => if c = ',' then '.' else c
  String.ofList (
    if ',' ∈ text ∧ '.' ∈ text then
      if rfind '.' text < rfind ',' text then (text.filter (· ≠ '.')).map decimalComma
      else text.filter (· ≠ ',')
    else if ',' ∈ text then
      if (lastPart ',' text).length ≤ 2 then text.map decimalComma else text.filter (· ≠ ',')
    else text)

/-- The body of the loop in `_amount_on_line`. -/
def readToken (token : List Char) : Option String :=
  let candidate := normalizeAmount (String.ofList token)
  match decimal T.toUnicode candidate with
  | none => none
  | some _ => if candidate.toList.any T.isdigit then some candidate else none

/-- `_amount_on_line` -/
def amountOnLine (line : String) : Option String :=
  (findall (amountRe T) line.toList).reverse.findSome? (readToken T)

/-- `_find_date` -/
def findDate (text : String) : Option Date :=
  (datePatterns T).findSome? fun (pattern, format) =>
    (search (seq (.boundary T.isWord) pattern) (.boundary T.isWord) text.toList).bind fun group =>
      strptime T.toUnicode format (String.ofList group)

/-- `_find_currency` -/
def findCurrency (text : String) : String :=
  match currencySymbols.find? fun (symbol, _) => symbol ∈ text.toList with
  | some (_, code) => code
  | none =>
      let upper := (env.upper text).toList
      (currencyCodes.find? fun code =>
        (search (seq (.boundary T.isWord) (literal code)) (.boundary T.isWord) upper).isSome).getD "EUR"

/-- `_looks_like_line_item` -/
def looksLikeLineItem (line : String) : Bool :=
  let lowered := T.lower line
  if (totalWords ++ subtotalWords ++ vatWords).any (contains lowered) then false
  else if noiseWords.any (contains lowered) then false
  else
    let stripped := stripOf " .:-\t|" (String.ofList (strike (amountRe T) line.toList))
    3 ≤ stripped.length ∧ (amountOnLine T line).isSome

/-! ## The extractor -/

/-- What `extract` raises. -/
inductive Raised where
  /-- `ExtractionError` -/
  | extraction (message : String)
  /-- `ValidationError` -/
  | validation (errors : List Loc)
  deriving DecidableEq

/-- `_find_vendor` -/
def findVendor (lines : List String) : String :=
  match lines.find? fun line => ':' ∈ line.toList ∧
      T.lower (strip (String.ofList (line.toList.takeWhile (· ≠ ':')))) ∈
        ["vendor", "merchant", "supplier"] with
  | some line => slice 160 (strip (String.ofList ((line.toList.dropWhile (· ≠ ':')).drop 1)))
  | none =>
      match lines.find? fun line => !fullmatch (amountRe T) (strip line).toList with
      | some line => slice 160 (stripOf " *#-" line)
      | none => slice 160 (lines.headD "")

/-- `_find_labelled` -/
def findLabelled (lines : List String) (words exclude : List String) : Option String :=
  lines.reverse.findSome? fun line =>
    let lowered := T.lower line
    if exclude.any (contains lowered) then none
    else if words.any (contains lowered) then amountOnLine T line
    else none

/-- `_find_vat_rate` -/
def findVatRate (lines : List String) : Option String :=
  lines.findSome? fun line =>
    if vatWords.any (contains (T.lower line)) then
      (search (seq (between 1 2 (decimalDigit T)) (opt (seq (oneOf ['.', ',']) (decimalDigit T))))
        (seq blanks (char '%')) line.toList).map fun group => normalizeAmount (String.ofList group)
    else none

/-- `^(\d{1,3})\s*[x×]\s*(.+)$`, letters in either case: both groups. -/
def quantityMatch (description : String) : Option (String × String) :=
  let start : Pos Char := ⟨[], description.toList⟩
  ((run (between 1 3 (decimalDigit T)) start).flatMap fun y =>
    (run (seq blanks (seq (oneOf ['x', 'X', '×']) blanks)) y).flatMap fun z =>
      ((run (plus (.one (· ≠ '\n'))) z).filter fun w => w.rest = [] ∨ w.rest = ['\n']).map fun w =>
        (String.ofList (span start y), String.ofList (span z w))).head?

/-- What is left of a line beside its amounts. -/
def description (line : String) : String :=
  stripOf " .:-\t|x×*" (String.ofList (strike (amountRe T) line.toList))

/-- The body of the loop in `_find_line_items`. -/
def lineItemOn (line : String) : Check (Option (ReceiptLineItem T.toUnicode)) :=
  if looksLikeLineItem T line then
    match amountOnLine T line with
    | none => .ok none
    | some amount =>
        let description := description T line
        if description = "" then .ok none
        else
          let (quantity, description) := match quantityMatch T description with
            | some (quantity, rest) => (quantity, strip rest)
            | none => ("1", description)
          (lineItem (.dict [("description", .str (slice 300 description)), ("quantity", .str quantity),
            ("total", .str amount)])).map some
  else .ok none

/-- `_find_line_items` -/
def findLineItems (lines : List String) : Check (List (ReceiptLineItem T.toUnicode)) :=
  ((lines.drop 1).mapM (lineItemOn T)).map List.reduceOption

/-- The lines of a receipt that are not blank. -/
def receiptLines (rawText : String) : List String :=
  ((splitlines rawText).map strip).filter (· ≠ "")

def givenText : Option String → Input T.toUnicode
  | some text => .str text
  | none => .none

def givenDate : Option Date → Input T.toUnicode
  | some d => .date d
  | none => .none

variable {T env} (L : Library T.toUnicode env)

/-- `StubReceiptExtractor.extract` -/
def extract (rawText filename : String) : Except Raised (ReceiptExtraction T.toUnicode env) :=
  let lines := receiptLines rawText
  if lines = [] then .error (.extraction s!"{filename} contains no readable text")
  else
    let vendor := findVendor T lines
    let total := findLabelled T lines totalWords subtotalWords
    let subtotal := findLabelled T lines subtotalWords []
    let vatAmount := findLabelled T lines vatWords []
    let vatRate := findVatRate T lines
    match total with
    | none => .error (.extraction s!"No total found on {filename}")
    | some total => (do
        let items ← findLineItems T lines
        modelValidate L (.dict [("vendor", .str vendor), ("receipt_date", givenDate T (findDate T rawText)),
          ("currency", .str (findCurrency T env rawText)), ("subtotal", givenText T subtotal),
          ("vat_amount", givenText T vatAmount), ("vat_rate", givenText T vatRate),
          ("total", .str total), ("line_items", .list (items.map .item))])).mapError .validation

end ReckonFlow.StubExtractor
