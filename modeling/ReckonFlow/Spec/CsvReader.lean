import ReckonFlow.Lib.Text

/-! Python's `csv` module in its default dialect: the state machine of `csv.reader`, fed with
the lines of a `StringIO`, and the dictionaries of `csv.DictReader`. -/

namespace Csv

inductive ReadError where
  /-- "new-line character seen in unquoted field" -/
  | newLineInUnquotedField
  /-- "field larger than field limit (131072)" -/
  | fieldTooLarge
  deriving DecidableEq

inductive Mode where
  | startRecord
  | startField
  | inField
  | inQuotedField
  | quoteInQuotedField
  | eatCrnl
  deriving DecidableEq

/-- The record read so far: its complete fields and the one under way. -/
structure Parser where
  mode : Mode := .startRecord
  fields : List String := []
  field : List Char := []

def fieldLimit : ℕ := 131072

def isNewline (c : Char) : Bool := c = '\n' ∨ c = '\r'

def Parser.goto (p : Parser) (mode : Mode) : Parser := { p with mode := mode }

/-- `parse_save_field` -/
def Parser.saveField (p : Parser) (mode : Mode) : Parser where
  mode := mode
  fields := p.fields ++ [String.ofList p.field]

/-- `parse_add_char` -/
def Parser.addChar (p : Parser) (c : Char) (mode : Mode) : Except ReadError Parser :=
  if p.field.length < fieldLimit then .ok { p with mode := mode, field := p.field ++ [c] }
  else .error .fieldTooLarge

def Parser.startField (p : Parser) (c : Char) : Except ReadError Parser :=
  if isNewline c then .ok (p.saveField .eatCrnl)
  else if c = '"' then .ok (p.goto .inQuotedField)
  else if c = ',' then .ok (p.saveField .startField)
  else p.addChar c .inField

/-- `parse_process_char` -/
def Parser.processChar (p : Parser) (c : Char) : Except ReadError Parser :=
  match p.mode with
  | .startRecord => if isNewline c then .ok (p.goto .eatCrnl) else p.startField c
  | .startField => p.startField c
  | .inField =>
      if isNewline c then .ok (p.saveField .eatCrnl)
      else if c = ',' then .ok (p.saveField .startField)
      else p.addChar c .inField
  | .inQuotedField =>
      if c = '"' then .ok (p.goto .quoteInQuotedField) else p.addChar c .inQuotedField
  | .quoteInQuotedField =>
      -- a doubled quote stands for one
      if c = '"' then p.addChar c .inQuotedField
      else if c = ',' then .ok (p.saveField .startField)
      else if isNewline c then .ok (p.saveField .eatCrnl)
      else p.addChar c .inField
  | .eatCrnl => if isNewline c then .ok p else .error .newLineInUnquotedField

/-- `parse_process_char` at the end of a line. -/
def Parser.endLine (p : Parser) : Parser :=
  match p.mode with
  | .startRecord | .inQuotedField => p
  | .startField | .inField | .quoteInQuotedField => p.saveField .startRecord
  | .eatCrnl => p.goto .startRecord

def Parser.processLine (p : Parser) (line : List Char) : Except ReadError Parser :=
  (line.foldlM Parser.processChar p).map Parser.endLine

/-- The rows of the reader, up to the end of the lines or the error it stops with. A record
goes on over the lines that end inside quotes. -/
def readRows : Parser → List (List Char) → List (List String) × Option ReadError
  | p, [] =>
      if p.field ≠ [] ∨ p.mode = .inQuotedField then ([(p.saveField .startRecord).fields], none)
      else ([], none)
  | p, line :: lines => match p.processLine line with
      | .error e => ([], some e)
      | .ok p =>
          if p.mode = .startRecord then
            let rest := readRows {} lines
            (p.fields :: rest.1, rest.2)
          else readRows p lines

/-- The lines of a `StringIO`, each with its line feed. -/
def splitLines : List Char → List (List Char)
  | [] => []
  | c :: cs =>
      if c = '\n' then [c] :: splitLines cs
      else match splitLines cs with
        | [] => [[c]]
        | line :: lines => (c :: line) :: lines

/-- `csv.reader(io.StringIO(text))` -/
def reader (text : String) : List (List String) × Option ReadError :=
  readRows {} (splitLines text.toList)

example : reader "a,\"b\"\"c\nd\"\r\n\n,x" = ([["a", "b\"c\nd"], [], ["", "x"]], none) := by
  decide +kernel

/-- A value of a row: a cell, `restval`, or the list of the surplus cells. -/
inductive Value where
  | cell (text : String)
  | absent
  | surplus (cells : List String)
  deriving DecidableEq

/-- A row of `DictReader`; the surplus cells have the key `None`. -/
def dictRow (fieldnames row : List String) : List (Option String × Value) :=
  let d := Dict.ofPairs ((fieldnames.zip row).map fun p => (some p.1, .cell p.2))
  if fieldnames.length < row.length then Dict.set d none (.surplus (row.drop fieldnames.length))
  else (fieldnames.drop row.length).foldl (fun d name => Dict.set d (some name) .absent) d

end Csv
