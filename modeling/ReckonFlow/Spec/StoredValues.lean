import ReckonFlow.Lib.Effects
import ReckonFlow.Lib.PyText
import ReckonFlow.Spec.Idempotency

/-! `IdempotencyMiddleware` on whatever text a key may hold: `json.loads` returns any Python
value, of which the middleware then asks what only some types can answer. One request with
a healthy Redis and no other request at the key. -/

namespace ReckonFlow.StoredValues

open PyText

/-- What `json.loads` returns. The members of an object are kept as written: a later one of the
same name replaces an earlier one. -/
inductive Value (φ : Type) where
  | none
  | bool (b : Bool)
  | int (n : ℤ)
  | float (x : φ)
  | str (s : PyStr)
  | list (items : List (Value φ))
  | dict (members : List (PyStr × Value φ))

inductive Loaded (φ : Type) where
  /-- `JSONDecodeError` -/
  | corrupt
  /-- nested too deep, or an integer of more than 4300 digits -/
  | failed
  | value (v : Value φ)

/-- What is not the repository's: the parser, what `repr` asks of Unicode and of floats, and the
response class, which may refuse its status or its headers. -/
structure Runtime (φ ρ : Type) where
  loads : String → Loaded φ
  isprintable : Fin 0x110000 → Bool
  reprFloat : φ → String
  /-- `Response(content, status_code, headers)`, with the pairs the headers were made of -/
  response : List UInt8 → Value φ → List (Value φ × Value φ) → Option ρ
  /-- `response.headers[name] = "true"` -/
  mark : ρ → ρ

variable {φ ρ : Type} (R : Runtime φ ρ)

def hexDigits (width n : ℕ) : List Char :=
  (List.range width).reverse.map fun i => Nat.digitChar (n / 16 ^ i % 16)

/-- `repr()` of a string: single quotes unless only double quotes avoid escaping. -/
def reprStr (s : PyStr) : PyStr :=
  let quote := if codePoint '\'' ∈ s ∧ codePoint '"' ∉ s then '"' else '\''
  let esc (c : Fin 0x110000) : PyStr :=
    if c = codePoint '\\' ∨ c = codePoint quote then [codePoint '\\', c]
    else if c = codePoint '\n' then py "\\n"
    else if c = codePoint '\r' then py "\\r"
    else if c = codePoint '\t' then py "\\t"
    else if R.isprintable c then [c]
    else if c.val < 0x100 then (['\\', 'x'] ++ hexDigits 2 c.val).map codePoint
    else if c.val < 0x10000 then (['\\', 'u'] ++ hexDigits 4 c.val).map codePoint
    else (['\\', 'U'] ++ hexDigits 8 c.val).map codePoint
  [codePoint quote] ++ s.flatMap esc ++ [codePoint quote]

def commas : List PyStr → PyStr := List.intercalate (py ", ")

mutual

/-- `repr()` of a value. -/
def repr : Value φ → PyStr
  | .none => py "None"
  | .bool b => py (if b then "True" else "False")
  | .int n => py (toString n)
  | .float x => py (R.reprFloat x)
  | .str s => reprStr R s
  | .list items => py "[" ++ commas (reprItems items) ++ py "]"
  | .dict members =>
      let shown := Dict.ofPairs (reprMembers members)
      py "\x7b" ++ commas (shown.map fun m => reprStr R m.1 ++ py ": " ++ m.2) ++ py "\x7d"

def reprItems : List (Value φ) → List PyStr
  | [] => []
  | v :: vs => repr v :: reprItems vs

def reprMembers : List (PyStr × Value φ) → List (PyStr × PyStr)
  | [] => []
  | (k, v) :: ms => (k, repr v) :: reprMembers ms

end

/-- `str()` of a value: `repr()`, except that a string is itself. -/
def toStr : Value φ → PyStr
  | .str s => s
  | v => repr R v

/-- Whether a value can be a key of a dictionary. -/
def Value.hashable : Value φ → Bool
  | .list _ | .dict _ => false
  | _ => true

/-- One item of the sequence `dict` is called on. -/
def pairOf : Value φ → Option (Value φ × Value φ)
  | .list [k, v] => if k.hashable then some (k, v) else .none
  | .str [k, v] => some (.str [k], .str [v])
  -- a dictionary is iterated by its names
  | .dict members => match Dict.keys (Dict.ofPairs members) with
      | [k, v] => some (.str k, .str v)
      | _ => .none
  | _ => .none

/-- `dict(value)`: a mapping, or a sequence of pairs; `none` where Python raises. -/
def toDict : Value φ → Option (List (Value φ × Value φ))
  | .dict members => some ((Dict.ofPairs members).map fun m => (.str m.1, m.2))
  | .list items => items.mapM pairOf
  | .str [] => some []
  | _ => .none

/-! ## Redis at the key -/

inductive Command where
  | setNx
  | get
  | delete
  deriving DecidableEq

/-- The text at the key, and the commands sent so far. -/
structure Key where
  value : Option String
  sent : List Command := []
  deriving DecidableEq

/-- What Python raises. -/
inductive Raised where
  | loads
  | attributeError
  | keyError (name : String)
  | unicodeEncodeError
  /-- `dict` of a value that is no mapping, and no sequence of pairs -/
  | dictError
  /-- from the constructor of the response -/
  | response
  deriving DecidableEq

abbrev Redis := EStateM Raised Key

/-- `SET key value NX`: whether it was set. -/
def setNx (text : String) : Redis Bool := fun s => match s.value with
  | none => .ok true ⟨some text, s.sent ++ [.setNx]⟩
  | some _ => .ok false { s with sent := s.sent ++ [.setNx] }

def get : Redis (Option String) := fun s => .ok s.value { s with sent := s.sent ++ [.get] }

def delete : Redis Unit := fun s => .ok () ⟨none, s.sent ++ [.delete]⟩

inductive Answer (ρ : Type) where
  | conflict (detail : String)
  | replay (r : ρ)
  /-- the key is claimed and the handler called -/
  | handler

def legacySentinel : String := "__in_progress__"

def claimText (fingerprint : String) : String :=
  "\x7b\"state\": \"" ++ stateInProgress ++ "\", \"fingerprint\": \"" ++ fingerprint ++ "\"\x7d"

/-- `captured[name]`. -/
def item (payload : List (PyStr × Value φ)) (name : String) : Redis (Value φ) :=
  match Dict.get payload (py name) with
  | some v => pure v
  | none => throw (.keyError name)

/-- `captured["body"].encode("utf-8")`. -/
def bodyBytes : Value φ → Redis (List UInt8)
  | .str s => match encode s with
      | some bytes => pure bytes
      | none => throw .unicodeEncodeError
  | _ => throw .attributeError

def rebuild (captured : List (PyStr × Value φ)) : Redis ρ := do
  let content ← bodyBytes (← item captured "body")
  let status ← item captured "status_code"
  let headers ← item captured "headers"
  match toDict headers with
  | none => throw .dictError
  | some headers => match R.response content status headers with
      | none => throw .response
      | some response => pure response

/-- The text of `payload.get("fingerprint", "")`. -/
def storedFp (payload : List (PyStr × Value φ)) : PyStr :=
  toStr R ((Dict.get payload (py "fingerprint")).getD (.str []))

/-- `payload.get("state") == STATE_IN_PROGRESS`. -/
def inProgress (payload : List (PyStr × Value φ)) : Bool :=
  match Dict.get payload (py "state") with
  | some (.str s) => s = py stateInProgress
  | _ => false

/-- `_handle_existing` of a dictionary. -/
def handlePayload (fingerprint : String) (payload : List (PyStr × Value φ)) :
    Redis (Option (Answer ρ)) :=
  if storedFp R payload ≠ [] ∧ storedFp R payload ≠ py fingerprint then
    pure (some (.conflict differentBody))
  else if inProgress payload then pure (some (.conflict stillProcessing))
  else if (Dict.get payload (py "status_code")).isNone then do
    delete
    return none
  else do
    let response ← rebuild R payload
    return some (.replay (R.mark response))

/-- The part of `_handle_existing` behind the sentinel. -/
def handleStored (fingerprint stored : String) : Redis (Option (Answer ρ)) :=
  match R.loads stored with
  | .corrupt => do
      delete
      return none
  | .failed => throw .loads
  | .value (.dict members) => handlePayload R fingerprint (Dict.ofPairs members)
  -- only a dictionary has `get`
  | .value _ => throw .attributeError

/-- `_handle_existing`: replay, 409, or `none` when the key can be reclaimed. -/
def handleExisting (fingerprint : String) : Redis (Option (Answer ρ)) := do
  match ← get with
  | none => return none
  | some stored =>
      if stored = legacySentinel then return some (.conflict stillProcessing)
      handleStored R fingerprint stored

/-- `dispatch` of a keyed request, up to the call of the handler. -/
def dispatch (fingerprint : String) : Redis (Answer ρ) := do
  if ← setNx (claimText fingerprint) then return .handler
  match ← handleExisting R fingerprint with
  | some answer => return answer
  | none =>
      if ← setNx (claimText fingerprint) then return .handler
      match ← handleExisting R fingerprint with
      | some answer => return answer
      | none => return .conflict couldNotClaimOrReplay

end ReckonFlow.StoredValues
