import ReckonFlow.Lib.Text

/-! The values `json.loads` returns, and `str()` of them. A Redis value is kept as
what `json.loads` makes of it, since `json.dumps` of the values written here is
read back unchanged. -/

namespace ReckonFlow

inductive Json where
  | null
  | bool (b : Bool)
  | int (n : ℤ)
  | float (printed : String)
  | str (s : String)
  | arr (items : List Json)
  | obj (fields : List (String × Json))
  deriving Inhabited

/-- `repr()` of a string: single quotes unless only double quotes avoid escaping. -/
def reprStr (s : String) : String :=
  let quote := if '\'' ∈ s.toList ∧ '"' ∉ s.toList then '"' else '\''
  let esc (c : Char) : List Char :=
    if c = '\\' ∨ c = quote then ['\\', c]
    else if c = '\n' then ['\\', 'n']
    else if c = '\r' then ['\\', 'r']
    else if c = '\t' then ['\\', 't']
    else if c.toNat < 32 ∨ c.toNat = 127 then
      ['\\', 'x', Nat.digitChar (c.toNat / 16), Nat.digitChar (c.toNat % 16)]
    else [c]
  String.ofList (quote :: s.toList.flatMap esc ++ [quote])

mutual

/-- `repr()` of a JSON value. -/
def Json.repr : Json → String
  | .null => "None"
  | .bool b => if b then "True" else "False"
  | .int n => toString n
  | .float printed => printed
  | .str s => reprStr s
  | .arr items => "[" ++ String.intercalate ", " (reprItems items) ++ "]"
  | .obj fields => "\x7b" ++ String.intercalate ", " (reprFields fields) ++ "\x7d"

def reprItems : List Json → List String
  | [] => []
  | j :: js => j.repr :: reprItems js

def reprFields : List (String × Json) → List String
  | [] => []
  | (k, j) :: js => (reprStr k ++ ": " ++ j.repr) :: reprFields js

end

/-- `str()` of a JSON value: `repr()`, except that a string is itself. -/
def Json.toStr : Json → String
  | .str s => s
  | j => j.repr

/-- `dict(value)`: a mapping, or a sequence of pairs; `none` where Python raises. Keys that
are not strings raise as soon as a header is built from them. -/
def Json.toDict : Json → Option (List (String × Json))
  | .obj fields => some fields
  | .arr items => (items.mapM pairOf).map Dict.ofPairs
  | .str s => if s.isEmpty then some [] else none
  | _ => none
where
  pairOf : Json → Option (String × Json)
    | .arr [.str k, v] => some (k, v)
    | .str s => match s.toList with
      | [k, v] => some (k.toString, .str v.toString)
      | _ => none
    | .obj [(k, _), (v, _)] => some (k, .str v)
    | _ => none

example : (Json.obj [("a'b", .arr [.null, .int (-3)])]).toStr = "\x7b\"a'b\": [None, -3]\x7d" := by
  decide +kernel

end ReckonFlow
