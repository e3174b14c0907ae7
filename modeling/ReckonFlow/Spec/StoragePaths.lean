import ReckonFlow.Lib.PyPath

/-! `safe_filename`, and the paths of `ReceiptService` below its storage directory. -/

namespace ReckonFlow.Storage

open PyText PyPath

/-- The characters that `_SAFE_NAME_RE` does not match. -/
def isSafe (c : Fin 0x110000) : Bool :=
  (scalar c).any fun d => d.isAlphanum || d = '.' || d = '_' || d = '-'

/-- `_SAFE_NAME_RE.sub("_", name)`, a run of odd characters at a time; `inRun` tells whether one has
begun. -/
def replaceRuns : Bool → PyStr → PyStr
  | _, [] => []
  | inRun, c :: cs =>
      if isSafe c then c :: replaceRuns false cs
      else if inRun then replaceRuns true cs
      else codePoint '_' :: replaceRuns true cs

def isEdge (c : Fin 0x110000) : Bool := c = codePoint '.' || c = codePoint '_'

/-- `name.strip("._")` -/
def stripEdges (name : PyStr) : PyStr := ((name.dropWhile isEdge).reverse.dropWhile isEdge).reverse

/-- `safe_filename` of a basename. -/
def safeBasename (name : PyStr) : PyStr :=
  let cleaned := stripEdges (replaceRuns false name)
  (if cleaned = [] then py "receipt" else cleaned).take 120

def safeFilename (name : PyStr) : PyStr := safeBasename (Path.parse name).name

/-- `uuid.uuid4().hex` -/
structure UuidHex where
  digits : List Char
  hexadecimal : ∀ c ∈ digits, c.isDigit = true ∨ ('a' ≤ c ∧ c ≤ 'f')
  length : digits.length = 32

/-- `f"{uuid.uuid4().hex}_{safe_filename(filename)}"` -/
def storedName (uuid : UuidHex) (filename : PyStr) : PyStr :=
  uuid.digits.map codePoint ++ codePoint '_' :: safeFilename filename

inductive PathError where
  /-- "Stored file path escapes the storage directory" -/
  | escapes
  /-- "Symlink loop from …" -/
  | symlinkLoop
  deriving DecidableEq

def resolved (fs : FileSystem) (path : Path) : Except PathError (List PyStr) :=
  match resolve fs path with
  | some path => .ok path
  | none => .error .symlinkLoop

/-- `_resolve_storage_path` -/
def resolveStoragePath (fs : FileSystem) (storage path : Path) : Except PathError (List PyStr) := do
  let storageRoot ← resolved fs storage
  let path ← resolved fs path
  if storageRoot <+: path then .ok path else .error .escapes

/-- The path `store_upload` writes to. -/
def uploadPath (fs : FileSystem) (storage : Path) (uuid : UuidHex) (filename : PyStr) :
    Except PathError (List PyStr) :=
  resolveStoragePath fs storage (storage.join (storedName uuid filename))

example : (["../../etc/passwd", "a/b/c.pdf", "invoice.pdf", "..", "é\x00 ü.txt"].map fun name =>
    safeFilename (py name)) = ["passwd", "c.pdf", "invoice.pdf", "receipt", "txt"].map py := by
  decide +kernel

end ReckonFlow.Storage
