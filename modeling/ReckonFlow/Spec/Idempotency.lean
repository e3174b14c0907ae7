import ReckonFlow.Spec.Json

/-! `api/middleware/idempotency.py`. The pure parts of the middleware come first
(key, fingerprint, capture, rebuild, the reading of a stored value), then
`dispatch` as a transition system in which every await is one event: any number
of requests interleave, every Redis call may fail with or without its effect,
and the wrapped application may return anything or raise. -/

namespace ReckonFlow

open Text

structure Request where
  method : String
  /-- the decoded path of the ASGI scope, which is routed; `urlPath` is what the URL keeps of it -/
  path : String
  query : String := ""
  /-- names in lower case, as ASGI delivers them -/
  headers : List (String × String) := []
  body : List UInt8 := []
  client : Option String := none
  deriving DecidableEq

/-- `request.url.path`: `urlsplit` of `scheme://host` and the decoded path drops tabs and line breaks,
takes what precedes the first of `/?#` for the host and ends the path at `?` or `#`. The host itself
has none of these, and no brackets. -/
def urlPath (path : String) : String :=
  let kept := path.toList.filter fun c => c ∉ ['\t', '\r', '\n']
  String.ofList ((kept.dropWhile fun c => c ∉ ['/', '?', '#']).takeWhile fun c => c ∉ ['?', '#'])

/-- `request.headers.get(name)`. -/
def Request.header (r : Request) (name : String) : Option String := Dict.get r.headers name

structure Response where
  status : ℤ
  headers : List (String × String) := []
  body : List UInt8 := []
  latin1 : ∀ h ∈ headers, IsLatin1 h.1 ∧ IsLatin1 h.2
  deriving DecidableEq

/-- `response.headers[name] = value`: the first occurrence is replaced, the others go. -/
def setRaw (name value : String) : List (String × String) → List (String × String)
  | [] => [(name, value)]
  | h :: hs => if h.1 = name then (name, value) :: hs.filter (·.1 ≠ name)
      else h :: setRaw name value hs

theorem mem_setRaw {name value : String} {hs : List (String × String)} {h : String × String}
    (hm : h ∈ setRaw name value hs) : h = (name, value) ∨ h ∈ hs := by
  induction hs with
  | nil => exact .inl (List.mem_singleton.1 hm)
  | cons g hs ih =>
    unfold setRaw at hm
    split at hm
    · exact (List.mem_cons.1 hm).imp id fun hm => List.mem_cons_of_mem _ (List.mem_of_mem_filter hm)
    · rcases List.mem_cons.1 hm with rfl | hm
      · exact .inr (List.mem_cons_self ..)
      · exact (ih hm).imp id (List.mem_cons_of_mem _)

/-- Set a header whose name and value are Latin-1; other values cannot be sent. -/
def Response.setHeader (r : Response) (name value : String)
    (hn : IsLatin1 name ∧ IsLatin1 value) : Response where
  status := r.status
  headers := setRaw name value r.headers
  body := r.body
  latin1 := fun h hm => (mem_setRaw hm).elim (fun e => e ▸ hn) (r.latin1 h)

def idempotencyHeader : String := "idempotency-key"
def replayHeader : String := "idempotency-replayed"
def mutatingMethods : List String := ["POST", "PUT", "PATCH", "DELETE"]
def stateInProgress : String := "in_progress"

/-- Transport headers, not part of a response's meaning. -/
def skippedHeaders : List String := ["content-length", "transfer-encoding", "connection"]

/-- What `hexdigest` of a SHA-256 returns. -/
structure HexDigest where
  text : String
  length_eq : text.length = 64
  deriving DecidableEq

/-- The constructor arguments of `IdempotencyMiddleware`, with the hash it uses. Time is not
modelled, so `ttl_seconds` shows only as the event that an entry expires. -/
structure Middleware where
  enabled : Bool := true
  keyPrefix : String := "reckonflow:"
  sha256 : List UInt8 → HexDigest

/-- What a key holds, up to what the middleware can tell apart: the legacy sentinel, text
that is not JSON, text on which `json.loads` fails otherwise (too deep, too many digits),
or the value it parses to. -/
inductive Stored where
  | sentinel
  | malformed
  | unloadable
  | json (j : Json)

structure CapturedResponse where
  fingerprint : String
  statusCode : ℤ
  headers : List (String × String)
  body : String
  latin1 : ∀ h ∈ headers, IsLatin1 h.1 ∧ IsLatin1 h.2

def CapturedResponse.fields (c : CapturedResponse) : List (String × Json) :=
  [("fingerprint", .str c.fingerprint), ("status_code", .int c.statusCode),
    ("headers", .obj (c.headers.map fun h => (h.1, .str h.2))), ("body", .str c.body)]

variable (M : Middleware)

def bodyFingerprint (body : List UInt8) : String := (M.sha256 body).text

def buildCacheKey (r : Request) (idempotencyKey : String) : String :=
  M.keyPrefix ++ "idempotency:" ++ r.method ++ ":" ++ urlPath r.path ++ ":" ++ idempotencyKey

/-- The key of a request the middleware acts on: enabled, mutating, non-empty header. -/
def keyOf (r : Request) : Option String :=
  match r.header idempotencyHeader with
  | some k => if M.enabled ∧ r.method ∈ mutatingMethods ∧ k ≠ "" then some (buildCacheKey M r k)
      else none
  | none => none

def claimPayload (fingerprint : String) : Stored :=
  .json (.obj [("state", .str stateInProgress), ("fingerprint", .str fingerprint)])

theorem latin1_digits (n : ℕ) : IsLatin1 (toString n) := by
  intro c hc
  have hd : c ∈ Nat.toDigits 10 n := by simpa [Nat.repr] using hc
  have hdigit := Nat.isDigit_of_mem_toDigits (by decide) (by decide) hd
  simp only [Char.isDigit, Bool.and_eq_true, decide_eq_true_eq] at hdigit
  have hle : c.val.toNat ≤ '9'.val.toNat := UInt32.le_iff_toNat_le.1 hdigit.2
  have h9 : '9'.val.toNat = 57 := rfl
  show c.val.toNat < 256
  omega

/-- Starlette's `init_headers`: names in lower case, `content-length` and the media type
added unless they are there. -/
def initHeaders (status : ℤ) (headers : List (String × String)) (body : List UInt8) (json : Bool) :
    List (String × String) :=
  let raw := headers.map fun h => (lowerAscii h.1, h.2)
  let names := raw.map (·.1)
  let length := if "content-length" ∈ names ∨ status < 200 ∨ status = 204 ∨ status = 304 then []
    else [("content-length", toString body.length)]
  let type := if json ∧ "content-type" ∉ names then [("content-type", "application/json")] else []
  raw ++ length ++ type

theorem latin1_initHeaders {status : ℤ} {headers : List (String × String)} {body : List UInt8}
    {json : Bool} (hl : ∀ h ∈ headers, IsLatin1 h.1 ∧ IsLatin1 h.2) :
    ∀ h ∈ initHeaders status headers body json, IsLatin1 h.1 ∧ IsLatin1 h.2 := by
  intro h hm
  simp only [initHeaders, List.mem_append, List.mem_map] at hm
  rcases hm with (⟨g, hg, rfl⟩ | hm) | hm
  · exact ⟨(hl g hg).1.lower, (hl g hg).2⟩
  · split_ifs at hm
    · simp at hm
    · obtain rfl := List.mem_singleton.1 hm
      exact ⟨by simp [IsLatin1], latin1_digits _⟩
  · split_ifs at hm
    · obtain rfl := List.mem_singleton.1 hm
      constructor <;> simp [IsLatin1]
    · simp at hm

/-- `Response(content, status_code, headers)`, or `JSONResponse` for `json`. -/
def response (status : ℤ) (headers : List (String × String)) (body : List UInt8) (json : Bool)
    (hl : ∀ h ∈ headers, IsLatin1 h.1 ∧ IsLatin1 h.2) : Response where
  status := status
  headers := initHeaders status headers body json
  body := body
  latin1 := latin1_initHeaders hl

/-- A `JSONResponse` of one or two string fields, as FastAPI renders them. -/
def jsonResponse (status : ℤ) (fields : List (String × String)) : Response :=
  let field (f : String × String) := "\"" ++ f.1 ++ "\":\"" ++ f.2 ++ "\""
  response status [] (encodeUtf8 ("\x7b" ++ String.intercalate "," (fields.map field) ++ "\x7d"))
    true (by simp)

/-- The 409s of the middleware; `detail` is one of the texts below. -/
def conflict (detail : String) : Response :=
  jsonResponse 409 [("error", "IdempotencyConflict"), ("detail", detail)]

def stillProcessing : String :=
  "A request with this Idempotency-Key is still being processed; retry once it completes"
def differentBody : String :=
  "Idempotency-Key was already used with a different request body"
def couldNotClaim : String :=
  "Could not claim this Idempotency-Key after a failed replay; retry shortly"
def couldNotClaimOrReplay : String :=
  "Could not claim or replay this Idempotency-Key; retry shortly"

/-- `_capture`: the response as a replayable dictionary. -/
def capture (r : Response) (fingerprint : String) : CapturedResponse where
  fingerprint := fingerprint
  statusCode := r.status
  headers := Dict.ofPairs (r.headers.filter fun h => lowerAscii h.1 ∉ skippedHeaders)
  body := decodeUtf8 r.body
  latin1 := fun h hm => r.latin1 h (List.mem_of_mem_filter (Dict.mem_ofPairs hm))

def headerOf : String × Json → Option (String × String)
  | (k, .str v) => some (k, v)
  | _ => none

/-- `_rebuild` of a dictionary; `none` where Python raises (a missing field, a body that is
no string, headers that cannot be encoded). Statuses other than integers and text with lone
surrogates, which only a foreign entry can hold, are told apart in `StoredValues`. -/
def rebuild (payload : List (String × Json)) : Option Response :=
  match Dict.get payload "body", Dict.get payload "status_code", Dict.get payload "headers" with
  | some (.str body), some (.int status), some headers =>
      match headers.toDict.bind (·.mapM headerOf) with
      | some hs =>
          if hl : ∀ h ∈ hs, IsLatin1 h.1 ∧ IsLatin1 h.2 then
            some (response status hs (encodeUtf8 body) false hl)
          else none
      | none => none
  | _, _, _ => none

/-- What `_handle_existing` decides from the value read. -/
inductive Existing where
  | reclaim
  | discard
  | conflict (detail : String)
  | replay (r : Response)
  | crash

def replayed (r : Response) : Response := r.setHeader replayHeader "true" (by simp [IsLatin1, replayHeader])

/-- `payload.get("state") == STATE_IN_PROGRESS`. -/
def inProgress (payload : List (String × Json)) : Bool :=
  match Dict.get payload "state" with
  | some (.str s) => s = stateInProgress
  | _ => false

/-- `_handle_existing` after the read. -/
def handleExisting (fingerprint : String) : Option Stored → Existing
  | none => .reclaim
  | some .sentinel => .conflict stillProcessing
  | some .malformed => .discard
  | some .unloadable => .crash
  | some (.json (.obj payload)) =>
      let storedFp := ((Dict.get payload "fingerprint").getD (.str "")).toStr
      if storedFp ≠ "" ∧ storedFp ≠ fingerprint then .conflict differentBody
      else if inProgress payload then .conflict stillProcessing
      else if (Dict.get payload "status_code").isNone then .discard
      else match rebuild payload with
        | some r => .replay (replayed r)
        | none => .crash
  -- `payload.get` of a list, a number, a string or null
  | some (.json _) => .crash

/-- An entry, with the request that wrote it (ghost; `none` for what was there before). -/
structure Entry where
  value : Stored
  writer : Option ℕ

inductive Outcome where
  /-- one of the middleware's own 409s -/
  | conflict (detail : String)
  | replay (r : Response)
  /-- the application's response, captured, stored and rebuilt -/
  | answered (r : Response)
  /-- the application's response, untouched: not keyed, or failed open -/
  | passed (r : Response)
  /-- the application raised -/
  | raised
  /-- the stored value made the middleware raise -/
  | crashed

/-- Where a request stands in `dispatch`; `second` tells the two calls of
`_handle_existing` apart, `claimed` whether the response will be stored. -/
inductive Phase where
  | idle
  | reading (second : Bool)
  | deleting (second : Bool)
  | reclaiming
  | running (claimed : Bool)
  | storing (c : CapturedResponse)
  | ended (o : Outcome)

/-- How a Redis call goes: answered, failed before or after taking effect. -/
inductive Answer where
  | ok
  | failed
  | lost
  deriving DecidableEq

structure State where
  redis : String → Option Entry
  phase : ℕ → Phase
  /-- requests for which the application was started, latest last -/
  started : List ℕ

inductive Event where
  /-- a request that is not keyed goes straight to the application -/
  | pass (i : ℕ)
  /-- the first `SET NX` -/
  | claim (i : ℕ) (a : Answer)
  /-- the `GET` of `_handle_existing` -/
  | read (i : ℕ) (answered : Bool)
  | delete (i : ℕ) (a : Answer)
  /-- the second `SET NX` -/
  | reclaim (i : ℕ) (a : Answer)
  | finish (i : ℕ) (r : Response)
  | raise (i : ℕ)
  /-- the final `SET` -/
  | store (i : ℕ) (a : Answer)
  | expire (key : String)

/-- The request that takes a step. -/
def Event.actor : Event → Option ℕ
  | .pass i | .claim i _ | .read i _ | .delete i _ | .reclaim i _ | .finish i _ | .raise i
  | .store i _ => some i
  | .expire _ => none

def State.setPhase (s : State) (i : ℕ) (p : Phase) : State :=
  { s with phase := Function.update s.phase i p }

def State.put (s : State) (key : String) (e : Option Entry) : State :=
  { s with redis := Function.update s.redis key e }

def State.start (s : State) (i : ℕ) (claimed : Bool) : State :=
  { s.setPhase i (.running claimed) with started := s.started ++ [i] }

def claimOf (r : Request) (i : ℕ) : Entry := ⟨claimPayload (bodyFingerprint M r.body), some i⟩

def storedOf (c : CapturedResponse) (i : ℕ) : Entry := ⟨.json (.obj c.fields), some i⟩

/-- What follows when `_handle_existing` returns `None`. -/
def afterNone (second : Bool) : Phase :=
  if second then .ended (.conflict couldNotClaimOrReplay) else .reclaiming

/-- What follows an answered read. -/
def afterRead (second : Bool) : Existing → Phase
  | .reclaim => afterNone second
  | .discard => .deleting second
  | .conflict d => .ended (.conflict d)
  | .replay r => .ended (.replay r)
  | .crash => .ended .crashed

/-- One await of `dispatch`; `none` when the request does not stand before it. -/
def dispatchStep (req : ℕ → Request) (s : State) : Event → Option State
  | .pass i => match s.phase i, keyOf M (req i) with
      | .idle, none => some (s.start i false)
      | _, _ => none
  | .claim i a => match s.phase i, keyOf M (req i) with
      | .idle, some key => match a, s.redis key with
          | .ok, none => some ((s.put key (claimOf M (req i) i)).start i true)
          | .ok, some _ => some (s.setPhase i (.reading false))
          -- fail open: any exception of the first call lets the request through
          | .lost, none => some ((s.put key (claimOf M (req i) i)).start i false)
          | .lost, some _ => some (s.start i false)
          | .failed, _ => some (s.start i false)
      | _, _ => none
  | .read i answered => match s.phase i, keyOf M (req i) with
      | .reading second, some key =>
          let value := (s.redis key).map (·.value)
          some (s.setPhase i (if answered then
            afterRead second (handleExisting (bodyFingerprint M (req i).body) value)
            else afterNone second))
      | _, _ => none
  | .delete i a => match s.phase i, keyOf M (req i) with
      | .deleting second, some key =>
          some ((if a = .failed then s else s.put key none).setPhase i (afterNone second))
      | _, _ => none
  | .reclaim i a => match s.phase i, keyOf M (req i) with
      | .reclaiming, some key => match a, s.redis key with
          | .ok, none => some ((s.put key (claimOf M (req i) i)).start i true)
          | .ok, some _ => some (s.setPhase i (.reading true))
          | .lost, none => some ((s.put key (claimOf M (req i) i)).setPhase i
              (.ended (.conflict couldNotClaim)))
          | .lost, some _ => some (s.setPhase i (.ended (.conflict couldNotClaim)))
          | .failed, _ => some (s.setPhase i (.ended (.conflict couldNotClaim)))
      | _, _ => none
  | .finish i r => match s.phase i with
      | .running true => some (s.setPhase i (.storing (capture r (bodyFingerprint M (req i).body))))
      | .running false => some (s.setPhase i (.ended (.passed r)))
      | _ => none
  | .raise i => match s.phase i with
      | .running _ => some (s.setPhase i (.ended .raised))
      | _ => none
  | .store i a => match s.phase i, keyOf M (req i) with
      | .storing c, some key =>
          let s := if a = .failed then s else s.put key (storedOf c i)
          some (s.setPhase i (.ended (match rebuild c.fields with
            | some r => .answered r
            | none => .crashed)))
      | _, _ => none
  | .expire key => some (s.put key none)

/-- Nothing sent yet. -/
def State.init (redis : String → Option Entry) : State := ⟨redis, fun _ => .idle, []⟩

end ReckonFlow
