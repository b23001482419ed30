import MiniAgent.Turn.Received

/-!
# The browser's trust boundary

`runtimeNodeNormalization.ts`: what the web client accepts as a Turn. A value that has been parsed
is read here as JavaScript reads it: a number by its value only, `String(v)` for the membership
tests that convert first, `===` for the others. `normalizeRuntimeNode` returns the Turn with its
`data` apart from its other members, because the reducer treats it apart.
-/

namespace MiniAgent.Turn.Browser

open Lib

/-! ## Reading values -/

mutual

/-- `String(value)`. A number never spells one of the words it is compared with, so its digits do
not matter. -/
def jsString : Json → String
  | .null => "null"
  | .bool b => if b then "true" else "false"
  | .int n => toString n
  | .float q => toString q
  | .str s => s
  | .arr l => ",".intercalate (jsElements l)
  | .obj _ => "[object Object]"

/-- The elements of an array as `join` prints them: `null` is empty. -/
def jsElements : List Json → List String
  | [] => []
  | .null :: l => "" :: jsElements l
  | v :: l => jsString v :: jsElements l

end

def jsStringOf : Option Json → String
  | some v => jsString v
  | none => "undefined"

def isJsWhitespace (c : Char) : Bool :=
  let n := c.toNat
  (9 ≤ n && n ≤ 13) || n == 32 || n == 0xA0 || n == 0x1680 || (0x2000 ≤ n && n ≤ 0x200A) ||
    n == 0x2028 || n == 0x2029 || n == 0x202F || n == 0x205F || n == 0x3000 || n == 0xFEFF

/-- Whether `s.trim()` is not empty. -/
def hasInk (s : String) : Bool := s.toList.any fun c => !isJsWhitespace c

/-- A number with an integer value, and that value. -/
def jsInteger (value : Option Json) : Option Int :=
  match value.bind Json.num? with
  | some q => if q.den = 1 then some q.num else none
  | none => none

def integerFrom (n : Int) (value : Option Json) : Bool :=
  match jsInteger value with
  | some k => n ≤ k
  | none => false

/-- An integer that indexes a list of `n` elements. -/
def isIndexBelow (n : Nat) (value : Option Json) : Bool :=
  match jsInteger value with
  | some (.ofNat k) => k < n
  | _ => false

/-- `objectValue`. -/
def objectValue : Option Json → Fields
  | some (.obj f) => f
  | _ => []

/-- `===` where at least one side is a number or a string. -/
def strictEq (a b : Option Json) : Bool :=
  match a.bind Json.num?, b.bind Json.num? with
  | some p, some q => p == q
  | none, none => a.bind Json.str? == b.bind Json.str?
  | _, _ => false

def turnProtocolVersion : String := "0.0.2"

def nodeStatuses : List String := ["running", "success", "paused", "failed"]

def permissionModes : List String := ["read_only", "workspace_write", "full_access"]

def runningModes : List String := ["agent", "plan"]

def reasoningEfforts : List String := ["low", "medium", "high", "xhigh", "max"]

def thinkingModes : List String := ["enable", "disable"]

/-- Membership of a string without conversion. -/
def hasWord (words : List String) : Option Json → Bool
  | some (.str s) => words.contains s
  | _ => false

/-! ## Retry Items -/

/-- `max_retries` is an integer not below `attempt`. -/
def retriesCover (item : Fields) : Bool :=
  match jsInteger (item.get "attempt") with
  | some attempt => integerFrom attempt (item.get "max_retries")
  | none => false

/-- A finite number that is not negative. -/
def isDelay (value : Option Json) : Bool :=
  match value.bind Json.num? with
  | some q => 0 ≤ q
  | none => false

def validateRetryItem (value : Json) : Except String Unit :=
  let item := objectValue (some value)
  whenever (item.get "type" == some (.str "retry"))
    (require (item.get "event" == some (.str "model_retry")
      && item.get "category" == some (.str "network")
      && isText (item.get "message")
      && integerFrom 1 (item.get "attempt")
      && retriesCover item
      && isDelay (item.get "delay_seconds")
      && itemStatuses.contains (jsStringOf (item.get "status"))) "Invalid retry Item")

/-! ## The model -/

def positiveInteger (value : Option Json) (fallback : Int) : Int :=
  match jsInteger value with
  | some n => if 1 ≤ n then n else fallback
  | none => fallback

/-- The members of the normalized model, each against the raw one. -/
def normalizeRuntimeNodeModel (raw : Fields) : Fields :=
  let outputLength := positiveInteger (raw.get "output_length") 8192
  let contextLength := positiveInteger (raw.get "context_length") 128000
  let contextLength :=
    if contextLength ≤ outputLength then max 128000 (nearest (outputLength + 1)) else contextLength
  [("reasoning_effort", if hasWord reasoningEfforts (raw.get "reasoning_effort") then
        (raw.get "reasoning_effort").getD .null
      else .str "medium"),
    ("current_model", match raw.get "current_model" with
      | some (.str s) => if hasInk s then .str s else .str "unknown"
      | _ => .str "unknown"),
    ("context_length", .int contextLength),
    ("output_length", .int outputLength),
    ("thinking", if hasWord thinkingModes (raw.get "thinking") then (raw.get "thinking").getD .null
      else .str "enable"),
    ("temperature", match (raw.get "temperature").bind Json.num? with
      | some q => if 0 ≤ q && q ≤ 2 then .float q else .float 0
      | none => .float 0)]

/-! ## The Turn -/

/-- A Turn in the browser: its members other than `data`, and `data`. -/
structure RuntimeStateNode where
  fields : Fields
  data : List (List Fields)

/-- `version[version.length - 1]?.role === "assistant"` for every version. -/
def endsWithAssistant (data : List (List Fields)) : Bool :=
  data.all fun version => (version.getLast?.bind fun m => m.get "role") == some (.str "assistant")

/-- The version an index member selects. -/
def versionAt (data : List (List Fields)) (idx : Option Json) : Option (List Fields) :=
  match jsInteger idx with
  | some (.ofNat n) => data[n]?
  | _ => none

def isTextItem (item : Fields) : Bool :=
  item.get "type" == some (.str "text") && isStr (item.get "text")

/-- A user Message holds one text Item. -/
def userContentOk (content : List Json) : Bool :=
  match content with
  | [.obj item] => isTextItem item
  | _ => false

def arrayOf : Option Json → Option (List Json)
  | some (.arr l) => some l
  | _ => none

/-- The retry check over a list of Items. -/
def validateItems : List Json → Except String Unit
  | [] => .ok ()
  | item :: items => do
    validateRetryItem item
    validateItems items

/-- The checks on one Message; `first` is whether its index is zero. -/
def checkMessage (first : Bool) (previous : Option Fields) (message : Fields) :
    Except String Unit := do
  let role := message.get "role"
  require (!(first && !isUser role) && messageRoles.contains (jsStringOf role)
      && (arrayOf (message.get "content")).isSome)
    "A Turn must start with user and contain valid Messages"
  require (!(isUser role && !first && isUser (previous.bind fun m => m.get "role")))
    "Consecutive user Messages are not allowed"
  let content := (arrayOf (message.get "content")).getD []
  whenever (isUser role)
    (require (userContentOk content) "A user Message must contain one text Item")
  validateItems content

/-- The Message loop of one version. -/
def normalizeMessages (first : Bool) (previous : Option Fields) :
    List Json → Except String (List Fields)
  | [] => .ok []
  | .obj message :: rest => do
    checkMessage first previous message
    let messages ← normalizeMessages false (some message) rest
    pure (message :: messages)
  | _ :: _ => .error "A Turn must start with user and contain valid Messages"

/-- The version loop; `running` is whether the Turn's status is running. -/
def normalizeVersions (running : Bool) : List Json → Except String (List (List Fields))
  | [] => .ok []
  | .arr (message :: messages) :: rest => do
    let version ← normalizeMessages true none (message :: messages)
    require (running || endsWithAssistant [version]) "A non-running Turn must end with assistant"
    let versions ← normalizeVersions running rest
    pure (version :: versions)
  | _ :: _ => .error "A Turn version must contain Messages"

/-- The members that must be strings. -/
def stringFields : List String :=
  ["thread_id", "parent_thread_id", "session_id", "parent_session_id", "id", "parent_id", "user",
    "provider_name", "cwd", "project_cwd", "timestamp"]

def checkStrings (turn : Fields) : List String → Except String Unit
  | [] => .ok ()
  | name :: names => do
    require (isStr (turn.get name)) s!"Invalid Turn field: {name}"
    checkStrings turn names

/-- `null` or a non-negative integer. -/
def isTokenCount (value : Option Json) : Bool := value == some .null || integerFrom 0 value

def checkReportStatuses (statuses : Option Json) : Except String Unit :=
  whenever statuses.isSome (require ((objectValue statuses).all fun p =>
    p.1 ≠ "" && ["success", "failed"].contains (jsString p.2))
      "Invalid Agent report delivery metadata")

/-- The members of `data` as the loops read them: absent versions are caught by the index test. -/
def normalizeRuntimeNode (turn : Fields) : Except String RuntimeStateNode := do
  require (turn.get "version" == some (.str turnProtocolVersion)) "Unsupported Turn version"
  checkStrings turn stringFields
  require (isText (turn.get "thread_id") && isText (turn.get "session_id") && isText (turn.get "id")
    && isText (turn.get "provider_name")) "Turn identifiers are required"
  require (integerFrom 0 (turn.get "firstKeptItemSize")) "Invalid firstKeptItemSize"
  require (isText (turn.get "compactionId")) "Invalid compactionId"
  require (hasWord nodeStatuses (turn.get "status")) "Invalid Turn status"
  require (hasWord permissionModes (turn.get "permission_mode")
    && hasWord runningModes (turn.get "running_mode")) "Invalid Turn mode"
  let versions := (arrayOf (turn.get "data")).getD []
  require ((arrayOf (turn.get "data")).isSome
    && isIndexBelow versions.length (turn.get "current_data_idx"))
      "Invalid Turn data/current_data_idx"
  let data ← normalizeVersions (turn.get "status" == some (.str "running")) versions
  checkReportStatuses (turn.get "agent_report_statuses")
  let model := objectValue (turn.get "model")
  require ((normalizeRuntimeNodeModel model).all fun p => strictEq (model.get p.1) (some p.2))
    "Invalid Turn model"
  let usage := objectValue (turn.get "usage")
  require (usageFields.all fun name => isTokenCount (usage.get name)) "Invalid Turn usage"
  pure ⟨turn.erase "data", data⟩

end MiniAgent.Turn.Browser
