import MiniAgent.Turn.Contract
import Mathlib.Data.List.Sort
import Mathlib.Data.List.Dedup

/-!
# The canonical Turn

`RuntimeState` of `runtime_state/models.py`. A constructed Turn has typed fields, so its record
carries what the field checks grant; `fromDict` is the constructor over the raw member values
(`__post_init__` included, in the order of the source), `toDict` its JSON object. The machine
enters in two places only, the resolution of a directory and the parsing of a timestamp (`Host`).

`fromDict_ok` inverts the constructor once and for all into the contract `Wf`, and
`fromDict_toDict` is the round trip: a Turn rebuilt from its own object is the same Turn, so
`clone` is the identity.
-/

namespace MiniAgent.Turn

open Lib

/-! ## Enumerations -/

inductive PermissionMode where
  | readOnly | workspaceWrite | fullAccess
  deriving DecidableEq, Repr

inductive RunningMode where
  | agent | plan
  deriving DecidableEq, Repr

inductive ReasoningEffort where
  | low | medium | high | xhigh | max
  deriving DecidableEq, Repr

inductive ThinkingMode where
  | enable | disable
  deriving DecidableEq, Repr

namespace PermissionMode

def text : PermissionMode → String
  | readOnly => "read_only"
  | workspaceWrite => "workspace_write"
  | fullAccess => "full_access"

def ofText : String → Option PermissionMode
  | "read_only" => some readOnly
  | "workspace_write" => some workspaceWrite
  | "full_access" => some fullAccess
  | _ => none

@[simp] theorem ofText_text (m : PermissionMode) : ofText m.text = some m := by cases m <;> rfl

end PermissionMode

namespace RunningMode

def text : RunningMode → String
  | agent => "agent"
  | plan => "plan"

def ofText : String → Option RunningMode
  | "agent" => some agent
  | "plan" => some plan
  | _ => none

@[simp] theorem ofText_text (m : RunningMode) : ofText m.text = some m := by cases m <;> rfl

end RunningMode

namespace ReasoningEffort

def text : ReasoningEffort → String
  | low => "low"
  | medium => "medium"
  | high => "high"
  | xhigh => "xhigh"
  | max => "max"

def ofText : String → Option ReasoningEffort
  | "low" => some low
  | "medium" => some medium
  | "high" => some high
  | "xhigh" => some xhigh
  | "max" => some max
  | _ => none

@[simp] theorem ofText_text (m : ReasoningEffort) : ofText m.text = some m := by cases m <;> rfl

end ReasoningEffort

namespace ThinkingMode

def text : ThinkingMode → String
  | enable => "enable"
  | disable => "disable"

def ofText : String → Option ThinkingMode
  | "enable" => some enable
  | "disable" => some disable
  | _ => none

@[simp] theorem ofText_text (m : ThinkingMode) : ofText m.text = some m := by cases m <;> rfl

end ThinkingMode

/-- A member that must be one of the words of an enumeration. -/
def enumOf {α : Type} (value : Option Json) (ofText : String → Option α) (e : Err) : Except Err α :=
  match value with
  | some (.str s) => match ofText s with
    | some a => .ok a
    | none => .error e
  | some v => .error (if v.hashable then e else .unhashable)
  | none => .error e

theorem enumOf_text {α : Type} {ofText : String → Option α} {text : α → String} {a : α} {e : Err}
    (h : ofText (text a) = some a) : enumOf (some (.str (text a))) ofText e = .ok a := by
  simp [enumOf, h]

/-! ## Model, usage and directories -/

@[ext]
structure ModelConfig where
  reasoningEffort : ReasoningEffort
  currentModel : String
  contextLength : Int
  outputLength : Int
  thinking : ThinkingMode
  temperature : Rat
  deriving DecidableEq

def ModelConfig.toDict (m : ModelConfig) : Fields :=
  [("reasoning_effort", .str m.reasoningEffort.text), ("current_model", .str m.currentModel),
    ("context_length", .int m.contextLength), ("output_length", .int m.outputLength),
    ("thinking", .str m.thinking.text), ("temperature", .float m.temperature)]

def defaultModel : ModelConfig := ⟨.medium, "unknown", 128000, 8192, .enable, 0⟩

def modelKeys : List String := defaultModel.toDict.map Prod.fst

/-- Keys of a supplied object outside the known ones, as the error lists them. -/
def unknownKeys (supplied : Fields) (known : List String) : List String :=
  ((supplied.map Prod.fst).filter fun k => !known.contains k).dedup.insertionSort (· ≤ ·)

/-- A positive `int` member of the model. -/
def positiveField (fields : Fields) (name : String) : Except Err Int :=
  match fields.get name with
  | some (.int n) => if 1 ≤ n then .ok n
    else .error (.validation s!"model.{name} must be a positive integer.")
  | _ => .error (.validation s!"model.{name} must be a positive integer.")

/-- A non-empty string member. -/
def textOf (value : Option Json) (e : Err) : Except Err String :=
  match value with
  | some (.str s) => if s = "" then .error e else .ok s
  | _ => .error e

/-- An `int` or `float` member, by its value. -/
def numberOf (value : Option Json) (e : Err) : Except Err Rat :=
  match value.bind Json.num? with
  | some q => .ok q
  | none => .error e

def normalizeModel (supplied : Fields) : Except Err ModelConfig := do
  let unknown := unknownKeys supplied modelKeys
  require unknown.isEmpty
    (.validation ("Unsupported model fields: " ++ ", ".intercalate unknown ++ "."))
  let result := defaultModel.toDict.setAll supplied
  let reasoningEffort ← enumOf (result.get "reasoning_effort") ReasoningEffort.ofText
    (.validation "model.reasoning_effort is invalid.")
  let thinking ← enumOf (result.get "thinking") ThinkingMode.ofText
    (.validation "model.thinking must be enable or disable.")
  let currentModel ← textOf (result.get "current_model")
    (.validation "model.current_model must be a non-empty string.")
  let contextLength ← positiveField result "context_length"
  let outputLength ← positiveField result "output_length"
  let temperature ← numberOf (result.get "temperature")
    (.validation "model.temperature must be numeric.")
  pure { reasoningEffort, currentModel, contextLength, outputLength, thinking, temperature }

@[ext]
structure Usage where
  inputTokens : Option Nat
  cachedTokens : Option Nat
  outputTokens : Option Nat
  reasoningTokens : Option Nat
  totalTokens : Option Nat
  deriving DecidableEq

def tokenJson : Option Nat → Json
  | some n => .int n
  | none => .null

def Usage.toDict (u : Usage) : Fields :=
  [("input_tokens", tokenJson u.inputTokens), ("cached_tokens", tokenJson u.cachedTokens),
    ("output_tokens", tokenJson u.outputTokens), ("reasoning_tokens", tokenJson u.reasoningTokens),
    ("total_tokens", tokenJson u.totalTokens)]

def usageFields : List String :=
  ["input_tokens", "cached_tokens", "output_tokens", "reasoning_tokens", "total_tokens"]

def tokenField (supplied : Fields) (name : String) : Except Err (Option Nat) :=
  match supplied.get name with
  | none | some .null => .ok none
  | some (.int n) => if 0 ≤ n then .ok (some n.toNat)
    else .error (.validation s!"usage.{name} must be a non-negative integer or null.")
  | _ => .error (.validation s!"usage.{name} must be a non-negative integer or null.")

def normalizeUsage (supplied : Fields) : Except Err Usage := do
  require (unknownKeys supplied usageFields).isEmpty
    (.validation "usage contains unsupported fields.")
  let inputTokens ← tokenField supplied "input_tokens"
  let cachedTokens ← tokenField supplied "cached_tokens"
  let outputTokens ← tokenField supplied "output_tokens"
  let reasoningTokens ← tokenField supplied "reasoning_tokens"
  let totalTokens ← tokenField supplied "total_tokens"
  pure { inputTokens, cachedTokens, outputTokens, reasoningTokens, totalTokens }

/-- What resolving a non-empty path can give. -/
inductive PathResult where
  | relative
  | invalid
  | resolved (path : String)
  deriving DecidableEq

/-- The machine the backend runs on: `Path(value).expanduser()` resolved and normalized, and
`datetime.fromisoformat` with the UTC test (`none` where it does not parse). A resolved path is
absolute and free of links, so resolving it again gives it back. -/
structure Host where
  resolve : String → PathResult
  parseTimestamp : String → Option Bool
  resolve_idem : ∀ {v p}, resolve v = .resolved p → p ≠ "" ∧ resolve p = .resolved p

variable (host : Host)

def normalizeCwd (name value : String) : Except Err String :=
  if value = "" then .ok ""
  else match host.resolve value with
    | .relative => .error (.validation s!"{name} must be an absolute path.")
    | .invalid => .error (.validation s!"{name} must be a valid path.")
    | .resolved p => .ok p

variable {host}

theorem normalizeCwd_idem {name value p : String} (h : normalizeCwd host name value = .ok p) :
    normalizeCwd host name p = .ok p := by
  unfold normalizeCwd at h
  split at h
  · cases h; rfl
  · split at h <;> try cases h
    next hr =>
      obtain ⟨hne, hp⟩ := host.resolve_idem hr
      simp [normalizeCwd, hne, hp]

/-! ### What the constructors of the parts grant -/

structure ModelConfig.Wf (m : ModelConfig) : Prop where
  currentModel : m.currentModel ≠ ""
  contextLength : 1 ≤ m.contextLength
  outputLength : 1 ≤ m.outputLength

theorem defaultModel_wf : defaultModel.Wf := ⟨by decide, by decide, by decide⟩

theorem textOf_ok {value : Option Json} {e : Err} {s : String} :
    textOf value e = .ok s ↔ value = some (.str s) ∧ s ≠ "" := by
  unfold textOf
  split
  · split
    · next h => subst h; simp [eq_comm]
    · next h => simp only [Except.ok.injEq, Option.some.injEq, Json.str.injEq]; grind
  · next h => simp only [reduceCtorEq, false_iff]; rintro ⟨rfl, -⟩; exact h _ rfl

theorem positiveField_ok {f : Fields} {name : String} {n : Int} :
    positiveField f name = .ok n ↔ f.get name = some (.int n) ∧ 1 ≤ n := by
  unfold positiveField
  split
  · next k hk => rw [hk]; split <;> simp <;> omega
  · next h => simp only [reduceCtorEq, false_iff]; rintro ⟨hk, -⟩; exact h _ hk

theorem normalizeModel_wf {f : Fields} {m : ModelConfig} (h : normalizeModel f = .ok m) : m.Wf := by
  simp only [normalizeModel, bind_ok, exists_unit, pure_ok, textOf_ok, positiveField_ok] at h
  obtain ⟨-, _, -, _, -, _, ⟨-, h1⟩, _, ⟨-, h2⟩, _, ⟨-, h3⟩, _, -, rfl⟩ := h
  exact ⟨h1, h2, h3⟩

theorem keys_modelDict (m : ModelConfig) : m.toDict.map Prod.fst = modelKeys := rfl

theorem unknownKeys_eq_nil {f : Fields} {known : List String}
    (h : ∀ k ∈ f.map Prod.fst, k ∈ known) : unknownKeys f known = [] := by
  have : (f.map Prod.fst).filter (fun k => !known.contains k) = [] := by
    rw [List.filter_eq_nil_iff]
    intro k hk
    simpa using h k hk
  rw [unknownKeys, this]
  rfl

theorem get_setAll_model (m : ModelConfig) (k : String) (hk : k ∈ modelKeys) :
    (defaultModel.toDict.setAll m.toDict).get k = m.toDict.get k := by
  rw [Fields.get_setAll]
  rcases hg : m.toDict.get k with _ | v
  · exfalso
    rw [← keys_modelDict m] at hk
    obtain ⟨p, hp, rfl⟩ := List.mem_map.mp hk
    rw [Fields.get_of_mem (by rw [keys_modelDict]; decide) hp] at hg
    cases hg
  · rfl

theorem normalizeModel_toDict {m : ModelConfig} (h : m.Wf) : normalizeModel m.toDict = .ok m := by
  have hget := get_setAll_model m
  simp only [normalizeModel, bind_ok, exists_unit, pure_ok, textOf_ok, positiveField_ok,
    require_ok]
  rw [unknownKeys_eq_nil (fun k hk => by rwa [keys_modelDict] at hk),
    hget "reasoning_effort" (by decide), hget "thinking" (by decide),
    hget "current_model" (by decide), hget "context_length" (by decide),
    hget "output_length" (by decide), hget "temperature" (by decide)]
  exact ⟨rfl, _, enumOf_text (by simp), _, enumOf_text (by simp), _, ⟨rfl, h.currentModel⟩, _,
    ⟨rfl, h.contextLength⟩, _, ⟨rfl, h.outputLength⟩, _, rfl, rfl⟩

theorem tokenField_tokenJson {f : Fields} {name : String} {n : Option Nat}
    (h : f.get name = some (tokenJson n)) : tokenField f name = .ok n := by
  unfold tokenField
  rw [h]
  cases n <;> simp [tokenJson]

theorem normalizeUsage_toDict (u : Usage) : normalizeUsage u.toDict = .ok u := by
  simp only [normalizeUsage, bind_ok, exists_unit, pure_ok, require_ok]
  rw [unknownKeys_eq_nil (fun k hk => by simpa [Usage.toDict, usageFields] using hk)]
  exact ⟨rfl, _, tokenField_tokenJson rfl, _, tokenField_tokenJson rfl, _,
    tokenField_tokenJson rfl, _, tokenField_tokenJson rfl, _, tokenField_tokenJson rfl, rfl⟩

/-! ## The Turn -/

def appVersion : String := "0.0.2"

structure RuntimeState where
  threadId : String
  parentThreadId : String
  sessionId : String
  parentSessionId : String
  id : String
  parentId : String
  version : String
  firstKeptItemSize : Nat
  compactionId : String
  user : String
  providerName : String
  model : ModelConfig
  permissionMode : PermissionMode
  runningMode : RunningMode
  usage : Usage
  cwd : String
  projectCwd : String
  timestamp : String
  status : NodeStatus
  currentDataIdx : Nat
  data : List (List Fields)
  deriving DecidableEq

/-- `selected_messages`: the selected version. -/
def selected (t : RuntimeState) : List Fields := t.data.getD t.currentDataIdx []

namespace RuntimeState

def key (s : RuntimeState) : String × String := (s.sessionId, s.id)

/-- The members of `to_dict` other than `data`. -/
def configFields (s : RuntimeState) : Fields :=
  [("thread_id", .str s.threadId), ("parent_thread_id", .str s.parentThreadId),
    ("session_id", .str s.sessionId), ("parent_session_id", .str s.parentSessionId),
    ("id", .str s.id), ("parent_id", .str s.parentId), ("version", .str s.version),
    ("firstKeptItemSize", .int s.firstKeptItemSize), ("compactionId", .str s.compactionId),
    ("user", .str s.user), ("provider_name", .str s.providerName), ("model", .obj s.model.toDict),
    ("permission_mode", .str s.permissionMode.text), ("running_mode", .str s.runningMode.text),
    ("usage", .obj s.usage.toDict), ("cwd", .str s.cwd), ("project_cwd", .str s.projectCwd),
    ("timestamp", .str s.timestamp), ("status", .str s.status.text),
    ("current_data_idx", .int s.currentDataIdx)]

def toDict (s : RuntimeState) : Fields := s.configFields ++ [("data", dataJson s.data)]

end RuntimeState

/-- The Items of a Message, as its `content` holds them. -/
def messageItems (message : Fields) : List Fields :=
  match message.get "content" with
  | some (.arr l) => l.filterMap fun v => match v with
    | .obj f => some f
    | _ => none
  | _ => []

/-- Every version ends with an assistant Message. -/
def endsWithAssistant (data : List (List Fields)) : Bool :=
  data.all fun version => match version.getLast? with
    | some message => message.get "role" == some (.str "assistant")
    | none => false

def hasRunningItem (data : List (List Fields)) : Bool :=
  data.any fun version => version.any fun message =>
    (messageItems message).any fun item => item.get "status" == some (.str "running")

/-- The arguments of the constructor: strings where `from_dict` has checked them, raw values
elsewhere. -/
structure TurnArgs where
  threadId : String
  parentThreadId : String
  sessionId : String
  parentSessionId : String
  id : String
  parentId : String
  version : String
  firstKeptItemSize : Json
  compactionId : String
  user : String
  providerName : String
  model : Fields
  permissionMode : Json
  runningMode : Json
  usage : Fields
  cwd : String
  projectCwd : String
  timestamp : String
  status : Json
  currentDataIdx : Json
  data : Json

/-- A non-negative `int` that is no `bool`. -/
def natOf (value : Json) (notInt negative : Err) : Except Err Nat :=
  match value with
  | .int n => if 0 ≤ n then .ok n.toNat else .error negative
  | _ => .error notInt

theorem natOf_ok {value : Json} {e e' : Err} {n : Nat} :
    natOf value e e' = .ok n ↔ value = .int n := by
  unfold natOf
  split
  · split <;> simp <;> omega
  · next h => simp only [reduceCtorEq, false_iff]; rintro rfl; exact h _ rfl

variable (host) in
def checkTimestamp (timestamp : String) : Except Err Unit :=
  match host.parseTimestamp timestamp with
  | none => .error (.validation "timestamp must be an ISO 8601 datetime.")
  | some false => .error (.validation "timestamp must be UTC and timezone-aware.")
  | some true => .ok ()

@[simp] theorem checkTimestamp_ok {t : String} :
    checkTimestamp host t = .ok () ↔ host.parseTimestamp t = some true := by
  unfold checkTimestamp
  split <;> simp [*]

/-- The parent checks of `__post_init__`. -/
def checkParents (a : TurnArgs) : Except Err Unit := do
  require (decide (a.parentId ≠ "") == decide (a.parentSessionId ≠ ""))
    (.validation "parent_id and parent_session_id must be set together.")
  require (!(a.parentId == "" && a.parentSessionId != ""))
    (.validation "A Turn without parent_id cannot have parent_session_id.")
  require (!(a.parentId == "" && a.threadId == a.sessionId && a.parentThreadId != ""))
    (.validation "The first main-thread Turn must have empty parent fields.")
  require (!(a.parentId == "" && a.threadId != a.sessionId && a.parentThreadId == ""))
    (.validation "A root fork copy must record its source thread.")

variable (host) in
/-- `RuntimeState(...)`: the constructor with `__post_init__`. -/
def postInit (a : TurnArgs) : Except Err RuntimeState := do
  require (a.threadId != "" && a.sessionId != "" && a.id != "")
    (.validation "thread_id, session_id, and id are required.")
  require (a.version == appVersion) (.validation "version must be '0.0.2'.")
  let status ← enumOf (some a.status) NodeStatus.ofText
    (.validation "status must be running, success, paused, or failed.")
  let permissionMode ← enumOf (some a.permissionMode) PermissionMode.ofText
    (.validation "permission_mode must be read_only, workspace_write, or full_access.")
  let runningMode ← enumOf (some a.runningMode) RunningMode.ofText
    (.validation "running_mode must be agent or plan.")
  checkParents a
  let firstKeptItemSize ← natOf a.firstKeptItemSize
    (.validation "firstKeptItemSize must be an integer.")
    (.validation "firstKeptItemSize must be non-negative.")
  let compactionId := if a.compactionId = "" then a.id else a.compactionId
  checkTimestamp host a.timestamp
  let cwd ← normalizeCwd host "cwd" a.cwd
  let projectCwd ← normalizeCwd host "project_cwd" a.projectCwd
  let model ← normalizeModel a.model
  let usage ← normalizeUsage a.usage
  let data ← validateData a.data
  let currentDataIdx ← natOf a.currentDataIdx
    (.validation "current_data_idx must be an integer.")
    (.validation "current_data_idx is out of range.")
  require (currentDataIdx < data.length) (.validation "current_data_idx is out of range.")
  whenever (status != .running) (require (endsWithAssistant data)
    (.validation "A non-running Turn must end with an assistant Message."))
  whenever (status != .running) (require (!hasRunningItem data)
    (.validation "A non-running Turn cannot contain running Items."))
  pure
    { threadId := a.threadId, parentThreadId := a.parentThreadId, sessionId := a.sessionId
      parentSessionId := a.parentSessionId, id := a.id, parentId := a.parentId
      version := a.version, firstKeptItemSize, compactionId, user := a.user
      providerName := a.providerName, model, permissionMode, runningMode, usage, cwd, projectCwd
      timestamp := a.timestamp, status, currentDataIdx, data }

/-- A member that must be a string. -/
def stringField (raw : Fields) (name : String) : Except Err String :=
  match raw.get name with
  | some (.str s) => .ok s
  | none => .ok ""
  | _ => .error (.validation s!"{name} must be a string.")

/-- The members `from_dict` requires. -/
def requiredFields : List String :=
  ["thread_id", "parent_thread_id", "session_id", "parent_session_id", "id", "parent_id",
    "version", "firstKeptItemSize", "compactionId", "user", "provider_name", "model",
    "permission_mode", "running_mode", "usage", "cwd", "project_cwd", "timestamp", "status",
    "current_data_idx", "data"]

def missingFields (raw : Fields) : List String :=
  (requiredFields.filter fun name => (raw.get name).isNone).insertionSort (· ≤ ·)

/-- A member `from_dict` reads with `raw[name]`, which is there by then. -/
def rawField (raw : Fields) (name : String) : Json := (raw.get name).getD .null

variable (host) in
def RuntimeState.fromDict (value : Json) : Except Err RuntimeState := do
  let raw ← mapping value "turn"
  let missing := missingFields raw
  require missing.isEmpty
    (.validation ("turn is missing required fields: " ++ ", ".intercalate missing))
  let threadId ← stringField raw "thread_id"
  let parentThreadId ← stringField raw "parent_thread_id"
  let sessionId ← stringField raw "session_id"
  let parentSessionId ← stringField raw "parent_session_id"
  let id ← stringField raw "id"
  let parentId ← stringField raw "parent_id"
  let version ← stringField raw "version"
  let compactionId ← stringField raw "compactionId"
  let user ← stringField raw "user"
  let providerName ← stringField raw "provider_name"
  let model ← mapping (rawField raw "model") "model"
  let usage ← mapping (rawField raw "usage") "usage"
  let cwd ← stringField raw "cwd"
  let projectCwd ← stringField raw "project_cwd"
  let timestamp ← stringField raw "timestamp"
  postInit host
    { threadId, parentThreadId, sessionId, parentSessionId, id, parentId, version
      firstKeptItemSize := rawField raw "firstKeptItemSize", compactionId, user, providerName
      model, permissionMode := rawField raw "permission_mode"
      runningMode := rawField raw "running_mode", usage, cwd, projectCwd, timestamp
      status := rawField raw "status", currentDataIdx := rawField raw "current_data_idx"
      data := rawField raw "data" }

variable (host) in
def RuntimeState.clone (s : RuntimeState) : Except Err RuntimeState :=
  RuntimeState.fromDict host (.obj s.toDict)

/-! ## The contract of a constructed Turn -/

variable (host) in
/-- What the constructor grants, in terms of the Turn it returns. -/
structure RuntimeState.Wf (s : RuntimeState) : Prop where
  threadId : s.threadId ≠ ""
  sessionId : s.sessionId ≠ ""
  id : s.id ≠ ""
  version : s.version = appVersion
  parents : s.parentId = "" ↔ s.parentSessionId = ""
  mainRoot : s.parentId = "" → s.threadId = s.sessionId → s.parentThreadId = ""
  forkRoot : s.parentId = "" → s.threadId ≠ s.sessionId → s.parentThreadId ≠ ""
  compactionId : s.compactionId ≠ ""
  timestamp : host.parseTimestamp s.timestamp = some true
  cwd : normalizeCwd host "cwd" s.cwd = .ok s.cwd
  projectCwd : normalizeCwd host "project_cwd" s.projectCwd = .ok s.projectCwd
  model : s.model.Wf
  data : validateData (dataJson s.data) = .ok s.data
  currentDataIdx : s.currentDataIdx < s.data.length
  ends : s.status ≠ .running → endsWithAssistant s.data = true
  settled : s.status ≠ .running → hasRunningItem s.data = false

theorem checkParents_ok {a : TurnArgs} : checkParents a = .ok () ↔
    (a.parentId = "" ↔ a.parentSessionId = "") ∧
    (a.parentId = "" → a.threadId = a.sessionId → a.parentThreadId = "") ∧
    (a.parentId = "" → a.threadId ≠ a.sessionId → a.parentThreadId ≠ "") := by
  simp only [checkParents, bind_ok, exists_unit, require_ok]
  by_cases h1 : a.parentId = "" <;> by_cases h2 : a.parentSessionId = "" <;>
    by_cases h3 : a.threadId = a.sessionId <;> by_cases h4 : a.parentThreadId = "" <;>
    simp [h1, h2, h3, h4]

theorem postInit_wf {a : TurnArgs} {s : RuntimeState} (h : postInit host a = .ok s) :
    s.Wf host := by
  simp only [postInit, bind_ok, exists_unit, pure_ok, require_ok, whenever_ok, checkTimestamp_ok,
    checkParents_ok, Bool.and_eq_true, bne_iff_ne, beq_iff_eq, decide_eq_true_eq,
    Bool.not_eq_true'] at h
  obtain ⟨⟨⟨h1, h2⟩, h3⟩, h4, _, -, _, -, _, -, ⟨h5, h6, h7⟩, _, -, h8, cwd, h9, pcwd, h10, m, h11,
    u, -, d, h12, i, -, h13, h14, h15, rfl⟩ := h
  exact
    { threadId := h1, sessionId := h2, id := h3, version := h4, parents := h5, mainRoot := h6
      forkRoot := h7, timestamp := h8, cwd := normalizeCwd_idem h9
      projectCwd := normalizeCwd_idem h10, model := normalizeModel_wf h11
      data := validateData_again h12, currentDataIdx := h13, ends := h14, settled := h15
      compactionId := by
        show (if a.compactionId = "" then a.id else a.compactionId) ≠ ""
        split
        · exact h3
        · assumption }

theorem NodeStatus.text_of_ofText {t : String} {a : NodeStatus} (h : NodeStatus.ofText t = some a) :
    t = a.text := by
  unfold NodeStatus.ofText at h
  split at h <;> cases h <;> rfl

theorem enumOf_ok {α : Type} {value : Option Json} {ofText : String → Option α} {e : Err} {a : α}
    (h : enumOf value ofText e = .ok a) : ∃ t, value = some (.str t) ∧ ofText t = some a := by
  unfold enumOf at h
  split at h
  · next t =>
    split at h
    · next b hb => cases h; exact ⟨t, rfl, hb⟩
    · cases h
  · cases h
  · cases h

theorem stringField_ok {raw : Fields} {name s : String} (hp : (raw.get name).isSome)
    (h : stringField raw name = .ok s) : raw.get name = some (.str s) := by
  unfold stringField at h
  split at h
  · next t ht => cases h; exact ht
  · next hn => rw [hn] at hp; cases hp
  · cases h

theorem isSome_of_missingFields {raw : Fields} (h : (missingFields raw).isEmpty = true)
    {name : String} (hn : name ∈ requiredFields) : (raw.get name).isSome = true := by
  by_contra hnone
  have hmem : name ∈ missingFields raw := by
    rw [missingFields, List.mem_insertionSort, List.mem_filter]
    exact ⟨hn, by simpa using hnone⟩
  rw [List.isEmpty_iff.mp h] at hmem
  cases hmem

/-- The string members the constructor takes over as they are. -/
def plainFields : List String :=
  ["thread_id", "parent_thread_id", "session_id", "parent_session_id", "id", "parent_id",
    "provider_name"]

/-- What a constructed Turn has kept of the members it was built from. -/
structure RuntimeState.Reads (raw : Fields) (s : RuntimeState) : Prop where
  plain : ∀ k ∈ plainFields, raw.get k = s.configFields.get k
  status : raw.get "status" = some (.str s.status.text)
  model : ∃ m, raw.get "model" = some (.obj m) ∧ normalizeModel m = .ok s.model
  data : ∃ d, raw.get "data" = some d ∧ validateData d = .ok s.data

theorem RuntimeState.fromDict_reads {raw : Fields} {s : RuntimeState}
    (h : RuntimeState.fromDict host (.obj raw) = .ok s) : RuntimeState.Reads raw s := by
  simp only [RuntimeState.fromDict, bind_ok, exists_unit, mapping_ok, require_ok] at h
  obtain ⟨_, e, hmissing, threadId, h1, parentThreadId, h2, sessionId, h3, parentSessionId, h4, id,
    h5, parentId, h6, version, -, compactionId, -, user, -, providerName, h7, model, hmodel, usage,
    -, cwd, -, projectCwd, -, timestamp, -, h⟩ := h
  cases e
  have hsome : ∀ {name : String}, name ∈ requiredFields → (raw.get name).isSome = true :=
    fun hn => isSome_of_missingFields hmissing hn
  simp only [postInit, bind_ok, exists_unit, pure_ok, require_ok] at h
  obtain ⟨-, -, status, hstatus, _, -, _, -, -, _, -, -, _, -, _, -, _, hm, _, -, data, hd, _, -, -,
    -, -, rfl⟩ := h
  refine ⟨?_, ?_, ⟨model, ?_, hm⟩, ⟨rawField raw "data", ?_, hd⟩⟩
  · intro k hk
    simp only [plainFields, List.mem_cons, List.not_mem_nil, or_false] at hk
    rcases hk with rfl | rfl | rfl | rfl | rfl | rfl | rfl
    · exact stringField_ok (hsome (by decide)) h1
    · exact stringField_ok (hsome (by decide)) h2
    · exact stringField_ok (hsome (by decide)) h3
    · exact stringField_ok (hsome (by decide)) h4
    · exact stringField_ok (hsome (by decide)) h5
    · exact stringField_ok (hsome (by decide)) h6
    · exact stringField_ok (hsome (by decide)) h7
  · obtain ⟨t, ht, hst⟩ := enumOf_ok hstatus
    obtain ⟨v, hv⟩ := Option.isSome_iff_exists.mp (hsome (by decide) : (raw.get "status").isSome)
    rw [rawField, hv] at ht
    rw [hv, ← NodeStatus.text_of_ofText hst]
    exact ht
  · obtain ⟨v, hv⟩ := Option.isSome_iff_exists.mp (hsome (by decide) : (raw.get "model").isSome)
    rw [rawField, hv] at hmodel
    rw [hv]
    exact congrArg some hmodel
  · obtain ⟨v, hv⟩ := Option.isSome_iff_exists.mp (hsome (by decide) : (raw.get "data").isSome)
    rw [rawField, hv]
    rfl

theorem RuntimeState.fromDict_wf {value : Json} {s : RuntimeState}
    (h : RuntimeState.fromDict host value = .ok s) : s.Wf host := by
  simp only [RuntimeState.fromDict, bind_ok, exists_unit] at h
  obtain ⟨_, -, -, _, -, _, -, _, -, _, -, _, -, _, -, _, -, _, -, _, -, _, -, _, -, _, -, _, -,
    _, -, _, -, h⟩ := h
  exact postInit_wf h

namespace RuntimeState

theorem keys_toDict (s : RuntimeState) : s.toDict.map Prod.fst = requiredFields := rfl

/-- The names of the members other than `data`. -/
def configNames : List String := requiredFields.dropLast

theorem keys_configFields (s : RuntimeState) : s.configFields.map Prod.fst = configNames := rfl

theorem get_configFields {s : RuntimeState} {k : String} {v : Json} (h : (k, v) ∈ s.configFields) :
    s.configFields.get k = some v :=
  Fields.get_of_mem (by rw [keys_configFields]; decide) h

theorem missingFields_toDict (s : RuntimeState) : missingFields s.toDict = [] := by
  have : (requiredFields.filter fun name => (s.toDict.get name).isNone) = [] := by
    rw [List.filter_eq_nil_iff]
    intro name hname
    rw [← keys_toDict s] at hname
    obtain ⟨p, hp, rfl⟩ := List.mem_map.mp hname
    rw [Fields.get_of_mem (by rw [keys_toDict]; decide) hp]
    simp
  rw [missingFields, this]
  rfl

/-- **Round trip.** A Turn is rebuilt from its own object. -/
theorem fromDict_toDict {s : RuntimeState} (h : s.Wf host) :
    fromDict host (.obj s.toDict) = .ok s := by
  simp only [fromDict, bind_ok, exists_unit, mapping_ok, require_ok]
  refine ⟨s.toDict, rfl, by rw [missingFields_toDict]; rfl, _, rfl, _, rfl, _, rfl, _, rfl, _, rfl,
    _, rfl, _, rfl, _, rfl, _, rfl, _, rfl, _, rfl, _, rfl, _, rfl, _, rfl, _, rfl, ?_⟩
  simp only [postInit, bind_ok, exists_unit, pure_ok, require_ok, whenever_ok, checkTimestamp_ok,
    checkParents_ok, Bool.and_eq_true, bne_iff_ne, beq_iff_eq, decide_eq_true_eq,
    Bool.not_eq_true']
  refine ⟨⟨⟨h.threadId, h.sessionId⟩, h.id⟩, h.version, s.status, enumOf_text (by simp),
    s.permissionMode, enumOf_text (by simp), s.runningMode, enumOf_text (by simp),
    ⟨h.parents, h.mainRoot, h.forkRoot⟩, s.firstKeptItemSize, natOf_ok.mpr rfl, h.timestamp,
    s.cwd, h.cwd, s.projectCwd, h.projectCwd, s.model, normalizeModel_toDict h.model, s.usage,
    normalizeUsage_toDict s.usage, s.data, h.data, s.currentDataIdx, natOf_ok.mpr rfl,
    h.currentDataIdx, h.ends, h.settled, ?_⟩
  simp [h.compactionId]

/-- A Turn rebuilt from members of which only `status` and `data` are in doubt. -/
theorem fromDict_eq {s t : RuntimeState} (hid : s.compactionId ≠ "")
    (hcwd : normalizeCwd host "cwd" s.cwd = .ok s.cwd)
    (hproj : normalizeCwd host "project_cwd" s.projectCwd = .ok s.projectCwd) (hm : s.model.Wf)
    (h : fromDict host (.obj s.toDict) = .ok t) : t = { s with data := t.data } := by
  simp only [fromDict, bind_ok, exists_unit, mapping_ok, require_ok] at h
  obtain ⟨_, e, -, _, h1, _, h2, _, h3, _, h4, _, h5, _, h6, _, h7, _, h8, _, h9, _, h10, _, h11, _,
    h12, _, h13, _, h14, _, h15, h⟩ := h
  cases e; cases h1; cases h2; cases h3; cases h4; cases h5; cases h6; cases h7; cases h8; cases h9
  cases h10; cases h11; cases h12; cases h13; cases h14; cases h15
  simp only [postInit, bind_ok, exists_unit, pure_ok, require_ok] at h
  obtain ⟨-, -, _, g1, _, g2, _, g3, -, _, g4, -, _, g5, _, g6, _, g7, _, g8, _, -, _, g9, -, -, -,
    rfl⟩ := h
  have e1 := (enumOf_text (NodeStatus.ofText_text s.status)).symm.trans g1
  have e2 := (enumOf_text (PermissionMode.ofText_text s.permissionMode)).symm.trans g2
  have e3 := (enumOf_text (RunningMode.ofText_text s.runningMode)).symm.trans g3
  have e4 := (natOf_ok.mpr (rfl : Json.int s.firstKeptItemSize = _)).symm.trans g4
  have e5 := hcwd.symm.trans g5
  have e6 := hproj.symm.trans g6
  have e7 := (normalizeModel_toDict hm).symm.trans g7
  have e8 := (normalizeUsage_toDict s.usage).symm.trans g8
  have e9 := (natOf_ok.mpr (rfl : Json.int s.currentDataIdx = _)).symm.trans g9
  cases e1; cases e2; cases e3; cases e4; cases e5; cases e6; cases e7; cases e8; cases e9
  simp [hid]

theorem clone_eq {s : RuntimeState} (h : s.Wf host) : s.clone host = .ok s := fromDict_toDict h

theorem wf_of_clone {s t : RuntimeState} (h : s.clone host = .ok t) : t.Wf host := fromDict_wf h

theorem Wf.versionOk {s : RuntimeState} (h : s.Wf host) : ∀ version ∈ s.data, VersionOk version :=
  validateData_versionOk h.data

end RuntimeState

end MiniAgent.Turn
