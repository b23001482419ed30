import MiniAgent.Lib.Dict
import MiniAgent.Provider.Messages
import MiniAgent.Turn.Models

/-!
# The context of a model request

`_chat_messages_from_nodes` of `core/context/exchange.py`: the messages a planner sees, from the
selected versions of a list of Turns. A user Message becomes its text with the files it refers to;
an assistant Message becomes one message with its texts, its reasoning and its tool calls, where a
call is taken only together with its result.

Python's `str`, `json.dumps` and `Path` are parameters (`Renderer`).
-/

namespace MiniAgent.Context

open Lib Turn Provider

structure Renderer where
  dec : Decoder
  /-- `json.dumps(value, ensure_ascii=False, default=str)`. -/
  dumps : Json → String
  /-- `Path(value).is_absolute()`. -/
  isAbsolute : String → Bool
  /-- `Path(value).as_posix()`. -/
  asPosix : String → String

variable (r : Renderer)

def succeeded (item : Fields) : Bool := item.get "status" == some (.str "success")

def successfulItems (items : List Fields) : List Fields := items.filter succeeded

/-! ## Pairs of calls and results -/

/-- The call a `tool_call` or `tool_result` belongs to. -/
def toolId (item : Fields) : Option String :=
  if hasType item ["tool_call", "tool_result"] then match item.get "call_id" with
    | some (.str s) => if s = "" then none else some s
    | _ => none
  else none

/-- A call and its result. -/
def isPair (call result : Fields) : Bool :=
  hasType call ["tool_call"] && hasType result ["tool_result"] &&
    (call.get "status" == some (.str "success") || call.get "status" == some (.str "failed")) &&
    result.get "status" == call.get "status" &&
    ((result.get "tool").isNone || result.get "tool" == call.get "name")

/-- The indices of a valid pair. -/
def pairIndices : List (Fields × Nat) → List Nat
  | [(call, i), (result, j)] => if isPair call result then [i, j] else []
  | _ => []

def validToolIndices (mapped : List Fields) : List Nat :=
  (groupOn (fun p => toolId p.1) mapped.zipIdx).values.flatMap pairIndices

/-- `_assistant_items`. -/
def assistantItems (mapped : List Fields) : List Fields :=
  let valid := validToolIndices mapped
  (mapped.zipIdx.filter fun p => p.2 ∈ valid ∨
    (hasType p.1 ["tool_call", "tool_result"] = false ∧ succeeded p.1 = true)).map Prod.fst

/-! ## User Messages -/

/-- `is_reference_path`. -/
def isReferencePath (value : String) : Bool :=
  if value = "" then false
  else if r.isAbsolute value then true
  else
    let scope := value.toList.takeWhile (· ≠ ':')
    let relative := (value.toList.dropWhile (· ≠ ':')).drop 1
    value.toList.contains ':' && (scope == "workspace".toList || scope == "project".toList) &&
      relative ≠ [] &&
      relative.head? ≠ some '/' && relative.head? ≠ some '\\' &&
      !((relative.map fun c => if c = '\\' then '/' else c).splitOn '/').contains "..".toList &&
      !relative.contains ':' && !relative.contains '\x00'

/-- The line of a file reference. -/
def referenceLine : Json → Option String
  | .obj reference =>
    if (Fields.get reference "path").any Json.truthy then
      let path := r.dec.text (Fields.get reference "path")
      if isReferencePath r path then
        let source := r.dec.text (Fields.get reference "source")
        some ("- @" ++ r.asPosix path ++ if source = "" then "" else " (" ++ source ++ ")")
      else none
    else none
  | _ => none

def referenceLines (item : Fields) : List String :=
  match item.get "references" with
  | some (.arr references) => references.filterMap (referenceLine r)
  | _ => []

def userText (blocks : List Fields) : String :=
  let text := String.join
    ((blocks.filter fun item => hasType item ["text", "bash", "compaction"]).map fun item =>
    r.dec.text (pyOr (item.get "text") (item.get "summary")))
  let references := blocks.flatMap (referenceLines r)
  if references.isEmpty then text else text ++ "\n\nFile references:\n" ++
    "\n".intercalate references

def textMessage (text : String) : ChatMessage := .user ⟨"user", some text, []⟩

def userMessages (items : List Fields) : List ChatMessage :=
  let text := userText r (successfulItems items)
  if text = "" then [] else [textMessage text]

/-! ## Assistant Messages -/

def checkpointPreamble : String :=
  "This is an automatically generated checkpoint condensing an earlier span of the conversation " ++
  "to free up context. Treat the captured context as established background and build on it " ++
  "without restating it. Continue the task directly from the messages that follow, without " ++
  "acknowledging this checkpoint."

/-- `str(value or default)`. -/
def textOr (v : Option Json) (default : String) : String :=
  match pyOr v none with
  | some v => r.dec.text (some v)
  | none => default

def callArguments (item : Fields) : Json :=
  match item.get "arguments" with
  | some (.obj f) => .obj f
  | _ => .obj []

/-- The content of a result. -/
def resultContent (item : Fields) : String :=
  match item.get "content" with
  | some (.str s) => s
  | some v => r.dumps v
  | none => r.dumps .null

def boolOf : Option Json → Option Bool
  | some (.bool b) => some b
  | _ => none

/-- The call with its result. -/
def withResult (t : ToolMessage) (item : Fields) : ToolMessage :=
  let status := if succeeded item then ToolStatus.succeeded else .failed
  { t with
    content := some (resultContent r item)
    status
    retryable := boolOf (item.get "retryable")
    failureCode := Provider.isText (item.get "failure_code")
    result := by
      have : status ≠ .pending := by
        show (if _ then _ else _) ≠ _
        split <;> simp
      simp [this] }

/-- The variables of the loop over the Items. -/
structure Gathered where
  texts : List String
  calls : Dict String ToolMessage
  reports : List ChatMessage

def gatherItem (completed : List String) (g : Gathered) (item : Fields) : Except String Gathered :=
  let callId := r.dec.text (item.get "call_id")
  if hasType item ["tool_call"] ∧ callId ∈ completed then do
    let tool ← ToolMessage.pending (textOr r (item.get "name") "unknown")
      callId (callArguments item)
    pure { g with calls := g.calls.set callId tool }
  else if hasType item ["tool_result"] ∧ callId ≠ "" then match g.calls.get callId with
    | some tool => .ok { g with calls := g.calls.set callId (withResult r tool item) }
    | none => .ok g
  else if hasType item ["error"] then
    .ok { g with texts := g.texts ++ [textOr r (item.get "message") "Execution failed."] }
  else if hasType item ["subagent"] ∧ item.get "event" = some (.str "agent_report") then
    let report := r.dec.text (item.get "text")
    .ok (if report = "" then g
      else { g with reports := g.reports ++
        [.assistant ⟨"subagent_report", some report, none, [], []⟩] })
  else .ok g

def gatherItems (completed : List String) (g : Gathered) : List Fields → Except String Gathered
  | [] => .ok g
  | item :: items => do
    let g ← gatherItem r completed g item
    gatherItems completed g items

/-- The calls that have a result. -/
def completedCallIds (blocks : List Fields) : List String :=
  blocks.filterMap fun item =>
    if hasType item ["tool_result"] ∧ (item.get "call_id").any Json.truthy then
      some (r.dec.text (item.get "call_id"))
    else none

def textsOf (types : List String) (blocks : List Fields) : List String :=
  (blocks.filter fun item => hasType item types).map fun item => r.dec.text (item.get "text")

/-- The summary of the first compaction. -/
def summaryOf (blocks : List Fields) : String :=
  match blocks.find? fun item => hasType item ["compaction"] with
  | some item => r.dec.text (item.get "summary")
  | none => ""

def assistantMessages (items : List Fields) : Except String (List ChatMessage) := do
  let blocks := assistantItems items
  let summary := summaryOf r blocks
  let checkpoint := if summary = "" then []
    else [textMessage (checkpointPreamble ++ "\n\n" ++ summary)]
  let g ← gatherItems r (completedCallIds r blocks) ⟨textsOf r ["text", "bash"] blocks,
    .empty, []⟩ blocks
  let content := joined g.texts
  let reasoning := joined (textsOf r ["reasoning"] blocks)
  let tools := g.calls.values
  let assistant :=
    if content.isSome ∨ reasoning.isSome ∨ tools ≠ [] then
      [ChatMessage.assistant ⟨"assistant", content, reasoning, tools, []⟩]
    else []
  pure (checkpoint ++ g.reports ++ assistant)

/-! ## Turns -/

def chatMessages (message : Fields) : Except String (List ChatMessage) :=
  if message.get "role" = some (.str "user") then .ok (userMessages r (messageItems message))
  else assistantMessages r (messageItems message)

def chatMessagesFrom : List Fields → Except String (List ChatMessage)
  | [] => .ok []
  | message :: messages => do
    let out ← chatMessages r message
    let rest ← chatMessagesFrom messages
    pure (out ++ rest)

/-- `_chat_messages_from_nodes`. -/
def chatMessagesFromNodes (nodes : List RuntimeState) : Except String (List ChatMessage) :=
  chatMessagesFrom r (nodes.flatMap selected)

end MiniAgent.Context
