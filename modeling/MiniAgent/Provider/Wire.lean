import MiniAgent.Provider.Message
import MiniAgent.Queue.Message

/-!
# Chat Completions wire messages

`_wire_messages_from` of `chat_completions/messages.py`. Providers want every assistant message with
`tool_calls` to be followed at once by one tool message per call. The history may hold one call
several times, pending or with a result, so a first pass collects the results and a second one
declares each call where it occurs first. The text that `json.dumps` makes of the arguments is kept
as the value.

`Paired` is what a provider accepts; the loop is followed with the set of calls it has declared.
-/

namespace MiniAgent.Provider

open Lib

/-- `ModelRequestError`. -/
structure RequestError where
  text : String

/-! ## Options -/

/-- `_provider_options`. -/
def providerOptions (options : Fields) : Except RequestError Fields :=
  let chosen := match options.get "chat_completions" with
    | none | some .null => (options.get "deepseek").getD (.obj [])
    | some v => v
  match chosen with
  | .obj f => .ok f
  | _ => .error ⟨"Chat Completions provider_options must be an object."⟩

/-- `sorted` and joined by `", "`. -/
def joinSorted (names : List String) : String := ", ".intercalate (names.mergeSort fun a b => a ≤ b)

/-- The options other than those of a kind of message. -/
def unknownOptions (options : Fields) (known : List String) : List String :=
  (options.map Prod.fst).filter fun name => !known.contains name

def checkOptions (kind : String) (options : Fields) (known : List String) :
    Except RequestError Unit :=
  let unknown := unknownOptions options known
  if unknown.isEmpty then .ok ()
  else .error ⟨s!"Unknown Chat Completions {kind} message option(s): {joinSorted unknown}."⟩

/-- `_optional_name`. -/
def optionalName (name role : String) : Except RequestError Fields :=
  if name = "" then .error ⟨"Chat Completions message name must be a non-empty string."⟩
  else .ok (if name ≠ role then [("name", .str name)] else [])

/-- `_merge_extra_fields`. -/
def mergeExtraFields (target : Fields) (raw : Option Json) (reserved : List String)
    (label : String) :
    Except RequestError Fields :=
  match raw with
  | none | some .null => .ok target
  | some (.obj extra) =>
    let collisions := reserved.filter fun name => (Fields.get extra name).isSome
    if collisions.isEmpty then .ok (target.setAll extra)
    else .error ⟨s!"Chat Completions {label} extra_body cannot override: {joinSorted collisions}."⟩
  | some _ => .error ⟨s!"Chat Completions {label} extra_body must be an object."⟩

/-! ## Messages -/

/-- A system or a user message. -/
def wireText (role : String) (m : TextMessage) : Except RequestError Fields := do
  let options ← providerOptions m.providerOptions
  checkOptions role options ["extra_body"]
  let name ← optionalName m.name role
  mergeExtraFields (Fields.setAll [("role", .str role), ("content", .str (m.content.getD ""))] name)
    (options.get "extra_body") ["role", "content", "name"] s!"{role} message"

def contentJson : Option String → Json
  | some s => .str s
  | none => .null

def optional (name : String) : Option Json → Fields
  | some v => [(name, v)]
  | none => []

def assistantReserved : List String :=
  ["role", "content", "name", "prefix", "reasoning_content", "tool_calls"]

/-- `content` that a provider would take: a text that is not blank. -/
def hasText : Option String → Bool
  | some s => !Queue.isBlank s
  | none => false

/-- The options of an assistant message and whether it is a prefix. -/
def assistantOptions (last : Bool) (m : AssistantMessage) :
    Except RequestError (Fields × Bool) := do
  let options ← providerOptions m.providerOptions
  checkOptions "assistant" options ["prefix", "extra_body", "response"]
  let isPrefix ← match options.get "prefix" with
    | none | some .null => pure false
    | some (.bool b) => pure b
    | some _ => .error ⟨"Chat Completions assistant prefix must be boolean."⟩
  if isPrefix && !last then
    .error ⟨"Chat Completions assistant prefix is only valid on the last input message."⟩
  else pure (options, isPrefix)

/-- The entry of a call in `tool_calls`. -/
def callJson (t : ToolMessage) : Json :=
  .obj [("id", .str t.callId), ("type", .str "function"),
    ("function", .obj [("name", .str t.name), ("arguments", t.arguments)])]

/-- The tool message of a call. -/
def resultJson (t : ToolMessage) : Fields :=
  [("role", .str "tool"), ("tool_call_id", .str t.callId), ("content", contentJson t.content)]

/-- An assistant message without calls. -/
def wirePlain (options : Fields) (isPrefix : Bool) (m : AssistantMessage) :
    Except RequestError (List Fields) :=
  if !hasText m.content then
    if isPrefix then .error ⟨"Chat Completions assistant prefix requires non-empty content."⟩
      else .ok []
  else do
    let name ← optionalName m.name "assistant"
    let target := Fields.setAll [("role", .str "assistant"), ("content", contentJson m.content)]
      (name ++ optional "prefix" (options.get "prefix")
        ++ optional "reasoning_content" (if isPrefix then m.reasoning.map .str else none))
    let wire ← mergeExtraFields target (options.get "extra_body") assistantReserved
      "assistant message"
    pure [wire]

/-- An assistant message that declares calls, and their results. -/
def wireCalls (options : Fields) (m : AssistantMessage) (emitted : List ToolMessage) :
    Except RequestError (List Fields) := do
  let name ← optionalName m.name "assistant"
  let target := Fields.setAll
    [("role", .str "assistant"), ("content", contentJson m.content),
      ("tool_calls", .arr (emitted.map callJson))]
    (name ++ optional "reasoning_content" (m.reasoning.map .str) ++
      optional "prefix" (options.get "prefix"))
  let wire ← mergeExtraFields target (options.get "extra_body") assistantReserved
    "assistant message"
  pure (wire :: emitted.map resultJson)

/-! ## Calls -/

/-- `completed_tools`: the last result of each call. -/
def completedTools (source : List ChatMessage) (callId : String) : Option ToolMessage :=
  ((source.flatMap ChatMessage.tools).filter fun t => t.completed && t.callId == callId).getLast?

/-- The call as it is declared: its own result, or the one it has elsewhere. -/
def effective (completed : String → Option ToolMessage) (t : ToolMessage) :
    Except RequestError ToolMessage :=
  if t.completed then .ok t
  else match completed t.callId with
    | some c => .ok c
    | none =>
      .error ⟨s!"Tool call {t.callId} has no result and cannot be sent to Chat Completions."⟩

/-- The loop over the calls of a message: those that are new, and the ids seen so far. -/
def declareTools (completed : String → Option ToolMessage) (seen : List String) :
    List ToolMessage → Except RequestError (List ToolMessage × List String)
  | [] => .ok ([], seen)
  | t :: tools =>
    if seen.contains t.callId then declareTools completed seen tools
    else do
      let e ← effective completed t
      let (emitted, seen) ← declareTools completed (t.callId :: seen) tools
      pure (e :: emitted, seen)

def wireAssistant (completed : String → Option ToolMessage) (seen : List String) (last : Bool)
    (m : AssistantMessage) : Except RequestError (List Fields × List String) := do
  let (options, isPrefix) ← assistantOptions last m
  if m.toolMessages.isEmpty then do
    let wire ← wirePlain options isPrefix m
    pure (wire, seen)
  else do
    let (emitted, seen) ← declareTools completed seen m.toolMessages
    if emitted.isEmpty then
      if hasText m.content then
        pure ([[("role", .str "assistant"), ("content", contentJson m.content)]], seen)
      else pure ([], seen)
    else do
      let wire ← wireCalls options m emitted
      pure (wire, seen)

/-- The loop over the messages. -/
def wireLoop (completed : String → Option ToolMessage) (seen : List String) :
    List ChatMessage → Except RequestError (List Fields)
  | [] => .ok []
  | .system m :: source => do
    let item ← wireText "system" m
    let rest ← wireLoop completed seen source
    pure (item :: rest)
  | .user m :: source => do
    let item ← wireText "user" m
    let rest ← wireLoop completed seen source
    pure (item :: rest)
  | .assistant m :: source => do
    let (wire, seen) ← wireAssistant completed seen source.isEmpty m
    let rest ← wireLoop completed seen source
    pure (wire ++ rest)

/-- `_wire_messages_from`. -/
def wireMessagesFrom (source : List ChatMessage) : Except RequestError (List Fields) :=
  if source.isEmpty then .error ⟨"Chat Completions messages must contain at least one message."⟩
  else wireLoop (completedTools source) [] source

end MiniAgent.Provider
