import MiniAgent.Bridge.Items

/-!
# Events of a running Turn

`handle` of `node_bridge/events.py`, `finish` of `finalization.py` and `start` of `core.py`: what a
new or resumed Turn starts with, and what each event of the run makes of it.
-/

namespace MiniAgent.Bridge

open Lib Turn Provider Store

structure RuntimeEvent where
  kind : String
  message : String
  data : Fields

namespace TurnBridge

variable (env : BridgeEnv)

/-! ## Texts of events -/

/-- `str(data.get(name) or default)`. -/
def textOf (data : Fields) (name default : String) : String :=
  RuntimeEventNodeBridge.textOf env.dec data name default

/-- `bool(data.get(name, default))`. -/
def boolOf (data : Fields) (name : String) (default : Bool) : Bool :=
  match data.get name with
  | some v => v.truthy
  | none => default

/-- `part in text`. -/
def occurs (part text : String) : Bool :=
  text.toList.tails.any fun rest => part.toList.isPrefixOf rest

def networkErrorTypes : List String :=
  ["ConnectionError", "ConnectTimeout", "ModelTransportError", "NetworkError",
    "ReadTimeout", "Timeout", "TimeoutError"]

def toolErrorTypes : List String := ["ToolError", "ConfirmationRequired"]

def hiddenRecoverableEvents : List String := ["tool_recovery", "model_repair"]

def errorCategory (data : Fields) : String :=
  let errorType := textOf env data "error_type" ""
  let lowered := env.lower errorType
  if networkErrorTypes.contains errorType || ["network", "timeout", "transport", "connection"].any
    (occurs · lowered) then
    "network"
  else if toolErrorTypes.contains errorType || occurs "tool" lowered then "tool"
  else "agent"

/-- Whether a tool may be run again by its name. -/
def replaySafeName (tool : String) : Bool :=
  ["write", "bash", "shell", "command", "mcp"].all fun part => !occurs part (env.lower tool)

/-! ## Usage -/

def tokenValue : Option Json → Option Int
  | some (.int n) => if 0 ≤ n then some n else none
  | _ => none

def firstToken (usage : Fields) (names : List String) : Option Int :=
  names.findSome? fun name => tokenValue (usage.get name)

/-- The first token count in one of the details objects. -/
def detailToken (usage : Fields) (details names : List String) : Option Int :=
  details.findSome? fun name =>
  match usage.get name with
  | some (.obj f) => firstToken f names
  | _ => none

/-- `normalize_provider_usage`, by the name of the member. -/
def providerUsage (usage : Fields) : List (String × Option Int) :=
  let input := firstToken usage ["input_tokens", "prompt_tokens", "prompt"]
  let cached := (firstToken usage ["cached_tokens", "cache_read_input_tokens",
    "prompt_cache_hit_tokens", "cache_read_tokens",
    "cache_creation_input_tokens", "cache_creation_tokens"]).or
      (detailToken usage ["prompt_tokens_details", "input_tokens_details", "cache_details"]
        ["cached_tokens", "cache_read_input_tokens", "cache_read_tokens", "prompt_cache_hit_tokens",
          "cache_creation_input_tokens", "cache_creation_tokens"])
  let output := firstToken usage ["output_tokens", "completion_tokens", "completion"]
  let reasoning := (firstToken usage ["reasoning_tokens"]).or
    (detailToken usage ["completion_tokens_details", "output_tokens_details", "reasoning_details"]
      ["reasoning_tokens", "tokens"])
  let total := (firstToken usage ["total_tokens", "total"]).or
    (match input, output with
      | some i, some o => some (i + o)
      | _, _ => none)
  [("input_tokens", input), ("cached_tokens", cached), ("output_tokens", output),
    ("reasoning_tokens", reasoning),
    ("total_tokens", total)]

/-- The usage of a Turn with what a provider reports. -/
def mergedUsage (usage : Fields) (current : RuntimeState) : Fields :=
  (providerUsage usage).map fun (name, tokens) => (name, match tokens with
    | some n => .int n
    | none => (current.usage.toDict.get name).getD .null)

def applyUsage (usage : Fields) : Method Unit := do
  let b ← Call.read id
  match b.assistant with
  | none => pure ()
  | some _ => do
    let current ← currentTurn env
    writeOn env current (.updateConfig [("usage", .obj (mergedUsage usage current))])

/-- `apply_runtime_config`. -/
def applyConfig (config : Fields) : Method Unit := do
  let _ ← Call.onPart TurnBridge.toRuntimeEventNodeBridge (fun part b =>
    { b with toRuntimeEventNodeBridge := part }) .turn
    (RuntimeEventNodeBridge.applyRuntimeConfig env.writer env.dec config)
  pure ()

/-! ## Items of events -/

def eventItem (itemType kind message : String) (data : Fields) : Fields :=
  let item := data.setAll [("type", .str itemType), ("event", .str kind),
    ("status", .str "success")]
  if message = "" then item else setDefault item "text" (.str message)

/-- `_event_item`. -/
def appendEventItem (itemType kind message : String) (data : Fields) : Method Unit :=
  appendItem env (eventItem itemType kind message data)

def isCall (callId : String) (item : Fields) : Bool :=
  hasType item ["tool_call"] && item.get "call_id" == some (.str callId)

def hasStatus (status : String) (item : Fields) : Bool := item.get "status" == some (.str status)

/-- The last place of a list where something is found. -/
def findLast {α β : Type} (f : α → Option β) (l : List α) : Option (Nat × β) :=
  l.zipIdx.reverse.findSome? fun (a, i) => (f a).map fun b => (i, b)

/-- The last call with an id in the assistant Messages. -/
def findCall (callId : String) (version : List Fields) : Option (Nat × Nat × Fields) :=
  findLast (fun m => if IsAssistant m then
    findLast (fun item => if isCall callId item then some item else none) (messageItems m)
    else none) version

/-- An Item of the Turn gets a status; it goes into the copy if the Message is the one being
written. -/
def changeStatus (messageIdx itemIdx : Nat) (status : String) : Method Unit := do
  writeTurn env fun t => .setItemStatus t.currentDataIdx messageIdx itemIdx status true
  Call.write fun b =>
    if b.assistantMessageIdx = some messageIdx then
      { b with assistantBlocks := b.assistantBlocks.modify itemIdx (withStatus status) }
    else b
  recordCompletedItem env messageIdx itemIdx

def setToolCallStatus (callId status : String) : Method Unit := do
  let b ← Call.read id
  match b.assistant.bind fun t => findCall callId (selected t) with
  | none => pure ()
  | some (messageIdx, itemIdx, item) =>
    if hasStatus status item then pure ()
    else changeStatus env messageIdx itemIdx status

/-- The places of the running Items. -/
def runningPlaces (version : List Fields) : List (Nat × Nat) :=
  version.zipIdx.flatMap fun (m, i) =>
    ((messageItems m).zipIdx.filter fun p => hasStatus "running" p.1).map fun p => (i, p.2)

def settleRunningItems (status : String) : Method Unit := do
  let b ← Call.read id
  match b.assistant with
  | none => pure ()
  | some t => Call.forEach (fun p => changeStatus env p.1 p.2 status) (runningPlaces (selected t))

def isRunningRetry (item : Fields) : Bool := hasType item ["retry"] && hasStatus "running" item

def settleRunningRetry : Method Unit := do
  let b ← Call.read id
  match b.assistantMessageIdx,
      findLast (fun item => if isRunningRetry item then some item else none) b.assistantBlocks with
  | some i, some (itemIdx, _) => do
    writeTurn env fun t => .setItemStatus t.currentDataIdx i itemIdx "success" true
    setBlock itemIdx (withStatus "success")
    recordCompletedItem env i itemIdx
  | _, _ => pure ()

/-- A positive attempt. -/
def attemptOf (data : Fields) : Int :=
  match data.get "attempt" with
  | some (.int n) => if 1 ≤ n then n else 1
  | _ => 1

def maxRetriesOf (data : Fields) : Int :=
  match data.get "max_transport_retries" with
  | some (.int n) => if attemptOf data ≤ n then n else attemptOf data
  | _ => attemptOf data

def delayOf (data : Fields) : Json :=
  match data.get "delay_seconds" with
  | some (.int n) => if 0 ≤ n then .int n else .int 0
  | some (.float q) => if 0 ≤ q then .float q else .int 0
  | _ => .int 0

def retryItem (message : String) (data : Fields) : Fields :=
  let visible := env.redact message
  let visible := if visible = "" then env.redact (textOf env data "error_type" "NetworkError")
    else visible
  [("type", .str "retry"), ("event", .str "model_retry"), ("category", .str "network"),
    ("message", .str visible),
    ("attempt", .int (attemptOf data)), ("max_retries", .int (maxRetriesOf data)),
    ("delay_seconds", delayOf data),
    ("status", .str "running")]

def modelRetry (message : String) (data : Fields) : Method Unit := do
  startAssistantAfterReport env
  appendItem env (retryItem env message data)

def toolResultItem (message : String) (data : Fields) (status : String) : Fields :=
  let tool := env.dec.text (pyOr (data.get "tool") (data.get "name"))
  let content := (data.get "result").getD ((data.get "error").getD (.str message))
  [("type", .str "tool_result"), ("call_id", .str (textOf env data "call_id" "call_unknown")),
    ("content", content),
    ("status", .str status),
    ("replay_safe", .bool (boolOf data "replay_safe" (replaySafeName env tool)))]
    ++ (if tool = "" then [] else [("tool", .str tool)])
    ++ (match data.get "failure_code" with
      | some (.str code) => [("failure_code", .str code)]
      | _ => [])
    ++ (match data.get "retryable" with
      | some (.bool b) => [("retryable", .bool b)]
      | _ => [])

def toolResult (message : String) (data : Fields) (status : String) : Method Unit := do
  setToolCallStatus env (textOf env data "call_id" "call_unknown") status
  appendItem env (toolResultItem env message data status)

/-- `dict(value or \x7b\x7d)`. -/
def objectOf (value : Option Json) : Except BridgeError Fields :=
  match env.dec.object value with
  | .ok f => .ok f
  | .error _ => .error .conversion

def hasCall (callId : String) (blocks : List Fields) : Bool := blocks.any (isCall callId)

/-- The calls of an answer that the Message does not hold yet. -/
def toolCallItems (blocks : List Fields) : List Json → Except BridgeError (List Fields)
  | [] => .ok []
  | .obj tool :: rest =>
    let callId := textOf env tool "call_id" "call_unknown"
    if hasCall callId blocks then toolCallItems blocks rest
    else do
      let arguments ← objectOf env (Fields.get tool "arguments")
      let items ← toolCallItems blocks rest
      pure ([("type", .str "tool_call"), ("call_id", .str callId),
        ("name", .str (textOf env tool "name" "unknown")),
        ("arguments", .obj arguments), ("replay_safe", .bool (boolOf tool "replay_safe" true)),
        ("status", .str "running")] :: items)
  | _ :: rest => toolCallItems blocks rest

/-- A text of an answer that has not streamed. -/
def answerItem (itemType name streamed : String) (raw data : Fields) : List Fields :=
  match pyOr (raw.get name) none with
  | some v => if boolOf data streamed false then []
    else [[("type", .str itemType), ("text", .str (env.dec.text (some v))),
      ("status", .str "success")]]
  | none => []

def toolMessagesOf (raw : Fields) : List Json :=
  match raw.get "tool_messages" with
  | some (.arr l) => l
  | _ => []

def assistantMessage (raw data : Fields) : Method Unit := do
  startAssistantAfterReport env
  let b ← Call.read id
  let calls ← Call.ofExcept (toolCallItems env b.assistantBlocks (toolMessagesOf raw))
  appendItems env (answerItem env "reasoning" "reasoning" "reasoning_streamed" raw data
    ++ answerItem env "text" "content" "content_streamed" raw data ++ calls)

def toolCall (message : String) (data : Fields) : Method Unit := do
  let callId := textOf env data "call_id" "call_unknown"
  let b ← Call.read id
  if hasCall callId b.assistantBlocks then pure ()
  else do
    let name := match pyOr (pyOr (data.get "tool") (data.get "name")) none with
      | some v => env.dec.text (some v)
      | none => if message = "" then "unknown" else message
    let arguments ← Call.ofExcept (objectOf env (data.get "arguments"))
    appendItem env [("type", .str "tool_call"), ("call_id", .str callId), ("name", .str name),
      ("arguments", .obj arguments), ("status", .str "running"),
      ("replay_safe", .bool (boolOf data "replay_safe" (replaySafeName env name)))]

/-! ## Messages of events -/

/-- A Message of its own at the end of the Turn, and its Item in the trace. -/
def appendWhole (message : Fields) : Method Unit := do
  writeTurn env fun _ => .appendMessage (.obj message) true
  let t ← activeTurn
  recordCompletedItem env ((selected t).length - 1) 0

def reportItem (reply deliveryId : String) : Fields :=
  [("type", .str "subagent"), ("event", .str "agent_report"), ("status", .str "success"),
    ("text", .str reply),
    ("delivery_id", .str deliveryId)]

def isReport (deliveryId : String) (item : Fields) : Bool :=
  hasType item ["subagent"] && item.get "delivery_id" == some (.str deliveryId)

def appendSubagentReport (data : Fields) : Method Unit := do
  let reply := textOf env data "reply_content" ""
  let deliveryId := textOf env data "delivery_id" ""
  if deliveryId = "" then Call.raise (.valueError "A subagent report requires delivery_id.")
  else do
    finishStreamItem env none "success"
    let t ← activeTurn
    if ((selected t).flatMap messageItems).any (isReport deliveryId) then pure ()
    else do
      appendWhole env (assistantOf [reportItem reply deliveryId])
      Call.write fun b => { b with assistantAfterReport := true }

/-- The references of a steering message. -/
def referencesOf (data : Fields) : List Json :=
  match data.get "references" with
  | some (.arr l) => l
  | _ => []

def steeringItem (content : String) (references : List Json) : Fields :=
  [("type", .str "text"), ("text", .str content), ("status", .str "success")]
    ++ (if references.isEmpty then [] else [("references", .arr references)])

def userMessageOf (item : Fields) (deliveryId : String) : Fields :=
  [("role", .str "user"), ("content", itemsJson [item])]
    ++ (if deliveryId = "" then [] else [("delivery_id", .str deliveryId)])

def isSteering (deliveryId : String) (m : Fields) : Bool :=
  m.get "role" == some (.str "user") && m.get "delivery_id" == some (.str deliveryId)

def appendSteeringMessage (data : Fields) : Method Unit := do
  let content := String.ofList (Queue.strip (textOf env data "content" "").toList)
  if content = "" ∧ (pyOr (data.get "references") none).isNone then pure ()
  else do
    finishStreamItem env none "success"
    let t ← activeTurn
    let deliveryId := textOf env data "delivery_id" ""
    if deliveryId ≠ "" ∧ (selected t).any (isSteering deliveryId) then pure ()
    else do
      appendWhole env (userMessageOf (steeringItem content (referencesOf data)) deliveryId)
      clearBlocks
      Call.write fun b => { b with assistantMessageIdx := none }

/-! ## The end of a Turn -/

def terminalErrorPayload (category message : String) (retryable : Bool) (code : String) :
    Except Err Fields := do
  let items ← normalizeContent
    (.obj ([("type", .str "error"), ("category", .str category), ("message", .str message),
    ("retryable", .bool retryable), ("status", .str "failed")] ++
      (if code = "" then [] else [("code", .str code)])))
  pure (items.headD [])

def appendTerminalError (category message : String) (retryable : Bool) (code : String) :
    Method Unit := do
  let payload ← Call.ofExcept
    ((terminalErrorPayload category message retryable code).mapError .turn)
  appendItem env payload

/-- `writer.finalize`; an exception is kept from the caller. -/
def sealTurn (status : NodeStatus) : Method Unit := do
  let _ ← Call.attempt (writeTurn env fun _ => .finalize status.text)
  Call.write fun b => { b with closed := true }

/-- What becomes of the Items that run when a Turn ends. -/
def settledStatus (status : NodeStatus) : String :=
  if status = .success then "success" else "failed"

def finish (status : NodeStatus) (finalAnswer : String) (category : Option String) (code : String) :
    Method Unit := do
  let b ← Call.read id
  if b.closed then pure ()
  else if status = .running then
    Call.raise (.valueError "A Turn can only finish as success, paused, or failed.")
  else do
    ensureAssistantMessage env
    finishStreamItem env none (settledStatus status)
    let b ← Call.read id
    Call.whenever (finalAnswer ≠ "" && status = .success &&
      !b.assistantBlocks.any (hasType · ["text"]))
      (appendItem env [("type", .str "text"), ("text", .str finalAnswer),
        ("status", .str "success")])
    settleRunningItems env (settledStatus status)
    Call.whenever (finalAnswer ≠ "" &&
      (status = .failed || (status = .paused && category ≠ some "user")))
      (appendTerminalError env (category.getD (if status = .paused then "user" else "agent"))
        finalAnswer (status = .paused) code)
    sealTurn env status

/-! ## Compaction -/

/-- `create_compact_turn`. -/
def createCompactTurn (turnId : String) (sessionId summary : String) :
    NodeWriter.Method RuntimeState := do
  let nodes ← Call.read NodeWriter.store
  let nodes := env.loadNodes nodes sessionId
  match nodes.find? fun node => node.key.2 = turnId with
  | none => Call.raise (.keyError turnId)
  | some (.root _ _) => Call.raise (.store "A root Turn is only an ancestry anchor.")
  | some (.turn source) =>
    if source.val.status ≠ .success then
      Call.raise (.store "Only a successful Turn can be compacted.")
    else do
      let tree ← Call.ofExcept (RuntimeStateTree.ofNodes nodes)
      let compacted ← Call.ofExcept (tree.compact source summary env.compactionTurnId env.now)
      NodeWriter.createNode env.writer compacted.val
      pure compacted.val

/-- The Items of the last assistant Message. -/
def assistantItems (t : RuntimeState) : List Fields :=
  match (selected t).reverse.find? fun m => IsAssistant m with
  | some m => messageItems m
  | none => []

def beginCompactTurn (summary : String) : Method Unit := do
  let b ← Call.read id
  match b.assistant.or b.lastNode with
  | none => Call.raise (.runtimeError "Compaction requires an active Turn.")
  | some source => do
    setTurn source
    Call.whenever (source.status = .running) (writeTurn env fun _ => .finalize "success")
    let compacted ← onWriter (createCompactTurn env source.id source.sessionId summary)
    let compacted ← onWriter (NodeWriter.snapshot env.writer compacted)
    setTurn compacted
    Call.write fun b => { b with assistantBlocks := assistantItems compacted }
    takeLastMessage
    clearStream none

/-! ## Events -/

/-- What an event does, by its kind. -/
def project (kind message : String) (data : Fields) : Method Unit :=
  if kind = "model_request" then settleRunningRetry env
  else if kind = "model_retry" then modelRetry env message data
  else if kind = "thinking_start" then do
    startAssistantAfterReport env
    beginStreamItem env "reasoning"
  else if kind = "thinking_delta" then updateStreamItem env "reasoning" message
  else if kind = "thinking_end" then finishStreamItem env (some "reasoning") "success"
  else if kind = "response_start" then do
    startAssistantAfterReport env
    beginStreamItem env "text"
  else if kind = "response_delta" then updateStreamItem env "text" message
  else if kind = "response_end" then finishStreamItem env (some "text") "success"
  else if kind = "assistant_message" then
    match data.get "message" with
    | some (.obj raw) => assistantMessage env raw data
    | _ => pure ()
  else if kind = "tool_call" then toolCall env message data
  else if kind = "tool_result" then toolResult env message data "success"
  else if kind = "tool_failed" then do
    Call.write fun b => { b with abortCategory := some "tool" }
    toolResult env message data "failed"
  else if kind = "model_error" then
    Call.write fun b =>
      { b with
        abortCategory := some (errorCategory env data),
        abortCode := textOf env data "error_type" "model_error" }
  else if kind = "approval_requested" ∨ kind = "approval_granted" then
    Call.whenever (pyOr (data.get "tool") none).isNone
      (appendEventItem env "approval" kind message data)
  else if kind = "user_input_requested" ∨ kind = "user_input_received" then
    appendEventItem env "question" kind message data
  else if kind = "steering_applied" then appendSteeringMessage env data
  else if kind = "steering_received" then pure ()
  else if kind = "subagent_report" then appendSubagentReport env data
  else if kind = "plan" ∨ kind = "feedback_received" ∨ kind = "handoff_created" then
    appendEventItem env "plan" kind message data
  else if kind = "skills_selected" then appendEventItem env "skill_snapshot" kind message data
  else if kind.startsWith "subagent_" then appendEventItem env "subagent" kind message data
  else if kind = "context_compaction_completed" then
    beginCompactTurn env (textOf env data "summary" message)
  else if kind = "cancelled" ∨ kind = "run_suspended" then
    finish env .paused (if message = "" then "Paused by user." else message) (some "user") ""
  else if kind = "error" then do
    let b ← Call.read id
    finish env .failed message (some (b.abortCategory.getD (errorCategory env data)))
      (textOf env data "error_type" b.abortCode)
  else pure ()

/-- The kinds of events, each with what it does. -/
theorem project_cases {kind message : String} {data : Fields} {motive : Method Unit → Prop}
    (modelRequest : kind = "model_request" → motive (settleRunningRetry env))
    (modelRetry : kind = "model_retry" → motive (modelRetry env message data))
    (thinkingStart : kind = "thinking_start" →
      motive (do startAssistantAfterReport env; beginStreamItem env "reasoning"))
    (thinkingDelta : kind = "thinking_delta" → motive (updateStreamItem env "reasoning" message))
    (thinkingEnd : kind = "thinking_end" →
      motive (finishStreamItem env (some "reasoning") "success"))
    (responseStart : kind = "response_start" →
      motive (do startAssistantAfterReport env; beginStreamItem env "text"))
    (responseDelta : kind = "response_delta" → motive (updateStreamItem env "text" message))
    (responseEnd : kind = "response_end" → motive (finishStreamItem env (some "text") "success"))
    (assistantMessage : kind = "assistant_message" → motive (match data.get "message" with
      | some (.obj raw) => assistantMessage env raw data
      | _ => pure ()))
    (toolCall : kind = "tool_call" → motive (toolCall env message data))
    (toolResult : kind = "tool_result" → motive (toolResult env message data "success"))
    (toolFailed : kind = "tool_failed" → motive (do
      Call.write fun b => { b with abortCategory := some "tool" }
      TurnBridge.toolResult env message data "failed"))
    (modelError : kind = "model_error" → motive (Call.write fun b => { b with
      abortCategory := some (errorCategory env data),
      abortCode := textOf env data "error_type" "model_error" }))
    (approval : kind = "approval_requested" ∨ kind = "approval_granted" →
      motive (Call.whenever (pyOr (data.get "tool") none).isNone
        (appendEventItem env "approval" kind message data)))
    (question : kind = "user_input_requested" ∨ kind = "user_input_received" →
      motive (appendEventItem env "question" kind message data))
    (steering : kind = "steering_applied" → motive (appendSteeringMessage env data))
    (report : kind = "subagent_report" → motive (appendSubagentReport env data))
    (plan : kind = "plan" ∨ kind = "feedback_received" ∨ kind = "handoff_created" →
      motive (appendEventItem env "plan" kind message data))
    (skills : kind = "skills_selected" →
      motive (appendEventItem env "skill_snapshot" kind message data))
    (subagent : kind.startsWith "subagent_" = true → kind ≠ "subagent_report" →
      motive (appendEventItem env "subagent" kind message data))
    (compaction : kind = "context_compaction_completed" →
      motive (beginCompactTurn env (textOf env data "summary" message)))
    (paused : kind = "cancelled" ∨ kind = "run_suspended" →
      motive (finish env .paused (if message = "" then "Paused by user." else message)
        (some "user") ""))
    (error : kind = "error" → motive (do
      let b ← Call.read id
      finish env .failed message (some (b.abortCategory.getD (errorCategory env data)))
        (textOf env data "error_type" b.abortCode)))
    (other : motive (pure ())) : motive (project env kind message data) := by
  unfold project
  refine iteInduction (motive := motive) modelRequest fun _ => ?_
  refine iteInduction (motive := motive) modelRetry fun _ => ?_
  refine iteInduction (motive := motive) thinkingStart fun _ => ?_
  refine iteInduction (motive := motive) thinkingDelta fun _ => ?_
  refine iteInduction (motive := motive) thinkingEnd fun _ => ?_
  refine iteInduction (motive := motive) responseStart fun _ => ?_
  refine iteInduction (motive := motive) responseDelta fun _ => ?_
  refine iteInduction (motive := motive) responseEnd fun _ => ?_
  refine iteInduction (motive := motive) assistantMessage fun _ => ?_
  refine iteInduction (motive := motive) toolCall fun _ => ?_
  refine iteInduction (motive := motive) toolResult fun _ => ?_
  refine iteInduction (motive := motive) toolFailed fun _ => ?_
  refine iteInduction (motive := motive) modelError fun _ => ?_
  refine iteInduction (motive := motive) approval fun _ => ?_
  refine iteInduction (motive := motive) question fun _ => ?_
  refine iteInduction (motive := motive) steering fun _ => ?_
  refine iteInduction (motive := motive) (fun _ => other) fun _ => ?_
  refine iteInduction (motive := motive) report fun hreport => ?_
  refine iteInduction (motive := motive) plan fun _ => ?_
  refine iteInduction (motive := motive) skills fun _ => ?_
  refine iteInduction (motive := motive) (fun h => subagent h hreport) fun _ => ?_
  refine iteInduction (motive := motive) compaction fun _ => ?_
  refine iteInduction (motive := motive) paused fun _ => ?_
  exact iteInduction (motive := motive) error fun _ => other

def reportedUsage (data : Fields) : Option Json :=
  match data.get "node_usage" with
  | some (.obj usage) => some (.obj usage)
  | _ => data.get "usage"

/-- The PATCH that an event carries. -/
def applyEventConfig (data : Fields) : Method Unit :=
  match pyOr (data.get "runtime_config") (data.get "config") with
  | some (.obj config) => applyConfig env config
  | _ => pure ()

def applyEventUsage (data : Fields) : Method Unit :=
  match reportedUsage data with
  | some (.obj usage) => applyUsage env usage
  | _ => pure ()

def handle (event : RuntimeEvent) : Method Unit := do
  let b ← Call.read id
  if b.closed || !b.started || hiddenRecoverableEvents.contains event.kind then pure ()
  else do
    applyEventConfig env event.data
    applyEventUsage env event.data
    project env event.kind event.message event.data

def handleInput (payload : Fields) : Method Unit := do
  let kind := textOf env payload "kind" "approval"
  let data ← Call.ofExcept (objectOf env (payload.get "data"))
  appendEventItem env (if kind = "question" then "question" else "approval") "decision_requested"
    (textOf env payload "message" "") data

/-- What comes to a bridge while its Turn runs. -/
inductive Step where
  | event (event : RuntimeEvent)
  | input (payload : Fields)
  | patch (config : Fields)
  /-- The runtime sets `turn_trace_initialized`. -/
  | traceReady (ready : Bool)

def step : Step → Method Unit
  | .event event => handle env event
  | .input payload => handleInput env payload
  | .patch config => applyConfig env config
  | .traceReady ready => Call.write fun b => { b with turnTraceInitialized := ready }

def run (steps : List Step) : Method Unit := Call.forEach (step env) steps

/-! ## The start of a Turn -/

/-- A bridge before its Turn. -/
def new (settings : RuntimeEventNodeBridge) : TurnBridge :=
  { settings with
    assistant := none
    lastNode := none
    started := false
    closed := false
    assistantBlocks := []
    assistantMessageIdx := none
    assistantAfterReport := false
    streamItemIndex := none
    streamItemType := none
    streamText := ""
    abortCategory := none
    abortCode := ""
    turnTraceInitialized := false
    tracePersistenceFailed := false
    trace := [] }

/-- The Turn that `start` makes, under a parent. -/
def newTurn (parent : Store.Node env.writer.host) (args : CreateArgs) (prompt : String)
    (references : List Json) (deliveryId : String) : Except Err (ValidTurn env.writer.host) := do
  let user := userMessageOf (steeringItem prompt references) ""
  let node ← create env.writer.host parent
    { args with status := .running, data := dataJson [[user, assistantOf []]] }
  if deliveryId = "" then pure node
  else fromMembers env.writer.host (NodeWriter.withData node.val
    (node.val.data.modify 0 fun version => version.modify 0 fun m =>
      m.set "delivery_id" (.str deliveryId)))

/-- What the bridge is started on. -/
inductive TurnStart (host : Host) where
  | new (parent : Store.Node host) (args : CreateArgs) (prompt : String)
    (references : List Json) (deliveryId : String)
  | resume (source : Key)

/-- `resume_turn_node`, on the node that was read. -/
def resumeTurnNode (source : RuntimeState) : NodeWriter.Method RuntimeState := do
  let nodes ← Call.read NodeWriter.store
  match env.resumeRefusal nodes source with
  | some e => Call.raise e
  | none => do
    let t ← Call.ofExcept (rebuild env.writer.host (resumed source))
    Call.write fun w => { w with store := Function.update w.store t.val.key (some (.turn t.val)) }
    pure t.val

/-- The Turn that is resumed: a paused one is opened again. -/
def resumedTurn (source : Key) : Method RuntimeState := do
  let b ← Call.read id
  match b.writer.store source with
  | none => Call.raise (.valueError "Unknown source Turn.")
  | some (.root _ _) => Call.raise (.valueError "A root Turn is only an ancestry anchor.")
  | some (.turn t) =>
    if t.status = .paused then onWriter (resumeTurnNode env t)
    else if t.status = .running then pure t
    else Call.raise (.valueError "Only a paused or running Turn can resume in place.")

/-- `_bind_existing_trace`. -/
def bindExistingTrace (t : RuntimeState) : Method Unit := Call.write fun b =>
  if b.runtime.isSome then { b with turnTraceInitialized := env.hasTrace t } else b

/-- Whether a Message starts with the report of an Agent. -/
def startsWithReport (blocks : List Fields) : Bool :=
  match blocks.head? with
  | some item => hasType item ["subagent"] && item.get "event" == some (.str "agent_report")
  | none => false

def start : TurnStart env.writer.host → Method Unit
  | .new parent args prompt references deliveryId => do
    let node ← Call.ofExcept ((newTurn env parent args prompt references deliveryId).mapError .turn)
    let node ← onWriter (NodeWriter.create env.writer node.val)
    setTurn node
    Call.write fun b => { b with assistantMessageIdx := some 1 }
    bindExistingTrace env node
    Call.write fun b => { b with started := true }
  | .resume source => do
    let source ← resumedTurn env source
    let source ← onWriter (NodeWriter.snapshot env.writer source)
    setTurn source
    let isAnswer := lastRole source = some (.str "assistant")
    let blocks := if isAnswer then assistantItems source else []
    Call.write fun b =>
      { b with
        assistantMessageIdx := if isAnswer then some ((selected source).length - 1) else none
        assistantBlocks := blocks
        assistantAfterReport := startsWithReport blocks }
    bindExistingTrace env source
    Call.write fun b => { b with started := true }

end TurnBridge

end MiniAgent.Bridge
