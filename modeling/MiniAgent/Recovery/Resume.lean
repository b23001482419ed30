import MiniAgent.Provider.Message
import MiniAgent.Store.Nodes
import MiniAgent.Store.Selected

/-!
# The recovery of an attempt

What `resume_session` does with the three stores of a Session before it runs again: the saved
runtime, the canonical Turn and the receipts of the Todo store. `reconcile_todo_receipts` repairs
the Turn and the saved runtime from the receipts, `settle_indeterminate_tool_calls` the Turn, and
`reconstruct_attempt` makes the next attempt. Each of them has a copy of its own: the attempt is
made from the runtime as it was loaded before the repairs.
-/

namespace MiniAgent.Provider

open Lib

deriving instance DecidableEq for TextMessage, AssistantMessage, ChatMessage

/-- The status, the content and `retryable` of a call are assigned from another. -/
def ToolMessage.assign (t source : ToolMessage) : ToolMessage :=
  { t with
    status := source.status
    content := source.content
    retryable := source.retryable
    result := source.result }

theorem succeeded_ne_pending : ToolStatus.succeeded ≠ .pending := by decide

theorem failed_ne_pending : ToolStatus.failed ≠ .pending := by decide

/-- A call gets a result. -/
def ToolMessage.record (t : ToolMessage) (status : ToolStatus) (content : String)
    (retryable : Option Bool) (h : status ≠ .pending := by decide) : ToolMessage :=
  { t with
    status
    content := some content
    retryable
    result := ⟨nofun, fun hs => absurd hs h⟩ }

end MiniAgent.Provider

namespace MiniAgent.Recovery

open Lib Turn Store Provider

variable {host : Host}

/-! ## The saved runtime -/

inductive RunStatus where
  | running | completed | failed | cancelled
  deriving DecidableEq

structure RecoveryCheckpoint where
  reason : String
  timestamp : String
  callId : Option String
  exchangeId : Option String
  interruption : Option String
  indeterminateCallIds : List String

structure RunState where
  runId : String
  attempt : Nat
  actions : List ToolMessage
  status : RunStatus
  stopReason : Option String
  finalAnswer : Option String
  checkpoint : Option RecoveryCheckpoint

/-- The `RuntimeState` of a Session. -/
structure Runtime where
  messages : List ChatMessage
  currentRun : Option RunState
  activeMessage : Option AssistantMessage
  activeToolIndex : Option Nat
  running : Bool

/-- What a process leaves behind; the Turn is the one of the current run, and `receipt` the text of
a receipt of the Todo store for it. -/
structure Durable (host : Host) where
  runtime : Runtime
  turn : Option (ValidTurn host)
  receipt : String → Option String

/-! ## Receipts -/

def isResult (item : Fields) : Bool := item.get "type" = some (.str "tool_result")

/-- The calls that have a result of any status. -/
def resultIds (messages : List Fields) : List String :=
  ((messages.flatMap messageItems).filter isResult).map callId

/-- A call of the Todo tool that has begun and has no result. -/
def isOpenTodo (terminal : List String) (item : Fields) : Bool :=
  item.get "type" = some (.str "tool_call") ∧ item.get "name" = some (.str "update_todo_list") ∧
    item.get "status" = some (.str "running") ∧ callId item ≠ "" ∧ callId item ∉ terminal

def recoveredCall (item : Fields) : Fields :=
  (item.set "status" (.str "success")).set "replay_safe" (.bool false)

def recoveredResult (r : String × String) : Fields :=
  [("type", .str "tool_result"), ("call_id", .str r.1), ("tool", .str "update_todo_list"),
    ("content", .str r.2), ("status", .str "success"), ("replay_safe", .bool false),
    ("retryable", .bool true)]

/-- The receipt that a call is recovered from. -/
def receiptOf (receipt : String → Option String) (terminal : List String) (item : Fields) :
    Option String :=
  if isOpenTodo terminal item then receipt (callId item) else none

/-- The Items of a Message with what they are recovered from; a recovered call is terminal from then
on. -/
def reconcileItems (receipt : String → Option String) : List String → List Fields →
    List Fields × List (String × String)
  | _, [] => ([], [])
  | terminal, item :: items => match receiptOf receipt terminal item with
    | some result =>
      let r := reconcileItems receipt (callId item :: terminal) items
      (recoveredCall item :: r.1, (callId item, result) :: r.2)
    | none =>
      let r := reconcileItems receipt terminal items
      (item :: r.1, r.2)

/-- The results are appended to the Message of their call. -/
def reconcileMessages (receipt : String → Option String) : List String → List Fields →
    List Fields × List (String × String)
  | _, [] => ([], [])
  | terminal, message :: messages =>
    let r := reconcileItems receipt terminal (messageItems message)
    let rest := reconcileMessages receipt (r.2.map Prod.fst ++ terminal) messages
    (message.set "content" (itemsJson (r.1 ++ r.2.map recoveredResult)) :: rest.1, r.2 ++ rest.2)

def succeedTool (recovered : List (String × String)) (t : ToolMessage) : ToolMessage :=
  match recovered.lookup t.callId with
  | some result => t.record .succeeded result (some true)
  | none => t

/-- The calls of the saved runtime that were recovered. -/
def Runtime.succeed (r : Runtime) (recovered : List (String × String)) : Runtime :=
  { r with
    activeMessage := r.activeMessage.map fun m =>
      { m with toolMessages := m.toolMessages.map (succeedTool recovered) }
    currentRun := r.currentRun.map fun run =>
      { run with actions := run.actions.map (succeedTool recovered) } }

def reconcileTodoReceipts (d : Durable host) (node : ValidTurn host) :
    Except Err (ValidTurn host × Durable host) :=
  let messages := selected node.val
  let r := reconcileMessages d.receipt (resultIds messages) messages
  if r.2.isEmpty then .ok (node, d)
  else do
    let repaired ← rebuild host (withSelected node.val r.1)
    pure (repaired, { d with turn := some repaired, runtime := d.runtime.succeed r.2 })

/-- `settle_indeterminate_tool_calls` on the stored Turn. -/
def settle (d : Durable host) : Except Err (Durable host) :=
  match d.turn with
  | none => .ok d
  | some node => match settledVersion (selected node.val) with
    | none => .ok d
    | some version => do
      let t ← rebuild host (withSelected node.val version)
      pure { d with turn := some t }

/-! ## The next attempt -/

def indeterminateCallIds (turn : Option (ValidTurn host)) : List String :=
  match turn with
  | none => []
  | some node =>
    let messages := selected node.val
    (((messages.flatMap messageItems).filter (isUncertain (terminalResults messages))).map
      callId).dedup.mergeSort

def indeterminateText : String :=
  "Outcome is indeterminate because the process stopped after the tool call began. " ++
    "Do not replay this call automatically; inspect current state first."

def notExecutedText : String := "Not executed before the previous process stopped."

/-- A pending call is closed. -/
def closeTool (indeterminate : List String) (t : ToolMessage) : ToolMessage :=
  if t.status ≠ .pending then t
  else if t.callId ∈ indeterminate then t.record .indeterminate indeterminateText t.retryable
  else t.record .failed notExecutedText (some false)

def AssistantMessage.close (indeterminate : List String) (m : AssistantMessage) :
    AssistantMessage :=
  { m with toolMessages := m.toolMessages.map (closeTool indeterminate) }

/-- The call that a dictionary by `call_id` has: the last one. -/
def lastCall (tools : List ToolMessage) (callId : String) : Option ToolMessage :=
  tools.reverse.find? fun t => t.callId = callId

/-- A call takes over what the call of the same id has. -/
def follow (tools : List ToolMessage) (t : ToolMessage) : ToolMessage :=
  match lastCall tools t.callId with
  | some source => t.assign source
  | none => t

/-- The archived actions take over those of the next attempt, the last one of each id. -/
def archiveActions (resumed : List ToolMessage) : List ToolMessage → List ToolMessage
  | [] => []
  | a :: actions =>
    (if actions.any fun b => b.callId = a.callId then a else follow resumed a) ::
      archiveActions resumed actions

/-- The run of the attempt that has ended. -/
def archivedRun (now : String) (interruption : Option String) (indeterminate : List String)
    (run : RunState) (actions : List ToolMessage) : RunState :=
  { run with
    actions
    status := if run.status = .running then .failed else run.status
    stopReason := if run.status = .running then some "process_interrupted" else run.stopReason
    finalAnswer := if run.status = .running then
        some (if (run.finalAnswer.getD "") = "" then
          "Previous process stopped before the workflow reached a terminal state."
            else run.finalAnswer.getD "")
      else run.finalAnswer
    checkpoint := some
      { reason := (run.checkpoint.map RecoveryCheckpoint.reason).getD "unknown"
        timestamp := (run.checkpoint.map RecoveryCheckpoint.timestamp).getD now
        callId := run.checkpoint.bind RecoveryCheckpoint.callId
        exchangeId := run.checkpoint.bind RecoveryCheckpoint.exchangeId
        interruption
        indeterminateCallIds := indeterminate } }

/-- The run of the attempt that begins. -/
def resumedRun (now runId : String) (run : RunState) (actions : List ToolMessage) : RunState :=
  { run with
    runId
    attempt := run.attempt + 1
    actions
    status := .running
    stopReason := none
    finalAnswer := none
    checkpoint := some ⟨"run_resumed", now, none, none, none, []⟩ }

/-- The archived source and the next attempt. -/
def reconstructAttempt (now runId : String) (state : Runtime) (turn : Option (ValidTurn host)) :
    Except Err (Runtime × Runtime) :=
  match state.currentRun with
  | none => .error (.store "The selected session has no resumable workflow.")
  | some run =>
    if run.status = .completed then
      .error (.store "The selected session has no resumable workflow.")
    else
      let interruption := if run.status = .running then some "process_interrupted"
        else run.stopReason
      let indeterminate := indeterminateCallIds turn
      let running := state.running && run.status ≠ .running
      match state.activeMessage with
      | none => .ok
          ({ state with
              currentRun := some (archivedRun now interruption indeterminate run run.actions)
              running },
            { state with
              currentRun := some (resumedRun now runId run run.actions)
              activeToolIndex := none
              running := true })
      | some active =>
        let closed := AssistantMessage.close indeterminate active
        let messages := if .assistant closed ∈ state.messages then state.messages
          else state.messages ++ [.assistant closed]
        let actions := run.actions.map (follow closed.toolMessages)
        let archived := archiveActions actions run.actions
        .ok
          ({ state with
              activeMessage := some { active with
                toolMessages := active.toolMessages.map (follow closed.toolMessages) }
              currentRun := some (archivedRun now interruption indeterminate run archived)
              running },
            { state with
              messages
              activeMessage := none
              activeToolIndex := none
              currentRun := some (resumedRun now runId run actions)
              running := true })

/-- The recovery steps of `resume_session`: what is durable afterwards, and the state that runs
on. -/
def resumeSession (now runId : String) (d : Durable host) :
    Except Err (Durable host × Runtime) := do
  -- loaded before the repairs
  let state := d.runtime
  let (turn, d) ← match d.turn with
    | none => pure (none, d)
    | some node => do
      let (node, d) ← reconcileTodoReceipts d node
      pure (some node, d)
  let d ← settle d
  let (_, resumed) ← reconstructAttempt now runId state turn
  pure ({ d with runtime := resumed }, resumed)

end MiniAgent.Recovery
