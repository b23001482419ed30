import Mathlib.Data.List.Infix
import MiniAgent.Lib.Run
import MiniAgent.Recovery.Resume

/-!
# Steps of the executor

`ToolStepExecutor` on the calls of the active message, one after the other. A call is refused before
it begins, or begins with a `tool_call` event, takes effect (a Todo call with its receipt) and
returns or raises; then comes the `tool_result` or the `tool_failed` event, and last `runtime.save`.
`RunEventPublisher` saves the runtime with every event: before the bridge writes the Turn, or after
it where the event is hidden. A crash between two writes keeps `durable` and loses `live`.
-/

namespace MiniAgent.Recovery

open Lib Turn Store Provider

variable {host : Host}

/-! ## Events in the Turn -/

def isCall (id : String) (item : Fields) : Bool :=
  item.get "type" = some (.str "tool_call") ∧ item.get "call_id" = some (.str id)

/-- The last element that meets the condition is changed. -/
def modifyLast {α : Type} (p : α → Bool) (f : α → α) (l : List α) : List α :=
  match l.reverse.findIdx? p with
  | some i => (l.reverse.modify i f).reverse
  | none => l

/-- `_set_tool_call_status`. -/
def setCallStatus (id status : String) : List Fields → List Fields :=
  modifyLast (fun message => isAssistant message && (messageItems message).any (isCall id))
    fun message =>
    message.set "content"
      (itemsJson (modifyLast (isCall id) (fun item => item.set "status" (.str status))
      (messageItems message)))

/-- An Item comes to the Message that the bridge writes to. -/
def addItem (item : Fields) (messageIdx : Nat) (version : List Fields) : List Fields :=
  version.modify messageIdx fun message =>
    message.set "content" (itemsJson (messageItems message ++ [item]))

/-- No part of the name of a tool says that it changes something. -/
def replaySafe (name : String) : Bool :=
  ["write", "bash", "shell", "command", "mcp"].all fun part =>
    ¬ part.toList <:+: name.toLower.toList

def callItem (tool : ToolMessage) : Fields :=
  [("type", .str "tool_call"), ("call_id", .str tool.callId), ("name", .str tool.name),
    ("arguments", tool.arguments),
    ("status", .str "running"), ("replay_safe", .bool (replaySafe tool.name))]

/-- The `tool_call` event: the call is there already where its message was published. -/
def beginCall (tool : ToolMessage) (messageIdx : Nat) (version : List Fields) : List Fields :=
  if (version.flatMap messageItems).any (isCall tool.callId) then version
  else addItem (callItem tool) messageIdx version

/-- The result of a call and its text. -/
structure Returned where
  success : Bool
  text : String
  failureCode : Option String

def Returned.status (r : Returned) : String := if r.success then "success" else "failed"

def resultItem (tool : ToolMessage) (r : Returned) : Fields :=
  [("type", .str "tool_result"), ("call_id", .str tool.callId), ("content", .str r.text),
    ("status", .str r.status),
    ("replay_safe", .bool (replaySafe tool.name)), ("tool", .str tool.name)] ++
    (r.failureCode.map fun code => ("failure_code", Json.str code)).toList

/-- The call with its result. -/
def Returned.complete (r : Returned) (tool : ToolMessage) (retryable : Option Bool) : ToolMessage :=
  let done := if r.success then tool.record .succeeded r.text retryable succeeded_ne_pending
    else tool.record .failed r.text retryable failed_ne_pending
  { done with failureCode := r.failureCode.or done.failureCode }

/-! ## Events -/

/-- The events of a call: that it begins, and how it ended. -/
inductive CallEvent where
  | call (tool : ToolMessage)
  | ended (tool : ToolMessage) (r : Returned)

/-- `_HIDDEN_RECOVERABLE_EVENTS` of the publisher. -/
def hiddenRecoverableEvents : List String :=
  ["tool_failed", "tool_recovery", "model_repair", "model_retry"]

/-- One write to a store. -/
inductive Write where
  /-- the runtime, with the event as its last checkpoint -/
  | checkpoint (reason callId : String)
  /-- the Item of the call -/
  | call (tool : ToolMessage)
  /-- the status of the Item of the call -/
  | mark (tool : ToolMessage) (r : Returned)
  /-- the Item of the result -/
  | result (tool : ToolMessage) (r : Returned)
  /-- `runtime.save` -/
  | save

namespace CallEvent

def kind : CallEvent → String
  | .call _ => "tool_call"
  | .ended _ r => if r.success then "tool_result" else "tool_failed"

def callId : CallEvent → String
  | .call tool | .ended tool _ => tool.callId

/-- What the bridge writes. -/
def bridge : CallEvent → List Write
  | .call tool => [.call tool]
  | .ended tool r => [.mark tool r, .result tool r]

/-- `RunEventPublisher`: the bridge has a hidden event before the checkpoint is saved, any other
after it. -/
def writes (e : CallEvent) : List Write :=
  if e.kind ∈ hiddenRecoverableEvents then e.bridge ++ [.checkpoint e.kind e.callId]
  else .checkpoint e.kind e.callId :: e.bridge

end CallEvent

/-! ## Steps -/

/-- Where the executor is with the call at `active_tool_index`. -/
inductive Phase where
  | idle
  /-- before its checks and hooks -/
  | checking (tool : ToolMessage)
  /-- at the writes of the `tool_call` event, and after them in the tool -/
  | calling (tool : ToolMessage) (todo : List Write)
  /-- before the result is recorded -/
  | returned (tool : ToolMessage) (r : Returned)
  /-- at the writes of the event that the call has ended, and after them done -/
  | publishing (tool : ToolMessage) (r : Returned) (todo : List Write)

def Runtime.setActions (r : Runtime) (f : List ToolMessage → List ToolMessage) : Runtime :=
  { r with currentRun := r.currentRun.map fun run => { run with actions := f run.actions } }

def Runtime.setCheckpoint (r : Runtime) (c : RecoveryCheckpoint) : Runtime :=
  { r with currentRun := r.currentRun.map fun run => { run with checkpoint := some c } }

structure Executor (host : Host) where
  durable : Durable host
  live : Runtime
  phase : Phase

namespace Executor

variable (s : Executor host)

/-- A write of the bridge; one that raises is not made. -/
def publish (f : List Fields → List Fields) : Option (Executor host) :=
  match s.durable.turn with
  | none => some s
  | some node => match rebuild host (withSelected node.val (f (selected node.val))) with
    | .ok t => some { s with durable := { s.durable with turn := some t } }
    | .error _ => none

def save : Executor host := { s with durable := { s.durable with runtime := s.live } }

/-- `checkpoint.save`. -/
def checkpoint (c : RecoveryCheckpoint) : Executor host :=
  ({ s with live := s.live.setCheckpoint c }).save

/-- The Items come to the Message at `messageIdx`. -/
def perform (now : String) (messageIdx : Nat) : Write → Option (Executor host)
  | .checkpoint reason callId =>
    some (s.checkpoint ⟨reason, now, some callId, none, none, []⟩)
  | .call tool => s.publish (beginCall tool messageIdx)
  | .mark tool r => s.publish (setCallStatus tool.callId r.status)
  | .result tool r => s.publish (addItem (resultItem tool r) messageIdx)
  | .save => some s.save

/-- `_execute_tool`: the next call is an action. -/
def start (i : Nat) (tool : ToolMessage) : Executor host :=
  let live := ({ s.live with activeToolIndex := some i } : Runtime).setActions (· ++ [tool])
  { s with live, phase := .checking tool }

/-- The call at the active index, which is the last action too, gets its result. -/
def assignResult (tool : ToolMessage) (r : Returned) (retryable : Option Bool) : Runtime :=
  let done := r.complete tool retryable
  let i := s.live.activeToolIndex.getD 0
  let activeMessage := s.live.activeMessage.map fun m =>
    { m with toolMessages := m.toolMessages.set i done }
  let live : Runtime := { s.live with activeMessage }
  live.setActions fun actions => actions.dropLast ++ [done]

end Executor

inductive ExecutorStep where
  /-- the next call of the active message -/
  | start
  /-- a hook or the tool publishes an event of its own -/
  | checkpoint (c : RecoveryCheckpoint)
  /-- a check, a hook or the user refuses the call -/
  | refuse (text : String) (failureCode : Option String)
  /-- the `tool_call` event -/
  | call
  /-- the tool takes effect, with a receipt if it is the Todo tool, and returns or raises -/
  | effect (receipt : Option String) (r : Returned)
  /-- the call gets its result, and the event of it is published -/
  | record (retryable : Option Bool)
  /-- the next write -/
  | write (now : String) (messageIdx : Nat)
  /-- a write raises: for `except Exception` a call that has returned fails then -/
  | raised (text : String)

def Executor.step (s : Executor host) : ExecutorStep → Option (Executor host)
  | .start => match s.phase, s.live.activeMessage with
    | .idle, some m | .publishing _ _ [], some m =>
      let i := (s.live.activeToolIndex.map (· + 1)).getD 0
      (m.toolMessages[i]?).map fun tool => s.start i tool
    | _, _ => none
  | .checkpoint c => match s.phase with
    | .checking _ | .calling _ [] => some (s.checkpoint c)
    | _ => none
  | .refuse text failureCode => match s.phase with
    | .checking tool => some { s with phase := .returned tool ⟨false, text, failureCode⟩ }
    | _ => none
  | .call => match s.phase with
    | .checking tool => some { s with phase := .calling tool (CallEvent.call tool).writes }
    | _ => none
  | .effect receipt r => match s.phase with
    | .calling tool [] =>
      let written := if tool.name = "update_todo_list" then receipt else none
      let durable := { s.durable with
        receipt := fun id => if id = tool.callId then written.or (s.durable.receipt id)
          else s.durable.receipt id }
      some { s with durable, phase := .returned tool r }
    | _ => none
  | .record retryable => match s.phase with
    | .returned tool r => some { s with
        live := s.assignResult tool r retryable
        phase := .publishing tool r ((CallEvent.ended tool r).writes ++ [.save]) }
    | _ => none
  | .write now messageIdx => match s.phase with
    | .calling tool (write :: todo) =>
      ({ s with phase := .calling tool todo }).perform now messageIdx write
    | .publishing tool r (write :: todo) =>
      ({ s with phase := .publishing tool r todo }).perform now messageIdx write
    | _ => none
  | .raised text => match s.phase with
    | .publishing tool r (_ :: _) =>
      if r.success then some { s with phase := .returned tool ⟨false, text, none⟩ } else none
    | _ => none

/-- A batch has just been saved: its calls are the only pending ones of the runtime. -/
structure Executor.Started (s : Executor host) : Prop where
  idle : s.phase = .idle
  saved : s.live = s.durable.runtime
  run : ∃ run, s.live.currentRun = some run ∧ run.status = .running ∧
    ∀ t ∈ run.actions, t.status ≠ .pending
  messages : ∀ m ∈ s.live.messages, ∀ t ∈ m.tools, t.status ≠ .pending
  /-- the active message is not yet in the messages: none of them has its calls -/
  new : ∀ active ∈ s.live.activeMessage, ∀ m ∈ s.live.messages,
    m.tools.map ToolMessage.callId ≠ active.toolMessages.map ToolMessage.callId

end MiniAgent.Recovery
