import MiniAgent.Lib.Check
import MiniAgent.Lib.Json

/-!
# Messages of the agent

The provider-neutral messages of `domain/messages.py`. A `ToolMessage` is one call of a tool
together with its result, if it has one: what `__post_init__` refuses cannot be built.
-/

namespace MiniAgent.Provider

open Lib

inductive ToolStatus where
  | pending | succeeded | failed | indeterminate
  deriving DecidableEq

structure ToolMessage where
  name : String
  content : Option String
  callId : String
  arguments : Json
  status : ToolStatus
  retryable : Option Bool := none
  failureCode : Option String := none
  name_ne : name ≠ ""
  callId_ne : callId ≠ ""
  result : content = none ↔ status = .pending
  deriving DecidableEq

namespace ToolMessage

/-- The constructor, with the first refusal of `__post_init__`. -/
def make (name callId : String) (arguments : Json) (content : Option String) (status : ToolStatus) :
    Except String ToolMessage :=
  if hname : name = "" then .error "ToolMessage.name must not be empty."
  else if hcall : callId = "" then .error "ToolMessage.call_id must not be empty."
  else if hresult : content = none ↔ status = .pending then
    .ok
      { name, content, callId, arguments, status, name_ne := hname, callId_ne := hcall,
        result := hresult }
  else if status = .pending then .error "A pending ToolMessage cannot contain a result."
  else .error "A completed ToolMessage must contain a result."

/-- A call that waits for its result. -/
def pending (name callId : String) (arguments : Json) : Except String ToolMessage :=
  make name callId arguments none .pending

def completed (t : ToolMessage) : Bool := t.status != .pending

theorem pending_ok {name callId : String} {arguments : Json} {t : ToolMessage}
    (h : pending name callId arguments = .ok t) :
    t.name = name ∧ t.callId = callId ∧ t.arguments = arguments ∧ t.content = none ∧
    t.status = .pending := by
  simp only [pending, make] at h
  split at h
  · cases h
  · split at h
    · cases h
    · split at h
      · cases h
        exact ⟨rfl, rfl, rfl, rfl, rfl⟩
      · cases h

end ToolMessage

/-- A `SystemMessage` or a `UserMessage`. -/
structure TextMessage where
  name : String
  content : Option String
  providerOptions : Fields

structure AssistantMessage where
  name : String
  content : Option String
  reasoning : Option String
  toolMessages : List ToolMessage
  providerOptions : Fields

inductive ChatMessage where
  | system (m : TextMessage)
  | user (m : TextMessage)
  | assistant (m : AssistantMessage)

/-- The calls of a message. -/
def ChatMessage.tools : ChatMessage → List ToolMessage
  | .assistant m => m.toolMessages
  | _ => []

end MiniAgent.Provider
