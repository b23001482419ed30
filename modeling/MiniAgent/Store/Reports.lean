import MiniAgent.Store.Nodes

/-!
# Reports in the store

The part of `SQLiteAgentThreadMixin` that makes a report of an Agent an Item in the current Turn of
its recipient.
-/

namespace MiniAgent.Store

open Lib Turn

variable {host : Host}

/-- An Item of the delivery, whatever its type. -/
def ofDelivery (deliveryId : String) (item : Fields) : Bool :=
  item.get "delivery_id" = some (.str deliveryId)

def isReport (deliveryId : String) (item : Fields) : Bool :=
  item.get "type" = some (.str "subagent") ∧ ofDelivery deliveryId item

/-- The Items of all versions. -/
def allItems (s : RuntimeState) : List Fields :=
  s.data.flatMap fun version => version.flatMap messageItems

def hasReport (s : RuntimeState) (deliveryId : String) : Bool :=
  (allItems s).any (isReport deliveryId)

def reportMessage (deliveryId replyContent : String) : Fields :=
  [("role", .str "assistant"),
    ("content", .arr [.obj [("type", .str "subagent"), ("event", .str "agent_report"),
    ("status", .str "success"), ("text", .str replyContent), ("delivery_id", .str deliveryId)]])]

/-- The report is the last Message of the selected version. -/
def withReport (s : RuntimeState) (deliveryId replyContent : String) : RuntimeState :=
  { s with data := s.data.modify s.currentDataIdx (· ++ [reportMessage deliveryId replyContent]) }

def appendAgentReport (sessionId recipientThreadId deliveryId replyContent : String) :
    Method host (ValidTurn host) := Call.transaction do
  let s ← Call.read fun s => s
  match (s.threads.lookup (sessionId, recipientThreadId)).bind RuntimeThread.currentTurnId with
  | none => Call.raise (.store "The report recipient has no canonical current Turn.")
  | some turnId => match s.nodes.lookup (sessionId, turnId) with
    | none => Call.raise (.store "The report recipient Turn is unavailable.")
    | some payload => do
      let node ← Call.ofExcept (asTurn payload)
      if hasReport node.val deliveryId then pure node
      else do
        let t ← Call.ofExcept (rebuild host (withReport node.val deliveryId replyContent))
        putTurn t
        touchSession sessionId
        pure t

end MiniAgent.Store
