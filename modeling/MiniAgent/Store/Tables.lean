import MiniAgent.Lib.Call
import MiniAgent.Turn.Models
import Mathlib.Data.List.AList

/-!
# The tables of the Session store

The SQLite databases of all Sessions as one state: the Turn nodes, the rows of `runtime_threads`,
`thread_nodes` and `agent_turn_reports`, all under their Session. A stored node is a Turn as its
constructor leaves it (`ValidTurn`), so that reading it back gives it again.

A statement is a `Call`; the statements of one `_connection` block are a transaction. Columns with
times are left out, as no statement reads them.
-/

namespace MiniAgent.Store

open Lib Turn

variable (host : Host)

/-- A Turn that its constructor has checked. -/
abbrev ValidTurn := { s : RuntimeState // s.Wf host }

inductive Node where
  | root (sessionId id : String)
  | turn (t : ValidTurn host)

namespace Node

variable {host}

def key : Node host → String × String
  | .root sessionId id => (sessionId, id)
  | .turn t => t.val.key

/-- The root of a Session is in the main Thread. -/
def threadId : Node host → String
  | .root sessionId _ => sessionId
  | .turn t => t.val.threadId

def turn? : Node host → Option RuntimeState
  | .root _ _ => none
  | .turn t => some t.val

def isRoot : Node host → Bool
  | .root _ _ => true
  | .turn _ => false

def toDict : Node host → Fields
  | .root sessionId id =>
    [("session_id", .str sessionId), ("thread_id", .str sessionId), ("id", .str id)]
  | .turn t => t.val.toDict

end Node

/-- `RuntimeState.from_dict(node.to_dict())`. -/
def rebuild (s : RuntimeState) : Except Err (ValidTurn host) :=
  match h : s.clone host with
  | .ok t => .ok ⟨t, RuntimeState.wf_of_clone h⟩
  | .error e => .error e

inductive ThreadOrigin where
  | main | fork | subagent
  deriving DecidableEq

structure RuntimeThread where
  originKind : ThreadOrigin
  currentTurnId : Option String
  runningTurnId : Option String
  deriving DecidableEq

structure ThreadNode where
  rootThreadId : String
  parentThreadId : Option String
  threadPath : String
  depth : Nat
  deriving DecidableEq

inductive ReportState where
  | waiting | queued | delivered
  deriving DecidableEq

structure AgentTurnReport where
  sessionId : String
  turnId : String
  agentThreadId : String
  recipientThreadId : String
  threadStatus : Option NodeStatus
  replyContent : String
  deliveryId : String
  state : ReportState
  deriving DecidableEq

structure Tables where
  sessions : List String
  nodes : AList fun _ : String × String => Node host
  threads : AList fun _ : String × String => RuntimeThread
  threadNodes : AList fun _ : String × String => ThreadNode
  reports : List AgentTurnReport

/-- Sessions as `create_session` leaves them. -/
def Tables.new (sessions : List String) : Tables host :=
  { sessions
    nodes := ∅
    threads := sessions.foldr (fun sessionId t =>
      t.insert (sessionId, sessionId) ⟨.main, none, none⟩) ∅
    threadNodes := ∅
    reports := [] }

abbrev Method (α : Type) := Call Err (Tables host) α

variable {host}

/-- A `ValueError` unless the condition holds. -/
def check (c : Bool) (text : String) : Method host Unit := Call.ofExcept (require c (.store text))

/-! ## Sessions -/

def sessionDocument (sessionId : String) : Method host Unit := do
  let s ← Call.read id
  check (sessionId ∈ s.sessions) s!"Unknown session: {sessionId}"

/-- `_touch_session` reads the document before it writes the time. -/
def touchSession (sessionId : String) : Method host Unit := sessionDocument sessionId

/-! ## Nodes -/

def putNode (node : Node host) : Method host Unit :=
  Call.write fun s => { s with nodes := s.nodes.insert node.key node }

def putTurn (t : ValidTurn host) : Method host Unit := putNode (.turn t)

def getNode (sessionId id : String) : Method host (Option (Node host)) :=
  Call.read fun s => s.nodes.lookup (sessionId, id)

/-- The nodes of a Session, in any order: their readers put them under their keys again. -/
def Tables.loadNodes (s : Tables host) (sessionId : String) : List (Node host) :=
  (s.nodes.entries.map Sigma.snd).filter fun node => node.key.1 = sessionId

def findNode (nodeId : String) : Method host (Option (Node host)) := do
  let s ← Call.read id
  match s.sessions.filterMap fun sessionId => s.nodes.lookup (sessionId, nodeId) with
  | [] => pure none
  | [node] => pure (some node)
  | _ => Call.raise (.store "Turn id is not globally unique.")

/-- `_require_runtime_turn`. -/
def requireRuntimeTurn (node : Option (Node host)) (turnId : String) :
    Method host (ValidTurn host) :=
  match node with
  | none => Call.raise (.keyError turnId)
  | some (.root _ _) => Call.raise (.store "A root Turn is only an ancestry anchor.")
  | some (.turn t) => pure t

def findTurn (turnId : String) : Method host (ValidTurn host) := do
  let node ← findNode turnId
  requireRuntimeTurn node turnId

/-! ## Threads -/

def ensureRuntimeThreadRecord (sessionId threadId : String) (originKind : ThreadOrigin) :
    Method host Unit :=
  Call.write fun s =>
    if (sessionId, threadId) ∈ s.threads then s
    else { s with threads := s.threads.insert (sessionId, threadId) ⟨originKind, none, none⟩ }

/-- The insertion of a row of `thread_nodes`, with its keys. -/
def insertThreadNode (sessionId threadId : String) (row : ThreadNode) : Method host Unit := do
  let s ← Call.read id
  check ((sessionId, threadId) ∉ s.threadNodes ∧ ∀ other ∈ s.threadNodes.entries,
    ¬(other.1.1 = sessionId ∧ other.2.rootThreadId = row.rootThreadId ∧
      other.2.threadPath = row.threadPath))
    "UNIQUE constraint failed: thread_nodes"
  Call.write fun s => { s with threadNodes := s.threadNodes.insert (sessionId, threadId) row }

def ensureAgentTreeRootRecord (sessionId threadId : String) : Method host Unit := do
  let s ← Call.read id
  check ((s.threads.lookup (sessionId, threadId)).any fun row => row.originKind ≠ .subagent)
    "A Sidebar Thread requires a main or fork Runtime Thread."
  match s.threadNodes.lookup (sessionId, threadId) with
  | some row =>
    check (row.rootThreadId = threadId ∧ row.parentThreadId = none ∧ row.depth = 0)
      "Sidebar Thread Agent-tree root is inconsistent."
  | none => insertThreadNode sessionId threadId ⟨threadId, none, "/root", 0⟩

def setThread (sessionId threadId : String) (row : RuntimeThread) : Method host Unit :=
  Call.write fun s => { s with threads := s.threads.insert (sessionId, threadId) row }

/-- `_claim_thread_turn`: the Turn's own id counts as free. -/
def claimThreadTurn (sessionId threadId turnId : String) : Method host Unit := do
  let s ← Call.read id
  match s.threads.lookup (sessionId, threadId) with
  | some row =>
    if row.runningTurnId = none ∨ row.runningTurnId = some turnId then
      setThread sessionId threadId
        { row with currentTurnId := some turnId, runningTurnId := some turnId }
    else Call.raise (.store "A thread may have only one running Turn.")
  | none => Call.raise (.store "A thread may have only one running Turn.")

def setThreadHead (sessionId threadId turnId : String) (clearRunning : Bool) :
    Method host Unit := do
  let s ← Call.read id
  match s.threads.lookup (sessionId, threadId) with
  | some row =>
    let running :=
      if clearRunning ∧ row.runningTurnId = some turnId then none else row.runningTurnId
    setThread sessionId threadId { row with currentTurnId := some turnId, runningTurnId := running }
  | none => Call.raise (.store "Unknown runtime Thread.")

/-! ## Reports -/

/-- The text whose digest `_report_delivery_id` takes. -/
def reportDeliveryId (turnId recipientThreadId : String) : String :=
  "agent_report_" ++ turnId ++ "\u0000" ++ recipientThreadId

def insertAgentTurnReport (sessionId turnId agentThreadId recipientThreadId : String) :
    Method host Unit := do
  check (agentThreadId ≠ recipientThreadId) "An Agent cannot register itself as a report recipient."
  let s ← Call.read id
  check ((sessionId, recipientThreadId) ∈ s.threads)
    "The report recipient is not a Thread in this Session."
  Call.write fun s =>
    if s.reports.any fun r => r.turnId = turnId ∧ r.recipientThreadId = recipientThreadId then s
    else { s with reports := s.reports ++
      [⟨sessionId, turnId, agentThreadId, recipientThreadId, none, "",
      reportDeliveryId turnId recipientThreadId, .waiting⟩] }

end MiniAgent.Store
