import MiniAgent.Store.Tables

/-!
# The Turn tree

`RuntimeStateTree` of `runtime_state/tree.py`: the nodes of a Session under their keys, the path
from the root to a Turn, the Turns a model gets to see, and the two copies of a Turn, its compaction
and its fork. `ancestors` follows the parents of a Turn; no path is longer than the tree, so its
fuel does not run out.
-/

namespace MiniAgent.Store

open Lib Turn

variable {host : Host}

/-! ## Turns -/

/-- `message_payload` for an assistant. -/
def assistantMessage (content : List Json) : Except Err Fields := do
  let items ← normalizeContent (.arr content)
  pure [("role", .str "assistant"), ("content", itemsJson items)]

/-- An Item of a user Message, whose status is `success`. -/
def userItem (item : Fields) : Json := .obj (item.set "status" (.str "success"))

def compactionPayload (summary : String) (kept : List Json) : Json :=
  .obj [("type", .str "compaction"), ("summary", .str summary),
    ("kept_item_count", .int kept.length),
    ("status", .str "success")]

def emptyUsage : Usage := ⟨none, none, none, none, none⟩

/-- The arguments of `RuntimeState.create` that its callers choose. -/
structure CreateArgs where
  sessionId : String
  threadId : String
  id : String
  user : String
  providerName : String
  model : Fields
  permissionMode : PermissionMode
  runningMode : RunningMode
  cwd : String
  projectCwd : String
  firstKeptItemSize : Nat
  timestamp : String
  status : NodeStatus
  data : Json

/-- `RuntimeState.create` under a parent and without a `compaction_id`: the anchor is inherited. -/
def create (host : Host) (parent : Node host) (a : CreateArgs) : Except Err (ValidTurn host) :=
  let args : TurnArgs :=
    { threadId := a.threadId
      parentThreadId := parent.threadId
      sessionId := a.sessionId
      parentSessionId := parent.key.1
      id := a.id
      parentId := parent.key.2
      version := appVersion
      firstKeptItemSize := .int a.firstKeptItemSize
      compactionId := (parent.turn?.map RuntimeState.compactionId).getD a.id
      user := a.user
      providerName := a.providerName
      model := a.model
      permissionMode := .str a.permissionMode.text
      runningMode := .str a.runningMode.text
      usage := emptyUsage.toDict
      cwd := a.cwd
      projectCwd := a.projectCwd
      timestamp := a.timestamp
      status := .str a.status.text
      currentDataIdx := .int 0
      data := a.data }
  match h : postInit host args with
  | .ok t => .ok ⟨t, postInit_wf h⟩
  | .error e => .error e

/-- A Turn that is its own anchor. -/
def ValidTurn.anchored (t : ValidTurn host) : ValidTurn host :=
  ⟨{ t.val with compactionId := t.val.id }, { t.property with compactionId := t.property.id }⟩

/-- The Items a Turn has selected. -/
def selectedItems (s : RuntimeState) : List Json :=
  (s.data.getD s.currentDataIdx []).flatMap fun message => (messageItems message).map .obj

/-! ## The tree -/

structure RuntimeStateTree (host : Host) where
  nodes : List (Node host)

namespace RuntimeStateTree

variable (tree : RuntimeStateTree host)

/-- The constructor counts the roots of the Session. -/
def ofNodes (nodes : List (Node host)) : Except Err (RuntimeStateTree host) := do
  require (nodes.countP Node.isRoot ≤ 1) (.validation "A Session may contain only one root Turn.")
  pure ⟨nodes⟩

def get? (sessionId id : String) : Option (Node host) :=
  tree.nodes.find? fun node => node.key = (sessionId, id)

/-- The loop of `ancestors`; the path is given from the root on. -/
def ancestorsFrom : Nat → List (String × String) → Node host → Except Err (List (Node host))
  | 0, _, _ => .error (.validation "Turn parent chain contains a cycle.")
  | fuel + 1, seen, current => do
    require (current.key ∉ seen) (.validation "Turn parent chain contains a cycle.")
    match current with
    | .root _ _ => pure [current]
    | .turn t => do
      require (t.val.parentId != "") (.validation "A non-root Turn must have a parent Turn.")
      match tree.get? t.val.parentSessionId t.val.parentId with
      | none => .error (.validation "Turn parent is missing.")
      | some parent => do
        require (t.val.parentSessionId == t.val.sessionId)
          (.validation "A Turn cannot continue across Sessions.")
        require (t.val.parentThreadId == parent.threadId)
          (.validation "parent_thread_id does not match the parent Turn.")
        let path ← ancestorsFrom fuel (current.key :: seen) parent
        pure (path ++ [current])

def ancestors (source : Node host) : Except Err (List (Node host)) :=
  tree.ancestorsFrom (tree.nodes.length + 2) [] source

/-- The part of a path from the last node with the id on. -/
def fromLast (id : String) : List (Node host) → Option (List (Node host))
  | [] => none
  | node :: path => match fromLast id path with
    | some suffix => some suffix
    | none => if node.key.2 = id then some (node :: path) else none

/-- The Turns of a path. -/
def turnsOf (path : List (Node host)) : List RuntimeState := path.filterMap Node.turn?

def modelInput (source : ValidTurn host) : Except Err (List RuntimeState) := do
  let path ← tree.ancestors (.turn source)
  match fromLast source.val.compactionId path with
  | none => .error (.validation "compactionId is not an ancestor of the Turn.")
  | some suffix => pure (turnsOf suffix)

/-- The last `n` elements, none for 0. -/
def lastItems {α : Type} (n : Nat) (items : List α) : List α := items.drop (items.length - n)

def compact (source : ValidTurn host) (summary id timestamp : String) :
    Except Err (ValidTurn host) := do
  let path ← tree.ancestors (.turn source)
  match fromLast source.val.compactionId path with
  | none => .error (.validation "compactionId is not an ancestor of the source Turn.")
  | some suffix => do
    let kept := lastItems source.val.firstKeptItemSize ((turnsOf suffix).flatMap selectedItems)
    let user := ((source.val.data.getD source.val.currentDataIdx []).head?.getD [])
    let assistant ← assistantMessage (compactionPayload summary kept :: kept)
    let t ← create host (.turn source)
      { sessionId := source.val.sessionId
        threadId := source.val.threadId
        id
        user := source.val.user
        providerName := source.val.providerName
        model := source.val.model.toDict
        permissionMode := source.val.permissionMode
        runningMode := source.val.runningMode
        cwd := source.val.cwd
        projectCwd := source.val.projectCwd
        firstKeptItemSize := source.val.firstKeptItemSize
        timestamp
        status := .running
        data := .arr [.arr [.obj user, .obj assistant]] }
    pure t.anchored

/-- The members of a fork beside its source. -/
def forked (source : RuntimeState) (parent : Option (Node host)) (id threadId timestamp : String) :
    RuntimeState :=
  { source with
    id
    threadId
    parentThreadId := (parent.map Node.threadId).getD ""
    parentId := (parent.map fun node => node.key.2).getD ""
    parentSessionId := (parent.map fun node => node.key.1).getD ""
    timestamp
    compactionId := if source.compactionId = source.id then id else source.compactionId }

def fork (source : ValidTurn host) (id threadId timestamp : String) : Except Err (ValidTurn host) :=
  if source.val.parentId = "" then
    rebuild host (forked source.val (none : Option (Node host)) id threadId timestamp)
  else match tree.get? source.val.parentSessionId source.val.parentId with
    | none => .error (.keyError s!"Unknown Turn: {source.val.parentId}")
    | some parent => rebuild host (forked source.val (some parent) id threadId timestamp)

end RuntimeStateTree

end MiniAgent.Store
