import MiniAgent.Store.Tree

/-!
# The operations of the store

`SQLiteNodeMixin` and the two ways an Agent Thread gets a Turn. An operation that reads a Turn
before it opens its transaction comes in two parts, `…Read` with the checks on what it has read and
`…Write` with the transaction. `now` is what `utc_iso` gives.
-/

namespace MiniAgent.Store

open Lib Turn

variable {host : Host}

def NodeStatus.sealed (s : NodeStatus) : Bool := s != .running

/-! ## Creations -/

def ensureRootNode (sessionId id : String) : Method host (Node host) := Call.transaction do
  sessionDocument sessionId
  let s ← Call.read fun s => s
  let nodes := s.loadNodes sessionId
  match nodes.filter Node.isRoot with
  | [root] => pure root
  | _ :: _ => Call.raise (.validation "A Session may contain only one root Turn.")
  | [] => do
    Call.ofExcept (require nodes.isEmpty
      (.validation "A Session with Turns must already contain its root Turn."))
    Call.ofExcept (require (id != "") (.validation "root id must be a non-empty string."))
    putNode (.root sessionId id)
    touchSession sessionId
    pure (.root sessionId id)

/-- The origin of a Thread that a Turn opens. -/
def originOf (node : RuntimeState) : ThreadOrigin :=
  if node.threadId = node.sessionId then .main else .fork

/-- The checks of `create_node` before its transaction; the result is the Thread of the parent. -/
def createNodeRead (node : ValidTurn host) : Method host String := do
  check (node.val.status = .running) "A Turn must be created with status='running'."
  check (node.val.parentId ≠ "") "A non-root Turn must have a parent Turn."
  let parent ← getNode node.val.parentSessionId node.val.parentId
  match parent with
  | none => Call.raise (.store "A runtime node parent must be present in the store.")
  | some parent => do
    check (node.val.parentSessionId = node.val.sessionId) "A Turn cannot continue across Sessions."
    check (node.val.parentThreadId = parent.threadId)
      "parent_thread_id does not match the parent Turn."
    pure parent.threadId

def createNodeWrite (node : ValidTurn host) (parentThreadId : String) : Method host Unit :=
  Call.transaction do
  sessionDocument node.val.sessionId
  ensureRuntimeThreadRecord node.val.sessionId node.val.threadId (originOf node.val)
  if node.val.threadId = node.val.sessionId ∨ node.val.threadId ≠ parentThreadId then
    ensureAgentTreeRootRecord node.val.sessionId node.val.threadId
  claimThreadTurn node.val.sessionId node.val.threadId node.val.id
  putTurn node
  touchSession node.val.sessionId

def createNode (node : ValidTurn host) : Method host Unit := do
  let parentThreadId ← createNodeRead node
  createNodeWrite node parentThreadId

/-- The loop of `create_finalized_nodes` that checks a batch against the nodes before it. -/
def stageNodes (sessionId : String) :
    (String × String → Option (Node host)) → List (ValidTurn host) →
    Except Err Unit
  | _, [] => .ok ()
  | staged, node :: nodes => do
    require (NodeStatus.sealed node.val.status)
      (.store "A finalized node batch must contain terminal nodes.")
    require (staged node.val.key).isNone
      (.store s!"Runtime node already exists: {node.val.sessionId}/{node.val.id}")
    require (node.val.parentId != "") (.store "A non-root Turn must have a parent Turn.")
    match staged (node.val.parentSessionId, node.val.parentId) with
    | none => .error (.store "A finalized node parent must be present in the store.")
    | some parent => do
      require (node.val.parentSessionId == sessionId)
        (.store "A Turn cannot continue across Sessions.")
      require (node.val.parentThreadId == parent.threadId)
        (.store "parent_thread_id does not match the parent Turn.")
      stageNodes sessionId (Function.update staged node.val.key (some (.turn node))) nodes

/-- The writes for one node of a batch. -/
def writeFinalized (node : ValidTurn host) : Method host Unit := do
  ensureRuntimeThreadRecord node.val.sessionId node.val.threadId (originOf node.val)
  if node.val.threadId = node.val.sessionId ∨ node.val.parentThreadId ≠ node.val.threadId then
    ensureAgentTreeRootRecord node.val.sessionId node.val.threadId
  putTurn node
  setThreadHead node.val.sessionId node.val.threadId node.val.id true

def writeAll : List (ValidTurn host) → Method host Unit
  | [] => pure ()
  | node :: nodes => do
    writeFinalized node
    writeAll nodes

def createFinalizedNodes (nodes : List (ValidTurn host)) : Method host Unit :=
  match nodes with
  | [] => pure ()
  | first :: _ => do
    let sessionId := first.val.sessionId
    check (nodes.all fun node => node.val.sessionId = sessionId)
      "A finalized node batch must belong to one session."
    Call.transaction do
      sessionDocument sessionId
      let s ← Call.read fun s => s
      -- only the nodes of the Session are read
      let existing := fun key : String × String =>
        if key.1 = sessionId then s.nodes.lookup key else none
      Call.ofExcept (stageNodes sessionId existing nodes)
      writeAll nodes
      touchSession sessionId

/-- What `create_agent_thread` is given; `running` is the `running_turn_id` of the runtime
record. -/
structure AgentThreadCreate (host : Host) where
  runtimeSessionId : String
  runtimeThreadId : String
  originKind : ThreadOrigin
  current : Option String
  running : Option String
  nodeSessionId : String
  nodeThreadId : String
  node : ThreadNode
  contextThreadId : String
  turn : Option (ValidTurn host)
  reportRecipientThreadId : Option String

/-- The Turn of a new Agent Thread, checked against its records. -/
def agentTurn (sessionId : String) (item : AgentThreadCreate host) : Method host (ValidTurn host) :=
  match item.turn with
  | some turn =>
    if turn.val.sessionId = sessionId ∧ turn.val.threadId = item.nodeThreadId ∧
        item.current = some turn.val.id ∧ item.running = some turn.val.id then pure turn
    else Call.raise (.store "A new Agent Thread requires one matching running Turn.")
  | none => Call.raise (.store "A new Agent Thread requires one matching running Turn.")

/-- The parent of a new Agent Thread among the `thread_nodes`. -/
def agentParentOk (s : Tables host) (sessionId : String) (node : ThreadNode) : Bool :=
  match node.parentThreadId.bind fun parent => s.threadNodes.lookup (sessionId, parent) with
  | some parent => node.depth = parent.depth + 1 ∧ node.rootThreadId = parent.rootThreadId
  | none => false

def insertReport (sessionId turnId agentThreadId : String) : Option String → Method host Unit
  | some recipient =>
    if recipient = "" then pure () else insertAgentTurnReport sessionId turnId
      agentThreadId recipient
  | none => pure ()

def createAgentThread (sessionId : String) (item : AgentThreadCreate host) : Method host Unit := do
  check (item.runtimeSessionId = sessionId ∧ item.nodeSessionId = sessionId)
    "Agent Thread must belong to the current Session."
  Call.transaction do
    sessionDocument sessionId
    check (item.runtimeThreadId = item.nodeThreadId ∧ item.contextThreadId = item.nodeThreadId)
      "Agent Thread identities do not match."
    let turn ← agentTurn sessionId item
    let s ← Call.read fun s => s
    check (agentParentOk s sessionId item.node)
      "Agent Thread parent and root ownership do not match."
    -- the parent Turn is read in the database of this Session
    check (turn.val.parentSessionId = sessionId ∧
      (s.nodes.lookup (turn.val.parentSessionId, turn.val.parentId)).isSome)
        "Agent Turn parent does not exist."
    check ((sessionId, item.runtimeThreadId) ∉ s.threads)
      "UNIQUE constraint failed: runtime_threads.thread_id"
    setThread sessionId item.runtimeThreadId ⟨item.originKind, item.current, item.running⟩
    insertThreadNode sessionId item.nodeThreadId item.node
    putTurn turn
    insertReport sessionId turn.val.id item.nodeThreadId item.reportRecipientThreadId
    touchSession sessionId

/-- The compare-and-set of `create_thread_turn_if_idle`. -/
def claimIdle (sessionId threadId turnId expectedHeadId : String) : Method host Unit := do
  let s ← Call.read fun s => s
  match s.threads.lookup (sessionId, threadId) with
  | some row =>
    if row.currentTurnId = some expectedHeadId ∧ row.runningTurnId = none then
      setThread sessionId threadId
        { row with currentTurnId := some turnId, runningTurnId := some turnId }
    else Call.raise (.store "Agent Thread is no longer idle at the expected head.")
  | none => Call.raise (.store "Agent Thread is no longer idle at the expected head.")

def createThreadTurnIfIdle (node : ValidTurn host) (expectedHeadId : String)
    (reportRecipientThreadId : Option String) : Method host Unit := do
  check (node.val.status = .running ∧ node.val.parentId = expectedHeadId)
    "Idle Thread Turn must be running and continue from the expected head."
  Call.transaction do
    let s ← Call.read fun s => s
    Call.ofExcept (require ((node.val.sessionId, node.val.threadId) ∈ s.threadNodes)
      (.keyError node.val.threadId))
    claimIdle node.val.sessionId node.val.threadId node.val.id expectedHeadId
    check (node.val.parentSessionId = node.val.sessionId ∧
      (s.nodes.lookup (node.val.parentSessionId, node.val.parentId)).isSome)
        "Agent Turn parent does not exist."
    putTurn node
    insertReport node.val.sessionId node.val.id node.val.threadId reportRecipientThreadId
    touchSession node.val.sessionId

/-! ## Updates -/

def updateNode (node : ValidTurn host) : Method host Unit := Call.transaction do
  let existing ← getNode node.val.sessionId node.val.id
  Call.ofExcept (require existing.isSome (.keyError node.val.id))
  putTurn node
  setThreadHead node.val.sessionId node.val.threadId node.val.id (NodeStatus.sealed node.val.status)
  touchSession node.val.sessionId

/-- The status of a stored node; a root has none. -/
def Node.status? (node : Node host) : Option NodeStatus := node.turn?.map RuntimeState.status

def finalizeNode (node : ValidTurn host) : Method host Unit := Call.transaction do
  let existing ← getNode node.val.sessionId node.val.id
  match existing with
  | none => Call.raise (.store s!"Unknown runtime node: {node.val.sessionId}/{node.val.id}")
  | some existing => do
    check (existing.status? = some .running) "Sealed runtime nodes are read-only."
    check (NodeStatus.sealed node.val.status)
      "A Turn can only be finalized as success, paused, or failed."
    putTurn node
    setThreadHead node.val.sessionId node.val.threadId node.val.id true
    touchSession node.val.sessionId

/-- `TreeRuntimeState.from_dict` of a stored node; a root lacks its fields. -/
def asTurn : Node host → Except Err (ValidTurn host)
  | .turn t => .ok t
  | .root sessionId id =>
    match RuntimeState.fromDict host (.obj (Node.root sessionId id : Node host).toDict) with
    | .ok _ => .error (.validation "A root Turn cannot be updated.")
    | .error e => .error e

/-- The user Message of a new version. -/
def rewindMessage (item : Fields) (deliveryId : Option String) : Except Err Fields := do
  let items ← normalizeContent (.arr [userItem item])
  pure [("role", .str "user"), ("content", itemsJson items),
    ("delivery_id", (deliveryId.map Json.str).getD .null)]

/-- A Turn with a new selected version. -/
def withVersion (stored : RuntimeState) (user assistant : Fields) (now : String) : RuntimeState :=
  { stored with
    data := stored.data ++ [[user, assistant]]
    currentDataIdx := stored.data.length
    status := .running
    timestamp := now }

def appendTurnVersionRead (turnId : String) (item : Fields) (deliveryId : Option String) :
    Method host (ValidTurn host × Fields × Fields) := do
  let node ← findTurn turnId
  check (node.val.status ≠ .running) "A running Turn cannot be rewound."
  let user ← Call.ofExcept (rewindMessage item deliveryId)
  let assistant ← Call.ofExcept (assistantMessage [])
  pure (node, user, assistant)

def appendTurnVersionWrite (now turnId : String) (p : ValidTurn host × Fields × Fields) :
    Method host (ValidTurn host) := Call.transaction do
  let current ← getNode p.1.val.sessionId p.1.val.id
  match current with
  | none => Call.raise (.keyError turnId)
  | some current => do
    let stored ← Call.ofExcept (asTurn current)
    claimThreadTurn stored.val.sessionId stored.val.threadId stored.val.id
    let t ← Call.ofExcept (rebuild host (withVersion stored.val p.2.1 p.2.2 now))
    putTurn t
    touchSession t.val.sessionId
    pure t

def appendTurnVersion (now turnId : String) (item : Fields) (deliveryId : Option String) :
    Method host (ValidTurn host) := do
  let p ← appendTurnVersionRead turnId item deliveryId
  appendTurnVersionWrite now turnId p

/-- `update_node` of a Turn that was changed outside of the transaction, which it returns. -/
def updateNodeWrite (t : ValidTurn host) : Method host (ValidTurn host) := do
  updateNode t
  pure t

def setTurnCurrentDataRead (turnId : String) (currentDataIdx : Int) :
    Method host (ValidTurn host) := do
  let node ← findTurn turnId
  Call.ofExcept (require (0 ≤ currentDataIdx ∧ currentDataIdx < node.val.data.length)
    (.validation "current_data_idx is out of range."))
  Call.ofExcept (rebuild host { node.val with currentDataIdx := currentDataIdx.toNat })

def setTurnCurrentData (turnId : String) (currentDataIdx : Int) : Method host (ValidTurn host) := do
  let t ← setTurnCurrentDataRead turnId currentDataIdx
  updateNodeWrite t

/-! ### Content -/

/-- The Items of a Message are changed. -/
def editContent (f : List Json → List Json) (message : Fields) : Fields :=
  match message.get "content" with
  | some (.arr items) => message.set "content" (.arr (f items))
  | _ => message

/-- A running Item has failed. -/
def failRunning : Json → Json
  | .obj item =>
    if Fields.get item "status" = some (.str "running") then
      .obj (Fields.set item "status" (.str "failed"))
    else .obj item
  | v => v

def pausedData (data : List (List Fields)) : List (List Fields) :=
  data.map fun version => version.map (editContent (List.map failRunning))

def isRetryableError : Json → Bool
  | .obj item =>
    Fields.get item "type" = some (.str "error") ∧
      ((Fields.get item "retryable").map Json.truthy).getD false
  | _ => false

/-- The retryable error at the end is taken off. -/
def dropError (items : List Json) : List Json :=
  match items.getLast? with
  | some item => if isRetryableError item then items.dropLast else items
  | none => items

def isAssistant (message : Fields) : Bool := message.get "role" = some (.str "assistant")

/-- The last assistant Message of the list is edited. -/
def editLastAssistant (f : List Json → List Json) (version : List Fields) : List Fields :=
  match version.reverse.findIdx? isAssistant with
  | some i => (version.reverse.modify i (editContent f)).reverse
  | none => version

/-- The last Message is edited. -/
def editLast (f : List Json → List Json) (version : List Fields) : List Fields :=
  (version.reverse.modify 0 (editContent f)).reverse

/-! ### Pauses -/

def pauseTurnRead (turnId : String) : Method host (ValidTurn host) := do
  let node ← findTurn turnId
  check (node.val.status = .running) "Only a running Turn can be paused."
  Call.ofExcept (rebuild host { node.val with data := pausedData node.val.data, status := .paused })

def finalizeNodeWrite (t : ValidTurn host) : Method host (ValidTurn host) := do
  finalizeNode t
  pure t

def pauseTurn (turnId : String) : Method host (ValidTurn host) := do
  let t ← pauseTurnRead turnId
  finalizeNodeWrite t

def resumeTurnNodeRead (turnId : String) : Method host (ValidTurn host) := do
  let node ← findTurn turnId
  check (node.val.status = .paused) "Only a paused Turn can be resumed."
  pure node

def resumed (s : RuntimeState) : RuntimeState :=
  { s with
    data := s.data.modify s.currentDataIdx (editLastAssistant dropError), status := .running }

def resumeTurnNodeWrite (node : ValidTurn host) : Method host (ValidTurn host) :=
  Call.transaction do
  claimThreadTurn node.val.sessionId node.val.threadId node.val.id
  let t ← Call.ofExcept (rebuild host (resumed node.val))
  putTurn t
  touchSession t.val.sessionId
  pure t

def resumeTurnNode (turnId : String) : Method host (ValidTurn host) := do
  let node ← resumeTurnNodeRead turnId
  resumeTurnNodeWrite node

def completed (s : RuntimeState) (now : String) : RuntimeState :=
  { s with
    data := s.data.modify s.currentDataIdx (editLast dropError), status := .success,
    timestamp := now }

def completePausedTurnRead (now turnId : String) : Method host (ValidTurn host) := do
  let node ← findTurn turnId
  check (node.val.status = .paused) "Only a paused Turn can be marked successful."
  Call.ofExcept (rebuild host (completed node.val now))

def completePausedTurnWrite (t : ValidTurn host) : Method host (ValidTurn host) :=
  Call.transaction do
  let current ← getNode t.val.sessionId t.val.id
  check ((current.bind Node.status?) = some .paused)
    "The paused Turn changed before it could be marked successful."
  putTurn t
  setThreadHead t.val.sessionId t.val.threadId t.val.id true
  touchSession t.val.sessionId
  pure t

def completePausedTurn (now turnId : String) : Method host (ValidTurn host) := do
  let t ← completePausedTurnRead now turnId
  completePausedTurnWrite t

/-! ### Indeterminate calls -/

/-- The call of an Item; both kinds of Items that have one have checked it. -/
def callId (item : Fields) : String := ((item.get "call_id").bind Json.str?).getD ""

/-- The calls of a version that have a result. -/
def terminalResults (messages : List Fields) : List String :=
  ((messages.flatMap messageItems).filter fun item =>
    item.get "type" = some (.str "tool_result") ∧ (item.get "status" = some (.str "success") ∨
      item.get "status" = some (.str "failed"))).map callId

/-- A call that has begun and has no result. -/
def isUncertain (results : List String) (item : Fields) : Bool :=
  item.get "type" = some (.str "tool_call") ∧ item.get "status" = some (.str "running") ∧
    callId item ≠ "" ∧ callId item ∉ results

def failCall (results : List String) : Json → Json
  | .obj item =>
    if isUncertain results item then
      .obj (Fields.set (Fields.set item "status" (.str "failed")) "replay_safe" (.bool false))
    else .obj item
  | v => v

def indeterminateResult (item : Fields) : Json :=
  .obj [("type", .str "tool_result"), ("call_id", .str (callId item)),
    ("tool", .str (((item.get "name").bind Json.str?).getD "unknown")),
    ("content", .str ("Outcome is indeterminate because the process stopped after the tool call " ++
      "began. This call will not be replayed automatically.")),
    ("status", .str "failed"), ("replay_safe", .bool false), ("retryable", .bool false),
    ("failure_code", .str "indeterminate")]

/-- The version ends with an assistant Message. -/
def withAssistant (version : List Fields) : List Fields :=
  if (version.getLast?.map isAssistant).getD false then version
  else version ++ [[("role", .str "assistant"), ("content", .arr [])]]

/-- The selected version with its uncertain calls settled; nothing where there is none. -/
def settledVersion (messages : List Fields) : Option (List Fields) :=
  let results := terminalResults messages
  let uncertain := (messages.flatMap messageItems).filter (isUncertain results)
  if uncertain.isEmpty then none
  else some (editLast (· ++ uncertain.map indeterminateResult)
    (withAssistant (messages.map (editContent (List.map (failCall results))))))

def settleIndeterminateToolCallsRead (turnId : String) :
    Method host (ValidTurn host × Option (ValidTurn host)) := do
  let node ← findTurn turnId
  match settledVersion (node.val.data.getD node.val.currentDataIdx []) with
  | none => pure (node, none)
  | some version => do
    let t ← Call.ofExcept
      (rebuild host { node.val with data := node.val.data.set node.val.currentDataIdx version })
    pure (node, some t)

def settleIndeterminateToolCallsWrite (p : ValidTurn host × Option (ValidTurn host)) :
    Method host (ValidTurn host) :=
  match p.2 with
  | none => pure p.1
  | some t => updateNodeWrite t

def settleIndeterminateToolCalls (turnId : String) : Method host (ValidTurn host) := do
  let p ← settleIndeterminateToolCallsRead turnId
  settleIndeterminateToolCallsWrite p

/-! ## Copies -/

def forkTurnNode (now turnId newTurnId threadId : String) : Method host (ValidTurn host) := do
  let source ← findTurn turnId
  check (source.val.status ≠ .running) "A running Turn cannot be forked."
  let s ← Call.read fun s => s
  let tree ← Call.ofExcept (RuntimeStateTree.ofNodes (s.loadNodes source.val.sessionId))
  let forked ← Call.ofExcept (tree.fork source newTurnId threadId now)
  createFinalizedNodes [forked]
  pure forked

def createCompactTurn (now turnId summary newTurnId : String) : Method host (ValidTurn host) := do
  let source ← findTurn turnId
  check (source.val.status = .success) "Only a successful Turn can be compacted."
  let s ← Call.read fun s => s
  let tree ← Call.ofExcept (RuntimeStateTree.ofNodes (s.loadNodes source.val.sessionId))
  let compacted ← Call.ofExcept (tree.compact source summary newTurnId now)
  createNode compacted
  pure compacted

/-! ## Calls -/

inductive StoreOp (host : Host) where
  | ensureRootNode (sessionId id : String)
  | createNode (node : ValidTurn host)
  | createFinalizedNodes (nodes : List (ValidTurn host))
  | createAgentThread (sessionId : String) (item : AgentThreadCreate host)
  | createThreadTurnIfIdle (node : ValidTurn host) (expectedHeadId : String)
    (recipient : Option String)
  | appendTurnVersion (turnId : String) (item : Fields) (deliveryId : Option String)
  | resumeTurnNode (turnId : String)
  | pauseTurn (turnId : String)
  | completePausedTurn (turnId : String)
  | setTurnCurrentData (turnId : String) (currentDataIdx : Int)
  | forkTurnNode (turnId newTurnId threadId : String)
  | createCompactTurn (turnId summary newTurnId : String)
  | finalizeNode (node : ValidTurn host)
  | updateNode (node : ValidTurn host)

/-- The result of a call is dropped. -/
def drop {α : Type} (x : Method host α) : Method host Unit := do
  let _ ← x
  pure ()

def StoreOp.perform (now : String) : StoreOp host → Method host Unit
  | .ensureRootNode sessionId id => drop (Store.ensureRootNode sessionId id)
  | .createNode node => Store.createNode node
  | .createFinalizedNodes nodes => Store.createFinalizedNodes nodes
  | .createAgentThread sessionId item => Store.createAgentThread sessionId item
  | .createThreadTurnIfIdle node head recipient => Store.createThreadTurnIfIdle node head recipient
  | .appendTurnVersion turnId item deliveryId =>
    drop (Store.appendTurnVersion now turnId item deliveryId)
  | .resumeTurnNode turnId => drop (Store.resumeTurnNode turnId)
  | .pauseTurn turnId => drop (Store.pauseTurn turnId)
  | .completePausedTurn turnId => drop (Store.completePausedTurn now turnId)
  | .setTurnCurrentData turnId i => drop (Store.setTurnCurrentData turnId i)
  | .forkTurnNode turnId newTurnId threadId =>
    drop (Store.forkTurnNode now turnId newTurnId threadId)
  | .createCompactTurn turnId summary newTurnId =>
    drop (Store.createCompactTurn now turnId summary newTurnId)
  | .finalizeNode node => Store.finalizeNode node
  | .updateNode node => Store.updateNode node

end MiniAgent.Store
