import MiniAgent.Store.Interleaving

/-!
# Starts of Turns

A user message that starts a Turn is a command in the queue. `TurnMessageWorker` claims it and has
`_stream` admit an execution, one for a Thread at a time: `keys` are the reserved stream keys. The
worker rewinds a Turn in the store before it asks for the execution; an execution seals its Turn
before it gives the key back, and a request that fails past its key keeps it. `App.step` is one step
of the worker, of an execution or of a route, and a command that is not acknowledged can be claimed
again at any time.
-/

namespace MiniAgent.Api

open Lib Turn Store

variable {host : Host}

/-! ## Commands -/

/-- The `operation` of a command; a text that is neither name is `other`. -/
inductive Operation where
  | create | rewind | other
  deriving DecidableEq

/-- The `MessageEnvelope` of a turn start, as far as `_start` reads it. -/
structure Command where
  deliveryId : String
  operation : Operation
  targetId : String
  threadId : String
  content : String
  references : List Json

/-- Some Message of the Turn, of any version, has the delivery. -/
def carries (t : RuntimeState) (deliveryId : String) : Bool :=
  t.data.any fun version => version.any (ofDelivery deliveryId)

/-- The Item of the user Message of a new version. -/
def rewindItem (c : Command) : Fields :=
  [("type", .str "text"), ("text", .str c.content), ("status", .str "success")] ++
    if c.references.isEmpty then [] else [("references", .arr c.references)]

/-! ## Executions -/

/-- How far the job of an execution is: `started` has a Turn, `sealed` has finalized it and `ended`
has run its `finally` block. -/
inductive Stage where
  | admitted | started | sealed | ended
  deriving DecidableEq

structure Execution where
  deliveryId : Option String
  threadId : String
  turnId : String
  adoptExisting : Bool
  stage : Stage
  deriving DecidableEq

def Execution.live (e : Execution) : Bool := e.stage ≠ .ended

/-- What comes of a request for an execution, apart from its key. -/
inductive Admission where
  /-- `_model_config_snapshot` raises, before the key is reserved -/
  | unconfigured
  /-- the job registry does not take the job: the key stays reserved -/
  | unsubmitted
  | submitted
  deriving DecidableEq

/-- `node.data[0][0]["delivery_id"] = delivery_id`. -/
def stampDelivery (deliveryId : String) (data : List (List Fields)) : List (List Fields) :=
  data.modify 0 fun version => version.modify 0 fun message =>
    message.set "delivery_id" (.str deliveryId)

/-- The Turn that `RuntimeEventNodeBridge.start` creates: `turn_payload` of the prompt, with the
delivery where there is one. -/
def newTurn (parent : Node host) (a : CreateArgs) (item : Fields) (deliveryId : Option String) :
    Except Err (ValidTurn host) := do
  let content ← normalizeContent (.arr [userItem item])
  let user : Fields := [("role", .str "user"), ("content", itemsJson content)]
  let assistant ← assistantMessage []
  let node ← create host parent { a with data := dataJson [[user, assistant]], status := .running }
  match deliveryId with
  | none => pure node
  | some d =>
    if d = "" then pure node
      else rebuild host { node.val with data := stampDelivery d node.val.data }

/-! ## The process -/

/-- Where the worker is in `_start`. -/
inductive Phase (host : Host) where
  | idle
  /-- before `find_node` -/
  | claimed (c : Command)
  /-- the Turn carries the delivery, which is acknowledged next -/
  | known (c : Command)
  /-- before the reads of `append_turn_version` -/
  | rewinding (c : Command)
  /-- before its transaction -/
  | appending (c : Command) (p : ValidTurn host × Fields × Fields)
  /-- before `_stream` -/
  | streaming (c : Command)

structure App (host : Host) where
  tables : Tables host
  keys : List String
  queue : List Command
  acked : List String
  worker : Phase host
  executions : List Execution

namespace App

variable (s : App host)

/-- A process that has just started on its database. -/
def boot (tables : Tables host) : App host := ⟨tables, [], [], [], .idle, []⟩

/-- A stored Turn carries the delivery. -/
def stored (deliveryId : String) : Bool :=
  s.tables.nodes.entries.any fun e => (e.2.turn?).any fun t => carries t deliveryId

/-- `dispatch_turn_start`: the receipts of the queue give each delivery id to one command. -/
def dispatch (c : Command) : Option (App host) :=
  if s.queue.all (fun q => q.deliveryId ≠ c.deliveryId) ∧ !s.stored c.deliveryId then
    some { s with queue := s.queue ++ [c] }
  else none

/-- `_stream_turn`: the answer is 409 where the key is reserved. -/
def stream (e : Execution) : Admission → App host
  | .unconfigured => s
  | .unsubmitted => if e.threadId ∈ s.keys then s else { s with keys := e.threadId :: s.keys }
  | .submitted =>
    if e.threadId ∈ s.keys then s
    else { s with keys := e.threadId :: s.keys, executions := s.executions ++ [e] }

/-- `_start` from `find_node` to the branches of the operation. -/
def look (c : Command) : Phase host :=
  match (findNode c.targetId s.tables).1 with
  | .error _ => .idle
  | .ok (some (.turn t)) =>
    if carries t.val c.deliveryId then .known c
    else match c.operation with
      | .rewind => .rewinding c
      | .create | .other => .idle
  | .ok _ => match c.operation with
    | .create => .streaming c
    | .rewind => .rewinding c
    | .other => .idle

/-- The execution that the worker asks for. -/
def asked (c : Command) : Execution :=
  { deliveryId := some c.deliveryId
    threadId := c.threadId
    turnId := c.targetId
    adoptExisting := c.operation = .rewind
    stage := .admitted }

/-- The route that resumes a paused Turn. -/
def resume (turnId : String) (admission : Admission) : Option (App host) :=
  match (findTurn turnId s.tables).1 with
  | .ok t =>
    if t.val.status = .paused then
      some (s.stream ⟨none, t.val.threadId, t.val.id, true, .admitted⟩ admission)
    else none
  | .error _ => none

/-- A step of the worker; an error leaves the command pending. -/
def work (now : String) (admission : Admission) : Option (App host) :=
  match s.worker with
  | .idle => none
  | .claimed c => some { s with worker := s.look c }
  | .known c => some { s with acked := c.deliveryId :: s.acked, worker := .idle }
  | .rewinding c =>
    match appendTurnVersionRead c.targetId (rewindItem c) (some c.deliveryId) s.tables with
    | (.ok p, t) => some { s with tables := t, worker := .appending c p }
    | (.error _, t) => some { s with tables := t, worker := .idle }
  | .appending c p => match appendTurnVersionWrite now c.targetId p s.tables with
    | (.ok _, t) => some { s with tables := t, worker := .streaming c }
    | (.error _, t) => some { s with tables := t, worker := .idle }
  | .streaming c => some ({ s with worker := .idle }.stream (asked c) admission)

end App

/-- A step of an execution's job. -/
inductive Event (host : Host) where
  /-- `RuntimeEventNodeBridge.start` for a new Turn -/
  | start (parent : Node host) (a : CreateArgs) (item : Fields)
  /-- `RuntimeEventNodeBridge.start` for an existing Turn -/
  | adopt
  /-- `on_started` -/
  | onStarted
  /-- a write of the `NodeWriter` -/
  | write (node : ValidTurn host)
  /-- `bridge.finish` -/
  | finish (node : ValidTurn host)
  /-- the `finally` block -/
  | leave

namespace App

variable (s : App host)

/-- The execution has come to another stage. -/
def move (i : Nat) (stage : Stage) : App host :=
  { s with executions := s.executions.modify i fun e => { e with stage } }

/-- A call of the store, after which an execution has come to another stage if the call returns. -/
def call {α : Type} (i : Nat) (stage : Stage) (x : Method host α) : App host :=
  match x s.tables with
  | (.ok _, t) => { s with tables := t }.move i stage
  | (.error _, t) => { s with tables := t }

/-- The writer keeps the Messages that start a version: it adds no delivery of a queued command. -/
def addsNone (node : ValidTurn host) : Bool :=
  s.queue.all fun c => !carries node.val c.deliveryId ||
    (s.tables.nodes.lookup node.val.key).any fun old =>
    (old.turn?).any fun t => carries t c.deliveryId

/-- A Turn that is paused runs again, a running one is taken as it is. -/
def adoptTurn (turnId : String) : Method host Unit := do
  let node ← findTurn turnId
  if node.val.status = .paused then do
    let _ ← resumeTurnNode turnId
    pure ()
  else check (node.val.status = .running) "Only a paused or running Turn can resume in place."

def advance (i : Nat) (e : Execution) : Event host → Option (App host)
  | .start parent a item =>
    if e.stage = .admitted ∧ !e.adoptExisting ∧ a.id = e.turnId then
      match newTurn parent a item e.deliveryId with
      | .ok node => some (s.call i .started (createNode node))
      | .error _ => some s
    else none
  | .adopt =>
    if e.stage = .admitted ∧ e.adoptExisting then some (s.call i .started (adoptTurn e.turnId))
    else none
  | .onStarted => if e.live then some { s with acked := e.deliveryId.toList ++ s.acked } else none
  | .write node =>
    if e.stage = .started ∧ s.addsNone node then some (s.call i .started (updateNode node))
    else none
  | .finish node =>
    if e.stage = .started ∧ s.addsNone node then some (s.call i .sealed (finalizeNode node))
    else none
  -- it runs whatever has been raised before it
  | .leave =>
    if e.live then some ({ s with keys := s.keys.filter (· ≠ e.threadId) }.move i .ended) else none

end App

inductive Action (host : Host) where
  | dispatch (c : Command)
  | resume (turnId : String) (admission : Admission)
  /-- `claim_turn_start` gives the worker a command that is not acknowledged. -/
  | claim (i : Nat)
  | work (now : String) (admission : Admission)
  | execution (i : Nat) (event : Event host)

def App.step (s : App host) : Action host → Option (App host)
  | .dispatch c => s.dispatch c
  | .resume turnId admission => s.resume turnId admission
  | .claim i => match s.worker, s.queue[i]? with
    | .idle, some c => if c.deliveryId ∈ s.acked then none else some { s with worker := .claimed c }
    | _, _ => none
  | .work now admission => s.work now admission
  | .execution i event => (s.executions[i]?).bind fun e => s.advance i e event

end MiniAgent.Api
