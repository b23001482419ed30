import MiniAgent.Lib.Check
import MiniAgent.Queue.Message

/-!
# Todo operations

The Todo state machine of `domain/todo.py`. A batch of operations is applied all or not at all: each
operation is checked against the Todos the earlier ones left, and the first that is refused refuses
the batch. Ids of new Todos are generated before and handed in.

An operation is a JSON object. Dictionaries of texts (`applied_operations`) are written in the order
of their keys, so that two of them are equal when they have the same members.
-/

namespace MiniAgent.Todo

open Lib Queue

/-! ## Todos -/

inductive TodoStatus where
  | pending | inProgress | completed
  deriving DecidableEq

namespace TodoStatus

def text : TodoStatus → String
  | .pending => "pending"
  | .inProgress => "in_progress"
  | .completed => "completed"

def ofText : String → Option TodoStatus
  | "pending" => some .pending
  | "in_progress" => some .inProgress
  | "completed" => some .completed
  | _ => none

@[simp] theorem ofText_text (status : TodoStatus) : ofText status.text = some status := by
  cases status <;> rfl

/-- `TODO_STATUSES`. -/
def all : List TodoStatus := [.pending, .inProgress, .completed]

end TodoStatus

def maxTodos : Nat := 100

/-- The text of a JSON value that `str` leaves as it is. -/
def strOf : Option Json → Option String
  | some (.str s) => some s
  | _ => none

structure TodoItem where
  id : String
  content : String
  status : TodoStatus
  deriving DecidableEq

namespace TodoItem

def toDict (todo : TodoItem) : Fields :=
  [("id", .str todo.id), ("content", .str todo.content), ("status", .str todo.status.text)]

def fromDict (data : Fields) : Option TodoItem := do
  let id ← strOf (data.get "id")
  let content ← strOf (data.get "content")
  let status ← strOf (data.get "status")
  let status ← TodoStatus.ofText status
  pure ⟨id, content, status⟩

end TodoItem

structure TodoSnapshot where
  revision : Int
  todos : List TodoItem
  deriving DecidableEq

/-- The JSON objects of an array; other entries are passed over. -/
def objectsOf : Option Json → List Fields
  | some (.arr l) => l.filterMap fun
    | .obj f => some f
    | _ => none
  | _ => []

namespace TodoSnapshot

/-- `TodoSnapshot()`. -/
def empty : TodoSnapshot := ⟨0, []⟩

def unfinished (s : TodoSnapshot) : List TodoItem :=
  s.todos.filter fun todo => todo.status ≠ .completed

def counts (s : TodoSnapshot) : Json :=
  .obj (TodoStatus.all.map fun status =>
    (status.text, .int (s.todos.countP fun todo => todo.status = status)))

def toDict (s : TodoSnapshot) : Fields :=
  [("revision", .int s.revision), ("todos", .arr (s.todos.map fun todo => .obj todo.toDict)),
    ("counts", s.counts)]

def fromDict (data : Fields) : Option TodoSnapshot := do
  let revision ← match data.get "revision" with
    | none => some 0
    | some value => value.int?
  let todos ← (objectsOf (data.get "todos")).mapM TodoItem.fromDict
  pure ⟨revision, todos⟩

end TodoSnapshot

/-- A dictionary of texts. -/
abbrev TextDict := List (String × String)

def TextDict.json (d : TextDict) : Fields := d.map fun p => (p.1, .str p.2)

def TextDict.fromDict (data : Fields) : Option TextDict :=
  data.mapM fun p => (strOf (some p.2)).map fun s => (p.1, s)

structure TodoUpdateResult where
  turnId : String
  snapshot : TodoSnapshot
  appliedOperations : List TextDict
  deriving DecidableEq

namespace TodoUpdateResult

def toDict (r : TodoUpdateResult) : Fields :=
  [("turn_id", .str r.turnId), ("revision", .int r.snapshot.revision),
    ("applied_operations", .arr (r.appliedOperations.map fun d => .obj d.json)),
    ("counts", r.snapshot.counts),
    ("todos", .arr (r.snapshot.todos.map fun todo => .obj todo.toDict))]

def fromDict (data : Fields) : Option TodoUpdateResult := do
  let snapshot ← TodoSnapshot.fromDict data
  let turnId ← strOf (data.get "turn_id")
  let operations ← (objectsOf (data.get "applied_operations")).mapM TextDict.fromDict
  pure ⟨turnId, snapshot, operations⟩

end TodoUpdateResult

/-! ## Refusals -/

/-- `TodoStateError`, by what was refused. -/
inductive TodoStateError where
  | invalidRevision
  | callIdConflict (callId : Option String)
  | revisionConflict (expected : Int) (current : TodoSnapshot)
  | concurrentUpdate
  | concurrentFinalization
  | invalidOperations
  | notObject (index : Nat)
  | fields (index : Nat)
  | missingGeneratedId
  | invalidTodoId (index : Nat)
  | duplicateId (todoId : String)
  | duplicateTarget (todoId : String)
  | todoNotFound (todoId : String)
  | unsupported (op : Option Json) (index : Nat)
  | emptyUpdate (index : Nat)
  | noChange (todoId : String)
  | blankContent (index : Nat)
  | longContent (index : Nat)
  | status (index : Nat)
  | todoLimit
  deriving DecidableEq

namespace TodoStateError

def code : TodoStateError → String
  | .invalidRevision => "invalid_revision"
  | .callIdConflict _ => "call_id_conflict"
  | .revisionConflict _ _ => "revision_conflict"
  | .concurrentUpdate | .concurrentFinalization => "concurrent_update"
  | .invalidOperations => "invalid_operations"
  | .notObject _ | .fields _ | .missingGeneratedId | .invalidTodoId _ | .unsupported
    _ _ | .emptyUpdate _ => "invalid_operation"
  | .duplicateId _ => "duplicate_id"
  | .duplicateTarget _ => "duplicate_target"
  | .todoNotFound _ => "todo_not_found"
  | .noChange _ => "no_change"
  | .blankContent _ | .longContent _ => "invalid_content"
  | .status _ => "invalid_status"
  | .todoLimit => "todo_limit"

/-- The text of the error; `repr` is Python's. -/
def message (repr : Option Json → String) : TodoStateError → String
  | .invalidRevision => "Expected revision must be a non-negative integer."
  | .callIdConflict (some callId) =>
    s!"Call ID {repr (some (.str callId))} was already used with different arguments."
  | .callIdConflict none => "Call ID was already used with different arguments."
  | .revisionConflict expected current =>
    s!"Expected revision {expected}, current revision is {current.revision}."
  | .concurrentUpdate => "Todo list changed too frequently; retry with a new snapshot."
  | .concurrentFinalization => "Todo finalization state changed too frequently."
  | .invalidOperations => s!"Operations must contain 1 to {maxTodos} items."
  | .notObject index => s!"Operation {index} must be an object."
  | .fields index => s!"Operation {index} fields must match its operation type."
  | .missingGeneratedId => "Missing generated ID for add operation."
  | .invalidTodoId index => s!"Operation {index} requires a valid Todo ID."
  | .duplicateId todoId => s!"Generated Todo ID {repr (some (.str todoId))} already exists."
  | .duplicateTarget todoId => s!"Todo {repr (some (.str todoId))} is targeted more than once."
  | .todoNotFound todoId => s!"Todo {repr (some (.str todoId))} does not exist."
  | .unsupported op index => s!"Unsupported operation {repr op} at index {index}."
  | .emptyUpdate index => s!"Update operation {index} must change content or status."
  | .noChange todoId => s!"Update for Todo {repr (some (.str todoId))} does not change its state."
  | .blankContent index => s!"Operation {index} content must be a non-blank string."
  | .longContent index => s!"Operation {index} content cannot exceed 500 characters."
  | .status index => s!"Operation {index} status must be one of pending, in_progress, completed."
  | .todoLimit => s!"Todo list cannot contain more than {maxTodos} items."

/-- The snapshot a refusal carries. -/
def snapshot : TodoStateError → Option TodoSnapshot
  | .revisionConflict _ current => some current
  | _ => none

end TodoStateError

/-! ## Checks -/

def isHexDigit (c : Char) : Bool := ('0' ≤ c && c ≤ '9') || ('a' ≤ c && c ≤ 'f')

/-- `_TODO_ID_PATTERN`. -/
def isTodoId (s : String) : Bool :=
  s.toList.take 5 == "todo_".toList && (s.toList.drop 5).length == 32 &&
    (s.toList.drop 5).all isHexDigit

def validateFields (operation : Fields) (index : Nat) (required optional : List String) :
    Except TodoStateError Unit :=
  let fields := operation.map Prod.fst
  if (required.all fun name => fields.contains name)
      && fields.all fun name => (required ++ optional).contains name then .ok ()
  else .error (.fields index)

def validateTodoId (value : Option Json) (index : Nat) : Except TodoStateError String :=
  match value with
  | some (.str s) => if isTodoId s then .ok s else .error (.invalidTodoId index)
  | _ => .error (.invalidTodoId index)

def validateContent (value : Option Json) (index : Nat) : Except TodoStateError String :=
  match value with
  | some (.str s) =>
    if isBlank s then .error (.blankContent index)
    else if 500 < s.length then .error (.longContent index)
    else .ok s
  | _ => .error (.blankContent index)

def validateStatus (value : Option Json) (index : Nat) : Except TodoStateError TodoStatus :=
  match value with
  | some (.str s) => match TodoStatus.ofText s with
    | some status => .ok status
    | none => .error (.status index)
  | _ => .error (.status index)

/-! ## Batches -/

/-- The variables of the loop. -/
structure Batch where
  todos : List TodoItem
  targeted : List String
  generated : List String
  applied : List TextDict

/-- `by_id`, which always follows `todos`: the last index of an id. -/
def byId (todos : List TodoItem) (todoId : String) : Option Nat :=
  ((todos.zipIdx.filter fun p => p.1.id = todoId).getLast?).map Prod.snd

def addTodo (index : Nat) (operation : Fields) (b : Batch) : Except TodoStateError Batch := do
  validateFields operation index ["op", "content", "status"] []
  let content ← validateContent (operation.get "content") index
  let status ← validateStatus (operation.get "status") index
  match b.generated with
  | [] => .error .missingGeneratedId
  | todoId :: generated => do
    let _ ← validateTodoId (some (.str todoId)) index
    if (byId b.todos todoId).isSome then .error (.duplicateId todoId)
    else pure { b with
      todos := b.todos ++ [⟨todoId, content, status⟩]
      generated := generated
      applied := b.applied ++
        [[("content", content), ("id", todoId), ("op", "add"), ("status", status.text)]] }

def removeTodo (index : Nat) (operation : Fields) (todoId : String) (todoIndex : Nat) (b : Batch) :
    Except TodoStateError Batch := do
  validateFields operation index ["op", "id"] []
  pure { b with
    todos := b.todos.eraseIdx todoIndex
    applied := b.applied ++ [[("id", todoId), ("op", "remove")]] }

/-- The members of an update that were given. -/
def given (operation : Fields) (name text : String) : TextDict :=
  if (operation.get name).isSome then [(name, text)] else []

def updateTodo (index : Nat) (operation : Fields) (todoId : String) (todoIndex : Nat)
    (current : TodoItem) (b : Batch) : Except TodoStateError Batch := do
  validateFields operation index ["op", "id"] ["content", "status"]
  if (operation.get "content").isNone && (operation.get "status").isNone then
    .error (.emptyUpdate index)
  else do
    let content ← validateContent (some ((operation.get "content").getD (.str current.content)))
      index
    let status ← validateStatus (some ((operation.get "status").getD (.str current.status.text)))
      index
    if content = current.content ∧ status = current.status then .error (.noChange todoId)
    else pure { b with
      todos := b.todos.set todoIndex ⟨todoId, content, status⟩
      applied := b.applied ++ [given operation "content" content ++
        [("id", todoId), ("op", "update")]
        ++ given operation "status" status.text] }

/-- An operation on a Todo that is there: its Todo, by the id it names. -/
def changeTodo (index : Nat) (operation : Fields) (b : Batch) : Except TodoStateError Batch := do
  let todoId ← validateTodoId (operation.get "id") index
  if b.targeted.contains todoId then .error (.duplicateTarget todoId)
  else
    let b := { b with targeted := todoId :: b.targeted }
    match byId b.todos todoId with
    | none => .error (.todoNotFound todoId)
    | some todoIndex =>
      if operation.get "op" = some (.str "remove") then
        removeTodo index operation todoId todoIndex b
      else if operation.get "op" = some (.str "update") then match b.todos[todoIndex]? with
        | some current => updateTodo index operation todoId todoIndex current b
        | none => .error (.todoNotFound todoId)
      else .error (.unsupported (operation.get "op") index)

def applyOperation (index : Nat) (operation : Fields) (b : Batch) : Except TodoStateError Batch :=
  if operation.get "op" = some (.str "add") then addTodo index operation b
  else changeTodo index operation b

/-- The loop, from operation `index` on. -/
def applyFrom : Nat → List Fields → Batch → Except TodoStateError Batch
  | _, [], b => .ok b
  | index, operation :: operations, b => do
    let b ← applyOperation index operation b
    applyFrom (index + 1) operations b

def applyTodoOperations (snapshot : TodoSnapshot) (operations : List Fields)
    (generatedIds : List String) :
    Except TodoStateError (TodoSnapshot × List TextDict) :=
  if operations.length < 1 ∨ maxTodos < operations.length then .error .invalidOperations
  else do
    let b ← applyFrom 0 operations ⟨snapshot.todos, [], generatedIds, []⟩
    if maxTodos < b.todos.length then .error .todoLimit
    else pure (⟨snapshot.revision + 1, b.todos⟩, b.applied)

end MiniAgent.Todo
