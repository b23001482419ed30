import MiniAgent.Lib.Call
import MiniAgent.Turn.Frames

/-!
# The Turn writer

`NodeWriter` of `runtime_state/writer.py`: one dynamic copy of each Turn being streamed, the
revision of its last frame, the store behind it and the frames handed to `emit`. A method is a
`Call`, so that the writes made before an exception stay. The store is a map from `(session_id, id)`
to nodes; what else it checks before a write, and whether the write succeeds, is the environment's.

Python's list indices may be negative, and the operation a method emits carries the index it was
called with, so indices are integers here and `pyIndex` resolves them.
-/

namespace MiniAgent.Turn

open Lib

abbrev Key := String × String

/-- `RuntimeNode`: the Session root, or a Turn. -/
inductive RuntimeNode where
  | root (sessionId id : String)
  | turn (state : RuntimeState)

structure NodeWriter where
  store : Key → Option RuntimeNode
  dynamic : Key → Option RuntimeState
  revisions : Key → Option Int
  emitted : List NodeFrame

/-- What a writer is built with: the machine, whether frames are emitted, and the refusals of the
store (`create_node` and `update_node`, with or without a frame). -/
structure WriterEnv where
  host : Host
  emitsFrames : Bool
  createRefusal : (Key → Option RuntimeNode) → RuntimeState → Option Err
  updateRefusal : (Key → Option RuntimeNode) → RuntimeState → Option Err

variable (env : WriterEnv)

namespace NodeWriter

abbrev Method (α : Type) := Call Err NodeWriter α

/-! ## The store and the frames -/

def storeWrite (refusal : (Key → Option RuntimeNode) → RuntimeState → Option Err)
    (node : RuntimeState) : Method Unit := do
  let nodes ← Call.read store
  match refusal nodes node with
  | some e => Call.raise e
  | none =>
    let value ← Call.ofExcept (node.clone env.host)
    Call.write fun w => { w with store := Function.update w.store node.key (some (.turn value)) }

def createNode (node : RuntimeState) : Method Unit := storeWrite env env.createRefusal node

def updateNode (node : RuntimeState) : Method Unit := storeWrite env env.updateRefusal node

def whenPersist (persist : Bool) (node : RuntimeState) : Method Unit :=
  if persist then updateNode env node else pure ()

def emit (frame : NodeFrame) : Method Unit :=
  Call.write fun w => { w with emitted := w.emitted ++ [frame] }

def setRevision (key : Key) (revision : Int) : Method Unit :=
  Call.write fun w => { w with revisions := Function.update w.revisions key (some revision) }

def setDynamic (key : Key) (node : Option RuntimeState) : Method Unit :=
  Call.write fun w => { w with dynamic := Function.update w.dynamic key node }

def emitSnapshot (node : RuntimeState) (persist : Bool) : Method Unit :=
  if !env.emitsFrames then whenPersist env persist node
  else do
    let copy ← Call.ofExcept (node.clone env.host)
    whenPersist env persist node
    setRevision node.key 0
    emit (.snapshot copy)

def emitDelta (node : RuntimeState) (patch : Fields) (operations : List Op) (persist : Bool) :
    Method Unit :=
  if !env.emitsFrames || (patch.isEmpty && operations.isEmpty) then whenPersist env persist node
  else do
    let previous ← Call.read fun w => w.revisions node.key
    match previous with
    | none => Call.raise (.validation "A Turn delta requires a baseline snapshot.")
    | some revision => do
      whenPersist env persist node
      emit (.delta node.sessionId node.id (revision + 1) patch operations)
      setRevision node.key (revision + 1)

/-- `_store_dynamic`: the Turn rebuilt from `members`, kept as the dynamic copy. -/
def storeDynamic (members : Fields) : Method RuntimeState := do
  let value ← Call.ofExcept (RuntimeState.fromDict env.host (.obj members))
  let copy ← Call.ofExcept (value.clone env.host)
  setDynamic value.key (some copy)
  pure value

/-! ## Baselines -/

/-- The frame of `create`, when frames are emitted. -/
def emitCreated (key : Key) (copy : RuntimeState) : Method Unit :=
  if env.emitsFrames then do
    setRevision key 0
    emit (.snapshot copy)
  else pure ()

def create (node : RuntimeState) : Method RuntimeState := do
  let copy ← Call.ofExcept (node.clone env.host)
  createNode env node
  setDynamic node.key (some copy)
  emitCreated env node.key copy
  Call.ofExcept (node.clone env.host)

def snapshot (node : RuntimeState) : Method RuntimeState := do
  let value ← Call.ofExcept (RuntimeState.fromDict env.host (.obj node.toDict))
  let copy ← Call.ofExcept (value.clone env.host)
  setDynamic value.key (some copy)
  emitSnapshot env value true
  Call.ofExcept (value.clone env.host)

def current (key : Key) : Method RuntimeState := do
  let w ← Call.read id
  match w.dynamic key with
  | some value => Call.ofExcept (value.clone env.host)
  | none => match w.store key with
    | some (.turn value) => Call.ofExcept (value.clone env.host)
    | some (.root _ _) => Call.raise (.validation "A root Turn cannot be updated.")
    | none => Call.raise (.keyError key.2)

/-! ## Mutations -/

/-- A list index as Python reads it: a negative one counts from the end. -/
def pyIndex (n : Nat) (i : Int) : Option Nat :=
  if 0 ≤ i then if i.toNat < n then some i.toNat else none
  else if 0 ≤ n + i then some (n + i).toNat else none

/-- An index, or `IndexError` as the method reports it. -/
def indexOr (n : Nat) (i : Int) (e : Err) : Method Nat :=
  match pyIndex n i with
  | some k => pure k
  | none => Call.raise e

/-- The members of `current` with other `data`. -/
def withData (current : RuntimeState) (data : List (List Fields)) : Fields :=
  { current with data }.toDict

/-- The `data` of a Turn with a value appended to the selected version. -/
def appendedMessage (current : RuntimeState) (message : Json) : Json :=
  .arr ((current.data.map versionJson).modify current.currentDataIdx fun version =>
    match version with
    | .arr messages => .arr (messages ++ [message])
    | other => other)

def appendMessage (key : Key) (message : Json) (persist : Bool) : Method RuntimeState := do
  let cur ← current env key
  let messageIdx := (cur.data[cur.currentDataIdx]?.getD []).length
  let data ← Call.ofExcept (validateData (appendedMessage cur message))
  let value ← storeDynamic env (withData cur data)
  emitDelta env value [] [.appendMessage cur.currentDataIdx messageIdx message] persist
  Call.ofExcept (value.clone env.host)

/-- The Items `append_items` adds, each normalized on its own. -/
def normalizeEach : List Json → Except Err (List Fields)
  | [] => .ok []
  | item :: items => do
    let normalized ← normalizeContent (.arr [item])
    let rest ← normalizeEach items
    pure (normalized ++ rest)

/-- The operations of `append_items`, from Item index `itemIdx` on. -/
def appendItemOps (dataIdx messageIdx : Int) : Nat → List Fields → List Op
  | _, [] => []
  | itemIdx, item :: items =>
    .appendItem dataIdx messageIdx itemIdx (.obj item) ::
      appendItemOps dataIdx messageIdx (itemIdx + 1) items

/-- The content of a Message, which is an array in a constructed Turn. -/
def contentOf (message : Fields) : List Json :=
  match message.get "content" with
  | some (.arr l) => l
  | _ => []

def appendItems (key : Key) (items : List Json) (messageIdx : Option Int) (persist : Bool) :
    Method RuntimeState := do
  let cur ← current env key
  let messages := cur.data[cur.currentDataIdx]?.getD []
  let targetIdx := messageIdx.getD (messages.length - 1)
  let target ← indexOr messages.length targetIdx
    (.validation "Turn Item target Message is out of range.")
  let message := messages[target]?.getD []
  if message.get "role" != some (.str "assistant") then
    Call.raise (.validation "Turn Items can only be appended to an assistant Message.")
  else do
    let content := contentOf message
    let normalized ← Call.ofExcept (normalizeEach items)
    let grown := message.set "content" (.arr (content ++ normalized.map .obj))
    let data ← Call.ofExcept (validateData
      (dataJson (cur.data.set cur.currentDataIdx (messages.set target grown))))
    let value ← storeDynamic env (withData cur data)
    emitDelta env value [] (appendItemOps cur.currentDataIdx targetIdx content.length normalized)
      persist
    Call.ofExcept (value.clone env.host)

/-- A Message addressed by two indices, with the indices resolved. -/
structure MessagePlace where
  version : Nat
  message : Nat
  messages : List Fields
  target : Fields

/-- The Message at two indices; without the second, the last one. -/
def messagePlace (data : List (List Fields)) (dataIdx : Int) (messageIdx : Option Int) (e : Err) :
    Method MessagePlace := do
  let version ← indexOr data.length dataIdx e
  let messages := data[version]?.getD []
  let message ← indexOr messages.length (messageIdx.getD (messages.length - 1)) e
  pure ⟨version, message, messages, messages[message]?.getD []⟩

/-- The Item of a Message at an index, with the index resolved. -/
def itemPlace (target : Fields) (itemIdx : Int) (e : Err) : Method (Nat × Fields) := do
  let item ← indexOr (contentOf target).length itemIdx e
  match (contentOf target)[item]? with
  | some (.obj fields) => pure (item, fields)
  | _ => Call.raise e

/-- `data` with one Item of a Message replaced. -/
def MessagePlace.replace (place : MessagePlace) (data : List (List Fields)) (item : Nat)
    (fields : Fields) : List (List Fields) :=
  data.set place.version (place.messages.set place.message
    (place.target.set "content" (.arr ((contentOf place.target).set item (.obj fields)))))

def setItemStatus (key : Key) (dataIdx messageIdx itemIdx : Int) (status : String)
    (persist : Bool) : Method RuntimeState :=
  if !itemStatuses.contains status then
    Call.raise (.validation "Item status must be running, failed, or success.")
  else do
    let cur ← current env key
    let outOfRange := .validation "Turn Item status target is out of range."
    let place ← messagePlace cur.data dataIdx (some messageIdx) outOfRange
    let (item, fields) ← itemPlace place.target itemIdx outOfRange
    let data ← Call.ofExcept (validateData
      (dataJson (place.replace cur.data item (fields.set "status" (.str status)))))
    let value ← storeDynamic env (withData cur data)
    emitDelta env value [] [.setItemStatus dataIdx messageIdx itemIdx status] persist
    Call.ofExcept (value.clone env.host)

/-- The text of an Item that streams. -/
def streamingText (item : Fields) : Method String :=
  match item.get "text" with
  | some (.str text) =>
    if hasType item ["text", "reasoning"] then pure text
    else Call.raise (.validation "Turn text delta must target text or reasoning.")
  | _ => Call.raise (.validation "Turn text delta must target text or reasoning.")

def appendText (key : Key) (dataIdx : Int) (messageIdx : Option Int) (itemIdx : Int)
    (delta : String) (persist : Bool) : Method RuntimeState :=
  if delta = "" then current env key
  else do
    let cur ← current env key
    let outOfRange := .validation "Turn text delta target is out of range."
    let place ← messagePlace cur.data dataIdx messageIdx outOfRange
    if place.target.get "role" != some (.str "assistant") then
      Call.raise (.validation "Turn text delta must target an assistant Message.")
    else do
      let (item, fields) ← itemPlace place.target itemIdx outOfRange
      let text ← streamingText fields
      let value ← storeDynamic env (withData cur
        (place.replace cur.data item (fields.set "text" (.str (text ++ delta)))))
      emitDelta env value [] [.appendText dataIdx
        (messageIdx.getD (place.messages.length - 1)) itemIdx delta] persist
      Call.ofExcept (value.clone env.host)

/-! ## Config -/

/-- `_TURN_CONFIG_FIELDS`. -/
def turnConfigFields : List String :=
  ["version", "first_kept_item_size", "compaction_id", "user", "provider_name", "model",
    "permission_mode", "running_mode", "usage", "cwd", "project_cwd", "timestamp", "status",
    "current_data_idx"]

/-- The attribute a keyword of `update_config` sets. -/
def attributeName : String → String
  | "firstKeptItemSize" => "first_kept_item_size"
  | "compactionId" => "compaction_id"
  | name => name

/-- The member of `to_dict` an attribute is written under. -/
def wireName : String → String
  | "first_kept_item_size" => "firstKeptItemSize"
  | "compaction_id" => "compactionId"
  | name => name

/-- The keyword loop of `update_config`, on the members of the Turn. -/
def applyChanges (members : Fields) : Fields → Except Err Fields
  | [] => .ok members
  | (name, value) :: changes =>
    let field := attributeName name
    if turnConfigFields.contains field then
      applyChanges (members.set (wireName field) value) changes
    else .error (.validation s!"Unsupported Turn field: {field}")

def updateConfig (key : Key) (changes : Fields) : Method RuntimeState := do
  let cur ← current env key
  let members ← Call.ofExcept (applyChanges cur.toDict changes)
  let value ← storeDynamic env members
  emitDelta env value (configPatch cur value) [] true
  Call.ofExcept (value.clone env.host)

def finalize (key : Key) (status : String) : Method RuntimeState :=
  if status = "running" then
    Call.raise (.validation "A finalized Turn cannot remain running.")
  else do
    let cur ← current env key
    let result ← storeDynamic env (cur.toDict.set "status" (.str status))
    emitDelta env result [("status", .str status)] [] true
    setDynamic result.key none
    Call.ofExcept (result.clone env.host)

/-! ## Whole Turns -/

/-- The frame of `update`, when frames are emitted. -/
def updateFrame (previous value : RuntimeState) : Method (Option (Int × NodeFrame)) :=
  if !env.emitsFrames then pure none
  else do
    let revision ← Call.read fun w => w.revisions value.key
    match revision with
    | none => Call.raise (.validation "A Turn delta requires a baseline snapshot.")
    | some r => do
      let frame ← Call.ofExcept (NodeFrame.between previous value (r + 1))
      pure (frame.map fun f => (r + 1, f))

def update (node : RuntimeState) (persist : Bool) : Method RuntimeState := do
  let previous ← current env node.key
  let value ← Call.ofExcept (RuntimeState.fromDict env.host (.obj node.toDict))
  let frame ← updateFrame env previous value
  let value ← storeDynamic env value.toDict
  whenPersist env persist value
  match frame with
  | some (revision, frame) => do
    emit frame
    setRevision value.key revision
  | none => pure ()
  Call.ofExcept (value.clone env.host)

def persistTurn (node : RuntimeState) : Method RuntimeState := do
  let value ← storeDynamic env node.toDict
  updateNode env value
  Call.ofExcept (value.clone env.host)

end NodeWriter

end MiniAgent.Turn
