import MiniAgent.Bridge.Config
import MiniAgent.Bridge.Versions
import MiniAgent.Context.Management
import MiniAgent.Lib.Triples
import MiniAgent.Store.Compaction

/-!
# Items of a running Turn

The primitives of `RuntimeEventNodeBridge` in `node_bridge/core.py` and `items.py`. Beside the Turn
the bridge holds a copy of the Message it is writing (`assistantBlocks`), the index of that Message,
and the Item that streams. Values of events are JSON values, so that `_json_value` is the identity.
-/

namespace MiniAgent.Bridge

open Lib Turn Provider Store

/-- What the bridge raises. -/
inductive BridgeError where
  /-- An error of the writer or of a Turn. -/
  | turn (e : Err)
  | valueError (text : String)
  | runtimeError (text : String)
  | assertion
  | index
  /-- `dict(value)` of a value that is no object. -/
  | conversion
  /-- `TracePersistenceError`. -/
  | trace

/-- An Item of the trace of a Turn. -/
structure TurnTraceItem where
  turn : Key
  dataIdx : Nat
  messageIdx : Nat
  itemIdx : Nat
  role : String
  item : Fields

/-- What the bridge is built with. -/
structure BridgeEnv where
  writer : WriterEnv
  emits : writer.emitsFrames = true
  dec : Decoder
  lower : String → String
  /-- `redact_sensitive_text`. -/
  redact : String → String
  redact_ne : ∀ s, s ≠ "" → redact s ≠ ""
  /-- `turn_trace_audit_value`. -/
  audit : Fields → Fields
  /-- `append_turn_trace_item`: the trace after it, or nothing where it raises or finds no trace. -/
  appendTraceItem : List TurnTraceItem → TurnTraceItem → Option (List TurnTraceItem)
  /-- Whether `load_turn_trace` finds a trace. -/
  hasTrace : RuntimeState → Bool
  /-- `load_nodes`. -/
  loadNodes : (Key → Option RuntimeNode) → String → List (Store.Node writer.host)
  /-- What `resume_turn_node` refuses. -/
  resumeRefusal : (Key → Option RuntimeNode) → RuntimeState → Option Err
  compactionTurnId : String
  now : String

/-- The bridge with what it writes Items with. -/
structure TurnBridge extends RuntimeEventNodeBridge where
  started : Bool
  closed : Bool
  assistantBlocks : List Fields
  assistantMessageIdx : Option Nat
  assistantAfterReport : Bool
  streamItemIndex : Option Nat
  streamItemType : Option String
  streamText : String
  abortCategory : Option String
  abortCode : String
  turnTraceInitialized : Bool
  tracePersistenceFailed : Bool
  trace : List TurnTraceItem

namespace TurnBridge

variable (env : BridgeEnv)

abbrev Method (α : Type) := Call BridgeError TurnBridge α

/-! ## The Turn -/

/-- A method of the writer. -/
def onWriter {α : Type} (x : NodeWriter.Method α) : Method α :=
  Call.onPart (fun b => b.writer) (fun w b => { b with writer := w }) .turn x

def setTurn (t : RuntimeState) : Method Unit :=
  Call.write fun b => { b with assistant := some t, lastNode := some t }

/-- `assert self.assistant is not None`. -/
def activeTurn : Method RuntimeState := do
  let b ← Call.read id
  match b.assistant with
  | some t => pure t
  | none => Call.raise .assertion

/-- A call of the writer on a Turn; the bridge takes over what it returns. -/
def writeOn (t : RuntimeState) (call : WriterCall) : Method Unit := do
  let t' ← onWriter (call.perform env.writer t.key)
  setTurn t'

def writeTurn (call : RuntimeState → WriterCall) : Method Unit := do
  let t ← activeTurn
  writeOn env t (call t)

def currentTurn : Method RuntimeState := do
  let t ← activeTurn
  onWriter (NodeWriter.current env.writer t.key)

def lastRole (t : RuntimeState) : Option Json := (selected t).getLast?.bind roleOf

/-- Whether the Message being written is an assistant Message of the Turn. -/
def holdsMessage (b : TurnBridge) (t : RuntimeState) : Bool :=
  match b.assistantMessageIdx with
  | some i => match (selected t)[i]? with
    | some m => IsAssistant m
    | none => false
  | none => false

/-- The Message being written is the last one. -/
def takeLastMessage : Method Unit := do
  let t ← activeTurn
  Call.write fun b => { b with assistantMessageIdx := some ((selected t).length - 1) }

def clearBlocks : Method Unit := Call.write fun b => { b with assistantBlocks := [] }

def emptyAnswer : Json := .obj (assistantOf [])

def ensureAssistantMessage : Method Unit := do
  let current ← currentTurn env
  let b ← Call.read id
  if b.holdsMessage current then setTurn current
  else if lastRole current = some (.str "user") then do
    writeOn env current (.appendMessage emptyAnswer true)
    clearBlocks
    takeLastMessage
  else do
    setTurn current
    takeLastMessage

def startAssistantAfterReport : Method Unit := do
  let b ← Call.read id
  if b.assistantAfterReport then do
    let current ← currentTurn env
    writeOn env current (.appendMessage emptyAnswer true)
    takeLastMessage
    clearBlocks
    Call.write fun b => { b with assistantAfterReport := false }
  else pure ()

/-! ## The trace -/

def failTrace : Method Unit := do
  Call.write fun b => { b with tracePersistenceFailed := true }
  Call.raise .trace

def isSealed (item : Fields) : Bool :=
  item.get "status" == some (.str "success") || item.get "status" == some (.str "failed")

def recordCompletedItem (messageIdx itemIdx : Nat) : Method Unit := do
  let b ← Call.read id
  match b.assistant with
  | none => pure ()
  | some t =>
    if b.tracePersistenceFailed || b.runtime.isNone || !b.turnTraceInitialized then pure ()
    else match (selected t)[messageIdx]? with
      | none => failTrace
      | some m => match (messageItems m)[itemIdx]? with
        | none => failTrace
        | some item =>
          if isSealed item then
            let role := match pyOr (m.get "role") none with
              | some v => env.dec.text (some v)
              | none => "assistant"
            match env.appendTraceItem b.trace ⟨t.key, t.currentDataIdx, messageIdx,
              itemIdx, role, env.audit item⟩ with
            | none => failTrace
            | some trace => Call.write fun b => { b with trace := trace }
          else pure ()

/-! ## Items that stream -/

def streamItem (itemType text : String) : Fields :=
  [("type", .str itemType), ("text", .str text), ("status", .str "running")]

/-- `self.assistant_blocks[index] = block`. -/
def setBlock (index : Nat) (block : Fields → Fields) : Method Unit := do
  let b ← Call.read id
  if index < b.assistantBlocks.length then
    Call.write fun b => { b with assistantBlocks := b.assistantBlocks.modify index block }
  else Call.raise .index

/-- The bridge with no Item that streams. -/
def quieted (itemType : Option String) (b : TurnBridge) : TurnBridge :=
  { b with streamItemIndex := none, streamItemType := itemType, streamText := "" }

def clearStream (itemType : Option String) : Method Unit := Call.write (quieted itemType)

/-- `writer.persist(self.assistant)`. -/
def persistTurn : Method Unit := do
  let t ← activeTurn
  let t' ← onWriter (NodeWriter.persistTurn env.writer t)
  Call.write fun b => { b with assistant := some t' }

/-- The Item that streamed gets a status, in the Turn and in the copy. -/
def sealStreamItem (index : Nat) (status : String) : Method Unit := do
  let b ← Call.read id
  match b.assistantMessageIdx with
  | none => Call.raise .assertion
  | some i => do
    persistTurn env
    writeTurn env fun t => .setItemStatus t.currentDataIdx i index status true
    setBlock index (withStatus status)
    recordCompletedItem env i index

def sealStream (status : String) : Method Unit := do
  let b ← Call.read id
  match b.streamItemIndex with
  | some index => sealStreamItem env index status
  | none => pure ()

def finishStreamItem (itemType : Option String) (status : String) : Method Unit := do
  let b ← Call.read id
  if b.streamItemType.isNone || (itemType.isSome && b.streamItemType != itemType) then pure ()
  else do
    sealStream env status
    clearStream none

def beginStreamItem (itemType : String) : Method Unit :=
  if itemType = "reasoning" ∨ itemType = "text" then do
    let b ← Call.read id
    if b.streamItemType = some itemType then pure ()
    else do
      finishStreamItem env none "success"
      clearStream (some itemType)
  else Call.raise (.valueError "Only reasoning and text Items can stream.")

/-- The first piece of an Item. -/
def openStreamItem (itemType chunk : String) : Method Unit := do
  Call.write fun b =>
    { b with streamItemIndex := some b.assistantBlocks.length, streamText := chunk
             assistantBlocks := b.assistantBlocks ++ [streamItem itemType chunk] }
  let b ← Call.read id
  writeTurn env fun _ => .appendItems [.obj (streamItem itemType chunk)]
    (b.assistantMessageIdx.map Nat.cast) true

def growStreamItem (index : Nat) (itemType chunk : String) : Method Unit := do
  Call.write fun b => { b with streamText := b.streamText ++ chunk }
  let b ← Call.read id
  setBlock index fun _ => streamItem itemType b.streamText
  writeTurn env fun t => .appendText t.currentDataIdx (b.assistantMessageIdx.map Nat.cast)
    index chunk true

def updateStreamItem (itemType chunk : String) : Method Unit :=
  if chunk = "" then pure ()
  else do
    let b ← Call.read id
    Call.whenever (b.streamItemType != some itemType) (beginStreamItem env itemType)
    ensureAssistantMessage env
    let b ← Call.read id
    match b.streamItemIndex with
    | none => openStreamItem env itemType chunk
    | some index => growStreamItem env index itemType chunk

/-! ## Whole Items -/

/-- `item.setdefault(name, value)`. -/
def setDefault (item : Fields) (name : String) (value : Json) : Fields :=
  if (item.get name).isSome then item else item.set name value

def normalized (item : Fields) : Fields := setDefault item "status" (.str "success")

/-- The Items of the Message that are sealed from the start enter the trace. -/
def recordSealed (messageIdx : Nat) (items : List (Fields × Nat)) : Method Unit :=
  Call.forEach (fun p => Call.whenever (isSealed p.1) (recordCompletedItem env messageIdx p.2))
    items

/-- The end of `_append_item` and `_append_items`, with an Item array that is not empty. -/
def appendBlocks (items : List Fields) : Method Unit := do
  ensureAssistantMessage env
  let b ← Call.read id
  Call.write fun b => { b with assistantBlocks := b.assistantBlocks ++ items }
  writeTurn env fun _ => .appendItems (items.map .obj) (b.assistantMessageIdx.map Nat.cast) true
  match b.assistantMessageIdx with
  | none => Call.whenever (items.any isSealed) (Call.raise .assertion)
  | some i => recordSealed env i (items.zipIdx b.assistantBlocks.length)

def appendItem (item : Fields) : Method Unit := do
  finishStreamItem env none "success"
  appendBlocks env [normalized item]

def appendItems (items : List Fields) : Method Unit := do
  finishStreamItem env none "success"
  Call.whenever (!items.isEmpty) (appendBlocks env (items.map normalized))

end TurnBridge

end MiniAgent.Bridge
