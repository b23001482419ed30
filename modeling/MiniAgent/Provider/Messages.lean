import MiniAgent.Provider.Message
import MiniAgent.Turn.Writer

/-!
# The Messages adapter

`MessagesAdapter._parse_json` and `MessagesAdapter._parse_stream` of `providers/protocols.py`: a
whole response, and the same response as server-sent events. A response is a list of content blocks;
in a stream each event names the block it belongs to by its index. The stream parser keeps the calls
in a dictionary and finds the call a fragment of arguments belongs to by position.

What Python's `str`, `int`, `dict` and `json.loads` make of a value is a parameter (`Decoder`) where
it is not fixed here.
-/

namespace MiniAgent.Provider

open Lib

/-- The conversions of Python the adapters use. -/
structure Decoder where
  /-- `str` of a value that is not a text. -/
  str : Json → String
  /-- `int` of a value that is not an integer. -/
  int : Json → Option Int
  /-- `dict` of a value that is not an object. -/
  dict : Json → Option Fields
  loads : String → Option Json
  loads_empty : loads "\x7b\x7d" = some (.obj [])

/-- A decoder that knows the empty object. -/
theorem loads_emptyObject : (if "\x7b\x7d" = "\x7b\x7d" then some (Json.obj []) else none) =
    some (.obj []) := rfl

inductive ParseError where
  /-- `ModelRequestError`. -/
  | request (text : String)
  /-- `ValueError` of a constructor. -/
  | value (text : String)
  | conversion
  | index
  /-- `TypeError` of a set. -/
  | unhashable

variable (dec : Decoder)

/-! ## Values -/

/-- `a or b`. -/
def pyOr (a b : Option Json) : Option Json :=
  match a with
  | some v => if v.truthy then some v else b
  | none => b

/-- `str(value or "")`. -/
def Decoder.text (v : Option Json) : String :=
  match v with
  | some (.str s) => s
  | some v => if v.truthy then dec.str v else ""
  | none => ""

/-- `int(value)`. -/
def Decoder.integer : Json → Option Int
  | .int n => some n
  | .bool b => some (if b then 1 else 0)
  | v => dec.int v

/-- `dict(value or {})`. -/
def Decoder.object (v : Option Json) : Except ParseError Fields :=
  match v with
  | some (.obj f) => .ok f
  | some v => if v.truthy then match dec.dict v with
      | some f => .ok f
      | none => .error .conversion
    else .ok []
  | none => .ok []

/-- `json.loads(value or "{}")`. -/
def Decoder.decode (s : String) : Option Json := dec.loads (if s = "" then "\x7b\x7d" else s)

/-- `"".join(parts) or None`. -/
def joined (parts : List String) : Option String :=
  let s := String.join parts
  if s = "" then none else some s

/-- A pending call. -/
def pendingTool (name callId : String) (arguments : Json) : Except ParseError ToolMessage :=
  match ToolMessage.pending name callId arguments with
  | .ok t => .ok t
  | .error e => .error (.value e)

/-- The part of `PreparedResponse` the adapter fills in. -/
structure Prepared where
  content : Option String
  reasoning : Option String
  toolMessages : List ToolMessage
  usage : Option Fields
  responseId : Option String
  model : Option String
  finishReason : Option String

def usageOf : Option Json → Option Fields
  | some (.obj f) => some f
  | _ => none

/-- `str(value) if value else None`. -/
def Decoder.optionalText (v : Option Json) : Option String :=
  match v with
  | some v => if v.truthy then some (dec.text (some v)) else none
  | none => none

/-! ## Whole responses -/

structure Blocks where
  text : List String
  reasoning : List String
  tools : List ToolMessage

/-- One content block. -/
def addBlock (b : Blocks) : Json → Except ParseError Blocks
  | .obj block =>
    let kind := Fields.get block "type"
    if kind = some (.str "text") then
      .ok { b with text := b.text ++ [dec.text (Fields.get block "text")] }
    else if kind.any (fun kind => !kind.hashable) then .error .unhashable
    else if kind = some (.str "thinking") ∨ kind = some (.str "redacted_thinking") then
      .ok { b with reasoning := b.reasoning ++
        [dec.text (pyOr (Fields.get block "thinking") (Fields.get block "text"))] }
    else if kind = some (.str "tool_use") then do
      let arguments ← dec.object (Fields.get block "input")
      let tool ← pendingTool (dec.text (Fields.get block "name")) (dec.text (Fields.get block "id"))
        (.obj arguments)
      pure { b with tools := b.tools ++ [tool] }
    else .ok b
  | _ => .ok b

def addBlocks (b : Blocks) : List Json → Except ParseError Blocks
  | [] => .ok b
  | block :: blocks => do
    let b ← addBlock dec b block
    addBlocks b blocks

/-- `_parse_json`. -/
def parseJson (data : Fields) : Except ParseError Prepared :=
  match data.get "content" with
  | some (.arr blocks) => do
    let b ← addBlocks dec ⟨[], [], []⟩ blocks
    pure ⟨joined b.text, joined b.reasoning, b.tools, usageOf (data.get "usage"),
      dec.optionalText (data.get "id"),
      dec.optionalText (data.get "model"), dec.optionalText (data.get "stop_reason")⟩
  | _ => .error (.request "Messages response content must be an array.")

/-! ## Streams -/

/-- A value of `calls`. -/
structure StreamCall where
  id : String
  name : String
  input : String

/-- The variables of the loop; `calls` in the order of insertion. -/
structure Streamed where
  text : List String
  reasoning : List String
  calls : List StreamCall
  usage : Option Fields
  stopReason : Option String

def Streamed.new : Streamed := ⟨[], [], [], none, none⟩

/-- `calls[key] = call`. -/
def putCall (calls : List StreamCall) (call : StreamCall) : List StreamCall :=
  if calls.any fun c => c.id == call.id then calls.map fun c => if c.id = call.id then call else c
  else calls ++ [call]

def eventKind (event : Fields) : String :=
  dec.text (pyOr (event.get "__sse_event") (event.get "type"))

def isText : Option Json → Option String
  | some (.str s) => some s
  | _ => none

/-- A fragment of arguments, for the call at position `index`. -/
def addInput (s : Streamed) (event : Fields) (fragment : String) : Except ParseError Streamed :=
  match dec.integer ((event.get "index").getD (.int 0)) with
  | none => .error .conversion
  | some index =>
    if index < s.calls.length then match Turn.NodeWriter.pyIndex s.calls.length index with
      | some k =>
        .ok { s with calls := s.calls.modify k fun c => { c with input := c.input ++ fragment } }
      | none => .error .index
    else .ok s

/-- A `content_block_delta`. -/
def addDelta (s : Streamed) (event : Fields) : Except ParseError Streamed :=
  match event.get "delta" with
  | some (.obj delta) =>
    let s := match isText (Fields.get delta "text") with
      | some t => { s with text := s.text ++ [t] }
      | none => s
    let s := match isText (Fields.get delta "thinking") with
      | some t => { s with reasoning := s.reasoning ++ [t] }
      | none => s
    match isText (Fields.get delta "partial_json") with
    | some t => addInput dec s event t
    | none => .ok s
  | _ => .ok s

/-- A `content_block_start`. -/
def addStart (s : Streamed) (event : Fields) : Streamed :=
  match event.get "content_block" with
  | some (.obj block) =>
    if Fields.get block "type" = some (.str "tool_use") then
      let key := match pyOr (Fields.get block "id") none with
        | some v => dec.text (some v)
        | none => toString s.calls.length
      { s with calls := putCall s.calls ⟨key, dec.text (Fields.get block "name"), ""⟩ }
    else s
  | _ => s

/-- A `message_delta`. -/
def addMessageDelta (s : Streamed) (event : Fields) : Streamed :=
  let s := match event.get "delta" with
    | some (.obj delta) =>
      let reason := dec.text (Fields.get delta "stop_reason")
      { s with stopReason := if reason = "" then s.stopReason else some reason }
    | _ => s
  match event.get "usage" with
  | some (.obj usage) => { s with usage := some usage }
  | _ => s

/-- A `message_start`. -/
def addMessageStart (s : Streamed) (event : Fields) : Streamed :=
  match event.get "message" with
  | some (.obj message) => match Fields.get message "usage" with
    | some (.obj usage) => { s with usage := some usage }
    | _ => s
  | _ => s

def addEvent (s : Streamed) (event : Fields) : Except ParseError Streamed :=
  let kind := eventKind dec event
  if kind = "content_block_start" then .ok (addStart dec s event)
  else if kind = "content_block_delta" then addDelta dec s event
  else if kind = "message_delta" then .ok (addMessageDelta dec s event)
  else if kind = "message_start" then .ok (addMessageStart s event)
  else .ok s

def addEvents (s : Streamed) : List Fields → Except ParseError Streamed
  | [] => .ok s
  | event :: events => do
    let s ← addEvent dec s event
    addEvents s events

def finishCall (call : StreamCall) : Except ParseError ToolMessage :=
  match dec.decode call.input with
  | none => .error (.request "Invalid JSON.")
  | some arguments => pendingTool call.name call.id arguments

def finishCalls : List StreamCall → Except ParseError (List ToolMessage)
  | [] => .ok []
  | call :: calls => do
    let tool ← finishCall dec call
    let tools ← finishCalls calls
    pure (tool :: tools)

/-- `_parse_stream`. -/
def parseStream (events : List Fields) : Except ParseError Prepared := do
  let s ← addEvents dec .new events
  let tools ← finishCalls dec s.calls
  pure ⟨joined s.text, joined s.reasoning, tools, s.usage, none, none, s.stopReason⟩

end MiniAgent.Provider
