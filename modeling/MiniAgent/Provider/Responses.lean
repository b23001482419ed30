import MiniAgent.Lib.Dict
import MiniAgent.Provider.Messages

/-!
# The Responses adapter

`ResponsesAdapter._parse_json` and `ResponsesAdapter._parse_stream` of `providers/protocols.py`. A
stream that carries the completed response is parsed as that response, with the streamed texts in
place of its own.
-/

namespace MiniAgent.Provider.Responses

open Lib

variable (dec : Decoder)

/-- `_text_content`. -/
def textContent : Option Json → String
  | some (.str s) => s
  | some (.arr items) => String.join (items.filterMap fun item => match item with
    | .obj f => isText (Fields.get f "text")
    | _ => none)
  | _ => ""

/-! ## Whole responses -/

structure Output where
  content : String
  reasoning : String
  tools : List ToolMessage

/-- The arguments of a function call: a text is JSON, anything else goes through `dict`. -/
def callArguments (v : Option Json) : Except ParseError Json :=
  match v.getD (.str "\x7b\x7d") with
  | .str s => match dec.loads s with
    | some arguments => .ok arguments
    | none => .error (.request "Invalid JSON.")
  | .obj f => .ok (.obj f)
  | v => match dec.dict v with
    | some f => .ok (.obj f)
    | none => .error (.request "Invalid arguments.")

def addItem (out : Output) : Json → Except ParseError Output
  | .obj item =>
    let kind := Fields.get item "type"
    if kind = some (.str "message") then
      .ok { out with content := out.content ++ textContent (Fields.get item "content") }
    else if kind.any (fun kind => !kind.hashable) then .error .unhashable
    else if kind = some (.str "reasoning") ∨ kind = some (.str "summary") then
      let summary := textContent (pyOr (Fields.get item "summary") (Fields.get item "content"))
      .ok { out with reasoning := out.reasoning ++ summary }
    else if kind = some (.str "function_call") then do
      let arguments ← callArguments dec (Fields.get item "arguments")
      let tool ← pendingTool (dec.text (Fields.get item "name"))
        (dec.text (pyOr (Fields.get item "call_id") (Fields.get item "id"))) arguments
      pure { out with tools := out.tools ++ [tool] }
    else .ok out
  | _ => .ok out

def addItems (out : Output) : List Json → Except ParseError Output
  | [] => .ok out
  | item :: items => do
    let out ← addItem dec out item
    addItems out items

def orNone (s : String) : Option String := if s = "" then none else some s

/-- `_parse_json`. -/
def parseJson (data : Fields) : Except ParseError Prepared :=
  match data.get "output" with
  | some (.arr items) => do
    let out ← addItems dec ⟨"", "", []⟩ items
    pure ⟨orNone out.content, orNone out.reasoning, out.tools, usageOf (data.get "usage"),
      dec.optionalText (data.get "id"), dec.optionalText (data.get "model"),
      dec.optionalText (data.get "status")⟩
  | _ => .error (.request "Responses output must be an array.")

/-! ## Streams -/

structure StreamCall where
  name : String
  callId : String
  arguments : String

structure Streamed where
  text : List String
  reasoning : List String
  calls : Dict String StreamCall
  usage : Option Fields
  final : Option Fields

def Streamed.new : Streamed := ⟨[], [], .empty, none, none⟩

/-- The text of a delta; a missing one is empty. -/
def deltaText (event : Fields) : Option String := isText (some ((event.get "delta").getD (.str "")))

/-- A `response.output_item.added`. -/
def addCall (s : Streamed) (event : Fields) : Streamed :=
  match event.get "item" with
  | some (.obj item) =>
    if Fields.get item "type" = some (.str "function_call") then
      let key := match pyOr (pyOr (Fields.get item "call_id") (Fields.get item "id")) none with
        | some v => dec.text (some v)
        | none => toString s.calls.entries.length
      { s with calls := s.calls.set key ⟨dec.text (Fields.get item "name"),
        key, dec.text (Fields.get item "arguments")⟩ }
    else s
  | _ => s

/-- A `response.function_call_arguments.delta`. -/
def addArguments (s : Streamed) (event : Fields) : Streamed :=
  let key := dec.text (pyOr (event.get "call_id") (event.get "item_id"))
  let target := (s.calls.get key).getD ⟨dec.text (event.get "name"), key, ""⟩
  { s with calls := s.calls.set key { target with
    arguments := target.arguments ++ (isText (event.get "delta")).getD "" } }

/-- A `response.completed`. -/
def addCompleted (s : Streamed) (event : Fields) : Streamed :=
  match event.get "response" with
  | some (.obj candidate) => { s with
      final := some candidate, usage := (usageOf (Fields.get candidate "usage")).or s.usage }
  | _ => s

def addEvent (s : Streamed) (event : Fields) : Streamed :=
  let kind := eventKind dec event
  if kind = "response.output_text.delta" then { s with text := s.text ++ (deltaText event).toList }
  else if kind = "response.reasoning_text.delta" ∨
    kind = "response.reasoning_summary_text.delta" then
    { s with reasoning := s.reasoning ++ (deltaText event).toList }
  else if kind = "response.output_item.added" then addCall dec s event
  else if kind = "response.function_call_arguments.delta" then addArguments dec s event
  else if kind = "response.completed" then addCompleted s event
  else s

def finishCalls : List StreamCall → Except ParseError (List ToolMessage)
  | [] => .ok []
  | call :: calls => do
    let arguments ← match dec.decode call.arguments with
      | some arguments => .ok arguments
      | none => .error (.request "Invalid JSON.")
    let tool ← pendingTool call.name call.callId arguments
    let tools ← finishCalls calls
    pure (tool :: tools)

/-- One call of `finishCalls`. -/
def finishCall (dec : Decoder) (call : StreamCall) : Except ParseError ToolMessage := do
  let arguments ← match dec.decode call.arguments with
    | some arguments => .ok arguments
    | none => .error (.request "Invalid JSON.")
  pendingTool call.name call.callId arguments

theorem finishCalls_cons (call : StreamCall) (calls : List StreamCall) :
    finishCalls dec (call :: calls) = (do
    let tool ← finishCall dec call
    let tools ← finishCalls dec calls
    pure (tool :: tools)) := by
  rw [finishCalls, finishCall]
  rcases dec.decode call.arguments with _ | arguments <;> rfl

/-- What follows the loop over the events. -/
def finish (s : Streamed) : Except ParseError Prepared :=
  match s.final with
  | some final => do
    let parsed ← parseJson dec final
    pure { parsed with
      content := if s.text.isEmpty then parsed.content else some (String.join s.text)
      reasoning := if s.reasoning.isEmpty then parsed.reasoning
      else some (String.join s.reasoning) }
  | none => do
    let tools ← finishCalls dec s.calls.values
    pure ⟨joined s.text, joined s.reasoning, tools, s.usage, none, none, none⟩

/-- `_parse_stream`. -/
def parseStream (events : List Fields) : Except ParseError Prepared :=
  finish dec (events.foldl (addEvent dec) .new)

end MiniAgent.Provider.Responses
