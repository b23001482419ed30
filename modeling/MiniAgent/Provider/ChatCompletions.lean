import Mathlib.Data.List.Sort
import MiniAgent.Lib.Dict
import MiniAgent.Provider.Messages

/-!
# The Chat Completions adapter

`_parse_response` of `chat_completions/responses.py` and `_parse_stream` of
`chat_completions/streaming.py`: a whole response with its choices, and the same response in delta
events. The stream parser gathers each choice under its index and each tool call under its index in
the choice, and then parses the gathered choices as a whole response.
-/

namespace MiniAgent.Provider.Chat

open Lib

variable (dec : Decoder)

/-! ## Values -/

/-- `value is None`, where a missing member is `None`. -/
def isNone (v : Option Json) : Bool := v == none || v == some .null

/-- A member that is a text or null. -/
def textOrNull (v : Option Json) (error : String) : Except ParseError (Option String) :=
  match v with
  | none | some .null => .ok none
  | some (.str s) => .ok (some s)
  | some _ => .error (.request error)

/-- A member that is an object or null. -/
def objectOrNull (v : Option Json) (error : String) : Except ParseError Unit :=
  match v with
  | none | some .null | some (.obj _) => .ok ()
  | some _ => .error (.request error)

/-- A member that is an array or null, which stands for none. -/
def arrayOrNull (v : Option Json) (error : String) : Except ParseError (List Json) :=
  match v with
  | none | some .null => .ok []
  | some (.arr l) => .ok l
  | some _ => .error (.request error)

def integerOr (v : Option Json) (default : Option Int) (error : String) : Except ParseError Int :=
  match v, default with
  | some (.int n), _ => .ok n
  | none, some n => .ok n
  | _, _ => .error (.request error)

/-- What Python says of `value[key]` for a value that is no object. -/
def subscriptError : Json → String
  | .str _ => "string indices must be integers, not 'str'"
  | .arr _ => "list indices must be integers or slices, not str"
  | .int _ => "'int' object is not subscriptable"
  | .float _ => "'float' object is not subscriptable"
  | .bool _ => "'bool' object is not subscriptable"
  | _ => "'NoneType' object is not subscriptable"

/-- `value[key]`, where a `KeyError` or `TypeError` becomes a request error. -/
def subscript (v : Json) (key : String) : Except ParseError Json :=
  match v with
  | .obj f => match Fields.get f key with
    | some w => .ok w
    | none => .error (.request ("'" ++ key ++ "'"))
  | v => .error (.request (subscriptError v))

/-! ## Whole responses -/

/-- `_parse_arguments`. -/
def parseArguments (raw : Json) : Except ParseError Fields :=
  match raw with
  | .str s => match dec.loads s with
    | some (.obj f) => .ok f
    | some _ => .error (.request "Chat Completions tool-call arguments must decode to an object.")
    | none => .error (.request "Invalid JSON.")
  | _ => .error (.request "Chat Completions tool-call arguments must be a JSON string.")

/-- One call of a choice; `seen` holds the ids of the earlier calls of the response. -/
def parseCall (seen : List String) (call : Json) : Except ParseError ToolMessage := do
  let callId ← subscript call "id"
  let callType ← subscript call "type"
  let function ← subscript call "function"
  let name ← subscript function "name"
  let raw ← subscript function "arguments"
  let arguments ← parseArguments dec raw
  require (callType == .str "function")
    (.request "Chat Completions tool call type must be 'function'.")
  match callId, name with
  | .str callId, .str name => do
    require (callId ≠ "" ∧ name ≠ "")
      (.request "Chat Completions tool call id and name must be non-empty strings.")
    require (!seen.contains callId)
      (.request s!"Duplicate Chat Completions tool call id in response: {callId}.")
    pendingTool name callId (.obj arguments)
  | _, _ => .error (.request "Chat Completions tool call id and name must be non-empty strings.")

def parseCalls (seen : List String) : List Json → Except ParseError (List ToolMessage × List String)
  | [] => .ok ([], seen)
  | call :: calls => do
    let tool ← parseCall dec seen call
    let (tools, seen) ← parseCalls (seen ++ [tool.callId]) calls
    pure (tool :: tools, seen)

/-- `_ParsedChoice`. -/
structure ParsedChoice where
  index : Int
  content : Option String
  reasoning : Option String
  tools : List ToolMessage
  finishReason : Option String

/-- `_parse_choice`. -/
def parseChoice (seen : List String) (position : Nat) (raw : Fields) :
    Except ParseError (ParsedChoice × List String) :=
  match raw.get "message" with
  | some (.obj message) => do
    require (isNone (Fields.get message "role") || Fields.get message "role" ==
      some (.str "assistant"))
      (.request "Chat Completions response message role must be 'assistant'.")
    let content ← textOrNull (Fields.get message "content")
      "Chat Completions response content must be text or null."
    let reasoning ← textOrNull (Fields.get message "reasoning_content")
      "Chat Completions reasoning_content must be text or null."
    objectOrNull (raw.get "logprobs") "Chat Completions logprobs must be an object or null."
    let index ← integerOr (raw.get "index")
      (some position) "Chat Completions choice index must be an integer."
    let finishReason ← textOrNull (raw.get "finish_reason")
      "Chat Completions finish_reason must be text or null."
    let calls ← arrayOrNull (Fields.get message "tool_calls")
      "Chat Completions tool_calls must be an array."
    let (tools, seen) ← parseCalls dec seen calls
    pure (⟨index, content, reasoning, tools, finishReason⟩, seen)
  | _ => .error (.request "Chat Completions choice.message must be an object.")

def parseChoices (seen : List String) (position : Nat) :
    List Json → Except ParseError (List ParsedChoice)
  | [] => .ok []
  | .obj raw :: raws => do
    let (choice, seen) ← parseChoice dec seen position raw
    let rest ← parseChoices seen (position + 1) raws
    pure (choice :: rest)
  | _ => .error (.request "Chat Completions choices must contain objects.")

def isStr : Option Json → Option String
  | some (.str s) => some s
  | _ => none

/-- `_parse_response`. -/
def parseResponse (data : Fields) : Except ParseError Prepared :=
  match data.get "choices" with
  | some (.arr (raw :: raws)) => do
    objectOrNull (data.get "usage") "Chat Completions usage must be an object or null."
    let parsed ← parseChoices dec [] 0 (raw :: raws)
    match parsed.mergeSort fun a b => a.index ≤ b.index with
    | primary :: _ =>
      pure ⟨primary.content, primary.reasoning, primary.tools, usageOf (data.get "usage"),
        isStr (data.get "id"), isStr (data.get "model"), primary.finishReason⟩
    | [] => .error .index
  | _ => .error (.request "Chat Completions response choices must be a non-empty array.")

/-! ## Streams -/

structure StreamTool where
  id : String
  name : String
  arguments : String

/-- `_new_stream_choice`, without its log probabilities. -/
structure StreamChoice where
  role : Option String
  content : List String
  reasoning : List String
  toolCalls : Dict Int StreamTool
  finishReason : Option String

def StreamChoice.new : StreamChoice := ⟨none, [], [], .empty, none⟩

structure Streaming where
  choices : Dict Int StreamChoice
  top : Fields
  usage : Option Fields

def textPart (v : Option Json) : String := (isStr v).getD ""

/-- A fragment of a tool call. -/
def addFragment (calls : Dict Int StreamTool) (fragment : Json) :
    Except ParseError (Dict Int StreamTool) :=
  match fragment with
  | .obj fragment => do
    let index ← integerOr (Fields.get fragment "index") none
      "Chat Completions streamed tool call is missing an integer index."
    let tool := (calls.get index).getD ⟨"", "", ""⟩
    require (isNone (Fields.get fragment "type") || Fields.get fragment "type" ==
      some (.str "function"))
      (.request "Chat Completions streamed tool call type must be 'function'.")
    let tool := { tool with id := tool.id ++ textPart (Fields.get fragment "id") }
    match Fields.get fragment "function" with
    | none | some .null => pure (calls.set index tool)
    | some (.obj function) =>
      pure (calls.set index { tool with
        name := tool.name ++ textPart (Fields.get function "name")
        arguments := tool.arguments ++ textPart (Fields.get function "arguments") })
    | some _ => .error (.request "Chat Completions streamed tool call function must be an object.")
  | _ => .error (.request "Chat Completions streamed tool call fragments must be objects.")

def addFragments (calls : Dict Int StreamTool) : List Json → Except ParseError (Dict Int StreamTool)
  | [] => .ok calls
  | fragment :: fragments => do
    let calls ← addFragment calls fragment
    addFragments calls fragments

/-- The `delta` of a choice. -/
def deltaOf (raw : Fields) : Except ParseError Fields :=
  match raw.get "delta" with
  | none | some .null => .ok []
  | some (.obj delta) => .ok delta
  | some _ => .error (.request "Chat Completions stream choice.delta must be an object.")

def addChoice (s : Streaming) (position : Nat) (raw : Json) : Except ParseError Streaming :=
  match raw with
  | .obj raw => do
    let index ← integerOr (Fields.get raw "index") (some position)
      "Chat Completions streamed choice index must be an integer."
    let target := (s.choices.get index).getD .new
    let delta ← deltaOf raw
    require (isNone (delta.get "role") || delta.get "role" == some (.str "assistant"))
      (.request "Chat Completions streamed delta role must be 'assistant'.")
    let reasoning ← textOrNull (delta.get "reasoning_content")
      "Chat Completions stream reasoning_content must be text or null."
    let content ← textOrNull (delta.get "content")
      "Chat Completions stream content must be text or null."
    let finishReason ← textOrNull (Fields.get raw "finish_reason")
      "Chat Completions streamed finish_reason must be text or null."
    objectOrNull (Fields.get raw "logprobs")
      "Chat Completions streamed logprobs must be an object or null."
    let fragments ← arrayOrNull (delta.get "tool_calls")
      "Chat Completions streamed tool_calls must be an array."
    let toolCalls ← addFragments target.toolCalls fragments
    let role := (isStr (delta.get "role")).or target.role
    let choice := ⟨role, target.content ++ content.toList, target.reasoning ++ reasoning.toList,
      toolCalls,
      finishReason.or target.finishReason⟩
    pure { s with choices := s.choices.set index choice }
  | _ => .error (.request "Chat Completions stream choices must contain objects.")

def addChoices (s : Streaming) (position : Nat) : List Json → Except ParseError Streaming
  | [] => .ok s
  | raw :: raws => do
    let s ← addChoice s position raw
    addChoices s (position + 1) raws

/-- The members of an event that describe the response. -/
def topKeys : List String := ["id", "model", "object", "system_fingerprint", "created"]

def addTop (top event : Fields) : Fields :=
  topKeys.foldl (fun top key => match event.get key with
    | none | some .null => top
    | some v => top.set key v) top

def addEvent (s : Streaming) (event : Json) : Except ParseError Streaming :=
  match event with
  | .obj event => do
    objectOrNull (Fields.get event "usage")
      "Chat Completions streamed usage must be an object or null."
    let usage := (usageOf (Fields.get event "usage")).or s.usage
    match Fields.get event "choices" with
    | some (.arr raws) => addChoices { s with top := addTop s.top event, usage } 0 raws
    | _ => .error (.request "Chat Completions stream choices must be an array.")
  | _ => .error (.request "Chat Completions stream events must be objects.")

def addEvents (s : Streaming) : List Json → Except ParseError Streaming
  | [] => .ok s
  | event :: events => do
    let s ← addEvent s event
    addEvents s events

/-! ### The gathered response -/

def optionJson : Option String → Json
  | some s => .str s
  | none => .null

def StreamTool.toJson (t : StreamTool) : Json :=
  .obj [("id", .str t.id), ("type", .str "function"),
    ("function", .obj [("name", .str t.name), ("arguments", .str t.arguments)])]

/-- The values of a dictionary in the order of its keys. -/
def sorted {α : Type} (d : Dict Int α) : List (Int × α) := d.entries.mergeSort fun a b => a.1 ≤ b.1

def StreamChoice.toJson (index : Int) (c : StreamChoice) : Json :=
  .obj [("index", .int index),
    ("message", .obj [("role", .str (match c.role with
        | some role => if role = "" then "assistant" else role
        | none => "assistant")),
      ("content", optionJson (joined c.content)),
        ("reasoning_content", optionJson (joined c.reasoning)),
      ("tool_calls", .arr ((sorted c.toolCalls).map fun p => p.2.toJson))]),
    ("finish_reason", optionJson c.finishReason), ("logprobs", .null)]

def unfinished (s : Streaming) : List Int :=
  (s.choices.entries.filter fun p => p.2.finishReason.isNone).map Prod.fst

def Streaming.toJson (s : Streaming) : Fields :=
  (s.top.set "choices" (.arr ((sorted s.choices).map fun p => p.2.toJson p.1))).set
    "usage" (match s.usage with
    | some usage => .obj usage
    | none => .null)

/-- What follows the loop over the events. -/
def finishStream (sawEvent : Bool) (s : Streaming) : Except ParseError Prepared := do
  require sawEvent (.request "Chat Completions stream ended without any events.")
  require (!s.choices.entries.isEmpty)
    (.request "Chat Completions stream ended without any completion choices.")
  let indexes := ", ".intercalate (((unfinished s).mergeSort (· ≤ ·)).map toString)
  require (unfinished s).isEmpty
    (.request s!"Chat Completions stream ended without a finish reason for choice(s): {indexes}.")
  parseResponse dec s.toJson

/-- `_parse_stream`. -/
def parseStream (events : List Json) : Except ParseError Prepared := do
  let s ← addEvents ⟨.empty, [], none⟩ events
  finishStream dec (!events.isEmpty) s

end MiniAgent.Provider.Chat
