import MiniAgent.Provider.ChatCompletions
import MiniAgent.Provider.Responses
import MiniAgent.Provider.Transport

/-!
# The client and its retries

`LLMClient.run` of `providers/client.py`: one attempt after the other until one is answered or fails
for good. The transport of a stream is lazy, so its errors are raised inside `prepare_response` of
the adapter, and what the adapter makes of them decides whether the client sees a transport error.
The adapters are the three event parsers with their own `prepare_response`.

The request is built alike for each attempt, and publishing events does not fail.
-/

namespace MiniAgent.Provider

open Lib

inductive Protocol where
  | chatCompletions | responses | messages
  deriving DecidableEq

/-- A call of `on_content` or `on_reasoning`. -/
inductive StreamOutput where
  | content (s : String)
  | reasoning (s : String)

/-- What an attempt raises. -/
inductive Failure where
  /-- `ModelTransportError`. -/
  | transport (e : TransportError)
  /-- `ProviderOutputError`. -/
  | output (text : String)
  /-- An exception that is no `ModelRequestError`. -/
  | other (e : ParseError)

/-! ## Event parsers -/

/-- The loop of a `_parse_stream` with what follows it. -/
structure EventParser where
  State : Type
  start : State
  /-- The callbacks an event leads to. -/
  outputs : State → Fields → List StreamOutput
  add : State → Fields → Except ParseError State
  finish : State → Except ParseError Prepared

/-- Reading a stream: the transport raises its error when it is asked for the event after the
last. -/
def EventParser.consume (p : EventParser) (ending : Option TransportError) :
    p.State → List Fields → List StreamOutput × Except (TransportError ⊕ ParseError) Prepared
  | s, [] => ([], match ending with
    | some e => .error (.inl e)
    | none => (p.finish s).mapError .inr)
  | s, event :: events => match p.add s event with
    | .error e => (p.outputs s event, .error (.inr e))
    | .ok s' =>
      let (outputs, result) := p.consume ending s' events
      (p.outputs s event ++ outputs, result)

variable (dec : Decoder)

def outputList (content reasoning : Option String) : List StreamOutput :=
  (content.map StreamOutput.content).toList ++ (reasoning.map StreamOutput.reasoning).toList

/-- The callbacks of the Messages adapter. -/
def messagesOutputs (event : Fields) : List StreamOutput :=
  match event.get "delta" with
  | some (.obj delta) =>
    if eventKind dec event = "content_block_delta" then
      outputList (isText (Fields.get delta "text")) (isText (Fields.get delta "thinking"))
    else []
  | _ => []

def messagesParser : EventParser where
  State := Streamed
  start := .new
  outputs := fun _ event => messagesOutputs dec event
  add := addEvent dec
  finish := fun s => do
    let tools ← finishCalls dec s.calls
    pure ⟨joined s.text, joined s.reasoning, tools, s.usage, none, none, s.stopReason⟩

/-- The callbacks of the Responses adapter. -/
def responsesOutputs (event : Fields) : List StreamOutput :=
  let kind := eventKind dec event
  if kind = "response.output_text.delta" then outputList (Responses.deltaText event) none
  else if kind = "response.reasoning_text.delta" ∨
    kind = "response.reasoning_summary_text.delta" then
    outputList none (Responses.deltaText event)
  else []

def responsesParser : EventParser where
  State := Responses.Streamed
  start := .new
  outputs := fun _ event => responsesOutputs dec event
  add := fun s event => .ok (Responses.addEvent dec s event)
  finish := Responses.finish dec

/-- The callbacks of one choice, up to the first check that fails. -/
def choiceOutputs (position : Nat) (raw : Json) : List StreamOutput :=
  match raw with
  | .obj raw =>
    match Chat.integerOr (Fields.get raw "index") (some position) "", Chat.deltaOf raw with
    | .ok index, .ok delta =>
      if Chat.isNone (delta.get "role") || delta.get "role" == some (.str "assistant") then
        match Chat.textOrNull (delta.get "reasoning_content") "" with
        | .ok reasoning => outputList none reasoning ++ match Chat.isStr (delta.get "content") with
          | some content => if content ≠ "" ∧ index = 0 then [.content content] else []
          | none => []
        | .error _ => []
      else []
    | _, _ => []
  | _ => []

def choicesOutputs (s : Chat.Streaming) (position : Nat) : List Json → List StreamOutput
  | [] => []
  | raw :: raws => choiceOutputs position raw ++ match Chat.addChoice s position raw with
    | .ok s' => choicesOutputs s' (position + 1) raws
    | .error _ => []

/-- The callbacks of the Chat Completions adapter. -/
def chatOutputs (s : Chat.Streaming) (event : Fields) : List StreamOutput :=
  match Chat.objectOrNull (event.get "usage") "", event.get "choices" with
  | .ok (), some (.arr raws) => choicesOutputs s 0 raws
  | _, _ => []

/-- An event of the Chat Completions adapter; the flag is `saw_event`. -/
def chatAdd (s : Chat.Streaming × Bool) (event : Fields) :
    Except ParseError (Chat.Streaming × Bool) := do
  let s ← Chat.addEvent s.1 (.obj event)
  pure (s, true)

def chatParser : EventParser where
  State := Chat.Streaming × Bool
  start := (⟨.empty, [], none⟩, false)
  outputs := fun s event => chatOutputs s.1 event
  add := chatAdd
  finish := fun s => Chat.finishStream dec s.2 s.1

/-! ### Complete streams -/

theorem EventParser.consume_complete (p : EventParser) (s : p.State) (events : List Fields) :
    (p.consume none s events).2 = (events.foldlM p.add s >>= p.finish).mapError .inr := by
  induction events generalizing s with
  | nil => rfl
  | cons event events ih =>
    rw [consume, List.foldlM_cons]
    cases p.add s event with
    | error e => rfl
    | ok s' => exact ih s'

theorem addEvents_eq_foldlM (s : Streamed) (events : List Fields) :
    addEvents dec s events = events.foldlM (addEvent dec) s := by
  induction events generalizing s with
  | nil => rfl
  | cons event events ih =>
    rw [addEvents, List.foldlM_cons]
    exact bind_congr fun s' => ih s'

theorem foldlM_chatAdd (events : List Fields) (s : Chat.Streaming) (saw : Bool) :
    events.foldlM chatAdd (s, saw) = (do
      let s ← Chat.addEvents s (events.map .obj)
      pure (s, saw || !events.isEmpty)) := by
  induction events generalizing s saw with
  | nil =>
    rw [List.isEmpty_nil, Bool.not_true, Bool.or_false]
    rfl
  | cons event events ih =>
    rw [List.foldlM_cons, List.map_cons, Chat.addEvents, List.isEmpty_cons,
      Bool.not_false, Bool.or_true, bind_assoc,
      chatAdd, bind_assoc]
    refine bind_congr fun s' => ?_
    rw [pure_bind, ih s' true, Bool.true_or]

theorem chatParser_parseStream (events : List Fields) :
    ((chatParser dec).consume none (chatParser dec).start events).2
      = (Chat.parseStream dec (events.map .obj)).mapError .inr := by
  rw [EventParser.consume_complete, Chat.parseStream, List.isEmpty_map]
  show (events.foldlM chatAdd (⟨.empty, [], none⟩, false) >>= fun s =>
    Chat.finishStream dec s.2 s.1).mapError _ = _
  rw [foldlM_chatAdd, bind_assoc, Bool.false_or]
  rfl

/-! ## Attempts -/

def Protocol.parser : Protocol → EventParser
  | .chatCompletions => chatParser dec
  | .responses => responsesParser dec
  | .messages => messagesParser dec

/-- The parser of a whole response. -/
def Protocol.parseWhole : Protocol → Fields → Except ParseError Prepared
  | .chatCompletions => Chat.parseResponse dec
  | .responses => Responses.parseJson dec
  | .messages => parseJson dec

/-- The `except ModelRequestError` of `prepare_response`: a `ModelTransportError` is one too, and
only the Chat Completions adapter lets it through. -/
def Protocol.raised (p : Protocol) : TransportError ⊕ ParseError → Failure
  | .inl e => match p with
    | .chatCompletions => .transport e
    | _ => .output e.text
  | .inr (.request text) => .output text
  | .inr e => .other e

structure Attempt where
  outputs : List StreamOutput
  outcome : Except Failure Prepared

/-- What each attempt of an exchange meets. -/
inductive Replies where
  | streamed (replies : Nat → StreamReply)
  | plain (replies : Nat → PlainReply)

variable (r : Reader)

/-- `_run_once`, for attempt `n`. -/
def LLMClient.runOnce (p : Protocol) (replies : Replies) (n : Nat) : Attempt :=
  match replies with
  | .streamed replies =>
    let (events, ending) := streamJson r (replies n)
    let (outputs, result) := (p.parser dec).consume ending (p.parser dec).start events
    ⟨outputs, result.mapError p.raised⟩
  | .plain replies => match postJson (replies n) with
    | .error e => ⟨[], .error (.transport e)⟩
    | .ok data => ⟨[], (p.parseWhole dec data).mapError fun e => p.raised (.inr e)⟩

/-- The data of a `model_retry` event. -/
structure Retry where
  text : String
  attempt : Nat
  maxTransportRetries : Nat
  delaySeconds : Rat
  statusCode : Option Int

structure ClientRun where
  attempts : List Attempt
  retries : List Retry
  outcome : Except Failure Prepared

/-- The loop of `run` from attempt `n`, with `left` retries left. -/
def LLMClient.runFrom (once : Nat → Attempt) (maxTransportRetries n : Nat) : Nat → ClientRun
  | 0 => ⟨[once n], [], (once n).outcome⟩
  | left + 1 => match (once n).outcome with
    | .error (.transport e) =>
      if e.retryable then
        let rest := LLMClient.runFrom once maxTransportRetries (n + 1) left
        let delay := e.retryAfter.getD (1 / 2 * 2 ^ n)
        ⟨once n :: rest.attempts, ⟨e.text, n + 1, maxTransportRetries, delay, e.statusCode⟩ ::
          rest.retries, rest.outcome⟩
      else ⟨[once n], [], (once n).outcome⟩
    | outcome => ⟨[once n], [], outcome⟩

/-- `LLMClient.run`. -/
def LLMClient.run (p : Protocol) (replies : Replies) (maxTransportRetries : Nat) : ClientRun :=
  runFrom (runOnce dec r p replies) maxTransportRetries 0 maxTransportRetries

end MiniAgent.Provider
