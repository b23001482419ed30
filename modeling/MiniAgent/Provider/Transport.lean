import Mathlib.Algebra.Order.Field.Rat
import MiniAgent.Provider.Messages

/-!
# The HTTP transport

`JsonHttpTransport` of `providers/transport.py`: what one request yields, from what the connection
does. `streamJson` is a generator, so its result is the events it yields and the error it raises
after them, if any; nothing is raised before an event is asked for. `TransportError.retryable` is
the transport's word on whether the request may be sent again: never after an event.

No stop is requested, so `_raise_if_cancelled` does nothing.
-/

namespace MiniAgent.Provider

open Lib

/-! ## Errors -/

/-- The classes of `requests.RequestException` the transport tells apart. -/
inductive HttpErrorKind where
  | timeout | connection | chunkedEncoding | other
  deriving DecidableEq

/-- A `requests.RequestException`, with what it knows of the response. -/
structure HttpError where
  kind : HttpErrorKind
  status : Option Int
  /-- The `Retry-After` header, when it is a number. -/
  retryAfter : Option Rat
  text : String

/-- `ModelTransportError`. -/
structure TransportError where
  text : String
  retryable : Bool
  statusCode : Option Int
  retryAfter : Option Rat
  streamStarted : Bool

/-- `_RETRYABLE_STATUS_CODES`. -/
def retryableStatusCodes : List Int := [408, 429, 500, 502, 503, 504]

/-- A failure that may pass. -/
def HttpError.transient (e : HttpError) : Bool :=
  e.kind ≠ .other ∨ ∃ code ∈ retryableStatusCodes, e.status = some code

/-- `_transport_error`. -/
def transportError (e : HttpError) (streamStarted : Bool) : TransportError where
  text := e.text
  retryable := e.transient && !streamStarted
  statusCode := e.status
  retryAfter := e.retryAfter.map fun q => min 30 (max 0 q)
  streamStarted := streamStarted

/-- A `ModelTransportError` that is raised without a response. -/
def plainError (text : String) (retryable streamStarted : Bool) : TransportError :=
  ⟨text, retryable, none, none, streamStarted⟩

/-! ## Plain requests -/

/-- What a plain request meets. -/
inductive PlainReply where
  /-- `post` or `raise_for_status` raises. -/
  | failed (e : HttpError)
  /-- `response.json()` raises a `RequestException`. -/
  | unreadable (e : HttpError)
  /-- `response.json()` raises another `ValueError`. -/
  | invalid (text : String)
  | body (v : Json)

/-- `post_json`. -/
def postJson : PlainReply → Except TransportError Fields
  | .failed e | .unreadable e => .error (transportError e false)
  | .invalid text => .error (plainError text true false)
  | .body (.obj data) => .ok data
  | .body _ => .error (plainError "Model response must be a JSON object." true false)

/-! ## Streams -/

/-- A line of the body: bytes that are no UTF-8, or a text. -/
inductive Line where
  | undecodable (error : String)
  | text (s : String)

/-- What a streamed request meets. -/
inductive StreamReply where
  /-- `post` or `raise_for_status` raises. -/
  | failed (e : HttpError)
  /-- The lines that come, and how reading them ends. -/
  | lines (ls : List Line) (broken : Option HttpError)

/-- `json.loads` and `str.strip`. -/
structure Reader where
  loads : String → Option Json
  strip : String → String

variable (r : Reader)

/-- `_TERMINAL_EVENTS`. -/
def terminalEvents : List String :=
  ["response.completed", "response.failed", "response.incomplete", "message_stop", "error"]

/-- What a line says. -/
inductive Said where
  /-- An empty line. -/
  | blank
  /-- A comment, or a field that is not read. -/
  | nothing
  | event (name : Option String)
  | done
  | data (v : Option Json)

def afterField (field s : String) : String := r.strip (String.ofList (s.toList.drop field.length))

def startsWith (s field : String) : Bool := field.toList.isPrefixOf s.toList

def readLine (s : String) : Said :=
  if s = "" then .blank
  else if startsWith s ":" then .nothing
  else if startsWith s "event:" then
    let name := afterField r "event:" s
    .event (if name = "" then none else some name)
  else if startsWith s "data:" then
    let raw := afterField r "data:" s
    if raw = "[DONE]" then .done else .data (r.loads raw)
  else .nothing

/-- `pending_event or (event.get("type") ...)`. -/
def eventName (pending : Option String) (event : Fields) : Option String :=
  match pending with
  | some name => some name
  | none => match isText (event.get "type") with
    | some name => if name = "" then none else some name
    | none => none

def named (event : Fields) : Option String → Fields
  | some name => event.set "__sse_event" (.str name)
  | none => event

/-- The loop over the lines: the events yielded, and the error raised after them. -/
def streamLines (broken : Option HttpError) (pending : Option String) (sawEvent : Bool) :
    List Line → List Fields × Option TransportError
  | [] => ([], some (match broken with
    | some e => transportError e sawEvent
    | none =>
      plainError "Model stream ended before [DONE] or a completion event." (!sawEvent) sawEvent))
  | .undecodable error :: _ => ([], some (plainError error (!sawEvent) sawEvent))
  | .text s :: lines => match readLine r s with
    | .blank => streamLines broken none sawEvent lines
    | .nothing => streamLines broken pending sawEvent lines
    | .event name => streamLines broken name sawEvent lines
    | .done => ([], none)
    | .data none => ([], some (plainError "Invalid JSON." (!sawEvent) sawEvent))
    | .data (some (.obj event)) =>
      let name := eventName pending event
      if name.any fun name => name ∈ terminalEvents then ([named event name], none)
      else
        let (events, error) := streamLines broken none true lines
        (named event name :: events, error)
    | .data (some _) =>
      ([], some (plainError "Stream event must be a JSON object." (!sawEvent) sawEvent))

/-- `stream_json`. -/
def streamJson : StreamReply → List Fields × Option TransportError
  | .failed e => ([], some (transportError e false))
  | .lines ls broken => streamLines r broken none false ls

/-! ## Failures that may pass -/

/-- The connection fails before an event, or the lines do. -/
def linesFailEarly (broken : Option HttpError) : List Line → Bool
  | [] => broken.all HttpError.transient
  | .undecodable _ :: _ => true
  | .text s :: lines => match readLine r s with
    | .done => false
    | .data (some (.obj _)) => false
    | .data _ => true
    | _ => linesFailEarly broken lines

/-- The request fails before any event, in a way that may pass. -/
def StreamReply.failsEarly : StreamReply → Bool
  | .failed e => e.transient
  | .lines ls broken => linesFailEarly r broken ls

/-- `[DONE]` or a terminal event comes. -/
def linesComplete (pending : Option String) : List Line → Bool
  | [] => false
  | .undecodable _ :: _ => false
  | .text s :: lines => match readLine r s with
    | .blank => linesComplete none lines
    | .nothing => linesComplete pending lines
    | .event name => linesComplete name lines
    | .done => true
    | .data (some (.obj event)) =>
      if (eventName pending event).any fun name => name ∈ terminalEvents then true
      else linesComplete none lines
    | .data _ => false

def StreamReply.completes : StreamReply → Bool
  | .failed _ => false
  | .lines ls _ => linesComplete r none ls

def PlainReply.failsEarly : PlainReply → Bool
  | .failed e | .unreadable e => e.transient
  | .invalid _ => true
  | .body (.obj _) => false
  | .body _ => true

variable {r}

theorem streamLines_started {broken : Option HttpError} {pending : Option String}
    {lines : List Line} {events : List Fields} {e : TransportError}
    (h : streamLines r broken pending true lines = (events, some e)) :
    e.retryable = false := by
  induction lines generalizing pending events with
  | nil =>
    cases broken with
    | none =>
      cases h
      rfl
    | some b =>
      cases h
      exact Bool.and_false _
  | cons line lines ih =>
    cases line with
    | undecodable error =>
      cases h
      rfl
    | text s =>
      rw [streamLines] at h
      split at h
      · exact ih h
      · exact ih h
      · exact ih h
      · cases h
      · cases h
        rfl
      · dsimp only at h
        split at h
        · cases h
        · cases h' : streamLines r broken none true lines with
          | mk events' error =>
            rw [h'] at h
            cases h
            exact ih h'
      · cases h
        rfl

/-- **When a stream may be tried again**: it failed early, and then without an event. -/
theorem streamLines_retryable {broken : Option HttpError} {pending : Option String}
    {lines : List Line} {events : List Fields} {error : Option TransportError}
    (h : streamLines r broken pending false lines = (events, error)) :
    ((∃ e, error = some e ∧ e.retryable = true) ↔ linesFailEarly r broken lines = true) ∧
      (linesFailEarly r broken lines = true → events = []) := by
  induction lines generalizing pending with
  | nil =>
    cases broken with
    | none =>
      cases h
      exact ⟨⟨fun _ => rfl, fun _ => ⟨_, rfl, rfl⟩⟩, fun _ => rfl⟩
    | some b =>
      cases h
      simp [linesFailEarly, transportError]
  | cons line lines ih =>
    cases line with
    | undecodable error =>
      cases h
      exact ⟨⟨fun _ => rfl, fun _ => ⟨_, rfl, rfl⟩⟩, fun _ => rfl⟩
    | text s =>
      rw [streamLines] at h
      rw [linesFailEarly]
      split at h
      · next hs => simpa only [hs] using ih h
      · next hs => simpa only [hs] using ih h
      · next hs => simpa only [hs] using ih h
      · next hs =>
        cases h
        simp [hs]
      · next hs =>
        cases h
        simp [hs, plainError]
      · next event hs =>
        simp only [hs]
        refine ⟨⟨fun ⟨e, he, hretry⟩ => ?_, fun hf => (by cases hf)⟩, fun hf => (by cases hf)⟩
        dsimp only at h
        split at h
        · cases h
          cases he
        · cases h' : streamLines r broken none true lines with
          | mk events' error' =>
            rw [h'] at h
            cases h
            subst he
            rw [streamLines_started h'] at hretry
            cases hretry
      · next v hv hs =>
        cases h
        refine ⟨⟨fun _ => ?_, fun _ => ⟨_, rfl, rfl⟩⟩, fun _ => rfl⟩
        rw [hs]
        cases v with
        | obj event => exact absurd rfl (hv event)
        | _ => rfl

theorem streamLines_completes {broken : Option HttpError} {pending : Option String}
    {sawEvent : Bool} {lines : List Line} :
    (streamLines r broken pending sawEvent lines).2 = none ↔
    linesComplete r pending lines = true := by
  induction lines generalizing pending sawEvent with
  | nil => simp [streamLines, linesComplete]
  | cons line lines ih =>
    cases line with
    | undecodable error => simp [streamLines, linesComplete]
    | text s =>
      rw [streamLines, linesComplete]
      cases readLine r s with
      | blank => exact ih
      | nothing => exact ih
      | event name => exact ih
      | done => simp
      | data v =>
        rcases v with _ | v
        · simp
        · cases v with
          | obj event =>
            dsimp only
            split
            · simp
            · exact ih
          | _ => simp

theorem streamJson_retryable (reply : StreamReply) :
    ((∃ e, (streamJson r reply).2 = some e ∧ e.retryable = true) ↔ reply.failsEarly r = true) ∧
      (reply.failsEarly r = true → (streamJson r reply).1 = []) := by
  cases reply with
  | failed e => simp [streamJson, StreamReply.failsEarly, transportError]
  | lines ls broken => exact streamLines_retryable rfl

theorem streamJson_completes (reply : StreamReply) :
    (streamJson r reply).2 = none ↔ reply.completes r = true := by
  cases reply with
  | failed e => simp [streamJson, StreamReply.completes]
  | lines ls broken => exact streamLines_completes

theorem postJson_retryable (reply : PlainReply) :
    (∃ e, postJson reply = .error e ∧ e.retryable = true) ↔ reply.failsEarly = true := by
  cases reply with
  | failed e => simp [postJson, PlainReply.failsEarly, transportError]
  | unreadable e => simp [postJson, PlainReply.failsEarly, transportError]
  | invalid text => simp [postJson, PlainReply.failsEarly, plainError]
  | body v => cases v <;> simp [postJson, PlainReply.failsEarly, plainError]

end MiniAgent.Provider
