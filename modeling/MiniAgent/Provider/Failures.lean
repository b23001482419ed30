import MiniAgent.Lib.Positions
import MiniAgent.Provider.Chunks
import MiniAgent.Provider.Retries

/-!
# Failure events

A provider ends a stream that fails with an `error` or a `response.failed` event. The transport
takes these for the end of the stream, and the parsers skip the kinds of events they do not know, so
that the answer is what the events before the failure make: it is refused only when these are no
answer themselves. The Chat Completions parser has no kinds of events and reads the failure as one
more chunk.
-/

namespace MiniAgent.Provider

open Lib

variable {dec : Decoder} {r : Reader}

/-! ## The first terminal event -/

def failureEvents : List String := ["error", "response.failed"]

/-- The name of the terminal event that ends the lines. -/
def firstTerminal (r : Reader) (pending : Option String) : List Line → Option String
  | [] => none
  | .undecodable _ :: _ => none
  | .text s :: lines => match readLine r s with
    | .blank => firstTerminal r none lines
    | .nothing => firstTerminal r pending lines
    | .event name => firstTerminal r name lines
    | .done => none
    | .data (some (.obj event)) => match eventName pending event with
      | some name => if name ∈ terminalEvents then some name else firstTerminal r none lines
      | none => firstTerminal r none lines
    | .data _ => none

/-- The events before the terminal one, and it, are what the transport yields. -/
theorem streamLines_terminal {broken : Option HttpError} {pending : Option String}
    {sawEvent : Bool} {lines : List Line} {name : String}
    (h : firstTerminal r pending lines = some name) :
    ∃ events last,
    streamLines r broken pending sawEvent lines = (events ++ [last], none) ∧
    last.get "__sse_event" = some (.str name) := by
  induction lines generalizing pending sawEvent with
  | nil => cases h
  | cons line lines ih =>
    cases line with
    | undecodable error => cases h
    | text s =>
      rw [firstTerminal] at h
      rw [streamLines]
      cases hs : readLine r s with
      | blank =>
        rw [hs] at h
        exact ih h
      | nothing =>
        rw [hs] at h
        exact ih h
      | event found =>
        rw [hs] at h
        exact ih h
      | done =>
        rw [hs] at h
        cases h
      | data v =>
        rw [hs] at h
        rcases v with _ | v
        · cases h
        cases v with
        | obj event =>
          dsimp only at h ⊢
          -- an event that does not end the stream is yielded before the rest
          have hrest : firstTerminal r none lines = some name → ∃ events last,
              ((named event (eventName pending event)) :: (streamLines r broken none true lines).1,
                (streamLines r broken none true lines).2) = (events ++ [last], none) ∧
              last.get "__sse_event" = some (.str name) := by
            intro hlater
            have hlines : ∃ events last, streamLines r broken none true lines =
                (events ++ [last], none) ∧
                last.get "__sse_event" = some (.str name) := ih hlater
            obtain ⟨events, last, hlines, hlast⟩ := hlines
            exact ⟨_ :: events, last, by rw [hlines]; rfl, hlast⟩
          rcases hname : eventName pending event with _ | found
          · rw [hname] at h hrest
            exact hrest h
          · rw [hname] at h hrest
            dsimp only at h
            by_cases hterminal : found ∈ terminalEvents
            · rw [if_pos hterminal] at h
              cases h
              refine ⟨[], _, if_pos (by simpa using hterminal), ?_⟩
              simp [named]
            · rw [if_neg hterminal] at h
              rw [if_neg (by simpa using hterminal)]
              exact hrest h
        | _ => cases h

/-! ## Calls that are half built -/

theorem bind_error {ε α β : Type} {x : Except ε α} {f : α → Except ε β} :
    (∃ e, (x >>= f) = .error e) ↔ (∃ e, x = .error e) ∨ ∃ a, x = .ok a ∧ ∃ e, f a = .error e := by
  cases x with
  | error e => exact iff_of_true ⟨e, rfl⟩ (.inl ⟨e, rfl⟩)
  | ok a =>
    rw [ok_bind]
    simp

theorem map_error {ε α β : Type} {x : Except ε α} {f : α → β} :
    (∃ e, f <$> x = .error e) ↔ ∃ e, x = .error e := by
  cases x with
  | error e => exact iff_of_true ⟨e, rfl⟩ ⟨e, rfl⟩
  | ok a => exact iff_of_false nofun nofun

theorem pendingTool_error {name callId : String} {arguments : Json} :
    (∃ e, pendingTool name callId arguments = .error e) ↔ name = "" ∨ callId = "" := by
  by_cases hname : name = ""
  · simp [pendingTool, ToolMessage.pending, ToolMessage.make, hname]
  · by_cases hcall : callId = ""
    · simp [pendingTool, ToolMessage.pending, ToolMessage.make, hname, hcall]
    · simp [pendingTool, ToolMessage.pending, ToolMessage.make, hname, hcall]

/-- A call that is no call yet: its arguments are no JSON, or it has no name or no id. -/
def HalfBuilt (dec : Decoder) (name callId arguments : String) : Prop :=
  dec.decode arguments = none ∨ name = "" ∨ callId = ""

/-- What is made of the calls of a stream, one after the other. -/
theorem error_of_calls {γ : Type} (one : γ → Except ParseError ToolMessage)
    (all : List γ → Except ParseError (List ToolMessage)) {bad : γ → Prop}
    (hnil : all [] = .ok []) (hcons : ∀ call calls, all (call :: calls) = do
      let tool ← one call
      let tools ← all calls
      pure (tool :: tools)) (hone : ∀ call, (∃ e, one call = .error e) ↔ bad call)
    (calls : List γ) :
    (∃ e, all calls = .error e) ↔ ∃ call ∈ calls, bad call := by
  induction calls with
  | nil => simp [hnil]
  | cons call calls ih =>
    rw [hcons]
    rcases hfirst : one call with e | tool
    · have hbad : bad call := (hone call).mp ⟨e, hfirst⟩
      exact iff_of_true ⟨e, rfl⟩ ⟨call, List.mem_cons_self, hbad⟩
    · have hgood : ¬ bad call := fun hbad => by
        obtain ⟨e, he⟩ := (hone call).mpr hbad
        cases hfirst.symm.trans he
      have hrest : (∃ e, (do let tools ← all calls; pure (tool :: tools) : Except ParseError _) =
          .error e) ↔
          ∃ e, all calls = .error e := by
        rcases all calls with e | tools
        · exact iff_of_true ⟨e, rfl⟩ ⟨e, rfl⟩
        · exact iff_of_false (fun ⟨e, he⟩ => nomatch he) fun ⟨e, he⟩ => nomatch he
      refine hrest.trans (ih.trans ?_)
      simp [hgood]

theorem finishCall_error (call : StreamCall) :
    (∃ e, finishCall dec call = .error e) ↔ HalfBuilt dec call.name call.id call.input := by
  unfold finishCall HalfBuilt
  rcases dec.decode call.input with _ | arguments
  · simp
  · simp [pendingTool_error]

theorem messages_finishCalls_error (calls : List StreamCall) :
    (∃ e, finishCalls dec calls = .error e) ↔
      ∃ call ∈ calls, HalfBuilt dec call.name call.id call.input :=
  error_of_calls (finishCall dec) (finishCalls dec) rfl (fun _ _ => rfl) finishCall_error calls

theorem responses_finishCalls_error (calls : List Responses.StreamCall) :
    (∃ e, Responses.finishCalls dec calls = .error e) ↔
      ∃ call ∈ calls, HalfBuilt dec call.name call.callId call.arguments := by
  refine error_of_calls (Responses.finishCall dec) (Responses.finishCalls dec)
    rfl (Responses.finishCalls_cons dec)
    (fun call => ?_) calls
  unfold HalfBuilt Responses.finishCall
  rcases dec.decode call.arguments with _ | arguments
  · exact iff_of_true ⟨_, rfl⟩ (.inl rfl)
  · have hpending : (∃ e, pendingTool call.name call.callId arguments = .error e) ↔
        _ := pendingTool_error
    exact hpending.trans (or_iff_right (Option.some_ne_none arguments)).symm

/-! ## Responses that are refused -/

namespace Responses

/-- Arguments of a function call that are no JSON, or nothing `dict` takes. -/
def NoArguments (dec : Decoder) (v : Option Json) : Prop :=
  match v.getD (.str "\x7b\x7d") with
  | .str s => dec.loads s = none
  | .obj _ => False
  | v => dec.dict v = none

theorem callArguments_error {v : Option Json} :
    (∃ e, callArguments dec v = .error e) ↔ NoArguments dec v := by
  unfold callArguments NoArguments
  cases v.getD (.str "\x7b\x7d") with
  | str s => cases hs : dec.loads s <;> simp [hs]
  | obj f => simp
  | _ =>
    dsimp only
    split <;> simp [*]

/-- An Item that no check lets through: its type is no member of a set, or it is a call without a
name, an id or arguments. -/
def Unreadable (dec : Decoder) (item : Json) : Prop :=
  ∃ f, item = .obj f ∧ ((∃ kind, Fields.get f "type" = some kind ∧ kind.hashable = false) ∨
    Fields.get f "type" = some (.str "function_call") ∧
    (NoArguments dec (Fields.get f "arguments") ∨
      dec.text (Fields.get f "name") = "" ∨
      dec.text (pyOr (Fields.get f "call_id") (Fields.get f "id")) = ""))

theorem addItem_error (out : Output) (item : Json) :
    (∃ e, addItem dec out item = .error e) ↔ Unreadable dec item := by
  cases item with
  | obj f =>
    simp only [addItem, Unreadable, Json.obj.injEq, exists_eq_left']
    rcases Fields.get f "type" with _ | kind
    · simp
    by_cases hhash : kind.hashable = false
    · have hmessage : kind ≠ .str "message" := by
        rintro rfl
        cases hhash
      simp [hmessage, hhash]
    by_cases hcall : kind = .str "function_call"
    · subst hcall
      rcases hread : callArguments dec (Fields.get f "arguments") with e | arguments
      · have hbad : NoArguments dec (Fields.get f "arguments") := callArguments_error.mp ⟨e, hread⟩
        simp [Json.hashable, bind_error, hbad]
      · have hgood : ¬ NoArguments dec (Fields.get f "arguments") := by
          intro hbad
          obtain ⟨e, he⟩ := callArguments_error.mpr hbad
          cases hread.symm.trans he
        have htool : (∃ e, (do
            let tool ← pendingTool (dec.text (Fields.get f "name"))
              (dec.text (pyOr (Fields.get f "call_id") (Fields.get f "id"))) arguments
            pure { out with tools := out.tools ++ [tool] } : Except ParseError Output) = .error e) ↔
              _ :=
          map_error.trans pendingTool_error
        simpa [Json.hashable, hgood, ok_bind] using htool
    · by_cases hmessage : kind = .str "message"
      · simp [hmessage, Json.hashable]
      · by_cases hsummary : kind = .str "reasoning" ∨ kind = .str "summary"
        · simp [hmessage, hhash, hsummary, hcall]
        · simp [hmessage, hhash, hsummary, hcall]
  | _ => simp [addItem, Unreadable]

theorem addItems_error (out : Output) (items : List Json) :
    (∃ e, addItems dec out items = .error e) ↔ ∃ item ∈ items, Unreadable dec item := by
  induction items generalizing out with
  | nil => simp [addItems]
  | cons item items ih =>
    rw [addItems, bind_error, addItem_error, List.exists_mem_cons_iff]
    rcases hfirst : addItem dec out item with e | next
    · simp [(addItem_error out item).mp ⟨e, hfirst⟩]
    · simp [ih]

/-- A response that is refused: it has no output, or an Item of it is refused. -/
def Refused (dec : Decoder) (data : Fields) : Prop :=
  ∀ items, data.get "output" = some (.arr items) → ∃ item ∈ items, Unreadable dec item

theorem parseJson_error {data : Fields} :
    (∃ e, parseJson dec data = .error e) ↔ Refused dec data := by
  unfold parseJson Refused
  split
  · next items hitems =>
    have hpure : ∀ f : Output →
        Prepared, (∃ e, (addItems dec ⟨"", "", []⟩ items >>= fun out => pure (f out)) = .error e) ↔
        ∃ item ∈ items, Unreadable dec item := fun f => map_error.trans (addItems_error _ items)
    rw [hpure]
    simp [hitems]
  · next hnone => exact iff_of_true ⟨_, rfl⟩ fun items hitems => absurd hitems (hnone items)

end Responses

/-! ## Blocks that are refused -/

/-- The ids of the calls, after an event that may begin one. -/
def begun (dec : Decoder) (keys : List String) (event : Fields) : List String :=
  if eventKind dec event = "content_block_start" then match event.get "content_block" with
    | some (.obj block) =>
      if Fields.get block "type" = some (.str "tool_use") then
        let key := match pyOr (Fields.get block "id") none with
          | some v => dec.text (some v)
          | none => toString keys.length
        if key ∈ keys then keys else keys ++ [key]
      else keys
    | _ => keys
  else keys

/-- A fragment of arguments whose index is no integer, or counts back past the first of the
calls. -/
def Misplaced (dec : Decoder) (calls : Nat) (event : Fields) : Prop :=
  eventKind dec event = "content_block_delta" ∧
    (∃ delta fragment, event.get "delta" = some (.obj delta) ∧
      Fields.get delta "partial_json" = some (.str fragment)) ∧
    ∀ index, dec.integer ((event.get "index").getD (.int 0)) = some index → index < -(calls : Int)

theorem addInput_error (s : Streamed) (event : Fields) (fragment : String) :
    (∃ e, addInput dec s event fragment = .error e) ↔
    ∀ index, dec.integer ((event.get "index").getD (.int 0)) = some index →
      index < -(s.calls.length : Int) := by
  unfold addInput
  rcases dec.integer ((event.get "index").getD (.int 0)) with _ | index
  · simp
  · simp only [Option.some.injEq, forall_eq']
    by_cases hlt : index < s.calls.length
    · rw [if_pos hlt]
      unfold Turn.NodeWriter.pyIndex
      by_cases hpos : 0 ≤ index
      · have hnat : index.toNat < s.calls.length := by omega
        simp [hpos, hnat]
        omega
      · by_cases hback : 0 ≤ (s.calls.length : Int) + index
        · simp [hpos, hback]
          omega
        · simp [hpos, hback]
          omega
    · rw [if_neg hlt]
      simp
      omega

theorem addEvent_error (s : Streamed) (event : Fields) :
    (∃ e, addEvent dec s event = .error e) ↔ Misplaced dec s.calls.length event := by
  unfold addEvent Misplaced
  dsimp only
  by_cases hstart : eventKind dec event = "content_block_start"
  · simp [hstart]
  by_cases hdelta : eventKind dec event = "content_block_delta"
  · have hkind : ("content_block_delta" : String) ≠ "content_block_start" := by decide
    simp only [hdelta, hkind, true_and, if_true, if_false, addDelta]
    split
    · next delta hget =>
      rcases hpartial : isText (Fields.get delta "partial_json") with _ | fragment
      · have hnone : ∀ t, Fields.get delta "partial_json" ≠ some (.str t) := by
          intro t ht
          rw [ht] at hpartial
          cases hpartial
        simp [hget, hnone]
      · have htext : Fields.get delta "partial_json" = some (.str fragment) := by
          unfold isText at hpartial
          split at hpartial
          · next t ht =>
            cases hpartial
            exact ht
          · cases hpartial
        rw [addInput_error]
        rcases isText (Fields.get delta "text") with _ | t <;>
          rcases isText (Fields.get delta "thinking") with _ | u
        all_goals simp [hget, htext]
    · next hnone =>
      refine iff_of_false nofun ?_
      rintro ⟨⟨delta, fragment, hget, -⟩, -⟩
      exact hnone delta hget
  · simp only [hstart, hdelta, if_false, false_and, iff_false, not_exists]
    intro e
    split <;> (try split) <;> nofun

theorem putCall_ids (calls : List StreamCall) (call : StreamCall) :
    (putCall calls call).map StreamCall.id =
    if call.id ∈ calls.map StreamCall.id then calls.map StreamCall.id
      else calls.map StreamCall.id ++ [call.id] := by
  have hmem : (calls.any fun c => c.id == call.id) = true ↔
      call.id ∈ calls.map StreamCall.id := by simp
  rw [putCall]
  by_cases h : (calls.any fun c => c.id == call.id) = true
  · rw [if_pos h, if_pos (hmem.mp h), List.map_map]
    refine List.map_congr_left fun c _ => ?_
    simp only [Function.comp]
    split
    · next heq => exact heq.symm
    · rfl
  · rw [if_neg h, if_neg (fun hin => h (hmem.mpr hin)), List.map_append]
    rfl

theorem addInput_ids {s s' : Streamed} {event : Fields} {fragment : String}
    (h : addInput dec s event fragment = .ok s') :
    s'.calls.map StreamCall.id = s.calls.map StreamCall.id := by
  unfold addInput at h
  split at h
  · cases h
  · split at h
    · split at h
      · cases h
        exact map_modify fun _ => rfl
      · cases h
    · cases h
      rfl

/-- Text and reasoning are no calls. -/
theorem addDelta_ids {s s' : Streamed} {event : Fields} (h : addDelta dec s event = .ok s') :
    s'.calls.map StreamCall.id = s.calls.map StreamCall.id := by
  unfold addDelta at h
  split at h
  · next delta _ =>
    rcases htext : isText (Fields.get delta "text") with _ | t <;>
      rcases hthinking : isText (Fields.get delta "thinking") with _ | u <;>
      rcases hpartial : isText (Fields.get delta "partial_json") with _ | fragment <;>
      simp only [htext, hthinking, hpartial] at h
    all_goals first
      | exact (addInput_ids h :)
      | cases h; rfl
  · cases h
    rfl

theorem addEvent_begun {s s' : Streamed} {event : Fields} (h : addEvent dec s event = .ok s') :
    s'.calls.map StreamCall.id = begun dec (s.calls.map StreamCall.id) event := by
  unfold addEvent at h
  unfold begun
  dsimp only at h
  split at h
  · next hkind =>
    cases h
    rw [if_pos hkind, addStart]
    rcases event.get "content_block" with _ | v
    · rfl
    cases v with
    | obj block =>
      dsimp only
      by_cases htool : Fields.get block "type" = some (.str "tool_use")
      · rw [if_pos htool, if_pos htool, List.length_map]
        exact putCall_ids ..
      · rw [if_neg htool, if_neg htool]
    | _ => rfl
  · next hkind =>
    rw [if_neg hkind]
    split at h
    · exact addDelta_ids h
    · split at h
      · cases h
        unfold addMessageDelta
        split <;> split <;> rfl
      · split at h
        · cases h
          unfold addMessageStart
          split
          · split <;> rfl
          · rfl
        · cases h
          rfl

/-- The events are refused where one of them is misplaced. -/
theorem addEvents_error (s : Streamed) (events : List Fields) :
    (∃ e, addEvents dec s events = .error e) ↔
    ∃ before event after, events = before ++ event :: after ∧
      Misplaced dec (before.foldl (begun dec) (s.calls.map StreamCall.id)).length event := by
  induction events generalizing s with
  | nil => simp [addEvents]
  | cons event events ih =>
    rw [addEvents, bind_error, addEvent_error]
    constructor
    · rintro (hfirst | ⟨s', hs, hrest⟩)
      · exact ⟨[], event, events, rfl, by simpa using hfirst⟩
      · obtain ⟨before, later, after, rfl, hlater⟩ := (ih s').mp hrest
        refine ⟨event :: before, later, after, rfl, ?_⟩
        rwa [List.foldl_cons, ← addEvent_begun hs]
    · rintro ⟨before, later, after, heq, hlater⟩
      rcases hs : addEvent dec s event with e | s'
      · exact .inl ((addEvent_error s event).mp ⟨e, hs⟩)
      · rcases before with _ | ⟨first, before⟩
        · cases heq
          exact .inl (by simpa using hlater)
        · cases heq
          refine .inr ⟨s', rfl, (ih s').mpr ⟨before, later, after, rfl, ?_⟩⟩
          rwa [List.foldl_cons, ← addEvent_begun hs] at hlater

/-! ## What is made of the events before the failure -/

/-- **The events before the failure are no answer themselves.** -/
def NoAnswer (dec : Decoder) (events : List Fields) (failure : Fields) : Protocol → Prop
  | .responses =>
    let s := events.foldl (Responses.addEvent dec) .new
    match s.final with
    | some final => Responses.Refused dec final
    | none => ∃ call ∈ s.calls.values, HalfBuilt dec call.name call.callId call.arguments
  | .messages => (∃ before event after, events = before ++ event :: after ∧
      Misplaced dec (before.foldl (begun dec) []).length event) ∨
    ∃ s, addEvents dec .new events = .ok s ∧
      ∃ call ∈ s.calls, HalfBuilt dec call.name call.id call.input
  | .chatCompletions => ¬ Chat.Answers dec (events ++ [failure])

variable {events : List Fields} {failure : Fields} {name : String}

theorem eventKind_failure (hname : name ∈ failureEvents)
    (h : failure.get "__sse_event" = some (.str name)) :
    eventKind dec failure = name := by
  have hne : name ≠ "" := by
    rintro rfl
    exact absurd hname (by decide)
  simp [eventKind, h, pyOr, Json.truthy, hne, Decoder.text]

/-- The Responses parser skips the failure. -/
theorem responses_skips (s : Responses.Streamed) (hname : name ∈ failureEvents)
    (h : failure.get "__sse_event" = some (.str name)) : Responses.addEvent dec s failure = s := by
  have hcases : name = "error" ∨ name = "response.failed" := by simpa [failureEvents] using hname
  rw [Responses.addEvent, eventKind_failure hname h]
  rcases hcases with rfl | rfl <;> rfl

/-- So does the Messages parser. -/
theorem messages_skips (s : Streamed) (hname : name ∈ failureEvents)
    (h : failure.get "__sse_event" = some (.str name)) :
    addEvent dec s failure = .ok s := by
  have hcases : name = "error" ∨ name = "response.failed" := by simpa [failureEvents] using hname
  rw [addEvent, eventKind_failure hname h]
  rcases hcases with rfl | rfl <;> rfl

theorem foldlM_ok {α β ε : Type} (f : β → α → β) (s : β) (l : List α) :
    (l.foldlM (fun s a => (.ok (f s a) : Except ε β)) s) = .ok (l.foldl f s) := by
  induction l generalizing s with
  | nil => rfl
  | cons a l ih =>
    rw [List.foldlM_cons, List.foldl_cons]
    exact ih (f s a)

theorem responses_answer (hname : name ∈ failureEvents)
    (h : failure.get "__sse_event" = some (.str name)) :
    (∃ e, ((events ++ [failure]).foldlM (responsesParser dec).add (responsesParser dec).start >>=
      (responsesParser dec).finish) = .error e) ↔ NoAnswer dec events failure .responses := by
  have hfold : (events ++ [failure]).foldlM (responsesParser dec).add (responsesParser dec).start =
      .ok (events.foldl (Responses.addEvent dec) .new) := by
    refine (foldlM_ok (Responses.addEvent dec) .new (events ++ [failure])).trans
      (congrArg Except.ok ?_)
    rw [List.foldl_append]
    exact responses_skips _ hname h
  rw [hfold]
  show (∃ e, Responses.finish dec (events.foldl (Responses.addEvent dec) .new) = .error e) ↔ _
  unfold NoAnswer Responses.finish
  dsimp only
  rcases (events.foldl (Responses.addEvent dec) .new).final with _ | final
  · rw [← responses_finishCalls_error]
    dsimp only
    rcases Responses.finishCalls dec _ with e | tools
    · exact iff_of_true ⟨e, rfl⟩ ⟨e, rfl⟩
    · exact iff_of_false (fun ⟨e, he⟩ => nomatch he) fun ⟨e, he⟩ => nomatch he
  · show _ ↔ Responses.Refused dec final
    rw [← Responses.parseJson_error]
    dsimp only
    rcases Responses.parseJson dec final with e | parsed
    · exact iff_of_true ⟨e, rfl⟩ ⟨e, rfl⟩
    · exact iff_of_false (fun ⟨e, he⟩ => nomatch he) fun ⟨e, he⟩ => nomatch he

theorem messages_answer (hname : name ∈ failureEvents)
    (h : failure.get "__sse_event" = some (.str name)) :
    (∃ e, ((events ++ [failure]).foldlM (messagesParser dec).add (messagesParser dec).start >>=
      (messagesParser dec).finish) = .error e) ↔ NoAnswer dec events failure .messages := by
  have hfold : (events ++ [failure]).foldlM (messagesParser dec).add (messagesParser dec).start =
      addEvents dec .new events := by
    rw [List.foldlM_append, addEvents_eq_foldlM]
    show (events.foldlM (addEvent dec) .new >>= fun s => [failure].foldlM (addEvent dec) s) = _
    refine (bind_congr fun s => ?_).trans (bind_pure _)
    rw [List.foldlM_cons, messages_skips s hname h]
    rfl
  have hsplit : NoAnswer dec events failure .messages ↔
      (∃ e, addEvents dec .new events = .error e) ∨
      ∃ s, addEvents dec .new events = .ok s ∧
        ∃ call ∈ s.calls, HalfBuilt dec call.name call.id call.input :=
    or_congr (addEvents_error .new events).symm Iff.rfl
  rw [hfold, hsplit]
  rcases addEvents dec .new events with e | s
  · exact iff_of_true ⟨e, rfl⟩ (.inl ⟨e, rfl⟩)
  · have hfinish : (∃ e, (messagesParser dec).finish s = .error e) ↔
        ∃ e, finishCalls dec s.calls = .error e := by
      show (∃ e, (do
        let tools ← finishCalls dec s.calls
        pure (⟨joined s.text, joined s.reasoning, tools, s.usage, none, none, s.stopReason⟩ :
          Prepared)) = .error e) ↔ _
      rcases finishCalls dec s.calls with e | tools
      · exact iff_of_true ⟨e, rfl⟩ ⟨e, rfl⟩
      · exact iff_of_false (fun ⟨e, he⟩ => nomatch he) fun ⟨e, he⟩ => nomatch he
    refine hfinish.trans ((messages_finishCalls_error s.calls).trans ?_)
    simp

theorem mapError_inr {α β γ : Type} {x y : Except β γ}
    (h : x.mapError (Sum.inr : β → α ⊕ β) = y.mapError Sum.inr) : x = y := by
  rcases x with a | a <;> rcases y with b | b <;> cases h <;> rfl

theorem chat_answer :
    (∃ e, ((events ++ [failure]).foldlM (chatParser dec).add (chatParser dec).start >>=
      (chatParser dec).finish) = .error e) ↔ NoAnswer dec events failure .chatCompletions := by
  have hparse : ((events ++ [failure]).foldlM (chatParser dec).add (chatParser dec).start >>=
      (chatParser dec).finish) =
      Chat.parseStream dec ((events ++ [failure]).map .obj) := by
    have hmapped := chatParser_parseStream dec (events ++ [failure])
    rw [EventParser.consume_complete] at hmapped
    exact mapError_inr hmapped
  show _ ↔ ¬ Chat.Answers dec (events ++ [failure])
  rw [hparse, ← Chat.parseStream_iff]
  rcases Chat.parseStream dec ((events ++ [failure]).map .obj) with e | prepared
  · exact iff_of_true ⟨e, rfl⟩ fun ⟨_, h⟩ => nomatch h
  · exact iff_of_false (fun ⟨_, h⟩ => nomatch h) fun h => h ⟨prepared, rfl⟩

/-- A stream that ends with a failure event is refused exactly when the events before it are no
answer themselves. -/
theorem failure_raises (dec : Decoder) (r : Reader) (p : Protocol) (lines : List Line)
    (broken : Option HttpError) (name : String) (hfirst : firstTerminal r none lines = some name)
    (hname : name ∈ failureEvents) :
    ∃ events failure, streamJson r (.lines lines broken) = (events ++ [failure], none) ∧
      failure.get "__sse_event" = some (.str name) ∧
      ((∃ e, (LLMClient.runOnce dec r p (.streamed fun _ => .lines lines broken) 0).outcome =
          .error e) ↔
        NoAnswer dec events failure p) := by
  obtain ⟨events, failure, hstream, hkind⟩ : ∃ events last, streamJson r (.lines lines broken) =
      (events ++ [last], none) ∧
    last.get "__sse_event" = some (.str name) := streamLines_terminal hfirst
  refine ⟨events, failure, hstream, hkind, ?_⟩
  have hrun : (LLMClient.runOnce dec r p (.streamed fun _ => .lines lines broken) 0).outcome =
      ((((events ++ [failure]).foldlM (p.parser dec).add (p.parser dec).start >>=
        (p.parser dec).finish)).mapError
        Sum.inr).mapError p.raised := by
    rw [← EventParser.consume_complete, LLMClient.runOnce, hstream]
  have herror : ∀ x : Except ParseError Prepared, (∃ e, (x.mapError Sum.inr).mapError p.raised =
      .error e) ↔ ∃ e, x = .error e := by
    intro x
    rcases x with e | prepared
    · exact iff_of_true ⟨_, rfl⟩ ⟨e, rfl⟩
    · refine iff_of_false ?_ ?_
      · rintro ⟨e, he⟩
        cases he
      · rintro ⟨e, he⟩
        cases he
  rw [hrun, herror]
  cases p with
  | chatCompletions => exact chat_answer
  | responses => exact responses_answer hname hkind
  | messages => exact messages_answer hname hkind

/-! ## A stream that fails in the middle -/

def deltaLine : String := "\x7b\"type\":\"response.output_text.delta\",\"delta\":\"half\"\x7d"

def callLine : String :=
  "\x7b\"type\":\"response.output_item.added\"," ++
  "\"item\":\x7b\"type\":\"function_call\",\"call_id\":\"c1\"\x7d\x7d"

def failedLine : String := "\x7b\"type\":\"response.failed\"\x7d"

/-- The values of the three lines. -/
def failureReader : Reader where
  loads := fun s =>
    if s = deltaLine then
      some (.obj [("type", .str "response.output_text.delta"), ("delta", .str "half")])
    else if s = callLine then some (.obj [("type", .str "response.output_item.added"),
      ("item", .obj [("type", .str "function_call"), ("call_id", .str "c1")])])
    else if s = failedLine then some (.obj [("type", .str "response.failed")])
    else none
  strip := fun s => s

/-- The event of the call, as the transport yields it. -/
def callEvent : Fields := [("type", .str "response.output_item.added"),
  ("item", .obj [("type", .str "function_call"), ("call_id", .str "c1")]),
    ("__sse_event", .str "response.output_item.added")]

/-- The failure comes before the name of a call. -/
theorem failure_raises_half_built :
    ∃ e, (LLMClient.runOnce emptyDecoder failureReader .responses
      (.streamed fun _ => .lines [.text ("data:" ++ callLine), .text ("data:" ++ failedLine)] none)
        0).outcome = .error e := by
  obtain ⟨events, failure, hstream, -, hiff⟩ := failure_raises emptyDecoder failureReader .responses
    [.text ("data:" ++ callLine), .text ("data:" ++ failedLine)] none "response.failed"
      (by decide +kernel) (by decide)
  have hread : streamJson failureReader
      (.lines [.text ("data:" ++ callLine), .text ("data:" ++ failedLine)] none) =
      ([callEvent] ++ [[("type", .str "response.failed"), ("__sse_event", .str "response.failed")]],
        none) := rfl
  have hevents : [callEvent] = events :=
    (List.append_inj' (Prod.mk.inj (hread.symm.trans hstream)).1 rfl).1
  subst hevents
  refine hiff.mpr ⟨⟨"", "c1", ""⟩, ?_, .inr (.inl rfl)⟩
  exact List.mem_cons_self

/-- The text before the failure is taken for the answer. -/
theorem failure_answers : ∃ prepared,
    firstTerminal failureReader none [.text ("data:" ++ deltaLine), .text ("data:" ++ failedLine)] =
      some "response.failed" ∧
    (LLMClient.runOnce emptyDecoder failureReader .responses
      (.streamed fun _ => .lines [.text ("data:" ++ deltaLine), .text ("data:" ++ failedLine)] none)
        0).outcome = .ok prepared ∧
    prepared.content = some "half" := by
  refine ⟨⟨some "half", none, [], none, none, none, none⟩, by decide +kernel, ?_, rfl⟩
  rfl

end MiniAgent.Provider
