import MiniAgent.Provider.Chunking
import MiniAgent.Provider.Client

/-!
# The preview of a message

While a stream is read, its text and its reasoning are passed on as they come, and the message is
made of the stream in the end. `preview_is_message` says for each adapter what the chunks and the
message have to do with each other. In the Messages adapter they are the same. The Responses adapter
takes the text of the completed response when there was no delta, and has not shown it then. The
Chat Completions adapter shows the content of choice 0 and answers with the choice of the least
index.
-/

namespace MiniAgent.Provider

open Lib

/-! ## Chunks -/

def StreamOutput.content? : StreamOutput → Option String
  | .content s => some s
  | .reasoning _ => none

def StreamOutput.reasoning? : StreamOutput → Option String
  | .content _ => none
  | .reasoning s => some s

/-- What is passed to `on_content`. -/
def contentChunks (outputs : List StreamOutput) : String :=
  String.join (outputs.filterMap StreamOutput.content?)

/-- What is passed to `on_reasoning`. -/
def reasoningChunks (outputs : List StreamOutput) : String :=
  String.join (outputs.filterMap StreamOutput.reasoning?)

@[simp] theorem contentChunks_nil : contentChunks [] = "" := rfl

@[simp] theorem reasoningChunks_nil : reasoningChunks [] = "" := rfl

@[simp] theorem contentChunks_append (a b : List StreamOutput) :
    contentChunks (a ++ b) = contentChunks a ++ contentChunks b := by
  simp [contentChunks]

@[simp] theorem reasoningChunks_append (a b : List StreamOutput) :
    reasoningChunks (a ++ b) = reasoningChunks a ++ reasoningChunks b := by
  simp [reasoningChunks]

@[simp] theorem contentChunks_outputList (content reasoning : Option String) :
    contentChunks (outputList content reasoning) = content.getD "" := by
  cases content <;> cases reasoning <;>
    simp [contentChunks, outputList, List.filterMap_cons, StreamOutput.content?]

@[simp] theorem reasoningChunks_outputList (content reasoning : Option String) :
    reasoningChunks (outputList content reasoning) = reasoning.getD "" := by
  cases content <;> cases reasoning <;>
    simp [reasoningChunks, outputList, List.filterMap_cons, StreamOutput.reasoning?]

@[simp] theorem contentChunks_content (s : String) : contentChunks [.content s] = s := by
  simp [contentChunks, StreamOutput.content?]

@[simp] theorem reasoningChunks_content (s : String) : reasoningChunks [.content s] = "" := rfl

theorem join_toList (t : Option String) : String.join t.toList = t.getD "" := by
  cases t <;> simp

theorem joined_getD (parts : List String) : (joined parts).getD "" = String.join parts := by
  rw [joined]
  split
  · next h => rw [h]; rfl
  · rfl

/-! ## Reading a stream -/

/-- **What holds after each event holds of the message.** -/
theorem EventParser.consume_induct (p : EventParser)
    {R : List Fields → p.State → List StreamOutput → Prop}
    {events : List Fields} {prepared : Prepared} (hstart : R [] p.start [])
    (hstep : ∀ past s outputs event s', R past s outputs → p.add s event = .ok s' →
      R (past ++ [event]) s' (outputs ++ p.outputs s event))
    (h : (p.consume none p.start events).2 = .ok prepared) :
    ∃ s, p.finish s = .ok prepared ∧ R events s (p.consume none p.start events).1 := by
  -- the events before a state, the state and its outputs stand for the start
  have hrun : ∀ past s outputs, R past s outputs → (p.consume none s events).2 = .ok prepared →
      ∃ s', p.finish s' = .ok prepared ∧
        R (past ++ events) s' (outputs ++ (p.consume none s events).1) := by
    clear h
    induction events with
    | nil =>
      intro past s outputs hR hfinish
      rw [consume] at hfinish ⊢
      refine ⟨s, ?_, by simpa using hR⟩
      rcases hs : p.finish s with e | prepared'
      · rw [hs] at hfinish
        cases hfinish
      · rw [hs] at hfinish
        cases hfinish
        rfl
    | cons event events ih =>
      intro past s outputs hR hfinish
      rw [consume] at hfinish ⊢
      rcases hs : p.add s event with e | s'
      · rw [hs] at hfinish
        cases hfinish
      · rw [hs] at hfinish
        obtain ⟨last, hlast, hRlast⟩ := ih _ _ _ (hstep past s outputs event s' hR hs) hfinish
        exact ⟨last, hlast, by simpa using hRlast⟩
  simpa using hrun [] p.start [] hstart h

variable {dec : Decoder} {events : List Fields} {prepared : Prepared}

/-! ## The Messages adapter -/

/-- The text and the reasoning of an event. -/
def messagesSays (dec : Decoder) (event : Fields) : Option String × Option String :=
  match event.get "delta" with
  | some (.obj delta) => if eventKind dec event = "content_block_delta" then
      (isText (Fields.get delta "text"), isText (Fields.get delta "thinking"))
    else (none, none)
  | _ => (none, none)

theorem messagesOutputs_eq (event : Fields) :
    messagesOutputs dec event = outputList (messagesSays dec event).1
      (messagesSays dec event).2 := by
  unfold messagesOutputs messagesSays
  rcases event.get "delta" with _ | delta
  · rfl
  cases delta with
  | obj delta =>
    by_cases hkind : eventKind dec event = "content_block_delta"
    · simp only [if_pos hkind]
    · simp only [if_neg hkind]
      rfl
  | _ => rfl

theorem messagesSays_delta {event delta : Fields} (hdelta : event.get "delta" = some (.obj delta))
    (hkind : eventKind dec event = "content_block_delta") :
    messagesSays dec event = (isText (delta.get "text"), isText (delta.get "thinking")) := by
  rw [messagesSays, hdelta]
  exact if_pos hkind

theorem messagesSays_none {event : Fields}
    (hdelta : ∀ delta, event.get "delta" ≠ some (.obj delta)) :
    messagesSays dec event = (none, none) := by
  unfold messagesSays
  rcases h : event.get "delta" with _ | delta
  · rfl
  cases delta with
  | obj delta => exact absurd h (hdelta delta)
  | _ => rfl

theorem addInput_texts {s s' : Streamed} {event : Fields} {fragment : String}
    (h : addInput dec s event fragment = .ok s') :
    s'.text = s.text ∧ s'.reasoning = s.reasoning := by
  unfold addInput at h
  split at h
  · cases h
  · split at h
    · split at h
      · cases h
        exact ⟨rfl, rfl⟩
      · cases h
    · cases h
      exact ⟨rfl, rfl⟩

theorem addStart_texts (s : Streamed) (event : Fields) :
    (addStart dec s event).text = s.text ∧ (addStart dec s event).reasoning = s.reasoning := by
  unfold addStart
  split
  · split
    · exact ⟨rfl, rfl⟩
    · exact ⟨rfl, rfl⟩
  · exact ⟨rfl, rfl⟩

theorem addMessageDelta_texts (s : Streamed) (event : Fields) :
    (addMessageDelta dec s event).text = s.text ∧ (addMessageDelta dec s event).reasoning =
      s.reasoning := by
  unfold addMessageDelta
  dsimp only
  split <;> split <;> exact ⟨rfl, rfl⟩

theorem addMessageStart_texts (s : Streamed) (event : Fields) :
    (addMessageStart s event).text = s.text ∧ (addMessageStart s event).reasoning =
      s.reasoning := by
  unfold addMessageStart
  split
  · split <;> exact ⟨rfl, rfl⟩
  · exact ⟨rfl, rfl⟩

theorem addPartial_texts {s s' : Streamed} {event delta : Fields}
    (h : (match isText (delta.get "partial_json") with
    | some t => addInput dec s event t
    | none => .ok s) = .ok s') : s'.text = s.text ∧ s'.reasoning = s.reasoning := by
  split at h
  · exact addInput_texts h
  · cases h
    exact ⟨rfl, rfl⟩

theorem addDelta_texts {s s' : Streamed} {event : Fields} (h : addDelta dec s event = .ok s')
    (hkind : eventKind dec event = "content_block_delta") :
    s'.text = s.text ++ (messagesSays dec event).1.toList ∧
    s'.reasoning = s.reasoning ++ (messagesSays dec event).2.toList := by
  unfold addDelta at h
  split at h
  · next delta hdelta =>
    rw [messagesSays_delta hdelta hkind]
    obtain ⟨htext, hreasoning⟩ := addPartial_texts h
    rw [htext, hreasoning]
    dsimp only
    rcases isText (Fields.get delta "text") with _ | t <;>
      rcases isText (Fields.get delta "thinking") with _ | r <;> simp
  · next hdelta =>
    cases h
    rw [messagesSays_none hdelta]
    simp

/-- **What an event adds to the texts of the Messages adapter.** -/
theorem messages_addEvent_texts {s s' : Streamed} {event : Fields}
    (h : addEvent dec s event = .ok s') :
    s'.text = s.text ++ (messagesSays dec event).1.toList ∧
    s'.reasoning = s.reasoning ++ (messagesSays dec event).2.toList := by
  by_cases hdelta : eventKind dec event = "content_block_delta"
  · have hadd : addDelta dec s event = .ok s' := by simpa [addEvent, hdelta] using h
    exact addDelta_texts hadd hdelta
  · have hnothing : messagesSays dec event = (none, none) := by
      rcases h : event.get "delta" with _ | delta
      · exact messagesSays_none fun delta heq => nomatch h.symm.trans heq
      cases delta with
      | obj delta =>
        rw [messagesSays, h]
        exact if_neg hdelta
      | _ => exact messagesSays_none fun delta heq => nomatch h.symm.trans heq
    rw [hnothing]
    simp only [Option.toList_none, List.append_nil]
    unfold addEvent at h
    dsimp only at h
    split at h
    · cases h
      exact addStart_texts s event
    · split at h
      · cases h
        exact addMessageDelta_texts s event
      split at h
      · cases h
        exact addMessageStart_texts s event
      · cases h
        exact ⟨rfl, rfl⟩

/-- The preview is the message. -/
theorem messages_preview
    (h : ((messagesParser dec).consume none (messagesParser dec).start events).2 = .ok prepared) :
    contentChunks ((messagesParser dec).consume none (messagesParser dec).start events).1 =
      prepared.content.getD "" ∧
    reasoningChunks ((messagesParser dec).consume none (messagesParser dec).start events).1 =
      prepared.reasoning.getD "" := by
  obtain ⟨s, hfinish, hcontent, hreasoning⟩ := (messagesParser dec).consume_induct
    (R := fun _ (s : Streamed) outputs => contentChunks outputs = String.join s.text ∧
      reasoningChunks outputs = String.join s.reasoning)
    ⟨rfl, rfl⟩ (fun past s outputs event s' hR hadd => by
      obtain ⟨htext, hreasoning⟩ := messages_addEvent_texts hadd
      show contentChunks (outputs ++ messagesOutputs dec event) = _ ∧
        reasoningChunks (outputs ++ messagesOutputs dec event) = _
      rw [messagesOutputs_eq, htext, hreasoning]
      simp [hR.1, hR.2, join_toList]) h
  have hmessage : prepared.content = joined s.text ∧ prepared.reasoning = joined s.reasoning := by
    simp only [messagesParser, bind_ok, pure_ok] at hfinish
    obtain ⟨tools, -, rfl⟩ := hfinish
    exact ⟨rfl, rfl⟩
  rw [hmessage.1, hmessage.2, joined_getD, joined_getD]
  exact ⟨hcontent, hreasoning⟩

/-! ## The Responses adapter -/

namespace Responses

def textDelta? (dec : Decoder) (event : Fields) : Option String :=
  if eventKind dec event = "response.output_text.delta" then deltaText event else none

def reasoningDelta? (dec : Decoder) (event : Fields) : Option String :=
  if eventKind dec event = "response.reasoning_text.delta" ∨
    eventKind dec event = "response.reasoning_summary_text.delta" then
    deltaText event
  else none

/-- The response of a `response.completed`. -/
def completed? (dec : Decoder) (event : Fields) : Option Fields :=
  if eventKind dec event = "response.completed" then match event.get "response" with
    | some (.obj response) => some response
    | _ => none
  else none

def finalResponse (dec : Decoder) (events : List Fields) : Option Fields :=
  (events.filterMap (completed? dec)).getLast?

/-- The texts of the messages of a response. -/
def messageText? : Json → Option String
  | .obj item =>
    if Fields.get item "type" = some (.str "message") then
      some (textContent (Fields.get item "content"))
    else none
  | _ => none

def summaryText? : Json → Option String
  | .obj item =>
    if Fields.get item "type" = some (.str "reasoning") ∨
      Fields.get item "type" = some (.str "summary") then
      some (textContent (pyOr (Fields.get item "summary") (Fields.get item "content")))
    else none
  | _ => none

def outputOf (response : Fields) : List Json := match response.get "output" with
  | some (.arr items) => items
  | _ => []

def responseText (response : Fields) : String :=
  String.join ((outputOf response).filterMap messageText?)

def responseReasoning (response : Fields) : String :=
  String.join ((outputOf response).filterMap summaryText?)

/-- **What an event adds.** -/
theorem addEvent_texts (dec : Decoder) (s : Streamed) (event : Fields) :
    (addEvent dec s event).text = s.text ++ (textDelta? dec event).toList ∧
    (addEvent dec s event).reasoning = s.reasoning ++ (reasoningDelta? dec event).toList ∧
    (addEvent dec s event).final = (completed? dec event).or s.final := by
  unfold addEvent textDelta? reasoningDelta? completed?
  dsimp only
  by_cases htext : eventKind dec event = "response.output_text.delta"
  · simp [htext]
  by_cases hreasoning : eventKind dec event = "response.reasoning_text.delta" ∨
      eventKind dec event = "response.reasoning_summary_text.delta"
  · have hnot : eventKind dec event ≠ "response.completed" := by
      rcases hreasoning with h | h <;> rw [h] <;> decide
    simp [htext, hreasoning, hnot]
  rw [if_neg htext, if_neg hreasoning, if_neg htext, if_neg hreasoning]
  by_cases hcompleted : eventKind dec event = "response.completed"
  · rw [hcompleted]
    simp only [reduceIte, String.reduceEq, addCompleted]
    rcases event.get "response" with _ | response
    · simp
    cases response <;> simp
  · rw [if_neg hcompleted, if_neg hcompleted]
    by_cases hadded : eventKind dec event = "response.output_item.added"
    · rw [if_pos hadded]
      unfold addCall
      split
      · split <;> simp
      · simp
    · rw [if_neg hadded]
      split <;> simp [addArguments]

theorem outputs_deltas (event : Fields) :
    responsesOutputs dec event = outputList (textDelta? dec event) (reasoningDelta? dec event) := by
  unfold responsesOutputs textDelta? reasoningDelta?
  dsimp only
  by_cases htext : eventKind dec event = "response.output_text.delta"
  · have hnot : ¬ (eventKind dec event = "response.reasoning_text.delta" ∨
        eventKind dec event = "response.reasoning_summary_text.delta") := by
      rw [htext]
      decide
    rw [if_pos htext, if_pos htext, if_neg hnot]
  · rw [if_neg htext, if_neg htext]
    split <;> rfl

/-- What a response parses to. -/
theorem addItems_texts {out out' : Output} {items : List Json}
    (h : addItems dec out items = .ok out') :
    out'.content = out.content ++ String.join (items.filterMap messageText?) ∧
    out'.reasoning = out.reasoning ++ String.join (items.filterMap summaryText?) := by
  induction items generalizing out with
  | nil =>
    cases h
    simp
  | cons item items ih =>
    rw [addItems, bind_ok] at h
    obtain ⟨next, hitem, hrest⟩ := h
    have hnext : next.content = out.content ++ (messageText? item).getD "" ∧
        next.reasoning = out.reasoning ++ (summaryText? item).getD "" := by
      unfold addItem at hitem
      unfold messageText? summaryText?
      split at hitem
      · next item =>
        dsimp only at hitem ⊢
        split at hitem
        · next hmessage =>
          cases hitem
          simp [hmessage]
        split at hitem
        · cases hitem
        split at hitem
        · next hmessage _ hsummary =>
          cases hitem
          simp [hmessage, hsummary]
        · next hmessage _ hsummary =>
          simp only [hmessage, hsummary, if_false, Option.getD_none, String.append_empty]
          split at hitem
          · simp only [bind_ok, pure_ok] at hitem
            obtain ⟨-, -, -, -, rfl⟩ := hitem
            exact ⟨rfl, rfl⟩
          · cases hitem
            exact ⟨rfl, rfl⟩
      · next hother =>
        cases hitem
        cases item with
        | obj f => exact absurd rfl (hother f)
        | _ => simp
    obtain ⟨hcontent, hreasoning⟩ := ih hrest
    rw [hcontent, hreasoning, hnext.1, hnext.2, List.filterMap_cons, List.filterMap_cons]
    rcases messageText? item with _ | t <;> rcases summaryText? item with _ | r <;>
      simp [String.append_assoc]

theorem orNone_getD (s : String) : (orNone s).getD "" = s := by
  unfold orNone
  split
  · next h => rw [h]; rfl
  · rfl

theorem parseJson_texts {response : Fields} {parsed : Prepared}
    (h : parseJson dec response = .ok parsed) :
    parsed.content.getD "" = responseText response ∧ parsed.reasoning.getD "" =
      responseReasoning response := by
  unfold parseJson at h
  split at h
  · next items hitems =>
    have houtput : outputOf response = items := by rw [outputOf, hitems]
    rw [bind_ok] at h
    obtain ⟨out, hout, hparsed⟩ := h
    obtain ⟨hcontent, hreasoning⟩ := addItems_texts hout
    rw [pure_ok] at hparsed
    subst hparsed
    dsimp only
    rw [responseText, responseReasoning, houtput, orNone_getD, orNone_getD, hcontent, hreasoning]
    simp
  · cases h

/-- What is shown of a text, and what the message says: the same, unless only the completed response
has the text. -/
structure Shown (deltas : List String) (final : Option Fields) (whole : Fields → String)
    (chunks said : String) : Prop where
  streamed : deltas ≠ [] ∨ final = none → chunks = said
  completed : ∀ response, deltas = [] → final = some response → chunks = "" ∧ said = whole response

theorem filterMap_snoc {α β : Type} (f : α → Option β) (l : List α) (a : α) :
    (l ++ [a]).filterMap f = l.filterMap f ++ (f a).toList := by
  rw [List.filterMap_append, List.filterMap_cons]
  rcases f a with _ | b <;> rfl

/-- The events that were read, and what came of them. -/
structure Reads (dec : Decoder) (past : List Fields) (s : Streamed) (outputs : List StreamOutput) :
    Prop where
  text : s.text = past.filterMap (textDelta? dec)
  reasoning : s.reasoning = past.filterMap (reasoningDelta? dec)
  final : s.final = finalResponse dec past
  contents : contentChunks outputs = String.join s.text
  reasonings : reasoningChunks outputs = String.join s.reasoning

theorem Reads.event {past : List Fields} {s : Streamed} {outputs : List StreamOutput}
    (h : Reads dec past s outputs) (event : Fields) :
    Reads dec (past ++ [event]) (addEvent dec s event)
    (outputs ++ responsesOutputs dec event) := by
  obtain ⟨htext, hreasoning, hfinal⟩ := addEvent_texts dec s event
  refine ⟨?_, ?_, ?_, ?_, ?_⟩
  · rw [htext, h.text, filterMap_snoc]
  · rw [hreasoning, h.reasoning, filterMap_snoc]
  · rw [hfinal, h.final, finalResponse, finalResponse, filterMap_snoc]
    rcases completed? dec event with _ | response <;> simp
  · rw [htext, outputs_deltas, contentChunks_append, h.contents]
    simp [join_toList]
  · rw [hreasoning, outputs_deltas, reasoningChunks_append, h.reasonings]
    simp [join_toList]

theorem finish_texts {s : Streamed} (h : finish dec s = .ok prepared) :
    (s.text ≠ [] ∨ s.final = none → prepared.content.getD "" = String.join s.text) ∧
    (s.reasoning ≠ [] ∨ s.final = none → prepared.reasoning.getD "" = String.join s.reasoning) ∧
    ∀ response, s.final = some response →
      (s.text = [] → prepared.content.getD "" = responseText response) ∧
      (s.reasoning = [] → prepared.reasoning.getD "" = responseReasoning response) := by
  unfold finish at h
  split at h
  · next final hfinal =>
    rw [bind_ok] at h
    obtain ⟨parsed, hparsed, hprepared⟩ := h
    rw [pure_ok] at hprepared
    subst hprepared
    obtain ⟨hcontent, hreasoning⟩ := parseJson_texts hparsed
    have hsome : s.final ≠ none := by rw [hfinal]; exact Option.some_ne_none final
    refine ⟨fun hor => ?_, fun hor => ?_, fun response hresponse => ?_⟩
    · have hne : s.text.isEmpty = false := List.isEmpty_eq_false_iff.mpr (hor.resolve_right hsome)
      simp [hne]
    · have hne : s.reasoning.isEmpty = false :=
        List.isEmpty_eq_false_iff.mpr (hor.resolve_right hsome)
      simp [hne]
    · rw [hfinal] at hresponse
      cases hresponse
      refine ⟨fun hempty => ?_, fun hempty => ?_⟩
      · simp [hempty, hcontent]
      · simp [hempty, hreasoning]
  · next hfinal =>
    rw [bind_ok] at h
    obtain ⟨tools, -, hprepared⟩ := h
    rw [pure_ok] at hprepared
    subst hprepared
    refine ⟨fun _ => joined_getD s.text, fun _ => joined_getD s.reasoning,
      fun response hresponse => ?_⟩
    cases hfinal.symm.trans hresponse

theorem preview
    (h : ((responsesParser dec).consume none (responsesParser dec).start events).2 = .ok prepared) :
    Shown (events.filterMap (textDelta? dec)) (finalResponse dec events) responseText
      (contentChunks ((responsesParser dec).consume none (responsesParser dec).start events).1)
      (prepared.content.getD "") ∧
    Shown (events.filterMap (reasoningDelta? dec)) (finalResponse dec events) responseReasoning
      (reasoningChunks ((responsesParser dec).consume none (responsesParser dec).start events).1)
      (prepared.reasoning.getD "") := by
  obtain ⟨s, hfinish, hreads⟩ := (responsesParser dec).consume_induct (R := Reads dec)
    ⟨rfl, rfl, rfl, rfl, rfl⟩
    (fun past s outputs event s' hR hadd => by
      cases hadd
      exact hR.event event) h
  obtain ⟨hcontent, hreasoning, hwhole⟩ := finish_texts hfinish
  have htexts := hreads.contents
  have hreasonings := hreads.reasonings
  rw [hreads.text, hreads.final] at hcontent
  rw [hreads.reasoning, hreads.final] at hreasoning
  rw [hreads.text] at htexts
  rw [hreads.reasoning] at hreasonings
  rw [hreads.final, hreads.text, hreads.reasoning] at hwhole
  refine ⟨⟨fun hor => htexts.trans (hcontent hor).symm, fun response hnil hfinal =>
    ⟨?_, (hwhole response hfinal).1 hnil⟩⟩,
    ⟨fun hor => hreasonings.trans (hreasoning hor).symm, fun response hnil hfinal =>
      ⟨?_, (hwhole response hfinal).2 hnil⟩⟩⟩
  · rw [htexts, hnil]
    rfl
  · rw [hreasonings, hnil]
    rfl

end Responses

/-! ## The Chat Completions adapter -/

namespace Chat

/-- What a choice of an event says. -/
structure Said where
  index : Int
  content : Option String
  reasoning : Option String

def said? (position : Nat) : Json → Option Said
  | .obj raw => match integerOr (Fields.get raw "index") (some position) "", deltaOf raw with
    | .ok index, .ok delta =>
      some ⟨index, isStr (delta.get "content"), isStr (delta.get "reasoning_content")⟩
    | _, _ => none
  | _ => none

def saidIn (position : Nat) : List Json → List Said
  | [] => []
  | raw :: raws => (said? position raw).toList ++ saidIn (position + 1) raws

def saidBy (event : Fields) : List Said := match event.get "choices" with
  | some (.arr raws) => saidIn 0 raws
  | _ => []

/-- The content of choice `i`. -/
def contentOf (i : Int) (l : List Said) : String :=
  String.join (l.map fun d => if d.index = i then d.content.getD "" else "")

def reasoningOf (i : Int) (l : List Said) : String :=
  String.join (l.map fun d => if d.index = i then d.reasoning.getD "" else "")

/-- The reasoning of all choices as it comes. -/
def allReasoning (l : List Said) : String := String.join (l.map fun d => d.reasoning.getD "")

/-! ### One choice -/

theorem isStr_of_textOrNull {v : Option Json} {e : String} {t : Option String}
    (h : textOrNull v e = .ok t) : isStr v = t := by
  unfold textOrNull at h
  split at h
  · cases h
    rfl
  · cases h
    rfl
  · cases h
    rfl
  · cases h

theorem textOrNull_any {v : Option Json} {e : String} {t : Option String}
    (h : textOrNull v e = .ok t) (e' : String) :
    textOrNull v e' = .ok t := by
  unfold textOrNull at h ⊢
  split at h
  · exact h
  · exact h
  · exact h
  · cases h

theorem integerOr_any {v : Option Json} {default : Option Int} {e : String} {n : Int}
    (h : integerOr v default e = .ok n) (e' : String) : integerOr v default e' = .ok n := by
  unfold integerOr at h ⊢
  split at h
  · exact h
  · exact h
  · cases h

/-- **What a choice adds.** -/
theorem addChoice_said {s s' : Streaming} {position : Nat} {raw : Json}
    (h : addChoice s position raw = .ok s') :
    ∃ d choice, said? position raw = some d ∧ s'.choices = s.choices.set d.index choice ∧
      choice.content = ((s.choices.get d.index).getD .new).content ++ d.content.toList ∧
      choice.reasoning = ((s.choices.get d.index).getD .new).reasoning ++ d.reasoning.toList ∧
      contentChunks (choiceOutputs position raw) = (if d.index = 0 then d.content.getD "" else "") ∧
      reasoningChunks (choiceOutputs position raw) = d.reasoning.getD "" := by
  unfold addChoice at h
  split at h
  · next raw =>
    simp only [bind_ok, exists_unit, require_ok, pure_ok] at h
    obtain ⟨index, hindex, delta, hdelta, hrole, reasoning, hreasoning, content,
        hcontent, -, -, -, -, -, -, -, rfl⟩ := h
    have hsaid : said? position (.obj raw) = some ⟨index, content, reasoning⟩ := by
      simp only [said?, integerOr_any hindex "", hdelta, isStr_of_textOrNull hcontent,
        isStr_of_textOrNull hreasoning]
    refine ⟨⟨index, content, reasoning⟩, _, hsaid, rfl, rfl, rfl, ?_⟩
    simp only [choiceOutputs, integerOr_any hindex "", hdelta, hrole, if_true,
      textOrNull_any hreasoning "",
      isStr_of_textOrNull hcontent]
    rcases content with _ | content
    · simp
    · by_cases hzero : index = 0
      · by_cases hempty : content = ""
        · simp [hempty]
        · simp [hzero, hempty]
      · simp [hzero]
  · cases h

/-! ### All choices -/

/-- The choices hold what was said. -/
structure Gathered (s : Streaming) (l : List Said) : Prop where
  indexes : ∀ i, i ∈ s.choices.keys ↔ i ∈ l.map Said.index
  content : ∀ i, String.join ((s.choices.get i).getD .new).content = contentOf i l
  reasoning : ∀ i, String.join ((s.choices.get i).getD .new).reasoning = reasoningOf i l

theorem Gathered.choice {s s' : Streaming} {l : List Said} {d : Said} {choice : StreamChoice}
    (h : Gathered s l)
    (hset : s'.choices = s.choices.set d.index choice)
    (hcontent : choice.content = ((s.choices.get d.index).getD .new).content ++ d.content.toList)
    (hreasoning : choice.reasoning = ((s.choices.get d.index).getD .new).reasoning ++
      d.reasoning.toList) :
    Gathered s' (l ++ [d]) := by
  refine ⟨fun i => ?_, fun i => ?_, fun i => ?_⟩
  · rw [hset, Dict.mem_keys, Dict.get_set, List.map_append, List.mem_append,
      ← h.indexes i, Dict.mem_keys]
    by_cases hi : d.index = i
    · simp [hi]
    · simp [hi, Ne.symm hi]
  · have hold := h.content i
    rw [hset, Dict.get_set, contentOf, List.map_append, String.join_append, ← contentOf, ← hold]
    by_cases hi : d.index = i
    · simp [hi, hcontent, join_toList]
    · simp [hi]
  · have hold := h.reasoning i
    rw [hset, Dict.get_set, reasoningOf, List.map_append, String.join_append, ← reasoningOf, ← hold]
    by_cases hi : d.index = i
    · simp [hi, hreasoning, join_toList]
    · simp [hi]

/-- A choice is added to the choices, whatever else the state holds. -/
theorem addChoice_choices {s s₀ s' : Streaming} {position : Nat} {raw : Json}
    (hs : s₀.choices = s.choices) (h : addChoice s position raw = .ok s') :
    ∃ s₀', addChoice s₀ position raw = .ok s₀' ∧
      s₀'.choices = s'.choices := by
  unfold addChoice at h ⊢
  split at h
  · next raw =>
    simp only [bind_ok, exists_unit, require_ok, pure_ok] at h ⊢
    obtain ⟨index, hindex, delta, hdelta, hrole, reasoning, hreasoning, content,
        hcontent, reason, hreason, hlogprobs,
      fragments, hfragments, calls, hcalls, rfl⟩ := h
    rw [← hs] at hcalls
    refine ⟨_, ⟨index, hindex, delta, hdelta, hrole, reasoning, hreasoning,
      content, hcontent, reason, hreason, hlogprobs,
      fragments, hfragments, calls, hcalls, rfl⟩, ?_⟩
    dsimp only
    rw [hs]
  · cases h

/-- **What the choices of an event add.** -/
theorem addChoices_said {s s₀ s' : Streaming} {position : Nat} {raws : List Json} {l : List Said}
    (hl : Gathered s l) (hs : s₀.choices = s.choices) (h : addChoices s position raws = .ok s') :
    Gathered s' (l ++ saidIn position raws) ∧
      contentChunks (choicesOutputs s₀ position raws) = contentOf 0 (saidIn position raws) ∧
      reasoningChunks (choicesOutputs s₀ position raws) = allReasoning (saidIn position raws) := by
  induction raws generalizing s s₀ position l with
  | nil =>
    cases h
    exact ⟨by simpa [saidIn] using hl, rfl, rfl⟩
  | cons raw raws ih =>
    rw [addChoices, bind_ok] at h
    obtain ⟨next, hfirst, hrest⟩ := h
    obtain ⟨d, choice, hd, hset, hcontent, hreasoning, hcontents, hreasonings⟩ :=
      addChoice_said hfirst
    obtain ⟨next₀, hfirst₀, hs₀⟩ := addChoice_choices hs hfirst
    obtain ⟨hnext, hlater, hlater'⟩ := ih (hl.choice hset hcontent hreasoning) hs₀ hrest
    rw [choicesOutputs, hfirst₀, saidIn, hd]
    refine ⟨by simpa using hnext, ?_, ?_⟩
    · rw [contentChunks_append, hcontents, hlater]
      simp [contentOf]
    · rw [reasoningChunks_append, hreasonings, hlater']
      simp [allReasoning]

/-- The events that were read, and what came of them. -/
structure Reads (past : List Fields) (s : Streaming) (outputs : List StreamOutput) : Prop where
  gathered : Gathered s (past.flatMap saidBy)
  contents : contentChunks outputs = contentOf 0 (past.flatMap saidBy)
  reasonings : reasoningChunks outputs = allReasoning (past.flatMap saidBy)

theorem Reads.event {past : List Fields} {s s' : Streaming} {outputs : List StreamOutput}
    {event : Fields} (h : Reads past s outputs) (hadd : addEvent s (.obj event) = .ok s') :
    Reads (past ++ [event]) s' (outputs ++ chatOutputs s event) := by
  have hpast : (past ++ [event]).flatMap saidBy = past.flatMap saidBy ++ saidBy event := by simp
  unfold addEvent at hadd
  simp only [bind_ok, exists_unit] at hadd
  obtain ⟨husage, hchoices⟩ := hadd
  split at hchoices
  · next raws hraws =>
    have hsaid : saidBy event = saidIn 0 raws := by rw [saidBy, hraws]
    have husage' : objectOrNull (event.get "usage") "" = .ok () := by
      unfold objectOrNull at husage ⊢
      split at husage
      · rfl
      · rfl
      · rfl
      · cases husage
    have hopened : Gathered { s with
      top := addTop s.top event, usage := (usageOf (Fields.get event "usage")).or s.usage }
        (past.flatMap saidBy) := ⟨h.gathered.indexes, h.gathered.content, h.gathered.reasoning⟩
    have hboth : _ ∧ contentChunks (choicesOutputs s 0 raws) = _ ∧
        reasoningChunks (choicesOutputs s 0 raws) = _ :=
      addChoices_said hopened rfl hchoices
    obtain ⟨hgathered, hcontents, hreasonings⟩ := hboth
    have houtputs : chatOutputs s event = choicesOutputs s 0 raws := by
      simp only [chatOutputs, husage', show event.get "choices" = _ from hraws]
    refine ⟨?_, ?_, ?_⟩
    · rw [hpast, hsaid]
      exact hgathered
    · rw [hpast, hsaid, houtputs, contentChunks_append, hcontents, h.contents]
      simp [contentOf]
    · rw [hpast, hsaid, houtputs, reasoningChunks_append, hreasonings, h.reasonings]
      simp [allReasoning]
  · cases hchoices

/-! ### The message -/

/-- The choice of the least index. -/
def Least (m : Int) (l : List Said) : Prop := m ∈ l.map Said.index ∧ ∀ d ∈ l, m ≤ d.index

theorem Gathered.message {s : Streaming} {l : List Said} {saw : Bool} (h : Gathered s l)
    (hfinish : finishStream dec saw s = .ok prepared) :
    ∃ m, Least m l ∧ prepared.content.getD "" = contentOf m l ∧
      prepared.reasoning.getD "" = reasoningOf m l := by
  simp only [finishStream, bind_ok, exists_unit, require_ok] at hfinish
  obtain ⟨-, -, hfinished, hparse⟩ := hfinish
  have hreasons : ∀ p ∈ s.choices.entries, p.2.finishReason.isSome = true := by
    intro p hp
    by_contra hnone
    have hmem : p.1 ∈ unfinished s := by
      refine List.mem_map.mpr ⟨p, List.mem_filter.mpr ⟨hp, ?_⟩, rfl⟩
      simpa using hnone
    rw [List.isEmpty_iff.mp hfinished] at hmem
    cases hmem
  obtain ⟨-, c, hprimary⟩ := parseResponse_primary (isBody_toJson hreasons) hparse
  obtain ⟨p, hp, rfl⟩ := List.mem_map.mp hprimary.mem
  have hentry : p ∈ s.choices.entries := List.mem_mergeSort.mp hp
  have hget : s.choices.get p.1 = some p.2 := (Dict.get_eq_some _).mpr hentry
  refine ⟨p.1, ⟨(h.indexes p.1).mp (List.mem_map_of_mem hentry), fun d hd => ?_⟩, ?_, ?_⟩
  · obtain ⟨q, hq, hqd⟩ := List.mem_map.mp ((h.indexes d.index).mpr (List.mem_map_of_mem hd))
    have hle := hprimary.least (choiceOf q) (List.mem_map_of_mem (List.mem_mergeSort.mpr hq))
    rw [← hqd]
    exact hle
  · rw [hprimary.content, ← h.content p.1, hget]
    exact joined_getD p.2.content
  · rw [hprimary.reasoning, ← h.reasoning p.1, hget]
    exact joined_getD p.2.reasoning

theorem preview
    (h : ((chatParser dec).consume none (chatParser dec).start events).2 = .ok prepared) :
    contentChunks ((chatParser dec).consume none (chatParser dec).start events).1 =
      contentOf 0 (events.flatMap saidBy) ∧
    reasoningChunks ((chatParser dec).consume none (chatParser dec).start events).1 =
      allReasoning (events.flatMap saidBy) ∧
    ∃ m, Least m (events.flatMap saidBy) ∧ prepared.content.getD "" =
      contentOf m (events.flatMap saidBy) ∧
      prepared.reasoning.getD "" = reasoningOf m (events.flatMap saidBy) := by
  have hempty : Gathered ⟨.empty, [], none⟩ [] := ⟨fun i => Iff.rfl, fun i => rfl, fun i => rfl⟩
  obtain ⟨s, hfinish, hreads⟩ := (chatParser dec).consume_induct
    (R := fun past (s : Streaming × Bool) outputs => Reads past s.1 outputs) ⟨hempty, rfl, rfl⟩
    (fun past s outputs event s' hR hadd => by
      obtain ⟨next, hnext, hs'⟩ := bind_ok.mp (show chatAdd s event = .ok s' from hadd)
      cases hs'
      exact hR.event hnext) h
  exact ⟨hreads.contents, hreads.reasonings, hreads.gathered.message hfinish⟩

/-- No choice but `m` has reasoning. -/
def OnlyReasons (m : Int) (l : List Said) : Prop := ∀ d ∈ l, d.index ≠ m → d.reasoning.getD "" = ""

theorem OnlyReasons.all {m : Int} {l : List Said} (h : OnlyReasons m l) :
    allReasoning l = reasoningOf m l := by
  unfold allReasoning reasoningOf
  congr 1
  refine List.map_congr_left fun d hd => ?_
  by_cases hm : d.index = m
  · rw [if_pos hm]
  · rw [if_neg hm, h d hd hm]

/-- The message is the choice of the least index, and choice 0 is shown. -/
structure Shown (l : List Said) (outputs : List StreamOutput) (prepared : Prepared) (m : Int) :
    Prop where
  least : Least m l
  content : prepared.content.getD "" = contentOf m l
  reasoning : prepared.reasoning.getD "" = reasoningOf m l
  contents : contentChunks outputs = contentOf 0 l
  reasonings : OnlyReasons m l → reasoningChunks outputs = prepared.reasoning.getD ""

end Chat

/-! ## The three adapters -/

/-- What the chunks have to do with the message. -/
def Previews (dec : Decoder) (events : List Fields) (outputs : List StreamOutput)
    (prepared : Prepared) :
    Protocol → Prop
  | .messages => contentChunks outputs = prepared.content.getD "" ∧
    reasoningChunks outputs = prepared.reasoning.getD ""
  | .responses =>
    Responses.Shown (events.filterMap (Responses.textDelta? dec))
      (Responses.finalResponse dec events) Responses.responseText
      (contentChunks outputs) (prepared.content.getD "") ∧
    Responses.Shown (events.filterMap (Responses.reasoningDelta? dec))
      (Responses.finalResponse dec events)
      Responses.responseReasoning (reasoningChunks outputs) (prepared.reasoning.getD "")
  | .chatCompletions => ∃ m, Chat.Shown (events.flatMap Chat.saidBy) outputs prepared m

/-- The preview is the message, but for a text that only the completed response has, and for choices
of other indexes. -/
theorem preview_is_message (dec : Decoder) (p : Protocol) (events : List Fields)
    (prepared : Prepared)
    (h : ((p.parser dec).consume none (p.parser dec).start events).2 = .ok prepared) :
    Previews dec events ((p.parser dec).consume none (p.parser dec).start events).1 prepared p := by
  cases p with
  | messages => exact messages_preview h
  | responses => exact Responses.preview h
  | chatCompletions =>
    obtain ⟨hcontents, hreasonings, m, hleast, hcontent, hreasoning⟩ := Chat.preview h
    exact ⟨m, hleast, hcontent, hreasoning, hcontents, fun honly =>
      hreasonings.trans (honly.all.trans hreasoning.symm)⟩

/-! ## A text in two ways -/

def helloDelta : Fields := [("type", .str "response.output_text.delta"), ("delta", .str "hello")]

/-- A completed response with one message. -/
def helloCompleted : Fields :=
  [("type", .str "response.completed"), ("response", .obj [("output", .arr [.obj
  [("type", .str "message"), ("content", .str "hello")]])])]

theorem preview_is_message_delta :
    contentChunks ((responsesParser Chat.plainDecoder).consume none .new
      [helloDelta, helloCompleted]).1 =
    "hello" := by
  have hshown := preview_is_message Chat.plainDecoder .responses [helloDelta, helloCompleted]
    ⟨some "hello", none, [], none, none, none, none⟩ rfl
  exact hshown.1.streamed (.inl (List.cons_ne_nil _ _))

/-- Nothing is shown of a text that comes with the completed response only. -/
theorem preview_lacks_completed :
    ∃ prepared, ((responsesParser Chat.plainDecoder).consume none .new [helloCompleted]).2 =
      .ok prepared ∧
    prepared.content = some "hello" ∧
    contentChunks ((responsesParser Chat.plainDecoder).consume none .new [helloCompleted]).1 = "" :=
  ⟨⟨some "hello", none, [], none, none, none, none⟩, rfl, rfl, rfl⟩

end MiniAgent.Provider
