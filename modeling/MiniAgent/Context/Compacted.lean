import Mathlib.Algebra.GroupWithZero.Nat
import MiniAgent.Context.Completed
import MiniAgent.Lib.Fragments
import MiniAgent.Store.Compaction

/-!
# The context of a compaction

A compaction puts the Items it keeps into one assistant Message, and the context reads the speaker
of an Item from its Message. So what a user has said becomes a part of the assistant's text, as soon
as the kept tail reaches back to a user Message. Tool calls are lost when two Turns of the tail use
the same call id.

The Items of a path are taken together with their speaker (`pathParts`).
-/

namespace MiniAgent.Context

open Lib Turn Provider
open Store (ValidTurn Node RuntimeStateTree compactionItem assistantOf pathItems)
open Store.RuntimeStateTree (lastItems turnsOf)

variable {r : Renderer} {items blocks : List Fields} {completed : List String} {g g' : Gathered}

/-! ## What a Message says -/

def reportMessage (report : String) : ChatMessage :=
  .assistant ⟨"subagent_report", some report, none, [], []⟩

/-- The reports of sub-agents. -/
def reportsOf (r : Renderer) (blocks : List Fields) : List String :=
  blocks.filterMap fun item =>
    if hasType item ["subagent"] ∧ item.get "event" = some (.str "agent_report") ∧
      r.dec.text (item.get "text") ≠ "" then
      some (r.dec.text (item.get "text"))
    else none

def errorsOf (r : Renderer) (blocks : List Fields) : List String :=
  blocks.filterMap fun item =>
    if hasType item ["error"] then some (textOr r (item.get "message") "Execution failed.")
      else none

theorem gatherItem_said {item : Fields} (h : gatherItem r completed g item = .ok g') :
    g'.texts = g.texts ++ errorsOf r [item] ∧ g'.reports = g.reports ++
      (reportsOf r [item]).map reportMessage := by
  simp only [gatherItem] at h
  simp only [errorsOf, reportsOf, List.filterMap_cons, List.filterMap_nil]
  split at h
  · next hcall =>
    simp only [bind_ok, pure_ok] at h
    obtain ⟨t, -, rfl⟩ := h
    simp [hasType_unique hcall.1 (show "tool_call" ≠ "error" by decide),
      hasType_unique hcall.1 (show "tool_call" ≠ "subagent" by decide)]
  split at h
  · next hresult =>
    have hnone : g'.texts = g.texts ∧ g'.reports = g.reports := by
      split at h <;> (cases h; exact ⟨rfl, rfl⟩)
    simp [hasType_unique hresult.1 (show "tool_result" ≠ "error" by decide),
      hasType_unique hresult.1 (show "tool_result" ≠ "subagent" by decide), hnone]
  split at h
  · next herror =>
    cases h
    simp [herror, hasType_unique herror (show "error" ≠ "subagent" by decide)]
  · next herror =>
    split at h
    · next hreport =>
      cases h
      by_cases hempty : r.dec.text (item.get "text") = ""
      · simp [herror, hempty]
      · simp [herror, hreport, hempty, reportMessage]
    · next hreport =>
      cases h
      simp only [herror, Bool.false_eq_true, if_false, List.append_nil, true_and]
      rw [if_neg fun hall => hreport ⟨hall.1, hall.2.1⟩]
      simp

theorem gatherItems_said (h : gatherItems r completed g blocks = .ok g') :
    g'.texts = g.texts ++ errorsOf r blocks ∧ g'.reports = g.reports ++
      (reportsOf r blocks).map reportMessage := by
  induction blocks generalizing g with
  | nil =>
    cases h
    simp [errorsOf, reportsOf]
  | cons item blocks ih =>
    simp only [gatherItems, bind_ok] at h
    obtain ⟨g₁, h₁, h₂⟩ := h
    obtain ⟨htexts, hreports⟩ := gatherItem_said h₁
    obtain ⟨htexts', hreports'⟩ := ih h₂
    have herrors : errorsOf r (item :: blocks) = errorsOf r [item] ++ errorsOf r blocks :=
      List.filterMap_append (l := [item])
    have hreports'' : reportsOf r (item :: blocks) = reportsOf r [item] ++ reportsOf r blocks :=
      List.filterMap_append (l := [item])
    rw [htexts', htexts, hreports', hreports, herrors, hreports'', List.map_append,
      List.append_assoc, List.append_assoc]
    exact ⟨rfl, rfl⟩

/-- Of the Items that are no tool Items, the complete ones are kept. -/
theorem filter_assistantItems {p : Fields → Bool}
    (hp : ∀ item, p item = true → hasType item ["tool_call", "tool_result"] = false) :
    (assistantItems items).filter p = (successfulItems items).filter p := by
  have hzip : (fun q : Fields × Nat => p q.1 && succeeded q.1) =
      (fun item => p item && succeeded item) ∘ Prod.fst := rfl
  rw [assistantItems, List.filter_map, List.filter_filter, successfulItems, List.filter_filter]
  have hfilter : (items.zipIdx.filter fun q => (p ∘ Prod.fst) q &&
      decide (q.2 ∈ validToolIndices items ∨
      (hasType q.1 ["tool_call", "tool_result"] = false ∧ succeeded q.1 = true)))
      = items.zipIdx.filter fun q => p q.1 && succeeded q.1 := by
    refine List.filter_congr fun q hq => ?_
    by_cases hpq : p q.1 = true
    · have hplain := hp q.1 hpq
      have hno : q.2 ∉ validToolIndices items := by
        intro hvalid
        obtain ⟨id, hi⟩ := mem_validToolIndices.mp hvalid
        obtain ⟨item, hitem⟩ := mem_pairIndices hi
        obtain ⟨hmem, hid⟩ := List.mem_filter.mp hitem
        have heq : items[q.2]? = some item := List.mk_mem_zipIdx_iff_getElem?.mp hmem
        rw [List.mk_mem_zipIdx_iff_getElem?.mp hq] at heq
        cases heq
        have htype := (toolId_eq_some.mp (of_decide_eq_true hid)).1
        rw [hplain] at htype
        cases htype
      simp [hpq, hplain, hno]
    · simp [hpq]
  rw [hfilter, hzip, ← List.filter_map, List.zipIdx_map_fst]

theorem filterMap_assistantItems {α : Type} {f : Fields → Option α}
    (hf : ∀ item, (f item).isSome = true → hasType item ["tool_call", "tool_result"] = false) :
    (assistantItems items).filterMap f = (successfulItems items).filterMap f := by
  have hfilter : ∀ l : List Fields, l.filterMap f =
      (l.filter fun item => (f item).isSome).filterMap f := by
    intro l
    rw [List.filterMap_filter]
    refine List.filterMap_congr fun item _ => ?_
    rcases f item with _ | a <;> rfl
  rw [hfilter, filter_assistantItems hf, ← hfilter]

theorem hasType_mem {item : Fields} {types : List String} (h : hasType item types = true) :
    ∃ kind ∈ types, item.get "type" = some (.str kind) := by
  unfold hasType at h
  split at h
  · next kind hkind => exact ⟨kind, by simpa using h, hkind⟩
  · cases h

/-- An Item of one of some types is none of the others. -/
theorem hasType_disjoint {item : Fields} {types others : List String}
    (h : hasType item types = true) (hne : ∀ kind ∈ types, kind ∉ others) :
    hasType item others = false := by
  obtain ⟨kind, hmem, hkind⟩ := hasType_mem h
  rw [hasType, hkind]
  simpa using hne kind hmem

/-- The text of the complete Items, with the errors after it. -/
def spoken (r : Renderer) (items : List Fields) : List String :=
  textsOf r ["text", "bash"] (successfulItems items) ++ errorsOf r (successfulItems items)

def thoughts (r : Renderer) (items : List Fields) : List String :=
  textsOf r ["reasoning"] (successfulItems items)

def reports (r : Renderer) (items : List Fields) : List String :=
  reportsOf r (successfulItems items)

def checkpoint (summary : String) : List ChatMessage :=
  if summary = "" then [] else [textMessage (checkpointPreamble ++ "\n\n" ++ summary)]

/-- **What the messages of an assistant Message say.** -/
theorem assistantMessages_eq {out : List ChatMessage} (h : assistantMessages r items = .ok out) :
    ∃ tools,
    out = checkpoint (summaryOf r (assistantItems items)) ++ (reports r items).map reportMessage ++
      if (joined (spoken r items)).isSome ∨ (joined (thoughts r items)).isSome ∨ tools ≠ [] then
        [.assistant ⟨"assistant", joined (spoken r items), joined (thoughts r items), tools, []⟩]
          else [] := by
  simp only [assistantMessages, bind_ok, pure_ok] at h
  obtain ⟨g, hg, rfl⟩ := h
  obtain ⟨htexts, hreports⟩ := gatherItems_said hg
  have herrors : errorsOf r (assistantItems items) = errorsOf r (successfulItems items) := by
    refine filterMap_assistantItems fun item hitem => ?_
    split at hitem
    · next herror => exact hasType_disjoint herror (by decide)
    · cases hitem
  have hsubagents : reportsOf r (assistantItems items) = reports r items := by
    refine filterMap_assistantItems fun item hitem => ?_
    split at hitem
    · next hreport => exact hasType_disjoint hreport.1 (by decide)
    · cases hitem
  have htext : ∀ types : List String, (∀ kind ∈ types, kind ∉ ["tool_call", "tool_result"]) →
      textsOf r types (assistantItems items) = textsOf r types (successfulItems items) := by
    intro types htypes
    rw [textsOf, filter_assistantItems fun item hitem => hasType_disjoint hitem htypes]
    rfl
  refine ⟨g.calls.values, ?_⟩
  rw [htexts, hreports, herrors, hsubagents, htext ["text", "bash"] (by decide),
    htext ["reasoning"] (by decide)]
  rfl

/-! ## Who says what -/

def within (part whole : String) : Prop := part.toList <:+: whole.toList

def said : ChatMessage → String
  | .assistant m => m.content.getD ""
  | _ => ""

/-- The text of the assistant in a context. -/
def saidText (out : List ChatMessage) : String := String.join (out.map said)

/-- The text stands in a message of the assistant. -/
def Says (out : List ChatMessage) (text : String) : Prop :=
  ∃ m, .assistant m ∈ out ∧ (within text (m.content.getD "") ∨ within text (m.reasoning.getD ""))

/-- The text stands in a user message. -/
def Hears (out : List ChatMessage) (text : String) : Prop :=
  ∃ m, .user m ∈ out ∧ within text (m.content.getD "")

/-- The text stands in what the complete Items say. -/
def Voiced (r : Renderer) (items : List Fields) (text : String) : Prop :=
  (∃ report ∈ reports r items, within text report) ∨ within text (String.join (spoken r items)) ∨
    within text (String.join (thoughts r items))

theorem getD_joined (l : List String) : (joined l).getD "" = String.join l := by
  unfold joined
  dsimp only
  split
  · next h => exact h.symm
  · rfl

theorem joined_isSome {l : List String} : (joined l).isSome = true ↔ String.join l ≠ "" := by
  unfold joined
  dsimp only
  split
  · next h => simp [h]
  · next h => simp [h]

theorem within_empty {text : String} (h : within text "") : text = "" := by
  have hnil : text.toList = [] := by simpa [within] using h
  exact String.toList_eq_nil_iff.mp hnil

theorem mem_checkpoint {summary : String} {message : ChatMessage}
    (h : message ∈ checkpoint summary) : ∃ m, message = .user m := by
  unfold checkpoint at h
  split at h
  · cases h
  · exact ⟨_, List.mem_singleton.mp h⟩

theorem mem_userMessages {message : ChatMessage} (h : message ∈ userMessages r items) :
    ∃ m, message = .user m := by
  unfold userMessages at h
  dsimp only at h
  split at h
  · cases h
  · exact ⟨_, List.mem_singleton.mp h⟩

theorem saidText_users {users : List ChatMessage} (h : ∀ message ∈ users, ∃ m, message = .user m) :
    saidText users = "" := by
  refine Fragments.join_map_eq_empty fun message hmem => ?_
  obtain ⟨m, rfl⟩ := h message hmem
  rfl

variable {users out : List ChatMessage} {tools : List ToolMessage}

/-- User messages, and what some Items make of it. -/
def contextOf (r : Renderer) (users : List ChatMessage) (items : List Fields)
    (tools : List ToolMessage) : List ChatMessage :=
  users ++ (reports r items).map reportMessage ++
    if (joined (spoken r items)).isSome ∨ (joined (thoughts r items)).isSome ∨ tools ≠ [] then
      [.assistant ⟨"assistant", joined (spoken r items), joined (thoughts r items), tools, []⟩]
        else []

theorem hears_contextOf {text : String} :
    Hears (contextOf r users items tools) text ↔ Hears users text := by
  constructor
  · rintro ⟨m, hm, hwithin⟩
    rcases List.mem_append.mp hm with hm | hm
    · rcases List.mem_append.mp hm with hm | hm
      · exact ⟨m, hm, hwithin⟩
      · obtain ⟨report, -, hreport⟩ := List.mem_map.mp hm
        cases hreport
    · split at hm
      · cases List.mem_singleton.mp hm
      · cases hm
  · rintro ⟨m, hm, hwithin⟩
    exact ⟨m, List.mem_append_left _ (List.mem_append_left _ hm), hwithin⟩

theorem says_contextOf (husers : ∀ message ∈ users, ∃ m, message = .user m) {text : String}
    (htext : text ≠ "") :
    Says (contextOf r users items tools) text ↔ Voiced r items text := by
  constructor
  · rintro ⟨m, hm, hwithin⟩
    rcases List.mem_append.mp hm with hm | hm
    · rcases List.mem_append.mp hm with hm | hm
      · obtain ⟨_, hm⟩ := husers _ hm
        cases hm
      · obtain ⟨report, hreport, hm⟩ := List.mem_map.mp hm
        cases hm
        exact .inl ⟨report, hreport, hwithin.resolve_right fun hno => htext (within_empty hno)⟩
    · split at hm
      · cases List.mem_singleton.mp hm
        rw [getD_joined, getD_joined] at hwithin
        exact .inr hwithin
      · cases hm
  · rintro (⟨report, hreport, hwithin⟩ | hwithin)
    · exact ⟨_, List.mem_append_left _ (List.mem_append_right _ (List.mem_map_of_mem hreport)),
        .inl hwithin⟩
    · -- one of the two texts is not empty, so that the message is there
      have hsome : (joined (spoken r items)).isSome ∨ (joined (thoughts r items)).isSome ∨
          tools ≠ [] := by
        rcases hwithin with hwithin | hwithin
        · exact .inl (joined_isSome.mpr fun hno => htext (within_empty (hno ▸ hwithin)))
        · exact .inr (.inl (joined_isSome.mpr fun hno => htext (within_empty (hno ▸ hwithin))))
      refine ⟨⟨"assistant", joined (spoken r items), joined (thoughts r items), tools, []⟩, ?_, ?_⟩
      · rw [contextOf, if_pos hsome]
        exact List.mem_append_right _ List.mem_cons_self
      · rw [getD_joined, getD_joined]
        exact hwithin

theorem saidText_contextOf (husers : ∀ message ∈ users, ∃ m, message = .user m) :
    saidText (contextOf r users items tools) = String.join (reports r items ++ spoken r items) := by
  have hreports : String.join (((reports r items).map reportMessage).map said) =
      String.join (reports r items) := by
    rw [List.map_map]
    exact congrArg String.join (List.map_id _)
  have husers' : String.join (users.map said) = "" := saidText_users husers
  rw [saidText, contextOf, List.map_append, List.map_append, String.join_append,
    String.join_append, husers', hreports,
    String.join_append]
  split
  · simp [said, getD_joined]
  · next hno =>
    have hspoken : String.join (spoken r items) = "" := by
      by_contra hne
      exact hno (.inl (joined_isSome.mpr hne))
    simp [hspoken]

/-! ## Items with their speaker -/

inductive Speaker where
  | user
  | assistant
  deriving DecidableEq, Repr

def speakerOf (message : Fields) : Speaker :=
  if message.get "role" = some (.str "user") then .user else .assistant

structure Part where
  speaker : Speaker
  item : Fields

variable {host : Host}

def pathParts (path : List (Node host)) : List Part :=
  (turnsOf path).flatMap fun t => (selected t).flatMap fun message =>
    (messageItems message).map fun item => ⟨speakerOf message, item⟩

def itemsOf (parts : List Part) : List Fields := parts.map Part.item

/-- The Items of one speaker. -/
def ownItems (speaker : Speaker) (parts : List Part) : List Fields :=
  itemsOf (parts.filter fun part => part.speaker = speaker)

def itemText (item : Fields) : String :=
  match item.get "text" with
  | some (.str text) => text
  | _ => ""

theorem itemsOf_pathParts (path : List (Node host)) :
    itemsOf (pathParts path) = pathItems path := by
  simp only [itemsOf, pathParts, pathItems, List.map_flatMap, List.map_map]
  refine List.flatMap_congr fun t _ => List.flatMap_congr fun message _ => ?_
  exact List.map_id _

theorem itemsOf_lastItems (n : Nat) (parts : List Part) :
    itemsOf (lastItems n parts) = lastItems n (itemsOf parts) :=
  (Store.lastItems_map Part.item n parts).symm

/-- An Item of a user Message is a text. -/
def UserText (parts : List Part) : Prop :=
  ∀ part ∈ parts, part.speaker = .user → hasType part.item ["text"] = true ∧
    part.item.get "text" = some (.str (itemText part.item))

theorem userText_pathParts (path : List (Node host)) : UserText (pathParts path) := by
  intro part hpart huser
  obtain ⟨t, ht, hpart⟩ := List.mem_flatMap.mp hpart
  obtain ⟨message, hmessage, hpart⟩ := List.mem_flatMap.mp hpart
  obtain ⟨item, hitem, rfl⟩ := List.mem_map.mp hpart
  obtain ⟨found, -, hfound⟩ := List.mem_filterMap.mp ht
  cases found with
  | root _ _ => cases hfound
  | turn valid =>
    cases hfound
    obtain ⟨role, items, hok⟩ := (Store.selected_versionOk valid).messageOk hmessage
    have hrole : role = "user" := by
      simp only [speakerOf, hok.role_eq] at huser
      split at huser
      · next h => simpa using h
      · cases huser
    obtain ⟨hlen, htext⟩ := hok.user hrole
    obtain ⟨only, rfl⟩ := List.length_eq_one_iff.mp hlen
    rw [hok.items_eq, List.mem_singleton] at hitem
    subst hitem
    simp only [userItemOk, Bool.and_eq_true, beq_iff_eq] at htext
    refine ⟨by rw [hasType, htext.1]; rfl, ?_⟩
    have hstr := htext.2
    unfold itemText
    rcases hget : item.get "text" with _ | v
    · rw [hget] at hstr
      cases hstr
    · cases v with
      | str text => rfl
      | _ => rw [hget] at hstr; cases hstr

/-! ## The kept tail -/

/-- An Item whose text the context shows. -/
def Speaks (item : Fields) : Prop :=
  succeeded item = true ∧ (hasType item ["text", "bash", "reasoning"] = true ∨
    hasType item ["subagent"] = true ∧ item.get "event" = some (.str "agent_report"))

/-- A call of the tail and its result. -/
structure KeptPair (items : List Fields) (id : String) (call result : Fields) : Prop where
  kept : [call, result].Sublist items
  callId : toolId call = some id
  resultId : toolId result = some id
  completed : isPair call result = true

theorem KeptPair.sublist_callItems {items : List Fields} {id : String} {call result : Fields}
    (h : KeptPair items id call result) : [call, result].Sublist (callItems id items) := by
  have hfilter := h.kept.filter fun item => toolId item = some id
  simpa [callItems, h.callId, h.resultId] using hfilter

/-- **A context in which everyone says what they said**: the text of each user Item is in a user
message, the assistant's text comes from the assistant's Items alone and has the text of each of
them, and each completed call is one call with its result. -/
structure KeepsSpeakers (r : Renderer) (kept : List Part) (out : List ChatMessage) : Prop where
  users : ∀ part ∈ kept, part.speaker = .user → itemText part.item = "" ∨
    Hears out (itemText part.item)
  alone : saidText out = String.join (reports r (ownItems .assistant kept) ++
    spoken r (ownItems .assistant kept))
  assistants : ∀ part ∈ kept, part.speaker = .assistant → itemText part.item = "" ∨
    Says out (itemText part.item)
  pairs : ∀ id call result, KeptPair (itemsOf kept) id call result → ∃ t, toolsOf id out = [t] ∧
    Exchanged r call result t

/-- **A tail that can be put into one assistant Message**: no complete user Item with a text, no
other text than that of the complete Items, and no call id that is used again. -/
structure AssistantTail (r : Renderer) (users : List ChatMessage) (kept : List Part) : Prop where
  users : ∀ part ∈ kept, part.speaker = .user →
    itemText part.item = "" ∨ succeeded part.item = false ∧ Hears users (itemText part.item)
  assistants : ∀ part ∈ kept, part.speaker = .assistant → ¬ Speaks part.item →
    itemText part.item = "" ∨ Voiced r (itemsOf kept) (itemText part.item)
  pairs : ∀ id call result, KeptPair (itemsOf kept) id call result →
    callItems id (itemsOf kept) = [call, result]

variable {kept : List Part}

theorem UserText.cons {part : Part} (h : UserText (part :: kept)) :
    (part.speaker = .user → hasType part.item ["text"] = true ∧
      part.item.get "text" = some (.str (itemText part.item))) ∧
      UserText kept :=
  List.forall_mem_cons.mp h

/-- The complete Items that are not texts are the assistant's. -/
theorem filterMap_own {α : Type} {f : Fields → Option α} (htexts : UserText kept)
    (hf : ∀ item, hasType item ["text"] = true → f item = none) :
    (successfulItems (itemsOf kept)).filterMap f =
      (successfulItems (ownItems .assistant kept)).filterMap f := by
  induction kept with
  | nil => rfl
  | cons part kept ih =>
    obtain ⟨hpart, hkept⟩ := htexts.cons
    have hrest := ih hkept
    simp only [successfulItems, itemsOf, ownItems] at hrest ⊢
    rcases hspeaker : part.speaker with _ | _
    · have hnone := hf part.item (hpart hspeaker).1
      rw [List.filter_cons_of_neg (by simp [hspeaker]), ← hrest, List.map_cons, List.filter_cons]
      split
      · rw [List.filterMap_cons, hnone]
      · rfl
    · rw [List.filter_cons_of_pos (by simp [hspeaker]), List.map_cons, List.map_cons,
        List.filter_cons, List.filter_cons]
      split
      · rw [List.filterMap_cons, List.filterMap_cons, hrest]
      · exact hrest

/-- What a part adds to the assistant's text as a user Item. -/
def mixedIn (part : Part) : Nat :=
  if part.speaker = .user ∧ succeeded part.item = true then (itemText part.item).length else 0

/-- The text of a list of Items. -/
def textOf (r : Renderer) (items : List Fields) : String :=
  String.join (textsOf r ["text", "bash"] (successfulItems items))

theorem textOf_cons (item : Fields) : textOf r (item :: items) =
    (if succeeded item = true ∧ hasType item ["text", "bash"] = true then
        r.dec.text (item.get "text")
      else "") ++ textOf r items := by
  simp only [textOf, textsOf, successfulItems, List.filter_cons]
  by_cases hok : succeeded item = true
  · by_cases htype : hasType item ["text", "bash"] = true
    · simp [hok, htype]
    · simp [hok, htype]
  · simp [hok]

theorem user_text {part : Part} (h : hasType part.item ["text"] = true ∧
    part.item.get "text" = some (.str (itemText part.item))) :
    hasType part.item ["text", "bash"] = true ∧ r.dec.text (part.item.get "text") =
      itemText part.item := by
  refine ⟨?_, by rw [h.2]; rfl⟩
  obtain ⟨kind, hkind, hget⟩ := hasType_mem h.1
  obtain rfl := List.mem_singleton.mp hkind
  rw [hasType, hget]
  rfl

theorem ownItems_user {part : Part} (h : part.speaker = .user) :
    ownItems .assistant (part :: kept) = ownItems .assistant kept := by
  rw [ownItems, ownItems, List.filter_cons_of_neg (by simp [h])]

theorem ownItems_assistant {part : Part} (h : part.speaker = .assistant) :
    ownItems .assistant (part :: kept) = part.item :: ownItems .assistant kept := by
  rw [ownItems, ownItems, List.filter_cons_of_pos (by simp [h])]
  rfl

theorem length_textOf (htexts : UserText kept) :
    (textOf r (itemsOf kept)).length = (textOf r (ownItems .assistant kept)).length +
      (kept.map mixedIn).sum := by
  induction kept with
  | nil => rfl
  | cons part kept ih =>
    obtain ⟨hpart, hkept⟩ := htexts.cons
    have hrest := ih hkept
    rw [show itemsOf (part :: kept) = part.item :: itemsOf kept from rfl,
      textOf_cons, String.length_append, hrest, List.map_cons,
      List.sum_cons]
    rcases hspeaker : part.speaker with _ | _
    · obtain ⟨htype, htext⟩ := user_text (r := r) (hpart hspeaker)
      rw [ownItems_user hspeaker, mixedIn, htype, htext, hspeaker]
      by_cases hok : succeeded part.item = true
      · simp only [hok, and_self, if_true]
        omega
      · simp [hok]
    · have hnone : mixedIn part = 0 := by simp [mixedIn, hspeaker]
      rw [ownItems_assistant hspeaker, textOf_cons, String.length_append, hnone]
      omega

theorem textOf_own (htexts : UserText kept) (hsilent : ∀ part ∈ kept, mixedIn part = 0) :
    textOf r (itemsOf kept) = textOf r (ownItems .assistant kept) := by
  induction kept with
  | nil => rfl
  | cons part kept ih =>
    obtain ⟨hpart, hkept⟩ := htexts.cons
    obtain ⟨hzero, hrestSilent⟩ := List.forall_mem_cons.mp hsilent
    have hrest := ih hkept hrestSilent
    rw [show itemsOf (part :: kept) = part.item :: itemsOf kept from rfl, textOf_cons, hrest]
    rcases hspeaker : part.speaker with _ | _
    · rw [ownItems_user hspeaker, (user_text (r := r) (hpart hspeaker)).2]
      split
      · next hok =>
        have hempty : itemText part.item = "" := by simpa [mixedIn, hspeaker, hok.1] using hzero
        rw [hempty, String.empty_append]
      · exact String.empty_append
    · rw [ownItems_assistant hspeaker, textOf_cons]

/-- The assistant's text comes from the assistant's Items exactly when no complete user Item has a
text. -/
theorem alone_iff (htexts : UserText kept) :
    String.join (reports r (itemsOf kept) ++ spoken r (itemsOf kept)) =
        String.join (reports r (ownItems .assistant kept) ++ spoken r (ownItems .assistant kept)) ↔
      ∀ part ∈ kept, part.speaker = .user → succeeded part.item = true →
        itemText part.item = "" := by
  have hreports : reports r (itemsOf kept) = reports r (ownItems .assistant kept) := by
    refine filterMap_own htexts fun item hitem => if_neg fun hall => ?_
    rw [hasType_unique hitem (by decide)] at hall
    exact Bool.false_ne_true hall.1
  have herrors : errorsOf r (successfulItems (itemsOf kept)) =
      errorsOf r (successfulItems (ownItems .assistant kept)) := by
    refine filterMap_own htexts fun item hitem => if_neg fun herror => ?_
    rw [hasType_unique hitem (by decide)] at herror
    exact Bool.false_ne_true herror
  have hsplit : ∀ items, String.join (spoken r items) = textOf r items ++
      String.join (errorsOf r (successfulItems items)) :=
    fun items => String.join_append
  have hsilent : (∀ part ∈ kept, part.speaker = .user → succeeded part.item = true →
      itemText part.item = "") ↔
      ∀ part ∈ kept, mixedIn part = 0 := by
    refine forall₂_congr fun part _ => ?_
    simp only [mixedIn]
    split
    · next h => simp [h]
    · next h => exact iff_of_true (fun huser hok => absurd ⟨huser, hok⟩ h) rfl
  rw [String.join_append, String.join_append, hsplit, hsplit, hreports, herrors, hsilent]
  constructor
  · intro heq part hpart
    have hlen := congrArg String.length heq
    simp only [String.length_append, length_textOf (r := r) htexts] at hlen
    have hsum : (kept.map mixedIn).sum = 0 := by omega
    exact List.sum_eq_zero_iff_forall_eq_nat.mp hsum _ (List.mem_map_of_mem hpart)
  · intro hzero
    rw [textOf_own htexts hzero]

/-! ## The Message of a compaction -/

section Compaction

variable {summary : String} {n : Nat}

theorem successfulItems_compaction :
    successfulItems (compactionItem summary n :: items) = compactionItem summary n ::
      successfulItems items :=
  List.filter_cons_of_pos (by simp [succeeded, compactionItem, Fields.get_cons])

theorem hasType_compaction (types : List String) :
    hasType (compactionItem summary n) types = types.contains "compaction" := by
  simp [hasType, compactionItem, Fields.get_cons]

theorem summaryOf_compaction :
    summaryOf r (assistantItems (compactionItem summary n :: items)) = summary := by
  have hfirst : (assistantItems (compactionItem summary n :: items)).find?
      (fun item => hasType item ["compaction"]) =
      some (compactionItem summary n) := by
    rw [← List.head?_filter, filter_assistantItems fun item hitem =>
      hasType_disjoint hitem (by decide),
      successfulItems_compaction, List.filter_cons_of_pos (by rw [hasType_compaction]; rfl)]
    rfl
  rw [summaryOf, hfirst]
  simp [compactionItem, Fields.get_cons, Decoder.text]

theorem said_compaction (r : Renderer) (items : List Fields) (summary : String) (n : Nat) :
    reports r (compactionItem summary n :: items) = reports r items ∧
    spoken r (compactionItem summary n :: items) = spoken r items ∧
    thoughts r (compactionItem summary n :: items) = thoughts r items := by
  simp [reports, spoken, thoughts, reportsOf, errorsOf, textsOf, successfulItems_compaction,
    hasType_compaction]

theorem callItems_compaction (id : String) :
    callItems id (compactionItem summary n :: items) = callItems id items :=
  List.filter_cons_of_neg (by simp [toolId, hasType_compaction])

end Compaction

/-- The user messages of a compaction. -/
def heardOf (r : Renderer) (source : RuntimeState) (summary : String) : List ChatMessage :=
  userMessages r (messageItems (Store.userMessage source)) ++ checkpoint summary

theorem mem_heardOf {source : RuntimeState} {summary : String} :
    ∀ message ∈ heardOf r source summary, ∃ m, message = .user m := by
  intro message hmessage
  rcases List.mem_append.mp hmessage with hmem | hmem
  · exact mem_userMessages hmem
  · exact mem_checkpoint hmem

/-- **The context of a compaction.** -/
theorem context_compacted (r : Renderer) (source : ValidTurn host) (summary : String)
    (h : ∀ item ∈ items, checkItem item = .ok ()) : ∃ tools,
    chatMessagesFrom r [Store.userMessage source.val,
      assistantOf (compactionItem summary items.length :: items)] =
        .ok (contextOf r (heardOf r source.val summary) items tools) ∧
      Holds r items (contextOf r (heardOf r source.val summary) items tools) := by
  have hall : ∀ item ∈ compactionItem summary items.length :: items, checkItem item = .ok () :=
    List.forall_mem_cons.mpr ⟨Store.checkItem_compactionItem _ _, h⟩
  have huser : (Store.userMessage source.val).get "role" = some (.str "user") :=
    (Store.versionOk_answered source hall).first_user _ rfl
  have hassistant := Store.assistantOf_ok hall
  obtain ⟨out, hout, hholds⟩ := assistantMessages_holds (r := r) hall
  obtain ⟨tools, htools⟩ := assistantMessages_eq hout
  obtain ⟨hreports, hspoken, hthoughts⟩ := said_compaction r items summary items.length
  rw [summaryOf_compaction, hreports, hspoken, hthoughts] at htools
  have hcontext : contextOf r (heardOf r source.val summary) items tools =
      userMessages r (messageItems (Store.userMessage source.val)) ++ out := by
    rw [htools, contextOf, heardOf]
    simp only [List.append_assoc]
  refine ⟨tools, ?_, fun id => ?_⟩
  · have hfirst : chatMessages r (Store.userMessage source.val) =
        .ok (userMessages r (messageItems (Store.userMessage source.val))) := if_pos huser
    have hsecond : chatMessages r (assistantOf (compactionItem summary items.length :: items)) =
        .ok out := by
      rw [chatMessages, if_neg (by rw [hassistant.role_eq]; simp),
        messageItems_eq hassistant.content_eq]
      exact hout
    rw [hcontext, chatMessagesFrom, hfirst, chatMessagesFrom, hsecond, chatMessagesFrom]
    show Except.ok _ = _
    rw [List.append_nil]
  · have hown := hholds id
    have hnone : toolsOf id (userMessages r (messageItems (Store.userMessage source.val))) =
        [] := by
      rw [toolsOf, List.filter_eq_nil_iff]
      intro t ht
      obtain ⟨message, hmessage, ht⟩ := List.mem_flatMap.mp ht
      obtain ⟨m, rfl⟩ := mem_userMessages hmessage
      cases ht
    rw [hcontext, toolsOf_append, hnone, List.nil_append]
    simpa only [pairOf, callItems_compaction] using hown

/-- A text of an Item that the context shows. -/
theorem voiced_of_speaks {item : Fields} (hmem : item ∈ items) (hspeaks : Speaks item)
    (htext : itemText item ≠ "") :
    Voiced r items (itemText item) := by
  obtain ⟨hok, hkind⟩ := hspeaks
  have hget : item.get "text" = some (.str (itemText item)) := by
    unfold itemText at htext ⊢
    split at htext
    · next text hget => rw [hget]
    · exact absurd rfl htext
  have hread : r.dec.text (item.get "text") = itemText item := by rw [hget]; rfl
  have hshown : item ∈ successfulItems items := List.mem_filter.mpr ⟨hmem, hok⟩
  have hjoin : ∀ texts : List String, itemText item ∈ texts →
      within (itemText item) (String.join texts) := by
    intro texts hin
    rw [within, String.toList_join, List.flatMap_def]
    exact List.infix_of_mem_flatten (List.mem_map_of_mem hin)
  have hof : ∀ types : List String, hasType item types = true →
      itemText item ∈ textsOf r types (successfulItems items) :=
    fun types htypes => List.mem_map.mpr ⟨item, List.mem_filter.mpr ⟨hshown, htypes⟩, hread⟩
  rcases hkind with hkind | ⟨hsubagent, hevent⟩
  · obtain ⟨kind, hkind, htype⟩ := hasType_mem hkind
    have hcases : hasType item ["text", "bash"] = true ∨ hasType item ["reasoning"] = true := by
      simp only [List.mem_cons, List.not_mem_nil, or_false] at hkind
      simp only [hasType, htype]
      rcases hkind with rfl | rfl | rfl <;> simp
    rcases hcases with hcase | hcase
    · exact .inr (.inl (hjoin _ (List.mem_append_left _ (hof _ hcase))))
    · exact .inr (.inr (hjoin _ (hof _ hcase)))
  · refine .inl ⟨itemText item, List.mem_filterMap.mpr ⟨item, hshown, ?_⟩, List.infix_refl _⟩
    rw [if_pos ⟨hsubagent, hevent, by rw [hread]; exact htext⟩, hread]

/-- **When everyone says what they said.** -/
theorem keepsSpeakers_iff (husers : ∀ message ∈ users, ∃ m, message = .user m)
    (htexts : UserText kept)
    (hholds : Holds r (itemsOf kept) (contextOf r users (itemsOf kept) tools)) :
    KeepsSpeakers r kept (contextOf r users (itemsOf kept) tools) ↔ AssistantTail r users kept := by
  have hpairs : ∀ id call result, KeptPair (itemsOf kept) id call result →
      ((∃ t, toolsOf id (contextOf r users (itemsOf kept) tools) = [t] ∧
        Exchanged r call result t) ↔
        callItems id (itemsOf kept) = [call, result]) := by
    intro id call result hpair
    have hown := hholds id
    constructor
    · rintro ⟨t, ht, -⟩
      split at hown
      · next c s hsome =>
        have hsub := hpair.sublist_callItems
        rw [(pairOf_eq_some.mp hsome).1] at hsub ⊢
        exact (hsub.eq_of_length rfl).symm
      · rw [hown] at ht
        cases ht
    · intro hitems
      rw [pairOf_eq_some.mpr ⟨hitems, hpair.completed⟩] at hown
      exact hown
  have hsaid : saidText (contextOf r users (itemsOf kept) tools) = _ := saidText_contextOf husers
  constructor
  · intro h
    refine ⟨fun part hpart huser => ?_, fun part hpart hassistant _ => ?_,
      fun id call result hpair =>
      (hpairs id call result hpair).mp (h.pairs id call result hpair)⟩
    · by_cases hempty : itemText part.item = ""
      · exact .inl hempty
      · have hsilent := (alone_iff htexts).mp (hsaid.symm.trans h.alone) part hpart huser
        refine .inr ⟨?_, hears_contextOf.mp ((h.users part hpart huser).resolve_left hempty)⟩
        by_contra hok
        exact hempty (hsilent (by simpa using hok))
    · by_cases hempty : itemText part.item = ""
      · exact .inl hempty
      · exact .inr ((says_contextOf husers hempty).mp
          ((h.assistants part hpart hassistant).resolve_left hempty))
  · intro h
    refine ⟨fun part hpart huser => ?_, ?_, fun part hpart hassistant =>
      ?_, fun id call result hpair =>
      (hpairs id call result hpair).mpr (h.pairs id call result hpair)⟩
    · exact (h.users part hpart huser).imp_right fun hheard => hears_contextOf.mpr hheard.2
    · rw [hsaid]
      refine (alone_iff htexts).mpr fun part hpart huser hok => ?_
      refine (h.users part hpart huser).resolve_right fun hheard => ?_
      rw [hok] at hheard
      cases hheard.1
    · by_cases hempty : itemText part.item = ""
      · exact .inl hempty
      · refine .inr ((says_contextOf husers hempty).mpr ?_)
        by_cases hspeaks : Speaks part.item
        · exact voiced_of_speaks (List.mem_map_of_mem hpart) hspeaks hempty
        · exact (h.assistants part hpart hassistant hspeaks).resolve_left hempty

/-- The compaction Turn is alone in its model context. There everyone says what they said exactly
when the kept tail can be put into one assistant Message. -/
theorem compaction_keeps_speakers (r : Renderer) (tree : RuntimeStateTree host)
    (source : ValidTurn host) (path : List (Node host)) (anchor : Node host)
    (summary id timestamp : String) (hid : id ≠ "")
    (htime : host.parseTimestamp timestamp = some true)
    (hpath : tree.ancestors (.turn source) = .ok path) (hmem : anchor ∈ path)
    (hanchor : anchor.key.2 = source.val.compactionId) :
    ∃ node above below out, tree.compact source summary id timestamp = .ok node ∧
      path = above ++ anchor :: below ∧
      (∀ (next : RuntimeStateTree host) way, next.ancestors (.turn node) = .ok way →
        next.modelInput node = .ok [node.val]) ∧
      chatMessagesFromNodes r [node.val] = .ok out ∧
      (KeepsSpeakers r (lastItems source.val.firstKeptItemSize (pathParts (anchor :: below))) out ↔
        AssistantTail r (heardOf r source.val summary)
          (lastItems source.val.firstKeptItemSize (pathParts (anchor :: below)))) := by
  obtain ⟨above, below, rfl⟩ := List.append_of_mem hmem
  have hsuffix := Store.RuntimeStateTree.fromLast_ancestors hpath
  rw [hanchor] at hsuffix
  obtain ⟨h, hcompact⟩ := Store.RuntimeStateTree.compact_eq summary hid htime hpath hsuffix
  have hitems : lastItems source.val.firstKeptItemSize (pathItems (anchor :: below)) =
      itemsOf (lastItems source.val.firstKeptItemSize (pathParts (anchor :: below))) := by
    rw [itemsOf_lastItems, itemsOf_pathParts]
  have htexts : UserText (lastItems source.val.firstKeptItemSize (pathParts (anchor :: below))) :=
    fun part hpart => userText_pathParts _ part (List.mem_of_mem_drop hpart)
  have hchecked : ∀ item ∈ itemsOf (lastItems source.val.firstKeptItemSize
      (pathParts (anchor :: below))),
      checkItem item = .ok () := by
    rw [← hitems]
    exact fun item hitem => Store.checkItem_pathItems _ item (List.mem_of_mem_drop hitem)
  obtain ⟨tools, hcontext, hholds⟩ := context_compacted r source summary hchecked
  refine ⟨_, above, below, _, hcompact, rfl, fun next way hway =>
    Store.RuntimeStateTree.modelInput_self rfl hway, ?_,
    keepsSpeakers_iff mem_heardOf htexts hholds⟩
  rw [← hcontext, ← hitems]
  rfl

/-! ## A tail with and without the user Message -/

open Store (sampleNow)
open Browser (sampleHost sampleTurn sampleTurn_wf)

def sampleAnswer : Fields :=
  [("type", .str "text"), ("text", .str "a"), ("status", .str "success")]

/-- A sealed Turn under the root, of which a compaction keeps `size` Items. -/
def sampleSource (size : Nat) : ValidTurn sampleHost :=
  ⟨{ sampleTurn "a" "success" with
      parentThreadId := "s1", parentSessionId := "s1", parentId := "r", firstKeptItemSize := size,
      status := .success },
    { sampleTurn_wf "a" .success with
      parents := iff_of_false (show "r" ≠ "" by decide) (show "s1" ≠ "" by decide)
      mainRoot := fun h => absurd h (show "r" ≠ "" by decide)
      forkRoot := fun h => absurd h (show "r" ≠ "" by decide)
      ends := fun _ => rfl
      settled := fun _ => rfl }⟩

def sampleTree (size : Nat) : RuntimeStateTree sampleHost :=
  ⟨[.root "s1" "r", .turn (sampleSource size)]⟩

/-- An answer with a completed call, all of whose Items a compaction keeps. -/
def calledSource : ValidTurn sampleHost :=
  ⟨{ (sampleSource 3).val with
      data := [[userMessage "hi", assistantMessage [callItem, resultItem, sampleAnswer]]] },
    { (sampleSource 3).property with
      data := rfl
      currentDataIdx := by decide
      ends := fun _ => rfl
      settled := fun _ => rfl }⟩

def calledTree : RuntimeStateTree sampleHost := ⟨[.root "s1" "r", .turn calledSource]⟩

theorem ancestors_called :
    calledTree.ancestors (.turn calledSource) =
    .ok [.root "s1" "r", .turn calledSource] := rfl

/-- A tail that ends before the user Message: the text and the completed call are kept. -/
theorem compaction_keeps_speakers_answer : ∃ node out,
    calledTree.compact calledSource "short" "t2" sampleNow = .ok node ∧
      calledTree.modelInput node = .ok [node.val] ∧
      chatMessagesFromNodes plainRenderer [node.val] = .ok out ∧
      KeptPair (itemsOf (lastItems 3 (pathParts [.turn calledSource]))) "call_1" callItem
        resultItem ∧
      KeepsSpeakers plainRenderer (lastItems 3 (pathParts [.turn calledSource])) out := by
  obtain ⟨node, above, below, out, hcompact, hsplit, hinput, hout, hiff⟩ :=
    compaction_keeps_speakers plainRenderer calledTree calledSource _ (.turn calledSource) "short"
      "t2" sampleNow (by decide) rfl ancestors_called (by simp) rfl
  obtain rfl : below = [] := by
    rcases above with _ | ⟨root, _ | ⟨other, above⟩⟩
    · cases hsplit
    · cases hsplit
      rfl
    · simp at hsplit
  have hkept : lastItems calledSource.val.firstKeptItemSize (pathParts [.turn calledSource]) =
      [⟨.assistant, callItem⟩, ⟨.assistant, resultItem⟩, ⟨.assistant, sampleAnswer⟩] := rfl
  have hpair : KeptPair (itemsOf (lastItems 3 (pathParts [.turn calledSource]))) "call_1" callItem
      resultItem :=
    ⟨List.sublist_append_left [callItem, resultItem] [sampleAnswer], rfl, rfl, rfl⟩
  rw [hkept] at hiff
  refine ⟨node, out, hcompact, ?_, hout, hpair, hiff.mpr ⟨?_, ?_, ?_⟩⟩
  · cases hcompact
    exact hinput calledTree _ rfl
  · intro part hpart huser
    simp only [List.mem_cons, List.not_mem_nil, or_false] at hpart
    obtain rfl | rfl | rfl := hpart <;> cases huser
  · intro part hpart _ hsilent
    simp only [List.mem_cons, List.not_mem_nil, or_false] at hpart
    obtain rfl | rfl | rfl := hpart
    · exact .inl rfl
    · exact .inl rfl
    · exact absurd ⟨rfl, .inl rfl⟩ hsilent
  · intro id call result hpair
    have hid : id = "call_1" := by
      obtain ⟨item, hmem, hitem⟩ : ∃ item ∈ [callItem, resultItem, sampleAnswer],
          toolId item = some id := ⟨call, hpair.kept.subset List.mem_cons_self, hpair.callId⟩
      simp only [List.mem_cons, List.not_mem_nil, or_false] at hmem
      obtain rfl | rfl | rfl := hmem
      · exact (Option.some.inj hitem).symm
      · exact (Option.some.inj hitem).symm
      · cases hitem
    subst hid
    have hcalls : callItems "call_1" (itemsOf [⟨.assistant, callItem⟩, ⟨.assistant, resultItem⟩,
      ⟨.assistant, sampleAnswer⟩]) = [callItem, resultItem] := rfl
    have hsub := hpair.sublist_callItems
    rw [hcalls] at hsub
    exact hcalls.trans (hsub.eq_of_length rfl).symm

/-- The user's text in the assistant's message. -/
theorem compaction_mixes_speakers :
    ∃ node out, (sampleTree 2).compact (sampleSource 2) "short" "t2" sampleNow = .ok node ∧
    chatMessagesFromNodes plainRenderer [node.val] = .ok out ∧ saidText out = "hia" ∧
    ¬ KeepsSpeakers plainRenderer (lastItems 2 (pathParts [.turn (sampleSource 2)])) out := by
  refine ⟨_, _, rfl, rfl, ?_, ?_⟩
  · decide +kernel
  · intro h
    exact absurd h.alone (by decide +kernel)
end MiniAgent.Context
