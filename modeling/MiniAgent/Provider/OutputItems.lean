import MiniAgent.Lib.Fragments
import MiniAgent.Provider.Responses

/-!
# Output items as a stream

The output of a response as a list of items, and every way of sending it (`Splits`): items are added
in order, and a fragment of an item comes after the item. A stream may end with the whole response,
which is then parsed instead of the fragments, or without it. A call is kept under its call id, and
a fragment of arguments is looked up by the id of its item: the two ways of closing a stream agree
exactly when the fragments of arguments find their calls (`Reached`).
-/

namespace MiniAgent.Provider.Responses

open Lib

/-! ## Items -/

structure FunctionCall where
  id : String
  callId : String
  name : String
  arguments : Fields

/-- `call_id or id`. -/
def FunctionCall.key (c : FunctionCall) : String := if c.callId = "" then c.id else c.callId

inductive OutputItem where
  | message (text : String)
  | reasoning (text : String)
  | functionCall (c : FunctionCall)

namespace OutputItem

def call? : OutputItem → Option FunctionCall
  | .functionCall c => some c
  | _ => none

def text? : OutputItem → Option String
  | .message text => some text
  | _ => none

def reasoning? : OutputItem → Option String
  | .reasoning text => some text
  | _ => none

/-- The keys of the calls. -/
def key? (item : OutputItem) : Option String := item.call?.map FunctionCall.key

end OutputItem

def callsOf (items : List OutputItem) : List FunctionCall := items.filterMap OutputItem.call?

/-- A call without a name or an id is refused by the constructor of its message. -/
def Named (items : List OutputItem) : Prop := ∀ c ∈ callsOf items, c.name ≠ "" ∧ c.key ≠ ""

structure Distinct (items : List OutputItem) : Prop where
  ids : ((callsOf items).map FunctionCall.id).Nodup
  callIds : ((callsOf items).map FunctionCall.callId).Nodup

/-- The members of an item that name a call. -/
def NamesCall (item : Fields) (c : FunctionCall) : Prop :=
  item.get "type" = some (.str "function_call") ∧ item.get "id" = some (.str c.id) ∧
    item.get "call_id" = some (.str c.callId) ∧ item.get "name" = some (.str c.name)

/-- An item of `output`. -/
def Renders (dec : Decoder) : OutputItem → Json → Prop
  | .message text, .obj item =>
    Fields.get item "type" = some (.str "message") ∧ textContent (Fields.get item "content") = text
  | .reasoning text, .obj item =>
    (Fields.get item "type" = some (.str "reasoning") ∨
      Fields.get item "type" = some (.str "summary")) ∧
      textContent (pyOr (Fields.get item "summary") (Fields.get item "content")) = text
  | .functionCall c, .obj item =>
    NamesCall item c ∧ callArguments dec (Fields.get item "arguments") = .ok (.obj c.arguments)
  | _, _ => False

/-! ## Pieces -/

/-- What an event says: item `i` is added, with the arguments it has already, or a fragment of item
`i`. -/
inductive Piece where
  | added (i : Nat) (arguments : String)
  | text (i : Nat) (s : String)
  | reasoning (i : Nat) (s : String)
  | arguments (i : Nat) (s : String)
  | other

namespace Piece

def added? : Piece → Option Nat
  | .added i _ => some i
  | _ => none

def text? : Piece → Option (Nat × String)
  | .text i s => some (i, s)
  | _ => none

def reasoning? : Piece → Option (Nat × String)
  | .reasoning i s => some (i, s)
  | _ => none

def arguments? : Piece → Option (Nat × String)
  | .arguments i s => some (i, s)
  | _ => none

/-- The item of a fragment. -/
def index? : Piece → Option Nat
  | .text i _ | .reasoning i _ | .arguments i _ => some i
  | _ => none

end Piece

def additions (pieces : List Piece) : List Nat := pieces.filterMap Piece.added?

def textFragments (pieces : List Piece) : Fragments := pieces.filterMap Piece.text?

def reasoningFragments (pieces : List Piece) : Fragments := pieces.filterMap Piece.reasoning?

def argumentFragments (pieces : List Piece) : Fragments := pieces.filterMap Piece.arguments?

/-- The kinds of events `_parse_stream` reads. -/
def readKinds : List String := ["response.output_text.delta", "response.reasoning_text.delta",
  "response.reasoning_summary_text.delta", "response.output_item.added",
    "response.function_call_arguments.delta",
  "response.completed"]

/-- The event that carries a piece. A fragment of arguments names its item by `item_id`. -/
def Carries (dec : Decoder) (items : List OutputItem) (event : Fields) : Piece → Prop
  | .added i arguments => eventKind dec event = "response.output_item.added" ∧
    ∃ item, event.get "item" = some (.obj item) ∧ match items[i]? with
      | some (.functionCall c) =>
        NamesCall item c ∧ dec.text (Fields.get item "arguments") = arguments
      | _ => Fields.get item "type" ≠ some (.str "function_call")
  | .text _ s =>
    eventKind dec event = "response.output_text.delta" ∧ event.get "delta" = some (.str s)
  | .reasoning _ s => (eventKind dec event = "response.reasoning_text.delta" ∨
    eventKind dec event = "response.reasoning_summary_text.delta") ∧
    event.get "delta" = some (.str s)
  | .arguments i s =>
    eventKind dec event = "response.function_call_arguments.delta" ∧ event.get "call_id" = none ∧
    event.get "delta" = some (.str s) ∧
    ∃ c, items[i]? = some (.functionCall c) ∧ event.get "item_id" = some (.str c.id)
  | .other => eventKind dec event ∉ readKinds

/-- The arguments item `k` is added with. -/
def initial (k : Nat) : List Piece → String
  | [] => ""
  | .added i arguments :: pieces => if i = k then arguments else initial k pieces
  | _ :: pieces => initial k pieces

/-- **A way of sending the items.** -/
structure Splits (dec : Decoder) (items : List OutputItem) (pieces : List Piece) : Prop where
  order : additions pieces = List.range items.length
  /-- A fragment comes after its item. -/
  after : ∀ before piece rest i, pieces = before ++ piece :: rest → piece.index? = some i →
    i ∈ additions before
  textKind : ∀ p ∈ textFragments pieces, ∃ s, items[p.1]? = some (.message s)
  reasoningKind : ∀ p ∈ reasoningFragments pieces, ∃ s, items[p.1]? = some (.reasoning s)
  argumentKind : ∀ p ∈ argumentFragments pieces, ∃ c, items[p.1]? = some (.functionCall c)
  text : ∀ i s, items[i]? = some (.message s) → (textFragments pieces).gather i = s
  reasoning : ∀ i s, items[i]? = some (.reasoning s) → (reasoningFragments pieces).gather i = s
  arguments : ∀ i c, items[i]? = some (.functionCall c) →
    dec.decode (initial i pieces ++ (argumentFragments pieces).gather i) = some (.obj c.arguments)

/-! ## The two ends of a stream -/

/-- `[DONE]`, or a `response.incomplete`. -/
def Closes (dec : Decoder) (closing : List Fields) : Prop :=
  closing = [] ∨ ∃ event, closing = [event] ∧ eventKind dec event = "response.incomplete"

/-- A `response.completed` with the items. -/
def Completes (dec : Decoder) (items : List OutputItem) (event : Fields) : Prop :=
  eventKind dec event = "response.completed" ∧ ∃ response output, event.get "response" =
    some (.obj response) ∧
    Fields.get response "output" = some (.arr output) ∧ List.Forall₂ (Renders dec) items output

/-- Both streams are parsed, to the same text, reasoning and calls. -/
def Agree (x y : Except ParseError Prepared) : Prop :=
  ∃ a b, x = .ok a ∧ y = .ok b ∧ a.content = b.content ∧
  a.reasoning = b.reasoning ∧ a.toolMessages = b.toolMessages

/-! ## What reaches a call -/

/-- The id of item `i`, if it is a call. -/
def itemId (items : List OutputItem) (i : Nat) : Option String :=
  (items[i]?).bind fun item => item.call?.map FunctionCall.id

/-- The key an event is taken in under. -/
def Piece.mention? (items : List OutputItem) : Piece → Option String
  | .added i _ => (items[i]?).bind OutputItem.key?
  | .arguments i _ => itemId items i
  | _ => none

def mentions (items : List OutputItem) (pieces : List Piece) : List String :=
  pieces.filterMap (Piece.mention? items)

/-- The fragments of arguments whose item has the id `key`. -/
def fragmentsFor (items : List OutputItem) (key : String) (pieces : List Piece) : String :=
  String.join (((argumentFragments pieces).filter fun p => itemId items p.1 = some key).map
    Prod.snd)

/-- What item `k` receives under its key: the arguments it is added with, and the later fragments
whose item has this id. -/
def received (items : List OutputItem) (k : Nat) (key : String) : List Piece → String
  | [] => ""
  | .added i arguments :: pieces =>
    if i = k then arguments ++ fragmentsFor items key pieces else received items k key pieces
  | _ :: pieces => received items k key pieces

/-- There is no fragment, or a fragment that says something. -/
def Heard (f : Fragments) : Prop := f = [] ∨ f.spoken ≠ ""

/-- **The fragments find their calls.** -/
structure Reached (dec : Decoder) (items : List OutputItem) (pieces : List Piece) : Prop where
  text : Heard (textFragments pieces)
  reasoning : Heard (reasoningFragments pieces)
  /-- The keys the events are taken in under are those of the calls, in their order. -/
  order : (mentions items pieces).eraseDups = (callsOf items).map FunctionCall.key
  arguments : ∀ k c, items[k]? = some (.functionCall c) →
    dec.decode (received items k c.key pieces) = some (.obj c.arguments)

variable {dec : Decoder} {items : List OutputItem} {pieces : List Piece} {events : List Fields}

/-! ## The loop over the events -/

/-- What a piece does to the calls. -/
def Takes (items : List OutputItem) (d : Dict String StreamCall) (piece : Piece)
    (d' : Dict String StreamCall) : Prop :=
  match piece with
  | .added i arguments => match items[i]? with
    | some (.functionCall c) => d' = d.set c.key ⟨c.name, c.key, arguments⟩
    | _ => d' = d
  | .arguments i s => ∃ c target, items[i]? = some (.functionCall c) ∧
    (d.get c.id = some target ∨ d.get c.id = none ∧ target.callId = c.id ∧ target.arguments = "") ∧
    d' = d.set c.id { target with arguments := target.arguments ++ s }
  | _ => d' = d

theorem eventKind_eq {event : Fields} {kind : String} (h : eventKind dec event = kind)
    (s : Streamed) :
    addEvent dec s event =
      if kind = "response.output_text.delta" then
        { s with text := s.text ++ (deltaText event).toList }
      else if kind = "response.reasoning_text.delta" ∨
        kind = "response.reasoning_summary_text.delta" then
        { s with reasoning := s.reasoning ++ (deltaText event).toList }
      else if kind = "response.output_item.added" then addCall dec s event
      else if kind = "response.function_call_arguments.delta" then addArguments dec s event
      else if kind = "response.completed" then addCompleted s event
      else s := by
  rw [addEvent, h]

theorem text_str (s : String) : dec.text (some (.str s)) = s := rfl

theorem addCall_call {s : Streamed} {event item : Fields} {c : FunctionCall} (hkey : c.key ≠ "")
    (hitem : event.get "item" = some (.obj item)) (hnames : NamesCall item c) :
    addCall dec s event =
      { s with calls := s.calls.set c.key ⟨c.name, c.key, dec.text (item.get "arguments")⟩ } := by
  obtain ⟨htype, hid, hcall, hname⟩ := hnames
  have hor : pyOr (pyOr (item.get "call_id") (item.get "id")) none = some (.str c.key) := by
    rw [hid, hcall]
    unfold FunctionCall.key at hkey ⊢
    by_cases hempty : c.callId = ""
    · rw [if_pos hempty] at hkey ⊢
      simp [pyOr, Json.truthy, hempty, hkey]
    · rw [if_neg hempty] at hkey ⊢
      simp [pyOr, Json.truthy, hempty]
  simp only [addCall, hitem, htype, if_true, hor, hname, text_str]

theorem addCall_plain {s : Streamed} {event item : Fields}
    (hitem : event.get "item" = some (.obj item))
    (htype : item.get "type" ≠ some (.str "function_call")) : addCall dec s event = s := by
  simp only [addCall, hitem, if_neg htype]

/-- **What one event does.** -/
theorem addEvent_takes {s : Streamed} {event : Fields} {piece : Piece} (hnamed : Named items)
    (h : Carries dec items event piece) : ∃ d, Takes items s.calls piece d ∧ addEvent dec s event =
      { s with text := s.text ++ (piece.text?.map Prod.snd).toList
               reasoning := s.reasoning ++ (piece.reasoning?.map Prod.snd).toList,
               calls := d } := by
  cases piece with
  | added i arguments =>
    obtain ⟨hkind, item, hitem, hadded⟩ := h
    have hstep : addEvent dec s event = addCall dec s event := by
      rw [eventKind_eq hkind]
      rfl
    rw [hstep]
    simp only [Takes, Piece.text?, Piece.reasoning?, Option.map_none, Option.toList_none,
      List.append_nil]
    rcases hi : items[i]? with _ | item'
    · rw [hi] at hadded
      exact ⟨s.calls, rfl, addCall_plain hitem hadded⟩
    cases item' with
    | message t =>
      rw [hi] at hadded
      exact ⟨s.calls, rfl, addCall_plain hitem hadded⟩
    | reasoning t =>
      rw [hi] at hadded
      exact ⟨s.calls, rfl, addCall_plain hitem hadded⟩
    | functionCall c =>
      rw [hi] at hadded
      have hkey : c.key ≠ "" :=
        (hnamed c (List.mem_filterMap.mpr ⟨_, List.mem_of_getElem? hi, rfl⟩)).2
      exact ⟨_, rfl, by rw [addCall_call hkey hitem hadded.1, hadded.2]⟩
  | text i t =>
    obtain ⟨hkind, hdelta⟩ := h
    refine ⟨s.calls, rfl, ?_⟩
    rw [eventKind_eq hkind]
    simp [deltaText, hdelta, isText, Piece.text?, Piece.reasoning?]
  | reasoning i t =>
    obtain ⟨hkind, hdelta⟩ := h
    refine ⟨s.calls, rfl, ?_⟩
    rcases hkind with hkind | hkind
    · rw [eventKind_eq hkind]
      simp [deltaText, hdelta, isText, Piece.text?, Piece.reasoning?]
    · rw [eventKind_eq hkind]
      simp [deltaText, hdelta, isText, Piece.text?, Piece.reasoning?]
  | arguments i t =>
    obtain ⟨hkind, hcall, hdelta, c, hi, hid⟩ := h
    have hkey : dec.text (pyOr (event.get "call_id") (event.get "item_id")) = c.id := by
      rw [hcall, hid]
      rfl
    refine ⟨_, ⟨c, (s.calls.get c.id).getD ⟨dec.text (event.get "name"), c.id, ""⟩,
      hi, ?_, rfl⟩, ?_⟩
    · rcases s.calls.get c.id with _ | target
      · exact .inr ⟨rfl, rfl, rfl⟩
      · exact .inl rfl
    · rw [eventKind_eq hkind]
      simp [addArguments, hkey, hdelta, isText, Piece.text?, Piece.reasoning?]
  | other =>
    refine ⟨s.calls, rfl, ?_⟩
    have hskip : ∀ kind ∈ readKinds, eventKind dec event ≠ kind :=
      fun kind hmem heq => h (heq ▸ hmem)
    simp only [readKinds, List.forall_mem_cons] at hskip
    obtain ⟨h1, h2, h3, h4, h5, h6, -⟩ := hskip
    simp [addEvent, h1, h2, h3, h4, h5, h6, Piece.text?, Piece.reasoning?]

/-- What the pieces do to the calls, one after the other. -/
def TakesAll (items : List OutputItem) (d : Dict String StreamCall) :
    List Piece → Dict String StreamCall → Prop
  | [], d' => d' = d
  | piece :: pieces, d' => ∃ m, Takes items d piece m ∧ TakesAll items m pieces d'

/-- **What the events do.** -/
theorem addEvents_takes {s : Streamed} (hnamed : Named items)
    (h : List.Forall₂ (Carries dec items) events pieces) :
    ∃ d, TakesAll items s.calls pieces d ∧ events.foldl (addEvent dec) s =
      { s with text := s.text ++ (textFragments pieces).map Prod.snd
               reasoning := s.reasoning ++ (reasoningFragments pieces).map Prod.snd,
               calls := d } := by
  induction h generalizing s with
  | nil => exact ⟨s.calls, rfl, by simp [textFragments, reasoningFragments]⟩
  | @cons event piece events pieces hfirst _ ih =>
    obtain ⟨m, htakes, hstep⟩ := addEvent_takes (s := s) hnamed hfirst
    rw [List.foldl_cons, hstep]
    obtain ⟨d, hall, hrest⟩ := ih (s := { s with
      text := s.text ++ (piece.text?.map Prod.snd).toList
      reasoning := s.reasoning ++ (piece.reasoning?.map Prod.snd).toList, calls := m })
    refine ⟨d, ⟨m, htakes, hall⟩, ?_⟩
    rw [hrest]
    cases piece <;> simp [textFragments, reasoningFragments, List.filterMap_cons,
      Piece.text?, Piece.reasoning?]

/-! ## The calls in the end -/

variable {d d' : Dict String StreamCall}

theorem eraseDups_append_cons {α : Type} [DecidableEq α] (l m : List α) (a : α) :
    ((if a ∈ l then l else l ++ [a]) ++ m).eraseDups = (l ++ a :: m).eraseDups := by
  by_cases h : a ∈ l
  · rw [if_pos h, List.eraseDups_append, List.eraseDups_append]
    simp [List.removeAll, h]
  · rw [if_neg h, List.append_assoc]
    rfl

theorem eraseDups_of_nodup {α : Type} [DecidableEq α] {l : List α} (h : l.Nodup) :
    l.eraseDups = l := by
  induction l with
  | nil => rfl
  | cons a l ih =>
    obtain ⟨ha, hl⟩ := List.nodup_cons.mp h
    have hfilter : (l.filter fun b => !b == a) = l := by
      refine List.filter_eq_self.mpr fun b hb => ?_
      have hne : b ≠ a := fun heq => ha (heq ▸ hb)
      simpa using hne
    rw [List.eraseDups_cons, hfilter, ih hl]

/-- The key a piece sets. -/
theorem Takes.keys {piece : Piece} (h : Takes items d piece d') :
    (piece.mention? items = none ∧ d' = d) ∨ ∃ k v, piece.mention? items = some k ∧
      d' = d.set k v := by
  cases piece with
  | added i arguments =>
    simp only [Takes] at h
    rcases hi : items[i]? with _ | item
    · rw [hi] at h
      exact .inl ⟨by simp [Piece.mention?, hi], h⟩
    rw [hi] at h
    cases item with
    | message t => exact .inl ⟨by simp [Piece.mention?, hi, OutputItem.key?, OutputItem.call?], h⟩
    | reasoning t => exact .inl ⟨by simp [Piece.mention?, hi, OutputItem.key?, OutputItem.call?], h⟩
    | functionCall c =>
      exact .inr ⟨c.key, _, by simp [Piece.mention?, hi, OutputItem.key?, OutputItem.call?], h⟩
  | arguments i s =>
    obtain ⟨c, target, hi, -, hd⟩ := h
    exact .inr ⟨c.id, _, by simp [Piece.mention?, itemId, hi, OutputItem.call?], hd⟩
  | text i s => exact .inl ⟨rfl, h⟩
  | reasoning i s => exact .inl ⟨rfl, h⟩
  | other => exact .inl ⟨rfl, h⟩

/-- The keys in the end: those the events named, in the order in which they were named first. -/
theorem TakesAll.keys (h : TakesAll items d pieces d') :
    d'.keys = (d.keys ++ mentions items pieces).eraseDups := by
  induction pieces generalizing d with
  | nil =>
    rw [show d' = d from h, mentions, List.filterMap_nil, List.append_nil]
    exact (eraseDups_of_nodup d.nodup).symm
  | cons piece pieces ih =>
    obtain ⟨m, htakes, hall⟩ := h
    rw [ih hall, mentions, mentions]
    rcases htakes.keys with ⟨hnone, rfl⟩ | ⟨k, v, hsome, rfl⟩
    · rw [List.filterMap_cons_none hnone]
    · rw [List.filterMap_cons_some hsome, Dict.keys_set, eraseDups_append_cons]

/-- Each call has its key for its call id. -/
def OwnKeys (d : Dict String StreamCall) : Prop := ∀ k v, d.get k = some v → v.callId = k

theorem OwnKeys.set {k : String} {v : StreamCall} (h : OwnKeys d) (hv : v.callId = k) :
    OwnKeys (d.set k v) := by
  intro k' v' hget
  rw [Dict.get_set] at hget
  split at hget
  · next heq =>
    cases hget
    exact hv.trans heq
  · exact h k' v' hget

theorem OwnKeys.takes {piece : Piece} (h : OwnKeys d) (htakes : Takes items d piece d') :
    OwnKeys d' := by
  cases piece with
  | added i arguments =>
    simp only [Takes] at htakes
    split at htakes
    · subst htakes
      exact h.set rfl
    · exact htakes ▸ h
  | arguments i s =>
    obtain ⟨c, target, -, htarget, rfl⟩ := htakes
    refine h.set ?_
    rcases htarget with hget | ⟨-, hid, -⟩
    · exact h c.id target hget
    · exact hid
  | text i s => exact htakes ▸ h
  | reasoning i s => exact htakes ▸ h
  | other => exact htakes ▸ h

theorem OwnKeys.takesAll (h : OwnKeys d) (hall : TakesAll items d pieces d') : OwnKeys d' := by
  induction pieces generalizing d with
  | nil => exact hall ▸ h
  | cons piece pieces ih =>
    obtain ⟨m, htakes, hall⟩ := hall
    exact ih (h.takes htakes) hall

/-- An entry whose key no later item has only grows, by the fragments with its key. -/
theorem TakesAll.grows {key name a : String} (h : TakesAll items d pieces d')
    (hget : d.get key = some ⟨name, key, a⟩)
    (hnew : ∀ i ∈ additions pieces, (items[i]?).bind OutputItem.key? ≠ some key) :
    d'.get key = some ⟨name, key, a ++ fragmentsFor items key pieces⟩ := by
  induction pieces generalizing d a with
  | nil =>
    rw [show d' = d from h, hget]
    simp [fragmentsFor, argumentFragments]
  | cons piece pieces ih =>
    obtain ⟨m, htakes, hall⟩ := h
    cases piece with
    | added i arguments =>
      have hsame : m.get key = some ⟨name, key, a⟩ := by
        have hi := hnew i (by simp [additions, Piece.added?])
        simp only [Takes] at htakes
        split at htakes
        · next c hc =>
          subst htakes
          have hne : ¬ c.key = key := fun heq =>
            hi (by simp [hc, OutputItem.key?, OutputItem.call?, heq])
          rw [Dict.get_set, if_neg hne, hget]
        · rw [htakes, hget]
      have hrest : ∀ j ∈ additions pieces, (items[j]?).bind OutputItem.key? ≠ some key :=
        fun j hj =>
        hnew j (by simp [additions, Piece.added?, show j ∈ pieces.filterMap Piece.added? from hj] )
      exact ih hall hsame hrest
    | arguments i s =>
      obtain ⟨c, target, hi, htarget, rfl⟩ := htakes
      have hid : itemId items i = some c.id := by simp [itemId, hi, OutputItem.call?]
      by_cases hkey : c.id = key
      · subst hkey
        obtain rfl : target = ⟨name, c.id, a⟩ := by
          rcases htarget with hsome | ⟨hnone, -⟩
          · exact Option.some.inj (hsome.symm.trans hget)
          · cases hnone.symm.trans hget
        rw [ih hall (by rw [Dict.get_set, if_pos rfl]) hnew]
        simp [fragmentsFor, argumentFragments, Piece.arguments?, hid, String.append_assoc]
      · have hsame : (d.set c.id { target with arguments := target.arguments ++ s }).get key =
          some ⟨name, key, a⟩ := by
          rw [Dict.get_set, if_neg hkey, hget]
        rw [ih hall hsame hnew]
        simp [fragmentsFor, argumentFragments, Piece.arguments?, hid, hkey]
    | text i s => exact ih hall (htakes ▸ hget) hnew
    | reasoning i s => exact ih hall (htakes ▸ hget) hnew
    | other => exact ih hall (htakes ▸ hget) hnew

/-- **What a call has in the end**, when no other one has its key. -/
theorem TakesAll.received {k : Nat} {c : FunctionCall} (h : TakesAll items d pieces d')
    (hk : items[k]? = some (.functionCall c))
    (hunique : ∀ j, (items[j]?).bind OutputItem.key? = some c.key → j = k)
    (hnodup : (additions pieces).Nodup) (hmem : k ∈ additions pieces) :
    d'.get c.key = some ⟨c.name, c.key, Responses.received items k c.key pieces⟩ := by
  induction pieces generalizing d with
  | nil => cases hmem
  | cons piece pieces ih =>
    obtain ⟨m, htakes, hall⟩ := h
    cases piece with
    | added i arguments =>
      have hadditions : additions (.added i arguments :: pieces) = i :: additions pieces := rfl
      rw [hadditions] at hmem hnodup
      obtain ⟨hfirst, hrest⟩ := List.nodup_cons.mp hnodup
      rw [Responses.received]
      by_cases hi : i = k
      · subst hi
        rw [if_pos rfl]
        simp only [Takes, hk] at htakes
        subst htakes
        refine hall.grows (by rw [Dict.get_set, if_pos rfl]) fun j hj hkey => ?_
        exact hfirst (hunique j hkey ▸ hj)
      · rw [if_neg hi]
        exact ih hall hrest ((List.mem_cons.mp hmem).resolve_left fun heq => hi heq.symm)
    | text i s => exact ih hall hnodup hmem
    | reasoning i s => exact ih hall hnodup hmem
    | arguments i s => exact ih hall hnodup hmem
    | other => exact ih hall hnodup hmem

theorem callsOf_keys (items : List OutputItem) :
    (callsOf items).map FunctionCall.key = items.filterMap OutputItem.key? := by
  rw [callsOf, List.map_filterMap]
  rfl

/-- Calls with keys of their own. -/
theorem key_unique {k : Nat} {key : String}
    (hnodup : ((callsOf items).map FunctionCall.key).Nodup)
    (hk : (items[k]?).bind OutputItem.key? = some key) (j : Nat)
    (hj : (items[j]?).bind OutputItem.key? = some key) : j = k := by
  rw [callsOf_keys, List.Nodup, List.pairwise_filterMap, List.pairwise_iff_getElem] at hnodup
  obtain ⟨a, ha, hakey⟩ := Option.bind_eq_some_iff.mp hk
  obtain ⟨b, hb, hbkey⟩ := Option.bind_eq_some_iff.mp hj
  obtain ⟨hlta, rfl⟩ := List.getElem?_eq_some_iff.mp ha
  obtain ⟨hltb, rfl⟩ := List.getElem?_eq_some_iff.mp hb
  rcases Nat.lt_trichotomy j k with hlt | heq | hlt
  · exact absurd rfl (hnodup j k hltb hlta hlt key hbkey key hakey)
  · exact heq
  · exact absurd rfl (hnodup k j hlta hltb hlt key hakey key hbkey)

/-! ## The whole response -/

/-- The calls as the response says them. -/
def Expected (items : List OutputItem) (tools : List ToolMessage) : Prop :=
  List.Forall₂ (fun (c : FunctionCall) t => pendingTool c.name c.key (.obj c.arguments) = .ok t)
    (callsOf items) tools

theorem pendingTool_named {name callId : String} {arguments : Json} (hname : name ≠ "")
    (hcall : callId ≠ "") :
    ∃ t, pendingTool name callId arguments = .ok t := by
  simp [pendingTool, ToolMessage.pending, ToolMessage.make, hname, hcall]

theorem pendingTool_fields {name callId : String} {arguments : Json} {t : ToolMessage}
    (h : pendingTool name callId arguments = .ok t) : t.name = name ∧ t.callId = callId ∧
    t.arguments = arguments := by
  unfold pendingTool at h
  split at h
  · next t' ht =>
    cases h
    obtain ⟨h1, h2, h3, -⟩ := ToolMessage.pending_ok ht
    exact ⟨h1, h2, h3⟩
  · cases h

theorem addItem_renders (out : Output) {item : OutputItem} {json : Json}
    (hnamed : ∀ c, item.call? = some c → c.name ≠ "" ∧ c.key ≠ "") (h : Renders dec item json) :
    ∃ tools, List.Forall₂ (fun (c : FunctionCall) t =>
        pendingTool c.name c.key (.obj c.arguments) = .ok t) item.call?.toList tools ∧
      addItem dec out json = .ok ⟨out.content ++ item.text?.getD "",
        out.reasoning ++ item.reasoning?.getD "",
        out.tools ++ tools⟩ := by
  cases item with
  | message t =>
    cases json with
    | obj f =>
      obtain ⟨htype, htext⟩ := h
      exact ⟨[], .nil, by simp [addItem, htype, htext, OutputItem.text?, OutputItem.reasoning?]⟩
    | _ => cases h
  | reasoning t =>
    cases json with
    | obj f =>
      obtain ⟨htype, htext⟩ := h
      refine ⟨[], .nil, ?_⟩
      rcases htype with htype | htype
      · simp [addItem, htype, htext, Json.hashable, OutputItem.text?, OutputItem.reasoning?]
      · simp [addItem, htype, htext, Json.hashable, OutputItem.text?, OutputItem.reasoning?]
    | _ => cases h
  | functionCall c =>
    cases json with
    | obj f =>
      obtain ⟨⟨htype, hid, hcall, hname⟩, harguments⟩ := h
      obtain ⟨hname_ne, hkey_ne⟩ := hnamed c rfl
      obtain ⟨t, ht⟩ : ∃ t, pendingTool c.name c.key (.obj c.arguments) = .ok t :=
        pendingTool_named hname_ne hkey_ne
      refine ⟨[t], .cons ht .nil, ?_⟩
      have hkey : dec.text (pyOr (Fields.get f "call_id") (Fields.get f "id")) = c.key := by
        rw [hid, hcall, FunctionCall.key]
        by_cases hempty : c.callId = ""
        · simp [pyOr, Json.truthy, hempty, text_str]
        · simp [pyOr, Json.truthy, hempty, text_str]
      have hadd : addItem dec out (.obj f) = (do
          let arguments ← callArguments dec (Fields.get f "arguments")
          let tool ← pendingTool (dec.text (Fields.get f "name"))
            (dec.text (pyOr (Fields.get f "call_id") (Fields.get f "id")))
            arguments
          pure { out with tools := out.tools ++ [tool] }) := by
        simp [addItem, htype, Json.hashable]
      rw [hadd, harguments, hkey, hname]
      show (pendingTool c.name c.key (.obj c.arguments) >>= _) = _
      rw [ht]
      simp [OutputItem.text?, OutputItem.reasoning?]
    | _ => cases h

theorem addItems_renders (out : Output) {output : List Json} (hnamed : Named items)
    (h : List.Forall₂ (Renders dec) items output) :
    ∃ tools, Expected items tools ∧ addItems dec out output =
      .ok ⟨out.content ++ String.join (items.filterMap OutputItem.text?),
      out.reasoning ++ String.join (items.filterMap OutputItem.reasoning?),
      out.tools ++ tools⟩ := by
  induction h generalizing out with
  | nil => exact ⟨[], .nil, by simp [addItems]⟩
  | @cons item json items output hfirst _ ih =>
    have hitem : ∀ c, item.call? = some c → c.name ≠ "" ∧ c.key ≠ "" := fun c hc =>
      hnamed c (List.mem_filterMap.mpr ⟨item, List.mem_cons_self, hc⟩)
    have hrest : Named items := fun c hc => hnamed c (by
      obtain ⟨i, hi, hci⟩ := List.mem_filterMap.mp hc
      exact List.mem_filterMap.mpr ⟨i, List.mem_cons_of_mem _ hi, hci⟩)
    obtain ⟨tools, htools, hadd⟩ := addItem_renders out hitem hfirst
    obtain ⟨later, hlater, hall⟩ :=
      ih ⟨out.content ++ item.text?.getD "", out.reasoning ++ item.reasoning?.getD "",
      out.tools ++ tools⟩ hrest
    refine ⟨tools ++ later, ?_, ?_⟩
    · have hcalls : callsOf (item :: items) = item.call?.toList ++ callsOf items := by
        rw [callsOf, List.filterMap_cons]
        rcases item.call? with _ | c <;> rfl
      rw [Expected, hcalls]
      exact List.rel_append htools hlater
    · rw [addItems, hadd]
      show addItems dec _ output = _
      rw [hall]
      cases item <;> simp [OutputItem.text?, OutputItem.reasoning?, List.filterMap_cons,
        String.append_assoc]

/-! ## The calls of the fragments -/

theorem finishCalls_ok {calls : List StreamCall} {tools : List ToolMessage} :
    finishCalls dec calls = .ok tools ↔
    List.Forall₂ (fun call t => finishCall dec call = .ok t) calls tools := by
  induction calls generalizing tools with
  | nil => cases tools <;> simp [finishCalls]
  | cons call calls ih =>
    rw [finishCalls_cons]
    rcases hfirst : finishCall dec call with e | t
    · refine iff_of_false (fun h => by cases h) fun h => ?_
      cases h with
      | cons h _ => cases hfirst.symm.trans h
    · rcases hrest : finishCalls dec calls with e | rest
      · refine iff_of_false (fun h => by cases h) fun h => ?_
        cases h with
        | cons _ h => cases hrest.symm.trans (ih.mpr h)
      · constructor
        · intro h
          cases h
          exact .cons hfirst (ih.mp hrest)
        · intro h
          cases h with
          | cons h htools =>
            cases hfirst.symm.trans h
            cases hrest.symm.trans (ih.mpr htools)
            rfl

/-- A call of the stream is a call of the response. -/
def Matches (dec : Decoder) (v : StreamCall) (c : FunctionCall) : Prop :=
  v.name = c.name ∧ v.callId = c.key ∧ dec.decode v.arguments = some (.obj c.arguments)

theorem finishCall_matches {v : StreamCall} {c : FunctionCall} {t : ToolMessage}
    (ht : pendingTool c.name c.key (.obj c.arguments) = .ok t) : finishCall dec v = .ok t ↔
    Matches dec v c := by
  unfold finishCall Matches
  rcases hdecode : dec.decode v.arguments with _ | arguments
  · exact iff_of_false (fun h => nomatch h) fun h => nomatch h.2.2
  constructor
  · intro h
    obtain ⟨hname, hcall, harguments⟩ := pendingTool_fields ht
    obtain ⟨hname', hcall', harguments'⟩ :=
      pendingTool_fields (show pendingTool v.name v.callId arguments = .ok t from h)
    exact ⟨hname'.symm.trans hname, hcall'.symm.trans hcall,
      congrArg some (harguments'.symm.trans harguments)⟩
  · rintro ⟨hname, hcall, harguments⟩
    show pendingTool v.name v.callId arguments = .ok t
    rw [hname, hcall, Option.some.inj harguments, ht]

theorem finishCalls_matches {values : List StreamCall} {calls : List FunctionCall}
    {tools : List ToolMessage}
    (h : List.Forall₂ (fun (c : FunctionCall) t => pendingTool c.name c.key (.obj c.arguments) =
      .ok t) calls tools) :
    finishCalls dec values = .ok tools ↔ List.Forall₂ (Matches dec) values calls := by
  rw [finishCalls_ok]
  induction h generalizing values with
  | nil => cases values <;> simp
  | cons ht _ ih =>
    cases values with
    | nil => simp
    | cons v values => rw [List.forall₂_cons, List.forall₂_cons, finishCall_matches ht, ih]

theorem forall₂_of_map_eq {α β γ : Type} {f : α → γ} {g : β → γ} {l : List α} {m : List β}
    (h : l.map f = m.map g) :
    List.Forall₂ (fun a b => f a = g b ∧ a ∈ l ∧ b ∈ m) l m := by
  refine List.forall₂_iff_get.mpr ⟨by simpa using congrArg List.length h,
    fun i hl hm => ⟨?_, List.get_mem l _, List.get_mem m _⟩⟩
  have hi : (l.map f)[i]? = (m.map g)[i]? := by rw [h]
  simpa [hl, hm] using hi

/-- **The calls the fragments make are those of the response exactly when the fragments find
them.** -/
theorem calls_match (hall : TakesAll items .empty pieces d)
    (horder : additions pieces = List.range items.length) :
    List.Forall₂ (Matches dec) d.values (callsOf items) ↔
      (mentions items pieces).eraseDups = (callsOf items).map FunctionCall.key ∧
      ∀ k c, items[k]? = some (.functionCall c) → dec.decode (received items k c.key pieces) =
        some (.obj c.arguments) := by
  have hkeys : d.keys = (mentions items pieces).eraseDups := hall.keys
  have hempty : OwnKeys .empty := by
    intro k v h
    rw [Dict.get_empty] at h
    cases h
  have hown : OwnKeys d := hempty.takesAll hall
  -- a call with a key of its own has what it received
  have hreceived : d.keys = (callsOf items).map FunctionCall.key →
      ∀ k c, items[k]? = some (.functionCall c) →
      d.get c.key = some ⟨c.name, c.key, received items k c.key pieces⟩ := by
    intro hsame k c hk
    have hkey : (items[k]?).bind OutputItem.key? = some c.key := by
      rw [hk]
      rfl
    refine hall.received hk (key_unique (hsame ▸ d.nodup) hkey) (horder ▸ List.nodup_range) ?_
    rw [horder, List.mem_range]
    exact (List.getElem?_eq_some_iff.mp hk).1
  rw [← hkeys]
  constructor
  · intro h
    have hsame : d.keys = (callsOf items).map FunctionCall.key := by
      have hcalls : d.values.map StreamCall.callId = (callsOf items).map FunctionCall.key := by
        rw [← List.forall₂_eq_eq_eq, List.forall₂_map_left_iff, List.forall₂_map_right_iff]
        exact h.imp fun v c hm => hm.2.1
      rw [← hcalls, Dict.values, Dict.keys, List.map_map]
      exact List.map_congr_left fun p hp => (hown p.1 p.2 ((d.get_eq_some).mpr hp)).symm
    refine ⟨hsame, fun k c hk => ?_⟩
    have hc : c ∈ callsOf items := List.mem_filterMap.mpr ⟨_, List.mem_of_getElem? hk, rfl⟩
    obtain ⟨v, hv, -, hcall, hdecode⟩ : ∃ v ∈ d.values, Matches dec v c := by
      obtain ⟨i, hi, rfl⟩ := List.getElem_of_mem hc
      have hlt : i < d.values.length := by rw [h.length_eq]; exact hi
      exact ⟨d.values[i], List.getElem_mem hlt, (List.forall₂_iff_get.mp h).2 i hlt hi⟩
    obtain ⟨key, hget⟩ := (d.mem_values).mp hv
    have hkey : key = c.key := (hown key v hget).symm.trans hcall
    have hv' : v = ⟨c.name, c.key, received items k c.key pieces⟩ :=
      Option.some.inj (hget.symm.trans (hkey ▸ hreceived hsame k c hk))
    rw [hv'] at hdecode
    exact hdecode
  · rintro ⟨hsame, harguments⟩
    have hentries : d.entries.map Prod.fst = (callsOf items).map FunctionCall.key := hsame
    rw [Dict.values, List.forall₂_map_left_iff]
    refine (forall₂_of_map_eq hentries).imp fun p c hall => ?_
    obtain ⟨hkey, hp, hc⟩ := hall
    obtain ⟨item, hitem, hcall⟩ := List.mem_filterMap.mp hc
    obtain ⟨k, hk⟩ := List.mem_iff_getElem?.mp hitem
    have hk' : items[k]? = some (.functionCall c) := by
      cases item with
      | functionCall c' =>
        cases hcall
        exact hk
      | _ => cases hcall
    have hget : d.get c.key = some p.2 := (d.get_eq_some).mpr (hkey ▸ hp)
    have hv : p.2 = ⟨c.name, c.key, received items k c.key pieces⟩ :=
      Option.some.inj (hget.symm.trans (hreceived hsame k c hk'))
    rw [hv]
    exact ⟨rfl, rfl, harguments k c hk'⟩

/-! ## The two ends compared -/

theorem foldl_closing {closing : List Fields} (h : Closes dec closing) (s : Streamed) :
    closing.foldl (addEvent dec) s = s := by
  rcases h with rfl | ⟨event, rfl, hkind⟩
  · rfl
  · exact eventKind_eq hkind s

theorem addCompleted_completes {event response : Fields}
    (hkind : eventKind dec event = "response.completed")
    (h : event.get "response" = some (.obj response)) (s : Streamed) :
    addEvent dec s event = { s with
      final := some response, usage := (usageOf (Fields.get response "usage")).or s.usage } := by
  rw [eventKind_eq hkind]
  simp [addCompleted, h]

/-- A text without fragments is empty; one with fragments is what they say. -/
theorem text_agrees {f : Fragments} {texts : List String} (h : f = [] → ∀ t ∈ texts, t = "") :
    joined (f.map Prod.snd) = (if (f.map Prod.snd).isEmpty then orNone (String.join texts)
      else some (String.join (f.map Prod.snd))) ↔ Heard f := by
  unfold Heard
  by_cases hnil : f = []
  · have hempty : String.join texts = "" := by
      have hjoin := Fragments.join_map_eq_empty (l := texts) (g := id) (h hnil)
      rwa [List.map_id] at hjoin
    subst hnil
    rw [hempty]
    exact iff_of_true rfl (.inl rfl)
  · have hmap : (f.map Prod.snd).isEmpty = false := by simpa using hnil
    rw [hmap, if_neg Bool.false_ne_true, joined, or_iff_right hnil, Fragments.spoken]
    by_cases hspoken : String.join (f.map Prod.snd) = "" <;> simp [hspoken]

/-- The texts of the messages are empty when there is no fragment. -/
theorem Splits.silent (h : Splits dec items pieces) :
    (textFragments pieces = [] → ∀ t ∈ items.filterMap OutputItem.text?, t = "") ∧
    (reasoningFragments pieces = [] → ∀ t ∈ items.filterMap OutputItem.reasoning?, t = "") := by
  constructor
  · intro hnil t ht
    obtain ⟨item, hitem, hitemt⟩ := List.mem_filterMap.mp ht
    obtain ⟨k, hk⟩ := List.mem_iff_getElem?.mp hitem
    cases item with
    | message t' =>
      cases hitemt
      rw [← h.text k t hk, hnil]
      rfl
    | _ => cases hitemt
  · intro hnil t ht
    obtain ⟨item, hitem, hitemt⟩ := List.mem_filterMap.mp ht
    obtain ⟨k, hk⟩ := List.mem_iff_getElem?.mp hitem
    cases item with
    | reasoning t' =>
      cases hitemt
      rw [← h.reasoning k t hk, hnil]
      rfl
    | _ => cases hitemt

/-- The two ways of closing a stream agree exactly when the fragments of arguments find their
calls. -/
theorem closing_event_immaterial (dec : Decoder) (items : List OutputItem) (pieces : List Piece)
    (events closing : List Fields) (completed : Fields) (hnamed : Named items)
    (hsplits : Splits dec items pieces)
    (hcarries : List.Forall₂ (Carries dec items) events pieces) (hcloses : Closes dec closing)
    (hcompletes : Completes dec items completed) :
    Agree (parseStream dec (events ++ closing)) (parseStream dec (events ++ [completed])) ↔
    Reached dec items pieces := by
  obtain ⟨d, hall, hfold⟩ := addEvents_takes (s := .new) hnamed hcarries
  obtain ⟨hkind, response, output, hresponse, houtput, hrenders⟩ := hcompletes
  obtain ⟨tools, htools, hitems⟩ := addItems_renders ⟨"", "", []⟩ hnamed hrenders
  -- the stream without the response
  have hwithout : parseStream dec (events ++ closing) = (do
      let tools ← finishCalls dec d.values
      pure ⟨joined ((textFragments pieces).map Prod.snd),
        joined ((reasoningFragments pieces).map Prod.snd), tools, none,
        none, none, none⟩) := by
    rw [parseStream, List.foldl_append, foldl_closing hcloses, hfold]
    rfl
  -- and with it
  obtain ⟨whole, hwith, hcontent, hreasoning, hwhole⟩ :
      ∃ whole, parseStream dec (events ++ [completed]) = .ok whole ∧
      whole.content = (if ((textFragments pieces).map Prod.snd).isEmpty then
        orNone (String.join (items.filterMap OutputItem.text?))
        else some (String.join ((textFragments pieces).map Prod.snd))) ∧
      whole.reasoning = (if ((reasoningFragments pieces).map Prod.snd).isEmpty then
        orNone (String.join (items.filterMap OutputItem.reasoning?))
        else some (String.join ((reasoningFragments pieces).map Prod.snd))) ∧
          whole.toolMessages = tools := by
    rw [parseStream, List.foldl_append, hfold, List.foldl_cons, List.foldl_nil,
      addCompleted_completes hkind hresponse]
    simp only [finish, parseJson, houtput, hitems, String.empty_append, List.nil_append,
      Streamed.new]
    exact ⟨_, rfl, rfl, rfl, rfl⟩
  have htext := text_agrees hsplits.silent.1
  have hreason := text_agrees hsplits.silent.2
  have hcalls : finishCalls dec d.values = .ok tools ↔ _ :=
    (finishCalls_matches htools).trans (calls_match hall hsplits.order)
  rw [hwithout, hwith]
  constructor
  · rintro ⟨a, b, ha, hb, hac, har, hat⟩
    cases hb
    rcases hfinish : finishCalls dec d.values with e | tools'
    · rw [hfinish] at ha
      cases ha
    · rw [hfinish] at ha
      cases ha
      have hsame : tools' = tools := hat.trans hwhole
      obtain ⟨horder, harguments⟩ := hcalls.mp (hsame ▸ hfinish)
      exact ⟨htext.mp (hac.trans hcontent), hreason.mp (har.trans hreasoning), horder, harguments⟩
  · rintro ⟨h1, h2, h3, h4⟩
    rw [hcalls.mpr ⟨h3, h4⟩]
    exact ⟨_, _, rfl, rfl, (htext.mpr h1).trans hcontent.symm,
      (hreason.mpr h2).trans hreasoning.symm, hwhole.symm⟩

/-! ## Calls whose two ids are one -/

/-- A call with fragments of arguments has its key for its id. -/
def Alike (items : List OutputItem) (pieces : List Piece) : Prop :=
  ∀ p ∈ argumentFragments pieces, ∀ c, items[p.1]? = some (.functionCall c) → c.id = c.key

/-- The id of a call is not the key of another. -/
def Uncrossed (items : List OutputItem) : Prop := ∀ (i j : Nat) (c c' : FunctionCall),
  items[i]? = some (.functionCall c) → items[j]? = some (.functionCall c') → c.id = c'.key → i = j

theorem Alike.append_left {l m : List Piece} (h : Alike items (l ++ m)) : Alike items l := by
  intro p hp
  refine h p ?_
  rw [argumentFragments, List.filterMap_append]
  exact List.mem_append_left _ hp

/-- The keys of the items that were added. -/
def addedKeys (items : List OutputItem) (pieces : List Piece) : List String :=
  (additions pieces).filterMap fun i => (items[i]?).bind OutputItem.key?

theorem mentions_alike (halike : Alike items pieces) (hnodup : (addedKeys items pieces).Nodup)
    (hafter : ∀ before piece rest i, pieces = before ++ piece :: rest → piece.index? = some i →
      i ∈ additions before)
    (hkind : ∀ p ∈ argumentFragments pieces, ∃ c, items[p.1]? = some (.functionCall c)) :
    (mentions items pieces).eraseDups = addedKeys items pieces := by
  induction pieces using List.reverseRecOn with
  | nil => rfl
  | append_singleton l piece ih =>
    have hadded : addedKeys items (l ++ [piece]) = addedKeys items l ++
        addedKeys items [piece] := by
      simp [addedKeys, additions, List.filterMap_append]
    have hmentions : mentions items (l ++ [piece]) = mentions items l ++ mentions items [piece] :=
      List.filterMap_append
    rw [hadded] at hnodup
    have hl : (mentions items l).eraseDups = addedKeys items l := by
      refine ih halike.append_left (List.nodup_append.mp hnodup).1
        (fun before p rest i hsplit => ?_) fun p hp => ?_
      · exact hafter before p (rest ++ [piece]) i (by rw [hsplit]; simp)
      · refine hkind p ?_
        rw [argumentFragments, List.filterMap_append]
        exact List.mem_append_left _ hp
    rw [hmentions, hadded, List.eraseDups_append, hl]
    congr 1
    cases piece with
    | added i a =>
      have hsame : mentions items [.added i a] = addedKeys items [.added i a] := by
        simp only [mentions, addedKeys, additions, Piece.added?, List.filterMap_cons,
          List.filterMap_nil, Piece.mention?]
      rw [hsame]
      -- a key of an item that is added is new
      have hnew : (addedKeys items [.added i a]).removeAll (mentions items l) =
          addedKeys items [.added i a] := by
        refine List.filter_eq_self.mpr fun key hkey => ?_
        have hout : key ∉ mentions items l := by
          rw [← List.mem_eraseDups, hl]
          intro hmem
          exact (List.nodup_append.mp hnodup).2.2 key hmem key hkey rfl
        simpa using hout
      rw [hnew]
      exact eraseDups_of_nodup (List.nodup_append.mp hnodup).2.1
    | arguments i t =>
      have hmem : ((i, t) : Nat × String) ∈ argumentFragments (l ++ [.arguments i t]) := by
        simp [argumentFragments, Piece.arguments?]
      obtain ⟨c, hc⟩ := hkind _ hmem
      have hid : c.id = c.key := halike _ hmem c hc
      have hi : i ∈ additions l := hafter l (.arguments i t) [] i rfl rfl
      have hold : c.key ∈ mentions items l := by
        rw [← List.mem_eraseDups, hl]
        exact List.mem_filterMap.mpr ⟨i, hi, by rw [hc]; rfl⟩
      have hmention : mentions items [.arguments i t] = [c.key] := by
        simp [mentions, Piece.mention?, itemId, hc, OutputItem.call?, hid]
      rw [hmention]
      have hgone : [c.key].removeAll (mentions items l) = [] := by simp [List.removeAll, hold]
      rw [hgone]
      rfl
    | text i t => rfl
    | reasoning i t => rfl
    | other => rfl

theorem filterMap_range {α β : Type} (f : α → Option β) (l : List α) :
    (List.range l.length).filterMap (fun i => (l[i]?).bind f) = l.filterMap f := by
  induction l using List.reverseRecOn with
  | nil => rfl
  | append_singleton l a ih =>
    rw [List.length_append, List.length_singleton, List.range_succ, List.filterMap_append,
      List.filterMap_append, ← ih]
    congr 1
    · refine List.filterMap_congr fun i hi => ?_
      rw [List.getElem?_append_left (List.mem_range.mp hi)]
    · simp [List.filterMap_cons]

/-- A call whose fragments are all its own receives them all. -/
theorem received_alike {k : Nat} {key : String}
    (hown : ∀ p ∈ argumentFragments pieces, itemId items p.1 = some key ↔ p.1 = k)
    (hafter : ∀ before piece rest, pieces = before ++ piece :: rest → piece.index? = some k →
      k ∈ additions before)
    (hmem : k ∈ additions pieces) :
    received items k key pieces = initial k pieces ++ (argumentFragments pieces).gather k := by
  induction pieces with
  | nil => cases hmem
  | cons piece pieces ih =>
    have htail : ∀ i a, piece = .added i a → i ≠ k → ∀ before p rest, pieces = before ++ p :: rest →
        p.index? = some k →
        k ∈ additions before := by
      rintro i a rfl hne before p rest hsplit hp
      have hbefore : k ∈ i :: additions before :=
        hafter (.added i a :: before) p rest (by rw [hsplit]; rfl) hp
      exact (List.mem_cons.mp hbefore).resolve_left fun heq => hne heq.symm
    have hplain : piece.added? = none → ∀ before p rest, pieces = before ++ p :: rest →
        p.index? = some k →
        k ∈ additions before := by
      intro hnone before p rest hsplit hp
      have hbefore := hafter (piece :: before) p rest (by rw [hsplit]; rfl) hp
      rwa [additions, List.filterMap_cons_none hnone] at hbefore
    cases piece with
    | added i a =>
      have hsame : argumentFragments (.added i a :: pieces) = argumentFragments pieces := rfl
      rw [hsame] at hown ⊢
      rw [received, initial]
      by_cases hi : i = k
      · rw [if_pos hi, if_pos hi, fragmentsFor, Fragments.gather]
        have hfilter : (argumentFragments pieces).filter (fun p => itemId items p.1 = some key) =
            (argumentFragments pieces).filter fun p => p.1 = k :=
              List.filter_congr fun p hp => by simpa using hown p hp
        rw [hfilter]
      · rw [if_neg hi, if_neg hi]
        have hlater : k ∈ i :: additions pieces := hmem
        exact ih hown (htail i a rfl hi) ((List.mem_cons.mp hlater).resolve_left fun heq =>
          hi heq.symm)
    | arguments i t =>
      have hne : i ≠ k := by
        rintro rfl
        cases hafter [] (.arguments i t) pieces rfl rfl
      have hcons : argumentFragments (.arguments i t :: pieces) = (i, t) ::
          argumentFragments pieces := rfl
      rw [hcons] at hown ⊢
      rw [Fragments.gather_cons, if_neg hne, String.empty_append]
      exact ih (fun p hp => hown p (List.mem_cons_of_mem _ hp)) (hplain rfl) hmem
    | text i t => exact ih hown (hplain rfl) hmem
    | reasoning i t => exact ih hown (hplain rfl) hmem
    | other => exact ih hown (hplain rfl) hmem

theorem Splits.addedKeys (h : Splits dec items pieces) :
    addedKeys items pieces = (callsOf items).map FunctionCall.key := by
  rw [Responses.addedKeys, h.order, filterMap_range, callsOf_keys]

/-- **Calls with ids of their own are reached exactly when those with fragments have one id.** -/
theorem reached_iff_alike (hsplits : Splits dec items pieces)
    (hnodup : ((callsOf items).map FunctionCall.key).Nodup) (hcross : Uncrossed items) :
    Reached dec items pieces ↔
      Heard (textFragments pieces) ∧ Heard (reasoningFragments pieces) ∧ Alike items pieces := by
  constructor
  · rintro ⟨htext, hreasoning, horder, -⟩
    refine ⟨htext, hreasoning, fun p hp c hc => ?_⟩
    obtain ⟨piece, hpiece, hfragment⟩ := List.mem_filterMap.mp hp
    have hmention : c.id ∈ mentions items pieces := by
      refine List.mem_filterMap.mpr ⟨piece, hpiece, ?_⟩
      cases piece with
      | arguments i t =>
        cases hfragment
        simp [Piece.mention?, itemId, show items[i]? = _ from hc, OutputItem.call?]
      | _ => cases hfragment
    rw [← List.mem_eraseDups, horder] at hmention
    obtain ⟨c', hmem, hkey⟩ := List.mem_map.mp hmention
    obtain ⟨item, hitem, hcall⟩ := List.mem_filterMap.mp hmem
    obtain ⟨j, hj⟩ := List.mem_iff_getElem?.mp hitem
    cases item with
    | functionCall c'' =>
      cases hcall
      have hsame : p.1 = j := hcross p.1 j c c' hc hj hkey.symm
      rw [hsame, hj] at hc
      cases hc
      exact hkey.symm
    | _ => cases hcall
  · rintro ⟨htext, hreasoning, halike⟩
    refine ⟨htext, hreasoning, ?_, fun k c hk => ?_⟩
    · rw [← hsplits.addedKeys] at hnodup ⊢
      exact mentions_alike halike hnodup hsplits.after hsplits.argumentKind
    · have hkey : (items[k]?).bind OutputItem.key? = some c.key := by
        rw [hk]
        rfl
      have hmem : k ∈ additions pieces := by
        rw [hsplits.order, List.mem_range]
        exact (List.getElem?_eq_some_iff.mp hk).1
      have hown : ∀ p ∈ argumentFragments pieces, itemId items p.1 = some c.key ↔ p.1 = k := by
        intro p hp
        obtain ⟨c', hc'⟩ := hsplits.argumentKind p hp
        have hid : itemId items p.1 = some c'.key := by
          rw [← halike p hp c' hc', itemId, hc']
          rfl
        have hkey' : (items[p.1]?).bind OutputItem.key? = some c'.key := by
          rw [hc']
          rfl
        rw [hid]
        constructor
        · intro heq
          exact key_unique hnodup hkey p.1 (hkey'.trans heq)
        · intro heq
          rw [← hkey', heq, hkey]
      rw [received_alike hown (fun before piece rest => hsplits.after before piece rest k) hmem]
      exact hsplits.arguments k c hk

/-! ## One call -/

/-- `json.loads` on two texts. -/
def callDecoder : Decoder where
  str := fun _ => ""
  int := fun _ => none
  dict := fun _ => none
  loads := fun s => if s = "\x7b\x7d" then some (.obj [])
    else if s = "\x7b\"a\": 1\x7d" then some (.obj [("a", .int 1)]) else none
  loads_empty := loads_emptyObject

/-- A call with `id` for the id of its item. -/
def oneCall (id : String) : List OutputItem :=
  [.functionCall ⟨id, "call_1", "search", [("a", .int 1)]⟩]

def callPieces : List Piece := [.added 0 "", .arguments 0 "\x7b\"a\"", .arguments 0 ": 1\x7d"]

def argumentsEvent (id fragment : String) : Fields :=
  [("type", .str "response.function_call_arguments.delta"), ("item_id", .str id),
    ("delta", .str fragment)]

def callItem (id arguments : String) : Json :=
  .obj [("type", .str "function_call"), ("id", .str id), ("call_id", .str "call_1"),
  ("name", .str "search"), ("arguments", .str arguments)]

def callEvents (id : String) : List Fields :=
  [[("type", .str "response.output_item.added"), ("item", callItem id "")],
  argumentsEvent id "\x7b\"a\"", argumentsEvent id ": 1\x7d"]

def completedEvent (id : String) : Fields := [("type", .str "response.completed"),
  ("response", .obj [("output", .arr [callItem id "\x7b\"a\": 1\x7d"])])]

def incompleteEvent : Fields := [("type", .str "response.incomplete")]

theorem getElem?_oneCall {id : String} {i : Nat} {item : OutputItem}
    (h : (oneCall id)[i]? = some item) :
    i = 0 ∧ item = .functionCall ⟨id, "call_1", "search", [("a", .int 1)]⟩ := by
  rcases i with _ | i
  · exact ⟨rfl, (Option.some.inj h).symm⟩
  · cases h

theorem oneCall_splits (id : String) : Splits callDecoder (oneCall id) callPieces where
  order := rfl
  after before piece rest i heq hi := by
    match before, heq with
    | [], heq =>
      cases heq
      cases hi
    | [_], heq =>
      cases heq
      cases hi
      exact List.mem_singleton_self 0
    | [_, _], heq =>
      cases heq
      cases hi
      exact List.mem_singleton_self 0
    | _ :: _ :: _ :: _, heq => simp [callPieces] at heq
  textKind p hp := nomatch hp
  reasoningKind p hp := nomatch hp
  argumentKind p hp := by
    have hp : (0, "\x7b\"a\"") = p ∨ (0, ": 1\x7d") = p := by
      simpa [callPieces, argumentFragments, Piece.arguments?] using hp
    rcases hp with rfl | rfl <;> exact ⟨_, rfl⟩
  text i t h := nomatch (getElem?_oneCall h).2
  reasoning i t h := nomatch (getElem?_oneCall h).2
  arguments i c h := by
    obtain ⟨rfl, hc⟩ := getElem?_oneCall h
    cases hc
    rfl

theorem oneCall_carries (id : String) :
    List.Forall₂ (Carries callDecoder (oneCall id)) (callEvents id) callPieces :=
  .cons ⟨rfl, _, rfl, ⟨rfl, rfl, rfl, rfl⟩, rfl⟩
    (.cons ⟨rfl, rfl, rfl, _, rfl, rfl⟩ (.cons ⟨rfl, rfl, rfl, _, rfl, rfl⟩ .nil))

theorem oneCall_completes (id : String) : Completes callDecoder (oneCall id) (completedEvent id) :=
  ⟨rfl, _, _, rfl, rfl, .cons ⟨⟨rfl, rfl, rfl, rfl⟩, rfl⟩ .nil⟩

/-- A call whose item has its call id. -/
theorem closing_event_immaterial_one_id :
    Agree (parseStream callDecoder (callEvents "call_1" ++ [incompleteEvent]))
    (parseStream callDecoder (callEvents "call_1" ++ [completedEvent "call_1"])) := by
  have hnamed : Named (oneCall "call_1") := by
    intro c hc
    obtain rfl : c = _ := List.mem_singleton.mp hc
    exact ⟨by decide, by decide⟩
  refine (closing_event_immaterial callDecoder (oneCall "call_1") callPieces (callEvents "call_1")
    [incompleteEvent]
    (completedEvent "call_1") hnamed (oneCall_splits "call_1") (oneCall_carries "call_1")
    (.inr ⟨_, rfl, rfl⟩)
    (oneCall_completes "call_1")).mpr ⟨.inl rfl, .inl rfl, by decide, fun k c hk => ?_⟩
  obtain ⟨rfl, hc⟩ := getElem?_oneCall hk
  cases hc
  rfl

/-- A call with an item id of its own is refused without the whole response. -/
theorem closing_event_matters :
    Distinct (oneCall "fc_1") ∧ Splits callDecoder (oneCall "fc_1") callPieces ∧
    List.Forall₂ (Carries callDecoder (oneCall "fc_1")) (callEvents "fc_1") callPieces ∧
    Completes callDecoder (oneCall "fc_1") (completedEvent "fc_1") ∧
    (∃ whole, parseStream callDecoder (callEvents "fc_1" ++ [completedEvent "fc_1"]) = .ok whole ∧
      whole.toolMessages.map ToolMessage.arguments = [.obj [("a", .int 1)]]) ∧
    parseStream callDecoder (callEvents "fc_1") =
      .error (.value "ToolMessage.name must not be empty.") ∧
    ¬ Agree (parseStream callDecoder (callEvents "fc_1" ++ []))
      (parseStream callDecoder (callEvents "fc_1" ++ [completedEvent "fc_1"])) := by
  have hrefused : parseStream callDecoder (callEvents "fc_1") =
      .error (.value "ToolMessage.name must not be empty.") := rfl
  refine ⟨⟨by decide, by decide⟩, oneCall_splits "fc_1", oneCall_carries "fc_1",
    oneCall_completes "fc_1", ⟨_, rfl, rfl⟩,
    hrefused, ?_⟩
  rintro ⟨a, b, ha, -⟩
  rw [List.append_nil, hrefused] at ha
  cases ha

end MiniAgent.Provider.Responses
