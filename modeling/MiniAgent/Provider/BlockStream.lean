import Mathlib.Data.List.Induction
import MiniAgent.Lib.Fragments
import MiniAgent.Provider.Messages

/-!
# Content blocks as a stream

A response as a list of content blocks, and every way of sending it: blocks are opened in order, and
a fragment of a block comes any time after it was opened (`Splits`). The stream parser looks up the
call of a fragment of arguments at the index of the fragment, but that index counts all blocks, so a
fragment reaches its own call exactly when there are only calls before it. `received` is what a call
has received in the end; a stream parses like the whole response when the texts come in order and
the calls that stand behind another block have no arguments (`Good`), and a stream that sends one
block after the other only then.
-/

namespace MiniAgent.Provider

open Lib

/-! ## Blocks -/

structure ToolUse where
  id : String
  name : String
  input : Fields

inductive ContentBlock where
  | text (s : String)
  | thinking (s : String)
  | toolUse (t : ToolUse)

namespace ContentBlock

def toJson : ContentBlock → Json
  | .text s => .obj [("type", .str "text"), ("text", .str s)]
  | .thinking s => .obj [("type", .str "thinking"), ("thinking", .str s)]
  | .toolUse t =>
    .obj [("type", .str "tool_use"), ("id", .str t.id), ("name", .str t.name),
      ("input", .obj t.input)]

def isTool : ContentBlock → Bool
  | .toolUse _ => true
  | _ => false

def tool? : ContentBlock → Option ToolUse
  | .toolUse t => some t
  | _ => none

def text? : ContentBlock → Option String
  | .text s => some s
  | _ => none

def thinking? : ContentBlock → Option String
  | .thinking s => some s
  | _ => none

end ContentBlock

/-- The calls of a response. -/
def toolUses (blocks : List ContentBlock) : List ToolUse := blocks.filterMap ContentBlock.tool?

/-- A call without an id or a name is refused by the constructor of its message. -/
def Named (blocks : List ContentBlock) : Prop := ∀ t ∈ toolUses blocks, t.id ≠ "" ∧ t.name ≠ ""

/-! ## Pieces -/

/-- What an event says: a block is opened, or a fragment of block `i`. -/
inductive Piece where
  | start (i : Nat) (block : ContentBlock)
  | text (i : Nat) (s : String)
  | thinking (i : Nat) (s : String)
  | input (i : Nat) (s : String)
  | other

namespace Piece

def start? : Piece → Option (Nat × ContentBlock)
  | .start i block => some (i, block)
  | _ => none

def text? : Piece → Option (Nat × String)
  | .text i s => some (i, s)
  | _ => none

def thinking? : Piece → Option (Nat × String)
  | .thinking i s => some (i, s)
  | _ => none

def input? : Piece → Option (Nat × String)
  | .input i s => some (i, s)
  | _ => none

/-- The block of a fragment. -/
def index? : Piece → Option Nat
  | .text i _ | .thinking i _ | .input i _ => some i
  | _ => none

end Piece

def openings (pieces : List Piece) : List (Nat × ContentBlock) := pieces.filterMap Piece.start?

def textFragments (pieces : List Piece) : Fragments := pieces.filterMap Piece.text?

def thinkingFragments (pieces : List Piece) : Fragments := pieces.filterMap Piece.thinking?

def inputFragments (pieces : List Piece) : Fragments := pieces.filterMap Piece.input?

/-- The calls that have been opened. -/
def opened (pieces : List Piece) : List ToolUse := toolUses ((openings pieces).map Prod.snd)

/-- The members of `content_block` that name a block. -/
def Opens (block : Fields) : ContentBlock → Prop
  | .text _ => block.get "type" = some (.str "text")
  | .thinking _ => block.get "type" = some (.str "thinking")
  | .toolUse t => block.get "type" = some (.str "tool_use") ∧ block.get "id" = some (.str t.id) ∧
    block.get "name" = some (.str t.name)

/-- The `delta` of an event says `text`, `thinking` or `partial_json`, and one of them only. -/
def Says (event : Fields) (text thinking input : Option String) : Prop :=
  ∃ delta, event.get "delta" = some (.obj delta) ∧ isText (Fields.get delta "text") = text ∧
    isText (Fields.get delta "thinking") = thinking ∧
    isText (Fields.get delta "partial_json") = input

/-- The event that carries a piece. -/
def Carries (dec : Decoder) (event : Fields) : Piece → Prop
  | .start i block =>
    eventKind dec event = "content_block_start" ∧ event.get "index" = some (.int i) ∧
    ∃ f, event.get "content_block" = some (.obj f) ∧ Opens f block
  | .text i s => eventKind dec event = "content_block_delta" ∧ event.get "index" = some (.int i) ∧
    Says event (some s) none none
  | .thinking i s =>
    eventKind dec event = "content_block_delta" ∧ event.get "index" = some (.int i) ∧
    Says event none (some s) none
  | .input i s => eventKind dec event = "content_block_delta" ∧ event.get "index" = some (.int i) ∧
    Says event none none (some s)
  | .other =>
    eventKind dec event ≠ "content_block_start" ∧ eventKind dec event ≠ "content_block_delta"

/-- **A way of sending the blocks.** -/
structure Splits (dec : Decoder) (blocks : List ContentBlock) (pieces : List Piece) : Prop where
  order : openings pieces = blocks.zipIdx.map fun p => (p.2, p.1)
  /-- A fragment comes after its block was opened. -/
  after : ∀ before piece rest i, pieces = before ++ piece :: rest → piece.index? = some i →
    i < (openings before).length
  textKind : ∀ p ∈ textFragments pieces, ∃ s, blocks[p.1]? = some (.text s)
  thinkingKind : ∀ p ∈ thinkingFragments pieces, ∃ s, blocks[p.1]? = some (.thinking s)
  inputKind : ∀ p ∈ inputFragments pieces, ∃ t, blocks[p.1]? = some (.toolUse t)
  text : ∀ i s, blocks[i]? = some (.text s) → (textFragments pieces).gather i = s
  thinking : ∀ i s, blocks[i]? = some (.thinking s) → (thinkingFragments pieces).gather i = s
  input : ∀ i t, blocks[i]? = some (.toolUse t) →
    dec.decode ((inputFragments pieces).gather i) = some (.obj t.input)

/-- One block after the other: a fragment is of the block opened last. -/
def Sequential (pieces : List Piece) : Prop :=
  ∀ before piece rest i, pieces = before ++ piece :: rest → piece.index? = some i →
    (openings before).length = i + 1

/-- A call that stands behind another block has no arguments. -/
def EarlyTools (blocks : List ContentBlock) : Prop :=
  ∀ before t rest, blocks = before ++ .toolUse t :: rest → (∀ b ∈ before, b.isTool = true) ∨
    t.input = []

/-- What makes a stream parse like the whole response. -/
structure Good (blocks : List ContentBlock) (pieces : List Piece) : Prop where
  text : (textFragments pieces).InOrder
  thinking : (thinkingFragments pieces).InOrder
  early : EarlyTools blocks
  /-- A fragment of a call behind another block does not come when there is a call at its index. -/
  dropped : ∀ before i s rest, pieces = before ++ .input i s :: rest →
    (∀ b ∈ blocks.take (i + 1), b.isTool = true) ∨ s = "" ∨ (opened before).length ≤ i

/-- The response as a whole. -/
def IsResponse (data : Fields) (blocks : List ContentBlock) : Prop :=
  data.get "content" = some (.arr (blocks.map ContentBlock.toJson))

/-- The stream yields the text, the reasoning and the calls of the whole response. -/
def Agrees (dec : Decoder) (data : Fields) (events : List Fields) : Prop :=
  ∀ whole, parseJson dec data = .ok whole → ∃ streamed, parseStream dec events = .ok streamed ∧
    streamed.content = whole.content ∧ streamed.reasoning = whole.reasoning ∧
    streamed.toolMessages = whole.toolMessages

variable {dec : Decoder} {blocks : List ContentBlock} {pieces : List Piece} {events : List Fields}

/-! ## The loop over the events -/

def StreamCall.grow (fragment : String) (c : StreamCall) : StreamCall :=
  { c with input := c.input ++ fragment }

/-- What a piece adds. -/
def Streamed.take (s : Streamed) : Piece → Streamed
  | .start _ (.toolUse t) => { s with calls := s.calls ++ [⟨t.id, t.name, ""⟩] }
  | .text _ t => { s with text := s.text ++ [t] }
  | .thinking _ t => { s with reasoning := s.reasoning ++ [t] }
  | .input i t => { s with calls := s.calls.modify i (StreamCall.grow t) }
  | _ => s

/-- All but the usage and the stop reason. -/
structure Streamed.Same (s s' : Streamed) : Prop where
  text : s'.text = s.text
  reasoning : s'.reasoning = s.reasoning
  calls : s'.calls = s.calls

theorem Streamed.Same.rfl {s : Streamed} : s.Same s := ⟨Eq.refl _, Eq.refl _, Eq.refl _⟩

theorem Streamed.Same.take {s s' : Streamed} (h : s.Same s') (piece : Piece) :
    (s.take piece).Same (s'.take piece) := by
  obtain ⟨h1, h2, h3⟩ := h
  cases piece with
  | start i block => cases block <;> exact ⟨h1, h2, by simp [Streamed.take, h3]⟩
  | text i t => exact ⟨by simp [Streamed.take, h1], h2, h3⟩
  | thinking i t => exact ⟨h1, by simp [Streamed.take, h2], h3⟩
  | input i t => exact ⟨h1, h2, by simp [Streamed.take, h3]⟩
  | other => exact ⟨h1, h2, h3⟩

theorem addStart_call {s : Streamed} {event f : Fields} {t : ToolUse} (hne : t.id ≠ "")
    (hblock : event.get "content_block" = some (.obj f)) (hopens : Opens f (.toolUse t)) :
    addStart dec s event = { s with calls := putCall s.calls ⟨t.id, t.name, ""⟩ } := by
  obtain ⟨htype, hid, hname⟩ := hopens
  simp [addStart, hblock, htype, hid, hname, pyOr, Decoder.text, hne, Json.truthy]

theorem addStart_plain {s : Streamed} {event f : Fields} {block : ContentBlock}
    (hblock : event.get "content_block" = some (.obj f)) (hopens : Opens f block)
    (hplain : block.isTool = false) :
    addStart dec s event = s := by
  cases block with
  | text t => simp [addStart, hblock, show Fields.get f "type" = _ from hopens]
  | thinking t => simp [addStart, hblock, show Fields.get f "type" = _ from hopens]
  | toolUse t => cases hplain

theorem addInput_index {s : Streamed} {event : Fields} {i : Nat} {fragment : String}
    (h : event.get "index" = some (.int i)) :
    addInput dec s event fragment =
      .ok { s with calls := s.calls.modify i (StreamCall.grow fragment) } := by
  simp only [addInput, h, Option.getD_some, Decoder.integer, Int.ofNat_lt]
  split
  · next hlt =>
    have : Turn.NodeWriter.pyIndex s.calls.length (i : Int) = some i := by
      simp [Turn.NodeWriter.pyIndex, hlt]
    rw [this]
    rfl
  · next hge => rw [List.modify_eq_self (by omega)]

theorem putCall_new {calls : List StreamCall} {call : StreamCall}
    (h : call.id ∉ calls.map StreamCall.id) :
    putCall calls call = calls ++ [call] := by
  have hany : (calls.any fun c => c.id == call.id) = false := by
    rw [List.any_eq_false]
    intro c hc heq
    exact h (List.mem_map.mpr ⟨c, hc, by simpa using heq⟩)
  rw [putCall, hany]
  rfl

/-- **What one event adds.** -/
theorem addEvent_take {s : Streamed} {event : Fields} {piece : Piece} (h : Carries dec event piece)
    (hcall : ∀ i t, piece = .start i (.toolUse t) → t.id ≠ "" ∧ t.id ∉ s.calls.map StreamCall.id) :
    ∃ s', addEvent dec s event = .ok s' ∧ (s.take piece).Same s' := by
  cases piece with
  | start i block =>
    obtain ⟨hkind, -, f, hblock, hopens⟩ := h
    have hstep : addEvent dec s event = .ok (addStart dec s event) := by
      simp only [addEvent, hkind, if_true]
    refine ⟨_, hstep, ?_⟩
    cases block with
    | toolUse t =>
      obtain ⟨hne, hnew⟩ := hcall i t rfl
      rw [addStart_call hne hblock hopens, putCall_new hnew]
      exact .rfl
    | text t => rw [addStart_plain hblock hopens rfl]; exact .rfl
    | thinking t => rw [addStart_plain hblock hopens rfl]; exact .rfl
  | text i t =>
    obtain ⟨hkind, -, delta, hdelta, ht, hr, hp⟩ := h
    exact ⟨_, by simp [addEvent, hkind, addDelta, hdelta, ht, hr, hp, Streamed.take], .rfl⟩
  | thinking i t =>
    obtain ⟨hkind, -, delta, hdelta, ht, hr, hp⟩ := h
    exact ⟨_, by simp [addEvent, hkind, addDelta, hdelta, ht, hr, hp, Streamed.take], .rfl⟩
  | input i t =>
    obtain ⟨hkind, hindex, delta, hdelta, ht, hr, hp⟩ := h
    have hstep : addEvent dec s event = addInput dec s event t := by
      simp [addEvent, hkind, addDelta, hdelta, ht, hr, hp]
    exact ⟨_, hstep.trans (addInput_index hindex), .rfl⟩
  | other =>
    obtain ⟨hstart, hdelta⟩ := h
    simp only [addEvent, hstart, hdelta, if_false]
    split
    · refine ⟨_, rfl, ?_⟩
      unfold addMessageDelta
      dsimp only
      split <;> split <;> exact ⟨rfl, rfl, rfl⟩
    · split
      · refine ⟨_, rfl, ?_⟩
        unfold addMessageStart
        split
        · split <;> exact ⟨rfl, rfl, rfl⟩
        · exact .rfl
      · exact ⟨s, rfl, .rfl⟩

theorem addEvents_take {s₀ s : Streamed} (h : List.Forall₂ (Carries dec) events pieces)
    (hsame : s₀.Same s)
    (hids : (s.calls.map StreamCall.id ++ (opened pieces).map ToolUse.id).Nodup)
    (hne : ∀ t ∈ opened pieces, t.id ≠ "") :
    ∃ s', addEvents dec s events = .ok s' ∧ (pieces.foldl Streamed.take s₀).Same s' := by
  induction h generalizing s₀ s with
  | nil => exact ⟨s, rfl, hsame⟩
  | @cons event piece events pieces hcarry hrest ih =>
    have hids' : ∀ i t, piece = .start i (.toolUse t) → t.id ≠ "" ∧
        t.id ∉ s.calls.map StreamCall.id := by
      rintro i t rfl
      have hopened : opened (.start i (.toolUse t) :: pieces) = t :: opened pieces := rfl
      rw [hopened] at hids hne
      refine ⟨hne t List.mem_cons_self, fun hmem => ?_⟩
      exact (List.nodup_append.mp hids).2.2 t.id hmem t.id (by simp) rfl
    obtain ⟨s₁, hs₁, hsame₁⟩ := addEvent_take hcarry hids'
    have hsame' : (s₀.take piece).Same s₁ := by
      obtain ⟨h1, h2, h3⟩ := hsame.take piece
      exact ⟨hsame₁.text.trans h1, hsame₁.reasoning.trans h2, hsame₁.calls.trans h3⟩
    have hcalls : (s₁.calls.map StreamCall.id ++ (opened pieces).map ToolUse.id).Nodup ∧
        ∀ t ∈ opened pieces, t.id ≠ "" := by
      rw [hsame₁.calls]
      cases piece with
      | start i block =>
        cases block with
        | toolUse t =>
          have hopened : opened (.start i (.toolUse t) :: pieces) = t :: opened pieces := rfl
          rw [hopened] at hids hne
          exact ⟨by simpa [Streamed.take] using hids, (List.forall_mem_cons.mp hne).2⟩
        | text t => exact ⟨hids, hne⟩
        | thinking t => exact ⟨hids, hne⟩
      | input i t =>
        have hsameIds : (s.calls.modify i (StreamCall.grow t)).map StreamCall.id =
            s.calls.map StreamCall.id := by
          refine List.ext_getElem? fun k => ?_
          rw [List.getElem?_map, List.getElem?_map, List.getElem?_modify]
          rcases s.calls[k]? with _ | c
          · rfl
          · by_cases hik : i = k <;> simp [hik, StreamCall.grow]
        refine ⟨?_, hne⟩
        rw [show (s.take (.input i t)).calls = s.calls.modify i (StreamCall.grow t) from rfl,
          hsameIds]
        exact hids
      | _ => exact ⟨hids, hne⟩
    obtain ⟨s', hs', hfinal⟩ := ih hsame' hcalls.1 hcalls.2
    refine ⟨s', ?_, hfinal⟩
    rw [addEvents, hs₁]
    exact hs'

theorem foldl_take_text (pieces : List Piece) (s : Streamed) :
    (pieces.foldl Streamed.take s).text = s.text ++ (textFragments pieces).map Prod.snd := by
  induction pieces generalizing s with
  | nil => simp [textFragments]
  | cons piece pieces ih =>
    rw [List.foldl_cons, ih]
    cases piece with
    | start i block => cases block <;> rfl
    | text i t => simp [Streamed.take, textFragments, Piece.text?]
    | _ => rfl

theorem foldl_take_reasoning (pieces : List Piece) (s : Streamed) :
    (pieces.foldl Streamed.take s).reasoning = s.reasoning ++
      (thinkingFragments pieces).map Prod.snd := by
  induction pieces generalizing s with
  | nil => simp [thinkingFragments]
  | cons piece pieces ih =>
    rw [List.foldl_cons, ih]
    cases piece with
    | start i block => cases block <;> rfl
    | thinking i t => simp [Streamed.take, thinkingFragments, Piece.thinking?]
    | _ => rfl

/-! ## What a call receives -/

/-- The fragments that reach call `j`, when `n` calls are open: those with its index, once it is
open. -/
def received (j n : Nat) : List Piece → String
  | [] => ""
  | .start _ (.toolUse _) :: pieces => received j (n + 1) pieces
  | .input i s :: pieces => (if i = j ∧ j < n then s else "") ++ received j n pieces
  | _ :: pieces => received j n pieces

def newCall (t : ToolUse) : StreamCall := ⟨t.id, t.name, ""⟩

theorem grow_grow (a b : String) (c : StreamCall) : (c.grow a).grow b = c.grow (a ++ b) := by
  simp [StreamCall.grow, String.append_assoc]

theorem grow_empty (c : StreamCall) : c.grow "" = c := by simp [StreamCall.grow]

theorem foldl_take_calls (j : Nat) (pieces : List Piece) (s : Streamed) :
    (pieces.foldl Streamed.take s).calls[j]?
      = ((s.calls ++ (opened pieces).map newCall)[j]?).map
        (StreamCall.grow (received j s.calls.length pieces)) := by
  induction pieces generalizing s with
  | nil =>
    simp only [List.foldl_nil, received, opened, openings, toolUses, List.filterMap_nil,
      List.map_nil,
      List.append_nil]
    rcases s.calls[j]? with _ | c
    · rfl
    · rw [Option.map_some, grow_empty]
  | cons piece pieces ih =>
    rw [List.foldl_cons, ih]
    cases piece with
    | start i block =>
      cases block with
      | toolUse t =>
        have hcalls : (s.take (.start i (.toolUse t))).calls = s.calls ++ [newCall t] := rfl
        have hopened : (opened (.start i (.toolUse t) :: pieces)).map newCall =
            newCall t :: (opened pieces).map newCall :=
          rfl
        rw [hcalls, hopened, List.append_assoc, List.length_append]
        rfl
      | text t => rfl
      | thinking t => rfl
    | input i t =>
      have hcalls : (s.take (.input i t)).calls = s.calls.modify i (StreamCall.grow t) := rfl
      have hopened : opened (.input i t :: pieces) = opened pieces := rfl
      rw [hcalls, hopened, List.length_modify, received]
      by_cases hj : j < s.calls.length
      · rw [List.getElem?_append_left (by rwa [List.length_modify]), List.getElem?_append_left hj,
          List.getElem?_modify]
        rcases s.calls[j]? with _ | c
        · rfl
        · by_cases hij : i = j
          · simp [hij, hj, grow_grow]
          · simp [hij]
      · rw [List.getElem?_append_right (by rw [List.length_modify]; omega),
          List.getElem?_append_right (by omega),
          List.length_modify, if_neg (by omega)]
        simp
    | text i t => rfl
    | thinking i t => rfl
    | other => rfl

/-- A call that is open before each of its fragments comes. -/
theorem received_eq_gather {j n : Nat} (h : ∀ before s rest, pieces = before ++ .input j s :: rest →
    j < n + (opened before).length) : received j n pieces = (inputFragments pieces).gather j := by
  induction pieces generalizing n with
  | nil => rfl
  | cons piece pieces ih =>
    have hrest : ∀ before s rest, pieces = before ++ .input j s :: rest →
        j < n + (opened (piece :: before)).length :=
      fun before s rest heq => h (piece :: before) s rest (by rw [heq]; rfl)
    cases piece with
    | start i block =>
      cases block with
      | toolUse t =>
        refine ih fun before s rest heq => ?_
        have := hrest before s rest heq
        rw [show opened (.start i (.toolUse t) :: before) = t :: opened before from rfl,
          List.length_cons] at this
        omega
      | text t => exact ih hrest
      | thinking t => exact ih hrest
    | input i t =>
      have hfragments : inputFragments (.input i t :: pieces) = (i, t) ::
          inputFragments pieces := rfl
      rw [received, hfragments, Fragments.gather_cons, ih hrest]
      by_cases hij : i = j
      · subst hij
        have := h [] t pieces rfl
        rw [if_pos ⟨rfl, this⟩, if_pos rfl]
      · rw [if_neg (fun hand => hij hand.1), if_neg hij]
    | text i t => exact ih hrest
    | thinking i t => exact ih hrest
    | other => exact ih hrest

/-- A call that is not open when a fragment with its index comes. -/
theorem received_eq_empty {j n : Nat} (h : ∀ before s rest, pieces = before ++ .input j s :: rest →
    s = "" ∨ n + (opened before).length ≤ j) : received j n pieces = "" := by
  induction pieces generalizing n with
  | nil => rfl
  | cons piece pieces ih =>
    have hrest : ∀ before s rest, pieces = before ++ .input j s :: rest →
        s = "" ∨ n + (opened (piece :: before)).length ≤ j :=
      fun before s rest heq => h (piece :: before) s rest (by rw [heq]; rfl)
    cases piece with
    | start i block =>
      cases block with
      | toolUse t =>
        refine ih fun before s rest heq => ?_
        have := hrest before s rest heq
        rw [show opened (.start i (.toolUse t) :: before) = t :: opened before from rfl,
          List.length_cons] at this
        exact this.imp_right fun hle => by omega
      | text t => exact ih hrest
      | thinking t => exact ih hrest
    | input i t =>
      rw [received, ih hrest]
      by_cases hij : i = j ∧ j < n
      · obtain ⟨rfl, hlt⟩ := hij
        rcases h [] t pieces rfl with rfl | hle
        · simp
        · have : n + (opened []).length = n := rfl
          omega
      · rw [if_neg hij]
        rfl
    | text i t => exact ih hrest
    | thinking i t => exact ih hrest
    | other => exact ih hrest

/-! ## Both parsers -/

/-- The pending calls of a response. -/
def toolsFrom : List ToolUse → Except ParseError (List ToolMessage)
  | [] => .ok []
  | t :: specs => do
    let tool ← pendingTool t.name t.id (.obj t.input)
    let tools ← toolsFrom specs
    pure (tool :: tools)

theorem pendingTool_ok {name callId : String} {arguments : Json} {t : ToolMessage}
    (h : pendingTool name callId arguments = .ok t) : name ≠ "" ∧ callId ≠ "" ∧
    t.arguments = arguments := by
  unfold pendingTool at h
  split at h
  · next t' ht =>
    cases h
    obtain ⟨h1, h2, h3, -⟩ := ToolMessage.pending_ok ht
    exact ⟨h1 ▸ t.name_ne, h2 ▸ t.callId_ne, h3⟩
  · cases h

theorem toolsFrom_named {specs : List ToolUse} {tools : List ToolMessage}
    (h : toolsFrom specs = .ok tools) :
    ∀ t ∈ specs, t.id ≠ "" ∧ t.name ≠ "" := by
  induction specs generalizing tools with
  | nil => exact fun t ht => absurd ht List.not_mem_nil
  | cons t specs ih =>
    simp only [toolsFrom, bind_ok, pure_ok] at h
    obtain ⟨tool, htool, rest, hrest, rfl⟩ := h
    obtain ⟨h1, h2, -⟩ := pendingTool_ok htool
    exact List.forall_mem_cons.mpr ⟨⟨h2, h1⟩, ih hrest⟩

theorem toolsFrom_of_named {specs : List ToolUse} (h : ∀ t ∈ specs, t.id ≠ "" ∧ t.name ≠ "") :
    ∃ tools, toolsFrom specs = .ok tools := by
  induction specs with
  | nil => exact ⟨[], rfl⟩
  | cons t specs ih =>
    obtain ⟨⟨hid, hname⟩, hrest⟩ := List.forall_mem_cons.mp h
    obtain ⟨tools, htools⟩ := ih hrest
    obtain ⟨tool, htool⟩ : ∃ tool, pendingTool t.name t.id (.obj t.input) = .ok tool := by
      simp [pendingTool, ToolMessage.pending, ToolMessage.make, hid, hname]
    exact ⟨tool :: tools, by simp only [toolsFrom, htool, htools]; rfl⟩

theorem addBlocks_eq (b : Blocks) (blocks : List ContentBlock) :
    addBlocks dec b (blocks.map ContentBlock.toJson) = (do
      let tools ← toolsFrom (toolUses blocks)
      pure ⟨b.text ++ blocks.filterMap ContentBlock.text?, b.reasoning ++
        blocks.filterMap ContentBlock.thinking?,
        b.tools ++ tools⟩) := by
  induction blocks generalizing b with
  | nil => simp [addBlocks, toolUses, toolsFrom]
  | cons block blocks ih =>
    rw [List.map_cons, addBlocks]
    cases block with
    | text t =>
      have hstep : addBlock dec b (ContentBlock.toJson (.text t)) =
          .ok { b with text := b.text ++ [t] } := by
        simp [addBlock, ContentBlock.toJson, Fields.get_cons, Decoder.text]
      have htext : (ContentBlock.text t :: blocks).filterMap ContentBlock.text?
          = t :: blocks.filterMap ContentBlock.text? := rfl
      rw [hstep, htext]
      refine (ih _).trans (bind_congr fun tools => ?_)
      rw [List.append_assoc]
      rfl
    | thinking t =>
      have hstep : addBlock dec b (ContentBlock.toJson (.thinking t))
          = .ok { b with reasoning := b.reasoning ++ [t] } := by
        by_cases ht : t = ""
        · simp [addBlock, ContentBlock.toJson, Fields.get_cons, Decoder.text,
            pyOr, Json.truthy, Json.hashable, ht]
        · simp [addBlock, ContentBlock.toJson, Fields.get_cons, Decoder.text,
            pyOr, Json.truthy, Json.hashable, ht]
      have hthinking : (ContentBlock.thinking t :: blocks).filterMap ContentBlock.thinking?
          = t :: blocks.filterMap ContentBlock.thinking? := rfl
      rw [hstep, hthinking]
      refine (ih _).trans (bind_congr fun tools => ?_)
      rw [List.append_assoc]
      rfl
    | toolUse t =>
      have hstep : addBlock dec b (ContentBlock.toJson (.toolUse t)) = (do
          let tool ← pendingTool t.name t.id (.obj t.input)
          pure { b with tools := b.tools ++ [tool] }) := by
        simp [addBlock, ContentBlock.toJson, Fields.get_cons, Decoder.text,
          Decoder.object, Json.hashable]
        rfl
      have htools : toolUses (.toolUse t :: blocks) = t :: toolUses blocks := rfl
      rw [hstep, htools, toolsFrom, bind_assoc, bind_assoc]
      refine bind_congr fun tool => ?_
      rw [pure_bind, ih, bind_assoc]
      refine bind_congr fun tools => ?_
      rw [pure_bind, List.append_assoc]
      rfl

theorem parseJson_ok {data : Fields} {whole : Prepared} (hdata : IsResponse data blocks)
    (h : parseJson dec data = .ok whole) :
    whole.content = joined (blocks.filterMap ContentBlock.text?) ∧
    whole.reasoning = joined (blocks.filterMap ContentBlock.thinking?) ∧
    toolsFrom (toolUses blocks) = .ok whole.toolMessages := by
  simp only [parseJson, show data.get "content" = _ from hdata, addBlocks_eq, bind_ok, pure_ok] at h
  obtain ⟨b, ⟨tools, htools, rfl⟩, rfl⟩ := h
  exact ⟨rfl, rfl, htools⟩

theorem parseJson_of_named {data : Fields} (hdata : IsResponse data blocks) (h : Named blocks) :
    ∃ whole, parseJson dec data = .ok whole := by
  obtain ⟨tools, htools⟩ := toolsFrom_of_named h
  simp only [parseJson, show data.get "content" = _ from hdata, addBlocks_eq, htools]
  exact ⟨_, rfl⟩

/-- The calls of a stream, when each has received `r`. -/
theorem finishCalls_iff {specs : List ToolUse} {r : Nat → String} {tools : List ToolMessage}
    (h : toolsFrom specs = .ok tools) :
    finishCalls dec (specs.mapIdx fun j t => (newCall t).grow (r j)) = .ok tools ↔
      ∀ j t, specs[j]? = some t → dec.decode (r j) = some (.obj t.input) := by
  induction specs generalizing r tools with
  | nil =>
    cases h
    simp [finishCalls]
  | cons t specs ih =>
    simp only [toolsFrom, bind_ok, pure_ok] at h
    obtain ⟨tool, htool, rest, hrest, rfl⟩ := h
    have hhead : finishCall dec ((newCall t).grow (r 0)) = .ok tool ↔
        dec.decode (r 0) = some (.obj t.input) := by
      have hinput : ((newCall t).grow (r 0)).input = r 0 := by simp [newCall, StreamCall.grow]
      rw [finishCall, hinput]
      rcases hdec : dec.decode (r 0) with _ | arguments
      · simp
      · show pendingTool t.name t.id arguments = .ok tool ↔ _
        constructor
        · intro h
          rw [← (pendingTool_ok h).2.2, (pendingTool_ok htool).2.2]
        · intro h
          cases h
          exact htool
    rw [List.mapIdx_cons]
    simp only [finishCalls, bind_ok, pure_ok, List.cons.injEq]
    constructor
    · rintro ⟨tool', h1, rest', h2, rfl, rfl⟩ j u hj
      cases j with
      | zero =>
        cases hj
        exact hhead.mp h1
      | succ j => exact (ih hrest).mp h2 j u hj
    · intro hall
      exact ⟨tool, hhead.mpr (hall 0 t rfl), rest, (ih hrest).mpr fun j u hj =>
        hall (j + 1) u hj, rfl, rfl⟩

/-! ## A stream against its response -/

theorem map_snd_swap (blocks : List ContentBlock) :
    (blocks.zipIdx.map fun p => (p.2, p.1)).map Prod.snd = blocks := by
  rw [List.map_map]
  exact List.zipIdx_map_fst 0 blocks

theorem Splits.opened_eq (h : Splits dec blocks pieces) : opened pieces = toolUses blocks := by
  rw [opened, h.order, map_snd_swap]

/-- The blocks that were opened before a piece. -/
theorem Splits.opened_before (h : Splits dec blocks pieces) {before rest : List Piece}
    (heq : pieces = before ++ rest) :
    opened before = toolUses (blocks.take (openings before).length) := by
  have happ : openings before ++ openings rest = blocks.zipIdx.map fun p => (p.2, p.1) := by
    rw [← h.order, heq]
    simp [openings]
  have hsnd : (openings before).map Prod.snd = blocks.take (openings before).length := by
    rw [← map_snd_swap blocks, ← happ, List.map_append]
    rw [← List.length_map (f := Prod.snd), List.take_left]
  rw [opened, hsnd]

theorem length_toolUses_le (blocks : List ContentBlock) :
    (toolUses blocks).length ≤ blocks.length :=
  List.length_filterMap_le _ _

theorem length_toolUses_of_all (h : ∀ b ∈ blocks, b.isTool = true) :
    (toolUses blocks).length = blocks.length := by
  induction blocks with
  | nil => rfl
  | cons b blocks ih =>
    obtain ⟨hb, hrest⟩ := List.forall_mem_cons.mp h
    cases b with
    | toolUse t =>
      show (t :: toolUses blocks).length = _
      rw [List.length_cons, List.length_cons, ih hrest]
    | _ => cases hb

theorem length_toolUses_lt (h : ¬ ∀ b ∈ blocks, b.isTool = true) :
    (toolUses blocks).length < blocks.length := by
  induction blocks with
  | nil => exact absurd (fun b hb => absurd hb List.not_mem_nil) h
  | cons b blocks ih =>
    have hle := length_toolUses_le blocks
    cases b with
    | toolUse t =>
      show (t :: toolUses blocks).length < _
      have := ih fun hall => h (List.forall_mem_cons.mpr ⟨rfl, hall⟩)
      rw [List.length_cons, List.length_cons]
      omega
    | text t =>
      show (toolUses blocks).length < _
      rw [List.length_cons]
      omega
    | thinking t =>
      show (toolUses blocks).length < _
      rw [List.length_cons]
      omega

/-- Call `j` is a block, with `j` calls before it. -/
theorem exists_split_tool {j : Nat} {t : ToolUse} (h : (toolUses blocks)[j]? = some t) :
    ∃ before rest, blocks = before ++ .toolUse t :: rest ∧ (toolUses before).length = j := by
  induction blocks generalizing j with
  | nil => cases h
  | cons b blocks ih =>
    cases b with
    | toolUse u =>
      cases j with
      | zero =>
        cases h
        exact ⟨[], blocks, rfl, rfl⟩
      | succ j =>
        obtain ⟨before, rest, rfl, hlen⟩ := ih (j := j) h
        exact ⟨.toolUse u :: before, rest, rfl, congrArg (· + 1) hlen⟩
    | text u =>
      obtain ⟨before, rest, rfl, hlen⟩ := ih (j := j) h
      exact ⟨.text u :: before, rest, rfl, hlen⟩
    | thinking u =>
      obtain ⟨before, rest, rfl, hlen⟩ := ih (j := j) h
      exact ⟨.thinking u :: before, rest, rfl, hlen⟩

theorem toolUses_split {before rest : List ContentBlock} {t : ToolUse}
    (h : blocks = before ++ .toolUse t :: rest) :
    (toolUses blocks)[(toolUses before).length]? = some t := by
  have : toolUses blocks = toolUses before ++ t :: toolUses rest := by
    rw [h, toolUses, List.filterMap_append]
    rfl
  rw [this, List.getElem?_append_right (le_refl _), Nat.sub_self]
  rfl

theorem length_toolUses_take_le {m n : Nat} (blocks : List ContentBlock) (h : m ≤ n) :
    (toolUses (blocks.take m)).length ≤ (toolUses (blocks.take n)).length :=
  ((List.take_sublist_take_left h).filterMap ContentBlock.tool?).length_le

/-- A call with only calls before it receives its fragments. -/
theorem Splits.received_aligned (h : Splits dec blocks pieces) {before rest : List ContentBlock}
    {t : ToolUse} (heq : blocks = before ++ .toolUse t :: rest)
    (hall : ∀ b ∈ before, b.isTool = true) :
    dec.decode (received before.length 0 pieces) = some (.obj t.input) := by
  have hblock : blocks[before.length]? = some (.toolUse t) := by
    rw [heq, List.getElem?_append_right (le_refl _), Nat.sub_self]
    rfl
  rw [received_eq_gather, h.input _ _ hblock]
  intro pre s post hpieces
  have hstarted := h.after pre _ post before.length hpieces rfl
  rw [h.opened_before hpieces, Nat.zero_add]
  -- the first blocks are calls, and this one has been opened
  have htools : ∀ b ∈ blocks.take (before.length + 1), b.isTool = true := by
    rw [heq, List.take_append, List.take_of_length_le (by omega), Nat.add_sub_cancel_left]
    intro b hb
    rcases List.mem_append.mp hb with hb | hb
    · exact hall b hb
    · rw [List.take_succ_cons, List.take_zero, List.mem_singleton] at hb
      rw [hb]
      rfl
  have hlen := length_toolUses_of_all htools
  have hle := length_toolUses_take_le blocks hstarted
  have hlt : before.length < blocks.length := (List.getElem?_eq_some_iff.mp hblock).1
  rw [hlen, List.length_take] at hle
  omega

/-- Behind another block the position of a call is less than its index. -/
theorem not_all_tools {before rest : List ContentBlock} (h : ¬ ∀ b ∈ before, b.isTool = true) :
    ¬ ∀ b ∈ (before ++ rest).take ((toolUses before).length + 1), b.isTool = true := by
  intro hall
  have hlt := length_toolUses_lt h
  rw [List.take_append_of_le_length (by omega)] at hall
  have hle := ((List.take_sublist ((toolUses before).length + 1) before).filterMap
    ContentBlock.tool?).length_le
  have hlen := length_toolUses_of_all hall
  rw [List.length_take] at hlen
  have : (toolUses (before.take ((toolUses before).length + 1))).length ≤
      (toolUses before).length := hle
  omega

/-- No fragment reaches a call behind another block. -/
theorem received_misplaced {before rest : List ContentBlock} {t : ToolUse}
    (heq : blocks = before ++ .toolUse t :: rest)
    (hdropped : ∀ before i s rest, pieces = before ++ .input i s :: rest →
      (∀ b ∈ blocks.take (i + 1), b.isTool = true) ∨ s = "" ∨ (opened before).length ≤ i)
    (hbehind : ¬ ∀ b ∈ before, b.isTool = true) :
      received (toolUses before).length 0 pieces = "" := by
  refine received_eq_empty fun pre s post hpieces => ?_
  rw [Nat.zero_add]
  rcases hdropped pre _ s post hpieces with hall | hsome
  · rw [heq] at hall
    exact absurd hall (not_all_tools hbehind)
  · exact hsome

/-- One block after the other: when a fragment comes there are at most as many calls as blocks. -/
theorem Sequential.dropped (hseq : Sequential pieces) (h : Splits dec blocks pieces)
    (before : List Piece) (i : Nat) (s : String) (rest : List Piece)
    (heq : pieces = before ++ .input i s :: rest) :
    (∀ b ∈ blocks.take (i + 1), b.isTool = true) ∨ s = "" ∨ (opened before).length ≤ i := by
  by_cases hall : ∀ b ∈ blocks.take (i + 1), b.isTool = true
  · exact .inl hall
  · refine .inr (.inr ?_)
    rw [h.opened_before heq, hseq before _ rest i heq rfl]
    have hlt := length_toolUses_lt hall
    rw [List.length_take] at hlt
    omega

theorem pairwise_filterMap_openings {f : Piece → Option (Nat × String)}
    (hf : ∀ p i s, f p = some (i, s) → p.index? = some i) (hseq : Sequential pieces) :
    (pieces.filterMap f).Pairwise fun p q => p.1 ≤ q.1 := by
  induction pieces using List.reverseRecOn with
  | nil => exact .nil
  | append_singleton pieces piece ih =>
    rw [List.filterMap_append, List.pairwise_append]
    refine ⟨ih fun before p rest i heq => hseq before p (rest ++ [piece]) i (by simp [heq]), ?_, ?_⟩
    · rw [List.filterMap_cons]
      split <;> simp
    · intro a ha b hb
      obtain ⟨p, hp, hpa⟩ := List.mem_filterMap.mp ha
      obtain ⟨q, hq, hqb⟩ := List.mem_filterMap.mp hb
      obtain rfl := List.mem_singleton.mp hq
      obtain ⟨before, rest, heq⟩ := List.append_of_mem hp
      have h1 := hseq before p (rest ++ [q]) a.1 (by simp [heq]) (hf p a.1 a.2 hpa)
      have h2 := hseq pieces q [] b.1 rfl (hf q b.1 b.2 hqb)
      have hle : (openings before).length ≤ (openings pieces).length := by
        rw [heq]
        simp [openings]
      omega

theorem inOrder_of_pairwise {f : Fragments} (h : f.Pairwise fun p q => p.1 ≤ q.1) : f.InOrder :=
  h.sublist List.filter_sublist

theorem Sequential.text (hseq : Sequential pieces) : (textFragments pieces).InOrder := by
  refine inOrder_of_pairwise (pairwise_filterMap_openings (fun p i s hp => ?_) hseq)
  cases p <;> simp_all [Piece.text?, Piece.index?]

theorem Sequential.thinking (hseq : Sequential pieces) : (thinkingFragments pieces).InOrder := by
  refine inOrder_of_pairwise (pairwise_filterMap_openings (fun p i s hp => ?_) hseq)
  cases p <;> simp_all [Piece.thinking?, Piece.index?]

theorem Sequential.good (hseq : Sequential pieces) (h : Splits dec blocks pieces)
    (hearly : EarlyTools blocks) :
    Good blocks pieces where
  text := hseq.text
  thinking := hseq.thinking
  early := hearly
  dropped := hseq.dropped h

theorem join_range_getElem? (k : ContentBlock → Option String) (blocks : List ContentBlock) :
    String.join ((List.range blocks.length).map fun i => (blocks[i]?.bind k).getD "")
      = String.join (blocks.filterMap k) := by
  induction blocks with
  | nil => rfl
  | cons b blocks ih =>
    rw [List.length_cons, List.range_succ_eq_map, List.map_cons, List.map_map, String.join_cons]
    have hrest : (List.range blocks.length).map ((fun i => ((b :: blocks)[i]?.bind k).getD "") ∘
        Nat.succ)
        = (List.range blocks.length).map fun i => (blocks[i]?.bind k).getD "" := rfl
    rw [hrest, ih, List.filterMap_cons]
    cases hk : k b <;> simp [hk]

/-- Fragments in order are the blocks of their kind one after the other. -/
theorem spoken_blocks {f : Fragments} {k : ContentBlock → Option String} (horder : f.InOrder)
    (hkind : ∀ p ∈ f, ∃ b s, blocks[p.1]? = some b ∧ k b = some s)
    (hgather : ∀ i b s, blocks[i]? = some b → k b = some s → f.gather i = s) :
    f.spoken = String.join (blocks.filterMap k) := by
  have hlt : ∀ p ∈ f, p.2 ≠ "" → p.1 < blocks.length := by
    intro p hp _
    obtain ⟨b, s, hb, -⟩ := hkind p hp
    exact (List.getElem?_eq_some_iff.mp hb).1
  rw [Fragments.spoken_eq horder hlt, ← join_range_getElem?]
  congr 1
  refine List.map_congr_left fun i _ => ?_
  by_cases hsome : ∃ b s, blocks[i]? = some b ∧ k b = some s
  · obtain ⟨b, s, hb, hs⟩ := hsome
    rw [hgather i b s hb hs, hb, Option.bind_some, hs]
    rfl
  · have hgone : f.gather i = "" := by
      refine Fragments.join_map_eq_empty fun p hp => ?_
      obtain ⟨hmem, hpi⟩ := List.mem_filter.mp hp
      have hpi : p.1 = i := by simpa using hpi
      exact absurd (hpi ▸ hkind p hmem) hsome
    rw [hgone]
    rcases hb : blocks[i]? with _ | b
    · rfl
    · rcases hs : k b with _ | s
      · simp [hs]
      · exact absurd ⟨b, s, hb, hs⟩ hsome

theorem Splits.spoken_text (h : Splits dec blocks pieces)
    (horder : (textFragments pieces).InOrder) :
    (textFragments pieces).spoken = String.join (blocks.filterMap ContentBlock.text?) := by
  refine spoken_blocks horder (fun p hp => ?_) fun i b s hb hs => ?_
  · obtain ⟨s, hs⟩ := h.textKind p hp
    exact ⟨_, s, hs, rfl⟩
  · cases b with
    | text t =>
      cases hs
      exact h.text i s hb
    | _ => cases hs

theorem Splits.spoken_thinking (h : Splits dec blocks pieces)
    (horder : (thinkingFragments pieces).InOrder) :
    (thinkingFragments pieces).spoken = String.join (blocks.filterMap ContentBlock.thinking?) := by
  refine spoken_blocks horder (fun p hp => ?_) fun i b s hb hs => ?_
  · obtain ⟨s, hs⟩ := h.thinkingKind p hp
    exact ⟨_, s, hs, rfl⟩
  · cases b with
    | thinking t =>
      cases hs
      exact h.thinking i s hb
    | _ => cases hs

/-- What the loop leaves. -/
theorem Splits.addEvents (h : Splits dec blocks pieces)
    (hcarry : List.Forall₂ (Carries dec) events pieces)
    (hids : ((toolUses blocks).map ToolUse.id).Nodup) (hnamed : Named blocks) :
    ∃ s, addEvents dec .new events = .ok s ∧ String.join s.text = (textFragments pieces).spoken ∧
      String.join s.reasoning = (thinkingFragments pieces).spoken ∧
      s.calls = (toolUses blocks).mapIdx fun j t => (newCall t).grow (received j 0 pieces) := by
  obtain ⟨s, hs, hsame⟩ := addEvents_take hcarry Streamed.Same.rfl (s := .new)
    (by rw [h.opened_eq]; exact hids) (by rw [h.opened_eq]; exact fun t ht => (hnamed t ht).1)
  refine ⟨s, hs, ?_, ?_, List.ext_getElem? fun j => ?_⟩
  · rw [hsame.text, foldl_take_text]
    rfl
  · rw [hsame.reasoning, foldl_take_reasoning]
    rfl
  · have hnew : Streamed.new.calls = [] := rfl
    rw [hsame.calls, foldl_take_calls, hnew, List.nil_append, h.opened_eq,
      List.getElem?_mapIdx, List.getElem?_map]
    rcases (toolUses blocks)[j]? <;> rfl

/-- What a stream parses to, in terms of the fragments its calls have received. -/
theorem Splits.agrees_iff (h : Splits dec blocks pieces)
    (hcarry : List.Forall₂ (Carries dec) events pieces)
    (hids : ((toolUses blocks).map ToolUse.id).Nodup) {data : Fields}
    (hdata : IsResponse data blocks) (htext : (textFragments pieces).InOrder)
    (hthinking : (thinkingFragments pieces).InOrder) :
    Agrees dec data events ↔ (Named blocks → ∀ j t, (toolUses blocks)[j]? = some t →
      dec.decode (received j 0 pieces) = some (.obj t.input)) := by
  constructor
  · intro hagrees hnamed
    obtain ⟨whole, hwhole⟩ := parseJson_of_named hdata hnamed
    obtain ⟨-, -, htools⟩ := parseJson_ok hdata hwhole
    obtain ⟨s, hs, -, -, hcalls⟩ := h.addEvents hcarry hids hnamed
    obtain ⟨streamed, hstream, -, -, hsame⟩ := hagrees whole hwhole
    simp only [parseStream, hs, bind_ok, pure_ok, Except.ok.injEq, exists_eq_left'] at hstream
    obtain ⟨tools, hfinish, rfl⟩ := hstream
    rw [hcalls] at hfinish
    exact (finishCalls_iff htools).mp (hfinish.trans (congrArg _ hsame))
  · intro hall whole hwhole
    obtain ⟨hcontent, hreasoning, htools⟩ := parseJson_ok hdata hwhole
    have hnamed : Named blocks := toolsFrom_named htools
    obtain ⟨s, hs, hstext, hsreasoning, hcalls⟩ := h.addEvents hcarry hids hnamed
    have hfinish := (finishCalls_iff htools).mpr (hall hnamed)
    rw [← hcalls] at hfinish
    refine ⟨⟨joined s.text, joined s.reasoning, whole.toolMessages, s.usage,
      none, none, s.stopReason⟩, ?_, ?_, ?_, rfl⟩
    · rw [parseStream, hs]
      show (finishCalls dec s.calls >>= _) = _
      rw [hfinish]
      rfl
    · rw [hcontent]
      simp only [joined, hstext, h.spoken_text htext]
    · rw [hreasoning]
      simp only [joined, hsreasoning, h.spoken_thinking hthinking]

theorem decode_empty : dec.decode "" = some (.obj []) := dec.loads_empty

/-- **Streams and whole responses.** A stream parses like the response it sends when the texts come
in order, the calls with arguments have only calls before them and no fragment comes to another
call; a stream that sends one block after the other does so exactly when the calls with arguments
come first. -/
theorem stream_agrees {data : Fields} (hids : ((toolUses blocks).map ToolUse.id).Nodup)
    (hdata : IsResponse data blocks) (hsplits : Splits dec blocks pieces)
    (hcarry : List.Forall₂ (Carries dec) events pieces) :
    (Good blocks pieces → Agrees dec data events) ∧
    (Sequential pieces → (Agrees dec data events ↔ (Named blocks → EarlyTools blocks))) := by
  have hgood : Good blocks pieces → Agrees dec data events := by
    intro hgood
    refine (hsplits.agrees_iff hcarry hids hdata hgood.text hgood.thinking).mpr fun _ j t hj => ?_
    obtain ⟨before, rest, heq, rfl⟩ := exists_split_tool hj
    by_cases hall : ∀ b ∈ before, b.isTool = true
    · rw [length_toolUses_of_all hall]
      exact hsplits.received_aligned heq hall
    · rw [received_misplaced heq hgood.dropped hall, decode_empty]
      rw [(hgood.early before t rest heq).resolve_left hall]
  refine ⟨hgood, fun hseq => ⟨fun hagrees hnamed before t rest heq => ?_, fun hearly => ?_⟩⟩
  · by_cases hall : ∀ b ∈ before, b.isTool = true
    · exact .inl hall
    · -- the call has received nothing
      have hreceived := (hsplits.agrees_iff hcarry hids hdata hseq.text hseq.thinking).mp
        hagrees hnamed _ t
        (toolUses_split heq)
      rw [received_misplaced heq (hseq.dropped hsplits) hall, decode_empty] at hreceived
      simp only [Option.some.injEq, Json.obj.injEq] at hreceived
      exact .inr hreceived.symm
  · intro whole hwhole
    have hnamed : Named blocks := toolsFrom_named (parseJson_ok hdata hwhole).2.2
    exact hgood (hseq.good hsplits (hearly hnamed)) whole hwhole

/-! ## Streams that start with a call, and with a text -/

def ContentBlock.opening : ContentBlock → Fields
  | .text _ => [("type", .str "text"), ("text", .str "")]
  | .thinking _ => [("type", .str "thinking"), ("thinking", .str "")]
  | .toolUse t =>
    [("type", .str "tool_use"), ("id", .str t.id), ("name", .str t.name), ("input", .obj [])]

/-- The event of a piece. -/
def Piece.event : Piece → Fields
  | .start i block =>
    [("type", .str "content_block_start"), ("index", .int i), ("content_block", .obj block.opening)]
  | .text i s =>
    [("type", .str "content_block_delta"), ("index", .int i), ("delta", .obj [("text", .str s)])]
  | .thinking i s =>
    [("type", .str "content_block_delta"), ("index", .int i),
      ("delta", .obj [("thinking", .str s)])]
  | .input i s =>
    [("type", .str "content_block_delta"), ("index", .int i),
      ("delta", .obj [("partial_json", .str s)])]
  | .other => [("type", .str "message_stop")]

theorem eventKind_type {event : Fields} {s : String} (hsse : event.get "__sse_event" = none)
    (htype : event.get "type" = some (.str s)) : eventKind dec event = s := by
  simp [eventKind, hsse, htype, pyOr, Decoder.text]

theorem carries_event (piece : Piece) : Carries dec piece.event piece := by
  cases piece with
  | start i block =>
    refine ⟨eventKind_type rfl rfl, rfl, block.opening, rfl, ?_⟩
    cases block with
    | text t => exact rfl
    | thinking t => exact rfl
    | toolUse t => exact ⟨rfl, rfl, rfl⟩
  | text i s => exact ⟨eventKind_type rfl rfl, rfl, _, rfl, rfl, rfl, rfl⟩
  | thinking i s => exact ⟨eventKind_type rfl rfl, rfl, _, rfl, rfl, rfl, rfl⟩
  | input i s => exact ⟨eventKind_type rfl rfl, rfl, _, rfl, rfl, rfl, rfl⟩
  | other =>
    have hkind : eventKind dec Piece.other.event = "message_stop" := eventKind_type rfl rfl
    exact ⟨by rw [hkind]; decide, by rw [hkind]; decide⟩

theorem carries_events (pieces : List Piece) :
    List.Forall₂ (Carries dec) (pieces.map Piece.event) pieces := by
  induction pieces with
  | nil => exact .nil
  | cons piece pieces ih => exact .cons (carries_event piece) ih

/-- `json.loads` on two texts. -/
def sampleDecoder : Decoder where
  str := fun _ => ""
  int := fun _ => none
  dict := fun _ => none
  loads := fun s => if s = "\x7b\x7d" then some (.obj [])
    else if s = "\x7b\"a\": 1\x7d" then some (.obj [("a", .int 1)]) else none
  loads_empty := rfl

def callBlock : ContentBlock := .toolUse ⟨"call_1", "search", [("a", .int 1)]⟩

def callFirst : List Piece :=
  [.start 0 callBlock, .input 0 "\x7b\"a\"", .input 0 ": 1\x7d", .start 1 (.text "hi"),
    .text 1 "h", .text 1 "i", .other]

def callLast : List Piece :=
  [.start 0 (.text "hi"), .text 0 "hi", .start 1 callBlock, .input 1 "\x7b\"a\": 1\x7d", .other]

/-- The fragments of a stream, each with the number of blocks opened before it. -/
theorem forall_fragment {q : Nat → Nat → Bool}
    (h : ∀ k : Fin pieces.length, ((pieces.get k).index?.all fun i =>
      q i (openings (pieces.take k)).length) = true) :
    ∀ before piece rest i, pieces = before ++ piece :: rest → piece.index? = some i →
      q i (openings before).length := by
  rintro before piece rest i rfl hi
  have := h ⟨before.length, by simp⟩
  simpa [hi] using this

theorem getElem?_pair {α : Type} {a b x : α} {i : Nat} (h : [a, b][i]? = some x) :
    (i = 0 ∧ a = x) ∨ (i = 1 ∧ b = x) := by
  rcases i with _ | _ | i
  · exact .inl ⟨rfl, Option.some.inj h⟩
  · exact .inr ⟨rfl, Option.some.inj h⟩
  · cases h

theorem callFirst_splits : Splits sampleDecoder [callBlock, .text "hi"] callFirst where
  order := rfl
  after before piece rest i heq hi :=
    of_decide_eq_true (forall_fragment (q := fun i n => i < n)
      (by decide) before piece rest i heq hi)
  textKind := by
    intro p hp
    have : (1, "h") = p ∨ (1, "i") = p := by simpa [callFirst, textFragments, Piece.text?] using hp
    rcases this with rfl | rfl <;> exact ⟨"hi", rfl⟩
  thinkingKind := by simp [callFirst, thinkingFragments, Piece.thinking?]
  inputKind := by
    intro p hp
    have : (0, "\x7b\"a\"") = p ∨ (0, ": 1\x7d") = p := by
      simpa [callFirst, inputFragments, Piece.input?] using hp
    rcases this with rfl | rfl <;> exact ⟨_, rfl⟩
  text i s h := by
    obtain ⟨-, h⟩ | ⟨rfl, h⟩ := getElem?_pair h <;> cases h
    rfl
  thinking i s h := by
    obtain ⟨-, h⟩ | ⟨-, h⟩ := getElem?_pair h <;> cases h
  input i t h := by
    obtain ⟨rfl, h⟩ | ⟨-, h⟩ := getElem?_pair h <;> cases h
    rfl

theorem stream_agrees_call_first : Sequential callFirst ∧ EarlyTools [callBlock, .text "hi"] ∧
    Agrees sampleDecoder [("content", .arr ([callBlock, .text "hi"].map ContentBlock.toJson))]
      (callFirst.map Piece.event) := by
  have hseq : Sequential callFirst := fun before piece rest i heq hi =>
    of_decide_eq_true (forall_fragment (q := fun i n => n = i + 1)
      (by decide) before piece rest i heq hi)
  have hearly : EarlyTools [callBlock, .text "hi"] := by
    intro before t rest heq
    match before, heq with
    | [], _ => exact .inl fun b hb => absurd hb List.not_mem_nil
    | [_], heq => cases heq
    | _ :: _ :: _, heq => simp at heq
  refine ⟨hseq, hearly, ?_⟩
  have hids : ((toolUses [callBlock, .text "hi"]).map ToolUse.id).Nodup := by decide
  have hdata : IsResponse [("content", .arr ([callBlock, .text "hi"].map ContentBlock.toJson))]
      [callBlock, .text "hi"] := rfl
  have hboth := stream_agrees hids hdata callFirst_splits (carries_events callFirst)
  exact (hboth.2 hseq).mpr fun _ => hearly

theorem callLast_splits : Splits sampleDecoder [.text "hi", callBlock] callLast where
  order := rfl
  after before piece rest i heq hi :=
    of_decide_eq_true (forall_fragment (q := fun i n => i < n)
      (by decide) before piece rest i heq hi)
  textKind := by
    intro p hp
    obtain rfl : (0, "hi") = p := by simpa [callLast, textFragments, Piece.text?] using hp
    exact ⟨"hi", rfl⟩
  thinkingKind := by simp [callLast, thinkingFragments, Piece.thinking?]
  inputKind := by
    intro p hp
    obtain rfl : (1, "\x7b\"a\": 1\x7d") = p := by
      simpa [callLast, inputFragments, Piece.input?] using hp
    exact ⟨_, rfl⟩
  text i s h := by
    obtain ⟨rfl, h⟩ | ⟨-, h⟩ := getElem?_pair h <;> cases h
    rfl
  thinking i s h := by
    obtain ⟨-, h⟩ | ⟨-, h⟩ := getElem?_pair h <;> cases h
  input i t h := by
    obtain ⟨-, h⟩ | ⟨rfl, h⟩ := getElem?_pair h <;> cases h
    rfl

/-- The arguments of a call behind a text are lost. -/
theorem stream_loses_arguments : Splits sampleDecoder [.text "hi", callBlock] callLast ∧
    List.Forall₂ (Carries sampleDecoder) (callLast.map Piece.event) callLast ∧
    (∃ whole, parseJson sampleDecoder
      [("content", .arr ([.text "hi", callBlock].map ContentBlock.toJson))] = .ok whole ∧
      whole.toolMessages.map ToolMessage.arguments = [.obj [("a", .int 1)]]) ∧
    (∃ streamed, parseStream sampleDecoder (callLast.map Piece.event) = .ok streamed ∧
      streamed.toolMessages.map ToolMessage.arguments = [.obj []]) ∧
    ¬ Agrees sampleDecoder [("content", .arr ([.text "hi", callBlock].map ContentBlock.toJson))]
      (callLast.map Piece.event) := by
  refine ⟨callLast_splits, carries_events callLast, ⟨_, rfl, rfl⟩, ⟨_, rfl, rfl⟩, fun hagrees => ?_⟩
  obtain ⟨streamed, hstream, -, -, htools⟩ := hagrees _ rfl
  cases hstream
  have harguments := congrArg (List.map ToolMessage.arguments) htools
  simp at harguments

end MiniAgent.Provider
