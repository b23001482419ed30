import MiniAgent.Provider.ChatCompletions

/-!
# The choices of a response

`_parse_response` read as a statement about a list of choices: the choices of a body are accepted
exactly when they are `Acceptable`, which does not depend on their order, and the answer is the
choice of the least index.
-/

namespace MiniAgent.Provider.Chat

open Lib

/-! ## Bodies -/

structure Call where
  id : String
  type : Json
  name : String
  arguments : String

structure Choice where
  index : Int
  role : Option Json
  content : Option String
  reasoning : Option String
  calls : List Call
  finishReason : String

/-- A member, where null stands for none. -/
def nullable : Option Json → Option Json
  | some .null => none
  | v => v

def IsCall (raw : Json) (c : Call) : Prop :=
  ∃ f function, raw = .obj f ∧ Fields.get f "id" = some (.str c.id) ∧
    Fields.get f "type" = some c.type ∧
    Fields.get f "function" = some (.obj function) ∧ Fields.get function "name" =
      some (.str c.name) ∧
    Fields.get function "arguments" = some (.str c.arguments)

/-- An array, where null stands for the empty one. -/
def Elements {α : Type} (v : Option Json) (is : Json → α → Prop) (l : List α) : Prop :=
  (nullable v = none ∧ l = []) ∨ ∃ raws, v = some (.arr raws) ∧ List.Forall₂ is raws l

def IsChoice (raw : Json) (c : Choice) : Prop :=
  ∃ f message, raw = .obj f ∧ Fields.get f "message" = some (.obj message) ∧
    nullable (Fields.get message "role") = c.role ∧
    nullable (Fields.get message "content") = c.content.map .str ∧
    nullable (Fields.get message "reasoning_content") = c.reasoning.map .str ∧
    Elements (Fields.get message "tool_calls") IsCall c.calls ∧
    Fields.get f "index" = some (.int c.index) ∧ Fields.get f "finish_reason" =
      some (.str c.finishReason) ∧
    ∀ e, objectOrNull (Fields.get f "logprobs") e = .ok ()

/-- A response body with the choices. -/
def IsBody (data : Fields) (choices : List Choice) : Prop :=
  ∃ raws, data.get "choices" = some (.arr raws) ∧ List.Forall₂ IsChoice raws choices ∧
    ∀ e, objectOrNull (data.get "usage") e = .ok ()

/-! ## What is accepted -/

variable {dec : Decoder} {choices : List Choice} {data : Fields}

def Call.Fine (c : Call) : Prop := c.type = .str "function"

def Choice.RoleFine (c : Choice) : Prop := c.role = none ∨ c.role = some (.str "assistant")

def Choice.ids (c : Choice) : List String := c.calls.map Call.id

/-- The message of a call. -/
def IsTool (dec : Decoder) (c : Call) (t : ToolMessage) : Prop :=
  ∃ arguments, dec.loads c.arguments = some (.obj arguments) ∧
    pendingTool c.name c.id (.obj arguments) = .ok t

/-- The conditions on the choices of a response. -/
structure Acceptable (dec : Decoder) (choices : List Choice) : Prop where
  roles : ∀ c ∈ choices, c.RoleFine
  types : ∀ c ∈ choices, ∀ call ∈ c.calls, call.Fine
  tools : ∀ c ∈ choices, ∀ call ∈ c.calls, ∃ t, IsTool dec call t
  ids : (choices.flatMap Choice.ids).Nodup

theorem pendingTool_id {name callId : String} {arguments : Json} {t : ToolMessage}
    (h : pendingTool name callId arguments = .ok t) : name ≠ "" ∧ callId ≠ "" ∧
    t.callId = callId := by
  unfold pendingTool at h
  split at h
  · next t' ht =>
    cases h
    obtain ⟨h1, h2, -⟩ := ToolMessage.pending_ok ht
    exact ⟨h1 ▸ t.name_ne, h2 ▸ t.callId_ne, h2⟩
  · cases h

theorem IsTool.unique {c : Call} {t t' : ToolMessage} (h : IsTool dec c t) (h' : IsTool dec c t') :
    t = t' := by
  obtain ⟨arguments, hload, ht⟩ := h
  obtain ⟨arguments', hload', ht'⟩ := h'
  rw [hload] at hload'
  cases hload'
  rw [ht] at ht'
  exact Except.ok.inj ht'

theorem IsTool.callId {c : Call} {t : ToolMessage} (h : IsTool dec c t) : t.callId = c.id := by
  obtain ⟨arguments, -, ht⟩ := h
  exact (pendingTool_id ht).2.2

/-- **One call**: it is accepted when it is well formed and new. -/
theorem parseCall_ok {seen : List String} {raw : Json} {c : Call} {t : ToolMessage}
    (h : IsCall raw c) :
    parseCall dec seen raw = .ok t ↔ c.Fine ∧ IsTool dec c t ∧ c.id ∉ seen := by
  obtain ⟨f, function, rfl, hid, htype, hfunction, hname, harguments⟩ := h
  simp only [parseCall, subscript, hid, htype, hfunction, hname, harguments,
    parseArguments, bind_ok, exists_unit,
    require_ok, beq_iff_eq, Except.ok.injEq, exists_eq_left']
  rcases hload : dec.loads c.arguments with _ | arguments
  · simp [IsTool, hload]
  · cases arguments with
    | obj arguments =>
      simp only [Except.ok.injEq, exists_eq_left', IsTool, hload, Option.some.injEq,
        Json.obj.injEq, Call.Fine]
      constructor
      · rintro ⟨hfine, -, hnew, ht⟩
        exact ⟨hfine, ht, by simpa using hnew⟩
      · rintro ⟨hfine, ht, hnew⟩
        obtain ⟨hname_ne, hid_ne, -⟩ := pendingTool_id ht
        exact ⟨hfine, by simp [hname_ne, hid_ne], by simpa using hnew, ht⟩
    | _ => simp [IsTool, hload]

theorem parseCalls_ok {seen seen' : List String} {raws : List Json} {calls : List Call}
    {tools : List ToolMessage} (h : List.Forall₂ IsCall raws calls) (hseen : seen.Nodup) :
    parseCalls dec seen raws = .ok (tools, seen') ↔ (∀ c ∈ calls, c.Fine) ∧
      List.Forall₂ (IsTool dec) calls tools ∧
      (seen ++ calls.map Call.id).Nodup ∧ seen' = seen ++ calls.map Call.id := by
  induction h generalizing seen seen' tools with
  | nil =>
    simp only [parseCalls, Except.ok.injEq, Prod.mk.injEq, List.map_nil,
      List.append_nil, hseen, true_and,
      List.forall₂_nil_left_iff]
    constructor
    · rintro ⟨rfl, rfl⟩
      exact ⟨fun c hc => absurd hc List.not_mem_nil, rfl, rfl⟩
    · rintro ⟨-, rfl, rfl⟩
      exact ⟨rfl, rfl⟩
  | @cons raw c raws calls hcall hrest ih =>
    simp only [parseCalls, bind_ok, pure_ok, Prod.exists, Prod.mk.injEq]
    constructor
    · rintro ⟨t, ht, ts, seen₁, hts, rfl, rfl⟩
      obtain ⟨hfine, htool, hnew⟩ := (parseCall_ok hcall).mp ht
      have hid := htool.callId
      have hseen' : (seen ++ [t.callId]).Nodup := by
        rw [hid]
        exact List.nodup_append.mpr ⟨hseen, List.nodup_singleton _, fun x hx y hy heq =>
          hnew (List.mem_singleton.mp hy ▸ heq ▸ hx)⟩
      obtain ⟨hfines, htools, hnodup, rfl⟩ := (ih hseen').mp hts
      rw [hid, List.append_assoc] at hnodup
      refine ⟨List.forall_mem_cons.mpr ⟨hfine, hfines⟩, .cons htool htools, hnodup, ?_⟩
      rw [hid, List.append_assoc]
      rfl
    · rintro ⟨hfines, htools, hnodup, rfl⟩
      obtain ⟨hfine, hfines⟩ := List.forall_mem_cons.mp hfines
      cases htools with
      | @cons _ t _ ts htool htools =>
        have hid := htool.callId
        rw [List.map_cons, ← List.singleton_append, ← List.append_assoc] at hnodup
        have hseen' : (seen ++ [t.callId]).Nodup := by
          rw [hid]
          exact (List.nodup_append.mp hnodup).1
        have hnew : c.id ∉ seen := fun hmem =>
          (List.nodup_append.mp (List.nodup_append.mp hnodup).1).2.2 c.id hmem c.id (by simp) rfl
        refine ⟨t, (parseCall_ok hcall).mpr ⟨hfine, htool, hnew⟩, ts,
          (seen ++ [t.callId]) ++ calls.map Call.id,
          (ih hseen').mpr ⟨hfines, htools, ?_, rfl⟩, rfl, ?_⟩
        · rw [hid]
          exact hnodup
        · rw [hid, List.append_assoc]
          rfl

/-! ## Choices -/

theorem textOrNull_of_nullable {v : Option Json} {s : Option String} (e : String)
    (h : nullable v = s.map .str) :
    textOrNull v e = .ok s := by
  rcases v with _ | v
  · cases s with
    | none => rfl
    | some s => cases h
  · cases v with
    | null =>
      cases s with
      | none => rfl
      | some s => cases h
    | str t =>
      cases s with
      | none => cases h
      | some s =>
        cases h
        rfl
    | _ => cases s <;> cases h

theorem arrayOrNull_of_elements {α : Type} {v : Option Json} {is : Json → α → Prop} {l : List α}
    (e : String) (h : Elements v is l) :
    ∃ raws, arrayOrNull v e = .ok raws ∧ List.Forall₂ is raws l := by
  rcases h with ⟨hnone, rfl⟩ | ⟨raws, rfl, hraws⟩
  · refine ⟨[], ?_, .nil⟩
    rcases v with _ | v
    · rfl
    · cases v with
      | null => rfl
      | _ => cases hnone
  · exact ⟨raws, rfl, hraws⟩

theorem nullOr_iff {v : Option Json} {s : String} :
    (isNone v || v == some (.str s)) = true ↔ nullable v = none ∨ nullable v = some (.str s) := by
  rcases v with _ | v
  · simp [isNone, nullable]
  · cases v <;> simp [isNone, nullable]

/-- The parsed form of a choice. -/
structure IsParsed (dec : Decoder) (c : Choice) (p : ParsedChoice) : Prop where
  index : p.index = c.index
  content : p.content = c.content
  reasoning : p.reasoning = c.reasoning
  finishReason : p.finishReason = some c.finishReason
  tools : List.Forall₂ (IsTool dec) c.calls p.tools

theorem parseChoice_ok {seen seen' : List String} {position : Nat} {raw : Fields} {c : Choice}
    {p : ParsedChoice} (h : IsChoice (.obj raw) c) (hseen : seen.Nodup) :
    parseChoice dec seen position raw = .ok (p, seen') ↔ c.RoleFine ∧
    (∀ call ∈ c.calls, call.Fine) ∧ IsParsed dec c p ∧
      (seen ++ c.ids).Nodup ∧ seen' = seen ++ c.ids := by
  obtain ⟨f, message, hraw, hmessage, hrole, hcontent, hreasoning, hcalls, hindex, hfinish, hlog⟩ :=
    h
  cases hraw
  obtain ⟨raws, harray, hraws⟩ :=
    arrayOrNull_of_elements "Chat Completions tool_calls must be an array." hcalls
  have hfinish' : nullable (Fields.get raw "finish_reason") = (some c.finishReason).map .str := by
    rw [hfinish]
    rfl
  simp only [parseChoice, hmessage, bind_ok, exists_unit, require_ok, nullOr_iff, hrole,
    textOrNull_of_nullable _ hcontent, textOrNull_of_nullable _ hreasoning,
    textOrNull_of_nullable _ hfinish', hlog,
    hindex, integerOr, harray, Except.ok.injEq, exists_eq_left', true_and,
    pure_ok, Prod.exists, Prod.mk.injEq]
  constructor
  · rintro ⟨hfine, tools, seen₁, htools, rfl, rfl⟩
    obtain ⟨htypes, hforall, hnodup, rfl⟩ := (parseCalls_ok hraws hseen).mp htools
    exact ⟨hfine, htypes, ⟨rfl, rfl, rfl, rfl, hforall⟩, hnodup, rfl⟩
  · rintro ⟨hfine, htypes, ⟨h1, h2, h3, h4, hforall⟩, hnodup, rfl⟩
    refine ⟨hfine, p.tools, _, (parseCalls_ok hraws hseen).mpr ⟨htypes, hforall,
      hnodup, rfl⟩, ?_, rfl⟩
    rw [← h1, ← h2, ← h3, ← h4]

theorem parseChoices_ok {seen : List String} {position : Nat} {raws : List Json}
    {parsed : List ParsedChoice} (h : List.Forall₂ IsChoice raws choices) (hseen : seen.Nodup) :
    parseChoices dec seen position raws = .ok parsed ↔ (∀ c ∈ choices, c.RoleFine) ∧
      (∀ c ∈ choices, ∀ call ∈ c.calls, call.Fine) ∧ List.Forall₂ (IsParsed dec) choices parsed ∧
      (seen ++ choices.flatMap Choice.ids).Nodup := by
  induction h generalizing seen position parsed with
  | nil =>
    simp only [parseChoices, Except.ok.injEq, List.flatMap_nil, List.append_nil, hseen, and_true,
      List.forall₂_nil_left_iff]
    exact ⟨fun h => ⟨by simp, by simp, h.symm⟩, fun h => h.2.2.symm⟩
  | @cons raw c raws choices hchoice hrest ih =>
    obtain ⟨f, -, rfl, -⟩ := id hchoice
    simp only [parseChoices, bind_ok, pure_ok, Prod.exists]
    constructor
    · rintro ⟨p, seen₁, hp, ps, hps, rfl⟩
      obtain ⟨hfine, htypes, hparsed, hnodup, rfl⟩ := (parseChoice_ok hchoice hseen).mp hp
      obtain ⟨hfines, htypes', hparseds, hnodup'⟩ := (ih hnodup).mp hps
      rw [List.append_assoc] at hnodup'
      exact ⟨List.forall_mem_cons.mpr ⟨hfine, hfines⟩, List.forall_mem_cons.mpr ⟨htypes, htypes'⟩,
        .cons hparsed hparseds, hnodup'⟩
    · rintro ⟨hfines, htypes, hparseds, hnodup⟩
      obtain ⟨hfine, hfines⟩ := List.forall_mem_cons.mp hfines
      obtain ⟨htype, htypes⟩ := List.forall_mem_cons.mp htypes
      cases hparseds with
      | @cons _ p _ ps hparsed hparseds =>
        rw [List.flatMap_cons, ← List.append_assoc] at hnodup
        have hseen' := (List.nodup_append.mp hnodup).1
        exact ⟨p, seen ++ c.ids, (parseChoice_ok hchoice hseen).mpr
          ⟨hfine, htype, hparsed, hseen', rfl⟩, ps,
          (ih hseen').mpr ⟨hfines, htypes, hparseds, hnodup⟩, rfl⟩

theorem exists_forall₂ {α β : Type} {R : α → β → Prop} {l : List α} (h : ∀ a ∈ l, ∃ b, R a b) :
    ∃ m, List.Forall₂ R l m := by
  induction l with
  | nil => exact ⟨[], .nil⟩
  | cons a l ih =>
    obtain ⟨⟨b, hb⟩, hrest⟩ := List.forall_mem_cons.mp h
    obtain ⟨m, hm⟩ := ih hrest
    exact ⟨b :: m, .cons hb hm⟩

theorem forall₂_exists_left {α β : Type} {R : α → β → Prop} {l : List α} {m : List β}
    (h : List.Forall₂ R l m) :
    ∀ a ∈ l, ∃ b ∈ m, R a b := by
  induction h with
  | nil => exact fun a ha => absurd ha List.not_mem_nil
  | cons hab _ ih =>
    refine List.forall_mem_cons.mpr ⟨⟨_, List.mem_cons_self, hab⟩, fun a ha => ?_⟩
    obtain ⟨b, hb, hR⟩ := ih a ha
    exact ⟨b, List.mem_cons_of_mem _ hb, hR⟩

/-- The choice the response stands for. -/
structure IsPrimary (dec : Decoder) (choices : List Choice) (c : Choice) (whole : Prepared) :
    Prop where
  mem : c ∈ choices
  least : ∀ c' ∈ choices, c.index ≤ c'.index
  content : whole.content = c.content
  reasoning : whole.reasoning = c.reasoning
  finishReason : whole.finishReason = some c.finishReason
  tools : List.Forall₂ (IsTool dec) c.calls whole.toolMessages

theorem head_mergeSort_le {parsed rest : List ParsedChoice} {p : ParsedChoice}
    (h : parsed.mergeSort (fun a b => a.index ≤ b.index) = p :: rest) :
    p ∈ parsed ∧ ∀ q ∈ parsed, p.index ≤ q.index := by
  have hsorted : (parsed.mergeSort fun a b => a.index ≤ b.index).Pairwise fun a b =>
      decide (a.index ≤ b.index) = true :=
    List.pairwise_mergeSort (fun a b c hab hbc => by simp only [decide_eq_true_eq] at *; omega)
      (fun a b => by simp only [Bool.or_eq_true, decide_eq_true_eq]; omega) parsed
  rw [h] at hsorted
  have hmem : ∀ q, q ∈ p :: rest ↔ q ∈ parsed := fun q => by rw [← h, List.mem_mergeSort]
  refine ⟨(hmem p).mp List.mem_cons_self, fun q hq => ?_⟩
  rcases List.mem_cons.mp ((hmem q).mpr hq) with rfl | hq
  · exact le_refl _
  · simpa using (List.pairwise_cons.mp hsorted).1 q hq

/-- **What a response parses to.** -/
theorem parseResponse_primary {whole : Prepared} (hbody : IsBody data choices)
    (h : parseResponse dec data = .ok whole) :
    Acceptable dec choices ∧ ∃ c, IsPrimary dec choices c whole := by
  obtain ⟨raws, hraws, hchoices, husage⟩ := hbody
  unfold parseResponse at h
  split at h
  · next raw raws' hget =>
    rw [hget] at hraws
    cases hraws
    simp only [husage, bind_ok, exists_unit, true_and] at h
    obtain ⟨parsed, hparsed, hprimary⟩ := h
    obtain ⟨hroles, htypes, hforall, hids⟩ := (parseChoices_ok hchoices List.nodup_nil).mp hparsed
    have htools : ∀ c ∈ choices, ∀ call ∈ c.calls, ∃ t, IsTool dec call t := by
      intro c hc call hcall
      obtain ⟨p, -, hp⟩ := forall₂_exists_left hforall c hc
      obtain ⟨t, -, ht⟩ := forall₂_exists_left hp.tools call hcall
      exact ⟨t, ht⟩
    refine ⟨⟨hroles, htypes, htools, hids⟩, ?_⟩
    split at hprimary
    · next p rest hsort =>
      obtain ⟨hmem, hleast⟩ := head_mergeSort_le hsort
      obtain ⟨c, hc, hp⟩ := forall₂_exists_left hforall.flip p hmem
      rw [pure_ok] at hprimary
      subst hprimary
      refine ⟨c, hc, fun c' hc' => ?_, hp.content, hp.reasoning, hp.finishReason, hp.tools⟩
      obtain ⟨q, hq, hq'⟩ := forall₂_exists_left hforall c' hc'
      have := hleast q hq
      rwa [hp.index, hq'.index] at this
    · cases hprimary
  · cases h

theorem parseResponse_of_acceptable (hbody : IsBody data choices) (hne : choices ≠ [])
    (h : Acceptable dec choices) :
    ∃ whole, parseResponse dec data = .ok whole := by
  obtain ⟨raws, hraws, hchoices, husage⟩ := hbody
  obtain ⟨parsed, hforall⟩ : ∃ parsed, List.Forall₂ (IsParsed dec) choices parsed := by
    refine exists_forall₂ fun c hc => ?_
    obtain ⟨tools, htools⟩ := exists_forall₂ (h.tools c hc)
    exact ⟨⟨c.index, c.content, c.reasoning, tools, some c.finishReason⟩,
      rfl, rfl, rfl, rfl, htools⟩
  have hparsed : parseChoices dec [] 0 raws = .ok parsed :=
    (parseChoices_ok hchoices List.nodup_nil).mpr ⟨h.roles, h.types, hforall, h.ids⟩
  have hlen : (parsed.mergeSort fun a b => a.index ≤ b.index).length = choices.length := by
    rw [List.length_mergeSort, hforall.length_eq]
  have hlen' := hchoices.length_eq
  cases raws with
  | nil => exact absurd (List.length_eq_zero_iff.mp hlen'.symm) hne
  | cons raw raws =>
    obtain ⟨p, rest, hsort⟩ := List.exists_cons_of_length_pos (hlen ▸ List.length_pos_of_ne_nil hne)
    rw [parseResponse, hraws]
    show ∃ whole, (objectOrNull (data.get "usage") _ >>= _) = .ok whole
    rw [husage]
    show ∃ whole, (parseChoices dec [] 0 (raw :: raws) >>= _) = .ok whole
    simp only [hparsed, ok_bind, hsort]
    exact ⟨_, rfl⟩

end MiniAgent.Provider.Chat
