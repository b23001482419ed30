import MiniAgent.Provider.Wire

/-!
# Every call has its result on the wire

The calls of a wire history and the tool messages pair up: an assistant message that declares calls
is followed at once by the result of each, in order, and no tool message stands elsewhere
(`Paired`). The loop keeps this with one fact about the ids it has seen: they are those declared so
far. It stops exactly at a message whose options or name are refused, or at a call that is completed
nowhere.
-/

namespace MiniAgent.Provider

open Lib

variable {completed : String → Option ToolMessage} {seen seen' : List String}
  {tools emitted : List ToolMessage}
  {source : List ChatMessage} {wire : List Fields}

/-! ## What a provider takes -/

def wireRole (m : Fields) : Option Json := m.get "role"

/-- The ids of `tool_calls` of an assistant message. -/
def declaredIds (m : Fields) : List String :=
  match wireRole m, m.get "tool_calls" with
  | some (.str "assistant"), some (.arr calls) => calls.filterMap fun call => match call with
    | .obj f => (Fields.get f "id").bind Json.str?
    | _ => none
  | _, _ => []

/-- Every assistant message with `tool_calls` is followed by one tool message per call, in the same
order and with the same id, and there are no other tool messages. The calls and results are those of
`known`. -/
inductive Paired (known : ToolMessage → Prop) : List Fields → Prop where
  | nil : Paired known []
  | plain {m : Fields} {wire : List Fields} (hrole : wireRole m ≠ some (.str "tool"))
      (hcalls : wireRole m = some (.str "assistant") → m.get "tool_calls" = none)
      (hrest : Paired known wire) :
      Paired known (m :: wire)
  | exchange {m : Fields} {wire : List Fields} {tools : List ToolMessage}
    (hrole : wireRole m = some (.str "assistant"))
      (hne : tools ≠ []) (hknown : ∀ t ∈ tools, known t)
      (hcalls : m.get "tool_calls" = some (.arr (tools.map callJson))) (hrest : Paired known wire) :
      Paired known (m :: (tools.map resultJson ++ wire))

/-- A call of the source that has a result. -/
def Completed (source : List ChatMessage) (t : ToolMessage) : Prop :=
  t ∈ source.flatMap ChatMessage.tools ∧ t.completed = true

/-! ## Extra fields -/

/-- Extra fields do not touch a reserved member. -/
theorem get_mergeExtraFields {target out : Fields} {raw : Option Json} {reserved : List String}
    {label k : String} (h : mergeExtraFields target raw reserved label = .ok out)
    (hk : k ∈ reserved) :
    out.get k = target.get k := by
  unfold mergeExtraFields at h
  split at h
  · cases h; rfl
  · cases h; rfl
  · next extra =>
    dsimp only at h
    split at h
    · next hempty =>
      cases h
      rw [List.isEmpty_iff, List.filter_eq_nil_iff] at hempty
      have hnone := hempty k hk
      rw [Bool.not_eq_true, Option.isSome_eq_false_iff, Option.isNone_iff_eq_none] at hnone
      rw [Fields.get_setAll, hnone]
      rfl
    · cases h
  · cases h

theorem optionalName_get {name role k : String} {f : Fields} (h : optionalName name role = .ok f)
    (hk : k ≠ "name") :
    f.get k = none := by
  unfold optionalName at h
  split at h
  · cases h
  · cases h
    split
    · rw [Fields.get_cons, if_neg (Ne.symm hk)]
      rfl
    · rfl

theorem optional_get {name k : String} {v : Option Json} (hk : k ≠ name) :
    (optional name v).get k = none := by
  cases v with
  | none => rfl
  | some v =>
    rw [optional, Fields.get_cons, if_neg (Ne.symm hk)]
    rfl

theorem wireText_role {role : String} {m : TextMessage} {out : Fields}
    (h : wireText role m = .ok out) :
    wireRole out = some (.str role) := by
  simp only [wireText, bind_ok] at h
  obtain ⟨options, -, ⟨⟩, -, name, hname, hmerge⟩ := h
  rw [wireRole, get_mergeExtraFields hmerge (by decide), Fields.get_setAll,
    optionalName_get hname (by decide)]
  rfl

theorem wirePlain_ok {options : Fields} {isPrefix : Bool} {m : AssistantMessage}
    (h : wirePlain options isPrefix m = .ok wire) : wire = [] ∨
      ∃ out, wire = [out] ∧ wireRole out = some (.str "assistant") ∧
        out.get "tool_calls" = none := by
  unfold wirePlain at h
  split at h
  · split at h
    · cases h
    · cases h; exact .inl rfl
  · simp only [bind_ok, pure_ok] at h
    obtain ⟨name, hname, out, hmerge, rfl⟩ := h
    have hget : ∀ {k}, k ∈ assistantReserved → k ≠ "name" → k ≠ "prefix" → k ≠ "reasoning_content" →
        out.get k = Fields.get [("role", .str "assistant"),
          ("content", contentJson m.content)] k := by
      intro k hk h1 h2 h3
      rw [get_mergeExtraFields hmerge hk, Fields.get_setAll, Fields.get_append, Fields.get_append,
        optionalName_get hname h1, optional_get h2, optional_get h3]
      rfl
    refine .inr ⟨out, rfl, ?_, ?_⟩
    · exact hget (by decide) (by decide) (by decide) (by decide)
    · exact hget (by decide) (by decide) (by decide) (by decide)

theorem wireCalls_ok {options : Fields} {m : AssistantMessage}
    (h : wireCalls options m emitted = .ok wire) :
    ∃ out, wire = out :: emitted.map resultJson ∧ wireRole out = some (.str "assistant") ∧
      out.get "tool_calls" = some (.arr (emitted.map callJson)) := by
  simp only [wireCalls, bind_ok, pure_ok] at h
  obtain ⟨name, hname, out, hmerge, rfl⟩ := h
  have hget : ∀ {k}, k ∈ assistantReserved → k ≠ "name" → k ≠ "prefix" → k ≠ "reasoning_content" →
      out.get k = Fields.get [("role", .str "assistant"), ("content", contentJson m.content),
        ("tool_calls", .arr (emitted.map callJson))] k := by
    intro k hk h1 h2 h3
    rw [get_mergeExtraFields hmerge hk, Fields.get_setAll, Fields.get_append, Fields.get_append,
      optionalName_get hname h1, optional_get h2, optional_get h3]
    rfl
  refine ⟨out, rfl, ?_, ?_⟩
  · exact hget (by decide) (by decide) (by decide) (by decide)
  · exact hget (by decide) (by decide) (by decide) (by decide)

/-! ## Calls -/

theorem completedTools_some {callId : String} {t : ToolMessage}
    (h : completedTools source callId = some t) :
    Completed source t ∧ t.callId = callId := by
  have hmem := List.mem_of_getLast? h
  simp only [List.mem_filter, Bool.and_eq_true, beq_iff_eq] at hmem
  exact ⟨⟨hmem.1, hmem.2.1⟩, hmem.2.2⟩

theorem completedTools_isSome {callId : String} :
    (completedTools source callId).isSome = true ↔ ∃ t, Completed source t ∧ t.callId = callId := by
  constructor
  · intro h
    obtain ⟨t, ht⟩ := Option.isSome_iff_exists.mp h
    exact ⟨t, completedTools_some ht⟩
  · rintro ⟨t, ⟨hmem, hc⟩, rfl⟩
    rw [completedTools, List.getLast?_isSome]
    refine List.ne_nil_of_mem (a := t) (List.mem_filter.mpr ⟨hmem, ?_⟩)
    rw [hc, Bool.true_and, beq_self_eq_true]

/-- What the results of a history are good for. -/
structure Resolves (source : List ChatMessage) (completed : String → Option ToolMessage) :
    Prop where
  some : ∀ callId t, completed callId = some t → Completed source t ∧ t.callId = callId
  own : ∀ t, Completed source t → (completed t.callId).isSome = true

theorem resolves_completedTools (source : List ChatMessage) :
    Resolves source (completedTools source) :=
  ⟨fun _ _ h => completedTools_some h, fun t ht => completedTools_isSome.mpr ⟨t, ht, rfl⟩⟩

theorem effective_ok (h : Resolves source completed) {t e : ToolMessage}
    (ht : t ∈ source.flatMap ChatMessage.tools) (he : effective completed t = .ok e) :
    Completed source e ∧ e.callId = t.callId := by
  unfold effective at he
  split at he
  · next hc =>
    cases he
    exact ⟨⟨ht, hc⟩, rfl⟩
  · split at he
    · next c hc =>
      cases he
      exact h.some _ _ hc
    · cases he

theorem effective_error (h : Resolves source completed) {t : ToolMessage}
    (ht : t ∈ source.flatMap ChatMessage.tools) :
    (∃ e, effective completed t = .error e) ↔ completed t.callId = none := by
  unfold effective
  split
  · next hc =>
    have := h.own t ⟨ht, hc⟩
    refine iff_of_false (fun ⟨e, he⟩ => by cases he) fun hnone => ?_
    rw [hnone] at this
    cases this
  · rcases completed t.callId with _ | c
    · exact iff_of_true ⟨_, rfl⟩ rfl
    · exact iff_of_false (fun ⟨e, he⟩ => by cases he) (fun he => by cases he)

/-- **The calls a message declares.** -/
theorem declareTools_ok (h : Resolves source completed)
    (htools : ∀ t ∈ tools, t ∈ source.flatMap ChatMessage.tools)
    (hx : declareTools completed seen tools = .ok (emitted, seen')) :
    (∀ t ∈ emitted, Completed source t) ∧ (emitted.map ToolMessage.callId).Nodup ∧
    (∀ id ∈ emitted.map ToolMessage.callId, id ∉ seen) ∧
    (∀ id, id ∈ seen' ↔ id ∈ seen ∨ id ∈ tools.map ToolMessage.callId) ∧
    ∀ id, id ∈ seen' ↔ id ∈ seen ∨ id ∈ emitted.map ToolMessage.callId := by
  induction tools generalizing seen emitted with
  | nil =>
    cases hx
    simp
  | cons t tools ih =>
    obtain ⟨ht, htools⟩ := List.forall_mem_cons.mp htools
    rw [declareTools] at hx
    split at hx
    · next hseen =>
      rw [List.contains_iff_mem] at hseen
      obtain ⟨h1, h2, h3, h4, h5⟩ := ih htools hx
      refine ⟨h1, h2, h3, fun id => ?_, h5⟩
      rw [h4, List.map_cons, List.mem_cons]
      constructor
      · rintro (hid | hid)
        · exact .inl hid
        · exact .inr (.inr hid)
      · rintro (hid | rfl | hid)
        · exact .inl hid
        · exact .inl hseen
        · exact .inr hid
    · next hseen =>
      rw [List.contains_iff_mem] at hseen
      simp only [bind_ok, pure_ok] at hx
      obtain ⟨e, he, ⟨emitted', seen''⟩, hrest, heq⟩ := hx
      cases heq
      obtain ⟨hcompleted, hid⟩ := effective_ok h ht he
      obtain ⟨h1, h2, h3, h4, h5⟩ := ih htools hrest
      refine ⟨List.forall_mem_cons.mpr ⟨hcompleted, h1⟩, ?_, ?_, fun id => ?_, fun id => ?_⟩
      · rw [List.map_cons, List.nodup_cons]
        refine ⟨fun hmem => h3 _ hmem ?_, h2⟩
        rw [hid]
        exact List.mem_cons_self
      · rw [List.map_cons, List.forall_mem_cons]
        exact ⟨hid ▸ hseen, fun id hmem hs => h3 id hmem (List.mem_cons_of_mem _ hs)⟩
      · rw [h4, List.map_cons, List.mem_cons, List.mem_cons]
        tauto
      · rw [h5, List.map_cons, List.mem_cons, List.mem_cons, hid]
        tauto

theorem declareTools_error (seen : List String) (h : Resolves source completed)
    (htools : ∀ t ∈ tools, t ∈ source.flatMap ChatMessage.tools) :
    (∃ e, declareTools completed seen tools = .error e) ↔
      ∃ t ∈ tools, t.callId ∉ seen ∧ completed t.callId = none := by
  induction tools generalizing seen with
  | nil => simp [declareTools]
  | cons t tools ih =>
    obtain ⟨ht, htools⟩ := List.forall_mem_cons.mp htools
    rw [declareTools]
    split
    · next hseen =>
      rw [List.contains_iff_mem] at hseen
      rw [ih _ htools]
      simp only [List.mem_cons, exists_eq_or_imp]
      exact ⟨.inr, fun hor => hor.resolve_left fun hfalse => hfalse.1 hseen⟩
    · next hseen =>
      rw [List.contains_iff_mem] at hseen
      simp only [List.mem_cons, exists_eq_or_imp]
      have herror := effective_error h ht
      rcases he : effective completed t with e | c
      · rw [he] at herror
        exact iff_of_true ⟨e, rfl⟩ (.inl ⟨hseen, herror.mp ⟨e, rfl⟩⟩)
      · rw [he] at herror
        have hsome : completed t.callId ≠ none := fun hnone => by
          obtain ⟨e, heq⟩ := herror.mpr hnone
          cases heq
        have hrest : (∃ e, (do
            let p ← declareTools completed (t.callId :: seen) tools
            pure (c :: p.1, p.2) : Except RequestError (List ToolMessage × List String)) =
              .error e) ↔
            ∃ e, declareTools completed (t.callId :: seen) tools = .error e := by
          rcases declareTools completed (t.callId :: seen) tools with e | ⟨emitted, seen'⟩
          · exact iff_of_true ⟨e, rfl⟩ ⟨e, rfl⟩
          · refine iff_of_false ?_ ?_
            · rintro ⟨e, h⟩
              cases h
            · rintro ⟨e, h⟩
              cases h
        refine (show _ ↔ _ from hrest).trans ?_
        rw [ih _ htools]
        constructor
        · rintro ⟨u, hu, hnot, hnone⟩
          exact .inr ⟨u, hu, fun hs => hnot (List.mem_cons_of_mem _ hs), hnone⟩
        · rintro (⟨-, hnone⟩ | ⟨u, hu, hnot, hnone⟩)
          · exact absurd hnone hsome
          · refine ⟨u, hu, fun hs => ?_, hnone⟩
            rcases List.mem_cons.mp hs with heq | hs
            · rw [heq] at hnone
              exact hsome hnone
            · exact hnot hs

/-! ## Checks -/

/-- The ids of the calls of a history. -/
def callIds (source : List ChatMessage) : List String :=
  (source.flatMap ChatMessage.tools).map ToolMessage.callId

/-- Extra fields that can be merged. -/
def ExtraOk (options : Fields) : Prop :=
  ∃ out, mergeExtraFields [] (options.get "extra_body") assistantReserved
    "assistant message" = .ok out

/-- The option and name checks made on a message, after the calls `seen`: a message that declares no
call is not asked for its name. -/
def Checks (seen : List String) (last : Bool) : ChatMessage → Prop
  | .system m => ∃ out, wireText "system" m = .ok out
  | .user m => ∃ out, wireText "user" m = .ok out
  | .assistant m => ∃ options isPrefix, assistantOptions last m = .ok (options, isPrefix) ∧
    (m.toolMessages = [] → ∃ wire, wirePlain options isPrefix m = .ok wire) ∧
    ((∃ t ∈ m.toolMessages, t.callId ∉ seen) → m.name ≠ "" ∧ ExtraOk options)

theorem checks_congr {last : Bool} {m : ChatMessage} (h : ∀ id, id ∈ seen ↔ id ∈ seen') :
    Checks seen last m ↔ Checks seen' last m := by
  cases m with
  | assistant m => simp only [Checks, h]
  | _ => rfl

theorem mergeExtraFields_ok_iff {target target' : Fields} {raw : Option Json}
    {reserved : List String} {label : String} :
    (∃ out, mergeExtraFields target raw reserved label = .ok out) ↔
      ∃ out, mergeExtraFields target' raw reserved label = .ok out := by
  unfold mergeExtraFields
  split
  · exact iff_of_true ⟨_, rfl⟩ ⟨_, rfl⟩
  · exact iff_of_true ⟨_, rfl⟩ ⟨_, rfl⟩
  · dsimp only
    split
    · exact iff_of_true ⟨_, rfl⟩ ⟨_, rfl⟩
    · exact iff_of_false (fun ⟨_, h⟩ => by cases h) (fun ⟨_, h⟩ => by cases h)
  · exact iff_of_false (fun ⟨_, h⟩ => by cases h) (fun ⟨_, h⟩ => by cases h)

theorem wireCalls_ok_iff {options : Fields} {m : AssistantMessage} (emitted : List ToolMessage) :
    (∃ wire, wireCalls options m emitted = .ok wire) ↔ m.name ≠ "" ∧ ExtraOk options := by
  by_cases hname : m.name = ""
  · refine iff_of_false ?_ (fun h => h.1 hname)
    rintro ⟨wire, h⟩
    simp only [wireCalls, bind_ok] at h
    obtain ⟨name, hn, -⟩ := h
    rw [optionalName, if_pos hname] at hn
    cases hn
  · obtain ⟨name, hn⟩ : ∃ name, optionalName m.name "assistant" = .ok name := ⟨_, if_neg hname⟩
    constructor
    · rintro ⟨wire, h⟩
      simp only [wireCalls, bind_ok, pure_ok] at h
      obtain ⟨_, -, out, hmerge, -⟩ := h
      exact ⟨hname, mergeExtraFields_ok_iff.mp ⟨out, hmerge⟩⟩
    · rintro ⟨-, hextra⟩
      obtain ⟨out, hout⟩ := mergeExtraFields_ok_iff.mpr hextra
      refine ⟨out :: emitted.map resultJson, ?_⟩
      simp only [wireCalls, bind_ok, pure_ok]
      exact ⟨name, hn, out, hout, rfl⟩

theorem error_iff {ε α : Type} {x : Except ε α} : (∃ e, x = .error e) ↔ ¬ ∃ a, x = .ok a := by
  cases x <;> simp

/-! ## The loop -/

/-- A part of the wire that declares the calls `ids`, after the calls `seen`. -/
structure Extends (source : List ChatMessage) (seen ids : List String) (wire : List Fields) :
    Prop where
  paired : ∀ rest, Paired (Completed source) rest → Paired (Completed source) (wire ++ rest)
  nodup : (wire.flatMap declaredIds).Nodup
  fresh : ∀ id ∈ wire.flatMap declaredIds, id ∉ seen
  all : ∀ id, id ∈ seen ∨ id ∈ wire.flatMap declaredIds ↔ id ∈ seen ∨ id ∈ ids

theorem Extends.nil : Extends source seen [] [] :=
  ⟨fun _ h => h, List.nodup_nil, fun _ h => absurd h List.not_mem_nil, fun _ => Iff.rfl⟩

theorem Extends.append {ids ids' : List String} {wire' : List Fields}
    (h : Extends source seen ids wire) (hseen : ∀ id, id ∈ seen' ↔ id ∈ seen ∨ id ∈ ids)
    (h' : Extends source seen' ids' wire') :
    Extends source seen (ids ++ ids') (wire ++ wire') where
  paired rest hrest := by
    rw [List.append_assoc]
    exact h.paired _ (h'.paired rest hrest)
  nodup := by
    rw [List.flatMap_append, List.nodup_append]
    refine ⟨h.nodup, h'.nodup, fun a ha b hb hab => h'.fresh b hb ?_⟩
    rw [hseen, ← h.all, ← hab]
    exact .inr ha
  fresh id hid hs := by
    rw [List.flatMap_append, List.mem_append] at hid
    rcases hid with hid | hid
    · exact h.fresh id hid hs
    · exact h'.fresh id hid ((hseen id).mpr (.inl hs))
  all id := by
    have h1 := h.all id
    have h2 := h'.all id
    rw [hseen] at h2
    rw [List.flatMap_append, List.mem_append, List.mem_append, ← or_assoc, h1, h2, or_assoc]

/-- A message that declares nothing. -/
theorem extends_plain {m : Fields} (hrole : wireRole m ≠ some (.str "tool"))
    (hcalls : wireRole m = some (.str "assistant") → m.get "tool_calls" = none) :
    Extends source seen [] [m] := by
  have hids : declaredIds m = [] := by
    unfold declaredIds
    split
    · next h1 h2 =>
      rw [hcalls h1] at h2
      cases h2
    · rfl
  refine ⟨fun rest hrest => .plain hrole hcalls hrest, ?_, ?_, fun id => ?_⟩ <;>
    simp [hids]

theorem declaredIds_resultJson (t : ToolMessage) : declaredIds (resultJson t) = [] := rfl

theorem declaredIds_calls {m : Fields} (hrole : wireRole m = some (.str "assistant"))
    (hcalls : m.get "tool_calls" = some (.arr (emitted.map callJson))) :
    declaredIds m = emitted.map ToolMessage.callId := by
  have hid : ∀ t : ToolMessage, (match callJson t with
      | .obj f => (Fields.get f "id").bind Json.str?
      | _ => none) = some t.callId := fun _ => rfl
  simp only [declaredIds, hrole, hcalls, List.filterMap_map, Function.comp_def, hid]
  exact List.filterMap_eq_map' ▸ rfl

theorem wireAssistant_ok (h : Resolves source completed) {last : Bool} {m : AssistantMessage}
    (htools : ∀ t ∈ m.toolMessages, t ∈ source.flatMap ChatMessage.tools)
    (hx : wireAssistant completed seen last m = .ok (wire, seen')) :
    Extends source seen (m.toolMessages.map ToolMessage.callId) wire ∧
    ∀ id, id ∈ seen' ↔ id ∈ seen ∨ id ∈ m.toolMessages.map ToolMessage.callId := by
  simp only [wireAssistant, bind_ok] at hx
  obtain ⟨⟨options, isPrefix⟩, -, hx⟩ := hx
  split at hx
  · next hempty =>
    rw [List.isEmpty_iff] at hempty
    simp only [bind_ok, pure_ok] at hx
    obtain ⟨wire', hplain, heq⟩ := hx
    cases heq
    rw [hempty]
    refine ⟨?_, by simp⟩
    obtain rfl | ⟨out, rfl, hrole, hcalls⟩ := wirePlain_ok hplain
    · exact .nil
    · exact extends_plain (by rw [hrole]; decide) fun _ => hcalls
  · simp only [bind_ok] at hx
    obtain ⟨⟨emitted, seen''⟩, hdeclare, hx⟩ := hx
    obtain ⟨h1, h2, h3, h4, h5⟩ := declareTools_ok h htools hdeclare
    split at hx
    · next hempty =>
      rw [List.isEmpty_iff] at hempty
      subst hempty
      have hsame : ∀ id, id ∈ seen ∨ id ∈ [] ↔ id ∈ seen ∨
          id ∈ m.toolMessages.map ToolMessage.callId :=
        fun id => (h5 id).symm.trans (h4 id)
      have hquiet : ∀ {w}, Extends source seen [] w →
          Extends source seen (m.toolMessages.map ToolMessage.callId) w :=
        fun hw => ⟨hw.paired, hw.nodup, hw.fresh, fun id => (hw.all id).trans (hsame id)⟩
      split at hx
      · cases hx
        exact ⟨hquiet (extends_plain (by simp [wireRole, Fields.get_cons]) fun _ => rfl), h4⟩
      · cases hx
        exact ⟨hquiet .nil, h4⟩
    · next hne =>
      rw [List.isEmpty_iff] at hne
      simp only [bind_ok, pure_ok] at hx
      obtain ⟨wire', hcalls, heq⟩ := hx
      cases heq
      obtain ⟨out, rfl, hrole, hget⟩ := wireCalls_ok hcalls
      have hids : (out :: emitted.map resultJson).flatMap declaredIds =
          emitted.map ToolMessage.callId := by
        rw [List.flatMap_cons, declaredIds_calls hrole hget, List.flatMap_map]
        simp [declaredIds_resultJson]
      refine ⟨⟨fun rest hrest => .exchange hrole hne h1 hget hrest, ?_, ?_, fun id => ?_⟩, h4⟩
      · rw [hids]; exact h2
      · rw [hids]; exact h3
      · rw [hids]
        exact (h5 id).symm.trans (h4 id)

theorem wireAssistant_error (h : Resolves source completed) {last : Bool} {m : AssistantMessage}
    (htools : ∀ t ∈ m.toolMessages, t ∈ source.flatMap ChatMessage.tools) :
    (∃ e, wireAssistant completed seen last m = .error e) ↔
      (¬ Checks seen last (.assistant m) ∨ ∃ t ∈ m.toolMessages, t.callId ∉ seen ∧
        completed t.callId = none) := by
  rcases hopt : assistantOptions last m with e | ⟨options, isPrefix⟩
  · refine iff_of_true ⟨e, ?_⟩ (.inl ?_)
    · rw [wireAssistant, hopt]
      rfl
    · rintro ⟨options, isPrefix, h, -⟩
      cases hopt.symm.trans h
  · have hchecks : Checks seen last (.assistant m) ↔
        (m.toolMessages = [] → ∃ wire, wirePlain options isPrefix m = .ok wire) ∧
        ((∃ t ∈ m.toolMessages, t.callId ∉ seen) → m.name ≠ "" ∧ ExtraOk options) := by
      constructor
      · rintro ⟨options', isPrefix', hopt', h⟩
        cases hopt.symm.trans hopt'
        exact h
      · exact fun h => ⟨options, isPrefix, hopt, h⟩
    rw [hchecks, wireAssistant, hopt]
    by_cases hempty : m.toolMessages = []
    · have hx : (∃ e, (do
          let wire ← wirePlain options isPrefix m
          pure (wire, seen) : Except RequestError (List Fields × List String)) = .error e) ↔
          ∃ e, wirePlain options isPrefix m = .error e := by
        rcases wirePlain options isPrefix m with e | wire
        · exact iff_of_true ⟨e, rfl⟩ ⟨e, rfl⟩
        · exact iff_of_false (fun ⟨e, h⟩ => by cases h) (fun ⟨e, h⟩ => by cases h)
      simp only [hempty, List.not_mem_nil, false_and, exists_false, or_false,
        IsEmpty.forall_iff, and_true,
        forall_const]
      exact hx.trans error_iff
    · have hdecl := declareTools_error seen h htools
      rcases hd : declareTools completed seen m.toolMessages with e | ⟨emitted, seen'⟩
      · rw [hd] at hdecl
        refine iff_of_true ⟨e, ?_⟩ (.inr (hdecl.mp ⟨e, rfl⟩))
        show (if m.toolMessages.isEmpty = true then _ else _) = _
        rw [if_neg (by rwa [List.isEmpty_iff])]
        rfl
      · rw [hd] at hdecl
        have hnone : ¬ ∃ t ∈ m.toolMessages, t.callId ∉ seen ∧ completed t.callId = none :=
          fun hn => by
          obtain ⟨e, he⟩ := hdecl.mpr hn
          cases he
        obtain ⟨-, -, h3, h4, h5⟩ := declareTools_ok h htools hd
        -- a message declares a call exactly when it has one that was not seen
        have hfresh : (∃ t ∈ m.toolMessages, t.callId ∉ seen) ↔ emitted ≠ [] := by
          constructor
          · rintro ⟨t, ht, hnot⟩ rfl
            have := (h4 t.callId).mpr (.inr (List.mem_map_of_mem ht))
            rw [h5] at this
            exact this.elim hnot (fun hmem => absurd hmem List.not_mem_nil)
          · intro hne
            obtain ⟨e, he⟩ := List.exists_mem_of_ne_nil _ hne
            have hmem := List.mem_map_of_mem (f := ToolMessage.callId) he
            have hnot := h3 _ hmem
            rcases (h4 e.callId).mp ((h5 e.callId).mpr (.inr hmem)) with hs | hs
            · exact absurd hs hnot
            · obtain ⟨t, ht, hid⟩ := List.mem_map.mp hs
              exact ⟨t, ht, hid ▸ hnot⟩
        have hfalse : (m.toolMessages = [] → ∃ wire, wirePlain options isPrefix m = .ok wire) ↔
            True :=
          iff_true_intro fun hnil => absurd hnil hempty
        rw [hfalse, true_and, hfresh, or_iff_left hnone, Classical.not_imp,
          ← wireCalls_ok_iff emitted,
          ← error_iff]
        show (∃ e, (if m.toolMessages.isEmpty = true then _ else _) = _) ↔ _
        rw [if_neg (by rwa [List.isEmpty_iff])]
        show (∃ e, (if emitted.isEmpty = true then _ else _) = _) ↔ _
        by_cases hnil : emitted = []
        · rw [if_pos (by rw [hnil]; rfl)]
          refine iff_of_false ?_ (fun hne => hne.1 hnil)
          rintro ⟨e, he⟩
          split at he <;> cases he
        · rw [if_neg (by rwa [List.isEmpty_iff])]
          rcases wireCalls options m emitted with e | wire
          · exact iff_of_true ⟨e, rfl⟩ ⟨hnil, e, rfl⟩
          · exact iff_of_false (fun ⟨e, h⟩ => by cases h) (fun ⟨_, e, h⟩ => by cases h)

theorem wireText_extends {role : String} {m : TextMessage} {out : Fields}
    (hrole : role ≠ "tool" ∧ role ≠ "assistant") (h : wireText role m = .ok out) :
    Extends source seen [] [out] := by
  have hout := wireText_role h
  refine extends_plain ?_ ?_ <;> rw [hout]
  · exact fun e => hrole.1 (Json.str.inj (Option.some.inj e))
  · exact fun e => absurd (Json.str.inj (Option.some.inj e)) hrole.2

theorem exists_split_cons {α : Type} {a : α} {l : List α} {P : List α → α → List α → Prop} :
    (∃ before b after, a :: l = before ++ b :: after ∧ P before b after) ↔
      P [] a l ∨ ∃ before b after, l = before ++ b :: after ∧ P (a :: before) b after := by
  constructor
  · rintro ⟨before, b, after, heq, hp⟩
    cases before with
    | nil => cases heq; exact .inl hp
    | cons c before => cases heq; exact .inr ⟨before, b, after, rfl, hp⟩
  · rintro (hp | ⟨before, b, after, rfl, hp⟩)
    · exact ⟨[], a, l, rfl, hp⟩
    · exact ⟨a :: before, b, after, rfl, hp⟩

/-- A message that is refused, among those still to come. -/
def Refused (seen : List String) (rest : List ChatMessage) : Prop :=
  ∃ before m after, rest = before ++ m :: after ∧ ¬ Checks (seen ++ callIds before) after.isEmpty m

theorem refused_cons {message : ChatMessage} {rest : List ChatMessage}
    (hseen : ∀ id, id ∈ seen' ↔ id ∈ seen ∨ id ∈ message.tools.map ToolMessage.callId) :
    Refused seen (message :: rest) ↔ ¬ Checks seen rest.isEmpty message ∨ Refused seen' rest := by
  have hhead : callIds [] = [] := rfl
  rw [Refused, exists_split_cons, hhead, List.append_nil]
  refine or_congr_right ?_
  refine exists_congr fun before => exists_congr fun m => exists_congr fun after =>
    and_congr_right fun _ => ?_
  refine not_congr (checks_congr fun id => ?_)
  rw [List.mem_append, List.mem_append, hseen, callIds, List.flatMap_cons,
    List.map_append, List.mem_append, or_assoc]
  rfl

/-- A call that is completed nowhere, among those still to come. -/
def Missing (completed : String → Option ToolMessage) (seen : List String)
    (tools : List ToolMessage) : Prop :=
  ∃ t ∈ tools, t.callId ∉ seen ∧ completed t.callId = none

theorem missing_append (hseen : ∀ id, id ∈ seen' ↔ id ∈ seen ∨ id ∈ tools.map ToolMessage.callId)
    {more : List ToolMessage} :
    Missing completed seen (tools ++ more) ↔ Missing completed seen tools ∨
    Missing completed seen' more := by
  constructor
  · rintro ⟨t, ht, hnot, hnone⟩
    rcases List.mem_append.mp ht with ht | ht
    · exact .inl ⟨t, ht, hnot, hnone⟩
    · by_cases hs : t.callId ∈ seen'
      · rcases (hseen _).mp hs with hs | hs
        · exact absurd hs hnot
        · obtain ⟨u, hu, hid⟩ := List.mem_map.mp hs
          exact .inl ⟨u, hu, hid ▸ hnot, hid ▸ hnone⟩
      · exact .inr ⟨t, ht, hs, hnone⟩
  · rintro (⟨t, ht, hnot, hnone⟩ | ⟨t, ht, hnot, hnone⟩)
    · exact ⟨t, List.mem_append_left _ ht, hnot, hnone⟩
    · exact ⟨t, List.mem_append_right _ ht, fun hs => hnot ((hseen _).mpr (.inl hs)), hnone⟩

/-- One message of the loop. -/
def wireMessage (completed : String → Option ToolMessage) (seen : List String) (last : Bool) :
    ChatMessage → Except RequestError (List Fields × List String)
  | .system m => do
    let item ← wireText "system" m
    pure ([item], seen)
  | .user m => do
    let item ← wireText "user" m
    pure ([item], seen)
  | .assistant m => wireAssistant completed seen last m

theorem wireLoop_cons (message : ChatMessage) (rest : List ChatMessage) :
    wireLoop completed seen (message :: rest) = (do
      let (wire, seen) ← wireMessage completed seen rest.isEmpty message
      let tail ← wireLoop completed seen rest
      pure (wire ++ tail)) := by
  cases message with
  | system m =>
    simp only [wireLoop, wireMessage, bind_assoc, pure_bind]
    rfl
  | user m =>
    simp only [wireLoop, wireMessage, bind_assoc, pure_bind]
    rfl
  | assistant m => rfl

theorem wireMessage_ok (h : Resolves source completed) {last : Bool} {message : ChatMessage}
    (htools : ∀ t ∈ message.tools, t ∈ source.flatMap ChatMessage.tools)
    (hx : wireMessage completed seen last message = .ok (wire, seen')) :
    Extends source seen (message.tools.map ToolMessage.callId) wire ∧
    ∀ id, id ∈ seen' ↔ id ∈ seen ∨ id ∈ message.tools.map ToolMessage.callId := by
  cases message with
  | system m =>
    simp only [wireMessage, bind_ok, pure_ok, Prod.mk.injEq] at hx
    obtain ⟨item, hitem, rfl, rfl⟩ := hx
    exact ⟨wireText_extends (by decide) hitem, by simp [ChatMessage.tools]⟩
  | user m =>
    simp only [wireMessage, bind_ok, pure_ok, Prod.mk.injEq] at hx
    obtain ⟨item, hitem, rfl, rfl⟩ := hx
    exact ⟨wireText_extends (by decide) hitem, by simp [ChatMessage.tools]⟩
  | assistant m => exact wireAssistant_ok h htools hx

theorem wireMessage_error (seen : List String) (last : Bool) (h : Resolves source completed)
    {message : ChatMessage} (htools : ∀ t ∈ message.tools, t ∈ source.flatMap ChatMessage.tools) :
    (∃ e, wireMessage completed seen last message = .error e) ↔
      ¬ Checks seen last message ∨ Missing completed seen message.tools := by
  have htext : ∀ {role : String} {m : TextMessage}, (∃ e, (do
      let item ← wireText role m
      pure ([item], seen) : Except RequestError (List Fields × List String)) = .error e) ↔
      (¬ (∃ out, wireText role m = .ok out)) ∨ Missing completed seen [] := by
    intro role m
    have hnone : ¬ Missing completed seen [] := fun ⟨t, ht, _⟩ => absurd ht List.not_mem_nil
    rw [or_iff_left hnone, ← error_iff]
    rcases wireText role m with e | item
    · exact iff_of_true ⟨e, rfl⟩ ⟨e, rfl⟩
    · exact iff_of_false (fun ⟨e, h⟩ => by cases h) (fun ⟨e, h⟩ => by cases h)
  cases message with
  | system m => exact htext
  | user m => exact htext
  | assistant m => exact wireAssistant_error h htools

/-- **What the loop puts on the wire.** -/
theorem wireLoop_ok (h : Resolves source completed) {rest : List ChatMessage}
    (htools : ∀ t ∈ rest.flatMap ChatMessage.tools, t ∈ source.flatMap ChatMessage.tools)
    (hx : wireLoop completed seen rest = .ok wire) : Extends source seen (callIds rest) wire := by
  induction rest generalizing seen wire with
  | nil =>
    cases hx
    exact .nil
  | cons message rest ih =>
    rw [List.flatMap_cons] at htools
    have hids : callIds (message :: rest) = message.tools.map ToolMessage.callId ++
        callIds rest := by
      rw [callIds, List.flatMap_cons, List.map_append]
      rfl
    simp only [wireLoop_cons, bind_ok, pure_ok] at hx
    obtain ⟨⟨part, seen'⟩, hpart, tail, htail, rfl⟩ := hx
    obtain ⟨hextends, hseen⟩ :=
      wireMessage_ok h (fun t ht => htools t (List.mem_append_left _ ht)) hpart
    rw [hids]
    exact hextends.append hseen (ih (fun t ht => htools t (List.mem_append_right _ ht)) htail)

/-- **When the loop raises.** -/
theorem wireLoop_error (h : Resolves source completed) {rest : List ChatMessage}
    (htools : ∀ t ∈ rest.flatMap ChatMessage.tools, t ∈ source.flatMap ChatMessage.tools) :
    (∃ e, wireLoop completed seen rest = .error e) ↔
      Missing completed seen (rest.flatMap ChatMessage.tools) ∨ Refused seen rest := by
  induction rest generalizing seen with
  | nil =>
    refine iff_of_false (fun ⟨e, he⟩ => by cases he) ?_
    rintro (⟨t, ht, -⟩ | ⟨before, m, after, heq, -⟩)
    · exact absurd ht List.not_mem_nil
    · cases before <;> cases heq
  | cons message rest ih =>
    rw [List.flatMap_cons] at htools ⊢
    have hhead := fun t ht => htools t (List.mem_append_left _ ht)
    have htail := fun t ht => htools t (List.mem_append_right _ ht)
    have herror := wireMessage_error seen rest.isEmpty h hhead
    rw [wireLoop_cons]
    rcases hx : wireMessage completed seen rest.isEmpty message with e | ⟨part, seen'⟩
    · rw [hx] at herror
      have hseen : ∀ id, id ∈ seen ++ message.tools.map ToolMessage.callId ↔
          id ∈ seen ∨ id ∈ message.tools.map ToolMessage.callId := fun id => List.mem_append
      rw [missing_append hseen, refused_cons hseen]
      refine iff_of_true ⟨e, rfl⟩ ?_
      rcases herror.mp ⟨e, rfl⟩ with hc | hm
      · exact .inr (.inl hc)
      · exact .inl (.inl hm)
    · rw [hx] at herror
      obtain ⟨-, hseen⟩ := wireMessage_ok h hhead hx
      have hnot : ¬ (¬ Checks seen rest.isEmpty message ∨ Missing completed seen message.tools) :=
        fun hor => by
        obtain ⟨e, he⟩ := herror.mpr hor
        cases he
      rw [not_or] at hnot
      rw [missing_append hseen, refused_cons hseen, or_iff_right hnot.2,
        or_iff_right hnot.1, ← ih htail]
      show (∃ e, (do
        let tail ← wireLoop completed seen' rest
        pure (part ++ tail) : Except RequestError (List Fields)) = .error e) ↔ _
      rcases wireLoop completed seen' rest with e | tail
      · exact iff_of_true ⟨e, rfl⟩ ⟨e, rfl⟩
      · exact iff_of_false (fun ⟨e, h⟩ => by cases h) (fun ⟨e, h⟩ => by cases h)

/-- **Tool calls on the wire.** What is sent pairs every call with its result: the calls declared
are those of the source, each once and with a result of the source. It raises exactly for an empty
history, for a call without any result, and where an option or a name is refused. -/
theorem wire_pairing (source : List ChatMessage) :
    (∀ wire, wireMessagesFrom source = .ok wire → Paired (Completed source) wire ∧
      (wire.flatMap declaredIds).Nodup ∧
      ∀ id, id ∈ wire.flatMap declaredIds ↔ id ∈ callIds source) ∧
    ((∃ e, wireMessagesFrom source = .error e) ↔ source = [] ∨
      (∃ id ∈ callIds source, ¬ ∃ t, Completed source t ∧ t.callId = id) ∨
      ∃ before m after, source = before ++ m :: after ∧
        ¬ Checks (callIds before) after.isEmpty m) := by
  have hres := resolves_completedTools source
  have hself : ∀ t ∈ source.flatMap ChatMessage.tools, t ∈ source.flatMap ChatMessage.tools :=
    fun _ h => h
  unfold wireMessagesFrom
  by_cases hempty : source = []
  · subst hempty
    exact ⟨fun wire h => (by cases h), iff_of_true ⟨_, rfl⟩ (.inl rfl)⟩
  · rw [if_neg (by rwa [List.isEmpty_iff])]
    refine ⟨fun wire h => ?_, ?_⟩
    · have hextends := wireLoop_ok hres hself h
      refine ⟨?_, hextends.nodup, fun id => ?_⟩
      · have := hextends.paired [] .nil
        rwa [List.append_nil] at this
      · have := hextends.all id
        simpa using this
    · have hmissing : Missing (completedTools source) [] (source.flatMap ChatMessage.tools) ↔
          ∃ id ∈ callIds source, ¬ ∃ t, Completed source t ∧ t.callId = id := by
        simp only [Missing, callIds, List.mem_map, List.not_mem_nil, not_false_eq_true, true_and,
          ← completedTools_isSome, Bool.not_eq_true, Option.isSome_eq_false_iff,
          Option.isNone_iff_eq_none]
        constructor
        · rintro ⟨t, ht, hnone⟩
          exact ⟨t.callId, ⟨t, ht, rfl⟩, hnone⟩
        · rintro ⟨id, ⟨t, ht, rfl⟩, hnone⟩
          exact ⟨t, ht, hnone⟩
      rw [wireLoop_error hres hself, hmissing, or_iff_right hempty]
      rfl

/-- An empty history has no call without a result, and it is refused. -/
theorem wire_refuses_empty :
    (∃ e, wireMessagesFrom [] = .error e) ∧
      (∀ id ∈ callIds [], ∃ t, Completed [] t ∧ t.callId = id) ∧
    ¬ ∃ before m after, ([] : List ChatMessage) = before ++ m :: after ∧
      ¬ Checks (callIds before) after.isEmpty m := by
  refine ⟨⟨_, rfl⟩, fun id h => absurd h List.not_mem_nil, ?_⟩
  rintro ⟨before, m, after, heq, -⟩
  cases before <;> cases heq

end MiniAgent.Provider
