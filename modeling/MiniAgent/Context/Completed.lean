import MiniAgent.Context.Exchange
import MiniAgent.Turn.RoundTrip

/-!
# Completed tool calls in the context

A call enters the context together with its result, and both have to stand in one Message: `pairOf`
is the pair a Message holds for a call. Over a whole version a call with one result, sealed alike,
can have its result in a later Message, because Messages are appended while the call runs; such a
pair does not enter the context.
-/

namespace MiniAgent.Context

open Lib Turn Provider

variable {r : Renderer} {items blocks : List Fields} {id : String}

/-! ## Statements -/

/-- The Items of a call. -/
def callItems (id : String) (items : List Fields) : List Fields :=
  items.filter fun item => toolId item = some id

/-- The Items of a version. -/
def versionItems (version : List Fields) : List Fields := version.flatMap messageItems

/-- A call and its result, with nothing else under the id of the call. -/
def pairOf (id : String) (items : List Fields) : Option (Fields × Fields) :=
  match callItems id items with
  | [call, result] => if isPair call result then some (call, result) else none
  | _ => none

/-- **A completed exchange of a version**: one call followed by one result, sealed alike. -/
structure Exchange (version : List Fields) (id : String) (call result : Fields) : Prop where
  items : callItems id (versionItems version) = [call, result]
  call_type : hasType call ["tool_call"] = true
  result_type : hasType result ["tool_result"] = true
  sealed : call.get "status" = some (.str "success") ∨ call.get "status" = some (.str "failed")
  same : result.get "status" = call.get "status"
  tool : result.get "tool" = none ∨ result.get "tool" = call.get "name"

/-- Call and result stand in one Message. -/
def Together (version : List Fields) (id : String) : Prop :=
  ∃ message ∈ version, (callItems id (messageItems message)).length = 2

/-- The message of a call with its result. -/
structure Exchanged (r : Renderer) (call result : Fields) (t : ToolMessage) : Prop where
  name : call.get "name" = some (.str t.name)
  callId : call.get "call_id" = some (.str t.callId)
  arguments : t.arguments = (call.get "arguments").getD (.obj [])
  content : t.content = some (resultContent r result)
  status : t.status = if succeeded result then .succeeded else .failed
  retryable : t.retryable = boolOf (result.get "retryable")
  failureCode : t.failureCode = Provider.isText (result.get "failure_code")

/-- The tool calls of some messages that belong to a call. -/
def toolsOf (id : String) (messages : List ChatMessage) : List ToolMessage :=
  (messages.flatMap ChatMessage.tools).filter fun t => t.callId = id

/-! ## Items of tools -/

theorem toolId_eq_some {item : Fields} : toolId item = some id ↔
    hasType item ["tool_call", "tool_result"] = true ∧ item.get "call_id" = some (.str id) ∧
    id ≠ "" := by
  unfold toolId
  split
  · next htype =>
    split
    · next s hs =>
      split
      · next hempty =>
        subst hempty
        simp only [reduceCtorEq, false_iff]
        rintro ⟨-, hid, hne⟩
        rw [hs] at hid
        cases hid
        exact hne rfl
      · next hne =>
        simp only [Option.some.injEq, htype, hs, true_and, Json.str.injEq]
        exact ⟨fun h => ⟨h, h ▸ hne⟩, And.left⟩
    · next hs =>
      simp only [reduceCtorEq, false_iff]
      exact fun h => hs id h.2.1
  · next htype => simp [htype]

theorem hasType_or {item : Fields} :
    hasType item ["tool_call", "tool_result"] =
      (hasType item ["tool_call"] || hasType item ["tool_result"]) := by
  unfold hasType
  split <;> simp

theorem hasType_unique {item : Fields} {a b : String} (ha : hasType item [a] = true) (hne : a ≠ b) :
    hasType item [b] = false := by
  unfold hasType at *
  split at ha
  · simp only [List.contains_cons, List.contains_nil, Bool.or_false, beq_iff_eq] at ha
    simpa [ha] using hne
  · cases ha

theorem isPair_iff {call result : Fields} :
    isPair call result = true ↔ hasType call ["tool_call"] = true ∧
    hasType result ["tool_result"] = true ∧
    (call.get "status" = some (.str "success") ∨ call.get "status" = some (.str "failed")) ∧
    result.get "status" = call.get "status" ∧
    (result.get "tool" = none ∨ result.get "tool" = call.get "name") := by
  simp [isPair, and_assoc]

/-! ## The Items that are kept -/

theorem mem_validToolIndices {i : Nat} : i ∈ validToolIndices items ↔ ∃ id,
    i ∈ pairIndices (items.zipIdx.filter fun p => toolId p.1 = some id) := by
  simp only [validToolIndices, List.mem_flatMap, Dict.mem_values]
  constructor
  · rintro ⟨entries, ⟨id, hid⟩, hi⟩
    rw [get_groupOn_eq_some hid] at hi
    exact ⟨id, hi⟩
  · rintro ⟨id, hi⟩
    have hget := get_groupOn (fun p : Fields × Nat => toolId p.1) items.zipIdx id
    rcases hentries : (groupOn (fun p : Fields × Nat => toolId p.1) items.zipIdx).get
      id with _ | entries
    · rw [hentries] at hget
      rw [← hget] at hi
      cases hi
    · exact ⟨entries, ⟨id, hentries⟩, get_groupOn_eq_some hentries ▸ hi⟩

theorem mem_pairIndices {entries : List (Fields × Nat)} {i : Nat} (h : i ∈ pairIndices entries) :
    ∃ item, (item, i) ∈ entries := by
  unfold pairIndices at h
  split at h
  · next call i₁ result i₂ =>
    split at h
    · simp only [List.mem_cons, List.not_mem_nil, or_false] at h
      rcases h with rfl | rfl
      · exact ⟨call, by simp⟩
      · exact ⟨result, by simp⟩
    · cases h
  · cases h

/-- The Items of a call, with their indices. -/
theorem map_fst_filter_zipIdx (items : List Fields) (id : String) :
    (items.zipIdx.filter fun p => toolId p.1 = some id).map Prod.fst = callItems id items := by
  have hfilter : (fun p : Fields × Nat => decide (toolId p.1 = some id))
      = (fun item => decide (toolId item = some id)) ∘ Prod.fst := rfl
  rw [hfilter, ← List.filter_map, List.zipIdx_map_fst]
  rfl

/-- Whether an Item of a call is kept depends on the Items of that call only. -/
theorem mem_validToolIndices_of_mem {item : Fields} {i : Nat} (hmem : (item, i) ∈ items.zipIdx)
    (hid : toolId item = some id) : i ∈ validToolIndices items ↔
    (pairOf id items).isSome = true := by
  have hgroup : ∀ id', i ∈ pairIndices (items.zipIdx.filter fun p => toolId p.1 = some id') →
      id' = id := by
    intro id' hi
    obtain ⟨item', hitem'⟩ := mem_pairIndices hi
    obtain ⟨hmem', hid'⟩ := List.mem_filter.mp hitem'
    have heq : items[i]? = some item' := List.mk_mem_zipIdx_iff_getElem?.mp hmem'
    rw [List.mk_mem_zipIdx_iff_getElem?.mp hmem] at heq
    cases heq
    simpa [hid, eq_comm] using hid'
  have hown : (item, i) ∈ items.zipIdx.filter fun p => toolId p.1 = some id :=
    List.mem_filter.mpr ⟨hmem, by simpa using hid⟩
  have hitems := map_fst_filter_zipIdx items id
  have hiff : i ∈ pairIndices (items.zipIdx.filter fun p => toolId p.1 = some id) ↔
      (pairOf id items).isSome = true := by
    rw [pairOf, ← hitems]
    generalize items.zipIdx.filter (fun p => toolId p.1 = some id) = entries at hown ⊢
    match entries, hown with
    | [(call, i₁)], hown => simp [pairIndices]
    | [(call, i₁), (result, i₂)], hown =>
      have hi : i = i₁ ∨ i = i₂ := by
        rcases List.mem_cons.mp hown with h | h
        · exact .inl (congrArg Prod.snd h)
        · exact .inr (congrArg Prod.snd (List.mem_singleton.mp h))
      by_cases hpair : isPair call result = true
      · simp [pairIndices, hpair, hi]
      · simp [pairIndices, hpair]
    | _ :: _ :: _ :: _, hown => simp [pairIndices]
  rw [mem_validToolIndices, ← hiff]
  constructor
  · rintro ⟨id', hi⟩
    exact hgroup id' hi ▸ hi
  · exact fun hi => ⟨id, hi⟩

/-- **The Items of a call that are kept**: its pair, or none. -/
theorem callItems_assistantItems (id : String) (items : List Fields) :
    callItems id (assistantItems items) =
      if (pairOf id items).isSome then callItems id items else [] := by
  have hkept : callItems id (assistantItems items)
      = (items.zipIdx.filter fun p => toolId p.1 = some id ∧ (pairOf id items).isSome = true).map
        Prod.fst := by
    rw [assistantItems, callItems, List.filter_map, List.filter_filter]
    congr 1
    refine List.filter_congr fun p hp => ?_
    by_cases hid : toolId p.1 = some id
    · have htype := (toolId_eq_some.mp hid).1
      simp [hid, htype, mem_validToolIndices_of_mem hp hid]
    · simp [hid]
  rw [hkept]
  split
  · next hsome =>
    simp only [hsome, and_true]
    exact map_fst_filter_zipIdx items id
  · next hnone => simp [hnone]

theorem mem_of_mem_assistantItems {item : Fields} (h : item ∈ assistantItems items) :
    item ∈ items := by
  obtain ⟨p, hp, rfl⟩ := List.mem_map.mp h
  exact List.fst_mem_of_mem_zipIdx (List.mem_filter.mp hp).1

/-- A tool Item that is kept belongs to a pair. -/
theorem toolId_of_mem_assistantItems {item : Fields} (h : item ∈ assistantItems items)
    (htype : hasType item ["tool_call", "tool_result"] = true) : ∃ id, toolId item = some id := by
  obtain ⟨⟨item, i⟩, hp, rfl⟩ := List.mem_map.mp h
  obtain ⟨hmem, hkeep⟩ := List.mem_filter.mp hp
  have hvalid : i ∈ validToolIndices items := by
    simpa [show hasType item _ = _ from htype] using hkeep
  obtain ⟨id, hi⟩ := mem_validToolIndices.mp hvalid
  obtain ⟨item', hitem'⟩ := mem_pairIndices hi
  obtain ⟨hmem', hid'⟩ := List.mem_filter.mp hitem'
  have heq : items[i]? = some item' := List.mk_mem_zipIdx_iff_getElem?.mp hmem'
  rw [List.mk_mem_zipIdx_iff_getElem?.mp hmem] at heq
  cases heq
  exact ⟨id, by simpa using hid'⟩

theorem pairOf_eq_some {call result : Fields} :
    pairOf id items = some (call, result) ↔ callItems id items = [call, result] ∧
    isPair call result = true := by
  unfold pairOf
  split
  · next c s hitems =>
    split
    · next hpair =>
      simp only [hitems, Option.some.injEq, Prod.mk.injEq, List.cons.injEq, and_true]
      exact ⟨fun h => ⟨h, h.1 ▸ h.2 ▸ hpair⟩, And.left⟩
    · next hpair =>
      simp only [reduceCtorEq, false_iff]
      rintro ⟨hcs, h⟩
      rw [hitems] at hcs
      cases hcs
      exact hpair h
  · next hne =>
    simp only [reduceCtorEq, false_iff]
    exact fun h => hne call result h.1

/-! ## One call in the loop over the Items -/

variable {completed : List String} {g g' : Gathered}

theorem text_call_id {item : Fields} (h : toolId item = some id) :
    r.dec.text (item.get "call_id") = id := by
  rw [(toolId_eq_some.mp h).2.1]
  rfl

/-- A tool Item that names its call. -/
def Addressed (item : Fields) : Prop :=
  hasType item ["tool_call", "tool_result"] = true → ∃ id, toolId item = some id

theorem gatherItem_other {item : Fields} (h : gatherItem r completed g item = .ok g')
    (haddr : Addressed item) (hid : toolId item ≠ some id) : g'.calls.get id = g.calls.get id := by
  have hne : hasType item ["tool_call", "tool_result"] = true →
      r.dec.text (item.get "call_id") ≠ id := by
    intro htype
    obtain ⟨id', hid'⟩ := haddr htype
    rw [text_call_id hid']
    rintro rfl
    exact hid hid'
  simp only [gatherItem] at h
  split at h
  · next hcall =>
    simp only [bind_ok, pure_ok] at h
    obtain ⟨t, -, rfl⟩ := h
    rw [Dict.get_set, if_neg (hne (by rw [hasType_or, hcall.1]; rfl))]
  · split at h
    · next hresult =>
      split at h
      · cases h
        rw [Dict.get_set, if_neg (hne (by rw [hasType_or, hresult.1, Bool.or_true]))]
      · cases h
        rfl
    · split at h
      · cases h
        rfl
      · split at h
        · cases h
          split <;> rfl
        · cases h
          rfl

theorem gatherItem_call {item : Fields} (h : gatherItem r completed g item = .ok g')
    (hid : toolId item = some id) (htype : hasType item ["tool_call"] = true)
    (hcompleted : id ∈ completed) :
    ∃ t,
    ToolMessage.pending (textOr r (item.get "name") "unknown") id (callArguments item) = .ok t ∧
      g'.calls.get id = some t := by
  simp only [gatherItem, text_call_id hid, htype, hcompleted, and_self, if_true,
    bind_ok, pure_ok] at h
  obtain ⟨t, ht, rfl⟩ := h
  exact ⟨t, ht, by simp⟩

theorem gatherItem_result {item : Fields} (h : gatherItem r completed g item = .ok g')
    (hid : toolId item = some id) (htype : hasType item ["tool_result"] = true) :
    g'.calls.get id = (g.calls.get id).map fun t => withResult r t item := by
  have hnot : hasType item ["tool_call"] = false := hasType_unique htype (by decide)
  simp only [gatherItem, text_call_id hid] at h
  rw [if_neg (by simp [hnot]), if_pos ⟨htype, (toolId_eq_some.mp hid).2.2⟩] at h
  rcases hget : g.calls.get id with _ | t
  · simp only [hget] at h
    cases h
    exact hget
  · simp only [hget] at h
    cases h
    simp

theorem gatherItems_append (a b : List Fields) :
    gatherItems r completed g (a ++ b) = (do
      let g ← gatherItems r completed g a
      gatherItems r completed g b) := by
  induction a generalizing g with
  | nil => rfl
  | cons item a ih =>
    rw [List.cons_append, gatherItems, gatherItems, bind_assoc]
    exact bind_congr fun g => ih

theorem gatherItems_other (h : gatherItems r completed g blocks = .ok g')
    (haddr : ∀ item ∈ blocks, Addressed item) (hid : ∀ item ∈ blocks, toolId item ≠ some id) :
    g'.calls.get id = g.calls.get id := by
  induction blocks generalizing g with
  | nil =>
    cases h
    rfl
  | cons item blocks ih =>
    obtain ⟨ha, hrest⟩ := List.forall_mem_cons.mp haddr
    obtain ⟨hi, hids⟩ := List.forall_mem_cons.mp hid
    simp only [gatherItems, bind_ok] at h
    obtain ⟨g₁, h₁, h₂⟩ := h
    rw [ih h₂ hrest hids, gatherItem_other h₁ ha hi]

/-- **A call and its result in the loop.** -/
theorem gatherItems_pair {call result : Fields} (h : gatherItems r completed g blocks = .ok g')
    (haddr : ∀ item ∈ blocks, Addressed item) (hitems : callItems id blocks = [call, result])
    (hcall : hasType call ["tool_call"] = true) (hresult : hasType result ["tool_result"] = true)
    (hcompleted : id ∈ completed) : ∃ t,
    ToolMessage.pending (textOr r (call.get "name") "unknown") id (callArguments call) = .ok t ∧
      g'.calls.get id = some (withResult r t result) := by
  obtain ⟨l₁, l₂, rfl, hl₁, hidc, hl₂⟩ := List.filter_eq_cons_iff.mp hitems
  obtain ⟨l₃, l₄, rfl, hl₃, hidr, hl₄⟩ := List.filter_eq_cons_iff.mp hl₂
  rw [List.filter_eq_nil_iff] at hl₄
  simp only [decide_eq_true_eq] at hl₁ hidc hl₃ hidr hl₄
  simp only [gatherItems_append, gatherItems, bind_ok] at h
  obtain ⟨g₁, -, g₂, hg₂, g₃, hg₃, g₄, hg₄, hg'⟩ := h
  obtain ⟨t, ht, hget⟩ := gatherItem_call hg₂ hidc hcall hcompleted
  have h₃ : g₃.calls.get id = g₂.calls.get id :=
    gatherItems_other hg₃ (fun item hitem => haddr item (by simp [hitem])) hl₃
  have h₄ := gatherItem_result hg₄ hidr hresult
  have h₅ : g'.calls.get id = g₄.calls.get id :=
    gatherItems_other hg' (fun item hitem => haddr item (by simp [hitem])) hl₄
  exact ⟨t, ht, by rw [h₅, h₄, h₃, hget, Option.map_some]⟩

/-! ## Valid Items -/

theorem checkItem_call {item : Fields} (h : checkItem item = .ok ())
    (htype : hasType item ["tool_call"] = true) :
    (∃ s, item.get "call_id" = some (.str s) ∧ s ≠ "") ∧
      (∃ s, item.get "name" = some (.str s) ∧ s ≠ "") ∧
      callArguments item = (item.get "arguments").getD (.obj []) := by
  simp only [checkItem, bind_ok, exists_unit, whenever_ok] at h
  have hcall := h.2.2.2.1 htype
  simp only [checkToolCall, bind_ok, exists_unit, require_ok] at hcall
  obtain ⟨hid, hname, hargs, -⟩ := hcall
  have htext : ∀ {v : Option Json}, Turn.isText v = true → ∃ s, v = some (.str s) ∧ s ≠ "" := by
    intro v hv
    unfold Turn.isText at hv
    split at hv
    · exact ⟨_, rfl, by simpa using hv⟩
    · cases hv
  refine ⟨htext hid, htext hname, ?_⟩
  unfold callArguments
  split
  · next f hf => rw [hf]; rfl
  · next hno =>
    rcases hargs' : item.get "arguments" with _ | v
    · rfl
    · rw [hargs'] at hargs
      cases v with
      | obj f => exact absurd hargs' (hno f)
      | _ => cases hargs

theorem textOr_str {s default : String} (h : s ≠ "") : textOr r (some (.str s)) default = s := by
  simp [textOr, pyOr, Json.truthy, h, Decoder.text]

theorem pending_of_ne {name callId : String} (arguments : Json) (hname : name ≠ "")
    (hid : callId ≠ "") :
    ∃ t, ToolMessage.pending name callId arguments = .ok t := by
  simp [ToolMessage.pending, ToolMessage.make, hname, hid]

theorem gatherItem_ok (r : Renderer) (completed : List String) (g : Gathered) {item : Fields}
    (h : checkItem item = .ok ()) : ∃ g', gatherItem r completed g item = .ok g' := by
  simp only [gatherItem]
  split
  · next hcall =>
    obtain ⟨⟨id, hid, hne⟩, ⟨name, hname, hname_ne⟩, -⟩ := checkItem_call h hcall.1
    obtain ⟨t, ht⟩ := pending_of_ne (callArguments item) hname_ne hne
    have htext : r.dec.text (some (.str id)) = id := rfl
    rw [hid, hname, textOr_str hname_ne, htext, ht]
    exact ⟨_, rfl⟩
  · split
    · split <;> exact ⟨_, rfl⟩
    · split
      · exact ⟨_, rfl⟩
      · split <;> exact ⟨_, rfl⟩

theorem gatherItems_ok (r : Renderer) (completed : List String) (g : Gathered)
    (h : ∀ item ∈ blocks, checkItem item = .ok ()) :
    ∃ g', gatherItems r completed g blocks = .ok g' := by
  induction blocks generalizing g with
  | nil => exact ⟨g, rfl⟩
  | cons item blocks ih =>
    obtain ⟨hitem, hrest⟩ := List.forall_mem_cons.mp h
    obtain ⟨g₁, hg₁⟩ := gatherItem_ok r completed g hitem
    obtain ⟨g', hg'⟩ := ih g₁ hrest
    exact ⟨g', by rw [gatherItems, hg₁]; exact hg'⟩

/-! ## Messages -/

theorem exchanged_withResult (result : Fields) {call : Fields} {t : ToolMessage}
    (hcheck : checkItem call = .ok ())
    (htype : hasType call ["tool_call"] = true) (hid : toolId call = some id)
    (h : ToolMessage.pending (textOr r (call.get "name") "unknown") id
      (callArguments call) = .ok t) :
    Exchanged r call result (withResult r t result) ∧ (withResult r t result).callId = id := by
  obtain ⟨hname, hcall, harguments, -⟩ := ToolMessage.pending_ok h
  obtain ⟨-, ⟨name, hget, hne⟩, hargs⟩ := checkItem_call hcheck htype
  refine ⟨?_, hcall⟩
  exact
    { name := by
        show call.get "name" = some (.str t.name)
        rw [hname, hget, textOr_str hne]
      callId := by
        show call.get "call_id" = some (.str t.callId)
        rw [hcall, (toolId_eq_some.mp hid).2.1]
      arguments := by
        show t.arguments = _
        rw [harguments, hargs]
      content := rfl
      status := rfl
      retryable := rfl
      failureCode := rfl }

/-- The messages of some Items hold the pairs of these Items, each once. -/
def Holds (r : Renderer) (items : List Fields) (messages : List ChatMessage) : Prop :=
  ∀ id, match pairOf id items with
    | some (call, result) => ∃ t, toolsOf id messages = [t] ∧ Exchanged r call result t
    | none => toolsOf id messages = []

theorem mem_completedCallIds {item : Fields} (hmem : item ∈ blocks) (hid : toolId item = some id)
    (htype : hasType item ["tool_result"] = true) : id ∈ completedCallIds r blocks := by
  refine List.mem_filterMap.mpr ⟨item, hmem, ?_⟩
  obtain ⟨-, hget, hne⟩ := toolId_eq_some.mp hid
  have htrue : (item.get "call_id").any Json.truthy = true := by simp [hget, Json.truthy, hne]
  rw [if_pos ⟨htype, htrue⟩, text_call_id hid]

/-- The calls that the loop leaves. -/
theorem gatherItems_get {texts : List String} (h : ∀ item ∈ items, checkItem item = .ok ())
    (hg : gatherItems r (completedCallIds r (assistantItems items)) ⟨texts, .empty, []⟩
      (assistantItems items) = .ok g)
    (id : String) : match pairOf id items with
      | some (call, result) =>
        ∃ t, g.calls.get id = some t ∧ t.callId = id ∧ Exchanged r call result t
      | none => g.calls.get id = none := by
  have haddr : ∀ item ∈ assistantItems items, Addressed item :=
    fun item hitem htype => toolId_of_mem_assistantItems hitem htype
  have hitems := callItems_assistantItems id items
  rcases hpair : pairOf id items with _ | ⟨call, result⟩
  · rw [hpair, if_neg (by simp), callItems, List.filter_eq_nil_iff] at hitems
    exact gatherItems_other hg haddr fun item hitem => by simpa using hitems item hitem
  · obtain ⟨hown, hvalid⟩ := pairOf_eq_some.mp hpair
    obtain ⟨hcall, hresult, -⟩ := isPair_iff.mp hvalid
    rw [hpair, if_pos (by simp), hown] at hitems
    have hmem : call ∈ callItems id (assistantItems items) ∧
        result ∈ callItems id (assistantItems items) := by
      rw [hitems]
      simp
    obtain ⟨hcmem, hcid⟩ := List.mem_filter.mp hmem.1
    obtain ⟨hrmem, hrid⟩ := List.mem_filter.mp hmem.2
    have hcompleted := mem_completedCallIds (r := r) hrmem (by simpa using hrid) hresult
    obtain ⟨t, ht, hget⟩ := gatherItems_pair hg haddr hitems hcall hresult hcompleted
    have hexchanged := exchanged_withResult result (h call (mem_of_mem_assistantItems hcmem)) hcall
      (by simpa using hcid) ht
    exact ⟨_, hget, hexchanged.2, hexchanged.1⟩

theorem gatherItems_reports (h : gatherItems r completed g blocks = .ok g')
    (hg : g.reports.flatMap ChatMessage.tools = []) :
    g'.reports.flatMap ChatMessage.tools = [] := by
  induction blocks generalizing g with
  | nil =>
    cases h
    exact hg
  | cons item blocks ih =>
    simp only [gatherItems, bind_ok] at h
    obtain ⟨g₁, h₁, h₂⟩ := h
    refine ih h₂ ?_
    simp only [gatherItem] at h₁
    split at h₁
    · simp only [bind_ok, pure_ok] at h₁
      obtain ⟨t, -, rfl⟩ := h₁
      exact hg
    · split at h₁
      · split at h₁ <;> (cases h₁; exact hg)
      · split at h₁
        · cases h₁
          exact hg
        · split at h₁
          · cases h₁
            split
            · exact hg
            · rw [List.flatMap_append, hg]
              rfl
          · cases h₁
            exact hg

theorem assistantMessages_holds (h : ∀ item ∈ items, checkItem item = .ok ()) :
    ∃ out, assistantMessages r items = .ok out ∧ Holds r items out := by
  have hblocks : ∀ item ∈ assistantItems items, checkItem item = .ok () :=
    fun item hitem => h item (mem_of_mem_assistantItems hitem)
  obtain ⟨g, hg⟩ := gatherItems_ok r (completedCallIds r (assistantItems items))
    ⟨textsOf r ["text", "bash"] (assistantItems items), .empty, []⟩ hblocks
  have hget := gatherItems_get h hg
  have hreports := gatherItems_reports hg rfl
  have hkeys : ∀ id t, g.calls.get id = some t → t.callId = id := by
    intro id t ht
    have := hget id
    split at this
    · obtain ⟨t', ht', hid, -⟩ := this
      rw [ht] at ht'
      cases ht'
      exact hid
    · rw [ht] at this
      cases this
  refine ⟨_, by rw [assistantMessages, hg]; rfl, fun id => ?_⟩
  have htools : ∀ (checkpoint : List ChatMessage) (a : AssistantMessage) (p : Prop) [Decidable p],
      checkpoint.flatMap ChatMessage.tools = [] → a.toolMessages = g.calls.values →
      (¬ p → g.calls.values = []) →
      toolsOf id (checkpoint ++ g.reports ++ if p then [ChatMessage.assistant a] else []) =
        (g.calls.get id).toList := by
    intro checkpoint a p _ hcheckpoint ha hp
    rw [toolsOf, List.flatMap_append, List.flatMap_append, hcheckpoint, hreports,
      ← Dict.filter_values _ hkeys]
    split
    · simp [ChatMessage.tools, ha]
    · next hnot => simp [hp hnot]
  rw [htools]
  · have := hget id
    split at this
    · next call result hpair =>
      obtain ⟨t, ht, -, hexchanged⟩ := this
      rw [ht]
      exact ⟨t, rfl, hexchanged⟩
    · next hpair =>
      rw [this]
      rfl
  · split <;> rfl
  · rfl
  · intro hnot
    by_contra hne
    exact hnot (.inr (.inr hne))

theorem messageItems_eq {message : Fields} (h : message.get "content" = some (itemsJson items)) :
    messageItems message = items := by
  rw [messageItems, h, itemsJson]
  show (items.map Json.obj).filterMap _ = items
  rw [List.filterMap_map]
  exact List.filterMap_some

/-- A Message that the contract accepts. -/
def Valid (message : Fields) : Prop := ∃ role items, MessageOk message role items

theorem holds_nil (h : ∀ item ∈ items, toolId item = none) {messages : List ChatMessage}
    (htools : messages.flatMap ChatMessage.tools = []) : Holds r items messages := by
  intro id
  have hnone : pairOf id items = none := by
    have hnil : callItems id items = [] := by
      rw [callItems, List.filter_eq_nil_iff]
      intro item hitem
      simp [h item hitem]
    rw [pairOf, hnil]
  rw [hnone]
  simp [toolsOf, htools]

theorem chatMessages_holds (r : Renderer) {message : Fields} (h : Valid message) :
    ∃ out, chatMessages r message = .ok out ∧ Holds r (messageItems message) out := by
  obtain ⟨role, items, hok⟩ := h
  rw [chatMessages, messageItems_eq hok.content_eq, hok.role_eq]
  by_cases hrole : role = "user"
  · subst hrole
    rw [if_pos rfl]
    refine ⟨_, rfl, holds_nil ?_ ?_⟩
    · -- the one Item of a user Message is a text
      obtain ⟨hlen, htext⟩ := hok.user rfl
      obtain ⟨item, rfl⟩ := List.length_eq_one_iff.mp hlen
      simp only [userItemOk, Bool.and_eq_true, beq_iff_eq] at htext
      intro i hi
      rw [List.mem_singleton.mp hi, toolId, hasType, htext.1]
      rfl
    · rw [userMessages]
      split <;> rfl
  · rw [if_neg (by simpa using hrole)]
    exact assistantMessages_holds hok.items_ok

/-! ## Versions -/

/-- The messages of each Message. -/
def Projected (r : Renderer) (messages : List Fields) (outs : List (List ChatMessage)) : Prop :=
  List.Forall₂ (fun message out => chatMessages r message = .ok out ∧
    Holds r (messageItems message) out) messages outs

variable {messages : List Fields} {outs : List (List ChatMessage)}

theorem chatMessagesFrom_projected (r : Renderer) (h : ∀ message ∈ messages, Valid message) :
    ∃ outs, Projected r messages outs ∧ chatMessagesFrom r messages = .ok outs.flatten := by
  induction messages with
  | nil => exact ⟨[], .nil, rfl⟩
  | cons message messages ih =>
    obtain ⟨hm, hrest⟩ := List.forall_mem_cons.mp h
    obtain ⟨out, hout, hholds⟩ := chatMessages_holds r hm
    obtain ⟨outs, houts, hfrom⟩ := ih hrest
    refine ⟨out :: outs, .cons ⟨hout, hholds⟩ houts, ?_⟩
    rw [chatMessagesFrom, hout, hfrom]
    rfl

theorem toolsOf_append (id : String) (a b : List ChatMessage) :
    toolsOf id (a ++ b) = toolsOf id a ++ toolsOf id b := by
  simp [toolsOf]

theorem callItems_append (id : String) (a b : List Fields) :
    callItems id (a ++ b) = callItems id a ++ callItems id b :=
  List.filter_append ..

/-- The calls of an id. -/
def callsOf (id : String) (items : List Fields) : List Fields :=
  (callItems id items).filter fun item => hasType item ["tool_call"]

theorem Holds.sealed {out : List ChatMessage} (h : Holds r items out) {t : ToolMessage}
    (ht : t ∈ out.flatMap ChatMessage.tools) : t.status ≠ .pending ∧ t.content ≠ none := by
  have hmem : t ∈ toolsOf t.callId out := List.mem_filter.mpr ⟨ht, by simp⟩
  have := h t.callId
  split at this
  · obtain ⟨t', htools, hexchanged⟩ := this
    rw [htools, List.mem_singleton] at hmem
    subst hmem
    refine ⟨?_, by rw [hexchanged.content]; simp⟩
    rw [hexchanged.status]
    split <;> simp
  · rw [this] at hmem
    cases hmem

theorem Holds.length_le {out : List ChatMessage} (h : Holds r items out) (id : String) :
    (toolsOf id out).length ≤ (callsOf id items).length := by
  have := h id
  split at this
  · next call result hpair =>
    obtain ⟨t, htools, -⟩ := this
    obtain ⟨hitems, hvalid⟩ := pairOf_eq_some.mp hpair
    rw [htools, callsOf, hitems, List.filter_cons, if_pos (isPair_iff.mp hvalid).1]
    simp
  · rw [this]
    exact Nat.zero_le _

theorem Projected.sealed (h : Projected r messages outs) {t : ToolMessage}
    (ht : t ∈ outs.flatten.flatMap ChatMessage.tools) : t.status ≠ .pending ∧ t.content ≠ none := by
  induction h with
  | nil => cases ht
  | cons hhead _ ih =>
    rw [List.flatten_cons, List.flatMap_append, List.mem_append] at ht
    rcases ht with ht | ht
    · exact hhead.2.sealed ht
    · exact ih ht

theorem Projected.length_le (h : Projected r messages outs) (id : String) :
    (toolsOf id outs.flatten).length ≤ (callsOf id (versionItems messages)).length := by
  induction h with
  | nil => exact Nat.zero_le _
  | @cons message out messages outs hhead _ ih =>
    have hone := hhead.2.length_le id
    have hitems : callsOf id (versionItems (message :: messages))
        = callsOf id (messageItems message) ++ callsOf id (versionItems messages) := by
      simp [callsOf, callItems, versionItems]
    rw [List.flatten_cons, toolsOf_append, hitems, List.length_append, List.length_append]
    omega

/-- A call whose Items no Message holds together. -/
theorem Projected.none (h : Projected r messages outs)
    (hno : ∀ message ∈ messages, pairOf id (messageItems message) = none) :
    toolsOf id outs.flatten = [] := by
  induction h with
  | nil => rfl
  | cons hhead _ ih =>
    obtain ⟨hm, hrest⟩ := List.forall_mem_cons.mp hno
    have := hhead.2 id
    rw [hm] at this
    rw [List.flatten_cons, toolsOf_append, this, ih hrest]
    rfl

theorem pairOf_none_of_length (h : (callItems id items).length ≠ 2) : pairOf id items = none := by
  rcases hpair : pairOf id items with _ | ⟨call, result⟩
  · rfl
  · rw [(pairOf_eq_some.mp hpair).1] at h
    exact absurd rfl h

theorem length_callItems_le (id : String) {version : List Fields} {message : Fields}
    (h : message ∈ version) :
    (callItems id (messageItems message)).length ≤
      (callItems id (versionItems version)).length := by
  have hsub : (messageItems message).Sublist (versionItems version) := by
    rw [versionItems, List.flatMap_def]
    exact List.sublist_flatten_of_mem (List.mem_map_of_mem h)
  exact (hsub.filter fun item => toolId item = some id).length_le

/-- The pair of a version, when one Message holds it. -/
theorem Projected.pair (h : Projected r messages outs) {call result : Fields}
    (hitems : callItems id (versionItems messages) = [call, result])
    (hpair : isPair call result = true) (htogether : Together messages id) :
    ∃ t, toolsOf id outs.flatten = [t] ∧
      Exchanged r call result t := by
  induction h with
  | nil => cases hitems
  | @cons message out messages outs hhead hrest ih =>
    have hsplit : callItems id (messageItems message) ++ callItems id (versionItems messages) =
        [call, result] := by
      rw [← callItems_append, ← hitems]
      rfl
    rw [List.flatten_cons, toolsOf_append]
    by_cases hlen : (callItems id (messageItems message)).length = 2
    · -- this Message holds both, and no later one an Item of the call
      obtain ⟨hown, hlater⟩ := List.append_inj (hsplit.trans (List.append_nil _).symm) hlen
      have hnone : toolsOf id outs.flatten = [] := by
        refine Projected.none hrest fun m hm => pairOf_none_of_length ?_
        have := length_callItems_le id hm
        rw [hlater, List.length_nil] at this
        omega
      have := hhead.2 id
      rw [pairOf_eq_some.mpr ⟨hown, hpair⟩] at this
      obtain ⟨t, htools, hexchanged⟩ := this
      exact ⟨t, by rw [htools, hnone]; rfl, hexchanged⟩
    · -- then a later Message does, and this one has none
      obtain ⟨m, hm, hboth⟩ := htogether
      have hlater : m ∈ messages := (List.mem_cons.mp hm).resolve_left fun heq => hlen (heq ▸ hboth)
      have hle := length_callItems_le id hlater
      have htotal := congrArg List.length hsplit
      rw [List.length_append] at htotal
      have hnil : callItems id (messageItems message) = [] := by
        rw [← List.length_eq_zero_iff]
        simp only [List.length_cons, List.length_nil] at htotal
        omega
      rw [hnil, List.nil_append] at hsplit
      have hempty : toolsOf id out = [] := by
        have := hhead.2 id
        rwa [pairOf_none_of_length hlen] at this
      rw [hempty, List.nil_append]
      exact ih hsplit ⟨m, hlater, hboth⟩

/-- **A completed exchange is in the context exactly when call and result stand in one Message.** -/
theorem Projected.exchange_iff (h : Projected r messages outs) {call result : Fields}
    (hexchange : Exchange messages id call result) :
    (∃ t, toolsOf id outs.flatten = [t] ∧ Exchanged r call result t) ↔ Together messages id := by
  constructor
  · rintro ⟨t, htools, -⟩
    by_contra hapart
    have hnone := h.none fun message hmessage =>
      pairOf_none_of_length fun hlen => hapart ⟨message, hmessage, hlen⟩
    rw [htools] at hnone
    cases hnone
  · obtain ⟨hitems, hcall, hresult, hsealed, hsame, htool⟩ := hexchange
    exact h.pair hitems (isPair_iff.mpr ⟨hcall, hresult, hsealed, hsame, htool⟩)

/-! ## Turns -/

variable {host : Host} {nodes : List RuntimeState}

theorem Accepted.valid : ∀ {version : List Fields} {prev : Option String}, Accepted prev version →
    ∀ message ∈ version, Valid message
  | [], _, _ => fun _ h => absurd h List.not_mem_nil
  | m :: rest, prev, h => by
    obtain ⟨role, items, hm, -, hrest⟩ := h
    exact List.forall_mem_cons.mpr ⟨⟨role, items, hm⟩, Accepted.valid hrest⟩

theorem selectedMessages_valid {node : RuntimeState} (h : node.Wf host) :
    ∀ message ∈ selected node, Valid message := by
  obtain ⟨version, hget⟩ : ∃ version, node.data[node.currentDataIdx]? = some version :=
    ⟨_, List.getElem?_eq_getElem h.currentDataIdx⟩
  rw [selected, List.getD_eq_getElem?_getD, hget]
  exact Accepted.valid (h.versionOk version (List.mem_of_getElem? hget)).accepted

theorem chatMessagesFrom_append {a b : List Fields} {x y : List ChatMessage}
    (ha : chatMessagesFrom r a = .ok x) (hb : chatMessagesFrom r b = .ok y) :
    chatMessagesFrom r (a ++ b) = .ok (x ++ y) := by
  induction a generalizing x with
  | nil =>
    cases ha
    exact hb
  | cons message a ih =>
    simp only [chatMessagesFrom, bind_ok, pure_ok] at ha
    obtain ⟨out, hout, rest, hrest, rfl⟩ := ha
    rw [List.cons_append, chatMessagesFrom, hout, ih hrest, List.append_assoc]
    rfl

/-- **Tool calls in the context.** The calls in the context are completed and each stands for a call
of the Turns; the messages of a Turn are a segment of the context, and a completed exchange of the
Turn is among them exactly when call and result stand in one Message. -/
theorem context_exchanges (r : Renderer) (hnodes : ∀ node ∈ nodes, node.Wf host) :
    ∃ out, chatMessagesFromNodes r nodes = .ok out ∧
      (∀ t ∈ out.flatMap ChatMessage.tools, t.status ≠ .pending ∧ t.content ≠ none) ∧
      (∀ id, (toolsOf id out).length ≤
        (callsOf id (versionItems (nodes.flatMap selected))).length) ∧
      ∀ before node after, nodes = before ++ node :: after → ∃ earlier own later,
        chatMessagesFromNodes r [node] = .ok own ∧ out = earlier ++ own ++ later ∧
        ∀ id call result, Exchange (selected node) id call result →
          ((∃ t, toolsOf id own = [t] ∧ Exchanged r call result t) ↔
            Together (selected node) id) := by
  have hvalid : ∀ ns : List RuntimeState, (∀ node ∈ ns, node.Wf host) →
      ∀ message ∈ ns.flatMap selected, Valid message := by
    intro ns hns message hmessage
    obtain ⟨node, hnode, hmem⟩ := List.mem_flatMap.mp hmessage
    exact selectedMessages_valid (hns node hnode) message hmem
  obtain ⟨outs, hprojected, hout⟩ := chatMessagesFrom_projected r (hvalid nodes hnodes)
  refine ⟨outs.flatten, hout, fun t ht => hprojected.sealed ht, hprojected.length_le, ?_⟩
  rintro before node after rfl
  obtain ⟨hbefore, hnode, hafter⟩ : (∀ n ∈ before, n.Wf host) ∧ node.Wf host ∧
      ∀ n ∈ after, n.Wf host :=
    ⟨fun n hn => hnodes n (by simp [hn]), hnodes node (by simp), fun n hn =>
      hnodes n (by simp [hn])⟩
  obtain ⟨earlier, -, hearlier⟩ := chatMessagesFrom_projected r (hvalid before hbefore)
  obtain ⟨own, hown, hownFrom⟩ := chatMessagesFrom_projected r (selectedMessages_valid hnode)
  obtain ⟨later, -, hlater⟩ := chatMessagesFrom_projected r (hvalid after hafter)
  refine ⟨earlier.flatten, own.flatten, later.flatten, ?_, ?_, fun id call result =>
    hown.exchange_iff⟩
  · rw [chatMessagesFromNodes, List.flatMap_cons, List.flatMap_nil, List.append_nil]
    exact hownFrom
  · have hall := chatMessagesFrom_append (chatMessagesFrom_append hearlier hownFrom) hlater
    rw [List.flatMap_append, List.flatMap_cons, ← List.append_assoc, hall] at hout
    exact (Except.ok.inj hout).symm

/-! ## A result in the Message of its call, and in a later one -/

open Browser (sampleHost sampleTurn sampleTurn_wf)

def plainRenderer : Renderer where
  dec :=
    { str := fun _ => ""
      int := fun _ => none
      dict := fun _ => none
      loads := fun s => if s = "\x7b\x7d" then some (.obj []) else none
      loads_empty := rfl }
  dumps := fun _ => "null"
  isAbsolute := fun s => s.toList.head? = some '/'
  asPosix := fun s => s

def callItem : Fields :=
  [("type", .str "tool_call"), ("call_id", .str "call_1"), ("name", .str "search"),
    ("arguments", .obj [("q", .str "lean")]), ("status", .str "success")]

def resultItem : Fields :=
  [("type", .str "tool_result"), ("call_id", .str "call_1"), ("tool", .str "search"),
    ("content", .str "found"),
    ("status", .str "success")]

def userMessage (text : String) : Fields :=
  [("role", .str "user"), ("content", .arr [textItem text])]

def assistantMessage (items : List Fields) : Fields :=
  [("role", .str "assistant"), ("content", itemsJson items)]

/-- The result comes in the Message of its call. -/
def closedTurn : RuntimeState :=
  { sampleTurn "a" "success" with data := [[userMessage "hi",
    assistantMessage [callItem, resultItem]]] }

/-- A steering Message is appended while the call runs. -/
def steeredTurn : RuntimeState :=
  { sampleTurn "a" "success" with
    data := [[userMessage "hi", assistantMessage [callItem], userMessage "faster",
      assistantMessage [resultItem]]] }

theorem closedTurn_wf : closedTurn.Wf sampleHost :=
  { sampleTurn_wf "a" .success with
    data := rfl
    currentDataIdx := by decide
    ends := fun h => absurd rfl h
    settled := fun h => absurd rfl h }

theorem steeredTurn_wf : steeredTurn.Wf sampleHost :=
  { sampleTurn_wf "a" .success with
    data := rfl
    currentDataIdx := by decide
    ends := fun h => absurd rfl h
    settled := fun h => absurd rfl h }

theorem context_exchanges_closed : closedTurn.Wf sampleHost ∧
    Exchange (selected closedTurn) "call_1" callItem resultItem ∧
    Together (selected closedTurn) "call_1" ∧
    ∃ out t, chatMessagesFromNodes plainRenderer [closedTurn] = .ok out ∧
      toolsOf "call_1" out = [t] ∧
      Exchanged plainRenderer callItem resultItem t := by
  have hexchange : Exchange (selected closedTurn) "call_1" callItem resultItem :=
    ⟨rfl, rfl, rfl, .inl rfl, rfl, .inr rfl⟩
  have htogether : Together (selected closedTurn) "call_1" :=
    ⟨assistantMessage [callItem, resultItem], by simp [selected, closedTurn, sampleTurn], rfl⟩
  have hnodes : ∀ node ∈ [closedTurn], node.Wf sampleHost := by simpa using closedTurn_wf
  obtain ⟨out, -, -, -, hturns⟩ := context_exchanges plainRenderer hnodes
  obtain ⟨earlier, own, later, hown, -, hpairs⟩ := hturns [] closedTurn [] rfl
  obtain ⟨t, ht, hexchanged⟩ := (hpairs "call_1" callItem resultItem hexchange).mpr htogether
  exact ⟨closedTurn_wf, hexchange, htogether, own, t, hown, ht, hexchanged⟩

/-- A completed exchange around a steering Message does not enter the context. -/
theorem context_loses_exchange : steeredTurn.Wf sampleHost ∧
    Exchange (selected steeredTurn) "call_1" callItem resultItem ∧
    ∃ out, chatMessagesFromNodes plainRenderer [steeredTurn] = .ok out ∧
      out.flatMap ChatMessage.tools = [] ∧
      ¬ ∃ t, toolsOf "call_1" out = [t] ∧ Exchanged plainRenderer callItem resultItem t := by
  refine ⟨steeredTurn_wf, ⟨rfl, rfl, rfl, .inl rfl, rfl, .inr rfl⟩, _, rfl, rfl, ?_⟩
  rintro ⟨t, ht, -⟩
  cases ht

end MiniAgent.Context
