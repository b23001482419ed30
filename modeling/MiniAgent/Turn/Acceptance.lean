import MiniAgent.Turn.Models

/-!
# What validation accepts

The other direction of `Contract`: Messages that meet `MessageOk`, in an order that `Accepted`
allows, pass `validateData` as they are. A change of a Turn is then shown to be accepted from what
it does to the Messages, and `RuntimeState.Wf` of the result follows from that of the Turn before
it.
-/

namespace MiniAgent.Turn

open Lib

/-! ## Contents -/

theorem normalizeContent_of_items {items : List Fields}
    (h : ∀ item ∈ items, checkItem item = .ok ()) :
    normalizeContent (itemsJson items) = .ok items :=
  mapIdxM'_of_forall fun _ item hitem => normalizeItem_ok.mpr ⟨rfl, h item hitem⟩

theorem messageItems_of_content {message : Fields} {items : List Fields}
    (h : message.get "content" = some (itemsJson items)) : messageItems message = items := by
  rw [messageItems, h]
  simp only [itemsJson, List.filterMap_map]
  exact List.filterMap_some

@[simp] theorem messageItems_setContent (message : Fields) (items : List Fields) :
    messageItems (message.set "content" (itemsJson items)) = items := by
  have h : (message.set "content" (itemsJson items)).get "content" =
      some (itemsJson items) := by simp
  exact messageItems_of_content h

theorem MessageOk.items_eq {message : Fields} {role : String} {items : List Fields}
    (h : MessageOk message role items) : messageItems message = items :=
    messageItems_of_content h.content_eq

theorem checkItem_toolResult {item : Fields} {status id : String}
    (htype : item.get "type" = some (.str "tool_result"))
    (hstatus : item.get "status" = some (.str status)) (hmem : status ∈ itemStatuses)
    (hid : item.get "call_id" = some (.str id)) (hne : id ≠ "") : checkItem item = .ok () := by
  simp only [checkItem, bind_ok, exists_unit, requireIn_ok, whenever_ok,
    hasType, htype, hstatus, hid, require_ok,
    isText]
  refine ⟨⟨_, by decide, rfl⟩, ⟨status, hmem, rfl⟩, ?_⟩
  simp [hne]

theorem checkItem_setStatus {item : Fields} {status : String} (h : checkItem item = .ok ())
    (hs : status ∈ itemStatuses) : checkItem (item.set "status" (.str status)) = .ok () := by
  simp only [checkItem, bind_ok, exists_unit, requireIn_ok, whenever_ok,
    hasType, typeText, checkToolCall,
    checkCompaction, checkRetry, coversAttempt, checkError, require_ok, Fields.get_set,
    String.reduceEq, if_false, if_true] at h ⊢
  obtain ⟨htype, -, hrest⟩ := h
  exact ⟨htype, ⟨status, hs, rfl⟩, hrest⟩

theorem checkItem_setReplaySafe {item : Fields} {b : Bool} (h : checkItem item = .ok ()) :
    checkItem (item.set "replay_safe" (.bool b)) = .ok () := by
  simp only [checkItem, bind_ok, exists_unit, requireIn_ok, whenever_ok,
    hasType, typeText, checkToolCall,
    checkCompaction, checkRetry, coversAttempt, checkError, require_ok, Fields.get_set,
    String.reduceEq, if_false, if_true] at h ⊢
  obtain ⟨htype, hstatus, htext, hcall, hrest⟩ := h
  refine ⟨htype, hstatus, htext, fun hc => ?_, hrest⟩
  obtain ⟨hid, hname, harguments, -⟩ := hcall hc
  exact ⟨hid, hname, harguments, rfl⟩

/-! ## Messages -/

theorem MessageOk.withContent {message : Fields} {role : String} {items items' : List Fields}
    (h : MessageOk message role items) (hitems : ∀ item ∈ items', checkItem item = .ok ())
    (huser : role = "user" → items'.length = 1 ∧ userItemOk items' = true) :
    MessageOk (message.set "content" (itemsJson items')) role items' where
  role_eq := by simpa using h.role_eq
  role_mem := h.role_mem
  content_eq := by simp
  items_ok := hitems
  user := huser

theorem validateMessage_of_ok {v i : Nat} {prev : Option String} {message : Fields} {role : String}
    {items : List Fields} (h : MessageOk message role items) (h0 : i = 0 → role = "user")
    (hprev : ¬ (role = "user" ∧ prev = some "user")) :
    validateMessage v i prev (.obj message) = .ok (role, message) := by
  simp only [validateMessage, bind_ok, exists_unit, mapping_ok, pure_ok, whenever_ok, require_ok,
    requireIn_ok]
  refine ⟨message, rfl, ?_, ⟨role, h.role_mem, h.role_eq⟩, ?_, items, ?_, ?_, ?_, ?_⟩
  · rw [h.role_eq, isUser_str]; simpa using h0
  · rw [h.role_eq]
    by_cases hu : role = "user"
    · have : prev ≠ some "user" := fun e => hprev ⟨hu, e⟩
      simp [isUser, this]
    · simp [isUser, hu]
  · rw [h.content_eq]; exact normalizeContent_of_items h.items_ok
  · rw [h.role_eq, isUser_str]; simpa using fun e => (h.user e).1
  · rw [h.role_eq, isUser_str]; exact fun e => (h.user e).2
  · rw [h.role_eq, Fields.set_get_self h.content_eq]; rfl

theorem validateMessages_of_accepted {v : Nat} :
    ∀ {version : List Fields} {i : Nat} {prev : Option String},
    Accepted prev version → (i = 0 → ∀ m ∈ version.head?, m.get "role" = some (.str "user")) →
      validateMessages v i prev (version.map .obj) = .ok version
  | [], _, _, _, _ => rfl
  | message :: rest, i, prev, h, h0 => by
    obtain ⟨role, items, hm, hprev, hrest⟩ := h
    refine validateMessages_cons.mpr ⟨role, message, rest, ?_, ?_, rfl⟩
    · refine validateMessage_of_ok hm (fun hi => ?_) hprev
      have huser := h0 hi message rfl
      rw [hm.role_eq] at huser
      cases huser
      rfl
    · exact validateMessages_of_accepted hrest fun hi => absurd hi (Nat.succ_ne_zero i)

/-! ## Changes of a version -/

/-- A change of a Message that keeps it a Message of its role. -/
def Amends (f : Fields → Fields) (message : Fields) : Prop :=
  ∀ role items, MessageOk message role items → ∃ items', MessageOk (f message) role items'

theorem Accepted.map {f : Fields → Fields} : ∀ {version : List Fields} {prev : Option String},
    Accepted prev version → (∀ message ∈ version, Amends f message) → Accepted prev (version.map f)
  | [], _, _, _ => trivial
  | message :: rest, prev, ⟨role, items, hm, hprev, hrest⟩, hf => by
    obtain ⟨items', hm'⟩ := hf message List.mem_cons_self role items hm
    exact ⟨role, items', hm', hprev, hrest.map fun x hx => hf x (List.mem_cons_of_mem _ hx)⟩

theorem Accepted.modify {f : Fields → Fields} :
    ∀ {version : List Fields} {prev : Option String} {i : Nat},
    Accepted prev version → (∀ message ∈ version[i]?, Amends f message) →
      Accepted prev (version.modify i f)
  | [], _, _, _, _ => by simp [Accepted]
  | message :: rest, prev, 0, ⟨role, items, hm, hprev, hrest⟩, hf => by
    obtain ⟨items', hm'⟩ := hf message rfl role items hm
    exact ⟨role, items', hm', hprev, hrest⟩
  | message :: rest, prev, i + 1, ⟨role, items, hm, hprev, hrest⟩, hf => by
    refine ⟨role, items, hm, hprev, hrest.modify fun x hx => hf x ?_⟩
    simpa using hx

theorem Accepted.append {message : Fields} {role : String} {items : List Fields}
    (hm : MessageOk message role items) :
    ∀ {version : List Fields} {prev : Option String}, Accepted prev version →
      (role = "user" → version = [] → prev ≠ some "user") →
      (role = "user" → ∀ last ∈ version.getLast?, last.get "role" ≠ some (.str "user")) →
      Accepted prev (version ++ [message])
  | [], prev, _, hprev, _ => ⟨role, items, hm, fun h => hprev h.1 rfl h.2, trivial⟩
  | first :: rest, prev, ⟨r, is, hfirst, hfirst', hrest⟩, _, hlast => by
    refine ⟨r, is, hfirst, hfirst', hrest.append hm (fun hu hnil hr => ?_) fun hu last h => ?_⟩
    · subst hnil
      cases hr
      exact hlast hu first rfl hfirst.role_eq
    · rcases rest with _ | ⟨second, rest⟩
      · cases h
      · exact hlast hu last (by simpa using h)

theorem Amends.role {f : Fields → Fields} {message : Fields} (h : Amends f message) {role : String}
    {items : List Fields} (hm : MessageOk message role items) :
    (f message).get "role" = message.get "role" := by
  obtain ⟨items', hm'⟩ := h role items hm
  rw [hm'.role_eq, hm.role_eq]

theorem VersionOk.messageOk {version : List Fields} (h : VersionOk version) {message : Fields}
    (hm : message ∈ version) :
    ∃ role items, MessageOk message role items := by
  have key : ∀ {l : List Fields} {prev : Option String}, Accepted prev l → message ∈ l →
      ∃ role items, MessageOk message role items := by
    intro l
    induction l with
    | nil => intro prev _ hmem; cases hmem
    | cons first rest ih =>
      rintro prev ⟨role, items, hfirst, -, hrest⟩ hmem
      rcases List.mem_cons.mp hmem with rfl | hmem
      · exact ⟨role, items, hfirst⟩
      · exact ih hrest hmem
  exact key h.accepted hm

theorem VersionOk.map {f : Fields → Fields} {version : List Fields} (h : VersionOk version)
    (hf : ∀ message ∈ version, Amends f message) : VersionOk (version.map f) where
  ne_nil := by simpa using h.ne_nil
  accepted := h.accepted.map hf
  first_user m hm := by
    rw [List.head?_map, Option.mem_map] at hm
    obtain ⟨first, hfirst, rfl⟩ := hm
    have hmem := List.mem_of_head? hfirst
    obtain ⟨role, items, hok⟩ := h.messageOk hmem
    rw [(hf first hmem).role hok]
    exact h.first_user first hfirst

theorem VersionOk.modify {f : Fields → Fields} {version : List Fields} {i : Nat}
    (h : VersionOk version) (hf : ∀ message ∈ version[i]?, Amends f message) :
    VersionOk (version.modify i f) where
  ne_nil := by
    intro hnil
    have hlen := congrArg List.length hnil
    rw [List.length_modify] at hlen
    exact h.ne_nil (List.length_eq_zero_iff.mp hlen)
  accepted := h.accepted.modify hf
  first_user m hm := by
    rw [List.head?_eq_getElem?, List.getElem?_modify, ← List.head?_eq_getElem?] at hm
    obtain ⟨first, hfirst, rfl⟩ := Option.mem_map.mp hm
    split
    · next hi =>
      subst hi
      obtain ⟨role, items, hok⟩ := h.messageOk (List.mem_of_head? hfirst)
      rw [(hf first (by rw [← List.head?_eq_getElem?]; exact hfirst)).role hok]
      exact h.first_user first hfirst
    · exact h.first_user first hfirst

theorem VersionOk.append {version : List Fields} {message : Fields} {role : String}
    {items : List Fields} (h : VersionOk version) (hm : MessageOk message role items)
    (hlast : role = "user" → ∀ last ∈ version.getLast?, last.get "role" ≠ some (.str "user")) :
    VersionOk (version ++ [message]) where
  ne_nil := by simp
  accepted := h.accepted.append hm (fun _ hnil => absurd hnil h.ne_nil) hlast
  first_user m hmem := by
    rw [List.head?_append_of_ne_nil _ h.ne_nil] at hmem
    exact h.first_user m hmem

/-! ## Turns -/

theorem validateVersion_of_ok {v : Nat} {version : List Fields} (h : VersionOk version) :
    validateVersion v (versionJson version) = .ok version := by
  rw [versionJson, validateVersion_of_ne_nil (by simpa using h.ne_nil)]
  exact validateMessages_of_accepted h.accepted fun _ => h.first_user

theorem validateData_of_ok {data : List (List Fields)} (hne : data ≠ [])
    (h : ∀ version ∈ data, VersionOk version) : validateData (dataJson data) = .ok data := by
  rw [dataJson, validateData_of_ne_nil (by simpa using hne)]
  exact mapIdxM'_of_forall fun _ version hversion => validateVersion_of_ok (h version hversion)

theorem RuntimeState.Wf.data_ne_nil {host : Host} {s : RuntimeState} (h : s.Wf host) :
    s.data ≠ [] := by
  rintro hnil
  have hlt := h.currentDataIdx
  rw [hnil] at hlt
  cases hlt

end MiniAgent.Turn
