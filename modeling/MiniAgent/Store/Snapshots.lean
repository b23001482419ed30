import MiniAgent.Lib.Dict
import MiniAgent.Store.Compaction
import MiniAgent.Store.Interleaving

/-!
# Side chats

`build_side_chat_anchor` forks a Turn as a sealed one, while the Turn itself may still run. Its
version is a snapshot of what has succeeded (`_successful_snapshot_messages`): the calls of tools
are matched with their results over the whole version, and a pair is kept or left out together.

`Snapshot` says what is kept (`snapshot_selected`). The anchor is a valid Turn whatever the source
was doing (`side_chat_anchor`).
-/

namespace MiniAgent.Store

open Lib Turn

/-! ## The snapshot -/

/-- An Item at its place in a version. -/
structure Placed where
  message : Nat
  index : Nat
  item : Fields

def Placed.place (p : Placed) : Nat × Nat := (p.message, p.index)

def placedItems (message : Nat) (items : List Fields) : List Placed :=
  items.zipIdx.map fun p => ⟨message, p.2, p.1⟩

def placed (messages : List Fields) : List Placed :=
  messages.zipIdx.flatMap fun p => placedItems p.2 (messageItems p.1)

def isToolItem (item : Fields) : Bool := hasType item ["tool_call", "tool_result"]

/-- The key of `tool_items` for an Item. -/
def toolKey (p : Placed) : Option String :=
  if isToolItem p.item then match p.item.get "call_id" with
    | some (.str id) => if id = "" then none else some id
    | _ => none
  else none

def succeeded (item : Fields) : Bool := item.get "status" = some (.str "success")

/-- The places of a call that has succeeded and of its result. -/
def completePair : List Placed → List (Nat × Nat)
  | [call, result] =>
    if ¬(hasType call.item ["tool_call"] ∧ hasType result.item ["tool_result"]) then []
    else if ¬(succeeded call.item ∧ succeeded result.item) then []
    else if (result.item.get "tool").isSome ∧ result.item.get "tool" ≠ call.item.get "name" then []
    else [call.place, result.place]
  | _ => []

def completeItems (messages : List Fields) : List (Nat × Nat) :=
  (groupOn toolKey (placed messages)).values.flatMap completePair

def isKept (complete : List (Nat × Nat)) (p : Placed) : Bool :=
  succeeded p.item && (!isToolItem p.item || p.place ∈ complete)

def filtered (complete : List (Nat × Nat)) (message : Nat) (items : List Fields) : List Fields :=
  ((placedItems message items).filter (isKept complete)).map Placed.item

/-- `_successful_snapshot_messages`. -/
def successfulSnapshotMessages (source : RuntimeState) : List Fields :=
  let messages := selected source
  let complete := completeItems messages
  withAssistant (messages.zipIdx.map fun p =>
    p.1.set "content" (itemsJson (filtered complete p.2 (messageItems p.1))))

/-- The members of the anchor beside those of the fork. -/
def withSnapshot (anchor source : RuntimeState) (now : String) : RuntimeState :=
  { anchor with
    data := [successfulSnapshotMessages source]
    currentDataIdx := 0
    status := if source.status = .running then .paused else source.status
    timestamp := now }

def buildSideChatAnchor {host : Host} (now turnId newTurnId threadId : String) :
    Method host (ValidTurn host) := do
  let source ← findTurn turnId
  let s ← Call.read fun s => s
  let tree ← Call.ofExcept (RuntimeStateTree.ofNodes (s.loadNodes source.val.sessionId))
  let anchor ← Call.ofExcept (tree.fork source newTurnId threadId now)
  Call.ofExcept (rebuild host (withSnapshot anchor.val source.val now))

/-! ## Places -/

variable {messages : List Fields} {p q : Placed} {id : String}

theorem mem_placedItems {i : Nat} {items : List Fields} :
    p ∈ placedItems i items ↔ p.message = i ∧ items[p.index]? = some p.item := by
  obtain ⟨message, index, item⟩ := p
  simp only [placedItems, List.mem_map, Prod.exists, Placed.mk.injEq, List.mem_zipIdx_iff_getElem?]
  constructor
  · rintro ⟨_, _, h, rfl, rfl, rfl⟩
    exact ⟨rfl, h⟩
  · rintro ⟨rfl, h⟩
    exact ⟨item, index, h, rfl, rfl, rfl⟩

theorem mem_placed : p ∈ placed messages ↔
    ∃ message, messages[p.message]? = some message ∧ (messageItems message)[p.index]? =
      some p.item := by
  simp only [placed, List.mem_flatMap, Prod.exists, List.mem_zipIdx_iff_getElem?, mem_placedItems]
  constructor
  · rintro ⟨message, i, h, rfl, hitem⟩
    exact ⟨message, h, hitem⟩
  · rintro ⟨message, h, hitem⟩
    exact ⟨message, p.message, h, rfl, hitem⟩

/-- There is one Item at a place. -/
theorem eq_of_place (hp : p ∈ placed messages) (hq : q ∈ placed messages) (h : p.place = q.place) :
    p = q := by
  obtain ⟨message, hmessage, hitem⟩ := mem_placed.mp hp
  obtain ⟨message', hmessage', hitem'⟩ := mem_placed.mp hq
  have hm : p.message = q.message := congrArg Prod.fst h
  have hi : p.index = q.index := congrArg Prod.snd h
  rw [hm, hmessage'] at hmessage
  cases hmessage
  rw [hi, hitem'] at hitem
  cases p
  cases q
  cases hm
  cases hi
  cases hitem
  rfl

theorem map_item_placedItems (i : Nat) (items : List Fields) :
    (placedItems i items).map Placed.item = items := by
  simp [placedItems, Function.comp_def]

theorem flatMap_zipIdx {α β : Type} (f : α → List β) (l : List α) :
    (l.zipIdx.flatMap fun p => f p.1) = l.flatMap f := by
  conv_rhs => rw [← List.zipIdx_map_fst 0 l, List.flatMap_map]

theorem map_item_placed (messages : List Fields) :
    (placed messages).map Placed.item = messages.flatMap messageItems := by
  simp only [placed, List.map_flatMap, map_item_placedItems]
  exact flatMap_zipIdx messageItems messages

/-! ## Complete pairs -/

/-- The Items of one call: a call that has succeeded and its result. -/
def Complete (items : List Fields) : Prop :=
  ∃ call result, items = [call, result] ∧ hasType call ["tool_call"] ∧
    hasType result ["tool_result"] ∧
    succeeded call ∧ succeeded result ∧ ∀ tool, result.get "tool" = some tool →
      call.get "name" = some tool

/-- A call or a result with the id. -/
def isToolOf (id : String) (item : Fields) : Bool :=
  isToolItem item && item.get "call_id" = some (.str id)

/-- The Items of one call, at their places. -/
def entriesOf (messages : List Fields) (id : String) : List Placed :=
  (placed messages).filter fun p => toolKey p = some id

theorem completePair_of_complete {entries : List Placed} (h : Complete (entries.map Placed.item)) :
    completePair entries = entries.map Placed.place := by
  obtain ⟨call, result, heq, hcall, hresult, hok, hok', htool⟩ := h
  rcases entries with _ | ⟨a, _ | ⟨b, _ | ⟨c, rest⟩⟩⟩
  · cases heq
  · cases heq
  · simp only [List.map_cons, List.map_nil, List.cons.injEq, and_true] at heq
    obtain ⟨rfl, rfl⟩ := heq
    have hname : ¬((b.item.get "tool").isSome = true ∧ b.item.get "tool" ≠ a.item.get "name") := by
      rintro ⟨hsome, hne⟩
      obtain ⟨tool, ht⟩ := Option.isSome_iff_exists.mp hsome
      exact hne (by rw [ht, htool tool ht])
    rw [completePair, if_neg (not_not.mpr ⟨hcall, hresult⟩), if_neg (not_not.mpr ⟨hok, hok'⟩),
      if_neg hname]
    rfl
  · simp at heq

theorem complete_of_completePair {entries : List Placed} (h : completePair entries ≠ []) :
    Complete (entries.map Placed.item) := by
  rcases entries with _ | ⟨a, _ | ⟨b, _ | ⟨c, rest⟩⟩⟩
  · exact absurd rfl h
  · exact absurd rfl h
  · rw [completePair] at h
    split at h
    · exact absurd rfl h
    next htypes =>
    split at h
    · exact absurd rfl h
    next hok =>
    split at h
    · exact absurd rfl h
    next hname =>
    rw [not_not] at htypes hok
    refine ⟨a.item, b.item, rfl, htypes.1, htypes.2, hok.1, hok.2, fun tool ht => ?_⟩
    by_contra hne
    exact hname ⟨by rw [ht]; rfl, fun heq => hne (heq ▸ ht)⟩
  · exact absurd rfl h

theorem mem_entriesOf : p ∈ entriesOf messages id ↔ p ∈ placed messages ∧ toolKey p = some id := by
  simp [entriesOf]

/-- The group of a call. -/
theorem get_toolItems (hp : p ∈ entriesOf messages id) :
    (groupOn toolKey (placed messages)).get id = some (entriesOf messages id) := by
  have hget := get_groupOn toolKey (placed messages) id
  cases hgroup : (groupOn toolKey (placed messages)).get id with
  | none =>
    rw [hgroup, Option.getD_none] at hget
    rw [entriesOf, ← hget] at hp
    cases hp
  | some entries => rw [get_groupOn_eq_some hgroup, entriesOf]

/-- The Item of a call is at one of the collected places when the Items of the call are complete. -/
theorem place_mem_completeItems (hp : p ∈ entriesOf messages id) :
    p.place ∈ completeItems messages ↔ Complete ((entriesOf messages id).map Placed.item) := by
  obtain ⟨hplaced, hkey⟩ := mem_entriesOf.mp hp
  constructor
  · intro h
    obtain ⟨entries, hentries, hplace⟩ := List.mem_flatMap.mp h
    obtain ⟨⟨id', _⟩, hmem, rfl⟩ := List.mem_map.mp hentries
    have hgroup := get_groupOn_eq_some ((Dict.get_eq_some _).mpr hmem)
    have hcomplete := complete_of_completePair (List.ne_nil_of_mem hplace)
    rw [completePair_of_complete hcomplete] at hplace
    obtain ⟨q, hq, heq⟩ := List.mem_map.mp hplace
    -- the place tells the Item, and the Item the call
    simp only at hgroup hq hcomplete
    rw [hgroup] at hq hcomplete
    obtain ⟨hqplaced, hqkey⟩ := List.mem_filter.mp hq
    obtain rfl := eq_of_place hqplaced hplaced heq
    have hid : id' = id := Option.some_inj.mp ((of_decide_eq_true hqkey).symm.trans hkey)
    subst hid
    exact hcomplete
  · intro h
    refine List.mem_flatMap.mpr ⟨entriesOf messages id, ?_, ?_⟩
    · exact List.mem_map.mpr ⟨_, (Dict.get_eq_some _).mp (get_toolItems hp), rfl⟩
    · rw [completePair_of_complete h]
      exact List.mem_map_of_mem hp

theorem isToolItem_of_key (h : toolKey p = some id) : isToolItem p.item = true := by
  rw [toolKey] at h
  split at h
  · assumption
  · cases h

theorem Complete.succeeded {items : List Fields} (h : Complete items) :
    ∀ item ∈ items, succeeded item = true := by
  obtain ⟨call, result, rfl, -, -, hcall, hresult, -⟩ := h
  simpa using ⟨hcall, hresult⟩

/-- The Items of a call are kept or left out together. -/
theorem filter_entriesOf (messages : List Fields) (id : String) :
    Complete ((entriesOf messages id).map Placed.item) ∧
        (entriesOf messages id).filter (isKept (completeItems messages)) = entriesOf messages id ∨
      ¬Complete ((entriesOf messages id).map Placed.item) ∧
        (entriesOf messages id).filter (isKept (completeItems messages)) = [] := by
  by_cases h : Complete ((entriesOf messages id).map Placed.item)
  · refine .inl ⟨h, List.filter_eq_self.mpr fun p hp => ?_⟩
    have hok := h.succeeded p.item (List.mem_map_of_mem hp)
    have hplace := (place_mem_completeItems hp).mpr h
    simp [isKept, hok, hplace]
  · refine .inr ⟨h, List.filter_eq_nil_iff.mpr fun p hp => ?_⟩
    have hplace := mt (place_mem_completeItems hp).mp h
    simp [isKept, isToolItem_of_key (mem_entriesOf.mp hp).2, hplace]

/-! ## What a snapshot keeps -/

/-- The same Message with some of its Items. -/
def Keeps (message kept : Fields) : Prop :=
  ∃ items, items.Sublist (messageItems message) ∧ kept = message.set "content" (itemsJson items)

structure Snapshot (version snapshot : List Fields) : Prop where
  messages : ∃ kept last, snapshot = kept ++ last ∧ List.Forall₂ Keeps version kept ∧
    (last = [] ∨ last = [assistantOf []])
  succeeded : ∀ item ∈ snapshot.flatMap messageItems, succeeded item = true
  others : (snapshot.flatMap messageItems).filter (fun item => !isToolItem item) =
    (version.flatMap messageItems).filter fun item => !isToolItem item && Store.succeeded item
  /-- Of every call, a success and its result are kept, or nothing. -/
  tools : ∀ id, Complete ((version.flatMap messageItems).filter (isToolOf id)) ∧
        (snapshot.flatMap messageItems).filter (isToolOf id) =
          (version.flatMap messageItems).filter (isToolOf id) ∨
      ¬Complete ((version.flatMap messageItems).filter (isToolOf id)) ∧
        (snapshot.flatMap messageItems).filter (isToolOf id) = []

/-- The Messages before the last one is added. -/
def keptMessages (messages : List Fields) : List Fields :=
  messages.zipIdx.map fun p =>
    p.1.set "content" (itemsJson (filtered (completeItems messages) p.2 (messageItems p.1)))

theorem forall₂_zipIdx {α β : Type} {R : α → β → Prop} {f : α × Nat → β} {l : List α}
    (h : ∀ p ∈ l.zipIdx, R p.1 (f p)) :
    List.Forall₂ R l (l.zipIdx.map f) := by
  have hmap : List.Forall₂ R (l.zipIdx.map Prod.fst) (l.zipIdx.map f) := by
    rw [List.forall₂_map_left_iff, List.forall₂_map_right_iff, List.forall₂_same]
    exact h
  rwa [List.zipIdx_map_fst] at hmap

theorem filtered_sublist (complete : List (Nat × Nat)) (i : Nat) (items : List Fields) :
    (filtered complete i items).Sublist items := by
  have hsub := (List.filter_sublist (p := isKept complete) (l := placedItems i items)).map
    Placed.item
  rwa [map_item_placedItems] at hsub

theorem keptMessages_keeps (messages : List Fields) :
    List.Forall₂ Keeps messages (keptMessages messages) :=
  forall₂_zipIdx fun _ _ => ⟨_, filtered_sublist _ _ _, rfl⟩

theorem items_keptMessages (messages : List Fields) : (keptMessages messages).flatMap messageItems =
    ((placed messages).filter (isKept (completeItems messages))).map Placed.item := by
  simp [keptMessages, filtered, placed, List.flatMap_map, List.map_flatMap, List.filter_flatMap]

theorem items_withAssistant (version : List Fields) :
    (withAssistant version).flatMap messageItems = version.flatMap messageItems := by
  rw [withAssistant]
  split
  · rfl
  · simp [messageItems, Fields.get_cons]

theorem isText_iff {v : Option Json} : isText v = true ↔ ∃ s, v = some (.str s) ∧ s ≠ "" := by
  rcases v with _ | (_ | _) <;> simp [isText]

/-- The Items with the id of a call, of Items that pass their checks. -/
theorem filter_isToolOf {items : List Placed} (h : ∀ p ∈ items, checkItem p.item = .ok ())
    (id : String) :
    (items.map Placed.item).filter (isToolOf id) = (items.filter fun p => toolKey p = some id).map
      Placed.item := by
  rw [List.filter_map]
  congr 1
  refine List.filter_congr fun p hp => ?_
  have hcheck := h p hp
  rw [Function.comp_apply, isToolOf, toolKey]
  cases htool : isToolItem p.item with
  | false => simp
  | true =>
    have hid : isText (p.item.get "call_id") = true := by
      simp only [checkItem, bind_ok, exists_unit, whenever_ok, checkToolCall, require_ok] at hcheck
      obtain ⟨-, -, -, hcall, hresult, -⟩ := hcheck
      have htypes : hasType p.item ["tool_call"] = true ∨
          hasType p.item ["tool_result"] = true := by
        rw [isToolItem, hasType] at htool
        rw [hasType, hasType]
        split at htool
        · simpa using htool
        · cases htool
      rcases htypes with ht | ht
      · exact (hcall ht).1
      · exact hresult ht
    obtain ⟨id', hget, hne⟩ := isText_iff.mp hid
    simp [hget, hne]

variable {host : Host} {source node : ValidTurn host} {version : List Fields}

theorem withAssistant_eq (version : List Fields) :
    withAssistant version = version ∨ withAssistant version = version ++ [assistantOf []] := by
  rw [withAssistant]
  split
  · exact .inl rfl
  · exact .inr rfl

theorem filter_isKept (version : List Fields) (id : String) :
    ((placed version).filter (isKept (completeItems version))).filter
      (fun p => toolKey p = some id) =
      (entriesOf version id).filter (isKept (completeItems version)) := by
  rw [List.filter_filter, entriesOf, List.filter_filter]
  exact List.filter_congr fun p _ => Bool.and_comm _ _

/-- **What a snapshot keeps.** -/
theorem snapshot_selected (source : ValidTurn host) :
    Snapshot (selected source.val) (successfulSnapshotMessages source.val) := by
  have hcheck : ∀ p ∈ placed (selected source.val), checkItem p.item = .ok () := by
    intro p hp
    refine checkItem_selected source p.item ?_
    rw [← map_item_placed]
    exact List.mem_map_of_mem hp
  have hitems : (successfulSnapshotMessages source.val).flatMap messageItems =
      ((placed (selected source.val)).filter (isKept (completeItems (selected source.val)))).map
        Placed.item := by
    rw [← items_keptMessages]
    exact items_withAssistant _
  refine ⟨?_, ?_, ?_, fun id => ?_⟩
  · have hkeeps := keptMessages_keeps (selected source.val)
    rcases withAssistant_eq (keptMessages (selected source.val)) with h | h
    · exact ⟨_, [], by rw [List.append_nil]; exact h, hkeeps, .inl rfl⟩
    · exact ⟨_, [assistantOf []], h, hkeeps, .inr rfl⟩
  · intro item hitem
    rw [hitems] at hitem
    obtain ⟨p, hp, rfl⟩ := List.mem_map.mp hitem
    have hkept := (List.mem_filter.mp hp).2
    rw [isKept, Bool.and_eq_true] at hkept
    exact hkept.1
  · rw [hitems, ← map_item_placed, List.filter_map, List.filter_map, List.filter_filter]
    congr 1
    refine List.filter_congr fun p _ => ?_
    rw [Function.comp_apply, Function.comp_apply, isKept]
    cases isToolItem p.item <;> simp
  · rw [hitems, ← map_item_placed, filter_isToolOf hcheck, filter_isToolOf fun p hp =>
      hcheck p (List.mem_filter.mp hp).1,
      filter_isKept]
    rcases filter_entriesOf (selected source.val) id with ⟨hcomplete, hkept⟩ | ⟨hcomplete, hkept⟩
    · exact .inl ⟨hcomplete, congrArg _ hkept⟩
    · exact .inr ⟨hcomplete, by rw [hkept]; rfl⟩

/-! ## Validity -/

/-- The user Items of a version have succeeded. -/
def UserItemsSucceed (version : List Fields) : Prop :=
  ∀ message ∈ version, message.get "role" = some (.str "user") →
    ∀ item ∈ messageItems message, succeeded item = true

instance (version : List Fields) : Decidable (UserItemsSucceed version) := by
  unfold UserItemsSucceed
  infer_instance

/-- Another Message in the place of one of the same role. -/
def Replaces (message message' : Fields) : Prop :=
  ∀ role items, MessageOk message role items → ∃ items', MessageOk message' role items'

theorem Accepted.replace {version' : List Fields} (h : List.Forall₂ Replaces version version') :
    ∀ {prev : Option String}, Accepted prev version → Accepted prev version' := by
  induction h with
  | nil => exact id
  | cons hmessage _ ih =>
    rintro prev ⟨role, items, hok, hprev, hrest⟩
    obtain ⟨items', hok'⟩ := hmessage role items hok
    exact ⟨role, items', hok', hprev, ih hrest⟩

theorem VersionOk.replace {version' : List Fields} (hok : VersionOk version)
    (h : List.Forall₂ Replaces version version') :
    VersionOk version' where
  ne_nil := by
    rintro rfl
    exact hok.ne_nil (List.forall₂_nil_right_iff.mp h)
  accepted := Accepted.replace h hok.accepted
  first_user message hmessage := by
    cases h with
    | nil => exact absurd rfl hok.ne_nil
    | cons hfirst _ =>
      cases hmessage
      obtain ⟨role, items, hm⟩ := hok.messageOk List.mem_cons_self
      obtain ⟨items', hm'⟩ := hfirst role items hm
      have huser := hok.first_user _ rfl
      rw [hm.role_eq] at huser
      rw [hm'.role_eq]
      exact huser

/-- The text of a user stays. -/
theorem filtered_user {complete : List (Nat × Nat)} {i : Nat} {item : Fields}
    (htext : item.get "type" = some (.str "text")) (hok : succeeded item = true) :
    filtered complete i [item] = [item] := by
  simp [filtered, placedItems, isKept, hok, isToolItem, hasType, htext]

theorem replaces_filtered {complete : List (Nat × Nat)} {i : Nat} {message : Fields}
    (huser : message.get "role" = some (.str "user") →
      ∀ item ∈ messageItems message, succeeded item = true) :
    Replaces message (message.set "content"
      (itemsJson (filtered complete i (messageItems message)))) := by
  intro role items hm
  refine ⟨_, hm.withContent (fun item hitem => ?_) fun hrole => ?_⟩
  · have hmem := (filtered_sublist complete i (messageItems message)).subset hitem
    rw [hm.items_eq] at hmem
    exact hm.items_ok item hmem
  · subst hrole
    obtain ⟨hlen, htext⟩ := hm.user rfl
    obtain ⟨item, rfl⟩ := List.length_eq_one_iff.mp hlen
    have hok := huser hm.role_eq item (by rw [hm.items_eq]; exact List.mem_singleton_self item)
    simp only [userItemOk, Bool.and_eq_true, beq_iff_eq] at htext
    rw [hm.items_eq, filtered_user htext.1 hok]
    exact ⟨rfl, by simpa [userItemOk] using htext⟩

theorem versionOk_snapshot (source : ValidTurn host)
    (huser : UserItemsSucceed (selected source.val)) :
    VersionOk (successfulSnapshotMessages source.val) := by
  have hkept : VersionOk (keptMessages (selected source.val)) := by
    refine VersionOk.replace (selected_versionOk source)
      (forall₂_zipIdx fun p hp => replaces_filtered ?_)
    exact huser p.1 (List.fst_mem_of_mem_zipIdx hp)
  rcases withAssistant_eq (keptMessages (selected source.val)) with h | h
  · rw [← h] at hkept
    exact hkept
  · have hempty : MessageOk (assistantOf []) "assistant" [] := assistantOf_ok fun item hitem =>
      nomatch hitem
    have happend := hkept.append hempty nofun
    rw [← h] at happend
    exact happend

theorem endsWithAssistant_snapshot (source : RuntimeState) :
    endsWithAssistant [successfulSnapshotMessages source] = true := by
  have hends : ∀ version : List Fields, endsWithAssistant [withAssistant version] = true := by
    intro version
    rw [withAssistant]
    split
    · next h =>
      cases hlast : version.getLast? with
      | none => simp [hlast] at h
      | some message => simpa [endsWithAssistant, hlast, isAssistant] using h
    · simp [endsWithAssistant, Fields.get_cons]
  exact hends _

theorem not_hasRunningItem_snapshot (source : ValidTurn host) :
    hasRunningItem [successfulSnapshotMessages source.val] = false := by
  have hok := (snapshot_selected source).succeeded
  rw [hasRunningItem, List.any_eq_false]
  intro version hversion
  cases List.mem_singleton.mp hversion
  rw [List.any_eq_true]
  rintro ⟨message, hmessage, hany⟩
  obtain ⟨item, hitem, hrunning⟩ := List.any_eq_true.mp hany
  have hsucceeded := hok item (List.mem_flatMap.mpr ⟨message, hmessage, hitem⟩)
  rw [succeeded, decide_eq_true_eq] at hsucceeded
  rw [hsucceeded] at hrunning
  exact absurd hrunning (by decide)

/-! ## The anchor -/

variable {parent : Node host} {id threadId now : String}

theorem forked_wf (source : ValidTurn host) (hparent : source.val.parentId ≠ "")
    (hkey : parent.key = (source.val.parentSessionId, source.val.parentId)) (hid : id ≠ "")
    (hthread : threadId ≠ "") (htime : host.parseTimestamp now = some true) :
    (RuntimeStateTree.forked source.val (some parent) id threadId now).Wf host :=
  { source.property with
    threadId := hthread
    id := hid
    parents := by
      have hparents := source.property.parents
      simpa [RuntimeStateTree.forked, hkey] using hparents
    mainRoot := fun h => absurd h (by simpa [RuntimeStateTree.forked, hkey] using hparent)
    forkRoot := fun h => absurd h (by simpa [RuntimeStateTree.forked, hkey] using hparent)
    compactionId := by
      simp only [RuntimeStateTree.forked]
      split
      · exact hid
      · exact source.property.compactionId
    timestamp := htime }

theorem withSnapshot_wf (source : ValidTurn host) {anchor : RuntimeState} (hanchor : anchor.Wf host)
    (huser : UserItemsSucceed (selected source.val)) (htime : host.parseTimestamp now = some true) :
    (withSnapshot anchor source.val now).Wf host :=
  { hanchor with
    timestamp := htime
    data := validateData_of_ok (List.cons_ne_nil _ _) fun version hversion => by
      obtain rfl := List.mem_singleton.mp hversion
      exact versionOk_snapshot source huser
    currentDataIdx := Nat.one_pos
    ends := fun _ => endsWithAssistant_snapshot source.val
    settled := fun _ => not_hasRunningItem_snapshot source }

theorem withSnapshot_status (anchor source : RuntimeState) (now : String) :
    (withSnapshot anchor source now).status ≠ .running := by
  simp only [withSnapshot]
  split
  · exact nofun
  · assumption

/-! ## One root in a Session -/

variable {s t : Tables host}

theorem nodesKept_oneRoot : NodesKept (@OneRoot host) where
  named _ h := h.named
  same _ _ h hnodes := h.same hnodes
  turn _ _ _ h hnodes := h.insert hnodes
  root _ _ _ h hempty := h.addRoot hempty

/-! ## Side chats -/

/-- The call forks the Turn as a sealed one. -/
theorem buildSideChatAnchor_eq {turnId newTurnId : String} (h : OneRoot s)
    (hsource : findTurn turnId s = (.ok source, s))
    (huser : UserItemsSucceed (selected source.val)) (hparent : source.val.parentId ≠ "")
    (hsession : source.val.parentSessionId = source.val.sessionId)
    (hstored : s.nodes.lookup (source.val.sessionId, source.val.parentId) = some parent)
    (hnew : newTurnId ≠ "") (hthread : threadId ≠ "")
    (htime : host.parseTimestamp now = some true) :
    ∃ anchor, buildSideChatAnchor now turnId newTurnId threadId s = (.ok anchor, s) ∧
      anchor.val = withSnapshot (RuntimeStateTree.forked source.val (some parent)
        newTurnId threadId now) source.val now := by
  have hkey : parent.key = (source.val.parentSessionId, source.val.parentId) := by
    rw [hsession]
    exact h.named _ _ hstored
  have hforked := forked_wf source hparent hkey hnew hthread htime
  have hanchor := withSnapshot_wf source hforked huser htime
  have hget : RuntimeStateTree.get? ⟨s.loadNodes source.val.sessionId⟩ source.val.parentSessionId
      source.val.parentId =
      some parent := by
    rw [hsession, get?_loadNodes h.named, hstored]
  have hfork : RuntimeStateTree.fork ⟨s.loadNodes source.val.sessionId⟩ source
      newTurnId threadId now =
      .ok ⟨_, hforked⟩ := by
    rw [RuntimeStateTree.fork, if_neg hparent, hget]
    exact rebuild_of_wf hforked
  refine ⟨⟨_, hanchor⟩, ?_, rfl⟩
  refine Call.bind_ok.mpr ⟨source, s, hsource,
    Call.bind_ok.mpr ⟨s, s, Call.read_ok.mpr ⟨rfl, rfl⟩, ?_⟩⟩
  refine Call.bind_ok.mpr ⟨_, s, Call.ofExcept_ok.mpr ⟨h.ofNodes source.val.sessionId, rfl⟩, ?_⟩
  refine Call.bind_ok.mpr ⟨_, s, Call.ofExcept_ok.mpr ⟨hfork, rfl⟩, ?_⟩
  exact Call.ofExcept_ok.mpr ⟨rebuild_of_wf hanchor, rfl⟩

/-- A snapshot keeps what has succeeded of a Turn whose user Items have; in any store that calls
have made, the side chat of such a Turn under a stored parent is a sealed Turn with this one
version. -/
theorem side_chat_snapshot (source : ValidTurn host)
    (huser : UserItemsSucceed (selected source.val)) :
    Snapshot (selected source.val) (successfulSnapshotMessages source.val) ∧
      ∀ (sessions : List String) (calls : List (StoreOp host × String)) (s : Tables host)
        (turnId newTurnId threadId now : String) (parent : Node host),
        run Tables.step (Tables.new host sessions) calls = some s →
        findTurn turnId s = (.ok source, s) →
        source.val.parentId ≠ "" → source.val.parentSessionId = source.val.sessionId →
        s.nodes.lookup (source.val.sessionId, source.val.parentId) = some parent →
        newTurnId ≠ "" → threadId ≠ "" → host.parseTimestamp now = some true →
        ∃ anchor : ValidTurn host, buildSideChatAnchor now turnId newTurnId threadId s =
          (.ok anchor, s) ∧
          anchor.val.status ≠ .running ∧ anchor.val.data = [successfulSnapshotMessages source.val] ∧
          anchor.val.currentDataIdx = 0 ∧ anchor.val.id = newTurnId ∧
          anchor.val.threadId = threadId := by
  refine ⟨snapshot_selected source,
    fun sessions calls s turnId newTurnId threadId now parent hrun hsource hparent hsession
    hstored hnew hthread htime => ?_⟩
  have hone : OneRoot s := by
    refine nodesKept_oneRoot.run ⟨(sound_new sessions).named, ?_⟩ hrun
    intro sessionId id id' hid
    simp [Tables.new] at hid
  obtain ⟨anchor, hcall, hval⟩ :=
    buildSideChatAnchor_eq hone hsource huser hparent hsession hstored hnew hthread htime
  refine ⟨anchor, hcall, ?_⟩
  rw [hval]
  exact ⟨withSnapshot_status _ _ _, rfl, rfl, rfl, rfl⟩

open Browser (sampleHost)

theorem side_chat_snapshot_of_running_turn :
    Snapshot (selected (sampleValid "t1" "s1" "r" .running).val)
        (successfulSnapshotMessages (sampleValid "t1" "s1" "r" .running).val) ∧
      ∃ anchor : ValidTurn sampleHost, buildSideChatAnchor sampleNow "t1" "t2" "f1" sampleStore =
        (.ok anchor, sampleStore) ∧
        anchor.val.status ≠ .running ∧
        anchor.val.data = [successfulSnapshotMessages (sampleValid "t1" "s1" "r" .running).val] ∧
        anchor.val.currentDataIdx = 0 ∧ anchor.val.id = "t2" ∧ anchor.val.threadId = "f1" := by
  have huser : UserItemsSucceed (selected (sampleValid "t1" "s1" "r" .running).val) := by
    decide +kernel
  obtain ⟨hsnapshot, hanchor⟩ := side_chat_snapshot (sampleValid "t1" "s1" "r" .running) huser
  exact ⟨hsnapshot, hanchor ["s1"] sampleCalls sampleStore "t1" "t2" "f1"
    sampleNow (.root "s1" "r") rfl rfl (by decide) rfl rfl
    (by decide) (by decide) rfl⟩

end MiniAgent.Store
