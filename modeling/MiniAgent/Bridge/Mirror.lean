import MiniAgent.Bridge.Drafts

/-!
# Methods of the bridge on drafts

Each method of the bridge that returns has changed the draft in a way of its own. A method that
writes an Item needs that the draft is not lost, and leaves one that is not.
-/

namespace MiniAgent.Bridge

open Lib Turn Provider Store NodeWriter

namespace Draft

variable {d : Draft} {i k : Nat} {m : Fields} {items : List Fields} {g : Fields → List Fields}
  {c : Cursor}

/-! ## Changes of a draft -/

def appended (d : Draft) (m : Fields) : Draft := d.withVersion (d.version ++ [m])

@[simp] theorem toCursor_appended : (d.appended m).toCursor = d.toCursor := rfl

def pushed (d : Draft) (i : Nat) (items : List Fields) : Draft :=
  d.withVersion (addItems items i d.version)

def changed (d : Draft) (f : Fields → Fields) (i k : Nat) : Draft :=
  d.withVersion (changeItem f i k d.version)

/-- The draft whose Item that streamed has a status. -/
def settled (d : Draft) (status : String) (itemType : Option String) : Draft :=
  match d.messageIdx, d.streamIndex with
  | some i, some k => (d.quiet itemType).changed (withStatus status) i k
  | _, _ => d.quiet itemType

def finished (d : Draft) (itemType : Option String) (status : String) : Draft :=
  if d.streamType.isNone || (itemType.isSome && d.streamType != itemType) then d
  else d.settled status none

/-- The draft on a new Message. -/
def fresh (d : Draft) (afterReport : Bool) : Draft :=
  { d.appended (assistantOf []) with
    messageIdx := some d.version.length, afterReport := afterReport }

/-- The draft with a Message to write: the one it has, or a new one. -/
def opened (d : Draft) : Draft := if d.messageIdx.isSome then d else d.fresh d.afterReport

theorem Ok.message_lt (h : d.Ok) (hidx : d.messageIdx = some i) : i < d.version.length := by
  obtain ⟨m, hm, -⟩ := h.message i hidx
  exact (List.getElem?_eq_some_iff.mp hm).1

theorem not_lost_of_message (hidx : d.messageIdx = some i) : ¬ d.Lost := by
  rintro ⟨hnone, -⟩
  rw [hidx] at hnone
  cases hnone

/-! ### A Message at the end -/

theorem version_appended (h : d.dataIdx < d.data.length) :
    (d.appended m).version = d.version ++ [m] := version_withVersion h

theorem tailRole_appended (version : List Fields) (m : Fields) :
    tailRole (version ++ [m]) = roleOf m := by
  simp [tailRole]

theorem messageItems_empty : messageItems (assistantOf []) = [] := rfl

theorem isAssistant_empty : IsAssistant (assistantOf []) := rfl

theorem Ok.appended_message (h : d.Ok) (hidx : d.messageIdx = some i) :
    ∃ x, (d.appended m).version[i]? = some x ∧ d.version[i]? = some x ∧ IsAssistant x := by
  obtain ⟨x, hx, hrole⟩ := h.message i hidx
  refine ⟨x, ?_, hx, hrole⟩
  rw [version_appended h.dataIdx, List.getElem?_append_left (h.message_lt hidx)]
  exact hx

theorem Ok.blocks_appended (h : d.Ok) : (d.appended m).blocks = d.blocks := by
  rcases hidx : d.messageIdx with _ | i
  · rw [blocks_of_none hidx, blocks_of_none (d := d.appended m) hidx]
  · obtain ⟨x, hnew, hold, -⟩ := h.appended_message (m := m) hidx
    rw [blocks_of_message hidx, blocks_of_message (d := d.appended m) hidx, hnew, hold]

theorem Ok.version_fresh (h : d.Ok) (afterReport : Bool) :
    (d.fresh afterReport).version = d.version ++ [assistantOf []] :=
  version_appended h.dataIdx

theorem Ok.blocks_fresh (h : d.Ok) (afterReport : Bool) : (d.fresh afterReport).blocks = [] := by
  rw [blocks_of_message (d := d.fresh afterReport) rfl, h.version_fresh]
  simp [messageItems_empty]

theorem Ok.fresh (h : d.Ok) (afterReport : Bool) : (d.fresh afterReport).Ok where
  dataIdx := by simpa [Draft.fresh, appended, withVersion] using h.dataIdx
  message := by
    rintro i ⟨⟩
    refine ⟨assistantOf [], ?_, isAssistant_empty⟩
    rw [h.version_fresh]
    simp
  between := nofun
  stream := by
    intro k hk
    obtain ⟨-, itemType, htype, hkind, -⟩ := h.stream k hk
    refine ⟨rfl, itemType, htype, hkind, fun hlt => ?_⟩
    rw [h.blocks_fresh] at hlt
    cases hlt

/-- The report of an Agent is a Message of its own, after which the answer waits. -/
def reported (d : Draft) (m : Fields) : Draft := { d.appended m with afterReport := true }

/-- After a steering message no Message is written. -/
def steered (d : Draft) (m : Fields) : Draft := { d.appended m with messageIdx := none }

theorem Ok.reported (h : d.Ok) (hquiet : d.streamIndex = none) : (d.reported m).Ok where
  dataIdx := by simpa [Draft.reported, appended, withVersion] using h.dataIdx
  message i hidx := by
    obtain ⟨x, hx, -, hrole⟩ := h.appended_message (m := m) hidx
    exact ⟨x, hx, hrole⟩
  between _ := .inr rfl
  stream k hk := by cases hquiet.symm.trans hk

theorem Ok.steered (h : d.Ok) (hquiet : d.streamIndex = none)
    (hrole : roleOf m = some (.str "user")) :
    (d.steered m).Ok where
  dataIdx := by simpa [Draft.steered, appended, withVersion] using h.dataIdx
  message := nofun
  between _ := .inl (by
    rw [show (d.steered m).version = d.version ++ [m] from version_appended h.dataIdx,
      tailRole_appended, hrole])
  stream k hk := by cases hquiet.symm.trans hk

/-! ### Items of a Message -/

theorem version_modified (h : d.dataIdx < d.data.length) :
    (d.withVersion (d.version.modify i fun m => setItems (g m) m)).version =
      d.version.modify i fun m => setItems (g m) m := version_withVersion h

theorem Ok.blocks_modified (h : d.Ok) :
    (d.withVersion (d.version.modify i fun m => setItems (g m) m)).blocks =
    if d.messageIdx = some i then (d.version[i]?.map g).getD [] else d.blocks := by
  rcases hidx : d.messageIdx with _ | j
  · rw [blocks_of_none hidx, blocks_of_none (d := d.withVersion _) hidx, if_neg nofun]
  · rw [blocks_of_message hidx, blocks_of_message (d := d.withVersion _) hidx,
      version_modified h.dataIdx, items_modify]
    by_cases hij : i = j
    · subst hij
      simp
    · rw [if_neg fun he => hij (Option.some.inj he).symm]
      simp [hij]

/-- A draft with other Items in one Message. -/
theorem Ok.modified (h : d.Ok) (hstream : ∀ k m, d.streamIndex = some k →
    d.version[i]? = some m → d.messageIdx = some i →
    k < (g m).length → k < d.blocks.length ∧ (g m)[k]? = d.blocks[k]?) :
    (d.withVersion (d.version.modify i fun m => setItems (g m) m)).Ok := by
  refine ⟨by simpa [withVersion] using h.dataIdx, fun j hj => ?_, fun hnone => ?_, fun k hk => ?_⟩
  · obtain ⟨m, hm, hrole⟩ := h.message j hj
    rw [version_modified h.dataIdx, List.getElem?_modify, hm]
    refine ⟨_, rfl, ?_⟩
    split
    · exact (roleOf_setItems (g m) m).trans hrole
    · exact hrole
  · rw [version_modified h.dataIdx, tailRole_of_roles roles_modify]
    exact h.between hnone
  · obtain ⟨hsome, itemType, htype, hkind, hitem⟩ := h.stream k hk
    refine ⟨hsome, itemType, htype, hkind, ?_⟩
    rw [h.blocks_modified]
    split
    · next hidx =>
      obtain ⟨m, hm, -⟩ := h.message i hidx
      rw [hm, Option.map_some, Option.getD_some]
      intro hlt
      obtain ⟨hold, heq⟩ := hstream k m hk hm hidx hlt
      rw [heq]
      exact hitem hold
    · exact hitem

theorem Ok.blocks_pushed (h : d.Ok) (hidx : d.messageIdx = some i) :
    (d.pushed i items).blocks = d.blocks ++ items := by
  obtain ⟨m, hm, -⟩ := h.message i hidx
  rw [pushed, addItems, h.blocks_modified, if_pos hidx, blocks_of_message hidx, hm]
  rfl

theorem Ok.pushed (h : d.Ok) (hquiet : d.streamIndex = none) : (d.pushed i items).Ok :=
  h.modified fun k m hk => by
    rw [hquiet] at hk
    cases hk

theorem Ok.blocks_changed {f : Fields → Fields} (h : d.Ok) :
    (d.changed f i k).blocks = if d.messageIdx = some i then d.blocks.modify k f else d.blocks := by
  rw [changed, changeItem, h.blocks_modified]
  split
  · next hidx =>
    obtain ⟨m, hm, -⟩ := h.message i hidx
    rw [blocks_of_message hidx, hm]
    rfl
  · rfl

theorem Ok.changed {f : Fields → Fields} (h : d.Ok)
    (hne : d.messageIdx = some i → d.streamIndex ≠ some k) :
    (d.changed f i k).Ok := by
  refine h.modified fun j m hj hm hidx hlt => ?_
  have hblocks : d.blocks = messageItems m := by
    rw [blocks_of_message hidx, hm]
    rfl
  have hjk : k ≠ j := fun he => hne hidx (by rw [he, hj])
  rw [List.length_modify] at hlt
  exact ⟨by rw [hblocks]; exact hlt, by simp [hblocks, hjk]⟩

theorem Ok.opened (h : d.Ok) : d.opened.Ok := by
  unfold Draft.opened
  split
  · exact h
  · exact h.fresh d.afterReport

theorem opened_message (d : Draft) : ∃ i, d.opened.messageIdx = some i := by
  unfold opened
  split
  · next hsome => exact Option.isSome_iff_exists.mp hsome
  · exact ⟨_, rfl⟩

theorem opened_stream (d : Draft) : d.opened.streamIndex = d.streamIndex ∧
    d.opened.streamType = d.streamType := by
  unfold opened
  split
  · exact ⟨rfl, rfl⟩
  · exact ⟨rfl, rfl⟩

/-! ### The Item that streams -/

/-- A new Item streams. -/
def streaming (d : Draft) (i : Nat) (itemType chunk : String) : Draft :=
  { d.pushed i [TurnBridge.streamItem itemType chunk] with
    streamIndex := some d.blocks.length, streamText := chunk }

/-- The Item that streams has grown. -/
def grown (d : Draft) (i k : Nat) (chunk : String) : Draft :=
  { d.changed (withText chunk) i k with streamText := d.streamText ++ chunk }

theorem withText_streamItem (itemType text chunk : String) :
    withText chunk (TurnBridge.streamItem itemType text) =
    TurnBridge.streamItem itemType (text ++ chunk) := by
  simp [withText, TurnBridge.streamItem, Fields.get_cons, Fields.set]

theorem Ok.streaming {itemType chunk : String} (h : d.Ok) (hmessage : d.messageIdx = some i)
    (hquiet : d.streamIndex = none) (htype : d.streamType = some itemType)
    (hkind : itemType = "reasoning" ∨ itemType = "text") :
    (d.streaming i itemType chunk).Ok := by
  have hok : (d.pushed i [TurnBridge.streamItem itemType chunk]).Ok := h.pushed hquiet
  refine ⟨hok.dataIdx, hok.message, hok.between, ?_⟩
  rintro k hk
  obtain rfl : d.blocks.length = k := Option.some.inj hk
  have hidx : (d.streaming i itemType chunk).messageIdx = some i := hmessage
  refine ⟨by rw [hidx]; rfl, itemType, htype, hkind, ?_⟩
  rw [show (d.streaming i itemType chunk).blocks = d.blocks ++
    [TurnBridge.streamItem itemType chunk] from
    h.blocks_pushed hmessage]
  intro _
  simp [Draft.streaming]

theorem Ok.blocks_grown {itemType chunk : String} (h : d.Ok) (hmessage : d.messageIdx = some i)
    (hstream : d.streamIndex = some k) (htype : d.streamType = some itemType)
    (hlt : k < d.blocks.length) :
    (d.grown i k chunk).blocks = d.blocks.modify k fun _ =>
      TurnBridge.streamItem itemType (d.streamText ++ chunk) := by
  obtain ⟨-, itemType', htype', -, hitem⟩ := h.stream k hstream
  obtain rfl : itemType = itemType' := Option.some.inj (htype.symm.trans htype')
  rw [show (d.grown i k chunk).blocks = (d.changed (withText chunk) i k).blocks from rfl,
    h.blocks_changed, if_pos hmessage,
    modify_eq_set (hitem hlt), modify_eq_set (hitem hlt), withText_streamItem]

theorem Ok.grown {itemType chunk : String} (h : d.Ok) (hmessage : d.messageIdx = some i)
    (hstream : d.streamIndex = some k) (htype : d.streamType = some itemType)
    (hlt : k < d.blocks.length) :
    (d.grown i k chunk).Ok := by
  -- the other fields are those of the draft that does not stream
  have hok : ((d.quiet none).changed (withText chunk) i k).Ok :=
    (h.quiet none).changed fun _ => nofun
  obtain ⟨hsome, itemType', htype', hkind, -⟩ := h.stream k hstream
  obtain rfl : itemType = itemType' := Option.some.inj (htype.symm.trans htype')
  refine ⟨hok.dataIdx, hok.message, hok.between, ?_⟩
  rintro j hj
  obtain rfl : k = j := Option.some.inj (hstream.symm.trans hj)
  refine ⟨hsome, itemType, htype, hkind, fun _ => ?_⟩
  rw [h.blocks_grown hmessage hstream htype hlt, modify_eq_set (List.getElem?_eq_getElem hlt),
    List.getElem?_set_self hlt]
  rfl

/-! ### Drafts on the same Message -/

structure Like (d d' : Draft) : Prop where
  messageIdx : d'.messageIdx = d.messageIdx
  afterReport : d'.afterReport = d.afterReport
  tail : tailRole d'.version = tailRole d.version

theorem Like.refl (d : Draft) : d.Like d := ⟨rfl, rfl, rfl⟩

theorem Like.trans {d' d'' : Draft} (h : d.Like d') (h' : d'.Like d'') : d.Like d'' :=
  ⟨h'.messageIdx.trans h.messageIdx, h'.afterReport.trans h.afterReport, h'.tail.trans h.tail⟩

theorem Like.lost {d' : Draft} (h : d.Like d') :
    d'.Lost ↔ d.Lost := by rw [Lost, Lost, h.messageIdx, h.tail]

theorem Ok.like_changed {f : Fields → Fields} (h : d.Ok) : d.Like (d.changed f i k) :=
  ⟨rfl, rfl, by
    rw [Draft.changed, changeItem, version_modified h.dataIdx, tailRole_of_roles roles_modify]⟩

theorem like_quiet (d : Draft) (itemType : Option String) : d.Like (d.quiet itemType) :=
  ⟨rfl, rfl, rfl⟩

theorem Ok.like_settled (h : d.Ok) (status : String) (itemType : Option String) :
    d.Like (d.settled status itemType) := by
  unfold settled
  split
  · exact (like_quiet d itemType).trans (h.quiet itemType).like_changed
  · exact like_quiet d itemType

theorem Ok.like_finished (h : d.Ok) (itemType : Option String) (status : String) :
    d.Like (d.finished itemType status) := by
  unfold finished
  split
  · exact .refl d
  · exact h.like_settled status none

theorem settled_quiet (d : Draft) (status : String) (itemType : Option String) :
    (d.settled status itemType).streamIndex = none ∧ (d.settled status itemType).streamType =
      itemType := by
  unfold settled
  split
  · exact ⟨rfl, rfl⟩
  · exact ⟨rfl, rfl⟩

/-- After a finish of whatever streams nothing streams. -/
theorem Ok.finished_quiet (h : d.Ok) (status : String) :
    (d.finished none status).streamIndex = none ∧ (d.finished none status).streamType = none := by
  unfold finished
  split
  · next hnone =>
    have htype : d.streamType = none := by simpa using hnone
    refine ⟨?_, htype⟩
    rcases hk : d.streamIndex with _ | k
    · rfl
    · obtain ⟨-, itemType, hsome, -⟩ := h.stream k hk
      rw [htype] at hsome
      cases hsome
  · exact settled_quiet d status none

end Draft

/-! ## Bridges -/

section Mirrors

variable {env : BridgeEnv} {d d' : Draft} {t t' : ValidTurn env.writer.host}
  {b b' : TurnBridge} {w : NodeWriter}
  {version : List Fields}

theorem Mirror.selected_eq (h : Mirror env d t b) : selected t.val = d.version := by
  rw [selected, Draft.version, h.data, h.dataIdx]

theorem Mirror.messageIdx (h : Mirror env d t b) : b.assistantMessageIdx = d.messageIdx :=
  congrArg Cursor.messageIdx h.cursor

theorem Mirror.afterReport (h : Mirror env d t b) : b.assistantAfterReport = d.afterReport :=
  congrArg Cursor.afterReport h.cursor

theorem Mirror.streamIndex (h : Mirror env d t b) : b.streamItemIndex = d.streamIndex :=
  congrArg Cursor.streamIndex h.cursor

theorem Mirror.streamType (h : Mirror env d t b) : b.streamItemType = d.streamType :=
  congrArg Cursor.streamType h.cursor

theorem Mirror.streamText (h : Mirror env d t b) : b.streamText = d.streamText :=
  congrArg Cursor.streamText h.cursor

/-- The bridge moves, the Turn stays. -/
theorem Mirror.moved (h : Mirror env d t b) (hwriter : b'.writer = b.writer)
    (hassistant : b'.assistant = b.assistant)
    (hflags : b'.started = b.started ∧ b'.closed = b.closed)
    (hdata : d'.data = d.data ∧ d'.dataIdx = d.dataIdx) (hcursor : b'.cursor = d'.toCursor)
    (hblocks : b'.assistantBlocks = d'.blocks) (hok : d'.Ok) :
    Mirror env d' t b' where
  holds := by rw [hwriter]; exact h.holds
  assistant := hassistant.trans h.assistant
  data := h.data.trans hdata.1.symm
  dataIdx := h.dataIdx.trans hdata.2.symm
  blocks := hblocks
  cursor := hcursor
  started := hflags.1.trans h.started
  closed := hflags.2.trans h.closed
  ok := hok

/-- A write of the selected version. -/
theorem Mirror.turned (h : Mirror env d t b) (ht' : t'.val = withSelected t.val version)
    (hw : Holds env.writer w t') (hwriter : b'.writer = w)
    (hassistant : b'.assistant = some t'.val)
    (hflags : b'.started = b.started ∧ b'.closed = b.closed)
    (hdata : d'.data = d.data.set d.dataIdx version ∧ d'.dataIdx = d.dataIdx)
    (hcursor : b'.cursor = d'.toCursor) (hblocks : b'.assistantBlocks = d'.blocks) (hok : d'.Ok) :
    Mirror env d' t' b' where
  holds := by rw [hwriter]; exact hw
  assistant := hassistant
  data := by rw [ht', hdata.1, ← h.data, ← h.dataIdx]; rfl
  dataIdx := by rw [ht', hdata.2]; exact h.dataIdx
  blocks := hblocks
  cursor := hcursor
  started := hflags.1.trans h.started
  closed := hflags.2.trans h.closed
  ok := hok

/-- What does not depend on the trace. -/
def Traceless (Q : TurnBridge → Prop) : Prop := ∀ b trace, Q b → Q { b with trace := trace }

theorem traceless_shows : Traceless (Shows env d) := by
  rintro b trace ⟨t, h⟩
  exact ⟨t, h.moved rfl rfl ⟨rfl, rfl⟩ ⟨rfl, rfl⟩ h.cursor h.blocks h.ok⟩

end Mirrors

namespace TurnBridge

variable {env : BridgeEnv} {d : Draft} {P Q : TurnBridge → Prop} {i k : Nat}
  {items : List Fields} {status : String}

theorem failTrace_spec {Q : Unit → TurnBridge → Prop} : Returns P failTrace Q :=
  .bind (R := fun _ _ => True) (.write fun _ _ => trivial) fun _ => .raise fun _ => trivial

theorem recordCompletedItem_spec (hQ : Traceless Q) :
    Returns Q (recordCompletedItem env i k) fun _ => Q := by
  refine .read_bind fun b => ?_
  rcases b.assistant with _ | t
  · exact .pure fun _ h => h.1
  refine .ite (fun _ => .pure fun _ h => h.1) fun _ => ?_
  split
  · exact failTrace_spec
  · next m _ =>
    split
    · exact failTrace_spec
    · next item _ =>
      refine .ite (fun _ => ?_) fun _ => .pure fun _ h => h.1
      dsimp only
      split
      · exact failTrace_spec
      · exact .write fun b h => hQ b _ h.1

/-! ## The Message -/

theorem holdsMessage_of_mirror {t : ValidTurn env.writer.host} {b : TurnBridge}
    (h : Mirror env d t b) :
    b.holdsMessage t.val = d.messageIdx.isSome := by
  rw [holdsMessage, h.messageIdx, h.selected_eq]
  rcases hidx : d.messageIdx with _ | i
  · rfl
  · obtain ⟨m, hm, hrole⟩ := h.ok.message i hidx
    simp [hm, hrole]

theorem takeTurn_spec {s : RuntimeState} :
    Returns (fun b => ∃ t, Mirror env d t b ∧ t.val = s) (setTurn s) fun _ => Shows env d := by
  refine .write ?_
  rintro b ⟨t, h, rfl⟩
  exact ⟨t, h.moved rfl h.assistant.symm ⟨rfl, rfl⟩ ⟨rfl, rfl⟩ h.cursor h.blocks h.ok⟩

theorem takeLastMessage_spec : Returns (fun b => ∀ t, b.assistant = some t →
    Q { b with assistantMessageIdx := some ((selected t).length - 1) }) takeLastMessage
      fun _ => Q :=
  .bind activeTurn_some fun s => .write fun _ h => h.1 s h.2

/-- The bridge after a write of the selected version that it has not followed yet. -/
def Turned (env : BridgeEnv) (d : Draft) (version : List Fields) (b : TurnBridge) : Prop :=
  ∃ (t t' : ValidTurn env.writer.host) (b₀ : TurnBridge) (w : NodeWriter), Mirror env d t b₀ ∧
    t'.val = withSelected t.val version ∧ Holds env.writer w t' ∧ b = b₀.turned t'.val w

section Turneds

variable {version : List Fields} {b b' : TurnBridge} {d' : Draft}

theorem Turned.cursor (h : Turned env d version b) : b.cursor = d.toCursor := by
  obtain ⟨t, t', b₀, w, hm, -, -, rfl⟩ := h
  exact hm.cursor

theorem Turned.blocks (h : Turned env d version b) : b.assistantBlocks = d.blocks := by
  obtain ⟨t, t', b₀, w, hm, -, -, rfl⟩ := h
  exact hm.blocks

theorem Turned.ok (h : Turned env d version b) : d.Ok := by
  obtain ⟨t, t', b₀, w, hm, -, -, rfl⟩ := h
  exact hm.ok

/-- The bridge has followed. -/
theorem Turned.shows (h : Turned env d version b) (hwriter : b'.writer = b.writer)
    (hassistant : b'.assistant = b.assistant)
    (hflags : b'.started = b.started ∧ b'.closed = b.closed)
    (hdata : d'.data = d.data.set d.dataIdx version ∧ d'.dataIdx = d.dataIdx)
    (hcursor : b'.cursor = d'.toCursor) (hblocks : b'.assistantBlocks = d'.blocks) (hok : d'.Ok) :
    Shows env d' b' := by
  obtain ⟨t, t', b₀, w, hm, ht', hw, rfl⟩ := h
  exact ⟨t', hm.turned ht' hw hwriter hassistant hflags hdata hcursor hblocks hok⟩

theorem traceless_turned : Traceless (Turned env d version) := by
  rintro b trace ⟨t, t', b₀, w, hm, ht', hw, rfl⟩
  exact ⟨t, t', { b₀ with trace := trace }, w,
    hm.moved rfl rfl ⟨rfl, rfl⟩ ⟨rfl, rfl⟩ hm.cursor hm.blocks hm.ok, ht', hw, rfl⟩

end Turneds

theorem openMessage_spec {s : RuntimeState} : Returns (fun b => ∃ t, Mirror env d t b ∧ t.val = s)
    (writeOn env s (.appendMessage emptyAnswer true)) fun _ =>
      Turned env d (d.version ++ [assistantOf []]) :=
  writeOn_spec rfl fun b ⟨t, h, ht⟩ => ⟨t, ht, h.holds, fun t' w hwrite hw =>
    ⟨t, t', b, w, h, by rw [← h.selected_eq]; exact write_appendMessage ⟨[], rfl⟩ hwrite, hw, rfl⟩⟩

/-- The bridge on a Message that it has just written. -/
theorem shows_fresh {b : TurnBridge} {afterReport : Bool}
    (h : Turned env d (d.version ++ [assistantOf []]) b) {s : RuntimeState}
    (hs : b.assistant = some s) :
    Shows env (d.fresh afterReport)
      { b with assistantBlocks := [], assistantMessageIdx := some ((selected s).length - 1)
               assistantAfterReport := afterReport } := by
  have hturned := h
  obtain ⟨t, t', b₀, w, hm, ht', hw, rfl⟩ := h
  obtain rfl : t'.val = s := Option.some.inj hs
  refine hturned.shows rfl rfl ⟨rfl, rfl⟩ ⟨rfl, rfl⟩ ?_ (hm.ok.blocks_fresh afterReport).symm
    (hm.ok.fresh afterReport)
  rw [ht', selected_withSelected]
  simp [cursor, turned, Draft.fresh, hm.streamIndex, hm.streamType, hm.streamText]

theorem ensureAssistantMessage_spec (hlost : ¬ d.Lost) :
    Returns (Shows env d) (ensureAssistantMessage env) fun _ => Shows env d.opened := by
  refine .bind (R := fun s b => ∃ t, Mirror env d t b ∧ t.val = s)
    (currentTurn_spec fun b ⟨t, h⟩ => ⟨t, h.assistant, h.holds, t, h, rfl⟩) fun s => ?_
  refine .read_bind fun b => ?_
  refine .known (p := b.holdsMessage s = d.messageIdx.isSome ∧ lastRole s = tailRole d.version)
    ?_ fun ⟨hholds, hlast⟩ => ?_
  · rintro b' ⟨⟨t, h, rfl⟩, rfl⟩
    exact ⟨holdsMessage_of_mirror h, by rw [lastRole, h.selected_eq, tailRole]⟩
  · refine .pre (P := fun b => ∃ t, Mirror env d t b ∧ t.val = s) ?_ fun b hb => hb.1
    rw [hholds, hlast]
    refine .ite (fun hsome => ?_) fun hsome => .ite (fun _ => ?_) fun htail => ?_
    · rw [Draft.opened, if_pos hsome]
      exact takeTurn_spec
    · rw [Draft.opened, if_neg hsome]
      refine .bind openMessage_spec fun _ => ?_
      refine .bind (.write (Q := fun _ b => ∀ s, b.assistant = some s →
        Shows env (d.fresh d.afterReport)
        { b with assistantMessageIdx := some ((selected s).length - 1) }) fun b hb s hs => ?_)
          fun _ => takeLastMessage_spec
      rw [← show b.assistantAfterReport = d.afterReport from congrArg Cursor.afterReport hb.cursor]
      exact shows_fresh hb hs
    · exact absurd ⟨by simpa using hsome, htail⟩ hlost

/-! ## Items that stream -/

theorem setBlock_spec {f : Fields → Fields} : Returns (fun b => k < b.assistantBlocks.length →
    Q { b with assistantBlocks := b.assistantBlocks.modify k f }) (setBlock k f) fun _ => Q := by
  refine .read_bind fun b => .ite (fun hlt => .write fun b' h => ?_) fun _ =>
    .raise fun _ => trivial
  obtain ⟨hQ, rfl⟩ := h
  exact hQ hlt

/-- An Item of the Turn gets a status, and the bridge what follows from it. -/
theorem setItemStatus_spec {dataIdx : RuntimeState → Int}
    (hidx : ∀ t, dataIdx t = t.currentDataIdx) :
    Returns (Shows env d)
    (writeTurn env fun t => .setItemStatus (dataIdx t) i k status true) fun _ =>
      Turned env d (changeItem (withStatus status) i k d.version) := by
  refine writeTurn_spec (fun _ => rfl) ?_
  rintro b ⟨t, h⟩
  refine ⟨t, h.assistant, h.holds, fun t' w hwrite hw => ⟨t, t', b, w, h, ?_, hw, rfl⟩⟩
  rw [hidx] at hwrite
  rw [← h.selected_eq]
  exact (write_setItemStatus hwrite).1

/-- The Item that streams gets a status. -/
theorem sealStreamItem_spec (hmessage : d.messageIdx = some i) :
    Returns (Shows env d) (sealStreamItem env k status) fun _ b => ∀ itemType,
      Shows env ((d.quiet itemType).changed (withStatus status) i k) (quieted itemType b) := by
  refine .read_bind fun b => ?_
  refine .known (p := b.assistantMessageIdx = some i) ?_ fun hidx => ?_
  · rintro b' ⟨⟨t, h⟩, rfl⟩
    exact h.messageIdx.trans hmessage
  rw [hidx]
  refine .pre (P := Shows env d) ?_ fun b hb => hb.1
  refine .bind (R := fun _ => Shows env d) (persistTurn_spec ?_) fun _ => ?_
  · rintro b ⟨t, h⟩
    refine ⟨t, h.assistant, h.holds, fun w hw => ⟨t, ?_⟩⟩
    exact { h with holds := hw, assistant := rfl }
  refine .bind (setItemStatus_spec fun _ => rfl) fun _ => ?_
  refine .bind (R := fun _ b =>
    ∀ itemType, Shows env ((d.quiet itemType).changed (withStatus status) i k) (quieted itemType b))
    (.pre setBlock_spec fun b hb _ itemType => ?_) fun _ =>
      recordCompletedItem_spec fun b trace hb itemType => ?_
  · have hok := hb.ok.quiet itemType
    refine hb.shows rfl rfl ⟨rfl, rfl⟩ ⟨rfl, rfl⟩ ?_ ?_ (hok.changed fun _ => nofun)
    · exact congrArg (fun c : Cursor => (⟨c.messageIdx, c.afterReport, none, itemType, ""⟩ :
        Cursor)) hb.cursor
    · rw [hok.blocks_changed, if_pos (show (d.quiet itemType).messageIdx = some i from hmessage)]
      exact congrArg (List.modify · k (withStatus status)) hb.blocks
  · exact traceless_shows _ _ (hb itemType)

theorem sealStream_spec : Returns (Shows env d) (sealStream env status) fun _ b => ∀ itemType,
    Shows env (d.settled status itemType) (quieted itemType b) := by
  refine .read_bind fun b => ?_
  refine .known (p := b.streamItemIndex = d.streamIndex ∧ d.Ok) ?_ fun ⟨hindex, hok⟩ => ?_
  · rintro b' ⟨⟨t, h⟩, rfl⟩
    exact ⟨h.streamIndex, h.ok⟩
  refine .pre (P := Shows env d) ?_ fun b hb => hb.1
  rw [hindex]
  rcases hstream : d.streamIndex with _ | k
  · refine .pure ?_
    rintro b ⟨t, h⟩ itemType
    have hsettled : d.settled status itemType = d.quiet itemType := by
      unfold Draft.settled
      rw [hstream]
      cases d.messageIdx <;> rfl
    rw [hsettled]
    exact ⟨t, h.moved rfl rfl ⟨rfl, rfl⟩ ⟨rfl, rfl⟩
      (congrArg (fun c : Cursor => (⟨c.messageIdx, c.afterReport, none, itemType, ""⟩ : Cursor))
        h.cursor) h.blocks
      (h.ok.quiet itemType)⟩
  · obtain ⟨i, hmessage⟩ := Option.isSome_iff_exists.mp (hok.stream k hstream).1
    refine (sealStreamItem_spec hmessage).post fun _ b hb itemType => ?_
    have hsettled : d.settled status itemType = (d.quiet itemType).changed
        (withStatus status) i k := by
      unfold Draft.settled
      rw [hstream, hmessage]
    rw [hsettled]
    exact hb itemType

theorem finishStreamItem_spec {itemType : Option String} :
    Returns (Shows env d) (finishStreamItem env itemType status) fun _ =>
      Shows env (d.finished itemType status) := by
  refine .read_bind fun b => ?_
  refine .known (p := b.streamItemType = d.streamType) ?_ fun htype => ?_
  · rintro b' ⟨⟨t, h⟩, rfl⟩
    exact h.streamType
  refine .pre (P := Shows env d) ?_ fun b hb => hb.1
  rw [htype]
  refine .ite (fun hskip => ?_) fun hfinish => ?_
  · rw [Draft.finished, if_pos hskip]
    exact .pure fun _ h => h
  · rw [Draft.finished, if_neg hfinish]
    exact .bind sealStream_spec fun _ => .write fun b hb => hb none

/-- A stream of a type begins, on a draft of the same Message. -/
theorem beginStreamItem_draft {itemType : String} :
    Returns (Shows env d) (beginStreamItem env itemType) fun _ b =>
    ∃ d', d.Like d' ∧ d'.streamType = some itemType ∧
      (d.streamType ≠ some itemType → d'.streamIndex = none) ∧ Shows env d' b := by
  refine .ite (fun _ => ?_) fun _ => .raise fun _ => trivial
  refine .read_bind fun b => ?_
  refine .known (p := b.streamItemType = d.streamType ∧ d.Ok) ?_ fun ⟨htype, hok⟩ => ?_
  · rintro b' ⟨⟨t, h⟩, rfl⟩
    exact ⟨h.streamType, h.ok⟩
  refine .pre (P := Shows env d) ?_ fun b hb => hb.1
  rw [htype]
  refine .ite (fun hsame => ?_) fun _ => ?_
  · exact .pure fun b hb => ⟨d, .refl d, hsame, fun hother => absurd hsame hother, hb⟩
  · refine .bind finishStreamItem_spec fun _ => .write ?_
    rintro b ⟨t, h⟩
    have hlike := (hok.like_finished none "success").trans (Draft.like_quiet _ (some itemType))
    exact ⟨_, hlike, rfl, fun _ => rfl, t, h.moved rfl rfl ⟨rfl, rfl⟩ ⟨rfl, rfl⟩
      (congrArg (fun c : Cursor => (⟨c.messageIdx, c.afterReport, none, some itemType, ""⟩ :
        Cursor)) h.cursor) h.blocks
      (h.ok.quiet (some itemType))⟩

theorem beginStreamItem_spec {itemType : String} :
    Returns (Shows env d) (beginStreamItem env itemType) fun _ b =>
    ∃ d', d.Like d' ∧ d'.streamType = some itemType ∧ Shows env d' b :=
  beginStreamItem_draft.post fun _ _ ⟨d', hlike, htype, _, h⟩ => ⟨d', hlike, htype, h⟩

/-- Items are written at the end of the Message, and the bridge has put them into its copy. -/
theorem writeItems_spec (f : TurnBridge → TurnBridge) (items : List Fields)
    (hwriter : ∀ b, (f b).writer = b.writer)
    (hassistant : ∀ b, (f b).assistant = b.assistant) (hflags : ∀ b, (f b).started = b.started ∧
      (f b).closed = b.closed)
    {d' : Draft} (hdata : d'.data = (d.pushed i items).data ∧ d'.dataIdx = d.dataIdx)
    (hcursor : ∀ b t, Mirror env d t b → (f b).cursor = d'.toCursor)
    (hblocks : ∀ b t, Mirror env d t b → (f b).assistantBlocks = d'.blocks) (hok : d.Ok → d'.Ok) :
    Returns (fun b => ∃ b₀, Shows env d b₀ ∧ b = f b₀)
      (writeTurn env fun _ => .appendItems (items.map .obj) ((some i).map Nat.cast) true) fun _ =>
        Shows env d' := by
  refine writeTurn_spec (fun _ => rfl) ?_
  rintro b ⟨b₀, ⟨t, h⟩, rfl⟩
  refine ⟨t, (hassistant b₀).trans h.assistant, by rw [hwriter]; exact h.holds,
    fun t' w hwrite hw => ⟨t', ?_⟩⟩
  have ht' := (write_appendItems hwrite).1
  rw [h.selected_eq] at ht'
  exact h.turned ht' hw rfl rfl (hflags b₀) hdata (hcursor b₀ t h) (hblocks b₀ t h) (hok h.ok)

theorem openStreamItem_spec {itemType chunk : String} (hmessage : d.messageIdx = some i)
    (hquiet : d.streamIndex = none) (htype : d.streamType = some itemType)
    (hkind : itemType = "reasoning" ∨ itemType = "text") :
    Returns (Shows env d) (openStreamItem env itemType chunk) fun _ =>
      Shows env (d.streaming i itemType chunk) := by
  refine .bind (R := fun _ b => ∃ b₀, Shows env d b₀ ∧ b = { b₀ with
    streamItemIndex := some b₀.assistantBlocks.length, streamText := chunk
    assistantBlocks := b₀.assistantBlocks ++ [streamItem itemType chunk] })
    (.write fun b hb => ⟨b, hb, rfl⟩) fun _ => ?_
  refine .read_bind fun b => ?_
  refine .known (p := b.assistantMessageIdx = some i) ?_ fun hidx => ?_
  · rintro b' ⟨⟨b₀, ⟨t, h⟩, rfl⟩, rfl⟩
    exact h.messageIdx.trans hmessage
  rw [hidx]
  refine .pre (writeItems_spec (fun b₀ => { b₀ with
    streamItemIndex := some b₀.assistantBlocks.length, streamText := chunk
    assistantBlocks := b₀.assistantBlocks ++ [streamItem itemType chunk] })
    [streamItem itemType chunk]
    (fun _ => rfl) (fun _ => rfl) (fun _ => ⟨rfl, rfl⟩) ⟨rfl, rfl⟩ (fun b t h => ?_)
      (fun b t h => ?_)
    fun hok => hok.streaming hmessage hquiet htype hkind) fun b hb => hb.1
  · simp [cursor, Draft.streaming, Draft.pushed, h.messageIdx, h.afterReport, h.streamType,
      h.blocks]
  · exact (congrArg (· ++ [streamItem itemType chunk]) h.blocks).trans
      (h.ok.blocks_pushed hmessage).symm

theorem growStreamItem_spec {itemType chunk : String} (hmessage : d.messageIdx = some i)
    (hstream : d.streamIndex = some k) (htype : d.streamType = some itemType)
    (hchunk : chunk ≠ "") :
    Returns (Shows env d) (growStreamItem env k itemType chunk) fun _ =>
      Shows env (d.grown i k chunk) := by
  refine .bind (R := fun _ b => ∃ b₀, Shows env d b₀ ∧
    b = { b₀ with streamText := b₀.streamText ++ chunk })
    (.write fun b hb => ⟨b, hb, rfl⟩) fun _ => ?_
  refine .read_bind fun b => ?_
  refine .known (p := b.assistantMessageIdx = some i ∧ b.streamText = d.streamText ++ chunk)
    ?_ fun ⟨hidx, htext⟩ => ?_
  · rintro b' ⟨⟨b₀, ⟨t, h⟩, rfl⟩, rfl⟩
    exact ⟨h.messageIdx.trans hmessage, congrArg (· ++ chunk) h.streamText⟩
  rw [hidx, htext]
  -- the copy is ahead of the Turn here
  refine .bind (R := fun _ b => ∃ b₀ t, Mirror env d t b₀ ∧ k < d.blocks.length ∧ b = { b₀ with
    streamText := d.streamText ++ chunk
    assistantBlocks := b₀.assistantBlocks.modify k fun _ =>
      streamItem itemType (d.streamText ++ chunk) })
    (.pre setBlock_spec ?_) fun _ => ?_
  · rintro b' ⟨⟨b₀, ⟨t, h⟩, rfl⟩, -⟩ hlt
    refine ⟨b₀, t, h, by rw [← h.blocks]; exact hlt, ?_⟩
    rw [h.streamText]
  refine writeTurn_spec (fun _ => rfl) ?_
  rintro b ⟨b₀, t, h, hlt, rfl⟩
  refine ⟨t, h.assistant, h.holds, fun t' w hwrite hw => ⟨t', ?_⟩⟩
  have ht' := (write_appendText hchunk hwrite).1
  rw [h.selected_eq] at ht'
  refine h.turned ht' hw rfl rfl ⟨rfl, rfl⟩ ⟨rfl, rfl⟩ ?_ ?_ (h.ok.grown hmessage hstream htype hlt)
  · simp [cursor, turned, Draft.grown, Draft.changed, h.messageIdx, h.afterReport,
      h.streamIndex, h.streamType]
  · rw [h.ok.blocks_grown hmessage hstream htype hlt, ← h.blocks]
    rfl

/-- The bridge writes a Message. -/
def Writing (env : BridgeEnv) (b : TurnBridge) : Prop :=
  ∃ d, d.messageIdx.isSome = true ∧ Shows env d b

theorem updateStreamItem_spec {itemType chunk : String}
    (hkind : itemType = "reasoning" ∨ itemType = "text") (hchunk : chunk ≠ "") (hlost : ¬ d.Lost) :
    Returns (Shows env d) (updateStreamItem env itemType chunk) fun _ => Writing env := by
  rw [updateStreamItem, if_neg hchunk]
  refine .read_bind fun b => ?_
  refine .bind (R := fun _ b => ∃ d', d.Like d' ∧ d'.streamType = some itemType ∧
    Shows env d' b) ?_ fun _ => ?_
  · refine .whenever (fun _ => .pre beginStreamItem_spec fun b hb => hb.1) fun hsame b' hb' => ?_
    obtain ⟨⟨t, h⟩, rfl⟩ := hb'
    exact ⟨d, .refl d, by simpa [h.streamType] using hsame, t, h⟩
  refine .choose fun d' => ?_
  refine .known (p := d.Like d' ∧ d'.streamType = some itemType)
    (fun b hb => ⟨hb.1, hb.2.1⟩) fun ⟨hlike, htype⟩ => ?_
  refine .bind (.pre (ensureAssistantMessage_spec (hlike.lost.not.mpr hlost)) fun b hb => hb.2.2)
    fun _ => ?_
  obtain ⟨i, hmessage⟩ := d'.opened_message
  obtain ⟨-, htype'⟩ := d'.opened_stream
  rw [htype] at htype'
  refine .read_bind fun b => ?_
  refine .known (p := b.streamItemIndex = d'.opened.streamIndex) ?_ fun hindex => ?_
  · rintro b' ⟨⟨t, h⟩, rfl⟩
    exact h.streamIndex
  refine .pre (P := Shows env d'.opened) ?_ fun b hb => hb.1
  rw [hindex]
  rcases hstream : d'.opened.streamIndex with _ | k
  · refine (openStreamItem_spec hmessage hstream htype' hkind).post fun _ b hb => ⟨_, ?_, hb⟩
    rw [show (d'.opened.streaming i itemType chunk).messageIdx = some i from hmessage]
    rfl
  · refine (growStreamItem_spec hmessage hstream htype' hchunk).post fun _ b hb => ⟨_, ?_, hb⟩
    rw [show (d'.opened.grown i k chunk).messageIdx = some i from hmessage]
    rfl

/-! ## Whole Items -/

theorem recordSealed_spec {sealed : List (Fields × Nat)} (hQ : Traceless Q) :
    Returns Q (recordSealed env i sealed) fun _ => Q :=
  .forEach (I := fun _ => Q)
    (fun _ _ => .whenever (fun _ => recordCompletedItem_spec hQ) fun _ _ h => h) sealed

/-- The bridge writes a Message, and nothing streams. -/
def Written (env : BridgeEnv) (b : TurnBridge) : Prop :=
  ∃ d, d.messageIdx.isSome = true ∧ d.streamIndex = none ∧ Shows env d b

theorem traceless_written : Traceless (Written env) := by
  rintro b trace ⟨d, hsome, hquiet, h⟩
  exact ⟨d, hsome, hquiet, traceless_shows b trace h⟩

theorem Writing.not_lost {b : TurnBridge} (h : Writing env b) : ∃ d, ¬ d.Lost ∧ Shows env d b := by
  obtain ⟨d, hsome, h⟩ := h
  obtain ⟨i, hmessage⟩ := Option.isSome_iff_exists.mp hsome
  exact ⟨d, Draft.not_lost_of_message hmessage, h⟩

theorem Written.writing {b : TurnBridge} (h : Written env b) : Writing env b := by
  obtain ⟨d, hsome, -, h⟩ := h
  exact ⟨d, hsome, h⟩

theorem appendBlocks_spec (hquiet : d.streamIndex = none) (hlost : ¬ d.Lost) :
    Returns (Shows env d) (appendBlocks env items) fun _ => Written env := by
  refine .bind (ensureAssistantMessage_spec hlost) fun _ => ?_
  obtain ⟨i, hmessage⟩ := d.opened_message
  obtain ⟨hquiet', -⟩ := d.opened_stream
  rw [hquiet] at hquiet'
  refine .read_bind fun b => ?_
  refine .known (p := b.assistantMessageIdx = some i) ?_ fun hidx => ?_
  · rintro b' ⟨⟨t, h⟩, rfl⟩
    exact h.messageIdx.trans hmessage
  rw [hidx]
  refine .bind (R := fun _ b => ∃ b₀, Shows env d.opened b₀ ∧
    b = { b₀ with assistantBlocks := b₀.assistantBlocks ++ items })
    (.write fun b hb => ⟨b, hb.1, rfl⟩) fun _ => ?_
  refine .bind (R := fun _ => Written env) ?_ fun _ => recordSealed_spec traceless_written
  refine (writeItems_spec (fun b₀ => { b₀ with assistantBlocks := b₀.assistantBlocks ++ items })
    items (fun _ => rfl)
    (fun _ => rfl) (fun _ => ⟨rfl, rfl⟩) ⟨rfl, rfl⟩ (fun b t h => h.cursor) (fun b t h => ?_)
    fun hok => hok.pushed hquiet').post fun _ b hb => ⟨d.opened.pushed i items, ?_, hquiet', hb⟩
  · exact (congrArg (· ++ items) h.blocks).trans (h.ok.blocks_pushed hmessage).symm
  · rw [show (d.opened.pushed i items).messageIdx = some i from hmessage]
    rfl

theorem appendItem_spec {item : Fields} (hlost : ¬ d.Lost) :
    Returns (Shows env d) (appendItem env item) fun _ => Written env := by
  refine .known (p := d.Ok) (fun b ⟨t, h⟩ => h.ok) fun hok => ?_
  exact .bind finishStreamItem_spec fun _ => appendBlocks_spec (hok.finished_quiet "success").1
    ((hok.like_finished none "success").lost.not.mpr hlost)

theorem appendItems_spec (hlost : ¬ d.Lost) :
    Returns (Shows env d) (appendItems env items) fun _ b =>
    ∃ d', ¬ d'.Lost ∧ Shows env d' b := by
  refine .known (p := d.Ok) (fun b ⟨t, h⟩ => h.ok) fun hok => ?_
  have hlost' := (hok.like_finished none "success").lost.not.mpr hlost
  refine .bind finishStreamItem_spec fun _ => .whenever (fun _ => ?_) fun _ b hb => ⟨_, hlost', hb⟩
  exact (appendBlocks_spec (hok.finished_quiet "success").1 hlost').post fun _ b hb =>
    hb.writing.not_lost

/-! ## After a report -/

/-- After a report the answer goes on in a new Message, so that no draft is lost. -/
theorem startAssistantAfterReport_draft :
    Returns (Shows env d) (startAssistantAfterReport env) fun _ b =>
    ∃ d', ¬ d'.Lost ∧ d'.streamType = d.streamType ∧ Shows env d' b := by
  refine .read_bind fun b => ?_
  refine .known (p := b.assistantAfterReport = d.afterReport ∧ d.Ok) ?_ fun ⟨hafter, hok⟩ => ?_
  · rintro b' ⟨⟨t, h⟩, rfl⟩
    exact ⟨h.afterReport, h.ok⟩
  refine .pre (P := Shows env d) ?_ fun b hb => hb.1
  rw [hafter]
  refine .ite (fun _ => ?_) fun hnot => .pure fun b hb => ⟨d, ?_, rfl, hb⟩
  · refine .bind (R := fun s b => ∃ t, Mirror env d t b ∧ t.val = s)
      (currentTurn_spec fun b ⟨t, h⟩ => ⟨t, h.assistant, h.holds, t, h, rfl⟩) fun s => ?_
    refine .bind openMessage_spec fun _ => ?_
    refine .bind (R := fun _ b => Shows env (d.fresh false)
      { b with assistantBlocks := [], assistantAfterReport := false })
      (.pre takeLastMessage_spec fun b hb s hs => shows_fresh hb hs) fun _ => ?_
    refine .bind (R := fun _ b => Shows env (d.fresh false)
      { b with assistantAfterReport := false })
      (.write fun b hb => hb) fun _ => .write fun b hb => ⟨d.fresh false, ?_, rfl, hb⟩
    exact Draft.not_lost_of_message (i := d.version.length) rfl
  · rintro ⟨hnone, htail⟩
    rcases hok.between hnone with huser | hreport
    · exact htail huser
    · exact hnot hreport

theorem startAssistantAfterReport_spec :
    Returns (Shows env d) (startAssistantAfterReport env) fun _ b =>
    ∃ d', ¬ d'.Lost ∧ Shows env d' b :=
  startAssistantAfterReport_draft.post fun _ _ ⟨d', hlost, _, h⟩ => ⟨d', hlost, h⟩

end TurnBridge

end MiniAgent.Bridge
