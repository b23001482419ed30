import MiniAgent.Bridge.Mirror

/-!
# Runs of the bridge

Every event that a bridge handles without an error moves it from a draft to a draft, as long as no
Item is written on a lost one. So the copy of the Message is the Message in every state of such a
run (`copy_faithful`).
-/

namespace MiniAgent.Bridge

open Lib Turn Provider Store NodeWriter

namespace TurnBridge

variable {env : BridgeEnv} {d : Draft} {Q : TurnBridge → Prop} {i k : Nat} {status callId : String}

/-! ## Items that change -/

section Places

variable {α β : Type} {f : α → Option β} {l : List α} {b : β}

theorem findLast_eq_some (h : findLast f l = some (i, b)) : ∃ a, l[i]? = some a ∧ f a = some b := by
  obtain ⟨⟨a, j⟩, hmem, hfound⟩ := List.exists_of_findSome?_eq_some h
  obtain ⟨b', hb', heq⟩ := Option.map_eq_some_iff.mp hfound
  cases heq
  exact ⟨a, List.mem_zipIdx_iff_getElem?.mp (List.mem_reverse.mp hmem), hb'⟩

theorem findCall_eq_some {version : List Fields} {item : Fields}
    (h : findCall callId version = some (i, k, item)) :
    ∃ m, version[i]? = some m ∧ (messageItems m)[k]? = some item ∧ isCall callId item = true := by
  obtain ⟨m, hm, hfound⟩ := findLast_eq_some h
  split at hfound
  · obtain ⟨item', hitem, hcall⟩ := findLast_eq_some hfound
    split at hcall
    · next his =>
      obtain rfl := Option.some.inj hcall
      exact ⟨m, hm, hitem, his⟩
    · cases hcall
  · cases hfound

end Places

/-- An Item that streams has no other type. -/
theorem not_streaming {item : Fields} (itemType : String) (hok : d.Ok)
    (hitem : d.blocks[k]? = some item) (htype : hasType item [itemType] = true)
    (hother : itemType ≠ "reasoning" ∧ itemType ≠ "text") :
    d.streamIndex ≠ some k := by
  intro hstream
  obtain ⟨-, streamType, -, hkind, hstreams⟩ := hok.stream k hstream
  have heq := Option.some.inj (hitem.symm.trans (hstreams (List.getElem?_eq_some_iff.mp hitem).1))
  rw [heq] at htype
  have htype' : streamType = itemType := by simpa [hasType, streamItem, Fields.get_cons] using htype
  rcases hkind with rfl | rfl
  · exact hother.1 htype'.symm
  · exact hother.2 htype'.symm

/-- The bridge shows a draft of the same Messages. -/
def ShowsLike (env : BridgeEnv) (d : Draft) (b : TurnBridge) : Prop :=
  ∃ d', d.Like d' ∧ Shows env d' b

theorem changeStatus_spec (hne : d.messageIdx = some i → d.streamIndex ≠ some k) :
    Returns (Shows env d) (changeStatus env i k status) fun _ =>
      Shows env (d.changed (withStatus status) i k) := by
  refine .bind (setItemStatus_spec fun _ => rfl) fun _ => ?_
  refine .bind (R := fun _ => Shows env (d.changed (withStatus status) i k))
    (.write fun b hb => ?_) fun _ =>
    recordCompletedItem_spec traceless_shows
  have hok := hb.ok.changed (f := withStatus status) hne
  have hblocks := hb.ok.blocks_changed (i := i) (k := k) (f := withStatus status)
  have hidx : b.assistantMessageIdx = d.messageIdx := congrArg Cursor.messageIdx hb.cursor
  split
  · next hcurrent =>
    rw [hidx] at hcurrent
    refine hb.shows rfl rfl ⟨rfl, rfl⟩ ⟨rfl, rfl⟩ hb.cursor ?_ hok
    rw [hblocks, if_pos hcurrent, ← hb.blocks]
  · next hcurrent =>
    rw [hidx] at hcurrent
    refine hb.shows rfl rfl ⟨rfl, rfl⟩ ⟨rfl, rfl⟩ hb.cursor ?_ hok
    rw [hblocks, if_neg hcurrent, ← hb.blocks]

theorem setToolCallStatus_spec :
    Returns (Shows env d) (setToolCallStatus env callId status) fun _ => ShowsLike env d := by
  refine .read_bind fun b => ?_
  refine .known (p := ∃ t, Mirror env d t b) ?_ fun ⟨t, hm⟩ => ?_
  · rintro b' ⟨h, rfl⟩
    exact h
  refine .pre (P := Shows env d) ?_ fun b hb => hb.1
  rw [hm.assistant, Option.bind_some, hm.selected_eq]
  split
  · exact .pure fun b h => ⟨d, .refl d, h⟩
  · next messageIdx itemIdx item hfound =>
    refine .ite (fun _ => .pure fun b h => ⟨d, .refl d, h⟩) fun _ => ?_
    obtain ⟨m, hmessage, hitem, hcall⟩ := findCall_eq_some hfound
    refine (changeStatus_spec fun hidx => ?_).post fun _ b h => ⟨_, hm.ok.like_changed, h⟩
    have hblock : d.blocks[itemIdx]? = some item := by
      rw [Draft.blocks_of_message hidx, hmessage]
      exact hitem
    exact not_streaming "tool_call" hm.ok hblock (Bool.and_eq_true_iff.mp hcall).1 (by decide)

theorem settleRunningRetry_spec :
    Returns (Shows env d) (settleRunningRetry env) fun _ => ShowsLike env d := by
  refine .read_bind fun b => ?_
  refine .known (p := ∃ t, Mirror env d t b) ?_ fun ⟨t, hm⟩ => ?_
  · rintro b' ⟨h, rfl⟩
    exact h
  refine .pre (P := Shows env d) ?_ fun b hb => hb.1
  rw [hm.messageIdx, hm.blocks]
  split
  · next i itemIdx item hidx hfound =>
    obtain ⟨item', hitem, hretry⟩ := findLast_eq_some hfound
    split at hretry
    · next hretry' =>
      have hne := not_streaming "retry" hm.ok hitem (Bool.and_eq_true_iff.mp hretry').1 (by decide)
      refine .bind (setItemStatus_spec fun _ => rfl) fun _ => ?_
      refine .bind (R := fun _ => Shows env (d.changed (withStatus "success") i itemIdx))
        (.pre setBlock_spec fun b hb _ => ?_) fun _ =>
        (recordCompletedItem_spec traceless_shows).post fun _ b h => ⟨_, hm.ok.like_changed, h⟩
      refine hb.shows rfl rfl ⟨rfl, rfl⟩ ⟨rfl, rfl⟩ hb.cursor ?_ (hm.ok.changed fun _ => hne)
      rw [hm.ok.blocks_changed, if_pos hidx, ← hb.blocks]
    · cases hretry
  · exact .pure fun b h => ⟨d, .refl d, h⟩

theorem settleRunningItems_spec (hquiet : d.streamIndex = none) :
    Returns (Shows env d) (settleRunningItems env status) fun _ => ShowsLike env d := by
  refine .read_bind fun b => ?_
  refine .pre (P := Shows env d) ?_ fun b hb => hb.1
  split
  · exact .pure fun b h => ⟨d, .refl d, h⟩
  · next t _ =>
    refine .pre (P := fun b => ∃ d', d.Like d' ∧ d'.streamIndex = none ∧
      Shows env d' b) ?_ fun b h =>
      ⟨d, .refl d, hquiet, h⟩
    refine (Call.Spec.forEach (I := fun _ b => ∃ d', d.Like d' ∧ d'.streamIndex = none ∧
      Shows env d' b)
      (fun p l => ?_) (runningPlaces (selected t))).post fun _ b h => ?_
    · refine .choose fun d' => ?_
      refine .known (p := d.Like d' ∧ d'.streamIndex = none ∧ d'.Ok) ?_
        fun ⟨hlike, hquiet', hok⟩ => ?_
      · rintro b ⟨hlike, hquiet', t, h⟩
        exact ⟨hlike, hquiet', h.ok⟩
      refine .pre ((changeStatus_spec fun _ => by rw [hquiet']; nofun).post fun _ b h => ?_)
        fun b h => h.2.2
      exact ⟨_, hlike.trans hok.like_changed, hquiet', h⟩
    · obtain ⟨d', hlike, -, h⟩ := h
      exact ⟨d', hlike, h⟩

/-! ## Messages of events -/

/-- A Message of its own, before the bridge follows. -/
theorem appendWhole_spec {m : Fields} (hm : ∃ l, m.get "content" = some (.arr l)) :
    Returns (Shows env d) (appendWhole env m) fun _ => Turned env d (d.version ++ [m]) := by
  refine .bind (R := fun _ => Turned env d (d.version ++ [m]))
    (writeTurn_spec (fun _ => rfl) ?_) fun _ => ?_
  · rintro b ⟨t, h⟩
    refine ⟨t, h.assistant, h.holds, fun t' w hwrite hw => ⟨t, t', b, w, h, ?_, hw, rfl⟩⟩
    rw [← h.selected_eq]
    exact write_appendMessage hm hwrite
  · exact .bind activeTurn_some fun t => .pre (recordCompletedItem_spec traceless_turned)
      fun b h => h.1

theorem appendSubagentReport_spec {data : Fields} :
    Returns (Shows env d) (appendSubagentReport env data) fun _ b =>
    ∃ d', Shows env d' b := by
  refine .ite (fun _ => .raise fun _ => trivial) fun _ => ?_
  refine .known (p := d.Ok) (fun b ⟨t, h⟩ => h.ok) fun hok => ?_
  refine .bind finishStreamItem_spec fun _ => .bind activeTurn_some fun t => ?_
  refine .pre (P := Shows env (d.finished none "success")) ?_ fun b hb => hb.1
  refine .ite (fun _ => .pure fun b h => ⟨_, h⟩) fun _ => ?_
  refine .bind (appendWhole_spec ⟨_, rfl⟩) fun _ => .write fun b hb => ?_
  refine ⟨(d.finished none "success").reported _,
    hb.shows rfl rfl ⟨rfl, rfl⟩ ⟨rfl, rfl⟩ ?_ ?_ (hb.ok.reported (hok.finished_quiet "success").1)⟩
  · exact congrArg (fun c : Cursor => { c with afterReport := true }) hb.cursor
  · exact hb.blocks.trans hb.ok.blocks_appended.symm

theorem roleOf_userMessageOf (item : Fields) (deliveryId : String) :
    roleOf (userMessageOf item deliveryId) = some (.str "user") := rfl

theorem content_userMessageOf (item : Fields) (deliveryId : String) :
    (userMessageOf item deliveryId).get "content" = some (itemsJson [item]) := by
  simp [userMessageOf, Fields.get_cons]

theorem appendSteeringMessage_spec {data : Fields} :
    Returns (Shows env d) (appendSteeringMessage env data) fun _ b =>
    ∃ d', Shows env d' b := by
  refine .ite (fun _ => .pure fun b h => ⟨d, h⟩) fun _ => ?_
  refine .known (p := d.Ok) (fun b ⟨t, h⟩ => h.ok) fun hok => ?_
  refine .bind finishStreamItem_spec fun _ => .bind activeTurn_some fun t => ?_
  refine .pre (P := Shows env (d.finished none "success")) ?_ fun b hb => hb.1
  refine .ite (fun _ => .pure fun b h => ⟨_, h⟩) fun _ => ?_
  refine .bind (appendWhole_spec ⟨_, content_userMessageOf _ _⟩) fun _ => ?_
  refine .bind (R := fun _ b => ∃ d', Shows env d' { b with assistantMessageIdx := none })
    (.write fun b hb => ?_) fun _ =>
    .write fun b hb => hb
  refine ⟨(d.finished none "success").steered _, hb.shows rfl rfl ⟨rfl, rfl⟩ ⟨rfl, rfl⟩ ?_ ?_
    (hb.ok.steered (hok.finished_quiet "success").1 (roleOf_userMessageOf _ _))⟩
  · exact congrArg (fun c : Cursor => { c with messageIdx := none }) hb.cursor
  · rfl

/-! ## Settings -/

/-- A write beside the data. -/
theorem writeBeside_spec {s : RuntimeState} {changes : Fields}
    (hdata : ∀ p ∈ changes, wireName (attributeName p.1) ≠ "data")
    (hidx : ∀ p ∈ changes, wireName (attributeName p.1) ≠ "current_data_idx") :
    Returns (fun b => ∃ t, Mirror env d t b ∧ t.val = s)
      (writeOn env s (.updateConfig changes)) fun _ => Shows env d := by
  refine writeOn_spec rfl ?_
  rintro b ⟨t, h, rfl⟩
  refine ⟨t, rfl, h.holds, fun t' w hwrite hw => ⟨t', ?_⟩⟩
  obtain ⟨hsame, hsame'⟩ := write_updateConfig hdata hidx hwrite
  exact { h with
    holds := hw, assistant := rfl, data := hsame.trans h.data, dataIdx := hsame'.trans h.dataIdx }

theorem applyUsage_spec {usage : Fields} :
    Returns (Shows env d) (applyUsage env usage) fun _ => Shows env d := by
  refine .read_bind fun b => ?_
  refine .pre (P := Shows env d) ?_ fun b hb => hb.1
  split
  · exact .pure fun b h => h
  · refine .bind (R := fun s b => ∃ t, Mirror env d t b ∧ t.val = s)
      (currentTurn_spec fun b ⟨t, h⟩ => ⟨t, h.assistant, h.holds, t, h, rfl⟩) fun s => ?_
    refine writeBeside_spec ?_ ?_ <;> simp [attributeName, wireName]

theorem applyRuntimeConfig_ok {config : Fields} {part part' : RuntimeEventNodeBridge}
    {out : Option RuntimeState}
    {t : ValidTurn env.writer.host} (hassistant : part.assistant = some t.val)
    (hholds : Holds env.writer part.writer t)
    (h : RuntimeEventNodeBridge.applyRuntimeConfig env.writer env.dec config part =
      (.ok out, part')) :
    ∃ t' : ValidTurn env.writer.host, (t'.val.data = t.val.data ∧
      t'.val.currentDataIdx = t.val.currentDataIdx ∧
      t'.val.key = t.val.key) ∧ Holds env.writer part'.writer t' ∧
      part'.assistant = some t'.val := by
  simp only [RuntimeEventNodeBridge.applyRuntimeConfig, RuntimeEventNodeBridge.takeOver,
    Call.bind_ok, Call.read_ok,
    Call.ofExcept_ok] at h
  obtain ⟨s, _, ⟨rfl, rfl⟩, ⟨⟩, _, ⟨-, rfl⟩, ⟨⟩, taken, htaken, assistant, _, ⟨rfl, rfl⟩, h⟩ := h
  obtain rfl := Call.write_ok.mp htaken
  dsimp only at h
  rw [hassistant] at h
  simp only [Call.bind_ok] at h
  obtain ⟨t₁, b₁, hupdate, ⟨⟩, b₂, hset, ⟨⟩, b₃, hqueue, hlast⟩ := h
  obtain rfl := Call.write_ok.mp hset
  obtain rfl := Call.write_ok.mp hqueue
  obtain ⟨-, rfl⟩ := Call.pure_ok.mp hlast
  have hperform : WriterCall.perform env.writer t.val.key (.updateConfig
      (RuntimeEventNodeBridge.merged env.dec config part).changes) part.writer =
        (.ok t₁, b₁.writer) := by
    have hresult := congrArg Prod.fst hupdate
    have hwriter := congrArg (fun r => r.2.writer) hupdate
    exact Prod.ext hresult hwriter
  obtain ⟨t', hwrite, rfl, hholds'⟩ := perform_of_holds env.emits hholds rfl hperform
  obtain ⟨hdata, hidx⟩ :=
    write_updateConfig (by simp [RuntimeEventNodeBridge.Settings.changes, attributeName, wireName])
    (by simp [RuntimeEventNodeBridge.Settings.changes, attributeName, wireName]) hwrite
  exact ⟨t', ⟨hdata, hidx, write_key hwrite⟩, hholds', rfl⟩

theorem applyConfig_spec {config : Fields} :
    Returns (Shows env d) (applyConfig env config) fun _ => Shows env d := by
  refine .bind (R := fun _ => Shows env d) (.onPart ?_ fun _ _ _ _ _ => trivial) fun _ =>
    .pure fun _ h => h
  rintro b out part ⟨t, h⟩ hx
  obtain ⟨t', ⟨hdata, hidx, -⟩, hholds, hassistant⟩ := applyRuntimeConfig_ok h.assistant h.holds hx
  exact ⟨t', { h with
    holds := hholds, assistant := hassistant, data := hdata.trans h.data,
    dataIdx := hidx.trans h.dataIdx }⟩

theorem applyEventConfig_spec {data : Fields} :
    Returns (Shows env d) (applyEventConfig env data) fun _ => Shows env d := by
  unfold applyEventConfig
  split
  · exact applyConfig_spec
  · exact .pure fun _ h => h

theorem applyEventUsage_spec {data : Fields} :
    Returns (Shows env d) (applyEventUsage env data) fun _ => Shows env d := by
  unfold applyEventUsage
  split
  · exact applyUsage_spec
  · exact .pure fun _ h => h

/-! ## The end of a Turn -/

/-- **The copy of the Message is the Message**, in the Turn that the writer has, and the Item that
streams is where the index says. -/
structure Faithful (env : BridgeEnv) (b : TurnBridge) : Prop where
  message : ∀ i, b.assistantMessageIdx = some i → ∃ t cur m, b.assistant = some t ∧
    (NodeWriter.current env.writer t.key b.writer).1 = .ok cur ∧ (selected cur)[i]? = some m ∧
    m.get "content" = some (itemsJson b.assistantBlocks)
  stream : ∀ k, b.streamItemIndex = some k → k < b.assistantBlocks.length →
    ∃ itemType, b.streamItemType = some itemType ∧
    b.assistantBlocks[k]? = some (streamItem itemType b.streamText)

/-- The Turn has ended; no event changes it any more. -/
structure Ended (env : BridgeEnv) (b : TurnBridge) : Prop where
  closed : b.closed = true
  faithful : Faithful env b

/-- What every state of a run is. -/
def Good (env : BridgeEnv) (b : TurnBridge) : Prop := (∃ d, Shows env d b) ∨ Ended env b

theorem faithful_of_mirror {b b' : TurnBridge} {t t' : ValidTurn env.writer.host}
    {s : RuntimeState} (h : Mirror env d t b) (hassistant : b'.assistant = some s)
    (hcurrent : (NodeWriter.current env.writer s.key b'.writer).1 = .ok t'.val)
    (hdata : t'.val.data = t.val.data ∧ t'.val.currentDataIdx = t.val.currentDataIdx)
    (hcursor : b'.cursor = b.cursor) (hblocks : b'.assistantBlocks = b.assistantBlocks) :
    Faithful env b' where
  message i hi := by
    have hi' : d.messageIdx = some i :=
      (congrArg Cursor.messageIdx (hcursor.trans h.cursor)).symm.trans hi
    obtain ⟨m, hm, -⟩ := h.ok.message i hi'
    have hselected : selected t'.val = d.version := by
      rw [selected, hdata.1, hdata.2]; exact h.selected_eq
    refine ⟨s, t'.val, m, hassistant, hcurrent, by rw [hselected, hm], ?_⟩
    rw [content_selected t' (by rw [hselected, hm]), hblocks, h.blocks,
      Draft.blocks_of_message hi', hm]
    rfl
  stream k hk hlt := by
    have hcursor' := hcursor.trans h.cursor
    have hk' : d.streamIndex = some k := (congrArg Cursor.streamIndex hcursor').symm.trans hk
    obtain ⟨-, itemType, htype, -, hitem⟩ := h.ok.stream k hk'
    rw [hblocks, h.blocks] at hlt ⊢
    refine ⟨itemType, (congrArg Cursor.streamType hcursor').trans htype, ?_⟩
    rw [hitem hlt, show b'.streamText = d.streamText from congrArg Cursor.streamText hcursor']

theorem Shows.faithful {b : TurnBridge} (h : Shows env d b) : Faithful env b := by
  obtain ⟨t, h⟩ := h
  exact faithful_of_mirror h h.assistant (congrArg Prod.fst h.holds.current) ⟨rfl, rfl⟩ rfl rfl

theorem Good.faithful {b : TurnBridge} (h : Good env b) : Faithful env b := by
  rcases h with ⟨d, h⟩ | h
  · exact Shows.faithful h
  · exact h.faithful

theorem current_of_store {wenv : WriterEnv} {w : NodeWriter} {key : Key} {value : RuntimeState}
    (hwf : value.Wf wenv.host) (hdynamic : w.dynamic key = none)
    (hstore : w.store key = some (.turn value)) :
    NodeWriter.current wenv key w = (.ok value, w) := by
  simp only [NodeWriter.current, Call.bind_of_ok (show Call.read id w = (.ok w, w) from rfl),
    hdynamic, hstore]
  rw [RuntimeState.clone_eq hwf]
  rfl

/-- What a Turn of every status but `running` is. -/
def Sealable {host : Host} (t : ValidTurn host) : Prop :=
  endsWithAssistant t.val.data = true ∧ hasRunningItem t.val.data = false

theorem status_members (t : RuntimeState) (nodeStatus : NodeStatus) :
    t.toDict.set "status" (.str nodeStatus.text) = { t with status := nodeStatus }.toDict := by
  simp [RuntimeState.toDict, RuntimeState.configFields, Fields.set]

theorem sealed_wf {host : Host} {t : ValidTurn host} (h : Sealable t) (nodeStatus : NodeStatus) :
    RuntimeState.Wf host { t.val with status := nodeStatus } :=
  { t.property with
    ends := fun _ => h.1
    settled := fun _ => h.2 }

theorem fromDict_sealed {host : Host} {t : ValidTurn host} {nodeStatus : NodeStatus}
    {value : RuntimeState}
    (h : RuntimeState.fromDict host (.obj (t.val.toDict.set "status" (.str nodeStatus.text))) =
      .ok value) :
    value = { t.val with status := nodeStatus } := by
  obtain ⟨hdata, -⟩ := fromDict_status (t := t) h
  rw [status_members] at h
  have hvalue := RuntimeState.fromDict_eq (s := { t.val with status := nodeStatus })
    t.property.compactionId t.property.cwd
    t.property.projectCwd t.property.model h
  rw [hdata] at hvalue
  exact hvalue

/-- **What the last call does**: nothing, or the Turn gets its status and the store refuses it, or
the store has it. -/
theorem finalize_cases {t : ValidTurn env.writer.host} {nodeStatus : NodeStatus}
    {w w' : NodeWriter} {r : Except Err RuntimeState} (hw : Holds env.writer w t)
    (h : (WriterCall.finalize nodeStatus.text).perform env.writer t.val.key w = (r, w')) :
    ((nodeStatus = .running ∨ ¬ Sealable t) ∧ w' = w ∧ ∀ out, r ≠ .ok out) ∨
      ∃ value : ValidTurn env.writer.host, value.val = { t.val with status := nodeStatus } ∧
        ((w' = w.kept value.val ∧ (∀ out, r ≠ .ok out) ∧
          env.writer.updateRefusal w.store value.val ≠ none) ∨
          (r = .ok value.val ∧ w'.dynamic t.val.key = none ∧
            w'.store t.val.key = some (.turn value.val))) := by
  rw [WriterCall.perform_eq hw.current] at h
  by_cases hstatus : nodeStatus = .running
  · have hraise : ((WriterCall.finalize nodeStatus.text).edit t.val >>=
        commitEdit env.writer t.val) w =
        (.error (.validation "A finalized Turn cannot remain running."), w) := by
      rw [hstatus]
      rfl
    rw [hraise] at h
    cases h
    exact .inl ⟨.inl hstatus, rfl, fun _ => by simp⟩
  · have hne : nodeStatus.text ≠ "running" := fun htext => hstatus
      (Option.some.inj ((NodeStatus.ofText_text nodeStatus).symm.trans
        (congrArg NodeStatus.ofText htext)))
    have hedit : (WriterCall.finalize nodeStatus.text).edit t.val w =
        (.ok (some ⟨t.val.toDict.set "status" (.str nodeStatus.text),
        fun _ => [("status", .str nodeStatus.text)], [], true, true⟩), w) := by
      rw [WriterCall.edit, if_neg hne]
      rfl
    rw [Call.bind_of_ok hedit, commitEdit] at h
    rcases commit_cases env.writer w _ with
      ⟨err, hcommit, hnone⟩ | ⟨value, hvalue,
        ⟨err, hcommit, hblocked⟩ | ⟨⟨out, w₁, hcommit⟩, -⟩⟩ <;> cases hcommit.symm.trans h
    · refine .inl ⟨.inr fun hsealable => ?_, rfl, fun _ => by simp⟩
      refine hnone { t.val with status := nodeStatus } ?_
      rw [status_members]
      exact RuntimeState.fromDict_toDict (sealed_wf hsealable nodeStatus)
    · refine .inr ⟨⟨value, RuntimeState.fromDict_wf hvalue⟩, fromDict_sealed hvalue,
        .inl ⟨rfl, fun _ => by simp, ?_⟩⟩
      obtain ⟨-, -, hbaseline⟩ | ⟨-, e, hrefused⟩ := hblocked
      · rw [edit_key hedit hvalue] at hbaseline
        exact absurd hbaseline hw.baseline
      · rw [hrefused]
        exact Option.some_ne_none e
    · obtain ⟨hout, hdynamic, hstore, -⟩ := commit_ok env.emits hcommit
      have hkey := edit_key hedit hout
      refine .inr ⟨⟨out, RuntimeState.fromDict_wf hout⟩, fromDict_sealed hout, .inr ⟨rfl, ?_, ?_⟩⟩
      · simp [hdynamic, hkey]
      · rw [← hkey]
        exact hstore rfl

/-- The last call leaves the data of the Turn, also where it fails. -/
theorem finalize_current {t : ValidTurn env.writer.host} {nodeStatus : NodeStatus}
    {w w' : NodeWriter} {r : Except Err RuntimeState} (hw : Holds env.writer w t)
    (h : (WriterCall.finalize nodeStatus.text).perform env.writer t.val.key w = (r, w')) :
    ∃ t' : ValidTurn env.writer.host, (t'.val.data = t.val.data ∧
      t'.val.currentDataIdx = t.val.currentDataIdx) ∧
      (NodeWriter.current env.writer t.val.key w').1 = .ok t'.val ∧ ∀ out, r = .ok out →
        out = t'.val ∧ out.key = t.val.key := by
  obtain ⟨-, rfl, hnone⟩ | ⟨value, hvalue, ⟨rfl, hnone, -⟩ | ⟨rfl, hdynamic, hstore⟩⟩ :=
    finalize_cases hw h
  · exact ⟨t, ⟨rfl, rfl⟩, congrArg Prod.fst hw.current, fun out hout => absurd hout (hnone out)⟩
  · have hkey : value.val.key = t.val.key := by rw [hvalue]; rfl
    refine ⟨value, by rw [hvalue]; exact ⟨rfl, rfl⟩, ?_, fun out hout => absurd hout (hnone out)⟩
    rw [current_of_dynamic value.property (by simp [NodeWriter.kept, hkey])]
  · refine ⟨value, by rw [hvalue]; exact ⟨rfl, rfl⟩, ?_, ?_⟩
    · rw [current_of_store value.property hdynamic hstore]
    · rintro _ ⟨⟩
      exact ⟨rfl, by rw [hvalue]; rfl⟩

theorem writeTurn_result {b : TurnBridge} {t : RuntimeState} {call : RuntimeState → WriterCall}
    {r : Except Err RuntimeState} {w : NodeWriter} (ht : b.assistant = some t)
    (h : (call t).perform env.writer t.key b.writer = (r, w)) :
    writeTurn env call b = match r with
      | .ok out => (.ok (), b.turned out w)
      | .error e => (.error (.turn e), { b with writer := w }) := by
  have hactive : activeTurn b = (.ok t, b) := by
    rw [activeTurn, Call.bind_of_ok (show Call.read id b = (.ok b, b) from rfl), ht]
    rfl
  rw [writeTurn, Call.bind_of_ok hactive, writeOn, onWriter]
  rcases r with e | out
  · exact Call.bind_of_error (by simp only [Call.onPart, h])
  · rw [Call.bind_of_ok (show Call.onPart _ _ _ _ b = (.ok out, { b with writer := w }) by
      simp only [Call.onPart, h])]
    rfl

theorem sealTurn_spec {nodeStatus : NodeStatus} :
    Returns (Shows env d) (sealTurn env nodeStatus) fun _ => Ended env := by
  have hkept : ∀ b b' x, Shows env d b → writeTurn env (fun _ => .finalize nodeStatus.text) b =
      (x, b') →
      Faithful env b' := by
    rintro b b' x ⟨t, h⟩ hx
    rcases hp : (WriterCall.finalize nodeStatus.text).perform env.writer
      t.val.key b.writer with ⟨r, w⟩
    obtain ⟨t', hdata, hcurrent, hout⟩ := finalize_current h.holds hp
    rw [writeTurn_result h.assistant hp] at hx
    rcases r with e | out
    · cases hx
      exact faithful_of_mirror h h.assistant hcurrent hdata rfl rfl
    · obtain ⟨hsame, hkey⟩ := hout out rfl
      cases hx
      rw [← hkey] at hcurrent
      exact faithful_of_mirror h rfl hcurrent hdata rfl rfl
  exact .bind (R := fun _ => Faithful env)
    (.attempt (fun b _ b' h hx => hkept b b' _ h hx) fun b _ b' h hx =>
    hkept b b' _ h hx) fun _ => .write fun b h => ⟨rfl, h.message, h.stream⟩

theorem appendTerminalError_spec {category message code : String} {retryable : Bool}
    (hlost : ¬ d.Lost) :
    Returns (Shows env d) (appendTerminalError env category message retryable code) fun _ =>
      Written env :=
  .bind (R := fun _ => Shows env d) (.ofExcept (fun _ _ _ h => h) fun _ _ => trivial) fun _ =>
    appendItem_spec hlost

/-- **The end of a Turn.** -/
theorem finish_spec {nodeStatus : NodeStatus} {finalAnswer code : String}
    {category : Option String} (hlost : ¬ d.Lost) :
    Returns (Shows env d) (finish env nodeStatus finalAnswer category code) fun _ => Ended env := by
  refine .read_bind fun b => ?_
  refine .known (p := b.closed = false) ?_ fun hclosed => ?_
  · rintro b' ⟨⟨t, h⟩, rfl⟩
    exact h.closed
  refine .pre (P := Shows env d) ?_ fun b hb => hb.1
  rw [hclosed]
  refine .ite nofun fun _ => .ite (fun _ => .raise fun _ => trivial) fun _ => ?_
  refine .known (p := d.Ok) (fun b ⟨t, h⟩ => h.ok) fun hok => ?_
  refine .bind (ensureAssistantMessage_spec hlost) fun _ => .bind finishStreamItem_spec fun _ =>
    .read_bind fun b => ?_
  obtain ⟨i, hmessage⟩ := d.opened_message
  have hlike := hok.opened.like_finished none (settledStatus nodeStatus)
  have hwritten : ∀ b, Shows env (d.opened.finished none (settledStatus nodeStatus)) b →
      Written env b := fun b h =>
    ⟨_, by rw [hlike.messageIdx, hmessage]; rfl, (hok.opened.finished_quiet _).1, h⟩
  -- every Item that is written finds the Message
  refine .bind (R := fun _ => Written env) (.whenever (fun _ => ?_) fun _ b h => hwritten b h.1)
    fun _ => ?_
  · exact .pre (appendItem_spec (Draft.not_lost_of_message (hlike.messageIdx.trans hmessage)))
      fun b h => h.1
  refine .bind (R := fun _ => Writing env) ?_ fun _ => ?_
  · refine .choose fun d₁ => .known (p := d₁.messageIdx.isSome = true ∧ d₁.streamIndex = none)
      (fun b h => ⟨h.1, h.2.1⟩) ?_
    rintro ⟨hsome, hquiet⟩
    refine .pre ((settleRunningItems_spec hquiet).post fun _ b hb => ?_) fun b h => h.2.2
    obtain ⟨d₂, hlike₂, h⟩ := hb
    exact ⟨d₂, by rw [hlike₂.messageIdx]; exact hsome, h⟩
  refine .bind (R := fun _ => Writing env) (.whenever (fun _ => ?_) fun _ b h => h) fun _ => ?_
  · refine .pre (.choose fun d₁ => .known (p := ¬ d₁.Lost) (fun b h => h.1) fun hlost₁ => ?_)
      fun b h => h.not_lost
    exact .pre ((appendTerminalError_spec hlost₁).post fun _ b h => h.writing) fun b h => h.2
  · exact .choose fun d₁ => .pre sealTurn_spec fun b h => h.2

/-! ## Turns that are taken over -/

theorem baseline_out {wenv : WriterEnv} {base : Baseline} {turn out : RuntimeState}
    {w w' : NodeWriter} (hwf : turn.Wf wenv.host) (h : base.perform wenv turn w = (.ok out, w')) :
    out = turn := by
  have hlast : Call.ofExcept (turn.clone wenv.host) w' = (.ok out, w') → out = turn := fun hclone =>
    Except.ok.inj ((Call.ofExcept_ok.mp hclone).1.symm.trans (RuntimeState.clone_eq hwf))
  cases base with
  | create =>
    simp only [Baseline.perform, NodeWriter.create, Call.bind_ok] at h
    obtain ⟨_, _, -, _, _, -, _, _, -, _, _, -, hclone⟩ := h
    exact Except.ok.inj ((Call.ofExcept_ok.mp hclone).1.symm.trans (RuntimeState.clone_eq hwf))
  | snapshot =>
    simp only [Baseline.perform, NodeWriter.snapshot, Call.bind_ok, Call.ofExcept_ok] at h
    obtain ⟨value, _, ⟨hvalue, -⟩, _, _, -, _, _, -, _, _, -, hclone, -⟩ := h
    obtain rfl := Except.ok.inj ((RuntimeState.fromDict_toDict hwf).symm.trans hvalue)
    exact Except.ok.inj (hclone.symm.trans (RuntimeState.clone_eq hwf))

theorem storeWrite_ok {wenv : WriterEnv}
    {refusal : (Key → Option RuntimeNode) → RuntimeState → Option Err} {turn : RuntimeState}
    {w w' : NodeWriter} (hwf : turn.Wf wenv.host)
    (h : storeWrite wenv refusal turn w = (.ok (), w')) :
    w'.store turn.key = some (.turn turn) := by
  obtain ⟨nodes, _, -, h⟩ := Call.bind_ok.mp h
  generalize refusal nodes turn = refused at h
  rcases refused with _ | e
  · obtain ⟨value, w₁, hclone, hwrite⟩ := Call.bind_ok.mp h
    obtain rfl : turn = value :=
      Except.ok.inj ((RuntimeState.clone_eq hwf).symm.trans (Call.ofExcept_ok.mp hclone).1)
    obtain rfl := Call.write_ok.mp hwrite
    simp
  · cases h

theorem baseline_stores {wenv : WriterEnv} {base : Baseline} {turn out : RuntimeState}
    {w w' : NodeWriter} (hwf : turn.Wf wenv.host) (hemits : wenv.emitsFrames = true)
    (h : base.perform wenv turn w = (.ok out, w')) :
    w'.store turn.key = some (.turn turn) := by
  cases base with
  | create =>
    simp only [Baseline.perform, NodeWriter.create, emitCreated, hemits, if_true, Call.bind_ok] at h
    obtain ⟨copy, _, -, ⟨⟩, w₁, hcreate, ⟨⟩, w₂, hdynamic, ⟨⟩, w₃, ⟨⟨⟩, w₄, hrevision, hemit⟩,
        hclone⟩ := h
    have hstored := storeWrite_ok hwf hcreate
    obtain rfl := Call.write_ok.mp hdynamic
    obtain rfl := Call.write_ok.mp hrevision
    obtain rfl := Call.write_ok.mp hemit
    obtain ⟨-, rfl⟩ := Call.ofExcept_ok.mp hclone
    exact hstored
  | snapshot =>
    simp only [Baseline.perform, NodeWriter.snapshot, emitSnapshot, hemits,
      Bool.not_true, Bool.false_eq_true, if_false,
      Call.bind_ok, Call.ofExcept_ok] at h
    obtain ⟨value, _, ⟨hvalue, -⟩, _, _, -, ⟨⟩, w₁, -, ⟨⟩, w₂,
        ⟨_, _, -, ⟨⟩, w₃, hpersist, ⟨⟩, w₄, hrevision, hemit⟩, -, rfl⟩ := h
    obtain rfl := Except.ok.inj ((RuntimeState.fromDict_toDict hwf).symm.trans hvalue)
    obtain ⟨-, -, -, hstored⟩ := whenPersist_ok hwf hpersist
    obtain rfl := Call.write_ok.mp hrevision
    obtain rfl := Call.write_ok.mp hemit
    exact hstored rfl

/-- A Turn with its baseline is held. -/
theorem baseline_holds {base : Baseline} {t : ValidTurn env.writer.host} {out : RuntimeState}
    {w w' : NodeWriter} (h : base.perform env.writer t.val w = (.ok out, w')) :
    out = t.val ∧
    Holds env.writer w' t := by
  obtain ⟨hdynamic, hrevision, -⟩ := baseline_ok t.property env.emits h
  exact ⟨baseline_out t.property h, hdynamic, baseline_stores t.property env.emits h, by
    simp [hrevision]⟩

/-- What the flags of a bridge are while its Turn runs. -/
structure Open (afterReport : Bool) (b : TurnBridge) : Prop where
  started : b.started = true
  closed : b.closed = false
  afterReport : b.assistantAfterReport = afterReport

/-- The draft of a Turn whose last Message is written. -/
def draftOf (t : RuntimeState) (afterReport : Bool) : Draft where
  messageIdx := some ((selected t).length - 1)
  afterReport := afterReport
  streamIndex := none
  streamType := none
  streamText := ""
  data := t.data
  dataIdx := t.currentDataIdx

theorem version_draftOf (t : RuntimeState) (afterReport : Bool) :
    (draftOf t afterReport).version = selected t := rfl

theorem ok_draftOf {t : ValidTurn env.writer.host} {afterReport : Bool} {init : List Fields}
    {m : Fields} (h : selected t.val = init ++ [m]) (hm : IsAssistant m) :
    (draftOf t.val afterReport).Ok where
  dataIdx := t.property.currentDataIdx
  message := by
    rintro i ⟨⟩
    exact ⟨m, by rw [version_draftOf, h]; simp, hm⟩
  between := nofun
  stream := nofun

theorem blocks_draftOf {t : RuntimeState} {afterReport : Bool} {init : List Fields} {m : Fields}
    (h : selected t = init ++ [m]) : (draftOf t afterReport).blocks = messageItems m := by
  rw [Draft.blocks_of_message (d := draftOf t afterReport) rfl, version_draftOf, h]
  simp

theorem assistantItems_concat {t : RuntimeState} {init : List Fields} {m : Fields}
    (h : selected t = init ++ [m]) (hm : IsAssistant m) : assistantItems t = messageItems m := by
  simp [assistantItems, h, hm]

/-! ## Compaction -/

/-- A Turn of one answer under a summary. -/
def Compacted {host : Host} (t : ValidTurn host) : Prop :=
  ∃ user items, t.val.data = [[user, assistantOf items]]

theorem Compacted.selected {host : Host} {t : ValidTurn host} (h : Compacted t) :
    ∃ user items, Turn.selected t.val = [user] ++ [assistantOf items] := by
  obtain ⟨user, items, hdata⟩ := h
  have hidx := t.property.currentDataIdx
  rw [hdata, List.length_singleton, Nat.lt_one_iff] at hidx
  exact ⟨user, items, by simp [Turn.selected, hdata, hidx]⟩

theorem compact_compacted {host : Host} {tree : RuntimeStateTree host}
    {source node : ValidTurn host} {summary id timestamp : String}
    (h : tree.compact source summary id timestamp = .ok node) :
    Compacted node := by
  obtain ⟨path, -, h⟩ := bind_ok.mp h
  split at h
  · cases h
  obtain ⟨assistant, hassistant, h⟩ := bind_ok.mp h
  obtain ⟨created, hcreate, h⟩ := bind_ok.mp h
  obtain rfl := pure_ok.mp h
  obtain ⟨items, -, hitems⟩ := bind_ok.mp hassistant
  obtain rfl := pure_ok.mp hitems
  have harr : ∀ version ∈ [[userMessage source.val, assistantOf items]], ArrayContent version := by
    intro version hversion
    obtain rfl := List.mem_singleton.mp hversion
    intro m hm
    rcases List.mem_cons.mp hm with rfl | hm
    · rw [userMessage]
      rcases hselected : selected source.val with _ | ⟨first, rest⟩
      · exact absurd hselected (selected_versionOk source).ne_nil
      · exact arrayContent_selected source first (by simp [hselected])
    · rw [List.mem_singleton.mp hm]
      exact ⟨items.map .obj, rfl⟩
  obtain ⟨-, -, -, -, -, -, hvalid⟩ := create_ok hcreate
  have hdata : created.val.data = [[userMessage source.val, assistantOf items]] :=
    validateData_keeps harr hvalid
  exact ⟨userMessage source.val, items, by simp [ValidTurn.anchored, hdata]⟩

/-- The Turn that the bridge goes on with after a compaction. -/
theorem createCompactTurn_ok {turnId sessionId summary : String} {w w' : NodeWriter}
    {out : RuntimeState} (h : createCompactTurn env turnId sessionId summary w = (.ok out, w')) :
    ∃ t : ValidTurn env.writer.host, t.val = out ∧ Compacted t := by
  rw [createCompactTurn, Call.bind_of_ok (show Call.read NodeWriter.store w =
    (.ok w.store, w) from rfl)] at h
  generalize (env.loadNodes w.store sessionId).find? (fun node => decide (node.key.2 = turnId)) =
    found at h
  rcases found with _ | ⟨⟨⟩ | source⟩
  · cases h
  · cases h
  dsimp only at h
  by_cases hstatus : source.val.status = .success
  · rw [if_neg (not_not.mpr hstatus)] at h
    simp only [Call.bind_ok, Call.ofExcept_ok, Call.pure_ok] at h
    obtain ⟨tree, _, -, compacted, _, ⟨hcompact, -⟩, ⟨⟩, _, -, rfl, -⟩ := h
    exact ⟨compacted, rfl, compact_compacted hcompact⟩
  · rw [if_pos hstatus] at h
    cases h

theorem onWriter_spec {α : Type} {P : TurnBridge → Prop} {x : NodeWriter.Method α}
    {Q : α → TurnBridge → Prop}
    (h : ∀ b a w, P b → x b.writer = (.ok a, w) → Q a { b with writer := w }) :
      Returns P (onWriter x) Q :=
  .onPart h fun _ _ _ _ _ => trivial

theorem writeTurn_open {afterReport : Bool} {call : RuntimeState → WriterCall} :
    Returns (Open afterReport) (writeTurn env call) fun _ => Open afterReport := by
  refine .bind activeTurn_some fun t => .bind (R := fun _ => Open afterReport) ?_ fun out => ?_
  · exact onWriter_spec fun _ _ _ h _ => ⟨h.1.started, h.1.closed, h.1.afterReport⟩
  · exact .write fun b h => ⟨h.started, h.closed, h.afterReport⟩

theorem beginCompactTurn_spec {summary : String} :
    Returns (Shows env d) (beginCompactTurn env summary) fun _ => Writing env := by
  refine .read_bind fun b => ?_
  refine .pre (P := Open d.afterReport) ?_ fun b' hb => ?_
  · split
    · exact .raise fun _ => trivial
    next source _ =>
    refine .bind (R := fun _ => Open d.afterReport)
      (.write fun b h => ⟨h.started, h.closed, h.afterReport⟩) fun _ => ?_
    refine .bind (R := fun _ => Open d.afterReport)
      (.whenever (fun _ => writeTurn_open) fun _ b h => h) fun _ => ?_
    refine .bind (R := fun s b => Open d.afterReport b ∧ ∃ t : ValidTurn env.writer.host,
      t.val = s ∧ Compacted t) ?_ fun compacted => ?_
    · exact onWriter_spec fun b s w h hx =>
        ⟨⟨h.started, h.closed, h.afterReport⟩, createCompactTurn_ok hx⟩
    refine .bind (R := fun s b => Open d.afterReport b ∧ ∃ t : ValidTurn env.writer.host,
      t.val = s ∧ Compacted t ∧ Holds env.writer b.writer t) ?_ fun taken => ?_
    · refine onWriter_spec ?_
      rintro b s w ⟨h, t, rfl, hcompacted⟩ hx
      obtain ⟨rfl, hholds⟩ := baseline_holds (t := t)
        (show Baseline.snapshot.perform env.writer t.val b.writer = (.ok s, w) from hx)
      exact ⟨⟨h.started, h.closed, h.afterReport⟩, t, rfl, hcompacted, hholds⟩
    refine .bind (R := fun _ b => Open d.afterReport b ∧ b.assistant = some taken ∧
      ∃ t : ValidTurn env.writer.host,
      t.val = taken ∧ Compacted t ∧ Holds env.writer b.writer t) (.write ?_) fun _ => ?_
    · rintro b ⟨h, hrest⟩
      exact ⟨⟨h.started, h.closed, h.afterReport⟩, rfl, hrest⟩
    -- the last Message is the answer under the summary
    refine .bind (R := fun _ b => ∃ d', d'.messageIdx.isSome = true ∧ ∀ t, b.assistant = some t →
      Shows env d' (quieted none { b with assistantMessageIdx := some ((selected t).length - 1) }))
      (.write ?_) fun _ => ?_
    · rintro b ⟨h, hassistant, t, rfl, hcompacted, hholds⟩
      obtain ⟨user, items, hselected⟩ := hcompacted.selected
      have hm : IsAssistant (assistantOf items) := rfl
      refine ⟨draftOf t.val d.afterReport, rfl, fun s hs => ⟨t, ?_⟩⟩
      obtain rfl : t.val = s := Option.some.inj (hassistant.symm.trans hs)
      exact
        { holds := hholds
          assistant := hassistant
          data := rfl
          dataIdx := rfl
          blocks := (assistantItems_concat hselected hm).trans (blocks_draftOf hselected).symm
          cursor := by simp [cursor, quieted, draftOf, h.afterReport]
          started := h.started
          closed := h.closed
          ok := ok_draftOf hselected hm }
    · refine .choose fun d' => .known (p := d'.messageIdx.isSome = true)
        (fun b h => h.1) fun hsome => ?_
      refine .bind (R := fun _ b => Shows env d' (quieted none b))
        (.pre takeLastMessage_spec fun b h => h.2) fun _ => ?_
      exact .write fun b h => ⟨d', hsome, h⟩
  · obtain ⟨⟨t, h⟩, rfl⟩ := hb
    exact ⟨h.started, h.closed, h.afterReport⟩

/-! ## Events -/

def itemKinds : List String :=
  ["tool_call", "tool_result", "tool_failed", "user_input_requested", "user_input_received",
    "plan", "feedback_received",
    "handoff_created", "skills_selected", "cancelled", "run_suspended", "error"]

/-- Whether an event writes into the Message and does not start one. -/
def writesItem (kind message : String) (data : Fields) : Bool :=
  if kind = "thinking_delta" ∨ kind = "response_delta" then message ≠ ""
  else if kind = "approval_requested" ∨ kind = "approval_granted" then
    (pyOr (data.get "tool") none).isNone
  else itemKinds.contains kind || (kind.startsWith "subagent_" && kind ≠ "subagent_report")

theorem good_of_written {b : TurnBridge} (h : Written env b) : Good env b := by
  obtain ⟨d, -, -, h⟩ := h
  exact .inl ⟨d, h⟩

theorem good_of_writing {b : TurnBridge} (h : Writing env b) : Good env b := by
  obtain ⟨d, -, h⟩ := h
  exact .inl ⟨d, h⟩

/-- From a draft that is not lost. -/
theorem found_spec {α : Type} {x : Method α} {Q : α → TurnBridge → Prop}
    (h : ∀ d, ¬ d.Lost → Returns (Shows env d) x Q) :
    Returns (fun b => ∃ d, ¬ d.Lost ∧ Shows env d b) x Q :=
  .choose fun d => .known (p := ¬ d.Lost) (fun _ hb => hb.1) fun hlost =>
    .pre (h d hlost) fun _ hb => hb.2

theorem restarted_spec {α : Type} {x : Method α} {Q : α → TurnBridge → Prop}
    (h : ∀ d, ¬ d.Lost → Returns (Shows env d) x Q) :
    Returns (Shows env d) (startAssistantAfterReport env >>= fun _ => x) Q :=
  .bind startAssistantAfterReport_spec fun _ => found_spec h

theorem modelRetry_spec {message : String} {data : Fields} :
    Returns (Shows env d) (modelRetry env message data) fun _ => Good env :=
  restarted_spec fun _ hlost => (appendItem_spec hlost).post fun _ _ h => good_of_written h

theorem beginAfterReport_spec {itemType : String} : Returns (Shows env d) (do
    startAssistantAfterReport env
    beginStreamItem env itemType) fun _ => Good env :=
  restarted_spec fun _ _ => beginStreamItem_spec.post fun _ _ ⟨d', _, _, h⟩ => .inl ⟨d', h⟩

theorem assistantMessage_spec {raw data : Fields} :
    Returns (Shows env d) (assistantMessage env raw data) fun _ => Good env := by
  refine restarted_spec fun d' hlost => .read_bind fun b => ?_
  refine .pre (P := Shows env d') ?_ fun b hb => hb.1
  refine .bind (R := fun _ => Shows env d') (.ofExcept (fun _ _ _ h => h) fun _ _ => trivial)
    fun calls => ?_
  refine (appendItems_spec hlost).post fun _ b h => ?_
  obtain ⟨d'', -, h⟩ := h
  exact .inl ⟨d'', h⟩

theorem toolCall_spec {message : String} {data : Fields} (hlost : ¬ d.Lost) :
    Returns (Shows env d) (toolCall env message data) fun _ => Good env := by
  refine .read_bind fun b => ?_
  refine .pre (P := Shows env d) ?_ fun b hb => hb.1
  refine .ite (fun _ => .pure fun b h => .inl ⟨d, h⟩) fun _ => ?_
  refine .bind (R := fun _ => Shows env d) (.ofExcept (fun _ _ _ h => h) fun _ _ => trivial)
    fun arguments => ?_
  exact (appendItem_spec hlost).post fun _ b h => good_of_written h

theorem toolResult_spec {message : String} {data : Fields} (hlost : ¬ d.Lost) :
    Returns (Shows env d) (toolResult env message data status) fun _ => Good env := by
  refine .bind (R := fun _ b => ∃ d', ¬ d'.Lost ∧ Shows env d' b)
    (setToolCallStatus_spec.post fun _ b h => ?_) fun _ =>
    found_spec fun d' hlost' => (appendItem_spec hlost').post fun _ b h => good_of_written h
  obtain ⟨d', hlike, h⟩ := h
  exact ⟨d', hlike.lost.not.mpr hlost, h⟩

theorem appendEventItem_spec {itemType kind message : String} {data : Fields} (hlost : ¬ d.Lost) :
    Returns (Shows env d) (appendEventItem env itemType kind message data) fun _ => Good env :=
  (appendItem_spec hlost).post fun _ _ h => good_of_written h

theorem shows_abort {b : TurnBridge} (h : Shows env d b) (category : Option String)
    (code : String) :
    Shows env d { b with abortCategory := category, abortCode := code } := by
  obtain ⟨t, h⟩ := h
  exact ⟨t, h.moved rfl rfl ⟨rfl, rfl⟩ ⟨rfl, rfl⟩ h.cursor h.blocks h.ok⟩

theorem delta_spec {itemType message : String} (hkind : itemType = "reasoning" ∨ itemType = "text")
    (hlost : message ≠ "" → ¬ d.Lost) : Returns (Shows env d)
    (updateStreamItem env itemType message) fun _ => Good env := by
  by_cases hmessage : message = ""
  · rw [updateStreamItem, if_pos hmessage]
    exact .pure fun b h => .inl ⟨d, h⟩
  · exact (updateStreamItem_spec hkind hmessage (hlost hmessage)).post fun _ _ h =>
      good_of_writing h

theorem finishStream_spec {itemType : Option String} :
    Returns (Shows env d) (finishStreamItem env itemType status) fun _ => Good env :=
  finishStreamItem_spec.post fun _ _ h => .inl ⟨_, h⟩

theorem finishTurn_spec {nodeStatus : NodeStatus} {finalAnswer code : String}
    {category : Option String} (hlost : ¬ d.Lost) :
    Returns (Shows env d) (finish env nodeStatus finalAnswer category code) fun _ => Good env :=
  (finish_spec hlost).post fun _ _ h => .inr h

theorem writesItem_of_kind {kind message : String} {data : Fields} (h : kind ∈ itemKinds) :
    writesItem kind message data = true := by
  have hdelta : ¬ (kind = "thinking_delta" ∨ kind = "response_delta") := by
    rintro (rfl | rfl) <;> exact absurd h (by decide)
  have happroval : ¬ (kind = "approval_requested" ∨ kind = "approval_granted") := by
    rintro (rfl | rfl) <;> exact absurd h (by decide)
  rw [writesItem, if_neg hdelta, if_neg happroval, List.contains_iff_mem.mpr h, Bool.true_or]

theorem project_spec {kind message : String} {data : Fields}
    (hlost : writesItem kind message data = true → ¬ d.Lost) :
    Returns (Shows env d) (project env kind message data) fun _ => Good env := by
  have hitem : kind ∈ itemKinds → ¬ d.Lost := fun h => hlost (writesItem_of_kind h)
  apply project_cases (motive := fun m => Returns (Shows env d) m fun _ => Good env)
  case modelRequest =>
    exact fun _ => settleRunningRetry_spec.post fun _ b ⟨d', _, h⟩ => .inl ⟨d', h⟩
  case modelRetry => exact fun _ => modelRetry_spec
  case thinkingStart | responseStart => exact fun _ => beginAfterReport_spec
  case thinkingDelta =>
    intro hkind
    refine delta_spec (.inl rfl) fun hmessage => hlost ?_
    rw [writesItem, if_pos (.inl hkind)]
    simpa using hmessage
  case responseDelta =>
    intro hkind
    refine delta_spec (.inr rfl) fun hmessage => hlost ?_
    rw [writesItem, if_pos (.inr hkind)]
    simpa using hmessage
  case thinkingEnd | responseEnd => exact fun _ => finishStream_spec
  case assistantMessage =>
    intro _
    split
    · exact assistantMessage_spec
    · exact .pure fun b h => .inl ⟨d, h⟩
  case toolCall => exact fun hkind => toolCall_spec (hitem (by rw [hkind]; decide))
  case toolResult => exact fun hkind => toolResult_spec (hitem (by rw [hkind]; decide))
  case toolFailed =>
    intro hkind
    have hwrite : Returns (Shows env d)
        (Call.write fun b => { b with abortCategory := some "tool" })
        fun _ => Shows env d := .write fun b h => shows_abort h _ _
    exact hwrite.bind fun _ => toolResult_spec (hitem (by rw [hkind]; decide))
  case modelError => exact fun _ => .write fun b h => .inl ⟨d, shows_abort h _ _⟩
  case approval =>
    intro hkind
    refine .whenever (fun hnone => appendEventItem_spec (hlost ?_)) fun _ b h => .inl ⟨d, h⟩
    have hdelta : ¬ (kind = "thinking_delta" ∨ kind = "response_delta") := by
      rcases hkind with rfl | rfl <;> decide
    rw [writesItem, if_neg hdelta, if_pos hkind]
    exact hnone
  case question =>
    intro hkind
    exact appendEventItem_spec (hitem (by rcases hkind with rfl | rfl <;> decide))
  case steering => exact fun _ => appendSteeringMessage_spec.post fun _ b h => .inl h
  case report => exact fun _ => appendSubagentReport_spec.post fun _ b h => .inl h
  case plan =>
    intro hkind
    exact appendEventItem_spec (hitem (by rcases hkind with rfl | rfl | rfl <;> decide))
  case skills => exact fun hkind => appendEventItem_spec (hitem (by rw [hkind]; decide))
  case subagent =>
    intro hkind hreport
    refine appendEventItem_spec (hlost ?_)
    have hdelta : ¬ (kind = "thinking_delta" ∨ kind = "response_delta") := by
      rintro (rfl | rfl) <;> exact absurd hkind (by decide +kernel)
    have happroval : ¬ (kind = "approval_requested" ∨ kind = "approval_granted") := by
      rintro (rfl | rfl) <;> exact absurd hkind (by decide +kernel)
    rw [writesItem, if_neg hdelta, if_neg happroval, hkind]
    simp [hreport]
  case compaction => exact fun _ => beginCompactTurn_spec.post fun _ b h => good_of_writing h
  case paused =>
    intro hkind
    exact finishTurn_spec (hitem (by rcases hkind with rfl | rfl <;> decide))
  case error =>
    intro hkind
    exact .read_bind fun b => .pre (finishTurn_spec (hitem (by rw [hkind]; decide))) fun b h => h.1
  case other => exact .pure fun b h => .inl ⟨d, h⟩

/-! ## Runs -/

/-- **No Message is being written, and the Turn does not end with one of the user.** -/
def Astray (b : TurnBridge) : Prop :=
  b.assistantMessageIdx = none ∧ ∀ t ∈ b.assistant, lastRole t ≠ some (.str "user")

/-- What may come to a bridge. -/
def Fit (b : TurnBridge) : Step → Prop
  | .event e => b.closed = false → e.kind ∉ hiddenRecoverableEvents →
    writesItem e.kind e.message e.data = true → ¬ Astray b
  | .input _ => b.closed = false ∧ ¬ Astray b
  | .patch _ => b.closed = false
  | .traceReady _ => True

def Guarded (env : BridgeEnv) : List Step → TurnBridge → Prop
  | [], _ => True
  | s :: steps, b => Fit b s ∧ ∀ b', step env s b = (.ok (), b') → Guarded env steps b'

theorem Shows.lost_iff {b : TurnBridge} (h : Shows env d b) : d.Lost ↔ Astray b := by
  obtain ⟨t, h⟩ := h
  have hrole : lastRole t.val = tailRole d.version := by rw [← h.selected_eq]; rfl
  rw [Draft.Lost, Astray, h.messageIdx, h.assistant, ← hrole]
  simp

theorem Good.shows {b : TurnBridge} (h : Good env b) (hclosed : b.closed = false) :
    ∃ d, Shows env d b := by
  rcases h with h | h
  · exact h
  · cases hclosed.symm.trans h.closed

theorem handle_spec {event : RuntimeEvent} :
    Returns (fun b => Good env b ∧ Fit b (.event event)) (handle env event) fun _ => Good env := by
  refine .read_bind fun b => .ite (fun _ => .pure fun b h => h.1.1) fun hlive => ?_
  obtain ⟨⟨hclosed, -⟩, hshown⟩ : (b.closed = false ∧ b.started = true) ∧
      event.kind ∉ hiddenRecoverableEvents := by
    simpa using hlive
  refine .pre (P := fun b => ∃ d, Shows env d b ∧
    (writesItem event.kind event.message event.data = true → ¬ d.Lost)) ?_ ?_
  · refine .choose fun d => .known (fun _ h => h.2) fun hlost => ?_
    refine .bind (R := fun _ => Shows env d) (.pre applyEventConfig_spec fun _ h => h.1) fun _ => ?_
    exact .bind applyEventUsage_spec fun _ => project_spec hlost
  · rintro b' ⟨⟨hgood, hfit⟩, hsame⟩
    obtain rfl : b' = b := hsame
    obtain ⟨d, h⟩ := hgood.shows hclosed
    exact ⟨d, h, fun hwrites => (Shows.lost_iff h).not.mpr (hfit hclosed hshown hwrites)⟩

theorem handleInput_spec {payload : Fields} :
    Returns (fun b => Good env b ∧ Fit b (.input payload)) (handleInput env payload) fun _ =>
      Good env := by
  refine .bind (R := fun _ b => ∃ d, ¬ d.Lost ∧ Shows env d b)
    (.ofExcept ?_ fun _ _ => trivial) fun data =>
    found_spec fun _ hlost => appendEventItem_spec hlost
  rintro data - b ⟨hgood, hclosed, hfit⟩
  obtain ⟨d, h⟩ := hgood.shows hclosed
  exact ⟨d, (Shows.lost_iff h).not.mpr hfit, h⟩

theorem good_traceReady {b : TurnBridge} {ready : Bool} (h : Good env b) :
    Good env { b with turnTraceInitialized := ready } := by
  rcases h with ⟨d, t, h⟩ | h
  · exact .inl ⟨d, t, h.moved rfl rfl ⟨rfl, rfl⟩ ⟨rfl, rfl⟩ h.cursor h.blocks h.ok⟩
  · exact .inr ⟨h.closed, h.faithful.message, h.faithful.stream⟩

/-- One step keeps the copy. -/
theorem step_spec (s : Step) :
    Returns (fun b => Good env b ∧ Fit b s) (step env s) fun _ => Good env := by
  cases s with
  | event event => exact handle_spec
  | input payload => exact handleInput_spec
  | patch config =>
    refine .pre (P := fun b => ∃ d, Shows env d b)
      (.choose fun d => applyConfig_spec.post fun _ _ h => .inl ⟨d, h⟩) ?_
    exact fun b h => h.1.shows h.2
  | traceReady ready => exact .write fun b h => good_traceReady h.1

/-- A run keeps it. -/
theorem run_spec (steps : List Step) :
    Returns (fun b => Good env b ∧ Guarded env steps b) (run env steps) fun _ => Good env := by
  refine (Call.Spec.forEach (I := fun l b => Good env b ∧ Guarded env l b)
    (fun s l => ?_) steps).post fun _ _ h => h.1
  rintro b ⟨hgood, hfit, hrest⟩
  exact ⟨fun _ b' hx => ⟨(step_spec s).result ⟨hgood, hfit⟩ hx, hrest b' hx⟩, fun _ _ _ => trivial⟩

/-! ## The start of a run -/

theorem bindExistingTrace_spec {t : RuntimeState} {P : TurnBridge → Prop}
    (hP : ∀ b ready, P b → P { b with turnTraceInitialized := ready }) :
    Returns P (bindExistingTrace env t) fun _ => P := by
  refine .write fun b h => ?_
  split
  · exact hP b _ h
  · exact h

theorem mapError_ok {ε ε' α : Type} {x : Except ε α} {f : ε → ε'} {a : α} :
    x.mapError f = .ok a ↔ x = .ok a := by
  cases x <;> simp [Except.mapError]

theorem newTurn_data {parent : Store.Node env.writer.host} {args : CreateArgs}
    {prompt deliveryId : String} {references : List Json} {t : ValidTurn env.writer.host}
    (h : newTurn env parent args prompt references deliveryId = .ok t) :
    ∃ user, roleOf user = some (.str "user") ∧ t.val.data = [[user, assistantOf []]] := by
  obtain ⟨node, hcreate, h⟩ := bind_ok.mp h
  obtain ⟨-, -, -, -, -, -, hvalid⟩ := create_ok hcreate
  have hdata := validateData_keeps (by
    intro version hversion m hm
    obtain rfl := List.mem_singleton.mp hversion
    rcases List.mem_pair.mp hm with rfl | rfl
    · exact ⟨_, rfl⟩
    · exact ⟨_, rfl⟩) hvalid
  have hidx := node.property.currentDataIdx
  rw [hdata, List.length_singleton, Nat.lt_one_iff] at hidx
  split at h
  · cases h
    exact ⟨userMessageOf (steeringItem prompt references) "", rfl, hdata⟩
  · have hmodify : node.val.data.modify 0 (fun version => version.modify 0 fun m =>
        m.set "delivery_id" (.str deliveryId)) =
        node.val.data.set node.val.currentDataIdx
          [(userMessageOf (steeringItem prompt references) "").set "delivery_id" (.str deliveryId),
          assistantOf []] := by
      simp [hdata, hidx]
    rw [hmodify] at h
    have hnode := fromMembers_withData (by
      intro m hm
      rcases List.mem_pair.mp hm with rfl | rfl
      · exact ⟨_, rfl⟩
      · exact ⟨_, rfl⟩) h
    refine ⟨(userMessageOf (steeringItem prompt references) "").set "delivery_id"
      (.str deliveryId), rfl, ?_⟩
    rw [hnode]
    simp [withSelected, hdata, hidx]

theorem newTurn_ok {parent : Store.Node env.writer.host} {args : CreateArgs}
    {prompt deliveryId : String} {references : List Json} {t : ValidTurn env.writer.host}
    (h : newTurn env parent args prompt references deliveryId = .ok t) :
    ∃ user, selected t.val = [user, assistantOf []] := by
  obtain ⟨user, -, hdata⟩ := newTurn_data h
  have hidx := t.property.currentDataIdx
  rw [hdata, List.length_singleton, Nat.lt_one_iff] at hidx
  exact ⟨user, by simp [selected, hdata, hidx]⟩

/-- A snapshot is one of a valid Turn. -/
theorem snapshot_valid {wenv : WriterEnv} {s out : RuntimeState} {w w' : NodeWriter}
    (h : NodeWriter.snapshot wenv s w = (.ok out, w')) :
    ∃ t : ValidTurn wenv.host, NodeWriter.snapshot wenv t.val w = (.ok out, w') := by
  obtain ⟨value, w₁, hread, hrest⟩ := Call.bind_ok.mp h
  obtain ⟨hvalue, rfl⟩ := Call.ofExcept_ok.mp hread
  have hwf := RuntimeState.fromDict_wf hvalue
  exact ⟨⟨value, hwf⟩, Call.bind_ok.mpr ⟨value, w,
    Call.ofExcept_ok.mpr ⟨RuntimeState.fromDict_toDict hwf, rfl⟩, hrest⟩⟩

/-- A bridge whose Turn has not started. -/
structure Unstarted (b : TurnBridge) : Prop where
  closed : b.closed = false
  cursor : b.cursor = ⟨none, false, none, none, ""⟩
  blocks : b.assistantBlocks = []

/-- A bridge that only has to be started. -/
def Ready (env : BridgeEnv) (b : TurnBridge) : Prop := ∃ d, Shows env d { b with started := true }

theorem ready_traceReady (b : TurnBridge) (ready : Bool) (h : Ready env b) :
    Ready env { b with turnTraceInitialized := ready } := by
  obtain ⟨d, t, h⟩ := h
  exact ⟨d, t, h.moved rfl rfl ⟨rfl, rfl⟩ ⟨rfl, rfl⟩ h.cursor h.blocks h.ok⟩

/-- The draft of a Turn that waits for an answer. -/
def waitingOn (t : RuntimeState) : Draft := { draftOf t false with messageIdx := none }

theorem ok_waitingOn {t : ValidTurn env.writer.host}
    (h : lastRole t.val ≠ some (.str "assistant")) : (waitingOn t.val).Ok where
  dataIdx := t.property.currentDataIdx
  message := nofun
  between := by
    rintro -
    have hok := selected_versionOk t
    obtain ⟨m, hm⟩ := List.getLast?_isSome.mpr hok.ne_nil |> Option.isSome_iff_exists.mp
    obtain ⟨role, items, hmessage⟩ := hok.messageOk (List.mem_of_getLast? hm)
    have hlast : lastRole t.val = some (.str role) := by
      rw [lastRole, hm]
      exact hmessage.role_eq
    rcases List.mem_pair.mp hmessage.role_mem with rfl | rfl
    · exact .inl hlast
    · exact absurd hlast h
  stream := nofun

theorem ready_of_draft {b : TurnBridge} {t : ValidTurn env.writer.host}
    (hclosed : b.closed = false) (hassistant : b.assistant = some t.val)
    (hholds : Holds env.writer b.writer t) (hok : d.Ok) (hdata : d.data = t.val.data)
    (hidx : d.dataIdx = t.val.currentDataIdx) (hcursor : b.cursor = d.toCursor)
    (hblocks : b.assistantBlocks = d.blocks) :
    Ready env b :=
  ⟨d, t,
    { holds := hholds
      assistant := hassistant
      data := hdata.symm
      dataIdx := hidx.symm
      blocks := hblocks
      cursor := hcursor
      started := rfl
      closed := hclosed
      ok := hok }⟩

/-- A Turn that was taken over. -/
def Taken (env : BridgeEnv) (s : RuntimeState) (b : TurnBridge) : Prop :=
  Unstarted b ∧ ∃ t : ValidTurn env.writer.host, t.val = s ∧ b.assistant = some s ∧
    Holds env.writer b.writer t

theorem setTurn_taken {s : RuntimeState} {P : TurnBridge → Prop}
    (h : ∀ b, P b → Unstarted b ∧ ∃ t : ValidTurn env.writer.host,
    t.val = s ∧ Holds env.writer b.writer t) : Returns P (setTurn s) fun _ => Taken env s := by
  refine .write fun b hb => ?_
  obtain ⟨hunstarted, t, ht, hholds⟩ := h b hb
  exact ⟨⟨hunstarted.closed, hunstarted.cursor, hunstarted.blocks⟩, t, ht, rfl, hholds⟩

/-- The last lines of `start`. -/
theorem started_spec {s : RuntimeState} : Returns (Ready env) (do
    bindExistingTrace env s
    Call.write fun b => { b with started := true }) fun _ b => ∃ d, Shows env d b :=
  .bind (bindExistingTrace_spec ready_traceReady) fun _ => .write fun _ h => h

theorem resumedTurn_spec {source : Key} :
    Returns Unstarted (resumedTurn env source) fun _ => Unstarted := by
  refine .read_bind fun b => .pre (P := Unstarted) ?_ fun _ h => h.1
  split
  · exact .raise fun _ => trivial
  · exact .raise fun _ => trivial
  · refine .ite (fun _ => ?_) fun _ => .ite (fun _ => .pure fun _ h => h) fun _ =>
      .raise fun _ => trivial
    exact onWriter_spec fun _ _ _ h _ => ⟨h.closed, h.cursor, h.blocks⟩

theorem start_spec {settings : RuntimeEventNodeBridge} {turn : TurnStart env.writer.host} :
    Returns (· = new settings) (start env turn) fun _ b => ∃ d, Shows env d b := by
  refine .pre (P := Unstarted) ?_ ?_
  · cases turn with
    | new parent args prompt references deliveryId =>
      refine .bind (R := fun t b => Unstarted b ∧ ∃ user, selected t.val = [user, assistantOf []])
        ?_ fun t => ?_
      · refine .ofExcept (fun t ht b h => ⟨h, newTurn_ok (mapError_ok.mp ht)⟩) fun _ _ => trivial
      refine .known (p := ∃ user, selected t.val = [user, assistantOf []])
        (fun _ h => h.2) fun hnew => ?_
      obtain ⟨user, hselected⟩ := hnew
      refine .bind (R := fun s b => Unstarted b ∧ t.val = s ∧ Holds env.writer b.writer t)
        ?_ fun s => ?_
      · refine onWriter_spec fun b s w h hx => ?_
        obtain ⟨rfl, hholds⟩ := baseline_holds (t := t)
          (show Baseline.create.perform env.writer t.val b.writer = (.ok s, w) from hx)
        exact ⟨⟨h.1.closed, h.1.cursor, h.1.blocks⟩, rfl, hholds⟩
      refine .known (p := t.val = s) (fun _ h => h.2.1) ?_
      rintro rfl
      refine .bind (setTurn_taken fun b h => ⟨h.1, t, h.2⟩) fun _ =>
        .bind (R := fun _ => Ready env) (.write ?_) fun _ => started_spec
      rintro b ⟨h, t', ht', hassistant, hholds⟩
      rw [← ht'] at hselected hassistant
      have hanswer : selected t'.val = [user] ++ [assistantOf []] := hselected
      obtain ⟨-, hreport, hindex, htype, htext⟩ := Cursor.mk.inj h.cursor
      refine ready_of_draft (d := draftOf t'.val false) h.closed hassistant
        hholds (ok_draftOf hanswer rfl)
        rfl rfl ?_ ?_
      · simp [cursor, draftOf, hselected, hreport, hindex, htype, htext]
      · rw [blocks_draftOf hanswer, Draft.messageItems_empty]
        exact h.blocks
    | resume source =>
      refine .bind resumedTurn_spec fun source => ?_
      refine .bind (R := fun s b => Unstarted b ∧ ∃ t : ValidTurn env.writer.host, t.val = s ∧
        Holds env.writer b.writer t) ?_ fun s => ?_
      · refine onWriter_spec fun b s w h hx => ?_
        obtain ⟨t, hsnapshot⟩ := snapshot_valid hx
        obtain ⟨rfl, hholds⟩ := baseline_holds (t := t)
          (show Baseline.snapshot.perform env.writer t.val b.writer = (.ok s, w) from hsnapshot)
        exact ⟨⟨h.closed, h.cursor, h.blocks⟩, t, rfl, hholds⟩
      refine .bind (setTurn_taken fun b h => h) fun _ => .bind (R := fun _ => Ready env)
        (.write ?_) fun _ => started_spec
      rintro b ⟨h, t, rfl, hassistant, hholds⟩
      obtain ⟨-, -, hindex, htype, htext⟩ := Cursor.mk.inj h.cursor
      by_cases hrole : lastRole t.val = some (.str "assistant")
      · obtain ⟨m, hm, hanswer⟩ := Option.bind_eq_some_iff.mp hrole
        obtain ⟨init, hselected⟩ := List.getLast?_eq_some_iff.mp hm
        simp only [hrole, if_true]
        refine ready_of_draft (d := draftOf t.val (startsWithReport (assistantItems t.val)))
          h.closed hassistant hholds
          (ok_draftOf hselected hanswer) rfl rfl ?_ ?_
        · simp [cursor, draftOf, hindex, htype, htext]
        · exact (assistantItems_concat hselected hanswer).trans (blocks_draftOf hselected).symm
      · simp only [hrole, if_false]
        refine ready_of_draft h.closed hassistant hholds (ok_waitingOn hrole) rfl rfl ?_ rfl
        simp [cursor, waitingOn, draftOf, startsWithReport, hindex, htype, htext]
  · rintro b rfl
    exact ⟨rfl, rfl, rfl⟩

/-- **The copy of the Message is the Message in every state of a run**, if no Item is written while
the bridge is astray. -/
theorem copy_faithful (env : BridgeEnv) (settings : RuntimeEventNodeBridge)
    (turn : TurnStart env.writer.host) (steps : List Step) (b₀ b : TurnBridge)
    (hstart : start env turn (new settings) = (.ok (), b₀)) (hguarded : Guarded env steps b₀)
    (hrun : run env steps b₀ = (.ok (), b)) : Faithful env b :=
  ((run_spec steps).result ⟨.inl (start_spec.result rfl hstart), hguarded⟩ hrun).faithful

/-! ## A report after steering -/

/-- Events that write no Item into a Message that was there. -/
theorem guarded_of_quiet {steps : List Step}
    (h : ∀ s ∈ steps, ∃ e, s = .event e ∧ writesItem e.kind e.message e.data = false) :
    ∀ b, Guarded env steps b := by
  induction steps with
  | nil => exact fun _ => trivial
  | cons s steps ih =>
    obtain ⟨⟨e, rfl, hquiet⟩, hrest⟩ := List.forall_mem_cons.mp h
    refine fun b => ⟨fun _ _ hwrites => ?_, fun b' _ => ih hrest b'⟩
    rw [hquiet] at hwrites
    cases hwrites

open Browser (sampleHost)

def openBridge : BridgeEnv where
  writer := RuntimeEventNodeBridge.openEnv
  emits := rfl
  dec := RuntimeEventNodeBridge.plainDecoder
  lower := id
  redact := id
  redact_ne := fun _ h => h
  audit := id
  appendTraceItem := fun trace item => some (trace ++ [item])
  hasTrace := fun _ => false
  loadNodes := fun _ _ => []
  resumeRefusal := fun _ _ => none
  compactionTurnId := "c"
  now := sampleNow

def plainSettings : RuntimeEventNodeBridge where
  providerName := "p"
  modelConfig := []
  permissionMode := "read_only"
  runningMode := "agent"
  assistant := none
  lastNode := none
  writer := ⟨fun _ => none, fun _ => none, fun _ => none, []⟩
  runtime := some none

def firstTurn : TurnStart sampleHost := .new (.root "s1" "r") (sampleArgs "t1" "s1") "hello" [] ""

def event (kind message : String) (data : Fields) : Step := .event ⟨kind, message, data⟩

def steered : List Step := [event "steering_applied" "" [("content", .str "go on")]]

/-- What became of a Message and of its copy. -/
structure Sizes where
  messageIdx : Option Nat
  /-- The Items of the Message in the Turn of the writer. -/
  items : Option Nat
  blocks : Nat
deriving DecidableEq

def sizesOf (env : BridgeEnv) (b : TurnBridge) : Sizes where
  messageIdx := b.assistantMessageIdx
  items := do
    let t ← b.assistant
    let cur ← (NodeWriter.current env.writer t.key b.writer).1.toOption
    let m ← (selected cur)[← b.assistantMessageIdx]?
    pure (messageItems m).length
  blocks := b.assistantBlocks.length

/-- The sizes after the first Turn and a run. -/
def sizesAfter (steps : List Step) : Option Sizes :=
  match start openBridge firstTurn (new plainSettings) with
  | (.ok _, b₀) => match run openBridge steps b₀ with
    | (.ok _, b) => some (sizesOf openBridge b)
    | (.error _, _) => none
  | (.error _, _) => none

theorem sizesAfter_some {steps : List Step} {sizes : Sizes} (h : sizesAfter steps = some sizes) :
    ∃ b₀ b, start openBridge firstTurn (new plainSettings) = (.ok (), b₀) ∧
      run openBridge steps b₀ = (.ok (), b) ∧
      sizesOf openBridge b = sizes := by
  unfold sizesAfter at h
  split at h
  · split at h
    · exact ⟨_, _, by assumption, by assumption, Option.some.inj h⟩
    · cases h
  · cases h

theorem Faithful.sizes {b : TurnBridge} {i : Nat} (h : Faithful env b)
    (hi : b.assistantMessageIdx = some i) :
    (sizesOf env b).items = some (sizesOf env b).blocks := by
  obtain ⟨t, cur, m, ht, hcur, hm, hcontent⟩ := h.message i hi
  have hitems := messageItems_of_content hcontent
  simp [sizesOf, ht, hcur, hi, hm, hitems, Except.toOption]

def retried : List Step :=
  [event "steering_applied" "" [("content", .str "go on")], event "model_retry" "again" []]

theorem sizes_retried : sizesAfter retried = some ⟨some 3, some 1, 1⟩ := by decide +kernel

theorem quiet_retried :
    ∀ s ∈ retried, ∃ e, s = .event e ∧ writesItem e.kind e.message e.data = false := by
  intro s hs
  rcases List.mem_pair.mp hs with rfl | rfl
  · exact ⟨_, rfl, by decide +kernel⟩
  · exact ⟨_, rfl, by decide +kernel⟩

/-- A retry after steering. -/
theorem copy_faithful_retry :
    ∃ b₀ b, start openBridge firstTurn (new plainSettings) = (.ok (), b₀) ∧
    run openBridge retried b₀ = (.ok (), b) ∧ b.assistantMessageIdx = some 3 ∧
    Faithful openBridge b := by
  obtain ⟨b₀, b, hstart, hrun, hsizes⟩ := sizesAfter_some sizes_retried
  exact ⟨b₀, b, hstart, hrun, congrArg Sizes.messageIdx hsizes,
    copy_faithful openBridge plainSettings firstTurn retried b₀ b hstart
      (guarded_of_quiet quiet_retried b₀) hrun⟩

def reported : List Step :=
  [event "steering_applied" "" [("content", .str "go on")],
    event "subagent_report" "" [("reply_content", .str "done"), ("delivery_id", .str "d1")],
    event "tool_call" "ls" [("call_id", .str "c1")]]

theorem sizes_reported : sizesAfter reported = some ⟨some 3, some 2, 1⟩ := by decide +kernel

/-- A call after the report: the Message holds the report and the call, its copy only the call. -/
theorem copy_misses_report : ∃ b₀ b, start openBridge firstTurn (new plainSettings) = (.ok (), b₀) ∧
    run openBridge reported b₀ = (.ok (), b) ∧ sizesOf openBridge b = ⟨some 3, some 2, 1⟩ ∧
    ¬ Faithful openBridge b := by
  obtain ⟨b₀, b, hstart, hrun, hsizes⟩ := sizesAfter_some sizes_reported
  refine ⟨b₀, b, hstart, hrun, hsizes, fun h => ?_⟩
  have hsame := h.sizes (congrArg Sizes.messageIdx hsizes)
  rw [hsizes] at hsame
  cases hsame

end TurnBridge

end MiniAgent.Bridge
