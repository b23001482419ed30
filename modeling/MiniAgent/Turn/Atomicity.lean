import MiniAgent.Turn.Sent

/-!
# Writer calls that raise

Every method reads the current Turn, makes an edit of it, keeps the edited Turn as the dynamic copy
(`_store_dynamic`) and only then looks for the baseline revision and writes the store
(`_emit_delta`). `perform_eq` brings all of them into this form. A call that raises before
`_store_dynamic` has changed nothing; one that raises after it leaves the edit in the dynamic copy,
behind a frame that was never sent. `Blocked` is the second case, and a call is all-or-nothing
exactly when it is not blocked on an edit that changes the Turn.
-/

namespace MiniAgent.Turn

open Lib NodeWriter

/-! ## Methods and their edits -/

/-- A call of one of the seven methods that change a Turn. -/
inductive WriterMethod where
  | call (key : Key) (made : WriterCall)
  | update (node : RuntimeState) (persist : Bool)

def WriterMethod.key : WriterMethod → Key
  | .call key _ => key
  | .update node _ => node.key

def WriterMethod.perform (env : WriterEnv) : WriterMethod → Method RuntimeState
  | .call key made => made.perform env key
  | .update node persist => NodeWriter.update env node persist

/-- What a method makes of the current Turn, before anything is kept. -/
structure Edit where
  members : Fields
  patch : RuntimeState → Fields
  operations : List Op
  persist : Bool
  /-- `finalize` drops the dynamic copy at the end. -/
  drops : Bool

def dataEdit (cur : RuntimeState) (data : List (List Fields)) (operations : List Op)
    (persist : Bool) : Edit :=
  ⟨withData cur data, fun _ => [], operations, persist, false⟩

/-- The edit a call asks for: `none` where there is nothing to do. -/
def WriterCall.edit (cur : RuntimeState) : WriterCall → Method (Option Edit)
  | .appendMessage message persist => do
    let messageIdx := (cur.data[cur.currentDataIdx]?.getD []).length
    let data ← Call.ofExcept (validateData (appendedMessage cur message))
    pure (some (dataEdit cur data [.appendMessage cur.currentDataIdx messageIdx message] persist))
  | .appendItems items messageIdx persist => do
    let messages := cur.data[cur.currentDataIdx]?.getD []
    let targetIdx := messageIdx.getD (messages.length - 1)
    let target ← indexOr messages.length targetIdx
      (.validation "Turn Item target Message is out of range.")
    let message := messages[target]?.getD []
    if message.get "role" != some (.str "assistant") then
      Call.raise (.validation "Turn Items can only be appended to an assistant Message.")
    else do
      let content := contentOf message
      let normalized ← Call.ofExcept (normalizeEach items)
      let grown := message.set "content" (.arr (content ++ normalized.map .obj))
      let data ← Call.ofExcept (validateData
        (dataJson (cur.data.set cur.currentDataIdx (messages.set target grown))))
      pure (some (dataEdit cur data (appendItemOps cur.currentDataIdx targetIdx
        content.length normalized) persist))
  | .setItemStatus dataIdx messageIdx itemIdx status persist =>
    if !itemStatuses.contains status then
      Call.raise (.validation "Item status must be running, failed, or success.")
    else do
      let outOfRange := .validation "Turn Item status target is out of range."
      let place ← messagePlace cur.data dataIdx (some messageIdx) outOfRange
      let (item, fields) ← itemPlace place.target itemIdx outOfRange
      let data ← Call.ofExcept (validateData
        (dataJson (place.replace cur.data item (fields.set "status" (.str status)))))
      pure (some (dataEdit cur data [.setItemStatus dataIdx messageIdx itemIdx status] persist))
  | .appendText dataIdx messageIdx itemIdx delta persist =>
    if delta = "" then pure none
    else do
      let outOfRange := .validation "Turn text delta target is out of range."
      let place ← messagePlace cur.data dataIdx messageIdx outOfRange
      if place.target.get "role" != some (.str "assistant") then
        Call.raise (.validation "Turn text delta must target an assistant Message.")
      else do
        let (item, fields) ← itemPlace place.target itemIdx outOfRange
        let text ← streamingText fields
        pure (some (dataEdit cur
          (place.replace cur.data item (fields.set "text" (.str (text ++ delta))))
          [.appendText dataIdx (messageIdx.getD (place.messages.length - 1)) itemIdx delta]
            persist))
  | .updateConfig changes => do
    let members ← Call.ofExcept (applyChanges cur.toDict changes)
    pure (some ⟨members, configPatch cur, [], true, false⟩)
  | .finalize status =>
    if status = "running" then Call.raise (.validation "A finalized Turn cannot remain running.")
    else pure (some ⟨cur.toDict.set "status" (.str status), fun _ => [("status", .str status)],
      [], true, true⟩)

/-- The two steps every method ends with, and its result. -/
def Edit.commit (env : WriterEnv) (e : Edit) : Method RuntimeState := do
  let value ← storeDynamic env e.members
  emitDelta env value (e.patch value) e.operations e.persist
  if e.drops then setDynamic value.key none else pure ()
  Call.ofExcept (value.clone env.host)

def commitEdit (env : WriterEnv) (cur : RuntimeState) : Option Edit → Method RuntimeState
  | none => pure cur
  | some e => e.commit env

variable {env : WriterEnv} {key : Key} {w w' w₁ : NodeWriter} {cur value : RuntimeState}
  {call : WriterCall}

/-- **A call is an edit of the current Turn and its commit.** -/
theorem WriterCall.perform_eq (hcur : NodeWriter.current env key w = (.ok cur, w)) :
    call.perform env key w = (call.edit cur >>= commitEdit env cur) w := by
  cases call with
  | appendMessage message persist =>
    simp only [WriterCall.perform, NodeWriter.appendMessage, Call.bind_of_ok hcur,
      WriterCall.edit, bind_assoc,
      pure_bind, commitEdit, Edit.commit, dataEdit, Bool.false_eq_true, if_false]
  | appendItems items messageIdx persist =>
    simp only [WriterCall.perform, NodeWriter.appendItems, Call.bind_of_ok hcur,
      WriterCall.edit, bind_assoc]
    refine congrFun (bind_congr fun target => ?_) w
    split
    · rfl
    · simp only [bind_assoc, pure_bind, commitEdit, Edit.commit, dataEdit,
        Bool.false_eq_true, if_false]
  | setItemStatus dataIdx messageIdx itemIdx status persist =>
    simp only [WriterCall.perform, NodeWriter.setItemStatus, WriterCall.edit]
    split
    · rfl
    · simp only [Call.bind_of_ok hcur, bind_assoc, pure_bind, commitEdit, Edit.commit, dataEdit,
        Bool.false_eq_true, if_false]
  | appendText dataIdx messageIdx itemIdx delta persist =>
    simp only [WriterCall.perform, NodeWriter.appendText, WriterCall.edit]
    split
    · exact hcur
    · simp only [Call.bind_of_ok hcur, bind_assoc]
      refine congrFun (bind_congr fun place => ?_) w
      split
      · rfl
      · simp only [bind_assoc, pure_bind, commitEdit, Edit.commit, dataEdit,
          Bool.false_eq_true, if_false]
  | updateConfig changes =>
    simp only [WriterCall.perform, NodeWriter.updateConfig, Call.bind_of_ok hcur,
      WriterCall.edit, bind_assoc,
      pure_bind, commitEdit, Edit.commit, Bool.false_eq_true, if_false]
  | finalize status =>
    simp only [WriterCall.perform, NodeWriter.finalize, WriterCall.edit]
    split
    · rfl
    · simp only [Call.bind_of_ok hcur, pure_bind, commitEdit, Edit.commit, if_true]

/-! ## The current Turn -/

theorem steady_current (env : WriterEnv) (key : Key) :
    Call.Steady (NodeWriter.current env key) := by
  intro w
  simp only [NodeWriter.current, Call.bind_of_ok (show Call.read id w = (.ok w, w) from rfl)]
  rcases w.dynamic key with _ | s
  · rcases w.store key with _ | (⟨_, _⟩ | s) <;> rfl
  · rfl

/-- A call on a Turn that cannot be read raises before anything is kept. -/
theorem WriterCall.perform_of_current_error (call : WriterCall) {e : Err}
    (hcur : NodeWriter.current env key w = (.error e, w)) :
    ∃ e', call.perform env key w = (.error e', w) := by
  cases call with
  | setItemStatus dataIdx messageIdx itemIdx status persist =>
    simp only [WriterCall.perform, NodeWriter.setItemStatus]
    split
    · exact ⟨_, rfl⟩
    · exact ⟨e, Call.bind_of_error hcur⟩
  | appendText dataIdx messageIdx itemIdx delta persist =>
    simp only [WriterCall.perform, NodeWriter.appendText]
    split
    · exact ⟨e, hcur⟩
    · exact ⟨e, Call.bind_of_error hcur⟩
  | finalize status =>
    simp only [WriterCall.perform, NodeWriter.finalize]
    split
    · exact ⟨_, rfl⟩
    · exact ⟨e, Call.bind_of_error hcur⟩
  | _ => exact ⟨e, Call.bind_of_error hcur⟩

/-- The Turns a writer holds and reads were constructed, each under its own key. -/
structure NodeWriter.Sound (env : WriterEnv) (w : NodeWriter) : Prop where
  dynamic : ∀ key s, w.dynamic key = some s → s.Wf env.host ∧ s.key = key
  store : ∀ key s, w.store key = some (.turn s) → s.Wf env.host ∧ s.key = key

theorem current_sound (h : w.Sound env) (hcur : (NodeWriter.current env key w).1 = .ok cur) :
    cur.Wf env.host ∧ cur.key = key := by
  simp only [NodeWriter.current,
    Call.bind_of_ok (show Call.read id w = (.ok w, w) from rfl)] at hcur
  rcases hd : w.dynamic key with _ | s
  · rw [hd] at hcur
    rcases hs : w.store key with _ | (⟨_, _⟩ | s)
    · rw [hs] at hcur; cases hcur
    · rw [hs] at hcur; cases hcur
    · rw [hs] at hcur
      obtain ⟨hwf, hkey⟩ := h.store key s hs
      have hcur : s.clone env.host = .ok cur := hcur
      rw [RuntimeState.clone_eq hwf] at hcur
      cases hcur
      exact ⟨hwf, hkey⟩
  · rw [hd] at hcur
    obtain ⟨hwf, hkey⟩ := h.dynamic key s hd
    have hcur : s.clone env.host = .ok cur := hcur
    rw [RuntimeState.clone_eq hwf] at hcur
    cases hcur
    exact ⟨hwf, hkey⟩

theorem current_of_dynamic (hwf : value.Wf env.host) (hd : w.dynamic key = some value) :
    NodeWriter.current env key w = (.ok value, w) := by
  simp only [NodeWriter.current, Call.bind_of_ok (show Call.read id w = (.ok w, w) from rfl), hd]
  rw [RuntimeState.clone_eq hwf]
  rfl

/-! ## Commits -/

theorem storeDynamic_eq {members : Fields}
    (h : RuntimeState.fromDict env.host (.obj members) = .ok value) :
    storeDynamic env members w
      = (.ok value, { w with dynamic := Function.update w.dynamic value.key (some value) }) := by
  have hclone : Call.ofExcept (value.clone env.host) w = (.ok value, w) := by
    rw [RuntimeState.clone_eq (RuntimeState.fromDict_wf h)]
    rfl
  rw [storeDynamic, h, Call.bind_of_ok (show Call.ofExcept (.ok value) w = (.ok value, w) from rfl),
    Call.bind_of_ok hclone]
  rfl

theorem storeDynamic_error {members : Fields} {e : Err}
    (h : RuntimeState.fromDict env.host (.obj members) = .error e) :
    storeDynamic env members w = (.error e, w) := by
  simp only [storeDynamic, h]
  rfl

/-- The store refuses the write. -/
def Refuses (env : WriterEnv) (w : NodeWriter) (value : RuntimeState) (persist : Bool) : Prop :=
  persist = true ∧ ∃ e, env.updateRefusal w.store value = some e

/-- What stops a commit after the Turn has been kept: a delta without a baseline, or the store. -/
def Blocked (env : WriterEnv) (w : NodeWriter) (value : RuntimeState) (e : Edit) : Prop :=
  (env.emitsFrames = true ∧ (e.patch value ≠ [] ∨ e.operations ≠ []) ∧
    w.revisions value.key = none) ∨
  Refuses env w value e.persist

theorem whenPersist_cases (hwf : value.Wf env.host) (persist : Bool) :
    (∃ e, whenPersist env persist value w = (.error e, w) ∧ Refuses env w value persist) ∨
    (∃ w', whenPersist env persist value w = (.ok (), w')) ∧ ¬ Refuses env w value persist := by
  cases persist with
  | false => exact .inr ⟨⟨w, rfl⟩, fun h => nomatch h.1⟩
  | true =>
    simp only [whenPersist, updateNode, storeWrite, if_true,
      Call.bind_of_ok (show Call.read store w = (.ok w.store, w) from rfl)]
    rcases hr : env.updateRefusal w.store value with _ | e
    · refine .inr ⟨?_, ?_⟩
      · simp only [RuntimeState.clone_eq hwf]
        exact ⟨_, rfl⟩
      · rintro ⟨-, e, he⟩
        rw [hr] at he
        cases he
    · exact .inl ⟨e, rfl, rfl, e, hr⟩

theorem emitDelta_cases (hwf : value.Wf env.host) (e : Edit) :
    (∃ err, emitDelta env value (e.patch value) e.operations e.persist w = (.error err, w) ∧
      Blocked env w value e) ∨
    (∃ w', emitDelta env value (e.patch value) e.operations e.persist w = (.ok (), w')) ∧
      ¬ Blocked env w value e := by
  have hpersist := whenPersist_cases (w := w) hwf e.persist
  unfold emitDelta
  split
  · next hquiet =>
    have hnot : ¬ (env.emitsFrames = true ∧ (e.patch value ≠ [] ∨ e.operations ≠ []) ∧
        w.revisions value.key = none) := by
      rintro ⟨h1, h2, -⟩
      rw [h1] at hquiet
      simp only [Bool.not_true, Bool.false_or, Bool.and_eq_true, List.isEmpty_iff] at hquiet
      exact h2.elim (fun h => h hquiet.1) (fun h => h hquiet.2)
    obtain ⟨err, hw, hr⟩ | ⟨hw, hr⟩ := hpersist
    · exact .inl ⟨err, hw, .inr hr⟩
    · exact .inr ⟨hw, fun hb => hb.elim hnot hr⟩
  · next hloud =>
    simp only [Bool.or_eq_true, Bool.not_eq_true', Bool.and_eq_true, List.isEmpty_iff,
      not_or, not_and,
      Bool.not_eq_false] at hloud
    have hsome : e.patch value ≠ [] ∨ e.operations ≠ [] := by
      by_cases hp : e.patch value = []
      · exact .inr (hloud.2 hp)
      · exact .inl hp
    rw [Call.bind_of_ok (show Call.read (fun w => w.revisions value.key) w =
      (.ok (w.revisions value.key), w) from rfl)]
    rcases hrev : w.revisions value.key with _ | r
    · exact .inl ⟨_, rfl, .inl ⟨hloud.1, hsome, hrev⟩⟩
    · dsimp only
      obtain ⟨err, hw, hr⟩ | ⟨⟨w₁, hw⟩, hr⟩ := hpersist
      · exact .inl ⟨err, Call.bind_of_error hw, .inr hr⟩
      · refine .inr ⟨⟨_, Call.bind_of_ok hw⟩, ?_⟩
        rintro (⟨-, -, hnone⟩ | hb)
        · rw [hrev] at hnone; cases hnone
        · exact hr hb

/-- The writer that has kept a Turn. -/
def NodeWriter.kept (w : NodeWriter) (value : RuntimeState) : NodeWriter :=
  { w with dynamic := Function.update w.dynamic value.key (some value) }

/-- **What a commit does.** -/
theorem commit_cases (env : WriterEnv) (w : NodeWriter) (e : Edit) :
    (∃ err, e.commit env w = (.error err, w) ∧
      ∀ value, RuntimeState.fromDict env.host (.obj e.members) ≠ .ok value) ∨
    ∃ value, RuntimeState.fromDict env.host (.obj e.members) = .ok value ∧
      ((∃ err, e.commit env w = (.error err, w.kept value) ∧ Blocked env w value e) ∨
       (∃ out w', e.commit env w = (.ok out, w')) ∧ ¬ Blocked env w value e) := by
  rcases hf : RuntimeState.fromDict env.host (.obj e.members) with err | value
  · exact .inl ⟨err, Call.bind_of_error (storeDynamic_error hf), fun value h => nomatch h⟩
  · have hwf := RuntimeState.fromDict_wf hf
    refine .inr ⟨value, rfl, ?_⟩
    rw [Edit.commit, Call.bind_of_ok (storeDynamic_eq hf)]
    obtain ⟨err, hx, hb⟩ | ⟨⟨w₁, hx⟩, hb⟩ := emitDelta_cases (w := w.kept value) hwf e
    · exact .inl ⟨err, Call.bind_of_error hx, hb⟩
    · refine .inr ⟨?_, hb⟩
      have hx : emitDelta env value (e.patch value) e.operations e.persist
        { w with dynamic := Function.update w.dynamic value.key (some value) } = (.ok (), w₁) := hx
      rw [Call.bind_of_ok hx, RuntimeState.clone_eq hwf]
      split
      · exact ⟨_, _, rfl⟩
      · exact ⟨_, _, rfl⟩

/-! ## Edits only look -/

theorem blind_indexOr (n : Nat) (i : Int) (e : Err) : Call.Blind (indexOr n i e) := by
  unfold indexOr
  split
  · exact Call.blind_pure _
  · exact Call.blind_raise _

theorem blind_messagePlace (data : List (List Fields)) (dataIdx : Int) (messageIdx : Option Int)
    (e : Err) :
    Call.Blind (messagePlace data dataIdx messageIdx e) :=
  (blind_indexOr _ _ _).bind fun _ => (blind_indexOr _ _ _).bind fun _ => Call.blind_pure _

theorem blind_itemPlace (target : Fields) (itemIdx : Int) (e : Err) :
    Call.Blind (itemPlace target itemIdx e) := by
  refine (blind_indexOr _ _ _).bind fun item => ?_
  split
  · exact Call.blind_pure _
  · exact Call.blind_raise _

theorem blind_streamingText (item : Fields) : Call.Blind (streamingText item) := by
  unfold streamingText
  split
  · split
    · exact Call.blind_pure _
    · exact Call.blind_raise _
  · exact Call.blind_raise _

theorem blind_edit (cur : RuntimeState) (call : WriterCall) : Call.Blind (call.edit cur) := by
  cases call with
  | appendMessage message persist => exact (Call.blind_ofExcept _).bind fun _ => Call.blind_pure _
  | appendItems items messageIdx persist =>
    refine (blind_indexOr _ _ _).bind fun target => ?_
    dsimp only
    split
    · exact Call.blind_raise _
    · exact (Call.blind_ofExcept _).bind fun _ => (Call.blind_ofExcept _).bind fun _ =>
        Call.blind_pure _
  | setItemStatus dataIdx messageIdx itemIdx status persist =>
    simp only [WriterCall.edit]
    split
    · exact Call.blind_raise _
    · exact (blind_messagePlace _ _ _ _).bind fun _ => (blind_itemPlace _ _ _).bind fun _ =>
        (Call.blind_ofExcept _).bind fun _ => Call.blind_pure _
  | appendText dataIdx messageIdx itemIdx delta persist =>
    simp only [WriterCall.edit]
    split
    · exact Call.blind_pure _
    · refine (blind_messagePlace _ _ _ _).bind fun place => ?_
      split
      · exact Call.blind_raise _
      · exact (blind_itemPlace _ _ _).bind fun _ => (blind_streamingText _).bind fun _ =>
          Call.blind_pure _
  | updateConfig changes => exact (Call.blind_ofExcept _).bind fun _ => Call.blind_pure _
  | finalize status =>
    simp only [WriterCall.edit]
    split
    · exact Call.blind_raise _
    · exact Call.blind_pure _

theorem steady_edit (cur : RuntimeState) (call : WriterCall) : Call.Steady (call.edit cur) :=
  (blind_edit cur call).steady

/-- An edit does not rename its Turn. -/
theorem edit_names {e : Edit} (h : call.edit cur w = (.ok (some e), w₁)) :
    e.members.get "session_id" = some (.str cur.sessionId) ∧
    e.members.get "id" = some (.str cur.id) := by
  cases call with
  | appendMessage message persist =>
    simp only [WriterCall.edit, Call.bind_ok, Call.ofExcept_ok, Call.pure_ok] at h
    obtain ⟨data, _, -, h, -⟩ := h
    cases h
    exact ⟨rfl, rfl⟩
  | appendItems items messageIdx persist =>
    simp only [WriterCall.edit, Call.bind_ok] at h
    obtain ⟨target, _, -, h⟩ := h
    split at h
    · cases h
    · simp only [Call.bind_ok, Call.pure_ok] at h
      obtain ⟨normalized, _, -, data, _, -, h, -⟩ := h
      cases h
      exact ⟨rfl, rfl⟩
  | setItemStatus dataIdx messageIdx itemIdx status persist =>
    simp only [WriterCall.edit] at h
    split at h
    · cases h
    · simp only [Call.bind_ok, Call.pure_ok] at h
      obtain ⟨place, _, -, item, _, -, data, _, -, h, -⟩ := h
      cases h
      exact ⟨rfl, rfl⟩
  | appendText dataIdx messageIdx itemIdx delta persist =>
    simp only [WriterCall.edit] at h
    split at h
    · cases h
    · simp only [Call.bind_ok] at h
      obtain ⟨place, _, -, h⟩ := h
      split at h
      · cases h
      · simp only [Call.bind_ok, Call.pure_ok] at h
        obtain ⟨item, _, -, text, _, -, h, -⟩ := h
        cases h
        exact ⟨rfl, rfl⟩
  | updateConfig changes =>
    simp only [WriterCall.edit, Call.bind_ok, Call.ofExcept_ok, Call.pure_ok] at h
    obtain ⟨members, _, ⟨hchanges, -⟩, h, -⟩ := h
    cases h
    exact ⟨applyChanges_get (by decide) hchanges, applyChanges_get (by decide) hchanges⟩
  | finalize status =>
    simp only [WriterCall.edit] at h
    split at h
    · cases h
    · cases h
      simp only [Fields.get_set]
      exact ⟨rfl, rfl⟩

theorem edit_key {e : Edit} (h : call.edit cur w = (.ok (some e), w₁))
    (hvalue : RuntimeState.fromDict env.host (.obj e.members) = .ok value) :
    value.key = cur.key := by
  obtain ⟨hsession, hid⟩ := edit_names h
  exact storeDynamic_key (storeDynamic_eq (w := w) hvalue) hsession hid

/-! ## All or nothing -/

/-- The Turn is what it was, and so is all a later delta of it starts from. -/
structure Unchanged (env : WriterEnv) (key : Key) (w w' : NodeWriter) : Prop where
  current : (NodeWriter.current env key w').1 = (NodeWriter.current env key w).1
  revision : w'.revisions key = w.revisions key
  store : w'.store = w.store
  /-- Whoever followed the Turn still does. -/
  keeps : ∀ r s, Keeps env key w r s → Keeps env key w' r s

def WriterMethod.AllOrNothing (env : WriterEnv) (w : NodeWriter) (m : WriterMethod) : Prop :=
  ∀ e w', m.perform env w = (.error e, w') → Unchanged env m.key w w'

/-- The call passes its checks and changes the Turn, and is stopped once the Turn is kept. -/
def WriterMethod.Spoils (env : WriterEnv) (w : NodeWriter) : WriterMethod → Prop
  | .call key made => ∃ cur e value, (NodeWriter.current env key w).1 = .ok cur ∧
    (made.edit cur w).1 = .ok (some e) ∧ RuntimeState.fromDict env.host (.obj e.members) =
      .ok value ∧
    value ≠ cur ∧ Blocked env w value e
  | .update node persist => ∃ cur value frame, (NodeWriter.current env node.key w).1 = .ok cur ∧
    RuntimeState.fromDict env.host (.obj node.toDict) = .ok value ∧
    (updateFrame env cur value w).1 = .ok frame ∧ value ≠ cur ∧ Refuses env w value persist

theorem unchanged_refl : Unchanged env key w w := ⟨rfl, rfl, rfl, fun _ _ h => h⟩

/-- A writer that has kept a Turn is unchanged exactly when the Turn is. -/
theorem unchanged_kept_iff (hwf : value.Wf env.host) (hkey : value.key = key)
    (hcur : (NodeWriter.current env key w).1 = .ok cur) : Unchanged env key w (w.kept value) ↔
    value = cur := by
  have hdyn : (w.kept value).dynamic key = some value := by simp [NodeWriter.kept, hkey]
  have hkept := current_of_dynamic hwf hdyn
  constructor
  · intro h
    have := h.current
    rw [hkept, hcur] at this
    exact Except.ok.inj this
  · rintro rfl
    refine ⟨by rw [hkept, hcur], rfl, rfl, fun r s h => ?_⟩
    obtain rfl : value = s := by
      have := h.current_eq
      rw [this] at hcur
      exact (Except.ok.inj hcur).symm
    exact ⟨hwf, hkey, h.shown, .inl hdyn, h.revision⟩

/-- What a method can come to: it leaves nothing behind when it raises, or it raises with the new
Turn kept. -/
def WriterMethod.Settles (env : WriterEnv) (w : NodeWriter) (m : WriterMethod) : Prop :=
  ((∀ e w', m.perform env w = (.error e, w') → w' = w) ∧ ¬ m.Spoils env w) ∨
  ∃ cur value err, (NodeWriter.current env m.key w).1 = .ok cur ∧ value.Wf env.host ∧
    value.key = m.key ∧
    m.perform env w = (.error err, w.kept value) ∧ (m.Spoils env w ↔ value ≠ cur)

theorem WriterMethod.Settles.iff {m : WriterMethod} (h : m.Settles env w) :
    m.AllOrNothing env w ↔ ¬ m.Spoils env w := by
  obtain ⟨hquiet, hnot⟩ | ⟨cur, value, err, hcur, hwf, hkey, hx, hiff⟩ := h
  · refine iff_of_true (fun e w' hx => ?_) hnot
    rw [hquiet e w' hx]
    exact unchanged_refl
  · rw [hiff, ne_eq, not_not, ← unchanged_kept_iff hwf hkey hcur]
    constructor
    · exact fun h => h err _ hx
    · intro h e w' hx'
      rw [hx] at hx'
      cases hx'
      exact h

theorem call_settles (h : w.Sound env) (key : Key) (made : WriterCall) :
    (WriterMethod.call key made).Settles env w := by
  rcases hc : NodeWriter.current env key w with ⟨e | cur, w₁⟩
  · obtain rfl : w₁ = w := by simpa [hc] using steady_current env key w
    obtain ⟨e', hx⟩ := WriterCall.perform_of_current_error made hc
    refine .inl ⟨fun e'' w' hx' => ?_, ?_⟩
    · cases hx.symm.trans hx'
      rfl
    · rintro ⟨cur, -, -, hcur, -⟩
      rw [hc] at hcur
      cases hcur
  · obtain rfl : w₁ = w := by simpa [hc] using steady_current env key w
    obtain ⟨hcurwf, hcurkey⟩ := current_sound h (by rw [hc])
    have hperform : (WriterMethod.call key made).perform env w₁ = _ := WriterCall.perform_eq hc
    rcases hedit : made.edit cur w₁ with ⟨e | (_ | e), w₂⟩
    all_goals obtain rfl : w₂ = w₁ := by simpa [hedit] using steady_edit cur made w₁
    · rw [Call.bind_of_error hedit] at hperform
      refine .inl ⟨fun e' w' hx => ?_, ?_⟩
      · cases hperform.symm.trans hx
        rfl
      · rintro ⟨cur', e', -, hcur, he, -⟩
        rw [hc] at hcur
        cases hcur
        rw [hedit] at he
        cases he
    · rw [Call.bind_of_ok hedit] at hperform
      refine .inl ⟨fun e' w' hx => ?_, ?_⟩
      · cases hperform.symm.trans hx
      · rintro ⟨cur', e', -, hcur, he, -⟩
        rw [hc] at hcur
        cases hcur
        rw [hedit] at he
        cases he
    · rw [Call.bind_of_ok hedit] at hperform
      have hspoils : ∀ {value}, RuntimeState.fromDict env.host (.obj e.members) = .ok value →
          ((WriterMethod.call key made).Spoils env w₂ ↔ value ≠ cur ∧ Blocked env w₂ value e) := by
        intro value hvalue
        constructor
        · rintro ⟨cur', e', value', hcur, he, hvalue', hne, hb⟩
          rw [hc] at hcur
          cases hcur
          rw [hedit] at he
          cases he
          cases hvalue.symm.trans hvalue'
          exact ⟨hne, hb⟩
        · rintro ⟨hne, hb⟩
          exact ⟨cur, e, value, by rw [hc], by rw [hedit], hvalue, hne, hb⟩
      obtain ⟨err, hx, hnone⟩ | ⟨value, hvalue, ⟨err, hx, hb⟩ | ⟨⟨out, w', hx⟩, hb⟩⟩ :=
        commit_cases env w₂ e
      · refine .inl ⟨fun e' w' hx' => ?_, ?_⟩
        · cases (hperform.trans hx).symm.trans hx'
          rfl
        · rintro ⟨cur', e', value, hcur, he, hvalue, -⟩
          rw [hc] at hcur
          cases hcur
          rw [hedit] at he
          cases he
          exact hnone value hvalue
      · refine .inr ⟨cur, value, err, by
          rw [show (WriterMethod.call key made).key = key from rfl, hc],
          RuntimeState.fromDict_wf hvalue, (edit_key hedit hvalue).trans hcurkey,
          hperform.trans hx, ?_⟩
        rw [hspoils hvalue]
        exact and_iff_left hb
      · refine .inl ⟨fun e' w'' hx' => ?_, fun hs => hb ((hspoils hvalue).mp hs).2⟩
        cases (hperform.trans hx).symm.trans hx'

theorem steady_updateFrame (env : WriterEnv) (previous value : RuntimeState) :
    Call.Steady (updateFrame env previous value) := by
  unfold updateFrame
  split
  · exact Call.steady_pure _
  · refine (Call.steady_read _).bind fun revision => ?_
    split
    · exact Call.steady_raise _
    · exact (Call.steady_ofExcept _).bind fun _ => Call.steady_pure _

theorem update_settles (h : w.Sound env) (node : RuntimeState) (persist : Bool) :
    (WriterMethod.update node persist).Settles env w := by
  have hspoils : ∀ {cur value frame}, (NodeWriter.current env node.key w).1 = .ok cur →
      RuntimeState.fromDict env.host (.obj node.toDict) = .ok value →
      (updateFrame env cur value w).1 = .ok frame →
      ((WriterMethod.update node persist).Spoils env w ↔ value ≠ cur ∧
        Refuses env w value persist) := by
    intro cur value frame hcur hvalue hframe
    constructor
    · rintro ⟨cur', value', frame', hcur', hvalue', -, hne, hr⟩
      cases hcur.symm.trans hcur'
      cases hvalue.symm.trans hvalue'
      exact ⟨hne, hr⟩
    · rintro ⟨hne, hr⟩
      exact ⟨cur, value, frame, hcur, hvalue, hframe, hne, hr⟩
  have hperform : (WriterMethod.update node persist).perform env w =
      NodeWriter.update env node persist w := rfl
  rcases hc : NodeWriter.current env node.key w with ⟨e | cur, w₁⟩
  all_goals obtain rfl : w₁ = w := by simpa [hc] using steady_current env node.key w
  · rw [NodeWriter.update, Call.bind_of_error hc] at hperform
    refine .inl ⟨fun e' w' hx => ?_, ?_⟩
    · cases hperform.symm.trans hx
      rfl
    · rintro ⟨cur, -, -, hcur, -⟩
      rw [hc] at hcur
      cases hcur
  · rw [NodeWriter.update, Call.bind_of_ok hc] at hperform
    rcases hf : RuntimeState.fromDict env.host (.obj node.toDict) with e | value
    · have hread : (Call.ofExcept (.error e) : Method RuntimeState) w₁ = (.error e, w₁) := rfl
      rw [hf, Call.bind_of_error hread] at hperform
      refine .inl ⟨fun e' w' hx => ?_, ?_⟩
      · cases hperform.symm.trans hx
        rfl
      · rintro ⟨-, value, -, -, hvalue, -⟩
        rw [hf] at hvalue
        cases hvalue
    · have hread : (Call.ofExcept (.ok value) : Method RuntimeState) w₁ = (.ok value, w₁) := rfl
      rw [hf, Call.bind_of_ok hread] at hperform
      have hwf := RuntimeState.fromDict_wf hf
      have hkey : value.key = node.key := storeDynamic_key (storeDynamic_eq (w := w₁) hf) rfl rfl
      rcases hframe : updateFrame env cur value w₁ with ⟨e | frame, w₂⟩
      all_goals obtain rfl : w₂ = w₁ := by simpa [hframe] using steady_updateFrame env cur value w₁
      · rw [Call.bind_of_error hframe] at hperform
        refine .inl ⟨fun e' w' hx => ?_, ?_⟩
        · cases hperform.symm.trans hx
          rfl
        · rintro ⟨cur', value', frame, hcur, hvalue, hok, -⟩
          rw [hc] at hcur
          cases hcur
          cases hf.symm.trans hvalue
          rw [hframe] at hok
          cases hok
      · have hclone : RuntimeState.fromDict env.host (.obj value.toDict) = .ok value :=
          RuntimeState.clone_eq hwf
        rw [Call.bind_of_ok hframe, Call.bind_of_ok (storeDynamic_eq hclone)] at hperform
        have hiff := hspoils (by rw [hc]) hf (by rw [hframe])
        obtain ⟨err, hx, hr⟩ | ⟨⟨w', hx⟩, hr⟩ := whenPersist_cases (w := w₂.kept value) hwf persist
        · refine .inr ⟨cur, value, err, by
            rw [show (WriterMethod.update node persist).key = node.key from rfl, hc],
            hwf, hkey, hperform.trans (Call.bind_of_error hx), ?_⟩
          rw [hiff]
          exact and_iff_left hr
        · refine .inl ⟨fun e' w'' hx' => ?_, fun hs => hr (hiff.mp hs).2⟩
          have hx : whenPersist env persist value
            { w₂ with dynamic := Function.update w₂.dynamic value.key (some value) } =
              (.ok (), w') := hx
          rw [Call.bind_of_ok hx] at hperform
          rw [hperform, RuntimeState.clone_eq hwf] at hx'
          rcases frame with _ | ⟨revision, frame⟩
          · cases hx'
          · cases hx'

/-- **A writer's method is all-or-nothing exactly when it does not stop after keeping a change.** -/
theorem writer_all_or_nothing (env : WriterEnv) (w : NodeWriter) (h : w.Sound env)
    (m : WriterMethod) :
    m.AllOrNothing env w ↔ ¬ m.Spoils env w := by
  cases m with
  | call key made => exact (call_settles h key made).iff
  | update node persist => exact (update_settles h node persist).iff

/-- A store that refuses every write of a Turn it has. -/
def lockedEnv : WriterEnv :=
  ⟨Browser.sampleHost, true, fun _ _ => none, fun _ _ => some (.store "database is locked")⟩

/-- A writer that streams one Turn. -/
def streamingWriter : NodeWriter :=
  ⟨fun _ => none, Function.update (fun _ => none) ("s1", "t1")
    (some (Browser.sampleTurn "a" "success")),
    fun _ => some 0, []⟩

theorem streamingWriter_sound : streamingWriter.Sound lockedEnv := by
  refine ⟨fun key s h => ?_, fun key s h => nomatch h⟩
  have h : Function.update (fun _ => none) ("s1", "t1")
      (some (Browser.sampleTurn "a" "success")) key = some s := h
  by_cases hkey : key = ("s1", "t1")
  · rw [hkey, Function.update_self] at h
    cases h
    exact ⟨Browser.sampleTurn_wf "a" .success, hkey.symm⟩
  · rw [Function.update_of_ne hkey] at h
    cases h

def refusedAppend : WriterMethod := .call ("s1", "t1") (.appendItems [textItem "c"] none true)

theorem writer_all_or_nothing_out_of_range :
    streamingWriter.Sound lockedEnv ∧
    (WriterMethod.call ("s1", "t1") (.setItemStatus 0 7 0 "failed" true)).AllOrNothing
      lockedEnv streamingWriter := by
  refine ⟨streamingWriter_sound, (writer_all_or_nothing _ _ streamingWriter_sound _).mpr ?_⟩
  rintro ⟨cur, e, value, hcur, he, -⟩
  cases hcur
  cases he

/-- An Item that the store does not take is in the Turn all the same. -/
theorem append_items_refused_kept :
    streamingWriter.Sound lockedEnv ∧ ¬ refusedAppend.AllOrNothing lockedEnv streamingWriter := by
  refine ⟨streamingWriter_sound, fun h => ?_⟩
  refine (call_settles streamingWriter_sound _ _).iff.mp h ?_
  obtain ⟨cur, e, value, hcur, he, hpersist, hvalue, hone, htwo⟩ : ∃ cur e value,
      (NodeWriter.current lockedEnv ("s1", "t1") streamingWriter).1 = .ok cur ∧
      ((WriterCall.appendItems [textItem "c"] none true).edit cur streamingWriter).1 =
        .ok (some e) ∧
      e.persist = true ∧ RuntimeState.fromDict lockedEnv.host (.obj e.members) = .ok value ∧
      (cur.data.flatten.flatMap messageItems).length = 2 ∧
      (value.data.flatten.flatMap messageItems).length = 3 :=
      ⟨_, _, _, rfl, rfl, rfl, rfl, rfl, rfl⟩
  refine ⟨cur, e, value, hcur, he, hvalue, ?_, .inr ⟨hpersist, _, rfl⟩⟩
  rintro rfl
  rw [hone] at htwo
  cases htwo

end MiniAgent.Turn
