import MiniAgent.Bridge.Writes

/-!
# The selected version under the writer

What each call of the writer makes of the selected version, with its Items as lists. `Exact` is half
of it: a call that returns has made exactly this version.
-/

namespace MiniAgent.Bridge

open Lib Turn Store NodeWriter

variable {host : Host} {t t' : ValidTurn host} {version : List Fields} {m item : Fields}
  {items : List Fields} {i k : Nat}

/-! ## Versions -/

def roleOf (m : Fields) : Option Json := m.get "role"

def IsAssistant (m : Fields) : Prop := m.get "role" = some (.str "assistant")

instance (m : Fields) : Decidable (IsAssistant m) := inferInstanceAs (Decidable (_ = _))

def setItems (items : List Fields) (m : Fields) : Fields := m.set "content" (itemsJson items)

def addItems (items : List Fields) (i : Nat) (version : List Fields) : List Fields :=
  version.modify i fun m => setItems (messageItems m ++ items) m

def changeItem (f : Fields → Fields) (i k : Nat) (version : List Fields) : List Fields :=
  version.modify i fun m => setItems ((messageItems m).modify k f) m

def withStatus (status : String) (item : Fields) : Fields := item.set "status" (.str status)

/-- The text of an Item, longer. -/
def withText (delta : String) (item : Fields) : Fields :=
  match item.get "text" with
  | some (.str text) => item.set "text" (.str (text ++ delta))
  | _ => item

theorem arrayContent_selected (t : ValidTurn host) : ArrayContent (selected t.val) :=
  (selected_versionOk t).accepted.arrayContent

theorem arrayContent_modify {f : Fields → List Fields} (h : ArrayContent version) :
    ArrayContent (version.modify i fun m => setItems (f m) m) := by
  intro x hx
  obtain ⟨j, hj⟩ := List.mem_iff_getElem?.mp hx
  rw [List.getElem?_modify] at hj
  obtain ⟨old, hold, rfl⟩ := Option.map_eq_some_iff.mp hj
  split
  · exact ⟨(f old).map .obj, by simp [setItems, itemsJson]⟩
  · exact h old (List.mem_of_getElem? hold)

/-- A Message of a Turn has its Items for content. -/
theorem content_selected (t : ValidTurn host) (hm : (selected t.val)[i]? = some m) :
    m.get "content" = some (itemsJson (messageItems m)) := by
  obtain ⟨role, items, hok⟩ := (selected_versionOk t).messageOk (List.mem_of_getElem? hm)
  rw [hok.items_eq, hok.content_eq]

theorem modify_eq_set {f : Fields → Fields} (hm : version[i]? = some m) :
    version.modify i f = version.set i (f m) := by
  obtain ⟨hlt, rfl⟩ := List.getElem?_eq_some_iff.mp hm
  exact List.modify_eq_set_get f hlt

/-! ## Exactness -/

/-- The members of an edit of the selected version are those of the Turn with that version. -/
theorem fromMembers_withData (hversion : ArrayContent version)
    (h : fromMembers host (withData t.val (t.val.data.set t.val.currentDataIdx version)) = .ok t') :
    t'.val = withSelected t.val version :=
  fromDict_withData t.property (arrayContent_set (arrayContent_of_wf t.property) hversion)
    (fromMembers_ok.mp h)

theorem getD_selected (t : ValidTurn host) :
    t.val.data[t.val.currentDataIdx]?.getD [] = selected t.val := by
  rw [getElem?_selected, Option.getD_some]

theorem write_appendMessage {persist : Bool} (hm : ∃ l, m.get "content" = some (.arr l))
    (h : write t (.appendMessage (.obj m) persist) = .ok t') :
    t'.val = withSelected t.val (selected t.val ++ [m]) := by
  obtain ⟨hnone, -⟩ | ⟨e, hedit, hmembers⟩ := write_ok.mp h
  · simp only [WriterCall.edit, Call.bind_ok, Call.pure_ok] at hnone
    obtain ⟨_, _, -, hnone, -⟩ := hnone
    cases hnone
  · simp only [WriterCall.edit, Call.bind_ok, Call.ofExcept_ok, Call.pure_ok,
      Option.some.injEq] at hedit
    obtain ⟨data, _, ⟨hvalid, -⟩, rfl, -⟩ := hedit
    have harr : ArrayContent (selected t.val ++ [m]) := by
      intro x hx
      rcases List.mem_append.mp hx with hx | hx
      · exact arrayContent_selected t x hx
      · rw [List.mem_singleton.mp hx]
        exact hm
    rw [appendedMessage_obj (getElem?_selected t)] at hvalid
    obtain rfl := validateData_keeps (arrayContent_set (arrayContent_of_wf t.property) harr) hvalid
    exact fromMembers_withData harr hmembers

theorem normalizeEach_objects :
    ∀ {items normalized : List Fields}, normalizeEach (items.map .obj) = .ok normalized →
    normalized = items
  | [], normalized, h => by cases h; rfl
  | item :: items, normalized, h => by
    simp only [List.map_cons, normalizeEach, bind_ok, pure_ok] at h
    obtain ⟨first, hfirst, rest, hrest, rfl⟩ := h
    have hone : [item].map Json.obj = first.map .obj := Json.arr.inj (normalizeContent_arr hfirst)
    obtain rfl : [item] = first := List.map_injective_iff.mpr (fun _ _ h => Json.obj.inj h) hone
    rw [normalizeEach_objects hrest]
    rfl

theorem write_appendItems {persist : Bool}
    (h : write t (.appendItems (items.map .obj) (some (i : Int)) persist) = .ok t') :
    t'.val = withSelected t.val (addItems items i (selected t.val)) ∧
      ∃ m, (selected t.val)[i]? = some m ∧ IsAssistant m := by
  obtain ⟨hnone, -⟩ | ⟨e, hedit, hmembers⟩ := write_ok.mp h
  · simp only [WriterCall.edit, Call.bind_ok] at hnone
    obtain ⟨_, _, -, hnone⟩ := hnone
    split at hnone
    · cases hnone
    · simp only [Call.bind_ok, Call.pure_ok] at hnone
      obtain ⟨_, _, -, _, _, -, hnone, -⟩ := hnone
      cases hnone
  · simp only [WriterCall.edit, Call.bind_ok, indexOr_ok, getD_selected, Option.getD_some] at hedit
    obtain ⟨target, _, ⟨htarget, rfl⟩, hedit⟩ := hedit
    obtain ⟨hidx, hlt⟩ := pyIndex_of_nonneg (Int.natCast_nonneg i) htarget
    obtain rfl : i = target := by omega
    obtain ⟨m, hm⟩ : ∃ m, (selected t.val)[i]? = some m := ⟨_, List.getElem?_eq_getElem hlt⟩
    rw [hm, Option.getD_some] at hedit
    split at hedit
    · simp at hedit
    · next hrole =>
      simp only [Call.bind_ok, Call.ofExcept_ok, Call.pure_ok, Option.some.injEq] at hedit
      obtain ⟨normalized, _, ⟨hnormalized, -⟩, data, _, ⟨hvalid, -⟩, rfl, -⟩ := hedit
      obtain rfl := normalizeEach_objects hnormalized
      have hversion : (selected t.val).set i
          (m.set "content" (.arr (contentOf m ++ normalized.map .obj))) =
          addItems normalized i (selected t.val) := by
        rw [addItems, modify_eq_set hm, setItems, contentOf_eq (content_selected t hm)]
        simp [itemsJson]
      rw [hversion] at hvalid
      have harr : ArrayContent (addItems normalized i (selected t.val)) :=
        arrayContent_modify (arrayContent_selected t)
      obtain rfl := validateData_keeps
        (arrayContent_set (arrayContent_of_wf t.property) harr) hvalid
      exact ⟨fromMembers_withData harr hmembers, m, hm, by simpa [IsAssistant] using hrole⟩

/-- A place in the selected version. -/
theorem place_selected {place : MessagePlace} {e : Err} {w w' : NodeWriter}
    (h : messagePlace t.val.data t.val.currentDataIdx (some (i : Int)) e w = (.ok place, w')) :
    (selected t.val)[i]? = some place.target ∧ ∀ k fields, place.replace t.val.data k fields =
      t.val.data.set t.val.currentDataIdx ((selected t.val).set i
        (place.target.set "content" (.arr ((contentOf place.target).set k (.obj fields))))) := by
  obtain ⟨-, content, hplaced⟩ := messagePlace_ok t.property (Int.natCast_nonneg _) (by simp) h
  have hv : t.val.currentDataIdx = place.version := by
    have := hplaced.dataIdx_eq
    omega
  have hmessages : place.messages = selected t.val := by
    have := hplaced.version
    rw [← hv, getElem?_selected] at this
    exact (Option.some.inj this).symm
  have hi : i = place.message := by
    have := hplaced.messageIdx_eq
    rw [Option.getD_some] at this
    omega
  refine ⟨by rw [← hmessages, hi]; exact hplaced.message, fun k fields => ?_⟩
  rw [MessagePlace.replace, hmessages, ← hv, ← hi]

/-- An Item replaced by another. -/
theorem set_changeItem {f : Fields → Fields} (hm : (selected t.val)[i]? = some m)
    (hitem : (messageItems m)[k]? = some item) :
    (selected t.val).set i (m.set "content" (.arr ((contentOf m).set k (.obj (f item))))) =
      changeItem f i k (selected t.val) := by
  rw [changeItem, modify_eq_set hm, setItems, contentOf_eq (content_selected t hm),
    modify_eq_set hitem]
  simp [itemsJson, List.map_set]

theorem item_of_content (hm : (selected t.val)[i]? = some m)
    (hitem : (contentOf m)[k]? = some (.obj item)) :
    (messageItems m)[k]? = some item := by
  rw [contentOf_eq (content_selected t hm), List.getElem?_map] at hitem
  obtain ⟨found, hfound, heq⟩ := Option.map_eq_some_iff.mp hitem
  cases heq
  exact hfound

theorem write_setItemStatus {status : String} {persist : Bool}
    (h : write t (.setItemStatus t.val.currentDataIdx i k status persist) = .ok t') :
    t'.val = withSelected t.val (changeItem (withStatus status) i k (selected t.val)) ∧
      ∃ m item, (selected t.val)[i]? = some m ∧ (messageItems m)[k]? = some item := by
  obtain ⟨hnone, -⟩ | ⟨e, hedit, hmembers⟩ := write_ok.mp h
  · simp only [WriterCall.edit] at hnone
    split at hnone
    · cases hnone
    · simp only [Call.bind_ok, Call.pure_ok] at hnone
      obtain ⟨_, _, -, _, _, -, _, _, -, hnone, -⟩ := hnone
      cases hnone
  · simp only [WriterCall.edit] at hedit
    split at hedit
    · simp at hedit
    · simp only [Call.bind_ok, Call.ofExcept_ok, Call.pure_ok, Option.some.injEq] at hedit
      obtain ⟨place, _, hplace, ⟨j, fields⟩, _, hitem, data, _, ⟨hvalid, -⟩, rfl, -⟩ := hedit
      obtain ⟨hm, hreplace⟩ := place_selected hplace
      have hcontent := content_selected t hm
      obtain ⟨-, hj, hfields⟩ := itemPlace_ok hcontent (Int.natCast_nonneg k) hitem
      obtain rfl : k = j := by omega
      have hitem := item_of_content hm (by rw [contentOf_eq hcontent]; exact hfields)
      rw [hreplace, show fields.set "status" (.str status) = withStatus status fields from rfl,
        set_changeItem hm hitem] at hvalid
      have harr : ArrayContent (changeItem (withStatus status) i k (selected t.val)) :=
        arrayContent_modify (arrayContent_selected t)
      obtain rfl := validateData_keeps
        (arrayContent_set (arrayContent_of_wf t.property) harr) hvalid
      exact ⟨fromMembers_withData harr hmembers, place.target, fields, hm, hitem⟩

theorem write_appendText {delta : String} {persist : Bool} (hdelta : delta ≠ "")
    (h : write t (.appendText t.val.currentDataIdx (some (i : Int)) k delta persist) = .ok t') :
    t'.val = withSelected t.val (changeItem (withText delta) i k (selected t.val)) ∧
      ∃ m item, (selected t.val)[i]? = some m ∧ IsAssistant m ∧ (messageItems m)[k]? = some item ∧
        hasType item ["text", "reasoning"] = true := by
  obtain ⟨hnone, -⟩ | ⟨e, hedit, hmembers⟩ := write_ok.mp h
  · simp only [WriterCall.edit, if_neg hdelta, Call.bind_ok] at hnone
    obtain ⟨_, _, -, hnone⟩ := hnone
    split at hnone
    · cases hnone
    · simp only [Call.bind_ok, Call.pure_ok] at hnone
      obtain ⟨_, _, -, _, _, -, hnone, -⟩ := hnone
      cases hnone
  · simp only [WriterCall.edit, if_neg hdelta, Call.bind_ok] at hedit
    obtain ⟨place, _, hplace, hedit⟩ := hedit
    split at hedit
    · simp at hedit
    · next hrole =>
      simp only [Call.bind_ok, Call.pure_ok, Option.some.injEq] at hedit
      obtain ⟨⟨j, fields⟩, _, hitem, text, _, htext, rfl, -⟩ := hedit
      obtain ⟨hm, hreplace⟩ := place_selected hplace
      have hcontent := content_selected t hm
      obtain ⟨-, hj, hfields⟩ := itemPlace_ok hcontent (Int.natCast_nonneg k) hitem
      obtain rfl : k = j := by omega
      obtain ⟨-, htext, htype⟩ := streamingText_ok htext
      have hitem := item_of_content hm (by rw [contentOf_eq hcontent]; exact hfields)
      have hlonger : fields.set "text" (.str (text ++ delta)) = withText delta fields := by
        rw [withText, htext]
      rw [dataEdit, hreplace, hlonger, set_changeItem hm hitem] at hmembers
      exact ⟨fromMembers_withData (arrayContent_modify (arrayContent_selected t)) hmembers,
        place.target, fields, hm,
        by simpa [IsAssistant] using hrole, hitem, htype⟩

/-! ## Writes beside the data -/

/-- Members with the data of a Turn make a Turn with it. -/
theorem fromDict_data {members : Fields} {cur s : RuntimeState} (hwf : cur.Wf host)
    (hdata : members.get "data" = cur.toDict.get "data")
    (hidx : members.get "current_data_idx" = cur.toDict.get "current_data_idx")
    (h : RuntimeState.fromDict host (.obj members) = .ok s) :
    s.data = cur.data ∧ s.currentDataIdx = cur.currentDataIdx := by
  constructor
  · obtain ⟨d, hd, hvalid⟩ := (RuntimeState.fromDict_reads h).data
    rw [hdata] at hd
    obtain rfl : dataJson cur.data = d := Option.some.inj hd
    exact Except.ok.inj (hvalid.symm.trans hwf.data)
  · simp only [RuntimeState.fromDict, bind_ok, exists_unit, mapping_ok, require_ok] at h
    obtain ⟨raw, hraw, hmissing, threadId, -, parentThreadId, -, sessionId,
        -, parentSessionId, -, id, -, parentId, -,
      version, -, compactionId, -, user, -, providerName, -, model, -, usage,
      -, cwd, -, projectCwd, -, timestamp, -, h⟩ := h
    cases hraw
    simp only [postInit, bind_ok, exists_unit, pure_ok, require_ok] at h
    obtain ⟨-, -, status, -, permissionMode, -, runningMode, -, -, firstKept,
        -, -, cwd', -, projectCwd', -, model', -,
      usage', -, data, -, idx, hn, -, -, -, rfl⟩ := h
    rw [natOf_ok, rawField, hidx] at hn
    exact Int.ofNat_inj.mp (Json.int.inj hn).symm

/-- Changes that do not name a member leave it. -/
theorem applyChanges_skips {k : String} : ∀ {changes members members' : Fields},
    (∀ p ∈ changes, wireName (attributeName p.1) ≠ k) →
      applyChanges members changes = .ok members' →
    members'.get k = members.get k
  | [], members, members', _, h => by
    cases h
    rfl
  | (name, value) :: changes, members, members', hne, h => by
    obtain ⟨hname, hrest⟩ := List.forall_mem_cons.mp hne
    rw [applyChanges] at h
    split at h
    · rw [applyChanges_skips hrest h, Fields.get_set, if_neg hname]
    · cases h

theorem write_updateConfig {changes : Fields}
    (hdata : ∀ p ∈ changes, wireName (attributeName p.1) ≠ "data")
    (hidx : ∀ p ∈ changes, wireName (attributeName p.1) ≠ "current_data_idx")
    (h : write t (.updateConfig changes) = .ok t') :
    t'.val.data = t.val.data ∧ t'.val.currentDataIdx = t.val.currentDataIdx := by
  obtain ⟨hnone, -⟩ | ⟨e, hedit, hmembers⟩ := write_ok.mp h
  · simp only [WriterCall.edit, Call.bind_ok, Call.pure_ok] at hnone
    obtain ⟨members, _, -, hnone, -⟩ := hnone
    cases hnone
  · simp only [WriterCall.edit, Call.bind_ok, Call.ofExcept_ok, Call.pure_ok,
      Option.some.injEq] at hedit
    obtain ⟨members, _, ⟨hchanges, -⟩, rfl, -⟩ := hedit
    exact fromDict_data t.property (applyChanges_skips hdata hchanges)
      (applyChanges_skips hidx hchanges)
      (fromMembers_ok.mp hmembers)

/-- The members of a Turn that gets a status. -/
theorem fromDict_status {status : String} {s : RuntimeState}
    (h : RuntimeState.fromDict host (.obj (t.val.toDict.set "status" (.str status))) = .ok s) :
    s.data = t.val.data ∧ s.currentDataIdx = t.val.currentDataIdx :=
  fromDict_data t.property (by simp) (by simp) h

end MiniAgent.Bridge
