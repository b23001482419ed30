import MiniAgent.Turn.RoundTrip

/-!
# Deltas on Turns that show the same

A browser's `data` need not be the writer's, value by value: a frame leaves out what Python takes as
equal. What the reducer does with an operation depends on roles, texts and lengths only, so two
`data` that are equal for Python take the same operations and stay equal (`applyOperations_same`),
and a delta that turns the writer's copy of a Turn into the next one does so on every copy that
shows it (`applyDelta_shows`).
-/

namespace MiniAgent.Turn.Browser

open Lib Json

variable {held data data' : List (List Fields)} {v version : List Fields} {d m i : Nat}

/-! ## Lookups -/

theorem SameData.versionAt (h : SameData held data) (hd : data[d]? = some version) :
    ∃ v, held[d]? = some v ∧ SameVersion v version := by
  have := map_eq_getElem? h d
  rw [hd] at this
  exact Option.map_eq_some_iff.mp this

theorem SameVersion.message {message : Fields} (h : SameVersion v version)
    (hm : version[m]? = some message) :
    ∃ old : Fields, v[m]? = some old ∧ PyEq (.obj old) (.obj message) := by
  have := map_eq_getElem? h m
  rw [hm] at this
  exact Option.map_eq_some_iff.mp this

theorem SameData.set (h : SameData held data) (hv : SameVersion v version) :
    SameData (held.set d v) (data.set d version) := by
  simp only [SameData, List.map_set]
  rw [h, hv]

theorem SameData.roles (h : SameData held data) : held.map roles = data.map roles := by
  apply List.ext_getElem?
  intro k
  have hk := map_eq_getElem? h k
  simp only [List.getElem?_map]
  rcases hv : held[k]? with _ | a <;> rcases hw : data[k]? with _ | b <;> rw [hv, hw] at hk <;>
    simp only [Option.map_none, Option.map_some, reduceCtorEq, Option.some.injEq] at hk ⊢
  exact SameVersion.roles hk

/-- The Items of a Message in both, and both with other Items written back. -/
theorem SameData.items {items : List Json} (h : SameData held data)
    (hi : itemsAt data d m = .ok items) :
    ∃ old, itemsAt held d m = .ok old ∧ old.map canon = items.map canon ∧
      ∀ new items', new.map canon = items'.map canon →
        SameData (setItems held d m new) (setItems data d m items') := by
  obtain ⟨message, hm, hrole, hcontent⟩ := itemsAt_ok.mp hi
  obtain ⟨w, hw, hwm⟩ := Option.bind_eq_some_iff.mp hm
  obtain ⟨v, hv, hsame⟩ := h.versionAt hw
  obtain ⟨old, hvm, heq⟩ := hsame.message hwm
  obtain ⟨l, hl, hcanon⟩ := heq.get_arr hcontent
  refine ⟨l, itemsAt_ok.mpr ⟨old, by rw [messageAt_eq hv, hvm], heq.get_str hrole, hl⟩, hcanon, ?_⟩
  intro new items' hnew
  rw [setItems_eq hv hvm, setItems_eq hw hwm]
  refine h.set ?_
  have hmessage : messageCanon (Fields.set old "content" (.arr new))
      = messageCanon (message.set "content" (.arr items')) := by
    refine (pyEq_set_content (fun k hk => ?_) (by simp)).mpr hnew
    rw [Fields.get_set, if_neg hk]
    exact pyEq_obj.mp heq k
  simp only [SameVersion, List.map_set]
  rw [hsame, hmessage]

/-! ## Operations -/

theorem isUser_canon {a b : Option Json} (h : a.map canon = b.map canon) : isUser a = isUser b := by
  have hiff : a = some (.str "user") ↔ b = some (.str "user") := by
    rw [← map_canon_eq_str, h, map_canon_eq_str]
  unfold isUser
  rw [Bool.eq_iff_iff, beq_iff_eq, beq_iff_eq]
  exact hiff

theorem checkNewMessage_same {message : Fields} (h : SameVersion v version) :
    checkNewMessage v.getLast? message = checkNewMessage version.getLast? message := by
  have hlast : v.getLast?.map messageCanon = version.getLast?.map messageCanon := by
    rw [← List.getLast?_map, ← List.getLast?_map, h]
  have hrole : isUser (v.getLast?.bind fun m => m.get "role")
      = isUser (version.getLast?.bind fun m => m.get "role") := by
    refine isUser_canon ?_
    rcases hv : v.getLast? with _ | a <;> rcases hw : version.getLast? with _ | b <;>
      rw [hv, hw] at hlast <;>
      simp only [Option.map_none, Option.map_some, reduceCtorEq, Option.some.injEq] at hlast
    exact pyEq_obj.mp hlast "role"
  simp only [checkNewMessage, hrole]

theorem applyAppendMessage_same {message : Json} (h : SameData held data)
    (hop : applyAppendMessage data d m message = .ok data') :
    ∃ new, applyAppendMessage held d m message = .ok new ∧ SameData new data' := by
  unfold applyAppendMessage at hop
  split at hop
  · next w message hw =>
    obtain ⟨v, hv, hsame⟩ := h.versionAt hw
    have hlen : v.length = w.length := by simpa using congrArg List.length hsame
    split at hop
    · next hm =>
      simp only [bind_ok, exists_unit, pure_ok] at hop
      obtain ⟨hcheck, rfl⟩ := hop
      refine ⟨held.set d (v ++ [message]), ?_, h.set ?_⟩
      · unfold applyAppendMessage
        rw [hv]
        simp only [hlen, hm, if_true, bind_ok, exists_unit, pure_ok, checkNewMessage_same hsame]
        exact ⟨hcheck, trivial⟩
      · simp only [SameVersion, List.map_append]
        rw [hsame]
    · cases hop
  · cases hop

/-- An operation on Items that reads no more of them than Python's equality keeps. -/
def Likewise (f : List Json → Nat → Except String (List Json)) : Prop :=
  ∀ old items items' i, old.map canon = items.map canon → f items i = .ok items' →
    ∃ new, f old i = .ok new ∧ new.map canon = items'.map canon

theorem likewise_appendItem (item : Json) :
    Likewise fun items i => applyAppendItem items i item := by
  intro old items items' i hsame h
  have hlen : old.length = items.length := by simpa using congrArg List.length hsame
  simp only [applyAppendItem] at h
  split at h
  · next hi =>
    simp only [bind_ok, exists_unit, require_ok, pure_ok] at h
    obtain ⟨hok, hretry, rfl⟩ := h
    refine ⟨old ++ [item], ?_, by rw [List.map_append, List.map_append, hsame]⟩
    simp only [applyAppendItem, hlen, hi, if_true, bind_ok, exists_unit, require_ok, pure_ok]
    exact ⟨hok, hretry, trivial⟩
  · cases h

theorem map_canon_set {old items : List Json} {item held : Fields}
    (hsame : old.map canon = items.map canon) (k : String) (value : Json)
    (heq : PyEq (.obj held) (.obj item)) :
    (old.set i (.obj (held.set k value))).map canon
      = (items.set i (.obj (item.set k value))).map canon := by
  have hitem : canon (.obj (held.set k value)) = canon (.obj (item.set k value)) := by
    refine pyEq_obj.mpr fun k' => ?_
    rw [Fields.get_set, Fields.get_set]
    split
    · rfl
    · exact pyEq_obj.mp heq k'
  rw [List.map_set, List.map_set, hsame, hitem]

theorem likewise_setItemStatus (status : String) :
    Likewise fun items i => applySetItemStatus items i status := by
  intro old items items' i hsame h
  simp only [applySetItemStatus, bind_ok, exists_unit, require_ok] at h
  obtain ⟨hstatus, h⟩ := h
  split at h
  · next item hi =>
    rw [pure_ok] at h
    subst h
    obtain ⟨held, hheld, heq⟩ := exists_held_obj hsame hi
    refine ⟨old.set i (.obj (held.set "status" (.str status))), ?_, map_canon_set hsame _ _ heq⟩
    simp only [applySetItemStatus, bind_ok, exists_unit, require_ok, hheld, pure_ok]
    exact ⟨hstatus, trivial⟩
  · cases h

theorem withText_ok {item grown : Fields} {delta : String} (h : withText item delta = .ok grown) :
    ∃ text, item.get "text" = some (.str text) ∧ hasType item ["text", "reasoning"] = true ∧
      grown = item.set "text" (.str (text ++ delta)) := by
  unfold withText at h
  split at h
  · next text htext =>
    split at h
    · next htype => cases h; exact ⟨text, htext, htype, rfl⟩
    · cases h
  · cases h

theorem hasType_same {held item : Fields} {types : List String} (heq : PyEq (.obj held) (.obj item))
    (h : hasType item types = true) : hasType held types = true := by
  unfold hasType at h
  split at h
  · next s hs => simpa [hasType, heq.get_str hs] using h
  · cases h

theorem likewise_appendText (delta : String) :
    Likewise fun items i => applyAppendText items i delta := by
  intro old items items' i hsame h
  simp only [applyAppendText, bind_ok, exists_unit, require_ok] at h
  obtain ⟨hdelta, h⟩ := h
  split at h
  · next item hi =>
    simp only [bind_ok, pure_ok] at h
    obtain ⟨grown, hgrown, rfl⟩ := h
    obtain ⟨text, htext, htype, rfl⟩ := withText_ok hgrown
    obtain ⟨held, hheld, heq⟩ := exists_held_obj hsame hi
    refine ⟨old.set i (.obj (held.set "text" (.str (text ++ delta)))), ?_,
      map_canon_set hsame _ _ heq⟩
    simp only [applyAppendText, bind_ok, exists_unit, require_ok, hheld,
      withText, heq.get_str htext,
      hasType_same heq htype, if_true, pure_ok, Except.ok.injEq]
    exact ⟨hdelta, _, rfl, rfl⟩
  · cases h

theorem onItems_same {f : List Json → Nat → Except String (List Json)}
    {dataIdx messageIdx itemIdx : Int} (hf : Likewise f) (h : SameData held data)
    (hop : onItems data dataIdx messageIdx itemIdx f = .ok data') :
    ∃ new, onItems held dataIdx messageIdx itemIdx f = .ok new ∧ SameData new data' := by
  simp only [onItems, bind_ok, pure_ok] at hop ⊢
  obtain ⟨d, hd, m, hm, i, hi, items, hitems, items', hf', rfl⟩ := hop
  obtain ⟨old, hold, hsame, hset⟩ := h.items hitems
  obtain ⟨new, hnew, hcanon⟩ := hf old items items' i hsame hf'
  exact ⟨_, ⟨d, hd, m, hm, i, hi, old, hold, new, hnew, rfl⟩, hset new items' hcanon⟩

theorem applyOperation_same {op : Op} (h : SameData held data)
    (hop : applyOperation data op = .ok data') :
    ∃ new, applyOperation held op = .ok new ∧ SameData new data' := by
  cases op with
  | appendMessage dataIdx messageIdx message =>
    simp only [applyOperation, bind_ok] at hop ⊢
    obtain ⟨d, hd, m, hm, hop⟩ := hop
    obtain ⟨new, hnew, hsame⟩ := applyAppendMessage_same h hop
    exact ⟨new, ⟨d, hd, m, hm, hnew⟩, hsame⟩
  | appendItem dataIdx messageIdx itemIdx item =>
    exact onItems_same (likewise_appendItem item) h hop
  | setItemStatus dataIdx messageIdx itemIdx status =>
    exact onItems_same (likewise_setItemStatus status) h hop
  | appendText dataIdx messageIdx itemIdx delta =>
    exact onItems_same (likewise_appendText delta) h hop

theorem applyOperations_same {ops : List Op} (h : SameData held data)
    (hops : applyOperations data ops = .ok data') :
    ∃ new, applyOperations held ops = .ok new ∧ SameData new data' := by
  induction ops generalizing held data with
  | nil => cases hops; exact ⟨held, rfl, h⟩
  | cons op ops ih =>
    simp only [applyOperations, bind_ok] at hops ⊢
    obtain ⟨mid, hop, hrest⟩ := hops
    obtain ⟨mid', hop', hmid⟩ := applyOperation_same h hop
    obtain ⟨new, hnew, hsame⟩ := ih hmid hrest
    exact ⟨new, ⟨mid', hop', hnew⟩, hsame⟩

/-! ## Deltas -/

theorem applyPatch_get {fields others grown : Fields} {patch : Option Json}
    (hfields : ∀ k ∈ RuntimeState.configNames, others.get k = fields.get k)
    (h : applyPatch fields patch = .ok grown) :
    ∃ out, applyPatch others patch = .ok out ∧
      ∀ k ∈ RuntimeState.configNames, out.get k = grown.get k := by
  unfold applyPatch at h ⊢
  split at h
  · cases h; exact ⟨others, rfl, hfields⟩
  · next patch =>
    by_cases ht : jsTruthy patch = true
    · simp only [ht, if_true, bind_ok, exists_unit, require_ok, pure_ok] at h ⊢
      obtain ⟨hobj, hvalid, rfl⟩ := h
      refine ⟨_, ⟨hobj, hvalid, rfl⟩, fun k hk => ?_⟩
      rw [Fields.get_setAll, Fields.get_setAll, hfields k hk]
    · rw [if_neg ht] at h ⊢
      cases h
      exact ⟨others, rfl, hfields⟩

/-- **A delta on every copy.** What a delta makes of one copy of a Turn it makes of every
browser's. -/
theorem applyDelta_shows {host : Host} {s s' : RuntimeState} {copy turn node : RuntimeStateNode}
    {patch : Option Json} {operations : Option (List Op)} (hwf : s'.Wf host)
    (hcopy : Shows copy s) (hnode : Shows node s)
    (h : applyDelta copy patch operations none = .ok turn) (hturn : Shows turn s') :
    ∃ turn', applyDelta node patch operations none = .ok turn' ∧ Shows turn' s' := by
  simp only [applyDelta, applyReportStatuses, bind_ok, exists_unit, require_ok, pure_ok] at h
  obtain ⟨_, ⟨⟩, fields, hpatch, hsome, data, hops, -, rfl⟩ := h
  obtain ⟨out, hout, hget⟩ := applyPatch_get
    (fun k hk => (hnode.fields k hk).trans (hcopy.fields k hk).symm) hpatch
  have hsame : SameData node.data copy.data :=
    (pyEq_dataJson.mp hnode.data).trans (pyEq_dataJson.mp hcopy.data).symm
  obtain ⟨new, hnew, hdata⟩ := applyOperations_same hsame hops
  have hfields : ∀ k ∈ RuntimeState.configNames, out.get k = s'.configFields.get k :=
    fun k hk => (hget k hk).trans (hturn.fields k hk)
  have hdata' : SameData new s'.data := hdata.trans (pyEq_dataJson.mp hturn.data)
  refine ⟨⟨out, new⟩, ?_, hfields, pyEq_dataJson.mpr hdata'⟩
  simp only [applyDelta, applyReportStatuses, bind_ok, exists_unit, require_ok, pure_ok]
  exact ⟨_, rfl, out, hout, hsome, new, hnew, checkResult_ok hwf hfields hdata'.roles, rfl⟩

end MiniAgent.Turn.Browser
