import MiniAgent.Lib.Run
import MiniAgent.Turn.RoundTrip
import MiniAgent.Turn.Writer

/-!
# The stream of a writer and the Turn of a browser

A run of `NodeWriter` on one Turn, and a browser that applies every frame the writer emits, as
`JSON.parse` reads it. The invariant is `Tracks`: the writer's current Turn, the revision of its
last frame and the browser's Turn go together. A method that returns normally either emits nothing
or one frame of the next revision, which the browser applies and which is safe where the new Turn is
(`Emits`); `commit` says so once for the two steps every method ends with, `_store_dynamic` and
`_emit_delta`, and each method only has to show that its operations or its patch turn the old Turn
into the new one and are parts of it.
-/

namespace MiniAgent.Turn

open Lib Browser NodeWriter

/-! ## Calls -/

/-- A call of the writer on one Turn. -/
inductive WriterCall where
  | appendMessage (message : Json) (persist : Bool)
  | appendItems (items : List Json) (messageIdx : Option Int) (persist : Bool)
  | setItemStatus (dataIdx messageIdx itemIdx : Int) (status : String) (persist : Bool)
  | appendText (dataIdx : Int) (messageIdx : Option Int) (itemIdx : Int) (delta : String)
      (persist : Bool)
  | updateConfig (changes : Fields)
  | finalize (status : String)

def WriterCall.perform (env : WriterEnv) (key : Key) : WriterCall → Method RuntimeState
  | .appendMessage message persist => NodeWriter.appendMessage env key message persist
  | .appendItems items messageIdx persist => NodeWriter.appendItems env key items messageIdx persist
  | .setItemStatus dataIdx messageIdx itemIdx status persist =>
    NodeWriter.setItemStatus env key dataIdx messageIdx itemIdx status persist
  | .appendText dataIdx messageIdx itemIdx delta persist =>
    NodeWriter.appendText env key dataIdx messageIdx itemIdx delta persist
  | .updateConfig changes => NodeWriter.updateConfig env key changes
  | .finalize status => NodeWriter.finalize env key status

/-- The writer after a call that returned normally. -/
def NodeWriter.step (env : WriterEnv) (key : Key) (w : NodeWriter) (call : WriterCall) :
    Option NodeWriter :=
  match call.perform env key w with
  | (.ok _, w') => some w'
  | (.error _, _) => none

/-- The calls a stream is made of: indices are not negative, Items go to assistant Messages, a
Message carries an array, and the browser's patch validator admits every config value. -/
def Streams (env : WriterEnv) (key : Key) (w : NodeWriter) : WriterCall → Prop
  | .appendMessage message _ =>
    ∀ m : Fields, message = .obj m → ∃ l, m.get "content" = some (.arr l)
  | .appendItems _ messageIdx _ => ∀ i ∈ messageIdx, 0 ≤ i
  | .setItemStatus dataIdx messageIdx itemIdx _ _ =>
    0 ≤ dataIdx ∧ 0 ≤ messageIdx ∧ 0 ≤ itemIdx ∧
    ∀ s, (current env key w).1 = .ok s →
      ∀ m ∈ messageAt s.data dataIdx.toNat messageIdx.toNat,
        m.get "role" = some (.str "assistant")
  | .appendText dataIdx messageIdx itemIdx _ _ =>
    0 ≤ dataIdx ∧ (∀ i ∈ messageIdx, 0 ≤ i) ∧ 0 ≤ itemIdx
  | .updateConfig changes =>
    ∀ p ∈ changes, patchValueOk (wireName (attributeName p.1)) p.2 = true
  | .finalize status => patchValueOk "status" (.str status) = true

/-- The Turn a call leaves behind has safe integers only. -/
def StaysSafe (env : WriterEnv) (key : Key) (w : NodeWriter) (call : WriterCall) : Prop :=
  ∀ w', NodeWriter.step env key w call = some w' → ∀ s, (current env key w').1 = .ok s → s.Safe

/-! ## The invariant -/

/-- The browser's Turn is `s`, member by member and Item by Item. -/
structure Mirrors (node : RuntimeStateNode) (s : RuntimeState) : Prop where
  fields : ∀ k ∈ RuntimeState.configNames, node.fields.get k = s.configFields.get k
  data : node.data = s.data

structure Tracks (env : WriterEnv) (key : Key) (w : NodeWriter) (acc : Accumulator) (r : Int)
    (s : RuntimeState) : Prop where
  wf : s.Wf env.host
  key_eq : s.key = key
  shown : Shown s
  /-- The dynamic copy, or the stored Turn once it is dropped. -/
  holds : w.dynamic key = some s ∨ w.dynamic key = none ∧ w.store key = some (.turn s)
  revision : w.revisions key = some r
  node : ∃ node, acc.nodes (turnKey key.1 key.2) = some node ∧ Mirrors node s
  accRevision : acc.revisions (turnKey key.1 key.2) = some r

def NodeFrame.revisionOf : NodeFrame → Int
  | .snapshot _ => 0
  | .delta _ _ revision _ _ => revision

/-- One call's emission, which is part of the new Turn `s'`, and what the browser makes of it. -/
def Emits (w w' : NodeWriter) (acc acc' : Accumulator) (r r' : Int) (s' : RuntimeState) : Prop :=
  (w'.emitted = w.emitted ∧ acc' = acc ∧ r' = r) ∨
  ∃ frame node, w'.emitted = w.emitted ++ [frame] ∧ frame.revisionOf = r + 1 ∧
    (s'.Safe → frame.Safe) ∧
    applyRuntimeNodeFrame acc frame.toDict = .ok (acc', node) ∧ r' = r + 1

variable {env : WriterEnv} {key : Key} {w w' w₁ : NodeWriter} {acc : Accumulator} {r : Int}
  {s value : RuntimeState}

theorem Tracks.current_eq (h : Tracks env key w acc r s) : current env key w = (.ok s, w) := by
  have hclone : s.clone env.host = .ok s := RuntimeState.clone_eq h.wf
  unfold NodeWriter.current
  refine Call.bind_ok.mpr ⟨w, w, rfl, ?_⟩
  rcases h.holds with hd | ⟨hd, hs⟩
  · simp [hd, hclone]
  · simp [hd, hs, hclone]

/-! ## The two steps every method ends with -/

theorem storeDynamic_ok {members : Fields} (h : storeDynamic env members w = (.ok value, w₁)) :
    RuntimeState.fromDict env.host (.obj members) = .ok value ∧
    w₁ = { w with dynamic := Function.update w.dynamic value.key (some value) } := by
  simp only [storeDynamic, setDynamic, Call.bind_ok, Call.ofExcept_ok, Call.pure_ok] at h
  obtain ⟨v, _, ⟨hv, rfl⟩, copy, _, ⟨hcopy, rfl⟩, ⟨⟩, _, hw, rfl, rfl⟩ := h
  have hwf := RuntimeState.fromDict_wf hv
  rw [RuntimeState.clone_eq hwf] at hcopy
  cases hcopy
  exact ⟨hv, (Call.write_ok.mp hw).symm⟩

theorem whenPersist_ok {persist : Bool} (hwf : value.Wf env.host)
    (h : whenPersist env persist value w = (.ok (), w')) :
    w'.dynamic = w.dynamic ∧ w'.revisions = w.revisions ∧ w'.emitted = w.emitted ∧
    (persist = true → w'.store value.key = some (.turn value)) := by
  unfold whenPersist at h
  split at h
  · simp only [updateNode, storeWrite, Call.bind_ok, Call.read_ok] at h
    obtain ⟨_, _, ⟨rfl, rfl⟩, h⟩ := h
    rcases hr : env.updateRefusal w.store value with _ | e
    · simp only [hr, Call.bind_ok, Call.ofExcept_ok, RuntimeState.clone_eq hwf] at h
      obtain ⟨_, _, ⟨e, rfl⟩, h⟩ := h
      cases e
      rw [Call.write_ok] at h
      subst h
      simp
    · simp [hr] at h
  · next hp =>
    obtain ⟨-, rfl⟩ := Call.pure_ok.mp h
    exact ⟨rfl, rfl, rfl, fun e => absurd e hp⟩

theorem emitDelta_ok {patch : Fields} {ops : List Op} {persist : Bool}
    (hemits : env.emitsFrames = true) (hwf : value.Wf env.host)
    (h : emitDelta env value patch ops persist w = (.ok (), w')) :
    w'.dynamic = w.dynamic ∧ (persist = true → w'.store value.key = some (.turn value)) ∧
    (if patch.isEmpty && ops.isEmpty then w'.revisions = w.revisions ∧ w'.emitted = w.emitted
     else ∃ r, w.revisions value.key = some r ∧
      w'.revisions = Function.update w.revisions value.key (some (r + 1)) ∧
      w'.emitted = w.emitted ++ [.delta value.sessionId value.id (r + 1) patch ops]) := by
  unfold emitDelta at h
  split at h
  · next hempty =>
    rw [hemits, Bool.not_true, Bool.false_or] at hempty
    obtain ⟨h1, h2, h3, h4⟩ := whenPersist_ok hwf h
    rw [if_pos hempty]
    exact ⟨h1, h4, h2, h3⟩
  · next hempty =>
    rw [hemits, Bool.not_true, Bool.false_or] at hempty
    simp only [Call.bind_ok, Call.read_ok] at h
    obtain ⟨_, _, ⟨rfl, rfl⟩, h⟩ := h
    rcases hr : w.revisions value.key with _ | r
    · simp [hr] at h
    · simp only [hr, Call.bind_ok, emit, setRevision] at h
      obtain ⟨⟨⟩, w₁, h1, ⟨⟩, w₂, h2, h3⟩ := h
      obtain ⟨g1, g2, g3, g4⟩ := whenPersist_ok hwf h1
      rw [Call.write_ok] at h2 h3
      subst h2 h3
      rw [if_neg hempty]
      exact ⟨g1, g4, r, rfl, by simp [g2], by simp [g3]⟩

/-- What a method has to show of its patch and its operations: on a browser that mirrors `s` they
make the Turn `value`, or nothing is sent and the Turn is the same. -/
def Sends (s value : RuntimeState) (patch : Fields) (ops : List Op) : Prop :=
  ∀ node, Mirrors node s →
    if patch.isEmpty && ops.isEmpty then Mirrors node value
    else ∃ turn, applyDelta node (if patch.isEmpty then none else some (.obj patch))
      (if ops.isEmpty then none else some ops) none = .ok turn ∧ Mirrors turn value

/-- **Commit.** Storing a Turn and sending its delta keeps the browser in step. -/
theorem Tracks.commit {members patch : Fields} {ops : List Op} {persist : Bool}
    (h : Tracks env key w acc r s) (hemits : env.emitsFrames = true)
    (hstore : storeDynamic env members w = (.ok value, w₁)) (hkey : value.key = key)
    (hshown : Shown value) (hsends : Sends s value patch ops)
    (hparts : value.Safe → Json.safe (.obj patch) = true ∧ ∀ op ∈ ops, op.Safe)
    (hemit : emitDelta env value patch ops persist w₁ = (.ok (), w')) :
    ∃ acc' r', Emits w w' acc acc' r r' value ∧ Tracks env key w' acc' r' value ∧
      (persist = true → w'.store key = some (.turn value)) := by
  obtain ⟨hvalue, rfl⟩ := storeDynamic_ok hstore
  have hwf := RuntimeState.fromDict_wf hvalue
  obtain ⟨hdyn, hpersist, hframe⟩ := emitDelta_ok hemits hwf hemit
  obtain ⟨node, hnode, hmirrors⟩ := h.node
  have hdyn' : w'.dynamic key = some value := by rw [hdyn, ← hkey]; simp
  rw [hkey] at hpersist hframe
  split at hframe
  · next hempty =>
    have hsame := hsends node hmirrors
    rw [if_pos hempty] at hsame
    refine ⟨acc, r, .inl ⟨hframe.2, rfl, rfl⟩,
      ⟨hwf, hkey, hshown, .inl hdyn', ?_, ⟨node, hnode, hsame⟩,
      h.accRevision⟩, hpersist⟩
    rw [hframe.1]
    exact h.revision
  · next hempty =>
    obtain ⟨r₀, hr₀, hrev, hout⟩ := hframe
    have hr₀ : some r₀ = some r := hr₀.symm.trans h.revision
    cases hr₀
    obtain ⟨turn, happly, hturn⟩ : ∃ turn, applyDelta node _ _ none = .ok turn ∧
        Mirrors turn value := by
      have := hsends node hmirrors
      rwa [if_neg hempty] at this
    have hk : turnKey value.sessionId value.id = turnKey key.1 key.2 := by rw [← hkey]; rfl
    refine ⟨acc.store (turnKey key.1 key.2) turn (r + 1), r + 1,
      .inr ⟨_, turn, hout, rfl, hparts, ?_, rfl⟩,
      ⟨hwf, hkey, hshown, .inl hdyn', ?_, ⟨turn, ?_, hturn⟩, ?_⟩, hpersist⟩
    · simp only [NodeFrame.toDict, applyRuntimeNodeFrame, hk, hnode, h.accRevision, bind_ok,
        exists_unit, require_ok, pure_ok]
      exact ⟨by simp, turn, happly, rfl⟩
    · rw [hrev]; simp
    · simp [Accumulator.store]
    · simp [Accumulator.store]

/-- Operations on `data` alone. -/
theorem sends_of_operations {ops : List Op} (hwf : value.Wf env.host)
    (hv : value = { s with data := value.data })
    (hops : applyOperations s.data ops = .ok value.data) : Sends s value [] ops := by
  intro node hnode
  have hconfig : value.configFields = s.configFields := by rw [hv]; rfl
  have hfields : ∀ k ∈ RuntimeState.configNames, node.fields.get k = value.configFields.get k := by
    rw [hconfig]; exact hnode.fields
  split
  · next hempty =>
    have : ops = [] := by simpa using hempty
    subst this
    exact ⟨hfields, hnode.data.trans (Except.ok.inj hops)⟩
  · next hempty =>
    refine ⟨⟨node.fields, value.data⟩, ?_, hfields, rfl⟩
    simp only [applyDelta, applyReportStatuses, bind_ok, exists_unit, require_ok, pure_ok]
    refine ⟨_, rfl, _, applyPatch_ok rfl, ?_, value.data, ?_,
      checkResult_ok hwf hfields rfl, rfl⟩
    · rw [isEmptyDelta_wire]; simpa using hempty
    · rw [getD_wire, hnode.data]; exact hops

/-- A patch of config members. -/
theorem sends_of_patch {patch : Fields} (hwf : value.Wf env.host) (hdata : value.data = s.data)
    (hvalid : validatePatch patch = .ok ())
    (hpatch : ∀ k ∈ RuntimeState.configNames,
      (patch.get k).or (s.configFields.get k) = value.configFields.get k) :
    Sends s value patch [] := by
  intro node hnode
  have hfields : ∀ k ∈ RuntimeState.configNames,
      (node.fields.setAll patch).get k = value.configFields.get k := fun k hk => by
    rw [Fields.get_setAll, hnode.fields k hk, hpatch k hk]
  split
  · next hempty =>
    have : patch = [] := by simpa using hempty
    subst this
    exact ⟨hfields, hnode.data.trans hdata.symm⟩
  · next hempty =>
    refine ⟨⟨node.fields.setAll patch, node.data⟩, ?_, hfields, hnode.data.trans hdata.symm⟩
    simp only [applyDelta, applyReportStatuses, bind_ok, exists_unit, require_ok, pure_ok]
    refine ⟨_, rfl, _, applyPatch_ok hvalid, ?_, node.data, ?_, checkResult_ok hwf hfields ?_, rfl⟩
    · rw [isEmptyDelta_wire]; simpa using hempty
    · rw [getD_wire]; rfl
    · rw [hnode.data, hdata]

/-! ## Methods on `data` -/

theorem fromDict_withData {host : Host} {data : List (List Fields)} (h : s.Wf host)
    (harr : ∀ version ∈ data, ArrayContent version)
    (hf : RuntimeState.fromDict host (.obj (withData s data)) = .ok value) :
    value = { s with data } := by
  obtain ⟨d, hd, hvalid⟩ := (RuntimeState.fromDict_reads hf).data
  obtain rfl : dataJson data = d := Option.some.inj hd
  have hsame := RuntimeState.fromDict_eq (s := { s with data }) h.compactionId h.cwd h.projectCwd
    h.model hf
  rw [hsame, validateData_keeps harr hvalid]

theorem Tracks.commit_data {data : List (List Fields)} {ops : List Op} {persist : Bool}
    (h : Tracks env key w acc r s) (hemits : env.emitsFrames = true)
    (harr : ∀ version ∈ data, ArrayContent version)
    (hops : applyOperations s.data ops = .ok data)
    (hparts : (∀ version ∈ data, ∀ message ∈ version, Json.safe (.obj message) = true) →
      ∀ op ∈ ops, op.Safe)
    (hstore : storeDynamic env (withData s data) w = (.ok value, w₁))
    (hemit : emitDelta env value [] ops persist w₁ = (.ok (), w')) :
    ∃ acc' r' s', Emits w w' acc acc' r r' s' ∧ Tracks env key w' acc' r' s' := by
  obtain ⟨hvalue, -⟩ := storeDynamic_ok hstore
  have hv := fromDict_withData h.wf harr hvalue
  have hwf := RuntimeState.fromDict_wf hvalue
  have hsends : Sends s value [] ops :=
    sends_of_operations hwf (by rw [hv]) (by rw [hv]; exact hops)
  have hdata : value.data = data := by rw [hv]
  have hsafe : value.Safe → Json.safe (.obj []) = true ∧ ∀ op ∈ ops, op.Safe := fun hs =>
    ⟨rfl, hparts fun version hversion message hmessage => hs.message (hdata ▸ hversion) hmessage⟩
  obtain ⟨acc', r', he, ht, -⟩ := h.commit hemits hstore (by rw [hv]; exact h.key_eq)
    (by rw [hv]; exact ⟨h.shown.provider, h.shown.model⟩) hsends hsafe hemit
  exact ⟨acc', r', value, he, ht⟩

theorem arrayContent_of_wf {host : Host} (h : s.Wf host) :
    ∀ version ∈ s.data, ArrayContent version :=
  fun version hv => (h.versionOk version hv).accepted.arrayContent

/-- The selected version of a Turn. -/
theorem exists_selected {host : Host} (h : s.Wf host) :
    ∃ version, s.data[s.currentDataIdx]? = some version ∧ VersionOk version := by
  obtain ⟨version, hv⟩ : ∃ version, s.data[s.currentDataIdx]? = some version :=
    ⟨_, List.getElem?_eq_getElem h.currentDataIdx⟩
  exact ⟨version, hv, h.versionOk version (List.mem_of_getElem? hv)⟩

theorem appendedMessage_obj {version : List Fields} {m : Fields}
    (hv : s.data[s.currentDataIdx]? = some version) :
    appendedMessage s (.obj m) = dataJson (s.data.set s.currentDataIdx (version ++ [m])) := by
  obtain ⟨hlt, rfl⟩ := List.getElem?_eq_some_iff.mp hv
  simp only [appendedMessage, dataJson]
  rw [List.modify_eq_set_get _ (by simpa using hlt), List.map_set]
  simp [versionJson]

/-- An accepted Message is an object. -/
theorem exists_message_obj {message : Json} {version : List Fields} {data : List (List Fields)}
    (hv : s.data[s.currentDataIdx]? = some version)
    (h : validateData (appendedMessage s message) = .ok data) : ∃ m : Fields, message = .obj m := by
  obtain ⟨l, hl, -, hm⟩ := validateData_ok h
  obtain ⟨hlt, rfl⟩ := List.getElem?_eq_some_iff.mp hv
  have hmem : .arr ((s.data[s.currentDataIdx].map .obj) ++ [message]) ∈ l := by
    simp only [appendedMessage, Json.arr.injEq] at hl
    rw [← hl, List.modify_eq_set_get _ (by simpa using hlt)]
    refine List.mem_iff_getElem?.mpr ⟨s.currentDataIdx, ?_⟩
    rw [List.getElem?_set_self (by simpa using hlt)]
    simp [versionJson]
  obtain ⟨j, out, hout⟩ := mapIdxM'_mem hm _ hmem
  obtain ⟨l', hl', -, hmsgs⟩ := validateVersion_ok hout
  cases hl'
  exact validateMessages_obj hmsgs message (by simp)

theorem arrayContent_set {data : List (List Fields)} {version : List Fields} {k : Nat}
    (h : ∀ v ∈ data, ArrayContent v) (hv : ArrayContent version) :
    ∀ v ∈ data.set k version, ArrayContent v := by
  intro v hmem
  rcases List.mem_or_eq_of_mem_set hmem with h' | rfl
  · exact h v h'
  · exact hv

theorem appendMessage_tracks {message : Json} {persist : Bool} {out : RuntimeState}
    (ht : Tracks env key w acc r s) (hemits : env.emitsFrames = true)
    (hok : Streams env key w (.appendMessage message persist))
    (h : NodeWriter.appendMessage env key message persist w = (.ok out, w')) :
    ∃ acc' r' s', Emits w w' acc acc' r r' s' ∧ Tracks env key w' acc' r' s' := by
  simp only [NodeWriter.appendMessage, Call.bind_ok, Call.ofExcept_ok, ht.current_eq] at h
  obtain ⟨_, _, e, data, _, ⟨hvalid, rfl⟩, value, w₁, hstore, ⟨⟩, w₂, hemit, -, rfl⟩ := h
  cases e
  obtain ⟨version, hv, hversion⟩ := exists_selected ht.wf
  obtain ⟨m, rfl⟩ := exists_message_obj hv hvalid
  obtain ⟨l, hl⟩ := hok m rfl
  have harr : ∀ v ∈ s.data.set s.currentDataIdx (version ++ [m]), ArrayContent v := by
    refine arrayContent_set (arrayContent_of_wf ht.wf) fun x hx => ?_
    rcases List.mem_append.mp hx with hx | hx
    · exact hversion.accepted.arrayContent x hx
    · rw [List.mem_singleton.mp hx]; exact ⟨l, hl⟩
  rw [appendedMessage_obj hv] at hvalid
  obtain rfl := validateData_keeps harr hvalid
  rw [hv, Option.getD_some] at hemit
  have hlt := (List.getElem?_eq_some_iff.mp hv).1
  have hmem : version ++ [m] ∈ s.data.set s.currentDataIdx (version ++ [m]) :=
    List.mem_iff_getElem?.mpr ⟨s.currentDataIdx, by simp [hlt]⟩
  refine ht.commit_data hemits harr ?_ (fun hsafe => ?_) hstore hemit
  · -- the new version is accepted, so the Message may follow the last one
    have hnew : VersionOk (version ++ [m]) := validateData_versionOk hvalid _ hmem
    obtain ⟨role, hrole, hacc⟩ := accepted_append hversion.ne_nil hnew.accepted
    exact appendMessages_apply hrole hacc hv
  · exact List.forall_mem_singleton.mpr (hsafe _ hmem m (by simp))

/-! ### Indices -/

theorem indexOr_ok {n k : Nat} {i : Int} {e : Err} :
    indexOr n i e w = (.ok k, w') ↔ pyIndex n i = some k ∧ w = w' := by
  unfold indexOr
  rcases pyIndex n i with _ | j <;> simp

/-- An index that is not negative addresses what it says. -/
theorem pyIndex_of_nonneg {n k : Nat} {i : Int} (hi : 0 ≤ i) (h : pyIndex n i = some k) :
    i = k ∧ k < n := by
  unfold pyIndex at h
  rw [if_pos hi] at h
  split at h
  · cases h; omega
  · cases h

theorem getD_nonneg {messageIdx : Option Int} {n : Nat} (h : ∀ i ∈ messageIdx, 0 ≤ i)
    (hn : 0 < n) : 0 ≤ messageIdx.getD ((n : Int) - 1) := by
  cases messageIdx with
  | none => simp only [Option.getD_none]; omega
  | some i => exact h i rfl

theorem contentOf_eq {message : Fields} {l : List Json}
    (h : message.get "content" = some (.arr l)) : contentOf message = l := by
  simp [contentOf, h]

/-! ### Items -/

theorem normalizeEach_ok : ∀ {items : List Json} {normalized : List Fields},
    normalizeEach items = .ok normalized → ∀ item ∈ normalized, checkItem item = .ok ()
  | [], normalized, h => by cases h; simp
  | x :: items, normalized, h => by
    simp only [normalizeEach, bind_ok, pure_ok] at h
    obtain ⟨first, hfirst, rest, hrest, rfl⟩ := h
    intro item hitem
    rcases List.mem_append.mp hitem with hi | hi
    · exact normalizeContent_items hfirst item hi
    · exact normalizeEach_ok hrest item hi

theorem appendItemOps_eq (d m : Nat) : ∀ (i : Nat) (items : List Fields),
    appendItemOps d m i items = Turn.appendItems d m i (items.map .obj)
  | _, [] => rfl
  | i, item :: items => by
    simp only [appendItemOps, Turn.appendItems, List.map_cons, appendItemOps_eq d m (i + 1) items]

/-- The contents stay arrays when one Message's content is replaced by another array. -/
theorem arrayContent_setMessage {data : List (List Fields)} {version : List Fields} {d m : Nat}
    {message : Fields} {l : List Json} (h : ∀ v ∈ data, ArrayContent v)
    (hv : ArrayContent version) :
    ∀ v ∈ data.set d (version.set m (message.set "content" (.arr l))), ArrayContent v := by
  refine arrayContent_set h fun x hx => ?_
  rcases List.mem_or_eq_of_mem_set hx with h' | rfl
  · exact hv x h'
  · exact ⟨l, by simp⟩

theorem appendItems_tracks {items : List Json} {messageIdx : Option Int} {persist : Bool}
    {out : RuntimeState} (ht : Tracks env key w acc r s) (hemits : env.emitsFrames = true)
    (hok : Streams env key w (.appendItems items messageIdx persist))
    (h : NodeWriter.appendItems env key items messageIdx persist w = (.ok out, w')) :
    ∃ acc' r' s', Emits w w' acc acc' r r' s' ∧ Tracks env key w' acc' r' s' := by
  obtain ⟨version, hv, hversion⟩ := exists_selected ht.wf
  simp only [NodeWriter.appendItems, Call.bind_ok, ht.current_eq, indexOr_ok] at h
  obtain ⟨_, _, e, target, _, ⟨htarget, rfl⟩, h⟩ := h
  cases e
  rw [hv, Option.getD_some] at htarget
  obtain ⟨hidx, hlt⟩ := pyIndex_of_nonneg
    (getD_nonneg hok (List.length_pos_of_ne_nil hversion.ne_nil)) htarget
  obtain ⟨message, hm⟩ : ∃ message, version[target]? = some message :=
    ⟨_, List.getElem?_eq_getElem hlt⟩
  obtain ⟨l, hl⟩ := hversion.accepted.arrayContent message (List.mem_of_getElem? hm)
  simp only [hv, Option.getD_some, hm, contentOf_eq hl, hidx] at h
  by_cases hrole : message.get "role" = some (.str "assistant")
  · simp only [hrole, bne_self_eq_false, Bool.false_eq_true, if_false, Call.bind_ok,
      Call.ofExcept_ok] at h
    obtain ⟨normalized, _, ⟨hnorm, rfl⟩, data, _, ⟨hvalid, rfl⟩, value, w₁,
        hstore, ⟨⟩, w₂, hemit, -,
      rfl⟩ := h
    have harr : ∀ v ∈ s.data.set s.currentDataIdx (version.set target
        (message.set "content" (.arr (l ++ normalized.map .obj)))), ArrayContent v :=
      arrayContent_setMessage (arrayContent_of_wf ht.wf) hversion.accepted.arrayContent
    obtain rfl := validateData_keeps harr hvalid
    refine ht.commit_data hemits harr ?_ (fun hsafe => ?_) hstore hemit
    · rw [appendItemOps_eq, ← setItems_eq hv hm]
      refine appendItems_apply ?_ (itemsAt_ok.mpr ⟨message, by rw [messageAt_eq hv, hm], hrole, hl⟩)
      intro x hx
      obtain ⟨item, hitem, rfl⟩ := List.mem_map.mp hx
      exact ⟨item, rfl, normalizeEach_ok hnorm item hitem⟩
    · -- the Items are part of the Message that was set
      have hcontent := Json.safe_obj.mp
        (hsafe _ (List.mem_set (List.getElem?_eq_some_iff.mp hv).1 _) _
        (List.mem_set hlt _)) ("content", _)
        (Fields.mem_of_get (by rw [Fields.get_set, if_pos rfl]))
      rw [appendItemOps_eq]
      exact safe_appendItems fun item hitem =>
        Json.safe_arr.mp hcontent item (List.mem_append_right _ hitem)
  · have : (message.get "role" != some (.str "assistant")) = true := by simpa using hrole
    simp [this] at h

/-! ### One Item -/

/-- A place found in the `data` of a constructed Turn by indices that are not negative. -/
structure Placed (s : RuntimeState) (dataIdx : Int) (messageIdx : Option Int)
    (place : MessagePlace) (content : List Json) : Prop where
  version : s.data[place.version]? = some place.messages
  message : place.messages[place.message]? = some place.target
  content : place.target.get "content" = some (.arr content)
  dataIdx_eq : dataIdx = place.version
  messageIdx_eq : messageIdx.getD ((place.messages.length : Int) - 1) = place.message
  arrays : ArrayContent place.messages

theorem messagePlace_ok {dataIdx : Int} {messageIdx : Option Int} {e : Err} {place : MessagePlace}
    {host : Host} (hwf : s.Wf host) (hd : 0 ≤ dataIdx) (hm : ∀ i ∈ messageIdx, 0 ≤ i)
    (h : messagePlace s.data dataIdx messageIdx e w = (.ok place, w')) :
    w = w' ∧ ∃ content, Placed s dataIdx messageIdx place content := by
  simp only [messagePlace, Call.bind_ok, indexOr_ok, Call.pure_ok] at h
  obtain ⟨version, _, ⟨hversion, rfl⟩, message, _, ⟨hmessage, rfl⟩, rfl, rfl⟩ := h
  obtain ⟨hdi, hlt⟩ := pyIndex_of_nonneg hd hversion
  obtain ⟨messages, hmessages⟩ : ∃ messages, s.data[version]? = some messages :=
    ⟨_, List.getElem?_eq_getElem hlt⟩
  have hok := hwf.versionOk messages (List.mem_of_getElem? hmessages)
  rw [hmessages, Option.getD_some] at hmessage
  obtain ⟨hmi, hmlt⟩ := pyIndex_of_nonneg
    (getD_nonneg hm (List.length_pos_of_ne_nil hok.ne_nil)) hmessage
  obtain ⟨target, htarget⟩ : ∃ target, messages[message]? = some target :=
    ⟨_, List.getElem?_eq_getElem hmlt⟩
  obtain ⟨content, hcontent⟩ :=
    hok.accepted.arrayContent target (List.mem_of_getElem? htarget)
  simp only [hmessages, Option.getD_some, htarget]
  exact ⟨trivial, content, hmessages, htarget, hcontent, hdi, hmi, hok.accepted.arrayContent⟩

theorem itemPlace_ok {target fields : Fields} {content : List Json} {itemIdx : Int} {item : Nat}
    {e : Err} (hc : target.get "content" = some (.arr content)) (hi : 0 ≤ itemIdx)
    (h : itemPlace target itemIdx e w = (.ok (item, fields), w')) :
    w = w' ∧ itemIdx = item ∧ content[item]? = some (.obj fields) := by
  simp only [itemPlace, contentOf_eq hc, Call.bind_ok, indexOr_ok] at h
  obtain ⟨k, _, ⟨hk, rfl⟩, h⟩ := h
  obtain ⟨hik, hlt⟩ := pyIndex_of_nonneg hi hk
  rcases hx : content[k]? with _ | x
  · simp [hx] at h
  · rw [hx] at h
    cases x with
    | obj f =>
      simp only [Call.pure_ok, Prod.mk.injEq] at h
      obtain ⟨⟨rfl, rfl⟩, rfl⟩ := h
      exact ⟨rfl, hik, hx⟩
    | _ => simp at h

variable {dataIdx itemIdx : Int} {messageIdx : Option Int} {place : MessagePlace}
  {content : List Json}

theorem Placed.itemsAt (h : Placed s dataIdx messageIdx place content)
    (hrole : place.target.get "role" = some (.str "assistant")) :
    Browser.itemsAt s.data place.version place.message = .ok content :=
  itemsAt_ok.mpr ⟨place.target, by rw [messageAt_eq h.version, h.message], hrole, h.content⟩

/-- The `data` with an Item replaced is what the reducer writes back. -/
theorem Placed.replace_eq (h : Placed s dataIdx messageIdx place content) (item : Nat)
    (fields : Fields) : place.replace s.data item fields
      = setItems s.data place.version place.message (content.set item (.obj fields)) := by
  rw [setItems_eq h.version h.message, MessagePlace.replace, contentOf_eq h.content]

theorem Placed.arrayContent (h : Placed s dataIdx messageIdx place content) {host : Host}
    (hwf : s.Wf host) (item : Nat) (fields : Fields) :
    ∀ v ∈ place.replace s.data item fields, ArrayContent v :=
  arrayContent_setMessage (arrayContent_of_wf hwf) h.arrays

theorem setItemStatus_tracks {messageIdx : Int} {status : String} {persist : Bool}
    {out : RuntimeState} (ht : Tracks env key w acc r s) (hemits : env.emitsFrames = true)
    (hok : Streams env key w (.setItemStatus dataIdx messageIdx itemIdx status persist))
    (h : NodeWriter.setItemStatus env key dataIdx messageIdx itemIdx status persist w
      = (.ok out, w')) :
    ∃ acc' r' s', Emits w w' acc acc' r r' s' ∧ Tracks env key w' acc' r' s' := by
  obtain ⟨hd, hm, hi, htarget⟩ := hok
  have htarget := htarget s (by rw [ht.current_eq])
  unfold NodeWriter.setItemStatus at h
  by_cases hs : itemStatuses.contains status = true
  · simp only [hs, Bool.not_true, Bool.false_eq_true, if_false, Call.bind_ok, ht.current_eq,
      Call.ofExcept_ok] at h
    obtain ⟨_, _, e, place, _, hplace, ⟨item, fields⟩, _, hitem, data, _, ⟨hvalid, rfl⟩, value, w₁,
      hstore, ⟨⟩, w₂, hemit, -, rfl⟩ := h
    cases e
    obtain ⟨rfl, content, hp⟩ := messagePlace_ok ht.wf hd (by simpa using hm) hplace
    obtain ⟨rfl, rfl, hfields⟩ := itemPlace_ok hp.content hi hitem
    have harr := hp.arrayContent ht.wf item (fields.set "status" (.str status))
    obtain rfl := validateData_keeps harr hvalid
    obtain ⟨rfl, rfl⟩ : dataIdx = place.version ∧ messageIdx = place.message :=
      ⟨hp.dataIdx_eq, hp.messageIdx_eq⟩
    refine ht.commit_data hemits harr ?_ (fun _ => safe_setItemStatus) hstore hemit
    have hrole : place.target.get "role" = some (.str "assistant") :=
      htarget place.target (by simp [messageAt, hp.version, hp.message])
    rw [hp.replace_eq]
    refine applyOperations_singleton (onItems_ok (hp.itemsAt hrole) ?_)
    simp only [applySetItemStatus, bind_ok, exists_unit, require_ok, hfields, pure_ok]
    exact ⟨hs, trivial⟩
  · rw [Bool.not_eq_true] at hs
    simp only [hs, Bool.not_false, if_true, Call.raise_ok] at h

theorem streamingText_ok {item : Fields} {text : String}
    (h : streamingText item w = (.ok text, w')) :
    w = w' ∧ item.get "text" = some (.str text) ∧ hasType item ["text", "reasoning"] = true := by
  unfold streamingText at h
  rcases ht : item.get "text" with _ | v
  · simp [ht] at h
  · rw [ht] at h
    cases v with
    | str t =>
      by_cases htype : hasType item ["text", "reasoning"] = true
      · simp only [htype, if_true, Call.pure_ok] at h
        exact ⟨h.2, by rw [h.1], htype⟩
      · simp [htype] at h
    | _ => simp at h

theorem appendText_tracks {delta : String} {persist : Bool} {out : RuntimeState}
    (ht : Tracks env key w acc r s) (hemits : env.emitsFrames = true)
    (hok : Streams env key w (.appendText dataIdx messageIdx itemIdx delta persist))
    (h : NodeWriter.appendText env key dataIdx messageIdx itemIdx delta persist w = (.ok out, w')) :
    ∃ acc' r' s', Emits w w' acc acc' r r' s' ∧ Tracks env key w' acc' r' s' := by
  obtain ⟨hd, hm, hi⟩ := hok
  unfold NodeWriter.appendText at h
  by_cases hdelta : delta = ""
  · rw [if_pos hdelta, ht.current_eq] at h
    cases h
    exact ⟨acc, r, s, .inl ⟨rfl, rfl, rfl⟩, ht⟩
  · rw [if_neg hdelta] at h
    simp only [Call.bind_ok, ht.current_eq] at h
    obtain ⟨_, _, e, place, _, hplace, h⟩ := h
    cases e
    obtain ⟨rfl, content, hp⟩ := messagePlace_ok ht.wf hd hm hplace
    by_cases hrole : place.target.get "role" = some (.str "assistant")
    · simp only [hrole, bne_self_eq_false, Bool.false_eq_true, if_false, Call.bind_ok,
        Call.ofExcept_ok] at h
      obtain ⟨⟨item, fields⟩, _, hitem, text, _, htext, value, w₁, hstore, ⟨⟩, w₂, hemit, -, rfl⟩ :=
        h
      obtain ⟨rfl, rfl, hfields⟩ := itemPlace_ok hp.content hi hitem
      obtain ⟨rfl, htxt, htype⟩ := streamingText_ok htext
      rw [hp.dataIdx_eq, hp.messageIdx_eq] at hemit
      refine ht.commit_data hemits (hp.arrayContent ht.wf item _) ?_
        (fun _ => safe_appendText) hstore hemit
      rw [hp.replace_eq]
      refine applyOperations_singleton (onItems_ok (hp.itemsAt hrole) ?_)
      simp only [applyAppendText, bind_ok, exists_unit, require_ok, hfields, withText, htxt, htype,
        if_true, pure_ok, Except.ok.injEq]
      exact ⟨by simpa using hdelta, _, rfl, rfl⟩
    · have : (place.target.get "role" != some (.str "assistant")) = true := by simpa using hrole
      simp [this] at h

/-! ## Methods on the config -/

/-- Every patchable member has a value the patch validator admits. -/
def PatchValues (members : Fields) : Prop :=
  ∀ k ∈ patchFields, ∀ v, members.get k = some v → patchValueOk k v = true

theorem wireName_mem {field : String} (h : turnConfigFields.contains field = true) :
    wireName field ∈ patchFields := by
  have hall : ∀ f ∈ turnConfigFields, wireName f ∈ patchFields := by decide
  exact hall field (by simpa using h)

theorem applyChanges_ok : ∀ {changes members members' : Fields},
    (∀ p ∈ changes, patchValueOk (wireName (attributeName p.1)) p.2 = true) →
    applyChanges members changes = .ok members' → PatchValues members →
    PatchValues members' ∧ ∀ k, k ∉ patchFields → members'.get k = members.get k
  | [], members, members', _, h, hp => by cases h; exact ⟨hp, fun _ _ => rfl⟩
  | (name, value) :: changes, members, members', hadm, h, hp => by
    rw [applyChanges] at h
    split at h
    · next hfield =>
      have hname := wireName_mem hfield
      have hp' : PatchValues (members.set (wireName (attributeName name)) value) := by
        intro k hk v hv
        rw [Fields.get_set] at hv
        split at hv
        · next e => cases hv; rw [← e]; exact hadm _ List.mem_cons_self
        · exact hp k hk v hv
      obtain ⟨h1, h2⟩ := applyChanges_ok (fun p hp => hadm p (List.mem_cons_of_mem _ hp)) h hp'
      refine ⟨h1, fun k hk => ?_⟩
      rw [h2 k hk, Fields.get_set, if_neg (fun e => hk (by rw [← e]; exact hname))]
    · cases h

theorem patchValues_toDict {host : Host} (h : s.Wf host) (hs : Shown s) : PatchValues s.toDict := by
  intro k hk v hv
  refine patchValueOk_configFields h hs ?_ hk
  rcases List.mem_append.mp (Fields.mem_of_get hv) with hm | hm
  · exact hm
  · obtain ⟨rfl, -⟩ : k = "data" ∧ v = dataJson s.data := by simpa using hm
    exact absurd hk (by decide)

/-- A model object that passes as a patch value gives a model that can be shown. -/
theorem modelShown_of_patchModelOk {raw : Fields} {m : ModelConfig} (h : patchModelOk raw = true)
    (hm : normalizeModel raw = .ok m) : ModelShown m := by
  simp only [patchModelOk, Bool.and_eq_true] at h
  obtain ⟨⟨⟨-, hexceeds⟩, -⟩, hwithin⟩ := h
  simp only [normalizeModel, bind_ok, exists_unit, pure_ok, positiveField_ok] at hm
  obtain ⟨-, _, -, _, -, _, -, context, ⟨hc, -⟩, output, ⟨ho, -⟩, temperature, htemp, rfl⟩ := hm
  rw [Fields.get_setAll] at hc ho htemp
  constructor
  · unfold contextExceedsOutput at hexceeds
    split at hexceeds
    · next c o hcj hoj =>
      have hc' : raw.get "context_length" = some (.int context) := by
        rcases hr : raw.get "context_length" with _ | v
        · rw [hr] at hcj; cases hcj
        · rw [hr] at hc; exact hc
      have ho' : raw.get "output_length" = some (.int output) := by
        rcases hr : raw.get "output_length" with _ | v
        · rw [hr] at hoj; cases hoj
        · rw [hr] at ho; exact ho
      rw [hc', jsInteger_int] at hcj
      rw [ho', jsInteger_int] at hoj
      cases hcj; cases hoj
      exact of_decide_eq_true hexceeds
    · cases hexceeds
  · unfold isWithin at hwithin
    split at hwithin
    · next q hq =>
      rcases hr : raw.get "temperature" with _ | v
      · rw [hr] at hq; cases hq
      · rw [hr] at hq htemp
        simp only [Option.some_or, numberOf, hq, Except.ok.injEq] at htemp
        subst htemp
        simpa using hwithin
    · cases hwithin

theorem shown_of_reads {members : Fields} (hp : PatchValues members)
    (hr : RuntimeState.Reads members value) : Shown value := by
  constructor
  · have := hp "provider_name" (by decide) _ (hr.plain "provider_name" (by decide))
    simpa [patchValueOk, isText] using this
  · obtain ⟨m, hm, hnorm⟩ := hr.model
    have := hp "model" (by decide) _ hm
    exact modelShown_of_patchModelOk
      (by simpa [patchValueOk, isObject, objectValue] using this) hnorm

theorem updateConfig_tracks {changes : Fields} {out : RuntimeState}
    (ht : Tracks env key w acc r s) (hemits : env.emitsFrames = true)
    (hok : Streams env key w (.updateConfig changes))
    (h : NodeWriter.updateConfig env key changes w = (.ok out, w')) :
    ∃ acc' r' s', Emits w w' acc acc' r r' s' ∧ Tracks env key w' acc' r' s' := by
  simp only [NodeWriter.updateConfig, Call.bind_ok, Call.ofExcept_ok, ht.current_eq] at h
  obtain ⟨_, _, e, members, _, ⟨hchanges, rfl⟩, value, w₁, hstore, ⟨⟩, w₂, hemit, -, rfl⟩ := h
  cases e
  obtain ⟨hvalue, -⟩ := storeDynamic_ok hstore
  have hwf := RuntimeState.fromDict_wf hvalue
  have hreads := RuntimeState.fromDict_reads hvalue
  obtain ⟨hp, hkeep⟩ := applyChanges_ok hok hchanges (patchValues_toDict ht.wf ht.shown)
  have hshown := shown_of_reads hp hreads
  -- the members a change cannot name are those of the old Turn
  have hid : ∀ k ∈ turnIdentityFields, s.configFields.get k = value.configFields.get k := by
    intro k hk
    have hk' : k ∈ plainFields ∧ k ∉ patchFields ∧ k ≠ "data" ∧ k ∈ RuntimeState.configNames := by
      revert k; decide
    rw [← hreads.plain k hk'.1, hkeep k hk'.2.1, RuntimeState.toDict, Fields.get_append]
    obtain ⟨v, hv⟩ := exists_config s hk'.2.2.2
    rw [hv]; rfl
  have hdata : value.data = s.data := by
    obtain ⟨d, hd, hvalid⟩ := hreads.data
    rw [hkeep "data" (by decide)] at hd
    obtain rfl : dataJson s.data = d := Option.some.inj hd
    exact Except.ok.inj (hvalid.symm.trans ht.wf.data)
  have hkey : value.key = key := by
    have h1 : some (Json.str s.sessionId) = some (Json.str value.sessionId) :=
      hid "session_id" (by decide)
    have h2 : some (Json.str s.id) = some (Json.str value.id) := hid "id" (by decide)
    simp only [Option.some.injEq, Json.str.injEq] at h1 h2
    rw [← ht.key_eq, RuntimeState.key, RuntimeState.key, h1, h2]
  have hsends : Sends s value (configPatch s value) [] :=
    sends_of_patch hwf hdata (validatePatch_configPatch hwf hshown) fun k hk => by
      have := get_patched hid (fun _ _ => rfl) hk
      rwa [Fields.get_setAll] at this
  obtain ⟨acc', r', he, ht', -⟩ := ht.commit hemits hstore hkey hshown hsends
    (fun hsafe => ⟨hsafe.patch, fun _ hop => absurd hop List.not_mem_nil⟩) hemit
  exact ⟨acc', r', value, he, ht'⟩

/-- Once the stored Turn is the current one, the dynamic copy can be dropped. -/
theorem Tracks.drop (h : Tracks env key w acc r s) (hs : w.store key = some (.turn s)) :
    Tracks env key { w with dynamic := Function.update w.dynamic key none } acc r s :=
  ⟨h.wf, h.key_eq, h.shown, .inr ⟨by simp, hs⟩, h.revision, h.node, h.accRevision⟩

theorem finalize_tracks {status : String} {out : RuntimeState}
    (ht : Tracks env key w acc r s) (hemits : env.emitsFrames = true)
    (hok : Streams env key w (.finalize status))
    (h : NodeWriter.finalize env key status w = (.ok out, w')) :
    ∃ acc' r' s', Emits w w' acc acc' r r' s' ∧ Tracks env key w' acc' r' s' := by
  unfold NodeWriter.finalize at h
  by_cases hr : status = "running"
  · rw [if_pos hr, Call.raise_ok] at h
    exact h.elim
  · rw [if_neg hr] at h
    simp only [Call.bind_ok, Call.ofExcept_ok, ht.current_eq, setDynamic] at h
    obtain ⟨_, _, e, value, w₁, hstore, ⟨⟩, w₂, hemit, ⟨⟩, w₃, hdrop, -, rfl⟩ := h
    cases e
    rw [Call.write_ok] at hdrop
    subst hdrop
    obtain ⟨hvalue, -⟩ := storeDynamic_ok hstore
    have hwf := RuntimeState.fromDict_wf hvalue
    obtain rfl : status = value.status.text := by
      have := (RuntimeState.fromDict_reads hvalue).status
      simpa using this
    -- the members are those of the old Turn with another status
    have hmembers : s.toDict.set "status" (.str value.status.text)
        = { s with status := value.status }.toDict := by
      simp [RuntimeState.toDict, RuntimeState.configFields, Fields.set]
    rw [hmembers] at hvalue
    have hdata : value.data = s.data := by
      obtain ⟨d, hd, hvalid⟩ := (RuntimeState.fromDict_reads hvalue).data
      obtain rfl : dataJson s.data = d := Option.some.inj hd
      exact Except.ok.inj (hvalid.symm.trans ht.wf.data)
    have hv : value = { s with status := value.status } := by
      have := RuntimeState.fromDict_eq (s := { s with status := value.status }) ht.wf.compactionId
        ht.wf.cwd ht.wf.projectCwd ht.wf.model hvalue
      rwa [hdata] at this
    have hkey : value.key = key := by rw [hv]; exact ht.key_eq
    have hsends : Sends s value [("status", .str value.status.text)] [] := by
      refine sends_of_patch hwf hdata ?_ fun k hk => ?_
      · rw [validatePatch_ok]
        intro p hp
        rw [List.mem_singleton.mp hp]
        exact ⟨show "status" ∈ patchFields by decide, hok⟩
      · have hconfig : value.configFields
            = s.configFields.set "status" (.str value.status.text) := by
          conv_lhs => rw [hv]
          simp [RuntimeState.configFields, Fields.set]
        rw [hconfig, Fields.get_set, Fields.get_cons]
        split <;> rfl
    obtain ⟨acc', r', he, ht', hstored⟩ := ht.commit hemits hstore hkey
      (by rw [hv]; exact ⟨ht.shown.provider, ht.shown.model⟩) hsends
      (fun _ => ⟨rfl, fun _ hop => absurd hop List.not_mem_nil⟩) hemit
    rw [hkey]
    exact ⟨acc', r', value, he, ht'.drop (hstored rfl)⟩

/-! ## Whole streams -/

/-- One call keeps the browser in step. -/
theorem step_tracks {call : WriterCall} (ht : Tracks env key w acc r s)
    (hemits : env.emitsFrames = true) (hok : Streams env key w call)
    (h : NodeWriter.step env key w call = some w') :
    ∃ acc' r' s', Emits w w' acc acc' r r' s' ∧ Tracks env key w' acc' r' s' := by
  unfold NodeWriter.step at h
  split at h
  · next out u hcall =>
    cases h
    cases call with
    | appendMessage message persist => exact appendMessage_tracks ht hemits hok hcall
    | appendItems items messageIdx persist => exact appendItems_tracks ht hemits hok hcall
    | setItemStatus dataIdx messageIdx itemIdx status persist =>
      exact setItemStatus_tracks ht hemits hok hcall
    | appendText dataIdx messageIdx itemIdx delta persist =>
      exact appendText_tracks ht hemits hok hcall
    | updateConfig changes => exact updateConfig_tracks ht hemits hok hcall
    | finalize status => exact finalize_tracks ht hemits hok hcall
  · cases h

/-- The call a stream begins with. -/
inductive Baseline where
  | create
  | snapshot

def Baseline.perform (env : WriterEnv) (turn : RuntimeState) : Baseline → Method RuntimeState
  | .create => NodeWriter.create env turn
  | .snapshot => NodeWriter.snapshot env turn

theorem baseline_ok {base : Baseline} {turn out : RuntimeState} (hwf : turn.Wf env.host)
    (hemits : env.emitsFrames = true) (h : base.perform env turn w = (.ok out, w')) :
    w'.dynamic turn.key = some turn ∧ w'.revisions turn.key = some 0 ∧
    w'.emitted = w.emitted ++ [.snapshot turn] := by
  have hclone : turn.clone env.host = .ok turn := RuntimeState.clone_eq hwf
  cases base with
  | create =>
    simp only [Baseline.perform, NodeWriter.create, Call.bind_ok, Call.ofExcept_ok,
      hclone, createNode,
      storeWrite, Call.read_ok, setDynamic, emitCreated, hemits, if_true, setRevision, emit] at h
    obtain ⟨_, _, ⟨e, rfl⟩, ⟨⟩, w₁, ⟨_, _, ⟨rfl, rfl⟩, hstore⟩, ⟨⟩, w₂, hdyn, ⟨⟩, w₃,
      ⟨⟨⟩, w₄, hrev, hemit⟩, -, rfl⟩ := h
    cases e
    rcases hr : env.createRefusal w.store turn with _ | e
    · simp only [hr, Call.bind_ok, Call.ofExcept_ok] at hstore
      obtain ⟨_, _, ⟨-, rfl⟩, hw⟩ := hstore
      rw [Call.write_ok] at hw hdyn hrev hemit
      subst hw hdyn hrev hemit
      simp
    · simp [hr] at hstore
  | snapshot =>
    have hfrom : RuntimeState.fromDict env.host (.obj turn.toDict) = .ok turn := hclone
    simp only [Baseline.perform, NodeWriter.snapshot, Call.bind_ok, Call.ofExcept_ok,
      hfrom, setDynamic,
      emitSnapshot, hemits, Bool.not_true, Bool.false_eq_true, if_false, setRevision, emit] at h
    obtain ⟨_, _, ⟨e, rfl⟩, _, _, ⟨e', rfl⟩, ⟨⟩, w₁, hdyn, ⟨⟩, w₂,
      ⟨_, _, ⟨e'', rfl⟩, ⟨⟩, w₃, hpersist, ⟨⟩, w₄, hrev, hemit⟩, -, rfl⟩ := h
    cases e
    rw [hclone] at e' e''
    cases e'; cases e''
    rw [Call.write_ok] at hdyn hrev hemit
    obtain ⟨g1, g2, g3, -⟩ := whenPersist_ok hwf hpersist
    subst hdyn hrev hemit
    simp [g1, g3]

/-- The writer `w` and a browser that began with `acc₀` and applied what was emitted since. -/
def InStep (env : WriterEnv) (key : Key) (acc₀ : Accumulator) (emitted : List NodeFrame)
    (w : NodeWriter) : Prop :=
  ∃ frames acc s, ∃ r : Nat, w.emitted = emitted ++ frames ∧
    applyFrames acc₀ (frames.map NodeFrame.received) = .ok acc ∧
    frames.map NodeFrame.revisionOf = (List.range (r + 1)).map Int.ofNat ∧
    Tracks env key w acc r s

theorem InStep.step {acc₀ : Accumulator} {emitted : List NodeFrame} {call : WriterCall}
    (hemits : env.emitsFrames = true) (h : InStep env key acc₀ emitted w)
    (hok : Streams env key w call ∧ StaysSafe env key w call)
    (hstep : NodeWriter.step env key w call = some w') : InStep env key acc₀ emitted w' := by
  obtain ⟨frames, acc, s, r, hout, happly, hrev, ht⟩ := h
  obtain ⟨acc', r', s', hemit, ht'⟩ := step_tracks ht hemits hok.1 hstep
  rcases hemit with ⟨hsame, rfl, rfl⟩ | ⟨frame, node, hnew, hnext, hparts, hframe, rfl⟩
  · exact ⟨frames, _, s', r, hsame.trans hout, happly, hrev, ht'⟩
  · refine ⟨frames ++ [frame], acc', s', r + 1, ?_, ?_, ?_, by exact_mod_cast ht'⟩
    · rw [hnew, hout, List.append_assoc]
    · rw [List.map_append, List.map_singleton]
      rw [← NodeFrame.received_of_safe
        (hparts (hok.2 w' hstep s' (by rw [ht'.current_eq])))] at hframe
      exact applyFrames_append happly hframe
    · rw [List.map_append, hrev, List.range_succ (n := r + 1), List.map_append, List.map_singleton,
        List.map_singleton, hnext]
      rfl

theorem applyRuntimeNodeFrame_snapshot {turn : RuntimeState} {acc₀ : Accumulator}
    {node : RuntimeStateNode} (hsafe : turn.Safe)
    (hshown : normalizeRuntimeNode turn.toDict = .ok node)
    (hfresh : acc₀.revisions (turnKey turn.sessionId turn.id) = none) :
    applyRuntimeNodeFrame acc₀ (NodeFrame.received (.snapshot turn))
      = .ok (acc₀.store (turnKey turn.sessionId turn.id) node 0, node) := by
  have hreceived : NodeFrame.received (.snapshot turn) = NodeFrame.toDict (.snapshot turn) :=
    NodeFrame.received_of_safe hsafe
  have hkey : turnKey (jsStringOf (turn.toDict.get "session_id"))
      (jsStringOf (turn.toDict.get "id"))
      = turnKey turn.sessionId turn.id := rfl
  rw [hreceived]
  simp only [NodeFrame.toDict, applyRuntimeNodeFrame, applySnapshot, hkey, bind_ok, exists_unit,
    require_ok, hfresh, pure_ok]
  exact ⟨rfl, rfl, node, hshown, rfl⟩

/-- **Stream fidelity.** From a baseline of a Turn that the browser admits, every run of the writer
through Turns of safe integers emits frames of revisions 0, 1, 2, …, the browser applies them all as
they arrive, and its Turn is the writer's current one. -/
theorem stream_fidelity {base : Baseline} {turn out : RuntimeState} {node : RuntimeStateNode}
    {calls : List WriterCall} {acc₀ : Accumulator} {w₀ : NodeWriter}
    (hemits : env.emitsFrames = true) (hwf : turn.Wf env.host) (hsafe : turn.Safe)
    (hshown : normalizeRuntimeNode turn.toDict = .ok node)
    (hfresh : acc₀.revisions (turnKey turn.sessionId turn.id) = none)
    (hbase : base.perform env turn w₀ = (.ok out, w₁))
    (hok : Meets (NodeWriter.step env turn.key)
      (fun w call => Streams env turn.key w call ∧ StaysSafe env turn.key w call) w₁ calls)
    (hrun : run (NodeWriter.step env turn.key) w₁ calls = some w) :
    ∃ frames acc s shown, w.emitted = w₀.emitted ++ frames ∧
      frames.map NodeFrame.revisionOf = (List.range frames.length).map Int.ofNat ∧
      applyFrames acc₀ (frames.map NodeFrame.received) = .ok acc ∧
      current env turn.key w = (.ok s, w) ∧
      acc.nodes (turnKey turn.sessionId turn.id) = some shown ∧ Mirrors shown s := by
  obtain ⟨hdyn, hrev, hout⟩ := baseline_ok hwf hemits hbase
  obtain ⟨-, hsh, hnode⟩ := (normalizeRuntimeNode_toDict hwf hsafe).mp hshown
  have hstart : InStep env turn.key acc₀ w₀.emitted w₁ := by
    refine ⟨[.snapshot turn], acc₀.store (turnKey turn.sessionId turn.id) node 0, turn, 0, hout, ?_,
      rfl, hwf, rfl, hsh, .inl hdyn, hrev, ⟨node, ?_, ?_⟩, ?_⟩
    · simp only [List.map_singleton, applyFrames,
        applyRuntimeNodeFrame_snapshot hsafe hshown hfresh]
      rfl
    · simp [Accumulator.store, RuntimeState.key]
    · rw [hnode]; exact ⟨fun _ _ => rfl, rfl⟩
    · simp [Accumulator.store, RuntimeState.key]
  obtain ⟨frames, acc, s, r, hframes, happly, hrevs, ht⟩ :=
    run_invariant (fun _ _ _ hi ho hs => InStep.step hemits hi ho hs) hstart hok hrun
  obtain ⟨shown, hshow, hmirrors⟩ := ht.node
  have hlen : frames.length = r + 1 := by simpa using congrArg List.length hrevs
  exact ⟨frames, acc, s, shown, hframes, by rw [hlen]; exact hrevs, happly, ht.current_eq, hshow,
    hmirrors⟩

/-- A writer that emits frames, over a store that takes every write. -/
def sampleEnv : WriterEnv := ⟨sampleHost, true, fun _ _ => none, fun _ _ => none⟩

def sampleWriter : NodeWriter := ⟨fun _ => none, fun _ => none, fun _ => none, []⟩

/-- Text streams into the answer, an Item follows and the Turn is finalized. -/
def sampleCalls : List WriterCall :=
  [.appendText 0 none 0 "b" false, .appendItems [textItem "c"] none true, .finalize "success"]

/-- The writer once the Turn is created. -/
def sampleStart : NodeWriter :=
  (NodeWriter.create sampleEnv (sampleTurn "a" "success") sampleWriter).2

theorem staysSafe_of_check {call : WriterCall}
    (h : ((NodeWriter.step env key w call).all fun w' => match (current env key w').1 with
      | .ok s => Json.safe (.obj s.toDict)
      | .error _ => true) = true) : StaysSafe env key w call := by
  intro w' hstep s hs
  rw [hstep, Option.all_some, hs] at h
  exact h

theorem stream_fidelity_sample : ∃ w frames acc s shown,
    run (NodeWriter.step sampleEnv ("s1", "t1")) sampleStart sampleCalls = some w ∧
    w.emitted = [] ++ frames ∧
    frames.map NodeFrame.revisionOf = (List.range frames.length).map Int.ofNat ∧
    applyFrames runtimeNodeAccumulator (frames.map NodeFrame.received) = .ok acc ∧
    current sampleEnv ("s1", "t1") w = (.ok s, w) ∧
    acc.nodes (turnKey "s1" "t1") = some shown ∧ Mirrors shown s := by
  obtain ⟨w, hw⟩ : ∃ w, run (NodeWriter.step sampleEnv ("s1", "t1")) sampleStart sampleCalls =
      some w :=
    Option.isSome_iff_exists.mp rfl
  have hok : Meets (NodeWriter.step sampleEnv ("s1", "t1")) (fun w call =>
      Streams sampleEnv ("s1", "t1") w call ∧ StaysSafe sampleEnv ("s1", "t1") w call)
      sampleStart sampleCalls := by
    refine ⟨⟨⟨by decide, by simp, by decide⟩, staysSafe_of_check (by decide +kernel)⟩,
      fun _ h => ?_⟩
    cases h
    refine ⟨⟨by simp [Streams], staysSafe_of_check (by decide +kernel)⟩, fun _ h => ?_⟩
    cases h
    exact ⟨⟨by simp [Streams]; decide, staysSafe_of_check (by decide +kernel)⟩, fun _ _ => trivial⟩
  have hbase : Baseline.create.perform sampleEnv (sampleTurn "a" "success") sampleWriter
      = (.ok (sampleTurn "a" "success"), sampleStart) := rfl
  have hfresh : runtimeNodeAccumulator.revisions (turnKey "s1" "t1") = none := rfl
  obtain ⟨frames, acc, s, shown, h⟩ := stream_fidelity rfl (sampleTurn_wf "a" .success)
    (sampleTurn_safe "a" .success) (normalizeRuntimeNode_sampleTurn "a" .success)
      hfresh hbase hok hw
  exact ⟨w, frames, acc, s, shown, hw, h⟩

/-- A tool call with an argument that is no double. -/
def largeCall : Json :=
  .obj [("type", .str "tool_call"), ("call_id", .str "c1"), ("name", .str "read_channel"),
    ("arguments", .obj [("channel_id", .int 1234567890123456789)]), ("status", .str "running")]

/-- A Turn whose model has a blank name. -/
def blankModelTurn : RuntimeState :=
  { sampleTurn "a" "running" with model := { defaultModel with currentModel := " " } }

theorem blankModelTurn_wf : blankModelTurn.Wf sampleHost := by
  have h := sampleTurn_wf "a" .running
  exact ⟨h.threadId, h.sessionId, h.id, h.version, h.parents, h.mainRoot,
    h.forkRoot, h.compactionId,
    h.timestamp, h.cwd, h.projectCwd, ⟨by decide, by decide, by decide⟩, h.data,
    h.currentDataIdx, h.ends, h.settled⟩

/-- Two streams that the browser does not show. The patch validator admits every value of a Turn
whose baseline is refused, and the frame of a call with a large integer is applied with another
one. -/
theorem stream_not_shown :
    (blankModelTurn.Wf sampleHost ∧ PatchValues blankModelTurn.toDict ∧
      ∃ w, NodeWriter.create sampleEnv blankModelTurn sampleWriter = (.ok blankModelTurn, w) ∧
        ¬ ∃ acc, applyFrames runtimeNodeAccumulator (w.emitted.map NodeFrame.received) = .ok acc) ∧
    ∃ w acc s shown,
      NodeWriter.step sampleEnv ("s1", "t1") sampleStart (.appendItems [largeCall] none false) =
        some w ∧
      applyFrames runtimeNodeAccumulator (w.emitted.map NodeFrame.received) = .ok acc ∧
      current sampleEnv ("s1", "t1") w = (.ok s, w) ∧
      acc.nodes (turnKey "s1" "t1") = some shown ∧ ¬ Mirrors shown s := by
  constructor
  · have hwf := blankModelTurn_wf
    have hshown : Shown blankModelTurn := ⟨by decide, ⟨by decide, by decide, by decide⟩⟩
    refine ⟨hwf, patchValues_toDict hwf hshown, _, rfl, ?_⟩
    rintro ⟨acc, hacc⟩
    have hrefused : applyFrames runtimeNodeAccumulator
        [NodeFrame.received (.snapshot blankModelTurn)] = .error "Invalid Turn model" := rfl
    cases hrefused.symm.trans hacc
  · refine ⟨_, _, _, _, rfl, rfl, rfl, rfl, fun h => ?_⟩
    exact absurd h.data (by decide +kernel)

end MiniAgent.Turn
