import MiniAgent.Turn.Fidelity
import MiniAgent.Turn.Likewise

/-!
# What a call of the writer sends

One writer streams several Turns. A call on one of them touches nothing the writer holds of another
and emits at most one delta (`Touches`); together with the fidelity of the stream this says what the
delta is for: every browser that shows the Turn before the call shows the Turn after it once it has
applied the delta (`Moves`). `update` is a call of its own, since its frame is the diff of two whole
Turns.
-/

namespace MiniAgent.Turn

open Lib Browser NodeWriter

variable {env : WriterEnv} {key : Key} {w w' w₁ : NodeWriter} {r r' : Int}
  {s s' value : RuntimeState}

/-- Everything a writer holds of one Turn. -/
def NodeWriter.slot (w : NodeWriter) (key : Key) :
    Option RuntimeNode × Option RuntimeState × Option Int :=
  (w.store key, w.dynamic key, w.revisions key)

/-- The writer holds `s` and has emitted it up to revision `r`. -/
structure Keeps (env : WriterEnv) (key : Key) (w : NodeWriter) (r : Int) (s : RuntimeState) :
    Prop where
  wf : s.Wf env.host
  key_eq : s.key = key
  shown : Shown s
  holds : w.dynamic key = some s ∨ w.dynamic key = none ∧ w.store key = some (.turn s)
  revision : w.revisions key = some r

theorem Keeps.of_slot (h : Keeps env key w r s) (hslot : w'.slot key = w.slot key) :
    Keeps env key w' r s := by
  simp only [NodeWriter.slot, Prod.mk.injEq] at hslot
  obtain ⟨hstore, hdyn, hrev⟩ := hslot
  exact ⟨h.wf, h.key_eq, h.shown, by rw [hdyn, hstore]; exact h.holds, hrev.trans h.revision⟩

/-- A browser that holds exactly the writer's Turn. -/
theorem Keeps.tracks (h : Keeps env key w r s) :
    Tracks env key w (runtimeNodeAccumulator.store (turnKey key.1 key.2)
      ⟨s.configFields, s.data⟩ r) r s :=
  ⟨h.wf, h.key_eq, h.shown, h.holds, h.revision,
    ⟨⟨s.configFields, s.data⟩, by simp [Accumulator.store], fun _ _ => rfl, rfl⟩, by
      simp [Accumulator.store]⟩

theorem Tracks.keeps {acc : Accumulator} (h : Tracks env key w acc r s) : Keeps env key w r s :=
  ⟨h.wf, h.key_eq, h.shown, h.holds, h.revision⟩

theorem Keeps.current_eq (h : Keeps env key w r s) : current env key w = (.ok s, w) :=
  h.tracks.current_eq

/-! ## One Turn and no other -/

structure Touches (key : Key) (w w' : NodeWriter) : Prop where
  others : ∀ k, k ≠ key → w'.slot k = w.slot k
  frames : w'.emitted = w.emitted ∨ ∃ r patch ops, w.revisions key = some r ∧
    w'.emitted = w.emitted ++ [.delta key.1 key.2 (r + 1) patch ops]

theorem whenPersist_others {persist : Bool} (h : whenPersist env persist value w = (.ok (), w')) :
    ∀ k, k ≠ value.key → w'.store k = w.store k := by
  intro k hk
  unfold whenPersist at h
  split at h
  · simp only [updateNode, storeWrite, Call.bind_ok, Call.read_ok] at h
    obtain ⟨_, _, ⟨rfl, rfl⟩, h⟩ := h
    rcases hr : env.updateRefusal w.store value with _ | e
    · simp only [hr, Call.bind_ok, Call.ofExcept_ok] at h
      obtain ⟨_, _, ⟨-, rfl⟩, h⟩ := h
      rw [Call.write_ok] at h
      subst h
      exact Function.update_of_ne hk _ _
    · simp [hr] at h
  · obtain ⟨-, rfl⟩ := Call.pure_ok.mp h
    rfl

theorem emitDelta_others {patch : Fields} {ops : List Op} {persist : Bool}
    (h : emitDelta env value patch ops persist w = (.ok (), w')) :
    ∀ k, k ≠ value.key → w'.store k = w.store k := by
  unfold emitDelta at h
  split at h
  · exact whenPersist_others h
  · simp only [Call.bind_ok, Call.read_ok] at h
    obtain ⟨_, _, ⟨rfl, rfl⟩, h⟩ := h
    rcases hr : w.revisions value.key with _ | r
    · simp [hr] at h
    · simp only [hr, Call.bind_ok, emit, setRevision] at h
      obtain ⟨⟨⟩, w₁, h1, ⟨⟩, w₂, h2, h3⟩ := h
      rw [Call.write_ok] at h2 h3
      subst h2 h3
      intro k hk
      exact whenPersist_others h1 k hk

/-- The two steps every method ends with touch the Turn they are about. -/
theorem commit_touches {members patch : Fields} {ops : List Op} {persist : Bool}
    (hemits : env.emitsFrames = true) (hstore : storeDynamic env members w = (.ok value, w₁))
    (hemit : emitDelta env value patch ops persist w₁ = (.ok (), w')) : Touches value.key w w' := by
  obtain ⟨hvalue, rfl⟩ := storeDynamic_ok hstore
  obtain ⟨hdyn, -, hframe⟩ := emitDelta_ok hemits (RuntimeState.fromDict_wf hvalue) hemit
  have hothers := emitDelta_others hemit
  split at hframe
  · refine ⟨fun k hk => ?_, .inl hframe.2⟩
    simp only [NodeWriter.slot, hothers k hk, hdyn, hframe.1, Function.update_of_ne hk]
  · obtain ⟨r, hr, hrev, hout⟩ := hframe
    refine ⟨fun k hk => ?_, .inr ⟨r, patch, ops, hr, hout⟩⟩
    simp only [NodeWriter.slot, hothers k hk, hdyn, hrev, Function.update_of_ne hk]

/-- A Turn rebuilt from members that name `key`. -/
theorem storeDynamic_key {members : Fields} (h : storeDynamic env members w = (.ok value, w₁))
    (hsession : members.get "session_id" = some (.str s.sessionId))
    (hid : members.get "id" = some (.str s.id)) : value.key = s.key := by
  obtain ⟨hvalue, -⟩ := storeDynamic_ok h
  have hreads := RuntimeState.fromDict_reads hvalue
  have h1 : members.get "session_id" = some (.str value.sessionId) :=
    hreads.plain "session_id" (by decide)
  have h2 : members.get "id" = some (.str value.id) := hreads.plain "id" (by decide)
  have e1 : s.sessionId = value.sessionId := by simpa using hsession.symm.trans h1
  have e2 : s.id = value.id := by simpa using hid.symm.trans h2
  rw [RuntimeState.key, RuntimeState.key, e1, e2]

theorem storeDynamic_withData {data : List (List Fields)}
    (h : storeDynamic env (withData s data) w = (.ok value, w₁)) : value.key = s.key :=
  storeDynamic_key h rfl rfl

theorem applyChanges_get {k : String} (hk : k ∉ patchFields) :
    ∀ {changes members members' : Fields}, applyChanges members changes = .ok members' →
      members'.get k = members.get k
  | [], members, members', h => by cases h; rfl
  | (name, value) :: changes, members, members', h => by
    rw [applyChanges] at h
    split at h
    · next hfield =>
      rw [applyChanges_get hk h, Fields.get_set, if_neg]
      exact fun e => hk (e ▸ wireName_mem hfield)
    · cases h

theorem appendMessage_touches {message : Json} {persist : Bool} {out : RuntimeState}
    (hemits : env.emitsFrames = true) (hcur : current env s.key w = (.ok s, w))
    (h : NodeWriter.appendMessage env s.key message persist w = (.ok out, w')) :
    Touches s.key w w' := by
  simp only [NodeWriter.appendMessage, Call.bind_ok, Call.ofExcept_ok, hcur] at h
  obtain ⟨_, _, ⟨⟩, data, _, ⟨-, rfl⟩, value, w₁, hstore, ⟨⟩, w₂, hemit, -, rfl⟩ := h
  exact storeDynamic_withData hstore ▸ commit_touches hemits hstore hemit

theorem appendItems_touches {items : List Json} {messageIdx : Option Int} {persist : Bool}
    {out : RuntimeState} (hemits : env.emitsFrames = true) (hcur : current env s.key w = (.ok s, w))
    (h : NodeWriter.appendItems env s.key items messageIdx persist w = (.ok out, w')) :
    Touches s.key w w' := by
  simp only [NodeWriter.appendItems, Call.bind_ok, hcur, indexOr_ok] at h
  obtain ⟨_, _, ⟨⟩, target, _, ⟨-, rfl⟩, h⟩ := h
  split at h
  · simp at h
  · simp only [Call.bind_ok, Call.ofExcept_ok] at h
    obtain ⟨normalized, _, ⟨-, rfl⟩, data, _, ⟨-, rfl⟩, value, w₁, hstore, ⟨⟩, w₂, hemit, -, rfl⟩ :=
      h
    exact storeDynamic_withData hstore ▸ commit_touches hemits hstore hemit

theorem messagePlace_touch {data : List (List Fields)} {dataIdx : Int} {messageIdx : Option Int}
    {e : Err} {place : MessagePlace}
    (h : messagePlace data dataIdx messageIdx e w = (.ok place, w')) :
    w = w' := by
  simp only [messagePlace, Call.bind_ok, Call.pure_ok, indexOr_ok] at h
  obtain ⟨_, _, ⟨-, rfl⟩, _, _, ⟨-, rfl⟩, -, rfl⟩ := h
  rfl

theorem itemPlace_touch {target fields : Fields} {itemIdx : Int} {e : Err} {item : Nat}
    (h : itemPlace target itemIdx e w = (.ok (item, fields), w')) : w = w' := by
  simp only [itemPlace, Call.bind_ok, indexOr_ok] at h
  obtain ⟨k, _, ⟨-, rfl⟩, h⟩ := h
  rcases hx : (contentOf target)[k]? with _ | x
  · simp [hx] at h
  · rw [hx] at h
    cases x with
    | obj fields => exact (Call.pure_ok.mp h).2
    | _ => simp at h

theorem setItemStatus_touches {dataIdx messageIdx itemIdx : Int} {status : String} {persist : Bool}
    {out : RuntimeState} (hemits : env.emitsFrames = true) (hcur : current env s.key w = (.ok s, w))
    (h : NodeWriter.setItemStatus env s.key dataIdx messageIdx itemIdx status persist w =
      (.ok out, w')) :
    Touches s.key w w' := by
  unfold NodeWriter.setItemStatus at h
  split at h
  · simp at h
  · simp only [Call.bind_ok, hcur, Call.ofExcept_ok] at h
    obtain ⟨_, _, ⟨⟩, place, _, hplace, ⟨item, fields⟩, _, hitem, data, _,
        ⟨-, rfl⟩, value, w₁, hstore,
      ⟨⟩, w₂, hemit, -, rfl⟩ := h
    cases messagePlace_touch hplace
    cases itemPlace_touch hitem
    exact storeDynamic_withData hstore ▸ commit_touches hemits hstore hemit

theorem appendText_touches {dataIdx itemIdx : Int} {messageIdx : Option Int} {delta : String}
    {persist : Bool} {out : RuntimeState} (hemits : env.emitsFrames = true)
    (hcur : current env s.key w = (.ok s, w))
    (h : NodeWriter.appendText env s.key dataIdx messageIdx itemIdx delta persist w =
      (.ok out, w')) :
    Touches s.key w w' := by
  unfold NodeWriter.appendText at h
  split at h
  · rw [hcur] at h
    cases h
    exact ⟨fun _ _ => rfl, .inl rfl⟩
  · simp only [Call.bind_ok, hcur] at h
    obtain ⟨_, _, ⟨⟩, place, _, hplace, h⟩ := h
    cases messagePlace_touch hplace
    split at h
    · simp at h
    · simp only [Call.bind_ok, Call.ofExcept_ok] at h
      obtain ⟨⟨item, fields⟩, _, hitem, text, _, htext, value, w₁, hstore, ⟨⟩, w₂, hemit, -, rfl⟩ :=
        h
      cases itemPlace_touch hitem
      obtain ⟨rfl, -, -⟩ := streamingText_ok htext
      exact storeDynamic_withData hstore ▸ commit_touches hemits hstore hemit

theorem updateConfig_touches {changes : Fields} {out : RuntimeState}
    (hemits : env.emitsFrames = true) (hcur : current env s.key w = (.ok s, w))
    (h : NodeWriter.updateConfig env s.key changes w = (.ok out, w')) : Touches s.key w w' := by
  simp only [NodeWriter.updateConfig, Call.bind_ok, Call.ofExcept_ok, hcur] at h
  obtain ⟨_, _, ⟨⟩, members, _, ⟨hchanges, rfl⟩, value, w₁, hstore, ⟨⟩, w₂, hemit, -, rfl⟩ := h
  have hkey : value.key = s.key := storeDynamic_key hstore
    (applyChanges_get (by decide) hchanges) (applyChanges_get (by decide) hchanges)
  exact hkey ▸ commit_touches hemits hstore hemit

theorem finalize_touches {status : String} {out : RuntimeState} (hemits : env.emitsFrames = true)
    (hcur : current env s.key w = (.ok s, w))
    (h : NodeWriter.finalize env s.key status w = (.ok out, w')) : Touches s.key w w' := by
  unfold NodeWriter.finalize at h
  split at h
  · simp at h
  · simp only [Call.bind_ok, Call.ofExcept_ok, hcur, setDynamic] at h
    obtain ⟨_, _, ⟨⟩, value, w₁, hstore, ⟨⟩, w₂, hemit, ⟨⟩, w₃, hdrop, -, rfl⟩ := h
    rw [Call.write_ok] at hdrop
    subst hdrop
    have hkey : value.key = s.key := storeDynamic_key hstore
      (by rw [Fields.get_set, if_neg (by decide)]; rfl)
      (by rw [Fields.get_set, if_neg (by decide)]; rfl)
    have ht := hkey ▸ commit_touches hemits hstore hemit
    refine ⟨fun k hk => ?_, ht.frames⟩
    rw [← ht.others k hk]
    simp only [NodeWriter.slot, Function.update_of_ne (hkey ▸ hk)]

theorem call_touches {call : WriterCall} (hemits : env.emitsFrames = true)
    (hk : Keeps env key w r s) (h : NodeWriter.step env key w call = some w') :
    Touches key w w' := by
  have hcur := hk.current_eq
  obtain rfl := hk.key_eq
  unfold NodeWriter.step at h
  split at h
  · next out u hcall =>
    cases h
    cases call with
    | appendMessage message persist => exact appendMessage_touches hemits hcur hcall
    | appendItems items messageIdx persist => exact appendItems_touches hemits hcur hcall
    | setItemStatus dataIdx messageIdx itemIdx status persist =>
      exact setItemStatus_touches hemits hcur hcall
    | appendText dataIdx messageIdx itemIdx delta persist =>
      exact appendText_touches hemits hcur hcall
    | updateConfig changes => exact updateConfig_touches hemits hcur hcall
    | finalize status => exact finalize_touches hemits hcur hcall
  · cases h

theorem baseline_others {base : Baseline} {turn out : RuntimeState} (hwf : turn.Wf env.host)
    (hemits : env.emitsFrames = true) (h : base.perform env turn w = (.ok out, w')) :
    ∀ k, k ≠ turn.key → w'.slot k = w.slot k := by
  intro k hk
  have hclone : turn.clone env.host = .ok turn := RuntimeState.clone_eq hwf
  cases base with
  | create =>
    simp only [Baseline.perform, NodeWriter.create, Call.bind_ok, Call.ofExcept_ok, createNode,
      storeWrite, Call.read_ok, setDynamic, emitCreated, hemits, if_true, setRevision, emit] at h
    obtain ⟨_, _, ⟨-, rfl⟩, ⟨⟩, w₁, ⟨_, _, ⟨rfl, rfl⟩, hstore⟩, ⟨⟩, w₂, hdyn, ⟨⟩, w₃,
      ⟨⟨⟩, w₄, hrev, hemit⟩, -, rfl⟩ := h
    rcases hr : env.createRefusal w.store turn with _ | e
    · simp only [hr, Call.bind_ok, Call.ofExcept_ok] at hstore
      obtain ⟨_, _, ⟨-, rfl⟩, hw⟩ := hstore
      rw [Call.write_ok] at hw hdyn hrev hemit
      subst hw hdyn hrev hemit
      simp only [NodeWriter.slot, Function.update_of_ne hk]
    · simp [hr] at hstore
  | snapshot =>
    have hfrom : RuntimeState.fromDict env.host (.obj turn.toDict) = .ok turn := hclone
    simp only [Baseline.perform, NodeWriter.snapshot, Call.bind_ok, Call.ofExcept_ok,
      hfrom, setDynamic,
      emitSnapshot, hemits, Bool.not_true, Bool.false_eq_true, if_false, setRevision, emit] at h
    obtain ⟨_, _, ⟨⟨⟩, rfl⟩, _, _, ⟨-, rfl⟩, ⟨⟩, w₁, hdyn, ⟨⟩, w₂,
      ⟨_, _, ⟨-, rfl⟩, ⟨⟩, w₃, hpersist, ⟨⟩, w₄, hrev, hemit⟩, -, rfl⟩ := h
    rw [Call.write_ok] at hdyn hrev hemit
    obtain ⟨g1, g2, -⟩ := whenPersist_ok hwf hpersist
    have g3 := whenPersist_others hpersist k hk
    subst hdyn hrev hemit
    simp only [NodeWriter.slot, g1, g2, g3, Function.update_of_ne hk]

/-! ## What a delta is for -/

/-- A call leads from the Turn `s` at revision `r` to another Turn and revision: without a frame,
when whoever shows `s` shows it already; or by one delta of parts of the Turn. -/
inductive Moves (key : Key) (w w' : NodeWriter) (r : Int) (s : RuntimeState) :
    Int → RuntimeState → Prop
  | silent {s' : RuntimeState} (frames : w'.emitted = w.emitted)
      (shows_of : ∀ node, Shows node s → Shows node s') : Moves key w w' r s r s'
  | delta {s' : RuntimeState} {patch : Fields} {ops : List Op}
      (parts : s'.Safe → Json.safe (.obj patch) = true ∧ ∀ op ∈ ops, op.Safe)
      (frames : w'.emitted = w.emitted ++ [.delta key.1 key.2 (r + 1) patch ops])
      (applies : ∀ node, Shows node s → ∃ turn, applyDelta node
        (if patch.isEmpty then none else some (.obj patch))
        (if ops.isEmpty then none else some ops) none
          = .ok turn ∧ Shows turn s') : Moves key w w' r s (r + 1) s'

theorem shows_self (s : RuntimeState) : Shows ⟨s.configFields, s.data⟩ s :=
  ⟨fun _ _ => rfl, Json.PyEq.refl _⟩

theorem Mirrors.shows {node : RuntimeStateNode} (h : Mirrors node s) : Shows node s :=
  ⟨h.fields, by rw [h.data]; exact Json.PyEq.refl _⟩

/-- Whoever shows a Turn shows every Turn its own copy shows. -/
theorem shows_trans {node : RuntimeStateNode} (h : Shows node s)
    (hs : Shows ⟨s.configFields, s.data⟩ s') :
    Shows node s' :=
  ⟨fun k hk => (h.fields k hk).trans (hs.fields k hk), h.data.trans hs.data⟩

theorem call_moves {call : WriterCall} (hemits : env.emitsFrames = true) (hk : Keeps env key w r s)
    (hok : Streams env key w call) (h : NodeWriter.step env key w call = some w') :
    ∃ r' s', Keeps env key w' r' s' ∧ Moves key w w' r s r' s' := by
  obtain ⟨acc', r', s', hemit, ht'⟩ := step_tracks hk.tracks hemits hok h
  obtain ⟨shown, hshown, hmirrors⟩ := ht'.node
  refine ⟨r', s', ht'.keeps, ?_⟩
  rcases hemit with ⟨hsame, rfl, rfl⟩ | ⟨frame, node, hnew, -, hparts, happly, rfl⟩
  · refine .silent hsame fun node hnode => shows_trans hnode ?_
    simp only [Accumulator.store, Function.update_self, Option.some.injEq] at hshown
    rw [hshown]
    exact hmirrors.shows
  · rcases (call_touches hemits hk h).frames with hnone | ⟨r₀, patch, ops, hr₀, hframe⟩
    · rw [hnone] at hnew
      simp at hnew
    · rw [hk.revision] at hr₀
      cases hr₀
      obtain rfl : frame = .delta key.1 key.2 (r + 1) patch ops := by
        simpa using hnew.symm.trans hframe
      -- the writer's own copy of the Turn, with the delta applied
      have happly' : applyRuntimeNodeFrame (runtimeNodeAccumulator.store (turnKey key.1 key.2)
          ⟨s.configFields, s.data⟩ r) (NodeFrame.delta key.1 key.2 (r + 1) patch ops).toDict
          = .ok (acc', node) := happly
      simp only [NodeFrame.toDict, applyRuntimeNodeFrame, Accumulator.store,
        Function.update_self, bind_ok,
        exists_unit, require_ok, pure_ok] at happly'
      obtain ⟨-, turn, hturn, heq⟩ := happly'
      simp only [Prod.mk.injEq] at heq
      obtain ⟨rfl, rfl⟩ := heq
      simp only [Function.update_self, Option.some.injEq] at hshown
      subst hshown
      exact .delta hparts hframe fun node hnode =>
        applyDelta_shows ht'.wf (shows_self s) hnode hturn hmirrors.shows

/-! ## Whole Turns -/

/-- `update` with a Turn that the browser admits and in which no Item changed its status and its
text at once. -/
theorem update_moves {node out : RuntimeState} {persist : Bool} (hemits : env.emitsFrames = true)
    (hk : Keeps env node.key w r s) (hwf : node.Wf env.host) (hshown : Shown node)
    (hmixed : ¬ MixedData s.data node.data)
    (h : NodeWriter.update env node persist w = (.ok out, w')) :
    (∃ r', Keeps env node.key w' r' node ∧ Moves node.key w w' r s r' node) ∧
    ∀ k, k ≠ node.key → w'.slot k = w.slot k := by
  have hfrom : RuntimeState.fromDict env.host (.obj node.toDict) = .ok node :=
    RuntimeState.clone_eq hwf
  simp only [NodeWriter.update, Call.bind_ok, Call.ofExcept_ok, hk.current_eq,
    hfrom, updateFrame, hemits,
    Bool.not_true, Bool.false_eq_true, if_false, Call.read_ok] at h
  obtain ⟨_, _, ⟨⟩, _, _, ⟨⟨⟩, rfl⟩, frame, _, ⟨_, _, ⟨rfl, rfl⟩, hframe⟩,
      value, w₁, hstore, ⟨⟩, w₂, hpersist,
    hemit⟩ := h
  rw [hk.revision] at hframe
  simp only [Call.bind_ok, Call.ofExcept_ok, Call.pure_ok] at hframe
  obtain ⟨diff, _, ⟨hdiff, rfl⟩, rfl, rfl⟩ := hframe
  obtain ⟨hvalue, rfl⟩ := storeDynamic_ok hstore
  obtain rfl : node = value := Except.ok.inj (hfrom.symm.trans hvalue)
  obtain ⟨g1, g2, g3, -⟩ := whenPersist_ok hwf hpersist
  have g4 := whenPersist_others hpersist
  obtain ⟨hid, hlen, ops, hops, hout⟩ := between_ok hdiff
  split at hout
  · next hempty =>
    subst hout
    obtain ⟨-, rfl⟩ := Call.ofExcept_ok.mp hemit
    rw [Bool.and_eq_true, List.isEmpty_iff, List.isEmpty_iff] at hempty
    obtain ⟨hpatch, rfl⟩ := hempty
    refine ⟨⟨r, ⟨hwf, rfl, hshown, .inl (by rw [g1]; simp), by rw [g2]; exact hk.revision⟩,
      .silent g3 fun n hn => ⟨fun k hk' => ?_, ?_⟩⟩, fun k hk' => ?_⟩
    · have := get_patched hid hn.fields hk'
      rwa [hpatch] at this
    · exact hn.data.trans (pyEq_dataJson.mpr (versionDeltas_nil hwf.versionOk hlen hops))
    · simp only [NodeWriter.slot, g1, g2, g4 k hk', Function.update_of_ne hk']
  · next hsome =>
    subst hout
    simp only [Option.map_some, Call.bind_ok, emit, setRevision, Call.ofExcept_ok] at hemit
    obtain ⟨⟨⟩, w₃, hframe, ⟨⟩, w₄, hrev, -, rfl⟩ := hemit
    rw [Call.write_ok] at hframe hrev
    subst hframe hrev
    have hparts : node.Safe → Json.safe (.obj (configPatch s node)) = true ∧ ∀ op ∈ ops, op.Safe :=
      fun hsafe => ⟨hsafe.patch, safe_versionDeltas (fun _ hv _ hm => hsafe.message hv hm) hops⟩
    have hframe : w₂.emitted ++ [.delta node.sessionId node.id (r + 1) (configPatch s node) ops]
        = w.emitted ++ [.delta node.key.1 node.key.2 (r + 1) (configPatch s node) ops] := by
          rw [g3]; rfl
    refine ⟨⟨r + 1, ⟨hwf, rfl, hshown, .inl (by simp [g1]), by simp⟩,
      .delta hparts hframe fun n hn => ?_⟩,
      fun k hk' => ?_⟩
    · obtain ⟨turn, happly, hiff⟩ := applyDelta_between hk.wf hwf hshown hn hid hlen hops
        (by simpa using hsome)
      exact ⟨turn, happly, hiff.mpr hmixed⟩
    · simp only [NodeWriter.slot, g1, g2, g4 k hk', Function.update_of_ne hk']

theorem baseline_keeps {base : Baseline} {turn out : RuntimeState} (hemits : env.emitsFrames = true)
    (hwf : turn.Wf env.host) (hshown : Shown turn) (h : base.perform env turn w = (.ok out, w')) :
    Keeps env turn.key w' 0 turn := by
  obtain ⟨hdyn, hrev, -⟩ := baseline_ok hwf hemits h
  exact ⟨hwf, rfl, hshown, .inl hdyn, hrev⟩

end MiniAgent.Turn
