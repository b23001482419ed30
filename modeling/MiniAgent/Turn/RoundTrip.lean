import MiniAgent.Turn.DataDelta

/-!
# The delta round trip

`NodeFrame.between` against `applyRuntimeNodeFrame`. The config members travel in the patch, and
since a Turn's members are typed, two that Python takes as equal are equal (`eq_of_pyEq_config`).
With the data lemma this gives the round trip: a frame of safe integers is always applied, and the
Turn it leaves behind is `after` exactly when no Item changed its status and its text at once.
-/

namespace MiniAgent.Turn.Browser

open Lib Json

/-! ## Config members -/

theorem pyEq_modelDict {m m' : ModelConfig} (h : PyEq (.obj m.toDict) (.obj m'.toDict)) :
    m = m' := by
  have hget := pyEq_obj.mp h
  have h1 : PyEq (.str m.reasoningEffort.text) (.str m'.reasoningEffort.text) :=
    Option.some.inj (hget "reasoning_effort")
  have h2 : PyEq (.str m.currentModel) (.str m'.currentModel) :=
    Option.some.inj (hget "current_model")
  have h3 : PyEq (.int m.contextLength) (.int m'.contextLength) :=
    Option.some.inj (hget "context_length")
  have h4 : PyEq (.int m.outputLength) (.int m'.outputLength) :=
    Option.some.inj (hget "output_length")
  have h5 : PyEq (.str m.thinking.text) (.str m'.thinking.text) := Option.some.inj (hget "thinking")
  have h6 : PyEq (.float m.temperature) (.float m'.temperature) :=
    Option.some.inj (hget "temperature")
  have e1 : m.reasoningEffort = m'.reasoningEffort :=
    Option.some.inj (by rw [← ReasoningEffort.ofText_text, h1.str_inj, ReasoningEffort.ofText_text])
  have e5 : m.thinking = m'.thinking :=
    Option.some.inj (by rw [← ThinkingMode.ofText_text, h5.str_inj, ThinkingMode.ofText_text])
  exact ModelConfig.ext e1 h2.str_inj h3.int_inj h4.int_inj e5 h6.float_inj

theorem tokenJson_inj {n n' : Option Nat} (h : PyEq (tokenJson n) (tokenJson n')) : n = n' := by
  cases n <;> cases n' <;> simp only [tokenJson] at h
  · rfl
  · simp [PyEq, canon] at h
  · simp [PyEq, canon] at h
  · rw [Int.ofNat_inj.mp h.int_inj]

theorem pyEq_usageDict {u u' : Usage} (h : PyEq (.obj u.toDict) (.obj u'.toDict)) : u = u' := by
  have hget := pyEq_obj.mp h
  have h1 : u.inputTokens = u'.inputTokens := tokenJson_inj (Option.some.inj (hget "input_tokens"))
  have h2 : u.cachedTokens = u'.cachedTokens :=
    tokenJson_inj (Option.some.inj (hget "cached_tokens"))
  have h3 : u.outputTokens = u'.outputTokens :=
    tokenJson_inj (Option.some.inj (hget "output_tokens"))
  have h4 : u.reasoningTokens = u'.reasoningTokens :=
    tokenJson_inj (Option.some.inj (hget "reasoning_tokens"))
  have h5 : u.totalTokens = u'.totalTokens := tokenJson_inj (Option.some.inj (hget "total_tokens"))
  exact Usage.ext h1 h2 h3 h4 h5

/-- Config members that Python takes as equal are equal. -/
theorem eq_of_pyEq_config {b a : RuntimeState} {k : String} {v w : Json}
    (hb : b.configFields.get k = some v) (ha : a.configFields.get k = some w) (h : PyEq v w) :
    v = w := by
  have hk : k ∈ RuntimeState.configNames := by
    rw [← RuntimeState.keys_configFields b]
    exact List.mem_map_of_mem (f := Prod.fst) (Fields.mem_of_get hb)
  simp only [RuntimeState.configNames, requiredFields, List.dropLast, List.mem_cons,
    List.not_mem_nil, or_false] at hk
  rcases hk with rfl | rfl | rfl | rfl | rfl | rfl | rfl | rfl | rfl | rfl | rfl | rfl | rfl | rfl |
    rfl | rfl | rfl | rfl | rfl | rfl <;> cases hb <;> cases ha
  all_goals first
    | rw [h.str_inj]
    | rw [h.int_inj]
    | rw [pyEq_modelDict h]
    | rw [pyEq_usageDict h]

/-- The identity members and the patched ones are all there is. -/
theorem mem_patchFields {k : String} (hk : k ∈ RuntimeState.configNames)
    (hid : turnIdentityFields.contains k = false) : k ∈ patchFields := by
  revert k
  decide

theorem get_configPatch (before after : RuntimeState) (k : String) :
    (configPatch before after).get k = (after.configFields.get k).filter fun v =>
      !turnIdentityFields.contains k && !pyEqB ((before.configFields.get k).getD .null) v :=
  Fields.get_filter (by rw [RuntimeState.keys_configFields]; decide) _ _

theorem exists_config (s : RuntimeState) {k : String} (hk : k ∈ RuntimeState.configNames) :
    ∃ v, s.configFields.get k = some v := by
  rw [← RuntimeState.keys_configFields s] at hk
  obtain ⟨⟨k, v⟩, hp, rfl⟩ := List.mem_map.mp hk
  exact ⟨v, RuntimeState.get_configFields hp⟩

/-- Over members that show `before`, the patch leaves members that show `after`. -/
theorem get_patched {before after : RuntimeState} {fields : Fields}
    (hid : ∀ k ∈ turnIdentityFields, before.configFields.get k = after.configFields.get k)
    (hfields : ∀ k ∈ RuntimeState.configNames, fields.get k = before.configFields.get k)
    {k : String} (hk : k ∈ RuntimeState.configNames) :
    (fields.setAll (configPatch before after)).get k = after.configFields.get k := by
  rw [Fields.get_setAll, get_configPatch, hfields k hk]
  obtain ⟨b, hb⟩ := exists_config before hk
  obtain ⟨a, ha⟩ := exists_config after hk
  rw [hb, ha, Option.getD_some]
  by_cases hident : k ∈ turnIdentityFields
  · have := hid k hident
    rw [hb, ha] at this
    simp [Option.filter, hident, this]
  · by_cases heq : PyEq b a
    · obtain rfl := eq_of_pyEq_config hb ha heq
      simp [Option.filter, pyEqB_iff.mpr heq]
    · have : pyEqB b a = false := by rw [← Bool.not_eq_true, pyEqB_iff]; exact heq
      simp [Option.filter, this, hident]

theorem validatePatch_ok {patch : Fields} :
    validatePatch patch = .ok () ↔ ∀ p ∈ patch, p.1 ∈ patchFields ∧
      patchValueOk p.1 p.2 = true := by
  induction patch with
  | nil => simp [validatePatch]
  | cons p rest ih =>
    obtain ⟨k, v⟩ := p
    simp only [validatePatch, validatePatchValue, bind_ok, exists_unit, require_ok, ih,
      List.contains_iff_mem, List.forall_mem_cons, and_assoc]

theorem applyPatch_ok {fields patch : Fields} (h : validatePatch patch = .ok ()) :
    applyPatch fields (if patch.isEmpty then none else some (.obj patch))
      = .ok (fields.setAll patch) := by
  cases patch with
  | nil => rfl
  | cons p rest =>
    simp only [List.isEmpty_cons, Bool.false_eq_true, if_false, applyPatch,
      jsTruthy, if_true, bind_ok,
      exists_unit, require_ok, pure_ok, objectValue]
    exact ⟨rfl, h, trivial⟩

theorem validatePatch_configPatch {host : Host} {before after : RuntimeState}
    (h : after.Wf host) (hs : Shown after) : validatePatch (configPatch before after) = .ok () := by
  rw [validatePatch_ok]
  rintro ⟨k, v⟩ hp
  obtain ⟨hmem, htest⟩ := List.mem_filter.mp hp
  have hk : k ∈ RuntimeState.configNames := by
    rw [← RuntimeState.keys_configFields after]
    exact List.mem_map_of_mem (f := Prod.fst) hmem
  rw [Bool.and_eq_true, Bool.not_eq_true'] at htest
  have hpatch := mem_patchFields hk htest.1
  exact ⟨hpatch, patchValueOk_configFields h hs hmem hpatch⟩

/-! ## The accumulator and the Turn it holds -/

/-- The browser's Turn equals `s` in every member of `to_dict`. -/
structure Shows (node : RuntimeStateNode) (s : RuntimeState) : Prop where
  fields : ∀ k ∈ RuntimeState.configNames, node.fields.get k = s.configFields.get k
  data : PyEq (dataJson node.data) (dataJson s.data)

/-- The accumulator holds `s` at revision `r`. -/
structure Holds (acc : Accumulator) (s : RuntimeState) (r : Int) : Prop where
  node : ∃ node, acc.nodes (turnKey s.sessionId s.id) = some node ∧ Shows node s
  revision : acc.revisions (turnKey s.sessionId s.id) = some r

theorem holds_store {acc : Accumulator} {s : RuntimeState} {node : RuntimeStateNode} {r : Int}
    (h : Shows node s) : Holds (acc.store (turnKey s.sessionId s.id) node r) s r :=
  ⟨⟨node, by simp [Accumulator.store], h⟩, by simp [Accumulator.store]⟩

/-! ## Frames -/

theorem between_ok {before after : RuntimeState} {r : Int} {out : Option NodeFrame}
    (h : NodeFrame.between before after r = .ok out) :
    (∀ k ∈ turnIdentityFields, before.configFields.get k = after.configFields.get k) ∧
    before.data.length = after.data.length ∧
    ∃ ops, versionDeltas 0 before.data after.data = some ops ∧
      out = if (configPatch before after).isEmpty && ops.isEmpty then none
        else some (.delta after.sessionId after.id r (configPatch before after) ops) := by
  unfold NodeFrame.between at h
  split at h
  · cases h
  · next hid =>
    rw [List.any_eq_true, not_exists] at hid
    have hident : ∀ k ∈ turnIdentityFields,
        before.configFields.get k = after.configFields.get k := by
      intro k hk
      have hk' : k ∈ RuntimeState.configNames := by revert k; decide
      obtain ⟨b, hb⟩ := exists_config before hk'
      obtain ⟨a, ha⟩ := exists_config after hk'
      have := hid k
      rw [hb, ha] at this ⊢
      simp only [hk, true_and, Option.getD_some, Bool.not_eq_true', Bool.not_eq_false,
        pyEqB_iff] at this
      rw [eq_of_pyEq_config hb ha this]
    split at h
    · cases h
    · next ops hops =>
      unfold dataDeltaOperations at hops
      split at hops
      · cases hops
      · next hlen =>
        refine ⟨hident, not_not.mp hlen, ops, hops, ?_⟩
        dsimp only at h
        split at h <;> cases h <;> simp [*]

theorem endsWithAssistant_of_roles {v w : List (List Fields)} (h : v.map roles = w.map roles)
    (hw : endsWithAssistant w = true) : endsWithAssistant v = true := by
  have hlast : ∀ version : List Fields,
      ((version.getLast?.bind fun m => m.get "role") == some (.str "assistant")) = true ↔
      (roles version).getLast? = some (some (.str "assistant")) := by
    intro version
    rw [roles, List.getLast?_map, beq_iff_eq]
    cases version.getLast? with
    | none => simp
    | some m => simp only [Option.bind_some, Option.map_some, Option.some.injEq, map_canon_eq_str]
  unfold endsWithAssistant at hw ⊢
  rw [List.all_eq_true] at hw ⊢
  intro version hv
  have : roles version ∈ w.map roles := h ▸ List.mem_map_of_mem hv
  obtain ⟨version', hv', he⟩ := List.mem_map.mp this
  rw [hlast, ← he, ← hlast]
  exact hw version' hv'

/-- An empty part left out of a frame reads back as empty. -/
theorem isEmptyDelta_wire (patch : Fields) (ops : List Op) :
    isEmptyDelta (if patch.isEmpty then none else some (.obj patch))
      (if ops.isEmpty then none else some ops) = (patch.isEmpty && ops.isEmpty) := by
  cases patch <;> cases ops <;> rfl

theorem getD_wire (ops : List Op) : (if ops.isEmpty then none else some ops).getD [] = ops := by
  cases ops <;> rfl

variable {host : Host}

theorem checkResult_ok {s : RuntimeState} {turn : RuntimeStateNode} (h : s.Wf host)
    (hfields : ∀ k ∈ RuntimeState.configNames, turn.fields.get k = s.configFields.get k)
    (hroles : turn.data.map roles = s.data.map roles) : checkResult turn = .ok () := by
  have hlen : turn.data.length = s.data.length := by simpa using congrArg List.length hroles
  have hidx : turn.fields.get "current_data_idx" = some (.int s.currentDataIdx) :=
    hfields _ (by decide)
  have hstatus : turn.fields.get "status" = some (.str s.status.text) := hfields _ (by decide)
  simp only [checkResult, bind_ok, exists_unit, require_ok]
  refine ⟨?_, ?_⟩
  · rw [versionAt, hidx, jsInteger_int]
    have hlt : s.currentDataIdx < turn.data.length := hlen ▸ h.currentDataIdx
    simp [hlt]
  · by_cases hr : s.status = .running
    · simp [hstatus, hr, NodeStatus.text]
    · rw [Bool.or_eq_true]
      exact .inr (endsWithAssistant_of_roles hroles (by rw [endsWithAssistant_eq]; exact h.ends hr))

/-- **Every delta is applied.** What it leaves behind differs from `after` at most in the status of
an Item whose text grew with it. -/
theorem applyDelta_between {before after : RuntimeState} {node : RuntimeStateNode} {ops : List Op}
    (hb : before.Wf host) (ha : after.Wf host) (hshown : Shown after) (hnode : Shows node before)
    (hid : ∀ k ∈ turnIdentityFields, before.configFields.get k = after.configFields.get k)
    (hlen : before.data.length = after.data.length)
    (hops : versionDeltas 0 before.data after.data = some ops)
    (hsome : ((configPatch before after).isEmpty && ops.isEmpty) = false) :
    ∃ turn, applyDelta node
        (if (configPatch before after).isEmpty then none
          else some (.obj (configPatch before after)))
        (if ops.isEmpty then none else some ops) none = .ok turn ∧
      (Shows turn after ↔ ¬ MixedData before.data after.data) := by
  have hfields := fun k (hk : k ∈ RuntimeState.configNames) => get_patched hid hnode.fields hk
  obtain ⟨new, hiff, hroles, happly⟩ := versionDeltas_apply hb.versionOk ha.versionOk
    (pyEq_dataJson.mp hnode.data) hlen
    (show versionDeltas ([] : List (List Fields)).length before.data after.data =
      some ops from hops)
  refine ⟨⟨node.fields.setAll (configPatch before after), new⟩, ?_, ?_⟩
  · simp only [applyDelta, applyReportStatuses, bind_ok, exists_unit, require_ok, pure_ok,
      isEmptyDelta_wire, getD_wire, hsome]
    exact ⟨_, rfl, _, applyPatch_ok (validatePatch_configPatch ha hshown), rfl, new, happly,
      checkResult_ok ha hfields hroles, rfl⟩
  · rw [← hiff, ← pyEq_dataJson]
    exact ⟨fun h => h.data, fun h => ⟨hfields, h⟩⟩

theorem pyEq_toDict {before after : RuntimeState}
    (hfields : ∀ k ∈ RuntimeState.configNames,
      before.configFields.get k = after.configFields.get k)
    (hdata : PyEq (dataJson before.data) (dataJson after.data)) :
    PyEq (.obj before.toDict) (.obj after.toDict) := by
  refine pyEq_obj.mpr fun k => ?_
  have hall : before.configFields.get k = after.configFields.get k := by
    by_cases hk : k ∈ RuntimeState.configNames
    · exact hfields k hk
    · rw [Fields.get_eq_none (by rw [RuntimeState.keys_configFields]; exact hk),
        Fields.get_eq_none (by rw [RuntimeState.keys_configFields]; exact hk)]
  simp only [RuntimeState.toDict, Fields.get_append, hall]
  rcases after.configFields.get k with _ | v
  · by_cases hk : "data" = k
    · subst hk; exact congrArg some hdata
    · simp [Fields.get_cons, hk]
  · rfl

/-- **Delta round trip.** Let the integers of `after` be safe. Where `delta` returns a frame, the
browser holding `before` applies it and holds `after`, in every member and every Item, exactly when
no Item changed its status and its text at once; where it returns none, the Turns are equal. -/
theorem delta_round_trip {before after : RuntimeState} {shown : RuntimeStateNode}
    {acc : Accumulator} {r : Int} (hb : before.Wf host) (ha : after.Wf host) (hsafe : after.Safe)
    (hshown : normalizeRuntimeNode after.toDict = .ok shown) (hacc : Holds acc before r) :
    (∀ frame, NodeFrame.between before after (r + 1) = .ok (some frame) →
      ((∃ acc' node, applyRuntimeNodeFrame acc frame.received = .ok (acc', node) ∧
          Shows node after ∧ Holds acc' after (r + 1)) ↔
        ¬ MixedData before.data after.data)) ∧
    (NodeFrame.between before after (r + 1) = .ok none →
      PyEq (.obj before.toDict) (.obj after.toDict)) := by
  constructor
  · intro frame h
    obtain ⟨hid, hlen, ops, hops, hout⟩ := between_ok h
    split at hout
    · cases hout
    · next hsome =>
      cases hout
      obtain ⟨node, hnode, hshows⟩ := hacc.node
      have hkey : turnKey after.sessionId after.id = turnKey before.sessionId before.id := by
        have h1 : some (str before.sessionId) = some (str after.sessionId) :=
          hid "session_id" (by decide)
        have h2 : some (str before.id) = some (str after.id) := hid "id" (by decide)
        simp only [Option.some.injEq, str.injEq] at h1 h2
        rw [h1, h2]
      obtain ⟨turn, happly, hiff⟩ := applyDelta_between hb ha
        ((normalizeRuntimeNode_toDict ha hsafe).mp hshown).2.1 hshows hid hlen hops
        (by simpa using hsome)
      have hparts : NodeFrame.Safe (.delta after.sessionId after.id (r + 1)
          (configPatch before after) ops) :=
        ⟨hsafe.patch, safe_versionDeltas (fun _ hv _ hm => hsafe.message hv hm) hops⟩
      have hframe : applyRuntimeNodeFrame acc (NodeFrame.received (.delta after.sessionId after.id
          (r + 1) (configPatch before after) ops))
          = .ok (acc.store (turnKey after.sessionId after.id) turn (r + 1), turn) := by
        rw [NodeFrame.received_of_safe hparts]
        simp only [NodeFrame.toDict, applyRuntimeNodeFrame, hkey, hnode, hacc.revision, bind_ok,
          exists_unit, require_ok, pure_ok]
        exact ⟨by simp, turn, happly, rfl⟩
      rw [← hiff]
      constructor
      · rintro ⟨acc', node', hn, hshows', -⟩
        rw [hframe] at hn
        cases hn
        exact hshows'
      · intro hturn
        exact ⟨_, turn, hframe, hturn, holds_store hturn⟩
  · intro h
    obtain ⟨hid, hlen, ops, hops, hout⟩ := between_ok h
    split at hout
    · next hempty =>
      rw [Bool.and_eq_true, List.isEmpty_iff, List.isEmpty_iff] at hempty
      obtain ⟨hpatch, rfl⟩ := hempty
      refine pyEq_toDict (fun k hk => ?_)
        (pyEq_dataJson.mpr (versionDeltas_nil ha.versionOk hlen hops))
      have := get_patched hid (fun _ _ => rfl) hk
      rwa [hpatch] at this
    · cases hout

/-! ## A streamed answer -/

/-- A host that knows absolute paths and one timestamp. -/
def sampleHost : Host where
  resolve v := if v.toList.head? = some '/' then .resolved v else .relative
  parseTimestamp t := if t = "2026-01-01T00:00:00+00:00" then some true else none
  resolve_idem {v p} h := by
    split at h
    · next hv => cases h; exact ⟨by rintro rfl; simp at hv, by simp [hv]⟩
    · cases h

/-- A running Turn whose answer is one text Item. -/
def sampleTurn (text status : String) : RuntimeState where
  threadId := "s1"
  parentThreadId := ""
  sessionId := "s1"
  parentSessionId := ""
  id := "t1"
  parentId := ""
  version := appVersion
  firstKeptItemSize := 0
  compactionId := "t1"
  user := "u"
  providerName := "p"
  model := defaultModel
  permissionMode := .workspaceWrite
  runningMode := .agent
  usage := ⟨none, none, none, none, none⟩
  cwd := ""
  projectCwd := ""
  timestamp := "2026-01-01T00:00:00+00:00"
  status := .running
  currentDataIdx := 0
  data := [[
    [("role", .str "user"), ("content", .arr [textItem "hi"])],
    [("role", .str "assistant"), ("content",
      .arr [.obj [("type", .str "text"), ("text", .str text), ("status", .str status)]])]]]

/-- The browser after the baseline snapshot. -/
def sampleAccumulator (s : RuntimeState) : Accumulator :=
  runtimeNodeAccumulator.store (turnKey s.sessionId s.id) ⟨s.configFields, s.data⟩ 0

theorem holds_sampleAccumulator (s : RuntimeState) : Holds (sampleAccumulator s) s 0 :=
  holds_store ⟨fun _ _ => rfl, PyEq.refl _⟩

theorem sampleTurn_wf (text : String) (status : ItemStatus) :
    (sampleTurn text status.text).Wf sampleHost where
  threadId := by simp [sampleTurn]
  sessionId := by simp [sampleTurn]
  id := by simp [sampleTurn]
  version := rfl
  parents := by simp [sampleTurn]
  mainRoot := by simp [sampleTurn]
  forkRoot := by simp [sampleTurn]
  compactionId := by simp [sampleTurn]
  timestamp := by simp [sampleTurn, sampleHost]
  cwd := rfl
  projectCwd := rfl
  model := defaultModel_wf
  data := by cases status <;> rfl
  currentDataIdx := by simp [sampleTurn]
  ends h := absurd rfl h
  settled h := absurd rfl h

theorem sampleTurn_safe (text : String) (status : ItemStatus) :
    (sampleTurn text status.text).Safe :=
  RuntimeState.safe_iff.mpr ⟨rfl, rfl⟩

theorem normalizeRuntimeNode_sampleTurn (text : String) (status : ItemStatus) :
    normalizeRuntimeNode (sampleTurn text status.text).toDict
      = .ok ⟨(sampleTurn text status.text).configFields, (sampleTurn text status.text).data⟩ :=
  (normalizeRuntimeNode_toDict (sampleTurn_wf text status) (sampleTurn_safe text status)).mpr
    ⟨by simp [sampleTurn]; decide, ⟨by simp [sampleTurn], defaultModel_shown⟩, rfl⟩

theorem not_mixedData_sampleTurn (text text' status : String) :
    ¬ MixedData (sampleTurn text status).data (sampleTurn text' status).data := by
  rintro ⟨k, b, a, hb, ha, j, mb, ma, hmb, hma, lb, la, hlb, hla, i, ib, ia, hib, hia, hstatus, -⟩
  match k, j, i with
  | 0, 0, 0 => cases hb; cases ha; cases hmb; cases hma; cases hlb; cases hla; cases hib; cases hia
               exact hstatus rfl
  | 0, 1, 0 => cases hb; cases ha; cases hmb; cases hma; cases hlb; cases hla; cases hib; cases hia
               exact hstatus rfl
  | 0, 0, i + 1 => cases hb; cases hmb; cases hlb; cases hib
  | 0, 1, i + 1 => cases hb; cases hmb; cases hlb; cases hib
  | 0, j + 2, i => cases hb; cases hmb
  | k + 1, _, _ => cases hb

/-- Text streamed into a running Item arrives. -/
theorem delta_streams_text :
    ∃ frame, NodeFrame.between (sampleTurn "a" "running") (sampleTurn "ab" "running") (0 + 1)
        = .ok (some frame) ∧
      ∃ acc node, applyRuntimeNodeFrame (sampleAccumulator (sampleTurn "a" "running"))
          frame.received = .ok (acc, node) ∧ Shows node (sampleTurn "ab" "running") ∧
        Holds acc (sampleTurn "ab" "running") (0 + 1) :=
  ⟨_, rfl, ((delta_round_trip (sampleTurn_wf "a" .running) (sampleTurn_wf "ab" .running)
    (sampleTurn_safe "ab" .running) (normalizeRuntimeNode_sampleTurn "ab" .running)
    (holds_sampleAccumulator _)).1 _ rfl).mpr
    (not_mixedData_sampleTurn "a" "ab" "running")⟩

/-- An Item that ends while its last text arrives: the text is sent and the status is not. -/
theorem delta_drops_status :
    (sampleTurn "a" "running").Wf sampleHost ∧ (sampleTurn "ab" "success").Wf sampleHost ∧
    (∃ node, normalizeRuntimeNode (sampleTurn "a" "running").toDict = .ok node) ∧
    (∃ node, normalizeRuntimeNode (sampleTurn "ab" "success").toDict = .ok node) ∧
    Holds (sampleAccumulator (sampleTurn "a" "running")) (sampleTurn "a" "running") 0 ∧
    ∃ frame, NodeFrame.between (sampleTurn "a" "running") (sampleTurn "ab" "success") (0 + 1)
        = .ok (some frame) ∧
      ¬ ∃ acc node, applyRuntimeNodeFrame (sampleAccumulator (sampleTurn "a" "running"))
          frame.received = .ok (acc, node) ∧ Shows node (sampleTurn "ab" "success") := by
  refine ⟨sampleTurn_wf "a" .running, sampleTurn_wf "ab" .success,
    ⟨_, normalizeRuntimeNode_sampleTurn "a" .running⟩,
    ⟨_, normalizeRuntimeNode_sampleTurn "ab" .success⟩, holds_sampleAccumulator _, _, rfl, ?_⟩
  rintro ⟨acc, node, h, hshows⟩
  -- the Item keeps the status it had
  have hdata : node.data = (sampleTurn "ab" "running").data := by
    have hframe : (applyRuntimeNodeFrame (sampleAccumulator (sampleTurn "a" "running"))
        (NodeFrame.received (.delta "s1" "t1" 1 [] [.appendText 0 1 0 "b"]))).map
          (fun p => p.2.data)
        = .ok (sampleTurn "ab" "running").data := rfl
    have h' := congrArg (Except.map fun p => p.2.data) h
    exact Except.ok.inj (h'.symm.trans hframe)
  have := hshows.data
  rw [hdata] at this
  revert this
  decide

end MiniAgent.Turn.Browser
