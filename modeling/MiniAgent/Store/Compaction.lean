import MiniAgent.Store.Anchors
import MiniAgent.Store.Selected

/-!
# Compactions

`RuntimeStateTree.compact` makes a running child of a Turn, with a summary and the last Items on the
way from the anchor of the Turn down to it. The Items of a valid Turn pass the checks of a new
Message, so there is always such a child.
-/

namespace MiniAgent.Store

open Lib Turn

variable {host : Host} {tree : RuntimeStateTree host} {source node : ValidTurn host}

/-! ## Items of a path -/

/-- The Items of the selected versions, in the order of the path. -/
def pathItems (path : List (Node host)) : List Fields :=
  (RuntimeStateTree.turnsOf path).flatMap fun t => (selected t).flatMap messageItems

def compactionItem (summary : String) (kept : Nat) : Fields :=
  [("type", .str "compaction"), ("summary", .str summary), ("kept_item_count", .int kept),
    ("status", .str "success")]

theorem items_of_path (path : List (Node host)) :
    (RuntimeStateTree.turnsOf path).flatMap selectedItems = (pathItems path).map .obj := by
  simp only [pathItems, List.map_flatMap]
  rfl

theorem lastItems_map {α β : Type} (f : α → β) (n : Nat) (l : List α) :
    RuntimeStateTree.lastItems n (l.map f) = (RuntimeStateTree.lastItems n l).map f := by
  simp [RuntimeStateTree.lastItems, List.map_drop]

theorem length_lastItems {α : Type} (n : Nat) (l : List α) :
    (RuntimeStateTree.lastItems n l).length = min n l.length := by
  unfold RuntimeStateTree.lastItems
  rw [List.length_drop]
  omega

theorem checkItem_selected (t : ValidTurn host) :
    ∀ item ∈ (selected t.val).flatMap messageItems, checkItem item = .ok () := by
  intro item hitem
  obtain ⟨message, hmessage, hitem⟩ := List.mem_flatMap.mp hitem
  obtain ⟨role, items, hok⟩ := (selected_versionOk t).messageOk hmessage
  rw [hok.items_eq] at hitem
  exact hok.items_ok item hitem

theorem checkItem_pathItems (path : List (Node host)) :
    ∀ item ∈ pathItems path, checkItem item = .ok () := by
  intro item hitem
  obtain ⟨t, ht, hitem⟩ := List.mem_flatMap.mp hitem
  obtain ⟨found, -, hfound⟩ := List.mem_filterMap.mp ht
  cases found with
  | root _ _ => cases hfound
  | turn valid =>
    cases hfound
    exact checkItem_selected valid item hitem

theorem checkItem_compactionItem (summary : String) (kept : Nat) :
    checkItem (compactionItem summary kept) = .ok () := by
  simp only [checkItem, bind_ok, exists_unit, requireIn_ok, whenever_ok,
    hasType, checkCompaction, require_ok]
  refine ⟨⟨_, by decide, rfl⟩, ⟨_, by decide, rfl⟩, ?_⟩
  simp [compactionItem, Fields.get_cons, isStr, isIntFrom]

/-! ## The new Turn -/

def assistantOf (items : List Fields) : Fields :=
  [("role", .str "assistant"), ("content", itemsJson items)]

theorem assistantOf_ok {items : List Fields} (h : ∀ item ∈ items, checkItem item = .ok ()) :
    MessageOk (assistantOf items) "assistant" items where
  role_eq := by simp [assistantOf, Fields.get_cons]
  role_mem := by decide
  content_eq := by simp [assistantOf, Fields.get_cons]
  items_ok := h
  user := nofun

/-- The first Message of the selected version. -/
def userMessage (t : RuntimeState) : Fields := (selected t).head?.getD []

/-- A user Message and an answer to it. -/
theorem versionOk_answered (t : ValidTurn host) {items : List Fields}
    (h : ∀ item ∈ items, checkItem item = .ok ()) :
    VersionOk [userMessage t.val, assistantOf items] := by
  have hok := selected_versionOk t
  obtain ⟨first, rest, hselected⟩ := List.exists_cons_of_ne_nil hok.ne_nil
  have hfirst : userMessage t.val = first := by rw [userMessage, hselected]; rfl
  have huser : first.get "role" = some (.str "user") :=
    hok.first_user first (by rw [hselected]; rfl)
  obtain ⟨role, content, hmessage⟩ :=
    hok.messageOk (show first ∈ selected t.val by rw [hselected]; exact List.mem_cons_self)
  have hone : VersionOk [first] :=
    ⟨List.cons_ne_nil _ _, ⟨role, content, hmessage, by simp, trivial⟩, fun m hm =>
      by cases hm; exact huser⟩
  rw [hfirst]
  exact hone.append (assistantOf_ok h) nofun

/-- The child that a compaction makes. -/
def compacted (source : RuntimeState) (summary id timestamp : String) (kept : List Fields) :
    RuntimeState :=
  { source with
    id
    parentThreadId := source.threadId
    parentSessionId := source.sessionId
    parentId := source.id
    version := appVersion
    compactionId := id
    usage := emptyUsage
    timestamp
    status := .running
    currentDataIdx := 0
    data := [[userMessage source, assistantOf (compactionItem summary kept.length :: kept)]] }

theorem compacted_wf (source : ValidTurn host) {summary id timestamp : String}
    {kept : List Fields} (hid : id ≠ "") (htime : host.parseTimestamp timestamp = some true)
    (hkept : ∀ item ∈ kept, checkItem item = .ok ()) :
    (compacted source.val summary id timestamp kept).Wf host where
  threadId := source.property.threadId
  sessionId := source.property.sessionId
  id := hid
  version := rfl
  parents := iff_of_false source.property.id source.property.sessionId
  mainRoot h := absurd h source.property.id
  forkRoot h := absurd h source.property.id
  compactionId := hid
  timestamp := htime
  cwd := source.property.cwd
  projectCwd := source.property.projectCwd
  model := source.property.model
  data := by
    refine validateData_of_ok (List.cons_ne_nil _ _) fun version hversion => ?_
    obtain rfl := List.mem_singleton.mp hversion
    exact versionOk_answered source (List.forall_mem_cons.mpr ⟨checkItem_compactionItem _ _, hkept⟩)
  currentDataIdx := Nat.one_pos
  ends h := absurd rfl h
  settled h := absurd rfl h

theorem compactionPayload_cons (summary : String) (kept : List Fields) :
    compactionPayload summary (kept.map .obj) :: kept.map .obj =
      (compactionItem summary kept.length :: kept).map .obj := by
  simp [compactionPayload, compactionItem]

theorem assistantMessage_ok {items : List Fields} (h : ∀ item ∈ items, checkItem item = .ok ()) :
    assistantMessage (items.map .obj) = .ok (assistantOf items) :=
  bind_ok.mpr ⟨items, normalizeContent_of_items h, rfl⟩

/-- A Turn as `create` makes it under a Turn: a valid one, with the anchor of its parent. -/
theorem create_of_wf {s : RuntimeState} (h : s.Wf host) (husage : s.usage = emptyUsage)
    (hidx : s.currentDataIdx = 0) (hparent : (s.parentSessionId, s.parentId) = source.val.key)
    (hthread : s.parentThreadId = source.val.threadId)
    (hanchor : s.compactionId = source.val.compactionId) :
    create host (.turn source)
      { sessionId := s.sessionId, threadId := s.threadId, id := s.id, user := s.user,
        providerName := s.providerName
        model := s.model.toDict, permissionMode := s.permissionMode, runningMode :=
        s.runningMode, cwd := s.cwd
        projectCwd := s.projectCwd, firstKeptItemSize := s.firstKeptItemSize, timestamp :=
        s.timestamp
        status := s.status, data := dataJson s.data } = .ok ⟨s, h⟩ := by
  have hsession : s.parentSessionId = source.val.sessionId := congrArg Prod.fst hparent
  have hid : s.parentId = source.val.id := congrArg Prod.snd hparent
  have hargs : postInit host
      { threadId := s.threadId, parentThreadId := source.val.threadId, sessionId := s.sessionId
        parentSessionId := source.val.sessionId, id := s.id, parentId :=
        source.val.id, version := appVersion
        firstKeptItemSize := .int s.firstKeptItemSize, compactionId :=
          source.val.compactionId, user := s.user
        providerName := s.providerName, model := s.model.toDict, permissionMode :=
          .str s.permissionMode.text
        runningMode := .str s.runningMode.text, usage := emptyUsage.toDict, cwd :=
          s.cwd, projectCwd := s.projectCwd
        timestamp := s.timestamp, status := .str s.status.text, currentDataIdx := .int 0,
          data := dataJson s.data } =
      .ok s := by
    simp only [postInit, bind_ok, exists_unit, pure_ok, require_ok, whenever_ok,
      checkTimestamp_ok, checkParents_ok,
      Bool.and_eq_true, bne_iff_ne, beq_iff_eq, decide_eq_true_eq, Bool.not_eq_true']
    refine ⟨⟨⟨h.threadId, h.sessionId⟩, h.id⟩, trivial, s.status, enumOf_text (by simp),
      s.permissionMode,
      enumOf_text (by simp), s.runningMode, enumOf_text (by simp), ?_, s.firstKeptItemSize,
      natOf_ok.mpr rfl,
      h.timestamp, s.cwd, h.cwd, s.projectCwd, h.projectCwd, s.model,
      normalizeModel_toDict h.model, s.usage,
      by rw [husage]; exact normalizeUsage_toDict _, s.data, h.data, 0, natOf_ok.mpr rfl,
      by rw [← hidx]; exact h.currentDataIdx, h.ends, h.settled, ?_⟩
    · rw [← hid, ← hsession, ← hthread]
      exact ⟨h.parents, h.mainRoot, h.forkRoot⟩
    · rw [if_neg source.property.compactionId, ← hanchor, ← hidx, ← hid,
        ← hsession, ← hthread, ← h.version]
  unfold create
  dsimp only
  split
  · next new hnew => exact congrArg Except.ok (Subtype.ext (Except.ok.inj (hnew.symm.trans hargs)))
  · next e hnew => cases hnew.symm.trans hargs

namespace RuntimeStateTree

/-- **What a compaction returns.** -/
theorem compact_eq (summary : String) {path suffix : List (Node host)} {id timestamp : String}
    (hid : id ≠ "") (htime : host.parseTimestamp timestamp = some true)
    (hpath : tree.ancestors (.turn source) = .ok path)
    (hsuffix : fromLast source.val.compactionId path = some suffix) :
    ∃ h, tree.compact source summary id timestamp = .ok
      ⟨compacted source.val summary id timestamp
        (lastItems source.val.firstKeptItemSize (pathItems suffix)), h⟩ := by
  have hkept : ∀ item ∈ lastItems source.val.firstKeptItemSize (pathItems suffix), checkItem item =
      .ok () :=
    fun item hitem => checkItem_pathItems suffix item (List.mem_of_mem_drop hitem)
  have hwf : (compacted source.val summary id timestamp
      (lastItems source.val.firstKeptItemSize (pathItems suffix))).Wf
      host := compacted_wf source hid htime hkept
  refine ⟨hwf, bind_ok.mpr ⟨path, hpath, ?_⟩⟩
  simp only [hsuffix, items_of_path, lastItems_map, compactionPayload_cons]
  refine bind_ok.mpr
    ⟨_, assistantMessage_ok (List.forall_mem_cons.mpr ⟨checkItem_compactionItem _ _, hkept⟩), ?_⟩
  -- `create` gives it the anchor of the source first
  have hchild : RuntimeState.Wf host { compacted source.val summary id timestamp
      (lastItems source.val.firstKeptItemSize (pathItems suffix)) with compactionId :=
        source.val.compactionId } :=
    { hwf with compactionId := source.property.compactionId }
  exact bind_ok.mpr ⟨_, create_of_wf hchild rfl rfl rfl rfl rfl, rfl⟩

/-! ## Paths -/

/-- Where the path to a node leads. -/
theorem ancestorsFrom_ok {fuel : Nat} {seen : List (String × String)} {current : Node host}
    {path : List (Node host)} (h : tree.ancestorsFrom fuel seen current = .ok path) :
    (path.map Node.key).Nodup ∧ ∀ node ∈ path, node.key ∉ seen ∧ node.key.1 = current.key.1 := by
  induction fuel generalizing seen current path with
  | zero => cases h
  | succ fuel ih =>
    obtain ⟨_, hseen, h⟩ := bind_ok.mp h
    have hfresh : current.key ∉ seen := by simpa using require_ok.mp hseen
    cases current with
    | root sessionId id =>
      obtain rfl := pure_ok.mp h
      refine ⟨List.nodup_singleton _, fun node hnode => ?_⟩
      obtain rfl := List.mem_singleton.mp hnode
      exact ⟨hfresh, rfl⟩
    | turn t =>
      obtain ⟨_, -, h⟩ := bind_ok.mp h
      split at h
      · cases h
      next parent hparent =>
      obtain ⟨_, hsame, h⟩ := bind_ok.mp h
      obtain ⟨_, -, h⟩ := bind_ok.mp h
      obtain ⟨above, habove, h⟩ := bind_ok.mp h
      obtain rfl := pure_ok.mp h
      obtain ⟨hnodup, hall⟩ := ih habove
      have hkey : parent.key = (t.val.parentSessionId, t.val.parentId) := by
        simpa using List.find?_some hparent
      have hsession : parent.key.1 = t.val.sessionId := by
        rw [hkey]
        simpa using require_ok.mp hsame
      refine ⟨?_, fun node hnode => ?_⟩
      · rw [List.map_append, List.map_singleton, List.nodup_append]
        refine ⟨hnodup, List.nodup_singleton _, fun key hkey other hother heq => ?_⟩
        obtain ⟨node, hnode, rfl⟩ := List.mem_map.mp hkey
        obtain rfl := List.mem_singleton.mp hother
        exact (hall node hnode).1 (heq ▸ List.mem_cons_self)
      · rcases List.mem_append.mp hnode with hnode | hnode
        · exact ⟨fun hin => (hall node hnode).1 (List.mem_cons_of_mem _ hin),
            (hall node hnode).2.trans hsession⟩
        · obtain rfl := List.mem_singleton.mp hnode
          exact ⟨hfresh, rfl⟩

/-- The ids of a path are different, so that the last node with an id is the only one. -/
theorem fromLast_ancestors {above below : List (Node host)} {anchor current : Node host}
    (h : tree.ancestors current = .ok (above ++ anchor :: below)) :
    fromLast anchor.key.2 (above ++ anchor :: below) = some (anchor :: below) := by
  obtain ⟨hnodup, hall⟩ := ancestorsFrom_ok h
  refine fromLast_append above rfl fun b hb hid => ?_
  have hkey : anchor.key = b.key := by
    refine Prod.ext ?_ hid.symm
    rw [(hall anchor (by simp)).2, (hall b (by simp [hb])).2]
  rw [List.map_append, List.map_cons, List.nodup_append] at hnodup
  exact (List.nodup_cons.mp hnodup.2.1).1 (hkey ▸ List.mem_map_of_mem hb)

theorem ancestors_last {current : Node host} {path : List (Node host)}
    (h : tree.ancestors current = .ok path) :
    ∃ above, path = above ++ [current] := by
  unfold ancestors at h
  obtain ⟨_, -, h⟩ := bind_ok.mp h
  cases current with
  | root sessionId id =>
    obtain rfl := pure_ok.mp h
    exact ⟨[], rfl⟩
  | turn t =>
    obtain ⟨_, -, h⟩ := bind_ok.mp h
    split at h
    · cases h
    obtain ⟨_, -, h⟩ := bind_ok.mp h
    obtain ⟨_, -, h⟩ := bind_ok.mp h
    obtain ⟨above, -, h⟩ := bind_ok.mp h
    obtain rfl := pure_ok.mp h
    exact ⟨above, rfl⟩

/-- A Turn that is its own anchor is its whole model context. -/
theorem modelInput_self {path : List (Node host)} (hself : node.val.compactionId = node.val.id)
    (hpath : tree.ancestors (.turn node) = .ok path) : tree.modelInput node = .ok [node.val] := by
  obtain ⟨above, rfl⟩ := ancestors_last hpath
  have hlast : fromLast node.val.compactionId (above ++ [.turn node]) = some [.turn node] := by
    rw [hself]
    exact fromLast_ancestors hpath
  rw [modelInput]
  refine bind_ok.mpr ⟨_, hpath, ?_⟩
  rw [hlast]
  rfl

/-- What the compaction of a Turn keeps, when its path goes on from the anchor with `suffix`. -/
structure Keeps (source node : RuntimeState) (summary id : String) (suffix : List (Node host))
    (kept : List Fields) :
    Prop where
  key : node.key = (source.sessionId, id)
  thread : node.threadId = source.threadId
  parent : (node.parentSessionId, node.parentId) = source.key ∧
    node.parentThreadId = source.threadId
  running : node.status = .running
  anchor : node.compactionId = node.id
  tail : kept <:+ pathItems suffix
  count : kept.length = min source.firstKeptItemSize (pathItems suffix).length
  data : node.data =
    [[userMessage source, assistantOf (compactionItem summary kept.length :: kept)]]
  selected : selected node =
    [userMessage source, assistantOf (compactionItem summary kept.length :: kept)]

/-- **What a compaction keeps.** -/
theorem compact_keeps (summary : String) {above below : List (Node host)} {anchor : Node host}
    {id timestamp : String} (hid : id ≠ "") (htime : host.parseTimestamp timestamp = some true)
    (hpath : tree.ancestors (.turn source) = .ok (above ++ anchor :: below))
    (hanchor : anchor.key.2 = source.val.compactionId) :
    ∃ node kept, tree.compact source summary id timestamp = .ok node ∧
      Keeps source.val node.val summary id (anchor :: below) kept := by
  have hsuffix := fromLast_ancestors hpath
  rw [hanchor] at hsuffix
  obtain ⟨h, hcompact⟩ := compact_eq summary hid htime hpath hsuffix
  exact ⟨_, _, hcompact, rfl, rfl, ⟨rfl, rfl⟩, rfl, rfl, List.drop_suffix _ _,
    length_lastItems _ _, rfl, rfl⟩

/-- A Turn whose anchor is on its path is continued by its compaction: the last Items from the
anchor on, under a summary. The compaction is its own anchor and that of the Turns created below it,
and the next compaction of such a Turn keeps Items from there on. -/
theorem compaction_keeps_tail (tree : RuntimeStateTree host) (source : ValidTurn host)
    (path : List (Node host)) (anchor : Node host) (summary id timestamp : String) (hid : id ≠ "")
    (htime : host.parseTimestamp timestamp = some true)
    (hpath : tree.ancestors (.turn source) = .ok path) (hmem : anchor ∈ path)
    (hanchor : anchor.key.2 = source.val.compactionId) :
    ∃ node above below kept, tree.compact source summary id timestamp = .ok node ∧
      path = above ++ anchor :: below ∧
      Keeps source.val node.val summary id (anchor :: below) kept ∧
      (∀ (parent child : ValidTurn host) args, parent.val.compactionId = node.val.id →
        create host (.turn parent) args = .ok child → child.val.compactionId = node.val.id) ∧
      ∀ (next : RuntimeStateTree host) (later : ValidTurn host) above' start below' summary' id'
          timestamp', id' ≠ "" →
        host.parseTimestamp timestamp' = some true →
        next.ancestors (.turn later) = .ok (above' ++ start :: below') → start.key = node.val.key →
        later.val.compactionId = node.val.id →
        ∃ again kept', next.compact later summary' id' timestamp' = .ok again ∧
          Keeps later.val again.val summary' id' (start :: below') kept' := by
  obtain ⟨above, below, rfl⟩ := List.append_of_mem hmem
  obtain ⟨node, kept, hcompact, hkeeps⟩ := compact_keeps summary hid htime hpath hanchor
  refine ⟨node, above, below, kept, hcompact, rfl, hkeeps, ?_, ?_⟩
  · intro parent child args hparent hcreate
    obtain ⟨-, -, -, -, -, hinherits, -⟩ := create_ok hcreate
    exact hinherits.trans hparent
  · intro next later above' start below' summary' id' timestamp' hid' htime' hpath' hstart hlater
    refine compact_keeps summary' hid' htime' hpath' ?_
    rw [hstart, hlater]
    rfl

open Browser (sampleHost)

/-- The compaction of a Turn under the root of its Session. -/
theorem compaction_keeps_tail_sample : ∃ source node kept,
    create sampleHost (.root "s1" "r") (sampleArgs "t1" "s1") = .ok source ∧
      compact ⟨[.root "s1" "r", .turn source]⟩ source "short" "t2" sampleNow = .ok node ∧
      Keeps source.val node.val "short" "t2" [.turn source] kept := by
  obtain ⟨source, hsource⟩ : ∃ source, create sampleHost (.root "s1" "r")
      (sampleArgs "t1" "s1") = .ok source := ⟨_, rfl⟩
  obtain ⟨hkey, -, -, hthread, hparent, hanchor, -⟩ := create_ok hsource
  obtain ⟨hsession, hid⟩ := Prod.mk.inj hkey
  obtain ⟨hparentSession, hparentId⟩ := Prod.mk.inj hparent
  have hpath : ancestors ⟨[.root "s1" "r", .turn source]⟩ (.turn source) =
      .ok [.root "s1" "r", .turn source] := by
    simp [ancestors, ancestorsFrom, get?, require, Node.key, Node.threadId,
      RuntimeState.key, sampleArgs, hsession, hid,
      hparentSession, hparentId, hthread]
    rfl
  obtain ⟨node, above, below, kept, hcompact, hsplit, hkeeps, -⟩ :=
    compaction_keeps_tail ⟨[.root "s1" "r", .turn source]⟩
    source _ (.turn source) "short" "t2" sampleNow (by decide) rfl hpath (by simp)
    (hid.trans hanchor.symm)
  obtain ⟨-, rfl⟩ : above = [.root "s1" "r"] ∧ below = [] := by
    rcases above with _ | ⟨root, _ | ⟨other, above⟩⟩
    · cases hsplit
    · cases hsplit
      exact ⟨rfl, rfl⟩
    · simp at hsplit
  exact ⟨source, node, kept, hsource, hcompact, hkeeps⟩

end RuntimeStateTree

end MiniAgent.Store
