import MiniAgent.Store.Forest

/-!
# Context anchors

A Turn carries the id of the Turn that its model context starts at. A child inherits the anchor of
its parent, a compaction is its own anchor, and a fork keeps the anchor of its source unless the
source was its own. The anchor therefore is on the way from the Turn to the root (`Anchored`), and
`model_input` is the part of that way from the anchor down.

The operations are those of `RuntimeState.create` and `RuntimeStateTree` on the nodes of one
Session; a result is stored under an id that is free.
-/

namespace MiniAgent.Store

open Lib Turn Tables

variable {host : Host} {s t : Tables host} {node : ValidTurn host}

/-! ## Building a Session -/

inductive TurnOp where
  | create (parentId : String) (args : CreateArgs)
  | compact (turnId summary newTurnId now : String)
  | fork (turnId newTurnId threadId now : String)

/-- The nodes of the Session as a tree. -/
def Tables.tree (s : Tables host) (sessionId : String) : RuntimeStateTree host :=
  ⟨s.loadNodes sessionId⟩

/-- The Turn that an operation makes in the Session. -/
def TurnOp.result (s : Tables host) (sessionId : String) : TurnOp → Except Err (ValidTurn host)
  | .create parentId args => match s.nodes.lookup (sessionId, parentId) with
    | none => .error (.keyError parentId)
    | some parent => Store.create host parent { args with sessionId }
  | .compact turnId summary newTurnId now => match s.nodes.lookup (sessionId, turnId) with
    | some (.turn source) => (s.tree sessionId).compact source summary newTurnId now
    | _ => .error (.keyError turnId)
  | .fork turnId newTurnId threadId now => match s.nodes.lookup (sessionId, turnId) with
    | some (.turn source) => (s.tree sessionId).fork source newTurnId threadId now
    | _ => .error (.keyError turnId)

/-- The result is stored under a free id. -/
def TurnOp.step (sessionId : String) (s : Tables host) (op : TurnOp) : Option (Tables host) :=
  match op.result s sessionId with
  | .error _ => none
  | .ok node => if node.val.key ∈ s.nodes then none
    else some { s with nodes := s.nodes.insert node.val.key (.turn node) }

/-- A Session with its root. -/
def Tables.rooted (host : Host) (sessionId rootId : String) : Tables host :=
  (ensureRootNode sessionId rootId (Tables.new host [sessionId])).2

/-! ## Results -/

theorem rebuild_id {raw : RuntimeState} (h : rebuild host raw = .ok node) :
    node.val.id = raw.id := by
  unfold rebuild at h
  split at h
  · next new hclone =>
    cases h
    have hid := (RuntimeState.fromDict_reads hclone).plain "id" (by decide)
    exact (Json.str.inj (Option.some.inj hid)).symm
  · cases h

/-- A fork of a Turn under a stored parent. -/
theorem RuntimeStateTree.fork_ok {tree : RuntimeStateTree host} {source : ValidTurn host}
    {id threadId now : String} {parent : Node host} (hid : source.val.parentId ≠ "")
    (hparent : tree.get? source.val.parentSessionId source.val.parentId = some parent)
    (h : tree.fork source id threadId now = .ok node) :
    node.val = { RuntimeStateTree.forked source.val (some parent) id threadId
      now with data := node.val.data } := by
  unfold RuntimeStateTree.fork at h
  rw [if_neg hid, hparent] at h
  refine rebuild_ok h source ?_ rfl rfl rfl
  simp only [RuntimeStateTree.forked]
  split
  · rw [← show node.val.id = id from rebuild_id h]
    exact node.property.id
  · exact source.property.compactionId

/-! ## Anchors -/

/-- The anchor of the Turn is a Turn on its way to the root. -/
def Anchored (s : Tables host) (node : ValidTurn host) : Prop :=
  ∃ path anchor, Climbs s.parentOf (fun top => top.isRoot) (.turn node) path ∧ .turn anchor ∈ path ∧
    anchor.val.id = node.val.compactionId

structure WellAnchored (sessionId : String) (s : Tables host) : Prop where
  grown : Grown s
  session : ∀ key found, s.nodes.lookup key = some found → key.1 = sessionId ∧ found.key.2 ≠ ""
  anchored : ∀ key node, s.nodes.lookup key = some (.turn node) → Anchored s node

/-- A new Turn is its own anchor, or has one above it. -/
def AnchoredAbove (s : Tables host) (node : ValidTurn host) : Prop :=
  node.val.compactionId = node.val.id ∨ ∃ parent path anchor, s.parentOf (.turn node) =
    some parent ∧
    Climbs s.parentOf (fun top => top.isRoot) parent path ∧ .turn anchor ∈ path ∧
    anchor.val.id = node.val.compactionId

theorem WellAnchored.insert {sessionId : String} (h : WellAnchored sessionId s)
    (hfree : node.val.key ∉ s.nodes) (hsession : node.val.sessionId = sessionId)
    (hparent : Parented s node.val) (hanchor : AnchoredAbove s node) :
    WellAnchored sessionId { s with nodes := s.nodes.insert node.val.key (.turn node) } := by
  have hfresh : Fresh s node := fun found hfound =>
    (nomatch (AList.lookup_eq_none.mpr hfree).symm.trans hfound)
  obtain ⟨hgrown, hlasts⟩ := h.grown.insert hfresh hparent (t := { s with
    nodes := s.nodes.insert node.val.key (.turn node) }) rfl
  refine ⟨hgrown, fun key found hfound => ?_, fun key other hother => ?_⟩
  · obtain ⟨rfl, rfl⟩ | hfound := lookup_insert_cases rfl hfound
    · exact ⟨hsession, node.property.id⟩
    · exact h.session key found hfound
  obtain ⟨-, hnode⟩ | hother := lookup_insert_cases rfl hother
  · cases hnode
    rcases hanchor with hself | ⟨parent, path, anchor, hup, hclimb, hmem, hid⟩
    · obtain ⟨parent, hup⟩ := hparent.parentOf
      obtain ⟨path, hclimb⟩ := h.grown.rooted _ _ (parentOf_turn.mp hup).2.2.1
      exact ⟨_, node, hlasts.climbs (.step hup hclimb), List.mem_cons_self, hself.symm⟩
    · exact ⟨_, anchor, hlasts.climbs (.step hup hclimb), List.mem_cons_of_mem _ hmem, hid⟩
  · obtain ⟨path, anchor, hclimb, hmem, hid⟩ := h.anchored key other hother
    exact ⟨path, anchor, hlasts.climbs hclimb, hmem, hid⟩

variable {sessionId : String}

/-- A Turn of the Session under a stored node. -/
theorem parented_of_lookup (h : WellAnchored sessionId s) {parentId : String} {parent : Node host}
    (hlookup : s.nodes.lookup (sessionId, parentId) = some parent)
    (hsession : node.val.sessionId = sessionId)
    (hparent : (node.val.parentSessionId, node.val.parentId) = parent.key)
    (hthread : node.val.parentThreadId = parent.threadId) :
    Parented s node.val ∧ s.parentOf (.turn node) = some parent := by
  have hkey : parent.key = (sessionId, parentId) := h.grown.named _ _ hlookup
  have hid : node.val.parentId = parentId := by
    rw [hkey] at hparent; exact congrArg Prod.snd hparent
  have hne : node.val.parentId ≠ "" := by
    have hne := (h.session _ _ hlookup).2
    rw [hkey] at hne
    rw [hid]
    exact hne
  have hsame : node.val.parentSessionId = node.val.sessionId := by
    rw [hsession]
    rw [hkey] at hparent
    exact congrArg Prod.fst hparent
  have hfound : s.nodes.lookup (node.val.sessionId, node.val.parentId) = some parent := by
    rw [hsession, hid]
    exact hlookup
  exact ⟨⟨hne, hsame, parent, hfound, hthread⟩, parentOf_turn.mpr ⟨hne, hsame, hfound, hthread⟩⟩

theorem result_create (h : WellAnchored sessionId s) {parentId : String} {args : CreateArgs}
    (hr : TurnOp.result s sessionId (.create parentId args) = .ok node) :
    node.val.sessionId = sessionId ∧ Parented s node.val ∧ AnchoredAbove s node := by
  rw [TurnOp.result] at hr
  split at hr
  · cases hr
  next parent hlookup =>
  obtain ⟨hkey, -, -, hthread, hparent, hanchor, -⟩ := create_ok hr
  have hsession : node.val.sessionId = sessionId := congrArg Prod.fst hkey
  obtain ⟨hparented, hup⟩ := parented_of_lookup h hlookup hsession hparent hthread
  refine ⟨hsession, hparented, ?_⟩
  rcases parent with ⟨_, _⟩ | parent
  · exact .inl (hanchor.trans (congrArg Prod.snd hkey).symm)
  · obtain ⟨path, anchor, hclimb, hmem, hid⟩ := h.anchored _ _ hlookup
    exact .inr ⟨_, path, anchor, hup, hclimb, hmem, hid.trans hanchor.symm⟩

theorem result_compact (h : WellAnchored sessionId s) {turnId summary newTurnId now : String}
    (hr : TurnOp.result s sessionId (.compact turnId summary newTurnId now) = .ok node) :
    node.val.sessionId = sessionId ∧ Parented s node.val ∧ AnchoredAbove s node := by
  rw [TurnOp.result] at hr
  split at hr
  · next source hlookup =>
    obtain ⟨hkey, -, hthread, hparent, hanchor⟩ := RuntimeStateTree.compact_ok hr
    have hsource : source.val.sessionId = sessionId := congrArg Prod.fst (h.grown.named _ _ hlookup)
    have hsession : node.val.sessionId = sessionId := (congrArg Prod.fst hkey).trans hsource
    exact ⟨hsession, (parented_of_lookup h hlookup hsession hparent hthread).1, .inl hanchor⟩
  · cases hr

theorem result_fork (h : WellAnchored sessionId s) {turnId newTurnId threadId now : String}
    (hr : TurnOp.result s sessionId (.fork turnId newTurnId threadId now) = .ok node) :
    node.val.sessionId = sessionId ∧ Parented s node.val ∧ AnchoredAbove s node := by
  rw [TurnOp.result] at hr
  split at hr
  swap
  · cases hr
  next source hlookup =>
  have hsource : source.val.sessionId = sessionId := congrArg Prod.fst (h.grown.named _ _ hlookup)
  obtain ⟨path, anchor, hclimb, hmem, hid⟩ := h.anchored _ _ hlookup
  cases hclimb with
  | stop htop => cases htop
  | step hup hclimb =>
    rename_i parent path
    obtain ⟨hne, hparentSession, hfound, -⟩ := parentOf_turn.mp hup
    have hget : (s.tree sessionId).get? source.val.parentSessionId source.val.parentId =
        some parent := by
      rw [hparentSession, hsource, Tables.tree, get?_loadNodes h.grown.named, ← hsource]
      exact hfound
    have hval := RuntimeStateTree.fork_ok hne hget hr
    have hsession : node.val.sessionId = sessionId := by rw [hval]; exact hsource
    rw [hsource] at hfound
    obtain ⟨hparented, hup'⟩ := parented_of_lookup h hfound hsession (by rw [hval]; rfl)
      (by rw [hval]; rfl)
    refine ⟨hsession, hparented, ?_⟩
    by_cases hself : source.val.compactionId = source.val.id
    · refine .inl ?_
      rw [hval]
      exact if_pos hself
    · -- the anchor of the source is above the source, and so above its parent
      rcases List.mem_cons.mp hmem with hsrc | hmem
      · cases hsrc
        exact absurd hid.symm hself
      · refine .inr ⟨parent, path, anchor, hup', hclimb, hmem, hid.trans ?_⟩
        rw [hval]
        exact (if_neg hself).symm

theorem WellAnchored.step (h : WellAnchored sessionId s) {op : TurnOp}
    (hstep : op.step sessionId s = some t) :
    WellAnchored sessionId t := by
  unfold TurnOp.step at hstep
  split at hstep
  · cases hstep
  next node hr =>
  split at hstep
  · cases hstep
  next hfree =>
  cases hstep
  have hresult : node.val.sessionId = sessionId ∧ Parented s node.val ∧ AnchoredAbove s node := by
    cases op with
    | create parentId args => exact result_create h hr
    | compact turnId summary newTurnId now => exact result_compact h hr
    | fork turnId newTurnId threadId now => exact result_fork h hr
  exact h.insert hfree hresult.1 hresult.2.1 hresult.2.2

theorem wellAnchored_rooted (rootId : String) :
    WellAnchored sessionId (Tables.rooted host sessionId rootId) := by
  have hempty : WellAnchored sessionId (Tables.new host [sessionId]) := by
    have hnone : ∀ key found, (Tables.new host [sessionId]).nodes.lookup key ≠ some found := by
      intro key found hfound
      rw [Tables.new, AList.lookup_empty] at hfound
      cases hfound
    exact ⟨grown_new [sessionId], fun key found h => absurd h (hnone key found),
      fun key node h => absurd h (hnone key _)⟩
  unfold Tables.rooted
  rcases hx : ensureRootNode sessionId rootId (Tables.new host [sessionId]) with ⟨e | root, t⟩
  · rw [Call.atomic_transaction _ _ e t hx]
    exact hempty
  · obtain ⟨hgrown, -⟩ := (grown_new [sessionId]).ensureRootNode hx
    obtain rfl | ⟨-, hid, rfl⟩ := ensureRootNode_ok hx
    · exact hempty
    have hcases : ∀ key found, ((∅ : AList fun _ : String × String => Node host).insert
        (sessionId, rootId)
        (.root sessionId rootId)).lookup key = some found → key = (sessionId, rootId) ∧
        found = .root sessionId rootId := by
      intro key found hfound
      by_cases hk : key = (sessionId, rootId)
      · subst hk
        rw [AList.lookup_insert] at hfound
        exact ⟨rfl, (Option.some.inj hfound).symm⟩
      · rw [AList.lookup_insert_ne hk, AList.lookup_empty] at hfound
        cases hfound
    refine ⟨hgrown, fun key found hfound => ?_, fun key node hnode => ?_⟩
    · obtain ⟨rfl, rfl⟩ := hcases key found hfound
      exact ⟨rfl, hid⟩
    · cases (hcases key _ hnode).2

/-! ## Model input -/

theorem fromLast_append {id : String} {anchor : Node host} (above : List (Node host))
    {below : List (Node host)} (hid : anchor.key.2 = id) (hbelow : ∀ b ∈ below, b.key.2 ≠ id) :
    RuntimeStateTree.fromLast id (above ++ anchor :: below) = some (anchor :: below) := by
  have hnone : ∀ l : List (Node host), (∀ b ∈ l, b.key.2 ≠ id) →
      RuntimeStateTree.fromLast id l = none := by
    intro l hl
    induction l with
    | nil => rfl
    | cons b l ih =>
      rw [RuntimeStateTree.fromLast, ih fun c hc => hl c (List.mem_cons_of_mem _ hc)]
      exact if_neg (hl b List.mem_cons_self)
  induction above with
  | nil =>
    rw [List.nil_append, RuntimeStateTree.fromLast, hnone below hbelow]
    exact if_pos hid
  | cons b above ih => rw [List.cons_append, RuntimeStateTree.fromLast, ih]

theorem exists_turns {below : List (Node host)} (h : ∀ b ∈ below, ∃ d, s.parentOf b = some d) :
    ∃ turns : List (ValidTurn host), below = turns.map .turn := by
  induction below with
  | nil => exact ⟨[], rfl⟩
  | cons b below ih =>
    obtain ⟨turns, rfl⟩ := ih fun c hc => h c (List.mem_cons_of_mem _ hc)
    rcases b with ⟨_, _⟩ | node
    · obtain ⟨d, hd⟩ := h _ List.mem_cons_self
      cases hd
    · exact ⟨node :: turns, rfl⟩

theorem turnsOf_turns (turns : List (ValidTurn host)) :
    RuntimeStateTree.turnsOf (turns.map Node.turn) = turns.map Subtype.val := by
  induction turns with
  | nil => rfl
  | cons node turns ih => exact congrArg (node.val :: ·) ih

/-- **The model context of a Turn.** The way from the Turn to the root starts with `turns`, which
end with the anchor; `model_input` gives them from the anchor down. -/
def ContextFromAnchor (s : Tables host) (sessionId : String) (node : ValidTurn host) : Prop :=
  ∃ (turns : List (ValidTurn host)) (above : List (Node host)) (anchor : ValidTurn host),
    Climbs s.parentOf (fun top => top.isRoot) (.turn node) (turns.map .turn ++ above) ∧
    turns.head? = some node ∧ turns.getLast? = some anchor ∧ anchor.val.id = node.val.compactionId ∧
    (s.tree sessionId).modelInput node = .ok (turns.reverse.map Subtype.val)

theorem WellAnchored.context (h : WellAnchored sessionId s) {key : String × String}
    (hnode : s.nodes.lookup key = some (.turn node)) : ContextFromAnchor s sessionId node := by
  obtain ⟨rfl, -⟩ := h.session _ _ hnode
  obtain ⟨path, anchor, hclimb, hmem, hid⟩ := h.anchored _ _ hnode
  obtain ⟨below, above, rfl⟩ := List.append_of_mem hmem
  have hstored := h.grown.path_stored hnode hclimb
  have hnodup := h.grown.path_nodup hnode hclimb
  have hancestors := h.grown.ancestors hnode hclimb
  -- no Turn below the anchor has its id, as ids are keys of the Session
  have hbelow : ∀ b ∈ below, b.key.2 ≠ anchor.val.id := by
    intro b hb he
    have hkeys : b.key = (Node.turn anchor).key := by
      refine Prod.ext ?_ he
      exact (hstored b (List.mem_append_left _ hb)).2.trans (hstored _ hmem).2.symm
    rw [List.map_append, List.map_cons, List.nodup_append] at hnodup
    exact hnodup.2.2 _ (List.mem_map_of_mem hb) _ List.mem_cons_self hkeys
  obtain ⟨turns, rfl⟩ := exists_turns hclimb.exists_up
  refine ⟨turns ++ [anchor], above, anchor, ?_, ?_, List.getLast?_concat, hid, ?_⟩
  · rw [List.map_append, List.append_assoc]
    exact hclimb
  · have hhead := hclimb.head
    rcases turns with _ | ⟨first, turns⟩ <;> cases hhead <;> rfl
  · have hlast := fromLast_append above.reverse (show (Node.turn anchor).key.2 =
      anchor.val.id from rfl)
      fun b hb => hbelow b (List.mem_reverse.mp hb)
    rw [RuntimeStateTree.modelInput]
    refine bind_ok.mpr ⟨_, hancestors, ?_⟩
    rw [List.reverse_append, List.reverse_cons, List.append_assoc, List.singleton_append,
      ← hid, hlast]
    rw [pure_ok, ← List.map_reverse, ← List.map_cons, turnsOf_turns, List.reverse_append]
    rfl

/-- A Turn that is its own anchor is its whole context. -/
theorem ContextFromAnchor.alone (hc : ContextFromAnchor s sessionId node)
    (hg : WellAnchored sessionId s) {key : String × String}
    (hnode : s.nodes.lookup key = some (.turn node)) (hself : node.val.compactionId = node.val.id) :
    (s.tree sessionId).modelInput node = .ok [node.val] := by
  obtain ⟨rfl, -⟩ := hg.session _ _ hnode
  obtain ⟨turns, above, anchor, hclimb, hhead, hlast, hid, hinput⟩ := hc
  have hnodup := hg.grown.path_nodup hnode hclimb
  have hstored := hg.grown.path_stored hnode hclimb
  rcases turns with _ | ⟨first, turns⟩
  · cases hhead
  cases hhead
  rcases List.eq_nil_or_concat turns with rfl | ⟨init, last, rfl⟩
  · exact hinput
  -- the anchor would be a second node with the id of the Turn
  rw [List.concat_eq_append, ← List.cons_append, List.getLast?_concat] at hlast
  cases hlast
  have hmem : Node.turn anchor ∈ (init.concat anchor).map Node.turn ++ above := by simp
  have hkeys : (Node.turn node).key = (Node.turn anchor).key := by
    refine Prod.ext ?_ (hself.symm.trans hid.symm)
    rw [(hstored _ (List.mem_cons_of_mem _ hmem)).2]
    exact congrArg Prod.fst (hg.grown.named _ _ hnode)
  rw [List.map_cons, List.cons_append, List.map_cons, List.nodup_cons] at hnodup
  exact absurd (hkeys ▸ List.mem_map_of_mem hmem) hnodup.1

/-- In a Session that is built by creations, compactions and forks, every anchor is a Turn on the
way to the root, `model_input` gives the way from the anchor down, and a compaction is alone in its
context. -/
theorem context_anchors (sessionId rootId : String) (ops : List TurnOp) (s : Tables host)
    (hrun : run (TurnOp.step sessionId) (Tables.rooted host sessionId rootId) ops = some s) :
    (∀ key node, s.nodes.lookup key = some (.turn node) → ContextFromAnchor s sessionId node) ∧
    (∀ key node, s.nodes.lookup key = some (.turn node) → node.val.compactionId = node.val.id →
      (s.tree sessionId).modelInput node = .ok [node.val]) ∧
    ∀ turnId summary newTurnId now node,
      TurnOp.result s sessionId (.compact turnId summary newTurnId now) = .ok node →
        node.val.compactionId = node.val.id := by
  have h : WellAnchored sessionId s :=
    run_invariant (fun _ _ _ h _ hstep => h.step hstep) (wellAnchored_rooted rootId) meets_true hrun
  refine ⟨fun key node hnode => h.context hnode,
    fun key node hnode hself => (h.context hnode).alone h hnode hself, ?_⟩
  intro turnId summary newTurnId now node hr
  rw [TurnOp.result] at hr
  split at hr
  · exact (RuntimeStateTree.compact_ok hr).2.2.2.2
  · cases hr

open Browser (sampleHost sampleTurn)

def sampleArgs (id threadId : String) : CreateArgs where
  sessionId := "s1"
  threadId
  id
  user := "u"
  providerName := "p"
  model := defaultModel.toDict
  permissionMode := .workspaceWrite
  runningMode := .agent
  cwd := ""
  projectCwd := ""
  firstKeptItemSize := 1
  timestamp := sampleNow
  status := .success
  data := dataJson (sampleTurn "a" "success").data

/-- A Turn, its compaction and a fork of it, each under the one before. -/
def sampleTurnOps : List TurnOp :=
  [.create "r" (sampleArgs "t1" "s1"), .compact "t1" "short" "t2" sampleNow,
    .create "t2" (sampleArgs "t3" "s1"),
    .fork "t3" "t4" "f1" sampleNow]

/-- The ids a Turn of the sample Session has in its context. -/
def sampleContext (s : Tables sampleHost) (id : String) : Option (List String) :=
  match s.nodes.lookup ("s1", id) with
  | some (.turn node) =>
    ((s.tree "s1").modelInput node).toOption.map fun turns => turns.map RuntimeState.id
  | _ => none

theorem context_anchors_sample :
    ∃ s, run (TurnOp.step "s1") (Tables.rooted sampleHost "s1" "r") sampleTurnOps = some s ∧
    (∀ key node, s.nodes.lookup key = some (.turn node) → ContextFromAnchor s "s1" node) ∧
    sampleContext s "t4" = some ["t2", "t4"] := by
  refine ⟨_, rfl, (context_anchors "s1" "r" sampleTurnOps _ rfl).1, ?_⟩
  decide +kernel

end MiniAgent.Store
