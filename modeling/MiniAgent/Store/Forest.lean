import MiniAgent.Lib.Climb
import MiniAgent.Store.Running

/-!
# The Turn tree is a rooted forest

Every creation checks that the parent of the new Turn is stored in its Session. As long as no
creation takes the id of a stored node, the parents of the stored Turns stay where they are, and a
new Turn climbs to the root through a parent that does (`Grown`). `ancestors` follows the same path,
so it does not raise.

`create_node` writes over a stored node of the same id, and with it `create_compact_turn`: two Turns
can become each other's ancestor.
-/

namespace MiniAgent.Store

open Lib Turn Tables

variable {host : Host} {s t u : Tables host} {node : ValidTurn host}

/-! ## Parents -/

/-- The node that `(parent_session_id, parent_id)` names, where it is of the Session of the Turn and
in the Thread that `parent_thread_id` names. -/
def Tables.parentOf (s : Tables host) : Node host → Option (Node host)
  | .root _ _ => none
  | .turn t =>
    if t.val.parentId ≠ "" ∧ t.val.parentSessionId = t.val.sessionId then
      (s.nodes.lookup (t.val.parentSessionId, t.val.parentId)).filter fun parent =>
        t.val.parentThreadId = parent.threadId
    else none

theorem parentOf_turn {parent : Node host} : s.parentOf (.turn node) = some parent ↔
    node.val.parentId ≠ "" ∧ node.val.parentSessionId = node.val.sessionId ∧
      s.nodes.lookup (node.val.sessionId, node.val.parentId) = some parent ∧
      node.val.parentThreadId = parent.threadId := by
  rw [Tables.parentOf]
  split
  · next h =>
    rw [Option.filter_eq_some_iff, h.2, decide_eq_true_eq]
    exact ⟨fun hp => ⟨h.1, rfl, hp⟩, fun hp => hp.2.2⟩
  · next h => exact ⟨fun hp => (nomatch hp), fun hp => absurd ⟨hp.1, hp.2.1⟩ h⟩

theorem Parented.parentOf (h : Parented s node.val) :
    ∃ parent, s.parentOf (.turn node) = some parent := by
  obtain ⟨parent, hlookup, hthread⟩ := h.parent
  exact ⟨parent, parentOf_turn.mpr ⟨h.parentId, h.session, hlookup, hthread⟩⟩

/-- The node climbs to the root of its Session. -/
def Rooted (s : Tables host) (found : Node host) : Prop :=
  ∃ path, Climbs s.parentOf (fun top => top.isRoot) found path

theorem parentOf_root {top : Node host} (h : top.isRoot = true) : s.parentOf top = none := by
  rcases top with ⟨_, _⟩ | _
  · rfl
  · cases h

structure Grown (s : Tables host) : Prop where
  named : Named s
  oneRoot : ∀ sessionId id id', s.nodes.lookup (sessionId, id) = some (.root sessionId id) →
    s.nodes.lookup (sessionId, id') = some (.root sessionId id') → id = id'
  rooted : ∀ key found, s.nodes.lookup key = some found → Rooted s found

/-- What is stored stays. -/
def Lasts (s t : Tables host) : Prop :=
  ∀ key found, s.nodes.lookup key = some found → t.nodes.lookup key = some found

theorem Lasts.refl (s : Tables host) : Lasts s s := fun _ _ h => h

theorem Lasts.trans (h : Lasts s t) (h' : Lasts t u) : Lasts s u :=
  fun key found hs => h' key found (h key found hs)

theorem Lasts.climbs (h : Lasts s t) {found : Node host} {path : List (Node host)}
    (hclimb : Climbs s.parentOf (fun top => top.isRoot) found path) :
    Climbs t.parentOf (fun top => top.isRoot) found path := by
  refine hclimb.mono fun a b hab => ?_
  rcases a with ⟨_, _⟩ | a
  · cases hab
  · obtain ⟨hid, hsession, hlookup, hthread⟩ := parentOf_turn.mp hab
    exact parentOf_turn.mpr ⟨hid, hsession, h _ _ hlookup, hthread⟩

theorem Lasts.rooted (h : Lasts s t) {found : Node host} (hr : Rooted s found) :
    Rooted t found := by
  obtain ⟨path, hclimb⟩ := hr
  exact ⟨path, h.climbs hclimb⟩

/-! ## Creations -/

/-- The key of the Turn is free, or holds the Turn itself. -/
def Fresh (s : Tables host) (node : ValidTurn host) : Prop :=
  ∀ found, s.nodes.lookup node.val.key = some found → found = .turn node

theorem lasts_insert (hfresh : Fresh s node)
    (ht : t.nodes = s.nodes.insert node.val.key (.turn node)) :
    Lasts s t := by
  intro key found hfound
  rw [ht]
  by_cases hk : key = node.val.key
  · subst hk
    rw [AList.lookup_insert, hfresh found hfound]
  · rw [AList.lookup_insert_ne hk]
    exact hfound

theorem lookup_insert_cases (ht : t.nodes = s.nodes.insert node.val.key (.turn node))
    {key : String × String} {found : Node host} (h : t.nodes.lookup key = some found) :
    (key = node.val.key ∧ found = .turn node) ∨ s.nodes.lookup key = some found := by
  rw [ht] at h
  by_cases hk : key = node.val.key
  · subst hk
    rw [AList.lookup_insert] at h
    exact .inl ⟨rfl, (Option.some.inj h).symm⟩
  · rw [AList.lookup_insert_ne hk] at h
    exact .inr h

/-- Every node is stored under its key, and a Session has one root. -/
structure OneRoot (s : Tables host) : Prop where
  named : Named s
  root : ∀ sessionId id id', s.nodes.lookup (sessionId, id) = some (.root sessionId id) →
    s.nodes.lookup (sessionId, id') = some (.root sessionId id') → id = id'

theorem Grown.one (h : Grown s) : OneRoot s := ⟨h.named, h.oneRoot⟩

theorem OneRoot.same (h : OneRoot s) (hnodes : t.nodes = s.nodes) : OneRoot t := by
  obtain ⟨named, root⟩ := h
  refine ⟨fun key found hfound => named key found ?_, fun sessionId id id' hid hid' =>
    root sessionId id id' ?_ ?_⟩
  · rw [← hnodes]; exact hfound
  · rw [← hnodes]; exact hid
  · rw [← hnodes]; exact hid'

theorem OneRoot.insert (h : OneRoot s) (ht : t.nodes = s.nodes.insert node.val.key (.turn node)) :
    OneRoot t where
  named := Sound.named_insert h.named ht
  root sessionId id id' hid hid' := by
    obtain ⟨-, hturn⟩ | hid := lookup_insert_cases ht hid
    · cases hturn
    obtain ⟨-, hturn⟩ | hid' := lookup_insert_cases ht hid'
    · cases hturn
    exact h.root sessionId id id' hid hid'

theorem lookup_empty {sessionId id : String} {found : Node host} (h : Named s)
    (hempty : s.loadNodes sessionId = []) :
    s.nodes.lookup (sessionId, id) ≠ some found := by
  intro hfound
  have hmem := (mem_loadNodes h).mpr ⟨id, hfound⟩
  rw [hempty] at hmem
  cases hmem

theorem lookup_root_cases {sessionId id : String} {key : String × String} {found : Node host}
    (h : (s.nodes.insert (sessionId, id) (Node.root sessionId id)).lookup key = some found) :
    (key = (sessionId, id) ∧ found = .root sessionId id) ∨ s.nodes.lookup key = some found := by
  by_cases hk : key = (sessionId, id)
  · subst hk
    rw [AList.lookup_insert] at h
    exact .inl ⟨rfl, (Option.some.inj h).symm⟩
  · rw [AList.lookup_insert_ne hk] at h
    exact .inr h

theorem OneRoot.addRoot {sessionId id : String} (h : OneRoot s)
    (hempty : s.loadNodes sessionId = []) :
    OneRoot { s with nodes := s.nodes.insert (sessionId, id) (.root sessionId id) } where
  named key found hfound := by
    obtain ⟨rfl, rfl⟩ | hfound := lookup_root_cases hfound
    · rfl
    · exact h.named key found hfound
  root session a b ha hb := by
    obtain ⟨hka, -⟩ | hsa := lookup_root_cases ha <;> obtain ⟨hkb, -⟩ | hsb := lookup_root_cases hb
    · exact (congrArg Prod.snd hka).trans (congrArg Prod.snd hkb).symm
    · obtain rfl : session = sessionId := congrArg Prod.fst hka
      exact absurd hsb (lookup_empty h.named hempty)
    · obtain rfl : session = sessionId := congrArg Prod.fst hkb
      exact absurd hsa (lookup_empty h.named hempty)
    · exact h.root session a b hsa hsb

theorem Grown.insert (h : Grown s) (hfresh : Fresh s node) (hparent : Parented s node.val)
    (ht : t.nodes = s.nodes.insert node.val.key (.turn node)) : Grown t ∧ Lasts s t := by
  have hlasts := lasts_insert hfresh ht
  have hone := h.one.insert ht
  refine ⟨⟨hone.named, hone.root, fun key found hfound => ?_⟩, hlasts⟩
  obtain ⟨-, rfl⟩ | hfound := lookup_insert_cases ht hfound
  · obtain ⟨parent, hup⟩ := hparent.parentOf
    obtain ⟨-, -, hlookup, -⟩ := parentOf_turn.mp hup
    -- the parent climbs to the root already, and the Turn through it
    obtain ⟨path, hclimb⟩ := h.rooted _ _ hlookup
    exact hlasts.rooted ⟨_, .step hup hclimb⟩
  · exact hlasts.rooted (h.rooted key found hfound)

theorem Grown.same (h : Grown s) (hs : Same s t) : Grown t ∧ Lasts s t := by
  have hlasts : Lasts s t := fun key found hfound => by rw [hs.nodes]; exact hfound
  have hone := h.one.same hs.nodes
  refine ⟨⟨hone.named, hone.root, fun key found hfound => ?_⟩, hlasts⟩
  rw [hs.nodes] at hfound
  exact hlasts.rooted (h.rooted key found hfound)

theorem Grown.batch {nodes : List (ValidTurn host)} (hb : Batch s nodes t) (h : Grown s) :
    Grown t ∧ Lasts s t := by
  induction hb with
  | nil hsame => exact h.same hsame
  | cons hsealed hfree hparent hput rest ih =>
    have hfresh : Fresh _ _ := fun found hfound => (nomatch hfree.symm.trans hfound)
    obtain ⟨hgrown, hlasts⟩ := h.insert hfresh hparent hput.nodes
    obtain ⟨hgrown', hlasts'⟩ := ih hgrown
    exact ⟨hgrown', hlasts.trans hlasts'⟩

theorem Grown.ensureRootNode {sessionId id : String} {root : Node host} (h : Grown s)
    (hx : Store.ensureRootNode sessionId id s = (.ok root, t)) : Grown t ∧ Lasts s t := by
  obtain rfl | ⟨hempty, -, rfl⟩ := ensureRootNode_ok hx
  · exact ⟨h, .refl s⟩
  have hlasts : Lasts s
      { s with nodes := s.nodes.insert (sessionId, id) (.root sessionId id) } := by
    intro key found hfound
    have hk : key ≠ (sessionId, id) := by
      rintro rfl
      exact lookup_empty h.named hempty hfound
    exact (AList.lookup_insert_ne hk).trans hfound
  have hone := @OneRoot.addRoot _ s sessionId id h.one hempty
  refine ⟨⟨hone.named, hone.root, fun key found hfound => ?_⟩, hlasts⟩
  obtain ⟨-, rfl⟩ | hfound := lookup_root_cases hfound
  · exact ⟨_, .stop rfl⟩
  · exact hlasts.rooted (h.rooted key found hfound)

/-! ## Ancestors -/

theorem get?_loadNodes (h : Named s) (sessionId id : String) :
    RuntimeStateTree.get? ⟨s.loadNodes sessionId⟩ sessionId id =
      s.nodes.lookup (sessionId, id) := by
  have hstored : ∀ found ∈ s.loadNodes sessionId, s.nodes.lookup found.key = some found := by
    intro found hmem
    obtain ⟨id, hlookup⟩ := (mem_loadNodes h).mp hmem
    rw [h _ _ hlookup]
    exact hlookup
  simp only [RuntimeStateTree.get?]
  rcases hfind : (s.loadNodes sessionId).find? fun node => node.key = (sessionId, id) with _ | found
  · rcases hlookup : s.nodes.lookup (sessionId, id) with _ | other
    · exact hfind
    · have hmem := (mem_loadNodes h).mpr ⟨id, hlookup⟩
      have hnot := List.find?_eq_none.mp hfind other hmem
      exact absurd (decide_eq_true (h _ _ hlookup)) hnot
  · have hkey : found.key = (sessionId, id) := by simpa using List.find?_some hfind
    have hlookup := hstored found (List.mem_of_find?_eq_some hfind)
    rw [hkey] at hlookup
    exact hfind.trans hlookup.symm

/-- The loop follows a path whose keys it has not seen. -/
theorem ancestorsFrom_climbs (h : Named s) {sessionId : String} {found : Node host}
    {path : List (Node host)} (hclimb : Climbs s.parentOf (fun top => top.isRoot) found path)
    (hsession : found.key.1 = sessionId) :
    ∀ (fuel : Nat) (seen : List (String × String)), path.length ≤ fuel → (path.map Node.key).Nodup →
      (∀ key ∈ path.map Node.key, key ∉ seen) →
      RuntimeStateTree.ancestorsFrom ⟨s.loadNodes sessionId⟩ fuel seen found =
        .ok path.reverse := by
  induction hclimb with
  | stop htop =>
    rename_i top
    intro fuel seen hfuel _ hseen
    obtain ⟨fuel, rfl⟩ : ∃ n, fuel = n + 1 :=
      ⟨fuel - 1, by simp only [List.length_singleton] at hfuel; omega⟩
    rcases top with ⟨_, _⟩ | _
    · simp only [RuntimeStateTree.ancestorsFrom, bind_ok, exists_unit, require_ok]
      exact ⟨decide_eq_true (hseen _ (List.mem_singleton_self _)), rfl⟩
    · cases htop
  | step hup rest ih =>
    rename_i current parent path
    intro fuel seen hfuel hnodup hseen
    obtain ⟨fuel, rfl⟩ : ∃ n, fuel = n + 1 :=
      ⟨fuel - 1, by simp only [List.length_cons] at hfuel; omega⟩
    rcases current with ⟨_, _⟩ | node
    · cases hup
    obtain ⟨hid, hparentSession, hlookup, hthread⟩ := parentOf_turn.mp hup
    have hsame : node.val.sessionId = sessionId := hsession
    have hkey : parent.key.1 = sessionId := by rw [h _ _ hlookup]; exact hsame
    rw [List.map_cons, List.nodup_cons] at hnodup
    have hparent := ih hkey fuel (node.val.key :: seen) (Nat.le_of_succ_le_succ hfuel) hnodup.2 (by
      intro key hmem hin
      rcases List.mem_cons.mp hin with rfl | hin
      · exact hnodup.1 hmem
      · exact hseen key (List.mem_cons_of_mem _ hmem) hin)
    simp only [RuntimeStateTree.ancestorsFrom, bind_ok, exists_unit, require_ok]
    refine ⟨decide_eq_true (hseen _ List.mem_cons_self), bne_iff_ne.mpr hid, ?_⟩
    rw [hparentSession, hsame, get?_loadNodes h, ← hsame, hlookup]
    simp only [bind_ok, exists_unit, require_ok]
    refine ⟨beq_iff_eq.mpr rfl, beq_iff_eq.mpr hthread, path.reverse, ?_, ?_⟩
    · rw [hsame]
      exact hparent
    · rw [pure_ok, List.reverse_cons]

variable {sessionId id : String} {found : Node host} {path : List (Node host)}

/-- The way up from a stored node passes stored nodes of its Session. -/
theorem Grown.path_stored (h : Grown s) (hfound : s.nodes.lookup (sessionId, id) = some found)
    (hclimb : Climbs s.parentOf (fun top => top.isRoot) found path) :
    ∀ b ∈ path, s.nodes.lookup b.key = some b ∧ b.key.1 = sessionId := by
  have hkey : found.key = (sessionId, id) := h.named _ _ hfound
  refine hclimb.forall_mem (fun a b ha hab => ?_) ⟨by rw [hkey]; exact hfound, by rw [hkey]⟩
  rcases a with ⟨_, _⟩ | a
  · cases hab
  · obtain ⟨-, -, hlookup, -⟩ := parentOf_turn.mp hab
    rw [h.named _ _ hlookup]
    exact ⟨hlookup, ha.2⟩

theorem Grown.path_nodup (h : Grown s) (hfound : s.nodes.lookup (sessionId, id) = some found)
    (hclimb : Climbs s.parentOf (fun top => top.isRoot) found path) :
      (path.map Node.key).Nodup := by
  have hpath := h.path_stored hfound hclimb
  refine List.Nodup.map_on (fun a ha b hb hab => ?_) (hclimb.nodup fun _ => parentOf_root)
  have hb := (hpath b hb).1
  rw [← hab, (hpath a ha).1] at hb
  exact Option.some.inj hb

/-- `ancestors` is the way up, from the root on. -/
theorem Grown.ancestors (h : Grown s) (hfound : s.nodes.lookup (sessionId, id) = some found)
    (hclimb : Climbs s.parentOf (fun top => top.isRoot) found path) :
    RuntimeStateTree.ancestors ⟨s.loadNodes sessionId⟩ found = .ok path.reverse := by
  have hpath := h.path_stored hfound hclimb
  have hlen : path.length ≤ (s.loadNodes sessionId).length := by
    refine hclimb.length_le (fun _ => parentOf_root) fun b hb =>
      (mem_loadNodes h.named).mpr ⟨b.key.2, ?_⟩
    rw [← (hpath b hb).2]
    exact (hpath b hb).1
  refine ancestorsFrom_climbs h.named hclimb ?_ _ [] ?_ (h.path_nodup hfound hclimb)
    fun key _ hin => (nomatch hin)
  · rw [h.named _ _ hfound]
  · exact Nat.le_trans hlen (Nat.le_add_right _ 2)

/-! ## Runs -/

/-- The calls that make nodes. -/
inductive TreeOp (host : Host) where
  | ensureRootNode (sessionId id : String)
  | createNode (node : ValidTurn host)
  | createFinalizedNodes (nodes : List (ValidTurn host))
  | forkTurnNode (turnId newTurnId threadId : String)
  | createCompactTurn (turnId summary newTurnId : String)

def TreeOp.call : TreeOp host → StoreOp host
  | .ensureRootNode sessionId id => .ensureRootNode sessionId id
  | .createNode node => .createNode node
  | .createFinalizedNodes nodes => .createFinalizedNodes nodes
  | .forkTurnNode turnId newTurnId threadId => .forkTurnNode turnId newTurnId threadId
  | .createCompactTurn turnId summary newTurnId => .createCompactTurn turnId summary newTurnId

def TreeOp.step (s : Tables host) (op : TreeOp host × String) : Option (Tables host) :=
  s.step (op.1.call, op.2)

/-- A call that does not check its id is given a free one. -/
def NewId (s : Tables host) : TreeOp host → Prop
  | .createNode node => Fresh s node
  | .createCompactTurn turnId _ newTurnId =>
    ∀ source : ValidTurn host, Stored s source → source.val.id = turnId →
      s.nodes.lookup (source.val.sessionId, newTurnId) = none
  | _ => True

/-- **Step.** A call leaves what is stored where it is, and what it stores is rooted. -/
theorem Grown.step (h : Grown s) {op : TreeOp host × String} (hok : NewId s op.1)
    (hstep : TreeOp.step s op = some t) :
    Grown t ∧ Lasts s t := by
  obtain ⟨op, now⟩ := op
  cases hstep
  rcases hx : op.call.perform now s with ⟨e | ⟨⟩, t⟩
  · rw [atomic_perform now op.call s e t hx]
    exact ⟨h, .refl s⟩
  cases op with
  | ensureRootNode sessionId id => obtain ⟨_, hx⟩ := drop_ok hx; exact h.ensureRootNode hx
  | createNode node =>
    obtain ⟨-, hparent, -, hc⟩ := createNode_ok hx
    exact h.insert hok hparent hc.nodes
  | createFinalizedNodes nodes => exact Grown.batch (createFinalizedNodes_ok hx) h
  | forkTurnNode turnId newTurnId threadId =>
    obtain ⟨_, hx⟩ := drop_ok hx
    obtain ⟨_, -, -, -, -, hb⟩ := forkTurnNode_ok h.named hx
    exact Grown.batch hb h
  | createCompactTurn turnId summary newTurnId =>
    obtain ⟨compacted, hx⟩ := drop_ok hx
    obtain ⟨source, hstored, hid, ⟨tree, -, hcompact⟩, hcreate⟩ := createCompactTurn_ok h.named hx
    obtain ⟨hkey, -⟩ := RuntimeStateTree.compact_ok hcompact
    obtain ⟨-, hparent, -, hc⟩ := createNode_ok hcreate
    have hnone := hok source hstored hid
    rw [← hkey] at hnone
    exact h.insert (fun found hfound => (nomatch hnone.symm.trans hfound)) hparent hc.nodes

theorem grown_new (sessions : List String) : Grown (Tables.new host sessions) := by
  have hnone : ∀ key found, (Tables.new host sessions).nodes.lookup key ≠ some found := by
    intro key found hfound
    rw [Tables.new, AList.lookup_empty] at hfound
    cases hfound
  exact ⟨fun key found h => absurd h (hnone key found), fun _ _ _ h => absurd h (hnone _ _),
    fun key found h => absurd h (hnone key found)⟩

theorem lasts_run {ops : List (TreeOp host × String)} (h : Grown s)
    (hok : Meets TreeOp.step (fun s op => NewId s op.1) s ops)
    (hrun : run TreeOp.step s ops = some t) : Lasts s t := by
  have hstep : ∀ u op v, Grown u ∧ Lasts s u → NewId u op.1 → TreeOp.step u op = some v →
      Grown v ∧ Lasts s v := by
    rintro u op v ⟨hgrown, hlasts⟩ hop hstep
    obtain ⟨hgrown', hlasts'⟩ := hgrown.step hop hstep
    exact ⟨hgrown', hlasts.trans hlasts'⟩
  exact (run_invariant hstep ⟨h, .refl s⟩ hok hrun).2

/-- The Turn tree of a Session: one root, a way up from every Turn, and `ancestors` finds it. -/
structure RootedForest (s : Tables host) : Prop where
  oneRoot : ∀ sessionId, ((s.loadNodes sessionId).filter Node.isRoot).length ≤ 1
  rooted : ∀ sessionId node, .turn node ∈ s.loadNodes sessionId → ∃ tree path,
    RuntimeStateTree.ofNodes (s.loadNodes sessionId) = .ok tree ∧
      Climbs s.parentOf (fun top => top.isRoot) (.turn node) path ∧
        tree.ancestors (.turn node) = .ok path.reverse

theorem nodup_loadNodes (h : Named s) (sessionId : String) : (s.loadNodes sessionId).Nodup := by
  refine List.Nodup.filter _ (List.Nodup.of_map Node.key ?_)
  have hkeys : (s.nodes.entries.map Sigma.snd).map Node.key = s.nodes.keys := by
    rw [List.map_map]
    refine List.map_congr_left fun entry hmem => ?_
    exact h entry.1 entry.2 (AList.mem_lookup_iff.mpr hmem)
  rw [hkeys]
  exact s.nodes.keys_nodup

theorem OneRoot.length_le (h : OneRoot s) (sessionId : String) :
    ((s.loadNodes sessionId).filter Node.isRoot).length ≤ 1 := by
  have hroot : ∀ found ∈ (s.loadNodes sessionId).filter Node.isRoot, ∃ id, found =
      .root sessionId id ∧
      s.nodes.lookup (sessionId, id) = some (.root sessionId id) := by
    intro found hfound
    obtain ⟨hmem, hisRoot⟩ := List.mem_filter.mp hfound
    obtain ⟨id, hlookup⟩ := (mem_loadNodes h.named).mp hmem
    rcases found with ⟨a, b⟩ | _
    · cases h.named _ _ hlookup
      exact ⟨_, rfl, hlookup⟩
    · cases hisRoot
  have hnodup := (nodup_loadNodes h.named sessionId).filter Node.isRoot
  rcases hl : (s.loadNodes sessionId).filter Node.isRoot with _ | ⟨a, _ | ⟨b, rest⟩⟩
  · exact Nat.zero_le _
  · exact Nat.le_refl _
  · rw [hl] at hroot hnodup
    obtain ⟨id, rfl, hid⟩ := hroot a List.mem_cons_self
    obtain ⟨id', rfl, hid'⟩ := hroot b (List.mem_cons_of_mem _ List.mem_cons_self)
    rw [h.root sessionId id id' hid hid'] at hnodup
    exact absurd List.mem_cons_self (List.nodup_cons.mp hnodup).1

theorem OneRoot.ofNodes (h : OneRoot s) (sessionId : String) :
    RuntimeStateTree.ofNodes (s.loadNodes sessionId) = .ok ⟨s.loadNodes sessionId⟩ := by
  simp only [RuntimeStateTree.ofNodes, bind_ok, exists_unit, require_ok,
    List.countP_eq_length_filter]
  exact ⟨decide_eq_true (h.length_le sessionId), rfl⟩

theorem Grown.rootedForest (h : Grown s) : RootedForest s := by
  refine ⟨h.one.length_le, fun sessionId node hmem => ?_⟩
  obtain ⟨id, hlookup⟩ := (mem_loadNodes h.named).mp hmem
  obtain ⟨path, hclimb⟩ := h.rooted _ _ hlookup
  exact ⟨⟨s.loadNodes sessionId⟩, path, h.one.ofNodes sessionId, hclimb, h.ancestors hlookup hclimb⟩

/-- In every run whose creations are given free ids, the stored Turns are a rooted forest, and what
is stored stays as it is in every later state. -/
theorem turn_forest (sessions : List String) (ops more : List (TreeOp host × String))
    (s t : Tables host)
    (hok : Meets TreeOp.step (fun s op => NewId s op.1) (Tables.new host sessions) (ops ++ more))
    (hrun : run TreeOp.step (Tables.new host sessions) ops = some s)
    (hmore : run TreeOp.step s more = some t) :
    RootedForest s ∧ ∀ key found, s.nodes.lookup key = some found →
      t.nodes.lookup key = some found := by
  obtain ⟨hops, hrest⟩ := hok.append
  have hgrown : Grown s :=
    run_invariant (fun u op v hu hop hstep => (Grown.step hu hop hstep).1)
      (grown_new sessions) hops hrun
  exact ⟨hgrown.rootedForest, lasts_run hgrown (hrest s hrun) hmore⟩

/-! ## Two Turns above each other -/

open Browser (sampleHost)

def sampleOps : List (TreeOp sampleHost × String) :=
  [(.ensureRootNode "s1" "r", sampleNow),
    (.createNode (sampleValid "t1" "s1" "r" .running sample_names), sampleNow)]

theorem turn_forest_sample :
    ∃ s, run TreeOp.step (Tables.new sampleHost ["s1"]) sampleOps = some s ∧ RootedForest s ∧
    (s.loadNodes "s1").length = 2 := by
  have hok : Meets TreeOp.step (fun s op => NewId s op.1) (Tables.new sampleHost ["s1"])
      (sampleOps ++ []) := by
    refine ⟨trivial, fun s hs => ⟨fun found hfound => ?_, fun _ _ => trivial⟩⟩
    cases hs
    have hfree : ((((StoreOp.ensureRootNode "s1" "r").perform sampleNow
        (Tables.new sampleHost ["s1"])).2.nodes.lookup ("s1", "t1")).isNone) = true := by
          decide +kernel
    exact nomatch (Option.isNone_iff_eq_none.mp hfree).symm.trans hfound
  refine ⟨_, rfl, (turn_forest ["s1"] sampleOps [] _ _ hok rfl rfl).1, ?_⟩
  decide +kernel

/-- A Turn is created again under its own child. -/
def sampleCycle : List (TreeOp sampleHost × String) :=
  sampleOps ++ [(.createFinalizedNodes [sampleValid "t2" "s1" "t1" .success], sampleNow),
    (.createNode (sampleValid "t1" "s1" "t2" .running), sampleNow)]

def isError {α : Type} : Except Err α → Bool
  | .ok _ => false
  | .error _ => true

theorem parents_in_a_cycle :
    ∃ s, run TreeOp.step (Tables.new sampleHost ["s1"]) sampleCycle = some s ∧
    .turn (sampleValid "t1" "s1" "t2" .running) ∈ s.loadNodes "s1" ∧
    isError (RuntimeStateTree.ancestors ⟨s.loadNodes "s1"⟩
      (.turn (sampleValid "t1" "s1" "t2" .running))) = true ∧
    ¬ RootedForest s := by
  have hraises : isError (RuntimeStateTree.ancestors
      ⟨((run TreeOp.step (Tables.new sampleHost ["s1"]) sampleCycle).getD
      (Tables.new sampleHost [])).loadNodes "s1"⟩ (.turn (sampleValid "t1" "s1" "t2" .running))) =
        true := by
    decide +kernel
  have hmem : .turn (sampleValid "t1" "s1" "t2" .running) ∈
      ((run TreeOp.step (Tables.new sampleHost ["s1"])
      sampleCycle).getD (Tables.new sampleHost [])).loadNodes "s1" := List.mem_of_mem_head? rfl
  refine ⟨_, rfl, hmem, hraises, fun h => ?_⟩
  obtain ⟨tree, path, htree, -, hancestors⟩ := h.rooted "s1" _ hmem
  obtain ⟨-, -, htree⟩ := bind_ok.mp htree
  cases htree
  exact nomatch (congrArg isError hancestors).symm.trans hraises

end MiniAgent.Store
