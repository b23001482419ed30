import MiniAgent.Store.Nodes

/-!
# What a call has done

One inversion lemma per operation: from a call that returned, the checks it passed and what became
of the nodes and of the running Turn of each Thread (`slot`). `Claimed`, `Released` and `Kept` are
the three ways in which an operation stores a Turn.
-/

namespace MiniAgent.Store

open Lib Turn

variable {host : Host}

namespace Tables

/-- `running_turn_id` of a Thread. -/
def slot (s : Tables host) (key : String × String) : Option String :=
  (s.threads.lookup key).bind RuntimeThread.runningTurnId

/-- The nodes and the running Turns of both are the same. -/
structure Same (s t : Tables host) : Prop where
  sessions : t.sessions = s.sessions
  nodes : t.nodes = s.nodes
  slot : t.slot = s.slot

theorem Same.refl (s : Tables host) : Same s s := ⟨rfl, rfl, rfl⟩

theorem Same.trans {s t u : Tables host} (h : Same s t) (h' : Same t u) : Same s u :=
  ⟨h'.sessions.trans h.sessions, h'.nodes.trans h.nodes, h'.slot.trans h.slot⟩

end Tables

open Tables

variable {s t : Tables host}

/-! ## Statements -/

@[simp] theorem check_ok {c : Bool} {text : String} :
    (check c text : Method host Unit) s = (.ok (), t) ↔ c = true ∧ s = t := by
  simp [check]

theorem sessionDocument_ok {sessionId : String} (h : sessionDocument sessionId s = (.ok (), t)) :
    sessionId ∈ s.sessions ∧ s = t := by
  obtain ⟨_, _, hr, h⟩ := Call.bind_ok.mp h
  obtain ⟨rfl, rfl⟩ := Call.read_ok.mp hr
  simpa using h

theorem touchSession_ok {sessionId : String} (h : touchSession sessionId s = (.ok (), t)) : s = t :=
  (sessionDocument_ok h).2

theorem putTurn_ok {node : ValidTurn host} (h : putTurn node s = (.ok (), t)) :
    t = { s with nodes := s.nodes.insert node.val.key (.turn node) } :=
  (congrArg Prod.snd h).symm

theorem slot_insert (s : Tables host) (key : String × String) (row : RuntimeThread) :
    Tables.slot { s with threads := s.threads.insert key row } =
      Function.update s.slot key row.runningTurnId := by
  funext k
  by_cases hk : k = key
  · subst hk; simp [Tables.slot]
  · simp [Tables.slot, AList.lookup_insert_ne hk, Function.update_of_ne hk]

theorem ensureRuntimeThreadRecord_ok {sessionId threadId : String} {kind : ThreadOrigin}
    (h : ensureRuntimeThreadRecord sessionId threadId kind s = (.ok (), t)) : Same s t := by
  have ht := Call.write_ok.mp h
  split at ht
  · subst ht; exact .refl s
  · next hmem =>
    subst ht
    refine ⟨rfl, rfl, ?_⟩
    rw [slot_insert]
    have hnone : s.slot (sessionId, threadId) = none := by
      rw [Tables.slot, AList.lookup_eq_none.mpr hmem]; rfl
    rw [← hnone]
    exact Function.update_eq_self _ _

theorem insertThreadNode_ok {sessionId threadId : String} {row : ThreadNode}
    (h : insertThreadNode sessionId threadId row s = (.ok (), t)) : Same s t := by
  obtain ⟨_, _, hr, h⟩ := Call.bind_ok.mp h
  obtain ⟨rfl, rfl⟩ := Call.read_ok.mp hr
  obtain ⟨_, _, hc, h⟩ := Call.bind_ok.mp h
  obtain ⟨-, rfl⟩ := check_ok.mp hc
  have ht := Call.write_ok.mp h
  subst ht
  exact ⟨rfl, rfl, rfl⟩

theorem ensureAgentTreeRootRecord_ok {sessionId threadId : String}
    (h : ensureAgentTreeRootRecord sessionId threadId s = (.ok (), t)) : Same s t := by
  obtain ⟨_, _, hr, h⟩ := Call.bind_ok.mp h
  obtain ⟨rfl, rfl⟩ := Call.read_ok.mp hr
  obtain ⟨_, _, hc, h⟩ := Call.bind_ok.mp h
  obtain ⟨-, rfl⟩ := check_ok.mp hc
  rcases hrow : s.threadNodes.lookup (sessionId, threadId) with _ | row
  · simp only [id_eq, hrow] at h
    exact insertThreadNode_ok h
  · simp only [id_eq, hrow] at h
    obtain ⟨-, rfl⟩ := check_ok.mp h
    exact .refl s

theorem insertReport_ok {sessionId turnId agentThreadId : String} {recipient : Option String}
    (h : insertReport sessionId turnId agentThreadId recipient s = (.ok (), t)) : Same s t := by
  unfold insertReport at h
  split at h
  · split at h
    · obtain ⟨-, rfl⟩ := Call.pure_ok.mp h; exact .refl s
    · obtain ⟨_, _, hc, h⟩ := Call.bind_ok.mp h
      obtain ⟨-, rfl⟩ := check_ok.mp hc
      obtain ⟨_, _, hr, h⟩ := Call.bind_ok.mp h
      obtain ⟨rfl, rfl⟩ := Call.read_ok.mp hr
      obtain ⟨_, _, hc, h⟩ := Call.bind_ok.mp h
      obtain ⟨-, rfl⟩ := check_ok.mp hc
      have ht := Call.write_ok.mp h
      split at ht <;> subst ht
      · exact .refl s
      · exact ⟨rfl, rfl, rfl⟩
  · obtain ⟨-, rfl⟩ := Call.pure_ok.mp h; exact .refl s

theorem claimThreadTurn_ok {sessionId threadId turnId : String}
    (h : claimThreadTurn sessionId threadId turnId s = (.ok (), t)) :
    (s.slot (sessionId, threadId) = none ∨ s.slot (sessionId, threadId) = some turnId) ∧
      t.sessions = s.sessions ∧ t.nodes = s.nodes ∧
      t.slot = Function.update s.slot (sessionId, threadId) (some turnId) := by
  obtain ⟨_, _, hr, h⟩ := Call.bind_ok.mp h
  obtain ⟨rfl, rfl⟩ := Call.read_ok.mp hr
  rcases hrow : s.threads.lookup (sessionId, threadId) with _ | row
  · simp [hrow] at h
  · simp only [id_eq, hrow] at h
    split at h
    · next hfree =>
      have ht : _ = t := Call.write_ok.mp h
      subst ht
      refine ⟨?_, rfl, rfl, slot_insert _ _ _⟩
      rw [Tables.slot, hrow]
      exact hfree
    · simp at h

theorem setThreadHead_ok {sessionId threadId turnId : String} {clear : Bool}
    (h : setThreadHead sessionId threadId turnId clear s = (.ok (), t)) :
    t.sessions = s.sessions ∧ t.nodes = s.nodes ∧
    t.slot = Function.update s.slot (sessionId, threadId)
      (if clear ∧ s.slot (sessionId, threadId) = some turnId then none
        else s.slot (sessionId, threadId)) := by
  obtain ⟨_, _, hr, h⟩ := Call.bind_ok.mp h
  obtain ⟨rfl, rfl⟩ := Call.read_ok.mp hr
  rcases hrow : s.threads.lookup (sessionId, threadId) with _ | row
  · simp [hrow] at h
  · simp only [id_eq, hrow] at h
    have ht : _ = t := Call.write_ok.mp h
    subst ht
    refine ⟨rfl, rfl, (slot_insert _ _ _).trans ?_⟩
    rw [Tables.slot, hrow]
    rfl

/-! ## Stored Turns -/

/-- The Turn is stored, and its Thread, which was free for it, runs it. -/
structure Claimed (s t : Tables host) (node : ValidTurn host) : Prop where
  free : s.slot (node.val.sessionId, node.val.threadId) = none ∨
    s.slot (node.val.sessionId, node.val.threadId) = some node.val.id
  sessions : t.sessions = s.sessions
  nodes : t.nodes = s.nodes.insert node.val.key (.turn node)
  slot : t.slot = Function.update s.slot (node.val.sessionId, node.val.threadId) (some node.val.id)

/-- The Turn is stored, and its Thread no longer runs it. -/
structure Released (s t : Tables host) (node : ValidTurn host) : Prop where
  sessions : t.sessions = s.sessions
  nodes : t.nodes = s.nodes.insert node.val.key (.turn node)
  slot : t.slot = Function.update s.slot (node.val.sessionId, node.val.threadId)
    (if s.slot (node.val.sessionId, node.val.threadId) = some node.val.id then none
      else s.slot (node.val.sessionId, node.val.threadId))

/-- The Turn is stored, and the Threads run what they ran. -/
structure Kept (s t : Tables host) (node : ValidTurn host) : Prop where
  sessions : t.sessions = s.sessions
  nodes : t.nodes = s.nodes.insert node.val.key (.turn node)
  slot : t.slot = s.slot

variable {u v : Tables host} {node : ValidTurn host}

theorem Claimed.of_same (h : Same s u) (hc : Claimed u t node) : Claimed s t node :=
  ⟨by rw [← h.slot]; exact hc.free, hc.sessions.trans h.sessions, by rw [← h.nodes]; exact hc.nodes,
    by rw [← h.slot]; exact hc.slot⟩

/-- A Turn is written into the Thread it has claimed. -/
theorem claimed_of_put
    (hc : claimThreadTurn node.val.sessionId node.val.threadId node.val.id s = (.ok (), u))
    (hp : putTurn node u = (.ok (), t)) : Claimed s t node := by
  obtain ⟨hfree, hsessions, hnodes, hslot⟩ := claimThreadTurn_ok hc
  obtain rfl := putTurn_ok hp
  exact ⟨hfree, hsessions, by simp [hnodes], hslot⟩

/-- A Turn is written and becomes the head of its Thread. -/
theorem released_of_put (hp : putTurn node s = (.ok (), u))
    (hh : setThreadHead node.val.sessionId node.val.threadId node.val.id true u = (.ok (), t)) :
    Released s t node := by
  obtain rfl := putTurn_ok hp
  obtain ⟨hsessions, hnodes, hslot⟩ := setThreadHead_ok hh
  refine ⟨hsessions, hnodes, hslot.trans ?_⟩
  simp only [true_and]
  rfl

theorem kept_of_put (hp : putTurn node s = (.ok (), u))
    (hh : setThreadHead node.val.sessionId node.val.threadId node.val.id false u = (.ok (), t)) :
    Kept s t node := by
  obtain rfl := putTurn_ok hp
  obtain ⟨hsessions, hnodes, hslot⟩ := setThreadHead_ok hh
  refine ⟨hsessions, hnodes, hslot.trans ?_⟩
  simp only [Bool.false_eq_true, false_and, if_false, Function.update_eq_self]
  rfl

/-- The record of a root is made under a condition. -/
theorem rootRecord_ok {c : Prop} [Decidable c] {sessionId threadId : String}
    {f : Unit → Method host Unit}
    (h : (if c then ensureAgentTreeRootRecord sessionId threadId >>= f else f ()) s = (.ok (), t)) :
    ∃ u, Same s u ∧ f () u = (.ok (), t) := by
  split at h
  · obtain ⟨_, u, hr, h⟩ := Call.bind_ok.mp h
    exact ⟨u, ensureAgentTreeRootRecord_ok hr, h⟩
  · exact ⟨s, .refl s, h⟩

/-! ## Creations -/

/-- The parent of a Turn is stored in the Session of the Turn. -/
structure Parented (s : Tables host) (node : RuntimeState) : Prop where
  parentId : node.parentId ≠ ""
  session : node.parentSessionId = node.sessionId
  parent : ∃ parent, s.nodes.lookup (node.sessionId, node.parentId) = some parent ∧
    node.parentThreadId = parent.threadId

theorem createNodeRead_ok {parentThreadId : String}
    (h : createNodeRead node s = (.ok parentThreadId, t)) :
    node.val.status = .running ∧ Parented s node.val ∧ s = t := by
  obtain ⟨_, _, hc, h⟩ := Call.bind_ok.mp h
  obtain ⟨hstatus, rfl⟩ := check_ok.mp hc
  obtain ⟨_, _, hc, h⟩ := Call.bind_ok.mp h
  obtain ⟨hid, rfl⟩ := check_ok.mp hc
  obtain ⟨_, _, hr, h⟩ := Call.bind_ok.mp h
  obtain ⟨hfound, rfl⟩ := Call.read_ok.mp hr
  rw [← hfound] at h
  rcases hp : s.nodes.lookup (node.val.parentSessionId, node.val.parentId) with _ | parent
  · simp [hp] at h
  · simp only [hp] at h
    obtain ⟨_, _, hc, h⟩ := Call.bind_ok.mp h
    obtain ⟨hsession, rfl⟩ := check_ok.mp hc
    obtain ⟨_, _, hc, h⟩ := Call.bind_ok.mp h
    obtain ⟨hthread, rfl⟩ := check_ok.mp hc
    obtain ⟨-, rfl⟩ := Call.pure_ok.mp h
    have hsession := of_decide_eq_true hsession
    exact ⟨of_decide_eq_true hstatus, ⟨of_decide_eq_true hid, hsession,
      ⟨parent, by rw [← hsession]; exact hp, of_decide_eq_true hthread⟩⟩, rfl⟩

theorem createNodeWrite_ok {parentThreadId : String}
    (h : createNodeWrite node parentThreadId s = (.ok (), t)) :
    node.val.sessionId ∈ s.sessions ∧ Claimed s t node := by
  obtain ⟨_, _, hd, h⟩ := Call.bind_ok.mp (Call.transaction_ok.mp h)
  obtain ⟨hsession, rfl⟩ := sessionDocument_ok hd
  obtain ⟨_, u, he, h⟩ := Call.bind_ok.mp h
  have hsame := ensureRuntimeThreadRecord_ok he
  obtain ⟨v, hsame', h⟩ := rootRecord_ok h
  obtain ⟨_, _, hclaim, h⟩ := Call.bind_ok.mp h
  obtain ⟨_, _, hput, h⟩ := Call.bind_ok.mp h
  obtain rfl := touchSession_ok h
  exact ⟨hsession, (claimed_of_put hclaim hput).of_same (hsame.trans hsame')⟩

theorem createNode_ok (h : createNode node s = (.ok (), t)) :
    node.val.status = .running ∧ Parented s node.val ∧ node.val.sessionId ∈ s.sessions ∧
      Claimed s t node := by
  obtain ⟨_, _, hr, h⟩ := Call.bind_ok.mp h
  obtain ⟨hstatus, hparent, rfl⟩ := createNodeRead_ok hr
  exact ⟨hstatus, hparent, createNodeWrite_ok h⟩

/-- A batch of sealed Turns is stored one by one, each under an id that was free. -/
inductive Batch : Tables host → List (ValidTurn host) → Tables host → Prop where
  | nil {s t : Tables host} (h : Same s t) : Batch s [] t
  | cons {s u t : Tables host} {node : ValidTurn host} {nodes : List (ValidTurn host)}
      (hsealed : NodeStatus.sealed node.val.status = true)
      (hfree : s.nodes.lookup node.val.key = none)
      (hparent : Parented s node.val) (hput : Released s u node) (rest : Batch u nodes t) :
      Batch s (node :: nodes) t

theorem Released.of_same (h : Same s u) (hr : Released u t node) : Released s t node :=
  ⟨hr.sessions.trans h.sessions, by rw [← h.nodes]; exact hr.nodes, by rw [← h.slot]; exact hr.slot⟩

theorem writeFinalized_ok (h : writeFinalized node s = (.ok (), t)) : Released s t node := by
  obtain ⟨_, u, he, h⟩ := Call.bind_ok.mp h
  have hsame := ensureRuntimeThreadRecord_ok he
  obtain ⟨v, hsame', h⟩ := rootRecord_ok h
  obtain ⟨_, _, hput, h⟩ := Call.bind_ok.mp h
  exact (released_of_put hput h).of_same (hsame.trans hsame')

theorem stageNodes_cons {sessionId : String} {staged : String × String → Option (Node host)}
    {nodes : List (ValidTurn host)} (h : stageNodes sessionId staged (node :: nodes) = .ok ()) :
    NodeStatus.sealed node.val.status = true ∧ staged node.val.key = none ∧ node.val.parentId ≠ "" ∧
      node.val.parentSessionId = sessionId ∧
      (∃ parent, staged (sessionId, node.val.parentId) = some parent ∧
        node.val.parentThreadId = parent.threadId) ∧
      stageNodes sessionId (Function.update staged node.val.key (some (.turn node))) nodes =
        .ok () := by
  simp only [stageNodes, bind_ok, exists_unit, require_ok, Option.isNone_iff_eq_none,
    bne_iff_ne] at h
  obtain ⟨hsealed, hfree, hid, h⟩ := h
  split at h
  · cases h
  · next parent hparent =>
    simp only [bind_ok, exists_unit, require_ok, beq_iff_eq] at h
    obtain ⟨hsession, hthread, h⟩ := h
    rw [hsession] at hparent
    exact ⟨hsealed, hfree, hid, hsession, ⟨parent, hparent, hthread⟩, h⟩

theorem writeAll_batch {sessionId : String} : ∀ {nodes : List (ValidTurn host)} {s t : Tables host}
    {staged : String × String → Option (Node host)},
    (∀ node ∈ nodes, node.val.sessionId = sessionId) →
    (∀ id, staged (sessionId, id) = s.nodes.lookup (sessionId, id)) →
    stageNodes sessionId staged nodes = .ok () → writeAll nodes s = (.ok (), t) → Batch s nodes t
  | [], s, t, staged, _, _, _, h => by
    obtain ⟨-, rfl⟩ := Call.pure_ok.mp h
    exact .nil (.refl s)
  | node :: nodes, s, t, staged, hall, hst, hstage, h => by
    obtain ⟨_, u, hw, h⟩ := Call.bind_ok.mp h
    have hput := writeFinalized_ok hw
    have hsession := hall node List.mem_cons_self
    have hkey : node.val.key = (sessionId, node.val.id) := by rw [RuntimeState.key, hsession]
    obtain ⟨hsealed, hfree, hid, hparent, ⟨parent, hfound, hthread⟩, hstage⟩ :=
      stageNodes_cons hstage
    have hfree' : s.nodes.lookup node.val.key = none := by rw [hkey, ← hst, ← hkey]; exact hfree
    refine .cons hsealed hfree' ⟨hid, hparent.trans hsession.symm, parent, ?_, hthread⟩ hput
      (writeAll_batch (fun n hn => hall n (List.mem_cons_of_mem _ hn)) ?_ hstage h)
    · rw [hsession, ← hst]; exact hfound
    · intro id
      rw [hput.nodes, hkey]
      by_cases hk : id = node.val.id
      · subst hk
        rw [Function.update_self, AList.lookup_insert]
      · have hne : (sessionId, id) ≠ (sessionId, node.val.id) := by simpa using hk
        rw [Function.update_of_ne hne, AList.lookup_insert_ne hne, hst]

theorem createFinalizedNodes_ok {nodes : List (ValidTurn host)}
    (h : createFinalizedNodes nodes s = (.ok (), t)) : Batch s nodes t := by
  unfold createFinalizedNodes at h
  split at h
  · obtain ⟨-, rfl⟩ := Call.pure_ok.mp h
    exact .nil (.refl s)
  · next first rest =>
    obtain ⟨_, _, hc, h⟩ := Call.bind_ok.mp h
    obtain ⟨hall, rfl⟩ := check_ok.mp hc
    obtain ⟨_, _, hd, h⟩ := Call.bind_ok.mp (Call.transaction_ok.mp h)
    obtain ⟨-, rfl⟩ := sessionDocument_ok hd
    obtain ⟨_, _, hr, h⟩ := Call.bind_ok.mp h
    obtain ⟨rfl, rfl⟩ := Call.read_ok.mp hr
    obtain ⟨_, _, hs, h⟩ := Call.bind_ok.mp h
    obtain ⟨hstage, rfl⟩ := Call.ofExcept_ok.mp hs
    obtain ⟨_, _, hw, h⟩ := Call.bind_ok.mp h
    obtain rfl := touchSession_ok h
    refine writeAll_batch ?_ ?_ hstage hw
    · intro node hnode
      exact of_decide_eq_true (List.all_eq_true.mp hall node hnode)
    · intro id
      simp

theorem agentTurn_ok {sessionId : String} {item : AgentThreadCreate host}
    (h : agentTurn sessionId item s = (.ok node, t)) :
    item.turn = some node ∧ node.val.sessionId = sessionId ∧ node.val.threadId = item.nodeThreadId ∧
      item.current = some node.val.id ∧ item.running = some node.val.id ∧ s = t := by
  unfold agentTurn at h
  rcases hturn : item.turn with _ | turn
  · simp [hturn] at h
  · simp only [hturn] at h
    split at h
    · next hmatch =>
      obtain ⟨rfl, rfl⟩ := Call.pure_ok.mp h
      exact ⟨rfl, hmatch.1, hmatch.2.1, hmatch.2.2.1, hmatch.2.2.2, rfl⟩
    · simp at h

theorem createAgentThread_ok {sessionId : String} {item : AgentThreadCreate host}
    (h : createAgentThread sessionId item s = (.ok (), t)) :
    ∃ turn, item.turn = some turn ∧ turn.val.parentSessionId = turn.val.sessionId ∧
      s.slot (turn.val.sessionId, turn.val.threadId) = none ∧ Claimed s t turn := by
  obtain ⟨_, _, hc, h⟩ := Call.bind_ok.mp h
  obtain ⟨-, rfl⟩ := check_ok.mp hc
  obtain ⟨_, _, hd, h⟩ := Call.bind_ok.mp (Call.transaction_ok.mp h)
  obtain ⟨-, rfl⟩ := sessionDocument_ok hd
  obtain ⟨_, _, hc, h⟩ := Call.bind_ok.mp h
  obtain ⟨hids, rfl⟩ := check_ok.mp hc
  obtain ⟨turn, _, ha, h⟩ := Call.bind_ok.mp h
  obtain ⟨hturn, hsession, hthread, -, hrunning, rfl⟩ := agentTurn_ok ha
  obtain ⟨_, _, hr, h⟩ := Call.bind_ok.mp h
  obtain ⟨rfl, rfl⟩ := Call.read_ok.mp hr
  obtain ⟨_, _, hc, h⟩ := Call.bind_ok.mp h
  obtain ⟨-, rfl⟩ := check_ok.mp hc
  obtain ⟨_, _, hc, h⟩ := Call.bind_ok.mp h
  obtain ⟨hparent, rfl⟩ := check_ok.mp hc
  obtain ⟨_, _, hc, h⟩ := Call.bind_ok.mp h
  obtain ⟨hnew, rfl⟩ := check_ok.mp hc
  obtain ⟨_, u, hset, h⟩ := Call.bind_ok.mp h
  obtain rfl := Call.write_ok.mp hset
  obtain ⟨_, v, hinsert, h⟩ := Call.bind_ok.mp h
  have hsame := insertThreadNode_ok hinsert
  obtain ⟨_, w, hput, h⟩ := Call.bind_ok.mp h
  obtain rfl := putTurn_ok hput
  obtain ⟨_, x, hreport, h⟩ := Call.bind_ok.mp h
  have hsame' := insertReport_ok hreport
  obtain rfl := touchSession_ok h
  have hkey : (sessionId, item.runtimeThreadId) = (turn.val.sessionId, turn.val.threadId) := by
    rw [(of_decide_eq_true hids).1, hsession, hthread]
  have hslot : s.slot (turn.val.sessionId, turn.val.threadId) = none := by
    rw [← hkey, Tables.slot, AList.lookup_eq_none.mpr (of_decide_eq_true hnew)]
    rfl
  refine ⟨turn, hturn, (of_decide_eq_true hparent).1.trans hsession.symm,
    hslot, .inl hslot, ?_, ?_, ?_⟩
  · exact hsame'.sessions.trans hsame.sessions
  · rw [hsame'.nodes, hsame.nodes]
  · rw [hsame'.slot, ← hkey, ← hrunning]
    exact hsame.slot.trans (slot_insert s _ _)

theorem claimIdle_ok {sessionId threadId turnId head : String}
    (h : claimIdle sessionId threadId turnId head s = (.ok (), t)) :
    s.slot (sessionId, threadId) = none ∧ t.sessions = s.sessions ∧ t.nodes = s.nodes ∧
      t.slot = Function.update s.slot (sessionId, threadId) (some turnId) := by
  obtain ⟨_, _, hr, h⟩ := Call.bind_ok.mp h
  obtain ⟨rfl, rfl⟩ := Call.read_ok.mp hr
  rcases hrow : s.threads.lookup (sessionId, threadId) with _ | row
  · simp [hrow] at h
  · simp only [hrow] at h
    split at h
    · next hidle =>
      obtain rfl := Call.write_ok.mp h
      refine ⟨?_, rfl, rfl, slot_insert _ _ _⟩
      rw [Tables.slot, hrow]
      exact hidle.2
    · simp at h

theorem createThreadTurnIfIdle_ok {head : String} {recipient : Option String}
    (h : createThreadTurnIfIdle node head recipient s = (.ok (), t)) :
    node.val.status = .running ∧ s.slot (node.val.sessionId, node.val.threadId) = none ∧
    Claimed s t node := by
  obtain ⟨_, _, hc, h⟩ := Call.bind_ok.mp h
  obtain ⟨hstatus, rfl⟩ := check_ok.mp hc
  obtain ⟨_, _, hr, h⟩ := Call.bind_ok.mp (Call.transaction_ok.mp h)
  obtain ⟨rfl, rfl⟩ := Call.read_ok.mp hr
  obtain ⟨_, _, hc, h⟩ := Call.bind_ok.mp h
  obtain ⟨-, rfl⟩ := Call.ofExcept_ok.mp hc
  obtain ⟨_, u, hclaim, h⟩ := Call.bind_ok.mp h
  obtain ⟨hidle, hsessions, hnodes, hslot⟩ := claimIdle_ok hclaim
  obtain ⟨_, _, hc, h⟩ := Call.bind_ok.mp h
  obtain ⟨-, rfl⟩ := check_ok.mp hc
  obtain ⟨_, v, hput, h⟩ := Call.bind_ok.mp h
  obtain rfl := putTurn_ok hput
  obtain ⟨_, w, hreport, h⟩ := Call.bind_ok.mp h
  have hsame := insertReport_ok hreport
  obtain rfl := touchSession_ok h
  exact ⟨(of_decide_eq_true hstatus).1, hidle, .inl hidle, hsame.sessions.trans hsessions,
    by rw [hsame.nodes, ← hnodes], hsame.slot.trans hslot⟩

theorem ensureRootNode_ok {sessionId id : String} {root : Node host}
    (h : ensureRootNode sessionId id s = (.ok root, t)) :
    s = t ∨ (s.loadNodes sessionId = [] ∧ id ≠ "" ∧
      t = { s with nodes := s.nodes.insert (sessionId, id) (.root sessionId id) }) := by
  obtain ⟨_, _, hd, h⟩ := Call.bind_ok.mp (Call.transaction_ok.mp h)
  obtain ⟨-, rfl⟩ := sessionDocument_ok hd
  obtain ⟨_, _, hr, h⟩ := Call.bind_ok.mp h
  obtain ⟨rfl, rfl⟩ := Call.read_ok.mp hr
  rcases hroots : (s.loadNodes sessionId).filter Node.isRoot with _ | ⟨first, _ | ⟨second, rest⟩⟩
  · simp only [hroots] at h
    obtain ⟨_, _, hc, h⟩ := Call.bind_ok.mp h
    obtain ⟨hempty, rfl⟩ := Call.ofExcept_ok.mp hc
    obtain ⟨_, _, hc, h⟩ := Call.bind_ok.mp h
    obtain ⟨hid, rfl⟩ := Call.ofExcept_ok.mp hc
    obtain ⟨_, _, hput, h⟩ := Call.bind_ok.mp h
    have hput : _ = _ := Call.write_ok.mp hput
    obtain ⟨_, _, htouch, h⟩ := Call.bind_ok.mp h
    obtain rfl := touchSession_ok htouch
    obtain ⟨-, rfl⟩ := Call.pure_ok.mp h
    exact .inr ⟨List.isEmpty_iff.mp (require_ok.mp hempty), bne_iff_ne.mp (require_ok.mp hid),
      hput.symm⟩
  · simp only [hroots] at h
    exact .inl (Call.pure_ok.mp h).2
  · simp [hroots] at h

/-! ## Updates -/

/-- Every node is stored under its own key. -/
def Named (s : Tables host) : Prop := ∀ key node, s.nodes.lookup key = some node → node.key = key

/-- The Turn is stored as it is. -/
def Stored (s : Tables host) (old : ValidTurn host) : Prop :=
  s.nodes.lookup old.val.key = some (.turn old)

theorem findNode_ok {turnId : String} {found : Node host}
    (h : findNode turnId s = (.ok (some found), t)) :
    ∃ sessionId ∈ s.sessions, s.nodes.lookup (sessionId, turnId) = some found ∧ s = t := by
  obtain ⟨_, _, hr, h⟩ := Call.bind_ok.mp h
  obtain ⟨rfl, rfl⟩ := Call.read_ok.mp hr
  rcases hfound : s.sessions.filterMap fun sessionId => s.nodes.lookup (sessionId, turnId) with
    _ | ⟨node, _ | ⟨second, rest⟩⟩
  · simp [hfound] at h
  · simp only [id_eq, hfound] at h
    obtain ⟨hnode, rfl⟩ := Call.pure_ok.mp h
    cases hnode
    have hmem : found ∈ s.sessions.filterMap fun sessionId =>
        s.nodes.lookup (sessionId, turnId) := by
      rw [hfound]; exact List.mem_singleton_self _
    obtain ⟨sessionId, hsession, hlookup⟩ := List.mem_filterMap.mp hmem
    exact ⟨sessionId, hsession, hlookup, rfl⟩
  · simp [hfound] at h

/-- A Turn that is found is stored under the id that was asked for. -/
theorem findTurn_ok {turnId : String} (hn : Named s) (h : findTurn turnId s = (.ok node, t)) :
    Stored s node ∧ node.val.id = turnId ∧ node.val.sessionId ∈ s.sessions ∧ s = t := by
  obtain ⟨found, u, hf, h⟩ := Call.bind_ok.mp h
  rcases found with _ | found
  · simp [requireRuntimeTurn] at h
  · obtain ⟨sessionId, hsession, hlookup, rfl⟩ := findNode_ok hf
    rcases found with ⟨_, _⟩ | turn
    · simp [requireRuntimeTurn] at h
    · obtain ⟨rfl, rfl⟩ := Call.pure_ok.mp h
      have hkey : turn.val.key = (sessionId, turnId) := hn _ _ hlookup
      have hid : turn.val.id = turnId := congrArg Prod.snd hkey
      have hs : turn.val.sessionId = sessionId := congrArg Prod.fst hkey
      refine ⟨?_, hid, by rw [hs]; exact hsession, rfl⟩
      rw [Stored, hkey]
      exact hlookup

/-- `RuntimeState.from_dict(...)` of a Turn that was changed: the constructor only normalises its
data. -/
theorem rebuild_ok {raw : RuntimeState} (h : rebuild host raw = .ok node) (old : ValidTurn host)
    (hid : raw.compactionId ≠ "") (hcwd : raw.cwd = old.val.cwd)
    (hproj : raw.projectCwd = old.val.projectCwd) (hmodel : raw.model = old.val.model) :
    node.val = { raw with data := node.val.data } := by
  unfold rebuild at h
  split at h
  · next hclone =>
    cases h
    refine RuntimeState.fromDict_eq hid ?_ ?_ ?_ hclone
    · rw [hcwd]; exact old.property.cwd
    · rw [hproj]; exact old.property.projectCwd
    · rw [hmodel]; exact old.property.model
  · cases h

/-- `update_node`: the Thread of a sealed Turn is released. -/
theorem updateNode_ok (h : updateNode node s = (.ok (), t)) :
    (s.nodes.lookup node.val.key).isSome ∧ (node.val.status = .running → Kept s t node) ∧
      (node.val.status ≠ .running → Released s t node) := by
  obtain ⟨existing, _, hr, h⟩ := Call.bind_ok.mp (Call.transaction_ok.mp h)
  obtain ⟨rfl, rfl⟩ := Call.read_ok.mp hr
  obtain ⟨_, _, hc, h⟩ := Call.bind_ok.mp h
  obtain ⟨hsome, rfl⟩ := Call.ofExcept_ok.mp hc
  obtain ⟨_, _, hput, h⟩ := Call.bind_ok.mp h
  obtain ⟨_, _, hhead, h⟩ := Call.bind_ok.mp h
  obtain rfl := touchSession_ok h
  refine ⟨require_ok.mp hsome, fun hrunning => ?_, fun hsealed => ?_⟩
  · rw [hrunning] at hhead
    exact kept_of_put hput hhead
  · rw [NodeStatus.sealed, bne_iff_ne.mpr hsealed] at hhead
    exact released_of_put hput hhead

theorem finalizeNode_ok (h : finalizeNode node s = (.ok (), t)) :
    (∃ existing, s.nodes.lookup node.val.key = some (.turn existing) ∧
      existing.val.status = .running) ∧
      node.val.status ≠ .running ∧ Released s t node := by
  obtain ⟨existing, _, hr, h⟩ := Call.bind_ok.mp (Call.transaction_ok.mp h)
  obtain ⟨hfound, rfl⟩ := Call.read_ok.mp hr
  rcases existing with _ | existing
  · simp at h
  · obtain ⟨_, _, hc, h⟩ := Call.bind_ok.mp h
    obtain ⟨hrunning, rfl⟩ := check_ok.mp hc
    obtain ⟨_, _, hc, h⟩ := Call.bind_ok.mp h
    obtain ⟨hsealed, rfl⟩ := check_ok.mp hc
    obtain ⟨_, _, hput, h⟩ := Call.bind_ok.mp h
    obtain ⟨_, _, hhead, h⟩ := Call.bind_ok.mp h
    obtain rfl := touchSession_ok h
    have hrunning := of_decide_eq_true hrunning
    rcases existing with ⟨_, _⟩ | existing
    · cases hrunning
    · exact ⟨⟨existing, hfound, Option.some.inj hrunning⟩, bne_iff_ne.mp hsealed,
        released_of_put hput hhead⟩

/-! ### Versions -/

theorem asTurn_ok {found : Node host} (h : asTurn found = .ok node) : found = .turn node := by
  rcases found with ⟨sessionId, id⟩ | turn
  · rw [asTurn] at h
    rcases hd : RuntimeState.fromDict host
      (.obj (Node.root sessionId id : Node host).toDict) with _ | _
    · rw [hd] at h
      simp at h
    · rw [hd] at h
      simp at h
  · rw [asTurn] at h
    cases h
    rfl

theorem appendTurnVersionRead_ok {turnId : String} {item : Fields} {deliveryId : Option String}
    {p : ValidTurn host × Fields × Fields} (hn : Named s)
    (h : appendTurnVersionRead turnId item deliveryId s = (.ok p, t)) :
    Stored s p.1 ∧ p.1.val.id = turnId ∧ p.1.val.sessionId ∈ s.sessions ∧
    p.1.val.status ≠ .running ∧
      rewindMessage item deliveryId = .ok p.2.1 ∧ assistantMessage [] = .ok p.2.2 ∧ s = t := by
  obtain ⟨old, _, hf, h⟩ := Call.bind_ok.mp h
  obtain ⟨hstored, hid, hsession, rfl⟩ := findTurn_ok hn hf
  obtain ⟨_, _, hc, h⟩ := Call.bind_ok.mp h
  obtain ⟨hstatus, rfl⟩ := check_ok.mp hc
  obtain ⟨_, _, hu, h⟩ := Call.bind_ok.mp h
  obtain ⟨huser, rfl⟩ := Call.ofExcept_ok.mp hu
  obtain ⟨_, _, ha, h⟩ := Call.bind_ok.mp h
  obtain ⟨hassistant, rfl⟩ := Call.ofExcept_ok.mp ha
  obtain ⟨rfl, rfl⟩ := Call.pure_ok.mp h
  exact ⟨hstored, hid, hsession, of_decide_eq_true hstatus, huser, hassistant, rfl⟩

theorem appendTurnVersionWrite_ok {now turnId : String} {p : ValidTurn host × Fields × Fields}
    (h : appendTurnVersionWrite now turnId p s = (.ok node, t)) :
    ∃ old : ValidTurn host, s.nodes.lookup p.1.val.key = some (.turn old) ∧
      rebuild host (withVersion old.val p.2.1 p.2.2 now) = .ok node ∧
      node.val = { withVersion old.val p.2.1 p.2.2 now with data := node.val.data } ∧
      Claimed s t node := by
  obtain ⟨current, _, hr, h⟩ := Call.bind_ok.mp (Call.transaction_ok.mp h)
  obtain ⟨hfound, rfl⟩ := Call.read_ok.mp hr
  rcases current with _ | current
  · simp at h
  · obtain ⟨old, _, ha, hrest⟩ := Call.bind_ok.mp h
    obtain ⟨hold, rfl⟩ := Call.ofExcept_ok.mp ha
    obtain rfl := asTurn_ok hold
    obtain ⟨_, u, hclaim, h⟩ := Call.bind_ok.mp hrest
    obtain ⟨new, _, hb, h⟩ := Call.bind_ok.mp h
    obtain ⟨hnew, rfl⟩ := Call.ofExcept_ok.mp hb
    obtain ⟨_, _, hput, h⟩ := Call.bind_ok.mp h
    obtain ⟨_, _, htouch, h⟩ := Call.bind_ok.mp h
    obtain rfl := touchSession_ok htouch
    obtain ⟨rfl, rfl⟩ := Call.pure_ok.mp h
    have hval := rebuild_ok hnew old old.property.compactionId rfl rfl rfl
    refine ⟨old, hfound, hnew, hval, claimed_of_put ?_ hput⟩
    rw [hval]
    exact hclaim

theorem setTurnCurrentDataRead_ok {turnId : String} {i : Int} (hn : Named s)
    (h : setTurnCurrentDataRead turnId i s = (.ok node, t)) :
    ∃ old : ValidTurn host, Stored s old ∧ old.val.id = turnId ∧
      node.val = { old.val with currentDataIdx := i.toNat, data := node.val.data } ∧ s = t := by
  obtain ⟨old, _, hf, h⟩ := Call.bind_ok.mp h
  obtain ⟨hstored, hid, -, rfl⟩ := findTurn_ok hn hf
  obtain ⟨_, _, hc, h⟩ := Call.bind_ok.mp h
  obtain ⟨-, rfl⟩ := Call.ofExcept_ok.mp hc
  obtain ⟨hb, rfl⟩ := Call.ofExcept_ok.mp h
  exact ⟨old, hstored, hid, rebuild_ok hb old old.property.compactionId rfl rfl rfl, rfl⟩

/-! ### Pauses -/

theorem pauseTurnRead_ok {turnId : String} (hn : Named s)
    (h : pauseTurnRead turnId s = (.ok node, t)) :
    ∃ old : ValidTurn host, Stored s old ∧ old.val.id = turnId ∧ old.val.sessionId ∈ s.sessions ∧
      old.val.status = .running ∧
      node.val = { old.val with data := node.val.data, status := .paused } ∧ s = t := by
  obtain ⟨old, _, hf, h⟩ := Call.bind_ok.mp h
  obtain ⟨hstored, hid, hsession, rfl⟩ := findTurn_ok hn hf
  obtain ⟨_, _, hc, h⟩ := Call.bind_ok.mp h
  obtain ⟨hstatus, rfl⟩ := check_ok.mp hc
  obtain ⟨hb, rfl⟩ := Call.ofExcept_ok.mp h
  exact ⟨old, hstored, hid, hsession, of_decide_eq_true hstatus,
    rebuild_ok hb old old.property.compactionId rfl rfl rfl, rfl⟩

theorem resumeTurnNodeRead_ok {turnId : String} (hn : Named s)
    (h : resumeTurnNodeRead turnId s = (.ok node, t)) :
    Stored s node ∧ node.val.id = turnId ∧ node.val.status = .paused ∧ s = t := by
  obtain ⟨old, _, hf, h⟩ := Call.bind_ok.mp h
  obtain ⟨hstored, hid, -, rfl⟩ := findTurn_ok hn hf
  obtain ⟨_, _, hc, h⟩ := Call.bind_ok.mp h
  obtain ⟨hstatus, rfl⟩ := check_ok.mp hc
  obtain ⟨rfl, rfl⟩ := Call.pure_ok.mp h
  exact ⟨hstored, hid, of_decide_eq_true hstatus, rfl⟩

theorem resumeTurnNodeWrite_ok {old : ValidTurn host}
    (h : resumeTurnNodeWrite old s = (.ok node, t)) :
    rebuild host (resumed old.val) = .ok node ∧
    node.val = { resumed old.val with data := node.val.data } ∧
      Claimed s t node := by
  obtain ⟨_, u, hclaim, h⟩ := Call.bind_ok.mp (Call.transaction_ok.mp h)
  obtain ⟨new, _, hb, h⟩ := Call.bind_ok.mp h
  obtain ⟨hnew, rfl⟩ := Call.ofExcept_ok.mp hb
  obtain ⟨_, _, hput, h⟩ := Call.bind_ok.mp h
  obtain ⟨_, _, htouch, h⟩ := Call.bind_ok.mp h
  obtain rfl := touchSession_ok htouch
  obtain ⟨rfl, rfl⟩ := Call.pure_ok.mp h
  have hval := rebuild_ok hnew old old.property.compactionId rfl rfl rfl
  refine ⟨hnew, hval, claimed_of_put ?_ hput⟩
  rw [hval]
  exact hclaim

theorem completePausedTurnRead_ok {now turnId : String} (hn : Named s)
    (h : completePausedTurnRead now turnId s = (.ok node, t)) :
    ∃ old : ValidTurn host, Stored s old ∧ old.val.id = turnId ∧ old.val.status = .paused ∧
      node.val = { completed old.val now with data := node.val.data } ∧ s = t := by
  obtain ⟨old, _, hf, h⟩ := Call.bind_ok.mp h
  obtain ⟨hstored, hid, -, rfl⟩ := findTurn_ok hn hf
  obtain ⟨_, _, hc, h⟩ := Call.bind_ok.mp h
  obtain ⟨hstatus, rfl⟩ := check_ok.mp hc
  obtain ⟨hb, rfl⟩ := Call.ofExcept_ok.mp h
  exact ⟨old, hstored, hid, of_decide_eq_true hstatus,
    rebuild_ok hb old old.property.compactionId rfl rfl rfl, rfl⟩

theorem completePausedTurnWrite_ok {new : ValidTurn host}
    (h : completePausedTurnWrite new s = (.ok node, t)) : new = node ∧ Released s t node := by
  obtain ⟨current, _, hr, h⟩ := Call.bind_ok.mp (Call.transaction_ok.mp h)
  obtain ⟨-, rfl⟩ := Call.read_ok.mp hr
  obtain ⟨_, _, hc, h⟩ := Call.bind_ok.mp h
  obtain ⟨-, rfl⟩ := check_ok.mp hc
  obtain ⟨_, _, hput, h⟩ := Call.bind_ok.mp h
  obtain ⟨_, _, hhead, h⟩ := Call.bind_ok.mp h
  obtain ⟨_, _, htouch, h⟩ := Call.bind_ok.mp h
  obtain rfl := touchSession_ok htouch
  obtain ⟨rfl, rfl⟩ := Call.pure_ok.mp h
  exact ⟨rfl, released_of_put hput hhead⟩

/-! ## Copies -/

/-- A Turn that `create` has built carries the ids of its arguments. -/
theorem create_ok {parent : Node host} {a : CreateArgs} (h : create host parent a = .ok node) :
    node.val.key = (a.sessionId, a.id) ∧ node.val.threadId = a.threadId ∧
    node.val.status = a.status ∧
      node.val.parentThreadId = parent.threadId ∧ (node.val.parentSessionId, node.val.parentId) =
        parent.key ∧
      node.val.compactionId = (parent.turn?.map RuntimeState.compactionId).getD a.id ∧
      validateData a.data = .ok node.val.data := by
  unfold create at h
  dsimp only at h
  split at h
  · next new hnew =>
    cases h
    simp only [postInit, bind_ok, exists_unit, pure_ok, require_ok, whenever_ok,
      checkTimestamp_ok] at hnew
    obtain ⟨hids, -, status, hstatus, _, -, _, -, -, _, -, -, _, -, _, -,
        _, -, _, -, _, hdata, _, -, -, -, -,
      rfl⟩ := hnew
    have e := (enumOf_text (NodeStatus.ofText_text a.status)).symm.trans hstatus
    cases e
    refine ⟨rfl, rfl, rfl, rfl, rfl, ?_, hdata⟩
    simp only
    split
    · next hnone =>
      rcases parent with ⟨_, _⟩ | parent
      · rfl
      · exact absurd hnone parent.property.compactionId
    · rfl
  · cases h

namespace RuntimeStateTree

variable {tree : RuntimeStateTree host} {source : ValidTurn host}

/-- A compaction continues its source as its own anchor. -/
theorem compact_ok {summary id timestamp : String}
    (h : tree.compact source summary id timestamp = .ok node) :
    node.val.key = (source.val.sessionId, id) ∧ node.val.threadId = source.val.threadId ∧
      node.val.parentThreadId = source.val.threadId ∧
      (node.val.parentSessionId, node.val.parentId) = source.val.key ∧
      node.val.compactionId = node.val.id := by
  obtain ⟨path, -, h⟩ := bind_ok.mp h
  split at h
  · cases h
  · obtain ⟨assistant, -, h⟩ := bind_ok.mp h
    obtain ⟨new, hnew, h⟩ := bind_ok.mp h
    obtain rfl := pure_ok.mp h
    obtain ⟨hkey, hthread, -, hparentThread, hparent, -, -⟩ := create_ok hnew
    exact ⟨hkey, hthread, hparentThread, hparent, rfl⟩

end RuntimeStateTree

theorem createCompactTurn_ok {now turnId summary newTurnId : String} (hn : Named s)
    (h : createCompactTurn now turnId summary newTurnId s = (.ok node, t)) :
    ∃ source, Stored s source ∧ source.val.id = turnId ∧
      (∃ tree, RuntimeStateTree.ofNodes (s.loadNodes source.val.sessionId) = .ok tree ∧
        tree.compact source summary newTurnId now = .ok node) ∧
        createNode node s = (.ok (), t) := by
  obtain ⟨source, _, hf, h⟩ := Call.bind_ok.mp h
  obtain ⟨hstored, hid, -, rfl⟩ := findTurn_ok hn hf
  obtain ⟨_, _, hc, h⟩ := Call.bind_ok.mp h
  obtain ⟨-, rfl⟩ := check_ok.mp hc
  obtain ⟨_, _, hr, h⟩ := Call.bind_ok.mp h
  obtain ⟨rfl, rfl⟩ := Call.read_ok.mp hr
  obtain ⟨tree, _, ht, h⟩ := Call.bind_ok.mp h
  obtain ⟨htree, rfl⟩ := Call.ofExcept_ok.mp ht
  obtain ⟨new, _, hcompact, h⟩ := Call.bind_ok.mp h
  obtain ⟨hnew, rfl⟩ := Call.ofExcept_ok.mp hcompact
  obtain ⟨_, _, hcreate, h⟩ := Call.bind_ok.mp h
  obtain ⟨rfl, rfl⟩ := Call.pure_ok.mp h
  exact ⟨source, hstored, hid, ⟨tree, htree, hnew⟩, hcreate⟩

theorem forkTurnNode_ok {now turnId newTurnId threadId : String} (hn : Named s)
    (h : forkTurnNode now turnId newTurnId threadId s = (.ok node, t)) :
    ∃ source, Stored s source ∧ source.val.id = turnId ∧ source.val.status ≠ .running ∧
      (∃ tree, RuntimeStateTree.ofNodes (s.loadNodes source.val.sessionId) = .ok tree ∧
        tree.fork source newTurnId threadId now = .ok node) ∧ Batch s [node] t := by
  obtain ⟨source, _, hf, h⟩ := Call.bind_ok.mp h
  obtain ⟨hstored, hid, -, rfl⟩ := findTurn_ok hn hf
  obtain ⟨_, _, hc, h⟩ := Call.bind_ok.mp h
  obtain ⟨hstatus, rfl⟩ := check_ok.mp hc
  obtain ⟨_, _, hr, h⟩ := Call.bind_ok.mp h
  obtain ⟨rfl, rfl⟩ := Call.read_ok.mp hr
  obtain ⟨tree, _, ht, h⟩ := Call.bind_ok.mp h
  obtain ⟨htree, rfl⟩ := Call.ofExcept_ok.mp ht
  obtain ⟨new, _, hfork, h⟩ := Call.bind_ok.mp h
  obtain ⟨hnew, rfl⟩ := Call.ofExcept_ok.mp hfork
  obtain ⟨_, _, hcreate, h⟩ := Call.bind_ok.mp h
  obtain ⟨rfl, rfl⟩ := Call.pure_ok.mp h
  exact ⟨source, hstored, hid, of_decide_eq_true hstatus, ⟨tree, htree, hnew⟩,
    createFinalizedNodes_ok hcreate⟩

end MiniAgent.Store
