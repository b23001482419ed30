import MiniAgent.Turn.Sent

/-!
# Subscribers of a running Turn

`ActiveTurnStream` of `active_turn_stream.py`: it broadcasts the frames of one runtime and numbers
them anew for each subscriber. A subscription keeps, for each Turn, the source revision its own
numbering starts from: that of the snapshot it was given when it subscribed, when a snapshot was
published, or at the first delta of a Turn it had not seen.

The system is a writer, the stream its frames are published to and the browsers at the queues. What
a browser holds is kept in step by the two cases of `receive`: a restart from the current Turn, and
a delta numbered from the base.
-/

namespace MiniAgent.Events

open Lib Turn Turn.Browser Turn.NodeWriter

/-! ## The stream -/

def frameKey : NodeFrame → Key
  | .snapshot turn => turn.key
  | .delta sessionId turnId _ _ _ => (sessionId, turnId)

/-- `ActiveTurnSubscription`. -/
structure Subscription where
  events : List WireFrame
  sourceBases : Key → Option Int

structure ActiveTurnStream where
  subscriptions : List Subscription
  /-- A dictionary, in the order its keys were first set. -/
  latestNodes : List (Key × RuntimeState)
  sourceRevisions : Key → Option Int

def noStream : ActiveTurnStream := ⟨[], [], fun _ => none⟩

def setNode (nodes : List (Key × RuntimeState)) (key : Key) (node : RuntimeState) :
    List (Key × RuntimeState) :=
  if nodes.any fun p => p.1 = key then nodes.map fun p => if p.1 = key then (key, node) else p
  else nodes ++ [(key, node)]

def ActiveTurnStream.subscribe (st : ActiveTurnStream) (turnId : String) : ActiveTurnStream :=
  let matching := st.latestNodes.filter fun p => p.1.2 = turnId
  let sub : Subscription := match matching.getLast? with
    | some (key, node) => ⟨[NodeFrame.toDict (.snapshot node)],
        Function.update (fun _ => none) key (st.sourceRevisions key)⟩
    | none => ⟨[], fun _ => none⟩
  { st with subscriptions := st.subscriptions ++ [sub] }

/-- A snapshot of the current Turn, from which the local numbering starts again. -/
def Subscription.restart (sub : Subscription) (key : Key) (current : RuntimeState)
    (revision : Int) :
    Subscription :=
  ⟨sub.events ++ [NodeFrame.toDict (.snapshot current)],
    Function.update sub.sourceBases key (some revision)⟩

/-- What `publish_frame` puts on one queue. -/
def Subscription.receive (frame : NodeFrame) (current : RuntimeState) (sub : Subscription) :
    Subscription :=
  match frame with
  | .snapshot turn => sub.restart turn.key current 0
  | .delta sessionId turnId revision patch operations =>
    match sub.sourceBases (sessionId, turnId) with
    | none => sub.restart (sessionId, turnId) current revision
    | some base =>
      let localRevision := revision - base
      if localRevision ≤ 0 then sub
      else { sub with events := sub.events ++
        [NodeFrame.toDict (.delta sessionId turnId localRevision patch operations)] }

def ActiveTurnStream.publishFrame (st : ActiveTurnStream) (frame : NodeFrame)
    (current : RuntimeState) :
    ActiveTurnStream where
  subscriptions := st.subscriptions.map (Subscription.receive frame current)
  latestNodes := setNode st.latestNodes (frameKey frame) current
  sourceRevisions := Function.update st.sourceRevisions (frameKey frame) (some frame.revisionOf)

/-! ## The browser -/

def Accumulator.delete (acc : Accumulator) (key : String) : Accumulator :=
  ⟨Function.update acc.nodes key none, Function.update acc.revisions key none⟩

/-- `onMessage` of `runController.ts`: a snapshot restarts its Turn. -/
def onMessage (acc : Accumulator) (message : WireFrame) : Except String Accumulator := do
  let acc := match message with
    | .snapshot _ turn =>
      Accumulator.delete acc (turnKey (jsStringOf (turn.get "session_id"))
        (jsStringOf (turn.get "id")))
    | .delta .. => acc
  let (acc', _) ← applyRuntimeNodeFrame acc message
  pure acc'

/-- The messages as they are read off the stream. -/
def onMessages : Accumulator → List WireFrame → Except String Accumulator
  | acc, [] => .ok acc
  | acc, message :: messages => do
    let acc' ← onMessage acc message.parsed
    onMessages acc' messages

/-! ## The system -/

/-- A call of the writer whose frames are published. -/
inductive WriterOp where
  | baseline (base : Baseline) (turn : RuntimeState)
  | call (key : Key) (call : WriterCall)
  | update (node : RuntimeState) (persist : Bool)

def WriterOp.key : WriterOp → Key
  | .baseline _ turn => turn.key
  | .call key _ => key
  | .update node _ => node.key

def WriterOp.perform (env : WriterEnv) : WriterOp → Method RuntimeState
  | .baseline base turn => base.perform env turn
  | .call key made => made.perform env key
  | .update node persist => NodeWriter.update env node persist

structure Live where
  writer : NodeWriter
  stream : ActiveTurnStream

inductive LiveOp where
  | subscribe (turnId : String)
  | write (op : WriterOp)

/-- Every new frame is published with the Turn the writer has under its key. -/
def publishAll (env : WriterEnv) (w : NodeWriter) :
    List NodeFrame → ActiveTurnStream → Option ActiveTurnStream
  | [], st => some st
  | frame :: frames, st => match current env (frameKey frame) w with
    | (.ok cur, _) => publishAll env w frames (st.publishFrame frame cur)
    | (.error _, _) => none

def Live.step (env : WriterEnv) (l : Live) : LiveOp → Option Live
  | .subscribe turnId => some { l with stream := l.stream.subscribe turnId }
  | .write op => match op.perform env l.writer with
    | (.ok _, w) =>
      (publishAll env w (w.emitted.drop l.writer.emitted.length) l.stream).map fun st => ⟨w, st⟩
    | (.error _, _) => none

/-! ## What is asked of a run -/

/-- The browser's `normalizeRuntimeNode` admits the Turn, whose integers are safe. -/
structure Admitted (s : RuntimeState) : Prop where
  normal : ∃ node, normalizeRuntimeNode s.toDict = .ok node
  safe : s.Safe

/-- The stream has a frame of the Turn. -/
def ActiveTurnStream.Knows (st : ActiveTurnStream) (key : Key) : Prop :=
  ∃ r, st.sourceRevisions key = some r

/-- The browser admits every Turn the writer comes to, and its integers are safe. A baseline is of a
Turn whose name in the browser is its own; the other calls follow a baseline, with values that the
browser's patch validator admits, and no Item changes its status and its text in one `update`. -/
def WriterOp.Follows (env : WriterEnv) (l : Live) : WriterOp → Prop
  | .baseline _ turn => turn.Wf env.host ∧ Admitted turn ∧ ∀ key, l.stream.Knows key →
    turnKey key.1 key.2 = turnKey turn.sessionId turn.id → key = turn.key
  | .call key made => l.stream.Knows key ∧ Streams env key l.writer made ∧
    ∀ w s, NodeWriter.step env key l.writer made = some w → current env key w = (.ok s, w) →
      Admitted s
  | .update node _ => l.stream.Knows node.key ∧ node.Wf env.host ∧ Admitted node ∧
    ∀ s, current env node.key l.writer = (.ok s, l.writer) → ¬ MixedData s.data node.data

def Live.Ok (env : WriterEnv) (l : Live) : LiveOp → Prop
  | .subscribe _ => True
  | .write op => op.Follows env l

/-- Whether an event is about a Turn. -/
def isOf (key : Key) : WireFrame → Bool
  | .snapshot _ turn =>
    turn.get "session_id" == some (.str key.1) && turn.get "id" == some (.str key.2)
  | .delta sessionId turnId .. => sessionId == key.1 && turnId == key.2

/-- The revision after an event: a snapshot is 0, a delta one more than the last. -/
def nextRevision : Option Int → WireFrame → Option (Option Int)
  | _, .snapshot revision _ => if revision = 0 then some (some 0) else none
  | none, .delta .. => none
  | some r, .delta _ _ revision _ _ _ => if revision = r + 1 then some (some revision) else none

/-! ## Queues and browsers -/

variable {env : WriterEnv} {st st' : ActiveTurnStream} {sub sub' : Subscription}
  {acc acc' : Accumulator}
  {key : Key} {l l' : Live}

theorem mem_setNode {nodes : List (Key × RuntimeState)} {node n : RuntimeState} {k : Key}
    (h : (k, n) ∈ setNode nodes key node) : k = key ∧ n = node ∨ k ≠ key ∧ (k, n) ∈ nodes := by
  unfold setNode at h
  split at h
  · obtain ⟨p, hp, he⟩ := List.mem_map.mp h
    split at he
    · cases he; exact .inl ⟨rfl, rfl⟩
    · next hne => subst he; exact .inr ⟨hne, hp⟩
  · next hany =>
    rcases List.mem_append.mp h with hp | hp
    · refine .inr ⟨fun e => hany (List.any_eq_true.mpr ⟨(k, n), hp, by simp [e]⟩), hp⟩
    · cases List.mem_singleton.mp hp; exact .inl ⟨rfl, rfl⟩

theorem mem_setNode_self (nodes : List (Key × RuntimeState)) (key : Key) (node : RuntimeState) :
    (key, node) ∈ setNode nodes key node := by
  unfold setNode
  split
  · next hany =>
    obtain ⟨p, hp, hk⟩ := List.any_eq_true.mp hany
    exact List.mem_map.mpr ⟨p, hp, if_pos (by simpa using hk)⟩
  · exact List.mem_append_right _ List.mem_cons_self

theorem mem_setNode_of_ne {nodes : List (Key × RuntimeState)} {node n : RuntimeState} {k : Key}
    (h : (k, n) ∈ nodes) (hk : k ≠ key) : (k, n) ∈ setNode nodes key node := by
  unfold setNode
  split
  · exact List.mem_map.mpr ⟨(k, n), h, if_neg hk⟩
  · exact List.mem_append_left _ h

theorem onMessages_append {messages : List WireFrame} {message : WireFrame} {start : Accumulator}
    (h : onMessages start messages = .ok acc) (hm : onMessage acc message.parsed = .ok acc') :
    onMessages start (messages ++ [message]) = .ok acc' := by
  induction messages generalizing start with
  | nil =>
    cases h
    simp only [List.nil_append, onMessages, hm]
    rfl
  | cons f messages ih =>
    simp only [onMessages, bind_ok] at h
    obtain ⟨mid, hmid, hrest⟩ := h
    simp only [List.cons_append, onMessages, bind_ok]
    exact ⟨mid, hmid, ih hrest⟩

/-- A snapshot of a Turn the browser admits, whatever it held before. -/
theorem onMessage_snapshot {host : Host} {turn : RuntimeState} (hwf : turn.Wf host)
    (h : Admitted turn) (acc : Accumulator) :
    ∃ node, Shows node turn ∧
      onMessage acc (NodeFrame.received (.snapshot turn))
      = .ok (acc.store (turnKey turn.sessionId turn.id) node 0) := by
  obtain ⟨⟨node, hnode⟩, hsafe⟩ := h
  obtain ⟨-, -, rfl⟩ := (normalizeRuntimeNode_toDict hwf hsafe).mp hnode
  have hreceived : NodeFrame.received (.snapshot turn) = NodeFrame.toDict (.snapshot turn) :=
    NodeFrame.received_of_safe hsafe
  refine ⟨_, shows_self turn, ?_⟩
  have hfresh : (Accumulator.delete acc (turnKey turn.sessionId turn.id)).revisions
      (turnKey turn.sessionId turn.id) = none := by simp [Accumulator.delete]
  have happly := applyRuntimeNodeFrame_snapshot hsafe hnode hfresh
  have hstore : (Accumulator.delete acc (turnKey turn.sessionId turn.id)).store
      (turnKey turn.sessionId turn.id) ⟨turn.configFields, turn.data⟩ 0
      = acc.store (turnKey turn.sessionId turn.id) ⟨turn.configFields, turn.data⟩ 0 := by
    simp [Accumulator.delete, Accumulator.store]
  rw [hstore] at happly
  rw [hreceived] at happly ⊢
  simp only [onMessage, NodeFrame.toDict, bind_ok, pure_ok]
  exact ⟨_, happly, rfl⟩

theorem onMessage_delta {node turn : RuntimeStateNode} {r : Int} {patch : Fields} {ops : List Op}
    (hsafe : NodeFrame.Safe (.delta key.1 key.2 (r + 1) patch ops))
    (hnode : acc.nodes (turnKey key.1 key.2) = some node)
    (hrev : acc.revisions (turnKey key.1 key.2) = some r)
    (h : applyDelta node (if patch.isEmpty then none else some (.obj patch))
      (if ops.isEmpty then none else some ops) none = .ok turn) :
    onMessage acc (NodeFrame.received (.delta key.1 key.2 (r + 1) patch ops))
      = .ok (acc.store (turnKey key.1 key.2) turn (r + 1)) := by
  rw [NodeFrame.received_of_safe hsafe]
  simp only [onMessage, NodeFrame.toDict, applyRuntimeNodeFrame, hnode, hrev, bind_ok, exists_unit,
    require_ok, pure_ok]
  exact ⟨_, ⟨by simp, turn, h, rfl⟩, rfl⟩

/-- A queue, and the browser that has applied all of it. -/
structure Serves (st : ActiveTurnStream) (sub : Subscription) (acc : Accumulator) : Prop where
  folds : onMessages runtimeNodeAccumulator sub.events = .ok acc
  numbered : ∀ k, run nextRevision none (sub.events.filter (isOf k))
    = some ((sub.sourceBases k).bind fun b => (st.sourceRevisions k).map fun r => r - b)
  shown : ∀ k b, sub.sourceBases k = some b → ∃ r node, st.sourceRevisions k = some r ∧ b ≤ r ∧
    acc.revisions (turnKey k.1 k.2) = some (r - b) ∧ acc.nodes (turnKey k.1 k.2) = some node ∧
    ∀ n, (k, n) ∈ st.latestNodes → Shows node n

/-- One more event of the Turn `key`. -/
theorem Serves.put {event : WireFrame} {node : RuntimeStateNode} {b r : Int} (h : Serves st sub acc)
    (hevents : sub'.events = sub.events ++ [event])
    (hof : ∀ k, isOf k event = decide (k = key))
    (hbases : sub'.sourceBases = Function.update sub.sourceBases key (some b))
    (hrevs : st'.sourceRevisions = Function.update st.sourceRevisions key (some r)) (hle : b ≤ r)
    (hnodes : ∀ k n, (k, n) ∈ st'.latestNodes →
      k = key ∧ Shows node n ∨ k ≠ key ∧ (k, n) ∈ st.latestNodes)
    (happly : onMessage acc event.parsed = .ok (acc.store (turnKey key.1 key.2) node (r - b)))
    (hnext : nextRevision ((sub.sourceBases key).bind fun b =>
      (st.sourceRevisions key).map fun r => r - b)
      event = some (some (r - b)))
    (hapart : ∀ k, st.Knows k → turnKey k.1 k.2 = turnKey key.1 key.2 → k = key) :
    Serves st' sub' (acc.store (turnKey key.1 key.2) node (r - b)) := by
  refine ⟨by rw [hevents]; exact onMessages_append h.folds happly, fun k => ?_, fun k b' hb' => ?_⟩
  · rw [hevents, List.filter_append, hbases, hrevs]
    by_cases hk : k = key
    · subst hk
      have hsingle : [event].filter (isOf k) = [event] := by simp [hof]
      rw [hsingle, run_append]
      refine ⟨_, h.numbered k, ?_⟩
      simp [run, hnext]
    · have hsingle : [event].filter (isOf k) = [] := by simp [hof, hk]
      rw [hsingle, List.append_nil, Function.update_of_ne hk, Function.update_of_ne hk]
      exact h.numbered k
  · rw [hbases] at hb'
    rw [hrevs]
    by_cases hk : k = key
    · subst hk
      rw [Function.update_self] at hb'
      cases hb'
      refine ⟨r, node, Function.update_self .., hle, by simp [Accumulator.store], by
        simp [Accumulator.store],
        fun n hn => ?_⟩
      rcases hnodes k n hn with ⟨-, hs⟩ | ⟨hne, -⟩
      · exact hs
      · exact absurd rfl hne
    · rw [Function.update_of_ne hk] at hb'
      obtain ⟨r', node', hr', hle', hrev, hnode, hs⟩ := h.shown k b' hb'
      have hne : turnKey k.1 k.2 ≠ turnKey key.1 key.2 := fun e => hk (hapart k ⟨r', hr'⟩ e)
      refine ⟨r', node', by rw [Function.update_of_ne hk]; exact hr', hle', ?_, ?_, fun n hn => ?_⟩
      · simpa [Accumulator.store, Function.update_of_ne hne] using hrev
      · simpa [Accumulator.store, Function.update_of_ne hne] using hnode
      · rcases hnodes k n hn with ⟨e, -⟩ | ⟨-, hn'⟩
        · exact absurd e hk
        · exact hs n hn'

theorem isOf_snapshot (turn : RuntimeState) (k : Key) :
    isOf k (NodeFrame.toDict (.snapshot turn)) = decide (k = turn.key) := by
  have h : isOf k (NodeFrame.toDict (.snapshot turn))
      = (some (Json.str turn.sessionId) == some (.str k.1) && some (Json.str turn.id) ==
        some (.str k.2)) := rfl
  rw [h, Bool.eq_iff_iff]
  simp only [Bool.and_eq_true, beq_iff_eq, Option.some.injEq, Json.str.injEq, decide_eq_true_eq,
    RuntimeState.key, Prod.ext_iff]
  exact ⟨fun h => ⟨h.1.symm, h.2.symm⟩, fun h => ⟨h.1.symm, h.2.symm⟩⟩

theorem isOf_delta (key k : Key) (r : Int) (patch : Fields) (ops : List Op) :
    isOf k (NodeFrame.toDict (.delta key.1 key.2 r patch ops)) = decide (k = key) := by
  rw [Bool.eq_iff_iff]
  simp only [NodeFrame.toDict, isOf, Bool.and_eq_true, beq_iff_eq, decide_eq_true_eq, Prod.ext_iff]
  exact ⟨fun h => ⟨h.1.symm, h.2.symm⟩, fun h => ⟨h.1.symm, h.2.symm⟩⟩

/-- A restart from the current Turn, wherever its numbering is to begin. -/
theorem Serves.restart {host : Host} {cur : RuntimeState} {r : Int} (h : Serves st sub acc)
    (hwf : cur.Wf host) (hcur : Admitted cur)
    (hrevs : st'.sourceRevisions = Function.update st.sourceRevisions cur.key (some r))
    (hnodes : ∀ k n, (k, n) ∈ st'.latestNodes → k = cur.key ∧ n = cur ∨ k ≠ cur.key ∧
      (k, n) ∈ st.latestNodes)
    (hapart : ∀ k, st.Knows k → turnKey k.1 k.2 = turnKey cur.sessionId cur.id → k = cur.key) :
    ∃ acc', Serves st' (sub.restart cur.key cur r) acc' := by
  obtain ⟨node, hshows, happly⟩ := onMessage_snapshot hwf hcur acc
  have happly' : onMessage acc (NodeFrame.received (.snapshot cur))
      = .ok (acc.store (turnKey cur.key.1 cur.key.2) node (r - r)) := by
    rw [Int.sub_self]
    exact happly
  refine ⟨_, h.put rfl (isOf_snapshot cur) rfl hrevs le_rfl (fun k n hn => ?_) happly'
    (by simp [NodeFrame.toDict, nextRevision]) hapart⟩
  rcases hnodes k n hn with ⟨hk, rfl⟩ | hother
  · exact .inl ⟨hk, hshows⟩
  · exact .inr hother

/-- What a frame has to be for the browsers that show the Turn published before it. -/
def Continues (st : ActiveTurnStream) (cur : RuntimeState) : NodeFrame → Prop
  | .snapshot _ => True
  | .delta sessionId turnId revision patch ops =>
    ∃ r, st.sourceRevisions (sessionId, turnId) = some r ∧ revision = r + 1 ∧
      (Json.safe (.obj patch) = true ∧ ∀ op ∈ ops, op.Safe) ∧
        ∀ node, (∀ n, ((sessionId, turnId), n) ∈ st.latestNodes → Shows node n) →
        ∃ turn, applyDelta node (if patch.isEmpty then none else some (.obj patch))
          (if ops.isEmpty then none else some ops) none = .ok turn ∧ Shows turn cur

/-- **Rebasing.** A published frame keeps every subscriber in step. -/
theorem Serves.publish {host : Host} {frame : NodeFrame} {cur : RuntimeState}
    (h : Serves st sub acc) (hwf : cur.Wf host) (hcur : Admitted cur)
    (hkey : frameKey frame = cur.key)
    (hapart : ∀ k, st.Knows k → turnKey k.1 k.2 = turnKey cur.sessionId cur.id → k = cur.key)
    (hframe : Continues st cur frame) :
    ∃ acc', Serves (st.publishFrame frame cur) (sub.receive frame cur) acc' := by
  have hnodes : ∀ k n, (k, n) ∈ (st.publishFrame frame cur).latestNodes →
      k = cur.key ∧ n = cur ∨ k ≠ cur.key ∧ (k, n) ∈ st.latestNodes := by
    intro k n hn
    rw [ActiveTurnStream.publishFrame, hkey] at hn
    exact mem_setNode hn
  have hrevs : (st.publishFrame frame cur).sourceRevisions
      = Function.update st.sourceRevisions cur.key (some frame.revisionOf) := by
    rw [ActiveTurnStream.publishFrame, hkey]
  cases frame with
  | snapshot turn =>
    have hturn : turn.key = cur.key := hkey
    simp only [Subscription.receive, hturn]
    exact h.restart hwf hcur hrevs hnodes hapart
  | delta sessionId turnId revision patch ops =>
    have hturn : (sessionId, turnId) = cur.key := hkey
    obtain ⟨r, hr, rfl, hparts, happlies⟩ := hframe
    rw [hturn] at hr happlies
    simp only [Subscription.receive, hturn]
    rcases hb : sub.sourceBases cur.key with _ | b
    · exact h.restart hwf hcur hrevs hnodes hapart
    · obtain ⟨r', node, hr', hle, hrev, hnode, hshows⟩ := h.shown cur.key b hb
      obtain rfl : r = r' := Option.some.inj (hr.symm.trans hr')
      obtain ⟨turn, happly, hturn'⟩ := happlies node hshows
      have hlocal : ¬ r + 1 - b ≤ 0 := by omega
      have hnext : r + 1 - b = r - b + 1 := by omega
      obtain ⟨rfl, rfl⟩ : sessionId = cur.key.1 ∧ turnId = cur.key.2 := by
        rw [← hturn]; exact ⟨rfl, rfl⟩
      have happly' : onMessage acc
          (NodeFrame.received (.delta cur.key.1 cur.key.2 (r + 1 - b) patch ops))
          = .ok (acc.store (turnKey cur.key.1 cur.key.2) turn (r + 1 - b)) := by
        rw [hnext]
        exact onMessage_delta hparts hnode hrev happly
      simp only [hlocal, if_false]
      refine ⟨_, h.put rfl (isOf_delta cur.key · _ patch ops) ?_ hrevs (show b ≤ r + 1 by omega)
        (fun k n hn => ?_) happly' ?_ hapart⟩
      · rw [← hb, Function.update_eq_self]
      · rcases hnodes k n hn with ⟨hk, rfl⟩ | hother
        · exact .inl ⟨hk, hturn'⟩
        · exact .inr hother
      · simp [hb, hr, NodeFrame.toDict, nextRevision, NodeFrame.revisionOf, hnext]

theorem serves_nothing (st : ActiveTurnStream) :
    Serves st ⟨[], fun _ => none⟩ runtimeNodeAccumulator :=
  ⟨rfl, fun _ => rfl, fun _ _ h => by cases h⟩

/-! ## The invariant -/

structure Live.Inv (env : WriterEnv) (l : Live) : Prop where
  /-- The writer is where the stream is: what shows the published Turn shows the writer's. -/
  held : ∀ k n, (k, n) ∈ l.stream.latestNodes → n.key = k ∧ n.Wf env.host ∧ Admitted n ∧
    ∃ r s, l.stream.sourceRevisions k = some r ∧ Keeps env k l.writer r s ∧
      ∀ node, Shows node n → Shows node s
  listed : ∀ k, l.stream.Knows k → ∃ n, (k, n) ∈ l.stream.latestNodes
  unique : ∀ k n n', (k, n) ∈ l.stream.latestNodes → (k, n') ∈ l.stream.latestNodes → n = n'
  apart : ∀ k k', l.stream.Knows k → l.stream.Knows k' →
    turnKey k.1 k.2 = turnKey k'.1 k'.2 → k = k'
  serves : ∀ sub ∈ l.stream.subscriptions, ∃ acc, Serves l.stream sub acc

theorem Live.Inv.subscribe (h : l.Inv env) (turnId : String) :
    Live.Inv env { l with stream := l.stream.subscribe turnId } := by
  refine ⟨h.held, h.listed, h.unique, h.apart, fun sub hsub => ?_⟩
  rcases List.mem_append.mp hsub with hold | hnew
  · obtain ⟨acc, hacc⟩ := h.serves sub hold
    exact ⟨acc, hacc.folds, hacc.numbered, hacc.shown⟩
  · rw [List.mem_singleton.mp hnew]
    split
    · next key node hlast =>
      have hmem : (key, node) ∈ l.stream.latestNodes :=
        List.mem_of_mem_filter (List.mem_of_getLast? hlast)
      obtain ⟨rfl, hwf, hadm, r, s, hr, -, -⟩ := h.held key node hmem
      have hrevs : (l.stream.subscribe turnId).sourceRevisions
          = Function.update l.stream.sourceRevisions node.key (some r) := by
        rw [← hr, Function.update_eq_self]
        rfl
      have hnodes : ∀ k n, (k, n) ∈ (l.stream.subscribe turnId).latestNodes →
          k = node.key ∧ n = node ∨ k ≠ node.key ∧ (k, n) ∈ l.stream.latestNodes := by
        intro k n hn
        by_cases hk : k = node.key
        · subst hk; exact .inl ⟨rfl, h.unique _ n node hn hmem⟩
        · exact .inr ⟨hk, hn⟩
      have hserves := (serves_nothing l.stream).restart hwf hadm hrevs hnodes
        (fun k hk e => h.apart k node.key hk ⟨r, hr⟩ e)
      simpa [Subscription.restart, hr] using hserves
    · have hserves := serves_nothing l.stream
      exact ⟨_, hserves.folds, hserves.numbered, hserves.shown⟩

/-- A call that emits nothing. -/
theorem Live.Inv.silent {w : NodeWriter} {r : Int} {s s' : RuntimeState} (h : l.Inv env)
    (hothers : ∀ k, k ≠ key → w.slot k = l.writer.slot k) (hk : Keeps env key l.writer r s)
    (hk' : Keeps env key w r s') (hshows : ∀ node, Shows node s → Shows node s') :
    Live.Inv env ⟨w, l.stream⟩ := by
  refine ⟨fun k n hn => ?_, h.listed, h.unique, h.apart, h.serves⟩
  obtain ⟨hkey, hwf, hadm, r₀, s₀, hr₀, hkeeps, hn'⟩ := h.held k n hn
  refine ⟨hkey, hwf, hadm, ?_⟩
  by_cases e : k = key
  · subst e
    obtain rfl : r₀ = r := Option.some.inj (hkeeps.revision.symm.trans hk.revision)
    obtain rfl : s₀ = s := by
      have := hkeeps.current_eq.symm.trans hk.current_eq
      simpa using this
    exact ⟨r₀, s', hr₀, hk', fun node hnode => hshows node (hn' node hnode)⟩
  · exact ⟨r₀, s₀, hr₀, hkeeps.of_slot (hothers k e), hn'⟩

/-- A call that emits one frame, which is published. -/
theorem Live.Inv.publish {w : NodeWriter} {frame : NodeFrame} {cur : RuntimeState} (h : l.Inv env)
    (hothers : ∀ k, k ≠ cur.key → w.slot k = l.writer.slot k) (hkey : frameKey frame = cur.key)
    (hk : Keeps env cur.key w frame.revisionOf cur) (hcur : Admitted cur)
    (hapart : ∀ k, l.stream.Knows k → turnKey k.1 k.2 = turnKey cur.sessionId cur.id → k = cur.key)
    (hframe : Continues l.stream cur frame) :
    Live.Inv env ⟨w, l.stream.publishFrame frame cur⟩ := by
  have hmem : ∀ {k n}, (k, n) ∈ (l.stream.publishFrame frame cur).latestNodes →
      k = cur.key ∧ n = cur ∨ k ≠ cur.key ∧ (k, n) ∈ l.stream.latestNodes := by
    intro k n hn
    rw [ActiveTurnStream.publishFrame, hkey] at hn
    exact mem_setNode hn
  have hrevs : (l.stream.publishFrame frame cur).sourceRevisions
      = Function.update l.stream.sourceRevisions cur.key (some frame.revisionOf) := by
    rw [ActiveTurnStream.publishFrame, hkey]
  have hknows : ∀ {k}, (l.stream.publishFrame frame cur).Knows k → k = cur.key ∨
      l.stream.Knows k := by
    rintro k ⟨r, hr⟩
    by_cases e : k = cur.key
    · exact .inl e
    · rw [hrevs, Function.update_of_ne e] at hr
      exact .inr ⟨r, hr⟩
  refine ⟨fun k n hn => ?_, fun k hk' => ?_, fun k n n' hn hn' => ?_, fun k k' hk' hk'' e => ?_,
    fun sub hsub => ?_⟩
  · rcases hmem hn with ⟨rfl, rfl⟩ | ⟨hne, hold⟩
    · exact ⟨rfl, hk.wf, hcur, _, n, by rw [hrevs, Function.update_self], hk, fun _ h => h⟩
    · obtain ⟨h1, h2, h3, r, s, hr, hkeeps, hs⟩ := h.held k n hold
      exact ⟨h1, h2, h3, r, s, by rw [hrevs, Function.update_of_ne hne]; exact hr,
        hkeeps.of_slot (hothers k hne), hs⟩
  · by_cases e : k = cur.key
    · subst e
      refine ⟨cur, ?_⟩
      rw [ActiveTurnStream.publishFrame, hkey]
      exact mem_setNode_self _ _ _
    · obtain ⟨n, hn⟩ := h.listed k ((hknows hk').resolve_left e)
      refine ⟨n, ?_⟩
      rw [ActiveTurnStream.publishFrame, hkey]
      exact mem_setNode_of_ne hn e
  · rcases hmem hn with ⟨rfl, rfl⟩ | ⟨hne, hold⟩ <;> rcases hmem hn' with ⟨e, e'⟩ | ⟨hne', hold'⟩
    · exact e'.symm
    · exact absurd rfl hne'
    · exact absurd e hne
    · exact h.unique k n n' hold hold'
  · rcases hknows hk' with rfl | hk₁ <;> rcases hknows hk'' with rfl | hk₂
    · rfl
    · exact (hapart k' hk₂ e.symm).symm
    · exact hapart k hk₁ e
    · exact h.apart k k' hk₁ hk₂ e
  · obtain ⟨sub₀, hsub₀, rfl⟩ := List.mem_map.mp hsub
    obtain ⟨acc, hacc⟩ := h.serves sub₀ hsub₀
    exact hacc.publish hk.wf hcur hkey hapart hframe

theorem Admitted.shown {host : Host} {s : RuntimeState} (hwf : s.Wf host) (h : Admitted s) :
    Shown s := by
  obtain ⟨⟨node, hnode⟩, hsafe⟩ := h
  exact ((normalizeRuntimeNode_toDict hwf hsafe).mp hnode).2.1

/-- Publishing the one frame a call emitted. -/
theorem publishAll_singleton {w : NodeWriter} {frame : NodeFrame} {cur : RuntimeState}
    (hcur : current env (frameKey frame) w = (.ok cur, w)) :
    publishAll env w [frame] st = some (st.publishFrame frame cur) := by
  simp [publishAll, hcur]

/-- A call on a Turn the stream knows, from what it makes of the Turn. -/
theorem Live.Inv.moves {w : NodeWriter} {r r' : Int} {s s' : RuntimeState} (h : l.Inv env)
    (hknows : l.stream.Knows key) (hothers : ∀ k, k ≠ key → w.slot k = l.writer.slot k)
    (hk : Keeps env key l.writer r s) (hk' : Keeps env key w r' s') (hcur : Admitted s')
    (hmoves : Moves key l.writer w r s r' s')
    (hpub : publishAll env w (w.emitted.drop l.writer.emitted.length) l.stream = some st) :
    Live.Inv env ⟨w, st⟩ := by
  obtain rfl := hk'.key_eq
  cases hmoves with
  | silent hframes hshows =>
    rw [hframes, List.drop_length] at hpub
    cases hpub
    exact h.silent hothers hk hk' hshows
  | @delta _ patch ops hparts hframes happlies =>
    rw [hframes, List.drop_left, publishAll_singleton (hk'.current_eq)] at hpub
    cases hpub
    refine h.publish hothers rfl hk' hcur (fun k hk₁ e => h.apart k _ hk₁ hknows e) ?_
    obtain ⟨n, hn⟩ := h.listed _ hknows
    obtain ⟨-, -, -, r₀, s₀, hr₀, hkeeps, hshows⟩ := h.held _ n hn
    obtain rfl : r₀ = r := Option.some.inj (hkeeps.revision.symm.trans hk.revision)
    obtain rfl : s₀ = s := by simpa using hkeeps.current_eq.symm.trans hk.current_eq
    exact ⟨r₀, hr₀, rfl, hparts hcur.safe, fun node hnode =>
      happlies node (hshows node (hnode n hn))⟩

theorem Live.Inv.keeps (h : l.Inv env) (hknows : l.stream.Knows key) :
    ∃ r s, Keeps env key l.writer r s := by
  obtain ⟨n, hn⟩ := h.listed key hknows
  obtain ⟨-, -, -, r, s, -, hk, -⟩ := h.held key n hn
  exact ⟨r, s, hk⟩

theorem Live.Inv.step {op : LiveOp} (hemits : env.emitsFrames = true) (h : l.Inv env)
    (hok : l.Ok env op) (hstep : Live.step env l op = some l') : l'.Inv env := by
  cases op with
  | subscribe turnId => cases hstep; exact h.subscribe turnId
  | write op =>
    simp only [Live.step] at hstep
    rcases hw : op.perform env l.writer with ⟨_ | out, w⟩
    · rw [hw] at hstep; cases hstep
    · rw [hw] at hstep
      obtain ⟨st, hpub, rfl⟩ := Option.map_eq_some_iff.mp hstep
      cases op with
      | baseline base turn =>
        obtain ⟨hwf, hadm, hapart⟩ := hok
        obtain ⟨-, -, hframes⟩ := baseline_ok hwf hemits hw
        have hk := baseline_keeps hemits hwf (hadm.shown hwf) hw
        rw [hframes, List.drop_left, publishAll_singleton hk.current_eq] at hpub
        cases hpub
        exact h.publish (baseline_others hwf hemits hw) rfl hk hadm hapart trivial
      | call key made =>
        obtain ⟨hknows, hstreams, hadm⟩ := hok
        obtain ⟨r, s, hk⟩ := h.keeps hknows
        have hcall : NodeWriter.step env key l.writer made = some w := by
          have hw' : made.perform env key l.writer = (.ok out, w) := hw
          simp [NodeWriter.step, hw']
        obtain ⟨r', s', hk', hmoves⟩ := call_moves hemits hk hstreams hcall
        exact h.moves hknows (call_touches hemits hk hcall).others hk hk'
          (hadm w s' hcall hk'.current_eq)
          hmoves hpub
      | update node persist =>
        obtain ⟨hknows, hwf, hadm, hmixed⟩ := hok
        obtain ⟨r, s, hk⟩ := h.keeps hknows
        obtain ⟨⟨r', hk', hmoves⟩, hothers⟩ := update_moves hemits hk hwf (hadm.shown hwf)
          (hmixed s hk.current_eq) hw
        exact h.moves hknows hothers hk hk' hadm hmoves hpub

/-- Once there is an event there is a revision. -/
theorem run_nextRevision_ne_none (event : WireFrame) (rest : List WireFrame) :
    run nextRevision none (event :: rest) ≠ some none := by
  have hsome : ∀ (rest : List WireFrame) (r : Int), run nextRevision (some r) rest ≠ some none := by
    intro rest
    induction rest with
    | nil => intro r h; cases h
    | cons e rest ih =>
      intro r h
      obtain ⟨r', hr', hrest⟩ := run_cons.mp h
      obtain ⟨q, rfl⟩ : ∃ q, r' = some q := by
        cases e <;> simp only [nextRevision] at hr' <;> split at hr' <;>
          cases hr' <;> exact ⟨_, rfl⟩
      exact ih q hrest
  intro h
  obtain ⟨r', hr', hrest⟩ := run_cons.mp h
  obtain ⟨q, rfl⟩ : ∃ q, r' = some q := by
    cases event with
    | snapshot revision turn =>
      simp only [nextRevision] at hr'; split at hr' <;> cases hr'; exact ⟨_, rfl⟩
    | delta => cases hr'
  exact hsome rest q hrest

theorem not_knows_noStream (k : Key) : ¬ noStream.Knows k := by
  rintro ⟨r, hr⟩
  cases hr

theorem inv_noStream (env : WriterEnv) (w : NodeWriter) : Live.Inv env ⟨w, noStream⟩ where
  held _ _ h := absurd h List.not_mem_nil
  listed k h := absurd h (not_knows_noStream k)
  unique _ _ _ h := absurd h List.not_mem_nil
  apart k _ h := absurd h (not_knows_noStream k)
  serves _ h := absurd h List.not_mem_nil

/-- **Late subscribers see the same Turn.** In every run of one writer, its stream and its
subscribers, each queue holds of each Turn a snapshot of revision 0 and deltas of revisions 1, 2, 3,
… until the next snapshot, and the browser that applies the queue shows the Turn that was published
last. -/
theorem late_subscribers {w₀ : NodeWriter} {ops : List LiveOp} (hemits : env.emitsFrames = true)
    (hok : Meets (Live.step env) (Live.Ok env) ⟨w₀, noStream⟩ ops)
    (hrun : run (Live.step env) ⟨w₀, noStream⟩ ops = some l) :
    ∀ sub ∈ l.stream.subscriptions, ∃ acc, onMessages runtimeNodeAccumulator sub.events = .ok acc ∧
      ∀ key, (∃ r, run nextRevision none (sub.events.filter (isOf key)) = some r) ∧
        ∀ turn, (key, turn) ∈ l.stream.latestNodes → sub.events.filter (isOf key) ≠ [] →
          ∃ node, acc.nodes (turnKey key.1 key.2) = some node ∧ Shows node turn := by
  have hstep : ∀ u op v, Live.Inv env u → Live.Ok env u op → Live.step env u op = some v →
      Live.Inv env v :=
    fun _ _ _ hi ho hs => hi.step hemits ho hs
  have hinv := run_invariant hstep (inv_noStream env w₀) hok hrun
  intro sub hsub
  obtain ⟨acc, hacc⟩ := hinv.serves sub hsub
  refine ⟨acc, hacc.folds, fun key => ⟨⟨_, hacc.numbered key⟩, fun turn hturn hne => ?_⟩⟩
  rcases hb : sub.sourceBases key with _ | b
  · -- no base, so the numbering never began
    have hnone := hacc.numbered key
    rw [hb] at hnone
    rcases hevents : sub.events.filter (isOf key) with _ | ⟨event, rest⟩
    · exact absurd hevents hne
    · rw [hevents] at hnone
      exact absurd hnone (run_nextRevision_ne_none event rest)
  · obtain ⟨r, node, -, -, -, hnode, hshows⟩ := hacc.shown key b hb
    exact ⟨node, hnode, hshows turn hturn⟩

/-- A browser that is there from the start and one that comes while text streams. -/
def sampleOps : List LiveOp :=
  [.subscribe "t1", .write (.baseline .create (sampleTurn "a" "success")),
    .write (.call ("s1", "t1") (.appendText 0 none 0 "b" false)), .subscribe "t1",
    .write (.call ("s1", "t1") (.appendText 0 none 0 "c" false))]

theorem follows_appendText {delta : String} {s : RuntimeState} {w : NodeWriter}
    (hknows : l.stream.Knows ("s1", "t1"))
    (h : NodeWriter.step sampleEnv ("s1", "t1") l.writer
      (.appendText 0 none 0 delta false) = some w)
    (hs : current sampleEnv ("s1", "t1") w = (.ok s, w)) (hadm : Admitted s) :
    WriterOp.Follows sampleEnv l (.call ("s1", "t1") (.appendText 0 none 0 delta false)) := by
  refine ⟨hknows, ⟨by decide, by simp, by decide⟩, fun w' s' hw' hs' => ?_⟩
  cases h.symm.trans hw'
  cases hs.symm.trans hs'
  exact hadm

theorem meets_sampleOps :
    Meets (Live.step sampleEnv) (Live.Ok sampleEnv) ⟨sampleWriter, noStream⟩ sampleOps := by
  refine ⟨trivial, fun _ h => ?_⟩
  cases h
  refine ⟨⟨sampleTurn_wf "a" .success,
    ⟨⟨_, normalizeRuntimeNode_sampleTurn "a" .success⟩, sampleTurn_safe "a" .success⟩,
    fun k hk => absurd hk (not_knows_noStream k)⟩, fun _ h => ?_⟩
  cases h
  refine ⟨follows_appendText ⟨0, rfl⟩ rfl rfl ⟨⟨_, normalizeRuntimeNode_sampleTurn "ab" .success⟩,
    sampleTurn_safe "ab" .success⟩,
    fun _ h => ?_⟩
  cases h
  refine ⟨trivial, fun _ h => ?_⟩
  cases h
  exact ⟨follows_appendText ⟨1, rfl⟩ rfl rfl ⟨⟨_, normalizeRuntimeNode_sampleTurn "abc" .success⟩,
    sampleTurn_safe "abc" .success⟩,
    fun _ _ => trivial⟩

theorem late_subscribers_sample :
    ∃ l, run (Live.step sampleEnv) ⟨sampleWriter, noStream⟩ sampleOps = some l ∧
      l.stream.subscriptions.length = 2 ∧
      ∀ sub ∈ l.stream.subscriptions,
        ∃ acc, onMessages runtimeNodeAccumulator sub.events = .ok acc ∧
          ∀ key, (∃ r, run nextRevision none (sub.events.filter (isOf key)) = some r) ∧
            ∀ turn, (key, turn) ∈ l.stream.latestNodes → sub.events.filter (isOf key) ≠ [] →
              ∃ node, acc.nodes (turnKey key.1 key.2) = some node ∧ Shows node turn := by
  obtain ⟨l, hl⟩ : ∃ l, run (Live.step sampleEnv) ⟨sampleWriter, noStream⟩ sampleOps = some l :=
    ⟨_, rfl⟩
  refine ⟨l, hl, ?_, late_subscribers rfl meets_sampleOps hl⟩
  cases hl
  rfl

/-- A Turn the backend takes and the browser does not: its subscriber is given the snapshot and
refuses it. -/
theorem late_subscriber_refuses :
    blankModelTurn.Wf sampleHost ∧
    ∃ l, run (Live.step sampleEnv) ⟨sampleWriter, noStream⟩
        [.write (.baseline .create blankModelTurn), .subscribe "t1"] = some l ∧
      l.stream.subscriptions.map (fun sub => sub.events.length) = [1] ∧
      ¬ ∃ sub ∈ l.stream.subscriptions,
        ∃ acc, onMessages runtimeNodeAccumulator sub.events = .ok acc := by
  refine ⟨blankModelTurn_wf, _, rfl, rfl, ?_⟩
  rintro ⟨sub, hsub, acc, hacc⟩
  cases List.mem_singleton.mp hsub
  have hrefused : onMessages runtimeNodeAccumulator [NodeFrame.toDict (.snapshot blankModelTurn)]
      = .error "Invalid Turn model" := rfl
  cases hrefused.symm.trans hacc

end MiniAgent.Events
