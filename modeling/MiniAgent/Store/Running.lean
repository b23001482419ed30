import MiniAgent.Lib.Matching
import MiniAgent.Lib.Run
import MiniAgent.Store.Effects
import MiniAgent.Turn.RoundTrip

/-!
# One running Turn per Thread

`runtime_threads.running_turn_id` and the status of the stored Turns say the same thing twice. They
agree when `slot`, the Turn a Thread runs, and `runsIn`, the Thread a stored Turn runs in, are
matched. Every operation either claims a Thread for a running Turn, releases the Thread of a sealed
one, or leaves both tables alone (`Rematch`).

The node write is an upsert. A Turn that is created under the id of a Turn that another Thread
runs takes it away from that Thread, which keeps the id for good: `Settles` excludes this, and an
update that moves or reopens a Turn.
-/

namespace MiniAgent.Store

open Lib Turn Tables

variable {host : Host} {s t u : Tables host} {node : ValidTurn host}

/-! ## The two tables -/

/-- The Thread that runs a stored Turn. -/
def Node.runs : Node host → Option String
  | .root _ _ => none
  | .turn t => if t.val.status = .running then some t.val.threadId else none

def Tables.runsIn (s : Tables host) (key : String × String) : Option String :=
  (s.nodes.lookup key).bind Node.runs

theorem runsIn_insert (h : t.nodes = s.nodes.insert node.val.key (.turn node)) :
    t.runsIn = Function.update s.runsIn node.val.key (Node.turn node).runs := by
  funext key
  rw [Tables.runsIn, h]
  by_cases hk : key = node.val.key
  · subst hk
    rw [AList.lookup_insert, Function.update_self]
    rfl
  · rw [AList.lookup_insert_ne hk, Function.update_of_ne hk]
    rfl

theorem runs_running (h : node.val.status = .running) :
    (Node.turn node).runs = some node.val.threadId := if_pos h

theorem runs_sealed (h : node.val.status ≠ .running) : (Node.turn node).runs = none := if_neg h

theorem runsIn_stored {old : ValidTurn host} {key : String × String}
    (h : s.nodes.lookup key = some (.turn old)) :
    s.runsIn key = (Node.turn old).runs := by
  rw [Tables.runsIn, h]
  rfl

/-- No other Thread than that of the Turn runs what is stored under its key. -/
def Here (s : Tables host) (node : RuntimeState) : Prop :=
  ∀ threadId, s.runsIn node.key = some threadId → threadId = node.threadId

structure Sound (s : Tables host) : Prop where
  named : Named s
  matched : Matched s.slot s.runsIn

namespace Sound

theorem named_insert (h : Named s) (ht : t.nodes = s.nodes.insert node.val.key (.turn node)) :
    Named t := by
  intro key found hfound
  rw [ht] at hfound
  by_cases hk : key = node.val.key
  · subst hk
    rw [AList.lookup_insert] at hfound
    cases hfound
    rfl
  · rw [AList.lookup_insert_ne hk] at hfound
    exact h key found hfound

theorem same (h : Sound s) (ht : Same s t) : Sound t := by
  refine ⟨fun key found hfound => h.named key found (by rw [← ht.nodes]; exact hfound), ?_⟩
  refine h.matched.rematch (.same ht.slot ?_)
  funext key
  rw [Tables.runsIn, ht.nodes, Tables.runsIn]

theorem claimed (h : Sound s) (hc : Claimed s t node) (hrunning : node.val.status = .running)
    (here : Here s node.val) : Sound t := by
  refine ⟨named_insert h.named hc.nodes, h.matched.rematch ?_⟩
  refine .take node.val.sessionId node.val.threadId node.val.id hc.free here hc.slot ?_
  rw [runsIn_insert hc.nodes, runs_running hrunning]
  rfl

theorem released (h : Sound s) (hr : Released s t node) (hsealed : node.val.status ≠ .running)
    (here : Here s node.val) : Sound t := by
  refine ⟨named_insert h.named hr.nodes, h.matched.rematch ?_⟩
  refine .leave node.val.sessionId node.val.threadId node.val.id here hr.slot ?_
  rw [runsIn_insert hr.nodes, runs_sealed hsealed]
  rfl

theorem kept (h : Sound s) (hk : Kept s t node)
    (hruns : s.runsIn node.val.key = (Node.turn node).runs) :
    Sound t := by
  refine ⟨named_insert h.named hk.nodes, h.matched.rematch (.same hk.slot ?_)⟩
  rw [runsIn_insert hk.nodes, ← hruns]
  exact Function.update_eq_self _ _

theorem batch {nodes : List (ValidTurn host)} (hb : Batch s nodes t) (h : Sound s) : Sound t := by
  induction hb with
  | nil hsame => exact h.same hsame
  | cons hsealed hfree hparent hput rest ih =>
    refine ih (h.released hput (bne_iff_ne.mp hsealed) ?_)
    intro threadId hruns
    rw [Tables.runsIn, hfree] at hruns
    cases hruns

end Sound

/-! ## The calls -/

/-- What a call that is given a Turn or an id must respect. -/
def Settles (s : Tables host) : StoreOp host → Prop
  | .createNode node | .createThreadTurnIfIdle node _ _ | .finalizeNode node => Here s node.val
  | .createAgentThread _ item => ∀ turn ∈ item.turn, turn.val.status = .running ∧ Here s turn.val
  | .createCompactTurn turnId _ newTurnId =>
    ∀ source : ValidTurn host, Stored s source → source.val.id = turnId →
      ∀ threadId, s.runsIn (source.val.sessionId, newTurnId) = some threadId →
        threadId = source.val.threadId
  | .updateNode node =>
    Here s node.val ∧ (node.val.status = .running → (s.runsIn node.val.key).isSome)
  | _ => True

theorem drop_ok {α : Type} {x : Method host α} (h : drop x s = (.ok (), t)) :
    ∃ a, x s = (.ok a, t) := by
  obtain ⟨a, _, hx, h⟩ := Call.bind_ok.mp h
  obtain ⟨-, rfl⟩ := Call.pure_ok.mp h
  exact ⟨a, hx⟩

/-- A Turn that takes the place of a stored Turn of its Thread. -/
theorem here_of_stored {old : ValidTurn host} (hs : Stored s old)
    (hkey : node.val.key = old.val.key) (hthread : node.val.threadId = old.val.threadId) :
    Here s node.val := by
  intro threadId hruns
  rw [hkey, runsIn_stored hs] at hruns
  by_cases hrunning : old.val.status = .running
  · rw [runs_running hrunning] at hruns
    cases hruns
    exact hthread.symm
  · rw [runs_sealed hrunning] at hruns
    cases hruns

namespace Sound

theorem ensureRootNode {sessionId id : String} {root : Node host} (h : Sound s)
    (hx : Store.ensureRootNode sessionId id s = (.ok root, t)) : Sound t := by
  obtain rfl | ⟨hempty, -, rfl⟩ := ensureRootNode_ok hx
  · exact h
  · have hnone : s.nodes.lookup (sessionId, id) = none := by
      rcases hfound : s.nodes.lookup (sessionId, id) with _ | found
      · rfl
      · have hmem : found ∈ s.loadNodes sessionId := by
          rw [Tables.loadNodes, List.mem_filter]
          refine ⟨List.mem_map.mpr ⟨⟨_, found⟩, AList.mem_lookup_iff.mp hfound, rfl⟩, ?_⟩
          rw [h.named _ _ hfound]
          exact decide_eq_true rfl
        rw [hempty] at hmem
        cases hmem
    refine ⟨fun key found hfound => ?_, h.matched.rematch (.same rfl ?_)⟩
    · by_cases hk : key = (sessionId, id)
      · subst hk
        rw [AList.lookup_insert] at hfound
        cases hfound
        rfl
      · rw [AList.lookup_insert_ne hk] at hfound
        exact h.named key found hfound
    · funext key
      by_cases hk : key = (sessionId, id)
      · subst hk
        simp [Tables.runsIn, hnone, Node.runs]
      · simp [Tables.runsIn, AList.lookup_insert_ne hk]

theorem createNode (h : Sound s) (here : Here s node.val)
    (hx : Store.createNode node s = (.ok (), t)) :
    Sound t := by
  obtain ⟨hrunning, -, -, hc⟩ := createNode_ok hx
  exact h.claimed hc hrunning here

theorem updateNode (h : Sound s) (here : Here s node.val)
    (hopen : node.val.status = .running → (s.runsIn node.val.key).isSome)
    (hx : Store.updateNode node s = (.ok (), t)) : Sound t := by
  obtain ⟨-, hkept, hreleased⟩ := updateNode_ok hx
  by_cases hrunning : node.val.status = .running
  · refine h.kept (hkept hrunning) ?_
    obtain ⟨threadId, hruns⟩ := Option.isSome_iff_exists.mp (hopen hrunning)
    rw [hruns, here threadId hruns, runs_running hrunning]
  · exact h.released (hreleased hrunning) hrunning here

theorem finalizeNode (h : Sound s) (here : Here s node.val)
    (hx : Store.finalizeNode node s = (.ok (), t)) :
    Sound t := by
  obtain ⟨-, hsealed, hr⟩ := finalizeNode_ok hx
  exact h.released hr hsealed here

theorem appendTurnVersion {now turnId : String} {item : Fields} {deliveryId : Option String}
    (h : Sound s) (hx : Store.appendTurnVersion now turnId item deliveryId s = (.ok node, t)) :
    Sound t := by
  obtain ⟨p, _, hr, hw⟩ := Call.bind_ok.mp hx
  obtain ⟨hstored, -, -, -, -, -, rfl⟩ := appendTurnVersionRead_ok h.named hr
  obtain ⟨old, hold, -, hval, hc⟩ := appendTurnVersionWrite_ok hw
  rw [hstored] at hold
  cases hold
  refine h.claimed hc ?_ (here_of_stored hstored ?_ ?_) <;> rw [hval] <;> rfl

theorem resumeTurnNode {turnId : String} (h : Sound s)
    (hx : Store.resumeTurnNode turnId s = (.ok node, t)) : Sound t := by
  obtain ⟨old, _, hr, hw⟩ := Call.bind_ok.mp hx
  obtain ⟨hstored, -, -, rfl⟩ := resumeTurnNodeRead_ok h.named hr
  obtain ⟨-, hval, hc⟩ := resumeTurnNodeWrite_ok hw
  refine h.claimed hc ?_ (here_of_stored hstored ?_ ?_) <;> rw [hval] <;> rfl

theorem pauseTurn {turnId : String} (h : Sound s) (hx : Store.pauseTurn turnId s = (.ok node, t)) :
    Sound t := by
  obtain ⟨new, _, hr, hw⟩ := Call.bind_ok.mp hx
  obtain ⟨old, hstored, -, -, -, hval, rfl⟩ := pauseTurnRead_ok h.named hr
  obtain ⟨_, _, hf, hp⟩ := Call.bind_ok.mp hw
  obtain ⟨rfl, rfl⟩ := Call.pure_ok.mp hp
  refine h.finalizeNode (here_of_stored hstored ?_ ?_) hf
  · rw [hval]; rfl
  · rw [hval]

theorem completePausedTurn {now turnId : String} (h : Sound s)
    (hx : Store.completePausedTurn now turnId s = (.ok node, t)) : Sound t := by
  obtain ⟨new, _, hr, hw⟩ := Call.bind_ok.mp hx
  obtain ⟨old, hstored, -, -, hval, rfl⟩ := completePausedTurnRead_ok h.named hr
  obtain ⟨rfl, hreleased⟩ := completePausedTurnWrite_ok hw
  refine h.released hreleased ?_ (here_of_stored hstored ?_ ?_)
  · rw [hval]
    exact fun hrunning => nomatch hrunning
  all_goals rw [hval]; rfl

theorem setTurnCurrentData {turnId : String} {i : Int} (h : Sound s)
    (hx : Store.setTurnCurrentData turnId i s = (.ok node, t)) : Sound t := by
  obtain ⟨new, _, hr, hw⟩ := Call.bind_ok.mp hx
  obtain ⟨old, hstored, -, hval, rfl⟩ := setTurnCurrentDataRead_ok h.named hr
  obtain ⟨_, _, hu, hp⟩ := Call.bind_ok.mp hw
  obtain ⟨rfl, rfl⟩ := Call.pure_ok.mp hp
  have hkey : new.val.key = old.val.key := by rw [hval]; rfl
  refine h.updateNode (here_of_stored hstored hkey ?_) (fun hrunning => ?_) hu
  · rw [hval]
  · have hold : old.val.status = .running := by rw [hval] at hrunning; exact hrunning
    rw [hkey, runsIn_stored hstored, runs_running hold]
    rfl

theorem createCompactTurn {now turnId summary newTurnId : String} (h : Sound s)
    (hok : Settles s (.createCompactTurn turnId summary newTurnId))
    (hx : Store.createCompactTurn now turnId summary newTurnId s = (.ok node, t)) : Sound t := by
  obtain ⟨source, hstored, hid, ⟨tree, -, hcompact⟩, hcreate⟩ := createCompactTurn_ok h.named hx
  obtain ⟨hkey, hthread, -⟩ := RuntimeStateTree.compact_ok hcompact
  refine h.createNode (fun threadId hruns => ?_) hcreate
  rw [hkey] at hruns
  rw [hthread]
  exact hok source hstored hid threadId hruns

/-- **Step.** A call that returns keeps the tables matched. -/
theorem perform {op : StoreOp host} {now : String} (h : Sound s) (hok : Settles s op)
    (hx : op.perform now s = (.ok (), t)) : Sound t := by
  cases op with
  | ensureRootNode sessionId id => obtain ⟨_, hx⟩ := drop_ok hx; exact h.ensureRootNode hx
  | createNode node => exact h.createNode hok hx
  | createFinalizedNodes nodes => exact batch (createFinalizedNodes_ok hx) h
  | createAgentThread sessionId item =>
    obtain ⟨turn, hturn, -, -, hc⟩ := createAgentThread_ok hx
    obtain ⟨hrunning, here⟩ := hok turn hturn
    exact h.claimed hc hrunning here
  | createThreadTurnIfIdle node head recipient =>
    obtain ⟨hrunning, -, hc⟩ := createThreadTurnIfIdle_ok hx
    exact h.claimed hc hrunning hok
  | appendTurnVersion turnId item deliveryId =>
    obtain ⟨_, hx⟩ := drop_ok hx; exact h.appendTurnVersion hx
  | resumeTurnNode turnId => obtain ⟨_, hx⟩ := drop_ok hx; exact h.resumeTurnNode hx
  | pauseTurn turnId => obtain ⟨_, hx⟩ := drop_ok hx; exact h.pauseTurn hx
  | completePausedTurn turnId => obtain ⟨_, hx⟩ := drop_ok hx; exact h.completePausedTurn hx
  | setTurnCurrentData turnId i => obtain ⟨_, hx⟩ := drop_ok hx; exact h.setTurnCurrentData hx
  | forkTurnNode turnId newTurnId threadId =>
    obtain ⟨_, hx⟩ := drop_ok hx
    obtain ⟨_, -, -, -, -, hb⟩ := forkTurnNode_ok h.named hx
    exact batch hb h
  | createCompactTurn turnId summary newTurnId =>
    obtain ⟨_, hx⟩ := drop_ok hx
    exact h.createCompactTurn hok hx
  | finalizeNode node => exact h.finalizeNode hok hx
  | updateNode node => exact h.updateNode hok.1 hok.2 hx

end Sound

/-! ## Calls that raise -/

open Call

theorem steady_check (c : Bool) (text : String) : Steady (check c text : Method host Unit) :=
  steady_ofExcept _

theorem steady_findTurn (turnId : String) :
    Steady (findTurn turnId : Method host (ValidTurn host)) := by
  refine Steady.bind (Steady.bind (steady_read _) fun s => ?_) fun found => ?_
  · rcases s.sessions.filterMap fun sessionId =>
      s.nodes.lookup (sessionId, turnId) with _ | ⟨_, _ | _⟩
    · exact steady_pure _
    · exact steady_pure _
    · exact steady_raise _
  · rcases found with _ | ⟨_, _⟩ | turn
    · exact steady_raise _
    · exact steady_raise _
    · exact steady_pure _

/-- Reads of a Turn, a check of it and a computation. -/
theorem steady_reads {α : Type} (turnId : String) (c : ValidTurn host → Bool) (text : String)
    (f : ValidTurn host → Except Err α) : Steady (do
      let node ← findTurn turnId
      check (c node) text
      Call.ofExcept (f node) : Method host α) :=
  (steady_findTurn turnId).bind fun _ => (steady_check _ _).bind fun _ => steady_ofExcept _

theorem atomic_createNode (node : ValidTurn host) : Atomic (createNode node) := by
  refine Atomic.after ?_ fun _ => atomic_transaction _
  refine (steady_check _ _).bind fun _ => (steady_check _ _).bind fun _ =>
    (steady_read _).bind fun parent => ?_
  rcases parent with _ | parent
  · exact steady_raise _
  · exact (steady_check _ _).bind fun _ => (steady_check _ _).bind fun _ => steady_pure _

theorem atomic_createFinalizedNodes (nodes : List (ValidTurn host)) :
    Atomic (createFinalizedNodes nodes) := by
  rcases nodes with _ | ⟨first, rest⟩
  · exact (steady_pure _).atomic
  · exact Atomic.after (steady_check _ _) fun _ => atomic_transaction _

/-- A tree of the Session is read, and a Turn is copied in it. -/
theorem atomic_copy (turnId : String) (c : ValidTurn host → Bool) (text : String)
    (copy : RuntimeStateTree host → ValidTurn host → Except Err (ValidTurn host))
    (store : ValidTurn host → Method host Unit) (hstore : ∀ t, Atomic (store t)) : Atomic (do
      let source ← findTurn turnId
      check (c source) text
      let s ← Call.read fun s => s
      let tree ← Call.ofExcept (RuntimeStateTree.ofNodes (s.loadNodes source.val.sessionId))
      let new ← Call.ofExcept (copy tree source)
      store new
      pure new : Method host (ValidTurn host)) := by
  refine Atomic.after (steady_findTurn turnId) fun source =>
    Atomic.after (steady_check _ _) fun _ => ?_
  refine Atomic.after (steady_read _) fun s => Atomic.after (steady_ofExcept _) fun tree => ?_
  exact Atomic.after (steady_ofExcept _) fun new => (hstore new).then_pure fun _ => new

theorem atomic_perform (now : String) (op : StoreOp host) : Atomic (op.perform now) := by
  cases op with
  | ensureRootNode sessionId id => exact (atomic_transaction _).then_pure fun _ => ()
  | createNode node => exact atomic_createNode node
  | createFinalizedNodes nodes => exact atomic_createFinalizedNodes nodes
  | createAgentThread sessionId item =>
    exact Atomic.after (steady_check _ _) fun _ => atomic_transaction _
  | createThreadTurnIfIdle node head recipient =>
    exact Atomic.after (steady_check _ _) fun _ => atomic_transaction _
  | appendTurnVersion turnId item deliveryId =>
    refine (Atomic.after ?_ fun _ => atomic_transaction _).then_pure fun _ => ()
    refine (steady_findTurn turnId).bind fun _ => (steady_check _ _).bind fun _ => ?_
    exact (steady_ofExcept _).bind fun _ => (steady_ofExcept _).bind fun _ => steady_pure _
  | resumeTurnNode turnId =>
    refine (Atomic.after ?_ fun _ => atomic_transaction _).then_pure fun _ => ()
    exact (steady_findTurn turnId).bind fun _ => (steady_check _ _).bind fun _ => steady_pure _
  | pauseTurn turnId =>
    refine (Atomic.after (steady_reads turnId _ _ _) fun t => ?_).then_pure fun _ => ()
    exact (atomic_transaction _).then_pure fun _ => t
  | completePausedTurn turnId =>
    exact (Atomic.after (steady_reads turnId _ _ _) fun _ => atomic_transaction _).then_pure
      fun _ => ()
  | setTurnCurrentData turnId i =>
    refine (Atomic.after ?_ fun t => (atomic_transaction _).then_pure fun _ => t).then_pure
      fun _ => ()
    exact (steady_findTurn turnId).bind fun _ => (steady_ofExcept _).bind fun _ => steady_ofExcept _
  | forkTurnNode turnId newTurnId threadId =>
    exact (atomic_copy turnId _ _ (fun tree source => tree.fork source newTurnId threadId now) _
      fun new => atomic_createFinalizedNodes [new]).then_pure fun _ => ()
  | createCompactTurn turnId summary newTurnId =>
    exact (atomic_copy turnId _ _ (fun tree source => tree.compact source summary newTurnId now) _
      fun new => atomic_createNode new).then_pure fun _ => ()
  | finalizeNode node => exact atomic_transaction _
  | updateNode node => exact atomic_transaction _

/-! ## Runs -/

/-- A call with the time it is made at; a call that raises changes what `perform` says. -/
def Tables.step (s : Tables host) (call : StoreOp host × String) : Option (Tables host) :=
  some (call.1.perform call.2 s).2

/-- The stored Turns of a Thread that run. -/
def Tables.runningTurns (s : Tables host) (sessionId threadId : String) : List RuntimeState :=
  ((s.loadNodes sessionId).filterMap Node.turn?).filter fun t => t.threadId = threadId ∧
    t.status = .running

/-- A Thread has at most one running Turn, and `running_turn_id` is its id. -/
structure OneRunning (s : Tables host) : Prop where
  atMostOne : ∀ sessionId threadId, ∀ t ∈ s.runningTurns sessionId threadId,
    ∀ u ∈ s.runningTurns sessionId threadId, t = u
  running : ∀ sessionId threadId, ∀ t ∈ s.runningTurns sessionId threadId,
    s.slot (sessionId, threadId) = some t.id
  idle : ∀ sessionId threadId, s.runningTurns sessionId threadId = [] →
    s.slot (sessionId, threadId) = none

theorem mem_loadNodes (h : Named s) {sessionId : String} {found : Node host} :
    found ∈ s.loadNodes sessionId ↔ ∃ id, s.nodes.lookup (sessionId, id) = some found := by
  rw [Tables.loadNodes, List.mem_filter, List.mem_map]
  constructor
  · rintro ⟨⟨⟨key, node⟩, hmem, rfl⟩, hkey⟩
    have hlookup : s.nodes.lookup key = some node := AList.mem_lookup_iff.mpr hmem
    have hsession : key.1 = sessionId := by
      rw [← h key node hlookup]
      exact of_decide_eq_true hkey
    refine ⟨key.2, ?_⟩
    rw [← hsession]
    exact hlookup
  · rintro ⟨id, hlookup⟩
    refine ⟨⟨⟨_, found⟩, AList.mem_lookup_iff.mp hlookup, rfl⟩, ?_⟩
    rw [h _ _ hlookup]
    exact decide_eq_true rfl

theorem mem_runningTurns (h : Named s) {sessionId threadId : String} {r : RuntimeState} :
    r ∈ s.runningTurns sessionId threadId ↔ ∃ node : ValidTurn host, node.val = r ∧
      s.nodes.lookup (sessionId, r.id) = some (.turn node) ∧ r.threadId = threadId ∧
      r.status = .running := by
  rw [Tables.runningTurns, List.mem_filter, List.mem_filterMap]
  constructor
  · rintro ⟨⟨found, hmem, hturn⟩, hr⟩
    obtain ⟨id, hlookup⟩ := (mem_loadNodes h).mp hmem
    rcases found with ⟨_, _⟩ | node
    · cases hturn
    · cases hturn
      have hid : node.val.id = id := congrArg Prod.snd (h _ _ hlookup)
      obtain ⟨hthread, hstatus⟩ := of_decide_eq_true hr
      exact ⟨node, rfl, by rw [hid]; exact hlookup, hthread, hstatus⟩
  · rintro ⟨node, rfl, hlookup, hthread, hstatus⟩
    exact ⟨⟨_, (mem_loadNodes h).mpr ⟨_, hlookup⟩, rfl⟩, decide_eq_true ⟨hthread, hstatus⟩⟩

theorem Sound.slot_of_running (h : Sound s) {sessionId threadId : String} {r : RuntimeState}
    (hr : r ∈ s.runningTurns sessionId threadId) : s.slot (sessionId, threadId) = some r.id := by
  obtain ⟨node, rfl, hlookup, rfl, hstatus⟩ := (mem_runningTurns h.named).mp hr
  rw [h.matched, runsIn_stored hlookup]
  exact runs_running hstatus

theorem Sound.oneRunning (h : Sound s) : OneRunning s where
  atMostOne sessionId threadId r hr r' hr' := by
    have hid : r.id = r'.id :=
      Option.some.inj ((h.slot_of_running hr).symm.trans (h.slot_of_running hr'))
    obtain ⟨node, rfl, hlookup, -⟩ := (mem_runningTurns h.named).mp hr
    obtain ⟨node', rfl, hlookup', -⟩ := (mem_runningTurns h.named).mp hr'
    rw [← hid, hlookup] at hlookup'
    cases hlookup'
    rfl
  running sessionId threadId r hr := h.slot_of_running hr
  idle sessionId threadId hnil := by
    rcases hslot : s.slot (sessionId, threadId) with _ | id
    · rfl
    · have hruns := (h.matched sessionId threadId id).mp hslot
      obtain ⟨found, hlookup, hfound⟩ := Option.bind_eq_some_iff.mp hruns
      rcases found with ⟨_, _⟩ | node
      · cases hfound
      · have hid : node.val.id = id := congrArg Prod.snd (h.named _ _ hlookup)
        by_cases hrunning : node.val.status = .running
        · rw [runs_running hrunning] at hfound
          have hmem : node.val ∈ s.runningTurns sessionId threadId :=
            (mem_runningTurns h.named).mpr ⟨node, rfl, by rw [hid]; exact hlookup,
              Option.some.inj hfound, hrunning⟩
          rw [hnil] at hmem
          cases hmem
        · rw [runs_sealed hrunning] at hfound
          cases hfound

theorem slot_new (sessions : List String) (key : String × String) :
    (Tables.new host sessions).slot key = none := by
  have hrow : ∀ row, (Tables.new host sessions).threads.lookup key = some row →
      row.runningTurnId = none := by
    simp only [Tables.new]
    induction sessions with
    | nil => intro row hrow; simp at hrow
    | cons sessionId sessions ih =>
      intro row hrow
      rw [List.foldr_cons] at hrow
      by_cases hk : key = (sessionId, sessionId)
      · subst hk
        rw [AList.lookup_insert] at hrow
        cases hrow
        rfl
      · rw [AList.lookup_insert_ne hk] at hrow
        exact ih row hrow
  rw [Tables.slot]
  rcases h : (Tables.new host sessions).threads.lookup key with _ | row
  · rfl
  · exact hrow row h

theorem sound_new (sessions : List String) : Sound (Tables.new host sessions) := by
  refine ⟨fun key found hfound => ?_, fun sessionId threadId id => ?_⟩
  · rw [Tables.new, AList.lookup_empty] at hfound
    cases hfound
  · rw [slot_new, Tables.runsIn, Tables.new, AList.lookup_empty]
    exact ⟨fun h => (nomatch h), fun h => (nomatch h)⟩

/-- In every run whose calls settle, a Thread has at most one running Turn, `running_turn_id` says
which, and a call that raises leaves the store as it was. -/
theorem one_running_turn (sessions : List String) (calls : List (StoreOp host × String))
    (s : Tables host)
    (hok : Meets Tables.step (fun s call => Settles s call.1) (Tables.new host sessions) calls)
    (hrun : run Tables.step (Tables.new host sessions) calls = some s) :
    OneRunning s ∧ ∀ (op : StoreOp host) (now : String) (e : Err) (t : Tables host),
      op.perform now s = (.error e, t) → t = s := by
  refine ⟨?_, fun op now e t => atomic_perform now op s e t⟩
  refine Sound.oneRunning (run_invariant (fun s call t h hcall hstep => ?_)
    (sound_new sessions) hok hrun)
  obtain ⟨op, now⟩ := call
  cases hstep
  rcases hx : op.perform now s with ⟨e | ⟨⟩, t⟩
  · rw [atomic_perform now op s e t hx]
    exact h
  · exact h.perform hcall hx

/-! ## A Turn in two Threads -/

open Browser (sampleHost sampleTurn sampleTurn_wf)

/-- A Turn of the sample Session, under a node of its main Thread. -/
def sampleNode (id threadId parentId : String) (status : NodeStatus) : RuntimeState :=
  { sampleTurn "a" "success" with
    id, threadId, status
    parentThreadId := "s1"
    parentSessionId := "s1"
    parentId
    compactionId := id }

theorem sampleNode_wf {id threadId parentId : String} (status : NodeStatus) (hid : id ≠ "")
    (hthread : threadId ≠ "") (hparent : parentId ≠ "") :
    (sampleNode id threadId parentId status).Wf sampleHost :=
  { sampleTurn_wf "a" .success with
    threadId := hthread
    id := hid
    parents := by simp [sampleNode, hparent]
    mainRoot := fun h => absurd h hparent
    forkRoot := fun h => absurd h hparent
    compactionId := hid
    ends := fun _ => rfl
    settled := fun _ => rfl }

def sampleValid (id threadId parentId : String) (status : NodeStatus)
    (h : id ≠ "" ∧ threadId ≠ "" ∧ parentId ≠ "" := by decide) : ValidTurn sampleHost :=
  ⟨sampleNode id threadId parentId status, sampleNode_wf status h.1 h.2.1 h.2.2⟩

theorem sample_names : "t1" ≠ "" ∧ "s1" ≠ "" ∧ "r" ≠ "" := by decide

def sampleNow : String := "2026-01-01T00:00:00+00:00"

/-- A Session with a root and one running Turn. -/
def sampleCalls : List (StoreOp sampleHost × String) :=
  [(.ensureRootNode "s1" "r", sampleNow),
    (.createNode (sampleValid "t1" "s1" "r" .running), sampleNow)]

theorem one_running_turn_sample :
    ∃ s, run Tables.step (Tables.new sampleHost ["s1"]) sampleCalls = some s ∧
    OneRunning s ∧ s.slot ("s1", "s1") = some "t1" ∧ (s.runningTurns "s1" "s1").length = 1 := by
  have hok : Meets Tables.step (fun s call => Settles s call.1)
      (Tables.new sampleHost ["s1"]) sampleCalls := by
    refine ⟨trivial, fun s hs => ⟨fun threadId hruns => ?_, fun _ _ => trivial⟩⟩
    cases hs
    have hnone : Tables.runsIn ((StoreOp.ensureRootNode "s1" "r").perform sampleNow
        (Tables.new sampleHost ["s1"])).2 ("s1", "t1") = none := by decide +kernel
    exact nomatch hnone.symm.trans hruns
  refine ⟨_, rfl, (one_running_turn ["s1"] sampleCalls _ hok rfl).1, ?_⟩
  decide +kernel

/-- A Turn is created under the id of a running Turn, in another Thread: its old Thread stays
taken. -/
theorem thread_stays_taken : ∃ s, run Tables.step (Tables.new sampleHost ["s1"])
      (sampleCalls ++ [(.createNode (sampleValid "t1" "f1" "r" .running), sampleNow)]) = some s ∧
    s.runningTurns "s1" "s1" = [] ∧ s.slot ("s1", "s1") = some "t1" ∧ ¬ OneRunning s := by
  have hs : (fun s : Tables sampleHost => (s.runningTurns "s1" "s1").length = 0 ∧
      s.slot ("s1", "s1") = some "t1")
      (((StoreOp.createNode (sampleValid "t1" "f1" "r" .running)).perform sampleNow
        ((StoreOp.createNode (sampleValid "t1" "s1" "r" .running)).perform sampleNow
          ((StoreOp.ensureRootNode "s1" "r").perform sampleNow
            (Tables.new sampleHost ["s1"])).2).2).2) := by
    decide +kernel
  refine ⟨_, rfl, List.length_eq_zero_iff.mp hs.1, hs.2, fun h => ?_⟩
  exact nomatch (h.idle "s1" "s1" (List.length_eq_zero_iff.mp hs.1)).symm.trans hs.2

end MiniAgent.Store
