import MiniAgent.Lib.Optimistic
import MiniAgent.Store.Reports
import MiniAgent.Store.Running

/-!
# Clients that change one Turn

Five operations read a Turn in one transaction and write it in a later one. Clients that run them
next to `finalize_node`, `update_node` and `append_agent_report` take these steps in any order
(`Lib.Optimistic`).

`append_turn_version` reads the Turn again when it writes, and `finalize_node` refuses a sealed
Turn. `set_turn_current_data`, `settle_indeterminate_tool_calls` and `resume_turn_node` write what
they have read before: what another client has stored since then is lost. `Current` is the condition
under which each write is made on the Turn it was meant for; then the store is that of the
successful operations, run one after the other.
-/

namespace MiniAgent.Store

open Lib Turn Tables Call

variable {host : Host} {s t u : Tables host} {node : ValidTurn host}

inductive ClientOp (host : Host) where
  | setTurnCurrentData (turnId : String) (currentDataIdx : Int)
  | pauseTurn (turnId : String)
  | resumeTurnNode (turnId : String)
  | settleIndeterminateToolCalls (turnId : String)
  | appendTurnVersion (now turnId : String) (item : Fields) (deliveryId : Option String)
  | finalizeNode (node : ValidTurn host)
  | updateNode (node : ValidTurn host)
  | appendAgentReport (sessionId recipientThreadId deliveryId replyContent : String)

namespace ClientOp

/-- The operation as a whole. -/
def perform : ClientOp host → Method host Unit
  | .setTurnCurrentData turnId i => drop (Store.setTurnCurrentData turnId i)
  | .pauseTurn turnId => drop (Store.pauseTurn turnId)
  | .resumeTurnNode turnId => drop (Store.resumeTurnNode turnId)
  | .settleIndeterminateToolCalls turnId => drop (Store.settleIndeterminateToolCalls turnId)
  | .appendTurnVersion now turnId item deliveryId =>
    drop (Store.appendTurnVersion now turnId item deliveryId)
  | .finalizeNode node => Store.finalizeNode node
  | .updateNode node => Store.updateNode node
  | .appendAgentReport sessionId threadId deliveryId content =>
    drop (Store.appendAgentReport sessionId threadId deliveryId content)

/-- The read step; it returns the write step, where there is one. -/
def read : ClientOp host → Method host (Option (Method host Unit))
  | .setTurnCurrentData turnId i => do
    let t ← setTurnCurrentDataRead turnId i
    pure (some (drop (updateNodeWrite t)))
  | .pauseTurn turnId => do
    let t ← pauseTurnRead turnId
    pure (some (drop (finalizeNodeWrite t)))
  | .resumeTurnNode turnId => do
    let node ← resumeTurnNodeRead turnId
    pure (some (drop (resumeTurnNodeWrite node)))
  | .settleIndeterminateToolCalls turnId => do
    let p ← settleIndeterminateToolCallsRead turnId
    pure (p.2.map fun t => drop (updateNodeWrite t))
  | .appendTurnVersion now turnId item deliveryId => do
    let p ← appendTurnVersionRead turnId item deliveryId
    pure (some (drop (appendTurnVersionWrite now turnId p)))
  | .finalizeNode node => pure (some (Store.finalizeNode node))
  | .updateNode node => pure (some (Store.updateNode node))
  | .appendAgentReport sessionId threadId deliveryId content =>
    pure (some (drop (Store.appendAgentReport sessionId threadId deliveryId content)))

/-- The Turn that the read step has found. -/
def see : ClientOp host → Tables host → Except Err (ValidTurn host)
  | .setTurnCurrentData turnId _, s | .pauseTurn turnId, s | .resumeTurnNode turnId, s
  | .settleIndeterminateToolCalls turnId, s | .appendTurnVersion _ turnId _ _, s =>
    (findTurn turnId s).1
  | .finalizeNode node, _ | .updateNode node, _ => .ok node
  | .appendAgentReport _ _ deliveryId _, _ => .error (.keyError deliveryId)

/-- Read and write are the whole operation. -/
theorem whole_read (o : ClientOp host) : Optimistic.whole read o = o.perform := by
  have hsplit : ∀ {α β : Type} (x : Method host α) (f : α → Method host β),
      ((x >>= fun a => pure (some (drop (f a)))) >>= Optimistic.finish) = drop (x >>= f) := by
    intro α β x f
    simp only [drop, bind_assoc, pure_bind, Optimistic.finish]
  cases o with
  | setTurnCurrentData turnId i => exact hsplit _ _
  | pauseTurn turnId => exact hsplit _ _
  | resumeTurnNode turnId => exact hsplit _ _
  | settleIndeterminateToolCalls turnId =>
    simp only [Optimistic.whole, read, perform, Store.settleIndeterminateToolCalls,
      drop, bind_assoc, pure_bind]
    congr 1
    funext p
    obtain ⟨old, _ | t⟩ := p <;> rfl
  | appendTurnVersion now turnId item deliveryId => exact hsplit _ _
  | finalizeNode node => rfl
  | updateNode node => rfl
  | appendAgentReport sessionId threadId deliveryId content => rfl

/-! ## Reads -/

theorem blind_check (c : Bool) (text : String) : Blind (check c text : Method host Unit) :=
  blind_ofExcept _

/-- An operation that finds a Turn first and computes then. -/
def Finds (o : ClientOp host) (turnId : String) : Prop :=
  ∃ f : ValidTurn host → Method host (Option (Method host Unit)), (∀ a, Blind (f a)) ∧
    o.read = findTurn turnId >>= f

theorem finds_setTurnCurrentData (turnId : String) (i : Int) :
    Finds (.setTurnCurrentData turnId i : ClientOp host) turnId := by
  refine ⟨_, fun node => ?_, by simp only [read, setTurnCurrentDataRead, bind_assoc]; rfl⟩
  exact (blind_ofExcept _).bind fun _ => (blind_ofExcept _).bind fun _ => blind_pure _

theorem finds_pauseTurn (turnId : String) : Finds (.pauseTurn turnId : ClientOp host) turnId := by
  refine ⟨_, fun node => ?_, by simp only [read, pauseTurnRead, bind_assoc]; rfl⟩
  exact (blind_check _ _).bind fun _ => (blind_ofExcept _).bind fun _ => blind_pure _

theorem finds_resumeTurnNode (turnId : String) :
    Finds (.resumeTurnNode turnId : ClientOp host) turnId := by
  refine ⟨_, fun node => ?_, by simp only [read, resumeTurnNodeRead, bind_assoc]; rfl⟩
  exact (blind_check _ _).bind fun _ => (blind_pure _).bind fun _ => blind_pure _

theorem finds_settle (turnId : String) :
    Finds (.settleIndeterminateToolCalls turnId : ClientOp host) turnId := by
  refine ⟨_, fun node => ?_, by simp only [read, settleIndeterminateToolCallsRead, bind_assoc]; rfl⟩
  rcases settledVersion (node.val.data.getD node.val.currentDataIdx []) with _ | version
  · exact (blind_pure _).bind fun _ => blind_pure _
  · exact ((blind_ofExcept _).bind fun _ => blind_pure _).bind fun _ => blind_pure _

theorem finds_appendTurnVersion (now turnId : String) (item : Fields) (deliveryId : Option String) :
    Finds (.appendTurnVersion now turnId item deliveryId : ClientOp host) turnId := by
  refine ⟨_, fun node => ?_, by simp only [read, appendTurnVersionRead, bind_assoc]; rfl⟩
  exact (blind_check _ _).bind fun _ => (blind_ofExcept _).bind fun _ =>
    (blind_ofExcept _).bind fun _ =>
    (blind_pure _).bind fun _ => blind_pure _

theorem Finds.steady {o : ClientOp host} {turnId : String} (h : o.Finds turnId) :
    Steady o.read := by
  obtain ⟨f, hf, hread⟩ := h
  rw [hread]
  refine (steady_findTurn turnId).bind fun node s => ?_
  obtain ⟨r, hr⟩ := hf node
  rw [hr]

theorem Finds.again {o : ClientOp host} {turnId : String} {w : Option (Method host Unit)}
    (h : o.Finds turnId)
    (hs : o.read s = (.ok w, s)) (hst : (findTurn turnId t).1 = (findTurn turnId s).1) :
    o.read t = (.ok w, t) := by
  obtain ⟨f, hf, hread⟩ := h
  rw [hread] at hs ⊢
  rw [(steady_findTurn turnId).again hf hst, hs]

theorem steady_read (o : ClientOp host) : Steady o.read := by
  cases o with
  | setTurnCurrentData turnId i => exact (finds_setTurnCurrentData turnId i).steady
  | pauseTurn turnId => exact (finds_pauseTurn turnId).steady
  | resumeTurnNode turnId => exact (finds_resumeTurnNode turnId).steady
  | settleIndeterminateToolCalls turnId => exact (finds_settle turnId).steady
  | appendTurnVersion now turnId item deliveryId =>
    exact (finds_appendTurnVersion now turnId item deliveryId).steady
  | finalizeNode node => exact steady_pure _
  | updateNode node => exact steady_pure _
  | appendAgentReport sessionId threadId deliveryId content => exact steady_pure _

end ClientOp

/-! ## Stores -/

/-- A Turn was stored, or nothing. -/
def Puts (s t : Tables host) : Prop :=
  s = t ∨ ∃ node : ValidTurn host, t.sessions = s.sessions ∧
    t.nodes = s.nodes.insert node.val.key (.turn node)

theorem Puts.named (h : Puts s t) (hn : Named s) : Named t := by
  obtain rfl | ⟨node, -, hnodes⟩ := h
  · exact hn
  · exact Sound.named_insert hn hnodes

theorem Puts.sessions (h : Puts s t) : t.sessions = s.sessions := by
  obtain rfl | ⟨node, hsessions, -⟩ := h
  · rfl
  · exact hsessions

theorem puts_updateNode (h : updateNode node s = (.ok (), t)) : Puts s t := by
  obtain ⟨-, hkept, hreleased⟩ := updateNode_ok h
  by_cases hrunning : node.val.status = .running
  · exact .inr ⟨node, (hkept hrunning).sessions, (hkept hrunning).nodes⟩
  · exact .inr ⟨node, (hreleased hrunning).sessions, (hreleased hrunning).nodes⟩

theorem puts_finalizeNode (h : finalizeNode node s = (.ok (), t)) : Puts s t := by
  obtain ⟨-, -, hreleased⟩ := finalizeNode_ok h
  exact .inr ⟨node, hreleased.sessions, hreleased.nodes⟩

/-- `append_agent_report`: the report is there already, or comes to the current Turn of its
Thread. -/
theorem appendAgentReport_ok {sessionId threadId deliveryId content : String}
    (h : appendAgentReport sessionId threadId deliveryId content s = (.ok node, t)) :
    ∃ (turnId : String) (old : ValidTurn host),
      (s.threads.lookup (sessionId, threadId)).bind RuntimeThread.currentTurnId = some turnId ∧
      s.nodes.lookup (sessionId, turnId) = some (.turn old) ∧
      ((hasReport old.val deliveryId = true ∧ node = old ∧ s = t) ∨
        (hasReport old.val deliveryId = false ∧
          node.val = { withReport old.val deliveryId content with data := node.val.data } ∧
          rebuild host (withReport old.val deliveryId content) = .ok node ∧
          t = { s with nodes := s.nodes.insert node.val.key (.turn node) })) := by
  obtain ⟨_, _, hr, h⟩ := Call.bind_ok.mp (Call.transaction_ok.mp h)
  obtain ⟨rfl, rfl⟩ := Call.read_ok.mp hr
  rcases hcurrent : (s.threads.lookup (sessionId, threadId)).bind
    RuntimeThread.currentTurnId with _ | turnId
  · simp [hcurrent] at h
  simp only [hcurrent] at h
  rcases hfound : s.nodes.lookup (sessionId, turnId) with _ | payload
  · simp [hfound] at h
  simp only [hfound] at h
  obtain ⟨old, _, ha, hrest⟩ := Call.bind_ok.mp h
  obtain ⟨hold, rfl⟩ := Call.ofExcept_ok.mp ha
  obtain rfl := asTurn_ok hold
  clear h
  rename' hrest => h
  refine ⟨turnId, old, rfl, hfound, ?_⟩
  split at h
  · next hdup =>
    obtain ⟨rfl, rfl⟩ := Call.pure_ok.mp h
    exact .inl ⟨hdup, rfl, rfl⟩
  · next hnew =>
    obtain ⟨new, _, hb, h⟩ := Call.bind_ok.mp h
    obtain ⟨hbuilt, rfl⟩ := Call.ofExcept_ok.mp hb
    obtain ⟨_, _, hput, h⟩ := Call.bind_ok.mp h
    obtain ⟨_, _, htouch, h⟩ := Call.bind_ok.mp h
    obtain rfl := touchSession_ok htouch
    obtain ⟨rfl, rfl⟩ := Call.pure_ok.mp h
    have hval := rebuild_ok hbuilt old old.property.compactionId rfl rfl rfl
    exact .inr ⟨Bool.not_eq_true _ ▸ hnew, hval, hbuilt, putTurn_ok hput⟩

namespace ClientOp

theorem puts (hn : Named s) (o : ClientOp host) (h : o.perform s = (.ok (), t)) : Puts s t := by
  cases o with
  | setTurnCurrentData turnId i =>
    obtain ⟨_, h⟩ := drop_ok h
    obtain ⟨new, _, hr, hw⟩ := Call.bind_ok.mp h
    obtain ⟨-, -, -, -, rfl⟩ := setTurnCurrentDataRead_ok hn hr
    obtain ⟨_, _, hu, hp⟩ := Call.bind_ok.mp hw
    obtain ⟨-, rfl⟩ := Call.pure_ok.mp hp
    exact puts_updateNode hu
  | pauseTurn turnId =>
    obtain ⟨_, h⟩ := drop_ok h
    obtain ⟨new, _, hr, hw⟩ := Call.bind_ok.mp h
    obtain ⟨-, -, -, -, -, -, rfl⟩ := pauseTurnRead_ok hn hr
    obtain ⟨_, _, hu, hp⟩ := Call.bind_ok.mp hw
    obtain ⟨-, rfl⟩ := Call.pure_ok.mp hp
    exact puts_finalizeNode hu
  | resumeTurnNode turnId =>
    obtain ⟨new, h⟩ := drop_ok h
    obtain ⟨_, _, hr, hw⟩ := Call.bind_ok.mp h
    obtain ⟨-, -, -, rfl⟩ := resumeTurnNodeRead_ok hn hr
    obtain ⟨-, -, hc⟩ := resumeTurnNodeWrite_ok hw
    exact .inr ⟨new, hc.sessions, hc.nodes⟩
  | settleIndeterminateToolCalls turnId =>
    obtain ⟨_, h⟩ := drop_ok h
    obtain ⟨p, u, hr, hw⟩ := Call.bind_ok.mp h
    have hsame : s = u := by
      obtain ⟨node, _, hf, hr⟩ := Call.bind_ok.mp hr
      obtain ⟨-, -, -, rfl⟩ := findTurn_ok hn hf
      rcases hv : settledVersion (node.val.data.getD node.val.currentDataIdx []) with _ | version
      · simp only [hv] at hr
        exact (Call.pure_ok.mp hr).2
      · simp only [hv] at hr
        obtain ⟨_, _, hb, hr⟩ := Call.bind_ok.mp hr
        obtain ⟨-, rfl⟩ := Call.ofExcept_ok.mp hb
        exact (Call.pure_ok.mp hr).2
    subst hsame
    obtain ⟨old, _ | new⟩ := p
    · obtain ⟨-, rfl⟩ := Call.pure_ok.mp hw
      exact .inl rfl
    · obtain ⟨_, _, hu, hp⟩ := Call.bind_ok.mp hw
      obtain ⟨-, rfl⟩ := Call.pure_ok.mp hp
      exact puts_updateNode hu
  | appendTurnVersion now turnId item deliveryId =>
    obtain ⟨new, h⟩ := drop_ok h
    obtain ⟨_, _, hr, hw⟩ := Call.bind_ok.mp h
    obtain ⟨-, -, -, -, -, -, rfl⟩ := appendTurnVersionRead_ok hn hr
    obtain ⟨-, -, -, -, hc⟩ := appendTurnVersionWrite_ok hw
    exact .inr ⟨new, hc.sessions, hc.nodes⟩
  | finalizeNode node => exact puts_finalizeNode h
  | updateNode node => exact puts_updateNode h
  | appendAgentReport sessionId threadId deliveryId content =>
    obtain ⟨new, h⟩ := drop_ok h
    obtain ⟨-, -, -, -, ⟨-, -, rfl⟩ | ⟨-, -, -, rfl⟩⟩ := appendAgentReport_ok h
    · exact .inl rfl
    · exact .inr ⟨new, rfl, rfl⟩

/-! ## Writes -/

/-- **The condition on a write.** The Turn that is found now is the one the operation has read; what
is checked again in the transaction may have changed. -/
def Current (s : Tables host) (o : ClientOp host) (seen : Except Err (ValidTurn host)) : Prop :=
  match o with
  | .setTurnCurrentData turnId _ | .settleIndeterminateToolCalls turnId =>
    (findTurn turnId s).1 = seen
  | .pauseTurn turnId => (findTurn turnId s).1 = seen ∨
      ∃ now, (findTurn turnId s).1 = .ok now ∧ now.val.status ≠ .running
  | .resumeTurnNode turnId => (findTurn turnId s).1 = seen ∨
      ∃ old id, seen = .ok old ∧ s.slot (old.val.sessionId, old.val.threadId) = some id ∧
        id ≠ turnId
  | .appendTurnVersion _ turnId _ _ =>
    ∃ now, (findTurn turnId s).1 = .ok now ∧ now.val.status ≠ .running
  | _ => True

/-- Turns that are found are alone under their id. -/
theorem findTurn_unique {turnId sessionId : String} {found : Node host}
    (h : (findTurn turnId s).1 = .ok node) (hs : sessionId ∈ s.sessions)
    (hl : s.nodes.lookup (sessionId, turnId) = some found) :
    found = .turn node := by
  have h' : findTurn turnId s = (.ok node, s) := Prod.ext h (steady_findTurn turnId s)
  obtain ⟨other, u, hf, hrequire⟩ := Call.bind_ok.mp h'
  obtain ⟨_, _, hr, hf⟩ := Call.bind_ok.mp hf
  obtain ⟨rfl, rfl⟩ := Call.read_ok.mp hr
  have hmem : found ∈ s.sessions.filterMap fun sessionId => s.nodes.lookup (sessionId, turnId) :=
    List.mem_filterMap.mpr ⟨sessionId, hs, hl⟩
  rcases hall : s.sessions.filterMap fun sessionId => s.nodes.lookup (sessionId, turnId) with
    _ | ⟨first, _ | ⟨second, rest⟩⟩
  · rw [hall] at hmem
    cases hmem
  · rw [hall] at hmem
    obtain rfl := List.mem_singleton.mp hmem
    simp only [id_eq, hall] at hf
    obtain ⟨rfl, rfl⟩ := Call.pure_ok.mp hf
    rcases found with ⟨_, _⟩ | turn
    · simp [requireRuntimeTurn] at hrequire
    · obtain ⟨rfl, -⟩ := Call.pure_ok.mp hrequire
      rfl
  · simp [hall] at hf

theorem whole_of_read {o : ClientOp host} {w : Method host Unit}
    (h : o.read s = (.ok (some w), s)) :
    Optimistic.whole read o s = w s := by
  rw [Optimistic.whole, Call.bind_apply, h]
  rfl

/-- A store with its Sessions. -/
def Listed (sessions : List String) (s : Tables host) : Prop := Named s ∧ s.sessions = sessions

variable {sessions : List String} {o : ClientOp host} {seen : Except Err (ValidTurn host)}
  {w : Method host Unit}

/-- A write on the Turn that was read is the whole operation. -/
theorem whole_of_finds {turnId : String} (hfinds : o.Finds turnId)
    (hs : o.read s = (.ok (some w), s)) (hsame : (findTurn turnId t).1 = (findTurn turnId s).1) :
    Optimistic.whole read o t = w t :=
  whole_of_read (hfinds.again hs hsame)

theorem whole_of_pauseTurn {turnId : String} (hs : Listed sessions s) (ht : Listed sessions t)
    (hread : (pauseTurn turnId : ClientOp host).read s = (.ok (some w), s)) (hw : w t = (.ok (), u))
    (hok : Current t (.pauseTurn turnId) (findTurn turnId s).1) :
    Optimistic.whole read (.pauseTurn turnId) t = (.ok (), u) := by
  rcases hok with hsame | ⟨now, hnow, hsealed⟩
  · rw [whole_of_finds (finds_pauseTurn turnId) hread hsame]
    exact hw
  obtain ⟨new, _, hr, hp⟩ := Call.bind_ok.mp hread
  obtain ⟨old, hstored, hid, hsession, -, hval, rfl⟩ := pauseTurnRead_ok hs.1 hr
  obtain ⟨hwrite, -⟩ := Call.pure_ok.mp hp
  cases hwrite
  obtain ⟨_, hw⟩ := drop_ok hw
  obtain ⟨_, _, hf, -⟩ := Call.bind_ok.mp hw
  -- the transaction has found the Turn running
  obtain ⟨⟨existing, hfound, hrunning⟩, -⟩ := finalizeNode_ok hf
  have hkey : new.val.key = (old.val.sessionId, turnId) := by rw [hval, ← hid]; rfl
  rw [hs.2, ← ht.2] at hsession
  rw [hkey] at hfound
  cases findTurn_unique hnow hsession hfound
  exact absurd hrunning hsealed

theorem whole_of_resumeTurnNode {turnId : String} (hs : Listed sessions s)
    (hread : (resumeTurnNode turnId : ClientOp host).read s = (.ok (some w), s))
    (hw : w t = (.ok (), u)) (hok : Current t (.resumeTurnNode turnId) (findTurn turnId s).1) :
    Optimistic.whole read (.resumeTurnNode turnId) t = (.ok (), u) := by
  rcases hok with hsame | ⟨old, id, hold, hslot, hne⟩
  · rw [whole_of_finds (finds_resumeTurnNode turnId) hread hsame]
    exact hw
  obtain ⟨new, _, hr, hp⟩ := Call.bind_ok.mp hread
  obtain ⟨found, _, hf, hr⟩ := Call.bind_ok.mp hr
  obtain ⟨-, hid, -, rfl⟩ := findTurn_ok hs.1 hf
  rw [hf] at hold
  cases hold
  obtain ⟨_, _, hc, hr⟩ := Call.bind_ok.mp hr
  obtain ⟨-, rfl⟩ := check_ok.mp hc
  obtain ⟨rfl, -⟩ := Call.pure_ok.mp hr
  obtain ⟨hwrite, -⟩ := Call.pure_ok.mp hp
  cases hwrite
  obtain ⟨_, hw⟩ := drop_ok hw
  -- the transaction has claimed the Thread
  obtain ⟨-, hval, hclaimed⟩ := resumeTurnNodeWrite_ok hw
  have hfree := hclaimed.free
  rw [hval] at hfree
  rcases hfree with hfree | hfree
  · exact nomatch hfree.symm.trans hslot
  · exact absurd ((Option.some.inj (hfree.symm.trans hslot)).symm.trans hid) hne

theorem whole_of_appendTurnVersion {now turnId : String} {item : Fields}
    {deliveryId : Option String}
    (hs : Listed sessions s) (ht : Listed sessions t)
    (hread : (appendTurnVersion now turnId item deliveryId : ClientOp host).read s =
      (.ok (some w), s))
    (hw : w t = (.ok (), u))
    (hok : Current t (.appendTurnVersion now turnId item deliveryId) seen) :
    Optimistic.whole read (.appendTurnVersion now turnId item deliveryId) t = (.ok (), u) := by
  obtain ⟨cur, hcur, hsealed⟩ := hok
  obtain ⟨p, _, hr, hp⟩ := Call.bind_ok.mp hread
  obtain ⟨-, hid, hsession, -, huser, hassistant, rfl⟩ := appendTurnVersionRead_ok hs.1 hr
  obtain ⟨hwrite, -⟩ := Call.pure_ok.mp hp
  cases hwrite
  obtain ⟨new, hw⟩ := drop_ok hw
  -- the transaction reads what is found now
  obtain ⟨old, hfound, -⟩ := appendTurnVersionWrite_ok hw
  have hkey : p.1.val.key = (p.1.val.sessionId, turnId) := by rw [← hid]; rfl
  rw [hs.2, ← ht.2] at hsession
  rw [hkey] at hfound
  cases findTurn_unique hcur hsession hfound
  have hfind : findTurn turnId t = (.ok cur, t) := Prod.ext hcur (steady_findTurn turnId t)
  have hkeys : cur.val.key = p.1.val.key := by rw [hkey]; exact ht.1 _ _ hfound
  rw [whole_read]
  show drop (Store.appendTurnVersion now turnId item deliveryId) t = (.ok (), u)
  have hread' : appendTurnVersionRead turnId item deliveryId t = (.ok (cur, p.2.1, p.2.2), t) := by
    refine Call.bind_ok.mpr ⟨cur, t, hfind,
      Call.bind_ok.mpr ⟨(), t, check_ok.mpr ⟨decide_eq_true hsealed, rfl⟩, ?_⟩⟩
    refine Call.bind_ok.mpr ⟨p.2.1, t, Call.ofExcept_ok.mpr ⟨huser, rfl⟩, ?_⟩
    exact Call.bind_ok.mpr ⟨p.2.2, t, Call.ofExcept_ok.mpr ⟨hassistant, rfl⟩, rfl⟩
  have hwrite' : appendTurnVersionWrite now turnId (cur, p.2.1, p.2.2) t = (.ok new, u) := by
    have hsame : (getNode cur.val.sessionId cur.val.id : Method host _) =
        getNode p.1.val.sessionId p.1.val.id := by
      rw [show cur.val.sessionId = p.1.val.sessionId from congrArg Prod.fst hkeys,
        show cur.val.id = p.1.val.id from congrArg Prod.snd hkeys]
    unfold appendTurnVersionWrite at hw ⊢
    rw [hsame]
    exact hw
  exact Call.bind_ok.mpr ⟨new, u, Call.bind_ok.mpr ⟨_, t, hread', hwrite'⟩, rfl⟩

theorem atomic_drop {α : Type} {x : Method host α} (h : Atomic x) : Atomic (drop x) :=
  h.then_pure fun _ => ()

/-- A write that is due changes nothing when it raises. -/
theorem atomic_write (hread : o.read s = (.ok (some w), s)) : Atomic w := by
  cases o with
  | setTurnCurrentData turnId i =>
    obtain ⟨new, _, -, hp⟩ := Call.bind_ok.mp hread
    cases (Call.pure_ok.mp hp).1
    exact atomic_drop ((atomic_transaction _).then_pure fun _ => new)
  | pauseTurn turnId =>
    obtain ⟨new, _, -, hp⟩ := Call.bind_ok.mp hread
    cases (Call.pure_ok.mp hp).1
    exact atomic_drop ((atomic_transaction _).then_pure fun _ => new)
  | resumeTurnNode turnId =>
    obtain ⟨new, _, -, hp⟩ := Call.bind_ok.mp hread
    cases (Call.pure_ok.mp hp).1
    exact atomic_drop (atomic_transaction _)
  | settleIndeterminateToolCalls turnId =>
    obtain ⟨⟨old, new⟩, _, -, hp⟩ := Call.bind_ok.mp hread
    obtain ⟨hnew, -⟩ := Call.pure_ok.mp hp
    rcases new with _ | new
    · cases hnew
    · cases hnew
      exact atomic_drop ((atomic_transaction _).then_pure fun _ => new)
  | appendTurnVersion now turnId item deliveryId =>
    obtain ⟨p, _, -, hp⟩ := Call.bind_ok.mp hread
    cases (Call.pure_ok.mp hp).1
    exact atomic_drop (atomic_transaction _)
  | finalizeNode node => cases (Call.pure_ok.mp hread).1; exact atomic_transaction _
  | updateNode node => cases (Call.pure_ok.mp hread).1; exact atomic_transaction _
  | appendAgentReport sessionId threadId deliveryId content =>
    cases (Call.pure_ok.mp hread).1
    exact atomic_drop (atomic_transaction _)

/-- **Step.** A write in a state that meets the condition does what the whole operation would do
there. -/
theorem write_whole (hs : Listed sessions s) (ht : Listed sessions t)
    (hread : o.read s = (.ok (some w), s)) (hok : Current t o (o.see s)) (hw : w t = (.ok (), u)) :
    Optimistic.whole read o t = (.ok (), u) := by
  cases o with
  | setTurnCurrentData turnId i =>
    exact (whole_of_finds (finds_setTurnCurrentData turnId i) hread hok).trans hw
  | pauseTurn turnId => exact whole_of_pauseTurn hs ht hread hw hok
  | resumeTurnNode turnId => exact whole_of_resumeTurnNode hs hread hw hok
  | settleIndeterminateToolCalls turnId =>
    exact (whole_of_finds (finds_settle turnId) hread hok).trans hw
  | appendTurnVersion now turnId item deliveryId =>
    exact whole_of_appendTurnVersion hs ht hread hw hok
  | finalizeNode node => cases (Call.pure_ok.mp hread).1; exact hw
  | updateNode node => cases (Call.pure_ok.mp hread).1; exact hw
  | appendAgentReport sessionId threadId deliveryId content =>
    cases (Call.pure_ok.mp hread).1; exact hw

end ClientOp

/-! ## Runs -/

abbrev ClientStep (host : Host) :=
  Step Err (Tables host) (ClientOp host) (Except Err (ValidTurn host))

/-- The clients at a store: each has the rest of its operation before it. -/
abbrev Clients (host : Host) := Threads (Log (Tables host) (ClientOp host)) (ClientStep host)

def Clients.step : Clients host → Move (ClientStep host) Unit → Option (Clients host) :=
  Threads.step Optimistic.entry (Optimistic.exec ClientOp.read ClientOp.see)

/-- Operations one after the other. -/
def serially : List (ClientOp host) → Method host Unit
  | [] => pure ()
  | o :: os => do
    o.perform
    serially os

theorem serially_append {os os' : List (ClientOp host)} (h : serially os s = (.ok (), t))
    (h' : serially os' t = (.ok (), u)) : serially (os ++ os') s = (.ok (), u) := by
  induction os generalizing s with
  | nil =>
    obtain ⟨-, rfl⟩ := Call.pure_ok.mp h
    exact h'
  | cons o os ih =>
    obtain ⟨⟨⟩, v, ho, h⟩ := Call.bind_ok.mp h
    exact Call.bind_ok.mpr ⟨(), v, ho, ih h⟩

theorem serially_of_serial {os : List (ClientOp host)}
    (h : Optimistic.Serial ClientOp.read s os t) :
    serially os s = (.ok (), t) := by
  induction h with
  | nil => rfl
  | snoc before h ih =>
    rw [ClientOp.whole_read] at h
    exact serially_append ih (Call.bind_ok.mpr ⟨(), _, h, rfl⟩)

/-- What holds of the nodes whatever Turn is put under its key, and whatever root into an empty
Session. -/
structure NodesKept (P : Tables host → Prop) : Prop where
  named : ∀ s, P s → Named s
  same : ∀ s t, P s → t.nodes = s.nodes → P t
  turn : ∀ s t (node : ValidTurn host), P s →
    t.nodes = s.nodes.insert node.val.key (.turn node) → P t
  root : ∀ s sessionId id, P s → s.loadNodes sessionId = [] →
    P { s with nodes := s.nodes.insert (sessionId, id) (.root sessionId id) }

namespace NodesKept

variable {P : Tables host → Prop} (hP : NodesKept P)

include hP

theorem batch {nodes : List (ValidTurn host)} (hb : Batch s nodes t) (h : P s) : P t := by
  induction hb with
  | nil hsame => exact hP.same _ _ h hsame.nodes
  | cons _ _ _ hput _ ih => exact ih (hP.turn _ _ _ h hput.nodes)

theorem puts (h : P s) (hputs : Puts s t) : P t := by
  obtain rfl | ⟨node, -, hnodes⟩ := hputs
  · exact h
  · exact hP.turn _ _ _ h hnodes

/-- **Step.** Every call stores Turns under their keys, or one root. -/
theorem perform {op : StoreOp host} {now : String} (h : P s) (hx : op.perform now s = (.ok (), t)) :
    P t := by
  have hn := hP.named s h
  have hclient : ∀ o : ClientOp host, o.perform s = (.ok (), t) → P t :=
    fun o ho => hP.puts h (o.puts hn ho)
  cases op with
  | ensureRootNode sessionId id =>
    obtain ⟨_, hx⟩ := drop_ok hx
    obtain rfl | ⟨hempty, -, rfl⟩ := ensureRootNode_ok hx
    · exact h
    · exact hP.root s sessionId id h hempty
  | createNode node => exact hP.turn _ _ _ h (createNode_ok hx).2.2.2.nodes
  | createFinalizedNodes nodes => exact hP.batch (createFinalizedNodes_ok hx) h
  | createAgentThread sessionId item =>
    obtain ⟨_, -, -, -, hc⟩ := createAgentThread_ok hx
    exact hP.turn _ _ _ h hc.nodes
  | createThreadTurnIfIdle node head recipient =>
    exact hP.turn _ _ _ h (createThreadTurnIfIdle_ok hx).2.2.nodes
  | appendTurnVersion turnId item deliveryId =>
    exact hclient (.appendTurnVersion now turnId item deliveryId) hx
  | resumeTurnNode turnId => exact hclient (.resumeTurnNode turnId) hx
  | pauseTurn turnId => exact hclient (.pauseTurn turnId) hx
  | completePausedTurn turnId =>
    obtain ⟨new, hx⟩ := drop_ok hx
    obtain ⟨_, _, hr, hw⟩ := Call.bind_ok.mp hx
    obtain ⟨-, -, -, -, -, rfl⟩ := completePausedTurnRead_ok hn hr
    exact hP.turn _ _ _ h (completePausedTurnWrite_ok hw).2.nodes
  | setTurnCurrentData turnId i => exact hclient (.setTurnCurrentData turnId i) hx
  | forkTurnNode turnId newTurnId threadId =>
    obtain ⟨_, hx⟩ := drop_ok hx
    obtain ⟨_, -, -, -, -, hb⟩ := forkTurnNode_ok hn hx
    exact hP.batch hb h
  | createCompactTurn turnId summary newTurnId =>
    obtain ⟨_, hx⟩ := drop_ok hx
    obtain ⟨_, -, -, -, hcreate⟩ := createCompactTurn_ok hn hx
    exact hP.turn _ _ _ h (createNode_ok hcreate).2.2.2.nodes
  | finalizeNode node => exact hclient (.finalizeNode node) hx
  | updateNode node => exact hclient (.updateNode node) hx

theorem run {sessions : List String} {calls : List (StoreOp host × String)}
    (hnew : P (Tables.new host sessions))
    (hrun : Lib.run Tables.step (Tables.new host sessions) calls = some s) : P s := by
  refine run_invariant (fun s call t h _ hstep => ?_) hnew meets_true hrun
  obtain ⟨op, now⟩ := call
  cases hstep
  rcases hx : op.perform now s with ⟨e | ⟨⟩, t⟩
  · rw [atomic_perform now op s e t hx]
    exact h
  · exact hP.perform h hx

end NodesKept

/-- Every call stores a node under its key. -/
theorem nodesKept_named : NodesKept (@Named host) where
  named _ h := h
  same s t h hnodes key found hfound := h key found (by rw [← hnodes]; exact hfound)
  turn _ _ _ h hnodes := Sound.named_insert h hnodes
  root s sessionId id h _ key found hfound := by
    by_cases hk : key = (sessionId, id)
    · subst hk
      rw [AList.lookup_insert] at hfound
      cases hfound
      rfl
    · rw [AList.lookup_insert_ne hk] at hfound
      exact h key found hfound

theorem named_run {sessions : List String} {calls : List (StoreOp host × String)}
    (hrun : run Tables.step (Tables.new host sessions) calls = some s) : Named s :=
  nodesKept_named.run (sound_new sessions).named hrun

/-- Clients start at any store that calls have made. Where every write meets its condition, the
store is that of the operations that succeeded, one after the other in the order of their writes. -/
theorem no_lost_update (sessions : List String) (calls : List (StoreOp host × String))
    (s : Tables host)
    (moves : List (Move (ClientStep host) Unit)) (c : Clients host)
    (hstart : run Tables.step (Tables.new host sessions) calls = some s)
    (hok : Meets Clients.step (Threads.Guarded (Optimistic.WriteOk ClientOp.Current))
      ⟨⟨s, []⟩, []⟩ moves)
    (hrun : run Clients.step ⟨⟨s, []⟩, []⟩ moves = some c) :
    serially c.shared.done s = (.ok (), c.shared.state) := by
  have hs : ClientOp.Listed s.sessions s := ⟨named_run hstart, rfl⟩
  refine serially_of_serial (Optimistic.serializable ClientOp.steady_read ?_ hs hok hrun).serial
  rintro t o seen w ht ⟨u, hu, hread, rfl⟩
  refine ⟨ClientOp.atomic_write hread, fun v hcurrent hw => ?_⟩
  have hwhole := ClientOp.write_whole hu ht hread hcurrent hw
  have hputs : Puts t v := o.puts ht.1 (by rw [← ClientOp.whole_read]; exact hwhole)
  exact ⟨hwhole, hputs.named ht.1, hputs.sessions.trans ht.2⟩

/-! ## A stale write -/

/-- A client alone at the store. -/
theorem meets_alone {o : ClientOp host} (h : ClientOp.Current s o (o.see s)) :
    Meets Clients.step (Threads.Guarded (Optimistic.WriteOk ClientOp.Current)) ⟨⟨s, []⟩, []⟩
      [.call (.start o), .advance 0 (), .advance 0 ()] := by
  refine ⟨trivial, fun c hc => ⟨?_, fun d hd => ⟨?_, fun _ _ => trivial⟩⟩⟩
  · cases hc
    intro f rest hf
    cases hf
    trivial
  · cases hc
    obtain ⟨⟨log, new⟩, hx, rfl⟩ := Option.map_eq_some_iff.mp hd
    intro f rest hf
    simp only [Optimistic.exec] at hx
    split at hx <;> cases hx
    · next heq =>
      cases hf
      obtain rfl := (congrArg Prod.snd heq).symm.trans (ClientOp.steady_read o s)
      exact h
    · cases hf
    · cases hf

open Browser (sampleHost)

/-- The store with one running Turn. -/
def sampleStore : Tables sampleHost :=
  (run Tables.step (Tables.new sampleHost ["s1"]) sampleCalls).getD (Tables.new sampleHost [])

theorem no_lost_update_sample : ∃ c : Clients sampleHost,
    run Clients.step ⟨⟨sampleStore, []⟩, []⟩
      [.call (.start (.setTurnCurrentData "t1" 0)), .advance 0 (), .advance 0 ()] = some c ∧
    c.shared.done.length = 1 ∧ serially c.shared.done sampleStore = (.ok (), c.shared.state) := by
  refine ⟨_, rfl, ?_, no_lost_update ["s1"] sampleCalls sampleStore _ _ rfl
    (meets_alone (o := .setTurnCurrentData "t1" 0) rfl) rfl⟩
  decide +kernel

/-- The status of the stored Turn. -/
def sampleStatus (s : Tables sampleHost) : Option NodeStatus :=
  (s.nodes.lookup ("s1", "t1")).bind Node.status?

/-- A Turn is sealed between the two steps of `set_turn_current_data`. -/
def sampleMoves : List (Move (ClientStep sampleHost) Unit) :=
  [.call (.start (.setTurnCurrentData "t1" 0)),
    .call (.start (.finalizeNode (sampleValid "t1" "s1" "r" .success sample_names))),
    .advance 0 (), .advance 1 (), .advance 1 (), .advance 0 ()]

theorem perm_pair {α : Type} {a b : α} {l : List α} (h : l.Perm [a, b]) :
    l = [a, b] ∨ l = [b, a] := by
  rcases l with _ | ⟨x, l⟩
  · cases h.length_eq
  · rcases List.mem_cons.mp (h.mem_iff.mp List.mem_cons_self) with rfl | hx
    · exact .inl (congrArg _ (List.perm_singleton.mp h.cons_inv))
    · obtain rfl := List.mem_singleton.mp hx
      exact .inr (congrArg _ (List.perm_singleton.mp (h.trans (.swap _ _ _)).cons_inv))

theorem sealed_turn_runs_again :
    ∃ c : Clients sampleHost, run Clients.step ⟨⟨sampleStore, []⟩, []⟩ sampleMoves = some c ∧
    c.shared.done = [.finalizeNode (sampleValid "t1" "s1" "r" .success),
      .setTurnCurrentData "t1" 0] ∧
    sampleStatus c.shared.state = some .running ∧
    ∀ os, os.Perm c.shared.done → sampleStatus (serially os sampleStore).2 = some .success := by
  obtain ⟨c, hrun, hdone, hstatus⟩ : ∃ c : Clients sampleHost,
      run Clients.step ⟨⟨sampleStore, []⟩, []⟩ sampleMoves = some c ∧
      c.shared.done = [.finalizeNode (sampleValid "t1" "s1" "r" .success),
        .setTurnCurrentData "t1" 0] ∧
      sampleStatus c.shared.state = some .running := by
    refine ⟨_, rfl, rfl, ?_⟩
    decide +kernel
  refine ⟨c, hrun, hdone, hstatus, fun os hos => ?_⟩
  rw [hdone] at hos
  rcases perm_pair hos with rfl | rfl
  · decide +kernel
  · decide +kernel

end MiniAgent.Store
