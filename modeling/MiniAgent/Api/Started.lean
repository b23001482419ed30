import MiniAgent.Api.TurnStart
import MiniAgent.Lib.Positions
import MiniAgent.Store.Anchors

/-!
# What an acknowledged start has started

`Executed` is the promise of the queue: an acknowledged command has had its execution, and a running
Turn that carries a command has one or can still get one. A stored delivery counts as an executed
one (`App.look`), so a rewind that is stored and then refused is lost. `AdmitsRewind` says that no
stored rewind is refused, and `acknowledged_starts` that the promise holds in every run of that
kind.
-/

namespace MiniAgent.Api

open Lib Turn Store

variable {host : Host}

/-! ## Deliveries of Messages -/

/-- The deliveries of the Messages, version by version. -/
def deliveries (data : List (List Fields)) : List (List (Option Json)) :=
  data.map fun version => version.map fun message => message.get "delivery_id"

theorem carries_iff {t : RuntimeState} {d : String} :
    carries t d = true ↔ ∃ version ∈ deliveries t.data, some (Json.str d) ∈ version := by
  simp [carries, deliveries, ofDelivery]

theorem carries_congr {t u : RuntimeState} (h : deliveries t.data = deliveries u.data)
    (d : String) :
    carries t d = carries u d := by
  rw [Bool.eq_iff_iff, carries_iff, carries_iff, h]

theorem validateMessages_deliveries {v : Nat} : ∀ {l : List Fields} {i : Nat} {prev : Option String}
    {out : List Fields}, validateMessages v i prev (l.map .obj) = .ok out →
    out.map (fun message => message.get "delivery_id") = l.map fun message =>
      message.get "delivery_id"
  | [], _, _, _, h => by cases h; rfl
  | message :: l, i, prev, out, h => by
    obtain ⟨role, checked, rest, hone, hrest, rfl⟩ := validateMessages_cons.mp h
    obtain ⟨fields, items, hraw, -, rfl, -⟩ := validateMessage_ok hone
    cases hraw
    simp [validateMessages_deliveries hrest]

/-- Validation normalises contents and keeps the deliveries. -/
theorem validateData_deliveries {data out : List (List Fields)}
    (h : validateData (dataJson data) = .ok out) :
    deliveries out = deliveries data := by
  obtain ⟨l, hl, -, hm⟩ := validateData_ok h
  cases hl
  clear h
  have key : ∀ (d : List (List Fields)) (i : Nat) (o : List (List Fields)),
      mapIdxM' validateVersion i (d.map versionJson) = .ok o → deliveries o = deliveries d := by
    intro d
    induction d with
    | nil => intro i o h; cases h; rfl
    | cons version d ih =>
      intro i o h
      obtain ⟨b, rest, hb, hrest, rfl⟩ := mapIdxM'_cons_ok.mp h
      obtain ⟨l, hl, -, hv⟩ := validateVersion_ok hb
      cases hl
      rw [deliveries, List.map_cons, validateMessages_deliveries hv]
      exact congrArg _ (ih (i + 1) rest hrest)
  exact key data 0 out hm

theorem rebuild_deliveries {raw : RuntimeState} {node : ValidTurn host}
    (h : rebuild host raw = .ok node) :
    deliveries node.val.data = deliveries raw.data := by
  unfold rebuild at h
  split at h
  · next hclone =>
    cases h
    obtain ⟨d, hget, hd⟩ := (RuntimeState.fromDict_reads hclone).data
    cases hget
    exact validateData_deliveries hd
  · cases h

theorem editLastAssistant_deliveries (f : List Json → List Json) (version : List Fields) :
    (editLastAssistant f version).map (fun message => message.get "delivery_id") =
      version.map fun message => message.get "delivery_id" := by
  have hedit : ∀ message, (editContent f message).get "delivery_id" =
      message.get "delivery_id" := by
    intro message
    unfold editContent
    split
    · simp
    · rfl
  unfold editLastAssistant
  split
  · rw [List.map_reverse, map_modify hedit, List.map_reverse, List.reverse_reverse]
  · rfl

/-! ### Turns -/

theorem carries_withVersion {old node : ValidTurn host} {item user assistant : Fields}
    {now d e : String} (hnew : rebuild host (withVersion old.val user assistant now) = .ok node)
    (huser : rewindMessage item (some e) = .ok user)
    (hassistant : assistantMessage [] = .ok assistant) (hd : carries node.val d = true) :
    carries old.val d = true ∨ d = e := by
  obtain ⟨items, -, huser⟩ := bind_ok.mp huser
  cases huser
  obtain ⟨items', -, hassistant⟩ := bind_ok.mp hassistant
  cases hassistant
  rw [carries_iff, rebuild_deliveries hnew] at hd
  obtain ⟨version, hversion, hmem⟩ := hd
  simp only [withVersion, deliveries, List.map_append, List.mem_append, List.map_cons, List.map_nil,
    List.mem_singleton] at hversion
  rcases hversion with hversion | rfl
  · exact .inl (carries_iff.mpr ⟨version, hversion, hmem⟩)
  · rcases List.mem_cons.mp hmem with hmem | hmem
    · cases hmem
      exact .inr rfl
    · cases List.mem_singleton.mp hmem

theorem carries_resumed {old node : ValidTurn host} {d : String}
    (hnew : rebuild host (resumed old.val) = .ok node) : carries node.val d = carries old.val d :=
  carries_congr ((rebuild_deliveries hnew).trans
    (map_modify (editLastAssistant_deliveries dropError))) d

theorem stampDelivery_deliveries {data : List (List Fields)} {e : String}
    (h : deliveries data = [[none, none]]) :
    deliveries (stampDelivery e data) = [[some (.str e), none]] := by
  rcases data with _ | ⟨_ | ⟨user, _ | ⟨assistant, _ | ⟨_, _⟩⟩⟩, _ | ⟨_, _⟩⟩ <;>
    simp [deliveries] at h
  simp [deliveries, stampDelivery, h]

/-- A new Turn carries the delivery that has started it, and no other. -/
theorem carries_newTurn {parent : Node host} {a : CreateArgs} {item : Fields}
    {deliveryId : Option String} {node : ValidTurn host} {d : String}
    (h : newTurn parent a item deliveryId = .ok node) (hd : carries node.val d = true) :
    deliveryId = some d := by
  obtain ⟨content, -, h⟩ := bind_ok.mp h
  obtain ⟨assistant, hassistant, h⟩ := bind_ok.mp h
  obtain ⟨items, -, hassistant⟩ := bind_ok.mp hassistant
  cases hassistant
  obtain ⟨built, hbuilt, h⟩ := bind_ok.mp h
  obtain ⟨-, -, -, -, -, -, hdata⟩ := create_ok hbuilt
  have hplain : deliveries built.val.data = [[none, none]] := validateData_deliveries hdata
  have hnone : carries built.val d ≠ true := by
    rw [Ne, carries_iff, hplain]
    simp
  rcases deliveryId with _ | e
  · cases h
    exact absurd hd hnone
  · dsimp only at h
    split at h
    · cases h
      exact absurd hd hnone
    · rw [carries_iff, rebuild_deliveries h] at hd
      obtain ⟨version, hversion, hmem⟩ := hd
      rw [stampDelivery_deliveries hplain] at hversion
      obtain rfl := List.mem_singleton.mp hversion
      rcases List.mem_cons.mp hmem with hmem | hmem
      · cases hmem
        rfl
      · cases List.mem_singleton.mp hmem

/-! ### Stores -/

/-- A stored Turn carries the delivery. -/
def Carried (s : Tables host) (d : String) : Prop :=
  ∃ key t, s.nodes.lookup key = some (.turn t) ∧ carries t.val d = true

variable {s t : Tables host} {node : ValidTurn host} {d : String}

theorem carried_insert (hnodes : t.nodes = s.nodes.insert node.val.key (.turn node))
    (h : Carried t d) :
    Carried s d ∨ carries node.val d = true := by
  obtain ⟨key, x, hlookup, hd⟩ := h
  rw [hnodes] at hlookup
  by_cases hkey : key = node.val.key
  · subst hkey
    rw [AList.lookup_insert] at hlookup
    cases hlookup
    exact .inr hd
  · rw [AList.lookup_insert_ne hkey] at hlookup
    exact .inl ⟨key, x, hlookup, hd⟩

theorem carried_of_createNode (h : createNode node s = (.ok (), t)) (hd : Carried t d) :
    Carried s d ∨ carries node.val d = true := by
  obtain ⟨-, -, -, hclaimed⟩ := createNode_ok h
  exact carried_insert hclaimed.nodes hd

theorem carried_of_updateNode (h : updateNode node s = (.ok (), t)) (hd : Carried t d) :
    Carried s d ∨ carries node.val d = true := by
  obtain ⟨-, hkept, hreleased⟩ := updateNode_ok h
  by_cases hrunning : node.val.status = .running
  · exact carried_insert (hkept hrunning).nodes hd
  · exact carried_insert (hreleased hrunning).nodes hd

theorem carried_of_finalizeNode (h : finalizeNode node s = (.ok (), t)) (hd : Carried t d) :
    Carried s d ∨ carries node.val d = true := by
  obtain ⟨-, -, hreleased⟩ := finalizeNode_ok h
  exact carried_insert hreleased.nodes hd

theorem carried_of_findTurn {turnId : String} (h : findTurn turnId s = (.ok node, t))
    (hd : carries node.val d = true) :
    Carried s d := by
  obtain ⟨found, u, hf, h⟩ := Call.bind_ok.mp h
  rcases found with _ | found
  · simp [requireRuntimeTurn] at h
  · obtain ⟨sessionId, -, hlookup, rfl⟩ := findNode_ok hf
    rcases found with ⟨_, _⟩ | turn
    · simp [requireRuntimeTurn] at h
    · obtain ⟨rfl, rfl⟩ := Call.pure_ok.mp h
      exact ⟨_, _, hlookup, hd⟩

/-- A Turn that runs again keeps its deliveries. -/
theorem carried_of_resumeTurnNode {turnId : String} (h : resumeTurnNode turnId s = (.ok node, t))
    (hd : Carried t d) : Carried s d := by
  obtain ⟨old, u, hr, hw⟩ := Call.bind_ok.mp h
  obtain ⟨found, v, hf, hr⟩ := Call.bind_ok.mp hr
  obtain ⟨_, _, hc, hr⟩ := Call.bind_ok.mp hr
  obtain ⟨-, rfl⟩ := check_ok.mp hc
  obtain ⟨rfl, rfl⟩ := Call.pure_ok.mp hr
  obtain rfl : v = s := by
    have hsteady := steady_findTurn turnId s
    rw [hf] at hsteady
    exact hsteady
  obtain ⟨hnew, -, hclaimed⟩ := resumeTurnNodeWrite_ok hw
  rcases carried_insert hclaimed.nodes hd with hold | hnode
  · exact hold
  · rw [carries_resumed hnew] at hnode
    exact carried_of_findTurn hf hnode

theorem carried_of_adoptTurn {turnId : String} (h : App.adoptTurn turnId s = (.ok (), t))
    (hd : Carried t d) :
    Carried s d := by
  obtain ⟨found, u, hf, hrest⟩ := Call.bind_ok.mp h
  obtain rfl : u = s := by
    have hsteady := steady_findTurn turnId s
    rw [hf] at hsteady
    exact hsteady
  split at hrest
  · obtain ⟨_, _, hr, hp⟩ := Call.bind_ok.mp hrest
    obtain ⟨-, rfl⟩ := Call.pure_ok.mp hp
    exact carried_of_resumeTurnNode hr hd
  · obtain ⟨-, rfl⟩ := check_ok.mp hrest
    exact hd

theorem atomic_adoptTurn (turnId : String) :
    Call.Atomic (App.adoptTurn turnId : Method host Unit) := by
  refine Call.Atomic.after (steady_findTurn turnId) fun node => ?_
  split
  · refine (Call.Atomic.after ?_ fun _ => Call.atomic_transaction _).then_pure fun _ => ()
    exact (steady_findTurn turnId).bind fun _ => (steady_check _ _).bind fun _ => Call.steady_pure _
  · exact (steady_check _ _).atomic

theorem steady_appendTurnVersionRead (turnId : String) (item : Fields)
    (deliveryId : Option String) :
    Call.Steady (appendTurnVersionRead turnId item deliveryId : Method host _) := by
  refine (steady_findTurn turnId).bind fun _ => (steady_check _ _).bind fun _ => ?_
  exact (Call.steady_ofExcept _).bind fun _ => (Call.steady_ofExcept _).bind fun _ =>
    Call.steady_pure _

/-- The Messages of the new version. -/
theorem appendTurnVersionRead_messages {turnId : String} {item : Fields}
    {deliveryId : Option String} {p : ValidTurn host × Fields × Fields}
    (h : appendTurnVersionRead turnId item deliveryId s = (.ok p, t)) :
    rewindMessage item deliveryId = .ok p.2.1 ∧ assistantMessage [] = .ok p.2.2 := by
  obtain ⟨_, _, -, h⟩ := Call.bind_ok.mp h
  obtain ⟨_, _, -, h⟩ := Call.bind_ok.mp h
  obtain ⟨_, _, hu, h⟩ := Call.bind_ok.mp h
  obtain ⟨_, _, ha, h⟩ := Call.bind_ok.mp h
  obtain ⟨rfl, -⟩ := Call.pure_ok.mp h
  exact ⟨(Call.ofExcept_ok.mp hu).1, (Call.ofExcept_ok.mp ha).1⟩

/-! ## The promise -/

namespace App

/-- `_stream` has admitted an execution for the delivery. -/
def Admitted (s : App host) (d : String) : Prop := ∃ e ∈ s.executions, e.deliveryId = some d

/-- Some further steps admit an execution for the delivery. -/
def CanAdmit (s : App host) (d : String) : Prop := ∃ as t, run step s as = some t ∧ t.Admitted d

structure Executed (s : App host) : Prop where
  acked : ∀ d ∈ s.acked, s.Admitted d
  running : ∀ c ∈ s.queue, ∀ key t, s.tables.nodes.lookup key = some (.turn t) →
    t.val.status = .running →
    carries t.val c.deliveryId = true → s.Admitted c.deliveryId ∨ s.CanAdmit c.deliveryId

/-- The key is reserved for an execution that is to release it. -/
def Held (executions : List Execution) (k : String) : Prop :=
  ∃ e ∈ executions, e.live = true ∧ e.threadId = k

instance (executions : List Execution) (k : String) : Decidable (Held executions k) := by
  unfold Held
  infer_instance

/-- A stored rewind gets its execution: no failed request has its key or takes it, and its own
request finds the key free and is submitted. -/
def AdmitsRewind (s : App host) : Action host → Prop
  | .work _ admission => match s.worker with
    | .appending c _ => c.threadId ∈ s.keys → Held s.executions c.threadId
    | .streaming c => c.operation = .rewind → c.threadId ∉ s.keys ∧ admission = .submitted
    | _ => True
  | .resume turnId .unsubmitted => match s.worker, (findTurn turnId s.tables).1 with
    | .streaming c, .ok t =>
      c.operation = .rewind → t.val.threadId = c.threadId → c.threadId ∈ s.keys
    | _, _ => True
  | _ => True

instance (s : App host) (a : Action host) : Decidable (AdmitsRewind s a) := by
  unfold AdmitsRewind
  split
  · split <;> infer_instance
  · split <;> infer_instance
  · infer_instance

/-! ## The invariant -/

/-- A rewind is stored whose execution the worker asks for next. -/
def Rewound (s : App host) (d : String) : Prop :=
  ∃ c, s.worker = .streaming c ∧ c.operation = .rewind ∧ c.deliveryId = d

/-- What the worker knows of the command it has claimed. -/
def Works (s : App host) : Prop :=
  match s.worker with
  | .idle => True
  | .claimed c | .streaming c => c ∈ s.queue
  | .known c => s.Admitted c.deliveryId
  | .rewinding c => c ∈ s.queue ∧ c.operation = .rewind
  | .appending c p => c ∈ s.queue ∧ c.operation = .rewind ∧
    rewindMessage (rewindItem c) (some c.deliveryId) = .ok p.2.1 ∧ assistantMessage [] = .ok p.2.2

structure Inv (s : App host) : Prop where
  acked : ∀ d ∈ s.acked, s.Admitted d
  /-- a stored delivery has its execution, or gets it next -/
  carried : ∀ c ∈ s.queue, Carried s.tables c.deliveryId → s.Admitted c.deliveryId ∨
    s.Rewound c.deliveryId
  works : s.Works
  /-- the key of a stored rewind becomes free -/
  held : ∀ c, s.worker = .streaming c → c.operation = .rewind → c.threadId ∈ s.keys →
    Held s.executions c.threadId

theorem inv_boot (tables : Tables host) : Inv (boot tables) where
  acked := nofun
  carried := nofun
  works := trivial
  held := nofun

variable {s t : App host} {d : String}

theorem Rewound.not_idle (h : s.worker = .idle) : ¬ s.Rewound d := by
  rintro ⟨c, hc, -⟩
  cases h.symm.trans hc

/-! ### Executions -/

theorem admitted_move {i : Nat} {stage : Stage} : (s.move i stage).Admitted d ↔ s.Admitted d := by
  have hsame : (s.executions.modify i fun e => { e with stage }).map Execution.deliveryId =
      s.executions.map Execution.deliveryId := map_modify fun _ => rfl
  have hmem : ∀ l : List Execution, (∃ e ∈ l, e.deliveryId = some d) ↔
      some d ∈ l.map Execution.deliveryId := by
    simp
  rw [Admitted, Admitted, hmem, hmem]
  exact hsame ▸ Iff.rfl

/-- A key stays held while no execution of its Thread ends. -/
theorem held_move {i : Nat} {stage : Stage} {k : String} {e : Execution}
    (he : s.executions[i]? = some e) (hstage : stage ≠ .ended ∨ e.threadId ≠ k)
    (h : Held s.executions k) : Held (s.move i stage).executions k := by
  obtain ⟨e', he', hlive, hthread⟩ := h
  obtain ⟨j, hj⟩ := List.getElem?_of_mem he'
  by_cases hij : i = j
  · subst hij
    obtain rfl : e = e' := Option.some.inj (he.symm.trans hj)
    refine ⟨{ e with stage }, List.mem_of_getElem? (i := i) (by simp [move, hj]), ?_, hthread⟩
    rcases hstage with hstage | hthread'
    · simpa [Execution.live] using hstage
    · exact absurd hthread hthread'
  · exact ⟨e', List.mem_of_getElem? (i := j) (by simp [move, hij, hj]), hlive, hthread⟩

/-! ### Steps -/

theorem Works.mono (h : s.Works) (hqueue : t.queue = s.queue) (hworker : t.worker = s.worker)
    (hadmitted : ∀ d, s.Admitted d → t.Admitted d) : t.Works := by
  unfold Works at h ⊢
  rw [hworker, hqueue]
  split <;> simp_all

/-- A step beside the worker that stores no delivery without an execution. -/
theorem Inv.beside (h : Inv s) (hqueue : t.queue = s.queue) (hworker : t.worker = s.worker)
    (hadmitted : ∀ d, s.Admitted d → t.Admitted d) (hacked : ∀ d ∈ t.acked, d ∈ s.acked ∨
      t.Admitted d)
    (hcarried : ∀ c ∈ s.queue, Carried t.tables c.deliveryId →
      Carried s.tables c.deliveryId ∨ t.Admitted c.deliveryId)
    (hheld : ∀ k ∈ t.keys, (k ∈ s.keys → Held s.executions k) → Held t.executions k ∨
      ∀ c, s.worker = .streaming c → c.operation = .rewind → c.threadId ≠ k) : Inv t where
  acked d hd := (hacked d hd).elim (fun hd => hadmitted d (h.acked d hd)) id
  carried c hc hd := by
    rw [hqueue] at hc
    rcases hcarried c hc hd with hold | hnew
    · refine (h.carried c hc hold).imp (hadmitted _) fun ⟨c', hc', hrest⟩ =>
        ⟨c', hworker.trans hc', hrest⟩
    · exact .inl hnew
  works := h.works.mono hqueue hworker hadmitted
  held c hc hop hk := by
    rw [hworker] at hc
    exact (hheld _ hk (h.held c hc hop)).resolve_right fun hne => hne c hc hop rfl

theorem admitted_asked {c : Command} (h : c.threadId ∉ s.keys) :
    (s.stream (asked c) .submitted).Admitted c.deliveryId := by
  rw [App.stream, if_neg (show (asked c).threadId ∉ s.keys from h)]
  exact ⟨asked c, List.mem_append_right _ List.mem_cons_self, rfl⟩

theorem Admitted.stream (h : s.Admitted d) (e : Execution) (admission : Admission) :
    (s.stream e admission).Admitted d := by
  obtain ⟨e', he', hd⟩ := h
  cases admission with
  | unconfigured => exact ⟨e', he', hd⟩
  | unsubmitted =>
    rw [App.stream]
    split <;> exact ⟨e', he', hd⟩
  | submitted =>
    rw [App.stream]
    split
    · exact ⟨e', he', hd⟩
    · exact ⟨e', List.mem_append_left _ he', hd⟩

/-- A request reserves a key at most, and adds an execution at most. -/
theorem stream_frame (e : Execution) (admission : Admission) :
    (s.stream e admission).queue = s.queue ∧ (s.stream e admission).worker = s.worker ∧
      (s.stream e admission).acked = s.acked ∧ (s.stream e admission).tables = s.tables := by
  cases admission <;> rw [App.stream] <;> (try split) <;> exact ⟨rfl, rfl, rfl, rfl⟩

/-- A key that is reserved afterwards is one that was held, that of a new execution, or that of a
failed request. -/
theorem held_stream {e : Execution} (hlive : e.live = true) {admission : Admission} {k : String}
    (hk : k ∈ (s.stream e admission).keys) (h : k ∈ s.keys → Held s.executions k) :
    Held (s.stream e admission).executions k ∨ admission = .unsubmitted ∧
    e.threadId ∉ s.keys ∧ k = e.threadId := by
  cases admission with
  | unconfigured => exact .inl (h hk)
  | unsubmitted =>
    rw [App.stream] at hk ⊢
    split at hk
    · next hkey =>
      rw [if_pos hkey]
      exact .inl (h hk)
    · next hkey =>
      rw [if_neg hkey]
      rcases List.mem_cons.mp hk with rfl | hk
      · exact .inr ⟨rfl, hkey, rfl⟩
      · exact .inl (h hk)
  | submitted =>
    rw [App.stream] at hk ⊢
    split at hk
    · next hkey =>
      rw [if_pos hkey]
      exact .inl (h hk)
    · next hkey =>
      rw [if_neg hkey]
      rcases List.mem_cons.mp hk with rfl | hk
      · exact .inl ⟨e, List.mem_append_right _ List.mem_cons_self, hlive, rfl⟩
      · obtain ⟨e', he', hrest⟩ := h hk
        exact .inl ⟨e', List.mem_append_left _ he', hrest⟩

theorem Inv.stream (h : Inv s) {e : Execution} (hlive : e.live = true) {admission : Admission}
    (hkeep : admission = .unsubmitted → ∀ c, s.worker = .streaming c → c.operation = .rewind →
      e.threadId = c.threadId → c.threadId ∈ s.keys) : Inv (s.stream e admission) := by
  obtain ⟨hqueue, hworker, hacked, htables⟩ := stream_frame (s := s) e admission
  refine h.beside hqueue hworker (fun d hd => hd.stream e admission)
    (fun d hd => .inl (hacked ▸ hd)) ?_ ?_
  · intro c _ hd
    exact .inl (htables ▸ hd)
  · intro k hk hheld
    refine (held_stream hlive hk hheld).imp_right fun ⟨hfails, hfree, hkey⟩ c hc hop heq => hfree ?_
    subst hkey
    exact heq ▸ hkeep hfails c hc hop heq.symm

theorem Inv.call (h : Inv s) {α : Type} {i : Nat} {e : Execution} {stage : Stage}
    {x : Method host α}
    (he : s.executions[i]? = some e) (hstage : stage ≠ .ended) (hx : Call.Atomic x)
    (hcarried : ∀ a t, x s.tables = (.ok a, t) → ∀ c ∈ s.queue, Carried t c.deliveryId →
      Carried s.tables c.deliveryId ∨ s.Admitted c.deliveryId) : Inv (s.call i stage x) := by
  unfold App.call
  split
  · next a t hok =>
    refine h.beside rfl rfl (fun d hd => admitted_move.mpr hd) (fun d hd => .inl hd) ?_ ?_
    · intro c hc hd
      exact (hcarried a t hok c hc hd).imp id fun hadm => admitted_move.mpr hadm
    · intro k hk hheld
      exact .inl (held_move he (.inl hstage) (hheld hk))
  · next e t herror =>
    rw [hx _ _ _ herror]
    exact h

/-- A Turn of the writer adds no delivery. -/
theorem carried_of_addsNone {node : ValidTurn host} (h : s.addsNone node = true) {c : Command}
    (hc : c ∈ s.queue) (hd : carries node.val c.deliveryId = true) :
    Carried s.tables c.deliveryId := by
  have hall := List.all_eq_true.mp h c hc
  simp only [hd, Bool.not_true, Bool.false_or] at hall
  rcases hlookup : s.tables.nodes.lookup node.val.key with _ | ⟨_, _⟩ | old
  · simp [hlookup] at hall
  · simp [hlookup, Node.turn?] at hall
  · refine ⟨_, old, hlookup, ?_⟩
    simpa [hlookup, Node.turn?] using hall

theorem Inv.advance (h : Inv s) {i : Nat} {e : Execution} {event : Event host}
    (he : s.executions[i]? = some e) (hstep : s.advance i e event = some t) : Inv t := by
  cases event with
  | start parent a item =>
    simp only [App.advance, Option.ite_none_right_eq_some] at hstep
    obtain ⟨-, hstep⟩ := hstep
    rcases hnew : newTurn parent a item e.deliveryId with _ | node
    · simp only [hnew, Option.some.injEq] at hstep
      exact hstep ▸ h
    · simp only [hnew, Option.some.injEq] at hstep
      subst hstep
      refine h.call he (by decide) (atomic_createNode node) fun _ u hok c _ hd => ?_
      rcases carried_of_createNode hok hd with hold | hnode
      · exact .inl hold
      · exact .inr ⟨e, List.mem_of_getElem? he, carries_newTurn hnew hnode⟩
  | adopt =>
    simp only [App.advance, Option.ite_none_right_eq_some, Option.some.injEq] at hstep
    obtain ⟨-, rfl⟩ := hstep
    exact h.call he (by decide) (atomic_adoptTurn _) fun _ u hok c _ hd =>
      .inl (carried_of_adoptTurn hok hd)
  | onStarted =>
    simp only [App.advance, Option.ite_none_right_eq_some, Option.some.injEq] at hstep
    obtain ⟨-, rfl⟩ := hstep
    refine h.beside rfl rfl (fun d hd => hd) (fun d hd => ?_)
      (fun c _ hd => .inl hd) fun k hk hheld => .inl (hheld hk)
    rcases List.mem_append.mp hd with hown | hold
    · exact .inr ⟨e, List.mem_of_getElem? he, Option.mem_toList.mp hown⟩
    · exact .inl hold
  | write node =>
    simp only [App.advance, Option.ite_none_right_eq_some, Option.some.injEq] at hstep
    obtain ⟨⟨-, hadds⟩, rfl⟩ := hstep
    refine h.call he (by decide) (Call.atomic_transaction _) fun _ u hok c hc hd => ?_
    exact .inl ((carried_of_updateNode hok hd).elim id (carried_of_addsNone hadds hc))
  | finish node =>
    simp only [App.advance, Option.ite_none_right_eq_some, Option.some.injEq] at hstep
    obtain ⟨⟨-, hadds⟩, rfl⟩ := hstep
    refine h.call he (by decide) (Call.atomic_transaction _) fun _ u hok c hc hd => ?_
    exact .inl ((carried_of_finalizeNode hok hd).elim id (carried_of_addsNone hadds hc))
  | leave =>
    simp only [App.advance, Option.ite_none_right_eq_some, Option.some.injEq] at hstep
    obtain ⟨-, rfl⟩ := hstep
    refine h.beside rfl rfl (fun d hd => admitted_move.mpr hd) (fun d hd => .inl hd)
      (fun c _ hd => .inl hd) ?_
    intro k hk hheld
    obtain ⟨hk, hne⟩ := List.mem_filter.mp hk
    exact .inl (held_move (s := { s with keys := s.keys.filter (· ≠ e.threadId) }) he
      (.inr (Ne.symm (of_decide_eq_true hne))) (hheld hk))

theorem Inv.dispatch (h : Inv s) {c : Command} (hstep : s.dispatch c = some t) : Inv t := by
  simp only [App.dispatch, Option.ite_none_right_eq_some, Option.some.injEq] at hstep
  obtain ⟨⟨-, hfresh⟩, rfl⟩ := hstep
  refine ⟨h.acked, ?_, ?_, h.held⟩
  · intro c' hc' hd
    rcases List.mem_append.mp hc' with hc' | hc'
    · exact h.carried c' hc' hd
    · obtain rfl := List.mem_singleton.mp hc'
      obtain ⟨key, x, hlookup, hx⟩ := hd
      have hnot : s.stored c'.deliveryId = true :=
        List.any_eq_true.mpr ⟨⟨key, .turn x⟩, AList.mem_lookup_iff.mp hlookup, hx⟩
      rw [hnot] at hfresh
      cases hfresh
  · have hworks := h.works
    unfold Works at hworks ⊢
    dsimp only
    split <;> simp_all
    exact hworks

/-- The worker has come to a phase in which nothing is rewound. -/
theorem Inv.enter (h : Inv s) {w : Phase host} (hold : ∀ d, ¬ s.Rewound d)
    (hworks : Works { s with worker := w })
    (hheld : ∀ c, w = .streaming c → c.operation = .rewind → c.threadId ∈ s.keys →
      Held s.executions c.threadId) :
    Inv { s with worker := w } where
  acked := h.acked
  carried c hc hd := .inl ((h.carried c hc hd).resolve_right (hold _))
  works := hworks
  held := hheld

theorem rewound_streaming {c : Command} (h : s.worker = .streaming c) (hd : s.Rewound d) :
    c.operation = .rewind ∧ c.deliveryId = d := by
  obtain ⟨c', hc', hrest⟩ := hd
  cases h.symm.trans hc'
  exact hrest

/-- The worker asks: a rewind that is stored is admitted. -/
theorem Inv.asked (h : Inv s) {c : Command} {admission : Admission} (hw : s.worker = .streaming c)
    (hok : c.operation = .rewind → c.threadId ∉ s.keys ∧ admission = .submitted) :
    Inv ({ s with worker := .idle }.stream (asked c) admission) := by
  let idle : App host := { s with worker := .idle }
  obtain ⟨hqueue, hworker, hacked, htables⟩ := stream_frame (s := idle) (App.asked c) admission
  refine ⟨fun d hd => ?_, fun c' hc' hd => .inl ?_, ?_, fun c' hc' => ?_⟩
  · rw [hacked] at hd
    exact Admitted.stream (s := idle) (h.acked d hd) _ _
  · rw [hqueue] at hc'
    rw [htables] at hd
    rcases h.carried c' hc' hd with hadmitted | hrewound
    · exact Admitted.stream (s := idle) hadmitted _ _
    · obtain ⟨hop, hid⟩ := rewound_streaming hw hrewound
      obtain ⟨hkey, rfl⟩ := hok hop
      exact hid ▸ admitted_asked (s := idle) hkey
  · rw [Works, hworker]
    trivial
  · rw [hworker] at hc'
    cases hc'

/-- A delivery that `find_node` finds has its execution: nothing is rewound before the worker
asks. -/
theorem works_look (h : Inv s) {c : Command} (hw : s.worker = .claimed c) :
    Works { s with worker := s.look c } := by
  have hc : c ∈ s.queue := by
    have hworks := h.works
    simp only [Works, hw] at hworks
    exact hworks
  rcases hfound : findNode c.targetId s.tables with ⟨_ | _ | ⟨_, _⟩ | x, u⟩
  · simp [Works, look, hfound]
  · rcases hop : c.operation <;> simp [Works, look, hfound, hop, hc]
  · rcases hop : c.operation <;> simp [Works, look, hfound, hop, hc]
  · by_cases hx : carries x.val c.deliveryId = true
    · obtain ⟨sessionId, -, hlookup, -⟩ := findNode_ok hfound
      have hadmitted := (h.carried c hc ⟨_, x, hlookup, hx⟩).resolve_right (by
        rintro ⟨c', hc', -⟩
        cases hw.symm.trans hc')
      simp only [Works, look, hfound, hx, if_true]
      exact hadmitted
    · rcases hop : c.operation <;> simp [Works, look, hfound, hx, hop, hc]

/-- Only a new Turn is started without a step of the store. -/
theorem look_streaming {c c' : Command} (h : s.look c = .streaming c') :
    c'.operation = .create := by
  unfold look at h
  split at h
  · cases h
  · split at h
    · cases h
    · split at h <;> cases h
  · split at h
    · next hop => cases h; exact hop
    · cases h
    · cases h

theorem Inv.work (h : Inv s) {now : String} {admission : Admission}
    (hok : AdmitsRewind s (.work now admission)) (hstep : s.work now admission = some t) :
    Inv t := by
  have hworks := h.works
  unfold App.work at hstep
  rcases hw : s.worker with _ | c | c | c | ⟨c, p⟩ | c <;>
    simp only [hw, Works, AdmitsRewind] at hstep hworks hok
  · cases hstep
  · cases hstep
    refine h.enter (by rintro d ⟨c', hc', -⟩; cases hw.symm.trans hc')
      (works_look h hw) fun c' hc' hop => ?_
    rw [look_streaming hc'] at hop
    cases hop
  · cases hstep
    have hidle : Inv { s with worker := .idle } :=
      h.enter (by rintro d ⟨c', hc', -⟩; cases hw.symm.trans hc') trivial nofun
    exact { hidle with
      acked := fun d hd => (List.mem_cons.mp hd).elim (fun hd => hd ▸ hworks) (h.acked d) }
  · have hnone : ∀ d, ¬ s.Rewound d := by
      rintro d ⟨c', hc', -⟩
      cases hw.symm.trans hc'
    have hsteady := steady_appendTurnVersionRead c.targetId (rewindItem c)
      (some c.deliveryId) s.tables
    split at hstep
    · next p u hread =>
      rw [hread] at hsteady
      obtain rfl : u = s.tables := hsteady
      cases hstep
      exact h.enter hnone ⟨hworks.1, hworks.2, appendTurnVersionRead_messages hread⟩ nofun
    · next e u hread =>
      rw [hread] at hsteady
      obtain rfl : u = s.tables := hsteady
      cases hstep
      exact h.enter hnone trivial nofun
  · have hnone : ∀ d, ¬ s.Rewound d := by
      rintro d ⟨c', hc', -⟩
      cases hw.symm.trans hc'
    obtain ⟨hc, hop, huser, hassistant⟩ := hworks
    split at hstep
    · next node u hwrite =>
      cases hstep
      obtain ⟨old, hold, hnew, -, hclaimed⟩ := appendTurnVersionWrite_ok hwrite
      refine ⟨h.acked, fun c' hc' hd => ?_, hc, fun c' hc' _ hkey => ?_⟩
      rotate_left
      · cases hc'
        exact hok hkey
      rcases carried_insert hclaimed.nodes hd with hstored | hnode
      · exact .inl ((h.carried c' hc' hstored).resolve_right (hnone _))
      · rcases carries_withVersion hnew huser hassistant hnode with hbefore | hown
        · exact .inl ((h.carried c' hc' ⟨_, old, hold, hbefore⟩).resolve_right (hnone _))
        · exact .inr ⟨c, rfl, hop, hown.symm⟩
    · next e u hwrite =>
      obtain rfl := Call.atomic_transaction _ _ _ _ hwrite
      cases hstep
      exact h.enter hnone trivial nofun
  · cases hstep
    exact h.asked hw hok

theorem Inv.step (h : Inv s) {a : Action host} (hok : AdmitsRewind s a)
    (hstep : s.step a = some t) : Inv t := by
  cases a with
  | dispatch c => exact h.dispatch hstep
  | resume turnId admission =>
    simp only [App.step, App.resume] at hstep
    split at hstep
    · next turn hfound =>
      split at hstep
      · cases hstep
        refine h.stream rfl fun hfails c hc hop hthread => ?_
        subst hfails
        simp only [AdmitsRewind, hc, hfound] at hok
        exact hok hop hthread
      · cases hstep
    · cases hstep
  | claim i =>
    simp only [App.step] at hstep
    split at hstep
    · next c hw hi =>
      split at hstep
      · cases hstep
      · cases hstep
        exact h.enter (fun d => Rewound.not_idle hw) (List.mem_of_getElem? hi) nofun
    · cases hstep
  | work now admission => exact h.work hok hstep
  | execution i event =>
    obtain ⟨e, he, hstep⟩ := Option.bind_eq_some_iff.mp hstep
    exact h.advance he hstep

/-! ## Admission -/

/-- The execution that holds the key can end, and then the worker gets it. -/
theorem canAdmit_of_rewound (h : Inv s) (hd : s.Rewound d) : s.CanAdmit d := by
  obtain ⟨c, hw, hop, rfl⟩ := hd
  have hstream : ∀ u : App host, u.worker = .streaming c → c.threadId ∉ u.keys →
      ∃ t, u.step (.work "" .submitted) = some t ∧ t.Admitted c.deliveryId := by
    intro u hu hkey
    refine ⟨{ u with worker := .idle }.stream (asked c) .submitted, ?_,
      admitted_asked (s := { u with worker := .idle }) hkey⟩
    simp only [App.step, App.work, hu]
  by_cases hkey : c.threadId ∈ s.keys
  · obtain ⟨e, he, hlive, hthread⟩ := h.held c hw hop hkey
    obtain ⟨i, he⟩ := List.getElem?_of_mem he
    let u := ({ s with keys := s.keys.filter (· ≠ e.threadId) } : App host).move i .ended
    have hleave : s.step (.execution i .leave) = some u := by
      simp only [App.step, he, Option.bind_some, App.advance, hlive, if_true]
      rfl
    obtain ⟨t, ht, hadmitted⟩ := hstream u hw (by simp [u, move, hthread])
    exact ⟨[.execution i .leave, .work "" .submitted], t,
      run_cons.mpr ⟨u, hleave, run_cons.mpr ⟨t, ht, rfl⟩⟩, hadmitted⟩
  · obtain ⟨t, ht, hadmitted⟩ := hstream s hw hkey
    exact ⟨[.work "" .submitted], t, run_cons.mpr ⟨t, ht, rfl⟩, hadmitted⟩

theorem Inv.executed (h : Inv s) : s.Executed where
  acked := h.acked
  running c hc key x hlookup _ hd :=
    (h.carried c hc ⟨key, x, hlookup, hd⟩).imp_right (canAdmit_of_rewound h)

/-- **Starts.** In every run in which every stored rewind is admitted, an acknowledged command has
had its execution, and a running Turn that carries a command has one or can still get one. -/
theorem acknowledged_starts (tables : Tables host) (as : List (Action host)) (s : App host)
    (hok : Meets step AdmitsRewind (boot tables) as) (hrun : run step (boot tables) as = some s) :
    s.Executed :=
  (run_invariant (fun _ _ _ h hok hstep => h.step hok hstep) (inv_boot tables) hok hrun).executed

/-! ## A rewind -/

open Browser (sampleHost)

/-- A Session without Turns. -/
def sampleTables : Tables sampleHost :=
  (run Tables.step (Tables.new sampleHost ["s1"]) [(.ensureRootNode "s1" "r", sampleNow)]).getD
    (Tables.new sampleHost [])

/-- The Turn of the first command as its execution seals it. -/
def sampleSealed : ValidTurn sampleHost :=
  let built := do
    let node ← newTurn (.root "s1" "r" : Node sampleHost) (sampleArgs "t1" "s1")
      (rewindItem ⟨"d1", .create, "t1", "s1", "go", []⟩)
      (some "d1")
    rebuild sampleHost { node.val with status := .success }
  built.toOption.getD (sampleValid "t1" "s1" "r" .running sample_names)

/-- A Turn is created and runs; its execution seals it and keeps the key. -/
def sampleFirst : List (Action sampleHost) :=
  let c : Command := ⟨"d1", .create, "t1", "s1", "go", []⟩
  [.dispatch c, .claim 0, .work sampleNow .submitted, .work sampleNow .submitted,
    .execution 0 (.start (.root "s1" "r") (sampleArgs "t1" "s1") (rewindItem c)),
    .execution 0 .onStarted,
    .execution 0 (.finish sampleSealed)]

/-- The Turn is rewound, up to the request for the key. -/
def sampleRewind : List (Action sampleHost) :=
  [.dispatch ⟨"d2", .rewind, "t1", "s1", "again", []⟩, .claim 1, .work sampleNow .submitted,
    .work sampleNow .submitted, .work sampleNow .submitted]

theorem acknowledged_starts_rewind : ∃ s,
    Meets step AdmitsRewind (boot sampleTables)
      (sampleFirst ++ sampleRewind ++ [.execution 0 .leave, .work sampleNow .submitted,
        .execution 1 .onStarted]) ∧
    run step (boot sampleTables)
      (sampleFirst ++ sampleRewind ++ [.execution 0 .leave, .work sampleNow .submitted,
        .execution 1 .onStarted]) = some s ∧
    "d2" ∈ s.acked ∧ s.Executed := by
  have hok : Meets step AdmitsRewind (boot sampleTables)
      (sampleFirst ++ sampleRewind ++ [.execution 0 .leave, .work sampleNow .submitted,
        .execution 1 .onStarted]) := by
    decide +kernel
  have hrun : (run step (boot sampleTables) (sampleFirst ++ sampleRewind ++
      [.execution 0 .leave, .work sampleNow .submitted, .execution 1 .onStarted])).any
        (fun s => s.acked.contains "d2") := by
    decide +kernel
  obtain ⟨s, hs, hacked⟩ := (Option.any_eq_true _ _).mp hrun
  exact ⟨s, hok, hs, List.contains_iff_mem.mp hacked, acknowledged_starts sampleTables _ s hok hs⟩

/-- The execution gives its key back after the rewind is refused: the next claim of the rewind finds
its delivery in the Turn and acknowledges it. -/
theorem refused_rewind_is_lost : ∃ s,
    run step (boot sampleTables) (sampleFirst ++ sampleRewind ++
      [.work sampleNow .submitted, .execution 0 .leave, .claim 1, .work sampleNow .submitted,
        .work sampleNow .submitted]) = some s ∧
    ¬ s.Executed := by
  have hrun : (run step (boot sampleTables) (sampleFirst ++ sampleRewind ++
      [.work sampleNow .submitted, .execution 0 .leave, .claim 1, .work sampleNow .submitted,
        .work sampleNow .submitted])).any (fun s =>
        s.acked.contains "d2" && !(s.executions.any fun e => e.deliveryId = some "d2")) := by
    decide +kernel
  obtain ⟨s, hs, hlost⟩ := (Option.any_eq_true _ _).mp hrun
  simp only [Bool.and_eq_true, List.contains_iff_mem, Bool.not_eq_true', List.any_eq_false] at hlost
  refine ⟨s, hs, fun h => ?_⟩
  obtain ⟨e, he, hd⟩ := h.acked "d2" hlost.1
  exact hlost.2 e he (decide_eq_true hd)

end App

end MiniAgent.Api
