import Mathlib.Data.List.Dedup
import Mathlib.Data.List.Sort
import Mathlib.Logic.Function.Basic

/-!
# The job registry

The data of `jobs/` and the critical sections of `JobRegistry`: admission against the limits of a
lane at the system, the session and the thread level, the admission queues, the slot leases, the
terminal callback with its history pruning and its queue drain.

A job is its identity: `new_job_id` never repeats one, and a job can be registered only while it is
pending. `records` is the heap of the record objects, which outlive their registration in a call
that still holds one; `registered` is the dictionary the registry looks records up in.
-/

namespace MiniAgent.Jobs

/-! ## Lanes, limits and leases -/

inductive JobLane where
  | foreground | background | service
  deriving DecidableEq, Repr

inductive SlotMode where
  | counted | inherit | unmetered
  deriving DecidableEq, Repr

inductive QueueMode where
  | wait | reject
  deriving DecidableEq, Repr

structure LaneLimits where
  maxRunning : Int
  maxQueued : Int
  deriving DecidableEq

structure JobLimitPolicy where
  system : JobLane → LaneLimits
  session : JobLane → LaneLimits
  thread : JobLane → LaneLimits

/-- `JobLimitPolicy.defaults`. -/
def JobLimitPolicy.defaults : JobLimitPolicy where
  system
    | .foreground => ⟨8, 256⟩
    | .background => ⟨2, 256⟩
    | .service => ⟨16, 256⟩
  session
    | .foreground => ⟨4, 32⟩
    | .background => ⟨1, 32⟩
    | .service => ⟨8, 32⟩
  thread
    | .foreground => ⟨4, 16⟩
    | .background => ⟨2, 16⟩
    | .service => ⟨8, 16⟩

/-- How a job asks for a slot; `hasTimeout` is whether `queue_timeout_seconds` is set. -/
structure AdmissionPolicy where
  queueMode : QueueMode
  hasTimeout : Bool
  slotMode : SlotMode
  deriving DecidableEq

structure SlotLease where
  lane : JobLane
  counted : Bool
  released : Bool
  deriving DecidableEq

/-! ## Scopes -/

abbrev JobId := String

/-- The number in `scope-n`. -/
abbrev ScopeId := Nat

inductive JobScopeKind where
  | system | session | thread | run | task
  deriving DecidableEq, Repr

structure JobOwner where
  sessionId : Option String
  threadId : Option String
  runId : Option String
  deriving DecidableEq

/-- A node of the ownership tree, with the chain of its parents. -/
inductive JobScope where
  | root (id : ScopeId)
  | child (id : ScopeId) (kind : JobScopeKind) (parentJobId : Option JobId) (owner : JobOwner)
      (parent : JobScope)
  deriving DecidableEq

namespace JobScope

def scopeId : JobScope → ScopeId
  | root id => id
  | child id _ _ _ _ => id

def owner : JobScope → JobOwner
  | root _ => ⟨none, none, none⟩
  | child _ _ _ owner _ => owner

def parentJobId : JobScope → Option JobId
  | root _ => none
  | child _ _ parentJobId _ _ => parentJobId

/-- `_thread_key_locked`: the nearest thread scope. -/
def threadKey : JobScope → Option ScopeId
  | root _ => none
  | child id kind _ _ parent => if kind = .thread then some id else parent.threadKey

/-- `_scope_contains_locked`. -/
def contains (ancestor : JobScope) : JobScope → Bool
  | root id => ancestor == root id
  | child id kind parentJobId owner parent =>
    ancestor == child id kind parentJobId owner parent || ancestor.contains parent

def depth : JobScope → Nat
  | root _ => 0
  | child _ _ _ _ parent => parent.depth + 1

@[simp] theorem contains_self (s : JobScope) : s.contains s = true := by
  cases s <;> simp [contains]

end JobScope

/-- One field of `_merge_owner`: inherited, or filled where the parent has none. -/
def mergeField (parent new : Option String) : Option (Option String) :=
  match new, parent with
  | none, _ => some parent
  | some v, none => some (some v)
  | some v, some p => if v = p then some (some v) else none

def mergeOwner (parent new : JobOwner) : Option JobOwner := do
  let sessionId ← mergeField parent.sessionId new.sessionId
  let threadId ← mergeField parent.threadId new.threadId
  let runId ← mergeField parent.runId new.runId
  pure ⟨sessionId, threadId, runId⟩

/-! ## Jobs and records -/

inductive JobState where
  | pending | running | succeeded | failed | cancelled
  deriving DecidableEq, Repr

def JobState.terminal : JobState → Bool
  | .succeeded | .failed | .cancelled => true
  | .pending | .running => false

structure Record where
  scope : JobScope
  lane : JobLane
  admission : AdmissionPolicy
  queuedAt : Int
  lease : Option SlotLease
  /-- `admitted_at is not None`. -/
  admitted : Bool
  terminal : Bool
  deriving DecidableEq

namespace Record

def session (r : Record) : Option String := r.scope.owner.sessionId

def threadKey (r : Record) : Option ScopeId := r.scope.threadKey

def parentJobId (r : Record) : Option JobId := r.scope.parentJobId

/-- `holds_slot`: a counted lease that is not released. -/
def holdsSlot (r : Record) : Bool :=
  match r.lease with
  | some lease => lease.counted && !lease.released
  | none => false

/-- What admission and scopes read of a record; no section changes it. -/
def keys (r : Record) : JobScope × JobLane × AdmissionPolicy := (r.scope, r.lane, r.admission)

end Record

structure Registry where
  /-- The state of every job object. -/
  jobs : JobId → JobState
  /-- Whether the registry is among the job's listeners. -/
  listening : JobId → Bool
  records : JobId → Option Record
  registered : List JobId
  scopes : List JobScope
  closedScopes : List ScopeId
  scopeSeq : Nat
  queues : JobLane → List JobId
  running : JobLane → Int
  runningBySession : String × JobLane → Int
  runningByThread : ScopeId × JobLane → Int

/-- What a registry is built with. -/
structure Settings where
  policy : JobLimitPolicy
  historyLimit : Int
  sessionHistoryLimit : Int

/-- `JobRegistry()`. -/
def Settings.default : Settings := ⟨.defaults, 1000, 100⟩

/-- A new registry: its root scope and nothing else. -/
def Registry.new : Registry where
  jobs _ := .pending
  listening _ := false
  records _ := none
  registered := []
  scopes := [.root 1]
  closedScopes := []
  scopeSeq := 1
  queues _ := []
  running _ := 0
  runningBySession _ := 0
  runningByThread _ := 0

namespace Registry

variable (cfg : Settings)

/-- `self._records.get(job_id)`. -/
def get (reg : Registry) (id : JobId) : Option Record :=
  if id ∈ reg.registered then reg.records id else none

def isPending (reg : Registry) (id : JobId) : Bool := reg.jobs id == .pending

def setJob (reg : Registry) (id : JobId) (state : JobState) : Registry :=
  { reg with jobs := Function.update reg.jobs id state }

def setRecord (reg : Registry) (id : JobId) (r : Record) : Registry :=
  { reg with records := Function.update reg.records id (some r) }

/-! ## Slots -/

/-- The counters of a record's lane, session and thread moved by `n`. -/
def charge (reg : Registry) (r : Record) (n : Int) : Registry :=
  { reg with
    running := Function.update reg.running r.lane (reg.running r.lane + n)
    runningBySession := match r.session with
      | some session => Function.update reg.runningBySession (session, r.lane)
          (reg.runningBySession (session, r.lane) + n)
      | none => reg.runningBySession
    runningByThread := match r.threadKey with
      | some key => Function.update reg.runningByThread (key, r.lane)
          (reg.runningByThread (key, r.lane) + n)
      | none => reg.runningByThread }

/-- `_can_admit_locked`. -/
def canAdmit (reg : Registry) (r : Record) : Bool :=
  reg.running r.lane < (cfg.policy.system r.lane).maxRunning
    && (match r.session with
      | some session =>
        reg.runningBySession (session, r.lane) < (cfg.policy.session r.lane).maxRunning
      | none => true)
    && (match r.threadKey with
      | some key => reg.runningByThread (key, r.lane) < (cfg.policy.thread r.lane).maxRunning
      | none => true)

/-- `_inherited_lease_locked`: whether a registered ancestor holds a lease in the lane. `fuel`
bounds the walk; ancestors that form a cycle, which the source would walk forever, hold none. -/
def inherits (reg : Registry) (lane : JobLane) : Nat → Option JobId → Bool
  | 0, _ => false
  | _, none => false
  | fuel + 1, some id => match reg.get id with
    | none => false
    | some parent => match parent.lease with
      | some lease =>
        if lease.lane = lane && !lease.released then true
        else reg.inherits lane fuel parent.parentJobId
      | none => reg.inherits lane fuel parent.parentJobId

def inheritedLease (reg : Registry) (r : Record) : Bool :=
  reg.inherits r.lane (reg.registered.length + 1) r.parentJobId

/-- Whether admitting the record now takes a slot of its own. -/
def takesSlot (reg : Registry) (r : Record) : Bool :=
  match r.admission.slotMode with
  | .unmetered => false
  | .counted => true
  | .inherit => !reg.inheritedLease r

/-- `_admit_locked`, on the record object of a job. -/
def admitLocked (reg : Registry) (id : JobId) : Registry :=
  match reg.records id with
  | none => reg
  | some r =>
    let counted := reg.takesSlot r
    let reg' := reg.setRecord id { r with admitted := true, lease := some ⟨r.lane, counted, false⟩ }
    if counted then reg'.charge r 1 else reg'

/-! ## Admission -/

inductive Decision where
  | admitNow | queue | reject | full
  deriving DecidableEq

/-- `_check_queue_capacity_locked`: whether the queues have room. -/
def queueHasRoom (reg : Registry) (r : Record) : Bool :=
  let queue := reg.queues r.lane
  let queuedWith (p : Record → Bool) : Int :=
    (queue.filter fun id => match reg.get id with
      | some other => p other
      | none => false).length
  (queue.length : Int) < (cfg.policy.system r.lane).maxQueued
    && (match r.session with
      | some _ => queuedWith (fun other => other.session == r.session)
          < (cfg.policy.session r.lane).maxQueued
      | none => true)
    && (match r.threadKey with
      | some _ => queuedWith (fun other => other.threadKey == r.threadKey)
          < (cfg.policy.thread r.lane).maxQueued
      | none => true)

/-- `_admission_decision_locked`. -/
def decision (reg : Registry) (r : Record) : Decision :=
  if r.admission.slotMode = .unmetered then .admitNow
  else if r.admission.slotMode = .inherit && reg.inheritedLease r then .admitNow
  else if reg.canAdmit cfg r then .admitNow
  else if r.admission.queueMode = .reject then .reject
  else if reg.queueHasRoom cfg r then .queue
  else .full

/-- Where the drain of a queue stands: the registry so far, the sessions and threads that have had
their one admission, the jobs to start and those that stay queued, both in order. -/
structure Drain where
  reg : Registry
  sessions : List String
  threads : List ScopeId
  toStart : List JobId
  remaining : List JobId

/-- Whether the drain has already admitted a job of the record's session or thread. -/
def Drain.served (d : Drain) (r : Record) : Bool :=
  (match r.session with
    | some session => d.sessions.contains session
    | none => false)
  || match r.threadKey with
    | some key => d.threads.contains key
    | none => false

/-- One iteration of `_drain_queue_locked`. -/
def drainOne (d : Drain) (id : JobId) : Drain :=
  match d.reg.get id with
  | none => d
  | some r =>
    if !d.reg.isPending id then d
    else if d.served r || !d.reg.canAdmit cfg r then { d with remaining := d.remaining ++ [id] }
    else
      { reg := d.reg.admitLocked id
        sessions := r.session.toList ++ d.sessions
        threads := r.threadKey.toList ++ d.threads
        toStart := d.toStart ++ [id]
        remaining := d.remaining }

/-- `_drain_queue_locked`: the registry and the jobs to start. -/
def drain (reg : Registry) (lane : JobLane) : Registry × List JobId :=
  let d := (reg.queues lane).foldl (drainOne cfg) ⟨reg, [], [], [], []⟩
  ({ d.reg with queues := Function.update d.reg.queues lane d.remaining }, d.toStart)

/-! ## History -/

/-- Records are dropped from the dictionary, and their jobs no longer listened to. -/
def forget (reg : Registry) (ids : List JobId) : Registry :=
  { reg with
    registered := reg.registered.filter fun id => !ids.contains id
    listening := fun id => if id ∈ ids then false else reg.listening id }

/-- The terminal records that pass a test, oldest first, without the `limit` newest. -/
def surplus (reg : Registry) (limit : Int) (p : Record → Bool) : List JobId :=
  let terminal := reg.registered.filterMap fun id => match reg.records id with
    | some r => if r.terminal && p r then some (id, r.queuedAt) else none
    | none => none
  let ordered := terminal.insertionSort fun a b => a.2 ≤ b.2
  (ordered.take ((terminal.length : Int) - limit).toNat).map Prod.fst

/-- The sessions with a terminal record. -/
def terminalSessions (reg : Registry) : List String :=
  (reg.registered.filterMap fun id => match reg.records id with
    | some r => if r.terminal then r.session else none
    | none => none).dedup

/-- `_prune_history_locked`. -/
def pruneHistory (reg : Registry) : Registry :=
  let reg := reg.forget (reg.surplus cfg.historyLimit fun _ => true)
  reg.forget (reg.terminalSessions.flatMap fun session =>
    reg.surplus cfg.sessionHistoryLimit fun r => r.session == some session)

/-! ## The terminal callback -/

/-- The lease of a record released, with its slot. -/
def release (reg : Registry) (id : JobId) (r : Record) : Registry :=
  let reg' := reg.setRecord id
    { r with terminal := true, lease := r.lease.map fun lease => { lease with released := true } }
  if r.holdsSlot then reg'.charge r (-1) else reg'

/-- The registry section of `_on_terminal`: the registry and the jobs to start. -/
def onTerminal (reg : Registry) (id : JobId) : Registry × List JobId :=
  match reg.get id with
  | none => (reg, [])
  | some r =>
    if r.terminal then (reg, [])
    else
      let reg :=
        { reg with queues := Function.update reg.queues r.lane ((reg.queues r.lane).erase id) }
      ((reg.release id r).pruneHistory cfg).drain cfg r.lane

variable {cfg} {reg : Registry} {id : JobId} {r : Record} {lane : JobLane}

/-! ## Frames of the sections -/

@[simp] theorem charge_records (n : Int) : (reg.charge r n).records = reg.records := rfl
@[simp] theorem charge_registered (n : Int) : (reg.charge r n).registered = reg.registered := rfl
@[simp] theorem charge_jobs (n : Int) : (reg.charge r n).jobs = reg.jobs := rfl
@[simp] theorem charge_listening (n : Int) : (reg.charge r n).listening = reg.listening := rfl
@[simp] theorem charge_queues (n : Int) : (reg.charge r n).queues = reg.queues := rfl

/-- Admission touches the records and the counters. -/
theorem admitLocked_frame (reg : Registry) (id : JobId) :
    ∃ records running bySession byThread, reg.admitLocked id =
      { reg with records := records, running := running, runningBySession := bySession,
                 runningByThread := byThread } := by
  unfold admitLocked
  split
  · exact ⟨_, _, _, _, rfl⟩
  · dsimp only
    split <;> exact ⟨_, _, _, _, rfl⟩

@[simp] theorem admitLocked_registered : (reg.admitLocked id).registered = reg.registered := by
  obtain ⟨_, _, _, _, h⟩ := admitLocked_frame reg id
  rw [h]

@[simp] theorem admitLocked_jobs : (reg.admitLocked id).jobs = reg.jobs := by
  obtain ⟨_, _, _, _, h⟩ := admitLocked_frame reg id
  rw [h]

@[simp] theorem admitLocked_listening : (reg.admitLocked id).listening = reg.listening := by
  obtain ⟨_, _, _, _, h⟩ := admitLocked_frame reg id
  rw [h]

@[simp] theorem admitLocked_queues : (reg.admitLocked id).queues = reg.queues := by
  obtain ⟨_, _, _, _, h⟩ := admitLocked_frame reg id
  rw [h]

@[simp] theorem admitLocked_scopes : (reg.admitLocked id).scopes = reg.scopes := by
  obtain ⟨_, _, _, _, h⟩ := admitLocked_frame reg id
  rw [h]

@[simp] theorem admitLocked_closedScopes :
    (reg.admitLocked id).closedScopes = reg.closedScopes := by
  obtain ⟨_, _, _, _, h⟩ := admitLocked_frame reg id
  rw [h]

@[simp] theorem admitLocked_scopeSeq : (reg.admitLocked id).scopeSeq = reg.scopeSeq := by
  obtain ⟨_, _, _, _, h⟩ := admitLocked_frame reg id
  rw [h]

/-- The record after its admission. -/
def leaseOf (reg : Registry) (r : Record) : Record :=
  { r with admitted := true, lease := some ⟨r.lane, reg.takesSlot r, false⟩ }

theorem admitLocked_of_some (hr : reg.records id = some r) :
    reg.admitLocked id = if reg.takesSlot r then (reg.setRecord id (reg.leaseOf r)).charge r 1
      else reg.setRecord id (reg.leaseOf r) := by
  simp only [admitLocked, hr, leaseOf]

theorem admitLocked_of_none (hr : reg.records id = none) : reg.admitLocked id = reg := by
  simp only [admitLocked, hr]

theorem admitLocked_records (hr : reg.records id = some r) :
    (reg.admitLocked id).records = Function.update reg.records id (some (reg.leaseOf r)) := by
  rw [admitLocked_of_some hr]
  split <;> rfl

/-- The record after its release. -/
def releasedOf (r : Record) : Record :=
  { r with terminal := true, lease := r.lease.map fun lease => { lease with released := true } }

/-- Release touches the records and the counters. -/
theorem release_frame (reg : Registry) (id : JobId) (r : Record) :
    ∃ running bySession byThread, reg.release id r =
      { reg.setRecord id (releasedOf r) with
        running := running, runningBySession := bySession, runningByThread := byThread } := by
  unfold release
  dsimp only
  split <;> exact ⟨_, _, _, rfl⟩

@[simp] theorem release_registered : (reg.release id r).registered = reg.registered := by
  obtain ⟨_, _, _, h⟩ := release_frame reg id r
  rw [h]
  rfl

@[simp] theorem release_jobs : (reg.release id r).jobs = reg.jobs := by
  obtain ⟨_, _, _, h⟩ := release_frame reg id r
  rw [h]
  rfl

@[simp] theorem release_listening : (reg.release id r).listening = reg.listening := by
  obtain ⟨_, _, _, h⟩ := release_frame reg id r
  rw [h]
  rfl

@[simp] theorem release_queues : (reg.release id r).queues = reg.queues := by
  obtain ⟨_, _, _, h⟩ := release_frame reg id r
  rw [h]
  rfl

@[simp] theorem release_scopes : (reg.release id r).scopes = reg.scopes := by
  obtain ⟨_, _, _, h⟩ := release_frame reg id r
  rw [h]
  rfl

@[simp] theorem release_closedScopes : (reg.release id r).closedScopes = reg.closedScopes := by
  obtain ⟨_, _, _, h⟩ := release_frame reg id r
  rw [h]
  rfl

@[simp] theorem release_scopeSeq : (reg.release id r).scopeSeq = reg.scopeSeq := by
  obtain ⟨_, _, _, h⟩ := release_frame reg id r
  rw [h]
  rfl

theorem release_records :
    (reg.release id r).records = Function.update reg.records id (some (releasedOf r)) := by
  obtain ⟨_, _, _, h⟩ := release_frame reg id r
  rw [h]
  rfl

theorem get_eq_some : reg.get id = some r ↔ id ∈ reg.registered ∧ reg.records id = some r := by
  unfold get
  split
  · next h => exact ⟨fun hr => ⟨h, hr⟩, fun hr => hr.2⟩
  · next h => exact ⟨fun hr => (by cases hr), fun hr => absurd hr.1 h⟩

/-! ## Rules for the compound sections -/

theorem drainOne_toStart (d : Drain) (id : JobId) : d.toStart <+: (drainOne cfg d id).toStart := by
  unfold drainOne
  split
  · exact List.prefix_rfl
  · split
    · exact List.prefix_rfl
    · split
      · exact List.prefix_rfl
      · exact List.prefix_append _ _

theorem foldl_drainOne_toStart (ids : List JobId) (d : Drain) :
    d.toStart <+: (ids.foldl (drainOne cfg) d).toStart := by
  induction ids generalizing d with
  | nil => exact List.prefix_rfl
  | cons id ids ih => exact (drainOne_toStart d id).trans (ih _)

/-- **Drain rule.** Each job the drain admits is registered, pending and finds room, and the jobs
admitted so far are a prefix of those it gives to start. -/
theorem drain_rule {P : Registry → List JobId → Prop}
    (hadm : ∀ reg' started id r, P reg' started → started ++ [id] <+: (reg.drain cfg lane).2 →
      reg'.get id = some r → reg'.isPending id = true → reg'.canAdmit cfg r = true →
      P (reg'.admitLocked id) (started ++ [id]))
    (hqueue : ∀ reg' started queues, P reg' started → P { reg' with queues := queues } started)
    (h : P reg []) : P (reg.drain cfg lane).1 (reg.drain cfg lane).2 := by
  have hfold : ∀ (ids : List JobId) (d : Drain), P d.reg d.toStart →
      (ids.foldl (drainOne cfg) d).toStart <+: (reg.drain cfg lane).2 →
      P (ids.foldl (drainOne cfg) d).reg (ids.foldl (drainOne cfg) d).toStart := by
    intro ids
    induction ids with
    | nil => intro d hd _; exact hd
    | cons id ids ih =>
      intro d hd hprefix
      refine ih _ ?_ hprefix
      have hone : (drainOne cfg d id).toStart <+: (reg.drain cfg lane).2 :=
        (foldl_drainOne_toStart ids _).trans hprefix
      unfold drainOne at hone ⊢
      split
      · exact hd
      · next r hr =>
        rw [hr] at hone
        split
        · exact hd
        · next hp =>
          split
          · exact hd
          · next hs =>
            simp only [hp, hs, Bool.false_eq_true, if_false] at hone
            rw [Bool.or_eq_true, not_or] at hs
            exact hadm d.reg d.toStart id r hd hone hr (by simpa using hp) (by simpa using hs.2)
  exact hqueue _ _ _ (hfold _ _ h List.prefix_rfl)

/-- Only records of ended jobs are pruned. -/
theorem mem_surplus {limit : Int} {p : Record → Bool} (h : id ∈ reg.surplus limit p) :
    ∃ r, reg.get id = some r ∧ r.terminal = true := by
  obtain ⟨⟨j, at_⟩, hj, rfl⟩ := List.mem_map.mp h
  have hmem := (List.mem_insertionSort _).mp (List.mem_of_mem_take hj)
  obtain ⟨k, hk, hsome⟩ := List.mem_filterMap.mp hmem
  split at hsome
  · next r hr =>
    split at hsome
    · next ht =>
      cases hsome
      exact ⟨r, get_eq_some.mpr ⟨hk, hr⟩, (Bool.and_eq_true_iff.mp ht).1⟩
    · cases hsome
  · cases hsome

theorem pruneHistory_invariant {P : Registry → Prop}
    (hforget : ∀ reg ids, P reg → (∀ id ∈ ids, ∃ r, reg.get id = some r ∧ r.terminal = true) →
      P (reg.forget ids))
    (h : P reg) : P (reg.pruneHistory cfg) := by
  apply hforget
  · exact hforget _ _ h fun id hid => mem_surplus hid
  · intro id hid
    obtain ⟨session, -, hid⟩ := List.mem_flatMap.mp hid
    exact mem_surplus hid

/-- **Terminal rule.** What releasing a slot, forgetting ended records, draining and rewriting the
queues preserve, the terminal section preserves. -/
theorem onTerminal_rule {P : Registry → List JobId → Prop}
    (hrelease : ∀ reg' r, P reg' [] → reg'.get id = some r → r.terminal = false →
      P (reg'.release id r) [])
    (hforget : ∀ reg' ids, P reg' [] →
      (∀ id ∈ ids, ∃ r, reg'.get id = some r ∧ r.terminal = true) → P (reg'.forget ids) [])
    (hadm : ∀ reg' started j r, P reg' started → started ++ [j] <+: (reg.onTerminal cfg id).2 →
      reg'.get j = some r → reg'.isPending j = true → reg'.canAdmit cfg r = true →
      P (reg'.admitLocked j) (started ++ [j]))
    (hqueue : ∀ reg' started queues, P reg' started → P { reg' with queues := queues } started)
    (h : P reg []) : P (reg.onTerminal cfg id).1 (reg.onTerminal cfg id).2 := by
  unfold onTerminal at hadm ⊢
  split
  · exact h
  · next r hr =>
    split
    · exact h
    · next ht =>
      simp only [hr, ht] at hadm
      apply drain_rule hadm hqueue
      apply pruneHistory_invariant hforget
      exact hrelease _ _ (hqueue _ _ _ h) hr (by simpa using ht)

theorem onTerminal_invariant {P : Registry → Prop}
    (hrelease : ∀ reg r, P reg → reg.get id = some r → r.terminal = false → P (reg.release id r))
    (hforget : ∀ reg ids, P reg → (∀ id ∈ ids, ∃ r, reg.get id = some r ∧ r.terminal = true) →
      P (reg.forget ids))
    (hadm : ∀ reg id r, P reg → reg.get id = some r → reg.isPending id = true →
      reg.canAdmit cfg r = true → P (reg.admitLocked id))
    (hqueue : ∀ reg queues, P reg → P { reg with queues := queues })
    (h : P reg) : P (reg.onTerminal cfg id).1 :=
  onTerminal_rule (P := fun reg _ => P reg) hrelease hforget
    (fun reg' _ j r hp _ hr hpend hcan => hadm reg' j r hp hr hpend hcan)
    (fun reg' _ queues hp => hqueue reg' queues hp) h

theorem admitLocked_keys (reg : Registry) (id j : JobId) :
    ((reg.admitLocked id).records j).map Record.keys = (reg.records j).map Record.keys := by
  rcases hr : reg.records id with _ | r
  · rw [admitLocked_of_none hr]
  · rw [admitLocked_records hr]
    by_cases hj : j = id
    · subst hj; simp [hr]; rfl
    · simp [hj]

/-- A record found after a change of leases was there before it, with the same keys. -/
theorem records_of_keys {reg' : Registry} {q : Record}
    (hk : (reg'.records id).map Record.keys = (reg.records id).map Record.keys)
    (hq : reg'.records id = some q) : ∃ p, reg.records id = some p ∧ q.keys = p.keys := by
  rw [hq, Option.map_some] at hk
  obtain ⟨p, hp, hkeys⟩ := Option.map_eq_some_iff.mp hk.symm
  exact ⟨p, hp, hkeys.symm⟩

theorem onTerminal_keys (reg : Registry) (id j : JobId) :
    ((reg.onTerminal cfg id).1.records j).map Record.keys = (reg.records j).map Record.keys := by
  apply onTerminal_invariant
    (P := fun reg' => (reg'.records j).map Record.keys = (reg.records j).map Record.keys)
  · intro reg' r h hr _
    rw [← h, release_records]
    by_cases hj : j = id
    · subst hj; simp [(get_eq_some.mp hr).2]; rfl
    · simp [hj]
  · intro reg' ids h _
    exact h
  · intro reg' k r h _ _ _
    rwa [admitLocked_keys]
  · intro reg' queues h
    exact h
  · rfl

theorem onTerminal_registered {j : JobId} (h : j ∈ (reg.onTerminal cfg id).1.registered) :
    j ∈ reg.registered := by
  revert h
  apply onTerminal_invariant (P := fun reg' => j ∈ reg'.registered → j ∈ reg.registered)
  · intro reg' r h _ _ hj
    exact h (by rwa [release_registered] at hj)
  · intro reg' ids h _ hj
    exact h (List.mem_filter.mp hj).1
  · intro reg' k r h _ _ _ hj
    exact h (by rwa [admitLocked_registered] at hj)
  · intro reg' queues h
    exact h
  · exact fun h => h

/-- The terminal section leaves jobs and scopes alone. -/
theorem onTerminal_frame (reg : Registry) (id : JobId) :
    (reg.onTerminal cfg id).1.jobs = reg.jobs ∧ (reg.onTerminal cfg id).1.scopes = reg.scopes ∧
      (reg.onTerminal cfg id).1.closedScopes = reg.closedScopes ∧
      (reg.onTerminal cfg id).1.scopeSeq = reg.scopeSeq := by
  apply onTerminal_invariant (P := fun reg' => reg'.jobs = reg.jobs ∧ reg'.scopes = reg.scopes ∧
    reg'.closedScopes = reg.closedScopes ∧ reg'.scopeSeq = reg.scopeSeq)
  · intro reg' r h _ _
    simpa using h
  · intro reg' ids h _
    exact h
  · intro reg' j r h _ _ _
    simpa using h
  · intro reg' queues h
    exact h
  · exact ⟨rfl, rfl, rfl, rfl⟩

end Registry

end MiniAgent.Jobs
