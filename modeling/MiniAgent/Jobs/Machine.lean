import MiniAgent.Jobs.Registry
import MiniAgent.Lib.Threads

/-!
# Calls on one registry

Every public call of `JobRegistry` and of `Job` as the atomic steps it takes: a section under the
registry lock, or one read or write under a job's lock. `exec` runs one of them and gives the steps
to take next; `Lib.Threads` interleaves any number of calls.

A state change of a job and the notification of it are two steps: the listeners are read after the
job's lock is released (`notify`), then the snapshot (`inform`), then the registry lock is taken
(`onTerminal`). An exception that `_notify` swallows ends the callback's own frames and nothing
else.
-/

namespace MiniAgent.Jobs

/-- How the free choice of a step comes out: as it should, with an exception of the job's carrier,
or after a deadline has passed. -/
inductive Turnout where
  | normal | fault | deadline
  deriving DecidableEq

/-- `CloseReport`. -/
structure CloseReport where
  closed : List JobId
  timedOut : List JobId
  failed : List JobId
  deriving DecidableEq

/-- Where `_close_scope` stands on the job it is at: before its first look, between the look and the
cancellation of a pending job, or between the close of a running job and the verdict. -/
inductive Phase where
  | look | cancelling | verdict
  deriving DecidableEq

/-- A `_close_scope` call after its section: the jobs still to be dealt with, and the report so
far. -/
structure Closing where
  scope : JobScope
  pending : List JobId
  running : List JobId
  phase : Phase
  report : CloseReport
  deriving DecidableEq

inductive Frame where
  | register (id : JobId) (scope : JobScope) (lane : JobLane) (admission : AdmissionPolicy)
      (now : Int) (thenStart : Bool)
  | addListener (id : JobId)
  | start (id : JobId)
  | finishAdmission (id : JobId)
  | enqueue (id : JobId)
  | waiting (id : JobId)
  | startJobs (ids : List JobId)
  | launch (id : JobId) (rest : List JobId)
  | raised (id : JobId)
  | rescue (id : JobId)
  | finish (id : JobId) (state : JobState)
  | cancel (id : JobId)
  | notify (id : JobId)
  | inform (id : JobId)
  | onTerminal (id : JobId)
  | unregister (id : JobId)
  | removeListener (id : JobId)
  | createScope (parent : JobScope) (kind : JobScopeKind) (owner : JobOwner)
      (parentJobId : Option JobId)
  | closeScope (scope : JobScope)
  | closing (c : Closing)
  | returned (c : Closing)
  deriving DecidableEq

namespace Registry

/-- A record enters the dictionary. -/
def enrol (reg : Registry) (id : JobId) (r : Record) : Registry :=
  { reg.setRecord id r with registered := reg.registered ++ [id] }

def setListening (reg : Registry) (id : JobId) (b : Bool) : Registry :=
  { reg with listening := Function.update reg.listening id b }

def enqueue (reg : Registry) (id : JobId) (lane : JobLane) : Registry :=
  { reg with queues := Function.update reg.queues lane (reg.queues lane ++ [id]) }

def unregister (reg : Registry) (id : JobId) : Registry :=
  { reg with registered := reg.registered.filter (· ≠ id) }

def addScope (reg : Registry) (scope : JobScope) : Registry :=
  { reg with scopes := reg.scopes ++ [scope], scopeSeq := reg.scopeSeq + 1 }

/-- The scope and all its descendants are closed. -/
def closeTree (reg : Registry) (scope : JobScope) : Registry :=
  { reg with
    closedScopes :=
      (reg.scopes.filter fun s => scope.contains s).map JobScope.scopeId ++ reg.closedScopes }

/-- The registered jobs of a subtree in one state, with the depths of their scopes. -/
def within (reg : Registry) (scope : JobScope) (state : JobState) : List (JobId × Nat) :=
  reg.registered.filterMap fun id => match reg.records id with
    | some r =>
      if scope.contains r.scope ∧ reg.jobs id = state then some (id, r.scope.depth) else none
    | none => none

/-- The section of `_close_scope`: what it leaves the call with. Running jobs are taken deepest
scope first. -/
def classify (reg : Registry) (scope : JobScope) : Closing where
  scope := scope
  pending := (reg.within scope .pending).map Prod.fst
  running := ((reg.within scope .running).insertionSort fun a b => b.2 ≤ a.2).map Prod.fst
  phase := .look
  report := ⟨[], [], []⟩

end Registry

namespace Closing

/-- The pending job at the head is done with. -/
def dropPending (c : Closing) (rest : List JobId) (report : CloseReport) : Closing :=
  { c with pending := rest, phase := .look, report := report }

def dropRunning (c : Closing) (rest : List JobId) (report : CloseReport) : Closing :=
  { c with running := rest, phase := .look, report := report }

end Closing

namespace CloseReport

def addClosed (rep : CloseReport) (id : JobId) : CloseReport :=
  { rep with closed := rep.closed ++ [id] }

def addTimedOut (rep : CloseReport) (id : JobId) : CloseReport :=
  { rep with timedOut := rep.timedOut ++ [id] }

def addFailed (rep : CloseReport) (id : JobId) : CloseReport :=
  { rep with failed := rep.failed ++ [id] }

end CloseReport

variable (cfg : Settings)

/-- The state change of `Job.cancel`, and whether it notifies. -/
def cancelJob (reg : Registry) (id : JobId) : Registry × List Frame :=
  match reg.jobs id with
  | .pending => (reg.setJob id .cancelled, [.notify id])
  | .running => (reg, [.notify id])
  | _ => (reg, [])

/-- One step of the loops of `_close_scope`, over the pending jobs and then the running ones. -/
def execClosing (reg : Registry) (c : Closing) (o : Turnout) : Registry × List Frame :=
  match c.pending with
  | id :: rest =>
    if c.phase = .cancelling then
      let (reg', notices) := cancelJob reg id
      -- only the stop signal of a running job can raise
      let report := if reg.jobs id = .running ∧ o = .fault then c.report.addFailed id
        else c.report.addClosed id
      (reg', notices ++ [.closing (c.dropPending rest report)])
    else if reg.isPending id then (reg, [.closing { c with phase := .cancelling }])
    else (reg, [.closing (c.dropPending rest c.report)])
  | [] => match c.running with
    | id :: rest =>
      if o = .fault then (reg, [.closing (c.dropRunning rest (c.report.addFailed id))])
      else if c.phase = .verdict then
        if (reg.jobs id).terminal then
          (reg, [.closing (c.dropRunning rest (c.report.addClosed id))])
        else (reg, [.closing (c.dropRunning rest (c.report.addTimedOut id))])
      else if o = .deadline then (reg, [.closing (c.dropRunning rest (c.report.addTimedOut id))])
      else (reg, [.cancel id, .closing { c with phase := .verdict }])
    | [] => (reg, [.returned c])

/-- **One atomic step of a call.** -/
def exec (reg : Registry) : Frame → Turnout → Option (Registry × List Frame)
  | .register id scope lane admission now thenStart, _ =>
    if scope ∉ reg.scopes then none
    else if scope.scopeId ∈ reg.closedScopes ∨ id ∈ reg.registered ∨ reg.jobs id ≠ .pending then
      some (reg, [])
    else some (reg.enrol id ⟨scope, lane, admission, now, none, false, false⟩,
      .addListener id :: if thenStart then [.start id] else [])
  | .addListener id, _ => some (reg.setListening id true, [])
  | .start id, _ => match reg.get id with
    | none => some (reg, [])
    | some r =>
      if reg.jobs id ≠ .pending then some (reg, [])
      else match reg.decision cfg r with
        | .admitNow => some (reg, [.finishAdmission id])
        | .queue => some (reg, [.enqueue id])
        | .reject | .full => some (reg, [.cancel id])
  | .finishAdmission id, _ => some (reg.admitLocked id, [.startJobs [id]])
  | .enqueue id, _ => match reg.records id with
    | none => some (reg, [])
    | some r =>
      if reg.jobs id ≠ .pending then some (reg, [])
      else some (reg.enqueue id r.lane, [.waiting id])
  | .waiting id, o => match reg.records id with
    | none => some (reg, [])
    | some r =>
      if r.admitted || reg.jobs id != .pending then some (reg, [])
      else if o = .deadline && r.admission.hasTimeout then some (reg, [.cancel id])
      else some (reg, [.waiting id])
  | .startJobs [], _ => some (reg, [])
  | .startJobs (id :: rest), _ =>
    if reg.jobs id = .pending then some (reg.setJob id .running, [.notify id, .launch id rest])
    else some (reg, [.raised id])
  | .launch id rest, o =>
    if o = .fault then some (reg, [.raised id]) else some (reg, [.startJobs rest])
  | .raised id, _ =>
    if reg.jobs id = .running then some (reg.setJob id .failed, [.notify id])
    else some (reg, [.rescue id])
  | .rescue id, o =>
    let (reg', notices) := cancelJob reg id
    some (reg', notices ++ if reg.jobs id = .running ∧ o = .fault then [.onTerminal id] else [])
  | .finish id state, _ =>
    if reg.jobs id = .running ∧ state.terminal then some (reg.setJob id state, [.notify id])
    else some (reg, [])
  | .cancel id, _ => some (cancelJob reg id)
  | .notify id, _ => some (reg, if reg.listening id then [.inform id] else [])
  | .inform id, _ => some (reg, if (reg.jobs id).terminal then [.onTerminal id] else [])
  | .onTerminal id, _ =>
    let (reg', toStart) := reg.onTerminal cfg id
    some (reg', [.startJobs toStart])
  | .unregister id, _ =>
    if id ∈ reg.registered ∧ (reg.jobs id).terminal then
      some (reg.unregister id, [.removeListener id])
    else some (reg, [])
  | .removeListener id, _ => some (reg.setListening id false, [])
  | .createScope parent kind owner parentJobId, _ =>
    if parent ∉ reg.scopes then none
    else if kind = .system ∨ parent.scopeId ∈ reg.closedScopes then some (reg, [])
    else match mergeOwner parent.owner owner with
      | none => some (reg, [])
      | some merged =>
        some (reg.addScope (.child (reg.scopeSeq + 1) kind parentJobId merged parent), [])
  | .closeScope scope, _ =>
    if scope ∉ reg.scopes then none
    else if scope.scopeId ∈ reg.closedScopes then some (reg, [])
    else some (reg.closeTree scope, [.closing (reg.classify scope)])
  | .closing c, o => some (execClosing reg c o)
  | .returned _, _ => none

/-! ## What a step can do to the registry -/

/-- The moves of the job state machine. -/
inductive JobState.Moves : JobState → JobState → Prop where
  | start : Moves .pending .running
  | cancel : Moves .pending .cancelled
  | finish {state : JobState} : state.terminal = true → Moves .running state

theorem JobState.Moves.not_pending {a b : JobState} (h : a.Moves b) : b ≠ .pending := by
  cases h with
  | start | cancel => decide
  | finish ht => rintro rfl; cases ht

theorem JobState.Moves.of_terminal {a b : JobState} (h : a.Moves b) : a.terminal = false := by
  cases h <;> rfl

/-- **The changes a frame can make**, each with what its section has checked. -/
inductive Change (reg : Registry) : Frame → Registry → Prop where
  | same {f : Frame} : Change reg f reg
  | enrol {id : JobId} {r : Record} {f : Frame} : id ∉ reg.registered → reg.jobs id = .pending →
      r.scope ∈ reg.scopes → r.scope.scopeId ∉ reg.closedScopes → r.lease = none →
      r.terminal = false →
      (∃ now thenStart, f = .register id r.scope r.lane r.admission now thenStart) →
      Change reg f (reg.enrol id r)
  | listen {id : JobId} : Change reg (.addListener id) (reg.setListening id true)
  | unlisten {id : JobId} : Change reg (.removeListener id) (reg.setListening id false)
  | admission {id : JobId} : Change reg (.finishAdmission id) (reg.admitLocked id)
  | enqueue {id : JobId} {r : Record} : reg.records id = some r → reg.jobs id = .pending →
      Change reg (.enqueue id) (reg.enqueue id r.lane)
  | job {id : JobId} {state : JobState} {f : Frame} : (reg.jobs id).Moves state →
      (state = .running → ∃ rest, f = .startJobs (id :: rest)) → Change reg f (reg.setJob id state)
  | terminal {id : JobId} : Change reg (.onTerminal id) (reg.onTerminal cfg id).1
  | unregister {id : JobId} : id ∈ reg.registered → (reg.jobs id).terminal = true →
      Change reg (.unregister id) (reg.unregister id)
  | addScope {scope : JobScope} {f : Frame} : scope.scopeId = reg.scopeSeq + 1 →
      (∃ id kind parentJobId owner parent, scope = .child id kind parentJobId owner parent ∧
        parent ∈ reg.scopes ∧ parent.scopeId ∉ reg.closedScopes) →
      Change reg f (reg.addScope scope)
  | closeTree {scope : JobScope} : scope ∈ reg.scopes →
      Change reg (.closeScope scope) (reg.closeTree scope)

variable {cfg} {reg reg' : Registry} {f : Frame} {o : Turnout} {new : List Frame}

theorem cancelJob_change {id : JobId} : Change cfg reg f (cancelJob reg id).1 := by
  unfold cancelJob
  split
  · next h => exact .job (h ▸ .cancel) (fun hr => by cases hr)
  · exact .same
  · exact .same

theorem execClosing_change {c : Closing} : Change cfg reg f (execClosing reg c o).1 := by
  unfold execClosing
  split
  · split
    · exact cancelJob_change
    · split
      · exact .same
      · exact .same
  · split
    · repeat' split
      all_goals exact .same
    · exact .same

theorem exec_change (h : exec cfg reg f o = some (reg', new)) : Change cfg reg f reg' := by
  cases f with
  | register id scope lane admission now thenStart =>
    rw [exec] at h
    split at h
    · cases h
    · next hscope =>
      split at h
      · cases h; exact .same
      · next hbad =>
        cases h
        rw [not_or, not_or, not_not] at hbad
        rw [not_not] at hscope
        exact .enrol hbad.2.1 hbad.2.2 hscope hbad.1 rfl rfl ⟨now, thenStart, rfl⟩
  | addListener id => cases h; exact .listen
  | start id =>
    rw [exec] at h
    repeat' split at h
    all_goals cases h; exact .same
  | finishAdmission id => cases h; exact .admission
  | enqueue id =>
    rw [exec] at h
    split at h
    · cases h; exact .same
    · next r hr =>
      split at h
      · cases h; exact .same
      · next hp => cases h; exact .enqueue hr (not_not.mp hp)
  | waiting id =>
    rw [exec] at h
    repeat' split at h
    all_goals cases h; exact .same
  | startJobs ids =>
    cases ids with
    | nil => cases h; exact .same
    | cons id rest =>
      rw [exec] at h
      split at h
      · next hp => cases h; exact .job (hp ▸ .start) (fun _ => ⟨rest, rfl⟩)
      · cases h; exact .same
  | launch id rest =>
    rw [exec] at h
    split at h <;> · cases h; exact .same
  | raised id =>
    rw [exec] at h
    split at h
    · next hr => cases h; exact .job (hr ▸ .finish rfl) (fun hr => by cases hr)
    · cases h; exact .same
  | rescue id => cases h; exact cancelJob_change
  | finish id state =>
    rw [exec] at h
    split at h
    · next hr =>
      cases h
      exact .job (hr.1 ▸ .finish hr.2) (fun he => by rw [he] at hr; cases hr.2)
    · cases h; exact .same
  | cancel id =>
    rw [exec] at h
    have hc : (cancelJob reg id).1 = reg' := congrArg Prod.fst (Option.some.inj h)
    exact hc ▸ cancelJob_change
  | notify id => cases h; exact .same
  | inform id => cases h; exact .same
  | onTerminal id => cases h; exact .terminal
  | unregister id =>
    rw [exec] at h
    split at h
    · next hr => cases h; exact .unregister hr.1 hr.2
    · cases h; exact .same
  | removeListener id => cases h; exact .unlisten
  | createScope parent kind owner parentJobId =>
    rw [exec] at h
    split at h
    · cases h
    · next hparent =>
      split at h
      · cases h; exact .same
      · next hbad =>
        rw [not_or] at hbad
        rw [not_not] at hparent
        split at h
        · cases h; exact .same
        · cases h; exact .addScope rfl ⟨_, _, _, _, _, rfl, hparent, hbad.2⟩
  | closeScope scope =>
    rw [exec] at h
    split at h
    · cases h
    · next hscope =>
      split at h
      · cases h; exact .same
      · cases h; exact .closeTree (not_not.mp hscope)
  | closing c =>
    rw [exec] at h
    have hc : (execClosing reg c o).1 = reg' := congrArg Prod.fst (Option.some.inj h)
    exact hc ▸ execClosing_change
  | returned c => cases h

variable (cfg)

/-- The frames a call begins with. A carrier reports the end of its job (`finish`), and a service
the change of its health (`notify`). -/
def Frame.isCall : Frame → Bool
  | .register .. | .start _ | .finish _ _ | .cancel _ | .notify _ | .unregister _
  | .createScope .. | .closeScope _ => true
  | _ => false

/-- Calls in progress on one registry. -/
abbrev Calls := Lib.Threads Registry Frame

def Calls.step : Calls → Lib.Move Frame Turnout → Option Calls :=
  Lib.Threads.step (fun _ f => f.isCall) (exec cfg)

/-- A new registry, with no call in progress. -/
def Calls.init : Calls := ⟨.new, []⟩

/-! Runs are written down with `steps`; the ones of this development begin with a session of two
background jobs, of which one may run at a time. -/

/-- Thread `k` takes `n` steps. -/
def steps (k n : Nat) : List (Lib.Move Frame Turnout) := List.replicate n (.advance k .normal)

def sessionScope : JobScope := .child 2 .session none ⟨some "s", none, none⟩ (.root 1)

def twoJobs : List (Lib.Move Frame Turnout) :=
  .call (.createScope (.root 1) .session ⟨some "s", none, none⟩ none) :: steps 0 1
    ++ .call (.register "a" sessionScope .background ⟨.wait, false, .counted⟩ 0 false) :: steps 1 2
    ++ .call (.register "b" sessionScope .background ⟨.wait, false, .counted⟩ 1 false) :: steps 2 2

/-! ## Pending jobs stay on the books -/

variable {cfg}

/-- A job moves along its state machine or stays. -/
theorem Change.jobs (h : Change cfg reg f reg') (id : JobId) :
    reg'.jobs id = reg.jobs id ∨ (reg.jobs id).Moves (reg'.jobs id) := by
  cases h with
  | admission => exact .inl (by rw [Registry.admitLocked_jobs])
  | terminal => exact .inl (by rw [(Registry.onTerminal_frame reg _).1])
  | @job j state f hmove _ =>
    by_cases hj : id = j
    · subst hj
      exact .inr (by simpa [Registry.setJob] using hmove)
    · exact .inl (by simp [Registry.setJob, hj])
  | _ => exact .inl rfl

theorem Change.not_pending (h : Change cfg reg f reg') {id : JobId} (hp : reg.jobs id ≠ .pending) :
    reg'.jobs id ≠ .pending := by
  rcases h.jobs id with he | hm
  · rwa [he]
  · exact hm.not_pending

theorem Change.terminal_stays (h : Change cfg reg f reg') {id : JobId}
    (ht : (reg.jobs id).terminal = true) : (reg'.jobs id).terminal = true := by
  rcases h.jobs id with he | hm
  · rwa [he]
  · rw [hm.of_terminal] at ht; cases ht

theorem cancelJob_frames {id : JobId} {g : Frame} (hg : g ∈ (cancelJob reg id).2) :
    g = .notify id := by
  unfold cancelJob at hg
  split at hg
  · exact List.mem_singleton.mp hg
  · exact List.mem_singleton.mp hg
  · cases hg

/-- What a closing call has still to do is to notify, to cancel and to close. -/
theorem execClosing_frames {c : Closing} {g : Frame} (hg : g ∈ (execClosing reg c o).2) :
    (∃ id, g = .notify id ∨ g = .cancel id) ∨ ∃ c', g = .closing c' ∨ g = .returned c' := by
  unfold execClosing at hg
  split at hg
  · next id rest hp =>
    split at hg
    · rcases List.mem_append.mp hg with hg | hg
      · exact .inl ⟨id, .inl (cancelJob_frames hg)⟩
      · exact .inr ⟨_, .inl (List.mem_singleton.mp hg)⟩
    · split at hg <;> exact .inr ⟨_, .inl (List.mem_singleton.mp hg)⟩
  · split at hg
    · next id rest hr =>
      split at hg
      · exact .inr ⟨_, .inl (List.mem_singleton.mp hg)⟩
      · split at hg
        · split at hg <;> exact .inr ⟨_, .inl (List.mem_singleton.mp hg)⟩
        · split at hg
          · exact .inr ⟨_, .inl (List.mem_singleton.mp hg)⟩
          · rcases List.mem_cons.mp hg with rfl | hg
            · exact .inl ⟨id, .inr rfl⟩
            · exact .inr ⟨_, .inl (List.mem_singleton.mp hg)⟩
    · exact .inr ⟨_, .inr (List.mem_singleton.mp hg)⟩

/-- Where the frames come from that other calls depend on. -/
def Pushed (reg : Registry) (f : Frame) (reg' : Registry) : Frame → Prop
  | .onTerminal id =>
    f = .inform id ∧ (reg.jobs id).terminal = true ∨ f = .rescue id ∧ reg.jobs id = .running
  | .removeListener id =>
    f = .unregister id ∧ (reg.jobs id).terminal = true ∧ reg' = reg.unregister id
  | .closing c =>
    (∃ scope, f = .closeScope scope ∧ scope ∈ reg.scopes ∧ reg' = reg.closeTree scope ∧
      c = reg.classify scope) ∨ ∃ c₀, f = .closing c₀
  | .returned c => f = .closing c ∧ c.pending = [] ∧ c.running = []
  | _ => True

theorem execClosing_pushed {c : Closing} {g : Frame} (hg : g ∈ (execClosing reg c o).2) :
    Pushed reg (.closing c) reg' g := by
  obtain ⟨id, rfl | rfl⟩ | ⟨c', rfl | rfl⟩ := execClosing_frames hg
  · trivial
  · trivial
  · exact .inr ⟨c, rfl⟩
  · unfold execClosing at hg
    split at hg
    · split at hg
      · rcases List.mem_append.mp hg with hg | hg
        · cases cancelJob_frames hg
        · cases List.mem_singleton.mp hg
      · split at hg <;> cases List.mem_singleton.mp hg
    · next hp =>
      split at hg
      · repeat' split at hg
        all_goals simp at hg
      · next hr =>
        cases List.mem_singleton.mp hg
        exact ⟨rfl, hp, hr⟩

theorem exec_pushed {g : Frame} (h : exec cfg reg f o = some (reg', new)) (hg : g ∈ new) :
    Pushed reg f reg' g := by
  cases f with
  | inform id =>
    cases h
    split at hg
    · next ht => cases List.mem_singleton.mp hg; exact .inl ⟨rfl, ht⟩
    · cases hg
  | rescue id =>
    cases h
    rcases List.mem_append.mp hg with hg | hg
    · cases cancelJob_frames hg; trivial
    · split at hg
      · next hr => cases List.mem_singleton.mp hg; exact .inr ⟨rfl, hr.1⟩
      · cases hg
  | cancel id =>
    have hc : (cancelJob reg id).2 = new := congrArg Prod.snd (Option.some.inj h)
    cases cancelJob_frames (hc ▸ hg)
    trivial
  | closing c =>
    have hc : (execClosing reg c o).2 = new := congrArg Prod.snd (Option.some.inj h)
    exact execClosing_pushed (hc ▸ hg)
  | unregister id =>
    rw [exec] at h
    split at h
    · next ht =>
      cases h
      cases List.mem_singleton.mp hg
      exact ⟨rfl, ht.2, rfl⟩
    · cases h; cases hg
  | closeScope scope =>
    rw [exec] at h
    split at h
    · cases h
    · next hscope =>
      split at h
      · cases h; cases hg
      · cases h
        cases List.mem_singleton.mp hg
        exact .inl ⟨scope, rfl, not_not.mp hscope, rfl, rfl⟩
  | register id scope lane admission now thenStart =>
    rw [exec] at h
    split at h
    · cases h
    · split at h
      · cases h; cases hg
      · cases h
        cases thenStart <;> simp at hg
        · subst hg; trivial
        · rcases hg with rfl | rfl <;> trivial
  | startJobs ids =>
    cases ids with
    | nil => cases h; cases hg
    | cons id rest =>
      rw [exec] at h
      split at h
      · cases h
        simp at hg
        rcases hg with rfl | rfl <;> trivial
      · cases h
        cases List.mem_singleton.mp hg
        trivial
  | notify id =>
    cases h
    split at hg
    · cases List.mem_singleton.mp hg; trivial
    · cases hg
  | addListener _ | removeListener _ => cases h; cases hg
  | finishAdmission _ | onTerminal _ => cases h; cases List.mem_singleton.mp hg; trivial
  | returned c => cases h
  | start _ | enqueue _ | waiting _ | launch _ _ | raised _ | finish _ _ | createScope _ _ _ _ =>
    rw [exec] at h
    repeat' split at h
    all_goals first
      | (cases h; done)
      | (cases h; cases hg; done)
      | (cases h; cases List.mem_singleton.mp hg; trivial)

/-- A terminal callback is called for once the job has left `pending`. -/
theorem exec_onTerminal_mem {id : JobId} (h : exec cfg reg f o = some (reg', new))
    (hm : .onTerminal id ∈ new) : reg'.jobs id ≠ .pending := by
  apply (exec_change h).not_pending
  intro hp
  rcases exec_pushed h hm with ⟨-, ht⟩ | ⟨-, hr⟩
  · rw [hp] at ht; cases ht
  · rw [hp] at hr; cases hr

theorem setJob_ends {id j : JobId} {state : JobState} (hbefore : (reg.jobs id).terminal = false)
    (hafter : ((reg.setJob j state).jobs id).terminal = true) : id = j := by
  by_contra hne
  have hjobs : (reg.setJob j state).jobs id = reg.jobs id := Function.update_of_ne hne _ _
  rw [hjobs, hbefore] at hafter
  cases hafter

theorem cancelJob_notifies {id j : JobId} (hbefore : (reg.jobs id).terminal = false)
    (hafter : ((cancelJob reg j).1.jobs id).terminal = true) :
    .notify id ∈ (cancelJob reg j).2 := by
  unfold cancelJob at hafter ⊢
  split
  · next hp =>
    simp only [hp] at hafter
    cases setJob_ends hbefore hafter
    exact List.mem_cons_self
  · next hp =>
    simp only [hp] at hafter
    rw [hbefore] at hafter
    cases hafter
  · next hp hr =>
    split at hafter
    · next hp' => exact absurd hp' hp
    · next hr' => exact absurd hr' hr
    · rw [hbefore] at hafter; cases hafter

theorem execClosing_notifies {c : Closing} {id : JobId} (hbefore : (reg.jobs id).terminal = false)
    (hafter : ((execClosing reg c o).1.jobs id).terminal = true) :
    .notify id ∈ (execClosing reg c o).2 := by
  have hsame : ¬(reg.jobs id).terminal = true := by rw [hbefore]; decide
  unfold execClosing at hafter ⊢
  split
  · next j rest hp =>
    simp only [hp] at hafter
    split
    · next hc =>
      simp only [hc, if_true] at hafter
      exact List.mem_append_left _ (cancelJob_notifies hbefore hafter)
    · next hc =>
      simp only [hc, if_false] at hafter
      split at hafter <;> exact absurd hafter hsame
  · next hp =>
    simp only [hp] at hafter
    split at hafter
    · repeat' split at hafter
      all_goals exact absurd hafter hsame
    · exact absurd hafter hsame

/-- **A job that ends is notified of**, in the step after. -/
theorem exec_notifies {id : JobId} (h : exec cfg reg f o = some (reg', new))
    (hbefore : (reg.jobs id).terminal = false) (hafter : (reg'.jobs id).terminal = true) :
    .notify id ∈ new := by
  have hsame : ¬(reg.jobs id).terminal = true := by rw [hbefore]; decide
  cases f with
  | startJobs ids =>
    cases ids with
    | nil => cases h; exact absurd hafter hsame
    | cons j rest =>
      rw [exec] at h
      split at h
      · cases h
        cases setJob_ends hbefore hafter
        exact List.mem_cons_self
      · cases h; exact absurd hafter hsame
  | raised j =>
    rw [exec] at h
    split at h
    · cases h
      cases setJob_ends hbefore hafter
      exact List.mem_cons_self
    · cases h; exact absurd hafter hsame
  | finish j state =>
    rw [exec] at h
    split at h
    · cases h
      cases setJob_ends hbefore hafter
      exact List.mem_cons_self
    · cases h; exact absurd hafter hsame
  | rescue j =>
    cases h
    exact List.mem_append_left _ (cancelJob_notifies hbefore hafter)
  | cancel j =>
    rw [exec] at h
    have hc := Option.some.inj h
    have hreg : (cancelJob reg j).1 = reg' := congrArg Prod.fst hc
    have hnew : (cancelJob reg j).2 = new := congrArg Prod.snd hc
    exact hnew ▸ cancelJob_notifies hbefore (hreg ▸ hafter)
  | closing c =>
    rw [exec] at h
    have hc := Option.some.inj h
    have hreg : (execClosing reg c o).1 = reg' := congrArg Prod.fst hc
    have hnew : (execClosing reg c o).2 = new := congrArg Prod.snd hc
    exact hnew ▸ execClosing_notifies hbefore (hreg ▸ hafter)
  | finishAdmission j =>
    cases h
    rw [Registry.admitLocked_jobs] at hafter
    exact absurd hafter hsame
  | onTerminal j =>
    have hreg : (reg.onTerminal cfg j).1 = reg' := congrArg Prod.fst (Option.some.inj h)
    rw [← hreg, (Registry.onTerminal_frame reg j).1] at hafter
    exact absurd hafter hsame
  | addListener _ | removeListener _ | notify _ | inform _ => cases h; exact absurd hafter hsame
  | returned c => cases h
  | register _ _ _ _ _ _ | start _ | enqueue _ | waiting _ | launch _ _ | unregister _
  | createScope _ _ _ _ | closeScope _ =>
    rw [exec] at h
    repeat' split at h
    all_goals first
      | (cases h; done)
      | (cases h; exact absurd hafter hsame)

/-- The record of a pending job is registered and open. -/
def Kept (reg : Registry) : Prop :=
  ∀ id r, reg.records id = some r → reg.jobs id = .pending →
    id ∈ reg.registered ∧ r.terminal = false

theorem Kept.setRecord {id : JobId} {r r' : Record} (hk : Kept reg) (hr : reg.records id = some r)
    (ht : reg.jobs id = .pending → r'.terminal = r.terminal) : Kept (reg.setRecord id r') := by
  intro j q hq hp
  by_cases hj : j = id
  · subst hj
    simp only [Registry.setRecord, Function.update_self, Option.some.injEq] at hq
    subst hq
    obtain ⟨hmem, hopen⟩ := hk j r hr hp
    exact ⟨hmem, (ht hp).trans hopen⟩
  · exact hk j q (by simpa [Registry.setRecord, hj] using hq) hp

theorem Kept.admitLocked {id : JobId} (hk : Kept reg) : Kept (reg.admitLocked id) := by
  rcases hr : reg.records id with _ | r
  · rwa [Registry.admitLocked_of_none hr]
  · intro j q hq hp
    rw [Registry.admitLocked_records hr] at hq
    rw [Registry.admitLocked_registered]
    rw [Registry.admitLocked_jobs] at hp
    have hset : Kept (reg.setRecord id (reg.leaseOf r)) := hk.setRecord hr (fun _ => rfl)
    exact hset j q hq hp

theorem Kept.onTerminal {id : JobId} (hk : Kept reg) (hid : reg.jobs id ≠ .pending) :
    Kept (reg.onTerminal cfg id).1 := by
  suffices h : Kept (reg.onTerminal cfg id).1 ∧ (reg.onTerminal cfg id).1.jobs id ≠
      .pending from h.1
  apply Registry.onTerminal_invariant (P := fun reg' => Kept reg' ∧ reg'.jobs id ≠ .pending)
  · rintro reg' r ⟨hk', hid'⟩ hr _
    refine ⟨?_, by rwa [Registry.release_jobs]⟩
    intro j q hq hp
    rw [Registry.release_records] at hq
    rw [Registry.release_registered]
    rw [Registry.release_jobs] at hp
    have hset : Kept (reg'.setRecord id (Registry.releasedOf r)) :=
      hk'.setRecord (Registry.get_eq_some.mp hr).2 (fun hp' => absurd hp' hid')
    exact hset j q hq hp
  · rintro reg' ids ⟨hk', hid'⟩ hids
    refine ⟨fun j q hq hp => ?_, hid'⟩
    obtain ⟨hmem, hopen⟩ := hk' j q hq hp
    refine ⟨List.mem_filter.mpr ⟨hmem, ?_⟩, hopen⟩
    -- a pruned record is terminal, and this one is open
    by_contra hin
    obtain ⟨q', hq', ht⟩ := hids j (by simpa using hin)
    have hsame : some q = some q' := hq.symm.trans (Registry.get_eq_some.mp hq').2
    cases hsame
    rw [hopen] at ht
    cases ht
  · rintro reg' j r ⟨hk', hid'⟩ _ _ _
    exact ⟨hk'.admitLocked, by rwa [Registry.admitLocked_jobs]⟩
  · rintro reg' queues ⟨hk', hid'⟩
    exact ⟨hk', hid'⟩
  · exact ⟨hk, hid⟩

/-- What holds of every registry in use: no record is registered twice, and the record of a pending
job is registered and open; no terminal callback is on its way for a pending job. -/
structure WellFormed (s : Calls) : Prop where
  nodup : s.shared.registered.Nodup
  kept : Kept s.shared
  ended : ∀ id, s.Pending (.onTerminal id) → s.shared.jobs id ≠ .pending

theorem WellFormed.init : WellFormed Calls.init where
  nodup := List.nodup_nil
  kept _ _ h := by cases h
  ended _ h := by
    obtain ⟨t, ht, _⟩ := h
    cases ht

theorem Change.nodup (h : Change cfg reg f reg') (hnd : reg.registered.Nodup) :
    reg'.registered.Nodup := by
  cases h with
  | enrol hid _ _ _ _ _ _ =>
    exact List.nodup_append.mpr ⟨hnd, List.nodup_singleton _, fun a ha b hb he => by
      cases List.mem_singleton.mp hb
      exact hid (he ▸ ha)⟩
  | admission => rwa [Registry.admitLocked_registered]
  | terminal =>
    apply Registry.onTerminal_invariant (P := fun reg' => reg'.registered.Nodup)
    · intro reg' r h _ _
      rwa [Registry.release_registered]
    · intro reg' ids h _
      exact h.filter _
    · intro reg' id r h _ _ _
      rwa [Registry.admitLocked_registered]
    · intro reg' queues h
      exact h
    · exact hnd
  | unregister => exact hnd.filter _
  | _ => exact hnd

theorem Change.kept (h : Change cfg reg f reg') (hk : Kept reg)
    (hended : ∀ id, f = .onTerminal id → reg.jobs id ≠ .pending) : Kept reg' := by
  cases h with
  | @enrol id r f hid _ _ _ _ hopen _ =>
    intro j q hq hp
    by_cases hj : j = id
    · subst hj
      have hqr : q = r := by simpa [Registry.enrol, Registry.setRecord] using hq.symm
      subst hqr
      exact ⟨List.mem_append_right _ List.mem_cons_self, hopen⟩
    · obtain ⟨hmem, ht⟩ := hk j q (by simpa [Registry.enrol, Registry.setRecord, hj] using hq) hp
      exact ⟨List.mem_append_left _ hmem, ht⟩
  | admission => exact hk.admitLocked
  | terminal => exact hk.onTerminal (hended _ rfl)
  | @job id state f hmove _ =>
    intro j q hq hp
    by_cases hj : j = id
    · subst hj
      exact absurd (by simpa [Registry.setJob] using hp) hmove.not_pending
    · exact hk j q hq (by simpa [Registry.setJob, hj] using hp)
  | @unregister id _ ht =>
    intro j q hq hp
    obtain ⟨hmem, hopen⟩ := hk j q hq hp
    refine ⟨List.mem_filter.mpr ⟨hmem, ?_⟩, hopen⟩
    apply decide_eq_true
    rintro rfl
    have hp' : reg.jobs j = .pending := hp
    rw [hp'] at ht
    cases ht
  | _ => exact hk

/-- **The books stay in order** in every step. -/
theorem WellFormed.exec {s : Calls} {k : Nat} {rest : List Frame} (hs : WellFormed s)
    (hk : s.threads[k]? = some (f :: rest)) (h : exec cfg s.shared f o = some (reg', new)) :
    WellFormed ⟨reg', s.threads.set k (new ++ rest)⟩ where
  nodup := (exec_change h).nodup hs.nodup
  kept := (exec_change h).kept hs.kept fun id hf =>
    hs.ended id (hf ▸ Lib.Threads.pending_executed hk)
  ended id hp := by
    rcases Lib.Threads.pending_of_advance hk hp with hnew | hold
    · exact exec_onTerminal_mem h hnew
    · exact (exec_change h).not_pending (hs.ended id hold)

theorem WellFormed.call {s : Calls} (hs : WellFormed s) (hf : f.isCall = true) :
    WellFormed ⟨s.shared, s.threads ++ [[f]]⟩ where
  nodup := hs.nodup
  kept := hs.kept
  ended id hp := by
    rcases Lib.Threads.pending_call.mp hp with hp | rfl
    · exact hs.ended id hp
    · cases hf

end MiniAgent.Jobs
