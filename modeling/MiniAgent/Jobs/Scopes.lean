import MiniAgent.Jobs.Machine

/-!
# A closed scope is quiet

`_close_scope` marks the subtree closed, sorts its jobs into pending and running in one section, and
then deals with them one by one without the lock. While it does, every job of the subtree has ended,
or is pending and still to be cancelled, or is running and still to be closed or already reported
(`Covered`).

One crossing breaks this: a job that was sorted as pending and is started before its turn is neither
cancelled nor closed nor reported. `startsClear` is the condition that no start falls into the gap.
-/

namespace MiniAgent.Jobs

variable {cfg : Settings} {reg reg' : Registry} {f : Frame} {o : Turnout} {new : List Frame}
  {id : JobId} {c : Closing}

/-! ## What a step does to a subtree -/

/-- A job that begins to run was pending, and is at the head of `_start_jobs`. -/
theorem Change.starts (h : Change cfg reg f reg') (hbefore : reg.jobs id ≠ .running)
    (hafter : reg'.jobs id = .running) :
    reg.jobs id = .pending ∧ ∃ rest, f = .startJobs (id :: rest) := by
  cases h with
  | @job j state f hmove hstart =>
    by_cases hj : id = j
    · subst hj
      have hstate : state = .running := by simpa [Registry.setJob] using hafter
      subst hstate
      refine ⟨?_, hstart rfl⟩
      generalize reg.jobs id = before at hmove
      cases hmove with
      | start => rfl
      | finish ht => cases ht
    · exact absurd (by simpa [Registry.setJob, hj] using hafter) hbefore
  | admission => rw [Registry.admitLocked_jobs] at hafter; exact absurd hafter hbefore
  | terminal => rw [(Registry.onTerminal_frame reg _).1] at hafter; exact absurd hafter hbefore
  | _ => exact absurd hafter hbefore

/-- A registered job was registered before in the same scope, or its scope is open. -/
theorem Change.registered_back {q : Record} (h : Change cfg reg f reg')
    (hq : reg'.get id = some q) :
    (∃ p, reg.get id = some p ∧ q.scope = p.scope) ∨
      q.scope ∈ reg.scopes ∧ q.scope.scopeId ∉ reg.closedScopes := by
  have hkeys : (∀ j, (reg'.records j).map Record.keys = (reg.records j).map Record.keys) →
      (∀ j, j ∈ reg'.registered → j ∈ reg.registered) →
      ∃ p, reg.get id = some p ∧ q.scope = p.scope := by
    intro hk hreg
    obtain ⟨hmem, hrec⟩ := Registry.get_eq_some.mp hq
    obtain ⟨p, hp, hkeys⟩ := Registry.records_of_keys (hk id) hrec
    exact ⟨p, Registry.get_eq_some.mpr ⟨hreg id hmem, hp⟩, congrArg Prod.fst hkeys⟩
  cases h with
  | @enrol j r f hj _ hscope hopen _ _ _ =>
    obtain ⟨hmem, hrec⟩ := Registry.get_eq_some.mp hq
    by_cases hji : id = j
    · subst hji
      have hqr : q = r := by simpa [Registry.enrol, Registry.setRecord] using hrec.symm
      exact .inr (hqr ▸ ⟨hscope, hopen⟩)
    · have hmem' : id ∈ reg.registered := by
        simpa [Registry.enrol, Registry.setRecord, hji] using hmem
      exact .inl ⟨q, Registry.get_eq_some.mpr
        ⟨hmem', by simpa [Registry.enrol, Registry.setRecord, hji] using hrec⟩, rfl⟩
  | admission =>
    exact .inl (hkeys (Registry.admitLocked_keys reg _) fun j hj => by
      rwa [Registry.admitLocked_registered] at hj)
  | terminal =>
    exact .inl (hkeys (Registry.onTerminal_keys reg _) fun j hj =>
      Registry.onTerminal_registered hj)
  | unregister => exact .inl (hkeys (fun _ => rfl) fun j hj => (List.mem_filter.mp hj).1)
  | _ => exact .inl ⟨q, hq, rfl⟩

/-- Scopes only grow, and stay closed. -/
theorem Change.scopes_mono (h : Change cfg reg f reg') :
    (∀ s ∈ reg.scopes, s ∈ reg'.scopes) ∧ ∀ n ∈ reg.closedScopes, n ∈ reg'.closedScopes := by
  cases h with
  | admission =>
    rw [Registry.admitLocked_scopes, Registry.admitLocked_closedScopes]
    exact ⟨fun _ h => h, fun _ h => h⟩
  | @terminal j =>
    obtain ⟨-, hs, hc, -⟩ : (reg.onTerminal cfg j).1.jobs = reg.jobs ∧ _ :=
      Registry.onTerminal_frame reg j
    rw [hs, hc]
    exact ⟨fun _ h => h, fun _ h => h⟩
  | addScope => exact ⟨fun _ h => List.mem_append_left _ h, fun _ h => h⟩
  | closeTree => exact ⟨fun _ h => h, fun _ h => List.mem_append_right _ h⟩
  | _ => exact ⟨fun _ h => h, fun _ h => h⟩

/-- A scope that exists after the step existed before, or is the new child of an open scope. -/
theorem Change.scopes_back {scope : JobScope} (h : Change cfg reg f reg')
    (hs : scope ∈ reg'.scopes) :
    scope ∈ reg.scopes ∨ scope.scopeId = reg.scopeSeq + 1 ∧
      ∃ id kind parentJobId owner parent, scope = .child id kind parentJobId owner parent ∧
        parent ∈ reg.scopes ∧ parent.scopeId ∉ reg.closedScopes := by
  cases h with
  | admission => rw [Registry.admitLocked_scopes] at hs; exact .inl hs
  | terminal => rw [(Registry.onTerminal_frame reg _).2.1] at hs; exact .inl hs
  | addScope hid hparent =>
    rcases List.mem_append.mp hs with hs | hs
    · exact .inl hs
    · cases List.mem_singleton.mp hs
      exact .inr ⟨hid, hparent⟩
  | _ => exact .inl hs

/-! ## The invariant -/

/-- Scope numbers are in use up to the counter. -/
def Numbered (reg : Registry) : Prop := ∀ s ∈ reg.scopes, s.scopeId ≤ reg.scopeSeq

theorem Change.numbered (h : Change cfg reg f reg') (hn : Numbered reg) : Numbered reg' := by
  cases h with
  | admission =>
    intro s hs
    rw [Registry.admitLocked_scopes] at hs
    rw [Registry.admitLocked_scopeSeq]
    exact hn s hs
  | @terminal j =>
    obtain ⟨-, hscopes, -, hseq⟩ : (reg.onTerminal cfg j).1.jobs = reg.jobs ∧ _ :=
      Registry.onTerminal_frame reg j
    intro s hs
    rw [hscopes] at hs
    rw [hseq]
    exact hn s hs
  | addScope hid _ =>
    intro s hs
    rcases List.mem_append.mp hs with hs | hs
    · exact (hn s hs).trans (Nat.le_succ _)
    · cases List.mem_singleton.mp hs
      exact le_of_eq hid
  | _ => exact hn

/-- Where a closing call stands with its subtree: all of it is closed, and a job there has ended, or
is pending and still to be looked at, or is running and still to be closed or already reported. -/
structure Covered (reg : Registry) (c : Closing) : Prop where
  scope : c.scope ∈ reg.scopes
  closed : ∀ s ∈ reg.scopes, c.scope.contains s = true → s.scopeId ∈ reg.closedScopes
  jobs : ∀ id r, reg.get id = some r → c.scope.contains r.scope = true →
    (reg.jobs id).terminal = true ∨ (reg.jobs id = .pending ∧ id ∈ c.pending) ∨
      reg.jobs id = .running ∧ (id ∈ c.running ∨ id ∈ c.report.timedOut ∨ id ∈ c.report.failed)

/-- No job enters a closed subtree. -/
theorem Covered.back {q : Record} (hc : Covered reg c) (h : Change cfg reg f reg')
    (hq : reg'.get id = some q) (hin : c.scope.contains q.scope = true) :
    ∃ p, reg.get id = some p ∧ c.scope.contains p.scope = true := by
  rcases h.registered_back hq with ⟨p, hp, he⟩ | ⟨hscope, hopen⟩
  · exact ⟨p, hp, he ▸ hin⟩
  · exact absurd (hc.closed _ hscope hin) hopen

/-- **A step keeps a closing call covered**, unless it starts a job the call has yet to cancel. -/
theorem Covered.change (hc : Covered reg c) (hn : Numbered reg) (h : Change cfg reg f reg')
    (hclear : ∀ id rest, f = .startJobs (id :: rest) → reg.jobs id = .pending → id ∉ c.pending) :
    Covered reg' c where
  scope := h.scopes_mono.1 _ hc.scope
  closed s hs hin := by
    rcases h.scopes_back hs with hold | ⟨hid, id, kind, parentJobId, owner, parent, rfl, hp, hopen⟩
    · exact h.scopes_mono.2 _ (hc.closed s hold hin)
    · -- the parent of a new scope is open, and so outside
      rw [JobScope.contains, Bool.or_eq_true, beq_iff_eq] at hin
      rcases hin with heq | hin
      · have hle := hn _ hc.scope
        rw [heq, hid] at hle
        exact absurd hle (Nat.not_succ_le_self _)
      · exact absurd (hc.closed parent hp hin) hopen
  jobs id q hq hin := by
    obtain ⟨p, hp, hpin⟩ := hc.back h hq hin
    rcases hc.jobs id p hp hpin with ht | ⟨hpend, hmem⟩ | ⟨hrun, hmem⟩
    · exact .inl (h.terminal_stays ht)
    · rcases h.jobs id with he | hm
      · exact .inr (.inl ⟨he.trans hpend, hmem⟩)
      · rw [hpend] at hm
        generalize hafter : reg'.jobs id = after at hm
        cases hm with
        | start =>
          obtain ⟨-, rest, hf⟩ := h.starts (by rw [hpend]; decide) hafter
          exact absurd hmem (hclear id rest hf hpend)
        | cancel => exact .inl rfl
    · rcases h.jobs id with he | hm
      · exact .inr (.inr ⟨he.trans hrun, hmem⟩)
      · rw [hrun] at hm
        generalize hafter : reg'.jobs id = after at hm
        cases hm with
        | finish ht => exact .inl ht

/-- Dropping a job from the lists once it is accounted for. -/
theorem Covered.advance {c' : Closing} (hc : Covered reg c) (hscope : c'.scope = c.scope)
    (hjobs : ∀ id, (reg.jobs id = .pending ∧ id ∈ c.pending) ∨
        reg.jobs id = .running ∧ (id ∈ c.running ∨ id ∈ c.report.timedOut ∨ id ∈ c.report.failed) →
      (reg.jobs id).terminal = true ∨ (reg.jobs id = .pending ∧ id ∈ c'.pending) ∨
        reg.jobs id = .running ∧ (id ∈ c'.running ∨ id ∈ c'.report.timedOut ∨
          id ∈ c'.report.failed)) :
    Covered reg c' where
  scope := hscope ▸ hc.scope
  closed := hscope ▸ hc.closed
  jobs id r hr hin := by
    rcases hc.jobs id r hr (hscope ▸ hin) with ht | hrest
    · exact .inl ht
    · exact hjobs id hrest

/-- A pending job at the head is dropped once it is no longer pending. -/
theorem Covered.dropPending {rest : List JobId} {report : CloseReport} (hc : Covered reg c)
    (hp : c.pending = id :: rest) (hid : reg.jobs id ≠ .pending)
    (hto : ∀ j ∈ c.report.timedOut, j ∈ report.timedOut)
    (hfa : ∀ j ∈ c.report.failed, j ∈ report.failed) :
    Covered reg (c.dropPending rest report) := by
  refine hc.advance rfl fun j hj => ?_
  rcases hj with ⟨hpend, hmem⟩ | ⟨hrun, hmem⟩
  · rw [hp] at hmem
    rcases List.mem_cons.mp hmem with rfl | hmem
    · exact absurd hpend hid
    · exact .inr (.inl ⟨hpend, hmem⟩)
  · exact .inr (.inr ⟨hrun, hmem.imp_right (Or.imp (hto j) (hfa j))⟩)

/-- A running job at the head is dropped once it has ended or is reported. -/
theorem Covered.dropRunning {rest : List JobId} {report : CloseReport} (hc : Covered reg c)
    (hr : c.running = id :: rest)
    (hid : (reg.jobs id).terminal = true ∨ id ∈ report.timedOut ∨ id ∈ report.failed)
    (hto : ∀ j ∈ c.report.timedOut, j ∈ report.timedOut)
    (hfa : ∀ j ∈ c.report.failed, j ∈ report.failed) :
    Covered reg (c.dropRunning rest report) := by
  refine hc.advance rfl fun j hj => ?_
  rcases hj with ⟨hpend, hmem⟩ | ⟨hrun, hmem | hmem⟩
  · exact .inr (.inl ⟨hpend, hmem⟩)
  · rw [hr] at hmem
    rcases List.mem_cons.mp hmem with rfl | hmem
    · exact hid.imp_right fun hrep => .inr ⟨hrun, .inr hrep⟩
    · exact .inr (.inr ⟨hrun, .inl hmem⟩)
  · exact .inr (.inr ⟨hrun, .inr (hmem.imp (hto j) (hfa j))⟩)

theorem cancelJob_not_pending : (cancelJob reg id).1.jobs id ≠ .pending := by
  unfold cancelJob
  split
  · simp [Registry.setJob]
  · next h => rw [h]; decide
  · next hp _ => exact hp

/-- **The loops of `_close_scope` keep the call covered.** -/
theorem Covered.execClosing {c' : Closing} (hc : Covered reg c) (hn : Numbered reg)
    (hg : .closing c' ∈ (execClosing reg c o).2) : Covered (execClosing reg c o).1 c' := by
  unfold MiniAgent.Jobs.execClosing at hg ⊢
  split
  · next id rest hp =>
    simp only [hp] at hg
    split
    · next hcan =>
      simp only [hcan, if_true] at hg
      rcases List.mem_append.mp hg with hg | hg
      · cases cancelJob_frames hg
      · cases List.mem_singleton.mp hg
        have hch : Change .default reg (.cancel id) (cancelJob reg id).1 := cancelJob_change
        have hcov : Covered (cancelJob reg id).1 c := hc.change hn hch fun _ _ hf => by cases hf
        apply hcov.dropPending hp cancelJob_not_pending
        · intro j hj
          split <;> exact hj
        · intro j hj
          split
          · exact List.mem_append_left _ hj
          · exact hj
    · next hcan =>
      simp only [hcan, if_false] at hg
      split
      · next hpend =>
        simp only [hpend, if_true] at hg
        cases List.mem_singleton.mp hg
        exact hc.advance rfl fun _ hj => .inr (by rw [hp] at hj; exact hj)
      · next hpend =>
        simp only [hpend] at hg
        cases List.mem_singleton.mp hg
        exact hc.dropPending hp (by simpa [Registry.isPending] using hpend) (fun _ h => h)
          (fun _ h => h)
  · next hp =>
    simp only [hp] at hg
    split
    · next id rest hr =>
      simp only [hr] at hg
      split
      · next hfault =>
        simp only [hfault, if_true] at hg
        cases List.mem_singleton.mp hg
        exact hc.dropRunning hr (.inr (.inr (List.mem_append_right _ List.mem_cons_self)))
          (fun _ h => h) (fun _ h => List.mem_append_left _ h)
      · next hfault =>
        simp only [hfault, if_false] at hg
        split
        · next hv =>
          simp only [hv, if_true] at hg
          split
          · next ht =>
            simp only [ht, if_true] at hg
            cases List.mem_singleton.mp hg
            exact hc.dropRunning hr (.inl ht) (fun _ h => h) (fun _ h => h)
          · next ht =>
            simp only [ht] at hg
            cases List.mem_singleton.mp hg
            exact hc.dropRunning hr (.inr (.inl (List.mem_append_right _ List.mem_cons_self)))
              (fun _ h => List.mem_append_left _ h) (fun _ h => h)
        · next hv =>
          simp only [hv, if_false] at hg
          split
          · next hd =>
            simp only [hd, if_true] at hg
            cases List.mem_singleton.mp hg
            exact hc.dropRunning hr (.inr (.inl (List.mem_append_right _ List.mem_cons_self)))
              (fun _ h => List.mem_append_left _ h) (fun _ h => h)
          · next hd =>
            simp only [hd, if_false] at hg
            rcases List.mem_cons.mp hg with hg | hg
            · cases hg
            · cases List.mem_singleton.mp hg
              exact hc.advance rfl fun _ hj => .inr (by rw [hp, hr] at hj; exact hj)
    · next hr =>
      simp only [hr] at hg
      cases List.mem_singleton.mp hg

theorem mem_within {scope : JobScope} {r : Record} {state : JobState} (hr : reg.get id = some r)
    (hin : scope.contains r.scope = true) (hstate : reg.jobs id = state) :
    (id, r.scope.depth) ∈ reg.within scope state := by
  obtain ⟨hmem, hrec⟩ := Registry.get_eq_some.mp hr
  refine List.mem_filterMap.mpr ⟨id, hmem, ?_⟩
  simp [hrec, hin, hstate]

/-- The section of `_close_scope` takes in every job of the subtree. -/
theorem Covered.classify {scope : JobScope} (hscope : scope ∈ reg.scopes) :
    Covered (reg.closeTree scope) (reg.classify scope) where
  scope := hscope
  closed s hs hin := by
    apply List.mem_append_left
    exact List.mem_map.mpr ⟨s, List.mem_filter.mpr ⟨hs, hin⟩, rfl⟩
  jobs id r hr hin := by
    have hr' : reg.get id = some r := hr
    show (reg.jobs id).terminal = true ∨ _
    rcases hstate : reg.jobs id with _ | _ | _ | _ | _
    · exact .inr (.inl ⟨hstate, List.mem_map.mpr ⟨_, mem_within hr' hin hstate, rfl⟩⟩)
    · refine .inr (.inr ⟨hstate, .inl (List.mem_map.mpr ⟨(id, r.scope.depth), ?_, rfl⟩)⟩)
      exact (List.mem_insertionSort _).mpr (mem_within hr' hin hstate)
    · exact .inl rfl
    · exact .inl rfl
    · exact .inl rfl

/-! ## Runs -/

/-- No closing call has the job still to cancel. -/
def Calls.spares (s : Calls) (id : JobId) : Bool :=
  s.threads.flatten.all fun
    | .closing c => !c.pending.contains id
    | _ => true

/-- A pending job begins to run only where no closing call has it still to cancel. -/
def startsClear (s : Calls) : Frame → Bool
  | .startJobs (id :: _) => !s.shared.isPending id || s.spares id
  | _ => true

/-- Every closing call is covered, to its return. -/
structure Quiet (s : Calls) : Prop where
  wf : WellFormed s
  numbered : Numbered s.shared
  closing : ∀ c, s.Pending (.closing c) → Covered s.shared c
  returned : ∀ c, s.Pending (.returned c) → Covered s.shared c ∧ c.pending = [] ∧ c.running = []

variable {s : Calls}

theorem Quiet.init : Quiet Calls.init where
  wf := WellFormed.init
  numbered s hs := by
    cases List.mem_singleton.mp hs
    exact le_refl _
  closing _ h := by
    obtain ⟨t, ht, _⟩ := h
    cases ht
  returned _ h := by
    obtain ⟨t, ht, _⟩ := h
    cases ht

theorem Quiet.call (hs : Quiet s) (hf : f.isCall = true) :
    Quiet ⟨s.shared, s.threads ++ [[f]]⟩ where
  wf := hs.wf.call hf
  numbered := hs.numbered
  closing c h := by
    rcases Lib.Threads.pending_call.mp h with h | rfl
    · exact hs.closing c h
    · cases hf
  returned c h := by
    rcases Lib.Threads.pending_call.mp h with h | rfl
    · exact hs.returned c h
    · cases hf

theorem spares_closing (h : s.spares id = true) (hc : s.Pending (.closing c)) : id ∉ c.pending := by
  have hall := List.all_eq_true.mp h _ (Lib.Threads.pending_iff.mp hc)
  simpa using hall

theorem Quiet.exec {k : Nat} {rest : List Frame} (hs : Quiet s)
    (hk : s.threads[k]? = some (f :: rest)) (hclear : startsClear s f = true)
    (h : exec cfg s.shared f o = some (reg', new)) :
    Quiet ⟨reg', s.threads.set k (new ++ rest)⟩ := by
  have hch := exec_change h
  have hold : ∀ c, s.Pending (.closing c) → Covered reg' c := fun c hc =>
    (hs.closing c hc).change hs.numbered hch fun id rest hf hp => by
      subst hf
      have hspares : s.spares id = true := by
        simpa [startsClear, Registry.isPending, hp] using hclear
      exact spares_closing hspares hc
  refine ⟨hs.wf.exec hk h, hch.numbered hs.numbered, fun c hp => ?_, fun c hp => ?_⟩
  · rcases Lib.Threads.pending_of_advance hk hp with hnew | hpend
    · rcases exec_pushed h hnew with ⟨scope, -, hscope, rfl, rfl⟩ | ⟨c₀, rfl⟩
      · exact Covered.classify hscope
      · have hc := Option.some.inj h
        have hreg : (execClosing s.shared c₀ o).1 = reg' := congrArg Prod.fst hc
        have hfr : (execClosing s.shared c₀ o).2 = new := congrArg Prod.snd hc
        subst hreg hfr
        exact (hs.closing c₀ (Lib.Threads.pending_executed hk)).execClosing hs.numbered hnew
    · exact hold c hpend
  · rcases Lib.Threads.pending_of_advance hk hp with hnew | hpend
    · obtain ⟨rfl, hp, hr⟩ := exec_pushed h hnew
      exact ⟨hold c (Lib.Threads.pending_executed hk), hp, hr⟩
    · obtain ⟨hcov, hp, hr⟩ := hs.returned c hpend
      refine ⟨hcov.change hs.numbered hch fun _ _ _ _ hmem => ?_, hp, hr⟩
      rw [hp] at hmem
      cases hmem

/-- **Scope close is complete.** In every interleaving in which no job starts that a closing call
has still to cancel: once the call that closed a scope has returned, every job registered in the
subtree has ended or is in the report as timed out or failed, and no step registers a job in the
subtree or sets one there running. -/
theorem scope_close_complete (cfg : Settings) {moves : List (Lib.Move Frame Turnout)} {s : Calls}
    (hok : Lib.Meets (Calls.step cfg) (Lib.Threads.Guarded fun s f => startsClear s f = true)
      Calls.init moves)
    (hrun : Lib.run (Calls.step cfg) Calls.init moves = some s) {c : Closing}
    (hret : s.Pending (.returned c)) :
    (∀ id r, s.shared.get id = some r → c.scope.contains r.scope = true →
      (s.shared.jobs id).terminal = true ∨ id ∈ c.report.timedOut ∨ id ∈ c.report.failed) ∧
    ∀ move t, Calls.step cfg s move = some t →
      ∀ id r, t.shared.get id = some r → c.scope.contains r.scope = true →
        id ∈ s.shared.registered ∧ (t.shared.jobs id = .running → s.shared.jobs id = .running) := by
  have hs : Quiet s :=
    Lib.Threads.guarded_invariant (fun s f hi hf => hi.call hf)
      (fun s k f rest o shared new hi hk hf hx => hi.exec hk hf hx) Quiet.init hok hrun
  obtain ⟨hcov, hp, hr⟩ := hs.returned c hret
  have hjobs : ∀ id r, s.shared.get id = some r → c.scope.contains r.scope = true →
      (s.shared.jobs id).terminal = true ∨
        s.shared.jobs id = .running ∧ (id ∈ c.report.timedOut ∨ id ∈ c.report.failed) := by
    intro id r hget hin
    rcases hcov.jobs id r hget hin with ht | ⟨-, hmem⟩ | ⟨hrun, hmem | hmem⟩
    · exact .inl ht
    · rw [hp] at hmem; cases hmem
    · rw [hr] at hmem; cases hmem
    · exact .inr ⟨hrun, hmem⟩
  refine ⟨fun id r hget hin => (hjobs id r hget hin).imp_right And.right, ?_⟩
  intro move t hstep id r hget hin
  obtain ⟨f, -, -, rfl⟩ | ⟨k, o, f, rest, shared, new, -, hk, hx, rfl⟩ :=
    Lib.Threads.step_cases hstep
  · exact ⟨(Registry.get_eq_some.mp hget).1, fun h => h⟩
  · have hch := exec_change hx
    obtain ⟨p, hget', hpin⟩ := hcov.back hch hget hin
    refine ⟨(Registry.get_eq_some.mp hget').1, fun hafter => ?_⟩
    by_contra hbefore
    obtain ⟨hpend, -⟩ := hch.starts hbefore hafter
    rcases hjobs id p hget' hpin with ht | ⟨hrun, -⟩
    · rw [hpend] at ht; cases ht
    · exact hbefore hrun

/-- A session closed over a running job that does not stop and a queued one. -/
def closedInOrder : List (Lib.Move Frame Turnout) :=
  twoJobs ++ .call (.start "a") :: steps 3 7 ++ .call (.start "b") :: steps 4 2
    ++ .call (.closeScope sessionScope) :: steps 5 13

def returnedInOrder : Closing := ⟨sessionScope, [], [], .look, ⟨["b"], ["a"], []⟩⟩

theorem scope_close_complete_in_order :
    ∃ s, Lib.run (Calls.step .default) Calls.init closedInOrder = some s ∧
      s.Pending (.returned returnedInOrder) ∧
      s.shared.jobs "a" = .running ∧ s.shared.jobs "b" = .cancelled ∧
      ∀ id r, s.shared.get id = some r → sessionScope.contains r.scope = true →
        (s.shared.jobs id).terminal = true ∨ id ∈ returnedInOrder.report.timedOut ∨
          id ∈ returnedInOrder.report.failed := by
  refine ⟨_, rfl, by decide, rfl, rfl, ?_⟩
  exact (scope_close_complete .default (c := returnedInOrder)
    (by decide : Lib.Meets _ _ _ closedInOrder) rfl (by decide)).1

/-- A job that is admitted, sorted as pending and started before its turn runs on in the closed
session, and the report does not name it. -/
def startedInGap : List (Lib.Move Frame Turnout) :=
  twoJobs ++ .call (.start "a") :: steps 3 2 ++ .call (.closeScope sessionScope) :: steps 4 1
    ++ steps 3 1 ++ steps 4 8

theorem scope_close_misses :
    ¬ ∀ (moves : List (Lib.Move Frame Turnout)) (s : Calls) (c : Closing),
      Lib.run (Calls.step .default) Calls.init moves = some s → s.Pending (.returned c) →
      (∀ id r, s.shared.get id = some r → c.scope.contains r.scope = true →
        (s.shared.jobs id).terminal = true ∨ id ∈ c.report.timedOut ∨ id ∈ c.report.failed) ∧
      ∀ move t, Calls.step .default s move = some t →
        ∀ id r, t.shared.get id = some r → c.scope.contains r.scope = true →
          id ∈ s.shared.registered ∧
          (t.shared.jobs id = .running → s.shared.jobs id = .running) := by
  intro h
  have hjobs := (h startedInGap _ ⟨sessionScope, [], [], .look, ⟨["b"], [], []⟩⟩ rfl (by decide)).1
  exact absurd (hjobs "a" _ rfl rfl) (by decide)

end MiniAgent.Jobs
