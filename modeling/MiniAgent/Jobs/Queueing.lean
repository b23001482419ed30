import MiniAgent.Jobs.Slots

/-!
# No job is stranded in a queue

A queued job waits for room at one of its levels. Room is made only by the terminal section, which
also drains the queue of the lane, so a queued job that could be admitted never outlives the
section, although the drain admits at most one job of each session and thread: the release has made
room at the levels of one record, and the job that is served first takes it (`served_blocked`).

What can strand a job is the gap between the decision to queue it and its entry in the queue. A slot
that is freed in the gap is offered to nobody.
-/

namespace MiniAgent.Jobs

variable {cfg : Settings} {reg reg' : Registry} {f : Frame} {o : Turnout} {new : List Frame}
  {id : JobId} {r q : Record} {lv : Level} {lane : JobLane}

/-! ## Blocked records -/

theorem at_of_keys (h : q.keys = r.keys) : q.at lv lane = r.at lv lane := by
  obtain ⟨hscope, hlane, -⟩ : q.scope = r.scope ∧ q.lane = r.lane ∧ q.admission = r.admission := by
    simpa [Record.keys] using h
  unfold Record.at Record.session Record.threadKey
  rw [hscope, hlane]

theorem lane_of_keys (h : q.keys = r.keys) : q.lane = r.lane := congrArg (·.2.1) h

/-- Some level of the record is full. -/
def Blocked (cfg : Settings) (reg : Registry) (r : Record) : Prop :=
  ∃ lv, r.at lv r.lane = true ∧ (cfg.policy.limit lv r.lane).maxRunning ≤ reg.counter lv r.lane

theorem canAdmit_eq_false : reg.canAdmit cfg r = false ↔ Blocked cfg reg r := by
  rw [← Bool.not_eq_true, Registry.canAdmit_iff]
  simp only [Blocked, not_forall, not_lt, exists_prop]

theorem Blocked.mono (h : Blocked cfg reg r) (hk : q.keys = r.keys)
    (hc : ∀ lv, r.at lv r.lane = true → reg.counter lv r.lane ≤ reg'.counter lv r.lane) :
    Blocked cfg reg' q := by
  obtain ⟨lv, hat, hle⟩ := h
  refine ⟨lv, ?_, ?_⟩
  · rw [lane_of_keys hk, at_of_keys hk]; exact hat
  · rw [lane_of_keys hk]; exact hle.trans (hc lv hat)

/-! ## The drain -/

/-- Two records of one session or of one thread scope. -/
def Record.Shares (q q' : Record) : Prop :=
  (∃ session, q.session = some session ∧ q'.session = some session) ∨
    ∃ key, q.threadKey = some key ∧ q'.threadKey = some key

/-- The drain of a lane: `before` are the counters before the slot of `r` was released. -/
structure Draining (cfg : Settings) (lane : JobLane) (before : Level → Int) (r : Record)
    (reg : Registry) (d : Registry.Drain) : Prop where
  jobs : d.reg.jobs = reg.jobs
  registered : d.reg.registered = reg.registered
  queues : d.reg.queues = reg.queues
  keys : ∀ id, (d.reg.records id).map Record.keys = (reg.records id).map Record.keys
  near : ∀ lv, before lv - 1 ≤ d.reg.counter lv lane
  away : ∀ lv, r.at lv lane = false → before lv ≤ d.reg.counter lv lane
  others : ∀ lv lane', lane' ≠ lane → d.reg.counter lv lane' = reg.counter lv lane'
  served : ∀ q, d.served q = true → ∃ q' : Record,
    (∃ lv, q'.at lv lane = true ∧ r.at lv lane = true ∧
      (cfg.policy.limit lv lane).maxRunning ≤ before lv) ∧
    (∀ lv, q'.at lv lane = true → before lv ≤ d.reg.counter lv lane) ∧
    q.Shares q'
  stuck : ∀ id ∈ d.remaining, ∀ q, d.reg.records id = some q → Blocked cfg d.reg q

theorem at_system : q.at .system q.lane = true := by simp [Record.at]

theorem at_session_iff {s : String} :
    q.at (.session s) lane = true ↔ q.lane = lane ∧ q.session = some s := by
  simp [Record.at]

theorem at_thread_iff {k : ScopeId} :
    q.at (.thread k) lane = true ↔ q.lane = lane ∧ q.threadKey = some k := by
  simp [Record.at]

/-- **Who is served first takes the room.** Room was made at levels of `r` only. A job `q'` that was
let in needed it, and takes it at all its levels; a job `q` of the same session or thread, which was
blocked before, is blocked still. -/
theorem served_blocked {before counter limit : Level → Int} {q' : Record} (hq : q.lane = lane)
    (hblocked : ∃ lv, q.at lv lane = true ∧ limit lv ≤ before lv)
    (haway : ∀ lv, r.at lv lane = false → before lv ≤ counter lv)
    (hneed : ∃ lv, q'.at lv lane = true ∧ r.at lv lane = true ∧ limit lv ≤ before lv)
    (hrest : ∀ lv, q'.at lv lane = true → before lv ≤ counter lv)
    (hshare : q.Shares q') :
    ∃ lv, q.at lv lane = true ∧ limit lv ≤ counter lv := by
  by_contra hfree
  simp only [not_exists, not_and, not_le] at hfree
  -- `full` blocked `q`, and is a level of `r` that `q'` does not count at
  obtain ⟨full, hfull, hle⟩ := hblocked
  have hlt := hfree full hfull
  have hr : r.at full lane = true := by
    by_contra hn
    have := haway full (by simpa using hn)
    omega
  have hq' : ¬ q'.at full lane = true := by
    intro hat
    have := hrest full hat
    omega
  -- `need` blocked `q'`, and is a level of `r` that `q` does not count at
  obtain ⟨need, hat, hrn, hle'⟩ := hneed
  have hqn : ¬ q.at need lane = true := by
    intro hqat
    have := hrest need hat
    have := hfree need hqat
    omega
  have hlane : q'.lane = lane := by
    have := (Bool.and_eq_true_iff.mp hat).1
    exact eq_of_beq this
  cases need with
  | system => exact hqn (hq ▸ at_system)
  | session s =>
    rw [at_session_iff] at hat hrn hqn
    cases full with
    | system => exact hq' (hlane ▸ at_system)
    | session s' =>
      rw [at_session_iff] at hfull hr
      rw [hrn.2] at hr
      exact hqn ⟨hq, by rw [hfull.2, ← hr.2]⟩
    | thread k =>
      rw [at_thread_iff] at hfull hq'
      rcases hshare with ⟨s', hs, hs'⟩ | ⟨k', hk, hk'⟩
      · rw [hat.2] at hs'
        exact hqn ⟨hq, by rw [hs, ← hs']⟩
      · rw [hfull.2] at hk
        exact hq' ⟨hlane, by rw [hk', ← hk]⟩
  | thread k =>
    rw [at_thread_iff] at hat hrn hqn
    cases full with
    | system => exact hq' (hlane ▸ at_system)
    | thread k' =>
      rw [at_thread_iff] at hfull hr
      rw [hrn.2] at hr
      exact hqn ⟨hq, by rw [hfull.2, ← hr.2]⟩
    | session s =>
      rw [at_session_iff] at hfull hq'
      rcases hshare with ⟨s', hs, hs'⟩ | ⟨k', hk, hk'⟩
      · rw [hfull.2] at hs
        exact hq' ⟨hlane, by rw [hs', ← hs]⟩
      · rw [hat.2] at hk'
        exact hqn ⟨hq, by rw [hk, ← hk']⟩

theorem Drain.served_cons {d : Registry.Drain} {sessions : List String} {threads : List ScopeId}
    {r : Record} (hs : d.sessions = r.session.toList ++ sessions)
    (ht : d.threads = r.threadKey.toList ++ threads) {q : Record} (h : d.served q = true) :
    q.Shares r ∨
      (⟨d.reg, sessions, threads, d.toStart, d.remaining⟩ : Registry.Drain).served q = true := by
  unfold Registry.Drain.served at h ⊢
  rcases Bool.or_eq_true_iff.mp h with h | h
  · rcases hq : q.session with _ | session
    · rw [hq] at h; cases h
    · simp only [hq, hs, List.contains_iff_mem, List.mem_append, Option.mem_toList] at h
      rcases h with h | h
      · exact .inl (.inl ⟨session, hq, h⟩)
      · exact .inr (by simp [h])
  · rcases hq : q.threadKey with _ | key
    · rw [hq] at h; cases h
    · simp only [hq, ht, List.contains_iff_mem, List.mem_append, Option.mem_toList] at h
      rcases h with h | h
      · exact .inl (.inr ⟨key, hq, h⟩)
      · exact .inr (by simp [h])

section Drain

variable {before : Level → Int} {d : Registry.Drain}

/-- **One step of the drain**, for a queued job of the lane that was blocked before the release. -/
theorem Draining.step (hd : Draining cfg lane before r reg d)
    (hlane : ∀ q, d.reg.records id = some q → q.lane = lane ∧ q.admission.slotMode = .counted)
    (hblocked : ∀ q, d.reg.get id = some q → d.reg.jobs id = .pending →
      ∃ lv, q.at lv lane = true ∧ (cfg.policy.limit lv lane).maxRunning ≤ before lv) :
    Draining cfg lane before r reg (Registry.drainOne cfg d id) := by
  unfold Registry.drainOne
  split
  · exact hd
  · next q hq =>
    obtain ⟨hmem, hrec⟩ := Registry.get_eq_some.mp hq
    obtain ⟨hql, hcounted⟩ := hlane q hrec
    split
    · exact hd
    · next hp =>
      have hpend : d.reg.jobs id = .pending := by simpa [Registry.isPending] using hp
      have hb := hblocked q hq hpend
      split
      · next hskip =>
        -- skipped: no room, or served, which comes to the same
        have hfull : Blocked cfg d.reg q := by
          rcases Bool.or_eq_true_iff.mp hskip with hs | hs
          · obtain ⟨q', hneed, hrest, hshare⟩ := hd.served q hs
            unfold Blocked
            rw [hql]
            exact served_blocked hql hb hd.away hneed hrest hshare
          · exact canAdmit_eq_false.mp (by simpa using hs)
        refine { hd with stuck := fun j hj p hp => ?_ }
        rcases List.mem_append.mp hj with hj | hj
        · exact hd.stuck j hj p hp
        · cases List.mem_singleton.mp hj
          rw [hrec] at hp
          cases hp
          exact hfull
      · next hroom =>
        rw [Bool.or_eq_true, not_or] at hroom
        have hcan : d.reg.canAdmit cfg q = true := by simpa using hroom.2
        have htakes : d.reg.takesSlot q = true := by simp [Registry.takesSlot, hcounted]
        have hcounter : ∀ lv lane', (d.reg.admitLocked id).counter lv lane' =
            d.reg.counter lv lane' + if q.at lv lane' then 1 else 0 := by
          intro lv lane'
          rw [Registry.counter_admitLocked hrec, htakes, Bool.true_and]
        have hgrow : ∀ lv lane', d.reg.counter lv lane' ≤
            (d.reg.admitLocked id).counter lv lane' := by
          intro lv lane'
          rw [hcounter]
          split <;> omega
        have hrest : ∀ lv, q.at lv lane = true →
            before lv ≤ (d.reg.admitLocked id).counter lv lane := by
          intro lv hat
          rw [hcounter, if_pos hat]
          have := hd.near lv
          omega
        have hneed : ∃ lv, q.at lv lane = true ∧ r.at lv lane = true ∧
            (cfg.policy.limit lv lane).maxRunning ≤ before lv := by
          obtain ⟨lv, hat, hle⟩ := hb
          refine ⟨lv, hat, ?_, hle⟩
          by_contra hn
          have haway := hd.away lv (by simpa using hn)
          have hlt := Registry.canAdmit_iff.mp hcan lv (hql ▸ hat)
          rw [hql] at hlt
          omega
        refine ⟨?_, ?_, ?_, fun j => ?_, fun lv => ?_, fun lv hn => ?_, fun lv lane' hne => ?_,
          fun p hp => ?_, fun j hj p hp => ?_⟩
        · rw [Registry.admitLocked_jobs]; exact hd.jobs
        · rw [Registry.admitLocked_registered]; exact hd.registered
        · rw [Registry.admitLocked_queues]; exact hd.queues
        · rw [Registry.admitLocked_keys]; exact hd.keys j
        · exact (hd.near lv).trans (hgrow lv lane)
        · exact (hd.away lv hn).trans (hgrow lv lane)
        · rw [hcounter, hd.others lv lane' hne]
          have hat : q.at lv lane' = false := by
            have : (q.lane == lane') = false := by
              rw [hql]
              exact beq_false_of_ne (Ne.symm hne)
            simp [Record.at, this]
          rw [hat]
          simp
        · rcases Drain.served_cons rfl rfl hp with hshare | hold
          · exact ⟨q, hneed, hrest, hshare⟩
          · obtain ⟨q', hneed', hrest', hshare'⟩ := hd.served p hold
            exact ⟨q', hneed', fun lv hat => (hrest' lv hat).trans (hgrow lv lane), hshare'⟩
        · obtain ⟨p₀, hp₀, hkeys⟩ :=
            Registry.records_of_keys (Registry.admitLocked_keys d.reg id j) hp
          exact (hd.stuck j hj p₀ hp₀).mono hkeys fun lv _ => hgrow lv _

theorem Draining.foldl {ids : List JobId} (hd : Draining cfg lane before r reg d)
    (hids : ∀ id ∈ ids, ∀ q, reg.records id = some q → q.lane = lane ∧
      q.admission.slotMode = .counted ∧ (reg.jobs id = .pending →
        ∃ lv, q.at lv lane = true ∧ (cfg.policy.limit lv lane).maxRunning ≤ before lv)) :
    Draining cfg lane before r reg (ids.foldl (Registry.drainOne cfg) d) := by
  induction ids generalizing d with
  | nil => exact hd
  | cons id ids ih =>
    refine ih (hd.step ?_ ?_) fun j hj => hids j (List.mem_cons_of_mem _ hj)
    · intro q hq
      obtain ⟨p, hp, hkeys⟩ := Registry.records_of_keys (hd.keys id) hq
      obtain ⟨hl, hc, -⟩ := hids id List.mem_cons_self p hp
      exact ⟨(lane_of_keys hkeys).trans hl, (congrArg (·.2.2.slotMode) hkeys).trans hc⟩
    · intro q hq hpend
      obtain ⟨p, hp, hkeys⟩ := Registry.records_of_keys (hd.keys id) (Registry.get_eq_some.mp hq).2
      rw [hd.jobs] at hpend
      obtain ⟨lv, hat, hle⟩ := (hids id List.mem_cons_self p hp).2.2 hpend
      exact ⟨lv, by rwa [at_of_keys hkeys], hle⟩

theorem drainOne_remaining {j : JobId} (h : j ∈ (Registry.drainOne cfg d id).remaining) :
    j ∈ d.remaining ∨ j = id := by
  unfold Registry.drainOne at h
  split at h
  · exact .inl h
  · split at h
    · exact .inl h
    · split at h
      · exact (List.mem_append.mp h).imp_right List.mem_singleton.mp
      · exact .inl h

theorem foldl_remaining {ids : List JobId} {j : JobId}
    (h : j ∈ (ids.foldl (Registry.drainOne cfg) d).remaining) : j ∈ d.remaining ∨ j ∈ ids := by
  induction ids generalizing d with
  | nil => exact .inl h
  | cons id ids ih =>
    rcases ih h with h | h
    · rcases drainOne_remaining h with h | rfl
      · exact .inl h
      · exact .inr List.mem_cons_self
    · exact .inr (List.mem_cons_of_mem _ h)

end Drain

/-! ## The queues of a registry -/

/-- The queues of a registry of counted jobs: a queued job is queued in its lane, and blocked for as
long as it is pending. -/
structure Queued (cfg : Settings) (reg : Registry) : Prop where
  lanes : ∀ lane, ∀ id ∈ reg.queues lane, ∃ r, reg.records id = some r ∧ r.lane = lane
  counted : ∀ id r, reg.records id = some r → r.admission.slotMode = .counted
  blocked : ∀ lane, ∀ id ∈ reg.queues lane, ∀ r, reg.records id = some r →
    reg.jobs id = .pending → Blocked cfg reg r

/-- A change that keeps the keys of the records, lowers no counter and queues no one. -/
theorem Queued.mono (hq : Queued cfg reg)
    (hkeys : ∀ id, (reg'.records id).map Record.keys = (reg.records id).map Record.keys)
    (hqueues : ∀ lane, ∀ id ∈ reg'.queues lane, id ∈ reg.queues lane)
    (hjobs : ∀ id, reg'.jobs id = .pending → reg.jobs id = .pending)
    (hcounter : ∀ lv lane, reg.counter lv lane ≤ reg'.counter lv lane) : Queued cfg reg' where
  lanes lane id hid := by
    obtain ⟨r, hr, hl⟩ := hq.lanes lane id (hqueues lane id hid)
    obtain ⟨q, hq', hk⟩ := Registry.records_of_keys (hkeys id).symm hr
    exact ⟨q, hq', (lane_of_keys hk).symm.trans hl⟩
  counted id r hr := by
    obtain ⟨q, hq', hk⟩ := Registry.records_of_keys (hkeys id) hr
    exact (congrArg (·.2.2.slotMode) hk).trans (hq.counted id q hq')
  blocked lane id hid r hr hp := by
    obtain ⟨q, hq', hk⟩ := Registry.records_of_keys (hkeys id) hr
    exact (hq.blocked lane id (hqueues lane id hid) q hq' (hjobs id hp)).mono hk
      fun lv _ => hcounter lv _

/-- The registry a drain starts from: `reg₁` is `reg` with room made at the levels of `r`. -/
structure RoomMade (reg reg₁ : Registry) (r : Record) : Prop where
  jobs : reg₁.jobs = reg.jobs
  keys : ∀ id, (reg₁.records id).map Record.keys = (reg.records id).map Record.keys
  queues : ∀ lane, ∀ id ∈ reg₁.queues lane, id ∈ reg.queues lane
  near : ∀ lv lane, reg.counter lv lane - 1 ≤ reg₁.counter lv lane
  away : ∀ lv lane, r.at lv lane = false → reg₁.counter lv lane = reg.counter lv lane

theorem at_other_lane (h : lane ≠ r.lane) : r.at lv lane = false := by
  have hl : (r.lane == lane) = false := beq_false_of_ne (Ne.symm h)
  simp [Record.at, hl]

section RoomMade

variable {reg₁ : Registry}

theorem RoomMade.start (hm : RoomMade reg reg₁ r) :
    Draining cfg r.lane (fun lv => reg.counter lv r.lane) r reg₁ ⟨reg₁, [], [], [], []⟩ where
  jobs := rfl
  registered := rfl
  queues := rfl
  keys _ := rfl
  near lv := hm.near lv r.lane
  away lv hn := le_of_eq (hm.away lv r.lane hn).symm
  others _ _ _ := rfl
  served q hs := by
    unfold Registry.Drain.served at hs
    rcases hqs : q.session with _ | _ <;> rcases hqt : q.threadKey with _ | _ <;>
      simp [hqs, hqt] at hs
  stuck j hj := by cases hj

/-- The queue of the lane, drained. -/
theorem RoomMade.drained (hq : Queued cfg reg) (hm : RoomMade reg reg₁ r) :
    Draining cfg r.lane (fun lv => reg.counter lv r.lane) r reg₁
      ((reg₁.queues r.lane).foldl (Registry.drainOne cfg) ⟨reg₁, [], [], [], []⟩) := by
  apply hm.start.foldl
  intro j hj q hrec
  obtain ⟨p, hp, hk⟩ := Registry.records_of_keys (hm.keys j) hrec
  have hjq := hm.queues r.lane j hj
  obtain ⟨p', hp', hl⟩ := hq.lanes r.lane j hjq
  rw [hp] at hp'
  cases hp'
  refine ⟨(lane_of_keys hk).trans hl, (congrArg (·.2.2.slotMode) hk).trans (hq.counted j p hp), ?_⟩
  intro hpend
  rw [hm.jobs] at hpend
  obtain ⟨lv, hat, hle⟩ := hq.blocked r.lane j hjq p hp hpend
  rw [hl] at hat hle
  exact ⟨lv, by rwa [at_of_keys hk], hle⟩

/-- **The drain strands nobody.** In its own lane the jobs it leaves are blocked still; the other
lanes it does not touch. -/
theorem Queued.drain (hq : Queued cfg reg) (hm : RoomMade reg reg₁ r) :
    Queued cfg (reg₁.drain cfg r.lane).1 := by
  have hend := hm.drained hq
  set d := (reg₁.queues r.lane).foldl (Registry.drainOne cfg) ⟨reg₁, [], [], [], []⟩ with hd
  have hupd : (reg₁.drain cfg r.lane).1.queues = Function.update d.reg.queues
      r.lane d.remaining := rfl
  have hkeys : ∀ j, (d.reg.records j).map Record.keys = (reg.records j).map Record.keys :=
    fun j => (hend.keys j).trans (hm.keys j)
  have hsub : ∀ lane, ∀ j ∈ (reg₁.drain cfg r.lane).1.queues lane, j ∈ reg.queues lane := by
    intro lane j hj
    rw [hupd] at hj
    by_cases hl : lane = r.lane
    · subst hl
      rw [Function.update_self] at hj
      rcases foldl_remaining hj with h | h
      · cases h
      · exact hm.queues _ j h
    · rw [Function.update_of_ne hl, hend.queues] at hj
      exact hm.queues lane j hj
  refine ⟨fun lane j hj => ?_, fun j q hrec => ?_, fun lane j hj q hrec hp => ?_⟩
  · obtain ⟨p, hp, hl⟩ := hq.lanes lane j (hsub lane j hj)
    obtain ⟨q, hrec, hk⟩ := Registry.records_of_keys (hkeys j).symm hp
    exact ⟨q, hrec, (lane_of_keys hk).symm.trans hl⟩
  · obtain ⟨p, hp, hk⟩ := Registry.records_of_keys (hkeys j) hrec
    exact (congrArg (·.2.2.slotMode) hk).trans (hq.counted j p hp)
  · by_cases hl : lane = r.lane
    · subst hl
      rw [hupd, Function.update_self] at hj
      obtain ⟨lv, hat, hle⟩ := hend.stuck j hj q hrec
      exact ⟨lv, hat, by cases lv <;> exact hle⟩
    · obtain ⟨p, hp', hk⟩ := Registry.records_of_keys (hkeys j) hrec
      have hpend : reg.jobs j = .pending := by
        rw [← hm.jobs, ← hend.jobs]
        exact hp
      obtain ⟨p', hp'', hpl⟩ := hq.lanes lane j (hsub lane j hj)
      rw [hp'] at hp''
      cases hp''
      subst hpl
      refine (hq.blocked p.lane j (hsub p.lane j hj) p hp' hpend).mono hk fun lv _ => le_of_eq ?_
      have hsame : (reg₁.drain cfg r.lane).1.counter lv p.lane = d.reg.counter lv p.lane := by
        cases lv <;> rfl
      rw [hsame, hend.others lv p.lane hl, hm.away lv p.lane (at_other_lane hl)]

end RoomMade

/-- **The terminal section strands nobody.** -/
theorem Queued.onTerminal (hq : Queued cfg reg) : Queued cfg (reg.onTerminal cfg id).1 := by
  unfold Registry.onTerminal
  split
  · exact hq
  · next r hr =>
    obtain ⟨-, hr⟩ := Registry.get_eq_some.mp hr
    split
    · exact hq
    · apply hq.drain
      set reg₀ : Registry :=
        { reg with queues := Function.update reg.queues r.lane ((reg.queues r.lane).erase id) }
      have hcounter : ∀ lv lane, ((reg₀.release id r).pruneHistory cfg).counter lv lane =
          reg.counter lv lane - (r.at lv lane && r.holdsSlot).toNat := by
        intro lv lane
        have hrel : (reg₀.release id r).counter lv lane = _ := Registry.counter_release
        cases lv <;> exact hrel
      refine ⟨Registry.release_jobs, fun j => ?_, fun lane j hj => ?_, fun lv lane => ?_,
        fun lv lane hn => ?_⟩
      · have hrec : ((reg₀.release id r).pruneHistory cfg).records =
            Function.update reg.records id (some (Registry.releasedOf r)) :=
            Registry.release_records
        rw [hrec]
        by_cases hj : j = id
        · subst hj; simp [hr]; rfl
        · simp [hj]
      · have hqueue : ((reg₀.release id r).pruneHistory cfg).queues = reg₀.queues :=
          Registry.release_queues
        rw [hqueue] at hj
        by_cases hl : lane = r.lane
        · subst hl
          exact List.mem_of_mem_erase (by simpa [reg₀] using hj)
        · simpa [reg₀, hl] using hj
      · rw [hcounter]
        have := Bool.toNat_le (r.at lv lane && r.holdsSlot)
        omega
      · rw [hcounter, hn]
        simp

/-! ## Runs -/

/-- A job that enters a queue is still blocked. -/
def queuedInTime (cfg : Settings) (reg : Registry) : Frame → Bool
  | .enqueue id => match reg.records id with
    | some r => !(reg.isPending id && reg.canAdmit cfg r)
    | none => true
  | _ => true

/-- The call registers no job but of slot mode `counted`. -/
def registersCounted : Frame → Bool
  | .register _ _ _ admission _ _ => admission.slotMode == .counted
  | _ => true

theorem Change.queued (h : Change cfg reg f reg') (hk : Kept reg) (hq : Queued cfg reg)
    (hcounted : registersCounted f = true) (htime : queuedInTime cfg reg f = true) :
    Queued cfg reg' := by
  cases h with
  | same => exact hq
  | @enrol id r f hid hp _ _ _ _ hf =>
    obtain ⟨now, thenStart, rfl⟩ := hf
    -- a queued job has a record, and with it pending it would be registered
    have hnew : ∀ lane, id ∉ reg.queues lane := by
      intro lane hmem
      obtain ⟨q, hq', -⟩ := hq.lanes lane id hmem
      exact hid (hk id q hq' hp).1
    have hrec : ∀ j, j ≠ id → (reg.enrol id r).records j = reg.records j := by
      intro j hj
      exact Function.update_of_ne hj _ _
    refine ⟨fun lane j hj => ?_, fun j q hq' => ?_, fun lane j hj q hq' hpj => ?_⟩
    · rw [hrec j (fun he => hnew lane (he ▸ hj))]
      exact hq.lanes lane j hj
    · by_cases hj : j = id
      · subst hj
        have hqr : q = r := by simpa [Registry.enrol, Registry.setRecord] using hq'.symm
        subst hqr
        exact eq_of_beq hcounted
      · rw [hrec j hj] at hq'
        exact hq.counted j q hq'
    · rw [hrec j (fun he => hnew lane (he ▸ hj))] at hq'
      obtain ⟨lv, hat, hle⟩ := hq.blocked lane j hj q hq' hpj
      exact ⟨lv, hat, by cases lv <;> exact hle⟩
  | @admission id =>
    refine hq.mono (Registry.admitLocked_keys reg id) (fun lane j hj => ?_) (fun j hj => ?_)
      (fun lv lane => ?_)
    · rwa [Registry.admitLocked_queues] at hj
    · rwa [Registry.admitLocked_jobs] at hj
    · rcases hr : reg.records id with _ | r
      · rw [Registry.admitLocked_of_none hr]
      · rw [Registry.counter_admitLocked hr]
        split <;> omega
  | @enqueue id r hr hp =>
    have hfull : Blocked cfg reg r := by
      rw [← canAdmit_eq_false]
      simpa [queuedInTime, hr, Registry.isPending, hp] using htime
    have hmem : ∀ lane j, j ∈ (reg.enqueue id r.lane).queues lane →
        j ∈ reg.queues lane ∨ lane = r.lane ∧ j = id := by
      intro lane j hj
      by_cases hl : lane = r.lane
      · subst hl
        have hj' : j ∈ reg.queues r.lane ++ [id] := by simpa [Registry.enqueue] using hj
        rcases List.mem_append.mp hj' with hj' | hj'
        · exact .inl hj'
        · exact .inr ⟨rfl, List.mem_singleton.mp hj'⟩
      · exact .inl (by simpa [Registry.enqueue, hl] using hj)
    refine ⟨fun lane j hj => ?_, hq.counted, fun lane j hj q hq' hpj => ?_⟩
    · rcases hmem lane j hj with hold | ⟨rfl, rfl⟩
      · exact hq.lanes lane j hold
      · exact ⟨r, hr, rfl⟩
    · have hblocked : Blocked cfg reg q := by
        rcases hmem lane j hj with hold | ⟨rfl, rfl⟩
        · exact hq.blocked lane j hold q hq' hpj
        · have hq'' : reg.records j = some q := hq'
          rw [hr] at hq''
          cases hq''
          exact hfull
      obtain ⟨lv, hat, hle⟩ := hblocked
      exact ⟨lv, hat, by cases lv <;> exact hle⟩
  | @job id state f hmove _ =>
    refine hq.mono (fun _ => rfl) (fun _ _ h => h) (fun j hj => ?_) (fun lv lane => ?_)
    · by_cases hji : j = id
      · subst hji
        exact absurd (by simpa [Registry.setJob] using hj) hmove.not_pending
      · simpa [Registry.setJob, hji] using hj
    · cases lv <;> exact le_refl _
  | terminal => exact hq.onTerminal
  | listen | unlisten | unregister | addScope | closeTree =>
    refine hq.mono (fun _ => rfl) (fun _ _ h => h) (fun _ h => h) (fun lv lane => ?_)
    cases lv <;> exact le_refl _

structure Orderly (cfg : Settings) (s : Calls) : Prop where
  wf : WellFormed s
  queued : Queued cfg s.shared

theorem Orderly.init : Orderly cfg Calls.init where
  wf := WellFormed.init
  queued := ⟨fun _ _ h => (by cases h), fun _ _ h => (by cases h), fun _ _ h => (by cases h)⟩

theorem Orderly.exec {s : Calls} {k : Nat} {rest : List Frame} (hs : Orderly cfg s)
    (hk : s.threads[k]? = some (f :: rest)) (hcounted : registersCounted f = true)
    (htime : queuedInTime cfg s.shared f = true) (h : exec cfg s.shared f o = some (reg', new)) :
    Orderly cfg ⟨reg', s.threads.set k (new ++ rest)⟩ where
  wf := hs.wf.exec hk h
  queued := (exec_change h).queued hs.wf.kept hs.queued hcounted htime

/-- **No job is stranded.** In every interleaving of calls on counted jobs in which no job enters a
queue that could be admitted there and then, no pending job in a queue could ever be admitted. -/
theorem no_job_stranded (cfg : Settings) {moves : List (Lib.Move Frame Turnout)} {s : Calls}
    (hok : Lib.Meets (Calls.step cfg) (Lib.Threads.Guarded fun s f =>
      registersCounted f = true ∧ queuedInTime cfg s.shared f = true) Calls.init moves)
    (hrun : Lib.run (Calls.step cfg) Calls.init moves = some s) (lane : JobLane) (id : JobId)
    (r : Record) (hid : id ∈ s.shared.queues lane) (hr : s.shared.records id = some r)
    (hp : s.shared.jobs id = .pending) : s.shared.canAdmit cfg r = false := by
  have hs : Orderly cfg s :=
    Lib.Threads.guarded_invariant (fun s f hi hf => ⟨hi.wf.call hf, hi.queued⟩)
      (fun s k f rest o shared new hi hk hf hx => hi.exec hk hf.1 hf.2 hx) Orderly.init hok hrun
  exact canAdmit_eq_false.mpr (hs.queued.blocked lane id hid r hr hp)

theorem no_job_stranded_in_turn :
    ∃ s r, Lib.run (Calls.step .default) Calls.init startsInTurn = some s ∧
      s.shared.queues .background = ["b"] ∧ s.shared.records "b" = some r ∧
      s.shared.canAdmit .default r = false :=
  ⟨_, _, rfl, rfl, rfl, no_job_stranded .default (by decide : Lib.Meets _ _ _ startsInTurn) rfl
    .background "b" _ (by decide) rfl rfl⟩

/-- No call is in the middle of its steps: each is over, or waits in a queue. -/
def AtRest (s : Calls) : Bool :=
  s.threads.all fun
    | [] | [.waiting _] | [.returned _] => true
    | _ => false

/-- The first job ends between the decision to queue the second and its entry in the queue: the
second waits beside a free slot. -/
def slotFreedInGap : List (Lib.Move Frame Turnout) :=
  twoJobs ++ .call (.start "a") :: steps 3 7 ++ .call (.start "b") :: steps 4 1
    ++ .call (.finish "a" .succeeded) :: steps 5 5 ++ steps 4 1

theorem job_stranded :
    ¬ ∀ (moves : List (Lib.Move Frame Turnout)) (s : Calls),
      Lib.Meets (Calls.step .default) (Lib.Threads.Guarded fun _ f => registersCounted f = true)
        Calls.init moves →
      Lib.run (Calls.step .default) Calls.init moves = some s → AtRest s = true →
      ∀ lane id r, id ∈ s.shared.queues lane → s.shared.records id = some r →
        s.shared.jobs id = .pending → s.shared.canAdmit .default r = false := by
  intro h
  have hfree := h slotFreedInGap _ (by decide) rfl rfl .background "b" _ (by decide) rfl rfl
  exact absurd hfree (by decide)

end MiniAgent.Jobs
