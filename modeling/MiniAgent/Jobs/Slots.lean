import MiniAgent.Jobs.Machine

/-!
# Slot accounting

The three ownership levels of a lane under one name each (`Level`): its running counter, its limit,
and the number of registered records that hold a slot there. `excess` is the counter less that
number. It is the quantity every section is measured by: releasing a slot keeps it, and a slot whose
record is overwritten or forgotten adds to it, so it never goes down.

With `canAdmit` checked in the section that takes a slot, the counters stay under their limits, and
with them the running jobs.
-/

namespace MiniAgent.Jobs

/-! ## Levels -/

inductive Level where
  | system
  | session (id : String)
  | thread (key : ScopeId)

def JobLimitPolicy.limit (policy : JobLimitPolicy) : Level → JobLane → LaneLimits
  | .system => policy.system
  | .session _ => policy.session
  | .thread _ => policy.thread

/-- The record counts in a lane at a level. -/
def Record.at (r : Record) (lv : Level) (lane : JobLane) : Bool :=
  r.lane == lane && match lv with
    | .system => true
    | .session id => r.session == some id
    | .thread key => r.threadKey == some key

namespace Registry

variable {cfg : Settings} {reg : Registry} {id : JobId} {r : Record} {lv : Level} {lane : JobLane}

def counter (reg : Registry) : Level → JobLane → Int
  | .system, lane => reg.running lane
  | .session id, lane => reg.runningBySession (id, lane)
  | .thread key, lane => reg.runningByThread (key, lane)

/-- The job's record holds a slot of the lane at the level. -/
def holdsAt (reg : Registry) (lv : Level) (lane : JobLane) (id : JobId) : Bool :=
  match reg.records id with
  | some r => r.at lv lane && r.holdsSlot
  | none => false

/-- Registered records that hold a slot of the lane at the level. -/
def leased (reg : Registry) (lv : Level) (lane : JobLane) : Nat :=
  reg.registered.countP (reg.holdsAt lv lane)

/-- Counted running jobs of the lane at the level. -/
def countedRunning (reg : Registry) (lv : Level) (lane : JobLane) : Nat :=
  reg.registered.countP fun id => reg.jobs id == .running && reg.holdsAt lv lane id

def excess (reg : Registry) (lv : Level) (lane : JobLane) : Int :=
  reg.counter lv lane - reg.leased lv lane

theorem countedRunning_le_leased : reg.countedRunning lv lane ≤ reg.leased lv lane := by
  apply List.countP_mono_left
  intro id _ h
  exact (Bool.and_eq_true_iff.mp h).2

/-- Admission asks for room at every level the record counts at. -/
theorem canAdmit_iff : reg.canAdmit cfg r = true ↔
    ∀ lv, r.at lv r.lane = true → reg.counter lv r.lane <
      (cfg.policy.limit lv r.lane).maxRunning := by
  simp only [canAdmit, Bool.and_eq_true, decide_eq_true_eq]
  constructor
  · rintro ⟨⟨hsys, hses⟩, hthr⟩ lv hat
    cases lv with
    | system => exact hsys
    | session id =>
      have hs : r.session = some id := by simpa [Record.at] using hat
      rw [hs] at hses
      exact of_decide_eq_true hses
    | thread key =>
      have hk : r.threadKey = some key := by simpa [Record.at] using hat
      rw [hk] at hthr
      exact of_decide_eq_true hthr
  · intro h
    refine ⟨⟨h .system (by simp [Record.at]), ?_⟩, ?_⟩
    · rcases hs : r.session with _ | id
      · rfl
      · exact decide_eq_true (h (.session id) (by simp [Record.at, hs]))
    · rcases hk : r.threadKey with _ | key
      · rfl
      · exact decide_eq_true (h (.thread key) (by simp [Record.at, hk]))

theorem counter_charge (n : Int) :
    (reg.charge r n).counter lv lane = reg.counter lv lane + if r.at lv lane then n else 0 := by
  cases lv with
  | system =>
    by_cases hl : lane = r.lane
    · subst hl; simp [counter, charge, Record.at]
    · simp [counter, charge, Record.at, hl, Ne.symm hl]
  | session id =>
    rcases hs : r.session with _ | sid
    · simp [counter, charge, Record.at, hs]
    · by_cases hc : id = sid ∧ lane = r.lane
      · obtain ⟨rfl, rfl⟩ := hc
        simp [counter, charge, Record.at, hs]
      · have hne : (id, lane) ≠ (sid, r.lane) := fun he => hc (Prod.mk.inj he)
        have hat : ¬(r.lane = lane ∧ sid = id) := fun he => hc ⟨he.2.symm, he.1.symm⟩
        simp [counter, charge, Record.at, hs, Function.update_of_ne hne, hat]
  | thread key =>
    rcases hk : r.threadKey with _ | k
    · simp [counter, charge, Record.at, hk]
    · by_cases hc : key = k ∧ lane = r.lane
      · obtain ⟨rfl, rfl⟩ := hc
        simp [counter, charge, Record.at, hk]
      · have hne : (key, lane) ≠ (k, r.lane) := fun he => hc (Prod.mk.inj he)
        have hat : ¬(r.lane = lane ∧ k = key) := fun he => hc ⟨he.2.symm, he.1.symm⟩
        simp [counter, charge, Record.at, hk, Function.update_of_ne hne, hat]

/-! ## How the sections move the excess -/

theorem holdsAt_setRecord {r' : Record} {j : JobId} :
    (reg.setRecord id r').holdsAt lv lane j =
      if j = id then r'.at lv lane && r'.holdsSlot else reg.holdsAt lv lane j := by
  by_cases hj : j = id
  · subst hj; simp [holdsAt, setRecord]
  · simp [holdsAt, setRecord, hj]

/-- Counting with a test that is changed at one element of the list. -/
theorem countP_update {l : List JobId} (hl : l.Nodup) (p : JobId → Bool) (b : Bool) :
    ((l.countP fun j => if j = id then b else p j : Nat) : Int) =
      l.countP p + if id ∈ l then (b.toNat : Int) - (p id).toNat else 0 := by
  induction l with
  | nil => simp
  | cons x l ih =>
    obtain ⟨hx, hl⟩ := List.nodup_cons.mp hl
    by_cases hxi : x = id
    · subst hxi
      have hrest : (l.countP fun j => if j = x then b else p j) = l.countP p := by
        apply List.countP_congr
        intro j hj
        have hne : j ≠ x := fun he => hx (he ▸ hj)
        simp [hne]
      rw [List.countP_cons, List.countP_cons, hrest]
      rcases b with _ | _ <;> rcases p x with _ | _
      · simp
      · simp only [Bool.false_eq_true, if_false, if_true, List.mem_cons,
          true_or, Bool.toNat_false, Bool.toNat_true]
        push_cast
        omega
      · simp
      · simp
    · have hmem : (id ∈ x :: l) = (id ∈ l) := by simp [Ne.symm hxi]
      rw [List.countP_cons, List.countP_cons, if_neg hxi]
      simp only [hmem]
      push_cast
      rw [ih hl]
      omega

theorem leased_setRecord (hnd : reg.registered.Nodup) {r' : Record} :
    ((reg.setRecord id r').leased lv lane : Int) = reg.leased lv lane +
      if id ∈ reg.registered then
        ((r'.at lv lane && r'.holdsSlot).toNat : Int) - (reg.holdsAt lv lane id).toNat
      else 0 := by
  rw [leased, leased, ← countP_update hnd]
  congr 1
  apply List.countP_congr
  intro j _
  rw [holdsAt_setRecord]

@[simp] theorem leaseOf_at : (reg.leaseOf r).at lv lane = r.at lv lane := rfl

@[simp] theorem leaseOf_holdsSlot : (reg.leaseOf r).holdsSlot = reg.takesSlot r := by
  simp [leaseOf, Record.holdsSlot]

theorem counter_admitLocked (hr : reg.records id = some r) :
    (reg.admitLocked id).counter lv lane =
      reg.counter lv lane + if reg.takesSlot r && r.at lv lane then 1 else 0 := by
  rw [admitLocked_of_some hr]
  cases ht : reg.takesSlot r
  · simp only [Bool.false_eq_true, if_false, Bool.false_and, Int.add_zero]
    rfl
  · simp only [if_true, Bool.true_and]
    exact counter_charge 1

theorem leased_admitLocked (hr : reg.records id = some r) :
    (reg.admitLocked id).leased lv lane = (reg.setRecord id (reg.leaseOf r)).leased lv lane := by
  rw [admitLocked_of_some hr]
  split <;> rfl

/-- **Admission of a registered job**: a slot it held before is lost to the count. -/
theorem excess_admitLocked (hnd : reg.registered.Nodup) (hr : reg.get id = some r) :
    (reg.admitLocked id).excess lv lane =
      reg.excess lv lane + (r.at lv lane && r.holdsSlot).toNat := by
  obtain ⟨hmem, hr⟩ := get_eq_some.mp hr
  have hheld : reg.holdsAt lv lane id = (r.at lv lane && r.holdsSlot) := by simp [holdsAt, hr]
  rw [excess, counter_admitLocked hr, leased_admitLocked hr, leased_setRecord hnd,
    if_pos hmem, hheld,
    leaseOf_at, leaseOf_holdsSlot, excess]
  cases reg.takesSlot r <;> cases r.at lv lane <;> simp <;> omega

/-- Admission of a record no longer registered: a slot it takes is lost to the count. -/
theorem excess_admitLocked_stale (hnd : reg.registered.Nodup) (hr : reg.records id = some r)
    (hmem : id ∉ reg.registered) :
    (reg.admitLocked id).excess lv lane =
      reg.excess lv lane + if reg.takesSlot r && r.at lv lane then 1 else 0 := by
  rw [excess, counter_admitLocked hr, leased_admitLocked hr, leased_setRecord hnd,
    if_neg hmem, excess]
  omega

theorem excess_admitLocked_mono (hnd : reg.registered.Nodup) :
    reg.excess lv lane ≤ (reg.admitLocked id).excess lv lane := by
  rcases hr : reg.records id with _ | r
  · rw [admitLocked_of_none hr]
  · by_cases hmem : id ∈ reg.registered
    · rw [excess_admitLocked hnd (get_eq_some.mpr ⟨hmem, hr⟩)]
      omega
    · rw [excess_admitLocked_stale hnd hr hmem]
      split <;> omega

@[simp] theorem releasedOf_at : (releasedOf r).at lv lane = r.at lv lane := rfl

@[simp] theorem releasedOf_holdsSlot : (releasedOf r).holdsSlot = false := by
  rcases hl : r.lease with _ | lease <;> simp [releasedOf, Record.holdsSlot, hl]

theorem counter_release : (reg.release id r).counter lv lane =
    reg.counter lv lane - (r.at lv lane && r.holdsSlot).toNat := by
  unfold release
  dsimp only
  split
  · next hh =>
    rw [counter_charge, hh, Bool.and_true]
    cases r.at lv lane
    · simp; rfl
    · simp only [if_true, Bool.toNat_true]; rfl
  · next hh =>
    rw [Bool.not_eq_true] at hh
    rw [hh, Bool.and_false]
    simp only [Bool.toNat_false, Int.ofNat_zero, Int.sub_zero]
    rfl

theorem leased_release (hnd : reg.registered.Nodup) (hr : reg.get id = some r) :
    ((reg.release id r).leased lv lane : Int) =
      reg.leased lv lane - (r.at lv lane && r.holdsSlot).toNat := by
  obtain ⟨hmem, hr⟩ := get_eq_some.mp hr
  have hheld : reg.holdsAt lv lane id = (r.at lv lane && r.holdsSlot) := by simp [holdsAt, hr]
  have hset : ((reg.setRecord id (releasedOf r)).leased lv lane : Int) = _ := leased_setRecord hnd
  rw [if_pos hmem, hheld, releasedOf_holdsSlot, Bool.and_false] at hset
  have hsame : (reg.release id r).leased lv lane = (reg.setRecord id (releasedOf r)).leased
      lv lane := by
    obtain ⟨_, _, _, h⟩ := release_frame reg id r
    rw [h]
    rfl
  rw [hsame, hset]
  simp
  omega

/-- **Release keeps the excess**: the slot and the count of it go together. -/
theorem excess_release (hnd : reg.registered.Nodup) (hr : reg.get id = some r) :
    (reg.release id r).excess lv lane = reg.excess lv lane := by
  rw [excess, counter_release, leased_release hnd hr, excess]
  omega

theorem leased_forget_le {ids : List JobId} :
    (reg.forget ids).leased lv lane ≤ reg.leased lv lane :=
  List.filter_sublist.countP_le

/-- Forgetting records that hold no slot keeps the excess. -/
theorem leased_filter {p : JobId → Bool}
    (h : ∀ j ∈ reg.registered, p j = false → reg.holdsAt lv lane j = false) :
    (reg.registered.filter p).countP (reg.holdsAt lv lane) = reg.leased lv lane := by
  rw [leased, List.countP_filter]
  apply List.countP_congr
  intro j hj
  cases hp : p j
  · simp [h j hj hp]
  · simp

/-- A new record holds no slot. -/
theorem leased_enrol (hnd : reg.registered.Nodup) (hid : id ∉ reg.registered)
    (hr : r.lease = none) :
    (reg.enrol id r).leased lv lane = reg.leased lv lane := by
  have hset : ((reg.setRecord id r).leased lv lane : Int) = _ := leased_setRecord hnd
  rw [if_neg hid, Int.add_zero] at hset
  have hnew : (reg.setRecord id r).holdsAt lv lane id = false := by
    rw [holdsAt_setRecord, if_pos rfl]
    simp [Record.holdsSlot, hr]
  have happ : (reg.enrol id r).leased lv lane =
      (reg.setRecord id r).leased lv lane + [id].countP ((reg.setRecord id r).holdsAt lv lane) :=
    List.countP_append
  rw [List.countP_singleton, hnew] at happ
  simp only [Bool.false_eq_true, if_false, Nat.add_zero] at happ
  omega

end Registry

/-! ## Capacity -/

section Capacity

variable {cfg : Settings} {reg reg' : Registry} {f : Frame} {lv : Level} {lane : JobLane}

/-- **No step lets the count of the leases overtake the counter.** -/
theorem Change.excess_mono (h : Change cfg reg f reg') (hnd : reg.registered.Nodup) :
    reg.excess lv lane ≤ reg'.excess lv lane := by
  cases h with
  | @enrol id r f hid _ _ _ hl _ _ =>
    have hcounter : (reg.enrol id r).counter lv lane = reg.counter lv lane := by cases lv <;> rfl
    rw [Registry.excess, Registry.excess, hcounter, Registry.leased_enrol hnd hid hl]
  | admission => exact Registry.excess_admitLocked_mono hnd
  | @terminal id =>
    suffices hs : (reg.onTerminal cfg id).1.registered.Nodup ∧
        reg.excess lv lane ≤ (reg.onTerminal cfg id).1.excess lv lane from hs.2
    apply Registry.onTerminal_invariant
      (P := fun reg' => reg'.registered.Nodup ∧ reg.excess lv lane ≤ reg'.excess lv lane)
    · rintro reg' r ⟨hnd', hle⟩ hr _
      exact ⟨by rwa [Registry.release_registered], by rwa [Registry.excess_release hnd' hr]⟩
    · rintro reg' ids ⟨hnd', hle⟩ _
      refine ⟨hnd'.filter _, hle.trans ?_⟩
      have hleased : (reg'.forget ids).leased lv lane ≤ reg'.leased lv lane :=
        Registry.leased_forget_le
      have hcounter : (reg'.forget ids).counter lv lane = reg'.counter lv lane := by
        cases lv <;> rfl
      rw [Registry.excess, Registry.excess, hcounter]
      omega
    · rintro reg' j r ⟨hnd', hle⟩ _ _ _
      exact ⟨by rwa [Registry.admitLocked_registered],
        hle.trans (Registry.excess_admitLocked_mono hnd')⟩
    · rintro reg' queues ⟨hnd', hle⟩
      refine ⟨hnd', hle.trans (le_of_eq ?_)⟩
      cases lv <;> rfl
    · exact ⟨hnd, le_refl _⟩
  | @unregister id _ _ =>
    have hleased : (reg.unregister id).leased lv lane ≤ reg.leased lv lane :=
      List.filter_sublist.countP_le
    have hcounter : (reg.unregister id).counter lv lane = reg.counter lv lane := by cases lv <;> rfl
    rw [Registry.excess, Registry.excess, hcounter]
    omega
  | _ => cases lv <;> exact le_refl _

/-- Every counter is within its limit. -/
def WithinLimits (cfg : Settings) (reg : Registry) : Prop :=
  ∀ lv lane, reg.counter lv lane ≤ (cfg.policy.limit lv lane).maxRunning

theorem WithinLimits.admitLocked {id : JobId} (h : WithinLimits cfg reg)
    (hroom : ∀ r, reg.records id = some r → reg.takesSlot r = true → reg.canAdmit cfg r = true) :
    WithinLimits cfg (reg.admitLocked id) := by
  rcases hr : reg.records id with _ | r
  · rwa [Registry.admitLocked_of_none hr]
  · intro lv lane
    rw [Registry.counter_admitLocked hr]
    split
    · next htake =>
      obtain ⟨ht, hat⟩ := Bool.and_eq_true_iff.mp htake
      have hlane : r.lane = lane := by
        have := (Bool.and_eq_true_iff.mp hat).1
        exact eq_of_beq this
      subst hlane
      have hlt := Registry.canAdmit_iff.mp (hroom r hr ht) lv hat
      omega
    · have := h lv lane
      omega

/-- The admission of a decided job finds the room it was decided on. -/
def roomAtAdmission (cfg : Settings) (reg : Registry) : Frame → Bool
  | .finishAdmission id => match reg.records id with
    | some r => !reg.takesSlot r || reg.canAdmit cfg r
    | none => true
  | _ => true

theorem Change.withinLimits (h : Change cfg reg f reg') (hw : WithinLimits cfg reg)
    (hroom : roomAtAdmission cfg reg f = true) : WithinLimits cfg reg' := by
  cases h with
  | @admission id =>
    apply hw.admitLocked
    intro r hr ht
    simpa [roomAtAdmission, hr, ht] using hroom
  | @terminal id =>
    apply Registry.onTerminal_invariant (P := WithinLimits cfg)
    · intro reg' r h _ _ lv lane
      rw [Registry.counter_release]
      have := h lv lane
      omega
    · intro reg' ids h _ lv lane
      have := h lv lane
      cases lv <;> exact this
    · intro reg' j r h hr _ hcan
      apply h.admitLocked
      intro r' hr' _
      rw [(Registry.get_eq_some.mp hr).2] at hr'
      cases hr'
      exact hcan
    · intro reg' queues h lv lane
      have := h lv lane
      cases lv <;> exact this
    · exact hw
  | _ =>
    intro lv lane
    have := hw lv lane
    cases lv <;> exact this

/-- Capacity as an invariant of the registry. -/
structure Sound (cfg : Settings) (reg : Registry) : Prop where
  nodup : reg.registered.Nodup
  covered : ∀ lv lane, 0 ≤ reg.excess lv lane
  within : WithinLimits cfg reg

theorem Sound.exec {o : Turnout} {new : List Frame} (hs : Sound cfg reg)
    (hroom : roomAtAdmission cfg reg f = true) (h : exec cfg reg f o = some (reg', new)) :
    Sound cfg reg' where
  nodup := (exec_change h).nodup hs.nodup
  covered lv lane := (hs.covered lv lane).trans ((exec_change h).excess_mono hs.nodup)
  within := (exec_change h).withinLimits hs.within hroom

theorem Sound.init (hlimits : ∀ lv lane, 0 ≤ (cfg.policy.limit lv lane).maxRunning) :
    Sound cfg Calls.init.shared where
  nodup := List.nodup_nil
  covered lv lane := by cases lv <;> exact le_refl _
  within lv lane := by
    have := hlimits lv lane
    cases lv <;> exact this

/-- **Lane capacity.** In every interleaving in which each admission that takes a slot finds the
room it was decided on, no lane ever runs more counted jobs than its limit, at any level. -/
theorem lane_capacity (cfg : Settings)
    (hlimits : ∀ lv lane, 0 ≤ (cfg.policy.limit lv lane).maxRunning)
    {moves : List (Lib.Move Frame Turnout)} {s : Calls}
    (hok : Lib.Meets (Calls.step cfg)
      (Lib.Threads.Guarded fun s f => roomAtAdmission cfg s.shared f = true) Calls.init moves)
    (hrun : Lib.run (Calls.step cfg) Calls.init moves = some s) (lv : Level) (lane : JobLane) :
    (s.shared.countedRunning lv lane : Int) ≤ (cfg.policy.limit lv lane).maxRunning := by
  have hsound : Sound cfg s.shared :=
    Lib.Threads.shared_invariant (fun s f o shared new hi hf hx => hi.exec hf hx)
      (Sound.init hlimits) hok hrun
  have hrunning : s.shared.countedRunning lv lane ≤ s.shared.leased lv lane :=
    Registry.countedRunning_le_leased
  have hcovered := hsound.covered lv lane
  have hwithin := hsound.within lv lane
  unfold Registry.excess at hcovered
  omega

end Capacity

theorem defaults_limit_nonneg (lv : Level) (lane : JobLane) :
    0 ≤ (Settings.default.policy.limit lv lane).maxRunning := by
  cases lv <;> cases lane <;>
    simp [Settings.default, JobLimitPolicy.defaults, JobLimitPolicy.limit]

/-- One start after the other. -/
def startsInTurn : List (Lib.Move Frame Turnout) :=
  twoJobs ++ .call (.start "a") :: steps 3 3 ++ .call (.start "b") :: steps 4 2

/-- The first of two jobs runs, and the second waits its turn. -/
theorem lane_capacity_in_turn :
    ∃ s, Lib.run (Calls.step .default) Calls.init startsInTurn = some s ∧
      s.shared.countedRunning (.session "s") .background = 1 ∧
      s.shared.queues .background = ["b"] ∧
      (s.shared.countedRunning (.session "s") .background : Int) ≤
        (Settings.default.policy.limit (.session "s") .background).maxRunning :=
  ⟨_, rfl, rfl, rfl, lane_capacity .default defaults_limit_nonneg
    (by decide : Lib.Meets _ _ _ startsInTurn) rfl (.session "s") .background⟩

/-- Two starts that both decide before either takes its slot: two jobs run where one may. -/
theorem lane_capacity_exceeded :
    ¬ ∀ (moves : List (Lib.Move Frame Turnout)) (s : Calls),
      Lib.run (Calls.step .default) Calls.init moves = some s → ∀ lv lane,
      (s.shared.countedRunning lv lane : Int) ≤
        (Settings.default.policy.limit lv lane).maxRunning := by
  intro h
  have hcount := h (twoJobs ++ .call (.start "a") :: .call (.start "b") ::
    (steps 3 1 ++ steps 4 1 ++ steps 3 2 ++ steps 4 2)) _ rfl (.session "s") .background
  exact absurd hcount (by decide)

end MiniAgent.Jobs
