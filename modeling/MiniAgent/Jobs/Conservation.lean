import MiniAgent.Jobs.Slots

/-!
# Slots are conserved

Every slot that is counted is held by a registered record, and every record that holds one will give
it back: its job is listened to, and once the job has ended a notice is on its way to the registry.

Three gaps break this. A job can end between the decision to admit it and its admission, so that the
callback that would release the slot has come and gone; a job started twice is admitted twice and
released once; a record can be unregistered between the end of its job and the callback. `slotsKept`
is the condition that no step falls into one of them.
-/

namespace MiniAgent.Jobs

variable {cfg : Settings} {reg reg' : Registry} {f : Frame} {o : Turnout} {new : List Frame}
  {id : JobId} {lv : Level} {lane : JobLane}

/-! ## Steps that keep the slots -/

/-- The record of the job is registered and holds a slot. -/
def Registry.held (reg : Registry) (id : JobId) : Bool :=
  match reg.get id with
  | some r => r.holdsSlot
  | none => false

/-- A job that can take a slot: registered, pending, listened to, and without one. -/
def Registry.canHold (reg : Registry) (id : JobId) : Bool :=
  (reg.get id).isSome && reg.isPending id && reg.listening id && !reg.held id

/-- The jobs a section gives a slot to can take one, each at most once, and no record is
unregistered with a slot in hand. -/
def slotsKept (cfg : Settings) (reg : Registry) : Frame → Bool
  | .finishAdmission id => match reg.records id with
    | some r => !r.holdsSlot && (!reg.takesSlot r || reg.canHold id)
    | none => true
  | .onTerminal id =>
    decide (reg.onTerminal cfg id).2.Nodup && (reg.onTerminal cfg id).2.all reg.canHold
  | .unregister id => !((reg.jobs id).terminal && reg.held id)
  | _ => true

theorem Registry.held_iff : reg.held id = true ↔ ∃ r, reg.get id = some r ∧ r.holdsSlot = true := by
  rcases hr : reg.get id with _ | r <;> simp [held, hr]

theorem Registry.canHold_iff : reg.canHold id = true ↔
    (∃ r, reg.get id = some r ∧ r.holdsSlot = false) ∧ reg.jobs id = .pending ∧
      reg.listening id = true := by
  rcases hr : reg.get id with _ | r
  · simp [canHold, hr]
  · simp [canHold, held, hr, isPending]
    tauto

/-! ## The registry's side -/

/-- The counters are exact, and a slot is held by an open record of a job that is listened to. -/
structure Balanced (reg : Registry) : Prop where
  nodup : reg.registered.Nodup
  kept : Kept reg
  exact : ∀ lv lane, reg.excess lv lane = 0
  watched : ∀ id r, reg.get id = some r → r.holdsSlot = true →
    reg.listening id = true ∧ r.terminal = false

theorem excess_congr (hc : reg'.counter lv lane = reg.counter lv lane)
    (hl : reg'.leased lv lane = reg.leased lv lane) : reg'.excess lv lane = reg.excess lv lane := by
  rw [Registry.excess, Registry.excess, hc, hl]

theorem get_setRecord {r : Record} {j : JobId} : (reg.setRecord id r).get j =
    if j = id then (if id ∈ reg.registered then some r else none) else reg.get j := by
  by_cases hj : j = id
  · subst hj; simp [Registry.get, Registry.setRecord]
  · simp [Registry.get, Registry.setRecord, hj]

theorem get_admitLocked {r : Record} {j : JobId} (hr : reg.records id = some r) :
    (reg.admitLocked id).get j = (reg.setRecord id (reg.leaseOf r)).get j := by
  simp only [Registry.get, Registry.admitLocked_registered, Registry.admitLocked_records hr]
  rfl

theorem get_release {r : Record} {j : JobId} :
    (reg.release id r).get j = (reg.setRecord id (Registry.releasedOf r)).get j := by
  simp only [Registry.get, Registry.release_registered, Registry.release_records]
  rfl

/-- Admission gives a slot to no other job. -/
theorem held_admitLocked {j : JobId} (hj : j ≠ id) : (reg.admitLocked id).held j = reg.held j := by
  rcases hr : reg.records id with _ | r
  · rw [Registry.admitLocked_of_none hr]
  · unfold Registry.held
    rw [get_admitLocked hr, get_setRecord, if_neg hj]

/-- A released record holds nothing, and the others hold what they held. -/
theorem held_release {r : Record} {j : JobId} :
    (reg.release id r).held j = (decide (j ≠ id) && reg.held j) := by
  unfold Registry.held
  rw [get_release, get_setRecord]
  by_cases hj : j = id
  · subst hj
    by_cases hm : j ∈ reg.registered <;> simp [hm]
  · simp [hj]

/-- The admission of a job that can take a slot, or of one that takes none. -/
theorem Balanced.admitLocked (hb : Balanced reg) {r : Record} (hr : reg.records id = some r)
    (hfree : r.holdsSlot = false) (hcan : reg.takesSlot r = true → reg.canHold id = true) :
    Balanced (reg.admitLocked id) where
  nodup := by rw [Registry.admitLocked_registered]; exact hb.nodup
  kept := hb.kept.admitLocked
  exact lv lane := by
    by_cases hmem : id ∈ reg.registered
    · rw [Registry.excess_admitLocked hb.nodup (Registry.get_eq_some.mpr ⟨hmem, hr⟩),
        hb.exact, hfree]
      simp
    · rw [Registry.excess_admitLocked_stale hb.nodup hr hmem, hb.exact]
      split
      · next ht =>
        -- a job that takes a slot is registered
        obtain ⟨⟨q, hq, _⟩, _⟩ := Registry.canHold_iff.mp (hcan (Bool.and_eq_true_iff.mp ht).1)
        exact absurd (Registry.get_eq_some.mp hq).1 hmem
      · rfl
  watched j q hq hheld := by
    rw [Registry.admitLocked_listening]
    rw [get_admitLocked hr, get_setRecord] at hq
    split at hq
    · next hj =>
      subst hj
      split at hq
      · cases hq
        rw [Registry.leaseOf_holdsSlot] at hheld
        obtain ⟨_, hpend, hlisten⟩ := Registry.canHold_iff.mp (hcan hheld)
        exact ⟨hlisten, (hb.kept j r hr hpend).2⟩
      · cases hq
    · exact hb.watched j q hq hheld

theorem Balanced.release (hb : Balanced reg) {r : Record} (hr : reg.get id = some r)
    (hid : reg.jobs id ≠ .pending) : Balanced (reg.release id r) where
  nodup := by rw [Registry.release_registered]; exact hb.nodup
  kept j q hq hp := by
    rw [Registry.release_records] at hq
    rw [Registry.release_registered]
    rw [Registry.release_jobs] at hp
    have hset : Kept (reg.setRecord id (Registry.releasedOf r)) :=
      hb.kept.setRecord (Registry.get_eq_some.mp hr).2 (fun hp' => absurd hp' hid)
    exact hset j q hq hp
  exact lv lane := by rw [Registry.excess_release hb.nodup hr]; exact hb.exact lv lane
  watched j q hq hheld := by
    rw [Registry.release_listening]
    rw [get_release, get_setRecord] at hq
    split at hq
    · split at hq
      · cases hq
        rw [Registry.releasedOf_holdsSlot] at hheld
        cases hheld
      · cases hq
    · exact hb.watched j q hq hheld

theorem held_filter {p : JobId → Bool} {listening : JobId → Bool} {j : JobId}
    (h : Registry.held { reg with registered := reg.registered.filter p, listening := listening }
      j = true) :
    reg.held j = true := by
  obtain ⟨q, hq, hheld⟩ := Registry.held_iff.mp h
  obtain ⟨hmem, hq⟩ := Registry.get_eq_some.mp hq
  exact Registry.held_iff.mpr ⟨q, Registry.get_eq_some.mpr ⟨(List.mem_filter.mp hmem).1, hq⟩, hheld⟩

/-- Records without a slot are dropped, whatever becomes of their listeners. -/
theorem Balanced.drop (hb : Balanced reg) {p : JobId → Bool} {listening : JobId → Bool}
    (hfree : ∀ id r, reg.get id = some r → p id = false →
      r.holdsSlot = false ∧ reg.jobs id ≠ .pending)
    (hlisten : ∀ id, p id = true → listening id = reg.listening id) :
    Balanced { reg with registered := reg.registered.filter p, listening := listening } where
  nodup := hb.nodup.filter _
  kept j q hq hp := by
    obtain ⟨hmem, hopen⟩ := hb.kept j q hq hp
    refine ⟨List.mem_filter.mpr ⟨hmem, ?_⟩, hopen⟩
    cases hpj : p j
    · exact absurd hp (hfree j q (Registry.get_eq_some.mpr ⟨hmem, hq⟩) hpj).2
    · rfl
  exact lv lane := by
    rw [← hb.exact lv lane]
    apply excess_congr
    · cases lv <;> rfl
    · show (reg.registered.filter p).countP (reg.holdsAt lv lane) = reg.leased lv lane
      apply Registry.leased_filter
      intro j hj hpj
      unfold Registry.holdsAt
      split
      · next r hr =>
        rw [(hfree j r (Registry.get_eq_some.mpr ⟨hj, hr⟩) hpj).1, Bool.and_false]
      · rfl
  watched j q hq hheld := by
    obtain ⟨hmem, hrec⟩ := Registry.get_eq_some.mp hq
    obtain ⟨hmem, hpj⟩ := List.mem_filter.mp hmem
    have hold := hb.watched j q (Registry.get_eq_some.mpr ⟨hmem, hrec⟩) hheld
    exact ⟨(hlisten j hpj).trans hold.1, hold.2⟩

/-- The books depend on the jobs only through `Kept`. -/
theorem Balanced.congr (hb : Balanced reg) (hreg : reg'.registered = reg.registered)
    (hrec : reg'.records = reg.records)
    (hlis : ∀ id ∈ reg.registered, reg'.listening id = reg.listening id)
    (hcounter : ∀ lv lane, reg'.counter lv lane = reg.counter lv lane) (hkept : Kept reg') :
    Balanced reg' where
  nodup := hreg ▸ hb.nodup
  kept := hkept
  exact lv lane := by
    rw [← hb.exact lv lane]
    apply excess_congr (hcounter lv lane)
    unfold Registry.leased Registry.holdsAt
    rw [hreg, hrec]
  watched j q hq hheld := by
    obtain ⟨hmem, hq⟩ := Registry.get_eq_some.mp hq
    rw [hreg] at hmem
    rw [hrec] at hq
    rw [hlis j hmem]
    exact hb.watched j q (Registry.get_eq_some.mpr ⟨hmem, hq⟩) hheld

/-- Where the terminal section stands, against the registry it began with. -/
structure Settling (reg reg' : Registry) (started : List JobId) : Prop where
  balanced : Balanced reg'
  jobs : reg'.jobs = reg.jobs
  still : ∀ j ∈ reg'.registered, reg'.listening j = reg.listening j
  held : ∀ j, reg'.held j = true → j ∈ started ∨ reg.held j = true

theorem Settling.onTerminal (hb : Balanced reg) (hid : reg.jobs id ≠ .pending)
    (hkept : slotsKept cfg reg (.onTerminal id) = true) :
    Settling reg (reg.onTerminal cfg id).1 (reg.onTerminal cfg id).2 := by
  obtain ⟨hnd, hall⟩ := Bool.and_eq_true_iff.mp hkept
  replace hnd := of_decide_eq_true hnd
  rw [List.all_eq_true] at hall
  apply Registry.onTerminal_rule (P := Settling reg)
  · intro reg' r hs hr _
    refine ⟨hs.balanced.release hr (by rwa [hs.jobs]), ?_, ?_, ?_⟩
    · rw [Registry.release_jobs]; exact hs.jobs
    · intro j hj
      rw [Registry.release_listening]
      exact hs.still j (by rwa [Registry.release_registered] at hj)
    · intro j hj
      rw [held_release] at hj
      exact hs.held j (Bool.and_eq_true_iff.mp hj).2
  · intro reg' ids hs hids
    refine ⟨hs.balanced.drop ?_ ?_, hs.jobs, ?_, ?_⟩
    · intro j r hr hj
      obtain ⟨q, hq, ht⟩ := hids j (by simpa using hj)
      rw [hr] at hq
      cases hq
      constructor
      · -- a slot is held by an open record
        cases hh : r.holdsSlot
        · rfl
        · rw [(hs.balanced.watched j r hr hh).2] at ht
          cases ht
      · intro hp
        rw [(hs.balanced.kept j r (Registry.get_eq_some.mp hr).2 hp).2] at ht
        cases ht
    · intro j hj
      exact if_neg (by simpa using hj)
    · intro j hj
      obtain ⟨hmem, hj⟩ := List.mem_filter.mp hj
      have hnot : j ∉ ids := by simpa using hj
      exact (if_neg hnot).trans (hs.still j hmem)
    · intro j hj
      exact hs.held j (held_filter hj)
  · intro reg' started j r hs hprefix hr hpend _
    have hj : j ∈ (reg.onTerminal cfg id).2 := hprefix.subset (by simp)
    have hfirst : j ∉ started := by
      have := hprefix.sublist.nodup hnd
      rw [List.nodup_append] at this
      intro hin
      exact this.2.2 j hin j (by simp) rfl
    obtain ⟨⟨q, hq, hfree⟩, _, hlisten⟩ := Registry.canHold_iff.mp (hall j hj)
    have hnot : reg.held j = false := by simp [Registry.held, hq, hfree]
    obtain ⟨hmem, hrec⟩ := Registry.get_eq_some.mp hr
    have hfree' : r.holdsSlot = false := by
      cases hh : r.holdsSlot
      · rfl
      · rcases hs.held j (Registry.held_iff.mpr ⟨r, hr, hh⟩) with hin | hold
        · exact absurd hin hfirst
        · rw [hnot] at hold; cases hold
    have hcan : reg'.canHold j = true :=
      Registry.canHold_iff.mpr ⟨⟨r, hr, hfree'⟩, by simpa [Registry.isPending] using hpend,
        (hs.still j hmem).trans hlisten⟩
    refine ⟨hs.balanced.admitLocked hrec hfree' (fun _ => hcan), ?_, ?_, ?_⟩
    · rw [Registry.admitLocked_jobs]; exact hs.jobs
    · intro k hk
      rw [Registry.admitLocked_listening]
      exact hs.still k (by rwa [Registry.admitLocked_registered] at hk)
    · intro k hk
      by_cases hkj : k = j
      · subst hkj; exact .inl (by simp)
      · rw [held_admitLocked hkj] at hk
        rcases hs.held k hk with hin | hold
        · exact .inl (List.mem_append_left _ hin)
        · exact .inr hold
  · intro reg' started queues hs
    refine ⟨hs.balanced.congr rfl rfl (fun _ _ => rfl) (fun lv lane => ?_) hs.balanced.kept,
      hs.jobs, hs.still, hs.held⟩
    cases lv <;> rfl
  · exact ⟨hb, rfl, fun _ _ => rfl, fun j hj => .inr hj⟩

/-- The job a callback is for holds no slot after it. -/
theorem held_onTerminal (hb : Balanced reg) (hid : reg.jobs id ≠ .pending) :
    (reg.onTerminal cfg id).1.held id = false := by
  unfold Registry.onTerminal
  split
  · next hr => simp [Registry.held, hr]
  · next r hr =>
    split
    · next ht =>
      cases hh : r.holdsSlot
      · simp [Registry.held, hr, hh]
      · rw [(hb.watched id r hr hh).2] at ht
        cases ht
    · suffices h : ∀ reg' : Registry, reg'.held id = false ∧ reg'.jobs id ≠ .pending →
          ∀ lane, (reg'.drain cfg lane).1.held id = false ∧
            (reg'.drain cfg lane).1.jobs id ≠ .pending by
        refine (h _ ?_ r.lane).1
        apply Registry.pruneHistory_invariant
          (P := fun reg' => reg'.held id = false ∧ reg'.jobs id ≠ .pending)
        · rintro reg' ids ⟨hnot, hjob⟩ _
          refine ⟨?_, hjob⟩
          cases hh : (reg'.forget ids).held id
          · rfl
          · rw [held_filter hh] at hnot
            cases hnot
        · refine ⟨?_, by rw [Registry.release_jobs]; exact hid⟩
          rw [held_release]
          simp
      intro reg' h lane
      apply Registry.drain_rule (P := fun reg' _ => reg'.held id = false ∧ reg'.jobs id ≠ .pending)
      · rintro reg' started j q ⟨hnot, hjob⟩ _ _ hpend _
        have hne : id ≠ j := by
          rintro rfl
          exact hjob (by simpa [Registry.isPending] using hpend)
        rw [held_admitLocked hne, Registry.admitLocked_jobs]
        exact ⟨hnot, hjob⟩
      · rintro reg' started queues h
        exact h
      · exact h

theorem Balanced.enrol (hb : Balanced reg) {r : Record} (hid : id ∉ reg.registered)
    (hlease : r.lease = none) (hkept : Kept (reg.enrol id r))
    (hnd : (reg.enrol id r).registered.Nodup) :
    Balanced (reg.enrol id r) where
  nodup := hnd
  kept := hkept
  exact lv lane := by
    rw [← hb.exact lv lane]
    apply excess_congr _ (Registry.leased_enrol hb.nodup hid hlease)
    cases lv <;> rfl
  watched j q hq hheld := by
    obtain ⟨hmem, hq⟩ := Registry.get_eq_some.mp hq
    by_cases hj : j = id
    · subst hj
      have hqr : q = r := by simpa [Registry.enrol, Registry.setRecord] using hq.symm
      subst hqr
      simp [Record.holdsSlot, hlease] at hheld
    · have hmem' : j ∈ reg.registered := by
        simpa [Registry.enrol, Registry.setRecord, hj] using hmem
      exact hb.watched j q (Registry.get_eq_some.mpr
        ⟨hmem', by simpa [Registry.enrol, Registry.setRecord, hj] using hq⟩) hheld

/-- **One step keeps the books balanced**, given that no callback comes for a pending job and no
listener is removed from a registered one. A slot that is held was held before or is the job's
first. -/
theorem Change.balanced (h : Change cfg reg f reg') (hb : Balanced reg)
    (hkept : slotsKept cfg reg f = true) (hended : ∀ id, f = .onTerminal id →
      reg.jobs id ≠ .pending)
    (hgone : ∀ id, f = .removeListener id → id ∉ reg.registered) :
    Balanced reg' ∧ ∀ j, reg'.held j = true → reg.held j = true ∨ reg'.jobs j = .pending := by
  have hk := h.kept hb.kept hended
  have hnd := h.nodup hb.nodup
  cases h with
  | same => exact ⟨hb, fun j hj => .inl hj⟩
  | @enrol id r f hid hp _ _ hl _ _ =>
    refine ⟨hb.enrol hid hl hk hnd, fun j hj => ?_⟩
    by_cases hji : j = id
    · subst hji; exact .inr hp
    · refine .inl ?_
      unfold Registry.held at hj ⊢
      have hget : (reg.enrol id r).get j = reg.get j := by
        simp [Registry.get, Registry.enrol, Registry.setRecord, hji]
      rwa [hget] at hj
  | @listen id =>
    refine ⟨⟨hnd, hk, fun lv lane => ?_, fun j q hq hh => ?_⟩, fun j hj => .inl hj⟩
    · rw [← hb.exact lv lane]
      cases lv <;> rfl
    · have hold := hb.watched j q hq hh
      refine ⟨?_, hold.2⟩
      by_cases hji : j = id
      · subst hji; simp [Registry.setListening]
      · simpa [Registry.setListening, hji] using hold.1
  | @unlisten id =>
    refine ⟨hb.congr rfl rfl (fun j hj => ?_) (fun lv lane => by cases lv <;> rfl) hk,
      fun j hj => .inl hj⟩
    have hji : j ≠ id := fun he => hgone id rfl (he ▸ hj)
    simp [Registry.setListening, hji]
  | @admission id =>
    rcases hr : reg.records id with _ | r
    · rw [Registry.admitLocked_of_none hr]
      exact ⟨hb, fun j hj => .inl hj⟩
    · have hcond : (!r.holdsSlot && (!reg.takesSlot r || reg.canHold id)) = true := by
        simpa [slotsKept, hr] using hkept
      have hfree : r.holdsSlot = false := by simpa using (Bool.and_eq_true_iff.mp hcond).1
      have hcan : reg.takesSlot r = true → reg.canHold id = true := by
        intro ht
        simpa [ht] using (Bool.and_eq_true_iff.mp hcond).2
      refine ⟨hb.admitLocked hr hfree hcan, fun j hj => ?_⟩
      by_cases hji : j = id
      · subst hji
        obtain ⟨q, hq, hh⟩ := Registry.held_iff.mp hj
        rw [get_admitLocked hr, get_setRecord, if_pos rfl] at hq
        split at hq
        · cases hq
          rw [Registry.leaseOf_holdsSlot] at hh
          rw [Registry.admitLocked_jobs]
          exact .inr (Registry.canHold_iff.mp (hcan hh)).2.1
        · cases hq
      · rw [held_admitLocked hji] at hj
        exact .inl hj
  | enqueue => exact ⟨hb.congr rfl rfl (fun _ _ => rfl) (fun lv lane => by cases lv <;> rfl) hk,
      fun j hj => .inl hj⟩
  | job => exact ⟨hb.congr rfl rfl (fun _ _ => rfl) (fun lv lane => by cases lv <;> rfl) hk,
      fun j hj => .inl hj⟩
  | @terminal id =>
    have hs := Settling.onTerminal hb (hended id rfl) hkept
    refine ⟨hs.balanced, fun j hj => ?_⟩
    rcases hs.held j hj with hin | hold
    · right
      rw [hs.jobs]
      have hall := (Bool.and_eq_true_iff.mp hkept).2
      exact (Registry.canHold_iff.mp (List.all_eq_true.mp hall j hin)).2.1
    · exact .inl hold
  | @unregister id hmem ht =>
    have hcond : reg.held id = false := by simpa [slotsKept, ht] using hkept
    refine ⟨hb.drop ?_ (fun _ _ => rfl), fun j hj => .inl (held_filter hj)⟩
    intro j r hr hj
    have hji : j = id := by simpa using hj
    subst hji
    constructor
    · simpa [Registry.held, hr] using hcond
    · intro hp
      rw [hp] at ht
      cases ht
  | addScope => exact ⟨hb.congr rfl rfl (fun _ _ => rfl) (fun lv lane => by cases lv <;> rfl) hk,
      fun j hj => .inl hj⟩
  | closeTree => exact ⟨hb.congr rfl rfl (fun _ _ => rfl) (fun lv lane => by cases lv <;> rfl) hk,
      fun j hj => .inl hj⟩

/-! ## Notices on their way -/

variable {s : Calls}

/-- The end of the job is on its way to the registry. -/
def Noticed (s : Calls) (id : JobId) : Prop :=
  s.Pending (.notify id) ∨ s.Pending (.inform id) ∨ s.Pending (.onTerminal id)

structure Conserved (s : Calls) : Prop where
  wf : WellFormed s
  balanced : Balanced s.shared
  noticed : ∀ id, s.shared.held id = true → (s.shared.jobs id).terminal = true → Noticed s id
  gone : ∀ id, s.Pending (.removeListener id) →
    (s.shared.jobs id).terminal = true ∧ id ∉ s.shared.registered

/-- An ended job does not come back. -/
theorem Change.gone_stays (h : Change cfg reg f reg') (ht : (reg.jobs id).terminal = true)
    (hid : id ∉ reg.registered) : id ∉ reg'.registered := by
  cases h with
  | @enrol j r f hj hp _ _ _ _ _ =>
    intro hmem
    rcases List.mem_append.mp hmem with hmem | hmem
    · exact hid hmem
    · cases List.mem_singleton.mp hmem
      rw [hp] at ht
      cases ht
  | admission => rwa [Registry.admitLocked_registered]
  | terminal =>
    apply Registry.onTerminal_invariant (P := fun reg' => id ∉ reg'.registered)
    · intro reg' r h _ _
      rwa [Registry.release_registered]
    · intro reg' ids h _ hmem
      exact h (List.mem_filter.mp hmem).1
    · intro reg' j r h _ _ _
      rwa [Registry.admitLocked_registered]
    · intro reg' queues h
      exact h
    · exact hid
  | unregister => exact fun hmem => hid (List.mem_filter.mp hmem).1
  | _ => exact hid

/-- The next notice for a job that holds its slot: the listeners are there, and the job has
ended. -/
theorem Noticed.exec {k : Nat} {rest : List Frame} (hs : Conserved s)
    (hk : s.threads[k]? = some (f :: rest)) (h : exec cfg s.shared f o = some (reg', new))
    (hheld : s.shared.held id = true) (ht : (s.shared.jobs id).terminal = true)
    (hheld' : reg'.held id = true) : Noticed ⟨reg', s.threads.set k (new ++ rest)⟩ id := by
  have hkeep : ∀ {g : Frame}, s.Pending g → g ≠ f →
      Lib.Threads.Pending ⟨reg', s.threads.set k (new ++ rest)⟩ g :=
    fun hg hne => Lib.Threads.pending_kept hk hg hne
  have hpush : ∀ {g : Frame}, g ∈ new →
      Lib.Threads.Pending ⟨reg', s.threads.set k (new ++ rest)⟩ g :=
    fun hg => Lib.Threads.pending_pushed hk hg
  rcases hs.noticed id hheld ht with hn | hn | hn
  · by_cases hf : Frame.notify id = f
    · subst hf
      obtain ⟨r, hr, hh⟩ := Registry.held_iff.mp hheld
      have hlisten := (hs.balanced.watched id r hr hh).1
      cases h
      exact .inr (.inl (hpush (by simp [hlisten])))
    · exact .inl (hkeep hn hf)
  · by_cases hf : Frame.inform id = f
    · subst hf
      cases h
      exact .inr (.inr (hpush (by simp [ht])))
    · exact .inr (.inl (hkeep hn hf))
  · by_cases hf : Frame.onTerminal id = f
    · subst hf
      have hreg : (s.shared.onTerminal cfg id).1 = reg' := congrArg Prod.fst (Option.some.inj h)
      rw [← hreg, held_onTerminal hs.balanced (hs.wf.ended id hn)] at hheld'
      cases hheld'
    · exact .inr (.inr (hkeep hn hf))

theorem Conserved.exec {k : Nat} {rest : List Frame} (hs : Conserved s)
    (hk : s.threads[k]? = some (f :: rest)) (hkept : slotsKept cfg s.shared f = true)
    (h : exec cfg s.shared f o = some (reg', new)) :
    Conserved ⟨reg', s.threads.set k (new ++ rest)⟩ := by
  have hch := exec_change h
  have hexec : s.Pending f := Lib.Threads.pending_executed hk
  obtain ⟨hbal, hheld⟩ := hch.balanced hs.balanced hkept
    (fun id hf => hs.wf.ended id (hf ▸ hexec)) (fun id hf => (hs.gone id (hf ▸ hexec)).2)
  refine ⟨hs.wf.exec hk h, hbal, fun id hh ht => ?_, fun id hp => ?_⟩
  · rcases hheld id hh with hold | hp
    · cases hbefore : (s.shared.jobs id).terminal
      · exact .inl (Lib.Threads.pending_pushed hk (exec_notifies h hbefore ht))
      · exact Noticed.exec hs hk h hold hbefore hh
    · rw [hp] at ht
      cases ht
  · rcases Lib.Threads.pending_of_advance hk hp with hnew | hold
    · obtain ⟨-, ht, hreg⟩ := exec_pushed h hnew
      refine ⟨hch.terminal_stays ht, ?_⟩
      rw [hreg]
      exact fun hmem => by simpa using (List.mem_filter.mp hmem).2
    · obtain ⟨ht, hid⟩ := hs.gone id hold
      exact ⟨hch.terminal_stays ht, hch.gone_stays ht hid⟩

theorem Conserved.call (hs : Conserved s) (hf : f.isCall = true) :
    Conserved ⟨s.shared, s.threads ++ [[f]]⟩ where
  wf := hs.wf.call hf
  balanced := hs.balanced
  noticed id hh ht := by
    rcases hs.noticed id hh ht with hn | hn | hn
    · exact .inl (Lib.Threads.pending_call.mpr (.inl hn))
    · exact .inr (.inl (Lib.Threads.pending_call.mpr (.inl hn)))
    · exact .inr (.inr (Lib.Threads.pending_call.mpr (.inl hn)))
  gone id hp := by
    rcases Lib.Threads.pending_call.mp hp with hp | rfl
    · exact hs.gone id hp
    · cases hf

theorem Conserved.init : Conserved Calls.init where
  wf := WellFormed.init
  balanced := ⟨List.nodup_nil, fun _ _ h => (by cases h), fun lv _ => (by cases lv <;> rfl),
    fun _ _ h => (by cases h)⟩
  noticed _ h := by cases h
  gone _ h := by
    obtain ⟨t, ht, _⟩ := h
    cases ht

/-- **Slot conservation.** In every interleaving whose steps keep the slots, every counter is the
number of registered records that hold a slot there, none is negative, and all are zero once every
job that was ever registered has ended and its notice is delivered. -/
theorem slot_conservation (cfg : Settings) {moves : List (Lib.Move Frame Turnout)} {s : Calls}
    (hok : Lib.Meets (Calls.step cfg)
      (Lib.Threads.Guarded fun s f => slotsKept cfg s.shared f = true) Calls.init moves)
    (hrun : Lib.run (Calls.step cfg) Calls.init moves = some s) :
    (∀ lv lane, s.shared.counter lv lane = s.shared.leased lv lane) ∧
    (∀ lv lane, 0 ≤ s.shared.counter lv lane) ∧
    ((∀ id r, s.shared.records id = some r → (s.shared.jobs id).terminal = true ∧ ¬Noticed s id) →
      ∀ lv lane, s.shared.counter lv lane = 0) := by
  have hs : Conserved s :=
    Lib.Threads.guarded_invariant (fun s f hi hf => hi.call hf)
      (fun s k f rest o shared new hi hk hf hx => hi.exec hk hf hx) Conserved.init hok hrun
  have hexact : ∀ lv lane, s.shared.counter lv lane = s.shared.leased lv lane := by
    intro lv lane
    have := hs.balanced.exact lv lane
    unfold Registry.excess at this
    omega
  refine ⟨hexact, fun lv lane => by rw [hexact]; omega, fun hall lv lane => ?_⟩
  rw [hexact, Int.natCast_eq_zero, Registry.leased, List.countP_eq_zero]
  intro id hid hh
  unfold Registry.holdsAt at hh
  split at hh
  · next r hr =>
    obtain ⟨ht, hnot⟩ := hall id r hr
    have hheld : s.shared.held id = true :=
      Registry.held_iff.mpr ⟨r, Registry.get_eq_some.mpr ⟨hid, hr⟩, (Bool.and_eq_true_iff.mp hh).2⟩
    exact hnot (hs.noticed id hheld ht)
  · cases hh

/-- The slot of the first job passes to the second when the first ends. -/
def slotPassedOn : List (Lib.Move Frame Turnout) :=
  startsInTurn ++ .call (.finish "a" .succeeded) :: steps 5 5

theorem slot_conservation_passed_on :
    ∃ s, Lib.run (Calls.step .default) Calls.init slotPassedOn = some s ∧
      s.shared.jobs "a" = .succeeded ∧ s.shared.jobs "b" = .running ∧
      s.shared.counter (.session "s") .background = 1 ∧
      ∀ lv lane, s.shared.counter lv lane = s.shared.leased lv lane :=
  ⟨_, rfl, rfl, rfl, rfl,
    (slot_conservation .default (by decide : Lib.Meets _ _ _ slotPassedOn) rfl).1⟩

/-- A job that is unregistered between its end and the callback: its slot is counted for good, and
held by nobody. -/
theorem slot_leaked_by_unregister :
    ¬ ∀ (moves : List (Lib.Move Frame Turnout)) (s : Calls),
      Lib.run (Calls.step .default) Calls.init moves = some s →
      (∀ lv lane, s.shared.counter lv lane = s.shared.leased lv lane) ∧
      (∀ lv lane, 0 ≤ s.shared.counter lv lane) ∧
      ((∀ id r, s.shared.records id = some r → (s.shared.jobs id).terminal = true ∧ ¬Noticed s id) →
        ∀ lv lane, s.shared.counter lv lane = 0) := by
  intro h
  have hcount := (h (twoJobs ++ .call (.start "a") :: steps 3 3 ++
    .call (.finish "a" .succeeded) :: steps 4 1 ++ .call (.unregister "a") :: steps 5 1) _ rfl).1
  exact absurd (hcount (.session "s") .background) (by decide)

end MiniAgent.Jobs
