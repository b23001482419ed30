import MiniAgent.Events.Outbox

/-!
# The order of the events

The relay publishes what it has read in the order of the sequences, and stops at the first event it
cannot publish: when it publishes an event, all earlier ones of the Turn are out. The thread that
has committed an event publishes that one alone. As long as it does not overtake an earlier event of
its Turn, the streams have the events of every Turn in their order.
-/

namespace MiniAgent.Events

open Lib

/-- Two events of one Turn. -/
def SameTurn (a b : OutboxEvent) : Prop := a.sessionId = b.sessionId ∧ a.turnId = b.turnId

instance (a b : OutboxEvent) : Decidable (SameTurn a b) := by
  unfold SameTurn
  infer_instance

/-- The event has been added to the streams. -/
def Fanout.Out (w : Fanout) (e : OutboxEvent) : Prop := EventId.frame e.eventId ∈ w.receipts

instance (w : Fanout) (e : OutboxEvent) : Decidable (w.Out e) := by
  unfold Fanout.Out
  infer_instance

/-! ## What always holds -/

structure Kept (w : Fanout) : Prop where
  ids : (w.committed.map OutboxEvent.eventId).Nodup
  outbox : ∀ e ∈ w.outbox, e ∈ w.committed
  bounded : ∀ e ∈ w.committed, e.sequence ≤ w.lastSequence e.sessionId e.turnId
  sequences : ∀ e ∈ w.committed, ∀ e' ∈ w.committed, SameTurn e e' →
    e.sequence = e'.sequence → e = e'
  receipts : w.receipts = w.log.map StreamEntry.eventId
  once : w.receipts.Nodup
  entries : ∀ e, .frame e ∈ w.log → e ∈ w.committed
  kept : ∀ e ∈ w.committed, e ∈ w.outbox ∨ w.Out e

namespace Kept

variable {w : Fanout}

theorem new : Kept Fanout.new := ⟨.nil, nofun, nofun, nofun, rfl, .nil, nofun, nofun⟩

theorem eq_of_eventId (h : Kept w) {a b : OutboxEvent} (ha : a ∈ w.committed) (hb : b ∈ w.committed)
    (hid : a.eventId = b.eventId) : a = b := List.inj_on_of_nodup_map h.ids ha hb hid

/-- An event that is out is in the log. -/
theorem mem_log (h : Kept w) {e : OutboxEvent} (he : e ∈ w.committed) (hout : w.Out e) :
    .frame e ∈ w.log := by
  have hmem : EventId.frame e.eventId ∈ w.log.map StreamEntry.eventId := h.receipts ▸ hout
  obtain ⟨x, hx, hid⟩ := List.mem_map.mp hmem
  cases x with
  | frame e' =>
    have hid' : e'.eventId = e.eventId := EventId.frame.inj hid
    rw [← h.eq_of_eventId (h.entries e' hx) he hid']
    exact hx
  | terminal t => cases hid

end Kept

/-! ## What a step may change -/

/-- New events come after all others of their Turn, and nothing that is out is taken back. -/
structure Grows (w w' : Fanout) : Prop where
  committed : ∀ e ∈ w.committed, e ∈ w'.committed
  news : ∀ e ∈ w'.committed, e ∈ w.committed ∨
    ∀ e' ∈ w.committed, SameTurn e' e → e'.sequence < e.sequence
  receipts : ∀ id ∈ w.receipts, id ∈ w'.receipts

namespace Grows

variable {w : Fanout}

theorem of_eq {w' : Fanout} (hc : w'.committed = w.committed) (hr : w'.receipts = w.receipts) :
    Grows w w' :=
  ⟨fun _ he => hc ▸ he, fun _ he => .inl (hc ▸ he), fun _ hid => hr ▸ hid⟩

theorem publish (w : Fanout) (x : StreamEntry) : Grows w (w.publish x) := by
  rw [Fanout.publish]
  split
  · exact of_eq rfl rfl
  · exact ⟨fun _ he => he, fun _ he => .inl he, fun _ hid => List.mem_append_left _ hid⟩

theorem putRuntimeEvent (h : Kept w) (e : OutboxEvent) : Grows w (w.putRuntimeEvent e) := by
  refine ⟨fun _ he => List.mem_append_left _ he, fun a ha => ?_, fun _ hid => hid⟩
  rcases List.mem_append.mp ha with ha | ha
  · exact .inl ha
  · obtain rfl := List.mem_singleton.mp ha
    refine .inr fun b hb hsame => ?_
    have hle := h.bounded b hb
    rw [hsame.1, hsame.2] at hle
    exact Nat.lt_succ_of_le hle

end Grows

/-! ## What the relay has still to publish -/

/-- Events of one pass: all earlier events of their Turns are out or still to come. -/
structure Ready (w : Fanout) (es : List OutboxEvent) : Prop where
  committed : ∀ e ∈ es, e ∈ w.committed
  sorted : es.Pairwise fun a b => a.sequence ≤ b.sequence
  lower : ∀ e ∈ es, ∀ e' ∈ w.committed, SameTurn e e' → e'.sequence < e.sequence →
    w.Out e' ∨ e' ∈ es

namespace Ready

variable {w w' : Fanout} {e : OutboxEvent} {es : List OutboxEvent}

theorem mono (h : Ready w es) (hg : Grows w w') : Ready w' es := by
  refine ⟨fun e he => hg.committed e (h.committed e he), h.sorted, fun e he e' he' hsame hlt => ?_⟩
  rcases hg.news e' he' with hold | hnew
  · exact (h.lower e he e' hold hsame hlt).imp_left (hg.receipts _)
  · have := hnew e (h.committed e he) hsame
    omega

/-- Before the first event of the pass everything is out. -/
theorem head (h : Ready w (e :: es)) {e' : OutboxEvent} (he' : e' ∈ w.committed)
    (hsame : SameTurn e e') (hlt : e'.sequence < e.sequence) : w.Out e' := by
  rcases h.lower e List.mem_cons_self e' he' hsame hlt with hout | hin
  · exact hout
  · rcases List.mem_cons.mp hin with rfl | hin
    · omega
    · have := List.rel_of_pairwise_cons h.sorted hin
      omega

theorem tail (h : Ready w (e :: es)) (hout : w.Out e) : Ready w es := by
  refine ⟨fun a ha => h.committed a (List.mem_cons_of_mem _ ha), (List.pairwise_cons.mp h.sorted).2,
    fun a ha e' he' hsame hlt => ?_⟩
  rcases h.lower a (List.mem_cons_of_mem _ ha) e' he' hsame hlt with hout' | hin
  · exact .inl hout'
  · rcases List.mem_cons.mp hin with rfl | hin
    · exact .inl hout
    · exact .inr hin

theorem pendingLe_trans (a b c : OutboxEvent) (h : Fanout.pendingLe a b)
    (h' : Fanout.pendingLe b c) :
    Fanout.pendingLe a c := by
  rcases h with h | ⟨h, hid⟩ <;> rcases h' with h' | ⟨h', hid'⟩
  · exact .inl (h.trans h')
  · exact .inl (h' ▸ h)
  · exact .inl (h ▸ h')
  · exact .inr ⟨h.trans h', hid.trans hid'⟩

theorem pendingLe_total (a b : OutboxEvent) : Fanout.pendingLe a b ∨ Fanout.pendingLe b a := by
  rcases Nat.lt_trichotomy a.sequence b.sequence with h | h | h
  · exact .inl (.inl h)
  · rcases le_total a.eventId b.eventId with hid | hid
    · exact .inl (.inr ⟨h, hid⟩)
    · exact .inr (.inr ⟨h.symm, hid⟩)
  · exact .inr (.inl h)

/-- What a pass reads: the earlier events it does not read have left the outbox. -/
theorem pending (h : Kept w) (sessionId : String) : Ready w (w.pendingRuntimeEvents sessionId) := by
  have hmem : ∀ e, e ∈ w.pendingRuntimeEvents sessionId ↔ e ∈ w.outbox ∧
      e.sessionId = sessionId := by
    intro e
    simp [Fanout.pendingRuntimeEvents, List.mem_insertionSort]
  have : Std.Total Fanout.pendingLe := ⟨pendingLe_total⟩
  have : IsTrans OutboxEvent Fanout.pendingLe := ⟨pendingLe_trans⟩
  refine ⟨fun e he => h.outbox e ((hmem e).mp he).1, ?_, fun e he e' he' hsame hlt => ?_⟩
  · refine (List.pairwise_insertionSort Fanout.pendingLe _).imp fun hle => ?_
    rcases hle with hlt | ⟨heq, -⟩
    · exact hlt.le
    · exact heq.le
  · rcases h.kept e' he' with hin | hout
    · exact .inr ((hmem e').mpr ⟨hin, hsame.1.symm.trans ((hmem e).mp he).2⟩)
    · exact .inl hout

end Ready

/-! ## The log -/

/-- The log has the events of every Turn in their order, without gaps. -/
structure Ordered (w : Fanout) : Prop extends Kept w where
  closed : ∀ e ∈ w.committed, w.Out e → ∀ e' ∈ w.committed, SameTurn e e' →
    e'.sequence < e.sequence →
    w.Out e'
  ordered : (w.log.filterMap StreamEntry.event?).Pairwise fun a b => SameTurn a b →
    a.sequence < b.sequence

namespace Ordered

variable {w : Fanout}

theorem new : Ordered Fanout.new := ⟨.new, nofun, .nil⟩

theorem putRuntimeEvent (h : Ordered w) {e : OutboxEvent}
    (hnew : e.eventId ∉ w.committed.map OutboxEvent.eventId) : Ordered (w.putRuntimeEvent e) := by
  have hg := Grows.putRuntimeEvent h.toKept e
  set event := { e with sequence := w.lastSequence e.sessionId e.turnId + 1 } with hevent
  have hmem : ∀ a, a ∈ (w.putRuntimeEvent e).committed ↔ a ∈ w.committed ∨ a = event := by
    intro a
    simp [Fanout.putRuntimeEvent, hevent]
  have hafter : ∀ a ∈ w.committed, SameTurn a event → a.sequence < event.sequence := by
    intro a ha hsame
    have hle := h.bounded a ha
    rw [hsame.1, hsame.2] at hle
    exact Nat.lt_succ_of_le hle
  have hnotout : ¬w.Out event := by
    intro hout
    have hin : EventId.frame event.eventId ∈ w.log.map StreamEntry.eventId := h.receipts ▸ hout
    obtain ⟨x, hx, hid⟩ := List.mem_map.mp hin
    cases x with
    | frame a => exact hnew (List.mem_map.mpr ⟨a, h.entries a hx, EventId.frame.inj hid⟩)
    | terminal t => cases hid
  refine
    { ids := ?_
      outbox := fun a ha => ?_
      bounded := fun a ha => ?_
      sequences := fun a ha b hb hsame heq => ?_
      receipts := h.receipts
      once := h.once
      entries := fun a ha => (hmem a).mpr (.inl (h.entries a ha))
      kept := fun a ha => ?_
      closed := fun a ha hout b hb hsame hlt => ?_
      ordered := h.ordered }
  · show ((w.committed ++ [event]).map OutboxEvent.eventId).Nodup
    rw [List.map_append]
    refine List.nodup_append.mpr ⟨h.ids, List.nodup_singleton _, ?_⟩
    rintro id hid _ hid' rfl
    obtain rfl : id = e.eventId := List.mem_singleton.mp hid'
    exact hnew hid
  · rcases List.mem_append.mp ha with ha | ha
    · exact (hmem a).mpr (.inl (h.outbox a ha))
    · exact (hmem a).mpr (.inr (List.mem_singleton.mp ha))
  · show a.sequence ≤ Function.update w.lastSequence e.sessionId
      (Function.update (w.lastSequence e.sessionId) e.turnId event.sequence) a.sessionId a.turnId
    rcases (hmem a).mp ha with ha | rfl
    · by_cases hsame : SameTurn a event
      · have hlt := hafter a ha hsame
        rw [hsame.1, hsame.2]
        simpa [hevent] using hlt.le
      · have hle := h.bounded a ha
        by_cases hs : a.sessionId = e.sessionId
        · have ht : a.turnId ≠ e.turnId := fun ht => hsame ⟨hs, ht⟩
          rw [hs] at hle ⊢
          simpa [ht] using hle
        · simpa [hs] using hle
    · simp [hevent]
  · rcases (hmem a).mp ha with ha | rfl <;> rcases (hmem b).mp hb with hb | rfl
    · exact h.sequences a ha b hb hsame heq
    · have := hafter a ha hsame
      omega
    · have := hafter b hb ⟨hsame.1.symm, hsame.2.symm⟩
      omega
    · rfl
  · rcases (hmem a).mp ha with ha | rfl
    · exact (h.kept a ha).imp_left (List.mem_append_left _)
    · exact .inl (List.mem_append_right _ (List.mem_singleton.mpr rfl))
  · have hin : a ∈ w.committed := by
      rcases (hmem a).mp ha with ha | rfl
      · exact ha
      · exact absurd hout hnotout
    rcases (hmem b).mp hb with hb | rfl
    · exact h.closed a hin hout b hb hsame hlt
    · have := hafter a hin hsame
      omega

theorem ackRuntimeEvent (h : Ordered w) {e : OutboxEvent} (he : e ∈ w.committed) (hout : w.Out e) :
    Ordered (w.ackRuntimeEvent e.sessionId e.eventId) := by
  refine { h with
    outbox := fun a ha => h.outbox a (List.mem_filter.mp ha).1
    kept := fun a ha => ?_ }
  rcases h.kept a ha with hin | ho
  · by_cases hid : a.sessionId = e.sessionId ∧ a.eventId = e.eventId
    · obtain rfl := h.eq_of_eventId ha he hid.2
      exact .inr hout
    · exact .inl (List.mem_filter.mpr ⟨hin, decide_eq_true hid⟩)
  · exact .inr ho

/-- An entry that does not stand for a committed event. -/
theorem publish_terminal (h : Ordered w) (t : Terminal) : Ordered (w.publish (.terminal t)) := by
  rw [Fanout.publish]
  split
  · exact h
  next hnew =>
  have hout : ∀ a : OutboxEvent, EventId.frame a.eventId ∈ w.receipts ++
      [(StreamEntry.terminal t).eventId] ↔
      w.Out a := by
    intro a
    simp [Fanout.Out, StreamEntry.eventId]
  refine { h with
    receipts := ?_
    once := ?_
    entries := fun a ha => ?_
    kept := fun a ha => (h.kept a ha).imp_right (hout a).mpr
    closed := fun a ha ho b hb hsame hlt =>
      (hout b).mpr (h.closed a ha ((hout a).mp ho) b hb hsame hlt)
    ordered := ?_ }
  · show _ ++ _ = (w.log ++ _).map _
    rw [List.map_append, h.receipts]
    rfl
  · exact List.nodup_append.mpr ⟨h.once, List.nodup_singleton _, by
      rintro id hid _ hid' rfl
      exact hnew (List.mem_singleton.mp hid' ▸ hid)⟩
  · rcases List.mem_append.mp ha with ha | ha
    · exact h.entries a ha
    · cases List.mem_singleton.mp ha
  · show ((w.log ++ [_]).filterMap _).Pairwise _
    rw [List.filterMap_append]
    exact (List.append_nil (w.log.filterMap StreamEntry.event?)).symm ▸ h.ordered

/-- **An event is published** when all earlier ones of its Turn are out. -/
theorem publish (h : Ordered w) {e : OutboxEvent} (he : e ∈ w.committed)
    (hlower : ∀ e' ∈ w.committed, SameTurn e e' → e'.sequence < e.sequence → w.Out e') :
    Ordered (w.publish (.frame e)) := by
  rw [Fanout.publish]
  split
  · exact h
  next hnew =>
  have hout : ∀ a ∈ w.committed, EventId.frame a.eventId ∈ w.receipts ++
      [(StreamEntry.frame e).eventId] ↔
      w.Out a ∨ a = e := by
    intro a ha
    rw [List.mem_append, List.mem_singleton]
    refine or_congr_right ⟨fun hid => ?_, fun hid => by rw [hid]; rfl⟩
    exact h.eq_of_eventId ha he (EventId.frame.inj hid)
  refine { h with
    receipts := ?_
    once := ?_
    entries := fun a ha => ?_
    kept := fun a ha => (h.kept a ha).imp_right fun ho => (hout a ha).mpr (.inl ho)
    closed := fun a ha ho b hb hsame hlt => ?_
    ordered := ?_ }
  · show _ ++ _ = (w.log ++ _).map _
    rw [List.map_append, h.receipts]
    rfl
  · exact List.nodup_append.mpr ⟨h.once, List.nodup_singleton _, by
      rintro id hid _ hid' rfl
      exact hnew (List.mem_singleton.mp hid' ▸ hid)⟩
  · rcases List.mem_append.mp ha with ha | ha
    · exact h.entries a ha
    · cases List.mem_singleton.mp ha
      exact he
  · refine (hout b hb).mpr (.inl ?_)
    rcases (hout a ha).mp ho with ho | rfl
    · exact h.closed a ha ho b hb hsame hlt
    · exact hlower b hb hsame hlt
  · show ((w.log ++ [StreamEntry.frame e]).filterMap _).Pairwise _
    rw [List.filterMap_append]
    refine List.pairwise_append.mpr ⟨h.ordered, List.pairwise_singleton ..,
      fun a ha b hb hsame => ?_⟩
    obtain rfl : b = e := List.mem_singleton.mp hb
    obtain ⟨x, hx, hxa⟩ := List.mem_filterMap.mp ha
    cases x with
    | terminal t => cases hxa
    | frame a' =>
      cases hxa
      have hac := h.entries a hx
      have haout : w.Out a := by
        show EventId.frame a.eventId ∈ w.receipts
        rw [h.receipts]
        exact List.mem_map_of_mem hx
      have hb' : ¬w.Out b := hnew
      -- an event after it would have it out already
      rcases Nat.lt_trichotomy a.sequence b.sequence with hlt | heq | hgt
      · exact hlt
      · exact absurd haout (h.sequences a hac b he hsame heq ▸ hb')
      · exact absurd (h.closed a hac haout b he hsame hgt) hb'

end Ordered

/-! ## Runs -/

def Next.Ready (w : Fanout) : Next → Prop
  | .done => True
  | .relay todo _ => Events.Ready w todo

/-- What holds of a step that is still to be taken. -/
def Task.Ready (w : Fanout) : Task → Prop
  | .publish e .done => e ∈ w.committed
  | .publish e (.relay todo _) => Events.Ready w (e :: todo)
  | .ack e next => e ∈ w.committed ∧ w.Out e ∧ next.Ready w
  | .terminalRead _ next | .terminal _ next => next.Ready w
  | _ => True

theorem Next.Ready.mono {w w' : Fanout} {next : Next} (h : next.Ready w) (hg : Grows w w') :
    next.Ready w' := by
  cases next with
  | done => trivial
  | relay todo sessions => exact Events.Ready.mono h hg

theorem Task.Ready.mono {w w' : Fanout} {t : Task} (h : t.Ready w) (hg : Grows w w') :
    t.Ready w' := by
  cases t with
  | publish e next =>
    cases next with
    | done => exact hg.committed e h
    | relay todo sessions => exact Events.Ready.mono h hg
  | ack e next => exact ⟨hg.committed e h.1, hg.receipts _ h.2.1, h.2.2.mono hg⟩
  | terminalRead t next => exact Next.Ready.mono h hg
  | terminal t next => exact Next.Ready.mono h hg
  | _ => trivial

theorem Next.Ready.tasks {w : Fanout} {next : Next} (h : next.Ready w) :
    ∀ t ∈ next.tasks, t.Ready w := by
  intro t ht
  cases next with
  | done => cases ht
  | relay todo sessions =>
    cases todo with
    | nil => obtain rfl := List.mem_singleton.mp ht; trivial
    | cons e todo => obtain rfl := List.mem_singleton.mp ht; exact h

theorem Next.Ready.afterAck {w : Fanout} {next : Next} {e : OutboxEvent} {executionActive : Bool}
    (h : next.Ready w) : ∀ t ∈ Events.afterAck e next executionActive, t.Ready w := by
  intro t ht
  cases next with
  | done => cases ht
  | relay todo sessions =>
    cases executionActive with
    | true => exact h.tasks t ht
    | false =>
      simp only [Events.afterAck] at ht
      cases hr : e.recovery with
      | none =>
        rw [hr] at ht
        exact h.tasks t ht
      | some terminal =>
        rw [hr] at ht
        obtain rfl := List.mem_singleton.mp ht
        exact h

/-- The thread that has committed an event does not overtake an earlier one of the Turn. -/
def inTurn (s : Publishers) : Task → Prop
  | .publish e .done =>
    ∀ e' ∈ s.shared.outbox, SameTurn e e' → e'.sequence < e.sequence → s.shared.Out e'
  | _ => True

instance (s : Publishers) (t : Task) : Decidable (inTurn s t) := by
  unfold inTurn
  split <;> infer_instance

/-- **One step** of a publisher. -/
theorem Ordered.exec {s : Publishers} {w' : Fanout} {t : Task} {o : Outcome} {new : List Task}
    (h : Ordered s.shared) (ht : t.Ready s.shared) (hok : inTurn s t)
    (hx : s.shared.exec t o = some (w', new)) :
    Ordered w' ∧ Grows s.shared w' ∧ ∀ t' ∈ new, t'.Ready w' := by
  obtain ⟨w, threads⟩ := s
  -- a step that raises leaves nothing to do
  have hgo : ∀ {v : Fanout} {ts : List Task}, some (v, if o.raises = true then [] else ts) =
      some (w', new) →
      Ordered v → Grows w v → (∀ t' ∈ ts, t'.Ready v) →
      Ordered w' ∧ Grows w w' ∧ ∀ t' ∈ new, t'.Ready w' := by
    intro v ts heq hv hg hts
    cases heq
    refine ⟨hv, hg, fun t' ht' => ?_⟩
    split at ht'
    · cases ht'
    · exact hts t' ht'
  have hsame : Grows w w := .of_eq rfl rfl
  have hone : ∀ {t v}, Task.Ready v t → ∀ t' ∈ [t], t'.Ready v := by
    intro t v hv t' ht'
    obtain rfl := List.mem_singleton.mp ht'
    exact hv
  cases t with
  | write e =>
    simp only [Fanout.exec] at hx
    split at hx
    · cases hx
    · next hnew =>
        exact hgo hx (h.putRuntimeEvent hnew) (.putRuntimeEvent h.toKept e) (hone trivial)
  | publishFrame sessionId eventId =>
    simp only [Fanout.exec] at hx
    split at hx
    · next e he => exact hgo hx h hsame (hone (h.outbox e (List.mem_of_find?_eq_some he)))
    · exact hgo hx h hsame (hone trivial)
  | hasEvent eventId => exact hgo hx h hsame (fun _ h => nomatch h)
  | pending sessions =>
    cases sessions with
    | nil => exact hgo hx h hsame (fun _ h => nomatch h)
    | cons sessionId sessions =>
      have hready : (Next.relay (w.pendingRuntimeEvents sessionId) sessions).Ready w :=
        Events.Ready.pending h.toKept sessionId
      exact hgo hx h hsame hready.tasks
  | publish e next =>
    have hg := Grows.publish w (.frame e)
    have hout : (w.publish (.frame e)).Out e := by
      rw [Fanout.publish]
      split
      · next hin => exact hin
      · exact List.mem_append_right _ (List.mem_singleton.mpr rfl)
    cases next with
    | done =>
      have hlower : ∀ e' ∈ w.committed, SameTurn e e' → e'.sequence < e.sequence → w.Out e' := by
        intro e' he' hturn hlt
        rcases h.kept e' he' with hin | ho
        · exact hok e' hin hturn hlt
        · exact ho
      exact hgo hx (h.publish ht hlower) hg (hone ⟨hg.committed e ht, hout, trivial⟩)
    | relay todo sessions =>
      have hready : Events.Ready w (e :: todo) := ht
      have he := hready.committed e List.mem_cons_self
      refine hgo hx (h.publish he fun e' he' => hready.head he') hg
        (hone ⟨hg.committed e he, hout, ?_⟩)
      exact (hready.mono hg).tail hout
  | ack e next =>
    obtain ⟨he, hout, hnext⟩ := ht
    have hg : Grows w (w.ackRuntimeEvent e.sessionId e.eventId) := .of_eq rfl rfl
    exact hgo hx (h.ackRuntimeEvent he hout) hg (hnext.mono hg).afterAck
  | terminalRead t next => exact hgo hx h hsame (hone ht)
  | terminal t next =>
    have hg := Grows.publish w (.terminal t)
    have hnext : next.Ready w := ht
    exact hgo hx (h.publish_terminal t) hg (hnext.mono hg).tasks

/-- What holds along a run. -/
structure InOrder (s : Publishers) : Prop where
  ordered : Ordered s.shared
  ready : ∀ t, s.Pending t → t.Ready s.shared

theorem InOrder.new : InOrder Publishers.new :=
  ⟨.new, fun _ h => by obtain ⟨_, ht, _⟩ := h; cases ht⟩

theorem InOrder.call {s : Publishers} {t : Task} (h : InOrder s) (hcall : t.isCall = true) :
    InOrder ⟨s.shared, s.threads ++ [[t]]⟩ := by
  refine ⟨h.ordered, fun t' ht' => ?_⟩
  rcases Threads.pending_call.mp ht' with ht' | rfl
  · exact h.ready t' ht'
  · cases t' with
    | terminalRead t next =>
      cases next with
      | done => trivial
      | relay todo sessions => cases hcall
    | write e => trivial
    | publishFrame sessionId eventId => trivial
    | pending sessions => trivial
    | _ => cases hcall

theorem InOrder.exec {s : Publishers} {k : Nat} {t : Task} {rest new : List Task} {o : Outcome}
    {w : Fanout} (h : InOrder s) (hk : s.threads[k]? = some (t :: rest)) (hok : inTurn s t)
    (hx : s.shared.exec t o = some (w, new)) : InOrder ⟨w, s.threads.set k (new ++ rest)⟩ := by
  obtain ⟨hw, hg, hnew⟩ := h.ordered.exec (h.ready t (Threads.pending_executed hk)) hok hx
  refine ⟨hw, fun t' ht' => ?_⟩
  rcases Threads.pending_of_advance hk ht' with hin | hold
  · exact hnew t' hin
  · exact (h.ready t' hold).mono hg

/-- What the streams and the outbox have of the committed events. -/
structure Delivered (w : Fanout) : Prop where
  once : ∀ threadId,
    (((w.threadStream threadId).filterMap StreamEntry.event?).map OutboxEvent.eventId).Nodup
  kept : ∀ e ∈ w.committed, e ∈ w.outbox ∨ .frame e ∈ w.log
  ordered : ∀ threadId sessionId turnId,
    ((((w.threadStream threadId).filterMap StreamEntry.event?).filter fun e =>
      e.sessionId = sessionId ∧ e.turnId = turnId).map OutboxEvent.sequence).Pairwise (· < ·)

theorem threadStream_sublist (w : Fanout) (threadId : String) :
    (w.threadStream threadId).Sublist w.log :=
  (List.drop_sublist _ _).trans List.filter_sublist

theorem Ordered.delivered {w : Fanout} (h : Ordered w) : Delivered w := by
  refine ⟨fun threadId => ?_, fun e he => ?_, fun threadId sessionId turnId => ?_⟩
  · have hids : ((w.log.filterMap StreamEntry.event?).map fun e => EventId.frame e.eventId).Sublist
        w.receipts := by
      rw [h.receipts]
      generalize w.log = log
      induction log with
      | nil => exact .slnil
      | cons x log ih =>
        cases x with
        | frame e => exact ih.cons_cons _
        | terminal t => exact ih.cons _
    have hnd : ((w.log.filterMap StreamEntry.event?).map OutboxEvent.eventId).Nodup := by
      have hall := h.once.sublist hids
      rw [← Function.comp_def EventId.frame OutboxEvent.eventId, ← List.map_map] at hall
      exact List.Nodup.of_map _ hall
    exact hnd.sublist (((threadStream_sublist w threadId).filterMap _).map _)
  · exact (h.kept e he).imp_right (h.mem_log he)
  · have hsub : (((w.threadStream threadId).filterMap StreamEntry.event?).filter fun e =>
        e.sessionId = sessionId ∧ e.turnId = turnId).Sublist (w.log.filterMap StreamEntry.event?) :=
      List.filter_sublist.trans ((threadStream_sublist w threadId).filterMap _)
    have hpair := h.ordered.sublist hsub
    rw [List.pairwise_map]
    refine List.Pairwise.imp_of_mem (fun {a b} ha hb hab => hab ?_) hpair
    obtain ⟨hs, ht⟩ : a.sessionId = sessionId ∧ a.turnId = turnId := by
      simpa using (List.mem_filter.mp ha).2
    obtain ⟨hs', ht'⟩ : b.sessionId = sessionId ∧ b.turnId = turnId := by
      simpa using (List.mem_filter.mp hb).2
    exact ⟨hs.trans hs'.symm, ht.trans ht'.symm⟩

/-- **The order of events** in every run in which no thread overtakes an event of its Turn. -/
theorem events_in_order {moves : List (Move Task Outcome)} {s : Publishers}
    (hok : Meets Publishers.step (Threads.Guarded inTurn) Publishers.new moves)
    (hrun : run Publishers.step Publishers.new moves = some s) : Delivered s.shared := by
  have hs : InOrder s := Threads.guarded_invariant (fun _ _ h hcall => h.call hcall)
    (fun _ _ _ _ _ _ _ h hk hok hx => h.exec hk hok hx) InOrder.new hok hrun
  exact hs.ordered.delivered

/-- A frame of Turn `u` in thread `t`. -/
def frameEvent (eventId : String) : OutboxEvent := ⟨eventId, "s", "t", "u", 0, .null, .running⟩

/-- Thread `k` takes its next steps. -/
def advances (k n : Nat) : List (Move Task Outcome) := List.replicate n (.advance k ⟨false, true⟩)

/-- A frame is committed while Redis is not available, and then a second one. -/
def unpublished : List (Move Task Outcome) :=
  [.call (.write (frameEvent "a")), .advance 0 ⟨true, true⟩, .call (.write (frameEvent "b"))] ++
    advances 1 1

/-- The relay publishes the first frame before the second one is published. -/
theorem events_in_order_relayed :
    ∃ s, run Publishers.step Publishers.new
        (unpublished ++ .call (.pending ["s"]) :: advances 2 3 ++ advances 1 3) = some s ∧
      Meets Publishers.step (Threads.Guarded inTurn) Publishers.new
        (unpublished ++ .call (.pending ["s"]) :: advances 2 3 ++ advances 1 3) ∧
      s.shared.log.length = 2 ∧ Delivered s.shared := by
  have hok : Meets Publishers.step (Threads.Guarded inTurn) Publishers.new
      (unpublished ++ .call (.pending ["s"]) :: advances 2 3 ++ advances 1 3) := by decide
  exact ⟨_, rfl, hok, rfl, events_in_order hok rfl⟩

/-- The second frame is published first, and the relay brings the first one after it. -/
theorem event_overtakes :
    ∃ s, run Publishers.step Publishers.new
        (unpublished ++ advances 1 3 ++ .call (.pending ["s"]) :: advances 2 3) = some s ∧
      s.shared.outbox = [] ∧ ¬Delivered s.shared := by
  refine ⟨_, rfl, rfl, fun h => ?_⟩
  have hpair := h.ordered "t" "s" "u"
  exact absurd hpair (by decide)

end MiniAgent.Events
