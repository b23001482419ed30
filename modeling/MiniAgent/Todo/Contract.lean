import MiniAgent.Todo.Refinement
import Mathlib.Data.List.Dedup

/-!
# The contract of the Todo stores

Every interleaving of clients on the hash of a Turn is a sequence of calls in memory: the invariant
is that the hash represents dictionaries whose receipts are the replies given so far (`Linear`). The
batches that were applied form a log, one for each call id that has succeeded, and the stored
snapshot is what the log makes of the empty one. In memory a run under other ids gives the renamed
replies, so the two stores agree on every sequence of calls up to the generated ids.
-/

namespace MiniAgent.Todo

open Lib Json RedisTodoListStore

variable {m m' : MemoryTodoListStore} {sessionId turnId : String} {c c' : UpdateCall} {s s' : Todos}

/-! ## The log and the history -/

/-- The snapshot after the batches of a log, each on the revision it expects. -/
def replayLog : List UpdateCall → TodoSnapshot → Option TodoSnapshot
  | [], snapshot => some snapshot
  | c :: log, snapshot =>
    if snapshot.revision = c.expectedRevision then
      match applyTodoOperations snapshot c.operations c.generatedIds with
      | .ok (updated, _) => replayLog log updated
      | .error _ => none
    else none

theorem replayLog_append {log : List UpdateCall} {start snapshot updated : TodoSnapshot}
    {applied : List TextDict} (h : replayLog log start = some snapshot)
    (hrev : snapshot.revision = c.expectedRevision)
    (happly : applyTodoOperations snapshot c.operations c.generatedIds = .ok (updated, applied)) :
    replayLog (log ++ [c]) start = some updated := by
  induction log generalizing start with
  | nil =>
    cases h
    simp [replayLog, hrev, happly]
  | cons c₀ log ih =>
    simp only [replayLog] at h
    split at h
    · next hrev₀ =>
      split at h
      · next mid applied₀ happly₀ =>
        simp only [List.cons_append, replayLog, hrev₀, if_true, happly₀]
        exact ih h
      · cases h
    · cases h

/-- The call id of an `update` that has succeeded. -/
def succeededId : TodoOp × Reply → Option String
  | (.update c, .update (.ok _)) => some c.callId
  | _ => none

def succeeded (history : List (TodoOp × Reply)) : List String := history.filterMap succeededId

def isClaim : TodoOp × Reply → Bool
  | (_, .claim (.ok true)) => true
  | _ => false

/-- A call id that has succeeded is replied the same again, or refused. -/
def Repeats (earlier later : TodoOp × Reply) : Prop :=
  ∀ c r c' out, earlier = (.update c, .update (.ok r)) → later = (.update c', .update out) →
    c'.callId = c.callId →
      (c'.fingerprint = c.fingerprint → out = .ok r) ∧
      (c'.fingerprint ≠ c.fingerprint → ∃ e, out = .error e)

/-! ## Calls in memory -/

/-- **What `update` does in memory.** -/
theorem MemoryTodoListStore.update_cases (m : MemoryTodoListStore) (turnId : String)
    (c : UpdateCall) :
    (∃ e, m.update turnId c = (.error e, m) ∧
      ∀ r, m.receipts c.callId = some (c.fingerprint, r) → c.expectedRevision < 0) ∨
    (∃ r, m.update turnId c = (.ok r, m) ∧ m.receipts c.callId = some (c.fingerprint, r)) ∨
    ∃ updated applied, m.receipts c.callId = none ∧ 0 ≤ c.expectedRevision ∧
      m.snapshot.revision = c.expectedRevision ∧
      applyTodoOperations m.snapshot c.operations c.generatedIds = .ok (updated, applied) ∧
      m.update turnId c = (.ok ⟨turnId, updated, applied⟩, { m with
        state := some updated
        receipts := Function.update m.receipts c.callId
          (some (c.fingerprint, ⟨turnId, updated, applied⟩)) }) := by
  unfold MemoryTodoListStore.update
  split
  · next hneg => exact .inl ⟨_, rfl, fun _ _ => hneg⟩
  · next hnonneg =>
    rcases hr : m.receipts c.callId with _ | ⟨fingerprint, result⟩
    · by_cases hrev : m.snapshot.revision = c.expectedRevision
      · simp only [hrev, ne_eq, not_true_eq_false, if_false]
        rcases happly : applyTodoOperations m.snapshot c.operations
          c.generatedIds with e | ⟨updated, applied⟩
        · exact .inl ⟨e, rfl, fun _ h => nomatch h⟩
        · exact .inr (.inr ⟨updated, applied, trivial, not_lt.mp hnonneg, trivial, rfl, rfl⟩)
      · simp only [hrev, ne_eq, not_false_eq_true, if_true]
        exact .inl ⟨_, rfl, fun _ h => nomatch h⟩
    · by_cases hfp : fingerprint = c.fingerprint
      · subst hfp
        simp only [ne_eq, not_true_eq_false, if_false]
        exact .inr (.inl ⟨result, rfl, rfl⟩)
      · simp only [ne_eq, hfp, not_false_eq_true, if_true]
        refine .inl ⟨_, rfl, fun r h => ?_⟩
        cases h
        exact absurd rfl hfp

/-- A call that is applied changes the snapshot. -/
theorem snapshot_ne_of_applied {updated : TodoSnapshot} {applied : List TextDict}
    (h : applyTodoOperations m.snapshot c.operations c.generatedIds = .ok (updated, applied)) :
    updated ≠ m.snapshot := by
  rintro rfl
  have := (applyTodoOperations_ok h).1
  omega

theorem observed_ok {α : Type} {r : Except StoreError α} {a : α} (h : observed r = .ok a) :
    r = .ok a := by
  cases r with
  | ok b => cases h; rfl
  | error e => cases h

theorem observed_error {α : Type} {r : Except StoreError α} {code : String}
    (h : observed r = .error code) :
    ∃ e, r = .error e := by
  cases r with
  | ok b => cases h
  | error e => exact ⟨e, rfl⟩

theorem fingerprint_iff :
    c.fingerprint = c'.fingerprint ↔ c.expectedRevision = c'.expectedRevision ∧
    c.operations.map sortKeysFields = c'.operations.map sortKeysFields := by
  have hobj : ∀ d : UpdateCall, d.fingerprint =
      .obj [("expected_revision", .int d.expectedRevision),
      ("operations", .arr ((d.operations.map sortKeysFields).map .obj))] := by
    intro d
    have hlt : "expected_revision" < "operations" := by decide +kernel
    simp [UpdateCall.fingerprint, sortKeys, sortKeysFields, insertKey, sortKeysList_eq_map, hlt,
      Function.comp_def]
  rw [hobj, hobj]
  simp only [obj.injEq, List.cons.injEq, Prod.mk.injEq, int.injEq, arr.injEq, and_true, true_and]
  refine and_congr_right fun _ => ⟨fun h => ?_, fun h => by rw [h]⟩
  exact (List.map_injective_iff.mpr fun a b hab => obj.inj hab) h

/-! ## The invariant -/

structure Linear (m : MemoryTodoListStore) (s : Todos) : Prop where
  snapshot : replayLog s.log .empty = some m.snapshot
  revision : m.snapshot.revision = s.log.length
  once : (s.log.map UpdateCall.callId).Nodup
  expected : ∀ c ∈ s.log, 0 ≤ c.expectedRevision
  logged : ∀ callId fingerprint r, m.receipts callId = some (fingerprint, r) →
    ∃ c ∈ s.log, c.callId = callId ∧ c.fingerprint = fingerprint ∧
      (.update c, .update (.ok r)) ∈ s.history
  received : ∀ c ∈ s.log, ∃ r, m.receipts c.callId = some (c.fingerprint, r)
  answers : ∀ c r, (.update c, .update (.ok r)) ∈ s.history →
    m.receipts c.callId = some (c.fingerprint, r)
  repeats : s.history.Pairwise Repeats
  claims : s.history.countP isClaim = if m.finalization then 1 else 0

theorem linear_new : Linear .new .new :=
  ⟨rfl, rfl, List.nodup_nil, fun _ h => absurd h List.not_mem_nil, fun _ _ _ h => (by cases h),
    fun _ h => absurd h List.not_mem_nil, fun _ _ h => absurd h List.not_mem_nil,
      List.Pairwise.nil, rfl⟩

/-- A reply that goes with no change. -/
theorem Linear.push {e : TodoOp × Reply} (h : Linear m s)
    (hanswer : ∀ c r, e = (.update c, .update (.ok r)) →
      m.receipts c.callId = some (c.fingerprint, r))
    (hrepeat : ∀ p ∈ s.history, Repeats p e) (hclaim : isClaim e = false) :
    Linear m { s with history := s.history ++ [e] } where
  snapshot := h.snapshot
  revision := h.revision
  once := h.once
  expected := h.expected
  logged callId fingerprint r hr := by
    obtain ⟨c, hc, h1, h2, h3⟩ := h.logged callId fingerprint r hr
    exact ⟨c, hc, h1, h2, List.mem_append_left _ h3⟩
  received := h.received
  answers c r hmem := by
    rcases List.mem_append.mp hmem with hmem | hmem
    · exact h.answers c r hmem
    · exact hanswer c r (List.mem_singleton.mp hmem).symm
  repeats := by
    rw [List.pairwise_append]
    refine ⟨h.repeats, List.pairwise_singleton _ _, fun p hp q hq => ?_⟩
    rw [List.mem_singleton.mp hq]
    exact hrepeat p hp
  claims := by
    rw [List.countP_append, List.countP_singleton, hclaim, h.claims]
    simp

/-- Two replies to one call id, when the receipt of the first is there for the second. -/
theorem Linear.repeats_of_receipt {out : Except StoreError TodoUpdateResult} (h : Linear m s)
    (hagrees : Reply.Agrees (.update out) (m.call turnId (.update c)).1) :
    ∀ p ∈ s.history, Repeats p (.update c, .update out) := by
  rintro p hp c₀ r₀ c' out' rfl heq hid
  cases heq
  have hreceipt := h.answers c₀ r₀ hp
  obtain ⟨c₁, hc₁, -, hfp₁, -⟩ := h.logged c₀.callId c₀.fingerprint r₀ hreceipt
  rw [← hid] at hreceipt
  simp only [MemoryTodoListStore.call] at hagrees
  obtain ⟨e, hupdate, hneg⟩ | ⟨r, hupdate, hr⟩ | ⟨updated, applied, hnone, -⟩ :=
    m.update_cases turnId c
  · rw [hupdate] at hagrees
    refine ⟨fun hfp => ?_, fun _ => observed_error hagrees⟩
    -- the receipt is of a call with a revision that is not negative
    have := h.expected c₁ hc₁
    have hrev := (fingerprint_iff.mp (hfp₁.trans hfp.symm)).1
    have := hneg r₀ (by rw [hreceipt, hfp])
    omega
  · rw [hupdate] at hagrees
    rw [hreceipt] at hr
    simp only [Option.some.injEq, Prod.mk.injEq] at hr
    obtain ⟨hfp, rfl⟩ := hr
    exact ⟨fun _ => observed_ok hagrees, fun hne => absurd hfp.symm hne⟩
  · rw [hreceipt] at hnone
    cases hnone

theorem repeats_of_not_update {p : TodoOp × Reply} {op : TodoOp} {reply : Reply}
    (h : ∀ c, op ≠ .update c) :
    Repeats p (op, reply) := by
  rintro c r c' out - heq -
  cases heq
  exact absurd rfl (h c')

theorem Linear.quiet {op : TodoOp} {reply : Reply} (h : Linear m s)
    (hagrees : reply.Agrees (m.call turnId op).1) (hsame : (m.call turnId op).2 = m) :
    Linear m { s with history := s.history ++ [(op, reply)] } := by
  cases op with
  | update c =>
    obtain ⟨out, rfl⟩ : ∃ out, reply = .update out := by
      obtain ⟨r, hr⟩ : ∃ r, (m.call turnId (.update c)).1 = .update r := by
        simp only [MemoryTodoListStore.call]
        rcases m.update turnId c with ⟨_ | _, _⟩ <;> exact ⟨_, rfl⟩
      rw [hr] at hagrees
      cases reply <;> first | exact ⟨_, rfl⟩ | exact hagrees.elim
    refine h.push ?_ (h.repeats_of_receipt hagrees) rfl
    rintro c' r heq
    cases heq
    simp only [MemoryTodoListStore.call] at hagrees hsame
    obtain ⟨e, hupdate, -⟩ | ⟨r', hupdate, hr⟩ | ⟨updated, applied, -, -, -, happly, hupdate⟩ :=
      m.update_cases turnId c
    · rw [hupdate] at hagrees
      cases hagrees
    · rw [hupdate] at hagrees
      cases observed_ok hagrees
      exact hr
    · rw [hupdate] at hsame
      have := congrArg MemoryTodoListStore.snapshot hsame
      exact absurd this (snapshot_ne_of_applied happly)
  | snapshot =>
    refine h.push (fun c r heq => by cases heq)
      (fun p _ => repeats_of_not_update fun c heq => by cases heq) ?_
    cases reply <;> first | rfl | exact hagrees.elim
  | receipt callId =>
    refine h.push (fun c r heq => by cases heq)
      (fun p _ => repeats_of_not_update fun c heq => by cases heq) ?_
    cases reply <;> first | rfl | exact hagrees.elim
  | claimFinalization =>
    refine h.push (fun c r heq => by cases heq)
      (fun p _ => repeats_of_not_update fun c heq => by cases heq) ?_
    cases reply with
    | claim out =>
      simp only [MemoryTodoListStore.call, MemoryTodoListStore.claimFinalization] at hagrees hsame
      split at hsame
      · next hfalse =>
        rw [if_pos hfalse] at hagrees
        rw [observed_ok hagrees]
        rfl
      · next htrue =>
        have := congrArg MemoryTodoListStore.finalization hsame
        simp only [Bool.or_eq_true, not_or, Bool.not_eq_true] at htrue
        rw [htrue.2] at this
        cases this
    | _ => exact hagrees.elim

/-- A batch is applied. -/
theorem Linear.applied {raw : Hash} {updated : TodoSnapshot} {applied : List TextDict}
    (h : Linear m s) (hnone : m.receipts c.callId = none) (hnonneg : 0 ≤ c.expectedRevision)
    (hrev : m.snapshot.revision = c.expectedRevision)
    (happly : applyTodoOperations m.snapshot c.operations c.generatedIds = .ok (updated, applied)) :
    Linear { m with
        state := some updated
        receipts := Function.update m.receipts c.callId
          (some (c.fingerprint, ⟨turnId, updated, applied⟩)) }
      ⟨raw, s.history ++ [(.update c, .update (.ok ⟨turnId, updated, applied⟩))],
        s.log ++ [c]⟩ := by
  have hfresh : ∀ c' ∈ s.log, c'.callId ≠ c.callId := by
    intro c' hc' e
    obtain ⟨r, hr⟩ := h.received c' hc'
    rw [e, hnone] at hr
    cases hr
  have hold : ∀ c' r, (.update c', .update (.ok r)) ∈ s.history → c'.callId ≠ c.callId := by
    intro c' r hmem e
    have hr := h.answers c' r hmem
    rw [e, hnone] at hr
    cases hr
  refine ⟨replayLog_append h.snapshot hrev happly, ?_, ?_, ?_, ?_, ?_, ?_, ?_, ?_⟩
  · show updated.revision = _
    rw [(applyTodoOperations_ok happly).1, h.revision]
    simp
  · rw [List.map_append, List.map_singleton, List.nodup_append]
    refine ⟨h.once, List.nodup_singleton _, fun a ha b hb => ?_⟩
    obtain ⟨c', hc', rfl⟩ := List.mem_map.mp ha
    rw [List.mem_singleton.mp hb]
    exact hfresh c' hc'
  · intro c' hc'
    rcases List.mem_append.mp hc' with hc' | hc'
    · exact h.expected c' hc'
    · rw [List.mem_singleton.mp hc']; exact hnonneg
  · intro callId fingerprint r hr
    by_cases hid : callId = c.callId
    · subst hid
      simp only [Function.update_self, Option.some.injEq, Prod.mk.injEq] at hr
      obtain ⟨rfl, rfl⟩ := hr
      exact ⟨c, by simp, rfl, rfl, by simp⟩
    · simp only [Function.update_of_ne hid] at hr
      obtain ⟨c', hc', h1, h2, h3⟩ := h.logged callId fingerprint r hr
      exact ⟨c', List.mem_append_left _ hc', h1, h2, List.mem_append_left _ h3⟩
  · intro c' hc'
    rcases List.mem_append.mp hc' with hc' | hc'
    · simp only [Function.update_of_ne (hfresh c' hc')]
      exact h.received c' hc'
    · rw [List.mem_singleton.mp hc']
      exact ⟨_, Function.update_self ..⟩
  · intro c' r hmem
    rcases List.mem_append.mp hmem with hmem | hmem
    · simp only [Function.update_of_ne (hold c' r hmem)]
      exact h.answers c' r hmem
    · cases List.mem_singleton.mp hmem
      exact Function.update_self ..
  · rw [List.pairwise_append]
    refine ⟨h.repeats, List.pairwise_singleton _ _, fun p hp q hq => ?_⟩
    rw [List.mem_singleton.mp hq]
    rintro c₀ r₀ c' out rfl heq hid
    cases heq
    exact absurd hid.symm (hold c₀ r₀ hp)
  · rw [List.countP_append, h.claims]
    rfl

/-- The finalization is claimed. -/
theorem Linear.claimed {raw : Hash} (h : Linear m s) (hnot : m.finalization = false) :
    Linear { m with finalization := true } ⟨raw, s.history ++
      [(.claimFinalization, .claim (.ok true))], s.log⟩ := by
  refine ⟨h.snapshot, h.revision, h.once, h.expected, fun callId fingerprint r hr => ?_, h.received,
    fun c r hmem => ?_, ?_, ?_⟩
  · obtain ⟨c, hc, h1, h2, h3⟩ := h.logged callId fingerprint r hr
    exact ⟨c, hc, h1, h2, List.mem_append_left _ h3⟩
  · rcases List.mem_append.mp hmem with hmem | hmem
    · exact h.answers c r hmem
    · cases List.mem_singleton.mp hmem
  · rw [List.pairwise_append]
    refine ⟨h.repeats, List.pairwise_singleton _ _, fun p _ q hq => ?_⟩
    rw [List.mem_singleton.mp hq]
    exact repeats_of_not_update fun c heq => by cases heq
  · rw [List.countP_append, h.claims, hnot]
    rfl

/-! ## Attempts -/

/-- A reply that the memory store gives too, or the refusal of a call whose sixteen attempts all met
a change. -/
def Explains (turnId : String) (m : MemoryTodoListStore) (e : TodoOp × Reply)
    (m' : MemoryTodoListStore) : Prop :=
  (e.2.Agrees (m.call turnId e.1).1 ∧ m' = (m.call turnId e.1).2) ∨
  (((∃ c, e = (.update c, .update (.error (.todo .concurrentUpdate)))) ∨
    e = (.claimFinalization, .claim (.error (.todo .concurrentFinalization)))) ∧ m' = m)

/-- The replies, one after the other, are those of the memory store. -/
def Sequential (turnId : String) : MemoryTodoListStore → List (TodoOp × Reply) →
    MemoryTodoListStore → Prop
  | m, [], m' => m' = m
  | m, e :: history, m' => ∃ mid, Explains turnId m e mid ∧ Sequential turnId mid history m'

theorem Sequential.concat {history : List (TodoOp × Reply)} {e : TodoOp × Reply}
    {m₀ : MemoryTodoListStore} (h : Sequential turnId m₀ history m) (he : Explains turnId m e m') :
    Sequential turnId m₀ (history ++ [e]) m' := by
  induction history generalizing m₀ with
  | nil =>
    cases h
    exact ⟨m', he, rfl⟩
  | cons e₀ history ih =>
    obtain ⟨mid, hmid, hrest⟩ := h
    exact ⟨mid, hmid, ih hrest⟩

theorem update_write {raw raw' : Hash} (h : (update sessionId turnId c raw).write = some raw') :
    raw (receiptField c.callId) = none ∧ ∃ r, (update sessionId turnId c raw).reply = .ok r := by
  unfold RedisTodoListStore.update at h ⊢
  split at h
  · cases h
  · next hneg =>
    simp only [hneg, if_false]
    rcases hr : raw (receiptField c.callId) with _ | existing
    · rw [hr] at h
      simp only at h ⊢
      rcases hcompute : compute turnId c raw with e | result
      · rw [hcompute] at h
        cases h
      · exact ⟨trivial, result, rfl⟩
    · rw [hr] at h
      cases h

/-- An attempt leaves the hash alone, or it is the first success of a call id, or the finalization
is claimed. -/
def Quiet (s s' : Todos) : Prop :=
  s'.raw ≠ s.raw →
    (∃ c r, s'.history = s.history ++ [(.update c, .update (.ok r))] ∧
      c.callId ∉ succeeded s.history) ∨
    s'.history = s.history ++ [(.claimFinalization, .claim (.ok true))]

theorem not_mem_succeeded (h : Linear m s) (hnone : m.receipts c.callId = none) :
    c.callId ∉ succeeded s.history := by
  intro hmem
  obtain ⟨p, hp, he⟩ := List.mem_filterMap.mp hmem
  unfold succeededId at he
  split at he
  · next c' r =>
    simp only [Option.some.injEq] at he
    have hr := h.answers c' r hp
    rw [he, hnone] at hr
    cases hr
  · cases he

theorem exec_linear {frame : TodoOp × Nat} {conflict : Bool} {new : List (TodoOp × Nat)}
    (hrep : Represents s.raw m) (h : Linear m s) (hseq : Sequential turnId .new s.history m)
    (hx : Todos.exec sessionId turnId s frame conflict = some (s', new)) :
    (∃ m', Represents s'.raw m' ∧ Linear m' s' ∧ Sequential turnId .new s'.history m') ∧
      Quiet s s' := by
  obtain ⟨op, left⟩ := frame
  obtain ⟨hagrees, hwrites⟩ : (attempt sessionId turnId s.raw op).reply.Agrees
      (m.call turnId op).1 ∧
    Writes (attempt sessionId turnId s.raw op).write m (m.call turnId op).2 :=
    attempt_refines hrep op
  simp only [Todos.exec] at hx
  rcases hw : (attempt sessionId turnId s.raw op).write with _ | raw
  · rw [hw] at hx hwrites
    cases hx
    have hwrites : (m.call turnId op).2 = m := hwrites
    exact ⟨⟨m, hrep, h.quiet hagrees hwrites, hseq.concat (.inl ⟨hagrees, hwrites.symm⟩)⟩,
      fun hne => absurd rfl hne⟩
  · rw [hw] at hx hwrites
    cases op with
    | snapshot => cases hw
    | receipt callId => cases hw
    | update c =>
      obtain ⟨hraw, r, hreply⟩ := update_write hw
      have hnone : m.receipts c.callId = none := by
        rw [hrep.receipts] at hraw
        exact Option.map_eq_none_iff.mp hraw
      cases conflict with
      | true =>
        simp only [if_true] at hx
        split at hx
        · cases hx
          refine ⟨⟨m, hrep, h.push (fun c' r' heq => by cases heq) (fun p hp => ?_) rfl,
            hseq.concat (.inr ⟨.inl ⟨c, rfl⟩, rfl⟩)⟩, fun hne => absurd rfl hne⟩
          rintro c₀ r₀ c' out rfl heq hid
          cases heq
          have hr := h.answers c₀ r₀ hp
          rw [← hid, hnone] at hr
          cases hr
        · cases hx
          exact ⟨⟨m, hrep, h, hseq⟩, fun hne => absurd rfl hne⟩
      | false =>
        simp only [Bool.false_eq_true, if_false] at hx
        cases hx
        have hok : (attempt sessionId turnId s.raw (.update c)).reply = .update (.ok r) :=
          congrArg Reply.update hreply
        rw [hok] at hagrees ⊢
        have hcall := hagrees
        simp only [MemoryTodoListStore.call] at hagrees hwrites
        obtain ⟨e, hupdate, -⟩ | ⟨r', -, hr'⟩ | ⟨updated, applied, -, hnonneg,
            hrev, happly, hupdate⟩ :=
          m.update_cases turnId c
        · rw [hupdate] at hagrees
          cases hagrees
        · rw [hnone] at hr'
          cases hr'
        · rw [hupdate] at hagrees hwrites
          cases observed_ok hagrees.symm
          have hseq := hseq.concat (e := (.update c, _)) (.inl ⟨hcall, rfl⟩)
          simp only [MemoryTodoListStore.call, hupdate] at hseq
          exact ⟨⟨_, hwrites, h.applied hnone hnonneg hrev happly, hseq⟩,
            fun _ => .inl ⟨c, _, rfl, not_mem_succeeded h hnone⟩⟩
    | claimFinalization =>
      cases conflict with
      | true =>
        simp only [if_true] at hx
        split at hx
        · cases hx
          exact ⟨⟨m, hrep, h.push (fun c' r' heq => by cases heq)
            (fun p _ => repeats_of_not_update fun c heq => by cases heq) rfl,
            hseq.concat (.inr ⟨.inr rfl, rfl⟩)⟩, fun hne => absurd rfl hne⟩
        · cases hx
          exact ⟨⟨m, hrep, h, hseq⟩, fun hne => absurd rfl hne⟩
      | false =>
        simp only [Bool.false_eq_true, if_false] at hx
        cases hx
        have hw : (RedisTodoListStore.claimFinalization s.raw).write = some raw := hw
        by_cases hfalse : (m.snapshot.unfinished.isEmpty || m.finalization) = true
        · simp only [RedisTodoListStore.claimFinalization, hrep.snapshot,
            hrep.claimed, hfalse, if_true] at hw
          cases hw
        · have hclaim : m.claimFinalization = (true, { m with finalization := true }) := by
            rw [MemoryTodoListStore.claimFinalization, if_neg hfalse]
          have hreply := (claimFinalization_refines hrep).1
          rw [hclaim] at hreply
          have hok : (attempt sessionId turnId s.raw .claimFinalization).reply =
              .claim (.ok true) :=
            congrArg Reply.claim hreply
          rw [hok] at hagrees ⊢
          have hseq := hseq.concat (e := (.claimFinalization, _)) (.inl ⟨hagrees, rfl⟩)
          simp only [MemoryTodoListStore.call, hclaim] at hwrites hseq
          rw [Bool.or_eq_true, not_or, Bool.not_eq_true, Bool.not_eq_true] at hfalse
          refine ⟨⟨_, hwrites, ?_, hseq⟩, fun _ => .inr rfl⟩
          have hlog : s.log ++ Todos.batchOf .claimFinalization = s.log := List.append_nil _
          rw [hlog]
          exact h.claimed hfalse.2

/-- The hash is that of a memory store which gives the replies given so far. -/
def Backed (turnId : String) (t : Threads Todos (TodoOp × Nat)) : Prop :=
  ∃ m, Represents t.shared.raw m ∧ Linear m t.shared ∧ Sequential turnId .new t.shared.history m

theorem step_backed {a : Move (TodoOp × Nat) Bool} {t t' : Threads Todos (TodoOp × Nat)}
    (h : Backed turnId t) (hstep : Todos.step sessionId turnId t a = some t') :
    Backed turnId t' ∧ Quiet t.shared t'.shared := by
  obtain ⟨m, hrep, hlin, hseq⟩ := h
  obtain ⟨f, rfl, -, rfl⟩ | ⟨k, conflict, f, rest, shared, new, rfl, -, hx, rfl⟩ :=
    Threads.step_cases hstep
  · exact ⟨⟨m, hrep, hlin, hseq⟩, fun hne => absurd rfl hne⟩
  · exact exec_linear hrep hlin hseq hx

theorem run_backed {moves : List (Move (TodoOp × Nat) Bool)} {t : Threads Todos (TodoOp × Nat)}
    (hrun : run (Todos.step sessionId turnId) ⟨.new, []⟩ moves = some t) : Backed turnId t := by
  have hinit : Backed turnId ⟨.new, []⟩ := ⟨.new, represents_new, linear_new, rfl⟩
  exact run_invariant (fun _ _ _ h _ hstep => (step_backed h hstep).1) hinit meets_true hrun

/-! ## What the clients see -/

theorem mem_succeeded {callId : String} {history : List (TodoOp × Reply)} :
    callId ∈ succeeded history ↔ ∃ c r, (.update c, .update (.ok r)) ∈ history ∧
      c.callId = callId := by
  simp only [succeeded, List.mem_filterMap]
  constructor
  · rintro ⟨p, hp, he⟩
    unfold succeededId at he
    split at he
    · next c r => exact ⟨c, r, hp, Option.some.inj he⟩
    · cases he
  · rintro ⟨c, r, hmem, rfl⟩
    exact ⟨_, hmem, rfl⟩

/-- The log holds one batch for each call id that has succeeded. -/
theorem Linear.mem_log {callId : String} (h : Linear m s) :
    callId ∈ s.log.map UpdateCall.callId ↔ callId ∈ succeeded s.history := by
  rw [mem_succeeded, List.mem_map]
  constructor
  · rintro ⟨c, hc, rfl⟩
    obtain ⟨r, hr⟩ := h.received c hc
    obtain ⟨c', -, hid, -, hmem⟩ := h.logged c.callId c.fingerprint r hr
    exact ⟨c', r, hmem, hid⟩
  · rintro ⟨c, r, hmem, rfl⟩
    obtain ⟨c', hc', hid, -, -⟩ := h.logged c.callId c.fingerprint r (h.answers c r hmem)
    exact ⟨c', hc', hid⟩

theorem Linear.length_log (h : Linear m s) : s.log.length = (succeeded s.history).dedup.length := by
  have hperm : (s.log.map UpdateCall.callId).Perm (succeeded s.history).dedup := by
    rw [List.perm_ext_iff_of_nodup h.once (List.nodup_dedup _)]
    intro callId
    rw [List.mem_dedup, h.mem_log]
  rw [← hperm.length_eq, List.length_map]

/-- The contract, in the state the clients have reached. -/
structure Contract (turnId : String) (s : Todos) : Prop where
  /-- The replies are those of the memory store to the same calls one after the other, except that a
  call can be refused because the list changes too often. -/
  sequential : ∃ m, Sequential turnId .new s.history m ∧ snapshotOf s.raw = .ok m.snapshot
  /-- The stored snapshot is that of the log of the batches that were applied. -/
  log : ∃ snapshot, snapshotOf s.raw = .ok snapshot ∧ replayLog s.log .empty = some snapshot
  revision : ∃ snapshot, snapshotOf s.raw = .ok snapshot ∧
    snapshot.revision = (succeeded s.history).dedup.length
  once : (s.log.map UpdateCall.callId).Nodup
  applied : ∀ callId, callId ∈ s.log.map UpdateCall.callId ↔ callId ∈ succeeded s.history
  repeats : s.history.Pairwise Repeats
  claims : s.history.countP isClaim ≤ 1

theorem Backed.contract {t : Threads Todos (TodoOp × Nat)} (h : Backed turnId t) :
    Contract turnId t.shared := by
  obtain ⟨m, hrep, hlin, hseq⟩ := h
  refine ⟨⟨m, hseq, hrep.snapshot⟩, ⟨_, hrep.snapshot, hlin.snapshot⟩, ⟨_, hrep.snapshot, ?_⟩,
    hlin.once,
    fun callId => hlin.mem_log, hlin.repeats, ?_⟩
  · rw [hlin.revision, hlin.length_log]
  · rw [hlin.claims]
    split <;> omega

end MiniAgent.Todo
