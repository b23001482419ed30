import MiniAgent.Todo.Contract

/-!
# The two stores on one sequence of calls

Each store generates its own Todo ids, and a client names a Todo by the id it was given. So a run on
Redis and the run in memory that stands for it differ by a renaming of the ids: in memory the
replies are the renamed ones (`call_rename`), because a fingerprint tells two batches apart exactly
when it tells the renamed ones apart. With the refinement of Redis by memory the two stores then
give the same replies on every sequence of calls, and `todo_store` puts this beside the contract of
every interleaving.
-/

namespace MiniAgent.Todo

open Lib Json RedisTodoListStore

namespace Renaming

variable (ρ : Renaming) {m mρ : MemoryTodoListStore} {c c' : UpdateCall}

/-! ## Calls and replies -/

def call (c : UpdateCall) : UpdateCall :=
  { c with operations := c.operations.map ρ.operation, generatedIds := c.generatedIds.map ρ.map }

def op : TodoOp → TodoOp
  | .update c => .update (ρ.call c)
  | op => op

def storeError : StoreError → StoreError
  | .todo e => .todo (ρ.error e)
  | .unavailable => .unavailable

def answer {α β : Type} (f : α → β) : Except StoreError α → Except StoreError β
  | .ok a => .ok (f a)
  | .error e => .error (ρ.storeError e)

def reply : Reply → Reply
  | .update r => .update (ρ.answer ρ.result r)
  | .snapshot r => .snapshot (ρ.answer ρ.snapshot r)
  | .receipt r => .receipt (ρ.answer (Option.map ρ.result) r)
  | .claim r => .claim (ρ.answer id r)

theorem code_storeError (e : StoreError) : (ρ.storeError e).code = e.code := by
  cases e with
  | todo e => exact ρ.code_error e
  | unavailable => rfl

theorem observed_answer {α β : Type} (f : α → β) {r r' : Except StoreError α}
    (h : observed r = observed r') :
    observed (ρ.answer f r) = observed (ρ.answer f r') := by
  rcases r with e | a <;> rcases r' with e' | a'
  · simp only [observed, Except.error.injEq] at h
    simp only [observed, answer, code_storeError, h]
  · cases h
  · cases h
  · cases h
    rfl

theorem agrees_reply {r r' : Reply} (h : r.Agrees r') : (ρ.reply r).Agrees (ρ.reply r') := by
  cases r <;> cases r' <;> first | exact ρ.observed_answer _ h | exact h.elim

/-! ## Fingerprints -/

theorem value_injective : Function.Injective ρ.value := by
  have hstr : ∀ {a : Json} {s : String}, ρ.value a = .str s → ∃ t, a = .str t ∧ ρ.map t = s := by
    intro a s h
    cases a with
    | str t => exact ⟨t, rfl, str.inj h⟩
    | _ => cases h
  intro a b h
  cases a with
  | str s =>
    obtain ⟨t, rfl, ht⟩ := hstr h.symm
    exact congrArg str (ρ.injective ht.symm)
  | _ => cases b with
    | str s =>
      obtain ⟨t, ht, -⟩ := hstr h
      cases ht
    | _ => exact h

theorem operation_injective : Function.Injective ρ.operation := by
  refine List.map_injective_iff.mpr ?_
  rintro ⟨k, v⟩ ⟨k', v'⟩ h
  simp only [Prod.mk.injEq] at h
  obtain ⟨rfl, hv⟩ := h
  split at hv
  · exact congrArg (Prod.mk k) (ρ.value_injective hv)
  · exact congrArg (Prod.mk k) hv

theorem sortKeys_value (v : Json) : sortKeys (ρ.value v) = ρ.value (sortKeys v) := by
  cases v <;> rfl

theorem operation_insertKey (k : String) (v : Json) (f : Fields) :
    ρ.operation (insertKey k v f) = insertKey k (if k = "id" then ρ.value v else v)
    (ρ.operation f) := by
  induction f with
  | nil => rfl
  | cons p f ih =>
    obtain ⟨k', w⟩ := p
    have hcons : ρ.operation ((k', w) :: f) = (k', if k' = "id" then ρ.value w else w) ::
        ρ.operation f := rfl
    rw [hcons, insertKey, insertKey]
    split
    · rfl
    · split
      · rfl
      · rw [← ih]
        rfl

theorem sortKeysFields_operation (f : Fields) :
    sortKeysFields (ρ.operation f) = ρ.operation (sortKeysFields f) := by
  induction f with
  | nil => rfl
  | cons p f ih =>
    obtain ⟨k, v⟩ := p
    have hcons : ρ.operation ((k, v) :: f) = (k, if k = "id" then ρ.value v else v) ::
        ρ.operation f := rfl
    rw [hcons, sortKeysFields, sortKeysFields, ρ.operation_insertKey, ih]
    split
    · rw [ρ.sortKeys_value]
    · rfl

/-- A fingerprint tells two batches apart exactly when it tells the renamed ones apart. -/
theorem fingerprint_call : (ρ.call c).fingerprint = (ρ.call c').fingerprint ↔
    c.fingerprint = c'.fingerprint := by
  have hsort : ∀ operations : List Fields, (operations.map ρ.operation).map sortKeysFields
      = (operations.map sortKeysFields).map ρ.operation := by
    intro operations
    simp only [List.map_map, Function.comp_def, sortKeysFields_operation]
  rw [fingerprint_iff, fingerprint_iff]
  simp only [call, hsort, (List.map_injective_iff.mpr ρ.operation_injective).eq_iff]

/-! ## Memory under other ids -/

/-- The receipts of one batch under two names. -/
def SameReceipt (p p' : Json × TodoUpdateResult) : Prop :=
  p'.2 = ρ.result p.2 ∧ ∃ c : UpdateCall, p.1 = c.fingerprint ∧ p'.1 = (ρ.call c).fingerprint

structure Renamed (m mρ : MemoryTodoListStore) : Prop where
  snapshot : mρ.snapshot = ρ.snapshot m.snapshot
  receipts : ∀ callId, Option.Rel ρ.SameReceipt (m.receipts callId) (mρ.receipts callId)
  finalization : mρ.finalization = m.finalization

theorem renamed_new : ρ.Renamed .new .new := ⟨rfl, fun _ => .none, rfl⟩

theorem isEmpty_unfinished (s : TodoSnapshot) :
    (ρ.snapshot s).unfinished.isEmpty = s.unfinished.isEmpty := by
  simp only [TodoSnapshot.unfinished, snapshot, List.filter_map, List.isEmpty_map]
  rfl

theorem update_rename (turnId : String) (h : ρ.Renamed m mρ) (c : UpdateCall) :
    (mρ.update turnId (ρ.call c)).1 = ρ.outcome ρ.result (m.update turnId c).1 ∧
    ρ.Renamed (m.update turnId c).2 (mρ.update turnId (ρ.call c)).2 := by
  have hid : (ρ.call c).callId = c.callId := rfl
  have hexpected : (ρ.call c).expectedRevision = c.expectedRevision := rfl
  have hrevision : mρ.snapshot.revision = m.snapshot.revision := by rw [h.snapshot]; rfl
  simp only [MemoryTodoListStore.update, hid, hexpected, hrevision]
  split
  · exact ⟨rfl, h⟩
  · have hreceipt := h.receipts c.callId
    rcases hr : m.receipts c.callId with _ | ⟨fingerprint, result⟩ <;>
      rcases hrρ : mρ.receipts c.callId with _ | ⟨fingerprintρ, resultρ⟩ <;>
        rw [hr, hrρ] at hreceipt
    · dsimp only
      split
      · rw [h.snapshot]
        exact ⟨rfl, h⟩
      · have happly := ρ.applyTodoOperations_rename m.snapshot c.operations c.generatedIds
        rw [← h.snapshot] at happly
        have hcall : applyTodoOperations mρ.snapshot (ρ.call c).operations (ρ.call c).generatedIds
          = ρ.outcome (Prod.map ρ.snapshot (List.map ρ.textDict))
              (applyTodoOperations m.snapshot c.operations c.generatedIds) := happly
        rw [hcall]
        rcases applyTodoOperations m.snapshot c.operations
          c.generatedIds with e | ⟨updated, applied⟩
        · exact ⟨rfl, h⟩
        · refine ⟨rfl, rfl, fun callId => ?_, h.finalization⟩
          show Option.Rel ρ.SameReceipt
            (Function.update m.receipts c.callId
              (some (c.fingerprint, ⟨turnId, updated, applied⟩)) callId)
            (Function.update mρ.receipts c.callId (some ((ρ.call c).fingerprint,
              ρ.result ⟨turnId, updated, applied⟩)) callId)
          by_cases heq : callId = c.callId
          · subst heq
            simp only [Function.update_self]
            exact .some ⟨rfl, c, rfl, rfl⟩
          · simp only [Function.update_of_ne heq]
            exact h.receipts callId
    · cases hreceipt
    · cases hreceipt
    · cases hreceipt with
      | some hsame =>
        obtain ⟨hresult, c₀, hfp, hfpρ⟩ := hsame
        dsimp only at hresult hfp hfpρ ⊢
        have hiff : (ρ.call c₀).fingerprint = (ρ.call c).fingerprint ↔
            c₀.fingerprint = c.fingerprint :=
          ρ.fingerprint_call
        rw [← hfp, ← hfpρ] at hiff
        by_cases heq : fingerprint = c.fingerprint
        · simp only [heq, hiff.mpr heq, ne_eq, not_true_eq_false, if_false, hresult]
          exact ⟨rfl, h⟩
        · have hne : fingerprintρ ≠ (ρ.call c).fingerprint := fun e => heq (hiff.mp e)
          simp only [ne_eq, heq, hne, not_false_eq_true, if_true]
          exact ⟨rfl, h⟩

/-- **A call in memory under other ids.** -/
theorem call_rename (turnId : String) (h : ρ.Renamed m mρ) (op : TodoOp) :
    (mρ.call turnId (ρ.op op)).1 = ρ.reply (m.call turnId op).1 ∧
    ρ.Renamed (m.call turnId op).2 (mρ.call turnId (ρ.op op)).2 := by
  cases op with
  | update c =>
    obtain ⟨hreply, hrenamed⟩ := ρ.update_rename turnId h c
    simp only [Renaming.op, MemoryTodoListStore.call]
    rcases hu : m.update turnId c with ⟨_ | _, m'⟩ <;> rw [hu] at hreply hrenamed <;>
      rcases huρ : mρ.update turnId (ρ.call c) with ⟨_ | _, mρ'⟩ <;> rw [huρ] at hreply hrenamed <;>
      cases hreply <;> exact ⟨rfl, hrenamed⟩
  | snapshot =>
    refine ⟨?_, h⟩
    show Reply.snapshot (.ok mρ.snapshot) = _
    rw [h.snapshot]
    rfl
  | receipt callId =>
    refine ⟨?_, h⟩
    show Reply.receipt (.ok ((mρ.receipts callId).map Prod.snd)) = _
    have hreceipt := h.receipts callId
    show _ = Reply.receipt (.ok (((m.receipts callId).map Prod.snd).map ρ.result))
    rcases hr : m.receipts callId with _ | p <;> rcases hrρ : mρ.receipts callId with _ | p' <;>
      rw [hr, hrρ] at hreceipt <;> cases hreceipt
    · rfl
    · next hsame =>
      simp only [Option.map_some, hsame.1]
  | claimFinalization =>
    simp only [Renaming.op, MemoryTodoListStore.call, MemoryTodoListStore.claimFinalization,
      h.snapshot,
      ρ.isEmpty_unfinished, h.finalization]
    split
    · exact ⟨rfl, h⟩
    · exact ⟨rfl, h.snapshot, h.receipts, rfl⟩

end Renaming

/-! ## Sequences of calls -/

namespace RedisTodoListStore

def replies (sessionId turnId : String) : Hash → List TodoOp → List Reply
  | _, [] => []
  | raw, op :: ops =>
    let (reply, raw') := call sessionId turnId raw op
    reply :: replies sessionId turnId raw' ops

end RedisTodoListStore

namespace MemoryTodoListStore

def replies (turnId : String) : MemoryTodoListStore → List TodoOp → List Reply
  | _, [] => []
  | m, op :: ops =>
    let (reply, m') := m.call turnId op
    reply :: replies turnId m' ops

end MemoryTodoListStore

variable {m mρ : MemoryTodoListStore} {raw : Hash} {sessionId turnId : String}

theorem call_represents (h : Represents raw m) (op : TodoOp) :
    Represents (call sessionId turnId raw op).2 (m.call turnId op).2 := by
  have hwrites : Writes (attempt sessionId turnId raw op).write m (m.call turnId op).2 :=
    (attempt_refines h op).2
  rw [call]
  rcases hw : (attempt sessionId turnId raw op).write with _ | raw' <;> rw [hw] at hwrites
  · have hwrites : (m.call turnId op).2 = m := hwrites
    rw [hwrites]
    exact h
  · exact hwrites

theorem replies_agree (ρ : Renaming) (ops : List TodoOp) (h : Represents raw m)
    (hρ : ρ.Renamed m mρ) :
    List.Forall₂ (fun r r' => (ρ.reply r).Agrees r')
      (RedisTodoListStore.replies sessionId turnId raw ops)
      (MemoryTodoListStore.replies turnId mρ (ops.map ρ.op)) := by
  induction ops generalizing raw m mρ with
  | nil => exact .nil
  | cons op ops ih =>
    obtain ⟨hreply, hrenamed⟩ := ρ.call_rename turnId hρ op
    have hhead : (ρ.reply (call sessionId turnId raw op).1).Agrees
        (mρ.call turnId (ρ.op op)).1 := by
      rw [hreply]
      exact ρ.agrees_reply (attempt_refines h op).1
    exact .cons hhead (ih (call_represents h op) hrenamed)

def sampleCall : UpdateCall :=
  ⟨"call-1", 0, [[("op", .str "add"), ("content", .str "Read the code"),
    ("status", .str "pending")]],
    ["todo_0123456789abcdef0123456789abcdef"]⟩

def sampleMoves : List (Move (TodoOp × Nat) Bool) :=
  [.call (.update sampleCall, 16), .call (.update sampleCall, 16), .advance 0 true,
    .advance 1 false,
    .advance 0 false, .call (.claimFinalization, 16), .advance 2 false]

/-- **The Todo stores.** Every interleaving of clients on Redis keeps the contract, and each step of
it changes the hash only for the first success of a call id or for the claimed finalization; on
every sequence of calls the memory store replies as Redis does, up to the generated ids. -/
theorem todo_store (sessionId turnId : String) :
    (∀ moves t, run (Todos.step sessionId turnId) ⟨.new, []⟩ moves = some t →
      Contract turnId t.shared ∧
      ∀ a t', Todos.step sessionId turnId t a = some t' → Quiet t.shared t'.shared) ∧
    ∀ (ρ : Renaming) (ops : List TodoOp),
      List.Forall₂ (fun r r' => (ρ.reply r).Agrees r')
        (RedisTodoListStore.replies sessionId turnId (fun _ => none) ops)
        (MemoryTodoListStore.replies turnId .new (ops.map ρ.op)) := by
  refine ⟨fun moves t hrun => ?_, fun ρ ops => replies_agree ρ ops represents_new ρ.renamed_new⟩
  have hbacked := run_backed hrun
  exact ⟨hbacked.contract, fun a t' hstep => (step_backed hbacked hstep).2⟩

/-- Two clients call with one call id: the first attempt of the second meets the write of the first,
and its next attempt replays the receipt. -/
theorem todo_store_two_clients :
    ∃ t, run (Todos.step "s" "t") ⟨.new, []⟩ sampleMoves = some t ∧
      t.shared.history.length = 3 ∧ Contract "t" t.shared := by
  obtain ⟨t, hrun, hlen⟩ : ∃ t, run (Todos.step "s" "t") ⟨.new, []⟩ sampleMoves = some t ∧
    t.shared.history.length = 3 := ⟨_, rfl, rfl⟩
  exact ⟨t, hrun, hlen, ((todo_store "s" "t").1 sampleMoves t hrun).1⟩

end MiniAgent.Todo
