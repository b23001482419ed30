import MiniAgent.Todo.Store

/-!
# The hash of a Turn and the dictionaries in memory

`Represents raw m`: the hash holds what the dictionaries hold. An attempt on the hash answers as the
call in memory does, up to the text of an error, and where it writes, the new hash holds what the
dictionaries hold after the call (`attempt_refines`). So what is true of every sequence of calls in
memory is true of Redis, whose attempts that write nothing can be left out.
-/

namespace MiniAgent.Todo

open Lib Json RedisTodoListStore

variable {raw : Hash} {m : MemoryTodoListStore} {sessionId turnId : String} {c : UpdateCall}

/-! ## Fields -/

theorem receiptField_inj {a b : String} : receiptField a = receiptField b ↔ a = b := by
  constructor
  · intro h
    have := congrArg String.toList h
    simp only [receiptField, String.toList_append, List.append_cancel_left_eq] at this
    exact String.toList_injective this
  · rintro rfl; rfl

theorem receiptField_ne {k : String} (callId : String) (h : k.toList.take 8 ≠ "receipt:".toList) :
    receiptField callId ≠ k := by
  rintro rfl
  refine h ?_
  simp only [receiptField, String.toList_append]
  rfl

theorem hset_mapping_snapshot (raw : Hash) (c : UpdateCall) (result : TodoUpdateResult) :
    hset raw (mapping sessionId turnId c result) "snapshot" =
      some (sortKeys (.obj result.snapshot.toDict)) := by
  simp [hset, mapping, Fields.get_cons]

theorem hset_mapping_receipt (raw : Hash) (c : UpdateCall) (result : TodoUpdateResult)
    (callId : String) :
    hset raw (mapping sessionId turnId c result) (receiptField callId)
      = if callId = c.callId then some (receiptJson c.fingerprint result)
      else raw (receiptField callId) := by
  have h1 := (receiptField_ne callId (show "session_id".toList.take 8 ≠ _ by decide)).symm
  have h2 := (receiptField_ne callId (show "turn_id".toList.take 8 ≠ _ by decide)).symm
  have h3 := (receiptField_ne callId (show "revision".toList.take 8 ≠ _ by decide)).symm
  have h4 := (receiptField_ne callId (show "snapshot".toList.take 8 ≠ _ by decide)).symm
  simp only [hset, mapping, Fields.get_cons, h1, h2, h3, h4, if_false, receiptField_inj,
    Fields.get_nil,
    eq_comm (a := callId)]
  split <;> rfl

theorem hset_mapping_claimed (raw : Hash) (c : UpdateCall) (result : TodoUpdateResult) :
    hset raw (mapping sessionId turnId c result) "finalization_claimed" =
      raw "finalization_claimed" := by
  have h := receiptField_ne c.callId (show "finalization_claimed".toList.take 8 ≠ _ by decide)
  simp [hset, mapping, Fields.get_cons, h]

/-! ## Representation -/

structure Represents (raw : Hash) (m : MemoryTodoListStore) : Prop where
  snapshot : snapshotOf raw = .ok m.snapshot
  receipts : ∀ callId, raw (receiptField callId) = (m.receipts callId).map fun p =>
    receiptJson p.1 p.2
  /-- A stored result can be read back, and a fingerprint is a text with sorted keys. -/
  stored : ∀ callId fingerprint result, m.receipts callId = some (fingerprint, result) →
    sortKeys fingerprint = fingerprint ∧ ∀ d ∈ result.appliedOperations, d.Sorted
  claimed : (raw "finalization_claimed" == some (.str "1")) = m.finalization

theorem represents_new : Represents (fun _ => none) .new :=
  ⟨rfl, fun _ => rfl, fun _ _ _ h => (by cases h), rfl⟩

theorem resultOf_receipt {result : TodoUpdateResult} (fingerprint : Json)
    (h : ∀ d ∈ result.appliedOperations, d.Sorted) :
    resultOf (sortKeysFields [("fingerprint", fingerprint), ("result", .obj result.toDict)]) =
      .ok result := by
  simp only [resultOf, get_sortKeysFields, Fields.get_cons, sortKeys, objectOf, Option.map_some,
    Option.bind_some, TodoUpdateResult.fromDict_json h, orUnavailable, if_true,
    show ("fingerprint" = "result") = False by decide, if_false]

theorem snapshotOf_hset (raw : Hash) (c : UpdateCall) (result : TodoUpdateResult) :
    snapshotOf (hset raw (mapping sessionId turnId c result)) = .ok result.snapshot := by
  simp only [snapshotOf, hset_mapping_snapshot, sortKeys, objectOf, Option.bind_some,
    TodoSnapshot.fromDict_json, orUnavailable]

/-! ## Replies -/

/-- What a client can rely on: a value, or the code of an error. -/
def observed {α : Type} : Except StoreError α → Except String α
  | .ok a => .ok a
  | .error e => .error e.code

def Reply.Agrees : Reply → Reply → Prop
  | .update r, .update r' => observed r = observed r'
  | .snapshot r, .snapshot r' => observed r = observed r'
  | .receipt r, .receipt r' => observed r = observed r'
  | .claim r, .claim r' => observed r = observed r'
  | _, _ => False

/-- What an attempt writes is what the call does in memory. -/
def Writes (write : Option Hash) (m m' : MemoryTodoListStore) : Prop :=
  match write with
  | none => m' = m
  | some raw => Represents raw m'

theorem replay_agrees {fingerprint : Json} {result : TodoUpdateResult} (h : Represents raw m)
    (hr : m.receipts c.callId = some (fingerprint, result)) :
    replay c (receiptJson fingerprint result)
      = if fingerprint ≠ c.fingerprint then .error (.todo (.callIdConflict (some c.callId)))
      else .ok result := by
  obtain ⟨hsorted, hdicts⟩ := h.stored c.callId fingerprint result hr
  have hget : Fields.get (sortKeysFields [("fingerprint", fingerprint),
      ("result", .obj result.toDict)])
      "fingerprint" = some fingerprint := by
    simp [Fields.get_cons, hsorted]
  show (if Fields.get (sortKeysFields [("fingerprint", fingerprint),
    ("result", .obj result.toDict)])
      "fingerprint" ≠ some c.fingerprint then _ else _) = _
  rw [hget, resultOf_receipt fingerprint hdicts]
  simp only [ne_eq, Option.some.injEq]

theorem compute_represents (h : Represents raw m) (c : UpdateCall) : compute turnId c raw =
    if m.snapshot.revision ≠ c.expectedRevision then
      .error (.todo (.revisionConflict c.expectedRevision m.snapshot))
    else match applyTodoOperations m.snapshot c.operations c.generatedIds with
      | .error e => .error (.todo e)
      | .ok (updated, applied) => .ok ⟨turnId, updated, applied⟩ := by
  simp only [compute, h.snapshot]
  rfl

theorem update_refines (h : Represents raw m) (c : UpdateCall) :
    Reply.Agrees (.update (update sessionId turnId c raw).reply) (m.call turnId (.update c)).1 ∧
    Writes (update sessionId turnId c raw).write m (m.call turnId (.update c)).2 := by
  simp only [update, MemoryTodoListStore.call, MemoryTodoListStore.update]
  split
  · exact ⟨rfl, rfl⟩
  · rw [h.receipts]
    rcases hr : m.receipts c.callId with _ | ⟨fingerprint, result⟩
    · simp only [Option.map_none, compute_represents h]
      by_cases hrev : m.snapshot.revision = c.expectedRevision
      · simp only [hrev, ne_eq, not_true_eq_false, if_false]
        rcases happly : applyTodoOperations m.snapshot c.operations
          c.generatedIds with e | ⟨updated, applied⟩
        · exact ⟨rfl, rfl⟩
        · obtain ⟨-, hsorted⟩ := applyTodoOperations_ok happly
          refine ⟨rfl, snapshotOf_hset raw c _, fun callId => ?_, fun callId fp r hfp => ?_, ?_⟩
          · rw [hset_mapping_receipt]
            by_cases hid : callId = c.callId
            · subst hid; simp
            · simp [hid, h.receipts callId]
          · have hfp : Function.update m.receipts c.callId
                (some (c.fingerprint, ⟨turnId, updated, applied⟩)) callId
                = some (fp, r) := hfp
            by_cases hid : callId = c.callId
            · subst hid
              simp only [Function.update_self, Option.some.injEq, Prod.mk.injEq] at hfp
              obtain ⟨rfl, rfl⟩ := hfp
              exact ⟨sortKeys_sortKeys _, hsorted⟩
            · rw [Function.update_of_ne hid] at hfp
              exact h.stored callId fp r hfp
          · rw [hset_mapping_claimed]
            exact h.claimed
      · simp only [hrev, ne_eq, not_false_eq_true, if_true]
        exact ⟨rfl, rfl⟩
    · simp only [Option.map_some, replay_agrees h hr]
      split
      · exact ⟨rfl, rfl⟩
      · exact ⟨rfl, rfl⟩

theorem receipt_refines (h : Represents raw m) (callId : String) :
    RedisTodoListStore.receipt callId raw = .ok (m.receipt callId) := by
  rw [RedisTodoListStore.receipt, h.receipts, MemoryTodoListStore.receipt]
  rcases hr : m.receipts callId with _ | ⟨fingerprint, result⟩
  · rfl
  · obtain ⟨-, hdicts⟩ := h.stored callId fingerprint result hr
    simp only [Option.map_some, receiptJson, sortKeys, objectOf, orUnavailable]
    show (do
      let result ← resultOf
        (sortKeysFields [("fingerprint", fingerprint), ("result", .obj result.toDict)])
      pure (some result)) = _
    rw [resultOf_receipt fingerprint hdicts]
    rfl

theorem claimFinalization_refines (h : Represents raw m) :
    (RedisTodoListStore.claimFinalization raw).reply = .ok m.claimFinalization.1 ∧
    Writes (RedisTodoListStore.claimFinalization raw).write m m.claimFinalization.2 := by
  simp only [RedisTodoListStore.claimFinalization, h.snapshot, h.claimed,
    MemoryTodoListStore.claimFinalization]
  split
  · exact ⟨rfl, rfl⟩
  · refine ⟨rfl, ?_, fun callId => ?_, h.stored, by simp [hset, Fields.get_cons]⟩
    · have : snapshotOf (hset raw [("finalization_claimed", .str "1")]) = snapshotOf raw := by
        simp [snapshotOf, hset, Fields.get_cons]
      rw [this]
      exact h.snapshot
    · have hne := (receiptField_ne callId (show "finalization_claimed".toList.take 8 ≠ _ by
        decide)).symm
      have : hset raw [("finalization_claimed", .str "1")] (receiptField callId) =
          raw (receiptField callId) := by
        simp [hset, Fields.get_cons, hne]
      rw [this]
      exact h.receipts callId

/-- **An attempt on the hash is a call in memory.** -/
theorem attempt_refines (h : Represents raw m) (op : TodoOp) :
    (attempt sessionId turnId raw op).reply.Agrees (m.call turnId op).1 ∧
    Writes (attempt sessionId turnId raw op).write m (m.call turnId op).2 := by
  cases op with
  | update c => exact update_refines h c
  | snapshot => exact ⟨congrArg observed h.snapshot, rfl⟩
  | receipt callId => exact ⟨congrArg observed (receipt_refines h callId), rfl⟩
  | claimFinalization =>
    obtain ⟨hreply, hwrite⟩ := claimFinalization_refines h
    exact ⟨congrArg observed hreply, hwrite⟩

end MiniAgent.Todo
