import MiniAgent.Queue.Texts

/-!
# Likeness of messages and envelopes

Two queues that run side by side have clocks of their own, and one of them keeps JSON texts. `plain`
is a message or an envelope without its times and with the members of every object in the order of
their keys: two of them are alike when their plain forms are the same. The functions both queues
share do not tell alike arguments apart.
-/

namespace Lib

namespace Json

/-- Sorted members are determined by the lookups. -/
theorem sortKeysFields_congr {a b : Fields}
    (h : ∀ k, (Fields.get a k).map sortKeys = (Fields.get b k).map sortKeys) :
    sortKeysFields a = sortKeysFields b :=
  (sortedKeys_sortKeysFields a).ext (sortedKeys_sortKeysFields b) fun k => by
    rw [get_sortKeysFields, get_sortKeysFields, h]

theorem canonFields_insertKey (k : String) (v : Json) (l : Fields) :
    canonFields (insertKey k v l) = insertKey k (canon v) (canonFields l) := by
  refine (sortedKeys_canonFields _).ext (sortedKeys_insertKey (sortedKeys_canonFields l))
    fun k' => ?_
  rw [get_canonFields, get_insertKey, get_insertKey, get_canonFields]
  by_cases h : k = k' <;> simp [h]

mutual

/-- Python's equality does not see the order of members. -/
theorem canon_sortKeys : ∀ a : Json, canon (sortKeys a) = canon a
  | null | bool _ | int _ | float _ | str _ => rfl
  | arr l => by rw [sortKeys, canon, canon, canonList_sortKeysList l]
  | obj l => by rw [sortKeys, canon, canon, canonFields_sortKeysFields l]

theorem canonList_sortKeysList : ∀ l : List Json, canonList (sortKeysList l) = canonList l
  | [] => rfl
  | a :: l => by rw [sortKeysList, canonList, canonList, canon_sortKeys a, canonList_sortKeysList l]

theorem canonFields_sortKeysFields : ∀ l : Fields, canonFields (sortKeysFields l) = canonFields l
  | [] => rfl
  | (k, v) :: l => by
    rw [sortKeysFields, canonFields_insertKey, canonFields, canon_sortKeys v,
      canonFields_sortKeysFields l]

end

end Json

end Lib

namespace MiniAgent.Queue

open Lib

/-! ## Messages -/

namespace QueuedMessage

/-- Without times, members in the order of their keys. -/
def plain (m : QueuedMessage) : QueuedMessage := { m.json with createdAt := "", updatedAt := "" }

variable {a b : QueuedMessage}

@[simp] theorem plain_json (m : QueuedMessage) : m.json.plain = m.plain := by
  simp only [plain, json_json]

@[simp] theorem plain_fromDict (m : QueuedMessage) (now : String) :
    (m.fromDict now).plain = m.plain := rfl

theorem plain_id (h : a.plain = b.plain) : a.id = b.id :=
  (congrArg QueuedMessage.id h : a.plain.id = b.plain.id)

theorem plain_threadId (h : a.plain = b.plain) : a.threadId = b.threadId :=
  (congrArg QueuedMessage.threadId h : a.plain.threadId = b.plain.threadId)

theorem plain_state (h : a.plain = b.plain) : a.state = b.state :=
  (congrArg QueuedMessage.state h : a.plain.state = b.plain.state)

theorem plain_content (h : a.plain = b.plain) : a.content = b.content :=
  (congrArg QueuedMessage.content h : a.plain.content = b.plain.content)

theorem plain_references (h : a.plain = b.plain) :
    a.references.map Json.sortKeysFields = b.references.map Json.sortKeysFields :=
  (congrArg QueuedMessage.references h : a.plain.references = b.plain.references)

theorem plain_withState (h : a.plain = b.plain) (state : QueueMessageState) (now now' : String) :
    (a.withState state now).plain = (b.withState state now').plain :=
  (congrArg (fun m : QueuedMessage => { m with state := state }) h :
    { a.plain with state := state } = { b.plain with state := state })

/-- An edit of alike messages. -/
theorem plain_edit (h : a.plain = b.plain) (content : String) (references : List Fields)
    (now now' : String) :
    { a with content := content, references := references, updatedAt := now }.plain =
      { b with content := content, references := references, updatedAt := now' }.plain :=
  (congrArg (fun m : QueuedMessage =>
      { m with content := content, references := references.map Json.sortKeysFields }) h :
    { a.plain with content := content, references := references.map Json.sortKeysFields } =
      { b.plain with content := content, references := references.map Json.sortKeysFields })

theorem check_edit (h : a.plain = b.plain) (content : String) (references : List Fields)
    (now now' : String) :
    { a with content := content, references := references, updatedAt := now }.check =
      { b with content := content, references := references, updatedAt := now' }.check := by
  unfold check
  rw [plain_id h, plain_threadId h]

theorem pyEq_references (m : QueuedMessage) :
    Json.canon (.arr (m.references.map .obj)) =
      Json.canon (.arr ((m.references.map Json.sortKeysFields).map .obj)) := by
  simp only [Json.canon, Json.canonList_eq_map, List.map_map]
  congr 1
  refine List.map_congr_left fun f _ => ?_
  exact (Json.canon_sortKeys (.obj f)).symm

theorem sameCreate_plain (h : a.plain = b.plain) (item : QueuedMessage) :
    sameCreate a item = sameCreate b item := by
  have hp : Json.PyEq (.arr (a.references.map .obj)) (.arr (item.references.map .obj)) ↔
      Json.PyEq (.arr (b.references.map .obj)) (.arr (item.references.map .obj)) := by
    unfold Json.PyEq
    rw [pyEq_references a, pyEq_references b, plain_references h]
  unfold sameCreate
  rw [plain_id h, plain_threadId h, plain_content h, decide_eq_decide.mpr hp]

end QueuedMessage

theorem map_id_of_plain {l l' : List QueuedMessage}
    (h : l.map QueuedMessage.plain = l'.map QueuedMessage.plain) :
    l.map QueuedMessage.id = l'.map QueuedMessage.id := by
  have hid : ∀ l : List QueuedMessage,
      l.map QueuedMessage.id = (l.map QueuedMessage.plain).map QueuedMessage.id := by
    intro l
    rw [List.map_map]
    rfl
  rw [hid l, hid l', h]

/-! ## Merged messages -/

theorem referenceKey_sortKeys (f : Fields) :
    referenceKey (Json.sortKeysFields f) = referenceKey f := by
  simp only [referenceKey, Json.get_sortKeysFields, textOf_sortKeys]

theorem mergeReferences_sortKeys (seen : List (String × String)) (references : List Fields) :
    mergeReferences seen (references.map Json.sortKeysFields) =
      (mergeReferences seen references).map Json.sortKeysFields := by
  induction references generalizing seen with
  | nil => rfl
  | cons f references ih =>
    rw [List.map_cons, mergeReferences, mergeReferences, referenceKey_sortKeys]
    split
    · exact ih seen
    · rw [List.map_cons, ih]

theorem merge_json (messages : List QueuedMessage) :
    merge (messages.map QueuedMessage.json) =
      ((merge messages).1, (merge messages).2.map Json.sortKeysFields) := by
  rw [merge, merge, ← mergeReferences_sortKeys, List.map_map, List.map_flatMap]
  congr 1
  rw [List.flatMap_map]
  rfl

/-- Alike messages merge to alike texts. -/
theorem merge_plain {l l' : List QueuedMessage}
    (h : l.map QueuedMessage.plain = l'.map QueuedMessage.plain) :
    (merge l).1 = (merge l').1 ∧
      (merge l).2.map Json.sortKeysFields = (merge l').2.map Json.sortKeysFields := by
  have htext : (l.map QueuedMessage.json).map QueuedMessage.text =
      (l'.map QueuedMessage.json).map QueuedMessage.text := by
    have := congrArg (List.map QueuedMessage.text) h
    rw [List.map_map, List.map_map] at this ⊢
    exact this
  have hmerge := merge_congr htext
  rw [merge_json, merge_json] at hmerge
  exact Prod.mk.inj hmerge

/-! ## Envelopes -/

namespace MessageEnvelope

/-- Without its time, members in the order of their keys. -/
def plain (e : MessageEnvelope) : MessageEnvelope := { e.json with createdAt := "" }

/-- Without the count of its attempts too. -/
def base (e : MessageEnvelope) : MessageEnvelope := { e.plain with attempts := 0 }

variable {a b : MessageEnvelope}

@[simp] theorem plain_json (e : MessageEnvelope) : e.json.plain = e.plain := by
  simp only [plain, json_json]

@[simp] theorem base_json (e : MessageEnvelope) : e.json.base = e.base := by
  simp only [base, plain_json]

theorem base_of_plain (h : a.plain = b.plain) : a.base = b.base := by
  simp only [base, h]

/-- Reading an envelope with a correlation fills in its time at most. -/
theorem plain_fromDict (e : MessageEnvelope) (now : String) (h : e.correlationId ≠ some "") :
    (e.fromDict now).plain = e.plain := by
  simp only [plain, json, fromDict, if_neg h]

theorem base_deliveryId (h : a.base = b.base) : a.deliveryId = b.deliveryId :=
  (congrArg MessageEnvelope.deliveryId h : a.base.deliveryId = b.base.deliveryId)

theorem base_threadId (h : a.base = b.base) : a.threadId = b.threadId :=
  (congrArg MessageEnvelope.threadId h : a.base.threadId = b.base.threadId)

theorem base_targetId (h : a.base = b.base) : a.targetId = b.targetId :=
  (congrArg MessageEnvelope.targetId h : a.base.targetId = b.base.targetId)

theorem base_targetKind (h : a.base = b.base) : a.targetKind = b.targetKind :=
  (congrArg MessageEnvelope.targetKind h : a.base.targetKind = b.base.targetKind)

theorem base_ids (h : a.base = b.base) : a.sourceMessageIds = b.sourceMessageIds :=
  (congrArg MessageEnvelope.sourceMessageIds h : a.base.sourceMessageIds = b.base.sourceMessageIds)

theorem base_correlationId (h : a.base = b.base) : a.correlationId = b.correlationId :=
  (congrArg MessageEnvelope.correlationId h : a.base.correlationId = b.base.correlationId)

theorem base_payload (h : a.base = b.base) :
    Json.sortKeysFields a.payload = Json.sortKeysFields b.payload :=
  (congrArg MessageEnvelope.payload h : a.base.payload = b.base.payload)

theorem plain_of_base (h : a.base = b.base) (hn : a.attempts = b.attempts) : a.plain = b.plain :=
  calc a.plain = { a.base with attempts := a.attempts } := rfl
    _ = { b.base with attempts := b.attempts } := by rw [h, hn]
    _ = b.plain := rfl

theorem base_stream (h : a.base = b.base) : a.stream = b.stream := by
  unfold stream
  rw [base_targetKind h, base_targetId h]

theorem queued_json (e : MessageEnvelope) : e.json.queued = e.queued := by
  simp only [queued, json, Json.get_sortKeysFields]
  cases e.payload.get "queued" with
  | none => rfl
  | some v => exact Json.truthy_sortKeys v

theorem base_consumes (h : a.base = b.base) :
    MemoryMessageQueue.consumes a = MemoryMessageQueue.consumes b := by
  have hq : a.queued = b.queued := by
    rw [← queued_json a, ← queued_json b]
    unfold queued json
    rw [base_payload h]
  unfold MemoryMessageQueue.consumes
  rw [base_targetKind h, hq]

theorem userReferenceOk_sortKeys (f : Fields) :
    userReferenceOk (Json.sortKeysFields f) = userReferenceOk f := by
  unfold userReferenceOk sourceOk pathOk displayPathOk
  simp only [Json.get_sortKeysFields]
  congr 1
  · congr 1
    · cases f.get "source" with
      | none => rfl
      | some v => cases v <;> rfl
    · cases f.get "path" with
      | none => rfl
      | some v => cases v <;> rfl
  · cases f.get "display_path" with
    | none => rfl
    | some v => exact Json.truthy_sortKeys v

/-- Alike envelopes of users pass the same checks. -/
theorem check_plain (h : a.plain = b.plain) (hu : a.senderKind ≠ .agent) : a.check = b.check := by
  have hbase := base_of_plain h
  have hjson : a.json.content = b.json.content ∧ a.json.references = b.json.references := by
    unfold content references json
    rw [base_payload hbase]
    exact ⟨rfl, rfl⟩
  have hc : a.content = b.content := by rw [← content_json a, ← content_json b, hjson.1]
  have hr : a.references.map Json.sortKeysFields = b.references.map Json.sortKeysFields := by
    rw [← references_json a, ← references_json b, hjson.2]
  have hempty : a.references = [] ↔ b.references = [] := by
    rw [← List.map_eq_nil_iff (f := Json.sortKeysFields), hr, List.map_eq_nil_iff]
  have hsender : a.senderKind = b.senderKind :=
    (congrArg MessageEnvelope.senderKind h : a.plain.senderKind = b.plain.senderKind)
  have hsource : a.sourceThreadId = b.sourceThreadId :=
    (congrArg MessageEnvelope.sourceThreadId h : a.plain.sourceThreadId = b.plain.sourceThreadId)
  have hsession : a.sessionId = b.sessionId :=
    (congrArg MessageEnvelope.sessionId h : a.plain.sessionId = b.plain.sessionId)
  have hany : ∀ l : List Fields, (l.any fun f => !userReferenceOk f) =
      ((l.map Json.sortKeysFields).any fun f => !userReferenceOk f) := by
    intro l
    rw [List.any_map]
    congr 1
    funext f
    exact congrArg not (userReferenceOk_sortKeys f).symm
  have hbad : (a.references.any fun f => !userReferenceOk f) =
      (b.references.any fun f => !userReferenceOk f) := by
    rw [hany, hr, ← hany]
  unfold check
  simp only [← hsender, if_neg hu, ← hc, hempty, ← hsource, ← hsession, base_deliveryId hbase,
    base_targetId hbase, base_threadId hbase, base_ids hbase, hbad]

end MessageEnvelope

/-- Alike selections make alike envelopes. -/
theorem Dispatch.envelope_plain (d : Dispatch) {l l' : List QueuedMessage} (now now' : String)
    (h : l.map QueuedMessage.plain = l'.map QueuedMessage.plain) :
    (d.envelope l now).plain = (d.envelope l' now').plain := by
  obtain ⟨hc, hr⟩ := merge_plain h
  have hids := map_id_of_plain h
  have hbase : ∀ k, (Fields.get [("content", Json.str (merge l).1),
        ("references", .arr ((merge l).2.map .obj))] k).map Json.sortKeys =
      (Fields.get [("content", Json.str (merge l').1),
        ("references", .arr ((merge l').2.map .obj))] k).map Json.sortKeys := by
    intro k
    have harr : ∀ refs : List Fields, Json.sortKeys (.arr (refs.map .obj)) =
        .arr ((refs.map Json.sortKeysFields).map .obj) := by
      intro refs
      simp only [Json.sortKeys, Json.sortKeysList_eq_map, List.map_map]
      rfl
    simp only [Fields.get]
    split
    · rw [hc]
    · split
      · simp only [Option.map_some, harr, hr]
      · rfl
  have hpayload : Json.sortKeysFields (d.envelope l now).payload =
      Json.sortKeysFields (d.envelope l' now').payload := by
    refine Json.sortKeysFields_congr fun k => ?_
    cases hcmd : d.commandPayload with
    | none => simpa only [Dispatch.envelope, hcmd] using hbase k
    | some c =>
      simp only [Dispatch.envelope, hcmd, Fields.get_set, Fields.get_setAll]
      split
      · rfl
      · cases c.get k with
        | none => exact hbase k
        | some v => rfl
  unfold MessageEnvelope.plain MessageEnvelope.json
  rw [hpayload]
  simp only [Dispatch.envelope, hids]

end MiniAgent.Queue
