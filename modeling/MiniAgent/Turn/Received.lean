import MiniAgent.Lib.Double
import MiniAgent.Turn.Frames

/-!
# What arrives in the browser

`chat.ts` reads each frame off the stream with `JSON.parse`, whose numbers are doubles: an integer
from `2 ^ 53` on may come out as another (`WireFrame.parsed`). The frames of a Turn whose integers
are safe arrive as they were sent (`received_of_safe`).
-/

namespace MiniAgent.Turn

open Lib

/-! ## Reading -/

def Op.parsed : Op → Op
  | .appendMessage dataIdx messageIdx message => .appendMessage dataIdx messageIdx message.rounded
  | .appendItem dataIdx messageIdx itemIdx item =>
    .appendItem dataIdx messageIdx itemIdx item.rounded
  | op => op

/-- `JSON.parse` of a frame. The revision and the positions count what is in memory and stay
exact. -/
def WireFrame.parsed : WireFrame → WireFrame
  | .snapshot revision turn => .snapshot revision (Json.roundedFields turn)
  | .delta sessionId turnId revision patch operations agentReportStatuses =>
    .delta sessionId turnId revision (patch.map Json.rounded) (operations.map (List.map Op.parsed))
      (agentReportStatuses.map Json.rounded)

/-- The frame the browser has of one that was sent. -/
def NodeFrame.received (frame : NodeFrame) : WireFrame := frame.toDict.parsed

/-! ## Safe integers -/

/-- Every integer of the Turn is a safe one. -/
def RuntimeState.Safe (s : RuntimeState) : Prop := Json.safe (.obj s.toDict) = true

def Op.Safe : Op → Prop
  | .appendMessage _ _ message => message.safe = true
  | .appendItem _ _ _ item => item.safe = true
  | _ => True

def NodeFrame.Safe : NodeFrame → Prop
  | .snapshot turn => turn.Safe
  | .delta _ _ _ patch operations => Json.safe (.obj patch) = true ∧ ∀ op ∈ operations, op.Safe

variable {s before after : RuntimeState} {op : Op} {ops : List Op} {d m i : Nat}

theorem Op.Safe.parsed (h : op.Safe) : op.parsed = op := by
  cases op with
  | appendMessage => exact congrArg _ (Json.rounded_of_safe h)
  | appendItem => exact congrArg _ (Json.rounded_of_safe h)
  | setItemStatus => rfl
  | appendText => rfl

theorem NodeFrame.received_of_safe {frame : NodeFrame} (h : frame.Safe) :
    frame.received = frame.toDict := by
  cases frame with
  | snapshot turn => exact congrArg _ (Json.roundedFields_of_safe h)
  | delta sessionId turnId revision patch ops =>
    obtain ⟨hpatch, hops⟩ := h
    have hpatched : Json.rounded (.obj patch) = .obj patch := Json.rounded_of_safe hpatch
    have hparsed : ops.map Op.parsed = ops :=
      (List.map_congr_left fun op hop => (hops op hop).parsed).trans (List.map_id ops)
    rw [received, toDict, WireFrame.parsed]
    congr 1
    · split
      · rfl
      · exact congrArg some hpatched
    · split
      · rfl
      · exact congrArg some hparsed

/-! ## Parts of a safe Turn -/

theorem RuntimeState.safe_iff :
    s.Safe ↔ Json.safe (.obj s.configFields) = true ∧ Json.safe (dataJson s.data) = true := by
  rw [Safe, Json.safe_obj, toDict, List.forall_mem_append, List.forall_mem_singleton, Json.safe_obj]

theorem RuntimeState.Safe.config (h : s.Safe) : ∀ p ∈ s.configFields, p.2.safe = true :=
  Json.safe_obj.mp (RuntimeState.safe_iff.mp h).1

theorem RuntimeState.Safe.message (h : s.Safe) {version : List Fields} {message : Fields}
    (hv : version ∈ s.data) (hm : message ∈ version) : Json.safe (.obj message) = true := by
  have hversion : Json.safe (versionJson version) = true :=
    Json.safe_arr.mp (RuntimeState.safe_iff.mp h).2 _ (List.mem_map_of_mem hv)
  exact Json.safe_arr.mp hversion _ (List.mem_map_of_mem hm)

theorem RuntimeState.Safe.patch (h : after.Safe) :
    Json.safe (.obj (configPatch before after)) = true :=
  Json.safe_obj.mpr fun p hp => h.config p (List.mem_of_mem_filter hp)

theorem safe_appendItems {items : List Json} (h : ∀ item ∈ items, item.safe = true) :
    ∀ op ∈ appendItems d m i items, op.Safe := by
  induction items generalizing i with
  | nil => exact fun _ hop => absurd hop List.not_mem_nil
  | cons item items ih =>
    rw [List.forall_mem_cons] at h
    exact List.forall_mem_cons.mpr ⟨h.1, ih h.2⟩

theorem safe_appendMessages {messages : List Fields}
    (h : ∀ message ∈ messages, Json.safe (.obj message) = true) :
    ∀ op ∈ appendMessages d m messages, op.Safe := by
  induction messages generalizing m with
  | nil => exact fun _ hop => absurd hop List.not_mem_nil
  | cons message messages ih =>
    rw [List.forall_mem_cons] at h
    exact List.forall_mem_cons.mpr ⟨h.1, ih h.2⟩

theorem safe_setItemStatus {dataIdx messageIdx itemIdx : Int} {status : String} :
    ∀ op ∈ [Op.setItemStatus dataIdx messageIdx itemIdx status], op.Safe :=
  List.forall_mem_singleton.mpr trivial

theorem safe_appendText {dataIdx messageIdx itemIdx : Int} {delta : String} :
    ∀ op ∈ [Op.appendText dataIdx messageIdx itemIdx delta], op.Safe :=
  List.forall_mem_singleton.mpr trivial

theorem safe_appendedText {b a : Fields} (h : itemDelta.appendedText d m i b a = some ops) :
    ∀ op ∈ ops, op.Safe := by
  unfold itemDelta.appendedText at h
  split at h
  · cases h
  split at h
  · obtain ⟨delta, -, rfl⟩ := Option.map_eq_some_iff.mp h
    exact safe_appendText
  · cases h

theorem safe_itemDelta {b a : Fields} (h : itemDelta d m i b a = some ops) :
    ∀ op ∈ ops, op.Safe := by
  unfold itemDelta at h
  dsimp only at h
  split at h
  · split at h
    · cases h
      exact safe_setItemStatus
    · exact safe_appendedText h
  · exact safe_appendedText h

theorem safe_itemsDelta {b a : List Json} (hsafe : ∀ item ∈ a, item.safe = true)
    (h : itemsDelta d m b a = some ops) :
    ∀ op ∈ ops, op.Safe := by
  unfold itemsDelta at h
  split at h
  · cases h
    exact safe_appendItems fun item hitem => hsafe item (List.mem_of_mem_drop hitem)
  split at h
  · cases h
  split at h
  · split at h
    · exact safe_itemDelta h
    · cases h
  · cases h

theorem safe_messageDelta {b a : Fields} (hsafe : Json.safe (.obj a) = true)
    (h : messageDelta d m b a = some ops) :
    ∀ op ∈ ops, op.Safe := by
  unfold messageDelta at h
  split at h
  · cases h
  split at h
  · cases h
  split at h
  · next items hb ha =>
    have hitems := Json.safe_obj.mp hsafe _ (Fields.mem_of_get ha)
    exact safe_itemsDelta (Json.safe_arr.mp hitems) h
  · cases h

theorem safe_versionDelta {b a : List Fields}
    (hsafe : ∀ message ∈ a, Json.safe (.obj message) = true) (h : versionDelta d b a = some ops) :
    ∀ op ∈ ops, op.Safe := by
  unfold versionDelta at h
  split at h
  · cases h
    exact fun _ hop => absurd hop List.not_mem_nil
  split at h
  · cases h
    exact safe_appendMessages fun message hmessage => hsafe message (List.mem_of_mem_drop hmessage)
  split at h
  · cases h
  split at h
  · split at h
    · next message hb ha => exact safe_messageDelta (hsafe _ (List.mem_of_getElem? ha)) h
    · cases h
  · cases h

/-- Operations carry Messages and Items of the later Turn. -/
theorem safe_versionDeltas {b a : List (List Fields)}
    (hsafe : ∀ version ∈ a, ∀ message ∈ version, Json.safe (.obj message) = true)
    (h : versionDeltas d b a = some ops) : ∀ op ∈ ops, op.Safe := by
  induction b generalizing d a ops with
  | nil =>
    cases h
    exact fun _ hop => absurd hop List.not_mem_nil
  | cons version b ih =>
    cases a with
    | nil =>
      cases h
      exact fun _ hop => absurd hop List.not_mem_nil
    | cons version' a =>
      rw [List.forall_mem_cons] at hsafe
      simp only [versionDeltas, Option.bind_eq_bind, Option.bind_eq_some_iff,
        Option.pure_def, Option.some.injEq] at h
      obtain ⟨first, hfirst, rest, hrest, rfl⟩ := h
      intro op hop
      rcases List.mem_append.mp hop with hop | hop
      · exact safe_versionDelta hsafe.1 hfirst op hop
      · exact ih hsafe.2 hrest op hop

end MiniAgent.Turn
