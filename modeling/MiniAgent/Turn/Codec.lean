import MiniAgent.Lib.JsonText
import MiniAgent.Turn.RoundTrip

/-!
# The codec of a Turn

`to_dict` and `from_dict`, `to_json` and `runtime_node_from_dict` of `runtime_state/models.py`. A
constructed Turn is a fixed point of its constructor (`RuntimeState.fromDict_toDict`), and its text
is read back (`Json.loads_dumps`).
-/

namespace MiniAgent.Turn

open Lib

/-- `RuntimeRootState`. -/
structure RuntimeRootState where
  sessionId : String
  threadId : String
  id : String

inductive ParsedNode where
  | root (node : RuntimeRootState)
  | turn (state : RuntimeState)

/-- `set(raw) == {"session_id", "thread_id", "id"}`. -/
def isRootObject (raw : Fields) : Bool :=
  (["session_id", "thread_id", "id"].all fun name => (raw.map Prod.fst).contains name) &&
    (raw.map Prod.fst).all fun name => ["session_id", "thread_id", "id"].contains name

/-- `RuntimeRootState(...)`. -/
def rootPostInit (sessionId threadId id : String) : Except Err RuntimeRootState := do
  require (sessionId != "") (.validation "root session_id must be a non-empty string.")
  require (threadId != "") (.validation "root thread_id must be a non-empty string.")
  require (id != "") (.validation "root id must be a non-empty string.")
  require (threadId == sessionId) (.validation "A Session root must use thread_id == session_id.")
  pure ⟨sessionId, threadId, id⟩

def RuntimeRootState.fromDict (value : Json) : Except Err RuntimeRootState := do
  let raw ← mapping value "root Turn"
  require (isRootObject raw)
    (.validation "A root Turn must contain only session_id, thread_id, and id.")
  let sessionId ← stringField raw "session_id"
  let threadId ← stringField raw "thread_id"
  let id ← stringField raw "id"
  rootPostInit sessionId threadId id

def runtimeNodeFromDict (host : Host) (value : Json) : Except Err ParsedNode := do
  let raw ← mapping value "runtime node"
  if isRootObject raw then do
    let node ← RuntimeRootState.fromDict (.obj raw)
    pure (.root node)
  else do
    let state ← RuntimeState.fromDict host (.obj raw)
    pure (.turn state)

/-- `to_json`. -/
def RuntimeState.toJson (floats : Json.Floats) (s : RuntimeState) : Text :=
  Json.dumps floats (.obj s.toDict)

section Codec

variable {host : Host} {s : RuntimeState}

/-- A Turn has members that a root has not. -/
theorem isRootObject_toDict (s : RuntimeState) : isRootObject s.toDict = false := by
  rw [isRootObject, RuntimeState.keys_toDict]
  decide

theorem runtimeNodeFromDict_toDict (h : s.Wf host) :
    runtimeNodeFromDict host (.obj s.toDict) = .ok (.turn s) := by
  refine bind_ok.mpr ⟨s.toDict, rfl, ?_⟩
  rw [isRootObject_toDict, if_neg (by decide)]
  exact bind_ok.mpr ⟨s, RuntimeState.fromDict_toDict h, rfl⟩

/-- The payload of a Turn: its Messages are objects with distinct keys, through and through. -/
def DistinctPayload (s : RuntimeState) : Prop :=
  ∀ version ∈ s.data, ∀ message ∈ version, Json.DistinctKeys (.obj message)

theorem distinctElems_of {l : List Json} (h : ∀ a ∈ l, Json.DistinctKeys a) :
    Json.DistinctElems l := by
  induction l with
  | nil => trivial
  | cons a l ih =>
    obtain ⟨ha, hl⟩ := List.forall_mem_cons.mp h
    exact ⟨ha, ih hl⟩

theorem distinctMembers_of {f : Fields} (h : ∀ p ∈ f, Json.DistinctKeys p.2) :
    Json.DistinctMembers f := by
  induction f with
  | nil => trivial
  | cons p f ih =>
    obtain ⟨hp, hf⟩ := List.forall_mem_cons.mp h
    exact ⟨hp, ih hf⟩

theorem distinctKeys_dataJson (h : DistinctPayload s) : Json.DistinctKeys (dataJson s.data) := by
  refine distinctElems_of fun a ha => ?_
  obtain ⟨version, hversion, rfl⟩ := List.mem_map.mp ha
  refine distinctElems_of fun a ha => ?_
  obtain ⟨message, hmessage, rfl⟩ := List.mem_map.mp ha
  exact h version hversion message hmessage

theorem distinctKeys_toDict (h : DistinctPayload s) : Json.DistinctKeys (.obj s.toDict) := by
  have hmodel : Json.DistinctKeys (.obj s.model.toDict) := by
    refine ⟨by rw [keys_modelDict]; decide, distinctMembers_of ?_⟩
    simp [ModelConfig.toDict, Json.DistinctKeys]
  have husage : Json.DistinctKeys (.obj s.usage.toDict) := by
    have htoken : ∀ n, Json.DistinctKeys (tokenJson n) := by rintro (_ | n) <;> trivial
    refine ⟨?_, distinctMembers_of ?_⟩
    · show usageFields.Nodup
      decide
    · simp [Usage.toDict, htoken]
  refine ⟨by rw [RuntimeState.keys_toDict]; decide, distinctMembers_of fun p hp => ?_⟩
  rcases List.mem_append.mp hp with hp | hp
  · simp only [RuntimeState.configFields, List.mem_cons, List.not_mem_nil, or_false] at hp
    rcases hp with rfl | rfl | rfl | rfl | rfl | rfl | rfl | rfl | rfl | rfl | rfl | rfl | rfl |
      rfl | rfl | rfl | rfl | rfl | rfl | rfl
    case inr.inr.inr.inr.inr.inr.inr.inr.inr.inr.inr.inl => exact hmodel
    case inr.inr.inr.inr.inr.inr.inr.inr.inr.inr.inr.inr.inr.inr.inl => exact husage
    all_goals trivial
  · rw [List.mem_singleton.mp hp]
    exact distinctKeys_dataJson h

/-- **The codec of a Turn is the identity.** What the constructor accepts is read back from its
object and from its text, and validation changes nothing that it has accepted. -/
theorem turn_codec (floats : Json.Floats) {a : TurnArgs} (h : postInit host a = .ok s)
    (hpayload : DistinctPayload s) :
    RuntimeState.fromDict host (.obj s.toDict) = .ok s ∧
    (Json.loads floats (s.toJson floats)).map (runtimeNodeFromDict host) = some (.ok (.turn s)) ∧
    s.clone host = .ok s ∧
    (∀ value data, validateData value = .ok data → validateData (dataJson data) = .ok data) ∧
    ∀ content items, normalizeContent content = .ok items →
      normalizeContent (itemsJson items) = .ok items := by
  have hwf : s.Wf host := postInit_wf h
  refine ⟨RuntimeState.fromDict_toDict hwf, ?_, RuntimeState.clone_eq hwf,
    fun _ _ => validateData_again,
    fun _ _ => normalizeContent_idem⟩
  rw [RuntimeState.toJson, Json.loads_dumps _ (distinctKeys_toDict hpayload),
    Option.map_some, runtimeNodeFromDict_toDict hwf]

end Codec

/-! ## A Turn through its text -/

/-- The arguments of a finished Turn: the question is a plain string. -/
def sampleArgs : TurnArgs where
  threadId := "s1"
  parentThreadId := ""
  sessionId := "s1"
  parentSessionId := ""
  id := "t1"
  parentId := ""
  version := appVersion
  firstKeptItemSize := .int 8
  compactionId := ""
  user := "u"
  providerName := "p"
  model := []
  permissionMode := .str "read_only"
  runningMode := .str "agent"
  usage := []
  cwd := "/work"
  projectCwd := ""
  timestamp := "2026-01-01T00:00:00+00:00"
  status := .str "success"
  currentDataIdx := .int 0
  data := .arr [.arr [
    .obj [("role", .str "user"), ("content", .str "say \"hi\"\n")],
    .obj [("role", .str "assistant"), ("content", .arr [textItem "hi"])]]]

/-- The Turn that the constructor makes of them. -/
def sampleCodecTurn : RuntimeState where
  threadId := "s1"
  parentThreadId := ""
  sessionId := "s1"
  parentSessionId := ""
  id := "t1"
  parentId := ""
  version := appVersion
  firstKeptItemSize := 8
  compactionId := "t1"
  user := "u"
  providerName := "p"
  model := defaultModel
  permissionMode := .readOnly
  runningMode := .agent
  usage := ⟨none, none, none, none, none⟩
  cwd := "/work"
  projectCwd := ""
  timestamp := "2026-01-01T00:00:00+00:00"
  status := .success
  currentDataIdx := 0
  data := [[[("role", .str "user"), ("content", .arr [textItem "say \"hi\"\n"])],
    [("role", .str "assistant"), ("content", .arr [textItem "hi"])]]]

theorem turn_codec_sample :
    (Json.loads Json.Floats.ratio (sampleCodecTurn.toJson Json.Floats.ratio)).map
      (runtimeNodeFromDict Browser.sampleHost) =
      some (.ok (.turn sampleCodecTurn)) :=
  (turn_codec Json.Floats.ratio (a := sampleArgs) (by rfl) (by
    intro version hversion message hmessage
    cases List.mem_singleton.mp hversion
    simp only [List.mem_cons, List.not_mem_nil, or_false] at hmessage
    rcases hmessage with rfl | rfl <;>
      simp [Json.DistinctKeys, Json.DistinctMembers, Json.DistinctElems, textItem])).2.1

end MiniAgent.Turn
