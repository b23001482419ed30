import MiniAgent.Turn.Browser

/-!
# The browser's Turn reducer

`applyRuntimeNodeFrame` of `runtimeNodeReducer.ts`: one baseline snapshot, then strictly ordered
deltas. The source copies `data` on the first write and mutates the copy of a Message's Items in
place; `previous` is never changed, so an operation here is a function from `data` to `data`. The
checks `itemsAt` makes once for each Message hold again on every later use, since no operation
changes the role of a Message or the kind of its content.
-/

namespace MiniAgent.Turn.Browser

open Lib

structure Accumulator where
  nodes : String → Option RuntimeStateNode
  revisions : String → Option Int

def runtimeNodeAccumulator : Accumulator := ⟨fun _ => none, fun _ => none⟩

/-! ## Patches -/

def patchFields : List String :=
  ["version", "firstKeptItemSize", "compactionId", "user", "provider_name", "model",
    "permission_mode", "running_mode", "usage", "cwd", "project_cwd", "timestamp", "status",
    "current_data_idx"]

def patchUsageOk (usage : Fields) : Bool :=
  usage.length == usageFields.length && usageFields.all fun name => isTokenCount (usage.get name)

/-- A number between the bounds. -/
def isWithin (lo hi : Rat) (value : Option Json) : Bool :=
  match value.bind Json.num? with
  | some q => lo ≤ q && q ≤ hi
  | none => false

/-- `context_length > output_length`, both integers. -/
def contextExceedsOutput (model : Fields) : Bool :=
  match jsInteger (model.get "context_length"), jsInteger (model.get "output_length") with
  | some c, some o => o < c
  | _, _ => false

def patchModelOk (model : Fields) : Bool :=
  reasoningEfforts.contains (jsStringOf (model.get "reasoning_effort"))
    && isText (model.get "current_model")
    && integerFrom 1 (model.get "context_length")
    && integerFrom 1 (model.get "output_length")
    && contextExceedsOutput model
    && thinkingModes.contains (jsStringOf (model.get "thinking"))
    && isWithin 0 2 (model.get "temperature")

/-- The cases of `validatePatchValue` that return. -/
def patchValueOk (name : String) (value : Json) : Bool :=
  match name with
  | "version" => value == .str turnProtocolVersion
  | "firstKeptItemSize" | "current_data_idx" => integerFrom 0 (some value)
  | "compactionId" | "provider_name" => isText (some value)
  | "user" | "cwd" | "project_cwd" | "timestamp" => isStr (some value)
  | "status" => nodeStatuses.contains (jsString value)
  | "permission_mode" => permissionModes.contains (jsString value)
  | "running_mode" => runningModes.contains (jsString value)
  | "usage" => isObject (some value) && patchUsageOk (objectValue (some value))
  | "model" => isObject (some value) && patchModelOk (objectValue (some value))
  | _ => false

def validatePatchValue (name : String) (value : Json) : Except String Unit :=
  require (patchValueOk name value) s!"Turn delta patch value is invalid for {name}"

def validatePatch : Fields → Except String Unit
  | [] => .ok ()
  | (name, value) :: rest => do
    require (patchFields.contains name) s!"Turn delta cannot patch {name}"
    validatePatchValue name value
    validatePatch rest

/-! ## Operations -/

/-- An index that is an integer and not negative. -/
def indexOf (idx : Int) (e : String) : Except String Nat :=
  if 0 ≤ idx then .ok idx.toNat else .error e

def messageAt (data : List (List Fields)) (d m : Nat) : Option Fields :=
  (data[d]?).bind fun version => version[m]?

/-- The Items an operation addresses. -/
def itemsAt (data : List (List Fields)) (d m : Nat) : Except String (List Json) :=
  match messageAt data d m with
  | some message =>
    if message.get "role" = some (.str "assistant") then
      match message.get "content" with
      | some (.arr items) => .ok items
      | _ => .error "Turn delta targets invalid assistant content"
    else .error "Turn delta targets invalid assistant content"
  | none => .error "Turn delta targets invalid assistant content"

/-- The Items of a Message replaced. -/
def setItems (data : List (List Fields)) (d m : Nat) (items : List Json) : List (List Fields) :=
  data.modify d fun version => version.modify m fun message => message.set "content" (.arr items)

def checkNewMessage (previous : Option Fields) (message : Fields) : Except String Unit := do
  let role := message.get "role"
  require (messageRoles.contains (jsStringOf role) && (arrayOf (message.get "content")).isSome)
    "Turn Message delta has an invalid role"
  let content := (arrayOf (message.get "content")).getD []
  require (!(isUser role && isUser (previous.bind fun m => m.get "role")))
    "Turn Message delta contains consecutive user Messages"
  whenever (isUser role) (require (userContentOk content) "Turn user Message delta is invalid")
  validateItems content

def applyAppendMessage (data : List (List Fields)) (d m : Nat) (message : Json) :
    Except String (List (List Fields)) :=
  match data[d]?, message with
  | some version, .obj message =>
    if m = version.length then do
      checkNewMessage version.getLast? message
      pure (data.set d (version ++ [message]))
    else .error "Turn Message delta is out of order"
  | _, _ => .error "Turn Message delta is out of order"

def newItemOk (item : Fields) : Bool :=
  isText (item.get "type") && itemStatuses.contains (jsStringOf (item.get "status"))

def applyAppendItem (items : List Json) (i : Nat) (item : Json) : Except String (List Json) :=
  if i = items.length then do
    require (isObject (some item) && newItemOk (objectValue (some item)))
      "Turn item delta is invalid"
    validateRetryItem item
    pure (items ++ [item])
  else .error "Turn item delta is out of order"

def applySetItemStatus (items : List Json) (i : Nat) (status : String) :
    Except String (List Json) := do
  require (itemStatuses.contains status) "Turn Item status delta is invalid"
  match items[i]? with
  | some (.obj item) => pure (items.set i (.obj (Fields.set item "status" (.str status))))
  | _ => .error "Turn Item status delta target is missing"

/-- A streaming Item with text appended. -/
def withText (item : Fields) (delta : String) : Except String Fields :=
  match item.get "text" with
  | some (.str text) =>
    if hasType item ["text", "reasoning"] then .ok (item.set "text" (.str (text ++ delta)))
    else .error "Turn text delta targets a non-streaming Item"
  | _ => .error "Turn text delta targets a non-streaming Item"

def applyAppendText (items : List Json) (i : Nat) (delta : String) : Except String (List Json) := do
  require (delta ≠ "") "Turn delta operation is invalid"
  match items[i]? with
  | some (.obj item) => do
    let grown ← withText item delta
    pure (items.set i (.obj grown))
  | _ => .error "Turn text delta targets a non-streaming Item"

/-- An operation on the Items of one Message. -/
def onItems (data : List (List Fields)) (dataIdx messageIdx itemIdx : Int)
    (f : List Json → Nat → Except String (List Json)) : Except String (List (List Fields)) := do
  let d ← indexOf dataIdx "Turn delta data index is invalid"
  let m ← indexOf messageIdx "Turn delta message index is invalid"
  let i ← indexOf itemIdx "Turn delta item index is invalid"
  let items ← itemsAt data d m
  let items' ← f items i
  pure (setItems data d m items')

def applyOperation (data : List (List Fields)) : Op → Except String (List (List Fields))
  | .appendMessage dataIdx messageIdx message => do
    let d ← indexOf dataIdx "Turn delta data index is invalid"
    let m ← indexOf messageIdx "Turn delta message index is invalid"
    applyAppendMessage data d m message
  | .appendItem dataIdx messageIdx itemIdx item =>
    onItems data dataIdx messageIdx itemIdx fun items i => applyAppendItem items i item
  | .setItemStatus dataIdx messageIdx itemIdx status =>
    onItems data dataIdx messageIdx itemIdx fun items i => applySetItemStatus items i status
  | .appendText dataIdx messageIdx itemIdx delta =>
    onItems data dataIdx messageIdx itemIdx fun items i => applyAppendText items i delta

def applyOperations : List (List Fields) → List Op → Except String (List (List Fields))
  | data, [] => .ok data
  | data, op :: ops => do
    let data' ← applyOperation data op
    applyOperations data' ops

theorem applyOperations_append {data data' : List (List Fields)} {ops ops' : List Op}
    (h : applyOperations data ops = .ok data') :
    applyOperations data (ops ++ ops') = applyOperations data' ops' := by
  induction ops generalizing data with
  | nil => cases h; rfl
  | cons op ops ih =>
    obtain ⟨d, hd, hrest⟩ := bind_ok.mp h
    simp only [List.cons_append, applyOperations, hd]
    exact ih hrest

/-! ## Frames -/

def jsTruthy : Json → Bool
  | .null => false
  | .bool b => b
  | .int n => n ≠ 0
  | .float q => q ≠ 0
  | .str s => s ≠ ""
  | .arr _ | .obj _ => true

def applyReportStatuses (fields : Fields) : Option Json → Except String Fields
  | none => .ok fields
  | some statuses => do
    require (isObject (some statuses) && (objectValue (some statuses)).all fun p =>
      ["success", "failed"].contains (jsString p.2)) "Turn Agent report metadata is invalid"
    pure (fields.set "agent_report_statuses" statuses)

/-- The patch of a frame, when there is one. -/
def applyPatch (fields : Fields) : Option Json → Except String Fields
  | none => .ok fields
  | some patch =>
    if jsTruthy patch then do
      require (isObject (some patch)) "Turn delta patch is invalid"
      validatePatch (objectValue (some patch))
      pure (fields.setAll (objectValue (some patch)))
    else .ok fields

/-- Whether a frame has neither a patched member nor an operation. -/
def isEmptyDelta (patch : Option Json) (operations : Option (List Op)) : Bool :=
  (objectValue patch).isEmpty && (operations.getD []).isEmpty

/-- The checks on the Turn a delta produced. -/
def checkResult (turn : RuntimeStateNode) : Except String Unit := do
  require (versionAt turn.data (turn.fields.get "current_data_idx")).isSome
    "Turn delta produced an invalid data index"
  require (turn.fields.get "status" == some (.str "running") || endsWithAssistant turn.data)
    "A non-running Turn must end with assistant"

def turnKey (sessionId turnId : String) : String := sessionId ++ ":" ++ turnId

def Accumulator.store (acc : Accumulator) (key : String) (turn : RuntimeStateNode)
    (revision : Int) : Accumulator :=
  ⟨Function.update acc.nodes key (some turn), Function.update acc.revisions key (some revision)⟩

def applySnapshot (acc : Accumulator) (revision : Int) (turn : Fields) :
    Except String (Accumulator × RuntimeStateNode) := do
  let key := turnKey (jsStringOf (turn.get "session_id")) (jsStringOf (turn.get "id"))
  require (revision == 0) "Turn snapshot revision must be zero"
  require (acc.revisions key).isNone "Turn received more than one baseline snapshot"
  let node ← normalizeRuntimeNode turn
  pure (acc.store key node 0, node)

/-- The Turn a delta makes of `previous`. -/
def applyDelta (previous : RuntimeStateNode) (patch : Option Json)
    (operations : Option (List Op)) (agentReportStatuses : Option Json) :
    Except String RuntimeStateNode := do
  let fields ← applyReportStatuses previous.fields agentReportStatuses
  let fields ← applyPatch fields patch
  require (!isEmptyDelta patch operations) "Turn delta must contain a patch or operation"
  let data ← applyOperations previous.data (operations.getD [])
  checkResult ⟨fields, data⟩
  pure ⟨fields, data⟩

def applyRuntimeNodeFrame (acc : Accumulator) :
    WireFrame → Except String (Accumulator × RuntimeStateNode)
  | .snapshot revision turn => applySnapshot acc revision turn
  | .delta sessionId turnId revision patch operations agentReportStatuses =>
    let key := turnKey sessionId turnId
    match acc.nodes key with
    | none => .error "Turn delta arrived before its baseline snapshot"
    | some previous => do
      require (match acc.revisions key with
        | some r => revision == r + 1
        | none => false) "Turn delta revision is not consecutive"
      let turn ← applyDelta previous patch operations agentReportStatuses
      pure (acc.store key turn revision, turn)

/-- Frames applied one after the other, up to the first that is refused. -/
def applyFrames : Accumulator → List WireFrame → Except String Accumulator
  | acc, [] => .ok acc
  | acc, frame :: frames => do
    let (acc', _) ← applyRuntimeNodeFrame acc frame
    applyFrames acc' frames

theorem applyFrames_append {acc acc' acc'' : Accumulator} {frames : List WireFrame}
    {frame : WireFrame} {node : RuntimeStateNode} (h : applyFrames acc frames = .ok acc')
    (hf : applyRuntimeNodeFrame acc' frame = .ok (acc'', node)) :
    applyFrames acc (frames ++ [frame]) = .ok acc'' := by
  induction frames generalizing acc with
  | nil =>
    cases h
    simp only [List.nil_append, applyFrames, hf]
    rfl
  | cons f frames ih =>
    simp only [applyFrames, bind_ok] at h
    obtain ⟨p, hp, hrest⟩ := h
    simp only [List.cons_append, applyFrames, bind_ok]
    exact ⟨p, hp, ih hrest⟩

end MiniAgent.Turn.Browser
