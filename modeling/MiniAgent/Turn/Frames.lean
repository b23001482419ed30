import MiniAgent.Turn.Models

/-!
# Turn frames

The encoder of `runtime_state/frames.py`. `dataDeltaOperations` describes the change from one
`data` to the next as append-only operations, version by version, or rejects it (`none`);
`NodeFrame.between` is `NodeFrame.delta`. Each level of the source's nested loop is a function of
its own: a version, a Message, the Items of a Message, an Item. Comparisons are Python's `==`.
-/

namespace MiniAgent.Turn

open Lib

/-- One operation of a Turn delta. -/
inductive Op where
  | appendMessage (dataIdx messageIdx : Int) (message : Json)
  | appendItem (dataIdx messageIdx itemIdx : Int) (item : Json)
  | setItemStatus (dataIdx messageIdx itemIdx : Int) (status : String)
  | appendText (dataIdx messageIdx itemIdx : Int) (delta : String)
  deriving DecidableEq

/-! ## The nested diff -/

/-- The indices, counted from `i`, where two lists of one length differ. -/
def changedIdxs {α : Type} (same : α → α → Bool) : Nat → List α → List α → List Nat
  | i, b :: bs, a :: as =>
    if same b a then changedIdxs same (i + 1) bs as else i :: changedIdxs same (i + 1) bs as
  | _, _, _ => []

def pyEqB (b a : Json) : Bool := decide (Json.PyEq b a)

/-- `after[len(before):]`, when `after` starts with `before`. -/
def textAfter (before after : String) : Option String :=
  if before.toList.isPrefixOf after.toList then
    some (String.ofList (after.toList.drop before.toList.length))
  else none

/-- An Item that changed: its status alone, or text appended to it. -/
def itemDelta (dataIdx messageIdx itemIdx : Nat) (before after : Fields) : Option (List Op) :=
  let beforeFields := before.erase "status"
  let afterFields := after.erase "status"
  let statusChanged := !pyEqB ((before.get "status").getD .null) ((after.get "status").getD .null)
  match after.get "status" with
  | some (.str status) =>
    if pyEqB (.obj beforeFields) (.obj afterFields) && statusChanged && itemStatuses.contains status
    then some [.setItemStatus dataIdx messageIdx itemIdx status]
    else appendedText beforeFields afterFields
  | _ => appendedText beforeFields afterFields
where
  /-- What is left once `status` is popped: `text` alone may have grown. -/
  appendedText (beforeFields afterFields : Fields) : Option (List Op) :=
    if !pyEqB (.obj (beforeFields.erase "text")) (.obj (afterFields.erase "text"))
        || !hasType (beforeFields.erase "text") ["text", "reasoning"] then none
    else match beforeFields.get "text", afterFields.get "text" with
      | some (.str beforeText), some (.str afterText) =>
        (textAfter beforeText afterText).map fun delta =>
          [.appendText dataIdx messageIdx itemIdx delta]
      | _, _ => none

/-- The operations appending `items` from index `itemIdx` on. -/
def appendItems (dataIdx messageIdx : Nat) : Nat → List Json → List Op
  | _, [] => []
  | itemIdx, item :: items =>
    .appendItem dataIdx messageIdx itemIdx item :: appendItems dataIdx messageIdx
      (itemIdx + 1) items

def itemsDelta (dataIdx messageIdx : Nat) (before after : List Json) : Option (List Op) :=
  if pyEqB (.arr (after.take before.length)) (.arr before) then
    some (appendItems dataIdx messageIdx before.length (after.drop before.length))
  else if before.length ≠ after.length then none
  else match changedIdxs pyEqB 0 before after with
    | [itemIdx] => match before[itemIdx]?, after[itemIdx]? with
      | some (.obj b), some (.obj a) => itemDelta dataIdx messageIdx itemIdx b a
      | _, _ => none
    | _ => none

def messageDelta (dataIdx messageIdx : Nat) (before after : Fields) : Option (List Op) :=
  if before.get "role" != some (.str "assistant") || after.get "role" != some (.str "assistant")
  then none
  else if !pyEqB (.obj (before.erase "content")) (.obj (after.erase "content")) then none
  else match before.get "content", after.get "content" with
    | some (.arr b), some (.arr a) => itemsDelta dataIdx messageIdx b a
    | _, _ => none

/-- The operations appending `messages` from index `messageIdx` on. -/
def appendMessages (dataIdx : Nat) : Nat → List Fields → List Op
  | _, [] => []
  | messageIdx, message :: messages =>
    .appendMessage dataIdx messageIdx (.obj message) ::
      appendMessages dataIdx (messageIdx + 1) messages

def sameMessage (b a : Fields) : Bool := pyEqB (.obj b) (.obj a)

def versionDelta (dataIdx : Nat) (before after : List Fields) : Option (List Op) :=
  if pyEqB (versionJson before) (versionJson after) then some []
  else if before.length < after.length &&
      pyEqB (versionJson (after.take before.length)) (versionJson before) then
    some (appendMessages dataIdx before.length (after.drop before.length))
  else if before.length ≠ after.length then none
  else match changedIdxs sameMessage 0 before after with
    | [messageIdx] => match before[messageIdx]?, after[messageIdx]? with
      | some b, some a => messageDelta dataIdx messageIdx b a
      | _, _ => none
    | _ => none

/-- The version loop from index `dataIdx` on, over two lists of one length. -/
def versionDeltas : Nat → List (List Fields) → List (List Fields) → Option (List Op)
  | dataIdx, b :: bs, a :: as => do
    let ops ← versionDelta dataIdx b a
    let rest ← versionDeltas (dataIdx + 1) bs as
    pure (ops ++ rest)
  | _, _, _ => some []

def dataDeltaOperations (before after : List (List Fields)) : Option (List Op) :=
  if before.length ≠ after.length then none else versionDeltas 0 before after

/-! ## Frames -/

def turnIdentityFields : List String :=
  ["session_id", "id", "thread_id", "parent_session_id", "parent_id", "parent_thread_id"]

inductive NodeFrame where
  | snapshot (turn : RuntimeState)
  | delta (sessionId turnId : String) (revision : Int) (patch : Fields) (operations : List Op)

/-- The members of `after` that are new against `before`, identity and `data` apart. -/
def configPatch (before after : RuntimeState) : Fields :=
  after.configFields.filter fun p =>
    !turnIdentityFields.contains p.1 && !pyEqB ((before.configFields.get p.1).getD .null) p.2

/-- `NodeFrame.delta`. -/
def NodeFrame.between (before after : RuntimeState) (revision : Int) :
    Except Err (Option NodeFrame) :=
  if turnIdentityFields.any fun name =>
      !pyEqB ((before.configFields.get name).getD .null) ((after.configFields.get name).getD .null)
  then .error (.validation "Turn identity cannot change in a delta.")
  else match dataDeltaOperations before.data after.data with
    | none => .error (.validation "Turn streaming mutations must be append-only.")
    | some operations =>
      let patch := configPatch before after
      if patch.isEmpty && operations.isEmpty then .ok none
      else .ok (some (.delta after.sessionId after.id revision patch operations))

/-! ## The wire -/

/-- The JSON object of a frame. The server may add `agent_report_statuses` to a delta. -/
inductive WireFrame where
  | snapshot (revision : Int) (turn : Fields)
  | delta (sessionId turnId : String) (revision : Int) (patch : Option Json)
      (operations : Option (List Op)) (agentReportStatuses : Option Json)

/-- `NodeFrame.to_dict`: an empty patch and an empty operation list are left out. -/
def NodeFrame.toDict : NodeFrame → WireFrame
  | .snapshot turn => .snapshot 0 turn.toDict
  | .delta sessionId turnId revision patch operations =>
    .delta sessionId turnId revision (if patch.isEmpty then none else some (.obj patch))
      (if operations.isEmpty then none else some operations) none

end MiniAgent.Turn
