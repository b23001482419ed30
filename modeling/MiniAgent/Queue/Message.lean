import MiniAgent.Lib.Json
import Mathlib.Data.List.DropRight
import Mathlib.Data.List.Sort
import Mathlib.Data.String.Basic

/-!
# Queued messages and envelopes

The contracts of `domain/message_queue.py`, and what the two queue implementations share: the merge
of the messages of a dispatch, and the fingerprints that tie a delivery id to what it delivers. A
fingerprint is the value whose canonical JSON text the source hashes.
-/

namespace MiniAgent.Queue

open Lib

/-- The failures of a queue, with their texts. -/
inductive QueueError where
  | unavailable (code : String)
  | itemNotFound (code : String)
  | itemConflict (code : String)
  | itemStateConflict (code : String)
  | deliveryConflict (code : String)
  | valueError (text : String)
  | keyError
  deriving DecidableEq

/-! ## References -/

/-- `str.isspace`. -/
def isPySpace (c : Char) : Bool :=
  (0x09 ≤ c.val ∧ c.val ≤ 0x0D) ∨ (0x1C ≤ c.val ∧ c.val ≤ 0x20) ∨ c.val = 0x85 ∨ c.val = 0xA0
    ∨ c.val = 0x1680 ∨ (0x2000 ≤ c.val ∧ c.val ≤ 0x200A) ∨ c.val = 0x2028 ∨ c.val = 0x2029
    ∨ c.val = 0x202F ∨ c.val = 0x205F ∨ c.val = 0x3000

/-- `str.strip`. -/
def strip (s : List Char) : List Char := (s.dropWhile isPySpace).rdropWhile isPySpace

/-- Whether `s.strip()` is empty. -/
def isBlank (s : String) : Bool := s.toList.all isPySpace

/-- `is_reference_path`, with POSIX absolute paths. -/
def isReferencePath (value : String) : Bool :=
  let scope := value.toList.takeWhile (· ≠ ':')
  let relative := (value.toList.dropWhile (· ≠ ':')).tail
  value ≠ "" && (value.toList.head? == some '/'
    || (value.toList.contains ':' && (scope == "workspace".toList || scope == "project".toList)
      && !relative.isEmpty && relative.head? != some '/' && relative.head? != some '\\'
      && !((relative.map fun c => if c = '\\' then '/' else c).splitOn '/').contains ['.', '.']
      && !relative.contains ':' && !relative.contains (Char.ofNat 0)))

/-- `FILE_SOURCES`. -/
def fileSources : List String := ["workspace", "project", "upload"]

/-- The text of `str(value or "")`; other than texts, what `str` makes of a true value is only known
not to be blank. -/
def textOf : Option Json → String
  | some (.str s) => s
  | some v => if v.truthy then "<value>" else ""
  | none => ""

def sourceOk (reference : Fields) : Bool := match reference.get "source" with
  | some (.str s) => fileSources.contains s
  | _ => false

def pathOk (reference : Fields) : Bool := match reference.get "path" with
  | some (.str s) => isReferencePath s
  | _ => false

def displayPathOk (reference : Fields) : Bool := match reference.get "display_path" with
  | some v => v.truthy
  | none => false

/-- A reference of a user message. -/
def userReferenceOk (reference : Fields) : Bool :=
  sourceOk reference && pathOk reference && displayPathOk reference

/-- A reference of an agent message: a bare path, or exactly the three members. -/
def agentReferenceOk (reference : Fields) : Bool :=
  let keys := (reference.map Prod.fst).insertionSort (· ≤ ·)
  (keys == ["path"] && pathOk reference)
    || (keys == ["display_path", "path", "source"] && userReferenceOk reference)

/-! ## Queued messages -/

inductive QueueMessageState where
  | pending | dispatched
  deriving DecidableEq, Repr

structure QueuedMessage where
  id : String
  threadId : String
  content : String
  references : List Fields
  state : QueueMessageState
  createdAt : String
  updatedAt : String
  deriving DecidableEq

namespace QueuedMessage

/-- `__post_init__`: the text of the first check that fails. -/
def check (m : QueuedMessage) : Option String :=
  if m.id = "" ∨ m.threadId = "" then some "QueuedMessage id and thread_id are required."
  else if isBlank m.content ∧ m.references = [] then
    some "QueuedMessage requires content or references."
  else if m.references.any fun r => !userReferenceOk r then
    some "QueuedMessage contains an invalid reference."
  else none

def isPending (m : QueuedMessage) : Bool := m.state == .pending

/-- `replace(item, state=.., updated_at=..)`. -/
def withState (m : QueuedMessage) (state : QueueMessageState) (now : String) : QueuedMessage :=
  { m with state := state, updatedAt := now }

/-- The text `_json(item.to_dict())`, as the message it describes: members in the order of their
keys. -/
def json (m : QueuedMessage) : QueuedMessage :=
  { m with references := m.references.map Json.sortKeysFields }

/-- `from_dict`: an empty time is replaced by the present one. -/
def fromDict (now : String) (m : QueuedMessage) : QueuedMessage :=
  { m with
    createdAt := if m.createdAt = "" then now else m.createdAt
    updatedAt := if m.updatedAt = "" then now else m.updatedAt }

end QueuedMessage

/-- The key a reference is merged by. -/
def referenceKey (reference : Fields) : String × String :=
  (textOf (reference.get "source"), textOf (reference.get "path"))

/-- The references without those whose key was seen before. -/
def mergeReferences (seen : List (String × String)) : List Fields → List Fields
  | [] => []
  | r :: rest =>
    if referenceKey r ∈ seen then mergeReferences seen rest
    else r :: mergeReferences (referenceKey r :: seen) rest

/-- `_merge`. -/
def merge (messages : List QueuedMessage) : String × List Fields :=
  ("\n\n".intercalate (messages.map QueuedMessage.content),
    mergeReferences [] (messages.flatMap QueuedMessage.references))

/-- `_same_create`. -/
def sameCreate (left right : QueuedMessage) : Bool :=
  left.id == right.id && left.threadId == right.threadId && left.content == right.content
    && decide (Json.PyEq (.arr (left.references.map .obj)) (.arr (right.references.map .obj)))

/-! ## Envelopes -/

inductive SenderKind where
  | user | agent | system
  deriving DecidableEq, Repr

inductive TargetKind where
  | turn | turnStart | thread | report
  deriving DecidableEq, Repr

structure MessageEnvelope where
  deliveryId : String
  senderKind : SenderKind
  sourceThreadId : String
  targetKind : TargetKind
  targetId : String
  sessionId : String
  threadId : String
  payload : Fields
  sourceMessageIds : List String
  createdAt : String
  correlationId : Option String
  attempts : Nat
  deriving DecidableEq

namespace MessageEnvelope

def content (e : MessageEnvelope) : String := textOf (e.payload.get "content")

def references (e : MessageEnvelope) : List Fields := match e.payload.get "references" with
  | some (.arr l) => l.filterMap fun
    | .obj f => some f
    | _ => none
  | _ => []

/-- `bool(payload.get("queued"))`. -/
def queued (e : MessageEnvelope) : Bool := match e.payload.get "queued" with
  | some v => v.truthy
  | none => false

/-- `__post_init__`: the text of the first check that fails. -/
def check (e : MessageEnvelope) : Option String :=
  if [e.deliveryId, e.sourceThreadId, e.targetId, e.sessionId, e.threadId].any (· = "") then
    some "MessageEnvelope identifiers are required."
  else if e.sourceMessageIds = [] ∨ ¬e.sourceMessageIds.Nodup then
    some "MessageEnvelope source_message_ids must be non-empty and unique."
  else if isBlank e.content ∧ e.references = [] then
    some "MessageEnvelope payload requires content or references."
  else if e.references.any fun r =>
      !(if e.senderKind = .agent then agentReferenceOk r else userReferenceOk r) then
    some "MessageEnvelope contains an invalid reference."
  else none

/-- The text `_json(envelope.to_dict())`, as the envelope it describes. -/
def json (e : MessageEnvelope) : MessageEnvelope :=
  { e with payload := Json.sortKeysFields e.payload }

/-- `from_dict`: an empty time is replaced by the present one, an empty correlation id by none. -/
def fromDict (now : String) (e : MessageEnvelope) : MessageEnvelope :=
  { e with
    createdAt := if e.createdAt = "" then now else e.createdAt
    correlationId := if e.correlationId = some "" then none else e.correlationId }

end MessageEnvelope

structure ClaimedEnvelope where
  streamId : Nat
  envelope : MessageEnvelope
  deriving DecidableEq

/-! ## Streams, fingerprints and receipts -/

/-- The mailbox of a Turn, the Turn-start commands, the mailbox of a Thread and the reports to
it. -/
inductive StreamKey where
  | turn (turnId : String)
  | turnStart
  | thread (threadId : String)
  | report (threadId : String)
  deriving DecidableEq

/-- `_envelope_stream_key`: the stream an acknowledgement looks in. -/
def MessageEnvelope.stream (e : MessageEnvelope) : StreamKey := match e.targetKind with
  | .turn => .turn e.targetId
  | .turnStart => .turnStart
  | .thread => .thread e.targetId
  | .report => .report e.targetId

inductive Fingerprint where
  | messages (threadId turnId : String) (messageIds : List String)
  | envelope (e : MessageEnvelope)
  deriving DecidableEq

/-- `_fingerprint`. -/
def fingerprint (threadId turnId : String) (messageIds : List String) : Fingerprint :=
  .messages threadId turnId (messageIds.insertionSort (· ≤ ·))

/-- `_envelope_fingerprint`. -/
def envelopeFingerprint (e : MessageEnvelope) : Fingerprint :=
  .envelope { e with attempts := 0 }.json

inductive ReceiptStatus where
  | dispatched | returned | acknowledged
  deriving DecidableEq, Repr

/-! ## Dispatches -/

/-- The arguments of `dispatch`. -/
structure Dispatch where
  deliveryId : String
  messageIds : List String
  sessionId : String
  threadId : String
  turnId : String
  correlationId : Option String
  commandPayload : Option Fields
  deriving DecidableEq

namespace Dispatch

def fingerprint (d : Dispatch) : Fingerprint :=
  Queue.fingerprint d.threadId d.turnId d.messageIds

/-- The stream the envelope is appended to. -/
def stream (d : Dispatch) : StreamKey :=
  if d.commandPayload.isSome then .turnStart else .turn d.turnId

/-- The envelope of a first dispatch, from the messages in queue order. -/
def envelope (d : Dispatch) (selected : List QueuedMessage) (now : String) : MessageEnvelope :=
  let (content, references) := merge selected
  let payload : Fields := [("content", .str content), ("references", .arr (references.map .obj))]
  { deliveryId := d.deliveryId
    senderKind := .user
    sourceThreadId := d.threadId
    targetKind := if d.commandPayload.isSome then .turnStart else .turn
    targetId := d.turnId
    sessionId := d.sessionId
    threadId := d.threadId
    payload := match d.commandPayload with
      | some command => (payload.setAll command).set "queued" (.bool true)
      | none => payload
    sourceMessageIds := selected.map QueuedMessage.id
    createdAt := now
    correlationId := d.correlationId
    attempts := 0 }

end Dispatch

/-! ## Texts -/

/-- What a message says. -/
abbrev Text := String × List Fields

def QueuedMessage.text (m : QueuedMessage) : Text := (m.content, m.references)

def MessageEnvelope.text (e : MessageEnvelope) : Text := (e.content, e.references)

/-- A merge looks at the texts only. -/
theorem merge_congr {l l' : List QueuedMessage}
    (h : l.map QueuedMessage.text = l'.map QueuedMessage.text) : merge l = merge l' := by
  have hc : l.map QueuedMessage.content = l'.map QueuedMessage.content := by
    have := congrArg (List.map Prod.fst) h
    rwa [List.map_map, List.map_map] at this
  have hr : l.map QueuedMessage.references = l'.map QueuedMessage.references := by
    have := congrArg (List.map Prod.snd) h
    rwa [List.map_map, List.map_map] at this
  rw [merge, merge, hc, List.flatMap_def, List.flatMap_def, hr]

theorem QueuedMessage.json_json (m : QueuedMessage) : m.json.json = m.json := by
  simp [QueuedMessage.json, Function.comp_def, Json.sortKeysFields_sortKeysFields]

theorem textOf_sortKeys (v : Option Json) : textOf (v.map Json.sortKeys) = textOf v := by
  cases v with
  | none => rfl
  | some v =>
    cases v with
    | arr l => simp only [Option.map_some, textOf, Json.sortKeys, ← Json.truthy_sortKeys (.arr l)]
    | obj l => simp only [Option.map_some, textOf, Json.sortKeys, ← Json.truthy_sortKeys (.obj l)]
    | _ => rfl

namespace MessageEnvelope

variable (e : MessageEnvelope)

theorem json_json : e.json.json = e.json := by
  simp [MessageEnvelope.json, Json.sortKeysFields_sortKeysFields]

@[simp] theorem content_json : e.json.content = e.content := by
  simp only [content, json, Json.get_sortKeysFields]
  exact textOf_sortKeys _

@[simp] theorem references_json : e.json.references = e.references.map Json.sortKeysFields := by
  simp only [references, json, Json.get_sortKeysFields]
  cases h : e.payload.get "references" with
  | none => rfl
  | some v =>
    cases v with
    | arr l =>
      simp only [Option.map_some, Json.sortKeys, Json.sortKeysList_eq_map,
        List.filterMap_map, List.map_filterMap]
      congr 1
      funext a
      cases a <;> rfl
    | _ => rfl

end MessageEnvelope

end MiniAgent.Queue
