import MiniAgent.Queue.Memory
import Mathlib.Data.List.Sort

/-!
# The Redis queue

The keyspace of `RedisMessageQueue`, the transactions and scripts that change it, and what the
client does between them. A stored JSON text is the value it describes, with its members in the
order of their keys. `version` counts the changes of a thread's messages hash: that is what `WATCH`
sees. An entry of a stream has an owner while it is in the pending list of the consumer group.

`RedisMessageQueue.call` is a call that no other client interrupts and in which no claim is stale.
-/

namespace MiniAgent.Queue

open Lib

/-- The fields of a receipt hash; a hash without fields does not exist. -/
structure RedisReceipt where
  fingerprint : Option Fingerprint
  status : Option ReceiptStatus
  attempts : Option Nat
  envelope : Option MessageEnvelope
  expires : Bool
  deriving DecidableEq

namespace RedisReceipt

def absent : RedisReceipt := ⟨none, none, none, none, false⟩

/-- Whether `hgetall` has a field. -/
def present (r : RedisReceipt) : Bool :=
  r.fingerprint.isSome || r.status.isSome || r.attempts.isSome || r.envelope.isSome

end RedisReceipt

/-! ## Scripts and their arguments -/

inductive ScriptReply where
  | created | duplicate | deliveryConflict | missing | stateConflict | queueChanged
  | acknowledged | missingReceipt
  deriving DecidableEq

/-- What a client makes of a reply. -/
def ScriptReply.error : ScriptReply → Option QueueError
  | .deliveryConflict => some (.deliveryConflict "delivery_id_conflict")
  | .missing => some (.itemNotFound "queued_message_not_found")
  | .stateConflict => some (.itemStateConflict "queued_message_dispatched")
  | .queueChanged => some (.itemConflict "queued_message_changed_during_dispatch")
  | _ => none

/-- A message of a dispatch: its id, the text that was read and the text to write. -/
structure Redispatch where
  id : String
  raw : QueuedMessage
  updated : QueuedMessage
  deriving DecidableEq

/-- The keys and arguments of `DISPATCH_SCRIPT`. -/
structure DispatchCall where
  deliveryId : String
  fingerprint : Fingerprint
  threadId : String
  items : List Redispatch
  envelope : MessageEnvelope
  stream : StreamKey
  deriving DecidableEq

/-! ## The keyspace -/

structure Redis where
  messages : String → String → Option QueuedMessage
  version : String → Nat
  order : String → List (String × Nat)
  sequence : String → Nat
  streams : StreamKey → List Entry
  receipts : String → RedisReceipt
  counter : Nat

namespace Redis

def new : Redis :=
  ⟨fun _ _ => none, fun _ => 0, fun _ => [], fun _ => 0, fun _ => [], fun _ => .absent, 0⟩

variable (r : Redis)

/-! ## Commands -/

def setMessage (threadId id : String) (value : Option QueuedMessage) : Redis :=
  { r with
    messages := Function.update r.messages threadId (Function.update (r.messages threadId) id value)
    version := Function.update r.version threadId (r.version threadId + 1) }

def hset (threadId id : String) (m : QueuedMessage) : Redis := r.setMessage threadId id (some m)

def hdel (threadId id : String) : Redis :=
  if (r.messages threadId id).isSome then r.setMessage threadId id none else r

/-- Members are ordered by their scores, then by name. -/
def scoreLe (a b : String × Nat) : Prop := a.2 < b.2 ∨ (a.2 = b.2 ∧ a.1 ≤ b.1)

instance : DecidableRel scoreLe := fun a b => by unfold scoreLe; infer_instance

def setOrder (threadId : String) (members : List (String × Nat)) : Redis :=
  { r with order := Function.update r.order threadId members }

def zadd (threadId id : String) (score : Nat) : Redis :=
  r.setOrder threadId (((r.order threadId).filter fun m => m.1 ≠ id).orderedInsert
    scoreLe (id, score))

def zrem (threadId id : String) : Redis :=
  r.setOrder threadId ((r.order threadId).filter fun m => m.1 ≠ id)

def zrange (threadId : String) : List String := (r.order threadId).map Prod.fst

def setSequence (threadId : String) (value : Nat) : Redis :=
  { r with sequence := Function.update r.sequence threadId value }

def setStream (key : StreamKey) (entries : List Entry) : Redis :=
  { r with streams := Function.update r.streams key entries }

def xadd (key : StreamKey) (e : MessageEnvelope) : Redis :=
  { r with
    counter := r.counter + 1
    streams := Function.update r.streams key (r.streams key ++ [⟨r.counter + 1, e, none⟩]) }

/-- `XACK` and `XDEL`. -/
def xdel (key : StreamKey) (streamId : Nat) : Redis :=
  r.setStream key ((r.streams key).filter fun e => e.streamId ≠ streamId)

def setReceipt (deliveryId : String) (receipt : RedisReceipt) : Redis :=
  { r with receipts := Function.update r.receipts deliveryId receipt }

/-- A new status, from when on the receipt expires. -/
def settle (deliveryId : String) (status : ReceiptStatus) : Redis :=
  r.setReceipt deliveryId { r.receipts deliveryId with status := some status, expires := true }

/-! ## Transactions and scripts -/

def createExec (item : QueuedMessage) (next : Nat) : Redis :=
  ((r.setSequence item.threadId next).hset item.threadId item.id item.json).zadd
    item.threadId item.id next

def deleteExec (threadId messageId : String) : Redis :=
  (r.hdel threadId messageId).zrem threadId messageId

/-- The first message that is not what the client read. -/
def changed (threadId : String) : List Redispatch → Option ScriptReply
  | [] => none
  | item :: rest => match r.messages threadId item.id with
    | none => some .missing
    | some m =>
      if m.state ≠ .pending then some .stateConflict
      else if m ≠ item.raw then some .queueChanged
      else changed threadId rest

def hsetAll (threadId : String) (writes : List (String × QueuedMessage)) : Redis :=
  writes.foldl (fun r w => r.hset threadId w.1 w.2) r

/-- The writes of `DISPATCH_SCRIPT`. -/
def dispatchExec (c : DispatchCall) : Redis :=
  ((r.hsetAll c.threadId (c.items.map fun item => (item.id, item.updated))).xadd c.stream
    c.envelope).setReceipt c.deliveryId ⟨some c.fingerprint, some .dispatched,
    some 0, some c.envelope, false⟩

/-- The part of `DISPATCH_SCRIPT` past the receipt. -/
def dispatchMessages (c : DispatchCall) : ScriptReply × Redis :=
  match r.changed c.threadId c.items with
  | some reply => (reply, r)
  | none => (.created, r.dispatchExec c)

def dispatchScript (c : DispatchCall) : ScriptReply × Redis :=
  match (r.receipts c.deliveryId).fingerprint with
  | some existing =>
    if existing ≠ c.fingerprint then (.deliveryConflict, r)
    else if (r.receipts c.deliveryId).status ≠ some .returned then (.duplicate, r)
    else r.dispatchMessages c
  | none => r.dispatchMessages c

def directDispatchScript (key : StreamKey) (fingerprint : Fingerprint) (e : MessageEnvelope) :
    ScriptReply × Redis :=
  match (r.receipts e.deliveryId).fingerprint with
  | some existing => if existing ≠ fingerprint then (.deliveryConflict, r) else (.duplicate, r)
  | none =>
    (.created, (r.xadd key e).setReceipt e.deliveryId
      ⟨some fingerprint, some .dispatched, some 0, some e, false⟩)

/-- The writes of `ACK_SCRIPT`. -/
def ackExec (deliveryId : String) (key : StreamKey) (streamId : Nat) (threadId : String)
    (ids : List String) : Redis :=
  (ids.foldl (fun r id => r.deleteExec threadId id) (r.xdel key streamId)).settle
    deliveryId .acknowledged

/-- `ACK_SCRIPT`; without ids it is `DIRECT_ACK_SCRIPT`. -/
def ackScript (deliveryId : String) (fingerprint : Fingerprint) (key : StreamKey) (streamId : Nat)
    (threadId : String) (ids : List String) : ScriptReply × Redis :=
  match (r.receipts deliveryId).fingerprint with
  | none => (.missingReceipt, r)
  | some existing =>
    if existing ≠ fingerprint then (.deliveryConflict, r)
    else if (r.receipts deliveryId).status = some .acknowledged then (.duplicate, r)
    else (.acknowledged, r.ackExec deliveryId key streamId threadId ids)

/-- The transaction of `release_turn` for one entry. -/
def releaseExec (turnId : String) (e : Entry) (writes : List (String × QueuedMessage)) : Redis :=
  ((r.hsetAll e.envelope.threadId writes).xdel (.turn turnId) e.streamId).settle
    e.envelope.deliveryId
    .returned

/-! ## Consumer groups -/

/-- The first entry that passes the test goes to the consumer. -/
def takeFirst (p : Entry → Bool) (consumer : String) : List Entry → Option (Entry × List Entry)
  | [] => none
  | e :: rest =>
    if p e then some (e, { e with owner := some consumer } :: rest)
    else (takeFirst p consumer rest).map fun q => (q.1, e :: q.2)

/-- `XPENDING`: the number of entries in the pending list. -/
def xpending (key : StreamKey) : Nat := (r.streams key).countP (·.owner.isSome)

/-- `XAUTOCLAIM`: the first entry of the pending list that has been idle for long enough. -/
def xautoclaim (key : StreamKey) (consumer : String) (stale : Entry → Bool) :
    Option (Entry × Redis) :=
  (takeFirst (fun e => e.owner.isSome && stale e) consumer (r.streams key)).map fun p =>
    (p.1, r.setStream key p.2)

/-- `XREADGROUP` of the next entry that was not delivered. -/
def xreadgroup (key : StreamKey) (consumer : String) : Option (Entry × Redis) :=
  (takeFirst (·.owner.isNone) consumer (r.streams key)).map fun p => (p.1, r.setStream key p.2)

/-- `HINCRBY` of the attempts. -/
def hincrby (deliveryId : String) : Nat × Redis :=
  let attempts := (r.receipts deliveryId).attempts.getD 0 + 1
  (attempts, r.setReceipt deliveryId { r.receipts deliveryId with attempts := some attempts })

end Redis

/-! ## The client between its commands -/

/-- What `create` makes of the text it reads: the message there, or none to go on. -/
def createRead (now : String) (item : QueuedMessage) (existing : Option QueuedMessage) :
    Except QueueError (Option QueuedMessage) :=
  match existing with
  | none => .ok none
  | some raw =>
    let current := raw.fromDict now
    if sameCreate current item then .ok (some current)
    else .error (.itemConflict "queued_message_id_conflict")

/-- The pending message `update` and `delete` ask for. -/
def pendingRead (now : String) (raw : Option QueuedMessage) : Except QueueError QueuedMessage :=
  match raw with
  | none => .error (.itemNotFound "queued_message_not_found")
  | some raw =>
    let current := raw.fromDict now
    if current.state ≠ .pending then .error (.itemStateConflict "queued_message_dispatched")
    else .ok current

def updateRead (now content : String) (references : List Fields) (raw : Option QueuedMessage) :
    Except QueueError QueuedMessage :=
  match pendingRead now raw with
  | .error error => .error error
  | .ok current =>
    let updated := { current with content := content, references := references, updatedAt := now }
    match updated.check with
    | some text => .error (.valueError text)
    | none => .ok updated

namespace Dispatch

variable (d : Dispatch) (now : String)

/-- What `dispatch` makes of the receipt: the envelope of a delivery that is out or acknowledged, or
that of a returned one to go on with. -/
def receiptRead (receipt : RedisReceipt) :
    Except QueueError (MessageEnvelope ⊕ Option MessageEnvelope) :=
  if d.messageIds = [] ∨ ¬d.messageIds.Nodup then
    .error (.itemConflict "message_ids_must_be_unique")
  else if receipt.present then
    if receipt.fingerprint ≠ some d.fingerprint then
      .error (.deliveryConflict "delivery_id_conflict")
    else match receipt.envelope with
      | some raw =>
        if receipt.status ≠ some .returned then .ok (.inl (raw.fromDict now))
        else .ok (.inr (some (raw.fromDict now)))
      | none => .ok (.inr none)
  else .ok (.inr none)

def canonicalIds (ordered : List String) : List String := ordered.filter fun id => id ∈ d.messageIds

/-- The envelope and the arguments of the script, from the messages that were read. `HMGET` asks for
at least one field. -/
def prepare (stored : Option MessageEnvelope) (ids : List String)
    (raw : List (Option QueuedMessage)) :
    Except QueueError (MessageEnvelope × DispatchCall) :=
  if ids = [] then .error (.unavailable "message_queue_unavailable")
  else if ids.length ≠ d.messageIds.length ∨ none ∈ raw then
    .error (.itemNotFound "queued_message_not_found")
  else
    let texts := raw.reduceOption
    let queued := texts.map (QueuedMessage.fromDict now)
    if queued.any fun item => item.threadId ≠ d.threadId then
      .error (.itemConflict "queued_message_thread_conflict")
    else if queued.any fun item => item.state ≠ .pending then
      .error (.itemStateConflict "queued_message_dispatched")
    else
      let fresh := { d.envelope queued now with sourceMessageIds := ids }
      match stored, fresh.check with
      | none, some text => .error (.valueError text)
      | _, _ =>
        let envelope := stored.getD fresh
        .ok (envelope,
          { deliveryId := d.deliveryId
            fingerprint := Queue.fingerprint d.threadId d.turnId ids
            threadId := d.threadId
            items := List.zipWith (fun id raw =>
              ⟨id, raw, ((raw.fromDict now).withState .dispatched now).json⟩) ids texts
            envelope := envelope.json
            stream := d.stream })

end Dispatch

/-- Whether `ack` takes the script that removes queued messages. -/
def MessageEnvelope.ackIds (e : MessageEnvelope) : List String :=
  if MemoryMessageQueue.consumes e then e.sourceMessageIds else []

/-- The fingerprint `ack` compares with that of the receipt. -/
def MessageEnvelope.ackFingerprint (e : MessageEnvelope) : Fingerprint :=
  if MemoryMessageQueue.consumes e then fingerprint e.threadId e.targetId e.sourceMessageIds
  else envelopeFingerprint e

/-- The text `release_turn` writes for a message it reads. -/
def releaseWrite (now id : String) (raw : Option QueuedMessage) : Option (String × QueuedMessage) :=
  raw.map fun m => (id, ((m.fromDict now).withState .pending now).json)

/-! ## Calls -/

namespace RedisMessageQueue

variable (r : Redis) (now : String)

def list (threadId : String) : List QueuedMessage :=
  ((r.zrange threadId).map (r.messages threadId)).reduceOption.map (QueuedMessage.fromDict now)

def create (item : QueuedMessage) : Except QueueError ((QueuedMessage × Bool) × Redis) :=
  match createRead now item (r.messages item.threadId item.id) with
  | .error error => .error error
  | .ok (some current) => .ok ((current, false), r)
  | .ok none => .ok ((item, true), r.createExec item (r.sequence item.threadId + 1))

def update (threadId messageId content : String) (references : List Fields) :
    Except QueueError (QueuedMessage × Redis) :=
  match updateRead now content references (r.messages threadId messageId) with
  | .error error => .error error
  | .ok updated => .ok (updated, r.hset threadId messageId updated.json)

def delete (threadId messageId : String) : Except QueueError Redis :=
  match pendingRead now (r.messages threadId messageId) with
  | .error error => .error error
  | .ok _ => .ok (r.deleteExec threadId messageId)

def dispatch (d : Dispatch) : Except QueueError (MessageEnvelope × Redis) :=
  match d.receiptRead now (r.receipts d.deliveryId) with
  | .error error => .error error
  | .ok (.inl envelope) => .ok (envelope, r)
  | .ok (.inr stored) =>
    let ids := d.canonicalIds (r.zrange d.threadId)
    match d.prepare now stored ids (ids.map (r.messages d.threadId)) with
    | .error error => .error error
    | .ok (envelope, call) =>
      let (reply, r') := r.dispatchScript call
      match reply.error with
      | some error => .error error
      | none => .ok (envelope, r')

/-- The three direct dispatches. -/
def dispatchDirect (sender : SenderKind) (target : TargetKind) (complaint : String)
    (e : MessageEnvelope) : Except QueueError (MessageEnvelope × Redis) :=
  if e.senderKind ≠ sender ∨ e.targetKind ≠ target then .error (.valueError complaint)
  else
    let (reply, r') := r.directDispatchScript e.stream (envelopeFingerprint e)
      { e with attempts := 0 }.json
    match reply.error with
    | some error => .error error
    | none => .ok (e, r')

def dispatchTurnStart (e : MessageEnvelope) : Except QueueError (MessageEnvelope × Redis) :=
  dispatchDirect r .user .turnStart
    "Turn-start dispatch requires sender_kind=user and target_kind=turn_start." e

def dispatchAgent (e : MessageEnvelope) : Except QueueError (MessageEnvelope × Redis) :=
  dispatchDirect r .agent .thread
    "Agent dispatch requires sender_kind=agent and target_kind=thread." e

def dispatchReport (e : MessageEnvelope) : Except QueueError (MessageEnvelope × Redis) :=
  dispatchDirect r .agent .report
    "Report dispatch requires sender_kind=agent and target_kind=report." e

/-- The claim of an entry that was read: its attempts are counted in the receipt. -/
def counted (p : Entry × Redis) : ClaimedEnvelope × Redis :=
  let (attempts, r) := p.2.hincrby p.1.envelope.deliveryId
  (⟨p.1.streamId, { p.1.envelope.fromDict now with attempts := attempts }⟩, r)

/-- `_claim_stream`: on recovery every entry of the pending list is idle for long enough. -/
def claimStream (key : StreamKey) (consumer : String) (recover : Bool) :
    Option ClaimedEnvelope × Redis :=
  match r.xautoclaim key consumer (fun _ => recover) with
  | some p => let (claimed, r') := counted now p; (some claimed, r')
  | none =>
    if r.xpending key > 0 then (none, r)
    else match r.xreadgroup key consumer with
      | some p => let (claimed, r') := counted now p; (some claimed, r')
      | none => (none, r)

def peekThread (threadId : String) : Option MessageEnvelope :=
  (r.streams (.thread threadId)).head?.map fun e => e.envelope.fromDict now

def ack (claimed : ClaimedEnvelope) : Except QueueError Redis :=
  let e := claimed.envelope
  let (reply, r') := r.ackScript e.deliveryId e.ackFingerprint e.stream claimed.streamId
    e.threadId e.ackIds
  match reply.error with
  | some error => .error error
  | none => .ok r'

/-- One entry of a released Turn. -/
def release (turnId : String) (r : Redis) (e : Entry) : Redis :=
  r.releaseExec turnId e (e.envelope.sourceMessageIds.filterMap fun id =>
    releaseWrite now id (r.messages e.envelope.threadId id))

def releaseTurn (turnId : String) : Redis := (r.streams (.turn turnId)).foldl (release now turnId) r

/-- One call on the Redis queue. -/
def call (s : Session Redis) : Op → Option (Reply × Session Redis)
  | .create item => some (s.reply (create s.queue now item) fun r => .created r.1 r.2)
  | .update threadId messageId content references =>
    some (s.reply (update s.queue now threadId messageId content references) .message)
  | .delete threadId messageId => some (s.replyUnit (delete s.queue now threadId messageId))
  | .list threadId => some (.messages (list s.queue now threadId), s)
  | .dispatch d => some (s.reply (dispatch s.queue now d) .envelope)
  | .dispatchTurnStart e => some (s.reply (dispatchTurnStart s.queue e) .envelope)
  | .dispatchAgent e => some (s.reply (dispatchAgent s.queue e) .envelope)
  | .dispatchReport e => some (s.reply (dispatchReport s.queue e) .envelope)
  | .claim turnId consumer =>
    some (s.replyClaim (claimStream s.queue now (.turn turnId) consumer false))
  | .claimThread threadId consumer =>
    some (s.replyClaim (claimStream s.queue now (.thread threadId) consumer false))
  | .claimThreadRecovery threadId consumer =>
    some (s.replyClaim (claimStream s.queue now (.thread threadId) consumer true))
  | .claimTurnStart consumer recover =>
    some (s.replyClaim (claimStream s.queue now .turnStart consumer recover))
  | .claimReport threadId consumer recover =>
    some (s.replyClaim (claimStream s.queue now (.report threadId) consumer recover))
  | .peekThread threadId => some (.peeked (peekThread s.queue now threadId), s)
  | .ack k => s.claims[k]?.map fun claimed => s.replyUnit (ack s.queue claimed)
  | .releaseTurn turnId => some (s.replyUnit (.ok (releaseTurn s.queue now turnId)))

end RedisMessageQueue

end MiniAgent.Queue
