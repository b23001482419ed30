import MiniAgent.Queue.Message
import Mathlib.Logic.Function.Basic

/-!
# The in-memory queue

`MemoryMessageQueue`: queues as lists, streams as lists of entries, one receipt for each delivery
id. Every call runs under one lock, so a call is a function of the state; `now` is what
`queue_utc_now` gives in it. A call that raises leaves the state as it was.
-/

namespace MiniAgent.Queue

open Lib

structure Entry where
  streamId : Nat
  envelope : MessageEnvelope
  owner : Option String
  deriving DecidableEq

structure Receipt where
  fingerprint : Fingerprint
  status : ReceiptStatus
  envelope : MessageEnvelope
  deriving DecidableEq

structure MemoryMessageQueue where
  queues : String → List QueuedMessage
  streams : StreamKey → List Entry
  receipts : String → Option Receipt
  counter : Nat

/-- The first element that passes the test is replaced. -/
def replaceFirst {α : Type} (p : α → Bool) (f : α → α) : List α → List α
  | [] => []
  | a :: l => if p a then f a :: l else a :: replaceFirst p f l

namespace MemoryMessageQueue

def new : MemoryMessageQueue := ⟨fun _ => [], fun _ => [], fun _ => none, 0⟩

variable (q : MemoryMessageQueue)

def setQueue (threadId : String) (items : List QueuedMessage) : MemoryMessageQueue :=
  { q with queues := Function.update q.queues threadId items }

def setStream (key : StreamKey) (entries : List Entry) : MemoryMessageQueue :=
  { q with streams := Function.update q.streams key entries }

def setReceipt (deliveryId : String) (receipt : Receipt) : MemoryMessageQueue :=
  { q with receipts := Function.update q.receipts deliveryId (some receipt) }

/-! ## Messages -/

def list (threadId : String) : List QueuedMessage := q.queues threadId

def create (item : QueuedMessage) :
    Except QueueError ((QueuedMessage × Bool) × MemoryMessageQueue) :=
  let items := q.queues item.threadId
  match items.find? (·.id == item.id) with
  | some existing =>
    if sameCreate existing item then .ok ((existing, false), q)
    else .error (.itemConflict "queued_message_id_conflict")
  | none => .ok ((item, true), q.setQueue item.threadId (items ++ [item]))

def update (now threadId messageId content : String) (references : List Fields) :
    Except QueueError (QueuedMessage × MemoryMessageQueue) :=
  let items := q.queues threadId
  match items.find? (·.id == messageId) with
  | none => .error (.itemNotFound "queued_message_not_found")
  | some item =>
    if item.state ≠ .pending then .error (.itemStateConflict "queued_message_dispatched")
    else
      let updated := { item with content := content, references := references, updatedAt := now }
      match updated.check with
      | some text => .error (.valueError text)
      | none => .ok (updated,
          q.setQueue threadId (replaceFirst (·.id == messageId) (fun _ => updated) items))

def delete (threadId messageId : String) : Except QueueError MemoryMessageQueue :=
  let items := q.queues threadId
  match items.find? (·.id == messageId) with
  | none => .error (.itemNotFound "queued_message_not_found")
  | some item =>
    if item.state ≠ .pending then .error (.itemStateConflict "queued_message_dispatched")
    else .ok (q.setQueue threadId (items.eraseP (·.id == messageId)))

/-! ## Dispatches -/

/-- An entry at the end of a stream, under the next id, and the receipt of its delivery. -/
def append (key : StreamKey) (envelope : MessageEnvelope) (fingerprint : Fingerprint) :
    MemoryMessageQueue :=
  { q with
    counter := q.counter + 1
    streams := Function.update q.streams key (q.streams key ++ [⟨q.counter + 1, envelope, none⟩])
    receipts := Function.update q.receipts envelope.deliveryId
      (some ⟨fingerprint, .dispatched, envelope⟩) }

/-- The messages that are named are marked. -/
def mark (threadId : String) (ids : List String) (state : QueueMessageState) (now : String) :
    MemoryMessageQueue :=
  q.setQueue threadId ((q.queues threadId).map fun item =>
    if item.id ∈ ids then item.withState state now else item)

/-- The part of `dispatch` past the receipt: `stored` is the envelope of a returned delivery. -/
def dispatchMessages (now : String) (d : Dispatch) (stored : Option MessageEnvelope) :
    Except QueueError (MessageEnvelope × MemoryMessageQueue) :=
  let selected := (q.queues d.threadId).filter fun item => item.id ∈ d.messageIds
  if selected.length ≠ d.messageIds.length then .error (.itemNotFound "queued_message_not_found")
  else if selected.any fun item => item.state ≠ .pending then
    .error (.itemStateConflict "queued_message_dispatched")
  else
    let fresh := d.envelope selected now
    match stored, fresh.check with
    | none, some text => .error (.valueError text)
    | _, _ =>
      let envelope := stored.getD fresh
      .ok (envelope,
        (q.mark d.threadId envelope.sourceMessageIds .dispatched now).append d.stream envelope
          d.fingerprint)

def dispatch (now : String) (d : Dispatch) :
    Except QueueError (MessageEnvelope × MemoryMessageQueue) :=
  match q.receipts d.deliveryId with
  | some receipt =>
    if receipt.fingerprint ≠ d.fingerprint then .error (.deliveryConflict "delivery_id_conflict")
    else if receipt.status ≠ .returned then .ok (receipt.envelope, q)
    else q.dispatchMessages now d (some receipt.envelope)
  | none => q.dispatchMessages now d none

/-- The three direct dispatches: the kinds they ask for, and their complaint. -/
def dispatchDirect (sender : SenderKind) (target : TargetKind) (complaint : String)
    (e : MessageEnvelope) : Except QueueError (MessageEnvelope × MemoryMessageQueue) :=
  if e.senderKind ≠ sender ∨ e.targetKind ≠ target then .error (.valueError complaint)
  else match q.receipts e.deliveryId with
    | some receipt =>
      if receipt.fingerprint ≠ envelopeFingerprint e then
        .error (.deliveryConflict "delivery_id_conflict")
      else .ok (receipt.envelope, q)
    | none =>
      let canonical := { e with attempts := 0 }
      .ok (canonical, q.append e.stream canonical (envelopeFingerprint e))

def dispatchTurnStart (e : MessageEnvelope) :
    Except QueueError (MessageEnvelope × MemoryMessageQueue) :=
  q.dispatchDirect .user .turnStart
    "Turn-start dispatch requires sender_kind=user and target_kind=turn_start." e

def dispatchAgent (e : MessageEnvelope) :
    Except QueueError (MessageEnvelope × MemoryMessageQueue) :=
  q.dispatchDirect .agent .thread
    "Agent dispatch requires sender_kind=agent and target_kind=thread." e

def dispatchReport (e : MessageEnvelope) :
    Except QueueError (MessageEnvelope × MemoryMessageQueue) :=
  q.dispatchDirect .agent .report
    "Report dispatch requires sender_kind=agent and target_kind=report." e

/-! ## Claims -/

/-- The first entry without an owner, or the first of all on recovery, is claimed. -/
def claimFirst (consumer : String) (recover : Bool) :
    List Entry → Option (ClaimedEnvelope × List Entry)
  | [] => none
  | e :: rest =>
    if e.owner.isNone || recover then
      let claimed := { e.envelope with attempts := e.envelope.attempts + 1 }
      some (⟨e.streamId, claimed⟩, ⟨e.streamId, claimed, some consumer⟩ :: rest)
    else (claimFirst consumer recover rest).map fun p => (p.1, e :: p.2)

def claimStream (key : StreamKey) (consumer : String) (recover : Bool) :
    Option ClaimedEnvelope × MemoryMessageQueue :=
  match claimFirst consumer recover (q.streams key) with
  | some (claimed, entries) => (some claimed, q.setStream key entries)
  | none => (none, q)

def claim (turnId consumer : String) : Option ClaimedEnvelope × MemoryMessageQueue :=
  q.claimStream (.turn turnId) consumer false

def claimTurnStart (consumer : String) (recover : Bool) :
    Option ClaimedEnvelope × MemoryMessageQueue :=
  q.claimStream .turnStart consumer recover

def claimThread (threadId consumer : String) : Option ClaimedEnvelope × MemoryMessageQueue :=
  q.claimStream (.thread threadId) consumer false

def claimThreadRecovery (threadId consumer : String) :
    Option ClaimedEnvelope × MemoryMessageQueue :=
  q.claimStream (.thread threadId) consumer true

def claimReport (threadId consumer : String) (recover : Bool) :
    Option ClaimedEnvelope × MemoryMessageQueue :=
  q.claimStream (.report threadId) consumer recover

def peekThread (threadId : String) : Option MessageEnvelope :=
  (q.streams (.thread threadId)).head?.map Entry.envelope

/-! ## Acknowledgements and returns -/

/-- Messages leave the queue. -/
def remove (threadId : String) (ids : List String) : MemoryMessageQueue :=
  q.setQueue threadId ((q.queues threadId).filter fun item => item.id ∉ ids)

/-- The receipt of a delivery gets a new status; `none` where Python has a `KeyError`. -/
def settle (deliveryId : String) (status : ReceiptStatus) : Option MemoryMessageQueue :=
  (q.receipts deliveryId).map fun receipt =>
    q.setReceipt deliveryId { receipt with status := status }

/-- Whether an acknowledgement also consumes queued messages. -/
def consumes (e : MessageEnvelope) : Bool := match e.targetKind with
  | .thread | .report => false
  | .turnStart => e.queued
  | .turn => true

def ack (claimed : ClaimedEnvelope) : Except QueueError MemoryMessageQueue :=
  let e := claimed.envelope
  let q₁ := q.setStream e.stream ((q.streams e.stream).filter fun item =>
    item.streamId ≠ claimed.streamId)
  let q₂ := if consumes e then q₁.remove e.threadId e.sourceMessageIds else q₁
  match q₂.settle e.deliveryId .acknowledged with
  | some q₃ => .ok q₃
  | none => .error .keyError

/-- One entry of a released Turn. -/
def release (now : String) (q : MemoryMessageQueue) (e : Entry) : Option MemoryMessageQueue :=
  (q.mark e.envelope.threadId e.envelope.sourceMessageIds .pending now).settle e.envelope.deliveryId
    .returned

def releaseTurn (now turnId : String) : Except QueueError MemoryMessageQueue :=
  match (q.streams (.turn turnId)).foldlM (release now) (q.setStream (.turn turnId) []) with
  | some q' => .ok q'
  | none => .error .keyError

end MemoryMessageQueue

/-! ## The shared interface -/

/-- A call of the queue interface; `ack k` acknowledges the `k`-th claim ever returned. -/
inductive Op where
  | create (item : QueuedMessage)
  | update (threadId messageId content : String) (references : List Fields)
  | delete (threadId messageId : String)
  | list (threadId : String)
  | dispatch (d : Dispatch)
  | dispatchTurnStart (e : MessageEnvelope)
  | dispatchAgent (e : MessageEnvelope)
  | dispatchReport (e : MessageEnvelope)
  | claim (turnId consumer : String)
  | claimThread (threadId consumer : String)
  | claimThreadRecovery (threadId consumer : String)
  | claimTurnStart (consumer : String) (recover : Bool)
  | claimReport (threadId consumer : String) (recover : Bool)
  | peekThread (threadId : String)
  | ack (k : Nat)
  | releaseTurn (turnId : String)

inductive Reply where
  | created (item : QueuedMessage) (isNew : Bool)
  | message (item : QueuedMessage)
  | messages (items : List QueuedMessage)
  | envelope (e : MessageEnvelope)
  | claimed (c : Option ClaimedEnvelope)
  | peeked (e : Option MessageEnvelope)
  | done
  | raised (error : QueueError)

/-- A queue and the claims it has returned so far. -/
structure Session (σ : Type) where
  queue : σ
  claims : List ClaimedEnvelope

namespace Session

variable {σ : Type} (s : Session σ)

/-- The reply and the state of a call that may raise. -/
def reply {α : Type} (r : Except QueueError (α × σ)) (f : α → Reply) : Reply × Session σ :=
  match r with
  | .ok (a, q) => (f a, { s with queue := q })
  | .error error => (.raised error, s)

def replyUnit (r : Except QueueError σ) : Reply × Session σ :=
  match r with
  | .ok q => (.done, { s with queue := q })
  | .error error => (.raised error, s)

/-- A claim is kept for a later acknowledgement. -/
def replyClaim (r : Option ClaimedEnvelope × σ) : Reply × Session σ :=
  (.claimed r.1, ⟨r.2, s.claims ++ r.1.toList⟩)

variable {s} {P : Session σ → Prop}

/-- A call that may raise keeps what holds of the state and of every state it may return. -/
theorem reply_kept {α : Type} {r : Except QueueError (α × σ)} {f : α → Reply} (hs : P s)
    (h : ∀ a q, r = .ok (a, q) → P { s with queue := q }) : P (s.reply r f).2 := by
  cases r with
  | ok p => exact h p.1 p.2 rfl
  | error error => exact hs

theorem replyUnit_kept {r : Except QueueError σ} (hs : P s)
    (h : ∀ q, r = .ok q → P { s with queue := q }) : P (s.replyUnit r).2 := by
  cases r with
  | ok q => exact h q rfl
  | error error => exact hs

end Session

/-- One call on the in-memory queue. A claim that was never returned cannot be acknowledged. -/
def MemoryMessageQueue.call (now : String) (s : Session MemoryMessageQueue) :
    Op → Option (Reply × Session MemoryMessageQueue)
  | .create item => some (s.reply (s.queue.create item) fun r => .created r.1 r.2)
  | .update threadId messageId content references =>
    some (s.reply (s.queue.update now threadId messageId content references) .message)
  | .delete threadId messageId => some (s.replyUnit (s.queue.delete threadId messageId))
  | .list threadId => some (.messages (s.queue.list threadId), s)
  | .dispatch d => some (s.reply (s.queue.dispatch now d) .envelope)
  | .dispatchTurnStart e => some (s.reply (s.queue.dispatchTurnStart e) .envelope)
  | .dispatchAgent e => some (s.reply (s.queue.dispatchAgent e) .envelope)
  | .dispatchReport e => some (s.reply (s.queue.dispatchReport e) .envelope)
  | .claim turnId consumer => some (s.replyClaim (s.queue.claim turnId consumer))
  | .claimThread threadId consumer => some (s.replyClaim (s.queue.claimThread threadId consumer))
  | .claimThreadRecovery threadId consumer =>
    some (s.replyClaim (s.queue.claimThreadRecovery threadId consumer))
  | .claimTurnStart consumer recover =>
    some (s.replyClaim (s.queue.claimTurnStart consumer recover))
  | .claimReport threadId consumer recover =>
    some (s.replyClaim (s.queue.claimReport threadId consumer recover))
  | .peekThread threadId => some (.peeked (s.queue.peekThread threadId), s)
  | .ack k => s.claims[k]?.map fun claimed => s.replyUnit (s.queue.ack claimed)
  | .releaseTurn turnId => some (s.replyUnit (s.queue.releaseTurn now turnId))

end MiniAgent.Queue
