import MiniAgent.Lib.Threads
import MiniAgent.Turn.Models
import Mathlib.Data.List.Sort
import Mathlib.Logic.Function.Basic

/-!
# The outbox and its publishers

A committed frame is put into the outbox of its Session, under the next sequence of its Turn, in the
transaction that writes the Turn. Two publishers bring it to the event streams: the thread that has
committed it, and the relay, which goes through the outbox of every Session. Both run a script that
looks for the receipt of the event, and then delete the event from the outbox.

The streams are kept as one log of all entries that were ever added to them; a stream holds the last
ones of its Thread.
-/

namespace MiniAgent.Events

open Lib Turn

def eventStreamMaxlen : Nat := 10000

/-- A payload of the namespace `runtime_event_outbox`; `status` is that of the Turn it carries. -/
structure OutboxEvent where
  eventId : String
  sessionId : String
  threadId : String
  turnId : String
  sequence : Nat
  frame : Json
  status : NodeStatus
  deriving DecidableEq

inductive TerminalType where
  | success | failed
  deriving DecidableEq

/-- What is published when a Turn ends. -/
structure Terminal where
  sessionId : String
  threadId : String
  turnId : String
  sequence : Nat
  type : TerminalType
  message : String
  deriving DecidableEq

/-- The id of a receipt: that of a frame, or the text made of the fields of a terminal. -/
inductive EventId where
  | frame (id : String)
  | terminal (sessionId turnId : String) (sequence : Nat) (type : TerminalType)
  deriving DecidableEq

inductive StreamEntry where
  | frame (e : OutboxEvent)
  | terminal (t : Terminal)
  deriving DecidableEq

namespace StreamEntry

def eventId : StreamEntry → EventId
  | .frame e => .frame e.eventId
  | .terminal t => .terminal t.sessionId t.turnId t.sequence t.type

def threadId : StreamEntry → String
  | .frame e => e.threadId
  | .terminal t => t.threadId

/-- The committed event of an entry. -/
def event? : StreamEntry → Option OutboxEvent
  | .frame e => some e
  | .terminal _ => none

end StreamEntry

/-- The outboxes and sequences in SQLite, the receipts and the streams in Redis. `committed` are all
events that were ever put into an outbox. -/
structure Fanout where
  outbox : List OutboxEvent
  lastSequence : String → String → Nat
  receipts : List EventId
  log : List StreamEntry
  committed : List OutboxEvent

namespace Fanout

def new : Fanout := ⟨[], fun _ _ => 0, [], [], []⟩

variable (w : Fanout)

/-- The stream of a Thread: an exact `MAXLEN` keeps the last entries. -/
def threadStream (threadId : String) : List StreamEntry :=
  let entries := w.log.filter fun x => x.threadId = threadId
  entries.drop (entries.length - eventStreamMaxlen)

/-! ## The store -/

/-- `_put_runtime_event`. -/
def putRuntimeEvent (e : OutboxEvent) : Fanout :=
  let event := { e with sequence := w.lastSequence e.sessionId e.turnId + 1 }
  { w with
    outbox := w.outbox ++ [event]
    lastSequence := Function.update w.lastSequence e.sessionId
      (Function.update (w.lastSequence e.sessionId) e.turnId event.sequence)
    committed := w.committed ++ [event] }

def runtimeEvent (sessionId eventId : String) : Option OutboxEvent :=
  w.outbox.find? fun e => e.sessionId = sessionId ∧ e.eventId = eventId

/-- The key `pending_runtime_events` sorts by. -/
def pendingLe (a b : OutboxEvent) : Prop :=
  a.sequence < b.sequence ∨ (a.sequence = b.sequence ∧ a.eventId ≤ b.eventId)

instance : DecidableRel pendingLe := fun a b => by unfold pendingLe; infer_instance

def pendingRuntimeEvents (sessionId : String) : List OutboxEvent :=
  (w.outbox.filter fun e => e.sessionId = sessionId).insertionSort pendingLe

def ackRuntimeEvent (sessionId eventId : String) : Fanout :=
  { w with outbox := w.outbox.filter fun e => ¬(e.sessionId = sessionId ∧ e.eventId = eventId) }

/-! ## The streams -/

/-- The script: an event with a receipt is not added again. -/
def publish (x : StreamEntry) : Fanout :=
  if x.eventId ∈ w.receipts then w
  else { w with log := w.log ++ [x], receipts := w.receipts ++ [x.eventId] }

end Fanout

/-! ## Tasks -/

/-- What comes after an event: the call returns, or the relay goes on with its pass. -/
inductive Next where
  | done
  | relay (todo : List OutboxEvent) (sessions : List String)
  deriving DecidableEq

/-- The next step of a thread. -/
inductive Task where
  /-- `update_node_with_frame` of a writer, which then emits the frame. -/
  | write (e : OutboxEvent)
  | publishFrame (sessionId eventId : String)
  | hasEvent (eventId : String)
  /-- The passes of the relay over the Sessions that are left. -/
  | pending (sessions : List String)
  /-- `publish_outbox_event`: the script, and the deletion from the outbox. -/
  | publish (e : OutboxEvent) (next : Next)
  | ack (e : OutboxEvent) (next : Next)
  /-- `publish_terminal`: the sequence is read, and the script runs. -/
  | terminalRead (t : Terminal) (next : Next)
  | terminal (t : Terminal) (next : Next)
  deriving DecidableEq

/-- The calls threads start with. -/
def Task.isCall : Task → Bool
  | .write _ | .publishFrame _ _ | .pending _ | .terminalRead _ .done => true
  | _ => false

/-- How a step ends: it may raise in what comes next, or be the last before the thread is lost; and
whether the Turn has an active stream in this process. -/
structure Outcome where
  raises : Bool
  executionActive : Bool

def Next.tasks : Next → List Task
  | .done => []
  | .relay (e :: todo) sessions => [.publish e (.relay todo sessions)]
  | .relay [] sessions => [.pending sessions]

/-- The terminal the relay publishes for a Turn that has ended. -/
def OutboxEvent.recovery (e : OutboxEvent) : Option Terminal :=
  match e.status with
  | .running => none
  | .success | .paused => some ⟨e.sessionId, e.threadId, e.turnId, 0, .success, ""⟩
  | .failed => some ⟨e.sessionId, e.threadId, e.turnId, 0, .failed, ""⟩

/-- `recover_terminal`, which only the relay asks for. -/
def afterAck (e : OutboxEvent) (next : Next) (executionActive : Bool) : List Task :=
  match next with
  | .done => []
  | .relay _ _ => match executionActive, e.recovery with
    | false, some t => [.terminalRead t next]
    | _, _ => next.tasks

/-- One step. The id of a written frame is a new one. -/
def Fanout.exec (w : Fanout) (t : Task) (o : Outcome) : Option (Fanout × List Task) :=
  let go (p : Fanout × List Task) := some (p.1, if o.raises then [] else p.2)
  match t with
  | .write e =>
    if e.eventId ∈ w.committed.map OutboxEvent.eventId then none
    else go (w.putRuntimeEvent e, [.publishFrame e.sessionId e.eventId])
  | .publishFrame sessionId eventId => match w.runtimeEvent sessionId eventId with
    | some e => go (w, [.publish e .done])
    | none => go (w, [.hasEvent eventId])
  | .hasEvent _ => go (w, [])
  | .pending [] => go (w, [])
  | .pending (sessionId :: sessions) =>
    go (w, (Next.relay (w.pendingRuntimeEvents sessionId) sessions).tasks)
  | .publish e next => go (w.publish (.frame e), [.ack e next])
  | .ack e next => go (w.ackRuntimeEvent e.sessionId e.eventId, afterAck e next o.executionActive)
  | .terminalRead t next =>
    go (w, [.terminal { t with sequence := w.lastSequence t.sessionId t.turnId + 1 } next])
  | .terminal t next => go (w.publish (.terminal t), next.tasks)

abbrev Publishers := Threads Fanout Task

def Publishers.new : Publishers := ⟨Fanout.new, []⟩

def Publishers.step : Publishers → Move Task Outcome → Option Publishers :=
  Threads.step (fun _ t => t.isCall) Fanout.exec

end MiniAgent.Events
