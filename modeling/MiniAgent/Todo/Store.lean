import MiniAgent.Lib.Threads
import MiniAgent.Todo.Values

/-!
# The Todo stores

`RedisTodoListStore` and `MemoryTodoListStore` of `storage/todo_list.py`, on one Turn. In Redis the
Turn has one hash, with its snapshot, a receipt for each call that was applied and the mark of the
claimed finalization; a JSON text is kept as the value it encodes, with sorted keys, and a
fingerprint as the value that is hashed. A method that writes reads the hash under `WATCH` and
either returns or tries one `EXEC`, up to sixteen times. In memory the same lives in three
dictionaries.

`Todos.exec` is one attempt of a client; a run of `Threads` over it is an interleaving of clients.
-/

namespace MiniAgent.Todo

open Lib Json

/-- The arguments of `update` on the Turn, with the ids that are generated for its `add`
operations. -/
structure UpdateCall where
  callId : String
  expectedRevision : Int
  operations : List Fields
  generatedIds : List String

/-- `_fingerprint`. -/
def UpdateCall.fingerprint (c : UpdateCall) : Json :=
  sortKeys (.obj [("expected_revision", .int c.expectedRevision),
    ("operations", .arr (c.operations.map .obj))])

inductive StoreError where
  | todo (e : TodoStateError)
  | unavailable
  deriving DecidableEq

def StoreError.code : StoreError → String
  | .todo e => e.code
  | .unavailable => "message_queue_unavailable"

/-- A call on the Turn. -/
inductive TodoOp where
  | update (c : UpdateCall)
  | snapshot
  | receipt (callId : String)
  | claimFinalization

inductive Reply where
  | update (r : Except StoreError TodoUpdateResult)
  | snapshot (r : Except StoreError TodoSnapshot)
  | receipt (r : Except StoreError (Option TodoUpdateResult))
  | claim (r : Except StoreError Bool)

/-! ## Redis -/

abbrev Hash := String → Option Json

def hset (raw : Hash) (mapping : Fields) : Hash := fun field => (mapping.get field).or (raw field)

/-- What an attempt comes to: the reply, and the hash its `EXEC` leaves. -/
structure Attempt (α : Type) where
  reply : α
  write : Option Hash

namespace RedisTodoListStore

def maxTransactionRetries : Nat := 16

def receiptField (callId : String) : String := "receipt:" ++ callId

def receiptJson (fingerprint : Json) (result : TodoUpdateResult) : Json :=
  sortKeys (.obj [("fingerprint", fingerprint), ("result", .obj result.toDict)])

def orUnavailable {α : Type} : Option α → Except StoreError α
  | some a => .ok a
  | none => .error .unavailable

def objectOf : Json → Option Fields
  | .obj f => some f
  | _ => none

/-- `_snapshot`. -/
def snapshotOf (raw : Hash) : Except StoreError TodoSnapshot :=
  match raw "snapshot" with
  | none => .ok .empty
  | some decoded => orUnavailable ((objectOf decoded).bind TodoSnapshot.fromDict)

/-- `TodoUpdateResult.from_dict(receipt["result"])`. -/
def resultOf (receipt : Fields) : Except StoreError TodoUpdateResult :=
  orUnavailable (((receipt.get "result").bind objectOf).bind TodoUpdateResult.fromDict)

/-- The reply to a call that was applied before. -/
def replay (c : UpdateCall) (existing : Json) : Except StoreError TodoUpdateResult := do
  let receipt ← orUnavailable (objectOf existing)
  if receipt.get "fingerprint" ≠ some c.fingerprint then
    .error (.todo (.callIdConflict (some c.callId)))
  else resultOf receipt

/-- The result of a batch that is applied to the stored snapshot. -/
def compute (turnId : String) (c : UpdateCall) (raw : Hash) :
    Except StoreError TodoUpdateResult := do
  let current ← snapshotOf raw
  if current.revision ≠ c.expectedRevision then
    .error (.todo (.revisionConflict c.expectedRevision current))
  else match applyTodoOperations current c.operations c.generatedIds with
    | .error e => .error (.todo e)
    | .ok (updated, applied) => .ok ⟨turnId, updated, applied⟩

/-- The mapping of `hset`. -/
def mapping (sessionId turnId : String) (c : UpdateCall) (result : TodoUpdateResult) : Fields :=
  [("session_id", .str sessionId), ("turn_id", .str turnId),
    ("revision", .int result.snapshot.revision),
    ("snapshot", sortKeys (.obj result.snapshot.toDict)),
    (receiptField c.callId, receiptJson c.fingerprint result)]

/-- One attempt of `update`. -/
def update (sessionId turnId : String) (c : UpdateCall) (raw : Hash) :
    Attempt (Except StoreError TodoUpdateResult) :=
  if c.expectedRevision < 0 then ⟨.error (.todo .invalidRevision), none⟩
  else match raw (receiptField c.callId) with
    | some existing => ⟨replay c existing, none⟩
    | none => match compute turnId c raw with
      | .error e => ⟨.error e, none⟩
      | .ok result => ⟨.ok result, some (hset raw (mapping sessionId turnId c result))⟩

def receipt (callId : String) (raw : Hash) : Except StoreError (Option TodoUpdateResult) :=
  match raw (receiptField callId) with
  | none => .ok none
  | some existing => do
    let receipt ← orUnavailable (objectOf existing)
    let result ← resultOf receipt
    pure (some result)

/-- One attempt of `claim_finalization`. -/
def claimFinalization (raw : Hash) : Attempt (Except StoreError Bool) :=
  match snapshotOf raw with
  | .error e => ⟨.error e, none⟩
  | .ok snapshot =>
    if snapshot.unfinished.isEmpty || raw "finalization_claimed" == some (.str "1") then
      ⟨.ok false, none⟩
    else ⟨.ok true, some (hset raw [("finalization_claimed", .str "1")])⟩

def attempt (sessionId turnId : String) (raw : Hash) : TodoOp → Attempt Reply
  | .update c => let a := update sessionId turnId c raw; ⟨.update a.reply, a.write⟩
  | .snapshot => ⟨.snapshot (snapshotOf raw), none⟩
  | .receipt callId => ⟨.receipt (receipt callId raw), none⟩
  | .claimFinalization => let a := claimFinalization raw; ⟨.claim a.reply, a.write⟩

/-- What a call raises when its last attempt meets a change. -/
def exhausted : TodoOp → Reply
  | .update _ => .update (.error (.todo .concurrentUpdate))
  | .snapshot => .snapshot (.error .unavailable)
  | .receipt _ => .receipt (.error .unavailable)
  | .claimFinalization => .claim (.error (.todo .concurrentFinalization))

/-- A call without others beside it. -/
def call (sessionId turnId : String) (raw : Hash) (op : TodoOp) : Reply × Hash :=
  let a := attempt sessionId turnId raw op
  (a.reply, a.write.getD raw)

end RedisTodoListStore

/-! ## Memory -/

structure MemoryTodoListStore where
  state : Option TodoSnapshot
  receipts : String → Option (Json × TodoUpdateResult)
  finalization : Bool

namespace MemoryTodoListStore

def new : MemoryTodoListStore := ⟨none, fun _ => none, false⟩

variable (m : MemoryTodoListStore)

def snapshot : TodoSnapshot := m.state.getD .empty

def update (turnId : String) (c : UpdateCall) :
    Except TodoStateError TodoUpdateResult × MemoryTodoListStore :=
  if c.expectedRevision < 0 then (.error .invalidRevision, m)
  else match m.receipts c.callId with
    | some (fingerprint, result) =>
      if fingerprint ≠ c.fingerprint then (.error (.callIdConflict none), m) else (.ok result, m)
    | none =>
      let current := m.snapshot
      if current.revision ≠ c.expectedRevision then
        (.error (.revisionConflict c.expectedRevision current), m)
      else match applyTodoOperations current c.operations c.generatedIds with
        | .error e => (.error e, m)
        | .ok (updated, applied) =>
          let result := ⟨turnId, updated, applied⟩
          (.ok result, { m with
            state := some updated
            receipts := Function.update m.receipts c.callId (some (c.fingerprint, result)) })

def receipt (callId : String) : Option TodoUpdateResult := (m.receipts callId).map Prod.snd

def claimFinalization : Bool × MemoryTodoListStore :=
  if m.snapshot.unfinished.isEmpty || m.finalization then (false, m)
  else (true, { m with finalization := true })

def call (turnId : String) : TodoOp → Reply × MemoryTodoListStore
  | .update c => match m.update turnId c with
    | (.ok result, m') => (.update (.ok result), m')
    | (.error e, m') => (.update (.error (.todo e)), m')
  | .snapshot => (.snapshot (.ok m.snapshot), m)
  | .receipt callId => (.receipt (.ok (m.receipt callId)), m)
  | .claimFinalization => let p := m.claimFinalization; (.claim (.ok p.1), p.2)

end MemoryTodoListStore

/-! ## Clients -/

/-- The hash of the Turn, what has been replied, and the batches that were applied. -/
structure Todos where
  raw : Hash
  history : List (TodoOp × Reply)
  log : List UpdateCall

namespace Todos

def new : Todos := ⟨fun _ => none, [], []⟩

/-- The batch an `EXEC` applies. -/
def batchOf : TodoOp → List UpdateCall
  | .update c => [c]
  | _ => []

/-- One attempt of a call that may make `left` of them. An `EXEC` that meets a change of the hash
(`conflict`) writes nothing. -/
def exec (sessionId turnId : String) (s : Todos) (frame : TodoOp × Nat) (conflict : Bool) :
    Option (Todos × List (TodoOp × Nat)) :=
  let (op, left) := frame
  let a := RedisTodoListStore.attempt sessionId turnId s.raw op
  match a.write with
  | none => some ({ s with history := s.history ++ [(op, a.reply)] }, [])
  | some raw =>
    if conflict then
      if left ≤ 1 then some
        ({ s with history := s.history ++ [(op, RedisTodoListStore.exhausted op)] }, [])
      else some (s, [(op, left - 1)])
    else some (⟨raw, s.history ++ [(op, a.reply)], s.log ++ batchOf op⟩, [])

/-- A client calls a method. -/
def entry (_ : Todos) (frame : TodoOp × Nat) : Bool :=
  frame.2 = RedisTodoListStore.maxTransactionRetries

abbrev step (sessionId turnId : String) := Threads.step entry (exec sessionId turnId)

end Todos

end MiniAgent.Todo
