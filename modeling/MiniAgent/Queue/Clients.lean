import MiniAgent.Queue.Redis
import MiniAgent.Lib.Threads

/-!
# Clients of the Redis queue

Any number of clients call the queue at once. A frame is one command, script or transaction of a
call, with what the client has read before it; `exec` is what Redis does and what the client goes on
with. A call that raises or returns ends. `WATCH` remembers the version of the messages hash, and
the `EXEC` of a call whose version is not the present one starts the call anew.

`Ledger` is what the clients did, beside what Redis holds: the messages of a thread in the order of
their creation, the text of the last edit of each, the messages an envelope was built from, and
every dispatch with the texts it found.
-/

namespace MiniAgent.Queue

open Lib

/-! ## Frames -/

inductive Frame where
  | create (item : QueuedMessage)
  | createRead (item : QueuedMessage) (version : Nat)
  | createSequence (item : QueuedMessage) (version : Nat)
  | createExec (item : QueuedMessage) (version next : Nat)
  | update (threadId messageId content : String) (references : List Fields)
  | updateRead (threadId messageId content : String) (references : List Fields) (version : Nat)
  | updateExec (threadId messageId content : String) (references : List Fields) (version : Nat)
      (updated : QueuedMessage)
  | delete (threadId messageId : String)
  | deleteRead (threadId messageId : String) (version : Nat)
  | deleteExec (threadId messageId : String) (version : Nat)
  | dispatch (d : Dispatch)
  | dispatchOrder (d : Dispatch) (stored : Option MessageEnvelope)
  | dispatchRead (d : Dispatch) (stored : Option MessageEnvelope) (ids : List String)
  | dispatchScript (d : Dispatch) (stored : Option MessageEnvelope) (call : DispatchCall)
  | claim (key : StreamKey) (consumer : String)
  | claimPending (key : StreamKey) (consumer : String)
  | claimNext (key : StreamKey) (consumer : String)
  | claimCount (e : Entry)
  | ack (claimed : ClaimedEnvelope)
  | releaseTurn (turnId : String)
  | release (turnId : String) (e : Entry) (todo : List String)
    (writes : List (String × QueuedMessage))
  | releaseLength (turnId : String)
  | releaseDelete (turnId : String)
  | expire (deliveryId : String)
  deriving DecidableEq

/-- What a step leaves open: the time, and the entry that has been idle for long enough. -/
structure Choice where
  now : String
  stale : Option Nat

/-- The calls; receipts expire by themselves. -/
def Frame.isCall : Frame → Bool
  | .create _ | .update .. | .delete .. | .dispatch _ | .claim .. | .ack _ | .releaseTurn _
  | .expire _ => true
  | _ => false

/-- One step of a client. -/
def Redis.exec (r : Redis) (f : Frame) (o : Choice) : Redis × List Frame :=
  match f with
  | .create item => (r, [.createRead item (r.version item.threadId)])
  | .createRead item version =>
    match Queue.createRead o.now item (r.messages item.threadId item.id) with
    | .ok none => (r, [.createSequence item version])
    | _ => (r, [])
  | .createSequence item version =>
    (r, [.createExec item version (r.sequence item.threadId + 1)])
  | .createExec item version next =>
    if r.version item.threadId = version then (r.createExec item next, []) else (r, [.create item])
  | .update threadId messageId content references =>
    (r, [.updateRead threadId messageId content references (r.version threadId)])
  | .updateRead threadId messageId content references version =>
    match Queue.updateRead o.now content references (r.messages threadId messageId) with
    | .ok updated => (r, [.updateExec threadId messageId content references version updated])
    | .error _ => (r, [])
  | .updateExec threadId messageId content references version updated =>
    if r.version threadId = version then (r.hset threadId messageId updated.json, [])
    else (r, [.update threadId messageId content references])
  | .delete threadId messageId => (r, [.deleteRead threadId messageId (r.version threadId)])
  | .deleteRead threadId messageId version =>
    match pendingRead o.now (r.messages threadId messageId) with
    | .ok _ => (r, [.deleteExec threadId messageId version])
    | .error _ => (r, [])
  | .deleteExec threadId messageId version =>
    if r.version threadId = version then (r.deleteExec threadId messageId, [])
    else (r, [.delete threadId messageId])
  | .dispatch d =>
    match d.receiptRead o.now (r.receipts d.deliveryId) with
    | .ok (.inr stored) => (r, [.dispatchOrder d stored])
    | _ => (r, [])
  | .dispatchOrder d stored => (r, [.dispatchRead d stored (d.canonicalIds (r.zrange d.threadId))])
  | .dispatchRead d stored ids =>
    match d.prepare o.now stored ids (ids.map (r.messages d.threadId)) with
    | .ok (_, call) => (r, [.dispatchScript d stored call])
    | .error _ => (r, [])
  | .dispatchScript _ _ call => ((r.dispatchScript call).2, [])
  | .claim key consumer =>
    match r.xautoclaim key consumer (fun e => o.stale = some e.streamId) with
    | some (e, r') => (r', [.claimCount e])
    | none => (r, [.claimPending key consumer])
  | .claimPending key consumer =>
    if r.xpending key > 0 then (r, []) else (r, [.claimNext key consumer])
  | .claimNext key consumer =>
    match r.xreadgroup key consumer with
    | some (e, r') => (r', [.claimCount e])
    | none => (r, [])
  | .claimCount e => ((r.hincrby e.envelope.deliveryId).2, [])
  | .ack c =>
    ((r.ackScript c.envelope.deliveryId c.envelope.ackFingerprint c.envelope.stream c.streamId
      c.envelope.threadId c.envelope.ackIds).2, [])
  | .releaseTurn turnId =>
    (r, (r.streams (.turn turnId)).map (fun e => .release turnId e e.envelope.sourceMessageIds [])
      ++ [.releaseLength turnId])
  | .release turnId e (id :: todo) writes =>
    (r, [.release turnId e todo
      (writes ++ (releaseWrite o.now id (r.messages e.envelope.threadId id)).toList)])
  | .release turnId e [] writes => (r.releaseExec turnId e writes, [])
  | .releaseLength turnId =>
    (r, if (r.streams (.turn turnId)).length = 0 then [.releaseDelete turnId] else [])
  | .releaseDelete turnId => (r.setStream (.turn turnId) [], [])
  | .expire deliveryId =>
    (if (r.receipts deliveryId).expires then r.setReceipt deliveryId .absent else r, [])

/-! ## The ledger -/

/-- A dispatch that went through: the ids it marked and its envelope, the messages Redis held under
these ids, in queue order, and the texts the clients had committed for them last. -/
structure Sent where
  ids : List String
  envelope : MessageEnvelope
  found : List QueuedMessage
  committed : List (Option Text)

structure Ledger where
  created : String → List String
  text : String → String → Option Text
  basis : MessageEnvelope → List QueuedMessage
  sent : List Sent

namespace Ledger

def new : Ledger := ⟨fun _ => [], fun _ _ => none, fun _ => [], []⟩

variable (l : Ledger)

def setText (threadId id : String) (text : Option Text) : Ledger :=
  { l with text := Function.update l.text threadId (Function.update (l.text threadId) id text) }

def enter (item : QueuedMessage) : Ledger :=
  { l.setText item.threadId item.id (some item.json.text) with
    created := Function.update l.created item.threadId (l.created item.threadId ++ [item.id]) }

def remove (threadId id : String) : Ledger :=
  { l.setText threadId id none with
    created := Function.update l.created threadId ((l.created threadId).filter fun i => i ≠ id) }

def removeAll (threadId : String) (ids : List String) : Ledger :=
  ids.foldl (fun l id => l.remove threadId id) l

end Ledger

/-- The messages of the ids in the order of the queue. -/
def Redis.inOrder (r : Redis) (threadId : String) (ids : List String) : List QueuedMessage :=
  (((r.zrange threadId).filter fun id => id ∈ ids).map (r.messages threadId)).reduceOption

/-- An envelope without its time and correlation, which reading it from a receipt may fill in. -/
def MessageEnvelope.core (e : MessageEnvelope) : MessageEnvelope :=
  { e with createdAt := "", correlationId := none }

/-- A dispatch with the texts it finds; a new envelope is built from the texts that were read. -/
def Ledger.send (l : Ledger) (r : Redis) (stored : Option MessageEnvelope) (call : DispatchCall) :
    Ledger :=
  let ids := call.items.map Redispatch.id
  let found := r.inOrder call.threadId ids
  { l with
    sent := l.sent ++ [⟨ids, call.envelope, found, found.map fun m => l.text call.threadId m.id⟩]
    basis := if stored.isSome then l.basis
      else Function.update l.basis call.envelope.core (call.items.map Redispatch.raw) }

structure World where
  redis : Redis
  ledger : Ledger

def World.new : World := ⟨Redis.new, Ledger.new⟩

/-- The entry of a step in the ledger. -/
def World.note (w : World) : Frame → Ledger
  | .createExec item version _ =>
    if w.redis.version item.threadId = version then w.ledger.enter item else w.ledger
  | .updateExec threadId messageId _ _ version updated =>
    if w.redis.version threadId = version then
      w.ledger.setText threadId messageId (some updated.json.text)
    else w.ledger
  | .deleteExec threadId messageId version =>
    if w.redis.version threadId = version then w.ledger.remove threadId messageId else w.ledger
  | .ack c =>
    if (w.redis.ackScript c.envelope.deliveryId c.envelope.ackFingerprint
      c.envelope.stream c.streamId
        c.envelope.threadId c.envelope.ackIds).1 = .acknowledged then
      w.ledger.removeAll c.envelope.threadId c.envelope.ackIds
    else w.ledger
  | .dispatchScript _ stored call =>
    if (w.redis.dispatchScript call).1 = .created then w.ledger.send w.redis stored call
      else w.ledger
  | _ => w.ledger

def World.exec (w : World) (f : Frame) (o : Choice) : Option (World × List Frame) :=
  let (r, new) := w.redis.exec f o
  some (⟨r, w.note f⟩, new)

abbrev Clients := Threads World Frame

def Clients.new : Clients := ⟨World.new, []⟩

def Clients.step : Clients → Move Frame Choice → Option Clients :=
  Threads.step (fun _ f => f.isCall) World.exec

/-! ## What a step does -/

/-- What a client goes on with. -/
inductive Pushes (r : Redis) (o : Choice) : Frame → Frame → Prop where
  | create (item : QueuedMessage) :
    Pushes r o (.create item) (.createRead item (r.version item.threadId))
  | createRead (item : QueuedMessage) (version : Nat)
    (h : r.messages item.threadId item.id = none) :
    Pushes r o (.createRead item version) (.createSequence item version)
  | createSequence (item : QueuedMessage) (version : Nat) :
    Pushes r o (.createSequence item version)
    (.createExec item version (r.sequence item.threadId + 1))
  | createAgain (item : QueuedMessage) (version next : Nat) :
    Pushes r o (.createExec item version next) (.create item)
  | update (t id content : String) (references : List Fields) :
    Pushes r o (.update t id content references) (.updateRead t id content references (r.version t))
  | updateRead (t id content : String) (references : List Fields) (version : Nat)
    (updated : QueuedMessage)
      (h : Queue.updateRead o.now content references (r.messages t id) = .ok updated) :
    Pushes r o (.updateRead t id content references version)
      (.updateExec t id content references version updated)
  | updateAgain (t id content : String) (references : List Fields) (version : Nat)
      (updated : QueuedMessage) :
    Pushes r o (.updateExec t id content references version updated)
      (.update t id content references)
  | delete (t id : String) : Pushes r o (.delete t id) (.deleteRead t id (r.version t))
  | deleteRead (t id : String) (version : Nat) :
    Pushes r o (.deleteRead t id version) (.deleteExec t id version)
  | deleteAgain (t id : String) (version : Nat) : Pushes r o (.deleteExec t id version)
    (.delete t id)
  | dispatch (d : Dispatch) (stored : Option MessageEnvelope)
      (h : d.receiptRead o.now (r.receipts d.deliveryId) = .ok (.inr stored)) :
    Pushes r o (.dispatch d) (.dispatchOrder d stored)
  | dispatchOrder (d : Dispatch) (stored : Option MessageEnvelope) :
    Pushes r o (.dispatchOrder d stored)
    (.dispatchRead d stored (d.canonicalIds (r.zrange d.threadId)))
  | dispatchRead (d : Dispatch) (stored : Option MessageEnvelope) (ids : List String)
    (e : MessageEnvelope)
      (call : DispatchCall) (h : d.prepare o.now stored ids (ids.map (r.messages d.threadId)) =
        .ok (e, call)) :
    Pushes r o (.dispatchRead d stored ids) (.dispatchScript d stored call)
  | claimStale (key : StreamKey) (consumer : String) (e : Entry) :
    Pushes r o (.claim key consumer) (.claimCount e)
  | claim (key : StreamKey) (consumer : String) :
    Pushes r o (.claim key consumer) (.claimPending key consumer)
  | claimPending (key : StreamKey) (consumer : String) :
    Pushes r o (.claimPending key consumer) (.claimNext key consumer)
  | claimNext (key : StreamKey) (consumer : String) (e : Entry) :
    Pushes r o (.claimNext key consumer) (.claimCount e)
  | releaseTurn (turnId : String) (e : Entry) :
    Pushes r o (.releaseTurn turnId) (.release turnId e e.envelope.sourceMessageIds [])
  | releaseTurnEnd (turnId : String) : Pushes r o (.releaseTurn turnId) (.releaseLength turnId)
  | release (turnId : String) (e : Entry) (id : String) (todo : List String)
      (writes : List (String × QueuedMessage)) :
    Pushes r o (.release turnId e (id :: todo) writes) (.release turnId e todo
      (writes ++ (releaseWrite o.now id (r.messages e.envelope.threadId id)).toList))
  | releaseLength (turnId : String) : Pushes r o (.releaseLength turnId) (.releaseDelete turnId)

theorem createRead_none {now : String} {item : QueuedMessage} {existing : Option QueuedMessage}
    (h : createRead now item existing = .ok none) : existing = none := by
  cases existing with
  | none => rfl
  | some raw =>
    simp only [createRead] at h
    split at h <;> cases h

theorem exec_pushes {r : Redis} {f g : Frame} {o : Choice} (hg : g ∈ (r.exec f o).2) :
    Pushes r o f g := by
  cases f with
  | create item => obtain rfl := List.mem_singleton.mp hg; exact .create item
  | createRead item version =>
    simp only [Redis.exec] at hg
    split at hg
    · next h =>
        obtain rfl := List.mem_singleton.mp hg; exact .createRead item version (createRead_none h)
    · cases hg
  | createSequence item version =>
    obtain rfl := List.mem_singleton.mp hg
    exact .createSequence item version
  | createExec item version next =>
    simp only [Redis.exec] at hg
    split at hg
    · cases hg
    · obtain rfl := List.mem_singleton.mp hg; exact .createAgain item version next
  | update t id content references =>
    obtain rfl := List.mem_singleton.mp hg
    exact .update t id content references
  | updateRead t id content references version =>
    simp only [Redis.exec] at hg
    split at hg
    · next h =>
      obtain rfl := List.mem_singleton.mp hg
      exact .updateRead t id content references version _ h
    · cases hg
  | updateExec t id content references version updated =>
    simp only [Redis.exec] at hg
    split at hg
    · cases hg
    · obtain rfl := List.mem_singleton.mp hg;
        exact .updateAgain t id content references version updated
  | delete t id => obtain rfl := List.mem_singleton.mp hg; exact .delete t id
  | deleteRead t id version =>
    simp only [Redis.exec] at hg
    split at hg
    · obtain rfl := List.mem_singleton.mp hg; exact .deleteRead t id version
    · cases hg
  | deleteExec t id version =>
    simp only [Redis.exec] at hg
    split at hg
    · cases hg
    · obtain rfl := List.mem_singleton.mp hg; exact .deleteAgain t id version
  | dispatch d =>
    simp only [Redis.exec] at hg
    split at hg
    · next h => obtain rfl := List.mem_singleton.mp hg; exact .dispatch d _ h
    · cases hg
  | dispatchOrder d stored => obtain rfl := List.mem_singleton.mp hg; exact .dispatchOrder d stored
  | dispatchRead d stored ids =>
    simp only [Redis.exec] at hg
    split at hg
    · next h => obtain rfl := List.mem_singleton.mp hg; exact .dispatchRead d stored ids _ _ h
    · cases hg
  | dispatchScript d stored call => cases hg
  | claim key consumer =>
    simp only [Redis.exec] at hg
    split at hg
    · obtain rfl := List.mem_singleton.mp hg; exact .claimStale key consumer _
    · obtain rfl := List.mem_singleton.mp hg; exact .claim key consumer
  | claimPending key consumer =>
    simp only [Redis.exec] at hg
    split at hg
    · cases hg
    · obtain rfl := List.mem_singleton.mp hg; exact .claimPending key consumer
  | claimNext key consumer =>
    simp only [Redis.exec] at hg
    split at hg
    · obtain rfl := List.mem_singleton.mp hg; exact .claimNext key consumer _
    · cases hg
  | claimCount e => cases hg
  | ack c => cases hg
  | releaseTurn turnId =>
    rcases List.mem_append.mp hg with hg | hg
    · obtain ⟨e, -, rfl⟩ := List.mem_map.mp hg
      exact .releaseTurn turnId e
    · obtain rfl := List.mem_singleton.mp hg; exact .releaseTurnEnd turnId
  | release turnId e todo writes =>
    cases todo with
    | nil => cases hg
    | cons id todo => obtain rfl := List.mem_singleton.mp hg; exact .release turnId e id todo writes
  | releaseLength turnId =>
    simp only [Redis.exec] at hg
    split at hg
    · obtain rfl := List.mem_singleton.mp hg; exact .releaseLength turnId
    · cases hg
  | releaseDelete turnId => cases hg
  | expire d => cases hg

/-- Nothing but streams and receipts changes, and no receipt gets another envelope. -/
structure Quiet (w w' : World) : Prop where
  messages : w'.redis.messages = w.redis.messages
  version : w'.redis.version = w.redis.version
  order : w'.redis.order = w.redis.order
  sequence : w'.redis.sequence = w.redis.sequence
  envelope : ∀ d e, (w'.redis.receipts d).envelope = some e → (w.redis.receipts d).envelope = some e
  ledger : w'.ledger = w.ledger

/-- What a step changes. -/
inductive Effect (w : World) : Frame → World → Prop where
  | quiet (f : Frame) (w' : World) (h : Quiet w w') : Effect w f w'
  | created (item : QueuedMessage) (version next : Nat)
    (h : w.redis.version item.threadId = version) :
    Effect w (.createExec item version next) ⟨w.redis.createExec item next, w.ledger.enter item⟩
  | updated (t id content : String) (references : List Fields) (version : Nat) (m : QueuedMessage)
      (h : w.redis.version t = version) :
    Effect w (.updateExec t id content references version m)
      ⟨w.redis.hset t id m.json, w.ledger.setText t id (some m.json.text)⟩
  | deleted (t id : String) (version : Nat) (h : w.redis.version t = version) :
    Effect w (.deleteExec t id version) ⟨w.redis.deleteExec t id, w.ledger.remove t id⟩
  | dispatched (d : Dispatch) (stored : Option MessageEnvelope) (call : DispatchCall)
      (h : w.redis.changed call.threadId call.items = none) :
    Effect w (.dispatchScript d stored call)
      ⟨w.redis.dispatchExec call, w.ledger.send w.redis stored call⟩
  | acknowledged (c : ClaimedEnvelope) :
    Effect w (.ack c)
      ⟨w.redis.ackExec c.envelope.deliveryId c.envelope.stream c.streamId c.envelope.threadId
          c.envelope.ackIds, w.ledger.removeAll c.envelope.threadId c.envelope.ackIds⟩
  | released (turnId : String) (e : Entry) (writes : List (String × QueuedMessage)) :
    Effect w (.release turnId e [] writes) ⟨w.redis.releaseExec turnId e writes, w.ledger⟩

theorem Quiet.refl (w : World) : Quiet w w := ⟨rfl, rfl, rfl, rfl, fun _ _ h => h, rfl⟩

/-- A message that changed stops the script. -/
theorem changed_ne_created {r : Redis} {t : String} {items : List Redispatch} :
    r.changed t items ≠ some .created := by
  induction items with
  | nil => nofun
  | cons item items ih =>
    rw [Redis.changed]
    split
    · nofun
    · split
      · nofun
      · split
        · nofun
        · exact ih

/-- **The scripts** change nothing unless they go through. -/
theorem dispatchScript_cases (r : Redis) (c : DispatchCall) :
    ((r.dispatchScript c).1 ≠ .created ∧ (r.dispatchScript c).2 = r) ∨
    (r.dispatchScript c = (.created, r.dispatchExec c) ∧ r.changed c.threadId c.items = none) := by
  have hbody : ((r.dispatchMessages c).1 ≠ .created ∧ (r.dispatchMessages c).2 = r) ∨
      (r.dispatchMessages c = (.created, r.dispatchExec c) ∧
        r.changed c.threadId c.items = none) := by
    rw [Redis.dispatchMessages]
    split
    · next reply h => exact .inl ⟨fun hc => changed_ne_created (h.trans (congrArg some hc)), rfl⟩
    · next h => exact .inr ⟨rfl, h⟩
  rw [Redis.dispatchScript]
  split
  · split
    · exact .inl ⟨nofun, rfl⟩
    · split
      · exact .inl ⟨nofun, rfl⟩
      · exact hbody
  · exact hbody

theorem ackScript_cases (r : Redis) (d : String) (fp : Fingerprint) (key : StreamKey)
    (streamId : Nat) (t : String) (ids : List String) :
    ((r.ackScript d fp key streamId t ids).1 ≠ .acknowledged ∧
      (r.ackScript d fp key streamId t ids).2 = r) ∨
    r.ackScript d fp key streamId t ids = (.acknowledged, r.ackExec d key streamId t ids) := by
  rw [Redis.ackScript]
  split
  · exact .inl ⟨nofun, rfl⟩
  · split
    · exact .inl ⟨nofun, rfl⟩
    · split
      · exact .inl ⟨nofun, rfl⟩
      · exact .inr rfl

/-- An entry is taken from a stream: nothing else changes. -/
theorem Quiet.setStream (w : World) (key : StreamKey) (entries : List Entry) :
    Quiet w ⟨w.redis.setStream key entries, w.ledger⟩ := ⟨rfl, rfl, rfl, rfl, fun _ _ h => h, rfl⟩

/-- A receipt keeps its envelope or loses it. -/
theorem Quiet.setReceipt (w : World) (d : String) (receipt : RedisReceipt)
    (h : ∀ e, receipt.envelope = some e → (w.redis.receipts d).envelope = some e) :
    Quiet w ⟨w.redis.setReceipt d receipt, w.ledger⟩ := by
  refine ⟨rfl, rfl, rfl, rfl, fun d' e he => ?_, rfl⟩
  by_cases hd : d' = d
  · subst hd
    exact h e (by simpa [Redis.setReceipt] using he)
  · simpa [Redis.setReceipt, hd] using he

/-- **What a step does** to Redis and to the ledger. -/
theorem exec_effect (w : World) (f : Frame) (o : Choice) :
    Effect w f ⟨(w.redis.exec f o).1, w.note f⟩ := by
  have hquiet : ∀ r', Quiet w ⟨r', w.ledger⟩ → (w.redis.exec f o).1 = r' → w.note f = w.ledger →
      Effect w f ⟨(w.redis.exec f o).1, w.note f⟩ := by
    intro r' hq hr hl
    rw [hr, hl]
    exact .quiet f _ hq
  cases f with
  | createExec item version next =>
    by_cases h : w.redis.version item.threadId = version
    · simp only [Redis.exec, World.note, if_pos h]
      exact .created item version next h
    · exact hquiet _ (.refl w) (by simp only [Redis.exec, if_neg h])
        (by simp only [World.note, if_neg h])
  | updateExec t id content references version updated =>
    by_cases h : w.redis.version t = version
    · simp only [Redis.exec, World.note, if_pos h]
      exact .updated t id content references version updated h
    · exact hquiet _ (.refl w) (by simp only [Redis.exec, if_neg h])
        (by simp only [World.note, if_neg h])
  | deleteExec t id version =>
    by_cases h : w.redis.version t = version
    · simp only [Redis.exec, World.note, if_pos h]
      exact .deleted t id version h
    · exact hquiet _ (.refl w) (by simp only [Redis.exec, if_neg h])
        (by simp only [World.note, if_neg h])
  | dispatchScript d stored call =>
    rcases dispatchScript_cases w.redis call with ⟨hne, heq⟩ | ⟨heq, hc⟩
    · exact hquiet _ (.refl w) heq (by simp only [World.note, if_neg hne])
    · simp only [Redis.exec, World.note, heq, if_true]
      exact .dispatched d stored call hc
  | ack c =>
    rcases ackScript_cases w.redis c.envelope.deliveryId c.envelope.ackFingerprint c.envelope.stream
      c.streamId c.envelope.threadId c.envelope.ackIds with ⟨hne, heq⟩ | heq
    · exact hquiet _ (.refl w) heq (by simp only [World.note, if_neg hne])
    · simp only [Redis.exec, World.note, heq, if_true]
      exact .acknowledged c
  | release turnId e todo writes =>
    cases todo with
    | nil => exact .released turnId e writes
    | cons id todo => exact hquiet _ (.refl w) rfl rfl
  | claim key consumer =>
    simp only [Redis.exec]
    split
    · next h =>
      obtain ⟨p, -, heq⟩ := Option.map_eq_some_iff.mp h
      cases heq
      exact .quiet _ _ (.setStream w key p.2)
    · exact .quiet _ _ (.refl w)
  | claimNext key consumer =>
    simp only [Redis.exec]
    split
    · next h =>
      obtain ⟨p, -, heq⟩ := Option.map_eq_some_iff.mp h
      cases heq
      exact .quiet _ _ (.setStream w key p.2)
    · exact .quiet _ _ (.refl w)
  | claimCount e => exact .quiet _ _ (.setReceipt w _ _ fun _ h => h)
  | releaseDelete turnId => exact .quiet _ _ (.setStream w _ _)
  | expire d =>
    simp only [Redis.exec]
    split
    · exact .quiet _ _ (.setReceipt w d _ fun _ h => by cases h)
    · exact .quiet _ _ (.refl w)
  | createRead item version =>
    exact hquiet _ (.refl w) (by simp only [Redis.exec]; split <;> rfl) rfl
  | updateRead t id content references version =>
    exact hquiet _ (.refl w) (by simp only [Redis.exec]; split <;> rfl) rfl
  | deleteRead t id version =>
    exact hquiet _ (.refl w) (by simp only [Redis.exec]; split <;> rfl) rfl
  | dispatch d => exact hquiet _ (.refl w) (by simp only [Redis.exec]; split <;> rfl) rfl
  | dispatchRead d stored ids =>
    exact hquiet _ (.refl w) (by simp only [Redis.exec]; split <;> rfl) rfl
  | claimPending key consumer =>
    exact hquiet _ (.refl w) (by simp only [Redis.exec]; split <;> rfl) rfl
  | _ => exact hquiet _ (.refl w) rfl rfl

end MiniAgent.Queue
