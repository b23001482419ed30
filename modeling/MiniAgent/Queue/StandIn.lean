import MiniAgent.Queue.Likeness
import MiniAgent.Queue.Delivery

/-!
# The in-memory queue as a stand-in

The in-memory queue and the Redis queue get the same calls, one after the other, each with a clock
of its own. `Mirrors` relates their states: alike messages in the same order, alike entries in every
stream, alike receipts. A call that keeps to `Alike` has replies that agree, and leaves states that
mirror each other.

They differ where Redis gives out one entry of a stream at a time and the in-memory queue gives the
next one too, where a second acknowledgement removes messages again, and where a JSON text is not
read back as it was written.
-/

namespace MiniAgent.Queue

open Lib

/-! ## Runs side by side -/

/-- The same reply, up to times and stream ids. -/
def Reply.Agrees : Reply → Reply → Prop
  | .created a new, .created b new' => a.plain = b.plain ∧ new = new'
  | .message a, .message b => a.plain = b.plain
  | .messages l, .messages l' => l.map QueuedMessage.plain = l'.map QueuedMessage.plain
  | .envelope a, .envelope b => a.plain = b.plain
  | .claimed c, .claimed c' =>
    c.map (fun c => c.envelope.plain) = c'.map fun c => c.envelope.plain
  | .peeked e, .peeked e' => e.map MessageEnvelope.plain = e'.map MessageEnvelope.plain
  | .done, .done => True
  | .raised error, .raised error' => error = error'
  | _, _ => False

structure SideBySide where
  memory : Session MemoryMessageQueue
  redis : Session Redis
  replies : List (Reply × Reply)

/-- A call, with what the two clocks show in it. -/
structure Call where
  now : String
  now' : String
  op : Op

def SideBySide.new : SideBySide := ⟨⟨MemoryMessageQueue.new, []⟩, ⟨Redis.new, []⟩, []⟩

def SideBySide.step (s : SideBySide) (c : Call) : Option SideBySide :=
  match MemoryMessageQueue.call c.now s.memory c.op, RedisMessageQueue.call c.now' s.redis c.op with
  | some (reply, memory), some (reply', redis) =>
    some ⟨memory, redis, s.replies ++ [(reply, reply')]⟩
  | _, _ => none

/-! ## The condition -/

/-- No entry is in flight, or none is left to give out. -/
def oneInFlight (entries : List Entry) : Prop :=
  (∀ e ∈ entries, e.owner = none) ∨ ∀ e ∈ entries, e.owner ≠ none

instance (entries : List Entry) : Decidable (oneInFlight entries) := by
  unfold oneInFlight
  infer_instance

/-- An envelope that is read back as it was written. -/
def MessageEnvelope.Readable (e : MessageEnvelope) : Prop :=
  e.attempts = 0 ∧ e.createdAt ≠ "" ∧ e.correlationId ≠ some ""

instance (e : MessageEnvelope) : Decidable e.Readable := by
  unfold MessageEnvelope.Readable
  infer_instance

/-- A first acknowledgement, or one that finds nothing to remove. -/
def ackOnce (q : MemoryMessageQueue) (c : ClaimedEnvelope) : Prop :=
  (∀ r ∈ q.receipts c.envelope.deliveryId, r.status ≠ .acknowledged) ∨
  ((∀ e ∈ q.streams c.envelope.stream, e.streamId ≠ c.streamId) ∧
    ∀ item ∈ q.queues c.envelope.threadId, item.id ∉ c.envelope.ackIds)

instance (q : MemoryMessageQueue) (c : ClaimedEnvelope) : Decidable (ackOnce q c) := by
  unfold ackOnce
  infer_instance

/-- A dispatch that its receipt answers, or one of whose messages waits in the queue of its
thread. -/
def Dispatch.Known (q : MemoryMessageQueue) (d : Dispatch) : Prop :=
  (∃ r ∈ q.receipts d.deliveryId, r.fingerprint ≠ d.fingerprint ∨ r.status ≠ .returned) ∨
  ∃ item ∈ q.queues d.threadId, item.id ∈ d.messageIds

instance (q : MemoryMessageQueue) (d : Dispatch) : Decidable (d.Known q) := by
  unfold Dispatch.Known
  infer_instance

/-- What a call must keep to. -/
def Op.Alike (s : Session MemoryMessageQueue) : Op → Prop
  | .dispatch d =>
    d.messageIds ≠ [] ∧ d.messageIds.Nodup ∧ d.correlationId ≠ some "" ∧ d.Known s.queue
  | .dispatchTurnStart e => e.Readable ∧ e.queued = false
  | .dispatchAgent e | .dispatchReport e => e.Readable
  | .claim turnId _ => oneInFlight (s.queue.streams (.turn turnId))
  | .claimThread threadId _ => oneInFlight (s.queue.streams (.thread threadId))
  | .claimTurnStart _ recover => recover = true ∨ oneInFlight (s.queue.streams .turnStart)
  | .claimReport threadId _ recover =>
    recover = true ∨ oneInFlight (s.queue.streams (.report threadId))
  | .peekThread threadId => ∀ e ∈ (s.queue.streams (.thread threadId)).head?, e.owner = none
  | .ack k => ∀ c ∈ s.claims[k]?, ackOnce s.queue c
  | _ => True

instance (s : Session MemoryMessageQueue) (op : Op) : Decidable (op.Alike s) := by
  unfold Op.Alike
  split <;> infer_instance

/-! ## Messages -/

/-- The messages of the in-memory queue as a ledger of creations. -/
def MemoryMessageQueue.ledger (q : MemoryMessageQueue) : Ledger :=
  { Ledger.new with created := fun t => (q.queues t).map QueuedMessage.id }

/-- The hash and the order hold the messages of the queues, alike and in the same order. -/
structure MirrorsQueues (q : MemoryMessageQueue) (r : Redis) : Prop where
  index : Indexed r q.ledger
  ids : ∀ t, ((q.queues t).map QueuedMessage.id).Nodup
  items : ∀ t, ∀ m ∈ q.queues t, m.threadId = t ∧ ∃ m', r.messages t m.id = some m' ∧
    m'.plain = m.plain

namespace MirrorsQueues

variable {q : MemoryMessageQueue} {r : Redis}

theorem zrange (h : MirrorsQueues q r) (t : String) :
    r.zrange t = (q.queues t).map QueuedMessage.id :=
  h.index.created t

/-- A message Redis holds is one of the queue. -/
theorem of_messages (h : MirrorsQueues q r) {t id : String} {m' : QueuedMessage}
    (hm : r.messages t id = some m') : ∃ m ∈ q.queues t, m.id = id ∧ m'.plain = m.plain := by
  have hin := (h.index.fields t id).mp (by rw [hm]; rfl)
  rw [h.zrange] at hin
  obtain ⟨m, hmq, rfl⟩ := List.mem_map.mp hin
  obtain ⟨-, m'', hm'', hp⟩ := h.items t m hmq
  rw [hm] at hm''
  cases hm''
  exact ⟨m, hmq, rfl, hp⟩

/-- Both look up a message alike. -/
theorem find (h : MirrorsQueues q r) (t id : String) :
    ((q.queues t).find? (·.id == id) = none ∧ r.messages t id = none) ∨
    ∃ m m', (q.queues t).find? (·.id == id) = some m ∧ r.messages t id = some m' ∧ m ∈ q.queues t ∧
      m.id = id ∧ m'.plain = m.plain := by
  cases hf : (q.queues t).find? (·.id == id) with
  | none =>
    refine .inl ⟨rfl, ?_⟩
    cases hm : r.messages t id with
    | none => rfl
    | some m' =>
      obtain ⟨m, hmq, hid, -⟩ := h.of_messages hm
      exact absurd hid (by simpa using List.find?_eq_none.mp hf m hmq)
  | some m =>
    have hmq := List.mem_of_find?_eq_some hf
    have hid : m.id = id := by simpa using List.find?_some hf
    obtain ⟨-, m', hm', hp⟩ := h.items t m hmq
    exact .inr ⟨m, m', rfl, hid ▸ hm', hmq, hid, hp⟩

/-- Other parts of the states do not matter. -/
theorem of_eq (h : MirrorsQueues q r) {q' : MemoryMessageQueue} {r' : Redis}
    (hq : q'.queues = q.queues) (hm : r'.messages = r.messages) (ho : r'.order = r.order)
    (hs : r'.sequence = r.sequence) : MirrorsQueues q' r' := by
  refine ⟨h.index.of_eq (fun t id => by rw [hm]) ho hs ?_, fun t => by
    rw [hq]; exact h.ids t, fun t m hmq => ?_⟩
  · unfold MemoryMessageQueue.ledger
    rw [hq]
  · rw [hq] at hmq
    rw [hm]
    exact h.items t m hmq

/-- The queue of a thread is replaced, and so are texts of the hash. -/
theorem setQueue (h : MirrorsQueues q r) {t : String} {items : List QueuedMessage} {r' : Redis}
    (hids : items.map QueuedMessage.id = (q.queues t).map QueuedMessage.id)
    (hitems : ∀ m ∈ items, m.threadId = t ∧ ∃ m', r'.messages t m.id = some m' ∧ m'.plain = m.plain)
    (hindex : Indexed r' q.ledger) (hother : ∀ t', t' ≠ t → r'.messages t' = r.messages t') :
    MirrorsQueues (q.setQueue t items) r' := by
  have hcreated : (q.setQueue t items).ledger.created = q.ledger.created := by
    funext t'
    show ((q.setQueue t items).queues t').map _ = (q.queues t').map _
    rw [setQueue_queues]
    split
    · next ht => subst ht; exact hids
    · rfl
  refine ⟨hindex.of_eq (fun _ _ => rfl) rfl rfl hcreated, fun t' => ?_, fun t' m hm => ?_⟩
  · rw [setQueue_queues]
    split
    · next ht => subst ht; rw [hids]; exact h.ids t'
    · exact h.ids t'
  · rw [setQueue_queues] at hm
    split at hm
    · next ht => subst ht; exact hitems m hm
    · next ht =>
      rw [hother t' ht]
      exact h.items t' m hm

/-- Messages are changed one by one. -/
theorem rewrite (h : MirrorsQueues q r) {t : String} {g : QueuedMessage → QueuedMessage}
    {r' : Redis} (hg : ∀ m ∈ q.queues t, (g m).id = m.id ∧ (g m).threadId = m.threadId)
    (hm : ∀ m ∈ q.queues t, ∃ m', r'.messages t m.id = some m' ∧ m'.plain = (g m).plain)
    (hindex : Indexed r' q.ledger) (hother : ∀ t', t' ≠ t → r'.messages t' = r.messages t') :
    MirrorsQueues (q.setQueue t ((q.queues t).map g)) r' := by
  refine h.setQueue ?_ (fun m₁ hm₁ => ?_) hindex hother
  · rw [List.map_map]
    exact List.map_congr_left fun m hmq => (hg m hmq).1
  · obtain ⟨m, hmq, rfl⟩ := List.mem_map.mp hm₁
    rw [(hg m hmq).1, (hg m hmq).2]
    exact ⟨(h.items t m hmq).1, hm m hmq⟩

/-- Messages leave. -/
theorem filtered (h : MirrorsQueues q r) {t : String} {p : String → Bool} {r' : Redis} {l : Ledger}
    (hindex : Indexed r' l) (hcreated : ∀ t', l.created t' =
      if t' = t then (q.ledger.created t).filter p else q.ledger.created t')
    (hm : ∀ id, p id → r'.messages t id = r.messages t id)
    (hother : ∀ t', t' ≠ t → r'.messages t' = r.messages t') :
    MirrorsQueues (q.setQueue t ((q.queues t).filter fun m => p m.id)) r' := by
  refine ⟨hindex.of_eq (fun _ _ => rfl) rfl rfl ?_, fun t' => ?_, fun t' m hmq => ?_⟩
  · funext t'
    rw [hcreated]
    show ((q.setQueue t _).queues t').map _ = _
    rw [setQueue_queues]
    split
    · show _ = ((q.queues t).map QueuedMessage.id).filter p
      rw [List.filter_map]
      rfl
    · rfl
  · rw [setQueue_queues]
    split
    · exact (h.ids t).sublist (List.filter_sublist.map _)
    · exact h.ids t'
  · rw [setQueue_queues] at hmq
    split at hmq
    · next ht =>
      subst ht
      obtain ⟨hmq, hp⟩ := List.mem_filter.mp hmq
      rw [hm m.id hp]
      exact h.items t' m hmq
    · next ht =>
      rw [hother t' ht]
      exact h.items t' m hmq

end MirrorsQueues

/-! ## Streams and receipts -/

/-- The envelope is acknowledged under the fingerprint, also after it was read back. -/
def MessageEnvelope.Keeps (e : MessageEnvelope) (fp : Fingerprint) : Prop :=
  e.ackFingerprint = fp ∧
    (MemoryMessageQueue.consumes e = true ∨ (e.createdAt ≠ "" ∧ e.correlationId ≠ some ""))

namespace MessageEnvelope

variable {e : MessageEnvelope} {fp : Fingerprint}

theorem Keeps.attempts (h : e.Keeps fp) (n : Nat) : { e with attempts := n }.Keeps fp := h

theorem Keeps.json (h : e.Keeps fp) : e.json.Keeps fp := by
  have hc : MemoryMessageQueue.consumes e.json = MemoryMessageQueue.consumes e :=
    base_consumes (base_json e)
  refine ⟨?_, by rw [hc]; exact h.2⟩
  rw [← h.1]
  unfold ackFingerprint
  rw [hc]
  split
  · rfl
  · unfold envelopeFingerprint
    exact congrArg Fingerprint.envelope (json_json { e with attempts := 0 })

theorem Keeps.fromDict (h : e.Keeps fp) (now : String) : (e.fromDict now).Keeps fp := by
  obtain ⟨hfp, hc | ⟨hcreated, hcorr⟩⟩ := h
  · have hc' : MemoryMessageQueue.consumes (e.fromDict now) = true := hc
    refine ⟨?_, .inl hc'⟩
    rw [← hfp]
    unfold ackFingerprint
    rw [if_pos hc, if_pos hc']
    rfl
  · have hself : e.fromDict now = e := by
      simp only [MessageEnvelope.fromDict, if_neg hcreated, if_neg hcorr]
    rw [hself]
    exact ⟨hfp, .inr ⟨hcreated, hcorr⟩⟩

end MessageEnvelope

/-- What both streams show of an entry. -/
def Entry.face (e : Entry) : Nat × Bool × MessageEnvelope :=
  (e.streamId, e.owner.isSome, e.envelope.base)

/-- A receipt and its hash. -/
structure MirrorsReceipt (a : Receipt) (b : RedisReceipt) : Prop where
  fingerprint : b.fingerprint = some a.fingerprint
  status : b.status = some a.status
  envelope : ∃ e, b.envelope = some e ∧ e.plain = a.envelope.plain ∧ e.Keeps a.fingerprint

/-- A receipt of the in-memory queue. -/
structure Receipt.Own (a : Receipt) (d : String) : Prop where
  delivery : a.envelope.deliveryId = d
  attempts : a.envelope.attempts = 0
  correlation : a.envelope.correlationId ≠ some ""
  fingerprint : a.envelope.ackFingerprint = a.fingerprint

/-- Alike entries and receipts. Only the first entry of a stream is ever in flight, and a delivery
has one entry, whose attempts are counted in its receipt. -/
structure MirrorsStreams (q : MemoryMessageQueue) (r : Redis) : Prop where
  counter : q.counter = r.counter
  streams : ∀ key, (q.streams key).map Entry.face = (r.streams key).map Entry.face
  absent : ∀ d, q.receipts d = none → r.receipts d = .absent
  receipts : ∀ d a, q.receipts d = some a → MirrorsReceipt a (r.receipts d)
  own : ∀ d a, q.receipts d = some a → a.Own d
  head : ∀ key, ∀ e ∈ (q.streams key).tail, e.owner = none
  fresh : ∀ key, ∀ e ∈ q.streams key, e.owner = none → e.envelope.attempts = 0
  counted : ∀ key, ∀ e ∈ q.streams key,
    (r.receipts e.envelope.deliveryId).attempts = some e.envelope.attempts
  backed : ∀ key, ∀ e ∈ q.streams key, ∃ a, q.receipts e.envelope.deliveryId = some a ∧
    a.status ≠ .returned ∧ e.envelope.base = a.envelope.base
  single : ∀ key, ((q.streams key).map fun e => e.envelope.deliveryId).Nodup
  apart : ∀ key key', ∀ e ∈ q.streams key, ∀ e' ∈ q.streams key',
    e.envelope.deliveryId = e'.envelope.deliveryId → key = key'
  raw : ∀ key, ∀ e ∈ r.streams key, e.envelope.attempts = 0 ∧
    ∃ fp, (r.receipts e.envelope.deliveryId).fingerprint = some fp ∧ e.envelope.Keeps fp

structure Mirrors (q : MemoryMessageQueue) (r : Redis) :
    Prop extends MirrorsQueues q r, MirrorsStreams q r

/-- What a claim has to show for its acknowledgement. -/
def ClaimedEnvelope.face (c : ClaimedEnvelope) : Nat × MessageEnvelope :=
  (c.streamId, c.envelope.plain)

structure SideBySide.Mirrored (s : SideBySide) :
    Prop extends Mirrors s.memory.queue s.redis.queue where
  claims : s.memory.claims.map ClaimedEnvelope.face = s.redis.claims.map ClaimedEnvelope.face
  acks : ∀ c ∈ s.redis.claims,
    (s.redis.queue.receipts c.envelope.deliveryId).fingerprint = some c.envelope.ackFingerprint

/-- Two results that may be errors. -/
def Together {α β : Type} (R : α → β → Prop) : Except QueueError α → Except QueueError β → Prop
  | .ok a, .ok b => R a b
  | .error error, .error error' => error = error'
  | _, _ => False

/-! ## Edits -/

namespace Mirrors

variable {q : MemoryMessageQueue} {r : Redis}

theorem streams_of_eq (h : MirrorsStreams q r) {q' : MemoryMessageQueue} {r' : Redis}
    (hq : q'.streams = q.streams) (hqr : q'.receipts = q.receipts) (hqc : q'.counter = q.counter)
    (hr : r'.streams = r.streams) (hrr : r'.receipts = r.receipts) (hrc : r'.counter = r.counter) :
    MirrorsStreams q' r' := by
  obtain ⟨queues, streams, receipts, counter⟩ := q
  obtain ⟨queues', streams', receipts', counter'⟩ := q'
  obtain ⟨a, b, c, d, rstreams, rreceipts, rcounter⟩ := r
  obtain ⟨a', b', c', d', rstreams', rreceipts', rcounter'⟩ := r'
  obtain rfl : streams' = streams := hq
  obtain rfl : receipts' = receipts := hqr
  obtain rfl : counter' = counter := hqc
  obtain rfl : rstreams' = rstreams := hr
  obtain rfl : rreceipts' = rreceipts := hrr
  obtain rfl : rcounter' = rcounter := hrc
  exact ⟨h.counter, h.streams, h.absent, h.receipts, h.own, h.head, h.fresh,
    h.counted, h.backed, h.single,
    h.apart, h.raw⟩

theorem create (h : Mirrors q r) (item : QueuedMessage) (now : String) :
    Together (fun a b => (a.1.1.plain = b.1.1.plain ∧ a.1.2 = b.1.2) ∧ Mirrors a.2 b.2)
      (q.create item) (RedisMessageQueue.create r now item) := by
  simp only [MemoryMessageQueue.create, RedisMessageQueue.create]
  rcases h.toMirrorsQueues.find item.threadId item.id with ⟨hf, hm⟩ | ⟨m, m', hf, hm, -, -, hp⟩
  · rw [hf, hm]
    refine ⟨⟨rfl, rfl⟩, ?_, streams_of_eq h.toMirrorsStreams rfl rfl rfl rfl rfl rfl⟩
    have hindex := h.index.createExec hm rfl
    refine ⟨hindex.of_eq (fun _ _ => rfl) rfl rfl ?_, fun t => ?_, fun t m hmq => ?_⟩
    · funext t
      show ((q.setQueue _ _).queues t).map _ = Function.update q.ledger.created item.threadId _ t
      rw [setQueue_queues]
      by_cases ht : t = item.threadId
      · subst ht
        simp [MemoryMessageQueue.ledger]
      · simp [MemoryMessageQueue.ledger, ht]
    · rw [setQueue_queues]
      split
      · rw [List.map_append]
        refine List.nodup_append.mpr ⟨h.ids _, List.nodup_singleton _, ?_⟩
        rintro a ha b hb rfl
        obtain rfl : a = item.id := List.mem_singleton.mp hb
        obtain ⟨other, ho, hid⟩ := List.mem_map.mp ha
        exact absurd hid (by simpa using List.find?_eq_none.mp hf other ho)
      · exact h.ids t
    · have hold : ∀ t, ∀ m ∈ q.queues t, m.threadId = t ∧ ∃ m',
          (r.createExec item (r.sequence item.threadId + 1)).messages t m.id = some m' ∧
            m'.plain = m.plain := by
        intro t m hmq
        obtain ⟨ht, m', hm', hp⟩ := h.items t m hmq
        refine ⟨ht, m', ?_, hp⟩
        rw [Indexed.createExec_messages, if_neg]
        · exact hm'
        · rintro ⟨rfl, hid⟩
          rw [hid, hm] at hm'
          cases hm'
      rw [setQueue_queues] at hmq
      split at hmq
      · next ht =>
        subst ht
        rcases List.mem_append.mp hmq with hmq | hmq
        · exact hold _ m hmq
        · obtain rfl := List.mem_singleton.mp hmq
          exact ⟨rfl, m.json, by rw [Indexed.createExec_messages, if_pos ⟨rfl, rfl⟩], m.plain_json⟩
      · exact hold t m hmq
  · rw [hf, hm]
    simp only [createRead]
    have hsame : sameCreate (m'.fromDict now) item = sameCreate m item :=
      QueuedMessage.sameCreate_plain (m'.plain_fromDict now ▸ hp) item
    rw [hsame]
    split
    · exact ⟨⟨(m'.plain_fromDict now ▸ hp).symm, rfl⟩, h⟩
    · rfl

/-- With distinct ids the first match is the only one. -/
theorem replaceFirst_eq_map {items : List QueuedMessage} (hnd : (items.map QueuedMessage.id).Nodup)
    (id : String) (u : QueuedMessage) :
    replaceFirst (·.id == id) (fun _ => u) items =
      items.map fun m => if m.id = id then u else m := by
  induction items with
  | nil => rfl
  | cons m items ih =>
    obtain ⟨hm, hnd⟩ := List.nodup_cons.mp hnd
    rw [replaceFirst, List.map_cons]
    by_cases hid : m.id = id
    · have hrest : (items.map fun m => if m.id = id then u else m) = items := by
        refine (List.map_congr_left fun m' hm' => ?_).trans (List.map_id items)
        have hne : m'.id ≠ id := fun h => hm (List.mem_map.mpr ⟨m', hm', h.trans hid.symm⟩)
        rw [if_neg hne]
        rfl
      rw [if_pos (beq_iff_eq.mpr hid), if_pos hid, hrest]
    · rw [if_neg (by simpa using hid), if_neg hid, ih hnd]

theorem eraseP_eq_filter {items : List QueuedMessage} (hnd : (items.map QueuedMessage.id).Nodup)
    (id : String) : items.eraseP (·.id == id) = items.filter fun m => m.id ≠ id := by
  induction items with
  | nil => rfl
  | cons m items ih =>
    obtain ⟨hm, hnd⟩ := List.nodup_cons.mp hnd
    by_cases hid : m.id = id
    · have hrest : (items.filter fun m => m.id ≠ id) = items := by
        refine List.filter_eq_self.mpr fun m' hm' => ?_
        have hne : m'.id ≠ id := fun h => hm (List.mem_map.mpr ⟨m', hm', h.trans hid.symm⟩)
        simpa using hne
      rw [List.eraseP_cons_of_pos (by simpa using hid),
        List.filter_cons_of_neg (by simpa using hid), hrest]
    · rw [List.eraseP_cons_of_neg (by simpa using hid),
        List.filter_cons_of_pos (by simpa using hid), ih hnd]

theorem update (h : Mirrors q r) (t id content : String) (references : List Fields)
    (now now' : String) :
    Together (fun a b => a.1.plain = b.1.plain ∧ Mirrors a.2 b.2)
      (q.update now t id content references)
      (RedisMessageQueue.update r now' t id content references) := by
  simp only [MemoryMessageQueue.update, RedisMessageQueue.update, updateRead]
  rcases h.toMirrorsQueues.find t id with ⟨hf, hm⟩ | ⟨m, m', hf, hm, hmq, hid, hp⟩
  · rw [hf, hm]
    rfl
  · rw [hf, hm]
    have hp' : (m'.fromDict now').plain = m.plain := m'.plain_fromDict now' ▸ hp
    simp only [pendingRead, QueuedMessage.plain_state hp']
    split
    · rfl
    · have hu := QueuedMessage.plain_edit hp' content references now' now
      simp only [QueuedMessage.check_edit hp' content references now' now]
      cases { m with content := content, references := references, updatedAt := now }.check with
      | some text => rfl
      | none =>
        refine ⟨hu.symm, ?_, streams_of_eq h.toMirrorsStreams rfl rfl rfl rfl rfl rfl⟩
        rw [replaceFirst_eq_map (h.ids t)]
        refine h.toMirrorsQueues.rewrite (fun m₁ hm₁ => ?_) (fun m₁ hm₁ => ?_)
          (h.index.hset (by rw [hm]; rfl)) fun t' ht' => ?_
        · split
          · next he => rw [item_unique (h.ids t) hm₁ hmq (he.trans hid.symm)]; exact ⟨rfl, rfl⟩
          · exact ⟨rfl, rfl⟩
        · rw [Indexed.hset_messages]
          by_cases he : m₁.id = id
          · rw [if_pos ⟨rfl, he⟩, if_pos he]
            exact ⟨_, rfl, (QueuedMessage.plain_json _).trans hu⟩
          · rw [if_neg fun hc => he hc.2, if_neg he]
            exact (h.items t m₁ hm₁).2
        · funext id'
          rw [Indexed.hset_messages, if_neg fun hc => ht' hc.1]

theorem delete (h : Mirrors q r) (t id : String) (now : String) :
    Together Mirrors (q.delete t id) (RedisMessageQueue.delete r now t id) := by
  simp only [MemoryMessageQueue.delete, RedisMessageQueue.delete]
  rcases h.toMirrorsQueues.find t id with ⟨hf, hm⟩ | ⟨m, m', hf, hm, hmq, hid, hp⟩
  · rw [hf, hm]
    rfl
  · rw [hf, hm]
    have hp' : (m'.fromDict now).plain = m.plain := m'.plain_fromDict now ▸ hp
    simp only [pendingRead, QueuedMessage.plain_state hp']
    split
    · rfl
    · refine ⟨?_, streams_of_eq h.toMirrorsStreams rfl rfl rfl ?_ (deleteExec_receipts r t id) ?_⟩
      · rw [eraseP_eq_filter (h.ids t)]
        refine h.toMirrorsQueues.filtered (p := fun i => i ≠ id) (h.index.deleteExec t id)
          (fun t' => ?_)
          (fun id' hid' => ?_) fun t' ht' => ?_
        · show Function.update _ t _ t' = _
          by_cases ht : t' = t
          · subst ht
            rw [Function.update_self, if_pos rfl]
          · rw [Function.update_of_ne ht, if_neg ht]
        · rw [Indexed.deleteExec_messages, if_neg fun hc => by simp [hc.2] at hid']
        · funext id'
          rw [Indexed.deleteExec_messages, if_neg fun hc => ht' hc.1]
      · show (r.hdel t id).streams = _
        rw [Redis.hdel]
        split <;> rfl
      · show (r.hdel t id).counter = _
        rw [Redis.hdel]
        split <;> rfl

theorem list (h : Mirrors q r) (t now : String) :
    (q.list t).map QueuedMessage.plain = (RedisMessageQueue.list r now t).map
      QueuedMessage.plain := by
  rw [MemoryMessageQueue.list, RedisMessageQueue.list, h.zrange]
  have hall : ∀ items : List QueuedMessage, (∀ m ∈ items, ∃ m', r.messages t m.id = some m' ∧
      m'.plain = m.plain) →
      items.map QueuedMessage.plain =
        ((((items.map QueuedMessage.id).map (r.messages t)).reduceOption.map
        (QueuedMessage.fromDict now)).map QueuedMessage.plain) := by
    intro items
    induction items with
    | nil => intro _; rfl
    | cons m items ih =>
      intro hitems
      obtain ⟨m', hm', hp⟩ := hitems m List.mem_cons_self
      simp only [List.map_cons, hm', List.reduceOption_cons_of_some,
        QueuedMessage.plain_fromDict, hp]
      rw [ih fun m₁ hm₁ => hitems m₁ (List.mem_cons_of_mem _ hm₁)]
  exact hall _ fun m hm => (h.items t m hm).2

end Mirrors

/-! ## Dispatches -/

theorem redis_setReceipt (r : Redis) (d d' : String) (receipt : RedisReceipt) :
    (r.setReceipt d receipt).receipts d' = if d' = d then receipt else r.receipts d' := by
  by_cases h : d' = d <;> simp [Redis.setReceipt, h]

namespace MirrorsStreams

variable {q : MemoryMessageQueue} {r : Redis} {key : StreamKey}

/-- An entry of Redis has its like in memory. -/
theorem of_redis (h : MirrorsStreams q r) {b : Entry} (hb : b ∈ r.streams key) :
    ∃ a ∈ q.streams key, a.face = b.face := by
  have hmem : b.face ∈ (q.streams key).map Entry.face := by
    rw [h.streams]
    exact List.mem_map_of_mem hb
  exact List.mem_map.mp hmem

theorem face_base {a b : Entry} (h : a.face = b.face) : a.envelope.base = b.envelope.base :=
  (Prod.mk.inj (Prod.mk.inj h).2).2

theorem face_delivery {a b : Entry} (h : a.face = b.face) :
    a.envelope.deliveryId = b.envelope.deliveryId :=
  MessageEnvelope.base_deliveryId (face_base h)

/-- A delivery that may be sent has no entry. -/
theorem no_entry (h : MirrorsStreams q r) {d : String}
    (hfree : ∀ a, q.receipts d = some a → a.status = .returned) {e : Entry}
    (he : e ∈ q.streams key) :
    e.envelope.deliveryId ≠ d := by
  rintro rfl
  obtain ⟨a, ha, hst, -⟩ := h.backed key e he
  exact hst (hfree a ha)

/-- **An alike entry is added** to both streams. -/
theorem append (h : MirrorsStreams q r) {e e' : MessageEnvelope} {fp : Fingerprint}
    (hplain : e'.plain = e.plain) (hattempts : e.attempts = 0) (hcorr : e.correlationId ≠ some "")
    (hkeep : e'.Keeps fp) (hfp : e.ackFingerprint = fp)
    (hfree : ∀ a, q.receipts e.deliveryId = some a → a.status = .returned) :
    MirrorsStreams (q.append key e fp)
      ((r.xadd key e').setReceipt e.deliveryId ⟨some fp, some .dispatched,
        some 0, some e', false⟩) := by
  have hbase := MessageEnvelope.base_of_plain hplain
  have hattempts' : e'.attempts = 0 :=
    (congrArg MessageEnvelope.attempts hplain : e'.plain.attempts = e.plain.attempts).trans
      hattempts
  have hfree' := fun k a (ha : a ∈ q.streams k) => h.no_entry hfree ha
  have hredis : ∀ k, ∀ b ∈ r.streams k, b.envelope.deliveryId ≠ e.deliveryId := by
    intro k b hb
    obtain ⟨a, ha, hface⟩ := h.of_redis hb
    rw [← face_delivery hface]
    exact hfree' k a ha
  have hmem : ∀ k b, b ∈ (r.xadd key e').streams k ↔
      b ∈ r.streams k ∨ (k = key ∧ b = ⟨r.counter + 1, e', none⟩) := by
    intro k b
    by_cases hk : k = key
    · subst hk
      simp [Redis.xadd]
    · simp [Redis.xadd, hk]
  refine
    { counter := congrArg (· + 1) h.counter
      streams := fun k => ?_
      absent := fun d hd => ?_
      receipts := fun d a ha => ?_
      own := fun d a ha => ?_
      head := fun k a ha => ?_
      fresh := fun k a ha ho => ?_
      counted := fun k a ha => ?_
      backed := fun k a ha => ?_
      single := fun k => ?_
      apart := fun k k' a ha b hb hd => ?_
      raw := fun k b hb => ?_ }
  · by_cases hk : k = key
    · subst hk
      simp [MemoryMessageQueue.append, Redis.setReceipt, Redis.xadd, h.streams,
        Entry.face, hbase, h.counter]
    · simp [MemoryMessageQueue.append, Redis.setReceipt, Redis.xadd, hk, h.streams]
  · rw [append_receipts] at hd
    split at hd
    · cases hd
    · next hne =>
      rw [redis_setReceipt, if_neg hne]
      exact h.absent d hd
  · rw [append_receipts] at ha
    rw [redis_setReceipt]
    split at ha
    · next heq =>
      cases ha
      rw [if_pos heq]
      exact ⟨rfl, rfl, e', rfl, hplain, hkeep⟩
    · next hne =>
      rw [if_neg hne]
      exact h.receipts d a ha
  · rw [append_receipts] at ha
    split at ha
    · next heq => cases ha; exact ⟨heq.symm, hattempts, hcorr, hfp⟩
    · exact h.own d a ha
  · by_cases hk : k = key
    · subst hk
      simp only [MemoryMessageQueue.append, Function.update_self] at ha
      cases hl : q.streams k with
      | nil =>
        rw [hl] at ha
        cases ha
      | cons x rest =>
        rw [hl] at ha
        rcases List.mem_append.mp ha with ha | ha
        · exact h.head k a (by rw [hl]; exact ha)
        · rw [List.mem_singleton.mp ha]
    · simp only [MemoryMessageQueue.append, Function.update_of_ne hk] at ha
      exact h.head k a ha
  · rcases (mem_append_streams q).mp ha with ha | ⟨rfl, rfl⟩
    · exact h.fresh k a ha ho
    · exact hattempts
  · rw [redis_setReceipt]
    rcases (mem_append_streams q).mp ha with ha | ⟨rfl, rfl⟩
    · rw [if_neg (hfree' k a ha)]
      exact h.counted k a ha
    · rw [if_pos rfl, hattempts]
  · rw [append_receipts]
    rcases (mem_append_streams q).mp ha with ha | ⟨rfl, rfl⟩
    · rw [if_neg (hfree' k a ha)]
      exact h.backed k a ha
    · rw [if_pos rfl]
      exact ⟨_, rfl, by simp, rfl⟩
  · by_cases hk : k = key
    · subst hk
      simp only [MemoryMessageQueue.append, Function.update_self, List.map_append]
      refine List.nodup_append.mpr ⟨h.single k, List.nodup_singleton _, ?_⟩
      rintro x hx y hy rfl
      obtain ⟨a, ha, rfl⟩ := List.mem_map.mp hx
      exact hfree' k a ha (List.mem_singleton.mp hy)
    · simp only [MemoryMessageQueue.append, Function.update_of_ne hk]
      exact h.single k
  · rcases (mem_append_streams q).mp ha with ha' | ⟨rfl, rfl⟩ <;>
      rcases (mem_append_streams q).mp hb with hb' | ⟨rfl, rfl⟩
    · exact h.apart k k' a ha' b hb' hd
    · exact absurd hd (hfree' k a ha')
    · exact absurd hd.symm (hfree' k' b hb')
    · rfl
  · rw [redis_setReceipt]
    rcases (hmem k b).mp hb with hb | ⟨rfl, rfl⟩
    · rw [if_neg (hredis k b hb)]
      exact h.raw k b hb
    · rw [if_pos (MessageEnvelope.base_deliveryId hbase)]
      exact ⟨hattempts', fp, rfl, hkeep⟩

end MirrorsStreams

theorem hsetAll_streams (r : Redis) (t : String) (writes : List (String × QueuedMessage)) :
    (r.hsetAll t writes).streams = r.streams := by
  rw [Redis.hsetAll]
  induction writes generalizing r with
  | nil => rfl
  | cons x writes ih => exact ih _

theorem hsetAll_counter (r : Redis) (t : String) (writes : List (String × QueuedMessage)) :
    (r.hsetAll t writes).counter = r.counter := by
  rw [Redis.hsetAll]
  induction writes generalizing r with
  | nil => rfl
  | cons x writes ih => exact ih _

/-- What a list of writes leaves under an id. -/
theorem hsetAll_cases (r : Redis) (t : String) (writes : List (String × QueuedMessage))
    (t' id' : String) :
    ((r.hsetAll t writes).messages t' id' = r.messages t' id' ∧
      ¬(t' = t ∧ id' ∈ writes.map Prod.fst)) ∨
    (t' = t ∧ ∃ x ∈ writes, x.1 = id' ∧ (r.hsetAll t writes).messages t' id' = some x.2) := by
  rw [Redis.hsetAll]
  induction writes generalizing r with
  | nil => exact .inl ⟨rfl, by simp⟩
  | cons x writes ih =>
    rcases ih (r.hset t x.1 x.2) with ⟨hm, hnot⟩ | ⟨ht, y, hy, hid, hm⟩
    · rw [Indexed.hset_messages] at hm
      by_cases he : t' = t ∧ id' = x.1
      · refine .inr ⟨he.1, x, List.mem_cons_self, he.2.symm, ?_⟩
        rw [List.foldl_cons, hm, if_pos he]
      · refine .inl ⟨?_, fun hc => ?_⟩
        · rw [List.foldl_cons, hm, if_neg he]
        · rcases List.mem_cons.mp hc.2 with hx | hx
          · exact he ⟨hc.1, hx⟩
          · exact hnot ⟨hc.1, hx⟩
    · exact .inr ⟨ht, y, List.mem_cons_of_mem _ hy, hid, hm⟩

theorem hsetAll_other (r : Redis) (t : String) (writes : List (String × QueuedMessage))
    {t' : String} (h : t' ≠ t) : (r.hsetAll t writes).messages t' = r.messages t' := by
  funext id'
  rcases hsetAll_cases r t writes t' id' with ⟨hm, -⟩ | ⟨ht, -⟩
  · exact hm
  · exact absurd ht h

/-- **Messages are marked** in the queue and in the hash. -/
theorem MirrorsQueues.mark {q : MemoryMessageQueue} {r : Redis} (h : MirrorsQueues q r)
    {t now : String}
    {ids : List String} {state : QueueMessageState} {writes : List (String × QueuedMessage)}
    (hw : ∀ x ∈ writes, ∃ m ∈ q.queues t, m.id = x.1 ∧ m.id ∈ ids ∧
      x.2.plain = (m.withState state now).plain)
    (hall : ∀ m ∈ q.queues t, m.id ∈ ids → m.id ∈ writes.map Prod.fst) :
    MirrorsQueues (q.mark t ids state now) (r.hsetAll t writes) := by
  refine h.rewrite (fun m _ => ?_) (fun m hmq => ?_) (h.index.hsetAll fun x hx => ?_) fun t' ht' =>
    hsetAll_other r t writes ht'
  · split <;> exact ⟨rfl, rfl⟩
  · rcases hsetAll_cases r t writes t m.id with ⟨hm, hnot⟩ | ⟨-, x, hx, hid, hm⟩
    · have hni : m.id ∉ ids := fun hin => hnot ⟨rfl, hall m hmq hin⟩
      rw [if_neg hni, hm]
      exact (h.items t m hmq).2
    · obtain ⟨m₁, hm₁, hid₁, hin, hp⟩ := hw x hx
      obtain rfl := item_unique (h.ids t) hm₁ hmq (hid₁.trans hid)
      rw [if_pos hin]
      exact ⟨x.2, hm, hp⟩
  · obtain ⟨m, hmq, hid, -⟩ := hw x hx
    obtain ⟨-, m', hm', -⟩ := h.items t m hmq
    rw [← hid, hm']
    rfl

/-! ### Direct dispatches -/

theorem envelopeFingerprint_plain {a b : MessageEnvelope}
    (h : envelopeFingerprint a = envelopeFingerprint b) (ha : a.attempts = 0)
    (hb : b.attempts = 0) : a.plain = b.plain := by
  unfold envelopeFingerprint at h
  injection h with h
  have ha' : { a with attempts := 0 } = a := by rw [← ha]
  have hb' : { b with attempts := 0 } = b := by rw [← hb]
  rw [ha', hb'] at h
  unfold MessageEnvelope.plain
  rw [h]

theorem Mirrors.dispatchDirect {q : MemoryMessageQueue} {r : Redis} (h : Mirrors q r)
    (sender : SenderKind) (target : TargetKind) (complaint : String) {e : MessageEnvelope}
    (hread : e.Readable) (hc : e.targetKind = target → MemoryMessageQueue.consumes e = false) :
    Together (fun a b => a.1.plain = b.1.plain ∧ Mirrors a.2 b.2)
      (q.dispatchDirect sender target complaint e)
      (RedisMessageQueue.dispatchDirect r sender target complaint e) := by
  obtain ⟨hattempts, hcreated, hcorr⟩ := hread
  simp only [MemoryMessageQueue.dispatchDirect, RedisMessageQueue.dispatchDirect]
  split
  · rfl
  next hkind =>
  rw [not_or, not_not, not_not] at hkind
  have hc := hc hkind.2
  have hack : e.ackFingerprint = envelopeFingerprint e := by
    unfold MessageEnvelope.ackFingerprint
    rw [hc]
    rfl
  have hself : { e with attempts := 0 } = e := by rw [← hattempts]
  rw [hself]
  cases ha : q.receipts e.deliveryId with
  | none =>
    have habs := h.absent _ ha
    have hreceipt : (r.receipts e.json.deliveryId).fingerprint = none := by
      show (r.receipts e.deliveryId).fingerprint = none
      rw [habs]
      rfl
    simp only [Redis.directDispatchScript, hreceipt]
    refine ⟨rfl, h.toMirrorsQueues.of_eq rfl rfl rfl rfl, ?_⟩
    refine h.toMirrorsStreams.append (MessageEnvelope.plain_json e) hattempts hcorr
      (MessageEnvelope.Keeps.json ⟨hack, .inr ⟨hcreated, hcorr⟩⟩) hack fun a ha' => ?_
    rw [ha] at ha'
    cases ha'
  | some a =>
    have hm := h.receipts _ a ha
    have hown := h.own _ a ha
    have hreceipt : (r.receipts e.json.deliveryId).fingerprint = some a.fingerprint :=
      hm.fingerprint
    simp only [Redis.directDispatchScript, hreceipt]
    by_cases hfp : a.fingerprint = envelopeFingerprint e
    · rw [if_neg (not_not.mpr hfp), if_neg (not_not.mpr hfp)]
      refine ⟨?_, h⟩
      have hafp : a.envelope.ackFingerprint = envelopeFingerprint e := hown.fingerprint.trans hfp
      have haenv : a.envelope.ackFingerprint = envelopeFingerprint a.envelope := by
        unfold MessageEnvelope.ackFingerprint at hafp ⊢
        split at hafp
        · cases hafp
        · next hn => rw [if_neg hn]
      exact envelopeFingerprint_plain (haenv.symm.trans hafp) hown.attempts hattempts
    · rw [if_pos hfp, if_pos hfp]
      rfl

/-! ### Dispatches of queued messages -/

section Dispatch

variable {q : MemoryMessageQueue} {r : Redis} {d : Dispatch}

/-- Redis selects what the queue selects. -/
theorem MirrorsQueues.canonicalIds (h : MirrorsQueues q r) (d : Dispatch) :
    d.canonicalIds (r.zrange d.threadId) = (selected q d).map QueuedMessage.id := by
  rw [h.zrange, Dispatch.canonicalIds, List.filter_map]
  rfl

/-- The texts read for messages of the queue. -/
theorem MirrorsQueues.texts (h : MirrorsQueues q r) {t : String} {items : List QueuedMessage}
    (hin : ∀ m ∈ items, m ∈ q.queues t) :
    none ∉ (items.map QueuedMessage.id).map (r.messages t) ∧
    ((items.map QueuedMessage.id).map (r.messages t)).reduceOption.map QueuedMessage.plain =
      items.map QueuedMessage.plain := by
  induction items with
  | nil => exact ⟨nofun, rfl⟩
  | cons m items ih =>
    obtain ⟨hnone, hplain⟩ := ih fun m' hm' => hin m' (List.mem_cons_of_mem _ hm')
    obtain ⟨-, m', hm', hp⟩ := h.items t m (hin m List.mem_cons_self)
    simp only [List.map_cons, hm', List.reduceOption_cons_of_some, hplain, hp]
    refine ⟨fun hmem => ?_, trivial⟩
    rcases List.mem_cons.mp hmem with hmem | hmem
    · cases hmem
    · exact hnone hmem

/-- What is told from alike messages by a test on their plain forms. -/
theorem any_plain {l l' : List QueuedMessage} {p : QueuedMessage → Bool}
    (hp : ∀ a b : QueuedMessage, a.plain = b.plain → p a = p b)
    (h : l.map QueuedMessage.plain = l'.map QueuedMessage.plain) : l.any p = l'.any p := by
  induction l generalizing l' with
  | nil =>
    cases l' with
    | nil => rfl
    | cons _ _ => cases h
  | cons a l ih =>
    cases l' with
    | nil => cases h
    | cons b l' =>
      injection h with hab hrest
      rw [List.any_cons, List.any_cons, hp a b hab, ih hrest]

/-- A delivery that both queues send again, or that neither has. -/
def Resent (d : Dispatch) (stored stored' : Option MessageEnvelope) : Prop :=
  (stored = none ∧ stored' = none) ∨
  ∃ e e', stored = some e ∧ stored' = some e' ∧ e'.plain = e.plain ∧ e.attempts = 0 ∧
    e.correlationId ≠ some "" ∧ e.deliveryId = d.deliveryId ∧ e.ackFingerprint = d.fingerprint ∧
    e'.Keeps d.fingerprint

/-- The envelope of a delivery of messages. -/
theorem ackFingerprint_messages {e : MessageEnvelope} (h : e.ackFingerprint = d.fingerprint) :
    e.threadId = d.threadId ∧ e.sourceMessageIds.Perm d.messageIds := by
  unfold MessageEnvelope.ackFingerprint at h
  split at h
  · obtain ⟨ht, -, hids⟩ := fingerprint_inj h
    exact ⟨ht, hids⟩
  · cases h

/-- The envelopes both queues send. -/
theorem envelopes_alike (hd : d.correlationId ≠ some "") {stored stored' : Option MessageEnvelope}
    (hs : Resent d stored stored') {items queued : List QueuedMessage} (now now' : String)
    (hplain : queued.map QueuedMessage.plain = items.map QueuedMessage.plain)
    (hids : (items.map QueuedMessage.id).Perm d.messageIds) :
    (stored'.getD (d.envelope queued now')).plain = (stored.getD (d.envelope items now)).plain ∧
    (stored.getD (d.envelope items now)).attempts = 0 ∧
    (stored.getD (d.envelope items now)).correlationId ≠ some "" ∧
    (stored.getD (d.envelope items now)).deliveryId = d.deliveryId ∧
    (stored.getD (d.envelope items now)).ackFingerprint = d.fingerprint ∧
    (stored'.getD (d.envelope queued now')).Keeps d.fingerprint := by
  have hconsumes : ∀ l n, MemoryMessageQueue.consumes (d.envelope l n) = true := by
    intro l n
    cases hc : d.commandPayload <;>
      simp [Dispatch.envelope, MemoryMessageQueue.consumes, hc, MessageEnvelope.queued, Json.truthy]
  have hack : ∀ l n, (l.map QueuedMessage.id).Perm d.messageIds →
      (d.envelope l n).ackFingerprint = d.fingerprint := by
    intro l n hl
    unfold MessageEnvelope.ackFingerprint
    rw [if_pos (hconsumes l n)]
    exact fingerprint_perm hl
  rcases hs with ⟨rfl, rfl⟩ | ⟨e, e', rfl, rfl, hp, ha, hc, hid, hfp, hk⟩
  · refine ⟨d.envelope_plain now' now hplain, rfl, hd, rfl, hack items now hids,
      ?_, .inl (hconsumes _ _)⟩
    exact hack queued now' (map_id_of_plain hplain ▸ hids)
  · exact ⟨hp, ha, hc, hid, hfp, hk⟩

/-- Messages that are as they were read pass the script. -/
theorem changed_none {t : String} {items : List Redispatch}
    (h : ∀ item ∈ items, r.messages t item.id = some item.raw ∧ item.raw.state = .pending) :
    r.changed t items = none := by
  induction items with
  | nil => rfl
  | cons item items ih =>
    obtain ⟨hm, hp⟩ := h item List.mem_cons_self
    rw [Redis.changed, hm]
    simp only [hp, ne_eq, not_true_eq_false, if_false]
    exact ih fun item' hi' => h item' (List.mem_cons_of_mem _ hi')

/-- Both queues send the selected messages. -/
theorem Mirrors.dispatchExec (h : Mirrors q r) {e e' : MessageEnvelope} {call : DispatchCall}
    (hplain : e'.plain = e.plain) (hattempts : e.attempts = 0) (hcorr : e.correlationId ≠ some "")
    (hid : e.deliveryId = d.deliveryId) (hfp : e.ackFingerprint = d.fingerprint)
    (hkeep : e'.Keeps d.fingerprint)
    (hfree : ∀ a, q.receipts d.deliveryId = some a → a.status = .returned)
    (hcall : call.deliveryId = d.deliveryId ∧ call.fingerprint = d.fingerprint ∧
      call.threadId = d.threadId ∧ call.envelope = e'.json ∧ call.stream = d.stream)
    (hids : call.items.map Redispatch.id = (selected q d).map QueuedMessage.id) (now now' : String)
    (hitems : ∀ item ∈ call.items, r.messages d.threadId item.id = some item.raw ∧
      item.updated = ((item.raw.fromDict now').withState .dispatched now').json) :
    Mirrors ((q.mark d.threadId e.sourceMessageIds .dispatched now).append d.stream e d.fingerprint)
      (r.dispatchExec call) := by
  obtain ⟨hcd, hcfp, hct, hce, hcs⟩ := hcall
  have hperm := (ackFingerprint_messages hfp).2
  have hmark : MirrorsQueues (q.mark d.threadId e.sourceMessageIds .dispatched now)
      (r.hsetAll d.threadId (call.items.map fun item => (item.id, item.updated))) := by
    refine h.toMirrorsQueues.mark (fun x hx => ?_) fun m hmq hin => ?_
    · obtain ⟨item, hi, rfl⟩ := List.mem_map.mp hx
      obtain ⟨hm, hu⟩ := hitems item hi
      obtain ⟨m, hmq, hmid, hp⟩ := h.toMirrorsQueues.of_messages hm
      have hsel : item.id ∈ (selected q d).map QueuedMessage.id := hids ▸ List.mem_map_of_mem hi
      obtain ⟨m₁, hm₁, hid₁⟩ := List.mem_map.mp hsel
      have hasked : m₁.id ∈ d.messageIds := by simpa using (List.mem_filter.mp hm₁).2
      refine ⟨m, hmq, hmid, hperm.mem_iff.mpr ?_, ?_⟩
      · rw [hmid, ← hid₁]
        exact hasked
      · rw [hu, QueuedMessage.plain_json]
        exact QueuedMessage.plain_withState hp .dispatched now' now
    · have hsel : m ∈ selected q d := List.mem_filter.mpr ⟨hmq, by simpa using hperm.mem_iff.mp hin⟩
      rw [List.map_map]
      show m.id ∈ call.items.map Redispatch.id
      rw [hids]
      exact List.mem_map_of_mem hsel
  have hstreams : MirrorsStreams (q.mark d.threadId e.sourceMessageIds .dispatched now)
      (r.hsetAll d.threadId (call.items.map fun item => (item.id, item.updated))) :=
    Mirrors.streams_of_eq h.toMirrorsStreams rfl rfl rfl (hsetAll_streams ..) (hsetAll_receipts ..)
      (hsetAll_counter ..)
  refine ⟨hmark.of_eq rfl ?_ ?_ ?_, ?_⟩
  · rw [Redis.dispatchExec, hct]
    rfl
  · rw [Redis.dispatchExec, hct]
    rfl
  · rw [Redis.dispatchExec, hct]
    rfl
  · rw [Redis.dispatchExec, hct, hcd, hcfp, hce, hcs, ← hid]
    exact hstreams.append ((MessageEnvelope.plain_json e').trans hplain)
      hattempts hcorr hkeep.json hfp
      fun a ha => hfree a (hid ▸ ha)

/-- **The part past the receipt.** Redis runs its script on the state it has just read. -/
theorem Mirrors.dispatchMessages (h : Mirrors q r) (hd : d.correlationId ≠ some "")
    (hsome : ∃ item ∈ q.queues d.threadId, item.id ∈ d.messageIds)
    {stored stored' : Option MessageEnvelope} (hs : Resent d stored stored')
    (hscript : ∀ call : DispatchCall, call.deliveryId = d.deliveryId →
      call.fingerprint = d.fingerprint →
      r.dispatchScript call = r.dispatchMessages call)
    (hfree : ∀ a, q.receipts d.deliveryId = some a → a.status = .returned) (now now' : String) :
    Together (fun a b => a.1.plain = b.1.plain ∧ Mirrors a.2 b.2) (q.dispatchMessages now d stored)
      (match d.prepare now' stored' ((selected q d).map QueuedMessage.id)
          (((selected q d).map QueuedMessage.id).map (r.messages d.threadId)) with
        | .error error => .error error
        | .ok (envelope, call) => match (r.dispatchScript call).1.error with
          | some error => .error error
          | none => .ok (envelope, (r.dispatchScript call).2)) := by
  have hin : ∀ m ∈ selected q d, m ∈ q.queues d.threadId := fun m hm => (List.mem_filter.mp hm).1
  obtain ⟨hnone, hplain⟩ := h.toMirrorsQueues.texts hin
  set ids := (selected q d).map QueuedMessage.id with hids
  set texts := (ids.map (r.messages d.threadId)).reduceOption with htexts
  have hqueued : (texts.map (QueuedMessage.fromDict now')).map QueuedMessage.plain =
      (selected q d).map QueuedMessage.plain := by
    rw [List.map_map]
    exact hplain
  have hidsq : ids = (texts.map (QueuedMessage.fromDict now')).map QueuedMessage.id :=
    (map_id_of_plain hqueued).symm
  have hthread : (texts.map (QueuedMessage.fromDict now')).any
      (fun item => item.threadId ≠ d.threadId) = false := by
    rw [any_plain (fun a b hab => by simp [QueuedMessage.plain_threadId hab]) hqueued]
    refine List.any_eq_false.mpr fun m hm => ?_
    simp [(h.items d.threadId m (hin m hm)).1]
  have hstate : (texts.map (QueuedMessage.fromDict now')).any (fun item => item.state ≠ .pending) =
      (selected q d).any fun item => item.state ≠ .pending :=
    any_plain (fun a b hab => by simp [QueuedMessage.plain_state hab]) hqueued
  have hsel : (q.queues d.threadId).filter (fun item => item.id ∈ d.messageIds) =
      selected q d := rfl
  have hfresh :
      { d.envelope (texts.map (QueuedMessage.fromDict now')) now' with sourceMessageIds := ids } =
        d.envelope (texts.map (QueuedMessage.fromDict now')) now' := by
    rw [hidsq]
    rfl
  have hcheck : (d.envelope (texts.map (QueuedMessage.fromDict now')) now').check =
      (d.envelope (selected q d) now).check :=
    MessageEnvelope.check_plain (d.envelope_plain now' now hqueued) nofun
  have hlen : ids.length = (selected q d).length := List.length_map _
  have hids_ne : ids ≠ [] := by
    obtain ⟨item, hitem, hid⟩ := hsome
    exact List.ne_nil_of_mem (List.mem_map_of_mem (List.mem_filter.mpr ⟨hitem, by simpa using hid⟩))
  simp only [MemoryMessageQueue.dispatchMessages, Dispatch.prepare, hids_ne,
    if_false, hnone, or_false, ← htexts,
    hthread, hstate, hsel, hfresh, hcheck, hlen]
  by_cases hl : (selected q d).length = d.messageIds.length
  · rw [if_neg (not_not.mpr hl), if_neg (not_not.mpr hl)]
    cases hany : (selected q d).any fun item => item.state ≠ .pending with
    | true => rfl
    | false =>
      simp only [Bool.false_eq_true, if_false]
      have hperm := selected_perm (h.ids d.threadId) hl
      obtain ⟨hp, ha, hc, hid, hfp, hk⟩ := envelopes_alike hd hs now now' hqueued hperm
      have hread := zipWith_read (g := fun id raw =>
        ⟨id, raw, ((raw.fromDict now').withState .dispatched now').json⟩)
          (fun _ _ => ⟨rfl, rfl⟩) hnone
      set e := stored.getD (d.envelope (selected q d) now) with he
      set e' := stored'.getD (d.envelope (texts.map (QueuedMessage.fromDict now')) now') with he'
      set call : DispatchCall := ⟨d.deliveryId, fingerprint d.threadId d.turnId ids, d.threadId,
        List.zipWith (fun id raw =>
          ⟨id, raw, ((raw.fromDict now').withState .dispatched now').json⟩) ids texts,
        e'.json, d.stream⟩ with hcall
      have hcfp : call.fingerprint = d.fingerprint := fingerprint_perm hperm
      have hitems : ∀ item ∈ call.items, r.messages d.threadId item.id = some item.raw ∧
          item.updated = ((item.raw.fromDict now').withState .dispatched now').json := by
        intro item hi
        obtain ⟨hm, hitem⟩ := hread.2.2 item hi
        exact ⟨hm, congrArg Redispatch.updated hitem⟩
      have hpending : ∀ item ∈ call.items, r.messages d.threadId item.id = some item.raw ∧
          item.raw.state = .pending := by
        intro item hi
        refine ⟨(hitems item hi).1, ?_⟩
        have hraw : item.raw ∈ call.items.map Redispatch.raw := List.mem_map_of_mem hi
        have hmem : item.raw ∈ texts := by
          have htexts' : call.items.map Redispatch.raw = texts := hread.1
          rwa [htexts'] at hraw
        have hp : ((item.raw.fromDict now').state = .pending) := by
          simpa using List.any_eq_false.mp (hstate.trans hany) _ (List.mem_map_of_mem hmem)
        exact hp
      have hdone : r.dispatchScript call = (.created, r.dispatchExec call) := by
        rw [hscript call rfl hcfp, Redis.dispatchMessages, changed_none hpending]
      have hend := h.dispatchExec hp ha hc hid hfp hk hfree ⟨rfl, hcfp, rfl, rfl, rfl⟩
        hread.2.1 now now' hitems
      have hfinal : Together (fun a b => a.1.plain = b.1.plain ∧ Mirrors a.2 b.2)
          (.ok (e, (q.mark d.threadId e.sourceMessageIds .dispatched now).append
            d.stream e d.fingerprint))
          (match (r.dispatchScript call).1.error with
            | some error => .error error
            | none => .ok (e', (r.dispatchScript call).2)) := by
        rw [hdone]
        exact ⟨hp.symm, hend⟩
      rcases hs with ⟨rfl, rfl⟩ | ⟨e₀, e₀', rfl, rfl, -⟩
      · cases (d.envelope (selected q d) now).check with
        | some text => rfl
        | none => exact hfinal
      · exact hfinal
  · rw [if_pos hl, if_pos hl]
    rfl

theorem Mirrors.dispatch (h : Mirrors q r) (hd : d.messageIds ≠ [] ∧ d.messageIds.Nodup ∧
    d.correlationId ≠ some "" ∧ d.Known q) (now now' : String) :
    Together (fun a b => a.1.plain = b.1.plain ∧ Mirrors a.2 b.2) (q.dispatch now d)
      (RedisMessageQueue.dispatch r now' d) := by
  obtain ⟨hne, hnd, hcorr, hknown⟩ := hd
  have hids : ¬(d.messageIds = [] ∨ ¬d.messageIds.Nodup) := by
    rintro (h | h)
    · exact hne h
    · exact h hnd
  simp only [RedisMessageQueue.dispatch, MemoryMessageQueue.dispatch, Dispatch.receiptRead,
    if_neg hids,
    h.toMirrorsQueues.canonicalIds]
  cases ha : q.receipts d.deliveryId with
  | none =>
    rw [h.absent _ ha]
    have hsome := hknown.resolve_left (by
      rintro ⟨a, ha', -⟩
      cases ha.symm.trans ha')
    refine h.dispatchMessages hcorr hsome (.inl ⟨rfl, rfl⟩) (fun call hcd _ => ?_)
      (fun a ha' => ?_) now now'
    · rw [Redis.dispatchScript, hcd, h.absent _ ha]
      rfl
    · rw [ha] at ha'
      cases ha'
  | some a =>
    have hm := h.receipts _ a ha
    have hown := h.own _ a ha
    obtain ⟨e', he', hp, hk⟩ := hm.envelope
    have hpresent : (r.receipts d.deliveryId).present = true := by
      simp [RedisReceipt.present, hm.fingerprint]
    have hcorr' : e'.correlationId ≠ some "" := by
      rw [MessageEnvelope.base_correlationId (MessageEnvelope.base_of_plain hp)]
      exact hown.correlation
    simp only [hpresent, if_true, hm.fingerprint, hm.status, he', Option.some.injEq, ne_eq]
    by_cases hfp : a.fingerprint = d.fingerprint
    · by_cases hst : a.status = .returned
      · simp only [hfp, hst, not_true_eq_false, if_false]
        have hsome := hknown.resolve_left (by
          rintro ⟨a', ha', hor⟩
          obtain rfl : a = a' := Option.some.inj (ha.symm.trans ha')
          exact hor.elim (fun h => h hfp) fun h => h hst)
        refine h.dispatchMessages hcorr hsome
          (.inr ⟨a.envelope, e'.fromDict now', rfl, rfl, ?_, hown.attempts,
          hown.correlation, hown.delivery, hown.fingerprint.trans hfp, ?_⟩)
          (fun call hcd hcfp => ?_)
          (fun a' ha' => ?_) now now'
        · exact (MessageEnvelope.plain_fromDict e' now' hcorr').trans hp
        · exact hfp ▸ hk.fromDict now'
        · rw [Redis.dispatchScript, hcd, hm.fingerprint]
          simp only [hm.status, hst, hfp, hcfp, ne_eq, not_true_eq_false, if_false]
        · rw [ha] at ha'
          cases ha'
          exact hst
      · simp only [hfp, hst, not_true_eq_false, not_false_eq_true, if_false, if_true]
        exact ⟨((MessageEnvelope.plain_fromDict e' now' hcorr').trans hp).symm, h⟩
    · simp only [hfp, not_false_eq_true, if_true]
      rfl

end Dispatch

/-! ## Claims -/

namespace MirrorsStreams

variable {q : MemoryMessageQueue} {r : Redis} {key : StreamKey}

/-- The first entries of a stream, and the rest, which is not in flight. -/
theorem first (h : MirrorsStreams q r) (key : StreamKey) :
    (q.streams key = [] ∧ r.streams key = []) ∨
    ∃ a rest b rest', q.streams key = a :: rest ∧ r.streams key = b :: rest' ∧ a.face = b.face ∧
      rest.map Entry.face = rest'.map Entry.face ∧ (∀ e ∈ rest, e.owner = none) ∧
      ∀ e ∈ rest', e.owner = none := by
  have hs := h.streams key
  have hhead := h.head key
  cases hq : q.streams key with
  | nil =>
    rw [hq] at hs
    exact .inl ⟨rfl, (List.map_eq_nil_iff.mp hs.symm)⟩
  | cons a rest =>
    cases hr : r.streams key with
    | nil =>
      rw [hq, hr] at hs
      cases hs
    | cons b rest' =>
      rw [hq, hr] at hs
      rw [hq] at hhead
      injection hs with hab hrest
      refine .inr ⟨a, rest, b, rest', rfl, rfl, hab, hrest, hhead, fun e he => ?_⟩
      have hmem : e.face ∈ rest.map Entry.face := hrest ▸ List.mem_map_of_mem he
      obtain ⟨e₁, he₁, hface⟩ := List.mem_map.mp hmem
      have howner : e₁.owner.isSome = e.owner.isSome := (Prod.mk.inj (Prod.mk.inj hface).2).1
      rw [hhead e₁ he₁] at howner
      cases ho : e.owner with
      | none => rfl
      | some c => rw [ho] at howner; cases howner

end MirrorsStreams

theorem takeFirst_none {p : Entry → Bool} {consumer : String} {entries : List Entry}
    (h : ∀ e ∈ entries, p e = false) : Redis.takeFirst p consumer entries = none := by
  induction entries with
  | nil => rfl
  | cons e entries ih =>
    rw [Redis.takeFirst, h e List.mem_cons_self, ih fun e' he' => h e' (List.mem_cons_of_mem _ he')]
    rfl

/-- Redis gives out the first entry of the stream. -/
theorem redis_claims_first {r : Redis} {key : StreamKey} {consumer now : String} {recover : Bool}
    {b : Entry} {rest : List Entry} (hr : r.streams key = b :: rest)
    (hrest : ∀ e ∈ rest, e.owner = none) (hb : b.owner = none ∨ recover = true) :
    RedisMessageQueue.claimStream r now key consumer recover =
      (some (RedisMessageQueue.counted now
          (b, r.setStream key ({ b with owner := some consumer } :: rest))).1,
        (RedisMessageQueue.counted now
          (b, r.setStream key ({ b with owner := some consumer } :: rest))).2) := by
  rw [RedisMessageQueue.claimStream, Redis.xautoclaim, hr]
  cases ho : b.owner with
  | some c =>
    have hrec : recover = true := by
      rcases hb with hb | hb
      · rw [ho] at hb; cases hb
      · exact hb
    simp [Redis.takeFirst, ho, hrec]
  | none =>
    have hauto : Redis.takeFirst (fun e => e.owner.isSome && recover) consumer (b :: rest) =
        none := by
      refine takeFirst_none fun e he => ?_
      rcases List.mem_cons.mp he with rfl | he
      · rw [ho]; rfl
      · rw [hrest e he]; rfl
    have hpending : r.xpending key = 0 := by
      rw [Redis.xpending, hr]
      refine List.countP_eq_zero.mpr fun e he => ?_
      rcases List.mem_cons.mp he with rfl | he
      · rw [ho]; nofun
      · rw [hrest e he]; nofun
    rw [hauto]
    simp [hpending, Redis.xreadgroup, hr, Redis.takeFirst, ho]

/-- Redis gives out nothing while an entry is in flight. -/
theorem redis_claims_none {r : Redis} {key : StreamKey} {consumer now : String} {b : Entry}
    {rest : List Entry} (hr : r.streams key = b :: rest) (hb : b.owner ≠ none) :
    RedisMessageQueue.claimStream r now key consumer false = (none, r) := by
  have hauto : Redis.takeFirst (fun e => e.owner.isSome && false) consumer (r.streams key) = none :=
    takeFirst_none fun e _ => by simp
  have hpending : r.xpending key > 0 := by
    rw [Redis.xpending, hr]
    refine List.countP_pos_iff.mpr ⟨b, List.mem_cons_self, ?_⟩
    exact Option.isSome_iff_ne_none.mpr hb
  rw [RedisMessageQueue.claimStream, Redis.xautoclaim, hauto]
  simp [hpending]

theorem redis_claims_empty {r : Redis} {key : StreamKey} {consumer now : String} {recover : Bool}
    (hr : r.streams key = []) : RedisMessageQueue.claimStream r now key consumer recover =
      (none, r) := by
  simp [RedisMessageQueue.claimStream, Redis.xautoclaim, Redis.xreadgroup,
    Redis.xpending, hr, Redis.takeFirst]

namespace MirrorsStreams

variable {q : MemoryMessageQueue} {r : Redis} {key : StreamKey}

/-- **Both give out the first entry** and count the attempt. -/
theorem claimed (h : MirrorsStreams q r) {a b : Entry} {rest rest' : List Entry} {consumer : String}
    (hq : q.streams key = a :: rest) (hr : r.streams key = b :: rest') (hab : a.face = b.face)
    (hrest : rest.map Entry.face = rest'.map Entry.face) :
    MirrorsStreams
      (q.setStream key (⟨a.streamId, { a.envelope with attempts := a.envelope.attempts + 1 },
        some consumer⟩ :: rest))
      ((r.setStream key ({ b with owner := some consumer } :: rest')).hincrby
        b.envelope.deliveryId).2 := by
  have hid : a.streamId = b.streamId := (Prod.mk.inj hab).1
  have hdel := face_delivery hab
  have ha : a ∈ q.streams key := by rw [hq]; exact List.mem_cons_self
  -- other entries are of other deliveries
  have hother : ∀ k, ∀ e ∈ q.streams k, (k = key → e ∈ rest) →
      e.envelope.deliveryId ≠ b.envelope.deliveryId := by
    intro k e he hk hd
    obtain rfl := h.apart k key e he a ha (hd.trans hdel.symm)
    have hnd := h.single k
    rw [hq, List.map_cons, List.nodup_cons] at hnd
    exact hnd.1 (List.mem_map.mpr ⟨e, hk rfl, hd.trans hdel.symm⟩)
  have hreceipts : ∀ d, (((r.setStream key ({ b with owner := some consumer } :: rest')).hincrby
      b.envelope.deliveryId).2).receipts d =
      if d = b.envelope.deliveryId then
        { r.receipts d with
          attempts := some ((r.receipts b.envelope.deliveryId).attempts.getD 0 + 1) }
      else r.receipts d := by
    intro d
    rw [Redis.hincrby, redis_setReceipt]
    split
    · next hd => rw [hd]; rfl
    · rfl
  have hmem : ∀ k e, e ∈ (q.setStream key (⟨a.streamId,
      { a.envelope with attempts := a.envelope.attempts + 1 }, some consumer⟩ :: rest)).streams k →
      (k = key ∧ e = ⟨a.streamId, { a.envelope with attempts := a.envelope.attempts + 1 },
        some consumer⟩) ∨
        (e ∈ q.streams k ∧ (k = key → e ∈ rest)) := by
    intro k e he
    rw [setStream_streams] at he
    split at he
    · next hk =>
      rcases List.mem_cons.mp he with he | he
      · exact .inl ⟨hk, he⟩
      · exact .inr ⟨by rw [hk, hq]; exact List.mem_cons_of_mem _ he, fun _ => he⟩
    · next hk => exact .inr ⟨he, fun hc => absurd hc hk⟩
  refine
    { counter := h.counter
      streams := fun k => ?_
      absent := fun d hd => ?_
      receipts := fun d x hx => ?_
      own := h.own
      head := fun k e he => ?_
      fresh := fun k e he ho => ?_
      counted := fun k e he => ?_
      backed := fun k e he => ?_
      single := fun k => ?_
      apart := fun k k' e he e' he' hd => ?_
      raw := fun k e he => ?_ }
  · rw [setStream_streams]
    by_cases hk : k = key
    · subst hk
      simp only [if_true, Redis.hincrby, Redis.setReceipt, Redis.setStream,
        Function.update_self, List.map_cons, hrest]
      congr 1
      have hbase : a.envelope.base = b.envelope.base := face_base hab
      exact Prod.ext hid (Prod.ext rfl hbase)
    · simp only [hk, if_false, Redis.hincrby, Redis.setReceipt, Redis.setStream,
        ne_eq, not_false_eq_true,
        Function.update_of_ne]
      exact h.streams k
  · have hne : d ≠ b.envelope.deliveryId := by
      rintro rfl
      obtain ⟨x, hx, -⟩ := h.backed key a ha
      rw [hdel] at hx
      cases hx.symm.trans hd
    rw [hreceipts, if_neg hne]
    exact h.absent d hd
  · have hm := h.receipts d x hx
    rw [hreceipts]
    split
    · exact ⟨hm.fingerprint, hm.status, hm.envelope⟩
    · exact hm
  · rw [setStream_streams] at he
    split at he
    · next hk => exact h.head key e (by rw [hq]; exact he)
    · exact h.head k e he
  · rcases hmem k e he with ⟨-, rfl⟩ | ⟨he, -⟩
    · cases ho
    · exact h.fresh k e he ho
  · rw [hreceipts]
    rcases hmem k e he with ⟨-, rfl⟩ | ⟨he, hk⟩
    · have hc := h.counted key a ha
      rw [hdel] at hc
      simp [hdel, hc]
    · rw [if_neg (hother k e he hk)]
      exact h.counted k e he
  · rcases hmem k e he with ⟨-, rfl⟩ | ⟨he, -⟩
    · exact h.backed key a ha
    · exact h.backed k e he
  · rw [setStream_streams]
    split
    · have hnd := h.single key
      rw [hq] at hnd
      exact hnd
    · exact h.single k
  · -- the entry given out is the first one under another face
    have hsame : ∀ k e,
        e ∈ (q.setStream key (⟨a.streamId, { a.envelope with attempts := a.envelope.attempts + 1 },
          some consumer⟩ :: rest)).streams k →
        ∃ e₀ ∈ q.streams k, e₀.envelope.deliveryId = e.envelope.deliveryId := by
      intro k e he
      rcases hmem k e he with ⟨rfl, rfl⟩ | ⟨he, -⟩
      · exact ⟨a, ha, rfl⟩
      · exact ⟨e, he, rfl⟩
    obtain ⟨e₀, he₀, hd₀⟩ := hsame k e he
    obtain ⟨e₀', he₀', hd₀'⟩ := hsame k' e' he'
    exact h.apart k k' e₀ he₀ e₀' he₀' (hd₀.trans (hd.trans hd₀'.symm))
  · have hraw : ∃ e₀ ∈ r.streams k, e₀.envelope = e.envelope := by
      have he' : e ∈ Function.update r.streams key ({ b with owner := some consumer } :: rest') k :=
        he
      by_cases hk : k = key
      · subst hk
        rw [Function.update_self] at he'
        rw [hr]
        rcases List.mem_cons.mp he' with rfl | he'
        · exact ⟨b, List.mem_cons_self, rfl⟩
        · exact ⟨e, List.mem_cons_of_mem _ he', rfl⟩
      · rw [Function.update_of_ne hk] at he'
        exact ⟨e, he', rfl⟩
    obtain ⟨e₀, he₀, heq⟩ := hraw
    have hk := h.raw k e₀ he₀
    rw [heq] at hk
    rw [hreceipts]
    split
    · exact hk
    · exact hk

end MirrorsStreams

/-- What a claim leaves on both sides. -/
def ClaimsAlike (q : MemoryMessageQueue) (r : Redis) (c c' : Option ClaimedEnvelope) : Prop :=
  Mirrors q r ∧ c.map ClaimedEnvelope.face = c'.map ClaimedEnvelope.face ∧
    ∀ x ∈ c', (r.receipts x.envelope.deliveryId).fingerprint = some x.envelope.ackFingerprint

theorem Mirrors.claimStream {q : MemoryMessageQueue} {r : Redis} (h : Mirrors q r) (key : StreamKey)
    (consumer : String) (recover : Bool) (now : String)
    (hok : recover = true ∨ oneInFlight (q.streams key)) :
    ClaimsAlike (q.claimStream key consumer recover).2
      (RedisMessageQueue.claimStream r now key consumer recover).2
      (q.claimStream key consumer recover).1
        (RedisMessageQueue.claimStream r now key consumer recover).1 := by
  rcases h.toMirrorsStreams.first key with ⟨hq, hr⟩ | ⟨a, rest, b, rest',
    hq, hr, hab, hrest, hown, hown'⟩
  · rw [redis_claims_empty hr, MemoryMessageQueue.claimStream, hq]
    exact ⟨h, rfl, by simp⟩
  have hsome : a.owner.isSome = b.owner.isSome := (Prod.mk.inj (Prod.mk.inj hab).2).1
  by_cases hfree : a.owner = none ∨ recover = true
  · -- the first entry is given out
    have hfree' : b.owner = none ∨ recover = true := by
      refine hfree.imp_left fun hn => ?_
      rw [hn] at hsome
      exact Option.not_isSome_iff_eq_none.mp (by rw [← hsome]; simp)
    have hclaim : MemoryMessageQueue.claimFirst consumer recover (a :: rest) =
        some (⟨a.streamId, { a.envelope with attempts := a.envelope.attempts + 1 }⟩,
          ⟨a.streamId, { a.envelope with attempts := a.envelope.attempts + 1 }, some consumer⟩ ::
            rest) := by
      rw [MemoryMessageQueue.claimFirst, if_pos]
      rcases hfree with hn | hn
      · simp [hn]
      · simp [hn]
    have ha : a ∈ q.streams key := by rw [hq]; exact List.mem_cons_self
    have hb : b ∈ r.streams key := by rw [hr]; exact List.mem_cons_self
    have hdel := MirrorsStreams.face_delivery hab
    obtain ⟨x, hx, -, hxbase⟩ := h.backed key a ha
    have hcorr : b.envelope.correlationId ≠ some "" := by
      rw [← MessageEnvelope.base_correlationId (MirrorsStreams.face_base hab),
        MessageEnvelope.base_correlationId hxbase]
      exact (h.own _ x hx).correlation
    have hcount := h.counted key a ha
    rw [hdel] at hcount
    obtain ⟨-, fp, hfp, hkeep⟩ := h.raw key b hb
    rw [redis_claims_first hr hown' hfree', MemoryMessageQueue.claimStream, hq, hclaim]
    refine ⟨⟨h.toMirrorsQueues.of_eq rfl rfl rfl rfl, h.toMirrorsStreams.claimed hq hr hab hrest⟩,
      ?_, fun c hc => ?_⟩
    · simp only [Option.map_some, ClaimedEnvelope.face, RedisMessageQueue.counted,
        Option.some.injEq,
        Prod.mk.injEq]
      refine ⟨(Prod.mk.inj hab).1, MessageEnvelope.plain_of_base ?_ ?_⟩
      · exact (MirrorsStreams.face_base hab).trans
          (MessageEnvelope.base_of_plain (MessageEnvelope.plain_fromDict b.envelope now hcorr)).symm
      · show a.envelope.attempts + 1 = (r.receipts b.envelope.deliveryId).attempts.getD 0 + 1
        rw [hcount]
        rfl
    · obtain rfl := Option.mem_some_iff.mp hc
      have hk := (hkeep.fromDict now).attempts
        ((r.receipts b.envelope.deliveryId).attempts.getD 0 + 1)
      show ((Redis.hincrby _ b.envelope.deliveryId).2.receipts b.envelope.deliveryId).fingerprint =
        _
      rw [Redis.hincrby, redis_setReceipt, if_pos rfl]
      exact hfp.trans (congrArg some hk.1.symm)
  · -- the first entry is in flight, and there is no other
    rw [not_or] at hfree
    obtain ⟨hown₁, hrec⟩ := hfree
    have hrec : recover = false := by simpa using hrec
    subst hrec
    have hone := hok.resolve_left Bool.false_ne_true
    rw [hq] at hone
    have hrest₀ : rest = [] := by
      cases rest with
      | nil => rfl
      | cons e rest =>
        rcases hone with hall | hall
        · exact absurd (hall a List.mem_cons_self) hown₁
        · exact absurd (hown e List.mem_cons_self)
            (hall e (List.mem_cons_of_mem _ List.mem_cons_self))
    subst hrest₀
    have hb : b.owner ≠ none := by
      rw [← Option.isSome_iff_ne_none, ← hsome]
      exact Option.isSome_iff_ne_none.mpr hown₁
    have hnone : MemoryMessageQueue.claimFirst consumer false [a] = none := by
      rw [MemoryMessageQueue.claimFirst, if_neg]
      · rfl
      · simpa using hown₁
    rw [redis_claims_none hr hb, MemoryMessageQueue.claimStream, hq, hnone]
    exact ⟨h, rfl, by simp⟩

end MiniAgent.Queue
