import MiniAgent.Queue.Memory
import MiniAgent.Lib.Run

/-!
# Queued messages are conserved

A message of a queue is dispatched exactly when one stream entry names it. `Consistent` says so, and
ties every entry, receipt and claim of a run together: an entry has a receipt that is out, a
delivery has one entry, and a claim agrees with the entry under its id.

What breaks it is an acknowledgement that comes late. It removes the messages of its envelope and
settles the receipt whatever has become of them since: the Turn may have been released, and the same
messages be on their way again. `ackInTime` is the condition that it does not.
-/

namespace MiniAgent.Queue

open Lib MemoryMessageQueue

/-- The entry names the message of the thread. -/
def Entry.Names (e : Entry) (threadId id : String) : Prop :=
  e.envelope.threadId = threadId ∧ id ∈ e.envelope.sourceMessageIds

/-- The same envelope, up to the count of its attempts. -/
def Same (a b : MessageEnvelope) : Prop := { a with attempts := 0 } = { b with attempts := 0 }

namespace Same

variable {a b c : MessageEnvelope}

theorem refl (a : MessageEnvelope) : Same a a := rfl

theorem symm (h : Same a b) : Same b a := Eq.symm h

theorem trans (h : Same a b) (h' : Same b c) : Same a c := Eq.trans h h'

theorem attempts (a : MessageEnvelope) (n : Nat) : Same { a with attempts := n } a := rfl

/-- What does not look at the attempts is the same. -/
theorem field {α : Type} (f : MessageEnvelope → α) (hf : ∀ e, f { e with attempts := 0 } = f e)
    (h : Same a b) : f a = f b := by
  unfold Same at h
  rw [← hf a, h, hf b]

theorem deliveryId (h : Same a b) : a.deliveryId = b.deliveryId :=
  h.field MessageEnvelope.deliveryId fun _ => rfl

theorem threadId (h : Same a b) : a.threadId = b.threadId :=
  h.field MessageEnvelope.threadId fun _ => rfl

theorem ids (h : Same a b) : a.sourceMessageIds = b.sourceMessageIds :=
  h.field MessageEnvelope.sourceMessageIds fun _ => rfl

end Same

/-! ## The invariant -/

/-- Stream ids are given once. -/
structure Filed (q : MemoryMessageQueue) : Prop where
  streamIds : ∀ key, ((q.streams key).map Entry.streamId).Nodup
  oneStream : ∀ key key', ∀ e ∈ q.streams key, ∀ e' ∈ q.streams key', e.streamId = e'.streamId →
    key = key'
  old : ∀ key, ∀ e ∈ q.streams key, e.streamId ≤ q.counter

/-- The dispatched messages are those the entries name, each named once. -/
structure Matched (q : MemoryMessageQueue) : Prop where
  ids : ∀ t, ((q.queues t).map QueuedMessage.id).Nodup
  named : ∀ key, ∀ e ∈ q.streams key, ∀ id ∈ e.envelope.sourceMessageIds,
    ∃ item ∈ q.queues e.envelope.threadId, item.id = id ∧ item.state = .dispatched
  backed : ∀ t, ∀ item ∈ q.queues t, item.state = .dispatched →
    ∃ key, ∃ e ∈ q.streams key, e.Names t item.id
  once : ∀ key key', ∀ e ∈ q.streams key, ∀ e' ∈ q.streams key', ∀ t id,
    e.Names t id → e'.Names t id → e.streamId = e'.streamId

/-- Entries and claims agree with the receipts of their deliveries. -/
structure Receipted (s : Session MemoryMessageQueue) : Prop where
  receipt : ∀ key, ∀ e ∈ s.queue.streams key, ∃ r,
    s.queue.receipts e.envelope.deliveryId = some r ∧ r.status = .dispatched ∧
    Same e.envelope r.envelope
  single : ∀ key key', ∀ e ∈ s.queue.streams key, ∀ e' ∈ s.queue.streams key',
    e.envelope.deliveryId = e'.envelope.deliveryId → e.streamId = e'.streamId
  ours : ∀ d r, s.queue.receipts d = some r → r.envelope.deliveryId = d ∧
    consumes r.envelope = true ∧
    r.fingerprint = fingerprint r.envelope.threadId r.envelope.targetId r.envelope.sourceMessageIds
  claim : ∀ c ∈ s.claims, c.streamId ≤ s.queue.counter ∧
    (∃ r, s.queue.receipts c.envelope.deliveryId = some r ∧ Same c.envelope r.envelope) ∧
    ∀ key, ∀ e ∈ s.queue.streams key, e.streamId = c.streamId →
      e.envelope.deliveryId = c.envelope.deliveryId

structure Consistent (s : Session MemoryMessageQueue) : Prop extends
  Filed s.queue, Matched s.queue, Receipted s

variable {s s' : Session MemoryMessageQueue} {now : String}

theorem Consistent.new : Consistent ⟨MemoryMessageQueue.new, []⟩ where
  ids _ := List.nodup_nil
  streamIds _ := List.nodup_nil
  oneStream _ _ _ h := by cases h
  old _ _ h := by cases h
  named _ _ h := by cases h
  backed _ _ h := by cases h
  once _ _ _ h := by cases h
  receipt _ _ h := by cases h
  single _ _ _ h := by cases h
  ours _ _ h := by cases h
  claim _ h := by cases h

/-- Messages of one thread with one id are one. -/
theorem item_unique {items : List QueuedMessage} (hnd : (items.map QueuedMessage.id).Nodup)
    {a b : QueuedMessage} (ha : a ∈ items) (hb : b ∈ items) (h : a.id = b.id) : a = b :=
  List.inj_on_of_nodup_map hnd ha hb h

/-- A pending message is named by no entry. -/
theorem Matched.not_named {q : MemoryMessageQueue} (hq : Matched q) {t : String}
    {item : QueuedMessage} (hi : item ∈ q.queues t) (hp : item.state = .pending) {key : StreamKey}
    {e : Entry} (he : e ∈ q.streams key) : ¬e.Names t item.id := by
  rintro ⟨rfl, hid⟩
  obtain ⟨other, ho, hoid, hstate⟩ := hq.named key e he item.id hid
  rw [item_unique (hq.ids _) ho hi hoid, hp] at hstate
  cases hstate

/-- No entry is left of a delivery whose receipt is not out. -/
theorem Receipted.not_out (hs : Receipted s) {d : String}
    (hd : ∀ r, s.queue.receipts d = some r → r.status ≠ .dispatched) {key : StreamKey} {e : Entry}
    (he : e ∈ s.queue.streams key) : e.envelope.deliveryId ≠ d := by
  rintro rfl
  obtain ⟨r, hr, hout, -⟩ := hs.receipt key e he
  exact hd r hr hout

/-- A queue of one thread is replaced. -/
theorem setQueue_queues (q : MemoryMessageQueue) (t t' : String) (items : List QueuedMessage) :
    (q.setQueue t items).queues t' = if t' = t then items else q.queues t' := by
  by_cases h : t' = t <;> simp [MemoryMessageQueue.setQueue, h]

theorem setStream_streams (q : MemoryMessageQueue) (key key' : StreamKey) (entries : List Entry) :
    (q.setStream key entries).streams key' = if key' = key then entries else q.streams key' := by
  by_cases h : key' = key <;> simp [MemoryMessageQueue.setStream, h]

theorem setReceipt_receipts (q : MemoryMessageQueue) (d d' : String) (r : Receipt) :
    (q.setReceipt d r).receipts d' = if d' = d then some r else q.receipts d' := by
  by_cases h : d' = d <;> simp [MemoryMessageQueue.setReceipt, h]

/-- A change of one queue that keeps its dispatched messages and adds no other. -/
theorem Consistent.setQueue (hs : Consistent s) {t : String} {items : List QueuedMessage}
    (hnd : (items.map QueuedMessage.id).Nodup)
    (hkeep : ∀ item ∈ s.queue.queues t, item.state = .dispatched → item ∈ items)
    (hadd : ∀ item ∈ items, item.state = .dispatched → item ∈ s.queue.queues t) :
    Consistent { s with queue := s.queue.setQueue t items } := by
  refine { hs.toFiled, hs.toReceipted with
    ids := fun t' => ?_, once := hs.once, named := fun key e he id hid => ?_,
    backed := fun t' item hi hd => ?_ }
  · show (((s.queue.setQueue t items).queues t').map _).Nodup
    rw [setQueue_queues]
    split
    · exact hnd
    · exact hs.ids t'
  · obtain ⟨item, hi, hiid, hstate⟩ := hs.named key e he id hid
    refine ⟨item, ?_, hiid, hstate⟩
    show item ∈ (s.queue.setQueue t items).queues _
    rw [setQueue_queues]
    split
    · next h => exact hkeep item (h ▸ hi) hstate
    · exact hi
  · have hi' : item ∈ (s.queue.setQueue t items).queues t' := hi
    rw [setQueue_queues] at hi'
    split at hi'
    · next h => subst h; exact hs.backed t' item (hadd item hi' hd) hd
    · exact hs.backed t' item hi' hd

/-- A receipt that is not out may get any other status. -/
theorem Consistent.setReceipt (hs : Consistent s) {d : String} {r : Receipt}
    (status : ReceiptStatus) (hr : s.queue.receipts d = some r) (hout : r.status ≠ .dispatched) :
    Consistent { s with queue := s.queue.setReceipt d { r with status := status } } := by
  have hnone : ∀ r', s.queue.receipts d = some r' → r'.status ≠ .dispatched := by
    intro r' hr'
    rw [hr] at hr'
    cases hr'
    exact hout
  refine { hs with
    receipt := fun key e he => ?_, ours := fun d' r' h => ?_, claim := fun c hc => ?_ }
  · obtain ⟨r', hr', hst⟩ := hs.receipt key e he
    refine ⟨r', ?_, hst⟩
    show (s.queue.setReceipt d _).receipts _ = _
    rw [setReceipt_receipts, if_neg (hs.not_out hnone he), hr']
  · have h' : (s.queue.setReceipt d { r with status := status }).receipts d' = some r' := h
    rw [setReceipt_receipts] at h'
    split at h'
    · next heq =>
      cases h'
      subst heq
      exact hs.ours _ r hr
    · exact hs.ours d' r' h'
  · obtain ⟨hle, ⟨r', hr', hsame⟩, hag⟩ := hs.claim c hc
    refine ⟨hle, ?_, hag⟩
    show ∃ r'', (s.queue.setReceipt d { r with status := status }).receipts _ = some r'' ∧ _
    rw [setReceipt_receipts]
    split
    · next heq =>
      rw [heq, hr] at hr'
      cases hr'
      exact ⟨_, rfl, hsame⟩
    · exact ⟨r', hr', hsame⟩

/-! ## Dispatches -/

section Append

variable {key : StreamKey} {e : MessageEnvelope} {fp : Fingerprint}

/-- The entries after a dispatch. -/
theorem mem_append_streams (q : MemoryMessageQueue) {key' : StreamKey} {entry : Entry} :
    entry ∈ (q.append key e fp).streams key' ↔
      entry ∈ q.streams key' ∨ (key' = key ∧ entry = ⟨q.counter + 1, e, none⟩) := by
  by_cases h : key' = key
  · subst h; simp [MemoryMessageQueue.append]
  · simp [MemoryMessageQueue.append, h]

theorem append_receipts (q : MemoryMessageQueue) (d : String) :
    (q.append key e fp).receipts d =
      if d = e.deliveryId then some ⟨fp, .dispatched, e⟩ else q.receipts d := by
  by_cases h : d = e.deliveryId <;> simp [MemoryMessageQueue.append, h]

theorem mem_mark_queues (q : MemoryMessageQueue) {t : String} {ids : List String}
    {state : QueueMessageState} {t' : String} {item : QueuedMessage} :
    item ∈ (q.mark t ids state now).queues t' ↔
      if t' = t then ∃ old ∈ q.queues t, (if old.id ∈ ids then old.withState state now
        else old) = item
      else item ∈ q.queues t' := by
  rw [mark, setQueue_queues]
  split
  · rw [List.mem_map]
  · rfl

/-- A mark leaves the ids. -/
theorem marked_ids (items : List QueuedMessage) (ids : List String) (state : QueueMessageState) :
    (items.map fun item => if item.id ∈ ids then item.withState state now else item).map
      QueuedMessage.id = items.map QueuedMessage.id := by
  rw [List.map_map]
  refine List.map_congr_left fun item _ => ?_
  simp only [Function.comp_apply]
  split <;> rfl

theorem Filed.append {q : MemoryMessageQueue} (hq : Filed q) : Filed (q.append key e fp) := by
  have hfresh : ∀ k, ∀ entry ∈ q.streams k, entry.streamId ≠ q.counter + 1 := by
    intro k entry he
    have := hq.old k entry he
    omega
  refine ⟨fun k => ?_, fun k k' a ha b hb hid => ?_, fun k a ha => ?_⟩
  · by_cases h : k = key
    · subst h
      simpa [MemoryMessageQueue.append, List.nodup_append, hq.streamIds] using hfresh k
    · simpa [MemoryMessageQueue.append, h] using hq.streamIds k
  · rcases (mem_append_streams q).mp ha with ha' | ⟨rfl, rfl⟩ <;>
      rcases (mem_append_streams q).mp hb with hb' | ⟨rfl, rfl⟩
    · exact hq.oneStream k k' a ha' b hb' hid
    · exact absurd hid (hfresh k a ha')
    · exact absurd hid.symm (hfresh k' b hb')
    · rfl
  · rcases (mem_append_streams q).mp ha with ha' | ⟨rfl, rfl⟩
    · exact Nat.le_succ_of_le (hq.old k a ha')
    · exact Nat.le_refl _

/-- What a mark makes of a message that it names or that was dispatched before. -/
theorem mark_dispatched (q : MemoryMessageQueue) {t t' : String} {ids : List String}
    {item : QueuedMessage} (hi : item ∈ q.queues t')
    (hst : item.state = .dispatched ∨ (t' = t ∧ item.id ∈ ids)) :
    ∃ item' ∈ (q.mark t ids .dispatched now).queues t', item'.id = item.id ∧
      item'.state = .dispatched := by
  by_cases ht : t' = t
  · subst ht
    by_cases hm : item.id ∈ ids
    · refine ⟨item.withState .dispatched now, (mem_mark_queues q).mpr ?_, rfl, rfl⟩
      rw [if_pos rfl]
      exact ⟨item, hi, if_pos hm⟩
    · refine ⟨item, (mem_mark_queues q).mpr ?_, rfl, hst.resolve_right fun h => hm h.2⟩
      rw [if_pos rfl]
      exact ⟨item, hi, if_neg hm⟩
  · refine ⟨item, (mem_mark_queues q).mpr ?_, rfl, hst.resolve_right fun h => ht h.1⟩
    rw [if_neg ht]
    exact hi

theorem Matched.append {q : MemoryMessageQueue} (hq : Matched q)
    (hpending : ∀ id ∈ e.sourceMessageIds,
      ∃ item ∈ q.queues e.threadId, item.id = id ∧ item.state = .pending) :
    Matched ((q.mark e.threadId e.sourceMessageIds .dispatched now).append key e fp) := by
  have hnew : ∀ k, ∀ entry ∈ q.streams k, ∀ t id, entry.Names t id →
      ¬(e.threadId = t ∧ id ∈ e.sourceMessageIds) := by
    rintro k entry he t id hn ⟨rfl, hid⟩
    obtain ⟨item, hi, rfl, hp⟩ := hpending id hid
    exact hq.not_named hi hp he hn
  refine ⟨fun t => ?_, fun k a ha id hid => ?_, fun t item hi hst => ?_,
    fun k k' a ha b hb t id hna hnb => ?_⟩
  · show (((q.mark _ _ _ _).queues t).map _).Nodup
    rw [mark, setQueue_queues]
    split
    · rw [marked_ids]
      exact hq.ids _
    · exact hq.ids t
  · rcases (mem_append_streams (q.mark _ _ _ _)).mp ha with ha' | ⟨rfl, rfl⟩
    · obtain ⟨item, hi, rfl, hst⟩ := hq.named k a ha' id hid
      exact mark_dispatched q hi (.inl hst)
    · obtain ⟨item, hi, rfl, -⟩ := hpending id hid
      exact mark_dispatched q hi (.inr ⟨rfl, hid⟩)
  · -- a message dispatched before keeps its entry, one that is marked has the new one
    have hold : item ∈ q.queues t → ∃ k, ∃ a ∈ ((q.mark e.threadId e.sourceMessageIds
        .dispatched now).append key e fp).streams k, a.Names t item.id := by
      intro hi
      obtain ⟨k, a, ha, hn⟩ := hq.backed t item hi hst
      exact ⟨k, a, (mem_append_streams (q.mark _ _ _ _)).mpr (.inl ha), hn⟩
    have hi' := (mem_mark_queues q).mp hi
    split at hi'
    · next h =>
      obtain ⟨old, ho, heq⟩ := hi'
      split at heq
      · next hm =>
        subst heq h
        exact ⟨key, _, (mem_append_streams (q.mark _ _ _ _)).mpr (.inr ⟨rfl, rfl⟩), rfl, hm⟩
      · subst heq h
        exact hold ho
    · exact hold hi'
  · rcases (mem_append_streams (q.mark _ _ _ _)).mp ha with ha' | ⟨rfl, rfl⟩ <;>
      rcases (mem_append_streams (q.mark _ _ _ _)).mp hb with hb' | ⟨rfl, rfl⟩
    · exact hq.once k k' a ha' b hb' t id hna hnb
    · exact absurd hnb (hnew k a ha' t id hna)
    · exact absurd hna (hnew k' b hb' t id hnb)
    · rfl

theorem Receipted.append (hs : Receipted s)
    (hfree : ∀ r, s.queue.receipts e.deliveryId = some r → r.status ≠ .dispatched ∧ r.envelope = e)
    (hconsumes : consumes e = true)
    (hfp : fp = fingerprint e.threadId e.targetId e.sourceMessageIds) :
    Receipted { s with queue := s.queue.append key e fp } := by
  have hnone := fun k entry (he : entry ∈ s.queue.streams k) =>
    hs.not_out (fun r hr => (hfree r hr).1) he
  refine ⟨fun k a ha => ?_, fun k k' a ha b hb hid => ?_, fun d r hr => ?_, fun c hc => ?_⟩
  · show ∃ r, (s.queue.append key e fp).receipts _ = some r ∧ _
    rw [append_receipts]
    rcases (mem_append_streams s.queue).mp ha with ha' | ⟨rfl, rfl⟩
    · rw [if_neg (hnone k a ha')]
      exact hs.receipt k a ha'
    · rw [if_pos rfl]
      exact ⟨_, rfl, rfl, Same.refl _⟩
  · rcases (mem_append_streams s.queue).mp ha with ha' | ⟨rfl, rfl⟩ <;>
      rcases (mem_append_streams s.queue).mp hb with hb' | ⟨rfl, rfl⟩
    · exact hs.single k k' a ha' b hb' hid
    · exact absurd hid (hnone k a ha')
    · exact absurd hid.symm (hnone k' b hb')
    · rfl
  · replace hr : (s.queue.append key e fp).receipts d = some r := hr
    rw [append_receipts] at hr
    split at hr
    · next h => cases hr; exact ⟨h.symm, hconsumes, hfp⟩
    · exact hs.ours d r hr
  · obtain ⟨hle, ⟨r, hr, hsame⟩, hag⟩ := hs.claim c hc
    refine ⟨Nat.le_succ_of_le hle, ?_, fun k a ha hid => ?_⟩
    · show ∃ r, (s.queue.append key e fp).receipts _ = some r ∧ _
      rw [append_receipts]
      split
      · next h =>
        rw [h] at hr
        exact ⟨_, rfl, (hfree r hr).2 ▸ hsame⟩
      · exact ⟨r, hr, hsame⟩
    · rcases (mem_append_streams s.queue).mp ha with ha' | ⟨rfl, rfl⟩
      · exact hag k a ha' hid
      · exact absurd hid (by show s.queue.counter + 1 ≠ c.streamId; omega)

/-- **A dispatch** of pending messages under a delivery id that is not out. -/
theorem Consistent.append (hs : Consistent s)
    (hpending : ∀ id ∈ e.sourceMessageIds,
      ∃ item ∈ s.queue.queues e.threadId, item.id = id ∧ item.state = .pending)
    (hfree : ∀ r, s.queue.receipts e.deliveryId = some r → r.status ≠ .dispatched ∧ r.envelope = e)
    (hconsumes : consumes e = true)
    (hfp : fp = fingerprint e.threadId e.targetId e.sourceMessageIds) :
    Consistent { s with
      queue := (s.queue.mark e.threadId e.sourceMessageIds .dispatched now).append key e fp } := by
  have hfiled : Filed (s.queue.mark e.threadId e.sourceMessageIds .dispatched now) :=
    ⟨hs.streamIds, hs.oneStream, hs.old⟩
  have hreceipted : Receipted { s with
      queue := s.queue.mark e.threadId e.sourceMessageIds .dispatched now } :=
    ⟨hs.receipt, hs.single, hs.ours, hs.claim⟩
  exact ⟨hfiled.append, hs.toMatched.append hpending, hreceipted.append hfree hconsumes hfp⟩

end Append

/-- Dispatches with one fingerprint deliver the same messages to the same Turn. -/
theorem fingerprint_inj {t t' u u' : String} {ids ids' : List String}
    (h : fingerprint t u ids = fingerprint t' u' ids') : t = t' ∧ u = u' ∧ ids.Perm ids' := by
  unfold fingerprint at h
  injection h with ht hu hids
  refine ⟨ht, hu, ?_⟩
  calc ids.Perm (ids.insertionSort (· ≤ ·)) := (List.perm_insertionSort _ _).symm
    _ = ids'.insertionSort (· ≤ ·) := hids
    List.Perm _ ids' := List.perm_insertionSort _ _

theorem fingerprint_perm {t u : String} {ids ids' : List String} (h : ids.Perm ids') :
    fingerprint t u ids = fingerprint t u ids' := by
  have hperm : (ids.insertionSort (· ≤ ·)).Perm (ids'.insertionSort (· ≤ ·)) :=
    (List.perm_insertionSort _ _).trans (h.trans (List.perm_insertionSort _ _).symm)
  unfold fingerprint
  rw [hperm.eq_of_pairwise' (List.pairwise_insertionSort _ _) (List.pairwise_insertionSort _ _)]

/-- As many messages selected as ids asked for: these are the messages asked for. -/
theorem selected_perm {items : List QueuedMessage} {ids : List String}
    (hnd : (items.map QueuedMessage.id).Nodup)
    (hlen : (items.filter fun item => item.id ∈ ids).length = ids.length) :
    ((items.filter fun item => item.id ∈ ids).map QueuedMessage.id).Perm ids := by
  have hsub : ((items.filter fun item => item.id ∈ ids).map QueuedMessage.id) ⊆ ids := by
    intro id hid
    obtain ⟨item, hi, rfl⟩ := List.mem_map.mp hid
    simpa using (List.mem_filter.mp hi).2
  have hnd' : ((items.filter fun item => item.id ∈ ids).map QueuedMessage.id).Nodup :=
    hnd.sublist (List.filter_sublist.map _)
  exact (List.subperm_of_subset hnd' hsub).perm_of_length_le (by simp [hlen])

/-- The messages of a thread that a dispatch asks for, in queue order. -/
def selected (q : MemoryMessageQueue) (d : Dispatch) : List QueuedMessage :=
  (q.queues d.threadId).filter fun item => item.id ∈ d.messageIds

/-- **What a dispatch past the receipt does.** -/
theorem dispatchMessages_ok {q q' : MemoryMessageQueue} {d : Dispatch}
    {stored : Option MessageEnvelope} {e : MessageEnvelope}
    (h : q.dispatchMessages now d stored = .ok (e, q')) :
    (selected q d).length = d.messageIds.length ∧ (∀ item ∈ selected q d, item.state = .pending) ∧
    e = stored.getD (d.envelope (selected q d) now) ∧
    q' = (q.mark d.threadId e.sourceMessageIds .dispatched now).append d.stream
      e d.fingerprint := by
  simp only [MemoryMessageQueue.dispatchMessages] at h
  split at h
  · cases h
  next hlen =>
  split at h
  · cases h
  next hpend =>
  refine ⟨not_not.mp hlen, fun item hi => ?_, ?_⟩
  · have := fun h => hpend (List.any_eq_true.mpr ⟨item, hi, h⟩)
    simpa using this
  · split at h
    · cases h
    · cases h
      exact ⟨rfl, rfl⟩

theorem Consistent.dispatchMessages (hs : Consistent s) {d : Dispatch}
    {stored : Option MessageEnvelope}
    {e : MessageEnvelope} {q : MemoryMessageQueue}
    (hstored : ∀ e', stored = some e' → ∃ r, s.queue.receipts d.deliveryId = some r ∧
      r.envelope = e' ∧ r.fingerprint = d.fingerprint ∧ r.status = .returned)
    (hfresh : stored = none → s.queue.receipts d.deliveryId = none)
    (h : s.queue.dispatchMessages now d stored = .ok (e, q)) :
      Consistent { s with queue := q } := by
  obtain ⟨hlen, hpend, he, rfl⟩ := dispatchMessages_ok h
  have hperm := selected_perm (hs.ids d.threadId) hlen
  have hitem : ∀ id ∈ d.messageIds,
      ∃ item ∈ s.queue.queues d.threadId, item.id = id ∧ item.state = .pending := by
    intro id hid
    obtain ⟨item, hi, rfl⟩ := List.mem_map.mp (hperm.mem_iff.mpr hid)
    exact ⟨item, (List.mem_filter.mp hi).1, rfl, hpend item hi⟩
  cases stored with
  | none =>
    replace he := he.trans (Option.getD_none ..)
    have hids : e.sourceMessageIds.Perm d.messageIds := by rw [he]; exact hperm
    have hnone := hfresh rfl
    have hthread : e.threadId = d.threadId := by rw [he]; rfl
    have hdelivery : e.deliveryId = d.deliveryId := by rw [he]; rfl
    rw [← hthread]
    refine hs.append (fun id hid => hthread ▸ hitem id (hids.mem_iff.mp hid)) (fun r hr => ?_) ?_ ?_
    · rw [hdelivery, hnone] at hr
      cases hr
    · rw [he]
      cases hc : d.commandPayload <;>
        simp [Dispatch.envelope, consumes, hc, MessageEnvelope.queued, Json.truthy]
    · rw [hthread, Dispatch.fingerprint, fingerprint_perm hids.symm]
      rw [he]; rfl
  | some e' =>
    cases he
    obtain ⟨r, hr, rfl, hfp, hst⟩ := hstored _ rfl
    obtain ⟨hd, hconsumes, hrfp⟩ := hs.ours _ r hr
    obtain ⟨hthread, hturn, hids⟩ := fingerprint_inj (hrfp.symm.trans hfp)
    simp only [Option.getD_some]
    rw [← hthread]
    refine hs.append (fun id hid => hthread ▸ hitem id (hids.mem_iff.mp hid)) (fun r' hr' => ?_)
      hconsumes (hfp.symm.trans hrfp)
    rw [hd, hr] at hr'
    cases hr'
    exact ⟨by rw [hst]; decide, rfl⟩

theorem Consistent.dispatch (hs : Consistent s) {d : Dispatch} {e : MessageEnvelope}
    {q : MemoryMessageQueue} (h : s.queue.dispatch now d = .ok (e, q)) :
    Consistent { s with queue := q } := by
  rw [MemoryMessageQueue.dispatch] at h
  split at h
  · next r hr =>
    split at h
    · cases h
    next hfp =>
    split at h
    · cases h; exact hs
    next hst =>
    refine hs.dispatchMessages (fun e' he' => ?_) (fun hnone => by cases hnone) h
    cases he'
    exact ⟨r, hr, rfl, not_not.mp hfp, not_not.mp hst⟩
  · next hr => exact hs.dispatchMessages (fun e' he' => by cases he') (fun _ => hr) h

/-! ## Entries that leave -/

section Retire

variable {key : StreamKey} {e : Entry} {items : List QueuedMessage}

/-- An entry leaves its stream. -/
def retired (q : MemoryMessageQueue) (key : StreamKey) (streamId : Nat) : List Entry :=
  (q.streams key).filter fun item => item.streamId ≠ streamId

/-- The entries left are the others: a stream id is in one stream. -/
theorem Filed.mem_retired {q : MemoryMessageQueue} (hq : Filed q) (he : e ∈ q.streams key)
    {k : StreamKey} {a : Entry} :
    a ∈ (q.setStream key (retired q key e.streamId)).streams k ↔
      a ∈ q.streams k ∧ a.streamId ≠ e.streamId := by
  rw [setStream_streams]
  split
  · next h => subst h; simp [retired]
  · next h =>
    refine ⟨fun ha => ⟨ha, fun hid => h (hq.oneStream k key a ha e he hid)⟩, fun ha => ha.1⟩

variable {q : MemoryMessageQueue}

theorem Filed.retire (hq : Filed q) (he : e ∈ q.streams key) :
    Filed (q.setStream key (retired q key e.streamId)) := by
  refine ⟨fun k => ?_, fun k k' a ha b hb hid => ?_, fun k a ha => ?_⟩
  · rw [setStream_streams]
    split
    · exact (hq.streamIds key).sublist (List.filter_sublist.map _)
    · exact hq.streamIds k
  · exact hq.oneStream k k' a ((hq.mem_retired he).mp ha).1 b ((hq.mem_retired he).mp hb).1 hid
  · exact hq.old k a ((hq.mem_retired he).mp ha).1

theorem Matched.retire (hq : Matched q) (hf : Filed q) (he : e ∈ q.streams key)
    (hnd : (items.map QueuedMessage.id).Nodup)
    (hkeep : ∀ item ∈ q.queues e.envelope.threadId,
      item.id ∉ e.envelope.sourceMessageIds → item ∈ items)
    (hadd : ∀ item ∈ items, item.state = .dispatched →
      item ∈ q.queues e.envelope.threadId ∧ item.id ∉ e.envelope.sourceMessageIds) :
    Matched ((q.setStream key (retired q key e.streamId)).setQueue e.envelope.threadId items) := by
  refine ⟨fun t => ?_, fun k a ha id hid => ?_, fun t item hi hst => ?_,
    fun k k' a ha b hb t id hna hnb => ?_⟩
  · rw [setQueue_queues]
    split
    · exact hnd
    · exact hq.ids t
  · -- the entry left names none of the messages of the one that leaves
    obtain ⟨ha', hne⟩ := (hf.mem_retired he).mp ha
    obtain ⟨item, hi, rfl, hst⟩ := hq.named k a ha' id hid
    refine ⟨item, ?_, rfl, hst⟩
    rw [setQueue_queues]
    split
    · next h =>
      refine hkeep item (h ▸ hi) fun hid' => hne ?_
      exact hq.once k key a ha' e he _ item.id ⟨rfl, hid⟩ ⟨h.symm, hid'⟩
    · exact hi
  · rw [setQueue_queues] at hi
    have hold : item ∈ q.queues t → ¬e.Names t item.id → ∃ k, ∃ a ∈ (q.setStream key
        (retired q key e.streamId)).streams k, a.Names t item.id := by
      intro hi hnot
      obtain ⟨k, a, ha, hn⟩ := hq.backed t item hi hst
      refine ⟨k, a, (hf.mem_retired he).mpr ⟨ha, fun hid => hnot ?_⟩, hn⟩
      obtain rfl := hf.oneStream k key a ha e he hid
      rwa [← List.inj_on_of_nodup_map (hf.streamIds k) ha he hid]
    split at hi
    · next h =>
      subst h
      obtain ⟨hi', hnot⟩ := hadd item hi hst
      exact hold hi' fun hn => hnot hn.2
    · next h => exact hold hi fun hn => h hn.1.symm
  · exact hq.once k k' a ((hf.mem_retired he).mp ha).1 b ((hf.mem_retired he).mp hb).1 t id hna hnb

theorem Receipted.retire (hs : Receipted s) (hf : Filed s.queue) (he : e ∈ s.queue.streams key)
    {r : Receipt} (hr : s.queue.receipts e.envelope.deliveryId = some r) (status : ReceiptStatus) :
    Receipted ⟨(s.queue.setStream key (retired s.queue key e.streamId)).setReceipt
      e.envelope.deliveryId { r with status := status }, s.claims⟩ := by
  refine ⟨fun k a ha => ?_, fun k k' a ha b hb hid => ?_, fun d r' hr' => ?_, fun c hc => ?_⟩
  · obtain ⟨ha', hne⟩ := (hf.mem_retired he).mp ha
    show ∃ r', ((s.queue.setStream _ _).setReceipt _ _).receipts _ = some r' ∧ _
    rw [setReceipt_receipts, if_neg fun hd => hne (hs.single k key a ha' e he hd)]
    exact hs.receipt k a ha'
  · exact hs.single k k' a ((hf.mem_retired he).mp ha).1 b ((hf.mem_retired he).mp hb).1 hid
  · replace hr' : ((s.queue.setStream key (retired s.queue key e.streamId)).setReceipt
      e.envelope.deliveryId { r with status := status }).receipts d = some r' := hr'
    rw [setReceipt_receipts] at hr'
    split at hr'
    · next h => cases hr'; subst h; exact hs.ours _ r hr
    · exact hs.ours d r' hr'
  · obtain ⟨hle, ⟨r', hr', hsame⟩, hag⟩ := hs.claim c hc
    refine ⟨hle, ?_, fun k a ha hid => hag k a ((hf.mem_retired he).mp ha).1 hid⟩
    show ∃ r'', ((s.queue.setStream _ _).setReceipt _ _).receipts _ = some r'' ∧ _
    rw [setReceipt_receipts]
    split
    · next h =>
      rw [h, hr] at hr'
      cases hr'
      exact ⟨_, rfl, hsame⟩
    · exact ⟨r', hr', hsame⟩

/-- **An entry leaves**: its messages go with it or become pending, and its receipt is settled. -/
theorem Consistent.retire (hs : Consistent s) (he : e ∈ s.queue.streams key) {r : Receipt}
    (hr : s.queue.receipts e.envelope.deliveryId = some r) (status : ReceiptStatus)
    (hnd : (items.map QueuedMessage.id).Nodup)
    (hkeep : ∀ item ∈ s.queue.queues e.envelope.threadId,
      item.id ∉ e.envelope.sourceMessageIds → item ∈ items)
    (hadd : ∀ item ∈ items, item.state = .dispatched →
      item ∈ s.queue.queues e.envelope.threadId ∧ item.id ∉ e.envelope.sourceMessageIds) :
    Consistent ⟨((s.queue.setStream key (retired s.queue key e.streamId)).setQueue
      e.envelope.threadId items).setReceipt e.envelope.deliveryId { r with status := status },
      s.claims⟩ := by
  have hfiled := hs.toFiled.retire he
  have hmatched := hs.toMatched.retire hs.toFiled he hnd hkeep hadd
  have hreceipted := hs.toReceipted.retire hs.toFiled he hr status
  exact ⟨⟨hfiled.streamIds, hfiled.oneStream, hfiled.old⟩,
    ⟨hmatched.ids, hmatched.named, hmatched.backed, hmatched.once⟩,
    ⟨hreceipted.receipt, hreceipted.single, hreceipted.ours, hreceipted.claim⟩⟩

end Retire

/-- What an acknowledgement leaves of the queue. -/
theorem removed_ids (q : MemoryMessageQueue) {t : String} {ids : List String}
    (hnd : ((q.queues t).map QueuedMessage.id).Nodup) :
    (((q.queues t).filter fun item => item.id ∉ ids).map QueuedMessage.id).Nodup :=
  hnd.sublist (List.filter_sublist.map _)

/-- The claim's entry is where the acknowledgement looks for it, or its delivery is not out any more
and none of its messages is on its way again. -/
def ackInTime (q : MemoryMessageQueue) (c : ClaimedEnvelope) : Prop :=
  (∃ e ∈ q.streams c.envelope.stream, e.streamId = c.streamId) ∨
  ((∀ r ∈ q.receipts c.envelope.deliveryId, r.status ≠ .dispatched) ∧
    ∀ item ∈ q.queues c.envelope.threadId, item.id ∈ c.envelope.sourceMessageIds →
      item.state = .pending)

instance (q : MemoryMessageQueue) (c : ClaimedEnvelope) : Decidable (ackInTime q c) := by
  unfold ackInTime
  infer_instance

theorem Consistent.ack (hs : Consistent s) {c : ClaimedEnvelope} (hc : c ∈ s.claims)
    (htime : ackInTime s.queue c) {q : MemoryMessageQueue} (h : s.queue.ack c = .ok q) :
    Consistent { s with queue := q } := by
  obtain ⟨-, ⟨r, hr, hsame⟩, hag⟩ := hs.claim c hc
  have hconsumes : consumes c.envelope = true := by
    rw [hsame.field consumes fun _ => rfl]
    exact (hs.ours _ r hr).2.1
  have hq : q = ((s.queue.setStream c.envelope.stream
      (retired s.queue c.envelope.stream c.streamId)).remove
      c.envelope.threadId c.envelope.sourceMessageIds).setReceipt c.envelope.deliveryId
        { r with status := .acknowledged } := by
    simp only [MemoryMessageQueue.ack, if_pos hconsumes] at h
    split at h
    · next q' hq' =>
      cases h
      obtain ⟨r', hr', rfl⟩ := Option.map_eq_some_iff.mp hq'
      obtain rfl : r' = r := Option.some.inj (hr'.symm.trans hr)
      rfl
    · cases h
  subst hq
  rcases htime with ⟨e, he, hid⟩ | ⟨hst, hpend⟩
  · -- the entry is still there: it leaves, and its messages with it
    have hd := hag _ e he hid
    obtain ⟨r', hr', -, hsame'⟩ := hs.receipt _ e he
    obtain rfl : r' = r := Option.some.inj (by rw [← hr', hd, hr])
    have hlike := hsame'.trans hsame.symm
    rw [← hid, ← hlike.threadId, ← hlike.ids, ← hlike.deliveryId]
    refine hs.retire he hr' .acknowledged (removed_ids _ (hs.ids _)) (fun item hi hn => ?_)
      fun item hi _ => ?_
    · exact List.mem_filter.mpr ⟨hi, by simpa using hn⟩
    · obtain ⟨hi', hn⟩ := List.mem_filter.mp hi
      exact ⟨hi', by simpa using hn⟩
  · -- it is not: the acknowledgement only removes pending messages
    have hgone : retired s.queue c.envelope.stream c.streamId =
        s.queue.streams c.envelope.stream := by
      refine List.filter_eq_self.mpr fun e he => ?_
      have hne : e.streamId ≠ c.streamId := fun hid =>
        hs.not_out (fun r hr => hst r hr) he (hag _ e he hid)
      simpa using hne
    have hself : s.queue.setStream c.envelope.stream (s.queue.streams c.envelope.stream) =
        s.queue := by
      simp [MemoryMessageQueue.setStream]
    rw [hgone, hself]
    have hremoved : Consistent { s with
        queue := s.queue.remove c.envelope.threadId c.envelope.sourceMessageIds } := by
      refine hs.setQueue (removed_ids _ (hs.ids _)) (fun item hi hd => ?_)
        fun item hi _ => (List.mem_filter.mp hi).1
      have hn : item.id ∉ c.envelope.sourceMessageIds := fun hm => by
        rw [hpend item hi hm] at hd
        cases hd
      exact List.mem_filter.mpr ⟨hi, by simpa using hn⟩
    exact hremoved.setReceipt .acknowledged hr (hst r hr)

/-- One entry of a released Turn: it was the first of the stream. -/
theorem Consistent.release (now : String) {q : MemoryMessageQueue} {claims : List ClaimedEnvelope}
    {key : StreamKey} {e : Entry} {rest : List Entry}
    (hs : Consistent ⟨q.setStream key (e :: rest), claims⟩) :
    ∃ q', MemoryMessageQueue.release now q e = some q' ∧
      Consistent ⟨q'.setStream key rest, claims⟩ := by
  have he : e ∈ (q.setStream key (e :: rest)).streams key := by simp [setStream_streams]
  obtain ⟨r, hr, -⟩ := hs.receipt key e he
  refine ⟨_, congrArg (Option.map _) hr, ?_⟩
  have hrest : retired (q.setStream key (e :: rest)) key e.streamId = rest := by
    have hnd := hs.streamIds key
    simp only [setStream_streams, if_true, List.map_cons, List.nodup_cons, List.mem_map] at hnd
    rw [retired, setStream_streams, if_pos rfl, List.filter_cons_of_neg (by simp),
      List.filter_eq_self]
    intro a ha
    simpa using fun hid => hnd.1 ⟨a, ha, hid⟩
  have hret : Consistent ⟨(((q.setStream key (e :: rest)).setStream key
      (retired (q.setStream key (e :: rest)) key e.streamId)).mark
      e.envelope.threadId e.envelope.sourceMessageIds .pending now).setReceipt e.envelope.deliveryId
        { r with status := .returned }, claims⟩ := by
    refine hs.retire he hr .returned ?_ (fun item hi hn => ?_) fun item hi hst => ?_
    · rw [marked_ids]
      exact hs.ids e.envelope.threadId
    · exact List.mem_map.mpr ⟨item, hi, if_neg hn⟩
    · obtain ⟨old, ho, rfl⟩ := List.mem_map.mp hi
      split at hst
      · cases hst
      · next hn => rw [if_neg hn]; exact ⟨ho, hn⟩
  rw [hrest] at hret
  convert hret using 2
  simp [MemoryMessageQueue.mark, MemoryMessageQueue.setQueue, MemoryMessageQueue.setStream,
    MemoryMessageQueue.setReceipt]

/-- The entries of a released Turn, one after the other. -/
theorem Consistent.releaseAll (now : String) {claims : List ClaimedEnvelope} {key : StreamKey}
    {entries : List Entry} {q : MemoryMessageQueue} (hq : q.streams key = [])
    (hs : Consistent ⟨q.setStream key entries, claims⟩) :
    ∃ q', entries.foldlM (MemoryMessageQueue.release now) q = some q' ∧
      Consistent ⟨q', claims⟩ := by
  induction entries generalizing q with
  | nil =>
    have hself : q.setStream key [] = q := by rw [← hq]; simp [MemoryMessageQueue.setStream]
    exact ⟨q, rfl, hself ▸ hs⟩
  | cons e rest ih =>
    obtain ⟨q₁, hq₁, hs₁⟩ := hs.release now
    have hstreams : q₁.streams key = [] := by
      obtain ⟨r, -, rfl⟩ := Option.map_eq_some_iff.mp hq₁
      exact hq
    obtain ⟨q₂, hq₂, hs₂⟩ := ih hstreams hs₁
    exact ⟨q₂, by rw [List.foldlM_cons, hq₁]; exact hq₂, hs₂⟩

theorem Consistent.releaseTurn (hs : Consistent s) {turnId : String} {q : MemoryMessageQueue}
    (h : s.queue.releaseTurn now turnId = .ok q) : Consistent { s with queue := q } := by
  have hself : (s.queue.setStream (.turn turnId) []).setStream (.turn turnId)
      (s.queue.streams (.turn turnId)) = s.queue := by
    simp [MemoryMessageQueue.setStream]
  have hview : Consistent ⟨(s.queue.setStream (.turn turnId) []).setStream (.turn turnId)
      (s.queue.streams (.turn turnId)), s.claims⟩ := by
    rw [hself]
    exact hs
  obtain ⟨q', hq', hs'⟩ := hview.releaseAll now (by simp [setStream_streams])
  rw [MemoryMessageQueue.releaseTurn, hq'] at h
  cases h
  exact hs'

/-! ## Claims -/

/-- A claimed entry keeps its place, its id and, up to the attempts, its envelope. -/
theorem claimFirst_some {consumer : String} {recover : Bool} {entries entries' : List Entry}
    {c : ClaimedEnvelope} (h : claimFirst consumer recover entries = some (c, entries')) :
    ∃ before e after, entries = before ++ e :: after ∧
      c = ⟨e.streamId, { e.envelope with attempts := e.envelope.attempts + 1 }⟩ ∧
      entries' = before ++ ⟨c.streamId, c.envelope, some consumer⟩ :: after := by
  induction entries generalizing entries' with
  | nil => cases h
  | cons e rest ih =>
    rw [claimFirst] at h
    split at h
    · cases h
      exact ⟨[], e, rest, rfl, rfl, rfl⟩
    · obtain ⟨⟨c', rest'⟩, hrest, heq⟩ := Option.map_eq_some_iff.mp h
      simp only [Prod.mk.injEq] at heq
      obtain ⟨rfl, rfl⟩ := heq
      obtain ⟨before, e', after, rfl, hc, rfl⟩ := ih hrest
      exact ⟨e :: before, e', after, rfl, hc, rfl⟩

/-- The same entry, but for its owner and attempts. -/
def Entry.Like (a b : Entry) : Prop := a.streamId = b.streamId ∧ Same a.envelope b.envelope

theorem Entry.Like.names {a b : Entry} (h : a.Like b) {t id : String} (hn : a.Names t id) :
    b.Names t id :=
  ⟨h.2.threadId ▸ hn.1, h.2.ids ▸ hn.2⟩

/-- Entries are replaced by entries like them. -/
theorem Consistent.restream (hs : Consistent s) {key : StreamKey} {entries : List Entry}
    (hids : entries.map Entry.streamId = (s.queue.streams key).map Entry.streamId)
    (hold : ∀ a ∈ entries, ∃ b ∈ s.queue.streams key, a.Like b)
    (hnew : ∀ b ∈ s.queue.streams key, ∃ a ∈ entries, b.Like a) :
    Consistent { s with queue := s.queue.setStream key entries } := by
  have hback : ∀ k, ∀ a ∈ (s.queue.setStream key entries).streams k,
      ∃ b ∈ s.queue.streams k, a.Like b := by
    intro k a ha
    rw [setStream_streams] at ha
    split at ha
    · next h => subst h; exact hold a ha
    · exact ⟨a, ha, rfl, Same.refl _⟩
  refine ⟨⟨fun k => ?_, fun k k' a ha b hb hid => ?_, fun k a ha => ?_⟩,
    ⟨hs.ids, fun k a ha id hid => ?_, fun t item hi hst => ?_,
      fun k k' a ha b hb t id hna hnb => ?_⟩,
    ⟨fun k a ha => ?_, fun k k' a ha b hb hid => ?_, hs.ours, fun c hc => ?_⟩⟩
  · show (((s.queue.setStream key entries).streams k).map _).Nodup
    rw [setStream_streams]
    split
    · rw [hids]
      exact hs.streamIds key
    · exact hs.streamIds k
  · obtain ⟨a', ha', hla⟩ := hback k a ha
    obtain ⟨b', hb', hlb⟩ := hback k' b hb
    exact hs.oneStream k k' a' ha' b' hb' (by rw [← hla.1, ← hlb.1, hid])
  · obtain ⟨a', ha', hla⟩ := hback k a ha
    exact hla.1 ▸ hs.old k a' ha'
  · obtain ⟨a', ha', hla⟩ := hback k a ha
    rw [hla.2.threadId]
    exact hs.named k a' ha' id (hla.2.ids ▸ hid)
  · obtain ⟨k, b, hb, hn⟩ := hs.backed t item hi hst
    by_cases h : k = key
    · subst h
      obtain ⟨a, ha, hl⟩ := hnew b hb
      exact ⟨k, a, by simpa [setStream_streams] using ha, hl.names hn⟩
    · exact ⟨k, b, by simpa [setStream_streams, h] using hb, hn⟩
  · obtain ⟨a', ha', hla⟩ := hback k a ha
    obtain ⟨b', hb', hlb⟩ := hback k' b hb
    rw [hla.1, hlb.1]
    exact hs.once k k' a' ha' b' hb' t id (hla.names hna) (hlb.names hnb)
  · obtain ⟨a', ha', hla⟩ := hback k a ha
    obtain ⟨r, hr, hst, hsame⟩ := hs.receipt k a' ha'
    exact ⟨r, hla.2.deliveryId ▸ hr, hst, hla.2.trans hsame⟩
  · obtain ⟨a', ha', hla⟩ := hback k a ha
    obtain ⟨b', hb', hlb⟩ := hback k' b hb
    rw [hla.1, hlb.1]
    exact hs.single k k' a' ha' b' hb' (by rw [← hla.2.deliveryId, ← hlb.2.deliveryId, hid])
  · obtain ⟨hle, hr, hag⟩ := hs.claim c hc
    refine ⟨hle, hr, fun k a ha hid => ?_⟩
    obtain ⟨a', ha', hla⟩ := hback k a ha
    rw [hla.2.deliveryId]
    exact hag k a' ha' (hla.1.symm.trans hid)

/-- A claim of an entry that is there may be returned. -/
theorem Consistent.claimed (hs : Consistent s) {key : StreamKey} {e : Entry} {c : ClaimedEnvelope}
    (he : e ∈ s.queue.streams key) (hid : e.streamId = c.streamId)
    (hsame : Same e.envelope c.envelope) :
    Consistent { s with claims := s.claims ++ [c] } := by
  refine { hs with claim := fun c' hc' => ?_ }
  rcases List.mem_append.mp hc' with hc' | hc'
  · exact hs.claim c' hc'
  · obtain rfl := List.mem_singleton.mp hc'
    obtain ⟨r, hr, -, hre⟩ := hs.receipt key e he
    refine ⟨hid ▸ hs.old key e he, ⟨r, hsame.deliveryId ▸ hr, hsame.symm.trans hre⟩,
      fun k a ha h => ?_⟩
    obtain rfl := hs.oneStream k key a ha e he (h.trans hid.symm)
    rw [List.inj_on_of_nodup_map (hs.streamIds k) ha he (h.trans hid.symm)]
    exact hsame.deliveryId

theorem Consistent.claimStream (hs : Consistent s) (key : StreamKey) (consumer : String)
    (recover : Bool) : Consistent (s.replyClaim (s.queue.claimStream key consumer recover)).2 := by
  rw [MemoryMessageQueue.claimStream]
  split
  · next c entries hc =>
    obtain ⟨before, e, after, hl, rfl, rfl⟩ := claimFirst_some hc
    have he : e ∈ s.queue.streams key := by rw [hl]; simp
    have hclaimed := hs.claimed
      (c := ⟨e.streamId, { e.envelope with attempts := e.envelope.attempts + 1 }⟩)
      he rfl rfl
    refine hclaimed.restream ?_ (fun a ha => ?_) fun b hb => ?_
    · show _ = (s.queue.streams key).map Entry.streamId
      simp [hl]
    · show ∃ b ∈ s.queue.streams key, a.Like b
      rw [hl]
      rcases List.mem_append.mp ha with ha | ha
      · exact ⟨a, List.mem_append_left _ ha, rfl, Same.refl _⟩
      · rcases List.mem_cons.mp ha with rfl | ha
        · exact ⟨e, by simp, rfl, rfl⟩
        · exact ⟨a, by simp [ha], rfl, Same.refl _⟩
    · replace hb : b ∈ s.queue.streams key := hb
      rw [hl] at hb
      rcases List.mem_append.mp hb with hb | hb
      · exact ⟨b, List.mem_append_left _ hb, rfl, Same.refl _⟩
      · rcases List.mem_cons.mp hb with rfl | hb
        · exact ⟨_, List.mem_append_right _ List.mem_cons_self, rfl, rfl⟩
        · exact ⟨b, by simp [hb], rfl, Same.refl _⟩
  · simpa [Session.replyClaim] using hs

/-! ## Edits -/

theorem Consistent.create (hs : Consistent s) {item : QueuedMessage} (hp : item.state = .pending)
    {r : QueuedMessage × Bool} {q : MemoryMessageQueue} (h : s.queue.create item = .ok (r, q)) :
    Consistent { s with queue := q } := by
  simp only [MemoryMessageQueue.create] at h
  split at h
  · split at h
    · cases h; exact hs
    · cases h
  · next hnone =>
    cases h
    have hnew : item.id ∉ (s.queue.queues item.threadId).map QueuedMessage.id := by
      intro hmem
      obtain ⟨other, ho, hid⟩ := List.mem_map.mp hmem
      exact absurd hid (by simpa using List.find?_eq_none.mp hnone other ho)
    refine hs.setQueue ?_ (fun a ha _ => List.mem_append_left _ ha) fun a ha hst => ?_
    · rw [List.map_append]
      refine List.nodup_append.mpr ⟨hs.ids _, List.nodup_singleton _, ?_⟩
      rintro a ha b hb rfl
      obtain rfl : a = item.id := List.mem_singleton.mp hb
      exact hnew ha
    · rcases List.mem_append.mp ha with ha | ha
      · exact ha
      · rw [List.mem_singleton.mp ha, hp] at hst
        cases hst

/-- A message with the id of one that is pending is pending. -/
theorem Consistent.pending_of_find (hs : Consistent s) {t id : String} {item a : QueuedMessage}
    (hf : (s.queue.queues t).find? (·.id == id) = some item) (hp : item.state = .pending)
    (ha : a ∈ s.queue.queues t) (hd : a.state = .dispatched) : ¬(a.id == id) := by
  intro hid
  have hitem : item.id = id := by simpa using List.find?_some hf
  have heq := item_unique (hs.ids t) ha (List.mem_of_find?_eq_some hf) (by simpa [hitem] using hid)
  rw [heq, hp] at hd
  cases hd

theorem replaceFirst_mem {α : Type} {p : α → Bool} {b : α} {l : List α} {a : α}
    (ha : a ∈ replaceFirst p (fun _ => b) l) : a = b ∨ a ∈ l := by
  induction l with
  | nil => cases ha
  | cons c l ih =>
    rw [replaceFirst] at ha
    split at ha
    · rcases List.mem_cons.mp ha with rfl | ha
      · exact .inl rfl
      · exact .inr (List.mem_cons_of_mem _ ha)
    · rcases List.mem_cons.mp ha with rfl | ha
      · exact .inr List.mem_cons_self
      · exact (ih ha).imp_right (List.mem_cons_of_mem _)

theorem mem_replaceFirst {α : Type} {p : α → Bool} {f : α → α} {l : List α} {a : α}
    (ha : a ∈ l) (hp : ¬p a) : a ∈ replaceFirst p f l := by
  induction l with
  | nil => cases ha
  | cons c l ih =>
    rw [replaceFirst]
    split
    · next hc =>
      rcases List.mem_cons.mp ha with rfl | ha
      · exact absurd hc hp
      · exact List.mem_cons_of_mem _ ha
    · rcases List.mem_cons.mp ha with rfl | ha
      · exact List.mem_cons_self
      · exact List.mem_cons_of_mem _ (ih ha)

theorem map_replaceFirst {α β : Type} {p : α → Bool} {f : α → α} {g : α → β} {l : List α}
    (h : ∀ a ∈ l, p a → g (f a) = g a) : (replaceFirst p f l).map g = l.map g := by
  induction l with
  | nil => rfl
  | cons c l ih =>
    rw [replaceFirst]
    split
    · next hc => simp [h c List.mem_cons_self hc]
    · simp [ih fun a ha => h a (List.mem_cons_of_mem _ ha)]

theorem Consistent.update (hs : Consistent s) {t id content : String} {references : List Fields}
    {m : QueuedMessage} {q : MemoryMessageQueue}
    (h : s.queue.update now t id content references = .ok (m, q)) :
    Consistent { s with queue := q } := by
  simp only [MemoryMessageQueue.update] at h
  split at h
  · cases h
  next item hf =>
  split at h
  · cases h
  next hp =>
  replace hp : item.state = .pending := not_not.mp hp
  split at h
  · cases h
  cases h
  have hitem : item.id = id := by simpa using List.find?_some hf
  refine hs.setQueue ?_ (fun a ha hd => mem_replaceFirst ha (hs.pending_of_find hf hp ha hd))
    fun a ha hd => ?_
  · rw [map_replaceFirst]
    · exact hs.ids t
    · intro a _ ha
      exact hitem.trans (beq_iff_eq.mp ha).symm
  · rcases replaceFirst_mem ha with rfl | ha
    · exact absurd (hp.symm.trans hd) (by decide)
    · exact ha

theorem Consistent.delete (hs : Consistent s) {t id : String} {q : MemoryMessageQueue}
    (h : s.queue.delete t id = .ok q) : Consistent { s with queue := q } := by
  simp only [MemoryMessageQueue.delete] at h
  split at h
  · cases h
  next item hf =>
  split at h
  · cases h
  next hp =>
  cases h
  refine hs.setQueue ((hs.ids t).sublist (List.eraseP_sublist.map _)) (fun a ha hd => ?_)
    fun a ha _ => List.mem_of_mem_eraseP ha
  exact (List.mem_eraseP_of_neg (p := fun m : QueuedMessage => m.id == id)
    (hs.pending_of_find hf (not_not.mp hp) ha hd)).mpr ha

/-! ## Runs -/

/-- The calls that work on queued messages. -/
def Op.onQueue : Op → Bool
  | .create _ | .update .. | .delete .. | .list _ | .dispatch _ | .claim .. | .claimTurnStart ..
  | .ack _ | .releaseTurn _ => true
  | _ => false

/-- A call on queued messages, with what the clock shows in it. -/
def queueStep (s : Session MemoryMessageQueue) (a : String × Op) :
    Option (Session MemoryMessageQueue) :=
  if a.2.onQueue then (MemoryMessageQueue.call a.1 s a.2).map Prod.snd else none

/-- New messages are pending, and acknowledgements come in time. -/
def Orderly (s : Session MemoryMessageQueue) : String × Op → Prop
  | (_, .create item) => item.state = .pending
  | (_, .ack k) => ∀ c ∈ s.claims[k]?, ackInTime s.queue c
  | _ => True

instance (s : Session MemoryMessageQueue) (a : String × Op) : Decidable (Orderly s a) := by
  unfold Orderly
  split <;> infer_instance

/-- **Step lemma.** -/
theorem Consistent.step (hs : Consistent s) {a : String × Op} (ha : Orderly s a)
    (h : queueStep s a = some s') : Consistent s' := by
  obtain ⟨now, op⟩ := a
  rw [queueStep] at h
  split at h
  · next hop =>
    obtain ⟨p, hcall, rfl⟩ := Option.map_eq_some_iff.mp h
    cases op with
    | create item =>
      obtain rfl := Option.some.inj hcall
      exact Session.reply_kept hs fun _ _ h => hs.create ha h
    | update t id content references =>
      obtain rfl := Option.some.inj hcall
      exact Session.reply_kept hs fun _ _ h => hs.update h
    | delete t id =>
      obtain rfl := Option.some.inj hcall
      exact Session.replyUnit_kept hs fun _ h => hs.delete h
    | list t =>
      obtain rfl := Option.some.inj hcall
      exact hs
    | dispatch d =>
      obtain rfl := Option.some.inj hcall
      exact Session.reply_kept hs fun _ _ h => hs.dispatch h
    | claim turnId consumer =>
      obtain rfl := Option.some.inj hcall
      exact hs.claimStream _ _ _
    | claimTurnStart consumer recover =>
      obtain rfl := Option.some.inj hcall
      exact hs.claimStream _ _ _
    | ack k =>
      obtain ⟨c, hc, rfl⟩ := Option.map_eq_some_iff.mp hcall
      exact Session.replyUnit_kept hs fun _ h => hs.ack (List.mem_of_getElem? hc) (ha c hc) h
    | releaseTurn turnId =>
      obtain rfl := Option.some.inj hcall
      exact Session.replyUnit_kept hs fun _ h => hs.releaseTurn h
    | _ => cases hop
  · cases h

/-- Position `i` of a stream holds an entry that names the message. -/
def NamedAt (q : MemoryMessageQueue) (t id : String) (place : StreamKey × Nat) : Prop :=
  ∃ e, (q.streams place.1)[place.2]? = some e ∧ e.Names t id

/-- What is conserved of the messages of a thread. -/
structure Conserved (q : MemoryMessageQueue) (t : String) : Prop where
  unique : ((q.queues t).map QueuedMessage.id).Nodup
  dispatched : ∀ item ∈ q.queues t, item.state = .dispatched ↔ ∃! place, NamedAt q t item.id place
  pending : ∀ item ∈ q.queues t, item.state = .pending ↔ ¬∃ place, NamedAt q t item.id place
  present : ∀ key, ∀ e ∈ q.streams key, e.envelope.threadId = t →
    ∀ id ∈ e.envelope.sourceMessageIds,
    ∃ item ∈ q.queues t, item.id = id
  settled : ∀ key, ∀ e ∈ q.streams key, ∀ r, q.receipts e.envelope.deliveryId = some r →
    r.status ≠ .acknowledged

/-- A message is named at one place at most. -/
theorem Consistent.place_unique (hs : Consistent s) {t id : String} {p p' : StreamKey × Nat}
    (h : NamedAt s.queue t id p) (h' : NamedAt s.queue t id p') : p = p' := by
  obtain ⟨key, i⟩ := p
  obtain ⟨key', i'⟩ := p'
  obtain ⟨e, he, hn⟩ := h
  obtain ⟨e', he', hn'⟩ := h'
  have hid := hs.once key key' e (List.mem_of_getElem? he) e' (List.mem_of_getElem? he') t id hn hn'
  obtain rfl := hs.oneStream key key' e (List.mem_of_getElem? he) e' (List.mem_of_getElem? he') hid
  have hnd := hs.streamIds key
  have hi : ((s.queue.streams key).map Entry.streamId)[i]? = some e.streamId := by simp [he]
  have hi' : ((s.queue.streams key).map Entry.streamId)[i']? = some e.streamId := by simp [he', hid]
  have hlt := (List.getElem?_eq_some_iff.mp hi).1
  rw [(List.getElem?_inj hlt hnd).mp (hi.trans hi'.symm)]

theorem Consistent.conserved (hs : Consistent s) (t : String) : Conserved s.queue t where
  unique := hs.ids t
  dispatched item hi := by
    constructor
    · intro hst
      obtain ⟨key, e, he, hn⟩ := hs.backed t item hi hst
      obtain ⟨i, hi⟩ := List.mem_iff_getElem?.mp he
      exact ⟨(key, i), ⟨e, hi, hn⟩, fun p hp => hs.place_unique hp ⟨e, hi, hn⟩⟩
    · rintro ⟨⟨key, i⟩, ⟨e, he, hn⟩, -⟩
      cases hst : item.state with
      | dispatched => rfl
      | pending => exact absurd hn (hs.not_named hi hst (List.mem_of_getElem? he))
  pending item hi := by
    constructor
    · rintro hst ⟨⟨key, i⟩, e, he, hn⟩
      exact hs.not_named hi hst (List.mem_of_getElem? he) hn
    · intro hnone
      cases hst : item.state with
      | pending => rfl
      | dispatched =>
        obtain ⟨key, e, he, hn⟩ := hs.backed t item hi hst
        obtain ⟨i, hi⟩ := List.mem_iff_getElem?.mp he
        exact absurd ⟨(key, i), e, hi, hn⟩ hnone
  present := by
    rintro key e he rfl id hid
    obtain ⟨item, hi, hiid, -⟩ := hs.named key e he id hid
    exact ⟨item, hi, hiid⟩
  settled key e he r hr := by
    obtain ⟨r', hr', hst, -⟩ := hs.receipt key e he
    obtain rfl : r' = r := Option.some.inj (hr'.symm.trans hr)
    rw [hst]
    decide

def emptySession : Session MemoryMessageQueue := ⟨MemoryMessageQueue.new, []⟩

/-- **Queued messages are conserved** in every run whose acknowledgements come in time. -/
theorem message_conservation {calls : List (String × Op)}
    (hok : Meets queueStep Orderly emptySession calls)
    (hrun : run queueStep emptySession calls = some s) (t : String) : Conserved s.queue t := by
  have hs : Consistent s :=
    run_invariant (fun _ _ _ hs ha h => hs.step ha h) Consistent.new hok hrun
  exact hs.conserved t

/-- A message of thread `t`, dispatched to Turn `u` and claimed; the Turn is released and the
message dispatched again under the same delivery id. -/
def redispatched : List (String × Op) :=
  let dispatch : Dispatch := ⟨"d", ["m"], "s", "t", "u", none, none⟩
  [("1", .create ⟨"m", "t", "hello", [], .pending, "1", "1"⟩), ("2", .dispatch dispatch),
    ("3", .claim "u" "a"), ("4", .releaseTurn "u"), ("5", .dispatch dispatch)]

/-- A second claim and its acknowledgement, and then that of the first claim. -/
theorem message_conservation_repeated_ack :
    ∃ s, run queueStep emptySession
        (redispatched ++ [("6", .claim "u" "a"), ("7", .ack 1), ("8", .ack 0)]) = some s ∧
      Meets queueStep Orderly emptySession
        (redispatched ++ [("6", .claim "u" "a"), ("7", .ack 1), ("8", .ack 0)]) ∧
      Conserved s.queue "t" := by
  have hok : Meets queueStep Orderly emptySession
      (redispatched ++ [("6", .claim "u" "a"), ("7", .ack 1), ("8", .ack 0)]) := by decide
  exact ⟨_, rfl, hok, message_conservation hok rfl "t"⟩

/-- The acknowledgement of the first claim comes before the second claim: the message is gone, its
receipt acknowledged, and the entry still there. -/
theorem late_ack_leaves_entry :
    ∃ s, run queueStep emptySession (redispatched ++ [("6", .ack 0)]) = some s ∧
      ¬Conserved s.queue "t" := by
  refine ⟨_, rfl, fun h => ?_⟩
  obtain ⟨item, hi, -⟩ := h.present (.turn "u") _ List.mem_cons_self rfl "m" List.mem_cons_self
  cases hi

end MiniAgent.Queue
