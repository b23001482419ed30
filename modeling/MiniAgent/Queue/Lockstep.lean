import MiniAgent.Queue.StandIn

/-!
# Both queues in step

The last calls, acknowledgements and returns, and whole runs: while every call is `Alike`, the
replies of the two queues agree one by one.
-/

namespace MiniAgent.Queue

open Lib

/-! ## Entries that leave -/

theorem tail_filter_subset {α : Type} {p : α → Bool} {l : List α} {a : α}
    (h : a ∈ (l.filter p).tail) :
    a ∈ l.tail := by
  cases l with
  | nil => exact h
  | cons x l =>
    by_cases hx : p x
    · rw [List.filter_cons_of_pos hx] at h
      exact (List.mem_filter.mp h).1
    · rw [List.filter_cons_of_neg hx] at h
      exact (List.mem_filter.mp (List.mem_of_mem_tail h)).1

theorem face_filter (entries : List Entry) (n : Nat) :
    (entries.filter fun e => e.streamId ≠ n).map Entry.face =
      (entries.map Entry.face).filter fun x => x.1 ≠ n := by
  rw [List.filter_map]
  rfl

namespace MirrorsStreams

variable {q : MemoryMessageQueue} {r : Redis}

/-- **An entry leaves** both streams, and its delivery gets a new status. -/
theorem retire (h : MirrorsStreams q r) {d : String} {a : Receipt} (ha : q.receipts d = some a)
    (status : ReceiptStatus) (key : StreamKey) (n : Nat)
    (hleft : status ≠ .returned ∨ ∀ k, ∀ e ∈ q.streams k, e.envelope.deliveryId = d →
      k = key ∧ e.streamId = n) :
    MirrorsStreams
      ((q.setStream key ((q.streams key).filter fun e => e.streamId ≠ n)).setReceipt d
        { a with status := status })
      ((r.xdel key n).settle d status) := by
  have hsub : ∀ k, ((q.setStream key ((q.streams key).filter fun e => e.streamId ≠ n)).streams
      k).Sublist
      (q.streams k) := by
    intro k
    rw [setStream_streams]
    split
    · next hk => rw [hk]; exact List.filter_sublist
    · exact List.Sublist.refl _
  have hgone : ∀ k, ∀ e ∈ (q.setStream key ((q.streams key).filter fun e =>
      e.streamId ≠ n)).streams k,
      k = key → e.streamId ≠ n := by
    intro k e he hk
    rw [setStream_streams, if_pos hk] at he
    simpa using (List.mem_filter.mp he).2
  have hfields : ∀ d', (((r.xdel key n).settle d status).receipts d').fingerprint =
      (r.receipts d').fingerprint ∧
      (((r.xdel key n).settle d status).receipts d').attempts = (r.receipts d').attempts ∧
      (((r.xdel key n).settle d status).receipts d').envelope = (r.receipts d').envelope := by
    intro d'
    rw [Redis.settle, redis_setReceipt]
    split
    · next hd => rw [hd]; exact ⟨rfl, rfl, rfl⟩
    · exact ⟨rfl, rfl, rfl⟩
  refine
    { counter := h.counter
      streams := fun k => ?_
      absent := fun d' hd' => ?_
      receipts := fun d' x hx => ?_
      own := fun d' x hx => ?_
      head := fun k e he => ?_
      fresh := fun k e he => h.fresh k e ((hsub k).subset he)
      counted := fun k e he => ?_
      backed := fun k e he => ?_
      single := fun k => (h.single k).sublist ((hsub k).map _)
      apart := fun k k' e he e' he' => h.apart k k' e ((hsub k).subset he) e' ((hsub k').subset he')
      raw := fun k e he => ?_ }
  · show ((q.setStream key _).streams k).map Entry.face = ((r.xdel key n).streams k).map Entry.face
    by_cases hk : k = key
    · subst hk
      simp only [MemoryMessageQueue.setStream, Redis.xdel, Redis.setStream,
        Function.update_self, face_filter,
        h.streams]
    · simp only [MemoryMessageQueue.setStream, Redis.xdel, Redis.setStream,
        Function.update_of_ne hk, h.streams]
  · rw [setReceipt_receipts] at hd'
    split at hd'
    · cases hd'
    · next hne =>
      rw [Redis.settle, redis_setReceipt, if_neg hne]
      exact h.absent d' hd'
  · obtain ⟨hfp, -, henv⟩ := hfields d'
    rw [setReceipt_receipts] at hx
    split at hx
    · next hd =>
      cases hx
      subst hd
      have hm := h.receipts d' a ha
      refine ⟨hfp.trans hm.fingerprint, ?_, by rw [henv]; exact hm.envelope⟩
      rw [Redis.settle, redis_setReceipt, if_pos rfl]
    · next hne =>
      rw [Redis.settle, redis_setReceipt, if_neg hne]
      exact h.receipts d' x hx
  · rw [setReceipt_receipts] at hx
    split at hx
    · next hd =>
      cases hx
      subst hd
      have ho := h.own d' a ha
      exact ⟨ho.delivery, ho.attempts, ho.correlation, ho.fingerprint⟩
    · exact h.own d' x hx
  · have he' : e ∈ ((q.setStream key ((q.streams key).filter fun e => e.streamId ≠ n)).streams
        k).tail := he
    rw [setStream_streams] at he'
    split at he'
    · next hk => exact h.head k e (by rw [hk]; exact tail_filter_subset he')
    · exact h.head k e he'
  · rw [(hfields _).2.1]
    exact h.counted k e ((hsub k).subset he)
  · have hin := (hsub k).subset he
    obtain ⟨x, hx, hst, hbase⟩ := h.backed k e hin
    rw [setReceipt_receipts]
    split
    · next hd =>
      rw [hd, ha] at hx
      cases hx
      refine ⟨_, rfl, ?_, hbase⟩
      rcases hleft with hst' | hall
      · exact hst'
      · obtain ⟨hk, hid⟩ := hall k e hin hd
        exact absurd hid (hgone k e he hk)
    · exact ⟨x, hx, hst, hbase⟩
  · have he' : e ∈ (r.xdel key n).streams k := he
    have hin : e ∈ r.streams k := by
      by_cases hk : k = key
      · subst hk
        simp only [Redis.xdel, Redis.setStream, Function.update_self] at he'
        exact (List.mem_filter.mp he').1
      · simp only [Redis.xdel, Redis.setStream, Function.update_of_ne hk] at he'
        exact he'
    rw [(hfields _).1]
    exact h.raw k e hin

end MirrorsStreams

/-! ## Acknowledgements -/

theorem removeAll_created (l : Ledger) (t : String) (ids : List String) (t' : String) :
    (l.removeAll t ids).created t' =
      if t' = t then (l.created t).filter (fun id => id ∉ ids) else l.created t' := by
  rw [Ledger.removeAll]
  induction ids generalizing l with
  | nil =>
    split
    · next ht => simp [ht]
    · rfl
  | cons id ids ih =>
    rw [List.foldl_cons, ih]
    by_cases ht : t' = t
    · subst ht
      simp only [if_true, Ledger.remove, Function.update_self, List.filter_filter]
      refine List.filter_congr fun i _ => ?_
      simp [Bool.and_comm]
    · simp [ht, Ledger.remove, Ledger.setText]

/-- Messages leave the queue and the hash. -/
theorem MirrorsQueues.remove {q : MemoryMessageQueue} {r : Redis} (h : MirrorsQueues q r)
    (t : String) (ids : List String) :
    MirrorsQueues (q.remove t ids) (ids.foldl (fun r id => r.deleteExec t id) r) := by
  refine h.filtered (p := fun id => id ∉ ids) (h.index.deleteAll t ids)
    (fun t' => removeAll_created _ t ids t') (fun id hid => ?_) fun t' ht' => ?_
  · rw [Indexed.deleteAll_messages, if_neg fun hc => by simp [hc.2] at hid]
  · funext id
    rw [Indexed.deleteAll_messages, if_neg fun hc => ht' hc.1]

theorem deleteExec_streams (r : Redis) (t id : String) :
    (r.deleteExec t id).streams = r.streams ∧ (r.deleteExec t id).counter = r.counter := by
  show (r.hdel t id).streams = _ ∧ (r.hdel t id).counter = _
  rw [Redis.hdel]
  split <;> exact ⟨rfl, rfl⟩

theorem deleteAll_streams (r : Redis) (t : String) (ids : List String) :
    (ids.foldl (fun r id => r.deleteExec t id) r).streams = r.streams ∧
      (ids.foldl (fun r id => r.deleteExec t id) r).counter = r.counter := by
  induction ids generalizing r with
  | nil => exact ⟨rfl, rfl⟩
  | cons id ids ih =>
    obtain ⟨hs, hc⟩ := ih (r.deleteExec t id)
    obtain ⟨hs', hc'⟩ := deleteExec_streams r t id
    exact ⟨hs.trans hs', hc.trans hc'⟩

namespace Mirrors

variable {q : MemoryMessageQueue} {r : Redis}

/-- A delivery with a fingerprint has a receipt. -/
theorem receipt_of_fingerprint (h : MirrorsStreams q r) {d : String} {fp : Fingerprint}
    (hfp : (r.receipts d).fingerprint = some fp) : ∃ a, q.receipts d = some a := by
  cases ha : q.receipts d with
  | none =>
    rw [h.absent d ha] at hfp
    cases hfp
  | some a => exact ⟨a, rfl⟩

/-- The writes of an acknowledgement. -/
theorem ackExec (h : Mirrors q r) {d t : String} {a : Receipt} (ha : q.receipts d = some a)
    (key : StreamKey) (n : Nat) (ids : List String) :
    Mirrors (((q.setStream key ((q.streams key).filter fun e => e.streamId ≠ n)).remove
      t ids).setReceipt d
      { a with status := .acknowledged }) (r.ackExec d key n t ids) := by
  have hq : MirrorsQueues (q.setStream key ((q.streams key).filter fun e => e.streamId ≠ n))
      (r.xdel key n) :=
    h.toMirrorsQueues.of_eq rfl rfl rfl rfl
  have hs := h.toMirrorsStreams.retire ha .acknowledged key n (.inl nofun)
  refine ⟨(hq.remove t ids).of_eq rfl rfl rfl rfl, streams_of_eq hs rfl rfl rfl ?_ ?_ ?_⟩
  · exact (deleteAll_streams (r.xdel key n) t ids).1
  · simp only [Redis.ackExec, Redis.settle, Redis.setReceipt, deleteAll_receipts]
  · exact (deleteAll_streams (r.xdel key n) t ids).2

/-- An acknowledgement of the in-memory queue whose delivery has a receipt. -/
theorem memory_ack {c : ClaimedEnvelope} {a : Receipt}
    (ha : q.receipts c.envelope.deliveryId = some a) :
    q.ack c = .ok (((q.setStream c.envelope.stream
      ((q.streams c.envelope.stream).filter fun e => e.streamId ≠ c.streamId)).remove
        c.envelope.threadId
        c.envelope.ackIds).setReceipt c.envelope.deliveryId
          { a with status := .acknowledged }) := by
  unfold MemoryMessageQueue.ack MessageEnvelope.ackIds
  cases hc : MemoryMessageQueue.consumes c.envelope with
  | true =>
    simp only [hc, if_true, MemoryMessageQueue.settle, MemoryMessageQueue.remove,
      MemoryMessageQueue.setQueue,
      MemoryMessageQueue.setStream, ha, Option.map_some]
  | false =>
    -- without ids nothing is removed
    have hall : ((q.queues c.envelope.threadId).filter fun item => item.id ∉ ([] : List String)) =
        q.queues c.envelope.threadId := List.filter_eq_self.mpr fun _ _ => by simp
    simp only [hc, Bool.false_eq_true, if_false, MemoryMessageQueue.settle,
      MemoryMessageQueue.remove,
      MemoryMessageQueue.setQueue, MemoryMessageQueue.setStream, ha, Option.map_some, hall,
      Function.update_eq_self]

/-- An acknowledgement that finds nothing leaves the queue as it is. -/
theorem memory_ack_again {c : ClaimedEnvelope} {a : Receipt}
    (ha : q.receipts c.envelope.deliveryId = some a) (hst : a.status = .acknowledged)
    (hentries : ∀ e ∈ q.streams c.envelope.stream, e.streamId ≠ c.streamId)
    (hitems : ∀ item ∈ q.queues c.envelope.threadId, item.id ∉ c.envelope.ackIds) :
      q.ack c = .ok q := by
  have hs : ((q.streams c.envelope.stream).filter fun e => e.streamId ≠ c.streamId) =
      q.streams c.envelope.stream := List.filter_eq_self.mpr fun e he =>
        by simpa using hentries e he
  have hm : ((q.queues c.envelope.threadId).filter fun item => item.id ∉ c.envelope.ackIds) =
      q.queues c.envelope.threadId := List.filter_eq_self.mpr fun m hm => by simpa using hitems m hm
  have hr : { a with status := .acknowledged } = a := by rw [← hst]
  rw [memory_ack ha, hs, hr]
  simp only [MemoryMessageQueue.remove, MemoryMessageQueue.setQueue, MemoryMessageQueue.setStream,
    MemoryMessageQueue.setReceipt, Function.update_eq_self, hm, ← ha]

theorem ack (h : Mirrors q r) {c c' : ClaimedEnvelope} (hface : c.face = c'.face)
    (hack : (r.receipts c'.envelope.deliveryId).fingerprint = some c'.envelope.ackFingerprint)
    (honce : ackOnce q c) : Together Mirrors (q.ack c) (RedisMessageQueue.ack r c') := by
  obtain ⟨n, e⟩ := c
  obtain ⟨n', e'⟩ := c'
  obtain ⟨hn, hp⟩ := Prod.mk.inj hface
  obtain rfl : n = n' := hn
  have hbase := MessageEnvelope.base_of_plain hp
  have hd : e'.deliveryId = e.deliveryId := (MessageEnvelope.base_deliveryId hbase).symm
  have hids : e'.ackIds = e.ackIds := by
    unfold MessageEnvelope.ackIds
    rw [MessageEnvelope.base_consumes hbase, MessageEnvelope.base_ids hbase]
  rw [hd] at hack
  obtain ⟨a, ha⟩ := receipt_of_fingerprint h.toMirrorsStreams hack
  have hstatus := (h.receipts _ a ha).status
  simp only [RedisMessageQueue.ack, Redis.ackScript, hd, hack, ne_eq, not_true_eq_false,
    if_false, hstatus,
    Option.some.injEq]
  by_cases hst : a.status = .acknowledged
  · obtain ⟨hentries, hitems⟩ := honce.resolve_left fun hnot => hnot a ha hst
    rw [memory_ack_again ha hst hentries hitems, if_pos hst]
    exact h
  · rw [memory_ack ha, if_neg hst, hids, ← MessageEnvelope.base_stream hbase,
      ← MessageEnvelope.base_threadId hbase]
    exact h.ackExec ha _ _ _

end Mirrors

/-! ## Returns -/

namespace Mirrors

variable {q : MemoryMessageQueue} {r : Redis}

/-- The messages of an entry are pending again. -/
theorem releaseWrites (h : MirrorsQueues q r) (t : String) (ids : List String) (now now' : String) :
    MirrorsQueues (q.mark t ids .pending now)
      (r.hsetAll t (ids.filterMap fun id => releaseWrite now' id (r.messages t id))) := by
  refine h.mark (fun x hx => ?_) fun m hmq hin => ?_
  · obtain ⟨id, hid, hx⟩ := List.mem_filterMap.mp hx
    obtain ⟨m', hm', rfl⟩ := Option.map_eq_some_iff.mp hx
    obtain ⟨m, hmq, hmid, hp⟩ := h.of_messages hm'
    refine ⟨m, hmq, hmid, hmid ▸ hid, ?_⟩
    rw [QueuedMessage.plain_json]
    exact QueuedMessage.plain_withState (m'.plain_fromDict now' ▸ hp) .pending now' now
  · obtain ⟨-, m', hm', -⟩ := h.items t m hmq
    refine List.mem_map.mpr ⟨(m.id, ((m'.fromDict now').withState .pending now').json),
      List.mem_filterMap.mpr ⟨m.id, hin, ?_⟩, rfl⟩
    rw [hm']
    rfl

/-- One entry of a Turn whose delivery has a receipt, on any stream it was taken off. -/
theorem memory_release {e : Entry} {a : Receipt} (ha : q.receipts e.envelope.deliveryId = some a)
    (now : String) (key : StreamKey) (entries : List Entry) :
    MemoryMessageQueue.release now (q.setStream key entries) e =
      some (((q.mark e.envelope.threadId e.envelope.sourceMessageIds .pending now).setReceipt
        e.envelope.deliveryId { a with status := .returned }).setStream key entries) := by
  rw [MemoryMessageQueue.release, MemoryMessageQueue.settle]
  show (q.receipts _).map _ = _
  rw [ha]
  rfl

/-- **One entry is returned.** By then the in-memory queue has dropped the whole stream; here the
entry is taken off alone. -/
theorem release (h : Mirrors q r) {turnId : String} {e e' : Entry} {a : Receipt}
    (hface : e.face = e'.face)
    (ha : q.receipts e.envelope.deliveryId = some a)
    (honly : ∀ k, ∀ x ∈ q.streams k, x.envelope.deliveryId = e.envelope.deliveryId →
      k = .turn turnId ∧ x.streamId = e.streamId) (now now' : String) :
    Mirrors
      (((q.mark e.envelope.threadId e.envelope.sourceMessageIds .pending now).setReceipt
        e.envelope.deliveryId { a with status := .returned }).setStream (.turn turnId)
          ((q.streams (.turn turnId)).filter fun x => x.streamId ≠ e.streamId))
      (RedisMessageQueue.release now' turnId r e') := by
  have hbase := MirrorsStreams.face_base hface
  have hid : e.streamId = e'.streamId := (Prod.mk.inj hface).1
  refine ⟨?_, ?_⟩
  · rw [RedisMessageQueue.release, Redis.releaseExec, MessageEnvelope.base_threadId hbase,
      MessageEnvelope.base_ids hbase]
    exact (releaseWrites h.toMirrorsQueues _ _ now now').of_eq rfl rfl rfl rfl
  · have hs := h.toMirrorsStreams.retire ha .returned _ _ (.inr honly)
    refine streams_of_eq hs rfl rfl rfl ?_ ?_ ?_
    · simp only [RedisMessageQueue.release, Redis.releaseExec, Redis.settle,
        Redis.setReceipt, Redis.xdel,
        Redis.setStream, hsetAll_streams, hid]
    · simp only [RedisMessageQueue.release, Redis.releaseExec, Redis.settle,
        Redis.setReceipt, Redis.xdel,
        Redis.setStream, hsetAll_receipts, MirrorsStreams.face_delivery hface]
    · simp only [RedisMessageQueue.release, Redis.releaseExec, Redis.settle,
        Redis.setReceipt, Redis.xdel,
        Redis.setStream, hsetAll_counter]

/-- The entries that are still to be returned: what is left of the stream is among them. -/
theorem releaseAll {turnId : String} (now now' : String) {entries entries' : List Entry}
    (hfaces : entries.map Entry.face = entries'.map Entry.face) (h : Mirrors q r)
    (hleft : ∀ x ∈ q.streams (.turn turnId), x ∈ entries)
    (hnd : (entries.map fun e => e.envelope.deliveryId).Nodup)
    (hrec : ∀ e ∈ entries, ∃ a, q.receipts e.envelope.deliveryId = some a)
    (honly : ∀ e ∈ entries, ∀ k, ∀ x ∈ q.streams k, x.envelope.deliveryId = e.envelope.deliveryId →
      k = .turn turnId) :
    ∃ q', entries.foldlM (MemoryMessageQueue.release now) (q.setStream (.turn turnId) []) =
      some q' ∧
      Mirrors q' (entries'.foldl (RedisMessageQueue.release now' turnId) r) := by
  induction entries generalizing entries' q r with
  | nil =>
    obtain rfl : entries' = [] := List.map_eq_nil_iff.mp hfaces.symm
    have hnil : q.streams (.turn turnId) = [] := List.eq_nil_iff_forall_not_mem.mpr fun x hx =>
      nomatch hleft x hx
    have hself : q.setStream (.turn turnId) [] = q := by
      rw [← hnil, MemoryMessageQueue.setStream, Function.update_eq_self]
    exact ⟨_, rfl, hself.symm ▸ h⟩
  | cons e entries ih =>
    cases entries' with
    | nil => cases hfaces
    | cons e' entries' =>
    injection hfaces with hface hfaces
    obtain ⟨hne, hnd⟩ := List.nodup_cons.mp hnd
    obtain ⟨a, ha⟩ := hrec e List.mem_cons_self
    have hother : ∀ x ∈ entries, x.envelope.deliveryId ≠ e.envelope.deliveryId := fun x hx hd =>
      hne (List.mem_map.mpr ⟨x, hx, hd⟩)
    -- the entry is the only one of its delivery
    have hone : ∀ k, ∀ x ∈ q.streams k, x.envelope.deliveryId = e.envelope.deliveryId →
        k = .turn turnId ∧ x.streamId = e.streamId := by
      intro k x hx hd
      obtain rfl := honly e List.mem_cons_self k x hx hd
      rcases List.mem_cons.mp (hleft x hx) with rfl | hin
      · exact ⟨rfl, rfl⟩
      · exact absurd hd (hother x hin)
    have hnext := h.release hface ha hone now now'
    have hstreams : ∀ k, ∀ x ∈ ((((q.mark e.envelope.threadId e.envelope.sourceMessageIds .pending
        now).setReceipt e.envelope.deliveryId { a with status := .returned }).setStream
          (.turn turnId)
        ((q.streams (.turn turnId)).filter fun x => x.streamId ≠ e.streamId))).streams k,
        x ∈ q.streams k ∧ (k = .turn turnId → x.streamId ≠ e.streamId) := by
      intro k x hx
      rw [setStream_streams] at hx
      split at hx
      · next hk =>
        obtain ⟨hx, hid⟩ := List.mem_filter.mp hx
        exact ⟨hk ▸ hx, fun _ => by simpa using hid⟩
      · next hk => exact ⟨hx, fun hc => absurd hc hk⟩
    obtain ⟨q', hfold, hq'⟩ := ih hfaces hnext
      (fun x hx => by
        obtain ⟨hx, hid⟩ := hstreams _ x hx
        rcases List.mem_cons.mp (hleft x hx) with rfl | hin
        · exact absurd rfl (hid rfl)
        · exact hin)
      hnd
      (fun x hx => by
        obtain ⟨b, hb⟩ := hrec x (List.mem_cons_of_mem _ hx)
        refine ⟨b, ?_⟩
        show (MemoryMessageQueue.setReceipt _ _ _).receipts _ = _
        rw [setReceipt_receipts, if_neg (hother x hx)]
        exact hb)
      fun x hx k y hy hd => honly x (List.mem_cons_of_mem _ hx) k y (hstreams k y hy).1 hd
    refine ⟨q', ?_, hq'⟩
    rw [List.foldlM_cons, memory_release ha, ← hfold]
    simp [MemoryMessageQueue.setStream]

theorem releaseTurn (h : Mirrors q r) (turnId now now' : String) :
    Together Mirrors (q.releaseTurn now turnId)
    (.ok (RedisMessageQueue.releaseTurn r now' turnId)) := by
  have hbacked : ∀ e ∈ q.streams (.turn turnId), ∃ a, q.receipts e.envelope.deliveryId =
      some a := by
    intro e he
    obtain ⟨a, ha, -⟩ := h.backed _ e he
    exact ⟨a, ha⟩
  obtain ⟨q', hfold, hq'⟩ := releaseAll now now' (h.streams (.turn turnId)) h (fun _ hx => hx)
    (h.single _) hbacked fun e he k x hx hd => h.apart k _ x hx e he hd
  rw [MemoryMessageQueue.releaseTurn, hfold]
  exact hq'

end Mirrors

theorem Mirrors.peekThread {q : MemoryMessageQueue} {r : Redis} (h : Mirrors q r)
    (threadId now : String) (hhead : ∀ e ∈ (q.streams (.thread threadId)).head?, e.owner = none) :
    (q.peekThread threadId).map MessageEnvelope.plain =
      (RedisMessageQueue.peekThread r now threadId).map MessageEnvelope.plain := by
  rw [MemoryMessageQueue.peekThread, RedisMessageQueue.peekThread]
  rcases h.toMirrorsStreams.first (.thread threadId) with ⟨hq, hr⟩ | ⟨a,
    rest, b, rest', hq, hr, hab, -⟩
  · rw [hq, hr]
    rfl
  · have ha : a ∈ q.streams (.thread threadId) := by rw [hq]; exact List.mem_cons_self
    have hb : b ∈ r.streams (.thread threadId) := by rw [hr]; exact List.mem_cons_self
    have howner : a.owner = none := hhead a (by rw [hq]; rfl)
    have hbase := MirrorsStreams.face_base hab
    obtain ⟨x, hx, -, hxbase⟩ := h.backed _ a ha
    have hcorr : b.envelope.correlationId ≠ some "" := by
      rw [← MessageEnvelope.base_correlationId hbase, MessageEnvelope.base_correlationId hxbase]
      exact (h.own _ x hx).correlation
    have hattempts : a.envelope.attempts = b.envelope.attempts :=
      (h.fresh _ a ha howner).trans (h.raw _ b hb).1.symm
    rw [hq, hr]
    show some a.envelope.plain = some (b.envelope.fromDict now).plain
    rw [MessageEnvelope.plain_fromDict b.envelope now hcorr,
      MessageEnvelope.plain_of_base hbase hattempts]

/-! ## Fingerprints stay -/

/-- A fingerprint that is set is never another one. -/
def KeepsReceipts (r r' : Redis) : Prop :=
  ∀ d fp, (r.receipts d).fingerprint = some fp → (r'.receipts d).fingerprint = some fp

namespace KeepsReceipts

variable {r r' r'' : Redis}

theorem refl (r : Redis) : KeepsReceipts r r := fun _ _ h => h

theorem trans (h : KeepsReceipts r r') (h' : KeepsReceipts r' r'') : KeepsReceipts r r'' :=
  fun d fp hfp => h' d fp (h d fp hfp)

theorem of_eq (h : r'.receipts = r.receipts) : KeepsReceipts r r' :=
  fun d fp hfp => by rw [h]; exact hfp

theorem setReceipt {d : String} {receipt : RedisReceipt}
    (h : ∀ fp, (r.receipts d).fingerprint = some fp → receipt.fingerprint = some fp) :
    KeepsReceipts r (r.setReceipt d receipt) := by
  intro d' fp hfp
  rw [redis_setReceipt]
  split
  · next hd => exact h fp (hd ▸ hfp)
  · exact hfp

theorem settle (r : Redis) (d : String) (status : ReceiptStatus) :
    KeepsReceipts r (r.settle d status) :=
  setReceipt fun _ h => h

theorem hincrby (r : Redis) (d : String) : KeepsReceipts r (r.hincrby d).2 :=
  setReceipt fun _ h => h

theorem dispatchMessages (r : Redis) (c : DispatchCall)
    (h : ∀ fp, (r.receipts c.deliveryId).fingerprint = some fp → fp = c.fingerprint) :
    KeepsReceipts r (r.dispatchMessages c).2 := by
  rw [Redis.dispatchMessages]
  split
  · exact refl r
  · have hset : KeepsReceipts r
        ((r.hsetAll c.threadId (c.items.map fun item => (item.id, item.updated))).xadd
        c.stream c.envelope) := of_eq (hsetAll_receipts ..)
    refine hset.trans (setReceipt fun fp hfp => ?_)
    have hfp' : (r.receipts c.deliveryId).fingerprint = some fp := by
      rw [← hfp]
      show _ = ((r.hsetAll _ _).receipts _).fingerprint
      rw [hsetAll_receipts]
    rw [h fp hfp']

theorem dispatchScript (r : Redis) (c : DispatchCall) : KeepsReceipts r (r.dispatchScript c).2 := by
  rw [Redis.dispatchScript]
  split
  · next existing he =>
    split
    · exact refl r
    · next hsame =>
      split
      · exact refl r
      · refine dispatchMessages r c fun fp hfp => ?_
        rw [he, Option.some.injEq] at hfp
        exact hfp ▸ not_not.mp hsame
  · next hnone => exact dispatchMessages r c fun fp hfp => by rw [hnone] at hfp; cases hfp

theorem directDispatchScript (r : Redis) (key : StreamKey) (fp : Fingerprint)
    (e : MessageEnvelope) :
    KeepsReceipts r (r.directDispatchScript key fp e).2 := by
  rw [Redis.directDispatchScript]
  split
  · split <;> exact refl r
  · next hnone =>
    have hadd : KeepsReceipts r (r.xadd key e) := of_eq rfl
    exact hadd.trans (setReceipt fun fp' hfp' => by cases hnone.symm.trans hfp')

theorem ackScript (r : Redis) (d : String) (fp : Fingerprint) (key : StreamKey) (n : Nat)
    (t : String) (ids : List String) : KeepsReceipts r (r.ackScript d fp key n t ids).2 := by
  rcases ackScript_cases r d fp key n t ids with ⟨-, h⟩ | h
  · rw [h]
    exact refl r
  · rw [h]
    have hdel : KeepsReceipts r (ids.foldl (fun r id => r.deleteExec t id) (r.xdel key n)) :=
      of_eq (deleteAll_receipts ..)
    exact hdel.trans (settle _ d _)

theorem claimStream (r : Redis) (now : String) (key : StreamKey) (consumer : String)
    (recover : Bool) :
    KeepsReceipts r (RedisMessageQueue.claimStream r now key consumer recover).2 := by
  have hcount : ∀ p : Entry × Redis, p.2.receipts = r.receipts →
      KeepsReceipts r (RedisMessageQueue.counted now p).2 := fun p hp =>
    (of_eq hp).trans (hincrby p.2 p.1.envelope.deliveryId)
  rw [RedisMessageQueue.claimStream]
  split
  · next p hp =>
    obtain ⟨x, -, rfl⟩ := Option.map_eq_some_iff.mp hp
    exact hcount _ rfl
  · split
    · exact refl r
    · split
      · next p hp =>
        obtain ⟨x, -, rfl⟩ := Option.map_eq_some_iff.mp hp
        exact hcount _ rfl
      · exact refl r

theorem releaseTurn (r : Redis) (now turnId : String) :
    KeepsReceipts r (RedisMessageQueue.releaseTurn r now turnId) := by
  rw [RedisMessageQueue.releaseTurn]
  generalize r.streams (.turn turnId) = entries
  induction entries generalizing r with
  | nil => exact refl r
  | cons e entries ih =>
    have hset : KeepsReceipts r (RedisMessageQueue.release now turnId r e) := by
      refine trans (of_eq ?_) (settle _ e.envelope.deliveryId .returned)
      exact hsetAll_receipts ..
    exact hset.trans (ih _)

end KeepsReceipts

theorem call_keeps {now : String} {s : Session Redis} {op : Op} {p : Reply × Session Redis}
    (h : RedisMessageQueue.call now s op = some p) : KeepsReceipts s.queue p.2.queue := by
  have hsame : KeepsReceipts s.queue s.queue := .refl _
  -- every call answers from a state that keeps them
  have hreply : ∀ {α : Type} (x : Except QueueError (α × Redis)) (f : α → Reply),
      (∀ a q, x = .ok (a, q) → KeepsReceipts s.queue q) →
        KeepsReceipts s.queue (s.reply x f).2.queue :=
    fun x f hx => Session.reply_kept (P := fun s' => KeepsReceipts s.queue s'.queue) hsame hx
  have hunit : ∀ x : Except QueueError Redis, (∀ q, x = .ok q → KeepsReceipts s.queue q) →
      KeepsReceipts s.queue (s.replyUnit x).2.queue :=
    fun x hx => Session.replyUnit_kept (P := fun s' => KeepsReceipts s.queue s'.queue) hsame hx
  have hdirect : ∀ sender target complaint e a q,
      RedisMessageQueue.dispatchDirect s.queue sender target complaint e = .ok (a, q) →
        KeepsReceipts s.queue q := by
    intro sender target complaint e a q hx
    simp only [RedisMessageQueue.dispatchDirect] at hx
    split at hx
    · cases hx
    · split at hx
      · cases hx
      · cases hx
        exact .directDispatchScript _ _ _ _
  cases op with
  | create item =>
    cases h
    refine hreply _ _ fun a q hx => ?_
    simp only [RedisMessageQueue.create] at hx
    split at hx
    · cases hx
    · cases hx
      exact .refl _
    · cases hx
      exact .of_eq rfl
  | update t id content references =>
    cases h
    refine hreply _ _ fun a q hx => ?_
    simp only [RedisMessageQueue.update] at hx
    split at hx
    · cases hx
    · cases hx
      exact .of_eq rfl
  | delete t id =>
    cases h
    refine hunit _ fun q hx => ?_
    simp only [RedisMessageQueue.delete] at hx
    split at hx
    · cases hx
    · cases hx
      exact .of_eq (deleteExec_receipts ..)
  | list t => cases h; exact hsame
  | dispatch d =>
    cases h
    refine hreply _ _ fun a q hx => ?_
    simp only [RedisMessageQueue.dispatch] at hx
    split at hx
    · cases hx
    · cases hx
      exact .refl _
    · split at hx
      · cases hx
      · split at hx
        · cases hx
        · cases hx
          exact .dispatchScript _ _
  | dispatchTurnStart e => cases h; exact hreply _ _ (hdirect _ _ _ e)
  | dispatchAgent e => cases h; exact hreply _ _ (hdirect _ _ _ e)
  | dispatchReport e => cases h; exact hreply _ _ (hdirect _ _ _ e)
  | claim turnId consumer => cases h; exact .claimStream _ _ _ _ _
  | claimThread threadId consumer => cases h; exact .claimStream _ _ _ _ _
  | claimThreadRecovery threadId consumer => cases h; exact .claimStream _ _ _ _ _
  | claimTurnStart consumer recover => cases h; exact .claimStream _ _ _ _ _
  | claimReport threadId consumer recover => cases h; exact .claimStream _ _ _ _ _
  | peekThread threadId => cases h; exact hsame
  | ack k =>
    obtain ⟨c, -, hc⟩ := Option.map_eq_some_iff.mp h
    cases hc
    refine hunit _ fun q hx => ?_
    simp only [RedisMessageQueue.ack] at hx
    split at hx
    · cases hx
    · cases hx
      exact .ackScript _ _ _ _ _ _ _
  | releaseTurn turnId =>
    cases h
    refine hunit _ fun q hx => ?_
    cases hx
    exact .releaseTurn _ _ _

/-! ## Whole runs -/

/-- What a call leaves on both sides; `ours` are the claims of Redis before it. -/
structure InStep (ours : List ClaimedEnvelope) (p : Reply × Session MemoryMessageQueue)
    (p' : Reply × Session Redis) : Prop where
  agrees : p.1.Agrees p'.1
  mirrors : Mirrors p.2.queue p'.2.queue
  claims : p.2.claims.map ClaimedEnvelope.face = p'.2.claims.map ClaimedEnvelope.face
  news : ∀ c ∈ p'.2.claims, c ∈ ours ∨
    (p'.2.queue.receipts c.envelope.deliveryId).fingerprint = some c.envelope.ackFingerprint

namespace SideBySide.Mirrored

variable {s : SideBySide}

theorem reply (h : s.Mirrored) {α β : Type} {x : Except QueueError (α × MemoryMessageQueue)}
    {y : Except QueueError (β × Redis)} {f : α → Reply} {g : β → Reply}
    (hxy : Together (fun a b => (f a.1).Agrees (g b.1) ∧ Mirrors a.2 b.2) x y) :
    InStep s.redis.claims (s.memory.reply x f) (s.redis.reply y g) := by
  cases x with
  | error error =>
    cases y with
    | error error' => exact ⟨hxy, h.toMirrors, h.claims, fun c hc => .inl hc⟩
    | ok b => cases hxy
  | ok a =>
    cases y with
    | error error' => cases hxy
    | ok b => exact ⟨hxy.1, hxy.2, h.claims, fun c hc => .inl hc⟩

theorem replyUnit (h : s.Mirrored) {x : Except QueueError MemoryMessageQueue}
    {y : Except QueueError Redis} (hxy : Together Mirrors x y) :
    InStep s.redis.claims (s.memory.replyUnit x)
    (s.redis.replyUnit y) := by
  cases x with
  | error error =>
    cases y with
    | error error' => exact ⟨hxy, h.toMirrors, h.claims, fun c hc => .inl hc⟩
    | ok b => cases hxy
  | ok a =>
    cases y with
    | error error' => cases hxy
    | ok b => exact ⟨trivial, hxy, h.claims, fun c hc => .inl hc⟩

theorem replyClaim (h : s.Mirrored) {x : Option ClaimedEnvelope × MemoryMessageQueue}
    {y : Option ClaimedEnvelope × Redis} (hxy : ClaimsAlike x.2 y.2 x.1 y.1) :
    InStep s.redis.claims (s.memory.replyClaim x) (s.redis.replyClaim y) := by
  obtain ⟨hm, hface, hack⟩ := hxy
  have hplain : x.1.map (fun c => c.envelope.plain) = y.1.map fun c => c.envelope.plain := by
    have := congrArg (Option.map Prod.snd) hface
    simpa [Option.map_map, Function.comp_def, ClaimedEnvelope.face] using this
  have hlist : x.1.toList.map ClaimedEnvelope.face = y.1.toList.map ClaimedEnvelope.face := by
    have := congrArg Option.toList hface
    simpa [Option.toList_map] using this
  refine ⟨hplain, hm, ?_, fun c hc => ?_⟩
  · show (s.memory.claims ++ _).map _ = (s.redis.claims ++ _).map _
    rw [List.map_append, List.map_append, h.claims, hlist]
  · rcases List.mem_append.mp hc with hc | hc
    · exact .inl hc
    · exact .inr (hack c (Option.mem_toList.mp hc))

/-- **One call** on both queues. -/
theorem call (h : s.Mirrored) {c : Call} (hok : c.op.Alike s.memory)
    {p : Reply × Session MemoryMessageQueue} {p' : Reply × Session Redis}
    (hp : MemoryMessageQueue.call c.now s.memory c.op = some p)
    (hp' : RedisMessageQueue.call c.now' s.redis c.op = some p') : InStep s.redis.claims p p' := by
  obtain ⟨now, now', op⟩ := c
  have hm := h.toMirrors
  have hagent : ∀ target, target = .thread ∨ target = .report →
      ∀ e : MessageEnvelope, e.targetKind = target →
      MemoryMessageQueue.consumes e = false := by
    rintro target (rfl | rfl) e he <;> simp [MemoryMessageQueue.consumes, he]
  cases op with
  | create item => cases hp; cases hp'; exact h.reply (hm.create item now')
  | update t id content references =>
    cases hp; cases hp'
    exact h.reply (hm.update t id content references now now')
  | delete t id => cases hp; cases hp'; exact h.replyUnit (hm.delete t id now')
  | list t =>
    cases hp; cases hp'
    exact ⟨hm.list t now', hm, h.claims, fun c hc => .inl hc⟩
  | dispatch d => cases hp; cases hp'; exact h.reply (hm.dispatch hok now now')
  | dispatchTurnStart e =>
    cases hp; cases hp'
    obtain ⟨hread, hq⟩ := hok
    refine h.reply (hm.dispatchDirect .user .turnStart _ hread fun he => ?_)
    simpa [MemoryMessageQueue.consumes, he] using hq
  | dispatchAgent e =>
    cases hp; cases hp'
    exact h.reply (hm.dispatchDirect .agent .thread _ hok (hagent _ (.inl rfl) e))
  | dispatchReport e =>
    cases hp; cases hp'
    exact h.reply (hm.dispatchDirect .agent .report _ hok (hagent _ (.inr rfl) e))
  | claim turnId consumer =>
    cases hp; cases hp'
    exact h.replyClaim (hm.claimStream (.turn turnId) consumer false now' (.inr hok))
  | claimThread threadId consumer =>
    cases hp; cases hp'
    exact h.replyClaim (hm.claimStream (.thread threadId) consumer false now' (.inr hok))
  | claimThreadRecovery threadId consumer =>
    cases hp; cases hp'
    exact h.replyClaim (hm.claimStream (.thread threadId) consumer true now' (.inl rfl))
  | claimTurnStart consumer recover =>
    cases hp; cases hp'
    exact h.replyClaim (hm.claimStream .turnStart consumer recover now' hok)
  | claimReport threadId consumer recover =>
    cases hp; cases hp'
    exact h.replyClaim (hm.claimStream (.report threadId) consumer recover now' hok)
  | peekThread threadId =>
    cases hp; cases hp'
    exact ⟨hm.peekThread threadId now' hok, hm, h.claims, fun c hc => .inl hc⟩
  | ack k =>
    obtain ⟨c, hc, rfl⟩ := Option.map_eq_some_iff.mp hp
    obtain ⟨c', hc', rfl⟩ := Option.map_eq_some_iff.mp hp'
    have hface : c.face = c'.face := by
      have hk := congrArg (fun l => l[k]?) h.claims
      simpa [List.getElem?_map, hc, hc'] using hk
    exact h.replyUnit (hm.ack hface (h.acks c' (List.mem_of_getElem? hc')) (hok c hc))
  | releaseTurn turnId => cases hp; cases hp'; exact h.replyUnit (hm.releaseTurn turnId now now')

end SideBySide.Mirrored

theorem Mirrors.new : Mirrors MemoryMessageQueue.new Redis.new where
  index := ⟨fun _ _ => by simp [Redis.new, Redis.zrange], fun _ => rfl, fun _ =>
    .nil, fun _ _ h => nomatch h⟩
  ids _ := .nil
  items _ _ h := nomatch h
  counter := rfl
  streams _ := rfl
  absent _ _ := rfl
  receipts _ _ h := nomatch h
  own _ _ h := nomatch h
  head _ _ h := nomatch h
  fresh _ _ h := nomatch h
  counted _ _ h := nomatch h
  backed _ _ h := nomatch h
  single _ := .nil
  apart _ _ _ h := nomatch h
  raw _ _ h := nomatch h

theorem SideBySide.Mirrored.new : SideBySide.new.Mirrored :=
  ⟨Mirrors.new, rfl, fun _ h => nomatch h⟩

/-- What holds along a run. -/
structure SideBySide.InAgreement (s : SideBySide) : Prop extends s.Mirrored where
  replies : ∀ x ∈ s.replies, x.1.Agrees x.2

theorem SideBySide.InAgreement.step {s t : SideBySide} (h : s.InAgreement) {c : Call}
    (hok : c.op.Alike s.memory) (hstep : s.step c = some t) : t.InAgreement := by
  rw [SideBySide.step] at hstep
  split at hstep
  · next reply memory reply' redis hp hp' =>
    cases hstep
    have hcall := h.toMirrored.call hok hp hp'
    have hkeeps := call_keeps hp'
    refine ⟨⟨hcall.mirrors, hcall.claims, fun x hx => ?_⟩, fun x hx => ?_⟩
    · rcases hcall.news x hx with hold | hnew
      · exact hkeeps _ _ (h.acks x hold)
      · exact hnew
    · rcases List.mem_append.mp hx with hx | hx
      · exact h.replies x hx
      · obtain rfl := List.mem_singleton.mp hx
        exact hcall.agrees
  · cases hstep

/-- A message from an agent to thread `t`. -/
def agentMessage (deliveryId : String) : MessageEnvelope :=
  ⟨deliveryId, .agent, "a", .thread, "t", "s", "t", [("content", .str "hello")],
    [deliveryId], "1", none, 0⟩

/-- Two messages wait for thread `t`, and the first is claimed. -/
def agentMessages : List Call :=
  [⟨"1", "2", .dispatchAgent (agentMessage "d")⟩, ⟨"3", "4", .dispatchAgent (agentMessage "e")⟩,
    ⟨"5", "6", .claimThread "t" "c"⟩]

end MiniAgent.Queue
