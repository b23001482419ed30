import MiniAgent.Queue.Clients

/-!
# The index of a queue

The fields of a thread's messages hash are the members of its order, in the order of their creation.
`WATCH` keeps the writes of `create`, `update` and `delete` to it: `Moved` says that whatever
changes the hash or the sequence of a thread changes the version, so a transaction that finds its
version finds what the client read before. The scripts look for themselves. `release_turn` does
neither: it writes what it read in an earlier command, and brings back a message that was removed in
between.
-/

namespace MiniAgent.Queue

open Lib

/-! ## What `WATCH` sees -/

/-- From one state to a later one: a thread whose version is the same has the same messages and
sequence. -/
def Moved (r r' : Redis) : Prop :=
  ∀ t, r.version t ≤ r'.version t ∧
    (r'.version t = r.version t → r'.messages t = r.messages t ∧ r'.sequence t = r.sequence t)

namespace Moved

variable {r r' r'' : Redis}

theorem refl (r : Redis) : Moved r r := fun _ => ⟨Nat.le_refl _, fun _ => ⟨rfl, rfl⟩⟩

theorem trans (h : Moved r r') (h' : Moved r' r'') : Moved r r'' := by
  intro t
  refine ⟨(h t).1.trans (h' t).1, fun heq => ?_⟩
  have hle := (h t).1
  have hle' := (h' t).1
  obtain ⟨hm, hs⟩ := (h t).2 (by omega)
  obtain ⟨hm', hs'⟩ := (h' t).2 (by omega)
  exact ⟨hm'.trans hm, hs'.trans hs⟩

/-- Commands on streams, receipts and orders. -/
theorem of_eq (hm : r'.messages = r.messages) (hv : r'.version = r.version)
    (hs : r'.sequence = r.sequence) : Moved r r' := by
  intro t
  rw [hm, hv, hs]
  exact ⟨Nat.le_refl _, fun _ => ⟨rfl, rfl⟩⟩

theorem setMessage (r : Redis) (t id : String) (value : Option QueuedMessage) :
    Moved r (r.setMessage t id value) := by
  intro t'
  by_cases h : t' = t
  · subst h
    simp [Redis.setMessage]
  · simp [Redis.setMessage, h]

theorem hdel (r : Redis) (t id : String) : Moved r (r.hdel t id) := by
  rw [Redis.hdel]
  split
  · exact setMessage r t id none
  · exact refl r

theorem deleteExec (r : Redis) (t id : String) : Moved r (r.deleteExec t id) :=
  (hdel r t id).trans (of_eq rfl rfl rfl)

theorem createExec (r : Redis) (item : QueuedMessage) (next : Nat) :
    Moved r (r.createExec item next) := by
  intro t
  by_cases h : t = item.threadId
  · subst h
    simp [Redis.createExec, Redis.setSequence, Redis.hset, Redis.setMessage,
      Redis.zadd, Redis.setOrder]
  · simp [Redis.createExec, Redis.setSequence, Redis.hset, Redis.setMessage,
      Redis.zadd, Redis.setOrder, h]

theorem hsetAll (r : Redis) (t : String) (writes : List (String × QueuedMessage)) :
    Moved r (r.hsetAll t writes) := by
  rw [Redis.hsetAll]
  induction writes generalizing r with
  | nil => exact refl r
  | cons w writes ih => exact (setMessage r t w.1 (some w.2)).trans (ih _)

theorem deleteAll (r : Redis) (t : String) (ids : List String) :
    Moved r (ids.foldl (fun r id => r.deleteExec t id) r) := by
  induction ids generalizing r with
  | nil => exact refl r
  | cons id ids ih => exact (deleteExec r t id).trans (ih _)

theorem dispatchExec (r : Redis) (c : DispatchCall) : Moved r (r.dispatchExec c) :=
  (hsetAll r _ _).trans (of_eq rfl rfl rfl)

theorem ackExec (r : Redis) (d : String) (key : StreamKey) (streamId : Nat) (t : String)
    (ids : List String) : Moved r (r.ackExec d key streamId t ids) := by
  have hx : Moved r (r.xdel key streamId) := of_eq rfl rfl rfl
  exact (hx.trans (deleteAll _ t ids)).trans (of_eq rfl rfl rfl)

theorem releaseExec (r : Redis) (turnId : String) (e : Entry)
    (writes : List (String × QueuedMessage)) :
    Moved r (r.releaseExec turnId e writes) :=
  (hsetAll r _ writes).trans (of_eq rfl rfl rfl)

end Moved

/-- **Every step** is seen by `WATCH`. -/
theorem Effect.moved {w w' : World} {f : Frame} (h : Effect w f w') : Moved w.redis w'.redis := by
  cases h with
  | quiet _ _ h => exact .of_eq h.messages h.version h.sequence
  | created item version next => exact .createExec _ item next
  | updated t id content references version m => exact .setMessage _ t id _
  | deleted t id version => exact .deleteExec _ t id
  | dispatched d stored call => exact .dispatchExec _ call
  | acknowledged c => exact .ackExec _ _ _ _ _ _
  | released turnId e writes => exact .releaseExec _ turnId e writes

/-! ## What a client has read -/

/-- What still holds of the reads of a call, as long as the version is the one it watches. -/
def Frame.Fresh (r : Redis) : Frame → Prop
  | .createRead item version => version ≤ r.version item.threadId
  | .createSequence item version => version ≤ r.version item.threadId ∧
    (r.version item.threadId = version → r.messages item.threadId item.id = none)
  | .createExec item version next => version ≤ r.version item.threadId ∧
    (r.version item.threadId = version →
      r.messages item.threadId item.id = none ∧ next = r.sequence item.threadId + 1)
  | .updateRead t _ _ _ version => version ≤ r.version t
  | .updateExec t id _ _ version _ => version ≤ r.version t ∧
    (r.version t = version → (r.messages t id).isSome)
  | _ => True

theorem Frame.Fresh.moved {r r' : Redis} {f : Frame} (h : f.Fresh r) (hm : Moved r r') :
    f.Fresh r' := by
  cases f with
  | createRead item version => exact Nat.le_trans h (hm item.threadId).1
  | createSequence item version =>
    obtain ⟨hle, hread⟩ := h
    have hle' := (hm item.threadId).1
    refine ⟨hle.trans hle', fun heq => ?_⟩
    rw [((hm item.threadId).2 (by omega)).1]
    exact hread (by omega)
  | createExec item version next =>
    obtain ⟨hle, hread⟩ := h
    have hle' := (hm item.threadId).1
    refine ⟨hle.trans hle', fun heq => ?_⟩
    obtain ⟨hmsg, hseq⟩ := (hm item.threadId).2 (by omega)
    rw [hmsg, hseq]
    exact hread (by omega)
  | updateRead t id content references version => exact Nat.le_trans h (hm t).1
  | updateExec t id content references version updated =>
    obtain ⟨hle, hread⟩ := h
    have hle' := (hm t).1
    refine ⟨hle.trans hle', fun heq => ?_⟩
    rw [((hm t).2 (by omega)).1]
    exact hread (by omega)
  | _ => trivial

theorem updateRead_ok {now content : String} {references : List Fields} {raw : Option QueuedMessage}
    {updated : QueuedMessage} (h : updateRead now content references raw = .ok updated) :
    ∃ m, raw = some m ∧ m.state = .pending ∧
      updated = { m.fromDict now with
        content := content, references := references, updatedAt := now } := by
  cases raw with
  | none => cases h
  | some m =>
    simp only [updateRead, pendingRead] at h
    split at h
    · cases h
    · next current hc =>
      split at hc
      · cases hc
      · next hp =>
        cases hc
        split at h
        · cases h
        · cases h
          exact ⟨m, rfl, not_not.mp hp, rfl⟩

/-- **A client goes on** with what it has just read. -/
theorem Pushes.fresh {r : Redis} {f g : Frame} {o : Choice} (hp : Pushes r o f g) (h : f.Fresh r) :
    g.Fresh r := by
  cases hp with
  | create item => exact Nat.le_refl _
  | createRead item version hnone => exact ⟨h, fun _ => hnone⟩
  | createSequence item version => exact ⟨h.1, fun heq => ⟨h.2 heq, rfl⟩⟩
  | update t id content references => exact Nat.le_refl _
  | updateRead t id content references version updated hread =>
    obtain ⟨m, hm, -⟩ := updateRead_ok hread
    exact ⟨h, fun _ => by rw [hm]; rfl⟩
  | _ => trivial

/-! ## The index -/

/-- The index of all threads. `bounded` makes the next score the highest. -/
structure Indexed (r : Redis) (l : Ledger) : Prop where
  fields : ∀ t id, (r.messages t id).isSome ↔ id ∈ r.zrange t
  created : ∀ t, r.zrange t = l.created t
  scores : ∀ t, ((r.order t).map Prod.snd).Pairwise (· < ·)
  bounded : ∀ t, ∀ m ∈ r.order t, m.2 ≤ r.sequence t

namespace Indexed

variable {r : Redis} {l : Ledger}

theorem of_eq {r' : Redis} {l' : Ledger} (h : Indexed r l)
    (hm : ∀ t id, (r'.messages t id).isSome = (r.messages t id).isSome) (ho : r'.order = r.order)
    (hs : r'.sequence = r.sequence) (hl : l'.created = l.created) : Indexed r' l' where
  fields t id := by rw [hm, h.fields, Redis.zrange, Redis.zrange, ho]
  created t := by rw [hl, ← h.created, Redis.zrange, Redis.zrange, ho]
  scores t := by rw [ho]; exact h.scores t
  bounded t := by rw [ho, hs]; exact h.bounded t

theorem hset_messages (r : Redis) (t id : String) (m : QueuedMessage) (t' id' : String) :
    (r.hset t id m).messages t' id' = if t' = t ∧ id' = id then some m else r.messages t' id' := by
  by_cases ht : t' = t
  · subst ht
    by_cases hid : id' = id
    · subst hid
      simp [Redis.hset, Redis.setMessage]
    · simp [Redis.hset, Redis.setMessage, hid]
  · simp [Redis.hset, Redis.setMessage, ht]

/-- A text is written over one that is there. -/
theorem hset (h : Indexed r l) {t id : String} {m : QueuedMessage}
    (hin : (r.messages t id).isSome) :
    Indexed (r.hset t id m) l := by
  refine h.of_eq (fun t' id' => ?_) rfl rfl rfl
  rw [hset_messages]
  split
  · next he => obtain ⟨rfl, rfl⟩ := he; exact hin.symm
  · rfl

theorem hset_isSome {t id id' : String} {m : QueuedMessage} (h : (r.messages t id').isSome) :
    ((r.hset t id m).messages t id').isSome := by
  rw [hset_messages]
  split
  · rfl
  · exact h

theorem hsetAll (h : Indexed r l) {t : String} {writes : List (String × QueuedMessage)}
    (hin : ∀ w ∈ writes, (r.messages t w.1).isSome) : Indexed (r.hsetAll t writes) l := by
  rw [Redis.hsetAll]
  induction writes generalizing r with
  | nil => exact h
  | cons w writes ih =>
    exact ih (h.hset (hin w List.mem_cons_self)) fun w' hw' =>
      hset_isSome (hin w' (List.mem_cons_of_mem _ hw'))

theorem deleteExec_order (r : Redis) (t id t' : String) :
    (r.deleteExec t id).order t' = if t' = t then (r.order t).filter fun m => m.1 ≠ id
      else r.order t' := by
  have hd : (r.hdel t id).order = r.order := by
    rw [Redis.hdel]
    split <;> rfl
  by_cases ht : t' = t
  · subst ht
    simp [Redis.deleteExec, Redis.zrem, Redis.setOrder, hd]
  · simp [Redis.deleteExec, Redis.zrem, Redis.setOrder, hd, ht]

theorem deleteExec_messages (r : Redis) (t id t' id' : String) :
    (r.deleteExec t id).messages t' id' = if t' = t ∧ id' = id then none
    else r.messages t' id' := by
  show (r.hdel t id).messages t' id' = _
  rw [Redis.hdel]
  by_cases ht : t' = t
  · subst ht
    by_cases hid : id' = id
    · subst hid
      split
      · simp [Redis.setMessage]
      · next h => simpa using h
    · split <;> simp [Redis.setMessage, hid]
  · split <;> simp [Redis.setMessage, ht]

theorem deleteExec_sequence (r : Redis) (t id : String) :
    (r.deleteExec t id).sequence = r.sequence := by
  show (r.hdel t id).sequence = _
  rw [Redis.hdel]
  split <;> rfl

/-- A message leaves the hash and the order together. -/
theorem deleteExec (h : Indexed r l) (t id : String) :
    Indexed (r.deleteExec t id) (l.remove t id) := by
  refine ⟨fun t' id' => ?_, fun t' => ?_, fun t' => ?_, fun t' m hm => ?_⟩
  · rw [deleteExec_messages, Redis.zrange, deleteExec_order]
    by_cases ht : t' = t
    · subst ht
      have := h.fields t' id'
      by_cases hid : id' = id
      · subst hid
        simp
      · simp only [hid, and_false, if_false, if_true, this, Redis.zrange]
        simp [hid]
    · simp only [ht, false_and, if_false, h.fields, Redis.zrange]
  · rw [Redis.zrange, deleteExec_order]
    by_cases ht : t' = t
    · subst ht
      simp only [if_true, Ledger.remove, Function.update_self, ← h.created,
        Redis.zrange, List.filter_map]
      rfl
    · simp only [ht, if_false, Ledger.remove, Function.update_of_ne, ne_eq, not_false_eq_true]
      exact h.created t'
  · rw [deleteExec_order]
    split
    · exact (h.scores t).sublist (List.filter_sublist.map _)
    · exact h.scores t'
  · rw [deleteExec_sequence]
    rw [deleteExec_order] at hm
    split at hm
    · next ht => subst ht; exact h.bounded t' m (List.mem_filter.mp hm).1
    · exact h.bounded t' m hm

theorem deleteAll (h : Indexed r l) (t : String) (ids : List String) :
    Indexed (ids.foldl (fun r id => r.deleteExec t id) r) (l.removeAll t ids) := by
  rw [Ledger.removeAll]
  induction ids generalizing r l with
  | nil => exact h
  | cons id ids ih => exact ih (h.deleteExec t id)

theorem deleteAll_messages (r : Redis) (t : String) (ids : List String) (t' id' : String) :
    (ids.foldl (fun r id => r.deleteExec t id) r).messages t' id' =
      if t' = t ∧ id' ∈ ids then none else r.messages t' id' := by
  induction ids generalizing r with
  | nil => simp
  | cons id ids ih =>
    rw [List.foldl_cons, ih, deleteExec_messages]
    by_cases ht : t' = t
    · by_cases hin : id' ∈ ids
      · simp [ht, hin]
      · by_cases hid : id' = id <;> simp [ht, hin, hid]
    · simp [ht]

/-- What comes after all others is inserted at the end. -/
theorem orderedInsert_last {a : String × Nat} {members : List (String × Nat)}
    (h : ∀ m ∈ members, m.2 < a.2) : members.orderedInsert Redis.scoreLe a = members ++ [a] := by
  induction members with
  | nil => rfl
  | cons m members ih =>
    have hlt := h m List.mem_cons_self
    have hnot : ¬Redis.scoreLe a m := by
      unfold Redis.scoreLe
      omega
    rw [List.orderedInsert_cons, if_neg hnot, ih fun m' hm' => h m' (List.mem_cons_of_mem _ hm'),
      List.cons_append]

theorem createExec_order {item : QueuedMessage} {next : Nat} (h : Indexed r l)
    (hnone : r.messages item.threadId item.id = none) (hnext : next = r.sequence item.threadId + 1)
    (t : String) : (r.createExec item next).order t =
      if t = item.threadId then r.order t ++ [(item.id, next)] else r.order t := by
  by_cases ht : t = item.threadId
  · subst ht
    have hself : (r.order item.threadId).filter (fun m => m.1 ≠ item.id) =
        r.order item.threadId := by
      refine List.filter_eq_self.mpr fun m hm => ?_
      have hne : m.1 ≠ item.id := by
        intro heq
        have hin := (h.fields item.threadId item.id).mpr (heq ▸ List.mem_map_of_mem hm)
        rw [hnone] at hin
        cases hin
      simpa using hne
    have hlast : ∀ m ∈ r.order item.threadId, m.2 < next := by
      intro m hm
      have := h.bounded item.threadId m hm
      omega
    show Function.update r.order item.threadId _ item.threadId = _
    rw [Function.update_self, if_pos rfl]
    show List.orderedInsert Redis.scoreLe _ ((r.order item.threadId).filter _) = _
    rw [hself, orderedInsert_last hlast]
  · simp [Redis.createExec, Redis.zadd, Redis.setOrder, Redis.hset, Redis.setMessage,
      Redis.setSequence, ht]

theorem createExec_messages (r : Redis) (item : QueuedMessage) (next : Nat) (t id : String) :
    (r.createExec item next).messages t id =
      if t = item.threadId ∧ id = item.id then some item.json else r.messages t id :=
  hset_messages (r.setSequence item.threadId next) item.threadId item.id item.json t id

/-- A new message comes last. -/
theorem createExec {item : QueuedMessage} {next : Nat} (h : Indexed r l)
    (hnone : r.messages item.threadId item.id = none)
    (hnext : next = r.sequence item.threadId + 1) :
    Indexed (r.createExec item next) (l.enter item) := by
  have horder := createExec_order h hnone hnext
  have hsequence : ∀ t, (r.createExec item next).sequence t =
      if t = item.threadId then next else r.sequence t := by
    intro t
    show Function.update r.sequence item.threadId next t = _
    by_cases ht : t = item.threadId
    · subst ht
      simp
    · simp [ht]
  refine ⟨fun t id => ?_, fun t => ?_, fun t => ?_, fun t m hm => ?_⟩
  · rw [createExec_messages, Redis.zrange, horder]
    by_cases ht : t = item.threadId
    · subst ht
      have := h.fields item.threadId id
      by_cases hid : id = item.id
      · subst hid
        simp
      · simp only [hid, and_false, if_false, if_true, this, Redis.zrange]
        simp [hid]
    · simp only [ht, false_and, if_false, h.fields, Redis.zrange]
  · rw [Redis.zrange, horder]
    by_cases ht : t = item.threadId
    · subst ht
      simp [Ledger.enter, ← h.created, Redis.zrange]
    · simp [Ledger.enter, Ledger.setText, ht, ← h.created, Redis.zrange]
  · rw [horder]
    by_cases ht : t = item.threadId
    · subst ht
      rw [if_pos rfl, List.map_append, List.pairwise_append]
      refine ⟨h.scores _, List.pairwise_singleton _ _, fun a ha b hb => ?_⟩
      obtain ⟨m, hm, rfl⟩ := List.mem_map.mp ha
      obtain rfl : b = next := by simpa using hb
      have := h.bounded _ m hm
      omega
    · rw [if_neg ht]
      exact h.scores t
  · rw [hsequence]
    rw [horder] at hm
    by_cases ht : t = item.threadId
    · subst ht
      rw [if_pos rfl] at hm ⊢
      rcases List.mem_append.mp hm with hm | hm
      · have := h.bounded _ m hm
        omega
      · rw [List.mem_singleton.mp hm]
    · rw [if_neg ht] at hm ⊢
      exact h.bounded t m hm

end Indexed

/-- The messages of a dispatch that goes through are all there. -/
theorem present_of_changed {r : Redis} {t : String} {items : List Redispatch}
    (h : r.changed t items = none) :
    ∀ item ∈ items, r.messages t item.id = some item.raw ∧ item.raw.state = .pending := by
  induction items with
  | nil => nofun
  | cons item items ih =>
    rw [Redis.changed] at h
    split at h
    · cases h
    next m hm =>
    split at h
    · cases h
    next hp =>
    split at h
    · cases h
    next heq =>
    rw [not_not] at heq
    subst heq
    intro item' hi
    rcases List.mem_cons.mp hi with rfl | hi
    · exact ⟨hm, not_not.mp hp⟩
    · exact ih h item' hi

/-! ## Runs -/

/-- The transaction of a release finds every message it writes still in the hash. -/
def releaseInTime (s : Clients) : Frame → Prop
  | .release _ e [] writes => ∀ w ∈ writes, (s.shared.redis.messages e.envelope.threadId w.1).isSome
  | _ => True

instance (s : Clients) (f : Frame) : Decidable (releaseInTime s f) := by
  unfold releaseInTime
  split <;> infer_instance

theorem Indexed.effect {s : Clients} {w' : World} {f : Frame}
    (h : Indexed s.shared.redis s.shared.ledger) (hf : f.Fresh s.shared.redis)
    (hok : releaseInTime s f) (he : Effect s.shared f w') :
    Indexed w'.redis w'.ledger := by
  cases he with
  | quiet _ _ hq =>
    exact h.of_eq (fun t id => by rw [hq.messages]) hq.order hq.sequence (by rw [hq.ledger])
  | created item version next hv =>
    obtain ⟨hnone, hnext⟩ := hf.2 hv
    exact h.createExec hnone hnext
  | updated t id content references version m hv =>
    exact (h.hset (hf.2 hv)).of_eq (fun _ _ => rfl) rfl rfl rfl
  | deleted t id version hv => exact h.deleteExec t id
  | dispatched d stored call hc =>
    refine (h.hsetAll fun w hw => ?_).of_eq (fun _ _ => rfl) rfl rfl rfl
    obtain ⟨item, hi, rfl⟩ := List.mem_map.mp hw
    rw [(present_of_changed hc item hi).1]
    rfl
  | acknowledged c =>
    have hx : Indexed (s.shared.redis.xdel c.envelope.stream c.streamId) s.shared.ledger :=
      h.of_eq (fun _ _ => rfl) rfl rfl rfl
    exact (hx.deleteAll c.envelope.threadId c.envelope.ackIds).of_eq (fun _ _ => rfl) rfl rfl rfl
  | released turnId e writes => exact (h.hsetAll hok).of_eq (fun _ _ => rfl) rfl rfl rfl

/-- The index is right, and so is what the clients have read. -/
structure Watched (s : Clients) : Prop where
  indexed : Indexed s.shared.redis s.shared.ledger
  fresh : ∀ f, s.Pending f → f.Fresh s.shared.redis

theorem Watched.exec {s : Clients} {k : Nat} {f : Frame} {rest new : List Frame} {o : Choice}
    {w : World} (h : Watched s) (hk : s.threads[k]? = some (f :: rest)) (hok : releaseInTime s f)
    (hx : s.shared.exec f o = some (w, new)) : Watched ⟨w, s.threads.set k (new ++ rest)⟩ := by
  have heff := exec_effect s.shared f o
  have hw : w = ⟨(s.shared.redis.exec f o).1, s.shared.note f⟩ ∧
      new = (s.shared.redis.exec f o).2 := by
    simp only [World.exec, Option.some.injEq, Prod.mk.injEq] at hx
    exact ⟨hx.1.symm, hx.2.symm⟩
  obtain ⟨rfl, rfl⟩ := hw
  have hf := h.fresh f (Threads.pending_executed hk)
  refine ⟨h.indexed.effect hf hok heff, fun g hg => ?_⟩
  rcases Threads.pending_of_advance hk hg with hg | hg
  · exact ((exec_pushes hg).fresh hf).moved heff.moved
  · exact (h.fresh g hg).moved heff.moved

theorem Watched.new : Watched Clients.new := by
  refine ⟨⟨fun t id => ?_, fun t => rfl, fun t => List.Pairwise.nil, fun t m hm => by cases hm⟩,
    fun f hf => ?_⟩
  · simp [Clients.new, World.new, Redis.new, Redis.zrange]
  · obtain ⟨t, ht, -⟩ := hf
    cases ht

/-- A new call has read nothing. -/
theorem Watched.call {s : Clients} {f : Frame} (h : Watched s) (hcall : f.isCall = true) :
    Watched ⟨s.shared, s.threads ++ [[f]]⟩ := by
  refine ⟨h.indexed, fun g hg => ?_⟩
  rcases Threads.pending_call.mp hg with hg | rfl
  · exact h.fresh g hg
  · cases g <;> trivial

/-- The index of a thread: the fields of the hash are the members of the order, which are the
messages created and not removed since, in the order of their creation, under increasing scores. -/
structure QueueIndexed (w : World) (t : String) : Prop where
  fields : ∀ id, (w.redis.messages t id).isSome ↔ id ∈ w.redis.zrange t
  created : w.redis.zrange t = w.ledger.created t
  scores : ((w.redis.order t).map Prod.snd).Pairwise (· < ·)

/-- **The index is consistent** in every interleaving whose releases write only messages that are
still there. -/
theorem index_consistent {moves : List (Move Frame Choice)} {s : Clients}
    (hok : Meets Clients.step (Threads.Guarded releaseInTime) Clients.new moves)
    (hrun : run Clients.step Clients.new moves = some s) (t : String) :
    QueueIndexed s.shared t := by
  have hs : Watched s :=
    Threads.guarded_invariant (fun s f hs hcall => hs.call hcall)
      (fun s k f rest o w new hs hk hf hx => hs.exec hk hf hx) Watched.new hok hrun
  exact ⟨hs.indexed.fields t, hs.indexed.created t, hs.indexed.scores t⟩

/-- A client calls, and takes `n` steps as client `k`. -/
def calls (f : Frame) (k n : Nat) : List (Move Frame Choice) :=
  .call f :: List.replicate n (.advance k ⟨"2", none⟩)

/-- A message of thread `t` is created, dispatched to Turn `u` and claimed; a release of the Turn
has read its entry and its text. -/
def releasing : List (Move Frame Choice) :=
  calls (.create ⟨"m", "t", "hello", [], .pending, "1", "1"⟩) 0 4 ++
  calls (.dispatch ⟨"d", ["m"], "s", "t", "u", none, none⟩) 1 4 ++
  calls (.claim (.turn "u") "a") 2 4 ++ calls (.releaseTurn "u") 3 2

/-- The claim of the message. -/
def releasedClaim : ClaimedEnvelope :=
  ⟨1, ⟨"d", .user, "t", .turn, "u", "s", "t", [("content", .str "hello"), ("references", .arr [])],
    ["m"], "2", none, 1⟩⟩

/-- The release writes before the acknowledgement. -/
theorem index_consistent_after_release :
    ∃ s, run Clients.step Clients.new
        (releasing ++ [.advance 3 ⟨"2", none⟩] ++ calls (.ack releasedClaim) 4 1) = some s ∧
      Meets Clients.step (Threads.Guarded releaseInTime) Clients.new
        (releasing ++ [.advance 3 ⟨"2", none⟩] ++ calls (.ack releasedClaim) 4 1) ∧
      QueueIndexed s.shared "t" := by
  have hok : Meets Clients.step (Threads.Guarded releaseInTime) Clients.new
      (releasing ++ [.advance 3 ⟨"2", none⟩] ++ calls (.ack releasedClaim) 4 1) := by decide
  exact ⟨_, rfl, hok, index_consistent hok rfl "t"⟩

/-- The acknowledgement removes the message between the reading and the writing of the release,
which brings it back to the hash, but not to the order. -/
theorem release_revives_message :
    ∃ s, run Clients.step Clients.new
        (releasing ++ calls (.ack releasedClaim) 4 1 ++ [.advance 3 ⟨"2", none⟩]) = some s ∧
      (s.shared.redis.messages "t" "m").isSome ∧ ¬QueueIndexed s.shared "t" := by
  refine ⟨_, rfl, rfl, fun h => ?_⟩
  have hin := (h.fields "m").mp rfl
  cases hin

end MiniAgent.Queue
