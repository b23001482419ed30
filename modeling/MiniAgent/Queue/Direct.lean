import MiniAgent.Queue.StandIn

/-!
# Direct deliveries

An envelope that is dispatched directly is written to its stream once, with a receipt under its
delivery id. A claim reads the stored text back (`from_dict`), and an acknowledgement is accepted
when the fingerprint of what was read is the one of the receipt.

Between the dispatch and the acknowledgement the clients may do anything (`Command`), as long as the
receipt does not expire: claim the entry again and again, dispatch the envelope once more, or
acknowledge another claim of the entry.
-/

namespace MiniAgent.Queue

open Lib

/-- A command of some client: a step of a call, or the script of a direct dispatch. -/
inductive Command where
  | frame (f : Frame) (o : Choice)
  | direct (e : MessageEnvelope)

def Redis.command (r : Redis) : Command → Redis
  | .frame f o => (r.exec f o).1
  | .direct e =>
    (r.directDispatchScript e.stream (envelopeFingerprint e) { e with attempts := 0 }.json).2

def Redis.commands (r : Redis) (l : List Command) : Redis := l.foldl Redis.command r

/-- A delivery: its id, its stream, and the id of its entry there. -/
structure Delivery where
  id : String
  key : StreamKey
  entry : Nat

/-- The receipt of the delivery does not expire, the acknowledgements under its id are those of its
entry, and a released Turn has entries of other deliveries. -/
def Command.Spares (d : Delivery) : Command → Prop
  | .frame (.ack c) _ =>
    c.envelope.deliveryId = d.id ↔ c.envelope.stream = d.key ∧ c.streamId = d.entry
  | .frame (.release _ e _ _) _ => e.envelope.deliveryId ≠ d.id
  | .frame (.expire id) _ => id ≠ d.id
  | _ => True

/-- What a claim of the delivery returns, whoever makes it and however often it was made. -/
def Redis.Claims (r : Redis) (d : Delivery) (now : String) (claimed : ClaimedEnvelope) : Prop :=
  ∃ x ∈ r.streams d.key, x.streamId = d.entry ∧
    ∃ attempts, claimed = ⟨x.streamId, { x.envelope.fromDict now with attempts := attempts }⟩

/-! ## Streams -/

def Entry.slip (x : Entry) : Nat × MessageEnvelope := (x.streamId, x.envelope)

/-- The envelopes in the stream under the entry's id. -/
def Redis.copies (r : Redis) (d : Delivery) : List MessageEnvelope :=
  (((r.streams d.key).map Entry.slip).filter fun s => s.1 = d.entry).map Prod.snd

theorem slip_takeFirst {p : Entry → Bool} {consumer : String} :
    ∀ {entries entries' : List Entry} {x : Entry},
    Redis.takeFirst p consumer entries = some (x, entries') →
    x ∈ entries ∧ entries'.map Entry.slip = entries.map Entry.slip
  | [], _, _, h => nomatch h
  | e :: rest, entries', x, h => by
    rw [Redis.takeFirst] at h
    split at h
    · cases h
      exact ⟨List.mem_cons_self, rfl⟩
    · obtain ⟨⟨y, rest'⟩, hrest, heq⟩ := Option.map_eq_some_iff.mp h
      cases heq
      obtain ⟨hmem, hslip⟩ := slip_takeFirst hrest
      exact ⟨List.mem_cons_of_mem _ hmem, by rw [List.map_cons, List.map_cons, hslip]⟩

/-! ## A delivery that is out, or done -/

/-- The receipt has the fingerprint; the entry is in the stream with the stored envelope until it is
acknowledged, and not any more after that. -/
structure Held (d : Delivery) (fp : Fingerprint) (stored : MessageEnvelope) (r : Redis) : Prop where
  mailbox : ∀ t, d.key ≠ .turn t
  entry : d.entry ≤ r.counter
  fingerprint : (r.receipts d.id).fingerprint = some fp
  state : ((r.receipts d.id).status = some .dispatched ∧ r.copies d = [stored]) ∨
    ((r.receipts d.id).status = some .acknowledged ∧ r.copies d = [])

section Held

variable {d : Delivery} {fp : Fingerprint} {stored : MessageEnvelope} {r r' : Redis}

theorem Held.congr (h : Held d fp stored r) (hcounter : r.counter ≤ r'.counter)
    (hcopies : r'.copies d = r.copies d)
    (hfp : (r'.receipts d.id).fingerprint = (r.receipts d.id).fingerprint)
    (hstatus : (r'.receipts d.id).status = (r.receipts d.id).status) : Held d fp stored r' := by
  refine ⟨h.mailbox, le_trans h.entry hcounter, hfp.trans h.fingerprint, ?_⟩
  rw [hstatus, hcopies]
  exact h.state

/-- Messages may change. -/
theorem Held.apart (h : Held d fp stored r) (hstreams : r'.streams = r.streams)
    (hreceipts : r'.receipts = r.receipts) (hcounter : r'.counter = r.counter) :
    Held d fp stored r' :=
  h.congr (ge_of_eq hcounter) (by rw [Redis.copies, Redis.copies, hstreams])
    (by rw [hreceipts]) (by rw [hreceipts])

theorem copies_setStream_of_ne (r : Redis) {key : StreamKey} (hne : key ≠ d.key)
    (entries : List Entry) :
    (r.setStream key entries).copies d = r.copies d := by
  simp [Redis.copies, Redis.setStream, Function.update_of_ne hne.symm]

theorem copies_setStream_of_slip (r : Redis) {key : StreamKey} {entries : List Entry}
    (hslip : entries.map Entry.slip = (r.streams key).map Entry.slip) :
    (r.setStream key entries).copies d = r.copies d := by
  by_cases hkey : key = d.key
  · subst hkey
    simp [Redis.copies, Redis.setStream, hslip]
  · exact copies_setStream_of_ne r hkey entries

theorem copies_xadd (r : Redis) (key : StreamKey) (e : MessageEnvelope) (hd : d.entry ≤ r.counter) :
    (r.xadd key e).copies d = r.copies d := by
  by_cases hkey : d.key = key
  · have hne : r.counter + 1 ≠ d.entry := by omega
    subst hkey
    simp [Redis.copies, Redis.xadd, Entry.slip, hne]
  · simp [Redis.copies, Redis.xadd, Function.update_of_ne hkey]

theorem copies_xdel (r : Redis) : (r.xdel d.key d.entry).copies d = [] := by
  simp only [Redis.copies, Redis.xdel, Redis.setStream, Function.update_self, List.map_eq_nil_iff,
    List.filter_eq_nil_iff, List.mem_map]
  rintro _ ⟨x, hx, rfl⟩ heq
  exact of_decide_eq_true (List.mem_filter.mp hx).2 (of_decide_eq_true heq)

theorem copies_xdel_of_ne (r : Redis) {key : StreamKey} {streamId : Nat}
    (hne : ¬ (key = d.key ∧ streamId = d.entry)) :
    (r.xdel key streamId).copies d = r.copies d := by
  by_cases hkey : key = d.key
  · subst hkey
    have hstream : streamId ≠ d.entry := fun h => hne ⟨rfl, h⟩
    simp only [Redis.copies, Redis.xdel, Redis.setStream, Function.update_self,
      List.filter_map, List.filter_filter,
      List.map_map]
    congr 1
    refine List.filter_congr fun x _ => ?_
    simp only [Function.comp_apply, Entry.slip, Bool.and_eq_left_iff_imp, decide_eq_true_eq]
    rintro h rfl
    exact hstream (of_decide_eq_true h)
  · exact copies_setStream_of_ne r hkey _

theorem Held.claim (h : Held d fp stored r) {key : StreamKey} {consumer : String}
    {p : Entry → Bool} {x : Entry} {entries : List Entry}
    (htake : Redis.takeFirst p consumer (r.streams key) = some (x, entries)) :
    Held d fp stored (r.setStream key entries) :=
  h.congr le_rfl (copies_setStream_of_slip r (slip_takeFirst htake).2) rfl rfl

/-- A receipt that keeps its fingerprint and status, or another receipt. -/
theorem Held.setReceipt (h : Held d fp stored r) {id : String} {receipt : RedisReceipt}
    (hsame : id = d.id → receipt.fingerprint = (r.receipts id).fingerprint ∧
      receipt.status = (r.receipts id).status) :
    Held d fp stored (r.setReceipt id receipt) := by
  by_cases hid : d.id = id
  · obtain ⟨hfp, hstatus⟩ := hsame hid.symm
    subst hid
    exact h.congr le_rfl rfl (by simpa [Redis.setReceipt] using hfp)
      (by simpa [Redis.setReceipt] using hstatus)
  · exact h.congr le_rfl rfl (by simp [Redis.setReceipt, Function.update_of_ne hid])
      (by simp [Redis.setReceipt, Function.update_of_ne hid])

theorem Held.xadd (h : Held d fp stored r) (key : StreamKey) (e : MessageEnvelope) :
    Held d fp stored (r.xadd key e) :=
  h.congr (Nat.le_succ _) (copies_xadd r key e h.entry) rfl rfl

theorem streams_hsetAll (threadId : String) (writes : List (String × QueuedMessage)) (r : Redis) :
    (r.hsetAll threadId writes).streams = r.streams ∧ (r.hsetAll threadId writes).receipts =
      r.receipts ∧
      (r.hsetAll threadId writes).counter = r.counter := by
  induction writes generalizing r with
  | nil => exact ⟨rfl, rfl, rfl⟩
  | cons w writes ih => exact ih (r.hset threadId w.1 w.2)

theorem streams_deleteExec (r : Redis) (threadId id : String) :
    (r.deleteExec threadId id).streams = r.streams ∧
    (r.deleteExec threadId id).receipts = r.receipts ∧
    (r.deleteExec threadId id).counter = r.counter := by
  simp only [Redis.deleteExec, Redis.hdel, Redis.zrem, Redis.setOrder]
  split <;> exact ⟨rfl, rfl, rfl⟩

theorem streams_deleteAll (threadId : String) (ids : List String) (r : Redis) :
    (ids.foldl (fun r id => r.deleteExec threadId id) r).streams = r.streams ∧
      (ids.foldl (fun r id => r.deleteExec threadId id) r).receipts = r.receipts ∧
      (ids.foldl (fun r id => r.deleteExec threadId id) r).counter = r.counter := by
  induction ids generalizing r with
  | nil => exact ⟨rfl, rfl, rfl⟩
  | cons id ids ih =>
    obtain ⟨hstreams, hreceipts, hcounter⟩ := ih (r.deleteExec threadId id)
    obtain ⟨hstreams', hreceipts', hcounter'⟩ := streams_deleteExec r threadId id
    exact ⟨hstreams.trans hstreams', hreceipts.trans hreceipts', hcounter.trans hcounter'⟩

/-- A dispatch of queued messages cannot take the delivery id. -/
theorem Held.dispatchScript (h : Held d fp stored r) (c : DispatchCall) :
    Held d fp stored (r.dispatchScript c).2 := by
  by_cases hid : c.deliveryId = d.id
  · have hunchanged : (r.dispatchScript c).2 = r := by
      rw [Redis.dispatchScript, hid, h.fingerprint]
      dsimp only
      split
      · rfl
      · rw [if_pos]
        obtain ⟨hstatus, -⟩ | ⟨hstatus, -⟩ := h.state <;> rw [hstatus] <;> simp
    rw [hunchanged]
    exact h
  · obtain ⟨-, heq⟩ | ⟨heq, -⟩ := dispatchScript_cases r c
    · rw [heq]
      exact h
    · rw [heq]
      obtain ⟨hstreams, hreceipts, hcounter⟩ :=
        streams_hsetAll c.threadId (c.items.map fun item => (item.id, item.updated)) r
      exact ((h.apart hstreams hreceipts hcounter).xadd c.stream c.envelope).setReceipt fun heq =>
        absurd heq hid

theorem Held.direct (h : Held d fp stored r) (key : StreamKey) (fp' : Fingerprint)
    (e : MessageEnvelope) :
    Held d fp stored (r.directDispatchScript key fp' e).2 := by
  unfold Redis.directDispatchScript
  split
  · split <;> exact h
  · next hnone =>
    refine (h.xadd key e).setReceipt fun hid => ?_
    rw [hid, h.fingerprint] at hnone
    cases hnone

theorem copies_ackExec (r : Redis) (id : String) (key : StreamKey) (streamId : Nat)
    (threadId : String) (ids : List String) :
    (r.ackExec id key streamId threadId ids).copies d = (r.xdel key streamId).copies d := by
  obtain ⟨hstreams, -, -⟩ := streams_deleteAll threadId ids (r.xdel key streamId)
  rw [Redis.copies, Redis.copies, ← hstreams]
  rfl

theorem copies_eq_nil : r.copies d = [] ↔ ∀ x ∈ r.streams d.key, x.streamId ≠ d.entry := by
  simp [Redis.copies, Entry.slip, List.filter_eq_nil_iff]

/-- An acknowledgement of the entry, or of another delivery. -/
theorem Held.ackScript (h : Held d fp stored r) {id : String} {key : StreamKey} {streamId : Nat}
    (hspares : id = d.id ↔ key = d.key ∧ streamId = d.entry) (fp' : Fingerprint) (threadId : String)
    (ids : List String) : Held d fp stored (r.ackScript id fp' key streamId threadId ids).2 := by
  obtain ⟨-, heq⟩ | heq := ackScript_cases r id fp' key streamId threadId ids
  · rw [heq]
    exact h
  · rw [heq]
    obtain ⟨-, hreceipts, hcounter⟩ := streams_deleteAll threadId ids (r.xdel key streamId)
    have hcopies : (r.ackExec id key streamId threadId ids).copies d =
        (r.xdel key streamId).copies d :=
      copies_ackExec r id key streamId threadId ids
    have hreceipt : (r.ackExec id key streamId threadId ids).receipts d.id =
        if d.id = id then { r.receipts id with status := some .acknowledged, expires := true }
          else r.receipts d.id := by
      show Function.update _ _ _ _ = _
      rw [hreceipts]
      split
      · next hid => rw [hid, Function.update_self]; rfl
      · next hid => rw [Function.update_of_ne hid]; rfl
    by_cases hid : id = d.id
    · obtain ⟨rfl, rfl⟩ := hspares.mp hid
      subst hid
      refine ⟨h.mailbox, le_trans h.entry (ge_of_eq hcounter), ?_, .inr ⟨?_, ?_⟩⟩
      · rw [hreceipt, if_pos rfl]
        exact h.fingerprint
      · rw [hreceipt, if_pos rfl]
      · rw [hcopies, copies_xdel]
    · have hne : ¬ d.id = id := fun heq => hid heq.symm
      refine h.congr (ge_of_eq hcounter) ?_ ?_ ?_
      · rw [hcopies, copies_xdel_of_ne r fun hboth => hid (hspares.mpr hboth)]
      · rw [hreceipt, if_neg hne]
      · rw [hreceipt, if_neg hne]

theorem Held.release (h : Held d fp stored r) {e : Entry} (hspares : e.envelope.deliveryId ≠ d.id)
    (turnId : String) (writes : List (String × QueuedMessage)) :
    Held d fp stored (r.releaseExec turnId e writes) := by
  obtain ⟨hstreams, hreceipts, hcounter⟩ := streams_hsetAll e.envelope.threadId writes r
  have hheld := h.apart hstreams hreceipts hcounter
  have hdel : Held d fp stored ((r.hsetAll e.envelope.threadId writes).xdel
      (.turn turnId) e.streamId) :=
    hheld.congr le_rfl (copies_xdel_of_ne _ fun hboth => h.mailbox turnId hboth.1.symm) rfl rfl
  exact hdel.setReceipt fun hid => absurd hid hspares

/-- **Step lemma.** -/
theorem Held.command (h : Held d fp stored r) {c : Command} (hspares : c.Spares d) :
    Held d fp stored (r.command c) := by
  cases c with
  | direct e => exact h.direct _ _ _
  | frame f o =>
    cases f with
    | createExec item version next =>
      simp only [Redis.command, Redis.exec]
      split
      · exact h.apart rfl rfl rfl
      · exact h
    | updateExec t id content references version updated =>
      simp only [Redis.command, Redis.exec]
      split
      · exact h.apart rfl rfl rfl
      · exact h
    | deleteExec t id version =>
      simp only [Redis.command, Redis.exec]
      split
      · obtain ⟨hstreams, hreceipts, hcounter⟩ := streams_deleteExec r t id
        exact h.apart hstreams hreceipts hcounter
      · exact h
    | dispatchScript _ _ call => exact h.dispatchScript call
    | claim key consumer =>
      simp only [Redis.command, Redis.exec]
      split
      · next heq =>
        obtain ⟨⟨x, entries⟩, htake, heq⟩ := Option.map_eq_some_iff.mp heq
        cases heq
        exact h.claim htake
      · exact h
    | claimNext key consumer =>
      simp only [Redis.command, Redis.exec]
      split
      · next heq =>
        obtain ⟨⟨x, entries⟩, htake, heq⟩ := Option.map_eq_some_iff.mp heq
        cases heq
        exact h.claim htake
      · exact h
    | claimCount e => exact h.setReceipt fun _ => ⟨rfl, rfl⟩
    | ack c => exact h.ackScript hspares _ _ _
    | release turnId e todo writes =>
      cases todo with
      | nil => exact h.release hspares turnId writes
      | cons id todo => exact h
    | releaseDelete turnId =>
      exact h.congr le_rfl (copies_setStream_of_ne r (fun heq => h.mailbox turnId heq.symm)
        _) rfl rfl
    | expire id =>
      simp only [Redis.command, Redis.exec]
      split
      · exact h.setReceipt fun hid => absurd hid hspares
      · exact h
    | createRead item version => simp only [Redis.command, Redis.exec]; split <;> exact h
    | updateRead t id content references version =>
      simp only [Redis.command, Redis.exec]; split <;> exact h
    | deleteRead t id version => simp only [Redis.command, Redis.exec]; split <;> exact h
    | dispatch d => simp only [Redis.command, Redis.exec]; split <;> exact h
    | dispatchRead d stored ids => simp only [Redis.command, Redis.exec]; split <;> exact h
    | claimPending key consumer => simp only [Redis.command, Redis.exec]; split <;> exact h
    | _ => exact h

theorem Held.commands (h : Held d fp stored r) {l : List Command} (hspares : ∀ c ∈ l, c.Spares d) :
    Held d fp stored (r.commands l) := by
  induction l generalizing r with
  | nil => exact h
  | cons c l ih =>
    obtain ⟨hc, hl⟩ := List.forall_mem_cons.mp hspares
    exact ih (h.command hc) hl

end Held

/-! ## Stream ids -/

/-- No entry has an id that is still to come. -/
def Numbered (r : Redis) : Prop := ∀ key, ∀ s ∈ (r.streams key).map Entry.slip, s.1 ≤ r.counter

section Numbered

variable {r r' : Redis}

theorem Numbered.apart (h : Numbered r) (hstreams : r'.streams = r.streams)
    (hcounter : r'.counter = r.counter) :
    Numbered r' := by
  intro key s hs
  rw [hstreams] at hs
  rw [hcounter]
  exact h key s hs

theorem Numbered.setStream (h : Numbered r) {key : StreamKey} {entries : List Entry}
    (hsub : entries.map Entry.slip ⊆ (r.streams key).map Entry.slip) :
    Numbered (r.setStream key entries) := by
  intro key' s hs
  by_cases hkey : key' = key
  · subst hkey
    simp only [Redis.setStream, Function.update_self] at hs
    exact h key' s (hsub hs)
  · simp only [Redis.setStream, Function.update_of_ne hkey] at hs
    exact h key' s hs

theorem Numbered.xdel (h : Numbered r) (key : StreamKey) (streamId : Nat) :
    Numbered (r.xdel key streamId) :=
  h.setStream (List.map_subset _ (List.filter_subset_self _))

theorem Numbered.xadd (h : Numbered r) (key : StreamKey) (e : MessageEnvelope) :
    Numbered (r.xadd key e) := by
  intro key' s hs
  show s.1 ≤ r.counter + 1
  by_cases hkey : key' = key
  · subst hkey
    simp only [Redis.xadd, Function.update_self, List.map_append, List.mem_append] at hs
    rcases hs with hs | hs
    · exact le_trans (h key' s hs) (Nat.le_succ _)
    · obtain rfl := List.mem_singleton.mp hs
      exact le_rfl
  · simp only [Redis.xadd, Function.update_of_ne hkey] at hs
    exact le_trans (h key' s hs) (Nat.le_succ _)

theorem Numbered.claim (h : Numbered r) {key : StreamKey} {consumer : String}
    {p : Entry → Bool} {x : Entry}
    {entries : List Entry} (htake : Redis.takeFirst p consumer (r.streams key) =
      some (x, entries)) :
    Numbered (r.setStream key entries) :=
  h.setStream (by rw [(slip_takeFirst htake).2]; exact List.Subset.refl _)

theorem Numbered.command (h : Numbered r) (c : Command) : Numbered (r.command c) := by
  cases c with
  | direct e =>
    simp only [Redis.command, Redis.directDispatchScript]
    split
    · split <;> exact h
    · exact h.xadd _ _
  | frame f o =>
    cases f with
    | createExec item version next =>
      simp only [Redis.command, Redis.exec]
      split <;> exact h
    | updateExec t id content references version updated =>
      simp only [Redis.command, Redis.exec]
      split <;> exact h
    | deleteExec t id version =>
      simp only [Redis.command, Redis.exec]
      split
      · obtain ⟨hstreams, -, hcounter⟩ := streams_deleteExec r t id
        exact h.apart hstreams hcounter
      · exact h
    | dispatchScript _ _ call =>
      obtain ⟨-, heq⟩ | ⟨heq, -⟩ := dispatchScript_cases r call
      · simp only [Redis.command, Redis.exec, heq]
        exact h
      · simp only [Redis.command, Redis.exec, heq]
        obtain ⟨hstreams, -, hcounter⟩ :=
          streams_hsetAll call.threadId (call.items.map fun item => (item.id, item.updated)) r
        exact (h.apart hstreams hcounter).xadd call.stream call.envelope
    | claim key consumer =>
      simp only [Redis.command, Redis.exec]
      split
      · next heq =>
        obtain ⟨⟨x, entries⟩, htake, heq⟩ := Option.map_eq_some_iff.mp heq
        cases heq
        exact h.claim htake
      · exact h
    | claimNext key consumer =>
      simp only [Redis.command, Redis.exec]
      split
      · next heq =>
        obtain ⟨⟨x, entries⟩, htake, heq⟩ := Option.map_eq_some_iff.mp heq
        cases heq
        exact h.claim htake
      · exact h
    | ack c =>
      obtain ⟨-, heq⟩ | heq := ackScript_cases r c.envelope.deliveryId c.envelope.ackFingerprint
        c.envelope.stream
        c.streamId c.envelope.threadId c.envelope.ackIds
      · simp only [Redis.command, Redis.exec, heq]
        exact h
      · simp only [Redis.command, Redis.exec, heq]
        obtain ⟨hstreams, -, hcounter⟩ := streams_deleteAll c.envelope.threadId c.envelope.ackIds
          (r.xdel c.envelope.stream c.streamId)
        exact (h.xdel c.envelope.stream c.streamId).apart hstreams hcounter
    | release turnId e todo writes =>
      cases todo with
      | nil =>
        obtain ⟨hstreams, -, hcounter⟩ := streams_hsetAll e.envelope.threadId writes r
        exact (h.apart hstreams hcounter).xdel (.turn turnId) e.streamId
      | cons id todo => exact h
    | releaseDelete turnId => exact h.setStream (List.nil_subset _)
    | expire id => simp only [Redis.command, Redis.exec]; split <;> exact h
    | createRead item version => simp only [Redis.command, Redis.exec]; split <;> exact h
    | updateRead t id content references version =>
      simp only [Redis.command, Redis.exec]; split <;> exact h
    | deleteRead t id version => simp only [Redis.command, Redis.exec]; split <;> exact h
    | dispatch d => simp only [Redis.command, Redis.exec]; split <;> exact h
    | dispatchRead d stored ids => simp only [Redis.command, Redis.exec]; split <;> exact h
    | claimPending key consumer => simp only [Redis.command, Redis.exec]; split <;> exact h
    | _ => exact h

theorem numbered_commands (l : List Command) : Numbered (Redis.new.commands l) := by
  have hrun : ∀ (l : List Command) {r : Redis}, Numbered r → Numbered (r.commands l) := by
    intro l
    induction l with
    | nil => exact fun h => h
    | cons c l ih => exact fun h => ih (h.command c)
  exact hrun l nofun

end Numbered

/-! ## What is read back -/

theorem keys_insertKey {k : String} {v : Json} {l : Fields} (hk : k ∉ l.map Prod.fst) :
    ((Json.insertKey k v l).map Prod.fst).Perm (k :: l.map Prod.fst) := by
  induction l with
  | nil => exact .refl _
  | cons p l ih =>
    obtain ⟨k', w⟩ := p
    obtain ⟨hne, hk⟩ := not_or.mp (List.mem_cons.not.mp hk)
    rw [Json.insertKey]
    split
    · exact .refl _
    · exact ((ih hk).cons k').trans (.swap _ _ _)

theorem keys_sortKeysFields : ∀ {l : Fields}, (l.map Prod.fst).Nodup →
    ((Json.sortKeysFields l).map Prod.fst).Perm (l.map Prod.fst)
  | [], _ => .refl _
  | (k, v) :: l, h => by
    obtain ⟨hk, hl⟩ := List.nodup_cons.mp h
    have ih := keys_sortKeysFields hl
    rw [Json.sortKeysFields]
    exact (keys_insertKey fun hmem => hk (ih.mem_iff.mp hmem)).trans (ih.cons k)

/-- A reference of an agent is one with its members in order too. -/
theorem agentReferenceOk_sortKeys {f : Fields} (h : agentReferenceOk f = true) :
    agentReferenceOk (Json.sortKeysFields f) = true := by
  have hnodup : (f.map Prod.fst).Nodup := by
    have hperm := List.perm_insertionSort (· ≤ ·) (f.map Prod.fst)
    rw [← hperm.nodup_iff]
    simp only [agentReferenceOk, Bool.or_eq_true, Bool.and_eq_true, beq_iff_eq] at h
    obtain ⟨hkeys, -⟩ | ⟨hkeys, -⟩ := h <;> rw [hkeys] <;> decide
  have hsort : ((Json.sortKeysFields f).map Prod.fst).insertionSort (· ≤ ·) =
      (f.map Prod.fst).insertionSort (· ≤ ·) := by
    have hperm := (List.perm_insertionSort (· ≤ ·) ((Json.sortKeysFields f).map Prod.fst)).trans
      ((keys_sortKeysFields hnodup).trans (List.perm_insertionSort (· ≤ ·) (f.map Prod.fst)).symm)
    exact hperm.eq_of_pairwise' (List.pairwise_insertionSort _ _) (List.pairwise_insertionSort _ _)
  have hpath : pathOk (Json.sortKeysFields f) = pathOk f := by
    unfold pathOk
    rw [Json.get_sortKeysFields]
    cases f.get "path" with
    | none => rfl
    | some v => cases v <;> rfl
  unfold agentReferenceOk at h ⊢
  rw [hsort, hpath, MessageEnvelope.userReferenceOk_sortKeys]
  exact h

theorem MessageEnvelope.check_eq_none {e : MessageEnvelope} : e.check = none ↔
    ¬ ([e.deliveryId, e.sourceThreadId, e.targetId, e.sessionId, e.threadId].any (· = "")) ∧
      ¬ (e.sourceMessageIds = [] ∨ ¬e.sourceMessageIds.Nodup) ∧
      ¬ (isBlank e.content ∧ e.references = []) ∧
      ∀ f ∈ e.references, (if e.senderKind = .agent then agentReferenceOk f
        else userReferenceOk f) = true := by
  unfold MessageEnvelope.check
  split
  · simp_all
  · split
    · simp_all
    · split
      · simp_all
      · split <;> simp_all

/-- With its members in order, and another count of attempts, an envelope stays valid. -/
theorem MessageEnvelope.check_json {e : MessageEnvelope} (h : e.check = none) (attempts : Nat) :
    { e.json with attempts := attempts }.check = none := by
  have hcontent : { e.json with attempts := attempts }.content = e.content := e.content_json
  have hreferences : { e.json with attempts := attempts }.references =
    e.references.map Json.sortKeysFields :=
    e.references_json
  obtain ⟨hids, hsources, hblank, hok⟩ := MessageEnvelope.check_eq_none.mp h
  refine MessageEnvelope.check_eq_none.mpr ⟨hids, hsources, ?_, ?_⟩
  · rw [hcontent, hreferences, List.map_eq_nil_iff]
    exact hblank
  · intro f hf
    rw [hreferences] at hf
    obtain ⟨f, hmem, rfl⟩ := List.mem_map.mp hf
    have := hok f hmem
    show (if e.senderKind = .agent then _ else _) = true
    split
    · next hagent =>
      rw [if_pos hagent] at this
      exact agentReferenceOk_sortKeys this
    · next hagent =>
      rw [if_neg hagent] at this
      rw [MessageEnvelope.userReferenceOk_sortKeys]
      exact this

/-! ## Acknowledgements -/

/-- The three direct dispatches. -/
def directDispatches :
    List (Redis → MessageEnvelope → Except QueueError (MessageEnvelope × Redis)) :=
  [RedisMessageQueue.dispatchTurnStart, RedisMessageQueue.dispatchAgent,
    RedisMessageQueue.dispatchReport]

/-- However the queue came about in which the envelope is dispatched for the first time, and
whatever the clients do while the receipt is there: a claim of the entry returns the envelope, up to
its attempts and the order of the members of its payload, and an acknowledgement of the claim
returns and leaves no entry. -/
def Deliverable (e : MessageEnvelope) : Prop :=
  ∀ before r dispatch, dispatch ∈ directDispatches →
    ((Redis.new.commands before).receipts e.deliveryId).fingerprint = none →
    dispatch (Redis.new.commands before) e = .ok (e, r) →
    ∀ commands, (∀ c ∈ commands,
      c.Spares ⟨e.deliveryId, e.stream, (Redis.new.commands before).counter + 1⟩) →
    ∀ now claimed, now ≠ "" →
      (r.commands commands).Claims ⟨e.deliveryId, e.stream, (Redis.new.commands before).counter + 1⟩
        now claimed →
      claimed.envelope.check = none ∧ Same claimed.envelope e.json ∧
      ∀ later, (∀ c ∈ later,
        c.Spares ⟨e.deliveryId, e.stream, (Redis.new.commands before).counter + 1⟩) →
        ∃ r', RedisMessageQueue.ack ((r.commands commands).commands later) claimed = .ok r' ∧
          ∀ x ∈ r'.streams e.stream, x.streamId ≠ claimed.streamId

/-- What reading an envelope back leaves as it was. -/
theorem MessageEnvelope.fromDict_eq {e : MessageEnvelope} {now : String}
    (hcreated : e.createdAt ≠ "") (hcorr : e.correlationId ≠ some "") : e.fromDict now = e := by
  simp only [MessageEnvelope.fromDict, if_neg hcreated, if_neg hcorr]

section Dispatched

variable {e : MessageEnvelope} {r r' : Redis}

/-- A first dispatch writes the entry and the receipt. -/
theorem dispatchDirect_new
    {dispatch : Redis → MessageEnvelope → Except QueueError (MessageEnvelope × Redis)}
    (hdispatch : dispatch ∈ directDispatches)
    (hnew : (r.receipts e.deliveryId).fingerprint = none) (h : dispatch r e = .ok (e, r')) :
    (∀ t, e.stream ≠ .turn t) ∧
      r' = (r.xadd e.stream { e with attempts := 0 }.json).setReceipt e.deliveryId
        ⟨some (envelopeFingerprint e), some .dispatched, some 0, some { e with attempts := 0 }.json,
          false⟩ := by
  have hscript : ∀ (sender : SenderKind) (target : TargetKind) (complaint :
      String), target ≠ .turn →
      RedisMessageQueue.dispatchDirect r sender target complaint e = .ok (e, r') →
      (∀ t, e.stream ≠ .turn t) ∧
      r' = (r.xadd e.stream { e with attempts := 0 }.json).setReceipt e.deliveryId
        ⟨some (envelopeFingerprint e), some .dispatched, some 0, some { e with attempts := 0 }.json,
          false⟩ := by
    intro sender target complaint hturn h
    unfold RedisMessageQueue.dispatchDirect at h
    split at h
    · cases h
    · next hkinds =>
      have htarget : e.targetKind = target := not_not.mp fun hne => hkinds (.inr hne)
      refine ⟨fun t hstream => ?_, ?_⟩
      · unfold MessageEnvelope.stream at hstream
        split at hstream
        · next hkind => exact hturn (htarget.symm.trans hkind)
        all_goals cases hstream
      · have hnew' : (r.receipts { e with attempts := 0 }.json.deliveryId).fingerprint =
          none := hnew
        simp only [Redis.directDispatchScript, hnew', ScriptReply.error] at h
        cases h
        rfl
  simp only [directDispatches, List.mem_cons, List.not_mem_nil, or_false] at hdispatch
  obtain rfl | rfl | rfl := hdispatch
  · exact hscript _ _ _ (by decide) h
  · exact hscript _ _ _ (by decide) h
  · exact hscript _ _ _ (by decide) h

theorem held_dispatched
    {dispatch : Redis → MessageEnvelope → Except QueueError (MessageEnvelope × Redis)}
    (hdispatch : dispatch ∈ directDispatches) (hnumbered : Numbered r)
    (hnew : (r.receipts e.deliveryId).fingerprint = none) (h : dispatch r e = .ok (e, r')) :
    Held ⟨e.deliveryId, e.stream, r.counter + 1⟩ (envelopeFingerprint e)
    { e with attempts := 0 }.json r' := by
  obtain ⟨hmailbox, rfl⟩ := dispatchDirect_new hdispatch hnew h
  refine ⟨hmailbox, le_rfl, by simp [Redis.setReceipt], .inl ⟨by simp [Redis.setReceipt], ?_⟩⟩
  have hold : ((r.streams e.stream).map Entry.slip).filter (fun s => s.1 = r.counter + 1) = [] := by
    refine List.filter_eq_nil_iff.mpr fun s hs heq => ?_
    have := hnumbered e.stream s hs
    rw [of_decide_eq_true heq] at this
    omega
  simp only [Redis.copies, Redis.setReceipt, Redis.xadd, Function.update_self,
    List.map_append, List.filter_append, hold,
    List.nil_append, List.map_cons, List.map_nil, Entry.slip]
  simp

end Dispatched

/-- A delivery that is acknowledged under the fingerprint of its receipt leaves its stream. -/
theorem Held.ack {d : Delivery} {fp : Fingerprint} {stored : MessageEnvelope} {r : Redis}
    (h : Held d fp stored r) {claimed : ClaimedEnvelope}
    (hid : claimed.envelope.deliveryId = d.id) (hkey : claimed.envelope.stream = d.key)
    (hentry : claimed.streamId = d.entry) (hfp : claimed.envelope.ackFingerprint = fp) :
    ∃ r', RedisMessageQueue.ack r claimed = .ok r' ∧ ∀ x ∈ r'.streams d.key, x.streamId ≠
      claimed.streamId := by
  simp only [RedisMessageQueue.ack, Redis.ackScript, hid, h.fingerprint,
    hfp, ne_eq, not_true_eq_false, if_false]
  rw [hentry]
  obtain ⟨hstatus, -⟩ | ⟨hstatus, hcopies⟩ := h.state
  · rw [hstatus, if_neg (by simp)]
    refine ⟨_, rfl, copies_eq_nil.mp ?_⟩
    rw [copies_ackExec, hkey, copies_xdel]
  · rw [hstatus, if_pos rfl]
    exact ⟨_, rfl, copies_eq_nil.mp hcopies⟩

theorem Held.claims {d : Delivery} {fp : Fingerprint} {stored : MessageEnvelope} {r : Redis}
    (h : Held d fp stored r) {now : String} {claimed : ClaimedEnvelope}
    (hclaim : r.Claims d now claimed) :
    ∃ attempts, claimed = ⟨d.entry, { stored.fromDict now with attempts := attempts }⟩ := by
  obtain ⟨x, hx, hentry, attempts, rfl⟩ := hclaim
  have hcopy : x.envelope ∈ r.copies d :=
    List.mem_map.mpr ⟨x.slip, List.mem_filter.mpr ⟨List.mem_map_of_mem hx,
      decide_eq_true hentry⟩, rfl⟩
  obtain ⟨-, hcopies⟩ | ⟨-, hcopies⟩ := h.state
  · rw [hcopies, List.mem_singleton] at hcopy
    exact ⟨attempts, by rw [hentry, hcopy]⟩
  · rw [hcopies] at hcopy
    cases hcopy

/-- The envelope may be dispatched by one of the direct dispatches. -/
def MessageEnvelope.Direct (e : MessageEnvelope) : Prop :=
  (e.senderKind = .user ∧ e.targetKind = .turnStart) ∨
    (e.senderKind = .agent ∧ e.targetKind = .thread) ∨
    (e.senderKind = .agent ∧ e.targetKind = .report)

theorem MessageEnvelope.Direct.consumes {e : MessageEnvelope} (h : e.Direct) :
    MemoryMessageQueue.consumes e = true ↔ e.targetKind = .turnStart ∧ e.queued = true := by
  obtain ⟨-, hkind⟩ | ⟨-, hkind⟩ | ⟨-, hkind⟩ := h <;> simp [MemoryMessageQueue.consumes, hkind]

/-- An empty queue accepts it. -/
theorem MessageEnvelope.Direct.accepted {e : MessageEnvelope} (h : e.Direct) :
    ∃ dispatch ∈ directDispatches, ∃ r, dispatch Redis.new e = .ok (e, r) := by
  obtain ⟨hsender, hkind⟩ | ⟨hsender, hkind⟩ | ⟨hsender, hkind⟩ := h
  · refine ⟨_, List.mem_cons_self, ?_⟩
    simp [RedisMessageQueue.dispatchTurnStart, RedisMessageQueue.dispatchDirect, hsender, hkind,
      Redis.directDispatchScript, Redis.new, RedisReceipt.absent, ScriptReply.error]
  · refine ⟨_, List.mem_cons_of_mem _ List.mem_cons_self, ?_⟩
    simp [RedisMessageQueue.dispatchAgent, RedisMessageQueue.dispatchDirect, hsender, hkind,
      Redis.directDispatchScript, Redis.new, RedisReceipt.absent, ScriptReply.error]
  · refine ⟨_, List.mem_cons_of_mem _ (List.mem_cons_of_mem _ List.mem_cons_self), ?_⟩
    simp [RedisMessageQueue.dispatchReport, RedisMessageQueue.dispatchDirect, hsender, hkind,
      Redis.directDispatchScript, Redis.new, RedisReceipt.absent, ScriptReply.error]

/-- What a claim after a dispatch to an empty queue returns. -/
def MessageEnvelope.readBack (e : MessageEnvelope) (now : String) : ClaimedEnvelope :=
  ⟨1, ({ e with attempts := 0 }.json).fromDict now⟩

theorem MessageEnvelope.Direct.firstClaim {e : MessageEnvelope} (h : e.Direct)
    (hdeliver : Deliverable e) {now : String} (hnow : now ≠ "") :
    Same (e.readBack now).envelope e.json ∧
    ∃ r r', Held ⟨e.deliveryId, e.stream, 1⟩
      (envelopeFingerprint e) { e with attempts := 0 }.json r ∧
      RedisMessageQueue.ack r (e.readBack now) = .ok r' := by
  obtain ⟨dispatch, hdispatch, r, haccepted⟩ := h.accepted
  have hnew : (Redis.new.receipts e.deliveryId).fingerprint = none := rfl
  have hheld := held_dispatched hdispatch (numbered_commands []) hnew haccepted
  obtain ⟨-, hr⟩ := dispatchDirect_new hdispatch hnew haccepted
  have hclaim : r.Claims ⟨e.deliveryId, e.stream, 1⟩ now (e.readBack now) := by
    refine ⟨⟨1, { e with attempts := 0 }.json, none⟩, ?_, rfl, 0, rfl⟩
    rw [hr]
    simp [Redis.setReceipt, Redis.xadd, Redis.new]
  obtain ⟨-, hsame, hack⟩ := hdeliver [] r dispatch hdispatch hnew haccepted []
    (List.forall_mem_nil _) now _ hnow hclaim
  obtain ⟨r', hr', -⟩ := hack [] (List.forall_mem_nil _)
  exact ⟨hsame, r, r', hheld, hr'⟩

/-- **Direct deliveries.** Every delivery of an envelope that may be dispatched directly can be
acknowledged exactly when it has a time, no empty correlation id, and is no start of a Turn from
queued messages. -/
theorem direct_deliverable {e : MessageEnvelope} (hvalid : e.check = none)
    (hdirect : e.Direct) :
    Deliverable e ↔ e.createdAt ≠ "" ∧ e.correlationId ≠ some "" ∧
    ¬ (e.targetKind = .turnStart ∧ e.queued = true) := by
  constructor
  · intro h
    have hnow : "now" ≠ "" := by decide
    obtain ⟨hsame, r, r', hheld, hack⟩ := hdirect.firstClaim h hnow
    refine ⟨fun hcreated => ?_, fun hcorr => ?_, fun hqueued => ?_⟩
    · have : (if e.createdAt = "" then "now" else e.createdAt) = e.createdAt :=
        congrArg MessageEnvelope.createdAt hsame
      rw [hcreated] at this
      exact absurd this (by decide)
    · have : (if e.correlationId = some "" then none else e.correlationId) = e.correlationId :=
        congrArg MessageEnvelope.correlationId hsame
      rw [hcorr] at this
      exact absurd this (by decide)
    · -- the acknowledgement takes the other script, whose fingerprint is of another kind
      have hconsumes : MemoryMessageQueue.consumes (e.readBack "now").envelope = true :=
        (MessageEnvelope.base_consumes (MessageEnvelope.base_json { e with attempts := 0 })).trans
          (hdirect.consumes.mpr hqueued)
      have hfp : (r.receipts (e.readBack "now").envelope.deliveryId).fingerprint =
          some (envelopeFingerprint e) :=
        hheld.fingerprint
      have hne : envelopeFingerprint e ≠ (e.readBack "now").envelope.ackFingerprint := by
        rw [MessageEnvelope.ackFingerprint, if_pos hconsumes]
        nofun
      simp only [RedisMessageQueue.ack, Redis.ackScript, hfp, ne_eq, hne,
        not_false_eq_true, if_true] at hack
      cases hack
  · rintro ⟨hcreated, hcorr, hqueued⟩ before r dispatch hdispatch hnew haccepted
      commands hspares now claimed - hclaim
    have hheld := (held_dispatched hdispatch (numbered_commands before) hnew
      haccepted).commands hspares
    obtain ⟨attempts, rfl⟩ := hheld.claims hclaim
    have hkeeps : e.Keeps (envelopeFingerprint e) := by
      refine ⟨?_, .inr ⟨hcreated, hcorr⟩⟩
      rw [MessageEnvelope.ackFingerprint, if_neg fun hc => hqueued (hdirect.consumes.mp hc)]
    have hread : ({ e with attempts := 0 }.json).fromDict now = { e with attempts := 0 }.json :=
      MessageEnvelope.fromDict_eq hcreated hcorr
    rw [hread]
    refine ⟨MessageEnvelope.check_json hvalid attempts, rfl, fun later hlater => ?_⟩
    refine (hheld.commands hlater).ack rfl rfl rfl ?_
    exact (hkeeps.json.attempts attempts).1

/-- A report to thread `t`. -/
def reportWith (correlationId : Option String) : MessageEnvelope :=
  { deliveryId := "d", senderKind := .agent, sourceThreadId := "a", targetKind := .report,
    targetId := "t"
    sessionId := "s", threadId := "t", payload := [("content", .str "done")],
    sourceMessageIds := ["d"]
    createdAt := "2026-01-01T00:00:00+00:00", correlationId := correlationId, attempts := 0 }

theorem direct_deliverable_report : Deliverable (reportWith (some "turn")) :=
  (direct_deliverable (by decide) (.inr (.inr ⟨rfl, rfl⟩))).mpr ⟨by decide, by decide, by decide⟩

/-- A report whose correlation id is empty is claimed without one, and its acknowledgement is
refused. -/
theorem empty_correlation_refused : ∃ e r r' claimed, MessageEnvelope.check e = none ∧
    RedisMessageQueue.dispatchReport Redis.new e = .ok (e, r) ∧
    RedisMessageQueue.claimStream r "now" e.stream "c" false = (some claimed, r') ∧
    claimed.envelope.correlationId ≠ e.correlationId ∧
    RedisMessageQueue.ack r' claimed = .error (.deliveryConflict "delivery_id_conflict") :=
  ⟨reportWith (some ""), _, _, _, by decide, rfl, rfl, by decide, rfl⟩

end MiniAgent.Queue
