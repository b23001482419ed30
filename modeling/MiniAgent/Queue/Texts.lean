import MiniAgent.Queue.Index
import Mathlib.Data.List.ReduceOption

/-!
# What a dispatch carries

An envelope that is put into a stream should say what the messages it marks say at that moment, in
queue order. A new envelope does: the script compares every message with the text the client read.
The envelope of a returned delivery is sent as it was built, whatever has become of its messages
since, and a release may write an old text over a later edit.

`Built` ties an envelope to the messages it was built from; `textsInTime` is the condition under
which these are the messages the script finds.
-/

namespace MiniAgent.Queue

open Lib

/-! ## Envelopes -/

theorem MessageEnvelope.text_of_payload {e e' : MessageEnvelope} (h : e.payload = e'.payload) :
    e.text = e'.text := by
  unfold MessageEnvelope.text MessageEnvelope.content MessageEnvelope.references
  rw [h]

theorem MessageEnvelope.text_of_core {e e' : MessageEnvelope} (h : e.core = e'.core) :
    e.text = e'.text :=
  text_of_payload (congrArg MessageEnvelope.payload h : e.core.payload = e'.core.payload)

/-- The envelope is as its JSON text gives it back, and says what its messages said. -/
def Ledger.Built (l : Ledger) (e : MessageEnvelope) : Prop :=
  e.json = e ∧ e.text = merge (l.basis e.core)

theorem Ledger.Built.fromDict {l : Ledger} {e : MessageEnvelope} (h : l.Built e) (now : String) :
    l.Built (e.fromDict now) := by
  obtain ⟨hj, ht⟩ := h
  have hp : Json.sortKeysFields e.payload = e.payload := congrArg MessageEnvelope.payload hj
  refine ⟨?_, ?_⟩
  · simp only [MessageEnvelope.json, MessageEnvelope.fromDict, hp]
  · exact (MessageEnvelope.text_of_payload rfl).trans ht

/-- The command of a Turn start says nothing about the text. -/
def Dispatch.Plain (d : Dispatch) : Prop :=
  ∀ c ∈ d.commandPayload, Fields.get c "content" = none ∧ Fields.get c "references" = none

instance (d : Dispatch) : Decidable d.Plain := by
  unfold Dispatch.Plain
  infer_instance

/-- A new envelope says what the selected messages say. -/
theorem Dispatch.envelope_text {d : Dispatch} (hd : d.Plain) (selected : List QueuedMessage)
    (now : String) :
    (d.envelope selected now).text = merge selected := by
  have hget : (d.envelope selected now).payload.get "content" = some (.str (merge selected).1) ∧
      (d.envelope selected now).payload.get "references" =
        some (.arr ((merge selected).2.map .obj)) := by
    cases hc : d.commandPayload with
    | none => simp [Dispatch.envelope, hc, Fields.get]
    | some c =>
      obtain ⟨h1, h2⟩ := hd c hc
      simp [Dispatch.envelope, hc, h1, h2, Fields.get]
  refine Prod.ext ?_ ?_
  · simp only [MessageEnvelope.text, MessageEnvelope.content, hget.1, textOf]
  · simp only [MessageEnvelope.text, MessageEnvelope.references, hget.2, List.filterMap_map]
    exact List.filterMap_some

theorem mem_mergeReferences {seen : List (String × String)} {references : List Fields} {f : Fields}
    (h : f ∈ mergeReferences seen references) : f ∈ references := by
  induction references generalizing seen with
  | nil => exact h
  | cons g references ih =>
    rw [mergeReferences] at h
    split at h
    · exact List.mem_cons_of_mem _ (ih h)
    · rcases List.mem_cons.mp h with rfl | h
      · exact List.mem_cons_self
      · exact List.mem_cons_of_mem _ (ih h)

/-- What is merged from JSON texts is as these give it back. -/
theorem merge_canonical {messages : List QueuedMessage} (h : ∀ m ∈ messages, m.json = m) :
    (merge messages).2.map Json.sortKeysFields = (merge messages).2 := by
  have hid : ∀ f ∈ (merge messages).2, Json.sortKeysFields f = f := by
    intro f hf
    obtain ⟨m, hm, hfm⟩ := List.mem_flatMap.mp (mem_mergeReferences hf)
    have hrefs : m.references.map Json.sortKeysFields = m.references :=
      congrArg QueuedMessage.references (h m hm)
    exact List.map_inj_left.mp (hrefs.trans (List.map_id _).symm) f hfm
  calc (merge messages).2.map Json.sortKeysFields = (merge messages).2.map id :=
    List.map_congr_left hid
    _ = (merge messages).2 := List.map_id _

/-! ## Reading and preparing -/

theorem receiptRead_stored {d : Dispatch} {now : String} {receipt : RedisReceipt}
    {stored : Option MessageEnvelope} (h : d.receiptRead now receipt = .ok (.inr stored)) :
    ∀ e ∈ stored, ∃ raw, receipt.envelope = some raw ∧ e = raw.fromDict now := by
  rw [Dispatch.receiptRead] at h
  split at h
  · cases h
  split at h
  · split at h
    · cases h
    split at h
    · next raw hraw =>
      split at h
      · cases h
      · cases h
        intro e he
        exact ⟨raw, hraw, (Option.some.inj he).symm⟩
    · cases h
      nofun
  · cases h
    nofun

/-- **What a client prepares** from the texts it read. -/
theorem prepare_ok {d : Dispatch} {now : String} {stored : Option MessageEnvelope}
    {ids : List String} {raw : List (Option QueuedMessage)} {e : MessageEnvelope}
    {call : DispatchCall} (h : d.prepare now stored ids raw = .ok (e, call)) :
    none ∉ raw ∧
    e = stored.getD { d.envelope (raw.reduceOption.map (QueuedMessage.fromDict now)) now with
      sourceMessageIds := ids } ∧
    call = { deliveryId := d.deliveryId
             fingerprint := fingerprint d.threadId d.turnId ids
             threadId := d.threadId
             items := List.zipWith (fun id raw =>
               ⟨id, raw, ((raw.fromDict now).withState .dispatched now).json⟩) ids raw.reduceOption
             envelope := e.json
             stream := d.stream } := by
  simp only [Dispatch.prepare] at h
  split at h
  · cases h
  split at h
  · cases h
  next hlen =>
  split at h
  · cases h
  split at h
  · cases h
  refine ⟨fun hn => hlen (.inr hn), ?_⟩
  split at h
  · cases h
  · cases h
    exact ⟨rfl, rfl⟩

/-- The messages of a dispatch are those under its ids. -/
theorem zipWith_read {ids : List String} {f : String → Option QueuedMessage}
    {g : String → QueuedMessage → Redispatch} (hg : ∀ id m, (g id m).id = id ∧ (g id m).raw = m)
    (hnone : none ∉ ids.map f) :
    (List.zipWith g ids (ids.map f).reduceOption).map Redispatch.raw = (ids.map f).reduceOption ∧
    (List.zipWith g ids (ids.map f).reduceOption).map Redispatch.id = ids ∧
    ∀ item ∈ List.zipWith g ids (ids.map f).reduceOption,
      f item.id = some item.raw ∧ item = g item.id item.raw := by
  induction ids with
  | nil => exact ⟨rfl, rfl, nofun⟩
  | cons id ids ih =>
    simp only [List.map_cons, List.mem_cons, not_or] at hnone
    obtain ⟨hid, hrest⟩ := hnone
    obtain ⟨m, hm⟩ := Option.ne_none_iff_exists'.mp (Ne.symm hid)
    obtain ⟨hraw, hids, hitems⟩ := ih hrest
    simp only [List.map_cons, hm, List.reduceOption_cons_of_some, List.zipWith_cons_cons,
      hraw, hids]
    refine ⟨by rw [(hg id m).2], by rw [(hg id m).1], fun item hi => ?_⟩
    rcases List.mem_cons.mp hi with rfl | hi
    · rw [(hg id m).1, (hg id m).2]
      exact ⟨hm, rfl⟩
    · exact hitems item hi

/-! ## The invariant -/

/-- The envelope says what the messages found said, which is what the clients committed last; these
are the messages that are marked. -/
structure Sent.Faithful (x : Sent) : Prop where
  text : x.envelope.text = merge x.found
  committed : x.committed = x.found.map fun m => some m.text
  all : ∀ id ∈ x.ids, ∃ m ∈ x.found, m.id = id
  only : ∀ m ∈ x.found, m.id ∈ x.ids

/-- A stored message: under its id, as its JSON text gives it back, with the text committed last. -/
def Ledger.Holds (l : Ledger) (t id : String) (m : QueuedMessage) : Prop :=
  m.id = id ∧ m.json = m ∧ l.text t id = some m.text

structure Carried (w : World) : Prop where
  held : ∀ t id m, w.redis.messages t id = some m → w.ledger.Holds t id m
  receipts : ∀ d e, (w.redis.receipts d).envelope = some e → w.ledger.Built e
  sent : ∀ x ∈ w.ledger.sent, x.Faithful

/-- What a client carries on from its reads. -/
def Frame.Carries (l : Ledger) : Frame → Prop
  | .updateExec _ id _ _ _ updated => updated.id = id
  | .dispatchOrder _ stored | .dispatchRead _ stored _ => ∀ e ∈ stored, l.Built e
  | .dispatchScript d stored call =>
    (∀ item ∈ call.items, item.raw.id = item.id ∧ item.updated.id = item.id ∧
      item.updated.json = item.updated ∧ item.updated.text = item.raw.text) ∧
    (∀ e ∈ stored, call.envelope = e ∧ l.Built e) ∧
    (stored = none → d.Plain → call.envelope.json = call.envelope ∧
      call.envelope.text = merge (call.items.map Redispatch.raw))
  | .release _ _ _ writes => ∀ x ∈ writes, x.2.id = x.1 ∧ x.2.json = x.2
  | _ => True

/-- What is built stays built. -/
theorem Frame.Carries.mono {l l' : Ledger} {f : Frame} (h : f.Carries l)
    (hl : ∀ e, l.Built e → l'.Built e) : f.Carries l' := by
  cases f with
  | dispatchOrder d stored => exact fun e he => hl e (h e he)
  | dispatchRead d stored ids => exact fun e he => hl e (h e he)
  | dispatchScript d stored call =>
    obtain ⟨hitems, hstored, hfresh⟩ := h
    exact ⟨hitems, fun e he => ⟨(hstored e he).1, hl e (hstored e he).2⟩, hfresh⟩
  | _ => exact h

/-- A message marked and written again says what it said. -/
theorem QueuedMessage.rewritten {m : QueuedMessage} (h : m.json = m) (now : String)
    (state : QueueMessageState) : (((m.fromDict now).withState state now).json).text = m.text := by
  have hj : m.json.text = m.text := congrArg QueuedMessage.text h
  exact hj

/-- **A client goes on** with what it has read. -/
theorem Pushes.carries {w : World} {f g : Frame} {o : Choice} (hp : Pushes w.redis o f g)
    (hw : Carried w) (h : f.Carries w.ledger) : g.Carries w.ledger := by
  cases hp with
  | updateRead t id content references version updated hread =>
    obtain ⟨m, hm, -, rfl⟩ := updateRead_ok hread
    exact (hw.held t id m hm).1
  | dispatch d stored hread =>
    intro e he
    obtain ⟨raw, hraw, rfl⟩ := receiptRead_stored hread e he
    exact (hw.receipts _ raw hraw).fromDict o.now
  | dispatchOrder d stored => exact h
  | dispatchRead d stored ids e call hprep =>
    obtain ⟨hnone, he, rfl⟩ := prepare_ok hprep
    have hread := zipWith_read (g := fun id raw =>
      ⟨id, raw, ((raw.fromDict o.now).withState .dispatched o.now).json⟩)
        (fun _ _ => ⟨rfl, rfl⟩) hnone
    refine ⟨fun item hi => ?_, fun e' he' => ?_, fun hstored hplain => ?_⟩
    · obtain ⟨hm, hitem⟩ := hread.2.2 item hi
      obtain ⟨hid, hj, -⟩ := hw.held _ _ _ hm
      rw [hitem]
      exact ⟨hid, hid, QueuedMessage.json_json _, QueuedMessage.rewritten hj o.now .dispatched⟩
    · have hb := h e' he'
      have hstored : e = e' := by
        rw [he, Option.mem_def.mp he']
        rfl
      subst hstored
      exact ⟨hb.1, hb⟩
    · subst hstored
      refine ⟨MessageEnvelope.json_json e, ?_⟩
      rw [hread.1]
      have htext : e.text = merge ((ids.map (w.redis.messages d.threadId)).reduceOption) := by
        rw [he]
        calc _ = merge ((ids.map (w.redis.messages d.threadId)).reduceOption.map
              (QueuedMessage.fromDict o.now)) := by
              rw [← Dispatch.envelope_text hplain _ o.now]
              exact MessageEnvelope.text_of_payload rfl
          _ = _ := merge_congr (by rw [List.map_map]; rfl)
      have hcanonical : ∀ m ∈ (ids.map (w.redis.messages d.threadId)).reduceOption, m.json = m := by
        intro m hm
        obtain ⟨id, -, hid⟩ := List.mem_map.mp (List.reduceOption_mem_iff.mp hm)
        exact (hw.held _ _ m hid).2.1
      refine Prod.ext ?_ ?_
      · exact (MessageEnvelope.content_json e).trans (congrArg Prod.fst htext)
      · calc e.json.references = e.references.map Json.sortKeysFields := e.references_json
          _ = (merge _).2.map Json.sortKeysFields := congrArg (List.map _) (congrArg Prod.snd htext)
          _ = _ := merge_canonical hcanonical
  | releaseTurn turnId e => nofun
  | release turnId e id todo writes =>
    intro x hx
    rcases List.mem_append.mp hx with hx | hx
    · exact h x hx
    · obtain ⟨m, hm, rfl⟩ := Option.map_eq_some_iff.mp (Option.mem_toList.mp hx)
      exact ⟨(hw.held _ _ m hm).1, QueuedMessage.json_json _⟩
  | _ => trivial

/-! ## Steps -/

/-- The texts a dispatch finds are those its envelope was built from, and a release writes the texts
it finds. -/
def textsInTime (s : Clients) : Frame → Prop
  | .dispatchScript d none call => s.shared.redis.changed call.threadId call.items = none →
    d.Plain ∧ (s.shared.redis.zrange call.threadId).filter (fun id =>
      id ∈ call.items.map Redispatch.id) =
      call.items.map Redispatch.id
  | .dispatchScript _ (some e) call => s.shared.redis.changed call.threadId call.items = none →
    (s.shared.redis.inOrder call.threadId (call.items.map Redispatch.id)).map
      (fun m => (m.id, m.text)) =
      (s.shared.ledger.basis e.core).map fun m => (m.id, m.text)
  | .release _ e [] writes => ∀ x ∈ writes,
    (s.shared.redis.messages e.envelope.threadId x.1).map QueuedMessage.text = some x.2.text
  | _ => True

instance (s : Clients) (f : Frame) : Decidable (textsInTime s f) := by
  cases f with
  | dispatchScript d stored call => cases stored <;> (unfold textsInTime; infer_instance)
  | release turnId e todo writes => cases todo <;> (unfold textsInTime; infer_instance)
  | _ => unfold textsInTime; infer_instance

theorem textsInTime.release {s : Clients} {f : Frame} (h : textsInTime s f) :
    releaseInTime s f := by
  unfold releaseInTime
  split
  · intro x hx
    have htext := h x hx
    cases hm : s.shared.redis.messages _ x.1 with
    | none => rw [hm] at htext; cases htext
    | some m => rfl
  · trivial

section Held

variable {r : Redis} {l : Ledger} {P : String → String → QueuedMessage → Prop}

/-- A text is written. -/
theorem hset_held (h : ∀ t id m, r.messages t id = some m → P t id m) {t id : String}
    {m : QueuedMessage} (hnew : P t id m) :
    ∀ t' id' m', (r.hset t id m).messages t' id' = some m' → P t' id' m' := by
  intro t' id' m' hm'
  rw [Indexed.hset_messages] at hm'
  split at hm'
  · next he =>
    obtain ⟨rfl, rfl⟩ := he
    cases hm'
    exact hnew
  · exact h t' id' m' hm'

theorem hsetAll_held (h : ∀ t id m, r.messages t id = some m → P t id m) {t : String}
    {writes : List (String × QueuedMessage)} (hnew : ∀ x ∈ writes, P t x.1 x.2) :
    ∀ t' id' m', (r.hsetAll t writes).messages t' id' = some m' → P t' id' m' := by
  rw [Redis.hsetAll]
  induction writes generalizing r with
  | nil => exact h
  | cons x writes ih =>
    exact ih (hset_held h (hnew x List.mem_cons_self)) fun x' hx' =>
      hnew x' (List.mem_cons_of_mem _ hx')

/-- The text of another message is set. -/
theorem Ledger.Holds.setText {t id t' id' : String} {text : Option Text} {m : QueuedMessage}
    (h : l.Holds t' id' m) (hne : ¬(t' = t ∧ id' = id)) : (l.setText t id text).Holds t' id' m := by
  obtain ⟨hid, hj, htext⟩ := h
  refine ⟨hid, hj, ?_⟩
  by_cases ht : t' = t
  · subst ht
    have hne' : id' ≠ id := fun h => hne ⟨rfl, h⟩
    simpa [Ledger.setText, hne'] using htext
  · simpa [Ledger.setText, ht] using htext

theorem setText_self (t id : String) (text : Option Text) :
    (l.setText t id text).text t id = text := by
  simp [Ledger.setText]

/-- A message is written together with its text. -/
theorem hset_setText (h : ∀ t id m, r.messages t id = some m → l.Holds t id m) {t id : String}
    {m : QueuedMessage} (hid : m.id = id) (hj : m.json = m) :
    ∀ t' id' m', (r.hset t id m).messages t' id' = some m' →
      (l.setText t id (some m.text)).Holds t' id' m' := by
  intro t' id' m' hm'
  rw [Indexed.hset_messages] at hm'
  split at hm'
  · next he =>
    obtain ⟨rfl, rfl⟩ := he
    cases hm'
    exact ⟨hid, hj, setText_self _ _ _⟩
  · next he => exact (h t' id' m' hm').setText he

theorem deleteExec_held (h : ∀ t id m, r.messages t id = some m → l.Holds t id m) (t id : String) :
    ∀ t' id' m', (r.deleteExec t id).messages t' id' = some m' →
      (l.remove t id).Holds t' id' m' := by
  intro t' id' m' hm'
  rw [Indexed.deleteExec_messages] at hm'
  split at hm'
  · cases hm'
  · next hne => exact (h t' id' m' hm').setText hne

theorem deleteAll_held (h : ∀ t id m, r.messages t id = some m → l.Holds t id m) (t : String)
    (ids : List String) : ∀ t' id' m',
      (ids.foldl (fun r id => r.deleteExec t id) r).messages t' id' = some m' →
      (l.removeAll t ids).Holds t' id' m' := by
  rw [Ledger.removeAll]
  induction ids generalizing r l with
  | nil => exact h
  | cons id ids ih => exact ih (deleteExec_held h t id)

end Held

theorem hsetAll_receipts (r : Redis) (t : String) (writes : List (String × QueuedMessage)) :
    (r.hsetAll t writes).receipts = r.receipts := by
  rw [Redis.hsetAll]
  induction writes generalizing r with
  | nil => rfl
  | cons x writes ih => exact ih _

theorem deleteExec_receipts (r : Redis) (t id : String) :
    (r.deleteExec t id).receipts = r.receipts := by
  show (r.hdel t id).receipts = _
  rw [Redis.hdel]
  split <;> rfl

theorem deleteAll_receipts (r : Redis) (t : String) (ids : List String) :
    (ids.foldl (fun r id => r.deleteExec t id) r).receipts = r.receipts := by
  induction ids generalizing r with
  | nil => rfl
  | cons id ids ih => exact (ih _).trans (deleteExec_receipts r t id)

/-- Removals leave the envelopes and the dispatches of the ledger. -/
theorem removeAll_history (l : Ledger) (t : String) (ids : List String) :
    (l.removeAll t ids).basis = l.basis ∧ (l.removeAll t ids).sent = l.sent := by
  rw [Ledger.removeAll]
  induction ids generalizing l with
  | nil => exact ⟨rfl, rfl⟩
  | cons id ids ih => exact ih _

/-- A receipt that is settled keeps its envelope. -/
theorem settle_envelope (r : Redis) (d d' : String) (status : ReceiptStatus) :
    ((r.settle d status).receipts d').envelope = (r.receipts d').envelope := by
  by_cases h : d' = d
  · subst h
    simp [Redis.settle, Redis.setReceipt]
  · simp [Redis.settle, Redis.setReceipt, h]

/-- What was built before is built after: a new envelope with the same payload says the same. -/
theorem Built_send {l : Ledger} {r : Redis} {stored : Option MessageEnvelope} {call : DispatchCall}
    (hnew : stored = none → call.envelope.text = merge (call.items.map Redispatch.raw))
    {e : MessageEnvelope} (h : l.Built e) : (l.send r stored call).Built e := by
  refine ⟨h.1, ?_⟩
  cases stored with
  | some _ => exact h.2
  | none =>
    show e.text = merge (Function.update l.basis call.envelope.core _ e.core)
    by_cases he : e.core = call.envelope.core
    · rw [he, Function.update_self]
      exact (MessageEnvelope.text_of_core he).trans (hnew rfl)
    · rw [Function.update_of_ne he]
      exact h.2

/-- The envelope of a dispatch is built when it is sent. -/
theorem Built_sent {l : Ledger} {r : Redis} {d : Dispatch} {stored : Option MessageEnvelope}
    {call : DispatchCall} (h : (Frame.dispatchScript d stored call).Carries l)
    (hplain : stored = none → d.Plain) : (l.send r stored call).Built call.envelope := by
  obtain ⟨-, hstored, hfresh⟩ := h
  cases stored with
  | some e =>
    obtain ⟨he, hb⟩ := hstored e rfl
    rw [he]
    exact ⟨hb.1, hb.2⟩
  | none =>
    obtain ⟨hj, htext⟩ := hfresh rfl (hplain rfl)
    refine ⟨hj, ?_⟩
    show _ = merge (Function.update l.basis call.envelope.core _ call.envelope.core)
    rw [Function.update_self]
    exact htext

/-- The messages found are the stored ones under the ids. -/
theorem mem_inOrder {r : Redis} {t : String} {ids : List String} {m : QueuedMessage} :
    m ∈ r.inOrder t ids ↔ ∃ id ∈ r.zrange t, id ∈ ids ∧ r.messages t id = some m := by
  rw [Redis.inOrder, List.reduceOption_mem_iff, List.mem_map]
  simp only [List.mem_filter, decide_eq_true_eq, and_assoc]

/-- Messages that are as they were read are found in the order in which they are asked for. -/
theorem inOrder_eq_raw {r : Redis} {t : String} {items : List Redispatch}
    (hitems : ∀ item ∈ items, r.messages t item.id = some item.raw)
    (horder : (r.zrange t).filter (fun id => id ∈ items.map Redispatch.id) =
      items.map Redispatch.id) :
    r.inOrder t (items.map Redispatch.id) = items.map Redispatch.raw := by
  rw [Redis.inOrder, horder, List.map_map]
  clear horder
  induction items with
  | nil => rfl
  | cons item items ih =>
    simp only [List.map_cons, Function.comp_apply, hitems item List.mem_cons_self,
      List.reduceOption_cons_of_some]
    rw [ih fun item' hi' => hitems item' (List.mem_cons_of_mem _ hi')]

/-- **A dispatch that goes through** is faithful. -/
theorem sent_faithful {s : Clients} {d : Dispatch} {stored : Option MessageEnvelope}
    {call : DispatchCall} (hindex : Indexed s.shared.redis s.shared.ledger)
    (hw : Carried s.shared) (hf : (Frame.dispatchScript d stored call).Carries s.shared.ledger)
    (hok : textsInTime s (.dispatchScript d stored call))
    (hc : s.shared.redis.changed call.threadId call.items = none) :
    ∀ x ∈ (s.shared.ledger.send s.shared.redis stored call).sent, x.Faithful := by
  obtain ⟨hitems, hstored, hfresh⟩ := hf
  intro x hx
  rcases List.mem_append.mp hx with hx | hx
  · exact hw.sent x hx
  obtain rfl := List.mem_singleton.mp hx
  refine ⟨?_, ?_, fun id hid => ?_, fun m hm => ?_⟩
  · cases stored with
    | none =>
      obtain ⟨hplain, horder⟩ := hok hc
      rw [(hfresh rfl hplain).2,
        inOrder_eq_raw (fun item hi => (present_of_changed hc item hi).1) horder]
    | some e =>
      obtain ⟨he, hb⟩ := hstored e rfl
      show call.envelope.text = _
      rw [he, hb.2]
      refine merge_congr ?_
      have hsame := congrArg (List.map Prod.snd) (hok hc)
      rw [List.map_map, List.map_map] at hsame
      exact hsame.symm
  · refine List.map_congr_left fun m hm => ?_
    obtain ⟨id, -, -, hid⟩ := mem_inOrder.mp hm
    obtain ⟨hmid, -, htext⟩ := hw.held _ id m hid
    rw [hmid, htext]
  · obtain ⟨item, hi, rfl⟩ := List.mem_map.mp hid
    have hm := (present_of_changed hc item hi).1
    have hin := (hindex.fields call.threadId item.id).mp (by rw [hm]; rfl)
    exact ⟨item.raw, mem_inOrder.mpr ⟨item.id, hin, hid, hm⟩, (hitems item hi).1⟩
  · obtain ⟨id, -, hid, hm'⟩ := mem_inOrder.mp hm
    rw [(hw.held _ id m hm').1]
    exact hid

/-- **Step lemma.** -/
theorem Carried.effect {s : Clients} {w' : World} {f : Frame}
    (hindex : Indexed s.shared.redis s.shared.ledger) (hw : Carried s.shared)
    (hf : f.Carries s.shared.ledger) (hok : textsInTime s f) (he : Effect s.shared f w') :
    Carried w' ∧ ∀ e, s.shared.ledger.Built e → w'.ledger.Built e := by
  cases he with
  | quiet _ _ hq =>
    rw [hq.ledger]
    refine ⟨⟨fun t id m hm => ?_, fun d e he => ?_, fun x hx => ?_⟩, fun e h => h⟩
    · rw [hq.ledger]
      exact hw.held t id m (hq.messages ▸ hm)
    · rw [hq.ledger]
      exact hw.receipts d e (hq.envelope d e he)
    · rw [hq.ledger] at hx
      exact hw.sent x hx
  | created item version next hv =>
    have hheld := hset_setText (r := s.shared.redis.setSequence item.threadId next)
      (t := item.threadId) hw.held
      (show item.json.id = item.id from rfl) item.json_json
    exact ⟨⟨hheld, hw.receipts, hw.sent⟩, fun e h => h⟩
  | updated t id content references version m hv =>
    exact ⟨⟨hset_setText hw.held hf m.json_json, hw.receipts, hw.sent⟩, fun e h => h⟩
  | deleted t id version hv =>
    refine ⟨⟨deleteExec_held hw.held t id, fun d e he => ?_, hw.sent⟩, fun e h => h⟩
    exact hw.receipts d e (by rw [← deleteExec_receipts _ t id]; exact he)
  | dispatched d stored call hc =>
    have hplain : stored = none → d.Plain := by
      rintro rfl
      exact (hok hc).1
    have hbuilt : ∀ e, s.shared.ledger.Built e →
        (s.shared.ledger.send s.shared.redis stored call).Built e :=
      fun e h => Built_send (fun hn => (hf.2.2 hn (hplain hn)).2) h
    refine ⟨⟨?_, fun d' e' he' => ?_, sent_faithful hindex hw hf hok hc⟩, hbuilt⟩
    · refine hsetAll_held hw.held fun x hx => ?_
      obtain ⟨item, hi, rfl⟩ := List.mem_map.mp hx
      obtain ⟨-, hid, hj, htext⟩ := hf.1 item hi
      refine ⟨hid, hj, ?_⟩
      rw [htext]
      exact (hw.held _ _ _ (present_of_changed hc item hi).1).2.2
    · by_cases hd : d' = call.deliveryId
      · subst hd
        obtain rfl : call.envelope = e' := by
          simpa [Redis.dispatchExec, Redis.setReceipt] using he'
        exact Built_sent hf hplain
      · have he'' : (s.shared.redis.receipts d').envelope = some e' := by
          rw [← hsetAll_receipts s.shared.redis call.threadId]
          simpa [Redis.dispatchExec, Redis.setReceipt, Redis.xadd, hd] using he'
        exact hbuilt e' (hw.receipts d' e' he'')
  | acknowledged c =>
    obtain ⟨hbasis, hsent⟩ := removeAll_history s.shared.ledger c.envelope.threadId
      c.envelope.ackIds
    have hbuilt : ∀ e, s.shared.ledger.Built e →
        (s.shared.ledger.removeAll c.envelope.threadId c.envelope.ackIds).Built e := by
      intro e h
      exact ⟨h.1, by rw [hbasis]; exact h.2⟩
    refine ⟨⟨?_, fun d e he => ?_, fun x hx => hw.sent x (hsent ▸ hx)⟩, hbuilt⟩
    · exact deleteAll_held (r := s.shared.redis.xdel c.envelope.stream c.streamId) hw.held _ _
    · refine hbuilt e (hw.receipts d e ?_)
      rw [Redis.ackExec, settle_envelope, deleteAll_receipts] at he
      exact he
  | released turnId e writes =>
    refine ⟨⟨?_, fun d e' he => ?_, hw.sent⟩, fun e h => h⟩
    · refine hsetAll_held hw.held fun x hx => ?_
      obtain ⟨hid, hj⟩ := hf x hx
      refine ⟨hid, hj, ?_⟩
      obtain ⟨m, hm, htext⟩ := Option.map_eq_some_iff.mp (hok x hx)
      rw [(hw.held _ _ m hm).2.2, htext]
    · refine hw.receipts d e' ?_
      rw [Redis.releaseExec, settle_envelope] at he
      rw [← hsetAll_receipts s.shared.redis e.envelope.threadId writes]
      exact he

/-! ## Runs -/

structure Carrying (s : Clients) : Prop extends Watched s where
  carried : Carried s.shared
  carries : ∀ f, s.Pending f → f.Carries s.shared.ledger

theorem Carrying.exec {s : Clients} {k : Nat} {f : Frame} {rest new : List Frame} {o : Choice}
    {w : World} (h : Carrying s) (hk : s.threads[k]? = some (f :: rest)) (hok : textsInTime s f)
    (hx : s.shared.exec f o = some (w, new)) : Carrying ⟨w, s.threads.set k (new ++ rest)⟩ := by
  have hwatched := h.toWatched.exec hk hok.release hx
  have hw : w = ⟨(s.shared.redis.exec f o).1, s.shared.note f⟩ ∧
      new = (s.shared.redis.exec f o).2 := by
    simp only [World.exec, Option.some.injEq, Prod.mk.injEq] at hx
    exact ⟨hx.1.symm, hx.2.symm⟩
  obtain ⟨rfl, rfl⟩ := hw
  have hf := h.carries f (Threads.pending_executed hk)
  obtain ⟨hcarried, hbuilt⟩ := h.carried.effect h.indexed hf hok (exec_effect s.shared f o)
  refine ⟨hwatched, hcarried, fun g hg => ?_⟩
  rcases Threads.pending_of_advance hk hg with hg | hg
  · exact ((exec_pushes hg).carries h.carried hf).mono hbuilt
  · exact (h.carries g hg).mono hbuilt

theorem Carrying.new : Carrying Clients.new := by
  refine ⟨Watched.new, ⟨fun t id m hm => ?_, fun d e he => ?_, fun x hx => ?_⟩, fun f hf => ?_⟩
  · cases hm
  · cases he
  · cases hx
  obtain ⟨t, ht, -⟩ := hf
  cases ht

theorem Carrying.call {s : Clients} {f : Frame} (h : Carrying s) (hcall : f.isCall = true) :
    Carrying ⟨s.shared, s.threads ++ [[f]]⟩ := by
  refine ⟨h.toWatched.call hcall, h.carried, fun g hg => ?_⟩
  rcases Threads.pending_call.mp hg with hg | rfl
  · exact h.carries g hg
  · cases g <;> trivial

/-- **Every dispatch is faithful** in every interleaving whose texts are in time. -/
theorem dispatch_faithful {moves : List (Move Frame Choice)} {s : Clients}
    (hok : Meets Clients.step (Threads.Guarded textsInTime) Clients.new moves)
    (hrun : run Clients.step Clients.new moves = some s) :
    ∀ x ∈ s.shared.ledger.sent, x.Faithful := by
  have hs : Carrying s :=
    Threads.guarded_invariant (fun s f hs hcall => hs.call hcall)
      (fun s k f rest o w new hs hk hf hx => hs.exec hk hf hx) Carrying.new hok hrun
  exact hs.carried.sent

/-- A message is created, dispatched to Turn `u`, and the Turn released. -/
def returned : List (Move Frame Choice) :=
  calls (.create ⟨"m", "t", "hello", [], .pending, "1", "1"⟩) 0 4 ++
  calls (.dispatch ⟨"d", ["m"], "s", "t", "u", none, none⟩) 1 4 ++ calls (.releaseTurn "u") 2 5

/-- The delivery is dispatched again. -/
theorem dispatch_faithful_again :
    ∃ s, run Clients.step Clients.new
        (returned ++ calls (.dispatch ⟨"d", ["m"], "s", "t", "u", none, none⟩) 3 4) = some s ∧
      Meets Clients.step (Threads.Guarded textsInTime) Clients.new
        (returned ++ calls (.dispatch ⟨"d", ["m"], "s", "t", "u", none, none⟩) 3 4) ∧
      s.shared.ledger.sent.length = 2 ∧ ∀ x ∈ s.shared.ledger.sent, x.Faithful := by
  have hok : Meets Clients.step (Threads.Guarded textsInTime) Clients.new
      (returned ++ calls (.dispatch ⟨"d", ["m"], "s", "t", "u", none, none⟩) 3 4) := by decide
  exact ⟨_, rfl, hok, rfl, dispatch_faithful hok rfl⟩

/-- The message is edited before the delivery is dispatched again: the Turn gets the old text. -/
theorem edit_lost_in_dispatch :
    ∃ s, run Clients.step Clients.new
        (returned ++ calls (.update "t" "m" "hello again" []) 3 3 ++
          calls (.dispatch ⟨"d", ["m"], "s", "t", "u", none, none⟩) 4 4) = some s ∧
      ∃ x ∈ s.shared.ledger.sent, x.envelope.content = "hello" ∧
        x.found.map QueuedMessage.content = ["hello again"] ∧ ¬x.Faithful := by
  refine ⟨_, rfl, _, List.mem_cons_of_mem _ List.mem_cons_self, by decide, by decide, fun h => ?_⟩
  have htext := congrArg Prod.fst h.text
  exact absurd htext (by decide)

end MiniAgent.Queue
