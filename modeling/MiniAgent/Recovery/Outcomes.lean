import MiniAgent.Recovery.Executor
import MiniAgent.Store.Effects
import MiniAgent.Store.Running

/-!
# What a call is after a crash

`Recovered` is the promise of the recovery: a call that has finished keeps its outcome, one that has
begun is indeterminate, and only one that has not begun is recorded as not executed.
`reconstruct_attempt` looks at the calls that have begun and not at those that have finished, so the
promise holds exactly when no pending call of the saved runtime has finished in the Turn (`Open`).
-/

namespace MiniAgent.Recovery

open Lib Turn Store Provider

variable {host : Host}

/-! ## The promise -/

/-- A result of the call that says how it ended. -/
def isTerminal (id : String) (item : Fields) : Prop :=
  item.get "type" = some (.str "tool_result") ∧
    (item.get "status" = some (.str "success") ∨ item.get "status" = some (.str "failed")) ∧
    callId item = id

/-- An Item of the call. -/
def isCallOf (id : String) (item : Fields) : Prop :=
  item.get "type" = some (.str "tool_call") ∧ callId item = id

def isRunningCall (id : String) (item : Fields) : Prop :=
  isCallOf id item ∧ item.get "status" = some (.str "running")

/-- The call has the outcome of the result. -/
def HasOutcome (t : ToolMessage) (result : Fields) : Prop :=
  (result.get "status" = some (.str "success") ∧ t.status = .succeeded ∨
    result.get "status" = some (.str "failed") ∧ t.status = .failed) ∧
  result.get "content" = t.content.map Json.str

/-- What has become of a call, given the Items of the Turn. -/
structure Outcome (items : List Fields) (before after : ToolMessage) : Prop where
  callId : after.callId = before.callId
  closed : after.status ≠ .pending
  completed : before.status ≠ .pending → after = before
  finished : before.status = .pending → ∀ item ∈ items, isTerminal before.callId item →
    HasOutcome after item
  begun : before.status = .pending → (∀ item ∈ items, ¬ isTerminal before.callId item) →
    (∃ item ∈ items, isRunningCall before.callId item) → after.status = .indeterminate
  unexecuted : before.status = .pending → after.content = some notExecutedText →
    ∀ item ∈ items, ¬ isCallOf before.callId item

def turnItems (turn : Option (ValidTurn host)) : List Fields :=
  match turn with
  | none => []
  | some node => (selected node.val).flatMap messageItems

/-- The Turn that `reconcile_todo_receipts` returns. -/
def reconciledTurn (d : Durable host) : Option (ValidTurn host) :=
  d.turn.bind fun node => (reconcileTodoReceipts d node).toOption.map Prod.fst

structure Recovered (d : Durable host) (resumed : Runtime) : Prop where
  inactive : resumed.activeMessage = none
  messages : ∀ m ∈ resumed.messages, ∀ t ∈ m.tools, t.status ≠ .pending
  actions : ∀ run ∈ resumed.currentRun, ∀ t ∈ run.actions, t.status ≠ .pending
  calls : ∀ active ∈ d.runtime.activeMessage, ∃ m : AssistantMessage,
    resumed.messages = d.runtime.messages ++ [.assistant m] ∧
      List.Forall₂ (Outcome (turnItems (reconciledTurn d))) active.toolMessages m.toolMessages

/-- A result that reads as a call that was not executed. -/
def readsUnexecuted (result : Fields) : Prop :=
  result.get "status" = some (.str "failed") ∧ result.get "content" = some (.str notExecutedText)

/-- The Todo store has a receipt for a call that has begun and has no result. -/
def Receipted (receipt : String → Option String) (messages : List Fields) (id : String) : Prop :=
  (receipt id).isSome ∧ ∃ item ∈ messages.flatMap messageItems, isOpenTodo
    (resultIds messages) item ∧ callId item = id

/-- The call has not begun in the Turn, or it has begun and neither the Turn nor the Todo store
knows how it ended. -/
def Open (receipt : String → Option String) (messages : List Fields) (id : String) : Prop :=
  let items := messages.flatMap messageItems
  ((∀ item ∈ items, ¬ isCallOf id item) ∧ ∀ item ∈ items, isTerminal id item →
    readsUnexecuted item) ∨
    ((∃ item ∈ items, isRunningCall id item) ∧ (∀ item ∈ items, ¬ isTerminal id item) ∧
      ¬ Receipted receipt messages id)

/-- The pending calls of the saved runtime are open. -/
def PendingOpen (d : Durable host) : Prop :=
  ∀ active ∈ d.runtime.activeMessage, ∀ t ∈ active.toolMessages, t.status = .pending →
    Open d.receipt ((d.turn.map fun node => selected node.val).getD []) t.callId

instance (id : String) (item : Fields) :
    Decidable (isTerminal id item) := by unfold isTerminal; infer_instance

instance (id : String) (item : Fields) :
    Decidable (isCallOf id item) := by unfold isCallOf; infer_instance

instance (id : String) (item : Fields) :
    Decidable (isRunningCall id item) := by unfold isRunningCall; infer_instance

instance (result : Fields) :
    Decidable (readsUnexecuted result) := by unfold readsUnexecuted; infer_instance

instance (receipt : String → Option String) (messages : List Fields) (id : String) :
    Decidable (Receipted receipt messages id) := by unfold Receipted; infer_instance

instance (receipt : String → Option String) (messages : List Fields) (id : String) :
    Decidable (Open receipt messages id) := by unfold Open; infer_instance

instance (d : Durable host) : Decidable (PendingOpen d) := by unfold PendingOpen; infer_instance

/-! ## Receipts -/

section Receipts

variable {receipt : String → Option String} {terminal : List String} {id result : String}

theorem callId_recoveredCall (item : Fields) : callId (recoveredCall item) = callId item := by
  simp [callId, recoveredCall]

theorem callId_recoveredResult (r : String × String) : callId (recoveredResult r) = r.1 := rfl

theorem isOpenTodo_iff {item : Fields} : isOpenTodo terminal item = true ↔
    isRunningCall (callId item) item ∧ item.get "name" = some (.str "update_todo_list") ∧
    callId item ≠ "" ∧
      callId item ∉ terminal := by
  simp only [isOpenTodo, decide_eq_true_eq, isRunningCall, isCallOf]
  tauto

theorem isOpenTodo_mono {terminal' : List String} (h : ∀ x ∈ terminal, x ∈ terminal')
    {item : Fields} (hopen : isOpenTodo terminal' item = true) :
    isOpenTodo terminal item = true := by
  obtain ⟨hrun, hname, hid, hnot⟩ := isOpenTodo_iff.mp hopen
  exact isOpenTodo_iff.mpr ⟨hrun, hname, hid, fun hmem => hnot (h _ hmem)⟩

theorem receiptOf_some {item : Fields} : receiptOf receipt terminal item = some result ↔
    isOpenTodo terminal item = true ∧ receipt (callId item) = some result := by
  rw [receiptOf]
  split
  · next h => simp [h]
  · next h => simp [h]

/-- A call without a receipt is left as it is. -/
theorem reconcileItems_untouched : ∀ {items : List Fields} {terminal : List String},
    (∀ item ∈ items, isOpenTodo terminal item = true → callId item = id → receipt id = none) →
      (reconcileItems receipt terminal items).1.filter (fun item => callId item = id) =
          items.filter (fun item => callId item = id) ∧
        ∀ r ∈ (reconcileItems receipt terminal items).2, r.1 ≠ id
  | [], _, _ => ⟨rfl, nofun⟩
  | item :: items, terminal, h => by
    rw [reconcileItems]
    have hrest := fun x hx => h x (List.mem_cons_of_mem item hx)
    split
    · next result hr =>
      obtain ⟨hopen, hreceipt⟩ := receiptOf_some.mp hr
      have hne : callId item ≠ id := by
        intro heq
        rw [heq, h item List.mem_cons_self hopen heq] at hreceipt
        cases hreceipt
      have hlater : ∀ x ∈ items, isOpenTodo (callId item :: terminal) x = true →
          callId x = id → receipt id = none :=
        fun x hx ho => hrest x hx (isOpenTodo_mono (fun y hy => List.mem_cons_of_mem _ hy) ho)
      have ih := reconcileItems_untouched hlater
      refine ⟨?_, fun r hmem => ?_⟩
      · rw [List.filter_cons_of_neg (by simpa [callId_recoveredCall] using hne),
          List.filter_cons_of_neg (by simpa using hne), ih.1]
      · rcases List.mem_cons.mp hmem with rfl | hmem
        · exact hne
        · exact ih.2 r hmem
    · have ih := reconcileItems_untouched hrest
      exact ⟨by rw [List.filter_cons, List.filter_cons, ih.1], ih.2⟩

/-- A call with a receipt is recovered. -/
theorem reconcileItems_recovers (hreceipt : receipt id = some result) :
    ∀ {items : List Fields} {terminal : List String}, id ∉ terminal →
      (∃ item ∈ items, isOpenTodo terminal item = true ∧ callId item = id) →
        (id, result) ∈ (reconcileItems receipt terminal items).2
  | [], _, _, h => by obtain ⟨_, hmem, -⟩ := h; cases hmem
  | item :: items, terminal, hid, ⟨x, hx, hopen, hcall⟩ => by
    rw [reconcileItems]
    split
    · next res hr =>
      obtain ⟨-, hres⟩ := receiptOf_some.mp hr
      by_cases heq : callId item = id
      · rw [heq, hreceipt] at hres
        cases hres
        exact heq ▸ List.mem_cons_self
      · refine List.mem_cons_of_mem _ (reconcileItems_recovers hreceipt ?_ ⟨x, ?_, ?_, hcall⟩)
        · exact fun hmem => (List.mem_cons.mp hmem).elim (fun h => heq h.symm) hid
        · exact (List.mem_cons.mp hx).resolve_left fun h => heq (h ▸ hcall)
        · obtain ⟨hrun, hname, hne, -⟩ := isOpenTodo_iff.mp hopen
          refine isOpenTodo_iff.mpr ⟨hrun, hname, hne, fun hmem => ?_⟩
          rw [hcall] at hmem
          exact (List.mem_cons.mp hmem).elim (fun h => heq h.symm) hid
    · next hr =>
      refine reconcileItems_recovers hreceipt hid ⟨x, ?_, hopen, hcall⟩
      refine (List.mem_cons.mp hx).resolve_left fun h => ?_
      subst h
      rw [receiptOf_some.mpr ⟨hopen, hcall ▸ hreceipt⟩] at hr
      cases hr

/-- What is recovered was open and has a receipt. -/
theorem reconcileItems_receipts : ∀ {items : List Fields} {terminal : List String},
    ∀ r ∈ (reconcileItems receipt terminal items).2, receipt r.1 = some r.2 ∧
      ∃ item ∈ items, isOpenTodo terminal item = true ∧ callId item = r.1
  | [], _, r, hr => by cases hr
  | item :: items, terminal, r, hr => by
    rw [reconcileItems] at hr
    split at hr
    · next result hsome =>
      obtain ⟨hopen, hreceipt⟩ := receiptOf_some.mp hsome
      rcases List.mem_cons.mp hr with rfl | hr
      · exact ⟨hreceipt, item, List.mem_cons_self, hopen, rfl⟩
      · obtain ⟨hreceipt, x, hx, hopen, hcall⟩ := reconcileItems_receipts r hr
        exact ⟨hreceipt, x, List.mem_cons_of_mem _ hx,
          isOpenTodo_mono (fun y hy => List.mem_cons_of_mem _ hy) hopen, hcall⟩
    · obtain ⟨hreceipt, x, hx, hrest⟩ := reconcileItems_receipts r hr
      exact ⟨hreceipt, x, List.mem_cons_of_mem _ hx, hrest⟩

/-- The type and the call of an Item. -/
def tag (item : Fields) : Option Json × String := (item.get "type", callId item)

theorem reconcileItems_tags : ∀ {items : List Fields} {terminal : List String},
    (reconcileItems receipt terminal items).1.map tag = items.map tag
  | [], _ => rfl
  | item :: items, terminal => by
    rw [reconcileItems]
    split
    · rw [List.map_cons, List.map_cons, reconcileItems_tags, tag, callId_recoveredCall]
      simp [tag, recoveredCall]
    · rw [List.map_cons, List.map_cons, reconcileItems_tags]

/-- The Items of the reconciled Messages. -/
theorem items_reconcileMessages_cons (message : Fields) (messages : List Fields) :
    (reconcileMessages receipt terminal (message :: messages)).1.flatMap messageItems =
      (reconcileItems receipt terminal (messageItems message)).1 ++
        (reconcileItems receipt terminal (messageItems message)).2.map recoveredResult ++
        (reconcileMessages receipt ((reconcileItems receipt terminal (messageItems message)).2.map
          Prod.fst ++ terminal)
          messages).1.flatMap messageItems := by
  rw [reconcileMessages]
  simp only [List.flatMap_cons]
  rw [messageItems_setContent]

theorem reconcileMessages_untouched : ∀ {messages : List Fields} {terminal : List String},
    (∀ item ∈ messages.flatMap messageItems, isOpenTodo terminal item = true →
      callId item = id → receipt id = none) →
      ((reconcileMessages receipt terminal messages).1.flatMap messageItems).filter
        (fun item => callId item = id) =
          (messages.flatMap messageItems).filter fun item => callId item = id
  | [], _, _ => rfl
  | message :: messages, terminal, h => by
    rw [List.flatMap_cons] at h
    obtain ⟨hitems, hrecovered⟩ := reconcileItems_untouched fun x hx =>
      h x (List.mem_append_left _ hx)
    have hlater : ∀ item ∈ messages.flatMap messageItems, isOpenTodo
        ((reconcileItems receipt terminal (messageItems message)).2.map Prod.fst ++ terminal)
          item = true →
        callId item = id → receipt id = none :=
      fun x hx ho => h x (List.mem_append_right _ hx)
        (isOpenTodo_mono (fun y hy => List.mem_append_right _ hy) ho)
    have hresults : ((reconcileItems receipt terminal (messageItems message)).2.map
        recoveredResult).filter
        (fun item => callId item = id) = [] := by
      rw [List.filter_eq_nil_iff]
      intro item hitem
      obtain ⟨r, hr, rfl⟩ := List.mem_map.mp hitem
      rw [callId_recoveredResult, decide_eq_true_eq]
      exact hrecovered r hr
    rw [items_reconcileMessages_cons, List.filter_append, List.filter_append, hitems, hresults,
      reconcileMessages_untouched hlater, List.flatMap_cons, List.filter_append, List.append_nil]

theorem reconcileMessages_recovers (hreceipt : receipt id = some result) :
    ∀ {messages : List Fields} {terminal : List String}, id ∉ terminal →
      (∃ item ∈ messages.flatMap messageItems, isOpenTodo terminal item = true ∧ callId item = id) →
        (id, result) ∈ (reconcileMessages receipt terminal messages).2 ∧
          recoveredResult (id, result) ∈ (reconcileMessages receipt terminal messages).1.flatMap
            messageItems
  | [], _, _, h => by obtain ⟨_, hmem, -⟩ := h; cases hmem
  | message :: messages, terminal, hid, ⟨x, hx, hopen, hcall⟩ => by
    rw [items_reconcileMessages_cons, reconcileMessages]
    by_cases hhere : ∃ r ∈ (reconcileItems receipt terminal (messageItems message)).2, r.1 = id
    · obtain ⟨⟨_, res⟩, hr, rfl⟩ := hhere
      obtain rfl : res = result :=
        Option.some.inj ((reconcileItems_receipts _ hr).1.symm.trans hreceipt)
      exact ⟨List.mem_append_left _ hr,
        List.mem_append_left _ (List.mem_append_right _ (List.mem_map_of_mem hr))⟩
    · -- the call is open in a later Message
      have hlater : x ∈ messages.flatMap messageItems := by
        refine (List.mem_append.mp (List.flatMap_cons ▸ hx)).resolve_left fun hx => hhere ?_
        exact ⟨_, reconcileItems_recovers hreceipt hid ⟨x, hx, hopen, hcall⟩, rfl⟩
      have hid' : id ∉ (reconcileItems receipt terminal (messageItems message)).2.map Prod.fst ++
          terminal := by
        intro hmem
        rcases List.mem_append.mp hmem with hmem | hmem
        · obtain ⟨r, hr, heq⟩ := List.mem_map.mp hmem
          exact hhere ⟨r, hr, heq⟩
        · exact hid hmem
      obtain ⟨hrun, hname, hne, -⟩ := isOpenTodo_iff.mp hopen
      obtain ⟨hrecovered, hresult⟩ := reconcileMessages_recovers hreceipt hid'
        ⟨x, hlater, isOpenTodo_iff.mpr ⟨hrun, hname, hne, hcall.symm ▸ hid'⟩, hcall⟩
      exact ⟨List.mem_append_right _ hrecovered, List.mem_append_right _ hresult⟩

theorem reconcileMessages_open : ∀ {messages : List Fields} {terminal : List String},
    ∀ r ∈ (reconcileMessages receipt terminal messages).2,
      ∃ item ∈ messages.flatMap messageItems, isOpenTodo terminal item = true
  | [], _, r, hr => by cases hr
  | message :: messages, terminal, r, hr => by
    rw [reconcileMessages] at hr
    rw [List.flatMap_cons]
    rcases List.mem_append.mp hr with hr | hr
    · obtain ⟨-, x, hx, hopen, -⟩ := reconcileItems_receipts r hr
      exact ⟨x, List.mem_append_left _ hx, hopen⟩
    · obtain ⟨x, hx, hopen⟩ := reconcileMessages_open r hr
      exact ⟨x, List.mem_append_right _ hx,
        isOpenTodo_mono (fun y hy => List.mem_append_right _ hy) hopen⟩

/-- A call has an Item after the reconciliation if it has one before. -/
theorem isCallOf_reconcileMessages : ∀ {messages : List Fields} {terminal : List String},
    (∃ item ∈ (reconcileMessages receipt terminal messages).1.flatMap messageItems,
      isCallOf id item) ↔
      ∃ item ∈ messages.flatMap messageItems, isCallOf id item
  | [], _ => Iff.rfl
  | message :: messages, terminal => by
    have htag : ∀ l : List Fields, (∃ item ∈ l, isCallOf id item) ↔
        (some (Json.str "tool_call"), id) ∈ l.map tag := by
      intro l
      simp [isCallOf, tag]
    have hresults : ¬ ∃ item ∈ (reconcileItems receipt terminal (messageItems message)).2.map
        recoveredResult,
        isCallOf id item := by
      rintro ⟨item, hitem, htype, -⟩
      obtain ⟨r, -, rfl⟩ := List.mem_map.mp hitem
      exact absurd htype (by simp [recoveredResult, Fields.get])
    rw [items_reconcileMessages_cons, List.flatMap_cons]
    simp only [List.mem_append, or_and_right, exists_or]
    rw [isCallOf_reconcileMessages, htag (reconcileItems _ _ _).1, reconcileItems_tags,
      ← htag, or_iff_left hresults]

end Receipts

/-! ## The repairs return -/

/-- A Turn with a running Item runs. -/
theorem running_of_item {node : ValidTurn host} {item : Fields}
    (hmem : item ∈ (selected node.val).flatMap messageItems)
    (hrun : item.get "status" = some (.str "running")) :
    node.val.status = .running := by
  by_contra hsealed
  have hnone := node.property.settled hsealed
  have hlt := node.property.currentDataIdx
  obtain ⟨message, hmessage, hitem⟩ := List.mem_flatMap.mp hmem
  rw [selected, List.getD_eq_getElem?_getD, List.getElem?_eq_getElem hlt,
    Option.getD_some] at hmessage
  have hsome : hasRunningItem node.val.data = true := by
    rw [hasRunningItem, List.any_eq_true]
    refine ⟨_, List.getElem_mem hlt,
      List.any_eq_true.mpr ⟨message, hmessage, List.any_eq_true.mpr ⟨item, hitem, ?_⟩⟩⟩
    rw [hrun]
    rfl
  rw [hnone] at hsome
  cases hsome

section Versions

variable {receipt : String → Option String}

theorem checkItem_recoveredResult {r : String × String} (h : r.1 ≠ "") :
    checkItem (recoveredResult r) = .ok () := by
  exact checkItem_toolResult rfl rfl (by decide) rfl h

theorem reconcileItems_check : ∀ {items : List Fields} {terminal : List String},
    (∀ item ∈ items, checkItem item = .ok ()) →
      ∀ item ∈ (reconcileItems receipt terminal items).1, checkItem item = .ok ()
  | [], _, _ => nofun
  | item :: items, terminal, h => by
    have hrest := fun x hx => h x (List.mem_cons_of_mem item hx)
    rw [reconcileItems]
    split
    · intro x hx
      rcases List.mem_cons.mp hx with rfl | hx
      · exact checkItem_setReplaySafe (checkItem_setStatus (h item List.mem_cons_self) (by decide))
      · exact reconcileItems_check hrest x hx
    · intro x hx
      rcases List.mem_cons.mp hx with rfl | hx
      · exact h x List.mem_cons_self
      · exact reconcileItems_check hrest x hx

/-- A user Message has no call. -/
theorem reconcileItems_user {items : List Fields} {terminal : List String}
    (h : items.length = 1 ∧ userItemOk items = true) :
    reconcileItems receipt terminal items = (items, []) := by
  obtain ⟨item, rfl⟩ := List.length_eq_one_iff.mp h.1
  have htype : item.get "type" = some (.str "text") := by
    have := h.2
    simp only [userItemOk, Bool.and_eq_true, beq_iff_eq] at this
    exact this.1
  have hnone : receiptOf receipt terminal item = none := by
    simp [receiptOf, isOpenTodo, htype]
  simp [reconcileItems, hnone]

theorem accepted_reconcileMessages :
    ∀ {messages : List Fields} {terminal : List String} {prev : Option String},
    Accepted prev messages → Accepted prev (reconcileMessages receipt terminal messages).1
  | [], _, _, _ => trivial
  | message :: messages, terminal, prev, ⟨role, items, hm, hprev, hrest⟩ => by
    rw [reconcileMessages]
    refine ⟨role, _, hm.withContent ?_ ?_, hprev, accepted_reconcileMessages hrest⟩
    · rw [hm.items_eq]
      intro item hitem
      rcases List.mem_append.mp hitem with hitem | hitem
      · exact reconcileItems_check hm.items_ok item hitem
      · obtain ⟨r, hr, rfl⟩ := List.mem_map.mp hitem
        obtain ⟨-, x, -, hopen, hcall⟩ := reconcileItems_receipts r hr
        exact checkItem_recoveredResult (hcall ▸ (isOpenTodo_iff.mp hopen).2.2.1)
    · intro hu
      rw [hm.items_eq, reconcileItems_user (hm.user hu)]
      simpa using hm.user hu

theorem versionOk_reconcileMessages {messages : List Fields} {terminal : List String}
    (h : VersionOk messages) :
    VersionOk (reconcileMessages receipt terminal messages).1 := by
  rcases messages with _ | ⟨first, rest⟩
  · exact absurd rfl h.ne_nil
  · refine ⟨by simp [reconcileMessages], accepted_reconcileMessages h.accepted, fun m hm => ?_⟩
    rw [reconcileMessages] at hm
    cases hm
    simpa using h.first_user first rfl

/-- What `settle_indeterminate_tool_calls` makes of an Item. -/
def failItem (results : List String) (item : Fields) : Fields :=
  if isUncertain results item then (item.set "status" (.str "failed")).set
    "replay_safe" (.bool false) else item

theorem map_failCall (results : List String) (items : List Fields) :
    (items.map Json.obj).map (failCall results) = (items.map (failItem results)).map Json.obj := by
  rw [List.map_map, List.map_map]
  refine List.map_congr_left fun item _ => ?_
  simp only [Function.comp, failCall, failItem]
  split <;> rfl

theorem amends_failCall (results : List String) (message : Fields) :
    Amends (editContent (List.map (failCall results))) message := by
  intro role items hm
  have hedit : editContent (List.map (failCall results)) message =
      message.set "content" (itemsJson (items.map (failItem results))) := by
    rw [editContent, hm.content_eq]
    simp only [itemsJson, map_failCall]
  refine ⟨items.map (failItem results), hedit ▸ hm.withContent (fun item hitem => ?_) fun hu => ?_⟩
  · obtain ⟨x, hx, rfl⟩ := List.mem_map.mp hitem
    rw [failItem]
    split
    · exact checkItem_setReplaySafe (checkItem_setStatus (hm.items_ok x hx) (by decide))
    · exact hm.items_ok x hx
  · obtain ⟨hlen, huser⟩ := hm.user hu
    obtain ⟨item, rfl⟩ := List.length_eq_one_iff.mp hlen
    have htype : item.get "type" = some (.str "text") := by
      simp only [userItemOk, Bool.and_eq_true, beq_iff_eq] at huser
      exact huser.1
    have hsame : failItem results item = item := by simp [failItem, isUncertain, htype]
    simpa [hsame] using huser

theorem amends_appendItems {more : List Fields} (hmore : ∀ item ∈ more, checkItem item = .ok ())
    {message : Fields} (hrole : message.get "role" = some (.str "assistant")) :
    Amends (editContent (· ++ more.map Json.obj)) message := by
  intro role items hm
  have hedit : editContent (· ++ more.map Json.obj) message =
      message.set "content" (itemsJson (items ++ more)) := by
    rw [editContent, hm.content_eq]
    simp only [itemsJson, List.map_append]
  refine ⟨items ++ more, hedit ▸ hm.withContent (fun item hitem => ?_) fun hu => ?_⟩
  · exact (List.mem_append.mp hitem).elim (hm.items_ok item) (hmore item)
  · subst hu
    exact absurd (hrole.symm.trans hm.role_eq) (by simp)

theorem emptyAssistant_ok :
    MessageOk [("role", .str "assistant"), ("content", .arr [])] "assistant" [] where
  role_eq := rfl
  role_mem := by decide
  content_eq := rfl
  items_ok := nofun
  user h := absurd h (by decide)

/-- A version ends with an assistant Message. -/
theorem withAssistant_ok {version : List Fields} (h : VersionOk version) :
    ∃ init last, withAssistant version = init ++ [last] ∧
      last.get "role" = some (.str "assistant") ∧
      VersionOk (init ++ [last]) := by
  obtain ⟨init, last, rfl⟩ := (List.eq_nil_or_concat version).resolve_left h.ne_nil
  rw [List.concat_eq_append] at h ⊢
  rw [withAssistant, List.getLast?_concat]
  by_cases hlast : isAssistant last = true
  · refine ⟨init, last, by simp [hlast], by simpa [isAssistant] using hlast, h⟩
  · exact ⟨init ++ [last], _, by simp [hlast], rfl, h.append emptyAssistant_ok fun hu =>
      absurd hu (by decide)⟩

theorem editLast_concat (f : List Json → List Json) (init : List Fields) (last : Fields) :
    editLast f (init ++ [last]) = (init ++ [last]).modify init.length (editContent f) := by
  rw [editLast, List.reverse_append, List.reverse_singleton, List.singleton_append,
    List.modify_zero_cons,
    List.reverse_cons, List.reverse_reverse]
  induction init with
  | nil => rfl
  | cons a init ih => simpa using ih

theorem map_indeterminateResult (l : List Fields) : l.map indeterminateResult =
    (l.map fun item => (match indeterminateResult item with | .obj f => f | _ => [])).map
      Json.obj := by
  rw [List.map_map]
  rfl

theorem versionOk_settledVersion {messages version : List Fields} (h : VersionOk messages)
    (hs : settledVersion messages = some version) : VersionOk version := by
  simp only [settledVersion] at hs
  split at hs
  · cases hs
  · cases hs
    obtain ⟨init, last, heq, hlast, hok⟩ := withAssistant_ok
      (h.map fun message _ => amends_failCall (terminalResults messages) message)
    rw [heq, editLast_concat]
    refine hok.modify fun message hmessage => ?_
    obtain rfl : message = last := by simpa using hmessage.symm
    rw [map_indeterminateResult]
    refine amends_appendItems (fun item hitem => ?_) hlast
    obtain ⟨x, hx, rfl⟩ := List.mem_map.mp hitem
    obtain ⟨-, huncertain⟩ := List.mem_filter.mp hx
    simp only [isUncertain, decide_eq_true_eq] at huncertain
    exact checkItem_toolResult rfl rfl (by decide) rfl huncertain.2.2.1

end Versions

/-! ## The recovery steps -/

theorem reconcileTodoReceipts_none {d : Durable host} {node : ValidTurn host}
    (h : (reconcileMessages d.receipt (resultIds (selected node.val)) (selected node.val)).2 = []) :
    reconcileTodoReceipts d node = .ok (node, d) := by
  simp [reconcileTodoReceipts, h]

/-- A Turn with an open Todo call runs, so it can be repaired. -/
theorem reconcileTodoReceipts_some {d : Durable host} {node : ValidTurn host}
    (h : (reconcileMessages d.receipt (resultIds (selected node.val)) (selected node.val)).2 ≠ []) :
    ∃ repaired d', reconcileTodoReceipts d node = .ok (repaired, d') ∧ d'.turn = some repaired ∧
      selected repaired.val = (reconcileMessages d.receipt (resultIds (selected node.val))
        (selected node.val)).1 := by
  have hrunning : node.val.status = .running := by
    obtain ⟨r, hr⟩ := List.exists_mem_of_ne_nil _ h
    obtain ⟨item, hitem, hopen⟩ := reconcileMessages_open r hr
    exact running_of_item hitem (isOpenTodo_iff.mp hopen).1.2
  have hversion : VersionOk (reconcileMessages d.receipt (resultIds (selected node.val))
      (selected node.val)).1 :=
    versionOk_reconcileMessages (selected_versionOk node)
  have hwf := withSelected_wf hversion hrunning
  let recovered := (reconcileMessages d.receipt (resultIds (selected node.val))
    (selected node.val)).2
  refine ⟨⟨_, hwf⟩, { d with turn := some ⟨_, hwf⟩, runtime := d.runtime.succeed recovered },
    ?_, rfl, selected_withSelected⟩
  simp only [reconcileTodoReceipts, List.isEmpty_iff, h, if_false, rebuild_of_wf hwf]
  rfl

theorem settle_returns (d : Durable host) : ∃ d', settle d = .ok d' := by
  rcases hturn : d.turn with _ | node
  · exact ⟨d, by simp [settle, hturn]⟩
  · rcases hs : settledVersion (selected node.val) with _ | version
    · exact ⟨d, by simp [settle, hturn, hs]⟩
    · have hrunning : node.val.status = .running := by
        simp only [settledVersion] at hs
        split at hs
        · cases hs
        · next hsome =>
          obtain ⟨item, hitem⟩ := List.exists_mem_of_ne_nil _ (mt List.isEmpty_iff.mpr hsome)
          obtain ⟨hmem, huncertain⟩ := List.mem_filter.mp hitem
          simp only [isUncertain, decide_eq_true_eq] at huncertain
          exact running_of_item hmem huncertain.2.1
      have hwf := withSelected_wf (versionOk_settledVersion (selected_versionOk node) hs) hrunning
      refine ⟨{ d with turn := some ⟨_, hwf⟩ }, ?_⟩
      simp only [settle, hturn, hs, rebuild_of_wf hwf]
      rfl

/-- The recovery steps return, and the next attempt is made from the runtime before the repairs. -/
theorem resumeSession_returns (now runId : String) (d : Durable host) {run : RunState}
    (hrun : d.runtime.currentRun = some run) (hstatus : run.status = .running) :
    ∃ d' source resumed, resumeSession now runId d = .ok (d', resumed) ∧ d'.runtime = resumed ∧
      reconstructAttempt now runId d.runtime (reconciledTurn d) = .ok (source, resumed) := by
  have hattempt : ∀ turn : Option (ValidTurn host), ∃ p, reconstructAttempt
      now runId d.runtime turn = .ok p := by
    intro turn
    simp only [reconstructAttempt, hrun, hstatus, reduceCtorEq, if_false]
    split
    · exact ⟨_, rfl⟩
    · exact ⟨_, rfl⟩
  obtain ⟨⟨source, resumed⟩, hp⟩ := hattempt (reconciledTurn d)
  rcases hturn : d.turn with _ | node
  · obtain ⟨d', hd'⟩ := settle_returns d
    have hnone : reconciledTurn d = none := by simp [reconciledTurn, hturn]
    rw [hnone] at hp
    refine ⟨{ d' with runtime := resumed }, source, resumed, ?_, rfl, hnone ▸ hp⟩
    simp only [resumeSession, hturn, pure_bind, hd', ok_bind, hp]
    rfl
  · obtain ⟨⟨node', d₁⟩, hreconcile⟩ : ∃ p, reconcileTodoReceipts d node = .ok p := by
      by_cases h : (reconcileMessages d.receipt (resultIds (selected node.val))
        (selected node.val)).2 = []
      · exact ⟨_, reconcileTodoReceipts_none h⟩
      · obtain ⟨repaired, d', hok, -⟩ := reconcileTodoReceipts_some h
        exact ⟨_, hok⟩
    have hsome : reconciledTurn d = some node' := by
      simp [reconciledTurn, hturn, hreconcile, Except.toOption]
    obtain ⟨d', hd'⟩ := settle_returns d₁
    rw [hsome] at hp
    refine ⟨{ d' with runtime := resumed }, source, resumed, ?_, rfl, hsome ▸ hp⟩
    simp only [resumeSession, hturn, hreconcile, ok_bind, pure_bind, hd', hp]
    rfl

/-! ## Outcomes -/

section Calls

variable {items : List Fields} {id : String}

/-- The call has not begun, or has begun and not ended, as far as the Items tell. -/
def OpenIn (items : List Fields) (id : String) : Prop :=
  ((∀ item ∈ items, ¬ isCallOf id item) ∧ ∀ item ∈ items, isTerminal id item →
    readsUnexecuted item) ∨
    ((∃ item ∈ items, isRunningCall id item) ∧ ∀ item ∈ items, ¬ isTerminal id item)

theorem mem_terminalResults {messages : List Fields} :
    id ∈ terminalResults messages ↔ ∃ item ∈ messages.flatMap messageItems, isTerminal id item := by
  simp only [terminalResults, List.mem_map, List.mem_filter, decide_eq_true_eq, isTerminal]
  constructor
  · rintro ⟨item, ⟨hmem, htype, hstatus⟩, hid⟩
    exact ⟨item, hmem, htype, hstatus, hid⟩
  · rintro ⟨item, hmem, htype, hstatus, hid⟩
    exact ⟨item, ⟨hmem, htype, hstatus⟩, hid⟩

theorem mem_indeterminateCallIds {turn : Option (ValidTurn host)} (hid : id ≠ "") :
    id ∈ indeterminateCallIds turn ↔
      (∃ item ∈ turnItems turn, isRunningCall id item) ∧
        ∀ item ∈ turnItems turn, ¬ isTerminal id item := by
  rcases turn with _ | node
  · simp [indeterminateCallIds, turnItems]
  · simp only [indeterminateCallIds, List.mem_mergeSort, List.mem_dedup,
      List.mem_map, List.mem_filter, isUncertain,
      decide_eq_true_eq, mem_terminalResults, turnItems, isRunningCall, isCallOf]
    constructor
    · rintro ⟨item, ⟨hmem, htype, hstatus, -, hnot⟩, rfl⟩
      exact ⟨⟨item, hmem, ⟨htype, rfl⟩, hstatus⟩, fun x hx hterminal => hnot ⟨x, hx, hterminal⟩⟩
    · rintro ⟨⟨item, hmem, ⟨htype, rfl⟩, hstatus⟩, hnot⟩
      refine ⟨item, ⟨hmem, htype, hstatus, hid, ?_⟩, rfl⟩
      rintro ⟨x, hx, hterminal⟩
      exact hnot x hx hterminal

/-- What `reconstruct_attempt` makes of a call is right if the call is completed or open. -/
theorem outcome_closeTool {turn : Option (ValidTurn host)} (t : ToolMessage) :
    Outcome (turnItems turn) t (closeTool (indeterminateCallIds turn) t) ↔
      (t.status = .pending → OpenIn (turnItems turn) t.callId) := by
  by_cases hpending : t.status = .pending
  · by_cases hmem : t.callId ∈ indeterminateCallIds turn
    · obtain ⟨hbegun, hnot⟩ := (mem_indeterminateCallIds t.callId_ne).mp hmem
      have hclose : closeTool (indeterminateCallIds turn) t =
          t.record .indeterminate indeterminateText t.retryable := by
        simp [closeTool, hpending, hmem]
      refine iff_of_true ?_ fun _ => .inr ⟨hbegun, hnot⟩
      rw [hclose]
      exact
        { callId := rfl
          closed := by simp [ToolMessage.record]
          completed := fun h => absurd hpending h
          finished := fun _ item hitem hterminal => absurd hterminal (hnot item hitem)
          begun := fun _ _ _ => rfl
          unexecuted := fun _ h => absurd (Option.some.inj h) (by decide) }
    · have hclose : closeTool (indeterminateCallIds turn) t =
          t.record .failed notExecutedText (some false) := by
        simp [closeTool, hpending, hmem]
      rw [hclose]
      rw [mem_indeterminateCallIds t.callId_ne] at hmem
      constructor
      · intro h _
        refine .inl ⟨h.unexecuted hpending rfl, fun item hitem hterminal => ?_⟩
        obtain ⟨⟨-, hstatus⟩ | ⟨hstatus, -⟩, hcontent⟩ := h.finished hpending item hitem hterminal
        · cases hstatus
        · exact ⟨hstatus, hcontent⟩
      · intro h
        obtain ⟨hnone, hreads⟩ := (h hpending).resolve_right hmem
        exact
          { callId := rfl
            closed := by simp [ToolMessage.record]
            completed := fun h => absurd hpending h
            finished := fun _ item hitem hterminal =>
              ⟨.inr ⟨(hreads item hitem hterminal).1, rfl⟩, (hreads item hitem hterminal).2⟩
            begun := fun _ hnot hbegun => absurd ⟨hbegun, hnot⟩ hmem
            unexecuted := fun _ _ => hnone }
  · have hclose : closeTool (indeterminateCallIds turn) t = t := by simp [closeTool, hpending]
    rw [hclose]
    exact iff_of_true
      { callId := rfl
        closed := hpending
        completed := fun _ => rfl
        finished := fun h => absurd h hpending
        begun := fun h => absurd h hpending
        unexecuted := fun h => absurd h hpending } fun h => absurd h hpending

/-- The Items of a call say all there is to say of it. -/
theorem openIn_congr {items' : List Fields}
    (h : items.filter (fun item => callId item = id) = items'.filter fun item => callId item = id) :
    OpenIn items id ↔ OpenIn items' id := by
  have hmem : ∀ item, callId item = id → (item ∈ items ↔ item ∈ items') := by
    intro item hid
    have := congrArg (item ∈ ·) h
    simpa [List.mem_filter, hid] using this
  have hcall : ∀ item, isCallOf id item → (item ∈ items ↔ item ∈ items') :=
    fun item hc => hmem item hc.2
  have hterminal : ∀ item, isTerminal id item → (item ∈ items ↔ item ∈ items') :=
    fun item ht => hmem item ht.2.2
  have hrunning : ∀ item, isRunningCall id item → (item ∈ items ↔ item ∈ items') :=
    fun item hr => hcall item hr.1
  unfold OpenIn
  refine or_congr (and_congr ?_ ?_) (and_congr ?_ ?_)
  · exact forall_congr' fun item => ⟨fun h hi hc => h ((hcall item hc).mpr hi) hc,
      fun h hi hc => h ((hcall item hc).mp hi) hc⟩
  · exact forall_congr' fun item => ⟨fun h hi ht => h ((hterminal item ht).mpr hi) ht,
      fun h hi ht => h ((hterminal item ht).mp hi) ht⟩
  · exact exists_congr fun item => ⟨fun ⟨hi, hr⟩ => ⟨(hrunning item hr).mp hi, hr⟩,
      fun ⟨hi, hr⟩ => ⟨(hrunning item hr).mpr hi, hr⟩⟩
  · exact forall_congr' fun item => ⟨fun h hi ht => h ((hterminal item ht).mpr hi) ht,
      fun h hi ht => h ((hterminal item ht).mp hi) ht⟩

/-- Without a receipt of its own a call is open as the Items say. -/
theorem open_of_not_receipted {receipt : String → Option String} {messages : List Fields}
    (h : ¬ Receipted receipt messages id) :
    Open receipt messages id ↔ OpenIn (messages.flatMap messageItems) id := by
  simp only [Open, OpenIn, h, not_false_eq_true, and_true]

/-- A call with a receipt has ended. -/
theorem not_open_of_receipted {receipt : String → Option String} {messages : List Fields}
    (h : Receipted receipt messages id) : ¬ Open receipt messages id := by
  rintro (⟨hnone, -⟩ | ⟨-, -, hnot⟩)
  · obtain ⟨-, item, hitem, hopen, hid⟩ := h
    exact hnone item hitem (hid ▸ (isOpenTodo_iff.mp hopen).1.1)
  · exact hnot h

theorem receipted_recovers {receipt : String → Option String} {messages : List Fields}
    (h : Receipted receipt messages id) : ∃ result,
      (id, result) ∈ (reconcileMessages receipt (resultIds messages) messages).2 ∧
        recoveredResult (id, result) ∈
          (reconcileMessages receipt (resultIds messages) messages).1.flatMap messageItems := by
  obtain ⟨hsome, item, hitem, hopen, hid⟩ := h
  obtain ⟨result, hresult⟩ := Option.isSome_iff_exists.mp hsome
  exact ⟨result, reconcileMessages_recovers hresult (hid ▸ (isOpenTodo_iff.mp hopen).2.2.2)
    ⟨item, hitem, hopen, hid⟩⟩

/-- A call is open after the reconciliation if it is open before. -/
theorem open_iff (d : Durable host) :
    Open d.receipt ((d.turn.map fun node => selected node.val).getD []) id ↔
      OpenIn (turnItems (reconciledTurn d)) id := by
  rcases hturn : d.turn with _ | node
  · simp [Open, OpenIn, reconciledTurn, hturn, turnItems]
  simp only [Option.map_some, Option.getD_some]
  by_cases hnone : (reconcileMessages d.receipt (resultIds (selected node.val))
    (selected node.val)).2 = []
  · have hitems : turnItems (reconciledTurn d) = (selected node.val).flatMap messageItems := by
      simp [reconciledTurn, hturn, reconcileTodoReceipts_none hnone, Except.toOption, turnItems]
    rw [hitems]
    refine open_of_not_receipted fun h => ?_
    obtain ⟨result, hmem, -⟩ := receipted_recovers h
    rw [hnone] at hmem
    cases hmem
  · obtain ⟨repaired, d', hok, -, hselected⟩ := reconcileTodoReceipts_some hnone
    have hitems : turnItems (reconciledTurn d) =
        (reconcileMessages d.receipt (resultIds (selected node.val)) (selected node.val)).1.flatMap
          messageItems := by
      simp only [reconciledTurn, hturn, Option.bind_some, hok, Except.toOption,
        Option.map_some, turnItems, hselected]
    rw [hitems]
    by_cases hreceipted : Receipted d.receipt (selected node.val) id
    · -- the recovered call has an Item and a result
      refine iff_of_false (not_open_of_receipted hreceipted) ?_
      obtain ⟨result, -, hresult⟩ := receipted_recovers hreceipted
      obtain ⟨-, item, hitem, hopen, hid⟩ := hreceipted
      rintro (⟨hnone, -⟩ | ⟨-, hnot⟩)
      · obtain ⟨x, hx, hcall⟩ :=
          isCallOf_reconcileMessages.mpr ⟨item, hitem, hid ▸ (isOpenTodo_iff.mp hopen).1.1⟩
        exact hnone x hx hcall
      · exact hnot _ hresult ⟨rfl, .inl rfl, rfl⟩
    · rw [open_of_not_receipted hreceipted]
      refine openIn_congr (Eq.symm (reconcileMessages_untouched fun item hitem hopen hid => ?_))
      by_contra hsome
      exact hreceipted ⟨Option.isSome_iff_ne_none.mpr hsome, item, hitem, hopen, hid⟩

end Calls

/-! ## Runs of the executor -/

/-- The calls of the active message. -/
def Runtime.activeIds (r : Runtime) : List String :=
  match r.activeMessage with
  | some m => m.toolMessages.map ToolMessage.callId
  | none => []

/-- The pending calls of a runtime are those of its active message. -/
structure Tidy (r : Runtime) : Prop where
  run : ∃ run, r.currentRun = some run ∧ run.status = .running ∧
    ∀ t ∈ run.actions, t.status = .pending → t.callId ∈ r.activeIds
  messages : ∀ m ∈ r.messages, ∀ t ∈ m.tools, t.status ≠ .pending
  new : ∀ active ∈ r.activeMessage, ∀ m ∈ r.messages,
    m.tools.map ToolMessage.callId ≠ active.toolMessages.map ToolMessage.callId

theorem callId_closeTool (indeterminate : List String) (t : ToolMessage) :
    (closeTool indeterminate t).callId = t.callId := by
  unfold closeTool
  split
  · rfl
  · split <;> rfl

theorem closeTool_closed (indeterminate : List String) (t : ToolMessage) :
    (closeTool indeterminate t).status ≠ .pending := by
  unfold closeTool
  split
  · assumption
  · split <;> simp [ToolMessage.record]

/-- An action of the next attempt is closed as the call it follows. -/
theorem follow_closed {tools : List ToolMessage} (htools : ∀ t ∈ tools, t.status ≠ .pending)
    {t : ToolMessage} (ht : t.status = .pending → t.callId ∈ tools.map ToolMessage.callId) :
    (follow tools t).status ≠ .pending := by
  unfold follow
  split
  · next source h => exact htools source (List.mem_reverse.mp (List.mem_of_find?_eq_some h))
  · next h =>
    intro hpending
    obtain ⟨source, hsource, hid⟩ := List.mem_map.mp (ht hpending)
    exact List.find?_eq_none.mp h source (List.mem_reverse.mpr hsource) (by simpa using hid)

/-- **Recovery.** The recovery steps keep their promise exactly when the pending calls are open. -/
theorem recovered_iff {now runId : String} {d : Durable host} (h : Tidy d.runtime)
    {source resumed : Runtime}
    (hattempt : reconstructAttempt now runId d.runtime (reconciledTurn d) = .ok (source, resumed)) :
    Recovered d resumed ↔ PendingOpen d := by
  obtain ⟨run, hrun, hstatus, hactions⟩ := h.run
  simp only [reconstructAttempt, hrun, hstatus, reduceCtorEq, if_false] at hattempt
  rcases hactive : d.runtime.activeMessage with _ | active
  · simp only [hactive, Except.ok.injEq, Prod.mk.injEq] at hattempt
    obtain ⟨-, rfl⟩ := hattempt
    refine iff_of_true ?_ (by simp [PendingOpen, hactive])
    exact
      { inactive := rfl
        messages := h.messages
        actions := fun run' hrun' t ht hpending => by
          cases hrun'
          have hmem := hactions t ht hpending
          simp [Runtime.activeIds, hactive] at hmem
        calls := fun active' h' => by rw [hactive] at h'; cases h' }
  · simp only [hactive, Except.ok.injEq, Prod.mk.injEq] at hattempt
    obtain ⟨-, rfl⟩ := hattempt
    let indeterminate := indeterminateCallIds (reconciledTurn d)
    have hcalls : (AssistantMessage.close indeterminate active).toolMessages.map
        ToolMessage.callId =
        active.toolMessages.map ToolMessage.callId := by
      rw [AssistantMessage.close, List.map_map]
      exact List.map_congr_left fun t _ => callId_closeTool indeterminate t
    have hclosed : ∀ t ∈ (AssistantMessage.close indeterminate active).toolMessages, t.status ≠
        .pending := by
      intro t ht
      obtain ⟨u, -, rfl⟩ := List.mem_map.mp ht
      exact closeTool_closed indeterminate u
    have hnew : ChatMessage.assistant (AssistantMessage.close indeterminate active) ∉
        d.runtime.messages :=
      fun hmem => h.new active hactive _ hmem hcalls
    have houtcomes : List.Forall₂ (Outcome (turnItems (reconciledTurn d))) active.toolMessages
        (AssistantMessage.close indeterminate active).toolMessages ↔ PendingOpen d := by
      rw [AssistantMessage.close, List.forall₂_map_right_iff, List.forall₂_same]
      simp only [PendingOpen, hactive, Option.mem_some_iff, forall_eq', open_iff]
      exact forall_congr' fun t => forall_congr' fun _ => outcome_closeTool t
    rw [← houtcomes]
    constructor
    · intro hrecovered
      obtain ⟨m, hm, hforall⟩ := hrecovered.calls active hactive
      rw [if_neg hnew] at hm
      cases List.append_cancel_left hm
      exact hforall
    · intro hforall
      refine ⟨rfl, fun m hm t ht => ?_, fun run' hrun' t ht => ?_, fun active' hactive' => ?_⟩
      · rw [if_neg hnew] at hm
        rcases List.mem_append.mp hm with hm | hm
        · exact h.messages m hm t ht
        · cases List.mem_singleton.mp hm
          exact hclosed t ht
      · cases hrun'
        obtain ⟨u, hu, rfl⟩ := List.mem_map.mp ht
        refine follow_closed hclosed fun hpending => ?_
        have hmem := hactions u hu hpending
        rw [Runtime.activeIds, hactive] at hmem
        rwa [hcalls]
      · obtain rfl : active = active' := Option.some.inj (hactive.symm.trans hactive')
        exact ⟨_, if_neg hnew, hforall⟩

/-- The call that the executor is at. -/
def Phase.tool : Phase → Option ToolMessage
  | .checking tool | .calling tool _ | .returned tool _ | .publishing tool _ _ => some tool
  | .idle => none

namespace Executor

structure Inv (s : Executor host) : Prop where
  saved : Tidy s.durable.runtime
  live : Tidy s.live
  /-- the call is the active one -/
  active : ∀ tool ∈ s.phase.tool, s.live.activeMessage.isSome →
    s.live.activeIds[s.live.activeToolIndex.getD 0]? = some tool.callId

variable {s t : Executor host}

theorem Started.inv (h : s.Started) : Inv s := by
  obtain ⟨run, hrun, hstatus, hactions⟩ := h.run
  have hlive : Tidy s.live :=
    ⟨⟨run, hrun, hstatus, fun t ht hpending => absurd hpending (hactions t ht)⟩, h.messages, h.new⟩
  refine ⟨h.saved ▸ hlive, hlive, fun tool htool => ?_⟩
  rw [h.idle] at htool
  cases htool

/-! ### Writes -/

theorem tidy_setCheckpoint {r : Runtime} (h : Tidy r) (c : RecoveryCheckpoint) :
    Tidy (r.setCheckpoint c) := by
  obtain ⟨run, hrun, hstatus, hactions⟩ := h.run
  exact ⟨⟨{ run with checkpoint := some c }, by simp [Runtime.setCheckpoint, hrun],
    hstatus, hactions⟩,
    h.messages, h.new⟩

theorem Inv.save (h : Inv s) : Inv s.save := ⟨h.live, h.live, h.active⟩

theorem Inv.checkpoint (h : Inv s) (c : RecoveryCheckpoint) : Inv (s.checkpoint c) :=
  Inv.save ⟨h.saved, tidy_setCheckpoint h.live c, h.active⟩

/-- The bridge leaves the runtime as it is. -/
theorem Inv.publish (h : Inv s) {f : List Fields → List Fields} (hp : s.publish f = some t) :
    Inv t := by
  unfold Executor.publish at hp
  split at hp
  · cases hp
    exact h
  · split at hp
    · cases hp
      exact ⟨h.saved, h.live, h.active⟩
    · cases hp

theorem Inv.perform (h : Inv s) {now : String} {messageIdx : Nat} {write : Write}
    (hp : s.perform now messageIdx write = some t) : Inv t := by
  cases write with
  | checkpoint reason callId =>
    cases hp
    exact h.checkpoint _
  | call tool => exact h.publish hp
  | mark tool r => exact h.publish hp
  | result tool r => exact h.publish hp
  | save =>
    cases hp
    exact h.save

/-! ### Steps -/

/-- The executor goes on with the call it is at. -/
theorem Inv.proceed (h : Inv s) {durable : Durable host} {phase : Phase}
    (hruntime : durable.runtime = s.durable.runtime) (htool : phase.tool = s.phase.tool) :
    Inv { s with durable, phase } :=
  ⟨hruntime ▸ h.saved, h.live, htool ▸ h.active⟩

/-- The next call is pending, and is one of the active message. -/
theorem Inv.start (h : Inv s) {m : AssistantMessage} {i : Nat} {tool : ToolMessage}
    (hactive : s.live.activeMessage = some m) (hi : m.toolMessages[i]? = some tool) :
    Inv (s.start i tool) where
  saved := h.saved
  live := by
    obtain ⟨run, hrun, hstatus, hactions⟩ := h.live.run
    refine ⟨⟨{ run with actions := run.actions ++ [tool] }, by
      simp [Executor.start, Runtime.setActions, hrun],
      hstatus, fun t ht hpending => ?_⟩, h.live.messages, h.live.new⟩
    have hids : (s.start i tool).live.activeIds = s.live.activeIds := rfl
    rw [hids]
    rcases List.mem_append.mp ht with ht | ht
    · exact hactions t ht hpending
    · cases List.mem_singleton.mp ht
      simpa [Runtime.activeIds, hactive] using ⟨tool, List.mem_of_getElem? hi, rfl⟩
  active tool' htool _ := by
    cases htool
    simpa [Executor.start, Runtime.setActions, Runtime.activeIds, hactive] using ⟨tool, hi, rfl⟩

theorem complete_closed (r : Returned) (tool : ToolMessage) (retryable : Option Bool) :
    (r.complete tool retryable).status ≠ .pending ∧ (r.complete tool retryable).callId =
      tool.callId := by
  unfold Returned.complete
  split <;> simp [ToolMessage.record]

/-- The result changes no id. -/
theorem assignResult_activeIds {tool : ToolMessage} (r : Returned) (retryable : Option Bool)
    (hactive : s.live.activeMessage.isSome → s.live.activeIds[s.live.activeToolIndex.getD 0]? =
      some tool.callId) :
    (s.assignResult tool r retryable).activeIds = s.live.activeIds := by
  unfold Runtime.activeIds at hactive ⊢
  cases hm : s.live.activeMessage with
  | none => simp [assignResult, Runtime.setActions, hm]
  | some m =>
    rw [hm] at hactive
    obtain ⟨hlt, hget⟩ := List.getElem?_eq_some_iff.mp (hactive rfl)
    simp only [assignResult, Runtime.setActions, hm, Option.map_some]
    rw [List.map_set, (complete_closed r tool retryable).2, ← hget, List.set_getElem_self]

theorem Inv.assignResult (h : Inv s) {tool : ToolMessage} (htool : s.phase.tool = some tool)
    (r : Returned) (retryable : Option Bool) : Tidy (s.assignResult tool r retryable) := by
  have hids := assignResult_activeIds r retryable (h.active tool htool)
  obtain ⟨run, hrun, hstatus, hactions⟩ := h.live.run
  refine ⟨⟨{ run with actions := run.actions.dropLast ++ [r.complete tool retryable] },
    by simp [Executor.assignResult, Runtime.setActions, hrun], hstatus, fun t ht hpending => ?_⟩,
      h.live.messages,
    fun active hactive m hm => ?_⟩
  · rw [hids]
    rcases List.mem_append.mp ht with ht | ht
    · exact hactions t (List.mem_of_mem_dropLast ht) hpending
    · cases List.mem_singleton.mp ht
      exact absurd hpending (complete_closed r tool retryable).1
  · obtain ⟨before, hbefore, rfl⟩ := Option.mem_map.mp hactive
    have hsame : (before.toolMessages.set (s.live.activeToolIndex.getD 0)
        (r.complete tool retryable)).map
        ToolMessage.callId = before.toolMessages.map ToolMessage.callId := by
      have hbefore : s.live.activeMessage = some before := hbefore
      simpa [Runtime.activeIds, Executor.assignResult, Runtime.setActions, hbefore] using hids
    rw [hsame]
    exact h.live.new before hbefore m hm

theorem Inv.record (h : Inv s) {tool : ToolMessage} (htool : s.phase.tool = some tool)
    (r : Returned) (retryable : Option Bool) (todo : List Write) :
    Inv { s with live := s.assignResult tool r retryable, phase := .publishing tool r todo } where
  saved := h.saved
  live := h.assignResult htool r retryable
  active tool' htool' hsome := by
    cases htool'
    have hbefore := h.active tool htool
      (by simpa [Executor.assignResult, Runtime.setActions] using hsome)
    have hids := assignResult_activeIds r retryable (h.active tool htool)
    exact hids ▸ hbefore

theorem Inv.step (h : Inv s) {a : ExecutorStep} (hstep : s.step a = some t) : Inv t := by
  cases a with
  | start =>
    simp only [Executor.step] at hstep
    split at hstep
    · next m _ hactive =>
      obtain ⟨tool, hi, rfl⟩ := Option.map_eq_some_iff.mp hstep
      exact h.start hactive hi
    · next m _ hactive =>
      obtain ⟨tool, hi, rfl⟩ := Option.map_eq_some_iff.mp hstep
      exact h.start hactive hi
    · cases hstep
  | checkpoint c =>
    simp only [Executor.step] at hstep
    split at hstep
    · cases hstep
      exact h.checkpoint c
    · cases hstep
      exact h.checkpoint c
    · cases hstep
  | refuse text failureCode =>
    simp only [Executor.step] at hstep
    split at hstep
    · next tool hphase =>
      cases hstep
      exact h.proceed rfl (by rw [hphase]; rfl)
    · cases hstep
  | call =>
    simp only [Executor.step] at hstep
    split at hstep
    · next tool hphase =>
      cases hstep
      exact h.proceed rfl (by rw [hphase]; rfl)
    · cases hstep
  | effect receipt r =>
    simp only [Executor.step] at hstep
    split at hstep
    · next tool hphase =>
      cases hstep
      exact h.proceed rfl (by rw [hphase]; rfl)
    · cases hstep
  | record retryable =>
    simp only [Executor.step] at hstep
    split at hstep
    · next tool r hphase =>
      cases hstep
      exact h.record (by rw [hphase]; rfl) r retryable _
    · cases hstep
  | write now messageIdx =>
    simp only [Executor.step] at hstep
    split at hstep
    · next tool write todo hphase => exact (h.proceed rfl (by rw [hphase]; rfl)).perform hstep
    · next tool r write todo hphase => exact (h.proceed rfl (by rw [hphase]; rfl)).perform hstep
    · cases hstep
  | raised text =>
    simp only [Executor.step] at hstep
    split at hstep
    · next tool r write todo hphase =>
      split at hstep
      · cases hstep
        exact h.proceed rfl (by rw [hphase]; rfl)
      · cases hstep
    · cases hstep

theorem inv_of_run {as : List ExecutorStep} (h : s.Started)
    (hrun : run Executor.step s as = some t) : Inv t := by
  have hok : Meets Executor.step (fun _ _ => True) s as := meets_true
  exact run_invariant (fun _ _ _ h _ hstep => h.step hstep) h.inv hok hrun

end Executor

open Browser (sampleHost)

/-- A batch of one call. -/
def sampleBatch : Runtime where
  messages := []
  currentRun := some ⟨"run1", 1, [], .running, none, none, none⟩
  activeMessage := some
    { name := "assistant"
      content := none
      reasoning := none
      toolMessages := [⟨"read_file", none, "c1", .obj [], .pending, none,
        none, by decide, by decide, by decide⟩]
      providerOptions := [] }
  activeToolIndex := none
  running := true

def sampleExecutor : Executor sampleHost where
  durable := ⟨sampleBatch, some (sampleValid "t1" "s1" "r" .running sample_names), fun _ => none⟩
  live := sampleBatch
  phase := .idle

theorem sampleExecutor_started : sampleExecutor.Started where
  idle := rfl
  saved := rfl
  run := ⟨_, rfl, rfl, nofun⟩
  messages := nofun
  new _ _ := nofun

/-- The call has begun, with its event in the stores. -/
def sampleCall : List ExecutorStep := [.start, .call, .write sampleNow 1, .write sampleNow 1]

/-- The call fails: its hidden event is in the Turn before the runtime is saved. -/
def sampleFailed : List ExecutorStep :=
  sampleCall ++ [.effect none ⟨false, "No such file.", none⟩, .record (some false),
    .write sampleNow 1, .write sampleNow 1]

end MiniAgent.Recovery
