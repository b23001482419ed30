import MiniAgent.Bridge.Runs

/-!
# The Turn of a bridge over a run

Whatever its copy of a Message says, a bridge changes the Turn of its writer in few ways (`Change`),
and every method of the bridge keeps what these changes keep. So an invariant of a whole run is one
of `Change`.
-/

namespace MiniAgent.Bridge

open Lib Turn Provider Store NodeWriter TurnBridge

/-! ## Changes -/

section Changes

variable {host : Host}

/-- A Message that a bridge appends. -/
inductive NewMessage (version : List Fields) : Fields → Prop
  | answer : NewMessage version (assistantOf [])
  | report (reply deliveryId : String)
    (hnew : ¬ (version.flatMap messageItems).any (TurnBridge.isReport deliveryId)) :
      NewMessage version (assistantOf [reportItem reply deliveryId])
  | steering (item : Fields) (deliveryId : String) (hnew : deliveryId ≠ "" →
    ¬ version.any (isSteering deliveryId)) :
      NewMessage version (userMessageOf item deliveryId)

/-- An Item that is no report. -/
def Plain (item : Fields) : Prop := item.get "event" ≠ some (.str "agent_report")

/-- What a bridge makes of its Turn at a time. -/
inductive Change (t t' : ValidTurn host) : Prop
  | config (hdata : t'.val.data = t.val.data) (hidx : t'.val.currentDataIdx = t.val.currentDataIdx)
    (hkey : t'.val.key = t.val.key)
  | message (m : Fields) (hnew : NewMessage (selected t.val) m)
    (heq : t'.val = withSelected t.val (selected t.val ++ [m]))
  | items (items : List Fields) (i : Nat) (hitems : ∀ item ∈ items, Plain item)
      (heq : t'.val = withSelected t.val (addItems items i (selected t.val)))
  | status (status : String) (i k : Nat)
      (heq : t'.val = withSelected t.val (changeItem (withStatus status) i k (selected t.val)))
  | text (delta : String) (i k : Nat)
    (heq : t'.val = withSelected t.val (changeItem (withText delta) i k (selected t.val)))

/-- A Turn that changes is the same Turn. -/
theorem Change.key {t t' : ValidTurn host} (h : Change t t') : t'.val.key = t.val.key := by
  cases h with
  | config _ _ hkey => exact hkey
  | message m _ heq => rw [heq]; rfl
  | items items i _ heq => rw [heq]; rfl
  | status status i k heq => rw [heq]; rfl
  | text delta i k heq => rw [heq]; rfl

theorem NewMessage.content {version : List Fields} {m : Fields} (h : NewMessage version m) :
    ∃ l, m.get "content" = some (.arr l) := by
  cases h with
  | answer => exact ⟨_, rfl⟩
  | report => exact ⟨_, rfl⟩
  | steering => exact ⟨_, content_userMessageOf _ _⟩

/-! ### Items by their places -/

/-- The Item at a place of a version. -/
def itemAt (version : List Fields) (i k : Nat) : Option Fields :=
  (version[i]?.map messageItems).bind fun items => items[k]?

section Places

variable {version items : List Fields} {i k j l : Nat}

theorem itemAt_changeItem {f : Fields → Fields} : itemAt (changeItem f i k version) j l =
    (itemAt version j l).map fun item => if i = j ∧ k = l then f item else item := by
  rw [itemAt, changeItem, items_modify, itemAt]
  rcases version[j]? with _ | m
  · rfl
  · by_cases hi : i = j
    · by_cases hk : k = l <;> simp [hi, hk]
    · simp [hi]

theorem itemAt_addItems : itemAt (addItems items i version) j l =
    (version[j]?.bind fun m => if i = j then (messageItems m ++ items)[l]?
      else (messageItems m)[l]?) := by
  rw [itemAt, addItems, items_modify]
  rcases version[j]? with _ | m
  · rfl
  · by_cases hi : i = j <;> simp [hi]

theorem itemAt_append (m : Fields) (h : j < version.length) :
    itemAt (version ++ [m]) j l = itemAt version j l := by
  rw [itemAt, itemAt, List.getElem?_append_left h]

end Places

theorem selected_of_eq {t t' : ValidTurn host} {version : List Fields}
    (h : t'.val = withSelected t.val version) :
    selected t'.val = version := by
  rw [h, selected_withSelected]

end Changes

/-! ## Properties of Turns -/

section Stable

variable {host : Host} (J : ValidTurn host → Prop)

def StableMessage (m : Fields) : Prop :=
  ∀ t t' : ValidTurn host, J t → t'.val = withSelected t.val (selected t.val ++ [m]) → J t'

def StableItems (items : List Fields) : Prop := ∀ (t t' : ValidTurn host) (i : Nat), J t →
  t'.val = withSelected t.val (addItems items i (selected t.val)) → J t'

/-- The Items lead from one property to another. -/
def MovesItems (J J' : ValidTurn host → Prop) (items : List Fields) : Prop :=
  ∀ (t t' : ValidTurn host) (i : Nat) (m : Fields), J t →
  (selected t.val)[i]? = some m → t'.val = withSelected t.val (addItems items i (selected t.val)) →
    J' t'

def StableStatus (status : String) : Prop := ∀ (t t' : ValidTurn host) (i k : Nat), J t →
  t'.val = withSelected t.val (changeItem (withStatus status) i k (selected t.val)) → J t'

/-- A property that every change keeps. -/
def Stable : Prop := ∀ t t', Change t t' → J t → J t'

def StableCompaction : Prop := ∀ t t', Compacted t' → J t → J t'

variable {J}

theorem StableItems.moves {items : List Fields} (h : StableItems J items) : MovesItems J J items :=
  fun t t' i _ hJ _ heq =>
  h t t' i hJ heq

theorem Stable.status (h : Stable J) (status : String) : StableStatus J status :=
  fun t t' i k hJ heq =>
  h t t' (.status status i k heq) hJ

theorem Stable.items (h : Stable J) {items : List Fields} (hitems : ∀ item ∈ items, Plain item) :
    StableItems J items :=
  fun t t' i hJ heq => h t t' (.items items i hitems heq) hJ

theorem Stable.answer (h : Stable J) : StableMessage J (assistantOf []) := fun t t' hJ heq =>
  h t t' (.message _ .answer heq) hJ

end Stable

namespace TurnBridge

/-! ## Bridges that write a Turn -/

/-- The bridge writes the Turn; a Message that it writes is not followed by one of the user. -/
structure Keeps (env : BridgeEnv) (t : ValidTurn env.writer.host) (b : TurnBridge) : Prop where
  holds : Holds env.writer b.writer t
  assistant : b.assistant = some t.val
  started : b.started = true
  closed : b.closed = false
  answering : b.assistantMessageIdx ≠ none → tailRole (selected t.val) ≠ some (.str "user")

/-- The Turn of the bridge has a property. -/
def Has (env : BridgeEnv) (J : ValidTurn env.writer.host → Prop) (b : TurnBridge) : Prop :=
  ∃ t, J t ∧ Keeps env t b

/-- A Message is being written. -/
def Answering (env : BridgeEnv) (J : ValidTurn env.writer.host → Prop) (b : TurnBridge) : Prop :=
  b.assistantMessageIdx.isSome = true ∧ Has env J b

/-- A method that keeps a property. -/
abbrev Kept {α : Type} (env : BridgeEnv) (J : ValidTurn env.writer.host → Prop) (x : Method α) :
    Prop :=
  Returns (Has env J) x fun _ => Has env J

variable {env : BridgeEnv} {J J' : ValidTurn env.writer.host → Prop}
  {t t' : ValidTurn env.writer.host} {b b' : TurnBridge}
  {i k : Nat} {status : String}

/-! ## The Turn -/

theorem tail_modify {version : List Fields} {g : Fields → List Fields}
    (h : tailRole version ≠ some (.str "user")) :
    tailRole (version.modify i fun m => setItems (g m) m) ≠ some (.str "user") := by
  rw [tailRole_of_roles roles_modify]
  exact h

theorem tail_append (version : List Fields) (m : Fields) :
    tailRole (version ++ [m]) = roleOf m := by
  rw [tailRole, List.getLast?_concat, Option.bind_some]

theorem Keeps.turned (h : Keeps env t b) {w : NodeWriter} (hw : Holds env.writer w t')
    (htail : b.assistantMessageIdx ≠ none → tailRole (selected t'.val) ≠ some (.str "user")) :
    Keeps env t' (b.turned t'.val w) :=
  ⟨hw, rfl, h.started, h.closed, htail⟩

/-- A bridge that is the same but for what no property speaks of. -/
theorem Keeps.frame (h : Keeps env t b) (hwriter : b'.writer = b.writer)
    (hassistant : b'.assistant = b.assistant)
    (hflags : b'.started = b.started ∧ b'.closed = b.closed)
    (hidx : b'.assistantMessageIdx = b.assistantMessageIdx) :
    Keeps env t b' :=
  ⟨hwriter ▸ h.holds, hassistant.trans h.assistant, hflags.1.trans h.started,
    hflags.2.trans h.closed, fun hne =>
    h.answering (hidx ▸ hne)⟩

theorem Has.frame (h : Has env J b) (hwriter : b'.writer = b.writer)
    (hassistant : b'.assistant = b.assistant)
    (hflags : b'.started = b.started ∧ b'.closed = b.closed)
    (hidx : b'.assistantMessageIdx = b.assistantMessageIdx) :
    Has env J b' := by
  obtain ⟨t, hJ, h⟩ := h
  exact ⟨t, hJ, h.frame hwriter hassistant hflags hidx⟩

/-- A write that changes the selected version and not who speaks last. -/
theorem writeTurn_moves {call : RuntimeState → WriterCall} (hkeeps : ∀ s, keeps (call s) = true)
    (h : ∀ t t', J t → write t (call t.val) = .ok t' → J' t' ∧
      (tailRole (selected t.val) ≠ some (.str "user") →
        tailRole (selected t'.val) ≠ some (.str "user"))) :
    Returns (Has env J) (writeTurn env call) fun _ => Has env J' := by
  refine writeTurn_spec hkeeps ?_
  rintro b ⟨t, hJ, hb⟩
  refine ⟨t, hb.assistant, hb.holds, fun t' w hwrite hw => ?_⟩
  obtain ⟨hJ', htail⟩ := h t t' hJ hwrite
  exact ⟨t', hJ', hb.turned hw fun hne => htail (hb.answering hne)⟩

theorem setItemStatus_moves (hJ : ∀ t t', J t →
    t'.val = withSelected t.val (changeItem (withStatus status) i k (selected t.val)) →
    J' t') : Returns (Has env J) (writeTurn env fun t =>
      .setItemStatus t.currentDataIdx i k status true) fun _ => Has env J' := by
  refine writeTurn_moves (fun _ => rfl) fun t t' ht hwrite => ?_
  obtain ⟨heq, -⟩ := write_setItemStatus hwrite
  refine ⟨hJ t t' ht heq, fun htail => ?_⟩
  rw [selected_of_eq heq]
  exact tail_modify htail

theorem setItemStatus_kept (hJ : StableStatus J status) :
    Kept env J (writeTurn env fun t => .setItemStatus t.currentDataIdx i k status true) :=
  setItemStatus_moves fun t t' => hJ t t' i k

theorem appendItems_moves {items : List Fields} (hJ : MovesItems J J' items) :
    Returns (Has env J) (writeTurn env fun _ => .appendItems (items.map .obj) (some (i : Int)) true)
      fun _ => Has env J' := by
  refine writeTurn_moves (fun _ => rfl) fun t t' ht hwrite => ?_
  obtain ⟨heq, m, hm, -⟩ := write_appendItems hwrite
  refine ⟨hJ t t' i m ht hm heq, fun htail => ?_⟩
  rw [selected_of_eq heq]
  exact tail_modify htail

theorem appendText_kept {delta : String} (hdelta : delta ≠ "") (hJ : Stable J) :
    Kept env J (writeTurn env fun t => .appendText t.currentDataIdx (some (i : Int))
      k delta true) := by
  refine writeTurn_moves (fun _ => rfl) fun t t' ht hwrite => ?_
  obtain ⟨heq, -⟩ := write_appendText hdelta hwrite
  refine ⟨hJ t t' (.text delta i k heq) ht, fun htail => ?_⟩
  rw [selected_of_eq heq]
  exact tail_modify htail

theorem persistTurn_kept : Kept env J (persistTurn env) := by
  refine persistTurn_spec ?_
  rintro b ⟨t, hJ, hb⟩
  exact ⟨t, hb.assistant, hb.holds, fun w hw =>
    ⟨t, hJ, hw, rfl, hb.started, hb.closed, hb.answering⟩⟩

/-! ## The trace -/

theorem traceless_has : Traceless (Has env J) := fun _ _ h => h.frame rfl rfl ⟨rfl, rfl⟩ rfl

theorem recordCompletedItem_kept : Kept env J (recordCompletedItem env i k) :=
  recordCompletedItem_spec traceless_has

/-! ## Items that stream -/

theorem setBlock_kept {f : Fields → Fields} : Kept env J (setBlock k f) :=
  .pre setBlock_spec fun _ h _ => h.frame rfl rfl ⟨rfl, rfl⟩ rfl

theorem sealStreamItem_kept (hJ : StableStatus J status) :
    Kept env J (sealStreamItem env k status) := by
  refine .read_bind fun b => .pre (P := Has env J) ?_ fun _ h => h.1
  split
  · exact .raise fun _ => trivial
  · exact .bind persistTurn_kept fun _ => .bind (setItemStatus_kept hJ) fun _ =>
      .bind setBlock_kept fun _ =>
      recordCompletedItem_kept

theorem sealStream_kept (hJ : StableStatus J status) : Kept env J (sealStream env status) := by
  refine .read_bind fun b => .pre (P := Has env J) ?_ fun _ h => h.1
  split
  · exact sealStreamItem_kept hJ
  · exact .pure fun _ h => h

theorem clearStream_kept {itemType : Option String} : Kept env J (clearStream itemType) :=
  .write fun _ h => h.frame rfl rfl ⟨rfl, rfl⟩ rfl

theorem finishStreamItem_kept {itemType : Option String} (hJ : StableStatus J status) :
    Kept env J (finishStreamItem env itemType status) := by
  refine .read_bind fun b => .pre (P := Has env J) ?_ fun _ h => h.1
  exact .ite (fun _ => .pure fun _ h => h) fun _ => .bind (sealStream_kept hJ) fun _ =>
    clearStream_kept

theorem beginStreamItem_kept {itemType : String} (hJ : StableStatus J "success") :
    Kept env J (beginStreamItem env itemType) := by
  refine .ite (fun _ => .read_bind fun b => .pre (P := Has env J) ?_ fun _ h => h.1) fun _ =>
    .raise fun _ => trivial
  exact .ite (fun _ => .pure fun _ h => h) fun _ => .bind (finishStreamItem_kept hJ) fun _ =>
    clearStream_kept

/-! ## Messages -/

theorem takeLastMessage_kept :
    Returns (fun b => ∃ t, J t ∧ Keeps env t b ∧ tailRole (selected t.val) ≠ some (.str "user"))
    takeLastMessage fun _ => Answering env J := by
  refine .bind activeTurn_some fun t => .write ?_
  rintro b ⟨⟨t', hJ, hb, htail⟩, -⟩
  exact ⟨rfl, t', hJ, hb.holds, hb.assistant, hb.started, hb.closed, fun _ => htail⟩

/-- An empty Message at the end. -/
theorem openMessage_kept {s : RuntimeState} (hJ : StableMessage J (assistantOf [])) :
    Returns (fun b => ∃ t, J t ∧ Keeps env t b ∧ t.val = s)
      (writeOn env s (.appendMessage emptyAnswer true)) fun _ b =>
      ∃ t, J t ∧ Keeps env t b ∧ tailRole (selected t.val) ≠ some (.str "user") := by
  refine writeOn_spec rfl ?_
  rintro b ⟨t, ht, hb, rfl⟩
  refine ⟨t, rfl, hb.holds, fun t' w hwrite hw => ?_⟩
  have heq := write_appendMessage ⟨_, rfl⟩ hwrite
  have htail : tailRole (selected t'.val) ≠ some (.str "user") := by
    rw [selected_of_eq heq, tail_append]
    decide
  exact ⟨t', hJ t t' ht heq, hb.turned hw fun _ => htail, htail⟩

theorem currentTurn_kept : Returns (Has env J) (currentTurn env) fun s b => ∃ t, J t ∧
    Keeps env t b ∧ t.val = s :=
  currentTurn_spec fun _ ⟨t, hJ, hb⟩ => ⟨t, hb.assistant, hb.holds, t, hJ, hb, rfl⟩

theorem ensureAssistantMessage_kept (hJ : StableMessage J (assistantOf [])) :
    Returns (Has env J) (ensureAssistantMessage env) fun _ => Answering env J := by
  refine .bind currentTurn_kept fun s => .read_bind fun b => .ite (fun hholds => ?_) fun _ =>
    .ite (fun _ => ?_) fun hlast => ?_
  · refine .write ?_
    rintro b' ⟨⟨t, ht, hb, rfl⟩, hsame⟩
    obtain rfl : b' = b := hsame
    refine ⟨?_, t, ht, hb.holds, rfl, hb.started, hb.closed, hb.answering⟩
    unfold holdsMessage at hholds
    split at hholds
    · next hidx => exact Option.isSome_iff_exists.mpr ⟨_, hidx⟩
    · cases hholds
  · refine .bind (.pre (openMessage_kept hJ) fun _ h => h.1) fun _ => .bind (.write ?_) fun _ =>
      takeLastMessage_kept
    rintro b ⟨t, ht, hb, htail⟩
    exact ⟨t, ht, hb.frame rfl rfl ⟨rfl, rfl⟩ rfl, htail⟩
  · refine .bind (.write ?_) fun _ => takeLastMessage_kept
    rintro b ⟨⟨t, ht, hb, rfl⟩, -⟩
    exact ⟨t, ht, ⟨hb.holds, rfl, hb.started, hb.closed, hb.answering⟩, hlast⟩

theorem startAssistantAfterReport_kept (hJ : StableMessage J (assistantOf [])) :
    Kept env J (startAssistantAfterReport env) := by
  refine .read_bind fun b => .pre (P := Has env J) ?_ fun _ h => h.1
  refine .ite (fun _ => ?_) fun _ => .pure fun _ h => h
  refine .bind currentTurn_kept fun s => .bind (openMessage_kept hJ) fun _ =>
    .bind takeLastMessage_kept fun _ => ?_
  refine .bind (R := fun _ => Has env J) (.write fun _ h => h.2.frame rfl rfl ⟨rfl, rfl⟩ rfl)
    fun _ => ?_
  exact .write fun _ h => h.frame rfl rfl ⟨rfl, rfl⟩ rfl

/-! ## Items -/

/-- Items for the Message that the bridge writes. -/
theorem writeItems_moves {items : List Fields} (hJ : MovesItems J J' items) {b : TurnBridge}
    (hidx : b.assistantMessageIdx.isSome = true) : Returns (Has env J)
      (writeTurn env fun _ => .appendItems (items.map .obj)
        (b.assistantMessageIdx.map Nat.cast) true) fun _ => Has env J' := by
  obtain ⟨i, hi⟩ := Option.isSome_iff_exists.mp hidx
  rw [hi]
  exact appendItems_moves hJ

theorem plain_streamItem (itemType text : String) :
    ∀ item ∈ [streamItem itemType text], Plain item := by
  intro item hitem
  obtain rfl := List.mem_singleton.mp hitem
  simp [Plain, streamItem, Fields.get_cons]

theorem openStreamItem_kept {itemType chunk : String}
    (hJ : StableItems J [streamItem itemType chunk]) :
    Returns (Answering env J) (openStreamItem env itemType chunk) fun _ => Has env J := by
  refine .bind (R := fun _ => Answering env J)
    (.write fun _ h => ⟨h.1, h.2.frame rfl rfl ⟨rfl, rfl⟩ rfl⟩) fun _ => ?_
  refine .read_bind fun b => .known (p := b.assistantMessageIdx.isSome = true) ?_ fun hidx =>
    .pre (writeItems_moves hJ.moves hidx) ?_
  · rintro b' ⟨h, hsame⟩
    obtain rfl : b' = b := hsame
    exact h.1
  · exact fun _ h => h.1.2

theorem growStreamItem_kept {itemType chunk : String} (hchunk : chunk ≠ "") (hJ : Stable J) :
    Returns (Answering env J) (growStreamItem env k itemType chunk) fun _ => Has env J := by
  refine .bind (R := fun _ => Answering env J)
    (.write fun _ h => ⟨h.1, h.2.frame rfl rfl ⟨rfl, rfl⟩ rfl⟩) fun _ => ?_
  refine .read_bind fun b => .known (p := b.assistantMessageIdx.isSome = true) ?_ fun hidx => ?_
  · rintro b' ⟨h, hsame⟩
    obtain rfl : b' = b := hsame
    exact h.1
  · obtain ⟨i, hi⟩ := Option.isSome_iff_exists.mp hidx
    rw [hi]
    exact .bind (.pre setBlock_kept fun _ h => h.1.2) fun _ => appendText_kept hchunk hJ

theorem updateStreamItem_kept {itemType chunk : String} (hJ : Stable J) :
    Kept env J (updateStreamItem env itemType chunk) := by
  refine .ite (fun _ => .pure fun _ h => h) fun hchunk => .read_bind fun b =>
    .pre (P := Has env J) ?_ fun _ h => h.1
  refine .bind (.whenever (fun _ => beginStreamItem_kept (hJ.status _)) fun _ _ h => h) fun _ => ?_
  refine .bind (ensureAssistantMessage_kept hJ.answer) fun _ => .read_bind fun b =>
    .pre (P := Answering env J) ?_ fun _ h => h.1
  split
  · exact openStreamItem_kept (hJ.items (plain_streamItem _ _))
  · exact growStreamItem_kept hchunk hJ

theorem recordSealed_kept {items : List (Fields × Nat)} : Kept env J (recordSealed env i items) :=
  .pre ((Call.Spec.forEach (I := fun _ => Has env J)
    (fun _ _ => .whenever (fun _ => recordCompletedItem_kept) fun _ _ h => h)
    items).post fun _ _ h => h) fun _ h => h

theorem appendBlocks_moves {items : List Fields} (hopen : StableMessage J (assistantOf []))
    (hJ : MovesItems J J' items) :
    Returns (Has env J) (appendBlocks env items) fun _ => Has env J' := by
  refine .bind (ensureAssistantMessage_kept hopen) fun _ => .read_bind fun b => ?_
  refine .known (p := b.assistantMessageIdx.isSome = true) ?_ fun hidx => ?_
  · rintro b' ⟨h, hsame⟩
    obtain rfl : b' = b := hsame
    exact h.1
  refine .bind (R := fun _ => Has env J) (.write fun _ h => h.1.2.frame rfl rfl ⟨rfl, rfl⟩ rfl)
    fun _ => ?_
  refine .bind (writeItems_moves hJ hidx) fun _ => ?_
  split
  · exact .whenever (fun _ => .raise fun _ => trivial) fun _ _ h => h
  · exact recordSealed_kept

theorem appendItem_moves {item : Fields} (hstatus : StableStatus J "success")
    (hopen : StableMessage J (assistantOf [])) (hJ : MovesItems J J' [normalized item]) :
    Returns (Has env J) (appendItem env item) fun _ => Has env J' :=
  .bind (finishStreamItem_kept hstatus) fun _ => appendBlocks_moves hopen hJ

theorem appendItem_kept {item : Fields} (hstatus : StableStatus J "success")
    (hopen : StableMessage J (assistantOf [])) (hJ : StableItems J [normalized item]) :
    Kept env J (appendItem env item) :=
  appendItem_moves hstatus hopen hJ.moves

theorem plain_setDefault {item : Fields} {name : String} {value : Json} (h : Plain item)
    (hname : name ≠ "event") :
    Plain (setDefault item name value) := by
  unfold setDefault
  split
  · exact h
  · rw [Plain, Fields.get_set, if_neg hname]
    exact h

theorem plain_normalized {item : Fields} (h : Plain item) : Plain (normalized item) :=
  plain_setDefault h (by decide)

theorem appendItem_stable {item : Fields} (hJ : Stable J) (hitem : Plain item) :
    Kept env J (appendItem env item) :=
  appendItem_kept (hJ.status _) hJ.answer (hJ.items (by simpa using plain_normalized hitem))

theorem appendItems_stable {items : List Fields} (hJ : Stable J)
    (hitems : ∀ item ∈ items, Plain item) :
    Kept env J (appendItems env items) := by
  refine .bind (finishStreamItem_kept (hJ.status _)) fun _ => .whenever (fun _ => ?_) fun _ _ h => h
  refine appendBlocks_moves hJ.answer (hJ.items fun item hitem => ?_).moves
  obtain ⟨item', hitem', rfl⟩ := List.mem_map.mp hitem
  exact plain_normalized (hitems item' hitem')

/-! ## Items that change -/

theorem changeStatus_moves (hJ : ∀ t t', J t →
    t'.val = withSelected t.val (changeItem (withStatus status) i k (selected t.val)) →
    J' t') : Returns (Has env J) (changeStatus env i k status) fun _ => Has env J' := by
  refine .bind (setItemStatus_moves hJ) fun _ => .bind (R := fun _ => Has env J')
    (.write fun b h => ?_) fun _ =>
    recordCompletedItem_kept
  split
  · exact h.frame rfl rfl ⟨rfl, rfl⟩ rfl
  · exact h

theorem changeStatus_kept (hJ : StableStatus J status) : Kept env J (changeStatus env i k status) :=
  changeStatus_moves fun t t' => hJ t t' i k

theorem setToolCallStatus_kept {callId : String} (hJ : StableStatus J status) :
    Kept env J (setToolCallStatus env callId status) := by
  refine .read_bind fun b => .pre (P := Has env J) ?_ fun _ h => h.1
  split
  · exact .pure fun _ h => h
  · exact .ite (fun _ => .pure fun _ h => h) fun _ => changeStatus_kept hJ

theorem settleRunningRetry_kept (hJ : Stable J) : Kept env J (settleRunningRetry env) := by
  refine .read_bind fun b => .pre (P := Has env J) ?_ fun _ h => h.1
  split
  · exact .bind (setItemStatus_kept (hJ.status _)) fun _ => .bind setBlock_kept fun _ =>
      recordCompletedItem_kept
  · exact .pure fun _ h => h

/-! ## Messages of events -/

/-- A Message of its own, for a property of the Turn that is read. -/
theorem appendWhole_kept {m : Fields} {P : TurnBridge → Prop}
    (hm : ∃ l, m.get "content" = some (.arr l))
    (h : ∀ b, P b → ∃ t, Keeps env t b ∧
      ∀ t', t'.val = withSelected t.val (selected t.val ++ [m]) → J t') :
    Returns P (appendWhole env m) fun _ b => (roleOf m ≠ some (.str "user") → Has env J b) ∧
      Has env J { b with assistantMessageIdx := none } := by
  refine .bind (R := fun _ b => (roleOf m ≠ some (.str "user") → Has env J b) ∧
    Has env J { b with assistantMessageIdx := none })
    (writeTurn_spec (fun _ => rfl) ?_) fun _ => .bind activeTurn_some fun t =>
      .pre (recordCompletedItem_spec ?_) fun _ h => h.1
  · intro b hb
    obtain ⟨t, hkeeps, hJ⟩ := h b hb
    refine ⟨t, hkeeps.assistant, hkeeps.holds, fun t' w hwrite hw => ?_⟩
    have heq := write_appendMessage hm hwrite
    refine ⟨fun hrole => ⟨t', hJ t' heq, hkeeps.turned hw fun _ => ?_⟩, t',
      hJ t' heq, ⟨hw, rfl, hkeeps.started, hkeeps.closed,
      fun hne => absurd rfl hne⟩⟩
    rw [selected_of_eq heq, tail_append]
    exact hrole
  · exact fun b trace h => ⟨fun hrole => traceless_has b trace (h.1 hrole),
      traceless_has _ trace h.2⟩

theorem roleOf_assistantOf (items : List Fields) : roleOf (assistantOf items) =
    some (.str "assistant") := rfl

theorem appendSubagentReport_kept {data : Fields} (hJ : Stable J) :
    Kept env J (appendSubagentReport env data) := by
  refine .ite (fun _ => .raise fun _ => trivial) fun _ =>
    .bind (finishStreamItem_kept (hJ.status _)) fun _ => ?_
  refine .bind activeTurn_some fun s => .ite (fun _ => .pure fun _ h => h.1) fun hnew => ?_
  refine .bind (appendWhole_kept (J := J) ⟨_, rfl⟩ ?_) fun _ => .write fun _ h => ?_
  · rintro b ⟨⟨t, ht, hb⟩, hs⟩
    obtain rfl : t.val = s := Option.some.inj (hb.assistant.symm.trans hs)
    exact ⟨t, hb, fun t' heq => hJ t t' (.message _ (.report _ _ hnew) heq) ht⟩
  · exact (h.1 (by rw [roleOf_assistantOf]; decide)).frame rfl rfl ⟨rfl, rfl⟩ rfl

theorem appendSteeringMessage_kept {data : Fields} (hJ : Stable J) :
    Kept env J (appendSteeringMessage env data) := by
  refine .ite (fun _ => .pure fun _ h => h) fun _ =>
    .bind (finishStreamItem_kept (hJ.status _)) fun _ => ?_
  refine .bind activeTurn_some fun s => .ite (fun _ => .pure fun _ h => h.1) fun hnew => ?_
  refine .bind (appendWhole_kept (J := J) ⟨_, content_userMessageOf _ _⟩ ?_) fun _ => ?_
  · rintro b ⟨⟨t, ht, hb⟩, hs⟩
    obtain rfl : t.val = s := Option.some.inj (hb.assistant.symm.trans hs)
    refine ⟨t, hb, fun t' heq =>
      hJ t t' (.message _ (.steering _ _ fun hne hmem => hnew ⟨hne, hmem⟩) heq) ht⟩
  · refine .bind (R := fun _ b => Has env J { b with assistantMessageIdx := none })
      (.write fun _ h => ?_) fun _ => .write fun _ h => h
    exact h.2.frame rfl rfl ⟨rfl, rfl⟩ rfl

/-! ## Settings -/

theorem writeBeside_kept {s : RuntimeState} {changes : Fields}
    (hdata : ∀ p ∈ changes, wireName (attributeName p.1) ≠ "data")
    (hidx : ∀ p ∈ changes, wireName (attributeName p.1) ≠ "current_data_idx") (hJ : Stable J) :
    Returns (fun b => ∃ t, J t ∧ Keeps env t b ∧ t.val = s)
      (writeOn env s (.updateConfig changes)) fun _ => Has env J := by
  refine writeOn_spec rfl ?_
  rintro b ⟨t, ht, hb, rfl⟩
  refine ⟨t, rfl, hb.holds, fun t' w hwrite hw => ?_⟩
  obtain ⟨hsame, hsame'⟩ := write_updateConfig hdata hidx hwrite
  refine ⟨t', hJ t t' (.config hsame hsame' (write_key hwrite)) ht, hb.turned hw fun hne => ?_⟩
  rw [selected, hsame, hsame']
  exact hb.answering hne

theorem applyUsage_kept {usage : Fields} (hJ : Stable J) : Kept env J (applyUsage env usage) := by
  refine .read_bind fun b => .pre (P := Has env J) ?_ fun _ h => h.1
  split
  · exact .pure fun _ h => h
  · refine .bind currentTurn_kept fun s => writeBeside_kept ?_ ?_ hJ <;>
      simp [attributeName, wireName]

theorem applyConfig_kept {config : Fields} (hJ : Stable J) :
    Kept env J (applyConfig env config) := by
  refine .bind (R := fun _ => Has env J) (.onPart ?_ fun _ _ _ _ _ => trivial) fun _ =>
    .pure fun _ h => h
  rintro b out part ⟨t, ht, hb⟩ hx
  obtain ⟨t', ⟨hdata, hidx, hkey⟩, hholds, hassistant⟩ :=
    applyRuntimeConfig_ok hb.assistant hb.holds hx
  refine ⟨t', hJ t t' (.config hdata hidx hkey) ht, hholds, hassistant, hb.started,
    hb.closed, fun hne => ?_⟩
  rw [selected, hdata, hidx]
  exact hb.answering hne

theorem applyEventConfig_kept {data : Fields} (hJ : Stable J) :
    Kept env J (applyEventConfig env data) := by
  unfold applyEventConfig
  split
  · exact applyConfig_kept hJ
  · exact .pure fun _ h => h

theorem applyEventUsage_kept {data : Fields} (hJ : Stable J) :
    Kept env J (applyEventUsage env data) := by
  unfold applyEventUsage
  split
  · exact applyUsage_kept hJ
  · exact .pure fun _ h => h

/-! ## Items of events -/

theorem plain_append {f g : Fields} (hf : f.get "event" = none) (hg : g.get "event" = none) :
    (f ++ g).get "event" = none := by
  rw [Fields.get_append, hf, hg]
  rfl

theorem plain_of_none {item : Fields} (h : item.get "event" = none) : Plain item := by
  rw [Plain, h]
  nofun

theorem plain_toolResultItem {message : String} {data : Fields} :
    Plain (toolResultItem env message data status) := by
  refine plain_of_none (plain_append (plain_append (plain_append ?_ ?_) ?_) ?_)
  · simp [Fields.get_cons]
  · split <;> rfl
  · split <;> rfl
  · split <;> rfl

theorem plain_retryItem {message : String} {data : Fields} :
    Plain (retryItem env message data) := by
  simp [Plain, retryItem, Fields.get_cons]

theorem plain_eventItem {itemType kind message : String} {data : Fields}
    (hkind : kind ≠ "agent_report") :
    Plain (eventItem itemType kind message data) := by
  have hplain : Plain (data.setAll [("type", .str itemType), ("event", .str kind),
      ("status", .str "success")]) := by
    simpa [Plain, Fields.get_cons] using hkind
  unfold eventItem
  split
  · exact hplain
  · exact plain_setDefault hplain (by decide)

theorem modelRetry_kept {message : String} {data : Fields} (hJ : Stable J) :
    Kept env J (modelRetry env message data) :=
  .bind (startAssistantAfterReport_kept hJ.answer) fun _ => appendItem_stable hJ plain_retryItem

theorem toolResult_kept {message : String} {data : Fields} (hJ : Stable J) :
    Kept env J (toolResult env message data status) :=
  .bind (setToolCallStatus_kept (hJ.status _)) fun _ => appendItem_stable hJ plain_toolResultItem

theorem appendEventItem_kept {itemType kind message : String} {data : Fields} (hJ : Stable J)
    (hkind : kind ≠ "agent_report") :
    Kept env J (appendEventItem env itemType kind message data) :=
  appendItem_stable hJ (plain_eventItem hkind)

theorem plain_answerItem {itemType name streamed : String} {raw data : Fields} :
    ∀ item ∈ answerItem env itemType name streamed raw data, Plain item := by
  intro item hitem
  unfold answerItem at hitem
  split at hitem
  · split at hitem
    · cases hitem
    · rw [List.mem_singleton.mp hitem]
      simp [Plain, Fields.get_cons]
  · cases hitem

theorem plain_toolCallItems {blocks : List Fields} : ∀ {raw : List Json} {items : List Fields},
    toolCallItems env blocks raw = .ok items → ∀ item ∈ items, Plain item
  | [], items, h, item, hitem => by
    cases h
    cases hitem
  | .obj tool :: rest, items, h, item, hitem => by
    rw [toolCallItems] at h
    split at h
    · exact plain_toolCallItems h item hitem
    · obtain ⟨arguments, -, h⟩ := bind_ok.mp h
      obtain ⟨more, hmore, h⟩ := bind_ok.mp h
      obtain rfl := pure_ok.mp h
      rcases List.mem_cons.mp hitem with rfl | hitem
      · simp [Plain, Fields.get_cons]
      · exact plain_toolCallItems hmore item hitem
  | .null :: rest, items, h, item, hitem => @plain_toolCallItems blocks rest items h item hitem
  | .bool _ :: rest, items, h, item, hitem => @plain_toolCallItems blocks rest items h item hitem
  | .int _ :: rest, items, h, item, hitem => @plain_toolCallItems blocks rest items h item hitem
  | .float _ :: rest, items, h, item, hitem => @plain_toolCallItems blocks rest items h item hitem
  | .str _ :: rest, items, h, item, hitem => @plain_toolCallItems blocks rest items h item hitem
  | .arr _ :: rest, items, h, item, hitem => @plain_toolCallItems blocks rest items h item hitem

theorem assistantMessage_kept {raw data : Fields} (hJ : Stable J) :
    Kept env J (assistantMessage env raw data) := by
  refine .bind (startAssistantAfterReport_kept hJ.answer) fun _ => .read_bind fun b =>
    .pre (P := Has env J) ?_ fun _ h => h.1
  refine .bind (R := fun calls b => (∀ item ∈ calls, Plain item) ∧ Has env J b)
    (.ofExcept (fun calls hcalls _ h => ⟨plain_toolCallItems hcalls, h⟩) fun _ _ => trivial)
      fun calls => ?_
  refine .known (p := ∀ item ∈ calls, Plain item) (fun _ h => h.1) fun hcalls =>
    .pre (appendItems_stable hJ ?_) fun _ h => h.2
  intro item hitem
  rcases List.mem_append.mp hitem with hitem | hitem
  · rcases List.mem_append.mp hitem with hitem | hitem
    · exact plain_answerItem item hitem
    · exact plain_answerItem item hitem
  · exact hcalls item hitem

theorem toolCall_kept {message : String} {data : Fields} (hJ : Stable J) :
    Kept env J (toolCall env message data) := by
  refine .read_bind fun b => .pre (P := Has env J) ?_ fun _ h => h.1
  refine .ite (fun _ => .pure fun _ h => h) fun _ => .bind (R := fun _ => Has env J)
    (.ofExcept (fun _ _ _ h => h) fun _ _ => trivial) fun arguments => ?_
  exact appendItem_stable hJ (by simp [Plain, Fields.get_cons])

theorem terminalErrorPayload_ok {category message code : String} {retryable : Bool}
    {payload : Fields} (h : terminalErrorPayload category message retryable code = .ok payload) :
    payload = [("type", .str "error"), ("category", .str category), ("message", .str message),
      ("retryable", .bool retryable),
      ("status", .str "failed")] ++ (if code = "" then [] else [("code", .str code)]) := by
  obtain ⟨items, hitems, h⟩ := bind_ok.mp h
  obtain rfl := pure_ok.mp h
  have hone := normalizeContent_arr (l := [.obj _]) hitems
  rw [itemsJson, ← List.map_singleton (f := Json.obj)] at hone
  obtain rfl := List.map_injective_iff.mpr (fun _ _ h => Json.obj.inj h) (Json.arr.inj hone)
  rfl

theorem plain_terminalErrorPayload {category message code : String} {retryable : Bool}
    {payload : Fields} (h : terminalErrorPayload category message retryable code = .ok payload) :
    Plain payload := by
  rw [terminalErrorPayload_ok h]
  refine plain_of_none (plain_append ?_ ?_)
  · simp [Fields.get_cons]
  · split <;> rfl

theorem appendTerminalError_moves {category message code : String} {retryable : Bool}
    (hstatus : StableStatus J "success")
    (hopen : StableMessage J (assistantOf []))
    (hJ : ∀ payload, terminalErrorPayload category message retryable code = .ok payload →
      MovesItems J J' [normalized payload]) :
    Returns (Has env J) (appendTerminalError env category message retryable code) fun _ =>
      Has env J' := by
  refine .bind (R := fun payload b => terminalErrorPayload category message retryable code =
    .ok payload ∧ Has env J b)
    (.ofExcept (fun payload hpayload _ h => ⟨mapError_ok.mp hpayload, h⟩) fun _ _ => trivial)
      fun payload => ?_
  exact .known (fun _ h => h.1) fun hpayload =>
    .pre (appendItem_moves hstatus hopen (hJ payload hpayload)) fun _ h => h.2

theorem appendTerminalError_kept {category message code : String} {retryable : Bool}
    (hstatus : StableStatus J "success")
    (hopen : StableMessage J (assistantOf []))
    (hJ : ∀ payload, terminalErrorPayload category message retryable code = .ok payload →
      StableItems J [normalized payload]) :
      Kept env J (appendTerminalError env category message retryable code) :=
  appendTerminalError_moves hstatus hopen fun payload hpayload => (hJ payload hpayload).moves

/-! ## Compaction -/

theorem beginCompactTurn_kept {summary : String} (hJ : StableCompaction J) :
    Kept env J (beginCompactTurn env summary) := by
  refine .known (p := ∃ t, J t) (fun b ⟨t, ht, _⟩ => ⟨t, ht⟩) fun ⟨t₀, ht₀⟩ =>
    .read_bind fun b => ?_
  refine .pre (P := Open b.assistantAfterReport) ?_ ?_
  · split
    · exact .raise fun _ => trivial
    next source _ =>
    refine .bind (R := fun _ => Open b.assistantAfterReport)
      (.write fun b h => ⟨h.started, h.closed, h.afterReport⟩) fun _ => ?_
    refine .bind (R := fun _ => Open b.assistantAfterReport)
      (.whenever (fun _ => writeTurn_open) fun _ b h => h) fun _ => ?_
    refine .bind (R := fun s c => Open b.assistantAfterReport c ∧
      ∃ t : ValidTurn env.writer.host, t.val = s ∧ Compacted t) ?_
      fun compacted => ?_
    · exact onWriter_spec fun b s w h hx =>
        ⟨⟨h.started, h.closed, h.afterReport⟩, createCompactTurn_ok hx⟩
    refine .bind (R := fun s c => Open b.assistantAfterReport c ∧
      ∃ t : ValidTurn env.writer.host, t.val = s ∧ Compacted t ∧
      Holds env.writer c.writer t) ?_ fun taken => ?_
    · refine onWriter_spec ?_
      rintro c s w ⟨h, t, rfl, hcompacted⟩ hx
      obtain ⟨rfl, hholds⟩ := baseline_holds (t := t)
        (show Baseline.snapshot.perform env.writer t.val c.writer = (.ok s, w) from hx)
      exact ⟨⟨h.started, h.closed, h.afterReport⟩, t, rfl, hcompacted, hholds⟩
    refine .bind (R := fun _ c => c.started = true ∧ c.closed = false ∧ c.assistant = some taken ∧
      ∃ t : ValidTurn env.writer.host, t.val = taken ∧ Compacted t ∧ Holds env.writer c.writer t)
        (.write ?_) fun _ => ?_
    · rintro c ⟨h, hrest⟩
      exact ⟨h.started, h.closed, rfl, hrest⟩
    refine .bind (R := fun _ c => c.started = true ∧ c.closed = false ∧ c.assistant = some taken ∧
      ∃ t : ValidTurn env.writer.host, t.val = taken ∧ Compacted t ∧ Holds env.writer c.writer t)
        (.write fun _ h => h) fun _ => ?_
    refine .bind (R := fun _ => Has env J) (.bind activeTurn_some fun s => .write ?_) fun _ =>
      clearStream_kept
    rintro c ⟨⟨hstarted, hclosed, hassistant, t, rfl, hcompacted, hholds⟩, -⟩
    obtain ⟨user, items, hselected⟩ := hcompacted.selected
    refine ⟨t, hJ t₀ t hcompacted ht₀, hholds, hassistant, hstarted, hclosed, fun _ => ?_⟩
    rw [hselected, tail_append, roleOf_assistantOf]
    decide
  · rintro c ⟨⟨t, ht, hb⟩, hsame⟩
    obtain rfl : c = b := hsame
    exact ⟨hb.started, hb.closed, rfl⟩

end TurnBridge

end MiniAgent.Bridge
