import MiniAgent.Bridge.Changes

/-!
# The end of a Turn

`finish` settles every Item that runs before it seals the Turn, so that only the store can refuse
the sealed Turn; a Turn that fails says why. What the changes of a run keep is kept to the end, in
the Turn that the store has.
-/

namespace MiniAgent.Bridge

open Lib Turn Provider Store NodeWriter

namespace TurnBridge

variable {env : BridgeEnv} {J J' : ValidTurn env.writer.host → Prop}
  {t t' : ValidTurn env.writer.host} {b b' : TurnBridge}
  {i k : Nat} {status : String} {nodeStatus : NodeStatus}

/-! ## The end of a Turn -/

/-- The Turn has ended, and the store has the Turn of the bridge. -/
def Over (env : BridgeEnv) (J : ValidTurn env.writer.host → Prop) (b : TurnBridge) : Prop :=
  b.closed = true ∧ ∃ t, J t ∧ b.assistant = some t.val ∧
    b.writer.store t.val.key = some (.turn t.val)

/-- The store has the Turn of the bridge; its status is the last one, or the store refuses the Turn
with that status. -/
def SealedAs (env : BridgeEnv) (nodeStatus : NodeStatus) (J : ValidTurn env.writer.host → Prop)
    (b : TurnBridge) : Prop :=
  b.closed = true ∧ ∃ t, J t ∧ b.assistant = some t.val ∧
    b.writer.store t.val.key = some (.turn t.val) ∧
    (t.val.status = nodeStatus ∨ env.writer.updateRefusal b.writer.store
      { t.val with status := nodeStatus } ≠ none)

/-- Both are about the Turn of the bridge. -/
theorem SealedAs.and_over (h : SealedAs env nodeStatus J b) (hover : Over env J' b) :
    SealedAs env nodeStatus (fun t => J t ∧ J' t) b := by
  obtain ⟨hclosed, t, ht, hassistant, hstored, hstatus⟩ := h
  obtain ⟨-, t', ht', hassistant', -⟩ := hover
  obtain rfl : t = t' := Subtype.ext (Option.some.inj (hassistant.symm.trans hassistant'))
  exact ⟨hclosed, t, ⟨ht, ht'⟩, hassistant, hstored, hstatus⟩

theorem SealedAs.weaken (h : SealedAs env nodeStatus J b) (hJ : ∀ t, J t → J' t) :
    SealedAs env nodeStatus J' b := by
  obtain ⟨hclosed, t, ht, hturn⟩ := h
  exact ⟨hclosed, t, hJ t ht, hturn⟩

/-- The last write of a Turn: the bridge and the store have it with its last status, or as it
was. -/
theorem writeTurn_finalize {r : Except BridgeError Unit} (h : Keeps env t b)
    (hx : writeTurn env (fun _ => .finalize nodeStatus.text) b = (r, b')) :
    ∃ t' : ValidTurn env.writer.host, b'.assistant = some t'.val ∧
      b'.writer.store t'.val.key = some (.turn t'.val) ∧
      (t'.val = { t.val with status := nodeStatus } ∨
        (t' = t ∧ (nodeStatus = .running ∨ ¬ Sealable t ∨
          env.writer.updateRefusal b'.writer.store { t.val with status := nodeStatus } ≠
            none))) := by
  rcases hp : (WriterCall.finalize nodeStatus.text).perform env.writer t.val.key
    b.writer with ⟨r', w⟩
  rw [writeTurn_result h.assistant hp] at hx
  obtain ⟨hunsealable, rfl, hnone⟩ | ⟨value, hvalue, ⟨rfl, hnone, hrefused⟩ | ⟨rfl, -, hstored⟩⟩ :=
    finalize_cases h.holds hp
  · rcases r' with e | out
    · cases hx
      exact ⟨t, h.assistant, h.holds.stored, .inr ⟨rfl, hunsealable.imp_right .inl⟩⟩
    · exact absurd rfl (hnone out)
  · rcases r' with e | out
    · cases hx
      exact ⟨t, h.assistant, h.holds.stored, .inr ⟨rfl, .inr (.inr (hvalue ▸ hrefused))⟩⟩
    · exact absurd rfl (hnone out)
  · cases hx
    refine ⟨value, rfl, ?_, .inl hvalue⟩
    rw [show value.val.key = t.val.key by rw [hvalue]; rfl]
    exact hstored

/-- What `finalize` leaves, whether it raises or not. -/
theorem sealTurn_leaves {P Q : TurnBridge → Prop}
    (h : ∀ b b' r, P b → writeTurn env (fun _ => .finalize nodeStatus.text) b = (r, b') →
      Q { b' with closed := true }) :
    Returns P (sealTurn env nodeStatus) fun _ => Q :=
  .bind (R := fun _ b => Q { b with closed := true })
    (.attempt (fun b _ b' hb hx => h b b' _ hb hx) fun b _ b' hb hx =>
    h b b' _ hb hx) fun _ => .write fun _ hQ => hQ

theorem sealTurn_over (hJ : Stable J) :
    Returns (Has env J) (sealTurn env nodeStatus) fun _ => Over env J := by
  refine sealTurn_leaves fun b b' r ⟨t, ht, hb⟩ hx => ?_
  obtain ⟨t', hassistant, hstored, hsealed | ⟨rfl, -⟩⟩ := writeTurn_finalize hb hx
  · exact ⟨rfl, t', hJ t t' (.config (by rw [hsealed]) (by rw [hsealed]) (by rw [hsealed]; rfl)) ht,
      hassistant, hstored⟩
  · exact ⟨rfl, t', ht, hassistant, hstored⟩

theorem sealTurn_seals (hstatus : nodeStatus ≠ .running)
    (hJ : ∀ t t' : ValidTurn env.writer.host, selected t'.val = selected t.val → J t → J t') :
    Returns (Has env fun t => Sealable t ∧ J t) (sealTurn env nodeStatus) fun _ =>
      SealedAs env nodeStatus J := by
  refine sealTurn_leaves fun b b' r ⟨t, ⟨hsealable, ht⟩, hb⟩ hx => ?_
  obtain ⟨t', hassistant, hstored, hsealed | ⟨rfl, hrunning | hunsealable | hrefused⟩⟩ :=
    writeTurn_finalize hb hx
  · exact ⟨rfl, t', hJ t t' (by rw [hsealed]; rfl) ht, hassistant, hstored, .inl (by rw [hsealed])⟩
  · exact absurd hrunning hstatus
  · exact absurd hsealable hunsealable
  · exact ⟨rfl, t', ht, hassistant, hstored, .inr hrefused⟩

/-- The places of an Item that runs. -/
theorem mem_runningPlaces {version : List Fields} : (i, k) ∈ runningPlaces version ↔
    ∃ item, itemAt version i k = some item ∧ hasStatus "running" item = true := by
  simp only [runningPlaces, List.mem_flatMap, List.mem_map, List.mem_filter,
    Prod.exists, List.mem_zipIdx_iff_getElem?,
    Prod.mk.injEq, itemAt, Option.bind_eq_some_iff, Option.map_eq_some_iff]
  constructor
  · rintro ⟨m, i', hm, item, k', ⟨hitem, hrunning⟩, rfl, rfl⟩
    exact ⟨item, ⟨_, ⟨m, hm, rfl⟩, hitem⟩, hrunning⟩
  · rintro ⟨item, ⟨_, ⟨m, hm, rfl⟩, hitem⟩, hrunning⟩
    exact ⟨m, i, hm, item, k, ⟨hitem, hrunning⟩, rfl, rfl⟩

/-- Every Item that runs is in one of the places. -/
def Left (places : List (Nat × Nat)) (t : ValidTurn env.writer.host) : Prop :=
  ∀ p ∈ runningPlaces (selected t.val), p ∈ places

theorem hasStatus_withStatus {item : Fields} :
    hasStatus "running" (withStatus status item) = true ↔ status = "running" := by
  simp [hasStatus, withStatus]

theorem left_changed {places : List (Nat × Nat)} (hne : status ≠ "running")
    (h : Left ((i, k) :: places) t)
    (heq : t'.val = withSelected t.val (changeItem (withStatus status) i k (selected t.val))) :
    Left places t' := by
  rintro ⟨j, l⟩ hp
  obtain ⟨item, hitem, hrunning⟩ := mem_runningPlaces.mp hp
  rw [selected_of_eq heq, itemAt_changeItem] at hitem
  obtain ⟨old, hold, rfl⟩ := Option.map_eq_some_iff.mp hitem
  by_cases hsame : i = j ∧ k = l
  · rw [if_pos hsame] at hrunning
    exact absurd (hasStatus_withStatus.mp hrunning) hne
  · rw [if_neg hsame] at hrunning
    rcases List.mem_cons.mp (h (j, l) (mem_runningPlaces.mpr ⟨old, hold, hrunning⟩)) with
      heq' | hrest
    · obtain ⟨rfl, rfl⟩ := Prod.mk.inj heq'
      exact absurd ⟨rfl, rfl⟩ hsame
    · exact hrest

theorem endsWithAssistant_iff {data : List (List Fields)} :
    endsWithAssistant data = true ↔ ∀ version ∈ data, tailRole version =
      some (.str "assistant") := by
  rw [endsWithAssistant, List.all_eq_true]
  refine forall₂_congr fun version _ => ?_
  rw [tailRole]
  cases version.getLast? with
  | none => simp
  | some m => simp [roleOf]

theorem hasRunningItem_iff {data : List (List Fields)} :
    hasRunningItem data = false ↔ ∀ version ∈ data, runningPlaces version = [] := by
  simp only [hasRunningItem, List.any_eq_false, List.any_eq_true, not_exists, not_and]
  refine forall₂_congr fun version _ => ?_
  constructor
  · intro h
    refine List.eq_nil_iff_forall_not_mem.mpr ?_
    rintro ⟨i, k⟩ hp
    obtain ⟨item, hitem, hrunning⟩ := mem_runningPlaces.mp hp
    obtain ⟨items, hitems, hitem⟩ := Option.bind_eq_some_iff.mp hitem
    obtain ⟨m, hm, rfl⟩ := Option.map_eq_some_iff.mp hitems
    exact h m (List.mem_of_getElem? hm) item (List.mem_of_getElem? hitem) hrunning
  · intro h m hm item hitem hrunning
    obtain ⟨i, hi⟩ := List.mem_iff_getElem?.mp hm
    obtain ⟨k, hk⟩ := List.mem_iff_getElem?.mp hitem
    have hp := mem_runningPlaces.mpr ⟨item, by rw [itemAt, hi]; exact hk, hrunning⟩
    rw [h] at hp
    cases hp

/-- What can be sealed of a version. -/
def SealedVersion (version : List Fields) : Prop :=
  tailRole version = some (.str "assistant") ∧ runningPlaces version = []

theorem sealable_iff : Sealable t ↔ ∀ version ∈ t.val.data, SealedVersion version := by
  rw [Sealable, endsWithAssistant_iff, hasRunningItem_iff]
  exact ⟨fun h version hv => ⟨h.1 version hv, h.2 version hv⟩, fun h =>
    ⟨fun v hv => (h v hv).1, fun v hv => (h v hv).2⟩⟩

/-- The versions that are not selected could be sealed. -/
def OthersSealed (t : ValidTurn env.writer.host) : Prop :=
  ∀ i version, t.val.data[i]? = some version → i ≠ t.val.currentDataIdx → SealedVersion version

theorem othersSealed_withSelected {version : List Fields} (h : OthersSealed t)
    (heq : t'.val = withSelected t.val version) :
    OthersSealed t' := by
  intro i other hother hne
  rw [heq] at hother hne
  have hset : (t.val.data.set t.val.currentDataIdx version)[i]? = some other := hother
  rw [List.getElem?_set_ne (show t.val.currentDataIdx ≠ i from Ne.symm hne)] at hset
  exact h i other hset hne

theorem stable_othersSealed : Stable (@OthersSealed env) := by
  intro t t' hchange h
  cases hchange with
  | config hdata hidx _ =>
    intro i version hversion hne
    exact h i version (hdata ▸ hversion) (hidx ▸ hne)
  | message m hnew heq => exact othersSealed_withSelected h heq
  | items items i hitems heq => exact othersSealed_withSelected h heq
  | status status i k heq => exact othersSealed_withSelected h heq
  | text delta i k heq => exact othersSealed_withSelected h heq

theorem othersSealed_compacted (h : Compacted t) : OthersSealed t := by
  obtain ⟨user, items, hdata⟩ := h
  intro i version hversion hne
  have hidx := t.property.currentDataIdx
  rw [hdata, List.length_singleton, Nat.lt_one_iff] at hidx
  obtain ⟨hlt, -⟩ := List.getElem?_eq_some_iff.mp hversion
  rw [hdata, List.length_singleton, Nat.lt_one_iff] at hlt
  exact absurd (hlt.trans hidx.symm) hne

theorem stableCompaction_othersSealed : StableCompaction (@OthersSealed env) :=
  fun _ _ h _ => othersSealed_compacted h

/-- Only the Items of the selected version are left to settle. -/
structure Closing (t : ValidTurn env.writer.host) : Prop where
  others : OthersSealed t
  answered : tailRole (selected t.val) = some (.str "assistant")

theorem sealable_of_left (h : Closing t) (hleft : Left [] t) : Sealable t := by
  refine sealable_iff.mpr fun version hversion => ?_
  obtain ⟨i, hi⟩ := List.mem_iff_getElem?.mp hversion
  by_cases hidx : i = t.val.currentDataIdx
  · rw [hidx, getElem?_selected] at hi
    obtain rfl := Option.some.inj hi
    exact ⟨h.answered, List.eq_nil_iff_forall_not_mem.mpr fun p hp => List.not_mem_nil (hleft p hp)⟩
  · exact h.others i version hi hidx

theorem closing_modified {g : Fields → List Fields} (h : Closing t)
    (heq : t'.val = withSelected t.val ((selected t.val).modify i fun m => setItems (g m) m)) :
      Closing t' := by
  refine ⟨othersSealed_withSelected h.others heq, ?_⟩
  rw [selected_of_eq heq, tailRole_of_roles roles_modify]
  exact h.answered

theorem closing_answer (h : Closing t)
    (heq : t'.val = withSelected t.val (selected t.val ++ [assistantOf []])) : Closing t' := by
  refine ⟨othersSealed_withSelected h.others heq, ?_⟩
  rw [selected_of_eq heq, tail_append]
  rfl

/-! ## `finish` -/

theorem settleRunningItems_kept (hJ : StableStatus J status) :
    Kept env J (settleRunningItems env status) := by
  refine .read_bind fun b => .pre (P := Has env J) ?_ fun _ h => h.1
  split
  · exact .pure fun _ h => h
  · exact (Call.Spec.forEach (I := fun _ => Has env J) (fun _ _ => changeStatus_kept hJ) _).post
      fun _ _ h => h

/-- Every Item that runs gets its status. -/
theorem settleRunningItems_closing (hne : status ≠ "running") :
    Returns (Has env Closing) (settleRunningItems env status) fun _ => Has env fun t => Closing t ∧
      Left [] t := by
  refine .read_bind fun b => .known (p := ∃ t, Closing t ∧ Keeps env t b) ?_ fun ⟨t₀, _, hb⟩ => ?_
  · rintro b' ⟨h, hsame⟩
    obtain rfl : b' = b := hsame
    exact h
  rw [hb.assistant]
  refine .pre (P := Has env fun t => Closing t ∧ Left (runningPlaces (selected t₀.val)) t) ?_ ?_
  · refine Call.Spec.forEach (I := fun places => Has env fun t => Closing t ∧ Left places t)
      (fun p places => ?_) _
    exact changeStatus_moves fun t t' h heq => ⟨closing_modified h.1 heq, left_changed hne h.2 heq⟩
  · rintro b' ⟨⟨t, ht, hb'⟩, hsame⟩
    obtain rfl : b' = b := hsame
    obtain rfl : t₀ = t := Subtype.ext (Option.some.inj (hb.assistant.symm.trans hb'.assistant))
    exact ⟨t₀, ⟨ht, fun p hp => hp⟩, hb'⟩

theorem closing_of_answering (h : Answering env OthersSealed b) : Has env Closing b := by
  obtain ⟨hidx, t, ht, hb⟩ := h
  have hok := selected_versionOk t
  obtain ⟨m, hm⟩ := Option.isSome_iff_exists.mp (List.getLast?_isSome.mpr hok.ne_nil)
  obtain ⟨role, items, hmessage⟩ := hok.messageOk (List.mem_of_getLast? hm)
  have hlast : tailRole (selected t.val) = some (.str role) := by
    rw [tailRole, hm]
    exact hmessage.role_eq
  have htail := hb.answering (Option.isSome_iff_ne_none.mp hidx)
  rcases List.mem_pair.mp hmessage.role_mem with rfl | rfl
  · exact absurd hlast htail
  · exact ⟨t, ⟨ht, hlast⟩, hb⟩

theorem settledStatus_ne (nodeStatus : NodeStatus) : settledStatus nodeStatus ≠ "running" := by
  rw [settledStatus]
  split <;> decide

theorem left_addItems {items : List Fields}
    (hitems : ∀ item ∈ items, hasStatus "running" item = false) (h : Left [] t)
    (heq : t'.val = withSelected t.val (addItems items i (selected t.val))) : Left [] t' := by
  rintro ⟨j, l⟩ hp
  obtain ⟨item, hitem, hrunning⟩ := mem_runningPlaces.mp hp
  have hold : itemAt (selected t.val) j l ≠ some item := fun hold =>
    List.not_mem_nil (h _ (mem_runningPlaces.mpr ⟨item, hold, hrunning⟩))
  have hnew : item ∉ items := fun hmem => by
    rw [hitems item hmem] at hrunning
    cases hrunning
  rw [selected_of_eq heq, itemAt_addItems] at hitem
  obtain ⟨m, hm, hitem⟩ := Option.bind_eq_some_iff.mp hitem
  rw [itemAt, hm] at hold
  split at hitem
  · rcases List.mem_append.mp (List.mem_of_getElem? hitem) with hmem | hmem
    · rcases lt_or_ge l (messageItems m).length with hlt | hge
      · rw [List.getElem?_append_left hlt] at hitem
        exact absurd hitem hold
      · rw [List.getElem?_append_right hge] at hitem
        exact absurd (List.mem_of_getElem? hitem) hnew
    · exact absurd hmem hnew
  · exact absurd hitem hold

theorem left_answer (h : Left [] t)
    (heq : t'.val = withSelected t.val (selected t.val ++ [assistantOf []])) : Left [] t' := by
  rintro ⟨j, l⟩ hp
  obtain ⟨item, hitem, hrunning⟩ := mem_runningPlaces.mp hp
  rw [selected_of_eq heq] at hitem
  rcases lt_or_ge j (selected t.val).length with hlt | hge
  · rw [itemAt_append _ hlt] at hitem
    exact absurd (h _ (mem_runningPlaces.mpr ⟨item, hitem, hrunning⟩)) List.not_mem_nil
  · rw [itemAt, List.getElem?_append_right hge] at hitem
    obtain ⟨items, hitems, hitem⟩ := Option.bind_eq_some_iff.mp hitem
    obtain ⟨m, hm, rfl⟩ := Option.map_eq_some_iff.mp hitems
    rw [List.mem_singleton.mp (List.mem_of_getElem? hm)] at hitem
    cases hitem

/-- Closed but for what is added. -/
def Quiet (t : ValidTurn env.writer.host) : Prop := Closing t ∧ Left [] t

theorem quiet_status (hne : status ≠ "running") : StableStatus (@Quiet env) status :=
  fun _ _ _ _ h heq =>
  ⟨closing_modified h.1 heq, left_changed hne (fun p hp => absurd (h.2 p hp) List.not_mem_nil) heq⟩

theorem quiet_answer : StableMessage (@Quiet env) (assistantOf []) := fun _ _ h heq =>
  ⟨closing_answer h.1 heq, left_answer h.2 heq⟩

theorem quiet_items {items : List Fields}
    (hitems : ∀ item ∈ items, hasStatus "running" item = false) :
    StableItems (@Quiet env) items := fun _ _ _ h heq =>
      ⟨closing_modified h.1 heq, left_addItems hitems h.2 heq⟩

theorem failed_terminalErrorPayload {category message code : String} {retryable : Bool}
    {payload : Fields} (h : terminalErrorPayload category message retryable code = .ok payload) :
    payload.get "status" = some (.str "failed") := by
  rw [terminalErrorPayload_ok h]
  rfl

/-- `finish` until the Items are settled. -/
theorem finish_settles {finalAnswer code : String} {category : Option String}
    {Q : TurnBridge → Prop}
    (hrest : nodeStatus ≠ .running → Returns (Has env Quiet) (do
      Call.whenever (finalAnswer ≠ "" &&
        (nodeStatus = .failed || (nodeStatus = .paused && category ≠ some "user")))
        (appendTerminalError env (category.getD (if nodeStatus = .paused then "user" else "agent"))
          finalAnswer
          (nodeStatus = .paused) code)
      sealTurn env nodeStatus) fun _ => Q) :
    Returns (Has env OthersSealed) (finish env nodeStatus finalAnswer category code)
      fun _ => Q := by
  refine .read_bind fun b => .known (p := b.closed = false) ?_ fun hclosed => ?_
  · rintro b' ⟨⟨t, ht, hb⟩, hsame⟩
    obtain rfl : b' = b := hsame
    exact hb.closed
  refine .pre (P := Has env OthersSealed) ?_ fun _ h => h.1
  rw [hclosed]
  refine .ite nofun fun _ => .ite (fun _ => .raise fun _ => trivial) fun hstatus => ?_
  have hmodified : ∀ status, StableStatus (@Closing env) status :=
    fun _ _ _ _ _ h heq => closing_modified h heq
  have hopen : StableMessage (@Closing env) (assistantOf []) :=
    fun _ _ h heq => closing_answer h heq
  have hitems : ∀ items, StableItems (@Closing env) items := fun _ _ _ _ h heq =>
    closing_modified h heq
  refine .bind (R := fun _ => Has env Closing)
    ((ensureAssistantMessage_kept (stable_othersSealed.answer)).post fun _ _ h =>
    closing_of_answering h) fun _ => ?_
  refine .bind (finishStreamItem_kept (hmodified _)) fun _ => .read_bind fun b =>
    .pre (P := Has env Closing) ?_ fun _ h => h.1
  refine .bind (.whenever (fun _ => appendItem_kept (hmodified _) hopen (hitems _)) fun _ _ h => h)
    fun _ => ?_
  exact .bind (settleRunningItems_closing (settledStatus_ne nodeStatus)) fun _ => hrest hstatus

theorem normalized_terminalErrorPayload {category message code : String} {retryable : Bool}
    {payload : Fields} (h : terminalErrorPayload category message retryable code = .ok payload) :
    normalized payload = payload := by
  simp [normalized, setDefault, failed_terminalErrorPayload h]

theorem quiet_terminalError {category message code : String} {retryable : Bool} {payload : Fields}
    (h : terminalErrorPayload category message retryable code = .ok payload) :
    StableItems (@Quiet env) [normalized payload] := by
  refine quiet_items ?_
  intro item hitem
  obtain rfl := List.mem_singleton.mp hitem
  simp [normalized_terminalErrorPayload h, hasStatus, failed_terminalErrorPayload h]

/-- **`finish` seals the Turn**, unless the store refuses it. -/
theorem finish_closes {finalAnswer code : String} {category : Option String} :
    Returns (Has env OthersSealed) (finish env nodeStatus finalAnswer category code) fun _ =>
      SealedAs env nodeStatus fun _ => True := by
  refine finish_settles fun hstatus => .bind (R := fun _ => Has env Quiet)
    (.whenever (fun _ => ?_) fun _ _ h => h) fun _ =>
    .pre (sealTurn_seals hstatus fun _ _ _ _ => trivial) ?_
  · exact appendTerminalError_kept (quiet_status (by decide)) quiet_answer fun payload hpayload =>
      quiet_terminalError hpayload
  · rintro b ⟨t, ht, hb⟩
    exact ⟨t, ⟨sealable_of_left ht.1 ht.2, trivial⟩, hb⟩

/-- An Item is somewhere in the Turn. -/
def Contains (item : Fields) (t : ValidTurn env.writer.host) : Prop :=
  ∃ i k, itemAt (selected t.val) i k = some item

theorem contains_of_selected {item : Fields} (hsame : selected t'.val = selected t.val)
    (h : Contains item t) : Contains item t' := by
  obtain ⟨i, k, hitem⟩ := h
  exact ⟨i, k, by rw [hsame]; exact hitem⟩

theorem contains_addItems {items : List Fields} {item m : Fields} (hitem : item ∈ items)
    (hm : (selected t.val)[i]? = some m)
    (heq : t'.val = withSelected t.val (addItems items i (selected t.val))) : Contains item t' := by
  obtain ⟨k, hk⟩ := List.mem_iff_getElem?.mp hitem
  refine ⟨i, (messageItems m).length + k, ?_⟩
  rw [selected_of_eq heq, itemAt_addItems, hm, Option.bind_some, if_pos rfl,
    List.getElem?_append_right (Nat.le_add_right _ _),
    Nat.add_sub_cancel_left, hk]

/-- **A Turn that fails says why.** -/
theorem finish_failed {finalAnswer code : String} {category : Option String}
    (hanswer : finalAnswer ≠ "") :
    Returns (Has env OthersSealed) (finish env .failed finalAnswer category code) fun _ b =>
      ∃ payload,
      terminalErrorPayload (category.getD "agent") finalAnswer false code = .ok payload ∧
        SealedAs env .failed (Contains payload) b := by
  refine finish_settles fun hstatus => .bind (R := fun _ b => ∃ payload,
    terminalErrorPayload (category.getD "agent") finalAnswer false code = .ok payload ∧
      Has env (fun t => Quiet t ∧ Contains payload t) b)
        (.whenever (fun _ => ?_) fun hskip => ?_) fun _ => ?_
  · intro b hb
    obtain ⟨payload, hpayload⟩ | hnone :=
      em (∃ payload, terminalErrorPayload (category.getD "agent") finalAnswer false code =
        .ok payload)
    · have hmoves : Returns (Has env Quiet)
          (appendTerminalError env (category.getD "agent") finalAnswer false code)
          fun _ => Has env fun t => Quiet t ∧ Contains payload t := by
        refine appendTerminalError_moves (quiet_status (by decide)) quiet_answer
          fun payload' hpayload' t t' i m ht hm heq => ?_
        obtain rfl := Except.ok.inj (hpayload.symm.trans hpayload')
        refine ⟨quiet_terminalError hpayload t t' i ht heq, contains_addItems ?_ hm heq⟩
        rw [normalized_terminalErrorPayload hpayload]
        exact List.mem_singleton_self payload
      exact (hmoves.post fun _ _ h => ⟨payload, hpayload, h⟩) b hb
    · have hraises : Returns (Has env Quiet)
          (appendTerminalError env (category.getD "agent") finalAnswer false code)
          fun _ => Has env fun _ => False :=
        appendTerminalError_moves (quiet_status (by decide)) quiet_answer fun payload hpayload =>
          absurd ⟨payload, hpayload⟩ hnone
      exact (hraises.post fun _ _ h => h.choose_spec.1.elim) b hb
  · simp [hanswer] at hskip
  · refine .choose fun payload => .known (fun _ h => h.1) fun hpayload => ?_
    refine .pre ((sealTurn_seals (J := Contains payload) hstatus fun _ _ =>
      contains_of_selected).post fun _ _ h =>
      ⟨payload, hpayload, h⟩) ?_
    rintro b ⟨-, t, ⟨ht, hcontains⟩, hb⟩
    exact ⟨t, ⟨sealable_of_left ht.1 ht.2, hcontains⟩, hb⟩

/-- What the changes keep is kept to the end. -/
theorem finish_kept {finalAnswer code : String} {category : Option String} (hJ : Stable J) :
    Returns (Has env J) (finish env nodeStatus finalAnswer category code) fun _ => Over env J := by
  refine .read_bind fun b => .known (p := b.closed = false) ?_ fun hclosed => ?_
  · rintro b' ⟨⟨t, ht, hb⟩, hsame⟩
    obtain rfl : b' = b := hsame
    exact hb.closed
  refine .pre (P := Has env J) ?_ fun _ h => h.1
  rw [hclosed]
  refine .ite nofun fun _ => .ite (fun _ => .raise fun _ => trivial) fun hstatus => ?_
  refine .bind (R := fun _ => Has env J) ((ensureAssistantMessage_kept hJ.answer).post fun _ _ h =>
    h.2) fun _ => ?_
  refine .bind (finishStreamItem_kept (hJ.status _)) fun _ => .read_bind fun b =>
    .pre (P := Has env J) ?_ fun _ h => h.1
  refine .bind (.whenever (fun _ => appendItem_stable hJ (by simp [Plain, Fields.get_cons]))
    fun _ _ h => h) fun _ => ?_
  refine .bind (settleRunningItems_kept (hJ.status _)) fun _ => ?_
  refine .bind (R := fun _ => Has env J) (.whenever (fun _ => ?_) fun _ _ h => h) fun _ =>
    sealTurn_over hJ
  refine appendTerminalError_kept (hJ.status _) hJ.answer fun payload hpayload => hJ.items ?_
  intro item hitem
  obtain rfl := List.mem_singleton.mp hitem
  exact plain_normalized (plain_terminalErrorPayload hpayload)

end TurnBridge

end MiniAgent.Bridge
