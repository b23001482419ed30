import MiniAgent.Lib.Positions
import Mathlib.Algebra.GroupWithZero.Nat
import MiniAgent.Bridge.Histories

/-!
# Deliveries in a run

A steering message comes into the Turn once, however often its event comes, and stays there. A
report of an Agent does not come in twice either.
-/

namespace MiniAgent.Bridge

open Lib Turn Provider Store NodeWriter TurnBridge

/-! ## Counting -/

section Counts

variable {host : Host} {t t' : ValidTurn host} {version : List Fields} {m item : Fields}
  {items : List Fields} {i k : Nat}
  {deliveryId d : String}

theorem countP_modify_same {α : Type} {p : α → Bool} {f : α → α} {l : List α}
    (h : ∀ x, p (f x) = p x) :
    (l.modify i f).countP p = l.countP p := by
  have hmap := congrArg (List.countP id) (map_modify (i := i) (l := l) h)
  rwa [List.countP_map, List.countP_map, Function.id_comp] at hmap

theorem selected_of_config (hdata : t'.val.data = t.val.data)
    (hidx : t'.val.currentDataIdx = t.val.currentDataIdx) :
    selected t'.val = selected t.val := by
  rw [selected, hdata, hidx]
  rfl

/-! ### Steering messages -/

theorem isSteering_setItems : isSteering d (setItems items m) = isSteering d m := by
  simp [isSteering, setItems, Fields.get_set]

theorem isSteering_assistantOf : isSteering d (assistantOf items) = false := by
  simp [isSteering, assistantOf, Fields.get_cons]

theorem isSteering_userMessageOf : isSteering d (userMessageOf item deliveryId) = true ↔
    deliveryId ≠ "" ∧ deliveryId = d := by
  by_cases hempty : deliveryId = ""
  · simp [isSteering, userMessageOf, hempty, Fields.get_cons]
  · simp [isSteering, userMessageOf, hempty, Fields.get_cons]

/-- No steering message is in the Turn twice. -/
def SteeredOnce (t : ValidTurn host) : Prop :=
  ∀ d, d ≠ "" → (selected t.val).countP (isSteering d) ≤ 1

/-- A steering message is in the Turn. -/
def Carries (d : String) (t : ValidTurn host) : Prop := 0 < (selected t.val).countP (isSteering d)

theorem carries_of_mem (hm : m ∈ selected t.val) (h : isSteering d m = true) : Carries d t :=
  List.countP_pos_iff.mpr ⟨m, hm, h⟩

theorem carries_appended (hd : d ≠ "")
    (heq : t'.val = withSelected t.val (selected t.val ++ [userMessageOf item d])) :
    Carries d t' := by
  refine carries_of_mem (m := userMessageOf item d) ?_ (isSteering_userMessageOf.mpr ⟨hd, rfl⟩)
  rw [selected_of_eq heq]
  exact List.mem_append_right _ (List.mem_singleton_self _)

theorem countP_newMessage (hd : d ≠ "") (hm : NewMessage version m)
    (h : version.countP (isSteering d) ≤ 1) :
    (version ++ [m]).countP (isSteering d) ≤ 1 := by
  rw [List.countP_append]
  cases hm with
  | answer => simpa [isSteering_assistantOf] using h
  | report reply deliveryId => simpa [isSteering_assistantOf] using h
  | steering item deliveryId hnew =>
    by_cases hsame : deliveryId = d
    · obtain rfl := hsame
      have hnone : version.countP (isSteering deliveryId) = 0 :=
        List.countP_eq_zero.mpr fun m' hm' hsteering =>
        hnew hd (List.any_eq_true.mpr ⟨m', hm', hsteering⟩)
      rw [hnone, Nat.zero_add]
      exact List.countP_le_length
    · have hother : ¬ isSteering d (userMessageOf item deliveryId) = true :=
        fun h => hsame (isSteering_userMessageOf.mp h).2
      simpa [hother] using h

theorem steering_modified {g : Fields → List Fields}
    (heq : t'.val = withSelected t.val ((selected t.val).modify i fun m => setItems (g m) m)) :
    (selected t'.val).countP (isSteering d) = (selected t.val).countP (isSteering d) := by
  rw [selected_of_eq heq]
  exact countP_modify_same fun _ => isSteering_setItems

theorem stable_steeredOnce : Stable (@SteeredOnce host) := by
  intro t t' hchange h d hd
  cases hchange with
  | config hdata hidx _ =>
    rw [selected_of_config hdata hidx]
    exact h d hd
  | message m hnew heq =>
    rw [selected_of_eq heq]
    exact countP_newMessage hd hnew (h d hd)
  | items items i hitems heq => exact (steering_modified heq).le.trans (h d hd)
  | status status i k heq => exact (steering_modified heq).le.trans (h d hd)
  | text delta i k heq => exact (steering_modified heq).le.trans (h d hd)

theorem steeredOnce_compacted (h : Compacted t) : SteeredOnce t := by
  obtain ⟨user, items, hselected⟩ := h.selected
  intro d _
  rw [hselected, List.countP_append, List.countP_singleton (a := assistantOf items),
    isSteering_assistantOf]
  exact List.countP_le_length

theorem stable_carries : Stable (@Carries host d) := by
  intro t t' hchange h
  cases hchange with
  | config hdata hidx _ =>
    rw [Carries, selected_of_config hdata hidx]
    exact h
  | message m hnew heq =>
    rw [Carries, selected_of_eq heq, List.countP_append]
    exact Nat.lt_of_lt_of_le h (Nat.le_add_right _ _)
  | items items i hitems heq => exact Nat.lt_of_lt_of_le h (steering_modified heq).ge
  | status status i k heq => exact Nat.lt_of_lt_of_le h (steering_modified heq).ge
  | text delta i k heq => exact Nat.lt_of_lt_of_le h (steering_modified heq).ge

/-! ### Reports -/

/-- An Item of `append_subagent_report`. -/
def isAgentReport (d : String) (item : Fields) : Bool :=
  TurnBridge.isReport d item && item.get "event" == some (.str "agent_report")

/-- The reports of a delivery in a Message. -/
def reportsIn (d : String) (m : Fields) : Nat :=
  if IsAssistant m then (messageItems m).countP (isAgentReport d) else 0

/-- No report is in the Turn twice. -/
def ReportedOnce (t : ValidTurn host) : Prop := ∀ d, ((selected t.val).map (reportsIn d)).sum ≤ 1

theorem reportsIn_setItems
    (h : items.countP (isAgentReport d) = (messageItems m).countP (isAgentReport d)) :
    reportsIn d (setItems items m) = reportsIn d m := by
  rw [reportsIn, reportsIn, show messageItems (setItems items m) =
    items from messageItems_setContent m items, h]
  exact if_congr (by rw [IsAssistant, IsAssistant, setItems, Fields.get_set, if_neg (by decide)])
    rfl rfl

theorem isAgentReport_plain (h : Plain item) : isAgentReport d item = false := by
  rw [isAgentReport, Bool.and_eq_false_iff]
  exact .inr (beq_eq_false_iff_ne.mpr h)

theorem reportsIn_answer : reportsIn d (assistantOf []) = 0 := by
    simp [reportsIn, show messageItems (assistantOf []) = [] from rfl]

theorem messageItems_report (reply deliveryId : String) :
    messageItems (assistantOf [reportItem reply deliveryId]) = [reportItem reply deliveryId] := rfl

theorem reportsIn_userMessageOf : reportsIn d (userMessageOf item deliveryId) = 0 := by
  simp [reportsIn, IsAssistant, userMessageOf, Fields.get_cons]

theorem reportsIn_none (hnew : ¬ (version.flatMap messageItems).any (TurnBridge.isReport d)) :
    (version.map (reportsIn d)).sum = 0 := by
  refine List.sum_eq_zero_iff_forall_eq_nat.mpr fun n hn => ?_
  obtain ⟨m, hm, rfl⟩ := List.mem_map.mp hn
  rw [reportsIn]
  split
  · refine List.countP_eq_zero.mpr fun item hitem hreport =>
      hnew (List.any_eq_true.mpr ⟨item, ?_, ?_⟩)
    · exact List.mem_flatMap.mpr ⟨m, hm, hitem⟩
    · exact (Bool.and_eq_true_iff.mp hreport).1
  · rfl

theorem reports_newMessage (hm : NewMessage version m) (h : (version.map (reportsIn d)).sum ≤ 1) :
    ((version ++ [m]).map (reportsIn d)).sum ≤ 1 := by
  rw [List.map_append, List.sum_append, List.map_singleton, List.sum_singleton]
  cases hm with
  | answer => rwa [reportsIn_answer, Nat.add_zero]
  | report reply deliveryId hnew =>
    by_cases hsame : deliveryId = d
    · obtain rfl := hsame
      rw [reportsIn_none hnew, Nat.zero_add, reportsIn, messageItems_report]
      split
      · exact List.countP_le_length
      · exact Nat.zero_le 1
    · have hother : isAgentReport d (reportItem reply deliveryId) = false := by
        simp [isAgentReport, TurnBridge.isReport, reportItem, Fields.get_cons, hsame]
      rw [reportsIn, messageItems_report, List.countP_singleton, hother]
      simpa using h
  | steering item deliveryId hnew => rwa [reportsIn_userMessageOf, Nat.add_zero]

theorem reportedOnce_new (hrole : roleOf m = some (.str "user"))
    (hdata : t.val.data = [[m, assistantOf []]]) : ReportedOnce t := by
  have hidx := t.property.currentDataIdx
  rw [hdata, List.length_singleton, Nat.lt_one_iff] at hidx
  have hselected : selected t.val = [m, assistantOf []] := by simp [selected, hdata, hidx]
  have huser : ∀ d, reportsIn d m = 0 := fun d => if_neg fun h => by
    have hsame := (show roleOf m = some (.str "assistant") from h).symm.trans hrole
    simp at hsame
  intro d
  simp [hselected, huser, reportsIn_answer]

theorem reports_modified {g : Fields → List Fields} (h : ReportedOnce t)
    (hg : ∀ d m, (g m).countP (isAgentReport d) = (messageItems m).countP (isAgentReport d))
    (heq : t'.val = withSelected t.val ((selected t.val).modify i fun m => setItems (g m) m)) :
      ReportedOnce t' := by
  intro d
  rw [selected_of_eq heq, map_modify fun m => reportsIn_setItems (hg d m)]
  exact h d

theorem isAgentReport_set {name : String} {value : Json} (htype : name ≠ "type")
    (hdelivery : name ≠ "delivery_id") (hevent : name ≠ "event") :
    isAgentReport d (item.set name value) = isAgentReport d item := by
  simp [isAgentReport, TurnBridge.isReport, hasType, Fields.get_set, htype, hdelivery, hevent]

theorem isAgentReport_withText {delta : String} :
    isAgentReport d (withText delta item) = isAgentReport d item := by
  unfold withText
  split
  · exact isAgentReport_set (by decide) (by decide) (by decide)
  · rfl

theorem stable_reportedOnce : Stable (@ReportedOnce host) := by
  intro t t' hchange h
  cases hchange with
  | config hdata hidx _ =>
    intro d
    rw [selected_of_config hdata hidx]
    exact h d
  | message m hnew heq =>
    intro d
    rw [selected_of_eq heq]
    exact reports_newMessage hnew (h d)
  | items items i hitems heq =>
    refine reports_modified h (fun d m => ?_) heq
    have hnone : items.countP (isAgentReport d) = 0 := List.countP_eq_zero.mpr fun item hitem =>
      Bool.eq_false_iff.mp (isAgentReport_plain (hitems item hitem))
    rw [List.countP_append, hnone, Nat.add_zero]
  | status status i k heq =>
    exact reports_modified h (fun d m => countP_modify_same fun _ =>
      isAgentReport_set (by decide) (by decide) (by decide)) heq
  | text delta i k heq =>
    exact reports_modified h (fun d m => countP_modify_same fun _ => isAgentReport_withText) heq

end Counts

namespace TurnBridge

variable {env : BridgeEnv} {J : ValidTurn env.writer.host → Prop} {t : ValidTurn env.writer.host}
  {b : TurnBridge} {event : RuntimeEvent}

/-! ## Deliveries over a run -/

theorem stable_and {host : Host} {J J' : ValidTurn host → Prop} (h : Stable J) (h' : Stable J') :
    Stable fun t => J t ∧ J' t :=
  fun t t' hchange hboth => ⟨h t t' hchange hboth.1, h' t t' hchange hboth.2⟩

/-- A message that says something. -/
def Says (env : BridgeEnv) (data : Fields) : Prop :=
  ¬ (String.ofList (Queue.strip (textOf env data "content" "").toList) = "" ∧
    (pyOr (data.get "references") none).isNone)

def deliveryOf (env : BridgeEnv) (data : Fields) : String := textOf env data "delivery_id" ""

/-- A steering message that was applied is in the Turn. -/
theorem appendSteeringMessage_carries {data : Fields} (hJ : Stable J) (hsaid : Says env data)
    (hid : deliveryOf env data ≠ "") :
    Returns (Has env J) (appendSteeringMessage env data) fun _ => Has env fun t => J t ∧
      Carries (deliveryOf env data) t := by
  refine .ite (fun hnothing => absurd hnothing hsaid) fun _ =>
    .bind (finishStreamItem_kept (hJ.status _)) fun _ => ?_
  refine .bind activeTurn_some fun s => .ite (fun hold => .pure ?_) fun hnew => ?_
  · rintro b ⟨⟨t, ht, hb⟩, hs⟩
    obtain rfl : t.val = s := Option.some.inj (hb.assistant.symm.trans hs)
    obtain ⟨m, hm, hsteering⟩ := List.any_eq_true.mp hold.2
    exact ⟨t, ⟨ht, carries_of_mem hm hsteering⟩, hb⟩
  refine .bind (appendWhole_kept (J := fun t => J t ∧ Carries (deliveryOf env data) t)
    ⟨_, content_userMessageOf _ _⟩ ?_) fun _ => ?_
  · rintro b ⟨⟨t, ht, hb⟩, hs⟩
    obtain rfl : t.val = s := Option.some.inj (hb.assistant.symm.trans hs)
    exact ⟨t, hb, fun t' heq =>
      ⟨hJ t t' (.message _ (.steering _ _ fun hne hmem => hnew ⟨hne, hmem⟩) heq) ht,
      carries_appended hid heq⟩⟩
  · refine .bind (R := fun _ b => Has env _ { b with assistantMessageIdx := none })
      (.write fun _ h => ?_) fun _ => .write fun _ h => h
    exact h.2.frame rfl rfl ⟨rfl, rfl⟩ rfl

theorem handle_steering (hJ : Stable J) (hkind : event.kind = "steering_applied")
    (hsaid : Says env event.data) (hid : deliveryOf env event.data ≠ "") :
    Returns (Has env J) (handle env event) fun _ => Has env fun t => J t ∧
      Carries (deliveryOf env event.data) t := by
  refine .read_bind fun b => .known (p := b.closed = false ∧ b.started = true) ?_ fun hlive =>
    .pre (P := Has env J) ?_ fun _ h => h.1
  · rintro b' ⟨⟨t, ht, hb⟩, hsame⟩
    obtain rfl : b' = b := hsame
    exact ⟨hb.closed, hb.started⟩
  refine .ite (fun hdead => ?_) fun _ => .bind (applyEventConfig_kept hJ) fun _ =>
    .bind (applyEventUsage_kept hJ) fun _ => ?_
  · simp [hlive.1, hlive.2, hkind, hiddenRecoverableEvents] at hdead
  · rw [show project env event.kind event.message event.data =
      appendSteeringMessage env event.data by simp [project, hkind]]
    exact appendSteeringMessage_carries hJ hsaid hid

/-- **A steering message is in the Turn exactly once** after its event, however often the event
comes, as long as the Turn is not compacted. -/
theorem steering_once (env : BridgeEnv) (settings : RuntimeEventNodeBridge)
    (turn : TurnStart env.writer.host) (before after : List Step) (event : RuntimeEvent)
    (b₀ b₁ b₂ b : TurnBridge) (hstart : start env turn (new settings) = (.ok (), b₀))
    (honce : ∀ t : ValidTurn env.writer.host, b₀.assistant = some t.val → SteeredOnce t)
    (htimely : InTime env before b₀) (hbefore : run env before b₀ = (.ok (), b₁))
    (hopen : b₁.closed = false) (hkind : event.kind = "steering_applied")
    (hsaid : Says env event.data) (hid : deliveryOf env event.data ≠ "")
    (hstep : step env (.event event) b₁ = (.ok (), b₂)) (htimely' : InTime env after b₂)
    (hafter : run env after b₂ = (.ok (), b)) (hcompact : ∀ s ∈ after, ¬ Compacts s) :
    ∃ t : ValidTurn env.writer.host, b.assistant = some t.val ∧
      b.writer.store t.val.key = some (.turn t.val) ∧
      (selected t.val).countP (isSteering (deliveryOf env event.data)) = 1 := by
  have hbegin : Within env SteeredOnce b₁ := run_within stable_steeredOnce
    (fun _ _ t hcompacted _ => steeredOnce_compacted hcompacted) hstart honce htimely hbefore
  have happlied := (handle_steering stable_steeredOnce hkind hsaid hid).result
    (hbegin.has hopen) hstep
  have hstable := stable_and (@stable_steeredOnce env.writer.host)
    (@stable_carries env.writer.host (deliveryOf env event.data))
  obtain ⟨t, ⟨honce, hcarries⟩, hassistant, hstored⟩ :=
    ((run_kept hstable fun ⟨s, hs, h⟩ => absurd h (hcompact s hs)).result
      ⟨.inl happlied, htimely'⟩ hafter).stored
  exact ⟨t, hassistant, hstored, Nat.le_antisymm (honce _ hid) hcarries⟩

/-- The Turns that a new Turn starts with. -/
theorem once_first {b₀ : TurnBridge}
    (hstart : start openBridge firstTurn (new plainSettings) = (.ok (), b₀))
    (t : ValidTurn openBridge.writer.host) (ht : b₀.assistant = some t.val) :
    SteeredOnce t ∧ ReportedOnce t := by
  obtain ⟨t₀, hstarts, hkeeps⟩ := start_keeps.result rfl hstart
  obtain rfl : t₀ = t := Subtype.ext (Option.some.inj (hkeeps.assistant.symm.trans ht))
  obtain ⟨user, hrole, hdata⟩ := newTurn_data (hstarts _ _ _ _ _ rfl)
  exact ⟨steeredOnce_compacted ⟨user, [], hdata⟩, reportedOnce_new hrole hdata⟩

def goOn : RuntimeEvent :=
  ⟨"steering_applied", "", [("content", .str "go on"), ("delivery_id", .str "d1")]⟩

def goOnTwice : Option TurnBridge :=
  (outcome (start openBridge firstTurn) (new plainSettings)).bind fun b₀ =>
    if b₀.closed then none
    else (outcome (step openBridge (.event goOn)) b₀).bind fun b₂ =>
      outcome (run openBridge [.event goOn]) b₂

theorem isSome_goOnTwice : goOnTwice.isSome = true := by decide +kernel

/-- The event comes twice. -/
theorem steering_once_goOn :
    ∃ b₀ b₂ b, start openBridge firstTurn (new plainSettings) = (.ok (), b₀) ∧
    step openBridge (.event goOn) b₀ = (.ok (), b₂) ∧ run openBridge [.event goOn] b₂ =
      (.ok (), b) ∧
    ∃ t : ValidTurn openBridge.writer.host, b.assistant = some t.val ∧
      b.writer.store t.val.key = some (.turn t.val) ∧
      (selected t.val).countP (isSteering (deliveryOf openBridge goOn.data)) = 1 := by
  obtain ⟨b, hb⟩ := Option.isSome_iff_exists.mp isSome_goOnTwice
  rw [goOnTwice, Option.bind_eq_some_iff] at hb
  obtain ⟨b₀, hstart, hb⟩ := hb
  split at hb
  · cases hb
  next hopen =>
  rw [Option.bind_eq_some_iff] at hb
  obtain ⟨b₂, hstep, hb⟩ := hb
  have hopen : b₀.closed = false := Bool.eq_false_iff.mpr hopen
  have hagain : ∀ s ∈ [Step.event goOn], ¬ Compacts s := by
    intro s hs
    obtain rfl := List.mem_singleton.mp hs
    simp [Compacts, goOn]
  have hevents : ∀ s ∈ [Step.event goOn], ∃ e, s = .event e := fun s hs =>
    ⟨goOn, List.mem_singleton.mp hs⟩
  exact ⟨b₀, b₂, b, outcome_some hstart, outcome_some hstep, outcome_some hb,
    steering_once openBridge plainSettings firstTurn []
    [.event goOn] goOn b₀ b₀ b₂ b (outcome_some hstart)
      (fun t ht => (once_first (outcome_some hstart) t ht).1) trivial rfl
        hopen rfl (by unfold Says; decide +kernel)
      (by decide +kernel) (outcome_some hstep) (inTime_of_events hevents b₂)
      (outcome_some hb) hagain⟩

/-- **No report of an Agent comes into the Turn twice.** -/
theorem reports_once (env : BridgeEnv) (settings : RuntimeEventNodeBridge)
    (turn : TurnStart env.writer.host) (steps : List Step) (b₀ b : TurnBridge)
    (hstart : start env turn (new settings) = (.ok (), b₀))
    (honce : ∀ t : ValidTurn env.writer.host, b₀.assistant = some t.val → ReportedOnce t)
    (htimely : InTime env steps b₀) (hrun : run env steps b₀ = (.ok (), b))
    (hcompact : ∀ s ∈ steps, ¬ Compacts s) :
    ∃ t : ValidTurn env.writer.host, b.assistant = some t.val ∧
      b.writer.store t.val.key = some (.turn t.val) ∧
      ReportedOnce t := by
  obtain ⟨t, ht, hassistant, hstored⟩ :=
    (run_within stable_reportedOnce (fun ⟨s, hs, h⟩ => absurd h (hcompact s hs))
    hstart honce htimely hrun).stored
  exact ⟨t, hassistant, hstored, ht⟩

def agentDone : RuntimeEvent :=
  ⟨"subagent_report", "", [("reply_content", .str "done"), ("delivery_id", .str "d1")]⟩

def doneTwice : Option TurnBridge :=
  (outcome (start openBridge firstTurn) (new plainSettings)).bind fun b₀ =>
    outcome (run openBridge [.event agentDone, .event agentDone]) b₀

theorem isSome_doneTwice : doneTwice.isSome = true := by decide +kernel

/-- The event comes twice. -/
theorem reports_once_done : ∃ b₀ b, start openBridge firstTurn (new plainSettings) = (.ok (), b₀) ∧
    run openBridge [.event agentDone, .event agentDone] b₀ = (.ok (), b) ∧
    ∃ t : ValidTurn openBridge.writer.host, b.assistant = some t.val ∧
      b.writer.store t.val.key = some (.turn t.val) ∧
      ReportedOnce t := by
  obtain ⟨b, hb⟩ := Option.isSome_iff_exists.mp isSome_doneTwice
  rw [doneTwice, Option.bind_eq_some_iff] at hb
  obtain ⟨b₀, hstart, hb⟩ := hb
  have hsteps : ∀ s ∈ [Step.event agentDone, .event agentDone], s = .event agentDone :=
    fun s hs => by simpa using hs
  refine ⟨b₀, b, outcome_some hstart, outcome_some hb,
    reports_once openBridge plainSettings firstTurn [.event agentDone, .event agentDone]
      b₀ b (outcome_some hstart)
      (fun t ht => (once_first (outcome_some hstart) t ht).2)
        (inTime_of_events (fun s hs => ⟨agentDone, hsteps s hs⟩) b₀)
      (outcome_some hb) fun s hs => ?_⟩
  rw [hsteps s hs]
  simp [Compacts, agentDone]

end TurnBridge

end MiniAgent.Bridge
