import MiniAgent.Turn.Reducer

/-!
# What the backend accepts, the browser accepts

The two sides check Messages and Items with separate code. Every Item that passes `checkItem`
passes the browser's retry check and its test on a new Item, and every Message of an accepted
version passes both Message checks. So the browser can refuse a constructed Turn for its model or
its provider only, and a patch of it for nothing else (`normalizeRuntimeNode_toDict`,
`patchValueOk_configFields`).
-/

namespace MiniAgent.Turn.Browser

open Lib

/-! ## Numbers -/

@[simp] theorem jsInteger_int (n : Int) : jsInteger (some (.int n)) = some n := by
  simp [jsInteger, Json.num?]

theorem integerFrom_of_isIntFrom {n : Int} {v : Option Json} (h : isIntFrom n v = true) :
    integerFrom n v = true := by
  unfold isIntFrom at h
  split at h
  · simpa [integerFrom] using h
  · cases h

theorem isDelay_of_isAmount {v : Option Json} (h : isAmount v = true) : isDelay v = true := by
  unfold isAmount at h
  split at h
  · next k =>
    have hk : (0 : Int) ≤ k := of_decide_eq_true h
    simpa [isDelay, Json.num?] using Rat.intCast_nonneg.mpr hk
  · next q => simpa [isDelay, Json.num?] using h
  · cases h

/-! ## Items -/

theorem retriesCover_of_coversAttempt {item : Fields} (h : coversAttempt item = true) :
    retriesCover item = true := by
  unfold coversAttempt at h
  split at h
  · next attempt ha =>
    unfold retriesCover
    rw [ha, jsInteger_int]
    exact integerFrom_of_isIntFrom h
  · cases h

theorem jsStringOf_str (s : String) : jsStringOf (some (.str s)) = s := rfl

theorem checkItem_type {item : Fields} (h : checkItem item = .ok ()) :
    ∃ s ∈ contentBlockTypes, item.get "type" = some (.str s) := by
  simp only [checkItem, bind_ok, exists_unit, requireIn_ok] at h
  exact h.1

theorem checkItem_status {item : Fields} (h : checkItem item = .ok ()) :
    ∃ s ∈ itemStatuses, item.get "status" = some (.str s) := by
  simp only [checkItem, bind_ok, exists_unit, requireIn_ok] at h
  exact h.2.1

theorem checkItem_validateRetryItem {item : Fields} (h : checkItem item = .ok ()) :
    validateRetryItem (.obj item) = .ok () := by
  obtain ⟨status, hs, hstatus⟩ := checkItem_status h
  unfold validateRetryItem
  rw [whenever_ok, require_ok]
  intro htype
  have htype : item.get "type" = some (.str "retry") := by simpa [objectValue] using htype
  simp only [checkItem, bind_ok, exists_unit, whenever_ok] at h
  obtain ⟨-, -, -, -, -, -, hretry, -⟩ := h
  have hretry := hretry (by simp [hasType, htype])
  simp only [checkRetry, bind_ok, exists_unit, require_ok] at hretry
  obtain ⟨h1, h2, h3, h4, h5, h6⟩ := hretry
  simp only [objectValue, Bool.and_eq_true]
  refine ⟨⟨⟨⟨⟨⟨h1, h2⟩, h3⟩, integerFrom_of_isIntFrom h4⟩, retriesCover_of_coversAttempt h5⟩,
    isDelay_of_isAmount h6⟩, ?_⟩
  rw [hstatus, jsStringOf_str]
  simpa using hs

theorem checkItem_newItemOk {item : Fields} (h : checkItem item = .ok ()) :
    newItemOk item = true := by
  obtain ⟨type, ht, htype⟩ := checkItem_type h
  obtain ⟨status, hs, hstatus⟩ := checkItem_status h
  have hne : type ≠ "" := by rintro rfl; revert ht; decide
  simpa [newItemOk, htype, hstatus, isText, jsStringOf_str, hne] using hs

theorem validateItems_itemsJson {items : List Fields}
    (h : ∀ item ∈ items, checkItem item = .ok ()) :
    validateItems (items.map .obj) = .ok () := by
  induction items with
  | nil => rfl
  | cons item items ih =>
    simp only [List.map_cons, validateItems, bind_ok, exists_unit]
    exact ⟨checkItem_validateRetryItem (h item List.mem_cons_self),
      ih fun x hx => h x (List.mem_cons_of_mem _ hx)⟩

/-! ## Messages -/

theorem userContentOk_of_userItemOk {items : List Fields} (hlen : items.length = 1)
    (h : userItemOk items = true) : userContentOk (items.map .obj) = true := by
  match items, hlen with
  | [item], _ => exact h

variable {message : Fields} {role : String} {items : List Fields}

theorem arrayOf_content (h : MessageOk message role items) :
    arrayOf (message.get "content") = some (items.map .obj) := by
  rw [h.content_eq]; rfl

/-- The tests the two Message checks of the browser share. -/
theorem messageOk_tests (h : MessageOk message role items) :
    messageRoles.contains (jsStringOf (message.get "role")) = true ∧
    (isUser (message.get "role") = true →
      userContentOk ((arrayOf (message.get "content")).getD []) = true) ∧
    validateItems ((arrayOf (message.get "content")).getD []) = .ok () := by
  rw [arrayOf_content h, h.role_eq, jsStringOf_str, isUser_str]
  refine ⟨by simpa using h.role_mem, fun hu => ?_, validateItems_itemsJson h.items_ok⟩
  exact userContentOk_of_userItemOk (h.user hu).1 (h.user hu).2

theorem checkNewMessage_ok {previous : Option Fields} (h : MessageOk message role items)
    (hprev : role = "user" → isUser (previous.bind fun m => m.get "role") = false) :
    checkNewMessage previous message = .ok () := by
  obtain ⟨hroles, huser, hitems⟩ := messageOk_tests h
  simp only [checkNewMessage, bind_ok, exists_unit, require_ok, whenever_ok]
  refine ⟨?_, ?_, huser, hitems⟩
  · rw [hroles, arrayOf_content h]; rfl
  · by_cases hu : role = "user"
    · simp [hprev hu]
    · have : isUser (message.get "role") = false := by
        rw [h.role_eq]; simpa [isUser] using hu
      simp [this]

theorem checkMessage_ok {first : Bool} {previous : Option Fields} (h : MessageOk message role items)
    (hfirst : first = true → role = "user")
    (hprev : role = "user" → first = true ∨ isUser (previous.bind fun m => m.get "role") = false) :
    checkMessage first previous message = .ok () := by
  obtain ⟨hroles, huser, hitems⟩ := messageOk_tests h
  have hrole : isUser (message.get "role") = true ↔ role = "user" := by rw [h.role_eq, isUser_str]
  simp only [checkMessage, bind_ok, exists_unit, require_ok, whenever_ok]
  refine ⟨?_, ?_, huser, hitems⟩
  · rw [hroles, arrayOf_content h]
    cases first with
    | false => rfl
    | true => simp [hrole.mpr (hfirst rfl)]
  · cases hu : isUser (message.get "role") with
    | false => rfl
    | true => rcases hprev (hrole.mp hu) with rfl | hp <;> simp [*]

/-! ## Versions -/

theorem normalizeMessages_ok : ∀ {version : List Fields} {prev : Option String} {first : Bool}
    {previous : Option Fields}, Accepted prev version →
    (previous.bind fun m => m.get "role") = prev.map .str →
    (first = true → ∀ m ∈ version.head?, m.get "role" = some (.str "user")) →
    normalizeMessages first previous (version.map .obj) = .ok version
  | [], _, _, _, _, _, _ => rfl
  | m :: rest, prev, first, previous, h, hp, hfirst => by
    obtain ⟨role, items, hm, hc, hrest⟩ := h
    simp only [List.map_cons, normalizeMessages, bind_ok, exists_unit, pure_ok]
    refine ⟨checkMessage_ok hm (fun hf => ?_) (fun hu => .inr ?_), rest,
      normalizeMessages_ok hrest (by simp [hm.role_eq]) (by simp), rfl⟩
    · have := hfirst hf m rfl
      rw [hm.role_eq] at this
      simpa using this
    · rw [hp]
      have hne : prev ≠ some "user" := fun e => hc ⟨hu, e⟩
      cases prev with
      | none => rfl
      | some p => simpa [isUser] using hne

theorem endsWithAssistant_eq (data : List (List Fields)) :
    endsWithAssistant data = Turn.endsWithAssistant data := by
  unfold endsWithAssistant Turn.endsWithAssistant
  congr 1
  funext version
  cases version.getLast? <;> simp

theorem normalizeVersions_ok {running : Bool} {data : List (List Fields)}
    (h : ∀ version ∈ data, VersionOk version)
    (hends : running = true ∨ endsWithAssistant data = true) :
    normalizeVersions running (data.map versionJson) = .ok data := by
  induction data with
  | nil => rfl
  | cons version rest ih =>
    have hv := h version List.mem_cons_self
    have hends' : (running || endsWithAssistant [version]) = true ∧
        (running = true ∨ endsWithAssistant rest = true) := by
      rcases hends with hr | he
      · simp [hr]
      · rw [endsWithAssistant, List.all_cons, Bool.and_eq_true] at he
        exact ⟨by simp [endsWithAssistant, he.1], .inr he.2⟩
    have hnorm : normalizeMessages true none (version.map .obj) = .ok version :=
      normalizeMessages_ok hv.accepted rfl fun _ => hv.first_user
    obtain ⟨m, ms, rfl⟩ := List.exists_cons_of_ne_nil hv.ne_nil
    simp only [List.map_cons, versionJson, normalizeVersions, bind_ok, exists_unit, pure_ok,
      require_ok]
    exact ⟨_, hnorm, hends'.1, rest,
      ih (fun x hx => h x (List.mem_cons_of_mem _ hx)) hends'.2, rfl⟩

/-! ## Members of a Turn -/

/-- The model values a patch may carry. -/
structure ModelShown (m : ModelConfig) : Prop where
  context : m.outputLength < m.contextLength
  temperature : 0 ≤ m.temperature ∧ m.temperature ≤ 2

theorem defaultModel_shown : ModelShown defaultModel := ⟨by decide, by decide, by decide⟩

theorem contains_reasoningEfforts (e : ReasoningEffort) : reasoningEfforts.contains e.text := by
  cases e <;> decide

theorem contains_thinkingModes (t : ThinkingMode) : thinkingModes.contains t.text := by
  cases t <;> decide

theorem contains_nodeStatuses (t : NodeStatus) : nodeStatuses.contains t.text := by
  cases t <;> decide

theorem contains_permissionModes (t : PermissionMode) : permissionModes.contains t.text := by
  cases t <;> decide

theorem contains_runningModes (t : RunningMode) : runningModes.contains t.text := by
  cases t <;> decide

theorem integerFrom_int {n k : Int} : integerFrom n (some (.int k)) = true ↔ n ≤ k := by
  simp [integerFrom]

theorem isTokenCount_tokenJson (n : Option Nat) : isTokenCount (some (tokenJson n)) = true := by
  cases n with
  | none => rfl
  | some n => simp [isTokenCount, tokenJson, integerFrom_int]

theorem isTokenCount_usage (u : Usage) :
    (usageFields.all fun name => isTokenCount (u.toDict.get name)) = true := by
  have h : ∀ name ∈ usageFields, ∃ n, u.toDict.get name = some (tokenJson n) := by
    intro name hname
    simp only [usageFields, List.mem_cons, List.not_mem_nil, or_false] at hname
    rcases hname with rfl | rfl | rfl | rfl | rfl <;> exact ⟨_, rfl⟩
  rw [List.all_eq_true]
  intro name hname
  obtain ⟨n, hn⟩ := h name hname
  rw [hn, isTokenCount_tokenJson]

theorem patchModelOk_toDict {m : ModelConfig} (hm : m.Wf) :
    patchModelOk m.toDict = true ↔ ModelShown m := by
  have h1 := contains_reasoningEfforts m.reasoningEffort
  have h2 := contains_thinkingModes m.thinking
  have get : m.toDict.get "reasoning_effort" = some (.str m.reasoningEffort.text) ∧
      m.toDict.get "current_model" = some (.str m.currentModel) ∧
      m.toDict.get "context_length" = some (.int m.contextLength) ∧
      m.toDict.get "output_length" = some (.int m.outputLength) ∧
      m.toDict.get "thinking" = some (.str m.thinking.text) ∧
      m.toDict.get "temperature" = some (.float m.temperature) := ⟨rfl, rfl, rfl, rfl, rfl, rfl⟩
  obtain ⟨g1, g2, g3, g4, g5, g6⟩ := get
  simp only [patchModelOk, contextExceedsOutput, isWithin, g1, g2, g3, g4, g5, g6, jsStringOf_str,
    h1, h2, isText, integerFrom_int, jsInteger_int, Json.num?, Option.bind_some, Bool.and_eq_true,
    decide_eq_true_eq, hm.contextLength, hm.outputLength, true_and, and_true]
  exact ⟨fun ⟨⟨_, h⟩, h'⟩ => ⟨h, h'⟩, fun h => ⟨⟨hm.currentModel, h.context⟩, h.temperature⟩⟩

theorem strictEq_self_str (s : String) : strictEq (some (.str s)) (some (.str s)) = true := by
  simp [strictEq, Json.num?, Json.str?]

theorem strictEq_str {s t : String} :
    strictEq (some (.str s)) (some (.str t)) = true ↔ s = t := by
  simp [strictEq, Json.num?, Json.str?]

theorem strictEq_int {m n : Int} : strictEq (some (.int m)) (some (.int n)) = true ↔ m = n := by
  simp [strictEq, Json.num?]

theorem strictEq_float {p q : Rat} :
    strictEq (some (.float p)) (some (.float q)) = true ↔ p = q := by
  simp [strictEq, Json.num?]

/-- The model of a Turn is its own normal form. -/
theorem normalizeRuntimeNodeModel_same {m : ModelConfig} (hm : m.Wf)
    (hsafe : isSafe m.outputLength = true) :
    ((normalizeRuntimeNodeModel m.toDict).all fun p => strictEq (m.toDict.get p.1)
      (some p.2)) = true
      ↔ hasInk m.currentModel = true ∧ ModelShown m := by
  have h1 := contains_reasoningEfforts m.reasoningEffort
  have h2 := contains_thinkingModes m.thinking
  have get : m.toDict.get "reasoning_effort" = some (.str m.reasoningEffort.text) ∧
      m.toDict.get "current_model" = some (.str m.currentModel) ∧
      m.toDict.get "context_length" = some (.int m.contextLength) ∧
      m.toDict.get "output_length" = some (.int m.outputLength) ∧
      m.toDict.get "thinking" = some (.str m.thinking.text) ∧
      m.toDict.get "temperature" = some (.float m.temperature) := ⟨rfl, rfl, rfl, rfl, rfl, rfl⟩
  obtain ⟨g1, g2, g3, g4, g5, g6⟩ := get
  simp only [normalizeRuntimeNodeModel, g1, g2, g3, g4, g5, g6, positiveInteger, jsInteger_int,
    hm.contextLength, hm.outputLength, if_true, hasWord, h1, h2, Option.getD_some, List.all_cons,
    List.all_nil, strictEq_self_str, Bool.true_and, Bool.and_true, Json.num?, Option.bind_some,
    Bool.and_eq_true, strictEq_int, decide_eq_true_eq]
  -- the three members with a fallback: each is kept exactly when its own test holds
  have ink : strictEq (some (.str m.currentModel))
      (some (if hasInk m.currentModel then .str m.currentModel else .str "unknown")) = true ↔
      hasInk m.currentModel = true := by
    cases h : hasInk m.currentModel with
    | true => simp [strictEq_self_str]
    | false =>
      simp only [Bool.false_eq_true, if_false, strictEq_str, iff_false]
      intro e; rw [e] at h; revert h; decide
  have context : (m.contextLength = if m.contextLength ≤ m.outputLength
      then max 128000 (nearest (m.outputLength + 1)) else m.contextLength) ↔
      m.outputLength < m.contextLength := by
    have hnear : nearest (m.outputLength + 1) = m.outputLength + 1 :=
      nearest_of_le (by have := natAbs_of_safe hsafe; omega)
    rw [hnear]
    split <;> omega
  have temperature : strictEq (some (.float m.temperature))
      (some (if 0 ≤ m.temperature ∧ m.temperature ≤ 2 then .float m.temperature else .float 0))
      = true ↔ 0 ≤ m.temperature ∧ m.temperature ≤ 2 := by
    by_cases h : 0 ≤ m.temperature ∧ m.temperature ≤ 2
    · simp [h, strictEq_float]
    · rw [if_neg h, strictEq_float]
      constructor
      · intro e; rw [e]; decide
      · intro h'; exact absurd h' h
  rw [ink, context, temperature]
  exact ⟨fun ⟨h, h', _, h''⟩ => ⟨h, h', h''⟩, fun ⟨h, h', h''⟩ => ⟨h, h', trivial, h''⟩⟩

/-- What the browser asks of a Turn beyond what its construction grants. -/
structure Shown (s : RuntimeState) : Prop where
  provider : s.providerName ≠ ""
  model : ModelShown s.model

theorem checkStrings_ok {turn : Fields} {names : List String} :
    checkStrings turn names = .ok () ↔ ∀ name ∈ names, isStr (turn.get name) = true := by
  induction names with
  | nil => simp [checkStrings]
  | cons name names ih =>
    simp only [checkStrings, bind_ok, exists_unit, require_ok, ih, List.forall_mem_cons]

theorem erase_data (s : RuntimeState) : s.toDict.erase "data" = s.configFields := by
  simp [RuntimeState.toDict, RuntimeState.configFields, Fields.erase]

variable {host : Host}

/-- **Admission.** The browser takes a constructed Turn unchanged, or refuses it for its provider
or its model. -/
theorem normalizeRuntimeNode_toDict {s : RuntimeState} (h : s.Wf host) (hsafe : s.Safe)
    {node : RuntimeStateNode} :
    normalizeRuntimeNode s.toDict = .ok node ↔
      hasInk s.model.currentModel = true ∧ Shown s ∧ node = ⟨s.configFields, s.data⟩ := by
  have hstrings : checkStrings s.toDict stringFields = .ok () := by
    rw [checkStrings_ok]
    intro name hname
    simp only [stringFields, List.mem_cons, List.not_mem_nil, or_false] at hname
    rcases hname with rfl | rfl | rfl | rfl | rfl | rfl | rfl | rfl | rfl | rfl | rfl <;> rfl
  have hversions : normalizeVersions (s.status == .running) (s.data.map versionJson) =
      .ok s.data := by
    refine normalizeVersions_ok h.versionOk ?_
    by_cases hr : s.status = .running
    · exact .inl (by simp [hr])
    · exact .inr (by rw [endsWithAssistant_eq]; exact h.ends hr)
  have hrunning : (s.toDict.get "status" == some (.str "running")) = (s.status == .running) := by
    have : s.toDict.get "status" = some (.str s.status.text) := rfl
    rw [this]; cases s.status <;> rfl
  have hidx : isIndexBelow (s.data.map versionJson).length (s.toDict.get "current_data_idx")
      = true := by
    have : s.toDict.get "current_data_idx" = some (.int s.currentDataIdx) := rfl
    rw [isIndexBelow, this, jsInteger_int]
    simpa using h.currentDataIdx
  have hver : (s.toDict.get "version" == some (.str turnProtocolVersion)) = true := by
    have : s.toDict.get "version" = some (.str s.version) := rfl
    rw [this, h.version]; decide
  have hcid : isText (s.toDict.get "compactionId") = true := decide_eq_true h.compactionId
  have hkept : integerFrom 0 (s.toDict.get "firstKeptItemSize") = true :=
    integerFrom_int.mpr (Int.natCast_nonneg _)
  have hids : (isText (s.toDict.get "thread_id") && isText (s.toDict.get "session_id")
      && isText (s.toDict.get "id") && isText (s.toDict.get "provider_name")) = true ↔
      s.providerName ≠ "" := by
    have h1 : isText (s.toDict.get "thread_id") = true := decide_eq_true h.threadId
    have h2 : isText (s.toDict.get "session_id") = true := decide_eq_true h.sessionId
    have h3 : isText (s.toDict.get "id") = true := decide_eq_true h.id
    rw [h1, h2, h3]
    exact decide_eq_true_iff
  have hmodes : (hasWord permissionModes (s.toDict.get "permission_mode")
      && hasWord runningModes (s.toDict.get "running_mode")) = true := by
    rw [Bool.and_eq_true]
    exact ⟨contains_permissionModes s.permissionMode, contains_runningModes s.runningMode⟩
  have hstatus : hasWord nodeStatuses (s.toDict.get "status") = true :=
    contains_nodeStatuses s.status
  have hreports : checkReportStatuses (s.toDict.get "agent_report_statuses") = .ok () := rfl
  have hmodel : objectValue (s.toDict.get "model") = s.model.toDict := rfl
  have husage : objectValue (s.toDict.get "usage") = s.usage.toDict := rfl
  have hdata : arrayOf (s.toDict.get "data") = some (s.data.map versionJson) := rfl
  have houtput : isSafe s.model.outputLength = true := by
    have hmembers : Json.safe (.obj s.model.toDict) = true :=
      hsafe.config ("model", _) (Fields.mem_of_get rfl)
    exact Json.safe_obj.mp hmembers ("output_length", _) (Fields.mem_of_get rfl)
  simp only [normalizeRuntimeNode, bind_ok, exists_unit, require_ok, hstrings, pure_ok, hrunning,
    hmodel, husage, hdata, Option.getD_some, hversions,
    normalizeRuntimeNodeModel_same h.model houtput,
    isTokenCount_usage, erase_data, hver, hids, hkept, hcid, hstatus, hmodes, hidx, hreports,
    Option.isSome_some, Bool.true_and, true_and, Except.ok.injEq, exists_eq_left']
  constructor
  · rintro ⟨hp, ⟨hi, hm⟩, e⟩
    exact ⟨hi, ⟨hp, hm⟩, e.symm⟩
  · rintro ⟨hi, hs, e⟩
    exact ⟨hs.provider, ⟨hi, hs.model⟩, e.symm⟩

/-- A Turn the browser shows gives no patch value that it refuses. -/
theorem patchValueOk_configFields {s : RuntimeState} (h : s.Wf host) (hs : Shown s) {k : String}
    {v : Json} (hv : (k, v) ∈ s.configFields) (hk : k ∈ patchFields) : patchValueOk k v = true := by
  have hget := RuntimeState.get_configFields hv
  simp only [patchFields, List.mem_cons, List.not_mem_nil, or_false] at hk
  rcases hk with rfl | rfl | rfl | rfl | rfl | rfl | rfl | rfl | rfl | rfl | rfl | rfl | rfl |
    rfl <;>
    cases hget
  · simp [patchValueOk, h.version, appVersion, turnProtocolVersion]
  · exact integerFrom_int.mpr (Int.natCast_nonneg s.firstKeptItemSize)
  · exact decide_eq_true h.compactionId
  · rfl
  · exact decide_eq_true hs.provider
  · exact (patchModelOk_toDict h.model).mpr hs.model
  · exact contains_permissionModes s.permissionMode
  · exact contains_runningModes s.runningMode
  · exact isTokenCount_usage s.usage
  · rfl
  · rfl
  · rfl
  · exact contains_nodeStatuses s.status
  · exact integerFrom_int.mpr (Int.natCast_nonneg s.currentDataIdx)

end MiniAgent.Turn.Browser
