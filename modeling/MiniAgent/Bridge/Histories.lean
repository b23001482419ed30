import MiniAgent.Bridge.Ends

/-!
# The Turn of a run

From its start a bridge writes one Turn by changes, until the Turn has ended (`Within`). So in every
state of a run the store has the Turn of the bridge, and what was written into the Turn is still
there: an Item keeps its place and its members, but for its status and a text that grows.
-/

namespace MiniAgent.Bridge

open Lib Turn Provider Store NodeWriter TurnBridge

/-! ## What becomes of a Turn -/

section Becomes

variable {host : Host} {t t' : ValidTurn host} {version version' version'' : List Fields}
  {item item' item'' : Fields} {i k : Nat}

/-- The Turns that come of a Turn by changes, and by compaction if there is one. -/
def Becomes (compacts : Prop) : ValidTurn host → ValidTurn host → Prop :=
  Relation.ReflTransGen fun t t' => Change t t' ∨ (compacts ∧ Compacted t')

/-- An Item at a later time: only its status is another, and its text has grown. -/
structure Grows (item item' : Fields) : Prop where
  members : ∀ name, name ≠ "status" → name ≠ "text" → item'.get name = item.get name
  text : ∀ s, item.get "text" = some (.str s) → ∃ more, item'.get "text" = some (.str (s ++ more))

theorem Grows.refl (item : Fields) : Grows item item :=
  ⟨fun _ _ _ => rfl, fun s hs => ⟨"", by rw [hs, String.append_empty]⟩⟩

theorem Grows.trans (h : Grows item item') (h' : Grows item' item'') : Grows item item'' := by
  refine ⟨fun name hstatus htext => (h'.members name hstatus htext).trans
    (h.members name hstatus htext), fun s hs => ?_⟩
  obtain ⟨more, hmore⟩ := h.text s hs
  obtain ⟨rest, hrest⟩ := h'.text _ hmore
  exact ⟨more ++ rest, by rw [hrest, String.append_assoc]⟩

theorem grows_withStatus {status : String} : Grows item (withStatus status item) := by
  refine ⟨fun name hstatus _ => ?_, fun s hs => ⟨"", ?_⟩⟩
  · rw [withStatus, Fields.get_set, if_neg hstatus.symm]
  · rw [withStatus, Fields.get_set, if_neg (by decide), hs, String.append_empty]

theorem grows_withText {delta : String} : Grows item (withText delta item) := by
  unfold withText
  split
  · next text htext =>
    refine ⟨fun name _ hname => ?_, fun s hs => ⟨delta, ?_⟩⟩
    · rw [Fields.get_set, if_neg hname.symm]
    · obtain rfl : text = s := Json.str.inj (Option.some.inj (htext.symm.trans hs))
      rw [Fields.get_set, if_pos rfl]
  · exact .refl item

/-- A version at a later time: nothing that was written is gone. -/
structure Extends (version version' : List Fields) : Prop where
  roles : version.map roleOf <+: version'.map roleOf
  items : ∀ i k item, itemAt version i k = some item → ∃ item', itemAt version' i k = some item' ∧
    Grows item item'

theorem Extends.refl (version : List Fields) : Extends version version :=
  ⟨List.prefix_rfl, fun _ _ item hitem => ⟨item, hitem, .refl item⟩⟩

theorem Extends.trans (h : Extends version version') (h' : Extends version' version'') :
    Extends version version'' := by
  refine ⟨h.roles.trans h'.roles, fun i k item hitem => ?_⟩
  obtain ⟨item', hitem', hgrows⟩ := h.items i k item hitem
  obtain ⟨item'', hitem'', hgrows'⟩ := h'.items i k item' hitem'
  exact ⟨item'', hitem'', hgrows.trans hgrows'⟩

theorem extends_append (m : Fields) : Extends version (version ++ [m]) := by
  refine ⟨by rw [List.map_append]; exact List.prefix_append _ _, fun i k item hitem =>
    ⟨item, ?_, .refl item⟩⟩
  obtain ⟨items, hitems, -⟩ := Option.bind_eq_some_iff.mp hitem
  obtain ⟨m', hm, -⟩ := Option.map_eq_some_iff.mp hitems
  obtain ⟨hlt, -⟩ := List.getElem?_eq_some_iff.mp hm
  rw [itemAt_append m hlt, hitem]

theorem extends_addItems {items : List Fields} : Extends version (addItems items i version) := by
  refine ⟨(roles_modify (g := fun m => messageItems m ++ items)).symm ▸ List.prefix_rfl,
    fun j l item hitem => ⟨item, ?_, .refl item⟩⟩
  obtain ⟨old, hold, hitem⟩ := Option.bind_eq_some_iff.mp hitem
  obtain ⟨m, hm, rfl⟩ := Option.map_eq_some_iff.mp hold
  obtain ⟨hlt, -⟩ := List.getElem?_eq_some_iff.mp hitem
  rw [itemAt_addItems, hm, Option.bind_some, List.getElem?_append_left hlt, hitem, ite_self]

theorem extends_changeItem {f : Fields → Fields} (hf : ∀ item, Grows item (f item)) :
    Extends version (changeItem f i k version) := by
  refine ⟨(roles_modify (g := fun m => (messageItems m).modify k f)).symm ▸ List.prefix_rfl,
    fun j l item hitem => ?_⟩
  rw [itemAt_changeItem, hitem, Option.map_some]
  split
  · exact ⟨f item, rfl, hf item⟩
  · exact ⟨item, rfl, .refl item⟩

theorem extends_of_change (h : Change t t') : Extends (selected t.val) (selected t'.val) := by
  cases h with
  | config hdata hidx _ =>
    rw [show selected t'.val = selected t.val by rw [selected, hdata, hidx]; rfl]
    exact .refl _
  | message m hnew heq =>
    rw [selected_of_eq heq]
    exact extends_append m
  | items items i hitems heq =>
    rw [selected_of_eq heq]
    exact extends_addItems
  | status status i k heq =>
    rw [selected_of_eq heq]
    exact extends_changeItem fun _ => grows_withStatus
  | text delta i k heq =>
    rw [selected_of_eq heq]
    exact extends_changeItem fun _ => grows_withText

/-- A later state of the same Turn. -/
structure Continues (t t' : ValidTurn host) : Prop where
  key : t'.val.key = t.val.key
  extended : Extends (selected t.val) (selected t'.val)

theorem Continues.refl (t : ValidTurn host) : Continues t t := ⟨rfl, .refl _⟩

theorem stable_continues : Stable (Continues t) := fun _ _ hchange h =>
  ⟨hchange.key.trans h.key, h.extended.trans (extends_of_change hchange)⟩

end Becomes

namespace TurnBridge

variable {env : BridgeEnv} {J : ValidTurn env.writer.host → Prop} {t t' : ValidTurn env.writer.host}
  {b b' : TurnBridge}

/-! ## Runs -/

/-- The bridge writes the Turn, or the Turn has ended. -/
def Within (env : BridgeEnv) (J : ValidTurn env.writer.host → Prop) (b : TurnBridge) : Prop :=
  Has env J b ∨ Over env J b

theorem Within.has (h : Within env J b) (hclosed : b.closed = false) : Has env J b := by
  rcases h with h | ⟨hover, -⟩
  · exact h
  · cases hclosed.symm.trans hover

theorem within_kept {x : Method Unit} (h : Kept env J x) :
    Returns (Has env J) x fun _ => Within env J :=
  h.post fun _ _ h => .inl h

theorem beginAfterReport_kept {itemType : String} (hJ : Stable J) : Kept env J (do
    startAssistantAfterReport env
    beginStreamItem env itemType) :=
  .bind (startAssistantAfterReport_kept hJ.answer) fun _ => beginStreamItem_kept (hJ.status _)

theorem finish_within {nodeStatus : NodeStatus} {finalAnswer code : String}
    {category : Option String} (hJ : Stable J) :
    Returns (Has env J) (finish env nodeStatus finalAnswer category code) fun _ => Within env J :=
  (finish_kept hJ).post fun _ _ h => .inr h

/-- One event, by its kind. -/
theorem project_kept {kind message : String} {data : Fields} (hJ : Stable J)
    (hcompact : kind = "context_compaction_completed" → StableCompaction J) :
    Returns (Has env J) (project env kind message data) fun _ => Within env J := by
  have hitem : ∀ itemType, kind ≠ "agent_report" →
      Returns (Has env J) (appendEventItem env itemType kind message data) fun _ => Within env J :=
    fun _ hkind => within_kept (appendEventItem_kept hJ hkind)
  apply project_cases (motive := fun m => Returns (Has env J) m fun _ => Within env J)
  case modelRequest => exact fun _ => within_kept (settleRunningRetry_kept hJ)
  case modelRetry => exact fun _ => within_kept (modelRetry_kept hJ)
  case thinkingStart | responseStart => exact fun _ => within_kept (beginAfterReport_kept hJ)
  case thinkingDelta | responseDelta => exact fun _ => within_kept (updateStreamItem_kept hJ)
  case thinkingEnd | responseEnd => exact fun _ => within_kept (finishStreamItem_kept (hJ.status _))
  case assistantMessage =>
    intro _
    split
    · exact within_kept (assistantMessage_kept hJ)
    · exact .pure fun _ h => .inl h
  case toolCall => exact fun _ => within_kept (toolCall_kept hJ)
  case toolResult => exact fun _ => within_kept (toolResult_kept hJ)
  case toolFailed =>
    intro _
    have hwrite : Returns (Has env J) (Call.write fun b => { b with abortCategory := some "tool" })
        fun _ => Has env J := .write fun _ h => h.frame rfl rfl ⟨rfl, rfl⟩ rfl
    exact hwrite.bind fun _ => within_kept (toolResult_kept hJ)
  case modelError => exact fun _ => .write fun _ h => .inl (h.frame rfl rfl ⟨rfl, rfl⟩ rfl)
  case approval =>
    intro hkind
    refine .whenever (fun _ => hitem _ ?_) fun _ _ h => .inl h
    rcases hkind with rfl | rfl <;> decide
  case question =>
    intro hkind
    exact hitem _ (by rcases hkind with rfl | rfl <;> decide)
  case steering => exact fun _ => within_kept (appendSteeringMessage_kept hJ)
  case report => exact fun _ => within_kept (appendSubagentReport_kept hJ)
  case plan =>
    intro hkind
    exact hitem _ (by rcases hkind with rfl | rfl | rfl <;> decide)
  case skills =>
    rintro rfl
    exact hitem _ (by decide)
  case subagent =>
    intro hkind _
    refine hitem _ ?_
    rintro rfl
    exact absurd hkind (by decide +kernel)
  case compaction => exact fun hkind => within_kept (beginCompactTurn_kept (hcompact hkind))
  case paused => exact fun _ => finish_within hJ
  case error => exact fun _ => .read_bind fun b => .pre (finish_within hJ) fun _ h => h.1
  case other => exact .pure fun _ h => .inl h

/-- An event that makes a new Turn. -/
def Compacts : Step → Prop
  | .event e => e.kind = "context_compaction_completed"
  | _ => False

/-- What may come to a bridge: answers and PATCHes while its Turn is open. -/
def Timely (b : TurnBridge) : Step → Prop
  | .event _ => True
  | .input _ => b.closed = false
  | .patch _ => b.closed = false
  | .traceReady _ => True

def InTime (env : BridgeEnv) : List Step → TurnBridge → Prop
  | [], _ => True
  | s :: steps, b => Timely b s ∧ ∀ b', step env s b = (.ok (), b') → InTime env steps b'

theorem handle_kept {event : RuntimeEvent} (hJ : Stable J)
    (hcompact : Compacts (.event event) → StableCompaction J) :
    Returns (Within env J) (handle env event) fun _ => Within env J := by
  refine .read_bind fun b => .ite (fun _ => .pure fun _ h => h.1) fun hlive => ?_
  obtain ⟨⟨hclosed, -⟩, -⟩ : (b.closed = false ∧ b.started = true) ∧
      event.kind ∉ hiddenRecoverableEvents := by
    simpa using hlive
  refine .pre (P := Has env J) ?_ ?_
  · exact .bind (applyEventConfig_kept hJ) fun _ => .bind (applyEventUsage_kept hJ) fun _ =>
      project_kept hJ hcompact
  · rintro b' ⟨h, hsame⟩
    obtain rfl : b' = b := hsame
    exact h.has hclosed

theorem handleInput_kept {payload : Fields} (hJ : Stable J) :
    Kept env J (handleInput env payload) :=
  .bind (R := fun _ => Has env J) (.ofExcept (fun _ _ _ h => h) fun _ _ => trivial) fun _ =>
    appendEventItem_kept hJ (by decide)

/-- One step keeps what the changes keep. -/
theorem step_kept {s : Step} (hJ : Stable J) (hcompact : Compacts s → StableCompaction J) :
    Returns (fun b => Within env J b ∧ Timely b s) (step env s) fun _ => Within env J := by
  cases s with
  | event event => exact .pre (handle_kept hJ hcompact) fun _ h => h.1
  | input payload => exact .pre (within_kept (handleInput_kept hJ)) fun _ h => h.1.has h.2
  | patch config => exact .pre (within_kept (applyConfig_kept hJ)) fun _ h => h.1.has h.2
  | traceReady ready =>
    refine .write ?_
    rintro b ⟨h | ⟨hclosed, h⟩, -⟩
    · exact .inl (h.frame rfl rfl ⟨rfl, rfl⟩ rfl)
    · exact .inr ⟨hclosed, h⟩

/-- And a run does. -/
theorem run_kept {steps : List Step} (hJ : Stable J)
    (hcompact : (∃ s ∈ steps, Compacts s) → StableCompaction J) :
    Returns (fun b => Within env J b ∧ InTime env steps b) (run env steps) fun _ =>
      Within env J := by
  refine .pre ((Call.Spec.forEach (I := fun l b => ((∃ s ∈ l, Compacts s) → StableCompaction J) ∧
    Within env J b ∧ InTime env l b)
    (fun s l => ?_) steps).post fun _ _ h => h.2.1) fun _ h => ⟨hcompact, h⟩
  rintro b ⟨hcompact, hwithin, htimely, hrest⟩
  have hhead : Compacts s → StableCompaction J := fun h => hcompact ⟨s, List.mem_cons_self, h⟩
  have htail : (∃ s ∈ l, Compacts s) → StableCompaction J := fun ⟨s', hs', h⟩ =>
    hcompact ⟨s', List.mem_cons_of_mem s hs', h⟩
  exact ⟨fun _ b' hx => ⟨htail, (step_kept hJ hhead).result ⟨hwithin, htimely⟩ hx, hrest b' hx⟩,
    fun _ _ _ => trivial⟩

/-! ## Starts -/

/-- The Turn that a bridge starts on. -/
def StartsOn (env : BridgeEnv) (turn : TurnStart env.writer.host) (t : ValidTurn env.writer.host) :
    Prop :=
  ∀ parent args prompt references deliveryId, turn = .new parent args prompt references deliveryId →
    newTurn env parent args prompt references deliveryId = .ok t

theorem startsOn_new {parent : Store.Node env.writer.host} {args : CreateArgs}
    {prompt deliveryId : String} {references : List Json}
    (h : newTurn env parent args prompt references deliveryId = .ok t) :
    StartsOn env (.new parent args prompt references deliveryId) t := by
  rintro _ _ _ _ _ ⟨⟩
  exact h

theorem startsOn_resume (source : Key) (t : ValidTurn env.writer.host) :
    StartsOn env (.resume source) t := by
  intro _ _ _ _ _ h
  cases h

/-- A bridge that only has to be started. -/
def Begun (env : BridgeEnv) (turn : TurnStart env.writer.host) (b : TurnBridge) : Prop :=
  ∃ t, StartsOn env turn t ∧ Keeps env t { b with started := true }

theorem begun_traceReady {turn : TurnStart env.writer.host} (b : TurnBridge) (ready : Bool)
    (h : Begun env turn b) :
    Begun env turn { b with turnTraceInitialized := ready } := by
  obtain ⟨t, hstarts, h⟩ := h
  exact ⟨t, hstarts, h.frame rfl rfl ⟨rfl, rfl⟩ rfl⟩

/-- A bridge that has started writes the Turn. -/
theorem start_keeps {settings : RuntimeEventNodeBridge} {turn : TurnStart env.writer.host} :
    Returns (· = new settings) (start env turn) fun _ b => ∃ t, StartsOn env turn t ∧
      Keeps env t b := by
  refine .pre (P := Unstarted) ?_ ?_
  · have hlast : ∀ s, Returns (Begun env turn) (do
        bindExistingTrace env s
        Call.write fun b => { b with started := true }) fun _ b => ∃ t, StartsOn env turn t ∧
          Keeps env t b := fun s =>
      .bind (bindExistingTrace_spec begun_traceReady) fun _ => .write fun _ h => h
    cases turn with
    | new parent args prompt references deliveryId =>
      refine .bind (R := fun t b => Unstarted b ∧
        newTurn env parent args prompt references deliveryId = .ok t) ?_ fun t => ?_
      · exact .ofExcept (fun t ht b h => ⟨h, mapError_ok.mp ht⟩) fun _ _ => trivial
      refine .known (fun _ h => h.2) fun hnew => ?_
      refine .bind (R := fun s b => Unstarted b ∧ t.val = s ∧ Holds env.writer b.writer t)
        ?_ fun s => ?_
      · refine onWriter_spec fun b s w h hx => ?_
        obtain ⟨rfl, hholds⟩ := baseline_holds (t := t)
          (show Baseline.create.perform env.writer t.val b.writer = (.ok s, w) from hx)
        exact ⟨⟨h.1.closed, h.1.cursor, h.1.blocks⟩, rfl, hholds⟩
      refine .known (p := t.val = s) (fun _ h => h.2.1) ?_
      rintro rfl
      refine .bind (setTurn_taken fun b h => ⟨h.1, t, h.2⟩) fun _ =>
        .bind (R := fun _ => Begun env _) (.write ?_) fun _ => hlast _
      rintro b ⟨h, t', ht', hassistant, hholds⟩
      obtain rfl := Subtype.ext ht'
      refine ⟨t', startsOn_new hnew, hholds, hassistant, rfl, h.closed, fun _ => ?_⟩
      obtain ⟨user, hselected⟩ := newTurn_ok hnew
      rw [hselected, show [user, assistantOf []] = [user] ++ [assistantOf []] from rfl,
        tail_append, roleOf_assistantOf]
      decide
    | resume source =>
      refine .bind resumedTurn_spec fun source => ?_
      refine .bind (R := fun s b => Unstarted b ∧ ∃ t : ValidTurn env.writer.host, t.val = s ∧
        Holds env.writer b.writer t) ?_ fun s => ?_
      · refine onWriter_spec fun b s w h hx => ?_
        obtain ⟨t, hsnapshot⟩ := snapshot_valid hx
        obtain ⟨rfl, hholds⟩ := baseline_holds (t := t)
          (show Baseline.snapshot.perform env.writer t.val b.writer = (.ok s, w) from hsnapshot)
        exact ⟨⟨h.closed, h.cursor, h.blocks⟩, t, rfl, hholds⟩
      refine .bind (setTurn_taken fun b h => h) fun _ => .bind (R := fun _ => Begun env _)
        (.write ?_) fun _ => hlast _
      rintro b ⟨h, t, rfl, hassistant, hholds⟩
      refine ⟨t, startsOn_resume _ t, hholds, hassistant, rfl, h.closed,
        fun hne htail => hne (if_neg ?_)⟩
      rw [show lastRole t.val = some (.str "user") from htail]
      decide
  · rintro b rfl
    exact ⟨rfl, rfl, rfl⟩

/-! ## The Turn in the store -/

/-- The Turn of the bridge, open or closed, is the one that the store has. -/
theorem Within.stored (h : Within env J b) :
    ∃ t, J t ∧ b.assistant = some t.val ∧ b.writer.store t.val.key = some (.turn t.val) := by
  rcases h with ⟨t, ht, hb⟩ | ⟨-, hover⟩
  · exact ⟨t, ht, hb.assistant, hb.holds.stored⟩
  · exact hover

/-- What the changes keep from the start on. -/
theorem run_within {turn : TurnStart env.writer.host} {settings : RuntimeEventNodeBridge}
    {steps : List Step} {b₀ : TurnBridge} (hJ : Stable J)
    (hcompact : (∃ s ∈ steps, Compacts s) → StableCompaction J)
    (hstart : start env turn (new settings) = (.ok (), b₀))
    (hfirst : ∀ t : ValidTurn env.writer.host, b₀.assistant = some t.val → J t)
    (htimely : InTime env steps b₀) (hrun : run env steps b₀ = (.ok (), b)) : Within env J b := by
  obtain ⟨t₀, -, hkeeps⟩ := start_keeps.result rfl hstart
  exact (run_kept hJ hcompact).result ⟨.inl ⟨t₀, hfirst t₀ hkeeps.assistant, hkeeps⟩, htimely⟩ hrun

/-- A run of events. -/
theorem inTime_of_events {steps : List Step} (h : ∀ s ∈ steps, ∃ e, s = .event e) :
    ∀ b, InTime env steps b := by
  induction steps with
  | nil => exact fun _ => trivial
  | cons s steps ih =>
    obtain ⟨⟨e, rfl⟩, hrest⟩ := List.forall_mem_cons.mp h
    exact fun b => ⟨trivial, fun b' _ => ih hrest b'⟩

theorem events_retried : ∀ s ∈ retried, ∃ e, s = .event e := fun s hs =>
  let ⟨e, he, _⟩ := quiet_retried s hs
  ⟨e, he⟩

/-- **Nothing that was written is lost**: from a state of a run on, without compaction, every Item
that the Turn has stays where it is, and only its status changes and its text grows. -/
theorem run_extends (env : BridgeEnv) (settings : RuntimeEventNodeBridge)
    (turn : TurnStart env.writer.host) (before after : List Step) (b₀ b₁ b : TurnBridge)
    (hstart : start env turn (new settings) = (.ok (), b₀)) (htimely : InTime env before b₀)
    (hbefore : run env before b₀ = (.ok (), b₁)) (hopen : b₁.closed = false)
    (htimely' : InTime env after b₁) (hafter : run env after b₁ = (.ok (), b))
    (hcompact : ∀ s ∈ after, ¬ Compacts s) :
    ∃ t₁ t : ValidTurn env.writer.host, b₁.assistant = some t₁.val ∧ b.assistant = some t.val ∧
      b.writer.store t.val.key = some (.turn t.val) ∧ Continues t₁ t := by
  have hfirst : Within env (fun _ => True) b₁ :=
    run_within (fun _ _ _ _ => trivial) (fun _ _ _ _ _ => trivial) hstart
      (fun _ _ => trivial) htimely hbefore
  obtain ⟨t₁, -, hb₁⟩ := hfirst.has hopen
  obtain ⟨t, ht, hassistant, hstored⟩ :=
    ((run_kept (stable_continues (t := t₁)) fun ⟨s, hs, h⟩ => absurd h (hcompact s hs)).result
      ⟨.inl ⟨t₁, .refl t₁, hb₁⟩, htimely'⟩ hafter).stored
  exact ⟨t₁, t, hb₁.assistant, hassistant, hstored, ht⟩

theorem compacts_retried : ∀ s ∈ retried, ¬ Compacts s := by
  intro s hs
  rcases List.mem_pair.mp hs with rfl | rfl
  · simp [Compacts, event]
  · simp [Compacts, event]

/-- A retry after steering, from the start on. -/
theorem run_extends_retry : ∃ b₀ b, start openBridge firstTurn (new plainSettings) = (.ok (), b₀) ∧
    run openBridge retried b₀ = (.ok (), b) ∧
    ∃ t₁ t : ValidTurn openBridge.writer.host, b₀.assistant = some t₁.val ∧
      b.assistant = some t.val ∧ b.writer.store t.val.key = some (.turn t.val) ∧
      Continues t₁ t := by
  obtain ⟨b₀, b, hstart, hrun, -⟩ := sizesAfter_some sizes_retried
  obtain ⟨t₀, -, hkeeps⟩ := start_keeps.result rfl hstart
  exact ⟨b₀, b, hstart, hrun, run_extends openBridge plainSettings firstTurn
    [] retried b₀ b₀ b hstart trivial rfl hkeeps.closed
    (inTime_of_events events_retried b₀) hrun compacts_retried⟩

/-! ## The end of a run -/

/-- While a new Turn is written, only its selected version has to be sealed. -/
theorem run_othersSealed {settings : RuntimeEventNodeBridge} {parent : Store.Node env.writer.host}
    {args : CreateArgs}
    {prompt deliveryId : String} {references : List Json} {steps : List Step} {b₀ b₁ : TurnBridge}
    (hstart : start env (.new parent args prompt references deliveryId) (new settings) =
      (.ok (), b₀))
    (htimely : InTime env steps b₀) (hrun : run env steps b₀ = (.ok (), b₁))
    (hopen : b₁.closed = false) :
    Has env OthersSealed b₁ := by
  obtain ⟨t₀, hstarts, hkeeps⟩ := start_keeps.result rfl hstart
  obtain ⟨user, -, hdata⟩ := newTurn_data (hstarts _ _ _ _ _ rfl)
  have hothers : OthersSealed t₀ := othersSealed_compacted ⟨user, [], hdata⟩
  have hfirst : ∀ t : ValidTurn env.writer.host, b₀.assistant = some t.val → OthersSealed t := by
    intro t ht
    obtain rfl : t₀ = t := Subtype.ext (Option.some.inj (hkeeps.assistant.symm.trans ht))
    exact hothers
  exact (run_within stable_othersSealed (fun _ => stableCompaction_othersSealed)
    hstart hfirst htimely hrun).has hopen

/-- The Turn goes on to its end. -/
theorem finish_continues {nodeStatus : NodeStatus} {finalAnswer code : String}
    {category : Option String} {b₁ : TurnBridge}
    (h : Has env J b₁) (hfinish : finish env nodeStatus finalAnswer category code b₁ =
      (.ok (), b)) :
    ∃ t₁ : ValidTurn env.writer.host, b₁.assistant = some t₁.val ∧ Over env (Continues t₁) b := by
  obtain ⟨t₁, -, hb₁⟩ := h
  exact ⟨t₁, hb₁.assistant, (finish_kept stable_continues).result ⟨t₁, .refl t₁, hb₁⟩ hfinish⟩

/-- The Item that says why a Turn has failed. -/
def failureItem (category message code : String) : Fields :=
  [("type", .str "error"), ("category", .str category), ("message", .str message),
    ("retryable", .bool false),
    ("status", .str "failed")] ++ (if code = "" then [] else [("code", .str code)])

/-- The bridge that a call leaves, if it returns. -/
def outcome (x : Method Unit) (b : TurnBridge) : Option TurnBridge :=
  match x b with
  | (.ok _, b') => some b'
  | (.error _, _) => none

theorem outcome_some {x : Method Unit} (h : outcome x b = some b') : x b = (.ok (), b') := by
  unfold outcome at h
  split at h
  · next hx =>
    cases h
    exact hx
  · cases h

/-- The Turn after a retry, finished. -/
def finished (nodeStatus : NodeStatus) : Option TurnBridge :=
  (outcome (start openBridge firstTurn) (new plainSettings)).bind fun b₀ =>
    (outcome (run openBridge retried) b₀).bind fun b₁ =>
    if b₁.closed then none else outcome (finish openBridge nodeStatus "bye" none "") b₁

theorem finished_some {nodeStatus : NodeStatus} (h : (finished nodeStatus).isSome = true) :
    ∃ b₀ b₁ b,
    start openBridge firstTurn (new plainSettings) = (.ok (), b₀) ∧
    run openBridge retried b₀ = (.ok (), b₁) ∧ b₁.closed = false ∧
      finish openBridge nodeStatus "bye" none "" b₁ = (.ok (), b) := by
  obtain ⟨b, hb⟩ := Option.isSome_iff_exists.mp h
  rw [finished, Option.bind_eq_some_iff] at hb
  obtain ⟨b₀, hstart, hb⟩ := hb
  rw [Option.bind_eq_some_iff] at hb
  obtain ⟨b₁, hrun, hb⟩ := hb
  split at hb
  · cases hb
  · next hopen =>
      exact ⟨b₀, b₁, b, outcome_some hstart, outcome_some hrun, Bool.eq_false_iff.mpr hopen,
        outcome_some hb⟩

end TurnBridge

end MiniAgent.Bridge
