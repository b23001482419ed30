import MiniAgent.Provider.Messages
import MiniAgent.Queue.Message
import MiniAgent.Turn.Atomicity

/-!
# Runtime configuration

`apply_runtime_config` of the bridge: a PATCH is merged into the settings of the bridge, and these
are written to the Turn. The bridge checks some of the settings itself; the writer checks the rest,
after the bridge has taken them over. So a PATCH that the writer rejects stays in the settings, and
every later PATCH is merged onto it.
-/

namespace MiniAgent.Bridge

open Lib Turn Provider

/-- The part of `RuntimeEventNodeBridge` that a PATCH reads and writes. -/
structure RuntimeEventNodeBridge where
  providerName : String
  modelConfig : Fields
  permissionMode : String
  runningMode : String
  assistant : Option RuntimeState
  lastNode : Option RuntimeState
  writer : NodeWriter
  /-- `runtime.services.pending_runtime_config`, when there is a runtime. -/
  runtime : Option (Option Fields)

namespace RuntimeEventNodeBridge

variable (env : WriterEnv) (dec : Decoder)

/-! ## Merging -/

/-- `str(config.get(name) or default)`. -/
def textOf (config : Fields) (name default : String) : String :=
  match pyOr (config.get name) none with
  | some v => dec.text (some v)
  | none => default

/-- The settings of the bridge. -/
structure Settings where
  providerName : String
  model : Fields
  permission : String
  running : String

def settings (b : RuntimeEventNodeBridge) : Settings :=
  ⟨b.providerName, b.modelConfig, b.permissionMode, b.runningMode⟩

def mergedModel (config model : Fields) : Fields :=
  match config.get "model" with
  | some (.obj changes) => model.setAll changes
  | _ => model

def merged (config : Fields) (b : RuntimeEventNodeBridge) : Settings where
  providerName := textOf dec config "provider_name" b.providerName
  model := mergedModel config b.modelConfig
  permission := textOf dec config "permission_mode" b.permissionMode
  running := textOf dec config "running_mode" b.runningMode

/-- The checks of the bridge itself. -/
def checkSettings (s : Settings) : Except Err Unit := do
  require (!Queue.isBlank s.providerName) (.validation "provider_name must be a non-empty string.")
  require (["read_only", "workspace_write", "full_access"].contains s.permission)
    (.validation "permission_mode must be read_only, workspace_write, or full_access.")
  require (["agent", "plan"].contains s.running) (.validation "running_mode must be agent or plan.")

/-- The keywords of `update_config`. -/
def Settings.changes (s : Settings) : Fields :=
  [("provider_name", .str s.providerName), ("model", .obj s.model),
    ("permission_mode", .str s.permission),
    ("running_mode", .str s.running)]

/-! ## Applying -/

abbrev Method (α : Type) := Call Err RuntimeEventNodeBridge α

/-- A method of the writer. -/
def onWriter {α : Type} (x : NodeWriter.Method α) : Method α := fun b =>
  ((x b.writer).1, { b with writer := (x b.writer).2 })

def takeOver (s : Settings) : Method Unit := Call.write fun b =>
  { b with
    providerName := s.providerName, modelConfig := s.model, permissionMode := s.permission,
    runningMode := s.running }

def setTurn (t : RuntimeState) : Method Unit :=
  Call.write fun b => { b with assistant := some t, lastNode := some t }

/-- The PATCH waits for the next boundary of the run. -/
def queueConfig (config : Fields) : Method Unit := Call.write fun b =>
  { b with runtime := b.runtime.map fun pending => some ((pending.getD []).setAll config) }

def applyRuntimeConfig (config : Fields) : Method (Option RuntimeState) := do
  let s ← Call.read (merged dec config)
  Call.ofExcept (checkSettings s)
  takeOver s
  let assistant ← Call.read assistant
  match assistant with
  | none => Call.read lastNode
  | some t => do
    let t' ← onWriter (NodeWriter.updateConfig env t.key s.changes)
    setTurn t'
    queueConfig config
    pure (some t')

/-! ## Outcomes -/

variable {env : WriterEnv} {dec : Decoder} {config : Fields} {b b' : RuntimeEventNodeBridge}

/-- The bridge with the settings of a PATCH. -/
def took (b : RuntimeEventNodeBridge) (s : Settings) (w : NodeWriter) : RuntimeEventNodeBridge :=
  { b with
    providerName := s.providerName, modelConfig := s.model, permissionMode := s.permission,
    runningMode := s.running, writer := w }

theorem took_settings (b : RuntimeEventNodeBridge) (w : NodeWriter) :
    b.took b.settings w = { b with writer := w } :=
  rfl

/-- **How a PATCH ends.** -/
theorem apply_cases (env : WriterEnv) (dec : Decoder) (config : Fields)
    (b : RuntimeEventNodeBridge) :
    (∃ e, checkSettings (merged dec config b) = .error e ∧
      applyRuntimeConfig env dec config b = (.error e, b)) ∨
    (checkSettings (merged dec config b) = .ok () ∧
      ((b.assistant = none ∧ ∃ out b', applyRuntimeConfig env dec config b = (.ok out, b')) ∨
       ∃ t, b.assistant = some t ∧
        ((∃ e w, NodeWriter.updateConfig env t.key (merged dec config b).changes b.writer =
          (.error e, w) ∧
            applyRuntimeConfig env dec config b = (.error e, b.took (merged dec config b) w)) ∨
         ((∃ t' w, NodeWriter.updateConfig env t.key (merged dec config b).changes b.writer =
           (.ok t', w)) ∧
            ∃ out b', applyRuntimeConfig env dec config b = (.ok out, b'))))) := by
  rcases hcheck : checkSettings (merged dec config b) with e | ⟨⟩
  · refine .inl ⟨e, rfl, ?_⟩
    have hchecked : (Call.ofExcept (checkSettings (merged dec config b)) : Method Unit) b =
        (.error e, b) := by
      rw [hcheck]
      rfl
    rw [applyRuntimeConfig, Call.bind_of_ok (show Call.read (merged dec config) b =
      (.ok (merged dec config b), b) from rfl)]
    exact Call.bind_of_error hchecked
  · refine .inr ⟨rfl, ?_⟩
    have hchecked : (Call.ofExcept (checkSettings (merged dec config b)) : Method Unit) b =
        (.ok (), b) := by
      rw [hcheck]
      rfl
    have hstart : applyRuntimeConfig env dec config b = (match b.assistant with
        | none => Call.read lastNode
        | some t => do
          let t' ← onWriter (NodeWriter.updateConfig env t.key (merged dec config b).changes)
          setTurn t'
          queueConfig config
          pure (some t')) (b.took (merged dec config b) b.writer) := by
      rw [applyRuntimeConfig, Call.bind_of_ok (show Call.read (merged dec config) b =
        (.ok (merged dec config b), b) from rfl),
        Call.bind_of_ok hchecked]
      rfl
    rw [hstart]
    rcases b.assistant with _ | t
    · exact .inl ⟨rfl, _, _, rfl⟩
    · refine .inr ⟨t, rfl, ?_⟩
      rcases hupdate : NodeWriter.updateConfig env t.key (merged dec config b).changes b.writer with
        ⟨e | t', w⟩
      · refine .inl ⟨e, w, rfl, Call.bind_of_error ?_⟩
        simp only [onWriter, took, hupdate]
      · refine .inr ⟨⟨t', w, rfl⟩, ?_⟩
        have hwriter : onWriter (NodeWriter.updateConfig env t.key (merged dec config b).changes)
            (b.took (merged dec config b) b.writer) = (.ok t', b.took (merged dec config b) w) := by
          simp only [onWriter, took, hupdate]
        dsimp only
        rw [Call.bind_of_ok hwriter]
        exact ⟨_, _, rfl⟩

/-! ## Rejected PATCHes -/

def Accepts (env : WriterEnv) (dec : Decoder) (config : Fields) (b : RuntimeEventNodeBridge) :
    Prop :=
  ∃ out b', applyRuntimeConfig env dec config b = (.ok out, b')

/-- **A call that has changed nothing**: neither the settings nor the Turn, no frame and nothing
that waits, and what was accepted before is accepted after it. -/
structure Untouched (env : WriterEnv) (dec : Decoder) (b b' : RuntimeEventNodeBridge) : Prop where
  settings : b'.settings = b.settings
  turn : b'.assistant = b.assistant ∧ b'.lastNode = b.lastNode
  current : ∀ t, b.assistant = some t →
    (NodeWriter.current env t.key b'.writer).1 = (NodeWriter.current env t.key b.writer).1
  emitted : b'.writer.emitted = b.writer.emitted
  pending : b'.runtime = b.runtime
  accepts : ∀ config, Accepts env dec config b → Accepts env dec config b'

/-- The writer changes the Turn and stops once it is kept. -/
def Spoils (env : WriterEnv) (b : RuntimeEventNodeBridge) (s : Settings) : Prop :=
  ∃ t, b.assistant = some t ∧ (WriterMethod.call t.key (.updateConfig s.changes)).Spoils
    env b.writer

theorem untouched_refl : Untouched env dec b b :=
  ⟨rfl, ⟨rfl, rfl⟩, fun _ _ => rfl, rfl, rfl, fun _ h => h⟩

theorem current_kept {w : NodeWriter} {value : RuntimeState} {key : Key} (hwf : value.Wf env.host)
    (hkey : value.key = key) :
    NodeWriter.current env key (w.kept value) = (.ok value, w.kept value) :=
  current_of_dynamic hwf (by simp [NodeWriter.kept, hkey])

/-- A writer that has kept the Turn it has takes the same changes. -/
theorem updateConfig_kept {w w' : NodeWriter} {cur t' : RuntimeState} {key : Key}
    {changes : Fields} (hwf : cur.Wf env.host) (hkey : cur.key = key)
    (hcur : (NodeWriter.current env key w).1 = .ok cur)
    (h : NodeWriter.updateConfig env key changes w = (.ok t', w')) :
    ∃ out w'', NodeWriter.updateConfig env key changes (w.kept cur) = (.ok out, w'') := by
  have hsteady := steady_current env key w
  have hread : NodeWriter.current env key w = (.ok cur, w) := Prod.ext hcur hsteady
  have hperform : WriterCall.perform env key (.updateConfig changes) w = (.ok t', w') := h
  rw [WriterCall.perform_eq hread] at hperform
  obtain ⟨edit, w₁, hedit, hcommit⟩ := Call.bind_ok.mp hperform
  obtain rfl : w₁ = w := by simpa [hedit] using steady_edit cur (.updateConfig changes) w
  obtain ⟨made, hmade⟩ := blind_edit cur (.updateConfig changes)
  have hedit' : WriterCall.edit cur (.updateConfig changes) (w₁.kept cur) =
      (.ok edit, w₁.kept cur) := by
    rw [hmade] at hedit ⊢
    rw [(Prod.mk.inj hedit).1]
  show ∃ out w'', WriterCall.perform env key (.updateConfig changes) (w₁.kept cur) = (.ok out, w'')
  rw [WriterCall.perform_eq (current_kept hwf hkey), Call.bind_of_ok hedit']
  rcases edit with _ | e
  · exact ⟨_, _, rfl⟩
  · -- what can stop the commit is the same for both writers
    have hcommit : e.commit env w₁ = (.ok t', w') := hcommit
    obtain ⟨err, hx, -⟩ | ⟨value, hvalue, ⟨err, hx, -⟩ | ⟨-, hfree⟩⟩ := commit_cases env w₁ e
    · rw [hx] at hcommit
      cases hcommit
    · rw [hx] at hcommit
      cases hcommit
    · obtain ⟨err, -, hnone⟩ | ⟨value', hvalue', ⟨err, -, hblocked⟩ | ⟨hok, -⟩⟩ :=
        commit_cases env (w₁.kept cur) e
      · exact absurd hvalue (hnone value)
      · cases hvalue.symm.trans hvalue'
        exact absurd hblocked hfree
      · exact hok

/-- A bridge whose writer has kept the Turn it has. -/
theorem untouched_kept {t cur : RuntimeState} (ht : b.assistant = some t) (hwf : cur.Wf env.host)
    (hkey : cur.key = t.key) (hcur : (NodeWriter.current env t.key b.writer).1 = .ok cur) :
    Untouched env dec b { b with writer := b.writer.kept cur } := by
  refine ⟨rfl, ⟨rfl, rfl⟩, fun t' ht' => ?_, rfl, rfl, fun config haccepts => ?_⟩
  · cases ht.symm.trans ht'
    rw [current_kept hwf hkey, hcur]
  · obtain ⟨out, b', hb'⟩ := haccepts
    obtain ⟨e, -, hx⟩ | ⟨hcheck, ⟨hnone, -⟩ | ⟨t', ht', ⟨e, w, -, hx⟩ | ⟨⟨out', w, hupdate⟩, -⟩⟩⟩ :=
      apply_cases env dec config b
    · cases hb'.symm.trans hx
    · cases ht.symm.trans hnone
    · cases hb'.symm.trans hx
    · cases ht.symm.trans ht'
      obtain ⟨again, w'', hagain⟩ := updateConfig_kept hwf hkey hcur hupdate
      obtain ⟨e, hno, -⟩ | ⟨-, ⟨hnone, -⟩ | ⟨t', ht', ⟨e, w, hno, -⟩ | ⟨-, hok⟩⟩⟩ :=
        apply_cases env dec config { b with writer := b.writer.kept cur }
      · cases hcheck.symm.trans hno
      · cases ht.symm.trans hnone
      · cases ht.symm.trans ht'
        cases hagain.symm.trans hno
      · exact hok

/-- **A rejected PATCH changes nothing exactly when the bridge itself rejects it, or it says what
the settings say and the writer does not stop after a change of the Turn.** -/
theorem rejected_patch_unchanged (env : WriterEnv) (dec : Decoder) (config : Fields)
    (b b' : RuntimeEventNodeBridge) (e : Err) (hsound : b.writer.Sound env)
    (h : applyRuntimeConfig env dec config b = (.error e, b')) :
    Untouched env dec b b' ↔ checkSettings (merged dec config b) ≠ .ok () ∨
      (merged dec config b = b.settings ∧ ¬ Spoils env b (merged dec config b)) := by
  obtain ⟨e', hcheck, hx⟩ | ⟨hcheck,
      ⟨-, out, b'', hx⟩ | ⟨t, ht, ⟨e', w, hupdate, hx⟩ | ⟨-, out, b'', hx⟩⟩⟩ :=
    apply_cases env dec config b
  · cases h.symm.trans hx
    exact iff_of_true untouched_refl (.inl (by rw [hcheck]; simp))
  · cases h.symm.trans hx
  · cases h.symm.trans hx
    have hperform : (WriterMethod.call t.key (.updateConfig (merged dec config b).changes)).perform
        env b.writer = (.error e, w) :=
      hupdate
    have hspoils : Spoils env b (merged dec config b) ↔
        (WriterMethod.call t.key (.updateConfig (merged dec config b).changes)).Spoils env
          b.writer := by
      refine ⟨fun ⟨t', ht', hs⟩ => ?_, fun hs => ⟨t, ht, hs⟩⟩
      cases ht.symm.trans ht'
      exact hs
    rw [hspoils]
    constructor
    · intro hsame
      refine .inr ⟨hsame.settings, ?_⟩
      obtain ⟨-, hnot⟩ | ⟨cur, value, err, hcur, hwf, hkey, hkept, hiff⟩ :=
        call_settles hsound t.key
        (.updateConfig (merged dec config b).changes)
      · exact hnot
      · cases hperform.symm.trans hkept
        have hcurrent : (NodeWriter.current env t.key (b.writer.kept value)).1 = .ok cur :=
          (hsame.current t ht).trans hcur
        have hvalue := current_kept (w := b.writer) hwf (show value.key = t.key from hkey)
        rw [hiff, ne_eq, not_not]
        exact Except.ok.inj ((congrArg Prod.fst hvalue).symm.trans hcurrent)
    · rintro (hno | ⟨hsettings, hnot⟩)
      · exact absurd hcheck hno
      · rw [hsettings, took_settings]
        obtain ⟨hquiet, -⟩ | ⟨cur, value, err, hcur, hwf, hkey, hkept, hiff⟩ :=
          call_settles hsound t.key
          (.updateConfig (merged dec config b).changes)
        · rw [hquiet e w hperform]
          exact untouched_refl
        · cases hperform.symm.trans hkept
          obtain rfl : value = cur := not_not.mp fun hne => hnot (hiff.mpr hne)
          exact untouched_kept ht hwf hkey hcur
  · cases h.symm.trans hx

/-! ## A PATCH with an unknown member of the model -/

open Browser (sampleHost sampleTurn sampleTurn_wf)

def openEnv : WriterEnv := ⟨sampleHost, true, fun _ _ => none, fun _ _ => none⟩

def plainDecoder : Decoder where
  str := fun _ => ""
  int := fun _ => none
  dict := fun _ => none
  loads := fun s => if s = "\x7b\x7d" then some (.obj []) else none
  loads_empty := loads_emptyObject

def sampleBridge : RuntimeEventNodeBridge where
  providerName := "p"
  modelConfig := defaultModel.toDict
  permissionMode := "workspace_write"
  runningMode := "agent"
  assistant := some (sampleTurn "a" "success")
  lastNode := some (sampleTurn "a" "success")
  writer := streamingWriter
  runtime := some none

theorem sampleBridge_sound : sampleBridge.writer.Sound openEnv := by
  obtain ⟨hdynamic, hstore⟩ := streamingWriter_sound
  exact ⟨hdynamic, hstore⟩

def badPatch : Fields := [("model", .obj [("speed", .str "fast")])]

def goodPatch : Fields := [("running_mode", .str "plan")]

/-- A mode that the bridge does not know. -/
theorem rejected_patch_unchanged_mode : ∃ e b',
    applyRuntimeConfig openEnv plainDecoder [("running_mode", .str "chat")] sampleBridge =
      (.error e, b') ∧
      Untouched openEnv plainDecoder sampleBridge b' := by
  obtain ⟨e, b', h⟩ : ∃ e b', applyRuntimeConfig openEnv plainDecoder
      [("running_mode", .str "chat")] sampleBridge =
      (.error e, b') := ⟨_, _, rfl⟩
  refine ⟨e, b', h, (rejected_patch_unchanged _ _ _ _ _ _ sampleBridge_sound h).mpr (.inl ?_)⟩
  intro hcheck
  cases hcheck

/-- After a PATCH with an unknown member of the model no other PATCH is accepted. -/
theorem rejected_patch_stays :
    ∃ e b', applyRuntimeConfig openEnv plainDecoder badPatch sampleBridge = (.error e, b') ∧
    b'.modelConfig ≠ sampleBridge.modelConfig ∧
    Accepts openEnv plainDecoder goodPatch sampleBridge ∧
    ¬ Accepts openEnv plainDecoder goodPatch b' ∧
    ¬ Untouched openEnv plainDecoder sampleBridge b' := by
  have haccepts : Accepts openEnv plainDecoder goodPatch sampleBridge := ⟨_, _, rfl⟩
  refine ⟨_, _, rfl, ?_, haccepts, ?_, ?_⟩
  · intro h
    exact absurd (congrArg List.length h) (by decide)
  · rintro ⟨out, b', h⟩
    cases h
  · intro h
    obtain ⟨out, b', h⟩ := h.accepts goodPatch haccepts
    cases h

end RuntimeEventNodeBridge

end MiniAgent.Bridge
