import MiniAgent.Bridge.Histories

/-!
# Speech

What a model says comes in pieces. However it is cut into pieces, the Turn has it whole, as one
Item, when it has been said.
-/

namespace MiniAgent.Bridge

open Lib Turn Provider Store NodeWriter

/-- Whether the model thinks or answers. -/
inductive Speech where
  | thinking
  | response

def Speech.itemType : Speech → String
  | .thinking => "reasoning"
  | .response => "text"

def Speech.startKind : Speech → String
  | .thinking => "thinking_start"
  | .response => "response_start"

def Speech.deltaKind : Speech → String
  | .thinking => "thinking_delta"
  | .response => "response_delta"

def Speech.endKind : Speech → String
  | .thinking => "thinking_end"
  | .response => "response_end"

theorem Speech.itemType_mem (speech : Speech) :
    speech.itemType = "reasoning" ∨ speech.itemType = "text" := by
  cases speech with
  | thinking => exact .inl rfl
  | response => exact .inr rfl

namespace Draft

variable {d : Draft} {i k : Nat} {itemType text chunk : String}

/-- An Item of the type can begin: nothing has been said. -/
def Silent (d : Draft) (itemType : String) : Prop :=
  ¬ d.Lost ∧ d.streamType = some itemType ∧ d.streamIndex = none

/-- The Item that streams has what has been said. -/
structure Speaking (d : Draft) (itemType text : String) (i k : Nat) : Prop where
  message : d.messageIdx = some i
  index : d.streamIndex = some k
  type : d.streamType = some itemType
  said : d.streamText = text
  lt : k < d.blocks.length

def Spoken (d : Draft) (itemType text : String) : Prop :=
  (text = "" ∧ d.Silent itemType) ∨ ∃ i k, d.Speaking itemType text i k

theorem opened_of_message (h : d.messageIdx = some i) : d.opened = d := by
  rw [opened, if_pos (by rw [h]; rfl)]

theorem Ok.speaking_streaming (h : d.Ok) (hmessage : d.messageIdx = some i)
    (htype : d.streamType = some itemType) :
    (d.streaming i itemType chunk).Speaking itemType chunk i d.blocks.length := by
  refine ⟨hmessage, rfl, htype, rfl, ?_⟩
  rw [show (d.streaming i itemType chunk).blocks = d.blocks ++
    [TurnBridge.streamItem itemType chunk] from h.blocks_pushed hmessage,
    List.length_append, List.length_singleton]
  exact Nat.lt_succ_self _

theorem Ok.speaking_grown (h : d.Ok) (hspeaking : d.Speaking itemType text i k) :
    (d.grown i k chunk).Speaking itemType (text ++ chunk) i k := by
  refine ⟨hspeaking.message, hspeaking.index, hspeaking.type,
    congrArg (· ++ chunk) hspeaking.said, ?_⟩
  rw [h.blocks_grown hspeaking.message hspeaking.index hspeaking.type hspeaking.lt,
    List.length_modify]
  exact hspeaking.lt

/-- The Item that streams, in its version. -/
theorem Ok.itemAt_speaking (h : d.Ok) (hspeaking : d.Speaking itemType text i k) :
    itemAt d.version i k = some (TurnBridge.streamItem itemType text) := by
  obtain ⟨-, itemType', htype', -, hitem⟩ := h.stream k hspeaking.index
  obtain rfl : itemType = itemType' := Option.some.inj (hspeaking.type.symm.trans htype')
  obtain ⟨m, hm, -⟩ := h.message i hspeaking.message
  have hblock := hitem hspeaking.lt
  rw [blocks_of_message hspeaking.message, hspeaking.said, hm] at hblock
  rw [itemAt, hm]
  exact hblock

theorem Ok.itemAt_finished (h : d.Ok) (hspeaking : d.Speaking itemType text i k) :
    itemAt (d.finished (some itemType) "success").version i k =
      some [("type", .str itemType), ("text", .str text), ("status", .str "success")] := by
  have hfinished : d.finished (some itemType) "success" =
      (d.quiet none).changed (withStatus "success") i k := by
    simp [finished, settled, hspeaking.type, hspeaking.message, hspeaking.index]
  rw [hfinished, show ((d.quiet none).changed (withStatus "success") i k).version =
    changeItem (withStatus "success") i k d.version
    from version_withVersion h.dataIdx, itemAt_changeItem, h.itemAt_speaking hspeaking]
  simp [withStatus, TurnBridge.streamItem, Fields.set]

end Draft

namespace TurnBridge

variable {env : BridgeEnv} {d : Draft} {b : TurnBridge} {speech : Speech}
  {itemType text chunk : String} {i k : Nat}

/-! ## One piece after another -/

/-- What has been said so far. -/
def Spoken (env : BridgeEnv) (itemType text : String) (b : TurnBridge) : Prop :=
  ∃ d, d.Spoken itemType text ∧ Shows env d b

/-- What was said is a whole Item of the Turn, and the store has it. -/
def Told (env : BridgeEnv) (itemType text : String) (b : TurnBridge) : Prop :=
  ∃ t : ValidTurn env.writer.host, b.assistant = some t.val ∧
    b.writer.store t.val.key = some (.turn t.val) ∧
    ∃ i k, itemAt (selected t.val) i k = some [("type", .str itemType), ("text", .str text),
      ("status", .str "success")]

/-- A piece goes to the stream of its type, which is there. -/
theorem toStream_spec {Q : Unit → TurnBridge → Prop} (htype : d.streamType = some itemType)
    (hlost : ¬ d.Lost) (hchunk : chunk ≠ "")
    (hfirst : d.Ok → d.opened.streamIndex = none → Returns (Shows env d.opened)
      (openStreamItem env itemType chunk) Q)
    (hnext : ∀ k, d.Ok → d.opened.streamIndex = some k →
      Returns (Shows env d.opened) (growStreamItem env k itemType chunk) Q) :
    Returns (Shows env d) (updateStreamItem env itemType chunk) Q := by
  rw [updateStreamItem, if_neg hchunk]
  refine .read_bind fun b => .known (p := b.streamItemType = d.streamType ∧
    d.Ok) ?_ fun hknown => ?_
  · rintro b' ⟨⟨t, h⟩, rfl⟩
    exact ⟨h.streamType, h.ok⟩
  obtain ⟨hsame, hok⟩ := hknown
  refine .bind (R := fun _ => Shows env d) (.whenever (fun hother => ?_) fun _ _ h => h.1)
    fun _ => ?_
  · simp [hsame, htype] at hother
  refine .bind (ensureAssistantMessage_spec hlost) fun _ => ?_
  refine .read_bind fun b => .known (p := b.streamItemIndex = d.opened.streamIndex)
    ?_ fun hindex => ?_
  · rintro b' ⟨⟨t, h⟩, rfl⟩
    exact h.streamIndex
  refine .pre (P := Shows env d.opened) ?_ fun _ h => h.1
  rw [hindex]
  rcases hstream : d.opened.streamIndex with _ | k
  · exact hfirst hok hstream
  · exact hnext k hok hstream

theorem firstPiece_spec (hkind : itemType = "reasoning" ∨ itemType = "text") (hchunk : chunk ≠ "")
    (hsilent : d.Silent itemType) :
    Returns (Shows env d) (updateStreamItem env itemType chunk) fun _ =>
      Spoken env itemType chunk := by
  obtain ⟨hlost, htype, hquiet⟩ := hsilent
  obtain ⟨i, hmessage⟩ := d.opened_message
  obtain ⟨hindex', htype'⟩ := d.opened_stream
  rw [hquiet] at hindex'
  rw [htype] at htype'
  refine toStream_spec htype hlost hchunk (fun hok _ => ?_) fun k _ hstream => ?_
  · exact (openStreamItem_spec hmessage hindex' htype' hkind).post fun _ b h =>
      ⟨_, .inr ⟨i, _, hok.opened.speaking_streaming hmessage htype'⟩, h⟩
  · cases hindex'.symm.trans hstream

theorem nextPiece_spec (hchunk : chunk ≠ "") (hspeaking : d.Speaking itemType text i k) :
    Returns (Shows env d) (updateStreamItem env itemType chunk) fun _ =>
      Spoken env itemType (text ++ chunk) := by
  have hopened := Draft.opened_of_message hspeaking.message
  refine toStream_spec hspeaking.type (Draft.not_lost_of_message hspeaking.message)
    hchunk (fun _ hstream => ?_) fun k' hok hstream => ?_
  · rw [hopened, hspeaking.index] at hstream
    cases hstream
  · rw [hopened, hspeaking.index] at hstream
    obtain rfl := Option.some.inj hstream
    rw [hopened]
    exact (growStreamItem_spec hspeaking.message hspeaking.index hspeaking.type hchunk).post
      fun _ b h =>
      ⟨_, .inr ⟨i, k, hok.speaking_grown hspeaking⟩, h⟩

/-- A piece, also an empty one. -/
theorem piece_spec (hkind : itemType = "reasoning" ∨ itemType = "text") :
    Returns (Spoken env itemType text) (updateStreamItem env itemType chunk) fun _ =>
      Spoken env itemType (text ++ chunk) := by
  by_cases hchunk : chunk = ""
  · rw [updateStreamItem, if_pos hchunk, hchunk, String.append_empty]
    exact .pure fun _ h => h
  refine .choose fun d => .known (p := d.Spoken itemType text) (fun _ h => h.1) fun hspoken =>
    .pre (P := Shows env d) ?_ fun _ h => h.2
  rcases hspoken with ⟨rfl, hsilent⟩ | ⟨i, k, hspeaking⟩
  · rw [String.empty_append]
    exact firstPiece_spec hkind hchunk hsilent
  · exact nextPiece_spec hchunk hspeaking

/-- The end of what is said. -/
theorem told_spec (htext : text ≠ "") :
    Returns (Spoken env itemType text) (finishStreamItem env (some itemType) "success") fun _ =>
      Told env itemType text := by
  refine .choose fun d => .known (p := (∃ i k, d.Speaking itemType text i k) ∧
    d.Ok) ?_ fun ⟨⟨i, k, hspeaking⟩, hok⟩ => ?_
  · rintro b ⟨hspoken, t, h⟩
    exact ⟨hspoken.resolve_left fun hsilent => htext hsilent.1, h.ok⟩
  refine .pre (finishStreamItem_spec.post fun _ b ⟨t, h⟩ => ?_) fun _ h => h.2
  refine ⟨t, h.assistant, h.holds.stored, i, k, ?_⟩
  rw [h.selected_eq]
  exact hok.itemAt_finished hspeaking

/-! ## Events -/

/-- Drafts of which the settings of an event say nothing. -/
theorem settings_drafts {C : Draft → Prop} {data : Fields} {x : Method Unit}
    {Q : Unit → TurnBridge → Prop} (h : Returns (fun b => ∃ d, C d ∧ Shows env d b) x Q) :
    Returns (fun b => ∃ d, C d ∧ Shows env d b) (do
      applyEventConfig env data
      applyEventUsage env data
      x) Q := by
  refine .bind (R := fun _ b => ∃ d, C d ∧ Shows env d b) (.choose fun d => ?_) fun _ =>
    .bind (R := fun _ b => ∃ d, C d ∧ Shows env d b) (.choose fun d => ?_) fun _ => h
  · exact .known (fun _ hb => hb.1) fun hC =>
      (Call.Spec.pre applyEventConfig_spec fun _ hb => hb.2).post fun _ _ hb => ⟨d, hC, hb⟩
  · exact .known (fun _ hb => hb.1) fun hC =>
      (Call.Spec.pre applyEventUsage_spec fun _ hb => hb.2).post fun _ _ hb => ⟨d, hC, hb⟩

/-- An event that a bridge shows of is projected. -/
theorem handle_drafts {C : Draft → Prop} {e : RuntimeEvent} {Q : Unit → TurnBridge → Prop}
    (hkind : e.kind ∉ hiddenRecoverableEvents)
    (h : Returns (fun b => ∃ d, C d ∧ Shows env d b) (project env e.kind e.message e.data) Q) :
    Returns (fun b => ∃ d, C d ∧ Shows env d b) (handle env e) Q := by
  refine .read_bind fun b => .known (p := b.closed = false ∧ b.started = true) ?_ fun hlive =>
    .pre (P := fun b => ∃ d, C d ∧ Shows env d b) ?_ fun _ hb => hb.1
  · rintro b' ⟨⟨d, -, t, h⟩, rfl⟩
    exact ⟨h.closed, h.started⟩
  refine .ite (fun hdead => ?_) fun _ => settings_drafts h
  simp [hlive.1, hlive.2, hkind] at hdead

theorem handle_begins {e : RuntimeEvent} (hkind : e.kind = speech.startKind) :
    Returns (fun b => ∃ d, d.streamType ≠ some speech.itemType ∧ Shows env d b)
      (handle env e) fun _ =>
      Spoken env speech.itemType "" := by
  refine handle_drafts (by rw [hkind]; cases speech <;> decide) ?_
  have hproject : project env e.kind e.message e.data = (do
      startAssistantAfterReport env
      beginStreamItem env speech.itemType) := by
    rw [hkind]
    cases speech <;> simp [project, Speech.startKind, Speech.itemType]
  rw [hproject]
  refine .choose fun d => .known (fun _ h => h.1) fun hother =>
    .bind (R := fun _ b => ∃ d', (¬ d'.Lost ∧ d'.streamType = d.streamType) ∧
    Shows env d' b) ?_ fun _ => .choose fun d' => .known (fun _ h => h.1) fun ⟨hlost, htype⟩ => ?_
  · exact (Call.Spec.pre startAssistantAfterReport_draft fun _ h => h.2).post
      fun _ _ ⟨d', hlost, htype, h⟩ => ⟨d', ⟨hlost, htype⟩, h⟩
  · refine (Call.Spec.pre beginStreamItem_draft fun _ h => h.2).post
      fun _ b ⟨d'', hlike, htype', hquiet, h⟩ => ?_
    exact ⟨d'', .inl ⟨rfl, hlike.lost.not.mpr hlost, htype', hquiet (htype ▸ hother)⟩, h⟩

theorem handle_piece {e : RuntimeEvent} (hkind : e.kind = speech.deltaKind) :
    Returns (Spoken env speech.itemType text) (handle env e) fun _ =>
      Spoken env speech.itemType (text ++ e.message) := by
  refine handle_drafts (by rw [hkind]; cases speech <;> decide) ?_
  have hproject : project env e.kind e.message e.data =
      updateStreamItem env speech.itemType e.message := by
    rw [hkind]
    cases speech <;> simp [project, Speech.deltaKind, Speech.itemType]
  rw [hproject]
  exact piece_spec speech.itemType_mem

theorem handle_ends {e : RuntimeEvent} (hkind : e.kind = speech.endKind) (htext : text ≠ "") :
    Returns (Spoken env speech.itemType text) (handle env e) fun _ =>
      Told env speech.itemType text := by
  refine handle_drafts (by rw [hkind]; cases speech <;> decide) ?_
  have hproject : project env e.kind e.message e.data =
      finishStreamItem env (some speech.itemType) "success" := by
    rw [hkind]
    cases speech <;> simp [project, Speech.endKind, Speech.itemType]
  rw [hproject]
  exact told_spec htext

/-- The pieces, in their order. -/
theorem pieces_spec :
    ∀ {pieces : List RuntimeEvent} {text : String}, (∀ e ∈ pieces, e.kind = speech.deltaKind) →
    Returns (Spoken env speech.itemType text) (run env (pieces.map .event)) fun _ =>
      Spoken env speech.itemType (text ++ String.join (pieces.map (·.message)))
  | [], text, _ => .pure fun _ h => by simpa using h
  | e :: pieces, text, hkind => by
    obtain ⟨hhead, htail⟩ := List.forall_mem_cons.mp hkind
    refine .bind (handle_piece hhead) fun _ => (pieces_spec htail).post fun _ _ h => ?_
    rwa [List.map_cons, String.join_cons, ← String.append_assoc]

/-- A run of steps and then of others. -/
theorem run_append {before after : List Step} {b b' : TurnBridge}
    (h : run env (before ++ after) b = (.ok (), b')) :
    ∃ b₁, run env before b = (.ok (), b₁) ∧ run env after b₁ = (.ok (), b') := by
  induction before generalizing b with
  | nil => exact ⟨b, rfl, h⟩
  | cons s before ih =>
    obtain ⟨⟨⟩, b₂, hstep, hrest⟩ := Call.bind_ok.mp h
    obtain ⟨b₁, hbefore, hafter⟩ := ih hrest
    exact ⟨b₁, Call.bind_ok.mpr ⟨(), b₂, hstep, hbefore⟩, hafter⟩

/-- **What a model says is in the Turn whole**, however it comes in pieces. -/
theorem speech_told (env : BridgeEnv) (settings : RuntimeEventNodeBridge)
    (turn : TurnStart env.writer.host) (steps : List Step) (speech : Speech)
    (start' end' : RuntimeEvent) (pieces : List RuntimeEvent) (b₀ b₁ b : TurnBridge)
    (hstart : start env turn (new settings) = (.ok (), b₀)) (hguarded : Guarded env steps b₀)
    (hrun : run env steps b₀ = (.ok (), b₁)) (hopen : b₁.closed = false)
    (hsilent : b₁.streamItemType ≠ some speech.itemType)
    (hstartKind : start'.kind = speech.startKind)
    (hpieces : ∀ e ∈ pieces, e.kind = speech.deltaKind) (hendKind : end'.kind = speech.endKind)
    (htext : String.join (pieces.map (·.message)) ≠ "")
    (hspeech : run env (.event start' :: (pieces.map .event ++ [.event end'])) b₁ = (.ok (), b)) :
    Told env speech.itemType (String.join (pieces.map (·.message))) b := by
  obtain ⟨d, t, h⟩ :=
    ((run_spec steps).result ⟨.inl (start_spec.result rfl hstart), hguarded⟩ hrun).shows hopen
  obtain ⟨⟨⟩, b₂, hbegin, hrest⟩ := Call.bind_ok.mp hspeech
  have hbegun := (handle_begins hstartKind).result ⟨d, h.streamType ▸ hsilent, t, h⟩ hbegin
  obtain ⟨b₃, hmiddle, hlast⟩ := run_append hrest
  have hspoken := (pieces_spec hpieces).result hbegun hmiddle
  rw [String.empty_append] at hspoken
  obtain ⟨⟨⟩, b₄, hend, hnil⟩ := Call.bind_ok.mp hlast
  obtain ⟨-, rfl⟩ := Call.pure_ok.mp hnil
  exact (handle_ends hendKind htext).result hspoken hend

def hello : List RuntimeEvent :=
  [⟨"response_delta", "hel", []⟩, ⟨"response_delta", "", []⟩, ⟨"response_delta", "lo", []⟩]

def helloBegins : RuntimeEvent := ⟨"response_start", "", []⟩

def helloEnds : RuntimeEvent := ⟨"response_end", "", []⟩

def helloSaid : Option TurnBridge :=
  (outcome (start openBridge firstTurn) (new plainSettings)).bind fun b₀ =>
    if b₀.streamItemType = some Speech.response.itemType then none
    else outcome (run openBridge (.event helloBegins :: (hello.map .event ++ [.event helloEnds])))
      b₀

theorem isSome_helloSaid : helloSaid.isSome = true := by decide +kernel

/-- An answer in two pieces, and an empty one between them. -/
theorem speech_told_hello : ∃ b₀ b, start openBridge firstTurn (new plainSettings) = (.ok (), b₀) ∧
    run openBridge (.event helloBegins :: (hello.map .event ++ [.event helloEnds])) b₀ =
      (.ok (), b) ∧
    Told openBridge "text" (String.join (hello.map (·.message))) b := by
  obtain ⟨b, hb⟩ := Option.isSome_iff_exists.mp isSome_helloSaid
  rw [helloSaid, Option.bind_eq_some_iff] at hb
  obtain ⟨b₀, hstart, hb⟩ := hb
  split at hb
  · cases hb
  next hsilent =>
  obtain ⟨t₀, -, hkeeps⟩ := start_keeps.result rfl (outcome_some hstart)
  have hpieces : ∀ e ∈ hello, e.kind = Speech.response.deltaKind := by
    intro e he
    simp only [hello, List.mem_cons, List.not_mem_nil, or_false] at he
    obtain rfl | rfl | rfl := he <;> rfl
  exact ⟨b₀, b, outcome_some hstart, outcome_some hb,
    speech_told openBridge plainSettings firstTurn [] .response helloBegins
      helloEnds hello b₀ b₀ b (outcome_some hstart) trivial rfl
      hkeeps.closed hsilent rfl hpieces rfl (by decide +kernel) (outcome_some hb)⟩

end TurnBridge

end MiniAgent.Bridge
