import MiniAgent.Context.Exchange
import MiniAgent.Lib.Call
import MiniAgent.Queue.Message

/-!
# Automatic compaction of the history

`ContextManager.prepare` of `planning/context_management.py`: a request is estimated, and when the
estimate reaches the target the completed part of the history is replaced by a summary. The
candidate is accepted up to the target, and the next request is compacted from the target on, so
that a candidate of exactly the target is compacted again.

The estimate is a function of the request, `int(context_size * target_ratio)` a number, and the
summarizer a function of the transcript; each of them, the event sink and the store can raise.
-/

namespace MiniAgent.Context

open Lib Provider

/-- An exception with its text. -/
inductive PlanError where
  | planning (text : String)
  | raised (text : String)
  deriving DecidableEq

inductive Phase where
  | beforeCompaction
  | afterCompaction
  deriving DecidableEq

/-- The events of a compaction, with what their data is made of. -/
inductive CompactionEvent where
  | usage (estimated : Int) (phase : Phase)
  | started (sourceMessages retainedMessages : Nat) (estimatedBefore : Int)
  | completed (sourceMessages previousMessages remainingMessages : Nat)
    (estimatedBefore estimatedAfter : Int) (summary : String)
  | failed (sourceMessages : Nat) (estimatedBefore : Int) (error : String)
  deriving DecidableEq

/-- The manager, with the services of the runtime. -/
structure ContextManager (ToolSpec : Type) where
  contextSize : Int
  targetTokens : Int
  estimate : List ChatMessage → List ToolSpec → Fields → Except PlanError Int
  summarize : String → Except PlanError String
  /-- What `publish` raises at an event. -/
  publish : CompactionEvent → Option PlanError
  /-- What `save` raises with a history and its boundary. -/
  save : List ChatMessage → Int → Option PlanError
  safeErrorMessage : PlanError → String
  /-- `json.dumps(value, ensure_ascii=False, indent=2)`. -/
  dumps : Json → String

/-- The arguments of `prepare`. -/
structure PrepareArgs (ToolSpec : Type) where
  system : TextMessage
  extra : List TextMessage
  tools : List ToolSpec
  requestParameters : Fields

/-- The part of the runtime that `prepare` uses, and what it has asked of the summarizer and
published. -/
structure AgentRuntime where
  messages : List ChatMessage
  turnStartIndex : Int
  estimatedInputTokens : Option Int
  asked : List String
  published : List CompactionEvent

/-! ## Transcripts -/

def toolStatusText : ToolStatus → String
  | .pending => "pending"
  | .succeeded => "succeeded"
  | .failed => "failed"
  | .indeterminate => "indeterminate"

def textJson : Option String → Json
  | some s => .str s
  | none => .null

def transcriptTool (t : ToolMessage) : Json :=
  .obj [("name", .str t.name), ("arguments", t.arguments),
    ("status", .str (toolStatusText t.status)),
    ("result", textJson t.content)]

def transcriptItem : ChatMessage → Json
  | .system m => .obj [("role", .str "system"), ("content", textJson m.content)]
  | .user m => .obj [("role", .str "user"), ("content", textJson m.content)]
  | .assistant m =>
    if m.toolMessages.isEmpty then
      .obj [("role", .str "assistant"), ("content", textJson m.content)]
    else .obj [("role", .str "assistant"), ("content", textJson m.content),
      ("tools", .arr (m.toolMessages.map transcriptTool))]

def summaryMessage (summary : String) : ChatMessage :=
  .system ⟨"context_summary", some (checkpointPreamble ++ "\n\n" ++ summary), []⟩

namespace ContextManager

variable {ToolSpec : Type} (m : ContextManager ToolSpec) (a : PrepareArgs ToolSpec)

abbrev Method (α : Type) := Call PlanError AgentRuntime α

def record (event : CompactionEvent) : Method Unit :=
  match m.publish event with
  | some e => Call.raise e
  | none => Call.write fun rt => { rt with published := rt.published ++ [event] }

def saveRuntime : Method Unit := fun rt =>
  match m.save rt.messages rt.turnStartIndex with
  | some e => (.error e, rt)
  | none => (.ok (), rt)

def transcript (messages : List ChatMessage) : String :=
  m.dumps (.arr (messages.map transcriptItem))

/-- The request with a history. -/
def request (history : List ChatMessage) : List ChatMessage :=
  .system a.system :: history ++ a.extra.map .user

def estimateInputTokens (history : List ChatMessage) : Except PlanError Int :=
  m.estimate (request a history) a.tools a.requestParameters

/-! ## Summaries -/

structure Candidate where
  summary : String
  compressed : List ChatMessage
  estimatedAfter : Int

/-- What follows the answer of the summarizer. -/
def judge (retained : List ChatMessage) (answer : String) : Except PlanError Candidate :=
  let summary := String.ofList (Queue.strip answer.toList)
  if summary = "" then .error (.planning "Context summarization returned no content.")
  else
    let compressed := summaryMessage summary :: retained
    match m.estimateInputTokens a compressed with
    | .error e => .error e
    | .ok after =>
      if m.targetTokens < after then
        .error (.planning ("Context compaction could not reduce the candidate request to the " ++
          "configured context target."))
      else .ok ⟨summary, compressed, after⟩

def candidate (source retained : List ChatMessage) : Except PlanError Candidate := do
  let answer ← m.summarize (m.transcript source)
  m.judge a retained answer

def summarizeCandidate (source retained : List ChatMessage) (before : Int) : Method Candidate := do
  m.record (.started source.length retained.length before)
  m.saveRuntime
  Call.write fun rt => { rt with asked := rt.asked ++ [m.transcript source] }
  match m.candidate a source retained with
  | .ok c => pure c
  | .error e => do
    m.record (.failed source.length before (m.safeErrorMessage e))
    m.saveRuntime
    Call.raise e

/-! ## Requests -/

def setEstimated (n : Int) : Method Unit :=
  Call.write fun rt => { rt with estimatedInputTokens := some n }

def replaceHistory (messages : List ChatMessage) (turnStartIndex : Int) : Method Unit :=
  Call.write fun rt => { rt with messages, turnStartIndex }

/-- Where the active Turn starts in the history. -/
def boundaryOf (turnStartIndex : Int) (history : List ChatMessage) : Nat :=
  (min (max turnStartIndex 0) history.length).toNat

/-- `prepare`; a caller with its own history passes it. -/
def prepare (history : Option (List ChatMessage)) : Method (List ChatMessage) := do
  let rt ← Call.read id
  let source := history.getD rt.messages
  let before ← Call.ofExcept (m.estimateInputTokens a source)
  m.record (.usage before .beforeCompaction)
  if before < m.targetTokens then do
    setEstimated before
    pure (request a source)
  else
    let boundary := boundaryOf rt.turnStartIndex source
    if source.take boundary = [] then
      if m.contextSize ≤ before then
        Call.raise (.planning ("The current turn exceeds the model context window and cannot be " ++
          "compacted before it finishes."))
      else do
        setEstimated before
        pure (request a source)
    else do
      let c ← m.summarizeCandidate a (source.take boundary) (source.drop boundary) before
      match history with
      | none => replaceHistory c.compressed 1
      | some _ => Call.write fun rt =>
        { rt with
          turnStartIndex := max 0 ((c.compressed.length : Int) - (source.drop boundary).length) }
      m.record (.completed (source.take boundary).length source.length c.compressed.length
        before c.estimatedAfter c.summary)
      m.saveRuntime
      m.record (.usage c.estimatedAfter .afterCompaction)
      setEstimated c.estimatedAfter
      pure (request a c.compressed)

/-! ## Steps -/

variable {m : ContextManager ToolSpec} {a : PrepareArgs ToolSpec} {rt rt' : AgentRuntime}

theorem record_cases (m : ContextManager ToolSpec) (event : CompactionEvent) (rt : AgentRuntime) :
    (∃ e, m.publish event = some e ∧ m.record event rt = (.error e, rt)) ∨
    (m.publish event = none ∧ m.record event rt =
      (.ok (), { rt with published := rt.published ++ [event] })) := by
  unfold record
  rcases m.publish event with _ | e
  · exact .inr ⟨rfl, rfl⟩
  · exact .inl ⟨e, rfl, rfl⟩

theorem saveRuntime_cases (m : ContextManager ToolSpec) (rt : AgentRuntime) :
    (∃ e, m.save rt.messages rt.turnStartIndex = some e ∧ m.saveRuntime rt = (.error e, rt)) ∨
    (m.save rt.messages rt.turnStartIndex = none ∧ m.saveRuntime rt = (.ok (), rt)) := by
  unfold saveRuntime
  rcases m.save rt.messages rt.turnStartIndex with _ | e
  · exact .inr ⟨rfl, rfl⟩
  · exact .inl ⟨e, rfl, rfl⟩

/-- The history and its boundary are the same. -/
def SameHistory (rt rt' : AgentRuntime) : Prop :=
  rt'.messages = rt.messages ∧ rt'.turnStartIndex = rt.turnStartIndex

theorem summarizeCandidate_cases (source retained : List ChatMessage) (before : Int)
    (rt : AgentRuntime) :
    (∃ e rt', m.summarizeCandidate a source retained before rt = (.error e, rt') ∧
      SameHistory rt rt' ∧
      (m.publish (.started source.length retained.length before) = none →
        m.save rt.messages rt.turnStartIndex = none →
        ∀ c, m.candidate a source retained ≠ .ok c)) ∨
    ∃ c rt', m.summarizeCandidate a source retained before rt = (.ok c, rt') ∧ SameHistory rt rt' ∧
      rt'.asked = rt.asked ++ [m.transcript source] ∧ m.candidate a source retained = .ok c ∧
      m.publish (.started source.length retained.length before) = none ∧
      m.save rt.messages rt.turnStartIndex = none := by
  unfold summarizeCandidate
  obtain ⟨e, hstarted, hx⟩ | ⟨hstarted, hx⟩ :=
    record_cases m (.started source.length retained.length before) rt
  · exact .inl ⟨e, rt, Call.bind_of_error hx, ⟨rfl, rfl⟩, fun hno =>
      nomatch hstarted.symm.trans hno⟩
  rw [Call.bind_of_ok hx]
  obtain ⟨e, hsave, hx⟩ | ⟨hsave, hx⟩ := saveRuntime_cases m
    { rt with published := rt.published ++ [.started source.length retained.length before] }
  · exact .inl ⟨e, _, Call.bind_of_error hx, ⟨rfl, rfl⟩, fun _ hno => nomatch hsave.symm.trans hno⟩
  rw [Call.bind_of_ok hx]
  rcases hc : m.candidate a source retained with e | c
  · -- the failure is published and saved, and either of it can raise itself
    refine .inl ?_
    rw [Call.bind_of_ok (show Call.write _ _ = (.ok (), _) from rfl)]
    obtain ⟨e', -, hx⟩ | ⟨-, hx⟩ :=
      record_cases m (.failed source.length before (m.safeErrorMessage e))
      { rt with published := rt.published ++ [.started source.length retained.length before]
                asked := rt.asked ++ [m.transcript source] }
    · exact ⟨e', _, Call.bind_of_error hx, ⟨rfl, rfl⟩, fun _ _ c hno => nomatch hno⟩
    dsimp only
    rw [Call.bind_of_ok hx]
    obtain ⟨e', -, hx⟩ | ⟨-, hx⟩ := saveRuntime_cases m
      { rt with published := rt.published ++ [.started source.length retained.length before] ++
                  [.failed source.length before (m.safeErrorMessage e)]
                asked := rt.asked ++ [m.transcript source] }
    · exact ⟨e', _, Call.bind_of_error hx, ⟨rfl, rfl⟩, fun _ _ c hno => nomatch hno⟩
    · rw [Call.bind_of_ok hx]
      exact ⟨e, _, rfl, ⟨rfl, rfl⟩, fun _ _ c hno => nomatch hno⟩
  · exact .inr ⟨c, _, rfl, ⟨rfl, rfl⟩, rfl, rfl, hstarted, hsave⟩

/-! ## Outcomes -/

def completedOf (rt : AgentRuntime) : List ChatMessage :=
  rt.messages.take (boundaryOf rt.turnStartIndex rt.messages)

def retainedOf (rt : AgentRuntime) : List ChatMessage :=
  rt.messages.drop (boundaryOf rt.turnStartIndex rt.messages)

/-- **A candidate is accepted**: the estimate has reached the target, there is completed history,
and a summary of it brings the request down to the target. -/
structure Accepted (m : ContextManager ToolSpec) (a : PrepareArgs ToolSpec)
    (rt : AgentRuntime) (before : Int) (c : Candidate) :
    Prop where
  estimated : m.estimateInputTokens a rt.messages = .ok before
  reached : m.targetTokens ≤ before
  completed : completedOf rt ≠ []
  reported : m.publish (.usage before .beforeCompaction) = none
  started : m.publish (.started (completedOf rt).length (retainedOf rt).length before) = none
  saved : m.save rt.messages rt.turnStartIndex = none
  candidate : m.candidate a (completedOf rt) (retainedOf rt) = .ok c

/-- Nothing raises after the history has been replaced. -/
structure Settled (m : ContextManager ToolSpec) (rt : AgentRuntime) (before : Int) (c : Candidate) :
    Prop where
  published : m.publish (.completed (completedOf rt).length rt.messages.length
    c.compressed.length before c.estimatedAfter
    c.summary) = none
  saved : m.save c.compressed 1 = none
  reported : m.publish (.usage c.estimatedAfter .afterCompaction) = none

/-- The request is below the target, or has nothing to compact. -/
def Passes (m : ContextManager ToolSpec) (a : PrepareArgs ToolSpec) (rt : AgentRuntime)
    (before : Int) : Prop :=
  m.estimateInputTokens a rt.messages = .ok before ∧
    m.publish (.usage before .beforeCompaction) = none ∧
    (before < m.targetTokens ∨ completedOf rt = [] ∧ before < m.contextSize)

/-- What follows the replacement of the history. -/
def settle (m : ContextManager ToolSpec) (a : PrepareArgs ToolSpec) (rt : AgentRuntime)
    (before : Int) (c : Candidate) :
    Method (List ChatMessage) := do
  m.record (.completed (completedOf rt).length rt.messages.length c.compressed.length
    before c.estimatedAfter c.summary)
  m.saveRuntime
  m.record (.usage c.estimatedAfter .afterCompaction)
  setEstimated c.estimatedAfter
  pure (request a c.compressed)

theorem prepare_eq (m : ContextManager ToolSpec) (a : PrepareArgs ToolSpec) (rt : AgentRuntime) :
    m.prepare a none rt = (do
    let before ← Call.ofExcept (m.estimateInputTokens a rt.messages)
    m.record (.usage before .beforeCompaction)
    if before < m.targetTokens then do
      setEstimated before
      pure (request a rt.messages)
    else if completedOf rt = [] then
      if m.contextSize ≤ before then
        Call.raise (.planning ("The current turn exceeds the model context window and cannot be " ++
          "compacted before it finishes."))
      else do
        setEstimated before
        pure (request a rt.messages)
    else do
      let c ← m.summarizeCandidate a (completedOf rt) (retainedOf rt) before
      replaceHistory c.compressed 1
      m.settle a rt before c) rt := rfl

theorem settle_cases (m : ContextManager ToolSpec) (a : PrepareArgs ToolSpec) (rt : AgentRuntime)
    (before : Int) (c : Candidate) (rt₁ : AgentRuntime) (hmessages : rt₁.messages = c.compressed)
    (hindex : rt₁.turnStartIndex = 1) :
    (∃ e rt', m.settle a rt before c rt₁ = (.error e, rt') ∧ SameHistory rt₁ rt' ∧
      ¬ Settled m rt before c) ∨
    ∃ rt', m.settle a rt before c rt₁ = (.ok (request a c.compressed), rt') ∧
      SameHistory rt₁ rt' ∧ rt'.asked = rt₁.asked ∧
      Settled m rt before c := by
  unfold settle
  obtain ⟨e, hpublish, hx⟩ | ⟨hpublish, hx⟩ :=
    record_cases m (.completed (completedOf rt).length rt.messages.length
    c.compressed.length before c.estimatedAfter c.summary) rt₁
  · exact .inl ⟨e, _, Call.bind_of_error hx, ⟨rfl, rfl⟩, fun h =>
      nomatch hpublish.symm.trans h.published⟩
  rw [Call.bind_of_ok hx]
  obtain ⟨e, hsave, hx⟩ | ⟨hsave, hx⟩ :=
    saveRuntime_cases m { rt₁ with published := rt₁.published ++ [.completed
    (completedOf rt).length rt.messages.length c.compressed.length before
      c.estimatedAfter c.summary] }
  all_goals simp only [hmessages, hindex] at hsave
  · exact .inl ⟨e, _, Call.bind_of_error hx, ⟨rfl, rfl⟩, fun h => nomatch hsave.symm.trans h.saved⟩
  rw [Call.bind_of_ok hx]
  obtain ⟨e, husage, hx⟩ | ⟨husage, hx⟩ := record_cases m (.usage c.estimatedAfter .afterCompaction)
    { rt₁ with
    published := rt₁.published ++
      [.completed (completedOf rt).length rt.messages.length c.compressed.length before
      c.estimatedAfter c.summary] }
  · exact .inl ⟨e, _, Call.bind_of_error hx, ⟨rfl, rfl⟩, fun h =>
      nomatch husage.symm.trans h.reported⟩
  rw [Call.bind_of_ok hx]
  exact .inr ⟨_, rfl, ⟨rfl, rfl⟩, rfl, hpublish, hsave, husage⟩

theorem accepted_unique {before before' : Int} {c c' : Candidate} (h : Accepted m a rt before c)
    (h' : Accepted m a rt before' c') : before = before' ∧ c = c' :=
  ⟨Except.ok.inj (h.estimated.symm.trans h'.estimated),
    Except.ok.inj (h.candidate.symm.trans h'.candidate)⟩

theorem Passes.not_accepted {before before' : Int} {c : Candidate} (h : Passes m a rt before) :
    ¬ Accepted m a rt before' c := by
  intro haccepted
  obtain rfl : before = before' := Except.ok.inj (h.1.symm.trans haccepted.estimated)
  rcases h.2.2 with hbelow | hnone
  · exact absurd hbelow (Int.not_lt.mpr haccepted.reached)
  · exact haccepted.completed hnone.1

/-- **How a request ends.** -/
theorem prepare_cases (m : ContextManager ToolSpec) (a : PrepareArgs ToolSpec) (rt : AgentRuntime) :
    (∃ e rt', m.prepare a none rt = (.error e, rt') ∧ SameHistory rt rt' ∧
      ∀ before c, ¬ Accepted m a rt before c) ∨
    (∃ before rt', m.prepare a none rt = (.ok (request a rt.messages), rt') ∧
      SameHistory rt rt' ∧ rt'.asked = rt.asked ∧
      Passes m a rt before) ∨
    ∃ before c, Accepted m a rt before c ∧
      ((∃ e rt', m.prepare a none rt = (.error e, rt') ∧
        (rt'.messages = c.compressed ∧ rt'.turnStartIndex = 1) ∧
          ¬ Settled m rt before c) ∨
       ∃ rt', m.prepare a none rt = (.ok (request a c.compressed), rt') ∧
          (rt'.messages = c.compressed ∧ rt'.turnStartIndex = 1) ∧
          rt'.asked = rt.asked ++ [m.transcript (completedOf rt)] ∧ Settled m rt before c) := by
  rw [prepare_eq]
  rcases hbefore : m.estimateInputTokens a rt.messages with e | before
  · exact .inl ⟨e, rt, Call.bind_of_error rfl, ⟨rfl, rfl⟩, fun before c h =>
      nomatch hbefore.symm.trans h.estimated⟩
  rw [Call.bind_of_ok (show Call.ofExcept (.ok before) rt = (.ok before, rt) from rfl)]
  have hthis : ∀ {before' c}, Accepted m a rt before' c → before' = before :=
    fun h => Except.ok.inj (h.estimated.symm.trans hbefore)
  obtain ⟨e, husage, hx⟩ | ⟨husage, hx⟩ := record_cases m (.usage before .beforeCompaction) rt
  · refine .inl ⟨e, rt, Call.bind_of_error hx, ⟨rfl, rfl⟩, fun before' c h => ?_⟩
    have hreported := h.reported
    rw [hthis h, husage] at hreported
    cases hreported
  rw [Call.bind_of_ok hx]
  by_cases hbelow : before < m.targetTokens
  · rw [if_pos hbelow]
    exact .inr (.inl ⟨before, _, rfl, ⟨rfl, rfl⟩, rfl, hbefore, husage, .inl hbelow⟩)
  rw [if_neg hbelow]
  by_cases hnone : completedOf rt = []
  · rw [if_pos hnone]
    by_cases hover : m.contextSize ≤ before
    · rw [if_pos hover]
      exact .inl ⟨_, _, rfl, ⟨rfl, rfl⟩, fun before' c h => h.completed hnone⟩
    · rw [if_neg hover]
      exact .inr (.inl ⟨before, _, rfl, ⟨rfl, rfl⟩, rfl, hbefore, husage,
        .inr ⟨hnone, Int.not_le.mp hover⟩⟩)
  rw [if_neg hnone]
  obtain ⟨e, rt₁, hx, hsame, hno⟩ | ⟨c, rt₁, hx, hsame, hasked, hc, hstarted, hsaved⟩ :=
    summarizeCandidate_cases (m := m) (a := a) (completedOf rt) (retainedOf rt) before
      { rt with published := rt.published ++ [.usage before .beforeCompaction] }
  · refine .inl ⟨e, rt₁, Call.bind_of_error hx, hsame, fun before' c h => ?_⟩
    obtain rfl := hthis h
    exact hno h.started h.saved c h.candidate
  refine .inr (.inr ⟨before, c, ⟨hbefore, Int.not_lt.mp hbelow, hnone, husage,
    hstarted, hsaved, hc⟩, ?_⟩)
  rw [Call.bind_of_ok hx, Call.bind_of_ok (show replaceHistory c.compressed 1 rt₁ =
    (.ok (), { rt₁ with messages := c.compressed, turnStartIndex := 1 }) from rfl)]
  obtain ⟨e, rt', hx, hsame, hno⟩ | ⟨rt', hx, hsame, hasked', hsettled⟩ :=
    settle_cases m a rt before c { rt₁ with messages := c.compressed, turnStartIndex := 1 } rfl rfl
  · exact .inl ⟨e, rt', hx, hsame, hno⟩
  · exact .inr ⟨rt', hx, hsame, hasked'.trans hasked, hsettled⟩

/-! ## Stability -/

/-- **A request that preserves the active Turn and is stable**: the messages from the boundary on
are in the request, a request that raises has changed nothing, and after a compaction the same
request is made again without a summary. -/
structure Preserving (m : ContextManager ToolSpec) (a : PrepareArgs ToolSpec) (rt : AgentRuntime) :
    Prop where
  keeps : ∀ out rt', m.prepare a none rt = (.ok out, rt') →
    ∃ before, out = before ++ retainedOf rt ++ a.extra.map .user
  unchanged : ∀ e rt', m.prepare a none rt = (.error e, rt') → SameHistory rt rt'
  stable : ∀ out rt', m.prepare a none rt = (.ok out, rt') → rt'.asked ≠ rt.asked →
    ∃ rt'', m.prepare a none rt' = (.ok out, rt'') ∧ rt''.asked = rt'.asked

/-- **A candidate that is accepted is below the target**, and nothing raises once it is the history
(or it is the history that was there). -/
def BelowTarget (m : ContextManager ToolSpec) (a : PrepareArgs ToolSpec) (rt : AgentRuntime) :
    Prop :=
  ∀ before c, Accepted m a rt before c →
    (Settled m rt before c ∧ c.estimatedAfter < m.targetTokens ∧
      m.publish (.usage c.estimatedAfter .beforeCompaction) = none) ∨
    (¬ Settled m rt before c ∧ rt.messages = c.compressed ∧ rt.turnStartIndex = 1)

theorem candidate_ok {source retained : List ChatMessage} {c : Candidate}
    (h : m.candidate a source retained = .ok c) :
    c.compressed = summaryMessage c.summary :: retained ∧
    m.estimateInputTokens a c.compressed = .ok c.estimatedAfter ∧
      c.estimatedAfter ≤ m.targetTokens := by
  obtain ⟨answer, -, h⟩ := bind_ok.mp h
  unfold judge at h
  dsimp only at h
  split at h
  · cases h
  split at h
  · cases h
  next after hafter =>
  split at h
  · cases h
  next hover =>
  cases h
  exact ⟨rfl, hafter, Int.not_lt.mp hover⟩

theorem request_split (a : PrepareArgs ToolSpec) (rt : AgentRuntime) :
    request a rt.messages = (.system a.system :: completedOf rt) ++ retainedOf rt ++
      a.extra.map .user := by
  have hsplit : completedOf rt ++ retainedOf rt = rt.messages := List.take_append_drop _ _
  rw [request, ← hsplit]
  simp

/-- The same request on the history of a candidate. -/
theorem prepare_again {c : Candidate} {source retained : List ChatMessage}
    (hc : m.candidate a source retained = .ok c) (hmessages : rt.messages = c.compressed)
    (hindex : rt.turnStartIndex = 1) :
    (∃ rt', m.prepare a none rt = (.ok (request a c.compressed), rt') ∧ rt'.asked = rt.asked) ↔
      c.estimatedAfter < m.targetTokens ∧ m.publish (.usage c.estimatedAfter .beforeCompaction) =
        none := by
  obtain ⟨hcompressed, hestimate, -⟩ := candidate_ok hc
  have hcompleted : completedOf rt ≠ [] := by
    rw [completedOf, hmessages, hindex, hcompressed]
    have hone : boundaryOf 1 (summaryMessage c.summary :: retained) = 1 := by
      simp only [boundaryOf, List.length_cons]
      omega
    rw [hone]
    simp
  have hestimated : m.estimateInputTokens a rt.messages = .ok c.estimatedAfter := by
    rw [hmessages, hestimate]
  constructor
  · rintro ⟨rt₁, hok, hquiet⟩
    obtain ⟨e, rt', hx, -⟩ | ⟨before, rt', hx, -, -, hbefore, husage, hpass⟩ |
      ⟨before, c', -, ⟨e, rt', hx, -⟩ | ⟨rt', hx, -, hasked, -⟩⟩ := prepare_cases m a rt
    · cases hok.symm.trans hx
    · obtain rfl : before = c.estimatedAfter := Except.ok.inj (hbefore.symm.trans hestimated)
      exact ⟨hpass.resolve_right fun hnone => hcompleted hnone.1, husage⟩
    · cases hok.symm.trans hx
    · -- a compaction has asked for a summary
      obtain rfl : rt' = rt₁ := (Prod.mk.inj (hx.symm.trans hok)).2
      rw [hquiet] at hasked
      simp at hasked
  · rintro ⟨hbelow, husage⟩
    obtain ⟨e, hno, -⟩ | ⟨-, hx⟩ := record_cases m (.usage c.estimatedAfter .beforeCompaction) rt
    · cases husage.symm.trans hno
    rw [prepare_eq, hestimated, Call.bind_of_ok (show Call.ofExcept (.ok c.estimatedAfter) rt =
      (.ok c.estimatedAfter, rt) from rfl),
      Call.bind_of_ok hx, if_pos hbelow, hmessages]
    exact ⟨_, rfl, rfl⟩

/-- Automatic compaction is preserving and stable exactly when no candidate of exactly the target is
accepted and no service raises on the new history. -/
theorem prepare_preserving (m : ContextManager ToolSpec) (a : PrepareArgs ToolSpec)
    (rt : AgentRuntime) : Preserving m a rt ↔ BelowTarget m a rt := by
  obtain ⟨e, rt', hx, hsame, hno⟩ | ⟨before, rt', hx, hsame, hasked, hpass⟩ |
    ⟨before, c, haccepted, ⟨e, rt', hx, hreplaced, hunsettled⟩ | ⟨rt', hx,
      hreplaced, hasked, hsettled⟩⟩ := prepare_cases m a rt
  · refine iff_of_true ⟨fun out rt₁ h => ?_, fun e' rt₁ h => ?_, fun out rt₁ h => ?_⟩
      fun before c h => absurd h (hno before c)
    · cases h.symm.trans hx
    · cases h.symm.trans hx
      exact hsame
    · cases h.symm.trans hx
  · refine iff_of_true ⟨fun out rt₁ h => ?_, fun e' rt₁ h => ?_, fun out rt₁ h hcompacted => ?_⟩
      fun before c h => absurd h hpass.not_accepted
    · cases h.symm.trans hx
      exact ⟨_, request_split a rt⟩
    · cases h.symm.trans hx
    · cases h.symm.trans hx
      exact absurd hasked hcompacted
  · -- a service raises on the new history
    constructor
    · intro h before' c' haccepted'
      obtain ⟨rfl, rfl⟩ := accepted_unique haccepted haccepted'
      obtain ⟨hmessages, hindex⟩ := h.unchanged e rt' hx
      exact .inr ⟨hunsettled, hmessages.symm.trans hreplaced.1, hindex.symm.trans hreplaced.2⟩
    · intro h
      obtain ⟨hsettled, -⟩ | ⟨-, hmessages, hindex⟩ := h before c haccepted
      · exact absurd hsettled hunsettled
      refine ⟨fun out rt₁ hok => ?_, fun e' rt₁ herror => ?_, fun out rt₁ hok => ?_⟩
      · cases hok.symm.trans hx
      · cases herror.symm.trans hx
        exact ⟨hreplaced.1.trans hmessages.symm, hreplaced.2.trans hindex.symm⟩
      · cases hok.symm.trans hx
  · obtain ⟨hcompressed, -⟩ := candidate_ok haccepted.candidate
    have hagain := prepare_again haccepted.candidate hreplaced.1 hreplaced.2
    have hgrown : rt'.asked ≠ rt.asked := by
      rw [hasked]
      simp
    constructor
    · intro h before' c' haccepted'
      obtain ⟨rfl, rfl⟩ := accepted_unique haccepted haccepted'
      exact .inl ⟨hsettled, hagain.mp (h.stable _ rt' hx hgrown)⟩
    · intro h
      obtain ⟨-, hbelow⟩ | ⟨hno, -⟩ := h before c haccepted
      · refine ⟨fun out rt₁ hok => ?_, fun e' rt₁ herror => ?_, fun out rt₁ hok _ => ?_⟩
        · obtain ⟨hout, -⟩ := Prod.mk.inj (hx.symm.trans hok)
          cases hout
          refine ⟨[.system a.system, summaryMessage c.summary], ?_⟩
          rw [request, hcompressed]
          rfl
        · cases herror.symm.trans hx
        · obtain ⟨hout, rfl⟩ := Prod.mk.inj (hx.symm.trans hok)
          cases hout
          exact hagain.mpr hbelow
      · exact absurd hsettled hno

/-! ## A candidate of exactly the target -/

/-- Every request is estimated at the target. -/
def levelManager : ContextManager Unit where
  contextSize := 10
  targetTokens := 8
  estimate := fun _ _ _ => .ok 8
  summarize := fun _ => .ok "short"
  publish := fun _ => none
  save := fun _ _ => none
  safeErrorMessage := fun _ => ""
  dumps := fun _ => "\x5b\x5d"

def levelArgs : PrepareArgs Unit := ⟨⟨"system", some "rules", []⟩, [], [], []⟩

def levelRuntime : AgentRuntime :=
  ⟨[.user ⟨"user", some "old", []⟩, .assistant ⟨"assistant", some "answer", none, [], []⟩,
    .user ⟨"user", some "new", []⟩], 2,
    none, [], []⟩

/-- The same request asks for a second summary. -/
theorem prepare_compacts_again : ∃ out rt' rt'',
    levelManager.prepare levelArgs none levelRuntime = (.ok out, rt') ∧
    levelManager.prepare levelArgs none rt' = (.ok out, rt'') ∧ rt'.asked.length = 1 ∧
    rt''.asked.length = 2 ∧
    ¬ Preserving levelManager levelArgs levelRuntime := by
  refine ⟨_, _, _, rfl, rfl, rfl, rfl, fun h => ?_⟩
  obtain ⟨rt'', hx, hasked⟩ := h.stable _ _ rfl (by intro h; cases h)
  cases hx
  cases hasked

end ContextManager

end MiniAgent.Context
