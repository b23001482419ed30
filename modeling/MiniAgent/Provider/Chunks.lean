import MiniAgent.Provider.Chunking

/-!
# Chunks that are an answer

A stream of chunks is an answer when every chunk is made of deltas that no check of the loop
refuses, some choice is there, every choice has a finish reason, and the gathered choices are
`Acceptable`. The parser answers exactly then (`parseStream_iff`).
-/

namespace MiniAgent.Provider.Chat

open Lib

/-! ## Chunks -/

/-- A choice of a chunk; one without an index has that of its position. -/
def IsDeltaAt (position : Nat) (raw : Json) (d : Delta) : Prop :=
  ∃ f, raw = .obj f ∧
    (Fields.get f "index" = some (.int d.index) ∨ Fields.get f "index" = none ∧
      d.index = position) ∧
    IsDelta (.obj (Fields.set f "index" (.int d.index))) d

def IsChunk (event : Fields) (deltas : List Delta) : Prop :=
  ∃ raws, event.get "choices" = some (.arr raws) ∧
    List.Forall₂ (fun p d => IsDeltaAt p.2 p.1 d) raws.zipIdx deltas ∧
    ∀ e, objectOrNull (event.get "usage") e = .ok ()

/-- The choices that the deltas amount to. -/
def gathered (deltas : List Delta) : List Choice := (sorted (takeDeltas .empty deltas)).map choiceOf

structure Complete (dec : Decoder) (deltas : List Delta) : Prop where
  choice : deltas ≠ []
  finished : ∀ d ∈ deltas, ∃ d' ∈ deltas, d'.index = d.index ∧ d'.finishReason.isSome = true
  acceptable : Acceptable dec (gathered deltas)

/-- **The chunks are an answer.** -/
def Answers (dec : Decoder) (events : List Fields) : Prop :=
  ∃ said, List.Forall₂ IsChunk events said ∧ (∀ d ∈ said.flatten, d.Fine) ∧
    Complete dec said.flatten

/-! ## What is read -/

variable {s s' : Streaming} {v : Option Json} {e : String}

theorem integerOr_none {n : Int} (h : integerOr v none e = .ok n) : v = some (.int n) := by
  unfold integerOr at h
  split at h
  · cases h
    rfl
  · next hnone => cases hnone
  · cases h

theorem integerOr_position {position n : Int} :
    integerOr v (some position) e = .ok n ↔ v = some (.int n) ∨ v = none ∧ n = position := by
  unfold integerOr
  split
  · simp [eq_comm]
  · next hposition =>
    obtain rfl := Option.some.inj hposition
    simp [eq_comm]
  · next hint hnone =>
    refine iff_of_false nofun ?_
    rintro (rfl | ⟨rfl, rfl⟩)
    · exact hint n rfl
    · exact hnone n rfl rfl

theorem nullable_of_text {t : Option String} (h : textOrNull v e = .ok t) :
    nullable v = t.map .str := by
  unfold textOrNull at h
  split at h <;> cases h <;> rfl

theorem objectOrNull_of_ok (h : objectOrNull v e = .ok ()) (e' : String) :
    objectOrNull v e' = .ok () := by
  unfold objectOrNull at h ⊢
  split at h <;> first | rfl | cases h

theorem elements_of_ok {α : Type} {is : Json → α → Prop} {l : List α} {raws : List Json}
    (h : arrayOrNull v e = .ok raws) (hl : List.Forall₂ is raws l) : Elements v is l := by
  unfold arrayOrNull at h
  split at h <;> cases h
  · cases hl
    exact .inl ⟨rfl, rfl⟩
  · cases hl
    exact .inl ⟨rfl, rfl⟩
  · exact .inr ⟨_, rfl, hl⟩

theorem addFragment_reads {calls calls' : Dict Int StreamTool} {raw : Json}
    (h : addFragment calls raw = .ok calls') :
    ∃ p, IsFragment raw p ∧ p.Fine := by
  unfold addFragment at h
  split at h
  · next f =>
    simp only [bind_ok, exists_unit, require_ok] at h
    obtain ⟨index, hindex, hrequire, hfunction⟩ := h
    have hfine := nullOr_iff.mp hrequire
    split at hfunction
    · next hnone =>
      exact ⟨⟨index, nullable (Fields.get f "type"), isStr (Fields.get f "id"), none, none⟩,
        ⟨f, rfl, integerOr_none hindex, rfl, rfl, .inl ⟨by rw [hnone]; rfl, rfl, rfl⟩⟩, hfine⟩
    · next hnull =>
      exact ⟨⟨index, nullable (Fields.get f "type"), isStr (Fields.get f "id"), none, none⟩,
        ⟨f, rfl, integerOr_none hindex, rfl, rfl, .inl ⟨by rw [hnull]; rfl, rfl, rfl⟩⟩, hfine⟩
    · next function hget =>
      exact ⟨⟨index, nullable (Fields.get f "type"), isStr (Fields.get f "id"),
        isStr (Fields.get function "name"),
        isStr (Fields.get function "arguments")⟩,
        ⟨f, rfl, integerOr_none hindex, rfl, rfl, .inr ⟨function, hget, rfl, rfl⟩⟩, hfine⟩
    · cases hfunction
  · cases h

theorem addFragments_reads {calls calls' : Dict Int StreamTool} {raws : List Json}
    (h : addFragments calls raws = .ok calls') :
    ∃ fragments, List.Forall₂ IsFragment raws fragments ∧ ∀ p ∈ fragments, p.Fine := by
  induction raws generalizing calls with
  | nil => exact ⟨[], .nil, nofun⟩
  | cons raw raws ih =>
    rw [addFragments, bind_ok] at h
    obtain ⟨next, hfirst, hrest⟩ := h
    obtain ⟨p, hp, hfine⟩ := addFragment_reads hfirst
    obtain ⟨fragments, hfragments, hfines⟩ := ih hrest
    exact ⟨p :: fragments, .cons hp hfragments, List.forall_mem_cons.mpr ⟨hfine, hfines⟩⟩

/-- The index of a choice can stand in it. -/
theorem addChoice_index {f : Fields} {position : Nat} {n : Int}
    (h : Fields.get f "index" = some (.int n) ∨ Fields.get f "index" = none ∧ n = position)
    (s : Streaming) :
    addChoice s position (.obj f) = addChoice s position
      (.obj (Fields.set f "index" (.int n))) := by
  have hindex : ∀ e, integerOr (Fields.get f "index") (some (position : Int)) e = .ok n :=
    fun e => integerOr_position.mpr h
  have hset : ∀ e, integerOr (Fields.get (Fields.set f "index" (.int n)) "index")
      (some (position : Int)) e = .ok n := by
    simp [integerOr]
  have hdelta : deltaOf (Fields.set f "index" (.int n)) = deltaOf f := by simp [deltaOf]
  have hfinish : Fields.get (Fields.set f "index" (.int n)) "finish_reason" =
      Fields.get f "finish_reason" := by simp
  have hlog : Fields.get (Fields.set f "index" (.int n)) "logprobs" =
      Fields.get f "logprobs" := by simp
  simp only [addChoice, hindex, hset, hdelta, hfinish, hlog]

/-- A choice that the loop takes is a delta, and it is taken in. -/
theorem addChoice_reads {position : Nat} {raw : Json} (h : addChoice s position raw = .ok s') :
    ∃ d, IsDeltaAt position raw d ∧ d.Fine ∧
      s' = { s with choices := takeDeltas s.choices [d] } := by
  have hread : ∃ d, IsDeltaAt position raw d ∧ d.Fine := by
    unfold addChoice at h
    split at h
    · next f =>
      simp only [bind_ok, exists_unit, require_ok] at h
      obtain ⟨index, hindex, delta, hdelta, hrole, reasoning, hreasoning,
          content, hcontent, finishReason, hfinish,
        hlog, raws, harray, calls, hcalls, -⟩ := h
      obtain ⟨fragments, hfragments, hfines⟩ := addFragments_reads hcalls
      refine ⟨⟨index, nullable (delta.get "role"), content, reasoning, fragments, finishReason⟩,
        ⟨f, rfl, integerOr_position.mp hindex, _, delta, rfl, by
          simp, ?_, rfl, nullable_of_text hcontent,
          nullable_of_text hreasoning, elements_of_ok harray hfragments, ?_, fun e => ?_⟩,
            nullOr_iff.mp hrole, hfines⟩
      · simpa [deltaOf] using hdelta
      · simpa using nullable_of_text hfinish
      · simpa using objectOrNull_of_ok hlog e
    · cases h
  obtain ⟨d, hd, hfine⟩ := hread
  refine ⟨d, hd, hfine, ?_⟩
  obtain ⟨f, rfl, hindex, hdelta⟩ := hd
  rw [addChoice_index hindex, (addChoice_eq hdelta s position).1 hfine] at h
  exact (Except.ok.inj h).symm

theorem addChoices_reads {raws : List Json} {position : Nat}
    (h : addChoices s position raws = .ok s') :
    ∃ deltas, List.Forall₂ (fun p d => IsDeltaAt p.2 p.1 d) (raws.zipIdx position) deltas ∧
      (∀ d ∈ deltas, d.Fine) ∧
      s' = { s with choices := takeDeltas s.choices deltas } := by
  induction raws generalizing s position with
  | nil =>
    cases h
    exact ⟨[], .nil, nofun, rfl⟩
  | cons raw raws ih =>
    rw [addChoices, bind_ok] at h
    obtain ⟨next, hfirst, hrest⟩ := h
    obtain ⟨d, hd, hfine, rfl⟩ := addChoice_reads hfirst
    obtain ⟨deltas, hdeltas, hfines, rfl⟩ := ih hrest
    exact ⟨d :: deltas, .cons hd hdeltas, List.forall_mem_cons.mpr ⟨hfine, hfines⟩, rfl⟩

theorem addChoices_of_reads {raws : List Json} {position : Nat} {deltas : List Delta}
    (h : List.Forall₂ (fun p d => IsDeltaAt p.2 p.1 d) (raws.zipIdx position) deltas)
    (hfine : ∀ d ∈ deltas, d.Fine) (s : Streaming) :
    addChoices s position raws = .ok { s with choices := takeDeltas s.choices deltas } := by
  induction raws generalizing s position deltas with
  | nil =>
    cases h
    rfl
  | cons raw raws ih =>
    cases h with
    | @cons _ d _ deltas hd hdeltas =>
      obtain ⟨f, rfl, hindex, hdelta⟩ := hd
      obtain ⟨hfirst, hrest⟩ := List.forall_mem_cons.mp hfine
      rw [addChoices, addChoice_index hindex, (addChoice_eq hdelta s position).1 hfirst]
      exact ih hdeltas hrest _

theorem addEvent_reads {event : Fields} (h : addEvent s (.obj event) = .ok s') :
    ∃ deltas, IsChunk event deltas ∧
    (∀ d ∈ deltas, d.Fine) ∧ s'.choices = takeDeltas s.choices deltas := by
  simp only [addEvent, bind_ok, exists_unit] at h
  obtain ⟨husage, h⟩ := h
  split at h
  · next raws hraws =>
    obtain ⟨deltas, hdeltas, hfine, rfl⟩ := addChoices_reads h
    exact ⟨deltas, ⟨raws, hraws, hdeltas, objectOrNull_of_ok husage⟩, hfine, rfl⟩
  · cases h

theorem addEvent_of_reads {event : Fields} {deltas : List Delta} (h : IsChunk event deltas)
    (hfine : ∀ d ∈ deltas, d.Fine) (s : Streaming) :
    ∃ s', addEvent s (.obj event) = .ok s' ∧
      s'.choices = takeDeltas s.choices deltas := by
  obtain ⟨raws, hraws, hdeltas, husage⟩ := h
  refine ⟨{ s with
    top := addTop s.top event, usage := (usageOf (event.get "usage")).or s.usage
    choices := takeDeltas s.choices deltas }, ?_, rfl⟩
  simp only [addEvent, husage, hraws, ok_bind]
  exact addChoices_of_reads hdeltas hfine _

/-- **The loop** takes the chunks exactly when each is made of deltas that no check refuses. -/
theorem addEvents_reads {events : List Fields} {choices : Dict Int StreamChoice} :
    (∃ s', addEvents s (events.map .obj) = .ok s' ∧ s'.choices = choices) ↔
      ∃ said, List.Forall₂ IsChunk events said ∧ (∀ d ∈ said.flatten, d.Fine) ∧
        choices = takeDeltas s.choices said.flatten := by
  induction events generalizing s choices with
  | nil =>
    constructor
    · rintro ⟨s', hs, rfl⟩
      cases hs
      exact ⟨[], .nil, nofun, rfl⟩
    · rintro ⟨said, hsaid, -, rfl⟩
      cases hsaid
      exact ⟨s, rfl, rfl⟩
  | cons event events ih =>
    have htake : ∀ (c : Dict Int StreamChoice) deltas (rest : List Delta),
        takeDeltas (takeDeltas c deltas) rest = takeDeltas c (deltas ++ rest) := by
      intro c deltas rest
      simp [takeDeltas, Dict.accumulate]
    constructor
    · rintro ⟨s', hs, rfl⟩
      rw [List.map_cons, addEvents, bind_ok] at hs
      obtain ⟨next, hfirst, hrest⟩ := hs
      obtain ⟨deltas, hchunk, hfine, hnext⟩ := addEvent_reads hfirst
      obtain ⟨said, hsaid, hfines, hchoices⟩ := ih.mp ⟨s', hrest, rfl⟩
      refine ⟨deltas :: said, .cons hchunk hsaid, fun d hd => ?_, ?_⟩
      · exact (List.mem_append.mp (List.flatten_cons ▸ hd)).elim (hfine d) (hfines d)
      · rw [hchoices, hnext, htake, List.flatten_cons]
    · rintro ⟨said, hsaid, hfine, rfl⟩
      cases hsaid with
      | @cons _ deltas _ said hchunk hsaid =>
        rw [List.flatten_cons] at hfine ⊢
        obtain ⟨next, hfirst, hnext⟩ :=
          addEvent_of_reads hchunk (fun d hd => hfine d (List.mem_append_left _ hd)) s
        obtain ⟨s', hrest, hchoices⟩ :=
          ih.mpr ⟨said, hsaid, fun d hd => hfine d (List.mem_append_right _ hd), rfl⟩
        refine ⟨s', ?_, by rw [hchoices, hnext, htake]⟩
        rw [List.map_cons, addEvents, hfirst]
        exact hrest

/-! ## What is gathered -/

variable {deltas : List Delta}

theorem takeDeltas_nil : (takeDeltas .empty deltas).entries = [] ↔ deltas = [] := by
  constructor
  · intro h
    rcases deltas with _ | ⟨d, deltas⟩
    · rfl
    · have hget : (takeDeltas .empty (d :: deltas)).get d.index ≠ none := by
        rw [takeDeltas, Dict.get_accumulate, if_neg (by simp)]
        exact Option.some_ne_none _
      simp [Dict.get, h] at hget
  · rintro rfl
    rfl

theorem foldl_take_finished {c : StreamChoice} :
    (deltas.foldl StreamChoice.take c).finishReason.isSome = true ↔
    c.finishReason.isSome = true ∨ ∃ d ∈ deltas, d.finishReason.isSome = true := by
  induction deltas generalizing c with
  | nil => simp
  | cons d deltas ih =>
    rw [List.foldl_cons, ih]
    simp only [StreamChoice.take, Option.isSome_or, Bool.or_eq_true, List.mem_cons,
      exists_eq_or_imp]
    tauto

/-- A choice is finished when one of its deltas is. -/
theorem takeDeltas_finished :
    (∀ p ∈ (takeDeltas .empty deltas).entries, p.2.finishReason.isSome = true) ↔
    ∀ d ∈ deltas, ∃ d' ∈ deltas, d'.index = d.index ∧ d'.finishReason.isSome = true := by
  have hget : ∀ i, (takeDeltas .empty deltas).get i = if (deltas.filter fun d => d.index = i) =
      [] then none
      else some ((deltas.filter fun d => d.index = i).foldl StreamChoice.take .new) := by
    intro i
    rw [takeDeltas, Dict.get_accumulate]
    rfl
  have hone : ∀ i, ((deltas.filter fun d => d.index = i).foldl StreamChoice.take
      .new).finishReason.isSome = true ↔
      ∃ d' ∈ deltas, d'.index = i ∧ d'.finishReason.isSome = true := by
    intro i
    rw [foldl_take_finished]
    simp [StreamChoice.new, and_assoc]
  constructor
  · intro h d hd
    have hne : (deltas.filter fun d' => d'.index = d.index) ≠ [] :=
      List.ne_nil_of_mem (List.mem_filter.mpr ⟨hd, decide_eq_true rfl⟩)
    have hd' := hget d.index
    rw [if_neg hne] at hd'
    exact (hone d.index).mp (h _ ((Dict.get_eq_some _).mp hd'))
  · intro h p hp
    have hp' := (Dict.get_eq_some _).mpr hp
    rw [hget] at hp'
    split at hp'
    · cases hp'
    · next hne =>
      obtain ⟨d, hd⟩ := List.exists_mem_of_ne_nil _ hne
      obtain ⟨hd, hindex⟩ := List.mem_filter.mp hd
      rw [← Option.some.inj hp', hone]
      exact of_decide_eq_true hindex ▸ h d hd

/-- **The parser answers exactly the chunks that are an answer.** -/
theorem parseStream_iff {dec : Decoder} {events : List Fields} :
    (∃ prepared, parseStream dec (events.map .obj) = .ok prepared) ↔ Answers dec events := by
  constructor
  · rintro ⟨prepared, h⟩
    simp only [parseStream, finishStream, bind_ok, exists_unit, require_ok] at h
    obtain ⟨s, hs, -, hne, hunfinished, hparse⟩ := h
    obtain ⟨said, hsaid, hfine, hchoices⟩ := addEvents_reads.mp ⟨s, hs, rfl⟩
    have hfinished : ∀ p ∈ s.choices.entries, p.2.finishReason.isSome = true := by
      intro p hp
      have hnil : unfinished s = [] := by simpa using hunfinished
      rw [unfinished, List.map_eq_nil_iff, List.filter_eq_nil_iff] at hnil
      simpa [Option.isSome_iff_ne_none] using hnil p hp
    obtain ⟨hacceptable, -⟩ := parseResponse_primary (isBody_toJson hfinished) hparse
    rw [hchoices] at hfinished hacceptable hne
    refine ⟨said, hsaid, hfine, ?_, takeDeltas_finished.mp hfinished, hacceptable⟩
    exact fun hnil => absurd (takeDeltas_nil.mpr hnil) (by simpa using hne)
  · rintro ⟨said, hsaid, hfine, hcomplete⟩
    obtain ⟨s, hs, hempty⟩ := (addEvents_reads (s := ⟨.empty, [], none⟩)).mpr
      ⟨said, hsaid, hfine, rfl⟩
    replace hempty : s.choices = takeDeltas .empty said.flatten := hempty
    have hne : s.choices.entries ≠ [] := by
      rw [hempty]
      exact fun hnil => hcomplete.choice (takeDeltas_nil.mp hnil)
    have hfinished : ∀ p ∈ s.choices.entries, p.2.finishReason.isSome = true := by
      rw [hempty]
      exact takeDeltas_finished.mpr hcomplete.finished
    have hevents : events.map Json.obj ≠ [] := by
      rintro hnil
      rw [hnil] at hs
      cases hs
      exact hne rfl
    rw [parseStream_eq hs hevents hne hfinished]
    refine parseResponse_of_acceptable (isBody_toJson hfinished) ?_ (hempty ▸ hcomplete.acceptable)
    rw [Ne, List.map_eq_nil_iff, sorted]
    intro hnil
    exact hne (List.length_eq_zero_iff.mp (by rw [← List.length_mergeSort, hnil]; rfl))

end MiniAgent.Provider.Chat
