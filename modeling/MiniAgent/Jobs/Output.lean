import Mathlib.Algebra.GroupWithZero.Nat
import Mathlib.Data.List.Forall2
import MiniAgent.Lib.Decimal
import MiniAgent.Lib.Lines

/-!
# The output of a command

`format_command_output` of `jobs/output.py` and `_truncate_stdout` of `tools/command.py`. What is
too long is cut, and a marker at the end says how much is left out. The marker takes room itself, so
that the loop writes it anew until it says what it leaves room for (`marker_settles`). A text is a
list of characters; bytes are taken as the text they decode to.
-/

namespace MiniAgent.Jobs

open Lib

/-! ## The functions -/

def markerHead : Text := "\n… output truncated (".toList

def markerTail : Text := " characters omitted)".toList

/-- The marker. -/
def truncationMarker (omitted : Nat) : Text := markerHead ++ omitted.repr.toList ++ markerTail

/-- The loop of `_allocate_payload`: each stream, its length beside its share, takes of what
remains. -/
def allocateRest (remaining : Nat) : List (Nat × Nat) → List Nat
  | [] => []
  | (length, share) :: rest =>
    let extra := min (length - share) remaining
    if remaining - extra = 0 then (share + extra) :: rest.map Prod.snd
    else (share + extra) :: allocateRest (remaining - extra) rest

/-- `_allocate_payload`. -/
def allocatePayload (lengths : List Nat) (budget : Nat) : List Nat :=
  let allocations := lengths.map fun length => min length (budget / lengths.length)
  allocateRest (budget - allocations.sum) (lengths.zip allocations)

/-- The label and the text of each stream that has output. -/
def outputStreams (stdout stderr : Option Text) : List (Text × Text) :=
  (match stdout with
    | some (c :: text) => [("stdout".toList, c :: text)]
    | _ => []) ++
  match stderr with
    | some (c :: text) => [("stderr".toList, c :: text)]
    | _ => []

def outputSection (label text : Text) : Text := label ++ ":\n".toList ++ text

def joinSections (sections : List Text) : Text := ['\n'].intercalate sections

/-- `"\n".join(...)` of the streams with a text each. -/
def renderSections (streams : List (Text × Text)) (texts : List Text) : Text :=
  joinSections (List.zipWith (fun stream text => outputSection stream.1 text) streams texts)

/-- What the labels and the line breaks take. -/
def headerChars (streams : List (Text × Text)) : Nat :=
  (streams.map fun stream => stream.1.length + 2).sum + (streams.length - 1)

def payloadLengths (streams : List (Text × Text)) : List Nat :=
  streams.map fun stream => stream.2.length

/-- The loop that writes the marker, with the allocations of the last turn. -/
def fitMarker (streams : List (Text × Text)) (maxChars : Nat) :
    Nat → Text → List Nat → List Nat × Text
  | 0, marker, allocations => (allocations, marker)
  | n + 1, marker, _ =>
    let fixedChars := headerChars streams + marker.length
    let allocations := allocatePayload (payloadLengths streams) (maxChars - fixedChars)
    let omitted := (List.zipWith (fun length allocation => length - allocation)
      (payloadLengths streams) allocations).sum
    let updatedMarker := truncationMarker omitted
    if updatedMarker = marker then (allocations, marker)
      else fitMarker streams maxChars n updatedMarker allocations

/-- `format_command_output`. -/
def formatCommandOutput (stdout stderr : Option Text) (maxChars : Nat) : Text :=
  let streams := outputStreams stdout stderr
  if streams.isEmpty then []
  else
    let complete := renderSections streams (streams.map Prod.snd)
    if complete.length ≤ maxChars then complete
    else
      let (allocations, marker) := fitMarker streams maxChars 8 [] (streams.map fun _ => 0)
      renderSections streams (List.zipWith (fun stream allocation => stream.2.take allocation)
        streams allocations) ++ marker

/-- The loop of `_truncate_stdout`. -/
def fitStdoutMarker (length maxChars : Nat) : Nat → Text → Nat → Nat × Text
  | 0, marker, payloadChars => (payloadChars, marker)
  | n + 1, marker, _ =>
    let payloadChars := maxChars - marker.length
    let omitted := length - payloadChars
    let updatedMarker := truncationMarker omitted
    if updatedMarker = marker then (payloadChars, marker)
      else fitStdoutMarker length maxChars n updatedMarker payloadChars

/-- `_truncate_stdout`. -/
def truncateStdout (stdout : Text) (maxChars : Nat) : Text :=
  if stdout.length ≤ maxChars then stdout
  else
    let (payloadChars, marker) := fitStdoutMarker stdout.length maxChars 8 [] maxChars
    stdout.take payloadChars ++ marker

/-! ## Lengths -/

variable {streams : List (Text × Text)} {maxChars : Nat}

/-- What a marker takes beside its number. -/
def markerChars : Nat := markerHead.length + markerTail.length

theorem length_truncationMarker (omitted : Nat) :
    (truncationMarker omitted).length = markerChars + digits omitted := by
  rw [truncationMarker, List.length_append, List.length_append, String.length_toList,
    Nat.add_right_comm, markerChars, digits]

theorem length_joinSections (sections : List Text) :
    (joinSections sections).length = (sections.map List.length).sum + (sections.length - 1) := by
  unfold joinSections
  induction sections with
  | nil => rfl
  | cons first rest ih =>
    cases rest with
    | nil => simp [List.intercalate]
    | cons second rest =>
      rw [List.intercalate_cons_cons, List.length_append, List.length_append, ih]
      simp only [List.map_cons, List.sum_cons, List.length_cons, List.length_nil]
      omega

theorem sum_map_le {α : Type} {f g : α → Nat} {l : List α} (h : ∀ a ∈ l, f a ≤ g a) :
    (l.map f).sum ≤ (l.map g).sum := by
  induction l with
  | nil => exact Nat.le_refl _
  | cons a l ih =>
    obtain ⟨ha, hl⟩ := List.forall_mem_cons.mp h
    simp only [List.map_cons, List.sum_cons]
    exact Nat.add_le_add ha (ih hl)

theorem length_renderSections {texts : List Text} (h : texts.length = streams.length) :
    (renderSections streams texts).length = headerChars streams + (texts.map List.length).sum := by
  have hsections : ((List.zipWith (fun stream text => outputSection stream.1 text)
      streams texts).map List.length).sum =
      (streams.map fun stream => stream.1.length + 2).sum + (texts.map List.length).sum := by
    induction streams generalizing texts with
    | nil => simp [List.length_eq_zero_iff.mp h]
    | cons stream streams ih =>
      cases texts with
      | nil => cases h
      | cons text texts =>
        have hrest := @ih texts (by simpa using h)
        have htwo : ":\n".toList.length = 2 := by decide
        have hsection : (outputSection stream.1 text).length = stream.1.length +
            2 + text.length := by
          rw [outputSection, List.length_append, List.length_append, htwo]
        simp only [List.zipWith_cons_cons, List.map_cons, List.sum_cons, hrest, hsection]
        omega
  rw [renderSections, length_joinSections, hsections, List.length_zipWith,
    h, Nat.min_self, headerChars]
  omega

/-! ## The shares -/

/-- What the loop hands out, and that no share is larger than its stream. -/
theorem allocateRest_spec (remaining : Nat) {shares : List (Nat × Nat)}
    (h : ∀ p ∈ shares, p.2 ≤ p.1) :
    List.Forall₂ (fun (p : Nat × Nat) allocation => allocation ≤ p.1) shares
      (allocateRest remaining shares) ∧
    (allocateRest remaining shares).sum =
      (shares.map Prod.snd).sum + min ((shares.map Prod.fst).sum - (shares.map Prod.snd).sum)
        remaining := by
  induction shares generalizing remaining with
  | nil => simp [allocateRest]
  | cons p shares ih =>
    obtain ⟨length, share⟩ := p
    obtain ⟨hp, hrest⟩ := List.forall_mem_cons.mp h
    have hsum : (shares.map Prod.snd).sum ≤ (shares.map Prod.fst).sum := sum_map_le hrest
    simp only at hp
    rw [allocateRest]
    split
    · next hnone =>
      have hall : List.Forall₂ (fun (p : Nat × Nat) allocation => allocation ≤ p.1)
          shares (shares.map Prod.snd) := by
        rw [List.forall₂_map_right_iff]
        exact List.forall₂_same.mpr hrest
      refine ⟨.cons (by omega) hall, ?_⟩
      simp only [List.map_cons, List.sum_cons]
      omega
    · obtain ⟨hall, hshares⟩ := ih (remaining - min (length - share) remaining) hrest
      refine ⟨.cons (by omega) hall, ?_⟩
      simp only [List.map_cons, List.sum_cons, hshares]
      omega

/-- **The whole budget is handed out, as far as there is something to show.** -/
theorem allocatePayload_spec (lengths : List Nat) (budget : Nat) :
    List.Forall₂ (fun length allocation => allocation ≤ length) lengths
      (allocatePayload lengths budget) ∧
    (allocatePayload lengths budget).sum = min lengths.sum budget := by
  -- the equal shares together are within the budget
  have hshares : (lengths.map fun length => min length (budget / lengths.length)).sum ≤ budget := by
    have hle : (lengths.map fun length => min length (budget / lengths.length)).sum ≤
        (lengths.map fun _ => budget / lengths.length).sum := sum_map_le fun _ _ =>
          Nat.min_le_right _ _
    rw [List.map_const', List.sum_replicate_nat] at hle
    exact hle.trans (Nat.mul_div_le _ _)
  rw [allocatePayload]
  generalize hshare : budget / lengths.length = share at hshares ⊢
  have hfst : (lengths.zip (lengths.map fun length => min length share)).map Prod.fst = lengths :=
    List.map_fst_zip (by simp)
  have hsnd : (lengths.zip (lengths.map fun length => min length share)).map Prod.snd =
      lengths.map fun length => min length share :=
    List.map_snd_zip (by simp)
  have hsmall : ∀ p ∈ lengths.zip (lengths.map fun length => min length share), p.2 ≤ p.1 := by
    rw [List.zip_map_right]
    intro p hp
    obtain ⟨q, hq, rfl⟩ := List.mem_map.mp hp
    have hsame : q.1 = q.2 := by
      obtain ⟨i, hi, rfl⟩ := List.getElem_of_mem hq
      simp
    calc min q.2 share ≤ q.2 := Nat.min_le_left _ _
      _ = q.1 := hsame.symm
  obtain ⟨hall, hsum⟩ :=
    allocateRest_spec (budget - (lengths.map fun length => min length share).sum) hsmall
  have hless : (lengths.map fun length => min length share).sum ≤ (lengths.map id).sum :=
    sum_map_le fun _ _ => Nat.min_le_left _ _
  rw [List.map_id] at hless
  rw [hfst, hsnd] at hsum
  refine ⟨?_, ?_⟩
  · rw [← List.forall₂_map_left_iff (f := Prod.fst)
      (R := fun length allocation => allocation ≤ length), hfst] at hall
    exact hall
  · rw [hsum]
    omega

/-! ## The loop -/

section Loop

variable {α : Type} (payload : Text → α) (updated : α → Text)

/-- Both loops: what is shown beside a marker, and the marker that says so, until it is the marker
it was. -/
def untilSame : Nat → Text → α → α × Text
  | 0, marker, value => (value, marker)
  | n + 1, marker, _ =>
    if updated (payload marker) = marker then (payload marker, marker)
    else untilSame n (updated (payload marker)) (payload marker)

/-- Where the marker stays after `n` turns, the loop ends in a marker that says what is shown beside
it. -/
theorem untilSame_settled (P : Text → Prop)
    (hstep : ∀ marker, P marker → P (updated (payload marker))) (n turns : Nat) (hn : n < turns)
    (marker : Text) (hmarker : P marker)
    (hstays : updated (payload ((updated ∘ payload)^[n] marker)) = (updated ∘ payload)^[n] marker)
    (value : α) :
    ∃ last, P last ∧ updated (payload last) = last ∧ untilSame payload updated turns marker value =
      (payload last, last) := by
  induction turns generalizing n marker value with
  | zero => omega
  | succ turns ih =>
    rw [untilSame]
    split
    · next hsame => exact ⟨marker, hmarker, hsame, rfl⟩
    · next hsame =>
      cases n with
      | zero => exact absurd hstays hsame
      | succ n =>
        rw [Function.iterate_succ_apply] at hstays
        exact ih n (by omega) _ (hstep marker hmarker) hstays (payload marker)

/-- **The marker settles**: eight turns are enough, where `room` is left for the payload and the
marker, the marker that names all of it has room, and each marker names what it leaves no room
for. -/
theorem marker_settles (total room : Nat) (hcut : room < total)
    (hroom : (truncationMarker total).length ≤ room)
    (hupdated : ∀ marker : Text, marker.length ≤ room →
      updated (payload marker) = truncationMarker (total - (room - marker.length))) (value : α) :
    ∃ last : Text, last.length ≤ room ∧ last = truncationMarker (total - (room - last.length)) ∧
      untilSame payload updated 8 [] value = (payload last, last) := by
  have hfirst : updated (payload []) = truncationMarker (total - room) :=
    hupdated [] (Nat.zero_le _)
  rw [length_truncationMarker] at hroom
  have hfits : ∀ o ≤ total, (truncationMarker o).length ≤ room := by
    intro o ho
    have hdigits : digits o ≤ digits total := digits_mono ho
    rw [length_truncationMarker]
    omega
  have hnext : ∀ o ≤ total, updated (payload (truncationMarker o)) =
      truncationMarker (named (total - room + markerChars) o) := by
    intro o ho
    have hlen : (truncationMarker o).length ≤ room := hfits o ho
    rw [hupdated _ hlen, named]
    rw [length_truncationMarker] at hlen ⊢
    congr 1
    omega
  have hbound : ∀ o ≤ total, named (total - room + markerChars) o ≤ total := by
    intro o ho
    have hdigits : digits o ≤ digits total := digits_mono ho
    unfold named
    omega
  -- the marker is empty, or names some of the output
  obtain ⟨last, hlast, hsame, hloop⟩ := untilSame_settled payload updated
    (fun marker => marker = [] ∨ ∃ o ≤ total, marker = truncationMarker o)
    (by
      rintro marker (rfl | ⟨o, ho, rfl⟩)
      · exact .inr ⟨_, Nat.sub_le _ _, hfirst⟩
      · exact .inr ⟨_, hbound o ho, hnext o ho⟩)
    4 8 (by decide) [] (.inl rfl)
    (by
      have h1 : total - room ≤ total := Nat.sub_le _ _
      have h2 := hbound _ h1
      have h3 := hbound _ h2
      have h4 := hbound _ h3
      have hstays := @settles (total - room + markerChars) (total - room) (by unfold named; omega)
      simp only [Function.iterate_succ, Function.iterate_zero, Function.comp, id_eq]
      rw [hfirst, hnext _ h1, hnext _ h2, hnext _ h3, hnext _ h4, hstays])
    value
  have hlen : last.length ≤ room := by
    rcases hlast with rfl | ⟨o, ho, rfl⟩
    · exact Nat.zero_le _
    · exact hfits o ho
  exact ⟨last, hlen, (hupdated last hlen).symm.trans hsame |>.symm, hloop⟩

end Loop

/-! ## The result -/

/-- What `result` shows of `texts` within `maxChars`: all of it where that fits, else of each text a
prefix, with a marker that names exactly what is left out, and no character to spare. -/
structure ShowsExactly (render : List Text → Text) (texts : List Text) (maxChars : Nat)
    (result : Text) : Prop where
  bounded : result.length ≤ maxChars
  complete : (render texts).length ≤ maxChars → result = render texts
  cut : maxChars < (render texts).length → ∃ shown : List Text,
    List.Forall₂ (fun part text => part <+: text) shown texts ∧
    result = render shown ++
      truncationMarker ((texts.map List.length).sum - (shown.map List.length).sum) ∧
    result.length = maxChars

theorem ShowsExactly.of_complete (render : List Text → Text) (texts : List Text)
    (h : (render texts).length ≤ maxChars) :
    ShowsExactly render texts maxChars (render texts) where
  bounded := h
  complete := fun _ => rfl
  cut := fun hcut => absurd hcut (by omega)

theorem ShowsExactly.of_cut {render : List Text → Text} {texts shown : List Text}
    {header : Nat} {marker : Text}
    (hlength : ∀ parts : List Text, parts.length = texts.length →
      (render parts).length = header + (parts.map List.length).sum)
    (hcut : maxChars < (render texts).length)
    (hshown : List.Forall₂ (fun part text => part <+: text) shown texts)
    (hmarker : marker =
      truncationMarker ((texts.map List.length).sum - (shown.map List.length).sum))
    (hbudget : header + (shown.map List.length).sum + marker.length = maxChars) :
    ShowsExactly render texts maxChars (render shown ++ marker) := by
  have hexact : (render shown ++ marker).length = maxChars := by
    rw [List.length_append, hlength shown hshown.length_eq, hbudget]
  exact {
    bounded := hexact.le
    complete := fun hfits => absurd hfits (by omega)
    cut := fun _ => ⟨shown, hshown, by rw [← hmarker], hexact⟩ }

theorem fitMarker_eq (turns : Nat) (marker : Text) (value : List Nat) :
    fitMarker streams maxChars turns marker value =
      untilSame (fun marker : Text => allocatePayload (payloadLengths streams)
        (maxChars - (headerChars streams + marker.length)))
        (fun allocations => truncationMarker
          (List.zipWith (fun length allocation => length - allocation)
            (payloadLengths streams) allocations).sum)
        turns marker value := by
  induction turns generalizing marker value with
  | zero => rfl
  | succ turns ih => simp only [fitMarker, untilSame, ih]

theorem fitStdoutMarker_eq (length turns : Nat) (marker : Text) (value : Nat) :
    fitStdoutMarker length maxChars turns marker value =
      untilSame (fun marker : Text => maxChars - marker.length)
        (fun payloadChars => truncationMarker (length - payloadChars))
        turns marker value := by
  induction turns generalizing marker value with
  | zero => rfl
  | succ turns ih => simp only [fitStdoutMarker, untilSame, ih]

theorem sum_omitted {lengths allocations : List Nat}
    (h : List.Forall₂ (fun length allocation => allocation ≤ length) lengths allocations) :
    (List.zipWith (fun length allocation => length - allocation) lengths allocations).sum =
      lengths.sum - allocations.sum ∧
    allocations.sum ≤ lengths.sum := by
  induction h with
  | nil => exact ⟨rfl, Nat.le_refl _⟩
  | cons hle _ ih =>
    simp only [List.zipWith_cons_cons, List.sum_cons]
    omega

/-- Each stream cut to its allocation. -/
theorem shown_spec {allocations : List Nat}
    (h : List.Forall₂ (fun length allocation => allocation ≤ length)
      (payloadLengths streams) allocations) :
    List.Forall₂ (fun part text => part <+: text)
      (List.zipWith (fun stream allocation => stream.2.take allocation) streams allocations)
        (streams.map Prod.snd) ∧
    (List.zipWith (fun stream allocation => stream.2.take allocation) streams allocations).map
      List.length = allocations := by
  induction streams generalizing allocations with
  | nil =>
    cases h
    exact ⟨.nil, rfl⟩
  | cons stream streams ih =>
    cases h with
    | cons hle hrest =>
      obtain ⟨hparts, hlengths⟩ := ih hrest
      refine ⟨.cons (List.take_prefix _ _) hparts, ?_⟩
      simp only [List.zipWith_cons_cons, List.map_cons, List.length_take,
        hlengths, Nat.min_eq_left hle]

theorem formatCommandOutput_exact {stdout stderr : Option Text}
    (hstreams : outputStreams stdout stderr = streams)
    (hroom : headerChars streams + (truncationMarker (payloadLengths streams).sum).length ≤
      maxChars) :
    ShowsExactly (renderSections streams) (streams.map Prod.snd) maxChars
      (formatCommandOutput stdout stderr maxChars) := by
  have hlength : ∀ parts : List Text, parts.length = (streams.map Prod.snd).length →
      (renderSections streams parts).length = headerChars streams + (parts.map List.length).sum :=
    fun parts hparts => length_renderSections (by rw [hparts, List.length_map])
  have hlengths : (streams.map Prod.snd).map List.length = payloadLengths streams := by
    rw [List.map_map]; rfl
  unfold formatCommandOutput
  rw [hstreams]
  dsimp only
  split
  · next hempty =>
    obtain rfl : streams = [] := List.isEmpty_iff.mp hempty
    exact ShowsExactly.of_complete (renderSections []) [] (Nat.zero_le _)
  · split
    · next hfits => exact ShowsExactly.of_complete _ _ hfits
    · next hlong =>
      have htotal := hlength (streams.map Prod.snd) rfl
      rw [hlengths] at htotal
      have hspec := fun budget => allocatePayload_spec (payloadLengths streams) budget
      obtain ⟨last, hlast, hnames, hloop⟩ := marker_settles
        (fun marker : Text => allocatePayload (payloadLengths streams)
          (maxChars - (headerChars streams + marker.length)))
        (fun allocations => truncationMarker
          (List.zipWith (fun length allocation => length - allocation)
            (payloadLengths streams) allocations).sum)
        (payloadLengths streams).sum (maxChars - headerChars streams) (by omega) (by omega)
        (by
          intro marker hmarker
          rw [(sum_omitted (hspec _).1).1, (hspec _).2]
          congr 1
          omega)
        (streams.map fun _ => 0)
      rw [fitMarker_eq, hloop]
      obtain ⟨hshown, hsizes⟩ :=
        shown_spec (hspec (maxChars - (headerChars streams + last.length))).1
      have hsum := (hspec (maxChars - (headerChars streams + last.length))).2
      dsimp only
      refine ShowsExactly.of_cut hlength (by omega) hshown ?_ ?_
      · rw [hlengths, hsizes, hsum]
        refine hnames.trans ?_
        congr 1
        omega
      · rw [hsizes, hsum]
        omega

theorem truncateStdout_exact {stdout : Text}
    (hroom : (truncationMarker stdout.length).length ≤ maxChars) :
    ShowsExactly List.flatten [stdout] maxChars (truncateStdout stdout maxChars) := by
  have hlength : ∀ parts : List Text, parts.length = [stdout].length →
      parts.flatten.length = 0 + (parts.map List.length).sum := by
    intro parts _
    rw [List.length_flatten, Nat.zero_add]
  unfold truncateStdout
  split
  · next hfits =>
    have hone : [stdout].flatten = stdout := by simp
    have hall : ShowsExactly List.flatten [stdout] maxChars [stdout].flatten :=
      ShowsExactly.of_complete _ _ (by rwa [hone])
    rwa [hone] at hall
  · next hlong =>
    obtain ⟨last, hlast, hnames, hloop⟩ :=
      marker_settles (fun marker : Text => maxChars - marker.length)
      (fun payloadChars => truncationMarker (stdout.length - payloadChars))
        stdout.length maxChars (by omega) hroom (fun _ _ => rfl) maxChars
    rw [fitStdoutMarker_eq, hloop]
    have hone : [stdout.take (maxChars - last.length)].flatten =
        stdout.take (maxChars - last.length) := by simp
    have hsize : (stdout.take (maxChars - last.length)).length = maxChars - last.length := by
      rw [List.length_take]
      omega
    dsimp only
    rw [← hone]
    refine ShowsExactly.of_cut hlength (by simpa using hlong)
      (.cons (List.take_prefix _ _) .nil) ?_ ?_
    · simp only [List.map_cons, List.map_nil, List.sum_cons, List.sum_nil, hsize, Nat.add_zero]
      exact hnames
    · simp only [List.map_cons, List.map_nil, List.sum_cons, List.sum_nil, hsize]
      omega

/-- **A command's output is cut exactly**: what is shown takes no more than it may, all of it is
shown where that fits, and otherwise the marker names what the shown prefixes leave out and the
result takes all it may. The marker that names all of the output is the longest one. -/
theorem command_output_exact (stdout stderr : Option Text) (text : Text) (maxChars : Nat) :
    (headerChars (outputStreams stdout stderr) +
        (truncationMarker (payloadLengths (outputStreams stdout stderr)).sum).length ≤ maxChars →
      ShowsExactly (renderSections (outputStreams stdout stderr))
        ((outputStreams stdout stderr).map Prod.snd) maxChars
        (formatCommandOutput stdout stderr maxChars)) ∧
    ((truncationMarker text.length).length ≤ maxChars →
      ShowsExactly List.flatten [text] maxChars (truncateStdout text maxChars)) :=
  ⟨formatCommandOutput_exact rfl, truncateStdout_exact⟩

set_option maxRecDepth 4000 in
theorem command_output_exact_two_streams :
    ShowsExactly (renderSections [("stdout".toList, List.replicate 90 'a'),
      ("stderr".toList, List.replicate 40 'b')])
      [List.replicate 90 'a', List.replicate 40 'b'] 90
      (formatCommandOutput (some (List.replicate 90 'a')) (some (List.replicate 40 'b')) 90) :=
  (command_output_exact (some (List.replicate 90 'a')) (some (List.replicate 40 'b')) [] 90).1
    (by decide)

end MiniAgent.Jobs
