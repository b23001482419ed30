import Mathlib.Data.Finset.Union
import Mathlib.Data.List.Basic
import Mathlib.Tactic.Common

/-!
# Glob patterns

`_glob_matches` of `tools/filesystem/paths.py`. The matcher reads the segments of a path one after
the other and keeps the set of places in the pattern at which the rest of the path may go on.
`Reaches` says what such a set means: from one of its places the rest of the pattern covers the rest
of the path.
-/

namespace MiniAgent.Files

/-! ## The matcher -/

/-- `close_globstars`: a `**` may be left at once. -/
def closeGlobstars (patternParts : List String) (states : Finset Nat) : Finset Nat :=
  patternParts.zipIdx.foldl (fun closed p =>
    if p.2 ∈ closed ∧ p.1 = "**" then insert (p.2 + 1) closed else closed) states

section Matcher

variable (fnmatchcase : String → String → Bool) (patternParts : List String)

/-- The places after one more segment. -/
def nextStates (part : String) (states : Finset Nat) : Finset Nat :=
  states.biUnion fun index => match patternParts[index]? with
    | none => ∅
    | some pattern =>
      if pattern = "**" then {index} else if fnmatchcase part pattern then {index + 1} else ∅

/-- The loop over the segments of the path. -/
def globLoop (states : Finset Nat) : List String → Bool
  | [] => decide (patternParts.length ∈ closeGlobstars patternParts states)
  | part :: pathParts =>
    let states := closeGlobstars patternParts (nextStates fnmatchcase patternParts part states)
    if states = ∅ then false else globLoop states pathParts

/-- `_glob_matches`. -/
def globMatches (pathParts : List String) : Bool :=
  globLoop fnmatchcase patternParts (closeGlobstars patternParts {0}) pathParts

end Matcher

/-! ## What a pattern means -/

/-- The segments a segment of a pattern stands for: any run for `**`, else one that it matches. -/
def Covers (fnmatchcase : String → String → Bool) (pattern : String) (run : List String) : Prop :=
  if pattern = "**" then True else ∃ part, run = [part] ∧ fnmatchcase part pattern = true

/-- The path splits into runs that the segments of the pattern stand for. -/
def GlobMeaning (fnmatchcase : String → String → Bool) (patternParts pathParts : List String) :
    Prop :=
  ∃ runs : List (List String), runs.flatten = pathParts ∧
    List.Forall₂ (Covers fnmatchcase) patternParts runs

variable {fnmatchcase : String → String → Bool} {patternParts pathParts : List String}

theorem globMeaning_nil : GlobMeaning fnmatchcase [] pathParts ↔ pathParts = [] := by
  constructor
  · rintro ⟨runs, rfl, hruns⟩
    cases hruns
    rfl
  · rintro rfl
    exact ⟨[], rfl, .nil⟩

theorem globMeaning_globstar : GlobMeaning fnmatchcase ("**" :: patternParts) pathParts ↔
    GlobMeaning fnmatchcase patternParts pathParts ∨
      ∃ part rest, pathParts = part :: rest ∧
        GlobMeaning fnmatchcase ("**" :: patternParts) rest := by
  constructor
  · rintro ⟨runs, rfl, hruns⟩
    cases hruns with
    | @cons _ run _ runs hrun hruns =>
      cases run with
      | nil => exact .inl ⟨runs, rfl, hruns⟩
      | cons part run =>
        exact .inr ⟨part, run ++ runs.flatten, rfl, run :: runs, rfl,
          .cons (by simp [Covers]) hruns⟩
  · rintro (⟨runs, rfl, hruns⟩ | ⟨part, rest, rfl, runs, hflat, hruns⟩)
    · exact ⟨[] :: runs, rfl, .cons (by simp [Covers]) hruns⟩
    · cases hruns with
      | @cons _ run _ runs hrun hruns =>
        refine ⟨(part :: run) :: runs, ?_, .cons (by simp [Covers]) hruns⟩
        rw [← hflat]
        rfl

theorem globMeaning_segment {pattern : String} (hpattern : pattern ≠ "**") :
    GlobMeaning fnmatchcase (pattern :: patternParts) pathParts ↔
      ∃ part rest, pathParts = part :: rest ∧ fnmatchcase part pattern = true ∧
        GlobMeaning fnmatchcase patternParts rest := by
  constructor
  · rintro ⟨runs, rfl, hruns⟩
    cases hruns with
    | @cons _ run _ runs hrun hruns =>
      rw [Covers, if_neg hpattern] at hrun
      obtain ⟨part, rfl, hmatch⟩ := hrun
      exact ⟨part, runs.flatten, rfl, hmatch, runs, rfl, hruns⟩
  · rintro ⟨part, rest, rfl, hmatch, runs, rfl, hruns⟩
    refine ⟨[part] :: runs, rfl, .cons ?_ hruns⟩
    rw [Covers, if_neg hpattern]
    exact ⟨part, rfl, hmatch⟩

/-! ## Places in the pattern -/

/-- From one of the places, the rest of the pattern covers the path. -/
def Reaches (fnmatchcase : String → String → Bool) (patternParts : List String)
    (states : Finset Nat) (pathParts : List String) : Prop :=
  ∃ i ∈ states, i ≤ patternParts.length ∧ GlobMeaning fnmatchcase (patternParts.drop i) pathParts

/-- A `**` in the set may be left. -/
def Closed (patternParts : List String) (states : Finset Nat) : Prop :=
  ∀ i ∈ states, patternParts[i]? = some "**" → i + 1 ∈ states

/-- One turn of the loop of `close_globstars`. -/
def closeStep (closed : Finset Nat) (p : String × Nat) : Finset Nat :=
  if p.2 ∈ closed ∧ p.1 = "**" then insert (p.2 + 1) closed else closed

theorem closeGlobstars_eq (states : Finset Nat) :
    closeGlobstars patternParts states = patternParts.zipIdx.foldl closeStep states := rfl

variable {states : Finset Nat} {i : Nat}

theorem subset_closeStep (p : String × Nat) : states ⊆ closeStep states p := by
  unfold closeStep
  split
  · exact Finset.subset_insert _ _
  · exact Finset.Subset.refl _

theorem subset_foldl (l : List (String × Nat)) (states : Finset Nat) :
    states ⊆ l.foldl closeStep states := by
  induction l generalizing states with
  | nil => exact Finset.Subset.refl _
  | cons p l ih => exact (subset_closeStep p).trans (ih _)

/-- The loop adds places behind the one it has come to. -/
theorem mem_foldl_zipIdx {l : List String} {n : Nat} (h : i ∈ (l.zipIdx n).foldl closeStep states) :
    i ∈ states ∨ n < i := by
  induction l generalizing n states with
  | nil => exact .inl h
  | cons pattern l ih =>
    rw [List.zipIdx_cons, List.foldl_cons] at h
    rcases ih h with hmem | hlt
    · unfold closeStep at hmem
      split at hmem
      · rcases Finset.mem_insert.mp hmem with rfl | hmem
        · exact .inr (Nat.lt_succ_self n)
        · exact .inl hmem
      · exact .inl hmem
    · exact .inr (by omega)

theorem closed_foldl {l : List String} {n : Nat} (h : i ∈ (l.zipIdx n).foldl closeStep states)
    (hn : n ≤ i) (hi : l[i - n]? = some "**") : i + 1 ∈ (l.zipIdx n).foldl closeStep states := by
  induction l generalizing n states with
  | nil => cases hi
  | cons pattern l ih =>
    rw [List.zipIdx_cons, List.foldl_cons] at h ⊢
    rcases Nat.eq_or_lt_of_le hn with rfl | hlt
    · -- this is the place itself: nothing before it was added
      have hpattern : pattern = "**" := by simpa using hi
      have hmem : n ∈ closeStep states (pattern, n) := (mem_foldl_zipIdx h).resolve_right (by omega)
      have hold : n ∈ states := by
        unfold closeStep at hmem
        split at hmem
        · exact (Finset.mem_insert.mp hmem).resolve_left (by omega)
        · exact hmem
      refine subset_foldl _ _ ?_
      rw [closeStep, if_pos ⟨hold, hpattern⟩]
      exact Finset.mem_insert_self _ _
    · refine ih h hlt ?_
      rw [show i - n = (i - (n + 1)) + 1 by omega, List.getElem?_cons_succ] at hi
      exact hi

theorem closed_closeGlobstars (states : Finset Nat) :
    Closed patternParts (closeGlobstars patternParts states) := by
  intro i hi hglobstar
  exact closed_foldl hi (Nat.zero_le i) hglobstar

/-- A property that a `**` hands back to its own place holds at an old place when it holds at a new
one. -/
theorem exists_of_closeGlobstars {Q : Nat → Prop}
    (hQ : ∀ i, patternParts[i]? = some "**" → Q (i + 1) → Q i)
    (h : ∃ i ∈ closeGlobstars patternParts states, Q i) : ∃ i ∈ states, Q i := by
  rw [closeGlobstars_eq] at h
  have hindex : ∀ p ∈ patternParts.zipIdx, patternParts[p.2]? = some p.1 := fun p hp => by
    simpa using List.mem_zipIdx_iff_getElem?.mp hp
  revert hindex h
  generalize patternParts.zipIdx = l
  intro h hindex
  induction l generalizing states with
  | nil => exact h
  | cons p l ih =>
    obtain ⟨hp, hl⟩ := List.forall_mem_cons.mp hindex
    obtain ⟨i, hi, hQi⟩ := ih h hl
    unfold closeStep at hi
    split at hi
    · next hcond =>
      rcases Finset.mem_insert.mp hi with rfl | hi
      · exact ⟨p.2, hcond.1, hQ p.2 (hp.trans (by rw [hcond.2])) hQi⟩
      · exact ⟨i, hi, hQi⟩
    · exact ⟨i, hi, hQi⟩

/-! ## The loop -/

theorem drop_of_globstar (h : patternParts[i]? = some "**") :
    patternParts.drop i = "**" :: patternParts.drop (i + 1) := by
  obtain ⟨hlt, heq⟩ := List.getElem?_eq_some_iff.mp h
  rw [List.drop_eq_getElem_cons hlt, heq]

theorem reaches_closeGlobstars :
    Reaches fnmatchcase patternParts (closeGlobstars patternParts states) pathParts ↔
    Reaches fnmatchcase patternParts states pathParts := by
  constructor
  · refine exists_of_closeGlobstars fun i hglobstar h => ?_
    refine ⟨(List.getElem?_eq_some_iff.mp hglobstar).1.le, ?_⟩
    rw [drop_of_globstar hglobstar]
    exact globMeaning_globstar.mpr (.inl h.2)
  · rintro ⟨i, hi, h⟩
    exact ⟨i, subset_foldl _ _ hi, h⟩

/-- At the end of the path only the end of the pattern is left, or globstars. -/
theorem reaches_end (hclosed : Closed patternParts states) :
    Reaches fnmatchcase patternParts states [] ↔ patternParts.length ∈ states := by
  constructor
  · rintro ⟨i, hi, hle, hmeaning⟩
    obtain ⟨n, hn⟩ := Nat.exists_eq_add_of_le hle
    induction n generalizing i with
    | zero => simpa [hn] using hi
    | succ n ih =>
      have hlt : i < patternParts.length := by omega
      by_cases hglobstar : patternParts[i]? = some "**"
      · rw [drop_of_globstar hglobstar] at hmeaning
        rcases globMeaning_globstar.mp hmeaning with hrest | ⟨part, rest, hnil, -⟩
        · exact ih (i + 1) (hclosed i hi hglobstar) (by omega) hrest (by omega)
        · cases hnil
      · have hne : patternParts[i] ≠ "**" := fun heq =>
          hglobstar (List.getElem?_eq_some_iff.mpr ⟨hlt, heq⟩)
        rw [List.drop_eq_getElem_cons hlt] at hmeaning
        obtain ⟨part, rest, hnil, -⟩ := (globMeaning_segment hne).mp hmeaning
        cases hnil
  · intro h
    refine ⟨patternParts.length, h, le_refl _, ?_⟩
    rw [List.drop_length]
    exact globMeaning_nil.mpr rfl

theorem mem_nextStates {part : String} : i ∈ nextStates fnmatchcase patternParts part states ↔
    (i ∈ states ∧ patternParts[i]? = some "**") ∨
      ∃ j ∈ states, ∃ pattern, patternParts[j]? = some pattern ∧ pattern ≠ "**" ∧
        fnmatchcase part pattern = true ∧ i = j + 1 := by
  rw [nextStates, Finset.mem_biUnion]
  constructor
  · rintro ⟨j, hj, hi⟩
    rcases hpattern : patternParts[j]? with _ | pattern
    · simp [hpattern] at hi
    · rw [hpattern] at hi
      dsimp only at hi
      split at hi
      · next hglobstar =>
        obtain rfl := Finset.mem_singleton.mp hi
        exact .inl ⟨hj, by rw [hpattern, hglobstar]⟩
      · next hne =>
        split at hi
        · next hmatch =>
            exact .inr ⟨j, hj, pattern, hpattern, hne, hmatch, Finset.mem_singleton.mp hi⟩
        · cases hi
  · rintro (⟨hi, hglobstar⟩ | ⟨j, hj, pattern, hpattern, hne, hmatch, rfl⟩)
    · exact ⟨i, hi, by rw [hglobstar]; exact Finset.mem_singleton_self i⟩
    · refine ⟨j, hj, ?_⟩
      rw [hpattern]
      dsimp only
      rw [if_neg hne, if_pos hmatch]
      exact Finset.mem_singleton_self _

/-- **One more segment.** -/
theorem reaches_next {part : String} (hclosed : Closed patternParts states) :
    Reaches fnmatchcase patternParts states (part :: pathParts) ↔
      Reaches fnmatchcase patternParts (nextStates fnmatchcase patternParts part states)
        pathParts := by
  constructor
  · rintro ⟨i, hi, hle, hmeaning⟩
    -- the globstars that take nothing are left one after the other
    obtain ⟨n, hn⟩ := Nat.exists_eq_add_of_le hle
    induction n generalizing i with
    | zero =>
      rw [List.drop_eq_nil_of_le (by omega)] at hmeaning
      cases globMeaning_nil.mp hmeaning
    | succ n ih =>
      have hlt : i < patternParts.length := by omega
      by_cases hglobstar : patternParts[i]? = some "**"
      · rw [drop_of_globstar hglobstar] at hmeaning
        rcases globMeaning_globstar.mp hmeaning with hrest | ⟨part', rest, heq, hrest⟩
        · exact ih (i + 1) (hclosed i hi hglobstar) (by omega) hrest (by omega)
        · cases heq
          refine ⟨i, mem_nextStates.mpr (.inl ⟨hi, hglobstar⟩), hle, ?_⟩
          rw [drop_of_globstar hglobstar]
          exact hrest
      · have hne : patternParts[i] ≠ "**" := fun heq =>
          hglobstar (List.getElem?_eq_some_iff.mpr ⟨hlt, heq⟩)
        rw [List.drop_eq_getElem_cons hlt] at hmeaning
        obtain ⟨part', rest, heq, hmatch, hrest⟩ := (globMeaning_segment hne).mp hmeaning
        cases heq
        refine ⟨i + 1, mem_nextStates.mpr (.inr ⟨i, hi, patternParts[i], ?_, hne, hmatch, rfl⟩),
          hlt, hrest⟩
        exact List.getElem?_eq_getElem hlt
  · rintro ⟨i, hi, hle, hmeaning⟩
    rcases mem_nextStates.mp hi with ⟨hi, hglobstar⟩ | ⟨j, hj, pattern, hpattern, hne, hmatch, rfl⟩
    · refine ⟨i, hi, hle, ?_⟩
      rw [drop_of_globstar hglobstar] at hmeaning ⊢
      exact globMeaning_globstar.mpr (.inr ⟨part, pathParts, rfl, hmeaning⟩)
    · obtain ⟨hlt, heq⟩ := List.getElem?_eq_some_iff.mp hpattern
      refine ⟨j, hj, hlt.le, ?_⟩
      rw [List.drop_eq_getElem_cons hlt, heq]
      exact (globMeaning_segment hne).mpr ⟨part, pathParts, rfl, hmatch, hmeaning⟩

theorem globLoop_iff (hclosed : Closed patternParts states) :
    globLoop fnmatchcase patternParts states pathParts = true ↔
    Reaches fnmatchcase patternParts states pathParts := by
  induction pathParts generalizing states with
  | nil =>
    rw [globLoop, decide_eq_true_iff, ← reaches_end (closed_closeGlobstars states),
      reaches_closeGlobstars]
  | cons part pathParts ih =>
    rw [globLoop, reaches_next hclosed, ← reaches_closeGlobstars]
    split
    · next hempty =>
      refine iff_of_false Bool.false_ne_true ?_
      rintro ⟨i, hi, -⟩
      rw [hempty] at hi
      cases hi
    · exact ih (closed_closeGlobstars _)

/-- The matcher says what the pattern means. -/
theorem glob_matches_meaning (fnmatchcase : String → String → Bool)
    (pathParts patternParts : List String) :
    globMatches fnmatchcase patternParts pathParts = true ↔
    GlobMeaning fnmatchcase patternParts pathParts := by
  rw [globMatches, globLoop_iff (closed_closeGlobstars _), reaches_closeGlobstars]
  constructor
  · rintro ⟨i, hi, -, hmeaning⟩
    obtain rfl := Finset.mem_singleton.mp hi
    exact hmeaning
  · intro h
    exact ⟨0, Finset.mem_singleton_self 0, Nat.zero_le _, h⟩

end MiniAgent.Files
