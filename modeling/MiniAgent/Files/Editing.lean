import MiniAgent.Lib.Call
import MiniAgent.Lib.Json
import MiniAgent.Lib.Lines

/-!
# Edits of a file

`edit_file` of `filesystem/writing.py`, with the checks of its arguments and the replacement of the
file. A file is what `Path` finds behind the name: whether it is a regular file, and its text where
that is valid UTF-8. What the name resolves to, and an `OSError` on the way, come from outside.

The call writes the lines before the range, the replacement lines and the lines after it, each with
an ending. `edit_file_exact` says when the text it has written splits into these lines again.
-/

namespace MiniAgent.Files

open Lib

structure ToolError where
  text : String

structure File where
  isFile : Bool
  text : Option Text

abbrev Tool (α : Type) := Call ToolError File α

/-- What a call finds outside: the resolved path as it is shown, and a failure of the system in the
replacement. -/
structure Surroundings where
  path : Except ToolError String
  fault : Option String

/-! ## Arguments -/

def fail {α : Type} (text : String) : Except ToolError α := .error ⟨text⟩

/-- `_validate_integer`. -/
def validateInteger (name : String) (value : Json) (minimum : Int) (maximum : Option Int) :
    Except ToolError Int :=
  match value with
  | .int n =>
    if n < minimum ∨ ∃ m ∈ maximum, m < n then match maximum with
      | none => fail s!"{name} must be at least {minimum}."
      | some m => fail s!"{name} must be between {minimum} and {m}."
    else .ok n
  | _ => fail s!"{name} must be an integer."

/-- An array of strings without CR and LF. -/
def lineList (name : String) (value : Json) : Except ToolError (List Text) :=
  match value with
  | .arr l =>
    if l.all fun v => v.str?.isSome then
      let lines := (l.filterMap Json.str?).map String.toList
      if lines.any fun line => '\n' ∈ line ∨ '\r' ∈ line then
        fail s!"{name} entries must not contain line-break characters."
      else .ok lines
    else fail s!"{name} must be an array of strings."
  | _ => fail s!"{name} must be an array of strings."

/-! ## Newlines -/

def countCrlf : Text → Nat
  | [] => 0
  | '\r' :: '\n' :: rest => countCrlf rest + 1
  | _ :: rest => countCrlf rest

/-- `_dominant_newline`: the first of the most frequent. -/
def dominantNewline (s : Text) : Text :=
  let crlf := countCrlf s
  let lf := s.count '\n' - crlf
  let cr := s.count '\r' - crlf
  if max crlf (max lf cr) = 0 then ['\n']
  else if lf ≤ crlf ∧ cr ≤ crlf then ['\r', '\n']
  else if cr ≤ lf then ['\n']
  else ['\r']

/-- The replacement lines with their endings. -/
def endLines (newline selectedEnding : Text) : List Text → List Line
  | [] => []
  | [line] => [(line, if selectedEnding = [] ∧ line = [] then newline else selectedEnding)]
  | line :: lines => (line, newline) :: endLines newline selectedEnding lines

/-! ## The call -/

/-- The records around a range, what stands between them, and how it is ended. -/
structure Seams where
  before : List Line
  newline : Text
  ending : Text
  replacement : List Text
  after : List Line

def Seams.written (s : Seams) : List Line := endLines s.newline s.ending s.replacement

def seams (original : Text) (startLine endLine : Nat) (replacement : List Text) : Seams :=
  let records := lineRecords original
  { before := records.take (startLine - 1)
    newline := dominantNewline original
    ending := (records.getD (endLine - 1) ([], [])).2
    replacement := replacement
    after := records.drop endLine }

def Seams.records (s : Seams) : List Line := s.before ++ s.written ++ s.after

def readRaw (path : String) : Tool Text := do
  let file ← Call.read id
  match file.text with
  | some text => pure text
  | none => Call.raise ⟨s!"File is not valid UTF-8: {path}"⟩

/-- `_atomic_replace`: the new text is renamed over the file as the last step. -/
def atomicReplace (env : Surroundings) (path : String) (content expected : Text) : Tool Unit :=
  match env.fault with
  | some strerror => Call.raise ⟨s!"Unable to replace {path}: {strerror}"⟩
  | none => do
    let current ← readRaw path
    if current ≠ expected then Call.raise ⟨s!"File changed during the operation: {path}"⟩
    else Call.write fun file => { file with text := some content }

structure EditArgs where
  startLine : Json
  endLine : Json
  expectedLines : Json
  replacementLines : Json

/-- The checks before the file is touched. -/
def EditArgs.check (a : EditArgs) : Except ToolError (Nat × Nat × List Text × List Text) := do
  let startLine ← validateInteger "start_line" a.startLine 1 none
  let endLine ← validateInteger "end_line" a.endLine 1 none
  if endLine < startLine then fail "end_line must be greater than or equal to start_line."
  else do
    let expected ← lineList "expected_lines" a.expectedLines
    let replacement ← lineList "replacement_lines" a.replacementLines
    if expected.length ≠ endLine - startLine + 1 then
      fail "expected_lines length must match the inclusive line range."
    else pure (startLine.toNat, endLine.toNat, expected, replacement)

def editFile (env : Surroundings) (a : EditArgs) : Tool String := do
  let (startLine, endLine, expected, replacement) ← Call.ofExcept a.check
  let path ← Call.ofExcept env.path
  let file ← Call.read id
  if !file.isFile then Call.raise ⟨s!"Not a file: {path}"⟩
  else do
    let original ← readRaw path
    let records := lineRecords original
    if records.length < endLine then
      Call.raise ⟨s!"Line range {startLine}-{endLine} exceeds the file's {records.length} lines."⟩
    else if ((records.take endLine).drop (startLine - 1)).map Prod.fst ≠ expected then
      Call.raise ⟨"The selected lines no longer match expected_lines; file was not changed."⟩
    else do
      atomicReplace env path (joinLines (seams original startLine endLine replacement).records)
        original
      pure s!"Edited {path}: replaced lines {startLine}-{endLine}."

/-! ## What a call leaves behind -/

variable {env : Surroundings} {a : EditArgs} {file file' : File}

/-- One coincidence: a separator at the end of a replacement line makes one line more, empty as the
line after it should be, and the last CR and LF make one line less. -/
structure Shifted (newline ending : Text) (lines : List Text) : Prop where
  newline : newline = ['\r']
  ending : ending = ['\n']
  lines : ∃ (plain : List Text) (init : Text) (u : Char) (n : Nat), (∀ l ∈ plain, Plain l) ∧
    Plain init ∧
    isUnusual u = true ∧ lines = plain ++ (init ++ [u]) :: List.replicate (n + 1) []

/-- The text may be written: no replacement line has a separator of its own that splits it, each is
ended before what follows it, and the seams make no CRLF out of a CR and an LF. -/
structure Seams.Fits (s : Seams) : Prop where
  before : ∀ l ∈ s.before.getLast?, l.2 = ['\r'] → (joinLines (s.written ++ s.after)).head? ≠
    some '\n'
  written : CanonicalBefore s.after s.written ∨ Shifted s.newline s.ending s.replacement

theorem isEnding_dominantNewline (s : Text) : IsEnding (dominantNewline s) := by
  unfold dominantNewline IsEnding
  dsimp only
  split_ifs <;> simp

/-- A line without CR and LF, as the check of the arguments leaves it. -/
def Unbroken (line : Text) : Prop := '\n' ∉ line ∧ '\r' ∉ line

section Endings

variable {newline ending c : Text} {lines : List Text} {w after : List Line}

theorem map_endLines (newline ending : Text) :
    ∀ lines : List Text, (endLines newline ending lines).map Prod.fst = lines
  | [] => rfl
  | [_] => rfl
  | line :: next :: lines => by
    rw [endLines, List.map_cons, map_endLines newline ending (next :: lines)]
    simp

theorem joinLines_cons (l : Line) (rest : List Line) :
    joinLines (l :: rest) = l.1 ++ (l.2 ++ joinLines rest) := by
  simp [joinLines, Line.text]

theorem joinLines_endLines {next : Text} :
    joinLines (endLines newline ending (c :: next :: lines)) =
    c ++ (newline ++ joinLines (endLines newline ending (next :: lines))) := joinLines_cons _ _

/-- An unbroken line where an ending is expected is empty. -/
theorem eq_nil_of_ending {rest rest' : Text} (hc : Unbroken c) (hnew : IsEnding newline)
    (h : c ++ rest = newline ++ rest') : c = [] := by
  rcases c with _ | ⟨a, c⟩
  · rfl
  · have hn : a ≠ '\n' := by rintro rfl; exact hc.1 List.mem_cons_self
    have hr : a ≠ '\r' := by rintro rfl; exact hc.2 List.mem_cons_self
    obtain rfl | rfl | rfl := hnew <;> simp [hn, hr] at h

/-- Of two endings at one place, the one that is read is the one that is written, or takes the LF
after it. -/
theorem ending_cancel {x s t : Text} (hx : IsEnding x) (hnew : IsEnding newline)
    (h : x ++ s = newline ++ t) (hhead : x = ['\r'] → s.head? ≠ some '\n') :
    (x = newline ∧ s = t) ∨ (x = ['\r', '\n'] ∧ newline = ['\r'] ∧ t = '\n' :: s) := by
  obtain rfl | rfl | rfl := hx <;> obtain rfl | rfl | rfl := hnew <;> simp at h ⊢
  · exact h
  · exact h
  · exact h.symm
  · rw [h] at hhead
    simp at hhead
  · exact h

theorem head_ne_of_append {s t : Text} (h : (s ++ t).head? ≠ some '\n') : s.head? ≠ some '\n' := by
  intro hs
  rw [List.head?_append, hs] at h
  exact h rfl

theorem begins_empty {y : Text} {rest : List Line} (h : Begins ([], y) rest) :
    IsEnding y ∧ (y = ['\r'] → (joinLines rest).head? ≠ some '\n') := by
  obtain ⟨-, h2 | h2 | ⟨h2, hhead⟩⟩ | ⟨-, init, u, heq, -⟩ | ⟨-, -, hne, -⟩ := h
  · exact ⟨.inl h2, fun hcr => absurd (h2.symm.trans hcr) (by decide)⟩
  · exact ⟨.inr (.inl h2), fun hcr => absurd (h2.symm.trans hcr) (by decide)⟩
  · exact ⟨.inr (.inr h2), fun _ => hhead⟩
  · exact absurd heq (by simp)
  · exact absurd rfl hne

theorem endLines_nil (hnew : IsEnding newline) (hend : ending = [] ∨ IsEnding ending) :
    ∃ e, IsEnding e ∧ endLines newline ending [[]] = [([], e)] ∧ (e = ending ∨ e = newline) := by
  rcases hend with rfl | hend
  · exact ⟨newline, hnew, by simp [endLines], .inr rfl⟩
  · exact ⟨ending, hend, by simp [endLines, hend.ne_nil], .inl rfl⟩

/-- Empty lines that one ending too many comes before: they are as many only if the last two endings
are one. -/
theorem shifted_tail (hnew : IsEnding newline) (hend : ending = [] ∨ IsEnding ending) :
    ∀ {lines : List Text}
    {w : List Line} {y : Text}, (∀ l ∈ lines, Unbroken l) → w.map Prod.fst = lines →
    CanonicalBefore after (([], y) :: w) → y ++ joinLines w = newline ++
      joinLines (endLines newline ending ([] :: lines)) →
    newline = ['\r'] ∧ ending = ['\n'] ∧ lines = List.replicate lines.length []
  | [], w, y, _, hmap, hw, hjoin => by
    obtain rfl : w = [] := List.map_eq_nil_iff.mp hmap
    obtain ⟨hy, hhead⟩ := begins_empty hw.1
    obtain ⟨e, he, hlast, hwhich⟩ := endLines_nil hnew hend
    rw [hlast, joinLines_cons] at hjoin
    obtain ⟨-, h⟩ | ⟨-, hcr, h⟩ := ending_cancel hy hnew hjoin fun hcr => by simp [joinLines]
    · exact absurd (List.append_eq_nil_iff.mp (List.append_eq_nil_iff.mp h.symm).2).1 he.ne_nil
    · obtain rfl : e = ['\n'] := by simpa [joinLines] using h
      obtain h | h := hwhich
      · exact ⟨hcr, h.symm, rfl⟩
      · exact absurd (h.trans hcr) (by decide)
  | c :: lines, w, y, hlines, hmap, hw, hjoin => by
    obtain ⟨⟨c', y'⟩, w, rfl, rfl, htail⟩ := List.map_eq_cons_iff.mp hmap
    obtain ⟨hy, hhead⟩ := begins_empty hw.1
    rw [joinLines_endLines, List.nil_append] at hjoin
    rw [joinLines_append] at hhead
    obtain ⟨-, h⟩ | ⟨-, hcr, h⟩ := ending_cancel hy hnew hjoin fun hcr =>
      head_ne_of_append (hhead hcr)
    · rw [joinLines_cons] at h
      obtain rfl := eq_nil_of_ending (hlines _ List.mem_cons_self) hnew h
      obtain ⟨hcr, hlf, heq⟩ :=
        shifted_tail hnew hend (fun l hl => hlines l (List.mem_cons_of_mem _ hl)) htail hw.2 h
      exact ⟨hcr, hlf, by rw [List.length_cons, List.replicate_succ, ← heq]⟩
    · rw [hcr] at h
      cases h

/-- A CR is not written before the LF of the last line, unless it is to end a line too many. -/
theorem endLines_ne_lf {y : Text} (hend : ending = [] ∨ IsEnding ending) (hc : Unbroken c)
    (hmap : w.map Prod.fst = lines) (hw : CanonicalBefore after ((c, y) :: w)) :
    joinLines (endLines ['\r'] ending (c :: lines)) ≠ '\n' :: joinLines ((c, y) :: w) := by
  intro h
  have hlf : IsEnding ['\n'] := .inl rfl
  rcases lines with _ | ⟨next, lines⟩
  · obtain rfl : w = [] := List.map_eq_nil_iff.mp hmap
    obtain rfl : c = [] := by
      rw [endLines, joinLines_cons] at h
      exact eq_nil_of_ending hc hlf h
    obtain ⟨e, he, hlast, -⟩ := endLines_nil (.inr (.inr rfl)) hend
    obtain ⟨hy, -⟩ := begins_empty hw.1
    rw [hlast] at h
    obtain rfl | rfl | rfl := he <;> obtain rfl | rfl | rfl :=
      hy <;> simp [joinLines, Line.text] at h
  · rw [joinLines_endLines] at h
    obtain rfl := eq_nil_of_ending hc hlf h
    simp at h

theorem Shifted.cons (hc : Plain c) (h : Shifted newline ending lines) :
    Shifted newline ending (c :: lines) := by
  obtain ⟨hnew, hend, plain, init, u, n, hplain, hinit, hu, rfl⟩ := h
  exact ⟨hnew, hend, c :: plain, init, u, n, List.forall_mem_cons.mpr ⟨hc, hplain⟩, hinit, hu, rfl⟩

/-- What the written text splits into, line by line: the lines as they were written, or shifted
ones. -/
theorem endLines_or_shifted (hnew : IsEnding newline) (hend : ending = [] ∨ IsEnding ending) :
    ∀ {lines : List Text}
    {w : List Line}, (∀ l ∈ lines, Unbroken l) → w.map Prod.fst = lines → CanonicalBefore after w →
    joinLines w = joinLines (endLines newline ending lines) →
    w = endLines newline ending lines ∨ Shifted newline ending lines
  | [], w, _, hmap, _, _ => .inl (List.map_eq_nil_iff.mp hmap)
  | [c], w, _, hmap, _, hjoin => by
    obtain ⟨⟨c', x⟩, w, rfl, rfl, htail⟩ := List.map_eq_cons_iff.mp hmap
    obtain rfl : w = [] := List.map_eq_nil_iff.mp htail
    left
    simpa [joinLines, Line.text, endLines] using hjoin
  | c :: next :: lines, w, hlines, hmap, hw, hjoin => by
    obtain ⟨⟨c', x⟩, w, rfl, rfl, htail⟩ := List.map_eq_cons_iff.mp hmap
    have hrest : ∀ l ∈ next :: lines, Unbroken l := fun l hl => hlines l (List.mem_cons_of_mem _ hl)
    rw [joinLines_endLines, joinLines_cons, List.append_cancel_left_eq] at hjoin
    obtain ⟨hplain, hx⟩ | ⟨hx, init, u, heq, hinit, hu⟩ | ⟨-, -, -, hnil⟩ := hw.1
    · have hx' : IsEnding x := by
        obtain h | h | h := hx
        · exact .inl h
        · exact .inr (.inl h)
        · exact .inr (.inr h.1)
      have hhead : x = ['\r'] → (joinLines w).head? ≠ some '\n' := by
        rintro rfl
        obtain h | h | h := hx
        · exact absurd h (by simp)
        · exact absurd h (by simp)
        · rw [joinLines_append] at h
          exact head_ne_of_append h.2
      obtain ⟨hxnew, h⟩ | ⟨-, hcr, h⟩ := ending_cancel hx' hnew hjoin hhead
      · obtain h | h := endLines_or_shifted hnew hend hrest htail hw.2 h
        · exact .inl (by rw [h, hxnew]; rfl)
        · exact .inr (h.cons hplain)
      · obtain ⟨⟨c₂, y⟩, w, rfl, rfl, htail'⟩ := List.map_eq_cons_iff.mp htail
        rw [hcr] at h
        exact absurd h (endLines_ne_lf hend (hrest _ List.mem_cons_self) htail' hw.2)
    · obtain rfl : x = [] := hx
      obtain ⟨⟨c₂, y⟩, w, rfl, rfl, htail'⟩ := List.map_eq_cons_iff.mp htail
      rw [List.nil_append, joinLines_cons] at hjoin
      obtain rfl := eq_nil_of_ending (hrest _ List.mem_cons_self) hnew hjoin
      obtain ⟨hcr, hlf, hnils⟩ :=
        shifted_tail hnew hend (fun l hl => hrest l (List.mem_cons_of_mem _ hl)) htail'
        hw.2 hjoin
      refine .inr ⟨hcr, hlf, [], init, u, lines.length, by simp, hinit, hu, ?_⟩
      rw [List.nil_append, List.replicate_succ, ← hnils, heq]
    · cases w with
      | nil => cases hmap
      | cons => cases hnil

/-- The records of shifted lines. -/
theorem Shifted.records (h : Shifted newline ending lines) (after : List Line) : ∃ w : List Line,
    w.map Prod.fst = lines ∧ joinLines w = joinLines (endLines newline ending lines) ∧
    CanonicalBefore after w := by
  obtain ⟨rfl, rfl, plain, init, u, n, hplain, hinit, hu, rfl⟩ := h
  have tail : ∀ n : Nat, ∃ w : List Line, w.map Prod.fst = List.replicate (n + 1) [] ∧
      joinLines w = '\r' :: joinLines (endLines ['\r'] ['\n'] (List.replicate (n + 1) [])) ∧
      CanonicalBefore after w := by
    intro n
    induction n with
    | zero => exact ⟨[([], ['\r', '\n'])], rfl, rfl, .inl ⟨nofun, .inr (.inl rfl)⟩, trivial⟩
    | succ n ih =>
      obtain ⟨w, hmap, hjoin, hw⟩ := ih
      refine ⟨([], ['\r']) :: w, by rw [List.map_cons, hmap, ← List.replicate_succ],
        ?_, .inl ⟨nofun, ?_⟩, hw⟩
      · have hstep : joinLines (endLines ['\r'] ['\n'] (List.replicate (n + 2) [])) =
            ['\r'] ++ joinLines (endLines ['\r'] ['\n'] (List.replicate (n + 1) [])) :=
            joinLines_endLines
        rw [joinLines_cons, hjoin, hstep]
        rfl
      · refine .inr (.inr ⟨rfl, ?_⟩)
        rw [joinLines_append, hjoin]
        simp
  suffices ∃ w : List Line, w.map Prod.fst = plain ++ (init ++ [u]) :: List.replicate (n + 1) [] ∧
      joinLines w = joinLines (endLines ['\r'] ['\n']
        (plain ++ (init ++ [u]) :: List.replicate (n + 1) [])) ∧
      CanonicalBefore after w ∧ ∃ a rest, joinLines w = a :: rest ∧ a ≠ '\n' by
    obtain ⟨w, hmap, hjoin, hw, -⟩ := this
    exact ⟨w, hmap, hjoin, hw⟩
  induction plain with
  | nil =>
    obtain ⟨w, hmap, hjoin, hw⟩ := tail n
    have hsplit : joinLines ((init ++ [u], []) :: w) = init ++ ([u] ++ joinLines w) := by
      rw [joinLines_cons, List.nil_append, List.append_assoc]
    refine ⟨(init ++ [u], []) :: w, by rw [List.map_cons, hmap]; rfl, ?_,
      ⟨.inr (.inl ⟨rfl, init, u, rfl, hinit, hu⟩), hw⟩, ?_⟩
    · have hstep : joinLines (endLines ['\r'] ['\n'] ((init ++ [u]) :: List.replicate (n + 1) [])) =
          (init ++ [u]) ++ (['\r'] ++
            joinLines (endLines ['\r'] ['\n'] (List.replicate (n + 1) []))) := joinLines_endLines
      rw [joinLines_cons, hjoin, List.nil_append, List.nil_append, hstep]
      rfl
    · rw [hsplit]
      rcases init with _ | ⟨a, init⟩
      · exact ⟨u, _, rfl, by rintro rfl; simp [isUnusual] at hu⟩
      · exact ⟨a, _, rfl, by rintro rfl; exact absurd (plain_cons.mp hinit).1 (by decide)⟩
  | cons c plain ih =>
    obtain ⟨hc, hplain⟩ := List.forall_mem_cons.mp hplain
    obtain ⟨w, hmap, hjoin, hw, a, rest, hhead, ha⟩ := ih hplain
    refine ⟨(c, ['\r']) :: w, by rw [List.map_cons, hmap]; rfl, ?_,
      ⟨.inl ⟨hc, .inr (.inr ⟨rfl, ?_⟩)⟩, hw⟩, ?_⟩
    · obtain ⟨next, lines, heq⟩ : ∃ next lines, plain ++ (init ++ [u]) ::
          List.replicate (n + 1) [] = next :: lines :=
        List.exists_cons_of_ne_nil (by simp)
      have hstep : joinLines (endLines ['\r'] ['\n']
          (c :: plain ++ (init ++ [u]) :: List.replicate (n + 1) [])) =
          c ++ (['\r'] ++ joinLines (endLines ['\r'] ['\n'] (next :: lines))) := by
        rw [List.cons_append, heq, joinLines_endLines]
      rw [joinLines_cons, hjoin, heq, hstep]
    · rw [joinLines_append, hhead]
      simpa using ha
    · rw [joinLines_cons]
      rcases c with _ | ⟨b, c⟩
      · exact ⟨'\r', _, rfl, by decide⟩
      · exact ⟨b, _, rfl, by rintro rfl; exact absurd (plain_cons.mp hc).1 (by decide)⟩

end Endings

theorem seams_ending (original : Text) (startLine endLine : Nat) (replacement : List Text) :
    (seams original startLine endLine replacement).ending = [] ∨
      IsEnding (seams original startLine endLine replacement).ending := by
  simp only [seams, List.getD_eq_getElem?_getD]
  rcases h : (lineRecords original)[endLine - 1]? with _ | l
  · exact .inl rfl
  · exact (canonical_lineRecords original).ending l (List.mem_of_getElem? h)

/-- The new text has the lines before the range, the replacement lines and the lines after the range
exactly when these fit. -/
theorem seams_exact {original : Text} {startLine endLine : Nat} {replacement : List Text}
    (hstart : 1 ≤ startLine) (hrange : startLine ≤ endLine)
    (hend : endLine ≤ (lineRecords original).length) (hlines : ∀ l ∈ replacement, Unbroken l) :
    (∃ w : List Line, w.map Prod.fst = replacement ∧
      lineRecords (joinLines (seams original startLine endLine replacement).records) =
        (seams original startLine endLine replacement).before ++ w ++
          (seams original startLine endLine replacement).after) ↔
      (seams original startLine endLine replacement).Fits := by
  let s := seams original startLine endLine replacement
  have hcanonical := canonical_lineRecords original
  obtain ⟨hbefore, hrest⟩ : CanonicalBefore ((lineRecords original).drop (startLine - 1)) s.before ∧
      Canonical ((lineRecords original).drop (startLine - 1)) := by
    rw [← canonical_append]
    exact (List.take_append_drop _ _).symm ▸ hcanonical
  have hafter : Canonical s.after := by
    have hdrop : (lineRecords original).drop (startLine - 1) =
        ((lineRecords original).drop (startLine - 1)).take (endLine - (startLine - 1)) ++
          s.after := by
      conv_lhs => rw [← List.take_append_drop (endLine - (startLine - 1))
        ((lineRecords original).drop (startLine - 1))]
      rw [List.drop_drop]
      congr 2
      omega
    rw [hdrop] at hrest
    exact (canonical_append.mp hrest).2
  have hne : (lineRecords original).drop (startLine - 1) ≠ [] := by
    rw [ne_eq, List.drop_eq_nil_iff]
    omega
  -- a list of lines with the written text stands between the seams exactly when it is canonical
  -- there
  have hbetween : ∀ w : List Line, joinLines w = joinLines s.written →
      (lineRecords (joinLines s.records) = s.before ++ w ++ s.after ↔
        (∀ l ∈ s.before.getLast?, l.2 = ['\r'] → (joinLines (s.written ++ s.after)).head? ≠
          some '\n') ∧
          CanonicalBefore s.after w) := by
    intro w hw
    have hjoin : joinLines s.records = joinLines (s.before ++ w ++ s.after) := by
      rw [Seams.records, joinLines_append, joinLines_append, joinLines_append, joinLines_append, hw]
    rw [hjoin, lineRecords_joinLines, List.append_assoc, canonical_append, canonical_append,
      canonicalBefore_congr hne hbefore, and_iff_left hafter, joinLines_append w,
      joinLines_append s.written, hw]
  constructor
  · rintro ⟨w, hmap, hrecords⟩
    have hjoin : joinLines w = joinLines s.written := by
      have h := congrArg joinLines hrecords
      rw [joinLines_lineRecords, Seams.records, joinLines_append, joinLines_append,
        joinLines_append, joinLines_append,
        List.append_cancel_right_eq, List.append_cancel_left_eq] at h
      exact h.symm
    obtain ⟨hseam, hw⟩ := (hbetween w hjoin).mp hrecords
    obtain rfl | hshift := endLines_or_shifted (isEnding_dominantNewline original)
      (seams_ending original startLine endLine replacement) hlines hmap hw hjoin
    · exact ⟨hseam, .inl hw⟩
    · exact ⟨hseam, .inr hshift⟩
  · rintro ⟨hseam, hw | hshift⟩
    · exact ⟨s.written, map_endLines _ _ _, (hbetween _ rfl).mpr ⟨hseam, hw⟩⟩
    · obtain ⟨w, hmap, hjoin, hw⟩ := hshift.records s.after
      exact ⟨w, hmap, (hbetween w hjoin).mpr ⟨hseam, hw⟩⟩

theorem readRaw_ok {path : String} {text : Text} (h : file.text = some text) :
    readRaw path file = (.ok text, file) := by
  rw [readRaw, Call.bind_of_ok (show Call.read id file = (.ok file, file) from rfl), h]
  rfl

theorem steady_readRaw (path : String) : Call.Steady (readRaw path) := by
  refine (Call.steady_read _).bind fun file => ?_
  split
  · exact Call.steady_pure _
  · exact Call.steady_raise _

theorem atomic_atomicReplace (env : Surroundings) (path : String) (content expected : Text) :
    Call.Atomic (atomicReplace env path content expected) := by
  unfold atomicReplace
  split
  · exact (Call.steady_raise _).atomic
  · refine Call.Atomic.after (steady_readRaw path) fun current => ?_
    split
    · exact (Call.steady_raise _).atomic
    · intro file e file' h
      cases h

theorem atomic_editFile (env : Surroundings) (a : EditArgs) : Call.Atomic (editFile env a) := by
  refine Call.Atomic.after (Call.steady_ofExcept _) fun args => ?_
  refine Call.Atomic.after (Call.steady_ofExcept _) fun path => ?_
  refine Call.Atomic.after (Call.steady_read _) fun file => ?_
  split
  · exact (Call.steady_raise _).atomic
  · refine Call.Atomic.after (steady_readRaw path) fun original => ?_
    dsimp only
    split
    · exact (Call.steady_raise _).atomic
    · split
      · exact (Call.steady_raise _).atomic
      · exact (atomic_atomicReplace _ _ _ _).then_pure fun _ => _

theorem validateInteger_ok {name : String} {value : Json} {minimum n : Int} {maximum : Option Int}
    (h : validateInteger name value minimum maximum = .ok n) : value = .int n ∧ minimum ≤ n := by
  unfold validateInteger at h
  split at h
  · split at h
    · split at h <;> cases h
    · next hrange =>
      cases h
      exact ⟨rfl, not_lt.mp fun hlt => hrange (.inl hlt)⟩
  · cases h

theorem lineList_ok {name : String} {value : Json} {lines : List Text}
    (h : lineList name value = .ok lines) :
    ∀ l ∈ lines, Unbroken l := by
  unfold lineList at h
  split at h
  · split at h
    · dsimp only at h
      split at h
      · cases h
      · next hbroken =>
        cases h
        intro l hl
        rw [List.any_eq_true, not_exists] at hbroken
        have := hbroken l
        simpa [hl, not_or, Unbroken] using this
    · cases h
  · cases h

theorem EditArgs.check_ok {startLine endLine : Nat} {expected replacement : List Text}
    (h : a.check = .ok (startLine, endLine, expected, replacement)) :
    1 ≤ startLine ∧ startLine ≤ endLine ∧ ∀ l ∈ replacement, Unbroken l := by
  obtain ⟨s, hs, h⟩ := bind_ok.mp h
  obtain ⟨e, he, h⟩ := bind_ok.mp h
  split at h
  · cases h
  · next hle =>
    obtain ⟨_, -, h⟩ := bind_ok.mp h
    obtain ⟨_, hlines, h⟩ := bind_ok.mp h
    split at h
    · cases h
    · cases h
      have hstart := (validateInteger_ok hs).2
      have hend := (validateInteger_ok he).2
      exact ⟨by omega, by omega, lineList_ok hlines⟩

theorem editFile_eq {path : String} {original : Text} {startLine endLine : Nat}
    {expected replacement : List Text} {records : List Line} (hpath : env.path = .ok path)
    (hfile : file.isFile = true) (htext : file.text = some original)
    (hcheck : a.check = .ok (startLine, endLine, expected, replacement))
    (hrecords : lineRecords original = records) :
    editFile env a file = if records.length < endLine then
        (.error
          ⟨s!"Line range {startLine}-{endLine} exceeds the file's {records.length} lines."⟩, file)
      else if ((records.take endLine).drop (startLine - 1)).map Prod.fst ≠ expected then
        (.error ⟨"The selected lines no longer match expected_lines; file was not changed."⟩, file)
      else (do
        atomicReplace env path (joinLines (seams original startLine endLine replacement).records)
          original
        pure s!"Edited {path}: replaced lines {startLine}-{endLine}.") file := by
  subst hrecords
  rw [editFile, Call.bind_of_ok (show Call.ofExcept a.check file =
    (.ok (startLine, endLine, expected, replacement), file)
      by rw [hcheck]; rfl)]
  dsimp only
  rw [Call.bind_of_ok (show Call.ofExcept env.path file = (.ok path, file) by rw [hpath]; rfl),
    Call.bind_of_ok (show Call.read id file = (.ok file, file) from rfl), hfile, if_neg (by decide),
    Call.bind_of_ok (readRaw_ok htext)]
  split
  · rfl
  · split <;> rfl

theorem editFile_ok {path : String} {original : Text} {startLine endLine : Nat}
    {expected replacement : List Text}
    (hpath : env.path = .ok path) (hfault : env.fault = none) (hfile : file.isFile = true)
    (htext : file.text = some original)
    (hcheck : a.check = .ok (startLine, endLine, expected, replacement))
    (hend : endLine ≤ (lineRecords original).length)
    (hlines : (((lineRecords original).take endLine).drop (startLine - 1)).map Prod.fst =
      expected) :
    editFile env a file = (.ok s!"Edited {path}: replaced lines {startLine}-{endLine}.",
      { file with text := some (joinLines (seams original startLine endLine replacement).records)
        }) := by
  have hreplace : atomicReplace env path
      (joinLines (seams original startLine endLine replacement).records) original file
      = (.ok (),
        { file with
          text := some (joinLines (seams original startLine endLine replacement).records) }) := by
    simp only [atomicReplace, hfault]
    rw [Call.bind_of_ok (readRaw_ok htext)]
    simp [Call.write]
  rw [editFile_eq hpath hfile htext hcheck rfl, if_neg (not_lt.mpr hend),
    if_neg (not_not.mpr hlines), Call.bind_of_ok hreplace]
  rfl

/-- **Edits.** A call that raises leaves the file as it was. A call whose range has the expected
lines returns, and its text has the lines before the range, the replacement lines and the lines
after the range exactly when these fit. -/
theorem edit_file_exact (env : Surroundings) (a : EditArgs) (file : File) :
    (∀ e file', editFile env a file = (.error e, file') → file' = file) ∧
    ∀ path original startLine endLine expected replacement, env.path = .ok path → env.fault = none →
      file.isFile = true → file.text = some original →
      a.check = .ok (startLine, endLine, expected, replacement) →
      endLine ≤ (lineRecords original).length →
      (((lineRecords original).take endLine).drop (startLine - 1)).map Prod.fst = expected →
      ∃ message new, editFile env a file = (.ok message, { file with text := some new }) ∧
        ((∃ written : List Line, written.map Prod.fst = replacement ∧
          lineRecords new = (lineRecords original).take (startLine - 1) ++
            written ++ (lineRecords original).drop endLine) ↔
        (seams original startLine endLine replacement).Fits) := by
  refine ⟨fun e file' h => atomic_editFile env a file e file' h, ?_⟩
  intro path original startLine endLine expected replacement hpath hfault
    hfile htext hcheck hend hlines
  obtain ⟨hstart, hrange, hunbroken⟩ := a.check_ok hcheck
  exact ⟨_, _, editFile_ok hpath hfault hfile htext hcheck hend hlines,
    seams_exact hstart hrange hend hunbroken⟩

def onDisk (text : String) : File := ⟨true, some text.toList⟩

def replaceSecond (expected replacement : String) : EditArgs :=
  { startLine := .int 2, endLine := .int 2, expectedLines := .arr [.str expected]
    replacementLines := .arr [.str replacement] }

def quiet : Surroundings := ⟨.ok "notes.txt", none⟩

theorem edit_file_exact_second : ∃ message new,
    editFile quiet (replaceSecond "b" "c") (onDisk "a\nb\n") = (.ok message, ⟨true, some new⟩) ∧
      ∃ written : List Line, written.map Prod.fst = ["c".toList] ∧
        lineRecords new = ("a".toList, ['\n']) :: written := by
  obtain ⟨message, new, hrun, hiff⟩ :=
    (edit_file_exact quiet (replaceSecond "b" "c") (onDisk "a\nb\n")).2
    "notes.txt" "a\nb\n".toList 2 2 ["b".toList] ["c".toList] rfl rfl rfl rfl rfl (by decide)
    (by decide)
  have hplain : Plain ['c'] := by
    intro c hc
    cases List.mem_singleton.mp hc
    rfl
  have hbegins : Begins ("c".toList, ['\n']) [] := .inl ⟨hplain, .inl rfl⟩
  obtain ⟨written, hmap, hrecords⟩ := hiff.mpr ⟨by decide, .inl ⟨hbegins, trivial⟩⟩
  refine ⟨message, new, hrun, written, hmap, ?_⟩
  rw [hrecords, show (lineRecords "a\nb\n".toList).drop 2 = [] from rfl, List.append_nil]
  rfl

/-- A replacement line with a vertical tab is read back as two lines. -/
theorem edit_splits_replacement :
    ∃ env a file original startLine endLine expected replacement message new,
      file.text = some original ∧ EditArgs.check a =
        .ok (startLine, endLine, expected, replacement) ∧
      (((lineRecords original).take endLine).drop (startLine - 1)).map Prod.fst = expected ∧
      editFile env a file = (.ok message, ⟨true, some new⟩) ∧
      ¬ ∃ written : List Line, written.map Prod.fst = replacement ∧
        lineRecords new = (lineRecords original).take (startLine - 1) ++
          written ++ (lineRecords original).drop endLine := by
  refine ⟨quiet, replaceSecond "b" "c\x0bd", onDisk "a\nb\n", "a\nb\n".toList,
    2, 2, ["b".toList], ["c\x0bd".toList], _, _,
    rfl, rfl, by decide, rfl, ?_⟩
  rintro ⟨written, hmap, hrecords⟩
  have hlength := congrArg List.length hrecords
  have hone : written.length = 1 := by simpa using congrArg List.length hmap
  rw [List.length_append, List.length_append, hone] at hlength
  exact absurd hlength (by decide)

end MiniAgent.Files
