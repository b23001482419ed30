import MiniAgent.Files.Editing

/-!
# Reading of a file

`read_file` and the search loop of `grep` (`filesystem/reading.py`). `read_file` goes through the
text one character at a time, over chunks of the text with normalised newlines, and keeps a page
within a budget of characters.

`number` gives each character of the text its line and column. The page of a call shows the
characters of its range with their numbers (`Reader.run_page`), as far as the budget goes.
-/

namespace MiniAgent.Files

open Lib

def maxOutputChars : Nat := 20000

def maxReadLines : Int := 1000

def maxMatchChars : Nat := 500

def textChunkChars : Nat := 8192

/-! ## Text of a file -/

/-- Newlines of a text opened with `newline=None`. -/
def normaliseNewlines : Text → Text
  | [] => []
  | '\r' :: '\n' :: rest => '\n' :: normaliseNewlines rest
  | '\r' :: rest => '\n' :: normaliseNewlines rest
  | c :: rest => c :: normaliseNewlines rest

/-- The chunks a text is read in; `fuel` is at least its length. -/
def textChunks (size : Nat) : Nat → Text → List Text
  | 0, _ => []
  | fuel + 1, s => match s.take size with
    | [] => []
    | chunk => chunk :: textChunks size fuel (s.drop size)

def iterTextChunks (s : Text) : List Text :=
  textChunks textChunkChars (normaliseNewlines s).length (normaliseNewlines s)

/-! ## read_file -/

structure Range where
  startLine : Nat
  maxLines : Nat
  startColumn : Nat

def Range.lastSelectedLine (r : Range) : Nat := r.startLine + r.maxLines - 1

/-- `str` raises ValueError for an integer of more digits. -/
def maxStrDigits : Nat := 4300

/-- The numbers of the lines and columns of a text can be written; those of every file can. -/
def Numbered (s : Text) : Prop := (Nat.toDigits 10 (s.length + 1)).length ≤ maxStrDigits

/-- The prefix of a line of a `Numbered` text. -/
def linePrefix (n : Nat) : Text := s!"{n} | ".toList

/-- The variables of the loop. `body` is the join of `body_chars`, and `body_char_count` its
length. -/
structure Reader where
  lineNumber : Nat
  column : Nat
  newlineCount : Nat
  anyContent : Bool
  endsWithNewline : Bool
  startLineLength : Nat
  body : Text
  lastReturnedLine : Option Nat
  continuation : Option (Nat × Nat)
  prefixedLine : Option Nat

def Reader.start : Reader :=
  { lineNumber := 1, column := 1, newlineCount := 0, anyContent := false, endsWithNewline := false
    startLineLength := 0, body := [], lastReturnedLine := none, continuation := none,
    prefixedLine := none }

/-- A selected character: into the body, or noted as where to continue. -/
def Reader.put (st : Reader) (c : Char) : Reader :=
  let rendered := (if st.prefixedLine ≠ some st.lineNumber then linePrefix st.lineNumber
    else []) ++ [c]
  if st.body.length + rendered.length ≤ maxOutputChars then
    { st with
      body := st.body ++ rendered, prefixedLine := some st.lineNumber,
      lastReturnedLine := some st.lineNumber }
  else if st.continuation = none then { st with continuation := some (st.lineNumber, st.column) }
  else st

def Reader.advance (st : Reader) (c : Char) : Reader :=
  if c = '\n' then
    { st with
      newlineCount := st.newlineCount + 1, lineNumber := st.lineNumber + 1, column := 1,
      endsWithNewline := true }
  else { st with column := st.column + 1, endsWithNewline := false }

def Range.selects (r : Range) (line column : Nat) : Bool :=
  r.startLine ≤ line && line ≤ r.lastSelectedLine && (line ≠ r.startLine || r.startColumn ≤ column)

def Reader.step (r : Range) (st : Reader) (c : Char) : Reader :=
  let st := { st with
    anyContent := true
    startLineLength := if st.lineNumber = r.startLine ∧ c ≠ '\n' then st.startLineLength + 1
    else st.startLineLength }
  let st := if r.selects st.lineNumber st.column then st.put c else st
  st.advance c

def Reader.totalLines (st : Reader) : Nat :=
  st.newlineCount + if st.anyContent ∧ !st.endsWithNewline then 1 else 0

def Reader.header (st : Reader) (r : Range) (path : String) : String :=
  let total := st.totalLines
  let first := if total < r.startLine then 0 else r.startLine
  let last :=
    if total < r.startLine then 0
    else match st.continuation, st.lastReturnedLine with
      | some _, some line => line
      | _, _ => min r.lastSelectedLine total
  s!"{path}: lines {first}-{last} of {total}" ++
    if r.startColumn ≠ 1 ∧ first ≠ 0 then s!", starting at column {r.startColumn}" else ""

def Reader.footer (st : Reader) : Text :=
  match st.continuation with
  | none => []
  | some (line, column) =>
    (if st.body = [] ∨ st.body.getLast? = some '\n' then [] else ['\n']) ++
      (s!"... output truncated at {maxOutputChars} characters; " ++
        s!"continue with start_line={line} and start_column={column}.").toList

def Reader.page (st : Reader) (r : Range) (path : String) : Except ToolError Text :=
  if r.startLine ≤ st.totalLines ∧ st.startLineLength + 1 < r.startColumn then
    fail s!"start_column must be between 1 and {st.startLineLength + 1} for line {r.startLine}."
  else .ok ((st.header r path).toList ++ ['\n'] ++ st.body ++ st.footer)

/-- The loop over the chunks and their characters. -/
def Reader.run (r : Range) (s : Text) : Reader :=
  (iterTextChunks s).foldl (fun st chunk => chunk.foldl (Reader.step r) st) Reader.start

structure ReadArgs where
  startLine : Json
  maxLines : Json
  startColumn : Json

def ReadArgs.check (a : ReadArgs) : Except ToolError Range := do
  let startLine ← validateInteger "start_line" a.startLine 1 none
  let maxLines ← validateInteger "max_lines" a.maxLines 1 (some maxReadLines)
  let startColumn ← validateInteger "start_column" a.startColumn 1 none
  pure ⟨startLine.toNat, maxLines.toNat, startColumn.toNat⟩

def readFile (env : Surroundings) (a : ReadArgs) : Tool Text := do
  let range ← Call.ofExcept a.check
  let path ← Call.ofExcept env.path
  let file ← Call.read id
  if !file.isFile then Call.raise ⟨s!"Not a file: {path}"⟩
  else match env.fault with
    | some strerror => Call.raise ⟨s!"Unable to read {path}: {strerror}"⟩
    | none => do
      let text ← readRaw path
      Call.ofExcept ((Reader.run range text).page range path)

/-! ## grep -/

/-- A line of `str.splitlines()`, without what ends it. -/
def bare (raw : Text) : Text :=
  if ['\r', '\n'] <:+ raw then raw.dropLast.dropLast
  else if raw.getLast?.any isBreak then raw.dropLast
  else raw

/-- The lines a search goes through. -/
def grepLines (s : Text) : List Text := (splitlines s).map bare

structure Found where
  results : List Text
  outputChars : Nat
  truncated : Bool

def preview (line : Text) : Text :=
  if line.length ≤ maxMatchChars then line else line.take maxMatchChars ++ "...".toList

def report (path : String) (number : Nat) (line : Text) : Text :=
  path.toList ++ s!":{number}:".toList ++ preview line

def Found.full (found : Found) (maxResults : Nat) (result : Text) : Bool :=
  found.results.length = maxResults || maxOutputChars < found.outputChars + result.length + 1

def Found.add (found : Found) (result : Text) : Found :=
  { found with results := found.results ++ [result], outputChars := found.outputChars +
    result.length + 1 }

/-- The lines of one file, from line `number` on; `search` is the compiled expression with its
timeout. -/
def grepLoop (search : Text → Except ToolError Bool) (path : String) (maxResults : Nat) :
    Nat → List Text → Found → Except ToolError Found
  | _, [], found => .ok found
  | number, line :: lines, found => do
    let found? ← search line
    if !found? then grepLoop search path maxResults (number + 1) lines found
    else if found.full maxResults (report path number line) then
      pure { found with truncated := true }
    else grepLoop search path maxResults (number + 1) lines (found.add (report path number line))

def grepFile (search : Text → Except ToolError Bool) (path : String) (maxResults : Nat) (s : Text)
    (found : Found) :
    Except ToolError Found :=
  grepLoop search path maxResults 1 (grepLines s) found

/-! ## Places of a text -/

structure Place where
  line : Nat
  column : Nat
  char : Char

/-- The characters of a text that begins at a line and a column. -/
def number : Nat → Nat → Text → List Place
  | _, _, [] => []
  | line, column, c :: rest =>
    ⟨line, column, c⟩ :: if c = '\n' then number (line + 1) 1 rest
      else number line (column + 1) rest

/-- The characters of a page, each with the prefix of its line where the line is new. -/
def render : Option Nat → List Place → List Text
  | _, [] => []
  | last, p :: places =>
    ((if last ≠ some p.line then linePrefix p.line else []) ++ [p.char]) ::
      render (some p.line) places

/-- How many pieces there is room for. -/
def room : Nat → List Text → Nat
  | _, [] => 0
  | used, piece :: pieces =>
    if used + piece.length ≤ maxOutputChars then room (used + piece.length) pieces + 1 else 0

def Range.places (r : Range) (line column : Nat) (t : Text) : List Place :=
  (number line column t).filter fun p => r.selects p.line p.column

theorem render_take : ∀ (k : Nat) (last : Option Nat) (places : List Place),
    render last (places.take k) = (render last places).take k
  | 0, _, _ => by simp [render]
  | _ + 1, _, [] => rfl
  | k + 1, _, p :: places => by
    rw [List.take_succ_cons, render, render, List.take_succ_cons, render_take k]

theorem linePrefix_mono {m n : Nat} (h : m ≤ n) :
    (linePrefix m).length ≤ (linePrefix n).length := by
  have hdigits : (Nat.toDigits 10 m).length ≤ (Nat.toDigits 10 n).length := by
    rw [Nat.length_toDigits_le_iff (by omega) Nat.length_toDigits_pos]
    exact lt_of_le_of_lt h
      ((Nat.length_toDigits_le_iff (by omega) Nat.length_toDigits_pos).mp le_rfl)
  have hlength : ∀ k : Nat, (linePrefix k).length = (Nat.toDigits 10 k).length + 3 := by
    intro k
    simp [linePrefix, toString]
  rw [hlength, hlength]
  omega

/-! ## The loop of read_file -/

section Loop

variable {r : Range} {st : Reader} {c : Char} {t : Text}

theorem flatten_textChunks {size : Nat} (hsize : 0 < size) :
    ∀ (fuel : Nat) (s : Text), s.length ≤ fuel →
    (textChunks size fuel s).flatten = s
  | 0, s, h => by
    obtain rfl : s = [] := List.eq_nil_of_length_eq_zero (by omega)
    rfl
  | fuel + 1, s, h => by
    rw [textChunks]
    split
    · next hnil =>
      obtain rfl : s = [] := by
        rcases List.take_eq_nil_iff.mp hnil with h | h
        · omega
        · exact h
      rfl
    · have hdrop : (s.drop size).length ≤ fuel := by
        rw [List.length_drop]
        omega
      rw [List.flatten_cons, flatten_textChunks hsize fuel _ hdrop, List.take_append_drop]

/-- The chunks play no part. -/
theorem Reader.run_eq (r : Range) (s : Text) :
    Reader.run r s = (normaliseNewlines s).foldl (Reader.step r) Reader.start := by
  have hsize : 0 < textChunkChars := by decide
  have hflat := flatten_textChunks hsize _ (normaliseNewlines s) le_rfl
  rw [Reader.run, iterTextChunks, ← List.foldl_flatten, hflat]

/-- What a selected character is written as. -/
def Reader.piece (st : Reader) (c : Char) : Text :=
  (if st.prefixedLine ≠ some st.lineNumber then linePrefix st.lineNumber else []) ++ [c]

/-- Where the loop stands after a character. -/
theorem Reader.step_place (r : Range) (st : Reader) (c : Char) :
    (st.step r c).lineNumber = (if c = '\n' then st.lineNumber + 1 else st.lineNumber) ∧
      (st.step r c).column = if c = '\n' then 1 else st.column + 1 := by
  simp only [Reader.step, Reader.advance, Reader.put]
  split_ifs <;> simp

theorem Range.places_cons (r : Range) (st : Reader) (c : Char) (t : Text) :
    r.places st.lineNumber st.column (c :: t) =
      (if r.selects st.lineNumber st.column then [⟨st.lineNumber, st.column, c⟩] else []) ++
        r.places (st.step r c).lineNumber (st.step r c).column t := by
  obtain ⟨hline, hcolumn⟩ := st.step_place r c
  rw [hline, hcolumn, Range.places, number, List.filter_cons]
  split_ifs <;> rfl

/-- The page has no room for anything that may still come. -/
structure Reader.Full (st : Reader) : Prop where
  continued : st.continuation ≠ none
  noRoom : ∀ n, st.lineNumber ≤ n →
    maxOutputChars < st.body.length +
      ((if st.prefixedLine ≠ some n then linePrefix n else []).length + 1)

/-- What a page is made of. -/
def Reader.SameSheet (st st' : Reader) : Prop :=
  st'.body = st.body ∧ st'.continuation = st.continuation ∧
    st'.lastReturnedLine = st.lastReturnedLine ∧
    st'.prefixedLine = st.prefixedLine

theorem Reader.step_of_not_selected (h : r.selects st.lineNumber st.column = false) (c : Char) :
    st.SameSheet (st.step r c) := by
  simp only [Reader.SameSheet, Reader.step, Reader.advance, h, Bool.false_eq_true, if_false]
  split_ifs <;> exact ⟨rfl, rfl, rfl, rfl⟩

theorem Reader.step_of_fits (h : r.selects st.lineNumber st.column = true)
    (hfits : st.body.length + (st.piece c).length ≤ maxOutputChars) :
    (st.step r c).body = st.body ++ st.piece c ∧ (st.step r c).continuation = st.continuation ∧
      (st.step r c).lastReturnedLine = some st.lineNumber ∧
      (st.step r c).prefixedLine = some st.lineNumber := by
  rw [Reader.piece] at hfits
  simp only [Reader.step, Reader.advance, Reader.put, Reader.piece, h, if_true, if_pos hfits]
  split_ifs <;> exact ⟨rfl, rfl, rfl, rfl⟩

theorem Reader.step_of_not_fits (h : r.selects st.lineNumber st.column = true)
    (hfits : ¬ st.body.length + (st.piece c).length ≤ maxOutputChars) :
    (st.step r c).body = st.body ∧
      (st.step r c).continuation = some (st.continuation.getD (st.lineNumber, st.column)) ∧
      (st.step r c).lastReturnedLine = st.lastReturnedLine ∧
      (st.step r c).prefixedLine = st.prefixedLine := by
  rw [Reader.piece] at hfits
  simp only [Reader.step, Reader.advance, Reader.put, h, if_true, if_neg hfits]
  rcases st.continuation with _ | p <;> split_ifs <;> first | exact ⟨rfl, rfl, rfl, rfl⟩ | simp_all

theorem Reader.Full.step (h : st.Full) (r : Range) (c : Char) :
    st.SameSheet (st.step r c) ∧ (st.step r c).Full := by
  have hsame : st.SameSheet (st.step r c) := by
    rcases hsel : r.selects st.lineNumber st.column with _ | _
    · exact Reader.step_of_not_selected hsel c
    · have hfits : ¬ st.body.length + (st.piece c).length ≤ maxOutputChars := by
        have := h.noRoom st.lineNumber le_rfl
        simpa [Reader.piece] using this
      obtain ⟨hbody, hcont, hlast, hprefixed⟩ := Reader.step_of_not_fits hsel hfits
      obtain ⟨p, hp⟩ := Option.ne_none_iff_exists'.mp h.continued
      rw [hp] at hcont
      exact ⟨hbody, hcont.trans hp.symm, hlast, hprefixed⟩
  obtain ⟨hbody, hcont, hlast, hprefixed⟩ := hsame
  refine ⟨⟨hbody, hcont, hlast, hprefixed⟩, by rw [hcont]; exact h.continued, fun n hn => ?_⟩
  rw [hbody, hprefixed]
  refine h.noRoom n (le_trans ?_ hn)
  rw [(st.step_place r c).1]
  split <;> omega

theorem Reader.Full.run (h : st.Full) (r : Range) (t : Text) :
    st.SameSheet (t.foldl (Reader.step r) st) := by
  induction t generalizing st with
  | nil => exact ⟨rfl, rfl, rfl, rfl⟩
  | cons c t ih =>
    obtain ⟨⟨hbody, hcont, hlast, hprefixed⟩, hfull⟩ := h.step r c
    obtain ⟨hbody', hcont', hlast', hprefixed'⟩ := ih hfull
    exact ⟨hbody'.trans hbody, hcont'.trans hcont, hlast'.trans hlast, hprefixed'.trans hprefixed⟩

/-- The first character that does not fit closes the page. -/
theorem Reader.full_of_not_fits (h : r.selects st.lineNumber st.column = true)
    (hfits : ¬ st.body.length + (st.piece c).length ≤ maxOutputChars)
    (hprefixed : ∀ m ∈ st.prefixedLine, m ≤ st.lineNumber) : (st.step r c).Full := by
  obtain ⟨hbody, hcont, -, hlast⟩ := Reader.step_of_not_fits h hfits
  refine ⟨by rw [hcont]; exact Option.some_ne_none _, fun n hn => ?_⟩
  have hn : st.lineNumber ≤ n := by
    refine le_trans ?_ hn
    rw [(st.step_place r c).1]
    split <;> omega
  rw [hbody, hlast]
  rw [Reader.piece, List.length_append, List.length_singleton] at hfits
  have hmono := linePrefix_mono hn
  by_cases hsame : st.prefixedLine = some st.lineNumber
  · rw [if_neg (not_not.mpr hsame), List.length_nil] at hfits
    omega
  · have hother : st.prefixedLine ≠ some n := by
      intro heq
      have := hprefixed n heq
      exact hsame (by rw [heq]; congr 1; omega)
    rw [if_pos hsame] at hfits
    rw [if_pos hother]
    omega

/-- **Pages.** The body is the selected characters with their numbers, as many as there is room for;
the continuation is the first that is left. -/
theorem Reader.run_page (hopen : st.continuation = none)
    (hprefixed : ∀ m ∈ st.prefixedLine, m ≤ st.lineNumber) (t : Text) :
    let places := r.places st.lineNumber st.column t
    let shown := room st.body.length (render st.prefixedLine places)
    (t.foldl (Reader.step r) st).body = st.body ++
      (render st.prefixedLine (places.take shown)).flatten ∧
    (t.foldl (Reader.step r) st).continuation = places[shown]?.map fun p => (p.line, p.column) := by
  induction t generalizing st with
  | nil =>
    exact ⟨by simp [Range.places, number, render], by simpa [Range.places, number] using hopen⟩
  | cons c t ih =>
    rw [Range.places_cons, List.foldl_cons]
    have hplace := (st.step_place r c).1
    rcases hsel : r.selects st.lineNumber st.column with _ | _
    · obtain ⟨hbody, hcont, -, hlast⟩ := Reader.step_of_not_selected hsel c
      have hle : ∀ m ∈ (st.step r c).prefixedLine, m ≤ (st.step r c).lineNumber := by
        intro m hm
        rw [hlast] at hm
        have := hprefixed m hm
        rw [hplace]
        split <;> omega
      have := ih (hcont.trans hopen) hle
      rw [hbody, hlast] at this
      simpa using this
    · by_cases hfits : st.body.length + (st.piece c).length ≤ maxOutputChars
      · obtain ⟨hbody, hcont, -, hlast⟩ := Reader.step_of_fits hsel hfits
        have hle : ∀ m ∈ (st.step r c).prefixedLine, m ≤ (st.step r c).lineNumber := by
          intro m hm
          rw [hlast] at hm
          cases hm
          rw [hplace]
          split <;> omega
        have := ih (hcont.trans hopen) hle
        rw [hbody, hlast, List.length_append] at this
        simp only [if_true, List.cons_append, List.nil_append, render, room]
        rw [show ((if st.prefixedLine ≠ some st.lineNumber then linePrefix st.lineNumber else []) ++
          [c]) = st.piece c
          from rfl, if_pos hfits, List.take_succ_cons, render, List.flatten_cons,
          List.getElem?_cons_succ]
        refine ⟨?_, this.2⟩
        rw [this.1, List.append_assoc]
        rfl
      · have hfull := Reader.full_of_not_fits hsel hfits hprefixed
        obtain ⟨hbody, hcont, -, -⟩ := Reader.step_of_not_fits hsel hfits
        obtain ⟨hbody', hcont', -, -⟩ := hfull.run r t
        simp only [if_true, List.cons_append, List.nil_append, render, room]
        rw [show ((if st.prefixedLine ≠ some st.lineNumber then linePrefix st.lineNumber else []) ++
          [c]) = st.piece c
          from rfl, if_neg hfits, hbody', hbody, hcont', hcont, hopen]
        exact ⟨by simp [render], rfl⟩

end Loop

end MiniAgent.Files
