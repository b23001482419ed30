import Mathlib.Data.List.Basic

/-!
# Texts and their lines

`str.splitlines` and what it splits a text into. A line is kept with its ending; besides CR, LF and
CRLF there are eight more characters that end a line, and a line that one of these ends keeps it in
its content (`record`).

A list of records is what its text splits into exactly when each of them is ended as it should be
before the next (`Canonical`, `lineRecords_joinLines`).
-/

namespace Lib

abbrev Text := List Char

/-- The line separators besides CR and LF. -/
def isUnusual (c : Char) : Bool :=
  c = '\x0b' || c = '\x0c' || c = '\x1c' || c = '\x1d' || c = '\x1e' || c =
    '\u0085' || c = '\u2028' || c = '\u2029'

def isBreak (c : Char) : Bool := c = '\n' || c = '\r' || isUnusual c

/-- `str.splitlines(keepends=True)`. -/
def splitlines : Text → List Text
  | [] => []
  | '\r' :: '\n' :: rest => ['\r', '\n'] :: splitlines rest
  | c :: rest =>
    if isBreak c then [c] :: splitlines rest
    else match splitlines rest with
      | [] => [[c]]
      | line :: lines => (c :: line) :: lines

example : splitlines ['a', '\r', '\n', 'b'] = [['a', '\r', '\n'], ['b']] := by
    simp [splitlines, isBreak, isUnusual]

/-- A line and its ending. -/
abbrev Line := Text × Text

def Line.text (l : Line) : Text := l.1 ++ l.2

/-- The text of a list of records. -/
def joinLines (records : List Line) : Text := records.flatMap Line.text

/-- A line taken apart. Only CR, LF and CRLF are endings; another separator stays in the content. -/
def record (raw : Text) : Line :=
  if ['\r', '\n'] <:+ raw then (raw.dropLast.dropLast, ['\r', '\n'])
  else if raw.getLast? = some '\n' then (raw.dropLast, ['\n'])
  else if raw.getLast? = some '\r' then (raw.dropLast, ['\r'])
  else (raw, [])

def lineRecords (s : Text) : List Line := (splitlines s).map record

/-! ## Splitting, one character at a time -/

section Recursion

variable {c : Char} {rest : Text}

theorem isBreak_iff : isBreak c = true ↔ c = '\n' ∨ c = '\r' ∨ isUnusual c = true := by
  simp [isBreak, or_assoc]

theorem splitlines_break (hc : isBreak c = true) (hcrlf : ¬ (c = '\r' ∧ rest.head? = some '\n')) :
    splitlines (c :: rest) = [c] :: splitlines rest := by
  rw [splitlines]
  · rw [if_pos hc]
  · rintro rest' rfl rfl
    exact hcrlf ⟨rfl, rfl⟩

theorem splitlines_plain (hc : isBreak c = false) :
    splitlines (c :: rest) = match splitlines rest with
    | [] => [[c]]
    | line :: lines => (c :: line) :: lines := by
  rw [splitlines]
  · simp [hc]
  · rintro rest' rfl -
    simp [isBreak] at hc

/-- Induction along the lines of a text. -/
theorem lines_induction {P : Text → Prop} (nil : P [])
    (crlf : ∀ rest, P rest → P ('\r' :: '\n' :: rest))
    (brk : ∀ c rest, isBreak c = true → ¬ (c = '\r' ∧ rest.head? = some '\n') →
      P rest → P (c :: rest))
    (plain : ∀ c rest, isBreak c = false → P rest → P (c :: rest)) (s : Text) : P s := by
  induction s using splitlines.induct with
  | case1 => exact nil
  | case2 rest ih => exact crlf rest ih
  | case3 c rest hcrlf hc ih =>
    refine brk c rest hc ?_ ih
    rintro ⟨rfl, h⟩
    obtain ⟨r, rfl⟩ := List.head?_eq_some_iff.mp h
    exact hcrlf r rfl rfl
  | case4 c rest hcrlf hc hnil ih => exact plain c rest (by simpa using hc) ih
  | case5 c rest hcrlf hc line lines heq ih => exact plain c rest (by simpa using hc) ih

theorem splitlines_ne_nil (s : Text) : ∀ line ∈ splitlines s, line ≠ [] := by
  induction s using lines_induction with
  | nil => simp [splitlines]
  | crlf rest ih => simpa [splitlines] using ih
  | brk c rest hc hcrlf ih => simpa [splitlines_break hc hcrlf] using ih
  | plain c rest hc ih =>
    rw [splitlines_plain hc]
    rcases h : splitlines rest with _ | ⟨line, lines⟩ <;> rw [h] at ih
    · simp
    · simpa using fun l hl => ih l (List.mem_cons_of_mem _ hl)

/-! ## Records -/

theorem text_record (raw : Text) : (record raw).text = raw := by
  unfold record Line.text
  split
  · next h =>
    obtain ⟨init, rfl⟩ := h
    have : init ++ ['\r', '\n'] = (init ++ ['\r']) ++ ['\n'] := by simp
    rw [this, List.dropLast_concat, List.dropLast_concat]
    simp
  · split
    · next h => exact (List.dropLast_append_getLast? _ h)
    · split
      · next h => exact (List.dropLast_append_getLast? _ h)
      · simp

theorem joinLines_lineRecords (s : Text) : joinLines (lineRecords s) = s := by
  have hflat : (splitlines s).flatten = s := by
    induction s using lines_induction with
    | nil => rfl
    | crlf rest ih => simp [splitlines, ih]
    | brk c rest hc hcrlf ih => simp [splitlines_break hc hcrlf, ih]
    | plain c rest hc ih =>
      rw [splitlines_plain hc]
      rcases h : splitlines rest with _ | ⟨line, lines⟩ <;> rw [h] at ih <;> simpa using ih
  calc joinLines (lineRecords s) = ((splitlines s).map fun raw => (record raw).text).flatten := by
        rw [joinLines, lineRecords, List.flatMap_map, List.flatMap_def]
    _ = (splitlines s).flatten := by simp [text_record]
    _ = s := hflat

/-- A character before the first line. -/
def consLine (c : Char) : List Line → List Line
  | [] => [([c], [])]
  | (content, ending) :: lines => (c :: content, ending) :: lines

theorem record_cons {line : Text} (hc : isBreak c = false) (hne : line ≠ []) :
    record (c :: line) = (c :: (record line).1, (record line).2) := by
  have hcr : c ≠ '\r' := by rintro rfl; simp [isBreak] at hc
  have hsuffix : ['\r', '\n'] <:+ c :: line ↔ ['\r', '\n'] <:+ line := by
    rw [List.suffix_cons_iff, or_iff_right]
    intro h
    exact hcr (List.cons.inj h).1.symm
  have hlast : (c :: line).getLast? = line.getLast? := by
    rw [List.getLast?_cons, List.getLast?_eq_some_getLast hne]
    simp
  unfold record
  rw [hlast]
  split
  · next h =>
    rw [if_pos (hsuffix.mp h)]
    obtain ⟨init, rfl⟩ := hsuffix.mp h
    simp [List.dropLast]
  · next h =>
    rw [if_neg (fun h' => h (hsuffix.mpr h'))]
    split
    · simp [List.dropLast_cons_of_ne_nil hne]
    · split
      · simp [List.dropLast_cons_of_ne_nil hne]
      · rfl

theorem lineRecords_crlf : lineRecords ('\r' :: '\n' :: rest) = ([], ['\r', '\n']) ::
    lineRecords rest := rfl

theorem lineRecords_break (hc : isBreak c = true) (hcrlf : ¬ (c = '\r' ∧ rest.head? = some '\n')) :
    lineRecords (c :: rest) = record [c] :: lineRecords rest := by
  rw [lineRecords, splitlines_break hc hcrlf, List.map_cons, lineRecords]

theorem lineRecords_plain (hc : isBreak c = false) :
    lineRecords (c :: rest) = consLine c (lineRecords rest) := by
  have hne := splitlines_ne_nil rest
  rw [lineRecords, splitlines_plain hc, lineRecords]
  rcases h : splitlines rest with _ | ⟨line, lines⟩ <;> rw [h] at hne
  · have hne' : c ≠ '\n' ∧ c ≠ '\r' := by
      constructor <;> rintro rfl <;> simp [isBreak] at hc
    have hlong : ¬ ['\r', '\n'] <:+ [c] := fun h => absurd h.length_le (by simp)
    simp [consLine, record, hne'.1, hne'.2, hlong]
  · simp [consLine, record_cons hc (hne line List.mem_cons_self)]

end Recursion

/-! ## Canonical lists of records -/

def Plain (s : Text) : Prop := ∀ c ∈ s, isBreak c = false

instance (s : Text) : Decidable (Plain s) :=
  inferInstanceAs (Decidable (∀ c ∈ s, isBreak c = false))

/-- The record begins a list that its text splits into: it ends with CR, LF or CRLF, and not with
the first half of a CRLF; or with another separator, which is in its content; or with the text. -/
def Begins (l : Line) (rest : List Line) : Prop :=
  (Plain l.1 ∧ (l.2 = ['\n'] ∨ l.2 = ['\r', '\n'] ∨ l.2 = ['\r'] ∧
    (joinLines rest).head? ≠ some '\n')) ∨
  (l.2 = [] ∧ ∃ init c, l.1 = init ++ [c] ∧ Plain init ∧ isUnusual c = true) ∨
  (l.2 = [] ∧ Plain l.1 ∧ l.1 ≠ [] ∧ rest = [])

def Canonical : List Line → Prop
  | [] => True
  | l :: rest => Begins l rest ∧ Canonical rest

section Canonical

variable {c : Char} {l : Line} {rest : List Line}

theorem plain_cons {s : Text} : Plain (c :: s) ↔ isBreak c = false ∧ Plain s := List.forall_mem_cons

theorem Begins.cons (hc : isBreak c = false) (h : Begins l rest) : Begins (c :: l.1, l.2) rest := by
  obtain ⟨hplain, hend⟩ | ⟨hnil, init, u, heq, hplain, hu⟩ | ⟨hnil, hplain, -, hrest⟩ := h
  · exact .inl ⟨plain_cons.mpr ⟨hc, hplain⟩, hend⟩
  · refine .inr (.inl ⟨hnil, c :: init, u, ?_, plain_cons.mpr ⟨hc, hplain⟩, hu⟩)
    rw [heq, List.cons_append]
  · exact .inr (.inr ⟨hnil, plain_cons.mpr ⟨hc, hplain⟩, List.cons_ne_nil _ _, hrest⟩)

theorem canonical_consLine (hc : isBreak c = false) : ∀ {records : List Line}, Canonical records →
    Canonical (consLine c records)
  | [], _ => ⟨.inr (.inr ⟨rfl, plain_cons.mpr ⟨hc, nofun⟩, List.cons_ne_nil _ _, rfl⟩), trivial⟩
  | (_, _) :: _, ⟨h, hrest⟩ => ⟨h.cons hc, hrest⟩

theorem isUnusual_of_break (hc : isBreak c = true) (hn : c ≠ '\n') (hr : c ≠ '\r') :
    isUnusual c = true :=
  ((isBreak_iff.mp hc).resolve_left hn).resolve_left hr

theorem record_singleton (c : Char) : record [c] =
    if c = '\n' then ([], ['\n']) else if c = '\r' then ([], ['\r']) else ([c], []) := by
  have hlong : ¬ ['\r', '\n'] <:+ [c] := fun h => absurd h.length_le (by simp)
  unfold record
  rw [if_neg hlong]
  simp

theorem canonical_lineRecords (s : Text) : Canonical (lineRecords s) := by
  induction s using lines_induction with
  | nil => trivial
  | crlf rest ih => exact ⟨.inl ⟨nofun, .inr (.inl rfl)⟩, ih⟩
  | brk c rest hc hcrlf ih =>
    rw [lineRecords_break hc hcrlf]
    refine ⟨?_, ih⟩
    rw [record_singleton]
    split
    · exact .inl ⟨nofun, .inl rfl⟩
    · next hn =>
      split
      · next hr =>
        refine .inl ⟨nofun, .inr (.inr ⟨rfl, ?_⟩)⟩
        rw [joinLines_lineRecords]
        exact fun h => hcrlf ⟨hr, h⟩
      · next hr => exact .inr (.inl ⟨rfl, [], c, rfl, nofun, isUnusual_of_break hc hn hr⟩)
  | plain c rest hc ih =>
    rw [lineRecords_plain hc]
    exact canonical_consLine hc ih

theorem lineRecords_plain_append {s : Text} (hs : Plain s) {t : Text} {l : Line} {lines : List Line}
    (h : lineRecords t = l :: lines) : lineRecords (s ++ t) = (s ++ l.1, l.2) :: lines := by
  induction s with
  | nil => exact h
  | cons c s ih =>
    obtain ⟨hc, hs⟩ := plain_cons.mp hs
    rw [List.cons_append, lineRecords_plain hc, ih hs]
    rfl

theorem lineRecords_of_plain : ∀ {s : Text}, Plain s → s ≠ [] → lineRecords s = [(s, [])]
  | [], _, hne => absurd rfl hne
  | [c], hs, _ => by rw [lineRecords_plain (plain_cons.mp hs).1]; rfl
  | c :: d :: s, hs, _ => by
    rw [lineRecords_plain (plain_cons.mp hs).1,
      lineRecords_of_plain (plain_cons.mp hs).2 (List.cons_ne_nil _ _)]
    rfl

/-- The first record of a canonical list is split off. -/
theorem lineRecords_begins (h : Begins l rest) :
    lineRecords (l.text ++ joinLines rest) = l :: lineRecords (joinLines rest) := by
  obtain ⟨hplain, hend⟩ | ⟨hnil, init, u, heq, hplain, hu⟩ | ⟨hnil, hplain, hne, hrest⟩ := h
  · rw [Line.text, List.append_assoc]
    have key : lineRecords (l.2 ++ joinLines rest) = ([], l.2) :: lineRecords (joinLines rest) := by
      obtain h2 | h2 | ⟨h2, hhead⟩ := hend <;> rw [h2]
      · exact lineRecords_break (by decide) (by simp)
      · exact lineRecords_crlf
      · exact lineRecords_break (by decide) (fun h => hhead h.2)
    rw [lineRecords_plain_append hplain key]
    simp
  · have hbreak : isBreak u = true := isBreak_iff.mpr (.inr (.inr hu))
    have hn : u ≠ '\n' := by rintro rfl; simp [isUnusual] at hu
    have hr : u ≠ '\r' := by rintro rfl; simp [isUnusual] at hu
    have key : lineRecords (u :: joinLines rest) = ([u], []) :: lineRecords (joinLines rest) := by
      rw [lineRecords_break hbreak (fun h => hr h.1), record_singleton, if_neg hn, if_neg hr]
    rw [Line.text, hnil, List.append_nil, heq, List.append_assoc, List.singleton_append,
      lineRecords_plain_append hplain key, ← heq, ← hnil]
  · subst hrest
    obtain ⟨content, ending⟩ := l
    obtain rfl : ending = [] := hnil
    rw [Line.text, joinLines, List.flatMap_nil, List.append_nil, List.append_nil,
      lineRecords_of_plain hplain hne]
    rfl

/-- **Records and their text.** A list of records is what its text splits into exactly when it is
canonical. -/
theorem lineRecords_joinLines {records : List Line} :
    lineRecords (joinLines records) = records ↔ Canonical records := by
  constructor
  · intro h
    rw [← h]
    exact canonical_lineRecords _
  · intro h
    induction records with
    | nil => rfl
    | cons l rest ih =>
      have hjoin : joinLines (l :: rest) = l.text ++ joinLines rest := List.flatMap_cons
      rw [hjoin, lineRecords_begins h.1, ih h.2]

/-- The records begin as they should before more records. -/
def CanonicalBefore (rest : List Line) : List Line → Prop
  | [] => True
  | l :: lines => Begins l (lines ++ rest) ∧ CanonicalBefore rest lines

theorem canonical_append {a b : List Line} :
    Canonical (a ++ b) ↔ CanonicalBefore b a ∧ Canonical b := by
  induction a with
  | nil => simp [CanonicalBefore]
  | cons l a ih =>
    rw [List.cons_append, Canonical, CanonicalBefore, ih, and_assoc]

theorem joinLines_append (a b : List Line) : joinLines (a ++ b) = joinLines a ++ joinLines b :=
  List.flatMap_append

theorem Begins.text_ne_nil (h : Begins l rest) : l.text ≠ [] := by
  obtain ⟨-, hend⟩ | ⟨hnil, init, u, heq, -, -⟩ | ⟨-, -, hne, -⟩ := h
  · obtain h2 | h2 | ⟨h2, -⟩ := hend <;> simp [Line.text, h2]
  · simp [Line.text, heq]
  · simp [Line.text, hne]

/-- A record that another list followed begins before this one as long as no CRLF comes about. -/
theorem begins_congr {other : List Line} (h : Begins l other) (hother : other ≠ []) :
    Begins l rest ↔ (l.2 = ['\r'] → (joinLines rest).head? ≠ some '\n') := by
  obtain ⟨hplain, hend⟩ | ⟨hnil, hsep⟩ | ⟨-, -, -, hrest⟩ := h
  · constructor
    · rintro (⟨-, h2 | h2 | ⟨-, hhead⟩⟩ | ⟨h2, -⟩ | ⟨h2, -⟩) hcr
      · rw [h2] at hcr; simp at hcr
      · rw [h2] at hcr; simp at hcr
      · exact hhead
      · rw [h2] at hcr; cases hcr
      · rw [h2] at hcr; cases hcr
    · intro hhead
      refine .inl ⟨hplain, ?_⟩
      obtain h2 | h2 | ⟨h2, -⟩ := hend
      · exact .inl h2
      · exact .inr (.inl h2)
      · exact .inr (.inr ⟨h2, hhead h2⟩)
  · refine iff_of_true (.inr (.inl ⟨hnil, hsep⟩)) fun hcr => ?_
    rw [hnil] at hcr
    cases hcr
  · exact absurd hrest hother

/-- Records keep their beginnings when what follows them changes, but for the last of them. -/
theorem canonicalBefore_congr {other : List Line} (hother : other ≠ []) : ∀ {lines : List Line},
    CanonicalBefore other lines →
      (CanonicalBefore rest lines ↔ ∀ l ∈ lines.getLast?, l.2 = ['\r'] →
        (joinLines rest).head? ≠ some '\n')
  | [], _ => by simp [CanonicalBefore]
  | [l], ⟨h, _⟩ => by
    simpa [CanonicalBefore] using begins_congr h (by simpa using hother)
  | l :: m :: lines, ⟨h, hm⟩ => by
    have hne : (m :: lines).flatMap Line.text ≠ [] := by
      rw [List.flatMap_cons]
      exact fun hnil => hm.1.text_ne_nil (List.append_eq_nil_iff.mp hnil).1
    have hl : Begins l (m :: lines ++ rest) := by
      rw [begins_congr h (by simp)]
      intro hcr
      have hiff : Begins l (m :: lines ++ other) ↔ _ := begins_congr h (by simp)
      have hsame := hiff.mp h hcr
      rw [joinLines_append, joinLines, List.head?_append_of_ne_nil _ hne] at hsame ⊢
      exact hsame
    rw [CanonicalBefore, canonicalBefore_congr hother hm, List.getLast?_cons_cons]
    exact and_iff_right hl

def IsEnding (e : Text) : Prop := e = ['\n'] ∨ e = ['\r', '\n'] ∨ e = ['\r']

theorem IsEnding.ne_nil {e : Text} (h : IsEnding e) : e ≠ [] := by
  rintro rfl
  rcases h with h | h | h <;> cases h

theorem Begins.ending (h : Begins l rest) : l.2 = [] ∨ IsEnding l.2 := by
  obtain ⟨-, h | h | ⟨h, -⟩⟩ | ⟨h, -⟩ | ⟨h, -⟩ := h
  · exact .inr (.inl h)
  · exact .inr (.inr (.inl h))
  · exact .inr (.inr (.inr h))
  · exact .inl h
  · exact .inl h

theorem Canonical.ending : ∀ {records : List Line}, Canonical records → ∀ l ∈ records, l.2 = [] ∨
    IsEnding l.2
  | [], _, _, h => nomatch h
  | _ :: _, ⟨hbegins, hrest⟩, l, hl => by
    obtain rfl | hl := List.mem_cons.mp hl
    · exact hbegins.ending
    · exact hrest.ending l hl

end Canonical

end Lib
