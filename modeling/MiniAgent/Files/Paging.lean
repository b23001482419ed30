import Mathlib.Data.List.Chain
import MiniAgent.Files.Lines

/-!
# Reading page by page

A caller of `read_file` that wants the whole file asks again where the last page says, or after its
lines. `readPages` makes these calls. Places of a text are strictly increasing, a page shows a run
of them, and the next call begins at the first place that is left (`rest_of_hint`, `rest_of_lines`);
so the pages together show each character once.
-/

namespace MiniAgent.Files

open Lib

/-! ## The calls -/

def Range.args (r : Range) : ReadArgs := ⟨.int r.startLine, .int r.maxLines, .int r.startColumn⟩

/-- The next call: where the hint says, else after the lines of this one, as long as there are
more. -/
def Range.next (r : Range) (st : Reader) : Option Range :=
  match st.continuation with
  | some (line, column) => some { r with startLine := line, startColumn := column }
  | none =>
    if r.startLine + r.maxLines ≤ st.totalLines then
      some { r with startLine := r.startLine + r.maxLines, startColumn := 1 }
    else none

/-- A page, with the range it was asked for and what the loop has left. -/
structure Page where
  range : Range
  text : Text
  st : Reader

/-- Page after page, at most `n`. -/
def readPages (env : Surroundings) (file : File) (s : Text) : Nat → Range → Option (List Page)
  | 0, _ => none
  | n + 1, r => match (readFile env r.args file).1 with
    | .error _ => none
    | .ok text => match r.next (Reader.run r s) with
      | none => some [⟨r, text, Reader.run r s⟩]
      | some r' => (readPages env file s n r').map (⟨r, text, Reader.run r s⟩ :: ·)

/-- A line of a body without its number. -/
def unnumberedLine (line : Text) : Text := (line.dropWhile Char.isDigit).drop 3

/-- A body without the prefixes of its lines. -/
def unnumbered (body : Text) : Text := (lfLines body).flatMap fun l => unnumberedLine l.text

/-- The text with normalised newlines, from a position on. -/
def textFrom (s : Text) (line column : Nat) : Text :=
  (((readRecords s).drop (line - 1)).flatMap Line.text).drop (column - 1)

/-! ## Places in order -/

section Order

variable {p q : Place} {line column : Nat} {t : Text}

def Place.Before (p q : Place) : Prop := p.line < q.line ∨ p.line = q.line ∧ p.column < q.column

/-- Whether a place is at a position or after it. -/
def Place.atOrAfter (line column : Nat) (p : Place) : Bool :=
  line < p.line || (line = p.line && column ≤ p.column)

theorem Place.atOrAfter_iff : p.atOrAfter line column = true ↔ line < p.line ∨
    line = p.line ∧ column ≤ p.column := by
  simp [Place.atOrAfter]

theorem number_from (line column : Nat) (t : Text) :
    ∀ p ∈ number line column t, p.atOrAfter line column = true := by
  induction t generalizing line column with
  | nil => simp [number]
  | cons c t ih =>
    intro p hp
    rw [number] at hp
    rcases List.mem_cons.mp hp with rfl | hp
    · exact Place.atOrAfter_iff.mpr (.inr ⟨rfl, Nat.le_refl _⟩)
    · rw [Place.atOrAfter_iff]
      split at hp
      · have := Place.atOrAfter_iff.mp (ih _ _ p hp)
        omega
      · have := Place.atOrAfter_iff.mp (ih _ _ p hp)
        omega

theorem pairwise_number (line column : Nat) (t : Text) :
    (number line column t).Pairwise Place.Before := by
  induction t generalizing line column with
  | nil => exact .nil
  | cons c t ih =>
    rw [number]
    refine .cons ?_ (by split <;> exact ih _ _)
    intro p hp
    split at hp
    · have := Place.atOrAfter_iff.mp (number_from _ _ _ p hp)
      simp only [Place.Before]
      omega
    · have := Place.atOrAfter_iff.mp (number_from _ _ _ p hp)
      simp only [Place.Before]
      omega

/-- From one of its places on, a text is that place and those after it. -/
theorem filter_from {before after : List Place} (h : (before ++ p :: after).Pairwise Place.Before) :
    (before ++ p :: after).filter (Place.atOrAfter p.line p.column) = p :: after := by
  obtain ⟨-, hafter, hbefore⟩ := List.pairwise_append.mp h
  rw [List.filter_append, List.filter_eq_nil_iff.mpr ?_, List.nil_append,
    List.filter_eq_self.mpr ?_]
  · intro q hq
    rcases List.mem_cons.mp hq with rfl | hq
    · exact Place.atOrAfter_iff.mpr (.inr ⟨rfl, Nat.le_refl _⟩)
    · have := (List.pairwise_cons.mp hafter).1 q hq
      rw [Place.atOrAfter_iff]
      rcases this with h | ⟨h, h'⟩
      · exact .inl h
      · exact .inr ⟨h, h'.le⟩
  · intro q hq
    have := hbefore q hq p List.mem_cons_self
    rw [Place.atOrAfter_iff]
    simp only [Place.Before] at this
    omega

/-- Lines up to `last`, then those after it. -/
theorem split_lines {places : List Place} (h : places.Pairwise Place.Before) (last : Nat) :
    places.filter (fun p => decide (p.line ≤ last)) ++
      places.filter (fun p => decide (last < p.line)) = places := by
  induction places with
  | nil => rfl
  | cons p places ih =>
    obtain ⟨hp, hrest⟩ := List.pairwise_cons.mp h
    by_cases hle : p.line ≤ last
    · rw [List.filter_cons_of_pos (by simpa using hle),
        List.filter_cons_of_neg (by simpa using hle), List.cons_append, ih hrest]
    · have hlater : ∀ q ∈ p :: places, last < q.line := by
        intro q hq
        rcases List.mem_cons.mp hq with rfl | hq
        · omega
        · have := hp q hq
          simp only [Place.Before] at this
          omega
      rw [List.filter_eq_nil_iff.mpr (fun q hq => by simpa using hlater q hq),
        List.filter_eq_self.mpr (fun q hq => by simpa using hlater q hq), List.nil_append]

/-- From a position on, a text is one of its ends. -/
theorem filter_suffix {places : List Place} (h : places.Pairwise Place.Before) (line column : Nat) :
    places.filter (Place.atOrAfter line column) <:+ places := by
  induction places with
  | nil => exact List.suffix_refl _
  | cons p places ih =>
    obtain ⟨hp, hrest⟩ := List.pairwise_cons.mp h
    by_cases hfrom : p.atOrAfter line column = true
    · have hall : ∀ q ∈ p :: places, q.atOrAfter line column = true := by
        intro q hq
        rcases List.mem_cons.mp hq with rfl | hq
        · exact hfrom
        · have hpq := hp q hq
          rw [Place.atOrAfter_iff] at hfrom ⊢
          simp only [Place.Before] at hpq
          omega
      exact ⟨[], List.filter_eq_self.mpr hall⟩
    · rw [List.filter_cons_of_neg hfrom]
      exact (ih hrest).trans (List.suffix_cons _ _)

end Order

/-! ## Bodies without numbers -/

section Bodies

variable {p q : Place} {t : Text}

/-- The place after a place. -/
def Place.Next (p q : Place) : Prop :=
  if p.char = '\n' then q.line = p.line + 1 else q.line = p.line

theorem isChain_number (line column : Nat) (t : Text) :
    (number line column t).IsChain Place.Next := by
  induction t generalizing line column with
  | nil => exact .nil
  | cons c t ih =>
    have hrest := ih (if c = '\n' then line + 1 else line) (if c = '\n' then 1 else column + 1)
    have hnumber : (if c = '\n' then number (line + 1) 1 t else number line (column + 1) t) =
        number (if c = '\n' then line + 1 else line) (if c = '\n' then 1 else column + 1) t := by
          split <;> rfl
    rw [number, hnumber]
    cases t with
    | nil => exact .singleton _
    | cons d t =>
      rw [number] at hrest ⊢
      refine .cons_cons ?_ hrest
      simp only [Place.Next]
      split <;> rfl

theorem lfLines_line {u : Text} (hu : '\n' ∉ u) (t : Text) :
    lfLines (u ++ '\n' :: t) = (u, ['\n']) :: lfLines t := by
  induction u with
  | nil => simp [lfLines]
  | cons c u ih =>
    obtain ⟨hc, hu⟩ := List.ne_and_not_mem_of_not_mem_cons hu
    rw [List.cons_append, lfLines, if_neg hc.symm, ih hu, consLine]

theorem lfLines_last {u : Text} (hu : '\n' ∉ u) (hne : u ≠ []) : lfLines u = [(u, [])] := by
  induction u with
  | nil => exact absurd rfl hne
  | cons c u ih =>
    obtain ⟨hc, hu⟩ := List.ne_and_not_mem_of_not_mem_cons hu
    rw [lfLines, if_neg hc.symm]
    cases u with
    | nil => rfl
    | cons d u => rw [ih hu (List.cons_ne_nil _ _), consLine]

theorem linePrefix_eq (n : Nat) : linePrefix n = Nat.toDigits 10 n ++ [' ', '|', ' '] := by
  simp [linePrefix, toString]

theorem isDigit_of_mem_toDigits {n : Nat} {c : Char} (h : c ∈ Nat.toDigits 10 n) :
    c.isDigit = true :=
  Nat.isDigit_of_mem_toDigits (by omega) (by omega) h

theorem newline_not_mem_linePrefix (n : Nat) : '\n' ∉ linePrefix n := by
  rw [linePrefix_eq, List.mem_append, not_or]
  refine ⟨fun h => absurd (isDigit_of_mem_toDigits h) (by decide), by decide⟩

theorem unnumberedLine_append (n : Nat) (u : Text) : unnumberedLine (linePrefix n ++ u) = u := by
  rw [unnumberedLine, linePrefix_eq, List.append_assoc, List.dropWhile_append_of_pos fun c hc =>
    isDigit_of_mem_toDigits hc]
  rfl

theorem unnumbered_line {u : Text} (hu : '\n' ∉ u) (n : Nat) (t : Text) :
    unnumbered (linePrefix n ++ u ++ '\n' :: t) = u ++ '\n' :: unnumbered t := by
  have hline : '\n' ∉ linePrefix n ++ u := by
    rw [List.mem_append, not_or]
    exact ⟨newline_not_mem_linePrefix n, hu⟩
  rw [unnumbered, lfLines_line hline, List.flatMap_cons, Line.text, List.append_assoc,
    unnumberedLine_append, List.append_assoc]
  rfl

theorem unnumbered_last {u : Text} (hu : '\n' ∉ u) (n : Nat) :
    unnumbered (linePrefix n ++ u) = u := by
  have hline : '\n' ∉ linePrefix n ++ u := by
    rw [List.mem_append, not_or]
    exact ⟨newline_not_mem_linePrefix n, hu⟩
  have hne : linePrefix n ++ u ≠ [] := by simp [linePrefix_eq]
  rw [unnumbered, lfLines_last hline hne, List.flatMap_cons, List.flatMap_nil,
    Line.text, List.append_nil, List.append_nil,
    unnumberedLine_append]

/-- A new line begins with its number. -/
theorem render_new {last : Option Nat} {places : List Place} (hlast : last ≠ some p.line) :
    (render last (p :: places)).flatten = linePrefix p.line ++
      (render (some p.line) (p :: places)).flatten := by
  rw [render, render, if_pos hlast, if_neg (not_not.mpr rfl), List.flatten_cons,
    List.flatten_cons, List.append_assoc,
    List.nil_append]

theorem unnumbered_rest {places : List Place} (hchain : places.IsChain Place.Next) (n : Nat)
    (u : Text) (hu : '\n' ∉ u) (hhead : ∀ p ∈ places.head?, p.line = n) :
    unnumbered (linePrefix n ++ u ++ (render (some n) places).flatten) =
      u ++ places.map Place.char := by
  induction places generalizing n u with
  | nil =>
    rw [render, List.flatten_nil, List.append_nil, unnumbered_last hu, List.map_nil,
      List.append_nil]
  | cons p places ih =>
    obtain rfl : p.line = n := hhead p rfl
    have hrest : places.IsChain Place.Next := hchain.of_cons
    rw [render, if_neg (not_not.mpr rfl), List.nil_append, List.flatten_cons,
      List.singleton_append, List.map_cons]
    by_cases hc : p.char = '\n'
    · -- the line ends, and the next one begins with its number
      rw [hc, unnumbered_line hu]
      cases places with
      | nil => rfl
      | cons q places =>
        have hnext : q.line = p.line + 1 := by
          have hpq : Place.Next p q := (List.isChain_cons_cons.mp hchain).1
          rwa [Place.Next, if_pos hc] at hpq
        have hnew : some p.line ≠ some q.line := by
          rw [hnext]
          simp
        rw [render_new hnew]
        have := ih hrest q.line [] (by simp) (by simp)
        rw [List.append_nil] at this
        rw [this, List.nil_append]
    · have hu' : '\n' ∉ u ++ [p.char] := by
        rw [List.mem_append, not_or, List.mem_singleton]
        exact ⟨hu, Ne.symm hc⟩
      have hsame : ∀ q ∈ places.head?, q.line = p.line := by
        intro q hq
        cases places with
        | nil => cases hq
        | cons r places =>
          cases hq
          have hpq : Place.Next p q := (List.isChain_cons_cons.mp hchain).1
          rwa [Place.Next, if_neg hc] at hpq
      have := ih hrest p.line (u ++ [p.char]) hu' hsame
      rw [← List.append_assoc, List.append_assoc _ [p.char] _, List.singleton_append] at this
      rw [this, List.append_assoc, List.singleton_append]

/-- **A body without its numbers is the characters it shows.** -/
theorem unnumbered_body {places : List Place} (hchain : places.IsChain Place.Next) :
    unnumbered (render none places).flatten = places.map Place.char := by
  cases places with
  | nil => rfl
  | cons p places =>
    have hnew : none ≠ some p.line := Option.some_ne_none _ |>.symm
    have := unnumbered_rest hchain p.line [] (by simp) (by simp)
    rw [List.append_nil, List.nil_append] at this
    rw [render_new hnew, this]

end Bodies

/-! ## Places and lines -/

section Places

variable {p : Place} {l : Line} {lines : List Line} {s t : Text} {line column first : Nat}

theorem columns_char (line column : Nat) (t : Text) :
    (columns line column t).map Place.char = t := by
  induction t generalizing column with
  | nil => rfl
  | cons c t ih => rw [columns, List.map_cons, ih]

theorem placesOf_char (first : Nat) (lines : List Line) :
    (placesOf first lines).map Place.char = lines.flatMap Line.text := by
  induction lines generalizing first with
  | nil => rfl
  | cons l lines ih => rw [placesOf, List.map_append, columns_char, ih, List.flatMap_cons]

theorem mem_columns {start : Nat} :
    p ∈ columns line start t ↔ p.line = line ∧ start ≤ p.column ∧
    t[p.column - start]? = some p.char := by
  induction t generalizing start with
  | nil => simp [columns]
  | cons c t ih =>
    rw [columns, List.mem_cons, ih]
    constructor
    · rintro (rfl | ⟨hline, hstart, hchar⟩)
      · simp
      · refine ⟨hline, by omega, ?_⟩
        rwa [show p.column - start = p.column - (start + 1) + 1 by omega, List.getElem?_cons_succ]
    · rintro ⟨rfl, hstart, hchar⟩
      by_cases heq : start = p.column
      · subst heq
        rw [Nat.sub_self, List.getElem?_cons_zero, Option.some_inj] at hchar
        subst hchar
        exact .inl rfl
      · refine .inr ⟨rfl, by omega, ?_⟩
        rwa [show p.column - start = p.column - (start + 1) + 1 by
          omega, List.getElem?_cons_succ] at hchar

/-- Where a place of the lines is. -/
theorem mem_placesOf : p ∈ placesOf first lines ↔
    first ≤ p.line ∧ 1 ≤ p.column ∧ ∃ l, lines[p.line - first]? = some l ∧
      l.text[p.column - 1]? = some p.char := by
  induction lines generalizing first with
  | nil => simp [placesOf]
  | cons l lines ih =>
    rw [placesOf, List.mem_append, mem_columns, @ih (first + 1)]
    constructor
    · rintro (⟨rfl, hcolumn, hchar⟩ | ⟨hline, hcolumn, m, hm, hchar⟩)
      · exact ⟨Nat.le_refl _, hcolumn, l, by simp, hchar⟩
      · refine ⟨by omega, hcolumn, m, ?_, hchar⟩
        rwa [show p.line - first = p.line - (first + 1) + 1 by omega, List.getElem?_cons_succ]
    · rintro ⟨hline, hcolumn, m, hm, hchar⟩
      by_cases heq : first = p.line
      · subst heq
        rw [Nat.sub_self, List.getElem?_cons_zero, Option.some_inj] at hm
        subst hm
        exact .inl ⟨rfl, hcolumn, hchar⟩
      · refine .inr ⟨by omega, hcolumn, m, ?_, hchar⟩
        rwa [show p.line - first = p.line - (first + 1) + 1 by omega, List.getElem?_cons_succ] at hm

theorem columns_from (line : Nat) {start column : Nat} (h : start ≤ column) (t : Text) :
    ((columns line start t).filter (Place.atOrAfter line column)).map Place.char =
      t.drop (column - start) := by
  induction t generalizing start with
  | nil => simp [columns]
  | cons c t ih =>
    by_cases hstart : start = column
    · subst hstart
      have hall : ∀ p ∈ columns line start (c :: t), Place.atOrAfter line start p = true := by
        intro p hp
        obtain ⟨hline, hcolumn, -⟩ := mem_columns.mp hp
        exact Place.atOrAfter_iff.mpr (.inr ⟨hline.symm, hcolumn⟩)
      rw [List.filter_eq_self.mpr hall, columns_char, Nat.sub_self, List.drop_zero]
    · have hnot : ¬ Place.atOrAfter line column ⟨line, start, c⟩ = true := by
        rw [Place.atOrAfter_iff]
        simp only
        omega
      rw [columns, List.filter_cons_of_neg hnot, ih (by omega),
        show column - start = column - (start + 1) + 1 by omega,
        List.drop_succ_cons]

theorem placesOf_from (hfirst : first ≤ line) (hcolumn : 1 ≤ column)
    (hshort : ∀ l ∈ lines[line - first]?, column ≤ l.text.length + 1) :
    ((placesOf first lines).filter (Place.atOrAfter line column)).map Place.char =
      ((lines.drop (line - first)).flatMap Line.text).drop (column - 1) := by
  induction lines generalizing first with
  | nil => simp [placesOf]
  | cons l lines ih =>
    rw [placesOf, List.filter_append, List.map_append]
    by_cases heq : first = line
    · subst heq
      rw [Nat.sub_self] at hshort ⊢
      have hlen : column ≤ l.text.length + 1 := hshort l rfl
      have hrest : ∀ p ∈ placesOf (first + 1) lines, Place.atOrAfter first column p = true := by
        intro p hp
        exact Place.atOrAfter_iff.mpr (.inl (mem_placesOf.mp hp).1)
      rw [columns_from first hcolumn, List.filter_eq_self.mpr hrest, placesOf_char,
        List.drop_zero, List.flatMap_cons,
        List.drop_append_of_le_length (by omega)]
    · have hskip : ∀ p ∈ columns first 1 l.text, ¬ Place.atOrAfter line column p = true := by
        intro p hp
        obtain ⟨hline, -, -⟩ := mem_columns.mp hp
        rw [Place.atOrAfter_iff]
        omega
      have hstep : line - first = line - (first + 1) + 1 := by omega
      rw [List.filter_eq_nil_iff.mpr hskip, List.map_nil, List.nil_append,
        hstep, List.drop_succ_cons]
      refine ih (by omega) fun m hm => hshort m ?_
      rwa [hstep, List.getElem?_cons_succ]

/-- Every line but the last ends with a newline, and the last may. -/
theorem lfLines_ending (t : Text) : ∀ i l, (lfLines t)[i]? = some l →
    l.2.length ≤ 1 ∧ l.text ≠ [] ∧ (i + 1 < (lfLines t).length → l.2 = ['\n']) := by
  induction t with
  | nil => simp [lfLines]
  | cons c t ih =>
    intro i l hl
    rw [lfLines] at hl ⊢
    split at hl
    · next hc =>
      rw [if_pos hc]
      cases i with
      | zero =>
        cases hl
        exact ⟨by decide, by simp [Line.text], fun _ => rfl⟩
      | succ i =>
        obtain ⟨hlen, hne, hmore⟩ := ih i l hl
        refine ⟨hlen, hne, fun hi => hmore ?_⟩
        simpa using hi
    · next hc =>
      rw [if_neg hc]
      rcases hlines : lfLines t with _ | ⟨⟨content, ending⟩, lines⟩
      · rw [hlines, consLine] at hl
        cases i with
        | zero =>
          cases hl
          exact ⟨by simp, by simp [Line.text], fun h => absurd h (by simp [consLine])⟩
        | succ i => cases hl
      · rw [hlines] at ih hl
        rw [consLine] at hl ⊢
        cases i with
        | zero =>
          cases hl
          obtain ⟨hlen, -, hmore⟩ := ih 0 _ rfl
          exact ⟨hlen, by simp [Line.text], fun hi => hmore (by simpa using hi)⟩
        | succ i =>
          obtain ⟨hlen, hne, hmore⟩ := ih (i + 1) l hl
          exact ⟨hlen, hne, fun hi => hmore (by simpa using hi)⟩

/-- What the loop counts of the line it starts with. -/
theorem Reader.startLineLength_foldl (r : Range) (st : Reader) (t : Text) :
    (t.foldl (Reader.step r) st).startLineLength = st.startLineLength +
      if st.lineNumber ≤ r.startLine then
        ((lfLines t)[r.startLine - st.lineNumber]?.getD ([], [])).1.length
      else 0 := by
  induction t generalizing st with
  | nil => simp [lfLines]
  | cons c t ih =>
    obtain ⟨hline, -⟩ := st.step_place r c
    have hcount : (st.step r c).startLineLength =
        if st.lineNumber = r.startLine ∧ c ≠ '\n' then st.startLineLength + 1
          else st.startLineLength := by
      simp only [Reader.step, Reader.advance, Reader.put]
      split_ifs <;> rfl
    rw [List.foldl_cons, ih, hcount, hline, lfLines]
    by_cases hc : c = '\n'
    · rw [if_pos hc, if_pos hc, if_neg (by tauto)]
      by_cases hlt : st.lineNumber + 1 ≤ r.startLine
      · rw [if_pos hlt, if_pos (by omega), show r.startLine - st.lineNumber =
          r.startLine - (st.lineNumber + 1) + 1 by omega,
          List.getElem?_cons_succ]
      · rw [if_neg hlt]
        split
        · next hle => simp [show r.startLine - st.lineNumber = 0 by omega]
        · rfl
    · rw [if_neg hc, if_neg hc]
      by_cases heq : st.lineNumber = r.startLine
      · rw [if_pos ⟨heq, hc⟩, if_pos heq.le, heq, Nat.sub_self]
        rcases lfLines t with _ | ⟨⟨content, ending⟩, lines⟩ <;> simp [consLine]
        omega
      · rw [if_neg (by tauto)]
        split
        · rw [show r.startLine - st.lineNumber = r.startLine - st.lineNumber - 1 + 1 by omega]
          rcases lfLines t with _ | ⟨⟨content, ending⟩, lines⟩ <;> simp [consLine]
        · rfl

theorem Reader.run_startLineLength {r : Range} (h : 1 ≤ r.startLine) (s : Text) :
    (Reader.run r s).startLineLength =
      ((readRecords s)[r.startLine - 1]?.getD ([], [])).1.length := by
  rw [Reader.run_eq, Reader.startLineLength_foldl,
    if_pos (show Reader.start.lineNumber ≤ r.startLine from h)]
  exact Nat.zero_add _

end Places

/-! ## One page -/

/-- A call that `read_file` accepts. -/
structure Range.Accepted (r : Range) (s : Text) : Prop where
  line : 1 ≤ r.startLine
  lines : 1 ≤ r.maxLines
  bounded : (r.maxLines : Int) ≤ maxReadLines
  column : 1 ≤ r.startColumn
  short : ∀ line ∈ (readLines s)[r.startLine - 1]?, r.startColumn ≤ line.length + 1

/-- A file that can be read. -/
structure Readable (env : Surroundings) (file : File) (path : String) (s : Text) : Prop where
  resolved : env.path = .ok path
  found : file.isFile = true
  intact : env.fault = none
  decoded : file.text = some s

section Page

variable {env : Surroundings} {file : File} {path : String} {s : Text} {r r' : Range} {p : Place}

theorem validateInteger_nat (name : String) {n : Nat} {minimum : Int} {maximum : Option Int}
    (hmin : minimum ≤ n) (hmax : ∀ m ∈ maximum, (n : Int) ≤ m) :
    validateInteger name (.int n) minimum maximum = .ok (n : Int) := by
  unfold validateInteger
  dsimp only
  rw [if_neg]
  rintro (hlt | ⟨m, hm, hlt⟩)
  · omega
  · have := hmax m hm
    omega

theorem Range.Accepted.check (h : r.Accepted s) : r.args.check = .ok r := by
  have hline : validateInteger "start_line" (.int r.startLine) 1 none = .ok (r.startLine : Int) :=
    validateInteger_nat _ (by exact_mod_cast h.line) (by simp)
  have hlines : validateInteger "max_lines" (.int r.maxLines) 1 (some maxReadLines) =
      .ok (r.maxLines : Int) :=
    validateInteger_nat _ (by exact_mod_cast h.lines) (by simpa using h.bounded)
  have hcolumn : validateInteger "start_column" (.int r.startColumn) 1 none =
      .ok (r.startColumn : Int) :=
    validateInteger_nat _ (by exact_mod_cast h.column) (by simp)
  rw [ReadArgs.check, Range.args, hline]
  show Except.bind _ _ = _
  rw [hlines]
  show Except.bind _ _ = _
  rw [hcolumn]
  rfl

theorem readFile_accepted (hfile : Readable env file path s) (h : r.Accepted s) :
    (readFile env r.args file).1 = .ok (((Reader.run r s).header r path).toList ++
      ['\n'] ++ (Reader.run r s).body ++
      (Reader.run r s).footer) := by
  have hcolumn : ¬ (r.startLine ≤ (Reader.run r s).totalLines ∧
      (Reader.run r s).startLineLength + 1 < r.startColumn) := by
    rintro ⟨hline, hlong⟩
    rw [Reader.run_totalLines, readLines, List.length_map] at hline
    rw [Reader.run_startLineLength h.line] at hlong
    have hlt : r.startLine - 1 < (readRecords s).length := by
      have := h.line
      omega
    have hshort := h.short ((readRecords s)[r.startLine - 1].1)
      (by simp [readLines, List.getElem?_eq_getElem hlt])
    rw [List.getElem?_eq_getElem hlt, Option.getD_some] at hlong
    omega
  have hcheck : (Call.ofExcept r.args.check : Tool Range) file = (.ok r, file) := by
    rw [h.check]; rfl
  have hpath : (Call.ofExcept env.path : Tool String) file = (.ok path, file) := by
    rw [hfile.resolved]; rfl
  have hread : (Call.read id : Tool File) file = (.ok file, file) := rfl
  rw [readFile, Call.bind_of_ok hcheck, Call.bind_of_ok hpath, Call.bind_of_ok hread,
    if_neg (by simp [hfile.found]),
    hfile.intact]
  dsimp only
  rw [Call.bind_of_ok (readRaw_ok hfile.decoded)]
  show (Reader.run r s).page r path = _
  rw [Reader.page, if_neg hcolumn]

/-- The places that are left to a call. -/
def Range.rest (r : Range) (s : Text) : List Place :=
  (number 1 1 (normaliseNewlines s)).filter (Place.atOrAfter r.startLine r.startColumn)

theorem Range.places_eq (r : Range) (s : Text) :
    r.places 1 1 (normaliseNewlines s) = (r.rest s).filter fun p =>
      decide (p.line ≤ r.lastSelectedLine) := by
  rw [Range.places, Range.rest, List.filter_filter]
  refine List.filter_congr fun p _ => ?_
  rw [Bool.eq_iff_iff]
  simp only [Range.selects, Place.atOrAfter, Bool.and_eq_true, Bool.or_eq_true, decide_eq_true_eq]
  omega

theorem Range.pairwise_rest (r : Range) (s : Text) : (r.rest s).Pairwise Place.Before :=
  (pairwise_number 1 1 _).filter _

/-- What a page shows, and what its hint is. -/
theorem run_shows (r : Range) (s : Text) :
    let places := r.places 1 1 (normaliseNewlines s)
    let shown := room 0 (render none places)
    (Reader.run r s).body = (render none (places.take shown)).flatten ∧
    (Reader.run r s).continuation = places[shown]?.map fun p => (p.line, p.column) := by
  have hrun := @Reader.run_page r _ rfl (by simp [Reader.start] :
    ∀ m ∈ Reader.start.prefixedLine, m ≤ Reader.start.lineNumber)
    (normaliseNewlines s)
  rw [← Reader.run_eq] at hrun
  exact hrun

/-- A place of the text is in one of its lines, or on the newline after it. -/
theorem place_of_text (hp : p ∈ number 1 1 (normaliseNewlines s)) :
    1 ≤ p.line ∧ p.line ≤ (readLines s).length ∧ 1 ≤ p.column ∧
    ∀ line ∈ (readLines s)[p.line - 1]?, p.column ≤ line.length + 1 := by
  rw [number_placesOf] at hp
  obtain ⟨hline, hcolumn, l, hl, hchar⟩ := mem_placesOf.mp hp
  obtain ⟨hlt, -⟩ := List.getElem?_eq_some_iff.mp hl
  obtain ⟨hin, -⟩ := List.getElem?_eq_some_iff.mp hchar
  obtain ⟨hending, -⟩ := lfLines_ending _ _ _ hl
  rw [Line.text, List.length_append] at hin
  refine ⟨hline, ?_, hcolumn, ?_⟩
  · rw [readLines, List.length_map]
    omega
  · intro line hmem
    rw [readLines, List.getElem?_map, hl] at hmem
    cases hmem
    omega

theorem Range.mem_rest : p ∈ r.rest s ↔
    p ∈ number 1 1 (normaliseNewlines s) ∧
    (r.startLine < p.line ∨ r.startLine = p.line ∧ r.startColumn ≤ p.column) := by
  rw [Range.rest, List.mem_filter, Place.atOrAfter_iff]

theorem Range.isChain_rest (r : Range) (s : Text) : (r.rest s).IsChain Place.Next := by
  obtain ⟨before, hbefore⟩ := filter_suffix (pairwise_number 1 1 (normaliseNewlines s))
    r.startLine r.startColumn
  have hchain := isChain_number 1 1 (normaliseNewlines s)
  rw [← hbefore] at hchain
  exact hchain.right_of_append

/-- What is left to a later call, of what is left to an earlier one. -/
theorem Range.rest_of_later (h : ∀ p : Place, p.atOrAfter r'.startLine r'.startColumn = true →
    p.atOrAfter r.startLine r.startColumn = true) :
    r'.rest s = (r.rest s).filter (Place.atOrAfter r'.startLine r'.startColumn) := by
  rw [Range.rest, Range.rest, List.filter_filter]
  refine List.filter_congr fun p _ => ?_
  rw [Bool.eq_iff_iff, Bool.and_eq_true]
  exact ⟨fun hp => ⟨hp, h p hp⟩, And.left⟩

/-- **The call at the first place that a page leaves.** -/
theorem rest_of_hint {before after : List Place} (h : r.rest s = before ++ p :: after) :
    Range.rest { r with startLine := p.line, startColumn := p.column } s = p :: after := by
  have hp : p ∈ r.rest s := by simp [h]
  obtain ⟨-, hfrom⟩ := Range.mem_rest.mp hp
  rw [@Range.rest_of_later s r { r with startLine := p.line, startColumn := p.column }, h]
  · exact filter_from (h ▸ r.pairwise_rest s)
  · intro q hq
    rw [Place.atOrAfter_iff] at hq ⊢
    simp only at hq
    omega

/-- **The call after the lines of a page.** -/
theorem rest_of_lines (h : r.Accepted s) :
    Range.rest { r with startLine := r.startLine + r.maxLines, startColumn := 1 } s =
      (r.rest s).filter fun p => decide (r.lastSelectedLine < p.line) := by
  have hlines := h.lines
  rw [@Range.rest_of_later s r { r with startLine := r.startLine + r.maxLines, startColumn := 1 }]
  · refine List.filter_congr fun p hp => ?_
    obtain ⟨-, -, hcolumn, -⟩ := place_of_text (Range.mem_rest.mp hp).1
    rw [Bool.eq_iff_iff, Place.atOrAfter_iff, decide_eq_true_eq, Range.lastSelectedLine]
    dsimp only
    omega
  · intro p hp
    rw [Place.atOrAfter_iff] at hp ⊢
    simp only at hp
    omega

theorem line_of_number {line column : Nat} {t : Text} :
    ∀ p ∈ number line column t, p.line < line + t.length := by
  induction t generalizing line column with
  | nil => intro p hp; cases hp
  | cons c t ih =>
    intro p hp
    rw [List.length_cons]
    rw [number] at hp
    rcases List.mem_cons.mp hp with rfl | hp
    · exact Nat.lt_add_of_pos_right (Nat.succ_pos _)
    · split at hp
      · exact Nat.lt_of_lt_of_eq (ih p hp) (by omega)
      · exact Nat.lt_of_lt_of_le (ih p hp) (by omega)

theorem length_normaliseNewlines_le (s : Text) : (normaliseNewlines s).length ≤ s.length := by
  fun_induction normaliseNewlines s with
  | case1 => exact Nat.le_refl _
  | case2 rest ih => simp only [List.length_cons]; omega
  | case3 rest _ ih => simp only [List.length_cons]; omega
  | case4 c rest _ _ ih => simp only [List.length_cons]; omega

/-- The prefix of a line leaves room for more than its first character. -/
theorem Numbered.prefix_lt (h : Numbered s) (hp : p ∈ number 1 1 (normaliseNewlines s)) :
    (linePrefix p.line).length < maxOutputChars := by
  have hline : p.line ≤ s.length + 1 := by
    have hlt := line_of_number p hp
    have hle := length_normaliseNewlines_le s
    omega
  have hmono := linePrefix_mono hline
  have hdigits : (linePrefix (s.length + 1)).length ≤ maxStrDigits + 3 := by
    rw [linePrefix_eq, List.length_append]
    exact Nat.add_le_add_right h 3
  exact Nat.lt_of_le_of_lt (hmono.trans hdigits) (by decide)

/-- A page has room for a line's first character. -/
theorem room_pos {places : List Place} (hne : places ≠ [])
    (hnumbers : ∀ p ∈ places, (linePrefix p.line).length < maxOutputChars) :
    0 < room 0 (render none places) := by
  cases places with
  | nil => exact absurd rfl hne
  | cons p places =>
    have hnew : none ≠ some p.line := Option.some_ne_none _ |>.symm
    have hp := hnumbers p List.mem_cons_self
    rw [render, room, if_pos hnew,
      if_pos (by rw [List.length_append, List.length_singleton]; omega)]
    exact Nat.succ_pos _

/-- A line of the range with another one after it ends in the range. -/
theorem places_ne_nil (h : r.Accepted s) (hmore : r.startLine + r.maxLines ≤ (readLines s).length) :
    r.places 1 1 (normaliseNewlines s) ≠ [] := by
  have hline := h.line
  have hlines := h.lines
  rw [readLines, List.length_map] at hmore
  have hlt : r.startLine - 1 < (readRecords s).length := by omega
  have hget : (readRecords s)[r.startLine - 1]? = some (readRecords s)[r.startLine - 1] :=
    List.getElem?_eq_getElem hlt
  generalize (readRecords s)[r.startLine - 1] = l at hget
  obtain ⟨-, -, hending⟩ := lfLines_ending _ _ _ hget
  have hnewline : l.2 = ['\n'] := hending (by rw [← readRecords]; omega)
  have hshort : r.startColumn ≤ l.1.length + 1 :=
    h.short l.1 (by rw [readLines, List.getElem?_map, hget]; rfl)
  have hmem : (⟨r.startLine, l.1.length + 1, '\n'⟩ : Place) ∈ r.rest s := by
    rw [Range.mem_rest, number_placesOf, mem_placesOf]
    refine ⟨⟨hline, Nat.succ_pos _, l, hget, ?_⟩, .inr ⟨rfl, hshort⟩⟩
    simp [Line.text, hnewline]
  have hplace : (⟨r.startLine, l.1.length + 1, '\n'⟩ : Place) ∈ r.places
      1 1 (normaliseNewlines s) := by
    rw [Range.places_eq, List.mem_filter, decide_eq_true_eq, Range.lastSelectedLine]
    exact ⟨hmem, by dsimp only; omega⟩
  exact List.ne_nil_of_mem hplace

/-- **One page**: its body shows the first places of what is left, and the next call is one for the
others. -/
theorem page_step (h : r.Accepted s) (hnumbered : Numbered s) :
    ∃ shown : List Place, unnumbered (Reader.run r s).body = shown.map Place.char ∧
      match r.next (Reader.run r s) with
      | none => r.rest s = shown
      | some r' => r'.Accepted s ∧ shown ≠ [] ∧ r.rest s = shown ++ r'.rest s := by
  obtain ⟨hbody, hcont⟩ := run_shows r s
  have hsplit := split_lines (r.pairwise_rest s) r.lastSelectedLine
  rw [← Range.places_eq] at hsplit
  have hmem : ∀ p ∈ r.places 1 1 (normaliseNewlines s), p ∈ r.rest s := by
    intro p hp
    rw [← hsplit]
    exact List.mem_append_left _ hp
  have hnumbers : ∀ p ∈ r.places 1 1 (normaliseNewlines s), (linePrefix p.line).length <
      maxOutputChars := fun p hp =>
    hnumbered.prefix_lt (Range.mem_rest.mp (hmem p hp)).1
  have hpos := @room_pos (r.places 1 1 (normaliseNewlines s))
  have hplaces := places_ne_nil h
  generalize r.places 1 1 (normaliseNewlines s) = places at *
  generalize room 0 (render none places) = k at hbody hcont hpos
  have hchain : (places.take k).IsChain Place.Next := by
    have hrest := r.isChain_rest s
    rw [← hsplit] at hrest
    exact hrest.left_of_append.take k
  refine ⟨places.take k, by rw [hbody, unnumbered_body hchain], ?_⟩
  rcases hk : places[k]? with _ | p
  · -- no hint: the page shows all of its lines
    rw [hk, Option.map_none] at hcont
    have hall : places.take k = places := List.take_of_length_le (List.getElem?_eq_none_iff.mp hk)
    have hlater := rest_of_lines h
    rw [hall, Range.next, hcont, Reader.run_totalLines]
    dsimp only
    split
    · next r' hnext =>
      split at hnext
      · cases hnext
      · next hlast =>
        -- no place comes after the last line
        have hnone : (r.rest s).filter (fun p => decide (r.lastSelectedLine < p.line)) = [] := by
          refine List.filter_eq_nil_iff.mpr fun p hp => ?_
          obtain ⟨-, htotal, -⟩ := place_of_text (Range.mem_rest.mp hp).1
          rw [decide_eq_true_eq, Range.lastSelectedLine]
          omega
        rw [hnone, List.append_nil] at hsplit
        exact hsplit.symm
    · next r' hnext =>
      split at hnext
      · next hmore =>
        cases hnext
        refine ⟨⟨?_, h.lines, h.bounded, Nat.le_refl _, ?_⟩, hplaces hmore, ?_⟩
        · exact Nat.le_add_right_of_le h.line
        · exact fun _ _ => Nat.le_add_left _ _
        · rw [hlater, hsplit]
      · cases hnext
  · -- the hint is the first place that is not shown
    rw [hk, Option.map_some] at hcont
    obtain ⟨hlt, hget⟩ := List.getElem?_eq_some_iff.mp hk
    have hrest : r.rest s = places.take k ++ p :: (places.drop (k + 1) ++ (r.rest s).filter fun p =>
        decide (r.lastSelectedLine < p.line)) := by
      rw [← List.cons_append, ← hget, ← List.drop_eq_getElem_cons hlt, ← List.append_assoc,
        List.take_append_drop, hsplit]
    have hp : p ∈ r.rest s := hmem p (hget ▸ List.getElem_mem hlt)
    obtain ⟨hline, -, hcolumn, hshort⟩ := place_of_text (Range.mem_rest.mp hp).1
    rw [Range.next, hcont]
    dsimp only
    refine ⟨⟨hline, h.lines, h.bounded, hcolumn, hshort⟩, ?_, ?_⟩
    · have hk0 : 0 < k := hpos (List.ne_nil_of_length_pos (Nat.zero_lt_of_lt hlt)) hnumbers
      exact List.ne_nil_of_length_pos (by rw [List.length_take]; omega)
    · rw [rest_of_hint hrest]
      exact hrest

theorem Range.rest_char (h : r.Accepted s) :
    (r.rest s).map Place.char = textFrom s r.startLine r.startColumn := by
  rw [Range.rest, number_placesOf, textFrom]
  refine placesOf_from h.line h.column fun l hl => ?_
  have hshort : r.startColumn ≤ l.1.length + 1 :=
    h.short l.1 (by rw [readLines, List.getElem?_map, hl]; rfl)
  rw [Line.text, List.length_append]
  omega

end Page

/-! ## All pages -/

/-- What the pages from a call on give: each is the text of a call, each but the last shows
something, and together they show the text from the start of the call on. -/
structure Reconstructs (path : String) (s : Text) (r : Range) (pages : List Page) : Prop where
  text : ∀ p ∈ pages, p.text = (p.st.header p.range path).toList ++ ['\n'] ++
    p.st.body ++ p.st.footer
  progress : ∀ p ∈ pages.dropLast, unnumbered p.st.body ≠ []
  whole : (pages.flatMap fun p => unnumbered p.st.body) = textFrom s r.startLine r.startColumn

section Pages

variable {env : Surroundings} {file : File} {path : String} {s : Text}

theorem readPages_spec (hfile : Readable env file path s) (hnumbered : Numbered s) {n : Nat}
    {r : Range} (h : r.Accepted s) (hn : (r.rest s).length < n) :
    ∃ pages, readPages env file s n r = some pages ∧ pages ≠ [] ∧
      (∀ p ∈ pages, p.text = (p.st.header p.range path).toList ++ ['\n'] ++
        p.st.body ++ p.st.footer) ∧
      (∀ p ∈ pages.dropLast, unnumbered p.st.body ≠ []) ∧
      (pages.flatMap fun p => unnumbered p.st.body) = (r.rest s).map Place.char := by
  induction n generalizing r with
  | zero => omega
  | succ n ih =>
    obtain ⟨shown, hbody, hstep⟩ := page_step h hnumbered
    rw [readPages, readFile_accepted hfile h]
    dsimp only
    rcases hnext : r.next (Reader.run r s) with _ | r'
    · rw [hnext] at hstep
      exact ⟨_, rfl, List.cons_ne_nil _ _, by simp, by simp, by simp [hbody, hstep]⟩
    · rw [hnext] at hstep
      obtain ⟨haccepted, hshown, hrest⟩ := hstep
      have hless : (r'.rest s).length < n := by
        have hlen := congrArg List.length hrest
        have hpos := List.length_pos_of_ne_nil hshown
        rw [List.length_append] at hlen
        omega
      obtain ⟨pages, hpages, hne, htext, hprogress, hwhole⟩ := ih haccepted hless
      dsimp only
      rw [hpages]
      refine ⟨_, rfl, List.cons_ne_nil _ _, ?_, ?_, ?_⟩
      · intro p hp
        rcases List.mem_cons.mp hp with rfl | hp
        · rfl
        · exact htext p hp
      · intro p hp
        rw [List.dropLast_cons_of_ne_nil hne] at hp
        rcases List.mem_cons.mp hp with rfl | hp
        · rw [hbody]
          simpa using hshown
        · exact hprogress p hp
      · rw [List.flatMap_cons, hbody, hwhole, hrest, List.map_append]

/-- **Page by page.** The pages that follow a call come to an end, each shows something new, and
together they show the text from the start of the call on. -/
theorem pages_reconstruct (hfile : Readable env file path s) (hnumbered : Numbered s) {r : Range}
    (h : r.Accepted s) :
    ∃ n pages, readPages env file s n r = some pages ∧ Reconstructs path s r pages := by
  obtain ⟨pages, hpages, -, htext, hprogress, hwhole⟩ :=
    readPages_spec hfile hnumbered h (Nat.lt_succ_self _)
  exact ⟨_, pages, hpages, htext, hprogress, hwhole.trans (Range.rest_char h)⟩

theorem pages_reconstruct_two : ∃ n pages,
    readPages ⟨.ok "a.txt", none⟩ ⟨true, some "one\r\ntwo".toList⟩ "one\r\ntwo".toList n ⟨1, 1, 2⟩ =
      some pages ∧
      Reconstructs "a.txt" "one\r\ntwo".toList ⟨1, 1, 2⟩ pages :=
  pages_reconstruct ⟨rfl, rfl, rfl, rfl⟩ (by unfold Numbered; decide)
    ⟨by decide, by decide, by decide, by decide, by decide⟩

end Pages

end MiniAgent.Files
