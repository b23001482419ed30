import MiniAgent.Files.Reading

/-!
# Line numbers

Three tools number the lines of a file. `read_file` counts the newlines of the normalised text
(`readRecords`), `grep` goes through `str.splitlines()` (`grepLines`), and `edit_file` compares the
contents of `_line_records` (`editLines`). The last two know eight more separators than the first,
and only `grep` drops these from the line.
-/

namespace MiniAgent.Files

open Lib

/-- The lines of a text with normalised newlines. -/
def lfLines : Text → List Line
  | [] => []
  | c :: rest => if c = '\n' then ([], ['\n']) :: lfLines rest else consLine c (lfLines rest)

def readRecords (s : Text) : List Line := lfLines (normaliseNewlines s)

def readLines (s : Text) : List Text := (readRecords s).map Prod.fst

def editLines (s : Text) : List Text := (lineRecords s).map Prod.fst

/-! ## read_file -/

section Read

variable {c : Char} {t : Text} {p : Place}

theorem lfLines_eq_nil : ∀ {t : Text}, lfLines t = [] ↔ t = []
  | [] => by simp [lfLines]
  | c :: t => by
    rw [lfLines]
    split
    · simp
    · rcases lfLines t with _ | ⟨⟨_, _⟩, _⟩ <;> simp [consLine]

theorem length_consLine (c : Char) (lines : List Line) :
    (consLine c lines).length = if lines = [] then 1 else lines.length := by
  rcases lines with _ | ⟨⟨_, _⟩, _⟩ <;> simp [consLine]

/-- The total that `read_file` reports is the number of lines. -/
theorem Reader.totalLines_foldl (r : Range) (st : Reader) (t : Text) :
    (t.foldl (Reader.step r) st).totalLines =
    if t = [] then st.totalLines else st.newlineCount + (lfLines t).length := by
  induction t generalizing st with
  | nil => rfl
  | cons c t ih =>
    have hcount : (st.step r c).newlineCount = if c = '\n' then st.newlineCount + 1
        else st.newlineCount := by
      simp only [Reader.step, Reader.advance, Reader.put]
      split_ifs <;> rfl
    have htotal : (st.step r c).totalLines = st.newlineCount + 1 := by
      simp only [Reader.step, Reader.advance, Reader.put, Reader.totalLines]
      split_ifs <;> simp_all
    rw [List.foldl_cons, ih, if_neg (List.cons_ne_nil _ _), htotal, hcount, lfLines]
    rcases t with _ | ⟨d, t⟩
    · rw [if_pos rfl]
      split_ifs <;> rfl
    · rw [if_neg (List.cons_ne_nil _ _)]
      split
      · rw [List.length_cons]
        omega
      · rw [length_consLine, if_neg (by rw [lfLines_eq_nil]; exact List.cons_ne_nil _ _)]

theorem Reader.run_totalLines (r : Range) (s : Text) :
    (Reader.run r s).totalLines = (readLines s).length := by
  rw [Reader.run_eq, Reader.totalLines_foldl, readLines, List.length_map, readRecords]
  split
  · next h => rw [h]; rfl
  · exact Nat.zero_add _

/-- The characters of one line, from a column on. -/
def columns (line : Nat) : Nat → Text → List Place
  | _, [] => []
  | column, c :: rest => ⟨line, column, c⟩ :: columns line (column + 1) rest

/-- The characters of lines that are numbered from `line` on. -/
def placesOf : Nat → List Line → List Place
  | _, [] => []
  | line, l :: lines => columns line 1 l.text ++ placesOf (line + 1) lines

/-- The loop counts through the lines. -/
theorem number_eq (line column : Nat) (t : Text) : number line column t = match lfLines t with
    | [] => []
    | l :: lines => columns line column l.text ++ placesOf (line + 1) lines := by
  induction t generalizing line column with
  | nil => rfl
  | cons c t ih =>
    rw [number, lfLines]
    split
    · next h =>
      rw [ih, h]
      rcases lfLines t with _ | ⟨l, lines⟩ <;> rfl
    · rw [ih]
      rcases lfLines t with _ | ⟨l, lines⟩ <;> rfl

theorem number_placesOf (s : Text) :
    number 1 1 (normaliseNewlines s) = placesOf 1 (readRecords s) := by
  rw [number_eq, readRecords]
  rcases lfLines (normaliseNewlines s) with _ | ⟨l, lines⟩ <;> rfl

/-- What a page that `read_file` returns shows: characters of the given lines under their line
numbers, in order and without a gap from the start of the range on, all of them unless the page says
where to continue; and the number of the lines. -/
def ReadShows (s : Text) (lines : List Line) : Prop :=
  ∀ env a file file' page, file.text = some s → readFile env a file = (.ok page, file') →
    ∃ path range st shown, env.path = .ok path ∧ a.check = .ok range ∧
      page = (Reader.header st range path).toList ++ ['\n'] ++ (render none shown).flatten ++
        st.footer ∧
      st.totalLines = lines.length ∧
      shown <+: ((placesOf 1 lines).filter fun p => range.selects p.line p.column) ∧
      (st.continuation = none → shown = (placesOf 1 lines).filter fun p =>
        range.selects p.line p.column)

theorem readFile_page {env : Surroundings} {a : ReadArgs} {file file' : File} {page s : Text}
    (htext : file.text = some s) (h : readFile env a file = (.ok page, file')) :
    ∃ path range, env.path = .ok path ∧ a.check = .ok range ∧
      (Reader.run range s).page range path = .ok page := by
  obtain ⟨range, _, hrange, h⟩ := Call.bind_ok.mp h
  obtain ⟨hcheck, rfl⟩ := Call.ofExcept_ok.mp hrange
  obtain ⟨path, _, hshown, h⟩ := Call.bind_ok.mp h
  obtain ⟨hpath, rfl⟩ := Call.ofExcept_ok.mp hshown
  refine ⟨path, range, hpath, hcheck, ?_⟩
  obtain ⟨found, _, hfound, h⟩ := Call.bind_ok.mp h
  obtain ⟨rfl, rfl⟩ := Call.read_ok.mp hfound
  rcases hfile : (id file).isFile <;> rcases hfault : env.fault with _ | strerror <;>
    simp only [hfile, hfault] at h
  · simp at h
  · simp at h
  · rw [if_neg (by decide), Call.bind_of_ok (readRaw_ok htext)] at h
    exact (Call.ofExcept_ok.mp h).1
  · simp at h

theorem readShows (s : Text) : ReadShows s (readRecords s) := by
  intro env a file file' page htext h
  obtain ⟨path, range, hpath, hcheck, hpage⟩ := readFile_page htext h
  unfold Reader.page at hpage
  split at hpage
  · cases hpage
  · cases hpage
    have hstart : ∀ m ∈ Reader.start.prefixedLine, m ≤ Reader.start.lineNumber := by
      simp [Reader.start]
    have hrun := Reader.run_page (r := range) rfl hstart (normaliseNewlines s)
    rw [← Reader.run_eq] at hrun
    obtain ⟨hbody, hcont⟩ := hrun
    have hplaces : range.places 1 1 (normaliseNewlines s) =
        (placesOf 1 (readRecords s)).filter fun p => range.selects p.line p.column := by
      rw [Range.places, number_placesOf]
    refine ⟨path, range, Reader.run range s, (range.places 1 1 (normaliseNewlines s)).take
      (room 0 (render none (range.places 1 1 (normaliseNewlines s)))), hpath,
      hcheck, ?_, ?_, ?_, ?_⟩
    · rw [hbody]
      rfl
    · rw [Reader.run_totalLines, readLines, List.length_map]
    · rw [← hplaces]
      exact List.take_prefix _ _
    · intro hnone
      rw [hcont, Option.map_eq_none_iff, List.getElem?_eq_none_iff] at hnone
      exact (List.take_of_length_le hnone).trans hplaces

end Read

/-! ## grep -/

section Grep

variable {search : Text → Except ToolError Bool} {path : String} {maxResults : Nat}
  {found found' : Found}

def hits (search : Text → Except ToolError Bool) (line : Text) : Bool :=
  (search line).toOption.getD false

/-- What a search reports of a file: the given lines that match, each with its number, in order, and
all of them unless the output is truncated. -/
def GrepReports (s : Text) (lines : List Text) : Prop :=
  ∀ search path maxResults found found', grepFile search path maxResults s found = .ok found' →
    ∃ reported : List (Text × Nat), reported <+: (lines.zipIdx 1).filter
      (fun l => hits search l.1) ∧
      found'.results = found.results ++ reported.map (fun l => report path l.2 l.1) ∧
      (found'.truncated = false →
        reported = (lines.zipIdx 1).filter (fun l => hits search l.1))

theorem grepLoop_reports : ∀ {lines : List Text} {number : Nat} {found : Found},
    grepLoop search path maxResults number lines found = .ok found' →
    ∃ reported : List (Text × Nat), reported <+: (lines.zipIdx number).filter
      (fun l => hits search l.1) ∧
      found'.results = found.results ++ reported.map (fun l => report path l.2 l.1) ∧
      (found'.truncated = false → reported = (lines.zipIdx number).filter
        (fun l => hits search l.1))
  | [], _, _, h => by
    cases h
    exact ⟨[], List.prefix_refl _, by simp, fun _ => rfl⟩
  | line :: lines, number, found, h => by
    rw [grepLoop] at h
    obtain ⟨matched, hmatched, h⟩ := bind_ok.mp h
    rw [List.zipIdx_cons, List.filter_cons]
    cases matched with
    | false =>
      obtain ⟨reported, hprefix, hresults, hall⟩ := grepLoop_reports h
      exact ⟨reported, by simpa [hits, hmatched, Except.toOption] using hprefix, hresults,
        by simpa [hits, hmatched, Except.toOption] using hall⟩
    | true =>
      simp only [Bool.not_true, Bool.false_eq_true, if_false] at h
      split at h
      · cases h
        exact ⟨[], List.nil_prefix, by simp, nofun⟩
      · obtain ⟨reported, hprefix, hresults, hall⟩ := grepLoop_reports h
        refine ⟨(line, number) :: reported, ?_, ?_, ?_⟩
        · simpa [hits, hmatched, Except.toOption] using hprefix
        · rw [hresults, Found.add, List.map_cons, List.append_assoc]
          rfl
        · simpa [hits, hmatched, Except.toOption] using hall

theorem grepReports (s : Text) : GrepReports s (grepLines s) :=
  fun _ _ _ _ _ h => grepLoop_reports h

end Grep

/-! ## edit_file -/

/-- What a line is compared with: a call for line `n` alone returns exactly when the expected text
is the line. -/
def EditCompares (s : Text) (lines : List Text) : Prop :=
  ∀ env a file path n expected replacement, env.path = .ok path → env.fault = none →
    file.isFile = true →
    file.text = some s → EditArgs.check a = .ok (n, n, [expected], replacement) →
    ((∃ message file', editFile env a file = (.ok message, file')) ↔ lines[n - 1]? = some expected)

theorem editCompares (s : Text) : EditCompares s (editLines s) := by
  intro env a file path n expected replacement hpath hfault hfile htext hcheck
  obtain ⟨hstart, -, -⟩ := a.check_ok hcheck
  have hslice : (((lineRecords s).take n).drop (n - 1)).map Prod.fst =
      (editLines s)[n - 1]?.toList := by
    rw [List.drop_take, show n - (n - 1) = 1 by omega, List.take_one, List.head?_drop,
      editLines, List.getElem?_map,
      Option.toList_map]
  constructor
  · rintro ⟨message, file', h⟩
    rw [editFile_eq hpath hfile htext hcheck rfl] at h
    split at h
    · cases h
    · split at h
      · cases h
      · next hsame =>
        rw [not_not, hslice] at hsame
        exact Option.toList_eq_singleton_iff.mp hsame
  · intro hline
    have hend : n ≤ (lineRecords s).length := by
      obtain ⟨hlt, -⟩ := List.getElem?_eq_some_iff.mp hline
      rw [editLines, List.length_map] at hlt
      omega
    exact ⟨_, _, editFile_ok hpath hfault hfile htext hcheck hend (by rw [hslice, hline]; rfl)⟩

/-! ## Agreement -/

theorem map_consLine (c : Char) (lines : List Line) : (consLine c lines).map Prod.fst =
    match lines.map Prod.fst with
    | [] => [[c]]
    | line :: rest => (c :: line) :: rest := by
  rcases lines with _ | ⟨⟨_, _⟩, _⟩ <;> rfl

/-- Where there are no other separators, both ways to number the lines are the same. -/
theorem readLines_eq_editLines {s : Text} (h : ∀ c ∈ s, isUnusual c = false) :
    readLines s = editLines s := by
  unfold readLines readRecords editLines
  induction s using lines_induction with
  | nil => rfl
  | crlf rest ih =>
    have ih := ih fun c hc => h c (List.mem_cons_of_mem _ (List.mem_cons_of_mem _ hc))
    rw [lineRecords_crlf, List.map_cons, ← ih]
    rfl
  | brk c rest hc hcrlf ih =>
    have ih := ih fun c hc => h c (List.mem_cons_of_mem _ hc)
    rw [lineRecords_break hc hcrlf, record_singleton, List.map_cons, ← ih]
    obtain rfl | rfl | hu := isBreak_iff.mp hc
    · rfl
    · rw [normaliseNewlines]
      · rfl
      · rintro rest' rfl
        exact hcrlf ⟨rfl, rfl⟩
    · rw [h c List.mem_cons_self] at hu
      cases hu
  | plain c rest hc ih =>
    have ih := ih fun c hc => h c (List.mem_cons_of_mem _ hc)
    have hn : c ≠ '\n' := by rintro rfl; exact absurd hc (by decide)
    have hr : c ≠ '\r' := by rintro rfl; exact absurd hc (by decide)
    rw [lineRecords_plain hc, map_consLine, ← ih, normaliseNewlines, lfLines,
      if_neg hn, map_consLine]
    · rintro rest' rfl
      exact absurd rfl hr
    · exact hr

theorem mem_splitlines {s : Text} {c : Char} : c ∈ s ↔ ∃ raw ∈ splitlines s, c ∈ raw := by
  conv_lhs => rw [← joinLines_lineRecords s, joinLines, lineRecords, List.flatMap_map,
    List.mem_flatMap]
  simp only [text_record]

theorem Canonical.begins : ∀ {records : List Line}, Canonical records →
    ∀ l ∈ records, ∃ rest, Begins l rest
  | [], _, _, h => nomatch h
  | _ :: rest, ⟨hbegins, hrest⟩, l, hl => by
    obtain rfl | hl := List.mem_cons.mp hl
    · exact ⟨rest, hbegins⟩
    · exact Canonical.begins hrest l hl

/-- Another separator can only be the last character of a line. -/
theorem splitlines_unusual {s raw : Text} {c : Char} (hraw : raw ∈ splitlines s) (hc : c ∈ raw)
    (hu : isUnusual c = true) : ∃ init, raw = init ++ [c] ∧ (record raw).1 = raw := by
  have hbreak : isBreak c = true := isBreak_iff.mpr (.inr (.inr hu))
  have hne : c ≠ '\n' ∧ c ≠ '\r' := by
    constructor <;> rintro rfl <;> exact absurd hu (by decide)
  obtain ⟨rest, hbegins⟩ := Canonical.begins (canonical_lineRecords s) (record raw)
    (List.mem_map_of_mem hraw)
  have hparts : (record raw).1 ++ (record raw).2 = raw := text_record raw
  rw [← hparts] at hc
  obtain ⟨hplain, hend⟩ | ⟨hnil, init, u, heq, hplain, -⟩ | ⟨hnil, hplain, -⟩ := hbegins
  · rcases List.mem_append.mp hc with hc | hc
    · rw [hplain c hc] at hbreak
      cases hbreak
    · exfalso
      obtain h | h | ⟨h, -⟩ := hend <;> rw [h] at hc <;> simp [hne] at hc
  · rw [hnil, List.append_nil] at hc hparts
    rw [heq, List.mem_append, List.mem_singleton] at hc
    rcases hc with hc | rfl
    · rw [hplain c hc] at hbreak
      cases hbreak
    · exact ⟨init, hparts.symm.trans heq, hparts⟩
  · rw [hnil, List.append_nil] at hc
    rw [hplain c hc] at hbreak
    cases hbreak

theorem bare_of_unusual {init : Text} {c : Char} (hu : isUnusual c = true) :
    bare (init ++ [c]) = init := by
  have hbreak : isBreak c = true := isBreak_iff.mpr (.inr (.inr hu))
  have hcrlf : ¬ ['\r', '\n'] <:+ init ++ [c] := by
    rintro ⟨start, h⟩
    have hlast := congrArg List.getLast? h
    simp only [List.getLast?_append, List.getLast?_singleton, List.getLast?_cons_cons,
      Option.some_or,
      Option.some.injEq] at hlast
    rw [← hlast] at hu
    exact absurd hu (by decide)
  rw [bare, if_neg hcrlf, if_pos (by simpa using hbreak), List.dropLast_concat]

theorem bare_eq_record {raw : Text} (h : ∀ c ∈ raw.getLast?, isUnusual c = false) :
    bare raw = (record raw).1 := by
  unfold bare record
  split
  · rfl
  · split
    · next hbreak =>
      obtain ⟨c, hc, hbreak⟩ := (Option.any_eq_true _ _).mp hbreak
      rw [hc]
      obtain rfl | rfl | hu := isBreak_iff.mp hbreak
      · simp
      · simp
      · rw [h c hc] at hu
        cases hu
    · next hbreak =>
      rw [if_neg, if_neg]
      · intro h
        rw [h] at hbreak
        exact hbreak rfl
      · intro h
        rw [h] at hbreak
        exact hbreak rfl

theorem grepLines_eq_editLines {s : Text} :
    grepLines s = editLines s ↔ ∀ c ∈ s, isUnusual c = false := by
  rw [grepLines, editLines, lineRecords, List.map_map, List.map_inj_left]
  constructor
  · intro h c hc
    by_contra hu
    rw [Bool.not_eq_false] at hu
    obtain ⟨raw, hraw, hc⟩ := mem_splitlines.mp hc
    obtain ⟨init, rfl, hrecord⟩ := splitlines_unusual hraw hc hu
    have := h _ hraw
    rw [bare_of_unusual hu, Function.comp_apply, hrecord] at this
    simp at this
  · intro h raw hraw
    exact bare_eq_record fun c hc => h c (mem_splitlines.mpr ⟨raw, hraw, List.mem_of_getLast? hc⟩)

/-- **Line numbers.** `read_file` shows the characters of `readRecords`, `grep` reports `grepLines`
and `edit_file` compares with `editLines`. These are the same lines, one for one, exactly when the
file has no separator besides CR and LF. -/
theorem line_numbers_agree (s : Text) :
    ReadShows s (readRecords s) ∧ GrepReports s (grepLines s) ∧ EditCompares s (editLines s) ∧
    (((∀ n : Nat, (readLines s)[n]? = (grepLines s)[n]? ∧ (grepLines s)[n]? = (editLines s)[n]?) ∧
        (readLines s).length = (grepLines s).length ∧ (grepLines s).length = (editLines s).length) ↔
      ∀ c ∈ s, isUnusual c = false) := by
  refine ⟨readShows s, grepReports s, editCompares s, ?_, ?_⟩
  · rintro ⟨hlines, -, -⟩
    exact grepLines_eq_editLines.mp (List.ext_getElem? fun n => (hlines n).2)
  · intro h
    rw [readLines_eq_editLines h, grepLines_eq_editLines.mpr h]
    exact ⟨fun n => ⟨rfl, rfl⟩, rfl, rfl⟩

/-- A vertical tab: `read_file` shows one line, `edit_file` and `grep` have two. -/
theorem vertical_tab_splits : ∃ s : Text, (∀ c ∈ s, c ≠ '\x00') ∧
    ¬ ((∀ n : Nat, (readLines s)[n]? = (grepLines s)[n]? ∧ (grepLines s)[n]? = (editLines s)[n]?) ∧
        (readLines s).length = (grepLines s).length ∧
        (grepLines s).length = (editLines s).length) := by
  have hnull : ∀ c ∈ ['a', '\x0b', 'b', '\n'], c ≠ '\x00' := by simp
  refine ⟨"a\x0bb\n".toList, hnull, ?_⟩
  rintro ⟨-, h, -⟩
  exact absurd h (by decide)

end MiniAgent.Files
