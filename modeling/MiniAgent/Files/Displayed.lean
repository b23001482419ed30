import MiniAgent.Files.Confinement

/-!
# Displayed paths

`ScopedPaths.format` prints a path under the first scope whose real root it lies in. The printed
text names the root of the scope again, and the names of the path as long as they survive the
spelling rules of `resolve`: a colon is refused, a backslash becomes a slash, and blanks at the end
are dropped. `reject_links` then looks at the root as it is spelled (`displayed_path_leads_back`).
-/

namespace MiniAgent.Files

open Lib

/-! ## Joined names -/

/-- The names with slashes between them. -/
def joined (names : List FileName) : Text := ['/'].intercalate (names.map Subtype.val)

variable {names : List FileName} {n m : FileName} {c : Char} {s : Text}

@[simp] theorem joined_nil : joined [] = [] := rfl

@[simp] theorem joined_singleton : joined [n] = n.1 := List.intercalate_singleton

theorem joined_cons_cons : joined (n :: m :: names) = n.1 ++ '/' :: joined (m :: names) := by
  simp [joined, List.intercalate_cons_cons]

theorem mem_joined : c ∈ joined names → c = '/' ∨ ∃ n ∈ names, c ∈ n.1 := by
  induction names with
  | nil => simp
  | cons n names ih =>
    cases names with
    | nil => intro h; exact .inr ⟨n, List.mem_cons_self, by simpa using h⟩
    | cons m names =>
      rw [joined_cons_cons, List.mem_append, List.mem_cons]
      rintro (h | rfl | h)
      · exact .inr ⟨n, List.mem_cons_self, h⟩
      · exact .inl rfl
      · exact (ih h).imp_right fun ⟨k, hk, hc⟩ => ⟨k, List.mem_cons_of_mem _ hk, hc⟩

theorem mem_joined_of_mem (hn : n ∈ names) (hc : c ∈ n.1) : c ∈ joined names := by
  induction names with
  | nil => cases hn
  | cons first names ih =>
    cases names with
    | nil =>
      cases List.mem_singleton.mp hn
      simpa using hc
    | cons m names =>
      rw [joined_cons_cons, List.mem_append, List.mem_cons]
      rcases List.mem_cons.mp hn with rfl | hn
      · exact .inl hc
      · exact .inr (.inr (ih hn))

theorem joined_ne_nil (h : names ≠ []) : joined names ≠ [] := by
  obtain ⟨n, hn⟩ := List.exists_mem_of_ne_nil names h
  obtain ⟨c, hc⟩ := List.exists_mem_of_ne_nil n.1 n.2.1
  exact List.ne_nil_of_mem (mem_joined_of_mem hn hc)

/-- The last character of the joined names is that of the last name. -/
theorem getLast?_joined : (joined names).getLast? = names.getLast?.bind fun n => n.1.getLast? := by
  induction names with
  | nil => rfl
  | cons n names ih =>
    cases names with
    | nil => simp
    | cons m names =>
      have hne : joined (m :: names) ≠ [] := joined_ne_nil (by simp)
      rw [joined_cons_cons, List.getLast?_append_cons, List.getLast?_cons_of_ne_nil hne,
        ih, List.getLast?_cons_cons]

theorem splitOn_joined (h : names ≠ []) : (joined names).splitOn '/' = names.map Subtype.val := by
  apply List.splitOn_intercalate
  · intro text htext
    obtain ⟨n, -, rfl⟩ := List.mem_map.mp htext
    exact n.2.2.2.2.1
  · exact fun hnil => h (List.map_eq_nil_iff.mp hnil)

theorem namesOf_joined (names : List FileName) : namesOf (joined names) = names := by
  by_cases h : names = []
  · subst h; rfl
  · have hname : ∀ n : FileName, nameOf n.1 = some n := fun n => dif_pos n.2
    rw [namesOf, splitOn_joined h, List.filterMap_map]
    simp [hname]

theorem dots_not_mem_joined : ['.', '.'] ∉ (joined names).splitOn '/' := by
  by_cases h : names = []
  · subst h; decide
  · rw [splitOn_joined h, List.mem_map]
    rintro ⟨n, -, hn⟩
    exact n.2.2.2.1 hn

theorem null_not_mem_joined : '\x00' ∉ joined names := by
  intro h
  rcases mem_joined h with h | ⟨n, -, hn⟩
  · exact absurd h (by decide)
  · exact n.2.2.2.2.2 hn

theorem head?_joined : (joined names).head? ≠ some '/' := by
  cases names with
  | nil => simp
  | cons n names =>
    obtain ⟨c, text, hn⟩ := List.exists_cons_of_ne_nil n.2.1
    have hc : c ≠ '/' := fun h => n.2.2.2.2.1 (by rw [hn, h]; exact List.mem_cons_self)
    cases names with
    | nil => simp [hn, hc]
    | cons m names => simp [joined_cons_cons, hn, hc]

/-- `format` prints no dot for the root. -/
theorem asPosix_eq : (if asPosix names = ['.'] then [] else asPosix names) = joined names := by
  by_cases h : names = []
  · subst h; rfl
  · have hdot : joined names ≠ ['.'] := by
      intro hdot
      have hsplit := splitOn_joined h
      rw [hdot] at hsplit
      have hmem : ['.'] ∈ names.map Subtype.val := by rw [← hsplit]; decide
      obtain ⟨n, -, hn⟩ := List.mem_map.mp hmem
      exact n.2.2.1 hn
    have hposix : asPosix names = joined names := by rw [asPosix, if_neg h]; rfl
    rw [hposix, if_neg hdot]

/-- Texts that are left out leave a shorter join. -/
theorem intercalate_sublist {l l' : List Text} (h : l.Sublist l') :
    (['/'].intercalate l).Sublist (['/'].intercalate l') := by
  induction h with
  | slnil => exact .slnil
  | @cons l l' a h ih =>
    cases l' with
    | nil => cases h; exact List.nil_sublist _
    | cons b l' =>
      rw [List.intercalate_cons_cons]
      exact ih.trans (List.sublist_append_right _ _)
  | @cons_cons l l' a h ih =>
    cases l with
    | nil =>
      cases l' with
      | nil => exact .refl _
      | cons b l' => simp [List.intercalate_cons_cons]
    | cons b l =>
      cases l' with
      | nil => cases h
      | cons b' l' =>
        rw [List.intercalate_cons_cons, List.intercalate_cons_cons]
        exact (List.Sublist.refl _).append ih

theorem filterMap_nameOf_sublist (l : List Text) :
    ((l.filterMap nameOf).map Subtype.val).Sublist l := by
  induction l with
  | nil => exact .slnil
  | cons text l ih =>
    by_cases h : IsName text
    · simpa [nameOf, h] using ih.cons_cons text
    · simpa [nameOf, h] using ih.cons text

theorem joined_namesOf_sublist (s : Text) : (joined (namesOf s)).Sublist s := by
  have hpieces := intercalate_sublist (filterMap_nameOf_sublist (s.splitOn '/'))
  rwa [List.intercalate_splitOn] at hpieces

theorem mem_of_mem_namesOf (hn : n ∈ namesOf s) (hc : c ∈ n.1) : c ∈ s :=
  (joined_namesOf_sublist s).subset (mem_joined_of_mem hn hc)

/-! ## A printed text in `resolve` -/

/-- What `format` prints for names below the root of a scope. -/
def display (scope : Text) (names : List FileName) : Text := scope ++ ':' :: joined names

/-- What `resolve` makes of the joined names. -/
def respelled (names : List FileName) : Text :=
  ((joined names).rdropWhile Queue.isPySpace).map fun c => if c = '\\' then '/' else c

/-- Names that `resolve` reads as they are. -/
structure Survives (names : List FileName) : Prop where
  plain : ∀ n ∈ names, ':' ∉ n.1 ∧ '\\' ∉ n.1
  last : ∀ n, names.getLast? = some n → ∀ c, n.1.getLast? = some c → Queue.isPySpace c = false

variable {scope : Text}

theorem rdropWhile_append_cons {p : Char → Bool} {a b : Text} (h : p c = false) :
    (a ++ c :: b).rdropWhile p = a ++ c :: b.rdropWhile p := by
  induction b using List.reverseRecOn with
  | nil => rw [List.rdropWhile_concat_neg _ _ _ (by simp [h]), List.rdropWhile_nil]
  | append_singleton b d ih =>
    rw [← List.cons_append, ← List.append_assoc, List.rdropWhile_concat, List.rdropWhile_concat]
    split
    · exact ih
    · simp

theorem strip_display (h : IsScope scope) :
    Queue.strip (display scope names) = scope ++ ':' ::
      (joined names).rdropWhile Queue.isPySpace := by
  have hfirst : (display scope names).dropWhile Queue.isPySpace = display scope names := by
    rcases h with rfl | rfl
    · exact List.dropWhile_cons_of_neg (by decide)
    · exact List.dropWhile_cons_of_neg (by decide)
  rw [Queue.strip, hfirst, display, rdropWhile_append_cons (by decide)]

theorem normalized_display (h : IsScope scope) :
    normalized (display scope names) = scope ++ ':' :: respelled names := by
  have hscope : (scope.map fun c => if c = '\\' then '/' else c) = scope := by
    rcases h with rfl | rfl <;> decide
  rw [normalized, strip_display h, List.map_append, List.map_cons, hscope]
  rfl

theorem map_slash_eq (h : '\\' ∉ s) : (s.map fun c => if c = '\\' then '/' else c) = s := by
  conv_rhs => rw [← List.map_id s]
  apply List.map_congr_left
  intro c hc
  have hne : c ≠ '\\' := fun heq => h (heq ▸ hc)
  simp [hne]

theorem Survives.respelled_eq (h : Survives names) : respelled names = joined names := by
  have hblank : (joined names).rdropWhile Queue.isPySpace = joined names := by
    rw [List.rdropWhile_eq_self_iff]
    intro hne
    have hlast := @getLast?_joined names
    rw [List.getLast?_eq_some_getLast hne] at hlast
    obtain ⟨n, hn, hc⟩ := Option.bind_eq_some_iff.mp hlast.symm
    simp [h.last n hn _ hc]
  rw [respelled, hblank, map_slash_eq]
  intro hmem
  rcases mem_joined hmem with hslash | ⟨n, hn, hc⟩
  · exact absurd hslash (by decide)
  · exact (h.plain n hn).2 hc

/-- Names that `resolve` finds again in their join are read as they are. -/
theorem survives_of_namesOf (hnames : namesOf (respelled names) = names)
    (hcolon : ':' ∉ respelled names) : Survives names := by
  have hslash : '\\' ∉ joined names := by
    intro hmem
    rcases mem_joined hmem with h | ⟨n, hn, hc⟩
    · exact absurd h (by decide)
    · have hback : '\\' ∈ respelled names := mem_of_mem_namesOf (by rw [hnames]; exact hn) hc
      obtain ⟨c, -, hc⟩ := List.mem_map.mp hback
      split at hc
      · exact absurd hc (by decide)
      · contradiction
  have hstripped : respelled names = (joined names).rdropWhile Queue.isPySpace :=
    map_slash_eq fun hmem => hslash ((List.rdropWhile_prefix _ _).subset hmem)
  -- the names need the whole join, so no blank has been dropped
  have hwhole : (joined names).rdropWhile Queue.isPySpace = joined names := by
    have hsub := joined_namesOf_sublist (respelled names)
    rw [hnames, hstripped] at hsub
    exact ((List.rdropWhile_prefix _ _).sublist).antisymm hsub
  rw [hstripped, hwhole] at hcolon
  refine ⟨fun n hn => ⟨fun hc => hcolon (mem_joined_of_mem hn hc), fun hc =>
    hslash (mem_joined_of_mem hn hc)⟩,
    fun n hn c hc => ?_⟩
  have hlast : (joined names).getLast? = some c := by rw [getLast?_joined, hn]; exact hc
  have hne : joined names ≠ [] := fun hnil => by rw [hnil] at hlast; cases hlast
  have hkept := List.rdropWhile_eq_self_iff.mp hwhole hne
  rw [List.getLast?_eq_some_getLast hne] at hlast
  cases hlast
  simpa using hkept

variable {fs : FileSystem} {paths : ScopedPaths} {value : Text} {allowRoot : Bool}
  {readRoots : List PurePath}
  {root real p : AbsPath}

theorem IsScope.strip_ne_nil (h : IsScope scope) : Queue.strip (display scope names) ≠ [] := by
  rw [strip_display h]
  simp

theorem resolve_display (hscope : IsScope scope) (hroot : paths.root scope = .ok root)
    (h : Survives names) :
    paths.resolve fs (display scope names) allowRoot readRoots =
      ScopedPaths.firstRoot fs ⟨root.anchor, root.parts ++ names⟩ allowRoot [root] := by
  have hcolon : ':' ∉ joined names := by
    intro hmem
    rcases mem_joined hmem with hslash | ⟨n, hn, hc⟩
    · exact absurd hslash (by decide)
    · exact (h.plain n hn).1 hc
  have hnull : '\x00' ∉ scope ++ ':' :: joined names := by
    rw [List.mem_append, List.mem_cons, not_or, not_or]
    refine ⟨?_, by decide, null_not_mem_joined⟩
    rcases hscope with rfl | rfl <;> decide
  rw [ScopedPaths.resolve, if_neg hscope.strip_ne_nil, normalized_display hscope, h.respelled_eq]
  simp only [takeWhile_scope hscope.no_colon, dropWhile_scope hscope.no_colon, List.tail_cons]
  rw [if_pos ⟨by simp, hscope⟩, hroot]
  simp only
  rw [if_neg (not_or.mpr ⟨head?_joined, hcolon⟩), ScopedPaths.confine,
    if_neg (not_or.mpr ⟨dots_not_mem_joined, hnull⟩), abspath_join dots_not_mem_joined,
    namesOf_joined]

/-! ## The way back -/

/-- The scope under which `format` prints a path: the workspace, or the project for a path outside
the workspace. -/
structure Shown (fs : FileSystem) (paths : ScopedPaths) (p : AbsPath) (scope : Text)
    (root real : AbsPath)
    (names : List FileName) : Prop where
  first : scope = workspaceScope ∨
    scope = projectScope ∧ ∀ real, fs.resolve paths.workspace = some real → ¬p.IsRelativeTo real
  named : paths.root scope = .ok root
  root_real : fs.resolve root = some real
  path : p = ⟨real.anchor, real.parts ++ names⟩

theorem Shown.isScope (h : Shown fs paths p scope root real names) : IsScope scope :=
  h.first.imp_right And.left

theorem formatIn_cons {resolved : AbsPath} {scopes : List Text}
    (hproject : ¬(scope = projectScope ∧ paths.project = none))
    (hroot : paths.root scope = .ok root) (hreal : fs.resolve root = some real) :
    paths.formatIn fs resolved (scope :: scopes) =
      if resolved.IsRelativeTo real then .ok (display scope (resolved.relativeTo real))
      else paths.formatIn fs resolved scopes := by
  rw [ScopedPaths.formatIn, if_neg hproject, hroot]
  simp only [hreal]
  split
  · simp only [asPosix_eq]
    rfl
  · rfl

theorem root_workspace : paths.root workspaceScope = .ok paths.workspace := rfl

theorem root_project {project : AbsPath} (h : paths.project = some project) :
    paths.root projectScope = .ok project := by
  rw [ScopedPaths.root, if_neg (by decide), if_pos rfl, h]

/-- A path in the workspace or the project is printed, unless the workspace is a loop of links. -/
theorem format_inside (hp : fs.resolve p = some p)
    (hin : ∃ root ∈ paths.workspace :: paths.project.toList, ∃ real, fs.resolve root = some real ∧
      p.IsRelativeTo real) :
    fs.resolve paths.workspace = none ∧ paths.format fs p none = .error .runtimeError ∨
      ∃ scope root real names, Shown fs paths p scope root real names ∧
        paths.format fs p none = .ok (display scope names) := by
  rw [ScopedPaths.format, hp]
  simp only
  cases hworkspace : fs.resolve paths.workspace with
  | none =>
    refine .inl ⟨rfl, ?_⟩
    rw [ScopedPaths.formatIn, if_neg fun h => absurd h.1 (by decide), root_workspace]
    simp only [hworkspace]
  | some real =>
    right
    rw [formatIn_cons (fun h => absurd h.1 (by decide)) root_workspace hworkspace]
    split
    · next hrel =>
      exact ⟨workspaceScope, paths.workspace, real, p.relativeTo real,
        ⟨.inl rfl, root_workspace, hworkspace, IsRelativeTo.eq_append hrel⟩, rfl⟩
    · next hrel =>
      obtain ⟨root, hmem, real', hreal', hrel'⟩ := hin
      rcases List.mem_cons.mp hmem with rfl | hmem
      · rw [hworkspace] at hreal'
        cases hreal'
        exact absurd hrel' hrel
      · have hproject := Option.mem_toList.mp hmem
        have hscope : ¬(projectScope = projectScope ∧ paths.project = none) :=
          fun h => by rw [hproject] at h; cases h.2
        rw [formatIn_cons hscope (root_project hproject) hreal', if_pos hrel']
        refine ⟨projectScope, root, real', p.relativeTo real',
          ⟨.inr ⟨rfl, ?_⟩, root_project hproject, hreal', ?_⟩, rfl⟩
        · intro real'' hreal''
          rw [hworkspace] at hreal''
          cases hreal''
          exact hrel
        · exact IsRelativeTo.eq_append hrel'

theorem firstRoot_singleton {lexical : AbsPath} (h : Chosen fs lexical root allowRoot p real) :
    ScopedPaths.firstRoot fs lexical allowRoot [root] = .ok p := by
  have hallow : ¬(p = real ∧ allowRoot = false) := fun hboth => by
    rw [h.not_root hboth.1] at hboth; cases hboth.2
  rw [ScopedPaths.firstRoot, if_neg (not_not.mpr h.relative), h.links]
  simp only [h.real_path, h.root_real]
  rw [if_neg (not_not.mpr h.inside), if_neg hallow]

/-- Names that survive lead back to the path, if no link is met on the way from the root. -/
theorem Shown.back (h : Shown fs paths p scope root real names)
    (hfree : fs.tree.LinkFree [] p.parts) (hsurvives : Survives names)
    (hlinks : ScopedPaths.rejectLinks fs ⟨root.anchor, root.parts ++ names⟩ root = .ok ()) :
    paths.resolve fs (display scope names) true [] = .ok p := by
  have hpath := h.path
  subst hpath
  rw [resolve_display h.isScope h.named hsurvives]
  have hlexical : fs.resolve ⟨root.anchor, root.parts ++ names⟩ =
      some ⟨real.anchor, real.parts ++ names⟩ :=
    resolve_names h.root_real hfree
  have hchosen : Chosen fs ⟨root.anchor, root.parts ++ names⟩ root true
      ⟨real.anchor, real.parts ++ names⟩ real :=
    ⟨⟨rfl, List.prefix_append _ _⟩, hlinks, hlexical, h.root_real, ⟨rfl, List.prefix_append _ _⟩,
      fun _ => rfl⟩
  exact firstRoot_singleton hchosen

/-- A printed text that leads back has names that survive, where `lstat` finds the root. -/
theorem Shown.of_back (h : Shown fs paths p scope root real names) {info : FileEntry FileName}
    (hinfo : fs.lstat root.parts = .ok info)
    (hback : paths.resolve fs (display scope names) true [] = .ok p) :
    Survives names ∧ ScopedPaths.rejectLinks fs ⟨root.anchor, root.parts ++ names⟩ root =
      .ok () := by
  obtain ⟨lexical, root', real', hrequested, hchosen⟩ := resolve_chosen hback
  have htext := @normalized_display names _ h.isScope
  generalize hrest : lexical.relativeTo root' = rest at hrequested
  have hcolon : ':' ∈ normalized (display scope names) := by rw [htext]; simp
  cases hrequested with
  | relative hanchor hno => exact absurd hcolon hno
  | absolute hanchor hno _ _ => exact absurd hcolon hno
  | @inScope scope' relative _ htext' hno hroot' =>
    have hscope' : IsScope scope' := isScope_of_root hroot'
    rw [htext] at htext'
    have hscope : scope = scope' := by
      have := congrArg (List.takeWhile (· ≠ ':')) htext'
      rwa [takeWhile_scope h.isScope.no_colon, takeWhile_scope hscope'.no_colon] at this
    subst hscope
    obtain rfl : respelled names = relative := by simpa using htext'
    obtain rfl : root = root' := by
      have := h.named.symm.trans hroot'
      injection this
    obtain rfl : real = real' := Option.some_inj.mp (h.root_real.symm.trans hchosen.root_real)
    have hparts := h.path.symm.trans (hchosen.confined hinfo).inside
    rw [hrest, AbsPath.mk.injEq, List.append_cancel_left_eq] at hparts
    refine ⟨survives_of_namesOf hparts.2.symm hno, ?_⟩
    have hlexical := IsRelativeTo.eq_append hchosen.relative
    rw [hrest, ← hparts.2] at hlexical
    rw [← hlexical]
    exact hchosen.links

/-- A path in the workspace or the project to which no link leads is printed under the first of the
two it lies in. The printed text leads back to it when its names survive and no link is met from
that root; where `lstat` finds the root, it leads back only then. -/
theorem displayed_path_leads_back (hfree : fs.tree.LinkFree [] p.parts)
    (hanchor : p.anchor = .slash)
    (hin : ∃ root ∈ paths.workspace :: paths.project.toList, ∃ real, fs.resolve root = some real ∧
      p.IsRelativeTo real) :
    fs.resolve paths.workspace = none ∧ paths.format fs p none = .error .runtimeError ∨
      ∃ scope root real names, Shown fs paths p scope root real names ∧
        paths.format fs p none = .ok (display scope names) ∧
        (Survives names → ScopedPaths.rejectLinks fs ⟨root.anchor, root.parts ++ names⟩
          root = .ok () →
          paths.resolve fs (display scope names) true [] = .ok p) ∧
        (∀ info, fs.lstat root.parts = .ok info →
          paths.resolve fs (display scope names) true [] = .ok p →
          Survives names ∧ ScopedPaths.rejectLinks fs ⟨root.anchor, root.parts ++ names⟩ root =
            .ok ()) := by
  refine (format_inside (resolve_self hfree hanchor) hin).imp_right ?_
  rintro ⟨scope, root, real, names, hshown, htext⟩
  exact ⟨scope, root, real, names, hshown, htext, hshown.back hfree, fun info hinfo =>
    hshown.of_back hinfo⟩

namespace Blank

theorem ws_isName : IsName ['w', 's'] := by decide

def ws : FileName := ⟨['w', 's'], ws_isName⟩

def a : FileName := ⟨['a'], by decide⟩

def aBlank : FileName := ⟨['a', ' '], by decide⟩

def entry (place : List FileName) : FileEntry FileName :=
  if place = [] ∨ place = [ws] then .dir
  else if place = [ws, a] ∨ place = [ws, aBlank] then .file
  else .missing

theorem entry_closed (place : List FileName) (name : FileName) (h : entry place ≠ .dir) :
    entry (place ++ [name]) = .missing := by
  rcases place with _ | ⟨a, _ | ⟨b, rest⟩⟩
  · exact absurd rfl h
  · grind [entry]
  · simp [entry]

/-- `/ws/a` and a file whose name ends in a blank. -/
def tree : FileTree FileName := ⟨entry, rfl, entry_closed⟩

def disk : FileSystem := ⟨tree, ⟨.slash, []⟩, 40, 900⟩

def workspace : ScopedPaths := ⟨⟨.slash, [ws]⟩, none⟩

end Blank

theorem Blank.resolve_workspace :
    disk.resolve workspace.workspace = some ⟨.slash, [ws]⟩ := by decide +kernel

/-- The file with the plain name comes back. -/
theorem displayed_path_leads_back_of_plain_name :
    ∃ text, Blank.workspace.format Blank.disk ⟨.slash, [Blank.ws, Blank.a]⟩ none = .ok text ∧
    Blank.workspace.resolve Blank.disk text true [] = .ok ⟨.slash, [Blank.ws, Blank.a]⟩ := by
  have hfree : Blank.disk.tree.LinkFree [] [Blank.ws, Blank.a] := by
    intro init name _
    simp only [Blank.disk, Blank.tree, Blank.entry]
    split_ifs <;> exact id
  obtain ⟨hnone, -⟩ | ⟨scope, root, real, names, hshown, htext, hback, -⟩ :=
    @displayed_path_leads_back Blank.disk Blank.workspace ⟨.slash, [Blank.ws, Blank.a]⟩ hfree rfl
      ⟨⟨.slash, [Blank.ws]⟩, List.mem_cons_self, ⟨.slash, [Blank.ws]⟩, Blank.resolve_workspace, by
        decide +kernel⟩
  · rw [Blank.resolve_workspace] at hnone
    cases hnone
  · rcases hshown.first with rfl | ⟨-, houtside⟩
    · obtain rfl : Blank.workspace.workspace = root := Except.ok.inj hshown.named
      obtain rfl := Option.some.inj (Blank.resolve_workspace.symm.trans hshown.root_real)
      obtain rfl : [Blank.a] = names := by simpa using congrArg AbsPath.parts hshown.path
      have hlast : ∀ n, [Blank.a].getLast? = some n → ∀ c, n.1.getLast? = some c →
          Queue.isPySpace c = false := by
        intro n hn c hc
        cases hn
        cases hc
        decide
      exact ⟨_, htext, hback ⟨by decide, hlast⟩ (by decide +kernel)⟩
    · exact absurd (by decide +kernel) (houtside _ Blank.resolve_workspace)

/-- `workspace:a /` names the file whose name ends in a blank; its printed path names the other
one. -/
theorem trailing_blank_lost :
    ∃ (fs : FileSystem) (paths : ScopedPaths) (value text : Text) (p real : AbsPath),
      paths.resolve fs value false [] = .ok p ∧ fs.resolve paths.workspace = some real ∧
      p.IsRelativeTo real ∧
        paths.format fs p none = .ok text ∧ paths.resolve fs text true [] ≠ .ok p := by
  refine ⟨Blank.disk, Blank.workspace, workspaceScope ++ [':', 'a', ' ', '/'],
    workspaceScope ++ [':', 'a', ' '],
    ⟨.slash, [Blank.ws, Blank.aBlank]⟩, ⟨.slash, [Blank.ws]⟩, ?_, ?_, ?_, ?_, ?_⟩
  · decide +kernel
  · decide +kernel
  · decide +kernel
  · decide +kernel
  · decide +kernel

end MiniAgent.Files
