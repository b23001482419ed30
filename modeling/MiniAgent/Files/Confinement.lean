import MiniAgent.Files.Paths

/-!
# Confinement of file access

Only ValueError leaves `ScopedPaths.resolve`, and what it returns is a path to which no link leads
below the root its text names, exactly where none of the names is one (`resolve_confined`).
`reject_links` looks for links as the kernel finds them, while `Path.resolve` goes on from names
that are missing and from loops. Where `lstat` finds the root, `reject_links` misses no link below
it; a root that `lstat` does not find may hide one (`hidden_link_followed`).
-/

namespace MiniAgent.Files

open Lib

/-! ## Lexical paths -/

def nameOf (part : Text) : Option FileName := if h : IsName part then some ⟨part, h⟩ else none

/-- The names in a text. -/
def namesOf (text : Text) : List FileName := (text.splitOn '/').filterMap nameOf

theorem normpath_append (parts : List FileName) (a b : List (PathStep FileName)) :
    normpath parts (a ++ b) = normpath (normpath parts a) b := by
  induction a generalizing parts with
  | nil => rfl
  | cons step a ih => cases step <;> exact ih _

theorem normpath_down (parts names : List FileName) :
    normpath parts (names.map .down) = parts ++ names := by
  induction names generalizing parts with
  | nil => simp [normpath]
  | cons name names ih => simp [normpath, ih]

theorem normpath_stepOf {texts : List Text} (h : ['.', '.'] ∉ texts) (parts : List FileName) :
    normpath parts (texts.map stepOf) = parts ++ texts.filterMap nameOf := by
  induction texts generalizing parts with
  | nil => simp [normpath]
  | cons text texts ih =>
    rw [List.mem_cons, not_or] at h
    by_cases hname : IsName text
    · simp [stepOf, nameOf, hname, normpath, ih h.2]
    · simp [stepOf, nameOf, hname, Ne.symm h.1, normpath, ih h.2]

variable {fs : FileSystem} {paths : ScopedPaths} {text value : Text} {allowRoot : Bool}
  {readRoots : List PurePath}
  {lexical root real p : AbsPath} {roots : List AbsPath} {names : List FileName}

theorem abspath_join (h : ['.', '.'] ∉ text.splitOn '/') :
    fs.abspath (root.join (pathSteps text)) = ⟨root.anchor, root.parts ++ namesOf text⟩ := by
  simp [FileSystem.abspath, AbsPath.join, normpath_append, normpath_down,
    pathSteps, normpath_stepOf h, namesOf]

theorem abspath_ofText {anchor : Anchor} (h : ['.', '.'] ∉ text.splitOn '/')
    (hanchor : anchorOf text = some anchor) :
    fs.abspath (.ofText text) = ⟨anchor, namesOf text⟩ := by
  simp [FileSystem.abspath, PurePath.ofText, hanchor, pathSteps, normpath_stepOf h, namesOf]

theorem IsRelativeTo.eq_append (h : lexical.IsRelativeTo root) :
    lexical = ⟨root.anchor, root.parts ++ lexical.relativeTo root⟩ := by
  obtain ⟨anchor, parts⟩ := lexical
  obtain ⟨rfl, rest, rfl⟩ := h
  simp [AbsPath.relativeTo]

/-! ## The root a text names -/

def IsScope (scope : Text) : Prop := scope = workspaceScope ∨ scope = projectScope

variable {scope s : Text}

theorem IsScope.no_colon (h : IsScope scope) : ':' ∉ scope := by
  rcases h with rfl | rfl <;> decide

theorem isScope_of_root (h : paths.root scope = .ok root) : IsScope scope := by
  by_contra hscope
  rw [IsScope, not_or] at hscope
  rw [ScopedPaths.root, if_neg hscope.1, if_neg hscope.2] at h
  cases h

theorem takeWhile_scope (h : ':' ∉ scope) : (scope ++ ':' :: s).takeWhile (· ≠ ':') = scope := by
  rw [List.takeWhile_append_of_pos fun c hc => by simpa using fun heq : c = ':' => h (heq ▸ hc)]
  simp

theorem dropWhile_scope (h : ':' ∉ scope) : (scope ++ ':' :: s).dropWhile (· ≠ ':') = ':' :: s := by
  rw [List.dropWhile_append_of_pos fun c hc => by simpa using fun heq : c = ':' => h (heq ▸ hc)]
  simp

/-- The root a text names, and the names that follow it there. -/
inductive Requested (fs : FileSystem) (paths : ScopedPaths) (readRoots : List PurePath)
    (value : Text) :
    AbsPath → List FileName → Prop where
  | inScope {scope relative : Text} {root : AbsPath}
    (htext : normalized value = scope ++ ':' :: relative)
      (hcolon : ':' ∉ relative) (hroot : paths.root scope = .ok root) :
      Requested fs paths readRoots value root (namesOf relative)
  | relative (hanchor : anchorOf (normalized value) = none) (hcolon : ':' ∉ normalized value) :
      Requested fs paths readRoots value (paths.project.getD paths.workspace)
      (namesOf (normalized value))
  | absolute {root : AbsPath} {names : List FileName}
    (hanchor : anchorOf (normalized value) = some root.anchor)
      (hcolon : ':' ∉ normalized value)
      (hroot : root ∈ paths.workspace :: paths.project.toList ++ readRoots.map fs.abspath)
      (hnames : namesOf (normalized value) = root.parts ++ names) :
      Requested fs paths readRoots value root names

theorem hasDrive_of_anchor {anchor : Anchor} (h : anchorOf text = some anchor) :
    hasDrive text = false := by
  cases text with
  | nil => rfl
  | cons c text =>
    have hc : c = '/' := by
      by_contra hc
      simp [anchorOf, hc] at h
    subst hc
    cases text with
    | nil => rfl
    | cons d text =>
      by_cases hd : d = ':'
      · subst hd; rfl
      · simp [hasDrive, hd]

theorem eq_scope_append (h : ':' ∈ text) :
    text = text.takeWhile (· ≠ ':') ++ ':' :: (text.dropWhile (· ≠ ':')).tail := by
  induction text with
  | nil => cases h
  | cons c text ih =>
    by_cases hc : c = ':'
    · simp [hc]
    · have hmem : ':' ∈ text := (List.mem_cons.mp h).resolve_left (Ne.symm hc)
      simp only [ne_eq, hc, not_false_eq_true, decide_true, List.takeWhile_cons_of_pos,
        List.dropWhile_cons_of_pos,
        List.cons_append]
      rw [← ih hmem]

theorem root_error {scope : Text} {e : PathError} (h : paths.root scope = .error e) :
    ∃ message, e = .valueError message := by
  rw [ScopedPaths.root] at h
  split at h
  · cases h
  · split at h
    · split at h
      · cases h
        exact ⟨_, rfl⟩
      · cases h
    · cases h
      exact ⟨_, rfl⟩

variable (fs paths value allowRoot readRoots) in
/-- A result of `resolve` is a ValueError, or that of the loop over roots that its text names. -/
def Settled (result : Except PathError AbsPath) : Prop :=
  (∃ message, result = .error (.valueError message)) ∨
    ∃ lexical roots, result = ScopedPaths.firstRoot fs lexical allowRoot roots ∧
      ∀ root ∈ roots, lexical.IsRelativeTo root →
        Requested fs paths readRoots value root (lexical.relativeTo root)

theorem settled_error (message : String) :
    Settled fs paths value allowRoot readRoots (.error (.valueError message)) :=
  .inl ⟨message, rfl⟩

theorem settled_confine {parts : List Text} {candidate : PurePath}
    (h : ['.', '.'] ∉ parts → ∀ root ∈ roots, (fs.abspath candidate).IsRelativeTo root →
      Requested fs paths readRoots value root ((fs.abspath candidate).relativeTo root)) :
    Settled fs paths value allowRoot readRoots
      (ScopedPaths.confine fs text parts candidate roots allowRoot) := by
  rw [ScopedPaths.confine]
  split
  · exact settled_error _
  · next hdots => exact .inr ⟨_, _, rfl, h fun hmem => hdots (.inl hmem)⟩

/-- Below a root a text is joined to, the names are those of the text. -/
theorem relativeTo_join (h : ['.', '.'] ∉ text.splitOn '/') :
    (fs.abspath (root.join (pathSteps text))).relativeTo root = namesOf text := by
  rw [abspath_join h]
  simp [AbsPath.relativeTo]

theorem resolve_settled (fs : FileSystem) (paths : ScopedPaths) (value : Text) (allowRoot : Bool)
    (readRoots : List PurePath) :
    Settled fs paths value allowRoot readRoots (paths.resolve fs value allowRoot readRoots) := by
  rw [ScopedPaths.resolve]
  split
  · exact settled_error _
  simp only
  split
  · next hscope =>
    cases hroot : paths.root ((normalized value).takeWhile (· ≠ ':')) with
    | error e =>
      obtain ⟨message, rfl⟩ := root_error hroot
      exact settled_error message
    | ok root =>
      simp only
      split
      · exact settled_error _
      · next hrelative =>
        refine settled_confine fun hdots root' hmem _ => ?_
        cases List.mem_singleton.mp hmem
        rw [relativeTo_join hdots]
        exact .inScope (eq_scope_append hscope.1) (fun hmem => hrelative (.inr hmem)) hroot
  split
  · exact settled_error _
  next hdrive =>
  split
  · exact settled_error _
  next hcolon =>
  rw [not_or, not_and_not_right] at hcolon
  cases hanchor : anchorOf (normalized value) with
  | none =>
    have hnocolon : ':' ∉ normalized value := fun hmem => hdrive ⟨hcolon.2 hmem, hanchor⟩
    simp only [PurePath.ofText, hanchor]
    refine settled_confine fun hdots root' hmem _ => ?_
    cases List.mem_singleton.mp hmem
    rw [relativeTo_join hdots]
    exact .relative hanchor hnocolon
  | some anchor =>
    have hnocolon : ':' ∉ normalized value := fun hmem => by
      have hletter := hcolon.2 hmem
      rw [hasDrive_of_anchor hanchor] at hletter
      cases hletter
    simp only [PurePath.ofText, hanchor]
    refine settled_confine fun hdots root' hmem hrel => ?_
    have hlex : fs.abspath (.ofText (normalized value)) = _ := abspath_ofText hdots hanchor
    rw [PurePath.ofText, hanchor] at hlex
    rw [hlex] at hrel ⊢
    have hparts := IsRelativeTo.eq_append hrel
    exact .absolute (by rw [hanchor]; exact congrArg some hrel.1) hnocolon
      hmem (congrArg AbsPath.parts hparts)

/-! ## The loop over the roots -/

theorem inspect_ok {current : List FileName} {info : FileEntry FileName}
    (h : ScopedPaths.inspect fs current = .ok ()) (hinfo : fs.lstat current = .ok info) :
    ¬info.IsLink := by
  rw [ScopedPaths.inspect, hinfo] at h
  by_contra hlink
  simp [hlink] at h

theorem inspectAll_ok {current parts init : List FileName}
    (h : ScopedPaths.inspectAll fs current parts = .ok ()) (hinit : init <+: parts) :
    ScopedPaths.inspect fs (current ++ init) = .ok () := by
  induction parts generalizing current init with
  | nil =>
    rw [List.prefix_nil.mp hinit]
    simpa [ScopedPaths.inspectAll] using h
  | cons part parts ih =>
    rw [ScopedPaths.inspectAll] at h
    cases hcurrent : ScopedPaths.inspect fs current with
    | error e => simp [hcurrent] at h
    | ok =>
      simp only [hcurrent] at h
      cases init with
      | nil => simpa using hcurrent
      | cons first init =>
        rw [List.cons_prefix_cons] at hinit
        obtain ⟨rfl, hrest⟩ := hinit
        simpa using ih h hrest

theorem inspect_error {current : List FileName} {e : PathError}
    (h : ScopedPaths.inspect fs current = .error e) :
    ∃ message, e = .valueError message := by
  rw [ScopedPaths.inspect] at h
  split at h
  · cases h
  · cases h
    exact ⟨_, rfl⟩
  · cases h
    exact ⟨_, rfl⟩
  · split at h
    · cases h
      exact ⟨_, rfl⟩
    · cases h

theorem inspectAll_error {current parts : List FileName} {e : PathError}
    (h : ScopedPaths.inspectAll fs current parts = .error e) :
    ∃ message, e = .valueError message := by
  induction parts generalizing current with
  | nil => exact inspect_error h
  | cons part parts ih =>
    rw [ScopedPaths.inspectAll] at h
    cases hcurrent : ScopedPaths.inspect fs current with
    | error e' =>
      simp only [hcurrent] at h
      cases h
      exact inspect_error hcurrent
    | ok =>
      simp only [hcurrent] at h
      exact ih h

/-- What a root has to do with a path that the loop returns for it. -/
structure Chosen (fs : FileSystem) (lexical root : AbsPath) (allowRoot : Bool) (p real : AbsPath) :
    Prop where
  relative : lexical.IsRelativeTo root
  links : ScopedPaths.rejectLinks fs lexical root = .ok ()
  real_path : fs.resolve lexical = some p
  root_real : fs.resolve root = some real
  inside : p.IsRelativeTo real
  not_root : p = real → allowRoot = true

theorem firstRoot_ok (h : ScopedPaths.firstRoot fs lexical allowRoot roots = .ok p) :
    ∃ root ∈ roots, ∃ real, Chosen fs lexical root allowRoot p real := by
  induction roots with
  | nil => cases h
  | cons root roots ih =>
    rw [ScopedPaths.firstRoot] at h
    have hlater (h : ScopedPaths.firstRoot fs lexical allowRoot roots = .ok p) :
        ∃ root' ∈ root :: roots, ∃ real, Chosen fs lexical root' allowRoot p real := by
      obtain ⟨root', hmem, hroot'⟩ := ih h
      exact ⟨root', List.mem_cons_of_mem _ hmem, hroot'⟩
    split at h
    · exact hlater h
    next hrel =>
    split at h
    · cases h
    next hlinks =>
    split at h
    · cases h
    next resolved hresolved =>
    split at h
    · cases h
    next real hreal =>
    split at h
    · exact hlater h
    next hinside =>
    split at h
    · cases h
    next hroot =>
    cases h
    refine ⟨root, List.mem_cons_self, real, not_not.mp hrel, hlinks, hresolved,
      hreal, not_not.mp hinside, fun heq => ?_⟩
    by_contra hallow
    exact hroot ⟨heq, by simpa using hallow⟩

/-! ## Resolved paths -/

theorem resolve_eq_some {path : AbsPath} : fs.resolve path = some p ↔
    ∃ r, fs.tree.realpath fs.realDepth path.parts = some r ∧ FileSystem.abspathOf r = p ∧
      ¬fs.tree.Loops fs.kernelLinks p.parts := by
  rw [FileSystem.resolve, Option.filter_eq_some_iff, Option.map_eq_some_iff, decide_eq_true_eq]
  constructor
  · rintro ⟨⟨r, hr, heq⟩, hloops⟩
    exact ⟨r, hr, heq, hloops⟩
  · rintro ⟨r, hr, heq, hloops⟩
    exact ⟨⟨r, hr, heq⟩, hloops⟩

/-- The names after a loop are names below it. -/
theorem abspathOf_loop (slashes : Nat) (place names : List FileName)
    (rest : List (PathStep FileName)) :
    FileSystem.abspathOf (.loop slashes place (rest ++ names.map .down)) =
      ⟨(FileSystem.abspathOf (.loop slashes place rest)).anchor,
        (FileSystem.abspathOf (.loop slashes place rest)).parts ++ names⟩ := by
  simp [FileSystem.abspathOf, normpath_append, normpath_down]

/-- Where the real path of a root's descendant is found, so is that of the root. -/
theorem resolve_root (h : lexical.IsRelativeTo root) (hreal : fs.resolve lexical = some p) :
    ∃ real, fs.resolve root = some real := by
  obtain ⟨-, names, hparts⟩ := h
  obtain ⟨r, hr, rfl, hloops⟩ := resolve_eq_some.mp hreal
  rw [← hparts, FileTree.realpath_append] at hr
  rcases hroot : fs.tree.realpath fs.realDepth root.parts with _ | (place | ⟨slashes, place, rest⟩)
  · rw [hroot] at hr
    cases hr
  · exact ⟨_, resolve_eq_some.mpr ⟨_, hroot, rfl, (FileTree.realpath_linkFree hroot).not_loops⟩⟩
  · rw [hroot] at hr
    cases hr
    rw [abspathOf_loop] at hloops
    exact ⟨_, resolve_eq_some.mpr ⟨_, hroot, rfl, fun hroot => hloops (hroot.append names)⟩⟩

/-- Names that are no links are kept below the real path of a root. -/
theorem resolve_names {anchor : Anchor} (hreal : fs.resolve root = some real)
    (hfree : fs.tree.LinkFree [] (real.parts ++ names)) :
    fs.resolve ⟨anchor, root.parts ++ names⟩ = some ⟨real.anchor, real.parts ++ names⟩ := by
  obtain ⟨r, hr, rfl, -⟩ := resolve_eq_some.mp hreal
  refine resolve_eq_some.mpr ?_
  rw [FileTree.realpath_append, hr]
  cases r with
  | place place => exact ⟨_, FileTree.joinRealpath_names hfree.drop _ _, rfl, hfree.not_loops⟩
  | loop slashes place rest => exact ⟨_, rfl, abspathOf_loop .., hfree.not_loops⟩

/-- A path without links is its real path. -/
theorem resolve_self (hfree : fs.tree.LinkFree [] p.parts) (hanchor : p.anchor = .slash) :
    fs.resolve p = some p := by
  obtain ⟨anchor, parts⟩ := p
  obtain rfl : anchor = .slash := hanchor
  exact resolve_eq_some.mpr ⟨_, FileTree.joinRealpath_names hfree _ _, rfl, hfree.not_loops⟩

theorem firstRoot_error {e : PathError}
    (h : ScopedPaths.firstRoot fs lexical allowRoot roots = .error e) :
    ∃ message, e = .valueError message := by
  induction roots with
  | nil =>
    cases h
    exact ⟨_, rfl⟩
  | cons root roots ih =>
    rw [ScopedPaths.firstRoot] at h
    split at h
    · exact ih h
    next hrel =>
    split at h
    · next hlinks =>
      cases h
      exact inspectAll_error hlinks
    split at h
    · cases h
      exact ⟨_, rfl⟩
    next resolved hresolved =>
    split at h
    · next hnone =>
      obtain ⟨real, hreal⟩ := resolve_root (not_not.mp hrel) hresolved
      rw [hreal] at hnone
      cases hnone
    split at h
    · exact ih h
    split at h
    · cases h
      exact ⟨_, rfl⟩
    · cases h

/-! ## Confinement -/

/-- A path for `names` below `root`: no link leads to it, neither on the way to the root's real path
nor below that. -/
structure Confined (fs : FileSystem) (root : AbsPath) (names : List FileName)
    (allowRoot : Bool) (p real : AbsPath) : Prop where
  root_real : fs.resolve root = some real
  inside : p = ⟨real.anchor, real.parts ++ names⟩
  link_free : fs.tree.LinkFree [] p.parts
  not_root : p = real → allowRoot = true

variable (fs paths value allowRoot readRoots) in
/-- The path is confined to a root that the text names. -/
def Confines (p : AbsPath) : Prop :=
  ∃ root names real, Requested fs paths readRoots value root names ∧
    Confined fs root names allowRoot p real

variable (fs paths value allowRoot readRoots) in
/-- No name that the text spells below a root is a link, where the root really is. -/
def NoLinkNamed : Prop :=
  ∃ root names real, Requested fs paths readRoots value root names ∧ fs.resolve root = some real ∧
    fs.tree.LinkFree [] (real.parts ++ names) ∧ (names = [] → allowRoot = true)

/-- The roots that a text names agree on the path. -/
theorem Requested.same_path {root' : AbsPath} {names' : List FileName}
    (h : Requested fs paths readRoots value root names)
    (h' : Requested fs paths readRoots value root' names') :
    root.parts ++ names = root'.parts ++ names' := by
  cases h with
  | @inScope scope relative _ htext _ hroot =>
    have hcolon : ':' ∈ normalized value := by simp [htext]
    cases h' with
    | @inScope scope' relative' _ htext' _ hroot' =>
      have htexts := htext.symm.trans htext'
      have hscope := congrArg (List.takeWhile (· ≠ ':')) htexts
      rw [takeWhile_scope (isScope_of_root hroot).no_colon,
        takeWhile_scope (isScope_of_root hroot').no_colon] at hscope
      subst hscope
      obtain rfl : relative = relative' := by simpa using htexts
      obtain rfl := Except.ok.inj (hroot.symm.trans hroot')
      rfl
    | relative hanchor' hno' => exact absurd hcolon hno'
    | absolute hanchor' hno' _ _ => exact absurd hcolon hno'
  | relative hanchor hno =>
    cases h' with
    | inScope htext' _ _ => exact absurd (by simp [htext']) hno
    | relative hanchor' hno' => rfl
    | absolute hanchor' _ _ _ => cases hanchor.symm.trans hanchor'
  | absolute hanchor hno _ hnames =>
    cases h' with
    | inScope htext' _ _ => exact absurd (by simp [htext']) hno
    | relative hanchor' _ => cases hanchor.symm.trans hanchor'
    | absolute _ _ _ hnames' => exact hnames.symm.trans hnames'

theorem resolve_chosen (h : paths.resolve fs value allowRoot readRoots = .ok p) :
    ∃ lexical root real, Requested fs paths readRoots value root (lexical.relativeTo root) ∧
      Chosen fs lexical root allowRoot p real := by
  rcases resolve_settled fs paths value allowRoot readRoots with ⟨message,
    herror⟩ | ⟨lexical, roots, hloop, hroots⟩
  · rw [herror] at h
    cases h
  · rw [hloop] at h
    obtain ⟨root, hmem, real, hchosen⟩ := firstRoot_ok h
    exact ⟨lexical, root, real, hroots root hmem hchosen.relative, hchosen⟩

/-- Where the names that a text spells are no links, the path is the real path of a root with these
names. -/
theorem confines_of_noLinkNamed (h : paths.resolve fs value allowRoot readRoots = .ok p)
    (hnames : NoLinkNamed fs paths value allowRoot readRoots) :
    Confines fs paths value allowRoot readRoots p := by
  obtain ⟨lexical, root, real, hrequested, hchosen⟩ := resolve_chosen h
  obtain ⟨root', names, real', hrequested', hreal, hfree, hallow⟩ := hnames
  have hlexical : lexical.parts = root'.parts ++ names := by
    rw [IsRelativeTo.eq_append hchosen.relative]
    exact hrequested.same_path hrequested'
  have hp : fs.resolve lexical = some ⟨real'.anchor, real'.parts ++ names⟩ := by
    rw [show lexical = ⟨lexical.anchor, root'.parts ++ names⟩ by rw [← hlexical]]
    exact resolve_names hreal hfree
  obtain rfl := Option.some.inj (hchosen.real_path.symm.trans hp)
  exact ⟨root', names, real', hrequested', hreal, rfl, hfree, fun heq =>
    hallow (by simpa using congrArg AbsPath.parts heq)⟩

theorem Confines.noLinkNamed (h : Confines fs paths value allowRoot readRoots p) :
    NoLinkNamed fs paths value allowRoot readRoots := by
  obtain ⟨root, names, real, hrequested, hreal, rfl, hfree, hroot⟩ := h
  refine ⟨root, names, real, hrequested, hreal, hfree, ?_⟩
  rintro rfl
  exact hroot (by rw [List.append_nil])

/-- Where `lstat` finds the root, `reject_links` misses no link below it. -/
theorem Chosen.confined (h : Chosen fs lexical root allowRoot p real) {info : FileEntry FileName}
    (hinfo : fs.lstat root.parts = .ok info) :
    Confined fs root (lexical.relativeTo root) allowRoot p real := by
  have hplain : ¬info.IsLink :=
    inspect_ok (inspectAll_ok h.links List.nil_prefix) (by simpa using hinfo)
  obtain ⟨r, hr, hreal, -⟩ := resolve_eq_some.mp h.root_real
  obtain ⟨place, rfl, -, -⟩ := FileTree.lstat_found hinfo hplain hr
  have hbelow : fs.tree.LinkFree place (lexical.relativeTo root) :=
    FileTree.linkFree_below hinfo hplain hr fun init name hpre info' hinfo' =>
      inspect_ok (inspectAll_ok h.links hpre) (by rw [← List.append_assoc]; exact hinfo')
  have hfree : fs.tree.LinkFree [] (real.parts ++ lexical.relativeTo root) := by
    rw [← hreal]
    exact (FileTree.realpath_linkFree hr).append hbelow
  have hp := h.real_path
  rw [IsRelativeTo.eq_append h.relative, resolve_names h.root_real hfree] at hp
  obtain rfl := Option.some.inj hp
  exact ⟨h.root_real, rfl, hfree, h.not_root⟩

/-- Only ValueError leaves `resolve`. What it returns is confined to a root that its text names
exactly where no name that the text spells there is a link; so always where `lstat` finds the roots
that the text names. -/
theorem resolve_confined (fs : FileSystem) (paths : ScopedPaths) (value : Text) (allowRoot : Bool)
    (readRoots : List PurePath) :
    (∀ e, paths.resolve fs value allowRoot readRoots = .error e →
      ∃ message, e = .valueError message) ∧
      ∀ p, paths.resolve fs value allowRoot readRoots = .ok p →
        (Confines fs paths value allowRoot readRoots p ↔
          NoLinkNamed fs paths value allowRoot readRoots) ∧
          ((∀ root names, Requested fs paths readRoots value root names →
            ∃ info, fs.lstat root.parts = .ok info) →
            Confines fs paths value allowRoot readRoots p) := by
  refine ⟨fun e he => ?_, fun p hp =>
    ⟨⟨Confines.noLinkNamed, confines_of_noLinkNamed hp⟩, fun hfound => ?_⟩⟩
  · rcases resolve_settled fs paths value allowRoot readRoots with ⟨message,
      h⟩ | ⟨lexical, roots, h, -⟩
    · rw [h] at he
      cases he
      exact ⟨message, rfl⟩
    · rw [h] at he
      exact firstRoot_error he
  · obtain ⟨lexical, root, real, hrequested, hchosen⟩ := resolve_chosen hp
    obtain ⟨info, hinfo⟩ := hfound root _ hrequested
    exact ⟨root, _, real, hrequested, hchosen.confined hinfo⟩

/-! ## A root that is not found -/

namespace Hidden

def l : FileName := ⟨['l'], by decide⟩

def missing : FileName := ⟨['m', 'i', 's', 's', 'i', 'n', 'g'], by decide⟩

def away : FileName := ⟨['a', 'w', 'a', 'y'], by decide⟩

def ws : FileName := ⟨['w', 's'], by decide⟩

def x : FileName := ⟨['x'], by decide⟩

def y : FileName := ⟨['y'], by decide⟩

def out : FileName := ⟨['o', 'u', 't'], by decide⟩

def secret : FileName := ⟨['s', 'e', 'c', 'r', 'e', 't'], by decide⟩

def entry (place : List FileName) : FileEntry FileName :=
  if place = [] ∨ place = [away] ∨ place = [away, ws] ∨ place = [out] then .dir
  else if place = [out, secret] then .file
  else if place = [l] then .link false [.down missing, .up, .down away]
  else if place = [away, ws, x] then .link false [.down x, .up, .down y]
  else if place = [away, ws, y] then .link true [.down out]
  else .missing

theorem entry_closed (place : List FileName) (name : FileName) (h : entry place ≠ .dir) :
    entry (place ++ [name]) = .missing := by
  rcases place with _ | ⟨a, _ | ⟨b, _ | ⟨c, rest⟩⟩⟩
  · exact absurd rfl h
  · have haway : a ≠ away := fun heq => h (heq ▸ rfl)
    have hout : a ≠ out := fun heq => h (heq ▸ rfl)
    simp [entry, haway, hout]
  · have hws : [a, b] ≠ [away, ws] := fun heq => h (heq ▸ rfl)
    have hx : [a, b, name] ≠ [away, ws, x] := fun heq => hws (List.append_inj_left' heq rfl)
    have hy : [a, b, name] ≠ [away, ws, y] := fun heq => hws (List.append_inj_left' heq rfl)
    rw [List.cons_append, List.singleton_append, entry, if_neg (by simp),
      if_neg (by simp), if_neg (by simp), if_neg hx, if_neg hy]
  · simp [entry]

/-- `/l -> missing/../away`, `/away/ws/x -> x/../y` and `/away/ws/y -> /out`. -/
def tree : FileTree FileName := ⟨entry, rfl, entry_closed⟩

def disk : FileSystem := ⟨tree, ⟨.slash, []⟩, 40, 900⟩

/-- The workspace is `/l/ws`. -/
def workspace : ScopedPaths := ⟨⟨.slash, [l, ws]⟩, none⟩

def asked : Text := workspaceScope ++ [':', 'x', '/', 's', 'e', 'c', 'r', 'e', 't']

end Hidden

/-- The kernel finds no `/l/ws`, as it cannot enter `missing`; `Path.resolve` steps out of it again.
The loop `x` leaves the link `y` in the path that is returned, and the kernel follows it to
`/out/secret`. -/
theorem hidden_link_followed :
    ∃ (fs : FileSystem) (paths : ScopedPaths) (value : Text) (p : AbsPath) (dir :
      List FileName) (name : FileName) (left : Nat),
      paths.resolve fs value false [] = .ok p ∧ ¬Confines fs paths value false [] p ∧
        p.parts.getLast? = some name ∧ fs.tree.walk FileTree.checkDir .loop fs.kernelLinks []
        (p.parts.dropLast.map .down) = .ok (dir, left) ∧
        fs.tree.entry (dir ++ [name]) = .file ∧ ∀ real, fs.resolve paths.workspace = some real →
          ¬real.parts <+: dir := by
  refine ⟨Hidden.disk, Hidden.workspace, Hidden.asked,
    ⟨.slash, [Hidden.away, Hidden.ws, Hidden.y, Hidden.secret]⟩, [Hidden.out],
    Hidden.secret, 39, by decide +kernel, ?_, by decide +kernel, by decide +kernel, rfl, ?_⟩
  · rintro ⟨root, names, real, -, -, -, hfree, -⟩
    exact hfree [Hidden.away, Hidden.ws] Hidden.y (by decide) (by decide +kernel)
  · intro real hreal
    have hws : Hidden.disk.resolve Hidden.workspace.workspace =
        some ⟨.slash, [Hidden.away, Hidden.ws]⟩ := by decide +kernel
    obtain rfl := Option.some.inj (hws.symm.trans hreal)
    decide +kernel

end MiniAgent.Files
