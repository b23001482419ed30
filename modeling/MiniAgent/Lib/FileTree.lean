import Mathlib.Data.List.Infix
import Mathlib.Tactic.Common

/-!
# Trees of files with symbolic links

A path is walked from a directory one step at a time, and a link is replaced by its target. `walk`
asks `check` about every other entry and follows at most so many links; the kernel accepts
directories only.

`realpath` need not find what a path names. A link that is met while it is followed stays in the
path, and so does the rest of the way. `realpath` comes to the end of every walk that ends
(`joinRealpath_of_walk`). So where `lstat` finds a root, `realpath` does, and where `lstat` finds no
link below it, there is none (`linkFree_below`).
-/

namespace Lib

/-- The parts of a path between its slashes. `.` and the empty part stay where they are. -/
inductive PathStep (Name : Type) where
  | here (empty : Bool)
  | up
  | down (name : Name)

/-- The slashes that a way begins with. -/
def PathStep.slashes {Name : Type} : List (PathStep Name) → Nat
  | .here true :: step :: way => slashes (step :: way) + 1
  | _ => 0

theorem PathStep.slashes_names {Name : Type} (names : List Name) :
    slashes (names.map .down) = 0 := by
  cases names <;> rfl

inductive FileEntry (Name : Type) where
  | missing
  | file
  | dir
  | link (absolute : Bool) (target : List (PathStep Name))

/-- Where a link leads from a directory, and the way from there. -/
def FileEntry.follow {Name : Type} (place : List Name) :
    FileEntry Name → Option (List Name × List (PathStep Name))
  | .link absolute target => some (if absolute then [] else place, target)
  | _ => none

def FileEntry.IsLink {Name : Type} : FileEntry Name → Prop
  | .link _ _ => True
  | _ => False

instance {Name : Type} : (e : FileEntry Name) → Decidable e.IsLink
  | .link _ _ => isTrue trivial
  | .missing | .file | .dir => isFalse id

theorem FileEntry.follow_eq_none {Name : Type} {place : List Name} {e : FileEntry Name} :
    e.follow place = none ↔ ¬e.IsLink := by
  cases e <;> simp [follow, IsLink]

theorem FileEntry.follow_start {Name : Type} {place start : List Name} {e : FileEntry Name}
    {target : List (PathStep Name)} (h : e.follow place = some (start, target)) :
    start = [] ∨ start = place := by
  cases e with
  | link absolute target' =>
    simp only [follow, Option.some.injEq, Prod.mk.injEq] at h
    cases absolute
    · exact .inr h.1.symm
    · exact .inl h.1.symm
  | missing | file | dir => cases h

/-- The entries at the places of a tree. Nothing is below an entry that is no directory. -/
structure FileTree (Name : Type) where
  entry : List Name → FileEntry Name
  root_dir : entry [] = .dir
  closed : ∀ place name, entry place ≠ .dir → entry (place ++ [name]) = .missing

namespace FileTree

variable {Name : Type} (t : FileTree Name)

theorem dir_of_append {place names : List Name} (h : t.entry (place ++ names) = .dir) :
    t.entry place = .dir := by
  induction names using List.reverseRecOn with
  | nil => simpa using h
  | append_singleton names name ih =>
    apply ih
    by_contra hdir
    rw [← List.append_assoc, t.closed _ _ hdir] at h
    cases h

/-! ## Walks -/

section Walk

variable {ε : Type} (check : FileEntry Name → Except ε Unit) (loop : ε)

/-- What a walk comes to: its end, or a link and where it leads. -/
inductive Halt (Name : Type) where
  | arrived (place : List Name)
  | link (place : List Name) (way : List (PathStep Name))

def advance (place : List Name) : List (PathStep Name) → Except ε (Halt Name)
  | [] => .ok (.arrived place)
  | .here _ :: way => advance place way
  | .up :: way => advance place.dropLast way
  | .down name :: way => match (t.entry (place ++ [name])).follow place with
    | some (start, target) => .ok (.link start (target ++ way))
    | none => match check (t.entry (place ++ [name])) with
      | .error e => .error e
      | .ok () => advance (place ++ [name]) way

/-- The walk from `place`, and how many more links it may follow at its end. -/
def walk : Nat → List Name → List (PathStep Name) → Except ε (List Name × Nat)
  | links, place, way => match t.advance check place way with
    | .error e => .error e
    | .ok (.arrived place) => .ok (place, links)
    | .ok (.link place way) => match links with
      | 0 => .error loop
      | links + 1 => walk links place way

variable {links : Nat} {place : List Name} {way : List (PathStep Name)} {name : Name}

@[simp] theorem walk_nil : t.walk check loop links place [] = .ok (place, links) := by
  rw [walk, advance]

@[simp] theorem walk_here {empty : Bool} :
    t.walk check loop links place (.here empty :: way) = t.walk check loop links place way := by
  rw [walk, walk, advance]

@[simp] theorem walk_up :
    t.walk check loop links place (.up :: way) = t.walk check loop links place.dropLast way := by
  rw [walk, walk, advance]

theorem walk_down (h : (t.entry (place ++ [name])).follow place = none) :
    t.walk check loop links place (.down name :: way) =
      match check (t.entry (place ++ [name])) with
      | .error e => .error e
      | .ok () => t.walk check loop links (place ++ [name]) way := by
  rw [walk, walk, advance, h]
  cases check (t.entry (place ++ [name])) <;> rfl

theorem walk_link_zero {start : List Name} {target : List (PathStep Name)}
    (h : (t.entry (place ++ [name])).follow place = some (start, target)) :
    t.walk check loop 0 place (.down name :: way) = .error loop := by
  rw [walk, advance, h]

theorem walk_link_succ {start : List Name} {target : List (PathStep Name)}
    (h : (t.entry (place ++ [name])).follow place = some (start, target)) :
    t.walk check loop (links + 1) place (.down name :: way) =
      t.walk check loop links start (target ++ way) := by
  rw [walk, advance, h]

/-- Induction along a walk: on the links it may follow, and between two links on the way. -/
theorem walk_induction {P : Nat → List Name → List (PathStep Name) → Prop}
    (nil : ∀ links place, P links place [])
    (here : ∀ links place empty way, P links place way → P links place (.here empty :: way))
    (up : ∀ links place way, P links place.dropLast way → P links place (.up :: way))
    (down : ∀ links place name way, (t.entry (place ++ [name])).follow place = none →
      P links (place ++ [name]) way → P links place (.down name :: way))
    (stuck : ∀ place name way next, (t.entry (place ++ [name])).follow place = some next →
      P 0 place (.down name :: way))
    (link : ∀ links place name way start target, (t.entry (place ++ [name])).follow place =
      some (start, target) →
      P links start (target ++ way) → P (links + 1) place (.down name :: way)) :
    ∀ links place way, P links place way := by
  intro links
  induction links with
  | zero =>
    intro place way
    induction way generalizing place with
    | nil => exact nil 0 place
    | cons step way ih =>
      cases step with
      | here empty => exact here 0 place empty way (ih place)
      | up => exact up 0 place way (ih _)
      | down name =>
        cases h : (t.entry (place ++ [name])).follow place with
        | none => exact down 0 place name way h (ih _)
        | some next => exact stuck place name way next h
  | succ links ihlinks =>
    intro place way
    induction way generalizing place with
    | nil => exact nil _ place
    | cons step way ih =>
      cases step with
      | here empty => exact here _ place empty way (ih place)
      | up => exact up _ place way (ih _)
      | down name =>
        cases h : (t.entry (place ++ [name])).follow place with
        | none => exact down _ place name way h (ih _)
        | some next => exact link links place name way next.1 next.2 h (ihlinks _ _)

/-- A walk goes on where its first part has ended. -/
theorem walk_append (a b : List (PathStep Name)) :
    t.walk check loop links place (a ++ b) =
      match t.walk check loop links place a with
      | .error e => .error e
      | .ok (place, links) => t.walk check loop links place b := by
  induction links, place, a using t.walk_induction with
  | nil links place => simp
  | here links place empty a ih => simpa using ih
  | up links place a ih => simpa using ih
  | down links place name a h ih =>
    rw [List.cons_append, t.walk_down check loop h, t.walk_down check loop h]
    cases check (t.entry (place ++ [name])) with
    | error e => rfl
    | ok => exact ih
  | stuck place name a next h =>
    rw [List.cons_append, t.walk_link_zero check loop h, t.walk_link_zero check loop h]
  | link links place name a start target h ih =>
    rw [List.cons_append, t.walk_link_succ check loop h, t.walk_link_succ check loop h,
      ← List.append_assoc]
    exact ih

/-- More links to follow do no harm. -/
theorem walk_more (k : Nat) {end' : List Name × Nat}
    (h : t.walk check loop links place way = .ok end') :
    t.walk check loop (links + k) place way = .ok (end'.1, end'.2 + k) := by
  induction links, place, way using t.walk_induction with
  | nil links place => simp at h ⊢; simp [← h]
  | here links place empty way ih => simpa using ih (by simpa using h)
  | up links place way ih => simpa using ih (by simpa using h)
  | down links place name way hplain ih =>
    rw [t.walk_down check loop hplain] at h ⊢
    cases hcheck : check (t.entry (place ++ [name])) with
    | error e => simp [hcheck] at h
    | ok =>
      simp only [hcheck] at h ⊢
      exact ih h
  | stuck place name way next hlink => rw [t.walk_link_zero check loop hlink] at h; cases h
  | link links place name way start target hlink ih =>
    rw [t.walk_link_succ check loop hlink] at h
    rw [show links + 1 + k = links + k + 1 by omega, t.walk_link_succ check loop hlink]
    exact ih h

/-- Links that are left over are not needed. -/
theorem walk_less {left : Nat} {p : List Name}
    (h : t.walk check loop links place way = .ok (p, left)) :
    left ≤ links ∧ t.walk check loop (links - left) place way = .ok (p, 0) := by
  induction links, place, way using t.walk_induction with
  | nil links place =>
    rw [walk_nil] at h
    cases h
    exact ⟨Nat.le_refl _, by rw [walk_nil, Nat.sub_self]⟩
  | here links place empty way ih => simpa using ih (by simpa using h)
  | up links place way ih => simpa using ih (by simpa using h)
  | down links place name way hplain ih =>
    rw [t.walk_down check loop hplain] at h ⊢
    cases hcheck : check (t.entry (place ++ [name])) with
    | error e => simp [hcheck] at h
    | ok =>
      simp only [hcheck] at h ⊢
      exact ih h
  | stuck place name way next hlink => rw [t.walk_link_zero check loop hlink] at h; cases h
  | link links place name way start target hlink ih =>
    rw [t.walk_link_succ check loop hlink] at h
    obtain ⟨hle, hwalk⟩ := ih h
    refine ⟨Nat.le_succ_of_le hle, ?_⟩
    rw [show links + 1 - left = links - left + 1 by omega, t.walk_link_succ check loop hlink]
    exact hwalk

/-- A way takes so many links and no others. -/
theorem walk_links {links links' : Nat} {p q : List Name}
    (hp : t.walk check loop links place way = .ok (p, 0))
    (hq : t.walk check loop links' place way = .ok (q, 0)) : links = links' := by
  have hp' := t.walk_more check loop links' hp
  have hq' := t.walk_more check loop links hq
  rw [Nat.add_comm, hq'] at hp'
  simp only [Except.ok.injEq, Prod.mk.injEq] at hp'
  omega

/-- A check that accepts more leaves a walk that ends as it is. -/
theorem walk_lenient {ε' : Type} (check' : FileEntry Name → Except ε' Unit) (loop' : ε')
    (hcheck : ∀ e, check e = .ok () → check' e = .ok ()) {end' : List Name × Nat}
    (h : t.walk check loop links place way = .ok end') :
    t.walk check' loop' links place way = .ok end' := by
  induction links, place, way using t.walk_induction with
  | nil links place => simpa using h
  | here links place empty way ih => simpa using ih (by simpa using h)
  | up links place way ih => simpa using ih (by simpa using h)
  | down links place name way hplain ih =>
    rw [t.walk_down check loop hplain] at h
    rw [t.walk_down check' loop' hplain]
    cases hok : check (t.entry (place ++ [name])) with
    | error e => simp [hok] at h
    | ok =>
      simp only [hok] at h
      simp only [hcheck _ hok]
      exact ih h
  | stuck place name way next hlink => rw [t.walk_link_zero check loop hlink] at h; cases h
  | link links place name way start target hlink ih =>
    rw [t.walk_link_succ check loop hlink] at h
    rw [t.walk_link_succ check' loop' hlink]
    exact ih h

end Walk

/-! ## Places that no link leads to -/

/-- Below `place` no name is passed that is a link. -/
def LinkFree (place names : List Name) : Prop :=
  ∀ init name, init ++ [name] <+: names → ¬(t.entry (place ++ init ++ [name])).IsLink

variable {t} {links : Nat} {place names p : List Name}

theorem linkFree_nil : t.LinkFree place [] := by
  intro init name h
  simp at h

theorem LinkFree.of_prefix {names' : List Name} (h : t.LinkFree place names)
    (hpre : names' <+: names) :
    t.LinkFree place names' :=
  fun init name hi => h init name (hi.trans hpre)

theorem LinkFree.concat {name : Name} (h : t.LinkFree place names)
    (hname : ¬(t.entry (place ++ names ++ [name])).IsLink) :
    t.LinkFree place (names ++ [name]) := by
  intro init last hpre
  rcases List.prefix_concat_iff.mp hpre with heq | hpre
  · obtain ⟨rfl, rfl⟩ := List.append_inj' heq rfl |>.imp_right (by simpa using ·)
    exact hname
  · exact h init last hpre

theorem linkFree_cons {name : Name} : t.LinkFree place (name :: names) ↔
    ¬(t.entry (place ++ [name])).IsLink ∧ t.LinkFree (place ++ [name]) names := by
  constructor
  · intro h
    refine ⟨by simpa using h [] name (by simp), fun init last hpre => ?_⟩
    simpa using h (name :: init) last (by simpa using hpre)
  · rintro ⟨hname, h⟩ init last hpre
    cases init with
    | nil =>
      obtain ⟨rfl, -⟩ := List.cons_prefix_cons.mp hpre
      simpa using hname
    | cons first init =>
      rw [List.cons_append, List.cons_prefix_cons] at hpre
      obtain ⟨rfl, hinit⟩ := hpre
      simpa using h init last hinit

theorem LinkFree.append (h : t.LinkFree [] place) (hnames : t.LinkFree place names) :
    t.LinkFree [] (place ++ names) := by
  induction names using List.reverseRecOn with
  | nil => simpa using h
  | append_singleton names name ih =>
    rw [← List.append_assoc]
    exact (ih (hnames.of_prefix (List.prefix_append _ _))).concat
      (by simpa using hnames names name List.prefix_rfl)

theorem LinkFree.drop (h : t.LinkFree [] (place ++ names)) : t.LinkFree place names := by
  intro init name hpre
  have hplace : place ++ init ++ [name] <+: place ++ names := by
    rw [List.append_assoc]
    exact (List.prefix_append_right_inj place).mpr hpre
  simpa using h (place ++ init) name hplace

/-! ## The real path -/

/-- The walk of `realpath` accepts what is missing. -/
def acceptAll : FileEntry Name → Except Unit Unit := fun _ => .ok ()

section Real

/-- What `realpath` makes of a way: a place; or the place of a link that is met while it is
followed, and the rest of the way from there. Before the names of the place stand so many
slashes. -/
inductive Resolved (Name : Type) where
  | place (place : List Name)
  | loop (slashes : Nat) (place : List Name) (rest : List (PathStep Name))

/-- `os.path.join` of what has been resolved and the rest of the way after a loop. -/
def Resolved.join : Resolved Name → List (PathStep Name) → Resolved Name
  | .place place, _ => .place place
  | .loop slashes place rest, way =>
    if PathStep.slashes way = 0 then .loop slashes place (rest ++ way)
      else .loop (PathStep.slashes way) [] way

theorem Resolved.loop_join_names (slashes : Nat) (place : List Name) (rest : List (PathStep Name))
    (names : List Name) :
    (Resolved.loop slashes place rest).join (names.map .down) =
      .loop slashes place (rest ++ names.map .down) := by
  rw [join, if_pos (PathStep.slashes_names names)]

theorem Resolved.loop_join_ne (slashes : Nat) (place : List Name)
    (rest way : List (PathStep Name)) (p : List Name) :
    (Resolved.loop slashes place rest).join way ≠ .place p := by
  rw [join]
  split <;> simp

variable [DecidableEq Name]

variable (t) in
/-- `_joinrealpath`, where `nested` resolves the target of a link, and `seen` are the links that are
followed. -/
def joinSteps
    (nested : List (List Name) → List Name → List (PathStep Name) → Option (Resolved Name))
    (seen : List (List Name)) :
    List Name → List (PathStep Name) → Option (Resolved Name)
  | place, [] => some (.place place)
  | place, .here _ :: way => joinSteps nested seen place way
  | place, .up :: way => joinSteps nested seen place.dropLast way
  | place, .down name :: way => match (t.entry (place ++ [name])).follow place with
    | none => joinSteps nested seen (place ++ [name]) way
    | some (start, target) =>
      if place ++ [name] ∈ seen then some ((Resolved.loop 1 (place ++ [name]) []).join way)
      else match nested ((place ++ [name]) :: seen) start target with
        | none => none
        | some (.place place) => joinSteps nested seen place way
        | some (.loop slashes place rest) => some ((Resolved.loop slashes place rest).join way)

variable (t) in
/-- Links are followed within links as deep as `depth`. -/
def joinRealpath : Nat → List (List Name) → List Name → List (PathStep Name) →
    Option (Resolved Name)
  | 0 => t.joinSteps fun _ _ _ => none
  | depth + 1 => t.joinSteps (joinRealpath depth)

variable (t) in
def realpath (depth : Nat) (path : List Name) : Option (Resolved Name) :=
  t.joinRealpath depth [] [] (path.map .down)

variable {nested : List (List Name) → List Name → List (PathStep Name) → Option (Resolved Name)}
  {seen : List (List Name)}
  {depth : Nat} {way : List (PathStep Name)}

/-- What holds of `joinSteps` for every nesting that it holds of, and of the one that fails, holds
of `joinRealpath`. -/
theorem joinRealpath_of_steps
    {P : (List (List Name) → List Name → List (PathStep Name) → Option (Resolved Name)) → Prop}
    (none : P fun _ _ _ => none) (steps : ∀ nested, P nested → P (t.joinSteps nested))
    (depth : Nat) :
      P (t.joinRealpath depth) := by
  induction depth with
  | zero => exact steps _ none
  | succ depth ih => exact steps _ ih

/-- Names that are no links are passed as they are. -/
theorem joinSteps_names (h : t.LinkFree place names) :
    t.joinSteps nested seen place (names.map .down) = some (.place (place ++ names)) := by
  induction names generalizing place with
  | nil => simp [joinSteps]
  | cons name names ih =>
    rw [linkFree_cons] at h
    rw [List.map_cons, joinSteps, FileEntry.follow_eq_none.mpr h.1]
    simpa using ih h.2

/-- After names come names; a loop keeps them. -/
theorem joinSteps_append (a b : List Name) : t.joinSteps nested seen place ((a ++ b).map .down) =
    match t.joinSteps nested seen place (a.map .down) with
    | none => none
    | some (.place place) => t.joinSteps nested seen place (b.map .down)
    | some (.loop slashes place rest) => some (.loop slashes place (rest ++ b.map .down)) := by
  induction a generalizing place with
  | nil => rfl
  | cons name a ih =>
    rw [List.cons_append, List.map_cons, List.map_cons, joinSteps, joinSteps]
    cases (t.entry (place ++ [name])).follow place with
    | none => exact ih
    | some next =>
      dsimp only
      split
      · rw [Resolved.loop_join_names, Resolved.loop_join_names, List.map_append]
        simp
      · rcases nested ((place ++ [name]) :: seen) next.1
          next.2 with _ | (inner | ⟨slashes, inner, rest⟩)
        · rfl
        · exact ih
        · dsimp only
          rw [Resolved.loop_join_names, Resolved.loop_join_names, List.map_append]
          simp

theorem joinRealpath_names (h : t.LinkFree place names) (depth : Nat) (seen : List (List Name)) :
    t.joinRealpath depth seen place (names.map .down) = some (.place (place ++ names)) := by
  cases depth <;> exact joinSteps_names h

theorem joinRealpath_append (depth : Nat) (seen : List (List Name)) (a b : List Name) :
    t.joinRealpath depth seen place ((a ++ b).map .down) =
      match t.joinRealpath depth seen place (a.map .down) with
      | none => none
      | some (.place place) => t.joinRealpath depth seen place (b.map .down)
      | some (.loop slashes place rest) => some (.loop slashes place (rest ++ b.map .down)) := by
  cases depth <;> exact joinSteps_append a b

/-- A place that is resolved is one that no link leads to. -/
theorem joinSteps_linkFree
    (hnested : ∀ seen start way p, nested seen start way = some (.place p) →
      t.LinkFree [] start → t.LinkFree [] p)
    (h : t.joinSteps nested seen place way = some (.place p)) (hplace : t.LinkFree [] place) :
    t.LinkFree [] p := by
  induction way generalizing place with
  | nil =>
    cases h
    exact hplace
  | cons step way ih =>
    cases step with
    | here empty => exact ih h hplace
    | up => exact ih h (hplace.of_prefix (List.dropLast_prefix place))
    | down name =>
      rw [joinSteps] at h
      split at h
      · next hplain =>
          exact ih h (hplace.concat (by simpa using FileEntry.follow_eq_none.mp hplain))
      · next start target hlink =>
        split at h
        · exact absurd (Option.some.inj h) (Resolved.loop_join_ne _ _ _ _ _)
        · split at h
          · cases h
          · next inner hinner =>
            refine ih h (hnested _ _ _ _ hinner ?_)
            rcases FileEntry.follow_start hlink with rfl | rfl
            · exact linkFree_nil
            · exact hplace
          · exact absurd (Option.some.inj h) (Resolved.loop_join_ne _ _ _ _ _)

theorem realpath_append (depth : Nat) (a b : List Name) : t.realpath depth (a ++ b) =
    match t.realpath depth a with
    | none => none
    | some (.place place) => t.joinRealpath depth [] place (b.map .down)
    | some (.loop slashes place rest) => some (.loop slashes place (rest ++ b.map .down)) :=
  joinRealpath_append depth [] a b

theorem realpath_linkFree (h : t.realpath depth names = some (.place p)) : t.LinkFree [] p := by
  refine joinRealpath_of_steps (t := t)
    (P := fun resolve => ∀ seen start way p, resolve seen start way = some (.place p) →
    t.LinkFree [] start → t.LinkFree [] p) ?_ ?_ depth _ _ _ _ h linkFree_nil
  · intro _ _ _ _ hnone
    cases hnone
  · exact fun nested hnested _ _ _ _ => joinSteps_linkFree hnested

/-- The links that are followed need more than so many links. -/
def Unfinished (t : FileTree Name) (seen : List (List Name)) (links : Nat) : Prop :=
  ∀ place name, place ++ [name] ∈ seen → ∀ k q, t.walk acceptAll () k place [.down name] =
    .ok (q, 0) → links < k

/-- A walk that ends comes into no loop: a link that is followed needs more links than what is left
of its target. -/
theorem joinSteps_of_walk
    (hnested : ∀ seen start way p links, t.walk acceptAll () links start way = .ok (p, 0) →
      t.Unfinished seen links →
      nested seen start way = none ∨ nested seen start way = some (.place p))
    (hwalk : t.walk acceptAll () links place way = .ok (p, 0)) (hseen : t.Unfinished seen links) :
    t.joinSteps nested seen place way = none ∨ t.joinSteps nested seen place way =
      some (.place p) := by
  induction way generalizing place links with
  | nil =>
    rw [walk_nil] at hwalk
    cases hwalk
    exact .inr rfl
  | cons step way ih =>
    cases step with
    | here empty => exact ih (by simpa using hwalk) hseen
    | up => exact ih (by simpa using hwalk) hseen
    | down name =>
      rw [joinSteps]
      cases hfollow : (t.entry (place ++ [name])).follow place with
      | none =>
        rw [t.walk_down _ _ hfollow] at hwalk
        exact ih hwalk hseen
      | some next =>
        obtain ⟨start, target⟩ := next
        cases links with
        | zero =>
          rw [t.walk_link_zero _ _ hfollow] at hwalk
          cases hwalk
        | succ links =>
          rw [t.walk_link_succ _ _ hfollow, walk_append] at hwalk
          split at hwalk
          · cases hwalk
          next q left htarget =>
          obtain ⟨hleft, htarget⟩ := t.walk_less _ _ htarget
          -- the link alone
          have hself : t.walk acceptAll () (links - left + 1) place [.down name] = .ok (q, 0) := by
            rw [t.walk_link_succ _ _ hfollow, List.append_nil]
            exact htarget
          have hnew : place ++ [name] ∉ seen := fun hmem => by
            have hless := hseen place name hmem _ _ hself
            omega
          have hinner : t.Unfinished ((place ++ [name]) :: seen) (links - left) := by
            intro place' name' hmem k q' hk
            rcases List.mem_cons.mp hmem with heq | hmem
            · obtain ⟨rfl, hname⟩ := List.append_inj' heq rfl
              obtain rfl : name' = name := by simpa using hname
              have hsame := t.walk_links _ _ hself hk
              omega
            · have hless := hseen place' name' hmem k q' hk
              omega
          dsimp only
          rw [if_neg hnew]
          rcases hnested _ _ _ _ _ htarget hinner with hnone | hsome
          · rw [hnone]
            exact .inl rfl
          · rw [hsome]
            refine ih hwalk fun place' name' hmem k q' hk => ?_
            have hless := hseen place' name' hmem k q' hk
            omega

/-- **A walk that ends is resolved to its end**, if its links are not nested too deep. -/
theorem joinRealpath_of_walk {left : Nat}
    (h : t.walk acceptAll () links [] (names.map .down) = .ok (p, left)) :
    t.realpath depth names = none ∨ t.realpath depth names = some (.place p) := by
  refine joinRealpath_of_steps (t := t) (P := fun resolve => ∀ seen start way p links,
    t.walk acceptAll () links start way = .ok (p, 0) → t.Unfinished seen links →
      resolve seen start way = none ∨ resolve seen start way = some (.place p))
        ?_ ?_ depth _ _ _ _ _ (t.walk_less _ _ h).2 ?_
  · exact fun _ _ _ _ _ _ _ => .inl rfl
  · exact fun nested hnested _ _ _ _ _ => joinSteps_of_walk hnested
  · intro _ _ hmem
    cases hmem

end Real

/-! ## The kernel -/

inductive LookupError where
  | notFound
  | failed
  | loop
  deriving DecidableEq

def checkDir : FileEntry Name → Except LookupError Unit
  | .dir => .ok ()
  | .missing => .error .notFound
  | _ => .error .failed

variable (t links) in
/-- The entry a path names; the last name is not followed. -/
def lstat (path : List Name) : Except LookupError (FileEntry Name) :=
  match path.getLast? with
  | none => .ok (t.entry [])
  | some last => match t.walk checkDir .loop links [] (path.dropLast.map .down) with
    | .error e => .error e
    | .ok (dir, _) => match t.entry (dir ++ [last]) with
      | .missing => .error .notFound
      | e => .ok e

theorem lstat_concat {init : List Name} {last : Name} : t.lstat links (init ++ [last]) =
    match t.walk checkDir .loop links [] (init.map .down) with
    | .error e => .error e
    | .ok (dir, _) => match t.entry (dir ++ [last]) with
      | .missing => .error .notFound
      | e => .ok e := by
  rw [lstat, List.getLast?_concat, List.dropLast_concat]

/-- Below a directory the kernel walks to a directory. -/
theorem walk_dirs (links : Nat) (h : t.entry (place ++ names) = .dir) :
    t.walk checkDir .loop links place (names.map .down) = .ok (place ++ names, links) := by
  induction names generalizing place with
  | nil => simp
  | cons name names ih =>
    rw [List.append_cons] at h
    have hname := t.dir_of_append h
    rw [List.map_cons, t.walk_down _ _ (by rw [hname]; rfl), hname]
    simpa [checkDir] using ih h

variable (t links) in
/-- The kernel comes into a loop; the last name is followed too. -/
def Loops (path : List Name) : Prop :=
  t.walk checkDir .loop links [] (path.map .down) = .error .loop

instance [DecidableEq Name] (links : Nat) (path : List Name) : Decidable (t.Loops links path) :=
  inferInstanceAs (Decidable (_ = _))

theorem Loops.append (h : t.Loops links p) (names : List Name) : t.Loops links (p ++ names) := by
  rw [Loops, List.map_append, walk_append, h]

/-- A path without links is no loop. -/
theorem LinkFree.not_loops (h : t.LinkFree [] p) : ¬t.Loops links p := by
  suffices ∀ place, t.LinkFree place p → t.walk checkDir .loop links place (p.map .down) ≠
      .error .loop from this [] h
  clear h
  induction p with
  | nil => intro place _; simp
  | cons name p ih =>
    intro place h
    rw [linkFree_cons] at h
    rw [List.map_cons, t.walk_down _ _ (FileEntry.follow_eq_none.mpr h.1)]
    cases t.entry (place ++ [name]) with
    | dir => exact ih _ h.2
    | missing | file | link => simp [checkDir]

variable [DecidableEq Name] {depth : Nat} {root : List Name} {e : FileEntry Name}
  {r : Resolved Name}

/-- Where the kernel finds a root that is no link: its directory, and the name there. -/
theorem lstat_found (h : t.lstat links root = .ok e) (hplain : ¬e.IsLink)
    (hreal : t.realpath depth root = some r) :
    ∃ place, r = .place place ∧ t.entry place = e ∧
      (e = .dir → ∃ k, t.walk checkDir .loop links [] (root.map .down) = .ok (place, k)) := by
  rcases List.eq_nil_or_concat' root with rfl | ⟨init, last, rfl⟩
  · rw [realpath, List.map_nil] at hreal
    cases depth <;> cases hreal <;> cases h <;> exact ⟨[], rfl, rfl, fun _ => ⟨links, walk_nil ..⟩⟩
  · rw [lstat_concat] at h
    cases hwalk : t.walk checkDir .loop links [] (init.map .down) with
    | error x => simp [hwalk] at h
    | ok end' =>
      obtain ⟨dir, k⟩ := end'
      simp only [hwalk] at h
      have he : t.entry (dir ++ [last]) = e := by
        split at h
        · cases h
        · cases h
          rfl
      have hfollow : (t.entry (dir ++ [last])).follow dir = none :=
        FileEntry.follow_eq_none.mpr (he ▸ hplain)
      -- the lenient walk passes the same places
      have hlenient := t.walk_lenient checkDir .loop acceptAll () (fun _ _ => rfl) hwalk
      have hend : t.walk acceptAll () links [] ((init ++ [last]).map .down) =
          .ok (dir ++ [last], k) := by
        rw [List.map_append, walk_append, hlenient]
        simp [t.walk_down _ _ hfollow, acceptAll]
      obtain rfl : .place (dir ++ [last]) = r := by
        have hend' : t.realpath depth _ = none ∨ _ := joinRealpath_of_walk hend
        rcases hend' with hnone | hsome
        · cases hnone.symm.trans hreal
        · exact Option.some.inj (hsome.symm.trans hreal)
      refine ⟨_, rfl, he, fun hdir => ⟨k, ?_⟩⟩
      rw [List.map_append, walk_append, hwalk]
      simp [t.walk_down _ _ hfollow, he, hdir, checkDir]

/-- Where the kernel finds a root that is no link and no link below it, the real path keeps the
names below the root. -/
theorem linkFree_below (h : t.lstat links root = .ok e) (hplain : ¬e.IsLink)
    (hreal : t.realpath depth root = some (.place place))
    (hbelow : ∀ init name, init ++ [name] <+: names → ∀ e, t.lstat links (root ++ init ++ [name]) =
      .ok e → ¬e.IsLink) :
    t.LinkFree place names := by
  intro init name hpre hlink
  obtain ⟨place', hplace, he, hwalk⟩ := lstat_found h hplain hreal
  obtain rfl : place = place' := by simpa using hplace
  by_cases hdir : t.entry (place ++ init) = .dir
  · obtain ⟨k, hroot⟩ := hwalk (he ▸ t.dir_of_append hdir)
    have hinit : t.walk checkDir .loop links [] ((root ++ init).map .down) =
        .ok (place ++ init, k) := by
      rw [List.map_append, walk_append, hroot]
      exact walk_dirs k hdir
    have hstat : t.lstat links (root ++ init ++ [name]) =
        .ok (t.entry (place ++ init ++ [name])) := by
      rw [lstat_concat, hinit]
      simp only
      split
      · next hmiss => rw [hmiss] at hlink; exact hlink.elim
      · rfl
    exact hbelow init name hpre _ hstat hlink
  · rw [t.closed _ _ hdir] at hlink
    exact hlink

end FileTree

end Lib
