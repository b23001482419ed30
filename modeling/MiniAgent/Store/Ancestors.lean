import Mathlib.Data.List.Dedup
import MiniAgent.Lib.Climb
import MiniAgent.Store.Tree

/-!
# The walk to the root

The loop of `RuntimeStateTree.ancestors` turn by turn, without fuel. A turn that goes on has come to
a node of the tree and has put one more key on the list of those it has seen, so that the loop ends
(`walk_ends`) for any nodes, also where their parents lead in a circle. It returns the way up from
the start when there is one that passes no key twice, and raises otherwise.
-/

namespace MiniAgent.Store

open Lib Turn

namespace RuntimeStateTree

variable {host : Host} (tree : RuntimeStateTree host)

/-- The variables of the loop. -/
structure Walk (host : Host) where
  current : Node host
  seen : List (String × String)
  path : List (Node host)

/-- One turn of the loop: the variables after it, or what the call ends with. -/
def turn (w : Walk host) : Walk host ⊕ Except Err (List (Node host)) :=
  if w.current.key ∈ w.seen then .inr (.error (.validation "Turn parent chain contains a cycle."))
  else match w.current with
    | .root _ _ => .inr (.ok (w.path ++ [w.current]).reverse)
    | .turn t =>
      if t.val.parentId = "" then
        .inr (.error (.validation "A non-root Turn must have a parent Turn."))
      else match tree.get? t.val.parentSessionId t.val.parentId with
        | none => .inr (.error (.validation "Turn parent is missing."))
        | some parent =>
          if t.val.parentSessionId ≠ t.val.sessionId then
            .inr (.error (.validation "A Turn cannot continue across Sessions."))
          else if t.val.parentThreadId ≠ parent.threadId then
            .inr (.error (.validation "parent_thread_id does not match the parent Turn."))
          else .inl ⟨parent, w.current.key :: w.seen, w.path ++ [w.current]⟩

/-- What the loop ends with within `n` turns. -/
def walk : Nat → Walk host → Option (Except Err (List (Node host)))
  | 0, _ => none
  | n + 1, w => match tree.turn w with
    | .inl w' => walk n w'
    | .inr result => some result

/-- The argument of `ancestors`. -/
inductive Source (host : Host) where
  | node (node : Node host)
  | key (sessionId id : String)

/-- `ancestors` of a node or of a key. -/
def ancestorsOf : Source host → Except Err (List (Node host))
  | .node start => tree.ancestors start
  | .key sessionId id => match tree.get? sessionId id with
    | some start => tree.ancestors start
    | none => .error (.keyError s!"Unknown Turn: {id}")

/-! ## The way up -/

/-- The node a Turn continues: stored, of its Session, and in the Thread that `parent_thread_id`
names. -/
def parentOf : Node host → Option (Node host)
  | .root _ _ => none
  | .turn t =>
    if t.val.parentId ≠ "" ∧ t.val.parentSessionId = t.val.sessionId then
      (tree.get? t.val.parentSessionId t.val.parentId).filter fun parent =>
        t.val.parentThreadId = parent.threadId
    else none

/-- Following the parents from the start leads to a root; `up` is what is passed. -/
abbrev LeadsUp (start : Node host) (up : List (Node host)) : Prop :=
  Climbs tree.parentOf (fun top => top.isRoot) start up

variable {tree} {w : Walk host} {start parent : Node host} {up : List (Node host)} {n m : Nat}
  {result : Except Err (List (Node host))}

theorem parentOf_eq_some {t : ValidTurn host} :
    tree.parentOf (.turn t) = some parent ↔ t.val.parentId ≠ "" ∧
    t.val.parentSessionId = t.val.sessionId ∧ tree.get? t.val.parentSessionId t.val.parentId =
      some parent ∧
    t.val.parentThreadId = parent.threadId := by
  rw [parentOf]
  split
  · next h =>
    rw [Option.filter_eq_some_iff, decide_eq_true_eq]
    exact ⟨fun hp => ⟨h.1, h.2, hp⟩, fun hp => hp.2.2⟩
  · next h => exact ⟨fun hp => (nomatch hp), fun hp => absurd ⟨hp.1, hp.2.1⟩ h⟩

/-- **One turn.** -/
theorem turn_cases (tree : RuntimeStateTree host) (w : Walk host) :
    (∃ text, tree.turn w = .inr (.error (.validation text)) ∧ (w.current.key ∈ w.seen ∨
      w.current.isRoot = false ∧ tree.parentOf w.current = none)) ∨
    (w.current.key ∉ w.seen ∧ w.current.isRoot = true ∧
      tree.turn w = .inr (.ok (w.path ++ [w.current]).reverse)) ∨
    ∃ parent, w.current.key ∉ w.seen ∧ tree.parentOf w.current = some parent ∧
      tree.turn w = .inl ⟨parent, w.current.key :: w.seen, w.path ++ [w.current]⟩ := by
  obtain ⟨current, seen, path⟩ := w
  by_cases hseen : current.key ∈ seen
  · exact .inl ⟨_, if_pos hseen, .inl hseen⟩
  cases current with
  | root sessionId id => exact .inr (.inl ⟨hseen, rfl, by simp only [turn, if_neg hseen]⟩)
  | turn t =>
    simp only [turn, if_neg hseen]
    -- each check that fails leaves the Turn without a parent
    by_cases hid : t.val.parentId = ""
    · refine .inl ⟨_, if_pos hid, .inr ⟨rfl, ?_⟩⟩
      rw [parentOf, if_neg fun h => h.1 hid]
    rw [if_neg hid]
    rcases hget : tree.get? t.val.parentSessionId t.val.parentId with _ | parent
    · refine .inl ⟨_, rfl, .inr ⟨rfl, ?_⟩⟩
      rw [parentOf, hget]
      split <;> rfl
    dsimp only
    by_cases hsession : t.val.parentSessionId = t.val.sessionId
    · rw [if_neg (not_not.mpr hsession)]
      by_cases hthread : t.val.parentThreadId = parent.threadId
      · rw [if_neg (not_not.mpr hthread)]
        exact .inr (.inr ⟨parent, hseen, parentOf_eq_some.mpr ⟨hid, hsession, hget, hthread⟩, rfl⟩)
      · refine .inl ⟨_, if_pos hthread, .inr ⟨rfl, ?_⟩⟩
        rw [parentOf, if_pos ⟨hid, hsession⟩, hget]
        simp [hthread]
    · refine .inl ⟨_, if_pos hsession, .inr ⟨rfl, ?_⟩⟩
      rw [parentOf, if_neg fun h => hsession h.2]

/-! ## The loop ends -/

/-- The nodes of the tree whose keys are not yet seen. -/
def unseen (tree : RuntimeStateTree host) (seen : List (String × String)) : List (Node host) :=
  tree.nodes.filter fun node => node.key ∉ seen

theorem length_unseen_cons {seen : List (String × String)} (hmem : start ∈ tree.nodes)
    (hseen : start.key ∉ seen) :
    (tree.unseen (start.key :: seen)).length < (tree.unseen seen).length := by
  have hsub : tree.unseen (start.key :: seen) = (tree.unseen seen).filter fun node =>
      node.key ≠ start.key := by
    rw [unseen, unseen, List.filter_filter]
    refine List.filter_congr fun node _ => ?_
    simp [not_or]
  rw [hsub]
  refine List.length_filter_lt_length_iff_exists.mpr
    ⟨start, List.mem_filter.mpr ⟨hmem, by simpa using hseen⟩, by simp⟩

theorem parentOf_mem (h : tree.parentOf start = some parent) : parent ∈ tree.nodes := by
  cases start with
  | root sessionId id => cases h
  | turn t => exact List.mem_of_find?_eq_some (parentOf_eq_some.mp h).2.2.1

/-- From a node of the tree the loop ends: each turn sees one more of its keys. -/
theorem walk_of_mem (hmem : w.current ∈ tree.nodes) (hn : (tree.unseen w.seen).length < n) :
    ∃ result, tree.walk n w = some result := by
  induction n generalizing w with
  | zero => omega
  | succ n ih =>
    rw [walk]
    rcases turn_cases tree w with ⟨text, hturn, -⟩ | ⟨-, -, hturn⟩ | ⟨parent, hseen, hparent, hturn⟩
    · exact ⟨_, by rw [hturn]⟩
    · exact ⟨_, by rw [hturn]⟩
    · rw [hturn]
      have hless := length_unseen_cons hmem hseen
      have hleft : (tree.unseen (w.current.key :: w.seen)).length < n := by omega
      exact ih (w := ⟨parent, w.current.key :: w.seen, w.path ++ [w.current]⟩)
        (parentOf_mem hparent) hleft

/-- **The loop ends**, also from a node that is not in the tree. -/
theorem walk_ends (tree : RuntimeStateTree host) (start : Node host) :
    ∃ result, tree.walk (tree.nodes.length + 2) ⟨start, [], []⟩ = some result := by
  rw [walk]
  rcases turn_cases tree ⟨start, [], []⟩ with ⟨text, hturn, -⟩ | ⟨-, -, hturn⟩ | ⟨parent,
    hseen, hparent, hturn⟩
  · exact ⟨_, by rw [hturn]⟩
  · exact ⟨_, by rw [hturn]⟩
  · rw [hturn]
    exact walk_of_mem (parentOf_mem hparent) (Nat.lt_succ_of_le (List.length_filter_le _ _))

/-- What the loop has ended with stays. -/
theorem walk_mono (h : tree.walk n w = some result) (hle : n ≤ m) :
    tree.walk m w = some result := by
  induction n generalizing w m with
  | zero => cases h
  | succ n ih =>
    obtain ⟨m, rfl⟩ : ∃ k, m = k + 1 := ⟨m - 1, by omega⟩
    rw [walk] at h ⊢
    rcases hturn : tree.turn w with w' | result'
    · rw [hturn] at h
      exact ih h (Nat.le_of_succ_le_succ hle)
    · rw [hturn] at h
      exact h

/-! ## What it returns -/

/-- What the loop ends with is what `ancestors` computes on the way back. -/
theorem walk_ancestorsFrom (h : tree.walk n w = some result) :
    result = (tree.ancestorsFrom n w.seen w.current).map fun path => path ++ w.path.reverse := by
  induction n generalizing w with
  | zero => cases h
  | succ n ih =>
    obtain ⟨current, seen, path⟩ := w
    rw [walk] at h
    dsimp only
    unfold ancestorsFrom
    by_cases hseen : current.key ∈ seen
    · simp only [turn, if_pos hseen] at h
      cases h
      simp [require, hseen, Except.map, bind, Except.bind]
    cases current with
    | root sessionId id =>
      simp only [turn, if_neg hseen] at h
      cases h
      simp [require, hseen, Except.map, bind, Except.bind, pure, Except.pure]
    | turn t =>
      simp only [turn, if_neg hseen] at h
      simp only [require, hseen, not_false_eq_true, decide_true, if_true, ok_bind]
      by_cases hid : t.val.parentId = ""
      · rw [if_pos hid] at h
        cases h
        simp [hid, Except.map, bind, Except.bind]
      rw [if_neg hid] at h
      simp only [bne_iff_ne.mpr hid, if_true, ok_bind]
      rcases hget : tree.get? t.val.parentSessionId t.val.parentId with _ | parent
      · rw [hget] at h
        cases h
        rfl
      rw [hget] at h
      dsimp only at h ⊢
      by_cases hsession : t.val.parentSessionId = t.val.sessionId
      · rw [if_neg (not_not.mpr hsession)] at h
        simp only [beq_iff_eq.mpr hsession, if_true, ok_bind]
        by_cases hthread : t.val.parentThreadId = parent.threadId
        · rw [if_neg (not_not.mpr hthread)] at h
          simp only [beq_iff_eq.mpr hthread, if_true, ok_bind]
          rw [ih h]
          rcases tree.ancestorsFrom n ((Node.turn t).key :: seen) parent with e | above
          · rfl
          · simp [Except.map, bind, Except.bind, pure, Except.pure]
        · rw [if_pos hthread] at h
          cases h
          simp [hthread, Except.map, bind, Except.bind]
      · rw [if_pos hsession] at h
        cases h
        simp [hsession, Except.map, bind, Except.bind]

theorem walk_ancestors (tree : RuntimeStateTree host) (start : Node host) :
    tree.walk (tree.nodes.length + 2) ⟨start, [], []⟩ = some (tree.ancestors start) := by
  obtain ⟨result, hwalk⟩ := walk_ends tree start
  rw [hwalk, walk_ancestorsFrom hwalk]
  show some ((tree.ancestors start).map fun path => path ++ []) = _
  rcases tree.ancestors start with e | path
  · rfl
  · rw [Except.map, List.append_nil]

/-- The loop follows a way up whose keys it has not seen. -/
theorem walk_climbs {current : Node host} {seen : List (String × String)}
    {path : List (Node host)} (h : tree.LeadsUp current up) (hnodup : (up.map Node.key).Nodup)
    (hseen : ∀ key ∈ up.map Node.key, key ∉ seen) :
    tree.walk up.length ⟨current, seen, path⟩ = some (.ok (path ++ up).reverse) := by
  induction h generalizing seen path with
  | @stop top htop =>
    have hfresh : top.key ∉ seen := hseen _ (List.mem_singleton_self _)
    rw [List.length_singleton, walk]
    rcases turn_cases tree ⟨top, seen, path⟩ with ⟨text, -, hin | ⟨hroot, -⟩⟩ | ⟨-,
      -, hturn⟩ | ⟨parent, -, hparent, -⟩
    · exact absurd hin hfresh
    · cases htop.symm.trans hroot
    · rw [hturn]
    · cases top with
      | root sessionId id => cases hparent
      | turn t => cases htop
  | @step current parent up hup rest ih =>
    rw [List.map_cons, List.nodup_cons] at hnodup
    have hfresh : current.key ∉ seen := hseen _ List.mem_cons_self
    rw [List.length_cons, walk]
    rcases turn_cases tree ⟨current, seen, path⟩ with ⟨text, -, hin | ⟨-, hnone⟩⟩ | ⟨-,
      hroot, -⟩ | ⟨parent', -, hparent, hturn⟩
    · exact absurd hin hfresh
    · cases hnone.symm.trans hup
    · cases current with
      | root sessionId id => cases hup
      | turn t => cases hroot
    · cases hparent.symm.trans hup
      rw [hturn]
      dsimp only
      rw [ih hnodup.2, List.append_assoc]
      · rfl
      · intro key hkey hin
        rcases List.mem_cons.mp hin with rfl | hin
        · exact hnodup.1 hkey
        · exact hseen key (List.mem_cons_of_mem _ hkey) hin

/-- What the loop returns is a way up whose keys it had not seen; what it raises is a validation
error. -/
theorem walk_result (h : tree.walk n w = some result) :
    (∃ text, result = .error (.validation text)) ∨ ∃ up, tree.LeadsUp w.current up ∧
      (up.map Node.key).Nodup ∧
      (∀ key ∈ up.map Node.key, key ∉ w.seen) ∧ result = .ok (w.path ++ up).reverse := by
  induction n generalizing w with
  | zero => cases h
  | succ n ih =>
    rw [walk] at h
    rcases turn_cases tree w with ⟨text, hturn, -⟩ | ⟨hseen, hroot, hturn⟩ | ⟨parent,
      hseen, hparent, hturn⟩
    · rw [hturn] at h
      cases h
      exact .inl ⟨text, rfl⟩
    · rw [hturn] at h
      cases h
      exact .inr ⟨[w.current], .stop hroot, List.nodup_singleton _, by simpa using hseen, rfl⟩
    · rw [hturn] at h
      rcases ih h with hraised | ⟨up, hup, hnodup, hfresh, rfl⟩
      · exact .inl hraised
      · refine .inr ⟨w.current :: up, .step hparent hup, ?_, ?_, by simp⟩
        · rw [List.map_cons, List.nodup_cons]
          exact ⟨fun hin => hfresh _ hin List.mem_cons_self, hnodup⟩
        · intro key hkey
          rcases List.mem_cons.mp hkey with rfl | hkey
          · exact hseen
          · exact fun hin => hfresh key hkey (List.mem_cons_of_mem _ hin)

/-- `ancestors` as a statement about the way up. -/
structure FindsWay (tree : RuntimeStateTree host) (start : Node host)
    (result : Except Err (List (Node host))) : Prop where
  ends : ∃ n, tree.walk n ⟨start, [], []⟩ = some result
  returns : ∀ path, result = .ok path ↔ ∃ up, tree.LeadsUp start up ∧ (up.map Node.key).Nodup ∧
    path = up.reverse
  raises : (¬ ∃ up, tree.LeadsUp start up ∧ (up.map Node.key).Nodup) →
    ∃ text, result = .error (.validation text)

theorem findsWay (tree : RuntimeStateTree host) (start : Node host) :
    tree.FindsWay start (tree.ancestors start) := by
  have hwalk := walk_ancestors tree start
  have hfollow : ∀ up, tree.LeadsUp start up → (up.map Node.key).Nodup →
      tree.ancestors start = .ok up.reverse := by
    intro up hup hnodup
    have hway : tree.walk up.length ⟨start, [], []⟩ = some (.ok ([] ++ up).reverse) :=
      walk_climbs hup hnodup fun key _ hin => nomatch hin
    have hboth := (walk_mono hwalk (Nat.le_max_left _ up.length)).symm.trans
      (walk_mono hway (Nat.le_max_right (tree.nodes.length + 2) _))
    exact Option.some.inj hboth
  refine ⟨⟨_, hwalk⟩, fun path => ⟨fun hpath => ?_, ?_⟩, fun hno => ?_⟩
  · rcases walk_result hwalk with ⟨text, hraised⟩ | ⟨up, hup, hnodup, -, hreturned⟩
    · cases hpath.symm.trans hraised
    · exact ⟨up, hup, hnodup, Except.ok.inj (hpath.symm.trans hreturned)⟩
  · rintro ⟨up, hup, hnodup, rfl⟩
    exact hfollow up hup hnodup
  · rcases walk_result hwalk with hraised | ⟨up, hup, hnodup, -, -⟩
    · exact hraised
    · exact absurd ⟨up, hup, hnodup⟩ hno

/-- For any nodes and any start: the walk ends, with the way up when there is one without
repetition, and raises otherwise. -/
theorem ancestor_walk (tree : RuntimeStateTree host) :
    (∀ start, tree.FindsWay start (tree.ancestorsOf (.node start))) ∧
    ∀ sessionId id, match tree.get? sessionId id with
      | some start => tree.FindsWay start (tree.ancestorsOf (.key sessionId id))
      | none =>
        tree.ancestorsOf (.key sessionId id) = .error (.keyError s!"Unknown Turn: {id}") := by
  refine ⟨findsWay tree, fun sessionId id => ?_⟩
  rcases hget : tree.get? sessionId id with _ | start
  · simp only [ancestorsOf, hget]
  · have hof : tree.ancestorsOf (.key sessionId id) = tree.ancestors start := by
      simp only [ancestorsOf, hget]
    rw [hof]
    exact findsWay tree start

end RuntimeStateTree

end MiniAgent.Store
