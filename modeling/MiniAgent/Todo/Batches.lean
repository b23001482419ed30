import MiniAgent.Lib.Positions
import MiniAgent.Todo.Contract

/-!
# Batches of Todo operations

`apply_todo_operations` with its dictionary `by_id`, which says where each Todo stands, is `Loop`.
It is compared with `Scan`, which looks for each id in the list itself and takes each operation for
a `Change` of an ordered map: a new Todo goes to the end, an update replaces in place, and the rest
keeps its order.

`applyTodoOperations` is between the two: its positions are those of a scan. The dictionary is in
step with them (`Loop.InStep`), for any list of Todos, and an edit at a position is an edit by id
while ids are distinct. In the stores they always are (`stored_list_sound`).
-/

namespace MiniAgent.Todo

open Lib

/-! ## The loop -/

/-- The variables of the loop, with `by_id`. -/
structure Loop where
  todos : List TodoItem
  byId : Dict String Nat
  targeted : List String
  generated : List String
  applied : List TextDict

namespace Loop

def add (index : Nat) (operation : Fields) (l : Loop) : Except TodoStateError Loop := do
  validateFields operation index ["op", "content", "status"] []
  let content ← validateContent (operation.get "content") index
  let status ← validateStatus (operation.get "status") index
  match l.generated with
  | [] => .error .missingGeneratedId
  | todoId :: generated => do
    let _ ← validateTodoId (some (.str todoId)) index
    if (l.byId.get todoId).isSome then .error (.duplicateId todoId)
    else pure { l with
      byId := l.byId.set todoId l.todos.length
      todos := l.todos ++ [⟨todoId, content, status⟩]
      generated := generated
      applied := l.applied ++
        [[("content", content), ("id", todoId), ("op", "add"), ("status", status.text)]] }

def remove (index : Nat) (operation : Fields) (todoId : String) (todoIndex : Nat) (l : Loop) :
    Except TodoStateError Loop := do
  validateFields operation index ["op", "id"] []
  pure { l with
    todos := l.todos.eraseIdx todoIndex
    byId := positions TodoItem.id (l.todos.eraseIdx todoIndex)
    applied := l.applied ++ [[("id", todoId), ("op", "remove")]] }

def update (index : Nat) (operation : Fields) (todoId : String) (todoIndex : Nat)
    (current : TodoItem) (l : Loop) :
    Except TodoStateError Loop := do
  validateFields operation index ["op", "id"] ["content", "status"]
  if (operation.get "content").isNone && (operation.get "status").isNone then
    .error (.emptyUpdate index)
  else do
    let content ← validateContent (some ((operation.get "content").getD (.str current.content)))
      index
    let status ← validateStatus (some ((operation.get "status").getD (.str current.status.text)))
      index
    if content = current.content ∧ status = current.status then .error (.noChange todoId)
    else pure { l with
      todos := l.todos.set todoIndex ⟨todoId, content, status⟩
      applied := l.applied ++ [given operation "content" content ++
        [("id", todoId), ("op", "update")]
        ++ given operation "status" status.text] }

def change (index : Nat) (operation : Fields) (l : Loop) : Except TodoStateError Loop := do
  let todoId ← validateTodoId (operation.get "id") index
  if l.targeted.contains todoId then .error (.duplicateTarget todoId)
  else
    let l := { l with targeted := todoId :: l.targeted }
    match l.byId.get todoId with
    | none => .error (.todoNotFound todoId)
    | some todoIndex =>
      if operation.get "op" = some (.str "remove") then l.remove index operation todoId todoIndex
      else if operation.get "op" = some (.str "update") then match l.todos[todoIndex]? with
        | some current => l.update index operation todoId todoIndex current
        | none => .error (.todoNotFound todoId)
      else .error (.unsupported (operation.get "op") index)

def step (index : Nat) (operation : Json) (l : Loop) : Except TodoStateError Loop :=
  match operation with
  | .obj f => if Fields.get f "op" = some (.str "add") then l.add index f else l.change index f
  | _ => .error (.notObject index)

/-- The loop, from operation `index` on. -/
def run : Nat → List Json → Loop → Except TodoStateError Loop
  | _, [], l => .ok l
  | index, operation :: operations, l => do
    let l ← l.step index operation
    run (index + 1) operations l

/-- `apply_todo_operations`. -/
def applyTodoOperations (snapshot : TodoSnapshot) (operations : List Json)
    (generatedIds : List String) :
    Except TodoStateError (TodoSnapshot × List TextDict) :=
  if operations.length < 1 ∨ maxTodos < operations.length then .error .invalidOperations
  else do
    let l ← run 0 operations ⟨snapshot.todos, positions TodoItem.id snapshot.todos,
      [], generatedIds, []⟩
    if maxTodos < l.todos.length then .error .todoLimit
    else pure (⟨snapshot.revision + 1, l.todos⟩, l.applied)

end Loop

/-! ## Changes of an ordered map -/

inductive Change where
  | add (todo : TodoItem)
  | update (id : String) (content : Option String) (status : Option TodoStatus)
  | remove (id : String)

namespace Change

def perform : Change → List TodoItem → List TodoItem
  | .add todo, todos => todos ++ [todo]
  | .update id content status, todos =>
    todos.map fun todo =>
      if todo.id = id then ⟨id, content.getD todo.content, status.getD todo.status⟩ else todo
  | .remove id, todos => todos.filter fun todo => todo.id ≠ id

/-- The Todo a change is about, where it was there before. -/
def target : Change → Option String
  | .add _ => none
  | .update id _ _ | .remove id => some id

def toDict : Change → TextDict
  | .add todo =>
    [("content", todo.content), ("id", todo.id), ("op", "add"), ("status", todo.status.text)]
  | .update id content status =>
    (content.map fun content => ("content", content)).toList ++ [("id", id), ("op", "update")] ++
      (status.map fun status => ("status", status.text)).toList
  | .remove id => [("id", id), ("op", "remove")]

/-- The change that an applied operation tells of. -/
def ofDict (d : TextDict) : Option Change :=
  match d.lookup "op", d.lookup "id" with
  | some "add", some id => do
    let content ← d.lookup "content"
    let status ← (d.lookup "status").bind TodoStatus.ofText
    pure (.add ⟨id, content, status⟩)
  | some "update", some id =>
    some (.update id (d.lookup "content") ((d.lookup "status").bind TodoStatus.ofText))
  | some "remove", some id => some (.remove id)
  | _, _ => none

theorem ofDict_toDict (c : Change) : ofDict c.toDict = some c := by
  cases c with
  | add todo => simp [toDict, ofDict, List.lookup_cons]
  | update id content status =>
    cases content <;> cases status <;> simp [toDict, ofDict, List.lookup_cons]
  | remove id => simp [toDict, ofDict, List.lookup_cons]

end Change

/-- An applied operation, over the Todos before it. -/
def reapply (todos : List TodoItem) (d : TextDict) : List TodoItem :=
  ((Change.ofDict d).map fun c => c.perform todos).getD todos

/-! ## Scanning -/

/-- The variables of the loop without positions, with the changes made so far. -/
structure Scan where
  todos : List TodoItem
  targeted : List String
  generated : List String
  changes : List Change

namespace Scan

def push (n : Scan) (c : Change) : Scan :=
  { n with todos := c.perform n.todos, changes := n.changes ++ [c] }

def add (index : Nat) (operation : Fields) (n : Scan) : Except TodoStateError Scan := do
  validateFields operation index ["op", "content", "status"] []
  let content ← validateContent (operation.get "content") index
  let status ← validateStatus (operation.get "status") index
  match n.generated with
  | [] => .error .missingGeneratedId
  | todoId :: generated => do
    let _ ← validateTodoId (some (.str todoId)) index
    if todoId ∈ n.todos.map TodoItem.id then .error (.duplicateId todoId)
    else pure ({ n with generated := generated }.push (.add ⟨todoId, content, status⟩))

def update (index : Nat) (operation : Fields) (current : TodoItem) (n : Scan) :
    Except TodoStateError Scan := do
  validateFields operation index ["op", "id"] ["content", "status"]
  if (operation.get "content").isNone && (operation.get "status").isNone then
    .error (.emptyUpdate index)
  else do
    let content ← validateContent (some ((operation.get "content").getD (.str current.content)))
      index
    let status ← validateStatus (some ((operation.get "status").getD (.str current.status.text)))
      index
    if content = current.content ∧ status = current.status then .error (.noChange current.id)
    else pure (n.push (.update current.id ((operation.get "content").map fun _ => content)
      ((operation.get "status").map fun _ => status)))

def change (index : Nat) (operation : Fields) (n : Scan) : Except TodoStateError Scan := do
  let todoId ← validateTodoId (operation.get "id") index
  if n.targeted.contains todoId then .error (.duplicateTarget todoId)
  else
    let n := { n with targeted := todoId :: n.targeted }
    match n.todos.find? fun todo => todo.id = todoId with
    | none => .error (.todoNotFound todoId)
    | some current =>
      if operation.get "op" = some (.str "remove") then do
        validateFields operation index ["op", "id"] []
        pure (n.push (.remove todoId))
      else if operation.get "op" = some (.str "update") then n.update index operation current
      else .error (.unsupported (operation.get "op") index)

def step (index : Nat) (operation : Json) (n : Scan) : Except TodoStateError Scan :=
  match operation with
  | .obj f => if Fields.get f "op" = some (.str "add") then n.add index f else n.change index f
  | _ => .error (.notObject index)

def run : Nat → List Json → Scan → Except TodoStateError Scan
  | _, [], n => .ok n
  | index, operation :: operations, n => do
    let n ← n.step index operation
    run (index + 1) operations n

/-- The new snapshot, and the changes that led to it. -/
def applyTodoOperations (snapshot : TodoSnapshot) (operations : List Json)
    (generatedIds : List String) :
    Except TodoStateError (TodoSnapshot × List Change) :=
  if operations.length < 1 ∨ maxTodos < operations.length then .error .invalidOperations
  else do
    let n ← run 0 operations ⟨snapshot.todos, [], generatedIds, []⟩
    if maxTodos < n.todos.length then .error .todoLimit
    else pure (⟨snapshot.revision + 1, n.todos⟩, n.changes)

end Scan

/-! ## Outcomes -/

section Mirrors

variable {σ α : Type} {view : σ → Batch} {P : σ → Prop} {s : σ}

/-- The outcome `x` of a step is the outcome `y` of the step over positions, and leaves `P`. -/
def Mirrors (view : σ → Batch) (P : σ → Prop) (x : Except TodoStateError σ)
    (y : Except TodoStateError Batch) : Prop :=
  x.map view = y ∧ ∀ s, x = .ok s → P s

theorem Mirrors.error (e : TodoStateError) : Mirrors view P (.error e) (.error e) :=
  ⟨rfl, fun _ h => by cases h⟩

theorem Mirrors.ok (h : P s) : Mirrors view P (.ok s) (.ok (view s)) :=
  ⟨rfl, fun _ hs => by cases hs; exact h⟩

theorem Mirrors.bind (x : Except TodoStateError α) {f : α → Except TodoStateError σ}
    {g : α → Except TodoStateError Batch} (h : ∀ a, x = .ok a → Mirrors view P (f a) (g a)) :
    Mirrors view P (x >>= f) (x >>= g) := by
  cases x with
  | error e => exact .error e
  | ok a => exact h a rfl

end Mirrors

/-! ## The dictionary is in step -/

section InStep

variable {index todoIndex : Nat} {operation : Fields} {todoId : String} {current : TodoItem}
  {l l' : Loop}

def Loop.batch (l : Loop) : Batch := ⟨l.todos, l.targeted, l.generated, l.applied⟩

def Loop.InStep (l : Loop) : Prop := ∀ k, l.byId.get k = Todo.byId l.todos k

theorem Loop.add_follows (h : l.InStep) :
    Mirrors Loop.batch Loop.InStep (l.add index operation) (addTodo index operation l.batch) := by
  unfold Loop.add addTodo
  refine .bind _ fun _ _ => .bind _ fun content _ => .bind _ fun status _ => ?_
  show Mirrors Loop.batch Loop.InStep (match l.generated with | [] => _ | todoId :: generated => _)
    (match l.generated with | [] => _ | todoId :: generated => _)
  split
  · exact .error _
  · next todoId generated _ =>
    refine .bind _ fun _ _ => ?_
    rw [h todoId]
    show Mirrors Loop.batch Loop.InStep (if (Todo.byId l.todos todoId).isSome then _ else _)
      (if (Todo.byId l.todos todoId).isSome then _ else _)
    split
    · exact .error _
    · refine Mirrors.ok fun k => ?_
      rw [Dict.get_set, h k]
      exact (position_append TodoItem.id l.todos ⟨todoId, content, status⟩ k).symm

theorem Loop.remove_follows (l : Loop) :
    Mirrors Loop.batch Loop.InStep (l.remove index operation todoId todoIndex)
    (removeTodo index operation todoId todoIndex l.batch) :=
  .bind _ fun _ _ => Mirrors.ok fun k => get_positions TodoItem.id _ k

theorem Loop.update_follows (h : l.InStep) (hcurrent : l.todos[todoIndex]? = some current)
    (hid : current.id = todoId) :
    Mirrors Loop.batch Loop.InStep (l.update index operation todoId todoIndex current)
    (updateTodo index operation todoId todoIndex current l.batch) := by
  unfold Loop.update updateTodo
  refine .bind _ fun _ _ => ?_
  split
  · exact .error _
  · refine .bind _ fun content _ => .bind _ fun status _ => ?_
    split
    · exact .error _
    · -- the Todo in this place keeps its id
      have hkey : (l.todos.map TodoItem.id)[todoIndex]? = some todoId := by
        rw [List.getElem?_map, hcurrent, Option.map_some, hid]
      have hsame : (l.todos.set todoIndex ⟨todoId, content, status⟩).map TodoItem.id =
          l.todos.map TodoItem.id := by
        obtain ⟨hlt, hget⟩ := List.getElem?_eq_some_iff.mp hkey
        calc (l.todos.set todoIndex ⟨todoId, content, status⟩).map TodoItem.id
            = (l.todos.map TodoItem.id).set todoIndex todoId := List.map_set
          _ = l.todos.map TodoItem.id := by
            rw [← hget]
            exact List.set_getElem_self hlt
      exact Mirrors.ok fun k => (h k).trans (position_congr hsame.symm k)

theorem Loop.change_follows (h : l.InStep) :
    Mirrors Loop.batch Loop.InStep (l.change index operation)
    (changeTodo index operation l.batch) := by
  unfold Loop.change changeTodo
  refine .bind _ fun todoId _ => ?_
  show Mirrors Loop.batch Loop.InStep (if l.targeted.contains todoId then _ else _)
    (if l.targeted.contains todoId then _ else _)
  split
  · exact .error _
  · dsimp only
    rw [h todoId]
    show Mirrors Loop.batch Loop.InStep
      (match Todo.byId l.todos todoId with | none => _ | some todoIndex => _)
      (match Todo.byId l.todos todoId with | none => _ | some todoIndex => _)
    split
    · exact .error _
    · next todoIndex hat =>
      obtain ⟨current, hcurrent, hid⟩ := getElem?_of_position hat
      split
      · exact Loop.remove_follows _
      · split
        · show Mirrors Loop.batch Loop.InStep
            (match l.todos[todoIndex]? with | some current => _ | none => _)
            (match l.todos[todoIndex]? with | some current => _ | none => _)
          rw [hcurrent]
          exact Loop.update_follows h hcurrent hid
        · exact .error _

theorem Loop.step_follows (h : l.InStep) :
    Mirrors Loop.batch Loop.InStep (l.step index (.obj operation))
    (applyOperation index operation l.batch) := by
  unfold Loop.step applyOperation
  dsimp only
  split
  · exact Loop.add_follows h
  · exact Loop.change_follows h

theorem Loop.run_follows (operations : List Fields) (h : l.InStep) :
    Mirrors Loop.batch Loop.InStep (Loop.run index (operations.map .obj) l)
    (applyFrom index operations l.batch) := by
  induction operations generalizing index l with
  | nil => exact Mirrors.ok h
  | cons operation operations ih =>
    obtain ⟨hstep, hin⟩ := @Loop.step_follows index operation l h
    rw [List.map_cons, Loop.run, applyFrom, ← hstep]
    rcases hl : l.step index (.obj operation) with e | l'
    · exact .error e
    · exact ih (hin l' hl)

/-- **The loop with its dictionary of positions is the function that the stores call**, whose
positions are those of a scan. -/
theorem Loop.applyTodoOperations_eq (snapshot : TodoSnapshot) (operations : List Fields)
    (ids : List String) :
    Loop.applyTodoOperations snapshot (operations.map .obj) ids =
      Todo.applyTodoOperations snapshot operations ids := by
  unfold Loop.applyTodoOperations Todo.applyTodoOperations
  rw [List.length_map]
  split
  · rfl
  · obtain ⟨hrun, -⟩ := @Loop.run_follows 0 ⟨snapshot.todos, positions TodoItem.id snapshot.todos,
      [], ids, []⟩ operations
      fun k => get_positions TodoItem.id snapshot.todos k
    have hbatch : (⟨snapshot.todos, [], ids, []⟩ : Batch) =
        Loop.batch ⟨snapshot.todos, positions TodoItem.id snapshot.todos, [], ids, []⟩ := rfl
    rw [hbatch, ← hrun]
    rcases Loop.run 0 _ _ with e | l' <;> rfl

end InStep

/-! ## Positions and ids -/

section Ids

variable {index : Nat} {operation : Fields} {current : TodoItem} {n n' : Scan}

def Scan.batch (n : Scan) : Batch := ⟨n.todos, n.targeted, n.generated, n.changes.map Change.toDict⟩

/-- Ids are distinct, and each Todo that a change is about was recorded, once. -/
structure Scan.Ordered (n : Scan) : Prop where
  ids : (n.todos.map TodoItem.id).Nodup
  targets : n.changes.filterMap Change.target = n.targeted.reverse
  once : n.targeted.Nodup

/-- What a scan has done: its changes, from the Todos `todos` on. -/
def Scan.Performed (todos : List TodoItem) (n : Scan) : Prop :=
  n.changes.foldl (fun todos c => c.perform todos) todos = n.todos

theorem Scan.Performed.push {todos : List TodoItem} (h : n.Performed todos) (c : Change) :
    (n.push c).Performed todos := by
  rw [Scan.Performed, Scan.push, List.foldl_append, List.foldl_cons, List.foldl_nil]
  rw [Scan.Performed] at h
  rw [h]

theorem nodup_perform (c : Change) {todos : List TodoItem} (h : (todos.map TodoItem.id).Nodup)
    (hnew : ∀ todo, c = .add todo → todo.id ∉ todos.map TodoItem.id) :
      ((c.perform todos).map TodoItem.id).Nodup := by
  cases c with
  | add todo =>
    rw [Change.perform, List.map_append, List.nodup_append]
    refine ⟨h, List.nodup_singleton _, ?_⟩
    rintro x hx y hy rfl
    exact hnew todo rfl (List.mem_singleton.mp hy ▸ hx)
  | update id content status =>
    have hsame : ((Change.update id content status).perform todos).map TodoItem.id =
        todos.map TodoItem.id := by
      rw [Change.perform, List.map_map]
      refine List.map_congr_left fun todo _ => ?_
      simp only [Function.comp_apply]
      split
      · next heq => exact heq.symm
      · rfl
    rwa [hsame]
  | remove id => exact h.sublist (List.filter_sublist.map _)

theorem Scan.push_mirrors {todos : List TodoItem} (c : Change) {b : Batch}
    (hbatch : (n.push c).batch = b) (hordered : (n.push c).Ordered)
    (hperformed : n.Performed todos) :
    Mirrors Scan.batch (fun n => n.Ordered ∧ n.Performed todos) (.ok (n.push c)) (.ok b) :=
  hbatch ▸ Mirrors.ok ⟨hordered, hperformed.push c⟩

theorem byId_isSome {todos : List TodoItem} {todoId : String} :
    (byId todos todoId).isSome = true ↔ todoId ∈ todos.map TodoItem.id := by
  rw [← not_iff_not, Bool.not_eq_true, Option.isSome_eq_false_iff, Option.isNone_iff_eq_none]
  exact position_eq_none

theorem validateContent_str {s content : String}
    (h : validateContent (some (.str s)) index = .ok content) : content = s := by
  unfold validateContent at h
  dsimp only at h
  split at h
  · cases h
  · split at h
    · cases h
    · cases h
      rfl

theorem validateStatus_text {s status : TodoStatus}
    (h : validateStatus (some (.str s.text)) index = .ok status) :
    status = s := by
  unfold validateStatus at h
  simp only [TodoStatus.ofText_text] at h
  cases h
  rfl

theorem given_eq (operation : Fields) (name text : String) :
    given operation name text = ((operation.get name).map fun _ => (name, text)).toList := by
  unfold given
  cases operation.get name <;> rfl

/-- What a change of the Todo `todoId` records. -/
theorem Scan.ordered_push (h : n.Ordered) {todoId : String} {c : Change}
    (htarget : c.target = some todoId) (hnew : todoId ∉ n.targeted) :
    ({ n with targeted := todoId :: n.targeted }.push c).Ordered := by
  refine ⟨nodup_perform c h.ids fun todo hadd => ?_, ?_, List.nodup_cons.mpr ⟨hnew, h.once⟩⟩
  · rw [hadd] at htarget
    cases htarget
  · simp [Scan.push, htarget, h.targets]

variable {todos : List TodoItem} (h : n.Ordered) (hp : n.Performed todos)
include h hp

theorem Scan.add_mirrors :
    Mirrors Scan.batch (fun n => n.Ordered ∧ n.Performed todos) (n.add index operation)
      (addTodo index operation n.batch) := by
  unfold Scan.add addTodo
  refine .bind _ fun _ _ => .bind _ fun content _ => .bind _ fun status _ => ?_
  show Mirrors _ _ (match n.generated with | [] => _ | todoId :: generated => _)
    (match n.generated with | [] => _ | todoId :: generated => _)
  split
  · exact .error _
  · next todoId generated _ =>
    refine .bind _ fun _ _ => ?_
    show Mirrors _ _ (if todoId ∈ n.todos.map TodoItem.id then _ else _)
      (if (byId n.todos todoId).isSome then _ else _)
    by_cases hid : todoId ∈ n.todos.map TodoItem.id
    · rw [if_pos hid, if_pos (byId_isSome.mpr hid)]
      exact .error _
    · rw [if_neg hid, if_neg (byId_isSome.not.mpr hid)]
      have hperformed : Scan.Performed todos { n with generated := generated } := hp
      refine Scan.push_mirrors (.add ⟨todoId, content, status⟩) ?_ ⟨?_, ?_, h.once⟩ hperformed
      · simp [Scan.push, Scan.batch, Change.perform, Change.toDict]
      · refine nodup_perform (.add ⟨todoId, content, status⟩) h.ids fun todo htodo => ?_
        cases htodo
        exact hid
      · simpa [Scan.push, List.filterMap_cons, Change.target] using h.targets

theorem Scan.update_mirrors {todoId : String} {todoIndex : Nat} (hnew : todoId ∉ n.targeted)
    (hcurrent : n.todos[todoIndex]? = some current) (hid : current.id = todoId) :
    Mirrors Scan.batch (fun n => n.Ordered ∧ n.Performed todos)
      (Scan.update index operation current { n with targeted := todoId :: n.targeted })
      (updateTodo index operation todoId todoIndex current
        (Scan.batch { n with targeted := todoId :: n.targeted })) := by
  subst hid
  unfold Scan.update updateTodo
  refine .bind _ fun _ _ => ?_
  split
  · exact .error _
  · refine .bind _ fun content hcontent => .bind _ fun status hstatus => ?_
    split
    · exact .error _
    · refine Scan.push_mirrors (.update current.id ((operation.get "content").map fun _ => content)
        ((operation.get "status").map fun _ => status)) ?_ (Scan.ordered_push h rfl hnew) hp
      -- what is not given is as it was
      have hcontent : ((operation.get "content").map fun _ => content).getD current.content =
          content := by
        cases hget : operation.get "content" with
        | none =>
          rw [hget, Option.getD_none] at hcontent
          exact (validateContent_str hcontent).symm
        | some value => rfl
      have hstatus : ((operation.get "status").map fun _ => status).getD current.status =
          status := by
        cases hget : operation.get "status" with
        | none =>
          rw [hget, Option.getD_none] at hstatus
          exact (validateStatus_text hstatus).symm
        | some value => rfl
      have htodos : n.todos.set todoIndex ⟨current.id, content, status⟩ =
          (Change.update current.id ((operation.get "content").map fun _ => content)
            ((operation.get "status").map fun _ => status)).perform n.todos := by
        rw [set_position h.ids hcurrent, Change.perform]
        refine List.map_congr_left fun todo htodo => ?_
        split
        · next heq =>
          obtain rfl : todo = current :=
            List.inj_on_of_nodup_map h.ids htodo (List.mem_of_getElem? hcurrent) heq
          rw [hcontent, hstatus]
        · rfl
      rw [Scan.push, Scan.batch, Scan.batch, htodos]
      simp [Change.toDict, given_eq, Option.map_map, Function.comp_def]

theorem Scan.change_mirrors :
    Mirrors Scan.batch (fun n => n.Ordered ∧ n.Performed todos) (n.change index operation)
      (changeTodo index operation n.batch) := by
  unfold Scan.change changeTodo
  refine .bind _ fun todoId _ => ?_
  show Mirrors _ _ (if n.targeted.contains todoId then _ else _)
    (if n.targeted.contains todoId then _ else _)
  split
  · exact .error _
  · next hnew =>
    have hnew : todoId ∉ n.targeted := by simpa using hnew
    show Mirrors _ _
      (match n.todos.find? fun todo => todo.id = todoId with | none => _ | some current => _)
      (match byId n.todos todoId with | none => _ | some todoIndex => _)
    rcases hat : byId n.todos todoId with _ | todoIndex
    · have hnone : (n.todos.find? fun todo => todo.id = todoId) = none := by
        have hout := position_eq_none.mp hat
        refine List.find?_eq_none.mpr fun todo htodo => ?_
        simpa using fun heq : todo.id = todoId => hout (heq ▸ List.mem_map_of_mem htodo)
      rw [hnone]
      exact .error _
    · obtain ⟨current, hcurrent, hid⟩ := getElem?_of_position hat
      have hfound : (n.todos.find? fun todo => todo.id = todoId) = some current :=
        hid ▸ find?_position h.ids hcurrent
      rw [hfound]
      dsimp only
      split
      · refine .bind _ fun _ _ => ?_
        refine Scan.push_mirrors (.remove todoId) ?_ (Scan.ordered_push h rfl hnew) hp
        have herase : n.todos.eraseIdx todoIndex = n.todos.filter fun todo => todo.id ≠ todoId :=
          hid ▸ eraseIdx_position h.ids hcurrent
        simp [Scan.push, Scan.batch, Change.perform, Change.toDict, herase]
      · split
        · show Mirrors _ _ _ (match n.todos[todoIndex]? with | some current => _ | none => _)
          rw [hcurrent]
          exact Scan.update_mirrors h hp hnew hcurrent hid
        · exact .error _

theorem Scan.step_mirrors :
    Mirrors Scan.batch (fun n => n.Ordered ∧ n.Performed todos) (n.step index (.obj operation))
    (applyOperation index operation n.batch) := by
  unfold Scan.step applyOperation
  dsimp only
  split
  · exact Scan.add_mirrors h hp
  · exact Scan.change_mirrors h hp

end Ids

/-! ## Batches -/

section Batches

variable {index : Nat} {operation : Json} {l : Loop} {n n' : Scan} {todos : List TodoItem}

/-- One operation. -/
theorem step_eq (hsame : l.batch = n.batch) (hl : l.InStep) (h : n.Ordered)
    (hp : n.Performed todos) :
    (l.step index operation).map Loop.batch = (n.step index operation).map Scan.batch ∧
    (∀ l', l.step index operation = .ok l' → l'.InStep) ∧
    ∀ n', n.step index operation = .ok n' → n'.Ordered ∧ n'.Performed todos := by
  cases operation with
  | obj f =>
    obtain ⟨hloop, hin⟩ := @Loop.step_follows index f l hl
    obtain ⟨hscan, hordered⟩ := @Scan.step_mirrors index f n todos h hp
    exact ⟨hloop.trans (hsame ▸ hscan.symm), hin, hordered⟩
  | _ =>
    refine ⟨rfl, ?_, ?_⟩ <;>
    · intro _ hok
      cases hok

/-- A run of operations. -/
theorem run_eq (operations : List Json) (hsame : l.batch = n.batch) (hl : l.InStep)
    (h : n.Ordered) (hp : n.Performed todos) :
    (Loop.run index operations l).map Loop.batch = (Scan.run index operations n).map Scan.batch ∧
    ∀ n', Scan.run index operations n = .ok n' → n'.Ordered ∧ n'.Performed todos := by
  induction operations generalizing index l n with
  | nil => exact ⟨congrArg Except.ok hsame, fun _ hn => by cases hn; exact ⟨h, hp⟩⟩
  | cons operation operations ih =>
    obtain ⟨hstep, hin, hordered⟩ := @step_eq index operation l n todos hsame hl h hp
    rw [Loop.run, Scan.run]
    rcases hl' : l.step index operation with e | l' <;> rcases hn' :
      n.step index operation with e' | n' <;>
      rw [hl', hn'] at hstep
    · exact ⟨congrArg Except.error (Except.error.inj hstep), fun _ hn => by cases hn⟩
    · cases hstep
    · cases hstep
    · obtain ⟨hn, hpn⟩ := hordered n' hn'
      exact ih (Except.ok.inj hstep) (hin l' hl') hn hpn

/-- The loop on a list of distinct ids is the scan. -/
theorem Loop.applyTodoOperations_scan {s : TodoSnapshot} (operations : List Json)
    (ids : List String) (h : (s.todos.map TodoItem.id).Nodup) :
    Loop.applyTodoOperations s operations ids =
      (Scan.applyTodoOperations s operations ids).map (Prod.map id (List.map Change.toDict)) := by
  obtain ⟨hrun, -⟩ := @run_eq 0 ⟨s.todos, positions TodoItem.id s.todos, [], ids, []⟩
    ⟨s.todos, [], ids, []⟩ s.todos
    operations rfl (fun k => get_positions TodoItem.id s.todos k) ⟨h, rfl, List.nodup_nil⟩ rfl
  unfold Loop.applyTodoOperations Scan.applyTodoOperations
  split
  · rfl
  · rcases hl : Loop.run 0 operations ⟨s.todos, positions TodoItem.id s.todos,
      [], ids, []⟩ with e | l <;>
      rcases hn : Scan.run 0 operations ⟨s.todos, [], ids, []⟩ with e' | n <;> rw [hl, hn] at hrun
    · exact congrArg Except.error (Except.error.inj hrun)
    · cases hrun
    · cases hrun
    · obtain ⟨htodos, -, -, happlied⟩ := Batch.mk.inj (Except.ok.inj hrun)
      dsimp only [bind, Except.bind]
      rw [htodos, happlied]
      split <;> rfl

/-- What a batch that is applied returns: the Todos and the changes of the scan. -/
theorem Loop.applyTodoOperations_ok {s s' : TodoSnapshot} {operations : List Json}
    {ids : List String} {applied : List TextDict} (h : (s.todos.map TodoItem.id).Nodup)
    (hok : Loop.applyTodoOperations s operations ids = .ok (s', applied)) :
    ∃ n : Scan, n.Ordered ∧ n.Performed s.todos ∧ n.todos.length ≤ maxTodos ∧
      s' = ⟨s.revision + 1, n.todos⟩ ∧ applied = n.changes.map Change.toDict := by
  rw [Loop.applyTodoOperations_scan operations ids h, Scan.applyTodoOperations] at hok
  split at hok
  · cases hok
  rcases hn : Scan.run 0 operations ⟨s.todos, [], ids, []⟩ with e | n <;> rw [hn] at hok
  · cases hok
  · obtain ⟨hordered, hperformed⟩ :=
      (@run_eq 0 ⟨s.todos, positions TodoItem.id s.todos, [], ids, []⟩ ⟨s.todos, [], ids, []⟩
        s.todos operations rfl (fun k => get_positions TodoItem.id s.todos k)
        ⟨h, rfl, List.nodup_nil⟩ rfl).2 n hn
    dsimp only [bind, Except.bind] at hok
    split at hok
    · cases hok
    · next hsize =>
      cases hok
      exact ⟨n, hordered, hperformed, Nat.le_of_not_lt hsize, rfl, rfl⟩

theorem reapply_toDict (c : Change) (todos : List TodoItem) :
    reapply todos c.toDict = c.perform todos := by
  rw [reapply, Change.ofDict_toDict]
  rfl

theorem foldl_reapply (changes : List Change) (todos : List TodoItem) :
    (changes.map Change.toDict).foldl reapply todos = changes.foldl (fun todos c => c.perform todos)
      todos := by
  simp only [List.foldl_map, reapply_toDict]

/-- The Todo that an applied operation changed. -/
def targetOf (d : TextDict) : Option String := (Change.ofDict d).bind Change.target

/-- **Batches of an ordered map.** `apply_todo_operations` raises what the scan raises, and
otherwise returns its Todos and its changes. The new Todos have distinct ids and are not too many,
no Todo is changed twice, and the applied operations lead from the old Todos to the new ones. -/
theorem todo_batches (s : TodoSnapshot) (operations : List Json) (ids : List String)
    (h : (s.todos.map TodoItem.id).Nodup) :
    Loop.applyTodoOperations s operations ids =
      (Scan.applyTodoOperations s operations ids).map (Prod.map id (List.map Change.toDict)) ∧
    ∀ s' applied, Loop.applyTodoOperations s operations ids = .ok (s', applied) →
      s'.revision = s.revision + 1 ∧ (s'.todos.map TodoItem.id).Nodup ∧ s'.todos.length ≤ maxTodos ∧
      (applied.filterMap targetOf).Nodup ∧ applied.foldl reapply s.todos = s'.todos := by
  refine ⟨Loop.applyTodoOperations_scan operations ids h, fun s' applied hok => ?_⟩
  obtain ⟨n, hn, hperformed, hsize, rfl, rfl⟩ := Loop.applyTodoOperations_ok h hok
  have htarget : (n.changes.map Change.toDict).filterMap targetOf =
      n.changes.filterMap Change.target := by
    rw [List.filterMap_map]
    refine List.filterMap_congr fun c _ => ?_
    rw [Function.comp_apply, targetOf, Change.ofDict_toDict, Option.bind_some]
  refine ⟨rfl, hn.ids, hsize, ?_, ?_⟩
  · rw [htarget, hn.targets]
    exact List.nodup_reverse.mpr hn.once
  · rw [foldl_reapply]
    exact hperformed

def planTodo : TodoItem := ⟨"todo_00000000000000000000000000000000", "Plan", .pending⟩

/-- One Todo is completed, and one is added. -/
theorem todo_batches_plan :
    (Loop.applyTodoOperations ⟨3, [planTodo]⟩
      [.obj [("op", .str "update"), ("id", .str planTodo.id), ("status", .str "completed")],
        .obj [("op", .str "add"), ("content", .str "Test"), ("status", .str "pending")]]
      ["todo_11111111111111111111111111111111"]).toOption.map (fun r =>
        r.1.todos.map TodoItem.content) = some ["Plan", "Test"] ∧
    Loop.applyTodoOperations ⟨3, [planTodo]⟩
      [.obj [("op", .str "update"), ("id", .str planTodo.id), ("status", .str "completed")],
        .obj [("op", .str "add"), ("content", .str "Test"), ("status", .str "pending")]]
      ["todo_11111111111111111111111111111111"] =
    (Scan.applyTodoOperations ⟨3, [planTodo]⟩
      [.obj [("op", .str "update"), ("id", .str planTodo.id), ("status", .str "completed")],
        .obj [("op", .str "add"), ("content", .str "Test"), ("status", .str "pending")]]
      ["todo_11111111111111111111111111111111"]).map (Prod.map id (List.map Change.toDict)) :=
  ⟨by decide +kernel, (todo_batches ⟨3, [planTodo]⟩ _ _ (List.nodup_singleton _)).1⟩

end Batches

/-! ## Stored lists -/

/-- A list of distinct ids that is not too long. -/
def TodoSnapshot.Sound (s : TodoSnapshot) : Prop :=
  (s.todos.map TodoItem.id).Nodup ∧ s.todos.length ≤ maxTodos

theorem TodoSnapshot.Sound.applied {s s' : TodoSnapshot} {operations : List Fields}
    {ids : List String} {applied : List TextDict} (h : s.Sound)
    (hok : applyTodoOperations s operations ids = .ok (s', applied)) : s'.Sound := by
  rw [← Loop.applyTodoOperations_eq] at hok
  obtain ⟨n, hn, -, hsize, rfl, -⟩ := Loop.applyTodoOperations_ok h.1 hok
  exact ⟨hn.ids, hsize⟩

theorem replayLog_sound {log : List UpdateCall} {s s' : TodoSnapshot} (h : s.Sound)
    (hlog : replayLog log s = some s') : s'.Sound := by
  induction log generalizing s with
  | nil =>
    cases hlog
    exact h
  | cons c log ih =>
    rw [replayLog] at hlog
    split at hlog
    · split at hlog
      · next updated applied hok => exact ih (h.applied hok) hlog
      · cases hlog
    · cases hlog

/-- **In every run of its clients** the stored list of a Turn has distinct ids and is not too
long. -/
theorem stored_list_sound {sessionId turnId : String} {moves : List (Move (TodoOp × Nat) Bool)}
    {t : Threads Todos (TodoOp × Nat)}
    (hrun : run (Todos.step sessionId turnId) ⟨.new, []⟩ moves = some t) :
    ∃ snapshot, RedisTodoListStore.snapshotOf t.shared.raw = .ok snapshot ∧ snapshot.Sound := by
  obtain ⟨snapshot, hstored, hlog⟩ := (run_backed hrun).contract.log
  have hempty : TodoSnapshot.empty.Sound := ⟨List.nodup_nil, Nat.zero_le _⟩
  exact ⟨snapshot, hstored, replayLog_sound hempty hlog⟩

end MiniAgent.Todo
