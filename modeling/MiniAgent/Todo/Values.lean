import MiniAgent.Todo.Operations
import Mathlib.Data.List.InsertIdx

/-!
# Todo values

What the stores rely on. A snapshot and a result are read back from the JSON they are written as
(`fromDict_json`), the result under the condition that its dictionaries have increasing keys, which
those of a batch have. A batch that is accepted raises the revision by one (`applied`). And a batch
does the same under other ids: renaming the ids of the Todos, of the operations and of the generated
ones renames the outcome (`applyTodoOperations_rename`).
-/

namespace MiniAgent.Todo

open Lib Json

/-! ## JSON -/

theorem objectsOf_sortKeys {α : Type} (f : α → Fields) (l : List α) :
    objectsOf (some (sortKeys (.arr (l.map fun a => .obj (f a))))) = l.map fun a =>
      sortKeysFields (f a) := by
  simp only [sortKeys, sortKeysList_eq_map, objectsOf, List.map_map, List.filterMap_map]
  induction l with
  | nil => rfl
  | cons a l ih => simpa [sortKeys] using ih

theorem mapM_map_some {α β : Type} {f : β → Option α} {g : α → β} {l : List α}
    (h : ∀ a ∈ l, f (g a) = some a) : (l.map g).mapM f = some l := by
  induction l with
  | nil => rfl
  | cons a l ih =>
    have hrest := ih fun b hb => h b (List.mem_cons_of_mem _ hb)
    simp [h a List.mem_cons_self, hrest]

theorem TodoItem.fromDict_json (todo : TodoItem) :
    TodoItem.fromDict (sortKeysFields todo.toDict) = some todo := by
  simp [TodoItem.fromDict, TodoItem.toDict, Fields.get_cons, strOf, sortKeys]

/-- The members a snapshot is read from. -/
theorem TodoSnapshot.fromDict_of_get {data : Fields} {s : TodoSnapshot}
    (hrevision : data.get "revision" = some (.int s.revision))
    (htodos : data.get "todos" = some (.arr (s.todos.map fun todo => .obj todo.toDict))) :
    TodoSnapshot.fromDict (sortKeysFields data) = some s := by
  have hitems : (s.todos.map fun todo => sortKeysFields todo.toDict).mapM TodoItem.fromDict =
      some s.todos :=
    mapM_map_some fun todo _ => todo.fromDict_json
  simp only [TodoSnapshot.fromDict, get_sortKeysFields, hrevision, htodos, Option.map_some,
    objectsOf_sortKeys TodoItem.toDict, hitems]
  rfl

theorem TodoSnapshot.fromDict_json (s : TodoSnapshot) :
    TodoSnapshot.fromDict (sortKeysFields s.toDict) = some s :=
  TodoSnapshot.fromDict_of_get rfl rfl

/-- The keys of a dictionary increase. -/
def TextDict.Sorted (d : TextDict) : Prop := SortedKeys d.json

theorem TextDict.sorted_iff {d : TextDict} : d.Sorted ↔ (d.map Prod.fst).Pairwise (· < ·) := by
  simp only [TextDict.Sorted, SortedKeys, TextDict.json, List.pairwise_map]

theorem TextDict.sortKeysFields_json {d : TextDict} (h : d.Sorted) :
    sortKeysFields d.json = d.json := by
  refine (sortedKeys_sortKeysFields _).ext h fun k => ?_
  rw [get_sortKeysFields]
  rcases hk : Fields.get d.json k with _ | v
  · rfl
  · obtain ⟨p, -, he⟩ := List.mem_map.mp (Fields.mem_of_get hk)
    cases he
    rfl

theorem TextDict.fromDict_json {d : TextDict} (h : d.Sorted) :
    TextDict.fromDict (sortKeysFields d.json) = some d := by
  rw [sortKeysFields_json h, TextDict.fromDict, TextDict.json]
  exact mapM_map_some fun p _ => rfl

theorem TodoUpdateResult.fromDict_json {r : TodoUpdateResult}
    (h : ∀ d ∈ r.appliedOperations, d.Sorted) :
    TodoUpdateResult.fromDict (sortKeysFields r.toDict) = some r := by
  have hsnapshot : TodoSnapshot.fromDict (sortKeysFields r.toDict) = some r.snapshot :=
    TodoSnapshot.fromDict_of_get rfl rfl
  have hoperations : (r.appliedOperations.map fun d => sortKeysFields d.json).mapM TextDict.fromDict
      = some r.appliedOperations := mapM_map_some fun d hd => TextDict.fromDict_json (h d hd)
  have hturn : r.toDict.get "turn_id" = some (.str r.turnId) := rfl
  have happlied : r.toDict.get "applied_operations"
      = some (.arr (r.appliedOperations.map fun d => .obj d.json)) := rfl
  simp only [TodoUpdateResult.fromDict, hsnapshot, get_sortKeysFields, hturn,
    happlied, Option.map_some,
    objectsOf_sortKeys TextDict.json, hoperations]
  rfl

/-! ## Accepted batches -/

theorem addTodo_ok {index : Nat} {operation : Fields} {b b' : Batch}
    (h : addTodo index operation b = .ok b') :
    ∃ d : TextDict, b'.applied = b.applied ++ [d] ∧ d.Sorted := by
  unfold addTodo at h
  simp only [bind_ok, exists_unit] at h
  obtain ⟨-, content, -, status, -, h⟩ := h
  split at h
  · cases h
  · next todoId generated hg =>
    obtain ⟨_, -, h⟩ := bind_ok.mp h
    split at h
    · cases h
    · cases h
      refine ⟨_, rfl, TextDict.sorted_iff.mpr ?_⟩
      show ["content", "id", "op", "status"].Pairwise (· < ·)
      decide +kernel

theorem sorted_update (operation : Fields) (todoId content status : String) :
    TextDict.Sorted (given operation "content" content ++ [("id", todoId), ("op", "update")]
      ++ given operation "status" status) := by
  rw [TextDict.sorted_iff]
  unfold given
  by_cases hcontent : (operation.get "content").isSome <;> by_cases hstatus :
    (operation.get "status").isSome <;>
    simp only [hcontent, hstatus, if_true, Bool.false_eq_true, if_false,
      List.map_cons, List.map_nil,
      List.cons_append, List.nil_append]
  all_goals decide +kernel

theorem changeTodo_ok {index : Nat} {operation : Fields} {b b' : Batch}
    (h : changeTodo index operation b = .ok b') :
    ∃ d : TextDict, b'.applied = b.applied ++ [d] ∧ d.Sorted := by
  unfold changeTodo at h
  obtain ⟨todoId, -, h⟩ := bind_ok.mp h
  split at h
  · cases h
  · dsimp only at h
    split at h
    · cases h
    · next todoIndex hi =>
      split at h
      · obtain ⟨-, -, h⟩ := bind_ok.mp h
        cases h
        refine ⟨_, rfl, TextDict.sorted_iff.mpr ?_⟩
        show ["id", "op"].Pairwise (· < ·)
        decide +kernel
      · split at h
        · split at h
          · next current hcur =>
            obtain ⟨-, -, h⟩ := bind_ok.mp h
            split at h
            · cases h
            · simp only [bind_ok] at h
              obtain ⟨content, -, status, -, h⟩ := h
              split at h
              · cases h
              · cases h
                exact ⟨_, rfl, sorted_update operation todoId content status.text⟩
          · cases h
        · cases h

theorem applyFrom_ok : ∀ {operations : List Fields} {index : Nat} {b b' : Batch},
    (∀ d ∈ b.applied, d.Sorted) → applyFrom index operations b = .ok b' → ∀ d ∈ b'.applied, d.Sorted
  | [], index, b, b', hb, h => by cases h; exact hb
  | operation :: operations, index, b, b', hb, h => by
    obtain ⟨mid, hmid, hrest⟩ := bind_ok.mp h
    refine applyFrom_ok (fun d hd => ?_) hrest
    obtain ⟨d', happlied, hsorted⟩ : ∃ d' : TextDict, mid.applied = b.applied ++ [d'] ∧
        d'.Sorted := by
      unfold applyOperation at hmid
      split at hmid
      · exact addTodo_ok hmid
      · exact changeTodo_ok hmid
    rw [happlied] at hd
    rcases List.mem_append.mp hd with hd | hd
    · exact hb d hd
    · rw [List.mem_singleton.mp hd]; exact hsorted

/-- An accepted batch. -/
theorem applyTodoOperations_ok {s s' : TodoSnapshot} {operations : List Fields} {ids : List String}
    {applied : List TextDict} (h : applyTodoOperations s operations ids = .ok (s', applied)) :
    s'.revision = s.revision + 1 ∧ ∀ d ∈ applied, d.Sorted := by
  unfold applyTodoOperations at h
  split at h
  · cases h
  · obtain ⟨b, hb, h⟩ := bind_ok.mp h
    split at h
    · cases h
    · cases h
      exact ⟨rfl, applyFrom_ok (fun _ hd => absurd hd List.not_mem_nil) hb⟩

/-! ## Other ids -/

/-- One id for each id, a Todo id for a Todo id. -/
structure Renaming where
  map : String → String
  injective : Function.Injective map
  isTodoId_map : ∀ s, isTodoId (map s) = isTodoId s

namespace Renaming

variable (ρ : Renaming)

def todo (t : TodoItem) : TodoItem := { t with id := ρ.map t.id }

def snapshot (s : TodoSnapshot) : TodoSnapshot := { s with todos := s.todos.map ρ.todo }

def value : Json → Json
  | .str s => .str (ρ.map s)
  | v => v

/-- An operation that names its Todo by the other id. -/
def operation (f : Fields) : Fields := f.map fun p => (p.1, if p.1 = "id" then ρ.value p.2 else p.2)

def textDict (d : TextDict) : TextDict :=
  d.map fun p => (p.1, if p.1 = "id" then ρ.map p.2 else p.2)

def result (r : TodoUpdateResult) : TodoUpdateResult :=
  ⟨r.turnId, ρ.snapshot r.snapshot, r.appliedOperations.map ρ.textDict⟩

def batch (b : Batch) : Batch :=
  ⟨b.todos.map ρ.todo, b.targeted.map ρ.map, b.generated.map ρ.map, b.applied.map ρ.textDict⟩

def error : TodoStateError → TodoStateError
  | .revisionConflict expected current => .revisionConflict expected (ρ.snapshot current)
  | .duplicateId todoId => .duplicateId (ρ.map todoId)
  | .duplicateTarget todoId => .duplicateTarget (ρ.map todoId)
  | .todoNotFound todoId => .todoNotFound (ρ.map todoId)
  | .noChange todoId => .noChange (ρ.map todoId)
  | e => e

def outcome {α β : Type} (f : α → β) : Except TodoStateError α → Except TodoStateError β
  | .ok a => .ok (f a)
  | .error e => .error (ρ.error e)

theorem code_error (e : TodoStateError) : (ρ.error e).code = e.code := by
  cases e <;> rfl

/-! ### Checks -/

theorem get_operation (f : Fields) (k : String) :
    (ρ.operation f).get k = (f.get k).map fun v => if k = "id" then ρ.value v else v := by
  induction f with
  | nil => rfl
  | cons p f ih =>
    obtain ⟨k', v⟩ := p
    show Fields.get ((k', if k' = "id" then ρ.value v else v) :: ρ.operation f) k = _
    rw [Fields.get_cons, Fields.get_cons, ih]
    by_cases h : k' = k
    · subst h; simp
    · simp [h]

theorem get_operation_of_ne (f : Fields) {k : String} (h : k ≠ "id") :
    (ρ.operation f).get k = f.get k := by
  rw [get_operation]
  simp [h]

theorem keys_operation (f : Fields) : (ρ.operation f).map Prod.fst = f.map Prod.fst := by
  simp [operation, Function.comp_def]

theorem validateFields_operation (f : Fields) (index : Nat) (required optional : List String) :
    validateFields (ρ.operation f) index required optional =
      validateFields f index required optional := by
  simp only [validateFields, keys_operation]

theorem validateTodoId_value (v : Option Json) (index : Nat) :
    validateTodoId (v.map ρ.value) index = ρ.outcome ρ.map (validateTodoId v index) := by
  rcases v with _ | v
  · rfl
  · cases v with
    | str s =>
      simp only [Option.map_some, value, validateTodoId, ρ.isTodoId_map]
      split <;> rfl
    | _ => rfl

theorem error_validateFields {f : Fields} {index : Nat} {required optional : List String}
    {e : TodoStateError} (h : validateFields f index required optional = .error e) :
    ρ.error e = e := by
  unfold validateFields at h
  dsimp only at h
  split at h <;> cases h
  rfl

theorem error_validateContent {v : Option Json} {index : Nat} {e : TodoStateError}
    (h : validateContent v index = .error e) : ρ.error e = e := by
  unfold validateContent at h
  split at h
  · split at h
    · cases h; rfl
    · split at h <;> cases h
      rfl
  · cases h; rfl

theorem error_validateStatus {v : Option Json} {index : Nat} {e : TodoStateError}
    (h : validateStatus v index = .error e) : ρ.error e = e := by
  unfold validateStatus at h
  split at h
  · split at h <;> cases h
    rfl
  · cases h; rfl

theorem byId_map (todos : List TodoItem) (todoId : String) :
    byId (todos.map ρ.todo) (ρ.map todoId) = byId todos todoId := by
  have hfilter : (todos.zipIdx.filter ((fun p => decide (p.1.id = ρ.map todoId)) ∘
      Prod.map ρ.todo id))
      = todos.zipIdx.filter fun p => decide (p.1.id = todoId) := by
    refine List.filter_congr fun p _ => ?_
    simp only [Function.comp, Prod.map, todo, ρ.injective.eq_iff]
  simp only [byId, List.zipIdx_map, List.filter_map, List.getLast?_map, Option.map_map, hfilter]
  rfl

/-! ### Batches -/

theorem addTodo_rename (index : Nat) (f : Fields) (b : Batch) :
    addTodo index (ρ.operation f) (ρ.batch b) = ρ.outcome ρ.batch (addTodo index f b) := by
  simp only [addTodo, validateFields_operation,
    ρ.get_operation_of_ne f (show "content" ≠ "id" by decide),
    ρ.get_operation_of_ne f (show "status" ≠ "id" by decide)]
  rcases hf : validateFields f index ["op", "content", "status"] [] with e | ⟨⟩
  · exact congrArg Except.error (ρ.error_validateFields hf).symm
  rcases hc : validateContent (f.get "content") index with e | content
  · exact congrArg Except.error (ρ.error_validateContent hc).symm
  rcases hs : validateStatus (f.get "status") index with e | status
  · exact congrArg Except.error (ρ.error_validateStatus hs).symm
  dsimp only [bind, Except.bind]
  rcases hg : b.generated with _ | ⟨todoId, generated⟩
  · simp only [batch, hg, List.map_nil]
    rfl
  · simp only [batch, hg, List.map_cons, ρ.byId_map]
    have hid := ρ.validateTodoId_value (some (.str todoId)) index
    simp only [Option.map_some, value] at hid
    rw [hid]
    rcases validateTodoId (some (.str todoId)) index with e | _
    · rfl
    · show (if (byId b.todos todoId).isSome then _ else _) = ρ.outcome ρ.batch
        (if (byId b.todos todoId).isSome then _ else _)
      split
      · rfl
      · simp [outcome, batch, todo, textDict, pure, Except.pure]

theorem given_operation (f : Fields) {name : String} (h : name ≠ "id") (text : String) :
    given (ρ.operation f) name text = ρ.textDict (given f name text) := by
  simp only [given, ρ.get_operation_of_ne f h]
  split
  · simp [textDict, h]
  · rfl

theorem updateTodo_rename (index : Nat) (f : Fields) (todoId : String) (todoIndex : Nat)
    (t : TodoItem) (b : Batch) :
    updateTodo index (ρ.operation f) (ρ.map todoId) todoIndex (ρ.todo t) (ρ.batch b)
      = ρ.outcome ρ.batch (updateTodo index f todoId todoIndex t b) := by
  have hcontent := ρ.get_operation_of_ne f (show "content" ≠ "id" by decide)
  have hstatus := ρ.get_operation_of_ne f (show "status" ≠ "id" by decide)
  simp only [updateTodo, validateFields_operation, hcontent, hstatus, todo]
  rcases hf : validateFields f index ["op", "id"] ["content", "status"] with e | ⟨⟩
  · exact congrArg Except.error (ρ.error_validateFields hf).symm
  show (if (f.get "content").isNone && (f.get "status").isNone then _ else _) = ρ.outcome ρ.batch
    (if (f.get "content").isNone && (f.get "status").isNone then _ else _)
  split
  · rfl
  rcases hc : validateContent (some ((f.get "content").getD (.str t.content)))
    index with e | content
  · exact congrArg Except.error (ρ.error_validateContent hc).symm
  rcases hs : validateStatus (some ((f.get "status").getD (.str t.status.text)))
    index with e | status
  · exact congrArg Except.error (ρ.error_validateStatus hs).symm
  show (if content = t.content ∧ status = t.status then _ else _) = ρ.outcome ρ.batch
    (if content = t.content ∧ status = t.status then _ else _)
  split
  · rfl
  · rw [ρ.given_operation f (by decide), ρ.given_operation f (by decide)]
    simp [outcome, batch, todo, textDict, pure, Except.pure]

theorem changeTodo_rename (index : Nat) (f : Fields) (b : Batch) :
    changeTodo index (ρ.operation f) (ρ.batch b) = ρ.outcome ρ.batch (changeTodo index f b) := by
  have hop := ρ.get_operation_of_ne f (show "op" ≠ "id" by decide)
  have hid : (ρ.operation f).get "id" = (f.get "id").map ρ.value := by simp [get_operation]
  simp only [changeTodo, hop, hid, validateTodoId_value]
  rcases validateTodoId (f.get "id") index with e | todoId
  · rfl
  have htargeted : (ρ.batch b).targeted.contains (ρ.map todoId) = b.targeted.contains todoId := by
    rw [Bool.eq_iff_iff]
    simp [batch, ρ.injective.eq_iff]
  have hbatch : ({ ρ.batch b with targeted := ρ.map todoId :: (ρ.batch b).targeted } : Batch)
      = ρ.batch { b with targeted := todoId :: b.targeted } := rfl
  have hat : ∀ i : Nat, (ρ.batch b).todos[i]? = (b.todos[i]?).map ρ.todo := fun i => by simp [batch]
  show (if (ρ.batch b).targeted.contains (ρ.map todoId) then _ else _) = ρ.outcome ρ.batch
    (if b.targeted.contains todoId then _ else _)
  rw [htargeted]
  split
  · rfl
  · have hby : byId (ρ.batch b).todos (ρ.map todoId) = byId b.todos todoId :=
      ρ.byId_map b.todos todoId
    rw [hby, hbatch]
    rcases byId b.todos todoId with _ | todoIndex
    · rfl
    · dsimp only
      split
      · simp only [removeTodo, validateFields_operation]
        rcases hf : validateFields f index ["op", "id"] [] with e | ⟨⟩
        · exact congrArg Except.error (ρ.error_validateFields hf).symm
        · show Except.ok _ = Except.ok _
          simp [batch, textDict, List.eraseIdx_map]
      · split
        · rw [hat]
          rcases b.todos[todoIndex]? with _ | t
          · rfl
          · exact ρ.updateTodo_rename index f todoId todoIndex t
              { b with targeted := todoId :: b.targeted }
        · rfl

theorem applyFrom_rename : ∀ (operations : List Fields) (index : Nat) (b : Batch),
    applyFrom index (operations.map ρ.operation) (ρ.batch b) =
      ρ.outcome ρ.batch (applyFrom index operations b)
  | [], _, _ => rfl
  | f :: operations, index, b => by
    have hop : applyOperation index (ρ.operation f) (ρ.batch b)
        = ρ.outcome ρ.batch (applyOperation index f b) := by
      simp only [applyOperation, ρ.get_operation_of_ne f (show "op" ≠ "id" by decide)]
      split
      · exact ρ.addTodo_rename index f b
      · exact ρ.changeTodo_rename index f b
    simp only [List.map_cons, applyFrom, hop]
    rcases applyOperation index f b with e | mid
    · rfl
    · exact applyFrom_rename operations (index + 1) mid

/-- **A batch under other ids.** -/
theorem applyTodoOperations_rename (s : TodoSnapshot) (operations : List Fields)
    (ids : List String) :
    applyTodoOperations (ρ.snapshot s) (operations.map ρ.operation) (ids.map ρ.map)
      = ρ.outcome (Prod.map ρ.snapshot (List.map ρ.textDict))
      (applyTodoOperations s operations ids) := by
  simp only [applyTodoOperations, List.length_map]
  split
  · rfl
  · have hfrom := ρ.applyFrom_rename operations 0 ⟨s.todos, [], ids, []⟩
    have hstart : (⟨(ρ.snapshot s).todos, [], ids.map ρ.map, []⟩ : Batch) =
        ρ.batch ⟨s.todos, [], ids, []⟩ := rfl
    rw [hstart, hfrom]
    rcases applyFrom 0 operations ⟨s.todos, [], ids, []⟩ with e | b
    · rfl
    · have hlen : (ρ.batch b).todos.length = b.todos.length := by simp [batch]
      show (if maxTodos < (ρ.batch b).todos.length then _ else _) = ρ.outcome _
        (if maxTodos < b.todos.length then _ else _)
      rw [hlen]
      split <;> rfl

end Renaming

end MiniAgent.Todo
