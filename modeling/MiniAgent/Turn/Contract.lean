import MiniAgent.Lib.Json
import MiniAgent.Lib.Check

/-!
# The Turn payload contract

`normalizeContent` and `validateData` of `runtime_state/contract.py`: what a Message's content and
a Turn's `data` may be, with the errors in the order the source raises them. A Message and an Item
are objects with arbitrary further members, so both are `Fields`. Every value here is a JSON value,
so `_json` (which rejects the others) is the identity and `_clone` is too.
-/

namespace MiniAgent.Turn

open Lib

/-- What the Turn layer raises. -/
inductive Err where
  /-- `RuntimeStateValidationError` with its text. -/
  | validation (text : String)
  /-- `Unsupported Item type: {kind!r}.`, with the type it quotes. -/
  | unsupportedItem (kind : Option Json)
  /-- `TypeError`: a list or an object looked up in a set. -/
  | unhashable
  | keyError (key : String)
  /-- What a store raises. -/
  | store (text : String)
  deriving DecidableEq

inductive NodeStatus where
  | running | success | paused | failed
  deriving DecidableEq, Repr

inductive ItemStatus where
  | running | failed | success
  deriving DecidableEq, Repr

namespace NodeStatus

def text : NodeStatus → String
  | running => "running"
  | success => "success"
  | paused => "paused"
  | failed => "failed"

def ofText : String → Option NodeStatus
  | "running" => some running
  | "success" => some success
  | "paused" => some paused
  | "failed" => some failed
  | _ => none

@[simp] theorem ofText_text (s : NodeStatus) : ofText s.text = some s := by cases s <;> rfl

end NodeStatus

def ItemStatus.text : ItemStatus → String
  | running => "running"
  | failed => "failed"
  | success => "success"

def itemStatuses : List String := ["running", "failed", "success"]

def messageRoles : List String := ["user", "assistant"]

def contentBlockTypes : List String :=
  ["text", "reasoning", "tool_call", "tool_result", "bash", "plan", "approval", "question",
    "subagent", "skill_snapshot", "compaction", "retry", "error"]

/-! ## Reading members -/

/-- `value in set`, for a set of strings. -/
def isIn (value : Option Json) (set : List String) : Except Err Bool :=
  match value with
  | some (.str s) => .ok (set.contains s)
  | some v => if v.hashable then .ok false else .error .unhashable
  | none => .ok false

def requireIn (value : Option Json) (set : List String) (e : Err) : Except Err Unit := do
  let found ← isIn value set
  require found e

@[simp] theorem requireIn_ok {value : Option Json} {set : List String} {e : Err} :
    requireIn value set e = .ok () ↔ ∃ s ∈ set, value = some (.str s) := by
  simp only [requireIn, bind_ok, require_ok]
  constructor
  · rintro ⟨b, hb, rfl⟩
    unfold isIn at hb
    split at hb
    · next s => exact ⟨s, by simpa using hb, rfl⟩
    · split at hb <;> simp at hb
    · simp at hb
  · rintro ⟨s, hs, rfl⟩
    exact ⟨true, by simpa [isIn] using hs, rfl⟩

def isStr : Option Json → Bool
  | some (.str _) => true
  | _ => false

/-- `isinstance(value, str) and value`. -/
def isText : Option Json → Bool
  | some (.str s) => s ≠ ""
  | _ => false

def isBool : Option Json → Bool
  | some (.bool _) => true
  | _ => false

def isObject : Option Json → Bool
  | some (.obj _) => true
  | _ => false

/-- An `int` that is no `bool`, and at least `n`. -/
def isIntFrom (n : Int) : Option Json → Bool
  | some (.int k) => n ≤ k
  | _ => false

/-- An `int` or a finite `float`, no `bool`, and not negative. -/
def isAmount : Option Json → Bool
  | some (.int k) => 0 ≤ k
  | some (.float q) => 0 ≤ q
  | _ => false

def mapping (value : Json) (name : String) : Except Err Fields :=
  match value with
  | .obj f => .ok f
  | _ => .error (.validation (name ++ " must be a JSON object."))

@[simp] theorem mapping_ok {value : Json} {name : String} {f : Fields} :
    mapping value name = .ok f ↔ value = .obj f := by
  cases value <;> simp [mapping]

/-! ## Items -/

/-- Whether the Item has one of the types. -/
def hasType (item : Fields) (types : List String) : Bool :=
  match item.get "type" with
  | some (.str s) => types.contains s
  | _ => false

def typeText (item : Fields) : String := ((item.get "type").bind Json.str?).getD ""

def checkToolCall (item : Fields) : Except Err Unit := do
  require (isText (item.get "call_id")) (.validation "tool_call requires call_id.")
  require (isText (item.get "name")) (.validation "tool_call requires name.")
  require (isObject (some ((item.get "arguments").getD (.obj []))))
    (.validation "tool_call.arguments must be an object.")
  require (isBool (some ((item.get "replay_safe").getD (.bool true))))
    (.validation "tool_call.replay_safe must be boolean.")

def checkCompaction (item : Fields) : Except Err Unit := do
  require (isStr (item.get "summary")) (.validation "compaction.summary must be a string.")
  require (isIntFrom 0 (item.get "kept_item_count"))
    (.validation "compaction.kept_item_count must be non-negative.")

/-- `max_retries` is an integer not below `attempt`. -/
def coversAttempt (item : Fields) : Bool :=
  match item.get "attempt" with
  | some (.int attempt) => isIntFrom attempt (item.get "max_retries")
  | _ => false

def checkRetry (item : Fields) : Except Err Unit := do
  require (item.get "event" == some (.str "model_retry"))
    (.validation "retry.event must be model_retry.")
  require (item.get "category" == some (.str "network"))
    (.validation "retry.category must be network.")
  require (isText (item.get "message"))
    (.validation "retry.message must be a non-empty string.")
  require (isIntFrom 1 (item.get "attempt"))
    (.validation "retry.attempt must be a positive integer.")
  require (coversAttempt item)
    (.validation "retry.max_retries must include the current attempt.")
  require (isAmount (item.get "delay_seconds"))
    (.validation "retry.delay_seconds must be finite and non-negative.")

def checkError (item : Fields) : Except Err Unit := do
  require (isText (item.get "category"))
    (.validation "error.category must be a non-empty string.")
  require (isText (item.get "message"))
    (.validation "error.message must be a non-empty string.")
  require (isBool (item.get "retryable")) (.validation "error.retryable must be boolean.")

/-- The checks `normalize_content` makes on one Item. -/
def checkItem (item : Fields) : Except Err Unit := do
  requireIn (item.get "type") contentBlockTypes (.unsupportedItem (item.get "type"))
  requireIn (item.get "status") itemStatuses
    (.validation (typeText item ++ " Item status must be running, failed, or success."))
  whenever (hasType item ["text", "reasoning", "bash"])
    (require (isStr (item.get "text"))
      (.validation (typeText item ++ " Item requires string text.")))
  whenever (hasType item ["tool_call"]) (checkToolCall item)
  whenever (hasType item ["tool_result"])
    (require (isText (item.get "call_id")) (.validation "tool_result requires call_id."))
  whenever (hasType item ["compaction"]) (checkCompaction item)
  whenever (hasType item ["retry"]) (checkRetry item)
  whenever (hasType item ["error"]) (checkError item)

/-- One Item of `normalize_content`. -/
def normalizeItem (index : Nat) (value : Json) : Except Err Fields := do
  let item ← mapping value s!"message.content[{index}]"
  checkItem item
  pure item

theorem normalizeItem_ok {index : Nat} {value : Json} {item : Fields} :
    normalizeItem index value = .ok item ↔ value = .obj item ∧ checkItem item = .ok () := by
  simp only [normalizeItem, bind_ok, exists_unit, mapping_ok, pure_ok]
  constructor
  · rintro ⟨f, rfl, hc, rfl⟩; exact ⟨rfl, hc⟩
  · rintro ⟨rfl, hc⟩; exact ⟨item, rfl, hc, rfl⟩

/-- The text Item a plain string stands for. -/
def textItem (s : String) : Json :=
  .obj [("type", .str "text"), ("text", .str s), ("status", .str "success")]

def normalizeContent (content : Json) : Except Err (List Fields) :=
  match content with
  | .null => .ok []
  | .str s => mapIdxM' normalizeItem 0 [textItem s]
  | .obj f => mapIdxM' normalizeItem 0 [.obj f]
  | .arr l => mapIdxM' normalizeItem 0 l
  | _ => .error (.validation "message.content must be an Item array.")

/-- An Item list as the value of a `content` member. -/
def itemsJson (items : List Fields) : Json := .arr (items.map .obj)

theorem normalizeContent_idem {content : Json} {items : List Fields}
    (h : normalizeContent content = .ok items) :
    normalizeContent (itemsJson items) = .ok items := by
  have again : ∀ i a b, normalizeItem i a = .ok b → normalizeItem i (.obj b) = .ok b :=
    fun i a b hb => normalizeItem_ok.mpr ⟨rfl, (normalizeItem_ok.mp hb).2⟩
  unfold normalizeContent at h
  split at h
  · cases h; rfl
  · exact mapIdxM'_idem again h
  · exact mapIdxM'_idem again h
  · exact mapIdxM'_idem again h
  · cases h

/-- Normalizing an array checks its Items and changes none. -/
theorem normalizeContent_arr {l : List Json} {items : List Fields}
    (h : normalizeContent (.arr l) = .ok items) : .arr l = itemsJson items := by
  rw [itemsJson, mapIdxM'_inv (fun i a b hb => (normalizeItem_ok.mp hb).1) h]

theorem normalizeContent_items {content : Json} {items : List Fields}
    (h : normalizeContent content = .ok items) : ∀ item ∈ items, checkItem item = .ok () := by
  have hc : ∀ i a b, normalizeItem i a = .ok b → checkItem b = .ok () :=
    fun i a b hb => (normalizeItem_ok.mp hb).2
  unfold normalizeContent at h
  split at h
  · cases h; simp
  · exact mapIdxM'_forall hc h
  · exact mapIdxM'_forall hc h
  · exact mapIdxM'_forall hc h
  · cases h

/-! ## Messages and versions -/

/-- The one Item of a user Message is a text Item. -/
def userItemOk (content : List Fields) : Bool :=
  match content with
  | item :: _ => item.get "type" == some (.str "text") && isStr (item.get "text")
  | [] => false

def isUser (role : Option Json) : Bool := role == some (.str "user")

/-- One Message of `validate_data`: its role and its normalized members. -/
def validateMessage (version index : Nat) (previousRole : Option String) (raw : Json) :
    Except Err (String × Fields) := do
  let message ← mapping raw s!"data[{version}][{index}]"
  let role := message.get "role"
  whenever (index == 0)
    (require (isUser role) (.validation s!"data[{version}][{index}].role must be user."))
  requireIn role messageRoles (.validation s!"data[{version}][{index}].role is invalid.")
  require (!(isUser role && previousRole == some "user"))
    (.validation "Consecutive user Messages are not allowed.")
  let content ← normalizeContent ((message.get "content").getD .null)
  whenever (isUser role) (require (content.length == 1)
    (.validation "Every user Message must contain exactly one Item."))
  whenever (isUser role) (require (userItemOk content)
    (.validation "Every user Message must contain one text Item."))
  pure ((role.bind Json.str?).getD "", message.set "content" (itemsJson content))

/-- The Message loop of `validate_data` from index `index` on. -/
def validateMessages (version : Nat) : Nat → Option String → List Json → Except Err (List Fields)
  | _, _, [] => .ok []
  | index, previousRole, raw :: rest => do
    let (role, message) ← validateMessage version index previousRole raw
    let messages ← validateMessages version (index + 1) (some role) rest
    pure (message :: messages)

def validateVersion (version : Nat) (raw : Json) : Except Err (List Fields) :=
  match raw with
  | .arr (message :: rest) => validateMessages version 0 none (message :: rest)
  | _ => .error (.validation s!"data[{version}] must contain at least one Message.")

def validateData (value : Json) : Except Err (List (List Fields)) :=
  match value with
  | .arr (version :: rest) => mapIdxM' validateVersion 0 (version :: rest)
  | _ => .error (.validation "data must be a non-empty Message[][] array.")

/-- A version, and a Turn's `data`, as JSON. -/
def versionJson (version : List Fields) : Json := .arr (version.map .obj)

def dataJson (data : List (List Fields)) : Json := .arr (data.map versionJson)

/-! ### What an accepted Message is -/

/-- The contract of one Message after validation. -/
structure MessageOk (message : Fields) (role : String) (items : List Fields) : Prop where
  role_eq : message.get "role" = some (.str role)
  role_mem : role ∈ messageRoles
  content_eq : message.get "content" = some (itemsJson items)
  items_ok : ∀ item ∈ items, checkItem item = .ok ()
  user : role = "user" → items.length = 1 ∧ userItemOk items = true

theorem isUser_str {s : String} : isUser (some (.str s)) = true ↔ s = "user" := by
  simp [isUser]

theorem validateMessage_ok {v i : Nat} {prev : Option String} {raw : Json} {role : String}
    {message : Fields} (h : validateMessage v i prev raw = .ok (role, message)) :
    ∃ (rawFields : Fields) (items : List Fields), raw = .obj rawFields ∧
      normalizeContent ((rawFields.get "content").getD .null) = .ok items ∧
      message = rawFields.set "content" (itemsJson items) ∧ MessageOk message role items ∧
      (i = 0 → role = "user") ∧ ¬ (role = "user" ∧ prev = some "user") := by
  simp only [validateMessage, bind_ok, exists_unit, mapping_ok, pure_ok, whenever_ok,
    require_ok] at h
  obtain ⟨f, rfl, h0, hr, hc, items, hn, hl, hu, heq⟩ := h
  obtain ⟨s, hs, hrole⟩ := requireIn_ok.mp hr
  simp only [hrole, Option.bind_some, Json.str?, Option.getD_some, Prod.mk.injEq] at heq
  obtain ⟨rfl, rfl⟩ := heq
  simp only [hrole] at h0 hc hl hu
  refine ⟨f, items, rfl, hn, rfl, ⟨?_, hs, ?_, normalizeContent_items hn, ?_⟩, ?_, ?_⟩
  · simp [hrole]
  · simp
  · rintro rfl
    exact ⟨by simpa [isUser] using hl, by simpa [isUser] using hu⟩
  · rintro rfl; exact isUser_str.mp (h0 rfl)
  · rintro ⟨rfl, rfl⟩; simp [isUser] at hc

/-- Validating an accepted Message again accepts it and changes nothing. -/
theorem validateMessage_again {v i : Nat} {prev : Option String} {raw : Json} {role : String}
    {message : Fields} (h : validateMessage v i prev raw = .ok (role, message)) :
    validateMessage v i prev (.obj message) = .ok (role, message) := by
  obtain ⟨f, items, rfl, hn, rfl, hm, h0, hc⟩ := validateMessage_ok h
  have hself := Fields.set_get_self hm.content_eq
  simp only [validateMessage, bind_ok, exists_unit, mapping_ok, pure_ok, whenever_ok, require_ok,
    requireIn_ok]
  refine ⟨_, rfl, ?_, ⟨role, hm.role_mem, hm.role_eq⟩, ?_, items, ?_, ?_, ?_, ?_⟩
  · rw [hm.role_eq, isUser_str]; simpa using h0
  · rw [hm.role_eq]
    by_cases hu : role = "user"
    · have : prev ≠ some "user" := fun e => hc ⟨hu, e⟩
      simp [isUser, this]
    · simp [isUser, hu]
  · rw [hm.content_eq]; exact normalizeContent_idem hn
  · rw [hm.role_eq, isUser_str]; simpa using fun e => (hm.user e).1
  · rw [hm.role_eq, isUser_str]; exact fun e => (hm.user e).2
  · rw [hm.role_eq, hself]; rfl

/-- A Message whose content is an array is not changed by validation. -/
theorem validateMessage_keeps {v i : Nat} {prev : Option String} {m : Fields} {l : List Json}
    (hl : m.get "content" = some (.arr l)) {role : String} {message : Fields}
    (h : validateMessage v i prev (.obj m) = .ok (role, message)) : message = m := by
  obtain ⟨f, items, hf, hn, rfl, -⟩ := validateMessage_ok h
  cases hf
  rw [hl] at hn
  rw [← normalizeContent_arr hn]
  exact Fields.set_get_self hl

/-- The Messages of an accepted version, after a Message of role `prev`. -/
def Accepted (prev : Option String) : List Fields → Prop
  | [] => True
  | message :: rest => ∃ role items, MessageOk message role items ∧
      ¬ (role = "user" ∧ prev = some "user") ∧ Accepted (some role) rest

theorem validateMessages_cons {v i : Nat} {prev : Option String} {raw : Json} {rest : List Json}
    {out : List Fields} :
    validateMessages v i prev (raw :: rest) = .ok out ↔ ∃ role message messages,
      validateMessage v i prev raw = .ok (role, message) ∧
      validateMessages v (i + 1) (some role) rest = .ok messages ∧ out = message :: messages := by
  simp only [validateMessages, bind_ok, pure_ok]
  constructor
  · rintro ⟨⟨role, message⟩, h1, messages, h2, rfl⟩; exact ⟨role, message, messages, h1, h2, rfl⟩
  · rintro ⟨role, message, messages, h1, h2, rfl⟩; exact ⟨(role, message), h1, messages, h2, rfl⟩

theorem validateMessages_again {v : Nat} : ∀ {l : List Json} {i : Nat} {prev : Option String}
    {out : List Fields}, validateMessages v i prev l = .ok out →
      validateMessages v i prev (out.map .obj) = .ok out
  | [], i, prev, out, h => by cases h; rfl
  | raw :: rest, i, prev, out, h => by
    obtain ⟨role, message, messages, h1, h2, rfl⟩ := validateMessages_cons.mp h
    exact validateMessages_cons.mpr
      ⟨role, message, messages, validateMessage_again h1, validateMessages_again h2, rfl⟩

theorem validateMessages_accepted {v : Nat} : ∀ {l : List Json} {i : Nat} {prev : Option String}
    {out : List Fields}, validateMessages v i prev l = .ok out → Accepted prev out
  | [], i, prev, out, h => by cases h; trivial
  | raw :: rest, i, prev, out, h => by
    obtain ⟨role, message, messages, h1, h2, rfl⟩ := validateMessages_cons.mp h
    obtain ⟨_, items, -, -, -, hm, -, hc⟩ := validateMessage_ok h1
    exact ⟨role, items, hm, hc, validateMessages_accepted h2⟩

theorem validateMessages_obj {v : Nat} : ∀ {l : List Json} {i : Nat} {prev : Option String}
    {out : List Fields}, validateMessages v i prev l = .ok out →
      ∀ raw ∈ l, ∃ f : Fields, raw = .obj f
  | [], i, prev, out, _ => by simp
  | raw :: rest, i, prev, out, h => by
    obtain ⟨role, message, messages, h1, h2, rfl⟩ := validateMessages_cons.mp h
    obtain ⟨f, -, rfl, -⟩ := validateMessage_ok h1
    intro x hx
    rcases List.mem_cons.mp hx with rfl | hx
    · exact ⟨f, rfl⟩
    · exact validateMessages_obj h2 x hx

/-- Every Message has an array for content. -/
def ArrayContent (version : List Fields) : Prop :=
  ∀ message ∈ version, ∃ l, message.get "content" = some (.arr l)

theorem validateMessages_keeps {v : Nat} : ∀ {l : List Fields} {i : Nat} {prev : Option String}
    {out : List Fields}, ArrayContent l → validateMessages v i prev (l.map .obj) = .ok out →
      out = l
  | [], i, prev, out, _, h => by cases h; rfl
  | m :: rest, i, prev, out, hl, h => by
    obtain ⟨role, message, messages, h1, h2, rfl⟩ := validateMessages_cons.mp h
    obtain ⟨l', hl'⟩ := hl m List.mem_cons_self
    rw [validateMessage_keeps hl' h1,
      validateMessages_keeps (fun x hx => hl x (List.mem_cons_of_mem _ hx)) h2]

theorem validateVersion_ok {v : Nat} {raw : Json} {out : List Fields}
    (h : validateVersion v raw = .ok out) :
    ∃ l, raw = .arr l ∧ l ≠ [] ∧ validateMessages v 0 none l = .ok out := by
  unfold validateVersion at h
  split at h
  · exact ⟨_, rfl, by simp, h⟩
  · cases h

theorem validateVersion_of_ne_nil {v : Nat} {l : List Json} (h : l ≠ []) :
    validateVersion v (.arr l) = validateMessages v 0 none l := by
  cases l with
  | nil => exact absurd rfl h
  | cons a l => rfl

theorem validateMessages_length {v : Nat} : ∀ {l : List Json} {i : Nat} {prev : Option String}
    {out : List Fields}, validateMessages v i prev l = .ok out → out.length = l.length
  | [], i, prev, out, h => by cases h; rfl
  | raw :: rest, i, prev, out, h => by
    obtain ⟨role, message, messages, -, h2, rfl⟩ := validateMessages_cons.mp h
    simp [validateMessages_length h2]

/-- What `validate_data` grants a version: it is not empty, starts with a user Message and has no
two user Messages in a row. -/
structure VersionOk (version : List Fields) : Prop where
  ne_nil : version ≠ []
  accepted : Accepted none version
  first_user : ∀ m ∈ version.head?, m.get "role" = some (.str "user")

theorem validateVersion_versionOk {v : Nat} {raw : Json} {out : List Fields}
    (h : validateVersion v raw = .ok out) : VersionOk out := by
  obtain ⟨l, rfl, hne, hm⟩ := validateVersion_ok h
  have hlen := validateMessages_length hm
  refine ⟨?_, validateMessages_accepted hm, ?_⟩
  · rintro rfl; exact hne (List.length_eq_zero_iff.mp hlen.symm)
  · cases l with
    | nil => exact absurd rfl hne
    | cons raw rest =>
      obtain ⟨role, message, messages, h1, -, rfl⟩ := validateMessages_cons.mp hm
      obtain ⟨_, items, -, -, -, hok, h0, -⟩ := validateMessage_ok h1
      simp [hok.role_eq, h0 rfl]

theorem validateVersion_again {v : Nat} {raw : Json} {out : List Fields}
    (h : validateVersion v raw = .ok out) : validateVersion v (versionJson out) = .ok out := by
  obtain ⟨l, rfl, hne, hm⟩ := validateVersion_ok h
  rw [versionJson, validateVersion_of_ne_nil, validateMessages_again hm]
  have := (validateVersion_versionOk h).ne_nil
  simpa using this

theorem validateData_ok {value : Json} {data : List (List Fields)}
    (h : validateData value = .ok data) :
    ∃ l, value = .arr l ∧ l ≠ [] ∧ mapIdxM' validateVersion 0 l = .ok data := by
  unfold validateData at h
  split at h
  · exact ⟨_, rfl, by simp, h⟩
  · cases h

theorem validateData_of_ne_nil {l : List Json} (h : l ≠ []) :
    validateData (.arr l) = mapIdxM' validateVersion 0 l := by
  cases l with
  | nil => exact absurd rfl h
  | cons a l => rfl

theorem validateData_versionOk {value : Json} {data : List (List Fields)}
    (h : validateData value = .ok data) : ∀ version ∈ data, VersionOk version := by
  obtain ⟨l, rfl, -, hm⟩ := validateData_ok h
  exact mapIdxM'_forall (fun _ _ _ => validateVersion_versionOk) hm

/-- Validating accepted data again accepts it and changes nothing. -/
theorem validateData_again {value : Json} {data : List (List Fields)}
    (h : validateData value = .ok data) : validateData (dataJson data) = .ok data := by
  obtain ⟨l, rfl, hne, hm⟩ := validateData_ok h
  have hd : data ≠ [] := by
    rintro rfl
    cases l with
    | nil => exact hne rfl
    | cons a l => simp [mapIdxM'_cons_ok] at hm
  rw [dataJson, validateData_of_ne_nil (by simpa using hd)]
  exact mapIdxM'_idem (fun _ _ _ hb => validateVersion_again hb) hm

/-- Data whose contents are arrays is not changed by validation. -/
theorem validateData_keeps {data out : List (List Fields)}
    (hl : ∀ version ∈ data, ArrayContent version)
    (h : validateData (dataJson data) = .ok out) : out = data := by
  obtain ⟨l, hl', -, hm⟩ := validateData_ok h
  cases hl'
  clear h
  have key : ∀ (d : List (List Fields)) (i : Nat) (o : List (List Fields)),
      (∀ version ∈ d, ArrayContent version) →
      mapIdxM' validateVersion i (d.map versionJson) = .ok o → o = d := by
    intro d
    induction d with
    | nil => intro i o _ h; cases h; rfl
    | cons version d ih =>
      intro i o hd h
      obtain ⟨b, m', hb, hm', rfl⟩ := mapIdxM'_cons_ok.mp h
      obtain ⟨l, hl, -, hv⟩ := validateVersion_ok hb
      cases hl
      rw [ih (i + 1) m' (fun x hx => hd x (List.mem_cons_of_mem _ hx)) hm',
        validateMessages_keeps (hd version List.mem_cons_self) hv]
  exact key data 0 out hl hm

theorem Accepted.arrayContent : ∀ {version : List Fields} {prev : Option String},
    Accepted prev version → ArrayContent version
  | [], _, _ => by simp [ArrayContent]
  | m :: rest, prev, h => by
    obtain ⟨role, items, hm, -, hr⟩ := h
    intro x hx
    rcases List.mem_cons.mp hx with rfl | hx
    · exact ⟨_, hm.content_eq⟩
    · exact hr.arrayContent x hx

end MiniAgent.Turn
