import MiniAgent.Bridge.Events

/-!
# The copy of the Message being written

`Draft` is the Turn as the bridge has it in mind: the data, the Message it writes, and the Item that
streams. A bridge `Shows` a draft when its writer holds a running Turn with this data and its own
copy of the Message has the Items of the Message. A method of the bridge is then a change of the
draft.
-/

namespace MiniAgent.Bridge

open Lib Turn Provider Store NodeWriter

/-! ## Writers -/

section Writers

variable {env : WriterEnv} {t : ValidTurn env.host} {w w' : NodeWriter} {out : RuntimeState}
  {call : WriterCall}

/-- The writer holds a Turn: it is the dynamic copy, the store has it, and its baseline has been
sent. -/
structure Holds (env : WriterEnv) (w : NodeWriter) (t : ValidTurn env.host) : Prop where
  dynamic : w.dynamic t.val.key = some t.val
  stored : w.store t.val.key = some (.turn t.val)
  baseline : w.revisions t.val.key ≠ none

theorem Holds.current (h : Holds env w t) : NodeWriter.current env t.val.key w = (.ok t.val, w) :=
  current_of_dynamic t.property h.dynamic

/-- A call after which the writer holds the Turn. -/
def keeps : WriterCall → Bool
  | .appendMessage _ persist => persist
  | .appendItems _ _ persist => persist
  | .setItemStatus _ _ _ _ persist => persist
  | .appendText _ _ _ _ persist => persist
  | .updateConfig _ => true
  | .finalize _ => false

theorem edit_keeps {e : Edit} (h : call.edit t.val noWriter = (.ok (some e), noWriter))
    (hkeeps : keeps call = true) :
    e.drops = false ∧ e.persist = true := by
  cases call with
  | appendMessage message persist =>
    simp only [WriterCall.edit, Call.bind_ok, Call.ofExcept_ok, Call.pure_ok] at h
    obtain ⟨data, _, -, h, -⟩ := h
    cases h
    exact ⟨rfl, hkeeps⟩
  | appendItems items messageIdx persist =>
    simp only [WriterCall.edit, Call.bind_ok] at h
    obtain ⟨target, _, -, h⟩ := h
    split at h
    · cases h
    · simp only [Call.bind_ok, Call.pure_ok] at h
      obtain ⟨normalized, _, -, data, _, -, h, -⟩ := h
      cases h
      exact ⟨rfl, hkeeps⟩
  | setItemStatus dataIdx messageIdx itemIdx status persist =>
    simp only [WriterCall.edit] at h
    split at h
    · cases h
    · simp only [Call.bind_ok, Call.pure_ok] at h
      obtain ⟨place, _, -, item, _, -, data, _, -, h, -⟩ := h
      cases h
      exact ⟨rfl, hkeeps⟩
  | appendText dataIdx messageIdx itemIdx delta persist =>
    simp only [WriterCall.edit] at h
    split at h
    · cases h
    · simp only [Call.bind_ok] at h
      obtain ⟨place, _, -, h⟩ := h
      split at h
      · cases h
      · simp only [Call.bind_ok, Call.pure_ok] at h
        obtain ⟨item, _, -, text, _, -, h, -⟩ := h
        cases h
        exact ⟨rfl, hkeeps⟩
  | updateConfig changes =>
    simp only [WriterCall.edit, Call.bind_ok, Call.pure_ok] at h
    obtain ⟨members, _, -, h, -⟩ := h
    cases h
    exact ⟨rfl, rfl⟩
  | finalize status => cases hkeeps

/-- A commit that returns: the Turn is kept, and in the store if it was to be persisted. -/
theorem commit_ok {e : Edit} (hemits : env.emitsFrames = true)
    (h : e.commit env w = (.ok out, w')) :
    RuntimeState.fromDict env.host (.obj e.members) = .ok out ∧
      w'.dynamic = (if e.drops then Function.update w.dynamic out.key none
        else Function.update w.dynamic out.key (some out)) ∧
      (e.persist = true → w'.store out.key = some (.turn out)) ∧
      (w.revisions out.key ≠ none → w'.revisions out.key ≠ none) := by
  simp only [Edit.commit, Call.bind_ok] at h
  obtain ⟨value, w₁, hstore, ⟨⟩, w₂, hemit, hrest⟩ := h
  obtain ⟨hvalue, rfl⟩ := storeDynamic_ok hstore
  have hwf := RuntimeState.fromDict_wf hvalue
  obtain ⟨hdynamic, hpersist, hframe⟩ := emitDelta_ok hemits hwf hemit
  have hrevisions : w.revisions value.key ≠ none → w₂.revisions value.key ≠ none := by
    intro hne
    split at hframe
    · rw [hframe.1]
      exact hne
    · obtain ⟨r, -, hr, -⟩ := hframe
      simp [hr]
  split at hrest
  · next hd =>
    obtain ⟨⟨⟩, w₃, hdrop, hlast⟩ := Call.bind_ok.mp hrest
    obtain rfl := Call.write_ok.mp hdrop
    obtain ⟨hclone, rfl⟩ := Call.ofExcept_ok.mp hlast
    obtain rfl : value = out := Except.ok.inj ((RuntimeState.clone_eq hwf).symm.trans hclone)
    exact ⟨hvalue, by simp [hd, hdynamic], hpersist, hrevisions⟩
  · next hd =>
    obtain ⟨hclone, rfl⟩ := Call.ofExcept_ok.mp hrest
    obtain rfl : value = out := Except.ok.inj ((RuntimeState.clone_eq hwf).symm.trans hclone)
    exact ⟨hvalue, by simp [hd, hdynamic], hpersist, hrevisions⟩

/-- A call of the writer on the Turn it holds. -/
theorem perform_of_holds (hemits : env.emitsFrames = true) (hw : Holds env w t)
    (hkeeps : keeps call = true) (h : call.perform env t.val.key w = (.ok out, w')) :
    ∃ t' : ValidTurn env.host, write t call = .ok t' ∧ t'.val = out ∧ Holds env w' t' := by
  obtain ⟨t', hwrite, rfl, hkey⟩ := write_of_perform hw.current rfl h
  refine ⟨t', hwrite, rfl, ?_⟩
  rw [WriterCall.perform_eq hw.current] at h
  obtain ⟨edit, w₁, hedit, hcommit⟩ := Call.bind_ok.mp h
  rw [edit_eq] at hedit
  obtain ⟨hr, rfl⟩ := Prod.mk.inj hedit
  rcases edit with _ | e
  · obtain ⟨hsame, rfl⟩ := Call.pure_ok.mp hcommit
    obtain rfl : t = t' := Subtype.ext hsame
    exact hw
  · obtain ⟨hdrops, hpersist⟩ := edit_keeps (by rw [edit_eq, hr]) hkeeps
    obtain ⟨-, hdynamic, hstored, hbaseline⟩ := commit_ok hemits hcommit
    refine ⟨by simp [hdynamic, hdrops], hstored hpersist, hbaseline ?_⟩
    rw [hkey]
    exact hw.baseline

end Writers

/-! ## Drafts -/

section Versions

variable {version : List Fields} {g : Fields → List Fields} {i j : Nat}

theorem items_modify : ((version.modify i fun m => setItems (g m) m)[j]?).map messageItems =
    version[j]?.map fun m => if i = j then g m else messageItems m := by
  rw [List.getElem?_modify, Option.map_eq_map, Option.map_map]
  refine Option.map_congr fun m _ => ?_
  rw [Function.comp_apply]
  split
  · exact messageItems_setContent m (g m)
  · rfl

theorem roleOf_setItems (items : List Fields) (m : Fields) :
    roleOf (setItems items m) = roleOf m := by
  simp [roleOf, setItems]

theorem roles_modify :
    (version.modify i fun m => setItems (g m) m).map roleOf = version.map roleOf := by
  refine List.ext_getElem? fun j => ?_
  rw [List.getElem?_map, List.getElem?_map, List.getElem?_modify, Option.map_eq_map, Option.map_map]
  refine Option.map_congr fun m _ => ?_
  rw [Function.comp_apply]
  split
  · exact roleOf_setItems (g m) m
  · rfl

/-- The role of the last Message. -/
def tailRole (version : List Fields) : Option Json := version.getLast?.bind roleOf

theorem tailRole_eq (version : List Fields) :
    tailRole version = (version.map roleOf).getLast?.join := by
  rw [tailRole, List.getLast?_map]
  cases version.getLast? <;> rfl

theorem tailRole_of_roles {v w : List Fields} (h : v.map roleOf = w.map roleOf) :
    tailRole v = tailRole w := by
  rw [tailRole_eq, tailRole_eq, h]

end Versions

/-- Where the bridge writes. -/
structure Cursor where
  messageIdx : Option Nat
  afterReport : Bool
  streamIndex : Option Nat
  streamType : Option String
  streamText : String

structure Draft extends Cursor where
  data : List (List Fields)
  dataIdx : Nat

namespace Draft

variable {d : Draft} {i : Nat}

def version (d : Draft) : List Fields := d.data.getD d.dataIdx []

def withVersion (d : Draft) (version : List Fields) : Draft :=
  { d with data := d.data.set d.dataIdx version }

/-- The Items of the Message being written. -/
def blocks (d : Draft) : List Fields :=
  match d.messageIdx with
  | some i => (d.version[i]?.map messageItems).getD []
  | none => []

/-- **No Message is being written, and the Turn does not end with one of the user.** A Message that
is written next would be the last one, with Items that the copy does not have. -/
def Lost (d : Draft) : Prop := d.messageIdx = none ∧ tailRole d.version ≠ some (.str "user")

structure Ok (d : Draft) : Prop where
  dataIdx : d.dataIdx < d.data.length
  message : ∀ i, d.messageIdx = some i → ∃ m, d.version[i]? = some m ∧ IsAssistant m
  between : d.messageIdx = none → tailRole d.version = some (.str "user") ∨ d.afterReport = true
  /-- The Item that streams is where the index says, unless a new Message was started under it. -/
  stream : ∀ k, d.streamIndex = some k → d.messageIdx.isSome = true ∧
    ∃ itemType, d.streamType = some itemType ∧
    (itemType = "reasoning" ∨ itemType = "text") ∧
    (k < d.blocks.length → d.blocks[k]? = some (TurnBridge.streamItem itemType d.streamText))

@[simp] theorem version_withVersion {version : List Fields} (h : d.dataIdx < d.data.length) :
    (d.withVersion version).version = version := by
  simp [withVersion, Draft.version, h]

@[simp] theorem toCursor_withVersion {version : List Fields} :
    (d.withVersion version).toCursor = d.toCursor := rfl

theorem blocks_of_message (hidx : d.messageIdx = some i) :
    d.blocks = (d.version[i]?.map messageItems).getD [] := by
  rw [blocks, hidx]

theorem blocks_of_none (hidx : d.messageIdx = none) : d.blocks = [] := by rw [blocks, hidx]

/-- The bridge stops streaming. -/
def quiet (d : Draft) (itemType : Option String) : Draft :=
  { d with streamIndex := none, streamType := itemType, streamText := "" }

theorem Ok.quiet (h : d.Ok) (itemType : Option String) : (d.quiet itemType).Ok :=
  ⟨h.dataIdx, h.message, h.between, nofun⟩

end Draft

/-! ## Bridges -/

def TurnBridge.cursor (b : TurnBridge) : Cursor :=
  ⟨b.assistantMessageIdx, b.assistantAfterReport, b.streamItemIndex, b.streamItemType, b.streamText⟩

/-- The bridge writes the Turn as the draft has it. -/
structure Mirror (env : BridgeEnv) (d : Draft) (t : ValidTurn env.writer.host) (b : TurnBridge) :
    Prop where
  holds : Holds env.writer b.writer t
  assistant : b.assistant = some t.val
  data : t.val.data = d.data
  dataIdx : t.val.currentDataIdx = d.dataIdx
  blocks : b.assistantBlocks = d.blocks
  cursor : b.cursor = d.toCursor
  started : b.started = true
  closed : b.closed = false
  ok : d.Ok

def Shows (env : BridgeEnv) (d : Draft) (b : TurnBridge) : Prop := ∃ t, Mirror env d t b

/-- Partial correctness. -/
abbrev Returns {α : Type} (P : TurnBridge → Prop) (x : TurnBridge.Method α)
    (Q : α → TurnBridge → Prop) : Prop :=
  Call.Spec P x Q fun _ => True

namespace TurnBridge

variable {env : BridgeEnv} {d : Draft} {P : TurnBridge → Prop}

/-- The bridge after a call of the writer. -/
def turned (b : TurnBridge) (t : RuntimeState) (w : NodeWriter) : TurnBridge :=
  { b with assistant := some t, lastNode := some t, writer := w }

theorem activeTurn_spec {Q : RuntimeState → TurnBridge → Prop}
    (h : ∀ b, P b → ∃ t, b.assistant = some t ∧ Q t b) :
    Returns P activeTurn Q := by
  refine .ok fun b hb => ?_
  obtain ⟨t, ht, hQ⟩ := h b hb
  refine ⟨t, b, ?_, hQ⟩
  rw [activeTurn, Call.bind_of_ok (show Call.read id b = (.ok b, b) from rfl), ht]
  rfl

theorem activeTurn_some : Returns P activeTurn fun s b => P b ∧ b.assistant = some s := by
  refine .read_bind fun b => ?_
  split
  · next t ht =>
    refine .pure fun b' hb' => ⟨hb'.1, ?_⟩
    rw [show b' = b from hb'.2]
    exact ht
  · exact .raise fun _ => trivial

theorem writeOn_spec {s : RuntimeState} {call : WriterCall} {Q : Unit → TurnBridge → Prop}
    (hkeeps : keeps call = true)
    (h : ∀ b, P b → ∃ t : ValidTurn env.writer.host, t.val = s ∧ Holds env.writer b.writer t ∧
      ∀ t' w, write t call = .ok t' → Holds env.writer w t' → Q () (b.turned t'.val w)) :
    Returns P (writeOn env s call) Q := by
  refine .bind (R := fun out b' => ∃ b, P b ∧ ∃ w, b' = { b with writer := w } ∧
    call.perform env.writer s.key b.writer = (.ok out, w)) ?_ fun out => ?_
  · exact .onPart (fun b out w hb hx => ⟨b, hb, w, rfl, hx⟩) fun _ _ _ _ _ => trivial
  · refine .write fun b' hb' => ?_
    obtain ⟨b, hb, w, rfl, hx⟩ := hb'
    obtain ⟨t, rfl, hholds, hQ⟩ := h b hb
    obtain ⟨t', hwrite, rfl, hholds'⟩ := perform_of_holds env.emits hholds hkeeps hx
    exact hQ t' w hwrite hholds'

theorem writeTurn_spec {call : RuntimeState → WriterCall} {Q : Unit → TurnBridge → Prop}
    (hkeeps : ∀ s, keeps (call s) = true)
    (h : ∀ b, P b → ∃ t : ValidTurn env.writer.host, b.assistant = some t.val ∧
      Holds env.writer b.writer t ∧
      ∀ t' w, write t (call t.val) = .ok t' → Holds env.writer w t' → Q () (b.turned t'.val w)) :
    Returns P (writeTurn env call) Q := by
  refine .bind (activeTurn_spec (Q := fun s b => P b ∧ b.assistant = some s) fun b hb => ?_)
    fun s => ?_
  · obtain ⟨t, ht, -⟩ := h b hb
    exact ⟨t.val, ht, hb, ht⟩
  · refine writeOn_spec (hkeeps s) fun b hb => ?_
    obtain ⟨t, ht, hholds, hQ⟩ := h b hb.1
    obtain rfl : t.val = s := Option.some.inj (ht.symm.trans hb.2)
    exact ⟨t, rfl, hholds, hQ⟩

theorem currentTurn_spec {Q : RuntimeState → TurnBridge → Prop}
    (h : ∀ b, P b → ∃ t : ValidTurn env.writer.host,
    b.assistant = some t.val ∧ Holds env.writer b.writer t ∧ Q t.val b) :
    Returns P (currentTurn env) Q := by
  refine .bind (activeTurn_spec (Q := fun s b => P b ∧ b.assistant = some s) fun b hb => ?_)
    fun s => ?_
  · obtain ⟨t, ht, -⟩ := h b hb
    exact ⟨t.val, ht, hb, ht⟩
  · refine .onPart (fun b out w hb hx => ?_) fun _ _ _ _ _ => trivial
    obtain ⟨t, ht, hholds, hQ⟩ := h b hb.1
    obtain rfl : t.val = s := Option.some.inj (ht.symm.trans hb.2)
    cases hholds.current.symm.trans hx
    exact hQ

theorem persistTurn_spec {Q : Unit → TurnBridge → Prop}
    (h : ∀ b, P b → ∃ t : ValidTurn env.writer.host,
    b.assistant = some t.val ∧ Holds env.writer b.writer t ∧
      ∀ w, Holds env.writer w t → Q () { b with assistant := some t.val, writer := w }) :
    Returns P (persistTurn env) Q := by
  refine .bind (activeTurn_spec (Q := fun s b => P b ∧ b.assistant = some s) fun b hb => ?_)
    fun s => ?_
  · obtain ⟨t, ht, -⟩ := h b hb
    exact ⟨t.val, ht, hb, ht⟩
  · refine .bind (R := fun out b' => ∃ b, P b ∧ b.assistant = some s ∧
      ∃ w, b' = { b with writer := w } ∧
      NodeWriter.persistTurn env.writer s b.writer = (.ok out, w)) ?_ fun out => ?_
    · exact .onPart (fun b out w hb hx => ⟨b, hb.1, hb.2, w, rfl, hx⟩) fun _ _ _ _ _ => trivial
    · refine .write fun b' hb' => ?_
      obtain ⟨b, hb, hs, w, rfl, hx⟩ := hb'
      obtain ⟨t, ht, hholds, hQ⟩ := h b hb
      obtain rfl : t.val = s := Option.some.inj (ht.symm.trans hs)
      simp only [NodeWriter.persistTurn, Call.bind_ok] at hx
      obtain ⟨value, w₁, hstore, ⟨⟩, w₂, hupdate, hlast⟩ := hx
      obtain ⟨hvalue, rfl⟩ := storeDynamic_ok hstore
      obtain rfl : t.val = value :=
        Except.ok.inj ((RuntimeState.fromDict_toDict t.property).symm.trans hvalue)
      obtain ⟨hclone, rfl⟩ := Call.ofExcept_ok.mp hlast
      obtain rfl : t.val = out :=
        Except.ok.inj ((RuntimeState.clone_eq t.property).symm.trans hclone)
      have hpersist : whenPersist env.writer true t.val _ = (.ok (), w₂) := hupdate
      obtain ⟨hdynamic, hrevisions, -, hstored⟩ := whenPersist_ok t.property hpersist
      exact hQ w₂ ⟨by simp [hdynamic], hstored rfl, by rw [hrevisions]; exact hholds.baseline⟩

end TurnBridge

end MiniAgent.Bridge
