import MiniAgent.Store.Selected
import MiniAgent.Turn.Atomicity

/-!
# Writes of the bridge

`RuntimeEventNodeBridge` writes one Turn, through a `NodeWriter` whose dynamic copy of it is the
Turn that the bridge holds itself. `write` is a call of the writer as a function of that Turn, and
`write_of_perform` says so. The rest is what each call makes of the selected version, and when it is
accepted.
-/

namespace MiniAgent.Bridge

open Lib Turn Store

variable {host : Host} {t t' : ValidTurn host}

/-! ## Calls as functions -/

/-- `RuntimeState.from_dict`. -/
def fromMembers (host : Host) (members : Fields) : Except Err (ValidTurn host) :=
  match h : RuntimeState.fromDict host (.obj members) with
  | .ok s => .ok ⟨s, RuntimeState.fromDict_wf h⟩
  | .error e => .error e

theorem fromMembers_ok {members : Fields} :
    fromMembers host members = .ok t ↔ RuntimeState.fromDict host (.obj members) = .ok t.val := by
  unfold fromMembers
  split
  · next s h =>
    constructor
    · intro e
      cases e
      exact h
    · intro e
      exact congrArg Except.ok (Subtype.ext (Except.ok.inj (h.symm.trans e)))
  · next e h => simp [h]

/-- An edit reads no writer. -/
def noWriter : NodeWriter := ⟨fun _ => none, fun _ => none, fun _ => none, []⟩

/-- What a call of the writer makes of the Turn. -/
def write (t : ValidTurn host) (call : WriterCall) : Except Err (ValidTurn host) :=
  match (call.edit t.val noWriter).1 with
  | .error e => .error e
  | .ok none => .ok t
  | .ok (some e) => fromMembers host e.members

theorem edit_eq (cur : RuntimeState) (call : WriterCall) (w : NodeWriter) :
    call.edit cur w = ((call.edit cur noWriter).1, w) := by
  obtain ⟨r, hr⟩ := blind_edit cur call
  rw [hr w, hr noWriter]

theorem write_ok {call : WriterCall} : write t call = .ok t' ↔
    (call.edit t.val noWriter = (.ok none, noWriter) ∧ t = t') ∨
      ∃ e, call.edit t.val noWriter = (.ok (some e), noWriter) ∧
        fromMembers host e.members = .ok t' := by
  have hedit := edit_eq t.val call noWriter
  unfold write
  rcases hr : (call.edit t.val noWriter).1 with e | (_ | e) <;> rw [hr] at hedit <;> simp [hedit]

section Refinement

variable {env : WriterEnv} {t : ValidTurn env.host} {key : Key} {w w' : NodeWriter}
  {out : RuntimeState}

/-- **The writer is the function.** A call that returns has made of its Turn what the function makes
of it, and goes on from there. -/
theorem write_of_perform {call : WriterCall} (hcur : NodeWriter.current env key w = (.ok t.val, w))
    (hkey : t.val.key = key) (h : call.perform env key w = (.ok out, w')) :
    ∃ t' : ValidTurn env.host, write t call = .ok t' ∧ t'.val = out ∧ out.key = key := by
  rw [WriterCall.perform_eq hcur] at h
  obtain ⟨edit, w₁, hedit, hcommit⟩ := Call.bind_ok.mp h
  rw [edit_eq] at hedit
  obtain ⟨hr, rfl⟩ := Prod.mk.inj hedit
  rcases edit with _ | edit
  · obtain ⟨rfl, -⟩ := Call.pure_ok.mp hcommit
    exact ⟨t, write_ok.mpr (.inl ⟨by rw [edit_eq, hr], rfl⟩), rfl, hkey⟩
  · simp only [commitEdit, Edit.commit, Call.bind_ok] at hcommit
    obtain ⟨value, _, hstore, -, _, -, hclone⟩ := hcommit
    obtain ⟨hvalue, -⟩ := storeDynamic_ok hstore
    have hclone : value.clone env.host = .ok out := by
      split at hclone
      · obtain ⟨-, _, -, hclone⟩ := Call.bind_ok.mp hclone
        exact (Call.ofExcept_ok.mp hclone).1
      · exact (Call.ofExcept_ok.mp hclone).1
    have hwf := RuntimeState.fromDict_wf hvalue
    obtain rfl : value = out := Except.ok.inj ((RuntimeState.clone_eq hwf).symm.trans hclone)
    have hedit' : call.edit t.val noWriter = (.ok (some edit), noWriter) := by rw [edit_eq, hr]
    refine ⟨⟨value, hwf⟩, write_ok.mpr (.inr ⟨edit, hedit', fromMembers_ok.mpr hvalue⟩), rfl, ?_⟩
    rw [edit_key hedit' hvalue, hkey]

/-- A call leaves the Turn its key. -/
theorem write_key {t t' : ValidTurn env.host} {call : WriterCall} (h : write t call = .ok t') :
    t'.val.key = t.val.key := by
  obtain ⟨-, rfl⟩ | ⟨e, hedit, hmembers⟩ := write_ok.mp h
  · rfl
  · exact edit_key hedit (fromMembers_ok.mp hmembers)

end Refinement

end MiniAgent.Bridge
