import MiniAgent.Lib.Call
import MiniAgent.Lib.Threads

/-!
# Operations that read first and write later

An operation reads the shared state, computes, and comes back with a write: `read o` is a call that
returns the write as a call, or nothing where the operation ends with its read. Between the two
other operations may have run. `commit` keeps what was seen at the read (`see`), so that a condition
can compare it with the state at the write.

`serial` runs operations one after the other, each as a whole. `serializable`: where every write is
made in a state in which the whole operation would do the same, the shared state is that of the
operations that succeeded, run one after the other in the order of their writes.
-/

namespace Lib

variable {ε σ ω π : Type}

/-- The steps of an operation. -/
inductive Step (ε σ ω π : Type) where
  | start (o : ω)
  | commit (o : ω) (seen : π) (write : Call ε σ Unit)

/-- The state, and the operations that have succeeded. -/
structure Log (σ ω : Type) where
  state : σ
  done : List ω

namespace Optimistic

/-- The write of an operation, where there is one. -/
def finish : Option (Call ε σ Unit) → Call ε σ Unit
  | some write => write
  | none => pure ()

/-- The whole operation at once. -/
def whole (read : ω → Call ε σ (Option (Call ε σ Unit))) (o : ω) : Call ε σ Unit :=
  read o >>= finish

def exec (read : ω → Call ε σ (Option (Call ε σ Unit))) (see : ω → σ → π) (s : Log σ ω)
    (step : Step ε σ ω π) (_ : Unit) :
    Option (Log σ ω × List (Step ε σ ω π)) :=
  match step with
  | .start o => match read o s.state with
    | (.ok (some write), t) => some (⟨t, s.done⟩, [.commit o (see o s.state) write])
    | (.ok none, t) => some (⟨t, s.done ++ [o]⟩, [])
    | (.error _, t) => some (⟨t, s.done⟩, [])
  | .commit o _ write => match write s.state with
    | (.ok (), t) => some (⟨t, s.done ++ [o]⟩, [])
    | (.error _, t) => some (⟨t, s.done⟩, [])

/-- A new client starts with an operation. -/
def entry (_ : Log σ ω) : Step ε σ ω π → Bool
  | .start _ => true
  | .commit _ _ _ => false

/-- The operations succeed one after the other. -/
inductive Serial (read : ω → Call ε σ (Option (Call ε σ Unit))) (s : σ) : List ω → σ → Prop where
  | nil : Serial read s [] s
  | snoc {os : List ω} {o : ω} {t u : σ} (before : Serial read s os t)
    (h : whole read o t = (.ok (), u)) :
      Serial read s (os ++ [o]) u

variable {read : ω → Call ε σ (Option (Call ε σ Unit))} {see : ω → σ → π} {Inv : σ → Prop}
  {ok : σ → ω → π → Prop} {s t : σ} {done : List ω} {moves : List (Move (Step ε σ ω π) Unit)}
  {c : Threads (Log σ ω) (Step ε σ ω π)}

/-- A write that is due comes from a read of the operation in a state of the invariant. -/
def Due (read : ω → Call ε σ (Option (Call ε σ Unit))) (see : ω → σ → π) (Inv : σ → Prop) (o : ω)
    (seen : π) (write : Call ε σ Unit) : Prop :=
  ∃ s, Inv s ∧ read o s = (.ok (some write), s) ∧ see o s = seen

/-- The condition on a write, in the state it is made in. -/
def WriteOk (ok : σ → ω → π → Prop) (c : Threads (Log σ ω) (Step ε σ ω π)) : Step ε σ ω π → Prop
  | .start _ => True
  | .commit o seen _ => ok c.shared.state o seen

structure Runs (read : ω → Call ε σ (Option (Call ε σ Unit))) (see : ω → σ → π)
    (Inv : σ → Prop) (s : σ)
    (c : Threads (Log σ ω) (Step ε σ ω π)) : Prop where
  inv : Inv c.shared.state
  serial : Serial read s c.shared.done c.shared.state
  due : ∀ o seen write, c.Pending (.commit o seen write) → Due read see Inv o seen write

/-- **Serializability in the order of the writes.** -/
theorem serializable (hsteady : ∀ o, Call.Steady (read o))
    (hwrite : ∀ s o seen write, Inv s → Due read see Inv o seen write → Call.Atomic write ∧
      ∀ t, ok s o seen → write s = (.ok (), t) → whole read o s = (.ok (), t) ∧ Inv t)
    (h0 : Inv s) (hok : Meets (Threads.step entry (exec read see))
      (Threads.Guarded (WriteOk ok)) ⟨⟨s, []⟩, []⟩ moves)
    (hrun : run (Threads.step entry (exec read see)) ⟨⟨s, []⟩, []⟩ moves = some c) :
    Runs read see Inv s c := by
  have hinit : Runs read see Inv s (⟨⟨s, []⟩, []⟩ : Threads (Log σ ω) (Step ε σ ω π)) :=
    ⟨h0, .nil, fun o seen write ⟨_, hmem, _⟩ => (nomatch hmem)⟩
  refine Threads.guarded_invariant (fun c f hc hf => ?_)
    (fun c k f rest o shared new hc hk hf hx => ?_) hinit hok hrun
  · refine ⟨hc.inv, hc.serial, fun o seen write hp => ?_⟩
    rcases Threads.pending_call.mp hp with hp | rfl
    · exact hc.due o seen write hp
    · cases hf
  cases f with
  | start o =>
    have hsame : (read o c.shared.state).2 = c.shared.state := hsteady o c.shared.state
    have hpending : ∀ {shared : Log σ ω} o' seen' write',
        (⟨shared, c.threads.set k ([] ++ rest)⟩ : Threads (Log σ ω) (Step ε σ ω π)).Pending
          (.commit o' seen' write') →
          Due read see Inv o' seen' write' := by
      intro shared o' seen' write' hp
      rcases Threads.pending_of_advance hk hp with hnew | hp
      · cases hnew
      · exact hc.due o' seen' write' hp
    rw [exec] at hx
    rcases hread : read o c.shared.state with ⟨_ | _ | write, t⟩ <;> rw [hread] at hx hsame <;>
      cases hx <;>
      obtain rfl : t = c.shared.state := hsame
    · exact ⟨hc.inv, hc.serial, hpending⟩
    · refine ⟨hc.inv, .snoc hc.serial ?_, hpending⟩
      rw [whole, Call.bind_apply, hread]
      rfl
    · refine ⟨hc.inv, hc.serial, fun o' seen' write' hp => ?_⟩
      rcases Threads.pending_of_advance hk hp with hnew | hp
      · cases List.mem_singleton.mp hnew
        exact ⟨c.shared.state, hc.inv, hread, rfl⟩
      · exact hc.due o' seen' write' hp
  | commit o seen write =>
    have hdue := hc.due o seen write (Threads.pending_executed hk)
    obtain ⟨hatomic, hwhole⟩ := hwrite _ o seen write hc.inv hdue
    have hpending : ∀ {shared : Log σ ω} o' seen' write',
        (⟨shared, c.threads.set k ([] ++ rest)⟩ : Threads (Log σ ω) (Step ε σ ω π)).Pending
          (.commit o' seen' write') →
          Due read see Inv o' seen' write' := by
      intro shared o' seen' write' hp
      rcases Threads.pending_of_advance hk hp with hnew | hp
      · cases hnew
      · exact hc.due o' seen' write' hp
    rw [exec] at hx
    rcases hw : write c.shared.state with ⟨e | ⟨⟩, t⟩
    · rw [hw] at hx
      cases hx
      rw [hatomic _ e t hw]
      exact ⟨hc.inv, hc.serial, hpending⟩
    · rw [hw] at hx
      cases hx
      obtain ⟨hall, hinv⟩ := hwhole t hf hw
      exact ⟨hinv, .snoc hc.serial hall, hpending⟩

end Optimistic

end Lib
