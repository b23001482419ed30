import MiniAgent.Lib.Run

/-!
# Threads over shared state

Calls that run concurrently over one shared state. A thread is the stack of what it has still to do;
a frame is one atomic step (a critical section, or a single read or write), and executing it gives
the new shared state and the frames to run before the rest of the stack. `Threads.step` lets any
thread take its next step, so a run is an interleaving.

`Pending` says that some thread has a frame still to execute. `Guarded ok` is a condition on the
frames the steps of a run execute, in the state they are executed in; `guarded_invariant` and
`shared_invariant` are the rules for what such runs preserve.
-/

namespace Lib

structure Threads (σ φ : Type) where
  shared : σ
  threads : List (List φ)

/-- A new call, or a step of thread `k` whose free choices are resolved by `o`. -/
inductive Move (φ ω : Type) where
  | call (frame : φ)
  | advance (k : Nat) (o : ω)

namespace Threads

variable {σ φ ω : Type} {entry : σ → φ → Bool} {exec : σ → φ → ω → Option (σ × List φ)}
  {s s' : Threads σ φ}

def step (entry : σ → φ → Bool) (exec : σ → φ → ω → Option (σ × List φ)) (s : Threads σ φ) :
    Move φ ω → Option (Threads σ φ)
  | .call f => if entry s.shared f then some ⟨s.shared, s.threads ++ [[f]]⟩ else none
  | .advance k o => match s.threads[k]? with
    | some (f :: rest) =>
      (exec s.shared f o).map fun p => ⟨p.1, s.threads.set k (p.2 ++ rest)⟩
    | _ => none

/-- Some thread has the frame still to execute. -/
def Pending (s : Threads σ φ) (f : φ) : Prop := ∃ t ∈ s.threads, f ∈ t

theorem pending_iff {f : φ} : s.Pending f ↔ f ∈ s.threads.flatten := by
  simp only [Pending, List.mem_flatten]

instance [DecidableEq φ] (s : Threads σ φ) (f : φ) : Decidable (s.Pending f) :=
  decidable_of_iff _ pending_iff.symm

/-- **What a move does.** -/
theorem step_cases {a : Move φ ω} (h : step entry exec s a = some s') :
    (∃ f, a = .call f ∧ entry s.shared f = true ∧ s' = ⟨s.shared, s.threads ++ [[f]]⟩) ∨
    ∃ k o f rest shared new, a = .advance k o ∧ s.threads[k]? = some (f :: rest) ∧
      exec s.shared f o = some (shared, new) ∧ s' = ⟨shared, s.threads.set k (new ++ rest)⟩ := by
  cases a with
  | call f =>
    rw [step] at h
    split at h
    · next he => cases h; exact .inl ⟨f, rfl, he, rfl⟩
    · cases h
  | advance k o =>
    rw [step] at h
    split at h
    · next f rest hk =>
      obtain ⟨⟨shared, new⟩, hx, rfl⟩ := Option.map_eq_some_iff.mp h
      exact .inr ⟨k, o, f, rest, shared, new, rfl, hk, hx, rfl⟩
    · cases h

/-- The frame a move executes meets `ok`; a new call executes none. -/
def Guarded (ok : Threads σ φ → φ → Prop) (s : Threads σ φ) : Move φ ω → Prop
  | .call _ => True
  | .advance k _ => ∀ f rest, s.threads[k]? = some (f :: rest) → ok s f

instance (ok : Threads σ φ → φ → Prop) [∀ s f, Decidable (ok s f)] (s : Threads σ φ)
    (a : Move φ ω) : Decidable (Guarded ok s a) :=
  match a with
  | .call _ => isTrue trivial
  | .advance k _ => match h : s.threads[k]? with
    | none => isTrue fun f rest hk => by rw [h] at hk; cases hk
    | some [] => isTrue fun f rest hk => by rw [h] at hk; cases hk
    | some (g :: _) =>
      if hg : ok s g then isTrue fun f rest hk => by rw [h] at hk; cases hk; exact hg
      else isFalse fun hall => hg (hall _ _ h)

section Rules

variable {ok : Threads σ φ → φ → Prop}

/-- **Thread invariants** are checked at a new call and at each executed frame. -/
theorem guarded_invariant {Inv : Threads σ φ → Prop} {moves : List (Move φ ω)}
    (hcall : ∀ s f, Inv s → entry s.shared f = true → Inv ⟨s.shared, s.threads ++ [[f]]⟩)
    (hexec : ∀ s k f rest o shared new, Inv s → s.threads[k]? = some (f :: rest) → ok s f →
      exec s.shared f o = some (shared, new) → Inv ⟨shared, s.threads.set k (new ++ rest)⟩)
    (h0 : Inv s) (hok : Meets (step entry exec) (Guarded ok) s moves)
    (hrun : run (step entry exec) s moves = some s') : Inv s' := by
  refine run_invariant (fun s a t hi hok h => ?_) h0 hok hrun
  obtain ⟨f, rfl, he, rfl⟩ | ⟨k, o, f, rest, shared, new, rfl, hk, hx, rfl⟩ := step_cases h
  · exact hcall s f hi he
  · exact hexec s k f rest o shared new hi hk (hok f rest hk) hx

/-- **Invariants of the shared state** are checked at each executed frame. -/
theorem shared_invariant {Inv : σ → Prop} {moves : List (Move φ ω)}
    (hexec : ∀ s f o shared new, Inv s.shared → ok s f → exec s.shared f o = some (shared, new) →
      Inv shared)
    (h0 : Inv s.shared) (hok : Meets (step entry exec) (Guarded ok) s moves)
    (hrun : run (step entry exec) s moves = some s') : Inv s'.shared := by
  have hinv : (fun s : Threads σ φ => Inv s.shared) s' :=
    guarded_invariant (fun _ _ hs _ => hs)
      (fun s _ f _ o shared new hs _ hf hx => hexec s f o shared new hs hf hx) h0 hok hrun
  exact hinv

end Rules

theorem pending_call {f g : φ} :
    (⟨s.shared, s.threads ++ [[f]]⟩ : Threads σ φ).Pending g ↔ s.Pending g ∨ g = f := by
  simp only [Pending, List.mem_append, List.mem_singleton]
  constructor
  · rintro ⟨t, ht | rfl, hg⟩
    · exact .inl ⟨t, ht, hg⟩
    · exact .inr (by simpa using hg)
  · rintro (⟨t, ht, hg⟩ | rfl)
    · exact ⟨t, .inl ht, hg⟩
    · exact ⟨[g], .inr rfl, by simp⟩

section Advance

variable {k : Nat} {f g : φ} {rest new : List φ} {shared : σ}

theorem pending_executed (hk : s.threads[k]? = some (f :: rest)) : s.Pending f :=
  ⟨f :: rest, List.mem_of_getElem? hk, List.mem_cons_self⟩

/-- What is pending after a step was pushed by it or pending before. -/
theorem pending_of_advance (hk : s.threads[k]? = some (f :: rest))
    (h : (⟨shared, s.threads.set k (new ++ rest)⟩ : Threads σ φ).Pending g) :
    g ∈ new ∨ s.Pending g := by
  obtain ⟨t, ht, hg⟩ := h
  rcases List.mem_or_eq_of_mem_set ht with ht | rfl
  · exact .inr ⟨t, ht, hg⟩
  · rcases List.mem_append.mp hg with hg | hg
    · exact .inl hg
    · exact .inr ⟨f :: rest, List.mem_of_getElem? hk, List.mem_cons_of_mem _ hg⟩

theorem pending_pushed (hk : s.threads[k]? = some (f :: rest)) (hg : g ∈ new) :
    (⟨shared, s.threads.set k (new ++ rest)⟩ : Threads σ φ).Pending g :=
  ⟨new ++ rest, List.mem_set (List.getElem?_eq_some_iff.mp hk).1 _, List.mem_append_left _ hg⟩

/-- A frame other than the executed one stays pending. -/
theorem pending_kept (hk : s.threads[k]? = some (f :: rest)) (hg : s.Pending g) (hne : g ≠ f) :
    (⟨shared, s.threads.set k (new ++ rest)⟩ : Threads σ φ).Pending g := by
  obtain ⟨t, ht, hgt⟩ := hg
  have hlt := (List.getElem?_eq_some_iff.mp hk).1
  obtain ⟨j, hj⟩ := List.mem_iff_getElem?.mp ht
  by_cases hjk : j = k
  · subst hjk
    rw [hk] at hj
    cases hj
    rcases List.mem_cons.mp hgt with rfl | hgt
    · exact absurd rfl hne
    · exact ⟨new ++ rest, List.mem_set hlt _, List.mem_append_right _ hgt⟩
  · refine ⟨t, List.mem_iff_getElem?.mpr ⟨j, ?_⟩, hgt⟩
    rw [List.getElem?_set_ne (Ne.symm hjk)]
    exact hj

end Advance

end Threads

end Lib
