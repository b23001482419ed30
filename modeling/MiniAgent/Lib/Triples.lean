import MiniAgent.Lib.Call

/-!
# Specifications of calls

`Spec P x Q E`: from a state with `P` the call `x` either returns, and its result and the state it
leaves have `Q`, or raises something in `E`. With everything in `E` this is partial correctness;
with a smaller `E` it also says what the call never raises. The rules follow the shape of a call, so
that the proof of a method reads like the method.
-/

namespace Lib

variable {ε σ τ α β ι : Type} {P P' : σ → Prop} {Q R : α → σ → Prop} {E : ε → Prop}

namespace Call

/-! ## Calls under a condition, in a row, and tried -/

/-- A call that is made under a condition. -/
def whenever (c : Bool) (x : Call ε σ Unit) : Call ε σ Unit := if c then x else pure ()

def forEach (f : ι → Call ε σ Unit) : List ι → Call ε σ Unit
  | [] => pure ()
  | i :: l => do
    f i
    forEach f l

/-- A call whose exception is caught. -/
def attempt (x : Call ε σ α) : Call ε σ (Except ε α) := fun s => (.ok (x s).1, (x s).2)

/-- A call on a part of the state, with its exceptions renamed. -/
def onPart {ε' : Type} (get : τ → σ) (put : σ → τ → τ) (rename : ε → ε') (x : Call ε σ α) :
    Call ε' τ α := fun t =>
  match x (get t) with
  | (.ok a, s) => (.ok a, put s t)
  | (.error e, s) => (.error (rename e), put s t)

/-! ## Specifications -/

def Spec (P : σ → Prop) (x : Call ε σ α) (Q : α → σ → Prop) (E : ε → Prop) : Prop :=
  ∀ s, P s → (∀ a t, x s = (.ok a, t) → Q a t) ∧ ∀ e t, x s = (.error e, t) → E e

namespace Spec

theorem result {x : Call ε σ α} {s t : σ} {a : α} (h : Spec P x Q E) (hs : P s)
    (hx : x s = (.ok a, t)) : Q a t :=
  (h s hs).1 a t hx

theorem raised {x : Call ε σ α} {s t : σ} {e : ε} (h : Spec P x Q E) (hs : P s)
    (hx : x s = (.error e, t)) : E e :=
  (h s hs).2 e t hx

theorem pre {x : Call ε σ α} (h : Spec P x Q E) (hP : ∀ s, P' s → P s) : Spec P' x Q E :=
  fun s hs => h s (hP s hs)

theorem post {x : Call ε σ α} (h : Spec P x Q E) (hQ : ∀ a s, Q a s → R a s) : Spec P x R E :=
  fun _ hs =>
  ⟨fun a t hx => hQ a t (h.result hs hx), fun _ _ hx => h.raised hs hx⟩

/-- A fact about the state before the call. -/
theorem known {p : Prop} {x : Call ε σ α} (hp : ∀ s, P s → p) (h : p → Spec P x Q E) :
    Spec P x Q E := fun s hs =>
  h (hp s hs) s hs

theorem choose {P : ι → σ → Prop} {x : Call ε σ α} (h : ∀ i, Spec (P i) x Q E) :
    Spec (fun s => ∃ i, P i s) x Q E := by
  rintro s ⟨i, hs⟩
  exact h i s hs

/-- A call whose outcome is known in every state. -/
theorem ok {x : Call ε σ α} (h : ∀ s, P s → ∃ a t, x s = (.ok a, t) ∧ Q a t) : Spec P x Q E := by
  intro s hs
  obtain ⟨a, t, hx, hQ⟩ := h s hs
  refine ⟨fun _ _ hy => ?_, fun _ _ hy => ?_⟩
  · cases hx.symm.trans hy
    exact hQ
  · cases hx.symm.trans hy

theorem error {x : Call ε σ α} (h : ∀ s, P s → ∃ e t, x s = (.error e, t) ∧ E e) :
    Spec P x Q E := by
  intro s hs
  obtain ⟨e, t, hx, hE⟩ := h s hs
  refine ⟨fun _ _ hy => ?_, fun _ _ hy => ?_⟩
  · cases hx.symm.trans hy
  · cases hx.symm.trans hy
    exact hE

theorem pure {a : α} (h : ∀ s, P s → Q a s) : Spec P (pure a : Call ε σ α) Q E :=
  ok fun s hs => ⟨a, s, rfl, h s hs⟩

theorem raise {e : ε} (h : (∃ s, P s) → E e) : Spec P (Call.raise e : Call ε σ α) Q E :=
  error fun s hs => ⟨e, s, rfl, h ⟨s, hs⟩⟩

theorem ofExcept {x : Except ε α} (hok : ∀ a, x = .ok a → ∀ s, P s → Q a s)
    (herror : ∀ e, x = .error e → E e) :
    Spec P (Call.ofExcept x) Q E := by
  rcases x with e | a
  · exact error fun s _ => ⟨e, s, rfl, herror e rfl⟩
  · exact ok fun s hs => ⟨a, s, rfl, hok a rfl s hs⟩

theorem read {f : σ → α} (h : ∀ s, P s → Q (f s) s) : Spec P (Call.read f : Call ε σ α) Q E :=
  ok fun s hs => ⟨f s, s, rfl, h s hs⟩

theorem write {f : σ → σ} {Q : Unit → σ → Prop} (h : ∀ s, P s → Q () (f s)) :
    Spec P (Call.write f : Call ε σ Unit) Q E :=
  ok fun s hs => ⟨(), f s, rfl, h s hs⟩

theorem bind {x : Call ε σ α} {f : α → Call ε σ β} {Q : β → σ → Prop} (hx : Spec P x R E)
    (hf : ∀ a, Spec (R a) (f a) Q E) : Spec P (x >>= f) Q E := by
  intro s hs
  rcases hxs : x s with ⟨e | a, t⟩
  · have hbind : (x >>= f) s = (.error e, t) := bind_of_error hxs
    refine ⟨fun _ _ h => ?_, fun _ _ h => ?_⟩
    · cases hbind.symm.trans h
    · cases hbind.symm.trans h
      exact hx.raised hs hxs
  · have ht := hx.result hs hxs
    have hbind : (x >>= f) s = f a t := bind_of_ok hxs
    exact ⟨fun _ _ h => (hf a).result ht (hbind.symm.trans h), fun _ _ h =>
      (hf a).raised ht (hbind.symm.trans h)⟩

/-- The state is read first: what follows may use it. -/
theorem read_bind {f : σ → α} {g : α → Call ε σ β} {Q : β → σ → Prop}
    (h : ∀ a, Spec (fun s => P s ∧ f s = a) (g a) Q E) : Spec P (Call.read f >>= g) Q E :=
  bind (read fun _ hs => ⟨hs, rfl⟩) h

theorem ite {c : Prop} [Decidable c] {x y : Call ε σ α} (hx : c → Spec P x Q E)
    (hy : ¬ c → Spec P y Q E) :
    Spec P (if c then x else y) Q E := by
  split
  · next hc => exact hx hc
  · next hc => exact hy hc

theorem whenever {c : Bool} {x : Call ε σ Unit} {Q : Unit → σ → Prop} (hx : c = true → Spec P x Q E)
    (hskip : c = false → ∀ s, P s → Q () s) : Spec P (Call.whenever c x) Q E := by
  unfold Call.whenever
  exact ite hx fun hc => pure (hskip (Bool.eq_false_iff.mpr hc))

/-- **Loops**: what one round keeps, all rounds keep. -/
theorem forEach {f : ι → Call ε σ Unit} {I : List ι → σ → Prop}
    (h : ∀ i l, Spec (I (i :: l)) (f i) (fun _ => I l) E) :
      ∀ l, Spec (I l) (Call.forEach f l) (fun _ => I []) E
  | [] => pure fun _ hs => hs
  | i :: l => bind (h i l) fun _ => forEach h l

theorem attempt {x : Call ε σ α} {Q : Except ε α → σ → Prop}
    (hok : ∀ s a t, P s → x s = (.ok a, t) → Q (.ok a) t)
    (herror : ∀ s e t, P s → x s = (.error e, t) → Q (.error e) t) :
      Spec P (Call.attempt x) Q E := by
  refine ok fun s hs => ⟨_, _, rfl, ?_⟩
  rcases hxs : x s with ⟨e | a, t⟩
  · exact herror s e t hs hxs
  · exact hok s a t hs hxs

theorem onPart {ε' : Type} {get : τ → σ} {put : σ → τ → τ} {rename : ε → ε'} {x : Call ε σ α}
    {P : τ → Prop} {Q : α → τ → Prop} {E : ε' → Prop}
    (hok : ∀ t a s, P t → x (get t) = (.ok a, s) → Q a (put s t))
    (herror : ∀ t e s, P t → x (get t) = (.error e, s) → E (rename e)) :
    Spec P (Call.onPart get put rename x) Q E := by
  intro t ht
  rcases hxs : x (get t) with ⟨e | a, s⟩
  · have hpart : Call.onPart get put rename x t = (.error (rename e), put s t) := by
      simp only [Call.onPart, hxs]
    refine ⟨fun _ _ h => ?_, fun _ _ h => ?_⟩
    · cases hpart.symm.trans h
    · cases hpart.symm.trans h
      exact herror t e s ht hxs
  · have hpart : Call.onPart get put rename x t = (.ok a, put s t) := by
      simp only [Call.onPart, hxs]
    refine ⟨fun _ _ h => ?_, fun _ _ h => ?_⟩
    · cases hpart.symm.trans h
      exact hok t a s ht hxs
    · cases hpart.symm.trans h

end Spec

end Call

end Lib
