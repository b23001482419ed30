import MiniAgent.Lib.Check

/-!
# Calls that raise and keep their effects

A method of a mutable object is a function from the object's state to a result and the state it
leaves behind; an exception does not undo the writes made before it. `Call ε σ` is the monad of such
methods. `Call.bind_ok` peels a call that returned normally into its steps.

`transaction` undoes the writes of a call that raises. `Atomic` says that a call which raises has
changed nothing: so do calls that only read, followed by one transaction.
-/

namespace Lib

variable {ε σ α β : Type}

def Call (ε σ α : Type) := σ → Except ε α × σ

namespace Call

instance : Monad (Call ε σ) where
  pure a := fun s => (.ok a, s)
  bind x f := fun s => match x s with
    | (.ok a, t) => f a t
    | (.error e, t) => (.error e, t)

theorem bind_apply (x : Call ε σ α) (f : α → Call ε σ β) (s : σ) : (x >>= f) s = match x s with
    | (.ok a, t) => f a t
    | (.error e, t) => (.error e, t) := rfl

instance : LawfulMonad (Call ε σ) := .mk' (Call ε σ)
  (fun x => by
    funext s
    show (match x s with
      | (.ok a, t) => (Except.ok a, t)
      | (.error e, t) => (.error e, t)) = x s
    rcases x s with ⟨_ | _, _⟩ <;> rfl)
  (fun _ _ => rfl)
  (fun x f g => by
    funext s
    rw [bind_apply, bind_apply, bind_apply]
    rcases x s with ⟨_ | _, _⟩ <;> rfl)

/-- A computation without effects. -/
def ofExcept (x : Except ε α) : Call ε σ α := fun s => (x, s)

def raise (e : ε) : Call ε σ α := fun s => (.error e, s)

def read (f : σ → α) : Call ε σ α := fun s => (.ok (f s), s)

def write (f : σ → σ) : Call ε σ Unit := fun s => (.ok (), f s)

theorem bind_ok {x : Call ε σ α} {f : α → Call ε σ β} {s t : σ} {b : β} :
    (x >>= f) s = (.ok b, t) ↔ ∃ a u, x s = (.ok a, u) ∧ f a u = (.ok b, t) := by
  show (match x s with
    | (.ok a, t) => f a t
    | (.error e, t) => (.error e, t)) = (.ok b, t) ↔ _
  rcases x s with ⟨_ | a, u⟩ <;> simp

/-- The rest of a call, after a first step that has returned. -/
theorem bind_of_ok {x : Call ε σ α} {f : α → Call ε σ β} {s t : σ} {a : α} (h : x s = (.ok a, t)) :
    (x >>= f) s = f a t := by
  rw [bind_apply, h]

theorem bind_of_error {x : Call ε σ α} {f : α → Call ε σ β} {s t : σ} {e : ε}
    (h : x s = (.error e, t)) :
    (x >>= f) s = (.error e, t) := by
  rw [bind_apply, h]

@[simp] theorem pure_ok {a b : α} {s t : σ} :
    (pure a : Call ε σ α) s = (.ok b, t) ↔ a = b ∧ s = t := by
  show (Except.ok a, s) = (.ok b, t) ↔ _
  simp

@[simp] theorem ofExcept_ok {x : Except ε α} {s t : σ} {b : α} :
    (ofExcept x : Call ε σ α) s = (.ok b, t) ↔ x = .ok b ∧ s = t := by
  simp [ofExcept]

@[simp] theorem raise_ok {e : ε} {s t : σ} {b : α} :
    (raise e : Call ε σ α) s = (.ok b, t) ↔ False := by
  simp [raise]

@[simp] theorem read_ok {f : σ → α} {s t : σ} {b : α} :
    (read f : Call ε σ α) s = (.ok b, t) ↔ f s = b ∧ s = t := by
  simp [read]

@[simp] theorem write_ok {f : σ → σ} {s t : σ} :
    (write f : Call ε σ Unit) s = (.ok (), t) ↔ f s = t := by
  simp [write]

/-! ## Transactions -/

/-- The writes of a call that raises are undone. -/
def transaction (x : Call ε σ α) : Call ε σ α := fun s => match x s with
  | (.ok a, t) => (.ok a, t)
  | (.error e, _) => (.error e, s)

theorem transaction_ok {x : Call ε σ α} {s t : σ} {a : α} :
    transaction x s = (.ok a, t) ↔ x s = (.ok a, t) := by
  unfold transaction
  rcases x s with ⟨_ | _, _⟩ <;> simp

/-- A call that changes nothing, whether it raises or not. -/
def Steady (x : Call ε σ α) : Prop := ∀ s, (x s).2 = s

/-- A call that has changed nothing when it raises. -/
def Atomic (x : Call ε σ α) : Prop := ∀ s e t, x s = (.error e, t) → t = s

theorem steady_pure (a : α) : Steady (pure a : Call ε σ α) := fun _ => rfl

theorem steady_ofExcept (x : Except ε α) : Steady (ofExcept x : Call ε σ α) := fun _ => rfl

theorem steady_raise (e : ε) : Steady (raise e : Call ε σ α) := fun _ => rfl

theorem steady_read (f : σ → α) : Steady (read f : Call ε σ α) := fun _ => rfl

theorem Steady.atomic {x : Call ε σ α} (h : Steady x) : Atomic x := by
  intro s e t hx
  have hs := h s
  rw [hx] at hs
  exact hs

theorem Steady.bind {x : Call ε σ α} {f : α → Call ε σ β} (hx : Steady x) (hf : ∀ a, Steady (f a)) :
    Steady (x >>= f) := by
  intro s
  show (match x s with
    | (.ok a, t) => f a t
    | (.error e, t) => (.error e, t)).2 = s
  have hs := hx s
  rcases hxs : x s with ⟨_ | a, t⟩
  · rw [hxs] at hs
    exact hs
  · rw [hxs] at hs
    rw [show t = s from hs]
    exact hf a s

theorem atomic_transaction (x : Call ε σ α) : Atomic (transaction x) := by
  intro s e t h
  unfold transaction at h
  rcases hx : x s with ⟨_ | _, _⟩
  · rw [hx] at h
    cases h
    rfl
  · rw [hx] at h
    cases h

theorem Atomic.after {x : Call ε σ α} {f : α → Call ε σ β} (hx : Steady x)
    (hf : ∀ a, Atomic (f a)) :
    Atomic (x >>= f) := by
  intro s e t h
  have h' : (match x s with
    | (.ok a, t) => f a t
    | (.error e, t) => (.error e, t)) = (.error e, t) := h
  have hs := hx s
  rcases hxs : x s with ⟨_ | a, u⟩
  · rw [hxs] at h' hs
    cases h'
    exact hs
  · rw [hxs] at h' hs
    obtain rfl : u = s := hs
    exact hf a u e t h'

/-- What comes after the transaction does not raise. -/
theorem Atomic.then_pure {x : Call ε σ α} (hx : Atomic x) (f : α → β) :
    Atomic (x >>= fun a => pure (f a)) := by
  intro s e t h
  have h' : (match x s with
    | (.ok a, t) => (Except.ok (f a), t)
    | (.error e, t) => (.error e, t)) = (.error e, t) := h
  rcases hxs : x s with ⟨_ | a, u⟩
  · rw [hxs] at h'
    cases h'
    exact hx s e t hxs
  · rw [hxs] at h'
    cases h'

/-! ## What a call has read -/

/-- A call that neither reads nor writes the state. -/
def Blind (x : Call ε σ α) : Prop := ∃ r, ∀ s, x s = (r, s)

theorem blind_ofExcept (x : Except ε α) : Blind (ofExcept x : Call ε σ α) := ⟨x, fun _ => rfl⟩

theorem blind_pure (a : α) : Blind (pure a : Call ε σ α) := ⟨.ok a, fun _ => rfl⟩

theorem blind_raise (e : ε) : Blind (raise e : Call ε σ α) := ⟨.error e, fun _ => rfl⟩

theorem Blind.steady {x : Call ε σ α} (h : Blind x) : Steady x := by
  obtain ⟨r, hr⟩ := h
  intro s
  rw [hr s]

theorem Blind.bind {x : Call ε σ α} {f : α → Call ε σ β} (hx : Blind x) (hf : ∀ a, Blind (f a)) :
    Blind (x >>= f) := by
  obtain ⟨r, hr⟩ := hx
  rcases r with e | a
  · refine ⟨.error e, fun s => ?_⟩
    show (match x s with
      | (.ok a, t) => f a t
      | (.error e, t) => (.error e, t)) = _
    rw [hr]
  · obtain ⟨r, hf⟩ := hf a
    refine ⟨r, fun s => ?_⟩
    show (match x s with
      | (.ok a, t) => f a t
      | (.error e, t) => (.error e, t)) = _
    rw [hr]
    exact hf s

/-- A call that only reads gives the same again where what it reads first is the same. -/
theorem Steady.again {x : Call ε σ α} {f : α → Call ε σ β} {s t : σ} (hx : Steady x)
    (hf : ∀ a, Blind (f a)) (hst : (x t).1 = (x s).1) : (x >>= f) t = (((x >>= f) s).1, t) := by
  show (match x t with
    | (.ok a, t) => f a t
    | (.error e, t) => (.error e, t)) = ((match x s with
    | (.ok a, t) => f a t
    | (.error e, t) => (.error e, t)).1, t)
  have hs := hx s
  have ht := hx t
  rcases hxs : x s with ⟨e | a, s'⟩ <;> rcases hxt : x t with ⟨e' | a', t'⟩ <;>
    rw [hxs, hxt] at hst <;> cases hst
  · rw [hxt] at ht
    obtain rfl : t' = t := ht
    rfl
  · rw [hxt] at ht
    obtain rfl : t' = t := ht
    obtain ⟨r, hr⟩ := hf a
    simp only [hr]

end Call

end Lib
