import Mathlib.Tactic.Common

/-!
# Checks that raise

`require c e` raises `e` unless `c` holds. The `_ok` lemmas read a successful chain of checks as
the conjunction of its conditions, so a validation function is inverted by one `simp`.
-/

namespace Lib

variable {ε α β : Type}

def require (c : Bool) (e : ε) : Except ε Unit := if c then .ok () else .error e

/-- A check made only under a condition. -/
def whenever (c : Bool) (x : Except ε Unit) : Except ε Unit := if c then x else .ok ()

@[simp] theorem require_ok {c : Bool} {e : ε} : require c e = .ok () ↔ c = true := by
  cases c <;> simp [require]

@[simp] theorem whenever_ok {c : Bool} {x : Except ε Unit} :
    whenever c x = .ok () ↔ (c = true → x = .ok ()) := by
  cases c <;> simp [whenever]

theorem bind_ok {x : Except ε α} {f : α → Except ε β} {b : β} :
    x >>= f = .ok b ↔ ∃ a, x = .ok a ∧ f a = .ok b := by
  cases x <;> simp [bind, Except.bind]

theorem ok_bind {a : α} {f : α → Except ε β} : (Except.ok a >>= f) = f a := rfl

/-- A check returns nothing, so its result carries no witness. -/
@[simp] theorem exists_unit {p : Unit → Prop} : (∃ a, p a) ↔ p () :=
  ⟨fun ⟨(), h⟩ => h, fun h => ⟨(), h⟩⟩

@[simp] theorem pure_ok {a b : α} : (pure a : Except ε α) = .ok b ↔ a = b := by
  simp [pure, Except.pure]

/-! ## Mapping a check over a list -/

/-- Apply a check to every element, with its index counted from `i`. -/
def mapIdxM' (f : Nat → α → Except ε β) : Nat → List α → Except ε (List β)
  | _, [] => .ok []
  | i, a :: l => do
    let b ← f i a
    let m ← mapIdxM' f (i + 1) l
    pure (b :: m)

theorem mapIdxM'_cons_ok {f : Nat → α → Except ε β} {i : Nat} {a : α} {l : List α} {m : List β} :
    mapIdxM' f i (a :: l) = .ok m ↔
      ∃ b m', f i a = .ok b ∧ mapIdxM' f (i + 1) l = .ok m' ∧ m = b :: m' := by
  simp only [mapIdxM', bind_ok, pure_ok]
  exact ⟨fun ⟨b, hb, m', hm, e⟩ => ⟨b, m', hb, hm, e.symm⟩,
    fun ⟨b, m', hb, hm, e⟩ => ⟨b, hb, m', hm, e.symm⟩⟩

/-- A check that returns a value it accepts again accepts the whole result again. -/
theorem mapIdxM'_idem {f : Nat → α → Except ε β} {g : β → α}
    (h : ∀ i a b, f i a = .ok b → f i (g b) = .ok b) :
    ∀ {l : List α} {i : Nat} {m : List β}, mapIdxM' f i l = .ok m →
      mapIdxM' f i (m.map g) = .ok m
  | [], i, m, hm => by cases hm; rfl
  | a :: l, i, m, hm => by
    obtain ⟨b, m', hb, hm', rfl⟩ := mapIdxM'_cons_ok.mp hm
    exact mapIdxM'_cons_ok.mpr ⟨b, m', h i a b hb, mapIdxM'_idem h hm', rfl⟩

/-- A check that accepts each value accepts them all. -/
theorem mapIdxM'_of_forall {f : Nat → α → Except ε β} {g : β → α} :
    ∀ {m : List β} {i : Nat}, (∀ j, ∀ b ∈ m, f j (g b) = .ok b) → mapIdxM' f i (m.map g) = .ok m
  | [], _, _ => rfl
  | b :: m, i, h => mapIdxM'_cons_ok.mpr ⟨b, m, h i b List.mem_cons_self,
      mapIdxM'_of_forall fun j c hc => h j c (List.mem_cons_of_mem _ hc), rfl⟩

theorem mapIdxM'_forall {f : Nat → α → Except ε β} {P : β → Prop}
    (h : ∀ i a b, f i a = .ok b → P b) :
    ∀ {l : List α} {i : Nat} {m : List β}, mapIdxM' f i l = .ok m → ∀ b ∈ m, P b
  | [], i, m, hm => by cases hm; simp
  | a :: l, i, m, hm => by
    obtain ⟨b, m', hb, hm', rfl⟩ := mapIdxM'_cons_ok.mp hm
    intro c hc
    rcases List.mem_cons.mp hc with rfl | hc
    · exact h i a c hb
    · exact mapIdxM'_forall h hm' c hc

/-- A check over a list was made on each element. -/
theorem mapIdxM'_mem {f : Nat → α → Except ε β} : ∀ {l : List α} {i : Nat} {m : List β},
    mapIdxM' f i l = .ok m → ∀ a ∈ l, ∃ j b, f j a = .ok b
  | [], i, m, _ => by simp
  | a :: l, i, m, hm => by
    obtain ⟨b, m', hb, hm', rfl⟩ := mapIdxM'_cons_ok.mp hm
    intro c hc
    rcases List.mem_cons.mp hc with rfl | hc
    · exact ⟨i, b, hb⟩
    · exact mapIdxM'_mem hm' c hc

/-- Where the result of a check determines its argument, so does the result on a list. -/
theorem mapIdxM'_inv {f : Nat → α → Except ε β} {g : β → α}
    (h : ∀ i a b, f i a = .ok b → a = g b) :
    ∀ {l : List α} {i : Nat} {m : List β}, mapIdxM' f i l = .ok m → l = m.map g
  | [], i, m, hm => by cases hm; rfl
  | a :: l, i, m, hm => by
    obtain ⟨b, m', hb, hm', rfl⟩ := mapIdxM'_cons_ok.mp hm
    rw [List.map_cons, ← h i a b hb, ← mapIdxM'_inv h hm']

end Lib
