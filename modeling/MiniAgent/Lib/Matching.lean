import Mathlib.Logic.Function.Basic
import Mathlib.Tactic.Common

/-!
# Slots and their holders

Two tables that name each other: `slot (i, a) = some b` where the slot `a` of the group `i` is held
by `b`, and `place (i, b) = some a` where `b` sits in the slot `a`. They match when each says what
the other says, so that a slot has one holder and a holder one slot. `Rematch` lists the changes
that keep two tables matched.
-/

namespace Lib

variable {ι α β : Type} [DecidableEq ι] [DecidableEq α] [DecidableEq β]

def Matched (slot : ι × α → Option β) (place : ι × β → Option α) : Prop :=
  ∀ i a b, slot (i, a) = some b ↔ place (i, b) = some a

/-- What an operation does to both tables. -/
inductive Rematch (slot slot' : ι × α → Option β) (place place' : ι × β → Option α) : Prop where
  | same (hs : slot' = slot) (hp : place' = place)
  | take (i : ι) (a : α) (b : β) (free : slot (i, a) = none ∨ slot (i, a) = some b)
      (idle : ∀ c, place (i, b) = some c → c = a)
      (hs : slot' = Function.update slot (i, a) (some b))
      (hp : place' = Function.update place (i, b) (some a))
  | leave (i : ι) (a : α) (b : β) (here : ∀ c, place (i, b) = some c → c = a)
      (hs : slot' = Function.update slot (i, a)
        (if slot (i, a) = some b then none else slot (i, a)))
      (hp : place' = Function.update place (i, b) none)

variable {slot slot' : ι × α → Option β} {place place' : ι × β → Option α}

theorem Matched.take {i : ι} {a : α} {b : β} (h : Matched slot place)
    (free : slot (i, a) = none ∨ slot (i, a) = some b) (idle : ∀ c, place (i, b) = some c → c = a) :
    Matched (Function.update slot (i, a) (some b)) (Function.update place (i, b) (some a)) := by
  intro j c d
  have hslot : slot (i, a) = some d → d = b := by
    intro hd
    rcases free with free | free
    · rw [free] at hd; cases hd
    · rw [free] at hd; cases hd; rfl
  by_cases hij : j = i
  · subst hij
    by_cases hc : c = a <;> by_cases hd : d = b
    · subst hc hd; simp
    · subst hc
      rw [Function.update_self, Function.update_of_ne (by simpa using hd), ← h]
      exact ⟨fun e => absurd (Option.some.inj e).symm hd, fun e => absurd (hslot e) hd⟩
    · subst hd
      rw [Function.update_self, Function.update_of_ne (by simpa using hc), h]
      exact ⟨fun e => absurd (idle c e) hc, fun e => absurd (Option.some.inj e).symm hc⟩
    · rw [Function.update_of_ne (by simpa using hc), Function.update_of_ne (by simpa using hd), h]
  · rw [Function.update_of_ne (by simp [hij]), Function.update_of_ne (by simp [hij]), h]

theorem Matched.leave {i : ι} {a : α} {b : β} (h : Matched slot place)
    (here : ∀ c, place (i, b) = some c → c = a) :
    Matched (Function.update slot (i, a) (if slot (i, a) = some b then none else slot (i, a)))
      (Function.update place (i, b) none) := by
  intro j c d
  by_cases hij : j = i
  · subst hij
    by_cases hc : c = a <;> by_cases hd : d = b
    · subst hc hd
      rw [Function.update_self, Function.update_self]
      split <;> simp_all
    · subst hc
      rw [Function.update_self, Function.update_of_ne (by simpa using hd), ← h]
      split
      · next e => rw [e]; simp [Ne.symm hd]
      · rfl
    · subst hd
      rw [Function.update_self, Function.update_of_ne (by simpa using hc), h]
      exact ⟨fun e => absurd (here c e) hc, fun e => nomatch e⟩
    · rw [Function.update_of_ne (by simpa using hc), Function.update_of_ne (by simpa using hd), h]
  · rw [Function.update_of_ne (by simp [hij]), Function.update_of_ne (by simp [hij]), h]

theorem Matched.rematch (h : Matched slot place) (hr : Rematch slot slot' place place') :
    Matched slot' place' := by
  cases hr with
  | same hs hp => rw [hs, hp]; exact h
  | take i a b free idle hs hp => rw [hs, hp]; exact h.take free idle
  | leave i a b here hs hp => rw [hs, hp]; exact h.leave here

end Lib
