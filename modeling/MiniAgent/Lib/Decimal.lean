import Mathlib.Algebra.Order.Group.Nat
import Mathlib.Tactic.Common

/-!
# A number that says its own length

`digits n` is the number of decimal digits of `n`. A text that must name what it leaves out leaves
out `k + digits o` when it names `o`. Taking what is left out for the next name, from a name that is
not too large, the names grow, and after four turns they stay (`settles`): a second carry would need
as many turns as there are numbers with as many digits.
-/

namespace Lib

def digits (n : Nat) : Nat := n.repr.length

theorem digits_pos (n : Nat) : 0 < digits n := Nat.length_repr_pos

theorem digits_le_iff {n k : Nat} (h : 0 < k) : digits n ≤ k ↔ n < 10 ^ k :=
  Nat.length_repr_le_iff h

theorem lt_pow_digits (n : Nat) : n < 10 ^ digits n :=
  (digits_le_iff (digits_pos n)).mp (Nat.le_refl _)

theorem digits_mono {m n : Nat} (h : m ≤ n) : digits m ≤ digits n :=
  (digits_le_iff (digits_pos n)).mpr (Nat.lt_of_le_of_lt h (lt_pow_digits n))

/-- A number grows by at most one digit when at most its digits are added twice. -/
theorem digits_add_le {m n : Nat} (h : n ≤ m + 2 * digits m) : digits n ≤ digits m + 1 := by
  refine (digits_le_iff (Nat.succ_pos _)).mpr ?_
  have hm : m < 10 ^ digits m := lt_pow_digits m
  have hpow : digits m < 10 ^ digits m := Nat.lt_pow_self (by omega)
  have hten : 10 ^ (digits m + 1) = 10 ^ digits m * 10 := pow_succ 10 (digits m)
  omega

section Settle

variable {k o : Nat}

/-- What is left out when `o` is named. -/
def named (k o : Nat) : Nat := k + digits o

theorem named_mono {m n : Nat} (h : m ≤ n) : named k m ≤ named k n :=
  Nat.add_le_add_left (digits_mono h) k

/-- **After four turns the name stays.** -/
theorem settles (h : o ≤ named k o) :
    named k (named k (named k (named k o))) = named k (named k (named k o)) := by
  -- `a`, `b` and `c` are the second, third and fourth name
  generalize ha : named k o = a at h ⊢
  generalize hb : named k a = b
  generalize hc : named k b = c
  have hab : a ≤ b := ha ▸ hb ▸ named_mono (h.trans_eq rfl)
  have hbc : b ≤ c := hb ▸ hc ▸ named_mono hab
  have hdo : digits o ≤ digits a := digits_mono h
  have hda : digits a ≤ digits b := digits_mono hab
  have hdb : digits b ≤ digits c := digits_mono hbc
  simp only [named] at ha hb hc ⊢
  rcases Nat.eq_or_lt_of_le hda with heq | hlt
  · -- no carry at the third name
    have hcb : c = b := by omega
    rw [hcb, hc, hcb]
  · -- a carry at the third name, so none at the fourth
    have hcarry : digits b ≤ digits a + 1 := digits_add_le (by omega)
    have hpos : 0 < digits o := digits_pos o
    have hlater : digits c ≤ digits a + 1 := digits_add_le (by omega)
    omega

end Settle

end Lib
