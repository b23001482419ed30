import MiniAgent.Lib.Json

/-!
# Doubles

A reader of JSON whose numbers are doubles takes an integer for the double nearest to it: 53 bits
are kept, and a tie goes to the even side. A float is a double already. Integers below `2 ^ 53` are
safe: they are kept, and so is a value all of whose integers are safe (`rounded_of_safe`).
-/

namespace Lib

/-- `n / 2 ^ k`, to the nearest integer, to the even one on a tie. -/
def halfEven (n k : Nat) : Nat :=
  let q := n / 2 ^ k
  let twice := 2 * (n % 2 ^ k)
  if twice < 2 ^ k then q else if twice = 2 ^ k then q + q % 2 else q + 1

def maxDouble : Nat := (2 ^ 53 - 1) * 2 ^ 971

/-- The double nearest to `n`. Past the largest double a reader has an infinity; the largest double
stands for it. -/
def nearestNat (n : Nat) : Nat :=
  let k := n.log2 - 52
  let m := halfEven n k * 2 ^ k
  if m.log2 < 1024 then m else maxDouble

def nearest : Int → Int
  | .ofNat n => nearestNat n
  | .negSucc n => -nearestNat (n + 1)

/-- `2 ^ 53 - 1`, the largest safe integer. -/
def maxSafe : Nat := 9007199254740991

def isSafe (n : Int) : Bool := n.natAbs ≤ maxSafe

theorem nearestNat_of_le {n : Nat} (h : n ≤ 2 ^ 53) : nearestNat n = n := by
  rcases h.eq_or_lt with rfl | hlt
  · decide +kernel
  have hlog : n.log2 < 53 := by
    by_cases hn : n = 0
    · simp [hn]
    · exact (Nat.log2_lt hn).mpr hlt
  have hk : n.log2 - 52 = 0 := by omega
  have hfits : n.log2 < 1024 := by omega
  simp [nearestNat, hk, halfEven, Nat.mod_one, hfits]

theorem nearest_of_le {n : Int} (h : n.natAbs ≤ 2 ^ 53) : nearest n = n := by
  cases n with
  | ofNat n => exact congrArg Int.ofNat (nearestNat_of_le h)
  | negSucc n =>
    rw [nearest, nearestNat_of_le (by simpa using h)]
    rfl

theorem natAbs_of_safe {n : Int} (h : isSafe n = true) : n.natAbs < 2 ^ 53 :=
  Nat.lt_of_le_of_lt (of_decide_eq_true h) (by decide)

example : nearest (2 ^ 53 + 1) = 2 ^ 53 ∧ nearest (-1234567890123456789) =
    -1234567890123456768 := by decide +kernel

namespace Json

/-! ## Values -/

mutual

/-- A value as it is read where every number is a double. -/
def rounded : Json → Json
  | int n => int (nearest n)
  | arr l => arr (roundedList l)
  | obj f => obj (roundedFields f)
  | v => v

def roundedList : List Json → List Json
  | [] => []
  | v :: l => rounded v :: roundedList l

def roundedFields : Fields → Fields
  | [] => []
  | (k, v) :: f => (k, rounded v) :: roundedFields f

end

mutual

/-- Whether every integer of a value is safe. -/
def safe : Json → Bool
  | int n => isSafe n
  | arr l => safeList l
  | obj f => safeFields f
  | _ => true

def safeList : List Json → Bool
  | [] => true
  | v :: l => safe v && safeList l

def safeFields : Fields → Bool
  | [] => true
  | (_, v) :: f => safe v && safeFields f

end

mutual

theorem rounded_of_safe : ∀ {v : Json}, safe v = true → rounded v = v
  | int _, h => congrArg int (nearest_of_le (natAbs_of_safe h).le)
  | arr _, h => congrArg arr (roundedList_of_safe h)
  | obj _, h => congrArg obj (roundedFields_of_safe h)
  | null, _ | bool _, _ | float _, _ | str _, _ => rfl

theorem roundedList_of_safe : ∀ {l : List Json}, safeList l = true → roundedList l = l
  | [], _ => rfl
  | v :: l, h => by
    rw [safeList, Bool.and_eq_true] at h
    rw [roundedList, rounded_of_safe h.1, roundedList_of_safe h.2]

theorem roundedFields_of_safe : ∀ {f : Fields}, safeFields f = true → roundedFields f = f
  | [], _ => rfl
  | (k, v) :: f, h => by
    rw [safeFields, Bool.and_eq_true] at h
    rw [roundedFields, rounded_of_safe h.1, roundedFields_of_safe h.2]

end

theorem safe_arr {l : List Json} : safe (arr l) = true ↔ ∀ v ∈ l, safe v = true := by
  rw [safe]
  induction l with
  | nil => simp [safeList]
  | cons v l ih => rw [safeList, Bool.and_eq_true, ih, List.forall_mem_cons]

theorem safe_obj {f : Fields} : safe (obj f) = true ↔ ∀ p ∈ f, safe p.2 = true := by
  rw [safe]
  induction f with
  | nil => simp [safeFields]
  | cons p f ih =>
    obtain ⟨k, v⟩ := p
    rw [safeFields, Bool.and_eq_true, ih, List.forall_mem_cons]

end Json

end Lib
