import Mathlib.Tactic.Common
import Mathlib.Data.List.Basic
import Mathlib.Order.Defs.LinearOrder

/-!
# Texts in fragments

A stream carries several texts in pieces: a fragment is the number of a text and a part of it.
`gather i` is what the stream says of text `i`. When no fragment comes after one of a later text,
the fragments read in order are the texts one after the other.
-/

namespace Lib

abbrev Fragments := List (Nat × String)

namespace Fragments

def gather (i : Nat) (f : Fragments) : String :=
  String.join ((f.filter fun p => p.1 = i).map Prod.snd)

/-- The fragments as they come. -/
def spoken (f : Fragments) : String := String.join (f.map Prod.snd)

/-- No part of a text comes after a part of a later one. -/
def InOrder (f : Fragments) : Prop := (f.filter fun p => p.2 ≠ "").Pairwise fun p q => p.1 ≤ q.1

@[simp] theorem gather_nil (i : Nat) : gather i [] = "" := rfl

@[simp] theorem spoken_nil : spoken [] = "" := rfl

@[simp] theorem gather_cons (i : Nat) (p : Nat × String) (f : Fragments) :
    gather i (p :: f) = (if p.1 = i then p.2 else "") ++ gather i f := by
  by_cases h : p.1 = i <;> simp [gather, h]

@[simp] theorem spoken_cons (p : Nat × String) (f : Fragments) :
    spoken (p :: f) = p.2 ++ spoken f := by
  simp [spoken]

theorem join_map_eq_empty {α : Type} {l : List α} {g : α → String} (h : ∀ a ∈ l, g a = "") :
    String.join (l.map g) = "" := by
  induction l with
  | nil => rfl
  | cons a l ih =>
    obtain ⟨ha, hl⟩ := List.forall_mem_cons.mp h
    rw [List.map_cons, String.join_cons, ha, ih hl]
    rfl

/-- A part that goes to a text before which nothing is said. -/
theorem join_range_insert {n k : Nat} {s : String} {g : Nat → String} (hk : k < n)
    (hg : ∀ i, i < k → g i = "") :
    String.join ((List.range n).map fun i => (if k = i then s else "") ++ g i)
      = s ++ String.join ((List.range n).map g) := by
  induction n with
  | zero => omega
  | succ n ih =>
    rw [List.range_succ, List.map_append, List.map_append, String.join_append, String.join_append]
    simp only [List.map_cons, List.map_nil, String.join_cons, String.join_nil, String.append_empty]
    by_cases hkn : k = n
    · subst hkn
      have h1 : ∀ i ∈ List.range k, (if k = i then s else "") ++ g i = "" := by
        intro i hi
        rw [List.mem_range] at hi
        rw [if_neg (by omega), hg i hi]
        rfl
      have h2 : ∀ i ∈ List.range k, g i = "" := fun i hi => hg i (List.mem_range.mp hi)
      rw [join_map_eq_empty h1, join_map_eq_empty h2, if_pos rfl]
      simp
    · rw [ih (by omega), if_neg hkn]
      simp [String.append_assoc]

/-- **Fragments in order are the texts in order.** -/
theorem spoken_eq {f : Fragments} {n : Nat} (h : f.InOrder) (hn : ∀ p ∈ f, p.2 ≠ "" → p.1 < n) :
    f.spoken = String.join ((List.range n).map fun i => f.gather i) := by
  induction f with
  | nil => exact (join_map_eq_empty fun _ _ => rfl).symm
  | cons p f ih =>
    obtain ⟨hp, hf⟩ := List.forall_mem_cons.mp hn
    simp only [spoken_cons, gather_cons]
    by_cases hempty : p.2 = ""
    · have hrest : InOrder f := by simpa [InOrder, List.filter_cons, hempty] using h
      rw [ih hrest hf, hempty]
      simp
    · have hcons : (p :: f.filter fun p => p.2 ≠ "").Pairwise fun p q => p.1 ≤ q.1 := by
        simpa [InOrder, List.filter_cons, hempty] using h
      obtain ⟨hle, hrest⟩ := List.pairwise_cons.mp hcons
      have hbefore : ∀ i, i < p.1 → gather i f = "" := by
        intro i hi
        refine join_map_eq_empty fun q hq => ?_
        obtain ⟨hmem, hqi⟩ := List.mem_filter.mp hq
        by_contra hne
        have := hle q (List.mem_filter.mpr ⟨hmem, by simpa using hne⟩)
        have hqi : q.1 = i := by simpa using hqi
        omega
      rw [ih hrest hf, join_range_insert (hp hempty) hbefore]

end Fragments

end Lib
