import Mathlib.Data.List.Nodup
import MiniAgent.Lib.Dict

/-!
# Positions of keys

A list whose elements have keys, and a dictionary that maps each key to where it stands. `position`
finds the place by a scan, and the last element of a key counts; `positions` builds the dictionary
as a loop over the list does. They agree (`get_positions`). While keys are distinct, an edit at a
key's place is an edit of the elements with this key (`eraseIdx_position`, `set_position`).
-/

namespace Lib

variable {κ α : Type} [DecidableEq κ] {key : α → κ} {l l' : List α} {a b : α} {k : κ} {i : Nat}

def position (key : α → κ) (l : List α) (k : κ) : Option Nat :=
  ((l.zipIdx.filter fun p => key p.1 = k).getLast?).map Prod.snd

/-- `{key(a): i for i, a in enumerate(l)}`. -/
def positions (key : α → κ) (l : List α) : Dict κ Nat :=
  l.zipIdx.foldl (fun d p => d.set (key p.1) p.2) Dict.empty

theorem position_nil (key : α → κ) (k : κ) : position key [] k = none := rfl

theorem position_append (key : α → κ) (l : List α) (a : α) (k : κ) :
    position key (l ++ [a]) k = if key a = k then some l.length else position key l k := by
  rw [position, List.zipIdx_append, List.filter_append]
  by_cases h : key a = k <;> simp [h, position]

theorem get_positions (key : α → κ) (l : List α) (k : κ) :
    (positions key l).get k = position key l k := by
  induction l using List.reverseRecOn with
  | nil => rfl
  | append_singleton l a ih =>
    have hlast : positions key (l ++ [a]) = (positions key l).set (key a) l.length := by
      simp [positions, List.zipIdx_append]
    rw [hlast, Dict.get_set, ih, position_append]

/-- A change of one element that keeps what is read of it. -/
theorem map_modify {f : α → α} {β : Type} {key : α → β} (h : ∀ a, key (f a) = key a) :
    (l.modify i f).map key = l.map key := by
  refine List.ext_getElem? fun j => ?_
  rw [List.getElem?_map, List.getElem?_map, List.getElem?_modify, Option.map_eq_map, Option.map_map]
  refine Option.map_congr fun a _ => ?_
  rw [Function.comp_apply]
  split
  · exact h a
  · rfl

/-- The place of a key depends on the keys. -/
theorem position_congr (h : l.map key = l'.map key) (k : κ) :
    position key l k = position key l' k := by
  induction l using List.reverseRecOn generalizing l' with
  | nil => rw [List.map_eq_nil_iff.mp h.symm]
  | append_singleton l a ih =>
    rw [List.map_append, List.map_singleton] at h
    obtain ⟨m, n, rfl, hm, hn⟩ := List.map_eq_append_iff.mp h.symm
    obtain ⟨b, rfl, hb⟩ := List.map_eq_singleton_iff.mp hn
    have hlen : m.length = l.length := by simpa using congrArg List.length hm
    rw [position_append, position_append, hb, hlen, ih hm.symm]

theorem position_eq_none : position key l k = none ↔ k ∉ l.map key := by
  induction l using List.reverseRecOn with
  | nil => simp [position_nil]
  | append_singleton l a ih =>
    rw [position_append, List.map_append, List.mem_append, List.map_singleton,
      List.mem_singleton, not_or]
    split
    · next h => simp [h]
    · next h => simp [ih, Ne.symm h]

theorem getElem?_of_position (h : position key l k = some i) : ∃ a, l[i]? = some a ∧ key a = k := by
  induction l using List.reverseRecOn with
  | nil => cases h
  | append_singleton l a ih =>
    rw [position_append] at h
    split at h
    · next hk =>
      cases h
      exact ⟨a, by simp, hk⟩
    · obtain ⟨b, hb, hk⟩ := ih h
      exact ⟨b, by rw [List.getElem?_append_left (List.getElem?_eq_some_iff.mp hb).1, hb], hk⟩

/-! ## Distinct keys -/

section Nodup

omit [DecidableEq κ] in
theorem split_at_key (hnd : (l.map key).Nodup) (ha : l[i]? = some a) :
    ∃ before after, l = before ++ a :: after ∧
    before.length = i ∧ (∀ x ∈ before, key x ≠ key a) ∧ ∀ x ∈ after, key x ≠ key a := by
  obtain ⟨hi, rfl⟩ := List.getElem?_eq_some_iff.mp ha
  have hsplit : l = l.take i ++ l[i] :: l.drop (i + 1) := by
    rw [← List.drop_eq_getElem_cons hi, List.take_append_drop]
  rw [hsplit, List.map_append, List.map_cons, List.nodup_append] at hnd
  obtain ⟨-, hrest, hbefore⟩ := hnd
  refine ⟨_, _, hsplit, List.length_take_of_le (Nat.le_of_lt hi), ?_, ?_⟩
  · intro x hx
    exact hbefore _ (List.mem_map_of_mem hx) _ List.mem_cons_self
  · intro x hx heq
    exact (List.nodup_cons.mp hrest).1 (heq ▸ List.mem_map_of_mem hx)

variable (hnd : (l.map key).Nodup) (ha : l[i]? = some a)
include hnd ha

theorem eraseIdx_position : l.eraseIdx i = l.filter fun x => key x ≠ key a := by
  obtain ⟨before, after, rfl, rfl, hbefore, hafter⟩ := split_at_key hnd ha
  have hkeep : ∀ part : List α, (∀ x ∈ part, key x ≠ key a) →
      part.filter (fun x => decide (key x ≠ key a)) = part :=
    fun part hpart => List.filter_eq_self.mpr fun x hx => decide_eq_true (hpart x hx)
  rw [List.eraseIdx_append_of_length_le (Nat.le_refl _), Nat.sub_self, List.eraseIdx_cons_zero,
    List.filter_append,
    List.filter_cons_of_neg (by simp), hkeep before hbefore, hkeep after hafter]

theorem set_position (b : α) : l.set i b = l.map fun x => if key x = key a then b else x := by
  obtain ⟨before, after, rfl, rfl, hbefore, hafter⟩ := split_at_key hnd ha
  have hkeep : ∀ part : List α, (∀ x ∈ part, key x ≠ key a) →
      (part.map fun x => if key x = key a then b else x) = part :=
    fun part hpart => (List.map_congr_left fun x hx => if_neg (hpart x hx)).trans
      (List.map_id' part)
  rw [List.set_append_right _ _ (Nat.le_refl _), Nat.sub_self, List.set_cons_zero,
    List.map_append, List.map_cons, if_pos rfl,
    hkeep before hbefore, hkeep after hafter]

theorem find?_position : (l.find? fun x => key x = key a) = some a := by
  obtain ⟨before, after, rfl, rfl, hbefore, -⟩ := split_at_key hnd ha
  rw [List.find?_append, List.find?_eq_none.mpr fun x hx => by
    simpa using hbefore x hx, Option.none_or,
    List.find?_cons_of_pos (by simp)]

end Nodup

end Lib
