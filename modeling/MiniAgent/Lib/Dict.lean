import Mathlib.Data.List.Basic
import Mathlib.Data.List.Induction
import Mathlib.Data.List.Nodup
import Mathlib.Tactic.Common

/-!
# Dictionaries in the order of insertion

A Python `dict`: each key once, a new key goes to the end and an old one keeps its place. `groupOn`
collects the elements of a list under their keys, as a loop of `setdefault(key, []).append(element)`
does.
-/

namespace Lib

structure Dict (κ α : Type) where
  entries : List (κ × α)
  nodup : (entries.map Prod.fst).Nodup

namespace Dict

variable {κ α : Type} [DecidableEq κ]

def empty : Dict κ α := ⟨[], List.nodup_nil⟩

def keys (d : Dict κ α) : List κ := d.entries.map Prod.fst

def values (d : Dict κ α) : List α := d.entries.map Prod.snd

def get (d : Dict κ α) (k : κ) : Option α := (d.entries.find? fun p => p.1 = k).map Prod.snd

/-- The entries with `k` set to `a`. -/
def setEntries (k : κ) (a : α) : List (κ × α) → List (κ × α)
  | [] => [(k, a)]
  | p :: l => if p.1 = k then (k, a) :: l else p :: setEntries k a l

theorem keys_setEntries (k : κ) (a : α) (l : List (κ × α)) :
    (setEntries k a l).map Prod.fst = if k ∈ l.map Prod.fst then l.map Prod.fst
    else l.map Prod.fst ++ [k] := by
  induction l with
  | nil => rfl
  | cons p l ih =>
    by_cases hp : p.1 = k
    · simp [setEntries, hp]
    · have hne : ¬ k = p.1 := fun h => hp h.symm
      rw [setEntries, if_neg hp, List.map_cons, ih]
      simp only [List.map_cons, List.mem_cons, hne, false_or]
      split <;> rfl

theorem nodup_setEntries {k : κ} {a : α} {l : List (κ × α)} (h : (l.map Prod.fst).Nodup) :
    ((setEntries k a l).map Prod.fst).Nodup := by
  rw [keys_setEntries]
  split
  · exact h
  · next hk =>
    refine List.nodup_append.mpr ⟨h, List.nodup_singleton k, fun x hx y hy heq => ?_⟩
    exact hk (List.mem_singleton.mp hy ▸ heq ▸ hx)

/-- `d[k] = a`. -/
def set (d : Dict κ α) (k : κ) (a : α) : Dict κ α :=
  ⟨setEntries k a d.entries, nodup_setEntries d.nodup⟩

@[simp] theorem get_empty (k : κ) : (empty : Dict κ α).get k = none := rfl

@[simp] theorem get_set (d : Dict κ α) (k k' : κ) (a : α) :
    (d.set k a).get k' = if k = k' then some a else d.get k' := by
  obtain ⟨l, hl⟩ := d
  simp only [get, set]
  clear hl
  induction l with
  | nil => by_cases h : k = k' <;> simp [setEntries, h]
  | cons p l ih =>
    by_cases hp : p.1 = k
    · rw [setEntries, if_pos hp, List.find?_cons, List.find?_cons, hp]
      by_cases h : k = k' <;> simp [h]
    · rw [setEntries, if_neg hp, List.find?_cons, List.find?_cons]
      by_cases h : p.1 = k'
      · have hne : ¬ k = k' := fun hk => hp (h.trans hk.symm)
        simp [h, hne]
      · simpa [h] using ih

theorem get_eq_some (d : Dict κ α) {k : κ} {a : α} : d.get k = some a ↔ (k, a) ∈ d.entries := by
  obtain ⟨l, hl⟩ := d
  simp only [get]
  induction l with
  | nil => simp
  | cons p l ih =>
    rw [List.map_cons, List.nodup_cons] at hl
    rw [List.find?_cons]
    by_cases h : p.1 = k
    · have hrest : (k, a) ∉ l := fun hmem => hl.1 (h ▸ List.mem_map_of_mem (f := Prod.fst) hmem)
      obtain ⟨k', b⟩ := p
      subst h
      simp [hrest, eq_comm]
    · have hne : (k, a) ≠ p := fun heq => h (heq ▸ rfl)
      simpa [h, hne] using ih hl.2

theorem keys_set (d : Dict κ α) (k : κ) (a : α) :
    (d.set k a).keys = if k ∈ d.keys then d.keys else d.keys ++ [k] :=
  keys_setEntries k a d.entries

theorem mem_keys (d : Dict κ α) {k : κ} : k ∈ d.keys ↔ ∃ a, d.get k = some a := by
  simp only [keys, List.mem_map, Prod.exists, exists_and_right, exists_eq_right, get_eq_some]

theorem mem_values (d : Dict κ α) {a : α} : a ∈ d.values ↔ ∃ k, d.get k = some a := by
  simp only [values, List.mem_map, Prod.exists, exists_eq_right, get_eq_some]

/-- The entries of one key. -/
theorem filter_entries (d : Dict κ α) (k : κ) :
    d.entries.filter (fun p => p.1 = k) = (d.get k).toList.map fun a => (k, a) := by
  obtain ⟨l, hl⟩ := d
  simp only [get]
  induction l with
  | nil => rfl
  | cons p l ih =>
    rw [List.map_cons, List.nodup_cons] at hl
    rw [List.filter_cons, List.find?_cons]
    by_cases h : p.1 = k
    · have hrest : l.filter (fun p => p.1 = k) = [] := by
        rw [List.filter_eq_nil_iff]
        intro q hq hqk
        have hqk : q.1 = k := by simpa using hqk
        exact hl.1 (h ▸ hqk ▸ List.mem_map_of_mem hq)
      obtain ⟨k', b⟩ := p
      subst h
      simp [hrest]
    · simpa [h] using ih hl.2

/-- Values that know their key. -/
theorem filter_values (d : Dict κ α) {f : α → κ} (h : ∀ k a, d.get k = some a → f a = k) (k : κ) :
    d.values.filter (fun a => f a = k) = (d.get k).toList := by
  have hkeys : d.entries.filter (fun p => f p.2 = k) = d.entries.filter (fun p => p.1 = k) := by
    refine List.filter_congr fun p hp => ?_
    rw [h p.1 p.2 ((get_eq_some d).mpr hp)]
  rw [values, List.filter_map]
  show (d.entries.filter fun p => f p.2 = k).map Prod.snd = _
  rw [hkeys, filter_entries, List.map_map]
  exact List.map_id _

end Dict

/-! ## Accumulators -/

section Accumulate

variable {κ α β : Type} [DecidableEq κ]

/-- Each element is taken in under its key, into `start` when the key is new. -/
def Dict.accumulate (key : β → κ) (start : α) (step : α → β → α) (d : Dict κ α) (l : List β) :
    Dict κ α :=
  l.foldl (fun d b => d.set (key b) (step ((d.get (key b)).getD start) b)) d

theorem Dict.get_accumulate (key : β → κ) (start : α) (step : α → β → α) (d : Dict κ α)
    (l : List β) (k : κ) :
    (d.accumulate key start step l).get k = if l.filter (fun b => key b = k) = [] then d.get k
      else some ((l.filter fun b => key b = k).foldl step ((d.get k).getD start)) := by
  induction l generalizing d with
  | nil => rfl
  | cons b l ih =>
    rw [accumulate, List.foldl_cons, ← accumulate, ih, get_set]
    by_cases h : key b = k
    · subst h
      simp only [List.filter_cons, decide_true, if_true, reduceCtorEq, if_false,
        List.foldl_cons, Option.getD_some]
      split
      · next hnil => rw [hnil]; rfl
      · rfl
    · simp [h]

end Accumulate

/-! ## Groups -/

section Groups

variable {κ α : Type} [DecidableEq κ]

/-- `d.setdefault(k, []).append(a)`. -/
def Dict.push (d : Dict κ (List α)) (k : κ) (a : α) : Dict κ (List α) :=
  d.set k ((d.get k).getD [] ++ [a])

/-- The elements under their keys; those without a key are left out. -/
def groupOn (key : α → Option κ) (l : List α) : Dict κ (List α) :=
  l.foldl (fun d a => match key a with
    | some k => d.push k a
    | none => d) .empty

theorem get_groupOn (key : α → Option κ) (l : List α) (k : κ) :
    ((groupOn key l).get k).getD [] = l.filter fun a => key a = some k := by
  induction l using List.reverseRecOn with
  | nil => rfl
  | append_singleton l a ih =>
    rw [groupOn, List.foldl_append, ← groupOn, List.filter_append, List.foldl_cons, List.foldl_nil]
    cases hk : key a with
    | none => simpa [hk] using ih
    | some k' =>
      simp only [Dict.push, Dict.get_set]
      by_cases h : k' = k
      · subst h
        simp [hk, ih]
      · simpa [h, hk] using ih

theorem get_groupOn_eq_some {key : α → Option κ} {l entries : List α} {k : κ}
    (h : (groupOn key l).get k = some entries) : entries = l.filter fun a => key a = some k := by
  rw [← get_groupOn, h]
  rfl

end Groups

end Lib
