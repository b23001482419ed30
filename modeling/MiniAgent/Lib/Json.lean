import Mathlib.Data.String.Basic
import Mathlib.Data.Rat.Defs
import Mathlib.Tactic.Common

/-!
# JSON values

`Json` is the value of a JSON document as two dynamically typed languages share it: integers and
other finite numbers are kept apart (`int`, `float`), because one side tests the class of a number
and the other only its value, and an object is its list of members in insertion order.

`canon` is the normal form under which Python's `==` is equality: numbers by value, `True` and `1`
alike, objects without the order of their members. `PyEq` is its kernel, so it is an equivalence
for free, and `pyEq_obj` reads it on objects member by member.
-/

namespace Lib

inductive Json where
  | null
  | bool (b : Bool)
  | int (n : Int)
  | float (q : Rat)
  | str (s : String)
  | arr (elems : List Json)
  | obj (fields : List (String × Json))
  deriving Inhabited

/-- The members of an object, in insertion order. -/
abbrev Fields := List (String × Json)

/-- Keys of two names. -/
instance lawfulBEq_names : LawfulBEq (String × String) := inferInstance

namespace Json

/-! ## Decidable equality -/

mutual

def beq : Json → Json → Bool
  | null, null => true
  | bool a, bool b => a == b
  | int a, int b => a == b
  | float a, float b => a == b
  | str a, str b => a == b
  | arr a, arr b => beqList a b
  | obj a, obj b => beqFields a b
  | _, _ => false

def beqList : List Json → List Json → Bool
  | [], [] => true
  | a :: l, b :: m => beq a b && beqList l m
  | _, _ => false

def beqFields : Fields → Fields → Bool
  | [], [] => true
  | (k, a) :: l, (k', b) :: m => k == k' && beq a b && beqFields l m
  | _, _ => false

end

mutual

theorem beq_iff : ∀ a b : Json, beq a b = true ↔ a = b
  | null, b => by cases b <;> simp [beq]
  | bool a, b => by cases b <;> simp [beq]
  | int a, b => by cases b <;> simp [beq]
  | float a, b => by cases b <;> simp [beq]
  | str a, b => by cases b <;> simp [beq]
  | arr l, b => by
    cases b with
    | arr m => simp only [beq, beqList_iff l m, arr.injEq]
    | _ => simp [beq]
  | obj l, b => by
    cases b with
    | obj m => simp only [beq, beqFields_iff l m, obj.injEq]
    | _ => simp [beq]

theorem beqList_iff : ∀ a b : List Json, beqList a b = true ↔ a = b
  | [], b => by cases b <;> simp [beqList]
  | a :: l, [] => by simp [beqList]
  | a :: l, b :: m => by simp [beqList, beq_iff a b, beqList_iff l m]

theorem beqFields_iff : ∀ a b : Fields, beqFields a b = true ↔ a = b
  | [], b => by cases b <;> simp [beqFields]
  | (k, a) :: l, [] => by simp [beqFields]
  | (k, a) :: l, (k', b) :: m => by
    simp [beqFields, beq_iff a b, beqFields_iff l m, and_assoc]

end

instance : DecidableEq Json := fun a b => decidable_of_iff _ (beq_iff a b)

/-! ## Reading scalars -/

/-- The text of a string. -/
def str? : Json → Option String
  | str s => some s
  | _ => none

/-- The value of a number of either class. -/
def num? : Json → Option Rat
  | int n => some n
  | float q => some q
  | _ => none

/-- The value of an integer; a `float` is none, whatever its value. -/
def int? : Json → Option Int
  | int n => some n
  | _ => none

/-- Whether Python can hash the value, and so look it up in a set. -/
def hashable : Json → Bool
  | arr _ | obj _ => false
  | _ => true

end Json

/-! ## Members of an object -/

namespace Fields

def get : Fields → String → Option Json
  | [], _ => none
  | (k', v) :: l, k => if k' = k then some v else get l k

/-- Assign a member: in place when the key is there, else at the end. -/
def set : Fields → String → Json → Fields
  | [], k, v => [(k, v)]
  | (k', w) :: l, k, v => if k' = k then (k, v) :: l else (k', w) :: set l k v

/-- Drop a member. -/
def erase : Fields → String → Fields
  | [], _ => []
  | (k', w) :: l, k => if k' = k then erase l k else (k', w) :: erase l k

/-- Assign the members of another object. -/
def setAll (f : Fields) (patch : Fields) : Fields :=
  patch.foldr (fun p f => set f p.1 p.2) f

@[simp] theorem get_nil (k : String) : get [] k = none := rfl

theorem get_cons (k' k : String) (v : Json) (l : Fields) :
    get ((k', v) :: l) k = if k' = k then some v else get l k := rfl

theorem get_append (f g : Fields) (k : String) : get (f ++ g) k = (get f k).or (get g k) := by
  induction f with
  | nil => rfl
  | cons p l ih =>
    obtain ⟨k0, w⟩ := p
    by_cases h : k0 = k <;> simp [get_cons, h, ih]

@[simp] theorem get_set (f : Fields) (k k' : String) (v : Json) :
    get (set f k v) k' = if k = k' then some v else get f k' := by
  induction f with
  | nil => simp [set, get_cons]
  | cons p l ih =>
    obtain ⟨k0, w⟩ := p
    by_cases h0 : k0 = k
    · subst h0; by_cases h1 : k0 = k' <;> simp [set, get_cons, h1]
    · by_cases h1 : k0 = k'
      · subst h1; simp [set, get_cons, h0, Ne.symm h0]
      · simp [set, get_cons, h0, h1, ih]

@[simp] theorem get_erase (f : Fields) (k k' : String) :
    get (erase f k) k' = if k = k' then none else get f k' := by
  induction f with
  | nil => simp [erase]
  | cons p l ih =>
    obtain ⟨k0, w⟩ := p
    by_cases h0 : k0 = k
    · subst h0
      rw [erase, if_pos rfl, ih, get_cons]
      by_cases h1 : k0 = k' <;> simp [h1]
    · by_cases h1 : k0 = k'
      · subst h1; simp [erase, get_cons, h0, Ne.symm h0]
      · simp [erase, get_cons, h0, h1, ih]

theorem set_set (f : Fields) (k : String) (v w : Json) : set (set f k v) k w = set f k w := by
  induction f with
  | nil => simp [set]
  | cons p l ih =>
    obtain ⟨k0, u⟩ := p
    by_cases h : k0 = k <;> simp [set, h, ih]

/-- Assigning a member the value it has changes nothing. -/
theorem set_get_self {f : Fields} {k : String} {v : Json} (h : get f k = some v) :
    set f k v = f := by
  induction f with
  | nil => simp at h
  | cons p l ih =>
    obtain ⟨k0, w⟩ := p
    by_cases h0 : k0 = k
    · subst h0
      rw [get_cons, if_pos rfl] at h
      simp only [set, if_true, Option.some.inj h]
    · rw [get_cons, if_neg h0] at h
      simp only [set, if_neg h0, ih h]

theorem get_of_mem {f : Fields} (hnd : (f.map Prod.fst).Nodup) {k : String} {v : Json}
    (h : (k, v) ∈ f) : get f k = some v := by
  induction f with
  | nil => cases h
  | cons p l ih =>
    obtain ⟨k0, w⟩ := p
    simp only [List.map_cons, List.nodup_cons] at hnd
    rcases List.mem_cons.mp h with h | h
    · cases h; simp [get_cons]
    · have : k0 ≠ k := fun e => hnd.1 (e ▸ List.mem_map_of_mem (f := Prod.fst) h)
      rw [get_cons, if_neg this, ih hnd.2 h]

theorem mem_of_get {f : Fields} {k : String} {v : Json} (h : get f k = some v) : (k, v) ∈ f := by
  induction f with
  | nil => simp at h
  | cons p l ih =>
    obtain ⟨k0, w⟩ := p
    rw [get_cons] at h
    split at h
    · next e => subst e; cases h; exact List.mem_cons_self
    · exact List.mem_cons_of_mem _ (ih h)

theorem get_eq_none {f : Fields} {k : String} (h : k ∉ f.map Prod.fst) : get f k = none := by
  rcases hg : get f k with _ | v
  · rfl
  · exact absurd (List.mem_map_of_mem (f := Prod.fst) (mem_of_get hg)) h

/-- A member of the members that pass a test. -/
theorem get_filter {f : Fields} (hnd : (f.map Prod.fst).Nodup) (p : String × Json → Bool)
    (k : String) : get (f.filter p) k = (get f k).filter fun v => p (k, v) := by
  induction f with
  | nil => rfl
  | cons q l ih =>
    obtain ⟨k0, w⟩ := q
    simp only [List.map_cons, List.nodup_cons] at hnd
    by_cases hk : k0 = k
    · subst hk
      have hnone : get l k0 = none := get_eq_none hnd.1
      by_cases hp : p (k0, w) = true
      · simp [Option.filter, hp, get_cons]
      · simp [Option.filter, hp, get_cons, ih hnd.2, hnone]
    · by_cases hp : p (k0, w) = true <;> simp [hp, get_cons, hk, ih hnd.2]

@[simp] theorem get_setAll (f patch : Fields) (k : String) :
    get (setAll f patch) k = (get patch k).or (get f k) := by
  induction patch with
  | nil => rfl
  | cons p l ih =>
    obtain ⟨k0, w⟩ := p
    show get (set (setAll f l) k0 w) k = _
    rw [get_set, get_cons, ih]
    split <;> rfl

end Fields

namespace Json

/-! ## Python's equality -/

/-- Insert into a list of members with increasing keys, over an equal key. -/
def insertKey (k : String) (v : Json) : Fields → Fields
  | [] => [(k, v)]
  | (k', w) :: l =>
    if k < k' then (k, v) :: (k', w) :: l
    else if k = k' then (k, v) :: l
    else (k', w) :: insertKey k v l

mutual

def canon : Json → Json
  | null => null
  | bool b => float (if b then 1 else 0)
  | int n => float n
  | float q => float q
  | str s => str s
  | arr l => arr (canonList l)
  | obj l => obj (canonFields l)

def canonList : List Json → List Json
  | [] => []
  | a :: l => canon a :: canonList l

def canonFields : Fields → Fields
  | [] => []
  | (k, v) :: l => insertKey k (canon v) (canonFields l)

end

example : canon (arr [bool true]) = canon (arr [int 1]) := by simp [canon, canonList]

mutual

/-- The value with the members of every object in the order of their keys, as
`json.dumps(_, sort_keys=True)` writes them. -/
def sortKeys : Json → Json
  | arr l => arr (sortKeysList l)
  | obj l => obj (sortKeysFields l)
  | a => a

def sortKeysList : List Json → List Json
  | [] => []
  | a :: l => sortKeys a :: sortKeysList l

def sortKeysFields : Fields → Fields
  | [] => []
  | (k, v) :: l => insertKey k (sortKeys v) (sortKeysFields l)

end

/-- Python's `bool`. -/
def truthy : Json → Bool
  | null => false
  | bool b => b
  | int n => n ≠ 0
  | float q => q ≠ 0
  | str s => s ≠ ""
  | arr l => !l.isEmpty
  | obj l => !l.isEmpty

theorem canonList_eq_map (l : List Json) : canonList l = l.map canon := by
  induction l with
  | nil => rfl
  | cons a l ih => simp [canonList, ih]

theorem get_insertKey (k k' : String) (v : Json) (l : Fields) :
    Fields.get (insertKey k v l) k' = if k = k' then some v else Fields.get l k' := by
  induction l with
  | nil => simp [insertKey, Fields.get_cons]
  | cons p l ih =>
    obtain ⟨k0, w⟩ := p
    rw [insertKey]
    split
    · rw [Fields.get_cons]
    · split
      · next h => subst h; by_cases h1 : k = k' <;> simp [Fields.get_cons, h1]
      · next h =>
        rw [Fields.get_cons, ih, Fields.get_cons]
        by_cases h1 : k0 = k'
        · subst h1; simp [h]
        · simp [h1]

theorem get_canonFields (l : Fields) (k : String) :
    Fields.get (canonFields l) k = (Fields.get l k).map canon := by
  induction l with
  | nil => rfl
  | cons p l ih =>
    obtain ⟨k0, w⟩ := p
    rw [canonFields, get_insertKey, ih, Fields.get_cons]
    by_cases h : k0 = k <;> simp [h]

/-- Keys increase strictly. -/
def SortedKeys (l : Fields) : Prop := l.Pairwise fun p q => p.1 < q.1

theorem mem_insertKey {k : String} {v : Json} {l : Fields} {p : String × Json}
    (h : p ∈ insertKey k v l) : p = (k, v) ∨ p ∈ l := by
  induction l with
  | nil => exact .inl (by simpa [insertKey] using h)
  | cons q l ih =>
    obtain ⟨k0, w⟩ := q
    rw [insertKey] at h
    split at h
    · simpa using h
    · split at h
      · rcases List.mem_cons.mp h with h | h
        · exact .inl h
        · exact .inr (List.mem_cons_of_mem _ h)
      · rcases List.mem_cons.mp h with h | h
        · exact .inr (h ▸ List.mem_cons_self)
        · exact (ih h).imp_right (List.mem_cons_of_mem _)

theorem sortedKeys_insertKey {k : String} {v : Json} {l : Fields} (h : SortedKeys l) :
    SortedKeys (insertKey k v l) := by
  induction l with
  | nil => simp [insertKey, SortedKeys]
  | cons q l ih =>
    obtain ⟨k0, w⟩ := q
    obtain ⟨h1, h2⟩ := List.pairwise_cons.mp h
    rw [insertKey]
    split
    · next hlt =>
      refine List.pairwise_cons.mpr ⟨fun p hp => ?_, h⟩
      rcases List.mem_cons.mp hp with rfl | hp
      · exact hlt
      · exact lt_trans hlt (h1 p hp)
    · next hlt =>
      split
      · next e => subst e; exact List.pairwise_cons.mpr ⟨h1, h2⟩
      · next e =>
        refine List.pairwise_cons.mpr ⟨fun p hp => ?_, ih h2⟩
        rcases mem_insertKey hp with rfl | hp
        · exact lt_of_le_of_ne (not_lt.mp hlt) (Ne.symm e)
        · exact h1 p hp

theorem sortedKeys_canonFields (l : Fields) : SortedKeys (canonFields l) := by
  induction l with
  | nil => exact List.Pairwise.nil
  | cons p l ih => exact sortedKeys_insertKey ih

theorem get_none_of_lt {k : String} {l : Fields} (h : ∀ p ∈ l, k < p.1) :
    Fields.get l k = none :=
  Fields.get_eq_none fun hk => by
    obtain ⟨p, hp, e⟩ := List.mem_map.mp hk
    exact absurd (h p hp) (e ▸ lt_irrefl _)

/-- Members with increasing keys are determined by the lookups. -/
theorem SortedKeys.ext {a b : Fields} (ha : SortedKeys a) (hb : SortedKeys b)
    (h : ∀ k, Fields.get a k = Fields.get b k) : a = b := by
  induction a generalizing b with
  | nil =>
    cases b with
    | nil => rfl
    | cons q m => exact absurd (h q.1) (by simp [Fields.get])
  | cons p l ih =>
    cases b with
    | nil => exact absurd (h p.1) (by simp [Fields.get])
    | cons q m =>
      obtain ⟨ha1, ha2⟩ := List.pairwise_cons.mp ha
      obtain ⟨hb1, hb2⟩ := List.pairwise_cons.mp hb
      obtain ⟨kp, vp⟩ := p
      obtain ⟨kq, vq⟩ := q
      -- the smaller head key would be missing on the other side
      have hk : kp = kq := by
        rcases lt_trichotomy kp kq with hlt | e | hlt
        · have := h kp
          rw [Fields.get_cons, if_pos rfl, Fields.get_cons, if_neg (ne_of_gt hlt),
            get_none_of_lt fun p hp => lt_trans hlt (hb1 p hp)] at this
          cases this
        · exact e
        · have := h kq
          rw [Fields.get_cons kq, if_pos rfl, Fields.get_cons, if_neg (ne_of_gt hlt),
            get_none_of_lt fun p hp => lt_trans hlt (ha1 p hp)] at this
          cases this
      subst hk
      have hv : vp = vq := by simpa [Fields.get_cons] using h kp
      subst hv
      congr 1
      refine ih ha2 hb2 fun k => ?_
      by_cases hkk : kp = k
      · subst hkk
        rw [get_none_of_lt ha1, get_none_of_lt hb1]
      · simpa [Fields.get_cons, hkk] using h k

/-! ## Sorted members -/

theorem sortKeysList_eq_map (l : List Json) : sortKeysList l = l.map sortKeys := by
  induction l with
  | nil => rfl
  | cons a l ih => simp [sortKeysList, ih]

@[simp] theorem get_sortKeysFields (l : Fields) (k : String) :
    Fields.get (sortKeysFields l) k = (Fields.get l k).map sortKeys := by
  induction l with
  | nil => rfl
  | cons p l ih =>
    obtain ⟨k0, w⟩ := p
    rw [sortKeysFields, get_insertKey, ih, Fields.get_cons]
    by_cases h : k0 = k <;> simp [h]

theorem sortedKeys_sortKeysFields (l : Fields) : SortedKeys (sortKeysFields l) := by
  induction l with
  | nil => exact List.Pairwise.nil
  | cons p l ih => exact sortedKeys_insertKey ih

theorem sortKeysFields_insertKey (k : String) (v : Json) (l : Fields) :
    sortKeysFields (insertKey k v l) = insertKey k (sortKeys v) (sortKeysFields l) := by
  refine (sortedKeys_sortKeysFields _).ext (sortedKeys_insertKey (sortedKeys_sortKeysFields l))
    fun k' => ?_
  rw [get_sortKeysFields, get_insertKey, get_insertKey, get_sortKeysFields]
  by_cases h : k = k' <;> simp [h]

mutual

theorem sortKeys_sortKeys : ∀ a : Json, sortKeys (sortKeys a) = sortKeys a
  | null | bool _ | int _ | float _ | str _ => rfl
  | arr l => by rw [sortKeys, sortKeys, sortKeysList_sortKeysList l]
  | obj l => by rw [sortKeys, sortKeys, sortKeysFields_sortKeysFields l]

theorem sortKeysList_sortKeysList : ∀ l : List Json, sortKeysList (sortKeysList l) = sortKeysList l
  | [] => rfl
  | a :: l => by rw [sortKeysList, sortKeysList, sortKeys_sortKeys a, sortKeysList_sortKeysList l]

theorem sortKeysFields_sortKeysFields :
    ∀ l : Fields, sortKeysFields (sortKeysFields l) = sortKeysFields l
  | [] => rfl
  | (k, v) :: l => by
    rw [sortKeysFields, sortKeysFields_insertKey, sortKeys_sortKeys v,
      sortKeysFields_sortKeysFields l]

end

@[simp] theorem truthy_sortKeys (a : Json) : (sortKeys a).truthy = a.truthy := by
  cases a with
  | arr l => cases l <;> rfl
  | obj l =>
    cases l with
    | nil => rfl
    | cons p l =>
      obtain ⟨k, v⟩ := p
      show (!(insertKey k _ (sortKeysFields l)).isEmpty) = true
      cases sortKeysFields l with
      | nil => rfl
      | cons q m =>
        rw [insertKey]
        split
        · rfl
        · split <;> rfl
  | _ => rfl

/-- Python's `==` on JSON values. -/
def PyEq (a b : Json) : Prop := a.canon = b.canon

instance (a b : Json) : Decidable (PyEq a b) := inferInstanceAs (Decidable (a.canon = b.canon))

theorem PyEq.refl (a : Json) : PyEq a a := Eq.refl _

theorem PyEq.symm {a b : Json} (h : PyEq a b) : PyEq b a := Eq.symm h

theorem PyEq.trans {a b c : Json} (h : PyEq a b) (h' : PyEq b c) : PyEq a c := Eq.trans h h'

/-- Objects are equal member by member. -/
theorem pyEq_obj {a b : Fields} :
    PyEq (obj a) (obj b) ↔ ∀ k, (Fields.get a k).map canon = (Fields.get b k).map canon := by
  simp only [PyEq, canon, obj.injEq, ← get_canonFields]
  exact ⟨fun h k => by rw [h],
    (sortedKeys_canonFields a).ext (sortedKeys_canonFields b)⟩

theorem pyEq_arr {a b : List Json} : PyEq (arr a) (arr b) ↔ a.map canon = b.map canon := by
  simp [PyEq, canon, canonList_eq_map]

theorem canon_eq_str {a : Json} {s : String} : a.canon = str s ↔ a = str s := by
  cases a <;> simp [canon]

theorem PyEq.str_inj {s t : String} (h : PyEq (str s) (str t)) : s = t :=
  str.inj (canon_eq_str.mp h)

theorem PyEq.int_inj {m n : Int} (h : PyEq (int m) (int n)) : m = n := by
  simpa [PyEq, canon] using h

theorem PyEq.float_inj {p q : Rat} (h : PyEq (float p) (float q)) : p = q := by
  simpa [PyEq, canon] using h

theorem map_canon_eq_str {a : Option Json} {s : String} :
    a.map canon = some (str s) ↔ a = some (str s) := by
  cases a <;> simp [canon_eq_str]

theorem exists_of_canon_eq_obj {a : Json} {f : Fields} (h : a.canon = (obj f).canon) :
    ∃ g : Fields, a = obj g := by
  cases a with
  | obj g => exact ⟨g, rfl⟩
  | _ => simp [canon] at h

theorem exists_of_canon_eq_arr {a : Json} {l : List Json} (h : a.canon = (arr l).canon) :
    ∃ m, a = arr m ∧ m.map canon = l.map canon := by
  cases a with
  | arr m => exact ⟨m, rfl, pyEq_arr.mp h⟩
  | _ => simp [canon] at h

/-- A string member is the same on both sides. -/
theorem PyEq.get_str {a b : Fields} (h : PyEq (obj a) (obj b)) {k s : String}
    (hb : Fields.get b k = some (str s)) : Fields.get a k = some (str s) := by
  have := pyEq_obj.mp h k
  rw [hb] at this
  exact map_canon_eq_str.mp this

/-- An array member is an array on both sides, equal element by element. -/
theorem PyEq.get_arr {a b : Fields} (h : PyEq (obj a) (obj b)) {k : String} {l : List Json}
    (hb : Fields.get b k = some (arr l)) :
    ∃ m, Fields.get a k = some (arr m) ∧ m.map canon = l.map canon := by
  have := pyEq_obj.mp h k
  rw [hb] at this
  rcases ha : Fields.get a k with _ | v
  · rw [ha] at this; cases this
  · rw [ha] at this
    obtain ⟨m, rfl, hm⟩ := exists_of_canon_eq_arr (Option.some.inj this)
    exact ⟨m, rfl, hm⟩

/-- Objects compared with a member dropped. -/
theorem pyEq_erase {a b : Fields} {k : String} :
    PyEq (obj (Fields.erase a k)) (obj (Fields.erase b k)) ↔
      ∀ k', k ≠ k' → (Fields.get a k').map canon = (Fields.get b k').map canon := by
  rw [pyEq_obj]
  simp only [Fields.get_erase]
  constructor
  · intro h k' hk; simpa [hk] using h k'
  · intro h k'; by_cases hk : k = k' <;> simp [hk]; exact h k' hk

end Json

end Lib
