import MiniAgent.Turn.Admission

/-!
# What the reducer makes of a data delta

`dataDeltaOperations` against `applyOperations`: the browser holds `before` and applies the
operations computed for `before` and `after`. Each level of the diff has one lemma, which says what
the reducer makes of the operations that level emits: an Item, the Items of a Message, a Message, a
version, the whole `data`.

The operations are always applied, and what they leave behind is `after` unless an Item changed its
status and its text at once: `itemDelta` pops the status before it looks at the text, so of such a
change only the text is sent (`MixedItem`).
-/

namespace MiniAgent.Turn.Browser

open Lib Json

/-! ## Lists that differ in one place -/

section Lists

variable {α β : Type} {same : α → α → Bool}

theorem mem_changedIdxs {bs as : List α} {i j : Nat} : j ∈ changedIdxs same i bs as ↔
    ∃ k b a, j = i + k ∧ bs[k]? = some b ∧ as[k]? = some a ∧ same b a = false := by
  induction bs generalizing i as with
  | nil => simp [changedIdxs]
  | cons b bs ih =>
    cases as with
    | nil => simp [changedIdxs]
    | cons a as =>
      have shift : (∃ k b' a', j = i + 1 + k ∧ bs[k]? = some b' ∧ as[k]? = some a' ∧
          same b' a' = false) ↔ ∃ k b' a', j = i + (k + 1) ∧ (b :: bs)[k + 1]? = some b' ∧
          (a :: as)[k + 1]? = some a' ∧ same b' a' = false := by
        simp only [List.getElem?_cons_succ, Nat.add_assoc, Nat.add_comm 1]
      rw [changedIdxs]
      constructor
      · intro h
        split at h
        · obtain ⟨k, rest⟩ := shift.mp (ih.mp h); exact ⟨k + 1, rest⟩
        · next hs =>
          rcases List.mem_cons.mp h with rfl | h
          · exact ⟨0, b, a, rfl, rfl, rfl, by simpa using hs⟩
          · obtain ⟨k, rest⟩ := shift.mp (ih.mp h); exact ⟨k + 1, rest⟩
      · rintro ⟨k, b', a', hj, hb, ha, hs⟩
        cases k with
        | zero =>
          cases hb; cases ha
          simp [hs, hj]
        | succ k =>
          have := ih.mpr (shift.mpr ⟨k, b', a', hj, hb, ha, hs⟩)
          split
          · exact this
          · exact List.mem_cons_of_mem _ this

/-- With one index changed, the elements agree at every other one. -/
theorem same_of_changedIdxs {bs as : List α} {i k : Nat} {b a : α}
    (h : changedIdxs same 0 bs as = [i]) (hk : k ≠ i) (hb : bs[k]? = some b)
    (ha : as[k]? = some a) : same b a = true := by
  by_contra hs
  have : k ∈ changedIdxs same 0 bs as :=
    mem_changedIdxs.mpr ⟨k, b, a, by simp, hb, ha, by simpa using hs⟩
  rw [h] at this
  exact hk (by simpa using this)

theorem changed_of_changedIdxs {bs as : List α} {i : Nat} {b a : α}
    (h : changedIdxs same 0 bs as = [i]) (hb : bs[i]? = some b) (ha : as[i]? = some a) :
    same b a = false := by
  obtain ⟨k, b', a', hk, hb', ha', hs⟩ := mem_changedIdxs.mp (h ▸ List.mem_singleton_self i)
  obtain rfl : i = k := by omega
  rw [hb] at hb'; rw [ha] at ha'
  cases hb'; cases ha'
  exact hs

/-- Off the changed index the two lists have equal images. -/
theorem getElem?_off_changed {f : α → β} {bs as : List α} {i k : Nat}
    (hsame : ∀ b a, same b a = true → f b = f a) (hlen : bs.length = as.length)
    (h : changedIdxs same 0 bs as = [i]) (hk : k ≠ i) : (bs[k]?).map f = (as[k]?).map f := by
  rcases lt_or_ge k bs.length with hb | hb
  · have ha : k < as.length := hlen ▸ hb
    rw [List.getElem?_eq_getElem hb, List.getElem?_eq_getElem ha]
    exact congrArg some (hsame _ _ (same_of_changedIdxs h hk (List.getElem?_eq_getElem hb)
      (List.getElem?_eq_getElem ha)))
  · rw [List.getElem?_eq_none hb, List.getElem?_eq_none (hlen ▸ hb)]

theorem set_eq_self {l : List α} {i : Nat} {x : α} (h : l[i]? = some x) : l.set i x = l := by
  obtain ⟨hi, rfl⟩ := List.getElem?_eq_some_iff.mp h
  exact List.set_getElem_self hi

/-- An element with an equal image in a list of one length with equal images. -/
theorem map_eq_getElem? {f : α → β} {l as : List α} (h : l.map f = as.map f) (k : Nat) :
    (l[k]?).map f = (as[k]?).map f := by
  rw [← List.getElem?_map, h, List.getElem?_map]

/-- Lists that agree under `f` off one index agree altogether when they agree there. -/
theorem map_set_eq_iff {f : α → β} {l as : List α} {i : Nat} {x a : α}
    (hlen : l.length = as.length) (hoff : ∀ k, k ≠ i → (l[k]?).map f = (as[k]?).map f)
    (ha : as[i]? = some a) : (l.set i x).map f = as.map f ↔ f x = f a := by
  have hi : i < l.length := by
    rw [hlen]; exact (List.getElem?_eq_some_iff.mp ha).1
  constructor
  · intro h
    have := congrArg (fun m => m[i]?) h
    simpa [hi, ha] using this
  · intro h
    apply List.ext_getElem?
    intro k
    by_cases hk : k = i
    · subst hk; simp [hi, ha, h]
    · rw [List.getElem?_map, List.getElem?_map, List.getElem?_set_ne (Ne.symm hk), hoff k hk]

end Lists

/-! ## Items -/

/-- The status and the text of an Item both changed. -/
def MixedItem (before after : Fields) : Prop :=
  (before.get "status").map canon ≠ (after.get "status").map canon ∧
  (before.get "text").map canon ≠ (after.get "text").map canon

theorem pyEqB_iff {a b : Json} : pyEqB a b = true ↔ PyEq a b := decide_eq_true_iff

/-- The operation that describes a changed Item. -/
inductive ItemChange (dataIdx messageIdx itemIdx : Nat) (before after : Fields) : List Op → Prop
  | status {status : String} (hs : status ∈ itemStatuses)
      (hafter : after.get "status" = some (.str status))
      (hsame : PyEq (.obj (before.erase "status")) (.obj (after.erase "status"))) :
      ItemChange dataIdx messageIdx itemIdx before after
        [.setItemStatus dataIdx messageIdx itemIdx status]
  | text {text delta : String} (hbefore : before.get "text" = some (.str text))
      (hafter : after.get "text" = some (.str (text ++ delta)))
      (hdelta : delta ≠ "") (htype : hasType before ["text", "reasoning"] = true)
      (hsame : ∀ k, "status" ≠ k → "text" ≠ k →
        (before.get k).map canon = (after.get k).map canon) :
      ItemChange dataIdx messageIdx itemIdx before after
        [.appendText dataIdx messageIdx itemIdx delta]

theorem textAfter_eq {before after delta : String} (h : textAfter before after = some delta) :
    after = before ++ delta := by
  unfold textAfter at h
  split at h
  · next hp =>
    obtain ⟨rest, hrest⟩ := List.isPrefixOf_iff_prefix.mp hp
    cases h
    apply String.toList_inj.mp
    rw [String.toList_append, String.toList_ofList, ← hrest, List.drop_left]
  · cases h

theorem appendedText_cases {d m i : Nat} {before after : Fields} {ops : List Op}
    (hne : ¬ PyEq (.obj (before.erase "status")) (.obj (after.erase "status")))
    (h : itemDelta.appendedText d m i (before.erase "status") (after.erase "status") = some ops) :
    ItemChange d m i before after ops := by
  unfold itemDelta.appendedText at h
  split at h
  · cases h
  · next hcond =>
    simp only [Bool.or_eq_true, Bool.not_eq_true', not_or, Bool.not_eq_false, pyEqB_iff] at hcond
    obtain ⟨hsame, htype⟩ := hcond
    split at h
    · next beforeText afterText hb ha =>
      simp only [Fields.get_erase, String.reduceEq, if_false] at hb ha
      rcases ht : textAfter beforeText afterText with _ | delta
      · rw [ht] at h; cases h
      · rw [ht] at h; cases h
        have hrest : ∀ k, "status" ≠ k → "text" ≠ k →
            (before.get k).map canon = (after.get k).map canon := fun k h1 h2 => by
          simpa [h1, h2] using pyEq_obj.mp hsame k
        refine .text hb (by rw [ha, textAfter_eq ht]) ?_ (by simpa [hasType] using htype) hrest
        -- with no text added the Items would agree up to their status
        rintro rfl
        refine hne (pyEq_erase.mpr fun k hk => ?_)
        by_cases hk' : "text" = k
        · subst hk'; rw [hb, ha, textAfter_eq ht, String.append_empty]
        · exact hrest k hk hk'
    · cases h

/-- **What `itemDelta` says.** The status alone, or the text whatever the status. -/
theorem itemDelta_cases {d m i : Nat} {before after : Fields} {ops : List Op}
    (hne : ¬ PyEq (.obj before) (.obj after)) (hafter : checkItem after = .ok ())
    (h : itemDelta d m i before after = some ops) : ItemChange d m i before after ops := by
  obtain ⟨status, hs, hstatus⟩ := checkItem_status hafter
  simp only [itemDelta, hstatus] at h
  split at h
  · next hcond =>
    simp only [Bool.and_eq_true, pyEqB_iff] at hcond
    cases h
    exact .status hs hstatus hcond.1.1
  · next hcond =>
    refine appendedText_cases (fun hsame => hcond ?_) h
    simp only [Bool.and_eq_true, pyEqB_iff, hsame, true_and, Option.getD_some]
    refine ⟨?_, by simpa using hs⟩
    rw [Bool.not_eq_true', ← Bool.not_eq_true, pyEqB_iff]
    intro hst
    refine hne (pyEq_obj.mpr fun k => ?_)
    by_cases hk : "status" = k
    · subst hk
      rcases hb : before.get "status" with _ | v
      · rw [hb] at hst; simp [PyEq, canon] at hst
      · rw [hb] at hst; rw [hstatus]; exact congrArg some hst
    · exact pyEq_erase.mp hsame k hk

variable {data : List (List Fields)} {d m i : Nat}

@[simp] theorem indexOf_natCast (n : Nat) (e : String) : indexOf n e = .ok n := by
  simp [indexOf]

theorem onItems_ok {items items' : List Json} {f : List Json → Nat → Except String (List Json)}
    (hi : itemsAt data d m = .ok items) (hf : f items i = .ok items') :
    onItems data d m i f = .ok (setItems data d m items') := by
  simp only [onItems, indexOf_natCast, bind_ok, pure_ok]
  exact ⟨d, rfl, m, rfl, i, rfl, items, hi, items', hf, rfl⟩

theorem applyOperations_singleton {op : Op} {data' : List (List Fields)}
    (h : applyOperation data op = .ok data') : applyOperations data [op] = .ok data' := by
  simp only [applyOperations, bind_ok]
  exact ⟨data', h, rfl⟩

/-- What the reducer makes of a changed Item: the new Item, up to its status when the text grew. -/
theorem itemChange_apply {before after held : Fields} {ops : List Op}
    (hheld : PyEq (.obj held) (.obj before))
    (h : ItemChange d m i before after ops) :
    ∃ item, (PyEq (.obj item) (.obj after) ↔ ¬ MixedItem before after) ∧
      ∀ data items, itemsAt data d m = .ok items → items[i]? = some (.obj held) →
        applyOperations data ops = .ok (setItems data d m (items.set i (.obj item))) := by
  have hget := pyEq_obj.mp hheld
  cases h with
  | @status status hs hafter hsame =>
    refine ⟨held.set "status" (.str status), ?_, fun data items hitems hi => ?_⟩
    · have htext := pyEq_erase.mp hsame "text" (by decide)
      simp only [MixedItem, htext, ne_eq, not_true_eq_false, and_false, not_false_eq_true, iff_true]
      refine pyEq_obj.mpr fun k => ?_
      by_cases hk : "status" = k
      · subst hk; simp [hafter]
      · rw [Fields.get_set, if_neg hk, hget, pyEq_erase.mp hsame k hk]
    · refine applyOperations_singleton (onItems_ok hitems ?_)
      simp only [applySetItemStatus, bind_ok, exists_unit, require_ok, hi, pure_ok]
      exact ⟨by simpa using hs, trivial⟩
  | @text text delta hbefore hafter hdelta htype hsame =>
    have htext : held.get "text" = some (.str text) := hheld.get_str hbefore
    refine ⟨held.set "text" (.str (text ++ delta)), ?_, fun data items hitems hi => ?_⟩
    · have hgrown : (before.get "text").map canon ≠ (after.get "text").map canon := by
        have : text ≠ text ++ delta := fun e => hdelta (by simpa using congrArg String.toList e)
        simpa [hbefore, hafter, canon] using this
      simp only [MixedItem, hgrown, ne_eq, not_false_eq_true, and_true, not_not]
      constructor
      · intro hitem
        simpa [hget] using pyEq_obj.mp hitem "status"
      · intro hstatus
        refine pyEq_obj.mpr fun k => ?_
        by_cases hk : "text" = k
        · subst hk; simp [hafter]
        · rw [Fields.get_set, if_neg hk, hget]
          by_cases hk' : "status" = k
          · subst hk'; exact hstatus
          · exact hsame k hk' hk
    · refine applyOperations_singleton (onItems_ok hitems ?_)
      have htypes : hasType held ["text", "reasoning"] = true := by
        unfold hasType at htype
        split at htype
        · next s hs => simpa [hasType, hheld.get_str hs] using htype
        · cases htype
      simp only [applyAppendText, bind_ok, exists_unit, require_ok, hi, withText, htext, htypes,
        if_true, pure_ok, Except.ok.injEq]
      exact ⟨by simpa using hdelta, _, rfl, rfl⟩

/-! ## The Items of a Message -/

theorem messageAt_eq {version : List Fields} (h : data[d]? = some version) :
    messageAt data d m = version[m]? := by
  simp [messageAt, h]

/-- Writing back the Items of a Message, as an update of `data`. -/
theorem setItems_eq {version : List Fields} {message : Fields} {items : List Json}
    (hd : data[d]? = some version) (hm : version[m]? = some message) :
    setItems data d m items = data.set d (version.set m (message.set "content" (.arr items))) := by
  obtain ⟨hd', rfl⟩ := List.getElem?_eq_some_iff.mp hd
  obtain ⟨hm', rfl⟩ := List.getElem?_eq_some_iff.mp hm
  rw [setItems, List.modify_eq_set_get _ hd', List.get_eq_getElem, List.modify_eq_set_get _ hm',
    List.get_eq_getElem]

theorem itemsAt_ok {items : List Json} : itemsAt data d m = .ok items ↔
    ∃ message, messageAt data d m = some message ∧
      message.get "role" = some (.str "assistant") ∧ message.get "content" = some (.arr items) := by
  unfold itemsAt
  split
  · next message hm =>
    split
    · next hr =>
      split
      · next l hl => simp [hm, hr, hl]
      · next hl =>
        simp only [reduceCtorEq, false_iff]
        rintro ⟨msg, hmsg, -, hc⟩
        rw [hm] at hmsg; cases hmsg
        exact hl _ hc
    · next hr => simp [hm, hr]
  · next hm => simp [hm]

theorem itemsAt_setItems {items items' : List Json} (h : itemsAt data d m = .ok items) :
    itemsAt (setItems data d m items') d m = .ok items' := by
  obtain ⟨message, hm, hr, -⟩ := itemsAt_ok.mp h
  obtain ⟨version, hv, hvm⟩ := Option.bind_eq_some_iff.mp hm
  have hd := (List.getElem?_eq_some_iff.mp hv).1
  have hm' := (List.getElem?_eq_some_iff.mp hvm).1
  refine itemsAt_ok.mpr ⟨message.set "content" (.arr items'), ?_, by simpa using hr, by simp⟩
  rw [setItems_eq hv hvm]
  simp [messageAt, hd, hm']

theorem setItems_setItems (items items' : List Json) :
    setItems (setItems data d m items) d m items' = setItems data d m items' := by
  simp only [setItems, List.modify_modify_eq]
  congr 1
  funext version
  simp only [Function.comp, List.modify_modify_eq]
  congr 1
  funext message
  exact Fields.set_set message "content" _ _

theorem setItems_self {items : List Json} (h : itemsAt data d m = .ok items) :
    setItems data d m items = data := by
  obtain ⟨message, hm, -, hc⟩ := itemsAt_ok.mp h
  obtain ⟨version, hv, hvm⟩ := Option.bind_eq_some_iff.mp hm
  rw [setItems_eq hv hvm, Fields.set_get_self hc, set_eq_self hvm, set_eq_self hv]

/-- The Items a diff may append. -/
def ValidItems (items : List Json) : Prop :=
  ∀ x ∈ items, ∃ item : Fields, x = .obj item ∧ checkItem item = .ok ()

theorem appendItems_apply {items more : List Json} (hmore : ValidItems more)
    (h : itemsAt data d m = .ok items) :
    applyOperations data (appendItems d m items.length more)
      = .ok (setItems data d m (items ++ more)) := by
  induction more generalizing data items with
  | nil =>
    rw [List.append_nil, setItems_self h]
    rfl
  | cons x more ih =>
    obtain ⟨item, rfl, hitem⟩ := hmore x List.mem_cons_self
    have hfirst : applyAppendItem items items.length (.obj item) = .ok (items ++ [.obj item]) := by
      simp only [applyAppendItem, if_true, bind_ok, exists_unit, require_ok, pure_ok]
      exact ⟨by simpa [isObject, objectValue] using checkItem_newItemOk hitem,
        checkItem_validateRetryItem hitem, trivial⟩
    have hstep : applyOperation data (.appendItem d m items.length (.obj item))
        = .ok (setItems data d m (items ++ [.obj item])) := onItems_ok h hfirst
    have hnext : itemsAt (setItems data d m (items ++ [.obj item])) d m
        = .ok (items ++ [.obj item]) := itemsAt_setItems h
    have hrest := ih (fun y hy => hmore y (List.mem_cons_of_mem _ hy)) hnext
    rw [List.length_append, List.length_singleton, setItems_setItems, List.append_assoc,
      List.singleton_append] at hrest
    simp only [appendItems, applyOperations, bind_ok]
    exact ⟨_, hstep, hrest⟩

/-- An Item that changed its status and its text, at one index. -/
def MixedItems (before after : List Json) : Prop :=
  ∃ (i : Nat) (b a : Fields), before[i]? = some (.obj b) ∧ after[i]? = some (.obj a) ∧ MixedItem b a

theorem not_mixedItem_of_pyEq {b a : Fields} (h : PyEq (.obj b) (.obj a)) : ¬ MixedItem b a :=
  fun hm => hm.1 (pyEq_obj.mp h "status")

theorem exists_held_obj {held before : List Json} {b : Fields}
    (hheld : held.map canon = before.map canon) (hb : before[i]? = some (.obj b)) :
    ∃ item : Fields, held[i]? = some (.obj item) ∧ PyEq (.obj item) (.obj b) := by
  have := map_eq_getElem? hheld i
  rw [hb] at this
  obtain ⟨x, hx, hxe⟩ := Option.map_eq_some_iff.mp this
  obtain ⟨item, rfl⟩ := exists_of_canon_eq_obj hxe
  exact ⟨item, hx, hxe⟩

/-- What the reducer makes of one changed Item among unchanged ones. -/
theorem itemDelta_apply {before after held : List Json} {ops : List Op} {b a : Fields}
    (hafter : ValidItems after) (hheld : held.map canon = before.map canon)
    (hlen : before.length = after.length) (hchanged : changedIdxs pyEqB 0 before after = [i])
    (hb : before[i]? = some (.obj b)) (ha : after[i]? = some (.obj a))
    (h : itemDelta d m i b a = some ops) :
    ∃ items, (items.map canon = after.map canon ↔ ¬ MixedItems before after) ∧
      ∀ data, itemsAt data d m = .ok held →
        applyOperations data ops = .ok (setItems data d m items) := by
  obtain ⟨old, hold, heq⟩ := exists_held_obj hheld hb
  have hne : ¬ PyEq (.obj b) (.obj a) := by
    rw [← pyEqB_iff, changed_of_changedIdxs hchanged hb ha]; simp
  have hitem : checkItem a = .ok () := by
    obtain ⟨item, e, hitem⟩ := hafter _ (List.mem_of_getElem? ha)
    cases e; exact hitem
  obtain ⟨item, hiff, happly⟩ := itemChange_apply heq (itemDelta_cases hne hitem h)
  refine ⟨held.set i (.obj item), ?_, fun data hi => happly data held hi hold⟩
  have hoff : ∀ k, k ≠ i → (before[k]?).map canon = (after[k]?).map canon := fun k hk =>
    getElem?_off_changed (fun _ _ => pyEqB_iff.mp) hlen hchanged hk
  have hheldlen : held.length = before.length := by simpa using congrArg List.length hheld
  rw [map_set_eq_iff (hheldlen.trans hlen) (fun k hk => (map_eq_getElem? hheld k).trans (hoff k hk))
    ha]
  refine hiff.trans (not_congr ⟨fun hm => ⟨i, b, a, hb, ha, hm⟩, ?_⟩)
  rintro ⟨k, b', a', hb', ha', hmix⟩
  by_cases hk : k = i
  · subst hk
    rw [hb] at hb'; rw [ha] at ha'
    cases hb'; cases ha'
    exact hmix
  · have := hoff k hk
    rw [hb', ha'] at this
    exact absurd hmix (not_mixedItem_of_pyEq (Option.some.inj this))

theorem itemsDelta_apply {before after held : List Json} {ops : List Op}
    (hafter : ValidItems after) (hheld : held.map canon = before.map canon)
    (h : itemsDelta d m before after = some ops) :
    ∃ items, (items.map canon = after.map canon ↔ ¬ MixedItems before after) ∧
      ∀ data, itemsAt data d m = .ok held →
        applyOperations data ops = .ok (setItems data d m items) := by
  have hlen : held.length = before.length := by simpa using congrArg List.length hheld
  unfold itemsDelta at h
  split at h
  · next hpre =>
    cases h
    have hpre := pyEq_arr.mp (pyEqB_iff.mp hpre)
    refine ⟨held ++ after.drop before.length, ?_, fun data hi => ?_⟩
    · have hall : (held ++ after.drop before.length).map canon = after.map canon := by
        rw [List.map_append, hheld, ← hpre, ← List.map_append, List.take_append_drop]
      rw [hall]
      simp only [true_iff]
      rintro ⟨i, b, a, hb, ha, hmix⟩
      refine not_mixedItem_of_pyEq ?_ hmix
      have hib := (List.getElem?_eq_some_iff.mp hb).1
      have := map_eq_getElem? hpre i
      simp only [List.getElem?_take, hib, if_true, hb, ha, Option.map_some,
        Option.some.injEq] at this
      exact this.symm
    · rw [← hlen]
      exact appendItems_apply (fun x hx => hafter x (List.mem_of_mem_drop hx)) hi
  · split at h
    · cases h
    · next hlen' =>
      split at h
      · next i hchanged =>
        split at h
        · next b a hb ha =>
          exact itemDelta_apply hafter hheld (not_not.mp hlen') hchanged hb ha h
        · cases h
      · cases h

/-- No operation is emitted for Items only if they are the same. -/
theorem itemsDelta_nil {before after : List Json} (hafter : ValidItems after)
    (h : itemsDelta d m before after = some []) : before.map canon = after.map canon := by
  unfold itemsDelta at h
  split at h
  · next hpre =>
    have hdrop : after.drop before.length = [] := by
      rcases hd : after.drop before.length with _ | ⟨x, l⟩
      · rfl
      · rw [hd] at h; simp [appendItems] at h
    have hpre := pyEq_arr.mp (pyEqB_iff.mp hpre)
    rw [← hpre, ← List.append_nil (after.take _), ← hdrop, List.take_append_drop]
  · split at h
    · cases h
    · split at h
      · next i hchanged =>
        split at h
        · next b a hb ha =>
          have hne : ¬ PyEq (.obj b) (.obj a) := by
            rw [← pyEqB_iff, changed_of_changedIdxs hchanged hb ha]; simp
          obtain ⟨item, e, hitem⟩ := hafter _ (List.mem_of_getElem? ha)
          cases e
          cases itemDelta_cases hne hitem h
        · cases h
      · cases h

/-! ## Messages -/

/-- An Item of a Message changed its status and its text. -/
def MixedMessage (before after : Fields) : Prop :=
  ∃ b a, before.get "content" = some (.arr b) ∧ after.get "content" = some (.arr a) ∧ MixedItems b a

theorem validItems_content {message : Fields} {role : String} {items : List Fields}
    (h : MessageOk message role items) {l : List Json}
    (hl : message.get "content" = some (.arr l)) : ValidItems l := by
  have : l = items.map .obj := by simpa [hl, itemsJson] using h.content_eq
  subst this
  intro x hx
  obtain ⟨item, hitem, rfl⟩ := List.mem_map.mp hx
  exact ⟨item, rfl, h.items_ok item hitem⟩

theorem messageDelta_cases {before after : Fields} {ops : List Op}
    (h : messageDelta d m before after = some ops) :
    before.get "role" = some (.str "assistant") ∧ after.get "role" = some (.str "assistant") ∧
    (∀ k, "content" ≠ k → (before.get k).map canon = (after.get k).map canon) ∧
    ∃ b a, before.get "content" = some (.arr b) ∧ after.get "content" = some (.arr a) ∧
      itemsDelta d m b a = some ops := by
  unfold messageDelta at h
  split at h
  · cases h
  · next hrole =>
    simp only [bne_iff_ne, ne_eq, Bool.or_eq_true, not_or, not_not] at hrole
    split at h
    · cases h
    · next hsame =>
      simp only [Bool.not_eq_true, Bool.not_eq_false', pyEqB_iff] at hsame
      split at h
      · next b a hb ha => exact ⟨hrole.1, hrole.2, pyEq_erase.mp hsame, b, a, hb, ha, h⟩
      · cases h

/-- A Message with its Items written back, against another Message. -/
theorem pyEq_set_content {held after : Fields} {items a : List Json}
    (hoff : ∀ k, "content" ≠ k → (held.get k).map canon = (after.get k).map canon)
    (ha : after.get "content" = some (.arr a)) :
    PyEq (.obj (held.set "content" (.arr items))) (.obj after) ↔ items.map canon = a.map canon := by
  constructor
  · intro h
    have := pyEq_obj.mp h "content"
    rw [Fields.get_set, if_pos rfl, ha] at this
    exact pyEq_arr.mp (Option.some.inj this)
  · intro h
    refine pyEq_obj.mpr fun k => ?_
    by_cases hk : "content" = k
    · subst hk
      rw [Fields.get_set, if_pos rfl, ha]
      exact congrArg some (pyEq_arr.mpr h)
    · rw [Fields.get_set, if_neg hk, hoff k hk]

theorem messageDelta_apply {before after held : Fields} {ops : List Op} {role : String}
    {items : List Fields} (hafter : MessageOk after role items)
    (hheld : PyEq (.obj held) (.obj before)) (h : messageDelta d m before after = some ops) :
    ∃ message : Fields, (PyEq (.obj message) (.obj after) ↔ ¬ MixedMessage before after) ∧
      message.get "role" = after.get "role" ∧
      ∀ data version, data[d]? = some version → version[m]? = some held →
        applyOperations data ops = .ok (data.set d (version.set m message)) := by
  obtain ⟨hrb, hra, hoff, b, a, hb, ha, hitems⟩ := messageDelta_cases h
  obtain ⟨l, hl, hlb⟩ := hheld.get_arr hb
  have hheldrole : held.get "role" = some (.str "assistant") := hheld.get_str hrb
  obtain ⟨new, hiff, happly⟩ := itemsDelta_apply (validItems_content hafter ha) hlb hitems
  refine ⟨held.set "content" (.arr new), ?_, ?_, fun data version hd hm => ?_⟩
  · rw [pyEq_set_content (fun k hk => (pyEq_obj.mp hheld k).trans (hoff k hk)) ha, hiff]
    refine not_congr ⟨fun hmix => ⟨b, a, hb, ha, hmix⟩, ?_⟩
    rintro ⟨b', a', hb', ha', hmix⟩
    rw [hb] at hb'; rw [ha] at ha'
    cases hb'; cases ha'
    exact hmix
  · simp [hheldrole, hra]
  · rw [happly data (itemsAt_ok.mpr ⟨held, by rw [messageAt_eq hd, hm], hheldrole, hl⟩),
      setItems_eq hd hm]

theorem messageDelta_nil {before after : Fields} {role : String} {items : List Fields}
    (hafter : MessageOk after role items) (h : messageDelta d m before after = some []) :
    PyEq (.obj before) (.obj after) := by
  obtain ⟨-, -, hoff, b, a, hb, ha, hitems⟩ := messageDelta_cases h
  have hsame := itemsDelta_nil (validItems_content hafter ha) hitems
  rw [← Fields.set_get_self hb]
  exact (pyEq_set_content hoff ha).mpr hsame

/-! ## Versions -/

/-- A Message up to Python's equality. -/
def messageCanon (message : Fields) : Json := canon (.obj message)

def SameVersion (v w : List Fields) : Prop := v.map messageCanon = w.map messageCanon

theorem pyEqB_versionJson {v w : List Fields} :
    pyEqB (versionJson v) (versionJson w) = true ↔ SameVersion v w := by
  simp only [pyEqB_iff, versionJson, pyEq_arr, List.map_map]
  exact Iff.rfl

/-- An Item of a version changed its status and its text. -/
def MixedVersion (before after : List Fields) : Prop :=
  ∃ (k : Nat) (b a : Fields), before[k]? = some b ∧ after[k]? = some a ∧ MixedMessage b a

theorem not_mixedMessage_of_pyEq {b a : Fields} (h : PyEq (.obj b) (.obj a)) :
    ¬ MixedMessage b a := by
  rintro ⟨lb, la, hlb, hla, i, ib, ia, hib, hia, hmix⟩
  obtain ⟨l, hl, hsame⟩ := h.get_arr hla
  rw [hlb] at hl
  cases hl
  have := map_eq_getElem? hsame i
  rw [hib, hia] at this
  exact not_mixedItem_of_pyEq (Option.some.inj this) hmix

theorem not_mixedVersion_of_same {b a : List Fields} (h : SameVersion b (a.take b.length)) :
    ¬ MixedVersion b a := by
  rintro ⟨k, mb, ma, hb, ha, hmix⟩
  have hk := (List.getElem?_eq_some_iff.mp hb).1
  have := map_eq_getElem? h k
  simp only [List.getElem?_take, hk, if_true, hb, ha, Option.map_some, Option.some.injEq] at this
  exact not_mixedMessage_of_pyEq this hmix

theorem Accepted.messageOk {prev : Option String} {version : List Fields}
    (h : Accepted prev version) {message : Fields} (hm : message ∈ version) :
    ∃ role items, MessageOk message role items := by
  induction version generalizing prev with
  | nil => cases hm
  | cons x rest ih =>
    obtain ⟨role, items, hx, -, hrest⟩ := h
    rcases List.mem_cons.mp hm with rfl | hm
    · exact ⟨role, items, hx⟩
    · exact ih hrest hm

/-- The role of the last Message. -/
def lastRole (version : List Fields) : Option Json :=
  version.getLast?.bind fun message => message.get "role"

theorem accepted_append {l l' : List Fields} (hl : l ≠ []) {prev : Option String}
    (h : Accepted prev (l ++ l')) : ∃ role, lastRole l = some (.str role) ∧
      Accepted (some role) l' := by
  induction l generalizing prev with
  | nil => exact absurd rfl hl
  | cons x rest ih =>
    obtain ⟨role, items, hx, -, hrest⟩ := h
    rcases hr : rest with _ | ⟨y, ys⟩
    · subst hr
      exact ⟨role, by simp [lastRole, hx.role_eq], hrest⟩
    · obtain ⟨role', hlast, hacc⟩ := ih (by simp [hr]) hrest
      refine ⟨role', ?_, hacc⟩
      rw [← hlast, hr]
      simp [lastRole, List.getLast?_cons_cons]

theorem SameVersion.lastRole {v w : List Fields} (h : SameVersion v w) {role : String}
    (hw : lastRole w = some (.str role)) : lastRole v = some (.str role) := by
  have hlast : v.getLast?.map messageCanon = w.getLast?.map messageCanon := by
    rw [← List.getLast?_map, ← List.getLast?_map, h]
  obtain ⟨mw, hmw, hrole⟩ := Option.bind_eq_some_iff.mp hw
  rw [hmw] at hlast
  obtain ⟨mv, hmv, hcanon⟩ := Option.map_eq_some_iff.mp hlast
  have : PyEq (.obj mv) (.obj mw) := hcanon
  rw [Browser.lastRole, hmv]
  exact this.get_str hrole

theorem appendMessage_apply {version : List Fields} {message : Fields}
    (h : data[d]? = some version) (hnew : checkNewMessage version.getLast? message = .ok ()) :
    applyOperation data (.appendMessage d version.length (.obj message))
      = .ok (data.set d (version ++ [message])) := by
  simp only [applyOperation, indexOf_natCast, bind_ok]
  refine ⟨d, rfl, version.length, rfl, ?_⟩
  unfold applyAppendMessage
  rw [h]
  simp only [if_true, bind_ok, exists_unit, pure_ok]
  exact ⟨hnew, trivial⟩

theorem appendMessages_apply {version more : List Fields} {role : String}
    (hlast : lastRole version = some (.str role)) (hmore : Accepted (some role) more)
    (h : data[d]? = some version) :
    applyOperations data (appendMessages d version.length more)
      = .ok (data.set d (version ++ more)) := by
  induction more generalizing data version role with
  | nil =>
    rw [List.append_nil, set_eq_self h]
    rfl
  | cons message more ih =>
    obtain ⟨role', items, hm, hc, hrest⟩ := hmore
    have hnew : checkNewMessage version.getLast? message = .ok () := by
      refine checkNewMessage_ok hm fun hu => ?_
      have hne : role ≠ "user" := fun e => hc ⟨hu, by rw [e]⟩
      show isUser (lastRole version) = false
      rw [hlast]
      simpa [isUser] using hne
    have hd := (List.getElem?_eq_some_iff.mp h).1
    have hnext := ih (by simp [lastRole, hm.role_eq]) hrest
      (show (data.set d (version ++ [message]))[d]? = some (version ++ [message]) by simp [hd])
    rw [List.length_append, List.length_singleton, List.set_set, List.append_assoc,
      List.singleton_append] at hnext
    simp only [appendMessages, applyOperations, bind_ok]
    exact ⟨_, appendMessage_apply h hnew, hnext⟩

/-- The roles of a version, up to Python's equality. -/
def roles (version : List Fields) : List (Option Json) :=
  version.map fun message => (message.get "role").map canon

theorem SameVersion.roles {v w : List Fields} (h : SameVersion v w) : roles v = roles w := by
  apply List.ext_getElem?
  intro k
  have := map_eq_getElem? h k
  simp only [Browser.roles, List.getElem?_map]
  rcases hv : v[k]? with _ | mv <;> rcases hw : w[k]? with _ | mw <;> rw [hv, hw] at this <;>
    simp only [Option.map_none, Option.map_some, reduceCtorEq, Option.some.injEq] at this ⊢
  exact pyEq_obj.mp this "role"

/-- One Message of a version changed: the version the reducer makes of it. -/
theorem changedMessage_apply {before after held : List Fields} {b a : Fields} {ops : List Op}
    (hafter : VersionOk after) (hheld : SameVersion held before)
    (hlen : before.length = after.length) (hchanged : changedIdxs sameMessage 0 before after = [m])
    (hb : before[m]? = some b) (ha : after[m]? = some a) (h : messageDelta d m b a = some ops) :
    ∃ version, (SameVersion version after ↔ ¬ MixedVersion before after) ∧
      roles version = roles after ∧
      ∀ data, data[d]? = some held → applyOperations data ops = .ok (data.set d version) := by
  have hoff : ∀ k, k ≠ m → (before[k]?).map messageCanon = (after[k]?).map messageCanon :=
    fun k hk => getElem?_off_changed (fun _ _ => pyEqB_iff.mp) hlen hchanged hk
  have hheldlen : held.length = before.length := by simpa using congrArg List.length hheld
  obtain ⟨old, hold, heq⟩ : ∃ old, held[m]? = some old ∧ PyEq (.obj old) (.obj b) := by
    have := map_eq_getElem? hheld m
    rw [hb] at this
    exact Option.map_eq_some_iff.mp this
  obtain ⟨role, items, hok⟩ := Accepted.messageOk hafter.accepted (List.mem_of_getElem? ha)
  obtain ⟨message, hiff, hrole, happly⟩ := messageDelta_apply hok heq h
  have hheldoff : ∀ k, k ≠ m → (held[k]?).map messageCanon = (after[k]?).map messageCanon :=
    fun k hk => (map_eq_getElem? hheld k).trans (hoff k hk)
  refine ⟨held.set m message, ?_, ?_, fun data hd => happly data held hd hold⟩
  · rw [SameVersion, map_set_eq_iff (hheldlen.trans hlen) hheldoff ha]
    refine hiff.trans (not_congr ⟨fun hm => ⟨m, b, a, hb, ha, hm⟩, ?_⟩)
    rintro ⟨k, b', a', hb', ha', hmix⟩
    by_cases hk : k = m
    · subst hk
      rw [hb] at hb'; rw [ha] at ha'
      cases hb'; cases ha'
      exact hmix
    · have := hoff k hk
      rw [hb', ha'] at this
      exact absurd hmix (not_mixedMessage_of_pyEq (Option.some.inj this))
  · refine (map_set_eq_iff (hheldlen.trans hlen) (fun k hk => ?_) ha).mpr (by rw [hrole])
    have := hheldoff k hk
    rcases hv : held[k]? with _ | mv <;> rcases hw : after[k]? with _ | mw <;>
      rw [hv, hw] at this <;>
      simp only [Option.map_none, Option.map_some, reduceCtorEq, Option.some.injEq] at this ⊢
    exact pyEq_obj.mp this "role"

theorem versionDelta_apply {before after held : List Fields} {ops : List Op}
    (hbefore : VersionOk before) (hafter : VersionOk after) (hheld : SameVersion held before)
    (h : versionDelta d before after = some ops) :
    ∃ version, (SameVersion version after ↔ ¬ MixedVersion before after) ∧
      roles version = roles after ∧
      ∀ data, data[d]? = some held → applyOperations data ops = .ok (data.set d version) := by
  have hlen : held.length = before.length := by simpa using congrArg List.length hheld
  unfold versionDelta at h
  split at h
  · next hsame =>
    cases h
    have hsame := pyEqB_versionJson.mp hsame
    have hall : SameVersion held after := hheld.trans hsame
    have hle : before.length = after.length := by simpa using congrArg List.length hsame
    refine ⟨held, iff_of_true hall (not_mixedVersion_of_same ?_), hall.roles, fun data hd => ?_⟩
    · rw [hle, List.take_length]; exact hsame
    · rw [set_eq_self hd]; rfl
  · split at h
    · next hpre =>
      rw [Bool.and_eq_true, pyEqB_versionJson] at hpre
      cases h
      have hall : SameVersion (held ++ after.drop before.length) after := by
        have : held.map messageCanon = (after.take before.length).map messageCanon :=
          hheld.trans hpre.2.symm
        rw [SameVersion, List.map_append, this, ← List.map_append, List.take_append_drop]
      refine ⟨_, iff_of_true hall (not_mixedVersion_of_same hpre.2.symm), hall.roles,
        fun data hd => ?_⟩
      have htake : after.take before.length ≠ [] := by
        intro e
        have hlt : before.length < after.length := of_decide_eq_true hpre.1
        have hpos := List.length_pos_of_ne_nil hbefore.ne_nil
        have := congrArg List.length e
        simp only [List.length_take, List.length_nil] at this
        omega
      have hsplit := hafter.accepted
      rw [← List.take_append_drop before.length after] at hsplit
      obtain ⟨role, hrole, hacc⟩ := accepted_append htake hsplit
      rw [← hlen]
      rw [← hlen] at hacc
      exact appendMessages_apply
        (SameVersion.lastRole (hheld.trans hpre.2.symm : SameVersion held _) hrole) hacc hd
    · split at h
      · cases h
      · next hlen' =>
        split at h
        · next k hchanged =>
          split at h
          · next b a hb ha =>
            exact changedMessage_apply hafter hheld (not_not.mp hlen') hchanged hb ha h
          · cases h
        · cases h

theorem versionDelta_nil {before after : List Fields} (hafter : VersionOk after)
    (h : versionDelta d before after = some []) : SameVersion before after := by
  unfold versionDelta at h
  split at h
  · next hsame => exact pyEqB_versionJson.mp hsame
  · split at h
    · next hpre =>
      -- a longer version has a Message to append
      rw [Bool.and_eq_true, decide_eq_true_eq] at hpre
      have hpos : 0 < (after.drop before.length).length := by rw [List.length_drop]; omega
      obtain ⟨x, l, hxl⟩ := List.exists_cons_of_length_pos hpos
      rw [hxl] at h
      simp [appendMessages] at h
    · split at h
      · cases h
      · split at h
        · next k hchanged =>
          split at h
          · next b a hb ha =>
            obtain ⟨role, items, hok⟩ :=
              Accepted.messageOk hafter.accepted (List.mem_of_getElem? ha)
            have hsame := pyEqB_iff.mpr (messageDelta_nil hok h)
            have hdiff := changed_of_changedIdxs hchanged hb ha
            rw [sameMessage, hsame] at hdiff
            cases hdiff
          · cases h
        · cases h

/-! ## The whole `data` -/

def SameData (b a : List (List Fields)) : Prop :=
  b.map (List.map messageCanon) = a.map (List.map messageCanon)

theorem pyEq_dataJson {b a : List (List Fields)} :
    PyEq (dataJson b) (dataJson a) ↔ SameData b a := by
  have hv : ∀ v : List Fields, canon (versionJson v) = .arr (v.map messageCanon) := fun v => by
    simp [versionJson, canon, canonList_eq_map, Function.comp_def, messageCanon]
  simp only [dataJson, pyEq_arr, List.map_map, SameData, Function.comp_def, hv]
  constructor
  · intro h
    refine List.map_injective_iff.mpr (fun _ _ => Json.arr.inj) ?_
    simpa [Function.comp_def] using h
  · intro h
    have := congrArg (List.map Json.arr) h
    simpa [Function.comp_def] using this

/-- An Item of a Turn changed its status and its text. -/
def MixedData (before after : List (List Fields)) : Prop :=
  ∃ (k : Nat) (b a : List Fields), before[k]? = some b ∧ after[k]? = some a ∧ MixedVersion b a

theorem mixedData_cons {b a : List Fields} {bs as : List (List Fields)} :
    MixedData (b :: bs) (a :: as) ↔ MixedVersion b a ∨ MixedData bs as := by
  constructor
  · rintro ⟨k, b', a', hb, ha, hm⟩
    cases k with
    | zero => cases hb; cases ha; exact .inl hm
    | succ k => exact .inr ⟨k, b', a', hb, ha, hm⟩
  · rintro (hm | ⟨k, b', a', hb, ha, hm⟩)
    · exact ⟨0, b, a, rfl, rfl, hm⟩
    · exact ⟨k + 1, b', a', hb, ha, hm⟩

/-- The version loop. `done` are the versions already brought up to date. -/
theorem versionDeltas_apply : ∀ {before after held done : List (List Fields)} {ops : List Op},
    (∀ v ∈ before, VersionOk v) → (∀ v ∈ after, VersionOk v) → SameData held before →
    before.length = after.length → versionDeltas done.length before after = some ops →
    ∃ new, (SameData new after ↔ ¬ MixedData before after) ∧ new.map roles = after.map roles ∧
      applyOperations (done ++ held) ops = .ok (done ++ new)
  | [], [], held, done, ops, _, _, hheld, _, h => by
    obtain rfl : held = [] := by simpa [SameData] using hheld
    cases h
    exact ⟨[], by simp [SameData, MixedData], rfl, rfl⟩
  | b :: bs, a :: as, held, done, ops, hb, ha, hheld, hlen, h => by
    obtain ⟨v, vs, rfl⟩ : ∃ v vs, held = v :: vs := by
      cases held with
      | nil => simp [SameData] at hheld
      | cons v vs => exact ⟨v, vs, rfl⟩
    simp only [SameData, List.map_cons, List.cons.injEq] at hheld
    obtain ⟨ops₁, h₁, ops₂, h₂, rfl⟩ : ∃ ops₁, versionDelta done.length b a = some ops₁ ∧
        ∃ ops₂, versionDeltas (done.length + 1) bs as = some ops₂ ∧ ops₁ ++ ops₂ = ops := by
      simpa [versionDeltas, Option.bind_eq_some_iff] using h
    obtain ⟨w, hw, hroles, happly⟩ := versionDelta_apply (hb b List.mem_cons_self)
      (ha a List.mem_cons_self) hheld.1 h₁
    have hfirst := happly (done ++ v :: vs) (by simp)
    rw [List.set_append_right _ _ (le_refl _), Nat.sub_self, List.set_cons_zero] at hfirst
    have hlen' : (done ++ [w]).length = done.length + 1 := by simp
    rw [← hlen'] at h₂
    obtain ⟨ws, hws, hroles', happly'⟩ := versionDeltas_apply
      (fun x hx => hb x (List.mem_cons_of_mem _ hx)) (fun x hx => ha x (List.mem_cons_of_mem _ hx))
      hheld.2 (by simpa using hlen) h₂
    refine ⟨w :: ws, ?_, by simp [hroles, hroles'], ?_⟩
    · rw [mixedData_cons, not_or, ← hw, ← hws]
      simp [SameData, SameVersion]
    · rw [applyOperations_append hfirst]
      simpa using happly'

theorem versionDeltas_nil : ∀ {before after : List (List Fields)} {k : Nat},
    (∀ v ∈ after, VersionOk v) → before.length = after.length →
    versionDeltas k before after = some [] → SameData before after
  | [], [], _, _, _, _ => rfl
  | b :: bs, a :: as, k, ha, hlen, h => by
    obtain ⟨ops₁, h₁, ops₂, h₂, e⟩ : ∃ ops₁, versionDelta k b a = some ops₁ ∧
        ∃ ops₂, versionDeltas (k + 1) bs as = some ops₂ ∧ ops₁ ++ ops₂ = [] := by
      simpa [versionDeltas, Option.bind_eq_some_iff] using h
    obtain ⟨rfl, rfl⟩ := List.append_eq_nil_iff.mp e
    have hfirst := versionDelta_nil (ha a List.mem_cons_self) h₁
    have hrest := versionDeltas_nil (fun x hx => ha x (List.mem_cons_of_mem _ hx))
      (by simpa using hlen) h₂
    simp only [SameData, List.map_cons, List.cons.injEq]
    exact ⟨hfirst, hrest⟩

end MiniAgent.Turn.Browser
