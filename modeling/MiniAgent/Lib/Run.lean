import Mathlib.Tactic.Common

/-!
# Runs of a step function

`step s a` is the state after step `a` from `s`, or `none` where the step is not enabled. `run`
takes a list of steps; `Meets step ok s as` says that every step of the run meets the condition
`ok` in the state it is taken from. `run_invariant` is the induction all run theorems use: an
invariant of the steps that meet `ok` holds at the end of every run whose steps all meet it.
-/

namespace Lib

variable {σ α : Type}

def run (step : σ → α → Option σ) : σ → List α → Option σ
  | s, [] => some s
  | s, a :: as => (step s a).bind fun t => run step t as

/-- Every step of the run from `s` meets `ok` in the state it starts from. -/
def Meets (step : σ → α → Option σ) (ok : σ → α → Prop) : σ → List α → Prop
  | _, [] => True
  | s, a :: as => ok s a ∧ ∀ t, step s a = some t → Meets step ok t as

instance instDecidableMeets (step : σ → α → Option σ) (ok : σ → α → Prop)
    [∀ s a, Decidable (ok s a)] :
    ∀ (s : σ) (as : List α), Decidable (Meets step ok s as)
  | _, [] => isTrue trivial
  | s, a :: as => match h : step s a with
    | none => decidable_of_iff (ok s a)
        ⟨fun ha => ⟨ha, fun t ht => by rw [h] at ht; cases ht⟩, fun hm => hm.1⟩
    | some t =>
      have := instDecidableMeets step ok t as
      decidable_of_iff (ok s a ∧ Meets step ok t as)
        ⟨fun hm => ⟨hm.1, fun u hu => by rw [h] at hu; cases hu; exact hm.2⟩,
          fun hm => ⟨hm.1, hm.2 t h⟩⟩

variable {step : σ → α → Option σ} {ok : σ → α → Prop} {s t : σ} {as bs : List α} {a : α}

theorem run_cons : run step s (a :: as) = some t ↔ ∃ u, step s a = some u ∧
    run step u as = some t := by
  simp [run, Option.bind_eq_some_iff]

theorem run_append :
    run step s (as ++ bs) = some t ↔ ∃ u, run step s as = some u ∧ run step u bs = some t := by
  induction as generalizing s with
  | nil => simp [run]
  | cons a as ih =>
    simp only [List.cons_append, run_cons, ih]
    constructor
    · rintro ⟨u, hu, v, hv, ht⟩; exact ⟨v, ⟨u, hu, hv⟩, ht⟩
    · rintro ⟨v, ⟨u, hu, hv⟩, ht⟩; exact ⟨u, hu, v, hv, ht⟩

theorem Meets.append (h : Meets step ok s (as ++ bs)) :
    Meets step ok s as ∧ ∀ u, run step s as = some u → Meets step ok u bs := by
  induction as generalizing s with
  | nil => exact ⟨trivial, fun u hu => by cases hu; exact h⟩
  | cons a as ih =>
    obtain ⟨ha, ht⟩ := h
    refine ⟨⟨ha, fun t hst => (ih (ht t hst)).1⟩, fun u hu => ?_⟩
    obtain ⟨v, hv, hvu⟩ := run_cons.mp hu
    exact (ih (ht v hv)).2 u hvu

theorem Meets.mono {ok' : σ → α → Prop} (himp : ∀ s a, ok s a → ok' s a)
    (h : Meets step ok s as) : Meets step ok' s as := by
  induction as generalizing s with
  | nil => trivial
  | cons a as ih => exact ⟨himp _ _ h.1, fun t hst => ih (h.2 t hst)⟩

theorem meets_true : Meets step (fun _ _ => True) s as := by
  induction as generalizing s with
  | nil => trivial
  | cons a as ih => exact ⟨trivial, fun _ _ => ih⟩

/-- **Invariant rule.** What every step meeting `ok` preserves holds at the end of every run whose
steps all meet `ok`. -/
theorem run_invariant {Inv : σ → Prop}
    (hstep : ∀ s a t, Inv s → ok s a → step s a = some t → Inv t)
    (h0 : Inv s) (hok : Meets step ok s as) (hrun : run step s as = some t) : Inv t := by
  induction as generalizing s with
  | nil => cases hrun; exact h0
  | cons a as ih =>
    obtain ⟨u, hu, hrest⟩ := run_cons.mp hrun
    exact ih (hstep s a u h0 hok.1 hu) (hok.2 u hu) hrest

end Lib
