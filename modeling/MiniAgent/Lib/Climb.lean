import Mathlib.Data.List.Nodup
import Mathlib.Data.List.Perm.Subperm
import Mathlib.Tactic.Common

/-!
# Climbing a parent function

`up a` is the parent of `a`. `Climbs up top a path` says that following `up` from `a` ends at an
element of `top`; `path` lists what is passed, from `a` on. Where nothing of `top` has a parent the
path is determined by its start, so it passes no element twice and is no longer than a list of
all elements it may pass.
-/

namespace Lib

variable {α : Type}

inductive Climbs (up : α → Option α) (top : α → Prop) : α → List α → Prop where
  | stop {a : α} (h : top a) : Climbs up top a [a]
  | step {a b : α} {path : List α} (h : up a = some b) (rest : Climbs up top b path) :
      Climbs up top a (a :: path)

namespace Climbs

variable {up up' : α → Option α} {top : α → Prop} {a b : α} {path path' : List α}

theorem mono (hup : ∀ a b, up a = some b → up' a = some b) (h : Climbs up top a path) :
    Climbs up' top a path := by
  induction h with
  | stop h => exact .stop h
  | step h _ ih => exact .step (hup _ _ h) ih

theorem head (h : Climbs up top a path) : path.head? = some a := by
  cases h <;> rfl

/-- What holds at the start and at every parent holds along the path. -/
theorem forall_mem {P : α → Prop} (hup : ∀ a b, P a → up a = some b → P b)
    (h : Climbs up top a path) (ha : P a) :
    ∀ b ∈ path, P b := by
  induction h with
  | stop _ => intro b hb; cases List.mem_singleton.mp hb; exact ha
  | step h _ ih =>
    intro b hb
    rcases List.mem_cons.mp hb with rfl | hb
    · exact ha
    · exact ih (hup _ _ ha h) b hb

theorem unique (htop : ∀ a, top a → up a = none) (h : Climbs up top a path)
    (h' : Climbs up top a path') :
    path = path' := by
  induction h generalizing path' with
  | stop ha =>
    cases h' with
    | stop _ => rfl
    | step hup _ => rw [htop _ ha] at hup; cases hup
  | step hup _ ih =>
    cases h' with
    | stop ha => rw [htop _ ha] at hup; cases hup
    | step hup' rest' =>
      rw [hup] at hup'
      cases hup'
      rw [ih rest']

/-- Every element of a path climbs to the same end by a part of it. -/
theorem exists_of_mem (h : Climbs up top a path) (hb : b ∈ path) :
    ∃ part, Climbs up top b part ∧ part.length ≤ path.length := by
  induction h with
  | stop ha => cases List.mem_singleton.mp hb; exact ⟨_, .stop ha, Nat.le_refl _⟩
  | step hup rest ih =>
    rcases List.mem_cons.mp hb with rfl | hb
    · exact ⟨_, .step hup rest, Nat.le_refl _⟩
    · obtain ⟨part, hpart, hle⟩ := ih hb
      exact ⟨part, hpart, Nat.le_trans hle (Nat.le_succ _)⟩

/-- What is passed before the end has a parent. -/
theorem exists_up {below above : List α} (h : Climbs up top a (below ++ b :: above)) :
    ∀ c ∈ below, ∃ d, up c = some d := by
  induction below generalizing a with
  | nil => intro c hc; cases hc
  | cons x below ih =>
    intro c hc
    generalize hl : x :: below ++ b :: above = path at h
    cases h with
    | stop _ => simp at hl
    | step hup rest =>
      obtain ⟨rfl, rfl⟩ := List.cons.inj hl
      rcases List.mem_cons.mp hc with rfl | hc
      · exact ⟨_, hup⟩
      · exact ih rest c hc

theorem nodup (htop : ∀ a, top a → up a = none) (h : Climbs up top a path) : path.Nodup := by
  induction h with
  | stop _ => exact List.nodup_singleton _
  | step hup rest ih =>
    refine List.nodup_cons.mpr ⟨fun hmem => ?_, ih⟩
    -- the element would climb by its own path and by a shorter one
    obtain ⟨part, hpart, hle⟩ := rest.exists_of_mem hmem
    have hlen := congrArg List.length (unique htop (.step hup rest) hpart)
    rw [List.length_cons] at hlen
    omega

theorem length_le (htop : ∀ a, top a → up a = none) (h : Climbs up top a path) {all : List α}
    (hall : ∀ b ∈ path, b ∈ all) : path.length ≤ all.length :=
  ((h.nodup htop).subperm hall).length_le

end Climbs

end Lib
